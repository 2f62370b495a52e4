import PlZero.Proofs.Progress
import PlZero.Proofs.StaticRules

/-!
# What fills a slot

Filling a slot is taken apart here once. A token that fills a slot is one of a few cases, each of
which says what becomes of the scope and what is written (`Slot.fills_of_fill`). The slots of
statements and expressions that take a name are one case: they look the name up, check how it is
used, and write one fragment for what they have found (`fill_name`).

A token that fills no slot breaks the grammar or a rule about names, and then it is clear which
(`Slot.refuses_of_fill`).
-/

namespace PlZero

open PlZero.Tree (resolve_eq_ok_iff)

variable {slot : Slot} {use : Use} {x : String} {depth : Nat} {scope scope' : Scope} {t : Token}
  {f : Option Fragment} {e : StaticError}

/-! ### Rules about names -/

theorem name_of_lookup {d : Declaration} (h : scope.lookup x = some d) : d.name = x := by
  simpa using List.find?_some h

theorem checkPlain_eq_ok_iff {d : Declaration} (h : scope.lookup x = some d) :
    scope.checkPlain x = .ok () ↔ d.size = none := by
  obtain ⟨name, kind, level, size⟩ := d
  cases size <;> simp [Scope.checkPlain, h]

theorem arraySize_eq_ok_iff {d : Declaration} {n : Nat} (h : scope.lookup x = some d) :
    scope.arraySize x = .ok n ↔ d.size = some n := by
  obtain ⟨name, kind, level, size⟩ := d
  cases size <;> simp [Scope.arraySize, h]

/-- A rule about names and what follows it succeed both, or not at all. -/
theorem orStatic_bind_eq_ok_iff {α β : Type} {e : Except StaticError α} {k : α → Except Failure β}
    {r : β} : (orStatic e >>= k) = .ok r ↔ ∃ a, e = .ok a ∧ k a = .ok r := by
  cases e <;> simp [bind, Except.bind]

/-- Either a rule about names is broken, or what follows it fails. -/
theorem orStatic_bind_eq_error_iff {α β : Type} {e : Except StaticError α}
    {k : α → Except Failure β} {err : Failure} :
    (orStatic e >>= k) = .error err ↔
      (∃ a, e = .error a ∧ err = .static a) ∨ ∃ a, e = .ok a ∧ k a = .error err := by
  cases e <;> simp [bind, Except.bind, eq_comm]

/-! ### Names in slots -/

/-- How a slot of a statement or an expression uses a name. -/
def Slot.use? : Slot → Option Use
  | target | stored _ | printedText => some .target
  | operand | printed _ => some .operand
  | callee => some .callee
  | _ => none

/-- What a slot writes for the name of a declaration. -/
def Slot.fragmentFor (slot : Slot) (d : Declaration) : Fragment :=
  match slot with
  | stored form => .read form d.name
  | printed form => .print form (.name d.name)
  | printedText => .printArray d.name (d.size.getD 0)
  | callee => .call d.name
  | _ => .name d.name

/-- Whether a slot takes the name of something of this size; two slots leave it to the next goal. -/
def Slot.SizeFits (slot : Slot) (size : Option Nat) : Prop :=
  match slot with
  | stored _ | printed _ => size = none
  | printedText => size ≠ none
  | _ => True

/-! ### Tokens that fill a slot -/

/-- **What fills a slot**, the scope that it leaves and the fragment that it writes. -/
inductive Slot.Fills (depth : Nat) (scope : Scope) :
    Slot → Token → Scope → Option Fragment → Prop
  | skipped (e : Fixed) : Fills depth scope (.skipped e) e.token scope none
  | written (e : Fixed) (f : Fragment) : Fills depth scope (.written e f) e.token scope (some f)
  | declared {kind : Kind} {x : String} {scope' : Scope}
    (declare_eq : declareName scope x kind depth = .ok scope') :
    Fills depth scope (.declared kind) (.name x) scope' (some (declarationHead kind x))
  | constantValue (value : Int) (digits : String) :
    Fills depth scope .constantValue (.number value digits) scope (some (.constantValue value))
  | arrayBound {value : Int} {size : Nat} {scope' : Scope} (digits : String)
    (record_eq : scope.recordSize value = .ok (size, scope')) :
    Fills depth scope .arrayBound (.number value digits) scope' (some (.arrayBound size))
  | relation (r : Tree.Relation) :
    Fills depth scope .relation (.mark r.mark) scope (some r.fragment)
  /-- A name that is used, and what it means. -/
  | used {slot : Slot} {use : Use} {d : Declaration} (use_eq : slot.use? = some use)
    (lookup_eq : scope.lookup d.name = some d) (allows : use.Allows d.kind)
    (fits : slot.SizeFits d.size) :
    Fills depth scope slot (.name d.name) scope (some (slot.fragmentFor d))
  | operand (value : Int) (digits : String) :
    Fills depth scope .operand (.number value digits) scope (some (.number value))
  | printed (form : Form) (value : Int) (digits : String) :
    Fills depth scope (.printed form) (.number value digits) scope
      (some (.print form (.number value)))
  | printedText (content : String) :
    Fills depth scope .printedText (.text content) scope (some (.printText content))

/-- **A slot that uses a name** finds what it means, which is of a kind and a size that allow the
use; it leaves the scope as it is, and writes the fragment for what was found. -/
theorem fill_name (huse : slot.use? = some use)
    (h : slot.fill depth scope (.name x) = .ok (scope', f)) :
    ∃ d, scope.lookup x = some d ∧ use.Allows d.kind ∧ slot.SizeFits d.size ∧ scope' = scope ∧
      f = some (slot.fragmentFor d) := by
  cases slot with
  | skipped | written | declared | constantValue | arrayBound | relation => cases huse
  | target | operand | callee =>
    cases huse
    obtain ⟨d, hd, hr⟩ := orStatic_bind_eq_ok_iff.mp h
    obtain ⟨hlookup, hallows⟩ := resolve_eq_ok_iff.mp hd
    obtain ⟨rfl, rfl⟩ := Prod.mk.inj (Except.ok.inj hr)
    obtain rfl := name_of_lookup hlookup
    exact ⟨d, hlookup, hallows, trivial, rfl, rfl⟩
  | printed form | stored form =>
    cases huse
    obtain ⟨d, hd, hr⟩ := orStatic_bind_eq_ok_iff.mp h
    obtain ⟨⟨⟩, hplain, hr⟩ := orStatic_bind_eq_ok_iff.mp hr
    obtain ⟨hlookup, hallows⟩ := resolve_eq_ok_iff.mp hd
    obtain ⟨rfl, rfl⟩ := Prod.mk.inj (Except.ok.inj hr)
    obtain rfl := name_of_lookup hlookup
    exact ⟨d, hlookup, hallows, (checkPlain_eq_ok_iff hlookup).mp hplain, rfl, rfl⟩
  | printedText =>
    cases huse
    obtain ⟨d, hd, hr⟩ := orStatic_bind_eq_ok_iff.mp h
    obtain ⟨n, hn, hr⟩ := orStatic_bind_eq_ok_iff.mp hr
    obtain ⟨hlookup, hallows⟩ := resolve_eq_ok_iff.mp hd
    obtain ⟨rfl, rfl⟩ := Prod.mk.inj (Except.ok.inj hr)
    obtain rfl := name_of_lookup hlookup
    have hsize : d.size = some n := (arraySize_eq_ok_iff hlookup).mp hn
    refine ⟨d, hlookup, hallows, ?_, rfl, ?_⟩
    · simp [Slot.SizeFits, hsize]
    · simp [Slot.fragmentFor, hsize]

theorem relation_of_fragment {f : Fragment} (h : relationFragment? t = some f) :
    ∃ r : Tree.Relation, t = .mark r.mark ∧ f = r.fragment := by
  unfold relationFragment? at h
  split at h <;> cases h
  · exact ⟨.equal, rfl, rfl⟩
  · exact ⟨.unequal, rfl, rfl⟩
  · exact ⟨.below, rfl, rfl⟩
  · exact ⟨.above, rfl, rfl⟩

/-- **Every token that fills a slot is one of the cases.** -/
theorem Slot.fills_of_fill (h : slot.fill depth scope t = .ok (scope', f)) :
    slot.Fills depth scope t scope' f := by
  cases slot with
  | skipped e | written e g =>
    simp only [Slot.fill] at h
    split at h
    · next heq =>
      cases h
      subst heq
      constructor
    · cases h
  | declared kind =>
    cases t with
    | name x =>
      obtain ⟨scope, hdeclare, hr⟩ := orStatic_bind_eq_ok_iff.mp h
      cases hr
      exact .declared hdeclare
    | _ => cases h
  | constantValue =>
    cases t with
    | number value digits =>
      cases h
      exact .constantValue value digits
    | _ => cases h
  | arrayBound =>
    cases t with
    | number value digits =>
      obtain ⟨⟨size, scope⟩, hsize, hr⟩ := orStatic_bind_eq_ok_iff.mp h
      cases hr
      exact .arrayBound digits hsize
    | _ => cases h
  | relation =>
    simp only [Slot.fill] at h
    split at h
    · next g hg =>
      cases h
      obtain ⟨r, rfl, rfl⟩ := relation_of_fragment hg
      exact .relation r
    · cases h
  | target | operand | callee | printed form | stored form | printedText =>
    cases t with
    | name x =>
      obtain ⟨d, hd, hallows, hfits, rfl, rfl⟩ := fill_name rfl h
      obtain rfl := name_of_lookup hd
      exact .used rfl hd hallows hfits
    | _ => cases h <;> constructor

/-- A slot that declares a name writes the head of its declaration. -/
theorem Slot.fill_declared {kind : Kind}
    (h : (declared kind).fill depth scope (.name x) = .ok (scope', f)) :
    declareName scope x kind depth = .ok scope' ∧ f = some (declarationHead kind x) := by
  cases Slot.fills_of_fill h with
  | declared hdeclare => exact ⟨hdeclare, rfl⟩
  | used huse => cases huse

/-- The slot for the number of elements writes a bound. -/
theorem Slot.exists_size_of_fill {f : Fragment}
    (h : arrayBound.fill depth scope t = .ok (scope', some f)) : ∃ n, f = .arrayBound n := by
  cases Slot.fills_of_fill h with
  | arrayBound => exact ⟨_, rfl⟩
  | used huse => cases huse

/-- A slot with a fragment of its own writes this one. -/
theorem Slot.eq_of_fill_written {e : Fixed} {g : Fragment}
    (h : (written e g).fill depth scope t = .ok (scope', f)) : f = some g := by
  cases Slot.fills_of_fill h with
  | written => rfl
  | used huse => cases huse

/-! ### Tokens that fill none -/

/-- The token that the grammar does not admit. -/
def SyntaxError.found : SyntaxError → Token
  | unexpected _ found | noName found | noNumber found | noRelation found | noFactor found
  | noOperand _ found | noTextOperand found | notAtEnd found => found

/-- The token that the grammar asks for, where it asks for a single one. -/
def SyntaxError.expected? : SyntaxError → Option Token
  | unexpected expected _ => some expected
  | _ => none

/-- The error is about the token `t`, and asks for a fixed token if it asks for a single one. -/
def SyntaxError.IsAbout (e : SyntaxError) (t : Token) : Prop :=
  e.found = t ∧ ∀ u ∈ e.expected?, ∃ f : Fixed, u = f.token

/-- An error that asks for no single token is about the one that it has found. -/
theorem SyntaxError.isAbout_found {e : SyntaxError} (h : e.expected? = none) : e.IsAbout e.found :=
  ⟨rfl, by simp [h]⟩

/-- **The rule about names that a token breaks in a slot.** -/
inductive Slot.Refuses (depth : Nat) (scope : Scope) : Slot → Token → StaticError → Prop
  | declared {kind : Kind} {x : String} {e : StaticError}
    (declare_eq : declareName scope x kind depth = .error e) :
    Refuses depth scope (.declared kind) (.name x) e
  | arrayBound {value : Int} {e : StaticError} (digits : String)
    (record_eq : scope.recordSize value = .error e) :
    Refuses depth scope .arrayBound (.number value digits) e
  | unresolved {slot : Slot} {use : Use} {x : String} {e : StaticError}
    (use_eq : slot.use? = some use) (resolve_eq : scope.resolve x use = .error e) :
    Refuses depth scope slot (.name x) e
  | array {slot : Slot} {x : String} {e : StaticError}
    (slot_eq : ∃ form, slot = .printed form ∨ slot = .stored form)
    (check_eq : scope.checkPlain x = .error e) : Refuses depth scope slot (.name x) e
  | noArray {x : String} {e : StaticError} (size_eq : scope.arraySize x = .error e) :
    Refuses depth scope .printedText (.name x) e

/-- **A token that does not fill a slot** breaks the grammar or a rule about names. -/
theorem Slot.refuses_of_fill {err : Failure} (h : slot.fill depth scope t = .error err) :
    (∃ e, err = .grammar e ∧ e.IsAbout t) ∨
      ∃ e, err = .static e ∧ slot.Refuses depth scope t e := by
  cases slot with
  | skipped e | written e g =>
    simp only [Slot.fill] at h
    split at h <;> cases h
    exact .inl ⟨_, rfl, rfl, fun u hu => ⟨e, (Option.some.inj hu).symm⟩⟩
  | relation =>
    simp only [Slot.fill] at h
    split at h <;> cases h
    exact .inl ⟨_, rfl, SyntaxError.isAbout_found rfl⟩
  | constantValue =>
    cases t <;> cases h <;> exact .inl ⟨_, rfl, SyntaxError.isAbout_found rfl⟩
  | arrayBound =>
    cases t with
    | number value digits =>
      obtain ⟨e, hsize, rfl⟩ | ⟨r, -, hr⟩ := orStatic_bind_eq_error_iff.mp h
      · exact .inr ⟨e, rfl, .arrayBound digits hsize⟩
      · cases hr
    | _ =>
      cases h
      exact .inl ⟨_, rfl, SyntaxError.isAbout_found rfl⟩
  | declared kind =>
    cases t with
    | name x =>
      obtain ⟨e, hdeclare, rfl⟩ | ⟨r, -, hr⟩ := orStatic_bind_eq_error_iff.mp h
      · exact .inr ⟨e, rfl, .declared hdeclare⟩
      · cases hr
    | _ =>
      cases h
      exact .inl ⟨_, rfl, SyntaxError.isAbout_found rfl⟩
  | target | operand | callee =>
    cases t with
    | name x =>
      obtain ⟨e, hresolve, rfl⟩ | ⟨r, -, hr⟩ := orStatic_bind_eq_error_iff.mp h
      · exact .inr ⟨e, rfl, .unresolved rfl hresolve⟩
      · cases hr
    | _ => cases h <;> exact .inl ⟨_, rfl, SyntaxError.isAbout_found rfl⟩
  | printed form | stored form =>
    cases t with
    | name x =>
      obtain ⟨e, hresolve, rfl⟩ | ⟨d, -, hd⟩ := orStatic_bind_eq_error_iff.mp h
      · exact .inr ⟨e, rfl, .unresolved rfl hresolve⟩
      · obtain ⟨e, hplain, rfl⟩ | ⟨r, -, hr⟩ := orStatic_bind_eq_error_iff.mp hd
        · exact .inr ⟨e, rfl, .array ⟨form, by simp⟩ hplain⟩
        · cases hr
    | _ => cases h <;> exact .inl ⟨_, rfl, SyntaxError.isAbout_found rfl⟩
  | printedText =>
    cases t with
    | name x =>
      obtain ⟨e, hresolve, rfl⟩ | ⟨d, -, hd⟩ := orStatic_bind_eq_error_iff.mp h
      · exact .inr ⟨e, rfl, .unresolved rfl hresolve⟩
      · obtain ⟨e, hsize, rfl⟩ | ⟨r, -, hr⟩ := orStatic_bind_eq_error_iff.mp hd
        · exact .inr ⟨e, rfl, .noArray hsize⟩
        · cases hr
    | _ => cases h <;> exact .inl ⟨_, rfl, SyntaxError.isAbout_found rfl⟩

/-- An error of the grammar is about the token that does not fill the slot. -/
theorem Slot.isAbout_of_fill {e : SyntaxError}
    (h : slot.fill depth scope t = .error (.grammar e)) : e.IsAbout t := by
  obtain ⟨e', herr, habout⟩ | ⟨e', herr, -⟩ := Slot.refuses_of_fill h
  · cases herr
    exact habout
  · cases herr

/-- What breaks a rule about names is refused by the slot. -/
theorem Slot.refuses_of_static (h : slot.fill depth scope t = .error (.static e)) :
    slot.Refuses depth scope t e := by
  obtain ⟨e', herr, -⟩ | ⟨e', herr, hrefuses⟩ := Slot.refuses_of_fill h
  · cases herr
  · cases herr
    exact hrefuses

end PlZero
