import Mathlib.Data.List.Induction
import Mathlib.Data.List.TakeWhile
import PlZero.Scope

/-!
# Histories of a scope

Whatever is asked of a scope (`Scope.Request`), a declaration is added behind the others, the last
one gets a size, those behind the last procedure are dropped, or the scope stays as it is
(`Scope.Served`). So the main procedure stands in front for good, a name is declared once at each
level, and only variables have a size (`Scope.Regular`). The declarations stand in the order in
which they were made (`Scope.MadeAt`), and a name means the last of those that are left
(`Scope.Means`).
-/

namespace PlZero.Scope

/-! ### Requests -/

/-- What can be asked of a scope. -/
inductive Request
  /-- To declare a name while one block more than `level` is open. -/
  | declare (name : String) (kind : Kind) (level : Nat)
  | recordSize (size : Int)
  | close
  | lookup (name : String)
  | resolve (name : String) (use : Use)
  | arraySize (name : String)
  | checkPlain (name : String)
  | list
  deriving DecidableEq, Repr

/-- What is answered. -/
inductive Answer
  | found (d? : Option Declaration)
  | size (n : Nat)
  | all (ds : List Declaration)
  | done
  deriving DecidableEq, Repr

/-- What an operation answers that may change the scope, and the scope that it leaves. -/
def answered {α : Type} (answer : α → Answer) :
    EStateM.Result StaticError Scope α → Except StaticError Answer × Scope
  | .ok a s => (.ok (answer a), s)
  | .error e s => (.error e, s)

/-- The answer to a request, and the scope afterwards. -/
def Request.serve (r : Request) (s : Scope) : Except StaticError Answer × Scope :=
  match r with
  | declare x kind level => answered (fun d => .found (some d)) (declaring x kind (level + 1) s)
  | recordSize n => answered .size (recordingSize n s)
  | close => (.ok .done, s.close)
  | lookup x => (.ok (.found (s.lookup x)), s)
  | resolve x use => ((s.resolve x use).map fun d => .found (some d), s)
  | arraySize x => ((s.arraySize x).map .size, s)
  | checkPlain x => ((s.checkPlain x).map fun _ => .done, s)
  | list => (.ok (.all s.toList), s)

/-- The scope after some requests, one after the other. -/
def after (history : List Request) : Scope :=
  history.foldl (fun s r => (r.serve s).2) initial

theorem after_concat (history : List Request) (r : Request) :
    after (history ++ [r]) = (r.serve (after history)).2 := by
  simp [after]

/-! ### Single requests -/

variable {s s' : Scope} {r : Request} {answer : Except StaticError Answer} {x : String}
  {kind : Kind} {level : Nat} {n : Int} {d : Declaration} {history : List Request}

/-- The name means the last of the declarations that bear it. -/
def Means (s : Scope) (x : String) : Option Declaration → Prop
  | none => ∀ d ∈ s.toList, d.name ≠ x
  | some d => ∃ before after, s.toList = before ++ d :: after ∧ d.name = x ∧ ∀ e ∈ after, e.name ≠ x

/-- The request only asks how a name may be used, or for all declarations. -/
def Request.IsCheck : Request → Prop
  | resolve _ _ | arraySize _ | checkPlain _ | list => True
  | _ => False

/-- How a request is served: its answer, and what becomes of the scope. -/
inductive Served (s : Scope) : Request → Except StaticError Answer → Scope → Prop
  | declared {x : String} {kind : Kind} {level : Nat} {s' : Scope}
    (is_new : ∀ d ∈ s.toList, ¬ (d.name = x ∧ d.level = level))
    (toList_eq : s'.toList = s.toList ++ [⟨x, kind, level, none⟩]) :
    Served s (.declare x kind level) (.ok (.found (some ⟨x, kind, level, none⟩))) s'
  | duplicate {x : String} {kind : Kind} {level : Nat} {d : Declaration} (mem : d ∈ s.toList)
    (name_eq : d.name = x) (level_eq : d.level = level) :
    Served s (.declare x kind level) (.error (.duplicate x)) s
  | sized {n : Int} {before : List Declaration} {d : Declaration} {s' : Scope}
    (kind_eq : d.kind = .variable) (in_range : 1 ≤ n ∧ n ≤ maxNumber)
    (before_eq : s.toList = before ++ [d])
    (toList_eq : s'.toList = before ++ [{ d with size := some n.toNat }]) :
    Served s (.recordSize n) (.ok (.size n.toNat)) s'
  | outOfRange {n : Int} {d : Declaration} (last_eq : s.toList.getLast? = some d)
    (kind_eq : d.kind = .variable) (out_of_range : ¬ (1 ≤ n ∧ n ≤ maxNumber)) :
    Served s (.recordSize n) (.error (.sizeOutOfRange n)) s
  | noVariable {n : Int} (kind_ne : ∀ d ∈ s.toList.getLast?, d.kind ≠ .variable) :
    Served s (.recordSize n) (.error .sizeOfNonVariable) s
  | closed {dropped : List Declaration} {p : Declaration} {s' : Scope}
    (toList_eq : s.toList = s'.toList ++ dropped)
    (kind_ne : ∀ d ∈ dropped, d.kind ≠ .procedure)
    (last_eq : s'.toList.getLast? = some p) (kind_eq : p.kind = .procedure) :
    Served s .close (.ok .done) s'
  | found {x : String} {d? : Option Declaration} (means : s.Means x d?) :
    Served s (.lookup x) (.ok (.found d?)) s
  | checked {r : Request} {answer : Except StaticError Answer} (isCheck : r.IsCheck) :
    Served s r answer s

theorem Served.eq_of_error {e : StaticError} (h : Served s r (.error e) s') : s' = s := by
  cases h <;> rfl

/-- A list and its last member, read backwards. -/
theorem newestFirst_eq_cons {older : List Declaration} :
    s.newestFirst = d :: older ↔ s.toList = older.reverse ++ [d] := by
  rw [toList, ← List.reverse_inj, List.reverse_cons]

theorem served_declare (x : String) (kind : Kind) (level : Nat) :
    Served s (.declare x kind level) ((Request.declare x kind level).serve s).1
      ((Request.declare x kind level).serve s).2 := by
  have htaken : (s.newestFirst.any fun d => d.name = x && d.level = level) = true ↔
      ∃ d ∈ s.toList, d.name = x ∧ d.level = level := by
    simp [toList]
  simp only [Request.serve, declaring_eq, Nat.add_sub_cancel]
  split
  · next hany =>
    obtain ⟨d, hd, hname, hlevel⟩ := htaken.mp hany
    exact .duplicate hd hname hlevel
  · next hnone =>
    refine .declared (fun d hd hsame => hnone (htaken.mpr ⟨d, hd, hsame⟩)) ?_
    simp [toList, answered]

theorem served_recordSize (n : Int) :
    Served s (.recordSize n) ((Request.recordSize n).serve s).1
      ((Request.recordSize n).serve s).2 := by
  simp only [Request.serve, recordingSize_eq]
  split
  · next hnewest =>
    split
    · next hrange =>
      exact .sized rfl hrange (newestFirst_eq_cons.mp hnewest) (newestFirst_eq_cons.mp rfl)
    · next hrange =>
      have hlast := congrArg List.getLast? (newestFirst_eq_cons.mp hnewest)
      rw [List.getLast?_concat] at hlast
      exact .outOfRange hlast rfl hrange
  · next hother =>
    refine .noVariable fun d hd hkind => ?_
    obtain ⟨older, holder⟩ := List.head?_eq_some_iff.mp ((List.getLast?_reverse).symm.trans hd)
    obtain ⟨name, _, level, size⟩ := d
    cases hkind
    exact hother _ _ _ _ holder

/-- Where there is a procedure to stop at, the declarations behind the last one are dropped. -/
theorem served_close (h : ∃ p ∈ s.toList, p.kind = .procedure) :
    Served s .close (.ok .done) s.close := by
  let isLocal : Declaration → Bool := fun d => d.kind ≠ .procedure
  have hne : s.newestFirst.dropWhile isLocal ≠ [] := by
    intro hnil
    obtain ⟨p, hp, hkind⟩ := h
    simpa [isLocal, hkind] using List.dropWhile_eq_nil_iff.mp hnil p (List.mem_reverse.mp hp)
  obtain ⟨p, older, hclose⟩ := List.exists_cons_of_ne_nil hne
  have hlast : s.close.toList = older.reverse ++ [p] := newestFirst_eq_cons.mp hclose
  have hsplit : s.newestFirst.takeWhile isLocal ++ s.close.newestFirst = s.newestFirst :=
    List.takeWhile_append_dropWhile
  have hdropped : ∀ d ∈ (s.newestFirst.takeWhile isLocal).reverse, d.kind ≠ .procedure :=
    fun d hd => by simpa [isLocal] using List.mem_takeWhile_imp (List.mem_reverse.mp hd)
  refine .closed ?_ hdropped (hlast ▸ List.getLast?_concat) ?_
  · rw [toList, toList, ← List.reverse_append, hsplit]
  · have hstop := List.head?_dropWhile_not isLocal s.newestFirst
    rw [hclose] at hstop
    simpa [isLocal] using hstop

/-- What has been declared behind a procedure is dropped, unless it is a procedure itself. -/
theorem close_of_append {base : Scope} {own : List Declaration}
    (newest_eq : base.newest?.map Declaration.kind = some .procedure)
    (kind_ne : ∀ d ∈ own, d.kind ≠ .procedure) (h : s.newestFirst = own ++ base.newestFirst) :
    s.close = base := by
  obtain ⟨p, hp, hkind⟩ := Option.map_eq_some_iff.mp newest_eq
  obtain ⟨older, holder⟩ := List.head?_eq_some_iff.mp hp
  rw [close, h, List.dropWhile_append_of_pos (by simpa using kind_ne), holder,
    List.dropWhile_cons_of_neg (by simp [hkind]), ← holder]

theorem means_lookup (x : String) : s.Means x (s.lookup x) := by
  cases hfind : s.lookup x with
  | none =>
    intro d hd hname
    have hnone := List.find?_eq_none.mp hfind d (List.mem_reverse.mp hd)
    simp [hname] at hnone
  | some d =>
    obtain ⟨hname, newer, older, hsplit, hnewer⟩ := List.find?_eq_some_iff_append.mp hfind
    refine ⟨older.reverse, newer.reverse, ?_, by simpa using hname, fun e he => ?_⟩
    · simp [toList, hsplit]
    · simpa using hnewer e (List.mem_reverse.mp he)

/-- **How a request is served**, as long as there is a procedure in the scope. -/
theorem served (h : ∃ p ∈ s.toList, p.kind = .procedure) (r : Request) :
    Served s r (r.serve s).1 (r.serve s).2 := by
  cases r with
  | declare x kind level => exact served_declare x kind level
  | recordSize n => exact served_recordSize n
  | close => exact served_close h
  | lookup x => exact .found (means_lookup x)
  | resolve | arraySize | checkPlain | list => exact .checked trivial

/-! ### Invariants -/

/-- What holds of a scope at all times. -/
structure Regular (s : Scope) : Prop where
  first_eq : s.toList.head? = some ⟨"main", .procedure, 0, none⟩
  /-- Each level has each name once. -/
  nodup : (s.toList.map fun d => (d.name, d.level)).Nodup
  sized : ∀ d ∈ s.toList, ∀ n ∈ d.size, d.kind = .variable ∧ 1 ≤ n ∧ n ≤ maxNumber

theorem Regular.exists_procedure (h : s.Regular) : ∃ p ∈ s.toList, p.kind = .procedure :=
  ⟨_, List.mem_of_mem_head? h.first_eq, rfl⟩

theorem regular_initial : initial.Regular where
  first_eq := rfl
  nodup := by decide
  sized := by simp [initial, toList, Declaration.main]

/-- What is given a size is not the main procedure, so that stands before it. -/
theorem Regular.head_of_sized (h : s.Regular) {before : List Declaration}
    (kind_eq : d.kind = .variable) (before_eq : s.toList = before ++ [d]) :
    before.head? = some ⟨"main", .procedure, 0, none⟩ := by
  have hhead := h.first_eq
  rw [before_eq, List.head?_append] at hhead
  cases hbefore : before.head? with
  | none =>
    rw [hbefore] at hhead
    obtain rfl : d = _ := Option.some.inj hhead
    cases kind_eq
  | some first => rwa [hbefore] at hhead

/-- **Every request keeps the scope regular.** -/
theorem Regular.of_served (h : s.Regular) (hserved : Served s r answer s') : s'.Regular := by
  cases hserved with
  | duplicate | outOfRange | noVariable | found | checked => exact h
  | declared is_new toList_eq =>
    refine ⟨?_, ?_, ?_⟩
    · rw [toList_eq, List.head?_append, h.first_eq]
      rfl
    · rw [toList_eq, List.map_append, List.nodup_append]
      refine ⟨h.nodup, List.pairwise_singleton _ _, fun key hkey _ hnew hsame => ?_⟩
      obtain ⟨d, hd, rfl⟩ := List.mem_map.mp hkey
      exact is_new d hd (Prod.mk.inj (hsame.trans (List.mem_singleton.mp hnew)))
    · rw [toList_eq]
      exact List.forall_mem_append.mpr ⟨h.sized, by simp⟩
  | @sized n before d s' kind_eq in_range before_eq toList_eq =>
    refine ⟨?_, ?_, ?_⟩
    · rw [toList_eq, List.head?_append, h.head_of_sized kind_eq before_eq]
      rfl
    · have hnodup := h.nodup
      rw [before_eq, List.map_append] at hnodup
      rwa [toList_eq, List.map_append]
    · rw [toList_eq]
      refine List.forall_mem_append.mpr ⟨fun e he => ?_, List.forall_mem_singleton.mpr ?_⟩
      · exact h.sized e (before_eq ▸ List.mem_append_left [d] he)
      · rintro _ ⟨⟩
        exact ⟨kind_eq, by omega⟩
  | @closed dropped p s' toList_eq kind_ne last_eq kind_eq =>
    have hsublist := List.sublist_append_left s'.toList dropped
    rw [← toList_eq] at hsublist
    refine ⟨?_, h.nodup.sublist (hsublist.map _), fun d hd => h.sized d (hsublist.subset hd)⟩
    obtain ⟨first, rest, hfirst⟩ :=
      List.exists_cons_of_ne_nil (List.ne_nil_of_mem (List.mem_of_getLast? last_eq))
    have hhead := h.first_eq
    rw [toList_eq, hfirst] at hhead
    rwa [hfirst]

theorem regular_after (history : List Request) : (after history).Regular := by
  induction history using List.reverseRecOn with
  | nil => exact regular_initial
  | append_singleton history r ih =>
    rw [after_concat]
    exact ih.of_served (served ih.exists_procedure r)

/-! ### The order of the declarations -/

/-- The request that a declaration was made by. -/
def Request.ofDeclaration (d : Declaration) : Request := .declare d.name d.kind d.level

/-- The declarations were made by the requests of these times, which succeeded, one after the other.
-/
structure MadeAt (history : List Request) (times : List Nat) (ds : List Declaration) : Prop where
  increasing : times.Pairwise (· < ·)
  requests_eq : times.map (history[·]?) = ds.map fun d => some (.ofDeclaration d)
  succeeded : ∀ t ∈ times, ∀ r ∈ history[t]?, ∃ a, (r.serve (after (history.take t))).1 = .ok a

variable {times : List Nat} {ds dropped : List Declaration}

namespace MadeAt

theorem lt_length (h : MadeAt history times ds) : ∀ t ∈ times, t < history.length := by
  intro t ht
  have hmem : history[t]? ∈ ds.map fun d => some (.ofDeclaration d) :=
    h.requests_eq ▸ List.mem_map_of_mem ht
  obtain ⟨d, -, hd⟩ := List.mem_map.mp hmem
  exact (List.getElem?_eq_some_iff.mp hd.symm).1

/-- Later requests change nothing about the earlier ones. -/
theorem concat (h : MadeAt history times ds) (r : Request) :
    MadeAt (history ++ [r]) times ds := by
  have hsame : ∀ t ∈ times, (history ++ [r])[t]? = history[t]? := fun t ht =>
    List.getElem?_append_left (h.lt_length t ht)
  refine ⟨h.increasing, ?_, fun t ht q hq => ?_⟩
  · rw [← h.requests_eq]
    exact List.map_congr_left hsame
  · rw [List.take_append_of_le_length (h.lt_length t ht).le]
    exact h.succeeded t ht q (hsame t ht ▸ hq)

/-- A declaration is made later than those before it. -/
theorem push {a : Answer} (h : MadeAt history times ds)
    (hserve : ((Request.ofDeclaration d).serve (after history)).1 = .ok a) :
    MadeAt (history ++ [.ofDeclaration d]) (times ++ [history.length]) (ds ++ [d]) := by
  have hold := h.concat (.ofDeclaration d)
  have hnow : (history ++ [Request.ofDeclaration d])[history.length]? = some (.ofDeclaration d) :=
    List.getElem?_concat_length
  refine ⟨?_, ?_, List.forall_mem_append.mpr ⟨hold.succeeded, List.forall_mem_singleton.mpr ?_⟩⟩
  · rw [List.pairwise_append]
    refine ⟨h.increasing, List.pairwise_singleton _ _, fun t ht u hu => ?_⟩
    exact List.mem_singleton.mp hu ▸ h.lt_length t ht
  · rw [List.map_append, List.map_append, hold.requests_eq, List.map_singleton, hnow]
    rfl
  · rw [hnow, List.take_left]
    rintro _ ⟨⟩
    exact ⟨a, hserve⟩

theorem of_append (h : MadeAt history times (ds ++ dropped)) :
    ∃ early, MadeAt history early ds := by
  have hrequests := h.requests_eq
  rw [List.map_append] at hrequests
  obtain ⟨early, late, rfl, hearly, -⟩ := List.map_eq_append_iff.mp hrequests
  exact ⟨early, (List.pairwise_append.mp h.increasing).1, hearly, fun t ht =>
    h.succeeded t (List.mem_append_left late ht)⟩

/-- **Every request keeps the order of the declarations.** -/
theorem of_served (h : MadeAt history times (after history).toList.tail)
    (hregular : (after history).Regular)
    (hserved : Served (after history) r (r.serve (after history)).1 s') :
    ∃ times', MadeAt (history ++ [r]) times' s'.toList.tail := by
  generalize hanswer : (r.serve (after history)).1 = answer at hserved
  cases hserved with
  | duplicate | outOfRange | noVariable | found | checked => exact ⟨times, h.concat _⟩
  | @declared x kind level s' is_new toList_eq =>
    have hne := List.ne_nil_of_mem (List.mem_of_mem_head? hregular.first_eq)
    rw [toList_eq, List.tail_append_of_ne_nil hne]
    exact ⟨_, h.push (d := ⟨x, kind, level, none⟩) hanswer⟩
  | @sized n before d s' kind_eq in_range before_eq toList_eq =>
    have hhead := hregular.head_of_sized kind_eq before_eq
    have hne := List.ne_nil_of_mem (List.mem_of_mem_head? hhead)
    have hold := h.concat (.recordSize n)
    have hrequests := hold.requests_eq
    rw [before_eq, List.tail_append_of_ne_nil hne, List.map_append] at hrequests
    refine ⟨times, hold.increasing, ?_, hold.succeeded⟩
    rw [toList_eq, List.tail_append_of_ne_nil hne, List.map_append]
    exact hrequests
  | @closed dropped p s' toList_eq kind_ne last_eq kind_eq =>
    have hne := List.ne_nil_of_mem (List.mem_of_getLast? last_eq)
    rw [toList_eq, List.tail_append_of_ne_nil hne] at h
    obtain ⟨early, hearly⟩ := h.of_append
    exact ⟨early, hearly.concat .close⟩

end MadeAt

/-- Behind the main procedure, the declarations of a scope stand in the order in which they were
made. -/
theorem exists_madeAt (history : List Request) :
    ∃ times, MadeAt history times (after history).toList.tail := by
  induction history using List.reverseRecOn with
  | nil => exact ⟨[], .nil, rfl, by simp⟩
  | append_singleton history r ih =>
    obtain ⟨times, htimes⟩ := ih
    have hregular := regular_after history
    rw [after_concat]
    exact htimes.of_served hregular (served hregular.exists_procedure r)

/-! ### The result -/

/-- **What a scope is after any history.** The main procedure stands in front, no level has a name
twice, and sizes are those of variables and in range. The declarations stand in the order in which
they were made, so the last one that bears a name is the newest; that is the one which is looked up.
A request that fails leaves the scope, and one that succeeds changes no more than it says: a
declaration is added behind the others, the last one gets a size, or those behind the last procedure
are dropped. -/
theorem scope_of_history (history : List Request) :
    (after history).Regular ∧
      (∃ times, MadeAt history times (after history).toList.tail) ∧
      (∀ r : Request,
        Served (after history) r (r.serve (after history)).1 (r.serve (after history)).2) ∧
      ∀ (r : Request) (e : StaticError), (r.serve (after history)).1 = .error e →
        (r.serve (after history)).2 = after history := by
  have hregular := regular_after history
  have hserved := served hregular.exists_procedure
  refine ⟨hregular, exists_madeAt history, hserved, fun r e he => ?_⟩
  have hfailed := hserved r
  rw [he] at hfailed
  exact hfailed.eq_of_error

/-- What a procedure has declared is dropped, and the array that it has hidden is meant again. -/
example : (after [.declare "x" .variable 0, .recordSize 3, .declare "p" .procedure 0,
    .declare "x" .constant 1, .recordSize 4, .close]).lookup "x" =
      some ⟨"x", .variable, 0, some 3⟩ := by decide

end PlZero.Scope
