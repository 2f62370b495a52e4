import PlZero.Proofs.C.Frames
import PlZero.Proofs.Uses

/-!
# Declarations and symbols

The compiler looks names up in one list of declarations, which is cut back behind every procedure; C
looks them up in its open frames. Declarations and symbols are aligned (`Aligned`) when they are the
same in the same order, each symbol being what C reads where its declaration was made (`Stands`).

Among the declarations of a block those made there are aligned with the innermost frame (`AtHome`),
and in its body all that is visible is aligned with all frames (`InBody`), so that a name means the
same to both (`InBody.find?`).
-/

namespace PlZero

open C (Reader specifiers)

variable {items : List Item}

/-- The reader behind what a state has written. -/
def State.reader (s : State) : Reader := Reader.start.read (cTokens s.fragments)

theorem State.position_reader (s : State) :
    s.reader.position = (cTokens s.fragments).length := by
  simp [State.reader, C.Reader.position_read, Reader.start]

/-! ### Declarations and their symbols -/

/-- The declaration `d` was made while `older` was declared, and `y` is what C has read there, with
the bound that has been added since. -/
structure Stands (items : List Item) (d : Declaration) (older : List Declaration)
    (y : C.Symbol) : Prop where
  free : isReserved d.name = false
  variable_of_size : d.size ≠ none → d.kind = .variable
  made : ∃ gs s, Visited items (.fill (.declared d.kind) :: gs) s ∧
    s.lookahead.value = .name d.name ∧ s.scope.newestFirst = older ∧
      y = { declaredSymbol d.kind d.name (cTokens s.fragments).length with
        bound := d.size.map fun n : Nat => Text.decimal n }

/-- Declarations on top of `below` and their symbols, in the same order. -/
inductive Aligned (items : List Item) (below : List Declaration) :
    List Declaration → List C.Symbol → Prop
  | nil : Aligned items below [] []
  | cons {d : Declaration} {ds : List Declaration} {y : C.Symbol} {ys : List C.Symbol}
    (first : Stands items d (ds ++ below) y) (more : Aligned items below ds ys) :
    Aligned items below (d :: ds) (y :: ys)

/-- What a name means among declarations it means among their symbols. -/
theorem Aligned.find? {below ds : List Declaration} {ys : List C.Symbol}
    (h : Aligned items below ds ys) (x : String) :
    (ds.find? (fun d => d.name = x) = none ∧ ys.find? (fun y => y.name = x) = none) ∨
      ∃ d newer older y, ds.find? (fun d => d.name = x) = some d ∧
        ys.find? (fun y => y.name = x) = some y ∧ ds = newer ++ d :: older ∧
          Stands items d (older ++ below) y := by
  induction h with
  | nil => exact .inl ⟨rfl, rfl⟩
  | @cons d ds y ys first more ih =>
    have hname : y.name = d.name := by
      obtain ⟨-, -, gs, s, -, -, -, rfl⟩ := first
      rfl
    by_cases hx : d.name = x
    · exact .inr ⟨d, [], ds, y, by simp [hx], by simp [hname, hx], rfl, first⟩
    · rcases ih with ⟨hds, hys⟩ | ⟨e, newer, older, z, hds, hys, rfl, hz⟩
      · exact .inl ⟨by simp [hx, hds], by simp [hname, hx, hys]⟩
      · exact .inr ⟨e, d :: newer, older, z, by simpa [hx] using hds,
          by simpa [hname, hx] using hys, rfl, hz⟩

/-- No word of a type is a name that may be declared. -/
theorem not_mem_specifiers_of_free {x : String} (h : isReserved x = false) : x ∉ specifiers := by
  have hall : ∀ w ∈ specifiers, isReserved w = true := by decide +kernel
  intro hx
  rw [hall x hx] at h
  cases h

/-! ### Blocks -/

/-- How many blocks are open in a block. -/
def Block.depth : Block → Nat
  | program => 1
  | procedure => 2

/-- What is declared in a block is at its level; and it does not have the name of the main
procedure, or is no procedure. -/
def Suitable (b : Block) (ds : List Declaration) : Prop :=
  ∀ d ∈ ds, d.level = b.depth - 1 ∧
    match b with
    | .program => d.name ≠ "main"
    | .procedure => d.kind ≠ .procedure

theorem Suitable.nil (b : Block) : Suitable b [] := List.forall_mem_nil _

/-- Where a block begins: the declarations that are visible there, what the innermost frame holds
already, and the other frames. -/
inductive Ground (items : List Item) :
    Block → List Declaration → List C.Symbol → List (List C.Symbol) → Prop
  | program : Ground items .program [.main] preambleFrame []
  | procedure {p : Declaration} {ds : List Declaration} {ys : List C.Symbol}
    (kind : p.kind = .procedure) (aligned : Aligned items [.main] (p :: ds) ys)
    (suitable : Suitable .program (p :: ds)) :
    Ground items .procedure (p :: ds ++ [.main]) [] [ys ++ preambleFrame]

/-- Among the declarations of a block: those made there are aligned with the innermost frame. -/
def AtHome (items : List Item) (b : Block) (mode : C.Mode) (depth : Nat) (scope : Scope)
    (r : Reader) : Prop :=
  depth = b.depth ∧ ∃ below tail rest ds ys, Ground items b below tail rest ∧
    Aligned items below ds ys ∧ Suitable b ds ∧ scope.newestFirst = ds ++ below ∧
      r.At mode ((ys ++ tail) :: rest)

/-- The declarations that are visible in the body of a block, and the frames there. -/
inductive InBody (items : List Item) : Block → List Declaration → List (List C.Symbol) → Prop
  | program {ds : List Declaration} {ys : List C.Symbol} (position : Nat)
    (aligned : Aligned items [.main] ds ys) (suitable : Suitable .program ds) :
    InBody items .program (ds ++ [.main]) [mainParameters position,
      declaredSymbol .procedure "main" position :: (ys ++ preambleFrame)]
  | procedure {below ds : List Declaration} {tail ys : List C.Symbol}
    {rest : List (List C.Symbol)} (ground : Ground items .procedure below tail rest)
    (aligned : Aligned items below ds ys) (suitable : Suitable .procedure ds) :
    InBody items .procedure (ds ++ below) ((ys ++ tail) :: rest)

/-! ### Declarations in a block -/

variable {depth : Nat} {scope scope' : Scope} {r : Reader}

/-- A name that may be declared is not declared at this level yet, and so is not the main
procedure's at the level of the program. -/
theorem newestFirst_of_declareName {x : String} {kind : Kind} {b : Block}
    (h : declareName scope x kind b.depth = .ok scope') :
    isReserved x = false ∧ (b = .program → .main ∈ scope.newestFirst → x ≠ "main") ∧
      scope'.newestFirst = ⟨x, kind, b.depth - 1, none⟩ :: scope.newestFirst := by
  obtain ⟨hfree, hnew, hscope⟩ := newest_of_declareName h
  refine ⟨hfree, ?_, hscope⟩
  rintro rfl hmain rfl
  exact hnew (List.mem_map.mpr ⟨.main, List.mem_filter.mpr ⟨hmain, by decide⟩, rfl⟩)

theorem Ground.main_mem {b : Block} {below : List Declaration} {tail : List C.Symbol}
    {rest : List (List C.Symbol)} (h : Ground items b below tail rest) : .main ∈ below := by
  cases h <;> simp

/-- The declaration that is made at a visited slot stands for the symbol that C reads there. -/
theorem stands_of_declareName {s : State} {gs : List Goal} {kind : Kind} {x : String} (level : Nat)
    (hvisited : Visited items (.fill (.declared kind) :: gs) s)
    (hname : s.lookahead.value = .name x) (hfree : isReserved x = false) :
    Stands items ⟨x, kind, level, none⟩ s.scope.newestFirst
      (declaredSymbol kind x s.reader.position) where
  free := hfree
  variable_of_size := fun h => absurd rfl h
  made := ⟨gs, s, hvisited, hname, rfl, by rw [s.position_reader]; rfl⟩

/-- A constant or a variable is declared. -/
theorem AtHome.declare {s : State} {gs : List Goal} {b : Block} {kind : Kind} {x : String}
    {mode : C.Mode} (hvisited : Visited items (.fill (.declared kind) :: gs) s)
    (hname : s.lookahead.value = .name x) (hkind : kind ≠ .procedure)
    (hp : AtHome items b .plain s.depth s.scope s.reader)
    (h : declareName s.scope x kind s.depth = .ok scope')
    (hread : ∀ {top rest}, s.reader.At .plain (top :: rest) → x ∉ specifiers →
      r.At mode ((declaredSymbol kind x s.reader.position :: top) :: rest)) :
    AtHome items b mode s.depth scope' r := by
  obtain ⟨hdepth, below, tail, rest, ds, ys, hground, haligned, hsuitable, hscope, hr⟩ := hp
  rw [hdepth] at h
  obtain ⟨hfree, hmain, hscope'⟩ := newestFirst_of_declareName h
  rw [hscope] at hscope' hmain
  have hstands := stands_of_declareName (b.depth - 1) hvisited hname hfree
  rw [hscope] at hstands
  refine ⟨hdepth, below, tail, rest, _, _, hground, .cons hstands haligned, ?_, hscope',
    hread hr (not_mem_specifiers_of_free hfree)⟩
  cases b with
  | program =>
    exact List.forall_mem_cons.mpr
      ⟨⟨rfl, hmain rfl (List.mem_append_right ds hground.main_mem)⟩, hsuitable⟩
  | procedure => exact List.forall_mem_cons.mpr ⟨⟨rfl, hkind⟩, hsuitable⟩

/-- A value among declarations changes nothing. -/
theorem AtHome.quiet {b : Block} (hp : AtHome items b .plain depth scope r) {f : Fragment}
    (hf : f.IsQuiet) : AtHome items b .plain depth scope (r.read f.tokens) := by
  obtain ⟨hdepth, below, tail, rest, ds, ys, hground, haligned, hsuitable, hscope, hr⟩ := hp
  exact ⟨hdepth, below, tail, rest, ds, ys, hground, haligned, hsuitable, hscope, (hf.read hr).1⟩

/-- A bound is recorded for the declaration made last, which is a variable. -/
theorem newestFirst_of_recordSize {value : Int} {size : Nat}
    (h : scope.recordSize value = .ok (size, scope')) :
    ∃ d older, scope.newestFirst = d :: older ∧ d.kind = .variable ∧
      scope'.newestFirst = { d with size := some size } :: older := by
  simp only [Scope.recordSize_eq] at h
  split at h
  · next name level _ older hnewest =>
    split at h
    · cases h
      exact ⟨_, older, hnewest, rfl, rfl⟩
    · cases h
  · cases h

theorem Stands.bounded {d : Declaration} {older : List Declaration} {y : C.Symbol}
    (h : Stands items d older y) (hvariable : d.kind = .variable) (n : Nat) :
    Stands items { d with size := some n } older { y with bound := some (Text.decimal n) } := by
  obtain ⟨hfree, -, gs, s, hvisited, hname, holder, rfl⟩ := h
  exact ⟨hfree, fun _ => hvariable, gs, s, hvisited, hname, holder, rfl⟩

/-- At the beginning of a block the newest declaration is that of a procedure. -/
theorem Ground.exists_cons {b : Block} {below : List Declaration} {tail : List C.Symbol}
    {rest : List (List C.Symbol)} (h : Ground items b below tail rest) :
    ∃ p older, below = p :: older ∧ p.kind = .procedure := by
  cases h with
  | program => exact ⟨.main, [], rfl, rfl⟩
  | procedure kind => exact ⟨_, _, rfl, kind⟩

/-- A bound is added to the variable declared last. -/
theorem AtHome.recordSize {b : Block} {value : Int} {size : Nat}
    (hp : AtHome items b .named depth scope r)
    (h : scope.recordSize value = .ok (size, scope')) :
    AtHome items b .plain depth scope' (r.read (Fragment.arrayBound size).tokens) := by
  obtain ⟨hdepth, below, tail, rest, ds, ys, hground, haligned, hsuitable, hscope, hr⟩ := hp
  obtain ⟨d, older, hnewest, hvariable, hscope'⟩ := newestFirst_of_recordSize h
  rw [hscope] at hnewest
  cases haligned with
  | nil =>
    obtain ⟨p, olderProcedure, rfl, hprocedure⟩ := hground.exists_cons
    obtain ⟨rfl, -⟩ := List.cons.inj hnewest
    rw [hvariable] at hprocedure
    cases hprocedure
  | @cons e ds y ys first more =>
    obtain ⟨rfl, rfl⟩ := List.cons.inj hnewest
    refine ⟨hdepth, below, tail, rest, _, _, hground, .cons (first.bounded hvariable size) more, ?_,
      hscope', read_arrayBound hr size⟩
    obtain ⟨hfirst, hmore⟩ := List.forall_mem_cons.mp hsuitable
    cases b <;> exact List.forall_mem_cons.mpr ⟨hfirst, hmore⟩

/-! ### Names in a body -/

/-- **What the scope finds, the frames find**: a name of a declaration other than that of the main
procedure means to C what stands for this declaration. -/
theorem InBody.find? {b : Block} {visible : List Declaration} {frames : List (List C.Symbol)}
    (h : InBody items b visible frames) {x : String} {d : Declaration}
    (hd : visible.find? (fun d => d.name = x) = some d) (hne : d ≠ .main) :
    ∃ newer older y, frames.flatten.find? (fun y => y.name = x) = some y ∧
      visible = newer ++ d :: older ∧ Stands items d older y := by
  -- What no declaration above the main procedure bears cannot be found but as that procedure.
  have hmain {ds : List Declaration} (hnone : ds.find? (fun d => d.name = x) = none) :
      (ds ++ [Declaration.main]).find? (fun d => d.name = x) ≠ some d := by
    intro hfind
    rw [List.find?_append, hnone, Option.none_or] at hfind
    have hmem := List.mem_of_find?_eq_some hfind
    exact hne (List.mem_singleton.mp hmem)
  -- What is found in a first part is found in the whole.
  have hfirst {ds es : List Declaration} {e : Declaration}
      (hds : ds.find? (fun d => d.name = x) = some e)
      (hall : (ds ++ es).find? (fun d => d.name = x) = some d) : e = d := by
    rw [List.find?_append, hds, Option.some_or] at hall
    exact Option.some.inj hall
  cases h with
  | program position aligned suitable =>
    rcases aligned.find? x with ⟨hds, -⟩ | ⟨e, newer, older, y, hds, hys, rfl, hstands⟩
    · exact absurd hd (hmain hds)
    · obtain rfl := hfirst hds hd
      have hx : e.name = x := by simpa using List.find?_some hds
      have hfree := hx ▸ hstands.free
      have hargv : "argv" ≠ x := by rintro rfl; exact absurd hfree (by decide +kernel)
      have hargc : "argc" ≠ x := by rintro rfl; exact absurd hfree (by decide +kernel)
      have hname : "main" ≠ x := fun h =>
        (suitable e (by simp)).2 (hx.trans h.symm)
      refine ⟨newer, older ++ [.main], y, ?_, by simp, hstands⟩
      simp [mainParameters, declaredSymbol, hargv, hargc, hname, List.find?_append, hys]
  | procedure ground aligned suitable =>
    cases ground with
    | @procedure p es zs kind outer names =>
      rename_i ds ys
      rcases aligned.find? x with ⟨hds, hys⟩ | ⟨e, newer, older, y, hds, hys, rfl, hstands⟩
      · rw [List.find?_append, hds, Option.none_or] at hd
        rcases outer.find? x with ⟨hes, -⟩ | ⟨e, newer, older, y, hes, hzs, heq, hstands⟩
        · exact absurd hd (hmain hes)
        · obtain rfl := hfirst hes hd
          refine ⟨ds ++ newer, older ++ [.main], y, ?_, by simp [heq], hstands⟩
          simp [List.find?_append, hys, hzs]
      · obtain rfl := hfirst hds hd
        exact ⟨newer, _, y, by simp [List.find?_append, hys], by simp, hstands⟩

/-- A name that the scope finds in a body is no word of a type. -/
theorem InBody.not_mem_specifiers {b : Block} {frames : List (List C.Symbol)}
    (h : InBody items b scope.newestFirst frames) {x : String} {d : Declaration}
    (hd : scope.lookup x = some d) : x ∉ specifiers := by
  have hx : d.name = x := by simpa using List.find?_some hd
  by_cases hne : d = .main
  · subst hne
    exact hx ▸ (by decide : "main" ∉ specifiers)
  · obtain ⟨newer, older, y, -, -, hstands⟩ := h.find? hd hne
    exact hx ▸ not_mem_specifiers_of_free hstands.free

end PlZero
