import PlZero.Proofs.C.Grammar

/-!
# The scopes of C

A reader goes through the tokens of a C program and keeps the frames that are open: the file, and
around the place that it has got to the blocks and the function they are in (`Reader`). A declarator
adds a symbol to the innermost frame, the parameters of a function belong to the frame that its
brace opens, and a closing brace drops a frame. A name means the newest symbol that bears it, from
the innermost frame outwards (`Reader.lookup`, `resolve`), which is declared before it
(`position_lt_of_resolve`).

Only declarations of one declarator each, of basic types and of arrays, functions and pointers of
these, are read. Tokens that neither declare anything nor open or close a block leave the frames as
they are (`Reader.read_undisturbed`).
-/

namespace PlZero.C

/-! ### Reading -/

/-- What a declarator declares. -/
structure Symbol where
  name : String
  /-- Where the name stands in the declarator, as the number of tokens before it. -/
  position : Nat
  isConst : Bool
  isFunction : Bool
  /-- The bound of an array. -/
  bound : Option String
  deriving DecidableEq, Repr

/-- In the middle of what a text is. -/
inductive Mode
  /-- Of no declaration. -/
  | plain
  /-- Behind the words of a type, so that a name is declared next. -/
  | naming (isConst : Bool)
  /-- Behind the name that is declared. -/
  | named
  /-- Behind the bracket that follows the name. -/
  | bounding
  /-- Of the parameters of a function, perhaps behind the words of a type. -/
  | parameters (naming : Bool)
  deriving DecidableEq, Repr

/-- Where a reader has got to. -/
structure Reader where
  /-- The number of tokens that have been read. -/
  position : Nat
  mode : Mode
  /-- The parameters of the function that is declared, the last one first. -/
  parameters : List Symbol
  /-- The frames that are open, the innermost one first, with their newest symbols first. -/
  frames : List (List Symbol)
  deriving DecidableEq, Repr

/-- The words that a declaration begins with. -/
def specifiers : List String := "static" :: "extern" :: typeWords

namespace Reader

/-- A reader in front of a text. -/
def start : Reader := ⟨0, .plain, [], [[]]⟩

/-- Adds a symbol to the innermost frame. -/
def declare (r : Reader) (y : Symbol) : Reader :=
  match r.frames with
  | [] => r
  | top :: rest => { r with frames := (y :: top) :: rest }

/-- Changes the newest symbol of the innermost frame. -/
def revise (r : Reader) (change : Symbol → Symbol) : Reader :=
  match r.frames with
  | (y :: top) :: rest => { r with frames := (change y :: top) :: rest }
  | _ => r

/-- What a token means for the frames. -/
def react (r : Reader) (t : Token) : Reader :=
  match r.mode, t with
  | .plain, .word w =>
    if w ∈ specifiers then { r with mode := .naming (w = "const") } else r
  | .plain, .mark "\x7b" => { r with frames := r.parameters :: r.frames, parameters := [] }
  | .plain, .mark "\x7d" => { r with frames := r.frames.tail }
  | .plain, .mark ";" => { r with parameters := [] }
  | .plain, _ => r
  | .naming isConst, .word w =>
    if w ∈ specifiers then { r with mode := .naming (isConst || w = "const") }
    else { r.declare ⟨w, r.position, isConst, false, none⟩ with mode := .named }
  | .naming _, .mark "*" => { r with mode := .naming false }
  | .naming _, _ => { r with mode := .plain }
  | .named, .mark "(" =>
    { r.revise fun y => { y with isFunction := true } with mode := .parameters false }
  | .named, .mark "[" => { r with mode := .bounding }
  | .named, _ => { r with mode := .plain }
  | .bounding, .number n =>
    { r.revise fun y => { y with bound := some n } with mode := .plain }
  | .bounding, _ => { r with mode := .plain }
  | .parameters naming, .word w =>
    if w ∈ specifiers then { r with mode := .parameters true }
    else if naming then
      { r with
        mode := .parameters false
        parameters := ⟨w, r.position, false, false, none⟩ :: r.parameters }
    else r
  | .parameters _, .mark "," => { r with mode := .parameters false }
  | .parameters _, .mark ")" => { r with mode := .plain }
  | .parameters _, _ => r

/-- Reads a token. -/
def step (r : Reader) (t : Token) : Reader :=
  { r.react t with position := r.position + 1 }

/-- Reads tokens. -/
def read (r : Reader) (ts : List Token) : Reader := ts.foldl step r

/-- What a name means at the place that the reader has got to. -/
def lookup (r : Reader) (x : String) : Option Symbol := r.frames.flatten.find? fun y => y.name = x

end Reader

/-- What the name means that is the `i`-th token of a text. -/
def resolve (ts : List Token) (i : Nat) : Option Symbol :=
  match ts[i]? with
  | some (.word x) => (Reader.start.read (ts.take i)).lookup x
  | _ => none

namespace Reader

theorem read_append (r : Reader) (ts us : List Token) :
    r.read (ts ++ us) = (r.read ts).read us :=
  List.foldl_append

theorem position_step (r : Reader) (t : Token) : (r.step t).position = r.position + 1 := rfl

theorem position_read (r : Reader) (ts : List Token) :
    (r.read ts).position = r.position + ts.length := by
  induction ts generalizing r with
  | nil => rfl
  | cons t ts ih =>
    have hread : r.read (t :: ts) = (r.step t).read ts := rfl
    rw [hread, ih, position_step, List.length_cons]
    omega

/-! ### Positions -/

/-- The symbols that the reader knows of. -/
def symbols (r : Reader) : List Symbol := r.parameters ++ r.frames.flatten

/-- The symbols that the reader knows of are among the first tokens. -/
def Within (r : Reader) (n : Nat) : Prop := ∀ y ∈ r.symbols, y.position < n

theorem Within.of_mem {r r' : Reader} {n : Nat} (h : r.Within n)
    (hmem : ∀ y ∈ r'.symbols, y ∈ r.symbols ∨ y.position < n) : r'.Within n :=
  fun y hy => (hmem y hy).elim (h y) id

theorem Within.declare {r : Reader} {y : Symbol} {n : Nat} (h : r.Within n)
    (hy : y.position < n) : (r.declare y).Within n := by
  obtain ⟨position, mode, parameters, frames⟩ := r
  refine h.of_mem fun z hz => ?_
  cases frames with
  | nil => exact .inl hz
  | cons top rest =>
    simp only [Reader.declare, symbols, List.flatten_cons, List.mem_append, List.mem_cons] at hz ⊢
    grind

theorem Within.revise {r : Reader} {change : Symbol → Symbol} {n : Nat} (h : r.Within n)
    (hchange : ∀ y, (change y).position = y.position) : (r.revise change).Within n := by
  obtain ⟨position, mode, parameters, frames⟩ := r
  refine h.of_mem fun z hz => ?_
  match frames with
  | [] => exact .inl hz
  | [] :: rest => exact .inl hz
  | (y :: top) :: rest =>
    have hy := h y (by simp [symbols])
    simp only [Reader.revise, symbols, List.flatten_cons, List.mem_append, List.mem_cons] at hz ⊢
    grind

/-- The only symbol that a token adds is at its own position. -/
theorem Within.react {r : Reader} (h : r.Within r.position) (t : Token) :
    (r.react t).Within (r.position + 1) := by
  have hlater : r.Within (r.position + 1) := fun y hy => Nat.lt_succ_of_lt (h y hy)
  have hrevise {change : Symbol → Symbol} (hchange : ∀ y, (change y).position = y.position) :=
    hlater.revise hchange
  unfold Reader.react
  split
  all_goals try split
  all_goals try split
  all_goals try first
    | exact hlater
    | exact hlater.declare (Nat.lt_succ_self _)
    | exact hrevise fun _ => rfl
  -- A frame is closed, parameters are forgotten, and a parameter is added.
  case h_3 =>
    refine hlater.of_mem fun y hy => .inl ?_
    cases hframes : r.frames <;> simp_all [symbols]
    grind
  case h_4 => exact hlater.of_mem fun y hy => .inl (List.mem_append_right _ hy)
  case h_14.isFalse.isTrue =>
    refine hlater.of_mem fun y hy => ?_
    simp only [symbols, List.mem_append, List.mem_cons] at hy ⊢
    grind

theorem Within.read {r : Reader} (h : r.Within r.position) (ts : List Token) :
    (r.read ts).Within (r.read ts).position := by
  induction ts generalizing r with
  | nil => exact h
  | cons t ts ih => exact ih (r := r.step t) (h.react t)

end Reader

/-- What a name means is declared before it. -/
theorem position_lt_of_resolve {ts : List Token} {i : Nat} {y : Symbol}
    (h : resolve ts i = some y) : y.position < i := by
  have hstart : Reader.start.Within Reader.start.position := nofun
  unfold resolve at h
  split at h
  · have hmem := List.mem_of_find?_eq_some h
    have hlt := hstart.read (ts.take i) y (List.mem_append_right _ hmem)
    rw [Reader.position_read] at hlt
    have hle := List.length_take_le i ts
    simp only [Reader.start] at hlt
    omega
  · cases h

namespace Reader

/-! ### Tokens that declare nothing -/

/-- The tokens declare nothing, and open and close no block; `naming` tells whether they begin
behind the words of a type, which only casts may have. -/
def undisturbed : Bool → List Token → Bool
  | naming, [] => !naming
  | naming, .word w :: ts =>
    if specifiers.contains w then undisturbed true ts else !naming && undisturbed false ts
  | naming, .mark m :: ts =>
    (if naming then m = ")" else m ≠ "\x7b" && m ≠ "\x7d") && undisturbed false ts
  | naming, _ :: ts => !naming && undisturbed false ts

/-- The reader is in a mode, with these frames, and no parameters wait for their function. -/
structure At (r : Reader) (mode : Mode) (frames : List (List Symbol)) : Prop where
  mode_eq : r.mode = mode
  parameters_eq : r.parameters = []
  frames_eq : r.frames = frames

theorem At.exists_eq {r : Reader} {mode : Mode} {frames : List (List Symbol)}
    (h : r.At mode frames) : ∃ position, r = ⟨position, mode, [], frames⟩ := by
  obtain ⟨position, mode, parameters, frames⟩ := r
  obtain ⟨rfl, rfl, rfl⟩ := h
  exact ⟨position, rfl⟩

/-- The mode behind the words of a cast, or of no declaration. -/
def Suits (naming : Bool) (mode : Mode) : Prop :=
  if naming then ∃ isConst, mode = .naming isConst else mode = .plain

/-- One token of a text that declares nothing leaves the frames as they are. -/
theorem step_undisturbed {r : Reader} {mode : Mode} {frames : List (List Symbol)} {naming : Bool}
    {t : Token} {ts : List Token} (hr : r.At mode frames) (hmode : Suits naming mode)
    (h : undisturbed naming (t :: ts)) :
    ∃ naming' mode', (r.step t).At mode' frames ∧ Suits naming' mode' ∧
      undisturbed naming' ts := by
  obtain ⟨position, rfl⟩ := hr.exists_eq
  cases naming with
  | false =>
    obtain rfl : mode = .plain := hmode
    cases t with
    | word w =>
      by_cases hw : w ∈ specifiers
      · refine ⟨true, .naming (w = "const"), ?_, ⟨_, rfl⟩, by simpa [undisturbed, hw] using h⟩
        constructor <;> simp [step, react, hw]
      · refine ⟨false, .plain, ?_, rfl, by simpa [undisturbed, hw] using h⟩
        constructor <;> simp [step, react, hw]
    | mark m =>
      obtain ⟨⟨hopen, hclose⟩, hts⟩ : (m ≠ "\x7b" ∧ m ≠ "\x7d") ∧ undisturbed false ts := by
        simpa [undisturbed] using h
      refine ⟨false, .plain, ?_, rfl, hts⟩
      simp only [step, react]
      split <;> simp_all <;> constructor <;> rfl
    | number n | quoted q | directive d | stray c =>
      refine ⟨false, .plain, ⟨rfl, rfl, rfl⟩, rfl, by simpa [undisturbed] using h⟩
  | true =>
    obtain ⟨isConst, rfl⟩ : ∃ isConst, mode = .naming isConst := hmode
    cases t with
    | word w =>
      have hw : w ∈ specifiers := Decidable.byContradiction fun hw => by
        simp [undisturbed, hw] at h
      refine ⟨true, .naming (isConst || w = "const"), ?_, ⟨_, rfl⟩,
        by simpa [undisturbed, hw] using h⟩
      constructor <;> simp [step, react, hw]
    | mark m =>
      obtain ⟨rfl, hts⟩ : m = ")" ∧ undisturbed false ts := by simpa [undisturbed] using h
      exact ⟨false, .plain, ⟨rfl, rfl, rfl⟩, rfl, hts⟩
    | number n | quoted q | directive d | stray c => simp [undisturbed] at h

/-- **Tokens that declare nothing leave the frames as they are**, wherever in them one is. -/
theorem read_undisturbed {r : Reader} {mode : Mode} {frames : List (List Symbol)} {naming : Bool}
    {ts : List Token} (hr : r.At mode frames) (hmode : Suits naming mode)
    (h : undisturbed naming ts) :
    (r.read ts).At .plain frames ∧ ∀ n, (r.read (ts.take n)).frames = frames := by
  induction ts generalizing r mode naming with
  | nil =>
    obtain rfl : naming = false := by simpa [undisturbed] using h
    obtain rfl : mode = .plain := hmode
    exact ⟨hr, fun n => by simpa [read] using hr.frames_eq⟩
  | cons t ts ih =>
    obtain ⟨naming', mode', hr', hmode', h'⟩ := step_undisturbed hr hmode h
    obtain ⟨hat, hframes⟩ := ih hr' hmode' h'
    refine ⟨hat, fun n => ?_⟩
    cases n with
    | zero => exact hr.frames_eq
    | succ n => exact hframes n

end Reader

end PlZero.C
