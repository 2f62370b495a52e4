import Mathlib.Logic.Function.Basic
import PlZero.Proofs.Histories

/-!
# Scopes as environments

An `Environment` is what a scope stands for: a map from the names of the program to what they mean,
and inside a procedure a second one, for its locals, that is begun empty and given up at the end. A
`Scope` is a single list instead, which is searched from one end for every purpose.

The two do the same as long as a program is declared in order (`Staged`): first its constants and
variables, then procedures, each with its locals, which are closed before the next one. Then a name
means the same in both, the same declarations and sizes are refused, and closing a scope gives back
the one behind the name of the procedure (`refines_environment`).
-/

namespace PlZero.Scope

/-! ### Levels -/

/-- What a name is declared to be within a level. -/
structure Meaning where
  kind : Kind
  size : Option Nat
  deriving DecidableEq, Repr

/-- The names of a level, and the one that was declared last. -/
structure Level where
  meaning : String → Option Meaning
  newest? : Option String

namespace Level

def empty : Level := ⟨fun _ => none, none⟩

/-- The level gives the name a new meaning. -/
def set (l : Level) (x : String) (m : Meaning) : Level :=
  ⟨Function.update l.meaning x (some m), some x⟩

/-- A level has each name once. -/
def declare (l : Level) (x : String) (kind : Kind) : Except StaticError Level :=
  if l.meaning x = none then .ok (l.set x ⟨kind, none⟩) else .error (.duplicate x)

/-- Makes the name that was declared last that of an array, if it is a variable. -/
def recordSize (l : Level) (n : Int) : Except StaticError Level :=
  match l.newest? with
  | none => .error .sizeOfNonVariable
  | some x =>
    if (l.meaning x).map Meaning.kind = some .variable then
      if 1 ≤ n ∧ n ≤ maxNumber then .ok (l.set x ⟨.variable, some n.toNat⟩)
      else .error (.sizeOutOfRange n)
    else .error .sizeOfNonVariable

/-- The declaration of a name, in a program that has the level as one of this number. -/
def declaration (l : Level) (level : Nat) (x : String) : Option Declaration :=
  (l.meaning x).map fun m => ⟨x, m.kind, level, m.size⟩

end Level

/-! ### Environments -/

/-- The names of a program, and those of the procedure that is open, if there is one. -/
structure Environment where
  globals : Level
  locals? : Option Level

namespace Environment

/-- Only the main procedure is declared. -/
def initial : Environment := ⟨Level.empty.set "main" ⟨.procedure, none⟩, none⟩

/-- The level at which names are declared. -/
def current (env : Environment) : Level := env.locals?.getD env.globals

/-- Changes the level at which names are declared. -/
def setCurrent (env : Environment) (l : Level) : Environment :=
  match env.locals? with
  | none => { env with globals := l }
  | some _ => { env with locals? := some l }

/-- What the name means: a local, or else what the program has declared. -/
def lookup (env : Environment) (x : String) : Option Declaration :=
  (env.locals?.bind fun l => l.declaration 1 x).or (env.globals.declaration 0 x)

/-- What a request makes of the environment. A procedure is a name of the program, behind which its
own names begin. -/
def serve (env : Environment) : Request → Except StaticError Environment
  | .declare x kind _ =>
    if kind = .procedure then (env.globals.declare x kind).map (⟨·, some .empty⟩)
    else (env.current.declare x kind).map env.setCurrent
  | .recordSize n => (env.current.recordSize n).map env.setCurrent
  | .close => .ok { env with locals? := none }
  | _ => .ok env

/-- The environment after a request, which is left by one that fails. -/
def next (env : Environment) (r : Request) : Environment :=
  (env.serve r).toOption.getD env

/-- The environment after some requests, one after the other. -/
def after (history : List Request) : Environment :=
  history.foldl next initial

theorem after_concat (history : List Request) (r : Request) :
    after (history ++ [r]) = (after history).next r := by
  simp [after]

end Environment

/-! ### Histories in order -/

/-- Where a history has come to: to the names of the program, into the procedure that was declared
by `opened`, or behind a procedure. -/
inductive Stage
  | opening
  | inside (opened : List Request)
  | between

/-- The level at which names are declared. -/
def Stage.level : Stage → Nat
  | opening | between => 0
  | inside _ => 1

/-- A history that declares in order. Whether its requests succeed is left open, apart from those
that declare a procedure. -/
inductive Staged : List Request → Stage → Prop
  | start : Staged [] .opening
  | declareGlobal {history : List Request} {x : String} {kind : Kind}
    (before : Staged history .opening) (kind_ne : kind ≠ .procedure) :
    Staged (history ++ [.declare x kind 0]) .opening
  | sizeGlobal {history : List Request} {n : Int} (before : Staged history .opening) :
    Staged (history ++ [.recordSize n]) .opening
  | openProcedure {history : List Request} {stage : Stage} {p : String}
    (before : Staged history stage) (level_eq : stage.level = 0)
    (succeeds : ∃ s, (Scope.after history).declare p .procedure 1 = .ok s) :
    Staged (history ++ [.declare p .procedure 0]) (.inside (history ++ [.declare p .procedure 0]))
  | declareLocal {history opened : List Request} {x : String} {kind : Kind}
    (before : Staged history (.inside opened)) (kind_ne : kind ≠ .procedure) :
    Staged (history ++ [.declare x kind 1]) (.inside opened)
  | sizeLocal {history opened : List Request} {n : Int}
    (before : Staged history (.inside opened)) :
    Staged (history ++ [.recordSize n]) (.inside opened)
  | closeProcedure {history opened : List Request} (before : Staged history (.inside opened)) :
    Staged (history ++ [.close]) .between

/-! ### What a list says about a level -/

variable {s s' : Scope} {l l' : Level} {level : Nat} {ds below older : List Declaration}
  {d : Declaration} {x : String} {kind : Kind} {n : Int} {env : Environment}
  {history opened : List Request} {stage : Stage}

/-- The declarations of the level are these, the newest first. -/
structure Level.Lists (l : Level) (level : Nat) (ds : List Declaration) : Prop where
  find_eq : ∀ x, ds.find? (fun d => d.name = x) = l.declaration level x
  newest_eq : ds.head?.map Declaration.name = l.newest?
  level_eq : ∀ d ∈ ds, d.level = level

namespace Level

/-- A level gives a name its meaning by a declaration in front of those of the other names. -/
theorem lists_set (hlevel : ∀ e ∈ d :: older, e.level = level)
    (hfind : ∀ x, x ≠ d.name → older.find? (fun e => e.name = x) = l.declaration level x) :
    (l.set d.name ⟨d.kind, d.size⟩).Lists level (d :: older) where
  find_eq x := by
    obtain rfl := hlevel d (List.mem_cons_self ..)
    by_cases hx : d.name = x
    · subst hx
      simp [declaration, set]
    · have hne : x ≠ d.name := Ne.symm hx
      simpa [hx, declaration, set, Function.update_of_ne hne] using hfind x hne
  newest_eq := rfl
  level_eq := hlevel

namespace Lists

theorem empty : Level.empty.Lists level [] where
  find_eq _ := rfl
  newest_eq := rfl
  level_eq := by simp

theorem initial : Environment.initial.globals.Lists 0 Scope.initial.newestFirst :=
  lists_set (d := .main) (by simp [Declaration.main]) fun _ _ => rfl

/-- Behind a new declaration. -/
theorem push (h : l.Lists level ds) (x : String) (kind : Kind) :
    (l.set x ⟨kind, none⟩).Lists level (⟨x, kind, level, none⟩ :: ds) :=
  lists_set (d := ⟨x, kind, level, none⟩) (by simpa using h.level_eq) fun y _ => h.find_eq y

/-- With another size of the newest declaration. -/
theorem resize (h : l.Lists level (d :: older)) (size : Option Nat) :
    (l.set d.name ⟨d.kind, size⟩).Lists level ({ d with size := size } :: older) := by
  refine lists_set (d := { d with size := size }) (by simpa using h.level_eq) fun y hy => ?_
  rw [← h.find_eq, List.find?_cons_of_neg (by simpa using Ne.symm hy)]

theorem meaning_newest (h : l.Lists level (d :: older)) :
    l.newest? = some d.name ∧ l.meaning d.name = some ⟨d.kind, d.size⟩ := by
  refine ⟨h.newest_eq.symm, ?_⟩
  have hfind := h.find_eq d.name
  rw [List.find?_cons_of_pos (by simp), declaration] at hfind
  obtain ⟨m, hm, hd⟩ := Option.map_eq_some_iff.mp hfind.symm
  rw [hm, ← hd]

/-- A name is declared in the level if it is that of one of the declarations. -/
theorem meaning_eq_none_iff (h : l.Lists level ds) : l.meaning x = none ↔ ∀ d ∈ ds, d.name ≠ x := by
  have hfind := h.find_eq x
  rw [declaration] at hfind
  rw [← Option.map_eq_none_iff, ← hfind, List.find?_eq_none]
  simp

/-- **Declaring in the level on top.** A scope whose newest declarations are those of the level
refuses what the level has. -/
theorem declare (h : l.Lists level ds) (hs : s.newestFirst = ds ++ below)
    (hbelow : ∀ d ∈ below, d.level ≠ level) (x : String) (kind : Kind) :
    s.declare x kind (level + 1) =
      (l.declare x kind).map fun _ => ⟨⟨x, kind, level, none⟩ :: s.newestFirst⟩ := by
  have htaken : (s.newestFirst.any fun d => d.name = x && d.level = level) = true ↔
      l.meaning x ≠ none := by
    rw [Ne, h.meaning_eq_none_iff, hs]
    simp only [List.any_eq_true, List.mem_append, Bool.and_eq_true, decide_eq_true_eq]
    grind [h.level_eq]
  rw [Scope.declare_eq, Level.declare, Nat.add_sub_cancel]
  by_cases hx : l.meaning x = none
  · simp [hx, mt htaken.mp (not_not.mpr hx), Except.map]
  · simp [hx, htaken.mpr hx, Except.map]

/-- **Recording a size in the level on top.** The level refuses it like the scope, or both change
the newest declaration. -/
theorem recordSize (h : l.Lists level ds) (hs : s.newestFirst = ds ++ below)
    (hbelow : ∀ d ∈ below.head?, d.kind ≠ .variable) (n : Int) :
    (∃ e, s.recordSize n = .error e ∧ l.recordSize n = .error e) ∨
      ∃ d older l', ds = d :: older ∧
        s.recordSize n = .ok (n.toNat, ⟨{ d with size := some n.toNat } :: (older ++ below)⟩) ∧
          l.recordSize n = .ok l' ∧ l'.Lists level ({ d with size := some n.toNat } :: older) := by
  cases ds with
  | nil =>
    have hnewest : l.newest? = none := h.newest_eq.symm
    refine .inl ⟨.sizeOfNonVariable, ?_, by rw [Level.recordSize, hnewest]⟩
    rw [Scope.recordSize_eq, hs, List.nil_append]
    obtain _ | ⟨⟨_, _ | _ | _, _, _⟩, _⟩ := below <;> first | rfl | exact absurd rfl (hbelow _ rfl)
  | cons d older =>
    obtain ⟨hnewest, hmeaning⟩ := h.meaning_newest
    rw [Scope.recordSize_eq, hs, Level.recordSize, hnewest]
    by_cases hkind : d.kind = .variable
    · obtain ⟨name, _, level', size⟩ := d
      cases hkind
      by_cases hrange : 1 ≤ n ∧ n ≤ maxNumber
      · have hlists := h.resize (some n.toNat)
        exact .inr ⟨_, older, _, rfl, by simp [hrange], by simp [hmeaning, hrange], hlists⟩
      · exact .inl ⟨.sizeOutOfRange n, by simp [hrange], by simp [hmeaning, hrange]⟩
    · refine .inl ⟨.sizeOfNonVariable, ?_, by simp [hmeaning, hkind]⟩
      obtain ⟨name, _ | _ | _, level', size⟩ := d <;> first | rfl | exact absurd rfl hkind

end Lists

end Level

/-! ### What a scope says about an environment -/

/-- The scope has the declarations of the environment: those of the program, and in front of them,
inside a procedure, its locals, behind which the scope is the one that the procedure was declared
in. -/
inductive Represents : Stage → Scope → Environment → Prop
  | outside {stage : Stage} {s : Scope} {globals : Level} (level_eq : stage.level = 0)
    (globals_lists : globals.Lists 0 s.newestFirst) : Represents stage s ⟨globals, none⟩
  | inside {opened : List Request} {s : Scope} {globals locals : Level} {ds : List Declaration}
    (newestFirst_eq : s.newestFirst = ds ++ (after opened).newestFirst)
    (globals_lists : globals.Lists 0 (after opened).newestFirst)
    (newest_eq : (after opened).newest?.map Declaration.kind = some .procedure)
    (locals_lists : locals.Lists 1 ds) (kind_ne : ∀ d ∈ ds, d.kind ≠ .procedure) :
    Represents (.inside opened) s ⟨globals, some locals⟩

namespace Represents

theorem lookup_eq (h : Represents stage s env) (x : String) : s.lookup x = env.lookup x := by
  cases h with
  | outside level_eq globals_lists => exact globals_lists.find_eq x
  | inside newestFirst_eq globals_lists newest_eq locals_lists kind_ne =>
    rw [Scope.lookup, newestFirst_eq, List.find?_append, locals_lists.find_eq,
      globals_lists.find_eq]
    rfl

theorem close_eq (h : Represents (.inside opened) s env) : s.close = after opened := by
  cases h with
  | outside level_eq => cases level_eq
  | inside newestFirst_eq globals_lists newest_eq locals_lists kind_ne =>
    exact close_of_append newest_eq kind_ne newestFirst_eq

end Represents

/-! ### The current level -/

/-- The newest declarations of the scope are those of the level at which names are declared, and
when this level changes together with them, the scope and the environment still agree. -/
structure Top (stage : Stage) (s : Scope) (env : Environment) (ds below : List Declaration) :
    Prop where
  lists : env.current.Lists stage.level ds
  newestFirst_eq : s.newestFirst = ds ++ below
  level_ne : ∀ d ∈ below, d.level ≠ stage.level
  kind_ne : ∀ d ∈ below.head?, d.kind ≠ .variable
  change : ∀ {l' : Level} {ds' : List Declaration} {s' : Scope}, l'.Lists stage.level ds' →
    s'.newestFirst = ds' ++ below →
      (∀ d ∈ ds', d.kind = .procedure → ∃ e ∈ ds, e.kind = .procedure) →
        Represents stage s' (env.setCurrent l')

theorem Represents.exists_top (h : Represents stage s env) :
    ∃ ds below, Top stage s env ds below := by
  cases h with
  | outside level_eq lists =>
    refine ⟨_, [], level_eq ▸ lists, (List.append_nil _).symm, by simp, by simp, ?_⟩
    intro l' ds' s' hlists heq _
    rw [List.append_nil] at heq
    exact .outside level_eq (heq ▸ level_eq ▸ hlists)
  | inside newestFirst_eq globals_lists newest_eq locals_lists kind_ne =>
    refine ⟨_, _, locals_lists, newestFirst_eq, fun d hd => ?_, fun d hd => ?_, ?_⟩
    · simp [globals_lists.level_eq d hd, Stage.level]
    · have hkind := newest_eq
      rw [newest?, Option.mem_def.mp hd] at hkind
      simp [Option.some.inj hkind]
    · intro l' ds' s' hlists heq hkinds
      refine .inside heq globals_lists newest_eq hlists fun d hd hkind => ?_
      obtain ⟨e, he, hprocedure⟩ := hkinds d hd hkind
      exact kind_ne e he hprocedure

theorem Request.serve_declare :
    ((Request.declare x kind level).serve s).2 =
      (s.declare x kind (level + 1)).toOption.getD s := by
  simp only [Request.serve, declaring_eq, declare_eq]
  split <;> rfl

theorem Request.serve_recordSize :
    ((Request.recordSize n).serve s).2 = ((s.recordSize n).map Prod.snd).toOption.getD s := by
  simp only [Request.serve, recordingSize_eq, recordSize_eq]
  split
  · split <;> rfl
  · rfl

/-- The level has the name, or else the name is declared. -/
theorem Level.declare_cases (l : Level) (x : String) (kind : Kind) :
    l.declare x kind = .error (.duplicate x) ∨ l.declare x kind = .ok (l.set x ⟨kind, none⟩) := by
  rw [Level.declare]
  split
  · exact .inr rfl
  · exact .inl rfl

namespace Represents

/-- A constant or a variable is declared in both, or in none. -/
theorem declare (h : Represents stage s env) (kind_ne : kind ≠ .procedure) :
    Represents stage ((Request.declare x kind stage.level).serve s).2
      (env.next (.declare x kind stage.level)) := by
  obtain ⟨ds, below, htop⟩ := h.exists_top
  have hdeclare := htop.lists.declare htop.newestFirst_eq htop.level_ne x kind
  rw [Request.serve_declare, hdeclare, Environment.next, Environment.serve, if_neg kind_ne]
  rcases env.current.declare_cases x kind with htaken | hnew
  · rw [htaken]
    exact h
  · rw [hnew]
    refine htop.change (htop.lists.push x kind) (congrArg (_ :: ·) htop.newestFirst_eq) ?_
    intro d hd hkind
    rcases List.mem_cons.mp hd with rfl | hd
    · exact absurd hkind kind_ne
    · exact ⟨d, hd, hkind⟩

/-- A size is recorded in both, or in none. -/
theorem recordSize (h : Represents stage s env) :
    Represents stage ((Request.recordSize n).serve s).2 (env.next (.recordSize n)) := by
  obtain ⟨ds, below, htop⟩ := h.exists_top
  rw [Request.serve_recordSize, Environment.next, Environment.serve]
  rcases htop.lists.recordSize htop.newestFirst_eq htop.kind_ne n with
    ⟨e, hscope, hlevel⟩ | ⟨d, older, l', rfl, hscope, hlevel, hlists⟩
  · rw [hscope, hlevel]
    exact h
  · rw [hscope, hlevel]
    refine htop.change hlists rfl fun e he hkind => ?_
    rcases List.mem_cons.mp he with rfl | he
    · exact ⟨d, List.mem_cons_self .., hkind⟩
    · exact ⟨e, List.mem_cons_of_mem d he, hkind⟩

/-- A procedure that the program declares is open, without locals so far. -/
theorem openProcedure {p : String} (h : Represents stage (after history) env)
    (level_eq : stage.level = 0) (succeeds : ∃ s, (after history).declare p .procedure 1 = .ok s) :
    Represents (.inside (history ++ [.declare p .procedure 0]))
      (after (history ++ [.declare p .procedure 0])) (env.next (.declare p .procedure 0)) := by
  cases h with
  | inside => cases level_eq
  | @outside _ _ globals _ lists =>
    have hdeclare := lists.declare (List.append_nil _).symm (by simp) p .procedure
    have hafter : after (history ++ [.declare p .procedure 0]) =
        ((after history).declare p .procedure 1).toOption.getD (after history) := by
      rw [after_concat, Request.serve_declare]
    rw [Environment.next, Environment.serve, if_pos rfl]
    rcases globals.declare_cases p .procedure with htaken | hnew
    · obtain ⟨s, hs⟩ := succeeds
      rw [hdeclare, htaken] at hs
      cases hs
    · rw [hdeclare, hnew] at hafter
      rw [hnew]
      refine .inside (List.nil_append _).symm ?_ ?_ .empty (List.forall_mem_nil _)
      · rw [hafter]
        exact lists.push p .procedure
      · rw [hafter]
        rfl

theorem closeProcedure (h : Represents (.inside opened) s env) :
    Represents .between s.close (env.next .close) := by
  rw [h.close_eq]
  cases h with
  | outside level_eq => cases level_eq
  | inside _ globals_lists => exact .outside rfl globals_lists

end Represents

/-- **A history in order keeps the scope and the environment together.** -/
theorem represents (h : Staged history stage) :
    Represents stage (after history) (Environment.after history) := by
  induction h with
  | start => exact .outside rfl .initial
  | declareGlobal before kind_ne ih =>
    rw [after_concat, Environment.after_concat]
    exact ih.declare kind_ne
  | sizeGlobal before ih | sizeLocal before ih =>
    rw [after_concat, Environment.after_concat]
    exact ih.recordSize
  | openProcedure before level_eq succeeds ih =>
    rw [Environment.after_concat]
    exact ih.openProcedure level_eq succeeds
  | declareLocal before kind_ne ih =>
    rw [after_concat, Environment.after_concat]
    exact ih.declare kind_ne
  | closeProcedure before ih =>
    rw [after_concat, Environment.after_concat]
    exact ih.closeProcedure

/-! ### The result -/

/-- **A scope is an environment.** After a history that declares in order, a name means what it
means in the environment, the local that bears it or else what the program has declared. A name is
refused just if the current level has it, a size just if the environment refuses it, and closing the
scope gives back the one behind the name of the procedure, with all sizes. -/
theorem refines_environment (history : List Request) (stage : Stage) (h : Staged history stage) :
    let env := Environment.after history
    (∀ x, (after history).lookup x = env.lookup x) ∧
      (∀ x kind e, (after history).declare x kind (stage.level + 1) = .error e ↔
        e = .duplicate x ∧ env.current.meaning x ≠ none) ∧
      (∀ n e, (after history).recordSize n = .error e ↔ env.current.recordSize n = .error e) ∧
      ∀ opened, stage = .inside opened → (after history).close = after opened := by
  have hrepresents := represents h
  obtain ⟨ds, below, htop⟩ := hrepresents.exists_top
  refine ⟨hrepresents.lookup_eq, fun x kind e => ?_, fun n e => ?_, ?_⟩
  · rw [htop.lists.declare htop.newestFirst_eq htop.level_ne, Level.declare]
    split
    · next hnew => simp [hnew, Except.map]
    · next htaken => simpa [htaken, Except.map] using eq_comm
  · rcases htop.lists.recordSize htop.newestFirst_eq htop.kind_ne n with
      ⟨e, hscope, hlevel⟩ | ⟨d, older, l', -, hscope, hlevel, -⟩
    · rw [hscope, hlevel]
      simp
    · rw [hscope, hlevel]
      simp
  · rintro opened rfl
    exact hrepresents.close_eq

/-- An array of the program is hidden by a constant of a procedure, which gets no size. -/
theorem refines_environment_hidden :
    let opened : List Request :=
      [.declare "a" .variable 0, .recordSize 3, .declare "p" .procedure 0]
    let history := opened ++ [.declare "a" .constant 1, .recordSize 2]
    let env := Environment.after history
    Staged history (.inside opened) ∧
      (∀ x, (after history).lookup x = env.lookup x) ∧
      (∀ x kind e, (after history).declare x kind 2 = .error e ↔
        e = .duplicate x ∧ env.current.meaning x ≠ none) ∧
      (∀ n e, (after history).recordSize n = .error e ↔ env.current.recordSize n = .error e) ∧
      ∀ opened', Stage.inside opened = .inside opened' → (after history).close = after opened' := by
  intro opened history env
  have harray : Staged [.declare "a" .variable 0] .opening := Staged.start.declareGlobal nofun
  have hglobals : Staged [.declare "a" .variable 0, .recordSize 3] .opening := harray.sizeGlobal
  have hopened : Staged opened (.inside opened) := hglobals.openProcedure rfl ⟨_, rfl⟩
  have hlocal : Staged (opened ++ [.declare "a" .constant 1]) (.inside opened) :=
    hopened.declareLocal nofun
  have h : Staged history (.inside opened) := hlocal.sizeLocal
  exact ⟨h, refines_environment history (.inside opened) h⟩

end PlZero.Scope
