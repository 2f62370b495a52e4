import PlZero.Proofs.C.Alignment
import PlZero.Proofs.C.Code
import PlZero.Proofs.Places

/-!
# Declarations and frames along a run

At every place of a run it is known how the declarations that are visible and the frames that are
open belong together (`Sited`). A step that leads from one place to another keeps this
(`Sited.step`), so whatever a run comes by, it holds there (`Visited.exists_place`).
-/

namespace PlZero

open C (Reader specifiers)

variable {items : List Item}

/-! ### What is known at a place -/

/-- Behind the body of a procedure: its declarations are in no frame, but still in the scope. -/
def Behind (items : List Item) (scope : Scope) (r : Reader) : Prop :=
  ∃ below rest ds, Ground items .procedure below [] rest ∧ Suitable .procedure ds ∧
    scope.newestFirst = ds ++ below ∧ r.At .plain rest

/-- What is known at a place of the depth, of the scope and of what C has read. -/
def Sited (items : List Item) (p : Place) (depth : Nat) (scope : Scope) (r : Reader) : Prop :=
  match p with
  | .blank => depth = 0 ∧ scope = .initial ∧ r = .start
  | .ready => depth = 0 ∧ scope = .initial ∧ r.At .plain [preambleFrame]
  | .declarations b => AtHome items b .plain depth scope r
  | .unbounded b => AtHome items b .named depth scope r
  | .bounded b => ∃ mode, (mode = .named ∨ mode = .plain) ∧ AtHome items b mode depth scope r
  | .headed => depth = 1 ∧ ∃ rest, Ground items .procedure scope.newestFirst [] rest ∧
    r.At .plain ([] :: rest)
  | .body b n => depth = b.depth ∧ ∃ frames, InBody items b scope.newestFirst frames ∧
    r.At .plain (List.replicate n [] ++ frames)
  | .closed .program => depth = 1
  | .closed .procedure => depth = 2 ∧ Behind items scope r
  | .left => depth = 1 ∧ Behind items scope r
  | .finished => depth = 0
  | .nested => depth = 2
  | .unreachable => False

theorem Sited.of_seenAs {p q : Place} (h : p.SeenAs q) {depth : Nat} {scope : Scope} {r : Reader}
    (hp : Sited items p depth scope r) : Sited items q depth scope r := by
  cases h with
  | refl => exact hp
  | bounded b => exact ⟨.named, .inl rfl, hp⟩
  | body =>
    obtain ⟨hdepth, below, tail, rest, ds, ys, hground, haligned, hsuitable, hscope, hr⟩ := hp
    exact ⟨hdepth, _, hscope ▸ .procedure hground haligned hsuitable, hr⟩

/-! ### Fragments -/

variable {p q : Place} {depth : Nat} {scope scope' : Scope} {r : Reader}

/-- A quiet fragment that is written in a body leaves what is known there. -/
theorem Sited.quiet {b : Block} {n : Nat} (hp : Sited items (.body b n) depth scope r)
    {f : Fragment} (hf : f.IsQuiet) : Sited items (.body b n) depth scope (r.read f.tokens) := by
  obtain ⟨hdepth, frames, hbody, hr⟩ := hp
  exact ⟨hdepth, frames, hbody, (hf.read hr).1⟩

/-- A fragment leads to its place. -/
theorem Sited.write {f : Fragment} (hq : f.lead p = some q)
    (hp : Sited items p depth scope r) : Sited items q depth scope (r.read f.tokens) := by
  unfold Fragment.lead at hq
  split at hq <;> cases hq
  -- The preamble and the trailer.
  case h_1 =>
    obtain ⟨hdepth, hscope, rfl⟩ := hp
    exact ⟨hdepth, hscope, read_preamble⟩
  case h_2 => exact hp
  -- The end of a variable without a bound, of one that may have a bound, and of the list.
  case h_3 b =>
    obtain ⟨hdepth, below, tail, rest, ds, ys, hground, haligned, hsuitable, hscope, hr⟩ := hp
    exact ⟨hdepth, below, tail, rest, ds, ys, hground, haligned, hsuitable, hscope,
      read_variableEnd hr (.inl rfl)⟩
  case h_4 b =>
    obtain ⟨mode, hmode, hdepth, below, tail, rest, ds, ys, hground, haligned, hsuitable, hscope,
      hr⟩ := hp
    exact ⟨hdepth, below, tail, rest, ds, ys, hground, haligned, hsuitable, hscope,
      read_variableEnd hr hmode⟩
  case h_5 b =>
    obtain ⟨hdepth, below, tail, rest, ds, ys, hground, haligned, hsuitable, hscope, hr⟩ := hp
    have hquiet : Fragment.variablesEnd.IsQuiet := trivial
    exact ⟨hdepth, below, tail, rest, ds, ys, hground, haligned, hsuitable, hscope,
      (hquiet.read hr).1⟩
  -- The head of the main function, and the ends of bodies.
  case h_6 =>
    obtain ⟨hdepth, below, tail, rest, ds, ys, hground, haligned, hsuitable, hscope, hr⟩ := hp
    cases hground
    exact ⟨hdepth, _, hscope ▸ .program r.position haligned hsuitable, read_mainHead hr⟩
  case h_7 => exact hp.1
  case h_8 =>
    obtain ⟨hdepth, frames, hbody, hr⟩ := hp
    generalize hscope : scope.newestFirst = visible at hbody
    obtain ⟨⟩ | ⟨hground, haligned, hsuitable⟩ := hbody
    cases hground with
    | procedure kind aligned suitable =>
      exact ⟨hdepth, _, _, _, .procedure kind aligned suitable, hsuitable, hscope,
        read_bodyEnd hr .procedure⟩
  -- The braces of a compound statement.
  case h_9 b n =>
    obtain ⟨hdepth, frames, hbody, hr⟩ := hp
    exact ⟨hdepth, frames, hbody, read_blockHead hr⟩
  case h_10 b n =>
    obtain ⟨hdepth, frames, hbody, hr⟩ := hp
    exact ⟨hdepth, frames, hbody, read_blockEnd hr⟩
  all_goals exact hp.quiet trivial

/-! ### Slots -/

/-- A procedure of the program is declared. -/
theorem Sited.declareProcedure {s : State} {gs : List Goal} {x : String}
    (hvisited : Visited items (.fill (.declared .procedure) :: gs) s)
    (hname : s.lookahead.value = .name x)
    (hp : AtHome items .program .plain s.depth s.scope s.reader)
    (h : declareName s.scope x .procedure s.depth = .ok scope') :
    Sited items .headed s.depth scope' (s.reader.read (Fragment.procedureHead x).tokens) := by
  obtain ⟨hdepth, below, tail, rest, ds, ys, hground, haligned, hsuitable, hscope, hr⟩ := hp
  cases hground
  rw [hdepth] at h
  obtain ⟨hfree, hmain, hscope'⟩ := newestFirst_of_declareName h
  rw [hscope] at hscope' hmain
  have hstands := stands_of_declareName 0 hvisited hname hfree
  rw [hscope] at hstands
  refine ⟨hdepth, _, ?_, read_procedureHead hr (not_mem_specifiers_of_free hfree)⟩
  rw [hscope']
  exact .procedure rfl (.cons hstands haligned)
    (List.forall_mem_cons.mpr ⟨⟨rfl, hmain rfl (by simp)⟩, hsuitable⟩)

/-- Names are used in bodies, and the place stays the same there. -/
theorem Slot.lead_of_use {slot : Slot} {use : Use} (huse : slot.use? = some use)
    (hq : slot.lead p = some q) : ∃ b n, p = .body b n ∧ q = .body b n := by
  cases slot with
  | skipped | written | declared | constantValue | arrayBound | relation => cases huse
  | _ =>
    cases p with
    | body b n => exact ⟨b, n, rfl, (Option.some.inj hq).symm⟩
    | _ => cases hq

/-- Declaring a name keeps what is known. -/
theorem Sited.declare {s : State} {gs : List Goal} {kind : Kind} {x : String}
    (hvisited : Visited items (.fill (.declared kind) :: gs) s)
    (hname : s.lookahead.value = .name x) (hq : (Slot.declared kind).lead p = some q)
    (h : declareName s.scope x kind s.depth = .ok scope')
    (hp : Sited items p s.depth s.scope s.reader) :
    Sited items q s.depth scope' (s.reader.read (declarationHead kind x).tokens) := by
  cases kind with
  | procedure =>
    cases p with
    | declarations b =>
      cases b with
      | program =>
        obtain rfl := Option.some.inj hq
        exact Sited.declareProcedure hvisited hname hp h
      | procedure =>
        obtain rfl := Option.some.inj hq
        exact hp.1
    | _ => cases hq
  | _ =>
    cases p with
    | declarations b =>
      obtain rfl := Option.some.inj hq
      first
      | exact AtHome.declare hvisited hname nofun hp h read_constantHead
      | exact AtHome.declare hvisited hname nofun hp h read_variableHead
    | _ => cases hq

/-- Filling a slot keeps what is known. -/
theorem Sited.fill {s : State} {gs : List Goal} {slot : Slot} {f : Option Fragment}
    (hvisited : Visited items (.fill slot :: gs) s) (hq : slot.lead p = some q)
    (h : slot.fill s.depth s.scope s.lookahead.value = .ok (scope', f))
    (hp : Sited items p s.depth s.scope s.reader) :
    Sited items q s.depth scope' (s.reader.read (cTokens f.toList)) := by
  have hsome (g : Fragment) : cTokens (some g).toList = g.tokens := by simp
  generalize hname : s.lookahead.value = t at h
  cases Slot.fills_of_fill h with
  | skipped =>
    obtain rfl := Option.some.inj hq
    exact hp
  | written e g =>
    rw [hsome]
    exact hp.write hq
  | declared hdeclare =>
    rw [hsome]
    exact Sited.declare hvisited hname hq hdeclare hp
  | constantValue =>
    cases p with
    | declarations b =>
      obtain rfl := Option.some.inj hq
      rw [hsome]
      exact AtHome.quiet hp trivial
    | _ => cases hq
  | arrayBound digits hsize =>
    cases p with
    | unbounded b =>
      obtain rfl := Option.some.inj hq
      rw [hsome]
      exact ⟨.plain, .inr rfl, AtHome.recordSize hp hsize⟩
    | _ => cases hq
  | @used slot _ d huse hd =>
    obtain ⟨b, n, rfl, rfl⟩ := Slot.lead_of_use huse hq
    obtain ⟨-, frames, hbody, -⟩ := id hp
    have hx : d.name ∉ specifiers := hbody.not_mem_specifiers hd
    rw [hsome]
    refine hp.quiet ?_
    cases slot <;> exact hx
  | relation r =>
    cases p with
    | body b n =>
      obtain rfl := Option.some.inj hq
      rw [hsome]
      refine hp.quiet ?_
      cases r <;> trivial
    | _ => cases hq
  | operand | printed | printedText =>
    cases p with
    | body b n =>
      obtain rfl := Option.some.inj hq
      rw [hsome]
      exact hp.quiet trivial
    | _ => cases hq

/-! ### Actions -/

/-- Behind the block of a procedure, the scope is cut back to the procedure. -/
theorem Behind.close {r : Reader} (h : Behind items scope r) :
    AtHome items .program .plain 1 scope.close r := by
  obtain ⟨below, rest, ds, hground, hsuitable, hscope, hr⟩ := h
  cases hground with
  | @procedure p es ys kind aligned suitable =>
    refine ⟨rfl, _, _, _, _, _, .program, aligned, suitable, ?_, hr⟩
    have hdrop : ∀ d ∈ ds, decide (d.kind ≠ .procedure) = true := fun d hd =>
      decide_eq_true (hsuitable d hd).2
    rw [Scope.close, hscope, List.dropWhile_append_of_pos hdrop]
    simp [kind]

/-- Performing an action keeps what is known. -/
theorem Sited.perform {s s' : State} {a : Action} (hq : a.lead p = some q)
    (h : a.perform s = .ok () s') (hp : Sited items p s.depth s.scope s.reader) :
    Sited items q s'.depth s'.scope s'.reader := by
  unfold Action.lead at hq
  split at hq
  case h_1 f =>
    rw [perform_write] at h
    cases h
    have hreader : (s.write f).reader = s.reader.read f.tokens := by
      simp [State.reader, C.Reader.read_append]
    rw [hreader]
    exact hp.write hq
  all_goals cases hq
  -- Fetching the first token.
  case h_2 =>
    obtain ⟨hscope, hdepth, hwritten⟩ := view_of_fetch h
    rw [hscope, hdepth, State.reader, State.fragments, hwritten]
    exact hp
  -- Entering the block of the program, of a procedure, and of a procedure inside one.
  case h_3 =>
    obtain ⟨-, rfl⟩ := perform_enter h
    obtain ⟨hdepth, hscope, hr⟩ := hp
    exact ⟨congrArg Nat.succ hdepth, _, _, _, _, _, .program, .nil, .nil _, by rw [hscope]; rfl, hr⟩
  case h_4 =>
    obtain ⟨-, rfl⟩ := perform_enter h
    obtain ⟨hdepth, rest, hground, hr⟩ := hp
    exact ⟨congrArg Nat.succ hdepth, _, _, _, _, _, hground, .nil, .nil _, rfl, hr⟩
  case h_5 =>
    obtain ⟨hdepth, -⟩ := perform_enter h
    have htwo : s.depth = 2 := hp
    omega
  -- Leaving a block, and forgetting what a procedure has declared.
  case h_6 =>
    obtain rfl := perform_leave (n := 0) h hp
    rfl
  case h_7 =>
    obtain rfl := perform_leave (n := 1) h hp.1
    exact ⟨rfl, hp.2⟩
  case h_8 =>
    cases h
    have hdepth : s.depth = 1 := hp.1
    have hclosed := hp.2.close
    exact hdepth ▸ hclosed
  -- Checks.
  case h_9 =>
    obtain rfl := perform_check h (.inr ⟨_, .inl rfl⟩)
    exact hp
  case h_10 =>
    obtain rfl := perform_check h (.inr ⟨_, .inr rfl⟩)
    exact hp
  case h_11 =>
    obtain rfl := perform_check h (.inl rfl)
    exact hp

/-! ### Runs -/

/-- Where something is known can be reached. -/
theorem Sited.ne_unreachable (hp : Sited items p depth scope r) : p ≠ .unreachable := by
  rintro rfl
  exact hp

/-- **Every step keeps what is known at its place.** -/
theorem Sited.step {s s' : State} {g : Goal} {gs more : List Goal}
    (hvisited : Visited items (g :: gs) s) (hq : g.lead p = some q)
    (h : step g s = .ok more s') (hp : Sited items p s.depth s.scope s.reader) :
    ∃ p', leads more p' = some q ∧ Sited items p' s'.depth s'.scope s'.reader := by
  rw [Goal.lead_of_ne hp.ne_unreachable] at hq
  cases g with
  | expand n =>
    obtain ⟨hmore, rfl⟩ := step_expand h
    obtain ⟨p', hseen, hleads⟩ := leads_expansion hmore hq
    exact ⟨p', hleads, hp.of_seenAs hseen⟩
  | fill slot =>
    obtain ⟨rfl, f, hfill, hdepth, hfragments⟩ := step_fill h
    have hreader : s'.reader = s.reader.read (cTokens f.toList) := by
      simp [State.reader, hfragments, C.Reader.read_append]
    rw [hreader, hdepth]
    exact ⟨q, rfl, Sited.fill hvisited hq hfill hp⟩
  | perform a =>
    obtain ⟨rfl, hperform⟩ := step_perform h
    exact ⟨q, rfl, Sited.perform hq hperform hp⟩

/-- **Whatever a run comes by, it is at a place**, from which the goals lead to the end. -/
theorem Visited.exists_place {goals : List Goal} {s : State} (h : Visited items goals s) :
    ∃ p, leads goals p = some .finished ∧ Sited items p s.depth s.scope s.reader := by
  induction h with
  | start => exact ⟨.blank, leads_programGoals, rfl, rfl, rfl⟩
  | @next g gs more s s' visited step_eq ih =>
    obtain ⟨p, hleads, hp⟩ := ih
    obtain ⟨q, hq, hrest⟩ := Option.bind_eq_some_iff.mp hleads
    obtain ⟨p', hmore, hp'⟩ := hp.step visited hq step_eq
    refine ⟨p', ?_, hp'⟩
    rw [leads_append, hmore]
    exact hrest

/-- A goal that a run comes by leads on from its place, and the goals behind it to the end. -/
theorem Visited.exists_leadOn {g : Goal} {gs : List Goal} {s : State}
    (h : Visited items (g :: gs) s) :
    ∃ p q, Sited items p s.depth s.scope s.reader ∧ g.leadOn p = some q ∧
      leads gs q = some .finished := by
  obtain ⟨p, hleads, hp⟩ := h.exists_place
  obtain ⟨q, hq, hrest⟩ := Option.bind_eq_some_iff.mp hleads
  rw [Goal.lead_of_ne hp.ne_unreachable] at hq
  exact ⟨p, q, hp, hq, hrest⟩

/-! ### Where fragments are written -/

/-- What writes a fragment at a place: the fragment leads from there, or a token fills a slot with
it that has no fragment of its own. -/
inductive Site (items : List Item) (s : State) (p : Place) (f : Fragment) : Prop
  | own {q : Place} (lead_eq : f.lead p = some q)
  | slot {slot : Slot} {gs : List Goal} {s' : State} {q : Place}
    (visited : Visited items (.fill slot :: gs) s)
    (step_eq : PlZero.step (.fill slot) s = .ok [] s') (not_written : ∀ e g, slot ≠ .written e g)
    (lead_eq : slot.lead p = some q)
    (fill_eq : slot.fill s.depth s.scope s.lookahead.value = .ok (s'.scope, some f))

/-- **Each fragment of the output is written at a place of the run.** -/
theorem exists_site {t : State} {before after : List Fragment} {f : Fragment}
    (hrun : compileItems items = .ok () t) (hsplit : t.fragments = before ++ f :: after) :
    ∃ goals s p, Visited items goals s ∧ s.fragments = before ∧
      Sited items p s.depth s.scope s.reader ∧ Site items s p f := by
  obtain ⟨g, gs, more, s, s', hvisited, hstep, rfl, hwritten⟩ :=
    Visited.start.exists_writer hrun hsplit (Nat.zero_le _)
  obtain ⟨p, q, hp, hq, -⟩ := hvisited.exists_leadOn
  refine ⟨_, s, p, hvisited, rfl, hp, ?_⟩
  cases g with
  | expand n =>
    obtain ⟨-, heq⟩ := step_expand hstep
    simp [heq] at hwritten
  | fill slot =>
    obtain ⟨rfl, f', hfill, -, hfragments⟩ := step_fill hstep
    obtain rfl : f' = some f := by
      rw [hwritten] at hfragments
      cases f' <;> simp_all
    by_cases hslot : ∃ e g, slot = .written e g
    · obtain ⟨e, g, rfl⟩ := hslot
      obtain rfl := Option.some.inj (Slot.eq_of_fill_written hfill)
      exact .own hq
    · exact .slot hvisited hstep (fun e g heq => hslot ⟨e, g, heq⟩) hq hfill
  | perform a =>
    obtain ⟨-, hperform⟩ := step_perform hstep
    by_cases ha : ∃ g, a = .write g
    · obtain ⟨g, rfl⟩ := ha
      rw [perform_write] at hperform
      cases hperform
      obtain rfl : g = f := by simpa using hwritten
      exact .own hq
    · rw [fragments_of_perform hperform (by simpa using ha)] at hwritten
      simp at hwritten

end PlZero
