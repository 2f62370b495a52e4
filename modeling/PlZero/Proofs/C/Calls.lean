import PlZero.Proofs.C.Resolution

/-!
# Calls in the output

A call of a procedure that the program declares means to C the function that is written for it,
whose head stands in front of the call (`call_resolves`). The one other procedure that may be called
is the program itself, and for this no such head is written: no procedure of an accepted program has
the name of the main function (`Source.Accepted.ne_main_of_procedureHead`).
-/

namespace PlZero

open Goal

variable {source : Source} {items : List Item} {goals : List Goal} {s t : State} {x : String}

/-! ### The name of the main function -/

/-- Behind the name of a procedure inside a procedure no fixed fragment is written. -/
theorem Fragment.lead_nested (f : Fragment) : f.lead .nested = none := by
  unfold Fragment.lead
  split <;> first | rfl | next h => cases h

/-- From a procedure inside a procedure no run gets to an end. -/
theorem not_finished_of_nested {u : Unit} (hleads : leads goals .nested = some .finished)
    (hdepth : s.depth = 2) : run goals s ≠ .ok u t := by
  -- Behind such a name tokens are only skipped, until the block is entered, which fails this deep.
  induction goals, s using run_induction with
  | nil s => cases hleads
  | stop g gs s e s' hstep => simp [run_cons, hstep]
  | next g gs s more s' hstep ih =>
    rw [run_cons, hstep]
    obtain ⟨q, hq, hrest⟩ := Option.bind_eq_some_iff.mp hleads
    rw [Goal.lead_of_ne (p := .nested) nofun] at hq
    cases g with
    | expand n =>
      obtain ⟨hmore, rfl⟩ := step_expand hstep
      obtain ⟨p, hseen, hp⟩ := leads_expansion hmore hq
      cases hseen
      refine ih ?_ hdepth
      rw [leads_append, hp]
      exact hrest
    | fill slot =>
      obtain ⟨rfl, f, -, hdepth', -⟩ := step_fill hstep
      cases slot with
      | skipped e =>
        cases hq
        exact ih hrest (hdepth'.trans hdepth)
      | written e f =>
        have hnone := f.lead_nested
        exact absurd (hnone.symm.trans hq) nofun
      | declared kind => cases kind <;> cases hq
      | _ => cases hq
    | perform a =>
      obtain ⟨-, hperform⟩ := step_perform hstep
      cases a with
      | write f =>
        have hnone := f.lead_nested
        exact absurd (hnone.symm.trans hq) nofun
      | enter =>
        have hle := (perform_enter hperform).1
        omega
      | _ => cases hq

/-- A procedure that is declared where a run gets to an end does not have the name of the main
function. -/
theorem ne_main_of_declared {u : Unit} {s' : State}
    (hvisited : Visited items (.fill (.declared .procedure) :: goals) s)
    (hdeclare : declareName s.scope x .procedure s.depth = .ok s'.scope)
    (hdepth : s'.depth = s.depth)
    (hrun : run goals s' = .ok u t) : x ≠ "main" := by
  obtain ⟨p, q, hp, hq, hrest⟩ := hvisited.exists_leadOn
  cases p with
  | declarations b =>
    obtain ⟨hdepth', below, tail, rest, ds, ys, hground, -, -, hscope, -⟩ := hp
    cases b with
    | program =>
      rw [hdepth'] at hdeclare
      have hmain : .main ∈ s.scope.newestFirst :=
        hscope ▸ List.mem_append_right ds hground.main_mem
      exact (newestFirst_of_declareName hdeclare).2.1 rfl hmain
    | procedure =>
      obtain rfl := Option.some.inj hq
      exact absurd hrun (not_finished_of_nested hrest (hdepth.trans hdepth'))
  | _ => cases hq

/-- **No procedure of an accepted program has the name of the main function.** -/
theorem Source.Accepted.ne_main_of_procedureHead (h : source.Accepted) {p : Tree.Program}
    (hp : source.Reads p.tokens)
    (hmem : .procedureHead x ∈ Fragment.preamble :: (p.fragments ++ [.trailer])) : x ≠ "main" := by
  obtain ⟨before, after, hsplit⟩ := List.append_of_mem hmem
  obtain ⟨slot, gs, s, s', hvisited, hstep, hwritten, -, hfill⟩ :=
    h.exists_fill hp hsplit fun p => by cases p <;> rfl
  obtain ⟨-, -, -, hdepth, -⟩ := step_fill hstep
  obtain ⟨t, hrun, -⟩ := h.exists_run
  rw [← (hvisited.next hstep).run_eq] at hrun
  rcases fill_cases hwritten hfill with ⟨kind, y, rfl, -, hhead, hdeclare⟩ | ⟨_, _, -, -, hused⟩ |
    ⟨-, hnone⟩
  · cases kind <;> cases hhead
    exact ne_main_of_declared hvisited hdeclare hdepth hrun
  · cases hused
  · cases hnone

/-! ### Calls -/

/-- What is written for a name stands at its place in the output. -/
theorem Source.Writes.fragments_isPrefix (h : source.Accepted) {p : Tree.Program}
    (hp : source.Reads p.tokens) {slot : Slot} {f : Fragment} (hwrites : source.Writes slot s x f) :
    s.fragments ++ [f] <+: .preamble :: (p.fragments ++ [.trailer]) := by
  obtain ⟨gs, s', t, hvisited, hstep, -, hfragments, hrun, -⟩ := hwrites.exists_step h
  obtain ⟨-, t', hfinished, hwhole⟩ := hp.finished h
  have hend := (hvisited.next hstep).run_eq
  rw [List.nil_append, hrun, hfinished] at hend
  cases hend
  rw [← hfragments, ← hwhole]
  exact fragments_of_run hrun

/-- What is written in front of a place of the output stands there in front of it. -/
theorem Source.Writes.isPrefix_of_lt (h : source.Accepted) {p : Tree.Program}
    (hp : source.Reads p.tokens) {before after : List Fragment} {f g : Fragment}
    (hsplit : .preamble :: (p.fragments ++ [.trailer]) = before ++ f :: after)
    {slot : Slot} (hwrites : source.Writes slot s x g)
    (hlt : (cTokens s.fragments).length < (cTokens before).length) :
    s.fragments ++ [g] <+: before := by
  have hwhole := hwrites.fragments_isPrefix h hp
  rw [hsplit] at hwhole
  rcases List.prefix_or_prefix_of_prefix hwhole (List.prefix_append before (f :: after)) with
    hle | hle
  · exact hle
  · rcases List.prefix_concat_iff.mp hle with heq | ⟨rest, hrest⟩
    · exact heq ▸ List.prefix_rfl
    · rw [← hrest, cTokens_append, List.length_append] at hlt
      omega

/-- **A call means the function of the procedure**, whose head has been written in front of it and
which no other declaration hides; unless the program calls itself, for which the output has no such
head at all. -/
theorem call_resolves (source : Source)
    (h : ((compile source).deliver .unlimited).failure? = none) :
    ∀ p : Tree.Program, source.Reads p.tokens → ∀ before after x,
      .preamble :: (p.fragments ++ [.trailer]) = before ++ .call x :: after →
        (x ≠ "main" → ∃ front rest s, before = front ++ .procedureHead x :: rest ∧
          (compile source).text = codeOf front ++ ("void\n" ++ x ++ "(void)\n\x7b\n") ++
            codeOf rest ++ (x ++ "();\n") ++ codeOf after ∧
          source.Writes (.declared .procedure) s x (.procedureHead x) ∧ s.fragments = front ∧
          C.resolve (C.tokens (compile source).text) (cTokens before).length =
            some (declaredSymbol .procedure x (cTokens front).length)) ∧
        (x = "main" → .procedureHead x ∉ Fragment.preamble :: (p.fragments ++ [.trailer])) := by
  intro p hp before after x hsplit
  refine ⟨fun hx => ?_, fun hx hmem => Source.Accepted.ne_main_of_procedureHead h hp hmem hx⟩
  obtain ⟨slot, use, s, huse, hwrites, rfl⟩ := Source.Accepted.exists_writes h hp hsplit rfl
  obtain ⟨d, y, hd, hallows, -, -, hvariable, -, hdeclares, hresolves⟩ :=
    hwrites.resolves h huse fun _ => hx
  obtain rfl := name_of_lookup hd
  obtain rfl := (hwrites.eq_call_iff h huse).mp rfl
  cases huse
  obtain ⟨name, kind, level, size⟩ := d
  obtain rfl : kind = .procedure := hallows
  obtain rfl : size = none := Decidable.byContradiction fun hsize => nomatch hvariable hsize
  obtain ⟨newer, s₀, head, hhead, -, -, rfl⟩ := hdeclares
  have hresolve := hresolves 0 rfl
  obtain rfl : head = .procedureHead name := by
    obtain ⟨-, -, scope, hfill⟩ := hhead
    exact Option.some.inj (Slot.fill_declared hfill).2
  have hlt := C.position_lt_of_resolve hresolve
  obtain ⟨rest, hrest⟩ := hhead.isPrefix_of_lt h hp hsplit (Nat.lt_of_succ_lt hlt)
  rw [List.append_assoc, List.singleton_append] at hrest
  have htext : (compile source).text = codeOf s₀.fragments ++
      ("void\n" ++ name ++ "(void)\n\x7b\n") ++ codeOf rest ++ (name ++ "();\n") ++
        codeOf after := by
    have hheadText : (Fragment.procedureHead name).text = "void\n" ++ name ++ "(void)\n\x7b\n" :=
      rfl
    have hcallText : (Fragment.call name).text = name ++ "();\n" := rfl
    rw [hp.text_eq_codeOf h, hsplit, ← hrest, ← hheadText, ← hcallText]
    simp only [codeOf_append, codeOf_cons, String.append_assoc]
  exact ⟨s₀.fragments, rest, s₀, hrest.symm, htext, hhead, rfl, hresolve⟩

/-- A procedure that calls the program, for which the output has no head and C no symbol yet, and a
call of the procedure, which C finds. -/
theorem not_procedureHead_main :
    let source : Source := ⟨"main.pl0", "procedure p; call main; call p."⟩
    ((compile source).deliver .unlimited).failure? = none ∧
      ∃ p : Tree.Program, source.Reads p.tokens ∧ ∃ before between after,
        .preamble :: (p.fragments ++ [.trailer]) =
          before ++ .call "main" :: (between ++ .call "p" :: after) ∧
        C.resolve (C.tokens (compile source).text) (cTokens before).length = none ∧
        .procedureHead "main" ∉ Fragment.preamble :: (p.fragments ++ [.trailer]) ∧
        ∃ y, y.isFunction = true ∧ C.resolve (C.tokens (compile source).text)
          (cTokens (before ++ .call "main" :: between)).length = some y := by
  let source : Source := ⟨"main.pl0", "procedure p; call main; call p."⟩
  let p : Tree.Program := ⟨.mk [] [] (.next "p" (.mk [] [] .done (.call "main")) .done) (.call "p")⟩
  let before : List Fragment := [.preamble, .procedureHead "p"]
  let between : List Fragment := [.bodyEnd .procedure, .mainHead]
  have haccepted : ((compile source).deliver .unlimited).failure? = none := by decide +kernel
  have hp : source.Reads p.tokens := Source.reads_iff.mpr (by decide +kernel)
  have hmain := call_resolves source haccepted p hp before _ "main" rfl
  have hp' := call_resolves source haccepted p hp (before ++ .call "main" :: between) _ "p" rfl
  obtain ⟨front, rest, s, -, -, -, -, hresolve⟩ := hp'.1 (by decide)
  have hnone : C.resolve (C.tokens (compile source).text) (cTokens before).length = none := by
    rw [hp.tokens_compile haccepted]
    decide +kernel
  exact ⟨haccepted, p, hp, before, between, _, rfl, hnone, hmain.2 rfl, _, rfl, hresolve⟩

end PlZero
