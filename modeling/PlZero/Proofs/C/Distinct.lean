import PlZero.Proofs.Written

/-!
# The names in a frame of C

In each frame that is open in the output of an accepted text the symbols have different names, from
the first token to the last (`Source.Accepted.distinct`). Only a closing brace takes names out of
sight, so it is enough to look in front of these (`C.Reader.distinct_take`), where the frames are
those at the place of a fragment. There the frames are aligned with the declarations that are
visible, whose names are different at each level (`Visited.nodup_namesAt`) and not reserved, as
those are that the preamble declares (`Clean`).
-/

namespace PlZero

open Goal
open C (Reader)

/-! ### Frames -/

namespace C.Reader

variable {r : Reader} {t : Token} {ts : List Token}

/-- In each frame that is open the symbols have different names. -/
def Distinct (r : Reader) : Prop := ∀ frame ∈ r.frames, (frame.map Symbol.name).Nodup

/-- What a frame holds is still at its end when another symbol has been declared or the newest one
has been changed. -/
theorem suffix_declare {frame : List Symbol} (h : frame ∈ r.frames) (y : Symbol) :
    ∃ frame' ∈ (r.declare y).frames, frame.map Symbol.name <:+ frame'.map Symbol.name := by
  obtain ⟨position, mode, parameters, frames⟩ := r
  cases frames with
  | nil => cases h
  | cons top rest =>
    rcases List.mem_cons.mp h with rfl | hrest
    · exact ⟨_, List.mem_cons_self, List.suffix_cons _ _⟩
    · exact ⟨frame, List.mem_cons_of_mem _ hrest, List.suffix_rfl⟩

theorem suffix_revise {frame : List Symbol} (h : frame ∈ r.frames) {change : Symbol → Symbol}
    (hchange : ∀ y, (change y).name = y.name) :
    ∃ frame' ∈ (r.revise change).frames, frame.map Symbol.name <:+ frame'.map Symbol.name := by
  obtain ⟨position, mode, parameters, frames⟩ := r
  match frames with
  | [] => cases h
  | [] :: rest => exact ⟨frame, h, List.suffix_rfl⟩
  | (y :: top) :: rest =>
    rcases List.mem_cons.mp h with rfl | hrest
    · exact ⟨_, List.mem_cons_self, by simp [hchange]⟩
    · exact ⟨frame, List.mem_cons_of_mem _ hrest, List.suffix_rfl⟩

/-- A token that closes no block leaves all frames open, and what they hold. -/
theorem suffix_react {frame : List Symbol} (h : frame ∈ r.frames) (ht : t ≠ .mark "\x7d") :
    ∃ frame' ∈ (r.react t).frames, frame.map Symbol.name <:+ frame'.map Symbol.name := by
  unfold react
  split
  all_goals try split
  all_goals try split
  all_goals try first
    | exact ⟨frame, h, List.suffix_rfl⟩
    | exact suffix_declare h _
    | exact suffix_revise h fun _ => rfl
    | exact absurd rfl ht
  exact ⟨frame, List.mem_cons_of_mem _ h, List.suffix_rfl⟩

theorem Distinct.of_step (h : (r.step t).Distinct) (ht : t ≠ .mark "\x7d") : r.Distinct := by
  intro frame hframe
  obtain ⟨frame', hframe', hsuffix⟩ := suffix_react hframe ht
  exact (h frame' hframe').sublist hsuffix.sublist

/-- A closing brace opens no frame. -/
theorem Distinct.close (h : r.Distinct) : (r.step (.mark "\x7d")).Distinct := by
  intro frame hframe
  refine h frame ?_
  obtain ⟨position, mode, parameters, frames⟩ := r
  cases mode with
  | plain => exact List.mem_of_mem_tail hframe
  | _ => exact hframe

/-- **Frames whose symbols have different names when they are closed have them all the time.** So it
is enough to look at the reader in front of the closing braces and at the end. -/
theorem distinct_take (hclosing : ∀ i, ts[i]? = some (.mark "\x7d") → (r.read (ts.take i)).Distinct)
    (hend : (r.read ts).Distinct) (n : Nat) : (r.read (ts.take n)).Distinct := by
  induction ts generalizing r n with
  | nil => simpa using hend
  | cons t ts ih =>
    have hrest := ih (r := r.step t) (fun i hi => hclosing (i + 1) hi) hend
    cases n with
    | succ n => exact hrest n
    | zero =>
      by_cases ht : t = .mark "\x7d"
      · exact hclosing 0 (by rw [ht]; rfl)
      · exact (hrest 0).of_step ht

end C.Reader

/-! ### Names of a level -/

variable {items : List Item} {source : Source} {g : Goal} {gs goals : List Goal} {s t : State}
  {level : Nat} {b : Block} {below ds : List Declaration} {tail ys : List C.Symbol}
  {rest frames : List (List C.Symbol)} {x w : String} {f : Fragment} {before after : List Fragment}

/-- **At each level the names are different**, wherever a run comes by. -/
theorem Visited.nodup_namesAt (h : Visited items goals s) (level : Nat) :
    (Tree.namesAt s.scope level).Nodup := by
  induction h with
  | start =>
    cases level <;> simp [Tree.namesAt, State.start, Scope.initial, Declaration.main]
  | @next g gs more s s' visited step_eq ih =>
    have hstep : (Tree.namesAt (step g s).state.scope level).Nodup := by
      refine holds_of_step (P := fun scope => (Tree.namesAt scope level).Nodup) ih
        (fun {x kind scope'} hdeclare => ?_) (fun {value size scope'} hsize => ?_) ?_ g
      · obtain ⟨-, hnew, hscope⟩ := newest_of_declareName hdeclare
        rw [Tree.namesAt, hscope, List.filter_cons]
        split
        · next hlevel =>
          obtain rfl : s.depth - 1 = level := by simpa using hlevel
          exact List.nodup_cons.mpr ⟨hnew, ih⟩
        · exact ih
      · obtain ⟨d, older, hnewest, -, hscope⟩ := newestFirst_of_recordSize hsize
        rw [Tree.namesAt, hnewest] at ih
        rw [Tree.namesAt, hscope]
        simpa [List.filter_cons, apply_ite] using ih
      · have hsub := (List.dropWhile_sublist (l := s.scope.newestFirst)
          fun d : Declaration => decide (d.kind ≠ .procedure))
        exact ih.sublist ((hsub.filter _).map _)
    rwa [step_eq] at hstep

/-- Declarations of one level have different names. -/
theorem nodup_names {scope : Scope} (hnodup : (Tree.namesAt scope level).Nodup)
    (hsub : ds.Sublist scope.newestFirst) (hlevel : ∀ d ∈ ds, d.level = level) :
    (ds.map Declaration.name).Nodup := by
  have hall : ds.filter (fun d => decide (d.level = level)) = ds :=
    List.filter_eq_self.mpr fun d hd => decide_eq_true (hlevel d hd)
  exact hnodup.sublist (hall ▸ (hsub.filter _).map _)

/-! ### Frames of the output -/

theorem Aligned.map_name (h : Aligned items below ds ys) :
    ys.map C.Symbol.name = ds.map Declaration.name := by
  induction h with
  | nil => rfl
  | cons first more ih =>
    obtain ⟨-, -, -, -, -, -, -, rfl⟩ := first
    rw [List.map_cons, List.map_cons, ih]
    rfl

theorem Aligned.free (h : Aligned items below ds ys) :
    ∀ y ∈ ys, isReserved y.name = false := by
  induction h with
  | nil => exact List.forall_mem_nil _
  | cons first more ih =>
    obtain ⟨hfree, -, -, -, -, -, -, rfl⟩ := first
    exact List.forall_mem_cons.mpr ⟨hfree, ih⟩

/-- What is open in the output: in each frame the names are different, and on top of what the
preamble declares no name is reserved, apart from those of the parameters of the main function. -/
structure Clean (frames : List (List C.Symbol)) : Prop where
  distinct : ∀ frame ∈ frames, (frame.map C.Symbol.name).Nodup
  free : ∃ upper, frames.flatten = upper ++ preambleFrame ∧
    ∀ y ∈ upper, isReserved y.name = false ∨ y.name ∈ ReservedName.mainParameters

/-- A name that may be declared is none of those that the preamble declares. -/
theorem nodup_append_preamble (hnodup : (ys.map C.Symbol.name).Nodup)
    (hfree : ∀ y ∈ ys, isReserved y.name = false) :
    ((ys ++ preambleFrame).map C.Symbol.name).Nodup := by
  have hreserved : ∀ y ∈ preambleFrame, isReserved y.name = true := by decide +kernel
  have hpreamble : (preambleFrame.map C.Symbol.name).Nodup := by decide +kernel
  rw [List.map_append]
  refine List.nodup_append.mpr ⟨hnodup, hpreamble, ?_⟩
  intro x hx y hy heq
  obtain ⟨z, hz, rfl⟩ := List.mem_map.mp hx
  obtain ⟨z', hz', rfl⟩ := List.mem_map.mp hy
  have hcontra := hfree z hz
  rw [heq, hreserved z' hz'] at hcontra
  cases hcontra

/-- Frames of blocks without declarations may be on top. -/
theorem Clean.replicate (h : Clean frames) (n : Nat) : Clean (List.replicate n [] ++ frames) where
  distinct := by
    refine List.forall_mem_append.mpr ⟨fun frame hframe => ?_, h.distinct⟩
    rw [List.eq_of_mem_replicate hframe]
    exact List.nodup_nil
  free := by simpa using h.free

/-- The declarations of a block. -/
theorem Ground.clean {scope : Scope} (h : Ground items b below tail rest)
    (haligned : Aligned items below ds ys) (hsuitable : Suitable b ds)
    (hscope : scope.newestFirst = ds ++ below)
    (hnodup : ∀ level, (Tree.namesAt scope level).Nodup) : Clean ((ys ++ tail) :: rest) := by
  have hds : (ys.map C.Symbol.name).Nodup := by
    rw [haligned.map_name]
    exact nodup_names (hnodup (b.depth - 1)) (hscope ▸ List.sublist_append_left ds below)
      fun d hd => (hsuitable d hd).1
  have hfree := haligned.free
  cases h with
  | program =>
    refine ⟨?_, ys, by simp, fun y hy => .inl (hfree y hy)⟩
    simpa using nodup_append_preamble hds hfree
  | @procedure p es zs kind aligned suitable =>
    have hes : (zs.map C.Symbol.name).Nodup := by
      rw [aligned.map_name]
      refine nodup_names (hnodup 0) ?_ fun d hd => (suitable d hd).1
      rw [hscope]
      exact (List.sublist_append_left _ _).trans (List.sublist_append_right _ _)
    refine ⟨?_, ys ++ zs, by simp, ?_⟩
    · simpa using ⟨hds, by simpa using nodup_append_preamble hes aligned.free⟩
    · exact fun y hy => .inl (List.forall_mem_append.mpr ⟨hfree, aligned.free⟩ y hy)

theorem AtHome.clean {mode : C.Mode} (h : AtHome items b mode s.depth s.scope s.reader)
    (hnodup : ∀ level, (Tree.namesAt s.scope level).Nodup) : Clean s.reader.frames := by
  obtain ⟨-, below, tail, rest, ds, ys, hground, haligned, hsuitable, hscope, hr⟩ := h
  exact hr.frames_eq ▸ hground.clean haligned hsuitable hscope hnodup

theorem InBody.clean {scope : Scope} (h : InBody items b scope.newestFirst frames)
    (hnodup : ∀ level, (Tree.namesAt scope level).Nodup) : Clean frames := by
  generalize hscope : scope.newestFirst = visible at h
  cases h with
  | procedure ground aligned suitable => exact ground.clean aligned suitable hscope hnodup
  | @program ds ys position aligned suitable =>
    -- The file, with the main function on top of the global declarations, and its parameters.
    have hfile := Ground.program.clean aligned suitable hscope hnodup
    obtain ⟨hnodupFile, -⟩ := List.forall_mem_cons.mp hfile.distinct
    have hfree := aligned.free
    have hmain : "main" ∉ (ys ++ preambleFrame).map C.Symbol.name := by
      rw [List.map_append, aligned.map_name, List.mem_append, not_or]
      refine ⟨fun hmem => ?_, by decide +kernel⟩
      obtain ⟨d, hd, hname⟩ := List.mem_map.mp hmem
      exact (suitable d hd).2 hname
    refine ⟨?_, mainParameters position ++ declaredSymbol .procedure "main" position :: ys, ?_, ?_⟩
    · refine List.forall_mem_cons.mpr ⟨by simp [mainParameters], ?_⟩
      refine List.forall_mem_cons.mpr ⟨?_, List.forall_mem_nil _⟩
      exact List.nodup_cons.mpr ⟨hmain, hnodupFile⟩
    · simp
    · refine List.forall_mem_append.mpr ⟨?_, List.forall_mem_cons.mpr ⟨.inl ?_, ?_⟩⟩
      · intro y hy
        right
        simp only [mainParameters, List.mem_cons, List.not_mem_nil, or_false] at hy
        rcases hy with rfl | rfl <;> simp [ReservedName.mainParameters]
      · exact (by decide +kernel : isReserved "main" = false)
      · exact fun y hy => .inl (hfree y hy)

/-! ### Where fragments are written -/

/-- Among the declarations or in the body of a block. -/
def Place.IsWithin : Place → Prop
  | .declarations _ | .unbounded _ | .bounded _ | .body _ _ => True
  | _ => False

theorem Sited.clean {p : Place} (hp : Sited items p s.depth s.scope s.reader) (hwithin : p.IsWithin)
    (hnodup : ∀ level, (Tree.namesAt s.scope level).Nodup) : Clean s.reader.frames := by
  cases p with
  | declarations b | unbounded b => exact AtHome.clean hp hnodup
  | bounded b =>
    obtain ⟨mode, -, hp⟩ := hp
    exact hp.clean hnodup
  | body b n =>
    obtain ⟨-, frames, hbody, hr⟩ := hp
    exact hr.frames_eq ▸ (hbody.clean hnodup).replicate n
  | _ => exact hwithin.elim

theorem Fragment.isWithin_of_lead {p q : Place} (hq : f.lead p = some q)
    (hf : f ≠ .preamble ∧ f ≠ .trailer) : p.IsWithin := by
  unfold Fragment.lead at hq
  split at hq
  case h_1 => exact absurd rfl hf.1
  case h_2 => exact absurd rfl hf.2
  all_goals trivial

theorem Slot.isWithin_of_lead {slot : Slot} {p q : Place} (hq : slot.lead p = some q)
    (hslot : (∀ e, slot ≠ .skipped e) ∧ ∀ e f, slot ≠ .written e f) : p.IsWithin := by
  unfold Slot.lead at hq
  split at hq
  case h_1 => exact absurd rfl (hslot.1 _)
  case h_2 => exact absurd rfl (hslot.2 _ _)
  all_goals trivial

theorem Slot.ne_skipped_of_fill {slot : Slot} {depth : Nat} {scope scope' : Scope} {u : Token}
    (h : slot.fill depth scope u = .ok (scope', some f)) (e : Fixed) : slot ≠ .skipped e := by
  rintro rfl
  cases Slot.fills_of_fill h with
  | used huse => cases huse

theorem Site.isWithin {p : Place} (h : Site items s p f) (hf : f ≠ .preamble ∧ f ≠ .trailer) :
    p.IsWithin := by
  cases h with
  | own lead_eq => exact Fragment.isWithin_of_lead lead_eq hf
  | slot visited step_eq not_written lead_eq fill_eq =>
    exact Slot.isWithin_of_lead lead_eq ⟨Slot.ne_skipped_of_fill fill_eq, not_written⟩

/-- The preamble is written before anything else. -/
theorem Site.reader_eq_start {p : Place} (h : Site source.items s p .preamble)
    (hp : Sited source.items p s.depth s.scope s.reader) : s.reader = .start := by
  cases h with
  | own lead_eq =>
    cases p with
    | blank => exact hp.2.2
    | _ => cases lead_eq
  | slot visited step_eq not_written lead_eq fill_eq =>
    have hinner :=
      Slot.isInner_of_fill (fun e => not_written e _) visited.wellFormed_lookahead fill_eq
    exact absurd rfl hinner.2.1

theorem Fragment.eq_variableEnd {p q : Place} (hp : p = .unbounded b ∨ p = .bounded b)
    (hq : f.lead p = some q) : f = .variableEnd := by
  unfold Fragment.lead at hq
  split at hq <;> first | rfl | cases hq <;> rcases hp with hp | hp <;> cases hp

/-- A fragment that ends no variable and is no bound of one is written in the middle of no
declaration. -/
theorem Site.exists_at {p : Place} (h : Site items s p f)
    (hp : Sited items p s.depth s.scope s.reader) (hf : f ≠ .preamble ∧ f ≠ .trailer)
    (hbound : f ≠ .variableEnd ∧ ∀ n, f ≠ .arrayBound n) : ∃ frames, s.reader.At .plain frames := by
  have hwithin := h.isWithin hf
  cases p with
  | declarations b =>
    obtain ⟨-, below, tail, rest, ds, ys, -, -, -, -, hr⟩ := hp
    exact ⟨_, hr⟩
  | body b n =>
    obtain ⟨-, frames, -, hr⟩ := hp
    exact ⟨_, hr⟩
  | unbounded b | bounded b =>
    -- Behind the name of a variable only its bound and its end are written.
    cases h with
    | own lead_eq => exact absurd (Fragment.eq_variableEnd (b := b) (by simp) lead_eq) hbound.1
    | @slot slot gs s' q visited step_eq not_written lead_eq fill_eq =>
      cases slot with
      | written e f => exact absurd rfl (not_written e f)
      | skipped e => exact absurd rfl (Slot.ne_skipped_of_fill fill_eq e)
      | declared kind => cases kind <;> cases lead_eq
      | arrayBound =>
        obtain ⟨n, rfl⟩ := Slot.exists_size_of_fill fill_eq
        exact absurd rfl (hbound.2 n)
      | _ => cases lead_eq
  | _ => exact hwithin.elim

/-- **Where a word or a closing brace is written all is clean**, unless it is one of the preamble.
-/
theorem Site.exists_clean {p : Place} {c : C.Token} (h : Site items s p f)
    (hvisited : Visited items goals s) (hp : Sited items p s.depth s.scope s.reader)
    (hf : f ≠ .preamble) (hmem : c ∈ f.tokens) (hc : (∃ w, c = .word w) ∨ c = .mark "\x7d") :
    ∃ frames, s.reader.At .plain frames ∧ Clean frames := by
  have hends : f ≠ .preamble ∧ f ≠ .trailer := by
    refine ⟨hf, ?_⟩
    rintro rfl
    cases hmem
  have hbound : f ≠ .variableEnd ∧ ∀ n, f ≠ .arrayBound n := by
    constructor
    · rintro rfl
      rcases hc with ⟨w, rfl⟩ | rfl <;> simp [Fragment.tokens] at hmem
    · rintro n rfl
      rcases hc with ⟨w, rfl⟩ | rfl <;> simp [Fragment.tokens] at hmem
  obtain ⟨frames, hr⟩ := h.exists_at hp hends hbound
  exact ⟨frames, hr, hr.frames_eq ▸ hp.clean (h.isWithin hends) hvisited.nodup_namesAt⟩

/-! ### Closing braces -/

/-- A token of fragments in a row is a token of one of them. -/
theorem exists_split_of_getElem? {fs : List Fragment} {i : Nat} {c : C.Token}
    (h : (cTokens fs)[i]? = some c) : ∃ before f after j, fs = before ++ f :: after ∧
      i = (cTokens before).length + j ∧ f.tokens[j]? = some c := by
  induction fs generalizing i with
  | nil => cases h
  | cons f fs ih =>
    rw [cTokens_cons] at h
    by_cases hi : i < f.tokens.length
    · rw [List.getElem?_append_left hi] at h
      exact ⟨[], f, fs, i, rfl, (Nat.zero_add i).symm, h⟩
    · rw [List.getElem?_append_right (Nat.le_of_not_lt hi)] at h
      obtain ⟨before, g, after, j, rfl, hj, hg⟩ := ih h
      refine ⟨f :: before, g, after, j, rfl, ?_, hg⟩
      rw [cTokens_cons, List.length_append]
      omega

/-- What closes a block: the preamble has blocks of its own, and other fragments end with the brace.
-/
theorem Fragment.of_closing (h : .mark "\x7d" ∈ f.tokens) :
    f = .preamble ∨
      f ≠ .preamble ∧ ∃ ts, f.tokens = ts ++ [.mark "\x7d"] ∧ Reader.undisturbed false ts := by
  cases f with
  | preamble => exact .inl rfl
  | bodyEnd b =>
    cases b with
    | program =>
      exact .inr ⟨nofun, [.mark ";", .word "return", .number "0", .mark ";"], rfl, by decide⟩
    | procedure => exact .inr ⟨nofun, [.mark ";"], rfl, by decide⟩
  | blockEnd => exact .inr ⟨nofun, [.mark ";"], rfl, by decide⟩
  | mark m => cases m <;> exact absurd h (by decide)
  | print form o => cases form <;> cases o <;> simp [Fragment.tokens, Operand.token] at h
  | read form => cases form <;> simp [Fragment.tokens] at h
  | _ => simp [Fragment.tokens] at h

/-- Inside the preamble. -/
theorem distinct_preamble {j : Nat} (h : Fragment.preamble.tokens[j]? = some (.mark "\x7d")) :
    (Reader.start.read (Fragment.preamble.tokens.take j)).Distinct := by
  have hall : ∀ j < Fragment.preamble.tokens.length,
      Fragment.preamble.tokens[j]? = some (.mark "\x7d") →
        ∀ frame ∈ (Reader.start.read (Fragment.preamble.tokens.take j)).frames,
          (frame.map C.Symbol.name).Nodup := by decide +kernel
  exact hall j (List.getElem?_eq_some_iff.mp h).1 h

/-- In front of a closing brace of the output, the frames are those at the place of its fragment. -/
theorem distinct_in_front {i : Nat} (hrun : compileItems source.items = .ok () t)
    (h : (cTokens t.fragments)[i]? = some (.mark "\x7d")) :
    (Reader.start.read ((cTokens t.fragments).take i)).Distinct := by
  obtain ⟨before, f, after, j, hsplit, rfl, hj⟩ := exists_split_of_getElem? h
  obtain ⟨goals, s, p, hvisited, rfl, hp, hsite⟩ := exists_site hrun hsplit
  have hlt : j < f.tokens.length := (List.getElem?_eq_some_iff.mp hj).1
  have htake : (cTokens t.fragments).take ((cTokens s.fragments).length + j) =
      cTokens s.fragments ++ f.tokens.take j := by
    rw [hsplit, cTokens_append, cTokens_cons, List.take_length_add_append,
      List.take_append_of_le_length hlt.le]
  rw [htake, C.Reader.read_append]
  change (s.reader.read (f.tokens.take j)).Distinct
  have hmem := List.mem_of_getElem? hj
  rcases Fragment.of_closing hmem with rfl | ⟨hpreamble, ts, hts, hundisturbed⟩
  · rw [hsite.reader_eq_start hp]
    exact distinct_preamble hj
  · obtain ⟨frames, hr, hclean⟩ := hsite.exists_clean hvisited hp hpreamble hmem (.inr rfl)
    have hle : j ≤ ts.length := by
      rw [hts, List.length_append, List.length_singleton] at hlt
      omega
    have hplain : C.Reader.Suits false .plain := rfl
    have hsame := (C.Reader.read_undisturbed hr hplain hundisturbed).2 j
    intro frame hframe
    rw [hts, List.take_append_of_le_length hle, hsame] at hframe
    exact hclean.distinct frame hframe

theorem Tree.Program.exists_fragments (p : Tree.Program) :
    ∃ globals body, p.fragments = globals ++ .mainHead :: (body ++ [.bodyEnd .program]) := by
  obtain ⟨⟨constants, vars, procedures, body⟩⟩ := p
  simp only [Program.fragments, Block.fragments, bodyHead, List.singleton_append,
    ← List.append_assoc]
  rw [List.append_assoc, List.cons_append]
  exact ⟨_, _, rfl⟩

/-- What is written for an accepted text: the preamble, what is global, the main function, and the
trailer. -/
theorem Source.Accepted.exists_fragments (h : source.Accepted) :
    ∃ t globals body, compileItems source.items = .ok () t ∧
      C.tokens (compile source).text = cTokens t.fragments ∧
      t.fragments =
        .preamble :: (globals ++ .mainHead :: (body ++ [.bodyEnd .program, .trailer])) := by
  obtain ⟨p, hp, -⟩ := h.exists_tree
  obtain ⟨-, t, hrun, hfragments⟩ := hp.finished h
  obtain ⟨globals, body, hprogram⟩ := p.exists_fragments
  exact ⟨t, globals, body, hrun, by rw [hp.tokens_compile h, hfragments],
    by simp [hfragments, hprogram]⟩

/-- **In each frame the names are different**, wherever in the output of an accepted text one is. -/
theorem Source.Accepted.distinct (h : source.Accepted) (n : Nat) :
    (Reader.start.read ((C.tokens (compile source).text).take n)).Distinct := by
  obtain ⟨t, globals, body, hrun, htokens, hfragments⟩ := h.exists_fragments
  obtain ⟨ts, hts⟩ : ∃ ts, cTokens t.fragments = ts ++ [.mark "\x7d"] := by
    refine ⟨cTokens (.preamble :: (globals ++ .mainHead :: body)) ++
      [.mark ";", .word "return", .number "0", .mark ";"], ?_⟩
    simp [hfragments, Fragment.tokens]
  rw [htokens]
  refine C.Reader.distinct_take (fun i hi => distinct_in_front hrun hi) ?_ n
  have hlast := distinct_in_front (i := ts.length) hrun (by simp [hts])
  rw [hts, List.take_left] at hlast
  rw [hts, C.Reader.read_append]
  exact hlast.close

end PlZero
