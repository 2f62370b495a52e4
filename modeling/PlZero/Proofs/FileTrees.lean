import PlZero.CommandLine.FileTree

/-!
# Writing to a file tree

A path that can be opened for writing (`FileTree.Opens`) leads to the place of a file, or to one
where a file can be created, and all that lies above this place are folders (`isReached_of_target`).
So putting content there changes what is found at this place and nowhere else (`overwrites_put`),
and the path leads to the new content (`Overwrites.read_eq`).
-/

namespace PlZero.CommandLine.FileTree

variable {t t' : FileTree} {p q : Place} {path : String} {parts : List String}
  {content : Array UInt8}

/-! ### Places that are reached -/

/-- Everything above the place is a folder. -/
def IsReached (t : FileTree) (p : Place) : Prop :=
  ∀ q, q <+: p → q ≠ p → t.entry? q = some .folder

/-- The entry of a list that is at a place. -/
def found? (entries : List (Place × Entry)) (p : Place) : Option Entry :=
  (entries.find? fun e => e.1 = p).map Prod.snd

theorem entry?_eq (t : FileTree) (p : Place) :
    t.entry? p = if t.isOnTheWay p then some .folder else found? t.entries p := rfl

theorem entry?_of_isOnTheWay (h : t.isOnTheWay p = true) : t.entry? p = some .folder := by
  rw [entry?_eq, if_pos h]

theorem isReached_nil : t.IsReached [] := fun _ hq hne => absurd (List.prefix_nil.mp hq) hne

/-- Everything above the working folder is a folder. -/
theorem isReached_here : t.IsReached t.here := fun q hq _ => by
  refine entry?_of_isOnTheWay ?_
  rw [isOnTheWay, List.isPrefixOf_iff_prefix.mpr hq, Bool.true_or]

theorem IsReached.dropLast (h : t.IsReached p) : t.IsReached p.dropLast := fun q hq hne => by
  refine h q (hq.trans p.dropLast_prefix) ?_
  rintro rfl
  exact hne (hq.eq_of_length_le (List.dropLast_prefix _).length_le)

theorem IsReached.concat {name : String} (h : t.IsReached p) (hp : t.entry? p = some .folder) :
    t.IsReached (p ++ [name]) := fun q hq hne => by
  rcases List.prefix_concat_iff.mp hq with rfl | hq
  · exact absurd rfl hne
  · by_cases hqp : q = p
    · exact hqp ▸ hp
    · exact h q hq hqp

/-- Whatever a path leads to is reached. -/
theorem IsReached.follow (h : t.IsReached p) (hfollow : t.follow p parts = .ok q) :
    t.IsReached q := by
  induction parts generalizing p with
  | nil =>
    cases hfollow
    exact h
  | cons part parts ih =>
    rw [FileTree.follow] at hfollow
    split at hfollow
    · next hp =>
      split at hfollow
      · exact ih h hfollow
      · split at hfollow
        · exact ih h.dropLast hfollow
        · split at hfollow
          · exact ih (h.concat hp) hfollow
          · cases hfollow
    · cases hfollow
    · cases hfollow

theorem isReached_of_start (h : t.start path = .ok (p, parts)) : t.IsReached p := by
  rw [start] at h
  split at h
  · split at h <;> cases h
    · exact isReached_nil
    · exact isReached_here
  · cases h

/-- A path that can be written to leads to its place, where there is no folder. -/
theorem exists_of_target (h : t.target path = .ok p) :
    ∃ p₀ parts, t.start path = .ok (p₀, parts) ∧ t.follow p₀ parts = .ok p ∧
      t.entry? p ≠ some .folder := by
  rw [target] at h
  cases hstart : t.start path with
  | error e => rw [hstart] at h; cases h
  | ok r =>
    obtain ⟨p₀, parts⟩ := r
    simp only [hstart, bind, Except.bind] at h
    split at h
    · -- A path that ends with a slash names a folder.
      split at h <;> cases h
    · cases hfollow : t.follow p₀ parts with
      | error e => rw [hfollow] at h; cases h
      | ok q =>
        simp only [hfollow] at h
        split at h
        · cases h
        · next content hfile =>
          cases h
          exact ⟨p₀, parts, rfl, hfollow, by simp [hfile]⟩
        · next dev hdevice =>
          cases herror : dev.error? with
          | some e => rw [herror] at h; cases h
          | none =>
            rw [herror] at h
            cases h
            exact ⟨p₀, parts, rfl, hfollow, by simp [hdevice]⟩
        · next hnone =>
          split at h <;> cases h
          exact ⟨p₀, parts, rfl, hfollow, by simp [hnone]⟩

theorem isReached_of_target (h : t.target path = .ok p) : t.IsReached p := by
  obtain ⟨p₀, parts, hstart, hfollow, -⟩ := exists_of_target h
  exact (isReached_of_start hstart).follow hfollow

/-! ### Putting content at a place -/

/-- The path can be opened for writing, at this place: there is a file, which loses its content, or
one is created. -/
structure Opens (t : FileTree) (path : String) (p : Place) : Prop where
  target_eq : t.target path = .ok p
  none_or_file : t.entry? p = none ∨ ∃ content, t.entry? p = some (.file content)

/-- In the tree `t'` the place `p` holds a file with this content, and every other one what it holds
in the tree `t`. -/
structure Overwrites (t : FileTree) (p : Place) (content : Array UInt8) (t' : FileTree) : Prop where
  here_eq : t'.here = t.here
  entry?_self : t'.entry? p = some (.file content)
  entry?_of_ne : ∀ q, q ≠ p → t'.entry? q = t.entry? q

/-- The entry with this content, if it is the one at the place. -/
def withContent (p : Place) (content : Array UInt8) (e : Place × Entry) : Place × Entry :=
  if e.1 = p then (p, .file content) else e

@[simp]
theorem fst_withContent (p : Place) (content : Array UInt8) (e : Place × Entry) :
    (withContent p content e).1 = e.1 := by
  by_cases he : e.1 = p <;> simp [withContent, he]

theorem found?_map (entries : List (Place × Entry)) (p q : Place) (content : Array UInt8) :
    found? (entries.map (withContent p content)) q =
      (found? entries q).map fun old => if q = p then .file content else old := by
  have hkey : (fun e : Place × Entry => decide (e.1 = q)) ∘ withContent p content =
      fun e => decide (e.1 = q) := by
    funext e
    simp
  rw [found?, found?, List.find?_map, hkey]
  cases hfind : entries.find? fun e => e.1 = q with
  | none => rfl
  | some e =>
    obtain rfl : e.1 = q := by simpa using List.find?_some hfind
    by_cases he : e.1 = p <;> simp [withContent, he]

theorem found?_concat (entries : List (Place × Entry)) (p q : Place) (entry : Entry) :
    found? (entries ++ [(p, entry)]) q =
      (found? entries q).or (if p = q then some entry else none) := by
  rw [found?, found?, List.find?_append, Option.map_or]
  by_cases h : p = q <;> simp [h]

theorem found?_eq_none {entries : List (Place × Entry)} :
    found? entries p = none ↔ (entries.any fun e => e.1 = p) = false := by
  simp [found?]

/-- The content of the file at a place is replaced. -/
theorem overwrites_put_of_mem (hway : t.isOnTheWay p = false)
    (hmem : (t.entries.any fun e => e.1 = p) = true) :
    t.Overwrites p content (t.put p content) := by
  have hput : t.put p content = { t with entries := t.entries.map (withContent p content) } := by
    rw [put, if_pos hmem]
    rfl
  have hsame (q : Place) : (t.put p content).isOnTheWay q = t.isOnTheWay q := by
    rw [hput, isOnTheWay, isOnTheWay, List.any_map]
    simp [Function.comp_def]
  obtain ⟨old, hold⟩ : ∃ old, found? t.entries p = some old := by
    refine Option.ne_none_iff_exists'.mp fun hnone => ?_
    cases hmem.symm.trans (found?_eq_none.mp hnone)
  refine ⟨by rw [hput], ?_, fun q hq => ?_⟩
  · rw [entry?_eq, hsame, hway, hput, found?_map, hold]
    simp
  · rw [entry?_eq, entry?_eq, hsame, hput, found?_map]
    simp [hq]

/-- A file is created at a place. -/
theorem overwrites_put_of_not_mem (h : t.IsReached p) (hway : t.isOnTheWay p = false)
    (hmem : (t.entries.any fun e => e.1 = p) = false) :
    t.Overwrites p content (t.put p content) := by
  have hput : t.put p content = { t with entries := t.entries ++ [(p, .file content)] } := by
    simp [put, hmem]
  have hadded (q : Place) : (t.put p content).isOnTheWay q =
      (t.isOnTheWay q || (decide (p ≠ q) && q.isPrefixOf p)) := by
    rw [hput, isOnTheWay, isOnTheWay, List.any_append, Bool.or_assoc]
    simp
  refine ⟨by rw [hput], ?_, fun q hq => ?_⟩
  · rw [entry?_eq, hadded, hway, hput, found?_concat, found?_eq_none.mpr hmem]
    simp
  · by_cases habove : q <+: p
    · -- A folder above the new file.
      rw [h q habove hq]
      refine entry?_of_isOnTheWay ?_
      simp [hadded, habove, Ne.symm hq]
    · rw [entry?_eq, entry?_eq, hadded, hput, found?_concat]
      simp [habove, Ne.symm hq]

/-- **What is put into the place of a file, or into an empty one that is reached, changes nothing
else.** -/
theorem overwrites_put (h : t.IsReached p)
    (hp : t.entry? p = none ∨ ∃ old, t.entry? p = some (.file old)) :
    t.Overwrites p content (t.put p content) := by
  have hway : t.isOnTheWay p = false := by
    cases hway : t.isOnTheWay p with
    | false => rfl
    | true =>
      rw [entry?_of_isOnTheWay hway] at hp
      simp at hp
  cases hmem : t.entries.any fun e => e.1 = p with
  | true => exact overwrites_put_of_mem hway hmem
  | false => exact overwrites_put_of_not_mem h hway hmem

/-! ### Reading what has been put -/

namespace Overwrites

/-- A path that only goes through folders of the tree before goes through them afterwards. -/
theorem follow (h : t.Overwrites p content t') (hp : t.entry? p ≠ some .folder) {p₀ : Place}
    (hfollow : t.follow p₀ parts = .ok q) : t'.follow p₀ parts = .ok q := by
  induction parts generalizing p₀ with
  | nil => exact hfollow
  | cons part parts ih =>
    rw [FileTree.follow] at hfollow ⊢
    split at hfollow
    · next hfolder =>
      have hne : p₀ ≠ p := fun heq => hp (heq ▸ hfolder)
      rw [h.entry?_of_ne p₀ hne, hfolder]
      split at hfollow
      · next hsame => simpa [hsame] using ih hfollow
      · next hsame =>
        split at hfollow
        · next habove => simpa [hsame, habove] using ih hfollow
        · next habove =>
          split at hfollow
          · next hsize => simpa [hsame, habove, hsize] using ih hfollow
          · cases hfollow
    · cases hfollow
    · cases hfollow

/-- **The path leads to the content that has been put there.** -/
theorem read_eq (h : t.Overwrites p content t') (htarget : t.target path = .ok p) :
    t'.read path = .ok content := by
  obtain ⟨p₀, parts, hstart, hfollow, hp⟩ := exists_of_target htarget
  have hstart' : t'.start path = .ok (p₀, parts) := by
    rw [← hstart, start, start, h.here_eq]
  have hfollow' := h.follow hp hfollow
  simp only [read, hstart', bind, Except.bind, hfollow', h.entry?_self]
  rfl

end Overwrites

end PlZero.CommandLine.FileTree
