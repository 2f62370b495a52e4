import PlZero.Proofs.Limits

/-!
# Sinks that take everything

A sink may take what it is offered in as many writes as it likes; as long as it refuses nothing
(`Sink.TakesAll`), a job that writes the pieces of an account leaves the whole text in it and ends
as the account does (`Account.WrittenBy.of_takesAll`). With a buffer in front of it, such a sink
still takes everything (`Buffered.takesAll`), and when the buffer is given up, nothing stays behind
in it, also if the job has failed (`Account.WrittenBy.through`).
-/

namespace PlZero

variable {σ : Type} [Sink σ] {I : σ → Prop} {taken : σ → List UInt8}

/-- In the states with the property `I` the sink takes at least one byte of what it is offered, and
refuses nothing, and such are the states that it gets to. The bytes that it has got are `taken`. -/
structure Sink.TakesAll (I : σ → Prop) (taken : σ → List UInt8) : Prop where
  write : ∀ bytes s, I s → bytes ≠ [] → ∃ n s', Sink.write bytes s = .ok (n + 1) s' ∧ I s' ∧
    n < bytes.length ∧ taken s' = taken s ++ bytes.take (n + 1)
  flush : ∀ s, I s → ∃ s', Sink.flush s = .ok () s' ∧ I s' ∧ taken s' = taken s

namespace Sink.TakesAll

/-! ### Writing -/

theorem writeAll (h : TakesAll I taken) (bytes : List UInt8) {s : σ} (hs : I s) :
    ∃ s', Sink.writeAll bytes s = .ok () s' ∧ I s' ∧ taken s' = taken s ++ bytes := by
  cases bytes with
  | nil => exact ⟨s, by rw [Sink.writeAll]; rfl, hs, (List.append_nil _).symm⟩
  | cons b bs =>
    obtain ⟨n, s₁, hwrite, hs₁, hlt, htaken₁⟩ := h.write (b :: bs) s hs (by simp)
    obtain ⟨s₂, hrest, hs₂, htaken₂⟩ := h.writeAll (bs.drop n) hs₁
    refine ⟨s₂, ?_, hs₂, ?_⟩
    · rw [Sink.writeAll]
      simp only [bind, EStateM.bind, hwrite, hrest]
    · rw [htaken₂, htaken₁, List.append_assoc]
      simp
termination_by bytes.length
decreasing_by
  simp only [List.length_drop, List.length_cons]
  omega

theorem writeParts (h : TakesAll I taken) (parts : List String) {s : σ} (hs : I s) :
    ∃ s', Sink.writeParts parts s = .ok () s' ∧ I s' ∧
      taken s' = taken s ++ Text.utf8 (String.join parts) := by
  induction parts generalizing s with
  | nil => exact ⟨s, rfl, hs, (List.append_nil _).symm⟩
  | cons part parts ih =>
    obtain ⟨s₁, hpart, hs₁, htaken₁⟩ := h.writeAll (Text.utf8 part) hs
    obtain ⟨s₂, hparts, hs₂, htaken₂⟩ := ih hs₁
    refine ⟨s₂, ?_, hs₂, ?_⟩
    · simp only [Sink.writeParts, bind, EStateM.bind, hpart, hparts]
    · rw [htaken₂, htaken₁, List.append_assoc, String.join_cons, Text.utf8_append]

theorem offer (h : TakesAll I taken) (pieces : List (Located (List String))) {s : σ} (hs : I s) :
    ∃ s', Sink.offer pieces s = .ok () s' ∧ I s' ∧
      taken s' = taken s ++ bytesOf (pieces.map (Located.map String.join)) := by
  induction pieces generalizing s with
  | nil => exact ⟨s, rfl, hs, (List.append_nil _).symm⟩
  | cons piece pieces ih =>
    obtain ⟨s₁, hpiece, hs₁, htaken₁⟩ := h.writeParts piece.value hs
    obtain ⟨s₂, hpieces, hs₂, htaken₂⟩ := ih hs₁
    refine ⟨s₂, ?_, hs₂, ?_⟩
    · simp only [Sink.offer, bind, EStateM.bind, blame, hpiece, hpieces]
    · rw [htaken₂, htaken₁, List.append_assoc, List.map_cons, bytesOf_cons, Located.value_map]

end Sink.TakesAll

/-- What a job comes to that leaves the sink in this state and ends so. -/
def Sink.ended (s : σ) : Except (Located Failure) Line → EStateM.Result (Located Failure) σ Unit
  | .ok _ => .ok () s
  | .error f => .error f s

/-- **A job leaves everything in a sink that refuses nothing**, and ends as it does by itself. -/
theorem Account.WrittenBy.of_takesAll {a : Account} {job : EStateM (Located Failure) σ Unit}
    (hjob : a.WrittenBy job) (h : Sink.TakesAll I taken) {s : σ} (hs : I s) :
    ∃ s', job s = Sink.ended s' a.ending ∧ I s' ∧ taken s' = taken s ++ Text.utf8 a.text := by
  obtain ⟨pieces, hpieces, rfl⟩ := hjob
  obtain ⟨s₁, hoffer, hs₁, htaken₁⟩ := h.offer pieces hs
  rw [Account.text, hpieces]
  simp only [bind, EStateM.bind, hoffer]
  cases a.ending with
  | error f => exact ⟨s₁, rfl, hs₁, htaken₁⟩
  | ok line =>
    obtain ⟨s₂, hflush, hs₂, htaken₂⟩ := h.flush s₁ hs₁
    refine ⟨s₂, ?_, hs₂, htaken₂.trans htaken₁⟩
    simp only [Sink.finish, blame, hflush, Sink.ended]

/-! ### Sinks in memory -/

/-- A sink in memory without a limit, which does not refuse to be flushed. -/
def LimitedSink.IsUnlimited (s : LimitedSink) : Prop :=
  s.room? = none ∧ s.flushRefusal? = none

theorem LimitedSink.takesAll : Sink.TakesAll IsUnlimited fun s => s.taken.toList where
  write bytes s hs hne := by
    obtain ⟨n, hn⟩ := Nat.exists_eq_succ_of_ne_zero (mt List.length_eq_zero_iff.mp hne)
    have hfits : s.fitting bytes.length = n + 1 := by rw [fitting, hs.1, hn]
    refine ⟨n, s.add (bytes.take (n + 1)), ?_, hs, by omega, by simp [add]⟩
    simp only [Sink.write, hfits]
    simp
  flush s hs := by
    refine ⟨{ s with flushedAt := s.flushedAt ++ [s.taken.size] }, ?_, hs, rfl⟩
    simp only [Sink.flush, hs.2]

/-! ### Buffers -/

namespace Buffered

/-- All that the buffer holds is passed on. -/
theorem exists_passOn (h : Sink.TakesAll I taken) (pending : List UInt8) {s : σ} (hs : I s) :
    ∃ s', passOn ⟨pending, s⟩ = .ok () ⟨[], s'⟩ ∧ I s' ∧ taken s' = taken s ++ pending := by
  cases pending with
  | nil => exact ⟨s, by rw [passOn], hs, (List.append_nil _).symm⟩
  | cons byte bytes =>
    obtain ⟨n, s₁, hwrite, hs₁, hlt, htaken₁⟩ := h.write (byte :: bytes) s hs (by simp)
    obtain ⟨s₂, hrest, hs₂, htaken₂⟩ := exists_passOn h (bytes.drop n) hs₁
    refine ⟨s₂, ?_, hs₂, ?_⟩
    · simp only [passOn, hwrite, hrest]
    · rw [htaken₂, htaken₁, List.append_assoc]
      simp
termination_by pending.length
decreasing_by
  simp only [List.length_drop, List.length_cons]
  omega

/-- What has gone into a buffer, whether it has been passed on or not. -/
def gone (taken : σ → List UInt8) (b : Buffered σ) : List UInt8 :=
  taken b.inner ++ b.pending

theorem exists_makeRoom (h : Sink.TakesAll I taken) (b : Buffered σ) (hb : I b.inner)
    (count : Nat) :
    ∃ b', b.makeRoom count = .ok () b' ∧ I b'.inner ∧ gone taken b' = gone taken b ∧
      (capacity ≤ count → b'.pending = []) := by
  unfold makeRoom
  split
  · next hroom =>
    exact ⟨b, rfl, hb, rfl, fun hle => List.eq_nil_of_length_eq_zero (by omega)⟩
  · obtain ⟨s, hpassed, hs, htaken⟩ := exists_passOn h b.pending hb
    exact ⟨⟨[], s⟩, hpassed, hs, by simp [gone, htaken], fun _ => rfl⟩

/-- **A buffer takes everything** if what is behind it does. -/
theorem takesAll (h : Sink.TakesAll I taken) :
    Sink.TakesAll (fun b : Buffered σ => I b.inner) (gone taken) where
  write bytes b hb hne := by
    obtain ⟨b₁, hroom, hb₁, hgone, hempty⟩ := exists_makeRoom h b hb bytes.length
    simp only [Sink.write, hroom]
    split
    · -- What fits into the buffer is taken as a whole.
      obtain ⟨n, hn⟩ := Nat.exists_eq_succ_of_ne_zero (mt List.length_eq_zero_iff.mp hne)
      refine ⟨n, { b₁ with pending := b₁.pending ++ bytes }, by rw [hn], hb₁, by omega, ?_⟩
      rw [← hgone, List.take_of_length_le (by omega)]
      simp [gone]
    · next hlarge =>
      -- The rest goes past the buffer, which `makeRoom` has emptied for it.
      obtain ⟨n, s, hwrite, hs, hlt, htaken⟩ := h.write bytes b₁.inner hb₁ hne
      refine ⟨n, { b₁ with inner := s }, by rw [hwrite], hs, hlt, ?_⟩
      rw [← hgone]
      simp [gone, htaken, hempty (Nat.le_of_not_lt hlarge)]
  flush b hb := by
    obtain ⟨s₁, hpassed, hs₁, htaken₁⟩ := exists_passOn h b.pending hb
    obtain ⟨s₂, hflush, hs₂, htaken₂⟩ := h.flush s₁ hs₁
    refine ⟨⟨[], s₂⟩, ?_, hs₂, by simp [gone, htaken₁, htaken₂]⟩
    simp only [Sink.flush] at hflush ⊢
    rw [hpassed]
    simp only [hflush]

/-- Nothing stays behind in the buffer. -/
theorem exists_close (h : Sink.TakesAll I taken) {b : Buffered σ} (hb : I b.inner) :
    I b.close ∧ taken b.close = gone taken b := by
  obtain ⟨b₁, hflush, hb₁, hgone⟩ := (takesAll h).flush b hb
  obtain ⟨s, hpassed, hs, htaken⟩ := exists_passOn h b₁.pending hb₁
  have hclose : b.close = s := by
    rw [close, hflush]
    simp only [hpassed]
  exact hclose ▸ ⟨hs, htaken.trans hgone⟩

end Buffered

/-- **Through a buffer, a job leaves everything in a sink that refuses nothing**, also if it fails.
-/
theorem Account.WrittenBy.through {a : Account} {job : EStateM (Located Failure) (Buffered σ) Unit}
    (hjob : a.WrittenBy job) (h : Sink.TakesAll I taken) {s : σ} (hs : I s) :
    ∃ s', Buffered.through job s = Sink.ended s' a.ending ∧ I s' ∧
      taken s' = taken s ++ Text.utf8 a.text := by
  obtain ⟨b, hjob, hb, htaken⟩ := hjob.of_takesAll (Buffered.takesAll h) (s := ⟨[], s⟩) hs
  obtain ⟨hclose, htakenClose⟩ := Buffered.exists_close h hb
  refine ⟨b.close, ?_, hclose, ?_⟩
  · rw [Buffered.through, hjob]
    cases a.ending <;> rfl
  · rw [htakenClose, htaken, Buffered.gone, List.append_nil]

end PlZero
