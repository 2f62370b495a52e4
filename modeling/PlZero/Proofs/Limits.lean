import PlZero.Proofs.Sinks
import PlZero.Proofs.Translation
import PlZero.Proofs.Visits

/-!
# Sinks with limited room

A sink with room for so many bytes takes of what is written what fits (`writeAll_eq`), and it makes
no difference in which parts it is written (`writeParts_eq`). So a job that writes the pieces of an
account leaves such a sink as a delivery of this account (`Account.WrittenBy.eq_result`), which
offers the whole pieces one after the other.

A delivery gets the output as far as there is room for it (`Account.FitsInto`). Pieces that fit are
taken as by a destination that takes everything (`foldl_receive_of_fits`); the first piece that does
not fit is cut and stops the delivery (`foldl_receive_of_exceeds`). So what comes of a program that
is compiled into a sink, or whose tokens are listed into it, depends on the bytes of the whole
output and on the room, not on the writes (`output_of_limit`).
-/

namespace PlZero

variable {dest : Destination} {d : Delivery} {limit : Nat}

theorem size_append_bytes (bytes : Array UInt8) (more : List UInt8) :
    (bytes ++ more).size = bytes.size + more.length := by
  rw [← Array.length_toList, Array.toList_appendList, List.length_append, Array.length_toList]

/-! ### Writing into limited room -/

namespace LimitedSink

variable {s : LimitedSink} {bytes more : List UInt8}

theorem add_nil (s : LimitedSink) : s.add [] = s := by simp [add]

theorem add_add (s : LimitedSink) (bytes more : List UInt8) :
    (s.add bytes).add more = s.add (bytes ++ more) := by
  simp [add, ← Array.toList_inj]

theorem fitting_le (s : LimitedSink) (count : Nat) : s.fitting count ≤ count := by
  unfold fitting
  split <;> omega

/-- What fits behind the bytes. -/
theorem fitting_add (s : LimitedSink) (bytes : List UInt8) (count : Nat) :
    (s.add bytes).fitting count = s.fitting (bytes.length + count) - bytes.length := by
  simp only [fitting, add, size_append_bytes]
  split <;> omega

/-- Nothing goes into a full sink. -/
theorem writeAll_of_full (hbytes : bytes ≠ []) (hfull : s.fitting bytes.length = 0) :
    Sink.writeAll bytes s = .error s.whenFull.reason s := by
  obtain ⟨b, bs, rfl⟩ := List.exists_cons_of_ne_nil hbytes
  rw [Sink.writeAll]
  simp only [bind, EStateM.bind, Sink.write, hfull]
  cases s.whenFull <;> simp <;> rfl

/-- A sink takes all bytes, or as many as there is room for. -/
theorem writeAll_eq (bytes : List UInt8) (s : LimitedSink) :
    Sink.writeAll bytes s =
      if s.fitting bytes.length = bytes.length then .ok () (s.add bytes)
      else .error s.whenFull.reason (s.add (bytes.take (s.fitting bytes.length))) := by
  cases bytes with
  | nil =>
    have hnone : s.fitting 0 = 0 := Nat.le_zero.mp (s.fitting_le 0)
    simp [Sink.writeAll, hnone, add_nil]
    rfl
  | cons b bs =>
    have hle := s.fitting_le (bs.length + 1)
    rw [List.length_cons]
    cases hn : s.fitting (bs.length + 1) with
    | zero => rw [writeAll_of_full (by simp) hn, if_neg (by simp), List.take_zero, add_nil]
    | succ n =>
      have hwrite : Sink.write (b :: bs) s = .ok (n + 1) (s.add ((b :: bs).take (n + 1))) := by
        simp [Sink.write, hn]
      rw [hn] at hle
      rw [Sink.writeAll]
      simp only [bind, EStateM.bind, hwrite]
      rcases Nat.lt_or_eq_of_le (Nat.le_of_succ_le_succ hle) with hlt | rfl
      · -- There is no room for the rest.
        have hrest : (bs.drop n).length = bs.length - n := List.length_drop
        rw [if_neg (by omega), writeAll_of_full]
        · rfl
        · exact List.ne_nil_of_length_pos (by omega)
        · rw [fitting_add, List.length_take, hrest, List.length_cons,
            show min (n + 1) (bs.length + 1) + (bs.length - n) = bs.length + 1 by omega, hn]
          omega
      · simp [Sink.writeAll]
        rfl

theorem fitting_eq_min (s : LimitedSink) (count more : Nat) :
    s.fitting count = min count (s.fitting (count + more)) := by
  unfold fitting
  split <;> omega

/-- It makes no difference whether bytes are written together. -/
theorem writeAll_append (bytes more : List UInt8) (s : LimitedSink) :
    Sink.writeAll (bytes ++ more) s = (Sink.writeAll bytes >>= fun _ => Sink.writeAll more) s := by
  have hmin := s.fitting_eq_min bytes.length more.length
  have hle := s.fitting_le (bytes.length + more.length)
  simp only [bind, EStateM.bind]
  rw [writeAll_eq, writeAll_eq bytes, List.length_append]
  by_cases hfits : s.fitting bytes.length = bytes.length
  · rw [if_pos hfits]
    simp only [writeAll_eq more, fitting_add, add_add]
    by_cases hmore : s.fitting (bytes.length + more.length) = bytes.length + more.length
    · rw [if_pos hmore, if_pos (by omega)]
    · rw [if_neg hmore, if_neg (by omega), List.take_append, List.take_of_length_le (by omega)]
      rfl
  · rw [if_neg hfits, if_neg (by omega), List.take_append,
      show s.fitting (bytes.length + more.length) = s.fitting bytes.length by omega,
      show s.fitting bytes.length - bytes.length = 0 by omega, List.take_zero, List.append_nil]

/-- It makes no difference in which parts a text is written. -/
theorem writeParts_eq (parts : List String) (s : LimitedSink) :
    Sink.writeParts parts s = Sink.writeAll (Text.utf8 (String.join parts)) s := by
  induction parts generalizing s with
  | nil => rw [String.join_nil, show Text.utf8 "" = [] from rfl, Sink.writeAll, Sink.writeParts]
  | cons part parts ih =>
    rw [String.join_cons, Text.utf8_append, writeAll_append, Sink.writeParts]
    simp only [bind, EStateM.bind, ih]

end LimitedSink

/-! ### Pieces -/

theorem receive_of_fits (hd : d.failure? = none) (hroom : dest.room? = some limit)
    {piece : Located String} (hfits : d.bytes.size + (Text.utf8 piece.value).length ≤ limit) :
    d.receive dest piece = { d with bytes := d.bytes ++ Text.utf8 piece.value } := by
  have hleft : (Text.utf8 piece.value).length ≤ limit - d.bytes.size := by omega
  simp [Delivery.receive, hd, hroom, hleft]

theorem receive_of_exceeds (hd : d.failure? = none) (hroom : dest.room? = some limit)
    {piece : Located String} (hle : d.bytes.size ≤ limit)
    (hexceeds : limit < d.bytes.size + (Text.utf8 piece.value).length) :
    d.receive dest piece =
      { d with
        bytes := d.bytes ++ (Text.utf8 piece.value).take (limit - d.bytes.size)
        failure? := some ⟨piece.line, .output dest.refusal⟩ } := by
  have hleft : ¬ (Text.utf8 piece.value).length ≤ limit - d.bytes.size := by omega
  simp [Delivery.receive, hd, hroom, hleft]

/-- A delivery that has stopped takes nothing any more. -/
theorem foldl_receive_of_failed (pieces : List (Located String)) (hd : d.failure?.isSome) :
    pieces.foldl (Delivery.receive dest) d = d := by
  induction pieces with
  | nil => rfl
  | cons piece pieces ih => simpa [Delivery.receive, hd] using ih

/-- The bytes of all pieces. -/
def bytesOf (pieces : List (Located String)) : List UInt8 :=
  Text.utf8 (String.join (pieces.map Located.value))

theorem bytesOf_nil : bytesOf [] = [] := rfl

theorem bytesOf_cons (piece : Located String) (pieces : List (Located String)) :
    bytesOf (piece :: pieces) = Text.utf8 piece.value ++ bytesOf pieces := by
  simp [bytesOf]

/-- Pieces that fit are taken. -/
theorem foldl_receive_of_fits (hroom : dest.room? = some limit) {pieces : List (Located String)}
    (hd : d.failure? = none) (hfits : d.bytes.size + (bytesOf pieces).length ≤ limit) :
    pieces.foldl (Delivery.receive dest) d = { d with bytes := d.bytes ++ bytesOf pieces } := by
  induction pieces generalizing d with
  | nil => simp [bytesOf_nil]
  | cons piece pieces ih =>
    rw [bytesOf_cons, List.length_append] at hfits
    rw [List.foldl_cons, receive_of_fits hd hroom (by omega)]
    refine (ih (by exact hd) ?_).trans ?_
    · rw [size_append_bytes]
      omega
    · simp [← Array.toList_inj, bytesOf_cons]

/-- Of pieces that do not fit, as many bytes are taken as there is room for, and one of the pieces
is refused. -/
theorem foldl_receive_of_exceeds (hroom : dest.room? = some limit) {pieces : List (Located String)}
    (hd : d.failure? = none) (hle : d.bytes.size ≤ limit)
    (hexceeds : limit < d.bytes.size + (bytesOf pieces).length) :
    ∃ piece ∈ pieces, pieces.foldl (Delivery.receive dest) d =
      { d with
        bytes := d.bytes ++ (bytesOf pieces).take (limit - d.bytes.size)
        failure? := some ⟨piece.line, .output dest.refusal⟩ } := by
  induction pieces generalizing d with
  | nil =>
    rw [bytesOf_nil, List.length_nil] at hexceeds
    omega
  | cons piece pieces ih =>
    rw [bytesOf_cons, List.length_append] at hexceeds
    rw [List.foldl_cons, bytesOf_cons, List.take_append]
    by_cases hfits : d.bytes.size + (Text.utf8 piece.value).length ≤ limit
    · -- The first piece fits, so a later one is refused.
      have hsize := size_append_bytes d.bytes (Text.utf8 piece.value)
      have hle' : (d.bytes ++ Text.utf8 piece.value).size ≤ limit := by omega
      rw [receive_of_fits hd hroom hfits, List.take_of_length_le (by omega)]
      obtain ⟨refused, hmem, hfold⟩ :=
        ih (d := { d with bytes := d.bytes ++ Text.utf8 piece.value }) hd hle'
          (by rw [hsize]; omega)
      refine ⟨refused, List.mem_cons_of_mem _ hmem, hfold.trans ?_⟩
      rw [hsize, Nat.sub_add_eq]
      simp [← Array.toList_inj]
    · have hnone : limit - d.bytes.size - (Text.utf8 piece.value).length = 0 := by omega
      refine ⟨piece, List.mem_cons_self, ?_⟩
      rw [receive_of_exceeds hd hroom hle (by omega), foldl_receive_of_failed _ rfl, hnone]
      simp

/-- A piece is delivered without a flush. -/
theorem flushes_receive (dest : Destination) (d : Delivery) (piece : Located String) :
    (d.receive dest piece).flushes = d.flushes := by
  simp only [Delivery.receive]
  repeat' split
  all_goals rfl

/-! ### Accounts -/

theorem bytesOf_pieces (a : Account) :
    bytesOf a.pieces = (a.deliver .unlimited).bytes.toList := by
  simp [(deliver_unlimited a).2, bytesOf, Account.text]

/-- Where everything fits, everything is delivered, and the run ends as it does by itself. -/
theorem Account.deliver_of_fits (a : Account) (hroom : dest.room? = some limit)
    (hfits : (a.deliver .unlimited).bytes.size ≤ limit) :
    a.deliver dest = Delivery.close dest ⟨(a.deliver .unlimited).bytes, 0, none⟩ a.ending := by
  rw [← Array.length_toList, ← bytesOf_pieces] at hfits
  rw [Account.deliver, foldl_receive_of_fits hroom rfl (by simpa [Delivery.empty] using hfits),
    bytesOf_pieces]
  simp [Delivery.empty]

/-- Where not everything fits, the room is filled and a piece is refused. -/
theorem Account.deliver_of_exceeds (a : Account) (hroom : dest.room? = some limit)
    (hexceeds : limit < (a.deliver .unlimited).bytes.size) :
    ∃ piece ∈ a.pieces, a.deliver dest =
      ⟨(a.deliver .unlimited).bytes.take limit, 0, some ⟨piece.line, .output dest.refusal⟩⟩ := by
  rw [← Array.length_toList, ← bytesOf_pieces] at hexceeds
  obtain ⟨piece, hmem, hfold⟩ := foldl_receive_of_exceeds (d := .empty) hroom rfl
    (by simp [Delivery.empty]) (by simpa [Delivery.empty] using hexceeds)
  refine ⟨piece, hmem, ?_⟩
  rw [Account.deliver, hfold, bytesOf_pieces]
  simp [Delivery.close, Delivery.empty, ← Array.toList_inj, Array.toList_extract]

/-- What a destination with room for `limit` bytes gets of an account, beside what one gets that
takes everything. -/
structure Account.FitsInto (a : Account) (dest : Destination) (limit : Nat) : Prop where
  /-- Where everything fits, a run that fails delivers the same, and is not flushed. -/
  failed : ∀ f, (a.deliver .unlimited).failure? = some f →
    (a.deliver .unlimited).bytes.size ≤ limit →
      a.deliver dest = ⟨(a.deliver .unlimited).bytes, 0, some f⟩
  /-- Where everything fits, a run that finishes delivers the same, and is flushed behind the last
  byte. -/
  finished : (a.deliver .unlimited).failure? = none →
    (a.deliver .unlimited).bytes.size ≤ limit →
      ∃ line, a.deliver dest = Delivery.flush dest ⟨(a.deliver .unlimited).bytes, 0, none⟩ line
  /-- Otherwise the first bytes are delivered, and the run fails because of the destination. -/
  cut : limit < (a.deliver .unlimited).bytes.size →
    ∃ line, a.deliver dest =
      ⟨(a.deliver .unlimited).bytes.take limit, 0, some ⟨line, .output dest.refusal⟩⟩

theorem Account.fitsInto (a : Account) (hroom : dest.room? = some limit) :
    a.FitsInto dest limit where
  failed f hf hfits := by
    have hending : a.ending = .error f := by
      rw [(deliver_unlimited a).1, Account.failure?] at hf
      split at hf
      · next hending => rw [hending, Option.some.inj hf]
      · cases hf
    simp [a.deliver_of_fits hroom hfits, hending, Delivery.close]
  finished hnone hfits := by
    obtain ⟨line, hending⟩ : ∃ line, a.ending = .ok line := by
      rw [(deliver_unlimited a).1, Account.failure?] at hnone
      split at hnone
      · cases hnone
      · next line hending => exact ⟨line, hending⟩
    exact ⟨line, by simp [a.deliver_of_fits hroom hfits, hending, Delivery.close]⟩
  cut hexceeds := by
    obtain ⟨piece, -, h⟩ := a.deliver_of_exceeds hroom hexceeds
    exact ⟨piece.line, h⟩

/-! ### Jobs -/

namespace LimitedSink

/-- The destination that the sink is. -/
def destination (s : LimitedSink) : Destination :=
  ⟨s.room?, s.whenFull.reason, s.flushRefusal?⟩

/-- The sink when this has been delivered to it. -/
def holding (s : LimitedSink) (d : Delivery) : LimitedSink :=
  { s with taken := d.bytes, flushedAt := List.replicate d.flushes d.bytes.size }

/-- What a job comes to that has delivered this to the sink. -/
def result (s : LimitedSink) (d : Delivery) :
    EStateM.Result (Located Failure) LimitedSink Unit :=
  match d.failure? with
  | none => .ok () (s.holding d)
  | some f => .error f (s.holding d)

variable {d : Delivery}

/-- A destination takes of a piece what fits into the sink. -/
theorem receive_eq (hd : d.failure? = none) (s : LimitedSink) (piece : Located String) :
    let bytes := Text.utf8 piece.value
    let n := (s.holding d).fitting bytes.length
    d.receive s.destination piece =
      if n = bytes.length then { d with bytes := d.bytes ++ bytes }
      else
        { d with
          bytes := d.bytes ++ bytes.take n
          failure? := some ⟨piece.line, .output s.whenFull.reason⟩ } := by
  cases hroom : s.room? with
  | none => simp [Delivery.receive, destination, fitting, holding, hd, hroom]
  | some room =>
    simp only [Delivery.receive, destination, fitting, holding, hd, hroom, Option.isSome_none,
      Bool.false_eq_true, if_false]
    split
    · next hle => rw [if_pos (by omega)]
    · next hgt => rw [if_neg (by omega), Nat.min_eq_right (by omega)]

/-- Writing a piece comes to delivering it. -/
theorem blame_eq_result (hd : d.failure? = none) (hflushes : d.flushes = 0)
    (piece : Located (List String)) (s : LimitedSink) :
    blame piece.line (Sink.writeParts piece.value) (s.holding d) =
      s.result (d.receive s.destination (piece.map String.join)) := by
  have hadd (bytes : List UInt8) (failure? : Option (Located Failure)) :
      (s.holding d).add bytes =
        s.holding { d with bytes := d.bytes ++ bytes, failure? := failure? } := by
    simp [holding, add, hflushes]
  rw [receive_eq hd, Located.value_map, Located.line_map, blame, writeParts_eq, writeAll_eq]
  generalize Text.utf8 (String.join piece.value) = bytes
  by_cases hfits : (s.holding d).fitting bytes.length = bytes.length
  · simp only [if_pos hfits, hadd bytes d.failure?, result, hd]
  · simp only [if_neg hfits, hadd _ (some ⟨piece.line, .output s.whenFull.reason⟩), result]
    rfl

/-- The end of a job comes to that of a delivery. -/
theorem finish_eq_result (hd : d.failure? = none) (hflushes : d.flushes = 0)
    (ending : Except (Located Failure) Line) (s : LimitedSink) :
    Sink.finish ending (s.holding d) = s.result (d.close s.destination ending) := by
  cases ending with
  | error f =>
    simp [Sink.finish, Delivery.close, hd, result]
    rfl
  | ok line =>
    simp [Sink.finish, Delivery.close, Delivery.flush, hd, result, blame, Sink.flush, hflushes,
      holding, destination]
    cases s.flushRefusal? <;> rfl

/-- Writing pieces and ending comes to delivering them. -/
theorem offer_eq_result (hd : d.failure? = none) (hflushes : d.flushes = 0)
    (pieces : List (Located (List String))) (ending : Except (Located Failure) Line)
    (s : LimitedSink) :
    (Sink.offer pieces >>= fun _ => Sink.finish ending) (s.holding d) =
      s.result (((pieces.map (Located.map String.join)).foldl (Delivery.receive s.destination)
        d).close s.destination ending) := by
  induction pieces generalizing d with
  | nil => exact finish_eq_result hd hflushes ending s
  | cons piece pieces ih =>
    have hpiece := blame_eq_result hd hflushes piece s
    have hnone := (flushes_receive s.destination d (piece.map String.join)).trans hflushes
    rw [List.map_cons, List.foldl_cons, Sink.offer]
    generalize d.receive s.destination (piece.map String.join) = d' at hpiece hnone
    cases hd' : d'.failure? with
    | none =>
      rw [← ih hd' hnone]
      simp only [bind, EStateM.bind, hpiece, result, hd']
    | some f =>
      rw [foldl_receive_of_failed _ (by rw [hd']; rfl)]
      simp only [bind, EStateM.bind, hpiece, result, hd', Delivery.close]
      simp [hd']

end LimitedSink

/-- **A job leaves a sink as a delivery of its account does.** -/
theorem Account.WrittenBy.eq_result {a : Account} {job : EStateM (Located Failure) LimitedSink Unit}
    (h : a.WrittenBy job) (room? : Option Nat) (whenFull : WhenFull)
    (flushRefusal? : Option String) :
    job (.empty room? whenFull flushRefusal?) =
      (LimitedSink.empty room? whenFull flushRefusal?).result
        (a.deliver ⟨room?, whenFull.reason, flushRefusal?⟩) := by
  obtain ⟨pieces, hpieces, rfl⟩ := h
  rw [Account.deliver, hpieces]
  exact LimitedSink.offer_eq_result (d := .empty) rfl rfl pieces a.ending
    (.empty room? whenFull flushRefusal?)

/-- What a job comes to at a sink with room for `limit` bytes, beside what it comes to at one that
takes everything: everything that it leaves in the sink, each flush and how much had been taken
then, and how it ends. -/
structure StopsAt (limit : Nat) (job : EStateM (Located Failure) LimitedSink Unit) : Prop where
  /-- Where everything fits, a job that fails does the same, and does not flush. -/
  failed : ∀ f all whenFull flushRefusal?, job .unlimited = .error f all →
    all.taken.size ≤ limit →
      job (.empty (some limit) whenFull flushRefusal?) =
        .error f ⟨some limit, whenFull, flushRefusal?, all.taken, []⟩
  /-- Where everything fits, a job that finishes does the same, and flushes behind the last byte. -/
  finished : ∀ all whenFull, job .unlimited = .ok () all → all.taken.size ≤ limit →
    job (.empty (some limit) whenFull none) =
      .ok () ⟨some limit, whenFull, none, all.taken, [all.taken.size]⟩
  /-- If this is refused, the job fails because of the sink. -/
  flushRefused : ∀ all whenFull reason, job .unlimited = .ok () all → all.taken.size ≤ limit →
    ∃ line, job (.empty (some limit) whenFull (some reason)) =
      .error ⟨line, .output reason⟩
        ⟨some limit, whenFull, some reason, all.taken, [all.taken.size]⟩
  /-- Where not everything fits, the first bytes are taken and the job fails because of the sink,
  however it ends by itself, and does not flush. -/
  cut : ∀ all whenFull flushRefusal?,
    (job .unlimited = .ok () all ∨ ∃ f, job .unlimited = .error f all) → limit < all.taken.size →
      ∃ line, job (.empty (some limit) whenFull flushRefusal?) =
        .error ⟨line, .output whenFull.reason⟩
          ⟨some limit, whenFull, flushRefusal?, all.taken.take limit, []⟩

theorem LimitedSink.result_eq_error {s all : LimitedSink} {f : Located Failure}
    (h : s.result d = .error f all) : d.failure? = some f ∧ all = s.holding d := by
  unfold result at h
  split at h <;> cases h
  next hd => exact ⟨hd, rfl⟩

theorem LimitedSink.result_eq_ok {s all : LimitedSink} (h : s.result d = .ok () all) :
    d.failure? = none ∧ all = s.holding d := by
  unfold result at h
  split at h <;> cases h
  next hd => exact ⟨hd, rfl⟩

theorem Account.WrittenBy.stopsAt {a : Account} {job : EStateM (Located Failure) LimitedSink Unit}
    (h : a.WrittenBy job) (limit : Nat) : StopsAt limit job := by
  have hall : job .unlimited = LimitedSink.unlimited.result (a.deliver .unlimited) :=
    h.eq_result none (.refuses "") none
  have hfits (whenFull : WhenFull) (flushRefusal? : Option String) :
      a.FitsInto ⟨some limit, whenFull.reason, flushRefusal?⟩ limit := a.fitsInto rfl
  constructor
  · intro f all whenFull flushRefusal? hjob hle
    obtain ⟨hf, rfl⟩ := LimitedSink.result_eq_error (hall.symm.trans hjob)
    rw [h.eq_result, (hfits whenFull flushRefusal?).failed f hf hle]
    rfl
  · intro all whenFull hjob hle
    obtain ⟨hnone, rfl⟩ := LimitedSink.result_eq_ok (hall.symm.trans hjob)
    obtain ⟨line, hd⟩ := (hfits whenFull none).finished hnone hle
    rw [h.eq_result, hd]
    rfl
  · intro all whenFull reason hjob hle
    obtain ⟨hnone, rfl⟩ := LimitedSink.result_eq_ok (hall.symm.trans hjob)
    obtain ⟨line, hd⟩ := (hfits whenFull (some reason)).finished hnone hle
    refine ⟨line, ?_⟩
    rw [h.eq_result, hd]
    rfl
  · intro all whenFull flushRefusal? hjob hlt
    have hsink : all = LimitedSink.unlimited.holding (a.deliver .unlimited) := by
      rcases hjob with hok | ⟨f, herror⟩
      · exact (LimitedSink.result_eq_ok (hall.symm.trans hok)).2
      · exact (LimitedSink.result_eq_error (hall.symm.trans herror)).2
    subst hsink
    obtain ⟨line, hd⟩ := (hfits whenFull flushRefusal?).cut hlt
    refine ⟨line, ?_⟩
    rw [h.eq_result, hd]
    rfl

/-- **Where there is limited room, as much is written as fits, and nothing else changes**, whether
a program is compiled or its tokens are listed, however much room there is, and whether flushing is
refused or not. -/
theorem output_of_limit (source : Source) (limit : Nat) :
    StopsAt limit (compileInto source) ∧ StopsAt limit (listTokensInto source) :=
  ⟨(writtenBy_compileInto source).stopsAt limit, (writtenBy_listTokensInto source).stopsAt limit⟩

end PlZero
