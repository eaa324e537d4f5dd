import Mathlib.Tactic.Linarith
import Mathlib.Tactic.NormNum
import PCemWeb.Lib.FreeRing
import PCemWeb.Platform.AudioRing

/-!
# When the audio rings are exact

The worklet takes the fill as the difference of two numbers, which is the number of frames
outstanding as long as the write index, as a number, is not below the read index. Where each pull
meets this, every frame is played in order and none is overwritten. After the write index has
wrapped, and until the read index has, a pull finds a negative fill and plays nothing, so that
neither index moves on once the ring is full.
-/

namespace PCemWeb.Platform.Audio

open PCemWeb.Lib

/-! ## What is claimed -/

/-- The size of a ring, as a number. -/
abbrev ringSize : Nat := 65536

/-- A pull takes the right fill, plays if its target is outstanding, and plays the next frames. -/
structure Pull.Exact (produced : List Frame) (pull : Pull) : Prop where
  fill : pull.fill = pull.seen - pull.consumed
  behind : pull.consumed ≤ pull.seen
  room : pull.seen ≤ pull.consumed + ringSize
  plays : pull.target ≤ pull.seen - pull.consumed → pull.played = true
  frames : pull.frames = if pull.played then (produced.drop pull.consumed).take 2 else []
  within : pull.played = true → pull.consumed + 2 ≤ pull.seen
  seen : pull.seen ≤ produced.length

/-- Every pull is exact, and the frames outstanding are in the ring. -/
structure Playback.Exact (s : Playback) : Prop where
  pulls : ∀ pull ∈ s.pulls, pull.Exact s.produced
  behind : s.consumed ≤ s.produced.length
  room : s.produced.length ≤ s.consumed + ringSize
  outstanding : slice (unroll ringSize s.ring) s.consumed (s.produced.length - s.consumed) =
    s.produced.drop s.consumed

/-- The condition on a step: a pull finds the write index not below the read index. -/
def Playback.Unwrapped (s : Playback) (a : Event) : Prop := a = .pull → s.ringRead ≤ s.ringWrite

/-! ## The invariant -/

/-- What the producer has written, with the frames produced and consumed so far. -/
def Producer.Ok (source : Source) (ring : Nat → Frame) (produced consumed : Nat) : Producer → Prop
  | .idle => True
  | .called frames => source.Gives frames.length
  | .writing frames w todo =>
    source.Gives frames.length ∧ w = UInt32.ofNat produced ∧
      produced + frames.length ≤ consumed + ringSize ∧ Writing ringSize ring produced frames todo

/-- The bounds of a stream's target. -/
structure RingStream.Ok (s : RingStream) : Prop where
  rate : s.rate ≤ 48000
  preroll : 2 ≤ s.preroll0
  max : 2 ≤ s.max
  target : 2 ≤ s.target

/-- What a pull that plays has found. -/
structure Pull.Found (pull : Pull) (produced consumed : Nat) : Prop where
  consumed : pull.consumed = consumed
  fill : pull.fill = pull.seen - pull.consumed
  dry : pull.consumed + 2 ≤ pull.seen
  seen : pull.seen ≤ produced
  room : pull.seen ≤ pull.consumed + ringSize

/-- What the consumer has found and read. -/
def Consumer.Ok (pull : Pull) (ringRead : UInt32) (produced : List Frame) (consumed : Nat) :
    Consumer → Prop
  | .idle => True
  | .gotW w =>
    w = UInt32.ofNat pull.seen ∧ consumed ≤ pull.seen ∧ pull.seen ≤ produced.length ∧
      pull.seen ≤ consumed + ringSize ∧ ringRead ≤ w
  | .reading r step =>
    r = UInt32.ofNat consumed ∧ 0 ≤ step ∧ step ≤ 2 ∧ pull.Found produced.length consumed ∧
      pull.frames = []
  | .blending r step first =>
    r = UInt32.ofNat consumed ∧ 0 ≤ step ∧ step ≤ 2 ∧ pull.Found produced.length consumed ∧
      (produced.drop consumed).take 1 = [first]
  | .storing r adv =>
    r = UInt32.ofNat consumed ∧ 0 ≤ adv ∧ adv ≤ 2 ∧ pull.Found produced.length consumed ∧
      pull.frames = (produced.drop consumed).take 2

structure Playback.Inv (s : Playback) : Prop extends s.Exact where
  write : s.ringWrite = UInt32.ofNat s.produced.length
  read : s.ringRead = UInt32.ofNat s.consumed
  producer : s.producer.Ok s.source s.ring s.produced.length s.consumed
  stream : s.stream.Ok
  consumer : s.consumer.Ok s.pull s.ringRead s.produced s.consumed

/-! ## The stream -/

namespace RingStream

variable {s : RingStream}

/-- A step is between none and two frames. -/
theorem Ok.step (ok : s.Ok) : 0 ≤ s.step sampleRate ∧ s.step sampleRate ≤ 2 := by
  have rate : (s.rate : ℚ) ≤ 48000 := by exact_mod_cast ok.rate
  have rate' : (0 : ℚ) ≤ s.rate := by positivity
  have bounds (err : ℚ) : -0.015 ≤ -0.015 ⊔ (0.015 ⊓ err) ∧ -0.015 ⊔ (0.015 ⊓ err) ≤ 0.015 :=
    ⟨le_sup_left, sup_le (by norm_num) inf_le_left⟩
  obtain ⟨low, high⟩ := bounds ((s.fill - s.target) / s.target * 0.06)
  have ratio : (s.rate : ℚ) / sampleRate ≤ 1 := by
    rw [sampleRate, div_le_one (by norm_num)]
    exact_mod_cast ok.rate
  have ratio' : (0 : ℚ) ≤ s.rate / sampleRate := by positivity
  constructor
  · exact mul_nonneg ratio' (by linarith)
  · exact (mul_le_mul ratio (by linarith : _ ≤ (2 : ℚ)) (by linarith) zero_le_one).trans (by norm_num)

theorem ok_new (source : Source) : (new source).Ok := by
  rcases source <;> exact ⟨by decide, by decide, by decide, by decide⟩

theorem Ok.underrun (ok : s.Ok) : s.underrun.Ok := by
  refine { ok with target := ?_ }
  have target := ok.target
  have max := ok.max
  change 2 ≤ min (s.target * 3 / 2) s.max
  omega

theorem Ok.reset (ok : s.Ok) : s.reset.Ok := { ok with target := ok.preroll }

/-- The cursor passes at most two frames. -/
theorem floor_add {pos step : ℚ} (nonneg : 0 ≤ step) (two : step ≤ 2) :
    0 ≤ ⌊pos + step⌋ - ⌊pos⌋ ∧ ⌊pos + step⌋ - ⌊pos⌋ ≤ 2 := by
  have low : ⌊pos⌋ ≤ ⌊pos + step⌋ := Int.floor_mono (by linarith)
  have high : ⌊pos + step⌋ ≤ ⌊pos + 2⌋ := Int.floor_mono (by linarith)
  rw [Int.floor_add_ofNat] at high
  omega

end RingStream

/-! ## Cells -/

theorem cellOf_ofNat {i : Nat} : cellOf (UInt32.ofNat i) = i % ringSize := by
  rw [cellOf, UInt32.toNat_and]
  exact (Nat.and_two_pow_sub_one_eq_mod _ 16).trans (toNat_ofNat_mod (by decide))

/-- The cells that a block is written to. -/
theorem mapIdx_cells {i : Nat} {frames : List Frame} :
    (frames.mapIdx fun c frame => (cellOf (UInt32.ofNat i + UInt32.ofNat c), frame)) =
      cells ringSize i frames := by
  induction frames generalizing i with
  | nil => rfl
  | cons frame frames ih =>
    rw [List.mapIdx_cons, cells, ofNat_add_ofNat, cellOf_ofNat, Nat.add_zero, ← ih]
    congr 2
    funext c frame
    rw [ofNat_add_ofNat, ofNat_add_ofNat, Nat.add_right_comm, Nat.add_assoc]

theorem Source.Gives.short {source : Source} {len : Nat} (gives : source.Gives len) :
    len ≤ maxSoundBufLen := by
  rcases source
  · exact gives.2
  · exact Nat.le_trans (Nat.le_of_eq gives) (by decide)

/-! ## More frames -/

section

variable {produced frames : List Frame}

/-- The next two frames stay the same. -/
theorem take_drop_append {i n : Nat} (within : i + n ≤ produced.length) :
    ((produced ++ frames).drop i).take n = (produced.drop i).take n := by
  rw [List.drop_append_of_le_length (by omega), List.take_append_of_le_length]
  rw [List.length_drop]
  omega

theorem take_one_drop {i : Nat} (lt : i < produced.length) :
    (produced.drop i).take 1 = [produced[i]] := by
  rw [List.drop_eq_getElem_cons lt]
  rfl

theorem Pull.Exact.append {pull : Pull} (exact_ : pull.Exact produced) :
    pull.Exact (produced ++ frames) := by
  have seen := exact_.seen
  refine { exact_ with frames := ?_, seen := ?_ }
  · rw [exact_.frames]
    split
    · rename_i played
      have within := exact_.within played
      rw [take_drop_append (by omega)]
    · rfl
  · rw [List.length_append]
    omega

theorem Consumer.Ok.append {consumer : Consumer} {pull : Pull} {ringRead : UInt32} {consumed : Nat}
    (ok : consumer.Ok pull ringRead produced consumed) :
    consumer.Ok pull ringRead (produced ++ frames) consumed := by
  have more : produced.length ≤ (produced ++ frames).length := by
    rw [List.length_append]
    omega
  have found (found : pull.Found produced.length consumed) :
      pull.Found (produced ++ frames).length consumed :=
    { found with seen := Nat.le_trans found.seen more }
  rcases consumer
  case idle => trivial
  case gotW =>
    obtain ⟨w, behind, seen, others⟩ := ok
    exact ⟨w, behind, Nat.le_trans seen more, others⟩
  case reading =>
    obtain ⟨r, nonneg, two, isFound, others⟩ := ok
    exact ⟨r, nonneg, two, found isFound, others⟩
  case blending =>
    obtain ⟨r, nonneg, two, isFound, first⟩ := ok
    obtain rfl := isFound.consumed
    have dry := isFound.dry
    have seen := isFound.seen
    refine ⟨r, nonneg, two, found isFound, ?_⟩
    rw [take_drop_append (by omega), first]
  case storing =>
    obtain ⟨r, nonneg, two, isFound, read⟩ := ok
    obtain rfl := isFound.consumed
    have dry := isFound.dry
    have seen := isFound.seen
    refine ⟨r, nonneg, two, found isFound, ?_⟩
    rw [take_drop_append (by omega), read]

theorem Producer.Ok.mono {producer : Producer} {source : Source} {ring : Nat → Frame}
    {produced consumed consumed' : Nat} (ok : producer.Ok source ring produced consumed)
    (le : consumed ≤ consumed') : producer.Ok source ring produced consumed' := by
  rcases producer
  case writing =>
    obtain ⟨gives, same, room, writing⟩ := ok
    exact ⟨gives, same, by omega, writing⟩
  all_goals exact ok

end

namespace Playback

variable {s t : Playback}

theorem inv_inital (source : Source) (ring : Nat → Frame) (muted : Bool) :
    (inital source ring muted).Inv :=
  ⟨⟨nofun, Nat.le_refl _, Nat.zero_le _, rfl⟩, rfl, rfl, trivial, RingStream.ok_new source, trivial⟩

/-! ## The producer's steps -/

/-- The room that the producer finds is there. -/
theorem Inv.room_of_check {len : Nat} (inv : s.Inv) (short : len ≤ maxSoundBufLen)
    (check : ¬ringFrames - UInt32.ofNat len ≤ s.ringWrite - s.ringRead) :
    s.produced.length + len ≤ s.consumed + ringSize := by
  have behind := inv.behind
  have room := inv.room
  have caps : maxSoundBufLen = 4800 ∧ ringSize = 65536 := ⟨rfl, rfl⟩
  have block : (UInt32.ofNat len).toNat = len := by
    rw [UInt32.toNat_ofNat']
    exact Nat.mod_eq_of_lt (show len < 4294967296 by omega)
  have limit : (ringFrames - UInt32.ofNat len).toNat = ringSize - len := by
    rw [UInt32.toNat_sub_of_le, block]
    · rfl
    · rw [UInt32.le_iff_toNat_le, block]
      change _ ≤ ringSize
      omega
  have fill : (s.ringWrite - s.ringRead).toNat = s.produced.length - s.consumed := by
    rw [inv.write, inv.read]
    exact toNat_sub_ofNat behind (by omega)
  rw [UInt32.le_iff_toNat_le, limit, fill] at check
  omega

theorem Inv.produce (inv : s.Inv) (next : s.produce = some t) : t.Inv := by
  have producer := inv.producer
  have behind := inv.behind
  rcases now : s.producer with _ | ⟨frames⟩ | ⟨frames, w, _ | ⟨⟨at_, frame⟩, todo⟩⟩ <;>
    simp only [Playback.produce, now] at next <;> rw [now] at producer
  case idle => cases next
  case called =>
    split at next
    · cases next
      exact { inv with producer := trivial }
    · split at next
      · cases next
        exact { inv with producer := trivial }
      · rename_i check
        cases next
        have room := inv.room_of_check producer.short check
        have writes : (frames.mapIdx fun c frame => (cellOf (s.ringWrite + UInt32.ofNat c), frame)) =
            cells ringSize s.produced.length frames := by
          rw [inv.write]
          exact mapIdx_cells
        exact { inv with producer := ⟨producer, inv.write, room, writes ▸ .of_cells⟩ }
  case writing.nil =>
    obtain ⟨gives, rfl, room, writing⟩ := producer
    cases next
    refine { inv with
      pulls := fun pull isPull => (inv.pulls pull isPull).append
      behind := ?_, room := ?_, outstanding := ?_, write := ?_, producer := trivial,
      consumer := inv.consumer.append }
    · change s.consumed ≤ (s.produced ++ frames).length
      rw [List.length_append]
      omega
    · change (s.produced ++ frames).length ≤ _
      rw [List.length_append]
      exact room
    · change slice (unroll ringSize s.ring) s.consumed ((s.produced ++ frames).length - s.consumed) =
        (s.produced ++ frames).drop s.consumed
      rw [List.length_append, Nat.sub_add_comm behind, slice_append, inv.outstanding,
        Nat.add_sub_cancel' behind, writing.written, List.drop_append_of_le_length behind]
    · change _ = UInt32.ofNat (s.produced ++ frames).length
      rw [List.length_append, ← ofNat_add_ofNat]
  case writing.cons =>
    obtain ⟨gives, rfl, room, writing⟩ := producer
    cases next
    have short := gives.short
    have caps : maxSoundBufLen = 4800 ∧ ringSize = 65536 := ⟨rfl, rfl⟩
    have frame_ := writing.frame (i := s.consumed) (n := s.produced.length - s.consumed)
      (by omega) (by omega)
    exact { inv with
      outstanding := frame_.trans inv.outstanding
      producer := ⟨gives, rfl, room, writing.next (by omega)⟩ }

/-! ## The consumer's steps -/

/-- The difference of two indices is their distance just if they have not wrapped apart. -/
theorem fill_iff {i j : Nat} (le : i ≤ j) (near : j - i < 0x100000000) :
    ((UInt32.ofNat j).toNat : Int) - (UInt32.ofNat i).toNat = (j : Int) - i ↔
      UInt32.ofNat i ≤ UInt32.ofNat j := by
  rw [UInt32.le_iff_toNat_le]
  constructor
  · intro fill
    omega
  · intro unwrapped
    have distance := toNat_sub_ofNat le near
    rw [UInt32.toNat_sub_of_le _ _ (UInt32.le_iff_toNat_le.mpr unwrapped)] at distance
    omega

/-- An outstanding frame is in its cell. -/
theorem Inv.frame {i : Nat} (inv : s.Inv) (consumed : s.consumed ≤ i) (lt : i < s.produced.length) :
    s.ring (i % ringSize) = s.produced[i] := by
  obtain ⟨k, rfl⟩ := Nat.exists_eq_add_of_le consumed
  have outstanding := congrArg (fun frames : List Frame => frames[k]?) inv.outstanding
  rw [List.getElem?_drop, List.getElem?_eq_getElem lt, slice, List.getElem?_map,
    List.getElem?_range (by omega)] at outstanding
  exact Option.some.inj outstanding

/-- A pull that does not play returns. -/
theorem Inv.finish {stream : RingStream} {pull : Pull} (inv : s.Inv) (ok : stream.Ok)
    (exact_ : Pull.Exact s.produced { pull with played := false }) :
    (finish { s with pull } stream false).Inv := by
  refine { inv with pulls := fun other isPull => ?_, stream := ok, consumer := trivial }
  rcases List.mem_append.mp isPull with before | new
  · exact inv.pulls other before
  · rw [List.mem_singleton.mp new]
    exact exact_

theorem Inv.gotW {w : UInt32} (inv : s.Inv) (now : s.consumer = .gotW w)
    (next : s.consume = some t) : t.Inv := by
  have consumer := inv.consumer
  rw [now] at consumer
  obtain ⟨rfl, behind, seen, room, unwrapped⟩ := consumer
  have caps : ringSize = 65536 := rfl
  have fill : ((UInt32.ofNat s.pull.seen).toNat : Int) - s.ringRead.toNat =
      (s.pull.seen : Int) - s.consumed := by
    rw [inv.read] at unwrapped ⊢
    exact (fill_iff behind (by omega)).mpr unwrapped
  have target := inv.stream.target
  simp only [Playback.consume, now, fill] at next
  split at next
  case isTrue waits =>
    cases next
    have few : (s.pull.seen : Int) - s.consumed < s.stream.target :=
      of_decide_eq_true (Bool.and_eq_true_iff.mp waits).2
    refine inv.finish { inv.stream with } ⟨rfl, behind, room, ?_, rfl, nofun, seen⟩
    change s.stream.target ≤ s.pull.seen - s.consumed → _
    omega
  case isFalse starts =>
    split at next
    case isTrue dry =>
      cases next
      have started (fill : Int) : RingStream.Ok { s.stream with fill, started := true } :=
        { inv.stream with }
      refine inv.finish { (started _).underrun with } ⟨rfl, behind, room, ?_, rfl, nofun, seen⟩
      change s.stream.target ≤ s.pull.seen - s.consumed → _
      omega
    case isFalse flows =>
      cases next
      have started (fill : Int) : RingStream.Ok { s.stream with fill, started := true } :=
        { inv.stream with }
      obtain ⟨nonneg, two⟩ := (started (s.pull.seen - s.consumed)).step
      exact { inv with
        stream := started _
        consumer := ⟨inv.read, nonneg, two, ⟨rfl, rfl, by dsimp only; omega, seen, room⟩, rfl⟩ }

theorem Inv.consume (inv : s.Inv) (next : s.consume = some t) : t.Inv := by
  have consumer := inv.consumer
  rcases now : s.consumer with _ | ⟨w⟩ | ⟨r, step⟩ | ⟨r, step, first⟩ | ⟨r, adv⟩
  case gotW => exact inv.gotW now next
  all_goals
    simp only [Playback.consume, now] at next
    rw [now] at consumer
  case idle => cases next
  case reading =>
    obtain ⟨rfl, nonneg, two, found, -⟩ := consumer
    cases next
    have same := found.consumed
    have dry := found.dry
    have seen := found.seen
    have lt : s.consumed < s.produced.length := by omega
    refine { inv with consumer := ⟨rfl, nonneg, two, { found with }, ?_⟩ }
    rw [cellOf_ofNat, inv.frame (Nat.le_refl _) lt]
    exact take_one_drop lt
  case blending =>
    obtain ⟨rfl, nonneg, two, found, read⟩ := consumer
    cases next
    have same := found.consumed
    have dry := found.dry
    have seen := found.seen
    have lt : s.consumed + 1 < s.produced.length := by omega
    obtain ⟨low, high⟩ : 0 ≤ ⌊s.stream.pos + step⌋ - ⌊s.stream.pos⌋ ∧
        ⌊s.stream.pos + step⌋ - ⌊s.stream.pos⌋ ≤ 2 := RingStream.floor_add nonneg two
    refine { inv with
      stream := { inv.stream with }
      consumer := ⟨rfl, low, high, { found with }, ?_⟩ }
    have one : UInt32.ofNat s.consumed + 1 = UInt32.ofNat (s.consumed + 1) :=
      ofNat_add_ofNat s.consumed 1
    change [first, s.ring (cellOf (UInt32.ofNat s.consumed + 1))] = _
    rw [one, cellOf_ofNat, inv.frame (Nat.le_succ _) lt, List.take_add_one, read,
      List.getElem?_drop, List.getElem?_eq_getElem lt]
    rfl
  case storing =>
    obtain ⟨rfl, nonneg, two, found, read⟩ := consumer
    have same := found.consumed
    have dry := found.dry
    have seen := found.seen
    have played : Pull.Exact s.produced { s.pull with played := true } :=
      ⟨found.fill, Nat.le_of_add_right_le dry, found.room, fun _ => rfl, same ▸ read, fun _ => dry,
        seen⟩
    have pulls' : ∀ pull ∈ s.pulls ++ [{ s.pull with played := true }], pull.Exact s.produced := by
      intro other isPull
      rcases List.mem_append.mp isPull with before | new
      · exact inv.pulls other before
      · rw [List.mem_singleton.mp new]
        exact played
    split at next
    case isFalse =>
      cases next
      exact { inv with pulls := pulls', consumer := trivial }
    case isTrue =>
      cases next
      obtain ⟨n, rfl⟩ := Int.eq_ofNat_of_zero_le nonneg
      rw [Int.toNat_natCast]
      have within : n ≤ s.produced.length - s.consumed := by omega
      have room := inv.room
      have producer : s.producer.Ok s.source s.ring s.produced.length (s.consumed + n) :=
        inv.producer.mono (Nat.le_add_right _ _)
      refine { inv with
        pulls := pulls', behind := ?_, room := ?_, outstanding := ?_, read := ofNat_add_ofNat _ _
        producer := producer, consumer := trivial }
      · change s.consumed + n ≤ s.produced.length
        omega
      · change s.produced.length ≤ s.consumed + n + ringSize
        omega
      · change slice (unroll ringSize s.ring) (s.consumed + n) (s.produced.length - (s.consumed + n)) =
          s.produced.drop (s.consumed + n)
        rw [← List.drop_drop, ← inv.outstanding, ← Nat.sub_sub]
        conv_rhs => rw [← Nat.add_sub_cancel' within, slice_append]
        exact (List.drop_left' length_slice).symm

theorem Inv.step {a : Event} (inv : s.Inv) (unwrapped : s.Unwrapped a)
    (next : s.step a = some t) : t.Inv := by
  rcases a with ⟨frames⟩ | _ | _ | _ | ⟨m⟩ | _
  case produce => exact inv.produce next
  case consume => exact inv.consume next
  all_goals simp only [Playback.step] at next
  case give =>
    split at next
    · split at next
      · rename_i gives
        cases next
        exact { inv with producer := gives }
      · cases next
    · cases next
  case pull =>
    split at next
    · cases next
      exact { inv with
        consumer := ⟨inv.write, inv.behind, Nat.le_refl _, inv.room, unwrapped rfl⟩ }
    · cases next
  case setMuted =>
    cases next
    exact { inv with }
  case reset =>
    split at next
    · rename_i idle
      cases next
      exact { inv with stream := inv.stream.reset }
    · cases next

/-- In every run in which each pull finds the write index, as a number, not below the read index,
the worklet's fill is the number of frames outstanding, at most a full ring; it plays whenever its
pre-roll is outstanding, and what it plays are the frames produced, in order, none of which is
overwritten before. -/
theorem exact_of_run {source : Source} {ring : Nat → Frame} {muted : Bool}
    (run : RunOk Playback.step Unwrapped (inital source ring muted) s) : s.Exact :=
  (run.invariant (inv_inital source ring muted) Inv.step).toExact

end Playback

end PCemWeb.Platform.Audio
