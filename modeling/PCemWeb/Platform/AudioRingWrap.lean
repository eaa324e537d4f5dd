import PCemWeb.Platform.AudioRingExact

/-!
# The audio index wraps

With the pre-roll well exceeded, every pull advances the cursor by the same step, so that the mix
can be played for as many blocks as it takes the write index to wrap. The pull after that finds the
pre-roll outstanding and plays nothing.
-/

namespace PCemWeb.Platform.Audio

open PCemWeb.Lib

namespace Playback

variable {s t : Playback} {k : Nat}

/-- The mix is played: the two sides are idle, and `k` pulls have advanced the cursor. -/
structure Playing (s : Playback) (k : Nat) : Prop where
  inv : s.Inv
  source : s.source = .mix
  audible : s.audioMuted = false
  producer : s.producer = .idle
  consumer : s.consumer = .idle
  rate : s.stream.rate = 48000
  target : s.stream.target = 5760
  pos : s.stream.pos = (203 * k : Nat) / (200 : Nat)
  consumed : s.consumed = 203 * k / 200

/-- A run of admitted steps from one state to another. -/
abbrev Leads (s t : Playback) : Prop := RunOk Playback.step Unwrapped s t

theorem unwrapped_give (frames : List Frame) : s.Unwrapped (.give frames) := nofun

theorem unwrapped_produce : s.Unwrapped .produce := nofun

theorem unwrapped_consume : s.Unwrapped .consume := nofun

/-- A block is written frame by frame. -/
theorem leads_writing (frames : List Frame) (w : UInt32) (todo : List (Nat × Frame)) :
    ∃ ring, Leads { s with producer := .writing frames w todo }
      { s with ring, producer := .writing frames w [] } := by
  induction todo generalizing s with
  | nil => exact ⟨s.ring, .refl⟩
  | cons write todo ih =>
    obtain ⟨at_, frame⟩ := write
    obtain ⟨ring, rest⟩ := ih (s := { s with ring := Function.update s.ring at_ frame })
    exact ⟨ring, .head (a := .produce) unwrapped_produce rfl rest⟩

/-- The producer finds the room that is there. -/
theorem Inv.check_of_room {len : Nat} (inv : s.Inv)
    (room : s.produced.length + len < s.consumed + ringSize) :
    ¬ringFrames - UInt32.ofNat len ≤ s.ringWrite - s.ringRead := by
  have behind := inv.behind
  have size : ringSize = 65536 := rfl
  have block : (UInt32.ofNat len).toNat = len := by
    rw [UInt32.toNat_ofNat']
    exact Nat.mod_eq_of_lt (show len < 4294967296 by omega)
  have limit : (ringFrames - UInt32.ofNat len).toNat = ringSize - len := by
    rw [UInt32.toNat_sub_of_le, block]
    · rfl
    · rw [UInt32.le_iff_toNat_le, block]
      change _ ≤ ringSize
      omega
  have fill : (s.ringWrite - s.ringRead).toNat = s.produced.length - s.consumed := by
    rw [inv.write, inv.read]
    exact toNat_sub_ofNat behind (by omega)
  rw [UInt32.le_iff_toNat_le, limit, fill]
  omega

/-- A whole block is given when there is room. -/
theorem Playing.give (playing : s.Playing k) {len : Nat} (gives : Source.mix.Gives len)
    (room : s.produced.length + len < s.consumed + ringSize) :
    ∃ t, s.Leads t ∧ t.Playing k ∧ t.produced.length = s.produced.length + len := by
  let frames : List Frame := .replicate len (0, 0)
  have length : frames.length = len := List.length_replicate
  have called : s.step (.give frames) = some { s with producer := .called frames } := by
    have gives' : s.source.Gives frames.length := by
      rw [length, playing.source]
      exact gives
    simp only [Playback.step, playing.producer, if_pos gives']
  have check := playing.inv.check_of_room room
  rw [← length] at check
  let todo := frames.mapIdx fun c frame => (cellOf (s.ringWrite + UInt32.ofNat c), frame)
  have starts : step { s with producer := .called frames } .produce =
      some { s with producer := .writing frames s.ringWrite todo } := by
    simp only [Playback.step, produce, playing.audible, Bool.false_eq_true, if_false, if_neg check]
    rfl
  obtain ⟨ring, written⟩ := leads_writing (s := s) frames s.ringWrite todo
  have run : s.Leads { s with
      ring, ringWrite := s.ringWrite + UInt32.ofNat frames.length, producer := .idle
      produced := s.produced ++ frames } :=
    .head (unwrapped_give frames) called
      (.head unwrapped_produce starts (.tail written unwrapped_produce rfl))
  refine ⟨_, run, { playing with inv := run.invariant playing.inv Inv.step, producer := rfl }, ?_⟩
  rw [List.length_append, length]

/-! ## Pulls -/

/-- The step of a stream that is far ahead of its target. -/
theorem step_ahead {stream : RingStream} (rate : stream.rate = 48000)
    (target : stream.target = 5760) (ahead : 7200 ≤ stream.fill) :
    stream.step sampleRate = 203 / 200 := by
  have fill : (7200 : ℚ) ≤ stream.fill := by exact_mod_cast ahead
  have nudge : (0.015 : ℚ) ≤ (stream.fill - 5760) / 5760 * 0.06 := by
    rw [div_mul_eq_mul_div, le_div_iff₀ (by norm_num)]
    linarith
  simp only [RingStream.step, rate, target, sampleRate]
  push_cast
  rw [inf_eq_left.mpr nudge, sup_eq_right.mpr (by norm_num)]
  norm_num

/-- The cursor of a stream in play. -/
theorem floor_pos (k : Nat) : ⌊((203 * k : Nat) : ℚ) / (200 : Nat)⌋ = (203 * k / 200 : Nat) :=
  Rat.floor_natCast_div_natCast _ _

/-- A pull far ahead of the target advances the cursor. -/
theorem Playing.pull (playing : s.Playing k) (low : s.produced.length < 0x100000000)
    (ahead : s.consumed + 7200 ≤ s.produced.length) :
    ∃ t, s.Leads t ∧ t.Playing (k + 1) ∧ t.produced = s.produced := by
  have inv := playing.inv
  have unwrapped : s.ringRead ≤ s.ringWrite := by
    have behind := inv.behind
    rw [inv.read, inv.write, UInt32.le_iff_toNat_le, UInt32.toNat_ofNat', UInt32.toNat_ofNat',
      Nat.mod_eq_of_lt low, Nat.mod_eq_of_lt (Nat.lt_of_le_of_lt behind low)]
    exact behind
  have fill : (s.ringWrite.toNat : Int) - s.ringRead.toNat = s.produced.length - s.consumed := by
    have behind := inv.behind
    rw [inv.read, inv.write] at unwrapped ⊢
    exact (fill_iff behind (by omega)).mpr unwrapped
  -- the cursor passes a frame or two
  have pos : s.stream.pos + 203 / 200 = (203 * (k + 1) : Nat) / (200 : Nat) := by
    rw [playing.pos]
    push_cast
    ring
  have adv : ⌊s.stream.pos + 203 / 200⌋ - ⌊s.stream.pos⌋ =
      (203 * (k + 1) / 200 - 203 * k / 200 : Nat) := by
    rw [pos, playing.pos, floor_pos, floor_pos]
    omega
  have moves : 0 < 203 * (k + 1) / 200 - 203 * k / 200 := by omega
  -- the five accesses
  let stream : RingStream :=
    { s.stream with fill := s.produced.length - s.consumed, started := true }
  have step : stream.step sampleRate = 203 / 200 :=
    step_ahead playing.rate playing.target (by change (7200 : Int) ≤ _ - _; omega)
  let found : Pull :=
    { s.pull with
      seen := s.produced.length, consumed := s.consumed, fill := s.produced.length - s.consumed
      target := s.stream.target, frames := [] }
  have called : s.step .pull = some { s with
      consumer := .gotW s.ringWrite, pull := { s.pull with seen := s.produced.length } } := by
    simp only [Playback.step, playing.consumer]
  have finds : Playback.step { s with
      consumer := .gotW s.ringWrite, pull := { s.pull with seen := s.produced.length } } .consume =
        some { s with stream, pull := found, consumer := .reading s.ringRead (203 / 200) } := by
    have started : ¬(s.produced.length - s.consumed : Int) < s.stream.target := by
      rw [playing.target]
      omega
    simp only [Playback.step, consume, fill]
    rw [if_neg (by simp [started]), if_neg (by omega), ← step]
  let first := s.ring (cellOf s.ringRead)
  let second := s.ring (cellOf (s.ringRead + 1))
  have stored : Playback.step { s with
      stream := stream.play (203 / 200) first second
      consumer := .storing s.ringRead (⌊s.stream.pos + 203 / 200⌋ - ⌊s.stream.pos⌋)
      pull := { found with frames := [first, second] } } .consume = some (finish { s with
        stream := stream.play (203 / 200) first second
        pull := { found with frames := [first, second] }
        ringRead := s.ringRead + UInt32.ofNat (203 * (k + 1) / 200 - 203 * k / 200)
        consumed := s.consumed + (203 * (k + 1) / 200 - 203 * k / 200) }
          (stream.play (203 / 200) first second) true) := by
    simp only [Playback.step, consume, adv, Int.toNat_natCast]
    rw [if_pos (by omega)]
    rfl
  have run : s.Leads _ := .head (a := .pull) (fun _ => unwrapped) called
    (.head unwrapped_consume finds (.head unwrapped_consume rfl
      (.head unwrapped_consume rfl (.head unwrapped_consume stored .refl))))
  refine ⟨_, run, { playing with
    inv := run.invariant inv Inv.step, consumer := rfl, pos := pos, consumed := ?_ }, rfl⟩
  change s.consumed + _ = _
  rw [playing.consumed]
  omega

/-- Pulls go on as long as they are far ahead of the target. -/
theorem Playing.pulls (playing : s.Playing k) (low : s.produced.length < 0x100000000) (n : Nat)
    (ahead : 203 * (k + n) / 200 + 7200 ≤ s.produced.length) :
    ∃ t, s.Leads t ∧ t.Playing (k + n) ∧ t.produced = s.produced := by
  induction n with
  | zero => exact ⟨s, .refl, playing, rfl⟩
  | succ n ih =>
    obtain ⟨t, run, playing', same⟩ := ih (by omega)
    obtain ⟨u, last, playing'', same'⟩ :=
      playing'.pull (same ▸ low) (by rw [playing'.consumed, same]; omega)
    exact ⟨u, run.trans last, playing'', same'.trans same⟩

/-! ## Blocks -/

theorem block_4800 : Source.mix.Gives 4800 := ⟨by decide, by decide⟩

theorem playing_inital (ring : Nat → Frame) : (inital .mix ring false).Playing 0 :=
  ⟨inv_inital .mix ring false, rfl, rfl, rfl, rfl, rfl, rfl, by simp [inital, RingStream.new], rfl⟩

/-- Any number of blocks can be given and played before the write index wraps, with little more
than 7200 frames outstanding, and as many if anything is played yet. -/
theorem exists_playing (ring : Nat → Frame) (m : Nat) (low : 4800 * m < 0x100000000) :
    ∃ s k, (inital .mix ring false).Leads s ∧ s.Playing k ∧ s.produced.length = 4800 * m ∧
      s.produced.length ≤ s.consumed + 7202 ∧ (k = 0 ∨ s.consumed + 7200 ≤ s.produced.length) := by
  induction m with
  | zero => exact ⟨_, 0, .refl, playing_inital ring, rfl, Nat.zero_le _, .inl rfl⟩
  | succ m ih =>
    obtain ⟨s, k, run, playing, length, few, ahead⟩ := ih (by omega)
    have size : ringSize = 65536 := rfl
    obtain ⟨t, given, playing', length'⟩ :=
      playing.give block_4800 (by omega)
    -- as many pulls as the frames outstanding allow
    have consumed := playing.consumed
    have consumed' := playing'.consumed
    by_cases enough : k < 200 * (t.produced.length - 7200) / 203
    · obtain ⟨u, pulled, playing'', same⟩ :=
        playing'.pulls (by omega) (200 * (t.produced.length - 7200) / 203 - k) (by omega)
      have consumed'' := playing''.consumed
      refine ⟨u, _, (run.trans given).trans pulled, playing'', ?_, ?_, .inr ?_⟩ <;> rw [same] <;> omega
    · refine ⟨t, k, run.trans given, playing', by omega, by omega, ?_⟩
      exact ahead.imp_right fun ahead => by omega

/-- The mix is exact for a day. -/
theorem exact_of_run_day : ∃ s, RunOk Playback.step Unwrapped (inital .mix (fun _ => (0, 0)) false) s ∧
    s.produced.length = 4800 * 864000 ∧ s.Exact := by
  obtain ⟨s, k, run, -, length, -⟩ := exists_playing (fun _ => (0, 0)) 864000 (by decide)
  exact ⟨s, run, length, exact_of_run run⟩

/-- Once the write index has wrapped and the read index has not, a pull plays nothing, however many
frames are outstanding. -/
theorem not_exact_wrapped :
    ¬∀ s, RunOk Playback.step (fun _ _ => True) (inital .mix (fun _ => (0, 0)) false) s → s.Exact := by
  intro exact_
  obtain ⟨s, k, run, playing, length, few, ahead⟩ :=
    exists_playing (fun _ => (0, 0)) 894784 (by omega)
  have size : ringSize = 65536 := rfl
  have consumed := playing.consumed
  obtain ⟨t, given, playing', length'⟩ :=
    playing.give block_4800 (by omega)
  have consumed' := playing'.consumed
  have produced : t.produced.length = 4294968000 := by omega
  have inv := playing'.inv
  -- the write index is 704 now
  have fill : (t.ringWrite.toNat : Int) - t.ringRead.toNat = 704 - t.consumed := by
    rw [inv.read, inv.write, UInt32.toNat_ofNat', UInt32.toNat_ofNat', produced]
    omega
  let u : Playback := { t with
    consumer := .gotW t.ringWrite, pull := { t.pull with seen := t.produced.length } }
  have called : t.step .pull = some u := by simp only [Playback.step, playing'.consumer, u]
  obtain ⟨v, finds, bad⟩ : ∃ v, u.step .consume = some v ∧
      ∃ pull ∈ v.pulls, pull.fill = 704 - t.consumed ∧ pull.seen = t.produced.length ∧
        pull.consumed = t.consumed := by
    simp only [Playback.step, consume, u, fill]
    split
    · exact ⟨_, rfl, _, List.mem_append_right _ (List.mem_singleton_self _), rfl, rfl, rfl⟩
    · rw [if_pos (by omega)]
      exact ⟨_, rfl, _, List.mem_append_right _ (List.mem_singleton_self _), rfl, rfl, rfl⟩
  have reached := RunOk.tail (.tail ((run.trans given).mono fun _ _ _ => trivial) trivial called)
    trivial finds
  obtain ⟨pull, isPull, fill', seen, consumed''⟩ := bad
  have := ((exact_ v reached).pulls pull isPull).fill
  rw [fill', seen, consumed'', produced] at this
  omega

end Playback

end PCemWeb.Platform.Audio
