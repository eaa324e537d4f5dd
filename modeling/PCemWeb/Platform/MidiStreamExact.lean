import PCemWeb.Platform.MidiStream

/-!
# Exact MIDI messages

The forwarder sends what the reference parse finds, on the streams whose framing misplaces no byte
and on no others. It keeps the status of before a SysEx and of after a quarter frame, song position
or song select, so that data bytes which belong nowhere complete another message of that status.
-/

namespace PCemWeb.Platform.MidiStream

open PCemWeb.Lib

variable {p : Port} {c : MidiService} {r : Reference} {f : Framing} {b status need count : Nat}
  {msg : Message} {before : List Nat}

/-! ## One byte -/

theorem dataLen_eq (high : b < 0xf8) (isStatus : 0x80 ≤ b) : dataLen b = messageLength b := by
  have table : ∀ b < 0xf8, 0x80 ≤ b → dataLen b = messageLength b := by
    decide +kernel
  exact table b high isStatus

theorem send_eq : p.send msg = [msg].filter p.takes := by
  unfold Port.send
  split <;> simp [*]

namespace MidiService

theorem byte_realTime (realTime : 0xf8 ≤ b) :
    c.byte p b = (c, if p.output then [[b]] else []) := if_pos realTime

theorem byte_f0 : c.byte p 0xf0 = ({ c with sysex := some [0xf0] }, []) := by
  unfold byte
  cases c.sysex with
  | none => rfl
  | some sysex => rfl

/-- A status byte starts over, but for the end of a SysEx. -/
theorem byte_status (isStatus : 0x80 ≤ b) (high : b < 0xf8) (other : b ≠ 0xf0)
    (ends : b = 0xf7 → c.sysex = none) : c.byte p b =
      if messageLength b = 0 then (⟨0, 0, [], none⟩, p.send [b])
      else (⟨b, messageLength b, [b], none⟩, []) := by
  have outside (c : MidiService) (closed : c.sysex = none) : c.byteOutside p b =
      if messageLength b = 0 then (⟨0, 0, [], none⟩, p.send [b])
      else (⟨b, messageLength b, [b], none⟩, []) := by
    have cancels (none : messageLength b = 0) : 0xf0 ≤ b := by
      unfold messageLength at none
      split_ifs at none
      all_goals omega
    unfold byteOutside
    rw [if_neg other, if_pos isStatus, dataLen_eq high isStatus, closed]
    dsimp only
    split
    case isTrue none => rw [if_pos (cancels none), none]
    case isFalse => rfl
  unfold byte
  rw [if_neg (by omega)]
  cases sysex : c.sysex with
  | none => exact outside c sysex
  | some sysex' =>
    have notEnd : b ≠ 0xf7 := fun isEnd => by simp [ends isEnd] at sysex
    dsimp only
    rw [if_neg notEnd, if_pos isStatus]
    exact outside _ rfl

theorem byte_end (sysex : c.sysex = some before) :
    c.byte p 0xf7 = ({ c with sysex := none }, p.send (before ++ [0xf7])) := by
  unfold byte
  rw [sysex]
  rfl

theorem byte_exclusive (low : b < 0x80) (sysex : c.sysex = some before) : c.byte p b =
    ({ c with sysex := if before.length < 65536 then some (before ++ [b]) else none }, []) := by
  unfold byte
  rw [if_neg (by omega), sysex]
  dsimp only
  rw [if_neg (by omega), if_neg (by omega), List.length_append, List.length_singleton]
  split <;> split <;> first | rfl | omega

theorem byte_stray (low : b < 0x80) (closed : c.sysex = none) (idle : c.status = 0) :
    c.byte p b = (c, []) := by
  unfold byte byteOutside
  rw [if_neg (by omega), closed]
  dsimp only
  rw [if_neg (by omega), if_neg (by omega), if_pos idle]

/-- A data byte outside a SysEx, with the data bytes before it. -/
theorem byte_data (low : b < 0x80) (nonzero : status ≠ 0)
    (collected : msg = status :: before ∨ msg = [] ∧ before = []) :
    (⟨status, need, msg, none⟩ : MidiService).byte p b =
      if need ≤ before.length + 1 then
        (⟨status, need, [], none⟩, p.send (status :: (before ++ [b])))
      else (⟨status, need, status :: (before ++ [b]), none⟩, []) := by
  have whole : (if msg.length = 0 then [status] else msg) ++ [b] = status :: (before ++ [b]) := by
    rcases collected with rfl | ⟨rfl, rfl⟩ <;> rfl
  unfold byte byteOutside
  rw [if_neg (by omega)]
  dsimp only
  rw [if_neg (by omega), if_neg (by omega), if_neg nonzero, whole]
  simp

end MidiService

/-! ## The invariant -/

/-- The forwarder has these data bytes for its last status, if it has one. -/
def Pending (status need : Nat) (msg : Message) (before : List Nat) : Prop :=
  (status = 0 ∧ msg = [] ∧ before = []) ∨
    (0x80 ≤ status ∧ status ≠ 0xf0 ∧ need = messageLength status ∧ before.length < need ∧
      (msg = status :: before ∨ msg = [] ∧ before = []))

/-- How the forwarder, the reference and the framing stand to each other. -/
inductive Tracks : MidiService → Reference → Framing → Prop
  /-- Both collect a SysEx. -/
  | exclusive {status need : Nat} {msg : Message} {data before : List Nat}
      (pending : Pending status need msg before) (short : data.length ≤ maxExclusive) :
      Tracks ⟨status, need, msg, some (0xf0 :: data)⟩ (.exclusive data)
        ⟨status, before.length, false, some data.length⟩
  /-- A data byte belongs to no message, or to a SysEx that the forwarder has dropped. -/
  | stray {status need : Nat} {msg : Message} {before : List Nat} {r : Reference}
      (pending : Pending status need msg before)
      (outside : r = .between none ∨ ∃ data, r = .exclusive data) :
      Tracks ⟨status, need, msg, none⟩ r ⟨status, before.length, false, none⟩
  /-- Between two messages of a channel status. -/
  | running {status : Nat} (channel : 0x80 ≤ status ∧ status < 0xf0) :
      Tracks ⟨status, messageLength status, [], none⟩ (.between (some status)) ⟨status, 0, true, none⟩
  /-- Within a message. -/
  | within {status : Nat} {before : List Nat} (isStatus : 0x80 ≤ status ∧ status ≠ 0xf0)
      (short : before.length < messageLength status) :
      Tracks ⟨status, messageLength status, status :: before, none⟩ (.within status before)
        ⟨status, before.length, true, none⟩

theorem tracks_boot : Tracks .boot (.between none) .start :=
  .stray (.inl ⟨rfl, rfl, rfl⟩) (.inl rfl)

theorem messageLength_pos (isStatus : status < 0xf0) : 0 < messageLength status := by
  unfold messageLength
  split_ifs <;> omega

theorem Tracks.pending (tracks : Tracks c r f) : ∃ before, f.count = before.length ∧
    f.status = c.status ∧ Pending c.status c.need c.msg before := by
  cases tracks with
  | exclusive pending => exact ⟨_, rfl, rfl, pending⟩
  | stray pending => exact ⟨_, rfl, rfl, pending⟩
  | running channel =>
    exact ⟨[], rfl, rfl, .inr ⟨channel.1, Nat.ne_of_lt channel.2, rfl, messageLength_pos channel.2,
      .inr ⟨rfl, rfl⟩⟩⟩
  | within isStatus short =>
    exact ⟨_, rfl, rfl, .inr ⟨isStatus.1, isStatus.2, rfl, short, .inl rfl⟩⟩

/-! ## What one byte keeps -/

/-- What one byte does to the three: they still go together, and the forwarder sends what the
reference finds, or at a misplaced byte one message more that is no SysEx. -/
structure ByteMatches (p : Port) (b : Nat) (c : MidiService) (r : Reference) (f : Framing) :
    Prop where
  tracks : Tracks (c.byte p b).1 (r.byte b).1 (f.next b)
  same : ¬f.Misplaced b → (c.byte p b).2 = (r.byte b).2.filter p.takes
  extra : p.output = true → f.Misplaced b → (c.byte p b).2.countP (·.head? != some 0xf0) =
    ((r.byte b).2.filter p.takes).countP (·.head? != some 0xf0) + 1

theorem byteMatches_realTime (realTime : 0xf8 ≤ b) (tracks : Tracks c r f) :
    ByteMatches p b c r f := by
  have misplaced : ¬f.Misplaced b := by
    unfold Framing.Misplaced
    omega
  have reference : r.byte b = (r, [[b]]) := if_pos realTime
  have next : f.next b = f := if_pos realTime
  refine ⟨?_, fun _ => ?_, fun _ bad => absurd bad misplaced⟩
  · rw [MidiService.byte_realTime realTime, reference, next]
    exact tracks
  · have takes : p.takes [b] = p.output := by
      have other : b ≠ 0xf0 := by omega
      simp [Port.takes, other]
    rw [MidiService.byte_realTime realTime, reference]
    simp only [List.filter_cons, List.filter_nil, takes]

theorem byteMatches_f0 (tracks : Tracks c r f) : ByteMatches p 0xf0 c r f := by
  have misplaced : ¬f.Misplaced 0xf0 := by
    unfold Framing.Misplaced
    omega
  have reference : r.byte 0xf0 = (.exclusive [], []) := rfl
  have next : f.next 0xf0 = { f with belongs := false, exclusive := some 0 } := rfl
  refine ⟨?_, fun _ => ?_, fun _ bad => absurd bad misplaced⟩
  · obtain ⟨before, count, status, pending⟩ := tracks.pending
    rw [MidiService.byte_f0, reference, next, count, status]
    exact .exclusive pending (Nat.zero_le _)
  · rw [MidiService.byte_f0, reference]
    rfl

/-- The end of a SysEx that the forwarder collects. -/
theorem byteMatches_end {data : List Nat} (sysex : c.sysex = some (0xf0 :: data))
    (tracks : Tracks c r f) : ByteMatches p 0xf7 c r f := by
  cases tracks with
  | @exclusive status need msg _ before pending short =>
    cases sysex
    have misplaced : ¬Framing.Misplaced ⟨status, before.length, false, some data.length⟩ 0xf7 := by
      simp [Framing.Misplaced]
    refine ⟨?_, fun _ => ?_, fun _ bad => absurd bad misplaced⟩
    · rw [MidiService.byte_end rfl]
      exact .stray pending (.inl rfl)
    · rw [MidiService.byte_end rfl]
      exact send_eq
  | stray => cases sysex
  | running => cases sysex
  | within => cases sysex

/-- What the framing knows of a SysEx, the forwarder collects. -/
theorem Tracks.exclusive_eq_none (tracks : Tracks c r f) :
    f.exclusive = none ↔ c.sysex = none := by
  cases tracks <;> simp

/-- A message that is no SysEx counts once. -/
theorem countP_send (output : p.output = true) (other : status ≠ 0xf0) :
    (p.send (status :: before)).countP (·.head? != some 0xf0) = 1 := by
  have takes : p.takes (status :: before) = true := by simp [Port.takes, output, other]
  rw [Port.send, if_pos takes]
  simp [other]

/-- A SysEx does not count. -/
theorem countP_sysex : (([0xf0 :: before].filter p.takes).countP (·.head? != some 0xf0)) = 0 := by
  rw [List.countP_filter, List.countP_singleton]
  rfl

/-- The statuses without data bytes. -/
theorem of_messageLength_eq_zero (high : b < 0xf8) (other : b ≠ 0xf0)
    (none : messageLength b = 0) : b = 0xf4 ∨ b = 0xf5 ∨ b = 0xf6 ∨ b = 0xf7 := by
  unfold messageLength at none
  split_ifs at none
  omega

/-- A status that takes data bytes begins a message on both sides. -/
theorem byteMatches_begin (isStatus : 0x80 ≤ b) (high : b < 0xf8) (some_ : messageLength b ≠ 0) :
    ByteMatches p b c r f := by
  have other : b ≠ 0xf0 ∧ b ≠ 0xf7 ∧ b ≠ 0xf6 ∧ ¬(b = 0xf4 ∨ b = 0xf5) := by
    refine ⟨?_, ?_, ?_, ?_⟩
    all_goals
      intro same
      refine some_ ?_
      unfold messageLength
      split_ifs <;> omega
  have code : c.byte p b = (⟨b, messageLength b, [b], none⟩, []) := by
    rw [MidiService.byte_status isStatus high other.1 fun isEnd => absurd isEnd other.2.1,
      if_neg some_]
  have reference : r.byte b = (.within b [], []) := by
    unfold Reference.byte
    rw [if_neg (by omega), if_neg (by omega), if_neg other.1, if_neg other.2.1, if_neg other.2.2.1,
      if_neg other.2.2.2]
  have next : f.next b = ⟨b, 0, true, none⟩ := by
    unfold Framing.next
    rw [if_neg (by omega), if_neg other.1, if_pos isStatus, if_neg fun both => other.2.1 both.1,
      if_neg some_]
  have misplaced : ¬f.Misplaced b := by
    unfold Framing.Misplaced
    omega
  refine ⟨?_, fun _ => ?_, fun _ bad => absurd bad misplaced⟩
  · rw [code, reference, next]
    exact .within ⟨isStatus, other.1⟩ (Nat.pos_of_ne_zero some_)
  · rw [code, reference]
    rfl

/-- A status without data bytes leaves no message behind; only the tune request is one. -/
theorem byteMatches_single (high : b < 0xf8) (other : b ≠ 0xf0)
    (none_ : messageLength b = 0) (ends : b = 0xf7 → c.sysex = none) (tracks : Tracks c r f) :
    ByteMatches p b c r f := by
  have single := of_messageLength_eq_zero high other none_
  have code : c.byte p b = (⟨0, 0, [], none⟩, p.send [b]) := by
    rw [MidiService.byte_status (by omega) high other ends, if_pos none_]
  have next : f.next b = .start := by
    have ends' : ¬(b = 0xf7 ∧ f.exclusive ≠ none) := fun both =>
      both.2 (tracks.exclusive_eq_none.mpr (ends both.1))
    unfold Framing.next
    rw [if_neg (by omega), if_neg other, if_pos (by omega), if_neg ends', if_pos none_]
  have reference : (r.byte b).1 = .between none ∧
      (b = 0xf6 → (r.byte b).2 = [[0xf6]]) ∧
      (b ≠ 0xf6 → ((r.byte b).2.filter p.takes).countP (·.head? != some 0xf0) = 0) := by
    rcases single with rfl | rfl | rfl | rfl
    · exact ⟨rfl, nofun, fun _ => rfl⟩
    · exact ⟨rfl, nofun, fun _ => rfl⟩
    · exact ⟨rfl, fun _ => rfl, fun other => absurd rfl other⟩
    · cases r with
      | between => exact ⟨rfl, nofun, fun _ => rfl⟩
      | within => exact ⟨rfl, nofun, fun _ => rfl⟩
      | exclusive => exact ⟨rfl, nofun, fun _ => countP_sysex⟩
  refine ⟨?_, fun placed => ?_, fun output bad => ?_⟩
  · rw [code, reference.1, next]
    exact .stray (.inl ⟨rfl, rfl, rfl⟩) (.inl rfl)
  · have tune : b = 0xf6 := by
      unfold Framing.Misplaced at placed
      have ends' := tracks.exclusive_eq_none
      rcases single with rfl | rfl | rfl | rfl
      · exact absurd (.inl rfl) placed
      · exact absurd (.inr (.inl rfl)) placed
      · rfl
      · exact absurd (.inr (.inr (.inl ⟨rfl, ends'.mpr (ends rfl)⟩))) placed
    rw [code, reference.2.1 tune, tune]
    exact send_eq
  · have notTune : b ≠ 0xf6 := by
      rintro rfl
      simp [Framing.Misplaced] at bad
    rw [code, reference.2.2 notTune]
    exact countP_send output other

/-- A data byte goes into the SysEx on both sides, until it is too long for the forwarder. -/
theorem byteMatches_exclusive {data : List Nat} (low : b < 0x80)
    (sysex : c.sysex = some (0xf0 :: data)) (tracks : Tracks c r f) : ByteMatches p b c r f := by
  cases tracks with
  | @exclusive status need msg _ before pending short =>
    cases sysex
    have code := MidiService.byte_exclusive (p := p)
      (c := ⟨status, need, msg, some (0xf0 :: data)⟩) low rfl
    have reference : (Reference.exclusive data).byte b = (.exclusive (data ++ [b]), []) := by
      unfold Reference.byte
      rw [if_neg (by omega), if_pos low]
    have next : Framing.next ⟨status, before.length, false, some data.length⟩ b =
        ⟨status, before.length, false,
          if data.length < maxExclusive then some (data.length + 1) else none⟩ := by
      unfold Framing.next
      rw [if_neg (by omega), if_neg (by omega), if_neg (by omega)]
    have misplaced : ¬Framing.Misplaced ⟨status, before.length, false, some data.length⟩ b := by
      unfold Framing.Misplaced
      simp
      omega
    refine ⟨?_, fun _ => ?_, fun _ bad => absurd bad misplaced⟩
    · rw [code, reference, next, List.length_cons]
      by_cases room : data.length < maxExclusive
      · have room' : data.length + 1 < 65536 := Nat.succ_lt_succ room
        have longer : (data ++ [b]).length = data.length + 1 := List.length_append
        have whole : Tracks ⟨status, need, msg, some (0xf0 :: (data ++ [b]))⟩
            (.exclusive (data ++ [b])) ⟨status, before.length, false, some (data ++ [b]).length⟩ :=
          .exclusive pending (longer ▸ room)
        rw [if_pos room, if_pos room', ← longer]
        exact whole
      · have full : ¬data.length + 1 < 65536 := fun room' => room (Nat.lt_of_succ_lt_succ room')
        rw [if_neg room, if_neg full]
        exact .stray pending (.inr ⟨_, rfl⟩)
    · rw [code, reference]
      rfl
  | stray => cases sysex
  | running => cases sysex
  | within => cases sysex

/-- How a data byte outside a SysEx changes the framing. -/
theorem next_data {belongs : Bool} (low : b < 0x80) (nonzero : status ≠ 0) :
    Framing.next ⟨status, count, belongs, none⟩ b =
      if count + 1 < messageLength status then ⟨status, count + 1, belongs, none⟩
      else ⟨status, 0, belongs && status < 0xf0, none⟩ := by
  unfold Framing.next
  rw [if_neg (by omega), if_neg (by omega), if_neg (by omega)]
  exact if_neg nonzero

/-- The reference drops a data byte that belongs to no message, or keeps it in a SysEx. -/
theorem byte_outside (low : b < 0x80)
    (outside : r = .between none ∨ ∃ data, r = .exclusive data) :
    ((r.byte b).1 = .between none ∨ ∃ data, (r.byte b).1 = .exclusive data) ∧
      (r.byte b).2 = [] := by
  unfold Reference.byte
  rw [if_neg (by omega), if_pos low]
  rcases outside with rfl | ⟨data, rfl⟩
  · exact ⟨.inl rfl, rfl⟩
  · exact ⟨.inr ⟨data ++ [b], rfl⟩, rfl⟩

/-- A data byte that belongs to no message is dropped, or taken for the last status. -/
theorem byteMatches_stray (low : b < 0x80) (pending : Pending status need msg before)
    (outside : r = .between none ∨ ∃ data, r = .exclusive data) :
    ByteMatches p b ⟨status, need, msg, none⟩ r ⟨status, before.length, false, none⟩ := by
  obtain ⟨outside', silent⟩ := byte_outside low outside
  rcases id pending with ⟨rfl, rfl, rfl⟩ | ⟨isStatus, other, rfl, short, collected⟩
  · have code := MidiService.byte_stray (p := p) (c := ⟨0, need, [], none⟩) low rfl rfl
    have next : Framing.next ⟨0, 0, false, none⟩ b = ⟨0, 0, false, none⟩ := by
      unfold Framing.next
      rw [if_neg (by omega), if_neg (by omega), if_neg (by omega)]
      rfl
    have misplaced : ¬Framing.Misplaced ⟨0, 0, false, none⟩ b := by
      simp only [Framing.Misplaced]
      omega
    refine ⟨?_, fun _ => ?_, fun _ bad => absurd bad misplaced⟩
    · rw [code]
      change Tracks ⟨0, need, [], none⟩ (r.byte b).1 (Framing.next ⟨0, 0, false, none⟩ b)
      rw [next]
      exact .stray pending outside'
    · rw [code, silent]
      rfl
  · have nonzero : status ≠ 0 := by omega
    have code : (⟨status, messageLength status, msg, none⟩ : MidiService).byte p b = _ :=
      MidiService.byte_data low nonzero collected
    have next : Framing.next ⟨status, before.length, false, none⟩ b = _ := next_data low nonzero
    have length : (before ++ [b]).length = before.length + 1 := List.length_append
    by_cases last : before.length + 1 < messageLength status
    · rw [if_neg (Nat.not_le.mpr last)] at code
      rw [if_pos last, ← length] at next
      have misplaced : ¬Framing.Misplaced ⟨status, before.length, false, none⟩ b := by
        simp only [Framing.Misplaced]
        omega
      refine ⟨?_, fun _ => ?_, fun _ bad => absurd bad misplaced⟩
      · rw [code, next]
        exact .stray (.inr ⟨isStatus, other, rfl, length ▸ last, .inl rfl⟩) outside'
      · rw [code, silent]
        rfl
    · rw [if_pos (Nat.not_lt.mp last)] at code
      rw [if_neg last] at next
      have misplaced : Framing.Misplaced ⟨status, before.length, false, none⟩ b :=
        .inr (.inr (.inr ⟨low, rfl, rfl, nonzero, by dsimp only; omega⟩))
      have fresh : Pending status (messageLength status) [] [] :=
        .inr ⟨isStatus, other, rfl, Nat.zero_lt_of_lt short, .inr ⟨rfl, rfl⟩⟩
      refine ⟨?_, fun placed => absurd misplaced placed, fun output _ => ?_⟩
      · rw [code, next]
        exact .stray fresh outside'
      · rw [code, silent]
        exact countP_send output other

/-- A data byte of a message goes into it on both sides. -/
theorem byteMatches_message (low : b < 0x80) (isStatus : 0x80 ≤ status ∧ status ≠ 0xf0)
    (short : before.length < messageLength status)
    (collected : msg = status :: before ∨ msg = [] ∧ before = [])
    (reference : r.byte b = Reference.data status before b) :
    ByteMatches p b ⟨status, messageLength status, msg, none⟩ r
      ⟨status, before.length, true, none⟩ := by
  have nonzero : status ≠ 0 := by omega
  have code : (⟨status, messageLength status, msg, none⟩ : MidiService).byte p b = _ :=
    MidiService.byte_data low nonzero collected
  have next : Framing.next ⟨status, before.length, true, none⟩ b = _ := next_data low nonzero
  have length : (before ++ [b]).length = before.length + 1 := List.length_append
  have misplaced : ¬Framing.Misplaced ⟨status, before.length, true, none⟩ b := by
    rintro (rfl | rfl | ⟨rfl, -⟩ | ⟨-, -, stray, -⟩)
    · omega
    · omega
    · omega
    · cases stray
  unfold Reference.data at reference
  dsimp only at reference
  rw [length] at reference
  by_cases last : before.length + 1 < messageLength status
  · rw [if_neg (Nat.not_le.mpr last)] at code
    rw [if_pos last, ← length] at next
    rw [if_neg (Nat.ne_of_lt last)] at reference
    refine ⟨?_, fun _ => ?_, fun _ bad => absurd bad misplaced⟩
    · rw [code, next, reference]
      exact .within isStatus (length ▸ last)
    · rw [code, reference]
      rfl
  · rw [if_pos (Nat.not_lt.mp last)] at code
    rw [if_neg last] at next
    rw [if_pos (Nat.le_antisymm short (Nat.not_lt.mp last))] at reference
    refine ⟨?_, fun _ => ?_, fun _ bad => absurd bad misplaced⟩
    · rw [code, next, reference]
      by_cases channel : status < 0xf0
      · simp only [channel, if_true, decide_true, Bool.true_and]
        exact .running ⟨isStatus.1, channel⟩
      · simp only [channel, if_false, decide_false, Bool.and_false]
        have fresh : Pending status (messageLength status) [] [] :=
          .inr ⟨isStatus.1, isStatus.2, rfl, Nat.zero_lt_of_lt short, .inr ⟨rfl, rfl⟩⟩
        exact .stray fresh (.inl rfl)
    · rw [code, reference]
      exact send_eq

theorem byteMatches_data (low : b < 0x80) (tracks : Tracks c r f) : ByteMatches p b c r f := by
  have notRealTime : ¬0xf8 ≤ b := by omega
  cases id tracks with
  | exclusive => exact byteMatches_exclusive low rfl tracks
  | stray pending outside => exact byteMatches_stray low pending outside
  | @running status channel =>
    have fresh : ([] : List Nat).length < messageLength status := messageLength_pos channel.2
    refine byteMatches_message low ⟨channel.1, Nat.ne_of_lt channel.2⟩ fresh (.inr ⟨rfl, rfl⟩) ?_
    unfold Reference.byte
    rw [if_neg notRealTime, if_pos low]
  | within isStatus short =>
    refine byteMatches_message low isStatus short (.inl rfl) ?_
    unfold Reference.byte
    rw [if_neg notRealTime, if_pos low]

/-- One byte, whatever it is. -/
theorem byteMatches (tracks : Tracks c r f) : ByteMatches p b c r f := by
  by_cases realTime : 0xf8 ≤ b
  · exact byteMatches_realTime realTime tracks
  have high : b < 0xf8 := Nat.not_le.mp realTime
  by_cases low : b < 0x80
  · exact byteMatches_data low tracks
  have isStatus : 0x80 ≤ b := Nat.not_lt.mp low
  rcases eq_or_ne b 0xf0 with rfl | other
  · exact byteMatches_f0 tracks
  by_cases takesData : messageLength b ≠ 0
  · exact byteMatches_begin isStatus high takesData
  have single := not_not.mp takesData
  by_cases ends : b = 0xf7 ∧ c.sysex ≠ none
  · obtain ⟨rfl, collecting⟩ := ends
    cases id tracks with
    | exclusive => exact byteMatches_end rfl tracks
    | stray => exact absurd rfl collecting
    | running => exact absurd rfl collecting
    | within => exact absurd rfl collecting
  · refine byteMatches_single high other single (fun isEnd => ?_) tracks
    exact not_not.mp fun collecting => ends ⟨isEnd, collecting⟩

/-! ## Streams -/

/-- The reference parse, with what the output does not take left out. -/
def filtered (p : Port) (r : Reference) (b : Nat) : Reference × List Message :=
  ((r.byte b).1, (r.byte b).2.filter p.takes)

theorem outputs_filtered {bytes : List Nat} :
    outputs (filtered p) r bytes = (outputs Reference.byte r bytes).filter p.takes := by
  induction bytes generalizing r with
  | nil => rfl
  | cons b bytes ih =>
    rw [outputs, outputs, List.filter_append, ih]
    rfl

theorem matches_byte (output : p.output = true) : Matches (MidiService.byte p) (filtered p)
    Framing.next Framing.Misplaced (·.head? != some 0xf0) Tracks where
  related _ _ _ _ tracks := (byteMatches tracks).tracks
  same _ _ _ _ tracks placed := (byteMatches tracks).same placed
  extra _ _ _ _ tracks misplaced := (byteMatches tracks).extra output misplaced

theorem send_silent (output : p.output = false) : p.send msg = [] := by
  simp [Port.send, Port.takes, output]

theorem byteOutside_silent (output : p.output = false) : (c.byteOutside p b).2 = [] := by
  unfold MidiService.byteOutside
  simp only [send_silent output]
  split_ifs <;> rfl

/-- Without an output nothing is sent. -/
theorem byte_silent (output : p.output = false) : (c.byte p b).2 = [] := by
  unfold MidiService.byte
  split
  · rw [output]
    rfl
  · cases c.sysex with
    | none => exact byteOutside_silent output
    | some sysex =>
      dsimp only
      split_ifs
      · exact send_silent output
      · exact byteOutside_silent output
      · rfl
      · rfl

theorem drain_silent (output : p.output = false) {bytes : List Nat} :
    outputs (MidiService.byte p) c bytes = [] := by
  induction bytes generalizing c with
  | nil => rfl
  | cons b bytes ih => rw [outputs, byte_silent output, ih, List.nil_append]

end PCemWeb.Platform.MidiStream
