import PCemWeb.Lib.FreeRing
import PCemWeb.Platform.NetRing

/-!
# The network rings are exact

Between the indices the buffer holds the records of the frames that are accepted and not popped yet,
whatever each thread is in the middle of. The producer writes beyond the head only, where the
consumer does not look, and the consumer looks at the records only, where the producer does not
write.
-/

namespace PCemWeb.Platform.Net

open PCemWeb.Lib

/-! ## Places of the ring -/

/-- The size of the ring, as a number. -/
abbrev ringSize : Nat := 0x40000

section

variable {p n : Nat} {src : List UInt8}

theorem toNat_mask (pos : UInt32) : (pos &&& netRingMask).toNat = pos.toNat % ringSize := by
  rw [UInt32.toNat_and]
  exact Nat.and_two_pow_sub_one_eq_mod pos.toNat 18

theorem toNat_mask_ofNat : (UInt32.ofNat p &&& netRingMask).toNat = p % ringSize :=
  (toNat_mask _).trans (toNat_ofNat_mod (by decide))

/-- A copy that stays below the end of the buffer. -/
theorem memcpyIn_eq {off : Nat} (fits : off + src.length ≤ ringSize) :
    memcpyIn off src = cells ringSize off src := by
  induction src generalizing off with
  | nil => rfl
  | cons b src ih =>
    rw [List.length_cons] at fits
    rw [memcpyIn, cells, ih (by omega), Nat.mod_eq_of_lt (by omega)]

theorem memcpyOut_eq {off : Nat} (fits : off + n ≤ ringSize) :
    memcpyOut off n = places ringSize off n := by
  induction n generalizing off with
  | zero => rfl
  | succ n ih => rw [memcpyOut, places, ih (by omega), Nat.mod_eq_of_lt (by omega)]

/-- A turn behind the start of the buffer. -/
theorem wrap_mod : (p + (ringSize - p % ringSize)) % ringSize = 0 % ringSize := by
  rw [ringSize]
  omega

theorem ringWriteBytes_eq (short : src.length ≤ ringSize) :
    ringWriteBytes (UInt32.ofNat p) src = cells ringSize p src := by
  have off : p % ringSize < ringSize := Nat.mod_lt _ (by decide)
  have same : p % ringSize % ringSize = p % ringSize := Nat.mod_mod _ _
  simp only [ringWriteBytes, toNat_mask_ofNat]
  change memcpyIn _ (src.take (min (ringSize - p % ringSize) src.length)) ++
    (if src.length > min (ringSize - p % ringSize) src.length then
      memcpyIn 0 (src.drop (min (ringSize - p % ringSize) src.length)) else []) = _
  by_cases whole : src.length ≤ ringSize - p % ringSize
  · rw [Nat.min_eq_right whole, List.take_length, if_neg (Nat.lt_irrefl _), List.append_nil,
      memcpyIn_eq (by omega)]
    exact cells_congr same
  · rw [Nat.min_eq_left (by omega), if_pos (by omega), memcpyIn_eq, memcpyIn_eq]
    · have split : cells ringSize p src = cells ringSize p (src.take (ringSize - p % ringSize)) ++
          cells ringSize (p + (ringSize - p % ringSize)) (src.drop (ringSize - p % ringSize)) := by
        have length : (src.take (ringSize - p % ringSize)).length = ringSize - p % ringSize := by
          rw [List.length_take]
          omega
        conv_lhs => rw [← List.take_append_drop (ringSize - p % ringSize) src, cells_append, length]
      rw [split, cells_congr same, cells_congr wrap_mod]
    · rw [List.length_drop]
      omega
    · rw [List.length_take]
      omega

theorem ringReadBytes_eq (short : n ≤ ringSize) :
    ringReadBytes (UInt32.ofNat p) n = places ringSize p n := by
  have off : p % ringSize < ringSize := Nat.mod_lt _ (by decide)
  have same : p % ringSize % ringSize = p % ringSize := Nat.mod_mod _ _
  simp only [ringReadBytes, toNat_mask_ofNat]
  change memcpyOut _ (min (ringSize - p % ringSize) n) ++
    (if n > min (ringSize - p % ringSize) n then
      memcpyOut 0 (n - min (ringSize - p % ringSize) n) else []) = _
  by_cases whole : n ≤ ringSize - p % ringSize
  · rw [Nat.min_eq_right whole, if_neg (Nat.lt_irrefl _), List.append_nil, memcpyOut_eq (by omega)]
    exact places_congr same
  · rw [Nat.min_eq_left (by omega), if_pos (by omega), memcpyOut_eq (by omega),
      memcpyOut_eq (by omega)]
    obtain ⟨m, total⟩ : ∃ m, n = ringSize - p % ringSize + m :=
      ⟨n - (ringSize - p % ringSize), by omega⟩
    have rest : n - (ringSize - p % ringSize) = m := by omega
    rw [rest]
    conv_rhs => rw [total, places_add]
    rw [places_congr same, places_congr wrap_mod]

end

/-! ## Records -/

/-- A frame with its length. -/
def record (frame : Frame) : List UInt8 := header frame.length ++ frame

/-- The stream of some frames. -/
def records (frames : List Frame) : List UInt8 := frames.flatMap record

/-- A frame that the callers admit. -/
def Admitted (frame : Frame) : Prop := netFrameMin ≤ frame.length ∧ frame.length ≤ netFrameMax

instance (frame : Frame) : Decidable (Admitted frame) :=
  inferInstanceAs (Decidable (_ ∧ _))

theorem length_record (frame : Frame) : (record frame).length = 2 + frame.length := by
  rw [record, List.length_append]
  rfl

/-- The length bytes are read back. -/
theorem lengthOf_header {len : Nat} (short : len ≤ netFrameMax) : lengthOf (header len) = len := by
  have low : len &&& 0xff = len % 256 := Nat.and_two_pow_sub_one_eq_mod len 8
  have high : len >>> 8 = len / 256 := Nat.shiftRight_eq_div_pow len 8
  have bound : netFrameMax = 1600 := rfl
  have lowByte : (UInt8.ofNat (len % 256)).toNat = len % 256 := by
    rw [UInt8.toNat_ofNat']
    omega
  have highByte : (UInt8.ofNat (len / 256)).toNat = len / 256 := by
    rw [UInt8.toNat_ofNat']
    omega
  have joined : len % 256 ||| (len / 256) <<< 8 = len := by
    rw [Nat.or_comm, ← Nat.shiftLeft_add_eq_or_of_lt (Nat.mod_lt len (by decide)),
      Nat.shiftLeft_eq]
    omega
  rw [header, lengthOf, low, high, lowByte, highByte, joined]

/-! ## The invariant -/

namespace Link

/-- The bytes of the frames accepted so far. -/
def sent (s : Link) : Nat := (records s.accepted).length

/-- The bytes of the frames popped so far. -/
def received (s : Link) : Nat := (records s.popped).length

end Link

/-- What the producer has found and written, with the bytes sent and received so far. -/
def Producer.Ok (buf : Nat → UInt8) (sent received : Nat) : Producer → Prop
  | .idle => True
  | .called frame => Admitted frame
  | .gotHead frame head => Admitted frame ∧ head = UInt32.ofNat sent
  | .writing frame head todo =>
    Admitted frame ∧ head = UInt32.ofNat sent ∧
      sent + (2 + frame.length) ≤ received + ringSize ∧
      Writing ringSize buf sent (record frame) todo

/-- What the consumer has read of the first of the pending frames. -/
def Consumer.Ok (received : Nat) (pending : List Frame) : Consumer → Prop
  | .idle | .called => True
  | .gotTail tail => tail = UInt32.ofNat received
  | .readingHdr tail _ todo hdr =>
    tail = UInt32.ofNat received ∧
      ∃ frame frames rest, pending = frame :: frames ∧ header frame.length = hdr ++ rest ∧
        todo = places ringSize (received + hdr.length) rest.length
  | .draining _ => False
  | .reading tail len todo dst =>
    tail = UInt32.ofNat received ∧
      ∃ frame frames rest, pending = frame :: frames ∧ len = frame.length ∧ frame = dst ++ rest ∧
        todo = places ringSize (received + 2 + dst.length) rest.length

/-- The ring holds the records of the pending frames. -/
structure Link.Inv (s : Link) (pending : List Frame) : Prop where
  head : s.ring.head = UInt32.ofNat s.sent
  tail : s.ring.tail = UInt32.ofNat s.received
  fifo : s.accepted = s.popped ++ pending
  room : s.sent ≤ s.received + ringSize
  stored : slice (unroll ringSize s.ring.buf) s.received (records pending).length = records pending
  admitted : ∀ frame ∈ pending, Admitted frame
  producer : s.producer.Ok s.ring.buf s.sent s.received
  consumer : s.consumer.Ok s.received pending
  clean : s.corrupt = 0

theorem records_append {xs ys : List Frame} : records (xs ++ ys) = records xs ++ records ys :=
  List.flatMap_append

theorem records_cons {frame : Frame} {frames : List Frame} :
    records (frame :: frames) = record frame ++ records frames := rfl

theorem records_singleton {frame : Frame} : records [frame] = record frame := List.append_nil _

/-- Room that is received is not lost. -/
theorem Producer.Ok.mono {producer : Producer} {buf : Nat → UInt8} {sent received received' : Nat}
    (ok : producer.Ok buf sent received) (le : received ≤ received') :
    producer.Ok buf sent received' := by
  rcases producer
  case writing =>
    obtain ⟨admitted, same, room, others⟩ := ok
    exact ⟨admitted, same, by omega, others⟩
  all_goals exact ok

/-- A frame more behind the pending ones. -/
theorem Consumer.Ok.append {consumer : Consumer} {received : Nat} {pending : List Frame}
    {frame : Frame} (ok : consumer.Ok received pending) :
    consumer.Ok received (pending ++ [frame]) := by
  rcases consumer
  case readingHdr =>
    obtain ⟨same, first, frames, rest, rfl, others⟩ := ok
    exact ⟨same, first, frames ++ [frame], rest, rfl, others⟩
  case reading =>
    obtain ⟨same, first, frames, rest, rfl, others⟩ := ok
    exact ⟨same, first, frames ++ [frame], rest, rfl, others⟩
  all_goals exact ok

namespace Link

variable {s t : Link} {pending : List Frame}

theorem Inv.sent_eq (inv : s.Inv pending) : s.sent = s.received + (records pending).length := by
  rw [sent, inv.fifo, records_append, List.length_append]
  rfl

/-- The bytes in the ring, from the indices. -/
theorem Inv.used (inv : s.Inv pending) :
    (s.ring.head - s.ring.tail).toNat = (records pending).length := by
  have sent := inv.sent_eq
  have room := inv.room
  rw [ringSize] at room
  rw [inv.head, inv.tail, toNat_sub_ofNat (by omega) (by omega)]
  omega

/-- The indices are equal just if no frame is pending. -/
theorem Inv.empty_iff (inv : s.Inv pending) :
    s.ring.head = UInt32.ofNat s.received ↔ pending = [] := by
  have sent := inv.sent_eq
  have room := inv.room
  rw [ringSize] at room
  rw [inv.head, ofNat_eq_iff (by omega) (by omega)]
  rcases pending with _ | ⟨frame, frames⟩
  · exact iff_of_true sent rfl
  · rw [records_cons, List.length_append, length_record] at sent
    exact iff_of_false (by omega) nofun

theorem inv_ringReset (buf : Nat → UInt8) : (ringReset buf).Inv [] :=
  ⟨rfl, rfl, rfl, Nat.zero_le _, rfl, nofun, trivial, trivial, rfl⟩

/-! ## The producer's steps -/

/-- The room that the producer finds is there. -/
theorem Inv.room_of_check {frame : Frame} (inv : s.Inv pending) (admitted : Admitted frame)
    (check : ¬netRingSize - (s.ring.head - s.ring.tail) < 2 + UInt32.ofNat frame.length) :
    s.sent + (2 + frame.length) ≤ s.received + ringSize := by
  have sent := inv.sent_eq
  have room := inv.room
  have short := admitted.2
  have caps : netFrameMax = 1600 ∧ ringSize = 0x40000 := ⟨rfl, rfl⟩
  have need : (2 + UInt32.ofNat frame.length).toNat = 2 + frame.length := by
    rw [UInt32.toNat_add, UInt32.toNat_ofNat']
    change (2 + frame.length % 4294967296) % 4294967296 = _
    omega
  have free : (netRingSize - (s.ring.head - s.ring.tail)).toNat =
      ringSize - (records pending).length := by
    rw [UInt32.toNat_sub_of_le, inv.used]
    · rfl
    · rw [UInt32.le_iff_toNat_le, inv.used]
      change _ ≤ ringSize
      omega
  rw [UInt32.lt_iff_toNat_lt, need, free] at check
  omega

theorem Inv.produce (inv : s.Inv pending) (next : s.produce = some t) :
    ∃ pending', t.Inv pending' := by
  have producer := inv.producer
  rcases now : s.producer with _ | ⟨frame⟩ | ⟨frame, head⟩ | ⟨frame, head, _ | ⟨⟨at_, b⟩, todo⟩⟩ <;>
    simp only [Link.produce, now] at next <;> rw [now] at producer
  case idle => cases next
  case called =>
    cases next
    exact ⟨pending, { inv with producer := ⟨producer, inv.head⟩ }⟩
  case gotHead =>
    obtain ⟨admitted, rfl⟩ := producer
    split at next
    case isTrue =>
      cases next
      exact ⟨pending, { inv with producer := trivial }⟩
    case isFalse check =>
      cases next
      rw [← inv.head] at check
      have room := inv.room_of_check admitted check
      have short : frame.length ≤ ringSize := Nat.le_trans admitted.2 (by decide)
      have behind : UInt32.ofNat s.sent + 2 = UInt32.ofNat (s.sent + 2) := ofNat_add_ofNat s.sent 2
      have writes : ringWriteBytes (UInt32.ofNat s.sent) (header frame.length) ++
          ringWriteBytes (UInt32.ofNat s.sent + 2) frame = cells ringSize s.sent (record frame) := by
        rw [ringWriteBytes_eq (by change 2 ≤ ringSize; decide), behind, ringWriteBytes_eq short]
        exact cells_append.symm
      exact ⟨pending, { inv with producer := ⟨admitted, rfl, room, writes ▸ .of_cells⟩ }⟩
  case writing.nil =>
    obtain ⟨admitted, rfl, room, writing⟩ := producer
    cases next
    have sent' : (records (s.accepted ++ [frame])).length = s.sent + (2 + frame.length) := by
      rw [records_append, List.length_append, records_singleton, length_record]
      rfl
    refine ⟨pending ++ [frame], { inv with
      head := ?_, fifo := ?_, room := ?_, stored := ?_, admitted := ?_, producer := trivial,
      consumer := inv.consumer.append }⟩
    · change _ = UInt32.ofNat (records (s.accepted ++ [frame])).length
      rw [sent', ← ofNat_add_ofNat, ← ofNat_add_ofNat]
      rfl
    · change s.accepted ++ [frame] = s.popped ++ (pending ++ [frame])
      rw [inv.fifo, List.append_assoc]
    · change (records (s.accepted ++ [frame])).length ≤ _
      rw [sent']
      exact room
    · have behind := inv.sent_eq
      rw [records_append, List.length_append, slice_append, records_singleton]
      change slice (unroll ringSize s.ring.buf) s.received (records pending).length ++
        slice (unroll ringSize s.ring.buf) (s.received + (records pending).length) _ = _
      rw [inv.stored, ← behind, writing.written]
    · intro other isPending
      rcases List.mem_append.mp isPending with before | new
      · exact inv.admitted other before
      · rw [List.mem_singleton.mp new]
        exact admitted
  case writing.cons =>
    obtain ⟨admitted, rfl, room, writing⟩ := producer
    cases next
    have behind := inv.sent_eq
    rw [← length_record] at room
    refine ⟨pending, { inv with
      stored := ?_
      producer := ⟨admitted, rfl, length_record frame ▸ room, writing.next (by omega)⟩ }⟩
    exact (writing.frame (Nat.le_of_eq behind.symm) room).trans inv.stored

theorem Inv.push {frame : Frame} (inv : s.Inv pending) (next : s.step (.push frame) = some t) :
    t.Inv pending := by
  simp only [step] at next
  split at next
  · split at next
    · cases next
      exact { inv with }
    · rename_i admitted
      cases next
      exact { inv with producer := by simp only [Producer.Ok, Admitted]; omega }
  · cases next

/-! ## The consumer's steps -/

/-- The byte at a position among the records. -/
theorem Inv.byte {front rest : List UInt8} {b : UInt8} (inv : s.Inv pending)
    (split : records pending = front ++ b :: rest) :
    s.ring.buf ((s.received + front.length) % ringSize) = b := by
  have stored := inv.stored
  rw [split, List.length_append, List.length_cons, slice_append, Nat.add_comm rest.length,
    slice_append] at stored
  have same := (List.append_inj stored length_slice).2
  exact (List.cons.inj same).1

theorem Inv.pop (inv : s.Inv pending) (next : s.step .pop = some t) : t.Inv pending := by
  simp only [step] at next
  split at next
  · cases next
    exact { inv with consumer := trivial }
  · cases next

theorem Inv.consume (inv : s.Inv pending) (next : s.consume = some t) :
    ∃ pending', t.Inv pending' := by
  have consumer := inv.consumer
  rcases now : s.consumer with _ | _ | ⟨tail⟩ | ⟨tail, head, _ | ⟨at_, todo⟩, hdr⟩ | ⟨head⟩ |
    ⟨tail, len, _ | ⟨at_, todo⟩, dst⟩ <;>
    simp only [Link.consume, now] at next <;> rw [now] at consumer
  case idle => cases next
  case called =>
    cases next
    exact ⟨pending, { inv with consumer := inv.tail }⟩
  case gotTail =>
    obtain rfl : tail = _ := consumer
    split at next
    case isTrue =>
      cases next
      exact ⟨pending, { inv with consumer := trivial }⟩
    case isFalse other =>
      cases next
      obtain _ | ⟨frame, frames⟩ := pending
      · exact absurd (inv.empty_iff.mpr rfl) other
      · refine ⟨_, { inv with
          consumer := ⟨rfl, frame, frames, header frame.length, rfl, rfl, ?_⟩ }⟩
        exact ringReadBytes_eq (by decide)
  case readingHdr.cons =>
    cases next
    obtain ⟨rfl, frame, frames, rest, rfl, whole, todo'⟩ := consumer
    obtain _ | ⟨b, rest⟩ := rest
    · cases todo'
    obtain ⟨rfl, rfl⟩ := List.cons.inj todo'
    have split : records (frame :: frames) = hdr ++ b :: (rest ++ frame ++ records frames) := by
      rw [records_cons, record, whole]
      simp only [List.append_assoc, List.cons_append]
    have byte := inv.byte split
    refine ⟨_, { inv with consumer := ⟨rfl, frame, frames, rest, rfl, ?_, ?_⟩ }⟩
    · rw [byte, whole, List.append_assoc]
      rfl
    · rw [List.length_append]
      rfl
  case readingHdr.nil =>
    obtain ⟨rfl, frame, frames, rest, rfl, whole, todo⟩ := consumer
    obtain rfl : rest = [] := by
      rcases rest with _ | ⟨b, rest⟩
      · rfl
      · cases todo
    rw [List.append_nil] at whole
    have short := (inv.admitted frame (.head _)).2
    rw [← whole, lengthOf_header short, if_neg (by omega)] at next
    cases next
    refine ⟨_, { inv with consumer := ⟨rfl, frame, frames, frame, rfl, rfl, rfl, ?_⟩ }⟩
    have behind : UInt32.ofNat s.received + 2 = UInt32.ofNat (s.received + 2) :=
      ofNat_add_ofNat s.received 2
    rw [behind, ringReadBytes_eq (Nat.le_trans short (by decide))]
    rfl
  case draining => exact consumer.elim
  case reading.cons =>
    cases next
    obtain ⟨rfl, frame, frames, rest, rfl, rfl, whole, todo'⟩ := consumer
    obtain _ | ⟨b, rest⟩ := rest
    · cases todo'
    obtain ⟨rfl, rfl⟩ := List.cons.inj todo'
    have split : records (frame :: frames) =
        header frame.length ++ dst ++ b :: (rest ++ records frames) := by
      have parts : record frame = header frame.length ++ (dst ++ b :: rest) :=
        congrArg (header frame.length ++ ·) whole
      rw [records_cons, parts]
      simp only [List.append_assoc, List.cons_append]
    have byte := inv.byte split
    rw [List.length_append, ← Nat.add_assoc] at byte
    refine ⟨_, { inv with consumer := ⟨rfl, frame, frames, rest, rfl, rfl, ?_, ?_⟩ }⟩
    · rw [List.append_assoc]
      change frame = dst ++ (s.ring.buf ((s.received + 2 + dst.length) % ringSize) :: rest)
      rw [whole]
      exact congrArg (dst ++ · :: rest) byte.symm
    · rw [List.length_append]
      rfl
  case reading.nil =>
    obtain ⟨rfl, frame, frames, rest, rfl, rfl, whole, todo⟩ := consumer
    cases next
    obtain rfl : rest = [] := by
      rcases rest with _ | ⟨b, rest⟩
      · rfl
      · cases todo
    rw [List.append_nil] at whole
    subst whole
    have received' : (records (s.popped ++ [frame])).length = s.received + (2 + frame.length) := by
      rw [records_append, List.length_append, records_singleton, length_record]
      rfl
    have stored := inv.stored
    rw [records_cons, List.length_append, slice_append, length_record] at stored
    refine ⟨frames, { inv with
      tail := ?_, fifo := ?_, room := ?_, stored := ?_,
      admitted := fun other isPending => inv.admitted other (.tail _ isPending),
      producer := inv.producer.mono ?_, consumer := trivial }⟩
    · change _ = UInt32.ofNat (records (s.popped ++ [frame])).length
      rw [received', ← ofNat_add_ofNat, ← ofNat_add_ofNat, UInt32.add_assoc]
      rfl
    · change s.accepted = s.popped ++ [frame] ++ frames
      rw [inv.fifo, List.append_assoc]
      rfl
    · change s.sent ≤ (records (s.popped ++ [frame])).length + ringSize
      have := inv.room
      omega
    · change slice (unroll ringSize s.ring.buf) (records (s.popped ++ [frame])).length _ = _
      rw [received']
      exact (List.append_inj stored (by rw [length_slice, length_record])).2
    · change s.received ≤ (records (s.popped ++ [frame])).length
      omega

theorem Inv.step {a : Event} (inv : s.Inv pending) (next : s.step a = some t) :
    ∃ pending', t.Inv pending' := by
  rcases a with ⟨frame⟩ | _ | _ | _
  case push => exact ⟨pending, inv.push next⟩
  case produce => exact inv.produce next
  case pop => exact ⟨pending, inv.pop next⟩
  case consume => exact inv.consume next

/-- In every run of the two threads from an empty ring, the frames popped are those accepted up to
some that the ring still holds, and the indices are as far apart as their records are long. No
record is corrupt. -/
theorem fifo_of_run {buf : Nat → UInt8} {events : List Event}
    (run : exec Link.step (ringReset buf) events = some s) :
    ∃ pending, s.accepted = s.popped ++ pending ∧
      (s.ring.head - s.ring.tail).toNat = (pending.map (2 + ·.length)).sum ∧
      s.ring.head - s.ring.tail ≤ netRingSize ∧
      (s.ring.head = s.ring.tail → s.popped = s.accepted) ∧ s.corrupt = 0 := by
  obtain ⟨pending, inv⟩ := exec_invariant (I := fun s => ∃ pending, s.Inv pending) run
    ⟨[], inv_ringReset buf⟩ fun ⟨_, inv⟩ next => inv.step next
  have used := inv.used
  refine ⟨pending, inv.fifo, ?_, ?_, ?_, inv.clean⟩
  · rw [used, records, List.length_flatMap]
    simp only [length_record]
  · have sent := inv.sent_eq
    have room := inv.room
    rw [UInt32.le_iff_toNat_le, used]
    change _ ≤ ringSize
    omega
  · intro empty
    rw [inv.fifo, inv.empty_iff.mp (empty.trans inv.tail), List.append_nil]

/-- One frame is popped while another is written. -/
def overlapped : List Event :=
  .push (.replicate 14 1) :: .replicate 19 .produce ++ .push (.replicate 15 2) :: .pop ::
    (List.replicate 15 [.produce, .consume]).flatten ++ .replicate 5 .consume

theorem fifo_of_run_overlapped : ∃ s, exec Link.step (ringReset fun _ => 0) overlapped = some s ∧
    s.popped = [.replicate 14 1] ∧ ∃ pending, s.accepted = s.popped ++ pending ∧
      (s.ring.head - s.ring.tail).toNat = (pending.map (2 + ·.length)).sum := by
  obtain ⟨s, run⟩ := Option.isSome_iff_exists.mp
    (show (exec Link.step (ringReset fun _ => 0) overlapped).isSome = true by decide +kernel)
  have popped : (exec Link.step (ringReset fun _ => 0) overlapped).map (·.popped) =
      some [.replicate 14 1] := by decide +kernel
  rw [run] at popped
  obtain ⟨pending, fifo, used, -⟩ := fifo_of_run run
  exact ⟨s, run, Option.some.inj popped, pending, fifo, used⟩

end Link

end PCemWeb.Platform.Net
