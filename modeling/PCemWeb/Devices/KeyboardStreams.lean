import PCemWeb.Devices.KeyboardAt

/-!
# Byte streams of the keyboard controller

What a stream has queued is what the guest has read of it followed by what waits, in order, as long
as no ring wraps onto itself, no queue is cleared with bytes in it, no mouse byte reaches the output
slot's poll with the mouse disabled, and the guest reads the port when the status says so. A reply
that displaces a key byte does not lose it.
-/

namespace PCemWeb.Devices

open PCemWeb.Lib

namespace KeySlots

variable (k : KeySlots)

def ring : KeyStream → WrapRing 16 KeyByte
  | .keyboard => k.keyQueue
  | .mouse => k.mouseQueue
  | .reply => k.ctrlQueue

/-- The byte in `out` that the guest has not read, if it is of a stream. -/
def unread (stream : KeyStream) : List KeyByte :=
  if k.ofull = true ∧ k.outStream = stream then [k.out] else []

/-- The byte in `out_new`, if it is of a stream. -/
def slot (stream : KeyStream) : List KeyByte :=
  match k.outNew with
  | some (own, val) => if own = stream then [val] else []
  | none => []

/-- The displaced byte, which is of the keyboard. -/
def delayed : KeyStream → List KeyByte
  | .keyboard => k.outDelayed.toList
  | _ => []

/-- What waits of a stream before its ring. -/
def front (stream : KeyStream) : List KeyByte :=
  k.unread stream ++ (k.slot stream ++ k.delayed stream)

/-- What waits of a stream, in the order in which it is delivered. -/
def pending (stream : KeyStream) : List KeyByte := k.front stream ++ (k.ring stream).contents

/-- What the guest has read of a stream. -/
def takenOf (stream : KeyStream) : List KeyByte :=
  (k.taken.filter fun read => read.1 = stream).map Prod.snd

/-- Nothing is lost, duplicated or out of order: each stream is what the guest has read of it and
then what waits. -/
def Conserved : Prop := ∀ stream, k.queued stream = k.takenOf stream ++ k.pending stream

/-- A byte in `out` is unread as long as its interrupt is there, and a displaced byte goes before
other bytes of the keyboard. -/
structure Orderly : Prop where
  irq : k.ofull = true ↔ k.lastIrq ≠ 0
  front : k.outDelayed.isSome = true → ∀ val, k.outNew ≠ some (.keyboard, val)

end KeySlots

namespace KeyboardAt

variable (s : KeyboardAt)

/-- What an operation on the queues needs. -/
def Guarded : KeyOp → Prop
  | .adddata _ => s.ctrlQueue.isFull = false
  | .adddataKeyboard val => s.resetDelay = 0 → (s.translate && val = 0xf0) = false →
    s.keyQueue.isFull = false
  | .adddataMouse _ => s.mouseQueue.isFull = false
  | .clearKeys => s.keyQueue.isEmpty = true
  | .clearMouse => s.mouseQueue.isEmpty = true
  | .clearReplies => s.ctrlQueue.isEmpty = true ∧ s.ofull = false
  | .startReset => True
  | .load => s.lastIrq = 0 → s.mouseScan = false → ∀ val, s.outNew ≠ some (.mouse, val)
  | .refill => True
  | .resetTick => s.resetDelay = 1 → s.keyQueue.isFull = false
  | .read => s.ofull = true

def GuardedAll : List KeyOp → KeyboardAt → Prop
  | [], _ => True
  | op :: ops, s => s.Guarded op ∧ GuardedAll ops (s.apply op)

/-- What an event needs: each operation what it needs where it is. -/
def GuardedEvent (rom : KeyRom) (event : KeyEvent) : Prop :=
  GuardedAll (s.opsOf rom event).2 (s.opsOf rom event).1

end KeyboardAt

/-! ## Operations -/

namespace KeySlots

variable {k m : KeySlots} {val : KeyByte} {stream : KeyStream}

theorem queued_note (other : KeyStream) : k.note stream val other =
    k.queued other ++ if other = stream then [val] else [] := by
  unfold note
  rcases eq_or_ne other stream with rfl | apart
  · rw [Function.update_self, if_pos rfl]
  · rw [Function.update_of_ne apart, if_neg apart, List.append_nil]

/-- The lengths that a conserved state has. -/
theorem Conserved.length (conserved : k.Conserved) (stream : KeyStream) :
    (k.queued stream).length = (k.takenOf stream).length + (k.pending stream).length := by
  rw [conserved stream, List.length_append]

theorem Conserved.keep (conserved : k.Conserved) (queued : m.queued = k.queued)
    (taken : m.taken = k.taken) (pending : ∀ stream, m.pending stream = k.pending stream) :
    m.Conserved := fun stream => by
  rw [queued, takenOf, taken, ← takenOf, pending]
  exact conserved stream

/-- A stream that has lost a byte is not conserved. -/
theorem Conserved.lost (stream : KeyStream) (conserved : k.Conserved) (queued : m.queued = k.queued)
    (taken : m.taken = k.taken) (shorter : (m.pending stream).length < (k.pending stream).length) :
    ¬m.Conserved := fun after => by
  have before := conserved.length stream
  have now := after.length stream
  rw [queued, takenOf, taken, ← takenOf] at now
  omega

/-- A push appends to what waits, unless the ring is full and loses all that it holds. -/
theorem conserved_push_iff (stream : KeyStream) (val : KeyByte) (conserved : k.Conserved)
    (queued : m.queued = k.note stream val) (taken : m.taken = k.taken)
    (ring : m.ring stream = (k.ring stream).push val) (front : m.front stream = k.front stream)
    (others : ∀ other ≠ stream, m.pending other = k.pending other) :
    m.Conserved ↔ (k.ring stream).isFull = false := by
  constructor
  · intro after
    by_contra full
    rw [Bool.not_eq_false] at full
    have count := WrapRing.count_of_full full
    have before := conserved.length stream
    have now := after.length stream
    rw [pending, List.length_append, front, ring, WrapRing.contents_push_full full, queued,
      queued_note, if_pos rfl, List.length_append, takenOf, taken, ← takenOf] at now
    rw [pending, List.length_append, WrapRing.length_contents] at before
    simp only [List.length_nil, List.length_singleton] at now
    omega
  · intro room other
    rw [queued, queued_note, takenOf, taken, ← takenOf]
    rcases eq_or_ne other stream with rfl | apart
    · rw [if_pos rfl, conserved other, pending, pending, front, ring, WrapRing.contents_push room]
      simp only [List.append_assoc]
    · rw [if_neg apart, List.append_nil, others other apart]
      exact conserved other

/-- A cleared ring loses what it held. -/
theorem conserved_clear_iff (stream : KeyStream) (conserved : k.Conserved)
    (queued : m.queued = k.queued)
    (taken : m.taken = k.taken) (ring : m.ring stream = (k.ring stream).clear)
    (front : m.front stream = k.front stream)
    (others : ∀ other ≠ stream, m.pending other = k.pending other) :
    m.Conserved ↔ (k.ring stream).isEmpty = true := by
  constructor
  · intro after
    by_contra some_
    rw [Bool.not_eq_true] at some_
    have count := WrapRing.count_pos some_
    refine conserved.lost stream queued taken ?_ after
    rw [pending, pending, front, ring, WrapRing.contents_clear, List.length_append,
      List.length_append, WrapRing.length_contents, List.length_nil]
    omega
  · intro empty
    refine conserved.keep queued taken fun other => ?_
    rcases eq_or_ne other stream with rfl | apart
    · rw [pending, pending, front, ring, WrapRing.contents_clear, WrapRing.contents_of_empty empty]
    · exact others other apart

/-! ### The slots -/

theorem unread_of_empty (empty : k.ofull = false) : k.unread stream = [] :=
  if_neg fun both => Bool.false_ne_true (empty.symm.trans both.1)

theorem slot_of_none (empty : k.outNew = none) : k.slot stream = [] := by
  rw [slot, empty]

theorem slot_of_some {own : KeyStream} (here : k.outNew = some (own, val)) :
    k.slot stream = if own = stream then [val] else [] := by
  rw [slot, here]

theorem length_pending : (k.pending stream).length = (k.unread stream).length +
    (k.slot stream).length + (k.delayed stream).length + (k.ring stream).count := by
  rw [pending, front, List.length_append, List.length_append, List.length_append,
    WrapRing.length_contents, ← Nat.add_assoc]

/-- A reply is queued behind the others, and a key byte that it displaces waits where it was. -/
theorem conserved_adddata_iff (conserved : k.Conserved) (orderly : k.Orderly) :
    (k.adddata val).Conserved ↔ k.ctrlQueue.isFull = false := by
  have fronts (stream : KeyStream) : (k.adddata val).front stream = k.front stream := by
    unfold adddata
    dsimp only
    split
    · rename_i key here
      have undelayed : k.outDelayed = none := by
        by_contra held
        exact orderly.front (Option.isSome_iff_ne_none.mpr held) key here
      unfold front
      rw [slot_of_some here, slot_of_none rfl]
      cases stream with
      | keyboard =>
        show k.unread .keyboard ++ ([] ++ [key]) = k.unread .keyboard ++
          ([key] ++ k.outDelayed.toList)
        rw [undelayed]
        rfl
      | mouse => rfl
      | reply => rfl
    · rfl
  refine conserved_push_iff .reply val conserved ?_ ?_ ?_ (fronts .reply) ?_
  · unfold adddata
    dsimp only
    split <;> rfl
  · unfold adddata
    dsimp only
    split <;> rfl
  · unfold adddata
    dsimp only
    split <;> rfl
  · intro other apart
    rw [pending, pending, fronts]
    congr 1
    unfold adddata
    dsimp only
    cases other with
    | reply => exact absurd rfl apart
    | keyboard => split <;> rfl
    | mouse => split <;> rfl

/-- The first byte of a ring goes to the empty slot. -/
theorem pending_fetch (own : KeyStream) (empty : k.ofull = false) (none_ : k.outNew = none)
    (undelayed : k.delayed own = []) (some_ : (k.ring own).isEmpty = false)
    (ofull : m.ofull = false) (outNew : m.outNew = some (own, (k.ring own).head))
    (delayed : m.outDelayed = k.outDelayed) (ring : m.ring own = (k.ring own).pop)
    (others : ∀ other ≠ own, m.ring other = k.ring other) (stream : KeyStream) :
    m.pending stream = k.pending stream := by
  have same : m.delayed stream = k.delayed stream := by
    cases stream with
    | keyboard => exact congrArg Option.toList delayed
    | mouse => rfl
    | reply => rfl
  rw [pending, pending, front, front, unread_of_empty empty, unread_of_empty ofull,
    slot_of_none none_, slot_of_some outNew, same]
  rcases eq_or_ne own stream with rfl | apart
  · rw [if_pos rfl, undelayed, ring, WrapRing.contents_pop some_]
    rfl
  · rw [if_neg apart, others stream apart.symm]

theorem refill_taken (off : Bool) : (k.refill off).taken = k.taken ∧
    (k.refill off).queued = k.queued := by
  unfold refill
  split
  · exact ⟨rfl, rfl⟩
  split
  · exact ⟨rfl, rfl⟩
  split
  · exact ⟨rfl, rfl⟩
  split
  · exact ⟨rfl, rfl⟩
  split
  · exact ⟨rfl, rfl⟩
  · exact ⟨rfl, rfl⟩

/-- A poll's fetch moves bytes and loses none. -/
theorem pending_refill (off : Bool) (stream : KeyStream) :
    (k.refill off).pending stream = k.pending stream := by
  unfold refill
  split
  · rename_i reply
    obtain ⟨none_, empty, some_⟩ := reply
    refine pending_fetch .reply empty none_ rfl some_ ?_ ?_ ?_ ?_ ?_ stream
    · exact empty
    · rfl
    · rfl
    · rfl
    intro other apart
    cases other with
    | reply => exact absurd rfl apart
    | keyboard => rfl
    | mouse => rfl
  split
  · rfl
  rename_i idle
  rw [Bool.or_eq_true, not_or, Bool.not_eq_true, Bool.not_eq_true, Option.isSome_eq_false_iff,
    Option.isNone_iff_eq_none] at idle
  obtain ⟨empty, none_⟩ := idle
  split
  · rename_i key held
    rw [pending, pending, front, front, slot_of_none none_, slot_of_some rfl]
    cases stream with
    | keyboard =>
      show k.unread .keyboard ++ ([key] ++ []) ++ _ =
        k.unread .keyboard ++ ([] ++ k.outDelayed.toList) ++ _
      rw [held]
      rfl
    | mouse => rfl
    | reply => rfl
  rename_i undelayed
  split
  · rename_i some_
    refine pending_fetch .mouse empty none_ rfl some_ ?_ ?_ ?_ ?_ ?_ stream
    · exact empty
    · rfl
    · rfl
    · rfl
    intro other apart
    cases other with
    | mouse => exact absurd rfl apart
    | keyboard => rfl
    | reply => rfl
  split
  · rename_i some_
    rw [Bool.and_eq_true, Bool.not_eq_true', Bool.not_eq_true'] at some_
    have unheld : k.delayed .keyboard = [] := congrArg Option.toList undelayed
    refine pending_fetch .keyboard empty none_ unheld some_.2 ?_ ?_ ?_ ?_ ?_ stream
    · exact empty
    · rfl
    · rfl
    · rfl
    intro other apart
    cases other with
    | keyboard => exact absurd rfl apart
    | mouse => rfl
    | reply => rfl
  · rfl

/-- The byte in the slot goes out when the one before it has been read. -/
theorem pending_moveOut {own : KeyStream} (empty : k.ofull = false)
    (here : k.outNew = some (own, val)) (stream : KeyStream) :
    (k.moveOut own val).pending stream = k.pending stream := by
  have out : (k.moveOut own val).unread stream = if own = stream then [val] else [] := by
    show (if true = true ∧ own = stream then [val] else []) = _
    rcases eq_or_ne own stream with same | apart
    · rw [if_pos same, if_pos ⟨rfl, same⟩]
    · rw [if_neg apart, if_neg fun both => apart both.2]
  rw [pending, pending, front, front, unread_of_empty empty, out, slot_of_some here,
    slot_of_none rfl]
  cases stream <;> rfl

theorem orderly_adddata (orderly : k.Orderly) (val : KeyByte) : (k.adddata val).Orderly := by
  unfold adddata
  dsimp only
  split
  · refine ⟨orderly.irq, fun _ val same => ?_⟩
    cases same
  · exact ⟨orderly.irq, orderly.front⟩

theorem orderly_refill (orderly : k.Orderly) (off : Bool) : (k.refill off).Orderly := by
  unfold refill
  split
  · refine ⟨orderly.irq, fun _ val same => ?_⟩
    cases same
  split
  · exact orderly
  split
  · exact ⟨orderly.irq, fun held => absurd held Bool.false_ne_true⟩
  rename_i undelayed
  have unheld (p : Prop) (held : k.outDelayed.isSome = true) : p := by
    rw [undelayed] at held
    cases held
  split
  · exact ⟨orderly.irq, fun held => unheld _ held⟩
  split
  · exact ⟨orderly.irq, fun held => unheld _ held⟩
  · exact orderly

/-- A read takes the byte that waits in `out`, or one that was read before. -/
theorem conserved_read_iff (conserved : k.Conserved) : k.read.Conserved ↔ k.ofull = true := by
  have taken (stream : KeyStream) : k.read.takenOf stream =
      k.takenOf stream ++ if k.outStream = stream then [k.out] else [] := by
    show ((k.taken ++ [(k.outStream, k.out)]).filter _).map _ = _
    rw [List.filter_append, List.map_append, ← takenOf, List.filter_cons, List.filter_nil]
    congr 1
    rcases eq_or_ne k.outStream stream with same | apart
    · rw [if_pos same, if_pos (decide_eq_true same)]
      rfl
    · rw [if_neg apart, if_neg fun same => apart (of_decide_eq_true same)]
      rfl
  have rest (stream : KeyStream) : k.read.pending stream =
      k.slot stream ++ k.delayed stream ++ (k.ring stream).contents := by
    rw [pending, front, unread_of_empty rfl]
    cases stream <;> rfl
  constructor
  · intro after
    by_contra empty
    rw [Bool.not_eq_true] at empty
    have before := conserved.length k.outStream
    have now := after.length k.outStream
    rw [taken, if_pos rfl, rest, List.length_append, List.length_singleton] at now
    rw [pending, front, unread_of_empty empty, List.nil_append] at before
    have queued : k.read.queued = k.queued := rfl
    rw [queued] at now
    omega
  · intro full stream
    rw [taken, rest]
    show k.queued stream = _
    have unread : k.unread stream = if k.outStream = stream then [k.out] else [] := by
      rw [KeySlots.unread]
      rcases eq_or_ne k.outStream stream with same | apart
      · rw [if_pos same, if_pos ⟨full, same⟩]
      · rw [if_neg apart, if_neg fun both => apart both.2]
    rw [conserved stream, pending, front, unread]
    simp only [List.append_assoc]

/-- Replies are cleared with the unread byte, of whichever stream it is. -/
theorem conserved_clearReplies_iff (conserved : k.Conserved) :
    { k with ctrlQueue := k.ctrlQueue.clear, ofull := false }.Conserved ↔
      k.ctrlQueue.isEmpty = true ∧ k.ofull = false := by
  rcases Bool.eq_false_or_eq_true k.ofull with full | empty
  · refine iff_of_false (conserved.lost k.outStream rfl rfl ?_) fun both =>
      Bool.false_ne_true (both.2.symm.trans full)
    have unread : k.unread k.outStream = [k.out] := if_pos ⟨full, rfl⟩
    have rest : { k with ctrlQueue := k.ctrlQueue.clear, ofull := false }.front k.outStream =
        k.slot k.outStream ++ k.delayed k.outStream := by
      rw [front, unread_of_empty rfl]
      cases k.outStream <;> rfl
    have ring : ({ k with ctrlQueue := k.ctrlQueue.clear, ofull := false }.ring
        k.outStream).contents.length ≤ (k.ring k.outStream).contents.length := by
      cases k.outStream with
      | keyboard => exact Nat.le_refl _
      | mouse => exact Nat.le_refl _
      | reply =>
        show k.ctrlQueue.clear.contents.length ≤ _
        rw [WrapRing.contents_clear]
        exact Nat.zero_le _
    rw [pending, pending, rest, front, unread]
    simp only [List.length_append, List.length_singleton]
    omega
  · rw [and_iff_left empty]
    have fronts (stream : KeyStream) : { k with ctrlQueue := k.ctrlQueue.clear, ofull := false
      }.front
        stream = k.front stream := by
      rw [front, front, unread_of_empty rfl, unread_of_empty empty]
      cases stream <;> rfl
    refine conserved_clear_iff .reply conserved rfl rfl rfl (fronts .reply) fun other apart => ?_
    rw [pending, pending, fronts]
    congr 1
    cases other with
    | reply => exact absurd rfl apart
    | keyboard => rfl
    | mouse => rfl

end KeySlots

namespace KeyboardAt

variable {s t : KeyboardAt} {rom : KeyRom}

theorem adddataKeyboard_cases (val : KeyByte) :
    ((s.resetDelay = 0 → (s.translate && val = 0xf0) = false → False) ∧
      (s.adddataKeyboard val).toKeySlots = s.toKeySlots) ∨
    (s.resetDelay = 0 ∧ (s.translate && val = 0xf0) = false ∧
      ∃ key, (s.adddataKeyboard val).toKeySlots = s.pushKey key) := by
  unfold adddataKeyboard
  split
  · rename_i resetting
    exact .inl ⟨fun idle => absurd idle resetting, rfl⟩
  rename_i idle
  replace idle := not_not.mp idle
  split
  · rename_i translates
    split
    · rename_i release
      refine .inl ⟨fun _ other => ?_, rfl⟩
      rw [translates, decide_eq_true release] at other
      cases other
    · rename_i other
      exact .inr ⟨idle, by rw [decide_eq_false other, Bool.and_false], _, rfl⟩
  · rename_i raw
    exact .inr ⟨idle, by rw [Bool.eq_false_iff.mpr raw, Bool.false_and], _, rfl⟩

theorem conserved_pushKey_iff {k : KeySlots} (conserved : k.Conserved) (key : KeyByte) :
    (k.pushKey key).Conserved ↔ k.keyQueue.isFull = false := by
  refine KeySlots.conserved_push_iff .keyboard key conserved rfl rfl rfl rfl fun other apart => ?_
  cases other with
  | keyboard => exact absurd rfl apart
  | mouse => rfl
  | reply => rfl

theorem conserved_adddataKeyboard_iff (conserved : s.Conserved) (val : KeyByte) :
    (s.adddataKeyboard val).Conserved ↔ s.Guarded (.adddataKeyboard val) := by
  rcases adddataKeyboard_cases (s := s) val with ⟨refused, same⟩ | ⟨idle, whole, key, pushed⟩
  · rw [same]
    exact iff_of_true conserved fun idle whole => absurd (refused idle whole) not_false
  · rw [pushed, conserved_pushKey_iff conserved]
    exact ⟨fun room _ _ => room, fun guarded => guarded idle whole⟩

/-- A poll loses a byte exactly when it is one of the mouse and the mouse is disabled. -/
theorem conserved_load_iff (conserved : s.Conserved) (orderly : s.Orderly) :
    s.load.Conserved ↔ s.Guarded .load := by
  unfold load
  split
  · rename_i stream val here
    split
    · rename_i busy
      exact iff_of_true conserved fun idle => absurd idle busy
    rename_i idle
    replace idle := not_not.mp idle
    have empty : s.ofull = false := Bool.eq_false_iff.mpr fun full => orderly.irq.mp full idle
    dsimp only
    split
    · rename_i dropped
      obtain ⟨rfl, disabled⟩ := dropped
      refine iff_of_false (conserved.lost .mouse rfl rfl ?_) fun guarded =>
        guarded idle disabled val here
      rw [KeySlots.length_pending, KeySlots.length_pending, KeySlots.slot_of_none rfl,
        KeySlots.slot_of_some here, if_pos rfl]
      exact Nat.add_lt_add_right (Nat.add_lt_add_right (Nat.lt_succ_self _) _) _
    · rename_i kept
      refine iff_of_true (conserved.keep rfl rfl (KeySlots.pending_moveOut empty here)) ?_
      intro _ disabled mouse same
      rw [here] at same
      cases same
      exact kept ⟨rfl, disabled⟩
  · rename_i none_
    refine iff_of_true conserved fun _ _ val same => ?_
    rw [none_] at same
    cases same

/-- The last tick of a keyboard reset queues its answer. -/
theorem conserved_resetTick_iff (conserved : s.Conserved) :
    s.resetTick.Conserved ↔ s.Guarded .resetTick := by
  unfold resetTick
  split
  · rename_i idle
    refine iff_of_true conserved fun last => ?_
    rw [idle] at last
    cases last
  rename_i running
  dsimp only
  split
  · rename_i done
    have last : s.resetDelay = 1 := by omega
    have answer : ((s.translate && (0xaa : KeyByte) = 0xf0) = false) := Bool.and_false _
    rw [conserved_adddataKeyboard_iff]
    · exact ⟨fun guarded _ => guarded done answer, fun guarded _ _ => guarded last⟩
    · exact conserved
  · rename_i more
    exact iff_of_true conserved fun last => absurd (by rw [last]) more

/-- Exactly the operations that have what they need keep the streams. -/
theorem conserved_apply_iff (conserved : s.Conserved) (orderly : s.Orderly) (op : KeyOp) :
    (s.apply op).Conserved ↔ s.Guarded op := by
  cases op with
  | adddata val => exact KeySlots.conserved_adddata_iff conserved orderly
  | adddataKeyboard val => exact conserved_adddataKeyboard_iff conserved val
  | adddataMouse val =>
    refine KeySlots.conserved_push_iff .mouse val conserved rfl rfl rfl rfl fun other apart => ?_
    cases other with
    | mouse => exact absurd rfl apart
    | keyboard => rfl
    | reply => rfl
  | clearKeys =>
    refine KeySlots.conserved_clear_iff .keyboard conserved rfl rfl rfl rfl fun other apart => ?_
    cases other with
    | keyboard => exact absurd rfl apart
    | mouse => rfl
    | reply => rfl
  | clearMouse =>
    refine KeySlots.conserved_clear_iff .mouse conserved rfl rfl rfl rfl fun other apart => ?_
    cases other with
    | mouse => exact absurd rfl apart
    | keyboard => rfl
    | reply => rfl
  | clearReplies => exact KeySlots.conserved_clearReplies_iff conserved
  | startReset => exact iff_of_true conserved trivial
  | load => exact conserved_load_iff conserved orderly
  | refill =>
    refine iff_of_true (conserved.keep ?_ ?_ ?_) trivial
    · exact (KeySlots.refill_taken _).2
    · exact (KeySlots.refill_taken _).1
    · exact KeySlots.pending_refill _
  | resetTick => exact conserved_resetTick_iff conserved
  | read => exact KeySlots.conserved_read_iff conserved

theorem orderly_adddataKeyboard (orderly : s.Orderly) (val : KeyByte) :
    (s.adddataKeyboard val).Orderly := by
  rcases adddataKeyboard_cases (s := s) val with ⟨_, same⟩ | ⟨_, _, key, pushed⟩
  · rw [same]
    exact orderly
  · rw [pushed]
    exact ⟨orderly.irq, orderly.front⟩

theorem orderly_load (orderly : s.Orderly) : s.load.Orderly := by
  unfold load
  split
  · rename_i stream val here
    split
    · exact orderly
    dsimp only
    split
    · refine ⟨orderly.irq, fun _ val same => ?_⟩
      cases same
    · refine ⟨iff_of_true rfl ?_, fun _ val same => ?_⟩
      · show (if stream = .mouse then 0x1000 else 2) ≠ 0
        split
        · exact Nat.succ_ne_zero _
        · exact Nat.succ_ne_zero _
      · cases same
  · exact orderly

theorem orderly_resetTick (orderly : s.Orderly) : s.resetTick.Orderly := by
  unfold resetTick
  split
  · exact orderly
  dsimp only
  split
  · apply orderly_adddataKeyboard
    exact orderly
  · exact orderly

theorem orderly_apply (orderly : s.Orderly) {op : KeyOp} (guarded : s.Guarded op) :
    (s.apply op).Orderly := by
  cases op with
  | adddata val => exact KeySlots.orderly_adddata orderly val
  | adddataKeyboard val => exact orderly_adddataKeyboard orderly val
  | adddataMouse val => exact ⟨orderly.irq, orderly.front⟩
  | clearKeys => exact ⟨orderly.irq, orderly.front⟩
  | clearMouse => exact ⟨orderly.irq, orderly.front⟩
  | clearReplies =>
    have irq := orderly.irq
    rw [guarded.2] at irq
    exact ⟨irq, orderly.front⟩
  | startReset => exact orderly
  | load => exact orderly_load orderly
  | refill => exact KeySlots.orderly_refill orderly _
  | resetTick => exact orderly_resetTick orderly
  | read =>
    exact ⟨iff_of_false Bool.false_ne_true (not_not.mpr rfl), orderly.front⟩

/-! ## Runs -/

theorem preserved_applyAll {ops : List KeyOp} (conserved : s.Conserved) (orderly : s.Orderly)
    (guarded : GuardedAll ops s) : (s.applyAll ops).Conserved ∧ (s.applyAll ops).Orderly := by
  induction ops generalizing s with
  | nil => exact ⟨conserved, orderly⟩
  | cons op ops ih =>
    refine ih ?_ (orderly_apply orderly guarded.1) guarded.2
    exact (conserved_apply_iff conserved orderly op).mpr guarded.1

theorem toKeySlots_ite {c : Prop} [Decidable c] {k : KeySlots} {p q : KeyboardAt × List KeyOp}
    (yes : p.1.toKeySlots = k) (no : q.1.toKeySlots = k) :
    (if c then p else q).1.toKeySlots = k := by
  split
  · exact yes
  · exact no

theorem toKeySlots_writeController (around : KeyAround) (val : KeyByte) :
    (s.writeController around val).1.toKeySlots = s.toKeySlots := by
  unfold writeController
  refine toKeySlots_ite (toKeySlots_ite rfl rfl) (toKeySlots_ite rfl (toKeySlots_ite rfl
    (toKeySlots_ite rfl (toKeySlots_ite ?_ rfl))))
  split
  · rfl
  · rfl

theorem toKeySlots_write60 (around : KeyAround) (val : KeyByte) :
    (s.write60 around val).1.toKeySlots = s.toKeySlots := by
  refine toKeySlots_ite (toKeySlots_writeController around val) (toKeySlots_ite ?_ ?_)
  · unfold writeKeyData
    repeat' first
      | apply toKeySlots_ite
      | rfl
  · unfold writeKeyCommand
    repeat' first
      | apply toKeySlots_ite
      | rfl

theorem toKeySlots_write64 (around : KeyAround) (val : KeyByte) :
    (s.write64 rom around val).1.toKeySlots = s.toKeySlots := by
  unfold write64
  repeat' first
    | apply toKeySlots_ite
    | rfl

/-- An event changes the queues by its operations only. -/
theorem toKeySlots_opsOf (event : KeyEvent) : (s.opsOf rom event).1.toKeySlots = s.toKeySlots := by
  cases event with
  | key val => rfl
  | mouse val => rfl
  | write60 around val => exact toKeySlots_write60 around val
  | write64 around val => exact toKeySlots_write64 around val
  | poll => rfl
  | read60 => rfl

/-- Streams that are conserved, in a state that a guarded run reaches. -/
def Kept (s : KeyboardAt) : Prop := s.Conserved ∧ s.Orderly

theorem kept_step {event : KeyEvent} (kept : s.Kept) (guarded : s.GuardedEvent rom event)
    (next : step rom s event = some t) : t.Kept := by
  cases next
  have same := @toKeySlots_opsOf s rom event
  refine preserved_applyAll ?_ ?_ guarded
  · rw [same]
    exact kept.1
  · rw [same]
    exact kept.2

theorem kept_init (inputPort : KeyByte) (mouseScan : Bool) : (init inputPort mouseScan).Kept := by
  refine ⟨fun stream => ?_, iff_of_false Bool.false_ne_true (not_not.mpr rfl), fun held => ?_⟩
  · have none_ : ((init inputPort mouseScan).ring stream).contents = [] := by
      cases stream <;> exact WrapRing.contents_of_empty rfl
    rw [KeySlots.pending, none_, KeySlots.front, KeySlots.unread_of_empty rfl,
      KeySlots.slot_of_none rfl]
    cases stream <;> rfl
  · cases held

/-! ## Delivery -/

/-- The keyboard and the mouse are enabled and no reset of the keyboard runs. -/
structure Serving (s : KeyboardAt) : Prop where
  idle : s.resetDelay = 0
  keyboard : (s.mem 0).getLsbD 4 = false
  mouse : s.mouseScan = true

/-- Two polls and a read, some times. -/
def cycles (n : Nat) : List KeyEvent := (List.replicate n [.poll, .poll, .read60]).flatten

/-- A poll. -/
def poll (s : KeyboardAt) : KeyboardAt := s.applyAll [.load, .refill, .resetTick]

theorem load_registers : s.load.resetDelay = s.resetDelay ∧ s.load.mem = s.mem ∧
    s.load.mouseScan = s.mouseScan := by
  unfold load
  split
  · split
    · exact ⟨rfl, rfl, rfl⟩
    dsimp only
    split
    · exact ⟨rfl, rfl, rfl⟩
    · exact ⟨rfl, rfl, rfl⟩
  · exact ⟨rfl, rfl, rfl⟩

theorem Serving.load (serving : s.Serving) : s.load.Serving := by
  obtain ⟨delay, mem, scan⟩ := load_registers (s := s)
  refine ⟨delay.trans serving.idle, ?_, scan.trans serving.mouse⟩
  rw [mem]
  exact serving.keyboard

theorem poll_eq (serving : s.Serving) :
    s.poll = { s.load with toKeySlots := s.load.toKeySlots.refill false } := by
  have keyboard := serving.load.keyboard
  show ({ s.load with toKeySlots := s.load.toKeySlots.refill ((s.load.mem 0).getLsbD 4) } :
    KeyboardAt).resetTick = _
  rw [keyboard]
  exact if_pos serving.load.idle

theorem Serving.poll (serving : s.Serving) : s.poll.Serving := by
  rw [poll_eq serving]
  exact ⟨serving.load.idle, serving.load.keyboard, serving.load.mouse⟩

theorem guarded_poll (serving : s.Serving) : s.GuardedEvent rom .poll := by
  refine ⟨fun _ off => ?_, trivial, fun last => ?_, trivial⟩
  · exact absurd (off.symm.trans serving.mouse) Bool.false_ne_true
  · have idle : s.load.resetDelay = 0 := serving.load.idle
    cases idle.symm.trans last

theorem pending_poll (serving : s.Serving) (kept : s.Kept) (stream : KeyStream) :
    s.poll.pending stream = s.pending stream := by
  rw [poll_eq serving]
  refine (KeySlots.pending_refill false stream).trans ?_
  unfold KeyboardAt.load
  split
  · rename_i own val here
    split
    · rfl
    rename_i idle
    have empty : s.ofull = false :=
      Bool.eq_false_iff.mpr fun full => kept.2.irq.mp full (not_not.mp idle)
    rw [if_neg fun dropped => Bool.false_ne_true (dropped.2.symm.trans serving.mouse)]
    exact KeySlots.pending_moveOut empty here stream
  · rfl

/-- A poll brings the byte in the slot out, unless another is unread. -/
theorem ofull_poll (serving : s.Serving) (kept : s.Kept)
    (here : s.ofull = true ∨ s.outNew.isSome = true) : s.poll.ofull = true := by
  have full : s.load.ofull = true := by
    unfold KeyboardAt.load
    split
    · split
      · rename_i busy
        exact kept.2.irq.mpr busy
      · rw [if_neg fun dropped => Bool.false_ne_true (dropped.2.symm.trans serving.mouse)]
        rfl
    · rename_i none_
      rw [none_] at here
      exact here.resolve_right Bool.false_ne_true
  rw [poll_eq serving]
  show (s.load.toKeySlots.refill false).ofull = true
  unfold KeySlots.refill
  rw [if_neg fun reply => Bool.false_ne_true (reply.2.1.symm.trans full), full]
  exact full

/-- A poll brings a byte that waits to the slot. -/
theorem some_poll (serving : s.Serving) (empty : s.ofull = false) (none_ : s.outNew = none)
    {stream : KeyStream} (waits : s.pending stream ≠ []) : s.poll.outNew.isSome = true := by
  have same : s.load = s := by
    unfold KeyboardAt.load
    rw [none_]
  rw [poll_eq serving, same]
  show (s.toKeySlots.refill false).outNew.isSome = true
  by_contra unmoved
  unfold KeySlots.refill at unmoved
  rw [none_, empty] at unmoved
  split at unmoved
  · exact unmoved rfl
  rename_i noReply
  have replies : s.ctrlQueue.isEmpty = true := by
    by_contra some_
    exact noReply ⟨rfl, rfl, Bool.eq_false_iff.mpr some_⟩
  split at unmoved
  · rename_i busy
    cases busy
  split at unmoved
  · exact unmoved rfl
  rename_i undelayed
  split at unmoved
  · exact unmoved rfl
  rename_i noMouse
  have mouse : s.mouseQueue.isEmpty = true := by
    by_contra some_
    exact noMouse (Bool.eq_false_iff.mpr some_)
  split at unmoved
  · exact unmoved rfl
  rename_i noKey
  have keys : s.keyQueue.isEmpty = true := by
    by_contra some_
    rw [Bool.not_eq_true] at some_
    exact noKey (by rw [some_]; rfl)
  apply waits
  rw [KeySlots.pending, KeySlots.front, KeySlots.unread_of_empty empty, KeySlots.slot_of_none none_]
  cases stream with
  | keyboard =>
    show [] ++ ([] ++ s.outDelayed.toList) ++ s.keyQueue.contents = []
    rw [undelayed, WrapRing.contents_of_empty keys]
    rfl
  | mouse => exact WrapRing.contents_of_empty mouse
  | reply => exact WrapRing.contents_of_empty replies

/-- After two polls a byte is there to read, if any waits. -/
theorem ofull_polls (serving : s.Serving) (kept : s.Kept) {stream : KeyStream}
    (waits : s.pending stream ≠ []) : s.poll.poll.ofull = true := by
  have next : s.poll.Kept := kept_step kept (@guarded_poll s ⟨false, false, false, false⟩
    serving) rfl
  refine ofull_poll serving.poll next ?_
  rcases Bool.eq_false_or_eq_true s.ofull with full | empty
  · exact .inl (ofull_poll serving kept (.inl full))
  rcases Option.eq_none_or_eq_some s.outNew with none_ | ⟨new, here⟩
  · exact .inr (some_poll serving empty none_ waits)
  · refine .inl (ofull_poll serving kept (.inr ?_))
    rw [here]
    rfl

end KeyboardAt

/-! ### What waits -/

namespace KeySlots

variable {k : KeySlots}

def waiting (k : KeySlots) : Nat :=
  (k.pending .keyboard).length + (k.pending .mouse).length + (k.pending .reply).length

theorem length_pending_read (full : k.ofull = true) (stream : KeyStream) :
    (k.pending stream).length =
    (k.read.pending stream).length + if k.outStream = stream then 1 else 0 := by
  have unread : (k.unread stream).length = if k.outStream = stream then 1 else 0 := by
    unfold unread
    rcases eq_or_ne k.outStream stream with same | apart
    · rw [if_pos same, if_pos ⟨full, same⟩]
      rfl
    · rw [if_neg apart, if_neg fun both => apart both.2]
      rfl
  have slot : k.read.slot stream = k.slot stream := rfl
  have delayed : k.read.delayed stream = k.delayed stream := by
    cases stream <;> rfl
  have ring : k.read.ring stream = k.ring stream := by
    cases stream <;> rfl
  rw [length_pending, length_pending, unread, unread_of_empty rfl, slot, delayed, ring,
    List.length_nil]
  omega

theorem waiting_read (full : k.ofull = true) : k.waiting = k.read.waiting + 1 := by
  unfold waiting
  rw [length_pending_read full, length_pending_read full, length_pending_read full]
  cases k.outStream with
  | keyboard =>
    rw [if_pos rfl, if_neg (by decide), if_neg (by decide)]
    omega
  | mouse =>
    rw [if_neg (by decide), if_pos rfl, if_neg (by decide)]
    omega
  | reply =>
    rw [if_neg (by decide), if_neg (by decide), if_pos rfl]
    omega

theorem nothing_waits (none_ : k.waiting = 0) (stream : KeyStream) : k.pending stream = [] := by
  unfold waiting at none_
  apply List.eq_nil_of_length_eq_zero
  cases stream <;> omega

end KeySlots

namespace KeyboardAt

variable {s t : KeyboardAt} {rom : KeyRom}

theorem queued_poll (serving : s.Serving) : s.poll.queued = s.queued := by
  rw [poll_eq serving]
  refine (KeySlots.refill_taken false).2.trans ?_
  unfold KeyboardAt.load
  split
  · split
    · rfl
    dsimp only
    split
    · rfl
    · rfl
  · rfl

/-- Two polls and a read deliver a byte that waits. -/
theorem cycle (serving : s.Serving) (kept : s.Kept) (waits : s.waiting ≠ 0) :
    ∃ t, exec (step rom) s [.poll, .poll, .read60] = some t ∧ t.Serving ∧ t.Kept ∧
      t.queued = s.queued ∧ s.waiting = t.waiting + 1 := by
  have first : s.poll.Kept := kept_step kept (@guarded_poll s rom serving) rfl
  have second : s.poll.poll.Kept := kept_step first (@guarded_poll s.poll rom serving.poll) rfl
  have some_ : ∃ stream, s.pending stream ≠ [] := by
    by_contra none_
    have empty (stream : KeyStream) : s.pending stream = [] :=
      not_not.mp (not_exists.mp none_ stream)
    apply waits
    unfold KeySlots.waiting
    rw [empty, empty, empty]
    rfl
  obtain ⟨stream, some_⟩ := some_
  have full := ofull_polls serving kept some_
  have all (stream : KeyStream) : s.poll.poll.pending stream = s.pending stream :=
    (pending_poll serving.poll first stream).trans (pending_poll serving kept stream)
  have same : s.poll.poll.waiting = s.waiting := by
    unfold KeySlots.waiting
    rw [all, all, all]
  refine ⟨s.poll.poll.apply .read, rfl, ?_, ?_, ?_, ?_⟩
  · exact ⟨serving.poll.poll.idle, serving.poll.poll.keyboard, serving.poll.poll.mouse⟩
  · exact @kept_step s.poll.poll _ rom .read60 second ⟨full, trivial⟩ rfl
  · exact (queued_poll serving.poll).trans (queued_poll serving)
  · rw [← same]
    exact KeySlots.waiting_read full

/-- Enough polls and reads deliver all that was queued. -/
theorem drained (serving : s.Serving) (kept : s.Kept) : ∃ n t, exec (step rom) s
    (cycles n) = some t ∧
    ∀ stream, t.takenOf stream = s.queued stream := by
  generalize count : s.waiting = n
  induction n generalizing s with
  | zero =>
    refine ⟨0, s, rfl, fun stream => ?_⟩
    rw [kept.1 stream, KeySlots.nothing_waits count, List.append_nil]
  | succ n ih =>
    have waits : s.waiting ≠ 0 := by
      rw [count]
      exact Nat.succ_ne_zero n
    obtain ⟨u, steps, serving, kept, queued, less⟩ := @cycle s rom serving kept waits
    obtain ⟨m, t, rest, all⟩ := ih serving kept (by omega)
    refine ⟨m + 1, t, ?_, fun stream => ?_⟩
    · show exec (step rom) s ([.poll, .poll, .read60] ++ cycles m) = some t
      rw [exec_append, steps]
      exact rest
    · rw [all stream, queued]

/-- In a run whose operations have what they need, the guest has read a beginning of each stream in
its order, the rest waits, and while the devices are enabled polls and reads deliver it. -/
theorem streams_of_run {inputPort : KeyByte} {mouseScan : Bool}
    (run : RunOk (step rom) (fun s event => s.GuardedEvent rom event)
      (init inputPort mouseScan) s) :
    s.Conserved ∧ (s.Serving → ∃ n t, exec (step rom) s (cycles n) = some t ∧
      ∀ stream, t.takenOf stream = s.queued stream) := by
  have kept : s.Kept := run.invariant (kept_init inputPort mouseScan) kept_step
  exact ⟨kept.1, fun serving => drained serving kept⟩

/-- A machine with a keyboard that neither of the special cases of the source concerns. -/
def plainRom : KeyRom := ⟨false, false, false, false⟩

def noAnswer : KeyAround := ⟨0, 0, false, none⟩

/-- The keyboard is enabled, and a key that a poll has taken is displaced by a reply: both are
delivered. -/
theorem streams_keyAndReply : ∃ s, s.queued .keyboard = [0x1c] ∧ s.queued .reply = [0] ∧
    s.outDelayed = some 0x1c ∧ s.Conserved ∧
    ∃ n t, exec (step plainRom) s (cycles n) = some t ∧
      ∀ stream, t.takenOf stream = s.queued stream := by
  have run : RunOk (step plainRom) (fun s event => s.GuardedEvent plainRom event) (init 0xb0 true)
      _ := .tail (.tail (.tail (.tail .refl (a := .write64 noAnswer 0xae) ?_ rfl)
        (a := .key 0x1c) ?_ rfl) (a := .poll) ?_ rfl) (a := .write64 noAnswer 0xa9) ?_ rfl
  · have streams := streams_of_run run
    exact ⟨_, by decide +kernel, by decide +kernel, by decide +kernel, streams.1,
      streams.2 ⟨rfl, rfl, rfl⟩⟩
  · exact trivial
  · exact ⟨fun _ _ => rfl, trivial⟩
  · exact ⟨fun _ off => absurd off Bool.noConfusion, trivial,
      fun last => absurd last Nat.zero_ne_one, trivial⟩
  · exact ⟨rfl, trivial⟩

/-- Sixteen bytes of the keyboard without a poll leave an empty ring. -/
theorem not_conserved_sixteenKeys : ¬∀ (events : List KeyEvent) (s : KeyboardAt),
    exec (step plainRom) (init 0xb0 true) events = some s → s.Conserved := by
  intro all
  have lengths := (all (List.replicate 16 (.key 0x1c)) _ rfl).length .keyboard
  revert lengths
  decide +kernel

end KeyboardAt

end PCemWeb.Devices
