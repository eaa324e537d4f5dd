import PCemWeb.Network.NetRelay

/-!
# What the relay forwards and writes

In every run whose clients break the protocol, if at all, first in a way that the parser looks for,
each client's messages are forwarded as it sent them and each client is written well-formed frames
(`relayExact_of_run`). The parser looks for a mask, for the size, for the opcode and for a stray
continuation; a ping of more than 125 bytes is answered by a pong whose header is wrong.
-/

namespace PCemWeb.Network

open PCemWeb.Lib PCemWeb.Lib.WebSocket

namespace NetRelay

variable {buf more : List Octet} {f : Frame} {fs : List Frame} {p q : Parser}

/-! ## The encoders -/

theorem serverFrame_fits {opcode : BitVec 4} {data : List Octet} (small : data.length < 65536) :
    (serverFrame opcode data).Fits := by
  unfold Frame.Fits serverFrame shortest
  by_cases short : data.length < 126
  · simpa only [if_pos short] using short
  · simp only [if_neg short, if_pos small]
    exact small

/-- The second octet of an unmasked frame with a short length. -/
theorem lengthOctet {n : Nat} (short : n < 126) :
    (BitVec.ofBool false ++ BitVec.ofNat 7 n : BitVec (1 + 7)) = BitVec.ofNat 8 n := by
  apply BitVec.eq_of_toNat_eq
  rw [BitVec.toNat_append]
  simp
  omega

/-- A message of at most `maxFrame` bytes is written as one well-formed frame. -/
theorem encodeFrame_eq {payload : List Octet} (small : payload.length ≤ maxFrame) :
    encodeFrame payload = (serverFrame 2 payload).encode := by
  have bound : payload.length < 65536 := by
    unfold maxFrame at small
    omega
  unfold encodeFrame Frame.encode serverFrame Frame.lengthField shortest
  by_cases short : payload.length < 126
  · simp only [if_pos short, Option.isSome_none, lengthOctet short]
    rfl
  · simp only [if_neg short, if_pos bound]
    rfl

/-- A pong is well formed when the ping was. -/
theorem encodePong_eq {payload : List Octet} (small : payload.length ≤ 125) :
    encodePong payload = (serverFrame 10 payload).encode := by
  have short : payload.length < 126 := by omega
  unfold encodePong Frame.encode serverFrame Frame.lengthField shortest
  simp only [if_pos short, Option.isSome_none, lengthOctet short]
  rfl

theorem fromServer_message {data : List Octet} : (serverFrame 2 data).FromServer :=
  ⟨rfl, rfl, rfl, rfl, .inl rfl⟩

theorem fromServer_pong {data : List Octet} (small : data.length ≤ 125) :
    (serverFrame 10 data).FromServer :=
  ⟨rfl, rfl, rfl, rfl, .inr ⟨rfl, small⟩⟩

/-! ## Taking one frame -/

theorem map_byteAt {off w : Nat} (inside : off + w ≤ buf.length) :
    ((List.range w).map fun i => byteAt buf (off + i)) = (buf.drop off).take w := by
  refine List.ext_getElem (by simp; omega) fun i left right => ?_
  have : off + i < buf.length := by simp at left; omega
  simp [byteAt, List.getD_eq_getElem?_getD, this]

/-- The integers of the header, as they are decoded. -/
theorem foldl_byteAt (buf : List Octet) (off : Nat) {w : Nat} (inside : off + w ≤ buf.length) :
    (List.range w).foldl (fun n i => n * 256 + (byteAt buf (off + i)).toNat) 0 =
      ofBigEndian ((buf.drop off).take w) := by
  rw [← map_byteAt inside, ofBigEndian, List.foldl_map]

/-- The mask, applied in place. -/
theorem map_unmask (buf : List Octet) (off : Nat) {len : Nat} (key : Key) {data : List Octet}
    (more : List Octet) (size : data.length = len)
    (tail : buf.drop off = key.toList ++ data ++ more) :
    ((List.range len).map fun i =>
      byteAt buf (off + 4 + i) ^^^ byteAt ((buf.drop off).take 4) (i &&& 3)) =
      applyKey key data := by
  refine List.ext_getElem (by simp [size]) fun i left right => ?_
  have inside : i < data.length := by simpa using right
  have low : i &&& 3 = i % 4 := Nat.and_two_pow_sub_one_eq_mod i 2
  have keyLength : key.toList.length = 4 := by simp
  have at_ : buf[off + 4 + i]? = some data[i] := by
    have := congrArg (·[4 + i]?) tail
    simp only [List.getElem?_drop, List.append_assoc] at this
    rw [Nat.add_assoc, this, List.getElem?_append_right (by omega), keyLength,
      Nat.add_sub_cancel_left, List.getElem?_append_left inside,
      List.getElem?_eq_getElem inside]
  have maskAt : ((buf.drop off).take 4)[i % 4]? = some (key.get (Fin.ofNat 4 i)) := by
    have first : (buf.drop off).take 4 = key.toList := by
      rw [tail, List.append_assoc, List.take_append_of_le_length (by omega),
        List.take_of_length_le (by omega)]
    rw [first, List.getElem?_eq_getElem (by omega)]
    rfl
  simp only [List.getElem_map, List.getElem_range, byteAt, low, List.getD_eq_getElem?_getD, at_,
    maskAt, Option.getD_some, applyKey, List.getElem_mapIdx]

/-- The decoder's reading of a masked payload of `len` octets. -/
def readMasked (len : Nat) (octets : List Octet) : Option (Option Key × List Octet × List Octet) :=
  (decodeKey true octets).bind fun keyed =>
    (splitOff len keyed.2).map fun split => (keyed.1, split.1, split.2)

/-- What the checks on a frame leave. -/
inductive PayloadCase (buf : List Octet) (fin : Bool) (op : Nat) (masked : Bool) (len off : Nat) :
    Taken → Prop
  | close (why : String) (bad : masked = false ∨ maxFrame < len) :
      PayloadCase buf fin op masked len off (.close why)
  | wait (good : masked = true) (short : readMasked len (buf.drop off) = none) :
      PayloadCase buf fin op masked len off .wait
  | frame {key : Key} {data rest : List Octet} (good : masked = true) (small : len ≤ maxFrame)
      (size : data.length = len)
      (read : readMasked len (buf.drop off) = some (some key, data, rest)) :
      PayloadCase buf fin op masked len off (.frame fin op (applyKey key data) rest)

theorem payloadCase (buf : List Octet) (fin : Bool) (op : Nat) (masked : Bool) (len off : Nat) :
    PayloadCase buf fin op masked len off (takePayload buf fin op masked len off) := by
  unfold takePayload
  split
  · exact .close _ (.inr ‹_›)
  split
  · exact .close _ (.inl (by simpa using ‹(!masked) = true›))
  have good : masked = true := by simpa using ‹¬ (!masked) = true›
  split
  · rename_i short
    refine .wait good ?_
    rcases tail : buf.drop off with _ | ⟨a, _ | ⟨b, _ | ⟨c, _ | ⟨d, data⟩⟩⟩⟩ <;> try rfl
    have size := congrArg List.length tail
    simp only [List.length_drop, List.length_cons] at size
    have few : ¬ len ≤ data.length := by omega
    simp only [readMasked, decodeKey, if_true, Option.bind_some, splitOff, if_neg few,
      Option.map_none]
  · rename_i enough
    have size : (buf.drop off).length = buf.length - off := List.length_drop
    rcases tail : buf.drop off with _ | ⟨a, _ | ⟨b, _ | ⟨c, _ | ⟨d, data⟩⟩⟩⟩ <;>
      rw [tail] at size <;> simp only [List.length_cons, List.length_nil] at size <;> try omega
    have fits : len ≤ data.length := by omega
    have cut : (data.take len).length = len := List.length_take_of_le fits
    have unmask := map_unmask buf off #v[a, b, c, d] (data.drop len) cut (by rw [tail]; simp)
    have rest : buf.drop (off + 4 + len) = data.drop len := by
      rw [← List.drop_drop, ← List.drop_drop, tail]
      rfl
    rw [tail] at unmask
    dsimp only
    rw [unmask, rest]
    refine .frame good (by omega) cut ?_
    rw [tail]
    simp only [readMasked, decodeKey, if_true, Option.bind_some, splitOff, if_pos fits,
      Option.map_some]

theorem header_bits (b : Octet) :
    (b &&& 0x80 != 0) = b.msb ∧ (b &&& 0x0f).toNat = (b.extractLsb' 0 4).toNat ∧
      (b &&& 0x7f).toNat = (b.extractLsb' 0 7).toNat := by
  revert b
  decide +kernel

/-- The parser reads the length as the decoder does, and goes on to the payload. -/
theorem takeFrame_eq (head length : Octet) (tail : List Octet) :
    takeFrame (head :: length :: tail) =
      match decodeLength (length.extractLsb' 0 7).toNat tail with
      | none => .wait
      | some (sized, _) =>
        takePayload (head :: length :: tail) head.msb (head.extractLsb' 0 4).toNat length.msb
          sized.2 (2 + sized.1.octets) := by
  obtain ⟨fin, op, _⟩ := header_bits head
  obtain ⟨masked, _, len⟩ := header_bits length
  have long : ¬ (head :: length :: tail).length < 2 := by simp
  unfold takeFrame
  rw [if_neg long]
  simp only [show byteAt (head :: length :: tail) 0 = head from rfl,
    show byteAt (head :: length :: tail) 1 = length from rfl, fin, op, masked, len]
  have small : (length.extractLsb' 0 7).toNat < 128 := (length.extractLsb' 0 7).isLt
  have extended (w : Nat) (enough : w ≤ tail.length) :
      (List.range w).foldl (fun n i =>
        n * 256 + (byteAt (head :: length :: tail) (2 + i)).toNat) 0 =
        ofBigEndian (tail.take w) :=
    foldl_byteAt (head :: length :: tail) 2 (by simp; omega)
  generalize (length.extractLsb' 0 7).toNat = field at small
  unfold decodeLength
  by_cases short : field < 126
  · rw [if_neg (by omega), if_neg (by omega), if_pos short]
    rfl
  rw [if_neg short]
  by_cases medium : field = 126
  · rw [if_pos medium, if_pos medium, splitOff]
    by_cases enough : 2 ≤ tail.length
    · rw [if_neg (by simp; omega), if_pos enough, readUInt16BE, extended 2 enough]
      rfl
    · rw [if_pos (by simp; omega), if_neg enough]
      rfl
  · rw [if_neg medium, if_pos (by omega), if_neg medium, splitOff]
    by_cases enough : 8 ≤ tail.length
    · rw [if_neg (by simp; omega), if_pos enough, readBigUInt64BE, extended 8 enough]
      simp only [Option.map_some, LengthForm.octets]
      split
      · rw [takePayload, if_pos ‹_›]
      · rfl
    · rw [if_pos (by simp; omega), if_neg enough]
      rfl

/-- What the parser makes of a buffer, in terms of the decoder. -/
inductive TakenCase (buf : List Octet) : Taken → Prop
  | wait (short : decode buf = none) : TakenCase buf .wait
  | close (why : String)
      (bad : ∀ more f rest, decode (buf ++ more) = some (f, rest) →
        f.key = none ∨ maxFrame < f.payload.length) : TakenCase buf (.close why)
  | frame {f : Frame} {rest : List Octet} (read : decode buf = some (f, rest))
      (masked : f.key.isSome) (small : f.payload.length ≤ maxFrame) :
      TakenCase buf (.frame f.fin f.opcode.toNat f.payload rest)

theorem takenCase (buf : List Octet) : TakenCase buf (takeFrame buf) := by
  rcases buf with _ | ⟨head, _ | ⟨length, tail⟩⟩
  · exact .wait rfl
  · exact .wait rfl
  rw [takeFrame_eq]
  cases sizeRead : decodeLength (length.extractLsb' 0 7).toNat tail with
  | none => exact .wait (by rw [decode, sizeRead, Option.bind_none])
  | some found =>
    obtain ⟨⟨form, len⟩, rest⟩ := found
    have restEq : (head :: length :: tail).drop (2 + form.octets) = rest := by
      rw [rest_of_decodeLength sizeRead, Nat.add_comm]
      rfl
    have outcome := payloadCase (head :: length :: tail) head.msb (head.extractLsb' 0 4).toNat
      length.msb len (2 + form.octets)
    dsimp only
    generalize takePayload (head :: length :: tail) head.msb (head.extractLsb' 0 4).toNat
      length.msb len (2 + form.octets) = taken at outcome ⊢
    cases outcome with
    | close why bad =>
      refine .close why fun more f rest' read => ?_
      rw [List.cons_append, List.cons_append, decode,
        decodeLength_append sizeRead more, Option.bind_some] at read
      obtain ⟨⟨key, afterKey⟩, keyRead, read⟩ := Option.bind_eq_some_iff.mp read
      obtain ⟨⟨data, back⟩, dataRead, same⟩ := Option.map_eq_some_iff.mp read
      cases same
      refine bad.imp (fun unmasked => ?_) fun large => ?_
      · rw [unmasked] at keyRead
        exact (Prod.mk.inj (Option.some.inj keyRead)).1.symm
      · have size := length_left_of_splitOff dataRead
        cases key <;> simp only [Option.elim_none, Option.elim_some, length_applyKey, size, large]
    | wait good short =>
      refine .wait ?_
      rw [restEq] at short
      rw [decode, sizeRead, Option.bind_some, good]
      obtain none_ | ⟨keyed, keyRead⟩ := (decodeKey true rest).eq_none_or_eq_some
      · rw [none_, Option.bind_none]
      · rw [readMasked, keyRead, Option.bind_some, Option.map_eq_none_iff] at short
        rw [keyRead, Option.bind_some, Option.map_eq_none_iff]
        exact short
    | @frame key _ _ good small size read =>
      rw [restEq] at read
      obtain ⟨⟨_, afterKey⟩, keyRead, read⟩ := Option.bind_eq_some_iff.mp read
      obtain ⟨⟨data, back⟩, dataRead, same⟩ := Option.map_eq_some_iff.mp read
      cases same
      refine .frame (f := ⟨head.msb, head.extractLsb' 4 3, head.extractLsb' 0 4, some key, form,
        applyKey key data⟩) ?_ rfl (by simpa [size] using small)
      rw [decode, sizeRead, Option.bind_some, good, keyRead, Option.bind_some, dataRead]
      rfl

/-! ## One pass of the loop -/

/-- The unfinished message of a parser. -/
def Parser.pending (p : Parser) : Option (List Octet) :=
  if p.msgOp = 0 then none else some p.msg.flatten

/-- What one pass makes of the buffer, in terms of the protocol. -/
inductive TurnCase (p : Parser) : Turn → Prop
  | wait (short : decode p.buf = none) : TurnCase p .wait
  | close (why : String)
      (ended : ∀ more, events maxFrame p.pending (frames (p.buf ++ more)) = []) :
      TurnCase p (.close why)
  | next {f : Frame} {q : Parser} {event : Option Event} (read : decode p.buf = some (f, q.buf))
      (goesOn : f.kind ≠ some .close)
      (unlooked : ∀ v, f.violation maxFrame p.pending.isSome = some v → refused v = false)
      (right : f.violation maxFrame p.pending.isSome = none →
        event = (f.yields p.pending).filter deliverable ∧ q.pending = f.after p.pending) :
      TurnCase p (.next q event)

theorem events_of_violation {pending : Option (List Octet)}
    (bad : f.violation maxFrame pending.isSome ≠ none ∨ f.kind = some .close) :
    events maxFrame pending (f :: fs) = [] := by
  rw [events, if_neg]
  exact fun both => bad.elim (· both.1) (both.2 ·)

/-- With a mask and in size, only the opcode and what it calls for is left. -/
theorem violation_of_kind {opened : Bool} (masked : f.key.isSome)
    (small : f.payload.length ≤ maxFrame) {kind : Kind} (known : f.kind = some kind) :
    f.violation maxFrame opened =
      if kind = .continuation ∧ opened = false then some .strayContinuation
      else if f.rsv ≠ 0 then some .reservedBits
      else if f.form ≠ shortest f.payload.length then some .longForm
      else if kind.control ∧ f.fin = false then some .fragmentedControl
      else if kind.control ∧ 125 < f.payload.length then some .longControl
      else if kind = .data ∧ opened then some .interrupted
      else none := by
  have unmasked : ¬ f.key.isNone := by
    rw [← Option.not_isSome]
    simp [masked]
  rw [Frame.violation, if_neg unmasked, if_neg (by omega), known]

/-- A stray continuation apart, the parser does not look for what is wrong. -/
theorem refused_of_kind {opened : Bool} (masked : f.key.isSome)
    (small : f.payload.length ≤ maxFrame) {kind : Kind} (known : f.kind = some kind)
    (held : kind = .continuation → opened = true) (v : Violation)
    (bad : f.violation maxFrame opened = some v) : refused v = false := by
  rw [violation_of_kind masked small known] at bad
  rw [if_neg (by rintro ⟨continues, closed⟩; simp [held continues] at closed)] at bad
  repeat' split at bad
  all_goals cases bad
  all_goals rfl

theorem wholeOf_eq (msg : List (List Octet)) : wholeOf msg = msg.flatten := by
  unfold wholeOf
  split
  · exact List.flatten_singleton.symm
  · rfl

theorem finish_eq (p : Parser) (fin : Bool) (started : p.msgOp ≠ 0) :
    ∃ q : Parser, q.buf = p.buf ∧
      q.pending = (if fin then none else some p.msg.flatten) ∧
      p.finish fin = .next q
        (Option.filter deliverable (if fin then some (.message p.msg.flatten) else none)) := by
  cases fin with
  | true =>
    refine ⟨{ p with msg := [], msgOp := 0 }, rfl, rfl, ?_⟩
    simp only [Parser.finish, wholeOf_eq, if_true, Option.filter, deliverable, Bool.and_eq_true,
      decide_eq_true_eq]
  | false =>
    refine ⟨p, rfl, ?_, rfl⟩
    rw [Parser.pending, if_neg started]
    rfl

theorem turnCase (p : Parser) : TurnCase p p.turn := by
  have taken := takenCase p.buf
  unfold Parser.turn
  generalize takeFrame p.buf = outcome at taken ⊢
  cases taken with
  | wait short => exact .wait short
  | close why bad =>
    refine .close why fun more => ?_
    cases read : decode (p.buf ++ more) with
    | none => rw [frames_of_none read, events]
    | some found =>
      obtain ⟨f, rest⟩ := found
      rw [frames_of_some read]
      apply events_of_violation
      refine .inl ?_
      unfold Frame.violation
      rcases bad more f rest read with unmasked | large
      · rw [unmasked]
        simp
      · split
        · simp
        · simp
  | @frame f rest read masked small =>
    have first (more : List Octet) : frames (p.buf ++ more) = f :: frames (rest ++ more) :=
      frames_of_some (decode_append read more)
    have data (op : Nat) (known : f.kind = some .data) (started : op ≠ 0) :
        TurnCase p ({ buf := rest, msg := [f.payload], msgOp := op : Parser }.finish f.fin) := by
      obtain ⟨q, bufEq, pendingEq, finished⟩ := finish_eq
        { buf := rest, msg := [f.payload], msgOp := op } f.fin started
      rw [finished]
      refine .next (by rw [read, bufEq]) (by simp [known])
        (refused_of_kind masked small known (by simp)) fun fine => ?_
      have none_ : p.pending = none := by
        rw [violation_of_kind masked small known] at fine
        cases pending : p.pending with
        | none => rfl
        | some fragments =>
          rw [pending, if_neg (by simp), Option.isSome_some] at fine
          simp only [and_self, if_true] at fine
          repeat' split at fine
          all_goals cases fine
      rw [Frame.yields, Frame.after, known, none_, pendingEq]
      simp
    dsimp only
    split
    · rename_i opcode
      have known : f.kind = some .continuation := by simp only [Frame.kind, opcode]
      by_cases closed : p.msgOp = 0
      · rw [if_pos closed]
        refine .close _ fun more => ?_
        rw [first]
        apply events_of_violation
        rw [violation_of_kind masked small known, Parser.pending, if_pos closed]
        exact .inl (by simp)
      · rw [if_neg closed]
        obtain ⟨q, bufEq, pendingEq, finished⟩ := finish_eq
          { p with buf := rest, msg := p.msg ++ [f.payload] } f.fin closed
        have pending : p.pending = some p.msg.flatten := by rw [Parser.pending, if_neg closed]
        rw [finished]
        refine .next (by rw [read, bufEq]) (by simp [known])
          (refused_of_kind masked small known fun _ => by simp [pending]) fun _ => ?_
        rw [Frame.yields, Frame.after, known, pending, pendingEq]
        simp
    · rename_i opcode
      exact data _ (by simp only [Frame.kind, opcode]) (by omega)
    · rename_i opcode
      exact data _ (by simp only [Frame.kind, opcode]) (by omega)
    · rename_i opcode
      refine .close _ fun more => ?_
      rw [first]
      apply events_of_violation
      exact .inr (by simp only [Frame.kind, opcode])
    · rename_i opcode
      have known : f.kind = some .ping := by simp only [Frame.kind, opcode]
      refine .next read (by simp [known]) (refused_of_kind masked small known (by simp))
        fun _ => ?_
      rw [Frame.yields, Frame.after, known]
      exact ⟨rfl, rfl⟩
    · rename_i opcode
      have known : f.kind = some .pong := by simp only [Frame.kind, opcode]
      refine .next read (by simp [known]) (refused_of_kind masked small known (by simp))
        fun _ => ?_
      rw [Frame.yields, Frame.after, known]
      exact ⟨rfl, rfl⟩
    · rename_i not0 not1 not2 not8 not9 not10
      refine .close _ fun more => ?_
      rw [first]
      apply events_of_violation
      have unknown : f.kind = none := by
        unfold Frame.kind
        split <;> first | rfl | contradiction
      have unmasked : ¬ f.key.isNone := by simp [← Option.not_isSome, masked]
      rw [Frame.violation, if_neg unmasked, if_neg (by omega), unknown]
      exact .inl (by simp)

/-! ## The log -/

/-- An event whose reply is well formed. -/
def Sound : Event → Prop
  | .message data => data.length ≤ maxFrame
  | .ping data => data.length ≤ 125

/-- A frame with nothing wrong completes only what has a well-formed reply. -/
theorem sound_of_yields {pending : Option (List Octet)} {e : Event}
    (fine : f.violation maxFrame pending.isSome = none)
    (yielded : (f.yields pending).filter deliverable = some e) : Sound e := by
  obtain ⟨yielded, asked⟩ := Option.filter_eq_some_iff.mp yielded
  cases e with
  | message data =>
    simp only [deliverable, Bool.and_eq_true, decide_eq_true_eq] at asked
    exact asked.2
  | ping data =>
    unfold Frame.yields at yielded
    split at yielded
    · split at yielded <;> cases yielded
    · split at yielded <;> cases yielded
    · rename_i known
      cases yielded
      exact length_of_control known rfl fine
    · cases yielded

/-- The bytes of the reply to an event. -/
def replyBytes (d : Nat) (x : Nat × Event) : List Octet :=
  wire (reply d x).toList

/-- A socket that can be written to receives its reply. -/
def Socket.hears (d : Nat) (x : Nat × Event) (s : Socket) : Socket :=
  if s.left = none then { s with written := s.written ++ replyBytes d x } else s

/-- The flags of a socket before and after it is shut. -/
structure Flags (s : Socket) : Prop where
  live : s.left = none → s.member = true ∧ s.destroyed = false ∧ s.gone = false
  shut : s.left ≠ none → s.destroyed = true

/-- A socket has been written the replies to the log since it joined. -/
structure Wrote (log : List (Nat × Event)) (c : Nat) (s : Socket) : Prop where
  flags : Flags s
  joined : s.joined ≤ s.left.getD log.length
  bound : s.left.getD log.length ≤ log.length
  written : s.written = wire ((s.span log).filterMap (reply c))

variable {log : List (Nat × Event)} {c d : Nat} {s : Socket} {x : Nat × Event} {h h' : Hub}

theorem span_concat_of_live (live : s.left = none) (joined : s.joined ≤ log.length) :
    s.span (log ++ [x]) = s.span log ++ [x] := by
  simp only [Socket.span, live, Option.getD_none, List.take_length]
  exact List.drop_append_of_le_length joined

theorem span_concat_of_shut {n : Nat} (shut : s.left = some n) (bound : n ≤ log.length) :
    s.span (log ++ [x]) = s.span log := by
  simp only [Socket.span, shut, Option.getD_some, List.take_append_of_le_length bound]

theorem hears_of_live (live : s.left = none) :
    s.hears d x = { s with written := s.written ++ replyBytes d x } :=
  if_pos live

theorem hears_of_shut (shut : s.left ≠ none) : s.hears d x = s :=
  if_neg shut

theorem Wrote.hears (wrote : Wrote log d s) : Wrote (log ++ [x]) d (s.hears d x) := by
  have joined := wrote.joined
  have bound := wrote.bound
  obtain left | ⟨n, left⟩ := s.left.eq_none_or_eq_some
  · rw [hears_of_live left]
    rw [left, Option.getD_none] at joined
    refine ⟨⟨wrote.flags.live, wrote.flags.shut⟩, ?_, ?_, ?_⟩
    · simp only [left, Option.getD_none, List.length_append]
      omega
    · simp only [left, Option.getD_none, Nat.le_refl]
    · have span : ({ s with written := s.written ++ replyBytes d x } : Socket).span (log ++ [x]) =
          s.span log ++ [x] := span_concat_of_live left joined
      rw [span, List.filterMap_append, wire_append, ← wrote.written, replyBytes]
      cases replied : reply d x <;> simp [replied]
  · rw [hears_of_shut (by simp [left])]
    rw [left, Option.getD_some] at joined bound
    refine ⟨wrote.flags, ?_, ?_, ?_⟩
    · simpa [left] using joined
    · simp only [left, Option.getD_some, List.length_append]
      omega
    · rw [span_concat_of_shut left bound, wrote.written]

/-- What the hub does with an event reaches every socket as its reply. -/
theorem emit_sockets (flags : ∀ d s, h.sockets d = some s → Flags s)
    (live : ∀ s, h.sockets c = some s → s.left = none) {e : Event} (sound : Sound e) (d : Nat) :
    (h.emit c (some e)).sockets d = (h.sockets d).map (Socket.hears d (c, e)) := by
  cases at_ : h.sockets d with
  | none => cases e <;> simp [Hub.emit, Hub.broadcast, Hub.update, at_]
  | some s =>
    have flag := flags d s at_
    cases e with
    | message data =>
      have small : data.length ≤ maxFrame := sound
      simp only [Hub.emit, Hub.broadcast, at_, Option.map_some]
      obtain left | ⟨n, left⟩ := s.left.eq_none_or_eq_some
      · obtain ⟨member, kept, -⟩ := flag.live left
        rw [hears_of_live left]
        by_cases own : c = d
        · subst own
          simp [replyBytes, reply, wire]
        · simp [member, kept, Ne.symm own, own, replyBytes, reply, wire, encodeFrame_eq small]
      · have shut : s.left ≠ none := by simp [left]
        rw [hears_of_shut shut]
        simp [flag.shut shut]
    | ping data =>
      have small : data.length ≤ 125 := sound
      simp only [Hub.emit, Hub.update, at_, Option.map_some]
      by_cases own : d = c
      · subst own
        rw [if_pos rfl, hears_of_live (live s at_)]
        simp [replyBytes, reply, wire, encodePong_eq small]
      · have other : ¬ c = d := fun same => own same.symm
        rw [if_neg own]
        simp [Socket.hears, replyBytes, reply, wire, other]

/-! ## The invariant -/

/-- What has been passed on from a socket is what its client has asked, the unread bytes apart. -/
structure Heard (passed : List Event) (s : Socket) : Prop where
  reads : s.left = none → ∀ more, asked (s.sent ++ more) = passed ++
    (events maxFrame s.parser.pending (frames (s.parser.buf ++ more))).filter deliverable
  faults : s.left = none → ∀ more, firstViolation maxFrame none (frames (s.sent ++ more)) =
    firstViolation maxFrame s.parser.pending (frames (s.parser.buf ++ more))
  ended : s.left ≠ none → ∀ more, (s.gone = true → more = []) → asked (s.sent ++ more) = passed

structure Kept (h : Hub) : Prop where
  sound : ∀ x ∈ h.log, Sound x.2
  known : ∀ x ∈ h.log, h.sockets x.1 ≠ none
  wrote : ∀ d s, h.sockets d = some s → Wrote h.log d s
  heard : ∀ d s, h.sockets d = some s → Heard (passedOn d h.log) s

/-- Every other open socket waits for the rest of a frame. -/
def IdleBut (c : Nat) (h : Hub) : Prop :=
  ∀ d s, h.sockets d = some s → d ≠ c → s.left = none → decode s.parser.buf = none

def Idle (h : Hub) : Prop :=
  ∀ d s, h.sockets d = some s → s.left = none → decode s.parser.buf = none

theorem update_self (change : Socket → Socket) (at_ : h.sockets c = some s) :
    (h.update c change).sockets c = some (change s) := by
  simp only [Hub.update, if_pos, at_, Option.map_some]

theorem update_of_ne (change : Socket → Socket) (other : d ≠ c) :
    (h.update c change).sockets d = h.sockets d := by
  simp only [Hub.update, if_neg other]

/-- A change of one socket that keeps its part of the invariant. -/
theorem Kept.update (kept : Kept h) {change : Socket → Socket} (at_ : h.sockets c = some s)
    (wrote : Wrote h.log c (change s)) (heard : Heard (passedOn c h.log) (change s)) :
    Kept (h.update c change) := by
  refine ⟨kept.sound, fun x logged => ?_, fun d t there => ?_, fun d t there => ?_⟩
  · by_cases own : x.1 = c
    · rw [own, update_self change at_]
      simp
    · rw [update_of_ne change own]
      exact kept.known x logged
  · by_cases own : d = c
    · subst own
      rw [update_self change at_] at there
      cases there
      exact wrote
    · rw [update_of_ne change own] at there
      exact kept.wrote d t there
  · by_cases own : d = c
    · subst own
      rw [update_self change at_] at there
      cases there
      exact heard
    · rw [update_of_ne change own] at there
      exact kept.heard d t there

theorem passedOn_concat (c d : Nat) (log : List (Nat × Event)) (e : Event) :
    passedOn d (log ++ [(c, e)]) = passedOn d log ++ (if c = d then [e] else []) := by
  unfold passedOn
  rw [List.filterMap_append]
  by_cases own : c = d <;> simp [own]

/-- A sound frame taken from the buffer is passed on. -/
theorem Heard.turn {passed : List Event} (heard : Heard passed s) (live : s.left = none)
    (read : decode s.parser.buf = some (f, q.buf)) (goesOn : f.kind ≠ some .close)
    (fine : f.violation maxFrame s.parser.pending.isSome = none)
    (pending : q.pending = f.after s.parser.pending) :
    Heard (passed ++ ((f.yields s.parser.pending).filter deliverable).toList)
      { s with parser := q } := by
  have first (more : List Octet) : frames (s.parser.buf ++ more) = f :: frames (q.buf ++ more) :=
    frames_of_some (decode_append read more)
  refine ⟨fun _ more => ?_, fun _ more => ?_, fun shut => absurd live shut⟩
  · rw [heard.reads live, first, events, if_pos ⟨fine, goesOn⟩, List.filter_append,
      ← Option.toList_filter, ← pending, List.append_assoc]
  · rw [heard.faults live, first, firstViolation, if_pos ⟨fine, goesOn⟩, ← pending]

/-- More bytes have come. -/
theorem Heard.receive {passed : List Event} (heard : Heard passed s) (live : s.left = none)
    (chunk : List Octet) :
    Heard passed { s with sent := s.sent ++ chunk
                          parser := { s.parser with buf := s.parser.buf ++ chunk } } := by
  refine ⟨fun _ more => ?_, fun _ more => ?_, fun shut => absurd live shut⟩
  · have := heard.reads live (chunk ++ more)
    rw [← List.append_assoc, ← List.append_assoc] at this
    exact this
  · have := heard.faults live (chunk ++ more)
    rw [← List.append_assoc, ← List.append_assoc] at this
    exact this

theorem Heard.hears {passed : List Event} (heard : Heard passed s) :
    Heard passed (s.hears d x) := by
  unfold Socket.hears
  split
  · exact ⟨heard.reads, heard.faults, heard.ended⟩
  · exact heard

/-- What hearing a reply leaves alone. -/
structure SameInput (s t : Socket) : Prop where
  parser : t.parser = s.parser
  sent : t.sent = s.sent
  left : t.left = s.left

theorem sameInput_hears : SameInput s (s.hears d x) := by
  unfold Socket.hears
  split <;> exact ⟨rfl, rfl, rfl⟩

/-- One pass over a sound frame. -/
theorem Kept.turn (kept : Kept h) (at_ : h.sockets c = some s) (live : s.left = none)
    (read : decode s.parser.buf = some (f, q.buf)) (goesOn : f.kind ≠ some .close)
    (fine : f.violation maxFrame s.parser.pending.isSome = none)
    (pending : q.pending = f.after s.parser.pending) {event : Option Event}
    (yields : event = (f.yields s.parser.pending).filter deliverable) :
    let h' := (h.update c fun s => { s with parser := q }).emit c event
    Kept h' ∧ (∃ t, h'.sockets c = some t ∧ SameInput { s with parser := q } t) ∧
      ∀ d t, h'.sockets d = some t → d ≠ c → ∃ t', h.sockets d = some t' ∧ SameInput t' t := by
  have heard := (kept.heard c s at_).turn live read goesOn fine pending
  have wrote : Wrote h.log c { s with parser := q } := by
    have before := kept.wrote c s at_
    exact ⟨⟨before.flags.live, before.flags.shut⟩, before.joined, before.bound, before.written⟩
  rw [← yields] at heard
  have self := update_self (fun s => { s with parser := q }) at_
  cases event with
  | none =>
    rw [Option.toList_none, List.append_nil] at heard
    refine ⟨kept.update at_ wrote heard, ⟨_, self, rfl, rfl, rfl⟩, fun d t there other => ?_⟩
    rw [Hub.emit, update_of_ne _ other] at there
    exact ⟨t, there, rfl, rfl, rfl⟩
  | some e =>
    have flags : ∀ d t, (h.update c fun s => { s with parser := q }).sockets d = some t →
        Flags t := fun d t there => by
      by_cases own : d = c
      · subst own
        rw [self] at there
        cases there
        exact wrote.flags
      · rw [update_of_ne _ own] at there
        exact (kept.wrote d t there).flags
    have sockets := emit_sockets flags
      (fun t there => by
        rw [self] at there
        cases there
        exact live)
      (sound_of_yields fine yields.symm)
    have logEq : ((h.update c fun s => { s with parser := q }).emit c (some e)).log =
        h.log ++ [(c, e)] := by
      cases e <;> rfl
    have back (d : Nat) (t : Socket) (other : d ≠ c)
        (there : ((h.update c fun s => { s with parser := q }).emit c (some e)).sockets d =
          some t) : ∃ t', h.sockets d = some t' ∧ t = t'.hears d (c, e) := by
      rw [sockets, update_of_ne _ other] at there
      obtain ⟨t', before, rfl⟩ := Option.map_eq_some_iff.mp there
      exact ⟨t', before, rfl⟩
    have own_ : ((h.update c fun s => { s with parser := q }).emit c (some e)).sockets c =
        some (Socket.hears c (c, e) { s with parser := q }) := by
      rw [sockets, self, Option.map_some]
    refine ⟨⟨fun x logged => ?_, fun x logged => ?_, fun d t there => ?_, fun d t there => ?_⟩,
      ⟨_, own_, sameInput_hears⟩, fun d t there other => ?_⟩
    · rw [logEq] at logged
      rcases List.mem_append.mp logged with before | new
      · exact kept.sound x before
      · rw [List.mem_singleton.mp new]
        exact sound_of_yields fine yields.symm
    · rw [logEq] at logged
      by_cases own : x.1 = c
      · rw [own, own_]
        simp
      · rw [sockets, update_of_ne _ own]
        rcases List.mem_append.mp logged with before | new
        · simpa using kept.known x before
        · exact absurd (congrArg Prod.fst (List.mem_singleton.mp new)) own
    · rw [logEq]
      by_cases own : d = c
      · subst own
        rw [own_] at there
        cases there
        exact wrote.hears
      · obtain ⟨t', before, rfl⟩ := back d t own there
        exact (kept.wrote d t' before).hears
    · rw [logEq, passedOn_concat]
      by_cases own : d = c
      · subst own
        rw [own_] at there
        cases there
        rw [if_pos rfl]
        exact heard.hears
      · obtain ⟨t', before, rfl⟩ := back d t own there
        rw [if_neg (fun same => own same.symm), List.append_nil]
        exact (kept.heard d t' before).hears
    · obtain ⟨t', before, rfl⟩ := back d t other there
      exact ⟨t', before, sameInput_hears⟩

/-- The socket shuts, and its client asks for nothing more. -/
theorem Kept.shut (kept : Kept h) (at_ : h.sockets c = some s) {change : Socket → Socket}
    (destroyed : (change s).destroyed = true) (left : (change s).left = s.left.or
      (some h.log.length))
    (joined : (change s).joined = s.joined) (written : (change s).written = s.written)
    (ended : ∀ more, ((change s).gone = true → more = []) →
      asked ((change s).sent ++ more) = passedOn c h.log) :
    Kept (h.update c change) := by
  have before := kept.wrote c s at_
  have span : (change s).span h.log = s.span h.log := by
    unfold Socket.span
    rw [left, joined]
    cases s.left <;> rfl
  have shutNow : (change s).left ≠ none := by
    rw [left]
    cases s.left <;> simp
  refine kept.update at_ ⟨⟨fun open_ => absurd open_ shutNow, fun _ => destroyed⟩, ?_, ?_, ?_⟩
    ⟨fun open_ => absurd open_ shutNow, fun open_ => absurd open_ shutNow, fun _ => ended⟩
  · have := before.joined
    rw [left, joined]
    cases at' : s.left <;> simpa [at'] using this
  · have := before.bound
    rw [left]
    cases at' : s.left with
    | none => exact Nat.le_refl _
    | some n => simpa [at'] using this
  · rw [span, written, before.written]

/-- The loop passes on what the buffer asks, and stops at a violation or for want of bytes. -/
theorem Kept.pump {fuel : Nat} (kept : Kept h) (idle : IdleBut c h)
    (at_ : h.sockets c = some s) (live : s.left = none) (strict : Strict s.sent)
    (enough : s.parser.buf.length < fuel) :
    Kept (h.pump fuel c) ∧ Idle (h.pump fuel c) := by
  induction fuel generalizing h s with
  | zero => omega
  | succ fuel ih =>
    have heard := kept.heard c s at_
    have turned := turnCase s.parser
    simp only [Hub.pump, at_]
    generalize s.parser.turn = outcome at turned ⊢
    cases turned with
    | wait short =>
      refine ⟨kept, fun d t there open_ => ?_⟩
      by_cases own : d = c
      · subst own
        rw [at_] at there
        cases there
        exact short
      · exact idle d t there own open_
    | close why ended =>
      obtain ⟨member, -, -⟩ := (kept.wrote c s at_).flags.live live
      have changed (t : Socket) (there : (h.close c why).sockets c = some t) : t.left ≠ none := by
        rw [Hub.close, update_self _ at_] at there
        cases there
        simp [member]
      refine ⟨kept.shut at_ ?_ ?_ ?_ ?_ fun more _ => ?_, fun d t there open_ => ?_⟩
      · rw [if_pos member]
      · rw [if_pos member]
      · rw [if_pos member]
      · rw [if_pos member]
      · rw [if_pos member, heard.reads live, ended, List.filter_nil, List.append_nil]
      · by_cases own : d = c
        · subst own
          exact absurd open_ (changed t there)
        · exact idle d t ((update_of_ne _ own).symm.trans there) own open_
    | @next f q event read goesOn unlooked right =>
      have fine : f.violation maxFrame s.parser.pending.isSome = none := by
        cases bad : f.violation maxFrame s.parser.pending.isSome with
        | none => rfl
        | some v =>
          have first := heard.faults live []
          rw [List.append_nil, List.append_nil, frames_of_some read, firstViolation, bad,
            if_neg (by simp)] at first
          have looked := strict v first
          rw [unlooked v bad] at looked
          cases looked
      obtain ⟨yields, pending⟩ := right fine
      obtain ⟨kept', ⟨t, there, same⟩, others⟩ :=
        kept.turn at_ live read goesOn fine pending yields
      have shorter := length_of_decode read
      refine ih kept' (fun d t' there' other open_ => ?_) there (same.left.trans live) ?_ ?_
      · obtain ⟨t, before, same⟩ := others d t' there' other
        rw [same.parser]
        exact idle d t before other (same.left ▸ open_)
      · rw [same.sent]
        exact strict
      · rw [same.parser]
        change q.buf.length < fuel
        omega

theorem idle_update {change : Socket → Socket} (idle : Idle h) (at_ : h.sockets c = some s)
    (shut : (change s).left ≠ none) : Idle (h.update c change) := by
  intro d t there open_
  by_cases own : d = c
  · subst own
    rw [update_self change at_] at there
    cases there
    exact absurd open_ shut
  · rw [update_of_ne change own] at there
    exact idle d t there open_

/-- The client leaves, or its connection fails. -/
theorem Kept.ends (kept : Kept h) (idle : Idle h) (at_ : h.sockets c = some s)
    {change : Socket → Socket} (destroyed : (change s).destroyed = true)
    (gone : (change s).gone = true)
    (left : (change s).left = s.left.or (some h.log.length)) (joined : (change s).joined = s.joined)
    (written : (change s).written = s.written) (sent : (change s).sent = s.sent) :
    Kept (h.update c change) ∧ Idle (h.update c change) := by
  have heard := kept.heard c s at_
  refine ⟨kept.shut at_ destroyed left joined written fun more nothing => ?_,
    idle_update idle at_ ?_⟩
  · rw [nothing gone, sent]
    by_cases live : s.left = none
    · have short := idle c s at_ live
      rw [heard.reads live, List.append_nil, frames_of_none short, events, List.filter_nil,
        List.append_nil]
    · exact heard.ended live [] fun _ => rfl
  · rw [left]
    cases s.left <;> simp

theorem update_update (first second : Socket → Socket) :
    (h.update c first).update c second = h.update c (second ∘ first) := by
  unfold Hub.update
  congr 1
  funext d
  by_cases own : d = c
  · subst own
    simp
  · simp only [if_neg own]

theorem Kept.leave (kept : Kept h) (idle : Idle h) (at_ : h.sockets c = some s) (why : String) :
    Kept (h.leave c why) ∧ Idle (h.leave c why) := by
  have flags := (kept.wrote c s at_).flags
  rw [Hub.leave, Hub.close, update_update]
  by_cases member : s.member = true
  · refine kept.ends idle at_ ?_ rfl ?_ ?_ ?_ ?_ <;>
      simp only [Function.comp_apply, if_pos member]
  · have shut : s.left ≠ none := fun live => member (flags.live live).1
    refine kept.ends idle at_ ?_ rfl ?_ ?_ ?_ ?_ <;>
      simp only [Function.comp_apply, if_neg member]
    · exact flags.shut shut
    · obtain ⟨n, left⟩ := Option.ne_none_iff_exists'.mp shut
      rw [left]
      rfl

theorem Kept.join (kept : Kept h) (idle : Idle h) (absent : h.sockets c = none) :
    let joined : Hub :=
      { h with sockets := fun d => if d = c then some (Hub.fresh h.log.length) else h.sockets d }
    Kept joined ∧ Idle joined := by
  have silent : passedOn c h.log = [] := by
    unfold passedOn
    refine List.filterMap_eq_nil_iff.mpr fun x logged => if_neg fun own => ?_
    exact kept.known x logged (own ▸ absent)
  refine ⟨⟨kept.sound, fun x logged => ?_, fun d t there => ?_, fun d t there => ?_⟩,
    fun d t there open_ => ?_⟩
  · dsimp only
    split
    · simp
    · exact kept.known x logged
  · dsimp only at there
    split at there
    · cases there
      refine ⟨⟨fun _ => ⟨rfl, rfl, rfl⟩, fun shut => absurd rfl shut⟩, Nat.le_refl _,
        Nat.le_refl _, ?_⟩
      simp [Socket.span, Hub.fresh, wire]
    · exact kept.wrote d t there
  · dsimp only at there
    split at there
    · rename_i own
      cases there
      rw [own, silent]
      exact ⟨fun _ _ => rfl, fun _ _ => rfl, fun shut => absurd rfl shut⟩
    · exact kept.heard d t there
  · dsimp only at there
    split at there
    · cases there
      rfl
    · exact idle d t there open_

/-- A strict client's data. -/
theorem Kept.data (kept : Kept h) (idle : Idle h) {chunk : List Octet}
    (strict : StrictStep h (.data c chunk)) (next : h.step (.data c chunk) = some h') :
    Kept h' ∧ Idle h' := by
  obtain ⟨s, at_, next⟩ := Option.bind_eq_some_iff.mp next
  have wrote := kept.wrote c s at_
  have heard := kept.heard c s at_
  split at next
  · cases next
  have present : s.gone = false := by simpa using ‹¬ s.gone = true›
  dsimp only at next
  split at next
  · cases next
    have shut : s.left ≠ none := fun live => by
      have := (wrote.flags.live live).2.1
      simp_all
    refine ⟨kept.update at_ ⟨⟨wrote.flags.live, wrote.flags.shut⟩, wrote.joined, wrote.bound,
      wrote.written⟩ ⟨fun live => absurd live shut, fun live => absurd live shut,
      fun _ more _ => ?_⟩, idle_update idle at_ shut⟩
    rw [List.append_assoc]
    exact heard.ended shut _ fun gone => by simp [present] at gone
  · cases next
    have live : s.left = none := by
      by_cases live : s.left = none
      · exact live
      · exact absurd (wrote.flags.shut live) ‹_›
    rw [update_update]
    have self := update_self ((fun s' => { s' with parser := { s'.parser with
      buf := s.parser.buf ++ chunk } }) ∘ fun s' : Socket =>
        { s' with sent := s'.sent ++ chunk }) at_
    refine Kept.pump (s := { s with sent := s.sent ++ chunk, parser := { s.parser with
      buf := s.parser.buf ++ chunk } }) (kept.update at_ ⟨⟨wrote.flags.live, wrote.flags.shut⟩,
      wrote.joined, wrote.bound, wrote.written⟩ (heard.receive live chunk))
      (fun d t there other open_ => ?_) self live (strict s at_) (Nat.lt_succ_self _)
    rw [update_of_ne _ other] at there
    exact idle d t there open_

theorem Kept.step (kept : Kept h) (idle : Idle h) {op : Hub.Op} (strict : StrictStep h op)
    (next : h.step op = some h') : Kept h' ∧ Idle h' := by
  cases op with
  | join c =>
    cases at_ : h.sockets c with
    | none =>
      simp only [Hub.step, at_] at next
      cases next
      exact kept.join idle at_
    | some s => simp only [Hub.step, at_, reduceCtorEq] at next
  | data c chunk => exact kept.data idle strict next
  | fail c =>
    obtain ⟨s, at_, rfl⟩ := Option.map_eq_some_iff.mp next
    exact kept.ends idle at_ rfl rfl rfl rfl rfl rfl
  | error c =>
    obtain ⟨s, at_, rfl⟩ := Option.map_eq_some_iff.mp next
    exact kept.leave idle at_ _
  | hangup c =>
    obtain ⟨s, at_, rfl⟩ := Option.map_eq_some_iff.mp next
    exact kept.leave idle at_ _

/-- Between two events. -/
def Steady (h : Hub) : Prop :=
  Kept h ∧ Idle h

theorem kept_initial : Steady Hub.initial :=
  ⟨⟨by simp [Hub.initial], by simp [Hub.initial], by simp [Hub.initial], by simp [Hub.initial]⟩,
    by simp [Idle, Hub.initial]⟩

/-- A reply to a sound event is a well-formed frame that fits its form. -/
theorem fromServer_of_reply (sound : Sound x.2) (replied : reply c x = some f) :
    f.FromServer ∧ f.Fits := by
  obtain ⟨d, e⟩ := x
  cases e with
  | message data =>
    have small : data.length ≤ maxFrame := sound
    unfold maxFrame at small
    simp only [reply] at replied
    split at replied
    · cases replied
    · cases replied
      exact ⟨fromServer_message, serverFrame_fits (by omega)⟩
  | ping data =>
    have small : data.length ≤ 125 := sound
    simp only [reply] at replied
    split at replied
    · cases replied
      exact ⟨fromServer_pong small, serverFrame_fits (by omega)⟩
    · cases replied

theorem relayExact_of_kept (kept : Kept h) (idle : Idle h) : RelayExact h := by
  intro c s at_
  have wrote := kept.wrote c s at_
  have heard := kept.heard c s at_
  have good (f : Frame) (sent : f ∈ (s.span h.log).filterMap (reply c)) :
      f.FromServer ∧ f.Fits := by
    obtain ⟨x, inSpan, replied⟩ := List.mem_filterMap.mp sent
    have logged : x ∈ h.log := List.mem_of_mem_take (List.mem_of_mem_drop inSpan)
    exact fromServer_of_reply (kept.sound x logged) replied
  refine ⟨?_, wrote.written, ?_, fun f sent => (good f sent).1⟩
  · by_cases live : s.left = none
    · have := heard.reads live []
      rw [List.append_nil, List.append_nil, frames_of_none (idle c s at_ live), events,
        List.filter_nil, List.append_nil] at this
      exact this.symm
    · have := heard.ended live [] fun _ => rfl
      rw [List.append_nil] at this
      exact this.symm
  · rw [wrote.written]
    exact frames_wire fun f sent => (good f sent).2

/-- In every run in which each client's stream breaks the protocol, if at all, first in a way that
the parser looks for, the relay forwards what each client sent and writes well-formed frames of the
others' messages and of the client's own pongs. -/
theorem relayExact_of_run (run : RunOk Hub.step StrictStep Hub.initial h) : RelayExact h := by
  have invariant : Steady h :=
    run.invariant kept_initial fun both strict next => both.1.step both.2 strict next
  exact relayExact_of_kept invariant.1 invariant.2

/-- The condition of a step, evaluated. -/
def strictTest (h : Hub) : Hub.Op → Bool
  | .data c chunk =>
    (h.sockets c).all fun s =>
      (firstViolation maxFrame none (frames (s.sent ++ chunk))).all refused
  | _ => true

theorem strictStep_of_test (h : Hub) (op : Hub.Op) (passes : strictTest h op = true) :
    StrictStep h op := by
  cases op with
  | data c chunk =>
    intro s at_ v first
    have strict := (Option.all_eq_true ..).mp passes s at_
    exact (Option.all_eq_true ..).mp strict v first
  | join c => trivial
  | fail c => trivial
  | error c => trivial
  | hangup c => trivial

/-- Two clients; one sends a message in two fragments with a ping between them, cut in the middle of
a header and of a mask, the other a message of its own and an unmasked frame. -/
def lan : List Hub.Op :=
  [.join 0, .join 1,
    .data 0 ([0x02, 0x87, 1, 2, 3, 4] ++ List.replicate 7 9 ++ [0x89]),
    .data 0 [0x81, 5, 6],
    .data 0 ([7, 8, 0xaa, 0x80, 0x87, 0, 0, 0, 0] ++ List.replicate 7 5),
    .data 1 ([0x82, 0xfe, 0, 200, 1, 1, 1, 1] ++ List.replicate 200 3 ++ [0x82, 0x01, 0]),
    .hangup 0, .data 1 [0xff]]

theorem relayExact_lan : ∃ h, exec Hub.step Hub.initial lan = some h ∧ RelayExact h ∧
    h.log.length = 3 := by
  have some_ : (execOk Hub.step strictTest Hub.initial lan).any
      fun h => h.log.length = 3 := by decide +kernel
  obtain ⟨h, done, logged⟩ := (Option.any_eq_true ..).mp some_
  exact ⟨h, exec_of_execOk done, relayExact_of_run (.of_execOk strictStep_of_test done),
    of_decide_eq_true logged⟩

/-- A ping of 126 bytes is answered. -/
theorem not_relayExact_longPing : ∃ h,
    exec Hub.step Hub.initial
      [.join 0, .data 0 ([0x89, 0xfe, 0, 126, 0, 0, 0, 0] ++ List.replicate 126 0)] = some h ∧
    ¬ RelayExact h := by
  have some_ : (exec Hub.step Hub.initial
      [.join 0, .data 0 ([0x89, 0xfe, 0, 126, 0, 0, 0, 0] ++ List.replicate 126 0)]).any
      fun h => (h.sockets 0).any fun s => passedOn 0 h.log ≠ asked s.sent := by
    decide +kernel
  obtain ⟨h, done, wrong⟩ := (Option.any_eq_true ..).mp some_
  obtain ⟨s, at_, differs⟩ := (Option.any_eq_true ..).mp wrong
  exact ⟨h, done, fun exact_ => of_decide_eq_true differs (exact_ 0 s at_).forwarded⟩

end NetRelay

end PCemWeb.Network
