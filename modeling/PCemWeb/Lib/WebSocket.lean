import Mathlib.Data.List.Basic
import Mathlib.Tactic.Common

/-!
# WebSocket frames

A frame and its octets in both directions: `encode` and `decode` are inverse (`decode_encode`), and
what `decode` has read does not depend on what follows (`decode_append`). A stream of octets is its
complete frames (`frames`), and a stream of frames from one endpoint is what it means to the other:
the messages it completes and the pings, up to the first frame that breaks the protocol (`events`).
-/

namespace PCemWeb.Lib.WebSocket

abbrev Octet := BitVec 8

/-- The four octets of a masking key. -/
abbrev Key := Vector Octet 4

/-- The three ways to write the length of a payload. -/
inductive LengthForm
  | short
  | medium
  | long
deriving DecidableEq, Repr

/-- The octets that follow the 7-bit field. -/
def LengthForm.octets : LengthForm → Nat
  | .short => 0
  | .medium => 2
  | .long => 8

/-- The shortest form that holds a length. -/
def shortest (length : Nat) : LengthForm :=
  if length < 126 then .short else if length < 65536 then .medium else .long

/-- A frame: its header, and its payload without the mask. -/
structure Frame where
  fin : Bool
  rsv : BitVec 3
  opcode : BitVec 4
  key : Option Key
  form : LengthForm
  payload : List Octet
deriving DecidableEq, Repr

/-! ## Octets -/

/-- Exclusive or with the octets of the key, in turn. -/
def applyKey (key : Key) (data : List Octet) : List Octet :=
  data.mapIdx fun i b => b ^^^ key.get (Fin.ofNat 4 i)

/-- The number that octets name, the most significant one first. -/
def ofBigEndian (octets : List Octet) : Nat :=
  octets.foldl (fun n b => n * 256 + b.toNat) 0

/-- The last `width` base-256 digits of a number, the most significant one first. -/
def toBigEndian : (width n : Nat) → List Octet
  | 0, _ => []
  | width + 1, n => toBigEndian width (n / 256) ++ [BitVec.ofNat 8 n]

/-- The numbers of `width` base-256 digits. -/
def capacity : Nat → Nat
  | 0 => 1
  | width + 1 => 256 * capacity width

/-- The first `n` octets and the rest, once there are `n`. -/
def splitOff (n : Nat) (octets : List Octet) : Option (List Octet × List Octet) :=
  if n ≤ octets.length then some (octets.take n, octets.drop n) else none

/-- The 7-bit length field. -/
def Frame.lengthField (f : Frame) : Nat :=
  match f.form with
  | .short => f.payload.length
  | .medium => 126
  | .long => 127

/-- The octets of a frame. -/
def Frame.encode (f : Frame) : List Octet :=
  (BitVec.ofBool f.fin ++ f.rsv ++ f.opcode : BitVec (1 + 3 + 4)) ::
    (BitVec.ofBool f.key.isSome ++ BitVec.ofNat 7 f.lengthField : BitVec (1 + 7)) ::
      (toBigEndian f.form.octets f.payload.length ++
        match f.key with
        | none => f.payload
        | some key => key.toList ++ applyKey key f.payload)

/-- The payload length, read after the 7-bit field. -/
def decodeLength (field : Nat) (octets : List Octet) :
    Option ((LengthForm × Nat) × List Octet) :=
  if field < 126 then some ((.short, field), octets)
  else if field = 126 then
    (splitOff 2 octets).map fun split => ((.medium, ofBigEndian split.1), split.2)
  else (splitOff 8 octets).map fun split => ((.long, ofBigEndian split.1), split.2)

def decodeKey (masked : Bool) (octets : List Octet) : Option (Option Key × List Octet) :=
  if masked then
    match octets with
    | a :: b :: c :: d :: rest => some (some #v[a, b, c, d], rest)
    | _ => none
  else some (none, octets)

/-- The first frame and the octets after it, once it is complete. -/
def decode : List Octet → Option (Frame × List Octet)
  | head :: length :: rest =>
    (decodeLength (length.extractLsb' 0 7).toNat rest).bind fun sized =>
      (decodeKey length.msb sized.2).bind fun keyed =>
        (splitOff sized.1.2 keyed.2).map fun split =>
          ({ fin := head.msb
             rsv := head.extractLsb' 4 3
             opcode := head.extractLsb' 0 4
             key := keyed.1
             form := sized.1.1
             payload := keyed.1.elim split.1 (applyKey · split.1) }, split.2)
  | _ => none

/-- At most `fuel` complete frames. -/
def framesWithin : (fuel : Nat) → List Octet → List Frame
  | 0, _ => []
  | fuel + 1, octets =>
    match decode octets with
    | none => []
    | some (f, rest) => f :: framesWithin fuel rest

/-- The complete frames of a stream. -/
def frames (octets : List Octet) : List Frame :=
  framesWithin octets.length octets

/-- The octets of a sequence of frames. -/
def wire (fs : List Frame) : List Octet :=
  fs.flatMap Frame.encode

/-! ## Meaning -/

inductive Kind
  | continuation
  | data
  | close
  | ping
  | pong
deriving DecidableEq, Repr

def Frame.kind (f : Frame) : Option Kind :=
  match f.opcode.toNat with
  | 0 => some .continuation
  | 1 | 2 => some .data
  | 8 => some .close
  | 9 => some .ping
  | 10 => some .pong
  | _ => none

def Kind.control : Kind → Bool
  | .close | .ping | .pong => true
  | .continuation | .data => false

/-- The ways in which a client's frame breaks the protocol, without extensions. -/
inductive Violation
  | unmasked
  | oversized
  | reservedOpcode
  | strayContinuation
  | reservedBits
  | longForm
  | fragmentedControl
  | longControl
  | interrupted
deriving DecidableEq, Repr

/-- What is wrong with a client's frame, for an endpoint that takes payloads of up to `limit`
octets, `opened` telling that a fragmented message is unfinished. -/
def Frame.violation (limit : Nat) (opened : Bool) (f : Frame) : Option Violation :=
  if f.key.isNone then some .unmasked
  else if limit < f.payload.length then some .oversized
  else
    match f.kind with
    | none => some .reservedOpcode
    | some kind =>
      if kind = .continuation ∧ opened = false then some .strayContinuation
      else if f.rsv ≠ 0 then some .reservedBits
      else if f.form ≠ shortest f.payload.length then some .longForm
      else if kind.control ∧ f.fin = false then some .fragmentedControl
      else if kind.control ∧ 125 < f.payload.length then some .longControl
      else if kind = .data ∧ opened then some .interrupted
      else none

/-- What a frame gives the endpoint that receives it. -/
inductive Event
  | message (data : List Octet)
  | ping (data : List Octet)
deriving DecidableEq, Repr

/-- The unfinished message after a frame. -/
def Frame.after (pending : Option (List Octet)) (f : Frame) : Option (List Octet) :=
  match f.kind with
  | some .continuation | some .data =>
    if f.fin then none else some (pending.getD [] ++ f.payload)
  | _ => pending

/-- What a frame completes. -/
def Frame.yields (pending : Option (List Octet)) (f : Frame) : Option Event :=
  match f.kind with
  | some .continuation | some .data =>
    if f.fin then some (.message (pending.getD [] ++ f.payload)) else none
  | some .ping => some (.ping f.payload)
  | _ => none

/-- What a client's frames mean, up to a close frame or the first violation. -/
def events (limit : Nat) : (pending : Option (List Octet)) → List Frame → List Event
  | _, [] => []
  | pending, f :: fs =>
    if f.violation limit pending.isSome = none ∧ f.kind ≠ some .close then
      (f.yields pending).toList ++ events limit (f.after pending) fs
    else []

/-- The first violation among a client's frames, before a close frame. -/
def firstViolation (limit : Nat) : (pending : Option (List Octet)) → List Frame → Option Violation
  | _, [] => none
  | pending, f :: fs =>
    if f.violation limit pending.isSome = none ∧ f.kind ≠ some .close then
      firstViolation limit (f.after pending) fs
    else f.violation limit pending.isSome

/-- A server's frame: unmasked and, the mask apart, with nothing wrong. -/
structure Frame.FromServer (f : Frame) : Prop where
  unmasked : f.key = none
  whole : f.fin = true
  plain : f.rsv = 0
  short : f.form = shortest f.payload.length
  known : f.kind = some .data ∨ f.kind = some .pong ∧ f.payload.length ≤ 125

/-- The length fits its form. -/
def Frame.Fits (f : Frame) : Prop :=
  match f.form with
  | .short => f.payload.length < 126
  | form => f.payload.length < capacity form.octets

variable {f : Frame} {fs : List Frame} {octets rest more : List Octet} {n limit : Nat}
  {pending : Option (List Octet)}

/-- A sound control frame is short. -/
theorem length_of_control {opened : Bool} {kind : Kind} (known : f.kind = some kind)
    (control : kind.control) (fine : f.violation limit opened = none) : f.payload.length ≤ 125 := by
  unfold Frame.violation at fine
  rw [known] at fine
  dsimp only at fine
  repeat' split at fine
  all_goals try cases fine
  exact Nat.le_of_not_lt fun many => ‹¬ (kind.control ∧ 125 < f.payload.length)› ⟨control, many⟩

/-! ## Numbers and masks -/

@[simp] theorem length_toBigEndian (width n : Nat) : (toBigEndian width n).length = width := by
  induction width generalizing n with
  | zero => rfl
  | succ width ih => simp [toBigEndian, ih]

theorem ofBigEndian_concat (octets : List Octet) (b : Octet) :
    ofBigEndian (octets ++ [b]) = ofBigEndian octets * 256 + b.toNat := by
  simp [ofBigEndian]

/-- Digits name the number they were taken from. -/
theorem ofBigEndian_toBigEndian {width : Nat} (small : n < capacity width) :
    ofBigEndian (toBigEndian width n) = n := by
  induction width generalizing n with
  | zero =>
    have : n = 0 := by simp only [capacity] at small; omega
    rw [this]
    rfl
  | succ width ih =>
    have high : n / 256 < capacity width := Nat.div_lt_of_lt_mul small
    rw [toBigEndian, ofBigEndian_concat, ih high, BitVec.toNat_ofNat]
    omega

@[simp] theorem length_applyKey (key : Key) (data : List Octet) :
    (applyKey key data).length = data.length := by
  simp [applyKey]

/-- A mask undoes itself. -/
@[simp] theorem applyKey_applyKey (key : Key) (data : List Octet) :
    applyKey key (applyKey key data) = data := by
  refine List.ext_getElem (by simp) fun i left right => ?_
  simp only [applyKey, List.getElem_mapIdx, BitVec.xor_assoc, BitVec.xor_self, BitVec.xor_zero]

/-! ## Reading one frame -/

theorem splitOff_append {front back : List Octet} (split : splitOff n octets = some (front, back))
    (more : List Octet) : splitOff n (octets ++ more) = some (front, back ++ more) := by
  unfold splitOff at split ⊢
  split at split
  · rename_i enough
    cases split
    rw [if_pos (by simp; omega), List.take_append_of_le_length enough,
      List.drop_append_of_le_length enough]
  · cases split

theorem splitOff_length (front back : List Octet) :
    splitOff front.length (front ++ back) = some (front, back) := by
  rw [splitOff, if_pos (by simp), List.take_left, List.drop_left]

theorem length_of_splitOff {front back : List Octet}
    (split : splitOff n octets = some (front, back)) : octets.length = n + back.length := by
  unfold splitOff at split
  split at split
  · cases split
    simp only [List.length_drop]
    omega
  · cases split

theorem length_left_of_splitOff {front back : List Octet}
    (split : splitOff n octets = some (front, back)) : front.length = n := by
  unfold splitOff at split
  split at split
  · cases split
    exact List.length_take_of_le ‹_›
  · cases split

theorem decodeLength_append {field : Nat} {sized : LengthForm × Nat}
    (read : decodeLength field octets = some (sized, rest)) (more : List Octet) :
    decodeLength field (octets ++ more) = some (sized, rest ++ more) := by
  unfold decodeLength at read ⊢
  split at read
  · rw [if_pos ‹_›]
    cases read
    rfl
  · rw [if_neg ‹_›]
    split at read <;> obtain ⟨⟨front, back⟩, split, same⟩ := Option.map_eq_some_iff.mp read
    · rw [if_pos ‹_›, splitOff_append split]
      cases same
      rfl
    · rw [if_neg ‹_›, splitOff_append split]
      cases same
      rfl

theorem decodeKey_append {masked : Bool} {key : Option Key}
    (read : decodeKey masked octets = some (key, rest)) (more : List Octet) :
    decodeKey masked (octets ++ more) = some (key, rest ++ more) := by
  unfold decodeKey at read ⊢
  split at read
  · rw [if_pos ‹_›]
    split at read
    · cases read
      rfl
    · cases read
  · rw [if_neg ‹_›]
    cases read
    rfl

/-- A complete frame stays the first one, whatever follows. -/
theorem decode_append (read : decode octets = some (f, rest)) (more : List Octet) :
    decode (octets ++ more) = some (f, rest ++ more) := by
  rcases octets with _ | ⟨head, _ | ⟨length, tail⟩⟩
  · cases read
  · cases read
  obtain ⟨⟨sized, afterLength⟩, lengthRead, read⟩ := Option.bind_eq_some_iff.mp read
  obtain ⟨⟨key, afterKey⟩, keyRead, read⟩ := Option.bind_eq_some_iff.mp read
  obtain ⟨⟨data, back⟩, dataRead, same⟩ := Option.map_eq_some_iff.mp read
  refine Option.bind_eq_some_iff.mpr ⟨_, decodeLength_append lengthRead more, ?_⟩
  refine Option.bind_eq_some_iff.mpr ⟨_, decodeKey_append keyRead more, ?_⟩
  refine Option.map_eq_some_iff.mpr ⟨_, splitOff_append dataRead more, ?_⟩
  cases same
  rfl

theorem length_of_decodeLength {field : Nat} {sized : LengthForm × Nat}
    (read : decodeLength field octets = some (sized, rest)) : rest.length ≤ octets.length := by
  unfold decodeLength at read
  split at read
  · cases read
    exact Nat.le_refl _
  · split at read <;> obtain ⟨⟨front, back⟩, split, same⟩ := Option.map_eq_some_iff.mp read <;>
      cases same <;> have := length_of_splitOff split <;> simp only <;> omega

theorem length_of_decodeKey {masked : Bool} {key : Option Key}
    (read : decodeKey masked octets = some (key, rest)) : rest.length ≤ octets.length := by
  unfold decodeKey at read
  split at read
  · split at read <;> cases read
    simp only [List.length_cons]
    omega
  · cases read
    exact Nat.le_refl _

/-- What is left after the length. -/
theorem rest_of_decodeLength {field : Nat} {sized : LengthForm × Nat}
    (read : decodeLength field octets = some (sized, rest)) :
    rest = octets.drop sized.1.octets := by
  unfold decodeLength splitOff at read
  split at read
  · cases read
    rfl
  · split at read <;> split at read <;> cases read <;> rfl

/-- A frame takes at least its two header octets. -/
theorem length_of_decode (read : decode octets = some (f, rest)) :
    rest.length + 2 ≤ octets.length := by
  rcases octets with _ | ⟨head, _ | ⟨length, tail⟩⟩
  · cases read
  · cases read
  obtain ⟨⟨sized, afterLength⟩, lengthRead, read⟩ := Option.bind_eq_some_iff.mp read
  obtain ⟨⟨key, afterKey⟩, keyRead, read⟩ := Option.bind_eq_some_iff.mp read
  obtain ⟨⟨data, back⟩, dataRead, same⟩ := Option.map_eq_some_iff.mp read
  have lengthTaken := length_of_decodeLength lengthRead
  have keyTaken := length_of_decodeKey keyRead
  have dataTaken := length_of_splitOff dataRead
  cases same
  simp only [List.length_cons] at keyTaken dataTaken ⊢
  omega

theorem lengthField_lt (f : Frame) (fits : f.Fits) : f.lengthField < 128 := by
  unfold Frame.Fits at fits
  unfold Frame.lengthField
  cases form : f.form <;> rw [form] at fits <;> simp only at fits ⊢ <;> omega

theorem decodeLength_encode (f : Frame) (fits : f.Fits) (rest : List Octet) :
    decodeLength f.lengthField (toBigEndian f.form.octets f.payload.length ++ rest) =
      some ((f.form, f.payload.length), rest) := by
  have extended (width : Nat) (small : f.payload.length < capacity width) :
      splitOff width (toBigEndian width f.payload.length ++ rest) =
        some (toBigEndian width f.payload.length, rest) := by
    have := splitOff_length (toBigEndian width f.payload.length) rest
    rwa [length_toBigEndian] at this
  unfold Frame.Fits at fits
  unfold Frame.lengthField decodeLength
  cases form : f.form <;> rw [form] at fits <;> dsimp only
  · rw [if_pos fits]
    rfl
  · have number := ofBigEndian_toBigEndian fits
    simp only [LengthForm.octets] at number ⊢
    rw [if_neg (by decide), if_pos trivial, extended 2 fits, Option.map_some, number]
  · have number := ofBigEndian_toBigEndian fits
    simp only [LengthForm.octets] at number ⊢
    rw [if_neg (by decide), if_neg (by decide), extended 8 fits, Option.map_some, number]

/-- A frame is read back from its octets. -/
theorem decode_encode (f : Frame) (fits : f.Fits) (rest : List Octet) :
    decode (f.encode ++ rest) = some (f, rest) := by
  have head (fin : Bool) (rsv : BitVec 3) (opcode : BitVec 4) :
      let b : Octet := (BitVec.ofBool fin ++ rsv ++ opcode : BitVec (1 + 3 + 4))
      b.msb = fin ∧ b.extractLsb' 4 3 = rsv ∧ b.extractLsb' 0 4 = opcode := by
    revert fin rsv opcode
    decide +kernel
  have second (masked : Bool) (field : BitVec 7) :
      let b : Octet := (BitVec.ofBool masked ++ field : BitVec (1 + 7))
      b.msb = masked ∧ b.extractLsb' 0 7 = field := by
    revert masked field
    decide +kernel
  have field : (BitVec.ofNat 7 f.lengthField).toNat = f.lengthField :=
    Nat.mod_eq_of_lt (lengthField_lt f fits)
  obtain ⟨fin, rsv, opcode⟩ := head f.fin f.rsv f.opcode
  obtain ⟨masked, size⟩ := second f.key.isSome (BitVec.ofNat 7 f.lengthField)
  simp only [Frame.encode, List.cons_append, List.append_assoc, decode, size, field,
    decodeLength_encode f fits, Option.bind_some, masked, fin, rsv, opcode]
  cases key : f.key with
  | none =>
    simp only [decodeKey, Option.isSome_none, Bool.false_eq_true, if_false, Option.bind_some,
      splitOff_length, Option.map_some, Option.elim_none]
    rw [← key]
  | some key' =>
    have keyRead (data : List Octet) :
        decodeKey true (key'.toList ++ data) = some (some key', data) := by
      rcases key' with ⟨⟨octets⟩, size⟩
      rcases octets with _ | ⟨a, _ | ⟨b, _ | ⟨c, _ | ⟨d, _ | ⟨e, tail⟩⟩⟩⟩⟩ <;> try cases size
      rfl
    have dataRead := splitOff_length (applyKey key' f.payload) rest
    rw [length_applyKey] at dataRead
    simp only [Option.isSome_some, List.append_assoc, keyRead, Option.bind_some, dataRead,
      Option.map_some, Option.elim_some, applyKey_applyKey]
    rw [← key]

/-! ## Reading a stream -/

theorem framesWithin_of_length (enough : octets.length ≤ n) :
    framesWithin n octets = frames octets := by
  suffices same : ∀ k n, octets.length ≤ k → octets.length ≤ n →
      framesWithin k octets = framesWithin n octets from
    same _ _ enough (Nat.le_refl _)
  intro k
  induction k generalizing octets with
  | zero =>
    intro n small _
    have : octets = [] := List.length_eq_zero_iff.mp (by omega)
    subst this
    cases n <;> rfl
  | succ k ih =>
    intro n small fits
    cases read : decode octets with
    | none => cases n <;> simp only [framesWithin, read]
    | some taken =>
      obtain ⟨f, rest⟩ := taken
      have shorter := length_of_decode read
      obtain ⟨n, rfl⟩ : ∃ m, n = m + 1 := ⟨n - 1, by omega⟩
      have : octets.length ≤ k + 1 := small
      simp only [framesWithin, read]
      rw [ih (by omega) n (by omega) (by omega)]

theorem frames_of_none (short : decode octets = none) : frames octets = [] := by
  unfold frames
  cases octets.length with
  | zero => rfl
  | succ n => simp only [framesWithin, short]

theorem frames_of_some (read : decode octets = some (f, rest)) :
    frames octets = f :: frames rest := by
  have shorter := length_of_decode read
  rw [frames, show octets.length = (octets.length - 1) + 1 by omega]
  simp only [framesWithin, read]
  rw [framesWithin_of_length (by omega)]

/-- A receiver reads off the frames that were sent. -/
theorem frames_wire (fit : ∀ f ∈ fs, f.Fits) : frames (wire fs) = fs := by
  induction fs with
  | nil => rfl
  | cons f fs ih =>
    have tail := ih fun g inTail => fit g (List.mem_cons_of_mem _ inTail)
    rw [wire, List.flatMap_cons, frames_of_some (decode_encode f (fit f List.mem_cons_self) _)]
    exact congrArg (f :: ·) tail

theorem wire_append (front back : List Frame) : wire (front ++ back) = wire front ++ wire back := by
  simp only [wire, List.flatMap_append]

end PCemWeb.Lib.WebSocket
