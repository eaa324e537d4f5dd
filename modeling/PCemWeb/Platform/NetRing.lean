import Mathlib.Data.UInt
import Mathlib.Logic.Function.Basic
import PCemWeb.Lib.Run

/-!
# The network rings

A ring carries frames between the emulation thread and the browser's main thread, each as a record
of two length bytes and the payload. The producer reads both indices, writes the record byte by
byte, around the end of the buffer if need be, and publishes it by storing the head; the consumer
reads a record byte by byte and frees it by storing the tail. The two take turns in any order, a
memory access at a time.

The definitions follow `wasm-net.c`. Both rings have the same code and the same check of a frame's
length in front of it, `wasm_net_rx_push` for one and `slirp_input` for the other.
-/

namespace PCemWeb.Platform.Net

/-! ## The ring -/

/-- `NET_RING_SIZE`. -/
def netRingSize : UInt32 := 0x40000

/-- `NET_RING_MASK`. -/
def netRingMask : UInt32 := netRingSize - 1

/-- `NET_FRAME_MAX`. -/
def netFrameMax : Nat := 1600

/-- `NET_FRAME_MIN`. -/
def netFrameMin : Nat := 14

/-- `net_ring_t`. -/
structure NetRing where
  buf : Nat → UInt8
  head : UInt32
  tail : UInt32

/-- The bytes that a `memcpy` into the buffer writes, with their places. -/
def memcpyIn : (dst : Nat) → (src : List UInt8) → List (Nat × UInt8)
  | _, [] => []
  | dst, b :: src => (dst, b) :: memcpyIn (dst + 1) src

/-- The places that a `memcpy` out of the buffer reads. -/
def memcpyOut : (src len : Nat) → List Nat
  | _, 0 => []
  | src, len + 1 => src :: memcpyOut (src + 1) len

/-- `ring_write_bytes`. -/
def ringWriteBytes (pos : UInt32) (src : List UInt8) : List (Nat × UInt8) :=
  let off := (pos &&& netRingMask).toNat
  let first := min (netRingSize.toNat - off) src.length
  memcpyIn off (src.take first) ++ if src.length > first then memcpyIn 0 (src.drop first) else []

/-- `ring_read_bytes`. -/
def ringReadBytes (pos : UInt32) (len : Nat) : List Nat :=
  let off := (pos &&& netRingMask).toNat
  let first := min (netRingSize.toNat - off) len
  memcpyOut off first ++ if len > first then memcpyOut 0 (len - first) else []

/-- The length bytes of a record. -/
def header (len : Nat) : List UInt8 := [UInt8.ofNat (len &&& 0xff), UInt8.ofNat (len >>> 8)]

/-- The length that two bytes make. -/
def lengthOf : List UInt8 → Nat
  | b0 :: b1 :: _ => b0.toNat ||| b1.toNat <<< 8
  | _ => 0

/-! ## The two threads -/

abbrev Frame := List UInt8

/-- Where the producer is in `ring_push`. -/
inductive Producer
  | idle
  | called (frame : Frame)
  | gotHead (frame : Frame) (head : UInt32)
  | writing (frame : Frame) (head : UInt32) (todo : List (Nat × UInt8))
  deriving DecidableEq

/-- Where the consumer is in `ring_pop`. -/
inductive Consumer
  | idle
  | called
  | gotTail (tail : UInt32)
  | readingHdr (tail head : UInt32) (todo : List Nat) (hdr : List UInt8)
  | draining (head : UInt32)
  | reading (tail : UInt32) (len : Nat) (todo : List Nat) (dst : List UInt8)
  deriving DecidableEq

/-- A ring with its threads. What is accepted, dropped and popped so far is recorded when the
calls return; `corrupt` counts the corrupt records. -/
structure Link where
  ring : NetRing
  producer : Producer
  consumer : Consumer
  accepted : List Frame
  drops : Nat
  popped : List Frame
  corrupt : Nat

/-- A ring after `ring_reset`. -/
def Link.ringReset (buf : Nat → UInt8) : Link := ⟨⟨buf, 0, 0⟩, .idle, .idle, [], 0, [], 0⟩

inductive Event
  | push (frame : Frame)
  | produce
  | pop
  | consume
  deriving DecidableEq

namespace Link

/-- The next access of `ring_push`. -/
def produce (s : Link) : Option Link :=
  match s.producer with
  | .idle => none
  | .called frame => some { s with producer := .gotHead frame s.ring.head }
  | .gotHead frame head =>
    let len := UInt32.ofNat frame.length
    if netRingSize - (head - s.ring.tail) < 2 + len then
      some { s with producer := .idle, drops := s.drops + 1 }
    else
      let todo := ringWriteBytes head (header frame.length) ++ ringWriteBytes (head + 2) frame
      some { s with producer := .writing frame head todo }
  | .writing frame head ((at_, b) :: todo) =>
    some { s with
      ring.buf := Function.update s.ring.buf at_ b
      producer := .writing frame head todo }
  | .writing frame head [] =>
    some { s with
      ring.head := head + (2 + UInt32.ofNat frame.length)
      producer := .idle
      accepted := s.accepted ++ [frame] }

/-- The next access of `ring_pop`. -/
def consume (s : Link) : Option Link :=
  match s.consumer with
  | .idle => none
  | .called => some { s with consumer := .gotTail s.ring.tail }
  | .gotTail tail =>
    if s.ring.head = tail then some { s with consumer := .idle }
    else some { s with consumer := .readingHdr tail s.ring.head (ringReadBytes tail 2) [] }
  | .readingHdr tail head (at_ :: todo) hdr =>
    some { s with consumer := .readingHdr tail head todo (hdr ++ [s.ring.buf at_]) }
  | .readingHdr tail head [] hdr =>
    let len := lengthOf hdr
    if netFrameMax < len then
      some { s with consumer := .draining head, corrupt := s.corrupt + 1 }
    else some { s with consumer := .reading tail len (ringReadBytes (tail + 2) len) [] }
  | .draining head => some { s with ring.tail := head, consumer := .idle }
  | .reading tail len (at_ :: todo) dst =>
    some { s with consumer := .reading tail len todo (dst ++ [s.ring.buf at_]) }
  | .reading tail len [] dst =>
    some { s with
      ring.tail := tail + 2 + UInt32.ofNat len
      consumer := .idle
      popped := s.popped ++ [dst] }

def step (s : Link) : Event → Option Link
  | .push frame =>
    match s.producer with
    | .idle =>
      if frame.length < netFrameMin ∨ netFrameMax < frame.length then
        some { s with drops := s.drops + 1 }
      else some { s with producer := .called frame }
    | _ => none
  | .produce => s.produce
  | .pop =>
    match s.consumer with
    | .idle => some { s with consumer := .called }
    | _ => none
  | .consume => s.consume

end Link

end PCemWeb.Platform.Net
