import Mathlib.Data.Rat.Floor
import Mathlib.Data.UInt
import Mathlib.Logic.Function.Basic
import PCemWeb.Lib.Run

/-!
# The audio rings

The emulator mixes sound into a ring of frames, one of 48 kHz for the cards and one of 44.1 kHz for
the CD, and the audio worklet plays each ring through a resampler of its own. The indices count
frames modulo 2³². The emulator's side is C and takes their distance in 32 bits; the worklet's side
is JavaScript and takes the difference of two numbers. The two sides take turns in any order, an
access to the shared memory at a time, where a frame is one access.

The definitions follow `wasm-audio.c` and `audio-worklet.js`. The worklet's numbers are taken as
exact; indices, fills and targets are whole.
-/

namespace PCemWeb.Platform.Audio

/-- `RING_FRAMES` and `CD_RING_FRAMES`. -/
def ringFrames : UInt32 := 65536

/-- `MAXSOUNDBUFLEN`, the most that `sound_buf_len_al` is set to. -/
def maxSoundBufLen : Nat := 48000 / 10

/-- `CD_BUFLEN`. -/
def cdBufLen : Nat := 44100 / 10

/-- The rate of the audio context. -/
def sampleRate : Nat := 48000

/-- A stereo frame. -/
abbrev Frame := Int16 × Int16

/-- The two streams. -/
inductive Source
  | mix
  | cd
  deriving DecidableEq

namespace Source

def rate : Source → Nat
  | mix => 48000
  | cd => 44100

def prerollFrames : Source → Nat
  | mix => 5760
  | cd => 5292

def maxFrames : Source → Nat
  | mix => 23040
  | cd => 21168

/-- The lengths of the blocks that the mixer gives: `sound_buf_len_al` frames or `CD_BUFLEN`. -/
def Gives : Source → Nat → Prop
  | mix, len => 0 < len ∧ len ≤ maxSoundBufLen
  | cd, len => len = cdBufLen

instance : ∀ (source : Source) (len : Nat), Decidable (source.Gives len)
  | mix, len => inferInstanceAs (Decidable (0 < len ∧ len ≤ maxSoundBufLen))
  | cd, len => inferInstanceAs (Decidable (len = cdBufLen))

end Source

/-! ## The two sides -/

/-- Where the emulator is in `givealbuffer` or `givealbuffer_cd`. -/
inductive Producer
  | idle
  | called (frames : List Frame)
  | writing (frames : List Frame) (w : UInt32) (todo : List (Nat × Frame))
  deriving DecidableEq

/-- `RingStream`, without the views of the ring. -/
structure RingStream where
  rate : Nat
  pos : ℚ
  started : Bool
  target : Nat
  preroll0 : Nat
  max : Nat
  underruns : Nat
  fade : ℚ
  lastL : ℚ
  lastR : ℚ
  fill : Int
  deriving DecidableEq

def RingStream.new (source : Source) : RingStream :=
  ⟨source.rate, 0, false, source.prerollFrames, source.prerollFrames, source.maxFrames, 0, 0, 0, 0, 0⟩

/-- Where the worklet is in `pull`. -/
inductive Consumer
  | idle
  | gotW (w : UInt32)
  | reading (r : UInt32) (step : ℚ)
  | blending (r : UInt32) (step : ℚ) (first : Frame)
  | storing (r : UInt32) (adv : Int)
  deriving DecidableEq

/-- What a pull has found and done: the frames produced when it read the write index, the frames
consumed before, the fill it took, its target, the frames it read and whether it played them. -/
structure Pull where
  seen : Nat
  consumed : Nat
  fill : Int
  target : Nat
  frames : List Frame
  played : Bool
  deriving DecidableEq

/-- A ring with its two sides. What is produced and consumed so far and the pulls are recorded. -/
structure Playback where
  source : Source
  ring : Nat → Frame
  ringWrite : UInt32
  ringRead : UInt32
  audioMuted : Bool
  producer : Producer
  stream : RingStream
  consumer : Consumer
  produced : List Frame
  consumed : Nat
  pull : Pull
  pulls : List Pull

/-- A stream after `inital` and the worklet's `attach`. -/
def Playback.inital (source : Source) (ring : Nat → Frame) (muted : Bool) : Playback :=
  ⟨source, ring, 0, 0, muted, .idle, .new source, .idle, [], 0, ⟨0, 0, 0, 0, [], false⟩, []⟩

/-- The clamping of a mixed sample. -/
def clamp (sample : Int32) : Int16 :=
  if sample < -32768 then -32768 else if 32767 < sample then 32767 else sample.toInt16

inductive Event
  | give (frames : List Frame)
  | produce
  | pull
  | consume
  | setMuted (m : Bool)
  | reset
  deriving DecidableEq

/-- A call of `givealbuffer`. -/
def givealbuffer (buf : List (Int32 × Int32)) : Event :=
  .give (buf.map fun (l, r) => (clamp l, clamp r))

/-- A call of `givealbuffer_cd`. -/
def givealbufferCd (buf : List Frame) : Event := .give buf

/-- The cell of an index. -/
def cellOf (index : UInt32) : Nat := (index &&& (ringFrames - 1)).toNat

/-! ## Playing -/

namespace RingStream

/-- The ratio of the rates, nudged towards the target fill. -/
def step (s : RingStream) (deviceRate : Nat) : ℚ :=
  let err : ℚ := (s.fill - s.target) / s.target
  let nudge : ℚ := -0.015 ⊔ (0.015 ⊓ err * 0.06)
  s.rate / deviceRate * (1 + nudge)

/-- The last samples fade on. -/
def decay (s : RingStream) : RingStream :=
  { s with lastL := s.lastL * 0.98, lastR := s.lastR * 0.98 }

/-- The stream has run dry. -/
def underrun (s : RingStream) : RingStream :=
  { s with
    underruns := s.underruns + 1
    started := false
    target := min (s.target * 3 / 2) s.max
    fade := 0 }

/-- A sample between two. -/
def blend (frac : ℚ) (x y : Int16) : ℚ := (x.toInt * (1 - frac) + y.toInt * frac) / 32768

/-- The output of two frames, after which the cursor moves on. -/
def play (s : RingStream) (step : ℚ) (first second : Frame) : RingStream :=
  let frac := s.pos - ⌊s.pos⌋
  let fade := if s.fade < 1 then min 1 (s.fade + 1 / 96) else s.fade
  { s with
    fade := fade
    pos := s.pos + step
    lastL := blend frac first.1 second.1 * fade
    lastR := blend frac first.2 second.2 * fade }

/-- The `reset` message. -/
def reset (s : RingStream) : RingStream :=
  { s with started := false, target := s.preroll0, underruns := 0 }

end RingStream

namespace Playback

/-- The next access of `givealbuffer`. -/
def produce (s : Playback) : Option Playback :=
  match s.producer with
  | .idle => none
  | .called frames =>
    let fill := s.ringWrite - s.ringRead
    if s.audioMuted then some { s with producer := .idle }
    else if ringFrames - UInt32.ofNat frames.length ≤ fill then some { s with producer := .idle }
    else
      let todo := frames.mapIdx fun c frame => (cellOf (s.ringWrite + UInt32.ofNat c), frame)
      some { s with producer := .writing frames s.ringWrite todo }
  | .writing frames w ((at_, frame) :: todo) =>
    some { s with
      ring := Function.update s.ring at_ frame
      producer := .writing frames w todo }
  | .writing frames w [] =>
    some { s with
      ringWrite := w + UInt32.ofNat frames.length
      producer := .idle
      produced := s.produced ++ frames }

/-- The pull returns. -/
def finish (s : Playback) (stream : RingStream) (played : Bool) : Playback :=
  { s with stream, consumer := .idle, pulls := s.pulls ++ [{ s.pull with played }] }

/-- The next access of `pull`. -/
def consume (s : Playback) : Option Playback :=
  match s.consumer with
  | .idle => none
  | .gotW w =>
    let r := s.ringRead
    let fill : Int := w.toNat - r.toNat
    let stream := { s.stream with fill }
    let s := { s with
      pull := { s.pull with consumed := s.consumed, fill, target := stream.target, frames := [] } }
    if !stream.started && fill < stream.target then some (s.finish stream.decay false)
    else
      let stream := { stream with started := true }
      if fill < 2 then some (s.finish stream.underrun.decay false)
      else some { s with stream, consumer := .reading r (stream.step sampleRate) }
  | .reading r step =>
    let first := s.ring (cellOf r)
    some { s with
      consumer := .blending r step first
      pull := { s.pull with frames := [first] } }
  | .blending r step first =>
    let second := s.ring (cellOf (r + 1))
    some { s with
      stream := s.stream.play step first second
      consumer := .storing r (⌊s.stream.pos + step⌋ - ⌊s.stream.pos⌋)
      pull := { s.pull with frames := [first, second] } }
  | .storing r adv =>
    if 0 < adv then
      some (finish { s with
        ringRead := r + UInt32.ofNat adv.toNat
        consumed := s.consumed + adv.toNat } s.stream true)
    else some (s.finish s.stream true)

def step (s : Playback) : Event → Option Playback
  | .give frames =>
    match s.producer with
    | .idle =>
      if s.source.Gives frames.length then some { s with producer := .called frames } else none
    | _ => none
  | .produce => s.produce
  | .pull =>
    match s.consumer with
    | .idle =>
      some { s with
        consumer := .gotW s.ringWrite
        pull := { s.pull with seen := s.produced.length } }
    | _ => none
  | .consume => s.consume
  | .setMuted m => some { s with audioMuted := m }
  | .reset =>
    match s.consumer with
    | .idle => some { s with stream := s.stream.reset }
    | _ => none

end Playback

end PCemWeb.Platform.Audio
