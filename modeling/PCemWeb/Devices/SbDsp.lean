import Mathlib.Data.BitVec
import Mathlib.Logic.Function.Basic
import PCemWeb.Lib.Run

/-!
# DMA output of the Sound Blaster DSP

`sound_sb_dsp.c`: the commands that start DMA output, pause and continue it, set the block length and
play silence, and the poll of the output timer. The fields `sb_8_*` and `sb_16_*` are one record for
each width. Other commands, input and the mixing of the samples are left out.
-/

namespace PCemWeb.Devices

/-- What `dma_channel_read` gives, with `DMA_OVER` as the top bit. -/
abbrev DmaUnit := BitVec 17

/-- The value of a read as the C `int`; `DMA_NODATA` is -1. -/
def dmaInt : Option DmaUnit → BitVec 32
  | some unit => unit.setWidth 32
  | none => 0xffffffff

inductive DspWidth : Type
  | eight
  | sixteen
  deriving DecidableEq

/-- The fields `sb_8_*`, or `sb_16_*`. -/
structure DspChannel : Type where
  length : Int
  format : BitVec 8
  autoinit : Bool
  pause : Bool
  enable : Bool
  output : Bool
  autolen : Nat

/-- The history of a transfer since the command that started it: the programmed length of the
block and the units taken for it, the same of the blocks that have ended, the units that have been
played, the ADPCM byte in `sbdat2`, the interrupts, and how many of them ended a silence. -/
structure SbTransfer : Type where
  width : DspWidth
  length : Nat
  current : List DmaUnit
  ended : List (Nat × List DmaUnit)
  played : List DmaUnit
  hand : Option DmaUnit
  irqs : Nat
  silences : Nat

namespace SbTransfer

variable (t : SbTransfer)

def start (width : DspWidth) (length : Nat) : SbTransfer where
  width
  length
  current := []
  ended := []
  played := []
  hand := none
  irqs := 0
  silences := 0

/-- Units read and played at once. -/
def play (units : List DmaUnit) : SbTransfer :=
  { t with current := t.current ++ units, played := t.played ++ units }

/-- Units read and not played. -/
def drop (units : List DmaUnit) : SbTransfer := { t with current := t.current ++ units }

/-- A read into `sbdat2`, whose old byte has been played. -/
def fetch (unit : Option DmaUnit) : SbTransfer :=
  { t with
    current := t.current ++ unit.toList
    played := t.played ++ t.hand.toList
    hand := unit }

/-- The end of a block; the next one has the length that is programmed now. -/
def finish (autolen : Nat) : SbTransfer :=
  { t with length := autolen, current := [], ended := t.ended ++ [(t.length, t.current)] }

end SbTransfer

/-- `sb_dsp_t`. -/
structure SbDsp : Type where
  sbType : Nat
  stereo : Bool
  channel : DspWidth → DspChannel
  pausetime : Int
  data : Nat → BitVec 8
  timer : Bool
  sbdat : BitVec 16
  sbdatl : BitVec 16
  sbdatr : BitVec 16
  sbdat2 : BitVec 32
  sbref : BitVec 8
  sbstep : BitVec 8
  sbdacpos : Nat
  sbleftright : Bool
  irq8 : Bool
  irq16 : Bool
  transfer : Option SbTransfer

/-! ## Constants -/

def SB15 : Nat := 3

def SB2 : Nat := 4

def SBPRO : Nat := 5

def SB16 : Nat := 7

def ADPCM_4 : BitVec 8 := 1

def ADPCM_26 : BitVec 8 := 2

def ADPCM_2 : BitVec 8 := 3

def scaleMap4 : List Int :=
  [0, 1, 2, 3, 4, 5, 6, 7, 0, -1, -2, -3, -4, -5, -6, -7, 1, 3, 5, 7, 9, 11, 13, 15, -1, -3, -5, -7,
    -9, -11, -13, -15, 2, 6, 10, 14, 18, 22, 26, 30, -2, -6, -10, -14, -18, -22, -26, -30, 4, 12, 20,
    28, 36, 44, 52, 60, -4, -12, -20, -28, -36, -44, -52, -60]

def adjustMap4 : List (BitVec 8) :=
  [0, 0, 0, 0, 0, 16, 16, 16, 0, 0, 0, 0, 0, 16, 16, 16, 240, 0, 0, 0, 0, 16, 16, 16, 240, 0, 0, 0,
    0, 16, 16, 16, 240, 0, 0, 0, 0, 16, 16, 16, 240, 0, 0, 0, 0, 16, 16, 16, 240, 0, 0, 0, 0, 0, 0, 0,
    240, 0, 0, 0, 0, 0, 0, 0]

def scaleMap26 : List Int :=
  [0, 1, 2, 3, 0, -1, -2, -3, 1, 3, 5, 7, -1, -3, -5, -7, 2, 6, 10, 14, -2, -6, -10, -14, 4, 12, 20,
    28, -4, -12, -20, -28, 5, 15, 25, 35, -5, -15, -25, -35]

def adjustMap26 : List (BitVec 8) :=
  [0, 0, 0, 8, 0, 0, 0, 8, 248, 0, 0, 8, 248, 0, 0, 8, 248, 0, 0, 8, 248, 0, 0, 8, 248, 0, 0, 8, 248,
    0, 0, 8, 248, 0, 0, 0, 248, 0, 0, 0]

def scaleMap2 : List Int :=
  [0, 1, 0, -1, 1, 3, -1, -3, 2, 6, -2, -6, 4, 12, -4, -12, 8, 24, -8, -24, 6, 48, -16, -48]

def adjustMap2 : List (BitVec 8) :=
  [0, 4, 0, 4, 252, 4, 252, 4, 252, 4, 252, 4, 252, 4, 252, 4, 252, 4, 252, 4, 252, 0, 252, 0]

namespace SbDsp

variable (s : SbDsp)

def setChannel (width : DspWidth) (c : DspChannel) : SbDsp :=
  { s with channel := Function.update s.channel width c }

/-- A change of the length that is left. -/
def countdown (width : DspWidth) (count : Int) : SbDsp :=
  s.setChannel width { s.channel width with length := (s.channel width).length - count }

def note (change : SbTransfer → SbTransfer) : SbDsp :=
  { s with transfer := s.transfer.map change }

/-- `sb_irq`. -/
def sbIrq (width : DspWidth) : SbDsp :=
  { s.note fun t => { t with irqs := t.irqs + 1 } with
    irq8 := s.irq8 || width = .eight
    irq16 := s.irq16 || width = .sixteen }

/-! ## Commands -/

def other : DspWidth → DspWidth
  | .eight => .sixteen
  | .sixteen => .eight

/-- Output of the other width gives way. -/
def yield (width : DspWidth) : SbDsp :=
  let c := s.channel (other width)
  if c.enable && c.output then s.setChannel (other width) { c with enable := false } else s

/-- `sb_start_dma`. -/
def startDma (width : DspWidth) (autoinit : Bool) (format : BitVec 8) (len : Nat) : SbDsp :=
  let s := { s with pausetime := -1 }
  let s := s.setChannel width { s.channel width with
    length := len, format, autoinit, pause := false, enable := true, output := true }
  let s := { s.yield width with timer := true }
  match width with
  | .eight => { s with sbleftright := false, sbdacpos := 0 }
  | .sixteen => s

/-- A word of two bytes of `sb_data`. -/
def dataWord (i : Nat) : Nat := (s.data i).toNat + (s.data (i + 1)).toNat * 256

def begin (width : DspWidth) (length : Nat) : SbDsp :=
  { s with transfer := some (.start width length) }

/-- A command that starts PCM output. -/
def pcmOutput (width : DspWidth) (autoinit : Bool) (format : BitVec 8) (len : Nat) : SbDsp :=
  (s.begin width len).startDma width autoinit format len

/-- The byte of the reference. -/
def readRef (byte : Option DmaUnit) : SbDsp :=
  { s.note fun t => t.play byte.toList with sbref := (dmaInt byte).setWidth 8, sbstep := 0 }

def fetch (byte : Option DmaUnit) : SbDsp :=
  { s.note fun t => t.fetch byte with sbdat2 := dmaInt byte }

/-- A command that starts ADPCM output. The programmed length is the parameter, or the block
length where the command has none; the source takes `sb_data` in both cases. -/
def adpcmOutput (reference autoinit : Bool) (format : BitVec 8) (bytes : List DmaUnit) : SbDsp :=
  let len := s.dataWord 0
  let s := s.begin .eight (if autoinit then (s.channel .eight).autolen else len)
  let s := if reference then s.readRef bytes.head? else s
  let s := s.startDma .eight autoinit format len
  let s := s.fetch (if reference then bytes.tail else bytes).head?
  s.countdown .eight (if reference then 2 else 1)

/-- Output of the SB16, with the mode and the length as parameters. -/
def sb16Output (width : DspWidth) (c : BitVec 8) : SbDsp :=
  let s := s.pcmOutput width (c.getLsbD 2) (s.data 0) (s.dataWord 1)
  s.setChannel width { s.channel width with autolen := s.dataWord 1 }

def setPause (width : DspWidth) (pause : Bool) : SbDsp :=
  s.setChannel width { s.channel width with pause }

/-- `sb_exec_command`, for the commands of this model. -/
def execCommand (c : BitVec 8) (bytes : List DmaUnit) : Option SbDsp :=
  if c = 0x14 then some (s.pcmOutput .eight false 0 (s.dataWord 0))
  else if c = 0x16 ∨ c = 0x17 then some (s.adpcmOutput (c = 0x17) false ADPCM_2 bytes)
  else if c = 0x1c then
    some (if s.sbType < SB15 then s else s.pcmOutput .eight true 0 (s.channel .eight).autolen)
  else if c = 0x1f then
    some (if s.sbType < SB15 then s else s.adpcmOutput false true ADPCM_2 bytes)
  else if c = 0x48 then
    some (s.setChannel .eight { s.channel .eight with autolen := s.dataWord 0 })
  else if c = 0x74 ∨ c = 0x75 then some (s.adpcmOutput (c = 0x75) false ADPCM_4 bytes)
  else if c = 0x76 ∨ c = 0x77 then some (s.adpcmOutput (c = 0x77) false ADPCM_26 bytes)
  else if c = 0x7d then
    some (if s.sbType < SB15 then s else s.adpcmOutput false true ADPCM_4 bytes)
  else if c = 0x7f then
    some (if s.sbType < SB15 then s else s.adpcmOutput false true ADPCM_26 bytes)
  else if c = 0x80 then some { s with pausetime := s.dataWord 0, timer := true }
  else if c = 0x90 ∨ c = 0x91 then
    some (if s.sbType < SB2 then s
      else s.pcmOutput .eight (c = 0x90) 0 (s.channel .eight).autolen)
  else if 0xb0 ≤ c ∧ c ≤ 0xb7 then some (if s.sbType < SB16 then s else s.sb16Output .sixteen c)
  else if 0xc0 ≤ c ∧ c ≤ 0xc7 then some (if s.sbType < SB16 then s else s.sb16Output .eight c)
  else if c = 0xd0 then some (s.setPause .eight true)
  else if c = 0xd4 then some (s.setPause .eight false)
  else if c = 0xd5 then some (if s.sbType < SB16 then s else s.setPause .sixteen true)
  else if c = 0xd6 then some (if s.sbType < SB16 then s else s.setPause .sixteen false)
  else none

/-- `sb_commands`, with 0 for -1. -/
def sbCommands (c : BitVec 8) : Nat :=
  if c = 0x14 ∨ c = 0x16 ∨ c = 0x17 ∨ c = 0x48 ∨ (0x74 ≤ c ∧ c ≤ 0x77) ∨ c = 0x80 then 2
  else if (0xb0 ≤ c ∧ c ≤ 0xb7) ∨ (0xc0 ≤ c ∧ c ≤ 0xc7) then 3
  else 0

/-- The parameters go to `sb_data`, which keeps what it held where a command has fewer. -/
def setData (params : List (BitVec 8)) : SbDsp :=
  { s with data := fun i => params.getD i (s.data i) }

/-! ## The poll -/

/-- A sample goes to both sides, or to one after the other on a stereo Sound Blaster Pro. -/
def place : SbDsp :=
  if SBPRO ≤ s.sbType ∧ s.sbType < SB16 ∧ s.stereo then
    if s.sbleftright then { s with sbdatl := s.sbdat, sbleftright := false }
    else { s with sbdatr := s.sbdat, sbleftright := true }
  else { s with sbdatl := s.sbdat, sbdatr := s.sbdat }

/-- The 8-bit mono formats, with the bit that makes the sample signed. -/
def mono8 (sign : BitVec 32) (bytes : List DmaUnit) : SbDsp :=
  match bytes.head? with
  | none => s
  | some byte =>
    let s := { s with sbdat := ((dmaInt (some byte) ^^^ sign) <<< 8).setWidth 16 }
    (s.place.countdown .eight 1).note fun t => t.play [byte]

/-- The 16-bit mono formats. -/
def mono16 (sign : BitVec 32) (words : List DmaUnit) : SbDsp :=
  match words.head? with
  | none => s
  | some word =>
    let sample := (dmaInt (some word) ^^^ sign).setWidth 16
    let s := { s with sbdatl := sample, sbdatr := sample }
    (s.countdown .sixteen 1).note fun t => t.play [word]

/-- The stereo formats, with the place of the sample in 16 bits. A unit without another is lost. -/
def stereoOut (width : DspWidth) (sign : BitVec 32) (shift : Nat) (units : List DmaUnit) : SbDsp :=
  match units.head?, units.tail.head? with
  | some left, some right =>
    let s := { s with
      sbdatl := ((dmaInt (some left) ^^^ sign) <<< shift).setWidth 16
      sbdatr := ((dmaInt (some right) ^^^ sign) <<< shift).setWidth 16 }
    (s.countdown width 2).note fun t => t.play [left, right]
  | left, right => s.note fun t => t.drop (left.toList ++ right.toList)

/-- An ADPCM sample. After the last one of a byte the next byte is read, and the length goes down by
`count`. -/
def adpcm (samples top : Nat) (scale : List Int) (adjust : List (BitVec 8)) (code count : Int)
    (byte : Option DmaUnit) : SbDsp :=
  let tempi := min (code + s.sbstep.toInt).toNat top
  let ref := (s.sbref.toNat : Int) + scale.getD tempi 0
  let sbref : BitVec 8 := if 0xff < ref then 0xff else if ref < 0 then 0 else BitVec.ofInt 8 ref
  let s := { s with
    sbref
    sbstep := s.sbstep + adjust.getD tempi 0
    sbdat := (sbref ^^^ 0x80).setWidth 16 <<< 8 }
  let s := if s.sbdacpos + 1 < samples then { s with sbdacpos := s.sbdacpos + 1 }
    else ({ s with sbdacpos := 0 }.fetch byte).countdown .eight count
  s.place

def adpcm4 (byte : Option DmaUnit) : SbDsp :=
  s.adpcm 2 63 scaleMap4 adjustMap4
    (if s.sbdacpos ≠ 0 then s.sbdat2 &&& 0xf else s.sbdat2.sshiftRight 4).toInt 1 byte

def adpcm26 (byte : Option DmaUnit) : SbDsp :=
  s.adpcm 3 39 scaleMap26 adjustMap26
    (if s.sbdacpos = 0 then s.sbdat2.sshiftRight 5
      else if s.sbdacpos = 1 then s.sbdat2.sshiftRight 2 &&& 7
      else s.sbdat2 <<< 1 &&& 7).toInt 1 byte

/-- The length does not go down. -/
def adpcm2 (byte : Option DmaUnit) : SbDsp :=
  s.adpcm 4 23 scaleMap2 adjustMap2
    (s.sbdat2.sshiftRight ((3 - s.sbdacpos) * 2) &&& 3).toInt 0 byte

/-- The formats of 8-bit output. -/
def output8 (bytes : List DmaUnit) : SbDsp :=
  let format := (s.channel .eight).format
  if format = 0x00 then s.mono8 0x80 bytes
  else if format = 0x10 then s.mono8 0 bytes
  else if format = 0x20 then s.stereoOut .eight 0x80 8 bytes
  else if format = 0x30 then s.stereoOut .eight 0 8 bytes
  else if format = ADPCM_4 then s.adpcm4 bytes.head?
  else if format = ADPCM_26 then s.adpcm26 bytes.head?
  else if format = ADPCM_2 then s.adpcm2 bytes.head?
  else s

/-- The formats of 16-bit output. -/
def output16 (words : List DmaUnit) : SbDsp :=
  let format := (s.channel .sixteen).format
  if format = 0x00 then s.mono16 0x8000 words
  else if format = 0x10 then s.mono16 0 words
  else if format = 0x20 then s.stereoOut .sixteen 0x8000 0 words
  else if format = 0x30 then s.stereoOut .sixteen 0 0 words
  else s

/-- The end of a block, which the length shows by being negative. -/
def finish (width : DspWidth) : SbDsp :=
  let c := s.channel width
  if c.length < 0 then
    let s := if c.autoinit then s.setChannel width { c with length := c.autolen }
      else { s.setChannel width { c with enable := false } with timer := false }
    (s.sbIrq width).note fun t => t.finish c.autolen
  else s

def active (width : DspWidth) : Bool :=
  (s.channel width).enable && !(s.channel width).pause && s.pausetime < 0 &&
    (s.channel width).output

/-- The countdown of a silence. -/
def silence : SbDsp :=
  if -1 < s.pausetime then
    let s := { s with pausetime := s.pausetime - 1 }
    if s.pausetime < 0 then
      let s := (s.sbIrq .eight).note fun t => { t with silences := t.silences + 1 }
      if (s.channel .eight).enable then s else { s with timer := false }
    else s
  else s

/-- `pollsb`, with what the channels give to the reads of the poll. -/
def pollsb (bytes words : List DmaUnit) : SbDsp :=
  let s := if s.active .eight then (s.output8 bytes).finish .eight else s
  let s := if s.active .sixteen then (s.output16 words).finish .sixteen else s
  s.silence

end SbDsp

/-- A command with its parameters and what the 8-bit channel gives meanwhile, or a poll. -/
inductive DspEvent : Type
  | command (c : BitVec 8) (params : List (BitVec 8)) (bytes : List DmaUnit)
  | poll (bytes words : List DmaUnit)

namespace SbDsp

/-- A poll comes as long as the output timer runs. -/
def step (s : SbDsp) : DspEvent → Option SbDsp
  | .command c params bytes =>
    if params.length = sbCommands c then (s.setData params).execCommand c bytes else none
  | .poll bytes words => if s.timer then some (s.pollsb bytes words) else none

end SbDsp

end PCemWeb.Devices
