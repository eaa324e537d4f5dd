import PCemWeb.Lib.Calendar

/-!
# Real-time clock

`rtc.c` and the port handler `writenvr` of `devices/nvr.c`: the internal clock, its ticks, and the
registers through which the guest sets and reads it. C `int`s are 32-bit words; a month outside the
table of month lengths is `none`.
-/

namespace PCemWeb

/-! ## Registers -/

def RTC_SECONDS : Nat := 0
def RTC_ALARMSECONDS : Nat := 1
def RTC_MINUTES : Nat := 2
def RTC_ALARMMINUTES : Nat := 3
def RTC_HOURS : Nat := 4
def RTC_ALARMHOURS : Nat := 5
def RTC_DOW : Nat := 6
def RTC_DOM : Nat := 7
def RTC_MONTH : Nat := 8
def RTC_YEAR : Nat := 9
def RTC_REGA : Nat := 10
def RTC_REGB : Nat := 11
def RTC_REGC : Nat := 12
def RTC_REGD : Nat := 13
def RTC_CENTURY : Nat := 0x32

def RTC_AMPM : BitVec 32 := 0x80
def RTC_UIP : BitVec 8 := 0x80
def RTC_2412 : BitVec 8 := 0x02
def RTC_DM : BitVec 8 := 0x04
def RTC_UIE : BitVec 8 := 0x10
def RTC_SET : BitVec 8 := 0x80

/-- `BCD(X)` of an `int`, as it is stored in a register. -/
def BCD (x : BitVec 32) : BitVec 8 := (x.srem 10 ||| x.sdiv 10 <<< 4).setWidth 8

/-- `DCB(X)` of a register. -/
def DCB (x : BitVec 8) : BitVec 32 :=
  ((x.setWidth 32 &&& 0xf0).sshiftRight 4) * 10 + (x.setWidth 32 &&& 0x0f)

/-! ## The internal clock -/

/-- `internal_clock`. -/
structure RtcClock : Type where
  sec : BitVec 32
  min : BitVec 32
  hour : BitVec 32
  mday : BitVec 32
  mon : BitVec 32
  year : BitVec 32
  deriving DecidableEq

/-- `rtc_days_in_month`. -/
def rtcDaysInMonth : List (BitVec 32) := [31, 28, 31, 30, 31, 30, 31, 31, 30, 31, 30, 31]

/-- `rtc_is_leap`. -/
def rtcIsLeap (orgYear : BitVec 32) : Bool :=
  if orgYear.srem 400 = 0 then true
  else if orgYear.srem 100 = 0 then false
  else if orgYear.srem 4 = 0 then true
  else false

/-- `rtc_get_days`. -/
def rtcGetDays (orgMonth orgYear : BitVec 32) : Option (BitVec 32) :=
  if orgMonth ≠ 2 then rtcDaysInMonth[(orgMonth - 1).toNat]?
  else some (if rtcIsLeap orgYear then 29 else 28)

/-- `rtc_recalc`. -/
def rtcRecalc (c : RtcClock) : Option RtcClock := do
  let c := if c.sec = 60 then { c with sec := 0, min := c.min + 1 } else c
  let c := if c.min = 60 then { c with min := 0, hour := c.hour + 1 } else c
  let c := if c.hour = 24 then { c with hour := 0, mday := c.mday + 1 } else c
  let days ← rtcGetDays c.mon c.year
  let c := if c.mday = days + 1 then { c with mday := 1, mon := c.mon + 1 } else c
  some (if c.mon = 13 then { c with mon := 1, year := c.year + 1 } else c)

/-- `rtc_tick`. -/
def rtcTick (c : RtcClock) : Option RtcClock := rtcRecalc { c with sec := c.sec + 1 }

/-- `time_week_day`. -/
def timeWeekDay (c : RtcClock) : BitVec 32 :=
  let year2 := c.year.srem 100
  let century := ((c.year - year2).sdiv 100).srem 4
  let sum := c.mday + c.mon + year2 + century
  (sum + 6).srem 7

/-! ## The registers -/

/-- `nvrram`, the clock, the register that port 0x70 selects, and the two settings that
`writenvr` reads: whether the machine has 128 registers, and `enable_sync`. -/
structure Rtc : Type where
  nvrram : Nat → BitVec 8
  clock : RtcClock
  nvraddr : Nat
  large : Bool
  enableSync : Bool

namespace Rtc

variable (s : Rtc)

/-- `nvrmask`, as `loadnvr` sets it. -/
def nvrmask : Nat := if s.large then 127 else 63

/-- `nvrram[RTC_REGB] & RTC_DM`. -/
def dm : Bool := s.nvrram RTC_REGB &&& RTC_DM ≠ 0

/-- `nvrram[RTC_REGB] & RTC_2412`. -/
def h24 : Bool := s.nvrram RTC_REGB &&& RTC_2412 ≠ 0

/-- `nvrram[reg] = val`. -/
def store (reg : Nat) (val : BitVec 8) : Rtc :=
  { s with nvrram := fun a => if a = reg then val else s.nvrram a }

/-- A register in the current data mode: `DM ? nvrram[reg] : DCB(nvrram[reg])`. -/
def field (reg : Nat) : BitVec 32 :=
  if s.dm then (s.nvrram reg).setWidth 32 else DCB (s.nvrram reg)

/-- `time_update`. -/
def timeUpdate (reg : Nat) : RtcClock :=
  let c := s.clock
  if reg = RTC_SECONDS then { c with sec := s.field RTC_SECONDS }
  else if reg = RTC_MINUTES then { c with min := s.field RTC_MINUTES }
  else if reg = RTC_HOURS then
    let temp := s.field RTC_HOURS
    if s.h24 then { c with hour := temp }
    else { c with
      hour := (temp &&& ~~~RTC_AMPM).srem 12 + (if temp &&& RTC_AMPM ≠ 0 then 12 else 0) }
  else if reg = RTC_DOM then { c with mday := s.field RTC_DOM }
  else if reg = RTC_MONTH then { c with mon := s.field RTC_MONTH }
  else if reg = RTC_YEAR then
    { c with
      year := s.field RTC_YEAR + (if s.dm then 1900 else DCB (s.nvrram RTC_CENTURY) * 100) }
  else if reg = RTC_CENTURY then
    if s.dm then c
    else { c with year := c.year.srem 100 + DCB (s.nvrram RTC_CENTURY) * 100 }
  else c

/-- The data port of `writenvr`; the periodic timer and the save flag are not modelled. -/
def writeData (val : BitVec 8) : Rtc :=
  if s.nvraddr = RTC_REGC ∨ s.nvraddr = RTC_REGD then s
  else
    let old := s.nvrram s.nvraddr
    let s := s.store s.nvraddr val
    if s.nvraddr = RTC_REGA then s
    else
      let s :=
        if s.nvraddr = RTC_REGB ∧ (old ^^^ val) &&& RTC_SET ≠ 0 ∧ val &&& RTC_SET ≠ 0 then
          let s := s.store RTC_REGA (s.nvrram RTC_REGA &&& ~~~RTC_UIP)
          s.store RTC_REGB (s.nvrram RTC_REGB &&& ~~~RTC_UIE)
        else s
      if (s.nvraddr < RTC_REGA ∨ s.nvraddr = RTC_CENTURY) ∧
          s.nvraddr ≠ 1 ∧ s.nvraddr ≠ 3 ∧ s.nvraddr ≠ 5 ∧ old ≠ val ∧ s.enableSync = false then
        { s with clock := s.timeUpdate s.nvraddr }
      else s

/-- The index port of `writenvr`. -/
def writeIndex (val : BitVec 8) : Rtc := { s with nvraddr := val.toNat &&& s.nvrmask }

/-- The guest selects a register and writes it. -/
def writenvr (reg : Nat) (val : BitVec 8) : Rtc :=
  (s.writeIndex (BitVec.ofNat 8 reg)).writeData val

/-- `time_internal_get` and `time_set_nvrram`, with `tm_wday`, `tm_mon` and `tm_year` named. -/
def timeGet : Rtc :=
  let c := s.clock
  let tmWday := timeWeekDay c
  let tmMon := c.mon - 1
  let tmYear := c.year - 1900
  let encode : BitVec 32 → BitVec 8 := fun v => if s.dm then v.setWidth 8 else BCD v
  let hours : BitVec 8 :=
    if s.h24 then encode c.hour
    else
      (if c.hour.srem 12 ≠ 0 then encode (c.hour.srem 12) else encode 12) |||
        (if (11 : BitVec 32).slt c.hour then RTC_AMPM.setWidth 8 else 0)
  ((((((s.store RTC_SECONDS (encode c.sec)).store RTC_MINUTES (encode c.min)).store
    RTC_DOW (encode (tmWday + 1))).store RTC_DOM (encode c.mday)).store
    RTC_MONTH (encode (tmMon + 1))).store RTC_YEAR (encode (tmYear.srem 100))).store
    RTC_HOURS hours

end Rtc

/-! ## Setting the clock and letting it run -/

/-- The clock registers that hold a moment. -/
inductive ClockReg : Type
  | seconds
  | minutes
  | hours
  | dow
  | dom
  | month
  | year
  | century
  deriving DecidableEq

/-- The address of a clock register. -/
def ClockReg.addr : ClockReg → Nat
  | seconds => RTC_SECONDS
  | minutes => RTC_MINUTES
  | hours => RTC_HOURS
  | dow => RTC_DOW
  | dom => RTC_DOM
  | month => RTC_MONTH
  | year => RTC_YEAR
  | century => RTC_CENTURY

/-- After the setting: a tick, or a write of register B, which holds the modes. -/
inductive RtcOp : Type
  | tick
  | regB (val : BitVec 8)
  deriving DecidableEq

/-- One of them. -/
def Rtc.step (s : Rtc) : RtcOp → Option Rtc
  | .tick => (rtcTick s.clock).map fun c => { s with clock := c }
  | .regB val => some (s.writenvr RTC_REGB val)

/-- A sequence of them. -/
def Rtc.steps : Rtc → List RtcOp → Option Rtc
  | s, [] => some s
  | s, op :: ops => (s.step op).bind (Rtc.steps · ops)

end PCemWeb
