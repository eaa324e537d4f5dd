import Mathlib.Data.List.Induction
import Mathlib.Tactic.IntervalCases
import PCemWeb.Devices.Rtc

/-!
# The clock against the calendar

The registers that hold a moment, the guest setting the clock in any order, and the registers after
any number of ticks and mode changes.
-/

namespace PCemWeb

open Lib

/-! ## The statement -/

/-- Two decimal digits in one byte. -/
def bcdByte (k : Nat) : BitVec 8 := BitVec.ofNat 8 (16 * (k / 10) + k % 10)

/-- A value in a register, in binary or in BCD. -/
def regByte (dm : Bool) (k : Nat) : BitVec 8 := if dm then BitVec.ofNat 8 k else bcdByte k

/-- The hours register: bit 7 says PM where the format has twelve hours. -/
def hoursByte (dm h24 : Bool) (hour : Nat) : BitVec 8 :=
  if h24 then regByte dm hour
  else regByte dm (if hour % 12 = 0 then 12 else hour % 12) ||| (if 12 ≤ hour then 0x80 else 0)

/-- The clock registers at a moment. The day of the week counts from one for Sunday, and the century
register is BCD in either mode. -/
def ClockReg.encode (dm h24 : Bool) (m : Moment) : ClockReg → BitVec 8
  | seconds => regByte dm m.sec
  | minutes => regByte dm m.min
  | hours => hoursByte dm h24 m.hour
  | dow => regByte dm (m.weekday + 1)
  | dom => regByte dm m.mday
  | month => regByte dm m.mon
  | year => regByte dm (m.year % 100)
  | century => bcdByte (m.year / 100)

/-- A valid moment that the registers can hold, from 1900 on. -/
def Settable (m : Moment) : Prop := m.Valid ∧ 1900 ≤ m.year ∧ m.year ≤ 9999

namespace Rtc

/-- The guest writes the moment into the clock registers, in an order of its own. -/
def setClock (s : Rtc) (m : Moment) (order : List ClockReg) : Rtc :=
  order.foldl (fun t r => t.writenvr r.addr (r.encode s.dm s.h24 m)) s

/-- After the setting and a sequence of ticks and mode changes the registers hold the moment that
many seconds later, in the mode that is then set. -/
def RoundTrip (s : Rtc) (m : Moment) (order : List ClockReg) (ops : List RtcOp) : Prop :=
  ∃ t m', (s.setClock m order).steps ops = some t ∧ Settable m' ∧
    m'.stamp = m.stamp + ops.count .tick ∧
    ∀ r : ClockReg, t.timeGet.nvrram r.addr = r.encode t.dm t.h24 m'

/-- The write of a register changes it. -/
def Changes (s : Rtc) (m : Moment) (r : ClockReg) : Prop :=
  s.nvrram r.addr ≠ r.encode s.dm s.h24 m

instance (s : Rtc) (m : Moment) (r : ClockReg) : Decidable (s.Changes m r) :=
  inferInstanceAs (Decidable (_ ≠ _))

/-- Every write reaches the internal clock: the clock is not kept by the host, a binary year is one
of the twentieth century, and a write that does not change its register finds the clock already
there. -/
structure Lands (s : Rtc) (m : Moment) : Prop where
  sync : s.enableSync = false
  binary : s.dm = true → m.year < 2000
  seconds : s.Changes m .seconds ∨ s.clock.sec = BitVec.ofNat 32 m.sec
  minutes : s.Changes m .minutes ∨ s.clock.min = BitVec.ofNat 32 m.min
  hours : s.Changes m .hours ∨ s.clock.hour = BitVec.ofNat 32 m.hour
  dom : s.Changes m .dom ∨ s.clock.mday = BitVec.ofNat 32 m.mday
  month : s.Changes m .month ∨ s.clock.mon = BitVec.ofNat 32 m.mon
  year : s.Changes m .year ∨ s.clock.year = BitVec.ofNat 32 m.year ∨
    (s.dm = false ∧ s.Changes m .century ∧
      s.clock.year.srem 100 = BitVec.ofNat 32 (m.year % 100))

/-- The sum that the clock takes for the day of the week gives the right day. -/
def SumIsWeekday (m : Moment) : Prop :=
  (m.mday + m.mon + m.year % 100 + m.year / 100 % 4 + 6) % 7 = m.weekday

/-- The hours register is written in BCD with the PM bit, so the bit is lost in the decoding. -/
def LosesPm (s : Rtc) (m : Moment) : Prop :=
  s.dm = false ∧ s.h24 = false ∧ 12 ≤ m.hour ∧ s.Changes m .hours

end Rtc

/-! ## One register -/

section Bytes

variable {k : Nat}

theorem toNat_bcdByte (small : k < 100) : (bcdByte k).toNat = 16 * (k / 10) + k % 10 := by
  rw [bcdByte, BitVec.toNat_ofNat]
  omega

theorem DCB_bcdByte (small : k < 100) : DCB (bcdByte k) = BitVec.ofNat 32 k := by
  have all : ∀ k : Fin 100, DCB (bcdByte k) = BitVec.ofNat 32 k := by decide
  exact all ⟨k, small⟩

theorem setWidth_ofNat (small : k < 100) :
    (BitVec.ofNat 8 k).setWidth 32 = BitVec.ofNat 32 k := by
  have all : ∀ k : Fin 100, (BitVec.ofNat 8 k).setWidth 32 = BitVec.ofNat 32 k := by decide
  exact all ⟨k, small⟩

theorem BCD_ofNat (small : k < 100) : BCD (BitVec.ofNat 32 k) = bcdByte k := by
  have all : ∀ k : Fin 100, BCD (BitVec.ofNat 32 k) = bcdByte k := by decide
  exact all ⟨k, small⟩

/-- Different values below a hundred are different bytes. -/
theorem regByte_inj {dm : Bool} {j : Nat} (small : k < 100) (small' : j < 100)
    (same : regByte dm k = regByte dm j) : k = j := by
  have values := congrArg BitVec.toNat same
  unfold regByte at values
  cases dm with
  | true =>
    simp only [if_true, BitVec.toNat_ofNat] at values
    omega
  | false =>
    simp only [Bool.false_eq_true, if_false, toNat_bcdByte small, toNat_bcdByte small'] at values
    omega

theorem hoursByte_inj {dm h24 : Bool} {j : Nat} (small : k < 24) (small' : j < 24)
    (same : hoursByte dm h24 k = hoursByte dm h24 j) : k = j := by
  have all : ∀ (dm h24 : Bool) (k j : Fin 24),
      hoursByte dm h24 k = hoursByte dm h24 j → k = j := by decide
  exact congrArg Fin.val (all dm h24 ⟨k, small⟩ ⟨j, small'⟩ same)

/-- C arithmetic on small values is that of natural numbers. -/
theorem toInt_ofNat_small (small : k < 2147483648) : (BitVec.ofNat 32 k).toInt = k := by
  rw [BitVec.toInt_ofNat']
  apply Int.bmod_eq_of_le <;> omega

theorem srem_ofNat {j : Nat} (small : k < 2147483648) (small' : j < 2147483648) :
    (BitVec.ofNat 32 k).srem (BitVec.ofNat 32 j) = BitVec.ofNat 32 (k % j) := by
  have below : k % j < 2147483648 := Nat.lt_of_le_of_lt (Nat.mod_le _ _) small
  rw [← BitVec.toInt_inj, BitVec.toInt_srem, toInt_ofNat_small small, toInt_ofNat_small small',
    toInt_ofNat_small below, Int.ofNat_tmod]

theorem sdiv_ofNat {j : Nat} (small : k < 2147483648) (small' : j < 2147483648) :
    (BitVec.ofNat 32 k).sdiv (BitVec.ofNat 32 j) = BitVec.ofNat 32 (k / j) := by
  have below : k / j < 2147483648 := Nat.lt_of_le_of_lt (Nat.div_le_self _ _) small
  rw [← BitVec.toInt_inj, BitVec.toInt_sdiv, toInt_ofNat_small small, toInt_ofNat_small small',
    toInt_ofNat_small below, ← Int.ofNat_tdiv]
  generalize k / j = q at below
  apply Int.bmod_eq_of_le <;> omega

theorem DCB_le (c : BitVec 8) : ∃ d ≤ 165, DCB c = BitVec.ofNat 32 d := by
  have all : ∀ c : BitVec 8, (DCB c).toNat ≤ 165 := by decide
  exact ⟨(DCB c).toNat, all c, by rw [BitVec.ofNat_toNat, BitVec.setWidth_eq]⟩

/-- A year put together from its two registers. -/
theorem year_srem (c : BitVec 8) (small : k < 100) :
    (BitVec.ofNat 32 k + DCB c * 100).srem 100 = BitVec.ofNat 32 k := by
  obtain ⟨d, bound, value⟩ := DCB_le c
  have sum : BitVec.ofNat 32 k + DCB c * 100 = BitVec.ofNat 32 (k + d * 100) := by
    rw [value, BitVec.ofNat_add, BitVec.ofNat_mul]
    rfl
  rw [sum, show (100 : BitVec 32) = BitVec.ofNat 32 100 from rfl, srem_ofNat (by omega) (by omega)]
  congr 1
  omega

/-- The hour that the clock takes from its register. -/
def decodedHour (dm h24 : Bool) (hour : Nat) : Nat :=
  if dm = false ∧ h24 = false ∧ 12 ≤ hour then (8 + hour % 12) % 12 else hour

theorem hour_decoded {dm h24 : Bool} (small : k < 24) :
    (if h24 then (if dm then (hoursByte dm h24 k).setWidth 32 else DCB (hoursByte dm h24 k))
      else
        ((if dm then (hoursByte dm h24 k).setWidth 32 else DCB (hoursByte dm h24 k)) &&&
            ~~~RTC_AMPM).srem 12 +
          (if (if dm then (hoursByte dm h24 k).setWidth 32 else DCB (hoursByte dm h24 k)) &&&
              RTC_AMPM ≠ 0 then 12 else 0)) = BitVec.ofNat 32 (decodedHour dm h24 k) := by
  have all : ∀ (dm h24 : Bool) (k : Fin 24),
      (if h24 then (if dm then (hoursByte dm h24 k).setWidth 32 else DCB (hoursByte dm h24 k))
        else
          ((if dm then (hoursByte dm h24 k).setWidth 32 else DCB (hoursByte dm h24 k)) &&&
              ~~~RTC_AMPM).srem 12 +
            (if (if dm then (hoursByte dm h24 k).setWidth 32 else DCB (hoursByte dm h24 k)) &&&
                RTC_AMPM ≠ 0 then 12 else 0)) = BitVec.ofNat 32 (decodedHour dm h24 k) := by
    decide
  exact all dm h24 ⟨k, small⟩

theorem decodedHour_lt {dm h24 : Bool} (small : k < 24) : decodedHour dm h24 k < 24 := by
  unfold decodedHour
  split <;> omega

end Bytes

namespace Rtc

/-! ## One write -/

section Write

variable (s : Rtc) (r : ClockReg) (v : BitVec 8)

theorem index_eq : (BitVec.ofNat 8 r.addr).toNat &&& s.nvrmask = r.addr := by
  unfold nvrmask
  split <;> cases r <;> rfl

/-- A clock register is stored, and where its value changes the clock takes it. -/
theorem writenvr_eq :
    s.writenvr r.addr v =
      if s.nvrram r.addr ≠ v ∧ s.enableSync = false then
        { { s with nvraddr := r.addr }.store r.addr v with
          clock := ({ s with nvraddr := r.addr }.store r.addr v).timeUpdate r.addr }
      else { s with nvraddr := r.addr }.store r.addr v := by
  have plain : r.addr ≠ RTC_REGA ∧ r.addr ≠ RTC_REGB ∧ r.addr ≠ RTC_REGC ∧ r.addr ≠ RTC_REGD ∧
      (r.addr < RTC_REGA ∨ r.addr = RTC_CENTURY) ∧ r.addr ≠ 1 ∧ r.addr ≠ 3 ∧ r.addr ≠ 5 := by
    cases r <;> decide
  obtain ⟨notA, notB, notC, notD, held, not1, not3, not5⟩ := plain
  simp only [writenvr, writeIndex, writeData, index_eq, store, notA, notB, notC, notD, held, not1,
    not3, not5, or_self, if_false, false_and, true_and, ne_eq, not_false_eq_true]

/-- What a write leaves alone, and what it stores. -/
theorem writenvr_nvrram (a : Nat) :
    (s.writenvr r.addr v).nvrram a = if a = r.addr then v else s.nvrram a := by
  rw [writenvr_eq]
  split <;> rfl

theorem writenvr_sync : (s.writenvr r.addr v).enableSync = s.enableSync := by
  rw [writenvr_eq]
  split <;> rfl

theorem writenvr_modes :
    (s.writenvr r.addr v).dm = s.dm ∧ (s.writenvr r.addr v).h24 = s.h24 := by
  have other : RTC_REGB ≠ r.addr := by cases r <;> decide
  unfold dm h24
  rw [writenvr_nvrram, if_neg other]
  exact ⟨rfl, rfl⟩

theorem writenvr_clock (sync : s.enableSync = false) :
    (s.writenvr r.addr v).clock =
      if s.nvrram r.addr ≠ v then ({ s with nvraddr := r.addr }.store r.addr v).timeUpdate r.addr
      else s.clock := by
  simp only [writenvr_eq, sync, and_true]
  split <;> rfl

end Write

/-- `time_update` sets the field of the register. -/
theorem timeUpdate_hours (t : Rtc) :
    t.timeUpdate ClockReg.hours.addr =
      { t.clock with
        hour :=
          if t.h24 then t.field RTC_HOURS
          else (t.field RTC_HOURS &&& ~~~RTC_AMPM).srem 12 +
            (if t.field RTC_HOURS &&& RTC_AMPM ≠ 0 then 12 else 0) } := by
  change (if t.h24 = true then _ else _) = _
  split <;> rfl

theorem timeUpdate_century (t : Rtc) :
    t.timeUpdate ClockReg.century.addr =
      { t.clock with
        year :=
          if t.dm then t.clock.year
          else t.clock.year.srem 100 + DCB (t.nvrram RTC_CENTURY) * 100 } := by
  change (if t.dm = true then _ else _) = _
  split <;> rfl

/-- The fields that a register does not set. -/
theorem timeUpdate_frame (t : Rtc) (r : ClockReg) :
    (r ≠ .seconds → (t.timeUpdate r.addr).sec = t.clock.sec) ∧
      (r ≠ .minutes → (t.timeUpdate r.addr).min = t.clock.min) ∧
      (r ≠ .hours → (t.timeUpdate r.addr).hour = t.clock.hour) ∧
      (r ≠ .dom → (t.timeUpdate r.addr).mday = t.clock.mday) ∧
      (r ≠ .month → (t.timeUpdate r.addr).mon = t.clock.mon) ∧
      (r ≠ .year → r ≠ .century → (t.timeUpdate r.addr).year = t.clock.year) := by
  cases r with
  | hours =>
    rw [timeUpdate_hours]
    simp
  | century =>
    rw [timeUpdate_century]
    simp
  | seconds | minutes | dow | dom | month | year =>
    refine ⟨?_, ?_, ?_, ?_, ?_, ?_⟩ <;> intros <;> first | contradiction | rfl

/-- The value that the clock takes from a register. -/
theorem field_store {s : Rtc} {r : ClockReg} {k : Nat} (small : k < 100) :
    ({ s with nvraddr := r.addr }.store r.addr (regByte s.dm k)).field r.addr =
      BitVec.ofNat 32 k := by
  have other : RTC_REGB ≠ r.addr := by cases r <;> decide
  have mode : ({ s with nvraddr := r.addr }.store r.addr (regByte s.dm k)).dm = s.dm := by
    simp only [dm, store, if_neg other]
  have held : ({ s with nvraddr := r.addr }.store r.addr (regByte s.dm k)).nvrram r.addr =
      regByte s.dm k := if_pos rfl
  rw [field, mode, held]
  unfold regByte
  cases s.dm with
  | true =>
    simp only [if_true]
    exact setWidth_ofNat small
  | false =>
    simp only [Bool.false_eq_true, if_false]
    exact DCB_bcdByte small

/-! ## A sequence of writes -/

section Sequence

variable {s : Rtc} {m : Moment} {order : List ClockReg}

theorem setClock_append (r : ClockReg) :
    s.setClock m (order ++ [r]) =
      (s.setClock m order).writenvr r.addr (r.encode s.dm s.h24 m) := by
  simp only [setClock, List.foldl_append, List.foldl_cons, List.foldl_nil]

theorem setClock_modes :
    (s.setClock m order).dm = s.dm ∧ (s.setClock m order).h24 = s.h24 ∧
      (s.setClock m order).enableSync = s.enableSync := by
  induction order using List.reverseRecOn with
  | nil => exact ⟨rfl, rfl, rfl⟩
  | append_singleton order r ih =>
    rw [setClock_append, (writenvr_modes _ r _).1, (writenvr_modes _ r _).2, writenvr_sync]
    exact ih

theorem addr_inj {r r' : ClockReg} (same : r.addr = r'.addr) : r = r' := by
  revert same
  cases r <;> cases r' <;> decide

/-- A register that has been written holds its value of the moment. -/
theorem setClock_nvrram (r : ClockReg) :
    (s.setClock m order).nvrram r.addr =
      if r ∈ order then r.encode s.dm s.h24 m else s.nvrram r.addr := by
  induction order using List.reverseRecOn with
  | nil => rfl
  | append_singleton order r' ih =>
    rw [setClock_append, writenvr_nvrram, ih]
    by_cases here : r = r'
    · subst here
      rw [if_pos rfl, if_pos (by simp)]
    · rw [if_neg fun same => here (addr_inj same)]
      simp only [List.mem_append, List.mem_singleton, here, or_false]

/-- A field that one register alone sets: it has the value written, if the write changed the
register. -/
theorem setClock_field (get : RtcClock → BitVec 32) {r : ClockReg} {val : BitVec 32}
    (sync : s.enableSync = false) (nodup : order.Nodup)
    (own : ∀ t : Rtc, t.dm = s.dm → t.h24 = s.h24 →
      get (({ t with nvraddr := r.addr }.store r.addr (r.encode s.dm s.h24 m)).timeUpdate r.addr) =
        val)
    (other : ∀ (t : Rtc) (r' : ClockReg) (v : BitVec 8), r' ≠ r →
      get (({ t with nvraddr := r'.addr }.store r'.addr v).timeUpdate r'.addr) = get t.clock) :
    get (s.setClock m order).clock =
      if r ∈ order ∧ s.Changes m r then val else get s.clock := by
  induction order using List.reverseRecOn with
  | nil =>
    simp only [List.not_mem_nil, false_and, if_false]
    rfl
  | append_singleton order r' ih =>
    obtain ⟨before, -, apart⟩ := List.nodup_append.mp nodup
    have fresh : r' ∉ order := fun inside => apart r' inside r' (.head _) rfl
    obtain ⟨dm, h24, sync'⟩ : (s.setClock m order).dm = s.dm ∧ (s.setClock m order).h24 = s.h24 ∧
      (s.setClock m order).enableSync = s.enableSync := setClock_modes
    rw [setClock_append, writenvr_clock _ _ _ (sync'.trans sync)]
    by_cases here : r' = r
    · subst here
      rw [setClock_nvrram, if_neg fresh]
      change get (if s.Changes m r' then _ else _) = _
      have listed : r' ∈ order ++ [r'] := by simp
      by_cases changes : s.Changes m r'
      · rw [if_pos changes, if_pos ⟨listed, changes⟩]
        exact own _ dm h24
      · rw [if_neg changes, if_neg fun both => changes both.2, ih before,
          if_neg fun both => changes both.2]
    · simp only [List.mem_append, List.mem_singleton, Ne.symm here, or_false]
      rw [← ih before]
      split
      · exact other _ _ _ here
      · rfl

/-- A write that lands leaves its field at the value. -/
theorem setClock_lands (get : RtcClock → BitVec 32) {r : ClockReg} {val : BitVec 32}
    (sync : s.enableSync = false) (nodup : order.Nodup) (listed : r ∈ order)
    (lands : s.Changes m r ∨ get s.clock = val)
    (own : ∀ t : Rtc, t.dm = s.dm → t.h24 = s.h24 →
      get (({ t with nvraddr := r.addr }.store r.addr (r.encode s.dm s.h24 m)).timeUpdate r.addr) =
        val)
    (other : ∀ (t : Rtc) (r' : ClockReg) (v : BitVec 8), r' ≠ r →
      get (({ t with nvraddr := r'.addr }.store r'.addr v).timeUpdate r'.addr) = get t.clock) :
    get (s.setClock m order).clock = val := by
  rw [setClock_field get sync nodup own other]
  split
  · rfl
  · rename_i kept
    exact lands.resolve_left fun changes => kept ⟨listed, changes⟩

section Fields

variable (sync : s.enableSync = false) (nodup : order.Nodup) (all : ∀ r : ClockReg, r ∈ order)
  (settable : Settable m)

include sync nodup all settable

theorem setClock_sec (lands : s.Changes m .seconds ∨ s.clock.sec = BitVec.ofNat 32 m.sec) :
    (s.setClock m order).clock.sec = BitVec.ofNat 32 m.sec := by
  have small := settable.1.sec
  apply setClock_lands RtcClock.sec sync nodup (all _) lands
  · intro t dm _
    rw [← dm]
    exact field_store (r := .seconds) (by omega)
  · intro t r' v apart
    exact (timeUpdate_frame _ r').1 apart

theorem setClock_min (lands : s.Changes m .minutes ∨ s.clock.min = BitVec.ofNat 32 m.min) :
    (s.setClock m order).clock.min = BitVec.ofNat 32 m.min := by
  have small := settable.1.min
  apply setClock_lands RtcClock.min sync nodup (all _) lands
  · intro t dm _
    rw [← dm]
    exact field_store (r := .minutes) (by omega)
  · intro t r' v apart
    exact (timeUpdate_frame _ r').2.1 apart

theorem setClock_mday (lands : s.Changes m .dom ∨ s.clock.mday = BitVec.ofNat 32 m.mday) :
    (s.setClock m order).clock.mday = BitVec.ofNat 32 m.mday := by
  have small := settable.1.mday.2
  have length := Moment.daysInMonth_le m.year m.mon
  apply setClock_lands RtcClock.mday sync nodup (all _) lands
  · intro t dm _
    rw [← dm]
    exact field_store (r := .dom) (by omega)
  · intro t r' v apart
    exact (timeUpdate_frame _ r').2.2.2.1 apart

theorem setClock_mon (lands : s.Changes m .month ∨ s.clock.mon = BitVec.ofNat 32 m.mon) :
    (s.setClock m order).clock.mon = BitVec.ofNat 32 m.mon := by
  have small := settable.1.mon.2
  apply setClock_lands RtcClock.mon sync nodup (all _) lands
  · intro t dm _
    rw [← dm]
    exact field_store (r := .month) (by omega)
  · intro t r' v apart
    exact (timeUpdate_frame _ r').2.2.2.2.1 apart

/-- The hour that the clock then has. -/
theorem setClock_hour (lands : s.Changes m .hours ∨ s.clock.hour = BitVec.ofNat 32 m.hour) :
    (s.setClock m order).clock.hour =
      BitVec.ofNat 32 (if s.Changes m .hours then decodedHour s.dm s.h24 m.hour else m.hour) := by
  rw [@setClock_field s m order RtcClock.hour .hours
    (BitVec.ofNat 32 (decodedHour s.dm s.h24 m.hour)) sync nodup]
  · by_cases changes : s.Changes m .hours
    · rw [if_pos ⟨all _, changes⟩, if_pos changes]
    · rw [if_neg fun both => changes both.2, if_neg changes]
      exact lands.resolve_left changes
  · intro t dm h24
    rw [timeUpdate_hours, ← hour_decoded settable.1.hour, ← dm, ← h24]
    rfl
  · intro t r' v apart
    exact (timeUpdate_frame _ r').2.2.1 apart

end Fields

/-- What a write of the year register sets. -/
theorem timeUpdate_year (t : Rtc) (k : Nat) (small : k < 100) :
    (({ t with nvraddr := ClockReg.year.addr }.store ClockReg.year.addr
        (regByte t.dm k)).timeUpdate ClockReg.year.addr).year =
      BitVec.ofNat 32 k +
        (if t.dm then 1900 else DCB (t.nvrram ClockReg.century.addr) * 100) := by
  rw [← field_store (s := t) (r := .year) small]
  rfl

/-- What a write of the century register sets. -/
theorem timeUpdate_century_year (t : Rtc) (v : BitVec 8) :
    (({ t with nvraddr := ClockReg.century.addr }.store ClockReg.century.addr v).timeUpdate
        ClockReg.century.addr).year =
      if t.dm then t.clock.year else t.clock.year.srem 100 + DCB v * 100 := by
  rw [timeUpdate_century]
  rfl

/-- The year after a sequence of writes, whatever their order. -/
theorem setClock_year_eq (sync : s.enableSync = false) (nodup : order.Nodup) :
    (s.setClock m order).clock.year =
      (let base :=
        if .year ∈ order ∧ s.Changes m .year then
          BitVec.ofNat 32 (m.year % 100) +
            (if s.dm then 1900 else DCB (s.nvrram ClockReg.century.addr) * 100)
        else s.clock.year
      if (.century ∈ order ∧ s.Changes m .century) ∧ s.dm = false then
        base.srem 100 + DCB (ClockReg.century.encode s.dm s.h24 m) * 100
      else base) := by
  have small : m.year % 100 < 100 := Nat.mod_lt _ (by decide)
  induction order using List.reverseRecOn with
  | nil =>
    simp only [List.not_mem_nil, false_and, if_false]
    rfl
  | append_singleton order r ih =>
    obtain ⟨before, -, apart⟩ := List.nodup_append.mp nodup
    have fresh : r ∉ order := fun inside => apart r inside r (.head _) rfl
    obtain ⟨dm, h24, sync'⟩ : (s.setClock m order).dm = s.dm ∧ (s.setClock m order).h24 = s.h24 ∧
      (s.setClock m order).enableSync = s.enableSync := setClock_modes
    rw [setClock_append, writenvr_clock _ _ _ (sync'.trans sync)]
    by_cases isYear : r = .year
    · subst isYear
      have other : (.century : ClockReg) ∈ order ++ [.year] ↔ (.century : ClockReg) ∈ order := by
        simp
      have here : (.year : ClockReg) ∈ order ++ [.year] := by simp
      rw [setClock_nvrram, if_neg fresh]
      change RtcClock.year (if s.Changes m .year then _ else _) = _
      simp only [other, here, true_and]
      by_cases changes : s.Changes m .year
      · have written := timeUpdate_year (s.setClock m order) _ small
        rw [dm] at written
        rw [if_pos changes, if_pos changes]
        refine written.trans ?_
        rw [setClock_nvrram]
        -- the century register holds its new value if it has been written already
        cases mode : s.dm with
        | true => simp
        | false =>
          simp only [Bool.false_eq_true, if_false, and_true]
          by_cases listed : (.century : ClockReg) ∈ order
          · by_cases century : s.Changes m .century
            · rw [if_pos listed, if_pos ⟨listed, century⟩, year_srem _ small]
            · rw [if_pos listed, if_neg fun both => century both.2, ← mode,
                ← not_not.mp century]
          · rw [if_neg listed, if_neg fun both => listed both.1]
      · rw [if_neg changes, if_neg changes, ih before]
        simp only [fresh, false_and, if_false]
    · by_cases isCentury : r = .century
      · subst isCentury
        have years : (.year : ClockReg) ∈ order ++ [.century] ↔ (.year : ClockReg) ∈ order := by
          simp
        have here : (.century : ClockReg) ∈ order ++ [.century] := by simp
        have base := ih before
        simp only [fresh, false_and, if_false] at base
        rw [setClock_nvrram, if_neg fresh]
        change RtcClock.year (if s.Changes m .century then _ else _) = _
        simp only [years, here, true_and]
        by_cases changes : s.Changes m .century
        · rw [if_pos changes, timeUpdate_century_year, dm, base]
          cases s.dm with
          | true => simp
          | false => simp only [changes, Bool.false_eq_true, if_false, and_self, if_true]
        · rw [if_neg changes, base]
          simp only [changes, false_and, if_false]
      · have years : (.year : ClockReg) ∈ order ++ [r] ↔ (.year : ClockReg) ∈ order := by
          simp [Ne.symm isYear]
        have centuries : (.century : ClockReg) ∈ order ++ [r] ↔ (.century : ClockReg) ∈ order := by
          simp [Ne.symm isCentury]
        simp only [years, centuries]
        rw [← ih before]
        split
        · exact (timeUpdate_frame _ r).2.2.2.2.2 isYear isCentury
        · rfl

theorem setClock_year (lands : s.Lands m) (nodup : order.Nodup) (all : ∀ r : ClockReg, r ∈ order)
    (settable : Settable m) : (s.setClock m order).clock.year = BitVec.ofNat 32 m.year := by
  obtain ⟨-, least, most⟩ := settable
  have digits : m.year % 100 + m.year / 100 * 100 = m.year := Nat.mod_add_div' m.year 100
  have century : DCB (bcdByte (m.year / 100)) = BitVec.ofNat 32 (m.year / 100) :=
    DCB_bcdByte (by omega)
  have whole : BitVec.ofNat 32 (m.year % 100) + DCB (bcdByte (m.year / 100)) * 100 =
      BitVec.ofNat 32 m.year := by
    rw [century, show (100 : BitVec 32) = BitVec.ofNat 32 100 from rfl, ← BitVec.ofNat_mul,
      ← BitVec.ofNat_add, digits]
  have low : (BitVec.ofNat 32 m.year).srem 100 = BitVec.ofNat 32 (m.year % 100) :=
    srem_ofNat (by omega) (by decide)
  rw [setClock_year_eq lands.sync nodup]
  simp only [all, true_and, ClockReg.encode]
  cases mode : s.dm with
  | true =>
    have binary := lands.binary mode
    simp only [Bool.true_eq_false, and_false, if_false, if_true]
    split
    · rw [show (1900 : BitVec 32) = BitVec.ofNat 32 1900 from rfl, ← BitVec.ofNat_add]
      congr 1
      omega
    · rename_i same
      rcases lands.year with changes | kept | ⟨bcd, -, -⟩
      · exact absurd changes same
      · exact kept
      · rw [mode] at bcd
        cases bcd
  | false =>
    simp only [Bool.false_eq_true, if_false, and_true]
    by_cases changes : s.Changes m .year
    · rw [if_pos changes, year_srem _ (Nat.mod_lt _ (by decide))]
      split
      · exact whole
      · rename_i same
        have held : s.nvrram ClockReg.century.addr = bcdByte (m.year / 100) := not_not.mp same
        rw [held]
        exact whole
    · rw [if_neg changes]
      rcases lands.year with changed | kept | ⟨-, changed, kept⟩
      · exact absurd changed changes
      · rw [kept, low]
        split
        · exact whole
        · rfl
      · rw [if_pos changed, kept]
        exact whole

end Sequence

/-! ## Ticks -/

/-- The internal clock at a moment. -/
def clockOf (m : Moment) : RtcClock :=
  { sec := BitVec.ofNat 32 m.sec
    min := BitVec.ofNat 32 m.min
    hour := BitVec.ofNat 32 m.hour
    mday := BitVec.ofNat 32 m.mday
    mon := BitVec.ofNat 32 m.mon
    year := BitVec.ofNat 32 m.year }

theorem ofNat_eq_iff {a b : Nat} (small : a < 4294967296) (small' : b < 4294967296) :
    BitVec.ofNat 32 a = BitVec.ofNat 32 b ↔ a = b := by
  rw [← BitVec.toNat_inj, BitVec.toNat_ofNat, BitVec.toNat_ofNat, Nat.mod_eq_of_lt small,
    Nat.mod_eq_of_lt small']

theorem rtcIsLeap_ofNat {y : Nat} (small : y < 2147483648) :
    rtcIsLeap (BitVec.ofNat 32 y) = decide (LeapYear y) := by
  have rem (k : Nat) (pos : 0 < k) (bound : k < 2147483648) :
      (BitVec.ofNat 32 y).srem (BitVec.ofNat 32 k) = 0 ↔ y % k = 0 := by
    have below := Nat.mod_lt y pos
    rw [srem_ofNat small bound, show (0 : BitVec 32) = BitVec.ofNat 32 0 from rfl,
      ofNat_eq_iff (by omega) (by omega)]
  have by400 : (BitVec.ofNat 32 y).srem 400 = 0 ↔ y % 400 = 0 := rem 400 (by decide) (by decide)
  have by100 : (BitVec.ofNat 32 y).srem 100 = 0 ↔ y % 100 = 0 := rem 100 (by decide) (by decide)
  have by4 : (BitVec.ofNat 32 y).srem 4 = 0 ↔ y % 4 = 0 := rem 4 (by decide) (by decide)
  rw [Bool.eq_iff_iff, decide_eq_true_iff]
  unfold rtcIsLeap
  simp only [by400, by100, by4]
  split
  · exact iff_of_true rfl ⟨by omega, by omega⟩
  · split
    · exact iff_of_false (by decide) fun leap => by rcases leap with ⟨-, leap | leap⟩ <;> omega
    · split
      · exact iff_of_true rfl ⟨by omega, by omega⟩
      · exact iff_of_false (by decide) fun leap => by have fourth := leap.1; omega

theorem rtcGetDays_ofNat {y mon : Nat} (small : y < 2147483648) (inside : 1 ≤ mon ∧ mon ≤ 12) :
    rtcGetDays (BitVec.ofNat 32 mon) (BitVec.ofNat 32 y) =
      some (BitVec.ofNat 32 (daysInMonth y mon)) := by
  obtain ⟨first, last⟩ := inside
  unfold rtcGetDays
  rw [rtcIsLeap_ofNat small]
  interval_cases mon
  case «2» =>
    rw [if_neg (by decide), daysInMonth]
    by_cases leap : LeapYear y
    · rw [if_pos (decide_eq_true leap), if_pos leap]
      rfl
    · rw [if_neg (by simpa using leap), if_neg leap]
      rfl
  all_goals rfl

/-- A tick of a clock that shows a valid moment. -/
theorem rtcTick_clockOf {m : Moment} (valid : m.Valid) (small : m.year < 2147483647) :
    rtcTick (clockOf m) = some (clockOf m.next) := by
  obtain ⟨mon, mday, hour, min, sec⟩ := valid
  have length := Moment.daysInMonth_le m.year m.mon
  have days := rtcGetDays_ofNat (y := m.year) (by omega) mon
  have up (k : Nat) : BitVec.ofNat 32 k + 1 = BitVec.ofNat 32 (k + 1) := by
    rw [BitVec.ofNat_add]
    rfl
  have at60 (k : Nat) (bound : k < 100) : BitVec.ofNat 32 k = 60 ↔ k = 60 :=
    ofNat_eq_iff (by omega) (by decide)
  have at24 (k : Nat) (bound : k < 100) : BitVec.ofNat 32 k = 24 ↔ k = 24 :=
    ofNat_eq_iff (by omega) (by decide)
  have at13 (k : Nat) (bound : k < 100) : BitVec.ofNat 32 k = 13 ↔ k = 13 :=
    ofNat_eq_iff (by omega) (by decide)
  have atEnd (k : Nat) (bound : k < 100) :
      BitVec.ofNat 32 k = BitVec.ofNat 32 (daysInMonth m.year m.mon + 1) ↔
        k = daysInMonth m.year m.mon + 1 :=
    ofNat_eq_iff (by omega) (by omega)
  have noHour : m.hour ≠ 24 := by omega
  have noMin : m.min ≠ 60 := by omega
  have noDay : m.mday ≠ daysInMonth m.year m.mon + 1 := by omega
  have noMon : m.mon ≠ 13 := by omega
  unfold rtcTick rtcRecalc Moment.next clockOf
  by_cases lastSec : m.sec + 1 = 60
  · by_cases lastMin : m.min + 1 = 60
    · by_cases lastHour : m.hour + 1 = 24
      · by_cases within : m.mday < daysInMonth m.year m.mon
        · have day : m.mday + 1 ≠ daysInMonth m.year m.mon + 1 := by omega
          simp (disch := omega) only [up, at60, at24, at13, atEnd, days, noMon, lastSec, lastMin,
            lastHour, within, day, Nat.lt_irrefl, if_true, if_false, Option.bind_eq_bind,
            Option.bind_some]
          rfl
        · have day : m.mday = daysInMonth m.year m.mon := by omega
          by_cases before : m.mon < 12
          · have month : m.mon + 1 ≠ 13 := by omega
            simp (disch := omega) only [up, at60, at24, at13, days, lastSec, lastMin, lastHour,
              before, day, month, Nat.lt_irrefl, if_true, if_false, Option.bind_eq_bind,
              Option.bind_some]
            rfl
          · have month : m.mon = 12 := by omega
            rw [month] at days day
            simp (disch := omega) only [up, at60, at24, at13, days, lastSec, lastMin, lastHour, day,
              month, Nat.lt_irrefl, if_true, if_false, Option.bind_eq_bind,
              Option.bind_some]
            rfl
      · have hour' : m.hour + 1 < 24 := by omega
        simp (disch := omega) only [up, at60, at24, at13, atEnd, days, noDay, noMon, lastSec,
          lastMin, lastHour, hour', Nat.lt_irrefl, if_true, if_false, Option.bind_eq_bind,
          Option.bind_some]
        rfl
    · have min' : m.min + 1 < 60 := by omega
      simp (disch := omega) only [up, at60, at24, at13, atEnd, days, noHour, noDay, noMon, lastSec,
        lastMin, min', Nat.lt_irrefl, if_true, if_false, Option.bind_eq_bind, Option.bind_some]
      rfl
  · have sec' : m.sec + 1 < 60 := by omega
    simp (disch := omega) only [up, at60, at24, at13, atEnd, days, noMin, noHour, noDay, noMon,
      lastSec, sec', if_true, if_false, Option.bind_eq_bind, Option.bind_some]

/-! ## Running on -/

/-- A write of register B leaves the clock and its registers alone. -/
theorem writenvr_regB (s : Rtc) (val : BitVec 8) :
    (s.writenvr RTC_REGB val).clock = s.clock ∧
      (s.writenvr RTC_REGB val).nvrram RTC_CENTURY = s.nvrram RTC_CENTURY := by
  have index : (BitVec.ofNat 8 RTC_REGB).toNat &&& s.nvrmask = RTC_REGB := by
    unfold nvrmask
    split <;> rfl
  unfold writenvr writeIndex
  rw [index]
  have plain : RTC_REGB ≠ RTC_REGC ∧ RTC_REGB ≠ RTC_REGD ∧ RTC_REGB ≠ RTC_REGA ∧
      ¬(RTC_REGB < RTC_REGA ∨ RTC_REGB = RTC_CENTURY) := by decide
  obtain ⟨notC, notD, notA, none⟩ := plain
  unfold writeData
  rw [if_neg (by simp only [notC, notD, or_self, not_false_eq_true])]
  dsimp only [store]
  rw [if_neg notA]
  split
  · exact ⟨by rw [if_neg fun both => none both.1], by rw [if_neg fun both => none both.1]; rfl⟩
  · exact ⟨by rw [if_neg fun both => none both.1], by rw [if_neg fun both => none both.1]; rfl⟩

/-- The clock keeps to the calendar through any sequence of ticks and mode changes. -/
theorem steps_clockOf {s : Rtc} {m : Moment} (ops : List RtcOp) (valid : m.Valid)
    (small : (m.advance (ops.count .tick)).year < 2147483647) (shows : s.clock = clockOf m) :
    ∃ t, s.steps ops = some t ∧ t.clock = clockOf (m.advance (ops.count .tick)) ∧
      t.nvrram RTC_CENTURY = s.nvrram RTC_CENTURY := by
  induction ops generalizing s m with
  | nil => exact ⟨s, rfl, shows, rfl⟩
  | cons op ops ih =>
    cases op with
    | tick =>
      rw [List.count_cons_self] at small ⊢
      have split : m.advance (ops.count .tick + 1) = m.next.advance (ops.count .tick) :=
        Function.iterate_succ_apply _ _ _
      have first := Moment.year_le_advance valid (ops.count .tick + 1)
      rw [split] at small ⊢
      have ticked := rtcTick_clockOf valid (by rw [split] at first; omega)
      obtain ⟨t, done, clock, century⟩ :=
        ih (s := { s with clock := clockOf m.next }) valid.next small rfl
      refine ⟨t, ?_, clock, century⟩
      rw [steps, step, shows, ticked]
      exact done
    | regB val =>
      have same : (RtcOp.regB val :: ops).count .tick = ops.count .tick :=
        List.count_cons_of_ne (by simp)
      rw [same] at small ⊢
      obtain ⟨keptClock, keptCentury⟩ := writenvr_regB s val
      obtain ⟨t, done, clock, century⟩ := ih valid small (keptClock.trans shows)
      exact ⟨t, done, clock, century.trans keptCentury⟩

/-! ## The registers shown -/

/-- The day of the week that the clock's sum gives, Sunday being zero. -/
def sumDay (m : Moment) : Nat := (m.mday + m.mon + m.year % 100 + m.year / 100 % 4 + 6) % 7

theorem timeWeekDay_clockOf {m : Moment} (valid : m.Valid) (small : m.year < 2147483648) :
    timeWeekDay (clockOf m) = BitVec.ofNat 32 (sumDay m) := by
  have month := valid.mon.2
  have day := valid.mday.2
  have length := Moment.daysInMonth_le m.year m.mon
  have up (j k : Nat) : BitVec.ofNat 32 j + BitVec.ofNat 32 k = BitVec.ofNat 32 (j + k) :=
    (BitVec.ofNat_add j k).symm
  have low : (BitVec.ofNat 32 m.year).srem 100 = BitVec.ofNat 32 (m.year % 100) :=
    srem_ofNat small (by decide)
  have whole : BitVec.ofNat 32 m.year - BitVec.ofNat 32 (m.year % 100) =
      BitVec.ofNat 32 (m.year / 100 * 100) := by
    rw [BitVec.sub_eq_iff_eq_add, up]
    congr 1
    omega
  have hundreds : (BitVec.ofNat 32 (m.year / 100 * 100)).sdiv 100 =
      BitVec.ofNat 32 (m.year / 100) := by
    rw [show (100 : BitVec 32) = BitVec.ofNat 32 100 from rfl, sdiv_ofNat (by omega) (by decide),
      Nat.mul_div_cancel _ (by decide)]
  have century : (BitVec.ofNat 32 (m.year / 100)).srem 4 = BitVec.ofNat 32 (m.year / 100 % 4) :=
    srem_ofNat (by omega) (by decide)
  unfold timeWeekDay clockOf sumDay
  dsimp only
  rw [low, whole, hundreds, century, up, up, up,
    show (6 : BitVec 32) = BitVec.ofNat 32 6 from rfl, up,
    show (7 : BitVec 32) = BitVec.ofNat 32 7 from rfl, srem_ofNat (by omega) (by decide)]

theorem encode_ofNat {dm : Bool} {k : Nat} (small : k < 100) :
    (if dm then (BitVec.ofNat 32 k).setWidth 8 else BCD (BitVec.ofNat 32 k)) = regByte dm k := by
  unfold regByte
  cases dm with
  | true =>
    have all : ∀ k : Fin 100, (BitVec.ofNat 32 k).setWidth 8 = BitVec.ofNat 8 k := by decide
    exact all ⟨k, small⟩
  | false => exact BCD_ofNat small

theorem hours_shown {dm h24 : Bool} {k : Nat} (small : k < 24) :
    (if h24 then (if dm then (BitVec.ofNat 32 k).setWidth 8 else BCD (BitVec.ofNat 32 k))
      else
        (if (BitVec.ofNat 32 k).srem 12 ≠ 0 then
            (if dm then ((BitVec.ofNat 32 k).srem 12).setWidth 8
              else BCD ((BitVec.ofNat 32 k).srem 12))
          else (if dm then (12 : BitVec 32).setWidth 8 else BCD 12)) |||
          (if (11 : BitVec 32).slt (BitVec.ofNat 32 k) then RTC_AMPM.setWidth 8 else 0)) =
      hoursByte dm h24 k := by
  have all : ∀ (dm h24 : Bool) (k : Fin 24),
      (if h24 then (if dm then (BitVec.ofNat 32 k).setWidth 8 else BCD (BitVec.ofNat 32 k))
        else
          (if (BitVec.ofNat 32 k).srem 12 ≠ 0 then
              (if dm then ((BitVec.ofNat 32 k).srem 12).setWidth 8
                else BCD ((BitVec.ofNat 32 k).srem 12))
            else (if dm then (12 : BitVec 32).setWidth 8 else BCD 12)) |||
            (if (11 : BitVec 32).slt (BitVec.ofNat 32 k) then RTC_AMPM.setWidth 8 else 0)) =
        hoursByte dm h24 k := by decide
  exact all dm h24 ⟨k, small⟩

/-- The registers that `time_get` fills from a clock that shows a moment. -/
theorem timeGet_clockOf {s : Rtc} {m : Moment} (settable : m.Valid ∧ 1900 ≤ m.year)
    (small : m.year < 2147483648) (shows : s.clock = clockOf m) (r : ClockReg) :
    s.timeGet.nvrram r.addr =
      match r with
      | .dow => regByte s.dm (sumDay m + 1)
      | .century => s.nvrram RTC_CENTURY
      | r => r.encode s.dm s.h24 m := by
  obtain ⟨valid, least⟩ := settable
  have length := Moment.daysInMonth_le m.year m.mon
  have weekday := timeWeekDay_clockOf valid small
  obtain ⟨⟨_, month⟩, ⟨_, day⟩, hour, min, sec⟩ := valid
  cases r with
  | seconds =>
    change (if s.dm = true then s.clock.sec.setWidth 8 else BCD s.clock.sec) = _
    rw [shows]
    exact encode_ofNat (by omega)
  | minutes =>
    change (if s.dm = true then s.clock.min.setWidth 8 else BCD s.clock.min) = _
    rw [shows]
    exact encode_ofNat (by omega)
  | hours =>
    have shown : _ = hoursByte s.dm s.h24 m.hour := hours_shown hour
    refine Eq.trans ?_ shown
    change (if s.h24 = true then (if s.dm = true then s.clock.hour.setWidth 8 else BCD s.clock.hour)
      else _) = _
    rw [shows]
    rfl
  | dow =>
    change (if s.dm = true then (timeWeekDay s.clock + 1).setWidth 8
      else BCD (timeWeekDay s.clock + 1)) = _
    have below : sumDay m < 7 := Nat.mod_lt _ (by decide)
    rw [shows, weekday, show (1 : BitVec 32) = BitVec.ofNat 32 1 from rfl,
      ← BitVec.ofNat_add]
    exact encode_ofNat (by omega)
  | dom =>
    change (if s.dm = true then s.clock.mday.setWidth 8 else BCD s.clock.mday) = _
    rw [shows]
    exact encode_ofNat (by omega)
  | month =>
    change (if s.dm = true then (s.clock.mon - 1 + 1).setWidth 8
      else BCD (s.clock.mon - 1 + 1)) = _
    rw [shows, BitVec.sub_add_cancel]
    exact encode_ofNat (by omega)
  | year =>
    have since : BitVec.ofNat 32 m.year - 1900 = BitVec.ofNat 32 (m.year - 1900) := by
      rw [show (1900 : BitVec 32) = BitVec.ofNat 32 1900 from rfl, BitVec.sub_eq_iff_eq_add,
        ← BitVec.ofNat_add, Nat.sub_add_cancel least]
    have digits : (BitVec.ofNat 32 (m.year - 1900)).srem 100 = BitVec.ofNat 32 (m.year % 100) := by
      have same : (m.year - 1900) % 100 = m.year % 100 := by omega
      rw [show (100 : BitVec 32) = BitVec.ofNat 32 100 from rfl, srem_ofNat (by omega) (by decide),
        same]
    unfold timeGet
    dsimp only [store]
    rw [if_neg (show ClockReg.year.addr ≠ RTC_HOURS by decide),
      if_pos (show ClockReg.year.addr = RTC_YEAR from rfl), shows]
    dsimp only [clockOf]
    rw [since, digits]
    exact encode_ofNat (Nat.mod_lt _ (by decide))
  | century => rfl

/-! ## The round trip -/

section RoundTrip

variable {s : Rtc} {m : Moment} {order : List ClockReg} {ops : List RtcOp}

/-- The hour that the clock has after the setting. -/
def hourSet (s : Rtc) (m : Moment) : Nat :=
  if s.Changes m .hours then decodedHour s.dm s.h24 m.hour else m.hour

/-- The setting loses the PM bit exactly where the hour is another. -/
theorem hourSet_eq_iff (settable : Settable m) : s.hourSet m = m.hour ↔ ¬s.LosesPm m := by
  have small := settable.1.hour
  unfold hourSet LosesPm decodedHour
  by_cases changes : s.Changes m .hours
  · simp only [changes, if_true, and_true]
    split
    · rename_i loses
      exact iff_of_false (by omega) (not_not.mpr loses)
    · rename_i keeps
      exact iff_of_true rfl keeps
  · simp only [changes, if_false, and_false, not_false_eq_true]

theorem hourSet_le (settable : Settable m) : s.hourSet m ≤ m.hour := by
  have small := settable.1.hour
  unfold hourSet decodedHour
  repeat' split
  all_goals omega

/-- The moment to which the setting brings the clock. -/
def momentSet (s : Rtc) (m : Moment) : Moment := { m with hour := s.hourSet m }

theorem momentSet_of_keeps (settable : Settable m) (keeps : ¬s.LosesPm m) : s.momentSet m = m := by
  unfold momentSet
  rw [(hourSet_eq_iff settable).mpr keeps]

theorem valid_momentSet (settable : Settable m) : (s.momentSet m).Valid := by
  have hour := hourSet_le (s := s) settable
  obtain ⟨⟨mon, mday, below, min, sec⟩, -⟩ := settable
  exact ⟨mon, mday, Nat.lt_of_le_of_lt hour below, min, sec⟩

/-- The internal clock after the setting. -/
theorem setClock_clock (lands : s.Lands m) (settable : Settable m) (nodup : order.Nodup)
    (all : ∀ r : ClockReg, r ∈ order) :
    (s.setClock m order).clock = clockOf (s.momentSet m) := by
  have sec := setClock_sec lands.sync nodup all settable lands.seconds
  have min := setClock_min lands.sync nodup all settable lands.minutes
  have hour := setClock_hour lands.sync nodup all settable lands.hours
  have mday := setClock_mday lands.sync nodup all settable lands.dom
  have mon := setClock_mon lands.sync nodup all settable lands.month
  have year := setClock_year lands nodup all settable
  rcases clock : (s.setClock m order).clock with ⟨c1, c2, c3, c4, c5, c6⟩
  rw [clock] at sec min hour mday mon year
  dsimp only at sec min hour mday mon year
  rw [sec, min, hour, mday, mon, year]
  rfl

/-- What the registers show after the setting, the ticks and the mode changes. -/
theorem setClock_shown (ops : List RtcOp) (lands : s.Lands m) (settable : Settable m)
    (nodup : order.Nodup)
    (all : ∀ r : ClockReg, r ∈ order)
    (small : ((s.momentSet m).advance (ops.count .tick)).year < 2147483647) :
    ∃ t, (s.setClock m order).steps ops = some t ∧ ∀ r : ClockReg,
      t.timeGet.nvrram r.addr =
        match r with
        | .dow => regByte t.dm (sumDay ((s.momentSet m).advance (ops.count .tick)) + 1)
        | .century => bcdByte (m.year / 100)
        | r => r.encode t.dm t.h24 ((s.momentSet m).advance (ops.count .tick)) := by
  have valid := valid_momentSet (s := s) settable
  obtain ⟨t, done, clock, century⟩ :=
    steps_clockOf ops valid small (setClock_clock lands settable nodup all)
  refine ⟨t, done, fun r => ?_⟩
  have least := Moment.year_le_advance valid (ops.count .tick)
  rw [timeGet_clockOf ⟨valid.advance _, Nat.le_trans settable.2.1 least⟩ (by omega) clock]
  cases r with
  | century =>
    dsimp only
    rw [century]
    exact (setClock_nvrram .century).trans (if_pos (all _))
  | seconds | minutes | hours | dow | dom | month | year => rfl

/-- A moment some seconds after the setting, of which the clock has only the hour wrong. -/
theorem eq_of_shown (settable : Settable m) {m' : Moment} {n : Nat} (valid' : m'.Valid)
    (later : m'.stamp = m.stamp + n)
    (time : ((s.momentSet m).advance n).time = m'.time) :
    ¬s.LosesPm m ∧ (s.momentSet m).advance n = m' := by
  have stamps := Moment.stamp_advance (valid_momentSet (s := s) settable) n
  have below := hourSet_le (s := s) settable
  have small := settable.1.hour
  have hours : s.hourSet m = m.hour := by
    have days : (s.momentSet m).days = m.days := rfl
    unfold Moment.stamp at later stamps
    rw [time, days] at stamps
    unfold Moment.time at later stamps
    unfold momentSet at stamps
    dsimp only at stamps
    omega
  have keeps := (hourSet_eq_iff settable).mp hours
  rw [momentSet_of_keeps settable keeps]
  exact ⟨keeps, (Moment.eq_advance settable.1 valid' later).symm⟩

/-- What a round trip needs. -/
theorem roundTrip_needs (lands : s.Lands m) (settable : Settable m) (nodup : order.Nodup)
    (all : ∀ r : ClockReg, r ∈ order) (trip : s.RoundTrip m order ops) :
    ¬s.LosesPm m ∧ ∃ m', Settable m' ∧ m'.stamp = m.stamp + ops.count .tick ∧
      m'.year / 100 = m.year / 100 ∧ SumIsWeekday m' := by
  have valid := valid_momentSet (s := s) settable
  have stamps := Moment.stamp_advance valid (ops.count .tick)
  obtain ⟨t, m', done, settable', later, shown⟩ := trip
  have behind : ((s.momentSet m).advance (ops.count .tick)).year ≤ m'.year := by
    apply Moment.year_le_of_stamp (valid.advance _) settable'.1
    have hour := hourSet_le (s := s) settable
    have days : (s.momentSet m).days = m.days := rfl
    have time : (s.momentSet m).time ≤ m.time := by
      unfold Moment.time momentSet
      dsimp only
      omega
    unfold Moment.stamp at later stamps ⊢
    omega
  have most := settable'.2.2
  obtain ⟨t', done', shown'⟩ := setClock_shown ops lands settable nodup all (by omega)
  cases Option.some.inj (done.symm.trans done')
  have reached := valid.advance (ops.count .tick)
  have same (r : ClockReg) := (shown' r).symm.trans (shown r)
  have sec := regByte_inj (Nat.lt_trans reached.sec (by decide))
    (Nat.lt_trans settable'.1.sec (by decide)) (same .seconds)
  have min := regByte_inj (Nat.lt_trans reached.min (by decide))
    (Nat.lt_trans settable'.1.min (by decide)) (same .minutes)
  have hour := hoursByte_inj reached.hour settable'.1.hour (same .hours)
  obtain ⟨keeps, equal⟩ := eq_of_shown settable settable'.1 later (by
    unfold Moment.time
    rw [sec, min, hour])
  rw [equal] at same
  have day : sumDay m' + 1 < 100 := by
    have below : sumDay m' < 7 := Nat.mod_lt _ (by decide)
    omega
  have weekday : m'.weekday + 1 < 100 := by
    have below : m'.weekday < 7 := Nat.mod_lt _ (by decide)
    omega
  have settableM := settable.2.2
  have bytes : regByte false (m.year / 100) = regByte false (m'.year / 100) := same .century
  have centuries := regByte_inj (by omega) (by omega) bytes
  exact ⟨keeps, m', settable', later, centuries.symm,
    Nat.succ.inj (regByte_inj day weekday (same .dow))⟩

/-- It is enough. -/
theorem roundTrip_holds (lands : s.Lands m) (settable : Settable m) (nodup : order.Nodup)
    (all : ∀ r : ClockReg, r ∈ order) (keeps : ¬s.LosesPm m)
    {m' : Moment} (settable' : Settable m') (later : m'.stamp = m.stamp + ops.count .tick)
    (century : m'.year / 100 = m.year / 100) (weekday : SumIsWeekday m') :
    s.RoundTrip m order ops := by
  have reached : (s.momentSet m).advance (ops.count .tick) = m' := by
    rw [momentSet_of_keeps settable keeps]
    exact (Moment.eq_advance settable.1 settable'.1 later).symm
  have most := settable'.2.2
  obtain ⟨t, done, shown⟩ :=
    setClock_shown ops lands settable nodup all (by rw [reached]; omega)
  rw [reached] at shown
  refine ⟨t, m', done, settable', later, fun r => ?_⟩
  rw [shown]
  cases r with
  | dow =>
    dsimp only [ClockReg.encode]
    rw [sumDay, weekday]
  | century =>
    dsimp only [ClockReg.encode]
    rw [century]
  | seconds | minutes | hours | dom | month | year => rfl

end RoundTrip

/-- A machine with the clock stopped at the start of 1990, all other registers at `0xff`. -/
def stopped (regB : BitVec 8) : Rtc :=
  { nvrram := fun a => if a = RTC_REGB then regB else 0xff
    clock := clockOf ⟨1990, 1, 1, 0, 0, 0⟩
    nvraddr := 0
    large := false
    enableSync := false }

/-- The clock registers from the century down. -/
def downwards : List ClockReg :=
  [.century, .year, .month, .dom, .dow, .hours, .minutes, .seconds]

theorem downwards_all (r : ClockReg) : r ∈ downwards := by cases r <;> decide

theorem lands_stopped {regB : BitVec 8} {m : Moment} (binary : (stopped regB).dm = false)
    (changes : ∀ r : ClockReg, r.encode false (stopped regB).h24 m ≠ 0xff) :
    (stopped regB).Lands m := by
  have change (r : ClockReg) : (stopped regB).Changes m r := by
    have apart : r.addr ≠ RTC_REGB := by cases r <;> decide
    unfold Changes
    rw [show (stopped regB).nvrram r.addr = 0xff from if_neg apart, binary]
    exact (changes r).symm
  refine ⟨rfl, ?_, .inl (change _), .inl (change _), .inl (change _), .inl (change _),
    .inl (change _), .inl (change _)⟩
  intro mode
  rw [binary] at mode
  cases mode

end Rtc

end PCemWeb
