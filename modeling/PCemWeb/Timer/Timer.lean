import PCemWeb.Lib.LinkedList
import PCemWeb.Lib.SerialOrder
import PCemWeb.Lib.Run

/-!
# The timer queue

The timers of `timer.c`: structures with an expiry in 32:32 format, the enabled ones linked from
`timer_head`. A timer is numbered from 1 and 0 is `NULL`. `timer_process` is split at its
callbacks, so that a callback is a sequence of calls and may process timers itself.
-/

namespace PCemWeb.Timer

open Lib

/-- `pc_timer_t`, without the callback and its argument. -/
structure PcTimer where
  magic : BitVec 32
  tsInteger : BitVec 32
  tsFrac : BitVec 32
  enabled : Bool
  prev : Nat
  next : Nat

/-- `TIMER_MAGIC`. -/
def timerMagic : BitVec 32 := 0x544D5243

/-- `MAX_TIMERS`. -/
def maxTimers : Nat := 256

/-- A timer before its first `timer_add`. -/
def PcTimer.zero : PcTimer := ⟨0, 0, 0, false, 0, 0⟩

/-- Where an activation of `timer_process` is: at the test of its loop, or in a callback. -/
inductive Activation
  | looping
  | inCallback
  deriving DecidableEq

/-- The timers of the program, the globals of `timer.c` and the active calls of
`timer_process`, innermost first. -/
structure Timers where
  timer : Nat → PcTimer
  count : Nat
  timerHead : Nat
  timerTarget : BitVec 32
  allTimers : List Nat
  tsc : BitVec 64
  active : List Activation

/-- The program at its start: `count` timers, none of them added. -/
def Timers.initial (count : Nat) : Timers where
  timer := fun _ => .zero
  count := count
  timerHead := 0
  timerTarget := 0
  allTimers := []
  tsc := 0
  active := []

namespace Timers

variable (s : Timers) (t : Nat)

/-- `timer_valid`. -/
def valid : Bool := t ≠ 0 && (s.timer t).magic = timerMagic

/-- `TIMER_LESS_THAN`. -/
def lessThan (a b : Nat) : Bool := SerialLe (s.timer a).tsInteger (s.timer b).tsInteger

/-- `TIMER_LESS_THAN_VAL`. -/
def lessThanVal (b : BitVec 32) : Bool := SerialLe (s.timer t).tsInteger b

/-- `(uint32_t)tsc`. -/
def tsc32 : BitVec 32 := s.tsc.setWidth 32

/-- Fields of one timer assigned. -/
def put (f : PcTimer → PcTimer) : Timers :=
  { s with timer := Function.update s.timer t (f (s.timer t)) }

def putNext (next : Nat) : Timers := s.put t fun timer => { timer with next }

def putPrev (prev : Nat) : Timers := s.put t fun timer => { timer with prev }

def putHead (head : Nat) : Timers := { s with timerHead := head }

def putTarget (target : BitVec 32) : Timers := { s with timerTarget := target }

/-! The fields of a state after an assignment. -/

section Fields

variable {s t} {u n : Nat} {f : PcTimer → PcTimer} {target : BitVec 32}

theorem put_timer : (s.put t f).timer u = if u = t then f (s.timer t) else s.timer u :=
  Function.update_apply _ _ _ _

@[simp] theorem put_timerHead : (s.put t f).timerHead = s.timerHead := rfl

@[simp] theorem put_timerTarget : (s.put t f).timerTarget = s.timerTarget := rfl

@[simp] theorem putHead_timer : (s.putHead n).timer u = s.timer u := rfl

@[simp] theorem putHead_timerHead : (s.putHead n).timerHead = n := rfl

@[simp] theorem putHead_timerTarget : (s.putHead n).timerTarget = s.timerTarget := rfl

@[simp] theorem putTarget_timer : (s.putTarget target).timer u = s.timer u := rfl

@[simp] theorem putTarget_timerHead : (s.putTarget target).timerHead = s.timerHead := rfl

@[simp] theorem putTarget_timerTarget : (s.putTarget target).timerTarget = target := rfl

@[simp] theorem putNext_next :
    ((s.putNext t n).timer u).next = if u = t then n else (s.timer u).next := by
  rw [putNext, put_timer]
  split <;> rfl

@[simp] theorem putNext_prev : ((s.putNext t n).timer u).prev = (s.timer u).prev := by
  rw [putNext, put_timer]
  split
  · simp [*]
  · rfl

@[simp] theorem putNext_enabled : ((s.putNext t n).timer u).enabled = (s.timer u).enabled := by
  rw [putNext, put_timer]
  split
  · simp [*]
  · rfl

@[simp] theorem putNext_tsInteger :
    ((s.putNext t n).timer u).tsInteger = (s.timer u).tsInteger := by
  rw [putNext, put_timer]
  split
  · simp [*]
  · rfl

@[simp] theorem putNext_timerHead : (s.putNext t n).timerHead = s.timerHead := rfl

@[simp] theorem putNext_timerTarget : (s.putNext t n).timerTarget = s.timerTarget := rfl

@[simp] theorem putPrev_prev :
    ((s.putPrev t n).timer u).prev = if u = t then n else (s.timer u).prev := by
  rw [putPrev, put_timer]
  split <;> rfl

@[simp] theorem putPrev_next : ((s.putPrev t n).timer u).next = (s.timer u).next := by
  rw [putPrev, put_timer]
  split
  · simp [*]
  · rfl

@[simp] theorem putPrev_enabled : ((s.putPrev t n).timer u).enabled = (s.timer u).enabled := by
  rw [putPrev, put_timer]
  split
  · simp [*]
  · rfl

@[simp] theorem putPrev_tsInteger :
    ((s.putPrev t n).timer u).tsInteger = (s.timer u).tsInteger := by
  rw [putPrev, put_timer]
  split
  · simp [*]
  · rfl

@[simp] theorem putPrev_timerHead : (s.putPrev t n).timerHead = s.timerHead := rfl

@[simp] theorem putPrev_timerTarget : (s.putPrev t n).timerTarget = s.timerTarget := rfl

end Fields

/-! ## The list -/

/-- `timer_disable` behind its tests: the timer is unlinked. -/
def unlink : Timers :=
  let s := s.put t fun timer => { timer with enabled := false }
  let s := if (s.timer t).prev ≠ 0 then s.putNext (s.timer t).prev (s.timer t).next
    else s.putHead (s.timer t).next
  let s := if (s.timer t).next ≠ 0 then s.putPrev (s.timer t).next (s.timer t).prev else s
  s.put t fun timer => { timer with prev := 0, next := 0 }

/-- `timer_disable`; `none` is the call of `fatal`. -/
def timerDisable : Option Timers :=
  if !s.valid t then some s
  else if !(s.timer t).enabled then some s
  else if (s.timer t).next = 0 && (s.timer t).prev = 0 && t ≠ s.timerHead then none
  else some (s.unlink t)

/-- The timer becomes the only one of an empty list. -/
def startList : Timers :=
  let s := s.putHead t
  let s := s.put t fun timer => { timer with prev := 0, next := 0 }
  s.putTarget (s.timer t).tsInteger

/-- What `timer_enable` does at a node that is not a timer. -/
def truncate (node : Nat) : Timers :=
  if node = s.timerHead then s.startList t
  else
    let s := s.putNext t s.timerHead
    let s := s.putPrev t 0
    let s := s.putPrev s.timerHead t
    let s := s.putHead t
    s.putTarget (s.timer t).tsInteger

/-- The timer is linked in front of `node`. -/
def linkBefore (node : Nat) : Timers :=
  let s := s.putNext t node
  let s := s.putPrev t (s.timer node).prev
  let s := s.putPrev node t
  if (s.timer t).prev ≠ 0 then s.putNext (s.timer t).prev t
  else
    let s := s.putHead t
    s.putTarget (s.timer t).tsInteger

/-- The timer is linked behind the last node. -/
def linkLast (node : Nat) : Timers := (s.putNext node t).putPrev t node

/-- The loop of `timer_enable` from `node` on; `none` when the nodes do not end. -/
def insertFrom : (fuel node : Nat) → Option Timers
  | 0, _ => none
  | fuel + 1, node =>
    if !s.valid node then some (s.truncate t node)
    else if s.lessThan t node then some (s.linkBefore t node)
    else if (s.timer node).next = 0 then some (s.linkLast t node)
    else insertFrom fuel (s.timer node).next

/-- `timer_enable` behind the call of `timer_disable`. -/
def insert : Option Timers :=
  if (s.timer t).next ≠ 0 ∨ (s.timer t).prev ≠ 0 then none
  else
    let s := s.put t fun timer => { timer with enabled := true }
    if s.timerHead = 0 then some (s.startList t) else s.insertFrom t s.count s.timerHead

/-- `timer_enable`. -/
def timerEnable : Option Timers :=
  if !s.valid t then some s
  else if (s.timer t).enabled then (s.timerDisable t).bind (·.insert t)
  else s.insert t

/-- `timer_advance_u64`. -/
def timerAdvance (delay : BitVec 64) : Option Timers :=
  let intDelay := (delay >>> 32).setWidth 32
  let fracDelay := delay.setWidth 32
  let s := if fracDelay + (s.timer t).tsFrac < fracDelay then
    s.put t fun timer => { timer with tsInteger := timer.tsInteger + 1 } else s
  let s := s.put t fun timer => { timer with
    tsFrac := timer.tsFrac + fracDelay, tsInteger := timer.tsInteger + intDelay }
  s.timerEnable t

/-- `timer_set_delay_u64`. -/
def timerSetDelay (delay : BitVec 64) : Option Timers :=
  let s := s.put t fun timer => { timer with
    tsFrac := delay.setWidth 32, tsInteger := (delay >>> 32).setWidth 32 + s.tsc32 }
  s.timerEnable t

/-- `timer_add` behind the call of `timer_disable`: the timer is cleared and registered. -/
def register : Timers :=
  let s := s.put t fun _ => { PcTimer.zero with magic := timerMagic }
  if s.allTimers.length < maxTimers then { s with allTimers := s.allTimers ++ [t] } else s

/-- `timer_add`. -/
def timerAdd (startTimer : Bool) : Option Timers := do
  let s ← if (s.timer t).magic = timerMagic && (s.timer t).enabled then s.timerDisable t else some s
  let s := s.register t
  if startTimer then s.timerSetDelay t 0 else some s

/-- The loop of `timer_reset` over the registered timers. -/
def forget (timer : Nat → PcTimer) : Nat → PcTimer := fun t =>
  if t ∈ s.allTimers ∧ t ≠ 0 ∧ (timer t).magic = timerMagic then
    { timer t with enabled := false, prev := 0, next := 0, magic := 0 }
  else timer t

/-- `timer_reset`. -/
def timerReset : Timers :=
  { s with timer := s.forget s.timer, timerTarget := 0, tsc := 0, timerHead := 0, allTimers := [] }

/-! ## Processing -/

/-- `timer_remove_head`, called with a list that is not empty. -/
def timerRemoveHead : Timers :=
  let timer := s.timerHead
  let s := s.putHead (s.timer timer).next
  let s := if s.timerHead ≠ 0 then
      if !s.valid s.timerHead then s.putHead 0 else s.putPrev s.timerHead 0
    else s
  s.put timer fun timer => { timer with prev := 0, next := 0, enabled := false }

/-- The end of `timer_process`. -/
def finish (rest : List Activation) : Timers :=
  let s := if s.timerHead ≠ 0 then s.putTarget (s.timer s.timerHead).tsInteger else s
  { s with active := rest }

/-- The test of `timer_process`'s loop and what follows it, up to the callback's first
instruction. -/
def turn (rest : List Activation) : Timers :=
  if s.timerHead = 0 then s.finish rest
  else if !s.valid s.timerHead then (s.putHead 0).finish rest
  else if !s.lessThanVal s.timerHead s.tsc32 then s.finish rest
  else { s.timerRemoveHead with active := .inCallback :: rest }

end Timers

/-- One call, one turn of `timer_process`, the return of a callback, or a move of the time stamp
counter. -/
inductive Call
  | timerAdd (t : Nat) (startTimer : Bool)
  | timerSetDelay (t : Nat) (delay : BitVec 64)
  | timerAdvance (t : Nat) (delay : BitVec 64)
  | timerEnable (t : Nat)
  | timerDisable (t : Nat)
  | timerReset
  | timerProcess
  | turn
  | callbackReturns
  | setTsc (tsc : BitVec 64)

/-- The timer a call is given. -/
def Call.timer : Call → Option Nat
  | .timerAdd t _ | .timerSetDelay t _ | .timerAdvance t _ | .timerEnable t | .timerDisable t => some t
  | _ => none

namespace Timers

/-- A call is made with a timer of the program, by code that is not in the loop of
`timer_process`; a turn is taken there, and a callback returns once. -/
def admits (s : Timers) : Call → Bool
  | .turn => s.active.head? = some .looping
  | .callbackReturns => s.active.head? = some .inCallback
  | call => s.active.head? ≠ some .looping && call.timer.all fun t => 0 < t && t ≤ s.count

/-- What a call does; `none` when it ends the process by `fatal` or does not return. -/
def run (s : Timers) : Call → Option Timers
  | .timerAdd t startTimer => s.timerAdd t startTimer
  | .timerSetDelay t delay => s.timerSetDelay t delay
  | .timerAdvance t delay => s.timerAdvance t delay
  | .timerEnable t => s.timerEnable t
  | .timerDisable t => s.timerDisable t
  | .timerReset => some s.timerReset
  | .timerProcess => some { s with active := .looping :: s.active }
  | .turn => some (s.turn s.active.tail)
  | .callbackReturns => some { s with active := .looping :: s.active.tail }
  | .setTsc tsc => some { s with tsc }

/-- One step of the program. -/
def step (s : Timers) (call : Call) : Option Timers :=
  if s.admits call then s.run call else none

end Timers

end PCemWeb.Timer
