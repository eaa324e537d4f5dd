import PCemWeb.Platform.DiskMailbox

/-!
# The emulation thread and the control calls

`emu_thread_fn` runs timeslices in bursts under `emu_mutex`. A disk access inside a slice can post
a request to the mailbox and wait for the browser main thread, which serves it from its event loop.
The same thread makes the control calls, and all but `pcem_wasm_set_paused` take `emu_mutex`; some
with a deadline, after which the call returns without effect. While it waits for the lock the main
thread still runs calls that are queued for it, so a poke can begin a read, but nothing completes
one.

Time passes by labels of its own and is counted in milliseconds. `losses` is history: what was
given up because of a wait.
-/

namespace PCemWeb.Platform

/-- `WASM_IDLE`, `WASM_RUNNING` and `WASM_PAUSED`. -/
inductive WasmState
  | idle
  | running
  | paused
  deriving DecidableEq, Repr

/-- The control calls that take `emu_mutex`. -/
inductive Call
  | start
  | stop
  | reset
  | fddLoad
  | fddEject
  | cdromLoad
  | cdromEject
  | scanRoms
  deriving DecidableEq, Repr

/-- Whether the call uses `emu_lock_timeout`; the others use `pthread_mutex_lock`. -/
def Call.timed : Call → Bool
  | .start | .scanRoms => false
  | _ => true

/-- Where `emu_thread_fn` is. `t0` is `burst_t0`, `spent` what the slice has computed, `posted` the
`t0` of `diskio_fetch_locked`, and `met` is history: a control call has waited meanwhile. -/
inductive EmuPc
  /-- Outside the lock. -/
  | outside
  /-- The test for a burst has passed. -/
  | locking
  /-- The loop head of a burst. -/
  | head (t0 : Nat)
  /-- In `runpc`. -/
  | slice (t0 spent : Nat)
  /-- In `runpc`, waiting for the mailbox. -/
  | fetching (t0 spent posted : Nat) (met : Bool)
  /-- Before the unlock. -/
  | leaving
  deriving DecidableEq, Repr

/-- Where the browser main thread is. `requested` marks the stop that `main_tick` makes. -/
inductive MainPc
  | loop
  | waiting (c : Call) (since : Nat) (requested : Bool)
  | inside (c : Call)
  deriving DecidableEq, Repr

/-- What was given up: a control call, a pending stop request, or a fetch that a call delayed. -/
inductive Loss
  | call (c : Call)
  | stop
  | fetch
  deriving DecidableEq, Repr

/-- The two threads, the flags between them, the mailbox stage and `_diskBusy`. -/
structure Shell where
  clock : Nat
  state : WasmState
  pause : Bool
  stopRequested : Bool
  emu : EmuPc
  main : MainPc
  stage : Stage
  diskBusy : Bool
  losses : List Loss
  deriving DecidableEq, Repr

/-- `EMU_BURST_WALL_MS`. -/
def burstWallMs : Nat := 25

/-- The argument of `emu_lock_timeout`. -/
def lockMs : Nat := 2000

/-- `DISKIO_REQ_TIMEOUT_MS`. -/
def reqTimeoutMs : Nat := 15000

namespace Shell

/-- Before the first boot. -/
def init : Shell := ⟨0, .idle, false, false, .outside, .loop, .idle, false, []⟩

end Shell

/-- The emulation thread holds `emu_mutex`. -/
def EmuPc.holds : EmuPc → Bool
  | .outside | .locking => false
  | _ => true

/-- The emulation thread is in `runpc`. -/
def EmuPc.inSlice : EmuPc → Bool
  | .slice .. | .fetching .. => true
  | _ => false

/-- The main thread holds `emu_mutex`. -/
def MainPc.holds : MainPc → Bool
  | .inside _ => true
  | _ => false

def MainPc.isWaiting : MainPc → Bool
  | .waiting .. => true
  | _ => false

namespace Shell

def lockFree (s : Shell) : Bool := !s.emu.holds && !s.main.holds

/-- The test before a burst and at its loop head. -/
def runs (s : Shell) : Bool := s.state = .running && !s.pause && !s.stopRequested

/-- The emulation thread waits for a request that only the main thread can serve. -/
def blocked (s : Shell) : Bool :=
  match s.emu with
  | .fetching .. => s.stage ≠ .done
  | _ => false

/-- The early return of a control call. -/
def refuses (s : Shell) : Call → Bool
  | .start => s.state = .running
  | .scanRoms => s.state ≠ .idle
  | .fddLoad | .fddEject => false
  | _ => s.state = .idle

/-- A control call starts to wait for the lock. -/
def await (s : Shell) (c : Call) (requested : Bool) : Shell :=
  { s with
    main := .waiting c s.clock requested
    emu := match s.emu with
      | .fetching t0 spent posted met => .fetching t0 spent posted (met || s.blocked)
      | emu => emu }

/-- `pcem_wasm_set_paused`. -/
def setPaused (s : Shell) (p : Bool) : Shell :=
  if s.state = .idle then s
  else { s with pause := p, state := if p then .paused else .running }

/-- What a call does to the flags; `ok` is whether `loadbios` finds the ROMs. -/
def effect (s : Shell) (ok : Bool) : Call → Shell
  | .start => if ok then { s with state := .running, pause := false, stopRequested := false } else s
  | .stop => { s with state := .idle, pause := false }
  | _ => s

/-- What a call that did not get the lock leaves undone. -/
def lose (s : Shell) (loss : Loss) : Shell := { s with losses := s.losses ++ [loss] }

end Shell

/-- One step of time, of the emulation thread or of the main thread. -/
inductive ShellLabel
  | pass (d : Nat)
  /-- The test `emu_state == WASM_RUNNING && !pause && !stop_requested` before the lock. -/
  | wantBurst
  | lockBurst
  /-- The lock for `onesec`. -/
  | lockSecond
  | beginSlice
  /-- A slice needs a block that is absent: `req.stage = 1`. -/
  | fault
  | observeDone
  | expire
  /-- `pcem_wasm_request_stop`, from the core. -/
  | requestStop
  | endSlice
  | unlock
  /-- A control call from the page. -/
  | call (c : Call)
  | setPaused (p : Bool)
  /-- The test of `stop_requested` in `main_tick`. -/
  | tick
  /-- `__pcemDiskTick`, from `main_tick` or from a poke; whether the disk is known. -/
  | serve (found : Bool)
  /-- The read's continuation: `pcem_diskreq_complete`. -/
  | complete
  | acquire
  | lockTimeout
  | finish (ok : Bool)
  deriving DecidableEq, Repr

namespace Shell

/-- Time passes, for a slice as computing. -/
def pass (s : Shell) (d : Nat) : Shell :=
  { s with
    clock := s.clock + d
    emu := match s.emu with
      | .slice t0 spent => .slice t0 (spent + d)
      | emu => emu }

/-- One step. -/
def step (s : Shell) : ShellLabel → Option Shell
  | .pass d => some (s.pass d)
  | .wantBurst =>
    match s.emu with
    | .outside => if s.runs then some { s with emu := .locking } else none
    | _ => none
  | .lockBurst =>
    match s.emu with
    | .locking => if s.lockFree then some { s with emu := .head s.clock } else none
    | _ => none
  | .lockSecond =>
    match s.emu with
    | .outside =>
      if s.state = .running && s.lockFree then some { s with emu := .leaving } else none
    | _ => none
  | .beginSlice =>
    match s.emu with
    | .head t0 => if s.runs then some { s with emu := .slice t0 0 } else none
    | _ => none
  | .fault =>
    match s.emu with
    | .slice t0 spent =>
      some { s with emu := .fetching t0 spent s.clock s.main.isWaiting, stage := .posted }
    | _ => none
  | .observeDone =>
    match s.emu with
    | .fetching t0 spent _ _ =>
      if s.stage = .done then some { s with emu := .slice t0 spent, stage := .idle } else none
    | _ => none
  | .expire =>
    match s.emu with
    | .fetching t0 spent posted met =>
      if s.stage ≠ .done && reqTimeoutMs < s.clock - posted then
        let s := { s with emu := .slice t0 spent, stage := .idle }
        some (if met then s.lose .fetch else s)
      else none
    | _ => none
  | .requestStop =>
    match s.emu with
    | .slice .. => some { s with stopRequested := true }
    | _ => none
  | .endSlice =>
    match s.emu with
    | .slice t0 _ =>
      some { s with emu := if burstWallMs < s.clock - t0 then .leaving else .head t0 }
    | _ => none
  | .unlock =>
    match s.emu with
    | .head _ | .leaving => some { s with emu := .outside }
    | _ => none
  | .call c =>
    match s.main with
    | .loop => some (if s.refuses c then s else s.await c false)
    | _ => none
  | .setPaused p =>
    match s.main with
    | .loop => some (s.setPaused p)
    | _ => none
  | .tick =>
    match s.main with
    | .loop =>
      if s.stopRequested then
        let s := { s with stopRequested := false }
        some (if s.refuses .stop then s else s.await .stop true)
      else some s
    | _ => none
  | .serve found =>
    if s.main.holds || s.diskBusy || s.stage ≠ .posted then none
    else if found then some { s with stage := .inService, diskBusy := true }
    else some { s with stage := .done }
  | .complete =>
    match s.main with
    | .loop => if s.diskBusy then some { s with stage := .done, diskBusy := false } else none
    | _ => none
  | .acquire =>
    match s.main with
    | .waiting c _ _ => if s.lockFree then some { s with main := .inside c } else none
    | _ => none
  | .lockTimeout =>
    match s.main with
    | .waiting c since requested =>
      if c.timed && !s.lockFree && since + lockMs ≤ s.clock then
        some ({ s with main := .loop }.lose (if requested then .stop else .call c))
      else none
    | _ => none
  | .finish ok =>
    match s.main with
    | .inside c => some { s.effect ok c with main := .loop }
    | _ => none

end Shell

end PCemWeb.Platform
