import PCemWeb.Platform.EmuThread
import PCemWeb.Lib.Run

/-!
# Control calls against disk fetches

A control call that waits for `emu_mutex` keeps the main thread from its event loop, and the holder
of the lock may wait for a block that only the event loop can deliver. The two meet when a call
comes while a fetch is pending, or a slice faults while a call waits (`mutualWait_iff`). In runs
without either, under the timing that `timely` states, no call and no stop request is lost to the
lock's deadline and no fetch to a call.
-/

namespace PCemWeb.Platform

open PCemWeb.Lib

/-- What a slice may compute, without its waits for the mailbox. -/
def sliceMs : Nat := 1900

namespace Shell

/-- The main thread waits for a lock whose holder waits for the main thread. -/
def mutualWait (s : Shell) : Bool := s.main.isWaiting && s.blocked

/-- No mutual wait, and nothing was lost. -/
def Unhindered (s : Shell) : Prop := s.mutualWait = false ∧ s.losses = []

/-- The threads get their turns: a slice computes for `sliceMs` at most, what is ready happens at
once, and the lock goes to the call that waits for it. -/
def timely (s : Shell) : ShellLabel → Bool
  | .pass d =>
    match s.emu with
    | .slice _ spent => spent + d ≤ sliceMs
    | .fetching .. => s.blocked || d = 0
    | .outside | .locking => !s.main.isWaiting || d = 0
    | _ => d = 0
  | .lockBurst | .lockSecond => !s.main.isWaiting
  | _ => true

/-- No call comes to the lock during a fetch, and no slice faults while one waits. -/
def apart (s : Shell) : ShellLabel → Bool
  | .call c => s.refuses c || !s.blocked
  | .tick => !s.stopRequested || s.refuses .stop || !s.blocked
  | .fault => !s.main.isWaiting
  | _ => true

end Shell

/-- What one step does. -/
inductive Shell.Moves (s : Shell) : ShellLabel → Shell → Prop
  | pass (d : Nat) : s.Moves (.pass d) (s.pass d)
  | wantBurst (emu : s.emu = .outside) : s.Moves .wantBurst { s with emu := .locking }
  | lockBurst (emu : s.emu = .locking) : s.Moves .lockBurst { s with emu := .head s.clock }
  | lockSecond (emu : s.emu = .outside) : s.Moves .lockSecond { s with emu := .leaving }
  | beginSlice {t0 : Nat} (emu : s.emu = .head t0) (runs : s.runs = true) :
      s.Moves .beginSlice { s with emu := .slice t0 0 }
  | fault {t0 spent : Nat} (emu : s.emu = .slice t0 spent) :
      s.Moves .fault
        { s with emu := .fetching t0 spent s.clock s.main.isWaiting, stage := .posted }
  | observeDone {t0 spent posted : Nat} {met : Bool} (emu : s.emu = .fetching t0 spent posted met)
      (done : s.stage = .done) : s.Moves .observeDone { s with emu := .slice t0 spent, stage := .idle }
  | expire {t0 spent posted : Nat} {met : Bool} (emu : s.emu = .fetching t0 spent posted met)
      (waits : s.stage ≠ .done) :
      s.Moves .expire
        { s with
          emu := .slice t0 spent, stage := .idle,
          losses := if met then s.losses ++ [.fetch] else s.losses }
  | requestStop {t0 spent : Nat} (emu : s.emu = .slice t0 spent) :
      s.Moves .requestStop { s with stopRequested := true }
  | endBurst {t0 spent : Nat} (emu : s.emu = .slice t0 spent) :
      s.Moves .endSlice { s with emu := .leaving }
  | nextSlice {t0 spent : Nat} (emu : s.emu = .slice t0 spent)
      (early : s.clock - t0 ≤ burstWallMs) : s.Moves .endSlice { s with emu := .head t0 }
  | unlockHead {t0 : Nat} (emu : s.emu = .head t0) : s.Moves .unlock { s with emu := .outside }
  | unlock (emu : s.emu = .leaving) : s.Moves .unlock { s with emu := .outside }
  | refused {c : Call} (main : s.main = .loop) (refuses : s.refuses c = true) : s.Moves (.call c) s
  | call {c : Call} (main : s.main = .loop) (takes : s.refuses c = false) :
      s.Moves (.call c) (s.await c false)
  | setPaused (p : Bool) {state : WasmState} {pause : Bool} (main : s.main = .loop)
      (resumed : state = .running → s.state = .running ∨ p = false ∧ s.state ≠ .idle) :
      s.Moves (.setPaused p) { s with state, pause }
  | quiet (main : s.main = .loop) (quiet : s.stopRequested = false) : s.Moves .tick s
  | late (main : s.main = .loop) (refuses : s.refuses .stop = true) :
      s.Moves .tick { s with stopRequested := false }
  | tick (main : s.main = .loop) (requested : s.stopRequested = true)
      (takes : s.refuses .stop = false) :
      s.Moves .tick ({ s with stopRequested := false }.await .stop true)
  | serve (found : Bool) {stage : Stage} {diskBusy : Bool} (posted : s.stage = .posted) :
      s.Moves (.serve found) { s with stage, diskBusy }
  | complete (main : s.main = .loop) : s.Moves .complete { s with stage := .done, diskBusy := false }
  | acquire {c : Call} {since : Nat} {requested : Bool} (main : s.main = .waiting c since requested) :
      s.Moves .acquire { s with main := .inside c }
  | lockTimeout {c : Call} {since : Nat} {requested : Bool}
      (main : s.main = .waiting c since requested) (past : since + lockMs ≤ s.clock) {loss : Loss} :
      s.Moves .lockTimeout { s with main := .loop, losses := s.losses ++ [loss] }
  | finish (ok : Bool) {c : Call} {state : WasmState} {pause stopRequested : Bool}
      (main : s.main = .inside c)
      (started : state = .running → s.state = .running ∨ ok = true ∧ c = .start) :
      s.Moves (.finish ok) { s with state, pause, stopRequested, main := .loop }

variable {s t : Shell} {l : ShellLabel}

/-- Every step is one of these moves. -/
theorem Shell.moves_of_step (next : s.step l = some t) : s.Moves l t := by
  cases l with
  | pass d =>
    cases next
    exact .pass d
  | wantBurst =>
    simp only [Shell.step] at next
    split at next
    · split at next <;> cases next
      exact .wantBurst ‹_›
    · cases next
  | lockBurst =>
    simp only [Shell.step] at next
    split at next
    · split at next <;> cases next
      exact .lockBurst ‹_›
    · cases next
  | lockSecond =>
    simp only [Shell.step] at next
    split at next
    · split at next <;> cases next
      exact .lockSecond ‹_›
    · cases next
  | beginSlice =>
    simp only [Shell.step] at next
    split at next
    · split at next <;> cases next
      exact .beginSlice ‹_› ‹_›
    · cases next
  | fault =>
    simp only [Shell.step] at next
    split at next <;> cases next
    exact .fault ‹_›
  | observeDone =>
    simp only [Shell.step] at next
    split at next
    · split at next <;> cases next
      exact .observeDone ‹_› ‹_›
    · cases next
  | expire =>
    simp only [Shell.step] at next
    split at next
    · rename_i t0 spent posted met emu
      split at next <;> cases next
      rename_i waits
      have waits := of_decide_eq_true (Bool.and_eq_true_iff.mp waits).1
      cases met
      · exact .expire emu waits
      · exact .expire emu waits
    · cases next
  | requestStop =>
    simp only [Shell.step] at next
    split at next <;> cases next
    exact .requestStop ‹_›
  | endSlice =>
    simp only [Shell.step] at next
    split at next <;> cases next
    split
    · exact .endBurst ‹_›
    · exact .nextSlice ‹_› (Nat.le_of_not_lt ‹_›)
  | unlock =>
    simp only [Shell.step] at next
    split at next <;> cases next
    · exact .unlockHead ‹_›
    · exact .unlock ‹_›
  | call c =>
    simp only [Shell.step] at next
    split at next <;> cases next
    split
    · exact .refused ‹_› ‹_›
    · exact .call ‹_› (Bool.eq_false_iff.mpr ‹_›)
  | setPaused p =>
    simp only [Shell.step] at next
    split at next <;> cases next
    rename_i main
    simp only [Shell.setPaused]
    split
    · exact .setPaused p main .inl
    · rename_i notIdle
      refine .setPaused p main fun running => .inr ⟨?_, notIdle⟩
      cases p with
      | false => rfl
      | true => cases running
  | tick =>
    simp only [Shell.step] at next
    split at next
    · rename_i main
      split at next <;> cases next
      · rename_i requested
        split
        · exact .late main ‹_›
        · exact .tick main requested (Bool.eq_false_iff.mpr ‹_›)
      · exact .quiet main (Bool.eq_false_iff.mpr ‹_›)
    · cases next
  | serve found =>
    simp only [Shell.step] at next
    split at next
    · cases next
    · rename_i served
      have posted : s.stage = .posted := by
        by_contra other
        exact served (by simp [other])
      split at next <;> cases next
      · exact .serve found posted
      · exact .serve found posted
  | complete =>
    simp only [Shell.step] at next
    split at next
    · split at next <;> cases next
      exact .complete ‹_›
    · cases next
  | acquire =>
    simp only [Shell.step] at next
    split at next
    · split at next <;> cases next
      exact .acquire ‹_›
    · cases next
  | lockTimeout =>
    simp only [Shell.step] at next
    split at next
    · rename_i main
      split at next <;> cases next
      rename_i past
      exact .lockTimeout main (of_decide_eq_true (Bool.and_eq_true_iff.mp past).2)
    · cases next
  | finish ok =>
    simp only [Shell.step] at next
    split at next <;> cases next
    rename_i c main
    have kept : s.Moves (.finish ok) { s with main := .loop } := .finish ok main .inl
    cases c with
    | start =>
      cases ok with
      | true => exact .finish true main fun _ => .inr ⟨rfl, rfl⟩
      | false => exact kept
    | stop => exact .finish ok main fun running => absurd running WasmState.noConfusion
    | _ => exact kept

/-! ## Where the two waits meet -/

theorem Shell.blocked_await {c : Call} {requested : Bool} :
    (s.await c requested).blocked = s.blocked := by
  simp only [Shell.await, Shell.blocked]
  cases s.emu <;> rfl

theorem Shell.mutualWait_await {c : Call} {requested : Bool} :
    (s.await c requested).mutualWait = s.blocked := by
  rw [Shell.mutualWait, Shell.blocked_await]
  rfl

theorem Shell.mutualWait_of_emu (free : s.blocked = false) : s.mutualWait = false := by
  rw [Shell.mutualWait, free, Bool.and_false]

theorem Shell.mutualWait_of_main (main : s.main.isWaiting = false) : s.mutualWait = false := by
  rw [Shell.mutualWait, main, Bool.false_and]

/-- A step that is no call and no fault leads into no mutual wait. -/
theorem Shell.Moves.clear (moves : s.Moves l t) (clear : s.mutualWait = false)
    (apart : s.apart l = true) : t.mutualWait = false := by
  have main (loop : s.main = .loop) : s.main.isWaiting = false := by rw [loop]; rfl
  cases moves with
  | pass d =>
    rw [← clear]
    simp only [Shell.mutualWait, Shell.blocked, Shell.pass]
    cases s.emu <;> rfl
  | wantBurst | lockBurst | lockSecond | beginSlice | observeDone | expire | endBurst | nextSlice
  | unlockHead | unlock => exact Shell.mutualWait_of_emu rfl
  | fault => exact Shell.mutualWait_of_main (by simpa [Shell.apart] using apart)
  | requestStop => exact clear
  | refused => exact clear
  | call loop takes =>
    rw [Shell.mutualWait_await]
    simpa [Shell.apart, takes] using apart
  | setPaused _ loop => exact Shell.mutualWait_of_main (main loop)
  | quiet => exact clear
  | late loop => exact Shell.mutualWait_of_main (main loop)
  | tick loop requested takes =>
    have free : s.blocked = false := by simpa [Shell.apart, takes, requested] using apart
    rw [Shell.mutualWait_await]
    exact free
  | serve found posted =>
    cases emu : s.emu with
    | fetching t0 spent since met =>
      have blocked : s.blocked = true := by
        rw [Shell.blocked, emu]
        simp [posted]
      rw [Shell.mutualWait, blocked, Bool.and_true] at clear
      exact Shell.mutualWait_of_main clear
    | _ => exact Shell.mutualWait_of_emu rfl
  | complete loop => exact Shell.mutualWait_of_main (main loop)
  | acquire => exact Shell.mutualWait_of_main rfl
  | lockTimeout => exact Shell.mutualWait_of_main rfl
  | finish => exact Shell.mutualWait_of_main rfl

/-- A step leads into a mutual wait exactly where it is not apart. -/
theorem Shell.mutualWait_iff (clear : s.mutualWait = false) (next : s.step l = some t) :
    t.mutualWait = true ↔ s.apart l = false := by
  have moves := Shell.moves_of_step next
  constructor
  · intro waits
    by_contra apart
    have clear := moves.clear clear (Bool.not_eq_false _ ▸ apart)
    exact Bool.false_ne_true (clear.symm.trans waits)
  · intro met
    cases moves with
    | call loop takes =>
      rw [Shell.mutualWait_await]
      simpa [Shell.apart, takes] using met
    | tick loop requested takes =>
      have blocked : s.blocked = true := by simpa [Shell.apart, takes, requested] using met
      rw [Shell.mutualWait_await]
      exact blocked
    | fault =>
      simpa [Shell.mutualWait, Shell.blocked, Shell.apart] using met
    | refused loop refuses => simp [Shell.apart, refuses] at met
    | quiet loop quiet => simp [Shell.apart, quiet] at met
    | late loop refuses => simp [Shell.apart, refuses] at met
    | _ => simp [Shell.apart] at met

/-! ## Waits in time -/

/-- What the time says of the emulation thread. -/
def EmuPc.OnTime (clock : Nat) : EmuPc → Prop
  | .head t0 => t0 ≤ clock ∧ clock ≤ t0 + burstWallMs
  | .slice t0 spent => t0 ≤ clock ∧ spent ≤ sliceMs
  | .fetching t0 spent _ met => t0 ≤ clock ∧ spent ≤ sliceMs ∧ met = false
  | _ => True

/-- How long a call has waited since `since`: the rest of the burst and one slice. -/
def EmuPc.Admits (since clock : Nat) : EmuPc → Prop
  | .slice t0 spent | .fetching t0 spent _ _ => t0 ≤ since ∧ clock ≤ since + burstWallMs + spent
  | .head t0 => t0 ≤ since ∧ clock ≤ since + burstWallMs + sliceMs
  | _ => clock ≤ since + burstWallMs + sliceMs

/-- The invariant of the runs in which calls and fetches stay apart. -/
structure Prompt (s : Shell) : Prop where
  losses : s.losses = []
  clear : s.mutualWait = false
  emu : s.emu.OnTime s.clock
  main : ∀ c since requested, s.main = .waiting c since requested →
    since ≤ s.clock ∧ s.emu.Admits since s.clock

/-- Nothing waits and nothing runs. -/
theorem Prompt.init : Prompt .init where
  losses := rfl
  clear := rfl
  emu := trivial
  main _ _ _ waiting := absurd waiting MainPc.noConfusion

theorem EmuPc.OnTime.admits {emu : EmuPc} {clock : Nat} (onTime : emu.OnTime clock) :
    emu.Admits clock clock := by
  cases emu with
  | outside | locking | leaving => exact by simp only [EmuPc.Admits]; omega
  | head t0 => exact ⟨onTime.1, by omega⟩
  | slice t0 spent | fetching t0 spent => exact ⟨onTime.1, by omega⟩

/-- A call begins to wait. -/
theorem Prompt.await {c : Call} {requested : Bool} (prompt : Prompt s) (free : s.blocked = false) :
    Prompt (s.await c requested) := by
  have emu : (s.await c requested).emu = s.emu := by
    simp only [Shell.await, free, Bool.or_false]
    cases s.emu <;> rfl
  refine ⟨prompt.losses, Shell.mutualWait_await.trans free, ?_, ?_⟩
  · rw [emu]
    exact prompt.emu
  · rintro _ _ _ ⟨⟩
    rw [emu]
    exact ⟨Nat.le_refl _, prompt.emu.admits⟩

/-- A call that waits is admitted before its deadline. -/
theorem EmuPc.Admits.early {emu : EmuPc} {since clock : Nat} (admits : emu.Admits since clock)
    (onTime : emu.OnTime clock) : clock < since + lockMs := by
  have within : burstWallMs + sliceMs < lockMs := by decide
  cases emu with
  | outside | locking | leaving => exact by simp only [EmuPc.Admits] at admits; omega
  | head t0 => exact by have := admits.2; omega
  | slice t0 spent => exact by have := admits.2; have := onTime.2; omega
  | fetching t0 spent => exact by have := admits.2; have := onTime.2.1; omega

theorem Shell.pass_zero : s.pass 0 = s := by
  obtain ⟨clock, state, pause, stopRequested, emu, main, stage, diskBusy, losses⟩ := s
  cases emu <;> rfl

/-- Time that passes while no call waits. -/
theorem Prompt.pass_free {d : Nat} (prompt : Prompt s) (onTime : (s.pass d).emu.OnTime (s.clock + d))
    (free : s.main.isWaiting = false) : Prompt (s.pass d) := by
  refine ⟨prompt.losses, Shell.mutualWait_of_main free, onTime, fun c since requested waiting => ?_⟩
  have waiting : s.main = .waiting c since requested := waiting
  rw [waiting] at free
  cases free

/-- Time passes. -/
theorem Prompt.pass {d : Nat} (prompt : Prompt s) (timely : s.timely (.pass d) = true) :
    Prompt (s.pass d) := by
  have onTime := prompt.emu
  have main := prompt.main
  have still (zero : d = 0) : Prompt (s.pass d) := by
    rw [zero, Shell.pass_zero]
    exact prompt
  cases emu : s.emu with
  | slice t0 spent =>
    have pass : (s.pass d).emu = .slice t0 (spent + d) := by rw [Shell.pass, emu]
    simp only [Shell.timely, emu, decide_eq_true_eq] at timely
    rw [emu] at onTime main
    refine ⟨prompt.losses, (Shell.Moves.pass d).clear prompt.clear rfl, ?_,
      fun c since requested waiting => ?_⟩
    · rw [pass]
      exact ⟨Nat.le_add_right_of_le onTime.1, timely⟩
    · obtain ⟨before, begun, admitted⟩ := main c since requested waiting
      rw [pass]
      refine ⟨Nat.le_add_right_of_le before, begun, ?_⟩
      simp only [Shell.pass]
      omega
  | fetching t0 spent posted met =>
    have pass : (s.pass d).emu = .fetching t0 spent posted met := by rw [Shell.pass, emu]
    have clear := prompt.clear
    simp only [Shell.timely, emu, Bool.or_eq_true, decide_eq_true_eq] at timely
    rw [emu] at onTime
    rcases timely with blocked | zero
    · rw [Shell.mutualWait, blocked, Bool.and_true] at clear
      exact prompt.pass_free (pass ▸ ⟨Nat.le_add_right_of_le onTime.1, onTime.2⟩) clear
    · exact still zero
  | head t0 =>
    simp only [Shell.timely, emu, decide_eq_true_eq] at timely
    exact still timely
  | leaving =>
    simp only [Shell.timely, emu, decide_eq_true_eq] at timely
    exact still timely
  | outside =>
    have pass : (s.pass d).emu = .outside := by rw [Shell.pass, emu]
    simp only [Shell.timely, emu, Bool.or_eq_true, Bool.not_eq_true', decide_eq_true_eq] at timely
    exact timely.elim (prompt.pass_free (pass ▸ trivial)) still
  | locking =>
    have pass : (s.pass d).emu = .locking := by rw [Shell.pass, emu]
    simp only [Shell.timely, emu, Bool.or_eq_true, Bool.not_eq_true', decide_eq_true_eq] at timely
    exact timely.elim (prompt.pass_free (pass ▸ trivial)) still

/-- A move within the discipline. -/
theorem Prompt.moves (prompt : Prompt s) (moves : s.Moves l t) (timely : s.timely l = true)
    (apart : s.apart l = true) : Prompt t := by
  have clear := moves.clear prompt.clear apart
  have noLosses := prompt.losses
  have onTime := prompt.emu
  have main := prompt.main
  have idle (loop : s.main.isWaiting = false) {P : Nat → Prop} :
      ∀ c since requested, s.main = .waiting c since requested → P since := by
    intro c since requested waiting
    rw [waiting] at loop
    cases loop
  cases moves with
  | pass d => exact prompt.pass timely
  | wantBurst emu =>
    rw [emu] at main
    exact ⟨noLosses, clear, trivial, main⟩
  | lockBurst emu =>
    have free : s.main.isWaiting = false := by simpa [Shell.timely] using timely
    exact ⟨noLosses, clear, ⟨Nat.le_refl _, Nat.le_add_right _ _⟩, idle free⟩
  | lockSecond emu =>
    have free : s.main.isWaiting = false := by simpa [Shell.timely] using timely
    exact ⟨noLosses, clear, trivial, idle free⟩
  | beginSlice emu =>
    rw [emu] at onTime main
    refine ⟨noLosses, clear, ⟨onTime.1, Nat.zero_le _⟩, fun c since requested waiting => ?_⟩
    obtain ⟨before, begun, -⟩ := main c since requested waiting
    refine ⟨before, begun, ?_⟩
    have early := onTime.2
    dsimp only
    omega
  | fault emu =>
    rw [emu] at onTime
    have free : s.main.isWaiting = false := by simpa [Shell.apart] using apart
    exact ⟨noLosses, clear, ⟨onTime.1, onTime.2, free⟩, idle free⟩
  | observeDone emu =>
    rw [emu] at onTime main
    exact ⟨noLosses, clear, ⟨onTime.1, onTime.2.1⟩, main⟩
  | expire emu waits =>
    rw [emu] at onTime main
    obtain ⟨begun, spent, rfl⟩ := onTime
    exact ⟨noLosses, clear, ⟨begun, spent⟩, main⟩
  | requestStop => exact ⟨noLosses, clear, onTime, main⟩
  | endBurst emu =>
    rw [emu] at onTime main
    refine ⟨noLosses, clear, trivial, fun c since requested waiting => ?_⟩
    obtain ⟨before, -, admitted⟩ := main c since requested waiting
    refine ⟨before, ?_⟩
    have spent := onTime.2
    simp only [EmuPc.Admits]
    omega
  | nextSlice emu early =>
    rw [emu] at onTime main
    refine ⟨noLosses, clear, ⟨onTime.1, ?_⟩, fun c since requested waiting => ?_⟩
    · have begun := onTime.1
      dsimp only
      omega
    · obtain ⟨before, begun, admitted⟩ := main c since requested waiting
      refine ⟨before, begun, ?_⟩
      have spent := onTime.2
      dsimp only
      omega
  | unlockHead emu =>
    rw [emu] at main
    refine ⟨noLosses, clear, trivial, fun c since requested waiting => ?_⟩
    obtain ⟨before, -, admitted⟩ := main c since requested waiting
    exact ⟨before, admitted⟩
  | unlock emu =>
    rw [emu] at main
    exact ⟨noLosses, clear, trivial, main⟩
  | refused => exact prompt
  | call loop takes => exact prompt.await (by simpa [Shell.apart, takes] using apart)
  | setPaused => exact ⟨noLosses, clear, onTime, main⟩
  | quiet => exact prompt
  | late => exact ⟨noLosses, clear, onTime, main⟩
  | tick loop requested takes =>
    have free : s.blocked = false := by simpa [Shell.apart, takes, requested] using apart
    have same : Prompt { s with stopRequested := false } := ⟨noLosses, prompt.clear, onTime, main⟩
    exact same.await free
  | serve => exact ⟨noLosses, clear, onTime, main⟩
  | complete => exact ⟨noLosses, clear, onTime, main⟩
  | acquire => exact ⟨noLosses, clear, onTime, fun _ _ _ waiting => absurd waiting MainPc.noConfusion⟩
  | lockTimeout waiting past =>
    obtain ⟨-, admits⟩ := main _ _ _ waiting
    exact absurd (admits.early onTime) (Nat.not_lt.mpr past)
  | finish => exact ⟨noLosses, clear, onTime, fun _ _ _ waiting => absurd waiting MainPc.noConfusion⟩

/-! ## Runs -/

/-- In every run of threads that get their turns, in which no call comes to the lock during a fetch
and no slice faults while a call waits, nothing waits for the other side and nothing is lost. -/
theorem unhindered_of_run
    (run : RunOk Shell.step (fun s l => (s.timely l && s.apart l) = true) .init s) :
    s.Unhindered := by
  have prompt : Prompt s := by
    refine run.invariant Prompt.init fun prompt admitted next => ?_
    obtain ⟨timely, apart⟩ := Bool.and_eq_true_iff.mp admitted
    exact prompt.moves (Shell.moves_of_step next) timely apart
  exact ⟨prompt.clear, prompt.losses⟩

/-- A boot. -/
def bootCall : List ShellLabel := [.call .start, .acquire, .finish true]

/-- A slice that faults. -/
def faultingSlice : List ShellLabel := [.wantBurst, .lockBurst, .beginSlice, .fault]

/-- A fetch that is served, and a stop while the next slice computes. -/
theorem unhindered_bootAndStop : ∃ s, exec Shell.step .init
    (bootCall ++ faultingSlice ++ [.serve true, .pass 30, .complete, .observeDone, .call .stop,
      .pass 20, .endSlice, .unlock, .acquire, .finish true]) = some s ∧
    s.state = .idle ∧ s.clock = 50 ∧ s.Unhindered := by
  have done : ((execOk Shell.step (fun s l => s.timely l && s.apart l) .init
      (bootCall ++ faultingSlice ++ [.serve true, .pass 30, .complete, .observeDone, .call .stop,
        .pass 20, .endSlice, .unlock, .acquire, .finish true])).any
      fun s => s.state = .idle && s.clock = 50) = true := by decide +kernel
  obtain ⟨s, runs, stopped⟩ := (Option.any_eq_true ..).mp done
  obtain ⟨idle, clock⟩ := Bool.and_eq_true_iff.mp stopped
  exact ⟨s, exec_of_execOk runs, of_decide_eq_true idle, of_decide_eq_true clock,
    unhindered_of_run (RunOk.of_execOk (fun _ _ => id) runs)⟩

/-- The guest asks for a stop and then misses the cache: the tick that takes the request up keeps
the main thread from serving the fetch. The request is lost after 2 s, a Stop of the user after 2
more, and the fetch after 15. -/
theorem not_unhindered_stopInFetch : ¬ ∀ (labels : List ShellLabel) (s : Shell),
    execOk Shell.step Shell.timely .init labels = some s → s.Unhindered := by
  intro always
  have done : ((execOk Shell.step Shell.timely .init
      (bootCall ++ [.wantBurst, .lockBurst, .beginSlice, .requestStop, .fault, .tick, .pass 2000,
        .lockTimeout, .call .stop, .pass 2000, .lockTimeout, .call .reset, .pass 11001, .expire])).any
      fun s => s.losses = [.stop, .call .stop, .fetch]) = true := by decide +kernel
  obtain ⟨s, runs, lost⟩ := (Option.any_eq_true ..).mp done
  have none := (always _ s runs).2
  rw [of_decide_eq_true lost] at none
  cases none

end PCemWeb.Platform
