import PCemWeb.Lib.Run
import PCemWeb.Platform.DiskMailbox

/-!
# What a disk fetch delivers

A fetch that returns success delivers its own request's bytes in every run that starts no
request while the service still holds an abandoned one. `MailboxInv` carries this: between
two fetches the slot is not posted, and while the emulation thread waits the service works on
exactly the request in the slot. `pcem_diskreq_complete` cannot tell whose request it
completes, so a request posted over an abandoned one that is still in service is completed
with the old bytes.
-/

namespace PCemWeb.Platform

open PCemWeb.Lib

section

variable (browserDisks : Nat → Option (List Byte))

/-- Every state's promise: a successful fetch holds its own bytes, and a read about to be
copied belongs to the last request started, which no fetch has reported as successful. -/
structure FetchExact (s : MailboxState) : Prop where
  delivered : ∀ r, s.fetch = .returned r true → r.Delivered browserDisks s.heap
  current : ∀ t job, s.service = .reading t job →
    t = s.posts ∧ ∀ r, s.fetch ≠ .returned r true

/-- No request starts while the service has an earlier one in hand. -/
def StartsUnheld (s : MailboxState) : MailboxLabel → Bool
  | .start _ => s.service.held.isNone
  | _ => true

/-! ## The invariant -/

/-- Between requests: the service has nothing in hand and nothing is posted. -/
def Quiet (s : MailboxState) : Prop := s.service.held = none ∧ s.req.stage ≠ .posted

/-- While the emulation thread waits for `r`, the service works on `r`. -/
def Serving (s : MailboxState) (r : Request) : Prop :=
  match s.service with
  | .idle | .releasing => s.req.stage = .posted ∨
      s.req.stage = .done ∧ (s.req.ok = true → r.Delivered browserDisks s.heap)
  | .sawPosted _ => s.req.stage = .posted
  | .polled _ => s.req.stage = .inService
  | .gotDisk _ d => s.req.stage = .inService ∧ d = r.disk
  | .gotOffset _ d o => s.req.stage = .inService ∧ d = r.disk ∧ o = r.offset
  | .gotLen _ d o l => s.req.stage = .inService ∧ d = r.disk ∧ o = r.offset ∧ l = r.len
  | .gotBuf _ job | .reading _ job => s.req.stage = .inService ∧ job = r
  | .completing _ ok =>
      s.req.stage = .inService ∧ (ok = true → r.Delivered browserDisks s.heap)
  | .okStored _ =>
      s.req.stage = .inService ∧ (s.req.ok = true → r.Delivered browserDisks s.heap)

/-- What holds at each point of `diskio_fetch_locked`. -/
def FetchInv (s : MailboxState) : Prop :=
  match s.fetch with
  | .idle => s.req.stage ≠ .posted
  | .diskStored r => Quiet s ∧ s.req.disk = r.disk
  | .offsetStored r => Quiet s ∧ s.req.disk = r.disk ∧ s.req.offset = r.offset
  | .lenStored r =>
      Quiet s ∧ s.req.disk = r.disk ∧ s.req.offset = r.offset ∧ s.req.len = r.len
  | .bufStored r | .okCleared r => Quiet s ∧ s.req.request = r
  | .waiting r | .timedOut r => s.req.request = r ∧ Serving browserDisks s r
  | .sawDone r | .acknowledged r => Quiet s ∧ (s.req.ok = true → r.Delivered browserDisks s.heap)
  | .returned r ok => s.req.stage ≠ .posted ∧
      (ok = true → s.service.held = none ∧ r.Delivered browserDisks s.heap)

/-- The invariant of a run that starts no request over a held one. -/
structure MailboxInv (s : MailboxState) : Prop where
  ticket : ∀ t, s.service.held = some t → t = s.posts
  fetch : FetchInv browserDisks s

variable {browserDisks} {s t : MailboxState}

theorem MailboxInv.init (heap : Nat → Byte) :
    MailboxInv browserDisks (MailboxState.init heap) where
  ticket := by simp [MailboxState.init, Service.held]
  fetch := by simp [MailboxState.init, FetchInv]

theorem MailboxInv.exact (inv : MailboxInv browserDisks s) : FetchExact browserDisks s where
  delivered r returned := by
    have atReturn := inv.fetch
    simp only [FetchInv, returned] at atReturn
    exact (atReturn.2 trivial).2
  current ticket job reading := by
    refine ⟨inv.ticket ticket (by simp [reading, Service.held]), fun r returned => ?_⟩
    have atReturn := inv.fetch
    simp only [FetchInv, returned] at atReturn
    simpa [reading, Service.held] using (atReturn.2 trivial).1

/-! ## Steps of the emulation thread -/

/-- Nothing but a stage not posted is known where a new fetch may begin. -/
theorem FetchInv.not_posted (inv : FetchInv browserDisks s) (ready : s.fetch.ready = true) :
    s.req.stage ≠ .posted := by
  cases at_ : s.fetch <;> simp only [at_, Fetch.ready, Bool.false_eq_true] at ready <;>
    simp only [FetchInv, at_] at inv
  · exact inv
  · exact inv.1

theorem MailboxInv.refuse {r : Request} (inv : MailboxInv browserDisks s)
    (next : mailboxStep browserDisks s (.refuse r) = some t) : MailboxInv browserDisks t := by
  simp only [mailboxStep, Option.ite_none_right_eq_some, Option.some.injEq] at next
  obtain ⟨ready, rfl⟩ := next
  refine ⟨inv.ticket, ?_⟩
  simpa [FetchInv] using inv.fetch.not_posted ready

theorem MailboxInv.start {r : Request} (inv : MailboxInv browserDisks s)
    (unheld : s.service.held = none)
    (next : mailboxStep browserDisks s (.start r) = some t) : MailboxInv browserDisks t := by
  simp only [mailboxStep, Option.ite_none_right_eq_some, Option.some.injEq] at next
  obtain ⟨ready, rfl⟩ := next
  refine ⟨by simp [unheld], ?_⟩
  exact ⟨⟨unheld, inv.fetch.not_posted ready⟩, rfl⟩

theorem MailboxInv.store (inv : MailboxInv browserDisks s)
    (next : mailboxStep browserDisks s .store = some t) : MailboxInv browserDisks t := by
  have before := inv.fetch
  simp only [mailboxStep, storeNext] at next
  split at next <;> cases next <;> rename_i at_ <;> refine ⟨inv.ticket, ?_⟩ <;>
    simp only [FetchInv, at_] at before
  · obtain ⟨quiet, disk⟩ := before
    exact ⟨quiet, disk, rfl⟩
  · obtain ⟨quiet, disk, offset⟩ := before
    exact ⟨quiet, disk, offset, rfl⟩
  · obtain ⟨quiet, disk, offset, len⟩ := before
    refine ⟨quiet, ?_⟩
    simp [DiskReq.request, disk, offset, len]
  · exact before
  · -- `req.stage = 1`: the service is between ticks, so it will find the request posted.
    obtain ⟨⟨unheld, -⟩, same⟩ := before
    refine ⟨same, ?_⟩
    cases service : s.service <;> simp_all [Service.held, Serving]

/-- Once the wait loop has seen `stage = 3`, the service is done with the request. -/
theorem Serving.of_done {r : Request} (serving : Serving browserDisks s r)
    (done : s.req.stage = .done) :
    s.service.held = none ∧ (s.req.ok = true → r.Delivered browserDisks s.heap) := by
  cases service : s.service <;> simp_all [Serving, Service.held]

theorem MailboxInv.wait {a : MailboxLabel} (inv : MailboxInv browserDisks s)
    (next : mailboxStep browserDisks s a = some t)
    (label : a = .observeDone ∨ a = .expire ∨ a = .abandon ∨ a = .acknowledge ∨ a = .finish) :
    MailboxInv browserDisks t := by
  have before := inv.fetch
  rcases label with rfl | rfl | rfl | rfl | rfl <;> simp only [mailboxStep] at next <;>
    split at next <;> try cases next
  all_goals rename_i r at_; simp only [FetchInv, at_] at before
  case _ =>
    split at next <;> cases next
    rename_i done
    obtain ⟨unheld, delivered⟩ := before.2.of_done done
    exact ⟨inv.ticket, ⟨unheld, by simp [done]⟩, delivered⟩
  case _ =>
    split at next <;> cases next
    exact ⟨inv.ticket, before⟩
  case _ => exact ⟨inv.ticket, by simp [FetchInv]⟩
  case _ => exact ⟨inv.ticket, ⟨before.1.1, by simp⟩, before.2⟩
  case _ => exact ⟨inv.ticket, before.1.2, fun ok => ⟨before.1.1, before.2 ok⟩⟩

/-! ## Steps of the browser service -/

/-- A service with a request in hand meets a waiting fetch, or one that failed. -/
theorem FetchInv.of_held {ticket : Nat} (inv : FetchInv browserDisks s)
    (held : s.service.held = some ticket) :
    (∃ r, (s.fetch = .waiting r ∨ s.fetch = .timedOut r) ∧ s.req.request = r ∧
        Serving browserDisks s r) ∨
      s.req.stage ≠ .posted ∧ (s.fetch = .idle ∨ ∃ r, s.fetch = .returned r false) := by
  cases at_ : s.fetch <;> simp_all [FetchInv, Quiet]

/-- A service that finds a request posted meets a fetch waiting for it. -/
theorem FetchInv.of_posted (inv : FetchInv browserDisks s) (posted : s.req.stage = .posted) :
    ∃ r, (s.fetch = .waiting r ∨ s.fetch = .timedOut r) ∧ s.req.request = r := by
  cases at_ : s.fetch <;> simp_all [FetchInv, Quiet]

/-- A service step keeps the invariant if it posts nothing and goes on serving. -/
theorem MailboxInv.of_service {ticket : Nat} {req : DiskReq} {heap : Nat → Byte}
    {service : Service} (inv : MailboxInv browserDisks s) (held : s.service.held = some ticket)
    (keeps : service.held = some ticket ∨ service.held = none)
    (request : req.request = s.req.request)
    (unposted : s.req.stage ≠ .posted → req.stage ≠ .posted)
    (goesOn : Serving browserDisks s s.req.request →
      Serving browserDisks ⟨req, heap, s.fetch, service, s.posts⟩ s.req.request) :
    MailboxInv browserDisks ⟨req, heap, s.fetch, service, s.posts⟩ := by
  refine ⟨fun n after => ?_, ?_⟩
  · rcases keeps with keeps | keeps <;> simp only [keeps, reduceCtorEq, Option.some.injEq] at after
    exact after ▸ inv.ticket ticket held
  rcases inv.fetch.of_held held with ⟨r, at_ | at_, rfl, serving⟩ | ⟨idle, at_ | ⟨r, at_⟩⟩ <;>
    simp only [FetchInv, at_]
  · exact ⟨request, goesOn serving⟩
  · exact ⟨request, goesOn serving⟩
  · exact unposted idle
  · exact ⟨unposted idle, nofun⟩

theorem MailboxInv.poll (inv : MailboxInv browserDisks s)
    (next : mailboxStep browserDisks s .poll = some t) : MailboxInv browserDisks t := by
  simp only [mailboxStep] at next
  split at next <;> [rename_i service; cases next]
  split at next <;> cases next
  rename_i posted
  refine ⟨by simp [Service.held], ?_⟩
  obtain ⟨r, at_ | at_, same⟩ := inv.fetch.of_posted posted <;>
    simpa [FetchInv, at_, Serving, posted] using same

theorem MailboxInv.serve (inv : MailboxInv browserDisks s)
    (next : mailboxStep browserDisks s .serve = some t) : MailboxInv browserDisks t := by
  simp only [mailboxStep, serveNext] at next
  split at next
  case h_1 _ _ service =>
    cases next
    exact inv.of_service (by rw [service]; rfl) (.inl rfl) rfl (by simp) (by simp [Serving])
  case h_2 _ _ service | h_3 _ _ _ service | h_4 _ _ _ _ service | h_5 _ _ _ _ _ service =>
    cases next
    exact inv.of_service (by rw [service]; rfl) (.inl rfl) rfl id
      (by simp [Serving, service, DiskReq.request])
  case h_6 _ _ _ service =>
    split at next <;> cases next
    · exact inv.of_service (by rw [service]; rfl) (.inl rfl) rfl id (by simp [Serving, service])
    · exact inv.of_service (by rw [service]; rfl) (.inl rfl) rfl id
        (by simp +contextual [Serving, service])
  case h_7 => cases next

theorem MailboxInv.deliver (inv : MailboxInv browserDisks s)
    (next : mailboxStep browserDisks s .deliver = some t) : MailboxInv browserDisks t := by
  simp only [mailboxStep] at next
  split at next <;> cases next
  rename_i service
  refine inv.of_service (by rw [service]; rfl) (.inl rfl) rfl id fun serving => ?_
  simp only [Serving, service] at serving
  obtain ⟨stage, rfl⟩ := serving
  exact ⟨stage, fun _ => slice_overlay⟩

theorem MailboxInv.reject (inv : MailboxInv browserDisks s)
    (next : mailboxStep browserDisks s .reject = some t) : MailboxInv browserDisks t := by
  simp only [mailboxStep] at next
  split at next <;> cases next
  rename_i service
  exact inv.of_service (by rw [service]; rfl) (.inl rfl) rfl id
    (by simp +contextual [Serving, service])

theorem MailboxInv.complete (inv : MailboxInv browserDisks s)
    (next : mailboxStep browserDisks s .complete = some t) : MailboxInv browserDisks t := by
  simp only [mailboxStep, completeNext] at next
  split at next <;> cases next <;> rename_i service
  · exact inv.of_service (by rw [service]; rfl) (.inl rfl) rfl id (by simp [Serving, service])
  · exact inv.of_service (by rw [service]; rfl) (.inr rfl) rfl (by simp)
      (by simp [Serving, service])
  · -- The end of the tick only lets the next poll happen.
    refine ⟨by simp [Service.held], ?_⟩
    have before := inv.fetch
    cases at_ : s.fetch <;>
      simpa only [FetchInv, at_, Quiet, Service.held, service, Serving] using before

/-! ## Runs -/

theorem MailboxInv.step {a : MailboxLabel} (inv : MailboxInv browserDisks s)
    (unheld : StartsUnheld s a = true) (next : mailboxStep browserDisks s a = some t) :
    MailboxInv browserDisks t := by
  cases a with
  | refuse r => exact inv.refuse next
  | start r => exact inv.start (by simpa [StartsUnheld] using unheld) next
  | store => exact inv.store next
  | observeDone | expire | abandon | acknowledge | finish => exact inv.wait next (by simp)
  | poll => exact inv.poll next
  | serve => exact inv.serve next
  | deliver => exact inv.deliver next
  | reject => exact inv.reject next
  | complete => exact inv.complete next

/-- In a run that starts no request while the service holds an abandoned one, every
successful fetch holds its own source bytes, and the service writes for no earlier request. -/
theorem fetchExact_of_run {heap : Nat → Byte}
    (run : RunOk (mailboxStep browserDisks) (StartsUnheld · · = true) (.init heap) s) :
    FetchExact browserDisks s :=
  (run.invariant (MailboxInv.init heap) MailboxInv.step).exact

end

/-! ## A completed fetch, and one completed by an abandoned request -/

/-- One disk whose content is the bytes 1, 2. -/
def twoByteDisk : Nat → Option (List Byte)
  | 0 => some [1, 2]
  | _ => none

/-- Posting a request. -/
def postLabels (r : Request) : List MailboxLabel :=
  [.start r, .store, .store, .store, .store, .store]

/-- A tick from the poll to the start of the asynchronous read. -/
def tickLabels : List MailboxLabel := [.poll, .serve, .serve, .serve, .serve, .serve, .serve]

def fetchLabels (r : Request) : List MailboxLabel :=
  postLabels r ++ tickLabels ++
    [.deliver, .complete, .complete, .observeDone, .acknowledge, .finish, .complete]

/-- The first request times out while it is read; the second is posted in the same buffer
before the read ends. -/
def overtakenLabels : List MailboxLabel :=
  postLabels ⟨0, 0, 1, 0⟩ ++ tickLabels ++ [.expire, .abandon] ++ postLabels ⟨0, 1, 1, 0⟩ ++
    [.deliver, .complete, .complete, .observeDone, .acknowledge, .finish]

theorem fetchExact_of_fetchLabels :
    ∃ s, RunOk (mailboxStep twoByteDisk) (StartsUnheld · · = true) (.init fun _ => 0) s ∧
      s.fetch = .returned ⟨0, 0, 2, 5⟩ true ∧ FetchExact twoByteDisk s := by
  obtain ⟨s, done⟩ := Option.isSome_iff_exists.mp (show (execOk (mailboxStep twoByteDisk)
    StartsUnheld (.init fun _ => 0) (fetchLabels ⟨0, 0, 2, 5⟩)).isSome from rfl)
  have run := RunOk.of_execOk (fun _ _ => id) done
  exact ⟨s, run, by cases done; rfl, fetchExact_of_run run⟩

theorem not_fetchExact_overtaken :
    ¬ ∀ labels s, exec (mailboxStep twoByteDisk) (.init fun _ => 0) labels = some s →
      FetchExact twoByteDisk s := by
  intro exact
  obtain ⟨s, done⟩ := Option.isSome_iff_exists.mp (show (exec (mailboxStep twoByteDisk)
    (.init fun _ => 0) overtakenLabels).isSome from rfl)
  have delivered := (exact overtakenLabels s done).delivered ⟨0, 1, 1, 0⟩ (by cases done; rfl)
  have held : slice s.heap 0 1 = [1] := by cases done; rfl
  have own : (⟨0, 1, 1, 0⟩ : Request).sourceBytes twoByteDisk = [2] := rfl
  rw [Request.Delivered, own] at delivered
  exact absurd (held.symm.trans delivered) (by decide)

end PCemWeb.Platform
