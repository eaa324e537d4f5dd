import PCemWeb.Lib.Bytes

/-!
# The disk request mailbox

`diskio_fetch_locked` posts one request at a time in the static slot `req` and waits for the
browser main thread, whose tick polls the slot, reads its four fields, looks the disk up,
reads the file asynchronously, copies the bytes to the request's buffer and calls
`pcem_diskreq_complete`. Each store to the slot and each load from it is a step of its own,
because the two parties run on different threads. `fetch_mutex` admits one emulation-side
caller at a time, so one fetch program counter stands for all of them.
-/

namespace PCemWeb.Platform

open PCemWeb.Lib

abbrev Byte := BitVec 8

/-- `diskio_req_t.stage`: 0, 1, 2 and 3. -/
inductive Stage
  | idle
  | posted
  | inService
  | done
  deriving DecidableEq, Repr

/-- The arguments of `diskio_fetch`. -/
structure Request where
  disk : Nat
  offset : Nat
  len : Nat
  buf : Nat
  deriving DecidableEq, Repr

/-- `diskio_req_t`. -/
structure DiskReq where
  stage : Stage
  ok : Bool
  disk : Nat
  offset : Nat
  len : Nat
  buf : Nat
  deriving DecidableEq, Repr

/-- The four argument fields of the slot. -/
def DiskReq.request (q : DiskReq) : Request := ⟨q.disk, q.offset, q.len, q.buf⟩

/-- Where the emulation thread is in `diskio_fetch_locked`. -/
inductive Fetch
  | idle
  | diskStored (r : Request)
  | offsetStored (r : Request)
  | lenStored (r : Request)
  | bufStored (r : Request)
  | okCleared (r : Request)
  | waiting (r : Request)
  | timedOut (r : Request)
  | sawDone (r : Request)
  | acknowledged (r : Request)
  | returned (r : Request) (ok : Bool)
  deriving DecidableEq, Repr

/-- Where the browser service is in `__pcemDiskTick`. The ghost `ticket` numbers the request
whose `stage = 1` the poll saw. -/
inductive Service
  | idle
  | sawPosted (ticket : Nat)
  | polled (ticket : Nat)
  | gotDisk (ticket disk : Nat)
  | gotOffset (ticket disk offset : Nat)
  | gotLen (ticket disk offset len : Nat)
  | gotBuf (ticket : Nat) (job : Request)
  | reading (ticket : Nat) (job : Request)
  | completing (ticket : Nat) (ok : Bool)
  | okStored (ticket : Nat)
  | releasing
  deriving DecidableEq, Repr

/-- The ticket of the request the service has in hand: from the poll that saw it posted to the
store of `stage = 3`. -/
def Service.held : Service → Option Nat
  | .idle | .releasing => none
  | .sawPosted t | .polled t | .gotDisk t _ | .gotOffset t _ _ | .gotLen t _ _ _ | .gotBuf t _
  | .reading t _ | .completing t _ | .okStored t => some t

structure MailboxState where
  req : DiskReq
  heap : Nat → Byte
  fetch : Fetch
  service : Service
  /-- Ghost: the number of requests started so far. -/
  posts : Nat

/-- The static slot is zero-initialised; the heap is arbitrary. -/
def MailboxState.init (heap : Nat → Byte) : MailboxState :=
  ⟨⟨.idle, false, 0, 0, 0, 0⟩, heap, .idle, .idle, 0⟩

section

-- `browserDisks`: the content of each registered disk.
variable (browserDisks : Nat → Option (List Byte))

/-- `file.slice(offset, offset + len)`, or the body of the equivalent Range request. -/
def sourceSlice (source : List Byte) (offset len : Nat) : List Byte :=
  (source.drop offset).take len

/-- The source bytes a request asks for. -/
def Request.sourceBytes (r : Request) : List Byte :=
  match browserDisks r.disk with
  | none => []
  | some source => sourceSlice source r.offset r.len

/-- The heap holds the request's own source bytes at its buffer. -/
def Request.Delivered (r : Request) (heap : Nat → Byte) : Prop :=
  slice heap r.buf (r.sourceBytes browserDisks).length = r.sourceBytes browserDisks

/-- One atomic step of either party. -/
inductive MailboxLabel
  /-- `emscripten_is_main_browser_thread()`: the fetch fails before touching the slot. -/
  | refuse (r : Request)
  /-- The first store of a new request, `req.disk = id`. -/
  | start (r : Request)
  /-- The next store to the slot, ending with `req.stage = 1`. -/
  | store
  /-- The wait loop reads `req.stage == 3`. -/
  | observeDone
  /-- The wait loop reads `req.stage != 3` and `DISKIO_REQ_TIMEOUT_MS` has passed. -/
  | expire
  /-- `req.stage = 0; return 0`. -/
  | abandon
  /-- `req.stage = 0` after the loop. -/
  | acknowledge
  /-- `return req.ok`. -/
  | finish
  /-- `pcem_diskreq_poll` reads `req.stage == 1`. -/
  | poll
  /-- The next load or store of the service tick, up to the file lookup. -/
  | serve
  /-- The asynchronous read fulfils and `HEAPU8.set` copies its bytes to the buffer. -/
  | deliver
  /-- The asynchronous read rejects. -/
  | reject
  /-- The next store of `pcem_diskreq_complete`, then the end of the tick. -/
  | complete
  deriving DecidableEq, Repr

/-- The emulation thread's next store of a request. -/
def storeNext (s : MailboxState) : Option MailboxState :=
  match s.fetch with
  | .diskStored r =>
    some { s with req := { s.req with offset := r.offset }, fetch := .offsetStored r }
  | .offsetStored r => some { s with req := { s.req with len := r.len }, fetch := .lenStored r }
  | .lenStored r => some { s with req := { s.req with buf := r.buf }, fetch := .bufStored r }
  | .bufStored r => some { s with req := { s.req with ok := false }, fetch := .okCleared r }
  | .okCleared r => some { s with req := { s.req with stage := .posted }, fetch := .waiting r }
  | _ => none

/-- The service's next step between its poll and the asynchronous read. -/
def serveNext (s : MailboxState) : Option MailboxState :=
  match s.service with
  | .sawPosted t => some { s with req := { s.req with stage := .inService }, service := .polled t }
  | .polled t => some { s with service := .gotDisk t s.req.disk }
  | .gotDisk t d => some { s with service := .gotOffset t d s.req.offset }
  | .gotOffset t d o => some { s with service := .gotLen t d o s.req.len }
  | .gotLen t d o l => some { s with service := .gotBuf t ⟨d, o, l, s.req.buf⟩ }
  | .gotBuf t job =>
    if (browserDisks job.disk).isSome then some { s with service := .reading t job }
    else some { s with service := .completing t false }
  | _ => none

/-- The service's next step of `pcem_diskreq_complete` and of the end of its tick. -/
def completeNext (s : MailboxState) : Option MailboxState :=
  match s.service with
  | .completing t ok => some { s with req := { s.req with ok := ok }, service := .okStored t }
  | .okStored _ => some { s with req := { s.req with stage := .done }, service := .releasing }
  | .releasing => some { s with service := .idle }
  | _ => none

/-- A new fetch may begin when no other one is under way. -/
def Fetch.ready : Fetch → Bool
  | .idle | .returned _ _ => true
  | _ => false

/-- One step of the emulation thread or of the browser service. -/
def mailboxStep (s : MailboxState) : MailboxLabel → Option MailboxState
  | .refuse r => if s.fetch.ready then some { s with fetch := .returned r false } else none
  | .start r =>
    if s.fetch.ready then
      some { s with
        req := { s.req with disk := r.disk }, fetch := .diskStored r, posts := s.posts + 1 }
    else none
  | .store => storeNext s
  | .observeDone =>
    match s.fetch with
    | .waiting r => if s.req.stage = .done then some { s with fetch := .sawDone r } else none
    | _ => none
  | .expire =>
    match s.fetch with
    | .waiting r => if s.req.stage = .done then none else some { s with fetch := .timedOut r }
    | _ => none
  | .abandon =>
    match s.fetch with
    | .timedOut r =>
      some { s with req := { s.req with stage := .idle }, fetch := .returned r false }
    | _ => none
  | .acknowledge =>
    match s.fetch with
    | .sawDone r =>
      some { s with req := { s.req with stage := .idle }, fetch := .acknowledged r }
    | _ => none
  | .finish =>
    match s.fetch with
    | .acknowledged r => some { s with fetch := .returned r s.req.ok }
    | _ => none
  | .poll =>
    match s.service with
    | .idle =>
      if s.req.stage = .posted then some { s with service := .sawPosted s.posts } else none
    | _ => none
  | .serve => serveNext browserDisks s
  | .deliver =>
    match s.service with
    | .reading t job =>
      some { s with
        heap := overlay s.heap job.buf (job.sourceBytes browserDisks)
        service := .completing t true }
    | _ => none
  | .reject =>
    match s.service with
    | .reading t _ => some { s with service := .completing t false }
    | _ => none
  | .complete => completeNext s

end

end PCemWeb.Platform
