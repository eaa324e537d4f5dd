import PCemWeb.Lib.Run
import PCemWeb.Lib.WebSocket

/-!
# The Ethernet relay

The hub of `net_relay.mjs`: the parser that each data event of a socket drives, the two encoders
that write to sockets, and the events of the sockets as one step function. A hub also keeps what no
code reads: what it has passed on, and for each socket what its client has sent and the stretch of
that log during which it could be written to.
-/

namespace PCemWeb.Network

open PCemWeb.Lib PCemWeb.Lib.WebSocket

namespace NetRelay

/-- `MAX_FRAME`. -/
def maxFrame : Nat := 4096

/-! ## Encoders -/

/-- One unmasked binary frame. -/
def encodeFrame (payload : List Octet) : List Octet :=
  let len := payload.length
  if len < 126 then [0x82, BitVec.ofNat 8 len] ++ payload
  else [0x82, 126, BitVec.ofNat 8 (len / 256), BitVec.ofNat 8 len] ++ payload

def encodePong (payload : List Octet) : List Octet :=
  [0x8a, BitVec.ofNat 8 payload.length] ++ payload

/-! ## The parser of a socket -/

def byteAt (buf : List Octet) (i : Nat) : Octet :=
  buf.getD i 0

def readUInt16BE (buf : List Octet) (off : Nat) : Nat :=
  (List.range 2).foldl (fun n i => n * 256 + (byteAt buf (off + i)).toNat) 0

def readBigUInt64BE (buf : List Octet) (off : Nat) : Nat :=
  (List.range 8).foldl (fun n i => n * 256 + (byteAt buf (off + i)).toNat) 0

/-- What the buffer holds. -/
inductive Taken
  | wait
  | close (why : String)
  | frame (fin : Bool) (op : Nat) (payload rest : List Octet)

/-- The checks and the payload of a frame whose header ends at `off`. -/
def takePayload (buf : List Octet) (fin : Bool) (op : Nat) (masked : Bool) (len off : Nat) :
    Taken :=
  if maxFrame < len then .close "oversized frame"
  else if !masked then .close "unmasked client frame"
  else if buf.length < off + 4 + len then .wait
  else
    let mask := (buf.drop off).take 4
    let payload := (List.range len).map fun i => byteAt buf (off + 4 + i) ^^^ byteAt mask (i &&& 3)
    .frame fin op payload (buf.drop (off + 4 + len))

def takeFrame (buf : List Octet) : Taken :=
  if buf.length < 2 then .wait
  else
    let fin := byteAt buf 0 &&& 0x80 != 0
    let op := (byteAt buf 0 &&& 0x0f).toNat
    let masked := byteAt buf 1 &&& 0x80 != 0
    let len := (byteAt buf 1 &&& 0x7f).toNat
    if len = 126 then
      if buf.length < 4 then .wait
      else takePayload buf fin op masked (readUInt16BE buf 2) 4
    else if len = 127 then
      if buf.length < 10 then .wait
      else if maxFrame < readBigUInt64BE buf 2 then .close "oversized frame"
      else takePayload buf fin op masked (readBigUInt64BE buf 2) 10
    else takePayload buf fin op masked len 2

/-- The variables of a connection: unread bytes, and the fragments of the current message. -/
structure Parser where
  buf : List Octet
  msg : List (List Octet)
  msgOp : Nat

/-- One pass of the loop over the buffer. -/
inductive Turn
  | wait
  | close (why : String)
  | next (after : Parser) (event : Option Event)

/-- The message of its fragments. -/
def wholeOf : (msg : List (List Octet)) → List Octet
  | [fragment] => fragment
  | fragments => fragments.flatten

/-- A data frame has been added to the message. -/
def Parser.finish (p : Parser) (fin : Bool) : Turn :=
  if fin then
    let whole := wholeOf p.msg
    .next { p with msg := [], msgOp := 0 }
      (if 14 ≤ whole.length ∧ whole.length ≤ maxFrame then some (.message whole) else none)
  else .next p none

def Parser.turn (p : Parser) : Turn :=
  match takeFrame p.buf with
  | .wait => .wait
  | .close why => .close why
  | .frame fin op payload rest =>
    match op with
    | 0x0 =>
      if p.msgOp = 0 then .close "stray continuation"
      else { p with buf := rest, msg := p.msg ++ [payload] : Parser }.finish fin
    | 0x1 | 0x2 => { buf := rest, msg := [payload], msgOp := op : Parser }.finish fin
    | 0x8 => .close "client close"
    | 0x9 => .next { p with buf := rest } (some (.ping payload))
    | 0xa => .next { p with buf := rest } none
    | op => .close ("bad opcode " ++ toString op)

/-! ## The hub -/

/-- A socket after its handshake. The last four fields are history. -/
structure Socket where
  /-- In `clients`. -/
  member : Bool
  destroyed : Bool
  reason : Option String
  parser : Parser
  written : List Octet
  sent : List Octet
  gone : Bool
  joined : Nat
  left : Option Nat

structure Hub where
  sockets : Nat → Option Socket
  log : List (Nat × Event)

namespace Hub

def initial : Hub := ⟨fun _ => none, []⟩

def update (h : Hub) (c : Nat) (change : Socket → Socket) : Hub :=
  { h with sockets := fun d => if d = c then (h.sockets d).map change else h.sockets d }

def broadcast (h : Hub) (src : Nat) (payload : List Octet) : Hub :=
  let frame := encodeFrame payload
  { h with sockets := fun d => (h.sockets d).map fun s =>
      if s.member && d != src && !s.destroyed then { s with written := s.written ++ frame } else s }

/-- What the handler does with a message or a ping of socket `c`. -/
def emit (h : Hub) (c : Nat) : Option Event → Hub
  | none => h
  | some (.message payload) =>
    { h.broadcast c payload with log := h.log ++ [(c, .message payload)] }
  | some (.ping payload) =>
    { h.update c fun s => { s with written := s.written ++ encodePong payload } with
      log := h.log ++ [(c, .ping payload)] }

def close (h : Hub) (c : Nat) (why : String) : Hub :=
  h.update c fun s =>
    if s.member then
      { s with member := false, destroyed := true, reason := some why
               left := s.left.or (some h.log.length) }
    else s

/-- The loop of the data handler. -/
def pump : (fuel : Nat) → Hub → Nat → Hub
  | 0, h, _ => h
  | fuel + 1, h, c =>
    match h.sockets c with
    | none => h
    | some s =>
      match s.parser.turn with
      | .wait => h
      | .close why => h.close c why
      | .next p event => pump fuel ((h.update c fun s => { s with parser := p }).emit c event) c

/-- What can happen to a socket. -/
inductive Op
  | join (c : Nat)
  /-- The client sends. A socket that the relay has destroyed raises no data event. -/
  | data (c : Nat) (chunk : List Octet)
  /-- The connection fails: the socket is destroyed before its error event. -/
  | fail (c : Nat)
  | error (c : Nat)
  | hangup (c : Nat)

def fresh (joined : Nat) : Socket :=
  { member := true, destroyed := false, reason := none, parser := ⟨[], [], 0⟩, written := []
    sent := [], gone := false, joined := joined, left := none }

/-- The socket's end: its handler, and nothing more from the client. -/
def leave (h : Hub) (c : Nat) (why : String) : Hub :=
  (h.close c why).update c fun s => { s with gone := true }

def step (h : Hub) : Op → Option Hub
  | .join c =>
    match h.sockets c with
    | none => some { h with sockets := fun d => if d = c then some (fresh h.log.length)
                                               else h.sockets d }
    | some _ => none
  | .data c chunk =>
    (h.sockets c).bind fun s =>
      if s.gone then none
      else
        let h := h.update c fun s => { s with sent := s.sent ++ chunk }
        if s.destroyed then some h
        else
          let buf := s.parser.buf ++ chunk
          some ((h.update c fun s => { s with parser := { s.parser with buf := buf } }).pump
            (buf.length + 1) c)
  | .fail c =>
    (h.sockets c).map fun _ =>
      h.update c fun s =>
        { s with destroyed := true, gone := true, left := s.left.or (some h.log.length) }
  | .error c => (h.sockets c).map fun _ => h.leave c "socket error"
  | .hangup c => (h.sockets c).map fun _ => h.leave c "hangup"

end Hub

/-! ## What the relay owes -/

/-- The messages the relay forwards; pings are answered. -/
def deliverable : Event → Bool
  | .message data => 14 ≤ data.length && data.length ≤ maxFrame
  | .ping _ => true

/-- What a client's octets ask of the relay. -/
def asked (sent : List Octet) : List Event :=
  (events maxFrame none (frames sent)).filter deliverable

/-- What the relay has passed on from a client. -/
def passedOn (c : Nat) (log : List (Nat × Event)) : List Event :=
  log.filterMap fun entry => if entry.1 = c then some entry.2 else none

def serverFrame (opcode : BitVec 4) (data : List Octet) : Frame :=
  { fin := true, rsv := 0, opcode := opcode, key := none, form := shortest data.length
    payload := data }

/-- The frame that an event means to client `c`: another's message, or the pong to its own ping. -/
def reply (c : Nat) : Nat × Event → Option Frame
  | (d, .message data) => if d = c then none else some (serverFrame 2 data)
  | (d, .ping data) => if d = c then some (serverFrame 10 data) else none

/-- The part of the log during which the socket could be written to. -/
def Socket.span (s : Socket) (log : List (Nat × Event)) : List (Nat × Event) :=
  (log.take (s.left.getD log.length)).drop s.joined

/-- The relay has passed on what the client asked, and written to it exactly the well-formed frames
of the others' messages and of its own pongs. -/
structure SocketExact (log : List (Nat × Event)) (c : Nat) (s : Socket) : Prop where
  forwarded : passedOn c log = asked s.sent
  written : s.written = wire ((s.span log).filterMap (reply c))
  read : frames s.written = (s.span log).filterMap (reply c)
  wellFormed : ∀ f ∈ (s.span log).filterMap (reply c), f.FromServer

def RelayExact (h : Hub) : Prop :=
  ∀ c s, h.sockets c = some s → SocketExact h.log c s

/-- The violations that the parser looks for. -/
def refused : Violation → Bool
  | .unmasked | .oversized | .reservedOpcode | .strayContinuation => true
  | _ => false

/-- A client's stream breaks the protocol, if at all, first in a way that the parser looks for. -/
def Strict (sent : List Octet) : Prop :=
  ∀ v, firstViolation maxFrame none (frames sent) = some v → refused v

/-- Data keeps the stream of its client strict. -/
def StrictStep (h : Hub) : Hub.Op → Prop
  | .data c chunk => ∀ s, h.sockets c = some s → Strict (s.sent ++ chunk)
  | _ => True

end NetRelay

end PCemWeb.Network
