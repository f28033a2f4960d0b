import AsioSamples.Framework.Machine
import AsioSamples.Framework.Memory
import AsioSamples.Socket

/-!
# The asynchronous TCP daytime server

`TcpConnection` and `TcpServer` of `net/tcp/server/asynchronous/server.h`, run by the
`io_context.run()` of its `main`. Ownership is explicit: a connection counts the
`shared_ptr`s to it, and what a bound handler captures is part of the state. An
`async_write` keeps a pointer and a length, so what it sends is read from the memory of the
function-static `message` at the moment of sending. Where a transfer took only a part, the
operation goes on with the socket of its connection, whether or not that still exists.
-/

namespace AsioSamples.TcpServer

open Framework

/-- A `TcpConnection` object; connections are numbered in the order of their creation.
`client` is the peer its socket is connected to, `text` what `p_data_gen` returned in its
`addressRequest`, and `received` what its peer was sent. -/
structure TcpConnection where
  owners : ℕ := 0
  isOpen : Bool := false
  client : Option Client := none
  text : Option Bytes := none
  received : Bytes := []

/-- An outstanding `write_op`. It owns nothing: it has a reference to the socket, and its handler
a plain `this`. `transferred` is what its `async_write_some` took, once that has succeeded. -/
structure Write where
  conn : ℕ
  data : ℕ
  size : ℕ
  sent : ℕ
  transferred : Option ℕ

/-- The transfer took some of the bytes and others are left. One that failed took none. -/
def Write.Continues (w : Write) : Prop := w.transferred.getD 0 ≠ 0 ∧ w.sent < w.size

instance (w : Write) : Decidable w.Continues := inferInstanceAs (Decidable (_ ∧ _))

structure Config where
  listenPort : ℕ
  listenEndpoint : Endpoint
  listenHandle : ℕ
  pDataGen : ℕ → Bytes
  strings : StringImpl UInt8

def Config.daytime (pDataGen : ℕ → Bytes) : Config where
  listenPort := 13
  listenEndpoint := ⟨"0.0.0.0", 13⟩
  listenHandle := 3
  pDataGen := pDataGen
  strings := .inPlace

/-- `accepting` lists the outstanding `async_accept`s by the connection whose pointer the
bound handler stores; `left` is the exception that left `io_context.run()`. `invoked` records
each handler invocation with whether its connection was live. `undefined` says that a transfer
was started on the socket of a destroyed connection; the other fields go on as if it had failed. -/
structure State where
  message : StringObject := ⟨0, 0⟩
  memory : Memory UInt8 := fun _ => 0
  generated : ℕ := 0
  conns : ℕ → TcpConnection := fun _ => {}
  created : ℕ := 0
  accepting : List ℕ := []
  writes : List Write := []
  left : Option ErrorCode := none
  undefined : Bool := false
  cout : List String := []
  cerr : List ErrorCode := []
  invoked : List (ℕ × Bool) := []

/-- A client that was accepted, and how many bytes each send takes between the initiation of
the write and the shutdown. One `async_write_some` makes at most one send; more are allowed. -/
structure Accepted where
  client : Client
  sends : List ℕ

inductive Event where
  | accept (outcome : Except ErrorCode Accepted)
  | transmit (i k : ℕ)
  | writeComplete (i : ℕ)

def State.modifyConn (s : State) (c : ℕ) (f : TcpConnection → TcpConnection) : State :=
  { s with conns := Function.update s.conns c (f (s.conns c)) }

def retain (c : ℕ) (s : State) : State :=
  s.modifyConn c fun conn => { conn with owners := conn.owners + 1 }

/-- One `shared_ptr` to the connection goes; with the last one the socket is closed. -/
def release (c : ℕ) (s : State) : State :=
  s.modifyConn c fun conn =>
    { conn with owners := conn.owners - 1, isOpen := conn.isOpen && decide (1 < conn.owners) }

def print (line : String) (s : State) : State := { s with cout := s.cout ++ [line] }

/-- `message = p_data_gen();` in the `addressRequest` of `this`. -/
def assignMessage (C : Config) (this : ℕ) (s : State) : State :=
  let text := C.pDataGen s.generated
  let stored := C.strings.assign s.generated s.memory s.message text
  { s.modifyConn this fun conn => { conn with text := some text } with
    memory := stored.1, message := ⟨stored.2, text.length⟩, generated := s.generated + 1 }

/-- Sending no bytes is complete at once. -/
def startTransfer (size : ℕ) : Option ℕ := if size = 0 then some 0 else none

/-- `async_write(socket_, buffer(message), bind(&TcpConnection::handleWrite, this, ...))`. -/
def asyncWrite (this : ℕ) (s : State) : State :=
  { s with writes := s.writes ++
      [⟨this, s.message.data, s.message.size, 0, startTransfer s.message.size⟩] }

/-- A send of the `i`-th outstanding write takes at most `k` of the bytes that remain. -/
def transmit (i k : ℕ) (s : State) : State :=
  match s.writes[i]? with
  | none => s
  | some w =>
    let n := min k (w.size - w.sent)
    { s.modifyConn w.conn fun conn =>
        { conn with received := conn.received ++ s.memory.read (w.data + w.sent) n } with
      writes := s.writes.set i { w with sent := w.sent + n, transferred := some n } }

/-- The sends of the newest write that take place before the caller of `async_write` goes on. -/
def initialSends (sends : List ℕ) (s : State) : State :=
  sends.foldl (fun s k => transmit (s.writes.length - 1) k s) s

def addressRequest (C : Config) (this : ℕ) (a : Accepted) :
    Handler State ErrorCode Unit := do
  let localSktInfo ← localInfo a.client
  Handler.modify (print ("server has created a new socket '" ++ localSktInfo ++ "/fd:" ++
    toString a.client.nativeHandle ++ "' for connectting client.\n"))
  let clientInfo ← remoteInfo a.client
  Handler.modify (print ("connected successfully with client " ++ clientInfo ++ "\n"))
  Handler.modify (assignMessage C this)
  Handler.modify (asyncWrite this)
  Handler.modify (initialSends a.sends)
  let s ← Handler.get
  if (s.conns this).isOpen then
    call a.client .shutdown
    -- the descriptor is closed even where `close` reports an error
    Handler.modify fun s => s.modifyConn this fun conn => { conn with isOpen := false }
    call a.client .close
    Handler.modify (print ("message has sent to client " ++ clientInfo ++ "\n"))
    Handler.modify (print "close the connection\n\n")

/-- `TcpServer::startAccept`: the local pointer owns the new connection until it returns, the
bound handler from then on. -/
def startAccept (C : Config) (s : State) : State :=
  let s := print ("server has a listen socket '" ++ C.listenEndpoint.info ++ "/fd:" ++
    toString C.listenHandle ++ "' for listening connection.\n") s
  let newConnection := s.created
  let s := { s with
    conns := Function.update s.conns newConnection { owners := 1 }, created := s.created + 1 }
  let s := print ("wait for connecting in port " ++ toString C.listenPort ++ "\n") s
  let s := retain newConnection { s with accepting := s.accepting ++ [newConnection] }
  release newConnection s

/-- `TcpServer::handleAccept`; `new_connection` is a parameter by value. -/
def handleAccept (C : Config) (newConnection : ℕ) (outcome : Except ErrorCode Accepted) :
    Handler State ErrorCode Unit := do
  Handler.modify (retain newConnection)
  Handler.ensure (do
    match outcome with
    | .ok a => addressRequest C newConnection a
    | .error e => Handler.modify (print ("error occurred: " ++ e.message ++ "\n"))
    Handler.modify (startAccept C)) (release newConnection)

def acceptSocket (c : ℕ) (outcome : Except ErrorCode Accepted) (s : State) : State :=
  match outcome with
  | .ok a => s.modifyConn c fun conn => { conn with isOpen := true, client := some a.client }
  | .error _ => s

def invoke (c : ℕ) (s : State) : State :=
  { s with invoked := s.invoked ++ [(c, decide (0 < (s.conns c).owners))] }

/-- The accept handler runs and is destroyed; an exception leaves `run()` and `main` prints it. -/
def runAccept (C : Config) (c : ℕ) (outcome : Except ErrorCode Accepted) (s : State) :
    State :=
  let r := handleAccept C c outcome (invoke c (acceptSocket c outcome s))
  let s := release c r.2
  match r.1 with
  | .ok _ => s
  | .error e => { s with left := some e, cerr := s.cerr ++ [e] }

/-- `write_op::operator()` for the `i`-th outstanding write. -/
def writeOp (i : ℕ) (w : Write) (s : State) : State :=
  let s := invoke w.conn s
  if w.Continues then
    -- `stream_.async_write_some`, where `stream_` is the socket of the connection
    { s with
      writes := s.writes.set i { w with transferred := none }
      undefined := s.undefined || decide ((s.conns w.conn).owners = 0) }
  else
    -- `handleWrite` is empty: it reads neither its arguments nor the connection
    { s with writes := s.writes.eraseIdx i }

/-- One event between two handlers. After `run()` was left no handler is invoked any more. -/
def step (C : Config) (s : State) : Event → Option State
  | .accept outcome =>
    match s.left, s.accepting with
    | some _, _ => some s
    | none, [] => none
    | none, c :: rest => some (runAccept C c outcome { s with accepting := rest })
  | .transmit i k =>
    match s.writes[i]? with
    | none => none
    | some w => if (s.conns w.conn).isOpen then some (transmit i k s) else none
  | .writeComplete i =>
    match s.left, s.writes[i]? with
    | none, some w =>
      -- a transfer that still waits when the socket is closed completes with an error
      if w.transferred.isSome ∨ ¬ (s.conns w.conn).isOpen then some (writeOp i w s) else none
    | _, _ => none

/-- The constructor calls `startAccept`, then `main` enters `io_context.run()`. -/
def server (C : Config) : Machine State Event where
  init := startAccept C {}
  step := step C

end AsioSamples.TcpServer
