import AsioSamples.Framework.Machine
import AsioSamples.Framework.Memory
import AsioSamples.Udp.Answers

/-!
# The asynchronous UDP daytime server

`UdpServer` of `net/udp/server/asynchronous/server.h`, run by the `io_context.run()` of its
`main`. A receive is completed in two steps: asio fills `remote_endpoint_` and `buff_` when
the datagram arrives, and runs the handler later. An `async_send_to` keeps the destination, a
pointer and a length; the bytes are read from the memory of the function-static `message` at
the moment the socket takes them.
-/

namespace AsioSamples.UdpServer

open Framework

/-- The members that a receive in flight fills, and what the handlers make of them. -/
inductive Member where
  | remoteEndpoint
  | clientInfo
  | buff

/-- A handler reads or writes a shared member while so many receives are outstanding. -/
structure Access where
  member : Member
  outstanding : ℕ

inductive SendStatus where
  | pending
  | taken
  | failed (e : ErrorCode)
  deriving DecidableEq

/-- An `async_send_to` whose handler has not run; `seq` numbers the calls of `sendData`. -/
structure Send where
  seq : ℕ
  destination : Endpoint
  data : ℕ
  size : ℕ
  status : SendStatus

structure Departed where
  seq : ℕ
  destination : Endpoint
  bytes : Bytes
  deriving DecidableEq

/-- What the server is given: the generator by call, the bound socket, and the way the
string implementation stores what is assigned to `message`. -/
structure Config where
  listenPort : ℕ
  localEndpoint : Endpoint
  nativeHandle : ℕ
  pDataGen : ℕ → Bytes
  strings : StringImpl UInt8

def Config.daytime (pDataGen : ℕ → Bytes) : Config where
  listenPort := 13
  localEndpoint := ⟨"0.0.0.0", 13⟩
  nativeHandle := 3
  pDataGen := pDataGen
  strings := .inPlace

/-- `receiving` counts the receives that wait for a datagram, and `ready` lists the results of
those whose handler has still to run. `initiated` lists the replies in the order of their
`async_send_to`. -/
structure State where
  message : StringObject := ⟨0, 0⟩
  memory : Memory UInt8 := fun _ => 0
  generated : ℕ := 0
  remoteEndpoint : Endpoint := ⟨"0.0.0.0", 0⟩
  clientInfo : String := ""
  buff : Bytes := List.replicate buffSize 0
  socketOpen : Bool := true
  receiving : ℕ := 0
  ready : List (Except ErrorCode ℕ) := []
  sends : List Send := []
  initiated : List Reply := []
  departed : List Departed := []
  accesses : List Access := []
  cout : List String := []

inductive Event where
  | arrive (o : Received)
  | handleReceive
  | take (i : ℕ)
  | sendFail (i : ℕ) (e : ErrorCode)
  | handleSend (i : ℕ)

def State.outstanding (s : State) : ℕ := s.receiving + s.ready.length

def print (line : String) (s : State) : State := { s with cout := s.cout ++ [line] }

def access (m : Member) (s : State) : State :=
  { s with accesses := s.accesses ++ [⟨m, s.outstanding⟩] }

def assignMessage (C : Config) (s : State) : State :=
  let text := C.pDataGen s.generated
  let stored := C.strings.assign s.generated s.memory s.message text
  { s with
    memory := stored.1, message := ⟨stored.2, text.length⟩, generated := s.generated + 1 }

/-- `socket_.async_send_to(buffer(message), remote_endpoint_, bind(&UdpServer::handleSend, …))`. -/
def asyncSendTo (s : State) : State :=
  { access .remoteEndpoint s with
    sends := s.sends ++
      [⟨s.initiated.length, s.remoteEndpoint, s.message.data, s.message.size, .pending⟩]
    initiated := s.initiated ++ [⟨s.remoteEndpoint, s.message.contents s.memory⟩] }

def sendData (C : Config) (s : State) : State :=
  let s := asyncSendTo (assignMessage C s)
  if s.socketOpen then
    let s := access .clientInfo s
    print "close the connection\n\n"
      (print ("message has sent to client " ++ s.clientInfo ++ "\n") s)
  else s

/-- `UdpServer::startReceive`. It makes `buffer(buff_)` before the receive is outstanding. -/
def startReceive (C : Config) (s : State) : State :=
  let s := print ("server has a socket '" ++ C.localEndpoint.info ++ "/fd:" ++
    toString C.nativeHandle ++ "' for sending data to client.\n") s
  let s := print ("wait for connection request in port " ++ toString C.listenPort ++ "\n") s
  let s := access .buff s
  { s with receiving := s.receiving + 1 }

/-- `UdpServer::handleReceive`; `len` is not used. -/
def handleReceive (C : Config) (result : Except ErrorCode ℕ) (s : State) : State :=
  let s := match result with
    | .ok _ =>
      -- the address and the port are asked for one after the other
      let s := access .clientInfo (access .remoteEndpoint (access .remoteEndpoint s))
      let s := { s with clientInfo := s.remoteEndpoint.info }
      let s := access .clientInfo s
      sendData C (print ("received connection request successfully from client " ++
        s.clientInfo ++ "\n") s)
    | .error e => print ("error occurred: " ++ e.message ++ "\n") s
  startReceive C s

/-- asio completes a receive: a datagram is cut to the buffer, and its sender is stored. -/
def complete (o : Received) (s : State) : State :=
  match o with
  | .ok d =>
    { s with
      remoteEndpoint := d.sender
      buff := d.payload.take buffSize ++ s.buff.drop d.payload.length
      ready := s.ready ++ [.ok (min d.payload.length buffSize)] }
  | .error e => { s with ready := s.ready ++ [.error e] }

def takeBytes (i : ℕ) (w : Send) (s : State) : State :=
  { s with
    sends := s.sends.set i { w with status := .taken }
    departed := s.departed ++ [⟨w.seq, w.destination, s.memory.read w.data w.size⟩] }

/-- One event between two handlers. Bytes that are taken when the send is initiated are taken
here as the next event: the rest of the handler does not touch `message`. -/
def step (C : Config) (s : State) : Event → Option State
  | .arrive o =>
    match s.receiving with
    | 0 => none
    | n + 1 => some (complete o { s with receiving := n })
  | .handleReceive =>
    match s.ready with
    | [] => none
    | result :: rest => some (handleReceive C result { s with ready := rest })
  | .take i =>
    match s.sends[i]? with
    | some w => if w.status = .pending then some (takeBytes i w s) else none
    | none => none
  | .sendFail i e =>
    match s.sends[i]? with
    | some w =>
      if w.status = .pending then
        some { s with sends := s.sends.set i { w with status := .failed e } }
      else none
    | none => none
  | .handleSend i =>
    -- `handleSend` is empty
    match s.sends[i]? with
    | some w => if w.status ≠ .pending then some { s with sends := s.sends.eraseIdx i } else none
    | none => none

/-- The constructor calls `startReceive`, then `main` enters `io_context.run()`. -/
def server (C : Config) : Machine State Event where
  init := startReceive C {}
  step := step C

end AsioSamples.UdpServer
