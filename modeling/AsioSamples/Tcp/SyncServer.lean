import AsioSamples.Framework.Machine
import AsioSamples.Socket

/-!
# The synchronous TCP daytime server

`tcpServer` of `net/tcp/server/synchronous/main.cc`: one `try` block around a loop that
accepts a client, queries its endpoints, writes the string it makes for it, and closes the
socket when the loop body ends. `boost::asio::write` is a loop of partial sends, so a run of
the server is interleaved with its clients there and at `acceptor.accept`.
-/

namespace AsioSamples.SyncTcpServer

open Framework

/-- What the server is given: the generator by call and the listening socket. -/
structure Config where
  listenPort : ℕ
  listenEndpoint : Endpoint
  listenHandle : ℕ
  pMakeString : ℕ → Bytes

def Config.daytime (pMakeString : ℕ → Bytes) : Config where
  listenPort := 13
  listenEndpoint := ⟨"::", 13⟩
  listenHandle := 3
  pMakeString := pMakeString

/-- Where the control is: in `acceptor.accept`, in `boost::asio::write` with the bytes that
remain, or out of `tcpServer` after an exception. -/
inductive Control where
  | accepting
  | writing (client : Client) (rest : Bytes)
  | exited (e : ErrorCode)

/-- The server side of one connection: the string made for it, the bytes its socket took, and
whether the socket was closed by the normal end of the loop body. -/
structure Wire where
  text : Option Bytes := none
  sent : Bytes := []
  closed : Bool := false

/-- Connections are numbered in the order of their acceptance. -/
structure State where
  control : Control := .accepting
  first : Bool := true
  accepted : ℕ := 0
  generated : ℕ := 0
  wires : ℕ → Wire := fun _ => {}
  cout : List String := []
  cerr : List ErrorCode := []

inductive Event where
  | accept (outcome : Except ErrorCode Client)
  | writeSome (k : ℕ)
  | writeReturn
  | writeThrow

def print (line : String) (s : State) : State := { s with cout := s.cout ++ [line] }

def State.current (s : State) : ℕ := s.accepted - 1

def State.modifyWire (s : State) (c : ℕ) (f : Wire → Wire) : State :=
  { s with wires := Function.update s.wires c (f (s.wires c)) }

@[simp] theorem modifyWire_wires (s : State) (c d : ℕ) (f : Wire → Wire) :
    (s.modifyWire c f).wires d = if d = c then f (s.wires c) else s.wires d := by
  simp only [State.modifyWire, Function.update_apply]

@[simp] theorem modifyWire_accepted (s : State) (c : ℕ) (f : Wire → Wire) :
    (s.modifyWire c f).accepted = s.accepted := rfl

/-- The start of the loop body, up to the blocking `acceptor.accept(skt)`. -/
def waitForClient (C : Config) (s : State) : State :=
  print ("wait for connecting in port " ++ toString C.listenPort ++ "\n")
    (print ("server has a listen socket '" ++ C.listenEndpoint.info ++ "/fd:" ++
      toString C.listenHandle ++ "' for listening connection.\n") s)

/-- The loop body from the return of `accept` to the call of `boost::asio::write`; only the
first client's local endpoint is asked for. -/
def beforeWrite (C : Config) (client : Client) : Handler State ErrorCode Bytes := do
  let s ← Handler.get
  if s.first then
    let localSktInfo ← localInfo client
    Handler.modify (print ("server has a socket '" ++ localSktInfo ++ "/fd:" ++
      toString client.nativeHandle ++ "' for connectting client.\n"))
    Handler.modify fun s => { s with first := false }
  let clientInfo ← remoteInfo client
  Handler.modify (print ("connected successfully with client " ++ clientInfo ++ "\n"))
  let s ← Handler.get
  let text := C.pMakeString s.generated
  Handler.modify fun s =>
    { s.modifyWire s.current fun w => { w with text := some text } with
      generated := s.generated + 1 }
  return text

/-- An exception leaves the loop; the handler of `tcpServer` prints it and returns. -/
def exit (e : ErrorCode) (s : State) : State :=
  { s with control := .exited e, cerr := s.cerr ++ [e] }

/-- `accept` returned a client: the loop body runs up to the write, or throws before it. -/
def serve (C : Config) (client : Client) (s : State) : State :=
  let r := beforeWrite C client { s with accepted := s.accepted + 1 }
  match r.1 with
  | .ok text => { r.2 with control := .writing client text }
  | .error e => exit e r.2

/-- The end of the loop body: the socket of the client is destroyed, and the next `accept`. -/
def afterWrite (C : Config) (client : Client) (s : State) : State :=
  let s := print ("message has sent to client " ++ client.remoteEndpoint.info ++
    "\nclose the connection\n\n") s
  waitForClient C
    { s.modifyWire s.current fun w => { w with closed := true } with control := .accepting }

def step (C : Config) (s : State) : Event → Option State
  | .accept outcome =>
    match s.control, outcome with
    | .accepting, .ok client => some (serve C client s)
    | .accepting, .error e => some (exit e s)
    | .writing _ _, _ => none
    -- nobody listens any more
    | .exited _, _ => some s
  | .writeSome k =>
    match s.control with
    | .writing client rest =>
      if 0 < k ∧ k ≤ rest.length then
        some { s.modifyWire s.current fun w => { w with sent := w.sent ++ rest.take k } with
          control := .writing client (rest.drop k) }
      else none
    | _ => none
  | .writeReturn =>
    match s.control with
    | .writing client [] =>
      if client.fails .write = none then some (afterWrite C client s) else none
    | _ => none
  | .writeThrow =>
    match s.control with
    | .writing client _ => (client.fails .write).map fun e => exit e s
    | _ => none

def server (C : Config) : Machine State Event where
  init := waitForClient C {}
  step := step C

end AsioSamples.SyncTcpServer
