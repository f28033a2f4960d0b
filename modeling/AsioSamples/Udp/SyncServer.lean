import AsioSamples.Framework.Machine
import AsioSamples.Udp.Answers

/-!
# The synchronous UDP daytime server

`udpServer` of `net/udp/server/synchronous/main.cc`: one `try` block around a loop that
receives a request and sends the string it makes to its sender. `receive_from` is the
overload that throws, `send_to` the one that stores its error, which is not looked at.
-/

namespace AsioSamples.SyncUdpServer

open Framework

structure Config where
  listenPort : ℕ
  localEndpoint : Endpoint
  nativeHandle : ℕ
  pMakeString : ℕ → Bytes

def Config.daytime (pMakeString : ℕ → Bytes) : Config where
  listenPort := 13
  localEndpoint := ⟨"::", 13⟩
  nativeHandle := 3
  pMakeString := pMakeString

/-- In `receive_from`, or out of `udpServer` after an exception. -/
inductive Control where
  | receiving
  | exited (e : ErrorCode)

/-- `initiated` lists the calls of `send_to`, `departed` those that succeeded. -/
structure State where
  control : Control := .receiving
  generated : ℕ := 0
  initiated : List Reply := []
  departed : List Reply := []
  cout : List String := []
  cerr : List ErrorCode := []

structure Round where
  received : Received
  sendError : Option ErrorCode

def print (line : String) (s : State) : State := { s with cout := s.cout ++ [line] }

/-- The start of the loop body, up to the blocking `receive_from`. -/
def waitForRequest (C : Config) (s : State) : State :=
  print ("wait for connection request in port " ++ toString C.listenPort ++ "\n")
    (print ("server has a socket '" ++ C.localEndpoint.info ++ "/fd:" ++
      toString C.nativeHandle ++ "' for sending data to client.\n") s)

/-- `socket.receive_from(buffer(buff), remote_endpoint)`: the sender, or an exception. -/
def receiveFrom (o : Received) : Handler State ErrorCode Endpoint :=
  Handler.lift (o.map Datagram.sender)

/-- `socket.send_to(buffer(text), remote_endpoint, 0, send_error)`. -/
def sendTo (text : Bytes) (remoteEndpoint : Endpoint) (sendError : Option ErrorCode) (s : State) :
    State :=
  let r : Reply := ⟨remoteEndpoint, text⟩
  { s with
    initiated := s.initiated ++ [r]
    departed := if sendError = none then s.departed ++ [r] else s.departed }

/-- The loop body from `receive_from` on. -/
def loopBody (C : Config) (r : Round) : Handler State ErrorCode Unit := do
  let remoteEndpoint ← receiveFrom r.received
  let clientInfo := remoteEndpoint.info
  Handler.modify (print ("received connection request successfully from client " ++
    clientInfo ++ "\n"))
  let s ← Handler.get
  let text := C.pMakeString s.generated
  Handler.modify fun s => { s with generated := s.generated + 1 }
  Handler.modify (sendTo text remoteEndpoint r.sendError)
  Handler.modify (print ("message has sent to client " ++ clientInfo ++
    "\nclose the connection\n\n"))

/-- One round. An exception leaves the loop: it is printed, and nobody receives any more. -/
def step (C : Config) (s : State) (r : Round) : Option State :=
  match s.control with
  | .exited _ => some s
  | .receiving =>
    match loopBody C r s with
    | (.ok _, t) => some (waitForRequest C t)
    | (.error e, t) => some { t with control := .exited e, cerr := t.cerr ++ [e] }

def server (C : Config) : Machine State Round where
  init := waitForRequest C {}
  step := step C

inductive Outcome (C : Config) (s : State) (r : Round) : State → Prop where
  | unserved (e : ErrorCode) (hctl : s.control = .exited e) : Outcome C s r s
  | thrown (e : ErrorCode) (hctl : s.control = .receiving) (hr : r.received = .error e) :
      Outcome C s r { s with control := .exited e, cerr := s.cerr ++ [e] }
  | answered (d : Datagram) (dep : List Reply) (out : List String) (hctl : s.control = .receiving)
      (hr : r.received = .ok d) : Outcome C s r
        { s with
          generated := s.generated + 1
          initiated := s.initiated ++ [⟨d.sender, C.pMakeString s.generated⟩]
          departed := dep
          cout := out }

theorem loopBody_error {C : Config} {r : Round} {e : ErrorCode} (hr : r.received = .error e)
    (s : State) : loopBody C r s = (.error e, s) :=
  Handler.bind_run_error _ (by rw [hr]; rfl)

theorem loopBody_ok {C : Config} {r : Round} {d : Datagram} (hr : r.received = .ok d)
    (s : State) : ∃ dep out, loopBody C r s = (.ok (), { s with
      generated := s.generated + 1
      initiated := s.initiated ++ [⟨d.sender, C.pMakeString s.generated⟩]
      departed := dep
      cout := out }) := by
  apply Exists.intro
  apply Exists.intro
  unfold loopBody
  rw [Handler.bind_run_ok _ (by rw [hr]; rfl)]
  rfl

theorem step_outcome {C : Config} {s t : State} {r : Round} (h : step C s r = some t) :
    Outcome C s r t := by
  cases hctl : s.control with
  | exited e =>
      obtain rfl : s = t := by simpa [step, hctl] using h
      exact .unserved e hctl
  | receiving =>
      unfold step at h
      rw [hctl] at h
      cases hr : r.received with
      | error e =>
          simp only [loopBody_error hr, Option.some.injEq] at h
          exact h ▸ .thrown e hctl hr
      | ok d =>
          obtain ⟨dep, out, hbody⟩ := loopBody_ok (C := C) hr s
          simp only [hbody, Option.some.injEq] at h
          exact h ▸ .answered d dep _ hctl hr

theorem server_init (C : Config) : ∃ out, (server C).init = { cout := out } := ⟨_, rfl⟩

end AsioSamples.SyncUdpServer
