import AsioSamples.Framework.Handler
import Mathlib.Data.List.Basic

/-!
# Sockets as the samples see them

The values the samples exchange with asio: bytes, endpoints, error codes, and a connected
peer. A peer decides which of the calls on its socket fail, so "the client may disconnect or
reset at any point" is "the client is arbitrary".
-/

namespace AsioSamples

open Framework

/-- The bytes of a `std::string`, of a buffer, or of a datagram. -/
abbrev Bytes := List UInt8

/-- The size of every receive buffer of the samples, `std::vector<char> buff(128)`. -/
def buffSize : ℕ := 128

structure Endpoint where
  address : String
  port : ℕ
  deriving DecidableEq, Repr

/-- `address().to_string() + "/" + std::to_string(port())`. -/
def Endpoint.info (e : Endpoint) : String := e.address ++ "/" ++ toString e.port

inductive ErrorCode where
  | eof
  | operationAborted
  | system (value : ℕ) (text : String)
  deriving DecidableEq, Repr

def ErrorCode.message : ErrorCode → String
  | .eof => "End of file"
  | .operationAborted => "Operation canceled"
  | .system _ text => text

/-- What a client puts on `std::cout`: a text of the program, or bytes by `std::cout.write`. -/
inductive Output where
  | text (line : String)
  | bytes (chunk : Bytes)
  deriving DecidableEq

def Output.written : Output → Bytes
  | .text _ => []
  | .bytes chunk => chunk

/-- The calls on a connected socket that can fail because of the peer. The two calls of
`local_endpoint` in one expression, and the two of `remote_endpoint`, fail independently. -/
inductive SocketCall where
  | localAddress
  | localPort
  | remoteAddress
  | remotePort
  | write
  | shutdown
  | close
  deriving DecidableEq, Repr

/-- A connected peer: the endpoints and the descriptor of the accepted socket, and the calls
on it that fail. -/
structure Client where
  localEndpoint : Endpoint
  remoteEndpoint : Endpoint
  nativeHandle : ℕ
  fails : SocketCall → Option ErrorCode

/-- The client stays connected: no call on its socket fails. -/
def Client.Stays (client : Client) : Prop := ∀ k, client.fails k = none

def Client.steady (port : ℕ) : Client where
  localEndpoint := ⟨"127.0.0.1", 13⟩
  remoteEndpoint := ⟨"127.0.0.1", port⟩
  nativeHandle := 7
  fails _ := none

/-- A client that is gone before its endpoint is asked for. -/
def Client.gone (port : ℕ) : Client :=
  { Client.steady port with
    fails := fun k => if k = .remoteAddress then
      some (.system 107 "Transport endpoint is not connected") else none }

variable {σ : Type}

/-- An overload without an `error_code` argument throws when the call fails. -/
def call (client : Client) (k : SocketCall) : Handler σ ErrorCode Unit :=
  Handler.attempt (client.fails k)

def Client.localFailure (client : Client) : Option ErrorCode :=
  (client.fails .localAddress).or (client.fails .localPort)

def Client.remoteFailure (client : Client) : Option ErrorCode :=
  (client.fails .remoteAddress).or (client.fails .remotePort)

def Client.queryFailure (client : Client) : Option ErrorCode :=
  client.localFailure.or client.remoteFailure

def Client.closingFailure (client : Client) : Option ErrorCode :=
  (client.fails .shutdown).or (client.fails .close)

def localInfo (client : Client) : Handler σ ErrorCode String := do
  call client .localAddress
  call client .localPort
  return client.localEndpoint.info

def remoteInfo (client : Client) : Handler σ ErrorCode String := do
  call client .remoteAddress
  call client .remotePort
  return client.remoteEndpoint.info

theorem call_run_ok {client : Client} {k : SocketCall} (h : client.fails k = none) (s : σ) :
    call client k s = (.ok (), s) := by
  rw [call, Handler.attempt_run, h]

theorem call_run_error {client : Client} {k : SocketCall} {e : ErrorCode}
    (h : client.fails k = some e) (s : σ) : call client k s = (.error e, s) := by
  rw [call, Handler.attempt_run, h]

private theorem info_run (client : Client) (j k : SocketCall) (info : String) (s : σ) :
    (do call client j; call client k; return info : Handler σ ErrorCode String) s =
      match (client.fails j).or (client.fails k) with
      | some e => (.error e, s)
      | none => (.ok info, s) := by
  cases hj : client.fails j with
  | some e => rw [Handler.bind_run_error _ (call_run_error hj s)]; rfl
  | none =>
      rw [Handler.bind_run_ok _ (call_run_ok hj s)]
      cases hk : client.fails k with
      | some e => rw [Handler.bind_run_error _ (call_run_error hk s)]; rfl
      | none => rw [Handler.bind_run_ok _ (call_run_ok hk s)]; rfl

theorem localInfo_run (client : Client) (s : σ) :
    localInfo client s = match client.localFailure with
      | some e => (.error e, s)
      | none => (.ok client.localEndpoint.info, s) :=
  info_run client .localAddress .localPort _ s

theorem remoteInfo_run (client : Client) (s : σ) :
    remoteInfo client s = match client.remoteFailure with
      | some e => (.error e, s)
      | none => (.ok client.remoteEndpoint.info, s) :=
  info_run client .remoteAddress .remotePort _ s

theorem text_ne_append (text a b : String) (h : a.toList.take 3 ≠ text.toList.take 3)
    (hlen : 3 ≤ a.toList.length) : text ≠ a ++ b := by
  intro he
  have ht := congrArg (fun l => l.toList.take 3) he
  simp only [String.toList_append, List.take_append_of_le_length hlen] at ht
  exact h ht.symm

theorem Client.steady_stays (port : ℕ) : (Client.steady port).Stays := fun _ => rfl

theorem Client.Stays.queryFailure {client : Client} (h : client.Stays) :
    client.queryFailure = none := by
  simp [Client.queryFailure, Client.localFailure, Client.remoteFailure, h _]

theorem Client.Stays.closingFailure {client : Client} (h : client.Stays) :
    client.closingFailure = none := by
  simp [Client.closingFailure, h _]

end AsioSamples
