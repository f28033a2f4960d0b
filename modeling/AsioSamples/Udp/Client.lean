import AsioSamples.Udp.Answers
import Mathlib.Data.List.TakeDrop

/-!
# The UDP daytime client

`udpClient` of `net/udp/client/main.cc`: one request, and one `receive_from` that stores its
error and the sender of the datagram that comes first. Neither is looked at before the bytes
are shown, so what is shown is the answer only if nothing else came first.
-/

namespace AsioSamples.UdpClient

open Framework

/-- `requested` lists the destinations of the calls of `send_to`. -/
structure State where
  requested : List Endpoint := []
  cout : List Output := []
  cerr : List ErrorCode := []

/-- What the client meets. `fromString` is `is_v4()` of the host's address, `openSocket` the
failure of `socket.open` for that version, and `arrivals` are the datagrams that reach the
local port, in their order. With a `receiveError` the receive fails. -/
structure Surroundings where
  serverHost : String
  resolve : Except ErrorCode Endpoint
  fromString : Except ErrorCode Bool
  openSocket : Bool → Option ErrorCode
  sendError : Option ErrorCode
  socket : Client
  arrivals : List Datagram
  receiveError : Option ErrorCode

/-- What `receive_from` leaves in `buff`, `sender_endpoint` and `receive_error`, and returns. -/
structure Receipt where
  buff : Bytes
  len : ℕ
  senderEndpoint : Endpoint
  receiveError : Option ErrorCode

def print (line : String) (s : State) : State := { s with cout := s.cout ++ [.text line] }

/-- `udpClient` up to `receive_from`. -/
def request (w : Surroundings) : Handler State ErrorCode Unit := do
  let receiverEndpoint ← Handler.lift w.resolve
  let isV4 ← Handler.lift w.fromString
  Handler.attempt (w.openSocket isV4)
  Handler.attempt w.sendError
  Handler.modify fun s => { s with requested := s.requested ++ [receiverEndpoint] }
  let localSktInfo ← localInfo w.socket
  Handler.modify (print ("client has a socket  '" ++ localSktInfo ++ "/fd:" ++
    toString w.socket.nativeHandle ++ "' for communicating with server.\n"))
  Handler.modify (print ("ready for receiving daytime data from " ++ w.serverHost ++ "/13\n"))

/-- `socket.receive_from(buffer(buff), sender_endpoint, 0, receive_error)`: the first datagram,
cut to the buffer. Without a datagram and without an error it never returns. -/
def receiveFrom (w : Surroundings) : Option Receipt :=
  match w.receiveError, w.arrivals with
  | some e, _ => some ⟨List.replicate buffSize 0, 0, ⟨"0.0.0.0", 0⟩, some e⟩
  | none, d :: _ =>
    let chunk := d.payload.take buffSize
    some ⟨chunk ++ List.replicate (buffSize - chunk.length) 0, chunk.length, d.sender, none⟩
  | none, [] => none

def showReceived (r : Receipt) (s : State) : State :=
  let s := print "received message:\n" s
  let s := { s with cout := s.cout ++ [.bytes (r.buff.take r.len)] }
  print "close the connection\n" s

/-- `udpClient`; an exception is printed, and a receive that never returns leaves it there. -/
def udpClient (w : Surroundings) : State :=
  match request w {} with
  | (.error e, s) => { s with cerr := s.cerr ++ [e] }
  | (.ok _, s) =>
    match receiveFrom w with
    | some r => showReceived r s
    | none => s

def State.SaysReceived (s : State) : Prop := .text "received message:\n" ∈ s.cout

instance (s : State) : Decidable s.SaysReceived :=
  inferInstanceAs (Decidable (Output.text "received message:\n" ∈ s.cout))

def State.written (s : State) : Bytes := s.cout.flatMap Output.written

/-- If the client says that it received a message, then its receive succeeded with a datagram
from the endpoint its request went to, and the bytes it writes are the whole of that. -/
def ShowsOnlyAnswer (w : Surroundings) : Prop :=
  (udpClient w).SaysReceived → w.receiveError = none ∧ ∃ d rest, w.arrivals = d :: rest ∧
    (udpClient w).requested = [d.sender] ∧ (udpClient w).written = d.payload

def Surroundings.requestFailure (w : Surroundings) : Option ErrorCode :=
  match w.resolve, w.fromString with
  | .error e, _ => some e
  | .ok _, .error e => some e
  | .ok _, .ok isV4 => ((w.openSocket isV4).or w.sendError).or w.socket.localFailure

private theorem openingLines_ne (host info handle : String) :
    "received message:\n" ≠ "client has a socket  '" ++ info ++ "/fd:" ++ handle ++
        "' for communicating with server.\n" ∧
      "received message:\n" ≠ "ready for receiving daytime data from " ++ host ++ "/13\n" := by
  constructor
  all_goals
    simp only [String.append_assoc]
    exact text_ne_append _ _ _ (by decide) (by decide)

theorem request_failed {w : Surroundings} {e : ErrorCode} (h : w.requestFailure = some e) :
    ∃ s, request w {} = (.error e, s) ∧ ¬ s.SaysReceived := by
  have hnone (requested) : ¬ State.SaysReceived { requested := requested } := by
    simp [State.SaysReceived]
  unfold request
  unfold Surroundings.requestFailure at h
  cases hr : w.resolve with
  | error e' =>
      obtain rfl : e' = e := by simpa [hr] using h
      exact ⟨{}, Handler.bind_run_error _ rfl, hnone []⟩
  | ok receiverEndpoint =>
      rw [Handler.bind_run_ok _ (Handler.lift_run _ _)]
      cases hf : w.fromString with
      | error e' =>
          obtain rfl : e' = e := by simpa [hr, hf] using h
          exact ⟨{}, Handler.bind_run_error _ rfl, hnone []⟩
      | ok isV4 =>
          rw [Handler.bind_run_ok _ (Handler.lift_run _ _)]
          simp only [hr, hf] at h
          cases ho : w.openSocket isV4 with
          | some e' =>
              obtain rfl : e' = e := by simpa [ho] using h
              exact ⟨{}, Handler.bind_run_error _ rfl, hnone []⟩
          | none =>
              rw [Handler.bind_run_ok _ (Handler.attempt_run _ _)]
              cases hs : w.sendError with
              | some e' =>
                  obtain rfl : e' = e := by simpa [ho, hs] using h
                  exact ⟨{}, Handler.bind_run_error _ rfl, hnone []⟩
              | none =>
                  rw [Handler.bind_run_ok _ (Handler.attempt_run _ _), Handler.modify_bind_run]
                  have hl : w.socket.localFailure = some e := by simpa [ho, hs] using h
                  refine ⟨_, Handler.bind_run_error _ (by rw [localInfo_run, hl]), hnone _⟩

theorem request_made {w : Surroundings} (h : w.requestFailure = none) :
    ∃ receiverEndpoint s, w.resolve = .ok receiverEndpoint ∧ request w {} = (.ok (), s) ∧
      s.requested = [receiverEndpoint] ∧ s.written = [] ∧ ¬ s.SaysReceived := by
  have hne := openingLines_ne w.serverHost w.socket.localEndpoint.info
    (toString w.socket.nativeHandle)
  unfold request
  unfold Surroundings.requestFailure at h
  cases hr : w.resolve with
  | error e => simp [hr] at h
  | ok receiverEndpoint =>
      cases hf : w.fromString with
      | error e => simp [hr, hf] at h
      | ok isV4 =>
          simp only [hr, hf, Option.or_eq_none_iff] at h
          obtain ⟨⟨ho, hs⟩, hl⟩ := h
          apply Exists.intro
          apply Exists.intro
          rw [Handler.bind_run_ok _ (Handler.lift_run _ _),
            Handler.bind_run_ok _ (Handler.lift_run _ _), ho, hs,
            Handler.bind_run_ok _ (Handler.attempt_run _ _),
            Handler.bind_run_ok _ (Handler.attempt_run _ _), Handler.modify_bind_run,
            Handler.bind_run_ok _ (by rw [localInfo_run, hl])]
          refine ⟨rfl, rfl, rfl, rfl, ?_⟩
          simpa [State.SaysReceived, print] using hne

theorem showReceived_saysReceived (r : Receipt) (s : State) : (showReceived r s).SaysReceived := by
  simp [showReceived, State.SaysReceived, print]

theorem showReceived_written (r : Receipt) (s : State) :
    (showReceived r s).written = s.written ++ r.buff.take r.len := by
  simp [showReceived, State.written, print, Output.written]

/-- Whatever datagram comes first, a first part of it is shown as the received message. -/
theorem udpClient_datagram {w : Surroundings} {d : Datagram} {rest : List Datagram}
    (hf : w.requestFailure = none) (he : w.receiveError = none) (ha : w.arrivals = d :: rest) :
    (udpClient w).SaysReceived ∧ (udpClient w).written = d.payload.take buffSize ∧
      ∃ receiverEndpoint, w.resolve = .ok receiverEndpoint ∧
        (udpClient w).requested = [receiverEndpoint] := by
  obtain ⟨receiverEndpoint, s, hr, hs, hreq, hw, -⟩ := request_made hf
  have hc : udpClient w = showReceived ⟨d.payload.take buffSize ++
      List.replicate (buffSize - (d.payload.take buffSize).length) 0,
      (d.payload.take buffSize).length, d.sender, none⟩ s := by
    simp only [udpClient, hs, receiveFrom, he, ha]
  rw [hc, showReceived_written, hw, List.nil_append, List.take_left]
  exact ⟨showReceived_saysReceived _ _, rfl, receiverEndpoint, hr, hreq⟩

theorem udpClient_receiveError {w : Surroundings} {e : ErrorCode} (hf : w.requestFailure = none)
    (he : w.receiveError = some e) : (udpClient w).SaysReceived := by
  obtain ⟨receiverEndpoint, s, -, hs, -, -, -⟩ := request_made hf
  simp only [udpClient, hs, receiveFrom, he]
  exact showReceived_saysReceived _ _

theorem udpClient_blocked {w : Surroundings} (hf : w.requestFailure = none)
    (he : w.receiveError = none) (ha : w.arrivals = []) : ¬ (udpClient w).SaysReceived := by
  obtain ⟨receiverEndpoint, s, -, hs, -, -, hsaid⟩ := request_made hf
  simpa only [udpClient, hs, receiveFrom, he, ha] using hsaid

theorem udpClient_requestFailure {w : Surroundings} {e : ErrorCode}
    (hf : w.requestFailure = some e) : ¬ (udpClient w).SaysReceived := by
  obtain ⟨s, hs, hsaid⟩ := request_failed hf
  simp only [udpClient, hs]
  exact hsaid

/-- The client shows only the answer to its own request exactly when it fails before it
receives, or the receive reports no error and the first datagram, if one comes, is from the
endpoint that was asked and fits into the buffer. -/
theorem showsOnlyAnswer_iff (w : Surroundings) :
    ShowsOnlyAnswer w ↔ w.requestFailure ≠ none ∨ (w.receiveError = none ∧
      ∀ d rest, w.arrivals = d :: rest → w.resolve = .ok d.sender ∧
        d.payload.length ≤ buffSize) := by
  cases hf : w.requestFailure with
  | some e =>
      refine iff_of_true ?_ (.inl (by simp))
      exact fun hsaid => (udpClient_requestFailure hf hsaid).elim
  | none =>
      cases he : w.receiveError with
      | some e =>
          refine iff_of_false ?_ (by simp)
          intro h
          have hnone := (h (udpClient_receiveError hf he)).1
          simp [he] at hnone
      | none =>
          cases ha : w.arrivals with
          | nil =>
              refine iff_of_true ?_ (by simp)
              exact fun hsaid => (udpClient_blocked hf he ha hsaid).elim
          | cons d rest =>
              obtain ⟨hsaid, hwritten, receiverEndpoint, hr, hreq⟩ := udpClient_datagram hf he ha
              constructor
              · intro h
                obtain ⟨-, d', rest', hd, hsender, hall⟩ := h hsaid
                obtain ⟨rfl, rfl⟩ : d = d' ∧ rest = rest' := by simpa [ha] using hd
                refine .inr ⟨rfl, fun d'' rest'' hd'' => ?_⟩
                obtain ⟨rfl, rfl⟩ : d = d'' ∧ rest = rest'' := by simpa using hd''
                have hendpoint : receiverEndpoint = d.sender := by simpa [hreq] using hsender
                have htake : d.payload.take buffSize = d.payload := hwritten ▸ hall
                exact ⟨by rw [hr, hendpoint], (List.take_eq_self_iff _).mp htake⟩
              · rintro (hne | ⟨-, h⟩) -
                · exact (hne rfl).elim
                · obtain ⟨h1, h2⟩ := h d rest rfl
                  have hendpoint : receiverEndpoint = d.sender := by simpa [hr] using h1
                  exact ⟨he, d, rest, ha, by rw [hreq, hendpoint],
                    by rw [hwritten, List.take_of_length_le h2]⟩

/-- Another host's datagram is already there when the client receives. -/
def strangerFirst : Surroundings where
  serverHost := "10.0.0.1"
  resolve := .ok ⟨"10.0.0.1", 13⟩
  fromString := .ok true
  openSocket _ := none
  sendError := none
  socket := .steady 50000
  arrivals := [⟨⟨"10.9.9.9", 4444⟩, [88]⟩, ⟨⟨"10.0.0.1", 13⟩, [77, 111, 110]⟩]
  receiveError := none

/-- The client presents the stranger's byte as the received message. -/
theorem stranger_shown_as_answer :
    ¬ ShowsOnlyAnswer strangerFirst ∧ (udpClient strangerFirst).written = [88] := by
  refine ⟨?_, rfl⟩
  intro h
  obtain ⟨-, d, rest, hd, hreq, -⟩ := h (by decide)
  obtain ⟨rfl, -⟩ := List.cons_eq_cons.mp hd
  exact absurd hreq (by decide)

end AsioSamples.UdpClient
