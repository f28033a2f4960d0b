import AsioSamples.Socket

/-!
# The TCP daytime client

`tcpClient` of `net/tcp/client/main.cc`: it connects, then reads into a fresh buffer until
`read_some` reports an error. The end of the stream is the only error that ends the loop
without an exception.
-/

namespace AsioSamples.TcpClient

open Framework

/-- Before the loop, in `read_some`, past the `break`, or out by an exception. -/
inductive Control where
  | connecting
  | reading
  | closed
  | failed (e : ErrorCode)

structure State where
  control : Control := .connecting
  cout : List Output := []
  cerr : List ErrorCode := []

/-- How the calls before the loop end, and the socket they leave. -/
structure Opening where
  serverHost : String
  resolve : Option ErrorCode
  connect : Option ErrorCode
  peer : Client

def print (line : String) (s : State) : State := { s with cout := s.cout ++ [.text line] }

/-- `tcpClient` up to its loop. -/
def openConnection (o : Opening) : Handler State ErrorCode Unit := do
  Handler.attempt o.resolve
  Handler.modify (print ("ready for connecting " ++ o.serverHost ++
    "/13 using by daytime protocol\n"))
  Handler.attempt o.connect
  let localSktInfo ← localInfo o.peer
  Handler.modify (print ("client has a socket '" ++ localSktInfo ++ "/fd:" ++
    toString o.peer.nativeHandle ++ "' for connectting server.\n"))
  Handler.modify (print ("connected successfully to the server " ++ o.serverHost ++ "/13\n"))
  Handler.modify fun s => { s with control := .reading }

/-- The loop body once `read_some` has put a chunk into the buffer or set `error`. -/
def readLoopBody (result : Except ErrorCode Bytes) : Handler State ErrorCode Unit :=
  match result with
  | .error .eof => do
    Handler.modify (print "close the connection\n")
    Handler.modify fun s => { s with control := .closed }
  | .error e => Handler.raise e
  | .ok chunk => do
    let buff := chunk ++ List.replicate (buffSize - chunk.length) 0
    Handler.modify (print "received message:\n")
    Handler.modify fun s => { s with cout := s.cout ++ [.bytes (buff.take chunk.length)] }

/-- The `try` block: an exception is printed, and `tcpClient` returns. -/
def guarded (body : Handler State ErrorCode Unit) (s : State) : State :=
  match body s with
  | (.ok _, t) => t
  | (.error e, t) => { t with control := .failed e, cerr := t.cerr ++ [e] }

def State.written (s : State) : Bytes := s.cout.flatMap Output.written

def State.SaidClosed (s : State) : Prop := .text "close the connection\n" ∈ s.cout

instance (s : State) : Decidable s.SaidClosed :=
  inferInstanceAs (Decidable (Output.text "close the connection\n" ∈ s.cout))

private theorem openingLines_ne (host info handle : String) :
    "close the connection\n" ≠ "ready for connecting " ++ host ++
        "/13 using by daytime protocol\n" ∧
      "close the connection\n" ≠ "client has a socket '" ++ info ++ "/fd:" ++ handle ++
        "' for connectting server.\n" ∧
      "close the connection\n" ≠ "connected successfully to the server " ++ host ++ "/13\n" := by
  refine ⟨?_, ?_, ?_⟩
  all_goals
    simp only [String.append_assoc]
    exact text_ne_append _ _ _ (by decide) (by decide)

theorem guarded_openConnection {o : Opening} {s : State}
    (hs : guarded (openConnection o) {} = s) :
    s.written = [] ∧ ¬ s.SaidClosed ∧ (s.control = .reading ∨ ∃ e, s.control = .failed e) := by
  have hne := openingLines_ne o.serverHost o.peer.localEndpoint.info (toString o.peer.nativeHandle)
  unfold openConnection guarded at hs
  cases hr : o.resolve with
  | some e =>
      rw [Handler.bind_run_error _ (by rw [Handler.attempt_run, hr])] at hs
      subst hs
      exact ⟨rfl, by simp [State.SaidClosed], .inr ⟨e, rfl⟩⟩
  | none =>
      rw [Handler.bind_run_ok _ (by rw [Handler.attempt_run, hr]), Handler.modify_bind_run] at hs
      cases hc : o.connect with
      | some e =>
          rw [Handler.bind_run_error _ (by rw [Handler.attempt_run, hc])] at hs
          subst hs
          exact ⟨rfl, by simpa [State.SaidClosed, print] using hne.1, .inr ⟨e, rfl⟩⟩
      | none =>
          rw [Handler.bind_run_ok _ (by rw [Handler.attempt_run, hc])] at hs
          cases hl : o.peer.localFailure with
          | some e =>
              rw [Handler.bind_run_error _ (by rw [localInfo_run, hl])] at hs
              subst hs
              exact ⟨rfl, by simpa [State.SaidClosed, print] using hne.1, .inr ⟨e, rfl⟩⟩
          | none =>
              rw [Handler.bind_run_ok _ (by rw [localInfo_run, hl])] at hs
              subst hs
              exact ⟨rfl, by simpa [State.SaidClosed, print] using hne, .inl rfl⟩

theorem guarded_readLoopBody_chunk (chunk : Bytes) (s : State) :
    guarded (readLoopBody (.ok chunk)) s =
      { s with cout := s.cout ++ [.text "received message:\n", .bytes chunk] } := by
  simp [guarded, readLoopBody, print]

theorem guarded_readLoopBody_eof (s : State) :
    guarded (readLoopBody (.error .eof)) s =
      { s with cout := s.cout ++ [.text "close the connection\n"], control := .closed } := rfl

theorem guarded_readLoopBody_error {e : ErrorCode} (he : e ≠ .eof) (s : State) :
    guarded (readLoopBody (.error e)) s =
      { s with control := .failed e, cerr := s.cerr ++ [e] } := by
  cases e with
  | eof => exact (he rfl).elim
  | operationAborted => rfl
  | system value text => rfl

end AsioSamples.TcpClient
