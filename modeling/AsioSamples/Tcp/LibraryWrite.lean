import AsioSamples.Asio.Write
import AsioSamples.Tcp.SyncServer

/-!
# The write of the synchronous server

The server calls `boost::asio::write` with the string it has made. In the model of the server the
socket takes some of the bytes at a time, until none remain or the write throws. Whatever the loop
of the library does is such a run.
-/

namespace AsioSamples.SyncTcpServer

open Framework Asio

variable {C : Config} {s : State} {client : Client}

/-- The socket of the client has taken the chunk. -/
def State.sending (s : State) (client : Client) (chunk rest : Bytes) : State :=
  { s.modifyWire s.current fun w => { w with sent := w.sent ++ chunk } with
    control := .writing client rest }

theorem sending_nil {rest : Bytes} (hctl : s.control = .writing client rest) :
    s.sending client [] rest = s := by
  obtain ⟨control, first, accepted, generated, wires, cout, cerr⟩ := s
  obtain rfl : control = .writing client rest := hctl
  simp [State.sending, State.modifyWire]

theorem sending_sending (a b rest rest' : Bytes) :
    (s.sending client a rest).sending client b rest' = s.sending client (a ++ b) rest' := by
  simp [State.sending, State.modifyWire, State.current, List.append_assoc]

theorem step_writeSome {k : ℕ} {rest : Bytes} (hctl : s.control = .writing client rest)
    (hpos : 0 < k) (hk : k ≤ rest.length) :
    step C s (.writeSome k) = some (s.sending client (rest.take k) (rest.drop k)) := by
  simp only [step, hctl, if_pos (And.intro hpos hk)]
  rfl

/-- What the socket takes of a transfer is what comes next of the text. -/
theorem given_eq (text : Bytes) (k maxSize n : ℕ) :
    ConsumingSingleBuffer.cursor.given maxSize n ⟨text, k⟩ =
      (text.drop k).take (ConsumingSingleBuffer.cursor.given maxSize n ⟨text, k⟩).length := by
  simp [Cursor.given, ConsumingSingleBuffer.cursor, List.take_take]

/-- The transfers of the library's loop are sends of the server. -/
theorem writeLoop_run (C : Config) (text : Bytes) {answers : List Answer} {w : Written UInt8}
    (hctl : s.control = .writing client text)
    (hw : (ConstBuffers.single text).write transferAll answers = some w) :
    ∃ es, (server C).runFrom s es = some (s.sending client w.sent (text.drop w.totalConsumed)) := by
  have hC := ConsumingSingleBuffer.cursor_serves text
  have hloop : writeLoop ConsumingSingleBuffer.cursor transferAll answers none ⟨text, 0⟩ [] =
      some w := hw
  suffices h : ∃ es sent, w.sent = [] ++ sent ∧ (server C).runFrom s es =
      some (s.sending client sent (text.drop w.totalConsumed)) by
    obtain ⟨es, sent, rfl, hrun⟩ := h
    exact ⟨es, hrun⟩
  apply writeLoop_induction (motive := fun _ _ tmp before w =>
    ∀ k s, ConsumingSingleBuffer.At text k tmp → before = text.take k →
      s.control = .writing client (text.drop k) →
      ∃ es sent, w.sent = before ++ sent ∧ (server C).runFrom s es =
        some (s.sending client sent (text.drop w.totalConsumed))) _ _ answers hloop 0 s
    ⟨rfl, Nat.zero_le _⟩ rfl hctl
  · intro answers ec tmp before _ k s hk _ hctl
    refine ⟨[], [], (List.append_nil _).symm, congrArg some ?_⟩
    simp only [hC.totalConsumed hk]
    exact (sending_nil hctl).symm
  · intro answer answers ec tmp before given w _ hgiven ih k s hk hbefore hctl
    have htake : before ++ given = text.take (k + given.length) := by
      rw [hbefore, hgiven]
      exact hC.take_append_given hk
    have hnext : ConsumingSingleBuffer.At text (k + given.length)
        (ConsumingSingleBuffer.cursor.consume given.length tmp) := by
      rw [hgiven]
      exact hC.advance hk
    have hchunk : given = (text.drop k).take given.length := by
      rw [hgiven, hk.1]
      exact given_eq text k _ _
    by_cases hzero : given.length = 0
    · rw [List.length_eq_zero_iff.mp hzero] at ih hnext htake
      obtain ⟨es, sent, hsent, hrun⟩ := ih k s hnext htake hctl
      exact ⟨es, sent, by rw [hsent, List.append_nil], hrun⟩
    · have hstep : (server C).step s (.writeSome given.length) =
          some (s.sending client given (text.drop (k + given.length))) := by
        have hle := hnext.2
        simp only [server]
        rw [step_writeSome hctl (by omega) (by rw [List.length_drop]; omega), ← hchunk,
          List.drop_drop]
      obtain ⟨es, sent, hsent, hrun⟩ := ih _ (s.sending client given _) hnext htake rfl
      refine ⟨.writeSome given.length :: es, given ++ sent, ?_, ?_⟩
      · rw [hsent, List.append_assoc]
      · rw [Machine.runFrom, hstep, Option.bind_some, hrun, sending_sending]

/-- Where the library's loop returns, the server has sent what the loop has sent, and goes on with
the next client; where it reports an error, the server has sent a first part and throws. The error
is the one that the client's `fails` has for the write. -/
theorem library_write_runs (C : Config) (text : Bytes) (answers : List Answer) {w : Written UInt8}
    (hctl : s.control = .writing client text)
    (hw : (ConstBuffers.single text).write transferAll answers = some w)
    (hec : w.ec = client.fails .write) :
    ∃ es t, (server C).runFrom s es = some t ∧
      (t.wires s.current).sent = (s.wires s.current).sent ++ w.sent ∧
      match w.ec with
      | none => w.sent = text ∧ t.control = .accepting ∧ (t.wires s.current).closed = true
      | some e => t.control = .exited e := by
  obtain ⟨hfirst, -, hend, -⟩ := ConstBuffers.write_sent hw
  obtain ⟨es, hrun⟩ := writeLoop_run C text hctl hw
  cases hfails : w.ec with
  | none =>
      rw [hfails] at hend hec
      have hall := hend.resolve_right (by simp [transferAll, defaultMaxTransferSize])
      have hdrop : text.drop w.totalConsumed = [] :=
        List.drop_eq_nil_of_le (Nat.le_of_eq hall.symm)
      rw [hdrop] at hrun
      have hstep : (server C).step (s.sending client w.sent []) .writeReturn =
          some (afterWrite C client (s.sending client w.sent [])) := by
        simp only [server, step, State.sending, ← hec, if_true]
      have hlast := (Machine.runFrom_append_eq_some es [.writeReturn]).mpr
        ⟨_, hrun, (Machine.runFrom_cons_eq_some _ []).mpr ⟨_, hstep, rfl⟩⟩
      refine ⟨_, _, hlast, ?_, ?_, rfl, ?_⟩
      · simp [afterWrite, waitForClient, print, State.sending, State.modifyWire, State.current]
      · rw [hfirst, hall]
        exact List.take_length
      · simp [afterWrite, waitForClient, print, State.sending, State.modifyWire, State.current]
  | some e =>
      rw [hfails] at hec
      have hstep : (server C).step (s.sending client w.sent (text.drop w.totalConsumed))
          .writeThrow = some (exit e (s.sending client w.sent (text.drop w.totalConsumed))) := by
        simp only [server, step, State.sending, ← hec, Option.map_some]
      have hlast := (Machine.runFrom_append_eq_some es [.writeThrow]).mpr
        ⟨_, hrun, (Machine.runFrom_cons_eq_some _ []).mpr ⟨_, hstep, rfl⟩⟩
      refine ⟨_, _, hlast, ?_, rfl⟩
      simp [exit, State.sending, State.modifyWire, State.current]

/-- The server has made three bytes for its first client. -/
def threeBytes : State := { control := .writing (.steady 50000) [77, 111, 110], accepted := 1 }

theorem two_sends_run : ∃ es t,
    (server (.daytime fun _ => [77, 111, 110])).runFrom threeBytes es = some t ∧
      (t.wires 0).sent = [77, 111, 110] ∧ t.control = .accepting := by
  have hw : (ConstBuffers.single ([77, 111, 110] : Bytes)).write transferAll
      [⟨1, none, false⟩, ⟨5, none, false⟩] = some ⟨none, 3, [77, 111, 110]⟩ := rfl
  obtain ⟨es, t, hrun, hsent, -, hcontrol, -⟩ := library_write_runs (s := threeBytes)
    (.daytime fun _ => [77, 111, 110]) [77, 111, 110] _ rfl hw rfl
  exact ⟨es, t, hrun, hsent, hcontrol⟩

end AsioSamples.SyncTcpServer
