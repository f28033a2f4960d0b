import AsioSamples.Asio.Write
import AsioSamples.Tcp.AsyncSteps

/-!
# The write of the asynchronous server

The server calls `boost::asio::async_write` with the static `message`. One transfer of the library
takes place before the socket is closed, and its completion finds the connection destroyed. There
the library's operation is at its end, or it asks for a further transfer and the server does what
is undefined.
-/

namespace AsioSamples.TcpServer

open Framework Asio

variable {s : State} {client : Client} {answer : Answer}

/-- What the socket gets in the first transfer of a text. -/
def firstGiven (text : Bytes) (answer : Answer) : Bytes :=
  ConsumingSingleBuffer.cursor.given defaultMaxTransferSize answer.bytesTransferred ⟨text, 0⟩

/-- The sends of a transfer: it takes what the socket gets, or fails. -/
def sendsOf (text : Bytes) (answer : Answer) : List ℕ :=
  if answer.ec = none then [(firstGiven text answer).length] else []

theorem firstGiven_eq (text : Bytes) (answer : Answer) :
    firstGiven text answer = text.take (firstGiven text answer).length := by
  have hfirst := (ConsumingSingleBuffer.cursor_serves text).take_append_given
    (m := defaultMaxTransferSize) (n := answer.bytesTransferred) ⟨rfl, Nat.zero_le _⟩
  rw [List.take_zero, List.nil_append, Nat.zero_add] at hfirst
  exact hfirst

/-- After its first transfer the operation of the library is over, unless the transfer has taken
some of the text and not all of it. -/
theorem asyncWrite_one (text : Bytes) (hcancelled : answer.cancelled = false) :
    (ConstBuffers.single text).asyncWrite transferAll [answer] =
      if answer.ec = none ∧ (firstGiven text answer).length ≠ 0 ∧
          (firstGiven text answer).length < text.length then none
      else some ⟨answer.ec, (firstGiven text answer).length, firstGiven text answer⟩ := by
  have hC := ConsumingSingleBuffer.cursor_serves text
  have hstart : ConsumingSingleBuffer.At text 0 ⟨text, 0⟩ := ⟨rfl, Nat.zero_le _⟩
  have hnext := hC.advance hstart (m := defaultMaxTransferSize) (n := answer.bytesTransferred)
  have hempty := hC.empty_iff hnext
  have htotal := hC.totalConsumed hnext
  have hle := hC.given_le hstart (m := defaultMaxTransferSize) (n := answer.bytesTransferred)
  have hgiven : ConsumingSingleBuffer.cursor.given defaultMaxTransferSize answer.bytesTransferred
      ⟨text, 0⟩ = firstGiven text answer := rfl
  rw [hgiven, Nat.zero_add] at hempty htotal hle
  show Asio.writeOp ConsumingSingleBuffer.cursor transferAll [answer] defaultMaxTransferSize
    ⟨text, 0⟩ [] = _
  rw [Asio.writeOp, hgiven, hcancelled]
  simp only [htotal, hempty, List.nil_append]
  cases hec : answer.ec with
  | none =>
      by_cases hzero : (firstGiven text answer).length = 0
      · simp [hzero]
      · by_cases hall : (firstGiven text answer).length = text.length
        · simp [hall]
        · have hlt : (firstGiven text answer).length < text.length := by omega
          simp [hzero, hall, hlt, transferAll, defaultMaxTransferSize, Asio.writeOp]
  | some e => simp [transferAll]

theorem firstGiven_length_le (text : Bytes) (answer : Answer) :
    (firstGiven text answer).length ≤ min defaultMaxTransferSize answer.bytesTransferred :=
  (ConsumingSingleBuffer.cursor_serves text).given_length_le ⟨rfl, Nat.zero_le _⟩

theorem servedWrite_continues (C : Config) (c : ℕ) (s : State) (client : Client)
    (hle : (firstGiven (C.pDataGen s.generated) answer).length ≤ (C.pDataGen s.generated).length) :
    (servedWrite C c ⟨client, sendsOf (C.pDataGen s.generated) answer⟩ s).Continues ↔
      answer.ec = none ∧ (firstGiven (C.pDataGen s.generated) answer).length ≠ 0 ∧
        (firstGiven (C.pDataGen s.generated) answer).length <
          (C.pDataGen s.generated).length := by
  unfold Write.Continues servedWrite sendsOf
  cases answer.ec with
  | none => simp [lastTransfer, hle]
  | some e =>
      simp only [reduceCtorEq, if_false, lastTransfer, startTransfer, false_and, iff_false]
      split <;> simp

/-- A client is served, and the transfer of its write completes. -/
theorem served_completes (C : Config) (a : Accepted) (hI : Inv s) (hleft : s.left = none)
    (hq : a.client.queryFailure = none) (hcl : a.client.closingFailure = none) :
    ∃ c t, s.accepting = [c] ∧
      (server C).runFrom s [.accept (.ok a), .writeComplete s.writes.length] = some t ∧
      (t.conns c).received = (C.pDataGen s.generated).take a.sends.sum ∧
      if (servedWrite C c a s).Continues then t.undefined = true
      else t.undefined = s.undefined ∧ t.writes = s.writes := by
  obtain ⟨c, hacc, hnew, -⟩ := hI.armed hleft
  obtain ⟨u, hu⟩ : ∃ u, step C s (.accept (.ok a)) = some u := by
    simp [step, hleft, hacc]
  have hIu : Inv u := inv_preserved C s (.accept (.ok a)) u hI hu
  obtain ⟨hreceived, hwrites, hleft', hdefined⟩ :
      (u.conns c).received = (C.pDataGen s.generated).take a.sends.sum ∧
        u.writes = s.writes ++ [servedWrite C c a s] ∧ u.left = none ∧
        u.undefined = s.undefined := by
    cases step_outcome hI hu with
    | unserved o hne => exact (hne hleft).elim
    | query c' a e out _ hacc' hnew' hq' => simp [hq] at hq'
    | closing c' a e out _ hacc' hnew' _ hcl' => simp [hcl] at hcl'
    | served c' a out _ hacc' hnew' _ _ =>
        obtain rfl : c' = c := by simpa using hacc'.symm.trans hacc
        have hc : c' ≠ s.created := by omega
        exact ⟨by simp [hc, servedConn], rfl, hleft, rfl⟩
  have hw : u.writes[s.writes.length]? = some (servedWrite C c a s) := by
    rw [hwrites, List.getElem?_concat_length]
  have hstep := step_writeComplete (C := C) hIu hleft' hw
  have hrun {t : State} (ht : step C u (.writeComplete s.writes.length) = some t) :
      (server C).runFrom s [.accept (.ok a), .writeComplete s.writes.length] = some t :=
    (Machine.runFrom_cons_eq_some _ _).mpr ⟨u, hu, (Machine.runFrom_cons_eq_some _ []).mpr
      ⟨t, ht, rfl⟩⟩
  split at hstep
  · rename_i hcont
    refine ⟨c, _, hacc, hrun hstep, hreceived, ?_⟩
    rw [if_pos hcont]
  · rename_i hend
    refine ⟨c, _, hacc, hrun hstep, hreceived, ?_⟩
    rw [if_neg hend]
    refine ⟨hdefined, ?_⟩
    rw [hwrites, List.eraseIdx_append_of_length_le (Nat.le_refl _), Nat.sub_self,
      List.eraseIdx_cons_zero, List.append_nil]

/-- The server does what the library's operation does with its first transfer: where the operation
is over, the write is gone and the socket has got what the operation has sent; where it needs a
further transfer, what the server does is undefined. -/
theorem library_async_write_runs (C : Config) (answer : Answer) (hs : (server C).Reachable s)
    (hleft : s.left = none) (hq : client.queryFailure = none)
    (hcl : client.closingFailure = none) (hcancelled : answer.cancelled = false)
    (hfails : answer.ec ≠ none → answer.bytesTransferred = 0) :
    ∃ c t, s.accepting = [c] ∧
      (server C).runFrom s
        [.accept (.ok ⟨client, sendsOf (C.pDataGen s.generated) answer⟩),
          .writeComplete s.writes.length] = some t ∧
      match (ConstBuffers.single (C.pDataGen s.generated)).asyncWrite transferAll [answer] with
      | some w => t.undefined = s.undefined ∧ t.writes = s.writes ∧ (t.conns c).received = w.sent
      | none => t.undefined = true := by
  have hI := (inv_preserved C).reachable (inv_init C) hs
  have hle : (firstGiven (C.pDataGen s.generated) answer).length ≤
      (C.pDataGen s.generated).length := by
    rw [firstGiven_eq, List.length_take]
    exact Nat.min_le_right _ _
  obtain ⟨c, t, hacc, hrun, hreceived, hend⟩ := served_completes C
    ⟨client, sendsOf (C.pDataGen s.generated) answer⟩ hI hleft hq hcl
  refine ⟨c, t, hacc, hrun, ?_⟩
  simp only [servedWrite_continues C c s client hle] at hend
  rw [asyncWrite_one _ hcancelled]
  split at hend
  · rename_i hcont
    rw [if_pos hcont]
    exact hend
  · rename_i hcont
    rw [if_neg hcont]
    refine ⟨hend.1, hend.2, hreceived.trans ?_⟩
    have hgiven := firstGiven_eq (C.pDataGen s.generated) answer
    unfold sendsOf
    split
    · rw [List.sum_singleton, ← hgiven]
    · rename_i hec
      have hnone := firstGiven_length_le (C.pDataGen s.generated) answer
      rw [hfails hec, Nat.min_zero, Nat.le_zero] at hnone
      rw [hnone] at hgiven
      exact hgiven.symm

/-- A message that is longer than a transfer is undefined behaviour for every client that takes
any of it. -/
theorem long_message_undefined (C : Config) (answer : Answer) (hs : (server C).Reachable s)
    (hleft : s.left = none) (hq : client.queryFailure = none)
    (hcl : client.closingFailure = none) (hcancelled : answer.cancelled = false)
    (hec : answer.ec = none) (htaken : 0 < answer.bytesTransferred)
    (hlong : defaultMaxTransferSize < (C.pDataGen s.generated).length) :
    ∃ t, (server C).runFrom s
        [.accept (.ok ⟨client, sendsOf (C.pDataGen s.generated) answer⟩),
          .writeComplete s.writes.length] = some t ∧ t.undefined = true := by
  obtain ⟨c, t, -, hrun, hend⟩ := library_async_write_runs C answer hs hleft hq hcl hcancelled
    fun hne => absurd hec hne
  have hmax := firstGiven_length_le (C.pDataGen s.generated) answer
  have hpos : 0 < (firstGiven (C.pDataGen s.generated) answer).length :=
    (ConsumingSingleBuffer.cursor_serves _).given_pos ⟨rfl, Nat.zero_le _⟩ (by decide) htaken
      (by omega)
  rw [asyncWrite_one _ hcancelled, if_pos ⟨hec, by omega, by omega⟩] at hend
  exact ⟨t, hrun, hend⟩

end AsioSamples.TcpServer
