import AsioSamples.Udp.AsyncServer

/-!
# What one event does to the asynchronous UDP server

`Outcome` collects what each event does to the state; the results about runs use it and never
look into a handler.
-/

namespace AsioSamples.UdpServer

open Framework

@[simp] theorem assignMessage_generated (C : Config) (s : State) :
    (assignMessage C s).generated = s.generated + 1 := rfl

theorem assignMessage_contents (C : Config) (s : State) :
    (assignMessage C s).message.contents (assignMessage C s).memory = C.pDataGen s.generated :=
  C.strings.reads _ _ _ _

/-- The state after a datagram was handled: its reply is initiated, and the next receive armed.
The handler touches the shared members while `outstanding` receives are outstanding. -/
def served (C : Config) (s : State) (rest : List (Except ErrorCode ℕ)) (acc : List Access)
    (out : List String) : State :=
  let a := assignMessage C s
  { a with
    clientInfo := s.remoteEndpoint.info
    receiving := s.receiving + 1
    ready := rest
    sends := s.sends ++
      [⟨s.initiated.length, s.remoteEndpoint, a.message.data, a.message.size, .pending⟩]
    initiated := s.initiated ++ [⟨s.remoteEndpoint, C.pDataGen s.generated⟩]
    accesses := s.accesses ++ acc
    cout := out }

theorem startReceive_eq (C : Config) (s : State) : startReceive C s =
    { s with
      receiving := s.receiving + 1
      accesses := s.accesses ++ [⟨.buff, s.outstanding⟩]
      cout := (startReceive C s).cout } := by
  simp only [startReceive, access, print, State.outstanding]

theorem handleReceive_ok (C : Config) (len : ℕ) (s : State) :
    ∃ acc out, (∀ a ∈ acc, a.outstanding = s.outstanding) ∧
      handleReceive C (.ok len) s = served C s s.ready acc out := by
  have hc := assignMessage_contents C s
  cases ho : s.socketOpen with
  | true =>
      refine ⟨[⟨.remoteEndpoint, s.outstanding⟩, ⟨.remoteEndpoint, s.outstanding⟩,
        ⟨.clientInfo, s.outstanding⟩, ⟨.clientInfo, s.outstanding⟩,
        ⟨.remoteEndpoint, s.outstanding⟩, ⟨.clientInfo, s.outstanding⟩,
        ⟨.buff, s.outstanding⟩], ?_⟩
      apply Exists.intro
      refine ⟨by simp, ?_⟩
      simp only [handleReceive, sendData, served, ← hc]
      simp [asyncSendTo, access, print, startReceive, assignMessage, State.outstanding, ho]
      rfl
  | false =>
      refine ⟨[⟨.remoteEndpoint, s.outstanding⟩, ⟨.remoteEndpoint, s.outstanding⟩,
        ⟨.clientInfo, s.outstanding⟩, ⟨.clientInfo, s.outstanding⟩,
        ⟨.remoteEndpoint, s.outstanding⟩, ⟨.buff, s.outstanding⟩], ?_⟩
      apply Exists.intro
      refine ⟨by simp, ?_⟩
      simp only [handleReceive, sendData, served, ← hc]
      simp [asyncSendTo, access, print, startReceive, assignMessage, State.outstanding, ho]
      rfl

theorem handleReceive_error (C : Config) (e : ErrorCode) (s : State) :
    ∃ out, handleReceive C (.error e) s =
      { s with
        receiving := s.receiving + 1
        accesses := s.accesses ++ [⟨.buff, s.outstanding⟩]
        cout := out } := by
  rw [handleReceive, startReceive_eq]
  exact ⟨_, rfl⟩

theorem mem_set_status {ws : List Send} {i : ℕ} {w v : Send} {status : SendStatus}
    (hw : ws[i]? = some w) (hv : v ∈ ws.set i { w with status := status }) :
    ∃ u ∈ ws, v.seq = u.seq ∧ v.destination = u.destination ∧ v.data = u.data ∧
      v.size = u.size := by
  rcases List.mem_or_eq_of_mem_set hv with hv | rfl
  · exact ⟨v, hv, rfl, rfl, rfl, rfl⟩
  · exact ⟨w, List.mem_of_getElem? hw, rfl, rfl, rfl, rfl⟩

/-- One event of the server, as a relation between the states before and after it. -/
inductive Outcome (C : Config) (s : State) : Event → State → Prop where
  | arrived (o : Received) (n : ℕ) (hrec : s.receiving = n + 1) :
      Outcome C s (.arrive o) (complete o { s with receiving := n })
  | failed (e : ErrorCode) (rest) (out) (hready : s.ready = .error e :: rest) :
      Outcome C s .handleReceive
        { s with
          ready := rest
          receiving := s.receiving + 1
          accesses := s.accesses ++ [⟨.buff, s.receiving + rest.length⟩]
          cout := out }
  | served (len : ℕ) (rest) (acc : List Access) (out) (hready : s.ready = .ok len :: rest)
      (hacc : ∀ a ∈ acc, a.outstanding = s.receiving + rest.length) :
      Outcome C s .handleReceive (served C s rest acc out)
  | taken (i : ℕ) (w : Send) (hw : s.sends[i]? = some w) (hpend : w.status = .pending) :
      Outcome C s (.take i) (takeBytes i w s)
  | sendFailed (i : ℕ) (w : Send) (e : ErrorCode) (hw : s.sends[i]? = some w)
      (hpend : w.status = .pending) : Outcome C s (.sendFail i e)
        { s with sends := s.sends.set i { w with status := .failed e } }
  | sendHandled (i : ℕ) (w : Send) (hw : s.sends[i]? = some w) (hpend : w.status ≠ .pending) :
      Outcome C s (.handleSend i) { s with sends := s.sends.eraseIdx i }

theorem step_outcome {C : Config} {s t : State} {e : Event} (h : step C s e = some t) :
    Outcome C s e t := by
  cases e with
  | arrive o =>
      cases hrec : s.receiving with
      | zero => simp [step, hrec] at h
      | succ n =>
          obtain rfl : complete o { s with receiving := n } = t := by simpa [step, hrec] using h
          exact .arrived o n hrec
  | handleReceive =>
      cases hready : s.ready with
      | nil => simp [step, hready] at h
      | cons result rest =>
          obtain rfl : handleReceive C result { s with ready := rest } = t := by
            simpa [step, hready] using h
          cases result with
          | error e =>
              obtain ⟨out, hout⟩ := handleReceive_error C e { s with ready := rest }
              rw [hout]
              exact .failed e rest out hready
          | ok len =>
              obtain ⟨acc, out, hacc, hout⟩ := handleReceive_ok C len { s with ready := rest }
              rw [hout]
              exact .served len rest acc out hready hacc
  | take i =>
      cases hw : s.sends[i]? with
      | none => simp [step, hw] at h
      | some w =>
          simp only [step, hw, Option.ite_none_right_eq_some, Option.some.injEq] at h
          obtain ⟨hpend, rfl⟩ := h
          exact .taken i w hw hpend
  | sendFail i e =>
      cases hw : s.sends[i]? with
      | none => simp [step, hw] at h
      | some w =>
          simp only [step, hw, Option.ite_none_right_eq_some, Option.some.injEq] at h
          obtain ⟨hpend, rfl⟩ := h
          exact .sendFailed i w e hw hpend
  | handleSend i =>
      cases hw : s.sends[i]? with
      | none => simp [step, hw] at h
      | some w =>
          simp only [step, hw, Option.ite_none_right_eq_some, Option.some.injEq] at h
          obtain ⟨hpend, rfl⟩ := h
          exact .sendHandled i w hw hpend

theorem server_init (C : Config) : ∃ out, (server C).init =
    { receiving := 1, accesses := [⟨.buff, 0⟩], cout := out } :=
  ⟨_, startReceive_eq C {}⟩

end AsioSamples.UdpServer
