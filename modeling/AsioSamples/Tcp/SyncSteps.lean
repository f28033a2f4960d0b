import AsioSamples.Tcp.SyncServer

/-!
# What one event does to the synchronous TCP server

The body of the loop up to the write has one equation for each way it ends, and `Outcome`
collects what every event does to the state.
-/

namespace AsioSamples.SyncTcpServer

open Framework

theorem server_init (C : Config) : ∃ out, (server C).init = { cout := out } := ⟨_, rfl⟩

/-- The first endpoint query of the loop body that fails. -/
def loopFailure (first : Bool) (client : Client) : Option ErrorCode :=
  (if first then client.localFailure else none).or client.remoteFailure

theorem beforeWrite_query (C : Config) {client : Client} {e : ErrorCode} (s : State)
    (h : loopFailure s.first client = some e) :
    ∃ out first, beforeWrite C client s = (.error e, { s with cout := out, first := first }) := by
  unfold beforeWrite
  rw [Handler.get_bind_run]
  cases hf : s.first with
  | false =>
      have hr : client.remoteFailure = some e := by simpa [loopFailure, hf] using h
      refine ⟨s.cout, s.first, ?_⟩
      simp only [Bool.false_eq_true, if_false]
      rw [Handler.bind_run_error _ (by rw [remoteInfo_run, hr])]
  | true =>
      simp only [if_true]
      cases hl : client.localFailure with
      | some e' =>
          obtain rfl : e' = e := by simpa [loopFailure, hf, hl] using h
          refine ⟨s.cout, s.first, ?_⟩
          rw [Handler.bind_run_error _ (by rw [localInfo_run, hl])]
      | none =>
          have hr : client.remoteFailure = some e := by simpa [loopFailure, hf, hl] using h
          rw [Handler.bind_run_ok _ (by rw [localInfo_run, hl])]
          rw [Handler.modify_bind_run, Handler.modify_bind_run]
          rw [Handler.bind_run_error _ (by rw [remoteInfo_run, hr])]
          exact ⟨_, _, rfl⟩

theorem beforeWrite_served (C : Config) {client : Client} (s : State)
    (h : loopFailure s.first client = none) :
    ∃ out, beforeWrite C client s = (.ok (C.pMakeString s.generated),
      { s.modifyWire s.current fun w => { w with text := some (C.pMakeString s.generated) } with
        generated := s.generated + 1, first := false, cout := out }) := by
  have hr : client.remoteFailure = none := (Option.or_eq_none_iff.mp h).2
  unfold beforeWrite
  rw [Handler.get_bind_run]
  cases hf : s.first with
  | false =>
      apply Exists.intro
      simp only [Bool.false_eq_true, if_false]
      rw [Handler.bind_run_ok _ (by rw [remoteInfo_run, hr])]
      rw [← hf]
      rfl
  | true =>
      have hl : client.localFailure = none := by
        simpa [hf] using (Option.or_eq_none_iff.mp h).1
      apply Exists.intro
      simp only [if_true]
      rw [Handler.bind_run_ok _ (by rw [localInfo_run, hl]), Handler.modify_bind_run,
        Handler.modify_bind_run, Handler.bind_run_ok _ (by rw [remoteInfo_run, hr])]
      rfl

/-- One event of the server, as a relation between the states before and after it. -/
inductive Outcome (C : Config) (s : State) : Event → State → Prop where
  | unserved (o) (e : ErrorCode) (hctl : s.control = .exited e) : Outcome C s (.accept o) s
  | rejected (e : ErrorCode) (hctl : s.control = .accepting) :
      Outcome C s (.accept (.error e)) (exit e s)
  | query (client : Client) (e : ErrorCode) (out) (first) (hctl : s.control = .accepting)
      (hq : loopFailure s.first client = some e) : Outcome C s (.accept (.ok client))
        (exit e { s with accepted := s.accepted + 1, cout := out, first := first })
  | taken (client : Client) (out) (hctl : s.control = .accepting)
      (hq : loopFailure s.first client = none) : Outcome C s (.accept (.ok client))
        { s.modifyWire s.accepted fun w => { w with text := some (C.pMakeString s.generated) } with
          accepted := s.accepted + 1, generated := s.generated + 1, first := false, cout := out,
          control := .writing client (C.pMakeString s.generated) }
  | sent (client : Client) (rest : Bytes) (k : ℕ) (hctl : s.control = .writing client rest)
      (hpos : 0 < k) (hk : k ≤ rest.length) : Outcome C s (.writeSome k)
        { s.modifyWire s.current fun w => { w with sent := w.sent ++ rest.take k } with
          control := .writing client (rest.drop k) }
  | returned (client : Client) (out) (hctl : s.control = .writing client [])
      (hw : client.fails .write = none) : Outcome C s .writeReturn
        { s.modifyWire s.current fun w => { w with closed := true } with
          control := .accepting, cout := out }
  | thrown (client : Client) (rest : Bytes) (e : ErrorCode)
      (hctl : s.control = .writing client rest)
      (hw : client.fails .write = some e) : Outcome C s .writeThrow (exit e s)

theorem step_outcome {C : Config} {s t : State} {e : Event} (h : step C s e = some t) :
    Outcome C s e t := by
  cases e with
  | accept o =>
      cases hctl : s.control with
      | accepting =>
          cases o with
          | error e =>
              obtain rfl : exit e s = t := by simpa [step, hctl] using h
              exact .rejected e hctl
          | ok client =>
              obtain rfl : serve C client s = t := by simpa [step, hctl] using h
              cases hq : loopFailure s.first client with
              | some e =>
                  obtain ⟨out, first, hb⟩ := beforeWrite_query C
                    { s with accepted := s.accepted + 1 } hq
                  simp only [serve, hb]
                  exact .query client e out first hctl hq
              | none =>
                  obtain ⟨out, hb⟩ := beforeWrite_served C
                    { s with accepted := s.accepted + 1 } hq
                  simp only [serve, hb]
                  exact .taken client out hctl hq
      | writing client rest => simp [step, hctl] at h
      | exited e =>
          obtain rfl : s = t := by simpa [step, hctl] using h
          exact .unserved o e hctl
  | writeSome k =>
      cases hctl : s.control with
      | accepting => simp [step, hctl] at h
      | writing client rest =>
          simp only [step, hctl, Option.ite_none_right_eq_some, Option.some.injEq] at h
          obtain ⟨⟨hpos, hk⟩, rfl⟩ := h
          exact .sent client rest k hctl hpos hk
      | exited e => simp [step, hctl] at h
  | writeReturn =>
      cases hctl : s.control with
      | accepting => simp [step, hctl] at h
      | writing client rest =>
          cases rest with
          | nil =>
              simp only [step, hctl, Option.ite_none_right_eq_some, Option.some.injEq] at h
              obtain ⟨hw, rfl⟩ := h
              exact .returned client _ hctl hw
          | cons b rest => simp [step, hctl] at h
      | exited e => simp [step, hctl] at h
  | writeThrow =>
      cases hctl : s.control with
      | accepting => simp [step, hctl] at h
      | writing client rest =>
          simp only [step, hctl, Option.map_eq_some_iff] at h
          obtain ⟨e, hw, rfl⟩ := h
          exact .thrown client rest e hctl hw
      | exited e => simp [step, hctl] at h

end AsioSamples.SyncTcpServer
