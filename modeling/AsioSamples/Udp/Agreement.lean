import AsioSamples.Udp.AsyncBookkeeping
import AsioSamples.Udp.SyncServer

/-!
# When the two UDP servers agree

Both answer every request with the next string. They part at a receive error: the
asynchronous server prints it and arms the next receive, the synchronous one leaves its loop
by an exception.
-/

namespace AsioSamples.SyncUdpServer

open Framework

/-- A server that still receives met no error and initiated the replies owed. -/
inductive Progress (C : Config) (rs : List Round) (s : State) : Prop where
  | receiving (hctl : s.control = .receiving) (hok : ∀ r ∈ rs, ∃ d, r.received = .ok d)
      (hinit : s.initiated = answers C.pMakeString (rs.map Round.received))
      (hgen : s.generated = s.initiated.length)
  | exited (e : ErrorCode) (hctl : s.control = .exited e)
      (herr : ∃ r ∈ rs, ∃ e, r.received = .error e)

theorem progress_step {C : Config} {rs : List Round} {s t : State} {r : Round}
    (h : Progress C rs s) (ht : step C s r = some t) : Progress C (rs ++ [r]) t := by
  cases step_outcome ht with
  | unserved e hctl =>
      cases h with
      | receiving hctl' _ _ _ => simp [hctl] at hctl'
      | exited e' hctl' herr =>
          obtain ⟨r', hr', herr⟩ := herr
          exact .exited e' hctl' ⟨r', List.mem_append_left _ hr', herr⟩
  | thrown e hctl hr =>
      exact .exited e rfl ⟨r, by simp, e, hr⟩
  | answered d dep out hctl hr =>
      cases h with
      | exited e' hctl' _ => simp [hctl] at hctl'
      | receiving _ hok hinit hgen =>
          refine .receiving hctl ?_ ?_ ?_
          · intro r' hr'
            rcases List.mem_append.mp hr' with hr' | hr'
            · exact hok r' hr'
            · obtain rfl := List.mem_singleton.mp hr'
              exact ⟨d, hr⟩
          · rw [List.map_append, List.map_singleton, hr, answers_concat_ok, ← hinit, ← hgen]
          · simp [hgen]

theorem run_progress {C : Config} {rs : List Round} {s : State}
    (hr : (server C).run rs = some s) : Progress C rs s := by
  refine Machine.run_induction (J := Progress C) ?_ (fun rs s r t => progress_step) hr
  obtain ⟨out, hout⟩ := server_init C
  rw [hout]
  exact .receiving rfl (by simp) rfl rfl

end AsioSamples.SyncUdpServer

namespace AsioSamples

open Framework

/-- Both servers have initiated the replies owed for the receives `os`, and both wait for the
next request. -/
def Agree (gen : ℕ → Bytes) (os : List Received) (s : UdpServer.State)
    (u : SyncUdpServer.State) : Prop :=
  s.initiated = answers gen os ∧ u.initiated = answers gen os ∧
    (s.receiving = 1 ∧ s.ready = []) ∧ u.control = .receiving

/-- Given the same results of their receives, and whatever becomes of their sends, the two
servers agree exactly when no receive fails. -/
theorem udp_servers_agree_iff (A : UdpServer.Config) (S : SyncUdpServer.Config)
    (hgen : A.pDataGen = S.pMakeString) (es : List UdpServer.Event)
    (rs : List SyncUdpServer.Round) {s : UdpServer.State} {u : SyncUdpServer.State}
    (hs : (UdpServer.server A).run es = some s) (hu : (SyncUdpServer.server S).run rs = some u)
    (hsame : rs.map SyncUdpServer.Round.received = UdpServer.arrivals es)
    (hall : UdpServer.handled es = (UdpServer.arrivals es).length) :
    Agree A.pDataGen (UdpServer.arrivals es) s u ↔
      ∀ o ∈ UdpServer.arrivals es, ∃ d, o = .ok d := by
  obtain ⟨hI, hP⟩ := UdpServer.run_progress hs
  have hinit := UdpServer.initiated_eq_answers hP
  rw [hall, List.take_length] at hinit
  have hready : s.ready = [] := by
    cases hP with
    | idle hready _ _ => exact hready
    | waits os o result harr _ hhandled _ _ _ =>
        rw [hhandled, harr, List.length_append, List.length_singleton] at hall
        omega
  have hreceiving : s.receiving = 1 := by
    simpa [UdpServer.State.outstanding, hready] using hI.armed
  cases SyncUdpServer.run_progress hu with
  | receiving hctl hok hinit' _ =>
      refine iff_of_true ⟨hinit, ?_, ⟨hreceiving, hready⟩, hctl⟩ ?_
      · rw [hinit', hsame, hgen]
      · intro o ho
        rw [← hsame] at ho
        obtain ⟨r, hr, rfl⟩ := List.mem_map.mp ho
        exact hok r hr
  | exited e hctl herr =>
      apply iff_of_false
      · rintro ⟨-, -, -, hctl'⟩
        simp [hctl] at hctl'
      · intro hok
        obtain ⟨r, hr, e, he⟩ := herr
        obtain ⟨d, hd⟩ := hok r.received (hsame ▸ List.mem_map_of_mem hr)
        simp [hd] at he

def errorBetweenRequests : List Received :=
  [.ok ⟨⟨"10.0.0.1", 5001⟩, []⟩, .error (.system 111 "Connection refused"),
    .ok ⟨⟨"10.0.0.2", 5002⟩, []⟩]

def handleAll (os : List Received) : List UdpServer.Event :=
  os.flatMap fun o => [.arrive o, .handleReceive]

/-- One request that both answer, the reply of one of them failing. -/
theorem udp_servers_agree_on_request :
    ∃ s u, (UdpServer.server (.daytime fun k => [k.toUInt8])).run
        (handleAll [.ok ⟨⟨"10.0.0.1", 5001⟩, [1]⟩]) = some s ∧
      (SyncUdpServer.server (.daytime fun k => [k.toUInt8])).run
        [⟨.ok ⟨⟨"10.0.0.1", 5001⟩, [1]⟩, some (.system 90 "Message too long")⟩] = some u ∧
      Agree (fun k => [k.toUInt8]) [.ok ⟨⟨"10.0.0.1", 5001⟩, [1]⟩] s u := by
  refine ⟨_, _, rfl, rfl, ?_⟩
  refine (udp_servers_agree_iff (.daytime fun k => [k.toUInt8]) (.daytime fun k => [k.toUInt8])
    rfl (handleAll [.ok ⟨⟨"10.0.0.1", 5001⟩, [1]⟩])
    [⟨.ok ⟨⟨"10.0.0.1", 5001⟩, [1]⟩, some (.system 90 "Message too long")⟩]
    rfl rfl rfl rfl).mpr ?_
  intro o ho
  exact ⟨_, List.mem_singleton.mp ho⟩

/-- After the error the asynchronous server answers the second client, the synchronous one is
gone. -/
theorem receive_error_stops_udpServer :
    ∃ s u, (UdpServer.server (.daytime fun k => [k.toUInt8])).run
        (handleAll errorBetweenRequests) = some s ∧
      (SyncUdpServer.server (.daytime fun k => [k.toUInt8])).run
        (errorBetweenRequests.map fun o => ⟨o, none⟩) = some u ∧
      ¬ Agree (fun k => [k.toUInt8]) errorBetweenRequests s u ∧
      s.initiated.length = 2 ∧ u.initiated.length = 1 := by
  refine ⟨_, _, rfl, rfl, ?_, rfl, rfl⟩
  rintro ⟨-, -, -, hctl⟩
  exact SyncUdpServer.Control.noConfusion hctl

end AsioSamples
