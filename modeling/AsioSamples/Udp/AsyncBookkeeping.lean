import AsioSamples.Udp.AsyncSteps
import Mathlib.Data.List.Nodup

/-!
# The bookkeeping of the asynchronous UDP server

One endpoint member and one buffer serve an unbounded chain of receives, while any number of
sends is in flight. They are safe because the next receive is armed last in the handler: one
receive is outstanding between two handlers, and none while a handler runs.
-/

namespace AsioSamples.UdpServer

open Framework

def Event.arrival : Event → Option Received
  | .arrive o => some o
  | _ => none

def Event.handles : Event → Bool
  | .handleReceive => true
  | _ => false

def arrivals (es : List Event) : List Received := es.filterMap Event.arrival

def handled (es : List Event) : ℕ := es.countP Event.handles

/-- The calls of `sendData` whose bytes are still to be taken. -/
def State.pendingSeqs (s : State) : List ℕ :=
  (s.sends.filter fun w => decide (w.status = .pending)).map Send.seq

/-- One receive is outstanding, no handler touched a shared member while one was, every send
goes to the destination it was initiated with, and none leaves twice. -/
structure Inv (s : State) : Prop where
  armed : s.outstanding = 1
  quiet : ∀ a ∈ s.accesses, a.outstanding = 0
  numbered : s.generated = s.initiated.length
  addressed : ∀ w ∈ s.sends, s.initiated[w.seq]?.map Reply.destination = some w.destination
  departed : ∀ d ∈ s.departed, s.initiated[d.seq]?.map Reply.destination = some d.destination
  once : (s.departed.map Departed.seq ++ s.pendingSeqs).Nodup

theorem inv_init (C : Config) : Inv (server C).init := by
  obtain ⟨out, hout⟩ := server_init C
  rw [hout]
  exact ⟨rfl, by simp, rfl, by simp, by simp, by simp [State.pendingSeqs]⟩

private theorem pendingSeqs_set {ws : List Send} {i : ℕ} {w v : Send} (hw : ws[i]? = some w)
    (hpend : w.status = .pending) (hv : v.status ≠ .pending) :
    ((ws.filter fun w => decide (w.status = .pending)).map Send.seq).Perm
      (w.seq :: ((ws.set i v).filter fun w => decide (w.status = .pending)).map Send.seq) := by
  induction ws generalizing i with
  | nil => simp at hw
  | cons u ws ih =>
      cases i with
      | zero =>
          obtain rfl : u = w := by simpa using hw
          simp [hpend, hv]
      | succ i =>
          have h := ih (i := i) (by simpa using hw)
          by_cases hu : u.status = .pending
          · simp only [List.set_cons_succ, List.filter_cons, hu, decide_true, if_true,
              List.map_cons]
            exact (h.cons u.seq).trans (.swap _ _ _)
          · simpa [List.filter_cons, hu] using h

private theorem destination_append {rs : List Reply} {r : Reply} {k : ℕ} {a : Endpoint}
    (h : rs[k]?.map Reply.destination = some a) :
    (rs ++ [r])[k]?.map Reply.destination = some a := by
  obtain ⟨r', hr', rfl⟩ := Option.map_eq_some_iff.mp h
  have hlt : k < rs.length := (List.getElem?_eq_some_iff.mp hr').1
  rw [List.getElem?_append_left hlt, hr', Option.map_some]

private theorem lt_of_destination {rs : List Reply} {k : ℕ} {a : Endpoint}
    (h : rs[k]?.map Reply.destination = some a) : k < rs.length := by
  obtain ⟨r', hr', -⟩ := Option.map_eq_some_iff.mp h
  exact (List.getElem?_eq_some_iff.mp hr').1

private theorem numbers_lt {s : State} (hI : Inv s) :
    ∀ k ∈ s.departed.map Departed.seq ++ s.pendingSeqs, k < s.initiated.length := by
  intro k hk
  rcases List.mem_append.mp hk with hk | hk
  · obtain ⟨d, hd, rfl⟩ := List.mem_map.mp hk
    exact lt_of_destination (hI.departed d hd)
  · obtain ⟨w, hw, rfl⟩ := List.mem_map.mp hk
    exact lt_of_destination (hI.addressed w (List.mem_of_mem_filter hw))

private theorem addressed_set {s : State} {i : ℕ} {w : Send} (hI : Inv s)
    (hw : s.sends[i]? = some w) (status : SendStatus) :
    ∀ v ∈ s.sends.set i { w with status := status },
      s.initiated[v.seq]?.map Reply.destination = some v.destination := by
  intro v hv
  obtain ⟨u, hu, hseq, hdest, -, -⟩ := mem_set_status hw hv
  rw [hseq, hdest]
  exact hI.addressed u hu

theorem inv_preserved (C : Config) : (server C).Preserves Inv := by
  intro s e t hI h
  have harmed := hI.armed
  simp only [State.outstanding] at harmed
  cases step_outcome h with
  | arrived o n hrec =>
      have hout : (complete o { s with receiving := n }).outstanding = 1 := by
        cases o <;> simp [complete, State.outstanding] <;> omega
      cases o with
      | ok d => exact ⟨hout, hI.quiet, hI.numbered, hI.addressed, hI.departed, hI.once⟩
      | error e => exact ⟨hout, hI.quiet, hI.numbered, hI.addressed, hI.departed, hI.once⟩
  | failed e rest out hready =>
      simp only [hready, List.length_cons] at harmed
      have hrest : s.receiving + rest.length = 0 := by omega
      refine ⟨?_, ?_, hI.numbered, hI.addressed, hI.departed, hI.once⟩
      · simp only [State.outstanding]
        omega
      · intro a ha
        rcases List.mem_append.mp ha with ha | ha
        · exact hI.quiet a ha
        · rw [List.mem_singleton.mp ha, hrest]
  | served len rest acc out hready hacc =>
      simp only [hready, List.length_cons] at harmed
      have hrest : s.receiving = 0 ∧ rest.length = 0 := by omega
      have hlast : (s.initiated ++ [⟨s.remoteEndpoint, C.pDataGen s.generated⟩])[
          s.initiated.length]?.map Reply.destination = some s.remoteEndpoint := by simp
      refine ⟨?_, ?_, ?_, ?_, fun d hd => destination_append (hI.departed d hd), ?_⟩
      · simp [served, State.outstanding, hrest]
      · intro a ha
        rcases List.mem_append.mp ha with ha | ha
        · exact hI.quiet a ha
        · rw [hacc a ha, hrest.1, hrest.2]
      · simp [served, hI.numbered]
      · intro w hw
        rcases List.mem_append.mp hw with hw | hw
        · exact destination_append (hI.addressed w hw)
        · obtain rfl := List.mem_singleton.mp hw
          exact hlast
      · have hnew : s.initiated.length ∉ s.departed.map Departed.seq ++ s.pendingSeqs := fun hm =>
          Nat.lt_irrefl _ (numbers_lt hI _ hm)
        have hseqs : (served C s rest acc out).pendingSeqs =
            s.pendingSeqs ++ [s.initiated.length] := by
          simp [served, State.pendingSeqs, List.filter_append]
        rw [hseqs, ← List.append_assoc]
        exact (List.nodup_append_comm.mp (List.nodup_cons.mpr ⟨hnew, hI.once⟩))
  | taken i w hw hpend =>
      refine ⟨hI.armed, hI.quiet, hI.numbered, addressed_set hI hw .taken, ?_, ?_⟩
      · intro d hd
        rcases List.mem_append.mp hd with hd | hd
        · exact hI.departed d hd
        · obtain rfl := List.mem_singleton.mp hd
          exact hI.addressed w (List.mem_of_getElem? hw)
      · have hp := pendingSeqs_set (v := { w with status := .taken }) hw hpend (by simp)
        have h1 := ((hp.append_left (s.departed.map Departed.seq)).nodup_iff).mp hI.once
        simpa [takeBytes, State.pendingSeqs] using h1
  | sendFailed i w e hw hpend =>
      refine ⟨hI.armed, hI.quiet, hI.numbered, addressed_set hI hw (.failed e), hI.departed, ?_⟩
      have hp := pendingSeqs_set (v := { w with status := .failed e }) hw hpend (by simp)
      have h1 := ((hp.append_left (s.departed.map Departed.seq)).nodup_iff).mp hI.once
      exact h1.sublist ((List.sublist_cons_self _ _).append_left _)
  | sendHandled i w hw hpend =>
      refine ⟨hI.armed, hI.quiet, hI.numbered, ?_, hI.departed, ?_⟩
      · exact fun v hv => hI.addressed v (List.mem_of_mem_eraseIdx hv)
      · exact hI.once.sublist ((((List.eraseIdx_sublist s.sends i).filter _).map _).append_left _)

/-- What the handlers that have run leave behind after the events `es`: either every arrival
was handled, or the last one waits for its handler with its sender in `remote_endpoint_`. -/
inductive Progress (C : Config) (es : List Event) (s : State) : Prop where
  | idle (hready : s.ready = []) (hhandled : handled es = (arrivals es).length)
      (hinit : s.initiated = answers C.pDataGen (arrivals es))
  | waits (os : List Received) (o : Received) (result : Except ErrorCode ℕ)
      (harr : arrivals es = os ++ [o]) (hready : s.ready = [result])
      (hhandled : handled es = os.length) (hinit : s.initiated = answers C.pDataGen os)
      (herror : ∀ e, result = .error e → o = .error e)
      (hsender : ∀ len, result = .ok len → ∃ d, o = .ok d ∧ s.remoteEndpoint = d.sender)

theorem arrivals_concat (es : List Event) (e : Event) :
    arrivals (es ++ [e]) = arrivals es ++ e.arrival.toList := by
  cases e <;> simp [arrivals, Event.arrival]

theorem handled_concat (es : List Event) (e : Event) :
    handled (es ++ [e]) = handled es + if e.handles then 1 else 0 := by
  simp [handled, List.countP_append, List.countP_singleton]

private theorem Progress.send {C : Config} {es : List Event} {e : Event} {s t : State}
    (h : Progress C es s) (harr : arrivals (es ++ [e]) = arrivals es)
    (hhan : handled (es ++ [e]) = handled es) (hready : t.ready = s.ready)
    (hinit : t.initiated = s.initiated) (hremote : t.remoteEndpoint = s.remoteEndpoint) :
    Progress C (es ++ [e]) t := by
  cases h with
  | idle h1 h2 h3 =>
      exact .idle (hready.trans h1) (by rw [hhan, harr, h2]) (by rw [hinit, harr, h3])
  | waits os o result h1 h2 h3 h4 h5 h6 =>
      exact .waits os o result (harr.trans h1) (hready.trans h2) (hhan.trans h3)
        (hinit.trans h4) h5 (by rw [hremote]; exact h6)

theorem progress_step {C : Config} {es : List Event} {s t : State} {e : Event} (hI : Inv s)
    (h : Progress C es s) (ht : step C s e = some t) : Progress C (es ++ [e]) t := by
  have harmed := hI.armed
  simp only [State.outstanding] at harmed
  cases step_outcome ht with
  | arrived o n hrec =>
      cases h with
      | waits os o' result harr hready _ _ _ _ =>
          simp only [hready, List.length_singleton] at harmed
          omega
      | idle hready hhandled hinit =>
          have harr : arrivals (es ++ [.arrive o]) = arrivals es ++ [o] := arrivals_concat es _
          have hhan : handled (es ++ [.arrive o]) = (arrivals es).length := by
            rw [handled_concat, hhandled]
            rfl
          cases o with
          | ok d =>
              exact .waits _ _ (.ok (min d.payload.length buffSize)) harr
                (by simp [complete, hready]) hhan hinit (by simp) fun _ _ => ⟨d, rfl, rfl⟩
          | error e =>
              exact .waits _ _ (.error e) harr (by simp [complete, hready]) hhan hinit
                (by simp) (by simp)
  | failed e rest out hready =>
      cases h with
      | idle hnone _ _ => simp [hnone] at hready
      | waits os o result harr hone hhandled hinit herror _ =>
          obtain ⟨rfl, rfl⟩ : result = .error e ∧ rest = [] := by
            simpa [hone] using hready
          have harr' : arrivals (es ++ [.handleReceive]) = os ++ [o] := by
            rw [arrivals_concat, harr]
            exact List.append_nil _
          refine .idle rfl ?_ ?_
          · rw [handled_concat, harr', hhandled, List.length_append, List.length_singleton]
            rfl
          · rw [harr', herror e rfl, answers_concat_error]
            exact hinit
  | served len rest acc out hready hacc =>
      cases h with
      | idle hnone _ _ => simp [hnone] at hready
      | waits os o result harr hone hhandled hinit _ hsender =>
          obtain ⟨rfl, rfl⟩ : result = .ok len ∧ rest = [] := by
            simpa [hone] using hready
          obtain ⟨d, rfl, hd⟩ := hsender len rfl
          have harr' : arrivals (es ++ [.handleReceive]) = os ++ [.ok d] := by
            rw [arrivals_concat, harr]
            exact List.append_nil _
          refine .idle rfl ?_ ?_
          · rw [handled_concat, harr', hhandled, List.length_append, List.length_singleton]
            rfl
          · rw [harr', answers_concat_ok, ← hinit, ← hI.numbered, ← hd]
            rfl
  | taken i w hw hpend =>
      exact h.send (by simp [arrivals_concat, Event.arrival])
        (by simp [handled_concat, Event.handles]) rfl rfl rfl
  | sendFailed i w e hw hpend =>
      exact h.send (by simp [arrivals_concat, Event.arrival])
        (by simp [handled_concat, Event.handles]) rfl rfl rfl
  | sendHandled i w hw hpend =>
      exact h.send (by simp [arrivals_concat, Event.arrival])
        (by simp [handled_concat, Event.handles]) rfl rfl rfl

theorem run_progress {C : Config} {es : List Event} {s : State}
    (hr : (server C).run es = some s) : Inv s ∧ Progress C es s := by
  refine Machine.run_induction (J := fun es s => Inv s ∧ Progress C es s) ⟨inv_init C, ?_⟩ ?_ hr
  · obtain ⟨out, hout⟩ := server_init C
    rw [hout]
    exact .idle rfl rfl rfl
  · intro es s e t h ht
    exact ⟨inv_preserved C s e t h.1 ht, progress_step h.1 h.2 ht⟩

theorem initiated_eq_answers {C : Config} {es : List Event} {s : State} (h : Progress C es s) :
    s.initiated = answers C.pDataGen ((arrivals es).take (handled es)) := by
  cases h with
  | idle _ hhandled hinit => rw [hinit, hhandled, List.take_length]
  | waits os o result harr _ hhandled hinit _ _ => rw [hinit, harr, hhandled, List.take_left]

end AsioSamples.UdpServer
