import AsioSamples.Tcp.AsyncSteps
import Mathlib.Data.List.TakeDrop

/-!
# Which messages the asynchronous TCP server delivers

`addressRequest` starts its write, shuts the socket down and closes it in one go. Nothing is
sent after that, so a client gets what the sends before the shutdown took: always a first
part of its own message, and the whole of it exactly when they took all of it.
-/

namespace AsioSamples.TcpServer

open Framework

/-- Every client that was accepted and stays connected has received, at its end of stream,
the string that `p_data_gen` returned in its own `addressRequest`. -/
def Delivered (s : State) : Prop :=
  ∀ c client, (s.conns c).client = some client → client.Stays →
    ∃ text, (s.conns c).text = some text ∧ (s.conns c).received = text

/-- The sends that take place before the shutdown take the whole message, if the event is the
accept of a client that stays connected. -/
def TakenBeforeShutdown (C : Config) (s : State) (e : Event) : Prop :=
  ∀ a, e = .accept (.ok a) → s.left = none → a.client.Stays →
    (C.pDataGen s.generated).length ≤ a.sends.sum

/-- No byte of another message, and none out of order: what a client has received is a first
part of its own message. -/
def OwnPrefix (s : State) : Prop :=
  ∀ c, (s.conns c).received <+: (s.conns c).text.getD []

private theorem ownPrefix_update {s t : State} {c : ℕ} {conn : TcpConnection}
    (hs : OwnPrefix s) (ht : t.conns = Function.update s.conns c conn)
    (hconn : conn.received <+: conn.text.getD []) : OwnPrefix t := by
  intro d
  by_cases hd : d = c
  · simpa [ht, hd] using hconn
  · simpa [ht, hd] using hs d

private theorem servedConn_firstPart (C : Config) (a : Accepted) (s : State) :
    (servedConn C a s).received <+: (servedConn C a s).text.getD [] :=
  List.take_prefix _ _

theorem ownPrefix_step {C : Config} {s t : State} {e : Event} (hI : Inv s) (hs : OwnPrefix s)
    (h : step C s e = some t) : OwnPrefix t := by
  cases step_outcome hI h with
  | unserved o hleft => exact hs
  | rejected c e out hleft hacc hnew =>
      exact ownPrefix_update
        (ownPrefix_update (t := { s with conns := Function.update s.conns c {} }) hs rfl
          List.prefix_rfl) rfl List.prefix_rfl
  | query c a e out hleft hacc hnew hq => exact ownPrefix_update hs rfl List.prefix_rfl
  | closing c a e out hleft hacc hnew hq hcl =>
      exact ownPrefix_update hs rfl (servedConn_firstPart C a s)
  | served c a out hleft hacc hnew hq hcl =>
      exact ownPrefix_update
        (ownPrefix_update (t := { s with conns := Function.update s.conns c (servedConn C a s) })
          hs rfl (servedConn_firstPart C a s)) rfl List.prefix_rfl
  | complete i w hleft hw hend => exact hs
  | dangling i w hleft hw hcont => exact hs

theorem reachable_ownPrefix {C : Config} {s : State} (hs : (server C).Reachable s) :
    OwnPrefix s := by
  have hkeep : (server C).Preserves fun s => Inv s ∧ OwnPrefix s := fun s e t h ht =>
    ⟨inv_preserved C s e t h.1 ht, ownPrefix_step h.1 h.2 ht⟩
  refine (hkeep.reachable ⟨inv_init C, ?_⟩ hs).2
  intro c
  rw [server_init]
  by_cases hc : c = 0 <;> simp [hc]

private theorem not_stays {client : Client} {e : ErrorCode}
    (h : client.queryFailure = some e ∨ client.closingFailure = some e) : ¬ client.Stays := by
  intro hst
  rcases h with h | h
  · simp [hst.queryFailure] at h
  · simp [hst.closingFailure] at h

private theorem delivered_update {s t : State} {c : ℕ} {conn : TcpConnection} (hs : Delivered s)
    (ht : t.conns = Function.update s.conns c conn) :
    Delivered t ↔ ∀ client, conn.client = some client → client.Stays →
      ∃ text, conn.text = some text ∧ conn.received = text := by
  constructor
  · intro h client hcl hst
    simpa [ht] using h c client (by simpa [ht] using hcl) hst
  · intro h d client hcl hst
    by_cases hd : d = c
    · subst hd
      simpa [ht] using h client (by simpa [ht] using hcl) hst
    · simpa [ht, hd] using hs d client (by simpa [ht, hd] using hcl) hst

private theorem delivered_servedConn (C : Config) (a : Accepted) (s : State) :
    (∀ client, (servedConn C a s).client = some client → client.Stays →
      ∃ text, (servedConn C a s).text = some text ∧ (servedConn C a s).received = text) ↔
    (a.client.Stays → (C.pDataGen s.generated).length ≤ a.sends.sum) := by
  simp [servedConn, List.take_self_eq_iff]

private theorem delivered_step {C : Config} {s t : State} {e : Event} (hI : Inv s)
    (hs : Delivered s) (h : step C s e = some t) : Delivered t ↔ TakenBeforeShutdown C s e := by
  cases step_outcome hI h with
  | unserved o hleft =>
      exact ⟨fun _ _ _ hnone => absurd hnone hleft, fun _ => hs⟩
  | rejected c e out hleft hacc hnew =>
      have h1 : Delivered { s with conns := Function.update s.conns c {} } :=
        (delivered_update hs rfl).mpr (by simp)
      refine iff_of_true ((delivered_update h1 rfl).mpr (by simp)) ?_
      intro a ha
      simp at ha
  | query c a e out hleft hacc hnew hq =>
      have hn := not_stays (Or.inl hq)
      refine iff_of_true ((delivered_update hs rfl).mpr ?_) ?_
      · intro client hcl hst
        obtain rfl : a.client = client := by simpa using hcl
        exact (hn hst).elim
      · intro a' ha' _ hst
        obtain rfl : a = a' := by simpa using ha'
        exact (hn hst).elim
  | closing c a e out hleft hacc hnew hq hcl =>
      have hn := not_stays (Or.inr hcl)
      refine iff_of_true ((delivered_update hs rfl).mpr ?_) ?_
      · exact (delivered_servedConn C a s).mpr fun hst => (hn hst).elim
      · intro a' ha' _ hst
        obtain rfl : a = a' := by simpa using ha'
        exact (hn hst).elim
  | served c a out hleft hacc hnew hq hcl =>
      have hfresh (u : State) (hu : Delivered u) : Delivered { u with
          conns := Function.update u.conns s.created { owners := 1 } } :=
        (delivered_update hu rfl).mpr (by simp)
      have hc : c ≠ s.created := by omega
      constructor
      · intro ht a' ha' _ hst
        obtain rfl : a = a' := by simpa using ha'
        obtain ⟨text, htext, hrec⟩ := ht c a.client (by simp [hc, servedConn]) hst
        refine (delivered_servedConn C a s).mp ?_ hst
        intro client _ _
        exact ⟨text, by simpa [hc] using htext, by simpa [hc] using hrec⟩
      · intro hC
        have h1 : Delivered { s with conns := Function.update s.conns c (servedConn C a s) } :=
          (delivered_update hs rfl).mpr
            ((delivered_servedConn C a s).mpr (hC a rfl hleft))
        exact (delivered_update h1 rfl).mpr (by simp)
  | complete i w hleft hw hend =>
      refine iff_of_true hs ?_
      intro a ha
      simp at ha
  | dangling i w hleft hw hcont =>
      refine iff_of_true hs ?_
      intro a ha
      simp at ha

/-- A run delivers every message whole exactly when, for every client that stays connected,
the sends before the shutdown take the whole message. -/
theorem delivered_iff_takenBeforeShutdown (C : Config) (es : List Event) :
    (server C).Throughout Delivered (server C).init es ↔
      (server C).AllSteps (TakenBeforeShutdown C) (server C).init es := by
  refine Machine.throughout_iff_allSteps (inv_preserved C)
    (fun s e t hI hs h => delivered_step hI hs h) (inv_init C) ?_
  intro c client hcl
  rw [server_init] at hcl
  by_cases hc : c = 0 <;> simp [hc] at hcl

/-- A client that stays connected gets two of the three bytes of its message when the send that
`async_write` starts takes two bytes before the shutdown. -/
theorem message_cut_by_shutdown :
    ¬ (server (.daytime fun _ => [77, 111, 110])).Throughout Delivered
      (server (.daytime fun _ => [77, 111, 110])).init
      [.accept (.ok ⟨.steady 50000, [2]⟩)] := by
  intro h
  obtain ⟨text, htext, hrec⟩ := h.last rfl 0 (.steady 50000) rfl (Client.steady_stays 50000)
  cases htext
  exact absurd hrec (by decide)

end AsioSamples.TcpServer
