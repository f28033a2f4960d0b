import AsioSamples.Framework.Transfer
import AsioSamples.Tcp.Client
import AsioSamples.Tcp.SyncSteps

/-!
# The synchronous TCP server and its clients, end to end

The server and any number of clients run side by side. Each connection is a reliable
first-in first-out byte stream: `read_some` takes the next bytes the server has sent, and
reports the end of the stream only after the server closed normally and every byte was read.
So each connection is a transfer of the string made for it, whatever the two sides do.
-/

namespace AsioSamples.TcpSystem

open Framework

/-- A client, with the bytes its `read_some` calls have delivered. -/
structure Peer where
  state : TcpClient.State := {}
  read : Bytes := []

/-- The client `c` is the peer of the `c`-th connection the server accepts. -/
structure State where
  server : SyncTcpServer.State
  peers : ℕ → Peer := fun _ => {}

inductive Event where
  | server (e : SyncTcpServer.Event)
  | connect (c : ℕ) (o : TcpClient.Opening)
  | readSome (c k : ℕ)
  | readError (c : ℕ) (e : ErrorCode)

def State.available (s : State) (c : ℕ) : Bytes :=
  (s.server.wires c).sent.drop (s.peers c).read.length

def State.setPeer (s : State) (c : ℕ) (p : Peer) : State :=
  { s with peers := Function.update s.peers c p }

def step (C : SyncTcpServer.Config) (s : State) : Event → Option State
  | .server e => (SyncTcpServer.step C s.server e).map fun t => { s with server := t }
  | .connect c o =>
    match (s.peers c).state.control with
    | .connecting =>
      let t := TcpClient.guarded (TcpClient.openConnection o) (s.peers c).state
      some (s.setPeer c { s.peers c with state := t })
    | _ => none
  | .readSome c k =>
    match (s.peers c).state.control with
    | .reading =>
      if 0 < k ∧ k ≤ buffSize ∧ k ≤ (s.available c).length then
        let chunk := (s.available c).take k
        let t := TcpClient.guarded (TcpClient.readLoopBody (.ok chunk)) (s.peers c).state
        some (s.setPeer c { state := t, read := (s.peers c).read ++ chunk })
      else none
    | _ => none
  | .readError c e =>
    match (s.peers c).state.control with
    | .reading =>
      if e = .eof → (s.server.wires c).closed = true ∧ s.available c = [] then
        let t := TcpClient.guarded (TcpClient.readLoopBody (.error e)) (s.peers c).state
        some (s.setPeer c { s.peers c with state := t })
      else none
    | _ => none

def system (C : SyncTcpServer.Config) : Machine State Event where
  init := { server := (SyncTcpServer.server C).init }
  step := step C

/-- The connection carries the message: what the server has sent, and what the client has
read, are the two cuts of one transfer, and a normal close leaves nothing pending. -/
def Carries (message : Bytes) (w : SyncTcpServer.Wire) (p : Peer) : Prop :=
  ∃ T : Transfer UInt8, T.source = message ∧ w.sent = T.gone ∧ p.read = T.arrived ∧
    (w.closed = true → T.pending = [])

/-- What the client has shown is what it has read, and an end of stream was reported only
after the whole message. -/
structure Shows (message : Bytes) (p : Peer) : Prop where
  fresh : p.state.control = .connecting → p = {}
  written : p.state.written = p.read
  closed : p.state.control = .closed → p.read = message
  said : p.state.SaidClosed → p.state.control = .closed

/-- The `c`-th connection gets the `c`-th string, a connection that is not accepted yet is
untouched, and the bytes that remain to be written complete those that were sent. -/
structure ServerInv (C : SyncTcpServer.Config) (s : SyncTcpServer.State) : Prop where
  text : ∀ c text, (s.wires c).text = some text → text = C.pMakeString c
  generated : (∀ e, s.control ≠ .exited e) → s.generated = s.accepted
  untouched : ∀ c, s.accepted ≤ c → s.wires c = {}
  writing : ∀ client rest, s.control = .writing client rest →
    0 < s.accepted ∧ (s.wires s.current).sent ++ rest = C.pMakeString s.current

structure Inv (C : SyncTcpServer.Config) (s : State) : Prop where
  server : ServerInv C s.server
  carries : ∀ c, Carries (C.pMakeString c) (s.server.wires c) (s.peers c)
  shows : ∀ c, Shows (C.pMakeString c) (s.peers c)

theorem serverInv_init (C : SyncTcpServer.Config) :
    ServerInv C (SyncTcpServer.server C).init := by
  obtain ⟨out, hout⟩ := SyncTcpServer.server_init C
  rw [hout]
  exact ⟨by simp, fun _ => rfl, fun _ _ => rfl, by simp⟩

private theorem serverInv_modifyCurrent {C : SyncTcpServer.Config} {s : SyncTcpServer.State}
    (hI : ServerInv C s) (hacc : 0 < s.accepted) (f : SyncTcpServer.Wire → SyncTcpServer.Wire)
    (hf : ∀ w, (f w).text = w.text) :
    (∀ c text, ((s.modifyWire s.current f).wires c).text = some text → text = C.pMakeString c) ∧
      ∀ c, s.accepted ≤ c → (s.modifyWire s.current f).wires c = {} := by
  constructor
  · intro c text hc
    simp only [SyncTcpServer.modifyWire_wires] at hc
    split at hc
    · next he => exact he ▸ hI.text _ text (hf _ ▸ hc)
    · exact hI.text c text hc
  · intro c hc
    have hne : c ≠ s.current := by simp only [SyncTcpServer.State.current]; omega
    simpa [hne] using hI.untouched c hc

theorem serverInv_preserved (C : SyncTcpServer.Config) :
    (SyncTcpServer.server C).Preserves (ServerInv C) := by
  intro s e t hI h
  cases SyncTcpServer.step_outcome h with
  | unserved o e hctl => exact hI
  | rejected e hctl =>
      exact ⟨hI.text, by simp [SyncTcpServer.exit], hI.untouched, by simp [SyncTcpServer.exit]⟩
  | query client e out first hctl hq =>
      refine ⟨hI.text, by simp [SyncTcpServer.exit], ?_, by simp [SyncTcpServer.exit]⟩
      intro c hc
      exact hI.untouched c (Nat.le_of_succ_le hc)
  | taken client out hctl hq =>
      have hgen : s.generated = s.accepted := hI.generated (by simp [hctl])
      have hwire : s.wires s.accepted = {} := hI.untouched _ (Nat.le_refl _)
      refine ⟨?_, ?_, ?_, ?_⟩
      · intro c text hc
        simp only [SyncTcpServer.modifyWire_wires] at hc
        split at hc
        · next he => simpa [he, hgen] using hc.symm
        · exact hI.text c text hc
      · simp [hgen]
      · intro c hc
        have hlt : s.accepted < c := hc
        simpa [Nat.ne_of_gt hlt] using hI.untouched c (Nat.le_of_lt hlt)
      · intro client' rest hrest
        obtain ⟨rfl, rfl⟩ : client = client' ∧ C.pMakeString s.generated = rest := by
          simpa using hrest
        simp [SyncTcpServer.State.current, hwire, hgen]
  | sent client rest k hctl hpos hk =>
      obtain ⟨hacc, hrest⟩ := hI.writing client rest hctl
      obtain ⟨htext, hun⟩ := serverInv_modifyCurrent hI hacc
        (fun w => { w with sent := w.sent ++ rest.take k }) fun _ => rfl
      refine ⟨htext, fun _ => hI.generated (by simp [hctl]), hun, ?_⟩
      intro client' rest' h'
      obtain ⟨rfl, rfl⟩ : client = client' ∧ rest.drop k = rest' := by simpa using h'
      refine ⟨hacc, ?_⟩
      simpa [SyncTcpServer.State.current] using hrest
  | returned client out hctl hw =>
      obtain ⟨hacc, hrest⟩ := hI.writing client [] hctl
      obtain ⟨htext, hun⟩ := serverInv_modifyCurrent hI hacc
        (fun w => { w with closed := true }) fun _ => rfl
      exact ⟨htext, fun _ => hI.generated (by simp [hctl]), hun, by simp⟩
  | thrown client rest e hctl hw =>
      exact ⟨hI.text, by simp [SyncTcpServer.exit], hI.untouched, by simp [SyncTcpServer.exit]⟩

private theorem rest_eq_pending {message rest : Bytes} {w : SyncTcpServer.Wire}
    (T : Transfer UInt8) (hT : T.source = message) (hsent : w.sent = T.gone)
    (hrest : w.sent ++ rest = message) : rest = T.pending := by
  rw [← hT, hsent, ← T.gone_append_pending] at hrest
  exact List.append_cancel_left hrest

theorem Carries.send {message rest : Bytes} {w : SyncTcpServer.Wire} {p : Peer} {k : ℕ}
    (h : Carries message w p) (hrest : w.sent ++ rest = message) (hk : k ≤ rest.length) :
    Carries message { w with sent := w.sent ++ rest.take k } p := by
  obtain ⟨T, hT, hsent, hread, hclosed⟩ := h
  obtain rfl := rest_eq_pending T hT hsent hrest
  refine ⟨T.send k hk, hT, ?_, hread, ?_⟩
  · rw [T.send_gone, hsent]
  · intro hc
    rw [T.send_pending, hclosed hc, List.drop_nil]

theorem Carries.close {message : Bytes} {w : SyncTcpServer.Wire} {p : Peer}
    (h : Carries message w p) (hall : w.sent = message) :
    Carries message { w with closed := true } p := by
  obtain ⟨T, hT, hsent, hread, -⟩ := h
  refine ⟨T, hT, hsent, hread, fun _ => ?_⟩
  exact (rest_eq_pending T hT hsent (by rw [hall, List.append_nil])).symm

theorem Carries.receive {message : Bytes} {w : SyncTcpServer.Wire} {p : Peer} {k : ℕ}
    {t : TcpClient.State} (h : Carries message w p) (hk : k ≤ (w.sent.drop p.read.length).length) :
    Carries message w { state := t, read := p.read ++ (w.sent.drop p.read.length).take k } := by
  obtain ⟨T, hT, hsent, hread, hclosed⟩ := h
  rw [hsent, hread, ← T.inFlight_eq_drop] at hk ⊢
  exact ⟨T.receive k hk, hT, hsent, (T.receive_arrived k hk).symm, hclosed⟩

theorem Carries.complete {message : Bytes} {w : SyncTcpServer.Wire} {p : Peer}
    (h : Carries message w p) (hclosed : w.closed = true)
    (hread : w.sent.drop p.read.length = []) : p.read = message := by
  obtain ⟨T, hT, hsent, har, hp⟩ := h
  rw [hsent, har, ← T.inFlight_eq_drop] at hread
  rw [har, T.arrived_eq_source (hp hclosed) hread, hT]

theorem Carries.read_firstPart {message : Bytes} {w : SyncTcpServer.Wire} {p : Peer}
    (h : Carries message w p) : p.read <+: message := by
  obtain ⟨T, rfl, -, har, -⟩ := h
  exact har ▸ T.arrived_prefix

private theorem carries_server {C : SyncTcpServer.Config} {s t : SyncTcpServer.State}
    {e : SyncTcpServer.Event} {peers : ℕ → Peer} (hI : ServerInv C s)
    (hs : ∀ c, Carries (C.pMakeString c) (s.wires c) (peers c))
    (h : SyncTcpServer.step C s e = some t) (c : ℕ) :
    Carries (C.pMakeString c) (t.wires c) (peers c) := by
  cases SyncTcpServer.step_outcome h with
  | unserved o e hctl => exact hs c
  | rejected e hctl => exact hs c
  | query client e out first hctl hq => exact hs c
  | taken client out hctl hq =>
      simp only [SyncTcpServer.modifyWire_wires]
      split
      · next he => exact he ▸ hs c
      · exact hs c
  | sent client rest k hctl hpos hk =>
      simp only [SyncTcpServer.modifyWire_wires]
      split
      · next he => exact he ▸ (hs c).send (he ▸ (hI.writing client rest hctl).2) hk
      · exact hs c
  | returned client out hctl hw =>
      simp only [SyncTcpServer.modifyWire_wires]
      split
      · next he => exact he ▸ (hs c).close (he ▸ by simpa using (hI.writing client [] hctl).2)
      · exact hs c
  | thrown client rest e hctl hw => exact hs c

private theorem Shows.opened {message : Bytes} {p : Peer} (h : Shows message p)
    (o : TcpClient.Opening) (hctl : p.state.control = .connecting) : Shows message
      { p with state := TcpClient.guarded (TcpClient.openConnection o) p.state } := by
  obtain rfl := h.fresh hctl
  obtain ⟨t, ht⟩ : ∃ t, TcpClient.guarded (TcpClient.openConnection o) {} = t := ⟨_, rfl⟩
  obtain ⟨hw, hsaid, hc⟩ := TcpClient.guarded_openConnection ht
  show Shows message { state := TcpClient.guarded (TcpClient.openConnection o) {} }
  rw [ht]
  refine ⟨?_, hw, ?_, fun hs => (hsaid hs).elim⟩
  all_goals
    intro h1
    rcases hc with hc | ⟨e, hc⟩ <;> simp [hc] at h1

private theorem Shows.chunk {message : Bytes} {p : Peer} (h : Shows message p) (chunk : Bytes)
    (hctl : p.state.control = .reading) : Shows message
      { state := TcpClient.guarded (TcpClient.readLoopBody (.ok chunk)) p.state,
        read := p.read ++ chunk } := by
  rw [TcpClient.guarded_readLoopBody_chunk]
  refine ⟨by simp [hctl], ?_, by simp [hctl], ?_⟩
  · have hw := h.written
    simp only [TcpClient.State.written] at hw ⊢
    simp [hw, Output.written]
  · intro hs
    exact h.said (by simpa [TcpClient.State.SaidClosed] using hs)

private theorem Shows.ended {message : Bytes} {p : Peer} (h : Shows message p) (e : ErrorCode)
    (hctl : p.state.control = .reading) (hall : e = .eof → p.read = message) : Shows message
      { p with state := TcpClient.guarded (TcpClient.readLoopBody (.error e)) p.state } := by
  by_cases he : e = .eof
  · subst he
    rw [TcpClient.guarded_readLoopBody_eof]
    refine ⟨by simp, ?_, fun _ => hall rfl, fun _ => rfl⟩
    have hw := h.written
    simp only [TcpClient.State.written] at hw ⊢
    simp [hw, Output.written]
  · rw [TcpClient.guarded_readLoopBody_error he]
    refine ⟨by simp, h.written, by simp, ?_⟩
    intro hs
    have := h.said hs
    simp [hctl] at this

private theorem inv_setPeer {C : SyncTcpServer.Config} {s : State} {c : ℕ} {p : Peer}
    (hI : Inv C s) (hc : Carries (C.pMakeString c) (s.server.wires c) p)
    (hp : Shows (C.pMakeString c) p) : Inv C (s.setPeer c p) := by
  refine ⟨hI.server, ?_, ?_⟩
  · intro d
    by_cases hd : d = c
    · simpa [State.setPeer, hd] using hc
    · simpa [State.setPeer, hd] using hI.carries d
  · intro d
    by_cases hd : d = c
    · simpa [State.setPeer, hd] using hp
    · simpa [State.setPeer, hd] using hI.shows d

theorem inv_preserved (C : SyncTcpServer.Config) : (system C).Preserves (Inv C) := by
  intro s e t hI h
  have hstep : step C s e = some t := h
  cases e with
  | server e =>
      obtain ⟨u, hu, rfl⟩ := Option.map_eq_some_iff.mp hstep
      exact ⟨serverInv_preserved C _ e u hI.server hu,
        carries_server hI.server hI.carries hu, hI.shows⟩
  | connect c o =>
      simp only [step] at hstep
      split at hstep
      · next hctl =>
          obtain rfl := Option.some.inj hstep
          exact inv_setPeer hI (hI.carries c) ((hI.shows c).opened o hctl)
      · simp at hstep
  | readSome c k =>
      simp only [step] at hstep
      split at hstep
      · next hctl =>
          simp only [Option.ite_none_right_eq_some, Option.some.injEq] at hstep
          obtain ⟨⟨-, -, hk⟩, rfl⟩ := hstep
          exact inv_setPeer hI ((hI.carries c).receive hk) ((hI.shows c).chunk _ hctl)
      · simp at hstep
  | readError c e =>
      simp only [step] at hstep
      split at hstep
      · next hctl =>
          simp only [Option.ite_none_right_eq_some, Option.some.injEq] at hstep
          obtain ⟨hend, rfl⟩ := hstep
          refine inv_setPeer hI (hI.carries c) ((hI.shows c).ended e hctl ?_)
          intro he
          exact (hI.carries c).complete (hend he).1 (hend he).2
      · simp at hstep

theorem inv_init (C : SyncTcpServer.Config) : Inv C (system C).init where
  server := serverInv_init C
  carries c := by
    obtain ⟨out, hout⟩ := SyncTcpServer.server_init C
    simp only [system, hout]
    exact ⟨.start (C.pMakeString c), rfl, rfl, rfl, by simp⟩
  shows c := ⟨fun _ => rfl, rfl, by simp [system], by simp [system, TcpClient.State.SaidClosed]⟩

/-- In every reachable state every client has shown a first part of the string that was made
for its own connection, the whole of it if it reported the end of the stream, and what it
read before the error if the connection failed. -/
theorem client_shows_its_message (C : SyncTcpServer.Config) (es : List Event) {s : State}
    (hr : (system C).run es = some s) (c : ℕ) :
    (∀ text, (s.server.wires c).text = some text → text = C.pMakeString c) ∧
      (s.peers c).state.written <+: C.pMakeString c ∧
      ((s.peers c).state.SaidClosed → (s.peers c).state.written = C.pMakeString c) ∧
      ∀ e, (s.peers c).state.control = .failed e →
        (s.peers c).state.written = (s.peers c).read ∧ ¬ (s.peers c).state.SaidClosed := by
  have hI := (inv_preserved C).run (inv_init C) hr
  have hp := hI.shows c
  refine ⟨hI.server.text c, ?_, ?_, ?_⟩
  · rw [hp.written]
    exact (hI.carries c).read_firstPart
  · intro hs
    rw [hp.written, hp.closed (hp.said hs)]
  · intro e he
    refine ⟨hp.written, fun hs => ?_⟩
    have := hp.said hs
    simp [he] at this

/-- Two clients in a row: the first reads its three bytes in two chunks and the end of the
stream, the second loses its connection after one byte. -/
def twoClients : List Event :=
  [.connect 0 ⟨"::1", none, none, .steady 13⟩, .server (.accept (.ok (.steady 50000))),
    .server (.writeSome 1), .readSome 0 1, .server (.writeSome 2), .server .writeReturn,
    .server (.accept (.ok (.steady 50001))), .readSome 0 2,
    .connect 1 ⟨"::1", none, none, .steady 13⟩, .server (.writeSome 1), .readError 0 .eof,
    .readSome 1 1, .readError 1 (.system 104 "Connection reset by peer")]

def twoMessages : SyncTcpServer.Config :=
  .daytime fun k => if k = 0 then [77, 111, 110] else [84, 117]

theorem two_clients_show_their_messages :
    ∃ s, (system twoMessages).run twoClients = some s ∧
      (s.peers 0).state.written = [77, 111, 110] ∧
      (s.peers 1).state.written = [84] ∧ ¬ (s.peers 1).state.SaidClosed := by
  apply Exists.intro
  refine ⟨rfl, ?_, ?_⟩
  · exact (client_shows_its_message twoMessages twoClients rfl 0).2.2.1 (by decide)
  · exact (client_shows_its_message twoMessages twoClients rfl 1).2.2.2 _ rfl

end AsioSamples.TcpSystem
