import AsioSamples.Tcp.AsyncServer
import Mathlib.Algebra.GroupWithZero.Nat

/-!
# What one event does to the asynchronous TCP server

An accept ends in one of four ways: it is rejected, an endpoint query of `addressRequest`
throws, the closing of the socket throws, or the handler returns. Each has one equation for
the state it leaves behind, and `Outcome` collects them with the other events. The results
about runs use `Outcome` and never look into a handler.
-/

namespace AsioSamples.TcpServer

open Framework

theorem transmit_last (k : ℕ) (s : State) (ws : List Write) (w : Write)
    (hw : s.writes = ws ++ [w]) :
    transmit (s.writes.length - 1) k s =
      { s.modifyConn w.conn fun conn => { conn with
          received := conn.received ++
            s.memory.read (w.data + w.sent) (min k (w.size - w.sent)) } with
        writes := ws ++ [{ w with
          sent := w.sent + min k (w.size - w.sent)
          transferred := some (min k (w.size - w.sent)) }] } := by
  have hlen : s.writes.length - 1 = ws.length := by simp [hw]
  have hget : s.writes[ws.length]? = some w := by simp [hw]
  have hset (w' : Write) : s.writes.set ws.length w' = ws ++ [w'] := by simp [hw]
  simp only [transmit, hlen, hget, hset]

/-- What the last of the sends took, of so many bytes that remained before the first. -/
def lastTransfer : List ℕ → ℕ → Option ℕ → Option ℕ
  | [], _, transferred => transferred
  | k :: sends, remaining, _ => lastTransfer sends (remaining - k) (some (min k remaining))

theorem initialSends_eq (sends : List ℕ) (s : State) (ws : List Write) (w : Write)
    (hw : s.writes = ws ++ [w]) :
    initialSends sends s =
      { s.modifyConn w.conn fun conn => { conn with
          received := conn.received ++
            s.memory.read (w.data + w.sent) (min sends.sum (w.size - w.sent)) } with
        writes := ws ++ [{ w with
          sent := w.sent + min sends.sum (w.size - w.sent)
          transferred := lastTransfer sends (w.size - w.sent) w.transferred }] } := by
  induction sends generalizing s w with
  | nil =>
      simp [initialSends, lastTransfer, State.modifyConn, hw.symm]
  | cons k sends ih =>
      have hfold : initialSends (k :: sends) s =
          initialSends sends (transmit (s.writes.length - 1) k s) := rfl
      rw [hfold, transmit_last k s ws w hw,
        ih _ { w with
          sent := w.sent + min k (w.size - w.sent)
          transferred := some (min k (w.size - w.sent)) } rfl]
      have hrest : w.size - (w.sent + min k (w.size - w.sent)) = w.size - w.sent - k := by omega
      have hn : min k (w.size - w.sent) + min sends.sum (w.size - w.sent - k) =
          min (k + sends.sum) (w.size - w.sent) := by omega
      simp only [State.modifyConn, Function.update_self, Function.update_idem, List.sum_cons,
        lastTransfer, hrest, ← hn, Memory.read_add, List.append_assoc, Nat.add_assoc]

theorem addressRequest_query {C : Config} {c : ℕ} {a : Accepted} {e : ErrorCode}
    (h : a.client.queryFailure = some e) (s : State) :
    ∃ out, addressRequest C c a s = (.error e, { s with cout := out }) := by
  unfold addressRequest
  cases hl : a.client.localFailure with
  | some e' =>
      obtain rfl : e' = e := by simpa [Client.queryFailure, hl] using h
      refine ⟨s.cout, ?_⟩
      rw [Handler.bind_run_error _ (by rw [localInfo_run, hl])]
  | none =>
      have hr : a.client.remoteFailure = some e := by simpa [Client.queryFailure, hl] using h
      rw [Handler.bind_run_ok _ (by rw [localInfo_run, hl]), Handler.modify_bind_run,
        Handler.bind_run_error _ (by rw [remoteInfo_run, hr])]
      exact ⟨_, rfl⟩

def writing (C : Config) (this : ℕ) (sends : List ℕ) (s : State) : State :=
  initialSends sends (asyncWrite this (assignMessage C this s))

theorem writing_eq (C : Config) (this : ℕ) (sends : List ℕ) (s : State) :
    writing C this sends s =
      let text := C.pDataGen s.generated
      let stored := C.strings.assign s.generated s.memory s.message text
      { s.modifyConn this fun conn => { conn with
          text := some text, received := conn.received ++ text.take sends.sum } with
        memory := stored.1, message := ⟨stored.2, text.length⟩, generated := s.generated + 1,
        writes := s.writes ++ [⟨this, stored.2, text.length, min sends.sum text.length,
          lastTransfer sends text.length (startTransfer text.length)⟩] } := by
  rw [writing, initialSends_eq _ _ s.writes ⟨this, _, _, 0, _⟩ rfl]
  have hread := congrArg (List.take sends.sum)
    (C.strings.reads s.generated s.memory s.message (C.pDataGen s.generated))
  rw [Memory.read_take] at hread
  simp only [asyncWrite, assignMessage, State.modifyConn, Function.update_self,
    Function.update_idem, Nat.zero_add, Nat.add_zero, Nat.sub_zero, hread]

theorem writing_cout (C : Config) (this : ℕ) (sends : List ℕ) (s : State)
    (out : List String) :
    writing C this sends { s with cout := out } = { writing C this sends s with cout := out } := by
  simp only [writing_eq]
  rfl

theorem writing_isOpen (C : Config) (this : ℕ) (sends : List ℕ) (s : State) :
    ((writing C this sends s).conns this).isOpen = (s.conns this).isOpen := by
  simp [writing_eq, State.modifyConn]

theorem addressRequest_served {C : Config} {c : ℕ} {a : Accepted} {s : State}
    (h : a.client.queryFailure = none) (ho : (s.conns c).isOpen = true) :
    ∃ out, addressRequest C c a s =
      ((match a.client.closingFailure with | some e => .error e | none => .ok ()),
        { (writing C c a.sends s).modifyConn c fun conn => { conn with
            isOpen := (a.client.fails .shutdown).isSome } with cout := out }) := by
  have hq : a.client.localFailure = none ∧ a.client.remoteFailure = none := by
    simpa [Client.queryFailure, Option.or_eq_none_iff] using h
  unfold addressRequest
  rw [Handler.bind_run_ok _ (by rw [localInfo_run, hq.1]), Handler.modify_bind_run,
    Handler.bind_run_ok _ (by rw [remoteInfo_run, hq.2])]
  simp only [Handler.modify_bind_run, Handler.get_bind_run]
  have hw (out : List String) : initialSends a.sends (asyncWrite c (assignMessage C c
      { s with cout := out })) = { writing C c a.sends s with cout := out } :=
    writing_cout C c a.sends s out
  have hopen : ((writing C c a.sends s).conns c).isOpen = true := by
    rw [writing_isOpen, ho]
  simp only [print, hw, hopen, if_true]
  generalize writing C c a.sends s = s' at hopen
  have hsame : s'.modifyConn c (fun conn => { conn with isOpen := true }) = s' := by
    simp only [State.modifyConn, ← hopen, Function.update_eq_self]
  cases hs : a.client.fails .shutdown with
  | some e =>
      rw [Handler.bind_run_error _ (call_run_error hs _)]
      apply Exists.intro
      simp only [Client.closingFailure, hs, Option.some_or, Option.isSome_some]
      rw [hsame]
  | none =>
      rw [Handler.bind_run_ok _ (call_run_ok hs _), Handler.modify_bind_run]
      cases hc : a.client.fails .close with
      | some e =>
          rw [Handler.bind_run_error _ (call_run_error hc _)]
          apply Exists.intro
          simp only [Client.closingFailure, hs, hc, Option.none_or, Option.isSome_none]
          rfl
      | none =>
          rw [Handler.bind_run_ok _ (call_run_ok hc _)]
          apply Exists.intro
          simp only [Client.closingFailure, hs, hc, Option.none_or, Option.isSome_none]
          rfl

def listenLines (C : Config) : List String :=
  ["server has a listen socket '" ++ C.listenEndpoint.info ++ "/fd:" ++
    toString C.listenHandle ++ "' for listening connection.\n",
    "wait for connecting in port " ++ toString C.listenPort ++ "\n"]

theorem startAccept_eq (C : Config) (s : State) :
    startAccept C s = { s with
      conns := Function.update s.conns s.created { owners := 1 }, created := s.created + 1,
      accepting := s.accepting ++ [s.created], cout := s.cout ++ listenLines C } := by
  simp [startAccept, print, retain, release, State.modifyConn, listenLines]

theorem handleAccept_rejected (C : Config) (c : ℕ) (e : ErrorCode) (s : State) :
    handleAccept C c (.error e) s = (.ok (), release c (startAccept C
      (print ("error occurred: " ++ e.message ++ "\n") (retain c s)))) := rfl

theorem handleAccept_served {C : Config} {c : ℕ} {a : Accepted} {s t : State}
    (h : addressRequest C c a (retain c s) = (.ok (), t)) :
    handleAccept C c (.ok a) s = (.ok (), release c (startAccept C t)) := by
  show Handler.ensure (addressRequest C c a >>= fun _ => Handler.modify (startAccept C))
    (release c) (retain c s) = _
  rw [Handler.ensure_run, Handler.bind_run_ok _ h]
  rfl

theorem handleAccept_thrown {C : Config} {c : ℕ} {a : Accepted} {e : ErrorCode} {s t : State}
    (h : addressRequest C c a (retain c s) = (.error e, t)) :
    handleAccept C c (.ok a) s = (.error e, release c t) := by
  show Handler.ensure (addressRequest C c a >>= fun _ => Handler.modify (startAccept C))
    (release c) (retain c s) = _
  rw [Handler.ensure_run, Handler.bind_run_error _ h]

private theorem update_swap {c d : ℕ} (h : c < d) (conns : ℕ → TcpConnection)
    (x y : TcpConnection) :
    Function.update (Function.update conns d y) c x =
      Function.update (Function.update conns c x) d y :=
  Function.update_comm (Nat.ne_of_gt h) y x conns

theorem runAccept_rejected {C : Config} {c : ℕ} {e : ErrorCode} {s : State}
    (hconn : s.conns c = { owners := 1 }) (hc : c < s.created) :
    ∃ out, runAccept C c (.error e) s = { s with
      conns := Function.update (Function.update s.conns c {}) s.created { owners := 1 },
      created := s.created + 1, accepting := s.accepting ++ [s.created], cout := out,
      invoked := s.invoked ++ [(c, true)] } := by
  have hne := Nat.ne_of_lt hc
  apply Exists.intro
  simp only [runAccept, acceptSocket, handleAccept_rejected, startAccept_eq]
  simp [release, retain, invoke, print, State.modifyConn, hconn, hne, update_swap hc]
  rfl

theorem runAccept_query {C : Config} {c : ℕ} {a : Accepted} {e : ErrorCode} {s : State}
    (h : a.client.queryFailure = some e) (hconn : s.conns c = { owners := 1 }) :
    ∃ out, runAccept C c (.ok a) s = { s with
      conns := Function.update s.conns c { client := some a.client }, left := some e,
      cout := out, cerr := s.cerr ++ [e], invoked := s.invoked ++ [(c, true)] } := by
  obtain ⟨out, hr⟩ := addressRequest_query h
    (retain c (invoke c (acceptSocket c (.ok a) s))) (C := C) (c := c)
  refine ⟨out, ?_⟩
  simp only [runAccept, handleAccept_thrown hr]
  simp [release, retain, invoke, acceptSocket, State.modifyConn, hconn]

/-- What `addressRequest` and the end of its handler make of the connection it served. -/
def servedConn (C : Config) (a : Accepted) (s : State) : TcpConnection where
  client := some a.client
  text := some (C.pDataGen s.generated)
  received := (C.pDataGen s.generated).take a.sends.sum

def servedWrite (C : Config) (c : ℕ) (a : Accepted) (s : State) : Write :=
  let text := C.pDataGen s.generated
  ⟨c, (C.strings.assign s.generated s.memory s.message text).2, text.length,
    min a.sends.sum text.length, lastTransfer a.sends text.length (startTransfer text.length)⟩

def stored (C : Config) (s : State) : State :=
  let text := C.pDataGen s.generated
  let stored := C.strings.assign s.generated s.memory s.message text
  { s with memory := stored.1, message := ⟨stored.2, text.length⟩, generated := s.generated + 1 }

theorem runAccept_closing {C : Config} {c : ℕ} {a : Accepted} {e : ErrorCode} {s : State}
    (h : a.client.queryFailure = none) (hcl : a.client.closingFailure = some e)
    (hconn : s.conns c = { owners := 1 }) :
    ∃ out, runAccept C c (.ok a) s = { stored C s with
      conns := Function.update s.conns c (servedConn C a s), left := some e, cout := out,
      writes := s.writes ++ [servedWrite C c a s], cerr := s.cerr ++ [e],
      invoked := s.invoked ++ [(c, true)] } := by
  obtain ⟨out, hr⟩ := addressRequest_served (C := C) (c := c) h
    (s := retain c (invoke c (acceptSocket c (.ok a) s)))
    (by simp [retain, invoke, acceptSocket, State.modifyConn])
  rw [hcl] at hr
  refine ⟨out, ?_⟩
  simp only [runAccept, handleAccept_thrown hr]
  simp [release, retain, invoke, acceptSocket, State.modifyConn, hconn, writing_eq, servedConn,
    servedWrite, stored]

theorem runAccept_served {C : Config} {c : ℕ} {a : Accepted} {s : State}
    (h : a.client.queryFailure = none) (hcl : a.client.closingFailure = none)
    (hconn : s.conns c = { owners := 1 }) (hc : c < s.created) :
    ∃ out, runAccept C c (.ok a) s = { stored C s with
      conns := Function.update (Function.update s.conns c (servedConn C a s)) s.created
        { owners := 1 },
      created := s.created + 1, accepting := s.accepting ++ [s.created], cout := out,
      writes := s.writes ++ [servedWrite C c a s], invoked := s.invoked ++ [(c, true)] } := by
  obtain ⟨out, hr⟩ := addressRequest_served (C := C) (c := c) h
    (s := retain c (invoke c (acceptSocket c (.ok a) s)))
    (by simp [retain, invoke, acceptSocket, State.modifyConn])
  rw [hcl] at hr
  have hne := Nat.ne_of_lt hc
  refine ⟨out ++ listenLines C, ?_⟩
  simp only [runAccept, handleAccept_served hr, startAccept_eq]
  simp [release, retain, invoke, acceptSocket, State.modifyConn, hconn, writing_eq, servedConn,
    servedWrite, stored, hne, update_swap hc]

/-- What holds between two handlers: the outstanding accept alone owns the newest connection,
no other connection has an owner, every socket is closed, and no write belongs to the
connection that still waits for its accept. -/
structure Inv (s : State) : Prop where
  armed : s.left = none → ∃ c, s.accepting = [c] ∧ s.created = c + 1 ∧ s.conns c = { owners := 1 }
  stopped : s.left ≠ none → s.accepting = []
  unowned : ∀ c, c ∉ s.accepting → (s.conns c).owners = 0
  closed : ∀ c, (s.conns c).isOpen = false
  written : ∀ w ∈ s.writes, w.conn < s.created ∧ w.conn ∉ s.accepting

/-- One event of the server, as a relation between the states before and after it. -/
inductive Outcome (C : Config) (s : State) : Event → State → Prop where
  | unserved (o) (hleft : s.left ≠ none) : Outcome C s (.accept o) s
  | rejected (c : ℕ) (e : ErrorCode) (out) (hleft : s.left = none) (hacc : s.accepting = [c])
      (hnew : s.created = c + 1) : Outcome C s (.accept (.error e)) { s with
        conns := Function.update (Function.update s.conns c {}) s.created { owners := 1 },
        created := s.created + 1, accepting := [s.created], cout := out,
        invoked := s.invoked ++ [(c, true)] }
  | query (c : ℕ) (a : Accepted) (e : ErrorCode) (out) (hleft : s.left = none)
      (hacc : s.accepting = [c]) (hnew : s.created = c + 1)
      (hq : a.client.queryFailure = some e) : Outcome C s (.accept (.ok a)) { s with
        conns := Function.update s.conns c { client := some a.client }, accepting := [],
        left := some e, cout := out, cerr := s.cerr ++ [e], invoked := s.invoked ++ [(c, true)] }
  | closing (c : ℕ) (a : Accepted) (e : ErrorCode) (out) (hleft : s.left = none)
      (hacc : s.accepting = [c]) (hnew : s.created = c + 1) (hq : a.client.queryFailure = none)
      (hcl : a.client.closingFailure = some e) : Outcome C s (.accept (.ok a)) { stored C s with
        conns := Function.update s.conns c (servedConn C a s), accepting := [], left := some e,
        cout := out, writes := s.writes ++ [servedWrite C c a s], cerr := s.cerr ++ [e],
        invoked := s.invoked ++ [(c, true)] }
  | served (c : ℕ) (a : Accepted) (out) (hleft : s.left = none) (hacc : s.accepting = [c])
      (hnew : s.created = c + 1) (hq : a.client.queryFailure = none)
      (hcl : a.client.closingFailure = none) : Outcome C s (.accept (.ok a)) { stored C s with
        conns := Function.update (Function.update s.conns c (servedConn C a s)) s.created
          { owners := 1 },
        created := s.created + 1, accepting := [s.created], cout := out,
        writes := s.writes ++ [servedWrite C c a s], invoked := s.invoked ++ [(c, true)] }
  | complete (i : ℕ) (w : Write) (hleft : s.left = none) (hw : s.writes[i]? = some w)
      (hend : ¬ w.Continues) : Outcome C s (.writeComplete i) { s with
        writes := s.writes.eraseIdx i, invoked := s.invoked ++ [(w.conn, false)] }
  | dangling (i : ℕ) (w : Write) (hleft : s.left = none) (hw : s.writes[i]? = some w)
      (hcont : w.Continues) : Outcome C s (.writeComplete i) { s with
        writes := s.writes.set i { w with transferred := none }, undefined := true,
        invoked := s.invoked ++ [(w.conn, false)] }

theorem Inv.write_unowned {s : State} (hI : Inv s) {w : Write} (hw : w ∈ s.writes) :
    (s.conns w.conn).owners = 0 :=
  hI.unowned w.conn (hI.written w hw).2

theorem step_writeComplete {C : Config} {s : State} {i : ℕ} {w : Write} (hI : Inv s)
    (hleft : s.left = none) (hw : s.writes[i]? = some w) :
    step C s (.writeComplete i) = if w.Continues then
        some { s with
          writes := s.writes.set i { w with transferred := none }, undefined := true,
          invoked := s.invoked ++ [(w.conn, false)] }
      else some { s with
        writes := s.writes.eraseIdx i, invoked := s.invoked ++ [(w.conn, false)] } := by
  have howner := hI.write_unowned (List.mem_of_getElem? hw)
  simp only [step, hleft, hw, hI.closed w.conn, Bool.false_eq_true, not_false_eq_true, or_true,
    if_true]
  unfold writeOp
  split
  · simp [invoke, howner, hleft]
  · simp [invoke, howner, hleft]

theorem step_outcome {C : Config} {s t : State} {e : Event} (hI : Inv s)
    (h : step C s e = some t) : Outcome C s e t := by
  cases e with
  | accept o =>
      cases hleft : s.left with
      | some err =>
          obtain rfl : s = t := by simpa [step, hleft] using h
          exact .unserved o (by simp [hleft])
      | none =>
          obtain ⟨c, hacc, hnew, hc⟩ := hI.armed hleft
          have ht : runAccept C c o { s with accepting := [] } = t := by
            simpa [step, hleft, hacc] using h
          have hlt : c < s.created := by omega
          subst ht
          cases o with
          | error e =>
              obtain ⟨out, ht⟩ := runAccept_rejected (C := C) (e := e)
                (s := { s with accepting := [] }) hc hlt
              rw [ht]
              exact Outcome.rejected (C := C) c e out hleft hacc hnew
          | ok a =>
              cases hq : a.client.queryFailure with
              | some e =>
                  obtain ⟨out, ht⟩ := runAccept_query (C := C) hq
                    (s := { s with accepting := [] }) hc
                  rw [ht]
                  exact Outcome.query (C := C) c a e out hleft hacc hnew hq
              | none =>
                  cases hcl : a.client.closingFailure with
                  | some e =>
                      obtain ⟨out, ht⟩ := runAccept_closing (C := C) hq hcl
                        (s := { s with accepting := [] }) hc
                      rw [ht]
                      exact Outcome.closing (C := C) c a e out hleft hacc hnew hq hcl
                  | none =>
                      obtain ⟨out, ht⟩ := runAccept_served (C := C) hq hcl
                        (s := { s with accepting := [] }) hc hlt
                      rw [ht]
                      exact Outcome.served (C := C) c a out hleft hacc hnew hq hcl
  | transmit i k =>
      exfalso
      cases hw : s.writes[i]? with
      | none => simp [step, hw] at h
      | some w => simp [step, hw, hI.closed w.conn] at h
  | writeComplete i =>
      cases hleft : s.left with
      | some err => simp [step, hleft] at h
      | none =>
          cases hw : s.writes[i]? with
          | none => simp [step, hleft, hw] at h
          | some w =>
              rw [step_writeComplete hI hleft hw] at h
              split at h
              · rename_i hcont
                obtain rfl := Option.some.inj h
                exact .dangling i w hleft hw hcont
              · rename_i hend
                obtain rfl := Option.some.inj h
                exact .complete i w hleft hw hend

theorem server_init (C : Config) :
    (server C).init = { conns := Function.update (fun _ => {}) 0 { owners := 1 }, created := 1
                        accepting := [0], cout := listenLines C } := startAccept_eq C {}

theorem inv_init (C : Config) : Inv (server C).init := by
  rw [server_init]
  refine ⟨fun _ => ⟨0, rfl, rfl, by simp⟩, by simp, ?_, ?_, by simp⟩
  · intro c hc
    have h0 : c ≠ 0 := by simpa using hc
    simp [h0]
  · intro c
    by_cases h0 : c = 0 <;> simp [h0]

theorem inv_preserved (C : Config) : (server C).Preserves Inv := by
  intro s e t hI h
  have hold (c : ℕ) (hacc : s.accepting = [c]) (d : ℕ) (hd : d ≠ c) : (s.conns d).owners = 0 :=
    hI.unowned d (by simpa [hacc] using hd)
  cases step_outcome hI h with
  | unserved o hleft => exact hI
  | rejected c e out hleft hacc hnew =>
      refine ⟨fun _ => ⟨s.created, rfl, rfl, by simp⟩, by simp [hleft], ?_, ?_, ?_⟩
      · intro d hd
        have hd' : d ≠ s.created := by simpa using hd
        by_cases hdc : d = c
        · simp [hdc, hnew]
        · simpa [hd', hdc] using hold c hacc d hdc
      · intro d
        by_cases hd' : d = s.created
        · simp [hd']
        · by_cases hdc : d = c
          · simp [hdc, hnew]
          · simpa [hd', hdc] using hI.closed d
      · intro w hw
        have h1 := (hI.written w hw).1
        exact ⟨Nat.lt_succ_of_lt h1, by simpa using Nat.ne_of_lt h1⟩
  | query c a e out hleft hacc hnew hq =>
      refine ⟨by simp, fun _ => rfl, ?_, ?_, ?_⟩
      · intro d _
        by_cases hdc : d = c
        · simp [hdc]
        · simpa [hdc] using hold c hacc d hdc
      · intro d
        by_cases hdc : d = c
        · simp [hdc]
        · simpa [hdc] using hI.closed d
      · intro w hw
        exact ⟨(hI.written w hw).1, by simp⟩
  | closing c a e out hleft hacc hnew hq hcl =>
      refine ⟨by simp, fun _ => rfl, ?_, ?_, ?_⟩
      · intro d _
        by_cases hdc : d = c
        · simp [hdc, servedConn]
        · simpa [hdc] using hold c hacc d hdc
      · intro d
        by_cases hdc : d = c
        · simp [hdc, servedConn]
        · simpa [hdc] using hI.closed d
      · intro w hw
        refine ⟨?_, by simp⟩
        rcases List.mem_append.mp hw with hw | hw
        · exact (hI.written w hw).1
        · obtain rfl : w = servedWrite C c a s := by simpa using hw
          exact hnew ▸ Nat.lt_succ_self c
  | served c a out hleft hacc hnew hq hcl =>
      refine ⟨fun _ => ⟨s.created, rfl, rfl, by simp⟩, by simp [stored, hleft], ?_, ?_, ?_⟩
      · intro d hd
        have hd' : d ≠ s.created := by simpa using hd
        by_cases hdc : d = c
        · simp [hdc, hnew, servedConn]
        · simpa [hd', hdc] using hold c hacc d hdc
      · intro d
        by_cases hd' : d = s.created
        · simp [hd']
        · by_cases hdc : d = c
          · simp [hdc, hnew, servedConn]
          · simpa [hd', hdc] using hI.closed d
      · intro w hw
        have hlt : w.conn < s.created := by
          rcases List.mem_append.mp hw with hw | hw
          · exact (hI.written w hw).1
          · obtain rfl : w = servedWrite C c a s := by simpa using hw
            exact hnew ▸ Nat.lt_succ_self c
        exact ⟨Nat.lt_succ_of_lt hlt, by simpa using Nat.ne_of_lt hlt⟩
  | complete i w hleft hw hend =>
      exact ⟨hI.armed, hI.stopped, hI.unowned, hI.closed,
        fun w' hw' => hI.written w' (List.mem_of_mem_eraseIdx hw')⟩
  | dangling i w hleft hw hcont =>
      refine ⟨hI.armed, hI.stopped, hI.unowned, hI.closed, fun w' hw' => ?_⟩
      rcases List.mem_or_eq_of_mem_set hw' with hold' | rfl
      · exact hI.written w' hold'
      · exact hI.written w (List.mem_of_getElem? hw)

end AsioSamples.TcpServer
