import AsioSamples.Udp.AsyncSteps
import Mathlib.Data.List.InsertIdx

/-!
# Which replies of the asynchronous UDP server carry their own string

All sends view the one static `message`, and the next request overwrites it. A send whose
bytes are taken while it is the newest one shows its own string. One that is taken later
shows whatever the string implementation left behind, which is its own string only by luck;
no luck is needed for the empty string.
-/

namespace AsioSamples.UdpServer

open Framework

/-- Every reply that left the server carries the string of the `sendData` that initiated it. -/
def RepliesIntact (gen : ℕ → Bytes) (s : State) : Prop :=
  ∀ d ∈ s.departed, d.bytes = gen d.seq

/-- The bytes of a send are taken before a later request is handled, or there are none. -/
def TakesNewest (gen : ℕ → Bytes) (s : State) (e : Event) : Prop :=
  ∀ i w, e = .take i → s.sends[i]? = some w → w.seq + 1 = s.generated ∨ gen w.seq = []

/-- What holds under every string implementation: the message object holds the newest string,
and the newest send is a view of it. -/
structure Views (C : Config) (s : State) : Prop where
  numbered : s.generated = s.initiated.length
  current : ∀ k, s.generated = k + 1 → s.message.contents s.memory = C.pDataGen k
  sized : ∀ w ∈ s.sends, w.seq < s.generated ∧ w.size = (C.pDataGen w.seq).length
  newest : ∀ w ∈ s.sends, w.seq + 1 = s.generated →
    w.data = s.message.data ∧ w.size = s.message.size

theorem views_init (C : Config) : Views C (server C).init := by
  obtain ⟨out, hout⟩ := server_init C
  rw [hout]
  exact ⟨rfl, by simp, by simp, by simp⟩

/-- Nothing is added to the views, and the memory behind them stays as it was. -/
structure SameViews (s t : State) : Prop where
  generated : t.generated = s.generated
  initiated : t.initiated = s.initiated
  message : t.message = s.message
  memory : t.memory = s.memory
  sends : ∀ v ∈ t.sends, ∃ u ∈ s.sends, v.seq = u.seq ∧ v.data = u.data ∧ v.size = u.size

theorem step_views {C : Config} {s t : State} {e : Event} (h : step C s e = some t) :
    SameViews s t ∨ ∃ rest acc out, t = served C s rest acc out := by
  cases step_outcome h with
  | arrived o n hrec =>
      left
      cases o <;> exact ⟨rfl, rfl, rfl, rfl, fun v hv => ⟨v, hv, rfl, rfl, rfl⟩⟩
  | failed e rest out hready =>
      exact .inl ⟨rfl, rfl, rfl, rfl, fun v hv => ⟨v, hv, rfl, rfl, rfl⟩⟩
  | served len rest acc out hready hacc => exact .inr ⟨rest, acc, out, rfl⟩
  | taken i w hw hpend =>
      refine .inl ⟨rfl, rfl, rfl, rfl, fun v hv => ?_⟩
      obtain ⟨u, hu, h1, -, h3, h4⟩ := mem_set_status hw hv
      exact ⟨u, hu, h1, h3, h4⟩
  | sendFailed i w e hw hpend =>
      refine .inl ⟨rfl, rfl, rfl, rfl, fun v hv => ?_⟩
      obtain ⟨u, hu, h1, -, h3, h4⟩ := mem_set_status hw hv
      exact ⟨u, hu, h1, h3, h4⟩
  | sendHandled i w hw hpend =>
      exact .inl ⟨rfl, rfl, rfl, rfl,
        fun v hv => ⟨v, List.mem_of_mem_eraseIdx hv, rfl, rfl, rfl⟩⟩

private theorem Views.same {C : Config} {s t : State} (h : Views C s) (hst : SameViews s t) :
    Views C t := by
  refine ⟨by rw [hst.generated, hst.initiated, h.numbered], ?_, ?_, ?_⟩
  · rw [hst.generated, hst.message, hst.memory]
    exact h.current
  · intro v hv
    obtain ⟨u, hu, hseq, -, hsize⟩ := hst.sends v hv
    rw [hseq, hsize, hst.generated]
    exact h.sized u hu
  · intro v hv
    obtain ⟨u, hu, hseq, hdata, hsize⟩ := hst.sends v hv
    rw [hseq, hsize, hdata, hst.generated, hst.message]
    exact h.newest u hu

private theorem views_served {C : Config} {s : State} (h : Views C s)
    (rest : List (Except ErrorCode ℕ)) (acc : List Access) (out : List String) :
    Views C (served C s rest acc out) := by
  refine ⟨by simp [served, h.numbered], ?_, ?_, ?_⟩
  · intro k hk
    obtain rfl : s.generated = k := Nat.succ.inj hk
    exact assignMessage_contents C s
  · intro w hw
    rcases List.mem_append.mp hw with hw | hw
    · exact ⟨Nat.lt_succ_of_lt (h.sized w hw).1, (h.sized w hw).2⟩
    · obtain rfl := List.mem_singleton.mp hw
      rw [← h.numbered]
      exact ⟨Nat.lt_succ_self _, rfl⟩
  · intro w hw hseq
    rcases List.mem_append.mp hw with hw | hw
    · have hlt := (h.sized w hw).1
      have heq : w.seq = s.generated := Nat.succ.inj hseq
      omega
    · obtain rfl := List.mem_singleton.mp hw
      exact ⟨rfl, rfl⟩

theorem views_preserved (C : Config) : (server C).Preserves (Views C) := by
  intro s e t h ht
  rcases step_views ht with hst | ⟨rest, acc, out, rfl⟩
  · exact h.same hst
  · exact views_served h rest acc out

theorem Views.read {C : Config} {s : State} (h : Views C s) {w : Send} (hw : w ∈ s.sends)
    (hnew : w.seq + 1 = s.generated ∨ C.pDataGen w.seq = []) :
    s.memory.read w.data w.size = C.pDataGen w.seq := by
  rcases hnew with hnew | hempty
  · obtain ⟨hdata, hsize⟩ := h.newest w hw hnew
    rw [hdata, hsize]
    exact h.current w.seq hnew.symm
  · rw [(h.sized w hw).2, hempty]
    rfl

private theorem repliesIntact_step {C : Config} {s t : State} {e : Event} (hV : Views C s)
    (hs : RepliesIntact C.pDataGen s) (hC : TakesNewest C.pDataGen s e)
    (h : step C s e = some t) : RepliesIntact C.pDataGen t := by
  cases step_outcome h with
  | arrived o n hrec => cases o <;> exact hs
  | failed e rest out hready => exact hs
  | served len rest acc out hready hacc => exact hs
  | taken i w hw hpend =>
      intro d hd
      rcases List.mem_append.mp hd with hd | hd
      · exact hs d hd
      · obtain rfl := List.mem_singleton.mp hd
        exact hV.read (List.mem_of_getElem? hw) (hC i w rfl hw)
  | sendFailed i w e hw hpend => exact hs
  | sendHandled i w hw hpend => exact hs

/-- Where strings move to fresh storage, an older send shows spoiled bytes. -/
structure Spoiled (C : Config) (s : State) : Prop where
  below : ∀ w ∈ s.sends, w.seq + 1 < s.generated → w.data + w.size ≤ s.message.data
  spoiled : ∀ w ∈ s.sends, w.seq + 1 < s.generated → C.pDataGen w.seq ≠ [] →
    s.memory.read w.data w.size ≠ C.pDataGen w.seq

private theorem map_add_one_ne {text : Bytes} (h : text ≠ []) : text.map (· + 1) ≠ text := by
  cases text with
  | nil => exact (h rfl).elim
  | cons b text => simp

def Config.withStrings (C : Config) (strings : StringImpl UInt8) : Config :=
  { C with strings := strings }

private theorem spoiled_served {C : Config} {s : State} (hV : Views C s) (h : Spoiled C s)
    (hmove : C.strings = .moving (· + 1)) (rest : List (Except ErrorCode ℕ)) (acc : List Access)
    (out : List String) : Spoiled C (served C s rest acc out) := by
  have hdata : (served C s rest acc out).message.data = s.message.data + s.message.size := by
    simp [served, assignMessage, hmove, StringImpl.moving]
  have hmem : (served C s rest acc out).memory =
      ((StringImpl.moving (· + 1)).assign s.generated s.memory s.message
        (C.pDataGen s.generated)).1 := by
    simp [served, assignMessage, hmove]
  have hold : ∀ w ∈ (served C s rest acc out).sends,
      w.seq + 1 < (served C s rest acc out).generated → w ∈ s.sends := by
    intro w hw hlt
    rcases List.mem_append.mp hw with hw | hw
    · exact hw
    · obtain rfl := List.mem_singleton.mp hw
      have hlt' : s.initiated.length + 1 < s.generated + 1 := hlt
      have := hV.numbered
      omega
  constructor
  · intro w hw hlt
    have hws := hold w hw hlt
    have hlt' : w.seq + 1 < s.generated + 1 := hlt
    rw [hdata]
    by_cases hnew : w.seq + 1 = s.generated
    · obtain ⟨h1, h2⟩ := hV.newest w hws hnew
      omega
    · have := h.below w hws (by omega)
      omega
  · intro w hw hlt hne
    have hws := hold w hw hlt
    have hlt' : w.seq + 1 < s.generated + 1 := hlt
    rw [hmem]
    by_cases hnew : w.seq + 1 = s.generated
    · obtain ⟨h1, h2⟩ := hV.newest w hws hnew
      have hread := hV.read hws (.inl hnew)
      rw [h1, h2] at hread ⊢
      rw [StringImpl.moving_read_left, hread]
      exact map_add_one_ne hne
    · rw [StringImpl.moving_read_below _ _ _ _ _ (h.below w hws (by omega))]
      exact h.spoiled w hws (by omega) hne

private theorem Spoiled.same {C : Config} {s t : State} (h : Spoiled C s)
    (hst : SameViews s t) : Spoiled C t := by
  constructor
  all_goals
    intro v hv
    obtain ⟨u, hu, hseq, hdata, hsize⟩ := hst.sends v hv
    rw [hseq, hdata, hsize, hst.generated]
  · rw [hst.message]
    exact h.below u hu
  · rw [hst.memory]
    exact h.spoiled u hu

theorem spoiled_preserved {C : Config} (hmove : C.strings = .moving (· + 1)) :
    (server C).Preserves fun s => Views C s ∧ Spoiled C s := by
  intro s e t h ht
  refine ⟨views_preserved C s e t h.1 ht, ?_⟩
  rcases step_views ht with hst | ⟨rest, acc, out, rfl⟩
  · exact h.2.same hst
  · exact spoiled_served h.1 h.2 hmove rest acc out

private theorem takesNewest_of_intact {C : Config} {s t : State} {e : Event}
    (h : Views C s ∧ Spoiled C s) (hst : step C s e = some t)
    (ht : RepliesIntact C.pDataGen t) : TakesNewest C.pDataGen s e := by
  rintro i w rfl hw
  cases step_outcome hst with
  | taken i w' hw' hpend =>
      obtain rfl : w' = w := Option.some.inj (hw'.symm.trans hw)
      have hmem := List.mem_of_getElem? hw
      have hread : s.memory.read w'.data w'.size = C.pDataGen w'.seq :=
        ht ⟨w'.seq, w'.destination, s.memory.read w'.data w'.size⟩ (by simp [takeBytes])
      by_cases hnew : w'.seq + 1 = s.generated
      · exact .inl hnew
      · have hlt := (h.1.sized w' hmem).1
        refine .inr (Classical.byContradiction fun hne => ?_)
        exact h.2.spoiled w' hmem (by omega) hne hread

/-- Two states that differ in what the memory holds at most. -/
structure SameBooks (s u : State) : Prop where
  receiving : s.receiving = u.receiving
  ready : s.ready = u.ready
  generated : s.generated = u.generated
  initiated : s.initiated.length = u.initiated.length
  sends : s.sends.map (fun w => (w.seq, w.status)) = u.sends.map fun w => (w.seq, w.status)

private theorem SameBooks.send {s u : State} (h : SameBooks s u) {i : ℕ} {w : Send}
    (hw : u.sends[i]? = some w) :
    ∃ v, s.sends[i]? = some v ∧ v.seq = w.seq ∧ v.status = w.status := by
  have hi := congrArg (fun l => l[i]?) h.sends
  simp only [List.getElem?_map, hw, Option.map_some, Option.map_eq_some_iff] at hi
  obtain ⟨v, hv, he⟩ := hi
  exact ⟨v, hv, congrArg Prod.fst he, congrArg Prod.snd he⟩

private theorem SameBooks.set {s u : State} (h : SameBooks s u) {i : ℕ} {v w : Send}
    (hseq : v.seq = w.seq) (status : SendStatus) :
    (s.sends.set i { v with status := status }).map (fun w => (w.seq, w.status)) =
      (u.sends.set i { w with status := status }).map fun w => (w.seq, w.status) := by
  simp only [List.map_set, h.sends, hseq]

private theorem sameBooks_step {C D : Config} {s u v : State} {e : Event} (h : SameBooks s u)
    (hv : step D u e = some v) : ∃ t, step C s e = some t ∧ SameBooks t v := by
  cases step_outcome hv with
  | arrived o n hrec =>
      refine ⟨complete o { s with receiving := n }, by simp [step, h.receiving, hrec], ?_⟩
      cases o <;> exact ⟨rfl, by simp [complete, h.ready], h.generated, h.initiated, h.sends⟩
  | failed e rest out hready =>
      obtain ⟨out', hout⟩ := handleReceive_error C e { s with ready := rest }
      refine ⟨_, by simp only [step, h.ready, hready, hout]; rfl, ?_⟩
      exact ⟨by simp [h.receiving], rfl, h.generated, h.initiated, h.sends⟩
  | served len rest acc out hready hacc =>
      obtain ⟨acc', out', -, hout⟩ := handleReceive_ok C len { s with ready := rest }
      refine ⟨_, by simp only [step, h.ready, hready, hout]; rfl, ?_⟩
      refine ⟨by simp [served, h.receiving], rfl, by simp [served, h.generated],
        by simp [served, h.initiated], ?_⟩
      simp [served, h.sends, h.initiated]
  | taken i w hw hpend =>
      obtain ⟨w', hw', hseq, hstatus⟩ := h.send hw
      refine ⟨takeBytes i w' s, by simp [step, hw', hstatus, hpend], ?_⟩
      exact ⟨h.receiving, h.ready, h.generated, h.initiated, h.set hseq .taken⟩
  | sendFailed i w e hw hpend =>
      obtain ⟨w', hw', hseq, hstatus⟩ := h.send hw
      refine ⟨_, by simp only [step, hw', hstatus, hpend, if_true]; rfl, ?_⟩
      exact ⟨h.receiving, h.ready, h.generated, h.initiated, h.set hseq (.failed e)⟩
  | sendHandled i w hw hpend =>
      obtain ⟨w', hw', hseq, hstatus⟩ := h.send hw
      refine ⟨_, by simp only [step, hw', hstatus, ne_eq, hpend, not_false_iff, if_true]; rfl, ?_⟩
      refine ⟨h.receiving, h.ready, h.generated, h.initiated, ?_⟩
      simp only [← List.eraseIdx_map, h.sends]

private theorem allSteps_withStrings (C D : Config) (hgen : C.pDataGen = D.pDataGen)
    {es : List Event} (h : (server C).AllSteps (TakesNewest C.pDataGen) (server C).init es) :
    (server D).AllSteps (TakesNewest D.pDataGen) (server D).init es := by
  refine Machine.AllSteps.transfer (R := SameBooks) (fun s u e v => sameBooks_step) ?_ ?_ h
  · intro s u e hR hC i w he hw
    obtain ⟨w', hw', hseq, -⟩ := hR.send hw
    rw [← hgen, ← hseq, ← hR.generated]
    exact hC i w' he hw'
  · obtain ⟨out, hout⟩ := server_init C
    obtain ⟨out', hout'⟩ := server_init D
    rw [hout, hout']
    exact ⟨rfl, rfl, rfl, rfl, rfl⟩

/-- Every reply carries its own string, whatever the string implementation does, exactly when
the bytes of every send are taken before a later request is handled, or there are none. -/
theorem repliesIntact_iff_takesNewest (C : Config) (es : List Event) :
    (∀ strings, (server (C.withStrings strings)).Throughout (RepliesIntact C.pDataGen)
        (server (C.withStrings strings)).init es) ↔
      (server C).AllSteps (TakesNewest C.pDataGen) (server C).init es := by
  have hstart (D : Config) : RepliesIntact C.pDataGen (server D).init := by
    obtain ⟨out, hout⟩ := server_init D
    rw [hout]
    simp [RepliesIntact]
  constructor
  · intro h
    refine allSteps_withStrings (C.withStrings (.moving (· + 1))) C rfl ?_
    refine (h (.moving (· + 1))).allSteps (spoiled_preserved rfl) ?_ ?_
    · exact fun s e t hs ht hst => takesNewest_of_intact hs hst ht
    · obtain ⟨out, hout⟩ := server_init (C.withStrings (.moving (· + 1)))
      refine ⟨views_init _, ?_⟩
      rw [hout]
      exact ⟨by simp, by simp⟩
  · intro h strings
    refine Machine.AllSteps.throughout (views_preserved (C.withStrings strings)) ?_
      (views_init _) (hstart _) (allSteps_withStrings C (C.withStrings strings) rfl h)
    exact fun s e t hs hp hC hst => repliesIntact_step (C := C.withStrings strings) hs hp hC hst

/-- Two requests are handled before the first reply is taken: the first client gets the string
made for the second one. -/
theorem reply_overwritten_by_next_request :
    ¬ (server (.daytime fun k => [k.toUInt8])).Throughout
      (RepliesIntact fun k => [k.toUInt8]) (server (.daytime fun k => [k.toUInt8])).init
      [.arrive (.ok ⟨⟨"10.0.0.1", 5001⟩, []⟩), .handleReceive,
        .arrive (.ok ⟨⟨"10.0.0.2", 5002⟩, []⟩), .handleReceive, .take 0] := by
  intro h
  exact absurd (h.last rfl ⟨0, ⟨"10.0.0.1", 5001⟩, [1]⟩ (by decide)) (by decide)

end AsioSamples.UdpServer
