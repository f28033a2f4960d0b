import AsioSamples.Timer.AsioPrinterSteps

/-!
# The printer on its timer service runs in order

What the heap of the timer queue is good for: the reactor ends waits in the order of their
expiries, whatever the clock says, so the printer shares the work evenly without more ado.
-/

namespace AsioSamples.Printer

open Framework Asio

variable {place place' : ℕ → Address} {service : TimerService Address ℕ} {size block : ℕ}
variable {expiry : ℕ → ℤ} {waits : List ℕ} {completed : List (ℕ × WaitResult)}

namespace Placed

theorem congr (h : Placed place service size expiry waits completed)
    (hnumber : ∀ k, (place' k).2 = k) (hplace : ∀ k < size, place' k = place k)
    (hwaits : ∀ k ∈ waits, k < size) : Placed place' service size expiry waits completed := by
  have hsame : pendingAt place' expiry waits = pendingAt place expiry waits := by
    funext t
    by_cases ht : t.2 ∈ waits
    · rw [pendingAt, pendingAt, hplace _ (hwaits _ ht)]
    · rw [pendingAt_none fun hn => ht hn.2, pendingAt_none fun hn => ht hn.2]
  refine ⟨hnumber, ?_, fun k hk => ?_⟩
  · rw [waitsAt, hsame]
    exact h.holds
  · rw [hplace k hk]
    exact h.timers k hk

theorem completed_eq (h : Placed place service size expiry waits completed) :
    service.reactor.completed = completed := h.holds.reactor.completed

/-- The new element, at `t`. -/
theorem add {t : Address} (h : Placed place service size expiry waits completed)
    (ht : t = place size) (hnot : size ∉ waits) (hfree : service.alive t = false) (now : ℤ) :
    Placed place ((service.construct t).expiresAfter now t second).2 (size + 1)
      (Function.update expiry size (ChronoTimeTraits.add now second)) waits completed := by
  have hconstruct := h.construct (by rw [ht, h.number]) hnot hfree
  rw [ht, Function.update_eq_self] at hconstruct
  have hexpires := hconstruct.expiresAt hnot (ChronoTimeTraits.add now second)
  rw [Function.update_idem] at hexpires
  rw [ht]
  exact hexpires

end Placed

/-- The same printer, with the clocks that lie a second before the expiries of its timers: near
the last time that there is these are not those of `C`. -/
def AsioConfig.started (C : AsioConfig) : Config :=
  { C.toConfig with now := fun i => ChronoTimeTraits.add (C.now i) second - second }

theorem AsioConfig.started_timerNumber (C : AsioConfig) :
    C.started.timerNumber = C.timerNumber := rfl

theorem AsioConfig.started_totalTimerCountMax (C : AsioConfig) :
    C.started.totalTimerCountMax = C.totalTimerCountMax := rfl

theorem AsioConfig.started_now {C : AsioConfig}
    (hnow : ∀ j k, j < C.timerNumber → k < C.timerNumber → C.now j < C.now k + second) (j k : ℕ)
    (hj : j < C.timerNumber) (hk : k < C.timerNumber) :
    C.started.now j < C.started.now k + second := by
  have hadd := ChronoTimeTraits.add_lt_add (d := second) (by decide) (by decide) (by decide)
    (hnow j k hj hk)
  simp only [AsioConfig.started]
  omega

/-- The first `i` elements lie in the next block, and so does the new one. -/
def halfway (block size i : ℕ) : ℕ → Address := fun k =>
  if i ≤ k ∧ k < size then (block, k) else (block + 1, k)

theorem halfway_number (block size i k : ℕ) : (halfway block size i k).2 = k := by
  rw [halfway]
  split <;> rfl

theorem halfway_succ (block size i : ℕ) :
    Function.update (halfway block size i) i (block + 1, i) = halfway block size (i + 1) := by
  funext k
  rw [Function.update_apply, halfway, halfway]
  by_cases hki : k = i
  · rw [if_pos hki, if_neg (by omega), hki]
  · rw [if_neg hki]
    by_cases hk : i ≤ k ∧ k < size
    · rw [if_pos hk, if_pos (by omega)]
    · rw [if_neg hk, if_neg (by omega)]

/-- The elements that were moved so far, of `i`. -/
theorem moves_placed (h : Placed (halfway block size 0) service (size + 1) expiry waits completed)
    (hfree : ∀ t, service.alive t = true → (t.1 = block ∧ t.2 < size) ∨ t = (block + 1, size))
    {i : ℕ}
    (hi : i ≤ size) :
    let moved := (List.range i).foldl
      (fun service i => service.moveConstruct (block + 1, i) (block, i)) service
    Placed (halfway block size i) moved (size + 1) expiry waits completed ∧
      ∀ t, moved.alive t = true →
        (t.1 = block ∧ t.2 < size) ∨ t.1 = block + 1 ∧ (t.2 < i ∨ t.2 = size) := by
  induction i with
  | zero =>
      refine ⟨h, fun t ht => ?_⟩
      rcases hfree t ht with hle | rfl
      · exact .inl hle
      · exact .inr ⟨rfl, .inr rfl⟩
  | succ i ih =>
      obtain ⟨hplaced, halive⟩ := ih (by omega)
      rw [List.range_succ, List.foldl_append]
      simp only [List.foldl_cons, List.foldl_nil]
      have hplace : halfway block size i i = (block, i) := if_pos ⟨Nat.le_refl i, hi⟩
      constructor
      · have hmove := hplaced.move (t := (block + 1, i)) (by simp only; omega) ?_
        · simp only [hplace, halfway_succ] at hmove
          exact hmove
        · rw [Bool.eq_false_iff]
          intro hal
          rcases halive _ hal with ⟨hb, -⟩ | ⟨-, hlt⟩
          · exact Nat.succ_ne_self block hb
          · simp only at hlt
            omega
      · intro t ht
        rw [moveConstruct_alive] at ht
        by_cases hti : t = (block + 1, i)
        · exact .inr ⟨by rw [hti], .inl (by rw [hti]; exact Nat.lt_succ_self i)⟩
        · rw [if_neg hti] at ht
          rcases halive t ht with hle | ⟨hb, hlt⟩
          · exact .inl hle
          · exact .inr ⟨hb, by omega⟩

theorem destroys_placed (h : Placed place service size expiry waits completed) {n : ℕ}
    (hne : ∀ i, (block, i) ≠ place i) :
    let left := (List.range n).foldl (fun service i => service.destroy (block, i)) service
    Placed place left size expiry waits completed ∧
      ∀ t, left.alive t = true → service.alive t = true ∧ (t.1 = block → n ≤ t.2) := by
  induction n with
  | zero => exact ⟨h, fun t ht => ⟨ht, fun _ => Nat.zero_le _⟩⟩
  | succ n ih =>
      obtain ⟨hplaced, halive⟩ := ih
      rw [List.range_succ, List.foldl_append]
      simp only [List.foldl_cons, List.foldl_nil]
      refine ⟨hplaced.destroy (hne n), fun t ht => ?_⟩
      rw [destroy_alive] at ht
      by_cases htn : t = (block, n)
      · rw [if_pos htn] at ht
        cases ht
      · rw [if_neg htn] at ht
        obtain ⟨hal, hle⟩ := halive t ht
        refine ⟨hal, fun hb => Nat.lt_of_le_of_ne (hle hb) fun hn => htn ?_⟩
        rw [hn, ← hb]

namespace AsioState

/-- The vector holds the timers and nothing else. -/
structure Holds (a : AsioState) (expiry : ℕ → ℤ) (waits : List ℕ)
    (completed : List (ℕ × WaitResult)) : Prop where
  placed : Placed (fun k => (a.block, k)) a.service a.size expiry waits completed
  waits : ∀ k ∈ waits, k < a.size
  alive : ∀ t, a.service.alive t = true → t.1 = a.block ∧ t.2 < a.size

variable {a : AsioState}

theorem Holds.emplaceBack (h : Holds a expiry waits completed) (reallocates : Bool) (now : ℤ) :
    Holds (emplaceBack reallocates now a)
      (Function.update expiry a.size (ChronoTimeTraits.add now second)) waits completed := by
  have hnot : a.size ∉ waits := fun hn => Nat.lt_irrefl _ (h.waits _ hn)
  have hlt : ∀ k ∈ waits, k < a.size + 1 := fun k hk => (h.waits k hk).trans (Nat.lt_succ_self _)
  have hnew : ∀ b, a.service.alive (b, a.size) = false := fun b =>
    Bool.eq_false_iff.mpr fun hal => Nat.lt_irrefl _ (h.alive _ hal).2
  have halive : ∀ b t, ((a.service.construct (b, a.size)).expiresAfter now (b, a.size)
      second).2.alive t = true → (t.1 = a.block ∧ t.2 < a.size) ∨ t = (b, a.size) := by
    intro b t ht
    rw [TimerService.expiresAfter, expiresAt_alive] at ht
    by_cases htb : t = (b, a.size)
    · exact .inr htb
    · exact .inl (h.alive t ((Function.update_of_ne htb _ _).symm.trans ht))
  cases reallocates with
  | false =>
      refine ⟨h.placed.add rfl hnot (hnew _) now, hlt, fun t ht => ?_⟩
      rcases halive _ t ht with ⟨hb, hlt⟩ | rfl
      · exact ⟨hb, hlt.trans (Nat.lt_succ_self _)⟩
      · exact ⟨rfl, Nat.lt_succ_self _⟩
  | true =>
      have hstart := h.placed.congr (halfway_number a.block a.size 0)
        (fun k hk => if_pos ⟨Nat.zero_le k, hk⟩) h.waits
      have hadd := hstart.add (t := (a.block + 1, a.size)) (by simp [halfway]) hnot (hnew _) now
      have hend : ∀ k, halfway a.block a.size a.size k = (a.block + 1, k) := fun k =>
        if_neg fun hk => Nat.not_lt.mpr hk.1 hk.2
      obtain ⟨hmoved, hmovedAlive⟩ := moves_placed hadd (halive _) (Nat.le_refl a.size)
      have hne : ∀ i, (a.block, i) ≠ halfway a.block a.size a.size i := by
        intro i he
        rw [hend, Prod.mk.injEq] at he
        exact Nat.succ_ne_self a.block he.1.symm
      obtain ⟨hleft, hleftAlive⟩ := destroys_placed (n := a.size) hmoved hne
      refine ⟨hleft.congr (fun k => rfl) (fun k _ => (hend k).symm) hlt, hlt, fun t ht => ?_⟩
      obtain ⟨hal, hle⟩ := hleftAlive t ht
      rcases hmovedAlive t hal with ⟨hb, hlt⟩ | ⟨hb, hlt⟩
      · exact absurd hlt (Nat.not_lt.mpr (hle hb))
      · refine ⟨hb, ?_⟩
        show t.2 < a.size + 1
        omega

theorem Holds.asyncWait (h : Holds a expiry waits completed) {k : ℕ} (hk : k < a.size)
    (hnot : k ∉ waits) (now : ℤ) : Holds (asyncWait now k a) expiry (waits ++ [k]) completed where
  placed := h.placed.asyncWait hk hnot now
  waits j hj := by
    rcases List.mem_append.mp hj with hj | hj
    · exact h.waits j hj
    · rw [List.mem_singleton.mp hj]
      exact hk
  alive := h.alive

theorem Holds.expiresLater (h : Holds a expiry waits completed) {k : ℕ} (hk : k < a.size)
    (hnot : k ∉ waits) :
    Holds (expiresLater k a) (Function.update expiry k (expiry k + second)) waits completed := by
  have hexp := (h.placed.timers k hk).2
  refine ⟨?_, h.waits, fun t ht => ?_⟩
  · have hplaced := h.placed.expiresAt hnot (expiry k + second)
    simp only [AsioState.expiresLater, hexp]
    exact hplaced
  · simp only [AsioState.expiresLater, expiresAt_alive] at ht
    exact h.alive t ht

theorem holds_empty (expiry : ℕ → ℤ) : Holds {} expiry [] [] := by
  refine ⟨⟨fun _ => rfl, ?_, by simp⟩, by simp, by simp⟩
  have hnone : pendingAt (fun k => ((0 : ℕ), k)) expiry [] = fun _ => none :=
    funext fun t => pendingAt_none fun hn => List.not_mem_nil hn.2
  rw [waitsAt, hnone]
  exact ⟨Reactor.holds_initial, by simp⟩

/-- After `n` turns of the constructor. -/
structure Starts (n : ℕ) (a : AsioState) (s : State) : Prop where
  handled : a.handled = 0
  count : a.count = 0
  lines : a.lines = []
  size : a.size = n
  timers : s.timers = n
  waits : s.waits = List.range n
  holds : Holds a s.expiry s.waits []

theorem Starts.next {n : ℕ} {s : State} (h : Starts n a s) (reallocates : Bool)
    {now started : ℤ} (hstarted : ChronoTimeTraits.add now second = started + second) (armed : ℤ) :
    Starts (n + 1) (AsioState.asyncWait armed n (AsioState.emplaceBack reallocates now a))
      (Printer.asyncWait n (Printer.emplaceBack started s)) := by
  have hnew := h.holds.emplaceBack reallocates now
  rw [hstarted] at hnew
  have hlt : n < (AsioState.emplaceBack reallocates now a).size := by
    rw [AsioState.emplaceBack, h.size]
    exact Nat.lt_succ_self n
  have hwaits : n ∉ s.waits := by
    rw [h.waits, List.mem_range]
    exact Nat.lt_irrefl n
  refine ⟨h.handled, h.count, h.lines, congrArg (· + 1) h.size, congrArg (· + 1) h.timers, ?_, ?_⟩
  · rw [List.range_succ, ← h.waits]
    rfl
  · rw [h.size, ← h.timers] at hnew
    have hwait := hnew.asyncWait (k := n) hlt hwaits armed
    exact hwait

/-- Whenever the vector had to grow in the constructor. -/
theorem construct_starts (C : AsioConfig) :
    Starts C.timerNumber (construct C) (Printer.construct C.started) := by
  unfold construct Printer.construct
  rw [C.started_timerNumber]
  induction C.timerNumber with
  | zero => exact ⟨rfl, rfl, rfl, rfl, rfl, rfl, holds_empty _⟩
  | succ n ih =>
      rw [List.range_succ, List.foldl_append, List.foldl_append]
      exact ih.next (C.reallocates n) (sub_add_cancel _ _).symm (C.armed n)

end AsioState

/-- The waits on several timers end one after another. -/
theorem expires_run {C : Config} {s : State} {ks : List ℕ} (hI : Inv C s) (hnodup : ks.Nodup)
    (hsorted : ks.Pairwise fun a b => s.expiry a ≤ s.expiry b) (hmem : ∀ k ∈ ks, k ∈ s.waits)
    (hfirst : ∀ k ∈ ks, ∀ j ∈ s.waits, j ∉ ks → s.expiry k ≤ s.expiry j) :
    let t := { s with
      waits := s.waits.filter fun k => decide (k ∉ ks)
      strand := s.strand ++ ks }
    (printer C).runFrom s (ks.map .expire) = some t ∧
      (printer C).AllSteps InOrder s (ks.map .expire) ∧ Inv C t := by
  induction ks generalizing s with
  | nil => simpa [Machine.AllSteps] using hI
  | cons k ks ih =>
      obtain ⟨hk, hnodup⟩ := List.nodup_cons.mp hnodup
      obtain ⟨hle, hsorted⟩ := List.pairwise_cons.mp hsorted
      have hkw : k ∈ s.waits := hmem k List.mem_cons_self
      have hwaits : s.waits.Nodup := (List.nodup_append.mp hI.nodup).2.1
      obtain ⟨u, hu⟩ : ∃ u, step C s (.expire k) = some u := ⟨_, if_pos hkw⟩
      have hIu := inv_preserved C s (.expire k) u hI hu
      have hout := step_outcome hI.nodup hu
      cases hout with
      | expired k _ =>
          have hrest : ∀ j ∈ ks, j ∈ s.waits.erase k := fun j hj =>
            hwaits.mem_erase_iff.mpr ⟨fun he => hk (he ▸ hj), hmem j (List.mem_cons_of_mem k hj)⟩
          have hlater : ∀ j ∈ ks, ∀ i ∈ s.waits.erase k, i ∉ ks → s.expiry j ≤ s.expiry i := by
            intro j hj i hi hin
            obtain ⟨hik, hi⟩ := hwaits.mem_erase_iff.mp hi
            refine hfirst j (List.mem_cons_of_mem k hj) i hi fun hn => ?_
            exact (List.mem_cons.mp hn).elim hik hin
          obtain ⟨hrun, hall, hIt⟩ := ih hIu hnodup hsorted hrest hlater
          have hfilter : (s.waits.erase k).filter (fun j => decide (j ∉ ks)) =
              s.waits.filter fun j => decide (j ∉ k :: ks) := by
            rw [hwaits.erase_eq_filter, List.filter_filter]
            apply List.filter_congr
            intro j _
            by_cases hjk : j = k
            · simp [hjk]
            · simp [hjk]
          simp only [hfilter, List.append_assoc, List.singleton_append] at hrun hIt
          refine ⟨(Machine.runFrom_cons_eq_some _ _).mpr ⟨_, hu, hrun⟩, ?_, hIt⟩
          refine (Machine.allSteps_cons_of_eq_some hu).mpr ⟨fun j hj => ?_, hall⟩
          by_cases hjs : j ∈ k :: ks
          · rcases List.mem_cons.mp hjs with rfl | hj
            · exact Int.le_refl _
            · exact hle j hj
          · exact hfirst k List.mem_cons_self j hj hjs

theorem Paced.differ {C : Config} {s : State} (h : Paced C s)
    (hnow : ∀ j k, j < C.timerNumber → k < C.timerNumber → C.now j < C.now k + second) {j k : ℕ}
    (hj : j < C.timerNumber) (hk : k < C.timerNumber) : s.printed j ≤ s.printed k + 1 := by
  refine h.window.advances_le (by decide) h.paced (fun a ha b hb => ?_) hj hk
  have := hnow a b ha hb
  omega

theorem Paced.sum_eq {C : Config} {s : State} (h : Paced C s) (hn : 1 ≤ C.timerNumber)
    (hend : s.outstanding = []) :
    ∑ k ∈ Finset.range C.timerNumber, s.printed k = C.totalTimerCountMax := by
  have hlines := sum_printed s.lines h.inv.labels
  have hcount := (h.inv.finished hn hend).2
  have hlength := h.inv.length
  simp only [State.printed]
  omega

namespace AsioState

/-- The printer on its timer service is in the state `s` of the printer. -/
structure Follows (C : AsioConfig) (a : AsioState) (s : State) : Prop where
  inv : Inv C.started s
  holds : Holds a s.expiry s.waits a.service.reactor.completed
  size : a.size = C.timerNumber
  handled : a.handled = s.calls
  posted : a.posted = s.strand
  done : a.handled ≤ a.service.reactor.completed.length
  count : a.count = s.count
  lines : a.lines = s.lines

theorem follows_init (C : AsioConfig) : Follows C (construct C) (Printer.construct C.started) := by
  have h := construct_starts C
  obtain ⟨expiry, -, hn⟩ := construct_eq C.started
  have hcompleted : (construct C).service.reactor.completed = [] := h.holds.placed.completed_eq
  refine ⟨inv_init C.started, ?_, h.size, ?_, ?_, ?_, ?_, ?_⟩
  · rw [hcompleted]
    exact h.holds
  · rw [h.handled, hn]
  · rw [posted, hcompleted, hn, List.drop_nil, List.map_nil]
  · rw [h.handled]
    exact Nat.zero_le _
  · rw [h.count, hn]
  · rw [h.lines, hn]

theorem Follows.poll {C : AsioConfig} {s : State} (h : Follows C a s) (now later : ℤ) :
    ∃ fs t, (Printer.printer C.started).runFrom s fs = some t ∧
      (Printer.printer C.started).AllSteps InOrder s fs ∧
      Follows C { a with service := { a.service with
        reactor := a.service.reactor.run now later } } t := by
  obtain ⟨ks, hnodup, hsorted, hks, hplaced⟩ := h.holds.placed.run now later
  have hfirst : ∀ k ∈ ks, ∀ j ∈ s.waits, j ∉ ks → s.expiry k ≤ s.expiry j := by
    intro k hk j hj hjk
    have hnow := ((hks k).mp hk).2
    have hlt : ¬ s.expiry j ≤ now := fun hle => hjk ((hks j).mpr ⟨hj, hle⟩)
    omega
  obtain ⟨hrun, hall, hI⟩ := expires_run h.inv hnodup hsorted (fun k hk => ((hks k).mp hk).1) hfirst
  have hcompleted : (a.service.reactor.run now later).completed =
      a.service.reactor.completed ++ ks.map fun k => (k, .expired) := hplaced.completed_eq
  have hposted : ((a.service.reactor.run now later).completed.drop a.handled).map Prod.fst =
      s.strand ++ ks := by
    rw [hcompleted, List.drop_append_of_le_length h.done, List.map_append, ← h.posted,
      AsioState.posted, List.map_map]
    exact congrArg (_ ++ ·) (List.map_id ks)
  refine ⟨_, _, hrun, hall, hI, ⟨?_, ?_, h.holds.alive⟩, h.size, h.handled, hposted, ?_,
    h.count, h.lines⟩
  · simp only [hcompleted]
    exact hplaced
  · exact fun k hk => h.holds.waits k (List.mem_filter.mp hk).1
  · simp only [hcompleted, List.length_append]
    exact Nat.le_add_right_of_le h.done

theorem Follows.handle {C : AsioConfig} {s : State} {k : ℕ} {rest : List ℕ} (h : Follows C a s)
    (hposted : a.posted = k :: rest) (now : ℤ) :
    ∃ t, Printer.step C.started s .run = some t ∧
      Follows C (print C now k { a with handled := a.handled + 1 }) t := by
  have hstrand : s.strand = k :: rest := h.posted.symm.trans hposted
  obtain ⟨t, ht⟩ : ∃ t, Printer.step C.started s .run = some t := by
    rw [Printer.step, hstrand]
    exact ⟨_, rfl⟩
  have hI := inv_preserved C.started s .run t h.inv ht
  have hk : k ∈ s.outstanding := by simp [State.outstanding, hstrand]
  have hsize : k < a.size := h.size ▸ h.inv.range k hk
  have hlt : a.handled < a.service.reactor.completed.length := by
    by_contra hn
    rw [AsioState.posted, List.drop_of_length_le (Nat.not_lt.mp hn)] at hposted
    cases hposted
  have hnext : (a.service.reactor.completed.drop (a.handled + 1)).map Prod.fst = rest := by
    have htail := congrArg List.tail hposted
    rwa [AsioState.posted, ← List.map_tail, List.tail_drop, List.tail_cons] at htail
  refine ⟨t, ht, ?_⟩
  have hout := step_outcome h.inv.nodup ht
  cases hout with
  | printed k' rest' hstrand' hcount =>
      obtain ⟨rfl, rfl⟩ := List.cons.inj (hstrand.symm.trans hstrand')
      have hnot : k ∉ s.waits := by
        intro hn
        have hnodup := h.inv.nodup
        rw [State.outstanding, hstrand] at hnodup
        exact (List.nodup_cons.mp hnodup).1 (List.mem_append_right _ hn)
      have hcount' : a.count < (C.totalTimerCountMax : ℤ) := h.count ▸ hcount
      have hstart : Holds { a with
          handled := a.handled + 1
          count := a.count + 1
          lines := a.lines ++ [⟨k + 1, a.count + 1⟩] } s.expiry s.waits
            a.service.reactor.completed := ⟨h.holds.placed, h.holds.waits, h.holds.alive⟩
      have hend := (hstart.expiresLater hsize hnot).asyncWait hsize hnot now
      have hcompleted := hend.placed.completed_eq
      simp only [print, if_pos hcount']
      refine ⟨hI, ?_, h.size, congrArg (· + 1) h.handled, ?_, ?_, congrArg (· + 1) h.count, ?_⟩
      · rw [hcompleted]
        exact hend
      · rw [AsioState.posted, hcompleted]
        exact hnext
      · rw [hcompleted]
        exact hlt
      · exact congrArg₂ (fun l (c : ℤ) => l ++ [⟨k + 1, c + 1⟩]) h.lines h.count
  | idle k' rest' hstrand' hcount =>
      obtain ⟨rfl, rfl⟩ := List.cons.inj (hstrand.symm.trans hstrand')
      have hcount' : ¬ a.count < (C.totalTimerCountMax : ℤ) := h.count ▸ hcount
      simp only [print, if_neg hcount']
      exact ⟨hI, ⟨h.holds.placed, h.holds.waits, h.holds.alive⟩, h.size,
        congrArg (· + 1) h.handled, hnext, hlt, h.count, h.lines⟩

/-- Each run of the program is one of the printer in which waits complete in the order of their
expiries. -/
theorem run_follows {C : AsioConfig} {es : List Event} (hr : (printer C).run es = some a) :
    ∃ fs s, (Printer.printer C.started).run fs = some s ∧
      (Printer.printer C.started).AllSteps InOrder (Printer.printer C.started).init fs ∧
      Follows C a s := by
  refine Machine.follows (R := Follows C) (follows_init C) (fun a e a' s h he => ?_) hr
  cases e with
  | poll now later =>
      obtain rfl := Option.some.inj he
      exact h.poll now later
  | handle now =>
      have he : step C a (.handle now) = some a' := he
      cases hposted : a.posted with
      | nil => simp [step, hposted] at he
      | cons k rest =>
          simp only [step, hposted, Option.some.injEq] at he
          obtain ⟨t, ht, hfollows⟩ := h.handle hposted now
          rw [← he]
          exact ⟨[.run], t, (Machine.runFrom_cons_eq_some _ _).mpr ⟨t, ht, rfl⟩,
            (Machine.allSteps_cons_of_eq_some ht).mpr ⟨trivial, trivial⟩, hfollows⟩

theorem Follows.outstanding_nil {C : AsioConfig} {s : State} (h : Follows C a s)
    (hposted : a.posted = []) (hheap : a.service.reactor.timerQueue.heap = []) :
    s.outstanding = [] := by
  have hwaits : s.waits = [] := by
    apply List.eq_nil_iff_forall_not_mem.mpr
    intro k hk
    have hstores := h.holds.placed.holds.reactor.stores rfl
    have hpending : pendingAt (fun k => (a.block, k)) s.expiry s.waits (a.block, k) =
        some (s.expiry k, [k]) := pendingAt_some ⟨rfl, hk⟩
    have hin := (hstores.heaped.mem ⟨s.expiry k, (a.block, k)⟩).mpr
      (Pending.expiry_of_some hpending)
    rw [hheap] at hin
    cases hin
  rw [State.outstanding, hwaits, ← h.posted, hposted, List.append_nil]

def printed (a : AsioState) (k : ℕ) : ℕ := a.lines.countP fun l => decide (l.timer = k + 1)

/-- However late the reactor looks at its timers and however often the vector grows: the timers
of a printer that are created within less than a second share the lines evenly, and when no
handler is posted and no timer waits any more, the total was printed. -/
theorem asio_printer_shares_evenly (C : AsioConfig) (hn : 1 ≤ C.timerNumber)
    (hnow : ∀ j k, j < C.timerNumber → k < C.timerNumber → C.now j < C.now k + second)
    (es : List Event) (hr : (printer C).run es = some a) :
    (∀ j k, j < C.timerNumber → k < C.timerNumber → a.printed j ≤ a.printed k + 1) ∧
      a.handled ≤ C.totalTimerCountMax + C.timerNumber ∧
      (a.posted = [] → a.service.reactor.timerQueue.heap = [] →
        a.count = C.totalTimerCountMax ∧ ∀ k, k < C.timerNumber →
          a.printed k = C.totalTimerCountMax / C.timerNumber ∨
          a.printed k = (C.totalTimerCountMax + C.timerNumber - 1) / C.timerNumber) := by
  obtain ⟨fs, s, hrun, hall, h⟩ := run_follows hr
  have hstarted := AsioConfig.started_now hnow
  have hP : Paced C.started s :=
    Machine.AllSteps.preserves (fun s e t => paced_step) (paced_init hstarted) hall hrun
  have hprinted : a.printed = s.printed := by
    funext k
    rw [AsioState.printed, State.printed, h.lines]
  rw [hprinted]
  refine ⟨fun j k hj hk => hP.differ hstarted hj hk, ?_, fun hposted hheap => ?_⟩
  · have hcalls := h.inv.calls
    have hle := h.inv.le
    have hretired := h.inv.retired
    simp only [C.started_timerNumber, C.started_totalTimerCountMax] at hle hretired
    rw [h.handled]
    omega
  · have hend := h.outstanding_nil hposted hheap
    refine ⟨h.count.trans (h.inv.finished hn hend).2, fun k hk => ?_⟩
    have hshare := share_eq_floor_or_ceil (s := Finset.range C.timerNumber) (p := s.printed)
      (fun i hi j hj => hP.differ hstarted (Finset.mem_range.mp hi) (Finset.mem_range.mp hj))
      (Finset.mem_range.mpr hk)
    have hsum := hP.sum_eq hn hend
    rw [C.started_timerNumber] at hsum
    rwa [hsum, Finset.card_range] at hshare

/-- Two timers, the second created half a second later, share three lines. The vector grows for
the second one. -/
def growing : AsioConfig := ⟨halfSecondLater, fun i => i == 1, fun _ => 0⟩

def lateRun : List Event :=
  [.poll 2000000000 2000000000, .handle 0, .handle 0, .poll 3000000000 3000000000, .handle 0,
    .handle 0, .poll 4000000000 4000000000, .handle 0]

theorem growing_printer_shares_three : ∃ a, (printer growing).run lateRun = some a ∧
    a.count = 3 ∧ a.handled ≤ 5 ∧ a.printed 0 ≤ a.printed 1 + 1 := by
  have hrun : ((printer growing).run lateRun).map
      (fun a => (a.posted, a.service.reactor.timerQueue.heap)) = some ([], []) := by
    decide +kernel
  obtain ⟨a, hr, ha⟩ := Option.map_eq_some_iff.mp hrun
  rw [Prod.mk.injEq] at ha
  have hnow : ∀ j k, j < growing.timerNumber → k < growing.timerNumber →
      growing.now j < growing.now k + second := by
    intro j k hj hk
    simp only [growing, halfSecondLater, second] at hj hk ⊢
    omega
  have h := asio_printer_shares_evenly growing (by decide) hnow lateRun hr
  exact ⟨a, hr, (h.2.2 ha.1 ha.2).1, h.2.1, h.1 0 1 (by decide) (by decide)⟩

end AsioState

end AsioSamples.Printer
