import AsioSamples.Framework.Balance
import AsioSamples.Timer.PrinterRuns
import Mathlib.Data.Finset.Range

/-!
# The timers of the printer share the work evenly

A timer is re-armed one second after its own expiry, not after the time of the call. So where
waits complete in the order of their expiries, the timer that prints is always the earliest
one, and all expiries stay within one second of each other, however late the handlers run.
-/

namespace AsioSamples.Printer

open Framework

/-- Waits complete in the order of their expiries, with ties in any order. -/
def InOrder (s : State) : Event → Prop
  | .expire k => ∀ j ∈ s.waits, s.expiry k ≤ s.expiry j
  | .run => True

instance : ∀ s e, Decidable (InOrder s e)
  | s, .expire k => inferInstanceAs (Decidable (∀ j ∈ s.waits, s.expiry k ≤ s.expiry j))
  | _, .run => isTrue trivial

def State.printed (s : State) (k : ℕ) : ℕ := s.lines.countP fun l => decide (l.timer = k + 1)

/-- All expiries lie within one second, each as many seconds after the first one as its timer
has printed lines, and the strand runs the handlers in the order of their expiries. -/
structure Paced (C : Config) (s : State) : Prop where
  inv : Inv C s
  window : Within s.expiry second {k | k < C.timerNumber}
  paced : ∀ k, k < C.timerNumber → s.expiry k = C.now k + second + s.printed k • second
  sorted : s.strand.Pairwise fun a b => s.expiry a ≤ s.expiry b
  ahead : ∀ a ∈ s.strand, ∀ b ∈ s.waits, s.expiry a ≤ s.expiry b

theorem paced_init {C : Config} (hnow : ∀ a b, a < C.timerNumber → b < C.timerNumber →
    C.now a < C.now b + second) : Paced C (printer C).init := by
  have hinv := inv_init C
  obtain ⟨expiry, hexp, hn⟩ := construct_eq C
  change Inv C (construct C) at hinv
  show Paced C (construct C)
  rw [hn] at hinv ⊢
  refine ⟨hinv, ?_, ?_, .nil, by simp⟩
  · intro a ha b hb
    have hlt := hnow a b ha hb
    simp only [hexp a ha, hexp b hb]
    omega
  · intro k hk
    simp [hexp k hk, State.printed]

private theorem mem_outstanding {C : Config} {s : State} (hI : Inv C s)
    (hlt : s.count < (C.totalTimerCountMax : ℤ)) {k : ℕ} (hk : k < C.timerNumber) :
    k ∈ s.outstanding := by
  have hcard : s.outstanding.toFinset.card = C.timerNumber := by
    rw [List.toFinset_card_of_nodup hI.nodup, ← hI.retired, hI.full hlt, Nat.add_zero]
  have hsub : s.outstanding.toFinset ⊆ Finset.range C.timerNumber := by
    intro j hj
    exact Finset.mem_range.mpr (hI.range j (List.mem_toFinset.mp hj))
  have heq := Finset.eq_of_subset_of_card_le hsub (by rw [hcard, Finset.card_range])
  exact List.mem_toFinset.mp (heq ▸ Finset.mem_range.mpr hk)

/-- The handler that the strand runs next is that of the earliest timer. -/
private theorem earliest {C : Config} {s : State} (h : Paced C s)
    (hlt : s.count < (C.totalTimerCountMax : ℤ)) {k : ℕ} {rest : List ℕ}
    (hstrand : s.strand = k :: rest) {j : ℕ} (hj : j < C.timerNumber) :
    s.expiry k ≤ s.expiry j := by
  have hsorted := h.sorted
  rw [hstrand] at hsorted
  rcases List.mem_append.mp (mem_outstanding h.inv hlt hj) with hj | hj
  · rw [hstrand] at hj
    rcases List.mem_cons.mp hj with rfl | hj
    · exact Int.le_refl _
    · exact (List.pairwise_cons.mp hsorted).1 j hj
  · exact h.ahead k (by simp [hstrand]) j hj

private theorem printed_append (s : State) (k j : ℕ) (c : ℤ) :
    (s.lines ++ [(⟨k + 1, c⟩ : Line)]).countP (fun l => decide (l.timer = j + 1)) =
      s.printed j + if k = j then 1 else 0 := by
  simp only [State.printed, List.countP_append, List.countP_singleton, decide_eq_true_eq,
    Nat.add_right_cancel_iff]

private theorem paced_printed {C : Config} {s t : State} (h : Paced C s) (hIt : Inv C t)
    (hlt : s.count < (C.totalTimerCountMax : ℤ)) {k : ℕ} {rest : List ℕ}
    (hstrand : s.strand = k :: rest)
    (hexp : t.expiry = Function.update s.expiry k (s.expiry k + second))
    (hrest : t.strand = rest) (hwaits : t.waits = s.waits ++ [k])
    (hlines : t.lines = s.lines ++ [⟨k + 1, s.count + 1⟩]) : Paced C t := by
  have hkn : k < C.timerNumber := h.inv.range k (by simp [State.outstanding, hstrand])
  have hnodup := h.inv.nodup
  rw [State.outstanding, hstrand, List.cons_append, List.nodup_cons] at hnodup
  have hne : ∀ j ∈ rest ++ s.waits, j ≠ k := fun j hj he => hnodup.1 (he ▸ hj)
  have hsame : ∀ j ∈ rest ++ s.waits, t.expiry j = s.expiry j := by
    intro j hj
    rw [hexp, Function.update_of_ne (hne j hj)]
  have hsorted := h.sorted
  rw [hstrand] at hsorted
  refine ⟨hIt, ?_, ?_, ?_, ?_⟩
  · rw [hexp]
    exact h.window.advance (by decide) hkn fun j hj => earliest h hlt hstrand hj
  · intro j hj
    rw [State.printed, hlines, printed_append, hexp]
    by_cases hkj : k = j
    · subst hkj
      rw [Function.update_self, if_pos rfl, h.paced k hj, succ_nsmul, add_assoc]
    · rw [Function.update_of_ne (Ne.symm hkj), if_neg hkj, h.paced j hj, Nat.add_zero]
  · rw [hrest]
    refine (List.pairwise_cons.mp hsorted).2.imp_of_mem fun ha hb hab => ?_
    rw [hsame _ (List.mem_append_left _ ha), hsame _ (List.mem_append_left _ hb)]
    exact hab
  · intro a ha b hb
    rw [hrest] at ha
    rw [hwaits] at hb
    have ha' : a ∈ s.strand := by
      rw [hstrand]
      exact List.mem_cons_of_mem k ha
    rw [hsame a (List.mem_append_left _ ha)]
    rcases List.mem_append.mp hb with hb | hb
    · rw [hsame b (List.mem_append_right _ hb)]
      exact h.ahead a ha' b hb
    · obtain rfl := List.mem_singleton.mp hb
      rw [hexp, Function.update_self]
      exact h.window a (h.inv.range a (List.mem_append_left _ ha')) b hkn

theorem paced_step {C : Config} {s t : State} {e : Event} (h : Paced C s) (hord : InOrder s e)
    (ht : (printer C).step s e = some t) : Paced C t := by
  have hIt := inv_preserved C s e t h.inv ht
  cases step_outcome h.inv.nodup ht with
  | expired k hk =>
      refine ⟨hIt, h.window, h.paced, ?_, ?_⟩
      · refine List.pairwise_append.mpr ⟨h.sorted, List.pairwise_singleton _ k, ?_⟩
        intro a ha b hb
        obtain rfl := List.mem_singleton.mp hb
        exact h.ahead a ha b hk
      · intro a ha b hb
        have hb' : b ∈ s.waits := List.mem_of_mem_erase hb
        rcases List.mem_append.mp ha with ha | ha
        · exact h.ahead a ha b hb'
        · obtain rfl := List.mem_singleton.mp ha
          exact hord b hb'
  | printed k rest hstrand hlt =>
      exact paced_printed h hIt hlt hstrand rfl rfl rfl rfl
  | idle k rest hstrand hge =>
      have hsorted := h.sorted
      rw [hstrand] at hsorted
      refine ⟨hIt, h.window, h.paced, (List.pairwise_cons.mp hsorted).2, ?_⟩
      intro a ha b hb
      exact h.ahead a (by simp [hstrand, show a ∈ rest from ha]) b hb

theorem sum_printed {n : ℕ} (lines : List Line)
    (h : ∀ l ∈ lines, 1 ≤ l.timer ∧ l.timer ≤ n) :
    ∑ k ∈ Finset.range n, lines.countP (fun l => decide (l.timer = k + 1)) = lines.length := by
  induction lines with
  | nil => simp
  | cons l lines ih =>
      have hl := h l List.mem_cons_self
      have hone : ∑ k ∈ Finset.range n, (if l.timer = k + 1 then 1 else 0) = 1 := by
        rw [Finset.sum_eq_single_of_mem (l.timer - 1) (Finset.mem_range.mpr (by omega))]
        · rw [if_pos (by omega)]
        · intro k _ hk
          rw [if_neg (by omega)]
      simp only [List.countP_cons, decide_eq_true_eq, Finset.sum_add_distrib, hone,
        List.length_cons]
      rw [ih fun l' hl' => h l' (List.mem_cons_of_mem _ hl')]

/-- Where the timers are created within less than a second and waits complete in the order of
their expiries, the numbers of lines of any two timers differ by at most one in every state.
At the end each timer has printed its share of the total, rounded down or up. -/
theorem printer_shares_evenly (C : Config) (hn : 1 ≤ C.timerNumber)
    (hnow : ∀ a b, a < C.timerNumber → b < C.timerNumber → C.now a < C.now b + second)
    (es : List Event) (hord : (printer C).AllSteps InOrder (printer C).init es) {s : State}
    (hr : (printer C).run es = some s) :
    (∀ a b, a < C.timerNumber → b < C.timerNumber → s.printed a ≤ s.printed b + 1) ∧
      (s.outstanding = [] → ∀ k, k < C.timerNumber →
        s.printed k = C.totalTimerCountMax / C.timerNumber ∨
        s.printed k = (C.totalTimerCountMax + C.timerNumber - 1) / C.timerNumber) := by
  have hP : Paced C s :=
    Machine.AllSteps.preserves (fun s e t => paced_step) (paced_init hnow) hord hr
  have hdiff : ∀ a b, a < C.timerNumber → b < C.timerNumber → s.printed a ≤ s.printed b + 1 := by
    intro a b ha hb
    refine hP.window.advances_le (by decide) hP.paced ?_ ha hb
    intro a ha b hb
    have := hnow a b ha hb
    omega
  refine ⟨hdiff, fun hend k hk => ?_⟩
  have hsum : ∑ k ∈ Finset.range C.timerNumber, s.printed k = C.totalTimerCountMax := by
    have hlines := sum_printed s.lines hP.inv.labels
    have hcount := (hP.inv.finished hn hend).2
    have hlength := hP.inv.length
    simp only [State.printed]
    omega
  have hshare := share_eq_floor_or_ceil (s := Finset.range C.timerNumber) (p := s.printed)
    (fun a ha b hb => hdiff a b (Finset.mem_range.mp ha) (Finset.mem_range.mp hb))
    (Finset.mem_range.mpr hk)
  rwa [hsum, Finset.card_range] at hshare

/-- Two timers, the second created half a second later, share three lines. -/
def halfSecondLater : Config := ⟨2, 3, fun k => 500000000 * k⟩

def sharedRun : List Event :=
  [.expire 0, .expire 1, .run, .run, .expire 0, .run, .expire 1, .expire 0, .run, .run]

theorem two_timers_share_three :
    ∃ s, (printer halfSecondLater).run sharedRun = some s ∧
      (s.printed 0 = 3 / 2 ∨ s.printed 0 = (3 + 2 - 1) / 2) ∧
      s.printed 0 ≤ s.printed 1 + 1 ∧ s.printed 1 ≤ s.printed 0 + 1 := by
  have hnow : ∀ a b, a < halfSecondLater.timerNumber → b < halfSecondLater.timerNumber →
      halfSecondLater.now a < halfSecondLater.now b + second := by
    intro a b ha hb
    simp only [halfSecondLater, second] at ha hb ⊢
    omega
  apply Exists.intro
  refine ⟨rfl, ?_, ?_, ?_⟩
  · exact (printer_shares_evenly halfSecondLater (by decide) hnow sharedRun (by decide) rfl).2 rfl
      0 (by decide)
  · exact (printer_shares_evenly halfSecondLater (by decide) hnow sharedRun (by decide) rfl).1 0 1
      (by decide) (by decide)
  · exact (printer_shares_evenly halfSecondLater (by decide) hnow sharedRun (by decide) rfl).1 1 0
      (by decide) (by decide)

end AsioSamples.Printer
