import AsioSamples.Timer.Printer
import Mathlib.Data.List.Nodup
import Mathlib.Data.List.Perm.Basic

/-!
# The printer prints the total and stops

Each timer decides alone whether to wait again. What makes the total come out is that every
timer has exactly one wait outstanding until the total is reached, so that re-arming cancels
nothing, and that afterwards every handler that still runs retires its timer.
-/

namespace AsioSamples.Printer

open Framework

/-- One event of the printer, when no timer has two waits outstanding. -/
inductive Outcome (C : Config) (s : State) : Event → State → Prop where
  | expired (k : ℕ) (hk : k ∈ s.waits) : Outcome C s (.expire k)
      { s with waits := s.waits.erase k, strand := s.strand ++ [k] }
  | printed (k : ℕ) (rest : List ℕ) (hstrand : s.strand = k :: rest)
      (hlt : s.count < (C.totalTimerCountMax : ℤ)) : Outcome C s .run
        { s with
          calls := s.calls + 1
          count := s.count + 1
          lines := s.lines ++ [⟨k + 1, s.count + 1⟩]
          expiry := Function.update s.expiry k (s.expiry k + second)
          strand := rest
          waits := s.waits ++ [k] }
  | idle (k : ℕ) (rest : List ℕ) (hstrand : s.strand = k :: rest)
      (hge : ¬ s.count < (C.totalTimerCountMax : ℤ)) : Outcome C s .run
        { s with calls := s.calls + 1, idle := s.idle + 1, strand := rest }

private theorem filter_eq_self_of_mem {l : List ℕ} (hl : l.Nodup) {k : ℕ} (hk : k ∈ l) :
    l.filter (fun j => decide (j = k)) = [k] := by
  rw [List.filter_eq, List.count_eq_one_of_mem hl hk, List.replicate_one]

private theorem filter_ne_eq_erase {l : List ℕ} (hl : l.Nodup) (k : ℕ) :
    l.filter (fun j => decide (j ≠ k)) = l.erase k := by
  rw [hl.erase_eq_filter]
  apply List.filter_congr
  intro j _
  by_cases hjk : j = k <;> simp [hjk]

private theorem expiresAt_eq {s : State} {k : ℕ} (hk : k ∉ s.waits) (time : ℤ) :
    expiresAt k time s = { s with expiry := Function.update s.expiry k time } := by
  have hnone : s.waits.filter (fun j => decide (j = k)) = [] := by
    rw [List.filter_eq, List.count_eq_zero_of_not_mem hk, List.replicate_zero]
  have hall : s.waits.filter (fun j => decide (j ≠ k)) = s.waits := by
    apply List.filter_eq_self.mpr
    intro j hj
    simpa using fun he : j = k => hk (he ▸ hj)
  simp only [expiresAt, completeWaits, hnone, hall, List.append_nil, List.length_nil,
    Nat.add_zero]

theorem step_outcome {C : Config} {s t : State} {e : Event} (hs : s.outstanding.Nodup)
    (h : step C s e = some t) : Outcome C s e t := by
  have hwaits : s.waits.Nodup := (List.nodup_append.mp hs).2.1
  cases e with
  | expire k =>
      simp only [step, Option.ite_none_right_eq_some, Option.some.injEq] at h
      obtain ⟨hk, rfl⟩ := h
      rw [completeWaits, filter_eq_self_of_mem hwaits hk, filter_ne_eq_erase hwaits]
      exact .expired k hk
  | run =>
      cases hstrand : s.strand with
      | nil => simp [step, hstrand] at h
      | cons k rest =>
          obtain rfl : print C k { s with strand := rest } = t := by
            simpa [step, hstrand] using h
          by_cases hlt : s.count < (C.totalTimerCountMax : ℤ)
          · have hk : k ∉ s.waits := by
              intro hk
              rw [State.outstanding, hstrand] at hs
              exact (List.nodup_cons.mp hs).1 (List.mem_append_right _ hk)
            simp only [print, hlt, if_true]
            rw [expiresAt_eq (by exact hk)]
            exact .printed k rest hstrand hlt
          · simp only [print, hlt, if_false]
            exact .idle k rest hstrand hlt

/-- Until the total is reached every timer has its one wait outstanding; afterwards every call
retires one. -/
structure Inv (C : Config) (s : State) : Prop where
  nonneg : 0 ≤ s.count
  le : s.count ≤ C.totalTimerCountMax
  nodup : s.outstanding.Nodup
  range : ∀ k ∈ s.outstanding, k < C.timerNumber
  retired : s.outstanding.length + s.idle = C.timerNumber
  full : s.count < (C.totalTimerCountMax : ℤ) → s.idle = 0
  calls : (s.calls : ℤ) = s.count + s.idle
  length : (s.lines.length : ℤ) = s.count
  counted : s.lines.map Line.count = (List.range s.lines.length).map fun i : ℕ => (i : ℤ) + 1
  labels : ∀ l ∈ s.lines, 1 ≤ l.timer ∧ l.timer ≤ C.timerNumber
  cancelled : s.cancelled = 0

theorem inv_init (C : Config) : Inv C (printer C).init := by
  obtain ⟨expiry, -, hn⟩ := construct_eq C
  show Inv C (construct C)
  rw [hn]
  exact {
    nonneg := Int.le_refl 0
    le := Int.natCast_nonneg _
    nodup := List.nodup_range
    range := fun k hk => List.mem_range.mp hk
    retired := by simp [State.outstanding]
    full := fun _ => rfl
    calls := rfl
    length := rfl
    counted := rfl
    labels := by simp
    cancelled := rfl }

private theorem expired_perm (s : State) {k : ℕ} (hk : k ∈ s.waits) :
    ((s.strand ++ [k]) ++ s.waits.erase k).Perm s.outstanding := by
  rw [List.append_assoc]
  exact (List.perm_cons_erase hk).symm.append_left s.strand

private theorem printed_perm (s : State) {k : ℕ} {rest : List ℕ} (hstrand : s.strand = k :: rest) :
    (rest ++ (s.waits ++ [k])).Perm s.outstanding := by
  rw [State.outstanding, hstrand, ← List.append_assoc]
  exact List.perm_append_singleton k (rest ++ s.waits)

theorem inv_preserved (C : Config) : (printer C).Preserves (Inv C) := by
  intro s e t hI h
  cases step_outcome hI.nodup h with
  | expired k hk =>
      have hp := expired_perm s hk
      exact { hI with
        nodup := hp.nodup_iff.mpr hI.nodup
        range := fun j hj => hI.range j (hp.mem_iff.mp hj)
        retired := by
          rw [State.outstanding, hp.length_eq]
          exact hI.retired }
  | printed k rest hstrand hlt =>
      have hp := printed_perm s hstrand
      have hk : k < C.timerNumber := hI.range k (by simp [State.outstanding, hstrand])
      have hidle := hI.full hlt
      exact {
        nonneg := Int.le_add_one hI.nonneg
        le := hlt
        nodup := hp.nodup_iff.mpr hI.nodup
        range := fun j hj => hI.range j (hp.mem_iff.mp hj)
        retired := by
          rw [State.outstanding, hp.length_eq]
          exact hI.retired
        full := fun _ => hidle
        calls := by
          have := hI.calls
          push_cast
          omega
        length := by
          have := hI.length
          simp only [List.length_append, List.length_singleton]
          omega
        counted := by
          simp only [List.map_append, List.length_append, List.length_singleton, List.range_succ,
            hI.counted, hI.length, List.map_singleton]
        labels := by
          intro l hl
          rcases List.mem_append.mp hl with hl | hl
          · exact hI.labels l hl
          · obtain rfl := List.mem_singleton.mp hl
            exact ⟨Nat.le_add_left 1 k, hk⟩
        cancelled := hI.cancelled }
  | idle k rest hstrand hge =>
      have houts : s.outstanding = k :: (rest ++ s.waits) := by
        rw [State.outstanding, hstrand, List.cons_append]
      have hnodup := hI.nodup
      have hretired := hI.retired
      rw [houts] at hnodup
      rw [houts, List.length_cons] at hretired
      exact { hI with
        nodup := (List.nodup_cons.mp hnodup).2
        range := fun j hj => hI.range j (houts ▸ List.mem_cons_of_mem _ hj)
        retired := by
          simp only [State.outstanding]
          omega
        full := fun hlt => (hge hlt).elim
        calls := by
          have := hI.calls
          push_cast
          omega }

/-- What is left to do: two events for each wait, one for each handler on the strand, and two
for the wait that each missing line arms. -/
def remaining (C : Config) (s : State) : ℕ :=
  s.strand.length + 2 * s.waits.length + 2 * (C.totalTimerCountMax - s.count).toNat

theorem remaining_decreases {C : Config} {s t : State} {e : Event} (hI : Inv C s)
    (h : (printer C).step s e = some t) : remaining C t < remaining C s := by
  cases step_outcome hI.nodup h with
  | expired k hk =>
      have hpos := List.length_pos_of_mem hk
      simp only [remaining, List.length_append, List.length_singleton,
        List.length_erase_of_mem hk]
      omega
  | printed k rest hstrand hlt =>
      simp only [remaining, hstrand, List.length_cons, List.length_append, List.length_nil]
      omega
  | idle k rest hstrand hge =>
      simp only [remaining, hstrand, List.length_cons]
      omega

private theorem remaining_init (C : Config) :
    remaining C (printer C).init = 2 * (C.totalTimerCountMax + C.timerNumber) := by
  obtain ⟨expiry, -, hn⟩ := construct_eq C
  show remaining C (construct C) = _
  rw [hn]
  simp only [remaining, List.length_nil, List.length_range]
  omega

theorem stuck_iff_outstanding_nil {C : Config} {s : State} :
    (∀ e, (printer C).step s e = none) ↔ s.outstanding = [] := by
  constructor
  · intro h
    have hstrand : s.strand = [] := by
      have hrun : step C s .run = none := h .run
      cases hs : s.strand with
      | nil => rfl
      | cons k rest => simp [step, hs] at hrun
    have hwaits : s.waits = [] := by
      apply List.eq_nil_iff_forall_not_mem.mpr
      intro k hk
      have hexpire : step C s (.expire k) = none := h (.expire k)
      simp [step, hk] at hexpire
    rw [State.outstanding, hstrand, hwaits, List.append_nil]
  · intro h e
    obtain ⟨hstrand, hwaits⟩ := List.append_eq_nil_iff.mp h
    show step C s e = none
    cases e with
    | expire k => simp [step, hwaits]
    | run => simp [step, hstrand]

/-- When nothing is outstanding any more, the total was reached and every timer was retired. -/
theorem Inv.finished {C : Config} {s : State} (hI : Inv C s) (hn : 1 ≤ C.timerNumber)
    (h : s.outstanding = []) :
    s.calls = C.totalTimerCountMax + C.timerNumber ∧ s.count = C.totalTimerCountMax := by
  have hretired := hI.retired
  rw [h, List.length_nil] at hretired
  have hcount : s.count = C.totalTimerCountMax := by
    refine Int.le_antisymm hI.le (Int.not_lt.mp fun hlt => ?_)
    have := hI.full hlt
    omega
  have hcalls := hI.calls
  refine ⟨?_, hcount⟩
  omega

/-- In every run: the counter stays within the total, each timer has at most one wait
outstanding and none is ever cancelled, and all of them are outstanding until the total is
reached. Every run ends, after as many calls of `print` as the total and the timers together.
The values printed are `1, 2, …` up to the total, under labels of timers. -/
theorem printer_prints_total (C : Config) (hn : 1 ≤ C.timerNumber) (es : List Event) {s : State}
    (hr : (printer C).run es = some s) :
    ((0 ≤ s.count ∧ s.count ≤ C.totalTimerCountMax) ∧ s.outstanding.Nodup ∧ s.cancelled = 0 ∧
        s.outstanding.length + s.idle = C.timerNumber ∧
        (s.count < (C.totalTimerCountMax : ℤ) → s.idle = 0)) ∧
      (es.length ≤ 2 * (C.totalTimerCountMax + C.timerNumber) ∧
        ((∀ e, (printer C).step s e = none) ↔ s.outstanding = []) ∧
        (s.outstanding = [] → s.calls = C.totalTimerCountMax + C.timerNumber ∧
          s.count = C.totalTimerCountMax)) ∧
      s.lines.map Line.count = (List.range s.lines.length).map (fun i : ℕ => (i : ℤ) + 1) ∧
      (s.lines.length : ℤ) = s.count ∧
      ∀ l ∈ s.lines, 1 ≤ l.timer ∧ l.timer ≤ C.timerNumber := by
  have hI := (inv_preserved C).run (inv_init C) hr
  have hlen := Machine.length_le_of_decreases (inv_preserved C) (remaining C)
    (fun s e t hI h => remaining_decreases hI h) (inv_init C) hr
  rw [remaining_init] at hlen
  exact ⟨⟨⟨hI.nonneg, hI.le⟩, hI.nodup, hI.cancelled, hI.retired, hI.full⟩,
    ⟨by omega, stuck_iff_outstanding_nil, hI.finished hn⟩, hI.counted, hI.length, hI.labels⟩

def threeLines : List Event :=
  [.expire 1, .run, .expire 0, .expire 1, .run, .run, .expire 1, .expire 0, .run, .run]

theorem two_timers_print_three :
    ∃ s, (printer ⟨2, 3, fun _ => 0⟩).run threeLines = some s ∧ s.calls = 5 ∧ s.count = 3 := by
  apply Exists.intro
  refine ⟨rfl, ?_⟩
  exact (printer_prints_total ⟨2, 3, fun _ => 0⟩ (by decide) threeLines rfl).2.1.2.2 rfl

end AsioSamples.Printer
