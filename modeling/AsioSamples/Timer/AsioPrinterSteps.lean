import AsioSamples.Timer.AsioPrinter

/-!
# The timers of the printer, wherever they lie

A timer of the printer has at most one wait, and this goes along when the timer moves.
-/

namespace AsioSamples.Printer

open Framework Asio

variable {place : ℕ → Address} {service : TimerService Address ℕ} {size k : ℕ} {now time : ℤ}
variable {expiry : ℕ → ℤ} {waits : List ℕ} {completed : List (ℕ × WaitResult)} {t : Address}

/-- On the timers of `waits` a handler waits that is bound to their number. -/
def pendingAt (place : ℕ → Address) (expiry : ℕ → ℤ) (waits : List ℕ) : Pending ℤ Address ℕ :=
  fun t => if t = place t.2 ∧ t.2 ∈ waits then some (expiry t.2, [t.2]) else none

def waitsAt (place : ℕ → Address) (expiry : ℕ → ℤ) (waits : List ℕ)
    (completed : List (ℕ × WaitResult)) : Waits Address ℕ where
  pending := pendingAt place expiry waits
  completed := completed

/-- The timers lie where `place` says, with their expiries and waits. -/
structure Placed (place : ℕ → Address) (service : TimerService Address ℕ) (size : ℕ)
    (expiry : ℕ → ℤ) (waits : List ℕ) (completed : List (ℕ × WaitResult)) : Prop where
  number : ∀ k, (place k).2 = k
  holds : service.Holds (waitsAt place expiry waits completed)
  timers : ∀ k < size, service.alive (place k) = true ∧ (service.impl (place k)).expiry = expiry k

section Service

variable {τ ω : Type} [DecidableEq τ] {s : TimerService τ ω} {t u v : τ}

theorem cancel_alive (t : τ) (s : TimerService τ ω) : (s.cancel t).2.alive = s.alive := by
  rw [TimerService.cancel]
  split <;> rfl

theorem cancel_impl (huv : u ≠ t) : (s.cancel t).2.impl u = s.impl u := by
  rw [TimerService.cancel]
  split
  · exact Function.update_of_ne huv _ _
  · rfl

theorem expiresAt_alive (t : τ) (time : ℤ) (s : TimerService τ ω) :
    (s.expiresAt t time).2.alive = s.alive := cancel_alive t s

theorem expiresAt_expiry (t u : τ) (time : ℤ) (s : TimerService τ ω) :
    ((s.expiresAt t time).2.impl u).expiry = if u = t then time else (s.impl u).expiry := by
  rw [TimerService.expiresAt]
  by_cases hut : u = t
  · rw [hut, TimerService.setImpl_self, if_pos rfl]
  · rw [TimerService.setImpl_of_ne hut, cancel_impl hut, if_neg hut]

theorem destroy_alive (t u : τ) (s : TimerService τ ω) :
    (s.destroy t).alive u = if u = t then false else s.alive u := by
  simp only [TimerService.destroy, cancel_alive, Function.update_apply]

theorem moveConstruct_alive (t u v : τ) (s : TimerService τ ω) :
    (s.moveConstruct t u).alive v = if v = t then true else s.alive v :=
  Function.update_apply ..

theorem moveConstruct_impl (t u v : τ) (s : TimerService τ ω) : (s.moveConstruct t u).impl v =
    if v = u then {} else if v = t then s.impl u else s.impl v := by
  simp only [TimerService.moveConstruct, TimerService.moveFrom, TimerService.setImpl,
    Function.update_apply]
  rfl

end Service

theorem pendingAt_some (h : t = place t.2 ∧ t.2 ∈ waits) :
    pendingAt place expiry waits t = some (expiry t.2, [t.2]) := if_pos h

theorem pendingAt_none (h : ¬ (t = place t.2 ∧ t.2 ∈ waits)) :
    pendingAt place expiry waits t = none := if_neg h

theorem pendingAt_place (hnumber : (place k).2 = k) : pendingAt place expiry waits (place k) =
    if k ∈ waits then some (expiry k, [k]) else none := by
  simp only [pendingAt, hnumber, true_and]

theorem pendingAt_move (hnumber : ∀ k, (place k).2 = k)
    (hnone : pendingAt place expiry waits t = none)
    (hne : t ≠ place t.2) :
    ((pendingAt place expiry waits).clear t).move t (place t.2) =
      pendingAt (Function.update place t.2 t) expiry waits := by
  rw [Pending.clear_of_none hnone, Pending.move, pendingAt_place (hnumber t.2)]
  funext u
  rw [Pending.clear, Function.update_apply, Function.update_apply, pendingAt, pendingAt,
    Function.update_apply]
  by_cases hut : u = t
  · rw [hut]
    simp [hne]
  · by_cases hup : u = place t.2
    · simp [hup, hnumber, Ne.symm hne]
    · by_cases hut2 : u.2 = t.2
      · simp [hut, hup, hut2]
      · simp [hut, hup, hut2]

/-- Where nobody waits, cancelling changes nothing. -/
theorem cancel_waits_of_none {τ ω : Type} [DecidableEq τ] {w : Waits τ ω} {t : τ}
    (ht : w.pending t = none) : w.cancel t = w := by
  have hwaits : w.pending.waits t = [] := by
    rw [Pending.waits, ht]
    rfl
  rw [Waits.cancel, hwaits, Pending.clear_of_none ht, List.map_nil, List.append_nil]

namespace Placed

theorem place_ne (h : Placed place service size expiry waits completed) {j k : ℕ} (hjk : j ≠ k) :
    place j ≠ place k := fun he => hjk (by rw [← h.number j, he, h.number k])

theorem destroy (h : Placed place service size expiry waits completed)
    (ht : t ≠ place t.2) : Placed place (service.destroy t) size expiry waits completed := by
  have hnone : pendingAt place expiry waits t = none := if_neg fun hin => ht hin.1
  have hne (k : ℕ) : place k ≠ t := by
    intro he
    rw [← he, h.number] at ht
    exact ht rfl
  refine ⟨h.number, ?_, fun k hk => ?_⟩
  · rw [← cancel_waits_of_none (w := waitsAt place expiry waits completed) hnone]
    exact h.holds.destroy t
  · rw [destroy_alive, if_neg (hne k)]
    refine ⟨(h.timers k hk).1, ?_⟩
    exact (congrArg Implementation.expiry (cancel_impl (hne k))).trans (h.timers k hk).2

/-- A timer moves to `t`. -/
theorem move (h : Placed place service size expiry waits completed) (hk : t.2 < size)
    (hfree : service.alive t = false) :
    Placed (Function.update place t.2 t) (service.moveConstruct t (place t.2)) size expiry waits
      completed := by
  have hne : t ≠ place t.2 := by
    intro he
    rw [he, (h.timers t.2 hk).1] at hfree
    cases hfree
  have hnone : pendingAt place expiry waits t = none := if_neg fun hin => hne hin.1
  have hmoved : TimerService.moved t (place t.2) (waitsAt place expiry waits completed) =
      waitsAt (Function.update place t.2 t) expiry waits completed := by
    rw [TimerService.moved, cancel_waits_of_none (w := waitsAt place expiry waits completed) hnone]
    exact congrArg (Waits.mk · _ _ _) (pendingAt_move h.number hnone hne)
  refine ⟨fun k => ?_, ?_, fun k hk => ?_⟩
  · by_cases hkt : k = t.2
    · rw [hkt, Function.update_self]
    · rw [Function.update_of_ne hkt, h.number]
  · rw [← hmoved]
    exact h.holds.moveConstruct hne hfree
  · rw [moveConstruct_alive, moveConstruct_impl]
    by_cases hkt : k = t.2
    · rw [hkt, Function.update_self, if_pos rfl, if_neg hne, if_pos rfl]
      exact ⟨rfl, (h.timers _ (hkt ▸ hk)).2⟩
    · have hkt' : place k ≠ t := fun he => hkt (by rw [← he, h.number])
      rw [Function.update_of_ne hkt, if_neg hkt', if_neg (h.place_ne hkt), if_neg hkt']
      exact h.timers k hk

theorem expiresAt (h : Placed place service size expiry waits completed) (hk : k ∉ waits)
    (time : ℤ) : Placed place (service.expiresAt (place k) time).2 size
      (Function.update expiry k time) waits completed := by
  have hnone : pendingAt place expiry waits (place k) = none := by
    rw [pendingAt_place (h.number k), if_neg hk]
  have hsame : pendingAt place (Function.update expiry k time) waits =
      pendingAt place expiry waits := by
    funext t
    by_cases ht : t.2 = k
    · simp [pendingAt, ht, hk]
    · simp [pendingAt, Function.update_of_ne ht]
  refine ⟨h.number, ?_, fun j hj => ?_⟩
  · rw [waitsAt, hsame]
    have hholds := (h.holds.expiresAt (place k) time).2
    rwa [cancel_waits_of_none (w := waitsAt place expiry waits completed) hnone] at hholds
  · rw [expiresAt_alive, expiresAt_expiry, Function.update_apply]
    refine ⟨(h.timers j hj).1, ?_⟩
    by_cases hjk : j = k
    · rw [hjk, if_pos rfl, if_pos rfl]
    · rw [if_neg (h.place_ne hjk), if_neg hjk, (h.timers j hj).2]

/-- A timer is added at `t`. -/
theorem construct (h : Placed place service size expiry waits completed) (hsize : t.2 = size)
    (hnot : size ∉ waits) (hfree : service.alive t = false) :
    Placed (Function.update place size t) (service.construct t) (size + 1)
      (Function.update expiry size 0) waits completed := by
  have hsame : pendingAt (Function.update place size t) (Function.update expiry size 0) waits =
      pendingAt place expiry waits := by
    funext u
    by_cases hu : u.2 = size
    · simp [pendingAt, hu, hnot]
    · simp [pendingAt, Function.update_of_ne hu]
  refine ⟨fun k => ?_, ?_, fun k hk => ?_⟩
  · by_cases hks : k = size
    · rw [hks, Function.update_self, hsize]
    · rw [Function.update_of_ne hks, h.number]
  · rw [waitsAt, hsame]
    exact h.holds.construct hfree
  · by_cases hks : k = size
    · rw [hks, Function.update_self, Function.update_self, TimerService.construct,
        TimerService.setImpl_self]
      exact ⟨Function.update_self .., rfl⟩
    · have hkt : place k ≠ t := fun he => hks (by rw [← h.number k, he, hsize])
      obtain ⟨hal, hexp⟩ := h.timers k (by omega)
      rw [Function.update_of_ne hks, Function.update_of_ne hks, TimerService.construct,
        TimerService.setImpl_of_ne hkt]
      exact ⟨(Function.update_of_ne hkt _ _).trans hal, hexp⟩

theorem asyncWait (h : Placed place service size expiry waits completed) (hk : k < size)
    (hnot : k ∉ waits) (now : ℤ) : Placed place (service.asyncWait now (place k) k) size expiry
      (waits ++ [k]) completed := by
  obtain ⟨hal, hexp⟩ := h.timers k hk
  have hschedule : (pendingAt place expiry waits).schedule (expiry k) (place k) k =
      pendingAt place expiry (waits ++ [k]) := by
    rw [Pending.schedule, pendingAt_place (h.number k), if_neg hnot]
    funext t
    rw [Function.update_apply]
    by_cases ht : t = place k
    · rw [if_pos ht, ht, pendingAt_place (h.number k), if_pos (by simp)]
    · rw [if_neg ht, pendingAt, pendingAt]
      by_cases htk : t.2 = k
      · have hne : t ≠ place t.2 := fun he => ht (by rw [he, htk])
        simp [hne]
      · simp [htk]
  have hholds := h.holds.asyncWait rfl hal now k
  rw [hexp] at hholds
  refine ⟨h.number, ?_, fun j hj => ?_⟩
  · rw [waitsAt, ← hschedule]
    exact hholds
  · refine ⟨(h.timers j hj).1, ?_⟩
    simp only [TimerService.asyncWait]
    by_cases hjk : j = k
    · rw [hjk, TimerService.setImpl_self]
      exact hexp
    · rw [TimerService.setImpl_of_ne (h.place_ne hjk)]
      exact (h.timers j hj).2

/-- The reactor ends the waits on the timers that have expired. -/
theorem run (h : Placed place service size expiry waits completed) (now later : ℤ) :
    ∃ ks : List ℕ, ks.Nodup ∧ ks.Pairwise (fun a b => expiry a ≤ expiry b) ∧
      (∀ k, k ∈ ks ↔ k ∈ waits ∧ expiry k ≤ now) ∧
      Placed place { service with reactor := service.reactor.run now later } size expiry
        (waits.filter fun k => decide (k ∉ ks)) (completed ++ ks.map fun k => (k, .expired)) := by
  obtain ⟨due, hdue, hholds⟩ := h.holds.run now later
  have hmem (entry : HeapEntry ℤ Address) : entry ∈ due ↔
      (entry.timer = place entry.timer.2 ∧ entry.timer.2 ∈ waits) ∧
        expiry entry.timer.2 = entry.time ∧ entry.time ≤ now := by
    rw [hdue.mem]
    simp only [waitsAt, Pending.expiry]
    by_cases hin : entry.timer = place entry.timer.2 ∧ entry.timer.2 ∈ waits
    · rw [pendingAt_some hin, Option.map_some, Option.some.injEq]
      exact (and_iff_right hin).symm
    · rw [pendingAt_none hin, Option.map_none]
      constructor
      · rintro ⟨hn, -⟩
        cases hn
      · exact fun hn => absurd hn.1 hin
  have hks : ∀ k, k ∈ due.map (fun entry => entry.timer.2) ↔ k ∈ waits ∧ expiry k ≤ now := by
    intro k
    rw [List.mem_map]
    constructor
    · rintro ⟨entry, hin, rfl⟩
      obtain ⟨⟨-, hwaits⟩, hexp, hle⟩ := (hmem entry).mp hin
      exact ⟨hwaits, hexp ▸ hle⟩
    · rintro ⟨hwaits, hle⟩
      refine ⟨⟨expiry k, place k⟩, (hmem _).mpr ?_, h.number k⟩
      simpa only [h.number, true_and] using ⟨hwaits, hle⟩
  have hends : (waitsAt place expiry waits completed).pending.waitsOf due =
      due.map fun entry => entry.timer.2 := by
    rw [List.map_eq_flatMap]
    apply List.flatMap_congr
    intro entry hin
    exact Pending.waits_of_some (pendingAt_some ((hmem entry).mp hin).1)
  have hafter : (pendingAt place expiry waits).after now =
      pendingAt place expiry (waits.filter fun k => decide (k ∉ due.map fun e => e.timer.2)) := by
    funext t
    rw [Pending.after]
    by_cases hin : t = place t.2 ∧ t.2 ∈ waits
    · rw [pendingAt_some hin]
      by_cases hlt : now < expiry t.2
      · have hleft : t.2 ∉ due.map fun entry => entry.timer.2 := fun hn =>
          absurd ((hks t.2).mp hn).2 (not_le.mpr hlt)
        rw [pendingAt_some ⟨hin.1, by simpa using ⟨hin.2, by simpa using hleft⟩⟩]
        simp [hlt]
      · have hgone : t.2 ∈ due.map fun entry => entry.timer.2 :=
          (hks t.2).mpr ⟨hin.2, not_lt.mp hlt⟩
        rw [pendingAt_none]
        · simp [Option.filter, hlt]
        · simpa using fun _ _ => by simpa using hgone
    · rw [pendingAt_none hin, pendingAt_none, Option.filter_none]
      exact fun hn => hin ⟨hn.1, (List.mem_filter.mp hn.2).1⟩
  refine ⟨due.map fun entry => entry.timer.2, ?_, ?_, hks, h.number, ?_, h.timers⟩
  · rw [show due.map (fun entry => entry.timer.2) = (due.map HeapEntry.timer).map Prod.snd by simp]
    refine List.Nodup.map_on (fun a ha b hb hab => ?_) hdue.nodup
    obtain ⟨x, hx, rfl⟩ := List.mem_map.mp ha
    obtain ⟨y, hy, rfl⟩ := List.mem_map.mp hb
    rw [((hmem x).mp hx).1.1, ((hmem y).mp hy).1.1, hab]
  · rw [List.pairwise_map]
    refine hdue.sorted.imp_of_mem fun ha hb hle => ?_
    rwa [((hmem _).mp ha).2.1, ((hmem _).mp hb).2.1]
  · rw [hends] at hholds
    simp only [waitsAt, hafter, List.map_map] at hholds
    simpa only [waitsAt, List.map_map] using hholds

end Placed

end AsioSamples.Printer
