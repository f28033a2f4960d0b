import AsioSamples.Asio.ReactorSteps

/-!
# The runs of the reactor

Whatever the programs do with their timers, no wait is lost and none is answered twice, and the
timer descriptor is armed for all that are outstanding.
-/

namespace AsioSamples.Asio

open Framework

variable {T τ ω κ : Type} [DecidableEq τ]

section Unfinished

variable {p : Pending T τ ω} {t : τ} {ops rest : List ω}

/-- The outstanding waits of all timers are `ops`, in some order. -/
def Pending.Unfinished (p : Pending T τ ω) (ops : List ω) : Prop :=
  ∃ l : List τ, l.Nodup ∧ (∀ t, t ∈ l ↔ p t ≠ none) ∧ ops.Perm (l.flatMap p.waits)

omit [DecidableEq τ] in
theorem Pending.Unfinished.perm_flatMap (h : p.Unfinished ops) {l : List τ} (hl : l.Nodup)
    (hmem : ∀ t, t ∈ l ↔ p t ≠ none) : ops.Perm (l.flatMap p.waits) := by
  obtain ⟨l', hl', hmem', hperm⟩ := h
  have hll : l'.Perm l := (List.perm_ext_iff_of_nodup hl' hl).mpr fun t => by
    rw [hmem, hmem']
  exact hperm.trans (hll.flatMap_right _)

omit [DecidableEq τ] in
theorem Pending.Unfinished.of_perm (h : p.Unfinished rest) (hperm : ops.Perm rest) :
    p.Unfinished ops := by
  obtain ⟨l, hl, hmem, hrest⟩ := h
  exact ⟨l, hl, hmem, hperm.trans hrest⟩

omit [DecidableEq τ] in
theorem Pending.unfinished_none : Unfinished (fun _ => none : Pending T τ ω) [] :=
  ⟨[], .nil, by simp, .nil⟩

/-- The waits on one timer and those on the others. -/
theorem Pending.Unfinished.split (h : p.Unfinished ops) (t : τ) :
    ∃ rest, (p.clear t).Unfinished rest ∧ ops.Perm (p.waits t ++ rest) := by
  obtain ⟨l, hl, hmem, hperm⟩ := h
  have hwaits : ∀ u ∈ l.erase t, (p.clear t).waits u = p.waits u := by
    intro u hu
    rw [clear_waits, Function.update_of_ne (hl.mem_erase_iff.mp hu).1]
  refine ⟨(l.erase t).flatMap p.waits, ⟨l.erase t, hl.erase t, fun u => ?_, ?_⟩, ?_⟩
  · rw [hl.mem_erase_iff, hmem, clear]
    by_cases hu : u = t
    · simp [hu]
    · simp [hu]
  · rw [List.flatMap_congr hwaits]
  · refine hperm.trans ?_
    by_cases ht : t ∈ l
    · rw [← List.flatMap_cons]
      exact (List.perm_cons_erase ht).flatMap_right _
    · have hnone : p.waits t = [] := by
        rw [hmem, not_not] at ht
        rw [waits, ht]
        rfl
      rw [hnone, List.nil_append, List.erase_of_not_mem ht]

theorem Pending.Unfinished.update (h : (p.clear t).Unfinished rest) (v : Option (T × List ω)) :
    Unfinished (Function.update p t v) ((v.map Prod.snd).getD [] ++ rest) := by
  cases v with
  | none => exact h
  | some v =>
      obtain ⟨l, hl, hmem, hperm⟩ := h
      have ht : t ∉ l := by simp [hmem, clear]
      have hwaits : ∀ u ∈ l, waits (Function.update p t (some v)) u = (p.clear t).waits u := by
        intro u hu
        have hut : u ≠ t := fun he => ht (he ▸ hu)
        rw [waits_update, clear_waits, Function.update_of_ne hut, Function.update_of_ne hut]
      refine ⟨t :: l, List.nodup_cons.mpr ⟨ht, hl⟩, fun u => ?_, ?_⟩
      · by_cases hu : u = t
        · simp [hu]
        · simp [hu, hmem, clear]
      · rw [List.flatMap_cons, List.flatMap_congr hwaits, waits_update, Function.update_self]
        exact hperm.append_left _

theorem Pending.schedule_eq (time : T) (op : ω) : p.schedule time t op =
    Function.update p t (some ((p.expiry t).getD time, p.waits t ++ [op])) := by
  rw [schedule, expiry, waits]
  cases p t with
  | none => rfl
  | some v => rfl

theorem Pending.schedule_waits (time : T) (op : ω) : (p.schedule time t op).waits =
    Function.update p.waits t (p.waits t ++ [op]) := by
  rw [schedule_eq, waits_update]
  rfl

theorem Pending.Unfinished.keep (h : (p.clear t).Unfinished rest) (ht : p t = none → ops = []) :
    (p.keep t ops).Unfinished (ops ++ rest) := by
  unfold Pending.keep
  split
  · rename_i hops
    rw [hops]
    exact h
  · rename_i hops
    cases hp : p t with
    | none => exact absurd (ht hp) hops
    | some v => exact h.update (some (v.1, ops))

theorem Pending.Unfinished.move (h : p.Unfinished ops) {s : τ} (hs : p s = none) (t : τ) :
    (p.move s t).Unfinished ops := by
  obtain ⟨rest, hrest, hperm⟩ := h.split t
  by_cases hst : s = t
  · have hmove : p.move s t = p.clear t := by
      rw [hst, Pending.move, Function.update_eq_self_iff.mpr rfl]
    rw [hmove]
    refine hrest.of_perm ?_
    have hwaits : p.waits t = [] := by
      rw [← hst, waits, hs]
      rfl
    rwa [hwaits] at hperm
  · have hmove : p.move s t = Function.update (p.clear t) s (p t) :=
      (Function.update_comm hst _ _ _)
    have hgone : (p.clear t).clear s = p.clear t :=
      clear_of_none (by rw [clear, Function.update_of_ne hst, hs])
    rw [hmove]
    rw [← hgone] at hrest
    exact (hrest.update (p t)).of_perm hperm

omit [DecidableEq τ] in
theorem Pending.Due.mem_map [LinearOrder T] {now : T} {due : List (HeapEntry T τ)}
    (h : p.Due now due) : t ∈ due.map HeapEntry.timer ↔ p t ≠ none ∧ p.after now t = none := by
  rw [List.mem_map, after, Option.filter_eq_none_iff, Option.ne_none_iff_exists']
  constructor
  · rintro ⟨entry, hin, rfl⟩
    obtain ⟨hexp, hle⟩ := (h.mem entry).mp hin
    obtain ⟨v, hv, hve⟩ := Option.map_eq_some_iff.mp hexp
    refine ⟨⟨v, hv⟩, fun v' hv' => ?_⟩
    rw [hv, Option.some.injEq] at hv'
    simpa [← hv', hve] using hle
  · rintro ⟨⟨v, hv⟩, hlate⟩
    have hle : v.1 ≤ now := by simpa using hlate v hv
    exact ⟨⟨v.1, t⟩, (h.mem ⟨v.1, t⟩).mpr ⟨expiry_of_some hv, hle⟩, rfl⟩

omit [DecidableEq τ] in
/-- The waits that are due and those that go on. -/
theorem Pending.Unfinished.after [LinearOrder T] {now : T} {due : List (HeapEntry T τ)}
    (h : p.Unfinished ops) (hdue : p.Due now due) :
    ∃ rest, (p.after now).Unfinished rest ∧ ops.Perm (p.waitsOf due ++ rest) := by
  obtain ⟨l, hl, hmem, hperm⟩ := h
  have hon : ∀ t, t ∈ l.filter (fun t => (p.after now t).isSome) ↔ p.after now t ≠ none := by
    intro t
    rw [List.mem_filter, hmem, Option.isSome_iff_ne_none]
    refine and_iff_right_of_imp fun hne hp => hne ?_
    rw [Pending.after, hp, Option.filter_none]
  have hwaits : ∀ t ∈ l.filter (fun t => (p.after now t).isSome),
      (p.after now).waits t = p.waits t := by
    intro t ht
    obtain ⟨v, hv⟩ := Option.ne_none_iff_exists'.mp ((hon t).mp ht)
    have hp : p t = some v := (Option.filter_eq_some_iff.mp hv).1
    rw [waits_of_some hv, waits_of_some hp]
  have hends : (due.map HeapEntry.timer).Perm (l.filter fun t => !(p.after now t).isSome) := by
    refine (List.perm_ext_iff_of_nodup hdue.nodup (hl.filter _)).mpr fun t => ?_
    rw [hdue.mem_map, List.mem_filter, hmem]
    simp
  have hdue' : p.waitsOf due = (due.map HeapEntry.timer).flatMap p.waits :=
    (List.flatMap_map ..).symm
  refine ⟨_, ⟨_, hl.filter _, hon, .refl _⟩, hperm.trans ?_⟩
  rw [hdue', List.flatMap_congr hwaits]
  refine (((List.filter_append_perm (fun t => (p.after now t).isSome) l).symm.trans
    List.perm_append_comm).flatMap_right _).trans ?_
  rw [List.flatMap_append]
  exact (hends.symm.flatMap_right _).append_right _

end Unfinished

namespace Reactor

/-- The waits that the program started. -/
def scheduled (es : List (Event τ ω κ)) : List ω :=
  es.filterMap fun
    | .schedule _ _ _ op => some op
    | _ => none

/-- Every wait that was started is answered, abandoned or outstanding, and only one of them. -/
def Accounted (es : List (Event τ ω κ)) (w : Waits τ ω) : Prop :=
  ∃ rest, w.pending.Unfinished rest ∧
    (scheduled es).Perm (w.completed.map Prod.fst ++ (w.abandoned ++ rest))

variable {r : Reactor τ ω} {w w' : Waits τ ω} {es : List (Event τ ω κ)} {e : Event τ ω κ}

omit [DecidableEq τ] in
theorem scheduled_append : scheduled (es ++ [e]) = scheduled es ++ scheduled [e] :=
  List.filterMap_append

omit [DecidableEq τ] in
/-- From a step the waits that were started, that are completed and that are left. -/
theorem Accounted.next [DecidableEq ω] (done : List ω) {rest rest' gone : List ω}
    (hperm : (scheduled es).Perm (w.completed.map Prod.fst ++ (w.abandoned ++ rest)))
    (hcompleted : w'.completed.map Prod.fst = w.completed.map Prod.fst ++ done)
    (habandoned : w'.abandoned = w.abandoned ++ gone) (hrest' : w'.pending.Unfinished rest')
    (hrest : (scheduled [e] ++ rest).Perm (done ++ (gone ++ rest'))) :
    Accounted (es ++ [e]) w' := by
  refine ⟨rest', hrest', ?_⟩
  rw [scheduled_append, hcompleted, habandoned]
  rw [List.perm_iff_count] at hperm hrest ⊢
  intro op
  have hperm := hperm op
  have hrest := hrest op
  simp only [List.count_append] at hperm hrest ⊢
  omega

theorem Accounted.step [DecidableEq ω] [DecidableEq κ] {cancellationKey : ω → κ}
    (h : Accounted es w) (hstep : w.Step cancellationKey e w') : Accounted (es ++ [e]) w' := by
  obtain ⟨rest, hrest, hperm⟩ := h
  cases hstep with
  | scheduled hopen now time timer op =>
      obtain ⟨others, hothers, hsplit⟩ := hrest.split timer
      rw [Pending.schedule_eq]
      refine .next [] hperm (List.append_nil _).symm (List.append_nil _).symm (hothers.update _) ?_
      rw [Option.map_some, Option.getD_some, List.append_assoc]
      exact (hsplit.cons op).trans List.perm_middle.symm
  | refused hclosed now time timer op =>
      exact .next _ hperm (List.map_append ..) (List.append_nil _).symm hrest (.refl _)
  | cancelled timer maxCancelled n hn =>
      obtain ⟨others, hothers, hsplit⟩ := hrest.split timer
      refine .next ((w.pending.waits timer).take n) hperm (by simp [Function.comp_def])
        (List.append_nil _).symm (hothers.keep fun hp => ?_) ?_
      · rw [Pending.waits, hp]
        exact List.drop_nil
      · rw [List.nil_append, ← List.append_assoc, List.take_append_drop]
        exact hsplit
  | cancelledByKey timer k =>
      obtain ⟨others, hothers, hsplit⟩ := hrest.split timer
      refine .next ((w.pending.waits timer).filter fun op => cancellationKey op = k) hperm
        (by simp [Function.comp_def]) (List.append_nil _).symm (hothers.keep fun hp => ?_) ?_
      · rw [Pending.waits, hp]
        rfl
      · rw [List.nil_append, ← List.append_assoc]
        refine hsplit.trans (List.Perm.append_right _ ?_)
        simpa using (List.filter_append_perm (fun op => cancellationKey op = k) _).symm
  | moved target source =>
      obtain ⟨others, hothers, hsplit⟩ := hrest.split target
      have hnone : w.pending.clear target target = none := Function.update_self ..
      exact .next _ hperm (by simp [Function.comp_def]) (List.append_nil _).symm
        (hothers.move hnone source) hsplit
  | ended now later due hdue =>
      obtain ⟨late, hlate, hsplit⟩ := hrest.after hdue
      refine .next (w.pending.waitsOf due) hperm ?_ (List.append_nil _).symm hlate hsplit
      simp [Function.comp_def]
  | closed l hl hmem =>
      have hgone := hrest.perm_flatMap hl hmem
      refine .next [] hperm (List.append_nil _).symm rfl Pending.unfinished_none ?_
      rw [List.append_nil]
      exact hgone

/-- The waits that the queue holds, in the order of its heap. -/
def outstanding (r : Reactor τ ω) : List ω :=
  r.timerQueue.heap.flatMap fun entry => r.timerQueue.opQueue entry.timer

theorem Holds.unfinished (h : Holds r w) : w.pending.Unfinished (outstanding r) := by
  rcases Bool.eq_false_or_eq_true w.shutdown with hw | hw
  · obtain ⟨hempty, hnone⟩ := h.emptied hw
    rw [outstanding, hempty.heap, hnone]
    exact Pending.unfinished_none
  · have hstores := h.stores hw
    refine ⟨r.timerQueue.heap.map HeapEntry.timer, hstores.heaped.backed.nodup, fun t => ?_, ?_⟩
    · rw [List.mem_map, Ne, ← Pending.expiry_eq_none, ← Ne, Option.ne_none_iff_exists']
      constructor
      · rintro ⟨entry, hin, rfl⟩
        exact ⟨entry.time, (hstores.heaped.mem entry).mp hin⟩
      · rintro ⟨time, ht⟩
        exact ⟨⟨time, t⟩, (hstores.heaped.mem ⟨time, t⟩).mpr ht, rfl⟩
    · rw [outstanding, hstores.queued, List.flatMap_map]

variable [DecidableEq ω] [DecidableEq κ] (cancellationKey : ω → κ) (es : List (Event τ ω κ))

/-- The timer queue and its reactor are a store of waits. -/
theorem after_refines : ∃ w, Runs (Waits.Step cancellationKey) {} es w ∧
    Holds (after cancellationKey es) w :=
  Runs.of_steps (fun _ _ e h => h.step cancellationKey e) holds_initial es

/-- No wait is lost, and none is answered twice. -/
theorem after_accounts : (scheduled es).Perm ((after cancellationKey es).completed.map Prod.fst ++
    ((after cancellationKey es).abandoned ++ outstanding (after cancellationKey es))) := by
  obtain ⟨w, hruns, hholds⟩ := after_refines cancellationKey es
  have hstart : Accounted ([] : List (Event τ ω κ)) {} := ⟨[], Pending.unfinished_none, .nil⟩
  obtain ⟨rest, hrest, hperm⟩ :=
    hruns.accumulates (J := Accounted) (fun _ _ _ _ hacc hstep => hacc.step hstep) hstart
  obtain ⟨l, hl, hmem, hout⟩ := hholds.unfinished
  rw [hholds.completed, hholds.abandoned]
  have hrest' := hrest.perm_flatMap hl hmem
  exact hperm.trans (((hrest'.trans hout.symm).append_left _).append_left _)

/-- Whatever is outstanding, the timer descriptor is armed, and goes off at once or less than a
microsecond after the expiry. When it is set for an expiry that has passed, it goes off at once. -/
theorem after_wakes : ∀ entry ∈ (after cancellationKey es).timerQueue.heap,
    ∃ timeout, (after cancellationKey es).timerFd = some timeout ∧ timeout.WakesBy entry.time := by
  obtain ⟨w, -, hholds⟩ := after_refines cancellationKey es
  intro entry hin
  rcases Bool.eq_false_or_eq_true w.shutdown with hw | hw
  · rw [(hholds.emptied hw).1.heap] at hin
    cases hin
  · exact hholds.timely hw entry.timer entry.time
      (((hholds.stores hw).heaped.mem entry).mp hin)

/-- The first timer is cancelled, and the timer descriptor is still armed for it. -/
def cancelled : List (Event ℕ ℕ ℕ) := [.schedule 0 5000 0 7, .schedule 0 8000 1 8, .cancel 0 none]

theorem cancelled_wakes : ∃ timeout, (after id cancelled).timerFd = some timeout ∧
    timeout.WakesBy 8000 := after_wakes id cancelled ⟨8000, 1⟩ (by decide +kernel)

end Reactor

end AsioSamples.Asio
