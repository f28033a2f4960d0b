import AsioSamples.Asio.StrandToken

/-!
# What a strand promises

One thread at a time runs handlers of a strand, the handlers run in the order in which they were
submitted, and the strand goes on until all of them have run.
-/

namespace AsioSamples.Asio

open Framework

variable {ι ω : Type}

namespace StrandView

variable {v v' : StrandView ι ω} {e : Strand.Event ι ω}

/-- The operation that a thread is about to push on the ready queue. -/
def hand (v : StrandView ι ω) : List ω :=
  match v.token with
  | .held _ (.pushing op) => [op]
  | _ => []

def pending (v : StrandView ι ω) : List ω := v.ready ++ (v.hand ++ v.waiting)

structure Inv (v : StrandView ι ω) : Prop where
  free : v.token = .free → v.ready = [] ∧ v.waiting = []
  pushing : ∀ t op, v.token = .held t (.pushing op) → v.ready = []
  sublist : (v.started ++ v.pending).Sublist v.submitted
  order : v.shutdown = false → v.started ++ v.pending = v.submitted

theorem inv_init : Inv ({} : StrandView ι ω) where
  free _ := ⟨rfl, rfl⟩
  pushing t op h := by cases h
  sublist := .slnil
  order _ := rfl

/-- Where the token moves without the queues. -/
theorem Inv.moved (hI : Inv v) {k : Token ι ω} (hk : k ≠ .free) (hhand : v.hand = [])
    (hpushing : ∀ t op, k ≠ .held t (.pushing op)) : Inv { v with token := k } := by
  have hhand' : hand { v with token := k } = [] := by
    unfold hand
    split
    · exact absurd ‹_› (hpushing _ _)
    · rfl
  have hpending : pending { v with token := k } = v.pending := by
    rw [pending, pending, hhand', hhand]
  refine ⟨fun h => absurd h hk, fun t op h => absurd h (hpushing t op), ?_, fun hs => ?_⟩
  · rw [hpending]
    exact hI.sublist
  · rw [hpending]
    exact hI.order hs

/-- Where the operations are shifted within the queues. -/
theorem Inv.shifted (hI : Inv v) {k : Token ι ω} {ready waiting started : List ω}
    (hfree : k = .free → ready = [] ∧ waiting = []) (hpushing : ∀ t op, k ≠ .held t (.pushing op))
    (hsame : started ++ (ready ++ waiting) = v.started ++ v.pending) :
    Inv { v with token := k, ready := ready, waiting := waiting, started := started } := by
  have hpending : pending { v with
      token := k, ready := ready, waiting := waiting, started := started } = ready ++ waiting := by
    unfold pending hand
    split
    · exact absurd ‹_› (hpushing _ _)
    · rfl
  refine ⟨hfree, fun t op h => absurd h (hpushing t op), ?_, fun hs => ?_⟩
  · rw [hpending, hsame]
    exact hI.sublist
  · rw [hpending, hsame]
    exact hI.order hs

theorem Inv.step (hI : Inv v) (h : v.Step e v') : Inv v' := by
  cases h with
  | inlined t op cur inl h => exact hI.moved (by simp) (by simp [hand, h]) (by simp)
  | refused t op mayInline h => exact hI
  | waits t op mayInline h hopen =>
      have hpending : pending { v with
          waiting := v.waiting ++ [op], submitted := v.submitted ++ [op] } = v.pending ++ [op] := by
        simp [pending, hand]
      refine ⟨fun hf => absurd hf h, hI.pushing, ?_, fun hs => ?_⟩
      · rw [hpending, ← List.append_assoc]
        exact hI.sublist.append_right [op]
      · rw [hpending, ← List.append_assoc]
        exact congrArg (· ++ [op]) (hI.order hs)
  | acquires t op mayInline h hopen =>
      obtain ⟨hready, hwaiting⟩ := hI.free h
      have horder := hI.order hopen
      have hpending : v.pending = [] := by simp [pending, hand, h, hready, hwaiting]
      rw [hpending, List.append_nil] at horder
      have hnew : v.started ++ pending { v with
          token := .held t (.pushing op), submitted := v.submitted ++ [op] } =
          v.submitted ++ [op] := by
        simp [pending, hand, hready, hwaiting, horder]
      constructor
      · intro hf
        cases hf
      · exact fun _ _ _ => hready
      · exact hnew ▸ List.Sublist.refl _
      · exact fun _ => hnew
  | pushed t op h =>
      have hready := hI.pushing t op h
      exact hI.shifted (by simp) (by simp) (by simp [pending, hand, h, hready])
  | scheduled t h => exact hI.moved (by simp) (by simp [hand, h]) (by simp)
  | ranInline t h => exact hI.moved (by simp) (by simp [hand, h]) (by simp)
  | invoked t h => exact hI.moved (by simp) (by simp [hand, h]) (by simp)
  | looked t h hready => exact hI.moved (by simp) (by simp [hand, h]) (by simp)
  | started t op ops h hready =>
      exact hI.shifted (by simp) (by simp) (by simp [pending, hand, h, hready])
  | finished t op h => exact hI.moved (by simp) (by simp [hand, h]) (by simp)
  | threw t op h => exact hI.moved (by simp) (by simp [hand, h]) (by simp)
  | returned t e he cur op inl h => exact hI.moved (by simp) (by simp [hand, h]) (by simp)
  | left t h hempty =>
      obtain ⟨hready, hwaiting⟩ := List.append_eq_nil_iff.mp hempty
      exact hI.shifted (by simp) (by simp) (by simp [pending, hand, h, hready, hwaiting])
  | stayed t h hmore => exact hI.shifted (by simp) (by simp) (by simp [pending, hand, h])
  | rescheduled t h => exact hI.moved (by simp) (by simp [hand, h]) (by simp)
  | closed =>
      refine ⟨fun _ => ⟨rfl, rfl⟩, fun _ _ _ => rfl, List.Sublist.trans ?_ hI.sublist, ?_⟩
      · have hhand : v.hand.Sublist v.pending :=
          (List.sublist_append_left v.hand v.waiting).trans (List.sublist_append_right _ _)
        have hleft : pending { v with shutdown := true, waiting := [], ready := [] } = v.hand :=
          List.append_nil _
        rw [hleft]
        exact hhand.append_left v.started
      · intro hs
        cases hs

end StrandView

/-- A function is given to the strand. -/
@[simp] def Strand.Event.isCall : Strand.Event ι ω → Bool
  | .call .. => true
  | _ => false

/-- A thread goes on with what the strand has to do. -/
@[simp] def Strand.Event.isProgress : Strand.Event ι ω → Bool
  | .call .. => false
  | .close => false
  | _ => true

/-- What is left to do, in steps of the threads. A handler that threw may have left others in
the ready queue, and then the strand is scheduled once more. -/
@[simp] def Token.work (ready : List ω) : Token ι ω → ℕ
  | .free => 0
  | .queued => 3
  | .held _ (.pushing _) => 10
  | .held _ .scheduling => 4
  | .held _ .looking => 2
  | .held _ (.handling _ inlined) => 6 + inlined.length
  | .held _ .leaving => if ready = [] then 1 else 5
  | .held _ .rescheduling => 4

theorem Token.work_nil_le (ready : List ω) (k : Token ι ω) : k.work [] ≤ k.work ready := by
  cases k with
  | held t h =>
      cases h with
      | leaving =>
          simp only [Token.work, if_true]
          split <;> omega
      | _ => exact Nat.le_refl _
  | _ => exact Nat.le_refl _

namespace StrandView

variable {v v' : StrandView ι ω} {e : Strand.Event ι ω}

def work (v : StrandView ι ω) : ℕ :=
  v.token.work v.ready + 5 * v.ready.length + 9 * v.waiting.length

/-- A call adds no more than ten steps of the threads. -/
theorem work_step (hI : Inv v) (h : v.Step e v') :
    v'.work + (if e.isProgress then 1 else 0) ≤ v.work + (if e.isCall then 10 else 0) := by
  cases h with
  | inlined t op cur inl h =>
      simp only [work, h, Token.work, List.length_cons, Strand.Event.isProgress,
        Strand.Event.isCall, Bool.false_eq_true, if_true, if_false]
      omega
  | refused t op mayInline h => exact Nat.add_le_add_left (Nat.zero_le 10) _
  | waits t op mayInline h hopen =>
      simp only [work, Token.work, List.length_append, List.length_singleton,
        Strand.Event.isProgress, Strand.Event.isCall, Bool.false_eq_true, if_true, if_false]
      omega
  | acquires t op mayInline h hopen =>
      simp only [work, h, Token.work, Strand.Event.isProgress, Strand.Event.isCall,
        Bool.false_eq_true, if_true, if_false]
      omega
  | pushed t op h =>
      simp only [work, h, Token.work, hI.pushing t op h, List.length_append, List.length_singleton,
        List.length_nil, Strand.Event.isProgress, Strand.Event.isCall, Bool.false_eq_true, if_true,
        if_false]
      omega
  | scheduled t h =>
      simp only [work, h, Token.work, Strand.Event.isProgress, Strand.Event.isCall,
        Bool.false_eq_true, if_true, if_false]
      omega
  | ranInline t h =>
      simp only [work, h, Token.work, Strand.Event.isProgress, Strand.Event.isCall,
        Bool.false_eq_true, if_true, if_false]
      omega
  | invoked t h =>
      simp only [work, h, Token.work, Strand.Event.isProgress, Strand.Event.isCall,
        Bool.false_eq_true, if_true, if_false]
      omega
  | looked t h hready =>
      simp only [work, h, Token.work, hready, Strand.Event.isProgress, Strand.Event.isCall,
        Bool.false_eq_true, if_true, if_false]
      omega
  | started t op ops h hready =>
      simp only [work, h, Token.work, hready, List.length_cons, List.length_nil,
        Strand.Event.isProgress, Strand.Event.isCall, Bool.false_eq_true, if_true, if_false]
      omega
  | finished t op h =>
      simp only [work, h, Token.work, List.length_nil, Strand.Event.isProgress, Strand.Event.isCall,
        Bool.false_eq_true, if_true, if_false]
      omega
  | threw t op h =>
      simp only [work, h, Token.work, List.length_nil, Strand.Event.isProgress, Strand.Event.isCall,
        Bool.false_eq_true, if_true, if_false]
      split <;> omega
  | returned t e he cur op inl h =>
      rcases he with rfl | rfl
      · simp only [work, h, Token.work, List.length_cons, Strand.Event.isProgress,
          Strand.Event.isCall, Bool.false_eq_true, if_true, if_false]
        omega
      · simp only [work, h, Token.work, List.length_cons, Strand.Event.isProgress,
          Strand.Event.isCall, Bool.false_eq_true, if_true, if_false]
        omega
  | left t h hempty =>
      simp only [work, h, Token.work, List.append_eq_nil_iff.mp hempty, List.length_nil,
        Strand.Event.isProgress, Strand.Event.isCall, Bool.false_eq_true, if_true, if_false]
      omega
  | stayed t h hmore =>
      simp only [work, h, Token.work, List.length_append, List.length_nil, Strand.Event.isProgress,
        Strand.Event.isCall, Bool.false_eq_true, if_true, if_false]
      by_cases hready : v.ready = []
      · have hwaiting : 0 < v.waiting.length := by
          rw [hready, List.nil_append] at hmore
          exact List.length_pos_iff.mpr hmore
        simp only [hready, if_true, List.length_nil]
        omega
      · simp only [hready, if_false]
        omega
  | rescheduled t h =>
      simp only [work, h, Token.work, Strand.Event.isProgress, Strand.Event.isCall,
        Bool.false_eq_true, if_true, if_false]
      omega
  | closed =>
      have hle := Token.work_nil_le v.ready v.token
      simp only [work, List.length_nil, Strand.Event.isProgress, Strand.Event.isCall,
        Bool.false_eq_true, if_false]
      omega

/-- As long as a thread holds the token, or the executor does, some thread can go on. -/
theorem free_of_stuck [DecidableEq ι] (t₀ : ι)
    (hstuck : ∀ e : Strand.Event ι ω, e.isProgress = true → Strand.step v.strand e = none) :
    v.token = .free := by
  cases htoken : v.token with
  | free => rfl
  | queued =>
      have hnone := hstuck (.invoke t₀) rfl
      simp [Strand.step, Strand.inProgram, strand, htoken, Token.frames, Token.invokers] at hnone
  | held t h =>
      have hframes : v.strand.frames t = h.frames := by
        simp [strand, htoken, Token.frames]
      cases h with
      | pushing op =>
          have hnone := hstuck (.push t) rfl
          simp [Strand.step, hframes, Hold.frames] at hnone
      | scheduling =>
          have hnone := hstuck (.schedule t) rfl
          simp [Strand.step, hframes, Hold.frames] at hnone
      | looking =>
          have hnone := hstuck (.next t) rfl
          simp only [Strand.step, hframes, Hold.frames] at hnone
          split at hnone <;> cases hnone
      | handling op inl =>
          have hnone := hstuck (.finish t) rfl
          cases inl <;> simp [Strand.step, hframes, Hold.frames] at hnone
      | leaving =>
          have hnone := hstuck (.exit t) rfl
          simp [Strand.step, hframes, Hold.frames] at hnone
      | rescheduling =>
          have hnone := hstuck (.reschedule t) rfl
          simp [Strand.step, hframes, Hold.frames] at hnone

end StrandView

namespace Strand

variable [DecidableEq ι] {s : Strand ι ω} {es : List (Event ι ω)}

/-- In every run the threads share one token. -/
theorem run_view (hr : strand.run es = some s) : ∃ v : StrandView ι ω, s = v.strand ∧ v.Inv ∧
    es.countP Event.isProgress + v.work ≤ 10 * es.countP Event.isCall := by
  refine Machine.run_induction (J := fun es s => ∃ v : StrandView ι ω, s = v.strand ∧ v.Inv ∧
    es.countP Event.isProgress + v.work ≤ 10 * es.countP Event.isCall) ?_ ?_ hr
  · exact ⟨{}, rfl, StrandView.inv_init, Nat.le_refl 0⟩
  · intro es s e s' h hs
    obtain ⟨v, rfl, hI, hle⟩ := h
    obtain ⟨v', hstep, rfl⟩ := StrandView.step_of_strand hs
    refine ⟨v', rfl, hI.step hstep, ?_⟩
    have hwork := StrandView.work_step hI hstep
    rw [List.countP_append, List.countP_append, List.countP_singleton, List.countP_singleton]
    split at hwork <;> split at hwork <;> simp_all <;> omega

/-- Never two threads are in the strand, and while one is, the executor holds no invoker of it. The
strand is locked exactly as long as a thread or the executor holds it. A function that was called
at once runs inside a handler that the strand runs. -/
theorem strand_excludes (es : List (Event ι ω)) (hr : strand.run es = some s) :
    (∀ t u, s.frames t ≠ [] → s.frames u ≠ [] → t = u) ∧ s.invokers ≤ 1 ∧
      (∀ t, s.frames t ≠ [] → s.invokers = 0) ∧
      (s.locked = false ↔ s.invokers = 0 ∧ ∀ t, s.frames t = []) ∧
      ∀ t op, .inlined op ∈ s.frames t → ∃ cur, .running (some cur) ∈ s.frames t := by
  obtain ⟨v, rfl, -, -⟩ := run_view hr
  cases htoken : v.token with
  | free => simp [StrandView.strand, htoken, Token.frames, Token.invokers, Token.locked]
  | queued => simp [StrandView.strand, htoken, Token.frames, Token.invokers, Token.locked]
  | held u h =>
      have hother : ∀ t, v.strand.frames t ≠ [] → t = u := by
        intro t ht
        by_contra htu
        simp [StrandView.strand, htoken, Token.frames, htu] at ht
      have hframes : v.strand.frames u = h.frames := by
        simp [StrandView.strand, htoken, Token.frames]
      have hinvokers : v.strand.invokers = 0 := by
        simp [StrandView.strand, htoken, Token.invokers]
      have hlocked : v.strand.locked = true := by
        simp [StrandView.strand, htoken, Token.locked]
      refine ⟨fun t u' ht hu' => (hother t ht).trans (hother u' hu').symm, by omega,
        fun _ _ => hinvokers, ?_, fun t op hop => ?_⟩
      · rw [hlocked]
        refine ⟨fun hf => absurd hf (by decide), fun hn => ?_⟩
        exact absurd (hframes.symm.trans (hn.2 u)) h.frames_ne_nil
      · have htu := hother t (List.ne_nil_of_mem hop)
        rw [htu, hframes] at hop ⊢
        exact Hold.running_of_inlined hop

/-- Two threads submit three functions. The second one is called at once, in the first one. -/
def twoThreads : List (Event ℕ ℕ) :=
  [.call 0 7 false, .push 0, .schedule 0, .invoke 1, .next 1, .call 1 8 true, .call 0 9 true]

theorem second_thread_excludes : ∃ s, strand.run twoThreads = some s ∧ s.invokers = 0 ∧
    ∀ t, s.frames t ≠ [] → t = 1 := by
  refine ⟨_, rfl, ?_⟩
  have h := strand_excludes twoThreads rfl
  exact ⟨h.2.2.1 1 (by decide), fun t ht => h.1 t 1 ht (by decide)⟩

/-- Handlers run in the order in which they were submitted. Until the strand is shut down, what
was submitted has been started, is in a queue, or is in the hands of the thread that locks the
strand. -/
theorem strand_keeps_order (es : List (Event ι ω)) (hr : strand.run es = some s) :
    ∃ hand : List ω, (hand = [] ∨ ∃ t op, s.frames t = [.pushing op] ∧ hand = [op]) ∧
      (s.started ++ (s.readyQueue ++ (hand ++ s.waitingQueue))).Sublist s.submitted ∧
      (s.shutdown = false →
        s.started ++ (s.readyQueue ++ (hand ++ s.waitingQueue)) = s.submitted) := by
  obtain ⟨v, rfl, hI, -⟩ := run_view hr
  refine ⟨v.hand, ?_, hI.sublist, hI.order⟩
  unfold StrandView.hand
  split
  · rename_i t op htoken
    refine .inr ⟨t, op, ?_, rfl⟩
    simp [StrandView.strand, htoken, Token.frames, Hold.frames]
  · exact .inl rfl

theorem two_threads_keep_order : ∃ s, strand.run twoThreads = some s ∧
    s.started = [7] ∧ s.waitingQueue = [9] ∧ ∃ hand, 7 :: (hand ++ [9]) = s.submitted := by
  refine ⟨_, rfl, rfl, rfl, ?_⟩
  obtain ⟨hand, -, -, horder⟩ := strand_keeps_order twoThreads rfl
  exact ⟨hand, horder rfl⟩

/-- The threads take no more than ten steps for each call. When they can take none any more, the
strand is unlocked and everything that was submitted has been started. -/
theorem strand_finishes (t₀ : ι) (es : List (Event ι ω)) (hr : strand.run es = some s) :
    es.countP Event.isProgress ≤ 10 * es.countP Event.isCall ∧
      ((∀ e : Event ι ω, e.isProgress = true → step s e = none) →
        s.locked = false ∧ s.readyQueue = [] ∧ s.waitingQueue = [] ∧
          (s.shutdown = false → s.started = s.submitted)) := by
  obtain ⟨v, rfl, hI, hle⟩ := run_view hr
  refine ⟨by omega, fun hstuck => ?_⟩
  have hfree := StrandView.free_of_stuck t₀ hstuck
  obtain ⟨hready, hwaiting⟩ := hI.free hfree
  refine ⟨?_, hready, hwaiting, fun hopen => ?_⟩
  · simp [StrandView.strand, hfree, Token.locked]
  · have horder := hI.order hopen
    have hpending : v.pending = [] := by
      simp [StrandView.pending, StrandView.hand, hfree, hready, hwaiting]
    rwa [hpending, List.append_nil] at horder

/-- The first handler throws once the second one has returned. -/
def theirEnd : List (Event ℕ ℕ) :=
  [.finish 1, .throw 1, .exit 1, .reschedule 1, .invoke 0, .next 0, .finish 0, .next 0, .exit 0]

theorem two_threads_finish : ∃ s, strand.run (twoThreads ++ theirEnd) = some s ∧
    (twoThreads ++ theirEnd).countP Event.isProgress ≤ 30 := by
  refine ⟨_, rfl, ?_⟩
  exact (strand_finishes 0 (twoThreads ++ theirEnd) rfl).1

end Strand

end AsioSamples.Asio
