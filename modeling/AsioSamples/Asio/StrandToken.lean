import AsioSamples.Asio.Strand

/-!
# Who holds the strand

A locked strand is like a token: either the executor has it, as an invoker, or one thread has it
and stands in one of a few places. Each step of the threads is seen here as a step of the token.
-/

namespace AsioSamples.Asio

open Framework

/-- Where the thread that holds the strand stands. -/
inductive Hold (ω : Type) where
  | pushing (op : ω)
  | scheduling
  | looking
  | handling (op : ω) (inlined : List ω)
  | leaving
  | rescheduling

def Hold.frames {ω : Type} : Hold ω → List (Frame ω)
  | .pushing op => [.pushing op]
  | .scheduling => [.scheduling]
  | .looking => [.running none]
  | .handling op inlined => inlined.map .inlined ++ [.running (some op)]
  | .leaving => [.leaving]
  | .rescheduling => [.rescheduling]

theorem Hold.frames_ne_nil {ω : Type} (h : Hold ω) : h.frames ≠ [] := by
  cases h <;> simp [Hold.frames]

theorem Hold.running_of_inlined {ω : Type} {h : Hold ω} {op : ω} (hop : .inlined op ∈ h.frames) :
    ∃ cur, .running (some cur) ∈ h.frames := by
  cases h with
  | handling cur inl => exact ⟨cur, by simp [Hold.frames]⟩
  | _ => simp [Hold.frames] at hop

/-- What the innermost frame tells about the rest. -/
def Hold.Shows {ω : Type} (h : Hold ω) (rest : List (Frame ω)) : Frame ω → Prop
  | .pushing op => h = .pushing op ∧ rest = []
  | .scheduling => h = .scheduling ∧ rest = []
  | .running none => h = .looking ∧ rest = []
  | .running (some op) => h = .handling op [] ∧ rest = []
  | .inlined op => ∃ cur inl, h = .handling cur (op :: inl) ∧
      rest = (Hold.handling cur inl).frames
  | .leaving => h = .leaving ∧ rest = []
  | .rescheduling => h = .rescheduling ∧ rest = []

theorem Hold.shows {ω : Type} {h : Hold ω} {f : Frame ω} {rest : List (Frame ω)}
    (hf : h.frames = f :: rest) : h.Shows rest f := by
  cases h with
  | handling cur inl =>
      cases inl with
      | nil =>
          obtain ⟨rfl, rfl⟩ := List.cons.inj hf
          exact ⟨rfl, rfl⟩
      | cons op inl =>
          obtain ⟨rfl, rfl⟩ := List.cons.inj hf
          exact ⟨cur, inl, rfl, rfl⟩
  | _ =>
      obtain ⟨rfl, rfl⟩ := List.cons.inj hf
      exact ⟨rfl, rfl⟩

inductive Token (ι ω : Type) where
  | free
  | queued
  | held (t : ι) (h : Hold ω)

/-- A strand as its users see it. -/
structure StrandView (ι ω : Type) where
  token : Token ι ω := .free
  shutdown : Bool := false
  waiting : List ω := []
  ready : List ω := []
  submitted : List ω := []
  started : List ω := []

variable {ι ω : Type} [DecidableEq ι]

namespace Token

def locked : Token ι ω → Bool
  | .free => false
  | _ => true

def invokers : Token ι ω → ℕ
  | .queued => 1
  | _ => 0

def frames : Token ι ω → ι → List (Frame ω)
  | .held t h => Function.update (fun _ => []) t h.frames
  | _ => fun _ => []

end Token

namespace StrandView

/-- The strand that looks like this. -/
def strand (v : StrandView ι ω) : Strand ι ω where
  locked := v.token.locked
  shutdown := v.shutdown
  waitingQueue := v.waiting
  readyQueue := v.ready
  frames := v.token.frames
  invokers := v.token.invokers
  submitted := v.submitted
  started := v.started

/-- What the steps of the threads do to the token and the queues. -/
inductive Step (v : StrandView ι ω) : Strand.Event ι ω → StrandView ι ω → Prop
  | inlined (t : ι) (op : ω) (cur : ω) (inl : List ω) (h : v.token = .held t (.handling cur inl)) :
      Step v (.call t op true) { v with token := .held t (.handling cur (op :: inl)) }
  | refused (t : ι) (op : ω) (mayInline : Bool) (h : v.shutdown = true) :
      Step v (.call t op mayInline) v
  | waits (t : ι) (op : ω) (mayInline : Bool) (h : v.token ≠ .free) (hopen : v.shutdown = false) :
      Step v (.call t op mayInline)
        { v with waiting := v.waiting ++ [op], submitted := v.submitted ++ [op] }
  | acquires (t : ι) (op : ω) (mayInline : Bool) (h : v.token = .free)
      (hopen : v.shutdown = false) : Step v (.call t op mayInline)
        { v with token := .held t (.pushing op), submitted := v.submitted ++ [op] }
  | pushed (t : ι) (op : ω) (h : v.token = .held t (.pushing op)) : Step v (.push t)
      { v with token := .held t .scheduling, ready := v.ready ++ [op] }
  | scheduled (t : ι) (h : v.token = .held t .scheduling) :
      Step v (.schedule t) { v with token := .queued }
  | ranInline (t : ι) (h : v.token = .held t .scheduling) :
      Step v (.runInline t) { v with token := .held t .looking }
  | invoked (t : ι) (h : v.token = .queued) :
      Step v (.invoke t) { v with token := .held t .looking }
  | looked (t : ι) (h : v.token = .held t .looking) (hready : v.ready = []) :
      Step v (.next t) { v with token := .held t .leaving }
  | started (t : ι) (op : ω) (ops : List ω) (h : v.token = .held t .looking)
      (hready : v.ready = op :: ops) : Step v (.next t)
        { v with
          token := .held t (.handling op [])
          ready := ops
          started := v.started ++ [op] }
  | finished (t : ι) (op : ω) (h : v.token = .held t (.handling op [])) :
      Step v (.finish t) { v with token := .held t .looking }
  | threw (t : ι) (op : ω) (h : v.token = .held t (.handling op [])) :
      Step v (.throw t) { v with token := .held t .leaving }
  | returned (t : ι) (e : Strand.Event ι ω) (he : e = .finish t ∨ e = .throw t) (cur op : ω)
      (inl : List ω) (h : v.token = .held t (.handling cur (op :: inl))) :
      Step v e { v with token := .held t (.handling cur inl) }
  | left (t : ι) (h : v.token = .held t .leaving) (hempty : v.ready ++ v.waiting = []) :
      Step v (.exit t) { v with token := .free, ready := [], waiting := [] }
  | stayed (t : ι) (h : v.token = .held t .leaving) (hmore : v.ready ++ v.waiting ≠ []) :
      Step v (.exit t)
        { v with token := .held t .rescheduling, ready := v.ready ++ v.waiting, waiting := [] }
  | rescheduled (t : ι) (h : v.token = .held t .rescheduling) :
      Step v (.reschedule t) { v with token := .queued }
  | closed : Step v .close { v with shutdown := true, waiting := [], ready := [] }

variable {v : StrandView ι ω} {t : ι} {rest : List (Frame ω)}

/-- Only the thread that holds the token has frames. -/
theorem held_of_frames {f : Frame ω} (hf : v.strand.frames t = f :: rest) :
    ∃ h, v.token = .held t h ∧ h.frames = f :: rest := by
  change v.token.frames t = f :: rest at hf
  cases htoken : v.token with
  | free =>
      rw [htoken] at hf
      cases hf
  | queued =>
      rw [htoken] at hf
      cases hf
  | held u h =>
      rw [htoken, Token.frames] at hf
      by_cases htu : t = u
      · rw [htu, Function.update_self] at hf
        exact ⟨h, by rw [htu], hf⟩
      · rw [Function.update_of_ne htu] at hf
        cases hf

theorem frames_update {h h' : Hold ω} (htoken : v.token = .held t h) :
    Function.update v.strand.frames t h'.frames = Token.frames (.held t h') := by
  change Function.update v.token.frames t h'.frames = _
  rw [htoken, Token.frames, Function.update_idem, Token.frames]

theorem frames_update_nil {h : Hold ω} (htoken : v.token = .held t h) :
    Function.update v.strand.frames t [] = fun _ => [] := by
  change Function.update v.token.frames t [] = _
  rw [htoken, Token.frames, Function.update_idem]
  exact Function.update_eq_self t _

theorem setFrames_eq {s : Strand ι ω} {k : Token ι ω} {fs : List (Frame ω)}
    (hlocked : s.locked = k.locked) (hinvokers : s.invokers = k.invokers)
    (hframes : Function.update s.frames t fs = k.frames) :
    Strand.setFrames t fs s =
      strand ⟨k, s.shutdown, s.waitingQueue, s.readyQueue, s.submitted, s.started⟩ := by
  rw [Strand.setFrames, strand, hframes, hlocked, hinvokers]

/-- The thread that holds the token goes on holding it. -/
theorem setFrames_held {s : Strand ι ω} {h : Hold ω} (htoken : v.token = .held t h) (h' : Hold ω)
    (hlocked : s.locked = v.strand.locked) (hinvokers : s.invokers = v.strand.invokers)
    (hframes : s.frames = v.strand.frames) : Strand.setFrames t h'.frames s =
      strand ⟨.held t h', s.shutdown, s.waitingQueue, s.readyQueue, s.submitted, s.started⟩ := by
  refine setFrames_eq ?_ ?_ ?_
  · rw [hlocked, strand, htoken]
    rfl
  · rw [hinvokers, strand, htoken]
    rfl
  · rw [hframes, frames_update htoken]

/-- A function is called at once only by the thread that holds the token, from a handler. -/
theorem handling_of_inline (hprogram : v.strand.inProgram t = true)
    (hrunning : v.strand.runningInThisThread t = true) :
    ∃ cur inl, v.token = .held t (.handling cur inl) := by
  cases hf : v.strand.frames t with
  | nil => simp [Strand.runningInThisThread, hf] at hrunning
  | cons f rest =>
      obtain ⟨h, htoken, hframes⟩ := held_of_frames hf
      have hshows := Hold.shows hframes
      simp only [Strand.inProgram, hf] at hprogram
      cases f with
      | inlined op =>
          obtain ⟨cur, inl, rfl, -⟩ := hshows
          exact ⟨cur, op :: inl, htoken⟩
      | running current =>
          cases current with
          | none => cases hprogram
          | some op =>
              obtain ⟨rfl, -⟩ := hshows
              exact ⟨op, [], htoken⟩
      | _ => cases hprogram

theorem enqueue_view (t : ι) (op : ω) (mayInline : Bool) :
    ∃ v', v.Step (.call t op mayInline) v' ∧ v.strand.enqueue t op = v'.strand := by
  cases hshutdown : v.shutdown with
  | true => exact ⟨v, .refused t op mayInline hshutdown, if_pos hshutdown⟩
  | false =>
      have hopen : ¬ v.strand.shutdown = true := by simp [strand, hshutdown]
      rw [Strand.enqueue, if_neg hopen]
      by_cases htoken : v.token = .free
      · have hlocked : ¬ v.strand.locked = true := by simp [strand, htoken, Token.locked]
        rw [if_neg hlocked]
        refine ⟨_, .acquires t op mayInline htoken hshutdown, setFrames_eq rfl ?_ ?_⟩
        · simp [strand, htoken, Token.invokers]
        · simp [strand, htoken, Token.frames, Hold.frames]
      · have hlocked : v.strand.locked = true := by
          cases hv : v.token with
          | free => exact absurd hv htoken
          | _ => simp [strand, hv, Token.locked]
        rw [if_pos hlocked]
        exact ⟨_, .waits t op mayInline htoken hshutdown, rfl⟩

theorem pushWaitingToReady_of_nil (h : v.ready ++ v.waiting = []) :
    v.strand.pushWaitingToReady = (false,
      { v.strand with locked := false, waitingQueue := [], readyQueue := [] }) := by
  have hnil : v.strand.readyQueue ++ v.strand.waitingQueue = [] := h
  rw [Strand.pushWaitingToReady, hnil]
  rfl

theorem pushWaitingToReady_of_ne_nil (h : v.ready ++ v.waiting ≠ []) :
    v.strand.pushWaitingToReady = (true,
      { v.strand with
        locked := true, waitingQueue := [], readyQueue := v.ready ++ v.waiting }) := by
  have hne : (v.strand.readyQueue ++ v.strand.waitingQueue).isEmpty = false :=
    List.isEmpty_eq_false_iff.mpr h
  rw [Strand.pushWaitingToReady, hne]
  rfl

/-- Every step of the threads is one of the token. -/
theorem step_of_strand {e : Strand.Event ι ω} {s' : Strand ι ω}
    (hs : Strand.step v.strand e = some s') : ∃ v', v.Step e v' ∧ s' = v'.strand := by
  cases e with
  | call t op mayInline =>
      rw [Strand.step, Option.ite_none_right_eq_some] at hs
      obtain ⟨hprogram, hs⟩ := hs
      split at hs
      · rename_i hinline
        obtain ⟨rfl, hrunning⟩ := Bool.and_eq_true_iff.mp hinline
        obtain ⟨cur, inl, htoken⟩ := handling_of_inline hprogram hrunning
        have hframes : v.strand.frames t = (Hold.handling cur inl).frames := by
          simp [strand, htoken, Token.frames]
        cases hs
        rw [hframes]
        exact ⟨_, .inlined t op cur inl htoken,
          setFrames_held htoken (.handling cur (op :: inl)) rfl rfl rfl⟩
      · obtain ⟨v', hstep, hv'⟩ := enqueue_view t op mayInline
        cases hs
        exact ⟨v', hstep, hv'⟩
  | push t =>
      simp only [Strand.step] at hs
      split at hs
      · rename_i op rest hf
        obtain ⟨h, htoken, hframes⟩ := held_of_frames hf
        obtain ⟨rfl, rfl⟩ : h = .pushing op ∧ rest = [] := Hold.shows hframes
        cases hs
        exact ⟨_, .pushed t op htoken, setFrames_held htoken .scheduling rfl rfl rfl⟩
      · cases hs
  | schedule t =>
      simp only [Strand.step] at hs
      split at hs
      · rename_i rest hf
        obtain ⟨h, htoken, hframes⟩ := held_of_frames hf
        obtain ⟨rfl, rfl⟩ : h = .scheduling ∧ rest = [] := Hold.shows hframes
        cases hs
        refine ⟨_, .scheduled t htoken, setFrames_eq ?_ ?_ (frames_update_nil htoken)⟩
        · rw [strand, htoken]
          rfl
        · rw [strand, htoken]
          rfl
      · cases hs
  | runInline t =>
      simp only [Strand.step] at hs
      split at hs
      · rename_i rest hf
        obtain ⟨h, htoken, hframes⟩ := held_of_frames hf
        obtain ⟨rfl, rfl⟩ : h = .scheduling ∧ rest = [] := Hold.shows hframes
        cases hs
        exact ⟨_, .ranInline t htoken, setFrames_held htoken .looking rfl rfl rfl⟩
      · cases hs
  | invoke t =>
      rw [Strand.step, Option.ite_none_right_eq_some] at hs
      obtain ⟨⟨-, hinvokers⟩, hs⟩ := hs
      cases htoken : v.token with
      | queued =>
          cases hs
          refine ⟨_, .invoked t htoken, setFrames_eq ?_ ?_ ?_⟩
          · simp [strand, htoken, Token.locked]
          · simp [strand, htoken, Token.invokers]
          · simp [strand, htoken, Token.frames, Hold.frames]
      | _ => simp [strand, htoken, Token.invokers] at hinvokers
  | next t =>
      simp only [Strand.step] at hs
      split at hs
      · rename_i rest hf
        obtain ⟨h, htoken, hframes⟩ := held_of_frames hf
        obtain ⟨rfl, rfl⟩ : h = .looking ∧ rest = [] := Hold.shows hframes
        split at hs
        · rename_i hready
          cases hs
          exact ⟨_, .looked t htoken hready, setFrames_held htoken .leaving rfl rfl rfl⟩
        · rename_i op ops hready
          cases hs
          exact ⟨_, .started t op ops htoken hready,
            setFrames_held htoken (.handling op []) rfl rfl rfl⟩
      · cases hs
  | finish t =>
      simp only [Strand.step] at hs
      split at hs
      · rename_i op rest hf
        obtain ⟨h, htoken, hframes⟩ := held_of_frames hf
        obtain ⟨rfl, rfl⟩ : h = .handling op [] ∧ rest = [] := Hold.shows hframes
        cases hs
        exact ⟨_, .finished t op htoken, setFrames_held htoken .looking rfl rfl rfl⟩
      · rename_i op rest hf
        obtain ⟨h, htoken, hframes⟩ := held_of_frames hf
        obtain ⟨cur, inl, rfl, rfl⟩ : ∃ cur inl, h = .handling cur (op :: inl) ∧
          rest = (Hold.handling cur inl).frames := Hold.shows hframes
        cases hs
        exact ⟨_, .returned t _ (.inl rfl) cur op inl htoken,
          setFrames_held htoken (.handling cur inl) rfl rfl rfl⟩
      · cases hs
  | throw t =>
      simp only [Strand.step] at hs
      split at hs
      · rename_i op rest hf
        obtain ⟨h, htoken, hframes⟩ := held_of_frames hf
        obtain ⟨rfl, rfl⟩ : h = .handling op [] ∧ rest = [] := Hold.shows hframes
        cases hs
        exact ⟨_, .threw t op htoken, setFrames_held htoken .leaving rfl rfl rfl⟩
      · rename_i op rest hf
        obtain ⟨h, htoken, hframes⟩ := held_of_frames hf
        obtain ⟨cur, inl, rfl, rfl⟩ : ∃ cur inl, h = .handling cur (op :: inl) ∧
          rest = (Hold.handling cur inl).frames := Hold.shows hframes
        cases hs
        exact ⟨_, .returned t _ (.inr rfl) cur op inl htoken,
          setFrames_held htoken (.handling cur inl) rfl rfl rfl⟩
      · cases hs
  | exit t =>
      simp only [Strand.step] at hs
      split at hs
      · rename_i rest hf
        obtain ⟨h, htoken, hframes⟩ := held_of_frames hf
        obtain ⟨rfl, rfl⟩ : h = .leaving ∧ rest = [] := Hold.shows hframes
        cases hs
        by_cases hmore : v.ready ++ v.waiting = []
        · rw [pushWaitingToReady_of_nil hmore]
          refine ⟨_, .left t htoken hmore, setFrames_eq rfl ?_ (frames_update_nil htoken)⟩
          simp [strand, htoken, Token.invokers]
        · rw [pushWaitingToReady_of_ne_nil hmore]
          refine ⟨_, .stayed t htoken hmore, setFrames_held htoken .rescheduling ?_ rfl rfl⟩
          simp [strand, htoken, Token.locked]
      · cases hs
  | reschedule t =>
      simp only [Strand.step] at hs
      split at hs
      · rename_i rest hf
        obtain ⟨h, htoken, hframes⟩ := held_of_frames hf
        obtain ⟨rfl, rfl⟩ : h = .rescheduling ∧ rest = [] := Hold.shows hframes
        cases hs
        refine ⟨_, .rescheduled t htoken, setFrames_eq ?_ ?_ (frames_update_nil htoken)⟩
        · rw [strand, htoken]
          rfl
        · rw [strand, htoken]
          rfl
      · cases hs
  | close =>
      cases hs
      exact ⟨_, .closed, rfl⟩

end StrandView

end AsioSamples.Asio
