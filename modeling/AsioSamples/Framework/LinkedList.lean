import Mathlib.Data.List.Nodup
import Mathlib.Logic.Function.Basic

/-!
# Doubly linked lists

A list of objects that hold the pointers to their neighbours themselves. The pointers are
functions from objects, and they represent a list of objects when every object points to the
one that follows it there and to the one that follows it in the reversed list.
-/

namespace Framework

variable {τ : Type*} [DecidableEq τ]

/-- What follows `t` in a list without repetitions. -/
def follower : List τ → τ → Option τ
  | [], _ => none
  | a :: l, t => if t = a then l.head? else follower l t

section Follower

variable {a b l : List τ} {s t u : τ}

theorem follower_of_notMem (h : t ∉ l) : follower l t = none := by
  induction l with
  | nil => rfl
  | cons x l ih =>
      obtain ⟨hx, hl⟩ := not_or.mp (List.mem_cons.not.mp h)
      rw [follower, if_neg hx, ih hl]

theorem follower_append (hd : (a ++ b).Nodup) : follower (a ++ b) u =
    if a.getLast? = some u then b.head? else if u ∈ a then follower a u else follower b u := by
  induction a with
  | nil => simp
  | cons x a ih =>
      obtain ⟨hx, hd⟩ := List.nodup_cons.mp hd
      rw [List.cons_append, follower, ih hd]
      cases a with
      | nil =>
          by_cases hu : u = x
          · simp [hu]
          · simp [hu, Ne.symm hu]
      | cons y a =>
          rw [List.getLast?_cons_cons]
          by_cases hu : u = x
          · have hlast : (y :: a).getLast? ≠ some u := by
              intro h
              exact hx (hu ▸ List.mem_append_left b (List.mem_of_getLast? h))
            simp [hu, follower, hu ▸ hlast]
          · simp [hu, follower]

theorem follower_middle (hd : (a ++ t :: b).Nodup) : follower (a ++ t :: b) t = b.head? := by
  have ha : t ∉ a := fun h => (List.nodup_append.mp hd).2.2 t h t List.mem_cons_self rfl
  rw [follower_append hd, if_neg fun h => ha (List.mem_of_getLast? h), if_neg ha, follower,
    if_pos rfl]

theorem follower_reverse_middle (hd : (a ++ t :: b).Nodup) :
    follower (a ++ t :: b).reverse t = a.getLast? := by
  have hrev : (a ++ t :: b).reverse = b.reverse ++ t :: a.reverse := by simp
  have hd' : (b.reverse ++ t :: a.reverse).Nodup := hrev ▸ List.nodup_reverse.mpr hd
  rw [hrev, follower_middle hd', List.head?_reverse]

theorem follower_remove (hd : (a ++ t :: b).Nodup) : follower (a ++ b) u =
    if u = t then none else if a.getLast? = some u then b.head?
      else follower (a ++ t :: b) u := by
  have hab : (a ++ b).Nodup := hd.sublist ((List.sublist_cons_self t b).append_left a)
  by_cases hu : u = t
  · have hnot : u ∉ a ++ b := by
      rw [hu]
      exact (List.nodup_middle.mp hd).notMem
    rw [if_pos hu, follower_of_notMem hnot]
  · rw [if_neg hu, follower_append hab, follower_append hd]
    simp only [follower, if_neg hu]
    split <;> rfl

theorem follower_replace (hd : (a ++ t :: b).Nodup) (hs : s ∉ a ++ t :: b) :
    follower (a ++ s :: b) u = if u = t then none else if u = s then b.head?
      else if a.getLast? = some u then some s else follower (a ++ t :: b) u := by
  have hab : (a ++ b).Nodup := hd.sublist ((List.sublist_cons_self t b).append_left a)
  have hst : s ≠ t := fun h => hs (h ▸ by simp)
  have hsab : s ∉ a ++ b := fun h => hs (by
    rcases List.mem_append.mp h with h | h <;> simp [h])
  have hds : (a ++ s :: b).Nodup := List.nodup_middle.mpr (List.nodup_cons.mpr ⟨hsab, hab⟩)
  by_cases hu : u = t
  · have hnot : u ∉ a ++ s :: b := by
      have := (List.nodup_middle.mp hd).notMem
      simp only [List.mem_append, List.mem_cons, hu, Ne.symm hst, false_or] at this ⊢
      exact this
    rw [if_pos hu, follower_of_notMem hnot]
  · rw [if_neg hu]
    by_cases hus : u = s
    · rw [if_pos hus, hus, follower_middle hds]
    · rw [if_neg hus, follower_append hds, follower_append hd]
      simp only [follower, if_neg hu, if_neg hus, List.head?_cons]
      split <;> rfl

end Follower

/-- The head pointer, and the two pointers in each object. -/
structure Links (τ : Type*) where
  head : Option τ := none
  next : τ → Option τ := fun _ => none
  prev : τ → Option τ := fun _ => none

namespace Links

def setNext (t : τ) (x : Option τ) (L : Links τ) : Links τ :=
  { L with next := Function.update L.next t x }

def setPrev (t : τ) (x : Option τ) (L : Links τ) : Links τ :=
  { L with prev := Function.update L.prev t x }

/-- `if (p) p->next_ = x`. -/
def setNextOf (p x : Option τ) (L : Links τ) : Links τ :=
  match p with
  | none => L
  | some t => L.setNext t x

/-- `if (p) p->prev_ = x`. -/
def setPrevOf (p x : Option τ) (L : Links τ) : Links τ :=
  match p with
  | none => L
  | some t => L.setPrev t x

def pushFront (t : τ) (L : Links τ) : Links τ :=
  let M := ((L.setNext t L.head).setPrev t none).setPrevOf L.head (some t)
  { M with head := some t }

/-- `t`, which is the first one, leaves. The pointer back to it from the next one stays. -/
def popFront (t : τ) (L : Links τ) : Links τ :=
  ({ L with head := L.next t }.setNext t none).setPrev t none

/-- `t` leaves: its neighbours close the gap, and its own pointers become null. -/
def remove (t : τ) (L : Links τ) : Links τ :=
  let M := { L with head := if L.head = some t then L.next t else L.head }
  let M := M.setNextOf (M.prev t) (M.next t)
  let M := M.setPrevOf (M.next t) (M.prev t)
  (M.setNext t none).setPrev t none

/-- `target` takes the place of `source`. -/
def replace (target source : τ) (L : Links τ) : Links τ :=
  let M := { L with head := if L.head = some source then some target else L.head }
  let M := M.setNextOf (M.prev source) (some target)
  let M := M.setPrevOf (M.next source) (some target)
  let M := M.setNext target (M.next source)
  let M := M.setPrev target (M.prev source)
  (M.setNext source none).setPrev source none

structure Represents (L : Links τ) (l : List τ) : Prop where
  nodup : l.Nodup
  head : L.head = l.head?
  next : L.next = follower l
  prev : L.prev = follower l.reverse

variable {L : Links τ} {l : List τ} {s t u : τ} {p x : Option τ}

theorem setNextOf_next (u : τ) :
    (L.setNextOf p x).next u = if p = some u then x else L.next u := by
  cases p with
  | none => simp [setNextOf]
  | some t =>
      simp only [setNextOf, setNext, Function.update_apply, Option.some.injEq, eq_comm]

theorem setPrevOf_prev (u : τ) :
    (L.setPrevOf p x).prev u = if p = some u then x else L.prev u := by
  cases p with
  | none => simp [setPrevOf]
  | some t =>
      simp only [setPrevOf, setPrev, Function.update_apply, Option.some.injEq, eq_comm]

@[simp] theorem setPrevOf_next : (L.setPrevOf p x).next = L.next := by
  cases p <;> rfl

@[simp] theorem setNextOf_prev : (L.setNextOf p x).prev = L.prev := by
  cases p <;> rfl

@[simp] theorem setPrevOf_head : (L.setPrevOf p x).head = L.head := by
  cases p <;> rfl

@[simp] theorem setNextOf_head : (L.setNextOf p x).head = L.head := by
  cases p <;> rfl

theorem popFront_next (u : τ) : (L.popFront t).next u = if u = t then none else L.next u := by
  simp only [popFront, setPrev, setNext, Function.update_apply]

theorem popFront_prev (u : τ) : (L.popFront t).prev u = if u = t then none else L.prev u := by
  simp only [popFront, setPrev, setNext, Function.update_apply]

theorem represents_nil : Represents ({} : Links τ) [] := ⟨List.nodup_nil, rfl, rfl, rfl⟩

/-- The test for membership that needs no walk along the list. -/
theorem Represents.mem_iff (h : L.Represents l) (t : τ) :
    t ∈ l ↔ L.prev t ≠ none ∨ L.head = some t := by
  rw [h.prev, h.head]
  constructor
  · intro ht
    obtain ⟨a, b, rfl⟩ := List.append_of_mem ht
    rw [follower_reverse_middle h.nodup]
    cases a with
    | nil => exact .inr rfl
    | cons x a => exact .inl (by simp [List.getLast?_cons])
  · rintro (ht | ht)
    · by_contra hnot
      exact ht (follower_of_notMem (by simpa using hnot))
    · exact List.mem_of_mem_head? ht

theorem Represents.pushFront (h : L.Represents l) (ht : t ∉ l) :
    (L.pushFront t).Represents (t :: l) := by
  have hd : (l.reverse ++ [t]).Nodup := by
    rw [← List.reverse_cons, List.nodup_reverse]
    exact List.nodup_cons.mpr ⟨ht, h.nodup⟩
  constructor
  · exact List.nodup_cons.mpr ⟨ht, h.nodup⟩
  · rfl
  · funext u
    simp only [Links.pushFront, setPrevOf_next, setPrev, setNext, Function.update_apply, h.next,
      h.head, follower]
  · funext u
    rw [List.reverse_cons, follower_append hd, List.getLast?_reverse]
    simp only [Links.pushFront, setPrevOf_prev, setPrev, setNext, Function.update_apply, h.prev,
      h.head, List.head?_cons, List.mem_reverse, follower, List.head?_nil, ite_self]
    split
    · rfl
    · by_cases hu : u = t
      · rw [if_pos hu, if_neg (hu ▸ ht)]
      · rw [if_neg hu]
        split
        · rfl
        · rw [follower_of_notMem (by simpa)]

theorem Represents.remove {a b : List τ} (h : L.Represents (a ++ t :: b)) :
    (L.remove t).Represents (a ++ b) := by
  have hnext : L.next t = b.head? := by rw [h.next, follower_middle h.nodup]
  have hprev : L.prev t = a.getLast? := by rw [h.prev, follower_reverse_middle h.nodup]
  have hrev : (a ++ t :: b).reverse = b.reverse ++ t :: a.reverse := by simp
  constructor
  · exact h.nodup.sublist ((List.sublist_cons_self t b).append_left a)
  · simp only [Links.remove, setPrev, setNext, setPrevOf_head, setNextOf_head, h.head, hnext]
    cases a with
    | nil => simp
    | cons x a =>
        have hx : x ≠ t := fun hx => by
          have := h.nodup
          simp [hx] at this
        simp [hx]
  · funext u
    rw [follower_remove h.nodup, ← h.next]
    simp only [Links.remove, setPrev, setNext, setPrevOf_next, setNextOf_next, setNextOf_prev,
      Function.update_apply, hnext, hprev, ite_self]
  · funext u
    have hd := List.nodup_reverse.mpr h.nodup
    rw [hrev] at hd
    rw [List.reverse_append, follower_remove hd, ← hrev, ← h.prev, List.getLast?_reverse,
      List.head?_reverse]
    simp only [Links.remove, setPrev, setNext, setPrevOf_prev, setNextOf_prev, setNextOf_next,
      Function.update_apply, hnext, hprev, ite_self]

theorem Represents.replace {a b : List τ} (h : L.Represents (a ++ t :: b))
    (hs : s ∉ a ++ t :: b) : (L.replace s t).Represents (a ++ s :: b) := by
  have hnext : L.next t = b.head? := by rw [h.next, follower_middle h.nodup]
  have hprev : L.prev t = a.getLast? := by rw [h.prev, follower_reverse_middle h.nodup]
  have hrev : (a ++ t :: b).reverse = b.reverse ++ t :: a.reverse := by simp
  have hab : (a ++ b).Nodup := h.nodup.sublist ((List.sublist_cons_self t b).append_left a)
  have hsab : s ∉ a ++ b := fun hm => hs (by
    rcases List.mem_append.mp hm with hm | hm <;> simp [hm])
  have htab : t ∉ a ++ b := (List.nodup_middle.mp h.nodup).notMem
  have hnself : L.next t ≠ some t := by
    rw [hnext]
    exact fun he => htab (List.mem_append_right a (List.mem_of_mem_head? he))
  have hpself : L.prev t ≠ some t := by
    rw [hprev]
    exact fun he => htab (List.mem_append_left b (List.mem_of_getLast? he))
  constructor
  · exact List.nodup_middle.mpr (List.nodup_cons.mpr ⟨hsab, hab⟩)
  · simp only [Links.replace, setPrev, setNext, setPrevOf_head, setNextOf_head, h.head]
    cases a with
    | nil => simp
    | cons x a =>
        have hx : x ≠ t := fun hx => by
          have := h.nodup
          simp [hx] at this
        simp [hx]
  · funext u
    rw [follower_replace h.nodup hs, ← h.next]
    simp only [Links.replace, setPrev, setNext, setPrevOf_next, setNextOf_next,
      Function.update_apply, if_neg hpself]
    simp only [hnext, hprev]
  · funext u
    have hd := List.nodup_reverse.mpr h.nodup
    rw [hrev] at hd
    have hs' : s ∉ b.reverse ++ t :: a.reverse := by
      rw [← hrev]
      exact fun hm => hs (List.mem_reverse.mp hm)
    have hrev' : (a ++ s :: b).reverse = b.reverse ++ s :: a.reverse := by simp
    rw [hrev', follower_replace hd hs', ← hrev, ← h.prev, List.getLast?_reverse,
      List.head?_reverse]
    simp only [Links.replace, setPrev, setNext, setPrevOf_prev, setNextOf_prev, setNextOf_next,
      Function.update_apply, if_neg hpself, if_neg hnself]
    simp only [hnext, hprev]

/-- Objects outside the list exchange nothing. -/
theorem Represents.replace_of_notMem (h : L.Represents l) (hs : s ∉ l) (ht : t ∉ l) :
    (L.replace s t).Represents l := by
  have hrev {u : τ} (hu : u ∉ l) : u ∉ l.reverse := fun hm => hu (List.mem_reverse.mp hm)
  have hnext : L.next t = none := by rw [h.next, follower_of_notMem ht]
  have hprev : L.prev t = none := by rw [h.prev, follower_of_notMem (hrev ht)]
  have hhead : L.head ≠ some t := by
    rw [h.head]
    exact fun he => ht (List.mem_of_mem_head? he)
  have hsame : L.replace s t = L := by
    have hnext' : L.next s = none := by rw [h.next, follower_of_notMem hs]
    have hprev' : L.prev s = none := by rw [h.prev, follower_of_notMem (hrev hs)]
    have hfix (f : τ → Option τ) (hfs : f s = none) (hft : f t = none) :
        Function.update (Function.update f s none) t none = f := by
      funext u
      simp only [Function.update_apply]
      split
      · rw [‹u = t›, hft]
      · split
        · rw [‹u = s›, hfs]
        · rfl
    simp only [Links.replace, if_neg hhead, setNextOf, setPrevOf, setNext, setPrev, hnext, hprev]
    rw [hfix _ hnext' hnext, hfix _ hprev' hprev]
  rwa [hsame]

end Links

end Framework
