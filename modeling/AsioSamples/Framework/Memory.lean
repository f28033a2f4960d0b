import Mathlib.Data.List.Basic
import Mathlib.Tactic.Common

/-!
# Memory seen through a pointer and a length

A view is a pair of an address and a length: what it shows is whatever the memory holds now.
A string object owns a view of its current contents. Assigning to the object may overwrite
its storage or move to another one; all that is promised is that the new contents can be
read through the object's new view. What an older view shows afterwards is left open.
-/

namespace Framework

abbrev Memory (α : Type) := ℕ → α

namespace Memory

variable {α : Type}

def read (m : Memory α) (a n : ℕ) : List α := (List.range n).map fun i => m (a + i)

@[simp] theorem read_length (m : Memory α) (a n : ℕ) : (m.read a n).length = n := by
  simp [read]

@[simp] theorem read_zero (m : Memory α) (a : ℕ) : m.read a 0 = [] := rfl

theorem read_add (m : Memory α) (a j k : ℕ) :
    m.read a (j + k) = m.read a j ++ m.read (a + j) k := by
  simp only [read, List.range_add, List.map_append, List.map_map, Function.comp_def, Nat.add_assoc]

theorem read_take (m : Memory α) (a n k : ℕ) : (m.read a n).take k = m.read a (min k n) := by
  simp only [read, ← List.map_take, List.take_range]

end Memory

/-- A string object: where its storage is, and how many cells of it are in use. -/
structure StringObject where
  data : ℕ
  size : ℕ
  deriving DecidableEq, Repr

namespace StringObject

variable {α : Type}

def contents (o : StringObject) (m : Memory α) : List α := m.read o.data o.size

end StringObject

/-- How an implementation of strings assigns: the `k`-th assignment of `text` to the object
`o` leaves a memory and a storage address from which `text` can be read. -/
structure StringImpl (α : Type) where
  assign : ℕ → Memory α → StringObject → List α → Memory α × ℕ
  reads : ∀ k m o text, (assign k m o text).1.read (assign k m o text).2 text.length = text

namespace StringImpl

/-- The implementation that always overwrites the storage it has. -/
def inPlace {α : Type} : StringImpl α where
  assign _ m o text := (fun a => if o.data ≤ a then text.getD (a - o.data) (m a) else m a, o.data)
  reads _ m o text := by
    apply List.ext_getElem
    · simp
    · intro i h1 h2
      simp [Memory.read, List.getElem?_eq_getElem h2]

/-- The implementation that always moves to fresh storage behind the old one, and spoils what
it leaves. -/
def moving {α : Type} (spoil : α → α) : StringImpl α where
  assign _ m o text := (fun a =>
    if o.data + o.size ≤ a then text.getD (a - (o.data + o.size)) (m a)
    else if o.data ≤ a then spoil (m a)
    else m a, o.data + o.size)
  reads _ m o text := by
    apply List.ext_getElem
    · simp
    · intro i h1 h2
      simp [Memory.read, List.getElem?_eq_getElem h2]

section Moving

variable {α : Type} (spoil : α → α) (k : ℕ) (m : Memory α) (o : StringObject) (text : List α)

theorem moving_read_left :
    ((moving spoil).assign k m o text).1.read o.data o.size =
      (m.read o.data o.size).map spoil := by
  simp only [Memory.read, moving, List.map_map]
  apply List.map_congr_left
  intro i hi
  have hlt : i < o.size := List.mem_range.mp hi
  simp only [Function.comp_apply]
  rw [if_neg (by omega), if_pos (by omega)]

theorem moving_read_below {a n : ℕ} (h : a + n ≤ o.data) :
    ((moving spoil).assign k m o text).1.read a n = m.read a n := by
  simp only [Memory.read, moving]
  apply List.map_congr_left
  intro i hi
  have hlt : i < n := List.mem_range.mp hi
  rw [if_neg (by omega), if_neg (by omega)]

end Moving

end StringImpl

end Framework
