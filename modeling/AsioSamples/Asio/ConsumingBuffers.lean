import AsioSamples.Framework.Cursor
import Mathlib.Algebra.GroupWithZero.Nat

/-!
# Consuming buffers

The classes `consuming_buffers` of `boost/asio/detail/consuming_buffers.hpp`: the proxy for what is
left of a list of buffers, and the short forms of it for a single buffer and for an array of two.
Each of them gives out the bytes of its buffers. A buffer is the list of its elements.
-/

namespace AsioSamples.Asio

open Framework

variable {α : Type}

structure ConsumingBuffers (α : Type) where
  buffers : List (List α)
  totalSize : ℕ
  totalConsumed : ℕ := 0
  nextElem : ℕ := 0
  nextElemOffset : ℕ := 0

namespace ConsumingBuffers

def ofBuffers (buffers : List (List α)) : ConsumingBuffers α where
  buffers := buffers
  totalSize := (buffers.map List.length).sum

/-- The loop of `prepare` from the element `next` on. -/
def prepareLoop (maxBuffers : ℕ) : List (List α) → ℕ → ℕ → List (List α) → List (List α)
  | [], _, _, result => result
  | buf :: rest, elemOffset, maxSize, result =>
    if 0 < maxSize ∧ result.length < maxBuffers then
      let elem := (buf.drop elemOffset).take maxSize
      prepareLoop maxBuffers rest 0 (maxSize - elem.length)
        (if 0 < elem.length then result ++ [elem] else result)
    else result

/-- The loop of `consume` from the element `next` on, which is the element `nextElem`. -/
def consumeLoop : List (List α) → ℕ → ℕ → ℕ → ℕ × ℕ
  | [], _, nextElem, nextElemOffset => (nextElem, nextElemOffset)
  | buf :: rest, size, nextElem, nextElemOffset =>
    if 0 < size then
      let nextBuf := buf.drop nextElemOffset
      if size < nextBuf.length then (nextElem, nextElemOffset + size)
      else consumeLoop rest (size - nextBuf.length) (nextElem + 1) 0
    else (nextElem, nextElemOffset)

/-- `prepared_buffers` has room for `maxBuffers` buffers. -/
def cursor (maxBuffers : ℕ) : Cursor (ConsumingBuffers α) α where
  empty b := b.totalSize ≤ b.totalConsumed
  prepare maxSize b :=
    prepareLoop maxBuffers (b.buffers.drop b.nextElem) b.nextElemOffset maxSize []
  consume size b :=
    let next := consumeLoop (b.buffers.drop b.nextElem) size b.nextElem b.nextElemOffset
    { b with
      totalConsumed := b.totalConsumed + size
      nextElem := next.1
      nextElemOffset := next.2 }
  totalConsumed b := b.totalConsumed

/-- The elements of the buffers, from an offset in the first one on. -/
def elements : List (List α) → ℕ → List α
  | [], _ => []
  | buf :: rest, offset => buf.drop offset ++ rest.flatten

theorem elements_zero (l : List (List α)) : elements l 0 = l.flatten := by
  cases l <;> rfl

/-- The first `k` elements of the buffers are consumed. -/
structure At (buffers : List (List α)) (k : ℕ) (b : ConsumingBuffers α) : Prop where
  same : b.buffers = buffers
  totalSize : b.totalSize = buffers.flatten.length
  totalConsumed : b.totalConsumed = k
  le : k ≤ buffers.flatten.length
  elements : elements (buffers.drop b.nextElem) b.nextElemOffset = buffers.flatten.drop k

theorem at_ofBuffers (buffers : List (List α)) : At buffers 0 (ofBuffers buffers) where
  same := rfl
  totalSize := List.length_flatten.symm
  totalConsumed := rfl
  le := Nat.zero_le _
  elements := elements_zero buffers

theorem flatten_push (result : List (List α)) (elem : List α) :
    (if 0 < elem.length then result ++ [elem] else result).flatten = result.flatten ++ elem := by
  split
  · rw [List.flatten_concat]
  · rename_i hempty
    rw [List.length_pos_iff, not_not] at hempty
    rw [hempty, List.append_nil]

theorem prepareLoop_flatten (maxBuffers : ℕ) (l : List (List α)) :
    ∀ offset m result, ∃ given,
      (prepareLoop maxBuffers l offset m result).flatten = result.flatten ++ given ∧
        given <+: (elements l offset).take m := by
  induction l with
  | nil => exact fun offset m result => ⟨[], (List.append_nil _).symm, List.nil_prefix⟩
  | cons buf rest ih =>
      intro offset m result
      unfold prepareLoop
      split
      · have hrest := ih 0 (m - ((buf.drop offset).take m).length)
          (if 0 < ((buf.drop offset).take m).length then result ++ [(buf.drop offset).take m]
            else result)
        obtain ⟨given, hflatten, hfirst⟩ := hrest
        refine ⟨(buf.drop offset).take m ++ given, ?_, ?_⟩
        · rw [hflatten, flatten_push, List.append_assoc]
        · have hlength : m - ((buf.drop offset).take m).length = m - (buf.drop offset).length := by
            rw [List.length_take]
            omega
          rw [hlength, elements_zero] at hfirst
          rw [elements, List.take_append]
          exact (List.prefix_append_right_inj _).mpr hfirst
      · exact ⟨[], (List.append_nil _).symm, List.nil_prefix⟩

/-- Empty buffers are passed over: something is prepared when anything is left. -/
theorem prepareLoop_ne_nil (maxBuffers : ℕ) (l : List (List α)) :
    ∀ offset m result, 0 < m → result.length < maxBuffers → elements l offset ≠ [] →
      (prepareLoop maxBuffers l offset m result).flatten ≠ [] := by
  induction l with
  | nil => exact fun offset m result _ _ hne => absurd rfl hne
  | cons buf rest ih =>
      intro offset m result hm hroom hne
      unfold prepareLoop
      rw [if_pos ⟨hm, hroom⟩]
      dsimp only
      by_cases helem : 0 < ((buf.drop offset).take m).length
      · obtain ⟨given, hflatten, -⟩ := prepareLoop_flatten maxBuffers rest 0
          (m - ((buf.drop offset).take m).length) (result ++ [(buf.drop offset).take m])
        rw [if_pos helem, hflatten, List.flatten_concat]
        intro hnil
        simp only [List.append_eq_nil_iff] at hnil
        rw [hnil.1.2] at helem
        exact absurd helem (Nat.lt_irrefl 0)
      · have hempty : buf.drop offset = [] := by
          rw [List.length_take] at helem
          exact List.length_eq_zero_iff.mp (by omega)
        rw [if_neg helem]
        apply ih 0 _ result _ hroom
        · rwa [elements, hempty, List.nil_append, ← elements_zero] at hne
        · rw [hempty, List.take_nil]
          exact hm

theorem consumeLoop_elements (l : List (List α)) :
    ∀ size nextElem offset, size ≤ (elements l offset).length →
      ∃ j, (consumeLoop l size nextElem offset).1 = nextElem + j ∧
        elements (l.drop j) (consumeLoop l size nextElem offset).2 =
          (elements l offset).drop size := by
  induction l with
  | nil =>
      intro size nextElem offset _
      exact ⟨0, rfl, (List.drop_nil).symm⟩
  | cons buf rest ih =>
      intro size nextElem offset hsize
      unfold consumeLoop
      split
      · dsimp only
        split
        · rename_i hlt
          refine ⟨0, rfl, ?_⟩
          rw [List.drop_zero, elements, elements, List.drop_append_of_le_length (Nat.le_of_lt hlt),
            List.drop_drop]
        · rename_i hge
          rw [elements, List.length_append] at hsize
          obtain ⟨j, hnext, helements⟩ := ih (size - (buf.drop offset).length) (nextElem + 1) 0
            (by rw [elements_zero]; omega)
          refine ⟨j + 1, by rw [hnext]; omega, ?_⟩
          have hpast : (buf.drop offset).drop size = [] := List.drop_eq_nil_of_le (by omega)
          rw [List.drop_succ_cons, helements, elements_zero, elements, List.drop_append, hpast,
            List.nil_append]
      · rename_i hzero
        obtain rfl : size = 0 := by omega
        exact ⟨0, rfl, rfl⟩

/-- The class gives out the elements of its buffers, whatever `prepared_buffers` has room for. -/
theorem cursor_serves {maxBuffers : ℕ} (hmax : 0 < maxBuffers) (buffers : List (List α)) :
    (cursor maxBuffers).Serves buffers.flatten (At buffers) where
  le h := h.le
  empty_iff {k b} h := by
    have hle := h.le
    simp only [cursor, decide_eq_true_eq, h.totalSize, h.totalConsumed]
    omega
  totalConsumed h := h.totalConsumed
  prepare {k b} h m := by
    obtain ⟨given, hflatten, hfirst⟩ := prepareLoop_flatten maxBuffers
      (buffers.drop b.nextElem) b.nextElemOffset m []
    rw [h.elements] at hfirst
    simp only [cursor, h.same, hflatten, List.flatten_nil, List.nil_append]
    exact hfirst
  prepare_ne_nil {k b} h m hm hk := by
    have hne : elements (buffers.drop b.nextElem) b.nextElemOffset ≠ [] := by
      rw [h.elements]
      exact List.ne_nil_of_length_pos (by rw [List.length_drop]; omega)
    simp only [cursor, h.same]
    exact prepareLoop_ne_nil maxBuffers _ _ m [] hm hmax hne
  consume {k b} h n hn := by
    obtain ⟨j, hnext, helements⟩ := consumeLoop_elements (buffers.drop b.nextElem) n b.nextElem
      b.nextElemOffset (by rw [h.elements, List.length_drop]; omega)
    refine ⟨h.same, h.totalSize, ?_, hn, ?_⟩
    · simp only [cursor, h.totalConsumed]
    · simp only [cursor, h.same, hnext]
      rw [← List.drop_drop, helements, h.elements, List.drop_drop]

end ConsumingBuffers

structure ConsumingSingleBuffer (α : Type) where
  buffer : List α
  totalConsumed : ℕ := 0

namespace ConsumingSingleBuffer

def cursor : Cursor (ConsumingSingleBuffer α) α where
  empty b := b.buffer.length ≤ b.totalConsumed
  prepare maxSize b := [(b.buffer.drop b.totalConsumed).take maxSize]
  consume size b := { b with totalConsumed := b.totalConsumed + size }
  totalConsumed b := b.totalConsumed

def At (buffer : List α) (k : ℕ) (b : ConsumingSingleBuffer α) : Prop :=
  b = ⟨buffer, k⟩ ∧ k ≤ buffer.length

theorem cursor_serves (buffer : List α) : cursor.Serves buffer (At buffer) where
  le h := h.2
  empty_iff {k b} h := by
    obtain ⟨rfl, hle⟩ := h
    simp only [cursor, decide_eq_true_eq]
    omega
  totalConsumed h := by rw [h.1]; rfl
  prepare h m := by
    rw [h.1]
    simp [cursor]
  prepare_ne_nil {k b} h m hm hk := by
    rw [h.1]
    apply List.ne_nil_of_length_pos
    simp only [cursor, List.flatten_singleton, List.length_take, List.length_drop]
    omega
  consume h n hn := ⟨by rw [h.1]; rfl, hn⟩

end ConsumingSingleBuffer

/-- The specialisation of `consuming_buffers` for arrays of two buffers. -/
structure ConsumingArray (α : Type) where
  first : List α
  second : List α
  totalConsumed : ℕ := 0

namespace ConsumingArray

def cursor : Cursor (ConsumingArray α) α where
  empty b := b.first.length + b.second.length ≤ b.totalConsumed
  prepare maxSize b :=
    let result := (b.first.drop b.totalConsumed).take maxSize
    [result, (b.second.drop (if b.totalConsumed < b.first.length then 0
      else b.totalConsumed - b.first.length)).take (maxSize - result.length)]
  consume size b := { b with totalConsumed := b.totalConsumed + size }
  totalConsumed b := b.totalConsumed

def At (first second : List α) (k : ℕ) (b : ConsumingArray α) : Prop :=
  b = ⟨first, second, k⟩ ∧ k ≤ (first ++ second).length

/-- The two parts together are what is next of the two buffers. -/
theorem prepare_flatten (first second : List α) (k m : ℕ) :
    (cursor.prepare m ⟨first, second, k⟩).flatten = ((first ++ second).drop k).take m := by
  have hoffset : (if k < first.length then 0 else k - first.length) = k - first.length := by
    split <;> omega
  have hrest : m - ((first.drop k).take m).length = m - (first.drop k).length := by
    rw [List.length_take]
    omega
  simp only [cursor, List.flatten_cons, List.flatten_nil, List.append_nil, hoffset]
  rw [hrest, List.drop_append, List.take_append]

theorem cursor_serves (first second : List α) :
    cursor.Serves (first ++ second) (At first second) where
  le h := h.2
  empty_iff {k b} h := by
    obtain ⟨rfl, hle⟩ := h
    rw [List.length_append] at hle ⊢
    simp only [cursor, decide_eq_true_eq]
    omega
  totalConsumed h := by rw [h.1]; rfl
  prepare h m := by
    apply Exists.intro []
    rw [h.1, prepare_flatten, List.append_nil]
  prepare_ne_nil {k b} h m hm hk := by
    rw [h.1, prepare_flatten]
    apply List.ne_nil_of_length_pos
    rw [List.length_take, List.length_drop]
    omega
  consume h n hn := ⟨by rw [h.1]; rfl, hn⟩

end ConsumingArray

end AsioSamples.Asio
