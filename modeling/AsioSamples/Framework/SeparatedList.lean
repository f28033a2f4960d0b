import Mathlib.Data.Int.Basic
import Mathlib.Data.List.Basic
import Mathlib.Tactic.Common

/-!
# Lists written as one string

A list is written with semicolons between its items. It is read by splitting at the semicolons
that are not inside square brackets; a backslash keeps a semicolon from splitting, and goes.
So writing and reading back need not give the same items: an item may hold semicolons, escapes
or a bracket that is never closed. Whether it does shows in the lengths alone, because reading
can only lose characters.
-/

namespace Framework.SeparatedList

variable {v w : List Char} {xs : List (List Char)} {depth : ℤ}

/-- How many brackets are open after a character. -/
def depthAfter (depth : ℤ) (c : Char) : ℤ :=
  if c = '[' then depth + 1 else if c = ']' then depth - 1 else depth

def split : ℤ → List Char → List (List Char)
  | _, [] => [[]]
  | depth, [c] => if c = ';' ∧ depth = 0 then [[], []] else [[c]]
  | depth, c :: d :: cs =>
    if c = '\\' ∧ d = ';' then (split depth cs).modifyHead (List.cons d)
    else if c = ';' ∧ depth = 0 then [] :: split depth (d :: cs)
    else (split (depthAfter depth c) (d :: cs)).modifyHead (List.cons c)

/-- The items of a written list. The empty string is the empty list. -/
def items (v : List Char) : List (List Char) := if v = [] then [] else split 0 v

/-- The items that are not empty. -/
def arguments (v : List Char) : List (List Char) := (split 0 v).filter fun x => x ≠ []

def join (xs : List (List Char)) : List Char := [';'].intercalate xs

theorem split_ne_nil (depth : ℤ) (v : List Char) : split depth v ≠ [] := by
  fun_induction split depth v <;> simp_all

/-- Each separator and each escape takes a character away. -/
theorem length_split (depth : ℤ) (v : List Char) :
    (split depth v).flatten.length + (split depth v).length ≤ v.length + 1 := by
  fun_induction split depth v with
  | case1 depth => simp
  | case2 depth c h => simp
  | case3 depth c h => simp
  | case4 depth c d cs h ih =>
      obtain ⟨p, ps, hp⟩ := List.exists_cons_of_ne_nil (split_ne_nil depth cs)
      simp only [hp, List.modifyHead_cons, List.flatten_cons, List.length_append,
        List.length_cons] at ih ⊢
      omega
  | case5 depth c d cs h h' ih =>
      simp only [List.flatten_cons, List.nil_append, List.length_cons] at ih ⊢
      omega
  | case6 depth c d cs h h' ih =>
      obtain ⟨p, ps, hp⟩ := List.exists_cons_of_ne_nil (split_ne_nil (depthAfter depth c) (d :: cs))
      simp only [hp, List.modifyHead_cons, List.flatten_cons, List.length_append,
        List.length_cons] at ih ⊢
      omega

/-- What is read as a single item of full length is what was written. -/
theorem eq_of_split_eq_singleton (h : split depth v = [w]) (hl : v.length ≤ w.length) : w = v := by
  fun_induction split depth v generalizing w with
  | case1 depth => simpa using h.symm
  | case2 depth c hc => simp at h
  | case3 depth c hc => simpa using h.symm
  | case4 depth c d cs hc ih =>
      obtain ⟨p, ps, hp⟩ := List.exists_cons_of_ne_nil (split_ne_nil depth cs)
      have hlen := length_split depth cs
      rw [hp] at h hlen
      obtain ⟨rfl, rfl⟩ : d :: p = w ∧ ps = [] := by simpa using h
      simp only [List.flatten_cons, List.flatten_nil, List.append_nil, List.length_cons,
        List.length_nil] at hlen hl
      omega
  | case5 depth c d cs hc hsep ih =>
      have hnil : split depth (d :: cs) = [] := by
        simpa using congrArg List.tail h
      exact absurd hnil (split_ne_nil depth (d :: cs))
  | case6 depth c d cs hc hsep ih =>
      obtain ⟨p, ps, hp⟩ := List.exists_cons_of_ne_nil (split_ne_nil (depthAfter depth c) (d :: cs))
      rw [hp] at h
      obtain ⟨rfl, rfl⟩ : c :: p = w ∧ ps = [] := by simpa using h
      rw [ih hp (by simpa using hl)]

theorem split_of_notMem (h : ';' ∉ v) : split depth v = [v] := by
  fun_induction split depth v with
  | case1 depth => rfl
  | case2 depth c hc => simp [hc.1] at h
  | case3 depth c hc => rfl
  | case4 depth c d cs hc ih => simp [hc.2] at h
  | case5 depth c d cs hc hsep ih => simp [hsep.1] at h
  | case6 depth c d cs hc hsep ih =>
      rw [ih (List.not_mem_of_not_mem_cons h), List.modifyHead_cons]

theorem flatten_arguments (v : List Char) : (arguments v).flatten = (split 0 v).flatten := by
  simpa only [arguments] using List.flatten_filter_ne_nil

/-- What is read as a single argument of full length is what was written. -/
theorem eq_of_arguments_eq_singleton (h : arguments v = [w]) (hl : v.length ≤ w.length) :
    w = v := by
  have hflat : (split 0 v).flatten = w := by
    rw [← flatten_arguments, h, List.flatten_singleton]
  have hlen := length_split 0 v
  rw [hflat] at hlen
  obtain ⟨p, ps, hp⟩ := List.exists_cons_of_ne_nil (split_ne_nil 0 v)
  obtain rfl : ps = [] := by
    apply List.eq_nil_of_length_eq_zero
    simp only [hp, List.length_cons] at hlen
    omega
  obtain rfl : p = w := by simpa [hp] using hflat
  exact eq_of_split_eq_singleton hp hl

theorem arguments_of_notMem (h : ';' ∉ v) (hv : v ≠ []) : arguments v = [v] := by
  simp [arguments, split_of_notMem h, hv]

theorem length_flatten_arguments (v : List Char) : (arguments v).flatten.length ≤ v.length := by
  have hlen := length_split 0 v
  have hpos := List.length_pos_iff.mpr (split_ne_nil 0 v)
  rw [flatten_arguments]
  omega

theorem length_arguments (v : List Char) :
    (arguments v).flatten.length + (arguments v).length ≤ v.length + 1 := by
  have hlen := length_split 0 v
  have hfilter : (arguments v).length ≤ (split 0 v).length := List.length_filter_le _ _
  rw [flatten_arguments]
  omega

/-- What is read without losing a character is a single argument. -/
theorem arguments_of_flatten (h : (arguments v).flatten.length = v.length) (hv : v ≠ []) :
    arguments v = [v] := by
  have hcount := length_arguments v
  have hpos := List.length_pos_iff.mpr hv
  match hargs : arguments v with
  | [] => simp [hargs, ← h] at hpos
  | [w] =>
      rw [hargs, List.flatten_singleton] at h
      rw [eq_of_arguments_eq_singleton hargs (Nat.le_of_eq h.symm)]
  | _ :: _ :: _ =>
      rw [hargs] at hcount h
      simp only [List.length_cons] at hcount
      omega

theorem length_le_of_mem_arguments (h : w ∈ arguments v) : w.length ≤ v.length :=
  Nat.le_trans (List.sublist_flatten_of_mem h).length_le (length_flatten_arguments v)

/-- An argument of full length is the only one. -/
theorem arguments_of_mem (h : w ∈ arguments v) (hl : v.length ≤ w.length) (hv : v ≠ []) :
    w = v ∧ arguments v = [v] := by
  have hfirst := (List.sublist_flatten_of_mem h).length_le
  have hall := length_flatten_arguments v
  have hone := arguments_of_flatten (by omega) hv
  rw [hone] at h
  exact ⟨List.mem_singleton.mp h, hone⟩

theorem length_join (hx : xs ≠ []) : (join xs).length + 1 = xs.flatten.length + xs.length := by
  induction xs with
  | nil => exact absurd rfl hx
  | cons x ys ih =>
      cases ys with
      | nil => simp [join]
      | cons y ys =>
          have ih := ih (List.cons_ne_nil y ys)
          simp only [join, List.intercalate_cons_cons, List.length_append, List.length_cons,
            List.length_nil, List.flatten_cons] at ih ⊢
          omega

/-- An item that writing and reading cannot change. -/
def Plain (x : List Char) : Prop := ∀ c ∈ x, c ≠ ';' ∧ c ≠ '[' ∧ c ≠ ']' ∧ c ≠ '\\'

theorem Plain.notMem {x : List Char} (hx : Plain x) : ';' ∉ x := fun h => (hx _ h).1 rfl

theorem Plain.append {x y : List Char} (hx : Plain x) (hy : Plain y) : Plain (x ++ y) := by
  intro c hc
  rcases List.mem_append.mp hc with hc | hc
  · exact hx c hc
  · exact hy c hc

theorem split_plain_append {x : List Char} (hx : Plain x) (v : List Char) :
    split 0 (x ++ ';' :: v) = x :: split 0 v := by
  induction x with
  | nil => cases v <;> simp [split]
  | cons c x ih =>
      obtain ⟨hsep, hopen, hclose, hescape⟩ := hx c List.mem_cons_self
      have ih := ih fun d hd => hx d (List.mem_cons_of_mem _ hd)
      obtain ⟨d, cs, hcs⟩ := List.exists_cons_of_ne_nil
        (List.append_ne_nil_of_right_ne_nil x (List.cons_ne_nil ';' v))
      rw [List.cons_append, hcs, split, if_neg (fun h => hescape h.1), if_neg (fun h => hsep h.1),
        depthAfter, if_neg hopen, if_neg hclose, ← hcs, ih, List.modifyHead_cons]

theorem arguments_join (hx : ∀ x ∈ xs, x ≠ [] ∧ Plain x) : arguments (join xs) = xs := by
  induction xs with
  | nil => rfl
  | cons x ys ih =>
      obtain ⟨hne, hplain⟩ := hx x List.mem_cons_self
      have ih := ih fun y hy => hx y (List.mem_cons_of_mem _ hy)
      cases ys with
      | nil => simpa [join] using arguments_of_notMem hplain.notMem hne
      | cons y ys =>
          have hjoin : join (x :: y :: ys) = x ++ ';' :: join (y :: ys) := by
            simp [join, List.intercalate_cons_cons]
          rw [hjoin, arguments, split_plain_append hplain, List.filter_cons_of_pos (by simpa),
            ← arguments, ih]

end Framework.SeparatedList
