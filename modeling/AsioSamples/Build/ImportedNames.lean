import AsioSamples.Build.AddedTargets
import Mathlib.Data.Countable.Basic
import Mathlib.Data.List.Nodup
import Mathlib.Logic.Equiv.List

/-!
# When the imported libraries get the documented names

The macro does what its comment says where its loop reads the lists that were passed, every name
stays a single argument, and CMake takes the names for new targets. One substitution shows that
the lists must be read: it makes of a name a new one that tells all it was made of.
-/

namespace AsioSamples.AutoImportLibs

open Framework Framework.CMake Framework.SeparatedList

variable {H : Host} {R : Substitution} {site : CallSite H} {directory file : Value}
variable {pairs read : List (Value × Value)}
variable {n : ℕ}

theorem loopName_eq_documentedName
    (h : ∀ k < pairs.length, arguments (documentedName R (pairs.take k) file) =
      [documentedName R (pairs.take k) file]) :
    loopName R pairs file = documentedName R pairs file := by
  induction pairs generalizing file with
  | nil => rfl
  | cons p pairs ih =>
      have h0 : arguments file = [file] := h 0 (by simp)
      simp only [loopName, documentedName, List.foldl_cons, h0, List.flatten_singleton] at ih ⊢
      exact ih fun k hk => h (k + 1) (by simpa using hk)

section Sufficient

theorem arguments_of_allows {name : Value} (h : H.allows name = true) :
    arguments name = [name] := by
  simp only [Host.allows, Bool.and_eq_true, decide_eq_true_eq, List.all_eq_true] at h
  obtain ⟨⟨⟨hne, hall⟩, -⟩, -⟩ := h
  apply arguments_of_notMem _ hne
  intro hm
  exact absurd (hall _ hm) (by decide)

theorem imports_of_turns (hd : ReadsAsIs H site.call.needImportedLibsDir)
    (hlisted : arguments (join site.files) = site.files)
    (hturns : Turns H site.start.vars 0 read)
    (hlocated : ∀ f ∈ site.files, arguments (inDirectory site.call.needImportedLibsDir f) =
      [inDirectory site.call.needImportedLibsDir f])
    (hsingle : ∀ f ∈ site.files, ∀ k < read.length,
      arguments (documentedName R (read.take k) f) = [documentedName R (read.take k) f])
    (hfree : ∀ f ∈ site.files, Free H site.start.targets (documentedName R read f))
    (hnd : (site.files.map (documentedName R read)).Nodup) {fuel : ℕ} (hf : read.length < fuel) :
    ∃ t, autoImportLibsInDir H R site.call fuel site.start = (.ok (), t) ∧
      t.targets = site.start.targets.append (site.files.map fun f =>
        ⟨documentedName R read f, some (inDirectory site.call.needImportedLibsDir f)⟩) := by
  obtain ⟨s, hu, htargets, hrun⟩ := autoImportLibsInDir_run R fuel site
  rw [hrun, hlisted, ← htargets]
  have hloop {f : Value} (hm : f ∈ site.files) {k : ℕ} (hk : k ≤ read.length) :
      loopName R (read.take k) f = documentedName R (read.take k) f := by
    apply loopName_eq_documentedName
    intro j hj
    rw [List.take_take, Nat.min_eq_left (by simp at hj; omega)]
    exact hsingle f hm j (by simp at hj; omega)
  refine forEach_imports (fun f => ⟨documentedName R read f,
    some (inDirectory site.call.needImportedLibsDir f)⟩) hu ?_ ?_ hnd
  · intro f hm s hu ho hnew
    have hall := hloop hm (Nat.le_refl _)
    rw [List.take_length] at hall
    refine importLib_imports hd hu ho hturns ?_ hf ?_ ?_ ⟨(hfree f hm).1, hnew⟩
    · intro k hk
      rw [hloop hm (Nat.le_of_lt hk), hsingle f hm k hk]
      exact List.cons_ne_nil _ _
    · rw [hall, arguments_of_allows (hfree f hm).1]
    · rw [hlocated f hm]
      rfl
  · intro f hm
    rw [htargets]
    exact (hfree f hm).2

theorem importsAsDocumented_of_reads (h : ReadsPassedLists H site) (hR : Namable H R site) :
    ImportsAsDocumented H R site := by
  intro hw
  refine ⟨site.pairs.length + 1, fun fuel hfuel => ?_⟩
  refine imports_of_turns h.directory h.listed h.turns (fun f hf => (h.whole f hf).2) ?_ hR.free
    hw.2 hfuel
  intro f hf k hk
  by_cases hzero : k = 0
  · rw [hzero, List.take_zero]
    exact (h.whole f hf).1
  · exact hR.single f hf k hk hzero

end Sufficient

section Necessary

def marked (n k : ℕ) : Value := List.replicate (n + 1 + k) 'a'

/-- The substitution makes of a name that is not longer than `n` one that tells all it was made
of, and goes on telling it. -/
structure Marks (R : Substitution) (n : ℕ) (code : Value × List (Value × Value) → ℕ) : Prop where
  injective : Function.Injective code
  first : ∀ r e name, name.length ≤ n → R r e name = marked n (code (name, [(r, e)]))
  next : ∀ r e x, R r e (marked n (code x)) = marked n (code (x.1, x.2 ++ [(r, e)]))

theorem marked_injective (n : ℕ) : Function.Injective (marked n) := by
  intro j k h
  have hlen := congrArg List.length h
  simpa [marked] using hlen

theorem ne_marked {v : Value} (h : v.length ≤ n) (k : ℕ) : v ≠ marked n k := by
  rintro rfl
  rw [marked, List.length_replicate] at h
  omega

theorem arguments_marked (n k : ℕ) : arguments (marked n k) = [marked n k] := by
  apply arguments_of_notMem
  · simp [marked]
  · simp [marked]

namespace Marks

variable {code : Value × List (Value × Value) → ℕ}

theorem documentedName_marked (h : Marks R n code) (pairs : List (Value × Value))
    (x : Value × List (Value × Value)) :
    documentedName R pairs (marked n (code x)) =
      marked n (code (x.1, x.2 ++ pairs)) := by
  induction pairs generalizing x with
  | nil => simp [documentedName]
  | cons p pairs ih =>
      have hstep := h.next p.1 p.2 x
      simp only [documentedName, List.foldl_cons, hstep] at ih ⊢
      rw [ih, List.append_assoc]
      rfl

theorem documentedName_eq (h : Marks R n code) (hp : pairs ≠ []) (hlen : file.length ≤ n) :
    documentedName R pairs file = marked n (code (file, pairs)) := by
  cases pairs with
  | nil => exact absurd rfl hp
  | cons p pairs =>
      have hrest := h.documentedName_marked pairs (file, [(p.1, p.2)])
      rw [← h.first p.1 p.2 file hlen] at hrest
      exact hrest

theorem loopName_eq (h : Marks R n code) (hp : pairs ≠ []) (hlen : file.length ≤ n) :
    loopName R pairs file = marked n (code ((arguments file).flatten, pairs)) := by
  cases pairs with
  | nil => exact absurd rfl hp
  | cons p pairs =>
      have hshort := Nat.le_trans (length_flatten_arguments file) hlen
      have hrest := h.documentedName_marked pairs ((arguments file).flatten, [(p.1, p.2)])
      rw [← loopName_eq_documentedName fun k _ => by
        rw [h.documentedName_marked, arguments_marked], ← h.first p.1 p.2 _ hshort] at hrest
      exact hrest

end Marks

theorem imports_of_documented (h : ImportsAsDocumented H R site)
    (hw : WellNamed R site.pairs site.files) (hd : ReadsAsIs H site.call.needImportedLibsDir)
    (hv : ∀ x ∈ arguments (join site.files), InPlace R site.start.vars x) :
    List.Forall₂ (fun x f => ∃ read, Turns H site.start.vars 0 read ∧
        arguments (loopName R read x) = [documentedName R site.pairs f] ∧
        inDirectory site.call.needImportedLibsDir f ∈
          arguments (inDirectory site.call.needImportedLibsDir x))
      (arguments (join site.files)) site.files := by
  obtain ⟨enough, hrun⟩ := h hw
  obtain ⟨t, ht, htargets⟩ := hrun enough (Nat.le_refl _)
  obtain ⟨s, hu, hs, hbody⟩ := autoImportLibsInDir_run R enough site
  obtain ⟨ls, hls, htargets'⟩ := forEach_ok hd hu hv (hbody.symm.trans ht)
  rw [hs, htargets] at htargets'
  obtain rfl := List.append_cancel_left (congrArg Targets.libraries htargets')
  apply (List.forall₂_map_right_iff.mp hls).imp
  intro x f himports
  obtain ⟨read, location, hturns, hname, hargs, hloc⟩ := himports
  obtain rfl : inDirectory site.call.needImportedLibsDir f = location := by simpa using hloc
  exact ⟨read, hturns, hname, propertyLocation_mem hargs⟩

theorem length_inDirectory (directory file : Value) :
    (inDirectory directory file).length = directory.length + file.length + 1 := by
  simp only [inDirectory, List.length_append, List.length_cons, Nat.add_assoc]

/-- Reading a location can only lose characters, and what loses none is read as it is. -/
theorem eq_of_locations {xs fs : List Value} (h : List.Forall₂ (fun x f =>
      inDirectory directory f ∈ arguments (inDirectory directory x)) xs fs) :
    fs.flatten.length ≤ xs.flatten.length ∧ xs.length = fs.length ∧
      (xs.flatten.length ≤ fs.flatten.length → xs = fs ∧
        ∀ f ∈ fs, arguments (inDirectory directory f) = [inDirectory directory f]) := by
  induction h with
  | nil => simp
  | @cons x f xs fs hx hrest ih =>
      obtain ⟨hle, hlen, heq⟩ := ih
      have hshort := length_le_of_mem_arguments hx
      rw [length_inDirectory, length_inDirectory] at hshort
      simp only [List.flatten_cons, List.length_append, List.length_cons]
      refine ⟨by omega, by omega, fun hall => ?_⟩
      have hfull : (inDirectory directory x).length ≤ (inDirectory directory f).length := by
        simp only [length_inDirectory]
        omega
      obtain ⟨hsame, hone⟩ := arguments_of_mem hx hfull (by simp [inDirectory])
      obtain rfl : f = x := by simpa [inDirectory] using hsame
      obtain ⟨rfl, hrest⟩ := heq (by omega)
      refine ⟨rfl, fun g hg => ?_⟩
      rcases List.mem_cons.mp hg with rfl | hg
      · exact hone
      · exact hrest g hg

section Marked

variable {code : Value × List (Value × Value) → ℕ}

theorem Marks.inPlace (h : Marks R n code) (hv : ¬ Shifts site) {x : Value}
    (hx : x ∈ arguments (join site.files)) (hlen : x.length ≤ n) :
    InPlace R site.start.vars x := by
  intro i args hr
  rcases Nat.lt_trichotomy args.length 2 with hless | htwo | hmore
  · have hplain : ';' ∉ x := fun hm => hv ⟨i, args, hr, .inr ⟨hless, x, hx, hm⟩⟩
    refine .inr ⟨hless, fun pairs => ?_⟩
    by_cases hp : pairs = []
    · by_cases hnil : x = []
      · rw [hp, hnil]
        exact Nat.zero_le 1
      · rw [hp]
        exact Nat.le_of_eq (congrArg List.length (arguments_of_notMem hplain hnil))
    · rw [h.loopName_eq hp hlen, arguments_marked]
      exact Nat.le_refl 1
  · exact .inl htwo
  · exact absurd ⟨i, args, hr, .inl hmore⟩ hv

/-- The names tell that the turns are the passed pairs, and that no character of a file got lost. -/
theorem Marks.read_eq (h : Marks R n code) {x f : Value} (hx : x.length ≤ n) (hf : f.length ≤ n)
    (hname : arguments (loopName R read x) = [documentedName R pairs f]) :
    read = pairs ∧ (arguments x).flatten = f := by
  by_cases hr : read = [] <;> by_cases hp : pairs = []
  · subst hr hp
    exact ⟨rfl, by rw [show arguments x = [f] from hname, List.flatten_singleton]⟩
  · rw [hr, h.documentedName_eq hp hf] at hname
    have hin : marked n (code (f, pairs)) ∈ arguments x := by
      rw [show arguments x = _ from hname]
      exact List.mem_singleton_self _
    exact absurd rfl (ne_marked (Nat.le_trans (length_le_of_mem_arguments hin) hx) _)
  · rw [hp, h.loopName_eq hr hx, arguments_marked] at hname
    exact absurd (List.singleton_inj.mp hname).symm (ne_marked hf _)
  · rw [h.loopName_eq hr hx, h.documentedName_eq hp hf, arguments_marked] at hname
    have hsame := h.injective (marked_injective n (List.singleton_inj.mp hname))
    exact ⟨congrArg Prod.snd hsame, congrArg Prod.fst hsame⟩

theorem Marks.reads (h : Marks R n code) (himports : ImportsAsDocumented H R site)
    (hw : WellNamed R site.pairs site.files) (hd : ReadsAsIs H site.call.needImportedLibsDir)
    (hv : ¬ Shifts site) (hlen : ∀ f ∈ site.files, f.length ≤ n)
    (hjoin : (join site.files).length ≤ n) (hne : site.files ≠ []) :
    ReadsPassedLists H site := by
  have hshort : ∀ x ∈ arguments (join site.files), x.length ≤ n := fun x hx =>
    Nat.le_trans (length_le_of_mem_arguments hx) hjoin
  have hall := imports_of_documented himports hw hd fun x hx => h.inPlace hv hx (hshort x hx)
  obtain ⟨-, hcount, heq⟩ := eq_of_locations (hall.imp fun x f hx => hx.choose_spec.2.2)
  -- Joining puts in one semicolon less than there are names, and reading takes as many out.
  have hargs := length_arguments (join site.files)
  have hlength := length_join hne
  obtain ⟨hlisted, hlocated⟩ := heq (by omega)
  rw [hlisted, List.forall₂_same] at hall
  have hread : ∀ f ∈ site.files, Turns H site.start.vars 0 site.pairs ∧
      (arguments f).flatten = f := by
    intro f hf
    obtain ⟨read, hturns, hname, -⟩ := hall f hf
    obtain ⟨rfl, hflat⟩ := h.read_eq (hlen f hf) (hlen f hf) hname
    exact ⟨hturns, hflat⟩
  obtain ⟨f, hf⟩ := List.exists_mem_of_ne_nil _ hne
  refine ⟨(hread f hf).1, hlisted, fun g hg => ⟨?_, hlocated g hg⟩, hd⟩
  exact arguments_of_flatten (congrArg List.length (hread g hg).2) (hw.1 g hg 0 (Nat.zero_le _))

end Marked

end Necessary

section Call

end Call

end AsioSamples.AutoImportLibs
