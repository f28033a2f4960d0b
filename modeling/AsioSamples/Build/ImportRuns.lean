import AsioSamples.Build.AutoImportLibs
import Mathlib.Data.List.Forall2

/-!
# Runs of the import macro

The macro writes seven variables, and what its loop reads is none of them. So every turn of the
loop reads what the caller's variables held, and a run that ends has made the same turns for
each file, whatever the regular expressions do.
-/

namespace AsioSamples.AutoImportLibs

open Framework Framework.CMake Framework.SeparatedList

variable {H : Host} {R : Substitution} {vars : Value → Option Value} {directory : Value}
variable {i fuel : ℕ} {name file : Value} {s t : State}

/-- The variables that the macro sets in its caller's scope. -/
def written : List Value :=
  ["ALL_ORIGIN_LIBS", "lib_original_name", "lib_name", "index", "list_len", "regex",
    "replace_expression"]

def Untouched (vars : Value → Option Value) (s : State) : Prop :=
  ∀ v, v ∉ written → s.vars v = vars v

/-- In the loop, before the turn with index `i`. -/
structure During (vars : Value → Option Value) (i : ℕ) (name file : Value) (s : State) :
    Prop where
  untouched : Untouched vars s
  index : s.vars "index" = some (numeral i)
  listLen : s.vars "list_len" = some (numeral (listItems vars "regex_list").length)
  libName : s.vars "lib_name" = some name
  original : s.vars "lib_original_name" = some file

theorem Untouched.assign {v : Value} (hs : Untouched vars s) (hv : v ∈ written) (x : Value) :
    Untouched vars (assign v x s) := by
  intro w hw
  have hne : w ≠ v := fun he => hw (he ▸ hv)
  rw [assign_vars, if_neg hne, hs w hw]

theorem all_isDigit_numeral (n : ℕ) : (numeral n).all Char.isDigit = true :=
  List.all_eq_true.mpr fun _ hc => Nat.isDigit_of_mem_toDigits (by decide) (by decide) hc

theorem decimal_numeral (n : ℕ) : decimal (numeral n) = .ok n := by
  have hne : numeral n ≠ [] := Nat.toDigits_ne_nil
  rw [decimal, if_pos ⟨hne, all_isDigit_numeral n⟩, numeral, Nat.ofDigitChars_ten_toDigits]

theorem numeral_ne {v : Value} (hv : v.all Char.isDigit = false) (n : ℕ) : numeral n ≠ v := by
  rintro rfl
  simp [all_isDigit_numeral] at hv

theorem numeral_notMem_written (n : ℕ) : numeral n ∉ written := by
  have hdigit : ∀ v ∈ written, v.all Char.isDigit = false := by decide
  exact fun h => numeral_ne (hdigit _ h) n rfl

/-- Where no variable is called like a number, `while` counts to the length of the list. -/
theorem loops_of_no_numerals (hn : ∀ n, vars (numeral n) = none) (i : ℕ) :
    loops H vars i = decide (i < (listItems vars "regex_list").length) := by
  simp only [AutoImportLibs.loops, CMake.less, hn, Option.getD_none, H.less_numeral]

theorem turns_iff_of_no_numerals {pairs : List (Value × Value)}
    (hn : ∀ n, vars (numeral n) = none) (hi : i ≤ (listItems vars "regex_list").length) :
    Turns H vars i pairs ↔ i + pairs.length = (listItems vars "regex_list").length ∧
      ∀ j p, pairs[j]? = some p → readArguments vars (i + j) = .ok [p.1, p.2] := by
  induction pairs generalizing i with
  | nil =>
      simp only [Turns, loops_of_no_numerals hn, decide_eq_false_iff_not, List.length_nil]
      constructor
      · intro hl
        exact ⟨by omega, fun j p hp => by simp at hp⟩
      · rintro ⟨hlen, -⟩
        omega
  | cons p pairs ih =>
      simp only [Turns, loops_of_no_numerals hn, decide_eq_true_eq]
      constructor
      · rintro ⟨hl, hp, hrest⟩
        obtain ⟨hlen, hread⟩ := (ih (by omega)).mp hrest
        refine ⟨by rw [List.length_cons]; omega, fun j q hq => ?_⟩
        cases j with
        | zero =>
            obtain rfl : p = q := by simpa using hq
            exact hp
        | succ j =>
            have := hread j q (by simpa using hq)
            rwa [Nat.add_right_comm] at this
      · rintro ⟨hlen, hread⟩
        rw [List.length_cons] at hlen
        refine ⟨by omega, hread 0 p rfl, (ih (by omega)).mpr ⟨by omega, fun j q hq => ?_⟩⟩
        have := hread (j + 1) q (by simpa using hq)
        rwa [Nat.add_right_comm]

theorem Untouched.itemAt (hs : Untouched vars s) (list : Value) (hl : list ∉ written) (i : ℕ) :
    itemAt s.vars list i = itemAt vars list i := by
  simp only [CMake.itemAt, hs list hl]

theorem Untouched.less (hs : Untouched vars s) (m n : ℕ) :
    less H s.vars (numeral m) (numeral n) = less H vars (numeral m) (numeral n) := by
  simp only [CMake.less, hs _ (numeral_notMem_written _)]

theorem During.loops (hs : During vars i name file s) :
    less H s.vars (s.value "index") (s.value "list_len") = loops H vars i := by
  rw [value_of_vars hs.index, value_of_vars hs.listLen, hs.untouched.less, AutoImportLibs.loops]

theorem listGet_run {list index out : Value} (hi : s.vars index = some (numeral i)) :
    listGet list index out s = match itemAt s.vars list i with
      | .ok x => (.ok (), assign out x s)
      | .error e => (.error e, s) := by
  simp only [listGet, Handler.get_bind_run, value_of_vars hi, decimal_numeral]
  rw [Handler.bind_run_ok _ (Handler.lift_run _ _)]
  cases h : itemAt s.vars list i with
  | ok x => rw [Handler.bind_run_ok _ (Handler.lift_run _ _)]; rfl
  | error e => rw [Handler.bind_run_error _ (Handler.lift_run _ _)]

theorem increment_run {v : Value} (hv : s.vars v = some (numeral i)) :
    increment v s = (.ok (), assign v (numeral (i + 1)) s) := by
  simp only [increment, Handler.get_bind_run, value_of_vars hv, decimal_numeral]
  rw [Handler.bind_run_ok _ (Handler.lift_run _ _)]
  rfl

/-- What the two calls of `list(GET)` leave to the rest of the body. -/
theorem applyRegex_run (hs : During vars i name file s) :
    applyRegex R s = match itemAt vars "regex_list" i with
      | .error e => (.error e, s)
      | .ok x => match itemAt vars "replace_expression_list" i with
        | .error e => (.error e, assign "regex" x s)
        | .ok y => (do
            regexReplace R (arguments x ++ (if isFalse y then [[]] else arguments y) ++
              ("lib_name" : Value) :: arguments name)
            increment "index") (assign "replace_expression" y (assign "regex" x s)) := by
  unfold applyRegex
  have hx := hs.untouched.itemAt "regex_list" (by decide) i
  cases hreg : itemAt vars "regex_list" i with
  | error e =>
      rw [Handler.bind_run_error _ (by rw [listGet_run hs.index, hx, hreg])]
  | ok x =>
      rw [Handler.bind_run_ok _ (by rw [listGet_run hs.index, hx, hreg])]
      have hu : Untouched vars (assign "regex" x s) := hs.untouched.assign (by decide) x
      have hindex : (assign "regex" x s).vars "index" = some (numeral i) := by
        rw [assign_vars, if_neg (by decide), hs.index]
      have hy := hu.itemAt "replace_expression_list" (by decide) i
      cases hrep : itemAt vars "replace_expression_list" i with
      | error e =>
          rw [Handler.bind_run_error _ (by rw [listGet_run hindex, hy, hrep])]
      | ok y =>
          rw [Handler.bind_run_ok _ (by rw [listGet_run hindex, hy, hrep]),
            Handler.get_bind_run]
          have hregex : (assign "replace_expression" y (assign "regex" x s)).value "regex" = x := by
            rw [value_assign_of_ne (by decide), value_assign_self]
          have hname : (assign "replace_expression" y (assign "regex" x s)).value "lib_name" =
              name := by
            rw [value_assign_of_ne (by decide), value_assign_of_ne (by decide),
              value_of_vars hs.libName]
          simp only [State.unquoted, hregex, hname, value_assign_self]
          cases isFalse y <;> rfl

theorem readArguments_eq_ok_iff {args : List Value} : readArguments vars i = .ok args ↔
    ∃ x y, itemAt vars "regex_list" i = .ok x ∧ itemAt vars "replace_expression_list" i = .ok y ∧
      arguments x ++ (if isFalse y then [[]] else arguments y) = args := by
  unfold readArguments
  cases itemAt vars "regex_list" i with
  | error e => simp [bind, Except.bind]
  | ok x =>
      cases itemAt vars "replace_expression_list" i with
      | error e => simp [bind, Except.bind]
      | ok y => simp [bind, Except.bind, pure, Except.pure]

/-- The state after a turn that has read `x` and `y` and made `z` the name. -/
def turned (i : ℕ) (x y z : Value) (s : State) : State :=
  assign "index" (numeral (i + 1)) (assign "lib_name" z
    (assign "replace_expression" y (assign "regex" x s)))

theorem During.turned {x y z : Value} (hs : During vars i name file s) :
    During vars (i + 1) z file (turned i x y z s) := by
  constructor
  · exact (((hs.untouched.assign (by decide) x).assign (by decide) y).assign (by decide)
      z).assign (by decide) _
  · rw [AutoImportLibs.turned, assign_vars, if_pos rfl]
  · simp only [AutoImportLibs.turned, assign_vars]
    rw [if_neg (by decide), if_neg (by decide), if_neg (by decide), if_neg (by decide), hs.listLen]
  · rw [AutoImportLibs.turned, assign_vars, if_neg (by decide), assign_vars, if_pos rfl]
  · simp only [AutoImportLibs.turned, assign_vars]
    rw [if_neg (by decide), if_neg (by decide), if_neg (by decide), if_neg (by decide), hs.original]

theorem applyRegex_replaces {r e : Value} (hs : During vars i name file s)
    (hr : readArguments vars i = .ok [r, e]) (hn : arguments name ≠ []) :
    ∃ t, applyRegex R s = (.ok (), t) ∧
      During vars (i + 1) (R r e (arguments name).flatten) file t ∧
      t.targets = s.targets := by
  obtain ⟨x, y, hx, hy, hargs⟩ := readArguments_eq_ok_iff.mp hr
  obtain ⟨n, ns, hns⟩ := List.exists_cons_of_ne_nil hn
  refine ⟨turned i x y (R r e (arguments name).flatten) s, ?_, hs.turned, rfl⟩
  have hindex : (assign "lib_name" (R r e (arguments name).flatten)
      (assign "replace_expression" y (assign "regex" x s))).vars "index" = some (numeral i) := by
    simp only [assign_vars]
    rw [if_neg (by decide), if_neg (by decide), if_neg (by decide), hs.index]
  rw [applyRegex_run hs, hx, hy]
  simp only [hargs, hns, List.cons_append, List.nil_append, regexReplace] at hindex ⊢
  rw [Handler.bind_run_ok _ (set_run _ _ _), increment_run hindex]
  rfl

/-- The name the loop makes: each regular expression is applied to the unquoted name. -/
def loopName (R : Substitution) (pairs : List (Value × Value)) (file : Value) : Value :=
  pairs.foldl (fun name p => R p.1 p.2 (arguments name).flatten) file

/-- The arguments of a turn keep their places: two are read, or fewer are read and no name of
the run has a second part to fill up with. -/
def InPlace (R : Substitution) (vars : Value → Option Value) (name : Value) : Prop :=
  ∀ i args, readArguments vars i = .ok args → args.length = 2 ∨
    (args.length < 2 ∧ ∀ pairs, (arguments (loopName R pairs name)).length ≤ 1)

theorem applyRegex_ok (hs : During vars i name file s) (hv : InPlace R vars name)
    (h : applyRegex R s = (.ok (), t)) :
    ∃ p : Value × Value, readArguments vars i = .ok [p.1, p.2] ∧
      During vars (i + 1) (R p.1 p.2 (arguments name).flatten) file t ∧
      t.targets = s.targets := by
  have hrun := applyRegex_run (R := R) hs
  rw [h] at hrun
  cases hx : itemAt vars "regex_list" i with
  | error e =>
      rw [hx] at hrun
      simp at hrun
  | ok x =>
      cases hy : itemAt vars "replace_expression_list" i with
      | error e =>
          rw [hx, hy] at hrun
          simp at hrun
      | ok y =>
          rw [hx, hy] at hrun
          have hr := readArguments_eq_ok_iff.mpr ⟨x, y, hx, hy, rfl⟩
          obtain ⟨_, u, hreplace, -⟩ := Handler.bind_run_eq_ok hrun.symm
          have hlen := regexReplace_ok hreplace
          simp only [List.length_append, List.length_cons] at hlen
          have htwo : (arguments x ++ if isFalse y then [[]] else arguments y).length = 2 := by
            rcases hv i _ hr with htwo | ⟨hless, hname⟩
            · exact htwo
            · have hname : (arguments name).length ≤ 1 := hname []
              rw [List.length_append] at hless
              omega
          obtain ⟨r, e, hargs⟩ := List.length_eq_two.mp htwo
          rw [← List.length_append, htwo] at hlen
          have hn : arguments name ≠ [] := List.ne_nil_of_length_pos (by omega)
          rw [hargs] at hr
          obtain ⟨u, hu, hduring, hlib⟩ := applyRegex_replaces (R := R) hs hr hn
          obtain rfl : t = u := by simpa [hu] using h.symm
          exact ⟨(r, e), hr, hduring, hlib⟩

theorem InPlace.replace (h : InPlace R vars name) (p : Value × Value) :
    InPlace R vars (R p.1 p.2 (arguments name).flatten) := by
  intro i args hr
  exact (h i args hr).imp_right fun hless => ⟨hless.1, fun pairs => hless.2 (p :: pairs)⟩

theorem whileLess_ok (hs : During vars i name file s) (hv : InPlace R vars name)
    (h : whileLess H "index" "list_len" (applyRegex R) fuel s = (.ok (), t)) :
    ∃ pairs, Turns H vars i pairs ∧
      During vars (i + pairs.length) (loopName R pairs name) file t ∧
      t.targets = s.targets := by
  -- Each unit of fuel pays for one test of the condition, so the turns come off its front.
  induction fuel generalizing i name s with
  | zero => simp [whileLess, Handler.raise] at h
  | succ fuel ih =>
      simp only [whileLess, Handler.get_bind_run, hs.loops] at h
      cases hl : loops H vars i with
      | false =>
          rw [hl] at h
          obtain rfl : s = t := congrArg Prod.snd h
          exact ⟨[], hl, hs, rfl⟩
      | true =>
          rw [hl] at h
          obtain ⟨_, u, hb, hrest⟩ := Handler.bind_run_eq_ok h
          obtain ⟨p, hr, hu, hlib⟩ := applyRegex_ok hs hv hb
          obtain ⟨pairs, hturns, ht, hlib'⟩ := ih hu (hv.replace p) hrest
          refine ⟨p :: pairs, ⟨hl, hr, hturns⟩, ?_, hlib'.trans hlib⟩
          rwa [List.length_cons, Nat.add_comm pairs.length, ← Nat.add_assoc]

theorem whileLess_turns {pairs : List (Value × Value)} (hs : During vars i name file s)
    (hturns : Turns H vars i pairs)
    (hn : ∀ k < pairs.length, arguments (loopName R (pairs.take k) name) ≠ [])
    (hf : pairs.length < fuel) :
    ∃ t, whileLess H "index" "list_len" (applyRegex R) fuel s = (.ok (), t) ∧
      During vars (i + pairs.length) (loopName R pairs name) file t ∧
      t.targets = s.targets := by
  induction pairs generalizing i name s fuel with
  | nil =>
      obtain ⟨fuel, rfl⟩ := Nat.exists_eq_add_of_lt hf
      have hl : loops H vars i = false := hturns
      simp only [List.length_nil, Nat.zero_add, whileLess, Handler.get_bind_run, hs.loops, hl]
      exact ⟨s, rfl, hs, rfl⟩
  | cons p pairs ih =>
      obtain ⟨hl, hr, hturns⟩ := hturns
      obtain ⟨fuel, rfl⟩ := Nat.exists_eq_add_of_lt hf
      obtain ⟨u, hu, hduring, hlib⟩ := applyRegex_replaces (R := R) hs hr (hn 0 (by simp))
      have hless : pairs.length < (p :: pairs).length + fuel := by
        rw [List.length_cons]
        omega
      obtain ⟨t, ht, hduring', hlib'⟩ := ih hduring hturns
        (fun k hk => hn (k + 1) (by simpa using hk)) hless
      refine ⟨t, ?_, ?_, hlib'.trans hlib⟩
      · simp only [whileLess, Handler.get_bind_run, hs.loops, hl, if_true]
        exact (Handler.bind_run_ok _ hu).trans ht
      · rwa [List.length_cons, Nat.add_comm pairs.length, ← Nat.add_assoc]

theorem addLibrary_located {n v l text : Value} (hfree : Free H s.targets n)
    (hv : H.reread s.vars text = .ok v) (hl : propertyLocation (arguments v) = some l) :
    (do
      addLibrary H [n]
      let location ← Handler.lift (H.reread s.vars text)
      setImportedLocation [n] (arguments location) : Command) s =
        (.ok (), { s with targets := s.targets.append [⟨n, some l⟩] }) := by
  have hin : n ∈ (s.targets.append [⟨n, none⟩]).names := by
    rw [Targets.names_append]
    simp
  rw [Handler.bind_run_ok _ (addLibrary_run hfree.1 hfree.2), hv,
    Handler.bind_run_ok _ (Handler.lift_run _ _), setImportedLocation_run hl hin]
  simp only [Targets.locate_append hfree.2]

theorem addLibrary_located_ok {names : List Value} {text : Value}
    (h : (do
      addLibrary H names
      let location ← Handler.lift (H.reread s.vars text)
      setImportedLocation names (arguments location) : Command) s = (.ok (), t)) :
    ∃ n v l, names = [n] ∧ Free H s.targets n ∧ H.reread s.vars text = .ok v ∧
      propertyLocation (arguments v) = some l ∧
      t = { s with targets := s.targets.append [⟨n, some l⟩] } := by
  obtain ⟨_, u, hadd, hrest⟩ := Handler.bind_run_eq_ok h
  obtain ⟨v, w, hlift, hset⟩ := Handler.bind_run_eq_ok hrest
  obtain ⟨n, rfl, ha, hn, rfl⟩ := addLibrary_ok hadd
  obtain ⟨hv, rfl⟩ := Prod.mk.inj hlift
  obtain ⟨n', l, hn', hl, rfl⟩ := setImportedLocation_ok hset
  obtain rfl : n = n' := List.singleton_inj.mp hn'
  refine ⟨n, v, l, rfl, ⟨ha, hn⟩, hv, hl, ?_⟩
  simp only [Targets.locate_append hn]

/-- How a file leads to a library when nothing is shifted. -/
def Imports (H : Host) (R : Substitution) (vars : Value → Option Value) (directory file : Value)
    (l : ImportedLibrary) : Prop :=
  ∃ pairs location, Turns H vars 0 pairs ∧ arguments (loopName R pairs file) = [l.name] ∧
    propertyLocation (arguments (inDirectory directory file)) = some location ∧
    l.importedLocation = some location

/-- The body of `foreach` comes to its loop with the file's own name and the index zero. -/
theorem importLib_run (H : Host) (R : Substitution) (directory : Value) (fuel : ℕ)
    (hu : Untouched vars s) (ho : s.vars "lib_original_name" = some file) :
    ∃ u, During vars 0 file file u ∧ u.targets = s.targets ∧
      importLib H R directory fuel s = (do
        whileLess H "index" "list_len" (applyRegex R) fuel
        let s ← Handler.get
        addLibrary H (s.unquoted "lib_name")
        let location ← Handler.lift
          (H.reread s.vars (inDirectory directory (reference "lib_original_name")))
        setImportedLocation (s.unquoted "lib_name") (arguments location) : Command) u := by
  let named := assign "index" "0" (assign "lib_name" file s)
  have hnamed : Untouched vars named := (hu.assign (by decide) _).assign (by decide) _
  refine ⟨assign "list_len" (numeral (listItems vars "regex_list").length) named, ?_, rfl, ?_⟩
  · constructor
    · exact hnamed.assign (by decide) _
    · rw [assign_vars, if_neg (by decide), assign_vars, if_pos rfl]
      rfl
    · rw [assign_vars, if_pos rfl]
    · rw [assign_vars, if_neg (by decide), assign_vars, if_neg (by decide), assign_vars, if_pos rfl]
    · rw [assign_vars, if_neg (by decide), assign_vars, if_neg (by decide), assign_vars,
        if_neg (by decide), ho]
  · have hlist : listItems named.vars "regex_list" = listItems vars "regex_list" := by
      rw [listItems, hnamed _ (by decide), listItems]
    rw [← hlist]
    unfold importLib
    rw [Handler.get_bind_run, value_of_vars ho]
    rfl

theorem readsAsIs_of_plain (hd : '$' ∉ directory) (he : '\\' ∉ directory) :
    ReadsAsIs H directory := by
  intro vars
  have hread := H.reread_reference vars (directory ++ ['/']) "lib_original_name" (by simp [hd])
    (by simp [he]) (by decide)
  simpa [inDirectory] using hread

theorem During.reread (hs : During vars i name file s) (hd : ReadsAsIs H directory) :
    H.reread s.vars (inDirectory directory (reference "lib_original_name")) =
      .ok (inDirectory directory file) := by
  rw [hd, hs.original, Option.getD_some]

theorem importLib_ok (hd : ReadsAsIs H directory) (hu : Untouched vars s)
    (ho : s.vars "lib_original_name" = some file) (hv : InPlace R vars file)
    (h : importLib H R directory fuel s = (.ok (), t)) :
    ∃ l, Imports H R vars directory file l ∧ t.targets = s.targets.append [l] ∧
      Untouched vars t := by
  obtain ⟨u, hduring, htargets, hrun⟩ := importLib_run H R directory fuel hu ho
  obtain ⟨_, w, hwhile, hrest⟩ := Handler.bind_run_eq_ok (hrun.symm.trans h)
  obtain ⟨pairs, hturns, hw, htargets'⟩ := whileLess_ok hduring hv hwhile
  rw [Handler.get_bind_run, State.unquoted, value_of_vars hw.libName] at hrest
  obtain ⟨n, v, l, hn, -, hread, hl, rfl⟩ := addLibrary_located_ok hrest
  obtain rfl : inDirectory directory file = v := Except.ok.inj ((hw.reread hd).symm.trans hread)
  refine ⟨⟨n, some l⟩, ⟨pairs, l, hturns, hn, hl, rfl⟩, ?_, hw.untouched⟩
  rw [htargets', htargets]

theorem importLib_imports {pairs : List (Value × Value)} {n l : Value}
    (hd : ReadsAsIs H directory) (hu : Untouched vars s)
    (ho : s.vars "lib_original_name" = some file) (hturns : Turns H vars 0 pairs)
    (hargs : ∀ k < pairs.length, arguments (loopName R (pairs.take k) file) ≠ [])
    (hf : pairs.length < fuel) (hn : arguments (loopName R pairs file) = [n])
    (hl : propertyLocation (arguments (inDirectory directory file)) = some l)
    (hfree : Free H s.targets n) :
    ∃ t, importLib H R directory fuel s = (.ok (), t) ∧
      t.targets = s.targets.append [⟨n, some l⟩] ∧ Untouched vars t := by
  obtain ⟨u, hduring, htargets, hrun⟩ := importLib_run H R directory fuel hu ho
  obtain ⟨w, hwhile, hw, htargets'⟩ := whileLess_turns hduring hturns hargs hf
  have hall : w.targets = s.targets := htargets'.trans htargets
  refine ⟨{ w with targets := w.targets.append [⟨n, some l⟩] }, ?_, by rw [hall], hw.untouched⟩
  rw [hrun, Handler.bind_run_ok _ hwhile, Handler.get_bind_run, State.unquoted,
    value_of_vars hw.libName, hn]
  exact addLibrary_located (hall ▸ hfree) (hw.reread hd) hl

theorem forEach_ok {files : List Value} (hd : ReadsAsIs H directory) (hu : Untouched vars s)
    (hv : ∀ f ∈ files, InPlace R vars f)
    (h : forEach "lib_original_name" (importLib H R directory fuel) files s = (.ok (), t)) :
    ∃ ls, List.Forall₂ (Imports H R vars directory) files ls ∧
      t.targets = s.targets.append ls := by
  induction files generalizing s with
  | nil =>
      obtain rfl : s = t := congrArg Prod.snd h
      exact ⟨[], .nil, Targets.append_nil.symm⟩
  | cons f files ih =>
      obtain ⟨_, u, hset, hrest⟩ := Handler.bind_run_eq_ok h
      obtain rfl : assign "lib_original_name" f s = u := congrArg Prod.snd hset
      obtain ⟨_, w, himport, hrest⟩ := Handler.bind_run_eq_ok hrest
      obtain ⟨l, hl, htargets, hw⟩ := importLib_ok hd (hu.assign (by decide) f)
        (by rw [assign_vars, if_pos rfl]) (hv f List.mem_cons_self) himport
      obtain ⟨ls, hls, htargets'⟩ := ih hw (fun g hg => hv g (List.mem_cons_of_mem _ hg)) hrest
      refine ⟨l :: ls, .cons hl hls, ?_⟩
      rw [htargets', htargets, Targets.append_append]
      rfl

theorem forEach_imports {files : List Value} (library : Value → ImportedLibrary)
    (hu : Untouched vars s)
    (heach : ∀ f ∈ files, ∀ s, Untouched vars s → s.vars "lib_original_name" = some f →
      (library f).name ∉ s.targets.names →
      ∃ t, importLib H R directory fuel s = (.ok (), t) ∧
        t.targets = s.targets.append [library f] ∧ Untouched vars t)
    (hnew : ∀ f ∈ files, (library f).name ∉ s.targets.names)
    (hnd : (files.map fun f => (library f).name).Nodup) :
    ∃ t, forEach "lib_original_name" (importLib H R directory fuel) files s = (.ok (), t) ∧
      t.targets = s.targets.append (files.map library) := by
  induction files generalizing s with
  | nil => exact ⟨s, rfl, Targets.append_nil.symm⟩
  | cons f files ih =>
      rw [List.map_cons, List.nodup_cons] at hnd
      obtain ⟨w, himport, htargets, hw⟩ := heach f List.mem_cons_self
        (assign "lib_original_name" f s) (hu.assign (by decide) f)
        (by rw [assign_vars, if_pos rfl]) (hnew f List.mem_cons_self)
      have htargets : w.targets = s.targets.append [library f] := htargets
      have hnew' : ∀ g ∈ files, (library g).name ∉ w.targets.names := by
        intro g hg hin
        rw [htargets, Targets.names_append, List.mem_append] at hin
        rcases hin with hin | hin
        · exact hnew g (List.mem_cons_of_mem _ hg) hin
        · have hsame : (library g).name = (library f).name := by simpa using hin
          exact hnd.1 (List.mem_map.mpr ⟨g, hg, hsame⟩)
      obtain ⟨t, ht, htargets'⟩ :=
        ih hw (fun g hg => heach g (List.mem_cons_of_mem _ hg)) hnew' hnd.2
      refine ⟨t, ?_, by rw [htargets', htargets, Targets.append_append]; rfl⟩
      rw [forEach, Handler.bind_run_ok _ (set_run _ _ _), Handler.bind_run_ok _ himport, ht]

/-- The macro runs its `foreach` over the arguments that the list of matched files leaves. -/
theorem autoImportLibsInDir_run (R : Substitution) (fuel : ℕ) (site : CallSite H) :
    ∃ s, Untouched site.start.vars s ∧ s.targets = site.start.targets ∧
      autoImportLibsInDir H R site.call fuel site.start =
        forEach "lib_original_name" (importLib H R site.call.needImportedLibsDir fuel)
          (arguments (join site.files)) s := by
  let globbed := assign "ALL_ORIGIN_LIBS" (join site.files) site.start
  have hu : Untouched site.start.vars site.start := fun _ _ => rfl
  refine ⟨globbed, hu.assign (by decide) _, rfl, ?_⟩
  have hargs : globbed.unquoted "ALL_ORIGIN_LIBS" = arguments (join site.files) := by
    rw [State.unquoted, value_assign_self]
  have hglob : fileGlob H "ALL_ORIGIN_LIBS" site.call.needImportedLibsDir
      (inDirectory site.call.needImportedLibsDir site.call.libSuffix) site.start =
        (.ok (), globbed) := by
    unfold fileGlob
    rw [Handler.get_bind_run, site.matched, Handler.bind_run_ok _ (Handler.lift_run _ _)]
    rfl
  rw [autoImportLibsInDir, Handler.bind_run_ok _ hglob, Handler.get_bind_run, hargs]

end AsioSamples.AutoImportLibs
