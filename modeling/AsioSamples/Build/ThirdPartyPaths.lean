import AsioSamples.Build.ImportedNames

/-!
# The call for the boost libraries

`cmake/third_party_paths_config.cmake` passes `regex_list` and `rep_ex_list`. The first has the
name of the macro's parameter. The second has not, and nothing is called like that parameter;
so `NOTFOUND` is read for each replacement, `if` takes it for false, and the matches are
deleted. That is what the empty replacements of the call ask for.
-/

namespace AsioSamples.ThirdPartyPaths

open Framework Framework.CMake Framework.SeparatedList AutoImportLibs

inductive Toolset where
  | mingw
  | msvc

def libSuffix : Toolset → Value
  | .mingw => "*.a"
  | .msvc => "*.lib"

def regexList : Toolset → List Value
  | .mingw => ["^lib", "\\.a"]
  | .msvc => ["^lib", "-.*\\.lib"]

def repExList : List Value := ["", ""]

def boostVars (toolset : Toolset) (boostLibDir v : Value) : Option Value :=
  if v = "BOOST_LIB_DIR" then some boostLibDir
  else if v = "lib_suffix" then some (libSuffix toolset)
  else if v = "regex_list" then some (join (regexList toolset))
  else if v = "rep_ex_list" then some (join repExList)
  else none

variable {H : Host} {R : Substitution} {toolset : Toolset} {boostLibDir : Value} {T : Targets}
variable {files : List Value}

def boostCall (T : Targets) (matched : H.glob (boostVars toolset boostLibDir) boostLibDir
    (inDirectory boostLibDir (libSuffix toolset)) = .ok files) : CallSite H where
  call := ⟨boostLibDir, libSuffix toolset, "regex_list", "rep_ex_list"⟩
  start := ⟨boostVars toolset boostLibDir, T⟩
  files := files
  regexes := regexList toolset
  replacements := repExList
  sameLength := by cases toolset <;> rfl
  holdsRegexes := rfl
  holdsReplacements := rfl
  matched := matched

theorem boostVars_numeral (n : ℕ) : boostVars toolset boostLibDir (numeral n) = none := by
  unfold boostVars
  rw [if_neg (numeral_ne (by decide) n), if_neg (numeral_ne (by decide) n),
    if_neg (numeral_ne (by decide) n), if_neg (numeral_ne (by decide) n)]

theorem boostCall_turns :
    Turns H (boostVars toolset boostLibDir) 0 ((regexList toolset).zip repExList) := by
  apply (turns_iff_of_no_numerals boostVars_numeral (Nat.zero_le _)).mpr
  constructor
  · cases toolset <;> rfl
  · intro j p hp
    match j with
    | 0 =>
        cases toolset <;> cases hp <;> rfl
    | 1 =>
        cases toolset <;> cases hp <;> rfl
    | j + 2 => cases toolset <;> cases hp

theorem inDirectory_plain {directory file : Value} (hd : Plain directory) (hf : Plain file) :
    Plain (inDirectory directory file) := by
  apply hd.append
  intro c hc
  rcases List.mem_cons.mp hc with rfl | hc
  · decide
  · exact hf c hc

/-- The boost libraries get the names that the macro's comment describes, if these can be used and
no path has semicolons, brackets, backslashes or references. -/
theorem boostCall_documented (matched : H.glob (boostVars toolset boostLibDir) boostLibDir
      (inDirectory boostLibDir (libSuffix toolset)) = .ok files)
    (hd : Plain boostLibDir) (hdollar : '$' ∉ boostLibDir) (hf : ∀ f ∈ files, Plain f)
    (hR : Namable H R (boostCall T matched)) :
    ImportsAsDocumented H R (boostCall T matched) := by
  intro hw
  have hne : ∀ f ∈ files, f ≠ [] := fun f hm => hw.1 f hm 0 (Nat.zero_le _)
  apply importsAsDocumented_of_reads _ hR hw
  constructor
  · exact boostCall_turns
  · exact arguments_join fun f hm => ⟨hne f hm, hf f hm⟩
  · intro f hm
    exact ⟨arguments_of_notMem (hf f hm).notMem (hne f hm),
      arguments_of_notMem (inDirectory_plain hd (hf f hm)).notMem (by simp [inDirectory])⟩
  · exact readsAsIs_of_plain hdollar fun hm => (hd _ hm).2.2.2 rfl

end AsioSamples.ThirdPartyPaths
