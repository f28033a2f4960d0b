import AsioSamples.Framework.CMake

/-!
# Importing the libraries of a directory

The macro `auto_import_libs_in_dir` of `cmake/auto_import_libs.cmake`, and what its comment
says it computes. A parameter of a macro is no variable: its text is put where it stands as
`${…}`, and is read again there. The lists are named without `${…}`, so what is read are the
variables that happen to be called like the two parameters.
-/

namespace AsioSamples.AutoImportLibs

open Framework Framework.CMake Framework.SeparatedList

/-- The arguments of the macro. The last two are the names of the caller's lists. -/
structure Call where
  needImportedLibsDir : Value
  libSuffix : Value
  regexList : Value
  replaceExpressionList : Value

def inDirectory (directory file : Value) : Value := directory ++ '/' :: file

def applyRegex (R : Substitution) : Command := do
  listGet "regex_list" "index" "regex"
  listGet "replace_expression_list" "index" "replace_expression"
  let s ← Handler.get
  if isFalse (s.value "replace_expression") then
    regexReplace R (s.unquoted "regex" ++ [[]] ++ ("lib_name" : Value) :: s.unquoted "lib_name")
  else
    regexReplace R (s.unquoted "regex" ++ s.unquoted "replace_expression" ++
      ("lib_name" : Value) :: s.unquoted "lib_name")
  increment "index"

def importLib (H : Host) (R : Substitution) (directory : Value) (fuel : ℕ) : Command := do
  let s ← Handler.get
  set "lib_name" (s.value "lib_original_name")
  set "index" "0"
  listLength "regex_list" "list_len"
  whileLess H "index" "list_len" (applyRegex R) fuel
  let s ← Handler.get
  addLibrary H (s.unquoted "lib_name")
  let location ← Handler.lift
    (H.reread s.vars (inDirectory directory (reference "lib_original_name")))
  setImportedLocation (s.unquoted "lib_name") (arguments location)

/-- The macro `auto_import_libs_in_dir`, of which `importLib` is the body of `foreach` and
`applyRegex` that of `while`. It never looks at the last two arguments. -/
def autoImportLibsInDir (H : Host) (R : Substitution) (call : Call) (fuel : ℕ) : Command := do
  fileGlob H "ALL_ORIGIN_LIBS" call.needImportedLibsDir
    (inDirectory call.needImportedLibsDir call.libSuffix)
  let s ← Handler.get
  forEach "lib_original_name" (importLib H R call.needImportedLibsDir fuel)
    (s.unquoted "ALL_ORIGIN_LIBS")

/-- A place that calls the macro: the state it is called in, two variables of which hold the lists
that are meant, and the files that match. -/
structure CallSite (H : Host) where
  call : Call
  start : State
  files : List Value
  regexes : List Value
  replacements : List Value
  sameLength : regexes.length = replacements.length
  holdsRegexes : start.vars call.regexList = some (join regexes)
  holdsReplacements : start.vars call.replaceExpressionList = some (join replacements)
  matched : H.glob start.vars call.needImportedLibsDir
    (inDirectory call.needImportedLibsDir call.libSuffix) = .ok files

def CallSite.pairs {H : Host} (site : CallSite H) : List (Value × Value) :=
  site.regexes.zip site.replacements

/-- The name a library gets: each regular expression in turn is replaced by the string at the
same place of the other list. -/
def documentedName (R : Substitution) (pairs : List (Value × Value)) (file : Value) : Value :=
  pairs.foldl (fun name p => R p.1 p.2 name) file

def WellNamed (R : Substitution) (pairs : List (Value × Value)) (files : List Value) : Prop :=
  (∀ f ∈ files, ∀ k ≤ pairs.length, documentedName R (pairs.take k) f ≠ []) ∧
    (files.map (documentedName R pairs)).Nodup

instance (R : Substitution) (pairs : List (Value × Value)) (files : List Value) :
    Decidable (WellNamed R pairs files) := inferInstanceAs (Decidable (_ ∧ _))

/-- The macro ends and has imported each matched file under the name its comment describes. -/
def ImportsAsDocumented (H : Host) (R : Substitution) (site : CallSite H) : Prop :=
  WellNamed R site.pairs site.files → ∃ enough, ∀ fuel, enough ≤ fuel →
    ∃ t, autoImportLibsInDir H R site.call fuel site.start = (.ok (), t) ∧
      t.targets = site.start.targets.append (site.files.map fun f =>
        ⟨documentedName R site.pairs f, some (inDirectory site.call.needImportedLibsDir f)⟩)

def loops (H : Host) (vars : Value → Option Value) (i : ℕ) : Bool :=
  less H vars (numeral i) (numeral (listItems vars "regex_list").length)

/-- The arguments before `lib_name` that the loop passes to `string(REGEX REPLACE)`. -/
def readArguments (vars : Value → Option Value) (i : ℕ) : Except Failure (List Value) := do
  let regex ← itemAt vars "regex_list" i
  let replacement ← itemAt vars "replace_expression_list" i
  return arguments regex ++ if isFalse replacement then [[]] else arguments replacement

/-- The turns of the loop from index `i` on: at each of them it reads a regular expression and
a replacement, one argument each. -/
def Turns (H : Host) (vars : Value → Option Value) : ℕ → List (Value × Value) → Prop
  | i, [] => loops H vars i = false
  | i, p :: ps =>
    loops H vars i = true ∧ readArguments vars i = .ok [p.1, p.2] ∧ Turns H vars (i + 1) ps

/-- The items of the two lists shift the places of the arguments: one of them falls apart into
several, or it vanishes where the second half of a file name can take its place. -/
def Shifts {H : Host} (site : CallSite H) : Prop :=
  ∃ i args, readArguments site.start.vars i = .ok args ∧ (2 < args.length ∨
    (args.length < 2 ∧ ∃ f ∈ arguments (join site.files), ';' ∈ f))

/-- Where a file name is written behind the directory, what is read again is the directory. -/
def ReadsAsIs (H : Host) (directory : Value) : Prop :=
  ∀ vars, H.reread vars (inDirectory directory (reference "lib_original_name")) =
    .ok (inDirectory directory ((vars "lib_original_name").getD []))

/-- The loop reads the lists that the caller passed, and no file falls apart on the way. -/
structure ReadsPassedLists (H : Host) (site : CallSite H) : Prop where
  turns : Turns H site.start.vars 0 site.pairs
  listed : arguments (join site.files) = site.files
  whole : ∀ f ∈ site.files, arguments f = [f] ∧
    arguments (inDirectory site.call.needImportedLibsDir f) =
      [inDirectory site.call.needImportedLibsDir f]
  directory : ReadsAsIs H site.call.needImportedLibsDir

def Free (H : Host) (T : Targets) (name : Value) : Prop := H.allows name = true ∧ name ∉ T.names

instance (H : Host) (T : Targets) (name : Value) : Decidable (Free H T name) :=
  inferInstanceAs (Decidable (_ ∧ _))

/-- No name on the way falls apart, and the last one is free. -/
structure Namable (H : Host) (R : Substitution) (site : CallSite H) : Prop where
  single : ∀ f ∈ site.files, ∀ k < site.pairs.length, k ≠ 0 →
    arguments (documentedName R (site.pairs.take k) f) =
      [documentedName R (site.pairs.take k) f]
  free : ∀ f ∈ site.files, Free H site.start.targets (documentedName R site.pairs f)

end AsioSamples.AutoImportLibs
