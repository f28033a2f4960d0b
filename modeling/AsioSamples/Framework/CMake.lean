import AsioSamples.Framework.Handler
import AsioSamples.Framework.SeparatedList
import Mathlib.Logic.Function.Basic

/-!
# The commands of the CMake language

A variable holds a string, and a list is a string with semicolons. An unquoted argument `${v}`
becomes as many arguments as the list has items that are not empty, and so none or several
where a single one was meant. The commands take the arguments they are left with.
-/

namespace Framework.CMake

open SeparatedList (arguments)

abbrev Value := List Char

instance : Coe String Value := ⟨String.toList⟩

inductive Failure where
  | wrongArguments
  | emptyList
  | indexOutOfRange
  | notANumber
  | invalidName
  | targetExists
  | unknownTarget
  | endless
  deriving DecidableEq

structure ImportedLibrary where
  name : Value
  importedLocation : Option Value
  deriving DecidableEq

structure Targets where
  libraries : List ImportedLibrary := []
  others : List Value := []

structure State where
  vars : Value → Option Value
  targets : Targets := {}

abbrev Command := Handler State Failure Unit

/-- What `string(REGEX REPLACE)` makes of an input, given the regular expression and the
replacement. -/
abbrev Substitution := Value → Value → Value → Value

def numeral (n : ℕ) : Value := Nat.toDigits 10 n

def isReferenceCharacter (c : Char) : Bool :=
  c.isAlphanum || decide (c ∈ ['_', '/', '.', '+', '-'])

def reference (w : Value) : Value := '$' :: '{' :: w ++ ['}']

/-- What CMake finds around it. `glob` lists the files that match, where the directory and the
pattern are written in a command, and `reread` is what an argument that is written so becomes
when references and escapes are resolved: characters other than `$` and the backslash stay, and a
reference becomes the value of its variable. `less` is the order of the numbers that two strings
read as, and `reserved` are the target names that the features in use keep for themselves. -/
structure Host where
  glob : (Value → Option Value) → Value → Value → Except Failure (List Value)
  reread : (Value → Option Value) → Value → Except Failure Value
  reread_reference : ∀ vars v w, '$' ∉ v → '\\' ∉ v → w.all isReferenceCharacter = true →
    reread vars (v ++ reference w) = .ok (v ++ (vars w).getD [])
  less : Value → Value → Bool
  less_numeral : ∀ a b, less (numeral a) (numeral b) = decide (a < b)
  reserved : List Value

def decimal (v : Value) : Except Failure ℕ :=
  if v ≠ [] ∧ v.all Char.isDigit then .ok (Nat.ofDigitChars 10 v 0) else .error .notANumber

/-- `${v}` inside quotes; a variable that is not set is empty. -/
def State.value (s : State) (v : Value) : Value := (s.vars v).getD []

def State.unquoted (s : State) (v : Value) : List Value := arguments (s.value v)

def assign (v x : Value) (s : State) : State :=
  { s with vars := Function.update s.vars v (some x) }

theorem assign_vars (v x w : Value) (s : State) :
    (assign v x s).vars w = if w = v then some x else s.vars w := by
  simp only [assign, Function.update_apply]

theorem value_assign_self (v x : Value) (s : State) : (assign v x s).value v = x := by
  rw [State.value, assign_vars, if_pos rfl, Option.getD_some]

theorem value_assign_of_ne {v w : Value} (h : w ≠ v) (x : Value) (s : State) :
    (assign v x s).value w = s.value w := by
  rw [State.value, assign_vars, if_neg h, State.value]

theorem value_of_vars {s : State} {v x : Value} (h : s.vars v = some x) : s.value v = x := by
  rw [State.value, h, Option.getD_some]

def set (v x : Value) : Command := Handler.modify (assign v x)

@[simp] theorem set_run (v x : Value) (s : State) : set v x s = (.ok (), assign v x s) := rfl

/-- The constants that `if` takes for false. A constant may be written in lower case. -/
def falseConstants : List Value :=
  ["", "0", "OFF", "NO", "FALSE", "N", "IGNORE", "NOTFOUND"]

def isFalse (x : Value) : Bool :=
  decide (x.map Char.toUpper ∈ falseConstants) || List.isSuffixOf "-NOTFOUND".toList x

/-- `a LESS b`: each side is the name of a variable, or else it stands for itself. -/
def less (H : Host) (vars : Value → Option Value) (a b : Value) : Bool :=
  H.less ((vars a).getD a) ((vars b).getD b)

def listItems (vars : Value → Option Value) (list : Value) : List Value :=
  ((vars list).map SeparatedList.items).getD []

/-- The item `list(GET <list> <i> …)` finds. Of a list that is not set it is `NOTFOUND`. -/
def itemAt (vars : Value → Option Value) (list : Value) (i : ℕ) : Except Failure Value :=
  match vars list with
  | none => .ok "NOTFOUND"
  | some x =>
    match SeparatedList.items x with
    | [] => .error .emptyList
    | y :: ys =>
      match (y :: ys)[i]? with
      | some item => .ok item
      | none => .error .indexOutOfRange

def listLength (list out : Value) : Command := do
  let s ← Handler.get
  set out (numeral (listItems s.vars list).length)

def listGet (list index out : Value) : Command := do
  let s ← Handler.get
  let i ← Handler.lift (decimal (s.value index))
  let item ← Handler.lift (itemAt s.vars list i)
  set out item

/-- `math(EXPR <v> "${v}+1")`. -/
def increment (v : Value) : Command := do
  let s ← Handler.get
  let n ← Handler.lift (decimal (s.value v))
  set v (numeral (n + 1))

/-- `string(REGEX REPLACE <regex> <replacement> <out> <input>…)`: the inputs are joined. -/
def regexReplace (R : Substitution) : List Value → Command
  | regex :: replacement :: out :: input :: inputs =>
    set out (R regex replacement (input :: inputs).flatten)
  | _ => Handler.raise .wrongArguments

/-- `while(${a} LESS ${b})`. -/
def whileLess (H : Host) (a b : Value) (body : Command) : ℕ → Command
  | 0 => Handler.raise .endless
  | fuel + 1 => do
    let s ← Handler.get
    if less H s.vars (s.value a) (s.value b) then
      body
      whileLess H a b body fuel

def forEach (v : Value) (body : Command) : List Value → Command
  | [] => pure ()
  | x :: xs => do
    set v x
    body
    forEach v body xs

def fileGlob (H : Host) (v directory pattern : Value) : Command := do
  let s ← Handler.get
  let files ← Handler.lift (H.glob s.vars directory pattern)
  set v (SeparatedList.join files)

def isNameCharacter (c : Char) : Bool :=
  c.isAlphanum || decide (c ∈ ['_', '.', ':', '+', '-'])

/-- The target names that one of CMake's generators uses itself. -/
def reservedTargets : List Value :=
  ["all", "ALL_BUILD", "help", "install", "INSTALL", "preinstall", "clean", "edit_cache",
    "rebuild_cache", "ZERO_CHECK"]

/-- The names that policy CMP0037 leaves to the targets of a project. -/
def Host.allows (H : Host) (name : Value) : Bool :=
  decide (name ≠ []) && name.all isNameCharacter &&
    decide (name ∉ reservedTargets) && decide (name ∉ H.reserved)

namespace Targets

def names (T : Targets) : List Value := T.others ++ T.libraries.map ImportedLibrary.name

def append (T : Targets) (libraries : List ImportedLibrary) : Targets :=
  { T with libraries := T.libraries ++ libraries }

def locate (T : Targets) (name location : Value) : Targets :=
  { T with libraries := T.libraries.map fun l =>
      if l.name = name then { l with importedLocation := some location } else l }

variable {T : Targets} {name location : Value}

theorem append_nil : T.append [] = T := by simp [append]

theorem append_append (ls ms : List ImportedLibrary) :
    (T.append ls).append ms = T.append (ls ++ ms) := by simp [append]

theorem names_append (ls : List ImportedLibrary) :
    (T.append ls).names = T.names ++ ls.map ImportedLibrary.name := by
  simp [names, append]

theorem locate_append (h : name ∉ T.names) :
    (T.append [⟨name, none⟩]).locate name location = T.append [⟨name, some location⟩] := by
  have hkeep : T.libraries.map (fun l =>
      if l.name = name then { l with importedLocation := some location } else l) =
        T.libraries := by
    rw [List.map_congr_left (g := id), List.map_id]
    intro l hl
    have hne : l.name ≠ name := fun he =>
      h (List.mem_append_right _ (List.mem_map.mpr ⟨l, hl, he⟩))
    rw [if_neg hne, id]
  simp only [locate, append, List.map_append, hkeep]
  simp

end Targets

/-- `add_library(<name> STATIC IMPORTED)`. With several names the others are source files,
and no library is imported. -/
def addLibrary (H : Host) : List Value → Command
  | [name] => do
    let s ← Handler.get
    if H.allows name = false then Handler.raise .invalidName
    else if name ∈ s.targets.names then Handler.raise .targetExists
    else Handler.modify fun s => { s with targets := s.targets.append [⟨name, none⟩] }
  | _ => Handler.raise .wrongArguments

def lastLocation : Value → List Value → Option Value
  | location, [] => some location
  | _, [_] => none
  | location, property :: value :: rest =>
    lastLocation (if property = "IMPORTED_LOCATION" then value else location) rest

def propertyLocation : List Value → Option Value
  | [] => none
  | location :: properties => lastLocation location properties

/-- `set_target_properties(<name> PROPERTIES IMPORTED_LOCATION <location>)`. -/
def setImportedLocation : List Value → List Value → Command
  | [name], locations => do
    let s ← Handler.get
    match propertyLocation locations with
    | none => Handler.raise .wrongArguments
    | some location =>
      if name ∈ s.targets.names then
        Handler.modify fun s => { s with targets := s.targets.locate name location }
      else Handler.raise .unknownTarget
  | _, _ => Handler.raise .wrongArguments

theorem regexReplace_ok {R : Substitution} {args : List Value} {s t : State}
    (h : regexReplace R args s = (.ok (), t)) : 4 ≤ args.length := by
  match args with
  | [] | [_] | [_, _] | [_, _, _] => simp [regexReplace, Handler.raise] at h
  | _ :: _ :: _ :: _ :: _ => simp

section Libraries

variable {H : Host} {s t : State} {name location : Value} {names locations : List Value}

theorem addLibrary_run (ha : H.allows name = true) (h : name ∉ s.targets.names) :
    addLibrary H [name] s = (.ok (), { s with targets := s.targets.append [⟨name, none⟩] }) := by
  simp only [addLibrary, Handler.get_bind_run, ha, Bool.true_eq_false, if_false, if_neg h,
    Handler.modify_run]

theorem addLibrary_ok (h : addLibrary H names s = (.ok (), t)) :
    ∃ name, names = [name] ∧ H.allows name = true ∧ name ∉ s.targets.names ∧
      t = { s with targets := s.targets.append [⟨name, none⟩] } := by
  match names with
  | [] => simp [addLibrary, Handler.raise] at h
  | _ :: _ :: _ => simp [addLibrary, Handler.raise] at h
  | [name] =>
      cases ha : H.allows name with
      | false => simp [addLibrary, ha, Handler.raise] at h
      | true =>
          by_cases hn : name ∈ s.targets.names
          · simp [addLibrary, ha, hn, Handler.raise] at h
          · rw [addLibrary_run ha hn] at h
            exact ⟨name, rfl, ha, hn, (congrArg Prod.snd h).symm⟩

theorem setImportedLocation_run (hl : propertyLocation locations = some location)
    (h : name ∈ s.targets.names) : setImportedLocation [name] locations s =
      (.ok (), { s with targets := s.targets.locate name location }) := by
  simp only [setImportedLocation, Handler.get_bind_run, hl, if_pos h, Handler.modify_run]

theorem setImportedLocation_ok (h : setImportedLocation names locations s = (.ok (), t)) :
    ∃ name location, names = [name] ∧ propertyLocation locations = some location ∧
      t = { s with targets := s.targets.locate name location } := by
  match names with
  | [] => simp [setImportedLocation, Handler.raise] at h
  | _ :: _ :: _ => simp [setImportedLocation, Handler.raise] at h
  | [name] =>
      cases hl : propertyLocation locations with
      | none => simp [setImportedLocation, hl, Handler.raise] at h
      | some location =>
          by_cases hm : name ∈ s.targets.names
          · rw [setImportedLocation_run hl hm] at h
            exact ⟨name, location, rfl, rfl, (congrArg Prod.snd h).symm⟩
          · simp [setImportedLocation, hl, hm, Handler.raise] at h

theorem lastLocation_mem {l : Value} (h : lastLocation l locations = some location) :
    location ∈ l :: locations := by
  fun_induction lastLocation l locations with
  | case1 l => simpa using h.symm
  | case2 l property => simp at h
  | case3 l property value rest ih =>
      have hin := ih h
      rw [List.mem_cons] at hin
      rcases hin with hin | hin
      · split at hin
        · simp [hin]
        · simp [hin]
      · simp [hin]

theorem propertyLocation_mem (h : propertyLocation locations = some location) :
    location ∈ locations := by
  cases locations with
  | nil => cases h
  | cons l properties => exact lastLocation_mem h

end Libraries

end Framework.CMake
