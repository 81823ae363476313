import LivePatch.Settings.Decode

/-!
# Loading settings

Settings come from a file that is named, or from the first file of a fixed list of names that
stands directly in a directory.  Without such a file they are the defaults.
-/

namespace LivePatch.Settings

variable {m : Type → Type} [Monad m]

/-- The names of settings files, the preferred one first. -/
def fileNames : List String := ["hotpatch.toml", ".hotpatch.toml"]

/-- The settings in the text of the file at `path`. -/
def ofRead (path : String) : Except ReadFailure String → Except SettingsError Settings
  | .ok text => ofText text
  | .error cause => .error (.unread path cause)

/-- Load the settings in the file at `path`. -/
def load (read : FileReader m) (path : String) : m (Except SettingsError Settings) := do
  return ofRead path (← read path)

/-- The first of some names that is a file in `dir`, with what reading it gave. -/
def findAmong (read : FileReader m) (dir : String) :
    List String → m (Option (String × Except ReadFailure String))
  | [] => return none
  | name :: names => do
    match ← read (Path.join dir name) with
    | .ok text => return some (name, .ok text)
    | .error cause =>
      if cause.isFile then return some (name, .error cause) else findAmong read dir names

/-- The name of the settings file in `dir`. -/
def discover (read : FileReader m) (dir : String) : m (Option String) := do
  return (← findAmong read dir fileNames).map (·.1)

/-- Load the settings for `dir`, with the name of the file that they come from. -/
def loadFor (read : FileReader m) (dir : String) :
    m (Except SettingsError (Settings × Option String)) := do
  match ← findAmong read dir fileNames with
  | none => return .ok ({}, none)
  | some (name, result) => return (ofRead (Path.join dir name) result).map fun s => (s, some name)

end LivePatch.Settings
