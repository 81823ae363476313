import LivePatch.Files
import LivePatch.Patch.Rule
import LivePatch.Text.Quoted
import LivePatch.Toml.Item

/-!
# Settings

What a settings file can say, and why one is refused.  `Misfit` lists the ways in which a document
can fail to be settings, and `Misfit.message` holds their wording.
-/

namespace LivePatch

/-- What a user may choose about the log. -/
structure LogOptions where
  /-- A level, or directives as `LogFilter` reads them. -/
  level : String := "warn"
  /-- Write the log as JSON. -/
  json : Bool := false
deriving DecidableEq, Repr

/-- Everything that a settings file can say. -/
structure Settings where
  patch : PatchOptions := {}
  logging : LogOptions := {}
deriving DecidableEq, Repr

/-- Why a document is no settings. -/
inductive Misfit where
  /-- A name that means nothing where it stands. -/
  | unknownField (name : String) (known : List String)
  /-- A word that is none of those to choose from. -/
  | unknownChoice (word : String) (known : List String)
  /-- A value of the wrong type. -/
  | wrongType (found : Toml.Item) (expected : String)
  /-- A choice written as a table without an entry. -/
  | emptyChoice
  /-- A choice written as a table with more than one entry. -/
  | severalChoices
  /-- A choice that comes with contents, though it takes none. -/
  | filledChoice (expected : String)
  /-- A choice that comes with a value in the place of contents. -/
  | choiceValue (found : Toml.Item)
  /-- Neither of the two ways to write a choice. -/
  | noChoice

/-- A name in an error message. -/
def ticked (name : String) : String := "`" ++ name ++ "`"

/-- The names that would have done. -/
def alternatives : List String → String
  | [one] => ticked one
  | [one, other] => ticked one ++ " or " ++ ticked other
  | names => "one of " ++ ", ".intercalate (names.map ticked)

namespace Toml.Item

/-- The item as an error message shows it. -/
def shown : Toml.Item → String
  | .string text => "string " ++ quoted text
  | .integer value => "integer " ++ ticked (toString value)
  | .real value => "floating point " ++ ticked value.shown
  | .boolean value => "boolean " ++ ticked (toString value)
  | .array _ | .rows _ => "sequence"
  | .moment | .table _ _ => "map"

/-- The name of the item's type. -/
def typeName : Toml.Item → String
  | .string _ => "string"
  | .integer _ => "integer"
  | .real _ => "float"
  | .boolean _ => "boolean"
  | .moment => "datetime"
  | .array _ => "array"
  | .rows _ => "array of tables"
  | .table .inline _ => "inline table"
  | .table _ _ => "table"

end Toml.Item

/-- The wording of a misfit. -/
def Misfit.message : Misfit → String
  | .unknownField name known =>
    "unknown field " ++ ticked name ++ ", expected " ++ alternatives known
  | .unknownChoice word known =>
    "unknown variant " ++ ticked word ++ ", expected " ++ alternatives known
  | .wrongType found expected => "invalid type: " ++ found.shown ++ ", expected " ++ expected
  | .emptyChoice => "wanted exactly 1 element, found 0 elements"
  | .severalChoices => "wanted exactly 1 element, more than 1 element"
  | .filledChoice expected => "expected empty " ++ expected
  | .choiceValue found => "expected table, found " ++ found.typeName
  | .noChoice => "wanted string or table"

/-- Why settings were not loaded. -/
inductive SettingsError where
  /-- The file was not read. -/
  | unread (path : String) (cause : ReadFailure)
  /-- The text is no document of the format. -/
  | malformed
  /-- The document does not describe settings. -/
  | misfit (problem : Misfit)

namespace SettingsError

/-- The wording of an error. -/
def message : SettingsError → String
  | .unread path cause => "failed to read config file " ++ path ++ ": " ++ cause.message
  | .malformed => "failed to parse config: invalid TOML"
  | .misfit problem => "failed to parse config: " ++ problem.message

/-- The wording of an error with that of its cause behind it. -/
def fullMessage (e : SettingsError) : String :=
  match e with
  | .unread _ cause => e.message ++ ": " ++ cause.message
  | _ => e.message

end SettingsError

end LivePatch
