import LivePatch.Settings.Basic
import LivePatch.Toml.Document

/-!
# Settings from a document

A group of settings is a list of named fields, each with a reader for its item
(`SettingsField`).  A table is read entry by entry in the order of the document, so the first
misfit in the document is the one reported; fields that are not mentioned keep their defaults.  A
list is read as the fields in their own order.
-/

namespace LivePatch

/-- A named part of a group of settings, and how an item changes it. -/
structure SettingsField (σ : Type) where
  name : String
  read : Toml.Item → σ → Except Misfit σ

namespace Decode

/-- A boolean. -/
def boolean : Toml.Item → Except Misfit Bool
  | .boolean value => .ok value
  | item => .error (.wrongType item "a boolean")

/-- A text. -/
def text : Toml.Item → Except Misfit String
  | .string value => .ok value
  | item => .error (.wrongType item "a string")

/-- The policy with the name `word`. -/
def visibilityWord (word : String) : Except Misfit FieldVisibility :=
  match FieldVisibility.ofLabel? word with
  | some policy => .ok policy
  | none =>
    .error (.unknownChoice word
      [FieldVisibility.explicitPrivateOnly.label, FieldVisibility.implicitPrivate.label])

/-- What a chosen word may be followed by when the choice is written as a table: nothing. -/
def noContents : Toml.Item → Except Misfit Unit
  | .table _ [] | .array [] | .rows [] => .ok ()
  | .table _ _ | .array _ => .error (.filledChoice "table")
  | .rows _ => .error (.filledChoice "array")
  | item => .error (.choiceValue item)

/-- A policy: its name, or a table with its name as the only key and nothing in it. -/
def visibility : Toml.Item → Except Misfit FieldVisibility
  | .string word => visibilityWord word
  | .table _ [] => .error .emptyChoice
  | .table _ [(word, item)] => do
    let policy ← visibilityWord word
    noContents item
    return policy
  | .table _ _ => .error .severalChoices
  | _ => .error .noChoice

/-- The key under which a date offers its text to a reader that wants a table. -/
def momentKey : String := "$__toml_private_datetime"

/-- Read the fields of a table in the order of its entries. -/
def entries {σ : Type} (fields : List (SettingsField σ)) (start : σ) (table : Toml.Entries) :
    Except Misfit σ :=
  table.foldlM (fun state (name, item) =>
    match fields.find? (·.name == name) with
    | some field => field.read item state
    | none => .error (.unknownField name (fields.map (·.name)))) start

/-- Read fields from items in the order of the fields. -/
def positions {σ : Type} (fields : List (SettingsField σ)) (start : σ) (items : List Toml.Item) :
    Except Misfit σ :=
  (fields.zip items).foldlM (fun state (field, item) => field.read item state) start

/-- Read a group of settings called `name`. -/
def group {σ : Type} (name : String) (fields : List (SettingsField σ)) (start : σ) :
    Toml.Item → Except Misfit σ
  | .table _ table => entries fields start table
  | .moment => .error (.unknownField momentKey (fields.map (·.name)))
  | .array items => positions fields start items
  | .rows tables => positions fields start (tables.map (.table .heading))
  | item => .error (.wrongType item ("struct " ++ name))

end Decode

/-- The fields of the settings about patching. -/
def PatchOptions.fields : List (SettingsField PatchOptions) := [
  ⟨"write_rewrite_reason_as_comment", fun item options => do
    return { options with comments := ← Decode.boolean item }⟩,
  ⟨"cast_same_typed_returns", fun item options => do
    return { options with castReturns := ← Decode.boolean item }⟩,
  ⟨"field_visibility", fun item options => do
    return { options with visibility := ← Decode.visibility item }⟩]

/-- The fields of the settings about the log. -/
def LogOptions.fields : List (SettingsField LogOptions) := [
  ⟨"level", fun item options => do return { options with level := ← Decode.text item }⟩,
  ⟨"json", fun item options => do return { options with json := ← Decode.boolean item }⟩]

namespace Settings

/-- The groups of settings. -/
def fields : List (SettingsField Settings) := [
  ⟨"rewrite", fun item settings => do
    return { settings with
      patch := ← Decode.group "RewriteConfig" PatchOptions.fields {} item }⟩,
  ⟨"logging", fun item settings => do
    return { settings with
      logging := ← Decode.group "LoggingConfig" LogOptions.fields {} item }⟩]

/-- The settings that a text describes. -/
def ofText (text : String) : Except SettingsError Settings :=
  match Toml.read? text with
  | none => .error .malformed
  | some table =>
    match Decode.entries fields {} table with
    | .ok settings => .ok settings
    | .error problem => .error (.misfit problem)

end Settings

end LivePatch
