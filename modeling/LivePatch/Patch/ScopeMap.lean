import LivePatch.Patch.Rule
import LivePatch.Syntax.View

/-!
# Which fields belong to which type

The static fields that a type declares and that are not private are the ones whose bare
references get the type in front.  A `ScopeMap` holds them by the place of the type, so that types
of the same name stay apart, and can also say at once that a name belongs to no type at all.
-/

namespace LivePatch

/-- Does a field declaration declare static fields that are not private under the policy? -/
def Site.isPatchedField (field : Site) (visibility : FieldVisibility) : Bool :=
  field.isStatic &&
    !(match visibility with
      | .explicitPrivateOnly => field.isPrivate
      | .implicitPrivate => field.isPrivate || !field.hasAccessModifier)

/-- The field names that a type declares and that are not private under the policy. -/
def Site.patchedFieldNames (type : Site) (visibility : FieldVisibility) : List String :=
  ((type.membersOf .fieldDeclaration).filter (·.isPatchedField visibility)).flatMap
    ownVariableNames

/-- Field names by the place of the type that declares them; no pair stands in it twice. -/
structure ScopeMap where
  entries : List (List Nat × String)
deriving Inhabited

namespace ScopeMap

/-- The map without any field. -/
def empty : ScopeMap := ⟨[]⟩

/-- Does the type at `type` declare the field `name`? -/
def qualifies (m : ScopeMap) (type : Site) (name : String) : Bool :=
  m.entries.contains (type.path, name)

/-- Does any type declare the field `name`? -/
def mightQualify (m : ScopeMap) (name : String) : Bool := m.entries.any (·.2 == name)

/-- Does no type declare any field? -/
def isEmpty (m : ScopeMap) : Bool := m.entries.isEmpty

/-- Add a field; the answer also tells whether it was new. -/
def insert (m : ScopeMap) (type : Site) (name : String) : Bool × ScopeMap :=
  if m.qualifies type name then (false, m) else (true, ⟨m.entries ++ [(type.path, name)]⟩)

/-- Add several fields; the answer also tells how many were new. -/
def insertAll (m : ScopeMap) (type : Site) : List String → Nat × ScopeMap
  | [] => (0, m)
  | name :: names =>
    let (isNew, m) := m.insert type name
    let (count, m) := m.insertAll type names
    ((if isNew then 1 else 0) + count, m)

/-- Add the fields that a type declares and that are not private under the policy; the answer also
tells how many were new. -/
def register (m : ScopeMap) (type : Site) (visibility : FieldVisibility) : Nat × ScopeMap :=
  m.insertAll type (type.patchedFieldNames visibility)

end ScopeMap

end LivePatch
