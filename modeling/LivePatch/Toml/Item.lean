import LivePatch.Number.Binary64

/-!
# Items of a document

A document is a table: names with items, in the order in which they were first written.  A table
remembers how it came to be, because that decides who may still add to it: `insertPair` and
`placeSection` in `LivePatch.Toml.Document` are the only two ways in which a document grows.
-/

namespace LivePatch.Toml

/-- How a table came to be. -/
inductive Origin where
  /-- It has a heading of its own, or is the document itself, or is a row under a heading. -/
  | heading
  /-- It was only passed on the way to the table of a heading. -/
  | implied
  /-- It was passed on the way to the last part of a dotted key. -/
  | dotted
  /-- It was written between braces, and is complete. -/
  | inline
deriving DecidableEq, Repr

/-- Whatever a name can stand for. -/
inductive Item where
  | string (text : String)
  | integer (value : Int)
  | real (value : Binary64)
  | boolean (value : Bool)
  /-- A date, a time of day, or both. -/
  | moment
  | array (items : List Item)
  | table (origin : Origin) (entries : List (String × Item))
  /-- A list of tables, each written under a heading in double brackets. -/
  | rows (tables : List (List (String × Item)))
deriving Inhabited, Repr

/-- The contents of a table, in order. -/
abbrev Entries := List (String × Item)

namespace Entries

/-- Put `item` in the place of what `name` stands for. -/
def replace (name : String) (item : Item) (entries : Entries) : Entries :=
  entries.map fun e => if e.1 == name then (name, item) else e

/-- Take out the entry of `name`. -/
def erase (name : String) (entries : Entries) : Entries :=
  entries.filter fun e => e.1 != name

end Entries

end LivePatch.Toml
