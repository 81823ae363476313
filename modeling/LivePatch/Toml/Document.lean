import LivePatch.Toml.Lexeme

/-!
# Documents

A document is read in two steps.  The first takes it apart into lines, each a heading or a key with
its value (`lines`).  The second adds them up: the pairs under one heading fill one table
(`fill`), and the tables are placed in the document one after the other (`placeSection`).  No name
gets a second item, and a table that is complete is not added to; a document that tries to is
refused like one that cannot be read.
-/

namespace LivePatch.Toml

open Scanner Lexeme

/-- A key with dots: the names on the way, then the last. -/
structure Key where
  path : List String
  name : String
deriving DecidableEq, Repr

/-- A key with its value. -/
structure Pair where
  key : Key
  item : Item

/-- The heading of a table, or of one more row of a list of tables. -/
inductive Heading where
  | table (key : Key)
  | row (key : Key)
deriving DecidableEq, Repr

/-- A heading with the pairs up to the next. -/
structure Section where
  heading : Heading
  pairs : List Pair

/-! ## Adding up -/

/-- Change the table that `path` leads to.  A table that is missing on the way is made; the way
leads into the last row of a list of tables, and never into a value.  With `dotted`, it does not
lead into a table that has its own heading either. -/
def changeAt (dotted : Bool) (change : Origin → Entries → Option Entries) :
    List String → Origin → Entries → Option Entries
  | [], origin, entries => change origin entries
  | name :: path, _, entries =>
    match entries.lookup name with
    | none => do
      let origin := if dotted then .dotted else .implied
      let made ← changeAt dotted change path origin []
      return entries ++ [(name, .table origin made)]
    | some (.table origin inner) =>
      if origin == .inline || (dotted && origin == .heading) then none
      else do
        let made ← changeAt dotted change path origin inner
        return entries.replace name (.table origin made)
    | some (.rows tables) =>
      match tables.getLast? with
      | none => none
      | some last => do
        let made ← changeAt dotted change path .heading last
        return entries.replace name (.rows (tables.dropLast ++ [made]))
    | some _ => none

/-- Enter a pair into the table under whose heading, or between whose braces, it stands.  The last
name must be new; a key with dots only adds to tables that dotted keys have made. -/
def insertPair (entries : Entries) (pair : Pair) : Option Entries :=
  let enter (origin : Origin) (entries : Entries) : Option Entries :=
    if (origin == .dotted) == pair.key.path.isEmpty then none
    else if (entries.lookup pair.key.name).isSome then none
    else some (entries ++ [(pair.key.name, pair.item)])
  changeAt true enter pair.key.path .heading entries

/-- Enter pairs one after the other. -/
def fill (entries : Entries) (pairs : List Pair) : Option Entries := pairs.foldlM insertPair entries

/-- Place the table of a section in the document.  A table that so far was only implied keeps its
contents and moves behind its neighbours. -/
def placeSection (root : Entries) (sec : Section) : Option Entries :=
  match sec.heading with
  | .table key =>
    let place (entries : Entries) : Option Entries :=
      match entries.lookup key.name with
      | none => do return entries ++ [(key.name, .table .heading (← fill [] sec.pairs))]
      | some (.table .implied inner) => do
        return entries.erase key.name ++ [(key.name, .table .heading (← fill inner sec.pairs))]
      | some _ => none
    changeAt false (fun _ => place) key.path .heading root
  | .row key =>
    let place (entries : Entries) : Option Entries :=
      match entries.lookup key.name with
      | none => do return entries ++ [(key.name, .rows [← fill [] sec.pairs])]
      | some (.rows tables) => do
        return entries.replace key.name (.rows (tables ++ [← fill [] sec.pairs]))
      | some _ => none
    changeAt false (fun _ => place) key.path .heading root

/-! ## Taking apart -/

/-- The greatest number of brackets and braces around a value, and of names in a key. -/
def nestingLimit : Nat := 79

/-- One name of a key: bare or in quotes. -/
def keyName : Scanner String :=
  basicText <|> literalText <|>
    (String.ofList <$> digitsAndLetters)
where
  digitsAndLetters : Scanner (List Char) := do
    let first ← satisfy isBare
    let rest ← takeWhile isBare
    return first :: rest
  isBare (c : Char) : Bool := c.isAlphanum || c == '_' || c == '-'

/-- A key: names with dots between them and blanks around each. -/
def key : Scanner Key := do
  let part : Scanner String := blanks *> keyName <* blanks
  let first ← part
  let rest ← manyOf (exactly "." *> part)
  let names := first :: rest
  if names.length ≤ nestingLimit then return ⟨names.dropLast, rest.getLastD first⟩ else failure

/-- A key, the sign between, and a value. -/
def pair (value : Scanner Item) : Scanner Pair := do
  let key ← key
  exactly "="
  blanks
  return ⟨key, ← value⟩

/-- Values between brackets, over any number of lines, with a comma after each but perhaps the
last. -/
def array (value : Scanner Item) : Scanner Item := do
  exactly "["
  let items ← many do
    between
    if (← peek?) == some ']' then return none
    let item ← value
    between
    unless (← peek?) == some ']' do exactly ","
    return some item
  exactly "]"
  return .array items

/-- Pairs between braces on one line, with commas between them. -/
def inlineTable (value : Scanner Item) : Scanner Item := do
  exactly "\x7b"
  let one := pair value <* blanks
  let pairs ← (do return (← one) :: (← manyOf (exactly "," *> one))) <|> (blanks *> pure [])
  exactly "\x7d"
  match fill [] pairs with
  | some entries => return .table .inline entries
  | none => failure

/-- A value with at most `depth` brackets and braces around any part of it. -/
def value : Nat → Scanner Item
  | 0 => scalar
  | depth + 1 => scalar <|> array (value depth) <|> inlineTable (value depth)

/-- A heading in brackets, single for a table and double for a row. -/
def heading : Scanner Heading :=
  (.row <$> (exactly "[[" *> key <* exactly "]]")) <|>
    (.table <$> (exactly "[" *> key <* exactly "]"))

/-- What one line adds. -/
inductive Line where
  | empty
  | heading (heading : Heading)
  | pair (pair : Pair)

/-- One line that is not the end of the text. -/
def line? : Scanner (Option Line) := do
  blanks
  match ← peek? with
  | none => return none
  | some c =>
    let line : Line ←
      if c == '#' || c == '\n' || c == '\r' then pure .empty
      else if c == '[' then .heading <$> heading
      else .pair <$> pair (value nestingLimit)
    lineEnd
    return some line

/-- All lines.  A byte order mark may stand in front. -/
def lines : Scanner (List Line) := do
  discard (optional (satisfy (· == '\uFEFF')))
  many line?

/-- The pairs in front of the first heading, and the sections. -/
def sections : List Line → List Pair × List Section
  | [] => ([], [])
  | .empty :: rest => sections rest
  | .pair p :: rest => let (pairs, later) := sections rest; (p :: pairs, later)
  | .heading h :: rest => let (pairs, later) := sections rest; ([], ⟨h, pairs⟩ :: later)

/-- The table that a document describes, or nothing when the text is no document. -/
def read? (text : String) : Option Entries := do
  let (ls, _) ← lines.run text.toList
  let (pairs, later) := sections ls
  later.foldlM placeSection (← fill [] pairs)

end LivePatch.Toml
