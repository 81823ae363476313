import LivePatch.Settings.FieldMatch
import LivePatch.Settings.LogLevel
import LivePatch.Text.Blank
import LivePatch.Text.Span

/-!
# Directives

A directive sets a level for what it is about: a target, the inside of a span of work, what has a
certain field, or everything.  It is written `target[span{field}]=level`, of which any part may be
missing.

White space around a directive does not count for its shape, which is read off the text without it.
The parts are then taken from the whole text, at the byte offsets at which the shape has them.
So a blank before a directive moves its parts by one byte, and a part may come to end inside a
character; that is `DirectiveFault.splitCharacter`.
-/

namespace LivePatch

/-- A level, and what it is for. -/
structure Directive where
  /-- The part of the program that logs. -/
  target : Option String
  /-- The name of the span of work inside which the directive holds. -/
  span : Option String := none
  /-- A condition on the fields. -/
  field : Option FieldMatch := none
  level : LogLevel
deriving DecidableEq, Repr

/-- Why a text is no directive. -/
inductive DirectiveFault where
  /-- It does not have the shape of one, or a part of it cannot be read. -/
  | malformed
  /-- A part begins or ends inside a character. -/
  | splitCharacter
deriving DecidableEq, Repr

namespace Directive

/-! ## Writing -/

/-- How the span and the field are written. -/
def renderScope (d : Directive) : String :=
  match d.span, d.field with
  | none, none => ""
  | span, field =>
    "[" ++ span.getD "" ++ (field.map fun f => "\x7b" ++ f.render ++ "\x7d").getD "" ++ "]"

/-- How a directive is written. -/
def render (d : Directive) : String :=
  let subject := d.target.getD "" ++ d.renderScope
  let divider := if d.target.isNone && d.span.isNone && d.field.isNone then "" else "="
  subject ++ divider ++ d.level.label

/-! ## Reading -/

/-- The part of a text between two byte offsets. -/
def cut (text : List Char) (start stop : Nat) : Except DirectiveFault String :=
  match Span.slice? ⟨start, stop⟩ text with
  | some part => .ok (String.ofList part)
  | none => .error .splitCharacter

/-- The level that stands in a text from an offset to the end.  Where there is none, everything is
logged. -/
def readLevel (text : List Char) (start : Nat) : Except DirectiveFault LogLevel := do
  let part ← cut text start (byteLength text)
  if part.isEmpty then return .trace
  else match LogLevel.ofText? part with
    | some level => return level
    | none => throw .malformed

/-- A level, or a target for which everything is logged. -/
def ofWord (word : String) : Directive :=
  match LogLevel.ofText? word with
  | some level => { target := none, level }
  | none => { target := some word, level := .trace }

/-- What follows a closing bracket at an offset: nothing, or a level. -/
def readAfterScope (text : List Char) (start : Nat) (rest : List Char) :
    Except DirectiveFault LogLevel :=
  match rest with
  | [] => .ok .trace
  | '=' :: _ => readLevel text (start + 1)
  | _ => .error .malformed

/-- What follows an opening brace at an offset: a condition, both closing marks, and a level. -/
def readField (text : List Char) (start : Nat) (rest : List Char) :
    Except DirectiveFault (FieldMatch × LogLevel) := do
  let stop := start + byteLength (rest.takeWhile (· != '}'))
  match rest.dropWhile (· != '}') with
  | [] => throw .malformed
  | _ :: rest =>
    let part ← cut text start stop
    match (if part.isEmpty then none else FieldMatch.ofText? part), rest with
    | some field, ']' :: rest => return (field, ← readAfterScope text (stop + 2) rest)
    | _, _ => throw .malformed

/-- What follows an opening bracket at an offset: the name of a span, a condition, and a level. -/
def readScope (target : Option String) (text : List Char) (start : Nat) (rest : List Char) :
    Except DirectiveFault Directive := do
  let isName : Char → Bool := fun c => c != ']' && c != '{'
  let stop := start + byteLength (rest.takeWhile isName)
  match rest.dropWhile isName with
  | [] => throw .malformed
  | mark :: rest =>
    let name ← cut text start stop
    if mark == ']' then
      return { target, span := some name, level := ← readAfterScope text (stop + 1) rest }
    else
      let (field, level) ← readField text (stop + 1) rest
      let span := if name.isEmpty then none else some name
      return { target, span, field := some field, level }

/-- Can the target of a directive start with `c`? -/
def isStart (c : Char) : Bool := isAlphanumeric c || c == '-' || c == ':' || c == '_'

/-- Read a directive. -/
def ofText (written : String) : Except DirectiveFault Directive := do
  let text := written.toList
  let shape := (trimBlank written).toList
  match shape with
  | [] => throw .malformed
  | '[' :: rest => readScope none text 1 rest
  | first :: _ =>
    if !isStart first then throw .malformed
    else
      let isWord : Char → Bool := fun c => c != '=' && c != '['
      let stop := byteLength (shape.takeWhile isWord)
      match shape.dropWhile isWord with
      | [] => return ofWord written
      | mark :: rest =>
        let target ← cut text 0 stop
        if mark == '=' then return { target := some target, level := ← readLevel text (stop + 1) }
        else readScope (some target) text (stop + 1) rest

/-! ## What a directive is about -/

/-- The target, span and field of a directive, in a form in which two that are about the same are
equal. -/
def subject (d : Directive) : Option String × Option String × Option FieldMatch :=
  (d.target, d.span, d.field.map FieldMatch.normalized)

/-- Does a directive hold both for spans of work and for single events?  One that asks for a field
whatever its value does, in any span. -/
def isTwofold (d : Directive) : Bool :=
  d.span.isNone && (d.field.map (·.value.isNone)).getD false

end Directive

end LivePatch
