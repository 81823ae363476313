/-!
# Spans of source text

Positions in a source text are byte offsets into its UTF-8 form.  A `Span` is the half-open
range between two of them.  All positions the library reports, those of tokens, of problems and
of edits, are spans.

`Span.slice?` is the way back from a span to the text between its ends, which exists only when both
ends fall between two characters.
-/

namespace LivePatch

/-- The number of bytes that characters take. -/
def byteLength : List Char → Nat
  | [] => 0
  | c :: text => c.utf8Size + byteLength text

/-- Divide a text after `n` bytes.  There is no way to do so inside a character or past the end. -/
def splitAtByte? (n : Nat) : List Char → Option (List Char × List Char)
  | [] => if n == 0 then some ([], []) else none
  | c :: text =>
    if n == 0 then some ([], c :: text)
    else if c.utf8Size ≤ n then
      (splitAtByte? (n - c.utf8Size) text).map fun (front, back) => (c :: front, back)
    else none

/-- The half-open byte range `start..stop` of a source text. -/
structure Span where
  start : Nat
  stop : Nat
deriving DecidableEq, Repr, Inhabited

namespace Span

/-- The number of bytes between the two ends. -/
def width (s : Span) : Nat := s.stop - s.start

/-- The span of `text` when it starts at byte `start`. -/
def ofText (start : Nat) (text : String) : Span := ⟨start, start + text.utf8ByteSize⟩

/-- Does `outer` hold every byte position of `inner`, ends included? -/
def contains (outer inner : Span) : Bool :=
  outer.start ≤ inner.start && inner.stop ≤ outer.stop

/-- The characters between the two ends, if both fall between characters of `text`. -/
def slice? (s : Span) (text : List Char) : Option (List Char) := do
  let (_, back) ← splitAtByte? s.start text
  let (front, _) ← splitAtByte? s.width back
  return front

end Span

end LivePatch
