import LivePatch.Syntax.Token
import LivePatch.Text.Blank
import LivePatch.Text.Identifier

/-!
# From text to tokens

The lexer cuts a text into tokens from front to back.  Each step looks at the first character and
what follows it, and answers a `Reading`: what the piece is, and how many more characters belong
to it.  Since a piece always holds its first character, the pieces are never empty, and since the
next step starts right behind the piece, the pieces join up to the text.

A piece that is no token (a string without its end, a stray character) is kept as a token of kind
`error`, and every such token stands for exactly one lexical fault.
-/

namespace LivePatch

namespace Lexer

/-- What stands at the front of a text: a kind or a fault, and how many characters after the
first belong to the piece. -/
structure Reading where
  outcome : Except LexicalFault Kind
  more : Nat

/-- The length of the longest front part of `cs` whose characters all satisfy `p`. -/
def runLength (p : Char → Bool) (cs : List Char) : Nat := (cs.takeWhile p).length

/-- The number of characters before the next line end. -/
def restOfLine (cs : List Char) : Nat := runLength (fun c => c != '\n' && c != '\r') cs

/-! ## Delimited pieces

How far a comment, string or character reaches: the number of characters up to and with its end,
and whether the end was found. -/

/-- How far a delimited piece reaches, and whether its end was found. -/
structure Reach where
  length : Nat
  closed : Bool

/-- The same reach seen from `n` characters further in front. -/
def Reach.after (n : Nat) (r : Reach) : Reach := ⟨n + r.length, r.closed⟩

/-- The rest of a block comment, after its opening. -/
def blockCommentReach : List Char → Reach
  | '*' :: '/' :: _ => ⟨2, true⟩
  | _ :: cs => (blockCommentReach cs).after 1
  | [] => ⟨0, false⟩

/-- The rest of a string, after its opening quote.  In a verbatim string a quote is written twice
and lines may end; in a regular one a backslash takes the next character along. -/
def stringReach (verbatim : Bool) : List Char → Reach
  | [] => ⟨0, false⟩
  | '"' :: '"' :: cs => if verbatim then (stringReach verbatim cs).after 2 else ⟨1, true⟩
  | '"' :: _ => ⟨1, true⟩
  | '\\' :: c :: cs =>
    if verbatim then (stringReach verbatim (c :: cs)).after 1
    else (stringReach verbatim cs).after 2
  | '\n' :: cs => if verbatim then (stringReach verbatim cs).after 1 else ⟨1, false⟩
  | _ :: cs => (stringReach verbatim cs).after 1

/-- Where the reading of an interpolated string stands: at a number of open holes, or inside a
regular string within a hole. -/
inductive Interpolation where
  | text (depth : Nat)
  | quoted (depth : Nat)

/-- The rest of an interpolated string, after its opening quote.  Outside of holes a brace is
written twice; a quote inside a hole starts a regular string of its own. -/
def interpolatedReach (verbatim : Bool) : Interpolation → List Char → Reach
  | _, [] => ⟨0, false⟩
  | .quoted depth, '"' :: cs => (interpolatedReach verbatim (.text depth) cs).after 1
  | .quoted _, '\n' :: _ => ⟨1, false⟩
  | .quoted depth, '\\' :: _ :: cs => (interpolatedReach verbatim (.quoted depth) cs).after 2
  | .quoted depth, _ :: cs => (interpolatedReach verbatim (.quoted depth) cs).after 1
  | .text 0, '{' :: '{' :: cs => (interpolatedReach verbatim (.text 0) cs).after 2
  | .text 0, '}' :: '}' :: cs => (interpolatedReach verbatim (.text 0) cs).after 2
  | .text depth, '{' :: cs => (interpolatedReach verbatim (.text (depth + 1)) cs).after 1
  | .text depth, '}' :: cs => (interpolatedReach verbatim (.text (depth - 1)) cs).after 1
  | .text (depth + 1), '"' :: cs =>
    (interpolatedReach verbatim (.quoted (depth + 1)) cs).after 1
  | .text 0, '"' :: '"' :: cs =>
    if verbatim then (interpolatedReach verbatim (.text 0) cs).after 2 else ⟨1, true⟩
  | .text 0, '"' :: _ => ⟨1, true⟩
  | .text depth, '\\' :: c :: cs =>
    if verbatim then (interpolatedReach verbatim (.text depth) (c :: cs)).after 1
    else (interpolatedReach verbatim (.text depth) cs).after 2
  | .text 0, '\n' :: cs =>
    if verbatim then (interpolatedReach verbatim (.text 0) cs).after 1 else ⟨1, false⟩
  | .text depth, _ :: cs => (interpolatedReach verbatim (.text depth) cs).after 1

/-- The rest of a character literal, after its opening quote. -/
def characterReach : List Char → Reach
  | [] => ⟨0, false⟩
  | '\'' :: _ => ⟨1, true⟩
  | '\\' :: _ :: cs => (characterReach cs).after 2
  | '\n' :: _ => ⟨1, false⟩
  | _ :: cs => (characterReach cs).after 1

/-- The reading of a delimited piece with `opening` characters after the first one before its
body starts. -/
def Reach.reading (r : Reach) (opening : Nat) (kind : Kind) (fault : LexicalFault) : Reading :=
  ⟨if r.closed then .ok kind else .error fault, opening + r.length⟩

/-! ## Numbers -/

/-- A digit or the underscore that may stand between digits. -/
def isDigitPart (c : Char) : Bool := c.isDigit || c == '_'

/-- A hexadecimal digit or an underscore. -/
def isHexPart (c : Char) : Bool :=
  isDigitPart c || ('a' ≤ c && c ≤ 'f') || ('A' ≤ c && c ≤ 'F')

/-- A letter of an integer suffix. -/
def isIntegerSuffix (c : Char) : Bool := c == 'u' || c == 'U' || c == 'l' || c == 'L'

/-- The length of an integer suffix: at most two letters. -/
def integerSuffixLength (cs : List Char) : Nat := runLength isIntegerSuffix (cs.take 2)

/-- A letter that makes a number real. -/
def isRealSuffix (c : Char) : Bool :=
  c == 'f' || c == 'F' || c == 'd' || c == 'D' || c == 'm' || c == 'M'

/-- The length of a fraction: a point with at least one digit behind it. -/
def fractionLength : List Char → Nat
  | '.' :: d :: cs => if d.isDigit then 1 + runLength isDigitPart (d :: cs) else 0
  | _ => 0

/-- The length of an exponent: the letter, an optional sign and at least one digit. -/
def exponentLength : List Char → Nat
  | e :: s :: d :: cs =>
    if e == 'e' || e == 'E' then
      if s == '+' || s == '-' then
        if d.isDigit then 2 + runLength isDigitPart (d :: cs) else 0
      else if s.isDigit then 1 + runLength isDigitPart (s :: d :: cs) else 0
    else 0
  | [e, d] => if (e == 'e' || e == 'E') && d.isDigit then 2 else 0
  | _ => 0

/-- A number that starts with the digit or point `first`. -/
def numberReading (first : Char) (cs : List Char) : Reading :=
  match first, cs with
  | '0', 'x' :: ds | '0', 'X' :: ds | '0', 'b' :: ds | '0', 'B' :: ds =>
    let digits := runLength isHexPart ds
    ⟨.ok .intLiteral, 1 + digits + integerSuffixLength (ds.drop digits)⟩
  | _, _ =>
    let whole := runLength isDigitPart cs
    let fraction := if first == '.' then 0 else fractionLength (cs.drop whole)
    let exponent := exponentLength (cs.drop (whole + fraction))
    let body := whole + fraction + exponent
    let isReal := first == '.' || 0 < fraction || 0 < exponent
    match cs.drop body with
    | c :: rest =>
      if isRealSuffix c then ⟨.ok .realLiteral, body + 1⟩
      else if isReal then ⟨.ok .realLiteral, body⟩
      else ⟨.ok .intLiteral, body + integerSuffixLength (c :: rest)⟩
    | [] => ⟨.ok (if isReal then .realLiteral else .intLiteral), body⟩

/-! ## Punctuation -/

/-- Does the mark `text` stand at the front of `cs`?  The mark `?.` does not when a digit
follows: then the point begins a number. -/
def markFits (text : String) (cs : List Char) : Bool :=
  let mark := text.toList
  mark.isPrefixOf cs &&
    !(text == "?." && ((cs.drop mark.length).head?.any Char.isDigit))

/-- The longest mark at the front of `c :: cs`, or a stray character. -/
def markReading (c : Char) (cs : List Char) : Reading :=
  match Kind.marks.find? (fun mark => markFits mark.1 (c :: cs)) with
  | some (text, kind) => ⟨.ok kind, text.length - 1⟩
  | none => ⟨.error .unexpectedCharacter, 0⟩

/-! ## One token -/

/-- A word that starts with `c`: reserved, or an identifier. -/
def wordReading (c : Char) (cs : List Char) : Reading :=
  let more := runLength isIdentifierContinue cs
  let text := String.ofList (c :: cs.take more)
  ⟨.ok ((Kind.ofKeyword? text).getD .identifier), more⟩

/-- The kind of a comment that runs to the end of its line: three slashes, and not four, make it
documentation. -/
def lineCommentKind : List Char → Kind
  | '/' :: '/' :: '/' :: _ => .lineComment
  | '/' :: '/' :: _ => .docComment
  | _ => .lineComment

/-- What stands at the front of `c :: cs`.  A directive is recognised only where nothing but
white space stands before it on its line, as `lineStart` says. -/
def read (lineStart : Bool) (c : Char) (cs : List Char) : Reading :=
  if isBlank c then ⟨.ok .whitespace, runLength isBlank cs⟩
  else match c, cs with
  | '/', '/' :: _ => ⟨.ok (lineCommentKind cs), restOfLine cs⟩
  | '/', '*' :: rest =>
    (blockCommentReach rest).reading 1 .blockComment .unterminatedBlockComment
  | '"', _ => (stringReach false cs).reading 0 .stringLiteral .unterminatedString
  | '\'', _ => (characterReach cs).reading 0 .charLiteral .unterminatedCharacter
  | '@', '"' :: rest => (stringReach true rest).reading 1 .stringLiteral .unterminatedString
  | '@', '$' :: '"' :: rest | '$', '@' :: '"' :: rest =>
    (interpolatedReach true (.text 0) rest).reading 2 .interpolatedStringLiteral
      .unterminatedInterpolatedString
  | '$', '"' :: rest =>
    (interpolatedReach false (.text 0) rest).reading 1 .interpolatedStringLiteral
      .unterminatedInterpolatedString
  | _, _ =>
    if c == '#' && lineStart then ⟨.ok .preprocessorDirective, restOfLine cs⟩
    else if c == '@' && cs.head?.any isIdentifierStart then
      ⟨.ok .identifier, runLength isIdentifierContinue cs⟩
    else if isIdentifierStart c then wordReading c cs
    else if c.isDigit || (c == '.' && cs.head?.any Char.isDigit) then numberReading c cs
    else markReading c cs

/-! ## The whole text -/

/-- A piece of text as the lexer cut it. -/
structure Lexeme where
  outcome : Except LexicalFault Kind
  text : String

/-- The token of a piece; a faulty piece is a token of kind `error`. -/
def Lexeme.token (l : Lexeme) : Token :=
  ⟨match l.outcome with | .ok kind => kind | .error _ => .error, l.text⟩

/-- Is only white space on the line in front of what follows `piece`? -/
def lineStartAfter (lineStart : Bool) (outcome : Except LexicalFault Kind)
    (piece : List Char) : Bool :=
  match outcome with
  | .ok .whitespace => lineStart || piece.contains '\n'
  | _ => false

/-- The pieces of a text whose first `skip` characters belong to a piece already cut. -/
def piecesFrom (lineStart : Bool) (skip : Nat) : List Char → List Lexeme
  | [] => []
  | c :: cs =>
    match skip with
    | skip + 1 => piecesFrom lineStart skip cs
    | 0 =>
      let reading := read lineStart c cs
      let piece := c :: cs.take reading.more
      ⟨reading.outcome, String.ofList piece⟩ ::
        piecesFrom (lineStartAfter lineStart reading.outcome piece) reading.more cs

/-- The pieces of a text, in order. -/
def pieces (source : String) : List Lexeme := piecesFrom true 0 source.toList

/-- The faults of a list of pieces with their spans, when the first piece starts at `start`. -/
def faultsFrom (start : Nat) : List Lexeme → List Diagnostic
  | [] => []
  | l :: ls =>
    let rest := faultsFrom (start + l.text.utf8ByteSize) ls
    match l.outcome with
    | .ok _ => rest
    | .error fault => ⟨.lexical fault, Span.ofText start l.text⟩ :: rest

end Lexer

/-- The tokens of a text; the last one is the empty token at its end. -/
def lex (source : String) : List Token :=
  (Lexer.pieces source).map Lexer.Lexeme.token ++ [Token.endOfText]

/-- The lexical faults of a text, in order. -/
def lexicalFaults (source : String) : List Diagnostic :=
  Lexer.faultsFrom 0 (Lexer.pieces source)

end LivePatch
