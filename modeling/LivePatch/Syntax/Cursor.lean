import LivePatch.Syntax.Lexer

/-!
# The lexer as a cursor

`Lexer.pieces` cuts a text as a list of characters.  Here is the same lexer as it moves through the
bytes of a text: a cursor holds an offset, each scanner moves it on by the bytes of the characters
it takes or that a search has passed, and a fault is noted by a call of its own, apart from the kind
that the scanner answers.

Two things can go wrong with such a lexer.  The cursor may be asked for what is ahead when it stands
inside a character, and a loop may go round without moving the cursor on, so that it never ends.  In
either case a `Move` has no answer.  That there always is an answer is `Cursor.tokenize_eq`.
-/

namespace LivePatch

/-- Where the lexer stands. -/
structure Cursor where
  /-- The whole text. -/
  input : List Char
  /-- The offset of the next byte. -/
  pos : Nat
  /-- Has only white space been seen since the last line end? -/
  lineStart : Bool
  /-- The faults noted so far. -/
  faults : List Diagnostic

namespace Cursor

/-- Something done with a cursor. -/
abbrev Move (α : Type) : Type := StateT Cursor Option α

/-! ## Single moves -/

/-- The text ahead; there is none if the cursor stands inside a character or behind the end. -/
def ahead : Move (List Char) := fun s =>
  (splitAtByte? s.pos s.input).map fun parts => (parts.2, s)

/-- The next character. -/
def peek : Move (Option Char) := return (← ahead).head?

/-- The character `n` places behind the next one. -/
def peekNth (n : Nat) : Move (Option Char) := return (← ahead)[n]?

/-- The offset of the next byte. -/
def position : Move Nat := return (← get).pos

/-- Has only white space been seen since the last line end? -/
def atLineStart : Move Bool := return (← get).lineStart

/-- Move on by `bytes` bytes. -/
def advance (bytes : Nat) : Move Unit := modify fun s => { s with pos := s.pos + bytes }

/-- Take the next character. -/
def bump : Move (Option Char) := do
  match ← peek with
  | none => return none
  | some c =>
    advance c.utf8Size
    return some c

/-- Take the next character if it is `c`; answers whether it was. -/
def eat (c : Char) : Move Bool := do
  if (← peek) == some c then
    advance c.utf8Size
    return true
  else
    return false

/-- How many bytes are ahead. -/
def left (s : Cursor) : Nat := byteLength s.input - s.pos

/-- Go round a loop: `round` does what is to be done once and is given what going round again would
do.  If fewer bytes are not ahead by then, the loop has no answer. -/
def loop {σ α : Type} (round : (σ → Move α) → σ → Move α) (x : σ) (s : Cursor) :
    Option (α × Cursor) :=
  round (fun y t => if t.left < s.left then loop round y t else none) x s
termination_by s.left

/-- Take characters as long as they satisfy `p`. -/
def eatWhile (p : Char → Bool) : Move Unit :=
  loop (fun again _ => do
    if (← peek).any p then
      let _ ← bump
      again ()) ()

/-- Move to the end of the text. -/
def toEnd : Move Unit := modify fun s => { s with pos := byteLength s.input }

/-- Note a fault that reaches from `start` to the cursor. -/
def fault (start : Nat) (what : LexicalFault) : Move Unit :=
  modify fun s => { s with faults := s.faults ++ [⟨.lexical what, ⟨start, s.pos⟩⟩] }

/-- The bytes in front of the first place of a text where `p` holds. -/
def find? (p : List Char → Bool) : List Char → Option Nat
  | [] => if p [] then some 0 else none
  | c :: cs => if p (c :: cs) then some 0 else (find? p cs).map (c.utf8Size + ·)

/-! ## Comments, strings and characters -/

/-- Take what is left of the line. -/
def skipToLineEnd : Move Unit := do
  match find? (fun cs => cs.head?.any fun c => c == '\n' || c == '\r') (← ahead) with
  | some bytes => advance bytes
  | none => toEnd

/-- The rest of a block comment. -/
def blockComment (start : Nat) : Move Kind := do
  match find? ("*/".toList.isPrefixOf ·) (← ahead) with
  | some bytes =>
    advance (bytes + 2)
    return .blockComment
  | none =>
    toEnd
    fault start .unterminatedBlockComment
    return .error

/-- Take the rest of a string; answers whether it ends. -/
def scanString (verbatim : Bool) : Move Bool :=
  loop (fun again _ => do
    match ← bump with
    | none => return false
    | some c =>
      if c == '"' && verbatim && (← peek) == some '"' then
        let _ ← bump
        again ()
      else if c == '"' then return true
      else if c == '\\' && !verbatim then
        let _ ← bump
        again ()
      else if c == '\n' && !verbatim then return false
      else again ()) ()

/-- The rest of a string. -/
def stringBody (start : Nat) (verbatim : Bool) : Move Kind := do
  if ← scanString verbatim then return .stringLiteral
  else
    fault start .unterminatedString
    return .error

/-- Take the rest of an interpolated string, when `depth` braces are open; answers whether it
ends. -/
def scanInterpolated (verbatim : Bool) (depth : Nat) : Move Bool :=
  loop (fun again depth => do
    match ← bump with
    | none => return false
    | some c =>
      if c == '\x7b' && depth == 0 && (← peek) == some '\x7b' then
        let _ ← bump
        again depth
      else if c == '\x7d' && depth == 0 && (← peek) == some '\x7d' then
        let _ ← bump
        again depth
      else if c == '\x7b' then again (depth + 1)
      else if c == '\x7d' then again (depth - 1)
      else if c == '"' && 0 < depth then
        if ← scanString false then again depth else return false
      else if c == '"' && verbatim && (← peek) == some '"' then
        let _ ← bump
        again depth
      else if c == '"' then return true
      else if c == '\\' && !verbatim then
        let _ ← bump
        again depth
      else if c == '\n' && !verbatim && depth == 0 then return false
      else again depth) depth

/-- The rest of an interpolated string. -/
def interpolatedBody (start : Nat) (verbatim : Bool) : Move Kind := do
  if ← scanInterpolated verbatim 0 then return .interpolatedStringLiteral
  else
    fault start .unterminatedInterpolatedString
    return .error

/-- Take the rest of a character literal; answers whether it ends. -/
def scanCharacter : Move Bool :=
  loop (fun again _ => do
    match ← bump with
    | none => return false
    | some c =>
      if c == '\'' then return true
      else if c == '\\' then
        let _ ← bump
        again ()
      else if c == '\n' then return false
      else again ()) ()

/-- The rest of a character literal. -/
def characterLiteral (start : Nat) : Move Kind := do
  if ← scanCharacter then return .charLiteral
  else
    fault start .unterminatedCharacter
    return .error

/-! ## Numbers -/

/-- Take the letter of an integer suffix, if there is one. -/
def eatSuffixLetter : Move Unit := do
  if (← peek).any Lexer.isIntegerSuffix then
    let _ ← bump

/-- Take an integer suffix: at most two letters. -/
def eatIntegerSuffix : Move Unit := do
  eatSuffixLetter
  eatSuffixLetter

/-- Take a fraction, a point with at least one digit behind it, if there is one; answers whether
there was. -/
def fraction : Move Bool := do
  if (← peek) == some '.' && (← peekNth 1).any Char.isDigit then
    let _ ← bump
    eatWhile Lexer.isDigitPart
    return true
  else return false

/-- Take the digits of a number that starts with `first`, and its fraction; answers whether it is
real by then. -/
def digitsAndFraction (first : Char) : Move Bool := do
  eatWhile Lexer.isDigitPart
  if first == '.' then
    eatWhile Lexer.isDigitPart
    return true
  else fraction

/-- Take the letter of an exponent, its sign if it has one, and its digits, if there are digits;
answers whether there are. -/
def signedDigits (sign : Bool) : Move Bool := do
  if (← peekNth (if sign then 2 else 1)).any Char.isDigit then
    let _ ← bump
    let _ ← if sign then bump else pure none
    eatWhile Lexer.isDigitPart
    return true
  else return false

/-- Take an exponent, if there is one; answers whether there was. -/
def exponent : Move Bool := do
  if (← peek).any fun c => c == 'e' || c == 'E' then
    signedDigits ((← peekNth 1).any fun c => c == '+' || c == '-')
  else return false

/-- Take the suffix of a decimal number, by which it may still be real. -/
def numberSuffix (real : Bool) : Move Kind := do
  if (← peek).any Lexer.isRealSuffix then
    let _ ← bump
    return .realLiteral
  else if real then return .realLiteral
  else
    eatIntegerSuffix
    return .intLiteral

/-- Does a letter behind a zero say in which base its digits are written? -/
def isBaseLetter (c : Char) : Bool := c == 'x' || c == 'X' || c == 'b' || c == 'B'

/-- The rest of a number that starts with the digit or point `first`. -/
def number (first : Char) : Move Kind := do
  if first == '0' && (← peek).any isBaseLetter then
    let _ ← bump
    eatWhile Lexer.isHexPart
    eatIntegerSuffix
    return .intLiteral
  else
    let hasFraction ← digitsAndFraction first
    let hasExponent ← exponent
    numberSuffix (hasFraction || hasExponent)

/-! ## Punctuation -/

/-- A mark that may be longer by one of the characters in `longer`, which are tried in order. -/
def mark (short : Kind) : List (Char × Kind) → Move Kind
  | [] => return short
  | (c, long) :: longer => do
    if ← eat c then return long else mark short longer

/-- A question mark and the point behind it, unless the point begins a number. -/
def questionMark : Move Kind := do
  if (← peek) == some '.' && !(← peekNth 1).any Char.isDigit then
    let _ ← bump
    return .questionDot
  else return .question

/-- The mark that starts with `c`, or a stray character. -/
def punctuation (start : Nat) (c : Char) : Move Kind := do
  match c with
  | '(' => return .lParen
  | ')' => return .rParen
  | '\x7b' => return .lBrace
  | '\x7d' => return .rBrace
  | '[' => return .lBracket
  | ']' => return .rBracket
  | ';' => return .semicolon
  | ',' => return .comma
  | '.' => return .dot
  | '~' => return .tilde
  | ':' => mark .colon [(':', .doubleColon)]
  | '?' =>
    if ← eat '?' then mark .questionQuestion [('=', .questionQuestionEq)]
    else questionMark
  | '=' => mark .eq [('=', .eqEq), ('>', .fatArrow)]
  | '!' => mark .bang [('=', .bangEq)]
  | '+' => mark .plus [('+', .plusPlus), ('=', .plusEq)]
  | '-' => mark .minus [('-', .minusMinus), ('=', .minusEq)]
  | '*' => mark .star [('=', .starEq)]
  | '/' => mark .slash [('=', .slashEq)]
  | '%' => mark .percent [('=', .percentEq)]
  | '^' => mark .caret [('=', .caretEq)]
  | '&' => mark .amp [('&', .ampAmp), ('=', .ampEq)]
  | '|' => mark .pipe [('|', .pipePipe), ('=', .pipeEq)]
  | '<' =>
    if ← eat '<' then mark .leftShift [('=', .leftShiftEq)]
    else mark .less [('=', .lessEq)]
  | '>' =>
    if ← eat '>' then mark .rightShift [('=', .rightShiftEq)]
    else mark .greater [('=', .greaterEq)]
  | _ =>
    fault start .unexpectedCharacter
    return .error

/-! ## Tokens -/

/-- The text between two offsets. -/
def slice (start stop : Nat) : Move (List Char) := fun s =>
  (Span.slice? ⟨start, stop⟩ s.input).map (·, s)

/-- The rest of a word that starts at `start`: reserved, or an identifier. -/
def word (start : Nat) : Move Kind := do
  eatWhile isIdentifierContinue
  let text ← slice start (← position)
  return (Kind.ofKeyword? (String.ofList text)).getD .identifier

/-- The rest of a word, number or mark that starts with `c` at `start`. -/
def plainFrom (start : Nat) (c : Char) : Move Kind := do
  if c == '@' && (← peek).any isIdentifierStart then
    eatWhile isIdentifierContinue
    return .identifier
  else if isIdentifierStart c then word start
  else if c.isDigit then number c
  else if c == '.' && (← peek).any Char.isDigit then number '.'
  else punctuation start c

/-- The same, when it may also be a string or character. -/
def quotedFrom (start : Nat) (c : Char) : Move Kind := do
  if c == '"' then stringBody start false
  else if c == '\'' then characterLiteral start
  else if c == '@' && (← peek) == some '"' then
    let _ ← bump
    stringBody start true
  else if c == '@' && (← peek) == some '$' && (← peekNth 1) == some '"' then
    let _ ← bump
    let _ ← bump
    interpolatedBody start true
  else if c == '$' && (← peek) == some '"' then
    let _ ← bump
    interpolatedBody start false
  else if c == '$' && (← peek) == some '@' && (← peekNth 1) == some '"' then
    let _ ← bump
    let _ ← bump
    interpolatedBody start true
  else plainFrom start c

/-- The rest of a token that starts with `c` at `start`. -/
def tokenFrom (start : Nat) (c : Char) : Move Kind := do
  if isBlank c then
    eatWhile isBlank
    return .whitespace
  else if c == '/' && (← peek) == some '/' then
    let doc := (← peekNth 1) == some '/' && (← peekNth 2) != some '/'
    skipToLineEnd
    return if doc then .docComment else .lineComment
  else if c == '/' && (← peek) == some '*' then
    let _ ← bump
    blockComment start
  else if c == '#' && (← atLineStart) then
    skipToLineEnd
    return .preprocessorDirective
  else quotedFrom start c

/-- Take the next token; answers its kind. -/
def nextKind : Move Kind := do
  let start ← position
  match ← bump with
  | none => return .eof
  | some c => tokenFrom start c

/-- Take note of whether only white space stands on the line, behind a token of kind `kind`. -/
def markLine (kind : Kind) (start stop : Nat) : Move Unit := do
  if kind == .whitespace then
    if (← slice start stop).contains '\n' then modify fun s => { s with lineStart := true }
  else modify fun s => { s with lineStart := false }

/-- The kinds and places of the tokens ahead.  The last is the empty one at the end of the text. -/
def tokens : Move (List (Kind × Span)) :=
  loop (fun again _ => do
    let start ← position
    let length := byteLength (← get).input
    if start < length then
      let kind ← nextKind
      let stop ← position
      markLine kind start stop
      return (kind, ⟨start, stop⟩) :: (← again ())
    else return [(.eof, ⟨length, length⟩)]) ()

/-- The tokens of a text and its faults. -/
def tokenize (source : String) : Option (List (Kind × Span) × List Diagnostic) :=
  (tokens ⟨source.toList, 0, true, []⟩).map fun (found, s) => (found, s.faults)

end Cursor

end LivePatch
