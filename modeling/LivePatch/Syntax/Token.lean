import LivePatch.Syntax.Kind
import LivePatch.Text.Span

/-!
# Tokens and diagnostics

A token is a kind with the text it covers.  Tokens carry no positions: a list of tokens covers a
text from front to back, so a position is the number of bytes in front.  `Token.spans` computes
them all.

A diagnostic is a problem at a span.  The two families of problems, text that is no token and
tokens in the wrong place, share one type, and `Problem.message` holds all their wording.
-/

namespace LivePatch

/-- A piece of source text with its kind. -/
structure Token where
  kind : Kind
  text : String
deriving DecidableEq, Repr, Inhabited

namespace Token

/-- Is the token white space, a comment or a directive line? -/
def isTrivia (t : Token) : Bool := t.kind.isTrivia

/-- Does the grammar see the token? -/
def isSignificant (t : Token) : Bool := !t.isTrivia

/-- The number of bytes of the token's text. -/
def width (t : Token) : Nat := t.text.utf8ByteSize

/-- The empty token that ends every text. -/
def endOfText : Token := ⟨.eof, ""⟩

/-- The tokens with their spans, when the first starts at byte `start`. -/
def spans (start : Nat) : List Token → List (Token × Span)
  | [] => []
  | t :: ts => (t, Span.ofText start t.text) :: spans (start + t.width) ts

/-- The number of bytes of the tokens together. -/
def widthOf : List Token → Nat
  | [] => 0
  | t :: ts => t.width + widthOf ts

@[simp] theorem widthOf_nil : widthOf [] = 0 := rfl

@[simp] theorem widthOf_cons (t : Token) (ts : List Token) :
    widthOf (t :: ts) = t.width + widthOf ts := rfl

@[simp] theorem widthOf_append (ts us : List Token) :
    widthOf (ts ++ us) = widthOf ts + widthOf us := by
  induction ts with
  | nil => simp
  | cons t ts ih => simp [ih, Nat.add_assoc]

/-- The text that the tokens cover together. -/
def textOf (ts : List Token) : String := String.join (ts.map (·.text))

end Token

/-- Why a piece of text is no token. -/
inductive LexicalFault where
  | unterminatedBlockComment
  | unterminatedString
  | unterminatedInterpolatedString
  | unterminatedCharacter
  | unexpectedCharacter
deriving DecidableEq, Repr

/-- What the wording of a lexical fault is. -/
def LexicalFault.message : LexicalFault → String
  | .unterminatedBlockComment => "unterminated block comment"
  | .unterminatedString => "unterminated string literal"
  | .unterminatedInterpolatedString => "unterminated interpolated string"
  | .unterminatedCharacter => "unterminated character literal"
  | .unexpectedCharacter => "unexpected character"

/-- A problem of a source text: a piece that is no token, something missing, or something that
does not belong where it stands. -/
inductive Problem where
  | lexical (fault : LexicalFault)
  | expected (what : String)
  | unexpected (what : String)
deriving DecidableEq, Repr

/-- The wording of a problem. -/
def Problem.message : Problem → String
  | .lexical fault => fault.message
  | .expected what => "expected " ++ what
  | .unexpected what => "unexpected " ++ what

/-- A problem with the place where it was found. -/
structure Diagnostic where
  problem : Problem
  span : Span
deriving DecidableEq, Repr

namespace Diagnostic

/-- The wording of the problem, without its place. -/
def message (d : Diagnostic) : String := d.problem.message

/-- The one-line form: the wording, then the two ends of the span. -/
def render (d : Diagnostic) : String :=
  d.message ++ " at " ++ toString d.span.start ++ ".." ++ toString d.span.stop

end Diagnostic

end LivePatch
