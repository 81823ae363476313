import LivePatch.Syntax.Grammar
import LivePatch.Syntax.Lexer

/-!
# Reading a text

The two ways to read a text: as a whole source file, and as a single expression.  Reading never
fails.  It always answers a tree that holds the whole text, and beside it the problems found: the
lexical ones first, then those of the grammar in the order in which they were noticed.
-/

namespace LivePatch

/-- What reading a text answers. -/
structure Parsed where
  tree : Tree
  diagnostics : List Diagnostic

namespace Parsed

/-- Was the text read without any problem? -/
def isClean (p : Parsed) : Bool := p.diagnostics.isEmpty

end Parsed

namespace Grammar

/-- How many calls may nest for each byte still ahead.  Between two calls that use up no byte the
grammar nests only a few others, so this is far more than needed. -/
def callsPerByte : Nat := 64

/-- How deep calls may nest when `ws` is ahead.  It depends on the words alone. -/
def callDepth (ws : List Token) : Nat := callsPerByte * (Token.widthOf ws + 2)

/-- Do `step` from the start of `source`. -/
def readWhole (step : Step Unit) (source : String) : Parsed :=
  let start := ReadState.start (lex source)
  let last := (step.run (Action.runRule production (callDepth start.words)) start).2
  { tree := last.built.headD (.node .error [])
    diagnostics := lexicalFaults source ++ last.found.reverse }

end Grammar

/-- Read a whole source file. -/
def parse (source : String) : Parsed := Grammar.readWhole Grammar.compilationUnit source

/-- Read a single expression. -/
def parseExpression (source : String) : Parsed :=
  Grammar.readWhole Grammar.expressionFragment source

end LivePatch
