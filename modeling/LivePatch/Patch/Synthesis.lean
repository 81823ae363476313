import LivePatch.Patch.Rule
import LivePatch.Syntax.Parse
import LivePatch.Syntax.View

/-!
# Making replacements

A replacement is written as a text, its *template*, and read back as an expression, so that it is
an ordinary tree.  Then the trivia at the two ends of the expression it replaces moves onto it,
with the comment of the rule in between where comments are asked for.
-/

namespace LivePatch

/-- Why a template is no expression. -/
inductive SynthesisFault where
  /-- Reading it met a problem, the first of which is given. -/
  | rejected (problem : Problem)
  /-- Reading it met no problem, yet no expression came out. -/
  | noExpression
deriving DecidableEq, Repr

/-- The wording of a synthesis fault. -/
def SynthesisFault.message : SynthesisFault → String
  | .rejected problem => problem.message
  | .noExpression => "no expression produced"

/-- Why a text is not patched. -/
inductive PatchError where
  /-- The text itself has problems, so that its tree cannot be trusted. -/
  | refused (diagnostics : List Diagnostic)
  /-- A replacement could not be made. -/
  | synthesis (template : String) (fault : SynthesisFault)
deriving DecidableEq, Repr

/-- The wording of a patch error. -/
def PatchError.message : PatchError → String
  | .refused diagnostics =>
    "refusing to rewrite source with " ++ toString diagnostics.length ++ " parse error(s)"
  | .synthesis template fault =>
    "synthesised expression `" ++ template ++ "` does not parse: " ++ fault.message

/-! ## Templates -/

/-- The value `expr` cast to `target` by way of the common base type. -/
def castText (target expr : String) : String := "(" ++ target ++ ")(object)" ++ expr

/-- The same between parentheses, so that a member can be taken of it. -/
def parenthesizedCastText (target expr : String) : String := "(" ++ castText target expr ++ ")"

/-- The member `name` of `qualifier`. -/
def memberText (qualifier name : String) : String := qualifier ++ "." ++ name

/-- The expression that `template` reads as. -/
def synthesize (template : String) : Except PatchError Tree :=
  let parsed := parseExpression template
  match parsed.diagnostics with
  | d :: _ => .error (.synthesis template (.rejected d.problem))
  | [] =>
    match (Site.root parsed.tree).expression? with
    | some expression => .ok expression.tree
    | none => .error (.synthesis template .noExpression)

/-! ## Trivia -/

/-- The trivia before the first and after the last significant token of a tree.  If it has no
significant token, all of it stands before. -/
def edgeTrivia (t : Tree) : List Token × List Token :=
  match t.coreLeaves with
  | [] => (t.leaves, [])
  | _ => (t.leadingTrivia, t.trailingTrivia)

/-- The tree `made` with further tokens at its two ends. -/
def surround (leading : List Token) (made : Tree) (trailing : List Token) : Tree :=
  match made with
  | .token t => .token t
  | .node kind children =>
    .node kind (leading.map Tree.token ++ children ++ trailing.map Tree.token)

/-- The tree `made` with the edge trivia of `replaced` around it. -/
def withTriviaOf (replaced made : Tree) : Tree :=
  surround (edgeTrivia replaced).1 made (edgeTrivia replaced).2

/-- The tree `made` in place of `replaced`: with its edge trivia, and with the comment of the rule
in front of the trailing part if comments are asked for. -/
def finish (comments : Bool) (rule : PatchRule) (replaced made : Tree) : Tree :=
  let comment := if comments then [⟨.blockComment, rule.comment⟩] else []
  surround (edgeTrivia replaced).1 made (comment ++ (edgeTrivia replaced).2)

end LivePatch
