import LivePatch.Proofs.Phrases.Types

/-!
# Operators and what they are applied to

`Term` holds the expressions that are made of names, integers and `this` by accesses, calls and
operators.  A term is printed with parentheses only where the binding powers ask for them: around
a left operand whose last operator would take the next one for its own, around a right operand that
is looser than its place, and around whatever is accessed or called without being closed.

What a term is printed with and the tree that it stands for are told by its structure alone;
nothing here looks at how expressions are read.
-/

namespace LivePatch

open Grammar (Binding binding? conditionalBinding prefixPower)
open Token (closeBracket closeParen comma dot openBracket openParen question)

def Token.colon : Token := ⟨.colon, ":"⟩

open Token (colon)

/-! ## Words of a term -/

/-- An identifier that means nothing else where an expression begins. -/
structure PlainName extends Name where
  plain : token.text ≠ "var" ∧ token.text ≠ "await" ∧ token.text ≠ "async"

/-- An integer as it stands at the end of some text. -/
structure IntegerLiteral where
  token : Token
  kind_eq : token.kind = .intLiteral
  cut : ∃ lineStart, token.Cut lineStart []

attribute [simp] IntegerLiteral.kind_eq

/-- The operators in front of an operand. -/
inductive PrefixOperator where
  | plus
  | minus
  | not
  | complement
  | increment
  | decrement

/-- The word of an operator in front of an operand. -/
def PrefixOperator.token : PrefixOperator → Token
  | .plus => ⟨.plus, "+"⟩
  | .minus => ⟨.minus, "-"⟩
  | .not => ⟨.bang, "!"⟩
  | .complement => ⟨.tilde, "~"⟩
  | .increment => ⟨.plusPlus, "++"⟩
  | .decrement => ⟨.minusMinus, "--"⟩

/-- An operator between two operands, other than the angle bracket that may open type arguments. -/
structure BinaryOperator where
  token : Token
  binding : Binding
  isMark : (token.text, token.kind) ∈ Kind.marks
  binds : binding? token.kind = some binding
  ne_less : token.kind ≠ .less

/-! ## Terms -/

/-- The sorts of terms. -/
inductive TermRole where
  /-- An expression. -/
  | value
  /-- The arguments of a call or of an element access, at least one. -/
  | arguments

/-- An expression made of operators and what they are applied to, or the arguments in one. -/
inductive Term : TermRole → Type where
  | name (name : PlainName) : Term .value
  | number (literal : IntegerLiteral) : Term .value
  | this : Term .value
  | member (receiver : Term .value) (name : Name) : Term .value
  | call (callee : Term .value) : Term .value
  | callWith (callee : Term .value) (arguments : Term .arguments) : Term .value
  | element (receiver : Term .value) (arguments : Term .arguments) : Term .value
  | unary (operator : PrefixOperator) (operand : Term .value) : Term .value
  | binary (operator : BinaryOperator) (left right : Term .value) : Term .value
  | conditional (condition whenTrue whenFalse : Term .value) : Term .value
  | last (argument : Term .value) : Term .arguments
  | more (argument : Term .value) (rest : Term .arguments) : Term .arguments

namespace Term

variable {r : TermRole}

/-- How tightly the loosest operator of the term binds; its first operand takes no part. -/
def leftPower : Term r → Nat
  | binary operator _ _ => operator.binding.left
  | conditional _ _ _ => conditionalBinding.left
  | _ => prefixPower

/-- The term stands between parentheses where it is used by something that binds with `power` on
its right side. -/
def isLoose (power : Nat) (e : Term r) : Bool := decide (e.leftPower < power)

/-- An operator behind the term belongs to the term, or to a part of it, if it binds with this power
at least. -/
def rightPower : {r : TermRole} → Term r → Nat
  | _, binary operator _ right =>
    if right.isLoose operator.binding.right then operator.binding.right
    else min operator.binding.right right.rightPower
  | _, conditional _ _ whenFalse =>
    if whenFalse.isLoose conditionalBinding.right then conditionalBinding.right
    else min conditionalBinding.right whenFalse.rightPower
  | _, _ => prefixPower

/-- The term would take an operator behind it that binds with `power` on its left side. -/
def takes (power : Nat) (e : Term r) : Bool := decide (e.rightPower ≤ power)

/-- Is the term an operand as it stands, whatever is behind it? -/
def isClosed : Term r → Bool
  | name _ | number _ | this | member _ _ | call _ | callWith _ _ | element _ _ => true
  | _ => false

/-- Does the term end in a name that stands alone or in parentheses of its own?  An arrow behind it
would begin the body of a lambda. -/
def endsOpen : {r : TermRole} → Term r → Bool
  | _, name _ => true
  | _, unary _ operand => operand.isLoose prefixPower || operand.endsOpen
  | _, binary operator _ right => right.isLoose operator.binding.right || right.endsOpen
  | _, conditional _ _ whenFalse =>
    whenFalse.isLoose conditionalBinding.right || whenFalse.endsOpen
  | _, _ => false

/-- Words between parentheses, if they are asked for. -/
def enclose (asked : Bool) (ws : List Token) : List Token :=
  if asked then openParen :: (ws ++ [closeParen]) else ws

/-- A tree between parentheses, if they are asked for. -/
def encloseTrees (asked : Bool) (ts : List Tree) : List Tree :=
  if asked then [.node .parenthesizedExpression (.token openParen :: (ts ++ [.token closeParen]))]
  else ts

/-- The words that a term is printed with. -/
def words : {r : TermRole} → Term r → List Token
  | _, name n => [n.token]
  | _, number literal => [literal.token]
  | _, this => [Token.this]
  | _, member receiver n => enclose (!receiver.isClosed) receiver.words ++ [dot, n.token]
  | _, call callee => enclose (!callee.isClosed) callee.words ++ [openParen, closeParen]
  | _, callWith callee arguments =>
    enclose (!callee.isClosed) callee.words ++ openParen :: (arguments.words ++ [closeParen])
  | _, element receiver arguments =>
    enclose (!receiver.isClosed) receiver.words ++
      openBracket :: (arguments.words ++ [closeBracket])
  | _, unary operator operand =>
    operator.token :: enclose (operand.isLoose prefixPower) operand.words
  | _, binary operator left right =>
    enclose (left.takes operator.binding.left) left.words ++
      operator.token :: enclose (right.isLoose operator.binding.right) right.words
  | _, conditional condition whenTrue whenFalse =>
    enclose (condition.takes conditionalBinding.left) condition.words ++ question ::
      (whenTrue.words ++
        colon :: enclose (whenFalse.isLoose conditionalBinding.right) whenFalse.words)
  | _, last argument => argument.words
  | _, more argument rest => argument.words ++ comma :: rest.words

/-- The trees of a term: one for an expression, and for arguments one each. -/
def trees : {r : TermRole} → Term r → List Tree
  | _, name n => [.node .nameExpression [.token n.token]]
  | _, number literal => [.node .literalExpression [.token literal.token]]
  | _, this => [.node .thisExpression [.token Token.this]]
  | _, member receiver n =>
    [.node .memberAccessExpression (encloseTrees (!receiver.isClosed) receiver.trees ++
      [.token dot, .node .nameExpression [.token n.token]])]
  | _, call callee =>
    [.node .invocationExpression (encloseTrees (!callee.isClosed) callee.trees ++
      [.node .argumentList [.token openParen, .token closeParen]])]
  | _, callWith callee arguments =>
    [.node .invocationExpression (encloseTrees (!callee.isClosed) callee.trees ++
      [.node .argumentList (.token openParen :: (arguments.trees ++ [.token closeParen]))])]
  | _, element receiver arguments =>
    [.node .elementAccessExpression (encloseTrees (!receiver.isClosed) receiver.trees ++
      [.node .bracketedArgumentList
        (.token openBracket :: (arguments.trees ++ [.token closeBracket]))])]
  | _, unary operator operand =>
    [.node .prefixUnaryExpression (.token operator.token ::
      encloseTrees (operand.isLoose prefixPower) operand.trees)]
  | _, binary operator left right =>
    [.node operator.binding.kind (encloseTrees (left.takes operator.binding.left) left.trees ++
      .token operator.token :: encloseTrees (right.isLoose operator.binding.right) right.trees)]
  | _, conditional condition whenTrue whenFalse =>
    [.node .conditionalExpression
      (encloseTrees (condition.takes conditionalBinding.left) condition.trees ++
        .token question :: (whenTrue.trees ++
          .token colon :: encloseTrees (whenFalse.isLoose conditionalBinding.right) whenFalse.trees))]
  | _, last argument => [.node .argument argument.trees]
  | _, more argument rest => .node .argument argument.trees :: .token comma :: rest.trees

/-- The text of an expression: its words with a single space between each two. -/
def text (e : Term .value) : String := " ".intercalate (e.words.map Token.text)

end Term

/-! ## Kinds of words -/

namespace Kind

/-- The kinds of the first words of terms. -/
def startsOperand : Kind → Bool
  | .identifier | .intLiteral | .thisKw | .lParen | .plus | .minus | .bang | .tilde | .plusPlus
  | .minusMinus => true
  | _ => false

/-- Words of this kind stand behind an expression and do not go on with it. -/
def endsValue : Kind → Bool
  | .comma | .rParen | .rBracket | .colon | .eof => true
  | _ => false

/-- The kinds of the words that may stand behind an operand. -/
def followsOperand (k : Kind) : Bool :=
  k.endsValue || [.lParen, .lBracket, .dot, .question].contains k ||
    ((binding? k).isSome && k != .less)

variable {j k : Kind}

theorem ne_of_startsOperand (hk : k.startsOperand = true) (hj : j.startsOperand = false) :
    k ≠ j := by
  rintro rfl
  rw [hk] at hj
  cases hj

theorem ne_of_followsOperand (hk : k.followsOperand = true) (hj : j.followsOperand = false) :
    k ≠ j := by
  rintro rfl
  rw [hk] at hj
  cases hj

theorem followsOperand_of_endsValue (h : k.endsValue = true) : k.followsOperand = true := by
  simp [followsOperand, h]

/-- A word that ends an expression stands nowhere else. -/
theorem ne_of_endsValue (hk : k.endsValue = true) (hj : j.endsValue = false) : j ≠ k := by
  rintro rfl
  rw [hk] at hj
  cases hj

theorem endsValue_of_startsOperand (h : k.startsOperand = true) : k.endsValue = false := by
  have hall : ∀ k : Kind, k.startsOperand = true → k.endsValue = false := by
    intro k hk
    cases k <;> first | rfl | cases hk
  exact hall k h

end Kind

/-! ## Binding powers -/

namespace BinaryOperator

variable (operator : BinaryOperator) {k : Kind}

theorem kind_ne (hk : binding? k = none) : operator.token.kind ≠ k := by
  rintro rfl
  have hbinds := operator.binds
  rw [hk] at hbinds
  cases hbinds

theorem followsOperand : operator.token.kind.followsOperand = true := by
  simp [Kind.followsOperand, operator.binds, operator.ne_less]

theorem endsValue : operator.token.kind.endsValue = false := by
  have hall : ∀ k : Kind, (binding? k).isSome = true → k.endsValue = false := by
    intro k hk
    cases k <;> first | rfl | cases hk
  exact hall _ (by rw [operator.binds]; rfl)

/-- Powers are no more than one apart, and no prefix is as loose as an operator. -/
theorem powers : 1 ≤ operator.binding.left ∧ operator.binding.left < prefixPower ∧
    operator.binding.right ≤ operator.binding.left + 1 := by
  have hall : ∀ k : Kind, ∀ b ∈ binding? k,
      1 ≤ b.left ∧ b.left < prefixPower ∧ b.right ≤ b.left + 1 := by
    intro k b hb
    cases k <;> cases hb <;> decide
  exact hall _ _ operator.binds

end BinaryOperator

namespace Term

variable {r : TermRole} {e : Term r} {power : Nat}

theorem leftPower_of_isClosed (h : e.isClosed = true) : e.leftPower = prefixPower := by
  cases e <;> first | rfl | cases h

theorem rightPower_of_isClosed (h : e.isClosed = true) : e.rightPower = prefixPower := by
  cases e <;> first | rfl | cases h

/-- Nothing that is closed gets parentheses on the right side of something. -/
theorem isClosed_of_isLoose (h : e.isLoose power = true) (hpower : power ≤ prefixPower) :
    e.isClosed = false := by
  rw [Bool.eq_false_iff]
  intro hclosed
  have hloose : e.leftPower < power := of_decide_eq_true h
  rw [leftPower_of_isClosed hclosed] at hloose
  omega

/-- Nor does it get them on the left side of an operator. -/
theorem isClosed_of_takes (h : e.takes power = true) (hpower : power < prefixPower) :
    e.isClosed = false := by
  rw [Bool.eq_false_iff]
  intro hclosed
  have htakes : e.rightPower ≤ power := of_decide_eq_true h
  rw [rightPower_of_isClosed hclosed] at htakes
  omega

theorem rightPower_le (e : Term r) : e.rightPower ≤ e.leftPower + 1 := by
  cases e with
  | binary operator left right =>
    have hright := operator.powers.2.2
    simp only [rightPower, leftPower]
    split
    · exact hright
    · exact (Nat.min_le_left _ _).trans hright
  | conditional condition whenTrue whenFalse =>
    simp only [rightPower, leftPower]
    split
    · decide
    · exact (Nat.min_le_left _ _).trans (by decide)
  | _ => exact Nat.le_succ _

/-- What stands bare in front of an operator binds as tightly as the operator at least. -/
theorem le_leftPower_of_takes (h : e.takes power = false) : power ≤ e.leftPower := by
  have htakes : ¬ e.rightPower ≤ power := of_decide_eq_false h
  have := e.rightPower_le
  omega

theorem le_leftPower_of_isLoose (h : e.isLoose power = false) : power ≤ e.leftPower := by
  have hloose : ¬ e.leftPower < power := of_decide_eq_false h
  omega

/-- What binds as tightly as a prefix takes no operator. -/
theorem rightPower_of_isLoose (h : e.isLoose prefixPower = false) :
    e.rightPower = prefixPower := by
  have hleft := le_leftPower_of_isLoose h
  cases e with
  | binary operator left right =>
    have := operator.powers.2.1
    simp only [leftPower] at hleft
    omega
  | conditional condition whenTrue whenFalse =>
    simp only [leftPower] at hleft
    exact absurd hleft (by decide)
  | _ => rfl

end Term

end LivePatch
