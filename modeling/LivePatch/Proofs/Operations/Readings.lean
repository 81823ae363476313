import LivePatch.Proofs.Operations.Lookahead
import LivePatch.Proofs.Grammar.Precedence

/-!
# How terms are read

An expression is read as far as its operators bind tightly enough, and a term is printed so that
this is as far as the term goes.  In front of words that go on with no part of it, the words of a
term come to its tree, and the reading goes on behind them as it would behind an operand
(`Term.isRead`).  An arrow is such a word if the term ends in nothing that it could make a lambda
of.
-/

namespace LivePatch

open LivePatch.Action (recount recount_eq)
open Grammar
open Token (closeBracket closeParen colon comma dot openBracket openParen question)
open Words (front frontText skipIdentifier)

variable {ws us : List Token} {ts trees : List Tree} {power : Nat}

namespace Grammar

/-- An expression is an operand and the operators behind it. -/
theorem recount_expression (power : Nat) : recount production (.expression power) ws ts =
    (operand.recite (recount production) ws []).bind fun r =>
      (recount production (.operators power) r.2.1 r.2.2).map fun x =>
        (false, x.2.1, ts ++ x.2.2) := by
  rw [recount_eq, production, recite_silently, expressionProduction]
  simp only [Action.recite_bind, Action.recite_skipTrivia, Option.bind_some, Action.recite_frame,
    recite_read, Function.comp_def, Option.map_map, Option.map_bind]

/-- Operators are taken one after the other. -/
theorem recount_operators {step : Step Unit}
    (h : operatorStep? power (front ws) (Words.isAt 1 .identifier ws) = some step) :
    recount production (.operators power) ws ts =
      (step.recite (recount production) ws ts).bind fun r =>
        recount production (.operators power) r.2.1 r.2.2 := by
  -- What operators answer means nothing.
  have hanswer (ws : List Token) (ts : List Tree) :
      (recount production (.operators power) ws ts).map (fun x => (false, x.2.1, x.2.2)) =
        recount production (.operators power) ws ts := by
    rw [recount_eq, production, recite_silently, Option.map_map]
    rfl
  rw [recount_eq, production, recite_silently, operators, Action.recite_bind, recite_current,
    Option.bind_some, Action.recite_bind, recite_ahead, Option.bind_some]
  dsimp only
  rw [h]
  simp only [Action.recite_bind, recite_read, Option.map_bind, Function.comp_def, Option.map_map,
    hanswer]

theorem recount_operators_of_stops (h : Stops power ws) :
    recount production (.operators power) ws ts = some (false, ws, ts) := by
  rw [recount_eq, production, recite_silently, operators, Action.recite_bind, recite_current,
    Option.bind_some, Action.recite_bind, recite_ahead, Option.bind_some]
  dsimp only
  rw [h, Action.recite_pure, Option.map_some]

/-- No operator begins with a word that ends an expression. -/
theorem stops_of_endsValue (h : (front ws).endsValue = true) : Stops power ws := by
  unfold Stops
  generalize front ws = k at h
  unfold Kind.endsValue at h
  split at h <;> first | rfl | cases h

/-- An argument without a name in front of it. -/
theorem recite_argument {answer : Rule → List Token → List Tree → Action.Recital Bool}
    (hstart : (front ws).startsOperand = true)
    (hname : front ws = .identifier → front ws.tail ≠ .colon) :
    argument.recite answer ws ts = (answer (.expression 0) ws []).map fun x =>
      ((), x.2.1, ts ++ [.node .argument x.2.2]) := by
  have href : front ws ≠ .refKw := Kind.ne_of_startsOperand hstart rfl
  have hout : front ws ≠ .outKw := Kind.ne_of_startsOperand hstart rfl
  have hin : front ws ≠ .inKw := Kind.ne_of_startsOperand hstart rfl
  by_cases hk : front ws = .identifier
  · simp [argument, hk, hname hk, expression, Function.comp_def]
  · simp [argument, hk, href, hout, hin, expression, Function.comp_def]

end Grammar

namespace Term

variable {r : TermRole} {asked : Bool} {close : Kind}

/-- A word of this kind behind the term makes nothing else of its end. -/
def LeftBy (e : Term r) (k : Kind) : Prop :=
  k.followsOperand = true ∨ k = .fatArrow ∧ e.endsOpen = false

theorem LeftBy.ne_less {e : Term r} {k : Kind} (h : e.LeftBy k) : k ≠ .less := by
  obtain h | ⟨rfl, -⟩ := h
  · exact Kind.ne_of_followsOperand h rfl
  · decide

/-- The words of a term are read as its trees.  Behind an expression the operators around go on; of
them, none may belong to a part of it. -/
def IsRead : {r : TermRole} → Term r → Prop
  | .value, e => ∀ power ws ts, power ≤ e.leftPower → e.LeftBy (front ws) →
      (e.isClosed = false → Stops e.rightPower ws) →
        recount production (.expression power) (e.words ++ ws) ts =
          (recount production (.operators power) ws e.trees).map fun x =>
            (false, x.2.1, ts ++ x.2.2)
  | .arguments, e => ∀ close ws ts, close = .rParen ∨ close = .rBracket → front ws = close →
      recount production (.arguments close) (e.words ++ ws) ts = some (false, ws, ts ++ e.trees)

/-- A whole expression, in front of a word that ends it. -/
theorem IsRead.whole {e : Term .value} (h : e.IsRead) (hws : (front ws).endsValue = true) :
    recount production (.expression 0) (e.words ++ ws) ts = some (false, ws, ts ++ e.trees) := by
  rw [h 0 ws ts (Nat.zero_le _) (.inl (Kind.followsOperand_of_endsValue hws))
    fun _ => stops_of_endsValue hws, recount_operators_of_stops (stops_of_endsValue hws),
    Option.map_some]

/-- **Parentheses around a term** are read as such. -/
theorem IsRead.recite_parenOperand {e : Term .value} (h : e.IsRead) (he : e.isClosed = false)
    (harrow : front ws ≠ .fatArrow) :
    parenOperand.recite (recount production) (openParen :: (e.words ++ closeParen :: ws)) [] =
      some ((), ws, encloseTrees true e.trees) := by
  have hopen : openParen.kind = .lParen := rfl
  have hclose : closeParen.kind = .rParen := rfl
  have hread (ts : List Tree) : recount production (.expression 0)
      (e.words ++ closeParen :: ws) ts = _ := h.whole rfl
  have hmore (ts : List Tree) : recount production (.moreTupleValues false) (closeParen :: ws) ts =
      some (false, closeParen :: ws, ts) := by
    rw [recount_eq, production, moreTupleValues]
    simp [hclose]
  have hname : front (e.words ++ closeParen :: ws) = .identifier →
      front (e.words ++ closeParen :: ws).tail ≠ .colon := e.front_tail_ne rfl (Words.front_ne (by decide))
  have hvalue (ts : List Tree) : tupleValue.recite (recount production)
      (e.words ++ closeParen :: ws) ts = some ((), closeParen :: ws, ts ++ e.trees) := by
    by_cases hk : front (e.words ++ closeParen :: ws) = .identifier
    · simp [tupleValue, hk, hname hk, atVarDesignation_words, atTupleDeclaration_words e he,
        expression, hread]
    · simp [tupleValue, hk, atVarDesignation_words, atTupleDeclaration_words e he, expression,
        hread]
  simp [parenOperand, atLambdaParen_words e harrow, atCast_words e he, hvalue, hmore, hclose,
    encloseTrees]

/-- A term is read as well where it got parentheses. -/
theorem IsRead.enclose {e : Term .value} (h : e.IsRead) (hasked : asked = true → e.isClosed = false)
    (hpower : asked = false → power ≤ e.leftPower)
    (harrow : asked = true → front ws ≠ .fatArrow) (hleft : asked = false → e.LeftBy (front ws))
    (hstops : asked = false → e.isClosed = false → Stops e.rightPower ws) :
    recount production (.expression power) (Term.enclose asked e.words ++ ws) ts =
      (recount production (.operators power) ws (encloseTrees asked e.trees)).map fun x =>
        (false, x.2.1, ts ++ x.2.2) := by
  cases asked with
  | false => exact h power ws ts (hpower rfl) (hleft rfl) (hstops rfl)
  | true =>
    have hopen : openParen.kind = .lParen := rfl
    have hoperand := h.recite_parenOperand (hasked rfl) (harrow rfl)
    rw [recount_expression]
    simp [Term.enclose, operand, hopen, Kind.isLiteral, Kind.isPredefinedType, hoperand]

/-- So is one that something is done with, which is closed or gets parentheses. -/
theorem IsRead.receiver {e : Term .value} (h : e.IsRead) (hpower : power ≤ prefixPower)
    (hfollows : (front ws).followsOperand = true) :
    recount production (.expression power) (Term.enclose (!e.isClosed) e.words ++ ws) ts =
      (recount production (.operators power) ws (encloseTrees (!e.isClosed) e.trees)).map fun x =>
        (false, x.2.1, ts ++ x.2.2) := by
  refine h.enclose (fun hasked => by simpa using hasked) (fun hasked => ?_)
    (fun _ => Kind.ne_of_followsOperand hfollows rfl) (fun _ => .inl hfollows)
    fun hasked hclosed => ?_
  · rw [leftPower_of_isClosed (by simpa using hasked)]
    exact hpower
  · simp [hclosed] at hasked

/-- The right side of an operator that binds with `power` there goes on to the end of the words
that bind so tightly. -/
theorem IsRead.operand {e : Term .value} (h : e.IsRead) (hpower : power ≤ prefixPower)
    (hleft : (front ws).followsOperand = true ∨
      front ws = .fatArrow ∧ (e.isLoose power || e.endsOpen) = false)
    (hstops : Stops (if e.isLoose power then power else min power e.rightPower) ws)
    (ts : List Tree) :
    recount production (.expression power) (Term.enclose (e.isLoose power) e.words ++ ws) ts =
      some (false, ws, ts ++ encloseTrees (e.isLoose power) e.trees) := by
  have hbare (hloose : e.isLoose power = false) : Stops (min power e.rightPower) ws := by
    simpa [hloose] using hstops
  have hends : Stops power ws := hstops.mono (by split <;> omega)
  have harrow (hloose : e.isLoose power = true) : front ws ≠ .fatArrow := by
    obtain hfollows | ⟨-, hopen⟩ := hleft
    · exact Kind.ne_of_followsOperand hfollows rfl
    · simp [hloose] at hopen
  rw [h.enclose (fun hasked => isClosed_of_isLoose hasked hpower) le_leftPower_of_isLoose harrow
    (fun _ => hleft.imp_right (And.imp_right fun hopen => (Bool.or_eq_false_iff.mp hopen).2))
    fun hloose _ => (hbare hloose).mono (Nat.min_le_right _ _), recount_operators_of_stops hends,
    Option.map_some]

/-- The left side of an operator that binds with `left` there ends in front of the operator. -/
theorem IsRead.leftOperand {e : Term .value} (h : e.IsRead) {w : Token} {left : Nat}
    (hleft : left < prefixPower) (hpower : power ≤ left) (hfollows : w.kind.followsOperand = true)
    (hends : ∀ {power}, left < power → Stops power (w :: ws)) :
    recount production (.expression power) (Term.enclose (e.takes left) e.words ++ w :: ws) ts =
      (recount production (.operators power) (w :: ws) (encloseTrees (e.takes left) e.trees)).map
        fun x => (false, x.2.1, ts ++ x.2.2) := by
  refine h.enclose (fun htakes => isClosed_of_takes htakes hleft)
    (fun htakes => hpower.trans (le_leftPower_of_takes htakes))
    (fun _ => Kind.ne_of_followsOperand hfollows rfl) (fun _ => .inl hfollows)
    fun htakes _ => hends ?_
  have : ¬ e.rightPower ≤ left := of_decide_eq_false htakes
  omega

/-- Behind a single operand the operators go on. -/
theorem recount_operand {us : List Token} (h : operand.recite (recount production) us [] =
    some ((), ws, trees)) : recount production (.expression power) us ts =
      (recount production (.operators power) ws trees).map fun x => (false, x.2.1, ts ++ x.2.2) := by
  rw [recount_expression, h, Option.bind_some]

/-- A name where an expression begins. -/
theorem recite_name (n : PlainName) (hfollows : (front ws).followsOperand = true) :
    operand.recite (recount production) (n.token :: ws) [] =
      some ((), ws, [.node .nameExpression [.token n.token]]) := by
  have harrow : front ws ≠ .fatArrow := Kind.ne_of_followsOperand hfollows rfl
  have hless : front ws ≠ .less := Kind.ne_of_followsOperand hfollows rfl
  obtain ⟨hvar, hawait, hasync⟩ := n.plain
  simp [Grammar.operand, Kind.isLiteral, Kind.isPredefinedType, identifierOperand, frontText, hvar,
    hawait, hasync, harrow, nameExpression, expectIdentifier, hless]

/-- A member behind what it belongs to. -/
theorem recount_member (n : Name) (hless : front ws ≠ .less) :
    recount production (.operators power) (dot :: n.token :: ws) ts =
      recount production (.operators power) ws [.node .memberAccessExpression
        (ts ++ [.token dot, .node .nameExpression [.token n.token]])] := by
  have hstep : operatorStep? power (front (dot :: n.token :: ws))
      (Words.isAt 1 .identifier (dot :: n.token :: ws)) = some (do
        begins .memberAccessExpression
        Action.take
        nameExpression
        Action.enclose .memberAccessExpression) := by
    simp [operatorStep?, dot]
  rw [recount_operators hstep]
  simp [nameExpression, expectIdentifier, hless]

/-- Arguments between parentheses behind what is called. -/
theorem recount_call {argumentTrees : List Tree} (us : List Token)
    (h : ∀ ts, recount production (.arguments .rParen) (us ++ closeParen :: ws) ts =
      some (false, closeParen :: ws, ts ++ argumentTrees)) :
    recount production (.operators power) (openParen :: (us ++ closeParen :: ws)) ts =
      recount production (.operators power) ws [.node .invocationExpression (ts ++
        [.node .argumentList (.token openParen :: (argumentTrees ++ [.token closeParen]))])] := by
  have hopen : openParen.kind = .lParen := rfl
  have hclose : closeParen.kind = .rParen := rfl
  have hstep : operatorStep? power (front (openParen :: (us ++ closeParen :: ws)))
      (Words.isAt 1 .identifier (openParen :: (us ++ closeParen :: ws))) = some (do
        begins .invocationExpression
        argumentList
        Action.enclose .invocationExpression) := rfl
  rw [recount_operators hstep]
  simp [argumentList, hopen, hclose, h]

/-- Arguments between brackets behind what is accessed. -/
theorem recount_element {argumentTrees : List Tree} (us : List Token)
    (h : ∀ ts, recount production (.arguments .rBracket) (us ++ closeBracket :: ws) ts =
      some (false, closeBracket :: ws, ts ++ argumentTrees)) :
    recount production (.operators power) (openBracket :: (us ++ closeBracket :: ws)) ts =
      recount production (.operators power) ws [.node .elementAccessExpression
        (ts ++ [.node .bracketedArgumentList
          (.token openBracket :: (argumentTrees ++ [.token closeBracket]))])] := by
  have hopen : openBracket.kind = .lBracket := rfl
  have hclose : closeBracket.kind = .rBracket := rfl
  have hstep : operatorStep? power (front (openBracket :: (us ++ closeBracket :: ws)))
      (Words.isAt 1 .identifier (openBracket :: (us ++ closeBracket :: ws))) = some (do
        begins .elementAccessExpression
        bracketedArgumentList
        Action.enclose .elementAccessExpression) := rfl
  rw [recount_operators hstep]
  simp [bracketedArgumentList, hopen, hclose, h]

/-- An operator with its right operand, behind its left one. -/
theorem recount_binary (operator : BinaryOperator) {us : List Token} {right : List Tree}
    (hpower : power ≤ operator.binding.left) (hbrace : front us ≠ .lBrace)
    (h : ∀ ts, recount production (.expression operator.binding.right) us ts =
      some (false, ws, ts ++ right)) :
    recount production (.operators power) (operator.token :: us) ts =
      recount production (.operators power) ws
        [.node operator.binding.kind (ts ++ .token operator.token :: right)] := by
  have hstep : operatorStep? power (front (operator.token :: us))
      (Words.isAt 1 .identifier (operator.token :: us)) = some (binaryTail operator.binding) := by
    rw [front, operatorStep?_of_binding? operator.binds, if_neg (Nat.not_lt.mpr hpower)]
  rw [recount_operators hstep]
  simp [binaryTail, hbrace, h]

/-- Where operators bind more tightly, this one is left. -/
theorem stops_operator (operator : BinaryOperator) (h : operator.binding.left < power) :
    Stops power (operator.token :: ws) := by
  rw [Stops, front, operatorStep?_of_binding? operator.binds, if_pos h]

/-- A conditional operator with its branches, behind the condition. -/
theorem recount_conditional {us vs : List Token} {whenTrue whenFalse : List Tree}
    (hpower : power ≤ conditionalBinding.left)
    (htrue : ∀ ts, recount production (.expression 0) us ts =
      some (false, colon :: vs, ts ++ whenTrue))
    (hfalse : ∀ ts, recount production (.expression conditionalBinding.right) vs ts =
      some (false, ws, ts ++ whenFalse)) :
    recount production (.operators power) (question :: us) ts =
      recount production (.operators power) ws [.node .conditionalExpression
        (ts ++ .token question :: (whenTrue ++ .token colon :: whenFalse))] := by
  have hcolon : colon.kind = .colon := rfl
  have hstep : operatorStep? power (front (question :: us))
      (Words.isAt 1 .identifier (question :: us)) = some conditionalTail := if_neg (Nat.not_lt.mpr hpower)
  rw [recount_operators hstep]
  simp [conditionalTail, expression, htrue, hcolon, hfalse]

/-- An argument is read, and behind a comma the arguments go on. -/
theorem IsRead.arguments {e : Term .value} (h : e.IsRead) (hclose : close.endsValue = true)
    (hws : (front ws).endsValue = true) (hcolon : front ws ≠ .colon) (ts : List Tree) :
    recount production (.arguments close) (e.words ++ ws) ts =
      ((eat .comma).recite (recount production) ws (ts ++ [.node .argument e.trees])).bind fun r =>
        (if r.1 then read (.arguments close) else pure () : Step Unit).recite (recount production)
          r.2.1 r.2.2 |>.map fun x => (false, x.2.1, x.2.2) := by
  have hstart := e.startsOperand_front ws
  have hends := Kind.endsValue_of_startsOperand hstart
  have hne : front (e.words ++ ws) ≠ close := Kind.ne_of_endsValue hclose hends
  have hend : front (e.words ++ ws) ≠ .eof := Kind.ne_of_endsValue rfl hends
  have hread : argument.recite (recount production) (e.words ++ ws) ts = _ :=
    recite_argument hstart (e.front_tail_ne rfl hcolon)
  rw [h.whole hws, Option.map_some] at hread
  rw [recount_eq, production, recite_silently, Grammar.arguments]
  simp [hne, hend, hread]

/-- **Every term is read**, and so are all arguments. -/
theorem isRead (e : Term r) : e.IsRead := by
  induction e with
  | name n =>
    intro power ws ts _ hleft _
    exact recount_operand (recite_name n (hleft.resolve_right (by simp [endsOpen])))
  | number literal =>
    intro power ws ts _ _ _
    refine recount_operand ?_
    simp [words, Grammar.operand, Kind.isLiteral, single, trees]
  | this =>
    intro power ws ts _ _ _
    have hkind : Token.this.kind = .thisKw := rfl
    refine recount_operand ?_
    simp [words, Grammar.operand, hkind, Kind.isLiteral, Kind.isPredefinedType, single, trees]
  | member receiver n ih =>
    intro power ws ts hpower hleft _
    rw [words, List.append_assoc, ih.receiver hpower rfl]
    exact congrArg (Option.map _) (recount_member n hleft.ne_less)
  | call callee ih =>
    intro power ws ts hpower _ _
    have hnone (ts : List Tree) : recount production (.arguments .rParen) (closeParen :: ws) ts =
        some (false, closeParen :: ws, ts ++ []) := by
      have hclose : closeParen.kind = .rParen := rfl
      rw [recount_eq, production, arguments]
      simp [hclose]
    rw [words, List.append_assoc, ih.receiver hpower rfl]
    exact congrArg (Option.map _) (recount_call [] hnone)
  | callWith callee arguments ih iharguments =>
    intro power ws ts hpower _ _
    simp only [words, List.append_assoc, List.cons_append, List.nil_append]
    rw [ih.receiver hpower rfl]
    exact congrArg (Option.map _)
      (recount_call arguments.words fun ts => iharguments .rParen _ ts (.inl rfl) rfl)
  | element receiver arguments ih iharguments =>
    intro power ws ts hpower _ _
    simp only [words, List.append_assoc, List.cons_append, List.nil_append]
    rw [ih.receiver hpower rfl]
    exact congrArg (Option.map _)
      (recount_element arguments.words fun ts => iharguments .rBracket _ ts (.inr rfl) rfl)
  | unary operator operand ih =>
    intro power ws ts _ hleft hstops
    have hpowers : Stops (if operand.isLoose prefixPower then prefixPower
        else min prefixPower operand.rightPower) ws := by
      split
      · exact hstops rfl
      · rw [rightPower_of_isLoose (Bool.eq_false_iff.mpr ‹_›), Nat.min_self]
        exact hstops rfl
    have hright (ts : List Tree) := ih.operand le_rfl hleft hpowers ts
    refine recount_operand ?_
    cases operator <;>
      simp [words, Grammar.operand, PrefixOperator.token, Kind.isLiteral, Kind.isPredefinedType,
        prefixed, hright, trees]
  | binary operator left right ih ihright =>
    intro power ws ts hpower hleft hstops
    obtain ⟨-, hprefix, hbound⟩ := operator.powers
    have hright := ihright.operand (by omega) hleft (hstops rfl)
    have hbrace : front (Term.enclose (right.isLoose operator.binding.right) right.words ++ ws) ≠
        .lBrace := Kind.ne_of_startsOperand right.startsOperand_enclose rfl
    rw [words, List.append_assoc, List.cons_append, ih.leftOperand hprefix hpower
      operator.followsOperand (stops_operator operator)]
    exact congrArg (Option.map _) (recount_binary operator hpower hbrace hright)
  | conditional condition whenTrue whenFalse ih ihtrue ihfalse =>
    intro power ws ts hpower hleft hstops
    have hright := ihfalse.operand (by decide) hleft (hstops rfl)
    have hpower : power ≤ conditionalBinding.left := hpower
    simp only [words, List.cons_append, List.append_assoc]
    rw [ih.leftOperand (by decide) hpower (show question.kind.followsOperand = true from rfl)
      fun h => if_pos h]
    exact congrArg (Option.map _) (recount_conditional hpower (fun ts => ihtrue.whole rfl) hright)
  | last argument ih =>
    intro close ws ts hclose hws
    have hends : close.endsValue = true := by rcases hclose with rfl | rfl <;> rfl
    have hcolon : front ws ≠ .colon := by rcases hclose with rfl | rfl <;> simp [hws]
    have hcomma : front ws ≠ .comma := by rcases hclose with rfl | rfl <;> simp [hws]
    rw [words, ih.arguments hends (by rw [hws]; exact hends) hcolon]
    simp [hcomma, trees]
  | more argument rest ih ihrest =>
    intro close ws ts hclose hws
    have hends : close.endsValue = true := by rcases hclose with rfl | rfl <;> rfl
    have hcomma : front (comma :: (rest.words ++ ws)) = .comma := rfl
    have hread := ih.arguments hends (congrArg Kind.endsValue hcomma) (by rw [hcomma]; decide) ts
    rw [words, List.append_assoc, List.cons_append, hread]
    simp [show comma.kind = .comma from rfl, ihrest close ws _ hclose hws, trees]

end Term

end LivePatch
