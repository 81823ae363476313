import LivePatch.Proofs.Following.Steps

/-!
# Parentheses are balanced in what is read

Wherever a production of expressions takes an opening parenthesis it takes the one that closes it,
too (`Grammar.nests_production`).  So with any number of parentheses open around, the search for the
one that closes them comes to the same from in front of what is read without a problem and from
behind it.
-/

namespace LivePatch

open Words (front skipParens)
open LivePatch.Action (Recital divideShift recount)

/-- Is a word of this kind passed in the search for a closing parenthesis? -/
def Kind.isPassed (k : Kind) : Bool := k != .lParen && k != .rParen && k != .eof

namespace Words

variable {ws : List Token} {depth : Nat} {k : Kind}

theorem skipParens_cons {w : Token} (h : w.kind.isPassed = true) :
    skipParens depth (w :: ws) = skipParens depth ws := by
  refine Term.skipParens_cons ⟨?_, ?_, ?_⟩ <;> intro hk <;> rw [hk] at h <;> cases h

theorem skipParens_passed (h : (front ws).isPassed = true) :
    skipParens depth (ws.drop 1) = skipParens depth ws := by
  cases ws with
  | nil => rfl
  | cons w ws => exact (skipParens_cons h).symm

theorem skipParens_open (h : front ws = .lParen) :
    skipParens (depth + 1) (ws.drop 1) = skipParens depth ws := by
  cases ws with
  | nil => cases h
  | cons w ws =>
    have hw : w.kind = .lParen := h
    rw [skipParens, hw]
    rfl

theorem skipParens_close (h : front ws = .rParen) :
    skipParens (depth + 1) (ws.drop 1) = skipParens (depth + 2) ws := by
  cases ws with
  | nil => cases h
  | cons w ws =>
    have hw : w.kind = .rParen := h
    rw [skipParens, hw]
    rfl

theorem isPassed_of_ne (hopen : k ≠ .lParen) (hclose : k ≠ .rParen) (heof : k ≠ .eof) :
    k.isPassed = true := by
  simp [Kind.isPassed, *]

theorem isPassed_of_mode (h : (k = .refKw ∨ k = .outKw) ∨ k = .inKw) : k.isPassed = true := by
  rcases h with (rfl | rfl) | rfl <;> rfl

theorem isPassed_of_variance (h : k = .inKw ∨ k = .outKw) : k.isPassed = true := by
  rcases h with rfl | rfl <;> rfl

theorem isPassed_of_target (h : k = .identifier ∨ k = .returnKw) : k.isPassed = true := by
  rcases h with rfl | rfl <;> rfl

theorem isPassed_of_connective (h : front ws = .identifier ∧ frontText ws = "and" ∨
    front ws = .identifier ∧ frontText ws = "or") : (front ws).isPassed = true := by
  rcases h with ⟨hk, -⟩ | ⟨hk, -⟩ <;> rw [hk] <;> rfl

theorem isPassed_of_yield (h : k = .returnKw ∨ k = .breakKw) : k.isPassed = true := by
  rcases h with rfl | rfl <;> rfl

/-- The words of a class without parentheses, and without the end of the text, are passed. -/
theorem isPassed_of_class {p : Kind → Bool} (hp : [Kind.lParen, .rParen, .eof].any p = false)
    (h : p k = true) : k.isPassed = true := by
  have hnone := List.any_eq_false.mp hp
  refine isPassed_of_ne ?_ ?_ ?_ <;> rintro rfl <;> exact hnone _ (by simp) h

theorem isPassed_of_isPredefinedType (h : k.isPredefinedType = true) : k.isPassed = true :=
  isPassed_of_class rfl h

theorem isPassed_of_builtIn (h : k.isPredefinedType = true ∨ k = .voidKw) : k.isPassed = true := by
  rcases h with h | rfl
  · exact isPassed_of_isPredefinedType h
  · rfl

theorem isPassed_of_isLiteral (h : k.isLiteral = true) : k.isPassed = true :=
  isPassed_of_class rfl h

theorem isPassed_of_isRelational (h : isRelational k = true) : k.isPassed = true :=
  isPassed_of_class rfl h

theorem isPassed_of_isNameSeparator (h : isNameSeparator k = true) : k.isPassed = true :=
  isPassed_of_class rfl h

theorem isPassed_of_atLocalModifier (h : atLocalModifier ws = true) :
    (front ws).isPassed = true := by
  rw [atLocalModifier] at h
  split at h <;> first | (rename_i hk; rw [hk]; rfl) | cases h

theorem isPassed_of_atSwitchLabel (h : atSwitchLabel ws = true) : (front ws).isPassed = true := by
  rw [atSwitchLabel] at h
  split at h <;> first | (rename_i hk; rw [hk]; rfl) | cases h

theorem isPassed_of_binding? {b : Grammar.Binding} (h : Grammar.binding? k = some b) :
    k.isPassed = true :=
  isPassed_of_class (p := fun k => (Grammar.binding? k).isSome) rfl (by rw [h]; rfl)

end Words

namespace Grammar

open Words

variable {α β : Type} {ws ws' : List Token} {ts ts' : List Tree} {n : Nat} {k : Kind}

/-- A word of kind `k` is taken where `n` parentheses are open; then `Q` holds of how many are. -/
def Turns (k : Kind) (n : Nat) (Q : Nat → Prop) : Prop :=
  match k with
  | .lParen => Q (n + 1)
  | .rParen => ∃ m, n = m + 1 ∧ Q m
  | .eof => False
  | _ => Q n

theorem turns_passed {Q : Nat → Prop} (h : k.isPassed = true) : Turns k n Q ↔ Q n := by
  unfold Turns
  split
  case h_4 => exact Iff.rfl
  all_goals cases h

theorem Turns.mono {Q Q' : Nat → Prop} (h : Turns k n Q) (hQ : ∀ n, Q n → Q' n) :
    Turns k n Q' := by
  revert h
  unfold Turns
  split
  · exact hQ _
  · rintro ⟨m, hm, h⟩
    exact ⟨m, hm, hQ m h⟩
  · exact False.elim
  · exact hQ _

/-- With `n` of its own parentheses open, the action goes on in front of the words `ws` so that `Q`
holds of the answer, the parentheses that are open then, and the words left.  It takes no
parenthesis that closes another one than its own, and calls leave none open. -/
def Nests : {α : Type} → Step α → (α → Nat → List Token → Prop) → Nat → List Token → Prop
  | _, .pure a, Q, n, ws => Q a n ws
  | _, .bind first next, Q, n, ws => Nests first (fun a n ws => Nests (next a) Q n ws) n ws
  | _, .look decide _, Q, n, ws => Q (decide ws) n ws
  | _, .take, Q, n, ws => Turns (front ws) n fun n => Q () n (ws.drop 1)
  | _, .takeHalf, Q, n, ws => ((front ws).isPassed = true) ∧ Q () n ((divideShift ws).drop 1)
  | _, .report _, _, _, _ => True
  | _, .skipTrivia, Q, n, ws | _, .opening _ _, Q, n, ws | _, .enclose _, Q, n, ws => Q () n ws
  | _, .frame body, Q, n, ws => Nests body Q n ws
  | _, .idle body, Q, n, ws => Nests body (fun _ n ws' => Q (ws'.length == ws.length) n ws') n ws
  | _, .call r, Q, n, ws =>
    r.inExpression = true ∧ (r = .designation → front ws = .lParen) ∧ ∀ b ws', Q b n ws'

/-- What a call comes to leaves the search for a closing parenthesis where it was. -/
def Pairs (r : Rule) (ws ws' : List Token) : Prop :=
  r.inExpression = true → (r = .designation → front ws = .lParen) →
    ∀ depth, skipParens (depth + 1) ws' = skipParens (depth + 1) ws

/-- **Parentheses that nest are passed together.** -/
theorem Nests.of_recite {answer : Rule → List Token → List Tree → Recital Bool}
    (hanswer : ∀ {r ws ts b ws' ts'}, answer r ws ts = some (b, ws', ts') → Pairs r ws ws')
    {a : Step α} {Q : α → Nat → List Token → Prop} {v : α}
    (h : a.recite answer ws ts = some (v, ws', ts')) (hnests : Nests a Q n ws) :
    ∃ m, Q v m ws' ∧ ∀ depth, skipParens (depth + m + 1) ws' = skipParens (depth + n + 1) ws := by
  induction a generalizing ws ts ws' ts' n with
  | bind first next ihf ihn =>
    rw [Action.recite, Option.bind_eq_some_iff] at h
    obtain ⟨⟨u, ws₁, ts₁⟩, hfirst, hnext⟩ := h
    obtain ⟨m, hm, hskip⟩ := ihf hfirst hnests
    obtain ⟨m', hm', hskip'⟩ := ihn u hnext hm
    exact ⟨m', hm', fun depth => (hskip' depth).trans (hskip depth)⟩
  | frame body ih | idle body ih =>
    rw [Action.recite, Option.map_eq_some_iff] at h
    obtain ⟨⟨u, ws₁, ts₁⟩, hbody, heq⟩ := h
    cases heq
    exact ih hbody hnests
  | call r =>
    obtain ⟨hr, hfront, hQ⟩ := hnests
    exact ⟨n, hQ _ _, fun depth => hanswer h hr hfront (depth + n)⟩
  | take =>
    rw [Action.recite] at h
    cases h
    change Turns (front ws) n _ at hnests
    by_cases hopen : front ws = .lParen
    · rw [hopen] at hnests
      exact ⟨n + 1, hnests, fun depth => Words.skipParens_open hopen⟩
    by_cases hclose : front ws = .rParen
    · rw [hclose] at hnests
      obtain ⟨m, rfl, hQ⟩ := hnests
      exact ⟨m, hQ, fun depth => Words.skipParens_close hclose⟩
    by_cases heof : front ws = .eof
    · rw [heof] at hnests
      exact hnests.elim
    · have hpassed := Words.isPassed_of_ne hopen hclose heof
      exact ⟨n, (turns_passed hpassed).mp hnests, fun depth => Words.skipParens_passed hpassed⟩
  | takeHalf =>
    rw [Action.recite] at h
    cases h
    obtain ⟨hpassed, hQ⟩ := hnests
    refine ⟨n, hQ, fun depth => ?_⟩
    by_cases hshift : front ws = .rightShift
    · cases ws with
      | nil => rfl
      | cons w ws =>
        obtain ⟨j, text⟩ := w
        obtain rfl : j = .rightShift := hshift
        rfl
    · rw [Words.divideShift_eq_self hshift]
      exact Words.skipParens_passed hpassed
  | report =>
    rw [Action.recite] at h
    cases h
  | _ =>
    rw [Action.recite] at h
    cases h
    exact ⟨n, hnests, fun _ => rfl⟩

theorem Nests.mono {a : Step α} {Q Q' : α → Nat → List Token → Prop} (h : Nests a Q n ws)
    (hQ : ∀ v n ws, Q v n ws → Q' v n ws) : Nests a Q' n ws := by
  induction a generalizing n ws with
  | bind first next ihf ihn => exact ihf h fun v n ws hv => ihn v hv hQ
  | frame body ih => exact ih h hQ
  | idle body ih => exact ih h fun _ n ws => hQ _ n ws
  | call r => exact ⟨h.1, h.2.1, fun b ws' => hQ _ _ _ (h.2.2 b ws')⟩
  | take =>
    change Turns (front ws) n _ at h ⊢
    exact h.mono fun n => hQ () n _
  | takeHalf => exact h.imp_right (hQ _ _ _)
  | report => trivial
  | _ => exact hQ _ _ _ h

/-! ## Small steps -/

section

variable {Q : α → Nat → List Token → Prop} {U : Unit → Nat → List Token → Prop}
  {B : Bool → Nat → List Token → Prop}

@[simp ↓] theorem nests_pure (a : α) : Nests (pure a) Q n ws ↔ Q a n ws := Iff.rfl

@[simp ↓] theorem nests_bind (first : Step β) (next : β → Step α) :
    Nests (first >>= next) Q n ws ↔ Nests first (fun a n ws => Nests (next a) Q n ws) n ws :=
  Iff.rfl

@[simp ↓] theorem nests_take_passed (h : (front ws).isPassed = true) :
    Nests Action.take U n ws ↔ U () n (ws.drop 1) := turns_passed h

@[simp ↓] theorem nests_take_open (h : front ws = .lParen) :
    Nests Action.take U n ws ↔ U () (n + 1) (ws.drop 1) := by
  show Turns (front ws) n _ ↔ _
  rw [h]
  rfl

@[simp ↓] theorem nests_takeHalf (h : (front ws).isPassed = true) :
    Nests Action.takeHalf U n ws ↔ U () n ((divideShift ws).drop 1) := and_iff_right h

@[simp ↓] theorem nests_skipTrivia : Nests Action.skipTrivia U n ws ↔ U () n ws := Iff.rfl

@[simp ↓] theorem nests_begins : Nests (begins k) U n ws ↔ U () n ws := Iff.rfl

@[simp ↓] theorem nests_enclose : Nests (Action.enclose k) U n ws ↔ U () n ws := Iff.rfl

@[simp ↓] theorem nests_report (p : Problem) : Nests (Action.report p) U n ws := trivial

@[simp ↓] theorem nests_missing (what : String) : Nests (missing what) U n ws := trivial

@[simp ↓] theorem nests_frame (body : Step α) :
    Nests (Action.frame body) Q n ws ↔ Nests body Q n ws := Iff.rfl

@[simp ↓] theorem nests_idle (body : Step Unit) : Nests (Action.idle body) B n ws ↔
    Nests body (fun _ n ws' => B (ws'.length == ws.length) n ws') n ws := Iff.rfl

@[simp ↓] theorem nests_node (body : Step Unit) : Nests (node k body) U n ws ↔ Nests body U n ws :=
  Iff.rfl

@[simp ↓] theorem nests_call (r : Rule) : Nests (Action.call r) B n ws ↔
    r.inExpression = true ∧ (r = .designation → front ws = .lParen) ∧ ∀ b ws', B b n ws' := Iff.rfl

@[simp ↓] theorem nests_read (r : Rule) : Nests (read r) U n ws ↔
    r.inExpression = true ∧ (r = .designation → front ws = .lParen) ∧ ∀ ws', U () n ws' := by
  simp only [read, ↓nests_bind, ↓nests_call, ↓nests_pure, forall_const]

@[simp ↓] theorem nests_ite (p : Prop) [Decidable p] (a b : Step α) :
    Nests (if p then a else b) Q n ws ↔ if p then Nests a Q n ws else Nests b Q n ws := by
  split <;> rfl

@[simp ↓] theorem nests_ahead (d : List Token → α) [Scanned d] :
    Nests (ahead d) Q n ws ↔ Q (d ws) n ws := Iff.rfl

@[simp ↓] theorem nests_current {Q : Kind → Nat → List Token → Prop} :
    Nests current Q n ws ↔ Q (front ws) n ws := Iff.rfl

@[simp ↓] theorem nests_sees : Nests (sees k) B n ws ↔ B (front ws == k) n ws := Iff.rfl

@[simp ↓] theorem nests_eat (hk : k.isPassed = true) : Nests (eat k) B n ws ↔
    if front ws = k then B true n (ws.drop 1) else B false n ws := by
  simp only [eat, ↓nests_bind, ↓nests_sees, ↓nests_ite, beq_iff_eq]
  split
  · rename_i h
    exact nests_take_passed (by rw [h]; exact hk)
  · rfl

@[simp ↓] theorem nests_eat_open : Nests (eat .lParen) B n ws ↔
    if front ws = .lParen then B true (n + 1) (ws.drop 1) else B false n ws := by
  simp only [eat, ↓nests_bind, ↓nests_sees, ↓nests_ite, beq_iff_eq]
  split
  · rename_i h
    exact nests_take_open h
  · rfl

@[simp ↓] theorem nests_takeIf (hk : k.isPassed = true) : Nests (takeIf k) U n ws ↔
    if front ws = k then U () n (ws.drop 1) else U () n ws := by
  simp only [takeIf, ↓nests_bind, ↓nests_sees, ↓nests_ite, beq_iff_eq]
  split
  · rename_i h
    exact nests_take_passed (by rw [h]; exact hk)
  · rfl

@[simp ↓] theorem nests_expect (what : String) :
    Nests (expect k what) U n ws ↔ (front ws = k → Turns k n fun n => U () n (ws.drop 1)) := by
  simp only [expect, ↓nests_bind, ↓nests_sees, ↓nests_ite, beq_iff_eq]
  by_cases hk : front ws = k
  · rw [if_pos hk]
    subst hk
    simp only [true_imp_iff]
    rfl
  · simp [hk]

@[simp ↓] theorem nests_expectClosingAngle : Nests expectClosingAngle U n ws ↔
    ((front ws = .greater → U () n (ws.drop 1)) ∧
      (front ws = .rightShift → U () n ((divideShift ws).drop 1))) := by
  simp only [expectClosingAngle, ↓nests_bind, ↓nests_current]
  by_cases hgreater : front ws = .greater
  · simp [hgreater, Kind.isPassed]
  by_cases hshift : front ws = .rightShift
  · simp [hshift, Kind.isPassed]
  · simp [hgreater, hshift]

end

@[simp ↓] theorem turns_open {Q : Nat → Prop} : Turns .lParen n Q ↔ Q (n + 1) := Iff.rfl

@[simp ↓] theorem turns_close {Q : Nat → Prop} : Turns .rParen (n + 1) Q ↔ Q n := by
  refine ⟨?_, fun h => ⟨n, rfl, h⟩⟩
  rintro ⟨m, heq, h⟩
  obtain rfl : n = m := Nat.succ.inj heq
  exact h

/-- The action closes what it opens. -/
def Nested (a : Step Unit) (ws : List Token) : Prop := Nests a (fun _ n _ => n = 0) 0 ws

attribute [local simp] Nested Rule.inExpression expression type expectIdentifier
  declarationExpression argumentList bracketedArgumentList typeArgumentList initialValue
  attributeList parameterModifiers whenClause declarator declaratorList variableDeclaration
  localModifiers parenthesized seesWord

attribute [local simp ↓] turns_passed

attribute [local simp] isPassed_of_ne isPassed_of_mode isPassed_of_variance
  isPassed_of_target isPassed_of_builtIn isPassed_of_yield isPassed_of_connective
  isPassed_of_isPredefinedType isPassed_of_isLiteral isPassed_of_isRelational
  isPassed_of_isNameSeparator isPassed_of_atLocalModifier isPassed_of_atSwitchLabel

/-! ## Types, expressions and patterns -/

theorem nested_arguments (close : Kind) : Nested (arguments close) ws := by
  simp only [arguments, argument, expression, type, expectIdentifier, declarationExpression]
  simp +contextual

theorem nested_typeArguments : Nested typeArguments ws := by
  simp only [typeArguments, type]
  simp +contextual

theorem nested_tupleElements : Nested tupleElements ws := by
  simp +contextual [tupleElements]

theorem nested_commas : Nested commas ws := by
  simp +contextual [commas]

theorem nested_nameSegments : Nested nameSegments ws := by
  simp +contextual [nameSegments]

theorem nested_designated : Nested designated ws := by
  simp +contextual [designated]

theorem nested_initializerElements : Nested initializerElements ws := by
  simp only [initializerElements, ↓nests_bind, ↓nests_current, Nested, ↓nests_ite]
  split
  · simp
  · generalize front ws = kind
    split <;> simp +contextual [indexedElement]

theorem nested_attributes : Nested attributes ws := by
  simp only [attributes, attributeUse, dottedName, expectIdentifier, argumentList, typeArgumentList]
  simp +contextual

theorem nested_parameterModifierWords : Nested parameterModifierWords ws := by
  simp only [parameterModifierWords, ↓nests_bind, ↓nests_current, Nested]
  split <;> simp +contextual [-List.drop_tail, *]

theorem nested_parameters (close : Kind) : Nested (parameters close) ws := by
  simp only [parameters, parameter, expression, type, expectIdentifier, parameterModifiers]
  simp +contextual

theorem nested_lambdaParameters : Nested lambdaParameters ws := by
  simp +contextual [lambdaParameters, lambdaParameter]

theorem nested_switchArms : Nested switchArms ws := by
  simp only [switchArms, expression, whenClause, seesWord]
  simp +contextual

theorem nested_initializer : Nested initializer ws := by
  simp +contextual [initializer]

theorem nested_designation (hk : front ws = .lParen) : Nested designation ws := by
  simp +contextual [designation, hk]

theorem nested_pattern : Nested pattern ws := by
  simp +contextual [pattern]

theorem nested_arrayRanks : Nested arrayRanks ws := by
  simp +contextual [arrayRanks, arrayRank]

theorem nested_patternOperators : Nested patternOperators ws := by
  simp +contextual [patternOperators]

theorem nested_typeNameTail : Nested typeNameTail ws := by
  simp only [typeNameTail, typeArgumentList]
  simp +contextual [-List.drop_tail]

theorem nested_typeHead : Nested typeHead ws := by
  simp +contextual [typeHead]

theorem nested_primaryPattern : Nested primaryPattern ws := by
  simp only [primaryPattern, nameExpression, type, expectIdentifier, declarationExpression,
    typeArgumentList]
  simp +contextual

theorem nested_moreTupleValues (isTuple : Bool) :
    Nests (moreTupleValues isTuple) (fun _ n _ => n = 0) 0 ws := by
  simp only [moreTupleValues, tupleValue, expression, type, expectIdentifier, declarationExpression]
  simp +contextual [-List.drop_tail]

theorem nests_typeSuffixes (inExpression isArray : Bool) :
    Nests (typeSuffixes inExpression isArray) (fun _ n _ => n = 0) 0 ws := by
  simp only [typeSuffixes, arrayRank]
  simp +contextual

/-! ## Operands and operators -/

theorem nested_newExpression (hk : front ws = .newKw) : Nested newExpression ws := by
  simp only [newExpression, ↓nests_bind, ↓nests_current, Nested]
  simp only [nests_take_passed, hk, isPassed_of_ne, ne_eq, reduceCtorEq, not_false_eq_true,
    List.drop_one]
  split <;> simp +contextual [arrayRank, optionalInitializer, *]

theorem nested_typeOperator (k : Kind) (hk : (front ws).isPassed = true) :
    Nested (typeOperator k) ws := by
  simp +contextual [typeOperator, hk]

theorem nested_lambdaExpression : Nested lambdaExpression ws := by
  simp only [lambdaExpression, lambdaHead, parameterList, expression, expectIdentifier, seesWord]
  simp +contextual

theorem nested_switchTail (hk : front ws = .switchKw) : Nested switchTail ws := by
  simp +contextual [switchTail, hk]

theorem nested_typeTestTail (hk : (front ws).isPassed = true) : Nested (typeTestTail k) ws := by
  simp +contextual [typeTestTail, hk]

theorem nested_conditionalTail (hk : front ws = .question) : Nested conditionalTail ws := by
  simp +contextual [conditionalTail, hk]

theorem nested_binaryTail (b : Binding) (hk : (front ws).isPassed = true) :
    Nested (binaryTail b) ws := by
  simp +contextual [binaryTail, hk]

theorem nested_identifierOperand (hk : front ws = .identifier) : Nested identifierOperand ws := by
  have hlambda : Nests _ _ 0 ws := nested_lambdaExpression
  simp only [identifierOperand, prefixed, nameExpression, type, expectIdentifier,
    declarationExpression, typeArgumentList]
  simp +contextual [hlambda, hk]

theorem nested_parenOperand (hk : front ws = .lParen) : Nested parenOperand ws := by
  have hlambda : Nests _ _ 0 ws := nested_lambdaExpression
  simp only [parenOperand, tupleValue, expression, type, expectIdentifier, declarationExpression]
  simp +contextual [-List.drop_tail, hlambda, hk]

theorem nested_operand : Nested operand ws := by
  simp only [operand, ↓nests_bind, ↓nests_current, Nested, ↓nests_ite]
  split
  · simp [single, *]
  split
  · simp [single, *]
  split
  case h_3 hk => exact nested_newExpression hk
  case h_4 hk | h_5 hk => exact nested_typeOperator _ (by rw [hk]; rfl)
  case h_10 => exact nested_lambdaExpression
  case h_21 hk => exact nested_identifierOperand hk
  case h_22 hk => exact nested_parenOperand hk
  all_goals simp +contextual [single, prefixed, missingOperand, *]

theorem nested_operatorStep {power : Nat} {named : Bool} {step : Step Unit}
    (h : operatorStep? power (front ws) named = some step) : Nested step ws := by
  generalize hk : front ws = k at h
  unfold operatorStep? at h
  split at h
  case h_13 =>
    split at h
    · rename_i hb
      split at h <;> cases h
      exact nested_binaryTail _ (hk ▸ isPassed_of_binding? hb)
    · cases h
  case h_1 | h_5 | h_6 | h_7 | h_8 =>
    cases h
    simp +contextual [single, hk]
  case h_9 =>
    split at h <;> cases h
    exact nested_switchTail hk
  case h_10 | h_11 =>
    split at h <;> cases h
    exact nested_typeTestTail (by rw [hk]; rfl)
  case h_12 =>
    split at h <;> cases h
    exact nested_conditionalTail hk
  all_goals
    split at h <;> cases h
    simp +contextual [nameExpression, hk]

theorem nested_operators (power : Nat) : Nested (operators power) ws := by
  simp only [operators, ↓nests_bind, ↓nests_current, ↓nests_ahead, Nested]
  split
  · rfl
  · rename_i step hstep
    refine (nested_operatorStep hstep).mono fun _ n _ hn => ?_
    simp [hn]

theorem nested_expressionProduction (power : Nat) : Nested (expressionProduction power) ws := by
  simp only [expressionProduction, ↓nests_bind, ↓nests_skipTrivia, ↓nests_frame, Nested]
  refine nested_operand.mono fun _ n _ hn => ?_
  simp [hn]

theorem nests_typeProduction (inExpression : Bool) :
    Nests (typeProduction inExpression) (fun _ n _ => n = 0) 0 ws := by
  simp only [typeProduction, ↓nests_bind, ↓nests_skipTrivia, ↓nests_frame, ↓nests_begins]
  refine nested_typeHead.mono fun _ n _ hn => ?_
  simp [hn]

/-! ## Statements -/

theorem nested_typeParameters : Nested typeParameters ws := by
  simp +contextual [typeParameters, typeParameter]

theorem nested_attributeLists : Nested attributeLists ws := by
  simp +contextual [attributeLists, -List.drop_tail]

theorem nested_constraints : Nested constraints ws := by
  simp only [constraints, constraint, ↓nests_bind, ↓nests_current, Nested]
  split <;> simp +contextual [*]

theorem nested_constraintClauses : Nested constraintClauses ws := by
  simp +contextual [constraintClauses, constraintClause]

theorem nested_localModifierWords : Nested localModifierWords ws := by
  simp +contextual [localModifierWords]

theorem nested_moreDeclarators : Nested moreDeclarators ws := by
  simp only [moreDeclarators, expression, expectIdentifier, bracketedArgumentList, initialValue,
    declarator]
  simp +contextual

theorem nested_expressionList : Nested expressionList ws := by
  simp +contextual [expressionList]

theorem nested_switchLabels : Nested switchLabels ws := by
  simp only [switchLabels, switchLabel, expression, whenClause, seesWord]
  simp +contextual

theorem nested_switchSections : Nested switchSections ws := by
  simp +contextual [switchSections, switchSection]

theorem nested_catchClauses : Nested catchClauses ws := by
  simp only [catchClauses, catchDeclaration, expression, type, parenthesized, seesWord]
  simp +contextual

theorem nested_statements : Nested statements ws := by
  simp only [statements, ensureProgress]
  simp +contextual

theorem nested_sectionStatements : Nested sectionStatements ws := by
  simp only [sectionStatements, ensureProgress]
  simp +contextual

theorem nested_block : Nested block ws := by
  simp +contextual [block]

@[simp ↓] theorem nests_embeddedStatement {U : Unit → Nat → List Token → Prop} :
    Nests embeddedStatement U n ws ↔
      (front ws ≠ .eof → front ws ≠ .rBrace → ∀ ws, U () n ws) := by
  simp [embeddedStatement]

@[simp] theorem nested_functionBody : Nests functionBody (fun _ n _ => n = 0) 0 ws := by
  simp only [functionBody, ↓nests_bind, ↓nests_current]
  split <;> simp +contextual [arrowClause]

theorem nested_jumpStatement (k : Kind) (what : String) (hk : (front ws).isPassed = true) :
    Nested (jumpStatement k what) ws := by
  simp +contextual [jumpStatement, hk]

theorem nested_valueStatement (k : Kind) (what : String) (hk : (front ws).isPassed = true) :
    Nested (valueStatement k what) ws := by
  simp +contextual [valueStatement, hk]

theorem nested_conditionStatement (k : Kind) (hk : (front ws).isPassed = true) :
    Nested (conditionStatement k) ws := by
  simp +contextual [conditionStatement, hk]

theorem nested_blockStatement (k : Kind) (hk : (front ws).isPassed = true) :
    Nested (blockStatement k) ws := by
  simp +contextual [blockStatement, hk]

theorem nested_ifStatement (hk : front ws = .ifKw) : Nested ifStatement ws := by
  simp +contextual [ifStatement, hk]

theorem nested_doStatement (hk : front ws = .doKw) : Nested doStatement ws := by
  simp +contextual [doStatement, hk]

theorem nests_variableDeclaration (n : Nat) :
    Nests variableDeclaration (fun _ m _ => m = n) n ws := by
  simp only [expression, type, expectIdentifier, bracketedArgumentList, initialValue, declarator,
    declaratorList, variableDeclaration]
  simp +contextual

theorem nested_usingStatement (hk : front ws = .usingKw) : Nested usingStatement ws := by
  rw [usingStatement, Nested, nests_bind, nests_begins, nests_bind,
    nests_take_passed (by rw [hk]; rfl), nests_bind, nests_expect]
  intro hopen
  rw [turns_open, nests_bind, nests_ahead, nests_ite]
  split
  · refine (nests_variableDeclaration 1).mono fun _ n ws hn => ?_
    simp +contextual [hn]
  · simp +contextual

theorem nested_gotoStatement (hk : front ws = .gotoKw) : Nested gotoStatement ws := by
  simp only [gotoStatement, ↓nests_bind, ↓nests_begins, Nested, nests_take_passed, hk,
    isPassed_of_ne, ne_eq, reduceCtorEq, not_false_eq_true, ↓nests_current, List.drop_one]
  split <;> simp +contextual [*]

theorem nested_forHeader : Nested forHeader ws := by
  -- What is behind the first part of the header is the same whatever that part is.
  have hrest (ws : List Token) : Nests (do
      expect .semicolon "`;` in for header"
      unless ← sees .semicolon do expression
      expect .semicolon "`;` in for header"
      unless ← sees .rParen do read .expressionList
      expect .rParen "`)`") (fun _ n _ => n = 0) 1 ws := by
    simp only [expression]
    simp +contextual
  rw [forHeader, Nested, nests_node, nests_bind, nests_expect]
  intro hk
  rw [turns_open, nests_bind, nests_sees, nests_ite]
  split
  · exact hrest _
  rw [nests_bind, nests_ahead, nests_ite]
  split
  · refine (nests_variableDeclaration 1).mono fun _ n ws hn => ?_
    subst hn
    exact hrest ws
  · rw [nests_bind, nests_read]
    exact ⟨rfl, fun h => absurd h (by decide), hrest⟩

theorem nested_forStatement (hk : front ws = .forKw) : Nested forStatement ws := by
  simp only [forStatement, ↓nests_bind, ↓nests_begins, Nested, nests_take_passed, hk,
    isPassed_of_ne, ne_eq, reduceCtorEq, not_false_eq_true]
  refine nested_forHeader.mono fun _ n _ hn => ?_
  simp [hn]

theorem nested_foreachStatement (hk : front ws = .foreachKw) : Nested foreachStatement ws := by
  simp only [foreachStatement, expression, type, expectIdentifier, declarationExpression]
  simp +contextual [hk]

theorem nested_switchStatement (hk : front ws = .switchKw) : Nested switchStatement ws := by
  simp +contextual [switchStatement, hk]

theorem nested_tryStatement (hk : front ws = .tryKw) : Nested tryStatement ws := by
  simp +contextual [tryStatement, hk]

theorem nested_plainStatement : Nested plainStatement ws := by
  simp only [plainStatement, ↓nests_bind, ↓nests_ahead, Nested]
  simp only [functionRest, optionalTypeParameters, typeParameterList, parameterList, expression,
    type, expectIdentifier, bracketedArgumentList, initialValue, declarator, declaratorList,
    variableDeclaration, localModifiers]
  split <;> simp +contextual

theorem nested_identifierStatement (hk : front ws = .identifier) :
    Nested identifierStatement ws := by
  have hplain : Nests _ _ 0 ws := nested_plainStatement
  simp only [identifierStatement, labeledStatement, yieldStatement, expression]
  simp +contextual [hplain, hk, -List.drop_tail]

theorem nested_statement : Nested statement ws := by
  simp only [statement, statementBody, ↓nests_skipTrivia, ↓nests_frame, ↓nests_bind,
    ↓nests_current, Nested]
  split
  case h_1 => simp
  case h_2 hk => simp [single, hk]
  case h_3 hk => exact nested_identifierStatement hk
  case h_4 hk => exact nested_ifStatement hk
  case h_5 hk => exact nested_switchStatement hk
  case h_6 hk => exact nested_forStatement hk
  case h_7 hk => exact nested_foreachStatement hk
  case h_8 hk => exact nested_conditionStatement _ (by rw [hk]; rfl)
  case h_9 hk => exact nested_doStatement hk
  case h_10 hk => exact nested_conditionStatement _ (by rw [hk]; rfl)
  case h_11 hk =>
    rw [nests_bind, nests_ahead, nests_ite]
    split
    · exact nested_usingStatement hk
    · exact nested_plainStatement
  case h_12 hk => exact nested_tryStatement hk
  case h_13 hk | h_14 hk => exact nested_valueStatement _ _ (by rw [hk]; rfl)
  case h_15 hk | h_16 hk => exact nested_jumpStatement _ _ (by rw [hk]; rfl)
  case h_17 hk => exact nested_gotoStatement hk
  case h_18 hk | h_19 hk | h_20 hk =>
    rw [nests_bind, nests_ahead, nests_ite]
    split
    · exact nested_blockStatement _ (by rw [hk]; rfl)
    · exact nested_plainStatement
  case h_21 => exact nested_plainStatement

/-! ## All productions -/

theorem Nested.silently {a : Step Unit} (h : Nested a ws) :
    Nests (silently a) (fun _ n _ => n = 0) 0 ws := h

/-- **The parentheses of a production of expressions nest.** -/
theorem nests_production {r : Rule} (hr : r.inExpression = true)
    (hfront : r = .designation → front ws = .lParen) :
    Nests (production r) (fun _ n _ => n = 0) 0 ws := by
  cases r with
  | typeParameters => exact nested_typeParameters.silently
  | attributeLists => exact nested_attributeLists.silently
  | constraintClauses => exact nested_constraintClauses.silently
  | constraints => exact nested_constraints.silently
  | attributes => exact nested_attributes.silently
  | nameSegments => exact nested_nameSegments.silently
  | parameters close => exact (nested_parameters close).silently
  | parameterModifierWords => exact nested_parameterModifierWords.silently
  | arguments close => exact (nested_arguments close).silently
  | designation => exact (nested_designation (hfront rfl)).silently
  | designated => exact nested_designated.silently
  | block => exact nested_block.silently
  | statements => exact nested_statements.silently
  | statement => exact nested_statement.silently
  | localModifierWords => exact nested_localModifierWords.silently
  | moreDeclarators => exact nested_moreDeclarators.silently
  | switchSections => exact nested_switchSections.silently
  | switchLabels => exact nested_switchLabels.silently
  | sectionStatements => exact nested_sectionStatements.silently
  | expressionList => exact nested_expressionList.silently
  | catchClauses => exact nested_catchClauses.silently
  | type inExpression => exact nests_typeProduction inExpression
  | typeSuffixes inExpression isArray => exact nests_typeSuffixes inExpression isArray
  | tupleElements => exact nested_tupleElements.silently
  | typeNameTail => exact nested_typeNameTail.silently
  | commas => exact nested_commas.silently
  | typeArguments => exact nested_typeArguments.silently
  | moreTupleValues isTuple => exact nested_moreTupleValues isTuple
  | arrayRanks => exact nested_arrayRanks.silently
  | initializer => exact nested_initializer.silently
  | initializerElements => exact nested_initializerElements.silently
  | lambdaParameters => exact nested_lambdaParameters.silently
  | switchArms => exact nested_switchArms.silently
  | pattern => exact nested_pattern.silently
  | patternOperators => exact nested_patternOperators.silently
  | primaryPattern => exact nested_primaryPattern.silently
  | expression power => exact (nested_expressionProduction power).silently
  | operators power => exact (nested_operators power).silently
  | _ => cases hr

/-- **What is read without a problem has its parentheses closed.** -/
theorem skipParens_of_recount {r : Rule} {b : Bool} (hr : r.inExpression = true)
    (hfront : r = .designation → front ws = .lParen)
    (h : recount production r ws ts = some (b, ws', ts')) (depth : Nat) :
    skipParens (depth + 1) ws' = skipParens (depth + 1) ws := by
  refine Action.recount_induction (P := fun r ws _ p => Pairs r ws p.2.1) ?_ h
    hr hfront depth
  rintro answer ih r ws ts ⟨b, ws', ts'⟩ h hr hfront depth
  obtain ⟨m, rfl, hskip⟩ := (nests_production hr hfront).of_recite (fun h => ih _ _ _ _ h) h
  exact hskip depth

end Grammar

end LivePatch
