import LivePatch.Proofs.NameTemplates

/-!
# Casting returned values

A returned value is turned back into text, put behind two casts and read again.
-/

namespace LivePatch

open Words (front)

/-! ## What encloses its frame -/

namespace Action

variable {R α β : Type} {K : Kind → Prop} {answer : R → List Token → List Tree → Recital Bool}

/-- What the action does last is to enclose all of its frame as a node of a kind that satisfies
`K`, unless it notes a problem. -/
def Encloses (K : Kind → Prop) {α : Type} : Action R α → Prop
  | .bind _ next => ∀ a, (next a).Encloses K
  | .report _ => True
  | .enclose k => K k
  | _ => False

@[simp] theorem encloses_bind (first : Action R β) (next : β → Action R α) :
    (first >>= next).Encloses K ↔ ∀ a, (next a).Encloses K := Iff.rfl

@[simp] theorem encloses_enclose (k : Kind) :
    (enclose k : Action R _).Encloses K ↔ K k := Iff.rfl

@[simp] theorem encloses_ite (p : Prop) [Decidable p] (a b : Action R α) :
    (if p then a else b).Encloses K ↔ if p then a.Encloses K else b.Encloses K := by
  split <;> rfl

/-- Then nothing else is left in the frame. -/
theorem Encloses.exists_node {a : Action R α} (h : a.Encloses K) {ws ws' : List Token}
    {ts ts' : List Tree} {v : α} (hrecite : a.recite answer ws ts = some (v, ws', ts')) :
    ∃ k parts, K k ∧ ts' = [.node k parts] := by
  induction a generalizing ws ts with
  | bind first next _ ih =>
    rw [recite, Option.bind_eq_some_iff] at hrecite
    obtain ⟨r, -, hnext⟩ := hrecite
    exact ih r.1 (h r.1) hnext
  | report problem =>
    rw [recite] at hrecite
    cases hrecite
  | enclose k =>
    rw [recite] at hrecite
    cases hrecite
    exact ⟨k, ts, h, rfl⟩
  | _ => exact h.elim

end Action

namespace Grammar

open LivePatch.Action (reciteRule Encloses)
open Token (closeParen object openParen)

variable {ws ws' rest : List Token} {ts ts' : List Tree} {depth power : Nat} {v : Bool}

/-! ## Operators make no casts -/

/-- An operator makes its operands parts of something that is no cast. -/
theorem encloses_operatorStep {op : Kind} {named : Bool} {step : Step Unit}
    (h : operatorStep? power op named = some step) : step.Encloses (· ≠ .castExpression) := by
  unfold operatorStep? at h
  split at h
  case h_13 =>
    split at h
    · rename_i b hb
      split at h <;> cases h
      have hkind : b.kind ≠ .castExpression := by
        rcases binding_kind hb with hk | hk <;> simp [hk]
      simp [binaryTail, hkind]
    · cases h
  all_goals
    first
    | cases h
    | (split at h <;> cases h)
    simp [single, switchTail, typeTestTail, conditionalTail]

/-- The operators leave what was built, or they make it a part of something that is no cast; and
behind them stands no operator. -/
theorem operators_of_recite
    (h : reciteRule production depth (.operators power) ws ts = some (v, ws', ts')) :
    Stops power ws' ∧ ((ws' = ws ∧ ts' = ts) ∨
      ∃ k parts, k ≠ .castExpression ∧ ts' = [.node k parts]) := by
  induction depth generalizing ws ts v with
  | zero => cases h
  | succ depth ih =>
    rw [reciteRule, production, recite_silently, Option.map_eq_some_iff] at h
    obtain ⟨⟨_, _, _⟩, h, heq⟩ := h
    cases heq
    rw [operators, Action.recite_bind, recite_current, Option.bind_some, Action.recite_bind,
      recite_ahead, Option.bind_some] at h
    split at h
    · rename_i hstop
      rw [Action.recite_pure] at h
      cases h
      exact ⟨hstop, .inl ⟨rfl, rfl⟩⟩
    · rename_i step hstep
      rw [Action.recite_bind, Option.bind_eq_some_iff] at h
      obtain ⟨⟨_, ws₁, ts₁⟩, hfirst, h⟩ := h
      rw [recite_read, Option.map_eq_some_iff] at h
      obtain ⟨⟨_, _, _⟩, h, heq⟩ := h
      cases heq
      obtain ⟨hstops, ⟨rfl, rfl⟩ | hmore⟩ := ih h
      · exact ⟨hstops, .inr ((encloses_operatorStep hstep).exists_node hfirst)⟩
      · exact ⟨hstops, .inr hmore⟩

/-! ## Casts of operands -/

/-- What was read as a cast has the operand that was read behind it. -/
theorem operand_of_recite_cast {type e : Tree} {vs : List Token}
    (hlambda : Words.atLambdaParen (openParen :: vs) = false)
    (hcast : Words.atCast (openParen :: vs) = true)
    (htype : ∀ ts, reciteRule production depth (.type false) vs ts =
      some (false, closeParen :: rest, ts ++ [type]))
    (h : reciteRule production (depth + 1) (.expression power) (openParen :: vs) [] =
      some (v, ws', [castTree type e])) :
    reciteRule production depth (.expression prefixPower) rest [] = some (false, ws', [e]) := by
  rw [recite_expression, recite_castOperand hlambda hcast htype, Option.bind_eq_some_iff] at h
  obtain ⟨_, hread, h⟩ := h
  obtain ⟨⟨u, ws₁, ts₁⟩, hoperand, rfl⟩ := Option.map_eq_some_iff.mp hread
  obtain ⟨⟨_, ws₂, ts₂⟩, hoperators, heq⟩ := Option.map_eq_some_iff.mp h
  obtain ⟨-, rfl, rfl⟩ : false = v ∧ ws₂ = ws' ∧ ts₂ = [castTree type e] := by simpa using heq
  obtain rfl : u = false := answer_of_recite hoperand
  obtain ⟨-, ⟨rfl, hsame⟩ | ⟨k, parts, hk, hnode⟩⟩ := operators_of_recite hoperators
  · obtain rfl : ts₁ = [e] := by simpa [castTree] using hsame.symm
    exact hoperand
  · obtain ⟨rfl, -⟩ : Kind.castExpression = k ∧ _ := by simpa [castTree] using hnode
    exact absurd rfl hk

/-- A parenthesis that opens no cast makes none. -/
theorem encloses_parenOperand {vs : List Token} (hcast : Words.atCast vs = false)
    (h : parenOperand.recite (reciteRule production depth) vs [] = some ((), ws', ts')) :
    ∃ k parts, k ≠ .castExpression ∧ ts' = [.node k parts] := by
  rw [parenOperand, Action.recite_bind, recite_ahead, Option.bind_some] at h
  dsimp only at h
  split at h
  · exact Encloses.exists_node (by simp [lambdaExpression]) h
  · rw [Action.recite_bind, recite_ahead, Option.bind_some, hcast] at h
    exact Encloses.exists_node (by simp) h

/-- The parentheses around the common base type open a cast only in front of an operand. -/
theorem canStartExpression_of_recite_cast {type e : Tree}
    (h : reciteRule production depth (.expression power) (objectCastWords rest) [] =
      some (v, ws', [castTree type e])) : Words.canStartExpression (front rest) = true := by
  cases depth with
  | zero => cases h
  | succ depth =>
    by_contra hstart
    have hcast : Words.atCast (objectCastWords rest) = false := by
      rwa [atCast_objectCast, ← Bool.not_eq_true]
    have hoperand : operand.recite (reciteRule production depth) (objectCastWords rest) [] =
        parenOperand.recite (reciteRule production depth) (objectCastWords rest) [] := by
      have hopen : front (objectCastWords rest) = .lParen := rfl
      simp [operand, hopen, Kind.isLiteral, Kind.isPredefinedType]
    rw [recite_expression, hoperand, Option.bind_eq_some_iff] at h
    obtain ⟨⟨_, ws₁, ts₁⟩, hread, h⟩ := h
    obtain ⟨⟨_, ws₂, ts₂⟩, hoperators, heq⟩ := Option.map_eq_some_iff.mp h
    obtain ⟨-, -, rfl⟩ : false = v ∧ ws₂ = ws' ∧ ts₂ = [castTree type e] := by simpa using heq
    -- Neither the operand nor an operator behind it makes a cast.
    obtain ⟨k, parts, hk, hnode⟩ : ∃ k parts, k ≠ .castExpression ∧
        [castTree type e] = [.node k parts] := by
      obtain ⟨-, ⟨-, rfl⟩ | hmore⟩ := operators_of_recite hoperators
      · exact encloses_parenOperand hcast hread
      · exact hmore
    obtain ⟨rfl, -⟩ : Kind.castExpression = k ∧ _ := by simpa [castTree] using hnode
    exact hk rfl

/-- Behind an expression stands no operator that it would take along. -/
theorem stops_of_recite
    (h : reciteRule production depth (.expression power) ws ts = some (v, ws', ts')) :
    Stops power ws' := by
  cases depth with
  | zero => cases h
  | succ depth =>
    rw [recite_expression, Option.bind_eq_some_iff] at h
    obtain ⟨_, -, h⟩ := h
    obtain ⟨⟨_, ws₂, ts₂⟩, hoperators, heq⟩ := Option.map_eq_some_iff.mp h
    cases heq
    exact (operators_of_recite hoperators).1

/-- An operand that cannot follow a cast is one with a sign in front that may also stand between
two operands. -/
theorem recite_operand_of_not_canStart {p : Unit × List Token × List Tree}
    (hstart : Words.canStartExpression (front ws) = false)
    (h : operand.recite (reciteRule production depth) ws ts = some p) :
    (prefixed .prefixUnaryExpression).recite (reciteRule production depth) ws ts = some p := by
  rw [operand, Action.recite_bind, recite_current, Option.bind_some] at h
  dsimp only at h
  obtain ⟨hopen, hother⟩ := Bool.or_eq_false_iff.mp hstart
  obtain ⟨hliteral, htype⟩ := Bool.or_eq_false_iff.mp hopen
  rw [if_neg (by simp [hliteral]), if_neg (by simp [htype])] at h
  generalize front ws = k at h hother
  split at h
  case h_18 | h_19 | h_20 => exact h
  case h_23 => simp [missingOperand, missing] at h
  all_goals cases hother

/-- An operand that is put behind a cast without parentheses begins with a word that can follow
one. -/
theorem canStartExpression_of_recite {e : Tree}
    (hkind : ReturnValues.needsParentheses e.kind = false)
    (h : reciteRule production depth (.expression prefixPower) ws [] = some (v, ws', [e])) :
    Words.canStartExpression (front ws) = true := by
  cases depth with
  | zero => cases h
  | succ depth =>
    by_contra hstart
    rw [recite_expression, Option.bind_eq_some_iff] at h
    obtain ⟨⟨_, ws₁, ts₁⟩, hread, h⟩ := h
    obtain ⟨⟨_, ws₂, ts₂⟩, hoperators, heq⟩ := Option.map_eq_some_iff.mp h
    obtain ⟨-, -, rfl⟩ : false = v ∧ ws₂ = ws' ∧ ts₂ = [e] := by simpa using heq
    have hprefixed := recite_operand_of_not_canStart (Bool.not_eq_true _ ▸ hstart) hread
    -- The operand with its sign took the operators along, so the sign is what comes out.
    rw [prefixed, Action.recite_bind, recite_begins, Option.bind_some, Action.recite_bind,
      Action.recite_take_eq, Option.bind_some, Action.recite_bind, recite_read,
      Option.bind_eq_some_iff] at hprefixed
    obtain ⟨_, hmap, henclose⟩ := hprefixed
    obtain ⟨⟨u, ws₃, ts₃⟩, hinner, rfl⟩ := Option.map_eq_some_iff.mp hmap
    rw [Action.recite_enclose] at henclose
    cases henclose
    have hdepth : 1 ≤ depth := Nat.pos_of_ne_zero (by rintro rfl; cases hinner)
    rw [recite_operators hdepth (stops_of_recite hinner)] at hoperators
    cases hoperators
    cases hkind

/-- A cast makes one tree, whatever it is. -/
theorem exists_of_recite_castThrough {t : Token} {us : List Token} {parts : List Tree}
    (ht : t.kind = .identifier) (hus : ∀ u ∈ us, u.kind = .identifier)
    (h : reciteRule production depth (.expression power) (castWords t us rest) [] =
      some (v, ws', parts)) : ∃ k ts, parts = [.node k ts] := by
  have hdepth := Action.reciteRule_mono (show depth ≤ (depth + us.length + 4) + 1 by omega) h
  rw [recite_expression, castWords, recite_castOperand (atLambdaParen_castWords ht hus)
    (atCast_castWords ht hus) (fun ts => recite_typeOfQualifier (by omega) ht hus false),
    Option.bind_eq_some_iff] at hdepth
  obtain ⟨_, hread, hdepth⟩ := hdepth
  obtain ⟨_, -, rfl⟩ := Option.map_eq_some_iff.mp hread
  obtain ⟨⟨_, ws₂, ts₂⟩, hoperators, heq⟩ := Option.map_eq_some_iff.mp hdepth
  obtain ⟨-, -, rfl⟩ : false = v ∧ ws₂ = ws' ∧ ts₂ = parts := by simpa using heq
  obtain ⟨-, ⟨-, rfl⟩ | ⟨k, ts, -, rfl⟩⟩ := operators_of_recite hoperators
  · exact ⟨_, _, rfl⟩
  · exact ⟨_, _, rfl⟩

/-- **Two casts take all of what follows** if and only if this is an operand that may follow a
cast, and reads as such where only strong operators count. -/
theorem recite_castThrough_iff {t : Token} {us : List Token} {e : Tree}
    (ht : t.kind = .identifier) (hus : ∀ u ∈ us, u.kind = .identifier)
    (hstops : Stops power ws') (hpower : power ≤ prefixPower) :
    (∃ depth, reciteRule production depth (.expression power) (castWords t us rest) [] =
        some (false, ws', [castThroughTree t us e])) ↔
      Words.canStartExpression (front rest) = true ∧
        ∃ depth, reciteRule production depth (.expression prefixPower) rest [] =
          some (false, ws', [e]) := by
  constructor
  · rintro ⟨depth, h⟩
    have hdepth := Action.reciteRule_mono (show depth ≤ (depth + us.length + 4) + 2 by omega) h
    have hinner := operand_of_recite_cast (atLambdaParen_castWords ht hus)
      (atCast_castWords ht hus) (fun ts => recite_typeOfQualifier (by omega) ht hus false) hdepth
    have hstart := canStartExpression_of_recite_cast hinner
    exact ⟨hstart, _, operand_of_recite_cast (atLambdaParen_objectCast_eq_false hstart)
      (atCast_objectCast.trans hstart) (fun ts => recite_objectType (by omega)) hinner⟩
  · rintro ⟨hstart, depth, h⟩
    exact ⟨_, recite_castThrough (Nat.le_add_left _ depth) ht hus hstart hstops hpower
      (Action.reciteRule_mono (Nat.le_add_right depth _) h)⟩

end Grammar

end LivePatch
