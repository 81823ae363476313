import LivePatch.Proofs.Following.Fragments
import LivePatch.Proofs.NameTemplates

/-!
# Expressions between parentheses

Behind an opening parenthesis the grammar looks for a cast and for a declaration before it reads an
expression.  If it finds neither, and if the closing parenthesis makes no declaration of the words
in front of it, then an expression between parentheses is read as it is by itself
(`readsAs_enclosedText_iff`).
-/

namespace LivePatch

open LivePatch.Action (recount recount_eq recount_induction)
open Token (closeParen endOfText openParen)
open Words (Limits Undeclared atCast atLambdaParen atTupleDeclaration atVarDesignation front
  skipDesignation)

namespace Grammar

variable {ws us : List Token} {ts : List Tree} {e : Tree} {w x : Token}

/-- The tree of the expression `e` between parentheses. -/
def enclosedTree (e : Tree) : Tree :=
  .node .parenthesizedExpression [.token openParen, e, .token closeParen]

/-- With the words `ws` and a closing parenthesis behind it, an opening parenthesis opens neither a
cast nor a declaration. -/
structure OpensGroup (ws : List Token) : Prop where
  cast : atCast (openParen :: ws) = false
  designation : atVarDesignation ws = false
  declaration : atTupleDeclaration (ws ++ [closeParen]) = false

instance (ws : List Token) : Decidable (OpensGroup ws) :=
  decidable_of_iff (atCast (openParen :: ws) = false ∧ atVarDesignation ws = false ∧
    atTupleDeclaration (ws ++ [closeParen]) = false)
    ⟨fun ⟨hcast, hdesignation, hdeclaration⟩ => ⟨hcast, hdesignation, hdeclaration⟩,
      fun h => ⟨h.cast, h.designation, h.declaration⟩⟩

/-- No colon stands behind a name that an expression begins with, unless it ends there. -/
theorem ReadsBefore.front_tail_ne {power : Nat} (h : ReadsBefore power ws us e)
    (hws : front ws = .identifier) {vs : List Token} (hvs : front vs ≠ .colon) :
    front (ws ++ vs).tail ≠ .colon := by
  intro hcolon
  match ws with
  | [] => cases hws
  | [x] => exact hvs hcolon
  | x :: w :: ws =>
    have hw : w.kind = .colon := hcolon
    have hoperand : operand.recite (recount production) (x :: w :: (ws ++ us)) [] =
        some ((), w :: (ws ++ us), [.node .nameExpression [.token x]]) :=
      recite_identifierBefore hws (by rw [hw]; rfl) (by rw [hw]; nofun) (by rw [hw]; nofun)
    have hstops : Stops power (w :: (ws ++ us)) := by
      have hfront : front (w :: (ws ++ us)) = .colon := hw
      rw [Stops, hfront]
      rfl
    have hread : recount production (.expression power) (x :: w :: (ws ++ us)) [] =
        some (false, us, [e]) := h
    rw [Term.recount_operand hoperand, recount_operators_of_stops hstops, Option.map_some] at hread
    have hleft := congrArg (fun r => r.map (·.2.1.length)) hread
    simp at hleft
    omega

/-- So none stands behind a name that is first between parentheses. -/
theorem ReadsBefore.front_tail_enclosed {power : Nat} (h : ReadsBefore power ws us e)
    (hfront : front (ws ++ [closeParen, endOfText]) = .identifier) :
    front (ws ++ [closeParen, endOfText]).tail ≠ .colon :=
  h.front_tail_ne ((Words.front_append_eq_iff ⟨rfl, fun _ => rfl⟩ rfl).mp hfront) nofun

/-! ## Looking ahead from the opening parenthesis -/

theorem limits_closeParen (hus : front us = .eof) : Limits (closeParen :: us) :=
  ⟨rfl, fun _ => hus⟩

theorem atCast_enclosed (ws : List Token) :
    atCast (openParen :: (ws ++ [closeParen, endOfText])) = atCast (openParen :: ws) :=
  Words.atCast_behind (limits_closeParen rfl) (List.cons_ne_nil openParen ws)

theorem atVarDesignation_enclosed (ws : List Token) :
    atVarDesignation (ws ++ [closeParen, endOfText]) = atVarDesignation ws :=
  Words.atVarDesignation_behind (limits_closeParen rfl) ws

theorem atTupleDeclaration_enclosed (ws : List Token) :
    atTupleDeclaration (ws ++ [closeParen, endOfText]) =
      atTupleDeclaration (ws ++ [closeParen]) := by
  rw [Words.atTupleDeclaration_behind (limits_closeParen rfl),
    Words.atTupleDeclaration_behind (limits_closeParen rfl)]
  rfl

/-- **What stands between parentheses** is read as it is by itself. -/
theorem recite_enclosed (h : ReadsBefore 0 ws [closeParen, endOfText] e) (hgroup : OpensGroup ws) :
    operand.recite (recount production) (openParen :: (ws ++ [closeParen, endOfText])) [] =
      some ((), [endOfText], [enclosedTree e]) := by
  have hopen : openParen.kind = .lParen := rfl
  have hclose : closeParen.kind = .rParen := rfl
  have hlambda : atLambdaParen (openParen :: (ws ++ [closeParen, endOfText])) = false := by
    rw [atLambdaParen, List.drop_one, List.tail_cons, h.skipParens_eq 0]
    rfl
  have hcast := (atCast_enclosed ws).trans hgroup.cast
  have hdesignation := (atVarDesignation_enclosed ws).trans hgroup.designation
  have hdeclaration := (atTupleDeclaration_enclosed ws).trans hgroup.declaration
  have hvalue (ts : List Tree) : tupleValue.recite (recount production)
      (ws ++ [closeParen, endOfText]) ts = some ((), [closeParen, endOfText], ts ++ [e]) := by
    by_cases hk : front (ws ++ [closeParen, endOfText]) = .identifier
    · simp [tupleValue, hk, h.front_tail_enclosed hk, hdesignation, hdeclaration, expression,
        h.recount_eq]
    · simp [tupleValue, hk, hdesignation, hdeclaration, expression, h.recount_eq]
  have hmore (ts : List Tree) : recount production (.moreTupleValues false)
      [closeParen, endOfText] ts = some (false, [closeParen, endOfText], ts) := by
    rw [recount_eq, production, moreTupleValues]
    simp [hclose]
  simp [operand, parenOperand, Kind.isLiteral, Kind.isPredefinedType, hopen, hclose, hlambda, hcast,
    hvalue, hmore, enclosedTree]

/-! ## Nodes around all there is -/

/-- In the end the step encloses all that is in its frame in a node of a kind in `K`. -/
def EndsIn (K : Kind → Prop) : {α : Type} → Step α → Prop
  | _, .bind _ next => ∀ v, EndsIn K (next v)
  | _, .enclose k => K k
  | _, _ => False

section

variable {α β : Type} {K : Kind → Prop}

@[simp ↓] theorem endsIn_bind (first : Step β) (next : β → Step α) :
    EndsIn K (first >>= next) ↔ ∀ v, EndsIn K (next v) := Iff.rfl

@[simp ↓] theorem endsIn_enclose (k : Kind) : EndsIn K (Action.enclose k : Step _) ↔ K k := Iff.rfl

@[simp ↓] theorem endsIn_ite (p : Prop) [Decidable p] (a b : Step α) :
    EndsIn K (if p then a else b) ↔ if p then EndsIn K a else EndsIn K b := by
  split <;> rfl

theorem EndsIn.of_recite {answer : Rule → List Token → List Tree → Action.Recital Bool}
    {a : Step α} (h : EndsIn K a) {v : α} {ws' : List Token} {ts' : List Tree}
    (hrecite : a.recite answer ws ts = some (v, ws', ts')) :
    ∃ k parts, K k ∧ ts' = [.node k parts] := by
  induction a generalizing ws ts with
  | bind first next _ ihn =>
    rw [Action.recite, Option.bind_eq_some_iff] at hrecite
    obtain ⟨⟨u, ws₁, ts₁⟩, -, hnext⟩ := hrecite
    exact ihn u (h u) hnext
  | enclose k =>
    rw [Action.recite] at hrecite
    cases hrecite
    exact ⟨k, ts, h, rfl⟩
  | _ => cases h

end

/-- A node of another kind than those that parentheses alone make or lead to. -/
def IsOther (k : Kind) : Prop := k ≠ .parenthesizedExpression ∧ k ≠ .declarationExpression

theorem endsIn_operatorStep {power : Nat} {op : Kind} {named : Bool} {step : Step Unit}
    (h : operatorStep? power op named = some step) : EndsIn IsOther step := by
  have hbinding : ∀ k : Kind, ∀ b ∈ binding? k, IsOther b.kind := by
    intro k b hb
    cases k <;> cases hb <;> exact ⟨by decide, by decide⟩
  unfold operatorStep? at h
  split at h
  case h_13 =>
    split at h
    · split at h <;> cases h
      simp [binaryTail, hbinding _ _ ‹_›]
    · cases h
  case h_1 | h_5 | h_6 | h_7 | h_8 =>
    cases h
    simp [single, IsOther]
  all_goals
    split at h <;> cases h
    simp [switchTail, typeTestTail, conditionalTail, IsOther]

/-- **Operators enclose** all that is in front of them, if there are any. -/
theorem recount_operators_cases {power : Nat} {p : Bool × List Token × List Tree}
    (h : recount production (.operators power) ws ts = some p) :
    p.2 = (ws, ts) ∨ ∃ k parts, IsOther k ∧ p.2.2 = [.node k parts] := by
  refine recount_induction (P := fun r ws ts p => ∀ power, r = .operators power →
    p.2 = (ws, ts) ∨ ∃ k parts, IsOther k ∧ p.2.2 = [.node k parts]) ?_ h power rfl
  rintro answer ih r ws ts p h power rfl
  rw [production, recite_silently, operators, Action.recite_bind, recite_current,
    Option.bind_some, Action.recite_bind, recite_ahead, Option.bind_some] at h
  dsimp only at h
  cases hstep : operatorStep? power (front ws) (Words.isAt 1 .identifier ws) with
  | none =>
    rw [hstep, Action.recite_pure, Option.map_some] at h
    cases h
    exact .inl rfl
  | some step =>
    rw [hstep] at h
    simp only [Action.recite_bind, recite_read, Option.map_bind, Option.bind_eq_some_iff,
      Function.comp_def, Option.map_map, Option.map_eq_some_iff] at h
    obtain ⟨⟨u, ws₁, ts₁⟩, hfirst, x, hrest, rfl⟩ := h
    obtain ⟨k, parts, hk, rfl⟩ := (endsIn_operatorStep hstep).of_recite hfirst
    rcases ih _ _ _ _ hrest power rfl with hx | hx
    · exact .inr ⟨k, parts, hk, congrArg Prod.snd hx⟩
    · exact .inr hx

/-! ## Declarations -/

/-- A word of a kind is there, unless the kind is that of the end. -/
theorem exists_cons_of_front {k : Kind} (h : front ws = k) (hk : k ≠ .eof) :
    ∃ w us, ws = w :: us ∧ w.kind = k := by
  cases ws with
  | nil => exact absurd h.symm hk
  | cons w us => exact ⟨w, us, rfl, h⟩

/-- A designation that is read is scanned to the same place. -/
def Scans (r : Rule) (ws : List Token) (_ : Bool) (ws' : List Token) : Prop :=
  match r with
  | .designation => front ws = .lParen → ∀ depth, skipDesignation (depth + 1) ws.tail =
      if depth = 0 then some ws' else skipDesignation.afterDesignated depth ws'
  | .designated => ∀ depth, skipDesignation (depth + 1) ws =
      skipDesignation.afterDesignated (depth + 1) ws'
  | _ => True

theorem scans_designation : (production .designation).Comes Scans (Scans .designation ws) ws := by
  simp only [production, designation, comes_silently, Action.comes_bind, Action.comes_skipTrivia,
    comes_node, Action.comes_take, comes_read, comes_expect]
  intro b ws₁ hscans hclose hopen depth
  obtain ⟨w, ws₂, rfl, hw⟩ := exists_cons_of_front hclose (by decide)
  rw [← List.drop_one, hscans, skipDesignation.afterDesignated, hw]
  cases depth with
  | zero => rfl
  | succ depth => simp

theorem scans_designated : (production .designated).Comes Scans (Scans .designated ws) ws := by
  -- Behind a name or a group stands a comma, or the designation ends.
  have hmore {ws₁ : List Token} (h : ∀ depth, skipDesignation (depth + 1) ws =
      skipDesignation.afterDesignated (depth + 1) ws₁) :
      (eat .comma >>= fun more => if more = true then read .designated else pure ()).Comes Scans
        (fun _ ws' => ∀ depth, skipDesignation (depth + 1) ws =
          skipDesignation.afterDesignated (depth + 1) ws') ws₁ := by
    simp only [Action.comes_bind, comes_eat]
    split
    · rename_i hcomma
      simp only [if_true, comes_read]
      intro _ ws' hscans depth
      obtain ⟨w, ws₂, rfl, hw⟩ := exists_cons_of_front hcomma (by decide)
      rw [h, skipDesignation.afterDesignated, hw]
      exact hscans depth
    · exact h
  rw [production, comes_silently, designated, Action.comes_bind, comes_sees, comes_ite]
  split
  · rename_i hopen
    rw [beq_iff_eq] at hopen
    rw [Action.comes_bind, comes_read]
    intro b ws₁ hscans
    refine hmore fun depth => ?_
    obtain ⟨w, ws, rfl, hw⟩ := exists_cons_of_front hopen (by decide)
    rw [skipDesignation, hw]
    exact (hscans hopen (depth + 1)).trans (if_neg depth.succ_ne_zero)
  · rw [Action.comes_bind, expectIdentifier, comes_expect]
    intro hname
    refine hmore fun depth => ?_
    obtain ⟨w, ws, rfl, hw⟩ := exists_cons_of_front hname (by decide)
    rw [skipDesignation, hw]
    rfl

theorem scans_production (r : Rule) (ws : List Token) :
    (production r).Comes Scans (Scans r ws) ws := by
  cases r with
  | designation => exact scans_designation
  | designated => exact scans_designated
  | _ => exact Action.comes_of_forall _ fun _ _ => trivial

section

variable {ws' : List Token} {ts' : List Tree}

/-- **A designation behind `var`** is read as far as it is scanned. -/
theorem skipDesignation_of_recite {x p : Token} (hx : x.kind = .identifier) (hp : p.kind = .lParen)
    (h : declarationExpression.recite (recount production) (x :: p :: us) ts =
      some ((), ws', ts')) : skipDesignation 1 us = some ws' := by
  have htype (ts : List Tree) : recount production (.type false) (x :: p :: us) ts =
      some (false, p :: us, ts ++ [.node .type [.node .namedType [.token x]]]) := by
    have htail (ts : List Tree) : recount production .typeNameTail (p :: us) ts =
        some (false, p :: us, ts) := by
      rw [recount_eq, production]
      simp [typeNameTail, hp, Words.isNameSeparator]
    have hhead : typeHead.recite (recount production) (x :: p :: us) [] =
        some ((), p :: us, [.node .namedType [.token x]]) := by
      simp [typeHead, hx, Kind.isPredefinedType, htail]
    refine recount_type_of_head [] hhead ?_
    show p.kind.continuesType = false
    rw [hp]
    rfl
  simp only [declarationExpression, type, Action.recite_bind, Action.recite_skipTrivia, recite_node,
    Action.recite_call, htype, recite_sees, Words.front_cons, hp, Option.bind_some,
    beq_self_eq_true, if_true, recite_read, Option.map_map, Option.map_eq_some_iff] at h
  obtain ⟨⟨b, ws₁, ts₁⟩, hread, heq⟩ := h
  obtain ⟨-, hrest⟩ := Prod.mk.inj heq
  obtain ⟨rfl, -⟩ := Prod.mk.inj hrest
  have hscans := Action.of_recount scans_production hread
  exact (hscans hp 0).trans (if_pos rfl)

end

/-! ## Operands -/

section

variable {K : Kind → Prop} {answer : Rule → List Token → List Tree → Action.Recital Bool}
  {ws' : List Token} {ts' : List Tree}

theorem endsIn_lambdaExpression (hK : K .lambdaExpression) : EndsIn K lambdaExpression := by
  simp [lambdaExpression, hK]

theorem endsIn_newExpression (hobject : K .objectCreationExpression)
    (harray : K .arrayCreationExpression) : EndsIn K newExpression := by
  simp only [newExpression, ↓endsIn_bind]
  intro _ k
  split <;> simp [hobject, harray, apply_ite K]

theorem endsIn_parenOperand : EndsIn (· ≠ .declarationExpression) parenOperand := by
  simp only [parenOperand, ↓endsIn_bind, ↓endsIn_ite, ↓endsIn_enclose]
  intro lambda
  split
  · exact endsIn_lambdaExpression (by decide)
  intro cast
  split
  · simp
  · simp [apply_ite (· = Kind.declarationExpression)]

/-- Only behind `var` an operand is a declaration. -/
theorem recite_operand_cases (h : operand.recite answer ws [] = some ((), ws', ts')) :
    (∃ k parts, k ≠ .declarationExpression ∧ ts' = [.node k parts]) ∨
      atVarDesignation ws = true ∧
        declarationExpression.recite answer ws [] = some ((), ws', ts') := by
  have hother {a : Step Unit} (h : a.recite answer ws [] = some ((), ws', ts'))
      (ha : EndsIn (· ≠ .declarationExpression) a) := ha.of_recite h
  rw [operand, Action.recite_bind, recite_current, Option.bind_some] at h
  dsimp only at h
  split at h
  · exact .inl (hother h (by simp [single]))
  split at h
  · exact .inl (hother h (by simp [single]))
  split at h
  case h_21 =>
    simp only [identifierOperand, Action.recite_bind, recite_ahead, Option.bind_some] at h
    split at h
    · exact .inl (hother h (endsIn_lambdaExpression (by decide)))
    simp only [Action.recite_bind, recite_ahead, Option.bind_some] at h
    split at h
    · exact .inl (hother h (endsIn_lambdaExpression (by decide)))
    simp only [Action.recite_bind, recite_ahead, Option.bind_some] at h
    split at h
    · rename_i hvar
      exact .inr ⟨(Bool.and_eq_true_iff.mp hvar).2, h⟩
    simp only [Action.recite_bind, recite_ahead, Option.bind_some] at h
    split at h
    · exact .inl (hother h (by simp [prefixed]))
    · rw [nameExpression, Action.recite_bind, Action.recite_skipTrivia, Option.bind_some,
        recite_node, Option.map_eq_some_iff] at h
      obtain ⟨⟨u, ws₁, ts₁⟩, -, heq⟩ := h
      cases heq
      exact .inl ⟨_, _, by decide, rfl⟩
  case h_22 => exact .inl (hother h endsIn_parenOperand)
  case h_10 => exact .inl (hother h (endsIn_lambdaExpression (by decide)))
  case h_3 => exact .inl (hother h (endsIn_newExpression (by decide) (by decide)))
  all_goals exact .inl (hother h (by simp [single, prefixed, typeOperator, missingOperand]))

/-- Behind a declaration with `var` stands an assignment or the word `in`. -/
theorem front_of_atVarDesignation (h : atVarDesignation ws = true)
    (hrecite : declarationExpression.recite (recount production) ws ts = some ((), ws', ts')) :
    front ws' = .eq ∨ front ws' = .inKw := by
  match ws with
  | [] => cases h
  | [x] => simp [atVarDesignation, Words.isAt, Words.kindAt] at h
  | x :: p :: us =>
    simp only [atVarDesignation, Words.front_cons, Words.isAt, Words.kindAt, List.drop_succ_cons,
      List.drop_zero, List.getElem?_cons_succ, List.getElem?_cons_zero, Option.map_some,
      Bool.and_eq_true, beq_iff_eq, Option.some.injEq] at h
    obtain ⟨⟨⟨hx, -⟩, hp⟩, hscan⟩ := h
    rw [skipDesignation_of_recite hx hp hrecite] at hscan
    simpa using hscan

/-- An expression that a text ends with is no declaration. -/
theorem ReadsBefore.kind_ne {power : Nat} (h : ReadsBefore power ws [endOfText] e) :
    e.kind ≠ .declarationExpression := by
  intro hkind
  rw [ReadsBefore, recount_expression, Option.bind_eq_some_iff] at h
  obtain ⟨⟨u, ws₁, ts₁⟩, hoperand, h⟩ := h
  obtain ⟨⟨b, ws₂, ts₂⟩, hoperators, heq⟩ := Option.map_eq_some_iff.mp h
  obtain ⟨-, hrest⟩ := Prod.mk.inj heq
  obtain ⟨rfl, rfl⟩ : ws₂ = [endOfText] ∧ ts₂ = [e] := Prod.mk.inj hrest
  rcases recount_operators_cases hoperators with heq | ⟨k, parts, hk, heq⟩
  · obtain ⟨rfl, rfl⟩ : [endOfText] = ws₁ ∧ [e] = ts₁ := Prod.mk.inj heq
    rcases recite_operand_cases hoperand with ⟨k, parts, hk, heq⟩ | ⟨hvar, hdeclares⟩
    · obtain rfl : e = .node k parts := List.head_eq_of_cons_eq heq
      exact hk hkind
    · rcases front_of_atVarDesignation hvar hdeclares with hfront | hfront <;> cases hfront
  · obtain rfl : e = .node k parts := List.head_eq_of_cons_eq heq
    exact hk.2 hkind

end

/-! ## Groups -/

section

variable {answer : Rule → List Token → List Tree → Action.Recital Bool} {ws' : List Token}
  {ts' : List Tree} {b : Bool}

/-- A tuple stays a tuple. -/
theorem isTuple_of_recount (h : recount production (.moreTupleValues true) ws ts =
    some (b, ws', ts')) : b = true := by
  refine Action.of_recount (P := fun r _ b _ => r = .moreTupleValues true → b = true) ?_ h rfl
  intro r ws
  by_cases hr : r = .moreTupleValues true
  · subst hr
    simp only [production, moreTupleValues, Action.comes_bind, comes_eat]
    split
    · simp only [if_true, Action.comes_bind, Action.comes_call]
      exact Action.comes_of_forall _ fun _ _ b ws' hb _ => hb trivial
    · simp
  · exact Action.comes_of_forall _ fun _ _ hr' => absurd hr' hr

/-- A group that is no tuple holds one value. -/
theorem group_of_recount (h : recount production (.moreTupleValues false) ws ts =
    some (false, ws', ts')) : ws' = ws ∧ ts' = ts := by
  rw [recount_eq, production, moreTupleValues, Action.recite_bind, recite_eat] at h
  split at h
  · simp only [Option.bind_eq_some_iff, Option.map_eq_some_iff] at h
    obtain ⟨r, ⟨x, hx, rfl⟩, h⟩ := h
    simp only [if_true, Action.recite_bind, Action.recite_call, Option.bind_eq_some_iff] at h
    obtain ⟨y, hy, hmore⟩ := h
    cases isTuple_of_recount hmore
  · simp at h
    exact ⟨h.1.symm, h.2.symm⟩

theorem exists_of_recite_expect {k : Kind} (hk : k ≠ .eof) {what : String} {u : Unit}
    (h : (expect k what).recite answer ws ts = some (u, ws', ts')) :
    ∃ w, ts' = ts ++ [.token w] := by
  cases ws with
  | nil => simp [expect, missing, hk.symm] at h
  | cons w ws =>
    rw [recite_expect] at h
    split at h
    · cases h
      exact ⟨w, rfl⟩
    · cases h

theorem exists_of_recite_declarationExpression {u : Unit}
    (h : declarationExpression.recite answer ws ts = some (u, ws', ts')) :
    ∃ parts, ts' = ts ++ [.node .declarationExpression parts] := by
  rw [declarationExpression, Action.recite_bind, Action.recite_skipTrivia, Option.bind_some,
    recite_node, Option.map_eq_some_iff] at h
  obtain ⟨⟨v, ws₁, parts⟩, -, heq⟩ := h
  cases heq
  exact ⟨parts, rfl⟩

/-- Where the grammar sees a declaration, it reads one in place of a value. -/
theorem recite_tupleValue_of_declares
    (h : atVarDesignation ws = true ∨ atTupleDeclaration ws = true)
    (hname : front ws = .identifier → front ws.tail ≠ .colon) :
    tupleValue.recite answer ws ts = declarationExpression.recite answer ws ts := by
  by_cases hk : front ws = .identifier
  · simp [tupleValue, hk, hname hk, h]
  · simp [tupleValue, hk, h]

/-- **Where one value stands between parentheses** as it is by itself, they open a group. -/
theorem OpensGroup.of_recite (h : ReadsBefore 0 ws [endOfText] e)
    (hrecite : operand.recite (recount production)
      (openParen :: (ws ++ [closeParen, endOfText])) [] = some ((), ws', [enclosedTree e])) :
    OpensGroup ws := by
  have hother {a : Step Unit} (ha : EndsIn (· ≠ .parenthesizedExpression) a) :
      a.recite (recount production) (openParen :: (ws ++ [closeParen, endOfText])) [] ≠
        some ((), ws', [enclosedTree e]) := by
    intro h
    obtain ⟨k, parts, hk, heq⟩ := ha.of_recite h
    exact hk (Tree.node.inj (List.head_eq_of_cons_eq heq)).1.symm
  have hopen : openParen.kind = .lParen := rfl
  rw [operand, Action.recite_bind, recite_current, Option.bind_some, Words.front_cons,
    hopen] at hrecite
  replace hrecite : parenOperand.recite (recount production)
      (openParen :: (ws ++ [closeParen, endOfText])) [] = some ((), ws', [enclosedTree e]) := hrecite
  simp only [parenOperand, Action.recite_bind, recite_ahead, Option.bind_some] at hrecite
  split at hrecite
  · exact absurd hrecite (hother (endsIn_lambdaExpression (by decide)))
  simp only [Action.recite_bind, recite_ahead, Option.bind_some] at hrecite
  split at hrecite
  · exact absurd hrecite (hother (by simp))
  rename_i hcast
  simp only [Action.recite_bind, Action.recite_take, Option.bind_some, Option.bind_eq_some_iff,
    Action.recite_call] at hrecite
  obtain ⟨⟨u, ws₁, ts₁⟩, hvalue, ⟨isTuple, ws₂, ts₂⟩, hmore, ⟨u', ws₃, ts₃⟩, hclose, hrecite⟩ :=
    hrecite
  obtain ⟨rfl, rfl⟩ : isTuple = false ∧ ts₃ = [.token openParen, e, .token closeParen] := by
    simp [enclosedTree] at hrecite
    cases isTuple <;> simp_all
  obtain ⟨rfl, rfl⟩ := group_of_recount hmore
  have hdeclares : ¬ (atVarDesignation (ws ++ [closeParen, endOfText]) = true ∨
      atTupleDeclaration (ws ++ [closeParen, endOfText]) = true) := by
    intro hdeclares
    rw [recite_tupleValue_of_declares hdeclares h.front_tail_enclosed] at hvalue
    obtain ⟨parts, rfl⟩ := exists_of_recite_declarationExpression hvalue
    obtain ⟨w, heq⟩ := exists_of_recite_expect (by decide) hclose
    -- The declaration would stand in place of the value, but the value is none.
    obtain rfl : e = .node .declarationExpression parts := (List.cons.inj (List.cons.inj heq).2).1
    exact h.kind_ne rfl
  rw [not_or, Bool.not_eq_true, Bool.not_eq_true, atVarDesignation_enclosed,
    atTupleDeclaration_enclosed] at hdeclares
  rw [Bool.not_eq_true, atCast_enclosed] at hcast
  exact ⟨hcast, hdeclares.1, hdeclares.2⟩

/-- **An expression between parentheses** is read as it is by itself if and only if they open a
group. -/
theorem readsBefore_enclosed_iff (h : ReadsBefore 0 ws [endOfText] e) (hclosing : Undeclared ws) :
    ReadsBefore 0 (openParen :: (ws ++ [closeParen])) [endOfText] (enclosedTree e) ↔
      OpensGroup ws := by
  have hwords : openParen :: (ws ++ [closeParen]) ++ [endOfText] =
      openParen :: (ws ++ [closeParen, endOfText]) := by
    rw [List.cons_append, List.append_assoc, List.singleton_append]
  rw [ReadsBefore, hwords]
  constructor
  · intro hread
    rw [recount_expression, Option.bind_eq_some_iff] at hread
    obtain ⟨⟨u, ws₁, ts₁⟩, hoperand, hread⟩ := hread
    obtain ⟨⟨b, ws₂, ts₂⟩, hoperators, heq⟩ := Option.map_eq_some_iff.mp hread
    obtain ⟨-, hrest⟩ := Prod.mk.inj heq
    obtain ⟨rfl, rfl⟩ : ws₂ = [endOfText] ∧ ts₂ = [enclosedTree e] := Prod.mk.inj hrest
    rcases recount_operators_cases hoperators with heq | ⟨k, parts, hk, heq⟩
    · obtain ⟨rfl, rfl⟩ : [endOfText] = ws₁ ∧ [enclosedTree e] = ts₁ := Prod.mk.inj heq
      exact .of_recite h hoperand
    · exact absurd (Tree.node.inj (List.head_eq_of_cons_eq heq)).1.symm hk.1
  · intro hgroup
    have hstops : Stops 0 [endOfText] := rfl
    rw [Term.recount_operand (recite_enclosed (h.enclosed hclosing) hgroup),
      recount_operators_of_stops hstops]
    rfl

end

/-! ## Texts -/

/-- The text between parentheses. -/
def enclosedText (source : String) : String := "(" ++ source ++ ")"

theorem stands_enclosedText {source : String} (h : Token.Stands source.toList ws) :
    Token.Stands (enclosedText source).toList (openParen :: (ws ++ [closeParen])) := by
  simpa [enclosedText] using h.enclosed

/-- **When parentheses are transparent**: a text that is read as the expression `e`, that does not
begin with a directive and does not end in what reaches to the end of its line, is read between
parentheses as `e` between parentheses if and only if the grammar finds neither a cast nor a
declaration behind the opening one.  No `(` or `,` inside of the text may stand in front of what the
closing parenthesis would make a declaration: `(a < b) > x` is a comparison only until one follows,
then `a < b) > x` is a type and a name. -/
theorem readsAs_enclosedText_iff {source : String} (h : ReadsAs 0 source e)
    (hfits : fitsBetween source = true) (hclosing : Undeclared (wordsOf source)) :
    ReadsAs 0 (enclosedText source) (enclosedTree e) ↔ OpensGroup (wordsOf source) := by
  have hstands := stands_enclosedText (h.stands hfits)
  rw [← readsBefore_enclosed_iff h.readsBefore hclosing]
  constructor
  · intro hread
    have hwords : wordsOf (enclosedText source) =
        openParen :: (wordsOf source ++ [closeParen]) := by
      obtain ⟨-, hwords⟩ := hstands.words
      rw [lex, List.filter_append] at hwords
      exact List.append_cancel_right hwords
    exact hwords ▸ hread.readsBefore
  · exact readsAs_of_stands hstands

/-- Between parentheses a sum of a call and a name is the sum. -/
theorem readsAs_enclosedText_sum :
    let name (x : String) : Tree := .node .nameExpression [.token ⟨.identifier, x⟩]
    let call : Tree := .node .invocationExpression
      [.node .memberAccessExpression [name "a", .token ⟨.dot, "."⟩, name "f"],
        .node .argumentList [.token openParen, .node .argument [name "b"], .token closeParen]]
    let sum : Tree := .node .binaryExpression [call, .token ⟨.plus, "+"⟩, name "c"]
    ReadsAs 0 "a.f(b) + c" sum ∧ fitsBetween "a.f(b) + c" = true ∧
      Undeclared (wordsOf "a.f(b) + c") ∧ OpensGroup (wordsOf "a.f(b) + c") ∧
      enclosedText "a.f(b) + c" = "(a.f(b) + c)" ∧
      ReadsAs 0 (enclosedText "a.f(b) + c") (enclosedTree sum) := by
  intro name call sum
  obtain ⟨hread, hfits, hclosing, hgroup⟩ : ReadsAs 0 "a.f(b) + c" sum ∧
      fitsBetween "a.f(b) + c" = true ∧ Undeclared (wordsOf "a.f(b) + c") ∧
      OpensGroup (wordsOf "a.f(b) + c") := by
    decide +kernel
  exact ⟨hread, hfits, hclosing, hgroup, rfl,
    (readsAs_enclosedText_iff hread hfits hclosing).mpr hgroup⟩

end Grammar

/-- Between parentheses `await x` is read as the declaration of a variable `x` of a type `await`. -/
theorem awaited_enclosed : (parseExpression "await x").isClean = true ∧
    .awaitExpression ∈ (parseExpression "await x").tree.kinds ∧
    (parseExpression "(await x)").isClean = true ∧
    .awaitExpression ∉ (parseExpression "(await x)").tree.kinds ∧
    .declarationExpression ∈ (parseExpression "(await x)").tree.kinds := by
  decide +kernel

end LivePatch
