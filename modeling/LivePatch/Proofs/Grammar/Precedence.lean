import LivePatch.Proofs.Grammar.Expressions
import LivePatch.Proofs.Grammar.Inert
import LivePatch.Proofs.Places
import LivePatch.Proofs.Progress

/-!
# Operators and their operands

Expressions are read with binding powers, and so what is read respects them.  The invariant of the
loop over operators: the one tree in the frame binds as tightly as asked for (`Tree.Binds`), and
what stands to the right of its operators ends where the loop goes on (`Tree.EndsAt`), since the
loop that read it found no operator there that binds tightly enough.  So the next operator, if
there is one, binds less tightly.
-/

namespace LivePatch

namespace Grammar

open Words (front firstTree)

/-- `Action.Wraps`, for the productions of the grammar. -/
abbrev Wraps {α : Type} (K : Kind → Prop) (a : Step α) : Prop :=
  Action.Wraps Rule.Wants Rule.Leaves K a

section

variable {α β : Type} {K : Kind → Prop}

@[simp ↓] theorem wraps_bind (a : Step β) (f : β → Step α) :
    Wraps K (a >>= f) ↔ Inert a ∧ ∀ v, Wraps K (f v) := Iff.rfl

@[simp ↓] theorem wraps_enclose (k : Kind) : Wraps K (Action.enclose k : Step _) ↔ K k := Iff.rfl

@[simp ↓] theorem wraps_ite (p : Prop) [Decidable p] (a b : Step α) :
    Wraps K (if p then a else b) ↔ if p then Wraps K a else Wraps K b := by
  split <;> rfl

end

/-! ## Binding powers -/

section

variable {power : Nat} {op : Kind} {b : Binding} {ws : List Token} {t : Tree}

theorem operatorStep?_of_binding? (hb : binding? op = some b) (named : Bool) :
    operatorStep? power op named = if b.left < power then none else some (binaryTail b) := by
  unfold operatorStep?
  split
  case h_13 => rw [hb]
  all_goals cases hb

/-- An operator that is not taken binds less tightly than asked for. -/
theorem left_lt_of_endsAt (h : Words.EndsAt power ws) (hb : binding? (front ws) = some b) :
    b.left < power := by
  rw [Words.EndsAt, operatorStep?_of_binding? hb] at h
  by_contra hle
  simp [hle] at h

theorem conditional_lt_of_endsAt (h : Words.EndsAt power ws) (hop : front ws = .question) :
    conditionalBinding.left < power := by
  rw [Words.EndsAt, hop] at h
  by_contra hle
  simp [operatorStep?, hle] at h

/-- Operators bind less tightly than a switch, and so than all prefixes. -/
theorem binding?_le_switchPower (hb : binding? op = some b) : b.left ≤ switchPower := by
  unfold binding? at hb
  split at hb
  iterate 19 (cases hb; decide)
  split at hb <;> cases hb
  decide

/-- A tree without operators may stand everywhere. -/
theorem binds_of_not_loose (hnode : t.isNode = true) (h : t.kind.isLoose = false) :
    t.Binds power := by
  refine ⟨hnode, ?_, fun hloose => absurd (h.symm.trans hloose) Bool.false_ne_true⟩
  rw [Tree.operators_of_not_isOperation (Bool.or_eq_false_iff.mp h).1]
  exact List.forall_mem_nil _

theorem endsAt_of_operators_eq_nil (h : t.operators = []) : t.EndsAt ws := by
  intro _
  rw [h]
  exact List.forall_mem_nil _

theorem not_loose_of_binds (h : t.Binds prefixPower) : t.kind.isLoose = false := by
  by_contra hloose
  exact absurd (h.loose (Bool.not_eq_false _ ▸ hloose)) (by decide)

end

/-! ## Patterns -/

section

variable {ws : List Token} {ts : List Tree} {U : Unit → List Token → List Tree → Prop}

theorem makes_nameExpression (h : ∀ ws' us, U () ws' (ts ++ [.node .nameExpression us])) :
    Makes nameExpression U ws ts := by
  rw [nameExpression, makes_bind, makes_skipTrivia]
  exact makes_node rfl (by simp) h

theorem makes_declarationExpression
    (h : ∀ ws' us, U () ws' (ts ++ [.node .declarationExpression us])) :
    Makes declarationExpression U ws ts := by
  rw [declarationExpression, makes_bind, makes_skipTrivia]
  exact makes_node rfl (by simp [Rule.startsAnew]) h

theorem makes_primaryPattern :
    Makes primaryPattern (fun _ _ ts' => ∃ u, Tree.isNode u = true ∧ ts' = ts ++ [u]) ws ts := by
  have hexpression : Makes (read (.expression shiftPower))
      (fun _ _ ts' => ∃ u, Tree.isNode u = true ∧ ts' = ts ++ [u]) ws ts :=
    (makes_read_expression _).mpr fun _ u hu _ => ⟨u, hu.isNode, rfl⟩
  rw [primaryPattern, makes_bind, makes_skipTrivia, makes_bind, makes_current, makes_ite]
  split
  · exact makes_node rfl (by simp [Rule.startsAnew]) fun _ us => ⟨_, rfl, rfl⟩
  rw [makes_bind, makes_ahead, makes_ite]
  split
  · exact makes_node rfl (by simp [Rule.startsAnew]) fun _ us => ⟨_, rfl, rfl⟩
  rw [makes_bind, makes_ahead, makes_ite]
  split
  · exact makes_nameExpression fun _ us => ⟨_, rfl, rfl⟩
  rw [makes_bind, makes_ahead, makes_ite]
  split
  · exact makes_declarationExpression fun _ us => ⟨_, rfl, rfl⟩
  rw [makes_ite]
  split
  · refine (makes_read _).mpr ⟨trivial, ?_⟩
    rintro _ _ ⟨us, hus⟩
    exact ⟨_, rfl, hus⟩
  · exact hexpression

/-- A connective stands between two patterns, and it is no operator. -/
theorem makes_patternOperators {u : Tree} (hu : u.isNode = true) :
    Makes patternOperators (fun _ _ ts' => ∃ v, Tree.isNode v = true ∧ ts' = [v]) ws [u] := by
  have hword : ∀ (text : String) {Q : Bool → List Token → List Tree → Prop},
      (∀ b, (b = true → front ws = .identifier) → Q b ws [u]) → Makes (seesWord text) Q ws [u] :=
    fun text Q hQ => hQ _ fun hb => beq_iff_eq.mp (Bool.and_eq_true_iff.mp hb).1
  rw [patternOperators, makes_bind]
  refine hword "and" fun b hb => ?_
  rw [makes_bind]
  refine hword "or" fun c hc => ?_
  rw [makes_ite]
  split
  case isFalse => exact ⟨u, hu, rfl⟩
  case isTrue hor =>
    have hfront : front ws = .identifier := (Bool.or_eq_true_iff.mp hor).elim hb hc
    obtain ⟨w, hw, hfirst⟩ := Words.firstTree_of_front hfront (by decide) rfl
    rw [makes_bind, makes_begins, makes_bind, makes_take, hfirst, makes_bind, makes_read]
    refine ⟨trivial, ?_⟩
    rintro ws' _ ⟨v, hv, rfl⟩
    rw [makes_bind, makes_enclose]
    intro us hus
    have hoperators := Tree.operators_binary hu hv (.inl rfl) hus
    rw [hw] at hoperators
    exact ⟨Tree.ordered_of_operators_eq_nil hoperators (absurd · Bool.false_ne_true),
      (makes_read _).mpr ⟨⟨_, rfl, rfl⟩, fun _ _ h => h⟩⟩

theorem makes_pattern :
    Makes pattern (fun _ _ ts' => ∃ u, Tree.isNode u = true ∧ ts' = ts ++ [u]) ws ts := by
  rw [pattern, makes_bind, makes_skipTrivia, makes_frame, makes_bind, makes_read]
  refine ⟨trivial, ?_⟩
  rintro ws' _ ⟨u, hu, rfl⟩
  refine (makes_read _).mpr ⟨⟨u, hu, rfl⟩, ?_⟩
  rintro ws'' _ ⟨v, hv, rfl⟩
  exact ⟨v, hv, rfl⟩

end

/-! ## Operands -/

/-- The frame has one node, and no operator in it can be torn apart. -/
def IsOperand (ts : List Tree) : Prop :=
  ∃ u : Tree, u.isNode = true ∧ u.kind.isLoose = false ∧ ts = [u]

/-- The nodes of this kind are operands whatever is in them. -/
def IsClosedKind (k : Kind) : Prop := k.isOrdinary = true ∧ k.isLoose = false

section

variable {ws : List Token} {ts : List Tree} {U : Unit → List Token → List Tree → Prop}

attribute [local simp] Rule.startsAnew

theorem makes_operand_of_wraps {a : Step Unit} (h : Wraps IsClosedKind a) :
    Makes a (fun _ _ ts' => IsOperand ts') ws ts :=
  Action.Wraps.makes (fun _ hk => hk.1) h fun _ _ k us hk =>
    ⟨.node k us, rfl, hk.2, rfl⟩

theorem wraps_single {k : Kind} (hk : IsClosedKind k) : Wraps IsClosedKind (single k) := by
  simp [single, hk]

theorem wraps_typeOperator {k : Kind} (hk : IsClosedKind k) :
    Wraps IsClosedKind (typeOperator k) := by
  simp [typeOperator, hk]

theorem wraps_newExpression : Wraps IsClosedKind newExpression := by
  simp only [newExpression, ↓wraps_bind, ↓inert_take, ↓inert_current, true_and]
  intro _ k
  split <;> simp +decide [IsClosedKind]

theorem wraps_lambdaExpression : Wraps IsClosedKind lambdaExpression := by
  simp +decide [lambdaExpression, IsClosedKind]

theorem wraps_missingOperand : Wraps IsClosedKind missingOperand := by
  simp +decide [missingOperand, IsClosedKind]

/-- The word in front of other trees is no operand. -/
theorem filter_firstTree : (firstTree ws).filter Tree.isNode = [] := by
  refine List.filter_eq_nil_iff.mpr fun t ht => ?_
  obtain ⟨w, -, rfl⟩ := List.mem_map.mp (Tree.mem_bare.mp ht).1
  exact Bool.false_ne_true

/-- Behind a prefix there is nothing that an operator holds together. -/
theorem ordered_prefixed {k : Kind} {us : List Tree} (hk : k.isOperation = false)
    (h : ∀ u ∈ (Tree.bare us).filter Tree.isNode, u.kind.isLoose = false) :
    (Tree.node k us).Ordered := by
  refine Tree.ordered_of_operators_eq_nil (Tree.operators_of_not_isOperation hk) fun _ => ?_
  rw [← Tree.operands_bare]
  exact h

theorem makes_prefixed {k : Kind} (hk : k.isOperation = false) (hloose : k.isLoose = false) :
    Makes (prefixed k) (fun _ _ ts' => IsOperand ts') ws [] := by
  rw [prefixed, makes_bind, makes_begins, makes_bind, makes_take, makes_bind,
    makes_read_expression]
  intro ws' u hu _ us hus
  refine ⟨ordered_prefixed hk ?_, .node k us, rfl, hloose, rfl⟩
  rw [hus, List.nil_append, List.filter_append, filter_firstTree]
  simpa [hu.isNode] using not_loose_of_binds hu

/-- Whether the word is there or not, it is no operand. -/
theorem makes_expect {k : Kind} {what : String}
    (h : ∀ ws' new, new.filter Tree.isNode = [] → U () ws' (ts ++ new)) :
    Makes (expect k what) U ws ts := by
  rw [expect, makes_bind, makes_sees, makes_ite]
  split
  · exact h _ _ filter_firstTree
  · rw [makes_missing, ← List.append_nil ts]
    exact h ws [] rfl

theorem makes_identifierOperand :
    Makes identifierOperand (fun _ _ ts' => IsOperand ts') ws [] := by
  simp only [identifierOperand, ↓makes_bind, ↓makes_ahead, ↓makes_ite]
  split
  · exact makes_operand_of_wraps wraps_lambdaExpression
  split
  · exact makes_operand_of_wraps wraps_lambdaExpression
  split
  · exact makes_declarationExpression fun _ us => ⟨_, rfl, rfl, rfl⟩
  split
  · exact makes_prefixed rfl rfl
  · exact makes_nameExpression fun _ us => ⟨_, rfl, rfl, rfl⟩

theorem makes_parenOperand : Makes parenOperand (fun _ _ ts' => IsOperand ts') ws [] := by
  rw [parenOperand, makes_bind, makes_ahead, makes_ite]
  split
  · exact makes_operand_of_wraps wraps_lambdaExpression
  rw [makes_bind, makes_ahead, makes_ite]
  split
  · -- A cast: the type stands between the parentheses, and the operand behind them.
    rw [makes_bind, makes_begins, makes_bind, makes_take, makes_bind, makes_type]
    intro _ ws' type
    rw [makes_bind]
    refine makes_expect fun ws'' new hnew => ?_
    rw [makes_bind, makes_read_expression]
    intro ws₃ u hu _ us hus
    refine ⟨ordered_prefixed rfl ?_, _, rfl, rfl, rfl⟩
    intro v hv
    rw [hus] at hv
    simp only [List.filter_append, filter_firstTree, hnew] at hv
    have hoperand : v = .node .type type ∨ v = u := by
      rcases List.mem_append.mp hv with hv | hv
      · exact .inl (List.mem_singleton.mp (List.mem_of_mem_filter (by simpa using hv)))
      · exact .inr (List.mem_singleton.mp (List.mem_of_mem_filter hv))
    rcases hoperand with rfl | rfl
    · rfl
    · exact not_loose_of_binds hu
  · refine makes_operand_of_wraps ?_
    simp +decide [IsClosedKind]

theorem makes_operand : Makes operand (fun _ _ ts' => IsOperand ts') ws [] := by
  rw [operand, makes_bind, makes_current, makes_ite]
  split
  · exact makes_operand_of_wraps (wraps_single ⟨rfl, rfl⟩)
  rw [makes_ite]
  split
  · exact makes_operand_of_wraps (wraps_single ⟨rfl, rfl⟩)
  split
  case h_21 => exact makes_identifierOperand
  case h_22 => exact makes_parenOperand
  case h_3 => exact makes_operand_of_wraps wraps_newExpression
  case h_10 => exact makes_operand_of_wraps wraps_lambdaExpression
  case h_1 | h_2 => exact makes_operand_of_wraps (wraps_single ⟨rfl, rfl⟩)
  case h_4 | h_5 => exact makes_operand_of_wraps (wraps_typeOperator ⟨rfl, rfl⟩)
  case h_6 | h_7 | h_8 | h_9 =>
    refine makes_operand_of_wraps ?_
    simp +decide [IsClosedKind]
  case h_23 => exact makes_operand_of_wraps wraps_missingOperand
  all_goals exact makes_prefixed rfl rfl

/-! ## Operators -/

variable {power : Nat} {u : Tree}

/-- A tree that binds as asked for and ends where the words ahead begin is all there is. -/
abbrev Stands (power : Nat) (ws : List Token) (ts : List Tree) : Prop :=
  (Rule.operators power).Wants ws ts

theorem stands_of_isOperand (h : IsOperand ts) : Stands power ws ts := by
  obtain ⟨u, hnode, hloose, rfl⟩ := h
  have hoperators := Tree.operators_of_not_isOperation (Bool.or_eq_false_iff.mp hloose).1
  exact ⟨u, binds_of_not_loose hnode hloose, endsAt_of_operators_eq_nil hoperators, rfl⟩

/-- An operator that is taken binds less tightly to its left than what stands there does to its
right; and what is read behind it binds at least as tightly as it does. -/
theorem makes_binaryTail {b : Binding} (hb : binding? (front ws) = some b) (hpower : power ≤ b.left)
    (hu : u.isNode = true) (hends : u.EndsAt ws) :
    Makes (binaryTail b) (fun _ ws' ts' => Stands power ws' ts') ws [u] := by
  have hkind := binding_kind hb
  have hfront : front ws ≠ .eof ∧ (front ws).isTrivia = false := by
    refine ⟨fun h => ?_, ?_⟩
    · rw [h] at hb
      cases hb
    · by_contra htrivia
      rw [Tree.binding?_of_isTrivia (w := ⟨front ws, ""⟩) (Bool.not_eq_false _ ▸ htrivia)] at hb
      cases hb
  obtain ⟨w, hw, hfirst⟩ := Words.firstTree_of_front rfl hfront.1 hfront.2
  -- The right side, whichever way it is read.
  have hmade : ∀ (v : Tree) (ws' : List Token), v.isNode = true →
      (∀ c ∈ v.operators, b.right ≤ c.left) →
      (v.kind ≠ .initializerExpression → Words.EndsAt b.right ws') →
      ∀ us, Tree.bare us = [u, .token w, v] →
        (Tree.node b.kind us).Ordered ∧ Stands power ws' [.node b.kind us] := by
    intro v ws' hv hright hbehind us hus
    have hoperators := Tree.operators_binary hu hv hkind hus
    rw [hw, hb] at hoperators
    have hoperands := Tree.operands_binary (k := b.kind) hu hv hus
    have hbraced := Tree.isBraced_of_operands (m := [u]) hoperands
    have hprefixed : b.kind.isPrefixed = false := by
      rcases hkind with h | h <;> rw [h] <;> rfl
    constructor
    · refine Tree.ordered_of_operands (m := []) hprefixed hoperands ?_ ?_
      · rw [hoperators]
        exact List.forall_mem_singleton.mpr hright
      · rw [hoperators]
        intro hopen
        refine List.forall_mem_singleton.mpr fun c hc => ?_
        exact left_lt_of_endsAt (hends hopen c hc) hb
    · refine ⟨.node b.kind us, ⟨rfl, ?_, fun _ => ?_⟩, ?_, rfl⟩
      · rw [hoperators]
        exact List.forall_mem_singleton.mpr hpower
      · exact hpower.trans (binding?_le_switchPower hb)
      · intro hopen
        rw [hbraced, beq_eq_false_iff_ne] at hopen
        rw [hoperators]
        exact List.forall_mem_singleton.mpr (hbehind hopen)
  rw [binaryTail, makes_bind, makes_begins, makes_bind, makes_take, hfirst, makes_bind, makes_sees,
    makes_ite]
  split
  · rw [makes_bind, makes_read_initializer]
    exact fun ws' us => hmade _ ws' rfl (List.forall_mem_nil _) fun hne => absurd rfl hne
  · rw [makes_bind, makes_read_expression]
    exact fun ws' v hv hbehind => hmade v ws' hv.isNode hv.left fun _ => hbehind

theorem makes_conditionalTail (hop : front ws = .question) (hpower : power ≤ conditionalBinding.left)
    (hu : u.isNode = true) (hends : u.EndsAt ws) :
    Makes conditionalTail (fun _ ws' ts' => Stands power ws' ts') ws [u] := by
  rw [conditionalTail, makes_bind, makes_begins, makes_bind, makes_take, makes_bind,
    makes_expression]
  intro ws₁ a ha _
  rw [makes_bind]
  refine makes_expect fun ws₂ new hnew => ?_
  rw [makes_bind, makes_read_expression]
  intro ws₃ v hv hbehind us hus
  have hoperands : (Tree.node .conditionalExpression us).operands = u :: ([a] ++ [v]) := by
    rw [← Tree.operands_bare, hus, Tree.operands, Tree.children]
    simp [filter_firstTree, hnew, hu, ha.isNode, hv.isNode]
  have hbraced := Tree.isBraced_of_operands (m := [u, a]) hoperands
  constructor
  · refine Tree.ordered_of_operands rfl hoperands ?_ ?_
    · exact List.forall_mem_singleton.mpr hv.left
    · intro hopen
      refine List.forall_mem_singleton.mpr fun c hc => ?_
      exact conditional_lt_of_endsAt (hends hopen c hc) hop
  · refine ⟨_, ⟨rfl, ?_, fun _ => hpower.trans (by decide)⟩, fun _ => ?_, rfl⟩
    · exact List.forall_mem_singleton.mpr hpower
    · exact List.forall_mem_singleton.mpr hbehind

/-- A type test or conversion binds like a comparison, but its right side is no operand. -/
theorem makes_typeTestTail {op : Kind} (hop : front ws = op) (hkind : op = .isKw ∨ op = .asKw)
    (hpower : power ≤ relationalPower) (hu : u.isNode = true) :
    Makes (typeTestTail op) (fun _ ws' ts' => Stands power ws' ts') ws [u] := by
  obtain ⟨w, hw, hfirst⟩ := Words.firstTree_of_front hop
    (by rcases hkind with rfl | rfl <;> decide) (by rcases hkind with rfl | rfl <;> rfl)
  have hnone : binding? w.kind = none := by rcases hkind with rfl | rfl <;> rw [hw] <;> rfl
  have hmade : ∀ (v : Tree) (ws' : List Token), v.isNode = true →
      ∀ us, Tree.bare us = [u, .token w, v] →
        (Tree.node .binaryExpression us).Ordered ∧ Stands power ws' [.node .binaryExpression us] := by
    intro v ws' hv us hus
    have hoperators := Tree.operators_binary hu hv (.inl rfl) hus
    rw [hnone] at hoperators
    refine ⟨Tree.ordered_of_operators_eq_nil hoperators (absurd · Bool.false_ne_true), _,
      ⟨rfl, ?_, fun _ => hpower.trans (by decide)⟩, endsAt_of_operators_eq_nil hoperators, rfl⟩
    rw [hoperators]
    exact List.forall_mem_nil _
  rw [typeTestTail, makes_bind, makes_begins, makes_bind, makes_take, hfirst]
  dsimp only
  rw [makes_ite]
  split
  · rw [makes_bind, makes_read]
    refine ⟨trivial, ?_⟩
    rintro ws' _ ⟨v, hv, rfl⟩
    exact hmade v ws' hv
  · rw [makes_bind, makes_read]
    refine ⟨trivial, ?_⟩
    rintro ws' _ ⟨us, rfl⟩
    exact hmade _ ws' rfl

theorem makes_switchTail (hpower : power ≤ switchPower) :
    Makes switchTail (fun _ ws' ts' => Stands power ws' ts') ws ts := by
  have hwraps : Wraps (· = .switchExpression) switchTail := by simp [switchTail]
  refine Action.Wraps.makes (by rintro k rfl; rfl) hwraps ?_
  rintro _ ws' _ us rfl
  exact ⟨_, ⟨rfl, List.forall_mem_nil _, fun _ => hpower⟩, endsAt_of_operators_eq_nil rfl, rfl⟩

/-- **Each operator stands where it may.** -/
theorem makes_operatorStep {named : Bool} {step : Step Unit}
    (hstep : operatorStep? power (front ws) named = some step)
    (hu : u.isNode = true) (hends : u.EndsAt ws) :
    Makes step (fun _ ws' ts' => Stands power ws' ts') ws [u] := by
  have hwrapped : Wraps IsClosedKind step →
      Makes step (fun _ ws' ts' => Stands power ws' ts') ws [u] :=
    fun h => (makes_operand_of_wraps h).mono fun _ _ _ => stands_of_isOperand
  unfold operatorStep? at hstep
  split at hstep <;> rename_i hop
  case h_13 =>
    split at hstep
    · rename_i b hb
      split at hstep <;> cases hstep
      exact makes_binaryTail hb (Nat.le_of_not_lt ‹_›) hu hends
    · cases hstep
  case h_9 =>
    split at hstep <;> cases hstep
    exact makes_switchTail (Nat.le_of_not_lt ‹_›)
  case h_10 =>
    split at hstep <;> cases hstep
    exact makes_typeTestTail rfl (.inl hop) (Nat.le_of_not_lt ‹_›) hu
  case h_11 =>
    split at hstep <;> cases hstep
    exact makes_typeTestTail rfl (.inr hop) (Nat.le_of_not_lt ‹_›) hu
  case h_12 =>
    split at hstep <;> cases hstep
    exact makes_conditionalTail hop (Nat.le_of_not_lt ‹_›) hu hends
  case h_2 | h_3 | h_4 =>
    split at hstep <;> cases hstep
    exact hwrapped (by simp +decide [IsClosedKind])
  all_goals
    cases hstep
    exact hwrapped (by simp +decide [IsClosedKind, single])

theorem makes_operators (h : Stands power ws ts) :
    Makes (operators power)
      (fun _ ws' ts' => ∃ u, Tree.Binds power u ∧ Words.EndsAt power ws' ∧ ts' = [u]) ws ts := by
  obtain ⟨u, hbinds, hends, rfl⟩ := h
  rw [operators, makes_bind, makes_current, makes_bind, makes_ahead]
  split
  case h_1 hnone => exact ⟨u, hbinds, hnone, rfl⟩
  case h_2 step hstep =>
    rw [makes_bind]
    refine (makes_operatorStep hstep hbinds.isNode hends).mono fun _ ws' ts' hstands => ?_
    exact (makes_read _).mpr ⟨hstands, fun _ _ h => h⟩

theorem makes_expressionProduction (power : Nat) :
    Makes (expressionProduction power)
      (fun _ ws' ts' => ∃ u, Tree.Binds power u ∧ Words.EndsAt power ws' ∧ ts' = ts ++ [u])
      ws ts := by
  rw [expressionProduction, makes_bind, makes_skipTrivia, makes_frame, makes_bind]
  refine makes_operand.mono fun _ ws' ts' hoperand => ?_
  refine (makes_read _).mpr ⟨stands_of_isOperand hoperand, ?_⟩
  rintro ws'' _ ⟨u, hu, hends, rfl⟩
  exact ⟨u, hu, hends, rfl⟩

end

/-! ## All productions -/

section

variable {ws : List Token} {ts : List Tree}

theorem makes_of_inert {step : Step Unit} (h : Inert step) :
    Makes (silently step) (fun _ _ _ => True) ws ts :=
  have hinert : Inert (silently step) := ⟨h, fun _ => trivial⟩
  hinert.makes fun _ _ _ => trivial

theorem makes_typeProduction (inExpression : Bool) :
    Makes (typeProduction inExpression) (fun _ _ ts' => ∃ us, ts' = ts ++ [.node .type us]) ws ts := by
  rw [typeProduction, makes_bind, makes_skipTrivia, makes_frame, makes_bind, makes_begins,
    makes_bind]
  refine Inert.makes inert_typeHead fun _ ws' us => (makes_bind _ _).mpr ((makes_call _).mpr ?_)
  exact ⟨trivial, fun _ _ _ _ vs _ => ⟨Tree.ordered_of_isOrdinary rfl vs, vs, rfl⟩⟩

theorem makes_initializer :
    Makes initializer (fun _ _ ts' => ∃ us, ts' = ts ++ [.node .initializerExpression us]) ws ts := by
  rw [initializer, makes_bind, makes_skipTrivia]
  exact makes_node rfl (by simp [Rule.startsAnew]) fun _ us => ⟨us, rfl⟩

/-- **Every production makes ordered nodes.** -/
theorem makes_production (r : Rule) (ws : List Token) (ts : List Tree) (h : r.Wants ws ts) :
    Makes (production r) (fun _ ws' ts' => r.Leaves ts ws' ts') ws ts := by
  cases r with
  | type inExpression => exact makes_typeProduction inExpression
  | initializer => exact makes_initializer
  | expression power => exact makes_expressionProduction power
  | operators power => exact makes_operators h
  | pattern => exact makes_pattern
  | primaryPattern => exact makes_primaryPattern
  | patternOperators =>
    obtain ⟨u, hu, rfl⟩ := h
    exact makes_patternOperators hu
  | typeSuffixes inExpression isArray =>
    have hinert : Inert (typeSuffixes inExpression isArray) := by
      simp [typeSuffixes, Rule.startsAnew]
    exact hinert.makes fun _ _ _ => trivial
  | moreTupleValues isTuple =>
    exact (inert_moreTupleValues isTuple).makes fun _ _ _ => trivial
  | declaredType => exact makes_of_inert inert_declaredType
  | namespaceMembers braced => exact makes_of_inert (inert_namespaceMembers braced)
  | namespaceDeclaration => exact makes_of_inert inert_namespaceDeclaration
  | typeDeclaration => exact makes_of_inert inert_typeDeclaration
  | typeParameters => exact makes_of_inert inert_typeParameters
  | attributeLists => exact makes_of_inert inert_attributeLists
  | baseTypes => exact makes_of_inert inert_baseTypes
  | constraintClauses => exact makes_of_inert inert_constraintClauses
  | constraints => exact makes_of_inert inert_constraints
  | enumMembers => exact makes_of_inert inert_enumMembers
  | typeMembers => exact makes_of_inert inert_typeMembers
  | member => exact makes_of_inert inert_member
  | skipTo boundary => exact makes_of_inert (inert_skipTo boundary)
  | dottedSegments => exact makes_of_inert inert_dottedSegments
  | accessors => exact makes_of_inert inert_accessors
  | modifierWords => exact makes_of_inert inert_modifierWords
  | attributes => exact makes_of_inert inert_attributes
  | nameSegments => exact makes_of_inert inert_nameSegments
  | parameters close => exact makes_of_inert (inert_parameters close)
  | parameterModifierWords => exact makes_of_inert inert_parameterModifierWords
  | arguments close => exact makes_of_inert (inert_arguments close)
  | designation => exact makes_of_inert inert_designation
  | designated => exact makes_of_inert inert_designated
  | block => exact makes_of_inert inert_block
  | statements => exact makes_of_inert inert_statements
  | statement => exact makes_of_inert inert_statement
  | localModifierWords => exact makes_of_inert inert_localModifierWords
  | moreDeclarators => exact makes_of_inert inert_moreDeclarators
  | switchSections => exact makes_of_inert inert_switchSections
  | switchLabels => exact makes_of_inert inert_switchLabels
  | sectionStatements => exact makes_of_inert inert_sectionStatements
  | expressionList => exact makes_of_inert inert_expressionList
  | catchClauses => exact makes_of_inert inert_catchClauses
  | tupleElements => exact makes_of_inert inert_tupleElements
  | typeNameTail => exact makes_of_inert inert_typeNameTail
  | commas => exact makes_of_inert inert_commas
  | typeArguments => exact makes_of_inert inert_typeArguments
  | arrayRanks => exact makes_of_inert inert_arrayRanks
  | initializerElements => exact makes_of_inert inert_initializerElements
  | lambdaParameters => exact makes_of_inert inert_lambdaParameters
  | switchArms => exact makes_of_inert inert_switchArms

end

/-! ## Both ways to read a text -/

/-- A reading from the start of a text leaves ordered trees. -/
theorem wellOrdered_of_finishes {step : Step Unit} {source : String} {p : Parsed}
    (hfinishes : Finishes step source p) (hstep : Inert step) : p.tree.WellOrdered := by
  obtain ⟨last, ⟨depth, hdoes⟩, -, hbuilt, -⟩ := hfinishes.reads
  have hstart : (ReadState.start (lex source)).WellOrdered :=
    ⟨(ReadState.orderly_start source).trivia, List.forall_mem_nil _⟩
  have hlast := (Action.wellOrdered_of_complete
    (Action.ordering_completeRule makes_production depth) step hstart hdoes
    (hstep.makes (Q := fun _ _ _ => True) fun _ _ _ => trivial)).1
  exact hlast.built _ (hbuilt ▸ List.mem_cons_self)

theorem wellOrdered_parse (source : String) : (parse source).tree.WellOrdered :=
  wellOrdered_of_finishes (finishes_parse source) inert_compilationUnit

theorem wellOrdered_parseExpression (source : String) : (parseExpression source).tree.WellOrdered :=
  wellOrdered_of_finishes (finishes_parseExpression source) inert_expressionFragment

end Grammar

theorem Site.Around.wellOrdered {t : Tree} {n : Site} (h : (Site.root t).Around n)
    (ht : t.WellOrdered) : n.tree.WellOrdered := by
  generalize hroot : Site.root t = s at h
  induction h with
  | refl =>
    rw [← hroot]
    exact ht
  | @part b p _ hp ih =>
    have hmem := tree_mem_of_mem_parts hp
    cases hb : b.tree with
    | token w => simp [hb, Tree.children] at hmem
    | node k ts =>
      rw [hb] at ih hmem
      cases ih with
      | node _ hts => exact hts p.tree hmem

/-- **Operator trees respect precedence and associativity.**  Whatever the text and whichever way it
is read, no operand of a node is torn apart by the operator of the node. -/
theorem operators_ordered {source : String} {n : Site}
    (h : n ∈ (Site.root (parse source).tree).descendants ∨
      n ∈ (Site.root (parseExpression source).tree).descendants) : n.tree.Ordered := by
  rcases h with h | h
  · obtain ⟨haround, hnode⟩ := Site.mem_descendants.mp h
    exact (haround.wellOrdered (Grammar.wellOrdered_parse source)).ordered hnode
  · obtain ⟨haround, hnode⟩ := Site.mem_descendants.mp h
    exact (haround.wellOrdered (Grammar.wellOrdered_parseExpression source)).ordered hnode

/-- In `a - b - c * d` the first difference is subtracted from and the product is subtracted. -/
theorem operators_ordered_differences :
    ∃ n ∈ (Site.root (parseExpression "a - b - c * d").tree).descendants,
      n.tree.operators = [⟨21, 22, .binaryExpression⟩] ∧
      n.tree.operands.map Tree.operators =
        [[⟨21, 22, .binaryExpression⟩], [⟨23, 24, .binaryExpression⟩]] ∧ n.tree.Ordered := by
  have hfound : (Site.root (parseExpression "a - b - c * d").tree).descendants.any (fun n =>
      n.tree.operators == [⟨21, 22, .binaryExpression⟩] && n.tree.operands.map Tree.operators ==
        [[⟨21, 22, .binaryExpression⟩], [⟨23, 24, .binaryExpression⟩]]) = true := by
    decide +kernel
  obtain ⟨n, hn, hoperators⟩ := List.any_eq_true.mp hfound
  rw [Bool.and_eq_true, beq_iff_eq, beq_iff_eq] at hoperators
  exact ⟨n, hn, hoperators.1, hoperators.2, operators_ordered (.inr hn)⟩

end LivePatch
