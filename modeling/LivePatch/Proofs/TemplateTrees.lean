import LivePatch.Proofs.Cutting.Templates
import LivePatch.Proofs.Progress
import LivePatch.Proofs.Recitals
import LivePatch.Proofs.Views

/-!
# The trees of templates

The templates of the passes over static fields and over `this` are read back as expressions, so it
has to be seen that they are some.  Here each of them is recited, for whatever names stand in it:
reading succeeds, and the tree is known but for the blanks between type arguments.
-/

namespace LivePatch

open Words (front frontText)

/-! ## Steps -/

namespace Grammar

open LivePatch.Action (recite reciteRule Recital)

variable {answer : Rule → List Token → List Tree → Recital Bool} {ws : List Token}
  {ts : List Tree}

@[simp] theorem recite_read (r : Rule) :
    (read r).recite answer ws ts = (answer r ws ts).map fun x => ((), x.2.1, x.2.2) := by
  rw [read, Action.recite_bind, Action.recite_call]
  cases answer r ws ts <;> rfl

@[simp] theorem recite_ahead {α : Type} (decide : List Token → α) [Scanned decide] :
    (ahead decide).recite answer ws ts = some (decide ws, ws, ts) :=
  Action.recite_look decide inferInstance

@[simp] theorem recite_current : current.recite answer ws ts = some (front ws, ws, ts) := by
  simp [current]

@[simp] theorem recite_sees (k : Kind) :
    (sees k).recite answer ws ts = some (front ws == k, ws, ts) := by
  simp [sees]

@[simp] theorem recite_seesWord (text : String) :
    (seesWord text).recite answer ws ts =
      some (front ws == .identifier && Words.frontText ws == text, ws, ts) := by
  rw [seesWord, Action.recite_bind, recite_current, Option.bind_some, recite_ahead]

@[simp] theorem recite_begins (k : Kind) :
    (begins k).recite answer ws ts = some ((), ws, ts) := by
  rw [begins, Action.recite]

/-- Behind the node of a name or a list the reading goes on with what was built before. -/
@[simp] theorem recite_node (k : Kind) (body : Step Unit) :
    (node k body).recite answer ws ts =
      (body.recite answer ws []).map fun x => ((), x.2.1, ts ++ [.node k x.2.2]) := by
  rw [node, Action.recite_frame, Action.recite_bind, recite_begins, Option.bind_some,
    Action.recite_bind]
  cases body.recite answer ws [] <;> simp

@[simp] theorem recite_silently (step : Step Unit) :
    (silently step).recite answer ws ts =
      (step.recite answer ws ts).map fun x => (false, x.2.1, x.2.2) := by
  rw [silently, Action.recite_bind]
  cases step.recite answer ws ts <;> simp

@[simp] theorem recite_expect {w : Token} (k : Kind) (what : String) :
    (expect k what).recite answer (w :: ws) ts =
      if w.kind = k then some ((), ws, ts ++ [.token w]) else none := by
  by_cases h : w.kind = k
  · simp [expect, h]
  · simp [expect, h, missing]

@[simp] theorem recite_eat {k : Kind} :
    (eat k).recite answer ws ts =
      if front ws = k then (Action.take.recite answer ws ts).map fun x => (true, x.2.1, x.2.2)
      else some (false, ws, ts) := by
  rw [eat, Action.recite_bind, recite_sees]
  by_cases h : front ws = k
  · simp [h]
    cases Action.take.recite answer ws ts <;> simp
  · simp [h]

/-! ## Types -/

/-- A word that stands behind a name of a type in a template. -/
def EndsTypeName (w : Token) : Prop := w.kind = .comma ∨ w.kind = .greater ∨ w.kind = .rParen

/-- The tree of a type that is a name, with the given parts. -/
def namedType (parts : List Tree) : Tree := .node .type [.node .namedType parts]

variable {depth : Nat} {w : Token}

theorem recite_typeNameTail (hd : 1 ≤ depth) (hw : EndsTypeName w) :
    reciteRule production depth .typeNameTail (w :: ws) ts = some (false, w :: ws, ts) := by
  obtain ⟨n, rfl⟩ := Nat.exists_eq_add_of_le' hd
  rw [reciteRule, production, recite_silently, typeNameTail]
  rcases hw with hw | hw | hw <;> simp [hw, Words.isNameSeparator]

theorem recite_typeSuffixes (hd : 1 ≤ depth) (hw : EndsTypeName w) (inExpression isArray : Bool) :
    reciteRule production depth (.typeSuffixes inExpression isArray) (w :: ws) ts =
      some (isArray, w :: ws, ts) := by
  obtain ⟨n, rfl⟩ := Nat.exists_eq_add_of_le' hd
  rw [reciteRule, production, typeSuffixes]
  rcases hw with hw | hw | hw <;> simp [hw, atArrayRank, Words.isAt, Words.kindAt]

theorem recite_type {t : Token} (hd : 2 ≤ depth) (ht : t.kind = .identifier)
    (hw : EndsTypeName w) (inExpression : Bool) :
    reciteRule production depth (.type inExpression) (t :: w :: ws) ts =
      some (false, w :: ws, ts ++ [namedType [.token t]]) := by
  obtain ⟨n, rfl⟩ := Nat.exists_eq_add_of_le' hd
  rw [reciteRule, production, typeProduction]
  simp [typeHead, ht, Kind.isPredefinedType, recite_typeNameTail _ hw, recite_typeSuffixes _ hw,
    namedType]

/-! ## Type arguments -/

open Token (closeParen closingAngle comma dot object openAngle openParen this)

/-- The words of a list of names. -/
def listWords : Token → List Token → List Token
  | t, [] => [t]
  | t, u :: us => t :: comma :: listWords u us

/-- The trees of a list of types that are names. -/
def listTrees : Token → List Token → List Tree
  | t, [] => [namedType [.token t]]
  | t, u :: us => namedType [.token t] :: .token comma :: listTrees u us

theorem recite_typeArguments {t : Token} {us : List Token} (hd : us.length + 3 ≤ depth)
    (h : ∀ v ∈ t :: us, v.kind = .identifier) :
    reciteRule production depth .typeArguments (listWords t us ++ closingAngle :: ws) ts =
      some (false, closingAngle :: ws, ts ++ listTrees t us) := by
  induction us generalizing t ts depth with
  | nil =>
    obtain ⟨n, rfl⟩ : ∃ n, depth = n + 3 := Nat.exists_eq_add_of_le' hd
    obtain ⟨ht, -⟩ := List.forall_mem_cons.mp h
    have hend : EndsTypeName closingAngle := .inr (.inl rfl)
    rw [reciteRule, production, recite_silently, typeArguments]
    simp [listWords, listTrees, ht, type, recite_type _ ht hend]
    rfl
  | cons u us ih =>
    obtain ⟨n, rfl⟩ : ∃ n, depth = n + 1 := ⟨depth - 1, by omega⟩
    rw [List.length_cons] at hd
    obtain ⟨ht, hus⟩ := List.forall_mem_cons.mp h
    have hend : EndsTypeName comma := .inl rfl
    have hcomma : comma.kind = .comma := rfl
    have htype : ∀ ws ts, reciteRule production n (.type false) (t :: comma :: ws) ts = _ :=
      fun _ _ => recite_type (by omega) ht hend false
    have hrest : ∀ ts, reciteRule production n .typeArguments
        (listWords u us ++ closingAngle :: ws) ts = _ := fun ts => ih (by omega) hus
    rw [reciteRule, production, recite_silently, typeArguments]
    simp [listWords, listTrees, ht, type, htype, hcomma, hrest]

/-- The tree of a list of type arguments. -/
def argumentsTree (t : Token) (us : List Token) : Tree :=
  .node .typeArgumentList (.token openAngle :: (listTrees t us ++ [.token closingAngle]))

theorem recite_typeArgumentList {t : Token} {us : List Token} (hd : us.length + 3 ≤ depth)
    (h : ∀ v ∈ t :: us, v.kind = .identifier) :
    typeArgumentList.recite (reciteRule production depth)
        (openAngle :: (listWords t us ++ closingAngle :: ws)) ts =
      some ((), ws, ts ++ [argumentsTree t us]) := by
  have hopen : openAngle.kind = .less := rfl
  have hclose : closingAngle.kind = .greater := rfl
  simp [typeArgumentList, hopen, recite_typeArguments hd h, expectClosingAngle, hclose,
    argumentsTree]

/-! ## Names with type arguments -/

/-- The words of a name with type arguments, if there are any. -/
def qualifierWords (t : Token) : List Token → List Token
  | [] => [t]
  | u :: us => t :: openAngle :: (listWords u us ++ [closingAngle])

/-- The parts of such a name. -/
def qualifierParts (t : Token) : List Token → List Tree
  | [] => [.token t]
  | u :: us => [.token t, argumentsTree u us]

variable {t : Token} {us : List Token}

theorem recite_typeOfQualifier (hd : us.length + 4 ≤ depth) (ht : t.kind = .identifier)
    (hus : ∀ u ∈ us, u.kind = .identifier) (inExpression : Bool) :
    reciteRule production depth (.type inExpression) (qualifierWords t us ++ closeParen :: ws) ts =
      some (false, closeParen :: ws, ts ++ [namedType (qualifierParts t us)]) := by
  have hend : EndsTypeName closeParen := .inr (.inr rfl)
  cases us with
  | nil => exact recite_type (by simp at hd; omega) ht hend inExpression
  | cons u us =>
    rw [List.length_cons] at hd
    obtain ⟨n, rfl⟩ : ∃ n, depth = n + 2 := ⟨depth - 2, by omega⟩
    have hclose : closeParen.kind = .rParen := rfl
    have hopen : openAngle.kind = .less := rfl
    have harguments : us.length + 3 ≤ n := by omega
    have htail : reciteRule production (n + 1) .typeNameTail
        (openAngle :: (listWords u us ++ closingAngle :: closeParen :: ws)) [.token t] =
          some (false, closeParen :: ws, qualifierParts t (u :: us)) := by
      rw [reciteRule, production, recite_silently, typeNameTail]
      simp [hopen, hclose, recite_typeArgumentList harguments hus, Words.isNameSeparator,
        qualifierParts]
    rw [reciteRule, production, typeProduction]
    simp [typeHead, ht, Kind.isPredefinedType, qualifierWords, htail, recite_typeSuffixes _ hend,
      namedType]

/-! ## What is ahead -/

theorem closeAngles_listWords (h : ∀ v ∈ t :: us, v.kind = .identifier) :
    Words.closeAngles 1 (listWords t us ++ closingAngle :: ws) = some ws := by
  induction us generalizing t with
  | nil =>
    obtain ⟨ht, -⟩ := List.forall_mem_cons.mp h
    simp [listWords, Words.closeAngles, ht, Words.isTypeArgumentWord, closingAngle]
  | cons u us ih =>
    obtain ⟨ht, hus⟩ := List.forall_mem_cons.mp h
    simp [listWords, Words.closeAngles, ht, Words.isTypeArgumentWord, comma, ih hus]

theorem skipParens_listWords (h : ∀ v ∈ t :: us, v.kind = .identifier) (open_ : Nat) :
    Words.skipParens open_ (listWords t us ++ ws) = Words.skipParens open_ ws := by
  induction us generalizing t with
  | nil =>
    obtain ⟨ht, -⟩ := List.forall_mem_cons.mp h
    simp [listWords, Words.skipParens, ht]
  | cons u us ih =>
    obtain ⟨ht, hus⟩ := List.forall_mem_cons.mp h
    simp [listWords, Words.skipParens, ht, comma, ih hus]

theorem skipParens_qualifierWords (ht : t.kind = .identifier)
    (hus : ∀ u ∈ us, u.kind = .identifier) (open_ : Nat) :
    Words.skipParens open_ (qualifierWords t us ++ ws) = Words.skipParens open_ ws := by
  cases us with
  | nil => simp [qualifierWords, Words.skipParens, ht]
  | cons u us =>
    simp [qualifierWords, Words.skipParens, ht, openAngle, closingAngle, skipParens_listWords hus]

theorem skipTypeSuffixes_closeParen :
    Words.skipTypeSuffixes (closeParen :: ws) = closeParen :: ws := by
  rw [Words.skipTypeSuffixes]
  simp [closeParen]

/-- A parenthesis closes the segments of a name. -/
theorem skipNameTail_of_closeParen {vs : List Token}
    (h : Words.afterTypeArguments vs = some (closeParen :: ws)) :
    Words.skipNameTail vs = closeParen :: ws := by
  rw [Words.skipNameTail]
  split
  · rename_i hnone
    rw [h] at hnone
    cases hnone
  · rename_i hnil
    rw [h] at hnil
    cases hnil
  · rename_i hone
    rw [h] at hone
    exact (Option.some.inj hone).symm
  · rename_i sep v rest hmore
    rw [h] at hmore
    obtain ⟨rfl, rfl⟩ := List.cons.inj (Option.some.inj hmore)
    simp [closeParen, Words.isNameSeparator]

theorem afterType_qualifierWords (ht : t.kind = .identifier)
    (hus : ∀ u ∈ us, u.kind = .identifier) :
    Words.afterType (qualifierWords t us ++ closeParen :: ws) = some (closeParen :: ws) := by
  have htail : ∀ vs, Words.afterTypeArguments vs = some (closeParen :: ws) →
      Words.afterType (t :: vs) = some (closeParen :: ws) := by
    intro vs hvs
    rw [Words.afterType, Words.scanType]
    simp [ht, Kind.isPredefinedType, skipNameTail_of_closeParen hvs, skipTypeSuffixes_closeParen]
  cases us with
  | nil => exact htail _ (by simp [Words.afterTypeArguments, closeParen])
  | cons u us =>
    have hscan : Words.closeAngles 1 (listWords u us ++ closingAngle :: closeParen :: ws) =
        some (closeParen :: ws) := closeAngles_listWords hus
    have happend : qualifierWords t (u :: us) ++ closeParen :: ws =
        t :: openAngle :: (listWords u us ++ closingAngle :: closeParen :: ws) := by
      simp [qualifierWords]
    rw [happend]
    refine htail _ ?_
    simp [Words.afterTypeArguments, Words.scanTypeArguments, openAngle, hscan]

/-! ## Expressions -/

/-- No operator that binds with `power` stands at the front. -/
def Stops (power : Nat) (ws : List Token) : Prop :=
  operatorStep? power (front ws) (Words.isAt 1 .identifier ws) = none

/-- Where weak operators stop, strong ones do. -/
theorem Stops.mono {power power' : Nat} (h : Stops power ws) (hle : power ≤ power') :
    Stops power' ws := by
  have hweak (left : Nat) (step : Step Unit) :
      (if left < power then none else some step) = none →
        (if left < power' then none else some step) = none := by
    simp only [ite_eq_left_iff, reduceCtorEq, imp_false, not_not]
    exact fun hlt => Nat.lt_of_lt_of_le hlt hle
  revert h
  unfold Stops operatorStep?
  split
  case h_9 | h_10 | h_11 | h_12 => exact hweak _ _
  case h_13 =>
    split
    · exact hweak _ _
    · exact id
  all_goals exact id

/-- A word that ends an expression in a template. -/
def EndsExpression (w : Token) : Prop := w.kind = .eof ∨ w.kind = .rParen

theorem EndsExpression.stops (hw : EndsExpression w) (power : Nat) : Stops power (w :: ws) := by
  rcases hw with hw | hw <;> simp [Stops, hw, operatorStep?, binding?, Kind.isAssignmentOperator]

theorem recite_operators (hd : 1 ≤ depth) {power : Nat} (h : Stops power ws) :
    reciteRule production depth (.operators power) ws ts = some (false, ws, ts) := by
  obtain ⟨n, rfl⟩ := Nat.exists_eq_add_of_le' hd
  rw [reciteRule, production, recite_silently, operators, Action.recite_bind, recite_current,
    Option.bind_some, Action.recite_bind, recite_ahead, Option.bind_some]
  dsimp only
  rw [h, Action.recite_pure, Option.map_some]

/-- An expression is an operand and the operators behind it. -/
theorem recite_expression (power : Nat) :
    reciteRule production (depth + 1) (.expression power) ws ts =
      (operand.recite (reciteRule production depth) ws []).bind fun r =>
        (reciteRule production depth (.operators power) r.2.1 r.2.2).map fun x =>
          (false, x.2.1, ts ++ x.2.2) := by
  rw [reciteRule, production, recite_silently, expressionProduction]
  simp only [Action.recite_bind, Action.recite_skipTrivia, Option.bind_some, Action.recite_frame,
    recite_read, Function.comp_def, Option.map_map, Option.map_bind]

/-- An expression goes behind what has been built. -/
theorem recite_expression_append (power : Nat) :
    reciteRule production depth (.expression power) ws ts =
      (reciteRule production depth (.expression power) ws []).map fun x =>
        (x.1, x.2.1, ts ++ x.2.2) := by
  cases depth with
  | zero => rfl
  | succ depth =>
    rw [recite_expression, recite_expression, Option.map_bind]
    simp only [Function.comp_def, Option.map_map, List.nil_append]

/-- The answer of an expression means nothing. -/
theorem answer_of_recite {power : Nat} {p : Bool × List Token × List Tree}
    (h : reciteRule production depth (.expression power) ws ts = some p) : p.1 = false := by
  cases depth with
  | zero => cases h
  | succ depth =>
    rw [recite_expression, Option.bind_eq_some_iff] at h
    obtain ⟨_, -, h⟩ := h
    obtain ⟨_, -, rfl⟩ := Option.map_eq_some_iff.mp h
    rfl

/-- The tree of `this`. -/
def thisTree : Tree := .node .thisExpression [.token this]

theorem recite_this (hd : 2 ≤ depth) (hw : EndsExpression w) (power : Nat) :
    reciteRule production depth (.expression power) (this :: w :: ws) ts =
      some (false, w :: ws, ts ++ [thisTree]) := by
  obtain ⟨n, rfl⟩ := Nat.exists_eq_add_of_le' hd
  have hthis : this.kind = .thisKw := rfl
  rw [recite_expression]
  simp [operand, hthis, Kind.isLiteral, Kind.isPredefinedType, single,
    recite_operators _ (hw.stops _), thisTree]

/-! ## Casts -/

/-- The tree of a cast to the type `type`. -/
def castTree (type operand : Tree) : Tree :=
  .node .castExpression [.token openParen, type, .token closeParen, operand]

/-- A cast, where it is recognised as one and its type can be read. -/
theorem recite_castOperand {type : Tree} {vs rest : List Token}
    (hlambda : Words.atLambdaParen (openParen :: vs) = false)
    (hcast : Words.atCast (openParen :: vs) = true)
    (htype : ∀ ts, reciteRule production depth (.type false) vs ts =
      some (false, closeParen :: rest, ts ++ [type])) :
    operand.recite (reciteRule production depth) (openParen :: vs) [] =
      (reciteRule production depth (.expression prefixPower) rest []).map fun x =>
        ((), x.2.1, [.node .castExpression (.token openParen :: type :: .token closeParen :: x.2.2)]) := by
  have hopen : openParen.kind = .lParen := rfl
  have hclose : closeParen.kind = .rParen := rfl
  have hread : reciteRule production depth (.expression prefixPower) rest
      [.token openParen, type, .token closeParen] = _ := recite_expression_append prefixPower
  simp [operand, hopen, Kind.isLiteral, Kind.isPredefinedType, parenOperand, hcast, hlambda,
    Grammar.type, htype, hclose, hread]
  cases reciteRule production depth (.expression prefixPower) rest [] <;> rfl

/-- A cast, with its operand. -/
theorem recite_cast {type operand : Tree} {vs rest ws' : List Token} (hd : 1 ≤ depth)
    {power : Nat} (hstops : Stops power ws')
    (hlambda : Words.atLambdaParen (openParen :: vs) = false)
    (hcast : Words.atCast (openParen :: vs) = true)
    (htype : ∀ ts, reciteRule production depth (.type false) vs ts =
      some (false, closeParen :: rest, ts ++ [type]))
    (hoperand : reciteRule production depth (.expression prefixPower) rest [] =
      some (false, ws', [operand])) :
    reciteRule production (depth + 1) (.expression power) (openParen :: vs) ts =
      some (false, ws', ts ++ [castTree type operand]) := by
  rw [recite_expression, recite_castOperand hlambda hcast htype, hoperand]
  simp [recite_operators hd hstops, castTree]

/-- The tree of the type that all casts go by way of. -/
def objectType : Tree := .node .type [.node .predefinedType [.token object]]

/-- The words of a cast to the common base type. -/
def objectCastWords (rest : List Token) : List Token := openParen :: object :: closeParen :: rest

section

variable {rest : List Token}

theorem atLambdaParen_objectCast :
    Words.atLambdaParen (objectCastWords rest) = (front rest == .fatArrow) := by
  have hopen : openParen.kind = .lParen := rfl
  have hobject : object.kind = .objectKw := rfl
  have hclose : closeParen.kind = .rParen := rfl
  simp [objectCastWords, Words.atLambdaParen, Words.skipParens, hopen, hobject, hclose]

/-- What may follow a cast is no body of a lambda. -/
theorem atLambdaParen_objectCast_eq_false
    (hstart : Words.canStartExpression (front rest) = true) :
    Words.atLambdaParen (objectCastWords rest) = false := by
  rw [atLambdaParen_objectCast]
  revert hstart
  cases front rest <;> decide

theorem atCast_objectCast :
    Words.atCast (objectCastWords rest) = Words.canStartExpression (front rest) := by
  have hobject : object.kind = .objectKw := rfl
  have hclose : closeParen.kind = .rParen := rfl
  have hafter : Words.afterType (object :: closeParen :: rest) = some (closeParen :: rest) := by
    rw [Words.afterType, Words.scanType]
    simp [hobject, Kind.isPredefinedType, skipTypeSuffixes_closeParen]
  simp [objectCastWords, Words.atCast, hafter, hclose, hobject, Kind.isPredefinedType]

theorem recite_objectType (hd : 2 ≤ depth) :
    reciteRule production depth (.type false) (object :: closeParen :: rest) ts =
      some (false, closeParen :: rest, ts ++ [objectType]) := by
  obtain ⟨n, rfl⟩ := Nat.exists_eq_add_of_le' hd
  have hobject : object.kind = .objectKw := rfl
  have hend : EndsTypeName closeParen := .inr (.inr rfl)
  rw [reciteRule, production, typeProduction]
  simp [typeHead, hobject, Kind.isPredefinedType, recite_typeSuffixes _ hend, objectType]

end

/-- The tree of `this`, cast to the common base type. -/
def objectCastTree : Tree :=
  castTree (.node .type [.node .predefinedType [.token object]]) thisTree

/-- The words of a cast by way of the common base type. -/
def castWords (t : Token) (us rest : List Token) : List Token :=
  openParen :: (qualifierWords t us ++ closeParen :: objectCastWords rest)

/-- The tree of such a cast. -/
def castThroughTree (t : Token) (us : List Token) (operand : Tree) : Tree :=
  castTree (namedType (qualifierParts t us)) (castTree objectType operand)

theorem atLambdaParen_castWords (ht : t.kind = .identifier)
    (hus : ∀ u ∈ us, u.kind = .identifier) {rest : List Token} :
    Words.atLambdaParen (castWords t us rest) = false := by
  have hopen : openParen.kind = .lParen := rfl
  have hclose : closeParen.kind = .rParen := rfl
  simp [castWords, objectCastWords, Words.atLambdaParen, skipParens_qualifierWords ht hus,
    Words.skipParens, hclose, hopen]

theorem atCast_castWords (ht : t.kind = .identifier) (hus : ∀ u ∈ us, u.kind = .identifier)
    {rest : List Token} : Words.atCast (castWords t us rest) = true := by
  have hopen : openParen.kind = .lParen := rfl
  have hclose : closeParen.kind = .rParen := rfl
  have hfirst : front (qualifierWords t us ++ closeParen :: objectCastWords rest) =
      .identifier := by
    cases us <;> simp [qualifierWords, ht]
  have hnext : front (objectCastWords rest) = .lParen := rfl
  simp [castWords, Words.atCast, afterType_qualifierWords ht hus, hclose, hnext, hfirst,
    Kind.isPredefinedType]

/-- Two casts are read as such, in front of an operand of which they take all. -/
theorem recite_castThrough {rest ws' : List Token} {operand : Tree}
    (hd : us.length + 4 ≤ depth) (ht : t.kind = .identifier) (hus : ∀ u ∈ us, u.kind = .identifier)
    (hstart : Words.canStartExpression (front rest) = true) {power : Nat} (hstops : Stops power ws')
    (hpower : power ≤ prefixPower)
    (hoperand : reciteRule production depth (.expression prefixPower) rest [] =
      some (false, ws', [operand])) :
    reciteRule production (depth + 2) (.expression power) (castWords t us rest) ts =
      some (false, ws', ts ++ [castThroughTree t us operand]) := by
  have hinner : reciteRule production (depth + 1) (.expression prefixPower)
      (objectCastWords rest) [] = some (false, ws', [castTree objectType operand]) := by
    exact recite_cast (by omega) (hstops.mono hpower) (atLambdaParen_objectCast_eq_false hstart)
      (atCast_objectCast.trans hstart) (fun ts => recite_objectType (by omega)) hoperand
  exact recite_cast (by omega) hstops (atLambdaParen_castWords ht hus) (atCast_castWords ht hus)
    (fun ts => recite_typeOfQualifier (by omega) ht hus false) hinner

/-- The tree of `this`, cast to the type with the given name by way of the common base type. -/
def thisCastTree (t : Token) (us : List Token) : Tree :=
  castTree (namedType (qualifierParts t us)) objectCastTree

theorem recite_thisCast (hd : us.length + 6 ≤ depth) (ht : t.kind = .identifier)
    (hus : ∀ u ∈ us, u.kind = .identifier) (hw : EndsExpression w) {power : Nat}
    (hpower : power ≤ prefixPower) :
    reciteRule production depth (.expression power) (castWords t us (this :: w :: ws)) ts =
      some (false, w :: ws, ts ++ [thisCastTree t us]) := by
  obtain ⟨n, rfl⟩ : ∃ n, depth = n + 2 := ⟨depth - 2, by omega⟩
  exact recite_castThrough (by omega) ht hus rfl (hw.stops _) hpower
    (recite_this (by omega) hw prefixPower)

/-- One name between parentheses is no tuple of types. -/
theorem afterType_openParen (ht : t.kind = .identifier) (hus : ∀ u ∈ us, u.kind = .identifier) :
    Words.afterType (openParen :: (qualifierWords t us ++ closeParen :: ws)) = none := by
  have hopen : openParen.kind = .lParen := rfl
  have hclose : closeParen.kind = .rParen := rfl
  have hname : Words.afterType (qualifierWords t us ++ closeParen :: ws) =
      some (closeParen :: ws) := afterType_qualifierWords ht hus
  rw [Words.afterType, Option.map_eq_some_iff] at hname
  obtain ⟨⟨behind, hlt⟩, hscan, rfl⟩ := hname
  have helements : Words.scanTupleElements 0 (qualifierWords t us ++ closeParen :: ws) = none := by
    rw [Words.scanTupleElements, hscan]
    simp [Words.skipIdentifier, hclose]
  rw [Words.afterType, Words.scanType]
  simp [hopen, Kind.isPredefinedType, helements]

/-- The same tree between parentheses. -/
def parenthesizedTree (t : Token) (us : List Token) : Tree :=
  .node .parenthesizedExpression [.token openParen, thisCastTree t us, .token closeParen]

theorem recite_parenthesizedCast (hd : us.length + 7 ≤ depth) (ht : t.kind = .identifier)
    (hus : ∀ u ∈ us, u.kind = .identifier) (hw : EndsExpression w) (power : Nat) :
    reciteRule production depth (.expression power)
        (openParen :: castWords t us (this :: closeParen :: w :: ws)) ts =
      some (false, w :: ws, ts ++ [parenthesizedTree t us]) := by
  obtain ⟨n, rfl⟩ : ∃ n, depth = n + 1 := ⟨depth - 1, by omega⟩
  have hopen : openParen.kind = .lParen := rfl
  have hclose : closeParen.kind = .rParen := rfl
  have hobject : object.kind = .objectKw := rfl
  have hthis : this.kind = .thisKw := rfl
  have hfirst : front (castWords t us (this :: closeParen :: w :: ws)) = .lParen := rfl
  have hafter : Words.afterType (castWords t us (this :: closeParen :: w :: ws)) = none :=
    afterType_openParen ht hus
  have hlambda : Words.atLambdaParen (openParen :: castWords t us (this :: closeParen :: w :: ws)) =
      false := by
    have hskip : Words.skipParens 1 (castWords t us (this :: closeParen :: w :: ws)) = w :: ws := by
      simp [castWords, objectCastWords, Words.skipParens, hopen, hclose, hobject, hthis,
        skipParens_qualifierWords ht hus]
    rcases hw with hw | hw <;> simp [Words.atLambdaParen, hskip, hw]
  have hinner : ∀ ts, reciteRule production n (.expression 0)
      (castWords t us (this :: closeParen :: w :: ws)) ts = _ :=
    fun ts => recite_thisCast (by omega) ht hus (.inr rfl) (Nat.zero_le _)
  have hmore : ∀ ts, reciteRule production n (.moreTupleValues false) (closeParen :: w :: ws) ts =
      some (false, closeParen :: w :: ws, ts) := by
    intro ts
    obtain ⟨m, rfl⟩ : ∃ m, n = m + 1 := ⟨n - 1, by omega⟩
    rw [reciteRule, production, moreTupleValues]
    simp [hclose]
  have hend : 1 ≤ n := by omega
  rw [reciteRule, production, recite_silently, expressionProduction]
  simp [operand, hopen, Kind.isLiteral, Kind.isPredefinedType, parenOperand, hlambda,
    Words.atCast, hafter, tupleValue, hfirst, Words.atVarDesignation, Words.atTupleDeclaration,
    expression, hinner, hmore, hclose, recite_operators hend (hw.stops _), parenthesizedTree]

/-! ## Members -/

theorem atTypeArguments_listWords (h : ∀ v ∈ t :: us, v.kind = .identifier) :
    Words.atTypeArguments (openAngle :: (listWords t us ++ closingAngle :: dot :: ws)) = true := by
  have hopen : openAngle.kind = .less := rfl
  have hdot : dot.kind = .dot := rfl
  simp [Words.atTypeArguments, Words.scanTypeArguments, hopen, closeAngles_listWords h, hdot,
    Words.closesTypeArguments]

/-- A name with type arguments, in front of the point of a member. -/
theorem recite_nameExpression (hd : us.length + 3 ≤ depth) (ht : t.kind = .identifier)
    (hus : ∀ u ∈ us, u.kind = .identifier) :
    nameExpression.recite (reciteRule production depth) (qualifierWords t us ++ dot :: ws) ts =
      some ((), dot :: ws, ts ++ [.node .nameExpression (qualifierParts t us)]) := by
  have hdot : dot.kind = .dot := rfl
  have hopen : openAngle.kind = .less := rfl
  cases us with
  | nil =>
    simp [nameExpression, expectIdentifier, qualifierWords, qualifierParts, ht, hdot]
  | cons u us =>
    rw [List.length_cons] at hd
    have hd' : us.length + 3 ≤ depth := by omega
    simp [nameExpression, expectIdentifier, qualifierWords, qualifierParts, ht, hopen,
      atTypeArguments_listWords hus, recite_typeArgumentList hd' hus]

/-- A name in front of a point or an angle bracket.  Its word may be a reserved one elsewhere, but
none of those goes on with either. -/
theorem recite_identifierOperand (hw : w.kind = .dot ∨ w.kind = .less) :
    identifierOperand.recite answer (t :: w :: ws) ts =
      nameExpression.recite answer (t :: w :: ws) ts := by
  rw [identifierOperand]
  rcases hw with hw | hw <;>
    simp [hw, Words.isAt, Words.kindAt, Words.atAsyncLambda, Words.atVarDesignation,
      Words.holdsAt, Words.canStartExpression, Kind.isLiteral, Kind.isPredefinedType]

/-- The tree of a member of a type. -/
def memberTree (t : Token) (us : List Token) (name : Token) : Tree :=
  .node .memberAccessExpression [.node .nameExpression (qualifierParts t us), .token dot,
    .node .nameExpression [.token name]]

theorem recite_member {name : Token} (hd : us.length + 4 ≤ depth) (ht : t.kind = .identifier)
    (hus : ∀ u ∈ us, u.kind = .identifier) (hname : name.kind = .identifier) :
    reciteRule production depth (.expression 0)
        (qualifierWords t us ++ [dot, name, .endOfText]) ts =
      some (false, [.endOfText], ts ++ [memberTree t us name]) := by
  obtain ⟨n, rfl⟩ : ∃ n, depth = n + 2 := ⟨depth - 2, by omega⟩
  have hdot : dot.kind = .dot := rfl
  have heof : Token.endOfText.kind = .eof := rfl
  have hoperators : ∀ ts, reciteRule production (n + 1) (.operators 0)
      [dot, name, .endOfText] ts = some (false, [.endOfText],
        [.node .memberAccessExpression (ts ++ [.token dot, .node .nameExpression [.token name]])]) := by
    intro ts
    obtain ⟨m, rfl⟩ : ∃ m, n = m + 1 := ⟨n - 1, by omega⟩
    have hstop : 1 ≤ m + 1 := by omega
    have heof' : EndsExpression .endOfText := .inl rfl
    rw [reciteRule, production, recite_silently, operators]
    simp [hdot, operatorStep?, Words.isAt, Words.kindAt, hname, nameExpression, expectIdentifier,
      heof, recite_operators hstop (heof'.stops 0)]
  have hoperand : ∀ ts, identifierOperand.recite (reciteRule production (n + 1))
      (qualifierWords t us ++ [dot, name, .endOfText]) ts =
        some ((), [dot, name, .endOfText], ts ++ [.node .nameExpression (qualifierParts t us)]) := by
    intro ts
    have hdepth : us.length + 3 ≤ n + 1 := by omega
    rw [← recite_nameExpression hdepth ht hus]
    cases us with
    | nil => exact recite_identifierOperand (w := dot) (.inl rfl)
    | cons u us => exact recite_identifierOperand (w := openAngle) (.inr rfl)
  have hfirst : front (qualifierWords t us ++ [dot, name, .endOfText]) = .identifier := by
    cases us <;> simp [qualifierWords, ht]
  rw [reciteRule, production, recite_silently, expressionProduction]
  simp [operand, hfirst, Kind.isLiteral, Kind.isPredefinedType, hoperand, hoperators, memberTree]

/-! ## Whole texts -/

/-- What is read of a text that should hold one expression, whose operators bind with `power` at
least. -/
def uptoEnd (power : Nat) : Step Unit := do
  read (.expression power)
  Action.skipTrivia
  unless ← sees .eof do
    node .error do
      Action.report (.unexpected "input after expression")
      read (.skipTo .endOfText)

/-- Such a text as a whole. -/
def wholeExpression (power : Nat) : Step Unit :=
  node .expressionFragment do
    read (.expression power)
    Action.skipTrivia
    unless ← sees .eof do
      node .error do
        Action.report (.unexpected "input after expression")
        read (.skipTo .endOfText)
    expect .eof "end of expression"

theorem complete_wholeExpression (power : Nat) (source : String) :
    let start := ReadState.start (lex source)
    ∃ s, (uptoEnd power).complete (Action.completeRule production (callDepth start.words)) start =
        some ((), s) ∧ s.words = [.endOfText] ∧
      readWhole (wholeExpression power) source =
        ⟨.node .expressionFragment s.skipTrivia.take.built.reverse,
          lexicalFaults source ++ s.found.reverse⟩ := by
  have hsafe : ∀ ws, Words.Ended ws →
      (uptoEnd power).Safe contract (fun _ ws' _ => front ws' = .eof) ws .empty := by
    intro ws _
    simp +contextual [uptoEnd, Frame.empty]
  have hlead : ∀ ws, (uptoEnd power).Leads contract callsPerByte ws (fun _ => True) := by
    intro ws
    simp [uptoEnd, callsPerByte]
  obtain ⟨s, hcomplete, hwords, -, hread⟩ :=
    complete_readWhole (k := .expressionFragment) endsAfter_expressionFragment hsafe hlead source
  exact ⟨s, hcomplete, hwords, hread⟩

/-- Input behind the expression is a problem. -/
theorem recite_uptoEnd {power : Nat} {w : Token} (hw : w.kind = .eof) :
    (uptoEnd power).recite (reciteRule production depth) ws [] = some ((), [w], ts) ↔
      reciteRule production depth (.expression power) ws [] = some (false, [w], ts) := by
  rw [uptoEnd, Action.recite_bind, recite_read]
  cases h : reciteRule production depth (.expression power) ws [] with
  | none => simp
  | some p =>
    obtain ⟨v, ws₁, ts₁⟩ := p
    obtain rfl : v = false := answer_of_recite h
    by_cases hend : front ws₁ = .eof
    · simp [hend]
    · have hne : ws₁ ≠ [w] := by
        rintro rfl
        exact hend hw
      simp [hend, hne]

/-- The words of a text that is read as a whole. -/
theorem stands_start (source : String) :
    (ReadState.start (lex source)).Stands ((lex source).filter Token.isSignificant) [] where
  words := ReadState.separate_words _
  shown := by simp [Token.isSignificant]
  trivia := (ReadState.orderly_start source).trivia
  built := rfl
  found := rfl

section

variable {source : String} {power : Nat} {parts : List Tree}

theorem dropTrivia_of_stands {s : ReadState} (h : s.Stands [.endOfText] parts) :
    Tree.dropTrivia (.node .expressionFragment s.skipTrivia.take.built.reverse) =
      .node .expressionFragment (parts ++ [.token .endOfText]) := by
  rw [← Tree.without_isTrivia, Tree.without_node, Tree.withoutAll_reverse,
    h.skipTrivia.take.built, List.reverse_reverse]
  rfl

/-- A text that reads as an expression without a problem can be recited. -/
theorem recite_of_isClean (h : (readWhole (wholeExpression power) source).isClean = true) :
    lexicalFaults source = [] ∧ ∃ depth parts,
      reciteRule production depth (.expression power) ((lex source).filter Token.isSignificant) [] =
          some (false, [.endOfText], parts) ∧
        (readWhole (wholeExpression power) source).tree.dropTrivia =
          .node .expressionFragment (parts ++ [.token .endOfText]) := by
  obtain ⟨s, hcomplete, hwords, hread⟩ := complete_wholeExpression power source
  rw [hread, Parsed.isClean, List.isEmpty_iff] at h
  obtain ⟨hlexical, hfound⟩ := List.append_eq_nil_iff.mp h
  obtain ⟨ws', parts, hrecite, hstands⟩ := Action.recite_of_complete
    (fun h => Action.found_suffix_of_completeRule _ h)
    (fun h hs hclean => Action.reciteRule_of_completeRule _ h hs hclean) _ hcomplete
    (stands_start source) (List.reverse_eq_nil_iff.mp hfound)
  obtain rfl : ws' = [.endOfText] := hstands.words.symm.trans hwords
  exact ⟨hlexical, _, parts, (recite_uptoEnd rfl).mp hrecite, hread ▸ dropTrivia_of_stands hstands⟩

/-- A text whose words can be recited reads as that expression. -/
theorem isClean_of_recite (hlexical : lexicalFaults source = [])
    (h : reciteRule production depth (.expression power)
      ((lex source).filter Token.isSignificant) [] = some (false, [.endOfText], parts)) :
    (readWhole (wholeExpression power) source).isClean = true ∧
      (readWhole (wholeExpression power) source).tree.dropTrivia =
        .node .expressionFragment (parts ++ [.token .endOfText]) := by
  obtain ⟨s, hcomplete, -, hread⟩ := complete_wholeExpression power source
  obtain ⟨-, hstands⟩ := Action.stands_of_recite hcomplete ((recite_uptoEnd rfl).mpr h)
    (stands_start source)
  rw [hread, Parsed.isClean, List.isEmpty_iff, hlexical, hstands.found]
  exact ⟨rfl, dropTrivia_of_stands hstands⟩

/-- The template `source` is made into an expression, whose tree is `e` but for trivia. -/
def MakesTree (source : String) (e : Tree) : Prop :=
  ∃ made, synthesize source = .ok made ∧ made.dropTrivia = e

/-- The first expression among the parts of a fragment, without trivia. -/
theorem expression?_of_dropTrivia {t : Tree}
    (h : t.dropTrivia = .node .expressionFragment (parts ++ [.token .endOfText])) :
    (Site.root t).expression?.map (·.tree.dropTrivia) =
      (parts.filter fun t => t.isNode && t.kind.isExpression).head? := by
  cases t with
  | token w => cases h
  | node k ts =>
    rw [← Tree.without_isTrivia, Tree.without_node, Tree.node.injEq] at h
    have hnodes := Tree.filter_withoutAll (p := Token.isTrivia) Kind.isExpression ts
    have hend : ([Tree.token .endOfText].filter fun t => t.isNode && t.kind.isExpression) = [] := rfl
    rw [h.2, List.filter_append, hend, List.append_nil] at hnodes
    have hmap := congrArg (List.map (Tree.without Token.isTrivia))
      ((Site.root (.node k ts)).nodesWith_map_tree Kind.isExpression)
    rw [List.map_map] at hmap
    rw [hnodes, Site.expression?, Site.expressions, ← List.head?_map]
    refine congrArg List.head? (Eq.trans ?_ hmap)
    simp only [Function.comp_def, Tree.without_isTrivia]

/-- **A template makes a tree if and only if its words recite it.** -/
theorem makesTree_iff {e : Tree} : MakesTree source e ↔
    lexicalFaults source = [] ∧ ∃ depth parts,
      reciteRule production depth (.expression 0) ((lex source).filter Token.isSignificant) [] =
          some (false, [.endOfText], parts) ∧
        (parts.filter fun t => t.isNode && t.kind.isExpression).head? = some e := by
  have hread : parseExpression source = readWhole (wholeExpression 0) source := rfl
  constructor
  · rintro ⟨made, hmade, rfl⟩
    rw [synthesize, hread] at hmade
    split at hmade
    · cases hmade
    rename_i hnone
    split at hmade
    · rename_i site hsite
      cases hmade
      obtain ⟨hlexical, depth, parts, hrecite, htree⟩ := recite_of_isClean
        (List.isEmpty_iff.mpr hnone)
      refine ⟨hlexical, depth, parts, hrecite, ?_⟩
      rw [← expression?_of_dropTrivia htree, hsite, Option.map_some]
    · cases hmade
  · rintro ⟨hlexical, depth, parts, hrecite, hfirst⟩
    obtain ⟨hclean, htree⟩ := isClean_of_recite hlexical hrecite
    rw [← expression?_of_dropTrivia htree, Option.map_eq_some_iff] at hfirst
    obtain ⟨site, hsite, rfl⟩ := hfirst
    refine ⟨site.tree, ?_, rfl⟩
    have hnone : (readWhole (wholeExpression 0) source).diagnostics = [] := List.isEmpty_iff.mp hclean
    simp [synthesize, hread, hnone, hsite]

end

end Grammar

/-! ## Templates -/

section

open Token (closeParen closingAngle comma dot object openAngle openParen this widthOf)
open Grammar

variable {t name : Token} {us : List Token}

theorem filter_separated (h : ∀ v ∈ t :: us, v.kind = .identifier) :
    (Token.separated t us).filter Token.isSignificant = listWords t us := by
  induction us generalizing t with
  | nil =>
    obtain ⟨ht, -⟩ := List.forall_mem_cons.mp h
    simp [Token.separated, listWords, Token.isSignificant, Token.isTrivia, ht, Kind.isTrivia]
  | cons u us ih =>
    obtain ⟨ht, hus⟩ := List.forall_mem_cons.mp h
    have hcomma : comma.isSignificant = true := rfl
    have hspace : Token.space.isSignificant = false := rfl
    have hshown : t.isSignificant = true := by
      simp [Token.isSignificant, Token.isTrivia, ht, Kind.isTrivia]
    simp [Token.separated, listWords, hcomma, hspace, hshown, ih hus]

theorem filter_qualifier (h : ∀ v ∈ t :: us, v.kind = .identifier) :
    (Token.qualifier t us).filter Token.isSignificant = qualifierWords t us := by
  obtain ⟨ht, hus⟩ := List.forall_mem_cons.mp h
  have hshown : t.isSignificant = true := by
    simp [Token.isSignificant, Token.isTrivia, ht, Kind.isTrivia]
  cases us with
  | nil => simp [Token.qualifier, qualifierWords, hshown]
  | cons u us =>
    have hopen : openAngle.isSignificant = true := rfl
    have hclose : closingAngle.isSignificant = true := rfl
    simp [Token.qualifier, qualifierWords, hshown, hopen, hclose, filter_separated hus]

/-- What is known of the names that a template is made of. -/
structure Nameable (t : Token) (us : List Token) : Prop where
  cut : t.IsCutWord
  parameters : ∀ u ∈ us, u.IsCutWord
  identifiers : ∀ v ∈ t :: us, v.kind = .identifier

/-- A template with the tokens `ts` makes the tree that its words recite. -/
theorem makesTree_of_lexes {ts ws : List Token} {k : Kind} {parts : List Tree} {depth : Nat}
    (hlexes : Token.Lexes true ts [])
    (hwords : ts.filter Token.isSignificant ++ [.endOfText] = ws) (hk : k.isExpression = true)
    (h : Action.reciteRule production depth (.expression 0) ws [] =
      some (false, [.endOfText], [.node k parts])) : MakesTree (Token.textOf ts) (.node k parts) := by
  have hlex : (lex (Token.textOf ts)).filter Token.isSignificant = ws := by
    rw [← hwords, lex, List.filter_append]
    exact congrArg (· ++ _) (congrArg _ (Token.lexed_of_lexes hlexes))
  refine makesTree_iff.mpr ⟨Token.lexicalFaults_of_lexes hlexes, depth, [.node k parts], ?_, ?_⟩
  · rw [hlex, h]
  · rw [List.filter_cons_of_pos (by simpa [Tree.isNode, Tree.kind] using hk)]
    rfl

theorem isSignificant_of_identifier (h : t.kind = .identifier) : t.isSignificant = true := by
  simp [Token.isSignificant, Token.isTrivia, h, Kind.isTrivia]

/-- **The member of a type** is an expression. -/
theorem makesTree_member (h : Nameable t us) (hname : name.IsCutWord)
    (hkind : name.kind = .identifier) :
    MakesTree (memberText (Token.textOf (Token.qualifier t us)) name.text)
      (memberTree t us name) := by
  obtain ⟨ht, hus⟩ := List.forall_mem_cons.mp h.identifiers
  have hdot : dot.isSignificant = true := rfl
  rw [← Token.textOf_member]
  refine makesTree_of_lexes (Token.lexes_member h.cut h.parameters hname rfl) ?_ rfl
    (recite_member le_rfl ht hus hkind)
  simp [Token.member, filter_qualifier h.identifiers, hdot, isSignificant_of_identifier hkind]

theorem filter_cast (h : ∀ v ∈ t :: us, v.kind = .identifier) (ws : List Token) :
    (Token.cast (Token.qualifier t us)).filter Token.isSignificant ++ ws =
      castWords t us (this :: ws) := by
  have hopen : openParen.isSignificant = true := rfl
  have hclose : closeParen.isSignificant = true := rfl
  have hobject : object.isSignificant = true := rfl
  have hthis : this.isSignificant = true := rfl
  simp [Token.cast, castWords, objectCastWords, filter_qualifier h, hopen, hclose, hobject, hthis]

/-- **The cast of `this`** is an expression. -/
theorem makesTree_cast (h : Nameable t us) :
    MakesTree (castText (Token.textOf (Token.qualifier t us)) "this") (thisCastTree t us) := by
  obtain ⟨ht, hus⟩ := List.forall_mem_cons.mp h.identifiers
  rw [← Token.textOf_cast]
  exact makesTree_of_lexes (Token.lexes_cast h.cut h.parameters rfl) (filter_cast h.identifiers _)
    rfl (recite_thisCast le_rfl ht hus (.inl rfl) (Nat.zero_le _))

/-- **The cast of `this` between parentheses** is an expression. -/
theorem makesTree_parenthesizedCast (h : Nameable t us) :
    MakesTree (parenthesizedCastText (Token.textOf (Token.qualifier t us)) "this")
      (parenthesizedTree t us) := by
  obtain ⟨ht, hus⟩ := List.forall_mem_cons.mp h.identifiers
  rw [← Token.textOf_parenthesizedCast]
  refine makesTree_of_lexes (Token.lexes_parenthesizedCast h.cut h.parameters) ?_ rfl
    (recite_parenthesizedCast le_rfl ht hus (.inl rfl) 0)
  have hopen : openParen.isSignificant = true := rfl
  have hclose : [closeParen].filter Token.isSignificant = [closeParen] := rfl
  rw [Token.parenthesizedCast, List.filter_cons_of_pos hopen, List.filter_append, hclose,
    List.cons_append, List.append_assoc, filter_cast h.identifiers]
  rfl

end

end LivePatch
