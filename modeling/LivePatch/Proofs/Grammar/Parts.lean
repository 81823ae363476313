import LivePatch.Proofs.Grammar.Expressions
import LivePatch.Proofs.Parts
import LivePatch.Syntax.Grammar

/-!
# The grammar makes well-formed nodes

Each production puts around a node the parts that it wants.  Nearly all of them are plain; the
others make the declarations and expressions of which something is asked, and are followed step by
step.
-/

namespace LivePatch

/-- Does a call put what it reads behind the parts of its caller's frame?  Some productions go on
with these parts instead. -/
def Rule.appends : Rule → Bool
  | .operators _ | .declaredType | .patternOperators => false
  | _ => true

/-- The one part is an expression. -/
def Part.IsValue (ps : List Part) : Prop := ∃ e : Kind, e.isExpression = true ∧ ps = [.node e]

/-- What a call makes of the parts of its caller's frame. -/
def Rule.Gives (r : Rule) (ps ps' : List Part) : Prop :=
  match r with
  | .expression _ => ∃ e : Kind, e.isExpression = true ∧ ps' = ps ++ [.node e]
  | .operators _ => Part.IsValue ps'
  | .type _ => ps' = ps ++ [.node .type]
  | .initializer => ps' = ps ++ [.node .initializerExpression]
  | .declaredType | .patternOperators => True
  | _ => ps <+: ps'

/-- What parts a call goes on with. -/
def Rule.GoesOn (r : Rule) (ps : List Part) : Prop :=
  match r with
  | .operators _ => Part.IsValue ps
  | _ => True

theorem Rule.prefix_of_gives {r : Rule} (h : r.appends = true) {ps ps' : List Part}
    (hgives : r.Gives ps ps') : ps <+: ps' := by
  cases r with
  | operators | declaredType | patternOperators => cases h
  | expression =>
    obtain ⟨e, -, rfl⟩ := hgives
    exact List.prefix_append ps _
  | type | initializer =>
    obtain rfl := hgives
    exact List.prefix_append ps _
  | _ => exact hgives

theorem Rule.goesOn_of_appends {r : Rule} (h : r.appends = true) (ps : List Part) :
    r.GoesOn ps := by
  cases r with
  | operators => cases h
  | _ => trivial

namespace Grammar

open Words (front firstPart)

/-- `Action.Forms`, for the productions of the grammar. -/
abbrev Forms {α : Type} (a : Step α) (Q : α → List Token → List Part → Prop) (ws : List Token)
    (ps : List Part) : Prop := Action.Forms Rule.GoesOn Rule.Gives a Q ws ps

/-- `Action.Plain`, for the productions of the grammar. -/
abbrev Plain {α : Type} (inner : Bool) (a : Step α) : Prop :=
  Action.Plain Rule.GoesOn Rule.Gives inner a

/-- `Action.Closes`, for the productions of the grammar. -/
abbrev Closes {α : Type} (K : Kind → Prop) (a : Step α) : Prop :=
  Action.Closes Rule.GoesOn Rule.Gives K a

/-! ## Small steps -/

section Plain

variable {α β : Type} {i : Bool}

@[simp ↓] theorem plain_bind (a : Step β) (f : β → Step α) :
    Plain i (a >>= f) ↔ Plain i a ∧ ∀ v, Plain i (f v) := Iff.rfl

@[simp ↓] theorem plain_pure (v : α) : Plain i (pure v : Step α) := trivial

@[simp ↓] theorem plain_skipTrivia : Plain i (Action.skipTrivia : Step _) := trivial

@[simp ↓] theorem plain_take : Plain i (Action.take : Step _) := trivial

@[simp ↓] theorem plain_takeHalf : Plain i (Action.takeHalf : Step _) := trivial

@[simp ↓] theorem plain_report (problem : Problem) :
    Plain i (Action.report problem : Step _) := trivial

@[simp ↓] theorem plain_missing (what : String) : Plain i (missing what) := trivial

@[simp ↓] theorem plain_opening (out : Nat) (k : Kind) :
    Plain i (Action.opening out k : Step _) := trivial

@[simp ↓] theorem plain_begins (k : Kind) : Plain i (begins k) := trivial

@[simp ↓] theorem plain_enclose (k : Kind) :
    Plain i (Action.enclose k : Step _) ↔ i = true ∧ k.isFree = true := Iff.rfl

@[simp ↓] theorem plain_frame (body : Step α) :
    Plain i (Action.frame body) ↔ Plain true body ∨ Action.Formed Rule.GoesOn Rule.Gives body := Iff.rfl

@[simp ↓] theorem plain_call (r : Rule) : Plain i (Action.call r : Step _) ↔
    r.appends = true ∨ i = true ∧ (r = .declaredType ∨ r = .patternOperators) := by
  constructor
  · rintro ⟨hgoesOn, hgives⟩
    cases r with
    | operators =>
      obtain ⟨e, -, he⟩ := hgoesOn []
      cases he
    | declaredType | patternOperators =>
      rcases hgives with hi | hgives
      · exact .inr ⟨hi, by simp⟩
      · exact absurd (hgives [.node .error] [] trivial) (by decide)
    | _ => exact .inl rfl
  · rintro (h | ⟨hi, rfl | rfl⟩)
    · exact ⟨Rule.goesOn_of_appends h, .inr fun _ _ => Rule.prefix_of_gives h⟩
    all_goals exact ⟨fun _ => trivial, .inl hi⟩

@[simp ↓] theorem plain_read (r : Rule) : Plain i (read r) ↔
    r.appends = true ∨ i = true ∧ (r = .declaredType ∨ r = .patternOperators) :=
  (and_iff_left fun _ => trivial).trans (plain_call r)

@[simp ↓] theorem plain_ite (p : Prop) [Decidable p] (a b : Step α) :
    Plain i (if p then a else b) ↔ if p then Plain i a else Plain i b := by
  split <;> rfl

@[simp ↓] theorem plain_ahead (d : List Token → α) [Scanned d] : Plain i (ahead d) := trivial

@[simp ↓] theorem plain_idle (body : Step Unit) : Plain i (Action.idle body) ↔ Plain i body :=
  Iff.rfl

@[simp ↓] theorem plain_current : Plain i current := by
  simp [current]

@[simp ↓] theorem plain_sees (k : Kind) : Plain i (sees k) := by
  simp [sees]

@[simp ↓] theorem plain_seesWord (text : String) : Plain i (seesWord text) := by
  simp [seesWord]

@[simp ↓] theorem plain_eat (k : Kind) : Plain i (eat k) := by
  simp [eat]

@[simp ↓] theorem plain_takeIf (k : Kind) : Plain i (takeIf k) := by
  simp [takeIf]

@[simp ↓] theorem plain_expect (k : Kind) (what : String) : Plain i (expect k what) := by
  simp [expect]

@[simp ↓] theorem plain_expectIdentifier (what : String) : Plain i (expectIdentifier what) :=
  plain_expect _ what

@[simp ↓] theorem plain_node (k : Kind) (body : Step Unit) :
    Plain i (node k body) ↔ (Plain true body ∧ k.isFree = true) ∨
      Action.Formed Rule.GoesOn Rule.Gives (do begins k; body; Action.enclose k : Step Unit) := by
  simp [node]

/-- Inside a node that begins with a problem nothing is asked for. -/
@[simp ↓ 1100] theorem plain_node_report (k : Kind) (problem : Problem) (next : Unit → Step Unit) :
    Plain i (node k (Action.report problem >>= next)) := .inr fun _ => trivial

@[simp ↓ 1100] theorem plain_node_missing (k : Kind) (what : String) (next : Unit → Step Unit) :
    Plain i (node k (missing what >>= next)) := .inr fun _ => trivial

end Plain

section Closes

variable {α β : Type} {K : Kind → Prop}

@[simp ↓] theorem closes_bind (a : Step β) (f : β → Step α) :
    Closes K (a >>= f) ↔ Plain false a ∧ ∀ v, Closes K (f v) := Iff.rfl

@[simp ↓] theorem closes_enclose (k : Kind) : Closes K (Action.enclose k : Step _) ↔ K k := Iff.rfl

@[simp ↓] theorem closes_ite (p : Prop) [Decidable p] (a b : Step α) :
    Closes K (if p then a else b) ↔ if p then Closes K a else Closes K b := by
  split <;> rfl

end Closes

section Forms

variable {α β : Type} {ws : List Token} {ps : List Part}
  {Q : α → List Token → List Part → Prop} {U : Unit → List Token → List Part → Prop}

theorem Plain.forms {inner : Bool} {a : Step α} (h : Plain inner a)
    (hQ : ∀ v ws' ps', inner = true ∨ ps <+: ps' → Q v ws' ps') : Forms a Q ws ps :=
  Action.Plain.forms h hQ

/-- Of a plain step it is enough that it leads on. -/
@[simp] theorem forms_of_plain {a : Step α} (h : Plain true a) :
    Forms a (fun _ _ _ => True) ws ps :=
  Plain.forms h fun _ _ _ _ => trivial

@[simp ↓] theorem forms_pure (v : α) : Forms (pure v) Q ws ps ↔ Q v ws ps := Iff.rfl

@[simp ↓] theorem forms_bind (a : Step β) (f : β → Step α) :
    Forms (a >>= f) Q ws ps ↔ Forms a (fun b ws ps => Forms (f b) Q ws ps) ws ps := Iff.rfl

@[simp ↓] theorem forms_skipTrivia : Forms Action.skipTrivia U ws ps ↔ U () ws ps := Iff.rfl

@[simp ↓] theorem forms_take :
    Forms Action.take U ws ps ↔ U () ws.tail (ps ++ firstPart ws) := Iff.rfl

@[simp ↓] theorem forms_report (problem : Problem) :
    Forms (Action.report problem) U ws ps := trivial

@[simp ↓] theorem forms_missing (what : String) : Forms (missing what) U ws ps := trivial

@[simp ↓] theorem forms_opening (out : Nat) (k : Kind) :
    Forms (Action.opening out k) U ws ps ↔ U () ws ps := Iff.rfl

@[simp ↓] theorem forms_begins (k : Kind) : Forms (begins k) U ws ps ↔ U () ws ps := Iff.rfl

@[simp ↓] theorem forms_enclose (k : Kind) :
    Forms (Action.enclose k) U ws ps ↔ k.WantsParts ps ∧ U () ws [.node k] := Iff.rfl

@[simp ↓] theorem forms_frame (body : Step α) : Forms (Action.frame body) Q ws ps ↔
    Forms body (fun a ws new => Q a ws (ps ++ new)) ws [] := Iff.rfl

@[simp ↓] theorem forms_call {Q : Bool → List Token → List Part → Prop} (r : Rule) :
    Forms (Action.call r) Q ws ps ↔ r.GoesOn ps ∧ ∀ b ws' ps', r.Gives ps ps' → Q b ws' ps' :=
  Iff.rfl

@[simp ↓] theorem forms_read (r : Rule) :
    Forms (read r) U ws ps ↔ r.GoesOn ps ∧ ∀ ws' ps', r.Gives ps ps' → U () ws' ps' :=
  ⟨fun h => ⟨h.1, fun ws' ps' => h.2 true ws' ps'⟩, fun h => ⟨h.1, fun _ ws' ps' => h.2 ws' ps'⟩⟩

@[simp ↓] theorem forms_ite (p : Prop) [Decidable p] (a b : Step α) :
    Forms (if p then a else b) Q ws ps ↔ if p then Forms a Q ws ps else Forms b Q ws ps := by
  split <;> rfl

@[simp ↓] theorem forms_node (k : Kind) (body : Step Unit) : Forms (node k body) U ws ps ↔
    Forms body (fun _ ws' ps' => k.WantsParts ps' ∧ U () ws' (ps ++ [.node k])) ws [] := by
  simp only [node, ↓forms_frame, ↓forms_bind, ↓forms_begins, ↓forms_enclose]

@[simp ↓] theorem forms_ahead (d : List Token → α) [Scanned d] :
    Forms (ahead d) Q ws ps ↔ Q (d ws) ws ps := Iff.rfl

@[simp ↓] theorem forms_idle {Q : Bool → List Token → List Part → Prop} (body : Step Unit) : Forms (Action.idle body) Q ws ps ↔
    Forms body (fun _ ws' ps => Q (ws'.length == ws.length) ws' ps) ws ps := Iff.rfl

@[simp ↓] theorem forms_current {Q : Kind → List Token → List Part → Prop} :
    Forms current Q ws ps ↔ Q (front ws) ws ps := Iff.rfl

@[simp ↓] theorem forms_sees {Q : Bool → List Token → List Part → Prop} (k : Kind) :
    Forms (sees k) Q ws ps ↔ Q (front ws == k) ws ps := Iff.rfl

@[simp ↓] theorem forms_expect (k : Kind) (what : String) : Forms (expect k what) U ws ps ↔
    (front ws = k → U () ws.tail (ps ++ firstPart ws)) := by
  simp [expect]

@[simp ↓] theorem forms_expectIdentifier (what : String) :
    Forms (expectIdentifier what) U ws ps ↔
      (front ws = .identifier → U () ws.tail (ps ++ [.word .identifier])) := by
  refine (forms_expect _ what).trans (forall_congr' fun h => ?_)
  rw [Words.firstPart_of_front h (by decide) rfl]

/-- What is there stays there. -/
theorem forms_mem {a : Step α} (h : Plain false a) {p : Part} (hp : p ∈ ps) :
    Forms a (fun _ _ ps' => p ∈ ps') ws ps :=
  Plain.forms h fun _ _ _ hps => (hps.resolve_left nofun).subset hp

theorem forms_node_of {k : Kind} {body : Step Unit}
    (hbody : ∀ ws, Forms body (fun _ _ ps => k.WantsParts ps) ws [])
    (h : ∀ ws', U () ws' (ps ++ [.node k])) : Forms (node k body) U ws ps := by
  rw [forms_node]
  exact (hbody ws).mono fun _ ws' _ hps => ⟨hps, h ws'⟩

/-- A node that wants parts, made of these. -/
theorem plain_node_of_forms {i : Bool} {k : Kind} {body : Step Unit}
    (h : ∀ ws, Forms body (fun _ _ ps => k.WantsParts ps) ws []) : Plain i (node k body) := by
  refine .inr fun ws => ?_
  simp only [↓forms_bind, ↓forms_begins, ↓forms_enclose]
  exact (h ws).mono fun _ _ _ hps => ⟨hps, trivial⟩

@[simp] theorem nodeKinds_firstPart : Part.nodeKinds (firstPart ws) = [] := by
  cases ws with
  | nil => rfl
  | cons w ws =>
    show Part.nodeKinds ([Tree.token w].filterMap Tree.part?) = []
    rw [List.filterMap_cons, Tree.part?]
    cases w.isTrivia <;> rfl

end Forms

section Forms

variable {ws : List Token} {ps : List Part} {U : Unit → List Token → List Part → Prop}
  {Q : Bool → List Token → List Part → Prop}

@[simp ↓ 1100] theorem forms_read_expression (power : Nat) : Forms (read (.expression power)) U ws ps ↔
    ∀ ws' e, Kind.isExpression e = true → U () ws' (ps ++ [.node e]) := by
  refine (forms_read _).trans ((and_iff_right trivial).trans (forall_congr' fun ws' =>
    ⟨fun h e he => h _ ⟨e, he, rfl⟩, ?_⟩))
  rintro h _ ⟨e, he, rfl⟩
  exact h e he

@[simp ↓] theorem forms_expression : Forms expression U ws ps ↔
    ∀ ws' e, Kind.isExpression e = true → U () ws' (ps ++ [.node e]) :=
  forms_read_expression 0

@[simp ↓] theorem forms_type :
    Forms type Q ws ps ↔ ∀ b ws', Q b ws' (ps ++ [.node .type]) := by
  simp [type, Rule.Gives, Rule.GoesOn]

@[simp ↓ 1100] theorem forms_read_initializer : Forms (read .initializer) U ws ps ↔
    ∀ ws', U () ws' (ps ++ [.node .initializerExpression]) := by
  simp [Rule.Gives, Rule.GoesOn]

end Forms

attribute [local simp] Rule.appends Rule.GoesOn Kind.isFree

variable {i : Bool}

@[simp] theorem plain_ensureProgress (what : String) (body : Step Unit) :
    Plain i (ensureProgress what body) ↔ Plain i body := by
  simp [ensureProgress]

@[simp] theorem plain_expectClosingAngle : Plain i expectClosingAngle := by
  simp only [expectClosingAngle, ↓plain_bind, ↓plain_current, true_and]
  intro k
  split <;> simp

/-! ## Types -/

@[simp] theorem plain_type : Plain i type := by
  simp [type]

@[simp] theorem plain_typeArgumentList : Plain i typeArgumentList := by
  simp [typeArgumentList]

@[simp] theorem plain_typeArguments : Plain i typeArguments := by
  simp [typeArguments]

@[simp] theorem plain_tupleElements : Plain i tupleElements := by
  simp [tupleElements]

@[simp] theorem plain_typeNameTail : Plain i typeNameTail := by
  simp [typeNameTail]

@[simp] theorem plain_typeHead : Plain i typeHead := by
  simp [typeHead]

@[simp] theorem plain_commas : Plain i commas := by
  simp [commas]

@[simp] theorem plain_arrayRank : Plain i arrayRank := by
  simp [arrayRank]

@[simp] theorem plain_typeProduction (inExpression : Bool) : Plain i (typeProduction inExpression) := by
  simp [typeProduction]

@[simp] theorem plain_nameSegments : Plain i nameSegments := by
  simp [nameSegments]

@[simp] theorem plain_dottedName : Plain i dottedName := by
  simp [dottedName]

@[simp] theorem plain_dottedSegments : Plain i dottedSegments := by
  simp [dottedSegments]

/-! ## Expressions -/

@[simp] theorem plain_expression : Plain i expression := by
  simp [expression]

@[simp] theorem plain_parenthesized : Plain i parenthesized := by
  simp [parenthesized]

@[simp] theorem plain_declarationExpression : Plain i declarationExpression := by
  simp [declarationExpression]

@[simp] theorem plain_designation : Plain i designation := by
  simp [designation]

@[simp] theorem plain_designated : Plain i designated := by
  simp [designated]

@[simp] theorem plain_argument : Plain i argument := by
  refine ⟨trivial, fun _ => plain_node_of_forms fun ws => ?_⟩
  simp +decide [Kind.WantsParts, declarationExpression]

@[simp] theorem plain_arguments (close : Kind) : Plain i (arguments close) := by
  simp [arguments]

@[simp] theorem plain_argumentList : Plain i argumentList := by
  simp [argumentList]

@[simp] theorem plain_bracketedArgumentList : Plain i bracketedArgumentList := by
  simp [bracketedArgumentList]

@[simp] theorem plain_nameExpression : Plain i nameExpression := by
  refine ⟨trivial, fun _ => plain_node_of_forms fun ws => ?_⟩
  simp [Kind.WantsParts, forms_mem]

@[simp] theorem plain_tupleValue : Plain i tupleValue := by
  have hargument : Plain i (node .argument (do Action.take; Action.take; expression)) :=
    plain_node_of_forms fun ws => by simp [Kind.WantsParts]
  simp [tupleValue, hargument, -plain_node]

@[simp] theorem plain_moreTupleValues (isTuple : Bool) : Plain i (moreTupleValues isTuple) := by
  simp [moreTupleValues]

@[simp] theorem plain_initialValue : Plain i initialValue := by
  simp [initialValue]

@[simp] theorem plain_initializer : Plain i initializer := by
  simp [initializer]

theorem forms_initialValue {ws : List Token} {ps : List Part}
    {U : Unit → List Token → List Part → Prop}
    (h : ∀ ws' e, Kind.isExpression e = true → U () ws' (ps ++ [.node e])) :
    Forms initialValue U ws ps := by
  rw [initialValue, forms_bind, forms_sees, forms_ite]
  split
  · exact forms_read_initializer.mpr fun ws' => h ws' _ rfl
  · exact forms_expression.mpr h

@[simp] theorem plain_indexedElement : Plain i indexedElement := by
  have hformed : ∀ ws, Forms indexedElement (fun _ _ _ => True) ws [] := by
    intro ws
    rw [indexedElement, forms_frame, forms_bind]
    refine forms_node_of (fun ws => forms_of_plain (by simp)) fun ws' => ?_
    rw [forms_bind, forms_sees, forms_ite]
    split
    · rw [forms_bind, forms_begins, forms_bind, forms_take, forms_bind]
      refine forms_initialValue fun ws'' e he => ?_
      exact ⟨⟨.elementAccessExpression, e, rfl, he, by simp⟩, trivial⟩
    · trivial
  exact .inr hformed

@[simp] theorem plain_initializerElements : Plain i initializerElements := by
  simp only [initializerElements, ↓plain_bind, ↓plain_current, ↓plain_ite, true_and]
  intro k
  split
  · simp
  · split <;> simp

@[simp] theorem plain_arrayRanks : Plain i arrayRanks := by
  simp [arrayRanks]

@[simp] theorem plain_optionalInitializer : Plain i optionalInitializer := by
  simp [optionalInitializer]

@[simp] theorem plain_newExpression : Plain true newExpression := by
  simp only [newExpression, ↓plain_bind, ↓plain_take, ↓plain_current, true_and]
  intro _ k
  split <;> simp

@[simp] theorem plain_attributeUse : Plain i attributeUse := by
  simp [attributeUse]

@[simp] theorem plain_attributes : Plain i attributes := by
  simp [attributes]

@[simp] theorem plain_attributeList : Plain i attributeList := by
  simp [attributeList]

@[simp] theorem plain_parameterModifierWords : Plain i parameterModifierWords := by
  simp only [parameterModifierWords, ↓plain_bind, ↓plain_current, true_and]
  intro k
  split <;> simp

@[simp] theorem plain_parameterModifiers : Plain i parameterModifiers := by
  simp [parameterModifiers]

@[simp] theorem plain_parameter : Plain i parameter := by
  simp [parameter]

@[simp] theorem plain_parameters (close : Kind) : Plain i (parameters close) := by
  simp [parameters]

@[simp] theorem plain_parameterList : Plain i parameterList := by
  simp [parameterList]

@[simp] theorem plain_bracketedParameterList : Plain i bracketedParameterList := by
  simp [bracketedParameterList]

@[simp] theorem plain_lambdaParameter : Plain i lambdaParameter := by
  simp [lambdaParameter]

@[simp] theorem plain_lambdaParameters : Plain i lambdaParameters := by
  simp [lambdaParameters]

@[simp] theorem plain_lambdaHead : Plain i lambdaHead := by
  simp [lambdaHead]

@[simp] theorem plain_lambdaExpression : Plain true lambdaExpression := by
  simp [lambdaExpression]

@[simp] theorem plain_whenClause : Plain i whenClause := by
  simp [whenClause]

@[simp] theorem plain_primaryPattern : Plain i primaryPattern := by
  simp [primaryPattern]

@[simp] theorem plain_patternOperators : Plain true patternOperators := by
  simp [patternOperators]

@[simp] theorem plain_pattern : Plain i pattern := by
  simp [pattern]

@[simp] theorem plain_switchArms : Plain i switchArms := by
  simp [switchArms]

@[simp] theorem plain_switchTail : Plain true switchTail := by
  simp [switchTail]

@[simp] theorem plain_single (kind : Kind) :
    Plain true (single kind) ↔ kind.isFree = true := by
  simp [single, -Kind.isFree]

@[simp] theorem plain_prefixed (kind : Kind) :
    Plain true (prefixed kind) ↔ kind.isFree = true := by
  simp [prefixed, -Kind.isFree]

@[simp] theorem plain_typeOperator (kind : Kind) :
    Plain true (typeOperator kind) ↔ kind.isFree = true := by
  simp [typeOperator, -Kind.isFree]

@[simp] theorem plain_conditionalTail : Plain true conditionalTail := by
  simp [conditionalTail]

@[simp] theorem plain_typeTestTail (op : Kind) : Plain true (typeTestTail op) := by
  simp [typeTestTail]

/-! ## Statements -/

theorem forms_declarator {ws : List Token} {ps : List Part} {U : Unit → List Token → List Part → Prop}
    (h : ∀ ws', U () ws' (ps ++ [.node .variableDeclarator])) : Forms declarator U ws ps := by
  refine forms_node_of (fun ws => ?_) h
  rw [forms_bind, forms_expectIdentifier]
  exact fun _ => forms_mem (by simp) (by simp)

@[simp] theorem plain_declarator : Plain i declarator := by
  have hformed : ∀ ws, Forms declarator (fun _ _ _ => True) ws [] :=
    fun _ => forms_declarator fun _ => trivial
  exact ⟨trivial, fun _ => .inr hformed⟩

@[simp] theorem plain_moreDeclarators : Plain i moreDeclarators := by
  simp [moreDeclarators]

theorem forms_declaratorList {ws : List Token} {ps : List Part}
    {U : Unit → List Token → List Part → Prop}
    (h : ∀ ws', U () ws' (ps ++ [.node .variableDeclaratorList])) :
    Forms declaratorList U ws ps := by
  refine forms_node_of (fun ws => forms_declarator fun ws' => ?_) h
  exact forms_mem (by simp) (by simp)

@[simp] theorem plain_declaratorList : Plain i declaratorList := by
  have hformed : ∀ ws, Forms declaratorList (fun _ _ _ => True) ws [] :=
    fun _ => forms_declaratorList fun _ => trivial
  exact .inr hformed

@[simp] theorem plain_variableDeclaration : Plain i variableDeclaration := by
  refine ⟨trivial, fun _ => plain_node_of_forms fun ws => ?_⟩
  rw [forms_bind, forms_type]
  exact fun _ _ => forms_declaratorList fun _ => rfl

@[simp] theorem plain_arrowClause : Plain i arrowClause := by
  simp [arrowClause]

@[simp] theorem plain_functionBody : Plain i functionBody := by
  simp only [functionBody, ↓plain_bind, ↓plain_current, true_and]
  intro k
  split <;> simp

@[simp] theorem plain_statements : Plain i statements := by
  simp [statements]

@[simp] theorem plain_block : Plain i block := by
  simp [block]

@[simp] theorem plain_embeddedStatement : Plain i embeddedStatement := by
  simp [embeddedStatement]

@[simp] theorem plain_attributeLists : Plain i attributeLists := by
  simp [attributeLists]

@[simp] theorem plain_typeParameter : Plain i typeParameter := by
  refine ⟨trivial, fun _ => plain_node_of_forms fun ws => ?_⟩
  simp [Kind.WantsParts]

@[simp] theorem plain_typeParameters : Plain i typeParameters := by
  simp [typeParameters]

@[simp] theorem plain_typeParameterList : Plain i typeParameterList := by
  simp [typeParameterList]

@[simp] theorem plain_optionalTypeParameters : Plain i optionalTypeParameters := by
  simp [optionalTypeParameters]

@[simp] theorem plain_constraint : Plain i constraint := by
  simp only [constraint, ↓plain_bind, ↓plain_current, true_and]
  intro k
  split <;> simp

@[simp] theorem plain_constraints : Plain i constraints := by
  simp [constraints]

@[simp] theorem plain_constraintClause : Plain i constraintClause := by
  simp [constraintClause]

@[simp] theorem plain_constraintClauses : Plain i constraintClauses := by
  simp [constraintClauses]

@[simp] theorem plain_functionRest : Plain i functionRest := by
  simp [functionRest]

@[simp] theorem plain_jumpStatement (kind : Kind) (what : String) :
    Plain true (jumpStatement kind what) ↔ kind.isFree = true := by
  simp [jumpStatement, -Kind.isFree]

@[simp] theorem plain_valueStatement (kind : Kind) (what : String) :
    Plain true (valueStatement kind what) ↔ kind.isFree = true := by
  simp [valueStatement, -Kind.isFree]

@[simp] theorem plain_conditionStatement (kind : Kind) :
    Plain true (conditionStatement kind) ↔ kind.isFree = true := by
  simp [conditionStatement, -Kind.isFree]

@[simp] theorem plain_blockStatement (kind : Kind) :
    Plain true (blockStatement kind) ↔ kind.isFree = true := by
  simp [blockStatement, -Kind.isFree]

@[simp] theorem plain_labeledStatement : Plain true labeledStatement := by
  simp [labeledStatement]

@[simp] theorem plain_ifStatement : Plain true ifStatement := by
  simp [ifStatement]

@[simp] theorem plain_doStatement : Plain true doStatement := by
  simp [doStatement]

@[simp] theorem plain_usingStatement : Plain true usingStatement := by
  simp [usingStatement]

@[simp] theorem plain_gotoStatement : Plain true gotoStatement := by
  simp only [gotoStatement, ↓plain_bind, ↓plain_begins, ↓plain_take, ↓plain_current, true_and]
  intro _ _ k
  split <;> simp

@[simp] theorem plain_yieldStatement : Plain true yieldStatement := by
  simp [yieldStatement]

@[simp] theorem plain_expressionList : Plain i expressionList := by
  simp [expressionList]

@[simp] theorem plain_forHeader : Plain i forHeader := by
  simp [forHeader]

@[simp] theorem plain_forStatement : Plain true forStatement := by
  simp [forStatement]

@[simp] theorem plain_foreachStatement : Plain true foreachStatement := by
  simp [foreachStatement]

@[simp] theorem plain_switchLabel : Plain i switchLabel := by
  simp [switchLabel]

@[simp] theorem plain_switchLabels : Plain i switchLabels := by
  simp [switchLabels]

@[simp] theorem plain_sectionStatements : Plain i sectionStatements := by
  simp [sectionStatements]

@[simp] theorem plain_switchSection : Plain i switchSection := by
  simp [switchSection]

@[simp] theorem plain_switchSections : Plain i switchSections := by
  simp [switchSections]

@[simp] theorem plain_switchStatement : Plain true switchStatement := by
  simp [switchStatement]

@[simp] theorem plain_catchDeclaration : Plain i catchDeclaration := by
  simp [catchDeclaration]

@[simp] theorem plain_catchClauses : Plain i catchClauses := by
  simp [catchClauses]

@[simp] theorem plain_tryStatement : Plain true tryStatement := by
  simp [tryStatement]

@[simp] theorem plain_localModifierWords : Plain i localModifierWords := by
  simp [localModifierWords]

@[simp] theorem plain_localModifiers : Plain i localModifiers := by
  simp [localModifiers]

@[simp] theorem plain_plainStatement : Plain true plainStatement := by
  simp only [plainStatement, ↓plain_bind, ↓plain_ahead, true_and]
  intro k
  split <;> simp

@[simp] theorem plain_identifierStatement : Plain true identifierStatement := by
  simp [identifierStatement]

@[simp] theorem plain_statementBody : Plain true statementBody := by
  simp only [statementBody, ↓plain_bind, ↓plain_current, true_and]
  intro k
  split <;> simp

@[simp] theorem plain_statement : Plain i statement := by
  simp [statement]

/-! ## Declarations -/

@[simp] theorem plain_modifierWords : Plain i modifierWords := by
  simp [modifierWords]

@[simp] theorem plain_modifiers : Plain i modifiers := by
  simp [modifiers]

@[simp] theorem plain_baseTypes : Plain i baseTypes := by
  simp [baseTypes]

@[simp] theorem plain_optionalBaseList : Plain i optionalBaseList := by
  simp [optionalBaseList]

@[simp] theorem plain_typeMembers : Plain i typeMembers := by
  simp [typeMembers]

@[simp] theorem plain_typeBody : Plain i typeBody := by
  simp [typeBody]

@[simp] theorem plain_enumMember : Plain i enumMember := by
  simp [enumMember]

@[simp] theorem plain_enumMembers : Plain i enumMembers := by
  simp [enumMembers]

@[simp] theorem plain_enumDeclaration : Plain true enumDeclaration := by
  simp [enumDeclaration]

@[simp] theorem plain_delegateDeclaration : Plain true delegateDeclaration := by
  simp [delegateDeclaration]

@[simp] theorem plain_typeDeclaration : Plain i typeDeclaration := by
  simp [typeDeclaration]

@[simp] theorem plain_skipTo (boundary : Boundary) : Plain i (skipTo boundary) := by
  simp [skipTo]

@[simp] theorem plain_skipToMember : Plain i skipToMember := by
  simp [skipToMember]

@[simp] theorem plain_accessors : Plain i accessors := by
  simp [accessors]

@[simp] theorem plain_accessorList : Plain i accessorList := by
  simp [accessorList]

@[simp] theorem plain_propertyBody : Plain i propertyBody := by
  simp [propertyBody]

@[simp] theorem plain_destructorDeclaration : Plain true destructorDeclaration := by
  simp [destructorDeclaration]

@[simp] theorem plain_conversionOperator : Plain true conversionOperator := by
  simp [conversionOperator]

@[simp] theorem plain_constructorInitializer : Plain i constructorInitializer := by
  simp [constructorInitializer]

@[simp] theorem plain_constructorDeclaration : Plain true constructorDeclaration := by
  simp [constructorDeclaration]

@[simp] theorem plain_operatorDeclaration : Plain true operatorDeclaration := by
  simp [operatorDeclaration]

@[simp] theorem plain_indexerDeclaration : Plain true indexerDeclaration := by
  simp [indexerDeclaration]

@[simp] theorem plain_usingDirective : Plain i usingDirective := by
  simp [usingDirective]

@[simp] theorem plain_namespaceDeclaration : Plain i namespaceDeclaration := by
  simp [namespaceDeclaration]

@[simp] theorem plain_misplacedWords : Plain i misplacedWords := by
  simp [misplacedWords]

@[simp] theorem plain_namespaceMembers (braced : Bool) : Plain i (namespaceMembers braced) := by
  simp [namespaceMembers]

/-! ## Operands and operators -/

section

variable {ws : List Token} {ps : List Part} {U : Unit → List Token → List Part → Prop}

/-- An expression of which nothing is asked. -/
def IsFreeExpression (k : Kind) : Prop := k.isExpression = true ∧ k.isFree = true

theorem forms_value_of_closes {a : Step Unit} (h : Closes IsFreeExpression a) :
    Forms a (fun _ _ ps => Part.IsValue ps) ws ps :=
  Action.Closes.forms h fun _ _ ps' k _ hk =>
    ⟨k.wantsParts_of_isFree hk.2 ps', k, hk.1, rfl⟩

theorem closes_single {k : Kind} (hk : IsFreeExpression k) : Closes IsFreeExpression (single k) :=
  ⟨trivial, fun _ => ⟨trivial, fun _ => hk⟩⟩

theorem closes_prefixed {k : Kind} (hk : IsFreeExpression k) :
    Closes IsFreeExpression (prefixed k) := by
  simp [prefixed, hk]

theorem closes_typeOperator {k : Kind} (hk : IsFreeExpression k) :
    Closes IsFreeExpression (typeOperator k) := by
  simp [typeOperator, hk]

theorem closes_newExpression : Closes IsFreeExpression newExpression := by
  simp only [newExpression, ↓closes_bind, ↓plain_take, ↓plain_current, true_and]
  intro _ k
  split <;> simp +decide [IsFreeExpression]

theorem closes_lambdaExpression : Closes IsFreeExpression lambdaExpression := by
  simp +decide [lambdaExpression, IsFreeExpression]

theorem closes_switchTail : Closes IsFreeExpression switchTail := by
  simp +decide [switchTail, IsFreeExpression]

theorem closes_conditionalTail : Closes IsFreeExpression conditionalTail := by
  simp +decide [conditionalTail, IsFreeExpression]

theorem closes_typeTestTail (op : Kind) : Closes IsFreeExpression (typeTestTail op) := by
  simp +decide [typeTestTail, IsFreeExpression]

theorem forms_declarationExpression (h : ∀ ws', U () ws' (ps ++ [.node .declarationExpression])) :
    Forms declarationExpression U ws ps := by
  rw [declarationExpression, forms_bind, forms_skipTrivia]
  exact forms_node_of (fun ws => forms_of_plain (by simp)) h

theorem forms_nameExpression (h : ∀ ws', U () ws' (ps ++ [.node .nameExpression])) :
    Forms nameExpression U ws ps := by
  rw [nameExpression, forms_bind, forms_skipTrivia]
  refine forms_node_of (fun ws => ?_) h
  simp [Kind.WantsParts, forms_mem]

theorem forms_argumentList (h : ∀ ws', U () ws' (ps ++ [.node .argumentList])) :
    Forms argumentList U ws ps :=
  forms_node_of (fun ws => forms_of_plain (by simp)) h

theorem forms_identifierOperand :
    Forms identifierOperand (fun _ _ ps => Part.IsValue ps) ws [] := by
  simp only [identifierOperand, ↓forms_bind, ↓forms_ahead, ↓forms_ite]
  split
  · exact forms_value_of_closes closes_lambdaExpression
  split
  · exact forms_value_of_closes closes_lambdaExpression
  split
  · exact forms_declarationExpression fun _ => ⟨_, rfl, rfl⟩
  split
  · exact forms_value_of_closes (closes_prefixed ⟨rfl, rfl⟩)
  · exact forms_nameExpression fun _ => ⟨_, rfl, rfl⟩

theorem forms_parenOperand : Forms parenOperand (fun _ _ ps => Part.IsValue ps) ws [] := by
  rw [parenOperand, forms_bind, forms_ahead, forms_ite]
  split
  · exact forms_value_of_closes closes_lambdaExpression
  rw [forms_bind, forms_ahead, forms_ite]
  split
  · -- A cast: the type stands between the parentheses, and the operand behind them.
    simp +contextual +decide [Kind.WantsParts, Part.IsValue]
  · refine forms_value_of_closes ?_
    simp +decide [IsFreeExpression]

theorem forms_operand : Forms operand (fun _ _ ps => Part.IsValue ps) ws [] := by
  rw [operand, forms_bind, forms_current, forms_ite]
  split
  · exact forms_value_of_closes (closes_single ⟨rfl, rfl⟩)
  rw [forms_ite]
  split
  · exact forms_value_of_closes (closes_single ⟨rfl, rfl⟩)
  split
  case h_21 => exact forms_identifierOperand
  case h_22 => exact forms_parenOperand
  case h_23 => trivial
  all_goals refine forms_value_of_closes ?_
  case h_3 => exact closes_newExpression
  case h_10 => exact closes_lambdaExpression
  case h_1 | h_2 => exact closes_single ⟨rfl, rfl⟩
  case h_4 | h_5 => exact closes_typeOperator ⟨rfl, rfl⟩
  case h_6 | h_7 | h_8 | h_9 => simp +decide [IsFreeExpression]
  all_goals exact closes_prefixed ⟨rfl, rfl⟩

/-! ### Operators -/

theorem forms_invocation (h : Part.IsValue ps) :
    Forms (do begins .invocationExpression; argumentList; Action.enclose .invocationExpression)
      (fun _ _ ps => Part.IsValue ps) ws ps := by
  obtain ⟨e, he, rfl⟩ := h
  rw [forms_bind, forms_begins, forms_bind]
  refine forms_argumentList fun ws' => ?_
  exact ⟨⟨e, he, rfl⟩, _, rfl, rfl⟩

theorem forms_memberAccess (h : Part.IsValue ps) :
    Forms (do begins .memberAccessExpression; Action.take; nameExpression
              Action.enclose .memberAccessExpression)
      (fun _ _ ps => Part.IsValue ps) ws ps := by
  obtain ⟨e, he, rfl⟩ := h
  rw [forms_bind, forms_begins, forms_bind, forms_take, forms_bind]
  refine forms_nameExpression fun ws' => ?_
  exact ⟨⟨e, he, by simp⟩, _, rfl, rfl⟩

/-- Two operands with an operator between them, which may be an assignment. -/
theorem forms_binaryTail {b : Binding}
    (hb : b.kind = .binaryExpression ∨ b.kind = .assignmentExpression) (h : Part.IsValue ps) :
    Forms (binaryTail b) (fun _ _ ps => Part.IsValue ps) ws ps := by
  obtain ⟨e, he, rfl⟩ := h
  -- The right operand, whichever way it is read.
  have hright : ∀ f : Kind, f.isExpression = true →
      b.kind.WantsParts ([.node e] ++ firstPart ws ++ [.node f]) ∧ Part.IsValue [.node b.kind] := by
    intro f hf
    rcases hb with hb | hb <;> rw [hb]
    · exact ⟨trivial, _, rfl, rfl⟩
    · exact ⟨⟨e, f, he, hf, by simp⟩, _, rfl, rfl⟩
  rw [binaryTail, forms_bind, forms_begins, forms_bind, forms_take, forms_bind, forms_sees,
    forms_ite]
  split
  · rw [forms_bind, forms_read_initializer]
    exact fun _ => hright _ rfl
  · rw [forms_bind, forms_read_expression]
    exact fun _ => hright

theorem forms_operatorStep {power : Nat} {op : Kind} {named : Bool} {step : Step Unit}
    (hstep : operatorStep? power op named = some step) (h : Part.IsValue ps) :
    Forms step (fun _ _ ps => Part.IsValue ps) ws ps := by
  unfold operatorStep? at hstep
  split at hstep
  case h_13 =>
    split at hstep
    · rename_i b hb
      split at hstep <;> cases hstep
      exact forms_binaryTail (binding_kind hb) h
    · cases hstep
  case h_1 =>
    cases hstep
    exact forms_invocation h
  case h_2 | h_3 | h_4 =>
    split at hstep <;> cases hstep
    exact forms_memberAccess h
  case h_5 =>
    cases hstep
    exact forms_value_of_closes (by simp +decide [IsFreeExpression])
  case h_6 | h_7 | h_8 =>
    cases hstep
    exact forms_value_of_closes (closes_single ⟨rfl, rfl⟩)
  case h_9 =>
    split at hstep <;> cases hstep
    exact forms_value_of_closes closes_switchTail
  case h_10 | h_11 =>
    split at hstep <;> cases hstep
    exact forms_value_of_closes (closes_typeTestTail _)
  case h_12 =>
    split at hstep <;> cases hstep
    exact forms_value_of_closes closes_conditionalTail

theorem forms_operators (power : Nat) (h : Part.IsValue ps) :
    Forms (operators power) (fun _ _ ps => Part.IsValue ps) ws ps := by
  rw [operators, forms_bind, forms_current, forms_bind, forms_ahead]
  split
  · exact h
  · rename_i step hstep
    rw [forms_bind]
    refine (forms_operatorStep hstep h).mono fun _ ws' ps' hps' => ?_
    exact (forms_read _).mpr ⟨hps', fun _ _ hgives => hgives⟩

theorem forms_expressionProduction (power : Nat) :
    Forms (expressionProduction power)
      (fun _ _ ps' => ∃ e : Kind, e.isExpression = true ∧ ps' = ps ++ [.node e]) ws ps := by
  rw [expressionProduction, forms_bind, forms_skipTrivia, forms_frame, forms_bind]
  refine forms_operand.mono fun _ ws' ps' hps' => ?_
  refine (forms_read _).mpr ⟨hps', ?_⟩
  rintro ws'' _ ⟨e, he, rfl⟩
  exact ⟨e, he, rfl⟩

end

/-! ## Declarations -/

section

variable {ws : List Token} {ps : List Part} {U : Unit → List Token → List Part → Prop}

theorem count_le_of_named {ps ps' : List Part} (h : ps ++ [.word .identifier] <+: ps') :
    ps.count (.word .identifier) + 1 ≤ ps'.count (.word .identifier) := by
  refine le_trans (le_of_eq ?_) (h.sublist.count_le _)
  simp

/-- Behind its first word, a declaration of a type begins with its name. -/
theorem forms_named (kind : Kind) {next : Step Unit} (hnext : Closes (· = kind) next)
    (hkind : ∀ ps', ps ++ [.word .identifier] <+: ps' → kind.WantsParts ps') :
    Forms (do expectIdentifier "type name"; next) (fun _ _ _ => True) ws ps := by
  rw [forms_bind, forms_expectIdentifier]
  intro _
  refine Action.Closes.forms hnext ?_
  rintro _ _ ps' _ hps' rfl
  exact ⟨hkind ps' hps', trivial⟩

/-- A class, struct or interface has a name. -/
theorem forms_typeWithMembers {kind : Kind} (hrecord : kind ≠ .recordDeclaration)
    (hkind : ∀ ps, .word .identifier ∈ ps → kind.WantsParts ps) :
    Forms (typeWithMembers kind) (fun _ _ _ => True) ws ps := by
  unfold typeWithMembers
  dsimp only
  rw [forms_bind, forms_begins, forms_bind, forms_take, if_neg (by simpa using hrecord)]
  exact forms_named _ (by simp) fun ps' hps' => hkind ps' (hps'.subset (by simp))

/-- A record has a name behind the word that makes it one. -/
theorem forms_record (h : front ws = .identifier) :
    Forms (typeWithMembers .recordDeclaration) (fun _ _ _ => True) ws ps := by
  unfold typeWithMembers
  dsimp only
  rw [forms_bind, forms_begins, forms_bind, forms_take, if_pos (by decide), forms_bind,
    forms_current, Words.firstPart_of_front h (by decide) rfl, forms_ite]
  have hcount : ∀ more : List Part,
      1 ≤ (ps ++ [Part.word .identifier] ++ more).count (Part.word .identifier) := by
    intro more
    simp
    omega
  split
  · rw [forms_bind, forms_take]
    exact forms_named .recordDeclaration (by simp) fun ps' hps' =>
      (Nat.succ_le_succ (hcount _)).trans (count_le_of_named hps')
  · rw [← List.append_nil (ps ++ _)]
    exact forms_named .recordDeclaration (by simp) fun ps' hps' =>
      (Nat.succ_le_succ (hcount _)).trans (count_le_of_named hps')

theorem forms_declaredType : Forms declaredType (fun _ _ _ => True) ws ps := by
  rw [declaredType, forms_bind, forms_current]
  split
  case h_4 hws =>
    rw [forms_bind, forms_ahead, forms_ite]
    split
    · exact forms_record hws
    · trivial
  case h_1 | h_2 | h_3 => exact forms_typeWithMembers (by decide) fun _ h => h
  case h_8 => trivial
  all_goals exact forms_of_plain (by simp)

theorem forms_parameterList (h : ∀ ws', U () ws' (ps ++ [.node .parameterList])) :
    Forms parameterList U ws ps :=
  forms_node_of (fun ws => forms_of_plain (by simp)) h

theorem forms_modifiers (h : ∀ ws', U () ws' (ps ++ [.node .modifiers])) :
    Forms modifiers U ws ps :=
  forms_node_of (fun ws => forms_of_plain (by simp)) h

theorem forms_functionRest (h : ∀ ws' ps', ps <+: ps' → .node .parameterList ∈ ps' → U () ws' ps') :
    Forms functionRest U ws ps := by
  have hplain : Plain false optionalTypeParameters := by simp
  rw [functionRest, forms_bind]
  refine hplain.forms fun _ ws' ps' hps' => ?_
  rw [forms_bind]
  refine forms_parameterList fun ws'' => ?_
  have hrest : Plain false (do read .constraintClauses; functionBody) := by simp
  refine hrest.forms fun _ ws₃ ps₃ hps₃ => h ws₃ ps₃ ?_ ?_
  · exact (hps'.resolve_left nofun).trans ((List.prefix_append ps' _).trans (hps₃.resolve_left nofun))
  · exact (hps₃.resolve_left nofun).subset (by simp)

/-- A method has a name, and a type in front of it and parameters behind. -/
theorem forms_namedMember (h : .node .type ∈ ps) (hws : front ws = .identifier) :
    Forms namedMember (fun _ _ _ => True) ws ps := by
  rw [namedMember, forms_bind, forms_take, forms_bind, forms_read,
    Words.firstPart_of_front hws (by decide) rfl]
  refine ⟨trivial, fun ws' ps' hps' => ?_⟩
  have hmem : Part.node Kind.type ∈ ps' ∧ Part.word Kind.identifier ∈ ps' :=
    ⟨hps'.subset (by simp [h]), hps'.subset (by simp)⟩
  rw [forms_bind, forms_current]
  split
  case h_1 | h_2 =>
    rw [forms_bind, forms_begins, forms_bind]
    refine forms_functionRest fun ws'' ps'' hps'' hparameters => ?_
    exact ⟨⟨hps''.subset hmem.1, hps''.subset hmem.2, hparameters⟩, trivial⟩
  case h_5 => trivial
  all_goals exact forms_of_plain (by simp)

/-- A field has one list of variables behind its modifiers. -/
theorem forms_typedMember : Forms typedMember (fun _ _ _ => True) ws [.node .modifiers] := by
  rw [typedMember, forms_bind, forms_skipTrivia, forms_bind, forms_frame, forms_bind, forms_type]
  intro _ ws'
  rw [forms_bind, forms_skipTrivia, forms_bind, forms_ahead, forms_ite]
  split
  · rw [forms_bind, forms_opening, forms_bind, forms_begins, forms_bind]
    refine forms_declaratorList fun ws'' => ?_
    rw [forms_bind, forms_enclose]
    refine ⟨rfl, ?_⟩
    rw [forms_pure, if_pos rfl, forms_bind, forms_expect]
    exact fun _ => ⟨by simp [Kind.WantsParts], trivial⟩
  · rw [forms_pure, if_neg (by decide), forms_bind, forms_current]
    split
    case h_3 hws => exact forms_namedMember (by simp) hws
    case h_4 => trivial
    all_goals exact forms_of_plain (by simp)

theorem forms_eventDeclaration : Forms eventDeclaration (fun _ _ _ => True) ws ps := by
  rw [eventDeclaration, forms_bind, forms_take, forms_bind, forms_skipTrivia, forms_bind,
    forms_frame, forms_bind, forms_type]
  intro _ ws'
  rw [forms_bind, forms_sees, forms_bind, forms_ahead, forms_ite]
  split
  · rw [forms_pure, if_pos rfl]
    exact forms_of_plain (by simp)
  · rw [forms_bind, forms_opening, forms_bind, forms_begins, forms_bind]
    refine forms_declaratorList fun ws'' => ?_
    rw [forms_bind, forms_enclose]
    refine ⟨rfl, ?_⟩
    rw [forms_pure, if_neg (by decide)]
    exact forms_of_plain (by simp)

theorem forms_declaredMember : Forms declaredMember (fun _ _ _ => True) ws [.node .modifiers] := by
  have hread : Forms (read .declaredType) (fun _ _ _ => True) ws [.node .modifiers] :=
    forms_of_plain (by simp)
  rw [declaredMember, forms_bind, forms_current]
  split
  case h_2 | h_3 | h_4 | h_5 | h_6 => exact hread
  case h_7 => exact forms_eventDeclaration
  case h_11 =>
    rw [forms_bind, forms_ahead, forms_ite]
    split
    · exact hread
    rw [forms_bind, forms_ahead, forms_ite]
    split
    · exact forms_of_plain (by simp)
    · exact forms_typedMember
  case h_12 =>
    rw [forms_ite]
    split
    · exact forms_typedMember
    · trivial
  all_goals exact forms_of_plain (by simp)

@[simp] theorem plain_member {i : Bool} : Plain i member := by
  have hformed : ∀ ws, Forms (do modifiers; declaredMember) (fun _ _ _ => True) ws [] :=
    fun ws => by
      rw [forms_bind]
      exact forms_modifiers fun _ => forms_declaredMember
  exact ⟨trivial, fun _ => .inr hformed⟩

end

/-! ## All productions -/

theorem forms_silently {step : Step Unit} {Q : List Part → Prop} {ws : List Token} {ps : List Part}
    (h : Forms step (fun _ _ => Q) ws ps) : Forms (silently step) (fun _ _ => Q) ws ps := h

theorem forms_of_appends {step : Step Unit} {ws : List Token} {ps : List Part}
    (h : Plain false step) : Forms (silently step) (fun _ _ ps' => ps <+: ps') ws ps :=
  have hplain : Plain false (silently step) := ⟨h, fun _ => trivial⟩
  hplain.forms fun _ _ _ hps => hps.resolve_left nofun

theorem forms_typeProduction (inExpression : Bool) {ws : List Token} {ps : List Part} :
    Forms (typeProduction inExpression) (fun _ _ ps' => ps' = ps ++ [.node .type]) ws ps := by
  have hhead : Plain false typeHead := plain_typeHead
  rw [typeProduction, forms_bind, forms_skipTrivia, forms_frame, forms_bind, forms_begins,
    forms_bind]
  refine hhead.forms fun _ _ _ _ => ?_
  rw [forms_bind, forms_call]
  exact ⟨trivial, fun _ _ _ _ => ⟨trivial, rfl⟩⟩

theorem forms_initializer {ws : List Token} {ps : List Part} :
    Forms initializer (fun _ _ ps' => ps' = ps ++ [.node .initializerExpression]) ws ps := by
  rw [initializer, forms_bind, forms_skipTrivia]
  exact forms_node_of (fun ws => forms_of_plain (by simp)) fun _ => rfl

/-- **Every production forms its nodes.** -/
theorem forms_production (r : Rule) (ws : List Token) (ps : List Part) (hps : r.GoesOn ps) :
    Forms (production r) (fun _ _ ps' => r.Gives ps ps') ws ps := by
  cases r with
  | type inExpression => exact forms_typeProduction inExpression
  | initializer => exact forms_silently forms_initializer
  | expression power => exact forms_silently (forms_expressionProduction power)
  | operators power => exact forms_silently (forms_operators power hps)
  | declaredType => exact forms_silently forms_declaredType
  | patternOperators => exact forms_silently (forms_of_plain plain_patternOperators)
  | typeSuffixes inExpression isArray =>
    have hplain : Plain false (typeSuffixes inExpression isArray) := by simp [typeSuffixes]
    exact hplain.forms fun _ _ _ hps => hps.resolve_left Bool.false_ne_true
  | moreTupleValues isTuple =>
    have hplain : Plain false (moreTupleValues isTuple) := by simp [moreTupleValues]
    exact hplain.forms fun _ _ _ hps => hps.resolve_left Bool.false_ne_true
  | namespaceMembers braced => exact forms_of_appends (plain_namespaceMembers braced)
  | namespaceDeclaration => exact forms_of_appends plain_namespaceDeclaration
  | typeDeclaration => exact forms_of_appends plain_typeDeclaration
  | typeParameters => exact forms_of_appends plain_typeParameters
  | attributeLists => exact forms_of_appends plain_attributeLists
  | baseTypes => exact forms_of_appends plain_baseTypes
  | constraintClauses => exact forms_of_appends plain_constraintClauses
  | constraints => exact forms_of_appends plain_constraints
  | enumMembers => exact forms_of_appends plain_enumMembers
  | typeMembers => exact forms_of_appends plain_typeMembers
  | member => exact forms_of_appends plain_member
  | skipTo boundary => exact forms_of_appends (plain_skipTo boundary)
  | dottedSegments => exact forms_of_appends plain_dottedSegments
  | accessors => exact forms_of_appends plain_accessors
  | modifierWords => exact forms_of_appends plain_modifierWords
  | attributes => exact forms_of_appends plain_attributes
  | nameSegments => exact forms_of_appends plain_nameSegments
  | parameters close => exact forms_of_appends (plain_parameters close)
  | parameterModifierWords => exact forms_of_appends plain_parameterModifierWords
  | arguments close => exact forms_of_appends (plain_arguments close)
  | designation => exact forms_of_appends plain_designation
  | designated => exact forms_of_appends plain_designated
  | block => exact forms_of_appends plain_block
  | statements => exact forms_of_appends plain_statements
  | statement => exact forms_of_appends plain_statement
  | localModifierWords => exact forms_of_appends plain_localModifierWords
  | moreDeclarators => exact forms_of_appends plain_moreDeclarators
  | switchSections => exact forms_of_appends plain_switchSections
  | switchLabels => exact forms_of_appends plain_switchLabels
  | sectionStatements => exact forms_of_appends plain_sectionStatements
  | expressionList => exact forms_of_appends plain_expressionList
  | catchClauses => exact forms_of_appends plain_catchClauses
  | tupleElements => exact forms_of_appends plain_tupleElements
  | typeNameTail => exact forms_of_appends plain_typeNameTail
  | commas => exact forms_of_appends plain_commas
  | typeArguments => exact forms_of_appends plain_typeArguments
  | arrayRanks => exact forms_of_appends plain_arrayRanks
  | initializerElements => exact forms_of_appends plain_initializerElements
  | lambdaParameters => exact forms_of_appends plain_lambdaParameters
  | switchArms => exact forms_of_appends plain_switchArms
  | pattern => exact forms_of_appends plain_pattern
  | primaryPattern => exact forms_of_appends plain_primaryPattern

end LivePatch.Grammar
