import LivePatch.Proofs.Grammar.Statements
import LivePatch.Proofs.Kinds

/-!
# Declarations keep the contract, and so does the grammar

Declarations may hold anything, so their levels need no care.  What does is the end of the text:
the members of a namespace that is not closed by a brace go on until nothing but the end is left,
which is why reading a source file uses up all of it.

The last theorem, `met_production`, puts all productions together.
-/

namespace LivePatch.Grammar

open LivePatch.Action (Safe Leads)
open Words (front Ended)

variable {P : Prop} {ws : List Token} {x : Frame}

/-! ## Modifiers -/

@[simp] theorem eq_eof_of_isModifier {k : Kind} (h : k.isModifier = true) : k = .eof ↔ False := by
  refine ⟨?_, False.elim⟩
  rintro rfl
  cases h

theorem safe_modifierWords {l : Level} :
    Safe contract modifierWords (fun _ _ y => y.Below P l) ws x ↔ x.Below P l := by
  simp only [modifierWords]
  simp +contextual [ite_or]

theorem leads_modifierWords : Leads contract 0 ws modifierWords (fun _ => True) := by
  simp only [modifierWords, attributeList]
  simp +contextual

@[simp] theorem safe_modifiers {l : Level} :
    Safe contract modifiers (fun _ _ y => y.Below P l) ws x ↔ x.Below P l := by
  simp [modifiers]

/-! ## Types -/

theorem safe_baseTypes {l : Level} :
    Safe contract baseTypes (fun _ _ y => y.Below P l) ws x ↔ x.Below P l := by
  simp [baseTypes]

theorem leads_baseTypes : Leads contract 2 ws baseTypes (fun _ => True) := by
  simp +contextual [baseTypes, type, argumentList]

@[simp] theorem safe_optionalBaseList {l : Level} :
    Safe contract optionalBaseList (fun _ _ y => y.Below P l) ws x ↔ x.Below P l := by
  simp [optionalBaseList]

theorem safe_typeMembers :
    Safe contract typeMembers (fun _ _ y => y.Below P .free) ws x ↔ x.Below P .free := by
  simp [typeMembers]

theorem leads_typeMembers : Leads contract 8 ws typeMembers (fun _ => True) := by
  simp +contextual [typeMembers]

@[simp] theorem safe_typeBody :
    Safe contract typeBody (fun _ _ y => y.Below P .free) ws x ↔ x.Below P .free := by
  simp [typeBody]

theorem isTypeDeclaration_iff {k : Kind} : k.isTypeDeclaration = true ↔
    k = .classDeclaration ∨ k = .structDeclaration ∨ k = .interfaceDeclaration ∨
      k = .recordDeclaration := by
  have hall : ∀ k : Kind, k.isTypeDeclaration = true ↔
      k = .classDeclaration ∨ k = .structDeclaration ∨ k = .interfaceDeclaration ∨
        k = .recordDeclaration := by
    intro k
    cases k <;> decide
  exact hall k

theorem safe_typeWithMembers {k : Kind} (h : front ws ≠ .eof) (hk : k.isTypeDeclaration = true) :
    Safe contract (typeWithMembers k) (fun _ _ y => y.Below P .free) ws x ↔ x.Below P .free := by
  simp only [typeWithMembers]
  obtain rfl | rfl | rfl | rfl := isTypeDeclaration_iff.mp hk <;> simp +contextual [h, ite_or]

@[simp] theorem safe_enumMember {l : Level} :
    Safe contract enumMember (fun _ _ y => y.Below P l) ws x ↔ x.Below P l := by
  simp [enumMember]

theorem safe_enumMembers {l : Level} :
    Safe contract enumMembers (fun _ _ y => y.Below P l) ws x ↔ x.Below P l := by
  simp [enumMembers]

theorem leads_enumMembers : Leads contract 2 ws enumMembers (fun _ => True) := by
  simp [enumMembers, enumMember, modifiers]

theorem safe_missingDeclaration :
    Safe contract missingDeclaration (fun _ _ y => y.Below P .free) ws x ↔ x.Below P .free := by
  simp only [missingDeclaration]
  simp +contextual

theorem safe_declaredType :
    Safe contract declaredType (fun _ _ y => y.Below P .free) ws x ↔ x.Below P .free := by
  rw [declaredType, safe_bind, safe_current]
  split <;> rename_i h
  case h_1 | h_2 | h_3 => exact safe_typeWithMembers (by simp [h]) rfl
  case h_4 =>
    have hne : front ws ≠ .eof := by simp [h]
    simp [safe_typeWithMembers hne (k := .recordDeclaration) rfl, safe_missingDeclaration]
  case h_5 => simp [enumDeclaration]
  case h_6 => simp [delegateDeclaration]
  case h_7 => simp [single, h]
  case h_8 => exact safe_missingDeclaration

theorem leads_declaredType : Leads contract 6 ws declaredType
    (fun _ => (front ws != .eof && front ws != .rBrace) = false) := by
  rw [declaredType, leads_bind, leads_current]
  split <;> rename_i h
  case h_1 | h_2 | h_3 => simp [typeWithMembers]
  case h_4 => simp [typeWithMembers, missingDeclaration, h]
  case h_5 => simp [enumDeclaration, h]
  case h_6 => simp [delegateDeclaration, h]
  case h_7 => simp [single]
  case h_8 =>
    simp +contextual [missingDeclaration]
    tauto

theorem safe_typeDeclaration :
    Safe contract typeDeclaration (fun _ _ y => y.Below P .free) ws x ↔ x.Below P .free := by
  simp [typeDeclaration]

theorem leads_typeDeclaration :
    Leads contract 7 ws typeDeclaration (fun _ => Words.atTypeDeclaration ws = false) := by
  have hstop : front ws = .eof ∨ front ws = .rBrace → Words.atTypeDeclaration ws = false := by
    rintro (h | h) <;> simp [Words.atTypeDeclaration, h, Kind.isModifier]
  simp [typeDeclaration, modifiers]
  tauto

/-! ## Members -/

@[simp] theorem safe_skipToMember :
    Safe contract skipToMember (fun _ _ y => y.Below P .free) ws x ↔ x.Below P .free := by
  simp +contextual [skipToMember]

theorem safe_brokenMember (problem : Problem) :
    Safe contract (brokenMember problem) (fun _ _ y => y.Below P .free) ws x ↔
      x.Below P .free := by
  simp +contextual [brokenMember, skipToMember]

theorem safe_accessors {l : Level} (hl : .plain ≤ l) :
    Safe contract accessors (fun _ _ y => y.Below P l) ws x ↔ x.Below P l := by
  simp only [accessors]
  simp +contextual [hl]

theorem leads_accessors : Leads contract 6 ws accessors (fun _ => True) := by
  simp only [accessors, modifiers]
  simp +contextual

@[simp] theorem safe_accessorList {l : Level} (hl : .plain ≤ l) :
    Safe contract accessorList (fun _ _ y => y.Below P l) ws x ↔ x.Below P l := by
  simp [accessorList, hl]

@[simp] theorem safe_propertyBody {l : Level} (hl : .plain ≤ l) :
    Safe contract propertyBody (fun _ _ y => y.Below P l) ws x ↔ x.Below P l := by
  simp [propertyBody, hl]

theorem safe_eventDeclaration (h : front ws ≠ .eof) :
    Safe contract eventDeclaration (fun _ _ y => y.Below P .free) ws x ↔ x.Below P .free := by
  simp only [eventDeclaration]
  simp +contextual [h]

theorem safe_operatorDeclaration (h : front ws ≠ .eof) :
    Safe contract operatorDeclaration (fun _ _ y => y.Below P .free) ws x ↔ x.Below P .free := by
  simp only [operatorDeclaration]
  simp +contextual [h]

theorem safe_constructorDeclaration (h : front ws ≠ .eof) :
    Safe contract constructorDeclaration (fun _ _ y => y.Below P .free) ws x ↔
      x.Below P .free := by
  simp only [constructorDeclaration, constructorInitializer]
  simp +contextual [h, ite_or]

theorem safe_namedMember (h : front ws ≠ .eof) (hx : x.Below P .free) :
    Safe contract namedMember (fun _ _ y => y.Below P .free) ws x := by
  rw [namedMember, safe_bind, safe_take, safe_bind, safe_read]
  refine ⟨h, trivial, fun ws' _ _ => ?_⟩
  rw [safe_bind, safe_current]
  split <;> simp [safe_brokenMember, hx]

theorem safe_typedMember (hx : x.Below P .free) :
    Safe contract typedMember (fun _ _ y => y.Below P .free) ws x := by
  rw [typedMember, safe_bind, safe_skipTrivia, safe_bind, safe_frame, safe_bind, type, safe_call]
  refine ⟨trivial, fun _ ws' _ _ => ?_⟩
  rw [safe_bind, safe_skipTrivia, safe_bind, safe_ahead, safe_ite]
  split
  · -- A field: its declarators follow.
    simp [hx]
  · -- Anything else, by the word behind the type.
    rw [safe_pure, if_neg Bool.false_ne_true, safe_bind, safe_current]
    split <;> rename_i h
    case h_1 => simp [safe_operatorDeclaration, h, hx]
    case h_2 => simp [indexerDeclaration, h, hx]
    case h_3 => exact safe_namedMember (by simp [h]) (by simp [hx])
    case h_4 => simp [safe_brokenMember, hx]

theorem safe_declaredMember (hx : x.Below P .free) :
    Safe contract declaredMember (fun _ _ y => y.Below P .free) ws x := by
  rw [declaredMember, safe_bind, safe_current]
  split <;> rename_i h
  case h_1 => simp [single, h, hx]
  case h_2 | h_3 | h_4 | h_5 | h_6 => simp [hx]
  case h_7 => simp [safe_eventDeclaration, h, hx]
  case h_8 => simp [destructorDeclaration, h, hx]
  case h_9 | h_10 => simp [conversionOperator, h, hx]
  case h_11 => simp [safe_constructorDeclaration, safe_typedMember, h, hx]
  case h_12 => simp [safe_typedMember, safe_brokenMember, hx]

theorem safe_member (hx : x.Below P .free) :
    Safe contract member (fun _ _ y => y.Below P .free) ws x := by
  rw [member, safe_bind, safe_skipTrivia, safe_frame, safe_bind]
  refine (safe_modifiers (l := .free) |>.mpr (Frame.below_inner.mpr hx)).mono fun _ ws y hy => ?_
  simp only [Frame.below_merge]
  exact safe_declaredMember hy

theorem leads_brokenMember (problem : Problem) :
    Leads contract 7 ws (brokenMember problem) (fun _ => True) := by
  simp +contextual [brokenMember, skipToMember]

theorem leads_typedMember : Leads contract 7 ws typedMember (fun _ => True) := by
  rw [typedMember, leads_bind, leads_skipTrivia, leads_bind, leads_frame, leads_bind, type,
    leads_call]
  refine ⟨by simp, .inr fun _ => ?_⟩
  rw [leads_bind, leads_skipTrivia, leads_bind, leads_ahead, leads_ite]
  split
  · simp [declaratorList, declarator, bracketedArgumentList]
  · rw [leads_pure, if_neg Bool.false_ne_true, leads_bind, leads_current]
    split
    · simp [operatorDeclaration]
    · simp [indexerDeclaration]
    · simp [namedMember]
    · exact leads_brokenMember _

theorem leads_member : Leads contract 7 ws member (fun _ => True) := by
  rw [member, leads_bind, leads_skipTrivia, leads_frame, modifiers, leads_bind, leads_node,
    leads_read]
  refine ⟨by simp, .inr ?_⟩
  rw [declaredMember, leads_bind, leads_current]
  split <;> rename_i h
  case h_1 => simp [single]
  case h_2 | h_3 | h_4 | h_5 | h_6 => simp
  case h_7 => simp [eventDeclaration]
  case h_8 => simp [destructorDeclaration]
  case h_9 | h_10 => simp [conversionOperator]
  case h_11 => simp [constructorDeclaration, leads_typedMember]
  case h_12 => simp [leads_typedMember, leads_brokenMember]

/-! ## Namespaces -/

theorem safe_skipTo (boundary : Boundary) {l : Level} (hx : x.Below P l) :
    Safe contract (skipTo boundary) (fun _ ws' y => y.Below P l ∧
      (Rule.exhausts (.skipTo boundary) = true → front ws' = .eof)) ws x := by
  rw [skipTo, safe_bind, safe_current, safe_ite]
  split
  · rename_i hstop
    refine ⟨hx, fun hex => ?_⟩
    cases boundary with
    | endOfText => simpa [Boundary.stopsAt] using hstop
    | topLevel | member => cases hex
  · rename_i hgo
    rw [safe_bind, safe_take, safe_read]
    refine ⟨fun he => hgo (by simp [he]), trivial, fun ws' _ hend => ⟨by simp [hx], hend⟩⟩

theorem leads_skipTo (boundary : Boundary) :
    Leads contract 0 ws (skipTo boundary) (fun _ => True) := by
  simp [skipTo]

/-- A word with a text stands before the end. -/
theorem front_tail_ne_eof {text : String} (hws : Ended ws) (ht : Words.frontText ws.tail = text)
    (hne : text ≠ "") : front ws.tail ≠ .eof := by
  intro he
  apply hne
  rw [← ht]
  rcases hws.cases with rfl | ⟨w, rest, rfl, -, -, hrest⟩
  · rfl
  · rw [List.tail_cons] at he ⊢
    rw [hrest.front_eq_eof he]
    rfl

theorem safe_usingDirective (hws : Ended ws) (h : atUsingDirective ws = true) :
    Safe contract usingDirective (fun _ _ y => y.Below P .free) ws x ↔ x.Below P .free := by
  by_cases hext : front ws = .externKw
  · have halias : Words.frontText ws.tail = "alias" := by
      simpa [atUsingDirective, hext] using h
    simp [usingDirective, hext, front_tail_ne_eof hws halias (by decide)]
  · simp +contextual [usingDirective, hext]

theorem leads_usingDirective {n : Nat} (h : atUsingDirective ws = true) :
    Leads contract n ws usingDirective (fun _ => False) := by
  unfold atUsingDirective at h
  split at h <;> rename_i hfront
  case h_4 => cases h
  all_goals simp [usingDirective, hfront]

theorem safe_namespaceDeclaration (hx : x.Below P .free) :
    Safe contract namespaceDeclaration (fun _ _ y => y.Below P .free) ws x := by
  rw [namespaceDeclaration, safe_node, safe_bind, safe_expect (by decide)]
  split
  all_goals
    rw [safe_bind]
    refine (safe_dottedName (P := x.Below P .free) (l := .free) |>.mpr (by simp [hx])).mono
      fun _ ws y hy => ?_
    simp +contextual [hy]

theorem leads_namespaceDeclaration :
    Leads contract (if front ws = .namespaceKw then 0 else 9) ws namespaceDeclaration
      (fun _ => (front ws == .namespaceKw) = false) := by
  simp +contextual [namespaceDeclaration, dottedName, typeArgumentList]

theorem safe_namespaceMembers (braced : Bool) (hws : Ended ws) (hx : x.Below P .free) :
    Safe contract (namespaceMembers braced) (fun _ ws' y => y.Below P .free ∧
      (Rule.exhausts (.namespaceMembers braced) = true → front ws' = .eof)) ws x := by
  rw [namespaceMembers, safe_bind, safe_current, safe_ite]
  split
  · rename_i hstop
    refine ⟨hx, fun hex => ?_⟩
    cases braced with
    | false => simpa using hstop
    | true => cases hex
  · rename_i hgo
    have hne : front ws ≠ .eof := fun he => hgo (by simp [he])
    have hrest : ∀ (ws : List Token) (y : Frame), y.Below P .free →
        Safe contract (read (.namespaceMembers braced)) (fun _ ws' y => y.Below P .free ∧
          (Rule.exhausts (.namespaceMembers braced) = true → front ws' = .eof)) ws y := by
      intro ws y hy
      rw [safe_read]
      exact ⟨trivial, fun ws' _ hend => ⟨by simp [hy], hend⟩⟩
    rw [safe_bind, safe_ahead, safe_ite, safe_ite]
    split
    · rename_i husing
      rw [safe_bind]
      exact ((safe_usingDirective hws husing).mpr hx).mono fun _ ws y hy => hrest ws y hy
    split
    · rw [safe_bind, safe_read]
      exact ⟨trivial, fun ws' _ _ => hrest ws' _ (by simp [hx])⟩
    rw [safe_bind, safe_ahead, safe_ite]
    split
    · rw [safe_bind, safe_read]
      exact ⟨trivial, fun ws' _ _ => hrest ws' _ (by simp [hx])⟩
    · rw [safe_bind, misplacedWords, safe_node, safe_bind, safe_report, safe_bind, safe_take,
        safe_read]
      exact ⟨hne, trivial, fun ws' _ _ => ⟨rfl, hrest ws' _ (by simp [hx])⟩⟩

theorem leads_namespaceMembers (braced : Bool) :
    Leads contract 8 ws (namespaceMembers braced) (fun _ => True) := by
  rw [namespaceMembers, leads_bind, leads_current, leads_ite]
  split
  · trivial
  · rw [leads_bind, leads_ahead, leads_ite, leads_ite]
    split
    · rename_i husing
      rw [leads_bind]
      exact (leads_usingDirective husing).mono fun _ h => h.elim
    split
    · simp_all
    rw [leads_bind, leads_ahead, leads_ite]
    split
    · simp_all
    · simp [misplacedWords]

/-! ## The whole grammar -/

section Silently

variable {r : Rule} {p : Step Unit}

theorem safe_silently {Q : Bool → List Token → Frame → Prop} :
    Safe contract (silently p) Q ws x ↔ Safe contract p (fun _ ws y => Q false ws y) ws x := by
  simp [silently]

theorem leads_silently {n : Nat} {R : Bool → Prop} :
    Leads contract n ws (silently p) R ↔ Leads contract n ws p (fun _ => R false) := by
  simp [silently]

end Silently

/-- Does a production promise nothing but a level? -/
def isOrdinary : Rule → Bool
  | .namespaceMembers _ | .skipTo _ | .expression _ | .operators _ => false
  | _ => true

theorem safe_ordinary {r : Rule} {l : Level} (h : isOrdinary r = true) (hneeds : r.Needs ws x)
    (hx : x.Below P l) (hl : r.level ≤ l) :
    Safe contract (production r) (fun _ _ y => y.Below P l) ws x := by
  have hfree : Level.free ≤ l → l = .free := fun h => le_antisymm (Level.le_free l) h
  cases r with
  | namespaceMembers | skipTo | expression | operators => cases h
  | namespaceDeclaration =>
    obtain rfl := hfree hl
    exact safe_silently.mpr (safe_namespaceDeclaration hx)
  | typeDeclaration =>
    obtain rfl := hfree hl
    exact safe_silently.mpr (safe_typeDeclaration.mpr hx)
  | declaredType =>
    obtain rfl := hfree hl
    exact safe_silently.mpr (safe_declaredType.mpr hx)
  | typeParameters => exact safe_silently.mpr (safe_typeParameters.mpr hx)
  | attributeLists => exact safe_silently.mpr (safe_attributeLists.mpr hx)
  | baseTypes => exact safe_silently.mpr (safe_baseTypes.mpr hx)
  | constraintClauses => exact safe_silently.mpr (safe_constraintClauses.mpr hx)
  | constraints => exact safe_silently.mpr (safe_constraints.mpr hx)
  | enumMembers => exact safe_silently.mpr (safe_enumMembers.mpr hx)
  | typeMembers =>
    obtain rfl := hfree hl
    exact safe_silently.mpr (safe_typeMembers.mpr hx)
  | member =>
    obtain rfl := hfree hl
    exact safe_silently.mpr (safe_member hx)
  | dottedSegments => exact safe_silently.mpr (safe_dottedSegments.mpr hx)
  | accessors => exact safe_silently.mpr ((safe_accessors hl).mpr hx)
  | modifierWords => exact safe_silently.mpr (safe_modifierWords.mpr hx)
  | attributes => exact safe_silently.mpr (safe_attributes.mpr hx)
  | nameSegments => exact safe_silently.mpr (safe_nameSegments.mpr hx)
  | parameters close => exact safe_silently.mpr ((safe_parameters close).mpr hx)
  | parameterModifierWords => exact safe_silently.mpr (safe_parameterModifierWords.mpr hx)
  | arguments close => exact safe_silently.mpr ((safe_arguments close).mpr hx)
  | designation => exact safe_silently.mpr ((safe_designation hneeds).mpr hx)
  | designated => exact safe_silently.mpr (safe_designated.mpr hx)
  | block => exact safe_silently.mpr ((safe_block hl).mpr hx)
  | statements => exact safe_silently.mpr ((safe_statements hl).mpr hx)
  | statement => exact safe_silently.mpr ((safe_statement hl).mpr hx)
  | localModifierWords => exact safe_silently.mpr (safe_localModifierWords.mpr hx)
  | moreDeclarators => exact safe_silently.mpr (safe_moreDeclarators.mpr hx)
  | switchSections => exact safe_silently.mpr ((safe_switchSections hl).mpr hx)
  | switchLabels => exact safe_silently.mpr (safe_switchLabels.mpr hx)
  | sectionStatements => exact safe_silently.mpr ((safe_sectionStatements hl).mpr hx)
  | expressionList => exact safe_silently.mpr (safe_expressionList.mpr hx)
  | catchClauses => exact safe_silently.mpr ((safe_catchClauses hl).mpr hx)
  | type inExpression => exact (safe_typeProduction inExpression).mpr hx
  | tupleElements => exact safe_silently.mpr (safe_tupleElements.mpr hx)
  | typeNameTail => exact safe_silently.mpr (safe_typeNameTail.mpr hx)
  | typeSuffixes inExpression isArray => exact (safe_typeSuffixes inExpression isArray).mpr hx
  | commas => exact safe_silently.mpr (safe_commas.mpr hx)
  | typeArguments => exact safe_silently.mpr (safe_typeArguments.mpr hx)
  | moreTupleValues isTuple => exact (safe_moreTupleValues isTuple).mpr hx
  | arrayRanks => exact safe_silently.mpr (safe_arrayRanks.mpr hx)
  | initializer => exact safe_silently.mpr (safe_initializer.mpr hx)
  | initializerElements => exact safe_silently.mpr (safe_initializerElements.mpr hx)
  | lambdaParameters => exact safe_silently.mpr (safe_lambdaParameters.mpr hx)
  | switchArms => exact safe_silently.mpr (safe_switchArms.mpr hx)
  | pattern => exact safe_silently.mpr (safe_pattern.mpr hx)
  | patternOperators => exact safe_silently.mpr (safe_patternOperators.mpr hx)
  | primaryPattern => exact safe_silently.mpr (safe_primaryPattern.mpr hx)

theorem leaves_of_ordinary {r : Rule} {y : Frame} (h : isOrdinary r = true)
    (hy : y.Below True (max x.level r.level)) : contract.Leaves r x ws y := by
  have hshape : r.shape x.shape = .mixed := by
    cases r <;> first | rfl | cases h
  have hex : r.exhausts = false := by
    cases r <;> first | rfl | cases h
  exact ⟨.inl hshape, hy.2, fun he => absurd (hex.symm.trans he) Bool.false_ne_true⟩

/-- **Every production keeps the contract**, as long as those it calls do. -/
theorem met_production : contract.Met production where
  safe r ws x hws hneeds := by
    have hx : x.Below True (max x.level r.level) := ⟨trivial, le_max_left _ _⟩
    cases hr : isOrdinary r with
    | true =>
      exact (safe_ordinary hr hneeds hx (le_max_right _ _)).mono
        fun _ _ _ hy => leaves_of_ordinary hr hy
    | false =>
      cases r with
      | namespaceMembers braced =>
        refine safe_silently.mpr ((safe_namespaceMembers braced hws (P := True) ?_).mono
          fun _ _ _ h => ⟨.inl rfl, ?_, h.2⟩)
        · exact ⟨trivial, Level.le_free _⟩
        · exact h.1.2.trans (le_max_right _ _)
      | skipTo boundary =>
        exact safe_silently.mpr ((safe_skipTo boundary hx).mono
          fun _ _ _ h => ⟨.inl rfl, h.1.2, h.2⟩)
      | expression power =>
        exact safe_silently.mpr ((safe_expressionProduction power hx).mono
          fun _ _ _ h => ⟨.inr h.1, h.2.2, nofun⟩)
      | operators power =>
        exact safe_silently.mpr (((safe_operators power hneeds).mpr hx).mono
          fun _ _ _ h => ⟨.inr h.1, h.2.2, nofun⟩)
      | _ => cases hr
  leads r ws hws := by
    cases r with
    | namespaceMembers braced =>
      exact leads_silently.mpr ((leads_namespaceMembers braced).mono fun _ _ => rfl)
    | skipTo boundary => exact leads_silently.mpr ((leads_skipTo boundary).mono fun _ _ => rfl)
    | namespaceDeclaration => exact leads_silently.mpr leads_namespaceDeclaration
    | typeDeclaration => exact leads_silently.mpr leads_typeDeclaration
    | declaredType => exact leads_silently.mpr leads_declaredType
    | typeParameters => exact leads_silently.mpr (leads_typeParameters.mono fun _ _ => rfl)
    | attributeLists => exact leads_silently.mpr (leads_attributeLists.mono fun _ _ => rfl)
    | baseTypes => exact leads_silently.mpr (leads_baseTypes.mono fun _ _ => rfl)
    | constraintClauses => exact leads_silently.mpr (leads_constraintClauses.mono fun _ _ => rfl)
    | constraints => exact leads_silently.mpr (leads_constraints.mono fun _ _ => rfl)
    | enumMembers => exact leads_silently.mpr (leads_enumMembers.mono fun _ _ => rfl)
    | typeMembers => exact leads_silently.mpr (leads_typeMembers.mono fun _ _ => rfl)
    | member => exact leads_silently.mpr (leads_member.mono fun _ _ => rfl)
    | dottedSegments => exact leads_silently.mpr (leads_dottedSegments.mono fun _ _ => rfl)
    | accessors => exact leads_silently.mpr (leads_accessors.mono fun _ _ => rfl)
    | modifierWords => exact leads_silently.mpr (leads_modifierWords.mono fun _ _ => rfl)
    | attributes => exact leads_silently.mpr (leads_attributes.mono fun _ _ => rfl)
    | nameSegments => exact leads_silently.mpr (leads_nameSegments.mono fun _ _ => rfl)
    | parameters close => exact leads_silently.mpr ((leads_parameters close).mono fun _ _ => rfl)
    | parameterModifierWords => exact leads_silently.mpr (leads_parameterModifierWords.mono fun _ _ => rfl)
    | arguments close => exact leads_silently.mpr ((leads_arguments close).mono fun _ _ => rfl)
    | designation => exact leads_silently.mpr (leads_designation.mono fun _ h => h.elim)
    | designated => exact leads_silently.mpr (leads_designated.mono fun _ _ => rfl)
    | block => exact leads_silently.mpr (leads_block.mono fun _ _ => rfl)
    | statements => exact leads_silently.mpr (leads_statements.mono fun _ _ => rfl)
    | statement => exact leads_silently.mpr (leads_statement.mono fun _ _ => rfl)
    | localModifierWords => exact leads_silently.mpr (leads_localModifierWords.mono fun _ _ => rfl)
    | moreDeclarators => exact leads_silently.mpr (leads_moreDeclarators.mono fun _ _ => rfl)
    | switchSections => exact leads_silently.mpr (leads_switchSections.mono fun _ _ => rfl)
    | switchLabels => exact leads_silently.mpr leads_switchLabels
    | sectionStatements => exact leads_silently.mpr (leads_sectionStatements.mono fun _ _ => rfl)
    | expressionList => exact leads_silently.mpr (leads_expressionList.mono fun _ _ => rfl)
    | catchClauses => exact leads_silently.mpr (leads_catchClauses.mono fun _ _ => rfl)
    | type inExpression => exact leads_typeProduction inExpression
    | tupleElements => exact leads_silently.mpr (leads_tupleElements.mono fun _ _ => rfl)
    | typeNameTail => exact leads_silently.mpr (leads_typeNameTail.mono fun _ _ => rfl)
    | typeSuffixes inExpression isArray => exact (leads_typeSuffixes inExpression isArray).mono fun _ _ => rfl
    | commas => exact leads_silently.mpr (leads_commas.mono fun _ _ => rfl)
    | typeArguments => exact leads_silently.mpr (leads_typeArguments.mono fun _ _ => rfl)
    | moreTupleValues isTuple => exact (leads_moreTupleValues isTuple).mono fun _ _ => rfl
    | arrayRanks => exact leads_silently.mpr (leads_arrayRanks.mono fun _ _ => rfl)
    | initializer => exact leads_silently.mpr (leads_initializer.mono fun _ _ => rfl)
    | initializerElements => exact leads_silently.mpr (leads_initializerElements.mono fun _ _ => rfl)
    | lambdaParameters => exact leads_silently.mpr (leads_lambdaParameters.mono fun _ _ => rfl)
    | switchArms => exact leads_silently.mpr (leads_switchArms.mono fun _ _ => rfl)
    | pattern => exact leads_silently.mpr (leads_pattern.mono fun _ _ => rfl)
    | patternOperators => exact leads_silently.mpr (leads_patternOperators.mono fun _ _ => rfl)
    | primaryPattern => exact leads_silently.mpr (leads_primaryPattern.mono fun _ _ => rfl)
    | expression power =>
      exact leads_silently.mpr ((leads_expressionProduction power).mono fun _ _ => rfl)
    | operators power => exact leads_silently.mpr ((leads_operators power).mono fun _ _ => rfl)

end LivePatch.Grammar
