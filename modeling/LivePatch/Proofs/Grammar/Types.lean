import LivePatch.Proofs.Grammar.Agreement

/-!
# Types keep the contract

Each step in the productions of types is safe and builds nothing above any level, and each
production takes a word before it comes to itself again.  A type takes one whenever its first word
can start a type.
-/

namespace LivePatch.Grammar

open LivePatch.Action (Safe Leads)
open Words (front)

variable {P : Prop} {l : Level} {ws : List Token} {x : Frame}

@[simp] theorem safe_expectClosingAngle :
    Safe contract expectClosingAngle (fun _ _ y => y.Below P l) ws x ↔ x.Below P l := by
  simp only [expectClosingAngle, ↓safe_bind, ↓safe_current]
  split <;> simp_all

@[simp] theorem safe_typeArgumentList :
    Safe contract typeArgumentList (fun _ _ y => y.Below P l) ws x ↔ x.Below P l := by
  simp [typeArgumentList]

@[simp] theorem safe_type : Safe contract type (fun _ _ y => y.Below P l) ws x ↔ x.Below P l := by
  simp [type]

theorem safe_typeArguments :
    Safe contract typeArguments (fun _ _ y => y.Below P l) ws x ↔ x.Below P l := by
  simp +contextual [typeArguments]

theorem leads_typeArguments : Leads contract 2 ws typeArguments (fun _ => True) := by
  simp [typeArguments, type]

theorem safe_tupleElements :
    Safe contract tupleElements (fun _ _ y => y.Below P l) ws x ↔ x.Below P l := by
  simp [tupleElements]

theorem leads_tupleElements : Leads contract 2 ws tupleElements (fun _ => True) := by
  simp [tupleElements, type]

theorem safe_typeNameTail :
    Safe contract typeNameTail (fun _ _ y => y.Below P l) ws x ↔ x.Below P l := by
  simp +contextual [typeNameTail]

theorem leads_typeNameTail : Leads contract 0 ws typeNameTail (fun _ => True) := by
  simp [typeNameTail, typeArgumentList]

@[simp] theorem safe_typeHead :
    Safe contract typeHead (fun _ _ y => y.Below P l) ws x ↔ x.Below P l := by
  simp +contextual [typeHead, ite_or]

theorem safe_commas : Safe contract commas (fun _ _ y => y.Below P l) ws x ↔ x.Below P l := by
  simp [commas]

theorem leads_commas : Leads contract 0 ws commas (fun _ => True) := by
  simp [commas]

@[simp] theorem atArrayRank_iff : atArrayRank ws = true ↔
    front ws = .lBracket ∧ (front ws.tail = .rBracket ∨ front ws.tail = .comma) := by
  simp [atArrayRank]

@[simp] theorem safe_arrayRank (h : front ws = .lBracket) :
    Safe contract arrayRank (fun _ _ y => y.Below P l) ws x ↔ x.Below P l := by
  simp [arrayRank, h]

theorem safe_typeSuffixes (inExpression isArray : Bool) :
    Safe contract (typeSuffixes inExpression isArray) (fun _ _ y => y.Below P l) ws x ↔
      x.Below P l := by
  simp +contextual [typeSuffixes]

theorem leads_typeSuffixes (inExpression isArray : Bool) :
    Leads contract 0 ws (typeSuffixes inExpression isArray) (fun _ => True) := by
  simp [typeSuffixes, arrayRank]

theorem safe_typeProduction (inExpression : Bool) :
    Safe contract (typeProduction inExpression) (fun _ _ y => y.Below P l) ws x ↔ x.Below P l := by
  simp [typeProduction]

theorem leads_typeProduction (inExpression : Bool) :
    Leads contract 1 ws (typeProduction inExpression)
      (fun _ => Words.canStartType (front ws) = false) := by
  simp +contextual [typeProduction, typeHead, Words.canStartType]

theorem safe_nameSegments :
    Safe contract nameSegments (fun _ _ y => y.Below P l) ws x ↔ x.Below P l := by
  simp +contextual [nameSegments]

theorem leads_nameSegments : Leads contract 0 ws nameSegments (fun _ => True) := by
  simp [nameSegments]

@[simp] theorem safe_dottedName :
    Safe contract dottedName (fun _ _ y => y.Below P l) ws x ↔ x.Below P l := by
  simp [dottedName]

theorem safe_dottedSegments :
    Safe contract dottedSegments (fun _ _ y => y.Below P l) ws x ↔ x.Below P l := by
  simp +contextual [dottedSegments]

theorem leads_dottedSegments : Leads contract 0 ws dottedSegments (fun _ => True) := by
  simp [dottedSegments]

end LivePatch.Grammar
