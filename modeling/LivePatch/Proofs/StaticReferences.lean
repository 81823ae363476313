import LivePatch.Patch.Pipeline
import LivePatch.Proofs.Revision
import Mathlib.Data.Option.Basic
import Mathlib.Tactic.MkIffOfInductiveProp

/-!
# Which references get their type in front

The pass over references to static fields keeps a stack of types and a map of fields that grows as
the walk goes on and is never cleared.  What it decides at a name depends on neither: `Refers` is
the condition, read off the name and the nodes around it, and the pass proposes a replacement for
a name exactly when the condition holds.

The invariant `Knows` is what the map has to satisfy for that: it holds the fields of the types
around, and nothing that the type at the same place does not declare.  Entries of other types do
no harm, since the path of a type tells it apart from all others.
-/

namespace LivePatch

namespace ScopeMap

theorem qualifies_iff {m : ScopeMap} {type : Site} {name : String} :
    m.qualifies type name = true ↔ (type.path, name) ∈ m.entries := by
  simp [qualifies]

/-- A name that some type declares is not rejected by the flat test. -/
theorem mightQualify_of_qualifies {m : ScopeMap} {type : Site} {name : String}
    (h : m.qualifies type name = true) : m.mightQualify name = true := by
  rw [mightQualify, List.any_eq_true]
  exact ⟨_, qualifies_iff.mp h, by simp⟩

theorem mem_insert {m : ScopeMap} {type : Site} {name : String} {entry : List Nat × String} :
    entry ∈ (m.insert type name).2.entries ↔ entry ∈ m.entries ∨ entry = (type.path, name) := by
  unfold insert
  split
  · rename_i h
    have hmem := qualifies_iff.mp h
    constructor
    · exact .inl
    · rintro (h | rfl)
      · exact h
      · exact hmem
  · simp

theorem mem_insertAll {m : ScopeMap} {type : Site} {names : List String}
    {entry : List Nat × String} :
    entry ∈ (m.insertAll type names).2.entries ↔
      entry ∈ m.entries ∨ ∃ name ∈ names, entry = (type.path, name) := by
  induction names generalizing m with
  | nil => simp [insertAll]
  | cons name names ih =>
    rw [insertAll]
    simp only [ih, mem_insert, List.mem_cons, exists_eq_or_imp, or_assoc]

theorem mem_register {m : ScopeMap} {type : Site} {visibility : FieldVisibility}
    {entry : List Nat × String} :
    entry ∈ (m.register type visibility).2.entries ↔
      entry ∈ m.entries ∨ ∃ name ∈ type.patchedFieldNames visibility, entry = (type.path, name) :=
  mem_insertAll

end ScopeMap

theorem Site.mem_patchedFieldNames {type : Site} {visibility : FieldVisibility} {name : String} :
    name ∈ type.patchedFieldNames visibility ↔
      ∃ field ∈ type.membersOf .fieldDeclaration, field.isPatchedField visibility = true ∧
        name ∈ field.ownVariableNames := by
  simp [patchedFieldNames, List.mem_flatMap, and_assoc]

namespace StaticFields

/-! ## The condition -/

/-- The name expression `n` is a bare reference, without type arguments, to the field `name`: the
nearest type around it, `type`, goes by `qualifier` and declares a static field of that name that
is not private under the policy, and no parameter or variable hides it. -/
@[mk_iff]
structure Refers (visibility : FieldVisibility) (n type : Site) (qualifier name : String) :
    Prop where
  kind : n.kind = .nameExpression
  named : n.boundName?.map (·.text) = some name
  plain : n.node? .typeArgumentList = none
  bare : n.nameContext = .bare
  nearest : n.ancestors.find? (·.kind.isTypeDeclaration) = some type
  qualified : type.qualifyingName? = some qualifier
  declared : ∃ field ∈ type.membersOf .fieldDeclaration, field.isPatchedField visibility = true ∧
    name ∈ field.ownVariableNames
  shown : n.isShadowed name = false

instance (visibility : FieldVisibility) (n type : Site) (qualifier name : String) :
    Decidable (Refers visibility n type qualifier name) :=
  decidable_of_iff _ (refers_iff visibility n type qualifier name).symm

/-- What the place of a node says that should be put there. -/
def reference? (visibility : FieldVisibility) (n : Site) : Option Proposal := do
  guard (n.kind == .nameExpression)
  let name := (← n.boundName?).text
  guard (n.nameContext == .bare && (n.node? .typeArgumentList).isNone)
  let type ← n.ancestors.find? (·.kind.isTypeDeclaration)
  guard ((type.patchedFieldNames visibility).contains name && !n.isShadowed name)
  let qualifier ← type.qualifyingName?
  return ⟨.bareStaticField, memberText qualifier name⟩

theorem reference?_eq_some {visibility : FieldVisibility} {n : Site} {p : Proposal} :
    reference? visibility n = some p ↔ ∃ type qualifier name,
      Refers visibility n type qualifier name ∧
        p = ⟨.bareStaticField, memberText qualifier name⟩ := by
  simp only [reference?, bind, Option.bind_eq_some_iff, Option.guard_eq_some', exists_const,
    beq_iff_eq, Bool.and_eq_true, Option.isNone_iff_eq_none, List.contains_iff_mem,
    Bool.not_eq_true', Option.pure_def, Option.some.injEq]
  constructor
  · rintro ⟨hkind, w, hw, ⟨hbare, hplain⟩, type, hnearest, ⟨hdeclared, hshown⟩, qualifier, hq, rfl⟩
    exact ⟨type, qualifier, w.text, ⟨hkind, by rw [hw]; rfl, hplain, hbare, hnearest, hq,
      Site.mem_patchedFieldNames.mp hdeclared, hshown⟩, rfl⟩
  · rintro ⟨type, qualifier, name, h, rfl⟩
    obtain ⟨w, hw, rfl⟩ := Option.map_eq_some_iff.mp h.named
    exact ⟨h.kind, w, hw, ⟨h.bare, h.plain⟩, type, h.nearest,
      ⟨Site.mem_patchedFieldNames.mpr h.declared, h.shown⟩, qualifier, h.qualified, rfl⟩

/-! ## The invariant -/

/-- What the surroundings are inside of the nodes `around`: their types, and fields of which those
of the types around are all there, while every entry belongs to the type at its place. -/
structure Knows (t : Tree) (visibility : FieldVisibility) (around : List Site)
    (s : Surroundings) : Prop where
  types : s.types = around.filter (·.kind.isTypeDeclaration)
  sound : ∀ entry ∈ s.scopes.entries, ∃ type : Site, (Site.root t).Around type ∧
    type.path = entry.1 ∧ entry.2 ∈ type.patchedFieldNames visibility
  complete : ∀ type ∈ around, type.kind.isTypeDeclaration = true →
    ∀ name ∈ type.patchedFieldNames visibility, (type.path, name) ∈ s.scopes.entries

variable {t : Tree} {visibility : FieldVisibility} {around : List Site} {s : Surroundings}

/-- The map answers for a type around what the type itself says. -/
theorem Knows.qualifies_iff (h : Knows t visibility around s) {type : Site}
    (htype : type ∈ around) (hplace : (Site.root t).Around type)
    (hkind : type.kind.isTypeDeclaration = true) {name : String} :
    s.scopes.qualifies type name = true ↔ name ∈ type.patchedFieldNames visibility := by
  rw [ScopeMap.qualifies_iff]
  constructor
  · intro hmem
    obtain ⟨other, hother, hpath, hname⟩ := h.sound _ hmem
    obtain rfl := hother.eq_of_path hplace hpath
    exact hname
  · exact h.complete type htype hkind name

theorem Knows.enter {n : Site} (h : Knows t visibility n.ancestors s)
    (hn : (Site.root t).Around n) :
    Knows t visibility (n :: n.ancestors) (StaticFields.enter visibility n s) := by
  unfold StaticFields.enter
  split
  · rename_i hkind
    refine ⟨?_, ?_, ?_⟩
    · simp [hkind, h.types]
    · intro entry hentry
      rcases ScopeMap.mem_register.mp hentry with hold | ⟨name, hname, rfl⟩
      · exact h.sound entry hold
      · exact ⟨n, hn, rfl, hname⟩
    · intro type htype hkind' name hname
      refine ScopeMap.mem_register.mpr ?_
      rcases List.mem_cons.mp htype with rfl | htype
      · exact .inr ⟨name, hname, rfl⟩
      · exact .inl (h.complete type htype hkind' name hname)
  · rename_i hkind
    refine ⟨?_, h.sound, ?_⟩
    · simp [hkind, h.types]
    · intro type htype hkind' name hname
      rcases List.mem_cons.mp htype with rfl | htype
      · exact absurd hkind' hkind
      · exact h.complete type htype hkind' name hname

theorem Knows.leave {n : Site} (h : Knows t visibility (n :: n.ancestors) s) :
    Knows t visibility n.ancestors (StaticFields.leave n s) := by
  have hcomplete := fun type htype => h.complete type (List.mem_cons_of_mem _ htype)
  unfold StaticFields.leave
  split
  · rename_i hkind
    refine ⟨?_, h.sound, hcomplete⟩
    simp [h.types, hkind]
  · rename_i hkind
    exact ⟨by simp [h.types, hkind], h.sound, hcomplete⟩

/-- With such surroundings the pass proposes what the place says. -/
theorem Knows.propose {n : Site} (h : Knows t visibility (n :: n.ancestors) s)
    (hn : (Site.root t).Around n) : StaticFields.propose n s = reference? visibility n := by
  have htypes (hkind : n.kind = .nameExpression) :
      s.types.head? = n.ancestors.find? (·.kind.isTypeDeclaration) := by
    rw [h.types, List.head?_filter, List.find?_cons_of_neg]
    simp [hkind, Kind.isTypeDeclaration]
  -- A type around the name is asked, so the map answers what the type says.
  have hmap {type : Site} (hnear : n.ancestors.find? (·.kind.isTypeDeclaration) = some type)
      (name : String) :
      s.scopes.qualifies type name = true ↔ name ∈ type.patchedFieldNames visibility := by
    have hmem := List.mem_of_find?_eq_some hnear
    have hkind : type.kind.isTypeDeclaration = true := by
      simpa using List.find?_some hnear
    exact h.qualifies_iff (List.mem_cons_of_mem _ hmem) (hn.of_mem_ancestors hmem).1 hkind
  ext p
  simp only [StaticFields.propose, reference?, bind, Option.bind_eq_some_iff,
    Option.guard_eq_some', exists_const, beq_iff_eq, Bool.and_eq_true, Bool.not_eq_true',
    List.contains_iff_mem]
  constructor
  · rintro ⟨hkind, w, hw, -, hplain, type, htype, ⟨hdeclared, hshown⟩, hrest⟩
    rw [htypes hkind] at htype
    exact ⟨hkind, w, hw, hplain, type, htype, ⟨(hmap htype _).mp hdeclared, hshown⟩, hrest⟩
  · rintro ⟨hkind, w, hw, hplain, type, htype, ⟨hdeclared, hshown⟩, hrest⟩
    have hqualifies := (hmap htype _).mpr hdeclared
    exact ⟨hkind, w, hw, ScopeMap.mightQualify_of_qualifies hqualifies, hplain, type,
      (htypes hkind).trans htype, ⟨hqualifies, hshown⟩, hrest⟩

/-- The pass over references to static fields tracks its surroundings on every tree. -/
theorem tracks (options : PatchOptions) (t : Tree) :
    (staticFieldRules options).Tracks t (Knows t options.visibility)
      (.ofSite (reference? options.visibility)) where
  start := ⟨rfl, List.forall_mem_nil _, List.forall_mem_nil _⟩
  enter hn h := h.enter hn
  leave _ h := h.leave
  propose hn h _ := h.propose hn

end StaticFields

end LivePatch
