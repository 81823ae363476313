import LivePatch.Proofs.PassDecisions

/-!
# Exactly the references

The pass over static fields walks with a stack of types and a map of fields that grows along the
way.  Here it is set against a list that knows of neither: the nodes of the tree in reading order,
of which those are kept that refer to a field of their nearest type.  The edits of the pass are
the edits of these nodes, so none depends on the order of the walk, on the fields of other types,
or on where a field is declared.
-/

namespace LivePatch

namespace StaticFields

/-- The edit that puts the type in front of a name, if the name refers to a field of it. -/
def referenceEdit? (visibility : FieldVisibility) (n : Site) : Option Edit :=
  (reference? visibility n).map fun p => ⟨p.rule, n.coreSpan, n.tree.coreText, p.template⟩

theorem referenceEdit?_eq_some {visibility : FieldVisibility} {n : Site} {e : Edit} :
    referenceEdit? visibility n = some e ↔ ∃ type qualifier name,
      Refers visibility n type qualifier name ∧
        e = ⟨.bareStaticField, n.coreSpan, n.tree.coreText, memberText qualifier name⟩ := by
  rw [referenceEdit?, Option.map_eq_some_iff]
  constructor
  · rintro ⟨p, hp, rfl⟩
    obtain ⟨type, qualifier, name, hr, rfl⟩ := reference?_eq_some.mp hp
    exact ⟨type, qualifier, name, hr, rfl⟩
  · rintro ⟨type, qualifier, name, hr, rfl⟩
    exact ⟨_, reference?_eq_some.mpr ⟨type, qualifier, name, hr, rfl⟩, rfl⟩

/-- The record of a replacement is the edit of the reference. -/
theorem record_eq {t made : Tree} (ht : t.Regular) {visibility : FieldVisibility} {n : Site}
    {p : Proposal} (hn : (Site.root t).Around n) (hnode : n.tree.isNode = true)
    (hp : reference? visibility n = some p) (hmade : synthesize p.template = .ok made) :
    Edit.record p.rule n made = ⟨p.rule, n.coreSpan, n.tree.coreText, p.template⟩ := by
  have hdecided : Decision.ofSite (reference? visibility) n n.tree = some p := hp
  have hspells := (rewords ht visibility).spells hn hnode hdecided hmade
  rw [Edit.record, hspells.coreText_eq]

/-- The pass records the edits of the references, in reading order. -/
theorem edits_eq_references {t : Tree} (ht : t.Regular) {visibility : FieldVisibility}
    {comments : Bool} {o : Outcome}
    (hrun : (Decision.ofSite (reference? visibility)).run comments t = .ok o) :
    o.edits = (Site.root t).descendants.filterMap (referenceEdit? visibility) := by
  unfold Decision.run at hrun
  split at hrun
  · cases hrun
  rename_i tree edits hrev
  obtain rfl := Except.ok.inj hrun
  have hedits := Decision.edits_eq (rewords ht visibility).apart (n := Site.root t) .refl hrev
  have hmade := Decision.exists_made hrev
  refine hedits.trans (List.filterMap_congr fun n hn => ?_)
  obtain ⟨hplace, hnode⟩ := Site.mem_descendants.mp hn
  cases hp : reference? visibility n with
  | none => rw [Decision.edit?, referenceEdit?, hp, Option.map_none]
  | some p =>
    obtain ⟨made, hsynthesized⟩ := hmade n hn p hp
    rw [Decision.edit?_eq_some.mpr ⟨p, made, hp, hsynthesized, rfl⟩, referenceEdit?, hp,
      Option.map_some, record_eq ht hplace hnode hp hsynthesized]

/-- **Exactly the references get their type in front.**  On the tree of any text, the pass does
what the place of each node says.  If it succeeds, its edits are those of the nodes that refer to
a field of their nearest type, in reading order; if it fails, one of these could not be made. -/
theorem references_exact (options : PatchOptions) (source : String) :
    let t := (parse source).tree
    let run := Pass.staticFieldAccess.run options t
    run = (Decision.ofSite (reference? options.visibility)).run options.comments t ∧
    (∀ n p, reference? options.visibility n = some p ↔ ∃ type qualifier name,
      Refers options.visibility n type qualifier name ∧
        p = ⟨.bareStaticField, memberText qualifier name⟩) ∧
    (∀ o, run = .ok o →
      o.edits = (Site.root t).descendants.filterMap (referenceEdit? options.visibility)) ∧
    (∀ n e, referenceEdit? options.visibility n = some e ↔ ∃ type qualifier name,
      Refers options.visibility n type qualifier name ∧
        e = ⟨.bareStaticField, n.coreSpan, n.tree.coreText, memberText qualifier name⟩) ∧
    ∀ e, run = .error e → ∃ n ∈ (Site.root t).descendants, ∃ type qualifier name,
      Refers options.visibility n type qualifier name ∧
        synthesize (memberText qualifier name) = .error e := by
  intro t run
  have ht : t.Regular := regular_parse source
  have heq : run = _ := (tracks options t).run_eq options.comments
  refine ⟨heq, fun n p => reference?_eq_some, ?_, fun n e => referenceEdit?_eq_some, ?_⟩
  · intro o ho
    exact edits_eq_references ht (heq.symm.trans ho)
  · intro e he
    have hfail := heq.symm.trans he
    unfold Decision.run at hfail
    split at hfail
    swap
    · cases hfail
    rename_i hrev
    obtain rfl := Except.error.inj hfail
    obtain ⟨n, hn, p, hp, hsynthesized⟩ := Decision.exists_failure hrev
    obtain ⟨type, qualifier, name, hr, rfl⟩ := reference?_eq_some.mp hp
    exact ⟨n, hn, type, qualifier, name, hr, hsynthesized⟩

/-- A reference in front of the declaration of its field, a parameter of the name of a field, and a
reference in a nested type to a field of the outer one. -/
def nestedTypes : String :=
  "class A \x7b int M(int y) => x + y; public static int x, y; " ++
    "class B \x7b public static int z; int N() => x + z; \x7d \x7d"

/-- There the references to `x` in `A` and to `z` in `B` are edited, and nothing else. -/
theorem references_exact_nestedTypes :
    ∃ o, Pass.staticFieldAccess.run {} (parse nestedTypes).tree = .ok o ∧
      o.text = "class A \x7b int M(int y) => A.x + y; public static int x, y; " ++
        "class B \x7b public static int z; int N() => x + B.z; \x7d \x7d" ∧
      o.edits = (Site.root (parse nestedTypes).tree).descendants.filterMap
        (referenceEdit? .explicitPrivateOnly) := by
  have htext : (Pass.staticFieldAccess.run {} (parse nestedTypes).tree).toOption.map Outcome.text =
      some ("class A \x7b int M(int y) => A.x + y; public static int x, y; " ++
        "class B \x7b public static int z; int N() => x + B.z; \x7d \x7d") := by
    decide +kernel
  obtain ⟨o, hrun, htext⟩ := Outcome.exists_of_text htext
  exact ⟨o, hrun, htext, (references_exact {} nestedTypes).2.2.1 o hrun⟩

end StaticFields

end LivePatch
