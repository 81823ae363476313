import LivePatch.Proofs.EditScripts
import LivePatch.Proofs.Rewordings

/-!
# The passes over words commute

The pass over static fields puts member accesses in place of names, the pass over `this` puts casts
in place of `this`.  Each of them looks at what is around a word, which the other one may have
changed; still it decides the same about each word, and it finds nothing to decide in what the
other one has put there.  So the two passes may run in either order.

`Decision.Undisturbed` is what has to be known of two such passes, and `Undisturbed.run_eq` says
what the second one then does: on the tree that the first one leaves, it does what it would have
done on the tree that the first one was given.
-/

namespace LivePatch

/-- An edit without its place: the rule, and the texts before and after. -/
def Edit.change (e : Edit) : PatchRule × String × String := (e.rule, e.before, e.after)

namespace Decision

variable {f g : Site → Option Proposal} {root : Tree} {comments : Bool} {n : Site}

/-- The change that is made for the decision `f` at a node. -/
def change? (f : Site → Option Proposal) (n : Site) : Option (PatchRule × String × String) :=
  (edit? f n).map Edit.change

theorem change?_of_none (h : f n = none) : change? f n = none := by
  rw [change?, edit?, h]
  rfl

theorem map_change_filterMap (ns : List Site) :
    (ns.filterMap (edit? f)).map Edit.change = ns.filterMap (change? f) := by
  rw [List.map_filterMap]
  rfl

/-- After the decision `f` has been carried out on the tree `root`, the decision `g` is the same at
each node that was kept, and there is none inside of what was put in. -/
structure Undisturbed (comments : Bool) (f g : Site → Option Proposal) (root : Tree) : Prop where
  kept : ∀ n, (fills comments f).Keeps root n → g ((fills comments f).image n) = g n
  silent : ∀ n t, (Site.root root).Around n → n.tree.isNode = true → fills comments f n = some t →
    (ofSite g).Silent ((fills comments f).image n)
  disjoint : ∀ n p, f n = some p → g n = none
  recasts : Recasts f root
  recastsNext : Recasts g root

namespace Undisturbed

variable (h : Undisturbed comments f g root)

include h

/-- A word for which the second one decides has the same tree after the first one. -/
theorem tree_eq (hn : (fills comments f).Keeps root n) {p : Proposal} (hp : g n = some p) :
    ((fills comments f).image n).tree = n.tree := by
  obtain ⟨w, hw⟩ := h.recastsNext.isWord hn.around hn.isNode hp
  exact hn.tree_of_isWord hw

theorem fills_eq (hn : (fills comments f).Keeps root n) :
    fills comments g ((fills comments f).image n) = fills comments g n := by
  cases hp : g n with
  | none => rw [fills_of_none hp, fills_of_none ((h.kept n hn).trans hp)]
  | some p =>
    obtain ⟨made, hmade⟩ := h.recastsNext.exists_made hn.around hn.isNode hp
    rw [fills_of_ok hp hmade, fills_of_ok ((h.kept n hn).trans hp) hmade, h.tree_eq hn hp]

theorem change?_eq (hn : (fills comments f).Keeps root n) :
    change? g ((fills comments f).image n) = change? g n := by
  rw [change?, change?, edit?, edit?, h.kept n hn]
  cases hp : g n with
  | none => rfl
  | some p =>
    obtain ⟨made, hmade⟩ := h.recastsNext.exists_made hn.around hn.isNode hp
    simp only [hmade, Option.map_some, Edit.record, Edit.change, h.tree_eq hn hp]

/-- The words that the second one changes after the first one, in the same order. -/
theorem changes_eq (hn : (Site.root root).Around n) :
    ((fills comments f).image n).descendants.filterMap (change? g) =
      n.descendants.filterMap (change? g) := by
  have hrewords := h.recasts.rewords comments
  rw [hrewords.filterMap_descendants_image (fun n t hn hnode ht q hq m hm => ?_) hn]
  · refine List.filterMap_congr fun m hm => ?_
    obtain ⟨hnm, hnode⟩ := Site.mem_descendants.mp hm
    cases hF : fills comments f m with
    | none => exact h.change?_eq ⟨hn.trans hnm, hnode, hF⟩
    | some t =>
      -- The first one has replaced a word, so the second one decides neither before nor after.
      obtain ⟨p, -, hp, -⟩ := fills_eq_some.mp hF
      have hnode' := (hrewords.isNode_image (hn.trans hnm)).trans hnode
      have hsilent := h.silent m t (hn.trans hnm) hnode hF _ .refl hnode'
      rw [change?_of_none (h.disjoint m p hp), change?_of_none (hsilent m.tree)]
  · obtain ⟨hqm, hnode'⟩ := Site.mem_descendants.mp hm
    exact change?_of_none (h.silent n t hn hnode ht m (.of_part hq hqm) hnode' m.tree)

/-- **The second decision after the first.** -/
theorem run_eq (hapart : (ofSite g).Apart ((fills comments f).run root)) :
    ∃ es, (ofSite g).run comments ((fills comments f).run root) =
        .ok ⟨(fills comments fun n => (f n).or (g n)).run root, es⟩ ∧
      es.map Edit.change = (Site.root root).descendants.filterMap (change? g) := by
  have hrewords := h.recasts.rewords comments
  refine ⟨_, ?_, (map_change_filterMap _).trans (h.changes_eq (n := Site.root root) .refl)⟩
  rw [run_ofSite comments hapart]
  · -- Both decisions are carried out at once.
    rw [Substitution.run_run hrewords (H := fills comments fun n => (f n).or (g n))]
    · rfl
    · intro n hn
      have hnone := (h.recasts.kept_iff hn.around hn.isNode).mp hn.kept
      rw [h.fills_eq hn, fills, fills, hnone, Option.none_or]
    · intro n t hn hnode ht
      refine ⟨?_, fun m hm hmnode => fills_of_none (h.silent n t hn hnode ht m hm hmnode m.tree)⟩
      obtain ⟨p, made, hp, hmade, rfl⟩ := fills_eq_some.mp ht
      exact fills_of_ok (by rw [hp, Option.some_or]) hmade
  · intro m' hm hmnode p hp
    rcases hrewords.image_or_inside hm hmnode with ⟨m, hplace, hnode, rfl⟩ |
      ⟨n, t, hn, hnode, hF, haround⟩
    · cases hF : fills comments f m with
      | none =>
        rw [h.kept m ⟨hplace, hnode, hF⟩] at hp
        exact h.recastsNext.exists_made hplace hnode hp
      | some t =>
        rw [show g _ = none from h.silent m t hplace hnode hF _ .refl hmnode m.tree] at hp
        cases hp
    · rw [show g m' = none from h.silent n t hn hnode hF m' haround hmnode m'.tree] at hp
      cases hp

end Undisturbed

end Decision

/-! ## The two passes -/

open Decision (Undisturbed change? fills)

variable {root : Tree} {comments : Bool} {visibility : FieldVisibility}

/-- What is put in place of a word has the kinds of nodes that its template has. -/
theorem Decision.Silent.of_kinds {f g : Site → Option Proposal} {n : Site} {t e : Tree}
    {p : Proposal} {bad : Kind} (hn : n.tree.isNode = true) (hp : f n = some p)
    (ht : fills comments f n = some t) (he : Grammar.MakesTree p.template e)
    (hbad : bad ∉ e.kinds) (hg : ∀ {m q}, g m = some q → m.kind = bad) :
    (Decision.ofSite g).Silent ((fills comments f).image n) := by
  obtain ⟨made, hmade, rfl⟩ := he
  obtain ⟨p', made', hp', hmade', rfl⟩ := Decision.fills_eq_some.mp ht
  obtain rfl := Option.some.inj (hp.symm.trans hp')
  obtain rfl := Except.ok.inj (hmade.symm.trans hmade')
  intro m hm hnode _
  by_contra hne
  obtain ⟨q, hq⟩ := Option.ne_none_iff_exists'.mp hne
  have hmem := hm.mem_kinds hnode
  rw [Substitution.image_tree, Substitution.treeAt_of_some hn ht, Tree.kinds_finish, hg hq,
    ← Tree.kinds_dropTrivia] at hmem
  exact hbad hmem

theorem StaticFields.kind_of_reference? {n : Site} {p : Proposal}
    (h : reference? visibility n = some p) : n.kind = .nameExpression := by
  obtain ⟨type, q, x, hr, -⟩ := reference?_eq_some.mp h
  exact hr.kind

/-- No node is decided about by both passes. -/
theorem SelfReference.cast?_of_reference? {n : Site} {p : Proposal}
    (h : StaticFields.reference? visibility n = some p) : cast? n = none := by
  by_contra hne
  obtain ⟨q, hq⟩ := Option.ne_none_iff_exists'.mp hne
  have hkind := (StaticFields.kind_of_reference? h).symm.trans (cast?_eq_some hq).1
  cases hkind

/-- What the two passes decide, taken together. -/
def wordDecision (visibility : FieldVisibility) (n : Site) : Option Proposal :=
  (StaticFields.reference? visibility n).or (SelfReference.cast? n)

theorem recasts_wordDecision (hroot : root.Readable) (visibility : FieldVisibility) :
    Decision.Recasts (wordDecision visibility) root :=
  (StaticFields.recasts hroot visibility).orElse (SelfReference.recasts hroot)

/-- It does not matter which of them is asked first. -/
theorem wordDecision_eq (visibility : FieldVisibility) : wordDecision visibility =
    fun n => (SelfReference.cast? n).or (StaticFields.reference? visibility n) := by
  funext n
  rw [wordDecision]
  cases hp : StaticFields.reference? visibility n with
  | none => simp
  | some p => rw [SelfReference.cast?_of_reference? hp, Option.none_or, Option.or_none]

/-- Putting types in front of names leaves the pass over `this` with the same decisions. -/
theorem SelfReference.undisturbed (hroot : root.Readable) :
    Undisturbed comments (StaticFields.reference? visibility) cast? root where
  kept n hn := by
    have hrecasts := StaticFields.recasts hroot visibility
    have hrewords := hrecasts.rewords comments
    refine hrewords.cast?_image hn fun type _ htype => hrewords.rule?_image hn htype ?_
    intro b hparent _
    have hb := hrewords.keeps_of_mem_ancestors hn.around hn.isNode (List.mem_of_mem_head? hparent)
    refine hb.isThisReceiver_eq hrewords fun {m t} ht hthis => ?_
    obtain ⟨p, -, hp, -⟩ := Decision.fills_eq_some.mp ht
    rw [StaticFields.kind_of_reference? hp] at hthis
    cases hthis
  silent n t hn hnode ht := by
    obtain ⟨p, -, hp, -⟩ := Decision.fills_eq_some.mp ht
    obtain ⟨_, name, us, w, -, -, -, hmade⟩ := StaticFields.makes_member hroot hn hnode hp
    refine .of_kinds hnode hp ht hmade (fun hmem => ?_) fun hq => (cast?_eq_some hq).1
    exact absurd (kinds_memberTree hmem) (by decide)
  disjoint _ _ hp := cast?_of_reference? hp
  recasts := StaticFields.recasts hroot visibility
  recastsNext := recasts hroot

/-- Casting `this` leaves the pass over static fields with the same decisions. -/
theorem StaticFields.undisturbed (hroot : root.Readable)
    (hnew : ((fills comments SelfReference.cast?).run root).Regular) :
    Undisturbed comments SelfReference.cast? (reference? visibility) root where
  kept n hn := by
    have hrewords := (SelfReference.recasts hroot).rewords comments
    exact hrewords.reference?_image hroot.toRegular hroot.designates hnew.pieces hn visibility
  silent n t hn hnode ht := by
    obtain ⟨p, -, hp, -⟩ := Decision.fills_eq_some.mp ht
    obtain ⟨name, us, hmade | hmade⟩ := SelfReference.makes_cast hroot hn hp
    · refine .of_kinds hnode hp ht hmade (fun hmem => ?_) kind_of_reference?
      exact absurd (kinds_thisCastTree hmem) (by decide)
    · refine .of_kinds hnode hp ht hmade (fun hmem => ?_) kind_of_reference?
      exact absurd (kinds_parenthesizedTree hmem) (by decide)
  disjoint n p hp := by
    by_contra hne
    obtain ⟨q, hq⟩ := Option.ne_none_iff_exists'.mp hne
    rw [SelfReference.cast?_of_reference? hq] at hp
    cases hp
  recasts := SelfReference.recasts hroot
  recastsNext := recasts hroot visibility

namespace Pass

variable {options : PatchOptions}

theorem run_staticFieldAccess (t : Tree) : staticFieldAccess.run options t =
    (Decision.ofSite (StaticFields.reference? options.visibility)).run options.comments t :=
  (StaticFields.tracks options t).run_eq options.comments

theorem run_selfReference (t : Tree) : selfReference.run options t =
    (Decision.ofSite SelfReference.cast?).run options.comments t :=
  (SelfReference.tracks t).run_eq options.comments

theorem runAll_cons {pass : Pass} {passes : List Pass} {t : Tree} {o o' : Outcome}
    (hfirst : pass.run options t = .ok o) (hrest : runAll options passes o.tree = .ok o') :
    runAll options (pass :: passes) t = .ok ⟨o'.tree, o.edits ++ o'.edits⟩ := by
  rw [runAll, hfirst]
  show (runAll options passes o.tree >>= _) = _
  rw [hrest]
  rfl

/-- Passes behind others that succeed. -/
theorem runAll_append_eq {passes : List Pass} {t : Tree} {o : Outcome}
    (hfirst : runAll options passes t = .ok o) (rest : List Pass) :
    runAll options (passes ++ rest) t =
      (runAll options rest o.tree).map fun o' => ⟨o'.tree, o.edits ++ o'.edits⟩ := by
  induction passes generalizing t o with
  | nil =>
    obtain rfl := Except.ok.inj hfirst
    cases hrest : runAll options rest t <;> simp [hrest, Except.map]
  | cons pass passes ih =>
    rw [runAll] at hfirst
    cases hpass : pass.run options t with
    | error e =>
      rw [hpass] at hfirst
      cases hfirst
    | ok first =>
      rw [hpass] at hfirst
      change (runAll options passes first.tree >>= _) = _ at hfirst
      cases hpasses : runAll options passes first.tree with
      | error e =>
        rw [hpasses] at hfirst
        cases hfirst
      | ok second =>
        rw [hpasses] at hfirst
        obtain rfl := Except.ok.inj hfirst
        rw [List.cons_append, runAll, hpass]
        change (runAll options (passes ++ rest) first.tree >>= _) = _
        rw [ih hpasses]
        cases hrest : runAll options rest second.tree with
        | error e => rfl
        | ok last =>
          exact congrArg (fun es => Except.ok (Outcome.mk last.tree es))
            (List.append_assoc _ _ _).symm

theorem runAll_append {passes rest : List Pass} {t : Tree} {o o' : Outcome}
    (hfirst : runAll options passes t = .ok o) (hrest : runAll options rest o.tree = .ok o') :
    runAll options (passes ++ rest) t = .ok ⟨o'.tree, o.edits ++ o'.edits⟩ := by
  rw [runAll_append_eq hfirst, hrest]
  rfl

theorem runAll_singleton {pass : Pass} {t : Tree} {o : Outcome}
    (h : pass.run options t = .ok o) : runAll options [pass] t = .ok o := by
  rw [runAll_cons h rfl, List.append_nil]

/-- Two passes that succeed one after the other. -/
theorem runAll_two {first second : Pass} {t : Tree} {o o' : Outcome}
    (hfirst : first.run options t = .ok o) (hsecond : second.run options o.tree = .ok o') :
    runAll options [first, second] t = .ok ⟨o'.tree, o.edits ++ o'.edits⟩ :=
  runAll_cons hfirst (runAll_singleton hsecond)

/-- The pass over static fields and then that over `this`. -/
theorem run_fields_casts (options : PatchOptions) (hroot : root.Readable) :
    ((fills options.comments (wordDecision options.visibility)).run root).Regular ∧
    ∃ es, runAll options [staticFieldAccess, selfReference] root =
        .ok ⟨(fills options.comments (wordDecision options.visibility)).run root, es⟩ ∧
      es.map Edit.change =
        (Site.root root).descendants.filterMap
          (change? (StaticFields.reference? options.visibility)) ++
        (Site.root root).descendants.filterMap (change? SelfReference.cast?) := by
  have hrecasts := StaticFields.recasts hroot options.visibility
  have hfirst := Decision.run_ofSite options.comments
    (StaticFields.rewords hroot.toRegular options.visibility).apart
    fun n hn hnode p hp => hrecasts.exists_made hn hnode hp
  rw [← run_staticFieldAccess] at hfirst
  have hregular := (isScript_run hroot.toRegular hfirst).2
  obtain ⟨es, hsecond, hchanges⟩ := (SelfReference.undisturbed hroot).run_eq
    (SelfReference.rewords hregular).apart
  rw [← run_selfReference] at hsecond
  refine ⟨(isScript_run hregular hsecond).2, _, runAll_two hfirst hsecond, ?_⟩
  rw [List.map_append, Decision.map_change_filterMap, hchanges]

/-- The pass over `this` and then that over static fields. -/
theorem run_casts_fields (options : PatchOptions) (hroot : root.Readable) :
    ∃ es, runAll options [selfReference, staticFieldAccess] root =
        .ok ⟨(fills options.comments (wordDecision options.visibility)).run root, es⟩ ∧
      es.map Edit.change =
        (Site.root root).descendants.filterMap (change? SelfReference.cast?) ++
        (Site.root root).descendants.filterMap
          (change? (StaticFields.reference? options.visibility)) := by
  have hrecasts := SelfReference.recasts hroot
  have hfirst := Decision.run_ofSite options.comments
    (SelfReference.rewords hroot.toRegular).apart
    fun n hn hnode p hp => hrecasts.exists_made hn hnode hp
  rw [← run_selfReference] at hfirst
  have hregular := (isScript_run hroot.toRegular hfirst).2
  obtain ⟨es, hsecond, hchanges⟩ := (StaticFields.undisturbed hroot hregular).run_eq
    (StaticFields.rewords hregular options.visibility).apart
  rw [← run_staticFieldAccess, ← wordDecision_eq] at hsecond
  refine ⟨_, runAll_two hfirst hsecond, ?_⟩
  rw [List.map_append, Decision.map_change_filterMap, hchanges]

/-- **The passes over words commute.**  On a clean text both orders succeed, with the same tree and
with the same changes up to order. -/
theorem words_commute (options : PatchOptions) (source : String)
    (hclean : (parse source).isClean = true) :
    ∃ o o', runAll options [staticFieldAccess, selfReference] (parse source).tree = .ok o ∧
      runAll options [selfReference, staticFieldAccess] (parse source).tree = .ok o' ∧
      o.tree = o'.tree ∧ (o.edits.map Edit.change).Perm (o'.edits.map Edit.change) := by
  have hroot := readable_parse hclean
  generalize (parse source).tree = root at hroot
  obtain ⟨-, es, hrun, hchanges⟩ := run_fields_casts options hroot
  obtain ⟨es', hrun', hchanges'⟩ := run_casts_fields options hroot
  refine ⟨_, _, hrun, hrun', rfl, ?_⟩
  rw [hchanges, hchanges']
  exact List.perm_append_comm

/-- A field whose bare references stand beside casts, and in the arguments of one. -/
def fieldsAndCasts : String :=
  "class A { public static int x; A M(A a) { this.N(x, this); x = 1; return this; } }"

/-- Both passes have something to do there, and either order does it. -/
theorem words_commute_fieldsAndCasts :
    (parse fieldsAndCasts).isClean = true ∧
    ∃ o o', runAll { comments := true } [staticFieldAccess, selfReference]
        (parse fieldsAndCasts).tree = .ok o ∧
      runAll { comments := true } [selfReference, staticFieldAccess]
        (parse fieldsAndCasts).tree = .ok o' ∧
      o.tree = o'.tree ∧ (o.edits.map Edit.change).Perm (o'.edits.map Edit.change) := by
  have hclean : (parse fieldsAndCasts).isClean = true := by decide +kernel
  exact ⟨hclean, words_commute _ _ hclean⟩

end Pass

end LivePatch
