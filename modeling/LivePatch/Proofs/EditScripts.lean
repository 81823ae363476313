import LivePatch.Proofs.PassDecisions

/-!
# The edits of a pass are its edit script

Whatever the text, with or without problems, a pass that succeeds on its tree has recorded an edit
script from the text to the one it leaves, and each edit only inserts.  The same holds when passes
run one after the other: each has recorded a script from the text of the tree it was given to that
of the tree it left, and the edits of the whole are those of the passes in order.

Later passes do not see the tree of a text, but one that earlier passes have put together.  So the
statement for one pass is about regular trees, and a pass leaves a regular tree again.
-/

namespace LivePatch

open Edit (IsScript)

/-- What a decision that only inserts comes to on a whole tree. -/
theorem Decision.Inserts.run {d : Decision} {t : Tree} (h : d.Inserts t) (ht : t.Regular)
    {comments : Bool} (hvalues : d.KeepsValues comments t) {o : Outcome}
    (hrun : d.run comments t = .ok o) :
    IsScript comments t.text o.edits o.text ∧ o.tree.Regular := by
  unfold Decision.run at hrun
  split at hrun
  · cases hrun
  rename_i tree edits hrev
  obtain rfl := Except.ok.inj hrun
  refine ⟨Edit.Script.isScript ?_, h.regular ht hvalues hrev⟩
  exact h.script (n := Site.root t) .refl hrev

namespace Pass

/-- **One pass over a regular tree**: its edits are a script, and the tree it leaves is regular. -/
theorem isScript_run {pass : Pass} {options : PatchOptions} {t : Tree} {o : Outcome}
    (ht : t.Regular) (hrun : pass.run options t = .ok o) :
    IsScript options.comments t.text o.edits o.text ∧ o.tree.Regular := by
  unfold Pass.run at hrun
  split at hrun
  · rw [(StaticFields.tracks options t).run_eq] at hrun
    have hrewords := StaticFields.rewords ht options.visibility
    exact hrewords.inserts.run ht hrewords.keepsValues hrun
  · rw [(SelfReference.tracks t).run_eq] at hrun
    have hrewords := SelfReference.rewords ht
    exact hrewords.inserts.run ht hrewords.keepsValues hrun
  · split at hrun
    · rw [(ReturnValues.tracks t).run_eq] at hrun
      exact (ReturnValues.inserts ht).run ht (ReturnValues.keepsValues ht) hrun
    · obtain rfl := Except.ok.inj hrun
      exact ⟨Edit.Script.isScript (.done 0 _), ht⟩

/-- Passes run one after the other from the tree `t`, with the outcome of each, to the tree `u`;
and the edits of each are a script from the text of the tree it was given. -/
inductive Chain (options : PatchOptions) : Tree → List Pass → List Outcome → Tree → Prop
  | nil (t : Tree) : Chain options t [] [] t
  | cons {t u : Tree} {pass : Pass} {passes : List Pass} {o : Outcome} {os : List Outcome} :
      pass.run options t = .ok o → IsScript options.comments t.text o.edits o.text →
      Chain options o.tree passes os u → Chain options t (pass :: passes) (o :: os) u

theorem exists_chain {options : PatchOptions} {passes : List Pass} {t : Tree} {o : Outcome}
    (ht : t.Regular) (hrun : runAll options passes t = .ok o) :
    ∃ os, Chain options t passes os o.tree ∧ o.edits = os.flatMap (·.edits) := by
  induction passes generalizing t o with
  | nil =>
    obtain rfl := Except.ok.inj hrun
    exact ⟨[], .nil t, rfl⟩
  | cons pass passes ih =>
    rw [runAll] at hrun
    cases hfirst : pass.run options t with
    | error e =>
      rw [hfirst] at hrun
      cases hrun
    | ok first =>
      rw [hfirst] at hrun
      change (runAll options passes first.tree >>= fun rest =>
        pure { tree := rest.tree, edits := first.edits ++ rest.edits }) = .ok o at hrun
      obtain ⟨hscript, hregular⟩ := isScript_run ht hfirst
      cases hrest : runAll options passes first.tree with
      | error e =>
        rw [hrest] at hrun
        cases hrun
      | ok rest =>
        rw [hrest] at hrun
        obtain rfl := Except.ok.inj hrun
        obtain ⟨os, hchain, hedits⟩ := ih hregular hrest
        exact ⟨first :: os, .cons hfirst hscript hchain, by simp [hedits]⟩

end Pass

/-- **The edits are the script.**  On the tree of any text, a pass that succeeds has recorded an
edit script that only inserts; and passes that succeed one after the other have recorded one each,
from tree to tree, which together are the edits of the whole. -/
theorem edits_are_script (options : PatchOptions) (source : String) :
    (∀ pass o, Pass.run pass options (parse source).tree = .ok o →
      IsScript options.comments source o.edits o.text) ∧
    ∀ passes o, Pass.runAll options passes (parse source).tree = .ok o →
      ∃ os, Pass.Chain options (parse source).tree passes os o.tree ∧
        o.edits = os.flatMap (·.edits) := by
  have hregular := regular_parse source
  obtain ⟨_, _, _, hlast⟩ := Grammar.exists_last_parse source
  have htext : (parse source).tree.text = source := hlast.holds.text
  refine ⟨fun pass o hrun => ?_, fun passes o hrun => Pass.exists_chain hregular hrun⟩
  have hscript := (Pass.isScript_run hregular hrun).1
  rwa [htext] at hscript

/-- A text that each of the passes has something to do with. -/
def threePasses : String := "class A { public static int x; A M() { Log(x, this); return this; } }"

/-- All passes succeed on it, with comments, and have recorded a script each. -/
theorem edits_are_script_threePasses :
    ∃ o, Pass.runAll ⟨true, true, .implicitPrivate⟩ Pass.all (parse threePasses).tree = .ok o ∧
      o.text = "class A \x7b public static int x; A M() \x7b " ++
        "Log(A.x/*StaticFieldAccessRewriter:BareIdentifier*/, " ++
        "(A)(object)this/*SelfReferenceRewriter:Argument*/); " ++
        "return (A)(object)this/*SelfReferenceRewriter:ReturnValue*/; \x7d \x7d" ∧
      ∃ os, Pass.Chain ⟨true, true, .implicitPrivate⟩ (parse threePasses).tree Pass.all os o.tree ∧
        o.edits = os.flatMap (·.edits) := by
  have htext : (Pass.runAll ⟨true, true, .implicitPrivate⟩ Pass.all
      (parse threePasses).tree).toOption.map Outcome.text =
      some ("class A \x7b public static int x; A M() \x7b " ++
        "Log(A.x/*StaticFieldAccessRewriter:BareIdentifier*/, " ++
        "(A)(object)this/*SelfReferenceRewriter:Argument*/); " ++
        "return (A)(object)this/*SelfReferenceRewriter:ReturnValue*/; \x7d \x7d") := by
    decide +kernel
  obtain ⟨o, hrun, htext⟩ := Outcome.exists_of_text htext
  exact ⟨o, hrun, htext, (edits_are_script _ threePasses).2 Pass.all o hrun⟩

end LivePatch
