import LivePatch.Proofs.Insertions
import Mathlib.Data.List.TakeWhile

/-!
# A replacement takes over the trivia around what it replaces

Every tree divides into the trivia before its first significant token, its core and the trivia
after its last one.  A tree with no significant token has an empty core, and all its trivia stands
in front.  A replacement is the new node between the same two runs of trivia, with the comment of
its rule before the second one.
-/

namespace LivePatch.Tree

open Token (Edges textOf)

variable {t : Tree} {lead trail : List Token}

/-- A tree has nothing to show when all its leaves are trivia. -/
theorem isSolid_eq_false_iff : t.isSolid = false ↔ ∀ w ∈ t.leaves, w.isTrivia = true := by
  simp [isSolid, Token.isSignificant]

/-- The leaves of a tree are the trivia `lead`, the core, and the trivia `trail`. -/
structure Trimmed (t : Tree) (lead trail : List Token) : Prop where
  leaves : t.leaves = lead ++ t.coreLeaves ++ trail
  leading : ∀ w ∈ lead, w.isTrivia = true
  trailing : ∀ w ∈ trail, w.isTrivia = true
  /-- The core, if there is one, goes from a significant token to a significant token. -/
  first : ∀ w ∈ t.coreLeaves.head?, w.isSignificant = true
  last : ∀ w ∈ t.coreLeaves.getLast?, w.isSignificant = true
  /-- Without a core, all the trivia stands in front. -/
  front : t.coreLeaves = [] → trail = []

theorem Trimmed.text_eq (h : t.Trimmed lead trail) :
    t.text = textOf lead ++ t.coreText ++ textOf trail := by
  rw [text, h.leaves, Token.textOf_append, Token.textOf_append, coreText]

theorem trimmed_of_edges {core : List Token} (h : Edges t.leaves lead core trail) :
    t.Trimmed lead trail := by
  have hcore := coreLeaves_of_edges h
  obtain ⟨w, rest, begins, hw⟩ := h.first
  obtain ⟨front, u, ends, hu⟩ := h.last
  refine ⟨hcore ▸ h.eq, h.lead, h.trail, ?_, ?_, fun none => absurd (hcore ▸ none) h.ne_nil⟩
  · simp [hcore, begins, Token.isSignificant, hw]
  · simp [hcore, ends, Token.isSignificant, hu]

theorem coreLeaves_of_hidden (h : t.isSolid = false) : t.coreLeaves = [] := by
  rw [coreLeaves, List.dropWhile_eq_nil_iff.mpr (isSolid_eq_false_iff.mp h)]
  rfl

theorem trimmed_of_hidden (h : t.isSolid = false) : t.Trimmed t.leaves [] := by
  have none := coreLeaves_of_hidden h
  exact ⟨by simp [none], isSolid_eq_false_iff.mp h, List.forall_mem_nil _, by simp [none],
    by simp [none], fun _ => rfl⟩

/-- The two runs of trivia that are computed are those around the core. -/
theorem trimmed_edgeTrivia (t : Tree) : t.Trimmed (edgeTrivia t).1 (edgeTrivia t).2 := by
  cases h : t.isSolid with
  | true =>
    have edges := edges_of_isSolid h
    rw [edgeTrivia_of_edges edges]
    exact trimmed_of_edges edges
  | false =>
    rw [edgeTrivia, coreLeaves_of_hidden h]
    exact trimmed_of_hidden h

/-- **Trivia transfer.** The trivia around the core of any tree goes around the node put in its
place, and the comment of the rule, if comments are asked for, ends the text of the new node. -/
theorem trivia_transferred (comments : Bool) (rule : PatchRule) (original : Tree) (kind : Kind)
    (parts : List Tree) :
    ∃ lead trail, original.Trimmed lead trail ∧
      original.text = textOf lead ++ original.coreText ++ textOf trail ∧
      finish comments rule original (.node kind parts) = .node kind
        (lead.map .token ++ parts ++ (mark comments rule ++ trail).map .token) ∧
      (finish comments rule original (.node kind parts)).text = textOf lead ++
        (Tree.node kind parts).text ++ (if comments then rule.comment else "") ++ textOf trail ∧
      (finish comments rule original (.node kind parts) = .node kind parts ↔
        comments = false ∧ lead = [] ∧ trail = []) := by
  have trimmed := trimmed_edgeTrivia original
  generalize hlead : (edgeTrivia original).1 = lead at trimmed
  generalize htrail : (edgeTrivia original).2 = trail at trimmed
  have finished : finish comments rule original (.node kind parts) = .node kind
      (lead.map .token ++ parts ++ (mark comments rule ++ trail).map .token) := by
    rw [finish, hlead, htrail]
    rfl
  refine ⟨lead, trail, trimmed, trimmed.text_eq, finished, ?_, ?_⟩
  · rw [finished, text, text]
    simp [← textOf_mark comments rule, String.append_assoc]
  · rw [finished]
    constructor
    · intro same
      have lengths := congrArg List.length (Tree.node.inj same).2
      simp only [List.length_append, List.length_map] at lengths
      have unmarked : mark comments rule = [] := List.eq_nil_of_length_eq_zero (by omega)
      refine ⟨?_, List.eq_nil_of_length_eq_zero (by omega),
        List.eq_nil_of_length_eq_zero (by omega)⟩
      cases comments with
      | false => rfl
      | true => exact absurd unmarked (List.cons_ne_nil _ _)
    · rintro ⟨rfl, rfl, rfl⟩
      simp [mark]

end LivePatch.Tree
