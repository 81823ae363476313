import LivePatch.Proofs.TokenPlaces
import LivePatch.Proofs.TriviaTransfer

/-!
# Cores by the ranges of tokens

What stands around the words of a tree can be found in three ways: by the places that the first and
the last of them have among the leaves, by the bytes where they begin and end, and by cutting the
text of the tree there.  `Tree.coreLeaves` and the trivia at both sides of it are one split of the
leaves; here it is shown that each of the three ways comes to it.
-/

namespace LivePatch

open Token (Edges spans widthOf)

/-- The leaves of a tree that the grammar sees, with their places when the tree starts at `start`. -/
def Tree.shownPlaces (start : Nat) (t : Tree) : List (Token × Span) :=
  (spans start t.leaves).filter (·.1.isSignificant)

/-- From where the first of them begins to where the last one ends. -/
def Tree.shownRange? (start : Nat) (t : Tree) : Option Span := do
  let first ← (t.shownPlaces start).head?
  let last ← (t.shownPlaces start).getLast?
  return ⟨first.2.start, last.2.stop⟩

theorem Token.filter_significant_spans (start : Nat) {ts : List Token}
    (h : ∀ t ∈ ts, t.isTrivia = true) : (spans start ts).filter (·.1.isSignificant) = [] := by
  induction ts generalizing start with
  | nil => rfl
  | cons t ts ih =>
    obtain ⟨ht, hts⟩ := List.forall_mem_cons.mp h
    rw [spans, List.filter_cons_of_neg (by simp [isSignificant, ht]), ih _ hts]

namespace Tree

variable {t : Tree} {lead core trail : List Token}

theorem shownPlaces_of_edges (h : Edges t.leaves lead core trail) (start : Nat) :
    t.shownPlaces start =
      (spans (start + widthOf lead) core).filter (·.1.isSignificant) := by
  rw [shownPlaces, h.eq, Token.spans_append, Token.spans_append, List.filter_append,
    List.filter_append, Token.filter_significant_spans _ h.lead,
    Token.filter_significant_spans _ h.trail, List.nil_append, List.append_nil]

/-- Behind the leading trivia the first word begins, and in front of the trailing trivia the last
one ends. -/
theorem shownRange?_of_edges (h : Edges t.leaves lead core trail) (start : Nat) :
    t.shownRange? start =
      some ⟨start + widthOf lead, start + widthOf lead + widthOf core⟩ := by
  obtain ⟨v, rest, hfirst, hv⟩ := h.first
  obtain ⟨front, u, hlast, hu⟩ := h.last
  have hhead : (t.shownPlaces start).head? =
      some (v, Span.ofText (start + widthOf lead) v.text) := by
    rw [shownPlaces_of_edges h, hfirst, spans,
      List.filter_cons_of_pos (by simp [Token.isSignificant, hv]), List.head?_cons]
  have hback : (t.shownPlaces start).getLast? =
      some (u, Span.ofText (start + widthOf lead + widthOf front) u.text) := by
    rw [shownPlaces_of_edges h, hlast, Token.spans_append, List.filter_append]
    simp [spans, Token.isSignificant, hu]
  have hwidth : start + widthOf lead + widthOf core =
      start + widthOf lead + widthOf front + u.width := by
    rw [hlast, Token.widthOf_append, Token.widthOf_cons, Token.widthOf_nil]
    omega
  rw [shownRange?, hhead, hback, hwidth]
  rfl

theorem shownRange?_of_hidden (h : t.isSolid = false) (start : Nat) : t.shownRange? start = none := by
  rw [shownRange?, shownPlaces, Token.filter_significant_spans start (isSolid_eq_false_iff.mp h)]
  rfl

/-- **The text of a core** is cut out of the text of the tree where its first word begins and its
last one ends. -/
theorem slice?_shownRange (t : Tree) :
    (t.shownRange? 0).elim (some []) (·.slice? t.text.toList) = some t.coreText.toList := by
  cases hsolid : t.isSolid with
  | false =>
    rw [shownRange?_of_hidden hsolid, coreText, coreLeaves_of_hidden hsolid]
    rfl
  | true =>
    have hedges := edges_of_isSolid hsolid
    have htext : t.text.toList = (Token.textOf t.leadingTrivia).toList ++
        ((Token.textOf t.coreLeaves).toList ++ (Token.textOf t.trailingTrivia).toList) := by
      conv => lhs; rw [Tree.text, hedges.eq]
      simp
    have hslice := Span.slice?_append (Token.textOf t.leadingTrivia).toList
      (Token.textOf t.coreLeaves).toList (Token.textOf t.trailingTrivia).toList
    rw [byteLength_textOf, byteLength_textOf, ← htext] at hslice
    rw [shownRange?_of_edges hedges, Nat.zero_add]
    exact hslice

/-- **The trivia at the edges** stands in front of the place of the first word among the leaves and
behind that of the last one. -/
theorem edgeTrivia_eq_split (h : t.isSolid = true) :
    edgeTrivia t = (t.leaves.take (t.leaves.findIdx Token.isSignificant),
      t.leaves.drop (t.leaves.length - t.leaves.reverse.findIdx Token.isSignificant)) := by
  have hsplit (ts : List Token) :
      ts.takeWhile Token.isTrivia = ts.take (ts.findIdx Token.isSignificant) :=
    List.takeWhile_eq_take_findIdx_not
  rw [edgeTrivia_of_edges (edges_of_isSolid h), leadingTrivia, trailingTrivia, hsplit, hsplit,
    List.reverse_take, List.reverse_reverse, List.length_reverse]

end Tree

/-- **The core of a site** goes from where its first word begins to where its last one ends. -/
theorem Site.coreSpan_eq_shownRange (n : Site) :
    n.coreSpan = (n.tree.shownRange? n.start).getD n.span := by
  cases hsolid : n.tree.isSolid with
  | false =>
    rw [Tree.shownRange?_of_hidden hsolid, coreSpan, Tree.coreLeaves_of_hidden hsolid]
    rfl
  | true =>
    have hedges := Tree.edges_of_isSolid hsolid
    rw [Tree.shownRange?_of_edges hedges, coreSpan_of_edges hedges]
    rfl

end LivePatch
