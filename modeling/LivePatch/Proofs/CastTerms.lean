import LivePatch.Proofs.CastOperands
import LivePatch.Proofs.Cutting.Blanks
import LivePatch.Proofs.Following.Fragments

/-!
# Terms as returned values

Whether a returned value is cast as a whole was said of the reading of its text: the operand that it
becomes has to read by itself as the value (`ReturnValues.ReadsWhole`).  For terms, which are made of
names, numbers, members, calls, elements and operators, it is so by their shape alone.  Those that
are not closed are just those that get parentheses.
-/

namespace LivePatch

open Grammar (readsAs_iff recount_operators_of_stops stops_of_endsValue wordsOf)
open ReturnValues (ReadsWhole needsParentheses operandText operandTree)
open Token (Stands endOfText)

namespace Term

/-- What is not closed gets parentheses. -/
theorem needsParentheses_kind (e : Term .value) {t : Tree} (h : e.trees = [t]) :
    needsParentheses t.kind = !e.isClosed := by
  cases e with
  | binary operator left right =>
    obtain rfl := List.singleton_inj.mp h
    rw [Tree.kind_node]
    rcases Grammar.binding_kind operator.binds with hk | hk <;> rw [hk] <;> rfl
  | _ =>
    obtain rfl := List.singleton_inj.mp h
    rfl

theorem stands_operandText (e : Term .value) {t : Tree}
    (hkind : needsParentheses t.kind = !e.isClosed) (h : Stands t.coreText.toList e.words) :
    Stands (operandText t.kind t).toList (enclose (!e.isClosed) e.words) := by
  rw [operandText, hkind, enclose]
  cases e.isClosed with
  | true => exact h
  | false => simpa using h.enclosed

/-- **A term is cast as a whole.**  If the words of the value's text are those of a term, and its
tree is that of the term, then the operand that it becomes reads as the value. -/
theorem readsWhole (e : Term .value) {t : Tree} (hclean : lexicalFaults t.coreText = [])
    (hfits : fitsBetween t.coreText = true) (hwords : wordsOf t.coreText = e.words)
    (htree : e.trees = [t.dropTrivia]) : ReadsWhole t := by
  have hkind : needsParentheses t.dropTrivia.kind = !e.isClosed := e.needsParentheses_kind htree
  have hsame : t.dropTrivia.kind = t.kind := by
    cases t <;> simp [Tree.dropTrivia, Tree.kind]
  have hstands : Stands t.coreText.toList e.words :=
    hwords ▸ Token.stands_of_fitsBetween hclean hfits
  obtain ⟨hlexical, hshown⟩ := (e.stands_operandText (hsame ▸ hkind) hstands).words
  have htrees : encloseTrees (!e.isClosed) e.trees = [operandTree t.dropTrivia] := by
    rw [htree, operandTree, hkind]
    cases e.isClosed <;> rfl
  have hread : Action.recount Grammar.production (.expression Grammar.prefixPower)
      (enclose (!e.isClosed) e.words ++ [endOfText]) [] =
        some (false, [endOfText], [operandTree t.dropTrivia]) := by
    rw [e.isRead.receiver le_rfl rfl, recount_operators_of_stops (stops_of_endsValue rfl), htrees]
    rfl
  refine readsAs_iff.mpr ⟨hlexical, ?_⟩
  rw [hshown]
  exact Action.recount_eq_some_iff.mp hread

end Term

end LivePatch
