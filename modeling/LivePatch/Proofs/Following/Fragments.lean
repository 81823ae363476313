import LivePatch.Proofs.Cutting.Blanks
import LivePatch.Proofs.Following.Parens
import LivePatch.Proofs.Following.Readings
import LivePatch.Proofs.Operations.Readings
import LivePatch.Proofs.CastOperands

/-!
# Expressions inside other texts

An expression that is read at the end of a text is read in front of a word that ends an expression,
too, whatever stands behind that word (`ReadsBefore.followed`).  Only an arrow is no such word: it
makes a lambda of a name or a parenthesis in front of it.  What is read in front of an arrow is read
in front of every other one (`ReadsBefore.arrow`).  In front of a parenthesis that ends the text an
expression is read the same if no type with a name is left there, which would be taken for a
declaration (`ReadsBefore.enclosed`).
-/

namespace LivePatch

open LivePatch.Action (recount recount_eq recount_induction)
open Token (closeParen endOfText)
open Words (Ends Undeclared front limits_of_bounds skipParens)

namespace Grammar

variable {power : Nat} {ws us vs : List Token} {ts ts' : List Tree} {e : Tree} {w : Token}

/-- The words `ws` are read in front of the words `us` as the expression `e`. -/
def ReadsBefore (power : Nat) (ws us : List Token) (e : Tree) : Prop :=
  recount production (.expression power) (ws ++ us) [] = some (false, us, [e])

/-- An expression stands behind what was read before it. -/
theorem ReadsBefore.recount_eq (h : ReadsBefore power ws us e) (ts : List Tree) :
    recount production (.expression power) (ws ++ us) ts = some (false, us, ts ++ [e]) := by
  rw [ReadsBefore, recount_expression, Option.bind_eq_some_iff] at h
  obtain ⟨r, hoperand, h⟩ := h
  obtain ⟨x, hx, heq⟩ := Option.map_eq_some_iff.mp h
  obtain ⟨hus, hts⟩ := Prod.mk.inj (Prod.mk.inj heq).2
  rw [recount_expression, hoperand, Option.bind_some, hx, Option.map_some, hus]
  rw [List.nil_append] at hts
  rw [hts]

/-- Its parentheses are balanced. -/
theorem ReadsBefore.skipParens_eq (h : ReadsBefore power ws us e) (depth : Nat) :
    skipParens (depth + 1) (ws ++ us) = skipParens (depth + 1) us :=
  (skipParens_of_recount (r := .expression power) rfl (fun h => by cases h) h depth).symm

/-- **At the end of a text and in front of a word that bounds**, an expression is read the same,
unless that word is an arrow. -/
theorem ReadsBefore.followed (h : ReadsBefore power ws [endOfText] e)
    (hbounds : w.kind.bounds = true) (hcalm : w.kind = .fatArrow →
      ∀ v, ws.getLast? = some v → v.kind.fitsArrow = true)
    (hparens : ∀ depth, front (skipParens (depth + 1) us) ≠ .fatArrow) :
    ReadsBefore power ws (w :: us) e := by
  have hpassed : w.kind = .eof ∨ w.kind.isPassed = true := by
    rcases Kind.bounds_cases hbounds with hk | hk | hk | hk <;> rw [hk]
    · exact .inl rfl
    all_goals exact .inr rfl
  let ends : Ends :=
    { here := [endOfText]
      there := w :: us
      here_ne := List.cons_ne_nil _ _
      here_limits := limits_of_bounds rfl
      there_limits := limits_of_bounds hbounds
      here_parens := fun _ h => by cases h
      there_parens := fun depth => by
        rcases hpassed with hk | hk
        · intro harrow
          rw [skipParens, hk] at harrow
          exact absurd (hk.symm.trans harrow) (by decide)
        · rw [Words.skipParens_cons hk]
          exact hparens depth
      here_open := by decide
      same := .inl rfl }
  have hmeant : ends.Calm ws :=
    { arrow := by
        by_cases hk : w.kind = .fatArrow
        · exact .inr (hcalm hk)
        · exact .inl (iff_of_false (fun h => by cases h) hk)
      closing := fun hclose => by
        have hk : w.kind = .rParen := hclose
        rw [hk] at hbounds
        cases hbounds }
  have hhere : recount production (.expression power) (ws ++ ends.here) [] =
      some (false, [] ++ ends.here, [e]) := h
  exact recount_there rfl hmeant hhere (.inr rfl)

/-- **What is read in front of an arrow** is read in front of every arrow. -/
theorem ReadsBefore.arrow (h : ReadsBefore power ws [w] e) (hw : w.kind = .fatArrow)
    (hparens : ∀ depth, front (skipParens (depth + 1) us) ≠ .fatArrow) :
    ReadsBefore power ws (w :: us) e := by
  have hbounds : w.kind.bounds = true := by rw [hw]; rfl
  have hpassed : w.kind.isPassed = true := by rw [hw]; rfl
  let ends : Ends :=
    { here := [w]
      there := w :: us
      here_ne := List.cons_ne_nil _ _
      here_limits := limits_of_bounds hbounds
      there_limits := limits_of_bounds hbounds
      here_parens := fun depth => by
        rw [Words.skipParens_cons hpassed]
        intro h
        cases h
      there_parens := fun depth => by
        rw [Words.skipParens_cons hpassed]
        exact hparens depth
      here_open := fun v hv => by
        rw [List.mem_singleton.mp hv, hw]
        rfl
      same := .inr rfl }
  have hmeant : ends.Calm ws :=
    { arrow := .inl Iff.rfl
      closing := fun hclose => by
        have hk : w.kind = .rParen := hclose
        rw [hw] at hk
        cases hk }
  have hhere : recount production (.expression power) (ws ++ ends.here) [] =
      some (false, [] ++ ends.here, [e]) := h
  exact recount_there rfl hmeant hhere (.inr rfl)

/-- **At the end of a text and between parentheses**, an expression is read the same, unless the
closing one makes a declaration of the words behind a parenthesis or a comma. -/
theorem ReadsBefore.enclosed (h : ReadsBefore power ws [endOfText] e) (hws : Undeclared ws) :
    ReadsBefore power ws [closeParen, endOfText] e := by
  let ends : Ends :=
    { here := [endOfText]
      there := [closeParen, endOfText]
      here_ne := List.cons_ne_nil _ _
      here_limits := limits_of_bounds rfl
      there_limits := ⟨rfl, fun _ => rfl⟩
      here_parens := fun _ h => by cases h
      there_parens := fun depth => by cases depth <;> nofun
      here_open := by decide
      same := .inl rfl }
  have hmeant : ends.Calm ws :=
    { arrow := .inl (by decide)
      closing := fun _ => hws }
  have hhere : recount production (.expression power) (ws ++ ends.here) [] =
      some (false, [] ++ ends.here, [e]) := h
  exact recount_there rfl hmeant hhere (.inr rfl)

/-- In front of a word that begins no expression an identifier means nothing else than a name. -/
theorem recite_operand_identifier {x : Token} (hx : x.kind = .identifier)
    (hstart : Words.canStartExpression w.kind = false) (harrow : w.kind ≠ .fatArrow) :
    operand.recite (recount production) (x :: w :: ws) [] =
      nameExpression.recite (recount production) (x :: w :: ws) [] := by
  have hopen : w.kind ≠ .lParen := fun hk => by rw [hk] at hstart; cases hstart
  have hasync : Words.atAsyncLambda (x :: w :: ws) = false := by
    have hnext : Words.kindAt 1 (x :: w :: ws) = some w.kind := rfl
    rw [Words.atAsyncLambda, hnext]
    split
    case h_4 => rfl
    all_goals
      rename_i hk
      rw [Option.some.inj hk] at hstart
      cases hstart
  have hawait : Words.holdsAt 1 Words.canStartExpression (x :: w :: ws) = false := hstart
  simp [operand, Kind.isLiteral, Kind.isPredefinedType, identifierOperand, Words.frontText, hx,
    harrow, hopen, hasync, hawait, Words.atVarDesignation]

theorem recite_identifierBefore {x : Token} (hx : x.kind = .identifier)
    (hstart : Words.canStartExpression w.kind = false) (harrow : w.kind ≠ .fatArrow)
    (hless : w.kind ≠ .less) :
    operand.recite (recount production) (x :: w :: ws) [] =
      some ((), w :: ws, [.node .nameExpression [.token x]]) := by
  rw [recite_operand_identifier hx hstart harrow]
  simp [nameExpression, expectIdentifier, hx, hless]

theorem recite_nameBefore (x : Name) (hstart : Words.canStartExpression w.kind = false)
    (harrow : w.kind ≠ .fatArrow) (hless : w.kind ≠ .less) :
    operand.recite (recount production) (x.token :: w :: ws) [] =
      some ((), w :: ws, [.node .nameExpression [.token x.token]]) :=
  recite_identifierBefore x.kind_eq hstart harrow hless

/-! ## The loosest operators -/

/-- All operators bind with `1` at least. -/
theorem operatorStep?_one (op : Kind) (named : Bool) :
    operatorStep? 1 op named = operatorStep? 0 op named := by
  unfold operatorStep?
  split
  case h_13 =>
    split
    · have hall : ∀ k : Kind, ∀ b ∈ binding? k, 1 ≤ b.left := by
        intro k b hb
        cases k <;> cases hb <;> decide
      rw [if_neg (Nat.not_lt.mpr (hall _ _ ‹_›)), if_neg (Nat.not_lt_zero _)]
    · rfl
  all_goals rfl

theorem recount_operators_one {p : Bool × List Token × List Tree}
    (h : recount production (.operators 0) ws ts = some p) :
    recount production (.operators 1) ws ts = some p := by
  have hboth := recount_induction (P := fun r ws ts p =>
    recount production r ws ts = some p ∧
      (r = .operators 0 → recount production (.operators 1) ws ts = some p)) ?_ h
  · exact hboth.2 rfl
  intro answer ih r ws ts p h
  have hrecount {r ws ts p} (h : answer r ws ts = some p) : recount production r ws ts = some p :=
    (ih r ws ts p h).1
  refine ⟨(recount_eq r).trans (Action.recite_mono hrecount _ h), ?_⟩
  rintro rfl
  have hsteps := operatorStep?_one (front ws) (Words.isAt 1 .identifier ws)
  rw [production, recite_silently, operators, Action.recite_bind, recite_current,
    Option.bind_some, Action.recite_bind, recite_ahead, Option.bind_some] at h
  dsimp only at h
  cases hstep : operatorStep? 0 (front ws) (Words.isAt 1 .identifier ws) with
  | none =>
    rw [hstep, Action.recite_pure, Option.map_some] at h
    rw [recount_operators_of_stops (hsteps.trans hstep)]
    exact h
  | some step =>
    rw [hstep] at h
    simp only [Action.recite_bind, recite_read, Option.map_bind, Option.bind_eq_some_iff,
      Function.comp_def, Option.map_map, Option.map_eq_some_iff] at h
    obtain ⟨r, hfirst, x, hrest, rfl⟩ := h
    -- What operators answer means nothing.
    have hanswer : x.1 = false := by
      have hx := hrecount hrest
      rw [recount_eq, production, recite_silently] at hx
      obtain ⟨y, -, rfl⟩ := Option.map_eq_some_iff.mp hx
      rfl
    rw [recount_operators (hsteps.trans hstep), Action.recite_mono hrecount _ hfirst,
      Option.bind_some, (ih _ _ _ _ hrest).2 rfl, ← hanswer]

/-- So there are none looser than those on the right side of a conditional operator. -/
theorem ReadsBefore.one (h : ReadsBefore 0 ws us e) : ReadsBefore 1 ws us e := by
  rw [ReadsBefore, recount_expression] at h ⊢
  obtain ⟨r, hoperand, h⟩ := Option.bind_eq_some_iff.mp h
  obtain ⟨x, hx, heq⟩ := Option.map_eq_some_iff.mp h
  rw [hoperand, Option.bind_some, recount_operators_one hx, ← heq, Option.map_some]

/-! ## Texts -/

instance (power : Nat) (source : String) (e : Tree) : Decidable (ReadsAs power source e) :=
  inferInstanceAs (Decidable (_ ∧ _))

/-- What the grammar sees of a text. -/
def wordsOf (source : String) : List Token := (lexed source).filter Token.isSignificant

theorem ReadsAs.readsBefore {source : String} (h : ReadsAs power source e) :
    ReadsBefore power (wordsOf source) [endOfText] e := by
  obtain ⟨-, depth, hrecite⟩ := readsAs_iff.mp h
  rw [lex, List.filter_append] at hrecite
  exact Action.recount_eq_some_iff.mpr ⟨depth, hrecite⟩

theorem ReadsAs.stands {source : String} (h : ReadsAs power source e)
    (hfits : fitsBetween source = true) :
    Token.Stands source.toList (wordsOf source) :=
  Token.stands_of_fitsBetween (readsAs_iff.mp h).1 hfits

/-- A text is read as its words are, where it stands between others. -/
theorem readsAs_of_stands {source : String} (hstands : Token.Stands source.toList ws)
    (h : ReadsBefore power ws [endOfText] e) : ReadsAs power source e := by
  obtain ⟨hclean, hwords⟩ := hstands.words
  obtain ⟨depth, hrecite⟩ := Action.recount_eq_some_iff.mp h
  exact readsAs_iff.mpr ⟨hclean, depth, by rw [hwords]; exact hrecite⟩

end Grammar

end LivePatch
