import LivePatch.Proofs.Phrases.Spellings
import LivePatch.Proofs.Progress

/-!
# Reading what the angle brackets promise

In an expression an angle bracket may compare or open type arguments, and the words ahead decide.
The decision only matches angle brackets, whatever parentheses stand between them; the productions
read types.  There is no way back: once the decision is made, a type argument list is read, and
what it does not find is noted as missing.

So the two agree exactly where the words up to the closing bracket are a type argument list
(`Grammar.typeArgumentList_committed`).  In `f(a < b) > (c)` they are none.
-/

namespace LivePatch

open LivePatch.Action (Does completeRule shownTrees)
open Token (closingAngle openAngle)
open Words (AllLegible Spells atTypeArguments closeAngles front scanTypeArguments)

/-- The words `ws` down to `rest` spell a type argument list with the types `arguments`. -/
def TypePhrase.SpelledAsList (arguments : TypePhrase .arguments) (ws rest : List Token) : Prop :=
  Spells ws (openAngle :: (arguments.words ++ [closingAngle])) rest

/-- Passing over a type argument list leaves what is behind it, if that is a whole word. -/
theorem TypePhrase.SpelledAsList.scan_eq {arguments : TypePhrase .arguments}
    {ws rest : List Token} (h : arguments.SpelledAsList ws rest) :
    scanTypeArguments ws = some rest ∨ scanTypeArguments ws = none := by
  obtain ⟨ws', rfl, hwords⟩ := (Words.spells_cons (by nofun)).mp h
  obtain ⟨mid, harguments, hclose⟩ := Words.spells_append.mp hwords
  have hscan : scanTypeArguments (openAngle :: ws') = closeAngles 1 mid :=
    arguments.closeAngles_eq harguments le_rfl
  rw [hscan]
  rcases Words.spells_closingAngle.mp hclose with ⟨mid', rfl, hnil⟩ | ⟨mid', rfl, -⟩
  · obtain rfl := Words.spells_nil.mp hnil
    exact .inl rfl
  · exact .inr rfl

namespace Grammar

variable {ws rest : List Token} {s t : ReadState}

/-- The reading of a type argument list comes to an end, wherever it starts. -/
theorem exists_does_typeArgumentList (hs : s.Orderly) :
    ∃ t, typeArgumentList.Does production s () t := by
  have hinner : ({ s with built := [] } : ReadState).Orderly := ⟨hs.aligned, hs.trivia, hs.ended⟩
  have hframe : Frame.empty.Describes { s with built := [] } := Frame.empty_describes rfl
  have hsafe : typeArgumentList.Safe contract (fun _ _ y => y.Below True .quiet) s.words .empty :=
    safe_typeArgumentList.mpr ⟨trivial, le_rfl⟩
  have hlead : typeArgumentList.Leads contract callsPerByte s.words (fun _ => True) := by
    simp only [typeArgumentList, callsPerByte]
    simp only [expectClosingAngle]
    simp
    intro h
    split <;> trivial
  have hcomplete := Contract.complete_run (holds_answer s.words)
    (fun r s h => Contract.completes_runRule met_production _ r s (need_lt_callDepth h))
    typeArgumentList hinner hframe hsafe (.inr ⟨rfl, hlead⟩)
  -- The list is read in a frame of its own, so what was built before takes no part.
  obtain ⟨⟨_, u⟩, hbody, -⟩ := Option.map_eq_some_iff.mp hcomplete
  exact ⟨_, _, Option.map_eq_some_iff.mpr ⟨_, hbody, rfl⟩⟩

/-- What is read of legible words without another problem is a type argument list. -/
theorem exists_arguments_of_does (hs : s.Orderly) (hws : AllLegible s.words)
    (hshown : ∀ w ∈ s.words, w.isTrivia = false) (h : typeArgumentList.Does production s () t)
    (hfound : t.found = s.found) :
    ∃ arguments : TypePhrase .arguments, arguments.SpelledAsList s.words t.words := by
  have hrecite := Action.exists_recount_of_does hs hshown h hfound
  refine Action.of_recite (P := Reads)
    (Q := fun _ ws => ∃ arguments : TypePhrase .arguments, arguments.SpelledAsList s.words ws)
    (fun r ws ts v ws' ts' h => Action.of_recount (fun r ws => reads_production r ws) h) _ hrecite ?_
  exact comes_typeArgumentList hws fun arguments rest h => ⟨arguments, h⟩

/-- Every type argument list is read, and no problem is noted. -/
theorem exists_does_of_spelledAsList {arguments : TypePhrase .arguments} (hs : s.Orderly)
    (hshown : ∀ w ∈ s.words, w.isTrivia = false) (h : arguments.SpelledAsList s.words rest) :
    ∃ t, typeArgumentList.Does production s () t ∧ t.words = rest ∧
      shownTrees t = shownTrees s ++ [TypePhrase.listTree arguments.trees] ∧
      t.found = s.found := by
  obtain ⟨ws', hwords, hspells⟩ := (Words.spells_cons (by nofun)).mp h
  obtain ⟨mid, harguments, hclose⟩ := Words.spells_append.mp hspells
  have hread (ts : List Tree) : Action.recount production .typeArguments ws' ts =
      some (false, mid, ts ++ arguments.trees) := by
    rw [← arguments.isArray_arguments]
    exact arguments.recount_eq harguments (TypePhrase.endsAt_closingAngle hclose) ts
  have hlist : typeArgumentList.recite (Action.recount production) (Token.openAngle :: ws')
      (shownTrees s) = _ := recite_typeArgumentList_of hread hclose
  rw [← hwords] at hlist
  exact Action.exists_does_of_recount hs hshown hlist

/-- **What comes of type arguments that were promised.**  Wherever the words ahead settle that an
angle bracket opens type arguments, a list is read to its end.  It takes the words that were passed
over, without a problem and with the tree of the list, exactly if these words are a type argument
list; if they are none, some problem is noted. -/
theorem typeArgumentList_committed (source : String)
    (hpart : ws <:+ (lex source).filter Token.isSignificant) (hat : atTypeArguments ws = true) :
    ∃ rest, scanTypeArguments ws = some rest ∧
      ∀ s : ReadState, s.Orderly → s.words = ws →
        ∃ t, typeArgumentList.Does production s () t ∧
          (t.found = s.found ↔ ∃ arguments : TypePhrase .arguments, arguments.SpelledAsList ws rest) ∧
          ∀ arguments : TypePhrase .arguments, arguments.SpelledAsList ws rest →
            t.words = rest ∧ shownTrees t = shownTrees s ++ [TypePhrase.listTree arguments.trees] := by
  cases hscan : scanTypeArguments ws with
  | none =>
    rw [atTypeArguments, hscan] at hat
    cases hat
  | some rest =>
    refine ⟨rest, rfl, ?_⟩
    rintro s hs rfl
    have hmem : ∀ w ∈ s.words, w ∈ lex source ∧ w.isSignificant = true :=
      fun w hw => List.mem_filter.mp (hpart.subset hw)
    have hshown : ∀ w ∈ s.words, w.isTrivia = false :=
      fun w hw => by simpa [Token.isSignificant] using (hmem w hw).2
    have hlegible : AllLegible s.words := fun w hw => legible_of_mem_lex (hmem w hw).1
    obtain ⟨t, hdoes⟩ := exists_does_typeArgumentList hs
    refine ⟨t, hdoes, ⟨fun hfound => ?_, ?_⟩, fun arguments harguments => ?_⟩
    · obtain ⟨arguments, harguments⟩ := exists_arguments_of_does hs hlegible hshown hdoes hfound
      have hrest : t.words = rest := by simpa [hscan, eq_comm] using harguments.scan_eq
      exact ⟨arguments, hrest ▸ harguments⟩
    · rintro ⟨arguments, harguments⟩
      obtain ⟨u, hdoes', -, -, hfound⟩ := exists_does_of_spelledAsList hs hshown harguments
      obtain ⟨-, rfl⟩ := hdoes.unique hdoes'
      exact hfound
    · obtain ⟨u, hdoes', hwords, hbuilt, -⟩ := exists_does_of_spelledAsList hs hshown harguments
      obtain ⟨-, rfl⟩ := hdoes.unique hdoes'
      exact ⟨hwords, hbuilt⟩

/-- The words of `f(a<b,c>(d))` from the angle bracket on. -/
def genericCall : List Token := ((lex "f(a<b,c>(d))").filter Token.isSignificant).drop 3

/-- The same of a comparison, in which parentheses stand between the angle brackets. -/
def comparedCall : List Token := ((lex "f(a < b) > (c)").filter Token.isSignificant).drop 3

theorem typeArgumentList_committed_genericCall :
    genericCall <:+ (lex "f(a<b,c>(d))").filter Token.isSignificant ∧
      atTypeArguments genericCall = true ∧
      ∃ rest, scanTypeArguments genericCall = some rest ∧
        ∀ s : ReadState, s.Orderly → s.words = genericCall →
          ∃ t, typeArgumentList.Does production s () t ∧
            (t.found = s.found ↔
              ∃ arguments : TypePhrase .arguments, arguments.SpelledAsList genericCall rest) ∧
            ∀ arguments : TypePhrase .arguments, arguments.SpelledAsList genericCall rest →
              t.words = rest ∧
                shownTrees t = shownTrees s ++ [TypePhrase.listTree arguments.trees] := by
  have hat : atTypeArguments genericCall = true := by decide +kernel
  exact ⟨List.drop_suffix _ _, hat,
    typeArgumentList_committed "f(a<b,c>(d))" (List.drop_suffix _ _) hat⟩

/-- The comparison of a call is refused: the words ahead promise type arguments, but the list has
no closing bracket where it ends.  With another operator in place of the first one, the same words
are read without a problem. -/
theorem comparedCall_refused :
    comparedCall <:+ (lex "f(a < b) > (c)").filter Token.isSignificant ∧
      atTypeArguments comparedCall = true ∧
      scanTypeArguments comparedCall = some (comparedCall.drop 4) ∧
      (parseExpression "f(a < b) > (c)").diagnostics = [⟨.expected "`>`", ⟨7, 8⟩⟩] ∧
      (parseExpression "f(a <= b) > (c)").isClean = true := by
  refine ⟨List.drop_suffix _ _, ?_⟩
  decide +kernel

end Grammar

end LivePatch
