import LivePatch.Proofs.Following.Fragments
import LivePatch.Proofs.NameTemplates
import LivePatch.Proofs.Operations.Readings

/-!
# Guards of switch arms

In `x switch \x7b _ when g => v \x7d` an arrow stands right behind the guard.  It is taken for the
arrow of a lambda if the guard ends in a name or a parenthesis that may be its parameters; other
guards are read as they are by themselves (`ReadsAs.guards`), and so are the arms that they stand in
(`readsAs_guardedText`).  Of a term its shape tells whether it ends so (`Term.guards`): a call ends
in a parenthesis, too, but none that holds parameters.
-/

namespace LivePatch

open LivePatch.Action (recount recount_eq)
open Token (endOfText)
open Words (front)

namespace Token

def openBrace : Token := ⟨.lBrace, "\x7b"⟩
def closeBrace : Token := ⟨.rBrace, "\x7d"⟩
def arrow : Token := ⟨.fatArrow, "=>"⟩
def switchWord : Token := ⟨.switchKw, "switch"⟩
def whenWord : Token := ⟨.identifier, "when"⟩
def underscore : Token := ⟨.identifier, "_"⟩

theorem isCutWord_switchWord : switchWord.IsCutWord :=
  ⟨rfl, true, [], 's', "witch".toList, rfl, Lexer.cuts_of_read rfl⟩

theorem isCutWord_whenWord : whenWord.IsCutWord :=
  ⟨rfl, true, [], 'w', "hen".toList, rfl, Lexer.cuts_of_read rfl⟩

theorem isCutWord_underscore : underscore.IsCutWord :=
  ⟨rfl, true, [], '_', [], rfl, Lexer.cuts_of_read rfl⟩

end Token

open Token (arrow closeBrace underscore openBrace switchWord whenWord)

namespace Grammar

variable {gs vs : List Token} {g v : Tree}

/-- The tree of an arm with a discard, the guard `g` and the value `v`. -/
def guardedArm (g v : Tree) : Tree :=
  .node .switchExpressionArm [.node .nameExpression [.token underscore],
    .node .whenClause [.token whenWord, g], .token arrow, v]

/-- The tree of a switch expression over the name `x` with this arm alone. -/
def guardedSwitch (x : Token) (g v : Tree) : Tree :=
  .node .switchExpression [.node .nameExpression [.token x], .token switchWord, .token openBrace,
    guardedArm g v, .token closeBrace]

/-- Its words, with those of the guard and of the value. -/
def guardedWords (x : Token) (gs vs : List Token) : List Token :=
  x :: switchWord :: openBrace :: underscore :: whenWord :: (gs ++ arrow :: (vs ++ [closeBrace]))

/-- No variable is declared in front of a guard. -/
theorem atDeclarationExpression_discard (ws : List Token) :
    Words.atDeclarationExpression (underscore :: whenWord :: ws) = false := by
  have htail : Words.skipNameTail (whenWord :: ws) = whenWord :: ws :=
    TypePhrase.skipNameTail_end (TypePhrase.afterTypeArguments_self nofun) rfl
  have hsuffixes : Words.skipTypeSuffixes (whenWord :: ws) = whenWord :: ws :=
    TypePhrase.skipTypeSuffixes_eq rfl
  have htype : Words.afterType (underscore :: whenWord :: ws) = some (whenWord :: ws) := by
    rw [TypePhrase.afterType_name rfl, htail, hsuffixes]
  have hwhen : whenWord.text = "when" := rfl
  simp [Words.atDeclarationExpression, htype, Words.frontText, hwhen]

/-- The discard in front of a guard is read as a name. -/
theorem recount_discard (ws : List Token) :
    recount production .pattern (underscore :: whenWord :: ws) [] =
      some (false, whenWord :: ws, [.node .nameExpression [.token underscore]]) := by
  have hdiscard : underscore.kind = .identifier := rfl
  have hwhen : whenWord.kind = .identifier := rfl
  have htext : underscore.text = "_" := rfl
  have hwhentext : whenWord.text = "when" := rfl
  have hoperand : operand.recite (recount production) (underscore :: whenWord :: ws) [] =
      some ((), whenWord :: ws, [.node .nameExpression [.token underscore]]) := by
    simp [operand, hdiscard, hwhen, htext, Kind.isLiteral, Kind.isPredefinedType,
      identifierOperand, Words.frontText, nameExpression, expectIdentifier]
  have hstops : Stops shiftPower (whenWord :: ws) := rfl
  have hexpression : recount production (.expression shiftPower) (underscore :: whenWord :: ws) [] =
      some (false, whenWord :: ws, [.node .nameExpression [.token underscore]]) := by
    rw [Term.recount_operand hoperand, recount_operators_of_stops hstops]
    rfl
  have hprimary : recount production .primaryPattern (underscore :: whenWord :: ws) [] =
      some (false, whenWord :: ws, [.node .nameExpression [.token underscore]]) := by
    rw [recount_eq, production]
    simp [primaryPattern, hdiscard, hwhen, htext, Words.isRelational, Kind.isPredefinedType,
      atNotPattern, Words.frontText, atDeclarationExpression_discard, hexpression]
  have hmore : recount production .patternOperators (whenWord :: ws)
      [.node .nameExpression [.token underscore]] = some (false, whenWord :: ws,
        [.node .nameExpression [.token underscore]]) := by
    rw [recount_eq, production]
    simp [patternOperators, hwhen, hwhentext, Words.frontText]
  rw [recount_eq, production]
  simp [pattern, hprimary, hmore]

/-- The arm behind the brace, in front of the other brace. -/
theorem recount_guardedArm {us : List Token} (ts : List Tree)
    (hg : ReadsBefore 0 gs (arrow :: (vs ++ closeBrace :: us)) g)
    (hv : ReadsBefore 0 vs (closeBrace :: us) v) :
    recount production .switchArms
        (underscore :: whenWord :: (gs ++ arrow :: (vs ++ closeBrace :: us))) ts =
      some (false, closeBrace :: us, ts ++ [guardedArm g v]) := by
  have hdiscard : underscore.kind = .identifier := rfl
  have hwhen : whenWord.kind = .identifier := rfl
  have htext : whenWord.text = "when" := rfl
  have harrow : arrow.kind = .fatArrow := rfl
  have hclose : closeBrace.kind = .rBrace := rfl
  rw [recount_eq, production]
  simp [switchArms, hdiscard, hwhen, htext, harrow, hclose, Words.frontText,
    recount_discard, whenClause, expression, hg.recount_eq, hv.recount_eq, guardedArm]

/-- **A switch expression with a guard** whose parts are read where they stand. -/
theorem readsBefore_guardedSwitch (x : Name)
    (hg : ReadsBefore 0 gs (arrow :: (vs ++ [closeBrace, endOfText])) g)
    (hv : ReadsBefore 0 vs [closeBrace, endOfText] v) :
    ReadsBefore 0 (guardedWords x.token gs vs) [endOfText] (guardedSwitch x.token g v) := by
  have hopen : openBrace.kind = .lBrace := rfl
  have hclose : closeBrace.kind = .rBrace := rfl
  have harm (ts : List Tree) := recount_guardedArm ts hg hv
  have hoperand : operand.recite (recount production) (x.token :: switchWord :: openBrace ::
      underscore :: whenWord :: (gs ++ arrow :: (vs ++ [closeBrace, endOfText]))) [] =
        some ((), _, _) := recite_nameBefore x rfl nofun nofun
  have hstep : operatorStep? 0 switchWord.kind (Words.isAt 1 .identifier (switchWord :: openBrace ::
      underscore :: whenWord :: (gs ++ arrow :: (vs ++ [closeBrace, endOfText])))) =
        some switchTail := rfl
  have hstops : Stops 0 [endOfText] := rfl
  rw [ReadsBefore, guardedWords]
  simp only [List.cons_append, List.append_assoc, List.nil_append]
  rw [Term.recount_operand hoperand, recount_operators hstep]
  simp [switchTail, hopen, hclose, harm, recount_operators_of_stops hstops, guardedSwitch]

/-! ## Texts -/

/-- The text `g` is read in front of the arrow of an arm as the expression `e`. -/
def Guards (g : String) (e : Tree) : Prop :=
  lexicalFaults g = [] ∧ ∃ depth, Action.reciteRule production depth (.expression 0)
    (wordsOf g ++ [arrow]) [] = some (false, [arrow], [e])

/-- **An expression guards an arm** as it is read by itself, unless its last word is a name, a
closing parenthesis or a closing angle bracket. -/
theorem ReadsAs.guards {source : String} {e : Tree} (h : ReadsAs 0 source e)
    (hlast : ∀ w, (wordsOf source).getLast? = some w → w.kind.fitsArrow = true) :
    Guards source e :=
  ⟨(readsAs_iff.mp h).1, Action.recount_eq_some_iff.mp
    (h.readsBefore.followed (w := arrow) rfl (fun _ => hlast) fun _ => nofun)⟩

/-- The text of a switch expression with one arm, which has a guard. -/
def guardedText (x g v : String) : String :=
  x ++ " switch \x7b _ when " ++ g ++ " => " ++ v ++ " \x7d"

theorem Guards.readsAs (x : Name) {gtext vtext : String} {g v : Tree} (hg : Guards gtext g)
    (hgfits : fitsBetween gtext = true) (hv : ReadsAs 0 vtext v)
    (hvfits : fitsBetween vtext = true) :
    ReadsAs 0 (guardedText x.token.text gtext vtext) (guardedSwitch x.token g v) := by
  have hvalue : ReadsBefore 0 (wordsOf vtext) [closeBrace, endOfText] v :=
    hv.readsBefore.followed rfl nofun fun _ => nofun
  have hguard : ReadsBefore 0 (wordsOf gtext) (arrow :: (wordsOf vtext ++ [closeBrace, endOfText]))
      g := by
    refine ReadsBefore.arrow (Action.recount_eq_some_iff.mpr hg.2) rfl fun depth => ?_
    rw [hvalue.skipParens_eq]
    nofun
  have hstands : Token.Stands (guardedText x.token.text gtext vtext).toList
      (guardedWords x.token (wordsOf gtext) (wordsOf vtext)) := by
    have hword {t : Token} (h : t.IsCutWord) := (Token.standsAlone_word h).stands
    have hmark {t : Token} (h : (t.text, t.kind) ∈ Kind.marks) := (Token.standsAlone_mark h).stands
    have hall := (hword x.cut).append <| (hword Token.isCutWord_switchWord).append <|
      (hmark (t := openBrace) (by decide)).append <| (hword Token.isCutWord_underscore).append <|
      (hword Token.isCutWord_whenWord).append <|
      (Token.stands_of_fitsBetween hg.1 hgfits).append <|
      (hmark (t := arrow) (by decide)).append <| (hv.stands hvfits).append <|
      hmark (t := closeBrace) (by decide)
    simpa [guardedText, guardedWords, wordsOf, switchWord, openBrace, underscore, whenWord, arrow,
      closeBrace] using hall
  exact readsAs_of_stands hstands (readsBefore_guardedSwitch x hguard hvalue)

/-- **An arm holds its guard and its value**, if the guard is read in front of an arrow; so it is if
it is read by itself and no name, parenthesis or angle bracket ends it. -/
theorem readsAs_guardedText (x : Name) {gtext vtext : String} {g v : Tree}
    (hgfits : fitsBetween gtext = true) (hv : ReadsAs 0 vtext v)
    (hvfits : fitsBetween vtext = true) :
    (Guards gtext g →
      ReadsAs 0 (guardedText x.token.text gtext vtext) (guardedSwitch x.token g v)) ∧
    (ReadsAs 0 gtext g →
      (∀ w, (wordsOf gtext).getLast? = some w → w.kind.fitsArrow = true) →
        ReadsAs 0 (guardedText x.token.text gtext vtext) (guardedSwitch x.token g v)) :=
  ⟨fun hg => hg.readsAs x hgfits hv hvfits,
    fun hg hlast => (hg.guards hlast).readsAs x hgfits hv hvfits⟩

theorem readsAs_guardedText_call :
    let x : Name := ⟨⟨.identifier, "x"⟩, rfl, rfl, true, [], 'x', [], rfl, Lexer.cuts_of_read rfl⟩
    let a : Tree := .node .nameExpression [.token ⟨.identifier, "a"⟩]
    let call : Tree := .node .invocationExpression [
      .node .memberAccessExpression [a, .token ⟨.dot, "."⟩,
        .node .nameExpression [.token ⟨.identifier, "f"⟩]],
      .node .argumentList [.token ⟨.lParen, "("⟩, .token ⟨.rParen, ")"⟩]]
    let one : Tree := .node .literalExpression [.token ⟨.intLiteral, "1"⟩]
    let comparison : Tree := .node .binaryExpression [a, .token ⟨.greater, ">"⟩, one]
    Guards "a.f()" call ∧ fitsBetween "a.f()" = true ∧ ReadsAs 0 "a > 1" comparison ∧
      fitsBetween "a > 1" = true ∧
      (∀ w, (wordsOf "a > 1").getLast? = some w → w.kind.fitsArrow = true) ∧
      ReadsAs 0 "1" one ∧ fitsBetween "1" = true ∧
      guardedText x.token.text "a.f()" "1" = "x switch \x7b _ when a.f() => 1 \x7d" ∧
      ReadsAs 0 (guardedText x.token.text "a.f()" "1") (guardedSwitch x.token call one) ∧
      ReadsAs 0 (guardedText x.token.text "a > 1" "1") (guardedSwitch x.token comparison one) := by
  intro x a call one comparison
  have hcall : Guards "a.f()" call := ⟨by decide +kernel, 20, by decide +kernel⟩
  have hcallFits : fitsBetween "a.f()" = true := by decide +kernel
  obtain ⟨hcomparison, hcomparisonFits, hwords⟩ : ReadsAs 0 "a > 1" comparison ∧
      fitsBetween "a > 1" = true ∧
      (wordsOf "a > 1").getLast? = some ⟨.intLiteral, "1"⟩ := by
    decide +kernel
  have hlast : ∀ w, (wordsOf "a > 1").getLast? = some w → w.kind.fitsArrow = true := by
    intro w hw
    obtain rfl := Option.some.inj (hwords.symm.trans hw)
    rfl
  obtain ⟨hone, honeFits⟩ : ReadsAs 0 "1" one ∧ fitsBetween "1" = true := by decide +kernel
  exact ⟨hcall, hcallFits, hcomparison, hcomparisonFits, hlast, hone, honeFits, rfl,
    (readsAs_guardedText x hcallFits hone honeFits).1 hcall,
    (readsAs_guardedText x hcomparisonFits hone honeFits).2 hcomparison hlast⟩

end Grammar

/-- **A term guards an arm** if it does not end in a name that stands alone or in parentheses of its
own. -/
theorem Term.guards (e : Term .value) (hopen : e.endsOpen = false) {source : String} {t : Tree}
    (hclean : lexicalFaults source = []) (hwords : Grammar.wordsOf source = e.words)
    (htree : e.trees = [t]) : Grammar.Guards source t := by
  have hstops (power : Nat) : Grammar.Stops power [arrow] := rfl
  have hread : recount Grammar.production (.expression 0) (e.words ++ [arrow]) [] =
      some (false, [arrow], [t]) := by
    rw [e.isRead 0 _ _ (Nat.zero_le _) (.inr ⟨rfl, hopen⟩) fun _ => hstops _,
      Grammar.recount_operators_of_stops (hstops 0), htree]
    rfl
  exact ⟨hclean, Action.recount_eq_some_iff.mp (hwords ▸ hread)⟩

/-- A guard that is a name is taken for the parameter of a lambda: the arrow of the arm stands right
behind it. -/
theorem guard_reread : (parseExpression "a").isClean = true ∧
    .lambdaExpression ∉ (parseExpression "a").tree.kinds ∧
    (parseExpression "1").isClean = true ∧
    (parseExpression "x switch \x7b _ when a => 1 \x7d").isClean = false ∧
    .lambdaExpression ∈ (parseExpression "x switch \x7b _ when a => 1 \x7d").tree.kinds := by
  decide +kernel

end LivePatch
