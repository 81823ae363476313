import LivePatch.Proofs.Cutting.Ends
import LivePatch.Proofs.Operations.Readings
import LivePatch.Proofs.TemplateTrees

/-!
# Terms are read back

The text of a term has single spaces between its words, so it is cut into these words, whatever they
are.  With the reading of the words this says that the text of every term is read back as its tree
(`Term.parseExpression_text`).
-/

namespace LivePatch

namespace Token

variable {lineStart : Bool} {t : Token} {ts : List Token} {rest : List Char}

/-! ## Words between spaces -/

/-- The token is cut where it stands between spaces, and the grammar sees it. -/
structure StandsAlone (t : Token) : Prop where
  isTrivia : t.kind.isTrivia = false
  cut : ∀ lineStart rest, rest = [] ∨ (∃ more, rest = ' ' :: more) → t.Cut lineStart rest

theorem standsAlone_word (h : t.IsCutWord) : t.StandsAlone where
  isTrivia := Kind.isTrivia_of_isWord h.isWord
  cut := by
    rintro lineStart rest (rfl | ⟨more, rfl⟩)
    · exact h.cut_of_next rfl
    · have hspace : isIdentifierContinue ' ' = false := by decide +kernel
      exact h.cut_of_next hspace

theorem standsAlone_mark (h : (t.text, t.kind) ∈ Kind.marks) : t.StandsAlone where
  isTrivia := by
    have hall : ∀ m ∈ Kind.marks, m.2.isTrivia = false := by decide
    exact hall _ h
  cut := by
    have htext : t.text ≠ "" := by
      have hall : ∀ m ∈ Kind.marks, m.1 ≠ "" := by decide
      exact hall _ h
    rintro lineStart rest (rfl | ⟨more, rfl⟩)
    · exact cut_mark h rfl
    · exact cut_mark h (by simp [Lexer.joinsMark_of_isBlank htext (c := ' ') (by decide)])

theorem standsAlone_integer (literal : IntegerLiteral) : literal.token.StandsAlone where
  isTrivia := by simp [Kind.isTrivia]
  cut := by
    obtain ⟨_, hcut⟩ := literal.cut
    have hcut (lineStart : Bool) : literal.token.Cut lineStart [] := hcut.of_lineStart (by simp)
    rintro lineStart rest (rfl | ⟨more, rfl⟩)
    · exact hcut lineStart
    · exact (hcut lineStart).append_of_isNumber (by rw [literal.kind_eq]; rfl) (by decide) more

/-- The tokens with a space between each two. -/
def spaced (ts : List Token) : List Token := ts.intersperse space

/-- A space is cut in front of what the grammar sees. -/
theorem cut_space_of_cut (h : t.Cut lineStart rest) (ht : t.kind.isTrivia = false)
    (more : List Char) : space.Cut lineStart (t.text.toList ++ more) := by
  obtain ⟨c, cs, htext, hcuts⟩ := h
  obtain ⟨hblank, -⟩ := hcuts.first_of_isTrivia ht
  rw [htext]
  refine ⟨' ', [], rfl, .blank rfl rfl ?_⟩
  rw [List.nil_append, List.cons_append, Lexer.runLength_cons, hblank]
  rfl

/-- **Words between spaces are cut** one after the other. -/
theorem lexes_spaced (h : ∀ t ∈ ts, t.StandsAlone) (lineStart : Bool) :
    Lexes lineStart (spaced ts) [] := by
  induction ts generalizing lineStart with
  | nil => trivial
  | cons t ts ih =>
    obtain ⟨ht, hts⟩ := List.forall_mem_cons.mp h
    cases ts with
    | nil => exact ⟨ht.cut lineStart _ (.inl rfl), trivial⟩
    | cons u us =>
      have hrest := ih hts
      rw [spaced, List.intersperse_cons_cons]
      have hspace : charsOf (space :: spaced (u :: us)) ++ [] =
          ' ' :: (charsOf (spaced (u :: us)) ++ []) := by
        rw [charsOf_cons]
        rfl
      refine ⟨ht.cut lineStart _ (.inr ⟨_, hspace⟩), ?_, hrest _⟩
      obtain ⟨us', hus⟩ : ∃ us', spaced (u :: us) = u :: us' := by
        cases us with
        | nil => exact ⟨_, rfl⟩
        | cons v us => exact ⟨_, List.intersperse_cons_cons⟩
      obtain ⟨hu, -⟩ := List.forall_mem_cons.mp hts
      have hspace := cut_space_of_cut (hu.cut (lineStartOf lineStart [t]) [] (.inl rfl)) hu.isTrivia
        (charsOf us')
      rw [List.append_nil]
      change space.Cut _ (charsOf (spaced (u :: us)))
      rw [hus, charsOf_cons]
      exact hspace

theorem filter_spaced (h : ∀ t ∈ ts, t.StandsAlone) :
    (spaced ts).filter isSignificant = ts := by
  induction ts with
  | nil => rfl
  | cons t ts ih =>
    obtain ⟨ht, hts⟩ := List.forall_mem_cons.mp h
    have hshown : t.isSignificant = true := by simp [isSignificant, isTrivia, ht.isTrivia]
    have hspace : space.isSignificant = false := rfl
    cases ts with
    | nil => simp [spaced, hshown]
    | cons u us =>
      rw [spaced, List.intersperse_cons_cons, List.filter_cons_of_pos hshown,
        List.filter_cons_of_neg (by simp [hspace])]
      exact congrArg _ (ih hts)

theorem intercalate_text (ts : List Token) :
    " ".intercalate (ts.map Token.text) = textOf (spaced ts) := by
  refine String.toList_inj.mp ?_
  induction ts with
  | nil => rfl
  | cons t ts ih =>
    cases ts with
    | nil => simp [spaced, textOf]
    | cons u us =>
      rw [List.map_cons, List.map_cons, String.intercalate_cons_cons, String.toList_append,
        String.toList_append, spaced, List.intersperse_cons_cons]
      change _ = charsOf _
      rw [charsOf_cons, charsOf_cons, List.append_assoc]
      exact congrArg _ (congrArg _ ih)

end Token

namespace Term

open Token (StandsAlone)
open Grammar (production)

variable {r : TermRole}

theorem standsAlone_enclose {asked : Bool} {ws : List Token} (h : ∀ w ∈ ws, w.StandsAlone) :
    ∀ w ∈ enclose asked ws, w.StandsAlone := by
  cases asked with
  | false => exact h
  | true =>
    have hopen : Token.openParen.StandsAlone := Token.standsAlone_mark (by decide)
    have hclose : Token.closeParen.StandsAlone := Token.standsAlone_mark (by decide)
    simpa [enclose, or_imp, forall_and, hopen, hclose] using h

/-- Every word of a term stands alone. -/
theorem standsAlone_words (e : Term r) : ∀ w ∈ e.words, w.StandsAlone := by
  have hmark {w : Token} (h : (w.text, w.kind) ∈ Kind.marks) : w.StandsAlone :=
    Token.standsAlone_mark h
  have hnone : ∀ w ∈ ([] : List Token), w.StandsAlone := List.forall_mem_nil _
  have hname (n : Name) : ∀ w ∈ [n.token], w.StandsAlone :=
    List.forall_mem_singleton.mpr (Token.standsAlone_word n.cut)
  induction e with
  | name n => exact hname n.toName
  | number literal => exact List.forall_mem_singleton.mpr (Token.standsAlone_integer literal)
  | this => exact List.forall_mem_singleton.mpr (Token.standsAlone_word Token.isCutWord_this)
  | member receiver n ih =>
    exact List.forall_mem_append.mpr ⟨standsAlone_enclose ih,
      List.forall_mem_cons.mpr ⟨hmark (by decide), hname n⟩⟩
  | call callee ih =>
    exact List.forall_mem_append.mpr ⟨standsAlone_enclose ih, List.forall_mem_cons.mpr
      ⟨hmark (by decide), List.forall_mem_cons.mpr ⟨hmark (by decide), hnone⟩⟩⟩
  | callWith callee arguments ih iharguments | element callee arguments ih iharguments =>
    exact List.forall_mem_append.mpr ⟨standsAlone_enclose ih, List.forall_mem_cons.mpr
      ⟨hmark (by decide), List.forall_mem_append.mpr
        ⟨iharguments, List.forall_mem_singleton.mpr (hmark (by decide))⟩⟩⟩
  | unary operator operand ih =>
    exact List.forall_mem_cons.mpr ⟨hmark (by cases operator <;> decide), standsAlone_enclose ih⟩
  | binary operator left right ih ihright =>
    exact List.forall_mem_append.mpr ⟨standsAlone_enclose ih,
      List.forall_mem_cons.mpr ⟨hmark operator.isMark, standsAlone_enclose ihright⟩⟩
  | conditional condition whenTrue whenFalse ih ihtrue ihfalse =>
    exact List.forall_mem_append.mpr ⟨standsAlone_enclose ih, List.forall_mem_cons.mpr
      ⟨hmark (by decide), List.forall_mem_append.mpr
        ⟨ihtrue, List.forall_mem_cons.mpr ⟨hmark (by decide), standsAlone_enclose ihfalse⟩⟩⟩⟩
  | last argument ih => exact ih
  | more argument rest ih ihrest =>
    exact List.forall_mem_append.mpr ⟨ih, List.forall_mem_cons.mpr ⟨hmark (by decide), ihrest⟩⟩

/-- An expression has one tree. -/
theorem exists_trees_eq (e : Term .value) : ∃ t, e.trees = [t] := by
  cases e <;> exact ⟨_, rfl⟩

/-- **The text of a term is read back as its tree**, and no problem is noted. -/
theorem parseExpression_text (e : Term .value) :
    (parseExpression e.text).isClean = true ∧
      ∃ t, e.trees = [t] ∧ (parseExpression e.text).tree.dropTrivia =
        .node .expressionFragment [t, .token .endOfText] := by
  obtain ⟨t, ht⟩ := e.exists_trees_eq
  have htext : e.text = Token.textOf (Token.spaced e.words) := Token.intercalate_text e.words
  have hlexes := Token.lexes_spaced e.standsAlone_words true
  have hwords : (lex e.text).filter Token.isSignificant = e.words ++ [.endOfText] := by
    have hlex : lex e.text = lexed e.text ++ [.endOfText] := rfl
    rw [hlex, htext, Token.lexed_of_lexes hlexes, List.filter_append,
      Token.filter_spaced e.standsAlone_words]
    rfl
  have hread : Action.recount production (.expression 0) (e.words ++ [Token.endOfText]) [] =
      some (false, [Token.endOfText], [t]) := by
    rw [e.isRead.whole rfl, ht]
    rfl
  obtain ⟨depth, hrecite⟩ := Action.recount_eq_some_iff.mp (hwords ▸ hread)
  obtain ⟨hclean, htree⟩ := Grammar.isClean_of_recite
    (htext ▸ Token.lexicalFaults_of_lexes hlexes) hrecite
  exact ⟨hclean, t, ht, htree⟩

/-- A sum gets parentheses in a product, and a product gets none in a sum. -/
example (a b c : PlainName) :
    let plus : BinaryOperator := ⟨⟨.plus, "+"⟩, ⟨21, 22, .binaryExpression⟩, by decide, rfl, nofun⟩
    let times : BinaryOperator := ⟨⟨.star, "*"⟩, ⟨23, 24, .binaryExpression⟩, by decide, rfl, nofun⟩
    (binary times (binary plus (name a) (name b)) (name c)).words =
        [Token.openParen, a.token, plus.token, b.token, Token.closeParen, times.token, c.token] ∧
      (binary plus (binary times (name a) (name b)) (name c)).words =
        [a.token, times.token, b.token, plus.token, c.token] :=
  ⟨rfl, rfl⟩

end Term

end LivePatch
