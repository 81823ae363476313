import LivePatch.Proofs.Phrases.Texts

/-!
# Types are passed over as they are read

There are two recognisers of types.  The scan that looks ahead counts angle brackets, and a shift
counts for two; the productions call each other and take a shift apart, one half at a time.  On the
text of every type they agree: both leave what is behind it, wherever shifts have come about in it,
and the reading notes no problem and builds the tree of the type
(`TypePhrase.scan_agrees_with_reading`).
-/

namespace LivePatch

open Words (front Spells afterType)
open Grammar (production)

/-- The words of a text that stands behind a token on its line. -/
def Words.behind (text : String) : List Token :=
  ((Lexer.piecesFrom false 0 text.toList).map Lexer.Lexeme.token ++ [Token.endOfText]).filter
    Token.isSignificant

namespace TypePhrase

variable {f : TypePhrase .type} {after : String}

/-- The words of the text of a type, with shifts. -/
def textWords (f : TypePhrase .type) : List Token :=
  (lexed f.text).filter Token.isSignificant

theorem text_eq (f : TypePhrase .type) : f.text = Token.textOf (Token.joinAngles f.printed) :=
  String.toList_inj.mp (Token.charsOf_joinAngles f.printed).symm

theorem textWords_eq (hproper : f.isProper = true) :
    f.textWords = (Token.joinAngles f.printed).filter Token.isSignificant := by
  rw [textWords, text_eq, Token.lexed_of_lexes (f.lexes_text hproper (by simp))]

/-- The words of the text spell the type. -/
theorem spells_textWords (hproper : f.isProper = true) (rest : List Token) :
    Spells (f.textWords ++ rest) f.words rest := by
  rw [textWords_eq hproper, ← f.filter_printed]
  exact Token.spells_joinAngles f.printed rest

/-- What stands behind the text of a type does not change how that is cut. -/
theorem words_text_append (hproper : f.isProper = true)
    (hblank : after.toList.head?.any isBlank = true) :
    (lex (f.text ++ after)).filter Token.isSignificant = f.textWords ++ Words.behind after := by
  have hrest : ∀ c ∈ after.toList.head?, isBlank c = true := by
    intro c hc
    rw [hc] at hblank
    exact hblank
  have hlexes : Token.Lexes true (Token.joinAngles f.printed) after.toList :=
    f.lexes_text hproper hrest
  have hchars : (f.text ++ after).toList =
      Token.charsOf (Token.joinAngles f.printed) ++ after.toList := by
    rw [String.toList_append, text_eq]
    rfl
  rw [lex, Lexer.pieces, hchars, Token.piecesFrom_append hlexes, f.lineStartOf_text hproper,
    textWords_eq hproper, Words.behind, List.map_append, List.append_assoc, List.filter_append, List.map_map]
  congr 2
  exact List.map_id _

/-- Reading the type from the state `s` comes to `t`: the words `rest` are left, the tree of the type
is built, and no problem is noted. -/
structure IsReadFrom (f : TypePhrase .type) (s t : ReadState) (rest : List Token) : Prop where
  reads : Grammar.type.Does production s f.isArray t
  words : t.words = rest
  built : Action.shownTrees t = Action.shownTrees s ++ f.trees
  found : t.found = s.found

/-- **The scan and the reading of a type agree.**  In front of a blank and of a word that cannot go
on with a type, the text of a type is passed over as a whole, and it is read as a whole. -/
theorem scan_agrees_with_reading (f : TypePhrase .type) (hproper : f.isProper = true)
    (after : String) (hblank : after.toList.head?.any isBlank = true)
    (hnext : (front (Words.behind after)).continuesType = false) :
    let words := (lex (f.text ++ after)).filter Token.isSignificant
    words = f.textWords ++ Words.behind after ∧
      afterType words = some (Words.behind after) ∧
      ∀ s : ReadState, s.Orderly → s.words = words →
        ∃ t, f.IsReadFrom s t (Words.behind after) := by
  intro words
  have hwords : words = f.textWords ++ Words.behind after := words_text_append hproper hblank
  have hspells : Spells words f.words (Words.behind after) :=
    hwords ▸ spells_textWords hproper _
  refine ⟨hwords, ?_, fun s hs hsame => ?_⟩
  · exact f.isScanned hproper words _ hspells (hwords ▸ List.suffix_append _ _) hnext
  · have hshown : ∀ w ∈ s.words, w.isTrivia = false := by
      intro w hw
      rw [hsame] at hw
      simpa [Token.isSignificant] using (List.mem_filter.mp hw).2
    have hread := f.recount_eq hspells (by simpa [TypeRole.endsAt] using hnext)
      (Action.shownTrees s)
    obtain ⟨t, hdoes, ht, hbuilt, hfound⟩ := Action.exists_does_of_recount (a := Grammar.type) hs
      hshown (by rw [hsame, Grammar.type, Action.recite_call]; exact hread)
    exact ⟨t, hdoes, ht, hbuilt, hfound⟩

/-- A type in which the lists of two names end at once, with a tuple inside. -/
def nestedLists : TypePhrase .type :=
  let name (c : Char) (h : Lexer.read true c [] = ⟨.ok .identifier, 0⟩) : Name :=
    ⟨⟨.identifier, String.ofList [c]⟩, rfl, rfl, true, [], c, [], String.toList_ofList,
      Lexer.cuts_of_read h⟩
  let int : BuiltIn :=
    ⟨⟨.intKw, "int"⟩, rfl, rfl, true, [], 'i', ['n', 't'], rfl, Lexer.cuts_of_read rfl⟩
  let pair : TypePhrase .type :=
    tuple (element (builtIn int []) (some (name 'x' rfl))
      (lastElement (named (name 'C' rfl) nameEnd [.array 1]) none)) []
  named (name 'A' rfl)
    (genericSegment (lastArgument (named (name 'B' rfl) (generic (lastArgument pair)) [])) .dot
      (name 'D' rfl) nameEnd) [.nullable]

theorem scan_agrees_with_reading_nestedLists :
    nestedLists.text = "A<B<(int x, C[,])>>.D?" ∧ nestedLists.isProper = true ∧
      (front (Words.behind " x")).continuesType = false ∧
      let words := (lex (nestedLists.text ++ " x")).filter Token.isSignificant
      words = nestedLists.textWords ++ Words.behind " x" ∧
        afterType words = some (Words.behind " x") ∧
        ∀ s : ReadState, s.Orderly → s.words = words →
          ∃ t, nestedLists.IsReadFrom s t (Words.behind " x") := by
  have hnext : (front (Words.behind " x")).continuesType = false := by decide
  exact ⟨rfl, rfl, hnext, scan_agrees_with_reading nestedLists rfl " x" (by decide) hnext⟩

end TypePhrase

end LivePatch
