import LivePatch.Proofs.Cutting.Marks
import LivePatch.Proofs.Phrases.Scans

/-!
# How phrases are printed

A phrase is printed with a blank behind each comma between its parts and in front of the name of an
element, and with no other.  So closing angle brackets stand side by side, and the lexer makes
shifts of them.  What it cuts the printed text into spells the words of the phrase
(`TypePhrase.spells_printed`).
-/

namespace LivePatch

open Token (charsOf closeBracket closeParen closingAngle comma dot doubleColon openAngle
  openBracket openParen question shift space star Lexes)
open Words (Spells)

/-- Would tokens of these kinds, printed side by side, not be cut apart again? -/
def Kind.clashes (k l : Kind) : Bool :=
  (k.isWord && l.isWord) || (k == .question && (l == .question || l == .dot)) ||
    (k == .less && l == .less) || (k == .whitespace && l == .whitespace)

namespace Token

/-- The tokens without letters that phrases are printed with. -/
def printedMarks : List Token :=
  [openAngle, closingAngle, comma, openParen, closeParen, openBracket, closeBracket, dot,
    doubleColon, question, star]

/-- A token that a phrase may be printed with. -/
def IsPrinted (t : Token) : Prop := t.IsCutWord ∨ t ∈ printedMarks ∨ t = space

/-- Tokens that a phrase may be printed with. -/
def AllPrinted (ts : List Token) : Prop := ∀ t ∈ ts, t.IsPrinted

theorem allPrinted_nil : AllPrinted [] := List.forall_mem_nil _

theorem allPrinted_cons {t : Token} {ts : List Token} :
    AllPrinted (t :: ts) ↔ t.IsPrinted ∧ AllPrinted ts := List.forall_mem_cons

theorem allPrinted_append {ts us : List Token} :
    AllPrinted (ts ++ us) ↔ AllPrinted ts ∧ AllPrinted us := List.forall_mem_append

/-- The kind of the first token, or that of a blank behind all of them. -/
def nextKind : List Token → Kind
  | [] => .whitespace
  | t :: _ => t.kind

/-- No token clashes with the next one. -/
def Linked : List Token → Prop
  | [] => True
  | t :: ts => t.kind.clashes (nextKind ts) = false ∧ Linked ts

/-- The tokens with each two closing angle brackets side by side made into a shift. -/
def joinAngles : List Token → List Token
  | t :: u :: ts =>
    if t = closingAngle ∧ u = closingAngle then shift :: joinAngles ts
    else t :: joinAngles (u :: ts)
  | ts => ts

variable {lineStart : Bool} {t u : Token} {ts : List Token} {rest : List Char} {c : Char}

theorem charsOf_joinAngles (ts : List Token) : charsOf (joinAngles ts) = charsOf ts := by
  fun_induction joinAngles ts with
  | case1 t u ts h ih =>
    obtain ⟨rfl, rfl⟩ := h
    simp [ih, shift, closingAngle]
  | case2 t u ts _ ih => simp [ih]
  | case3 => rfl

/-- The joined tokens spell those that were joined. -/
theorem spells_joinAngles (ts us : List Token) :
    Spells ((joinAngles ts).filter isSignificant ++ us) (ts.filter isSignificant) us := by
  fun_induction joinAngles ts with
  | case1 t u ts h ih =>
    obtain ⟨rfl, rfl⟩ := h
    exact .half (.cons closingAngle ih)
  | case2 t u ts _ ih =>
    cases ht : t.isSignificant with
    | false =>
      rw [List.filter_cons_of_neg (by simp [ht]), List.filter_cons_of_neg (by simp [ht])]
      exact ih
    | true =>
      rw [List.filter_cons_of_pos ht, List.filter_cons_of_pos ht]
      exact .cons t ih
  | case3 => exact Words.spells_self_append

/-- A token of kind `k` that a phrase may be printed with begins with `c`. -/
inductive Begins (k : Kind) (c : Char) : Prop
  | word (kind : k.isWord = true) (head : Lexer.isHead c = true)
  | mark (t : Token) (mem : t ∈ printedMarks) (kind : k = t.kind)
      (head : t.text.toList.head? = some c)
  | blank (kind : k = .whitespace) (head : isBlank c = true)

theorem IsPrinted.exists_begins (h : t.IsPrinted) :
    ∃ c cs, t.text.toList = c :: cs ∧ Begins t.kind c := by
  have hmarks : ∀ t ∈ printedMarks, t.text.toList ≠ [] := by decide
  rcases h with hword | hmark | rfl
  · obtain ⟨c, cs, htext, hc⟩ := hword.exists_head
    exact ⟨c, cs, htext, .word hword.isWord hc⟩
  · obtain ⟨c, cs, htext⟩ := List.exists_cons_of_ne_nil (hmarks t hmark)
    exact ⟨c, cs, htext, .mark t hmark rfl (by rw [htext]; rfl)⟩
  · exact ⟨' ', [], rfl, .blank rfl (by decide)⟩

theorem isIdentifierContinue_of_isBlank (h : isBlank c = true) :
    isIdentifierContinue c = false := by
  rw [Bool.eq_false_iff]
  intro hc
  have hplain := Mode.isPlain_of_isIdentifierContinue hc
  simp [Mode.isPlain, h] at hplain

theorem IsPrinted.eq_closingAngle (h : t.IsPrinted) (hk : t.kind = .greater) :
    t = closingAngle := by
  rcases h with hword | hmark | rfl
  · have hisWord := hword.isWord
    rw [hk] at hisWord
    cases hisWord
  · have hall : ∀ t ∈ printedMarks, t.kind = .greater → t = closingAngle := by decide
    exact hall t hmark hk
  · cases hk

/-- A word is cut from what begins no word. -/
theorem Begins.isIdentifierContinue {k : Kind} (h : Begins k c) (hk : k.isWord = false) :
    isIdentifierContinue c = false := by
  cases h with
  | word kind => rw [hk] at kind; cases kind
  | mark t mem _ head =>
    have hall : ∀ t ∈ printedMarks, t.text.toList.head?.all
        (!LivePatch.isIdentifierContinue ·) = true := by
      decide
    simpa [head] using hall t mem
  | blank _ head => exact isIdentifierContinue_of_isBlank head

/-- A mark is cut from what does not clash with it. -/
theorem Begins.joinsMark {k : Kind} (h : Begins k c) (ht : t ∈ shift :: printedMarks)
    (hclash : t.kind.clashes k = false) (hangles : t = closingAngle → k ≠ .greater) :
    Lexer.joinsMark t.text c = false := by
  have htext : ∀ t ∈ shift :: printedMarks, t.text ≠ "" := by decide
  cases h with
  | word _ head => exact Lexer.joinsMark_of_isHead (htext t ht) head
  | mark u mem kind head =>
    subst kind
    have hall : ∀ t ∈ shift :: printedMarks, ∀ u ∈ printedMarks, t.kind.clashes u.kind = false →
        (t = closingAngle → u.kind ≠ .greater) →
        u.text.toList.head?.all (!Lexer.joinsMark t.text ·) = true := by
      decide +kernel
    simpa [head] using hall t ht u mem hclash hangles
  | blank _ head => exact Lexer.joinsMark_of_isBlank (htext t ht) head

/-- A blank is cut from what is none. -/
theorem Begins.isBlank {k : Kind} (h : Begins k c) (hk : k ≠ .whitespace) :
    isBlank c = false := by
  cases h with
  | word _ head => exact Lexer.isBlank_of_isHead head
  | mark t mem _ head =>
    have hall : ∀ t ∈ printedMarks, t.text.toList.head?.all (!LivePatch.isBlank ·) = true := by
      decide
    simpa [head] using hall t mem
  | blank kind => exact absurd kind hk

/-- **Printed tokens are cut apart** unless they clash. -/
theorem IsPrinted.cut (h : t.IsPrinted ∨ t = shift) {k : Kind}
    (hnext : ∀ c ∈ rest.head?, Begins k c) (hclash : t.kind.clashes k = false)
    (hangles : t = closingAngle → k ≠ .greater) : t.Cut lineStart rest := by
  have hmarks : ∀ t ∈ shift :: printedMarks, (t.text, t.kind) ∈ Kind.marks := by decide
  have hmark : t ∈ shift :: printedMarks → t.Cut lineStart rest := by
    intro ht
    refine cut_mark (hmarks t ht) ?_
    cases rest with
    | nil => rfl
    | cons c cs => simpa using (hnext c rfl).joinsMark ht hclash hangles
  rcases h with (hword | ht | rfl) | rfl
  · refine hword.cut_of_next ?_
    have hk : k.isWord = false := by
      simp only [Kind.clashes, hword.isWord, Bool.true_and, Bool.or_eq_false_iff] at hclash
      exact hclash.1.1.1
    cases rest with
    | nil => rfl
    | cons c cs => exact (hnext c rfl).isIdentifierContinue hk
  · exact hmark (List.mem_cons_of_mem _ ht)
  · have hk : k ≠ .whitespace := by
      rintro rfl
      cases hclash
    refine ⟨' ', [], rfl, .blank rfl rfl ?_⟩
    cases rest with
    | nil => rfl
    | cons c cs =>
      rw [List.nil_append, Lexer.runLength_cons, (hnext c rfl).isBlank hk]
      rfl
  · exact hmark List.mem_cons_self

theorem begins_next (hts : AllPrinted ts) (hrest : ∀ c ∈ rest.head?, isBlank c = true) :
    ∀ c ∈ (charsOf ts ++ rest).head?, Begins (nextKind ts) c := by
  cases ts with
  | nil =>
    intro c hc
    exact .blank rfl (hrest c (by simpa using hc))
  | cons t ts =>
    obtain ⟨d, ds, htext, hbegins⟩ := (hts t List.mem_cons_self).exists_begins
    intro c hc
    rw [charsOf_cons, htext] at hc
    obtain rfl : d = c := by simpa using hc
    exact hbegins

/-- **What is linked is cut** as it was printed, but for shifts. -/
theorem lexes_joinAngles (hts : AllPrinted ts) (hlinked : Linked ts)
    (hrest : ∀ c ∈ rest.head?, LivePatch.isBlank c = true) : Lexes lineStart (joinAngles ts) rest := by
  fun_induction joinAngles ts generalizing lineStart with
  | case1 t u ts h ih =>
    obtain ⟨rfl, rfl⟩ := h
    obtain ⟨-, hts⟩ := allPrinted_cons.mp hts
    obtain ⟨-, hts⟩ := allPrinted_cons.mp hts
    refine ⟨?_, ih hts hlinked.2.2⟩
    rw [charsOf_joinAngles]
    exact IsPrinted.cut (.inr rfl) (begins_next hts hrest) rfl nofun
  | case2 t u ts h ih =>
    obtain ⟨ht, hts⟩ := allPrinted_cons.mp hts
    refine ⟨?_, ih hts hlinked.2⟩
    rw [charsOf_joinAngles]
    refine IsPrinted.cut (.inl ht) (begins_next hts hrest) hlinked.1 fun hangle hu => ?_
    exact h ⟨hangle, (hts u List.mem_cons_self).eq_closingAngle hu⟩
  | case3 ts h =>
    cases ts with
    | nil => trivial
    | cons t ts =>
      cases ts with
      | nil =>
        exact lexes_singleton.mpr (IsPrinted.cut (.inl (hts t List.mem_cons_self))
          (begins_next allPrinted_nil hrest) hlinked.1 nofun)
      | cons u ts => exact (h t u ts rfl).elim

theorem IsPrinted.lineStartOf_singleton (h : t.IsPrinted)
    (hstart : lineStart = false ∨ t.kind ≠ .whitespace) : lineStartOf lineStart [t] = false := by
  by_cases hk : t.kind = .whitespace
  · obtain rfl := hstart.resolve_right (not_not_intro hk)
    rcases h with hword | hmark | rfl
    · exact absurd hk hword.ne_whitespace
    · have hall : ∀ t ∈ printedMarks, t.kind ≠ .whitespace := by decide
      exact absurd hk (hall t hmark)
    · rfl
  · exact lineStartOf_concat [] hk

/-- Behind printed tokens the line has begun, unless they begin with a blank. -/
theorem lineStartOf_joinAngles (hts : AllPrinted ts)
    (hstart : lineStart = false ∨ nextKind ts ≠ .whitespace) :
    lineStartOf lineStart (joinAngles ts) = false := by
  fun_induction joinAngles ts generalizing lineStart with
  | case1 t u ts h ih =>
    obtain ⟨-, hts⟩ := allPrinted_cons.mp hts
    obtain ⟨-, hts⟩ := allPrinted_cons.mp hts
    exact ih hts (.inl (Mode.lineStartAfter_eq_false (by nofun)))
  | case2 t u ts h ih =>
    obtain ⟨ht, hts⟩ := allPrinted_cons.mp hts
    exact ih hts (.inl (ht.lineStartOf_singleton hstart))
  | case3 ts h =>
    cases ts with
    | nil => exact hstart.resolve_right (not_not_intro rfl)
    | cons t ts =>
      cases ts with
      | nil => exact (hts t List.mem_cons_self).lineStartOf_singleton hstart
      | cons u ts => exact (h t u ts rfl).elim

end Token

namespace TypePhrase

open Token (AllPrinted allPrinted_append allPrinted_cons allPrinted_nil joinAngles nextKind
  Linked)

variable {r : TypeRole} {ts : List Token}

/-- The name of an element with a blank in front, if it has one. -/
def printedName (name : Option Name) : List Token := (nameWords name).flatMap ([space, ·])

/-- The tokens that a phrase is printed with, each closing angle bracket for itself. -/
def printed : {r : TypeRole} → TypePhrase r → List Token
  | _, builtIn word suffixes => word.token :: suffixWords suffixes
  | _, tuple elements suffixes =>
    openParen :: (elements.printed ++ closeParen :: suffixWords suffixes)
  | _, named name tail suffixes => name.token :: (tail.printed ++ suffixWords suffixes)
  | _, noElement => []
  | _, lastElement type name => type.printed ++ printedName name
  | _, element type name more =>
    type.printed ++ (printedName name ++ comma :: space :: more.printed)
  | _, nameEnd => []
  | _, segment separator name tail => separator.token :: name.token :: tail.printed
  | _, generic arguments => openAngle :: (arguments.printed ++ [closingAngle])
  | _, genericSegment arguments separator name tail =>
    openAngle ::
      (arguments.printed ++ closingAngle :: separator.token :: name.token :: tail.printed)
  | _, noArgument => []
  | _, unbound more => comma :: more.printed
  | _, lastArgument type => type.printed
  | _, argument type more => type.printed ++ comma :: space :: more.printed

/-- The text of a phrase. -/
def text (f : TypePhrase r) : String := Token.textOf f.printed

theorem isSignificant_of_isCutWord {t : Token} (h : t.IsCutWord) : t.isSignificant = true := by
  simp [Token.isSignificant, Token.isTrivia, Kind.isTrivia_of_isWord h.isWord]

theorem filter_suffixWords (suffixes : List TypeSuffix) :
    (suffixWords suffixes).filter Token.isSignificant = suffixWords suffixes := by
  rw [List.filter_eq_self]
  intro w hw
  obtain ⟨suffix, -, hw⟩ := List.mem_flatMap.mp hw
  cases suffix <;> simp [TypeSuffix.words] at hw
  · subst hw; rfl
  · subst hw; rfl
  · rcases hw with rfl | ⟨-, rfl⟩ | rfl <;> rfl

theorem filter_printedName (name : Option Name) :
    (printedName name).filter Token.isSignificant = nameWords name := by
  have hspace : space.isSignificant = false := rfl
  cases name with
  | none => rfl
  | some name => simp [printedName, nameWords, hspace, isSignificant_of_isCutWord name.cut]

/-- The blanks apart, a phrase is printed with its words. -/
theorem filter_printed (f : TypePhrase r) : f.printed.filter Token.isSignificant = f.words := by
  have hname (name : Name) : name.token.isSignificant = true :=
    isSignificant_of_isCutWord name.cut
  have hbuiltIn (word : BuiltIn) : word.token.isSignificant = true :=
    isSignificant_of_isCutWord word.cut
  have hseparator (separator : NameSeparator) : separator.token.isSignificant = true := by
    cases separator <;> rfl
  have hspace : space.isSignificant = false := rfl
  have hcomma : comma.isSignificant = true := rfl
  have hopenParen : openParen.isSignificant = true := rfl
  have hcloseParen : closeParen.isSignificant = true := rfl
  have hopenAngle : openAngle.isSignificant = true := rfl
  have hclosingAngle : closingAngle.isSignificant = true := rfl
  induction f <;>
    simp [printed, words, filter_suffixWords, filter_printedName, *]

theorem allPrinted_suffixWords (suffixes : List TypeSuffix) :
    AllPrinted (suffixWords suffixes) := by
  intro t ht
  obtain ⟨suffix, -, ht⟩ := List.mem_flatMap.mp ht
  refine .inr (.inl ?_)
  cases suffix <;> simp [TypeSuffix.words] at ht
  · subst ht; decide
  · subst ht; decide
  · rcases ht with rfl | ⟨-, rfl⟩ | rfl <;> decide

theorem isPrinted_name (name : Name) : name.token.IsPrinted := .inl name.cut

theorem allPrinted_printedName (name : Option Name) : AllPrinted (printedName name) := by
  cases name with
  | none => exact allPrinted_nil
  | some name =>
    exact allPrinted_cons.mpr ⟨.inr (.inr rfl), allPrinted_cons.mpr
      ⟨isPrinted_name name, allPrinted_nil⟩⟩

theorem allPrinted_printed (f : TypePhrase r) : AllPrinted f.printed := by
  have hbuiltIn (word : BuiltIn) : word.token.IsPrinted := .inl word.cut
  have hmark : ∀ t ∈ Token.printedMarks, t.IsPrinted := fun t ht => .inr (.inl ht)
  have hseparator (separator : NameSeparator) : separator.token.IsPrinted :=
    hmark _ (by cases separator <;> decide)
  have hspace : space.IsPrinted := .inr (.inr rfl)
  have hcomma := hmark comma (by decide)
  have hopenParen := hmark openParen (by decide)
  have hcloseParen := hmark closeParen (by decide)
  have hopenAngle := hmark openAngle (by decide)
  have hclosingAngle := hmark closingAngle (by decide)
  induction f <;>
    simp [printed, allPrinted_nil, allPrinted_cons, allPrinted_append, allPrinted_suffixWords,
      allPrinted_printedName, isPrinted_name, *]

/-! ## Printed tokens do not clash -/

theorem clashes_of_isWord {k l : Kind} (hk : k.isWord = true) (hl : l.isWord = false) :
    k.clashes l = false := by
  have hquestion : k ≠ .question := by rintro rfl; cases hk
  have hless : k ≠ .less := by rintro rfl; cases hk
  have hblank : k ≠ .whitespace := by rintro rfl; cases hk
  simp [Kind.clashes, hl, hquestion, hless, hblank]

/-- May a phrase be printed in front of a token of this kind? -/
def closes : TypeRole → Kind → Bool
  | .type, k => k == .greater || k == .comma || k == .rParen || k == .whitespace
  | .elements, k => k == .rParen
  | .nameTail, k => !k.isWord
  | .arguments, k => k == .greater

/-- No word joins the suffix of a type. -/
theorem isWord_nextKind (suffixes : List TypeSuffix) (hnext : closes .type (nextKind ts) = true) :
    (nextKind (suffixWords suffixes ++ ts)).isWord = false := by
  cases suffixes with
  | nil =>
    change (nextKind ts).isWord = false
    generalize nextKind ts = k at hnext
    simp only [closes, Bool.or_eq_true, beq_iff_eq] at hnext
    rcases hnext with ((rfl | rfl) | rfl) | rfl <;> rfl
  | cons suffix suffixes => cases suffix <;> rfl

theorem linked_commas (n : Nat) (hts : Linked ts) : Linked (List.replicate n comma ++ ts) := by
  induction n with
  | zero => exact hts
  | succ n ih => exact ⟨rfl, ih⟩

theorem linked_suffixWords {suffixes : List TypeSuffix} (hmarks : marksOnce suffixes = true)
    (hts : Linked ts) (hnext : closes .type (nextKind ts) = true) :
    Linked (suffixWords suffixes ++ ts) := by
  induction suffixes with
  | nil => exact hts
  | cons suffix suffixes ih =>
    rw [suffixWords_cons, List.append_assoc]
    cases suffix with
    | pointer => exact ⟨rfl, ih hmarks⟩
    | array n =>
      simp only [TypeSuffix.words, List.cons_append, List.append_assoc, List.nil_append]
      exact ⟨rfl, linked_commas n ⟨rfl, ih hmarks⟩⟩
    | nullable =>
      cases suffixes with
      | nil =>
        refine ⟨?_, hts⟩
        change question.kind.clashes (nextKind ts) = false
        generalize nextKind ts = k at hnext
        simp only [closes, Bool.or_eq_true, beq_iff_eq] at hnext
        rcases hnext with ((rfl | rfl) | rfl) | rfl <;> rfl
      | cons suffix suffixes =>
        cases suffix with
        | nullable => cases hmarks
        | pointer | array => exact ⟨rfl, ih hmarks⟩

theorem linked_name (name : Name) (hts : Linked ts) (hnext : (nextKind ts).isWord = false) :
    Linked (name.token :: ts) :=
  ⟨clashes_of_isWord name.cut.isWord hnext, hts⟩

theorem linked_printedName (name : Option Name) (hts : Linked ts)
    (hnext : closes .type (nextKind ts) = true) :
    Linked (printedName name ++ ts) ∧ closes .type (nextKind (printedName name ++ ts)) = true := by
  cases name with
  | none => exact ⟨hts, hnext⟩
  | some name =>
    have hblank : space.kind.clashes name.token.kind = false := by
      rw [name.kind_eq]
      rfl
    exact ⟨⟨hblank, linked_name name hts (isWord_nextKind [] hnext)⟩, rfl⟩

/-- A list of types begins with a word or a parenthesis. -/
theorem isWord_or_lParen (f : TypePhrase r) (hproper : f.isProper = true) (hr : r ≠ .nameTail) :
    (nextKind (f.printed ++ ts)).isWord = true ∨ nextKind (f.printed ++ ts) = .lParen := by
  induction f generalizing ts with
  | builtIn word => exact .inl word.cut.isWord
  | tuple => exact .inr rfl
  | named name => exact .inl name.cut.isWord
  | lastElement type name ih =>
    rw [printed, List.append_assoc]
    exact ih hproper nofun
  | element type name more ih ihmore =>
    rw [printed, List.append_assoc]
    exact ih (Bool.and_eq_true_iff.mp hproper).1 nofun
  | lastArgument type ih => exact ih hproper nofun
  | argument type more ih ihmore =>
    rw [printed, List.append_assoc]
    exact ih (Bool.and_eq_true_iff.mp hproper).1 nofun
  | noElement | noArgument | unbound => cases hproper
  | nameEnd | segment | generic | genericSegment => exact absurd rfl hr

theorem clashes_start {k l : Kind} (hk : k = .less ∨ k = .whitespace)
    (hl : l.isWord = true ∨ l = .lParen) : k.clashes l = false := by
  have hless : l ≠ .less := by rintro rfl; simp at hl; cases hl
  have hblank : l ≠ .whitespace := by rintro rfl; simp at hl; cases hl
  have hk' : k.isWord = false ∧ k ≠ .question := by rcases hk with rfl | rfl <;> decide
  simp [Kind.clashes, hless, hblank, hk']

/-- No word joins what follows the first identifier of a name. -/
theorem isWord_nextKind_tail (f : TypePhrase .nameTail) (hnext : (nextKind ts).isWord = false) :
    (nextKind (f.printed ++ ts)).isWord = false := by
  cases f with
  | nameEnd => exact hnext
  | segment separator => cases separator <;> rfl
  | generic | genericSegment => rfl

/-- The printed tokens of a phrase do not clash. -/
theorem linked_printed (f : TypePhrase r) (hproper : f.isProper = true) (hts : Linked ts)
    (hnext : closes r (nextKind ts) = true) : Linked (f.printed ++ ts) := by
  induction f generalizing ts with
  | builtIn word suffixes =>
    exact ⟨clashes_of_isWord word.cut.isWord (isWord_nextKind suffixes hnext),
      linked_suffixWords hproper hts hnext⟩
  | tuple elements suffixes ih =>
    obtain ⟨⟨-, helements⟩, hmarks⟩ := (Bool.and_eq_true_iff.mp hproper).imp_left
      Bool.and_eq_true_iff.mp
    simp only [printed, List.cons_append, List.append_assoc]
    exact ⟨rfl, ih helements ⟨rfl, linked_suffixWords hmarks hts hnext⟩ rfl⟩
  | named name tail suffixes ih =>
    obtain ⟨htail, hmarks⟩ := Bool.and_eq_true_iff.mp hproper
    have hword := isWord_nextKind suffixes hnext
    simp only [printed, List.cons_append, List.append_assoc]
    exact linked_name name (ih htail (linked_suffixWords hmarks hts hnext) (by simp [closes, hword]))
      (isWord_nextKind_tail tail hword)
  | lastElement type name ih =>
    have hclose : closes .type (nextKind ts) = true := by
      generalize nextKind ts = k at hnext
      obtain rfl : k = .rParen := by simpa [closes] using hnext
      rfl
    obtain ⟨hlinked, hnext'⟩ := linked_printedName name hts hclose
    rw [printed, List.append_assoc]
    exact ih hproper hlinked hnext'
  | element type name more ih ihmore =>
    obtain ⟨htype, hmore⟩ := Bool.and_eq_true_iff.mp hproper
    have hrest : Linked (comma :: space :: (more.printed ++ ts)) :=
      ⟨rfl, clashes_start (.inr rfl) (isWord_or_lParen more hmore nofun), ihmore hmore hts hnext⟩
    obtain ⟨hlinked, hnext'⟩ := linked_printedName name hrest rfl
    simp only [printed, List.append_assoc, List.cons_append]
    exact ih htype hlinked hnext'
  | nameEnd => exact hts
  | segment separator name tail ih =>
    have hword : (nextKind ts).isWord = false := by simpa [closes] using hnext
    refine ⟨by cases separator <;> rfl, linked_name name (ih hproper hts hnext) ?_⟩
    exact isWord_nextKind_tail tail hword
  | generic arguments ih =>
    simp only [printed, List.append_assoc, List.cons_append, List.nil_append]
    exact ⟨clashes_start (.inl rfl) (isWord_or_lParen arguments hproper nofun),
      ih hproper ⟨rfl, hts⟩ rfl⟩
  | genericSegment arguments separator name tail ih ihtail =>
    obtain ⟨harguments, htail⟩ := Bool.and_eq_true_iff.mp hproper
    have hword : (nextKind ts).isWord = false := by simpa [closes] using hnext
    simp only [printed, List.append_assoc, List.cons_append]
    refine ⟨clashes_start (.inl rfl) (isWord_or_lParen arguments harguments nofun),
      ih harguments ⟨rfl, by cases separator <;> rfl, ?_⟩ rfl⟩
    exact linked_name name (ihtail htail hts hnext) (isWord_nextKind_tail tail hword)
  | noElement | noArgument | unbound => cases hproper
  | lastArgument type ih =>
    refine ih hproper hts ?_
    generalize nextKind ts = k at hnext
    obtain rfl : k = .greater := by simpa [closes] using hnext
    rfl
  | argument type more ih ihmore =>
    obtain ⟨htype, hmore⟩ := Bool.and_eq_true_iff.mp hproper
    simp only [printed, List.append_assoc, List.cons_append]
    exact ih htype ⟨rfl, clashes_start (.inr rfl) (isWord_or_lParen more hmore nofun),
      ihmore hmore hts hnext⟩ rfl

/-- **The text of a type is cut into its words**, with shifts for closing angle brackets. -/
theorem lexes_text (f : TypePhrase .type) (hproper : f.isProper = true) {rest : List Char}
    (hrest : ∀ c ∈ rest.head?, isBlank c = true) {lineStart : Bool} :
    Lexes lineStart (joinAngles f.printed) rest := by
  refine Token.lexes_joinAngles f.allPrinted_printed ?_ hrest
  have hlinked : Linked (f.printed ++ []) := f.linked_printed hproper trivial rfl
  simpa using hlinked

theorem lineStartOf_text (f : TypePhrase .type) (hproper : f.isProper = true) {lineStart : Bool} :
    Token.lineStartOf lineStart (joinAngles f.printed) = false := by
  refine Token.lineStartOf_joinAngles f.allPrinted_printed (.inr ?_)
  have hfirst : (nextKind (f.printed ++ [])).isWord = true ∨ nextKind (f.printed ++ []) = .lParen :=
    f.isWord_or_lParen hproper nofun
  rw [List.append_nil] at hfirst
  intro hblank
  rw [hblank] at hfirst
  rcases hfirst with h | h <;> cases h

end TypePhrase

end LivePatch
