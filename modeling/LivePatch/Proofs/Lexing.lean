import LivePatch.Syntax.Lexer
import LivePatch.Proofs.Leaves

/-!
# What the lexer cuts

Two facts about the pieces of a text carry everything else.  They join up to the text, since each
piece starts right behind the one before it; and each piece is the answer of one `Lexer.read`, so
that what a single reading can answer, `Lexer.read_ok`, holds of every token.

A kind that is no comment, literal or identifier belongs to a fixed spelling: that of a reserved
word or of a punctuation mark.  In particular every shift is `>>`, every `this` is `this`, and no
piece is an end of text.
-/

namespace LivePatch

theorem isIdentifierContinue_of_isIdentifierStart {c : Char} (h : isIdentifierStart c = true) :
    isIdentifierContinue c = true := by
  unfold isIdentifierStart at h
  unfold isIdentifierContinue
  split
  · rename_i hlt
    rw [if_pos hlt] at h
    simp only [Bool.or_eq_true, Char.isAlphanum] at h ⊢
    tauto
  · rename_i hge
    rw [if_neg hge] at h
    simp [h]

namespace Lexer

/-! ## Pieces join up -/

theorem toList_join_piecesFrom (lineStart : Bool) (skip : Nat) (cs : List Char) :
    ((piecesFrom lineStart skip cs).map (·.text.toList)).flatten = cs.drop skip := by
  induction cs generalizing lineStart skip with
  | nil => simp [piecesFrom]
  | cons c cs ih =>
    cases skip with
    | succ skip => simp [piecesFrom, ih]
    | zero => simp [piecesFrom, ih]

/-- Every piece is what one reading answers at some place of the text. -/
theorem exists_read_of_mem {l : Lexeme} {lineStart : Bool} {skip : Nat} {cs : List Char}
    (h : l ∈ piecesFrom lineStart skip cs) :
    ∃ start c rest, l.outcome = (read start c rest).outcome ∧
      l.text = String.ofList (c :: rest.take (read start c rest).more) := by
  induction cs generalizing lineStart skip with
  | nil => simp [piecesFrom] at h
  | cons c cs ih =>
    cases skip with
    | succ skip => exact ih (by simpa [piecesFrom] using h)
    | zero =>
      rw [piecesFrom] at h
      rcases List.mem_cons.mp h with rfl | h
      · exact ⟨lineStart, c, cs, rfl, rfl⟩
      · exact ih h

/-! ## What a reading can answer -/

/-- The kinds whose tokens have no fixed spelling. -/
def openKinds : List Kind :=
  [.whitespace, .lineComment, .docComment, .blockComment, .preprocessorDirective, .identifier,
    .stringLiteral, .charLiteral, .interpolatedStringLiteral, .intLiteral, .realLiteral]

theorem lineCommentKind_open (cs : List Char) :
    lineCommentKind cs ∈ openKinds ∧ lineCommentKind cs ≠ .identifier := by
  unfold lineCommentKind
  split <;> decide

theorem Reach.reading_ok {r : Reach} {opening : Nat} {kind k : Kind} {fault : LexicalFault}
    (h : (r.reading opening kind fault).outcome = .ok k) : k = kind := by
  unfold Reach.reading at h
  split at h <;> cases h
  rfl

theorem numberReading_open {c : Char} {cs : List Char} {k : Kind}
    (h : (numberReading c cs).outcome = .ok k) : k ∈ openKinds ∧ k ≠ .identifier := by
  have real : Kind.realLiteral ∈ openKinds ∧ Kind.realLiteral ≠ .identifier := by decide
  have int : Kind.intLiteral ∈ openKinds ∧ Kind.intLiteral ≠ .identifier := by decide
  unfold numberReading at h
  split at h
  iterate 4 (cases h; exact int)
  -- A decimal number: the kind depends on its fraction, its exponent and its suffix.
  extract_lets whole fraction exponent body isReal at h
  clear_value isReal body
  split at h
  · split at h
    · cases h; exact real
    · split at h <;> cases h
      exacts [real, int]
  · cases h
    split
    exacts [real, int]

theorem wordReading_ok {c : Char} {cs : List Char} {k : Kind}
    (h : (wordReading c cs).outcome = .ok k) :
    k = .identifier ∨
      (String.ofList (c :: cs.take (wordReading c cs).more), k) ∈ Kind.keywords := by
  have hk : (Kind.ofKeyword? (String.ofList (c :: cs.take (wordReading c cs).more))).getD
      .identifier = k := Except.ok.inj h
  cases hf : Kind.ofKeyword? (String.ofList (c :: cs.take (wordReading c cs).more)) with
  | none => exact .inl (by rw [← hk, hf]; rfl)
  | some j =>
    rw [hf] at hk
    obtain ⟨front, back, hl, -⟩ := List.lookup_eq_some_iff.mp hf
    have : j = k := hk
    subst this
    exact .inr (hl ▸ by simp)

theorem markReading_ok {c : Char} {cs : List Char} {k : Kind}
    (h : (markReading c cs).outcome = .ok k) :
    (String.ofList (c :: cs.take (markReading c cs).more), k) ∈ Kind.marks := by
  unfold markReading at h ⊢
  split at h
  · rename_i text kind hf
    cases h
    have hfit := List.find?_some hf
    have hmem := List.mem_of_find?_eq_some hf
    have hpre : text.toList <+: c :: cs := by
      simp only [markFits, Bool.and_eq_true] at hfit
      exact List.isPrefixOf_iff_prefix.mp hfit.1
    have hpos : 0 < text.toList.length := by
      revert hmem
      have : ∀ m ∈ Kind.marks, 0 < m.1.toList.length := by decide
      exact fun hmem => this _ hmem
    have htake : c :: cs.take (text.length - 1) = text.toList := by
      rw [List.prefix_iff_eq_take.mp hpre, ← String.length_toList]
      obtain ⟨n, hn⟩ := Nat.exists_eq_add_of_lt hpos
      simp [hn]
    simpa [htake] using hmem
  · cases h

/-- **What one reading answers.**  A kind without a fixed spelling, a reserved word or a
punctuation mark; the last two with just the characters that spell them. -/
theorem read_ok {lineStart : Bool} {c : Char} {cs : List Char} {k : Kind}
    (h : (read lineStart c cs).outcome = .ok k) :
    k ∈ openKinds ∨
      (String.ofList (c :: cs.take (read lineStart c cs).more), k) ∈
        Kind.keywords ++ Kind.marks := by
  unfold read at h ⊢
  split at h
  · cases h; exact .inl (by decide)
  rename_i hblank
  simp only [hblank, Bool.false_eq_true, if_false]
  split at h
  · cases h; exact .inl (lineCommentKind_open _).1
  iterate 7 (cases Reach.reading_ok h; exact .inl (by decide))
  split at h
  · cases h; exact .inl (by decide)
  split at h
  · cases h; exact .inl (by decide)
  split at h
  · simp only [*]
    rcases wordReading_ok h with rfl | hw
    · exact .inl (by decide)
    · exact .inr (List.mem_append_left _ hw)
  split at h
  · exact .inl (numberReading_open h).1
  · simp only [*]
    exact .inr (List.mem_append_right _ (markReading_ok h))

/-- The characters of an identifier: a letter and further ones, or `@` in front of a word. -/
def IsNameText : List Char → Prop
  | [] => False
  | c :: cs => (isIdentifierStart c = true ∨ (c = '@' ∧ cs ≠ [])) ∧
      ∀ d ∈ cs, isIdentifierContinue d = true

theorem take_runLength (p : Char → Bool) (cs : List Char) :
    cs.take (runLength p cs) = cs.takeWhile p :=
  (List.prefix_iff_eq_take.mp (List.takeWhile_prefix p)).symm

theorem isIdentifierContinue_of_mem_take {cs : List Char} {d : Char}
    (h : d ∈ cs.take (runLength isIdentifierContinue cs)) : isIdentifierContinue d = true := by
  rw [take_runLength] at h
  exact List.all_eq_true.mp List.all_takeWhile d h

/-- **How an identifier is spelled.** -/
theorem read_identifier {lineStart : Bool} {c : Char} {cs : List Char}
    (h : (read lineStart c cs).outcome = .ok .identifier) :
    IsNameText (c :: cs.take (read lineStart c cs).more) := by
  unfold read at h ⊢
  split at h
  · cases h
  rename_i hblank
  simp only [hblank, Bool.false_eq_true, if_false]
  split at h
  · exact absurd (Except.ok.inj h) (lineCommentKind_open _).2
  iterate 7 (cases Reach.reading_ok h)
  split at h
  · cases h
  rename_i hhash
  simp only [hhash, Bool.false_eq_true, if_false]
  split at h
  · rename_i hat
    simp only [hat, if_true]
    obtain ⟨hc, hhead⟩ := Bool.and_eq_true_iff.mp hat
    refine ⟨.inr ⟨beq_iff_eq.mp hc, ?_⟩, fun d => isIdentifierContinue_of_mem_take⟩
    cases cs with
    | nil => cases hhead
    | cons d ds =>
      rw [take_runLength, List.takeWhile_cons_of_pos]
      · nofun
      · exact isIdentifierContinue_of_isIdentifierStart hhead
  rename_i hat
  simp only [hat, Bool.false_eq_true, if_false]
  split at h
  · rename_i hstart
    simp only [hstart, if_true]
    exact ⟨.inl hstart, fun d => isIdentifierContinue_of_mem_take⟩
  split at h
  · exact absurd rfl (numberReading_open h).2
  · have : ∀ m ∈ Kind.marks, m.2 ≠ .identifier := by decide
    exact absurd rfl (this _ (markReading_ok h))

end Lexer

/-! ## The tokens of a text -/

namespace Token

/-- What holds of every token but the last: it is not empty, it ends no text, if its kind has a
fixed spelling then that is its text, and if it is an identifier then it is spelled like one. -/
structure IsPiece (t : Token) : Prop where
  ne_eof : t.kind ≠ .eof
  ne_empty : t.text ≠ ""
  spelled : t.kind ∈ Lexer.openKinds ∨ t.kind = .error ∨
    (t.text, t.kind) ∈ Kind.keywords ++ Kind.marks
  name : t.kind = .identifier → Lexer.IsNameText t.text.toList

theorem IsPiece.width_pos {t : Token} (h : t.IsPiece) : 0 < t.width := by
  rcases Nat.eq_zero_or_pos t.width with hz | hp
  · exact absurd (String.utf8ByteSize_eq_zero_iff.mp hz) h.ne_empty
  · exact hp

/-- A token of a kind with one spelling is that spelling. -/
theorem IsPiece.eq_of_spelling {t : Token} (h : t.IsPiece) {k : Kind} {text : String}
    (hk : t.kind = k) (ho : k ∉ .error :: Lexer.openKinds)
    (hs : ∀ m ∈ Kind.keywords ++ Kind.marks, m.2 = k → m.1 = text) : t = ⟨k, text⟩ := by
  simp only [List.mem_cons, not_or] at ho
  rcases h.spelled with hp | hp | hp
  · exact absurd (hk ▸ hp) ho.2
  · exact absurd (hk ▸ hp) ho.1
  · have := hs _ hp hk
    cases t
    simp_all

theorem IsPiece.eq_shift {t : Token} (h : t.IsPiece) (hk : t.kind = .rightShift) : t = shift :=
  h.eq_of_spelling hk (by decide) (by decide +kernel)

theorem IsPiece.eq_this {t : Token} (h : t.IsPiece) (hk : t.kind = .thisKw) :
    t = ⟨.thisKw, "this"⟩ :=
  h.eq_of_spelling hk (by decide) (by decide +kernel)

theorem isPiece_closingAngle : closingAngle.IsPiece :=
  ⟨by decide, by decide, .inr (.inr (by decide)), nofun⟩

end Token

theorem Lexer.Lexeme.isPiece_token {l : Lexer.Lexeme} {source : String}
    (h : l ∈ Lexer.pieces source) : l.token.IsPiece := by
  obtain ⟨start, c, rest, ho, ht⟩ := Lexer.exists_read_of_mem h
  have hne : l.token.text ≠ "" := by
    simp [Lexer.Lexeme.token, ht]
  cases hk : l.outcome with
  | error f =>
    have hkind : l.token.kind = .error := by simp [Lexer.Lexeme.token, hk]
    exact ⟨by rw [hkind]; decide, hne, .inr (.inl hkind), by rw [hkind]; nofun⟩
  | ok k =>
    have hkind : l.token.kind = k := by simp [Lexer.Lexeme.token, hk]
    have hread := Lexer.read_ok (ho ▸ hk)
    rw [← ht] at hread
    refine ⟨?_, hne, ?_, fun hname => ?_⟩
    · rintro he
      rw [hkind] at he
      subst he
      rcases hread with hp | hp
      · exact absurd hp (by decide)
      · have : ∀ m ∈ Kind.keywords ++ Kind.marks, m.2 ≠ .eof := by decide +kernel
        exact this _ hp rfl
    · rw [hkind]
      rcases hread with hp | hp
      · exact .inl hp
      · exact .inr (.inr hp)
    · rw [hkind] at hname
      subst hname
      have := Lexer.read_identifier (ho ▸ hk)
      simpa [Lexer.Lexeme.token, ht] using this

/-- The tokens of a text join up to the text. -/
theorem textOf_lex (source : String) : Token.textOf (lex source) = source := by
  have hjoin := Lexer.toList_join_piecesFrom true 0 source.toList
  apply String.toList_inj.mp
  rw [List.drop_zero] at hjoin
  rw [← hjoin, lex, Token.textOf_append]
  simp [Token.textOf, Token.endOfText, Lexer.pieces, Lexer.Lexeme.token, String.toList_join,
    Function.comp_def, List.flatMap_def]

end LivePatch
