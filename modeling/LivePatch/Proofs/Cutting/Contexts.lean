import LivePatch.Proofs.Cutting.Numbers
import LivePatch.Proofs.Cutting.Strings
import LivePatch.Proofs.Kinds
import Mathlib.Data.List.Find

/-!
# Pieces in front of other texts

A piece that the lexer cuts in front of one text is cut in front of another one, too, if the two
texts are similar (`Cuts.of_similar`).  Two sorts of pieces ask for more, since they might swallow a
part of the other text: a word must not be followed by a letter, and a number sees a little
farther than the others.
-/

namespace LivePatch

/-- Is this the kind of a name or of a reserved word? -/
def Kind.isWord (k : Kind) : Bool := k == .identifier || k.isKeyword

theorem Kind.isTrivia_of_isWord {k : Kind} (h : k.isWord = true) : k.isTrivia = false := by
  have hall : ∀ k : Kind, k.isWord = true → k.isTrivia = false := by
    intro k hk
    cases k <;> first | rfl | cases hk
  exact hall k h

/-- Is this the kind of a number? -/
def Kind.isNumber (k : Kind) : Bool := k == .intLiteral || k == .realLiteral

namespace Lexer

variable {lineStart : Bool} {c : Char} {k : Kind} {p : Char → Bool} {n : Nat}
  {cs ds es rest rest' : List Char}

/-! ## Runs -/

/-- A run is `cs` if all of `cs` belongs to it and nothing more. -/
theorem runLength_append : runLength p (cs ++ rest) = cs.length ↔
    (∀ c ∈ cs, p c = true) ∧ rest.head?.any p = false := by
  induction cs with
  | nil =>
    cases rest with
    | nil => simp [runLength]
    | cons d ds => by_cases hd : p d = true <;> simp [runLength_cons, hd]
  | cons c cs ih =>
    by_cases hc : p c = true
    · simp [runLength_cons, hc, ih]
    · simp [runLength_cons, hc]

theorem runLength_append_congr (h : cs.length = runLength p (cs ++ rest))
    (hnext : rest.head?.any p = false → rest'.head?.any p = false) :
    cs.length = runLength p (cs ++ rest') := by
  obtain ⟨hall, hrest⟩ := runLength_append.mp h.symm
  exact (runLength_append.mpr ⟨hall, hnext hrest⟩).symm

/-! ## Comments to the end of the line -/

/-- Does the character belong to a line? -/
def inLine (c : Char) : Bool := c != '\n' && c != '\r'

theorem inLine_of_isHead (h : isHead c = true) : inLine c = true := by
  rw [inLine, Bool.and_eq_true, bne_iff_ne, bne_iff_ne]
  constructor
  · rintro rfl
    exact absurd h (by decide)
  · rintro rfl
    exact absurd h (by decide)

/-- Where a line ends in one text, it ends in every similar one. -/
theorem Similar.any_inLine (h : Similar (n + 1) rest rest')
    (hrest : rest.head?.any inLine = false) : rest'.head?.any inLine = false := by
  cases h with
  | nil => rfl
  | cons d _ => exact hrest
  | heads hd _ =>
    rw [List.head?_cons, Option.any_some, inLine_of_isHead hd] at hrest
    cases hrest

theorem lineCommentKind_eq (ds : List Char) : lineCommentKind ds =
    if ['/', '/'].isPrefixOf ds && !(['/', '/', '/'].isPrefixOf ds) then .docComment
    else .lineComment := by
  unfold lineCommentKind
  split
  · rfl
  · rename_i cs hne
    cases cs with
    | nil => rfl
    | cons d ds =>
      have hd : d ≠ '/' := fun hd => hne ds (hd ▸ rfl)
      simp [List.isPrefixOf, Ne.symm hd]
  · rename_i hne
    match ds with
    | [] | [_] => simp [List.isPrefixOf]
    | a :: b :: ds =>
      by_cases ha : '/' = a
      · by_cases hb : '/' = b
        · exact (hne ds (by rw [← ha, ← hb])).elim
        · simp [List.isPrefixOf, hb]
      · simp [List.isPrefixOf, ha]

theorem lineCommentKind_of_similar (h : Similar 3 ds es) :
    lineCommentKind ds = lineCommentKind es := by
  rw [lineCommentKind_eq, lineCommentKind_eq,
    h.isPrefixOf ['/', '/'] (by decide) (by decide),
    h.isPrefixOf ['/', '/', '/'] (by decide) (by decide)]

/-! ## Marks -/

theorem markFits_questionDot (h : Similar 3 ds es) :
    markFits "?." (c :: ds) = markFits "?." (c :: es) := by
  have hfits (ds : List Char) : markFits "?." (c :: ds) =
      ('?' == c && ['.'].isPrefixOf ds && !(ds.drop 1).head?.any Char.isDigit) := by
    simp [markFits, List.isPrefixOf]
  rw [hfits, hfits, h.isPrefixOf ['.'] (by decide) (by decide)]
  cases h with
  | nil => rfl
  | cons d h =>
    have hdigit := h.any_head? (p := Char.isDigit) fun _ => isDigit_of_isHead
    rw [List.drop_one, List.drop_one, List.tail_cons, List.tail_cons, hdigit]
  | @heads _ _ d _ _ _ hd =>
    have hne : ('.' == d) = false := by
      rw [beq_eq_false_iff_ne]
      rintro rfl
      exact absurd hd (by decide)
    simp [List.isPrefixOf, hne]

theorem markFits_of_similar {mark : String × Kind} (hmark : mark ∈ Kind.marks)
    (h : Similar 3 ds es) : markFits mark.1 (c :: ds) = markFits mark.1 (c :: es) := by
  by_cases hquestion : mark.1 = "?."
  · rw [hquestion]
    exact markFits_questionDot h
  have hall : ∀ m ∈ Kind.marks, m.1.toList.length ≤ 3 ∧
      m.1.toList.tail.any isHead = false := by decide
  obtain ⟨hlen, htail⟩ := hall mark hmark
  have hfits (ds : List Char) : markFits mark.1 ds = mark.1.toList.isPrefixOf ds := by
    simp [markFits, hquestion]
  rw [hfits, hfits]
  cases hm : mark.1.toList with
  | nil => rfl
  | cons a as =>
    rw [hm] at hlen htail
    rw [List.length_cons] at hlen
    simp only [List.isPrefixOf, h.isPrefixOf as (by omega) htail]

theorem markReading_of_similar (h : Similar 3 ds es) : markReading c ds = markReading c es := by
  unfold markReading
  rw [List.find?_congr fun mark hmark => markFits_of_similar hmark h]

/-! ## Words and numbers -/

theorem isWord_of_word {text : String} :
    ((Kind.ofKeyword? text).getD .identifier).isWord = true := by
  cases h : Kind.ofKeyword? text with
  | none => rfl
  | some j =>
    have hall : ∀ m ∈ Kind.keywords, m.2.isKeyword = true := by decide
    obtain ⟨front, back, hkeywords, -⟩ := List.lookup_eq_some_iff.mp h
    have hj := hall (text, j) (hkeywords ▸ by simp)
    show (_ || j.isKeyword) = true
    rw [hj, Bool.or_true]

theorem isNumber_of_reading (h : numberReading c ds = ⟨.ok k, n⟩) : k.isNumber = true := by
  by_cases hradix : c = '0' ∧ ds.head?.any isRadix = true
  · obtain ⟨rfl, hhead⟩ := hradix
    cases ds with
    | nil => cases hhead
    | cons d ds =>
      rw [numberReading_radix hhead] at h
      cases h
      rfl
  · rw [numberReading_decimal fun hc => by simpa [hc] using hradix] at h
    obtain ⟨hkind, -⟩ := Reading.mk.inj h
    rw [← Except.ok.inj hkind]
    split <;> rfl

/-! ## All pieces -/

/-- A piece with more than one character shares its second one with the text. -/
theorem exists_eq_cons {d : Char} {m : Nat} (h : cs ++ rest = d :: es) (hlen : cs.length = 1 + m) :
    ∃ cs', cs = d :: cs' ∧ es = cs' ++ rest ∧ m = cs'.length := by
  cases cs with
  | nil =>
    rw [List.length_nil] at hlen
    omega
  | cons a cs =>
    obtain ⟨rfl, rfl⟩ := List.cons.inj h
    refine ⟨cs, rfl, rfl, ?_⟩
    rw [List.length_cons] at hlen
    omega

/-- A test that the first character behind the piece fails is decided inside of the piece. -/
theorem head?_append_of_any {q : Char → Bool} (h : (cs ++ rest).head?.any q = true)
    (hrest : rest.head?.any q = false) : (cs ++ rest').head?.any q = true := by
  cases cs with
  | nil =>
    rw [List.nil_append, hrest] at h
    cases h
  | cons a cs => exact h

/-- No other piece than a word has the kind of one. -/
theorem Cuts.isWord_cases (h : Cuts lineStart c ds k n) (hk : k.isWord = true) :
    n = runLength isIdentifierContinue ds ∧
      ((isIdentifierStart c = true ∧
          k = (Kind.ofKeyword? (String.ofList (c :: ds.take n))).getD .identifier) ∨
        (c = '@' ∧ ds.head?.any isIdentifierStart = true ∧ k = .identifier)) := by
  cases h with
  | verbatimName first second kind more => exact ⟨more, .inr ⟨first, second, kind⟩⟩
  | word first kind more => exact ⟨more, .inl ⟨first, kind⟩⟩
  | number first reading =>
    rcases Bool.or_eq_true_iff.mp (isNumber_of_reading reading) with hkind | hkind
    · rw [beq_iff_eq.mp hkind] at hk
      cases hk
    · rw [beq_iff_eq.mp hkind] at hk
      cases hk
  | mark slash point reading =>
    have hall : ∀ m ∈ Kind.marks, m.2.isWord = false := by decide
    have hmem := @markReading_ok c ds k (by rw [reading])
    rw [hall _ hmem] at hk
    cases hk
  | lineComment _ _ kind _ =>
    rw [kind, lineCommentKind_eq] at hk
    split at hk <;> cases hk
  | blank _ kind _ | directive _ _ kind _ | string _ _ kind | character _ _ kind
  | blockComment _ _ _ kind _ | verbatim _ _ _ kind _ | interpolated _ _ _ kind _
  | verbatimInterpolated _ _ _ kind _ =>
    rw [kind] at hk
    cases hk

/-- A number is cut by the search for numbers. -/
theorem Cuts.isNumber_cases (h : Cuts lineStart c ds k n) (hk : k.isNumber = true) :
    (c.isDigit = true ∨ c = '.' ∧ ds.head?.any Char.isDigit = true) ∧
      numberReading c ds = ⟨.ok k, n⟩ := by
  cases h with
  | number first reading => exact ⟨first, reading⟩
  | word first kind more =>
    have hword : k.isWord = true := by rw [kind]; exact isWord_of_word
    rcases Bool.or_eq_true_iff.mp hk with hkind | hkind
    · rw [beq_iff_eq.mp hkind] at hword
      cases hword
    · rw [beq_iff_eq.mp hkind] at hword
      cases hword
  | mark slash point reading =>
    have hall : ∀ m ∈ Kind.marks, m.2.isNumber = false := by decide
    have hmem := @markReading_ok c ds k (by rw [reading])
    rw [hall _ hmem] at hk
    cases hk
  | lineComment _ _ kind _ =>
    rw [kind, lineCommentKind_eq] at hk
    split at hk <;> cases hk
  | blank _ kind _ | directive _ _ kind _ | string _ _ kind | character _ _ kind
  | blockComment _ _ _ kind _ | verbatim _ _ _ kind _ | interpolated _ _ _ kind _
  | verbatimInterpolated _ _ _ kind _ | verbatimName _ _ kind _ =>
    rw [kind] at hk
    cases hk

/-- A word ends where no letter follows. -/
theorem Cuts.next_of_isWord (h : Cuts lineStart c (cs ++ rest) k cs.length)
    (hk : k.isWord = true) : rest.head?.any isIdentifierContinue = false :=
  (runLength_append.mp (h.isWord_cases hk).1.symm).2

/-- A word is the same word wherever no letter follows. -/
theorem Cuts.of_isWord (h : Cuts lineStart c (cs ++ rest) k cs.length) (hk : k.isWord = true)
    {lineStart' : Bool} (hrest' : rest'.head?.any isIdentifierContinue = false) :
    Cuts lineStart' c (cs ++ rest') k cs.length := by
  have hnext := h.next_of_isWord hk
  obtain ⟨hmore, ⟨hfirst, hkind⟩ | ⟨hfirst, hsecond, hkind⟩⟩ := h.isWord_cases hk
  · refine .word hfirst ?_ (runLength_append_congr hmore fun _ => hrest')
    rw [List.take_left] at hkind ⊢
    exact hkind
  · refine .verbatimName hfirst (head?_append_of_any hsecond ?_) hkind
      (runLength_append_congr hmore fun _ => hrest')
    cases rest with
    | nil => rfl
    | cons d ds =>
      rw [List.head?_cons, Option.any_some, Bool.eq_false_iff] at hnext ⊢
      exact fun hstart => hnext (isIdentifierContinue_of_isIdentifierStart hstart)

/-- A piece is cut in front of a similar text as well, if it is no word that goes on there and no
number that the text joins differently. -/
theorem Cuts.of_similar (h : Cuts lineStart c (cs ++ rest) k cs.length)
    (hs : Similar 3 rest rest')
    (hword : k.isWord = true → rest'.head?.any isIdentifierContinue = false)
    (hnumber : k.isNumber = true → JoinsNumber rest rest') :
    Cuts lineStart c (cs ++ rest') k cs.length := by
  have hall : Similar 3 (cs ++ rest) (cs ++ rest') := hs.append_left cs
  have hquote (hrest : rest.head? ≠ some '"') : rest'.head? ≠ some '"' :=
    hs.head?_ne (by decide) hrest
  have hcuts := h
  cases h with
  | blank first kind more =>
    refine .blank first kind (runLength_append_congr more fun hrest => ?_)
    rw [← hrest]
    exact (hs.any_head? fun _ => isBlank_of_isHead).symm
  | lineComment first second kind more =>
    have hmore := runLength_append_congr (p := inLine) more hs.any_inLine
    refine .lineComment first ?_ (kind.trans (lineCommentKind_of_similar hall)) hmore
    have hend := ((runLength_append (p := inLine)).mp more.symm).2
    cases cs with
    | nil =>
      rw [List.nil_append] at second
      rw [second] at hend
      cases hend
    | cons d cs => exact second
  | directive first start kind more =>
    exact .directive first start kind (runLength_append_congr (p := inLine) more hs.any_inLine)
  | blockComment first body reach kind more =>
    obtain ⟨cs, rfl, rfl, rfl⟩ := exists_eq_cons body more
    exact .blockComment first rfl (blockCommentReach_of_keeps reach
      (keeps_append nofun)) kind more
  | string first reach kind =>
    exact .string first (stringReach_of_keeps reach (keeps_append nofun)) kind
  | character first reach kind =>
    exact .character first (characterReach_of_keeps reach
      (keeps_append nofun)) kind
  | verbatim first body reach kind more =>
    obtain ⟨cs, rfl, rfl, rfl⟩ := exists_eq_cons body more
    have hnext : rest.head? ≠ some '"' := by simpa using stringReach_next rfl reach
    exact .verbatim first rfl (stringReach_of_keeps reach (keeps_append fun _ => hquote hnext))
      kind more
  | interpolated first body reach kind more =>
    obtain ⟨cs, rfl, rfl, rfl⟩ := exists_eq_cons body more
    exact .interpolated first rfl (interpolatedReach_of_keeps reach (keeps_append nofun)) kind more
  | verbatimInterpolated first body reach kind more =>
    rw [show 2 = 1 + 1 from rfl, Nat.add_assoc] at more
    obtain ⟨cs, rfl, hbody, hmore⟩ := exists_eq_cons body more
    obtain ⟨cs, rfl, rfl, rfl⟩ := exists_eq_cons hbody.symm hmore.symm
    have hnext : rest.head? ≠ some '"' := by simpa using interpolatedReach_next rfl reach
    exact .verbatimInterpolated first rfl
      (interpolatedReach_of_keeps reach (keeps_append fun _ => hquote hnext)) kind
      (by rw [List.length_cons, List.length_cons]; omega)
  | verbatimName first second kind more =>
    have hk : k.isWord = true := by rw [kind]; rfl
    exact hcuts.of_isWord hk (hword hk)
  | word first kind more =>
    have hk : k.isWord = true := by rw [kind]; exact isWord_of_word
    exact hcuts.of_isWord hk (hword hk)
  | number first reading =>
    have hjoins := hnumber (isNumber_of_reading reading)
    refine .number (first.imp_right fun ⟨hpoint, hdigit⟩ => ⟨hpoint, ?_⟩)
      (numberReading_of_joins hjoins le_rfl reading)
    cases hjoins with
    | nil => exact hdigit
    | cons d _ =>
      cases cs with
      | nil => exact hdigit
      | cons a cs => exact hdigit
    | ends hd _ => exact head?_append_of_any hdigit (isDigit_of_endsNumber hd)
    | stops _ =>
      rw [List.append_nil] at hdigit
      cases cs with
      | nil => cases hdigit
      | cons a cs => exact hdigit
  | mark slash point reading =>
    have hslash {d : Char} (hd : isHead d = false) := hall.head?_ne hd
    refine .mark (fun hc => ⟨?_, ?_⟩) (fun hc => ?_) ?_
    · exact hslash (by decide) (slash hc).1
    · exact hslash (by decide) (slash hc).2
    · rw [← point hc]
      exact (hall.any_head? fun _ => isDigit_of_isHead).symm
    · rw [← markReading_of_similar hall, reading]

/-! ## The front of a line -/

/-- What the grammar sees begins with neither white space nor the sign of a directive. -/
theorem Cuts.first_of_isTrivia (h : Cuts lineStart c ds k n) (hk : k.isTrivia = false) :
    isBlank c = false ∧ c ≠ '#' := by
  have hplain : Mode.isPlain c = true → isBlank c = false ∧ c ≠ '#' := by
    intro h
    simp only [Mode.isPlain, Mode.openers, Bool.and_eq_true, Bool.not_eq_true',
      List.contains_eq_mem, decide_eq_false_iff_not, List.mem_cons, not_or] at h
    exact ⟨h.1, h.2.2.2.2.2.2.2.1⟩
  cases h with
  | blank _ kind _ | directive _ _ kind _ =>
    rw [kind] at hk
    cases hk
  | word first _ _ =>
    exact hplain
      (Mode.isPlain_of_isIdentifierContinue (isIdentifierContinue_of_isIdentifierStart first))
  | number first _ =>
    rcases first with hdigit | ⟨rfl, -⟩
    · exact hplain (Mode.isPlain_of_isDigit hdigit)
    · decide
  | mark _ _ reading =>
    obtain ⟨hblank, -, -, -, -, hhash, -⟩ := first_of_mark reading
    exact ⟨hblank, hhash⟩
  | verbatimInterpolated first _ _ _ _ => rcases first with ⟨rfl, -⟩ | ⟨rfl, -⟩ <;> decide
  | lineComment first _ _ _ | blockComment first _ _ _ _ | string first _ _ | character first _ _
  | verbatim first _ _ _ _ | interpolated first _ _ _ _ | verbatimName first _ _ _ =>
    subst first
    decide

/-- Only white space begins with white space. -/
theorem Cuts.ne_whitespace (h : Cuts lineStart c ds k n) (hc : isBlank c = false) :
    k ≠ .whitespace := by
  rintro rfl
  cases h with
  | blank first _ _ =>
    rw [hc] at first
    cases first
  | lineComment _ _ kind _ =>
    rw [lineCommentKind_eq] at kind
    split at kind <;> cases kind
  | word _ kind _ =>
    have hword := kind ▸ isWord_of_word
    cases hword
  | number _ reading => cases isNumber_of_reading reading
  | mark _ _ reading =>
    have hall : ∀ m ∈ Kind.marks, m.2 ≠ .whitespace := by decide
    exact hall _ (markReading_ok (by rw [reading])) rfl
  | directive _ _ kind _ | blockComment _ _ _ kind _ | string _ _ kind | character _ _ kind
  | verbatim _ _ _ kind _ | interpolated _ _ _ kind _ | verbatimInterpolated _ _ _ kind _
  | verbatimName _ _ kind _ => cases kind

/-- Where a text begins with neither white space nor the sign of a directive, it does not matter
what stands in front of it on its line. -/
theorem piecesFrom_of_head (hblank : isBlank c = false) (hhash : c ≠ '#') (lineStart' : Bool) :
    piecesFrom lineStart 0 (c :: ds) = piecesFrom lineStart' 0 (c :: ds) := by
  have hread : read lineStart c ds = read lineStart' c ds := by
    unfold read
    simp [hhash]
  have hafter : ∀ b piece,
      lineStartAfter b (read lineStart' c ds).outcome piece = false := by
    intro b piece
    refine Mode.lineStartAfter_eq_false fun hwhite => ?_
    have hcuts : Cuts lineStart' c ds .whitespace (read lineStart' c ds).more :=
      cuts_of_read (by rw [← hwhite])
    exact hcuts.ne_whitespace hblank rfl
  rw [piecesFrom, piecesFrom, hread, hafter, hafter]

end Lexer

end LivePatch
