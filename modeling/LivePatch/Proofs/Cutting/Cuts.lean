import LivePatch.Proofs.Scanning.Readings

/-!
# How a piece is cut

What the lexer reads at the front of a text, said once more as a relation: `Cuts` has one case for
each sort of piece, with all that the text behind the first character has to satisfy.  A reading
without a fault is a cut and the other way around (`cuts_iff`).  The relation is what the rest of
this directory works with, since a case of it can be carried over to another text.
-/

namespace LivePatch

namespace Lexer

/-- A piece of kind `k` stands at the front of `c :: ds` and holds `n` characters of `ds`. -/
inductive Cuts (lineStart : Bool) (c : Char) (ds : List Char) (k : Kind) (n : Nat) : Prop
  | blank (first : isBlank c = true) (kind : k = .whitespace) (more : n = runLength isBlank ds)
  | lineComment (first : c = '/') (second : ds.head? = some '/') (kind : k = lineCommentKind ds)
      (more : n = restOfLine ds)
  | directive (first : c = '#') (start : lineStart = true) (kind : k = .preprocessorDirective)
      (more : n = restOfLine ds)
  | blockComment {es : List Char} {m : Nat} (first : c = '/') (body : ds = '*' :: es)
      (reach : blockCommentReach es = ⟨m, true⟩) (kind : k = .blockComment) (more : n = 1 + m)
  | string (first : c = '"') (reach : stringReach false ds = ⟨n, true⟩)
      (kind : k = .stringLiteral)
  | character (first : c = '\'') (reach : characterReach ds = ⟨n, true⟩)
      (kind : k = .charLiteral)
  | verbatim {es : List Char} {m : Nat} (first : c = '@') (body : ds = '"' :: es)
      (reach : stringReach true es = ⟨m, true⟩) (kind : k = .stringLiteral) (more : n = 1 + m)
  | interpolated {es : List Char} {m : Nat} (first : c = '$') (body : ds = '"' :: es)
      (reach : interpolatedReach false (.text 0) es = ⟨m, true⟩)
      (kind : k = .interpolatedStringLiteral) (more : n = 1 + m)
  | verbatimInterpolated {d : Char} {es : List Char} {m : Nat}
      (first : (c = '@' ∧ d = '$') ∨ (c = '$' ∧ d = '@')) (body : ds = d :: '"' :: es)
      (reach : interpolatedReach true (.text 0) es = ⟨m, true⟩)
      (kind : k = .interpolatedStringLiteral) (more : n = 2 + m)
  | verbatimName (first : c = '@') (second : ds.head?.any isIdentifierStart = true)
      (kind : k = .identifier) (more : n = runLength isIdentifierContinue ds)
  | word (first : isIdentifierStart c = true)
      (kind : k = (Kind.ofKeyword? (String.ofList (c :: ds.take n))).getD .identifier)
      (more : n = runLength isIdentifierContinue ds)
  | number (first : c.isDigit = true ∨ (c = '.' ∧ ds.head?.any Char.isDigit = true))
      (reading : numberReading c ds = ⟨.ok k, n⟩)
  | mark (slash : c = '/' → ds.head? ≠ some '/' ∧ ds.head? ≠ some '*')
      (point : c = '.' → ds.head?.any Char.isDigit = false)
      (reading : markReading c ds = ⟨.ok k, n⟩)

variable {lineStart : Bool} {c : Char} {ds : List Char} {k : Kind} {n : Nat}

theorem Reach.reading_eq {r : Reach} {opening : Nat} {kind : Kind} {fault : LexicalFault}
    (h : r.reading opening kind fault = ⟨.ok k, n⟩) :
    r = ⟨r.length, true⟩ ∧ k = kind ∧ n = opening + r.length := by
  obtain ⟨m, closed⟩ := r
  cases closed with
  | false => cases h
  | true =>
    cases h
    exact ⟨rfl, rfl, rfl⟩

theorem head?_ne {d : Char} (h : ∀ rest, ds = d :: rest → False) : ds.head? ≠ some d := by
  cases ds with
  | nil => simp
  | cons e es =>
    rintro he
    obtain rfl : e = d := by simpa using he
    exact h es rfl

theorem cuts_of_read (h : read lineStart c ds = ⟨.ok k, n⟩) : Cuts lineStart c ds k n := by
  unfold read at h
  split at h
  · rename_i hblank
    cases h
    exact .blank hblank rfl rfl
  split at h
  · cases h
    exact .lineComment rfl rfl rfl rfl
  · obtain ⟨hreach, hkind, hmore⟩ := Reach.reading_eq h
    exact .blockComment rfl rfl hreach hkind hmore
  · obtain ⟨hreach, hkind, hmore⟩ := Reach.reading_eq h
    rw [Nat.zero_add] at hmore
    exact .string rfl (hmore ▸ hreach) hkind
  · obtain ⟨hreach, hkind, hmore⟩ := Reach.reading_eq h
    rw [Nat.zero_add] at hmore
    exact .character rfl (hmore ▸ hreach) hkind
  · obtain ⟨hreach, hkind, hmore⟩ := Reach.reading_eq h
    exact .verbatim rfl rfl hreach hkind hmore
  · obtain ⟨hreach, hkind, hmore⟩ := Reach.reading_eq h
    exact .verbatimInterpolated (.inl ⟨rfl, rfl⟩) rfl hreach hkind hmore
  · obtain ⟨hreach, hkind, hmore⟩ := Reach.reading_eq h
    exact .verbatimInterpolated (.inr ⟨rfl, rfl⟩) rfl hreach hkind hmore
  · obtain ⟨hreach, hkind, hmore⟩ := Reach.reading_eq h
    exact .interpolated rfl rfl hreach hkind hmore
  rename_i hquote hquote' hline hblock hverbatim hatDollar hdollarAt hinterpolated
  split at h
  · rename_i hhash
    obtain ⟨hc, hstart⟩ : c = '#' ∧ lineStart = true := by simpa using hhash
    cases h
    exact .directive hc hstart rfl rfl
  split at h
  · rename_i hat
    obtain ⟨hc, hhead⟩ := Bool.and_eq_true_iff.mp hat
    cases h
    exact .verbatimName (beq_iff_eq.mp hc) hhead rfl rfl
  split at h
  · rename_i hstart
    cases h
    exact .word hstart rfl rfl
  split at h
  · rename_i hnumber
    refine .number ?_ h
    rcases Bool.or_eq_true_iff.mp hnumber with hdigit | hpoint
    · exact .inl hdigit
    · obtain ⟨hc, hhead⟩ := Bool.and_eq_true_iff.mp hpoint
      exact .inr ⟨beq_iff_eq.mp hc, hhead⟩
  · rename_i hnumber
    refine .mark (fun hc => ⟨?_, ?_⟩) (fun hc => ?_) h
    · exact head?_ne fun rest => hline rest hc
    · exact head?_ne fun rest => hblock rest hc
    · rw [Bool.eq_false_iff]
      intro hhead
      exact hnumber (by simp [hc, hhead])

/-- What is read where neither white space, a comment nor a string begins. -/
theorem read_eq_of_plain (hblank : isBlank c = false)
    (hslash : c = '/' → ds.head? ≠ some '/' ∧ ds.head? ≠ some '*') (hquote : c ≠ '"')
    (hquote' : c ≠ '\'') (hat : c = '@' → ds.head? ≠ some '"' ∧ ds.head? ≠ some '$')
    (hdollar : c ≠ '$') :
    read lineStart c ds =
      if c == '#' && lineStart then ⟨.ok .preprocessorDirective, restOfLine ds⟩
      else if c == '@' && ds.head?.any isIdentifierStart then
        ⟨.ok .identifier, runLength isIdentifierContinue ds⟩
      else if isIdentifierStart c then wordReading c ds
      else if c.isDigit || (c == '.' && ds.head?.any Char.isDigit) then numberReading c ds
      else markReading c ds := by
  unfold read
  rw [if_neg (by simp [hblank])]
  split
  · exact absurd rfl (hslash rfl).1
  · exact absurd rfl (hslash rfl).2
  · exact absurd rfl hquote
  · exact absurd rfl hquote'
  · exact absurd rfl (hat rfl).1
  · exact absurd rfl (hat rfl).2
  · exact absurd rfl hdollar
  · exact absurd rfl hdollar
  · rfl

theorem read_eq_of_isPlain (h : Mode.isPlain c = true) :
    read lineStart c ds =
      if isIdentifierStart c then wordReading c ds
      else if c.isDigit || (c == '.' && ds.head?.any Char.isDigit) then numberReading c ds
      else markReading c ds := by
  simp only [Mode.isPlain, Mode.openers, Bool.and_eq_true, Bool.not_eq_true',
    List.contains_eq_mem, decide_eq_false_iff_not, List.mem_cons, List.not_mem_nil, or_false,
    not_or] at h
  obtain ⟨hblank, hslash, -, hquote, hquote', hat, hdollar, hhash⟩ := h
  rw [read_eq_of_plain hblank (fun h => absurd h hslash) hquote hquote' (fun h => absurd h hat)
    hdollar]
  simp [hat, hhash]

/-- A mark begins with a character that begins nothing else, but for the slash and the point. -/
theorem first_of_mark (h : markReading c ds = ⟨.ok k, n⟩) :
    isBlank c = false ∧ c ≠ '"' ∧ c ≠ '\'' ∧ c ≠ '@' ∧ c ≠ '$' ∧ c ≠ '#' ∧
      isIdentifierStart c = false ∧ c.isDigit = false := by
  have hall : ∀ m ∈ Kind.marks, m.1.toList.head?.all (fun d => isBlank d = false ∧ d ≠ '"' ∧
      d ≠ '\'' ∧ d ≠ '@' ∧ d ≠ '$' ∧ d ≠ '#' ∧ isIdentifierStart d = false ∧
      d.isDigit = false) = true := by
    decide
  have hmem := @markReading_ok c ds k (by rw [h])
  simpa using hall _ hmem

theorem isIdentifierStart_of_isDigit (h : c.isDigit = true) : isIdentifierStart c = false := by
  have hall : ∀ i < 128, (Char.ofNat i).isDigit = true →
      isIdentifierStart (Char.ofNat i) = false := by decide
  have := hall c.toNat (Mode.toNat_lt_of_isDigit h)
  rw [Char.ofNat_toNat] at this
  exact this h

theorem Cuts.read_eq (h : Cuts lineStart c ds k n) : read lineStart c ds = ⟨.ok k, n⟩ := by
  cases h with
  | blank first kind more =>
    unfold read
    rw [if_pos first, kind, more]
  | lineComment first second kind more =>
    subst first kind more
    cases ds with
    | nil => cases second
    | cons d ds =>
      obtain rfl : d = '/' := Option.some.inj second
      rfl
  | directive first start kind more =>
    subst first start kind more
    rfl
  | blockComment first body reach kind more =>
    subst first body kind more
    show (blockCommentReach _).reading _ _ _ = _
    rw [reach]
    rfl
  | string first reach kind =>
    subst first kind
    show (stringReach _ _).reading _ _ _ = _
    rw [reach]
    simp [Reach.reading]
  | character first reach kind =>
    subst first kind
    show (characterReach _).reading _ _ _ = _
    rw [reach]
    simp [Reach.reading]
  | verbatim first body reach kind more =>
    subst first body kind more
    show (stringReach _ _).reading _ _ _ = _
    rw [reach]
    rfl
  | interpolated first body reach kind more =>
    subst first body kind more
    show (interpolatedReach _ _ _).reading _ _ _ = _
    rw [reach]
    rfl
  | verbatimInterpolated first body reach kind more =>
    subst body kind more
    rcases first with ⟨rfl, rfl⟩ | ⟨rfl, rfl⟩
    all_goals
      show (interpolatedReach _ _ _).reading _ _ _ = _
      rw [reach]
      rfl
  | verbatimName first second kind more =>
    subst first kind more
    have hhead : ∀ d, ds.head? = some d → isIdentifierStart d = true := by
      intro d hd
      rw [hd] at second
      exact second
    have hat : ds.head? ≠ some '"' ∧ ds.head? ≠ some '$' :=
      ⟨fun hd => absurd (hhead _ hd) (by decide),
        fun hd => absurd (hhead _ hd) (by decide)⟩
    have hslash : '@' ≠ '/' := by decide
    rw [read_eq_of_plain (by decide) (fun h => absurd h hslash) (by decide) (by decide)
      (fun _ => hat) (by decide)]
    simp [second]
  | word first kind more =>
    have hplain : Mode.isPlain c = true :=
      Mode.isPlain_of_isIdentifierContinue (isIdentifierContinue_of_isIdentifierStart first)
    rw [read_eq_of_isPlain hplain, if_pos first, wordReading, kind, more]
  | number first reading =>
    have hplain : Mode.isPlain c = true := by
      rcases first with hdigit | ⟨rfl, -⟩
      · exact Mode.isPlain_of_isDigit hdigit
      · decide
    have hstart : isIdentifierStart c = false := by
      rcases first with hdigit | ⟨rfl, -⟩
      · exact isIdentifierStart_of_isDigit hdigit
      · decide
    have hnumber : (c.isDigit || (c == '.' && ds.head?.any Char.isDigit)) = true := by
      rcases first with hdigit | ⟨rfl, hhead⟩
      · simp [hdigit]
      · simp [hhead]
    rw [read_eq_of_isPlain hplain, hstart, hnumber]
    exact reading
  | mark slash point reading =>
    obtain ⟨hblank, hquote, hquote', hat, hdollar, hhash, hstart, hdigit⟩ := first_of_mark reading
    rw [read_eq_of_plain hblank slash hquote hquote' (fun h => absurd h hat) hdollar]
    have hpoint : (c == '.' && ds.head?.any Char.isDigit) = false := by
      rw [Bool.eq_false_iff]
      intro hnumber
      obtain ⟨hc, hhead⟩ := Bool.and_eq_true_iff.mp hnumber
      rw [point (beq_iff_eq.mp hc)] at hhead
      cases hhead
    simp [hhash, hat, hstart, hdigit, hpoint, reading]

/-- Only a directive asks whether it begins its line. -/
theorem Cuts.of_lineStart (h : Cuts lineStart c ds k n) (hk : k ≠ .preprocessorDirective)
    {lineStart' : Bool} : Cuts lineStart' c ds k n := by
  cases h with
  | directive _ _ kind _ => exact absurd kind hk
  | blank first kind more => exact .blank first kind more
  | lineComment first second kind more => exact .lineComment first second kind more
  | blockComment first body reach kind more => exact .blockComment first body reach kind more
  | string first reach kind => exact .string first reach kind
  | character first reach kind => exact .character first reach kind
  | verbatim first body reach kind more => exact .verbatim first body reach kind more
  | interpolated first body reach kind more => exact .interpolated first body reach kind more
  | verbatimInterpolated first body reach kind more =>
    exact .verbatimInterpolated first body reach kind more
  | verbatimName first second kind more => exact .verbatimName first second kind more
  | word first kind more => exact .word first kind more
  | number first reading => exact .number first reading
  | mark slash point reading => exact .mark slash point reading

theorem cuts_iff : read lineStart c ds = ⟨.ok k, n⟩ ↔ Cuts lineStart c ds k n :=
  ⟨cuts_of_read, Cuts.read_eq⟩

end Lexer

end LivePatch
