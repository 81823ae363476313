import LivePatch.Proofs.Cutting.Alone
import LivePatch.Proofs.Operations.RoundTrip

/-!
# A blank behind the text

Texts are put together with blanks between them or put between parentheses.  A blank or a closing
parenthesis behind a text changes nothing of what it is cut into, unless the last piece runs on
there, as white space does in front of a blank and what reaches to the end of its line.  So texts
that are clean by themselves show the same words in such a row (`Token.Stands`) and between
parentheses (`Token.Stands.enclosed`).
-/

namespace LivePatch

/-- Does a piece of this kind reach to the end of its line? -/
def Kind.endsLine : Kind → Bool
  | .lineComment | .docComment | .preprocessorDirective => true
  | _ => false

namespace Lexer

variable {lineStart : Bool} {c : Char} {k : Kind} {cs ds rest more : List Char}

/-- A blank and a closing parenthesis break off what is in front of them. -/
def isBreak (d : Char) : Bool := d == ' ' || d == ')'

theorem isBreak_cases {d : Char} (hd : isBreak d = true) : d = ' ' ∨ d = ')' := by
  simpa [isBreak] using hd

/-- No mark goes on with a blank or a closing parenthesis. -/
theorem markReading_append_break {d : Char} (hd : isBreak d = true) (c : Char)
    (ds more : List Char) : markReading c (ds ++ d :: more) = markReading c ds := by
  have hmarks : ∀ m ∈ Kind.marks, m.1.toList.tail.all (!isBreak ·) = true := by decide
  have hfits : ∀ m ∈ Kind.marks,
      markFits m.1 (c :: (ds ++ d :: more)) = markFits m.1 (c :: ds) := by
    intro m hm
    have hprefix : m.1.toList.isPrefixOf (c :: ds ++ d :: more) =
        m.1.toList.isPrefixOf (c :: ds) := by
      have htail := hmarks m hm
      cases hmark : m.1.toList with
      | nil => rfl
      | cons a as =>
        rw [hmark, List.tail_cons] at htail
        simp only [List.cons_append, List.isPrefixOf]
        rw [isPrefixOf_append_of_stop (List.all_eq_true.mp htail) (by simp [hd]) ds]
    simp only [markFits, ← List.cons_append, hprefix]
    cases hfits : m.1.toList.isPrefixOf (c :: ds) with
    | false => rfl
    | true =>
      obtain ⟨es, hes⟩ := List.isPrefixOf_iff_prefix.mp hfits
      rw [← hes, List.append_assoc, List.drop_left, List.drop_left]
      rcases isBreak_cases hd with rfl | rfl <;> cases es <;> rfl
  unfold markReading
  rw [List.find?_congr hfits]

theorem head?_append_ne {d e : Char} (he : e ≠ d) (h : ds.head? ≠ some e) :
    (ds ++ d :: more).head? ≠ some e := by
  cases ds with
  | nil =>
    rw [List.nil_append, List.head?_cons]
    exact fun heq => he (Option.some.inj heq).symm
  | cons a as => exact h

/-- **A blank or a closing parenthesis behind the text** does not change a piece, unless the piece
runs on there. -/
theorem Cuts.append_break {d : Char} (hd : isBreak d = true)
    (h : Cuts lineStart c (cs ++ rest) k cs.length)
    (hends : rest ≠ [] ∨ (k = .whitespace → isBlank d = false) ∧ k.endsLine = false) :
    Cuts lineStart c (cs ++ (rest ++ d :: more)) k cs.length := by
  have hcuts := h
  have hne {e : Char} (he : isBreak e = false) : e ≠ d := by
    rintro rfl
    rw [he] at hd
    cases hd
  have hrun {p : Char → Bool} (hlen : cs.length = runLength p (cs ++ rest))
      (hrest : rest = [] → p d = false) : cs.length = runLength p (cs ++ (rest ++ d :: more)) := by
    refine runLength_append_congr hlen fun _ => ?_
    cases rest with
    | nil => simpa using hrest rfl
    | cons e es => simpa using ((runLength_append (p := p)).mp hlen.symm).2
  have hword (hk : k.isWord = true) :
      Cuts lineStart c (cs ++ (rest ++ d :: more)) k cs.length := by
    refine hcuts.of_isWord hk ?_
    have hnext := hcuts.next_of_isWord hk
    cases rest with
    | nil => rcases isBreak_cases hd with rfl | rfl <;> rfl
    | cons e es => exact hnext
  cases h with
  | blank first kind len =>
    exact .blank first kind (hrun len fun hrest => (hends.resolve_left (by simp [hrest])).1 kind)
  | lineComment first second kind len =>
    have hrest := hends.resolve_right (by
      rw [kind, lineCommentKind_eq]
      split <;> simp [Kind.endsLine])
    have hline : rest.head?.any inLine = false := ((runLength_append (p := inLine)).mp len.symm).2
    have hline' : (rest ++ d :: more).head?.any inLine = false := by
      obtain ⟨e, es, rfl⟩ := List.exists_cons_of_ne_nil hrest
      exact hline
    refine .lineComment first ?_ ?_ (hrun (p := inLine) len fun hnil => absurd hnil hrest)
    · cases cs with
      | nil =>
        rw [List.nil_append] at second
        rw [second] at hline
        cases hline
      | cons e cs => exact second
    · rw [kind, lineCommentKind_append hline, lineCommentKind_append hline']
  | directive first start kind len =>
    have hrest := hends.resolve_right (by rw [kind]; simp [Kind.endsLine])
    exact .directive first start kind (hrun (p := inLine) len fun hnil => absurd hnil hrest)
  | blockComment first body reach kind len =>
    obtain ⟨cs, rfl, rfl, rfl⟩ := exists_eq_cons body len
    exact .blockComment first rfl (blockCommentReach_of_keeps reach (keeps_append nofun)) kind len
  | string first reach kind =>
    exact .string first (stringReach_of_keeps reach (keeps_append nofun)) kind
  | character first reach kind =>
    exact .character first (characterReach_of_keeps reach (keeps_append nofun)) kind
  | verbatim first body reach kind len =>
    obtain ⟨cs, rfl, rfl, rfl⟩ := exists_eq_cons body len
    have hnext : rest.head? ≠ some '"' := by simpa using stringReach_next rfl reach
    exact .verbatim first rfl (stringReach_of_keeps reach
      (keeps_append fun _ => head?_append_ne (hne rfl) hnext)) kind len
  | interpolated first body reach kind len =>
    obtain ⟨cs, rfl, rfl, rfl⟩ := exists_eq_cons body len
    exact .interpolated first rfl (interpolatedReach_of_keeps reach (keeps_append nofun)) kind len
  | verbatimInterpolated first body reach kind len =>
    rw [show 2 = 1 + 1 from rfl, Nat.add_assoc] at len
    obtain ⟨cs, rfl, hbody, hlen⟩ := exists_eq_cons body len
    obtain ⟨cs, rfl, rfl, rfl⟩ := exists_eq_cons hbody.symm hlen.symm
    have hnext : rest.head? ≠ some '"' := by simpa using interpolatedReach_next rfl reach
    exact .verbatimInterpolated first rfl (interpolatedReach_of_keeps reach
        (keeps_append fun _ => head?_append_ne (hne rfl) hnext)) kind
      (by rw [List.length_cons, List.length_cons]; omega)
  | verbatimName _ _ kind _ => exact hword (by rw [kind]; rfl)
  | word _ kind _ => exact hword (by rw [kind]; exact isWord_of_word)
  | number _ reading =>
    have hcut : (⟨k, String.ofList (c :: cs)⟩ : Token).Cut lineStart rest :=
      ⟨c, cs, String.toList_ofList, hcuts⟩
    have hnumber : endsNumber d = true := by
      rcases isBreak_cases hd with rfl | rfl <;> decide
    obtain ⟨e, es, htext, hcuts⟩ :=
      hcut.append_of_isNumber (isNumber_of_reading reading) hnumber more
    obtain ⟨rfl, rfl⟩ := List.cons.inj (String.toList_ofList.symm.trans htext)
    exact hcuts
  | mark slash point reading =>
    rw [← List.append_assoc]
    refine .mark (fun hc => ?_) (fun hc => ?_) ?_
    · exact ⟨head?_append_ne (hne rfl) (slash hc).1, head?_append_ne (hne rfl) (slash hc).2⟩
    · have hpoint := point hc
      generalize cs ++ rest = ds at hpoint
      cases ds with
      | nil => rcases isBreak_cases hd with rfl | rfl <;> rfl
      | cons e es => exact hpoint
    · rw [markReading_append_break hd, reading]

/-- White space is blank throughout. -/
theorem Cuts.of_whitespace {n : Nat} (h : Cuts lineStart c ds .whitespace n) :
    isBlank c = true ∧ n = runLength isBlank ds := by
  generalize hk : Kind.whitespace = k at h
  cases h with
  | blank first _ len => exact ⟨first, len⟩
  | lineComment _ _ kind _ =>
    rw [lineCommentKind_eq, ← hk] at kind
    split at kind <;> cases kind
  | word _ kind _ =>
    have hword := kind ▸ isWord_of_word
    rw [← hk] at hword
    cases hword
  | number _ reading =>
    rw [← hk] at reading
    cases isNumber_of_reading reading
  | mark _ _ reading =>
    have hall : ∀ m ∈ Kind.marks, m.2 ≠ .whitespace := by decide
    exact absurd hk.symm (hall _ (markReading_ok (by rw [reading])))
  | directive _ _ kind _ | blockComment _ _ _ kind _ | string _ _ kind | character _ _ kind
  | verbatim _ _ _ kind _ | interpolated _ _ _ kind _ | verbatimInterpolated _ _ _ kind _
  | verbatimName _ _ kind _ => cases hk.trans kind

/-! ## What a text shows -/

/-- The text `cs` is cut without a fault, and the grammar sees the words `ws` of it. -/
def Shows (lineStart : Bool) (cs : List Char) (ws : List Token) : Prop :=
  (∀ l ∈ piecesFrom lineStart 0 cs, ∃ k, l.outcome = .ok k) ∧
    ((piecesFrom lineStart 0 cs).map Lexeme.token).filter Token.isSignificant = ws

variable {ws us : List Token}

theorem shows_run (hc : isBlank c = true) : Shows lineStart (c :: cs) ws ↔
    Shows (lineStart || (c :: cs.take (runLength isBlank cs)).contains '\n')
      (cs.drop (runLength isBlank cs)) ws := by
  have hread : read lineStart c cs = ⟨.ok .whitespace, runLength isBlank cs⟩ :=
    cuts_iff.mpr (.blank hc rfl rfl)
  have hpieces : piecesFrom lineStart 0 (c :: cs) =
      ⟨.ok .whitespace, String.ofList (c :: cs.take (runLength isBlank cs))⟩ ::
        piecesFrom (lineStart || (c :: cs.take (runLength isBlank cs)).contains '\n') 0
          (cs.drop (runLength isBlank cs)) := by
    rw [piecesFrom, hread, Mode.piecesFrom_skip]
    rfl
  rw [Shows, hpieces, List.forall_mem_cons, List.map_cons, List.filter_cons_of_neg (by exact Bool.false_ne_true)]
  exact and_congr_left fun _ => and_iff_right ⟨_, rfl⟩

/-- Blanks in front of a text do not show. -/
theorem shows_blank (hc : isBlank c = true) :
    Shows lineStart (c :: cs) ws ↔ Shows (lineStart || c == '\n') cs ws := by
  have hnewline (d : Char) (ds : List Char) :
      (d :: ds).contains '\n' = ((d == '\n') || ds.contains '\n') := by
    rw [List.contains_cons, Bool.beq_comm]
  rw [shows_run hc, hnewline]
  cases cs with
  | nil => simp [runLength]
  | cons d ds =>
    rw [runLength_cons]
    by_cases hd : isBlank d = true
    · rw [if_pos hd, shows_run hd, hnewline, List.take_succ_cons, List.drop_succ_cons, hnewline]
      simp only [Bool.or_assoc]
    · rw [if_neg hd]
      simp

theorem shows_blanks (hcs : ∀ c ∈ cs, isBlank c = true) (h : ∀ lineStart, Shows lineStart ds ws) :
    Shows lineStart (cs ++ ds) ws := by
  induction cs generalizing lineStart with
  | nil => exact h lineStart
  | cons c cs ih =>
    obtain ⟨hc, hcs⟩ := List.forall_mem_cons.mp hcs
    exact (shows_blank hc).mpr (ih hcs)

end Lexer

namespace Token

open Lexer (Shows isBreak shows_blank shows_blanks)

variable {lineStart : Bool} {t : Token} {ts ws us : List Token} {cs ds rest more : List Char}

theorem Cut.append_break {d : Char} (hd : isBreak d = true) (h : t.Cut lineStart rest)
    (hends : rest ≠ [] ∨ (t.kind = .whitespace → isBlank d = false) ∧ t.kind.endsLine = false)
    (more : List Char) : t.Cut lineStart (rest ++ d :: more) := by
  obtain ⟨c, cs, htext, hcuts⟩ := h
  exact ⟨c, cs, htext, hcuts.append_break hd hends⟩

/-- **With a blank or a closing parenthesis behind them**, tokens are cut as before. -/
theorem Lexes.append_break {d : Char} (hd : isBreak d = true) (h : Lexes lineStart ts rest)
    (hends : rest ≠ [] ∨ ∀ t, ts.getLast? = some t →
      (t.kind = .whitespace → isBlank d = false) ∧ t.kind.endsLine = false)
    (more : List Char) : Lexes lineStart ts (rest ++ d :: more) := by
  induction ts generalizing lineStart with
  | nil => trivial
  | cons t ts ih =>
    obtain ⟨hcut, hts⟩ := h
    have hrest : Lexes (lineStartOf lineStart [t]) ts (rest ++ d :: more) := by
      cases ts with
      | nil => trivial
      | cons u us =>
        refine ih hts (hends.imp_right fun hlast v hv => hlast v ?_)
        rw [List.getLast?_cons_cons]
        exact hv
    refine ⟨?_, hrest⟩
    rw [← List.append_assoc]
    refine hcut.append_break hd ?_ more
    cases ts with
    | nil => exact hends.imp id fun hlast => hlast t rfl
    | cons u us =>
      obtain ⟨c, cs, htext, -⟩ := hts.1
      exact .inl (by simp [htext])

theorem shows_of_lexes (h : Lexes lineStart ts []) :
    Shows lineStart (charsOf ts) (ts.filter isSignificant) := by
  have htokens : Lexer.Lexeme.token ∘ (fun t : Token => ⟨.ok t.kind, t.text⟩) = id := rfl
  rw [Shows, piecesFrom_of_lexes h, List.map_map, htokens, List.map_id]
  refine ⟨fun l hl => ?_, rfl⟩
  obtain ⟨t, -, rfl⟩ := List.mem_map.mp hl
  exact ⟨t.kind, rfl⟩

theorem shows_append (h : Lexes lineStart ts rest)
    (hrest : Shows (lineStartOf lineStart ts) rest us) :
    Shows lineStart (charsOf ts ++ rest) (ts.filter isSignificant ++ us) := by
  have htokens : Lexer.Lexeme.token ∘ (fun t : Token => ⟨.ok t.kind, t.text⟩) = id := rfl
  obtain ⟨hclean, rfl⟩ := hrest
  rw [Shows, piecesFrom_append h, List.map_append, List.filter_append, List.map_map, htokens,
    List.map_id]
  refine ⟨List.forall_mem_append.mpr ⟨fun l hl => ?_, hclean⟩, rfl⟩
  obtain ⟨t, -, rfl⟩ := List.mem_map.mp hl
  exact ⟨t.kind, rfl⟩

/-! ## Texts between others -/

/-- Wherever the text stands, with a blank or a closing parenthesis behind it, the grammar sees the
words `ws` of it. -/
structure Stands (cs : List Char) (ws : List Token) : Prop where
  alone : ∀ lineStart, Shows lineStart cs ws
  front : ∀ d more us, isBreak d = true → (∀ lineStart, Shows lineStart (d :: more) us) →
    ∀ lineStart, Shows lineStart (cs ++ d :: more) (ws ++ us)

/-- Two texts that stand between others stand together, too, with a blank between them. -/
theorem Stands.append (h : Stands cs ws) (h' : Stands ds us) :
    Stands (cs ++ ' ' :: ds) (ws ++ us) where
  alone := h.front ' ' ds us rfl fun _ => (shows_blank rfl).mpr (h'.alone _)
  front d more vs hd hmore lineStart := by
    rw [List.append_assoc, List.append_assoc]
    exact h.front _ _ _ rfl (fun _ => (shows_blank rfl).mpr (h'.front d more vs hd hmore _)) lineStart

/-- A text that stands between others stands between parentheses. -/
theorem Stands.enclosed (h : Stands cs ws) :
    Stands ('(' :: (cs ++ [')'])) (openParen :: (ws ++ [closeParen])) := by
  have hopen {lineStart : Bool} {rest : List Char} {us : List Token}
      (hrest : ∀ lineStart, Shows lineStart rest us) :
      Shows lineStart ('(' :: rest) (openParen :: us) :=
    shows_append (lexes_singleton.mpr cut_openParen) (hrest _)
  have hclose {lineStart : Bool} {rest : List Char} {us : List Token}
      (hrest : ∀ lineStart, Shows lineStart rest us) :
      Shows lineStart (')' :: rest) (closeParen :: us) :=
    shows_append (lexes_singleton.mpr cut_closeParen) (hrest _)
  have hend (lineStart : Bool) : Shows lineStart [] [] := ⟨nofun, rfl⟩
  refine ⟨fun lineStart => ?_, fun d more us hd hmore lineStart => ?_⟩
  · exact hopen (h.front ')' [] [closeParen] rfl fun _ => hclose hend)
  · rw [List.cons_append, List.append_assoc, List.cons_append (a := openParen), List.append_assoc]
    exact hopen (h.front ')' (d :: more) (closeParen :: us) rfl fun _ => hclose hmore)

/-- Tokens stand between others if they are cut at the start of a line and elsewhere, and if the
last of them does not reach to the end of its line. -/
theorem stands_of_lexes (h : ∀ lineStart, Lexes lineStart ts [])
    (hlast : ∀ t, ts.getLast? = some t → t.kind.endsLine = false) :
    Stands (charsOf ts) (ts.filter isSignificant) where
  alone lineStart := shows_of_lexes (h lineStart)
  front d more us hd hmore lineStart := by
    by_cases hwhite : ∀ t, ts.getLast? = some t → t.kind = .whitespace → isBlank d = false
    · have hlexes := (h lineStart).append_break hd
        (.inr fun t ht => ⟨hwhite t ht, hlast t ht⟩) more
      exact shows_append hlexes (hmore _)
    · -- White space at the end takes the blank in.
      simp only [not_forall, Bool.not_eq_false] at hwhite
      obtain ⟨t, ht, hk, hblank⟩ := hwhite
      obtain ⟨ts, rfl⟩ := List.getLast?_eq_some_iff.mp ht
      obtain ⟨hts, hcut⟩ := lexes_append.mp (h lineStart)
      obtain ⟨c, cs, htext, hcuts⟩ := (lexes_singleton.mp hcut)
      rw [hk] at hcuts
      obtain ⟨hc, hlen⟩ := hcuts.of_whitespace
      have hall := (Lexer.runLength_append.mp hlen.symm).1
      have hhidden : t.isSignificant = false := by rw [isSignificant, isTrivia, hk]; rfl
      have hlexes := hts.append_break hd (.inl (by simp [htext])) more
      rw [List.append_nil, charsOf_cons, charsOf_nil, List.append_nil] at hlexes
      rw [charsOf_append, List.filter_append, List.filter_cons_of_neg (by simp [hhidden]),
        List.filter_nil, List.append_nil, charsOf_cons, charsOf_nil, List.append_nil,
        List.append_assoc]
      refine shows_append hlexes (shows_blanks ?_ hmore)
      rw [htext]
      exact List.forall_mem_cons.mpr ⟨hc, hall⟩

/-- Only a directive that comes first asks whether the tokens begin a line. -/
theorem Lexes.of_lineStart {lineStart' : Bool} (h : Lexes lineStart ts rest)
    (hfirst : ∀ t, ts.find? (·.kind != .whitespace) = some t → t.kind ≠ .preprocessorDirective) :
    Lexes lineStart' ts rest := by
  induction ts generalizing lineStart lineStart' with
  | nil => trivial
  | cons t ts ih =>
    obtain ⟨hcut, hts⟩ := h
    by_cases hk : t.kind = .whitespace
    · refine ⟨hcut.of_lineStart (by rw [hk]; decide), ih hts fun u hu => hfirst u ?_⟩
      rw [List.find?_cons_of_neg (by simp [hk])]
      exact hu
    · have hsame (b : Bool) : lineStartOf b [t] = false := lineStartOf_concat [] hk
      refine ⟨hcut.of_lineStart (hfirst t (List.find?_cons_of_pos (by simp [hk]))), ?_⟩
      rw [hsame, ← hsame lineStart]
      exact hts

end Token

/-- Does the text fit between others on one line?  It must not begin with a directive, which has to
begin its line, and nothing at its end may reach to the end of the line. -/
def fitsBetween (source : String) : Bool :=
  ((lexed source).find? (·.kind != .whitespace)).all (·.kind != .preprocessorDirective) &&
    (lexed source).getLast?.all (!·.kind.endsLine)

namespace Token

theorem stands_of_fitsBetween {source : String} (hclean : lexicalFaults source = [])
    (hfits : fitsBetween source = true) :
    Stands source.toList ((lexed source).filter isSignificant) := by
  obtain ⟨hfirst, hlast⟩ := Bool.and_eq_true_iff.mp hfits
  have hlexes := lexes_lexed hclean
  have hchars : charsOf (lexed source) = source.toList :=
    congrArg String.toList (textOf_lexed source)
  rw [← hchars]
  refine stands_of_lexes (fun lineStart => hlexes.of_lineStart fun t ht => ?_) fun t ht => ?_
  · simpa [ht] using hfirst
  · simpa [ht] using hlast

theorem StandsAlone.stands {t : Token} (h : t.StandsAlone) : Stands t.text.toList [t] := by
  have hshown : t.isSignificant = true := by simp [isSignificant, Token.isTrivia, h.isTrivia]
  have hlexes (lineStart : Bool) : Lexes lineStart [t] [] :=
    lexes_singleton.mpr (h.cut _ _ (.inl rfl))
  have hstands := stands_of_lexes hlexes fun u hu => by
    obtain rfl : t = u := Option.some.inj hu
    have hall : ∀ k : Kind, k.isTrivia = false → k.endsLine = false := by
      intro k hk
      cases k <;> first | rfl | cases hk
    exact hall _ h.isTrivia
  rwa [charsOf_cons, charsOf_nil, List.append_nil, List.filter_cons_of_pos hshown,
    List.filter_nil] at hstands

theorem Stands.words {source : String} {ws : List Token} (h : Stands source.toList ws) :
    lexicalFaults source = [] ∧ (lex source).filter isSignificant = ws ++ [.endOfText] := by
  obtain ⟨hclean, hwords⟩ := h.alone true
  refine ⟨faultsFrom_eq_nil_iff.mpr hclean, ?_⟩
  rw [lex, List.filter_append]
  exact congrArg (· ++ _) hwords

end Token

end LivePatch
