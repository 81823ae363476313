import LivePatch.Proofs.Cursor.Scanners
import LivePatch.Proofs.Scanning.Tokens
import LivePatch.Proofs.TokenPlaces

/-!
# The tokens of the cursor

The cursor cuts a text into the pieces of `Lexer.pieces`, at the places where the texts in front of
them put them, and notes the faults of `lexicalFaults`; and it never stops without an answer
(`Cursor.tokenize_eq`).  So what is known of the pieces is known of the tokens of the cursor.
-/

namespace LivePatch

namespace Cursor

open Lexer

variable {cs : List Char} {c : Char} {r : Reading} {lineStart : Bool}

/-! ## One token -/

/-- The character `c` has just been taken at `start`, and `cs` is ahead. -/
def Behind (s : Cursor) (start : Nat) (c : Char) (cs : List Char) : Prop :=
  ∃ front, s.input = front ++ c :: cs ∧ start = byteLength front ∧
    s.pos = byteLength front + c.utf8Size

theorem Behind.at {s : Cursor} {start : Nat} (h : s.Behind start c cs) : s.At cs := by
  obtain ⟨front, hinput, -, hpos⟩ := h
  refine ⟨front ++ [c], by simp [hinput], ?_⟩
  rw [hpos, byteLength_append]
  rfl

theorem At.behind {s : Cursor} (h : s.At (c :: cs)) : (s.past [c]).Behind s.pos c cs := by
  obtain ⟨front, hinput, hpos⟩ := h
  refine ⟨front, hinput, hpos, ?_⟩
  rw [← hpos]
  rfl

/-- Behind a character `c` that stood at the start of a line or did not, `m` takes what the reading
`r` says and notes a fault if and only if it is one. -/
def Reads (lineStart : Bool) (m : Nat → Move Kind) (c : Char) (cs : List Char) (r : Reading) :
    Prop :=
  ∀ (s : Cursor) (start : Nat), s.Behind start c cs → s.lineStart = lineStart →
    m start s = some (kindOf r.outcome, (s.past (cs.take r.more)).noted start r.outcome)

theorem Ends.reads {m : Nat → Move Kind} (h : Ends m cs r) : Reads lineStart m c cs r :=
  fun s start hs _ => h s start hs.at

@[simp] theorem reads_peek {f : Nat → Option Char → Move Kind} :
    Reads lineStart (fun start => peek >>= f start) c cs r ↔
      Reads lineStart (fun start => f start cs.head?) c cs r := by
  refine forall₄_congr fun s start hs _ => ?_
  show (peek s).bind (fun p => f start p.1 p.2) = _ ↔ _
  rw [takes_peek cs s hs.at, List.take_zero, past_nil, Option.bind_some]

@[simp] theorem reads_peekNth {n : Nat} {f : Nat → Option Char → Move Kind} :
    Reads lineStart (fun start => peekNth n >>= f start) c cs r ↔
      Reads lineStart (fun start => f start cs[n]?) c cs r := by
  refine forall₄_congr fun s start hs _ => ?_
  show (peekNth n s).bind (fun p => f start p.1 p.2) = _ ↔ _
  rw [takes_peekNth n cs s hs.at, List.take_zero, past_nil, Option.bind_some]

@[simp] theorem reads_atLineStart {f : Nat → Bool → Move Kind} :
    Reads lineStart (fun start => atLineStart >>= f start) c cs r ↔
      Reads lineStart (fun start => f start lineStart) c cs r := by
  refine forall₄_congr fun s start hs hline => ?_
  show f start s.lineStart s = _ ↔ _
  rw [hline]

theorem reads_word : Reads lineStart word c cs (wordReading c cs) := by
  intro s start hs _
  have hend := takes_eatWhile isIdentifierContinue cs s hs.at
  obtain ⟨front, hinput, hstart, hpos⟩ := hs
  let more := cs.take (runLength isIdentifierContinue cs)
  have hslice : Span.slice? ⟨start, s.pos + byteLength more⟩ s.input = some (c :: more) := by
    have h := Span.slice?_append front (c :: more) (cs.drop (runLength isIdentifierContinue cs))
    rw [List.cons_append, List.take_append_drop, byteLength, ← Nat.add_assoc] at h
    rw [hinput, hstart, hpos]
    exact h
  have htext : slice start (s.past more).pos (s.past more) = some (c :: more, s.past more) := by
    rw [slice]
    exact congrArg (Option.map _) hslice
  rw [word]
  show (eatWhile isIdentifierContinue s).bind _ = _
  rw [hend, Option.bind_some]
  show (slice start _ _).bind _ = _
  rw [htext]
  rfl

variable {f g : Nat → Move Kind} {b : Bool}

theorem Reads.ite_pos (hb : b = true) (h : Reads lineStart f c cs r) :
    Reads lineStart (fun start => if b then f start else g start) c cs r := by
  simpa [hb] using h

theorem Reads.ite_neg (hb : b = false) (h : Reads lineStart g c cs r) :
    Reads lineStart (fun start => if b then f start else g start) c cs r := by
  simpa [hb] using h

/-- A guard on the next character that does not hold. -/
theorem Reads.next_neg {d e : Char} (hb : (c == d && cs.head? == some e) = false)
    (h : Reads lineStart g c cs r) :
    Reads lineStart (fun start => peek >>= fun next =>
      if c == d && next == some e then f start else g start) c cs r :=
  reads_peek.mpr (.ite_neg hb h)

theorem Reads.next_pos {d e : Char} (hb : (c == d && cs.head? == some e) = true)
    (h : Reads lineStart f c cs r) :
    Reads lineStart (fun start => peek >>= fun next =>
      if c == d && next == some e then f start else g start) c cs r :=
  reads_peek.mpr (.ite_pos hb h)

/-- A guard on the next two characters that does not hold. -/
theorem Reads.next₂_neg {d e e' : Char}
    (hb : (c == d && cs.head? == some e && cs[1]? == some e') = false)
    (h : Reads lineStart g c cs r) :
    Reads lineStart (fun start => peek >>= fun next => peekNth 1 >>= fun second =>
      if c == d && next == some e && second == some e' then f start else g start) c cs r :=
  reads_peek.mpr (reads_peekNth.mpr (.ite_neg hb h))

theorem Reads.next₂_pos {d e e' : Char}
    (hb : (c == d && cs.head? == some e && cs[1]? == some e') = true)
    (h : Reads lineStart f c cs r) :
    Reads lineStart (fun start => peek >>= fun next => peekNth 1 >>= fun second =>
      if c == d && next == some e && second == some e' then f start else g start) c cs r :=
  reads_peek.mpr (reads_peekNth.mpr (.ite_pos hb h))

theorem guard_eq_false {d e : Char} (h : ∀ rest, c = d → cs = e :: rest → False) :
    (c == d && cs.head? == some e) = false := by
  refine Bool.eq_false_iff.mpr fun hboth => ?_
  obtain ⟨hc, hhead⟩ := Bool.and_eq_true_iff.mp hboth
  obtain ⟨rest, hrest⟩ := List.head?_eq_some_iff.mp (beq_iff_eq.mp hhead)
  exact h rest (beq_iff_eq.mp hc) hrest

theorem guard₂_eq_false {d e e' : Char} (h : ∀ rest, c = d → cs = e :: e' :: rest → False) :
    (c == d && cs.head? == some e && cs[1]? == some e') = false := by
  refine Bool.eq_false_iff.mpr fun hall => ?_
  obtain ⟨hboth, hsecond⟩ := Bool.and_eq_true_iff.mp hall
  obtain ⟨hc, hhead⟩ := Bool.and_eq_true_iff.mp hboth
  obtain ⟨ds, rfl⟩ := List.head?_eq_some_iff.mp (beq_iff_eq.mp hhead)
  rw [List.getElem?_cons_succ, ← List.head?_eq_getElem?] at hsecond
  obtain ⟨rest, rfl⟩ := List.head?_eq_some_iff.mp (beq_iff_eq.mp hsecond)
  exact h rest (beq_iff_eq.mp hc) rfl

theorem Reach.reading_succ (reach : Reach) (n : Nat) (k : Kind) (what : LexicalFault) :
    reach.reading (n + 1) k what =
      ⟨(reach.reading n k what).outcome, 1 + (reach.reading n k what).more⟩ := by
  rw [Reach.reading, Reach.reading]
  simp only [Reading.mk.injEq, true_and]
  omega

theorem lineCommentKind_slash (ds : List Char) : lineCommentKind ('/' :: ds) =
    if ('/' :: ds)[1]? == some '/' && ('/' :: ds)[2]? != some '/' then .docComment
    else .lineComment := by
  match ds with
  | [] => rfl
  | [d] =>
    by_cases hd : d = '/'
    · subst hd
      rfl
    · simp [lineCommentKind, hd]
  | d :: e :: ds =>
    by_cases hd : d = '/'
    · subst hd
      by_cases he : e = '/'
      · subst he
        rfl
      · simp [lineCommentKind, he]
    · simp [lineCommentKind, hd]

theorem reads_plainFrom (lineStart : Bool) (c : Char) (cs : List Char) :
    Reads lineStart (plainFrom · c) c cs (
      if c == '@' && cs.head?.any isIdentifierStart then
        ⟨.ok .identifier, runLength isIdentifierContinue cs⟩
      else if isIdentifierStart c then wordReading c cs
      else if c.isDigit || (c == '.' && cs.head?.any Char.isDigit) then numberReading c cs
      else markReading c cs) := by
  refine reads_peek.mpr ?_
  by_cases hat : (c == '@' && cs.head?.any isIdentifierStart) = true
  · rw [if_pos hat]
    exact .ite_pos hat (((takes_eatWhile isIdentifierContinue cs).bind
      (f := fun _ => pure Kind.identifier) (takes_pure _ _)).ends).reads
  rw [if_neg hat]
  refine .ite_neg (Bool.eq_false_iff.mpr hat) ?_
  by_cases hstart : isIdentifierStart c = true
  · rw [if_pos hstart]
    exact .ite_pos hstart reads_word
  rw [if_neg hstart]
  refine .ite_neg (Bool.eq_false_iff.mpr hstart) ?_
  by_cases hdigit : c.isDigit = true
  · rw [if_pos (by rw [hdigit, Bool.true_or])]
    exact .ite_pos hdigit (ends_number c cs).reads
  refine .ite_neg (Bool.eq_false_iff.mpr hdigit) (reads_peek.mpr ?_)
  rw [Bool.eq_false_iff.mpr hdigit, Bool.false_or]
  by_cases hpoint : (c == '.' && cs.head?.any Char.isDigit) = true
  · rw [if_pos hpoint]
    obtain rfl : c = '.' := beq_iff_eq.mp (Bool.and_eq_true_iff.mp hpoint).1
    exact .ite_pos hpoint (ends_number '.' cs).reads
  · rw [if_neg hpoint]
    exact .ite_neg (Bool.eq_false_iff.mpr hpoint) (ends_punctuation c cs).reads

/-- A token that begins neither as white space nor as a comment or directive. -/
theorem Reads.of_quoted (hblank : isBlank c = false)
    (hline : (c == '/' && cs.head? == some '/') = false)
    (hblock : (c == '/' && cs.head? == some '*') = false) (hhash : (c == '#' && lineStart) = false)
    (h : Reads lineStart (quotedFrom · c) c cs r) : Reads lineStart (tokenFrom · c) c cs r :=
  .ite_neg hblank (.next_neg hline (.next_neg hblock (reads_atLineStart.mpr (.ite_neg hhash h))))

theorem reads_tokenFrom (lineStart : Bool) (c : Char) (cs : List Char) :
    Reads lineStart (tokenFrom · c) c cs (Lexer.read lineStart c cs) := by
  unfold Lexer.read
  by_cases hblank : isBlank c = true
  · rw [if_pos hblank]
    exact .ite_pos hblank (((takes_eatWhile isBlank cs).bind (f := fun _ => pure Kind.whitespace)
      (takes_pure _ _)).ends).reads
  rw [if_neg hblank]
  replace hblank := Bool.eq_false_iff.mpr hblank
  split
  · rename_i ds
    refine .ite_neg hblank (.next_pos rfl (reads_peekNth.mpr (reads_peekNth.mpr ?_)))
    rw [lineCommentKind_slash]
    have hskip := (takes_skipToLineEnd ('/' :: ds)).bind
      (f := fun _ => pure (if ('/' :: ds)[1]? == some '/' && ('/' :: ds)[2]? != some '/' then
        Kind.docComment else Kind.lineComment)) (takes_pure _ _)
    exact hskip.ends.reads
  · rename_i ds
    rw [Reach.reading_succ]
    exact .ite_neg hblank (.next_neg rfl (.next_pos rfl (ends_blockComment ds).bump.reads))
  · refine .of_quoted hblank rfl rfl rfl ?_
    exact .ite_pos rfl (ends_stringBody false cs).reads
  · refine .of_quoted hblank rfl rfl rfl (.ite_neg rfl ?_)
    exact .ite_pos rfl (ends_characterLiteral cs).reads
  · rename_i ds
    rw [Reach.reading_succ]
    refine .of_quoted hblank rfl rfl rfl (.ite_neg rfl (.ite_neg rfl ?_))
    exact .next_pos rfl (ends_stringBody true ds).bump.reads
  · rename_i ds
    rw [Reach.reading_succ, Reach.reading_succ]
    refine .of_quoted hblank rfl rfl rfl (.ite_neg rfl (.ite_neg rfl (.next_neg rfl ?_)))
    exact .next₂_pos rfl (ends_interpolatedBody true ds).bump.bump.reads
  · rename_i ds
    rw [Reach.reading_succ, Reach.reading_succ]
    refine .of_quoted hblank rfl rfl rfl (.ite_neg rfl (.ite_neg rfl (.next_neg rfl
      (.next₂_neg rfl (.next_neg rfl ?_)))))
    exact .next₂_pos rfl (ends_interpolatedBody true ds).bump.bump.reads
  · rename_i ds
    rw [Reach.reading_succ]
    refine .of_quoted hblank rfl rfl rfl (.ite_neg rfl (.ite_neg rfl (.next_neg rfl
      (.next₂_neg rfl ?_))))
    exact .next_pos rfl (ends_interpolatedBody false ds).bump.reads
  · rename_i hstring hcharacter hline hblock hverbatim hboth hboth' hinterpolated
    by_cases hhash : (c == '#' && lineStart) = true
    · rw [if_pos hhash]
      refine .ite_neg hblank (.next_neg (guard_eq_false hline) (.next_neg (guard_eq_false hblock)
        (reads_atLineStart.mpr (.ite_pos hhash ?_))))
      exact (((takes_skipToLineEnd cs).bind (f := fun _ => pure _) (takes_pure _ _)).ends).reads
    · rw [if_neg hhash]
      refine .of_quoted hblank (guard_eq_false hline) (guard_eq_false hblock)
        (Bool.eq_false_iff.mpr hhash) (.ite_neg (beq_false_of_ne hstring) (.ite_neg
          (beq_false_of_ne hcharacter) (.next_neg (guard_eq_false hverbatim) ?_)))
      refine .next₂_neg (guard₂_eq_false hboth) (.next_neg (guard_eq_false hinterpolated)
        (.next₂_neg (guard₂_eq_false hboth') ?_))
      exact reads_plainFrom lineStart c cs

/-- **The next token.**  The cursor takes the piece that the lexer reads there. -/
theorem nextKind_eq {s : Cursor} (h : s.At (c :: cs)) :
    let r := Lexer.read s.lineStart c cs
    nextKind s = some (kindOf r.outcome, (s.past (c :: cs.take r.more)).noted s.pos r.outcome) := by
  intro r
  rw [nextKind]
  show (bump s).bind _ = _
  rw [takes_bump_cons c cs s h, Option.bind_some]
  have hread := reads_tokenFrom s.lineStart c cs (s.past [c]) s.pos h.behind rfl
  rw [past_append] at hread
  exact hread

/-! ## All tokens -/

/-- Behind a piece the cursor knows whether only white space stands on the line. -/
theorem markLine_eq {s : Cursor} {piece : List Char} {start : Nat}
    (outcome : Except LexicalFault Kind)
    (hslice : Span.slice? ⟨start, s.pos⟩ s.input = some piece) :
    markLine (kindOf outcome) start s.pos s =
      some ((), { s with lineStart := lineStartAfter s.lineStart outcome piece }) := by
  rw [markLine]
  by_cases hblank : outcome = .ok .whitespace
  · subst hblank
    show (slice start s.pos s).bind _ = _
    rw [slice, hslice, Option.map_some, Option.bind_some, lineStartAfter]
    show (if piece.contains '\n' then _ else _ : Move Unit) s = _
    cases hline : piece.contains '\n' with
    | true =>
      rw [if_pos rfl, Bool.or_true]
      rfl
    | false =>
      rw [if_neg Bool.false_ne_true, Bool.or_false]
      rfl
  · have hkind : (kindOf outcome == .whitespace) = false := by
      cases outcome with
      | error what => rfl
      | ok k => exact beq_false_of_ne fun hk => hblank (congrArg Except.ok hk)
    have hafter : lineStartAfter s.lineStart outcome piece = false := by
      unfold lineStartAfter
      split
      · exact absurd rfl hblank
      · rfl
    rw [hkind, hafter, if_neg Bool.false_ne_true]
    rfl

/-- The kind and place of a token. -/
def placed (p : Token × Span) : Kind × Span := (p.1.kind, p.2)

theorem faultsFrom_cons (start : Nat) (l : Lexeme) (ls : List Lexeme) :
    faultsFrom start (l :: ls) =
      faultsFrom start [l] ++ faultsFrom (start + l.text.utf8ByteSize) ls := by
  rw [faultsFrom, faultsFrom, faultsFrom]
  cases l.outcome <;> rfl

theorem noted_eq (s : Cursor) (start : Nat) (outcome : Except LexicalFault Kind) (text : String)
    (hwidth : s.pos = start + text.utf8ByteSize) : s.noted start outcome =
      { s with faults := s.faults ++ faultsFrom start [⟨outcome, text⟩] } := by
  cases outcome with
  | ok k =>
    rw [faultsFrom, faultsFrom, List.append_nil]
    rfl
  | error what =>
    rw [faultsFrom, faultsFrom, noted, hwidth]
    rfl

/-- The loop goes on before the end of the text. -/
theorem tokens_of_lt {s s₁ s₂ : Cursor} {k : Kind} (h : s.pos < byteLength s.input)
    (hnext : nextKind s = some (k, s₁)) (hline : markLine k s.pos s₁.pos s₁ = some ((), s₂))
    (hleft : s₂.left < s.left) :
    tokens s = (tokens s₂).map fun p => ((k, ⟨s.pos, s₁.pos⟩) :: p.1, p.2) := by
  conv_lhs => rw [tokens, loop]
  show (if s.pos < byteLength s.input then _ else _ : Move _) s = _
  rw [if_pos h]
  show (nextKind s).bind _ = _
  rw [hnext, Option.bind_some]
  show (markLine _ _ _ _).bind _ = _
  rw [hline, Option.bind_some]
  show (if s₂.left < s.left then tokens s₂ else none).bind _ = _
  rw [if_pos hleft]
  cases tokens s₂ <;> rfl

/-- **One round of the loop.**  The cursor behind the next token stands in front of what follows. -/
theorem round_eq {s : Cursor} (h : s.At (c :: cs)) :
    let r := Lexer.read s.lineStart c cs
    let piece := c :: cs.take r.more
    let t : Cursor := { s with
      pos := s.pos + byteLength piece
      lineStart := lineStartAfter s.lineStart r.outcome piece
      faults := s.faults ++ faultsFrom s.pos [⟨r.outcome, String.ofList piece⟩] }
    tokens s = (tokens t).map (fun p =>
        ((kindOf r.outcome, ⟨s.pos, s.pos + byteLength piece⟩) :: p.1, p.2)) ∧
      t.At (cs.drop r.more) := by
  intro r piece t
  have hnext : nextKind s = some (kindOf r.outcome, { t with lineStart := s.lineStart }) := by
    have hwidth : (String.ofList piece).utf8ByteSize = byteLength piece := by
      rw [← byteLength_toList, String.toList_ofList]
    have hnoted := noted_eq (s.past piece) s.pos r.outcome (String.ofList piece) (by
      rw [hwidth]
      rfl)
    rw [nextKind_eq h]
    exact congrArg (fun s₁ => some (kindOf r.outcome, s₁)) hnoted
  obtain ⟨front, hinput, hpos⟩ := h
  have hcs : c :: cs = piece ++ cs.drop r.more := by
    rw [List.cons_append, List.take_append_drop]
  have hslice : Span.slice? ⟨s.pos, s.pos + byteLength piece⟩ s.input = some piece := by
    rw [hinput, hpos, hcs]
    exact Span.slice?_append front piece _
  constructor
  · have hlt : s.pos < byteLength s.input := by
      have := c.utf8Size_pos
      rw [hinput, byteLength_append, hpos, byteLength]
      omega
    refine tokens_of_lt hlt hnext (markLine_eq r.outcome hslice) ?_
    have := c.utf8Size_pos
    show byteLength s.input - (s.pos + byteLength piece) < byteLength s.input - s.pos
    rw [byteLength]
    omega
  · refine ⟨front ++ piece, ?_, ?_⟩
    · show s.input = _
      rw [hinput, hcs, List.append_assoc]
    · show s.pos + byteLength piece = _
      rw [hpos, byteLength_append]

/-- **The tokens ahead.**  They are those of the pieces, where the texts in front put them, and the
faults noted are those of the pieces. -/
theorem tokens_eq {s : Cursor} (h : s.At cs) :
    let ls := piecesFrom s.lineStart 0 cs
    ∃ t : Cursor, tokens s = some ((Token.spans s.pos (ls.map Lexeme.token)).map placed ++
        [(.eof, ⟨byteLength s.input, byteLength s.input⟩)], t) ∧
      t.faults = s.faults ++ faultsFrom s.pos ls := by
  generalize hn : cs.length = n
  induction n using Nat.strongRecOn generalizing s cs with
  | _ n ih =>
    cases cs with
    | nil =>
      obtain ⟨front, hinput, hpos⟩ := h
      have hend : ¬s.pos < byteLength s.input := by
        rw [hinput, hpos, List.append_nil]
        exact Nat.lt_irrefl _
      refine ⟨s, ?_, (List.append_nil _).symm⟩
      rw [tokens, loop]
      show (if s.pos < byteLength s.input then _ else _ : Move _) s = _
      rw [if_neg hend]
      rfl
    | cons c cs =>
      let r := Lexer.read s.lineStart c cs
      let piece := c :: cs.take r.more
      obtain ⟨hround, hat⟩ := round_eq h
      obtain ⟨t, htokens, hfaults⟩ := ih (cs.drop r.more).length (by
        rw [← hn, List.length_cons, List.length_drop]
        omega) hat rfl
      have hwidth : (String.ofList piece).utf8ByteSize = byteLength piece := by
        rw [← byteLength_toList, String.toList_ofList]
      have hpieces : piecesFrom s.lineStart 0 (c :: cs) = ⟨r.outcome, String.ofList piece⟩ ::
          piecesFrom (lineStartAfter s.lineStart r.outcome piece) 0 (cs.drop r.more) := by
        rw [piecesFrom, Mode.piecesFrom_skip]
      refine ⟨t, ?_, ?_⟩
      · rw [hround, htokens, hpieces, List.map_cons, Token.spans, Token.width, Lexeme.token_eq,
          Span.ofText, hwidth]
        rfl
      · have hall := faultsFrom_cons s.pos ⟨r.outcome, String.ofList piece⟩
          (piecesFrom (lineStartAfter s.lineStart r.outcome piece) 0 (cs.drop r.more))
        rw [hwidth] at hall
        rw [hfaults, hpieces, hall]
        exact List.append_assoc _ _ _

/-- **The cursor lexes.**  There is always an answer, and it is the tokens of the text with their
places and its faults. -/
theorem tokenize_eq (source : String) :
    tokenize source = some ((Token.spans 0 (lex source)).map placed, lexicalFaults source) := by
  have hat : At ⟨source.toList, 0, true, []⟩ source.toList := ⟨[], rfl, rfl⟩
  obtain ⟨t, htokens, hfaults⟩ := tokens_eq hat
  have hwidth : byteLength source.toList = 0 + Token.widthOf (lexed source) := by
    rw [byteLength_toList, Nat.zero_add, ← Token.utf8ByteSize_textOf, textOf_lexed]
  have hspans : Token.spans 0 (lex source) = Token.spans 0 (lexed source) ++
      [(.endOfText, ⟨byteLength source.toList, byteLength source.toList⟩)] := by
    rw [hwidth]
    exact Token.spans_append 0 (lexed source) [.endOfText]
  rw [tokenize, htokens, hspans, List.map_append]
  exact congrArg (fun faults => some (_, faults)) (hfaults.trans (List.nil_append _))

end Cursor

/-- **Where the tokens of a text stand.**  The cursor always comes to the end of the text and never
stands inside a character.  Behind all tokens stands the empty one at the end of the text; the
others are not empty, they lie end to end and cover the text, and both ends of each fall between
two characters.  The faults noted are one for each error token, in order and at the places of these
tokens. -/
theorem tokenize_places (source : String) :
    ∃ (found : List (Kind × Span)) (faults : List Diagnostic),
      Cursor.tokenize source =
        some (found ++ [(.eof, ⟨source.utf8ByteSize, source.utf8ByteSize⟩)], faults) ∧
      Span.Cover 0 source.utf8ByteSize (found.map Prod.snd) ∧
      (∀ p ∈ found, p.1 ≠ .eof ∧ p.2.start < p.2.stop ∧
        ∃ text, p.2.slice? source.toList = some text) ∧
      faults.map Diagnostic.span = (found.filter (·.1 == .error)).map Prod.snd ∧
      ∀ d ∈ faults, ∃ fault, d.problem = .lexical fault := by
  obtain ⟨pieces, hspans, hcover, hpieces, hfaults, hlexical⟩ := lex_places source
  refine ⟨pieces.map Cursor.placed, lexicalFaults source, ?_, ?_, ?_, ?_, hlexical⟩
  · rw [Cursor.tokenize_eq, hspans, List.map_append]
    rfl
  · rw [List.map_map]
    exact hcover
  · intro p hp
    obtain ⟨q, hq, rfl⟩ := List.mem_map.mp hp
    obtain ⟨hkind, hstart, hslice⟩ := hpieces q hq
    exact ⟨hkind, hstart, _, hslice⟩
  · rw [hfaults, List.filter_map, List.map_map]
    rfl

end LivePatch
