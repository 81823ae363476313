import LivePatch.Proofs.Grammar.Reports
import LivePatch.Proofs.Losslessness

/-!
# Diagnostics are ordered and located

The diagnostics of a text are its lexical faults, from front to back, and then what the grammar
noted, each at a word and in the order in which the words stand.  A reading goes on to the end of
the text whatever it meets, so it never has to say that the end was expected.
-/

namespace LivePatch

open Token (shift closingAngle endOfText widthOf spans)

/-! ## Places in a text -/

namespace Token

theorem bounds_of_mem_spans {start : Nat} {ts : List Token} {p : Token × Span}
    (hp : p ∈ spans start ts) :
    start ≤ p.2.start ∧ p.2.start ≤ p.2.stop ∧ p.2.stop ≤ start + widthOf ts := by
  induction ts generalizing start with
  | nil => cases hp
  | cons t ts ih =>
    rw [widthOf_cons]
    rcases List.mem_cons.mp hp with rfl | hp
    · rw [width]
      simp only [Span.ofText]
      omega
    · have := ih hp
      omega

theorem pairwise_spans (start : Nat) (ts : List Token) :
    (spans start ts).Pairwise fun p q => p.2.stop ≤ q.2.start := by
  induction ts generalizing start with
  | nil => exact .nil
  | cons t ts ih =>
    exact List.pairwise_cons.mpr ⟨fun q hq => (bounds_of_mem_spans hq).1, ih _⟩

end Token

/-- The span lies in the text, with both ends between two characters. -/
structure Span.Inside (span : Span) (source : String) : Prop where
  ordered : span.start ≤ span.stop
  bounded : span.stop ≤ source.utf8ByteSize
  between : ∃ text, span.slice? source.toList = some text

theorem Span.inside_of_mem_spans {ts : List Token} {source : String}
    (htext : Token.textOf ts = source) {p : Token × Span} (hp : p ∈ spans 0 ts) :
    p.2.Inside source := by
  obtain ⟨-, ordered, bounded⟩ := Token.bounds_of_mem_spans hp
  rw [Nat.zero_add, ← Token.utf8ByteSize_textOf, htext] at bounded
  refine ⟨ordered, bounded, p.1.text.toList, ?_⟩
  have slice := Token.slice?_of_mem_spans hp [] rfl
  rwa [List.nil_append, htext] at slice

/-- The place of a word of `source`, of one half of a shift that stands as two closing angle
brackets in `tree`, or the end of the text. -/
inductive Span.OfWord (source : String) (tree : Tree) (span : Span) : Prop
  | token {t : Token} (stands : (t, span) ∈ spans 0 (lex source))
      (significant : t.isSignificant = true) (notEnd : t.kind ≠ .eof)
  | half {whole : Span} (stands : (shift, whole) ∈ spans 0 (lex source))
      (side : span = ⟨whole.start, whole.start + 1⟩ ∨ span = ⟨whole.start + 1, whole.stop⟩)
      (divided : (closingAngle, span) ∈ spans 0 tree.leaves)
  | atEnd (stands : span = ⟨source.utf8ByteSize, source.utf8ByteSize⟩)

/-- Behind the pieces of a text stands its end. -/
theorem spans_lex (source : String) : spans 0 (lex source) =
    spans 0 (lexed source) ++ [(endOfText, ⟨source.utf8ByteSize, source.utf8ByteSize⟩)] := by
  have width : 0 + widthOf (lexed source) = source.utf8ByteSize := by
    rw [Nat.zero_add, ← Token.utf8ByteSize_textOf, textOf_lexed]
  rw [show lex source = lexed source ++ [endOfText] from rfl, Token.spans_append, width]
  rfl

theorem Span.OfWord.inside {source : String} {tree : Tree} {span : Span}
    (h : span.OfWord source tree) (text : tree.text = source) : span.Inside source := by
  cases h with
  | token stands => exact Span.inside_of_mem_spans (textOf_lex source) stands
  | half _ _ divided => exact Span.inside_of_mem_spans text divided
  | atEnd stands =>
    have atEnd : (endOfText, span) ∈ spans 0 (lex source) := by
      rw [spans_lex, stands]
      exact List.mem_append_right _ List.mem_cons_self
    exact Span.inside_of_mem_spans (textOf_lex source) atEnd

/-! ## Messages -/

theorem Problem.OfProduction.message_ne {problem : Problem} (h : problem.OfProduction) :
    problem.message ≠ "expected end of file" ∧ problem.message ≠ "expected end of expression" := by
  cases problem with
  | lexical fault => exact h.elim
  | expected what =>
    have file : "expected end of file" = "expected " ++ "end of file" := by decide
    have expression : "expected end of expression" = "expected " ++ "end of expression" := by decide
    rw [message, file, expression, Ne, Ne, String.append_right_inj, String.append_right_inj]
    exact h
  | unexpected what =>
    have first (tail : List Char) : (Problem.unexpected what).message.toList ≠ 'e' :: tail := by
      simp [message]
    exact ⟨fun same => first _ (congrArg String.toList same),
      fun same => first _ (congrArg String.toList same)⟩

theorem LexicalFault.message_ne (fault : LexicalFault) :
    fault.message ≠ "expected end of file" ∧ fault.message ≠ "expected end of expression" := by
  cases fault <;> decide

/-! ## Lexical faults -/

theorem isPiece_of_mem_spans {source : String} {p : Token × Span}
    (hp : p ∈ spans 0 (lexed source)) : p.1.IsPiece := by
  have piece : p.1 ∈ lexed source := by
    rw [← Token.map_fst_spans 0 (lexed source)]
    exact List.mem_map_of_mem hp
  obtain ⟨l, hl, token⟩ := List.mem_map.mp piece
  exact token ▸ Lexer.Lexeme.isPiece_token hl

theorem spans_lexicalFaults (source : String) :
    ((lexicalFaults source).map Diagnostic.span).Sublist
      ((spans 0 (lexed source)).map Prod.snd) := by
  rw [lexicalFaults, Lexer.map_span_faultsFrom (fun l hl _ => l.token_ne_error hl) 0]
  exact List.filter_sublist.map Prod.snd

/-- A fault stands where a piece of the text stands. -/
theorem exists_piece_of_fault {source : String} {d : Diagnostic} (hd : d ∈ lexicalFaults source) :
    ∃ p ∈ spans 0 (lexed source), p.2 = d.span := by
  have stands := (spans_lexicalFaults source).subset (List.mem_map_of_mem hd)
  exact List.mem_map.mp stands

theorem pairwise_lexicalFaults (source : String) :
    (lexicalFaults source).Pairwise fun d e => d.span.stop ≤ e.span.start := by
  have pieces : ((spans 0 (lexed source)).map Prod.snd).Pairwise fun s t => s.stop ≤ t.start :=
    List.pairwise_map.mpr (Token.pairwise_spans 0 (lexed source))
  exact List.pairwise_map.mp (pieces.sublist (spans_lexicalFaults source))

/-! ## The diagnostics of a text -/

/-- Beside the lexical faults of `source`, reading it answers the problems `noted`. -/
structure Parsed.Notes (p : Parsed) (source : String) (noted : List Diagnostic) : Prop where
  diagnostics : p.diagnostics = lexicalFaults source ++ noted
  /-- Lexical faults are apart from each other, from front to back. -/
  lexical : ∀ d ∈ lexicalFaults source, ∃ fault, d.problem = .lexical fault
  nonempty : ∀ d ∈ lexicalFaults source, d.span.start < d.span.stop
  apart : (lexicalFaults source).Pairwise fun d e => d.span.stop ≤ e.span.start
  /-- What the grammar noted stands at words, and in order. -/
  grammatical : ∀ d ∈ noted, ∀ fault, d.problem ≠ .lexical fault
  places : ∀ d ∈ noted, d.span.OfWord source p.tree
  ordered : noted.Pairwise fun d e => d.span.start ≤ e.span.start
  inside : ∀ d ∈ p.diagnostics, d.span.Inside source
  messages : ∀ d ∈ p.diagnostics,
    d.message ≠ "expected end of file" ∧ d.message ≠ "expected end of expression"

namespace Grammar

variable {source : String} {k : Kind} {Q : Frame → Prop} {p : Parsed} {y : Frame}
  {gap : List Token} {a : Step Unit}

theorem located_lastState (h : a.Reports Problem.OfProduction) (source : String) :
    (lastState a source).Located Problem.OfProduction (lex source) [] :=
  (h.located_run (Action.located_runRule reports_production _)
    (ReadState.located_start _ source)).skipTrivia

theorem reports_fileBody : fileBody.Reports Problem.OfProduction := by simp [fileBody]

theorem reports_fragmentBody : fragmentBody.Reports Problem.OfProduction := by
  simp [fragmentBody, Problem.OfProduction]

theorem Last.leaves {s : ReadState} (h : Last source k Q p s y gap) :
    p.tree.leaves = s.behind ++ s.ahead := by
  rw [h.tree, h.ahead]
  simp [ReadState.behind]

theorem Last.ofWord {s : ReadState} (h : Last source k Q p s y gap)
    (located : s.Located Problem.OfProduction (lex source) []) {d : Diagnostic}
    (hd : d ∈ s.found) : d.span.OfWord source p.tree := by
  have divides := located.divides
  have place := (located.found d hd).2.2
  rw [List.nil_append, ← h.leaves] at divides place
  cases place with
  | @word w stands significant =>
    rw [spans_lex] at stands
    obtain piece | atEnd := List.mem_append.mp stands
    · exact .token (spans_lex source ▸ stands) (by simp [Token.isSignificant, significant])
        (isPiece_of_mem_spans piece).ne_eof
    · exact .atEnd (Prod.mk.inj (List.mem_singleton.mp atEnd)).2
  | half stands =>
    obtain uncut | ⟨-, whole, cut, side⟩ := divides.mem_spans stands
    · exact .token uncut rfl Kind.noConfusion
    · exact .half cut side stands
  | atEnd stands => exact .atEnd (by rw [stands, ← Token.utf8ByteSize_textOf, textOf_lex])

theorem Last.notes {s : ReadState} (h : Last source k Q p s y gap)
    (located : s.Located Problem.OfProduction (lex source) []) :
    p.Notes source s.found.reverse := by
  have found : ∀ d ∈ s.found.reverse, d ∈ s.found := fun d hd => List.mem_reverse.mp hd
  refine ⟨h.diagnostics, fun d hd => Lexer.exists_fault_of_mem hd, fun d hd => ?_,
    pairwise_lexicalFaults source, fun d hd fault lexical => ?_,
    fun d hd => h.ofWord located (found d hd), List.pairwise_reverse.mpr located.ordered, ?_, ?_⟩
  · obtain ⟨p, hp, same⟩ := exists_piece_of_fault hd
    exact same ▸ Token.start_lt_stop_of_mem_spans hp (isPiece_of_mem_spans hp).ne_empty
  · have ofProduction := (located.found d (found d hd)).1
    rw [lexical] at ofProduction
    exact ofProduction
  · rw [h.diagnostics]
    intro d hd
    rcases List.mem_append.mp hd with hd | hd
    · obtain ⟨p, hp, same⟩ := exists_piece_of_fault hd
      exact same ▸ Span.inside_of_mem_spans (textOf_lexed source) hp
    · exact (h.ofWord located (found d hd)).inside h.holds.text
  · rw [h.diagnostics]
    intro d hd
    rcases List.mem_append.mp hd with hd | hd
    · obtain ⟨fault, lexical⟩ := Lexer.exists_fault_of_mem hd
      rw [Diagnostic.message, lexical]
      exact fault.message_ne
    · exact (located.found d (found d hd)).1.message_ne

end Grammar

/-- **Diagnostics are ordered and located.** -/
theorem diagnostics_ordered (source : String) :
    (∃ noted, (parse source).Notes source noted) ∧
      ∃ noted, (parseExpression source).Notes source noted := by
  obtain ⟨_, _, file⟩ := Grammar.last_parse source
  obtain ⟨_, _, fragment⟩ := Grammar.last_parseExpression source
  exact ⟨⟨_, file.notes (Grammar.located_lastState Grammar.reports_fileBody source)⟩,
    ⟨_, fragment.notes (Grammar.located_lastState Grammar.reports_fragmentBody source)⟩⟩

end LivePatch
