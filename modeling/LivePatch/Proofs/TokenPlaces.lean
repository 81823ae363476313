import LivePatch.Proofs.Scripts
import LivePatch.Proofs.WellFormedness

/-!
# Where the tokens stand

Tokens carry no positions; where they stand is computed from the texts in front of them.  So it has
to be seen that the places are right.  The spans of the tokens lie end to end and cover the text,
each holds the text of its token, and so both of its ends fall between characters.  Faults have
places of their own, which are those of the error tokens, one by one.
-/

namespace LivePatch

/-- The spans lie end to end, from byte `start` to byte `stop`. -/
def Span.Cover : Nat → Nat → List Span → Prop
  | start, stop, [] => start = stop
  | start, stop, s :: ss => s.start = start ∧ Cover s.stop stop ss

namespace Token

theorem map_fst_spans (start : Nat) (ts : List Token) : (spans start ts).map Prod.fst = ts := by
  induction ts generalizing start with
  | nil => rfl
  | cons t ts ih => rw [spans, List.map_cons, ih]

theorem spans_append (start : Nat) (ts us : List Token) :
    spans start (ts ++ us) = spans start ts ++ spans (start + widthOf ts) us := by
  induction ts generalizing start with
  | nil => simp [spans]
  | cons t ts ih => simp [spans, ih, Nat.add_assoc]

/-- The spans of tokens cover their text. -/
theorem cover_spans (start : Nat) (ts : List Token) :
    Span.Cover start (start + widthOf ts) ((spans start ts).map Prod.snd) := by
  induction ts generalizing start with
  | nil => exact (Nat.add_zero start).symm
  | cons t ts ih =>
    have hrest := ih (start + t.width)
    rw [Nat.add_assoc] at hrest
    exact ⟨rfl, hrest⟩

/-- Each span holds the text of its token, also when the text has something in front. -/
theorem slice?_of_mem_spans {start : Nat} {ts : List Token} {p : Token × Span}
    (hp : p ∈ spans start ts) (front : List Char) (hfront : byteLength front = start) :
    p.2.slice? (front ++ (textOf ts).toList) = some p.1.text.toList := by
  induction ts generalizing start front with
  | nil => cases hp
  | cons t ts ih =>
    rw [textOf_cons, String.toList_append]
    rcases List.mem_cons.mp hp with rfl | hp
    · rw [← hfront, Span.ofText, ← byteLength_toList]
      exact Span.slice?_append front t.text.toList (textOf ts).toList
    · have hstart : byteLength (front ++ t.text.toList) = start + t.width := by
        rw [byteLength_append, byteLength_toList, hfront, width]
      rw [← List.append_assoc]
      exact ih hp _ hstart

theorem start_lt_stop_of_mem_spans {start : Nat} {ts : List Token} {p : Token × Span}
    (hp : p ∈ spans start ts) (hne : p.1.text ≠ "") : p.2.start < p.2.stop := by
  induction ts generalizing start with
  | nil => cases hp
  | cons t ts ih =>
    rcases List.mem_cons.mp hp with rfl | hp
    · have hpos : 0 < t.text.utf8ByteSize :=
        Nat.pos_of_ne_zero (mt String.utf8ByteSize_eq_zero_iff.mp hne)
      exact Nat.lt_add_of_pos_right hpos
    · exact ih hp

end Token

/-- Faults stand where the error tokens do. -/
theorem Lexer.map_span_faultsFrom {ls : List Lexer.Lexeme}
    (h : ∀ l ∈ ls, ∀ k, l.outcome = .ok k → l.token.kind ≠ .error) (start : Nat) :
    (faultsFrom start ls).map Diagnostic.span =
      ((Token.spans start (ls.map Lexeme.token)).filter (·.1.kind == .error)).map Prod.snd := by
  induction ls generalizing start with
  | nil => rfl
  | cons l ls ih =>
    obtain ⟨hl, hls⟩ := List.forall_mem_cons.mp h
    have hrest := ih hls (start + l.text.utf8ByteSize)
    rw [faultsFrom, List.map_cons, Token.spans]
    cases ho : l.outcome with
    | ok k =>
      rw [List.filter_cons_of_neg (by simpa using hl k ho)]
      exact hrest
    | error fault =>
      have hkind : l.token.kind = .error := by rw [Lexeme.token, ho]
      rw [List.filter_cons_of_pos (by simp [hkind]), List.map_cons, List.map_cons]
      exact congrArg _ hrest

theorem Lexer.exists_fault_of_mem {ls : List Lexer.Lexeme} {start : Nat} {d : Diagnostic}
    (hd : d ∈ faultsFrom start ls) : ∃ fault, d.problem = .lexical fault := by
  induction ls generalizing start with
  | nil => cases hd
  | cons l ls ih =>
    rw [faultsFrom] at hd
    cases ho : l.outcome with
    | ok k =>
      rw [ho] at hd
      exact ih hd
    | error fault =>
      rw [ho] at hd
      rcases List.mem_cons.mp hd with rfl | hd
      · exact ⟨fault, rfl⟩
      · exact ih hd

/-- **Where the tokens of a text stand.**  Behind them all stands the empty token at the end of the
text.  The others are not empty, they lie end to end and cover the text, and each stands where its
span says, between two characters.  The faults are one for each error token, in order and at the
places of these tokens. -/
theorem lex_places (source : String) :
    ∃ pieces : List (Token × Span),
      Token.spans 0 (lex source) =
        pieces ++ [(.endOfText, ⟨source.utf8ByteSize, source.utf8ByteSize⟩)] ∧
      Span.Cover 0 source.utf8ByteSize (pieces.map Prod.snd) ∧
      (∀ p ∈ pieces, p.1.kind ≠ .eof ∧ p.2.start < p.2.stop ∧
        p.2.slice? source.toList = some p.1.text.toList) ∧
      (lexicalFaults source).map Diagnostic.span =
        (pieces.filter (·.1.kind == .error)).map Prod.snd ∧
      ∀ d ∈ lexicalFaults source, ∃ fault, d.problem = .lexical fault := by
  have hlex : lex source = lexed source ++ [.endOfText] := rfl
  have htext : Token.textOf (lexed source) = source := textOf_lexed source
  have hwidth : 0 + Token.widthOf (lexed source) = source.utf8ByteSize := by
    rw [← Token.utf8ByteSize_textOf, htext, Nat.zero_add]
  refine ⟨Token.spans 0 (lexed source), ?_, ?_, fun p hp => ?_, ?_, ?_⟩
  · rw [hlex, Token.spans_append, hwidth]
    rfl
  · rw [← hwidth]
    exact Token.cover_spans 0 (lexed source)
  · have hmem : p.1 ∈ lexed source := by
      rw [← Token.map_fst_spans 0 (lexed source)]
      exact List.mem_map_of_mem hp
    obtain ⟨l, hl, htoken⟩ := List.mem_map.mp hmem
    have hpiece : p.1.IsPiece := htoken ▸ Lexer.Lexeme.isPiece_token hl
    have hslice := Token.slice?_of_mem_spans hp [] rfl
    rw [htext] at hslice
    exact ⟨hpiece.ne_eof, Token.start_lt_stop_of_mem_spans hp hpiece.ne_empty, hslice⟩
  · exact Lexer.map_span_faultsFrom (fun l hl _ => l.token_ne_error hl) 0
  · exact fun d hd => Lexer.exists_fault_of_mem hd

end LivePatch
