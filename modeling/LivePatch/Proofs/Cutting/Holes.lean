import LivePatch.Proofs.Cutting.Alone

/-!
# The holes of an interpolated string

Between the braces of a hole stands code, but the search for the end of the string does not cut it
into tokens.  It counts the braces, skips a backslash with the character behind it, and skips what
each quote opens as a regular string.  So it comes out of most tokens as it went in, and the token
that a hole is part of ends where the tokens of the hole say (`interpolated_hole`).

Two sorts of tokens are not read so.  In a character literal the search takes a quote or brace for
one outside of it, and in a verbatim string it lets a backslash hide the quote that ends it.
-/

namespace LivePatch

namespace Lexer

variable {verbatim : Bool} {c : Char} {cs ds rest : List Char} {r : Reach}
  {d e f n : Nat}

/-- Does the search for the end of a hole pass the character without a second look? -/
def isInert (c : Char) : Bool := !(['{', '}', '"', '\\'].contains c)

/-- Does each quote and brace of the text stand behind a backslash that takes it along? -/
def isGuarded : List Char → Bool
  | [] => true
  | '\\' :: _ :: cs => isGuarded cs
  | c :: cs => isInert c && isGuarded cs

/-- Is no quote of the text taken along by a backslash? -/
def keepsQuotes : List Char → Bool
  | [] => true
  | '\\' :: c :: cs => c != '"' && keepsQuotes cs
  | _ :: cs => keepsQuotes cs

/-- In a hole the search passes `cs`, and the number of open braces goes from `d` to `e`.  The brace
of the hole itself is not counted. -/
def Passes (d : Nat) (cs : List Char) (e : Nat) : Prop :=
  ∀ rest, interpolatedReach false (.text (d + 1)) (cs ++ rest) =
    (interpolatedReach false (.text (e + 1)) rest).after cs.length

theorem Reach.after_after (r : Reach) (m n : Nat) : (r.after n).after m = r.after (m + n) := by
  simp [Reach.after, Nat.add_assoc]

theorem passes_nil (d : Nat) : Passes d [] d := fun rest => by simp [Reach.after]

theorem Passes.append (h : Passes d cs e) (k : Passes e ds f) : Passes d (cs ++ ds) f := by
  intro rest
  rw [List.append_assoc, h, k, Reach.after_after, List.length_append]

theorem isInert_iff : isInert c = true ↔ c ≠ '{' ∧ c ≠ '}' ∧ c ≠ '"' ∧ c ≠ '\\' := by
  simp [isInert]

/-- The characters of a sort are inert if the four others are not of the sort. -/
theorem isInert_of_sort {p : Char → Bool} (hc : p c = true)
    (hp : ['{', '}', '"', '\\'].all (fun d => !p d) = true) : isInert c = true := by
  rw [isInert, Bool.not_eq_true', List.contains_eq_mem, decide_eq_false_iff_not]
  intro hmem
  have hother := List.all_eq_true.mp hp c hmem
  rw [hc] at hother
  cases hother

/-- A run that is the whole text. -/
theorem forall_of_runLength {p : Char → Bool} (h : cs.length = runLength p cs) :
    ∀ c ∈ cs, p c = true := by
  refine ((@runLength_append p cs []).mp ?_).1
  rw [List.append_nil, ← h]

/-! ## What the search passes -/

theorem passes_of_isInert (hc : isInert c = true) (d : Nat) : Passes d [c] d := by
  intro rest
  obtain ⟨hopen, hclose, hquote, hback⟩ := isInert_iff.mp hc
  rw [List.singleton_append, interpolatedReach]
  · rfl
  · exact fun _ hd _ _ => Nat.succ_ne_zero d hd
  · exact fun _ hd _ _ => Nat.succ_ne_zero d hd
  · exact hopen
  · exact hclose
  · exact fun _ _ => hquote
  · exact fun _ hd _ _ => Nat.succ_ne_zero d hd
  · exact fun hd _ => Nat.succ_ne_zero d hd
  · exact fun _ _ hc _ => hback hc
  · exact fun hd _ => Nat.succ_ne_zero d hd

theorem passes_escape (c : Char) (d : Nat) : Passes d ['\\', c] d := fun _ => rfl

theorem passes_open (d : Nat) : Passes d ['{'] (d + 1) := fun _ => rfl

theorem passes_close (d : Nat) : Passes (d + 1) ['}'] d := fun _ => rfl

theorem passes_of_isGuarded (h : isGuarded cs = true) (d : Nat) : Passes d cs d := by
  fun_induction isGuarded cs with
  | case1 => exact passes_nil d
  | case2 c cs ih => exact (passes_escape c d).append (ih h)
  | case3 c cs _ ih =>
    obtain ⟨hc, hcs⟩ := Bool.and_eq_true_iff.mp h
    exact (passes_of_isInert hc d).append (ih hcs)

theorem isGuarded_of_forall (h : ∀ c ∈ cs, isInert c = true) : isGuarded cs = true := by
  fun_induction isGuarded cs with
  | case1 => rfl
  | case2 c cs ih => exact absurd (h '\\' List.mem_cons_self) (by decide)
  | case3 c cs _ ih =>
    obtain ⟨hc, hcs⟩ := List.forall_mem_cons.mp h
    exact Bool.and_eq_true_iff.mpr ⟨hc, ih hcs⟩

/-! ## Strings in a hole -/

theorem Reach.after_length (h : r.after n = ⟨cs.length + n, true⟩) : r = ⟨cs.length, true⟩ := by
  obtain ⟨m, rfl, hm⟩ := Reach.after_eq h
  obtain rfl : m = cs.length := by omega
  rfl

/-- Inside of quotes the search passes a character that is neither a quote nor the end of a line
and takes no other along. -/
theorem interpolatedReach_quoted_cons (hquote : c ≠ '"') (hline : c ≠ '\n') (hback : c ≠ '\\') :
    interpolatedReach verbatim (.quoted d) (c :: cs) =
      (interpolatedReach verbatim (.quoted d) cs).after 1 := by
  rw [interpolatedReach]
  · exact hquote
  · exact hline
  · exact fun _ _ hc _ => hback hc

/-- Inside of quotes, a regular string is read as everywhere. -/
theorem interpolatedReach_quoted (h : stringReach false cs = ⟨cs.length, true⟩) (d : Nat)
    (rest : List Char) : interpolatedReach verbatim (.quoted d) (cs ++ rest) =
      (interpolatedReach verbatim (.text d) rest).after cs.length := by
  generalize hregular : false = regular at h
  fun_induction stringReach regular cs with
  | case1 => cases h
  | case2 _ hv | case5 _ _ hv | case7 _ hv => exact absurd (hregular.trans hv) (by decide)
  | case3 | case8 => simp at h
  | case4 cs =>
    obtain rfl : cs = [] := by simpa using h
    rfl
  | case6 c cs _ ih =>
    rw [List.cons_append, List.cons_append, interpolatedReach, ih (Reach.after_length h),
      Reach.after_after, Nat.add_comm]
    rfl
  | case9 c cs hquotes hquote hback hline ih =>
    have hcs := Reach.after_length h
    have hne : c ≠ '\\' := by
      obtain ⟨e, es, rfl⟩ := stringReach_ne_nil hcs
      exact fun hc => hback e es hc rfl
    rw [List.cons_append, interpolatedReach_quoted_cons hquote hline hne, ih hcs,
      Reach.after_after, Nat.add_comm]
    rfl

theorem passes_string (h : stringReach false cs = ⟨cs.length, true⟩) (d : Nat) :
    Passes d ('"' :: cs) d := by
  intro rest
  rw [List.cons_append, interpolatedReach, interpolatedReach_quoted h, Reach.after_after,
    Nat.add_comm]
  rfl

/-- A verbatim string goes on behind a character that is no quote. -/
theorem stringReach_verbatim (hc : c ≠ '"') (cs : List Char) :
    stringReach true (c :: cs) = (stringReach true cs).after 1 := by
  by_cases hback : c = '\\'
  · subst hback
    cases cs with
    | nil => rfl
    | cons d cs => rw [stringReach, if_pos rfl]
  · by_cases hline : c = '\n'
    · subst hline
      rw [stringReach, if_pos rfl]
    · rw [stringReach]
      · exact fun _ hquote _ => hc hquote
      · exact hc
      · exact fun _ _ hc _ => hback hc
      · exact hline

theorem keepsQuotes_cons (hc : c ≠ '\\') (cs : List Char) :
    keepsQuotes (c :: cs) = keepsQuotes cs := by
  rw [keepsQuotes]
  exact fun _ _ h _ => hc h

/-- A verbatim string in which no backslash hides a quote is read in a hole as one regular string
after the other, each of which ends where the next one begins. -/
theorem interpolatedReach_verbatim (h : stringReach true cs = ⟨cs.length, true⟩)
    (hline : '\n' ∉ cs) (hquotes : keepsQuotes cs = true) (d : Nat) (rest : List Char) :
    interpolatedReach verbatim (.quoted (d + 1)) (cs ++ rest) =
      (interpolatedReach verbatim (.text (d + 1)) rest).after cs.length := by
  -- Two characters may have to be passed at once, so the induction is on the length.
  induction hlen : cs.length using Nat.strongRecOn generalizing cs with
  | _ len ih =>
    subst hlen
    cases cs with
    | nil => cases h
    | cons c cs =>
      obtain ⟨hend, hlines⟩ := not_or.mp (List.mem_cons.not.mp hline)
      by_cases hc : c = '"'
      · subst hc
        rw [keepsQuotes_cons (by decide)] at hquotes
        by_cases hnext : cs.head? = some '"'
        · -- The first quote closes a string in the hole, and the second one opens another.
          obtain ⟨cs, rfl⟩ : ∃ ds, cs = '"' :: ds := List.head?_eq_some_iff.mp hnext
          rw [keepsQuotes_cons (by decide)] at hquotes
          rw [stringReach, if_pos rfl] at h
          obtain ⟨-, hlines⟩ := not_or.mp (List.mem_cons.not.mp hlines)
          rw [List.cons_append, List.cons_append, interpolatedReach, interpolatedReach,
            ih _ (Nat.lt_succ_of_lt (Nat.lt_succ_self _)) (Reach.after_length h) hlines hquotes rfl,
            Reach.after_after, Reach.after_after, Nat.add_comm]
          rfl
        · rw [stringReach_quote fun _ => hnext] at h
          obtain rfl : cs = [] := by simpa using h
          rfl
      · rw [stringReach_verbatim hc] at h
        have hcs := Reach.after_length h
        by_cases hback : c = '\\'
        · -- The backslash takes the next character along, which is no quote.
          subst hback
          obtain ⟨e, es, rfl⟩ := stringReach_ne_nil hcs
          obtain ⟨he, hquotes⟩ := Bool.and_eq_true_iff.mp hquotes
          obtain ⟨-, hlines⟩ := not_or.mp (List.mem_cons.not.mp hlines)
          rw [stringReach_verbatim (by simpa using he)] at hcs
          rw [List.cons_append, List.cons_append, interpolatedReach,
            ih _ (Nat.lt_succ_of_lt (Nat.lt_succ_self _)) (Reach.after_length hcs) hlines hquotes rfl,
            Reach.after_after, Nat.add_comm]
          rfl
        · rw [keepsQuotes_cons hback] at hquotes
          rw [List.cons_append, interpolatedReach_quoted_cons hc (Ne.symm hend) hback,
            ih _ (Nat.lt_succ_self _) hcs hlines hquotes rfl, Reach.after_after, Nat.add_comm]
          rfl

theorem passes_verbatim (h : stringReach true cs = ⟨cs.length, true⟩) (hline : '\n' ∉ cs)
    (hquotes : keepsQuotes cs = true) (d : Nat) : Passes d ('"' :: cs) d := by
  intro rest
  rw [List.cons_append, interpolatedReach, interpolatedReach_verbatim h hline hquotes,
    Reach.after_after, Nat.add_comm]
  rfl

end Lexer

/-! ## Tokens in a hole -/

/-- May a token of the kind stand in a hole?  White space, words, numbers, marks, strings and
character literals may. -/
def Kind.standsInHole (k : Kind) : Bool :=
  k == .whitespace || !(k.isTrivia || k == .interpolatedStringLiteral || k == .error)

open Lexer (Passes isInert isGuarded keepsQuotes)

namespace Token

variable {lineStart : Bool} {t : Token} {ts : List Token} {rest : List Char} {d e : Nat}

/-- The number of open braces behind the token, if it closes none that is not open. -/
def bracesBehind (depth : Nat) (t : Token) : Option Nat :=
  match t.kind with
  | .lBrace => some (depth + 1)
  | .rBrace => if depth = 0 then none else some (depth - 1)
  | _ => some depth

/-- Does the search for the end of a hole read the token as the lexer does? -/
def isPlainInHole (t : Token) : Bool :=
  match t.kind with
  | .charLiteral => isGuarded t.text.toList
  | .stringLiteral => t.text.toList.head? != some '@' || keepsQuotes (t.text.toList.drop 2)
  | _ => true

/-- The kinds of a sort are no braces if braces are not of the sort. -/
theorem ne_brace_of_sort {p : Kind → Bool} (hk : p t.kind = true)
    (hp : p .lBrace = false ∧ p .rBrace = false) : t.kind ≠ .lBrace ∧ t.kind ≠ .rBrace := by
  constructor
  · intro hbrace
    rw [hbrace, hp.1] at hk
    cases hk
  · intro hbrace
    rw [hbrace, hp.2] at hk
    cases hk

theorem bracesBehind_of_ne (h : t.kind ≠ .lBrace ∧ t.kind ≠ .rBrace) :
    t.bracesBehind d = some d := by
  unfold bracesBehind
  split
  · rename_i hk
    exact absurd hk h.1
  · rename_i hk
    exact absurd hk h.2
  · rfl

/-- A token that opens and closes nothing is passed if all its characters are inert. -/
theorem passes_of_inert (hk : t.kind ≠ .lBrace ∧ t.kind ≠ .rBrace)
    (h : ∀ c ∈ t.text.toList, isInert c = true) (he : t.bracesBehind d = some e) :
    Passes d t.text.toList e := by
  rw [bracesBehind_of_ne hk] at he
  obtain rfl : d = e := Option.some.inj he
  exact Lexer.passes_of_isGuarded (Lexer.isGuarded_of_forall h) d

/-- The search passes a mark and counts the braces. -/
theorem passes_mark (h : (t.text, t.kind) ∈ Kind.marks) (he : t.bracesBehind d = some e) :
    Passes d t.text.toList e := by
  have hall : ∀ m ∈ Kind.marks, m = ("\x7b", .lBrace) ∨ m = ("\x7d", .rBrace) ∨
      ((m.2 ≠ .lBrace ∧ m.2 ≠ .rBrace) ∧ m.1.toList.all isInert = true) := by
    decide
  obtain ⟨k, text⟩ := t
  rcases hall _ h with hm | hm | ⟨hk, hinert⟩
  · obtain ⟨rfl, rfl⟩ := Prod.mk.inj hm
    obtain rfl : d + 1 = e := Option.some.inj he
    exact Lexer.passes_open d
  · obtain ⟨rfl, rfl⟩ := Prod.mk.inj hm
    cases d with
    | zero => cases he
    | succ d =>
      obtain rfl : d = e := Option.some.inj he
      exact Lexer.passes_close d
  · exact passes_of_inert hk (List.all_eq_true.mp hinert) he

/-- **The search passes a token** as the lexer cuts it. -/
theorem Cut.passes (h : t.Cut lineStart rest) (hk : t.kind.standsInHole = true)
    (hplain : t.isPlainInHole = true) (hline : '\n' ∉ t.text.toList)
    (he : t.bracesBehind d = some e) : Passes d t.text.toList e := by
  obtain ⟨c, cs, htext, hcuts⟩ := h.alone
  rw [List.append_nil] at hcuts
  have hinert := passes_of_inert (t := t) (d := d) (e := e)
  unfold isPlainInHole at hplain
  rw [htext] at hline hinert hplain ⊢
  have hsame (hk : t.kind ≠ .lBrace ∧ t.kind ≠ .rBrace) : d = e :=
    Option.some.inj ((bracesBehind_of_ne hk).symm.trans he)
  cases hcuts with
  | blank first kind more =>
    have hblanks : ∀ a ∈ c :: cs, isBlank a = true :=
      List.forall_mem_cons.mpr ⟨first, Lexer.forall_of_runLength more⟩
    exact hinert (by simp [kind]) (fun a ha => Lexer.isInert_of_sort (hblanks a ha) (by decide)) he
  | lineComment first second kind more =>
    rw [kind, Lexer.lineCommentKind_eq] at hk
    split at hk <;> cases hk
  | directive first start kind more =>
    rw [kind] at hk
    cases hk
  | blockComment first body reach kind more =>
    rw [kind] at hk
    cases hk
  | string first reach kind =>
    obtain rfl := hsame (by simp [kind])
    rw [first]
    exact Lexer.passes_string reach d
  | character first reach kind =>
    obtain rfl := hsame (by simp [kind])
    rw [kind] at hplain
    exact Lexer.passes_of_isGuarded hplain d
  | @verbatim es m first body reach kind more =>
    obtain rfl := hsame (by simp [kind])
    subst first body
    rw [kind] at hplain
    obtain rfl : m = es.length := by
      rw [List.length_cons] at more
      omega
    have hlines : '\n' ∉ es := by
      simp only [List.mem_cons, not_or] at hline
      exact hline.2.2
    exact (Lexer.passes_of_isInert (c := '@') (by decide) d).append
      (Lexer.passes_verbatim reach hlines hplain d)
  | interpolated first body reach kind more =>
    rw [kind] at hk
    cases hk
  | verbatimInterpolated first body reach kind more =>
    rw [kind] at hk
    cases hk
  | verbatimName first second kind more =>
    refine hinert (by simp [kind]) (List.forall_mem_cons.mpr ⟨?_, fun a ha => ?_⟩) he
    · rw [first]
      decide
    · exact Lexer.isInert_of_sort (Lexer.forall_of_runLength more a ha) (by decide)
  | word first kind more =>
    have hword := @Lexer.isWord_of_word (String.ofList (c :: cs.take cs.length))
    rw [← kind] at hword
    have hparts : ∀ a ∈ c :: cs, isIdentifierContinue a = true :=
      List.forall_mem_cons.mpr
        ⟨isIdentifierContinue_of_isIdentifierStart first, Lexer.forall_of_runLength more⟩
    exact hinert (ne_brace_of_sort hword (by decide))
      (fun a ha => Lexer.isInert_of_sort (hparts a ha) (by decide)) he
  | number first reading =>
    have hfirst : Mode.isNumberPart c = true := by
      rcases first with hdigit | ⟨rfl, -⟩
      · exact Mode.isNumberPart_of_isDigit hdigit
      · decide
    have hmore := Mode.holdsFor_number c cs
    rw [reading, Mode.HoldsFor, List.take_length] at hmore
    have hparts : ∀ a ∈ c :: cs, Mode.isNumberPart a = true :=
      List.forall_mem_cons.mpr ⟨hfirst, hmore⟩
    exact hinert (ne_brace_of_sort (Lexer.isNumber_of_reading reading) (by decide))
      (fun a ha => Lexer.isInert_of_sort (hparts a ha) (by decide)) he
  | mark slash point reading =>
    have hmark := @Lexer.markReading_ok c cs t.kind (by rw [reading])
    rw [reading, List.take_length, ← htext, String.ofList_toList] at hmark
    exact htext ▸ passes_mark hmark he

/-- The search passes the tokens of a hole, one after the other. -/
theorem Lexes.passes (h : Lexes lineStart ts rest) (hk : ∀ t ∈ ts, t.kind.standsInHole = true)
    (hplain : ∀ t ∈ ts, t.isPlainInHole = true) (hline : '\n' ∉ charsOf ts)
    (he : ts.foldlM bracesBehind d = some e) : Passes d (charsOf ts) e := by
  induction ts generalizing lineStart d with
  | nil =>
    obtain rfl : d = e := Option.some.inj he
    exact Lexer.passes_nil d
  | cons t ts ih =>
    obtain ⟨hcut, hlexes⟩ := h
    obtain ⟨hk, hks⟩ := List.forall_mem_cons.mp hk
    obtain ⟨hplain, hplains⟩ := List.forall_mem_cons.mp hplain
    rw [charsOf_cons] at hline ⊢
    obtain ⟨hline, hlines⟩ := not_or.mp (List.mem_append.not.mp hline)
    rw [List.foldlM_cons] at he
    obtain ⟨f, hf, he⟩ := Option.bind_eq_some_iff.mp he
    exact (hcut.passes hk hplain hline hf).append (ih hlexes hks hplains hlines he)

end Token

/-- A text of one line that may stand in a hole: the lexer finds no fault in it, cuts it into tokens
that may stand there and finds the braces balanced, and white space keeps it apart from the braces
of the hole. -/
structure IsHole (hole : String) : Prop where
  unfaulted : lexicalFaults hole = []
  tokens : ∀ t ∈ lexed hole, t.kind.standsInHole = true
  balanced : (lexed hole).foldlM Token.bracesBehind 0 = some 0
  oneLine : '\n' ∉ hole.toList
  first : hole.toList.head? = some ' '
  last : hole.toList.getLast? = some ' '

/-- The interpolated string that holds a hole and no other text. -/
def interpolated (hole : String) : String := "$\"\x7b" ++ hole ++ "\x7d\""

theorem toList_interpolated (hole : String) :
    (interpolated hole).toList = '$' :: '"' :: '{' :: (hole.toList ++ ['}', '"']) := by
  simp [interpolated]

/-- The search comes to the end of the string if it passes the hole and finds its braces balanced.
-/
theorem Lexer.Passes.interpolatedReach {cs : List Char} (h : Passes 0 cs 0)
    (hfirst : cs.head? = some ' ') : Lexer.interpolatedReach false (.text 0)
      ('{' :: (cs ++ ['}', '"'])) = ⟨cs.length + 3, true⟩ := by
  obtain ⟨ds, rfl⟩ := List.head?_eq_some_iff.mp hfirst
  have hopen : Lexer.interpolatedReach false (.text 0) ('{' :: (' ' :: ds ++ ['}', '"'])) =
      (Lexer.interpolatedReach false (.text 1) (' ' :: ds ++ ['}', '"'])).after 1 := rfl
  rw [hopen, h, Reach.after_after, Nat.add_comm]
  rfl

/-- **A hole is read as its tokens say.**  If the search reads each token of the hole as the lexer
does, then the interpolated string around the hole is one token. -/
theorem interpolated_hole {hole : String} (h : IsHole hole)
    (hplain : ∀ t ∈ lexed hole, t.isPlainInHole = true) :
    lex (interpolated hole) = [⟨.interpolatedStringLiteral, interpolated hole⟩, .endOfText] ∧
      lexicalFaults (interpolated hole) = [] := by
  have hpasses : Passes 0 (Token.charsOf (lexed hole)) 0 :=
    (Token.lexes_lexed h.unfaulted).passes h.tokens hplain
      (by rw [Token.charsOf, textOf_lexed]; exact h.oneLine) h.balanced
  rw [Token.charsOf, textOf_lexed] at hpasses
  have hcut : (⟨.interpolatedStringLiteral, interpolated hole⟩ : Token).Cut true [] := by
    refine ⟨_, _, toList_interpolated hole, ?_⟩
    rw [List.append_nil]
    refine .interpolated rfl rfl (hpasses.interpolatedReach h.first) rfl ?_
    simp only [List.length_cons, List.length_append, List.length_nil]
    omega
  have hlexes := Token.lexes_singleton.mpr hcut
  have htext : Token.textOf [⟨.interpolatedStringLiteral, interpolated hole⟩] =
      interpolated hole := by
    simp [Token.textOf]
  refine ⟨?_, htext ▸ Token.lexicalFaults_of_lexes hlexes⟩
  have hlexed := Token.lexed_of_lexes hlexes
  rw [htext] at hlexed
  rw [show lex (interpolated hole) = lexed (interpolated hole) ++ [.endOfText] from rfl, hlexed]
  rfl

/-- Braces, a regular and a verbatim string, and a character literal with a quote that stands
behind a backslash. -/
theorem interpolated_hole_strings :
    lex (interpolated " new \x7b a[0x1], \"\x7d\\\"\", @\"\x7b\"\"\", '\\\"' \x7d ") =
        [⟨.interpolatedStringLiteral,
          interpolated " new \x7b a[0x1], \"\x7d\\\"\", @\"\x7b\"\"\", '\\\"' \x7d "⟩, .endOfText] ∧
      lexicalFaults (interpolated " new \x7b a[0x1], \"\x7d\\\"\", @\"\x7b\"\"\", '\\\"' \x7d ") =
        [] := by
  refine interpolated_hole ⟨?_, ?_, ?_, ?_, ?_, ?_⟩ ?_
  all_goals decide +kernel

/-- The quote of a character literal opens a string for the search, which then finds no end.  The
lexer reads the same characters as a literal. -/
theorem not_interpolated_hole_character :
    IsHole " '\"' " ∧
      lex (interpolated " '\"' ") = [⟨.error, interpolated " '\"' "⟩, .endOfText] ∧
      lexicalFaults (interpolated " '\"' ") =
        [⟨.lexical .unterminatedInterpolatedString, ⟨0, 10⟩⟩] := by
  refine ⟨⟨?_, ?_, ?_, ?_, ?_, ?_⟩, ?_, ?_⟩
  all_goals decide +kernel

end LivePatch
