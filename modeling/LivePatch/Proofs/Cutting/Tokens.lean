import LivePatch.Proofs.Cutting.Bounds
import LivePatch.Proofs.Synthesized

/-!
# Lists of tokens as the lexer cuts them

A list of tokens `Lexes` in front of a text if the lexer, started at its front, cuts off one token
of the list after the other.  The tokens of a text without lexical faults do, and a list that does
up to the end of the text is what the text is cut into (`lexed_of_lexes`).  So to know what a text
that was put together from tokens is cut into, it is enough to look at each token and what stands
behind it.
-/

namespace LivePatch

open Lexer (Cuts Similar JoinsNumber lineStartAfter piecesFrom)

namespace Token

/-- The characters of the tokens. -/
def charsOf (ts : List Token) : List Char := (textOf ts).toList

@[simp] theorem charsOf_nil : charsOf [] = [] := rfl

@[simp] theorem charsOf_cons (t : Token) (ts : List Token) :
    charsOf (t :: ts) = t.text.toList ++ charsOf ts := by
  simp [charsOf]

@[simp] theorem charsOf_append (ts us : List Token) :
    charsOf (ts ++ us) = charsOf ts ++ charsOf us := by
  simp [charsOf]

/-- The lexer cuts the token in front of `rest`. -/
def Cut (lineStart : Bool) (t : Token) (rest : List Char) : Prop :=
  ∃ c cs, t.text.toList = c :: cs ∧ Cuts lineStart c (cs ++ rest) t.kind cs.length

/-- Is only white space on the line in front of what follows the tokens? -/
def lineStartOf (lineStart : Bool) (ts : List Token) : Bool :=
  ts.foldl (fun b t => lineStartAfter b (.ok t.kind) t.text.toList) lineStart

/-- The lexer cuts one of the tokens after the other, with `rest` behind the last of them. -/
def Lexes : Bool → List Token → List Char → Prop
  | _, [], _ => True
  | lineStart, t :: ts, rest =>
    t.Cut lineStart (charsOf ts ++ rest) ∧ Lexes (lineStartOf lineStart [t]) ts rest

variable {lineStart lineStart' : Bool} {t w : Token} {ts us : List Token} {rest rest' : List Char}

theorem lineStartOf_append (lineStart : Bool) (ts us : List Token) :
    lineStartOf lineStart (ts ++ us) = lineStartOf (lineStartOf lineStart ts) us :=
  List.foldl_append

theorem lineStartOf_concat (ts : List Token) (h : t.kind ≠ .whitespace) :
    lineStartOf lineStart (ts ++ [t]) = false := by
  rw [lineStartOf_append]
  exact Mode.lineStartAfter_eq_false fun hk => h (Except.ok.inj hk)

theorem lexes_append : Lexes lineStart (ts ++ us) rest ↔
    Lexes lineStart ts (charsOf us ++ rest) ∧ Lexes (lineStartOf lineStart ts) us rest := by
  induction ts generalizing lineStart with
  | nil => simp [Lexes, lineStartOf]
  | cons t ts ih =>
    rw [List.cons_append, Lexes, Lexes, ih, charsOf_append, List.append_assoc, and_assoc,
      ← lineStartOf_append, List.singleton_append]

theorem lexes_singleton : Lexes lineStart [t] rest ↔ t.Cut lineStart rest := by
  simp [Lexes]

theorem Lexes.exists_cut (h : Lexes lineStart ts rest) (ht : t ∈ ts) :
    ∃ lineStart' rest', t.Cut lineStart' rest' := by
  obtain ⟨front, back, rfl⟩ := List.append_of_mem ht
  exact ⟨_, _, (lexes_append.mp h).2.1⟩

/-! ## What a text is cut into -/

/-- The pieces that the tokens are, and behind them those of the rest. -/
theorem piecesFrom_append (h : Lexes lineStart ts rest) :
    piecesFrom lineStart 0 (charsOf ts ++ rest) =
      ts.map (fun t => ⟨.ok t.kind, t.text⟩) ++ piecesFrom (lineStartOf lineStart ts) 0 rest := by
  induction ts generalizing lineStart with
  | nil => rfl
  | cons t ts ih =>
    obtain ⟨⟨c, cs, htext, hcuts⟩, hrest⟩ := h
    rw [charsOf_cons, htext, List.append_assoc, List.cons_append, piecesFrom, hcuts.read_eq,
      Mode.piecesFrom_skip, List.take_left, List.drop_left, List.map_cons, List.cons_append,
      ← htext, String.ofList_toList]
    exact congrArg _ (ih hrest)

theorem piecesFrom_of_lexes (h : Lexes lineStart ts []) :
    piecesFrom lineStart 0 (charsOf ts) = ts.map fun t => ⟨.ok t.kind, t.text⟩ := by
  have happend := piecesFrom_append h
  rwa [List.append_nil, piecesFrom, List.append_nil] at happend

theorem lexed_of_lexes (h : Lexes true ts []) : lexed (textOf ts) = ts := by
  have hpieces : Lexer.pieces (textOf ts) = _ := piecesFrom_of_lexes h
  rw [lexed, hpieces, List.map_map]
  exact List.map_id ts

/-- There are no faults where every piece is a token. -/
theorem faultsFrom_eq_nil_iff {ls : List Lexer.Lexeme} {start : Nat} :
    Lexer.faultsFrom start ls = [] ↔ ∀ l ∈ ls, ∃ k, l.outcome = .ok k := by
  induction ls generalizing start with
  | nil => simp [Lexer.faultsFrom]
  | cons l ls ih =>
    rw [Lexer.faultsFrom, List.forall_mem_cons]
    cases hl : l.outcome with
    | error fault => simp
    | ok k => simpa using ih

theorem lexicalFaults_of_lexes (h : Lexes true ts []) : lexicalFaults (textOf ts) = [] := by
  have hpieces : Lexer.pieces (textOf ts) = _ := piecesFrom_of_lexes h
  rw [lexicalFaults, hpieces, faultsFrom_eq_nil_iff]
  simp

/-- The pieces of a text, by induction on how much of it is left. -/
theorem lexes_map_token {cs : List Char}
    (h : ∀ l ∈ piecesFrom lineStart 0 cs, ∃ k, l.outcome = .ok k) :
    Lexes lineStart ((piecesFrom lineStart 0 cs).map Lexer.Lexeme.token) [] ∧
      charsOf ((piecesFrom lineStart 0 cs).map Lexer.Lexeme.token) = cs := by
  induction hn : cs.length using Nat.strongRecOn generalizing lineStart cs with
  | _ n ih =>
    subst hn
    cases cs with
    | nil => exact ⟨trivial, rfl⟩
    | cons c cs =>
      rw [piecesFrom, Mode.piecesFrom_skip] at h ⊢
      obtain ⟨⟨k, hk⟩, hrest⟩ := List.forall_mem_cons.mp h
      generalize hread : Lexer.read lineStart c cs = r at hk hrest
      obtain ⟨outcome, n⟩ := r
      obtain rfl : outcome = .ok k := hk
      have hcuts := Lexer.cuts_of_read hread
      have hle := hcuts.le_length
      obtain ⟨hlexes, hchars⟩ := ih (cs.drop n).length
        (by rw [List.length_drop, List.length_cons]; omega) hrest rfl
      have htext : (String.ofList (c :: cs.take n)).toList = c :: cs.take n :=
        String.toList_ofList
      rw [List.map_cons]
      refine ⟨⟨⟨c, cs.take n, htext, ?_⟩, ?_⟩, ?_⟩
      · rw [hchars, List.append_nil, List.take_append_drop, List.length_take, Nat.min_eq_left hle]
        exact hcuts
      · show Lexes (lineStartAfter lineStart (.ok k) (String.ofList (c :: cs.take n)).toList) _ _
        rw [htext]
        exact hlexes
      · rw [charsOf_cons, hchars]
        show (String.ofList (c :: cs.take n)).toList ++ _ = _
        rw [htext, List.cons_append, List.take_append_drop]

/-- **The tokens of a text without lexical faults** are cut one after the other. -/
theorem lexes_lexed {source : String} (h : lexicalFaults source = []) :
    Lexes true (lexed source) [] :=
  (lexes_map_token (faultsFrom_eq_nil_iff.mp h)).1

/-! ## Tokens in front of other texts -/

theorem Cut.ne_empty (h : t.Cut lineStart rest) : t.text ≠ "" := by
  obtain ⟨c, cs, htext, -⟩ := h
  intro hempty
  rw [hempty] at htext
  cases htext

theorem Cut.of_similar (h : t.Cut lineStart rest) (hs : Similar 3 rest rest')
    (hword : t.kind.isWord = true → rest'.head?.any isIdentifierContinue = false)
    (hnumber : t.kind.isNumber = true → JoinsNumber rest rest') : t.Cut lineStart rest' := by
  obtain ⟨c, cs, htext, hcuts⟩ := h
  exact ⟨c, cs, htext, hcuts.of_similar hs hword hnumber⟩

/-- With three characters behind it, a token has seen all that it will see. -/
theorem Cut.append_right (h : t.Cut lineStart rest) (hlen : 3 ≤ rest.length) (more : List Char) :
    t.Cut lineStart (rest ++ more) := by
  obtain ⟨c, cs, rfl⟩ := List.exists_cons_of_length_pos (Nat.lt_of_lt_of_le (by decide) hlen)
  refine h.of_similar (.append_right hlen more) (fun hk => ?_) fun _ => ?_
  · obtain ⟨a, as, -, hcuts⟩ := h
    exact hcuts.next_of_isWord hk
  · exact .cons c (.append_right (Nat.le_of_succ_le_succ hlen) more)

/-- Only a directive asks whether it begins its line. -/
theorem Cut.of_lineStart (h : t.Cut lineStart rest) (hk : t.kind ≠ .preprocessorDirective) :
    t.Cut lineStart' rest := by
  obtain ⟨c, cs, htext, hcuts⟩ := h
  exact ⟨c, cs, htext, hcuts.of_lineStart hk⟩

/-- What the lexer cuts first. -/
theorem cut_of_head? {text : String} (hne : t.text ≠ "") (hk : t.kind ≠ .error)
    (h : (lex (t.text ++ text)).head? = some t) : t.Cut true text.toList := by
  obtain ⟨c, cs, htext⟩ := List.exists_cons_of_ne_nil (mt String.toList_eq_nil_iff.mp hne)
  have hchars : (t.text ++ text).toList = c :: (cs ++ text.toList) := by
    rw [String.toList_append, htext, List.cons_append]
  rw [lex, Lexer.pieces, hchars, piecesFrom, List.map_cons, List.cons_append, List.head?_cons] at h
  generalize hread : Lexer.read true c (cs ++ text.toList) = r at h
  obtain ⟨outcome, n⟩ := r
  have htoken := Option.some.inj h
  cases outcome with
  | error fault =>
    rw [← htoken] at hk
    exact absurd rfl hk
  | ok k =>
    have hcuts := Lexer.cuts_of_read hread
    have hkind : k = t.kind := congrArg Token.kind htoken
    have hpiece : c :: (cs ++ text.toList).take n = c :: cs := by
      rw [← htext, ← htoken]
      exact String.toList_ofList.symm
    have hlen : n = cs.length := by
      have := congrArg List.length (List.cons.inj hpiece).2
      rw [List.length_take, Nat.min_eq_left hcuts.le_length] at this
      exact this
    subst hkind hlen
    exact ⟨c, cs, htext, hcuts⟩

end Token

end LivePatch
