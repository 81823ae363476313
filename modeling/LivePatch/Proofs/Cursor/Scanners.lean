import LivePatch.Proofs.Cursor.Moves
import Mathlib.Data.List.Find
import Mathlib.Data.List.TakeWhile

/-!
# Scanners that may note a fault

What the cursor does behind the opening of a comment, string or character, in a number and at a
mark is described by a reading of the lexer (`Cursor.Ends`): the scanner takes as many characters as
the reading says, answers its kind, and notes a fault if and only if the reading is one.
-/

namespace LivePatch

/-- The kind of the token of a piece. -/
def Lexer.kindOf : Except LexicalFault Kind → Kind
  | .ok kind => kind
  | .error _ => .error

theorem Lexer.Lexeme.token_eq (l : Lexer.Lexeme) : l.token = ⟨Lexer.kindOf l.outcome, l.text⟩ := by
  obtain ⟨outcome, text⟩ := l
  cases outcome <;> rfl

namespace Cursor

open Lexer

variable {α : Type} {cs : List Char} {c : Char} {r : Reading}

/-! ## Kinds and faults -/

/-- The cursor with the fault noted, if the outcome is one, that reaches from `start` to it. -/
def noted (s : Cursor) (start : Nat) : Except LexicalFault Kind → Cursor
  | .ok _ => s
  | .error what => { s with faults := s.faults ++ [⟨.lexical what, ⟨start, s.pos⟩⟩] }

/-- With `cs` ahead, `m` takes what the reading `r` says and notes a fault if and only if it is
one. -/
def Ends (m : Nat → Move Kind) (cs : List Char) (r : Reading) : Prop :=
  ∀ (s : Cursor) (start : Nat), s.At cs →
    m start s = some (kindOf r.outcome, (s.past (cs.take r.more)).noted start r.outcome)

theorem Takes.ends {m : Move Kind} {k : Kind} {n : Nat} (h : Takes m cs k n) :
    Ends (fun _ => m) cs ⟨.ok k, n⟩ :=
  fun s _ hs => h s hs

theorem Ends.bump {m : Nat → Move Kind} (h : Ends m cs r) :
    Ends (fun start => Cursor.bump >>= fun _ => m start) (c :: cs) ⟨r.outcome, 1 + r.more⟩ := by
  intro s start hs
  show (Cursor.bump s).bind (fun p => m start p.2) = _
  rw [takes_bump_cons c cs s hs, Option.bind_some, h _ _ (hs.take 1), past_append,
    List.take_add, List.drop_one, List.tail_cons]

theorem Reaches.ends {scan : Move Bool} {reach : Reach} (h : Reaches scan cs reach) (k : Kind)
    (what : LexicalFault) :
    Ends (fun start => scan >>= fun closed =>
        if closed then pure k else fault start what >>= fun _ => pure .error) cs
      (reach.reading 0 k what) := by
  intro s start hs
  show (scan s).bind _ = _
  rw [h s hs, Option.bind_some, Reach.reading, Nat.zero_add]
  cases reach.closed <;> rfl

theorem ends_stringBody (verbatim : Bool) (cs : List Char) :
    Ends (stringBody · verbatim) cs
      ((stringReach verbatim cs).reading 0 .stringLiteral .unterminatedString) :=
  (reaches_scanString verbatim cs).ends _ _

theorem ends_characterLiteral (cs : List Char) :
    Ends characterLiteral cs ((characterReach cs).reading 0 .charLiteral .unterminatedCharacter) :=
  (reaches_scanCharacter cs).ends _ _

theorem ends_interpolatedBody (verbatim : Bool) (cs : List Char) :
    Ends (interpolatedBody · verbatim) cs ((interpolatedReach verbatim (.text 0) cs).reading 0
      .interpolatedStringLiteral .unterminatedInterpolatedString) :=
  (reaches_interpolation verbatim (.text 0) cs).ends _ _

/-! ## Searches -/

theorem run_ahead {s : Cursor} (h : s.At cs) (f : List Char → Move α) :
    (ahead >>= f) s = f cs s := by
  show (ahead s).bind (fun p => f p.1 p.2) = _
  rw [h.ahead, Option.bind_some]

theorem find?_head (p : Char → Bool) (cs : List Char) :
    find? (fun ds => ds.head?.any p) cs =
      if cs.any p then some (byteLength (cs.takeWhile (!p ·))) else none := by
  induction cs with
  | nil => rfl
  | cons c cs ih =>
    rw [find?, ih]
    by_cases hc : p c = true
    · simp [hc, byteLength]
    · by_cases hcs : cs.any p = true
      · simp [hc, hcs, byteLength]
      · simp [hc, hcs]

theorem takes_skipToLineEnd (cs : List Char) : Takes skipToLineEnd cs () (restOfLine cs) := by
  intro s hs
  have hline : (fun c => !(c == '\n' || c == '\r')) = fun c => c != '\n' && c != '\r' := by
    funext c
    exact Bool.not_or _ _
  rw [skipToLineEnd, run_ahead hs, find?_head, hline, restOfLine, take_runLength]
  by_cases hend : cs.any (fun c => c == '\n' || c == '\r') = true
  · rw [if_pos hend]
    rfl
  · rw [if_neg hend]
    have hall : cs.takeWhile (fun c => c != '\n' && c != '\r') = cs := by
      refine List.takeWhile_eq_self_iff.mpr fun c hc => ?_
      rw [← congrFun hline c, Bool.not_eq_true']
      exact Bool.eq_false_iff.mpr fun h => hend (List.any_eq_true.mpr ⟨c, hc, h⟩)
    rw [hall]
    exact congrArg (fun t => some ((), t)) hs.end_eq

/-- The search for the end of a comment finds it where the reach of the comment does. -/
theorem find?_close (cs : List Char) :
    match find? ("*/".toList.isPrefixOf ·) cs with
    | some bytes => (blockCommentReach cs).closed = true ∧
        byteLength (cs.take (blockCommentReach cs).length) = bytes + 2
    | none => (blockCommentReach cs).closed = false ∧
        (blockCommentReach cs).length = cs.length := by
  fun_induction blockCommentReach cs with
  | case1 cs => exact ⟨rfl, rfl⟩
  | case2 c cs hne ih =>
    have hfront : "*/".toList.isPrefixOf (c :: cs) = false := by
      refine Bool.eq_false_iff.mpr fun h => ?_
      obtain ⟨rest, hrest⟩ := List.isPrefixOf_iff_prefix.mp h
      obtain ⟨hc, hcs⟩ := List.cons.inj hrest
      exact hne rest hc.symm hcs.symm
    rw [find?, hfront, if_neg Bool.false_ne_true]
    cases hfind : find? ("*/".toList.isPrefixOf ·) cs with
    | none =>
      rw [hfind] at ih
      exact ⟨ih.1, by simp [Reach.after, ih.2, Nat.add_comm]⟩
    | some bytes =>
      rw [hfind] at ih
      refine ⟨ih.1, ?_⟩
      show byteLength ((c :: cs).take (1 + _)) = _
      rw [Nat.add_comm, List.take_succ_cons, byteLength, ih.2, Nat.add_assoc]
  | case3 => exact ⟨rfl, rfl⟩

theorem ends_blockComment (cs : List Char) :
    Ends blockComment cs
      ((blockCommentReach cs).reading 0 .blockComment .unterminatedBlockComment) := by
  intro s start hs
  have hclose := find?_close cs
  rw [blockComment, run_ahead hs, Reach.reading, Nat.zero_add]
  cases hfind : find? ("*/".toList.isPrefixOf ·) cs with
  | some bytes =>
    rw [hfind] at hclose
    obtain ⟨hclosed, hlength⟩ := hclose
    rw [hclosed, past, hlength]
    rfl
  | none =>
    rw [hfind] at hclose
    obtain ⟨hclosed, hlength⟩ := hclose
    rw [hclosed, hlength, List.take_length, ← hs.end_eq]
    rfl

/-! ## Numbers -/

theorem takes_eatSuffixLetter (cs : List Char) :
    Takes eatSuffixLetter cs () (runLength isIntegerSuffix (cs.take 1)) := by
  refine (takes_peek cs).look ?_
  cases cs with
  | nil => exact takes_pure _ _
  | cons c cs =>
    rw [List.head?_cons, Option.any_some, List.take_succ_cons, List.take_zero, runLength_cons]
    split
    · exact .bump (f := fun _ => pure ()) (takes_pure _ _)
    · exact takes_pure _ _

theorem takes_eatIntegerSuffix (cs : List Char) :
    Takes eatIntegerSuffix cs () (integerSuffixLength cs) := by
  have h := (takes_eatSuffixLetter cs).bind (f := fun _ => eatSuffixLetter)
    (takes_eatSuffixLetter _)
  have hlength : runLength isIntegerSuffix (cs.take 1) + runLength isIntegerSuffix
      ((cs.drop (runLength isIntegerSuffix (cs.take 1))).take 1) = integerSuffixLength cs := by
    rw [integerSuffixLength]
    rcases cs with _ | ⟨c, _ | ⟨d, cs⟩⟩
    · rfl
    · by_cases hc : isIntegerSuffix c = true <;> simp [runLength, hc]
    · by_cases hc : isIntegerSuffix c = true <;> simp [runLength, hc, Nat.add_comm]
  rwa [hlength] at h

/-- Digits are taken as far as they go, so that there are none behind them. -/
theorem runLength_drop_runLength (p : Char → Bool) (cs : List Char) :
    runLength p (cs.drop (runLength p cs)) = 0 := by
  induction cs with
  | nil => rfl
  | cons c cs ih =>
    rw [runLength_cons]
    split
    · exact ih
    · rename_i hc
      rw [List.drop_zero, runLength_cons, if_neg hc]

theorem takes_fraction (cs : List Char) :
    Takes fraction cs (0 < fractionLength cs) (fractionLength cs) := by
  refine (takes_peek _).look ((takes_peekNth 1 _).look ?_)
  match cs with
  | [] => exact takes_pure _ _
  | [c] => simpa [fractionLength] using takes_pure false [c]
  | c :: d :: ds =>
    by_cases hc : c = '.'
    · by_cases hd : d.isDigit = true
      · have hmore := (takes_eatWhile isDigitPart (d :: ds)).bind (f := fun _ => pure true)
          (takes_pure _ _)
        have hpos : 0 < 1 + runLength isDigitPart (d :: ds) := by omega
        simpa [fractionLength, hc, hd, hpos] using Takes.bump (c := c)
          (f := fun _ => eatWhile isDigitPart >>= fun _ => pure true) hmore
      · simpa [fractionLength, hc, hd] using takes_pure false (c :: d :: ds)
    · simpa [fractionLength, hc] using takes_pure false (c :: d :: ds)

theorem takes_digitsAndFraction (first : Char) (cs : List Char) :
    let whole := runLength isDigitPart cs
    let length := fractionAfter first (cs.drop whole)
    Takes (digitsAndFraction first) cs (first == '.' || 0 < length) (whole + length) := by
  intro whole length
  refine (takes_eatWhile isDigitPart cs).bind ?_
  by_cases hpoint : first = '.'
  · have hlength : length = 0 := by simp [length, fractionAfter, hpoint]
    have hmore := takes_eatWhile isDigitPart (cs.drop whole)
    rw [runLength_drop_runLength] at hmore
    simpa [hlength, hpoint] using hmore.bind (f := fun _ => pure true) (takes_pure _ _)
  · have hlength : length = fractionLength (cs.drop whole) := by
      simp [length, fractionAfter, hpoint]
    rw [hlength, beq_false_of_ne hpoint, Bool.false_or]
    exact takes_fraction (cs.drop whole)

/-- Behind an exponent's letter and sign stand its digits. -/
theorem takes_signedDigits_true (e s : Char) (ds : List Char) :
    Takes (signedDigits true) (e :: s :: ds) (ds.head?.any Char.isDigit)
      (if ds.head?.any Char.isDigit then 2 + runLength isDigitPart ds else 0) := by
  have hdigits := (takes_eatWhile isDigitPart ds).bind (f := fun _ => pure true) (takes_pure _ _)
  have hsign := Takes.bump (c := s) (f := fun _ => _) hdigits
  have hletter := Takes.bump (c := e) (f := fun _ => _) hsign
  rw [← Nat.add_assoc] at hletter
  refine (takes_peekNth 2 _).look ?_
  rw [show (e :: s :: ds)[2]? = ds.head? from List.head?_eq_getElem?.symm]
  split
  · rename_i hd
    rw [hd]
    exact hletter
  · rename_i hd
    rw [Bool.eq_false_iff.mpr hd]
    exact takes_pure _ _

theorem takes_signedDigits_false (e : Char) (ds : List Char) :
    Takes (signedDigits false) (e :: ds) (ds.head?.any Char.isDigit)
      (if ds.head?.any Char.isDigit then 1 + runLength isDigitPart ds else 0) := by
  have hdigits := (takes_eatWhile isDigitPart ds).bind (f := fun _ => pure true) (takes_pure _ _)
  have hletter := Takes.bump (c := e) (f := fun _ => _)
    ((takes_pure (none : Option Char) ds).look (f := fun _ => _) hdigits)
  refine (takes_peekNth 1 _).look ?_
  rw [show (e :: ds)[1]? = ds.head? from List.head?_eq_getElem?.symm]
  split
  · rename_i hd
    rw [hd]
    exact hletter
  · rename_i hd
    rw [Bool.eq_false_iff.mpr hd]
    exact takes_pure _ _

theorem decide_pos_ite {b : Bool} {n : Nat} (hn : 0 < n) :
    decide (0 < if b = true then n else 0) = b := by
  cases b <;> simp [hn]

theorem takes_exponent (cs : List Char) :
    Takes exponent cs (0 < exponentLength cs) (exponentLength cs) := by
  refine (takes_peek _).look ?_
  match cs with
  | [] => exact takes_pure _ _
  | [e] =>
    show Takes (if isExponent e then _ else _) _ _ _
    split
    · exact (takes_peekNth 1 _).look (takes_signedDigits_false e [])
    · exact takes_pure _ _
  | e :: s :: ds =>
    show Takes (if isExponent e then _ else _) _ _ _
    rw [exponentLength_cons_cons]
    split
    · refine (takes_peekNth 1 _).look ?_
      show Takes (signedDigits (isSignum s)) _ _ _
      by_cases hs : isSignum s = true
      · rw [hs, if_pos rfl]
        rw [decide_pos_ite (by omega)]
        exact takes_signedDigits_true e s ds
      · rw [Bool.eq_false_iff.mpr hs, if_neg Bool.false_ne_true]
        rw [decide_pos_ite (by omega)]
        exact takes_signedDigits_false e (s :: ds)
    · exact takes_pure _ _

theorem takes_numberSuffix (isReal : Bool) (cs : List Char) :
    Takes (numberSuffix isReal) cs
      (if isReal || 0 < runLength isRealSuffix (cs.take 1) then .realLiteral else .intLiteral)
      (endLength isReal cs) := by
  refine (takes_peek _).look ?_
  have hint := (takes_eatIntegerSuffix cs).bind (f := fun _ => pure Kind.intLiteral)
    (takes_pure _ _)
  have hreal := takes_pure Kind.realLiteral cs
  cases cs with
  | nil => cases isReal <;> simpa [endLength, runLength]
  | cons c cs =>
    by_cases hc : isRealSuffix c = true
    · simpa [endLength, runLength, hc] using
        Takes.bump (c := c) (f := fun _ => pure Kind.realLiteral) (takes_pure Kind.realLiteral cs)
    · cases isReal <;> simpa [endLength, runLength, hc]

theorem isBaseLetter_eq (c : Char) : isBaseLetter c = isRadix c := by
  rw [Bool.eq_iff_iff]
  simp [isBaseLetter, isRadix, or_assoc]

/-- The digits of a decimal number, its fraction and its exponent, and what stands at its end. -/
theorem takes_decimal (c : Char) (cs : List Char) :
    let whole := runLength isDigitPart cs
    let fraction := fractionAfter c (cs.drop whole)
    let exponent := exponentLength (cs.drop (whole + fraction))
    let body := whole + fraction + exponent
    let isReal := c == '.' || 0 < fraction || 0 < exponent
    Takes (do
        let hasFraction ← digitsAndFraction c
        let hasExponent ← Cursor.exponent
        numberSuffix (hasFraction || hasExponent)) cs
      (if isReal || 0 < runLength isRealSuffix ((cs.drop body).take 1) then .realLiteral
        else .intLiteral) (body + endLength isReal (cs.drop body)) := by
  intro whole fraction exponent body isReal
  have hend := takes_numberSuffix isReal (cs.drop body)
  have hexponent := takes_exponent (cs.drop (whole + fraction))
  rw [← List.drop_drop] at hend
  have h := (takes_digitsAndFraction c cs).bind
    (f := fun b => Cursor.exponent >>= fun d => numberSuffix (b || d))
    (hexponent.bind (f := fun d => _) hend)
  rwa [← Nat.add_assoc, List.drop_drop] at h

theorem ends_number (c : Char) (cs : List Char) :
    Ends (fun _ => number c) cs (numberReading c cs) := by
  have hbase : cs.head?.any isBaseLetter = cs.head?.any isRadix := by
    congr 1
    exact funext isBaseLetter_eq
  by_cases hradix : c = '0' ∧ cs.head?.any isRadix = true
  · obtain ⟨rfl, hany⟩ := hradix
    cases cs with
    | nil => cases hany
    | cons d ds =>
      have hdigits := (takes_eatWhile isHexPart ds).bind (f := fun _ => _)
        ((takes_eatIntegerSuffix _).bind (f := fun _ => _) (takes_pure Kind.intLiteral _))
      rw [numberReading_radix hany, Nat.add_assoc]
      refine Takes.ends ((takes_peek _).look ?_)
      rw [hbase, hany, if_pos (by rfl)]
      exact Takes.bump (f := fun _ => _) hdigits
  · rw [numberReading_decimal fun hc => Bool.eq_false_iff.mpr fun h => hradix ⟨hc, h⟩]
    refine Takes.ends ((takes_peek _).look ?_)
    rw [hbase, if_neg (by simpa using hradix)]
    exact takes_decimal c cs

/-! ## Punctuation -/

/-- Does the rest of a mark stand at the front of `cs`? -/
def fitsBehind (c : Char) (cs more : List Char) : Bool :=
  more.isPrefixOf cs && !(c == '?' && more == ['.'] && (cs.drop 1).head?.any Char.isDigit)

/-- The rest of a mark that starts with `c`. -/
def behindFirst (c : Char) (m : String × Kind) : Option (List Char × Kind) :=
  match m.1.toList with
  | [] => none
  | d :: more => if d == c then some (more, m.2) else none

/-- The marks that start with `c`, each without its first character. -/
def marksFrom (c : Char) : List (List Char × Kind) := Kind.marks.filterMap (behindFirst c)

theorem markFits_eq (c : Char) (cs : List Char) {m : String × Kind} (hm : m ∈ Kind.marks) :
    markFits m.1 (c :: cs) = (behindFirst c m).any (fun rest => fitsBehind c cs rest.1) := by
  have hnonempty : ∀ m ∈ Kind.marks, m.1.toList ≠ [] := by decide
  have hquestion : (m.1 == "?.") = (m.1.toList == ['?', '.']) := by
    rw [Bool.eq_iff_iff, beq_iff_eq, beq_iff_eq, ← String.toList_inj]
    rfl
  rw [markFits, behindFirst, hquestion]
  cases htext : m.1.toList with
  | nil => exact absurd htext (hnonempty m hm)
  | cons d more =>
    by_cases hd : d = c
    · subst hd
      by_cases hmore : d = '?' ∧ more = ['.']
      · obtain ⟨rfl, rfl⟩ := hmore
        simp [fitsBehind]
      · have hno : (d :: more == ['?', '.']) = false := by simpa using hmore
        have hno' : (d == '?' && more == ['.']) = false := by simpa using hmore
        simp only [hno, beq_self_eq_true, if_true, Option.any_some, fitsBehind, hno']
        simp
    · simp [hd]

theorem markReading_eq (c : Char) (cs : List Char) :
    markReading c cs = match (marksFrom c).find? (fun m => fitsBehind c cs m.1) with
      | some (more, k) => ⟨.ok k, more.length⟩
      | none => ⟨.error .unexpectedCharacter, 0⟩ := by
  rw [markReading, marksFrom, List.find?_filterMap,
    List.find?_congr fun m hm => markFits_eq c cs hm]
  cases hfind : Kind.marks.find?
    (fun m => (behindFirst c m).any fun rest => fitsBehind c cs rest.1) with
  | none => rfl
  | some m =>
    have hany := List.find?_some hfind
    cases htext : m.1.toList with
    | nil =>
      rw [behindFirst, htext] at hany
      cases hany
    | cons d more =>
      have hlength : m.1.length - 1 = more.length := by
        rw [← String.length_toList, htext]
        rfl
      by_cases hd : (d == c) = true
      · simp only [Option.bind_some, behindFirst, htext, hd, if_true, hlength]
      · simp [behindFirst, htext, hd] at hany

theorem takes_mark (short : Kind) (longer : List (Char × Kind)) (cs : List Char) :
    ∃ more k, (longer.map (fun m : Char × Kind => ([m.1], m.2)) ++ [([], short)]).find?
        (fun m : List Char × Kind => m.1.isPrefixOf cs) = some (more, k) ∧
      Takes (mark short longer) cs k more.length := by
  induction longer with
  | nil => exact ⟨[], short, rfl, takes_pure _ _⟩
  | cons m longer ih =>
    obtain ⟨c, long⟩ := m
    by_cases hc : cs.head? = some c
    · obtain ⟨ds, rfl⟩ := List.head?_eq_some_iff.mp hc
      refine ⟨[c], long, by simp, ?_⟩
      exact (takes_eat_cons c ds).bind
        (f := fun b => if b then pure long else mark short longer) (takes_pure long ds)
    · obtain ⟨more, k, hfind, htakes⟩ := ih
      refine ⟨more, k, ?_, (takes_eat_of_ne hc).look htakes⟩
      have hno : [c].isPrefixOf cs = false := by
        cases cs with
        | nil => rfl
        | cons d ds =>
          have hne : (c == d) = false := beq_false_of_ne fun h => hc (congrArg some h.symm)
          show (c == d && _) = false
          rw [hne, Bool.false_and]
      rw [List.map_cons, List.cons_append, List.find?_cons, hno]
      exact hfind

/-- A mark is read as `mark` does, if it has the same ways to go on. -/
theorem Ends.of_mark {short : Kind} (longer : List (Char × Kind)) (hc : c ≠ '?')
    (h : marksFrom c = longer.map (fun m : Char × Kind => ([m.1], m.2)) ++ [([], short)])
    (cs : List Char) : Ends (fun _ => mark short longer) cs (markReading c cs) := by
  obtain ⟨more, k, hfind, htakes⟩ := takes_mark short longer cs
  have hfits : (fun m : List Char × Kind => fitsBehind c cs m.1) = fun m => m.1.isPrefixOf cs := by
    funext m
    simp [fitsBehind, hc]
  rw [markReading_eq, h, hfits, hfind]
  exact htakes.ends

/-- The same, if the mark may be doubled and each form goes on in ways of its own. -/
theorem Ends.of_doubled {d : Char} {short long : Kind} (longer others : List (Char × Kind))
    (hc : c ≠ '?')
    (h : marksFrom c =
      (longer.map (fun m : Char × Kind => ([m.1], m.2)) ++ [([], long)]).map
        (fun m : List Char × Kind => (d :: m.1, m.2)) ++
      (others.map (fun m : Char × Kind => ([m.1], m.2)) ++ [([], short)]))
    (cs : List Char) :
    Ends (fun _ => eat d >>= fun b => if b then mark long longer else mark short others) cs
      (markReading c cs) := by
  have hfits : (fun m : List Char × Kind => fitsBehind c cs m.1) = fun m => m.1.isPrefixOf cs := by
    funext m
    simp [fitsBehind, hc]
  rw [markReading_eq, h, hfits, List.find?_append, List.find?_map]
  by_cases hd : cs.head? = some d
  · obtain ⟨ds, rfl⟩ := List.head?_eq_some_iff.mp hd
    obtain ⟨more, k, hfind, htakes⟩ := takes_mark long longer ds
    have hbehind : ((fun m : List Char × Kind => m.1.isPrefixOf (d :: ds)) ∘
        fun m : List Char × Kind => (d :: m.1, m.2)) = fun m => m.1.isPrefixOf ds := by
      funext m
      show (d == d && _) = _
      rw [beq_self_eq_true, Bool.true_and]
    rw [hbehind, hfind, Option.map_some, Option.some_or]
    have hboth := (takes_eat_cons d ds).bind
      (f := fun b => if b then mark long longer else mark short others) htakes
    rw [Nat.add_comm] at hboth
    exact hboth.ends
  · obtain ⟨more, k, hfind, htakes⟩ := takes_mark short others cs
    have hnone : ((fun m : List Char × Kind => m.1.isPrefixOf cs) ∘
        fun m : List Char × Kind => (d :: m.1, m.2)) = fun _ => false := by
      funext m
      cases cs with
      | nil => rfl
      | cons e ds =>
        have hne : (d == e) = false := beq_false_of_ne fun h => hd (congrArg some h.symm)
        show (d == e && _) = false
        rw [hne, Bool.false_and]
    rw [hnone, List.find?_eq_none.mpr (by simp), Option.map_none, Option.none_or, hfind]
    exact ((takes_eat_of_ne hd).look htakes).ends

theorem marksFrom_question : marksFrom '?' = [(['?', '='], .questionQuestionEq),
    (['?'], .questionQuestion), (['.'], .questionDot), ([], .question)] := by decide

/-- A question mark that is not doubled: a point goes with it only if no digit follows. -/
theorem takes_questionMark (h : cs.head? ≠ some '?') :
    ∃ more k, (marksFrom '?').find? (fun m => fitsBehind '?' cs m.1) = some (more, k) ∧
      Takes questionMark cs k more.length := by
  rw [marksFrom_question]
  match cs with
  | [] =>
    exact ⟨[], .question, rfl, (takes_peek _).look ((takes_peekNth 1 _).look (takes_pure _ _))⟩
  | c :: ds =>
    have hc : c ≠ '?' := fun hc => h (congrArg some hc)
    by_cases hpoint : c = '.' ∧ ds.head?.any Char.isDigit = false
    · obtain ⟨rfl, hdigit⟩ := hpoint
      refine ⟨['.'], .questionDot, ?_, (takes_peek _).look ((takes_peekNth 1 _).look ?_)⟩
      · have hfit : fitsBehind '?' ('.' :: ds) ['.'] = true := by
          show (true && !(true && ds.head?.any Char.isDigit)) = true
          rw [hdigit]
          rfl
        simp only [List.find?, hfit]
        rfl
      · rw [show ('.' :: ds)[1]? = ds.head? from List.head?_eq_getElem?.symm, hdigit]
        exact Takes.bump (f := fun _ => pure Kind.questionDot) (takes_pure _ _)
    · refine ⟨[], .question, ?_, (takes_peek _).look ((takes_peekNth 1 _).look ?_)⟩
      · have hne : ('?' == c) = false := beq_false_of_ne hc.symm
        have hfit (more : List Char) : fitsBehind '?' (c :: ds) ('?' :: more) = false := by
          show (('?' == c && _) && _) = false
          rw [hne, Bool.false_and, Bool.false_and]
        have hdot : fitsBehind '?' (c :: ds) ['.'] = false := by
          show (('.' == c && true) && !(true && ds.head?.any Char.isDigit)) = false
          by_cases hc : c = '.'
          · rw [Bool.of_not_eq_false fun hd => hpoint ⟨hc, hd⟩]
            simp
          · rw [beq_false_of_ne (Ne.symm hc)]
            rfl
        simp only [List.find?, hfit, hdot]
        rfl
      · rw [show (c :: ds)[1]? = ds.head? from List.head?_eq_getElem?.symm, if_neg]
        · exact takes_pure _ _
        · simpa using fun hc => Bool.of_not_eq_false fun hd => hpoint ⟨hc, hd⟩

/-- The marks that start with a question mark. -/
theorem ends_question (cs : List Char) : Ends (punctuation · '?') cs (markReading '?' cs) := by
  rw [markReading_eq]
  by_cases hdouble : cs.head? = some '?'
  · obtain ⟨ds, rfl⟩ := List.head?_eq_some_iff.mp hdouble
    obtain ⟨more, k, hfind, htakes⟩ :=
      takes_mark .questionQuestion [('=', .questionQuestionEq)] ds
    have hmore : (marksFrom '?').find? (fun m => fitsBehind '?' ('?' :: ds) m.1) =
        some ('?' :: more, k) := by
      rw [marksFrom_question]
      have hfit (rest : List Char) :
          fitsBehind '?' ('?' :: ds) ('?' :: rest) = rest.isPrefixOf ds := by
        have hno : ('?' :: rest == ['.']) = false := by simp
        rw [fitsBehind, hno, Bool.and_false, Bool.false_and, Bool.not_false, Bool.and_true]
        rfl
      simp only [List.find?, hfit]
      simp only [List.map_cons, List.map_nil, List.cons_append, List.nil_append,
        List.find?] at hfind
      by_cases heq : ['='].isPrefixOf ds = true
      · rw [heq] at hfind ⊢
        cases hfind
        rfl
      · rw [Bool.eq_false_iff.mpr heq] at hfind ⊢
        cases hfind
        rfl
    rw [hmore]
    have hboth := (takes_eat_cons '?' ds).bind (f := fun b =>
      if b then mark .questionQuestion [('=', .questionQuestionEq)] else questionMark) htakes
    rw [Nat.add_comm] at hboth
    exact hboth.ends
  · obtain ⟨more, k, hfind, htakes⟩ := takes_questionMark hdouble
    rw [hfind]
    exact ((takes_eat_of_ne hdouble).look htakes).ends

/-- A character that starts no mark. -/
theorem ends_stray (h : marksFrom c = []) (cs : List Char) :
    Ends (fun start => fault start .unexpectedCharacter >>= fun _ => pure .error) cs
      (markReading c cs) := by
  rw [markReading_eq, h]
  intro s start _
  rfl

theorem ends_punctuation (c : Char) (cs : List Char) :
    Ends (punctuation · c) cs (markReading c cs) := by
  have single {c : Char} {k : Kind} (hc : c ≠ '?') (h : marksFrom c = [([], k)]) :
      Ends (fun _ => pure k) cs (markReading c cs) :=
    Ends.of_mark [] hc h cs
  unfold punctuation
  split
  · exact single (by decide) (by decide)
  · exact single (by decide) (by decide)
  · exact single (by decide) (by decide)
  · exact single (by decide) (by decide)
  · exact single (by decide) (by decide)
  · exact single (by decide) (by decide)
  · exact single (by decide) (by decide)
  · exact single (by decide) (by decide)
  · exact single (by decide) (by decide)
  · exact single (by decide) (by decide)
  · exact Ends.of_mark _ (by decide) (by decide) cs
  · exact ends_question cs
  · exact Ends.of_mark _ (by decide) (by decide) cs
  · exact Ends.of_mark _ (by decide) (by decide) cs
  · exact Ends.of_mark _ (by decide) (by decide) cs
  · exact Ends.of_mark _ (by decide) (by decide) cs
  · exact Ends.of_mark _ (by decide) (by decide) cs
  · exact Ends.of_mark _ (by decide) (by decide) cs
  · exact Ends.of_mark _ (by decide) (by decide) cs
  · exact Ends.of_mark _ (by decide) (by decide) cs
  · exact Ends.of_mark _ (by decide) (by decide) cs
  · exact Ends.of_mark _ (by decide) (by decide) cs
  · exact Ends.of_doubled [('=', .leftShiftEq)] [('=', .lessEq)] (by decide) (by decide) cs
  · exact Ends.of_doubled [('=', .rightShiftEq)] [('=', .greaterEq)] (by decide) (by decide) cs
  · have hstray : marksFrom c = [] := by
      have hfirst : Kind.marks.all (fun m => m.1.toList.head?.all ['(', ')', '\x7b', '\x7d',
          '[', ']', ';', ',', '.', '~', ':', '?', '=', '!', '+', '-', '*', '/', '%', '^', '&', '|',
          '<', '>'].contains) = true := by decide +kernel
      refine List.filterMap_eq_nil_iff.mpr fun m hm => ?_
      have hm := List.all_eq_true.mp hfirst m hm
      rw [behindFirst]
      split
      · rfl
      · rename_i d more htext
        refine if_neg fun hd => ?_
        rw [htext, beq_iff_eq.mp hd] at hm
        simp only [List.head?_cons, Option.all_some, List.contains_iff_mem, List.mem_cons,
          List.not_mem_nil, or_false] at hm
        grind
    exact ends_stray hstray cs

end Cursor

end LivePatch
