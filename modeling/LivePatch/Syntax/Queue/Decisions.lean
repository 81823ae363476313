import LivePatch.Syntax.Queue.Scans

/-!
# Decisions on the queue

Each decision of `Words` once more, as it is made on the queue: by the kinds and texts of the next
few words, each looked for from the front of the queue, or by a scan from place to place.  An
instance of `Scanned` says that both decide alike.
-/

namespace LivePatch

namespace Queue

open Words (front frontText)

variable {queue : List Token} {i : Nat}

/-! ## The next few words -/

instance : Scanned Words.front where
  scan queue := kindAt queue (skipTrivia queue 0)
  scan_eq _ := kindAt_skipTrivia

instance (n : Nat) : Scanned (Words.kindAt n) where
  scan queue := nth queue n
  scan_eq queue := nth_eq queue n

instance : Scanned Words.frontText where
  scan queue := nthText queue 0
  scan_eq queue := nthText_eq queue 0

instance (n : Nat) (k : Kind) : Scanned (Words.isAt n k) where
  scan queue := nth queue n == some k
  scan_eq queue := by rw [nth_eq, Words.isAt]

instance (n : Nat) (p : Kind → Bool) : Scanned (Words.holdsAt n p) where
  scan queue := (nth queue n).any p
  scan_eq queue := by rw [nth_eq, Words.holdsAt]

instance (text : String) : Scanned (fun ws => Words.frontText ws == text) where
  scan queue := nthText queue 0 == text
  scan_eq queue := by rw [nthText_eq, List.drop_zero]

/-- What is known already need not be looked for. -/
instance {α : Type} (a : α) : Scanned (fun _ => a) where
  scan _ := a
  scan_eq _ := rfl

section

variable {p q : List Token → Bool} [Scanned p] [Scanned q]

instance : Scanned (fun ws => !p ws) where
  scan queue := !Scanned.scan p queue
  scan_eq queue := by rw [Scanned.scan_eq]

instance : Scanned (fun ws => p ws && q ws) where
  scan queue := Scanned.scan p queue && Scanned.scan q queue
  scan_eq queue := by rw [Scanned.scan_eq, Scanned.scan_eq]

instance : Scanned (fun ws => p ws || q ws) where
  scan queue := Scanned.scan p queue || Scanned.scan q queue
  scan_eq queue := by rw [Scanned.scan_eq, Scanned.scan_eq]

end

instance : Scanned Words.atRecordStart :=
  inferInstanceAs (Scanned fun ws => Words.frontText ws == "record" && Words.holdsAt 1 _ ws)

instance : Scanned Words.atScopedModifier :=
  inferInstanceAs (Scanned fun ws => Words.frontText ws == "scoped" && Words.holdsAt 1 _ ws &&
    !Words.isAt 2 .comma ws && !Words.isAt 2 .rParen ws)

/-- Does a label of a switch section stand at the front? -/
def atSwitchLabel (queue : List Token) : Bool :=
  match nth queue 0 with
  | some .caseKw => true
  | some .defaultKw => nth queue 1 == some .colon
  | _ => false

instance : Scanned Words.atSwitchLabel where
  scan := atSwitchLabel
  scan_eq queue := by
    rw [atSwitchLabel, nth_eq, nth_eq, Words.atSwitchLabel]
    cases queue.filter Token.isSignificant with
    | nil => rfl
    | cons w ws => obtain ⟨_ | _, _⟩ := w <;> rfl

/-- Is the identifier at the front a modifier here? -/
def atContextualModifier (queue : List Token) : Bool :=
  let next := nth queue 1
  match nthText queue 0 with
  | "partial" =>
    next.any fun k => k == .classKw || k == .structKw || k == .interfaceKw || k == .voidKw ||
      k == .identifier
  | "async" =>
    next.any (fun k => k == .identifier || k == .voidKw || k.isPredefinedType || k.isModifier) &&
      !(nth queue 2 == some .fatArrow)
  | "file" | "required" =>
    next.any (fun k => k.isModifier || k.isPredefinedType || k == .classKw || k == .structKw ||
      k == .identifier) && !(nth queue 2 == some .eq || nth queue 2 == some .semicolon)
  | _ => false

theorem atContextualModifier_eq (queue : List Token) : atContextualModifier queue =
    Words.atContextualModifier (queue.filter Token.isSignificant) := by
  simp only [atContextualModifier, nth_eq, nthText_eq, List.drop_zero]
  rfl

instance : Scanned Words.atContextualModifier where
  scan := atContextualModifier
  scan_eq := atContextualModifier_eq

/-- May a type declaration begin with the word at the front? -/
def atTypeDeclaration (queue : List Token) : Bool :=
  match kindAt queue (skipTrivia queue 0) with
  | .lBracket | .classKw | .structKw | .interfaceKw | .enumKw | .delegateKw | .refKw
  | .semicolon => true
  | .identifier => atContextualModifier queue || Scanned.scan Words.atRecordStart queue
  | k => k.isModifier

instance : Scanned Words.atTypeDeclaration where
  scan := atTypeDeclaration
  scan_eq queue := by
    rw [atTypeDeclaration, kindAt_skipTrivia, wordsFrom_zero, Scanned.scan_eq,
      atContextualModifier_eq]
    rfl

/-! ## Scans -/

/-- The word behind the front may be asked for by its kind, unless that is the end of the text. -/
theorem isAt_one {k : Kind} (hk : k ≠ .eof) (ws : List Token) :
    Words.isAt 1 k ws = (front (ws.drop 1) == k) := by
  match ws with
  | [] | [_] => exact (beq_eq_false_iff_ne.mpr hk.symm).symm
  | _ :: _ :: _ => rfl

/-- Is the parenthesis at `i` the start of a lambda's parameter list? -/
def isLambdaParen (queue : List Token) (i : Nat) : Bool :=
  let first := skipTrivia queue i
  kindAt queue first == .lParen &&
    kindAt queue (skipTrivia queue (skipBalanced queue first 0)) == .fatArrow

theorem isLambdaParen_eq (queue : List Token) (i : Nat) :
    isLambdaParen queue i = Words.atLambdaParen (wordsFrom queue i) := by
  rw [isLambdaParen, Words.atLambdaParen]
  simp only [kindAt_skipTrivia]
  by_cases hopen : (front (wordsFrom queue i) == .lParen) = true
  · cases hws : wordsFrom queue i with
    | nil =>
      rw [hws] at hopen
      cases hopen
    | cons w ws =>
      have hw : w.kind = .lParen := by simpa [hws] using hopen
      have hplace : queue[skipTrivia queue i]? = some w := by
        rw [(skipTrivia_spec queue i).2.2.1, hws, List.head?_cons]
      have hparen : skipBalanced queue (skipTrivia queue i) 0 =
          skipBalanced queue (skipTrivia queue i + 1) 1 := by
        rw [skipBalanced_eq, hplace]
        simp only [hw]
      rw [hparen, wordsFrom_skipBalanced queue _ Nat.zero_lt_one, wordsFrom_skipTrivia_succ, hws]
  · rw [Bool.eq_false_iff.mpr hopen, Bool.false_and, Bool.false_and]

instance : Scanned Words.atLambdaParen where
  scan queue := isLambdaParen queue 0
  scan_eq queue := isLambdaParen_eq queue 0

/-- Does a lambda marked as asynchronous begin at the front? -/
def atAsyncLambda (queue : List Token) : Bool :=
  match nth queue 1 with
  | some .identifier => nth queue 2 == some .fatArrow
  | some .delegateKw => true
  | some .lParen => (indexOfNth queue 1).any (isLambdaParen queue)
  | _ => false

instance : Scanned Words.atAsyncLambda where
  scan := atAsyncLambda
  scan_eq queue := by
    have hplace := indexOfNth_spec queue 1
    rw [atAsyncLambda]
    split
    · rename_i hname
      rw [Words.atAsyncLambda, ← nth_eq, hname, nth_eq]
      rfl
    · rename_i hdelegate
      rw [Words.atAsyncLambda, ← nth_eq, hdelegate]
    · rename_i hparen
      cases hi : indexOfNth queue 1 with
      | none =>
        rw [nth, hi] at hparen
        cases hparen
      | some i =>
        rw [hi] at hplace
        obtain ⟨t, -, -, hwords⟩ := hplace
        rw [Option.any_some, isLambdaParen_eq, hwords, wordsFrom_zero, Words.atAsyncLambda,
          ← nth_eq, hparen]
    · rw [Words.atAsyncLambda, ← nth_eq]
      split <;> simp_all

/-- Is the parenthesis at the front the start of a cast? -/
def isCast (queue : List Token) : Bool :=
  let first := skipTrivia queue (skipTrivia queue 0 + 1)
  (scanType queue first).any fun behind =>
    let close := skipTrivia queue behind
    let next := kindAt queue (skipTrivia queue (close + 1))
    kindAt queue close == .rParen &&
      if (kindAt queue first).isPredefinedType then Words.canStartExpression next
      else match next with
        | .identifier | .lParen | .tilde | .bang => true
        | .asKw | .isKw => false
        | k => k.isLiteral || k.isKeyword

/-- What stands in front of a type makes no difference to the words behind it. -/
theorem map_scanType_skipTrivia (queue : List Token) (i : Nat) :
    (scanType queue (skipTrivia queue i)).map (wordsFrom queue) =
      Words.afterType (wordsFrom queue i) := by
  rw [map_scanType, wordsFrom_skipTrivia]

instance : Scanned Words.atCast where
  scan := isCast
  scan_eq queue := by
    have htype := map_scanType_skipTrivia queue (skipTrivia queue 0 + 1)
    rw [wordsFrom_skipTrivia_succ, wordsFrom_zero] at htype
    rw [isCast, Words.atCast, ← htype]
    cases scanType queue (skipTrivia queue (skipTrivia queue 0 + 1)) with
    | none => rfl
    | some behind =>
      simp only [Option.any_some, Option.map_some, kindAt_skipTrivia, wordsFrom_skipTrivia_succ,
        wordsFrom_zero] <;> rfl

/-- Is the angle bracket at the front the start of type arguments, rather than a comparison? -/
def atTypeArguments (queue : List Token) : Bool :=
  let less := skipTrivia queue 0
  kindAt queue less == .less && (scanTypeArguments queue less).any fun behind =>
    Words.closesTypeArguments (kindAt queue (skipTrivia queue behind))

instance : Scanned Words.atTypeArguments where
  scan := atTypeArguments
  scan_eq queue := by
    rw [atTypeArguments, Words.atTypeArguments]
    by_cases hless : kindAt queue (skipTrivia queue 0) = .less
    · have hscan := map_scanTypeArguments queue _ hless
      rw [wordsFrom_skipTrivia, wordsFrom_zero] at hscan
      simp only [hless, ← hscan]
      cases scanTypeArguments queue (skipTrivia queue 0) with
      | none => rfl
      | some behind =>
        simp only [Option.any_some, Option.map_some, kindAt_skipTrivia]
        rfl
    · rw [beq_false_of_ne hless, Bool.false_and]
      rw [kindAt_skipTrivia, wordsFrom_zero] at hless
      cases hws : queue.filter Token.isSignificant with
      | nil => rfl
      | cons w ws =>
        rw [hws] at hless
        rw [Words.scanTypeArguments, if_neg (by simpa using hless)]

/-- Does a type with a variable name behind it stand at the front? -/
def atDeclarationExpression (queue : List Token) : Bool :=
  let start := skipTrivia queue 0
  textAt queue start != "await" && (scanType queue start).any fun behind =>
    let name := skipTrivia queue behind
    kindAt queue name == .identifier && !(["and", "or", "when"].contains (textAt queue name))

instance : Scanned Words.atDeclarationExpression where
  scan := atDeclarationExpression
  scan_eq queue := by
    have htype := map_scanType_skipTrivia queue 0
    rw [wordsFrom_zero] at htype
    rw [atDeclarationExpression, Words.atDeclarationExpression, ← htype]
    cases scanType queue (skipTrivia queue 0) with
    | none => simp
    | some behind =>
      simp only [Option.any_some, Option.map_some, kindAt_skipTrivia, textAt_skipTrivia,
        wordsFrom_zero]

/-- Does a declared element of a deconstruction, such as `int a`, stand at the front?  A pointer
type does not count. -/
def atTupleDeclaration (queue : List Token) : Bool :=
  let start := skipTrivia queue 0
  (scanType queue start).any fun behind =>
    let name := skipTrivia queue behind
    let next := kindAt queue (skipTrivia queue (name + 1))
    !((List.range' start (behind - start)).any fun i => kindAt queue i == .star) &&
      kindAt queue name == .identifier && (next == .comma || next == .rParen)

theorem any_range' (p : Kind → Bool) (hp : p .eof = false) (queue : List Token) (i n : Nat) :
    (List.range' i n).any (fun i => p (kindAt queue i)) =
      ((queue.drop i).take n).any (p ·.kind) := by
  induction n generalizing i with
  | zero => simp
  | succ n ih =>
    rw [List.range'_succ, List.any_cons, ih]
    cases hi : queue[i]? with
    | none =>
      have hend := List.getElem?_eq_none_iff.mp hi
      simp [kindAt, hi, hp, List.drop_eq_nil_of_le hend,
        List.drop_eq_nil_of_le (Nat.le_succ_of_le hend)]
    | some t =>
      rw [drop_of_getElem? hi, List.take_succ_cons, List.any_cons, kindAt, hi]
      rfl

/-- The stars between two places.  A star is no trivia, so it makes no difference whether the trivia
is passed over. -/
theorem any_star {j : Nat} (h : i ≤ j) :
    (List.range' i (j - i)).any (fun i => kindAt queue i == .star) =
      ((wordsFrom queue i).take ((wordsFrom queue i).length - (wordsFrom queue j).length)).any
        (·.kind == .star) := by
  rw [wordsFrom_eq_append h, List.length_append, Nat.add_sub_cancel, List.take_left' rfl,
    List.any_filter, any_range' (· == .star) rfl]
  refine congrArg (List.any _) (funext fun t => ?_)
  by_cases ht : t.kind = .star
  · simp [ht, Token.isSignificant, Token.isTrivia]
    rfl
  · simp [ht]

instance : Scanned Words.atTupleDeclaration where
  scan := atTupleDeclaration
  scan_eq queue := by
    have htype := map_scanType_skipTrivia queue 0
    rw [wordsFrom_zero] at htype
    rw [atTupleDeclaration, Words.atTupleDeclaration, ← htype]
    cases hscan : scanType queue (skipTrivia queue 0) with
    | none => rfl
    | some behind =>
      simp only [Option.any_some, Option.map_some, any_star (le_scanType hscan), kindAt_skipTrivia,
        wordsFrom_skipTrivia, wordsFrom_skipTrivia_succ, wordsFrom_zero]
      rw [isAt_one (by decide), isAt_one (by decide)]

/-- Does `var` with a parenthesised designation stand at the front, heading an assignment or a
loop? -/
def atVarDesignation (queue : List Token) : Bool :=
  let start := skipTrivia queue 0
  let open_ := skipTrivia queue (start + 1)
  kindAt queue start == .identifier && textAt queue start == "var" &&
    kindAt queue open_ == .lParen && (scanDesignation queue (open_ + 1)).any fun behind =>
      let next := kindAt queue (skipTrivia queue behind)
      next == .eq || next == .inKw

instance : Scanned Words.atVarDesignation where
  scan := atVarDesignation
  scan_eq queue := by
    have hscan := map_scanDesignation queue (skipTrivia queue (skipTrivia queue 0 + 1) + 1)
    rw [wordsFrom_skipTrivia_succ, wordsFrom_skipTrivia_succ, wordsFrom_zero,
      List.drop_drop] at hscan
    rw [atVarDesignation, Words.atVarDesignation, isAt_one (by decide), ← hscan]
    simp only [kindAt_skipTrivia, textAt_skipTrivia, wordsFrom_skipTrivia_succ, wordsFrom_zero]
    cases scanDesignation queue (skipTrivia queue (skipTrivia queue 0 + 1) + 1) <;> rfl

/-- Does a declaration of variables with an initial value or an end stand at the front? -/
def atVariableDeclaration (queue : List Token) : Bool :=
  let start := skipTrivia queue 0
  textAt queue start != "await" && (scanType queue start).any fun behind =>
    let name := skipTrivia queue behind
    let next := kindAt queue (skipTrivia queue (name + 1))
    kindAt queue name == .identifier && (next == .eq || next == .semicolon || next == .comma)

instance : Scanned Words.atVariableDeclaration where
  scan := atVariableDeclaration
  scan_eq queue := by
    have htype := map_scanType_skipTrivia queue 0
    rw [wordsFrom_zero] at htype
    rw [atVariableDeclaration, Words.atVariableDeclaration, ← htype]
    cases scanType queue (skipTrivia queue 0) with
    | none => simp
    | some behind =>
      simp only [Option.any_some, Option.map_some, kindAt_skipTrivia, textAt_skipTrivia,
        wordsFrom_skipTrivia_succ, wordsFrom_zero]
      rw [isAt_one (by decide), isAt_one (by decide), isAt_one (by decide)]

/-- Is the `n`th word a modifier of a local declaration? -/
def atLocalModifier (queue : List Token) (n : Nat) : Bool :=
  match nth queue n with
  | some .constKw | some .refKw | some .readonlyKw | some .staticKw | some .unsafeKw
  | some .externKw | some .usingKw => true
  | some .identifier =>
    (nthText queue n == "async" || nthText queue n == "scoped") &&
      (nth queue (n + 1)).any (fun k => k == .identifier || k == .voidKw || k == .refKw ||
        k.isPredefinedType) &&
      !(nth queue (n + 2) == some .eq || nth queue (n + 2) == some .semicolon ||
        nth queue (n + 2) == some .fatArrow)
  | _ => false

theorem atLocalModifier_eq (queue : List Token) (n : Nat) : atLocalModifier queue n =
    Words.atLocalModifier ((queue.filter Token.isSignificant).drop n) := by
  have hnth (m : Nat) : nth queue (n + m) =
      Words.kindAt m ((queue.filter Token.isSignificant).drop n) := by
    rw [nth_eq, Words.kindAt, Words.kindAt, List.getElem?_drop]
  have hfirst := hnth 0
  rw [Nat.add_zero] at hfirst
  rw [atLocalModifier, Words.atLocalModifier, hfirst, hnth, hnth, nthText_eq]
  cases (queue.filter Token.isSignificant).drop n with
  | nil => rfl
  | cons w ws =>
    obtain ⟨k, text⟩ := w
    cases k <;> rfl

instance : Scanned Words.atLocalModifier where
  scan queue := atLocalModifier queue 0
  scan_eq queue := by rw [atLocalModifier_eq, List.drop_zero]

/-- How many words from the `n`th on are modifiers of a local declaration, with the `n` in front. -/
def countLocalModifiers (queue : List Token) (n : Nat) : Nat :=
  if atLocalModifier queue n then countLocalModifiers queue (n + 1) else n
termination_by (queue.filter Token.isSignificant).length - n
decreasing_by
  have hlt : n < (queue.filter Token.isSignificant).length := by
    refine Nat.lt_of_not_le fun hle => ?_
    have hmodifier : atLocalModifier queue n = true := ‹_›
    rw [atLocalModifier_eq, List.drop_eq_nil_of_le hle] at hmodifier
    cases hmodifier
  omega

/-- What the statement at the front declares. -/
def classifyLocal (queue : List Token) : Words.LocalStart :=
  match indexOfNth queue (countLocalModifiers queue 0) with
  | none => .nothing
  | some start =>
    if textAt queue start == "await" && kindAt queue start == .identifier then .nothing
    else match scanType queue start with
    | none => .nothing
    | some behind =>
      let name := skipTrivia queue behind
      if kindAt queue name == .identifier then
        match kindAt queue (skipTrivia queue (name + 1)) with
        | .eq | .semicolon | .comma => .variable
        | .lParen | .less => .function
        | _ => .nothing
      else .nothing

theorem skipLocalModifiers_eq (ws : List Token) : Words.skipLocalModifiers ws =
    if Words.atLocalModifier ws then Words.skipLocalModifiers (ws.drop 1) else ws := by
  cases ws <;> rfl

theorem drop_countLocalModifiers (queue : List Token) (n : Nat) :
    (queue.filter Token.isSignificant).drop (countLocalModifiers queue n) =
      Words.skipLocalModifiers ((queue.filter Token.isSignificant).drop n) := by
  fun_induction countLocalModifiers queue n with
  | case1 n hmodifier ih =>
    rw [ih, skipLocalModifiers_eq ((queue.filter Token.isSignificant).drop n), List.drop_drop,
      ← atLocalModifier_eq, if_pos hmodifier]
  | case2 n hmodifier => rw [skipLocalModifiers_eq, ← atLocalModifier_eq, if_neg hmodifier]

instance : Scanned Words.localStart where
  scan := classifyLocal
  scan_eq queue := by
    have hwords := drop_countLocalModifiers queue 0
    rw [List.drop_zero] at hwords
    have hplace := indexOfNth_spec queue (countLocalModifiers queue 0)
    rw [classifyLocal, Words.localStart, ← hwords]
    generalize countLocalModifiers queue 0 = n at hplace ⊢
    rw [wordsFrom_zero] at hplace
    cases hi : indexOfNth queue n with
    | none =>
      rw [hi] at hplace
      rw [List.drop_eq_nil_of_le hplace, Words.afterType, Words.scanType]
      rfl
    | some start =>
      rw [hi] at hplace
      obtain ⟨t, ht, hword, hstart⟩ := hplace
      have hhead : queue[start]? = ((queue.filter Token.isSignificant).drop n).head? := by
        rw [ht, List.head?_drop, hword]
      have hkind := kindAt_of_head? hhead
      have htext := textAt_of_head? hhead
      have htype := map_scanType queue start
      rw [hstart] at htype
      simp only [hkind, htext, Bool.and_comm (_ == "await"), ← htype]
      split
      · rfl
      cases scanType queue start with
      | none => rfl
      | some behind =>
        simp only [Option.map_some, kindAt_skipTrivia, wordsFrom_skipTrivia_succ] <;> rfl

end Queue

end LivePatch
