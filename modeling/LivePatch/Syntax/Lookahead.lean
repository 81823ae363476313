import LivePatch.Syntax.Token

/-!
# Looking ahead

The grammar decides what to read by looking at the significant tokens that come next, the
*words*.  Everything here is a function of the list of words alone: where trivia stands, or
whether there is any, never takes part in a decision.

The scans run over words that look like a type, a type argument list or a bracketed group and
answer what is left behind it.
-/

namespace LivePatch

namespace Words

/-- The kind of the first word; the end of the text when there is none. -/
def front : List Token → Kind
  | [] => .eof
  | w :: _ => w.kind

@[simp] theorem front_nil : front [] = .eof := rfl

@[simp] theorem front_cons (w : Token) (ws : List Token) : front (w :: ws) = w.kind := rfl

/-- The kind of the word `n` places ahead. -/
def kindAt (n : Nat) (ws : List Token) : Option Kind := ws[n]?.map (·.kind)

/-- The text of the first word. -/
def frontText : List Token → String
  | [] => ""
  | w :: _ => w.text

/-- Does the word `n` places ahead have the kind `k`? -/
def isAt (n : Nat) (k : Kind) (ws : List Token) : Bool := kindAt n ws == some k

/-- Does the kind of the word `n` places ahead satisfy `p`? -/
def holdsAt (n : Nat) (p : Kind → Bool) (ws : List Token) : Bool := (kindAt n ws).any p

/-! ## Classes of words -/

/-- May a word of this kind begin an expression? -/
def canStartExpression (k : Kind) : Bool :=
  k.isLiteral || k.isPredefinedType ||
    match k with
    | .identifier | .thisKw | .baseKw | .newKw | .typeofKw | .sizeofKw | .defaultKw | .checkedKw
    | .uncheckedKw | .delegateKw | .throwKw | .lParen | .plus | .minus | .bang | .tilde | .caret
    | .plusPlus | .minusMinus => true
    | _ => false

/-- May a word of this kind begin a type? -/
def canStartType (k : Kind) : Bool :=
  k.isPredefinedType || k == .identifier || k == .voidKw || k == .lParen

/-- The four comparisons by order. -/
def isRelational : Kind → Bool
  | .less | .lessEq | .greater | .greaterEq => true
  | _ => false

/-- The two words that separate the segments of a name. -/
def isNameSeparator : Kind → Bool
  | .dot | .doubleColon => true
  | _ => false

/-! ## Scanning types -/

/-- Words that may stand between the angle brackets of a type argument list. -/
def isTypeArgumentWord : Kind → Bool
  | .identifier | .comma | .dot | .doubleColon | .question | .lBracket | .rBracket | .lParen
  | .rParen | .star | .voidKw => true
  | k => k.isPredefinedType

/-- The words behind the bracket that closes `depth` open angle brackets.  A shift `>>` closes
two of them; a word that cannot stand in a type argument list ends the scan without an answer. -/
def closeAngles : Nat → List Token → Option (List Token)
  | _, [] => none
  | depth, w :: ws =>
    match w.kind with
    | .less => closeAngles (depth + 1) ws
    | .greater => if depth ≤ 1 then some ws else closeAngles (depth - 1) ws
    | .rightShift =>
      if depth ≤ 1 then none else if depth = 2 then some ws else closeAngles (depth - 2) ws
    | k => if isTypeArgumentWord k then closeAngles depth ws else none

/-- The words behind the type argument list at the front. -/
def scanTypeArguments : List Token → Option (List Token)
  | [] => none
  | w :: ws => if w.kind == .less then closeAngles 1 ws else none

theorem length_closeAngles {depth : Nat} {ws rest : List Token}
    (h : closeAngles depth ws = some rest) : rest.length < ws.length := by
  induction ws generalizing depth with
  | nil => simp [closeAngles] at h
  | cons w ws ih =>
    have step : ∀ {d}, closeAngles d ws = some rest → rest.length < (w :: ws).length :=
      fun h => Nat.lt_succ_of_lt (ih h)
    unfold closeAngles at h
    split at h
    · exact step h
    · split at h
      · cases h; simp
      · exact step h
    · split at h
      · cases h
      · split at h
        · cases h; simp
        · exact step h
    · split at h
      · exact step h
      · cases h

theorem length_scanTypeArguments {ws rest : List Token}
    (h : scanTypeArguments ws = some rest) : rest.length < ws.length := by
  cases ws with
  | nil => simp [scanTypeArguments] at h
  | cons w ws =>
    simp only [scanTypeArguments] at h
    split at h
    · exact Nat.lt_succ_of_lt (length_closeAngles h)
    · cases h

/-- The words behind a type argument list, if one stands at the front.  An angle bracket that
opens no such list ends the name: the answer is then `none`. -/
def afterTypeArguments (ws : List Token) : Option (List Token) :=
  if front ws == .less then scanTypeArguments ws else some ws

theorem length_afterTypeArguments {ws rest : List Token}
    (h : afterTypeArguments ws = some rest) : rest.length ≤ ws.length := by
  unfold afterTypeArguments at h
  split at h
  · exact Nat.le_of_lt (length_scanTypeArguments h)
  · cases h; exact Nat.le_refl _

/-- The words behind the segments of a type name, when its first identifier has been passed. -/
def skipNameTail (ws : List Token) : List Token :=
  match _h : afterTypeArguments ws with
  | none => ws
  | some [] => []
  | some [w] => [w]
  | some (sep :: w :: rest) =>
    if isNameSeparator sep.kind && w.kind == .identifier then skipNameTail rest
    else sep :: w :: rest
termination_by ws.length
decreasing_by
  have := length_afterTypeArguments _h
  simp only [List.length_cons] at this
  omega

theorem length_skipNameTail (ws : List Token) : (skipNameTail ws).length ≤ ws.length := by
  fun_induction skipNameTail ws with
  | case1 => exact Nat.le_refl _
  | case2 => simp
  | case3 ws w h => exact length_afterTypeArguments h
  | case4 ws sep w rest h _ ih =>
    have := length_afterTypeArguments h
    simp only [List.length_cons] at this
    omega
  | case5 ws sep w rest h => exact length_afterTypeArguments h

/-- A name goes on as long as a separator and another identifier follow. -/
theorem skipNameTail_eq (ws : List Token) : skipNameTail ws =
    match afterTypeArguments ws with
    | none => ws
    | some rest =>
      if isNameSeparator (front rest) && front (rest.drop 1) == .identifier then
        skipNameTail (rest.drop 2)
      else rest := by
  rw [skipNameTail]
  split
  · rename_i hrest
    rw [hrest]
  · rename_i hrest
    rw [hrest]
    rfl
  · rename_i w hrest
    rw [hrest]
    simp [front]
  · rename_i hrest
    rw [hrest]
    rfl

theorem length_behind_commas {ws rest : List Token} {w : Token}
    (h : ws.dropWhile (·.kind == .comma) = w :: rest) : rest.length < ws.length := by
  have := (List.dropWhile_suffix (l := ws) (·.kind == Kind.comma)).length_le
  rw [h] at this
  exact this

/-- The words behind the suffixes of a type: question marks, stars and array ranks. -/
def skipTypeSuffixes (ws : List Token) : List Token :=
  match ws with
  | [] => []
  | w :: rest =>
    if w.kind == .question || w.kind == .star then skipTypeSuffixes rest
    else if w.kind == .lBracket then
      match _h : rest.dropWhile (·.kind == .comma) with
      | [] => w :: rest
      | close :: behind => if close.kind == .rBracket then skipTypeSuffixes behind else w :: rest
    else w :: rest
termination_by ws.length
decreasing_by
  · simp
  · have := length_behind_commas _h
    simp only [List.length_cons]
    omega

theorem length_skipTypeSuffixes (ws : List Token) :
    (skipTypeSuffixes ws).length ≤ ws.length := by
  fun_induction skipTypeSuffixes ws with
  | case1 => exact Nat.le_refl _
  | case2 w rest _ ih => exact Nat.le_succ_of_le ih
  | case3 => exact Nat.le_refl _
  | case4 w rest _ _ close behind h _ ih =>
    have := length_behind_commas h
    simp only [List.length_cons]
    omega
  | case5 => exact Nat.le_refl _
  | case6 => exact Nat.le_refl _

/-- The suffixes of a type, one at a time. -/
theorem skipTypeSuffixes_cons_eq (w : Token) (ws : List Token) : skipTypeSuffixes (w :: ws) =
    if w.kind = .question ∨ w.kind = .star then skipTypeSuffixes ws
    else if w.kind = .lBracket ∧ front (ws.dropWhile (·.kind == .comma)) = .rBracket then
      skipTypeSuffixes ((ws.dropWhile (·.kind == .comma)).drop 1)
    else w :: ws := by
  rw [skipTypeSuffixes]
  by_cases hmark : w.kind = .question ∨ w.kind = .star
  · rw [if_pos (by simpa using hmark), if_pos hmark]
  rw [if_neg (by simpa using hmark), if_neg hmark]
  by_cases hopen : w.kind = .lBracket
  · rw [if_pos (by simpa using hopen)]
    split
    · rename_i hnil
      rw [hnil, if_neg (by simp [front])]
    · rename_i close rest hcons
      rw [hcons]
      simp [hopen]
  · rw [if_neg (by simpa using hopen), if_neg (by simp [hopen])]

/-- The words behind an identifier, if one stands at the front. -/
def skipIdentifier : List Token → List Token
  | [] => []
  | w :: ws => if w.kind == .identifier then ws else w :: ws

theorem length_skipIdentifier (ws : List Token) : (skipIdentifier ws).length ≤ ws.length := by
  unfold skipIdentifier
  split
  · simp
  · split <;> simp

/-- What is left of `ws` behind something that holds at least one word. -/
abbrev Behind (ws : List Token) : Type := { rest : List Token // rest.length < ws.length }

mutual

/-- The words behind the type at the front: a built-in type, a tuple of at least two types or a
name, each with its suffixes.  Type arguments are only matched by their brackets. -/
def scanType (ws : List Token) : Option (Behind ws) :=
  match ws with
  | [] => none
  | w :: rest =>
    if w.kind.isPredefinedType || w.kind == .voidKw then
      some ⟨skipTypeSuffixes rest, Nat.lt_succ_of_le (length_skipTypeSuffixes rest)⟩
    else if w.kind == .identifier then
      some ⟨skipTypeSuffixes (skipNameTail rest), Nat.lt_succ_of_le
        (Nat.le_trans (length_skipTypeSuffixes _) (length_skipNameTail rest))⟩
    else if w.kind == .lParen then
      match scanTupleElements 0 rest with
      | none => none
      | some ⟨behind, h⟩ =>
        some ⟨skipTypeSuffixes behind, Nat.lt_succ_of_le
          (Nat.le_trans (length_skipTypeSuffixes _) (Nat.le_of_lt h))⟩
    else none
termination_by 2 * ws.length

/-- The words behind the elements of a tuple type and its closing parenthesis, when `count`
elements have been passed. -/
def scanTupleElements (count : Nat) (ws : List Token) : Option (Behind ws) :=
  match scanType ws with
  | none => none
  | some ⟨afterType, h⟩ =>
    match hname : skipIdentifier afterType with
    | [] => none
    | w :: rest =>
      have hlt : rest.length < ws.length := by
        have := length_skipIdentifier afterType
        rw [hname] at this
        simp at this
        omega
      if w.kind == .comma then
        match scanTupleElements (count + 1) rest with
        | none => none
        | some ⟨behind, hb⟩ => some ⟨behind, Nat.lt_trans hb hlt⟩
      else if w.kind == .rParen && 1 ≤ count then some ⟨rest, hlt⟩
      else none
termination_by 2 * ws.length + 1

end

/-- The words behind the type at the front, as a plain list. -/
def afterType (ws : List Token) : Option (List Token) := (scanType ws).map (·.val)

theorem length_afterType {ws rest : List Token} (h : afterType ws = some rest) :
    rest.length < ws.length := by
  obtain ⟨behind, -, rfl⟩ := Option.map_eq_some_iff.mp h
  exact behind.property

/-- The words behind the elements of a tuple type, as a plain list. -/
def afterElements (count : Nat) (ws : List Token) : Option (List Token) :=
  (scanTupleElements count ws).map (·.val)

/-- What a type begins with. -/
theorem afterType_cons (w : Token) (ws : List Token) : afterType (w :: ws) =
    if w.kind.isPredefinedType || w.kind == .voidKw then some (skipTypeSuffixes ws)
    else if w.kind = .identifier then some (skipTypeSuffixes (skipNameTail ws))
    else if w.kind = .lParen then (afterElements 0 ws).map skipTypeSuffixes
    else none := by
  rw [afterType, scanType]
  split
  · rfl
  by_cases hname : w.kind = .identifier
  · simp [hname]
  by_cases hopen : w.kind = .lParen
  · rw [if_neg (by simpa using hname), if_pos (by simpa using hopen), if_neg hname, if_pos hopen,
      afterElements]
    cases scanTupleElements 0 ws <;> rfl
  · simp [hname, hopen]

/-- The scan of a tuple, one element at a time. -/
theorem afterElements_eq (count : Nat) (ws : List Token) :
    afterElements count ws = (afterType ws).bind fun mid =>
      match skipIdentifier mid with
      | [] => none
      | w :: rest =>
        if w.kind == .comma then afterElements (count + 1) rest
        else if w.kind == .rParen && 1 ≤ count then some rest
        else none := by
  rw [afterElements, scanTupleElements, afterType]
  cases scanType ws with
  | none => rfl
  | some mid =>
    simp only [Option.map_some, Option.bind_some]
    split
    · rename_i hnil
      simp [hnil]
    · rename_i w rest hcons
      simp only [hcons]
      split
      · rw [afterElements]
        cases scanTupleElements (count + 1) rest <;> rfl
      · split <;> rfl

/-! ## Scanning groups -/

/-- The words behind the parenthesis that closes `depth` open ones, or from the end of the text
on. -/
def skipParens : Nat → List Token → List Token
  | _, [] => []
  | depth, w :: ws =>
    match w.kind with
    | .lParen => skipParens (depth + 1) ws
    | .rParen => if depth ≤ 1 then ws else skipParens (depth - 1) ws
    | .eof => w :: ws
    | _ => skipParens depth ws

/-- The words behind a designation such as `a, (b, c))`, when `depth` parentheses are open and
what comes next is a name or another parenthesis. -/
def skipDesignation : Nat → List Token → Option (List Token)
  | _, [] => none
  | depth, w :: ws =>
    match w.kind with
    | .identifier => afterDesignated depth ws
    | .lParen => skipDesignation (depth + 1) ws
    | _ => none
where
  /-- The same, when a name or a closed parenthesis has just been passed. -/
  afterDesignated : Nat → List Token → Option (List Token)
  | _, [] => none
  | depth, w :: ws =>
    match w.kind with
    | .comma => skipDesignation depth ws
    | .rParen => if depth ≤ 1 then some ws else afterDesignated (depth - 1) ws
    | _ => none

/-! ## Decisions -/

/-- Is the parenthesis at the front the start of a lambda's parameter list? -/
def atLambdaParen (ws : List Token) : Bool :=
  front ws == .lParen && front (skipParens 1 (ws.drop 1)) == .fatArrow

/-- Is the parenthesis at the front the start of a cast?  It must hold a type, and the word behind
it must be one that starts an operand; for a type that is no built-in one, one that can do nothing
else. -/
def atCast (ws : List Token) : Bool :=
  match afterType (ws.drop 1) with
  | none => false
  | some rest =>
    front rest == .rParen &&
      (let next := front (rest.drop 1)
       if (front (ws.drop 1)).isPredefinedType then canStartExpression next
       else match next with
        | .identifier | .lParen | .tilde | .bang => true
        | .asKw | .isKw => false
        | k => k.isLiteral || k.isKeyword)

/-- Words that cannot continue a comparison and so settle that a type argument list came before
them. -/
def closesTypeArguments : Kind → Bool
  | .lParen | .rParen | .rBracket | .rBrace | .colon | .semicolon | .comma | .dot | .questionDot
  | .question | .eqEq | .bangEq | .pipe | .caret | .ampAmp | .pipePipe | .amp | .lBracket
  | .eof => true
  | _ => false

/-- Is the angle bracket at the front the start of type arguments, rather than a comparison? -/
def atTypeArguments (ws : List Token) : Bool :=
  match scanTypeArguments ws with
  | none => false
  | some rest => closesTypeArguments (front rest)

/-- Does a lambda marked as asynchronous begin at the front? -/
def atAsyncLambda (ws : List Token) : Bool :=
  match kindAt 1 ws with
  | some .identifier => isAt 2 .fatArrow ws
  | some .delegateKw => true
  | some .lParen => atLambdaParen (ws.drop 1)
  | _ => false

/-- Does a type with a variable name behind it stand at the front? -/
def atDeclarationExpression (ws : List Token) : Bool :=
  frontText ws != "await" &&
    match afterType ws with
    | none => false
    | some rest =>
      front rest == .identifier && !(["and", "or", "when"].contains (frontText rest))

/-- Does a declared element of a deconstruction, such as `int a`, stand at the front?  A pointer
type does not count, so that a product stays a product. -/
def atTupleDeclaration (ws : List Token) : Bool :=
  match afterType ws with
  | none => false
  | some rest =>
    !((ws.take (ws.length - rest.length)).any (·.kind == .star)) && front rest == .identifier &&
      (isAt 1 .comma rest || isAt 1 .rParen rest)

/-- Does `var` with a parenthesised designation stand at the front, heading an assignment or a
loop? -/
def atVarDesignation (ws : List Token) : Bool :=
  front ws == .identifier && frontText ws == "var" && isAt 1 .lParen ws &&
    match skipDesignation 1 (ws.drop 2) with
    | none => false
    | some rest => front rest == .eq || front rest == .inKw

/-- Does a declaration of variables with an initial value or an end stand at the front? -/
def atVariableDeclaration (ws : List Token) : Bool :=
  frontText ws != "await" &&
    match afterType ws with
    | none => false
    | some rest =>
      front rest == .identifier &&
        (isAt 1 .eq rest || isAt 1 .semicolon rest || isAt 1 .comma rest)

/-- Is the first word a modifier of a local declaration? -/
def atLocalModifier (ws : List Token) : Bool :=
  match front ws with
  | .constKw | .refKw | .readonlyKw | .staticKw | .unsafeKw | .externKw | .usingKw => true
  | .identifier =>
    (frontText ws == "async" || frontText ws == "scoped") &&
      holdsAt 1 (fun k => k == .identifier || k == .voidKw || k == .refKw ||
        k.isPredefinedType) ws &&
      !(isAt 2 .eq ws || isAt 2 .semicolon ws || isAt 2 .fatArrow ws)
  | _ => false

/-- The words behind the modifiers of a local declaration. -/
def skipLocalModifiers : List Token → List Token
  | [] => []
  | w :: ws => if atLocalModifier (w :: ws) then skipLocalModifiers ws else w :: ws

/-- What a statement that starts with no word of its own declares. -/
inductive LocalStart where
  | variable
  | function
  | nothing
deriving DecidableEq, Repr

/-- What the statement at the front declares: after its modifiers stand a type, a name, and a
word that tells a variable from a function. -/
def localStart (ws : List Token) : LocalStart :=
  let start := skipLocalModifiers ws
  if front start == .identifier && frontText start == "await" then .nothing
  else match afterType start with
  | none => .nothing
  | some rest =>
    if front rest == .identifier then
      match front (rest.drop 1) with
      | .eq | .semicolon | .comma => .variable
      | .lParen | .less => .function
      | _ => .nothing
    else .nothing

/-- Does a label of a switch section stand at the front? -/
def atSwitchLabel (ws : List Token) : Bool :=
  match front ws with
  | .caseKw => true
  | .defaultKw => isAt 1 .colon ws
  | _ => false

/-- Does a record declaration stand at the front? -/
def atRecordStart (ws : List Token) : Bool :=
  frontText ws == "record" &&
    holdsAt 1 (fun k => k == .identifier || k == .classKw || k == .structKw) ws

/-- Is the identifier at the front a modifier here? -/
def atContextualModifier (ws : List Token) : Bool :=
  match frontText ws with
  | "partial" =>
    holdsAt 1 (fun k => k == .classKw || k == .structKw || k == .interfaceKw || k == .voidKw ||
      k == .identifier) ws
  | "async" =>
    holdsAt 1 (fun k => k == .identifier || k == .voidKw || k.isPredefinedType ||
      k.isModifier) ws && !isAt 2 .fatArrow ws
  | "file" | "required" =>
    holdsAt 1 (fun k => k.isModifier || k.isPredefinedType || k == .classKw || k == .structKw ||
      k == .identifier) ws && !(isAt 2 .eq ws || isAt 2 .semicolon ws)
  | _ => false

/-- Is the identifier at the front a modifier of a parameter? -/
def atScopedModifier (ws : List Token) : Bool :=
  frontText ws == "scoped" &&
    holdsAt 1 (fun k => k == .identifier || k == .refKw || k.isPredefinedType) ws &&
    !isAt 2 .comma ws && !isAt 2 .rParen ws

/-- May a type declaration begin with the word at the front? -/
def atTypeDeclaration (ws : List Token) : Bool :=
  match front ws with
  | .lBracket | .classKw | .structKw | .interfaceKw | .enumKw | .delegateKw | .refKw
  | .semicolon => true
  | .identifier => atContextualModifier ws || atRecordStart ws
  | k => k.isModifier

end Words

end LivePatch
