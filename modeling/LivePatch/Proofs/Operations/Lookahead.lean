import LivePatch.Proofs.Operations.Terms
import LivePatch.Proofs.Phrases.Scans

/-!
# Terms and the decisions in front of them

In front of every parenthesis the words ahead are looked at three times, for a lambda, for a cast
and for a declared variable.  No term is mistaken for one of them.  Its parentheses are balanced, so
no arrow is found behind them (`Term.skipParens_words`).  Star and question mark go on with a type,
too, but an operand follows them, and behind its first word stands no comma or parenthesis that
belongs to the same term (`Term.front_skipIdentifier`).  So whatever part of a term looks like a
type, what is behind it tells that it is none (`Term.typeless_words`).
-/

namespace LivePatch

open Grammar (binding? conditionalBinding prefixPower)
open Token (closeBracket closeParen colon comma dot openBracket openParen question)
open Words (front frontText skipParens skipIdentifier skipNameTail skipTypeSuffixes afterType
  afterTypeArguments afterElements afterElements_eq)
open TypePhrase (afterType_name afterType_openParen afterTypeArguments_self skipNameTail_end
  skipNameTail_segment skipTypeSuffixes_cons skipTypeSuffixes_eq)

namespace Term

variable {r : TermRole} {ws us rest : List Token} {k : Kind} {asked : Bool}

/-! ## First words -/

/-- The first word of a term is a name, a number, `this`, an operator or a parenthesis.  What follows
a name is what follows the term, or a word that goes on with the term and ends no part of it. -/
theorem leading {P Q : List Token → Prop}
    (hinner : ∀ vs, (front vs).followsOperand = true → (front vs).endsValue = false → Q vs)
    (hname : ∀ (n : PlainName) vs, Q vs → P (n.token :: vs))
    (hnumber : ∀ (literal : IntegerLiteral) vs, P (literal.token :: vs))
    (hthis : ∀ vs, P (Token.this :: vs))
    (hunary : ∀ (operator : PrefixOperator) vs, P (operator.token :: vs))
    (hparen : ∀ vs, P (openParen :: vs)) (e : Term r)
    (hcomma : r = .value ∨ ∀ vs, Q (comma :: vs)) (hws : Q ws) : P (e.words ++ ws) := by
  have henclose : ∀ asked (us vs : List Token), P (us ++ vs) → P (enclose asked us ++ vs) := by
    intro asked us vs h
    cases asked with
    | false => exact h
    | true => exact hparen _
  induction e generalizing ws with
  | name n => exact hname n ws hws
  | number literal => exact hnumber literal ws
  | this => exact hthis ws
  | unary operator => exact hunary operator _
  | member receiver n ih | call receiver ih =>
    rw [words, List.append_assoc]
    exact henclose _ _ _ (ih (.inl rfl) (hinner _ rfl rfl))
  | callWith receiver arguments ih | element receiver arguments ih =>
    rw [words, List.append_assoc]
    exact henclose _ _ _ (ih (.inl rfl) (hinner _ rfl rfl))
  | binary operator left right ih =>
    rw [words, List.append_assoc]
    exact henclose _ _ _ (ih (.inl rfl) (hinner _ operator.followsOperand operator.endsValue))
  | conditional condition whenTrue whenFalse ih =>
    rw [words, List.append_assoc]
    exact henclose _ _ _ (ih (.inl rfl) (hinner _ rfl rfl))
  | last argument ih => exact ih (.inl rfl) hws
  | more argument rest ih =>
    rw [words, List.append_assoc]
    exact ih (.inl rfl) (hcomma.resolve_left nofun _)

theorem startsOperand_front (e : Term r) (ws : List Token) :
    (front (e.words ++ ws)).startsOperand = true := by
  refine leading (P := fun vs => (front vs).startsOperand = true) (Q := fun _ => True)
    (fun _ _ _ => trivial) (fun n _ _ => ?_) (fun literal _ => ?_) (fun _ => rfl) (fun operator _ => ?_)
    (fun _ => rfl) e (.inr fun _ => trivial) trivial
  · exact congrArg Kind.startsOperand n.kind_eq
  · exact congrArg Kind.startsOperand literal.kind_eq
  · cases operator <;> rfl

/-- An identifier that a term begins with means nothing else. -/
theorem plain_front (e : Term r) (ws : List Token) (h : front (e.words ++ ws) = .identifier) :
    frontText (e.words ++ ws) ≠ "var" ∧ frontText (e.words ++ ws) ≠ "await" ∧
      frontText (e.words ++ ws) ≠ "async" := by
  refine leading (P := fun vs => front vs = .identifier → frontText vs ≠ "var" ∧
      frontText vs ≠ "await" ∧ frontText vs ≠ "async") (Q := fun _ => True)
    (fun _ _ _ => trivial) (fun n _ _ _ => n.plain) (fun literal _ h => ?_) (fun _ h => ?_)
    (fun operator _ h => ?_) (fun _ h => ?_) e (.inr fun _ => trivial) trivial h
  · rw [front, literal.kind_eq] at h
    cases h
  · cases h
  · cases operator <;> cases h
  · cases h

/-- **Behind the first word of an expression** stands nothing that ends one, unless it ends this
one. -/
theorem front_skipIdentifier (e : Term .value) (hk : k.endsValue = true) (hws : front ws ≠ k) :
    front (skipIdentifier (e.words ++ ws)) ≠ k := by
  have hstart : ∀ vs, (front vs).startsOperand = true → front vs ≠ .identifier →
      front (skipIdentifier vs) ≠ k := by
    intro vs hvs hne
    have hskip : skipIdentifier vs = vs := by
      cases vs with
      | nil => rfl
      | cons w vs => simpa [skipIdentifier] using hne
    rw [hskip]
    exact Kind.ne_of_endsValue hk (Kind.endsValue_of_startsOperand hvs)
  refine leading (P := fun vs => front (skipIdentifier vs) ≠ k) (Q := fun vs => front vs ≠ k)
    (fun vs _ hvs => Kind.ne_of_endsValue hk hvs) (fun n vs hvs => ?_)
    (fun literal vs => hstart _ ?_ ?_) (fun vs => hstart _ rfl (Words.front_ne (by decide)))
    (fun operator vs => hstart _ ?_ ?_) (fun vs => hstart _ rfl (Words.front_ne (by decide)))
    e (.inl rfl) hws
  · simpa [skipIdentifier] using hvs
  · exact congrArg Kind.startsOperand literal.kind_eq
  · rw [front, literal.kind_eq]
    decide
  · cases operator <;> rfl
  · exact Words.front_ne (by cases operator <;> decide)

theorem skipIdentifier_eq_tail (h : front ws = .identifier) : skipIdentifier ws = ws.tail := by
  cases ws with
  | nil => rfl
  | cons w ws =>
    have hw : w.kind = .identifier := h
    simp [skipIdentifier, hw]

/-- The first word is no name in front of what it names. -/
theorem front_tail_ne (e : Term .value) (hk : k.endsValue = true) (hws : front ws ≠ k)
    (h : front (e.words ++ ws) = .identifier) : front (e.words ++ ws).tail ≠ k := by
  rw [← skipIdentifier_eq_tail h]
  exact e.front_skipIdentifier hk hws

/-! ## Parentheses -/

/-- A word that is no parenthesis is passed. -/
theorem skipParens_cons {w : Token} {depth : Nat}
    (hw : w.kind ≠ .lParen ∧ w.kind ≠ .rParen ∧ w.kind ≠ .eof) :
    skipParens depth (w :: ws) = skipParens depth ws := by
  rw [skipParens]
  split
  · exact absurd ‹_› hw.1
  · exact absurd ‹_› hw.2.1
  · exact absurd ‹_› hw.2.2
  · rfl

/-- So is what stands between parentheses, if its own are balanced. -/
theorem skipParens_parens {depth : Nat} (hdepth : 1 ≤ depth)
    (hus : ∀ {depth}, 1 ≤ depth → ∀ ws, skipParens depth (us ++ ws) = skipParens depth ws) :
    skipParens depth (openParen :: (us ++ closeParen :: ws)) = skipParens depth ws := by
  have hdeep : ¬ depth + 1 ≤ 1 := by omega
  have hclose : skipParens (depth + 1) (closeParen :: ws) = skipParens depth ws := by
    rw [skipParens]
    simp [closeParen, hdeep]
  rw [skipParens]
  exact (hus (Nat.le_add_left 1 depth) _).trans hclose

theorem skipParens_enclose {depth : Nat} (hdepth : 1 ≤ depth)
    (hus : ∀ {depth}, 1 ≤ depth → ∀ ws, skipParens depth (us ++ ws) = skipParens depth ws) :
    skipParens depth (enclose asked us ++ ws) = skipParens depth ws := by
  cases asked with
  | false => exact hus hdepth ws
  | true => simpa [enclose] using skipParens_parens hdepth hus

/-- **Parentheses are balanced in every term.** -/
theorem skipParens_words (e : Term r) {depth : Nat} (hdepth : 1 ≤ depth) (ws : List Token) :
    skipParens depth (e.words ++ ws) = skipParens depth ws := by
  have hnil : ∀ {depth}, 1 ≤ depth → ∀ ws, skipParens depth ([] ++ ws) = skipParens depth ws :=
    fun _ _ => rfl
  induction e generalizing depth ws with
  | name n => exact skipParens_cons (by simp)
  | number literal => exact skipParens_cons (by simp)
  | this => exact skipParens_cons (by decide)
  | member receiver n ih =>
    rw [words, List.append_assoc, skipParens_enclose hdepth ih]
    exact (skipParens_cons (by decide)).trans (skipParens_cons (by simp))
  | call callee ih =>
    rw [words, List.append_assoc, skipParens_enclose hdepth ih]
    exact skipParens_parens hdepth hnil
  | callWith callee arguments ih iharguments =>
    simp only [words, List.append_assoc, List.cons_append, List.nil_append]
    rw [skipParens_enclose hdepth ih, skipParens_parens hdepth iharguments]
  | element receiver arguments ih iharguments =>
    simp only [words, List.append_assoc, List.cons_append, List.nil_append]
    rw [skipParens_enclose hdepth ih, skipParens_cons (by decide), iharguments hdepth,
      skipParens_cons (by decide)]
  | unary operator operand ih =>
    rw [words, List.cons_append, skipParens_cons (by cases operator <;> decide),
      skipParens_enclose hdepth ih]
  | binary operator left right ih ihright =>
    rw [words, List.append_assoc, skipParens_enclose hdepth ih, List.cons_append,
      skipParens_cons ⟨operator.kind_ne rfl, operator.kind_ne rfl, operator.kind_ne rfl⟩,
      skipParens_enclose hdepth ihright]
  | conditional condition whenTrue whenFalse ih ihtrue ihfalse =>
    simp only [words, List.append_assoc, List.cons_append]
    rw [skipParens_enclose hdepth ih, skipParens_cons (by decide), ihtrue hdepth,
      skipParens_cons (by decide), skipParens_enclose hdepth ihfalse]
  | last argument ih => exact ih hdepth ws
  | more argument rest ih ihrest =>
    rw [words, List.append_assoc, ih hdepth, List.cons_append, skipParens_cons (by decide),
      ihrest hdepth]

/-! ## Types -/

/-- Is the term a name, or a name of something in something that has one? -/
def isDotted : {r : TermRole} → Term r → Bool
  | _, name _ => true
  | _, member receiver _ => receiver.isDotted
  | _, _ => false

theorem isClosed_of_isDotted {e : Term r} (h : e.isDotted = true) : e.isClosed = true := by
  cases e <;> first | rfl | cases h

theorem exists_name_of_isDotted {e : Term r} (h : e.isDotted = true) :
    ∃ (n : Name) (us : List Token), e.words = n.token :: us ∧
      ∀ ws, front ws ≠ .less → skipNameTail (us ++ ws) = skipNameTail ws := by
  induction e with
  | name n => exact ⟨n.toName, [], rfl, fun _ _ => rfl⟩
  | member receiver n ih =>
    obtain ⟨first, us, hwords, htail⟩ := ih h
    refine ⟨first, us ++ [dot, n.token], ?_, fun ws hless => ?_⟩
    · rw [words, isClosed_of_isDotted (e := receiver) h, hwords]
      rfl
    · have hdot : front ([dot, n.token] ++ ws) ≠ .less := Words.front_ne (by decide)
      have hself : afterTypeArguments ([dot, n.token] ++ ws) =
          some (NameSeparator.dot.token :: n.token :: ws) := afterTypeArguments_self hdot
      rw [List.append_assoc, htail _ hdot]
      exact skipNameTail_segment hself
  | _ => cases h

/-- A dotted name looks like a type, and so do stars and question marks behind it. -/
theorem afterType_of_isDotted {e : Term r} (h : e.isDotted = true) (hless : front ws ≠ .less)
    (hseparator : Words.isNameSeparator (front ws) = false) :
    afterType (e.words ++ ws) = some (skipTypeSuffixes ws) := by
  obtain ⟨n, us, hwords, htail⟩ := exists_name_of_isDotted h
  rw [hwords, List.cons_append, afterType_name n.kind_eq, htail ws hless,
    skipNameTail_end (afterTypeArguments_self hless) hseparator]

/-- A bracket in front of an argument is no array rank. -/
theorem skipTypeSuffixes_bracket (h : (front ws).startsOperand = true) :
    skipTypeSuffixes (openBracket :: ws) = openBracket :: ws := by
  have hcomma : front ws ≠ .comma := Kind.ne_of_startsOperand h rfl
  have hclose : front ws ≠ .rBracket := Kind.ne_of_startsOperand h rfl
  cases ws with
  | nil => cases h
  | cons w vs =>
    have hw : (w :: vs).dropWhile (fun w : Token => w.kind == .comma) = w :: vs := by
      have hne : w.kind ≠ .comma := hcomma
      simp [hne]
    rw [skipTypeSuffixes, if_neg (by decide), if_pos (by decide)]
    split
    · rfl
    · rename_i hcons
      rw [hw] at hcons
      obtain ⟨rfl, rfl⟩ := List.cons.inj hcons
      rw [if_neg (by simpa using hclose)]

/-- Of the operators only the star goes on with a type. -/
theorem continuesType_of_ne_star (operator : BinaryOperator) (h : operator.token.kind ≠ .star) :
    operator.token.kind.continuesType = false := by
  unfold Kind.continuesType
  split
  · exact absurd ‹_› operator.ne_less
  · exact absurd ‹_› (operator.kind_ne rfl)
  · exact absurd ‹_› (operator.kind_ne rfl)
  · exact absurd ‹_› (operator.kind_ne rfl)
  · exact absurd ‹_› h
  · exact absurd ‹_› (operator.kind_ne rfl)
  · rfl

theorem isNameSeparator_operator (operator : BinaryOperator) :
    Words.isNameSeparator operator.token.kind = false := by
  unfold Words.isNameSeparator
  split
  · exact absurd ‹_› (operator.kind_ne rfl)
  · exact absurd ‹_› (operator.kind_ne rfl)
  · rfl

theorem continuesType_of_startsOperand (h : k.startsOperand = true) : k.continuesType = false := by
  have hall : ∀ k : Kind, k.startsOperand = true → k.continuesType = false := by
    intro k hk
    cases k <;> first | rfl | cases hk
  exact hall k h

/-- No type at the front of the words is the type of a cast, or that of an element of a tuple, or,
unless it has a star, that of a declared variable: behind a type stands no parenthesis, and no comma
either, not even behind another name. -/
def Typeless (ws : List Token) : Prop :=
  ∀ rest, afterType ws = some rest → front rest ≠ .rParen ∧ front (skipIdentifier rest) ≠ .comma ∧
    (front (skipIdentifier rest) = .rParen →
      (ws.take (ws.length - rest.length)).any (·.kind == .star) = true)

theorem typeless_of_none (h : afterType ws = none) : Typeless ws := by
  intro rest hrest
  rw [h] at hrest
  cases hrest

theorem typeless_of_some (h : afterType ws = some rest) (hclose : front rest ≠ .rParen)
    (hcomma : front (skipIdentifier rest) ≠ .comma)
    (hstar : front (skipIdentifier rest) = .rParen →
      (ws.take (ws.length - rest.length)).any (·.kind == .star) = true) : Typeless ws := by
  intro rest' hrest'
  obtain rfl := Option.some.inj (h.symm.trans hrest')
  exact ⟨hclose, hcomma, hstar⟩

/-- What is behind the type is no identifier and ends nothing. -/
theorem typeless_of_front {w : Token} (h : afterType ws = some (w :: rest))
    (hname : w.kind ≠ .identifier) (hends : w.kind.endsValue = false) : Typeless ws := by
  have hskip : skipIdentifier (w :: rest) = w :: rest := by simp [skipIdentifier, hname]
  have hne : ∀ k : Kind, k.endsValue = true → w.kind ≠ k :=
    fun k hk => Kind.ne_of_endsValue hk hends
  refine typeless_of_some h (hne _ rfl) ?_ ?_
  · rw [hskip]
    exact hne _ rfl
  · rw [hskip]
    exact fun hclose => absurd hclose (hne _ rfl)

/-- Parentheses around one element are no type. -/
theorem afterType_parens (h : Typeless ws) : afterType (openParen :: ws) = none := by
  rw [afterType_openParen, afterElements_eq]
  cases hafter : afterType ws with
  | none => rfl
  | some rest =>
    obtain ⟨-, hcomma, -⟩ := h rest hafter
    rw [Option.bind_some]
    cases hskip : skipIdentifier rest with
    | nil => rfl
    | cons w vs =>
      have hw : w.kind ≠ .comma := by simpa [hskip] using hcomma
      simp [hw]

/-- No type begins with such a word. -/
theorem afterType_eq_none {w : Token}
    (hw : (w.kind.isPredefinedType || w.kind == .voidKw) = false ∧ w.kind ≠ .identifier ∧
      w.kind ≠ .lParen) : afterType (w :: ws) = none := by
  rw [afterType, Words.scanType, if_neg (by simp [hw.1]), if_neg (by simp [hw.2]),
    if_neg (by simp [hw.2])]
  rfl

theorem startsOperand_enclose (e : Term r) :
    (front (enclose asked e.words ++ ws)).startsOperand = true := by
  cases asked with
  | false => exact e.startsOperand_front ws
  | true => rfl

theorem front_skipIdentifier_enclose (e : Term .value) (hk : k.endsValue = true)
    (hws : front ws ≠ k) : front (skipIdentifier (enclose asked e.words ++ ws)) ≠ k := by
  cases asked with
  | false => exact e.front_skipIdentifier hk hws
  | true => exact Kind.ne_of_endsValue hk rfl

/-- In a product of names the star is passed, but no type is found. -/
theorem typeless_star {w : Token} (hw : w.kind = .star) (h : afterType (us ++ w :: rest) = some rest)
    (hclose : front rest ≠ .rParen) (hcomma : front (skipIdentifier rest) ≠ .comma) :
    Typeless (us ++ w :: rest) := by
  refine typeless_of_some h hclose hcomma fun _ => ?_
  have hlen : (us ++ w :: rest).length - rest.length = (us ++ [w]).length := by simp; omega
  have hsplit : us ++ w :: rest = (us ++ [w]) ++ rest := by simp
  rw [hlen, hsplit, List.take_left]
  simp [hw]

/-- **No term is mistaken for a type.** -/
theorem typeless_words (e : Term r) (hr : r = .value) (he : e.isDotted = false)
    (hws : front ws ≠ .comma) : Typeless (e.words ++ ws) := by
  -- What is said of a first operand is said of the same between parentheses.
  have hfirst : ∀ {asked} {f : Term .value} {ws : List Token}, front ws ≠ .comma →
      (∀ {ws}, TermRole.value = .value → f.isDotted = false → front ws ≠ .comma →
        Typeless (f.words ++ ws)) →
      (asked = true → f.isClosed = false) → (f.isDotted = true → Typeless (f.words ++ ws)) →
      Typeless (enclose asked f.words ++ ws) := by
    intro asked f ws hws ih hasked hdotted
    cases asked with
    | false =>
      cases hf : f.isDotted with
      | false => exact ih rfl hf hws
      | true => exact hdotted hf
    | true =>
      have hf : f.isDotted = false := by
        rw [Bool.eq_false_iff]
        intro hf
        have hclosed := isClosed_of_isDotted hf
        rw [hasked rfl] at hclosed
        cases hclosed
      rw [enclose, if_pos rfl, List.cons_append, List.append_assoc]
      exact typeless_of_none (afterType_parens (ih rfl hf (Words.front_ne (by decide))))
  induction e generalizing ws with
  | name n => cases he
  | number literal => exact typeless_of_none (afterType_eq_none (by simp [Kind.isPredefinedType]))
  | this => exact typeless_of_none (afterType_eq_none (by decide))
  | unary operator operand =>
    exact typeless_of_none (afterType_eq_none (by cases operator <;> decide))
  | member receiver n ih =>
    rw [words, List.append_assoc]
    refine hfirst (Words.front_ne (by decide)) ih (fun h => by simpa using h) fun h => ?_
    rw [isDotted, h] at he
    cases he
  | call callee ih =>
    rw [words, List.append_assoc]
    refine hfirst (Words.front_ne (by decide)) ih (fun h => by simpa using h) fun h => ?_
    exact typeless_of_front ((afterType_of_isDotted h (Words.front_ne (by decide)) rfl).trans
      (congrArg some (skipTypeSuffixes_eq rfl))) (by decide) rfl
  | callWith callee arguments ih =>
    rw [words, List.append_assoc]
    refine hfirst (Words.front_ne (by decide)) ih (fun h => by simpa using h) fun h => ?_
    exact typeless_of_front ((afterType_of_isDotted h (Words.front_ne (by decide)) rfl).trans
      (congrArg some (skipTypeSuffixes_eq rfl))) (by decide) rfl
  | element receiver arguments ih =>
    rw [words, List.append_assoc]
    refine hfirst (Words.front_ne (by decide)) ih (fun h => by simpa using h) fun h => ?_
    have hstart : (front (arguments.words ++ [closeBracket] ++ ws)).startsOperand = true := by
      rw [List.append_assoc]
      exact arguments.startsOperand_front _
    exact typeless_of_front ((afterType_of_isDotted h (Words.front_ne (by decide)) rfl).trans
      (congrArg some (skipTypeSuffixes_bracket hstart))) (by decide) rfl
  | binary operator left right ih =>
    rw [words, List.append_assoc]
    have hcomma : operator.token.kind ≠ .comma := operator.kind_ne rfl
    refine hfirst hcomma ih (fun h => isClosed_of_takes h operator.powers.2.1) fun h => ?_
    have hafter : afterType (left.words ++ operator.token ::
        (enclose (right.isLoose operator.binding.right) right.words ++ ws)) = _ :=
      afterType_of_isDotted h operator.ne_less (isNameSeparator_operator operator)
    by_cases hstar : operator.token.kind = .star
    · have hstart : (front (enclose (right.isLoose operator.binding.right) right.words ++
          ws)).startsOperand = true := right.startsOperand_enclose
      rw [skipTypeSuffixes_cons (.inr hstar),
        skipTypeSuffixes_eq (continuesType_of_startsOperand hstart)] at hafter
      exact typeless_star hstar hafter (Kind.ne_of_startsOperand hstart rfl)
        (right.front_skipIdentifier_enclose rfl hws)
    · have hends := continuesType_of_ne_star operator hstar
      exact typeless_of_front (hafter.trans (congrArg some (skipTypeSuffixes_eq hends)))
        (operator.kind_ne rfl) operator.endsValue
  | conditional condition whenTrue whenFalse ih =>
    rw [words, List.append_assoc]
    refine hfirst (Words.front_ne (by decide)) ih (fun h => isClosed_of_takes h (by decide)) fun h => ?_
    rw [List.cons_append, List.append_assoc, List.cons_append]
    generalize hbehind : colon ::
      (enclose (whenFalse.isLoose conditionalBinding.right) whenFalse.words ++ ws) = behind
    have hcolon : front behind = .colon := hbehind ▸ rfl
    have hstart := whenTrue.startsOperand_front behind
    have hskip {k : Kind} (hk : k.endsValue = true) (hne : k ≠ .colon) :
        front (skipIdentifier (whenTrue.words ++ behind)) ≠ k :=
      whenTrue.front_skipIdentifier hk (by rw [hcolon]; exact hne.symm)
    have hafter : afterType (condition.words ++ question :: (whenTrue.words ++ behind)) = _ :=
      afterType_of_isDotted h (Words.front_ne (by decide)) rfl
    rw [skipTypeSuffixes_cons (.inl rfl),
      skipTypeSuffixes_eq (continuesType_of_startsOperand hstart)] at hafter
    exact typeless_of_some hafter (Kind.ne_of_startsOperand hstart rfl) (hskip rfl (by decide))
      fun hclose => absurd hclose (hskip rfl (by decide))
  | last argument => cases hr
  | more argument rest => cases hr

/-! ## Decisions -/

section

variable (e : Term .value)

theorem atLambdaParen_words (harrow : front ws ≠ .fatArrow) :
    Words.atLambdaParen (openParen :: (e.words ++ closeParen :: ws)) = false := by
  have hskip : skipParens 1 (e.words ++ closeParen :: ws) = ws :=
    e.skipParens_words le_rfl (closeParen :: ws)
  simp [Words.atLambdaParen, hskip, harrow]

theorem isDotted_eq_false {e : Term r} (he : e.isClosed = false) : e.isDotted = false := by
  rw [Bool.eq_false_iff]
  intro hdotted
  rw [isClosed_of_isDotted hdotted] at he
  cases he

theorem atCast_words (he : e.isClosed = false) :
    Words.atCast (openParen :: (e.words ++ closeParen :: ws)) = false := by
  have htypeless : Typeless (e.words ++ closeParen :: ws) :=
    e.typeless_words rfl (isDotted_eq_false he) (Words.front_ne (by decide))
  rw [Words.atCast, List.drop_one, List.tail_cons]
  cases hafter : afterType (e.words ++ closeParen :: ws) with
  | none => rfl
  | some rest =>
    obtain ⟨hclose, -⟩ := htypeless rest hafter
    simp [hclose]

theorem atVarDesignation_words : Words.atVarDesignation (e.words ++ ws) = false := by
  by_cases h : front (e.words ++ ws) = .identifier
  · simp [Words.atVarDesignation, (e.plain_front ws h).1]
  · simp [Words.atVarDesignation, h]

theorem atTupleDeclaration_words (he : e.isClosed = false) :
    Words.atTupleDeclaration (e.words ++ closeParen :: ws) = false := by
  have htypeless : Typeless (e.words ++ closeParen :: ws) :=
    e.typeless_words rfl (isDotted_eq_false he) (Words.front_ne (by decide))
  rw [Words.atTupleDeclaration]
  cases hafter : afterType (e.words ++ closeParen :: ws) with
  | none => rfl
  | some rest =>
    obtain ⟨-, hcomma, hstar⟩ := htypeless rest hafter
    by_cases hname : front rest = .identifier
    · rw [skipIdentifier_eq_tail hname] at hcomma hstar
      by_cases hclose : front rest.tail = .rParen
      · simp only [hstar hclose]
        rfl
      · have hends : Words.isAt 1 .comma rest = false ∧ Words.isAt 1 .rParen rest = false := by
          constructor <;> rw [Bool.eq_false_iff] <;> simp [hcomma, hclose]
        simp [hends]
    · simp [hname]

end

end Term

end LivePatch
