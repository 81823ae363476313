import LivePatch.Proofs.Following.Fragments
import LivePatch.Proofs.NameTemplates
import LivePatch.Proofs.Phrases.Agreement

/-!
# Type tests as conditions

Behind a type a question mark makes the type nullable, or a conditional operator begins with it.
Behind `as` it is settled by the word that follows it: where an expression may begin, the operator
does.  Behind `is` a variable may be declared, and then an identifier that follows is taken for its
name.  Otherwise a test with a type is the condition, and the branches are read as they are by
themselves (`readsAs_conditionText`).
-/

namespace LivePatch

open LivePatch.Action (recount recount_eq)
open Token (closingAngle colon endOfText openAngle question)
open Words (front Spells)

namespace Token

def asWord : Token := ⟨.asKw, "as"⟩
def isWord : Token := ⟨.isKw, "is"⟩

theorem isCutWord_asWord : asWord.IsCutWord :=
  ⟨rfl, true, [], 'a', ['s'], rfl, Lexer.cuts_of_read rfl⟩

theorem isCutWord_isWord : isWord.IsCutWord :=
  ⟨rfl, true, [], 'i', ['s'], rfl, Lexer.cuts_of_read rfl⟩

/-- No token that a phrase is printed with reaches to the end of its line. -/
theorem IsPrinted.endsLine {t : Token} (h : t.IsPrinted) : t.kind.endsLine = false := by
  have hwords : ∀ k : Kind, k.isWord = true → k.endsLine = false := by
    intro k hk
    cases k <;> first | rfl | cases hk
  have hmarks : ∀ t ∈ printedMarks, t.kind.endsLine = false := by decide
  rcases h with hword | hmark | rfl
  · exact hwords _ hword.isWord
  · exact hmarks t hmark
  · rfl

theorem endsLine_joinAngles {ts : List Token} (hts : AllPrinted ts) :
    ∀ t ∈ joinAngles ts, t.kind.endsLine = false := by
  fun_induction joinAngles ts with
  | case1 t u ts h ih =>
    obtain ⟨-, hts⟩ := List.forall_mem_cons.mp hts
    obtain ⟨-, hts⟩ := List.forall_mem_cons.mp hts
    exact List.forall_mem_cons.mpr ⟨rfl, ih hts⟩
  | case2 t u ts _ ih =>
    obtain ⟨ht, hts⟩ := List.forall_mem_cons.mp hts
    exact List.forall_mem_cons.mpr ⟨ht.endsLine, ih hts⟩
  | case3 => exact fun t ht => (hts t ht).endsLine

end Token

open Token (asWord isWord)

namespace TypePhrase

/-- The text of a type stands between others. -/
theorem stands_text (f : TypePhrase .type) (hproper : f.isProper = true) :
    Token.Stands f.text.toList f.textWords := by
  rw [textWords_eq hproper, text_eq]
  exact Token.stands_of_lexes (fun _ => f.lexes_text hproper (by simp)) fun t ht =>
    Token.endsLine_joinAngles f.allPrinted_printed t (List.mem_of_getLast? ht)

/-- Is the phrase a named or built-in type without suffixes? -/
def isBare : TypePhrase .type → Bool
  | builtIn _ suffixes | named _ _ suffixes => suffixes.isEmpty
  | _ => false

/-- Is what follows the first identifier of a name read alike where an expression is expected?
There, what looks like type arguments is taken for them in front of a dot and at the end, but not in
front of two colons. -/
def isAccess : {r : TypeRole} → TypePhrase r → Bool
  | _, nameEnd | _, generic _ => true
  | _, segment _ _ tail | _, genericSegment _ .dot _ tail => tail.isAccess
  | _, _ => false

/-- The list of type arguments at the front of what follows an identifier. -/
def ownList : {r : TypeRole} → TypePhrase r → List Tree
  | _, generic arguments | _, genericSegment arguments _ _ _ => [listTree arguments.trees]
  | _, _ => []

/-- The tree of an identifier and the type arguments right behind it, as an expression. -/
def nameTree (name : Name) (tail : TypePhrase .nameTail) : Tree :=
  .node .nameExpression (.token name.token :: tail.ownList)

/-- The tree of a name as an expression, when its first segments came to `t`. -/
def accessTree : {r : TypeRole} → Tree → TypePhrase r → Tree
  | _, t, segment separator name tail | _, t, genericSegment _ separator name tail =>
    tail.accessTree (.node .memberAccessExpression
      [t, .token separator.token, nameTree name tail])
  | _, t, _ => t

/-- Is the phrase one of the types that are tested for without a declaration: a predefined one, or a
named one?  The word `not` in front of an angle bracket negates a comparison. -/
def isTested : TypePhrase .type → Bool
  | builtIn word suffixes => word.token.kind.isPredefinedType && suffixes.isEmpty
  | named name tail suffixes =>
    tail.isAccess && (name.token.text != "not" || tail.ownList.isEmpty) && suffixes.isEmpty
  | _ => false

/-- The tree of such a type behind `is`. -/
def testTree : TypePhrase .type → List Tree
  | named name tail _ => [tail.accessTree (nameTree name tail)]
  | f => f.trees

end TypePhrase

namespace Grammar

variable {power : Nat} {ws us vs rest : List Token} {ts : List Tree} {a b : Tree}

/-- **Behind `as`** a bare type ends in front of the question. -/
theorem recount_bareType (f : TypePhrase .type) (hbare : f.isBare = true)
    (h : Spells ws f.words (question :: us))
    (hstart : Words.canStartExpression (front us) = true) (ts : List Tree) :
    recount production (.type true) ws ts = some (false, question :: us, ts ++ f.trees) := by
  have hquestion : question.kind = .question := rfl
  have hnext : Words.holdsAt 1 Words.canStartExpression (question :: us) = true := by
    cases us with
    | nil => cases hstart
    | cons u us => exact hstart
  have hsuffixes (ts : List Tree) : recount production (.typeSuffixes true false)
      (question :: us) ts = some (false, question :: us, ts) := by
    rw [recount_eq, production, typeSuffixes]
    simp [hquestion, hnext]
  cases f with
  | builtIn word suffixes =>
    obtain rfl := List.isEmpty_iff.mp hbare
    obtain ⟨ws', rfl, hws⟩ :=
      (Words.spells_cons (TypePhrase.ne_greater_of_isBuiltIn word.isBuiltIn)).mp h
    obtain rfl := Words.spells_nil.mp hws
    have hkind : word.token.kind.isPredefinedType = true ∨ word.token.kind = .voidKw := by
      simpa using word.isBuiltIn
    rw [recount_eq, production, typeProduction]
    simp [typeHead, hkind, hsuffixes, TypePhrase.trees]
  | named name tail suffixes =>
    obtain rfl := List.isEmpty_iff.mp hbare
    rw [TypePhrase.words, TypePhrase.suffixWords_nil, List.append_nil] at h
    obtain ⟨ws', rfl, htail⟩ := TypePhrase.spells_name.mp h
    have hread (ts : List Tree) : recount production .typeNameTail ws' ts = _ :=
      tail.recount_eq htail rfl ts
    rw [recount_eq, production, typeProduction]
    simp [typeHead, Kind.isPredefinedType, hread, hsuffixes, TypePhrase.trees]
  | tuple => cases hbare

/-- What looks like type arguments is taken for them in front of a dot and of the question. -/
theorem recite_nameExpression_list (name : Name) (arguments : TypePhrase .arguments)
    (h : Spells ws (arguments.words ++ [closingAngle]) rest)
    (hrest : front rest = .dot ∨ front rest = .question) (ts : List Tree) :
    nameExpression.recite (recount production) (name.token :: openAngle :: ws) ts =
      some ((), rest, ts ++
        [.node .nameExpression [.token name.token, TypePhrase.listTree arguments.trees]]) := by
  obtain ⟨mid, harguments, hclose⟩ := Words.spells_append.mp h
  have hopen : Token.openAngle.kind = .less := rfl
  have hat : Words.atTypeArguments (openAngle :: ws) = true := by
    have hsuffix : rest <:+ ws := h.suffix_of_front (by
      rcases hrest with hk | hk <;> rw [hk] <;> decide)
    have hscan : Words.scanTypeArguments (openAngle :: ws) = some rest :=
      (arguments.closeAngles_eq harguments le_rfl).trans
        (Words.closeAngles_one harguments hclose hsuffix)
    rw [Words.atTypeArguments, hscan]
    rcases hrest with hk | hk <;> simp [hk, Words.closesTypeArguments]
  have hread (ts : List Tree) : recount production .typeArguments ws ts =
      some (false, mid, ts ++ arguments.trees) := by
    rw [← TypePhrase.isArray_arguments arguments]
    exact arguments.recount_eq harguments (TypePhrase.endsAt_closingAngle hclose) ts
  simp [nameExpression, expectIdentifier, hopen, hat, recite_typeArgumentList_of hread hclose]

/-- A member is accessed. -/
theorem recount_access {separator : NameSeparator} {name : Name} {e : Tree}
    (hname : ∀ ts, nameExpression.recite (recount production) (name.token :: ws) ts =
      some ((), rest, ts ++ [e])) (power : Nat) (t : Tree) :
    recount production (.operators power) (separator.token :: name.token :: ws) [t] =
      recount production (.operators power) rest
        [.node .memberAccessExpression [t, .token separator.token, e]] := by
  have hstep : operatorStep? power (front (separator.token :: name.token :: ws))
      (Words.isAt 1 .identifier (separator.token :: name.token :: ws)) = some (do
        begins .memberAccessExpression
        Action.take
        nameExpression
        Action.enclose .memberAccessExpression) := by
    cases separator <;> simp [operatorStep?, NameSeparator.token, Token.dot, Token.doubleColon]
  rw [recount_operators hstep]
  simp [hname]

/-- **A name is read as an expression**: its first segment by itself, and the others as accesses to
members of what is in front of them. -/
theorem exists_recite_nameExpression {r : TypeRole} (tail : TypePhrase r) (hr : r = .nameTail)
    (haccess : tail.isAccess = true) (h : Spells ws tail.words (question :: us)) :
    ∃ rest, (front ws = .question ∨ front ws = .dot ∨ front ws = .doubleColon ∨
        front ws = .less ∧ tail.ownList.isEmpty = false) ∧
      (∀ (name : Name) ts, nameExpression.recite (recount production) (name.token :: ws) ts =
        some ((), rest, ts ++ [.node .nameExpression (.token name.token :: tail.ownList)])) ∧
      ∀ power t, recount production (.operators power) rest [t] =
        recount production (.operators power) (question :: us) [tail.accessTree t] := by
  -- An identifier stands alone where no angle bracket follows.
  have halone (name : Name) {ws : List Token} (hless : front ws ≠ .less) (ts : List Tree) :
      nameExpression.recite (recount production) (name.token :: ws) ts =
        some ((), ws, ts ++ [.node .nameExpression [.token name.token]]) := by
    simp [nameExpression, expectIdentifier, hless]
  induction tail generalizing ws with
  | nameEnd =>
    obtain rfl := Words.spells_nil.mp h
    exact ⟨_, .inl rfl, fun name => halone name (Words.front_ne (by decide)), fun _ _ => rfl⟩
  | segment separator name tail ih =>
    obtain ⟨ws', rfl, hwords⟩ := TypePhrase.spells_separator.mp h
    obtain ⟨ws'', rfl, htail⟩ := TypePhrase.spells_name.mp hwords
    obtain ⟨rest, -, hname, hoperators⟩ := ih rfl haccess htail
    have hkind : separator.token.kind = .dot ∨ separator.token.kind = .doubleColon := by
      cases separator
      · exact .inl rfl
      · exact .inr rfl
    refine ⟨_, .inr (hkind.imp_right .inl), fun first => halone first ?_, fun power t => ?_⟩
    · rw [Words.front_cons]
      rcases hkind with hk | hk <;> rw [hk] <;> decide
    · rw [recount_access (hname name), hoperators]
      rfl
  | generic arguments =>
    obtain ⟨ws', rfl, hwords⟩ := (Words.spells_cons (by decide)).mp h
    exact ⟨_, .inr (.inr (.inr ⟨rfl, rfl⟩)),
      fun name => recite_nameExpression_list name arguments hwords (.inr rfl), fun _ _ => rfl⟩
  | genericSegment arguments separator name tail iharguments ih =>
    obtain rfl : separator = .dot := by
      cases separator
      · rfl
      · cases haccess
    obtain ⟨ws', rfl, hwords⟩ := (Words.spells_cons (by decide)).mp h
    have hsplit : Spells ws' ((arguments.words ++ [closingAngle]) ++
        NameSeparator.dot.token :: name.token :: tail.words) (question :: us) := by
      simpa using hwords
    obtain ⟨mid, hlist, hmid⟩ := Words.spells_append.mp hsplit
    obtain ⟨ws'', rfl, hname⟩ := TypePhrase.spells_separator.mp hmid
    obtain ⟨behind, rfl, htail⟩ := TypePhrase.spells_name.mp hname
    obtain ⟨rest, -, hname, hoperators⟩ := ih rfl haccess htail
    refine ⟨_, .inr (.inr (.inr ⟨rfl, rfl⟩)),
      fun first => recite_nameExpression_list first arguments hlist (.inl rfl), fun power t => ?_⟩
    rw [recount_access (hname name), hoperators]
    rfl
  | builtIn | named | tuple | noElement | lastElement | element | noArgument | unbound
  | lastArgument | argument => cases hr

/-- No variable is declared where an expression begins behind the question, unless it begins with
an identifier. -/
theorem atDeclarationExpression_question (f : TypePhrase .type) (hproper : f.isProper = true)
    (hbare : f.isBare = true) (h : Spells ws f.words (question :: us))
    (hstart : Words.canStartExpression (front us) = true) (hname : front us ≠ .identifier) :
    Words.atDeclarationExpression ws = false := by
  -- To the scan, the question mark is a suffix of the type.
  have hscan : Words.afterType ws = some us := by
    have hends : (front us).continuesType = false := by
      have hall : ∀ k : Kind, Words.canStartExpression k = true → k.continuesType = false := by
        intro k hk
        cases k <;> first | rfl | cases hk
      exact hall _ hstart
    have hsuffix : us <:+ ws :=
      (List.suffix_cons question us).trans (h.suffix_of_front nofun)
    have hwhole : Spells ws (f.words ++ TypePhrase.suffixWords [.nullable]) us :=
      Words.spells_append.mpr ⟨question :: us, h, .cons question (.nil us)⟩
    cases f with
    | builtIn word suffixes =>
      obtain rfl := List.isEmpty_iff.mp hbare
      refine (TypePhrase.builtIn word [.nullable]).isScanned rfl ws us ?_ hsuffix hends
      simpa [TypePhrase.words] using hwhole
    | named name tail suffixes =>
      obtain rfl := List.isEmpty_iff.mp hbare
      refine (TypePhrase.named name tail [.nullable]).isScanned hproper ws us ?_ hsuffix hends
      simpa [TypePhrase.words] using hwhole
    | tuple => cases hbare
  simp [Words.atDeclarationExpression, hscan, hname]

/-- A predefined type is tested for. -/
theorem recount_primaryPattern_builtIn {word : BuiltIn}
    (hword : word.token.kind.isPredefinedType = true)
    (h : Spells ws (TypePhrase.builtIn word []).words (question :: us))
    (hstart : Words.canStartExpression (front us) = true)
    (hdeclares : Words.atDeclarationExpression ws = false) :
    recount production .primaryPattern ws [] =
      some (false, question :: us, (TypePhrase.builtIn word []).testTree) := by
  have htype := recount_bareType _ rfl h hstart []
  obtain ⟨ws', rfl, -⟩ :=
    (Words.spells_cons (TypePhrase.ne_greater_of_isBuiltIn word.isBuiltIn)).mp h
  have hrelational : Words.isRelational word.token.kind = false := by
    have hall : ∀ k : Kind, k.isPredefinedType = true → Words.isRelational k = false := by
      intro k hk
      cases k <;> first | rfl | cases hk
    exact hall _ hword
  have hidentifier : word.token.kind ≠ .identifier := by
    rintro hk
    rw [hk] at hword
    cases hword
  rw [recount_eq, production]
  simp [primaryPattern, hrelational, hidentifier, hdeclares, hword, htype, TypePhrase.testTree]

/-- A name is negated by no word in front of it, unless it is `not` in front of an operator. -/
theorem atNotPattern_name {name : Name} {w : Token}
    (hword : Words.canStartExpression w.kind = false)
    (hnot : name.token.text ≠ "not" ∨ Words.isRelational w.kind = false) :
    atNotPattern (name.token :: w :: vs) = false := by
  rcases hnot with hne | hrelational
  · rw [atNotPattern, show Words.frontText (name.token :: w :: vs) = name.token.text from rfl,
      beq_eq_false_iff_ne.mpr hne, Bool.false_and]
  · have hnext : Words.holdsAt 1 (fun k => Words.canStartExpression k || Words.isRelational k)
        (name.token :: w :: vs) = false := Bool.or_eq_false_iff.mpr ⟨hword, hrelational⟩
    rw [atNotPattern, hnext, Bool.and_false]

/-- A named type is tested for as an expression. -/
theorem recount_primaryPattern_named {name : Name} {tail : TypePhrase .nameTail}
    (haccess : tail.isAccess = true)
    (hnot : (name.token.text != "not" || tail.ownList.isEmpty) = true)
    (h : Spells ws (TypePhrase.named name tail []).words (question :: us))
    (hdeclares : Words.atDeclarationExpression ws = false) :
    recount production .primaryPattern ws [] =
      some (false, question :: us, (TypePhrase.named name tail []).testTree) := by
  rw [TypePhrase.words, TypePhrase.suffixWords_nil, List.append_nil] at h
  obtain ⟨ws', rfl, htail⟩ := TypePhrase.spells_name.mp h
  obtain ⟨rest, hfront, hname, hoperators⟩ := exists_recite_nameExpression tail rfl haccess htail
  obtain ⟨w, vs, rfl⟩ : ∃ w vs, ws' = w :: vs := by
    cases ws' with
    | nil => rcases hfront with hk | hk | hk | ⟨hk, -⟩ <;> cases hk
    | cons w vs => exact ⟨w, vs, rfl⟩
  rw [Words.front_cons] at hfront
  obtain ⟨hword, harrow⟩ : Words.canStartExpression w.kind = false ∧ w.kind ≠ .fatArrow := by
    rcases hfront with hk | hk | hk | ⟨hk, -⟩ <;> rw [hk] <;> decide
  have hatnot : atNotPattern (name.token :: w :: vs) = false := by
    refine atNotPattern_name hword ((Bool.or_eq_true_iff.mp hnot).imp bne_iff_ne.mp fun hnone => ?_)
    rcases hfront with hk | hk | hk | ⟨-, hsome⟩
    case inr.inr.inr => exact absurd (hnone.symm.trans hsome) (by decide)
    all_goals rw [hk]; rfl
  have hoperand : operand.recite (recount production) (name.token :: w :: vs) [] =
      some ((), rest, [TypePhrase.nameTree name tail]) := by
    rw [recite_operand_identifier name.kind_eq hword harrow, hname]
    rfl
  have hstops : Stops shiftPower (question :: us) := rfl
  have hexpression : recount production (.expression shiftPower) (name.token :: w :: vs) [] =
      some (false, question :: us, TypePhrase.testTree (.named name tail [])) := by
    rw [Term.recount_operand hoperand, hoperators, recount_operators_of_stops hstops]
    rfl
  rw [recount_eq, production]
  simp [primaryPattern, hatnot, harrow, hdeclares, hexpression, Words.isRelational,
    Kind.isPredefinedType]

/-- **Behind `is`** a type is tested for if no variable is declared behind the question. -/
theorem recount_testPattern (f : TypePhrase .type) (hproper : f.isProper = true)
    (htested : f.isTested = true) (h : Spells ws f.words (question :: us))
    (hstart : Words.canStartExpression (front us) = true) (hname : front us ≠ .identifier)
    (ts : List Tree) :
    recount production .pattern ws ts = some (false, question :: us, ts ++ f.testTree) := by
  have hquestion : question.kind = .question := rfl
  have hprimary : recount production .primaryPattern ws [] =
      some (false, question :: us, f.testTree) := by
    cases f with
    | builtIn word suffixes =>
      obtain ⟨hword, hbare⟩ := Bool.and_eq_true_iff.mp htested
      have hdeclares := atDeclarationExpression_question _ hproper hbare h hstart hname
      obtain rfl := List.isEmpty_iff.mp hbare
      exact recount_primaryPattern_builtIn hword h hstart hdeclares
    | named name tail suffixes =>
      obtain ⟨hboth, hbare⟩ := Bool.and_eq_true_iff.mp htested
      have hdeclares := atDeclarationExpression_question _ hproper hbare h hstart hname
      obtain ⟨haccess, hnot⟩ := Bool.and_eq_true_iff.mp hboth
      obtain rfl := List.isEmpty_iff.mp hbare
      exact recount_primaryPattern_named haccess hnot h hdeclares
    | tuple => cases htested
  have hmore (ts : List Tree) : recount production .patternOperators (question :: us) ts =
      some (false, question :: us, ts) := by
    rw [recount_eq, production]
    simp [patternOperators, hquestion]
  rw [recount_eq, production]
  simp [pattern, hprimary, hmore]

/-- The tree of a conditional expression over the test of the name `x`, which the word `op` and the
trees `tested` make. -/
def conditionTree (x op : Token) (tested : List Tree) (a b : Tree) : Tree :=
  .node .conditionalExpression
    [.node .binaryExpression (.node .nameExpression [.token x] :: .token op :: tested),
      .token question, a, .token colon, b]

/-- Its words. -/
def conditionWords (x op : Token) (ts as bs : List Token) : List Token :=
  x :: op :: (ts ++ question :: (as ++ colon :: bs))

/-- **A conditional expression over a type test** that is read where it stands. -/
theorem readsBefore_condition (x : Name) (op : Token) (hop : op.kind = .isKw ∨ op.kind = .asKw)
    {tested : List Tree} {tw as bs : List Token}
    (htest : ∀ ts, (typeTestTail op.kind).recite (recount production)
      (op :: (tw ++ question :: (as ++ colon :: (bs ++ [endOfText])))) ts =
        some ((), question :: (as ++ colon :: (bs ++ [endOfText])),
          [.node .binaryExpression (ts ++ .token op :: tested)]))
    (ha : ReadsBefore 0 as (colon :: (bs ++ [endOfText])) a)
    (hb : ReadsBefore 0 bs [endOfText] b) :
    ReadsBefore 0 (conditionWords x.token op tw as bs) [endOfText]
      (conditionTree x.token op tested a b) := by
  have hstops : Stops 0 [endOfText] := rfl
  have hkinds : Words.canStartExpression op.kind = false ∧ op.kind ≠ .fatArrow ∧
      op.kind ≠ .less := by
    rcases hop with hk | hk <;> rw [hk] <;> decide
  have hstep (ws : List Token) :
      operatorStep? 0 (front (op :: ws)) (Words.isAt 1 .identifier (op :: ws)) =
        some (typeTestTail op.kind) := by
    rw [Words.front_cons]
    rcases hop with hk | hk <;> rw [hk] <;> rfl
  rw [ReadsBefore, conditionWords]
  simp only [List.cons_append, List.append_assoc]
  rw [Term.recount_operand (recite_nameBefore x hkinds.1 hkinds.2.1 hkinds.2.2),
    recount_operators (hstep _), htest, Option.bind_some,
    Term.recount_conditional (Nat.zero_le _) ha.recount_eq hb.one.recount_eq,
    recount_operators_of_stops hstops]
  rfl

/-- The text of a conditional expression over such a test. -/
def conditionText (x op : Token) (type a b : String) : String :=
  x.text ++ " " ++ op.text ++ " " ++ type ++ " ? " ++ a ++ " : " ++ b

/-- **A type test is the condition** of the conditional operator behind it.  Behind `as` this is so
for all bare types, if the first branch begins with a word that settles it.  Behind `is` it is so
for predefined types and named ones, if that word is no identifier. -/
theorem readsAs_conditionText (x : Name) (f : TypePhrase .type) (hproper : f.isProper = true)
    {atext btext : String} {a b : Tree} (ha : ReadsAs 0 atext a) (hafits : fitsBetween atext = true)
    (hb : ReadsAs 0 btext b) (hbfits : fitsBetween btext = true)
    (hstart : Words.canStartExpression (front (wordsOf atext)) = true) :
    (f.isBare = true → ReadsAs 0 (conditionText x.token asWord f.text atext btext)
      (conditionTree x.token asWord f.trees a b)) ∧
    (f.isTested = true → front (wordsOf atext) ≠ .identifier →
      ReadsAs 0 (conditionText x.token isWord f.text atext btext)
        (conditionTree x.token isWord f.testTree a b)) := by
  have hbranch : ReadsBefore 0 (wordsOf atext) (colon :: (wordsOf btext ++ [endOfText])) a := by
    refine ha.readsBefore.followed rfl nofun fun depth => ?_
    rw [hb.readsBefore.skipParens_eq]
    nofun
  have hne : wordsOf atext ≠ [] := by
    intro hnil
    rw [hnil] at hstart
    cases hstart
  have hfront : front (wordsOf atext ++ colon :: (wordsOf btext ++ [endOfText])) =
      front (wordsOf atext) := Words.front_append hne
  have hspells : Spells (f.textWords ++
      question :: (wordsOf atext ++ colon :: (wordsOf btext ++ [endOfText]))) f.words
        (question :: (wordsOf atext ++ colon :: (wordsOf btext ++ [endOfText]))) :=
    f.spells_textWords hproper _
  have hstands {op : Token} (hop : op.IsCutWord) :
      Token.Stands (conditionText x.token op f.text atext btext).toList
        (conditionWords x.token op f.textWords (wordsOf atext) (wordsOf btext)) := by
    have hmark {t : Token} (h : (t.text, t.kind) ∈ Kind.marks) := (Token.standsAlone_mark h).stands
    have hall := (Token.standsAlone_word x.cut).stands.append <|
      (Token.standsAlone_word hop).stands.append <| (f.stands_text hproper).append <|
      (hmark (t := question) (by decide)).append <| (ha.stands hafits).append <|
      (hmark (t := colon) (by decide)).append <| hb.stands hbfits
    simpa [conditionText, conditionWords, question, colon] using hall
  constructor
  · intro hbare
    have htype := recount_bareType f hbare hspells (hfront ▸ hstart)
    have htest (ts : List Tree) : (typeTestTail .asKw).recite (recount production)
        (asWord :: (f.textWords ++
          question :: (wordsOf atext ++ colon :: (wordsOf btext ++ [endOfText])))) ts =
        some ((), question :: (wordsOf atext ++ colon :: (wordsOf btext ++ [endOfText])),
          [.node .binaryExpression (ts ++ .token asWord :: f.trees)]) := by
      simp [typeTestTail, htype]
    exact readsAs_of_stands (hstands Token.isCutWord_asWord)
      (readsBefore_condition x asWord (.inr rfl) htest hbranch hb.readsBefore)
  · intro htested hname
    have hpattern :=
      recount_testPattern f hproper htested hspells (hfront ▸ hstart) (hfront ▸ hname)
    have htest (ts : List Tree) : (typeTestTail .isKw).recite (recount production)
        (isWord :: (f.textWords ++
          question :: (wordsOf atext ++ colon :: (wordsOf btext ++ [endOfText])))) ts =
        some ((), question :: (wordsOf atext ++ colon :: (wordsOf btext ++ [endOfText])),
          [.node .binaryExpression (ts ++ .token isWord :: f.testTree)]) := by
      simp [typeTestTail, hpattern]
    exact readsAs_of_stands (hstands Token.isCutWord_isWord)
      (readsBefore_condition x isWord (.inl rfl) htest hbranch hb.readsBefore)

theorem readsAs_conditionText_dotted :
    let identifier (c : Char) (h : Lexer.read true c [] = ⟨.ok .identifier, 0⟩) : Name :=
      ⟨⟨.identifier, String.ofList [c]⟩, rfl, rfl, true, [], c, [], String.toList_ofList,
        Lexer.cuts_of_read h⟩
    let x := identifier 'x' rfl
    let f := TypePhrase.named (identifier 'T' rfl)
      (.segment .dot (identifier 'U' rfl) .nameEnd) []
    let a : Tree := .node .literalExpression [.token ⟨.intLiteral, "1"⟩]
    let b : Tree := .node .nameExpression [.token ⟨.identifier, "b"⟩]
    f.isProper = true ∧ ReadsAs 0 "1" a ∧ ReadsAs 0 "b" b ∧ f.isBare = true ∧
      f.isTested = true ∧ Words.canStartExpression (front (wordsOf "1")) = true ∧
      front (wordsOf "1") ≠ .identifier ∧
      conditionText x.token isWord f.text "1" "b" = "x is T.U ? 1 : b" ∧
      ReadsAs 0 (conditionText x.token asWord f.text "1" "b")
        (conditionTree x.token asWord f.trees a b) ∧
      ReadsAs 0 (conditionText x.token isWord f.text "1" "b")
        (conditionTree x.token isWord f.testTree a b) := by
  intro identifier x f a b
  obtain ⟨ha, hafits, hstart, hname⟩ : ReadsAs 0 "1" a ∧ fitsBetween "1" = true ∧
      Words.canStartExpression (front (wordsOf "1")) = true ∧
      front (wordsOf "1") ≠ .identifier := by
    decide +kernel
  obtain ⟨hb, hbfits⟩ : ReadsAs 0 "b" b ∧ fitsBetween "b" = true := by decide +kernel
  have hboth := readsAs_conditionText x f rfl ha hafits hb hbfits hstart
  exact ⟨rfl, ha, hb, rfl, rfl, hstart, hname, rfl, hboth.1 rfl, hboth.2 rfl hname⟩

end Grammar

/-- In front of a name the question mark is taken for a part of the type, and the name for the
variable that the test declares. -/
theorem typeTest_declares : (parseExpression "a").isClean = true ∧
    (parseExpression "b").isClean = true ∧ (parseExpression "x as T ? a : b").isClean = true ∧
    (parseExpression "x is T ? a : b").isClean = false ∧
    .declarationExpression ∈ (parseExpression "x is T ? a : b").tree.kinds ∧
    .conditionalExpression ∉ (parseExpression "x is T ? a : b").tree.kinds := by
  decide +kernel

end LivePatch
