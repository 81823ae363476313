import LivePatch.Proofs.Phrases.Types

/-!
# How phrases are read

The productions for types read every phrase: from words that spell it they come to what is behind
them, with the trees of the phrase and without a problem (`TypePhrase.recount_eq`).  The proof
goes by the structure of the phrase, since each production reads one sort of phrase and calls
others for its parts.  A shift that ends two lists at once is divided on the way.
-/

namespace LivePatch

open Token (closeBracket closeParen closingAngle comma openAngle openBracket openParen question
  shift star)
open Words (front Spells spells_append spells_cons spells_append_of_ne spells_closingAngle)
open LivePatch.Action (recount recount_eq)
open Grammar (production)

/-- Words of this kind go on with a type that was read in front of them. -/
def Kind.continuesType : Kind → Bool
  | .less | .dot | .doubleColon | .question | .star | .lBracket => true
  | _ => false

namespace TypeRole

/-- The production that reads a phrase. -/
def rule : TypeRole → Rule
  | .type => .type false
  | .elements => .tupleElements
  | .nameTail => .typeNameTail
  | .arguments => .typeArguments

/-- Is it settled by a word of kind `k` behind a phrase that the phrase is over? -/
def endsAt : TypeRole → Kind → Bool
  | .type, k => !k.continuesType
  | .elements, k => k == .rParen
  | .nameTail, k => k != .less && !Words.isNameSeparator k
  | .arguments, k => k == .greater || k == .rightShift

end TypeRole

namespace Grammar

variable {answer : Rule → List Token → List Tree → Action.Recital Bool}
  {ws us rest : List Token} {ts : List Tree} {w : Token}

theorem recite_takeIf {k : Kind} :
    (takeIf k).recite answer ws ts =
      if front ws = k then Action.take.recite answer ws ts else some ((), ws, ts) := by
  rw [takeIf, Action.recite_bind, recite_sees]
  by_cases h : front ws = k <;> simp [h]

/-- Half of a shift counts as a closing angle bracket. -/
theorem recite_expectClosingAngle (h : Spells ws [closingAngle] rest) :
    expectClosingAngle.recite answer ws ts = some ((), rest, ts ++ [.token closingAngle]) := by
  rcases spells_closingAngle.mp h with ⟨ws', rfl, hnil⟩ | ⟨ws', rfl, hnil⟩
  · obtain rfl := Words.spells_nil.mp hnil
    simp [expectClosingAngle, closingAngle]
  · obtain rfl := Words.spells_nil.mp hnil
    simp [expectClosingAngle, shift, closingAngle, Action.recite_takeHalf, Action.divideShift]

theorem recount_commas (n : Nat) (h : front rest ≠ .comma) :
    recount production .commas (List.replicate n comma ++ rest) ts =
      some (false, rest, ts ++ (List.replicate n comma).map .token) := by
  induction n generalizing ts with
  | zero =>
    rw [recount_eq, production, recite_silently, commas]
    simp [h]
  | succ n ih =>
    have hcomma : comma.kind = .comma := rfl
    rw [recount_eq, production, recite_silently, commas]
    simp [List.replicate_succ, hcomma, ih]

/-- The suffixes of a type are read up to a word that is none. -/
theorem recount_typeSuffixes (suffixes : List TypeSuffix) (isArray : Bool)
    (h : (front rest).continuesType = false) :
    recount production (.typeSuffixes false isArray)
        (TypePhrase.suffixWords suffixes ++ rest) ts =
      some (isArray || suffixes.any TypeSuffix.isArray, rest,
        ts ++ (TypePhrase.suffixWords suffixes).map .token) := by
  induction suffixes generalizing ts isArray with
  | nil =>
    rw [recount_eq, production, typeSuffixes]
    have hquestion : front rest ≠ .question := fun he => by simp [he, Kind.continuesType] at h
    have hstar : front rest ≠ .star := fun he => by simp [he, Kind.continuesType] at h
    have hbracket : front rest ≠ .lBracket := fun he => by simp [he, Kind.continuesType] at h
    simp [hquestion, hstar, hbracket]
  | cons suffix suffixes ih =>
    rw [TypePhrase.suffixWords_cons, List.append_assoc, recount_eq, production, typeSuffixes]
    generalize TypePhrase.suffixWords suffixes = us at ih ⊢
    cases suffix with
    | nullable =>
      have hkind : question.kind = .question := rfl
      simp [TypeSuffix.words, hkind, ih, TypeSuffix.isArray]
    | pointer =>
      have hkind : star.kind = .star := rfl
      simp [TypeSuffix.words, hkind, ih, TypeSuffix.isArray]
    | array n =>
      have hopen : openBracket.kind = .lBracket := rfl
      have hclose : closeBracket.kind = .rBracket := rfl
      have hcommas (ts : List Tree) : recount production .commas
          (List.replicate n comma ++ closeBracket :: (us ++ rest)) ts = _ :=
        recount_commas n (by simp [hclose])
      have hrank : front (List.replicate n comma ++ closeBracket :: (us ++ rest)) = .rBracket ∨
          front (List.replicate n comma ++ closeBracket :: (us ++ rest)) = .comma := by
        cases n with
        | zero => exact .inl hclose
        | succ n => exact .inr rfl
      simp [TypeSuffix.words, hopen, hclose, hrank, arrayRank, hcommas, ih, TypeSuffix.isArray]

/-- A type is its head with the suffixes behind it. -/
theorem recount_type_of_head {head : Tree} (suffixes : List TypeSuffix)
    (hhead : typeHead.recite (recount production) ws [] =
      some ((), TypePhrase.suffixWords suffixes ++ rest, [head]))
    (h : (front rest).continuesType = false) :
    recount production (.type false) ws ts =
      some (suffixes.any TypeSuffix.isArray, rest,
        ts ++ [.node .type (head :: (TypePhrase.suffixWords suffixes).map .token)]) := by
  rw [recount_eq, production, typeProduction]
  simp [hhead, recount_typeSuffixes suffixes false h]

/-- A type argument list is its types between angle brackets. -/
theorem recite_typeArgumentList_of {mid : List Token} {trees : List Tree}
    (harguments : ∀ ts, recount production .typeArguments ws ts = some (false, mid, ts ++ trees))
    (hclose : Spells mid [closingAngle] rest) :
    typeArgumentList.recite (recount production) (openAngle :: ws) ts =
      some ((), rest, ts ++ [TypePhrase.listTree trees]) := by
  have hopen : openAngle.kind = .less := rfl
  simp [typeArgumentList, hopen, harguments, recite_expectClosingAngle hclose, TypePhrase.listTree]

end Grammar

namespace TypePhrase

open Grammar

variable {r : TypeRole} {ws us rest : List Token} {ts : List Tree} {k : Kind}

/-- What is in front of suffixes ends a name, if what is behind them does. -/
theorem endsAt_suffixWords (suffixes : List TypeSuffix) (h : (front rest).continuesType = false) :
    TypeRole.nameTail.endsAt (front (suffixWords suffixes ++ rest)) = true := by
  cases suffixes with
  | nil =>
    simp only [suffixWords_nil, List.nil_append]
    have hall : ∀ k : Kind, k.continuesType = false → TypeRole.nameTail.endsAt k = true := by
      intro k hk
      cases k <;> first | rfl | cases hk
    exact hall _ h
  | cons suffix suffixes => cases suffix <;> rfl

theorem ne_greater_of_isBuiltIn (h : (k.isPredefinedType || k == .voidKw) = true) :
    k ≠ .greater := by
  rintro rfl
  cases h

theorem kind_ne_greater_of_mem_suffixWords (suffixes : List TypeSuffix) :
    ∀ w ∈ suffixWords suffixes, w.kind ≠ .greater := by
  intro w hw
  obtain ⟨suffix, -, hw⟩ := List.mem_flatMap.mp hw
  cases suffix <;> simp [TypeSuffix.words] at hw
  · subst hw; decide
  · subst hw; decide
  · rcases hw with rfl | ⟨-, rfl⟩ | rfl <;> decide

theorem spells_suffixWords {suffixes : List TypeSuffix} :
    Spells ws (suffixWords suffixes) rest ↔ ws = suffixWords suffixes ++ rest := by
  have h : Spells ws (suffixWords suffixes ++ []) rest ↔ _ :=
    spells_append_of_ne (kind_ne_greater_of_mem_suffixWords suffixes)
  simpa using h

theorem spells_name {name : Name} :
    Spells ws (name.token :: us) rest ↔ ∃ ws', ws = name.token :: ws' ∧ Spells ws' us rest :=
  spells_cons (by simp)

theorem spells_separator {separator : NameSeparator} :
    Spells ws (separator.token :: us) rest ↔
      ∃ ws', ws = separator.token :: ws' ∧ Spells ws' us rest :=
  spells_cons (by cases separator <;> decide)

/-- The name of an element ends its type, and so does what is behind the element. -/
theorem endsAt_nameWords (name : Option Name) (h : (front ws).continuesType = false) :
    TypeRole.type.endsAt (front (nameWords name ++ ws)) = true := by
  cases name with
  | none => simpa [TypeRole.endsAt, nameWords] using h
  | some name => simp [nameWords, TypeRole.endsAt, Kind.continuesType]

theorem spells_nameWords {name : Option Name} :
    Spells ws (nameWords name ++ us) rest ↔
      ∃ ws', ws = nameWords name ++ ws' ∧ Spells ws' us rest := by
  refine spells_append_of_ne fun w hw => ?_
  cases name with
  | none => cases hw
  | some name =>
    obtain rfl : w = name.token := by simpa [nameWords] using hw
    simp

theorem spells_lastName {name : Option Name} :
    Spells ws (nameWords name) rest ↔ ws = nameWords name ++ rest := by
  have h : Spells ws (nameWords name ++ []) rest ↔ _ := spells_nameWords
  simpa using h

/-- Taking the name of an element, if it has one. -/
theorem recite_takeName {answer : Rule → List Token → List Tree → Action.Recital Bool}
    (name : Option Name) (h : front ws ≠ .identifier) :
    (takeIf .identifier).recite answer (nameWords name ++ ws) ts =
      some ((), ws, ts ++ (nameWords name).map .token) := by
  cases name with
  | none => simp [recite_takeIf, nameWords, h]
  | some name => simp [recite_takeIf, nameWords]

/-- A type begins with a word that can start one. -/
theorem canStartType_front (f : TypePhrase .type) (h : Spells ws f.words rest) :
    Words.canStartType (front ws) = true := by
  cases f with
  | builtIn word suffixes =>
    obtain ⟨ws', rfl, -⟩ := (spells_cons (ne_greater_of_isBuiltIn word.isBuiltIn)).mp h
    have hkind : word.token.kind.isPredefinedType = true ∨ word.token.kind = .voidKw := by
      simpa using word.isBuiltIn
    rcases hkind with hkind | hkind <;> simp [Words.canStartType, hkind]
  | tuple elements suffixes =>
    obtain ⟨ws', rfl, -⟩ := (spells_cons (by decide)).mp h
    rfl
  | named name tail suffixes =>
    obtain ⟨ws', rfl, -⟩ := spells_name.mp h
    simp [Words.canStartType]

/-- No word that can start a type ends a list of types or is left out of one. -/
theorem ne_of_canStartType (h : Words.canStartType k = true) :
    k ≠ .rParen ∧ k ≠ .eof ∧ k ≠ .greater ∧ k ≠ .rightShift ∧ k ≠ .comma := by
  refine ⟨?_, ?_, ?_, ?_, ?_⟩ <;> rintro rfl <;> cases h

theorem isArray_arguments (f : TypePhrase .arguments) : f.isArray = false := by
  cases f <;> rfl

theorem endsAt_closingAngle (h : Spells ws (closingAngle :: us) rest) :
    TypeRole.arguments.endsAt (front ws) = true := by
  rcases spells_closingAngle.mp h with ⟨ws', rfl, -⟩ | ⟨ws', rfl, -⟩ <;> rfl

/-- **Every phrase is read** from words that spell it, up to a word that is no part of it. -/
theorem recount_eq (f : TypePhrase r) (h : Spells ws f.words rest)
    (hend : r.endsAt (front rest) = true) (ts : List Tree) :
    recount production r.rule ws ts = some (f.isArray, rest, ts ++ f.trees) := by
  induction f generalizing ws rest ts with
  | builtIn word suffixes =>
    have hend' : (front rest).continuesType = false := by simpa [TypeRole.endsAt] using hend
    obtain ⟨ws', rfl, hsuffixes⟩ := (spells_cons (ne_greater_of_isBuiltIn word.isBuiltIn)).mp h
    obtain rfl := spells_suffixWords.mp hsuffixes
    refine recount_type_of_head suffixes ?_ hend'
    have hkind : word.token.kind.isPredefinedType = true ∨ word.token.kind = .voidKw := by
      simpa using word.isBuiltIn
    rw [typeHead]
    simp [hkind]
  | tuple elements suffixes ih =>
    have hend' : (front rest).continuesType = false := by simpa [TypeRole.endsAt] using hend
    have hopen : openParen.kind = .lParen := rfl
    have hclose : closeParen.kind = .rParen := rfl
    obtain ⟨ws', rfl, hwords⟩ := (spells_cons (by decide)).mp h
    obtain ⟨mid, helements, hmid⟩ := spells_append.mp hwords
    obtain ⟨ws'', rfl, hsuffixes⟩ := (spells_cons (by decide)).mp hmid
    obtain rfl := spells_suffixWords.mp hsuffixes
    have hread (ts : List Tree) : recount production .tupleElements ws' ts = _ :=
      ih helements rfl ts
    refine recount_type_of_head suffixes ?_ hend'
    rw [typeHead]
    simp [hopen, hclose, Kind.isPredefinedType, hread]
  | named name tail suffixes ih =>
    have hend' : (front rest).continuesType = false := by simpa [TypeRole.endsAt] using hend
    obtain ⟨ws', rfl, hwords⟩ := spells_name.mp h
    obtain ⟨mid, htail, hmid⟩ := spells_append.mp hwords
    obtain rfl := spells_suffixWords.mp hmid
    have hread (ts : List Tree) : recount production .typeNameTail ws' ts = _ :=
      ih htail (endsAt_suffixWords suffixes hend') ts
    refine recount_type_of_head suffixes ?_ hend'
    rw [typeHead]
    simp [Kind.isPredefinedType, hread]
  | noElement =>
    obtain rfl := Words.spells_nil.mp h
    have hclose : front ws = .rParen := by simpa [TypeRole.endsAt] using hend
    rw [TypeRole.rule, Action.recount_eq, production, recite_silently, tupleElements]
    simp [hclose, isArray, trees]
  | lastElement type name ih =>
    have hclose : front rest = .rParen := by simpa [TypeRole.endsAt] using hend
    obtain ⟨mid, htype, hmid⟩ := spells_append.mp h
    obtain ⟨hparen, heof, -⟩ := ne_of_canStartType (canStartType_front type htype)
    obtain rfl := spells_lastName.mp hmid
    have hread (ts : List Tree) : recount production (.type false) ws ts = _ :=
      ih htype (endsAt_nameWords name (by rw [hclose]; rfl)) ts
    have hname (ts : List Tree) : (takeIf .identifier).recite (recount production)
        (nameWords name ++ rest) ts = _ := recite_takeName name (by rw [hclose]; decide)
    rw [TypeRole.rule, Action.recount_eq, production, recite_silently, tupleElements]
    simp [hparen, heof, Grammar.type, hread, hname, hclose, isArray, trees]
  | element type name more ih ihmore =>
    obtain ⟨mid, htype, hmid⟩ := spells_append.mp h
    obtain ⟨hparen, heof, -⟩ := ne_of_canStartType (canStartType_front type htype)
    obtain ⟨mid', rfl, hcomma⟩ := spells_nameWords.mp hmid
    obtain ⟨mid'', rfl, hmore⟩ := (spells_cons (by decide)).mp hcomma
    have hread (ts : List Tree) : recount production (.type false) ws ts = _ :=
      ih htype (endsAt_nameWords name rfl) ts
    have hname (ts : List Tree) : (takeIf .identifier).recite (recount production)
        (nameWords name ++ comma :: mid'') ts = _ :=
      recite_takeName name (Words.front_ne (by decide))
    have hkind : comma.kind = .comma := rfl
    have hreadmore (ts : List Tree) : recount production .tupleElements mid'' ts = _ :=
      ihmore hmore hend ts
    rw [TypeRole.rule, Action.recount_eq, production, recite_silently, tupleElements]
    simp [hparen, heof, Grammar.type, hread, hname, hkind, hreadmore, isArray, trees]
  | nameEnd =>
    obtain rfl := Words.spells_nil.mp h
    have hless : front ws ≠ .less ∧ Words.isNameSeparator (front ws) = false := by
      simpa [TypeRole.endsAt] using hend
    rw [TypeRole.rule, Action.recount_eq, production, recite_silently, typeNameTail]
    simp [hless, isArray, trees]
  | segment separator name tail ih =>
    obtain ⟨ws', rfl, hwords⟩ := spells_separator.mp h
    obtain ⟨ws'', rfl, htail⟩ := spells_name.mp hwords
    have hread (ts : List Tree) : recount production .typeNameTail ws'' ts = _ :=
      ih htail hend ts
    rw [TypeRole.rule, Action.recount_eq, production, recite_silently, typeNameTail]
    cases separator <;>
      simp [NameSeparator.token, Token.dot, Token.doubleColon, Words.isNameSeparator, Words.isAt,
        Words.kindAt, hread, isArray, trees]
  | generic arguments ih =>
    have hless : front rest ≠ .less ∧ Words.isNameSeparator (front rest) = false := by
      simpa [TypeRole.endsAt] using hend
    obtain ⟨ws', rfl, hwords⟩ := (spells_cons (by decide)).mp h
    obtain ⟨mid, harguments, hclose⟩ := spells_append.mp hwords
    have hread (ts : List Tree) : recount production .typeArguments ws' ts =
        some (false, mid, ts ++ arguments.trees) := by
      rw [← isArray_arguments arguments]
      exact ih harguments (endsAt_closingAngle hclose) ts
    have hopen : openAngle.kind = .less := rfl
    rw [TypeRole.rule, Action.recount_eq, production, recite_silently, typeNameTail]
    simp [hopen, recite_typeArgumentList_of hread hclose, hless, isArray, trees]
  | genericSegment arguments separator name tail ih ihtail =>
    obtain ⟨ws', rfl, hwords⟩ := (spells_cons (by decide)).mp h
    obtain ⟨mid, harguments, hmid⟩ := spells_append.mp hwords
    obtain ⟨mid', hclose, hseparator⟩ := spells_append.mp
      (show Spells mid ([closingAngle] ++ separator.token :: name.token :: tail.words) rest from hmid)
    obtain ⟨ws'', rfl, hname⟩ := spells_separator.mp hseparator
    obtain ⟨behind, rfl, htail⟩ := spells_name.mp hname
    have hread (ts : List Tree) : recount production .typeArguments ws' ts =
        some (false, mid, ts ++ arguments.trees) := by
      rw [← isArray_arguments arguments]
      exact ih harguments (endsAt_closingAngle hmid) ts
    have hreadtail (ts : List Tree) : recount production .typeNameTail behind ts = _ :=
      ihtail htail hend ts
    have hopen : openAngle.kind = .less := rfl
    rw [TypeRole.rule, Action.recount_eq, production, recite_silently, typeNameTail]
    cases separator <;>
      simp [hopen, recite_typeArgumentList_of hread hclose, NameSeparator.token, Token.dot,
        Token.doubleColon, Words.isNameSeparator, hreadtail, isArray, trees]
  | noArgument =>
    obtain rfl := Words.spells_nil.mp h
    have hclose : front ws = .greater ∨ front ws = .rightShift := by
      simpa [TypeRole.endsAt] using hend
    rw [TypeRole.rule, Action.recount_eq, production, recite_silently, typeArguments]
    rcases hclose with hclose | hclose <;> simp [hclose, isArray, trees]
  | unbound more ih =>
    obtain ⟨ws', rfl, hwords⟩ := (spells_cons (by decide)).mp h
    have hread (ts : List Tree) : recount production .typeArguments ws' ts = _ :=
      ih hwords hend ts
    have hcomma : comma.kind = .comma := rfl
    rw [TypeRole.rule, Action.recount_eq, production, recite_silently, typeArguments]
    simp [hcomma, hread, isArray, trees]
  | lastArgument type ih =>
    have hclose : front rest = .greater ∨ front rest = .rightShift := by
      simpa [TypeRole.endsAt] using hend
    obtain ⟨-, heof, hgreater, hshift, hcomma⟩ := ne_of_canStartType (canStartType_front type h)
    have hread (ts : List Tree) : recount production (.type false) ws ts = _ :=
      ih h (by rcases hclose with hclose | hclose <;> rw [hclose] <;> rfl) ts
    rw [TypeRole.rule, Action.recount_eq, production, recite_silently, typeArguments]
    rcases hclose with hclose | hclose <;>
      simp [heof, hgreater, hshift, hcomma, Grammar.type, hread, hclose, isArray, trees]
  | argument type more ih ihmore =>
    obtain ⟨mid, htype, hmid⟩ := spells_append.mp h
    obtain ⟨-, heof, hgreater, hshift, hcomma⟩ := ne_of_canStartType (canStartType_front type htype)
    obtain ⟨mid', rfl, hmore⟩ := (spells_cons (by decide)).mp hmid
    have hread (ts : List Tree) : recount production (.type false) ws ts = _ :=
      ih htype rfl ts
    have hkind : comma.kind = .comma := rfl
    have hreadmore (ts : List Tree) : recount production .typeArguments mid' ts = _ :=
      ihmore hmore hend ts
    rw [TypeRole.rule, Action.recount_eq, production, recite_silently, typeArguments]
    simp [heof, hgreater, hshift, hcomma, Grammar.type, hread, hkind, hreadmore, isArray, trees]

end TypePhrase

end LivePatch
