import LivePatch.Proofs.Recounts

/-!
# Types as phrases

A type that someone writes is a term: a built-in word, a tuple or a name with type arguments, each
with suffixes behind it.  `TypePhrase` holds these terms, one sort of phrase for each production
that reads a piece of a type.  A phrase has words and trees, and both are told by its structure
alone; nothing here looks at how types are read.

The words of a phrase have all closing angle brackets one by one.  In a text two of them may come
as one shift, so `Words.Spells` says when words spell a phrase.
-/

namespace LivePatch

namespace Token

def question : Token := ⟨.question, "?"⟩
def star : Token := ⟨.star, "*"⟩
def openBracket : Token := ⟨.lBracket, "["⟩
def closeBracket : Token := ⟨.rBracket, "]"⟩
def doubleColon : Token := ⟨.doubleColon, "::"⟩

end Token

open Token (closeBracket closeParen closingAngle comma openAngle openBracket openParen question
  shift star)

/-! ## Words that mean something -/

/-- An identifier as it stands in some text. -/
structure Name where
  token : Token
  kind_eq : token.kind = .identifier
  cut : token.IsCutWord

/-- The reserved word of a built-in type as it stands in some text. -/
structure BuiltIn where
  token : Token
  isBuiltIn : (token.kind.isPredefinedType || token.kind == .voidKw) = true
  cut : token.IsCutWord

attribute [simp] Name.kind_eq

/-- What separates the segments of a name. -/
inductive NameSeparator where
  | dot
  | doubleColon

/-- The word of a separator. -/
def NameSeparator.token : NameSeparator → Token
  | .dot => .dot
  | .doubleColon => .doubleColon

/-- A suffix of a type; an array rank has some commas. -/
inductive TypeSuffix where
  | nullable
  | pointer
  | array (commas : Nat)
deriving DecidableEq

namespace TypeSuffix

/-- The words of a suffix. -/
def words : TypeSuffix → List Token
  | .nullable => [question]
  | .pointer => [star]
  | .array n => openBracket :: (List.replicate n comma ++ [closeBracket])

/-- Is the suffix an array rank? -/
def isArray : TypeSuffix → Bool
  | .array _ => true
  | _ => false

end TypeSuffix

/-! ## Phrases -/

/-- The sorts of phrases. -/
inductive TypeRole where
  /-- A type. -/
  | type
  /-- The elements of a tuple type. -/
  | elements
  /-- What follows the first identifier of a name. -/
  | nameTail
  /-- The types of a type argument list. -/
  | arguments

/-- A type, or a part of one. -/
inductive TypePhrase : TypeRole → Type where
  | builtIn (word : BuiltIn) (suffixes : List TypeSuffix) : TypePhrase .type
  | tuple (elements : TypePhrase .elements) (suffixes : List TypeSuffix) : TypePhrase .type
  | named (name : Name) (tail : TypePhrase .nameTail) (suffixes : List TypeSuffix) :
      TypePhrase .type
  | noElement : TypePhrase .elements
  | lastElement (type : TypePhrase .type) (name : Option Name) : TypePhrase .elements
  | element (type : TypePhrase .type) (name : Option Name) (more : TypePhrase .elements) :
      TypePhrase .elements
  | nameEnd : TypePhrase .nameTail
  | segment (separator : NameSeparator) (name : Name) (tail : TypePhrase .nameTail) :
      TypePhrase .nameTail
  | generic (arguments : TypePhrase .arguments) : TypePhrase .nameTail
  | genericSegment (arguments : TypePhrase .arguments) (separator : NameSeparator) (name : Name)
      (tail : TypePhrase .nameTail) : TypePhrase .nameTail
  | noArgument : TypePhrase .arguments
  | unbound (more : TypePhrase .arguments) : TypePhrase .arguments
  | lastArgument (type : TypePhrase .type) : TypePhrase .arguments
  | argument (type : TypePhrase .type) (more : TypePhrase .arguments) : TypePhrase .arguments

namespace TypePhrase

/-- The words of suffixes. -/
def suffixWords (suffixes : List TypeSuffix) : List Token := suffixes.flatMap TypeSuffix.words

@[simp] theorem suffixWords_nil : suffixWords [] = [] := rfl

@[simp] theorem suffixWords_cons (suffix : TypeSuffix) (suffixes : List TypeSuffix) :
    suffixWords (suffix :: suffixes) = suffix.words ++ suffixWords suffixes :=
  List.flatMap_cons

/-- The word of an element's name, if it has one. -/
def nameWords (name : Option Name) : List Token := (name.map Name.token).toList

/-- The words of a phrase, each closing angle bracket for itself. -/
def words : {r : TypeRole} → TypePhrase r → List Token
  | _, builtIn word suffixes => word.token :: suffixWords suffixes
  | _, tuple elements suffixes =>
    openParen :: (elements.words ++ closeParen :: suffixWords suffixes)
  | _, named name tail suffixes => name.token :: (tail.words ++ suffixWords suffixes)
  | _, noElement => []
  | _, lastElement type name => type.words ++ nameWords name
  | _, element type name more => type.words ++ (nameWords name ++ comma :: more.words)
  | _, nameEnd => []
  | _, segment separator name tail => separator.token :: name.token :: tail.words
  | _, generic arguments => openAngle :: (arguments.words ++ [closingAngle])
  | _, genericSegment arguments separator name tail =>
    openAngle :: (arguments.words ++ closingAngle :: separator.token :: name.token :: tail.words)
  | _, noArgument => []
  | _, unbound more => comma :: more.words
  | _, lastArgument type => type.words
  | _, argument type more => type.words ++ comma :: more.words

/-- The tree of a type argument list. -/
def listTree (arguments : List Tree) : Tree :=
  .node .typeArgumentList (.token openAngle :: (arguments ++ [.token closingAngle]))

/-- The trees of a phrase: the words stand below the nodes of the types that they belong to. -/
def trees : {r : TypeRole} → TypePhrase r → List Tree
  | _, builtIn word suffixes =>
    [.node .type (.node .predefinedType [.token word.token] ::
      (suffixWords suffixes).map .token)]
  | _, tuple elements suffixes =>
    [.node .type (.node .tupleType
        (.token openParen :: (elements.trees ++ [.token closeParen])) ::
      (suffixWords suffixes).map .token)]
  | _, named name tail suffixes =>
    [.node .type (.node .namedType (.token name.token :: tail.trees) ::
      (suffixWords suffixes).map .token)]
  | _, noElement => []
  | _, lastElement type name => type.trees ++ (nameWords name).map .token
  | _, element type name more =>
    type.trees ++ ((nameWords name).map .token ++ .token comma :: more.trees)
  | _, nameEnd => []
  | _, segment separator name tail =>
    .token separator.token :: .token name.token :: tail.trees
  | _, generic arguments => [listTree arguments.trees]
  | _, genericSegment arguments separator name tail =>
    listTree arguments.trees :: .token separator.token :: .token name.token :: tail.trees
  | _, noArgument => []
  | _, unbound more => .token comma :: more.trees
  | _, lastArgument type => type.trees
  | _, argument type more => type.trees ++ .token comma :: more.trees

/-- Is the phrase a type with an array rank? -/
def isArray : {r : TypeRole} → TypePhrase r → Bool
  | _, builtIn _ suffixes | _, tuple _ suffixes | _, named _ _ suffixes =>
    suffixes.any TypeSuffix.isArray
  | _, _ => false

end TypePhrase

/-! ## Spelling -/

namespace Words

/-- The words `ws` spell the words `us`, and `rest` is behind them.  A shift spells two closing
angle brackets; if it spells only one of them, the other is still in front of the rest. -/
inductive Spells : List Token → List Token → List Token → Prop
  | nil (ws : List Token) : Spells ws [] ws
  | cons (w : Token) {ws us rest : List Token} : Spells ws us rest →
      Spells (w :: ws) (w :: us) rest
  | half {ws us rest : List Token} : Spells (closingAngle :: ws) us rest →
      Spells (shift :: ws) (closingAngle :: us) rest

variable {w : Token} {ws us vs rest : List Token}

@[simp] theorem spells_nil : Spells ws [] rest ↔ ws = rest := by
  constructor
  · rintro ⟨⟩
    rfl
  · rintro rfl
    exact .nil ws

theorem front_ne {w : Token} {k : Kind} (h : w.kind ≠ k) : front (w :: ws) ≠ k := h

/-- A word that is no closing angle bracket spells itself alone. -/
theorem spells_cons (hw : w.kind ≠ .greater) :
    Spells ws (w :: us) rest ↔ ∃ ws', ws = w :: ws' ∧ Spells ws' us rest := by
  constructor
  · intro h
    cases h with
    | cons _ h => exact ⟨_, rfl, h⟩
    | half h => exact absurd rfl hw
  · rintro ⟨ws', rfl, h⟩
    exact .cons w h

theorem spells_closingAngle : Spells ws (closingAngle :: us) rest ↔
    (∃ ws', ws = closingAngle :: ws' ∧ Spells ws' us rest) ∨
      ∃ ws', ws = shift :: ws' ∧ Spells (closingAngle :: ws') us rest := by
  constructor
  · intro h
    cases h with
    | cons _ h => exact .inl ⟨_, rfl, h⟩
    | half h => exact .inr ⟨_, rfl, h⟩
  · rintro (⟨ws', rfl, h⟩ | ⟨ws', rfl, h⟩)
    · exact .cons _ h
    · exact .half h

theorem spells_append : Spells ws (us ++ vs) rest ↔
    ∃ mid, Spells ws us mid ∧ Spells mid vs rest := by
  constructor
  · intro h
    induction us generalizing ws with
    | nil => exact ⟨ws, .nil ws, h⟩
    | cons u us ih =>
      cases h with
      | cons _ h =>
        obtain ⟨mid, hus, hvs⟩ := ih h
        exact ⟨mid, .cons u hus, hvs⟩
      | half h =>
        obtain ⟨mid, hus, hvs⟩ := ih h
        exact ⟨mid, .half hus, hvs⟩
  · rintro ⟨mid, hus, hvs⟩
    induction hus with
    | nil => exact hvs
    | cons w _ ih => exact .cons w (ih hvs)
    | half _ ih => exact .half (ih hvs)

/-- Words without closing angle brackets spell themselves alone. -/
theorem spells_append_of_ne (hus : ∀ u ∈ us, u.kind ≠ .greater) :
    Spells ws (us ++ vs) rest ↔ ∃ ws', ws = us ++ ws' ∧ Spells ws' vs rest := by
  induction us generalizing ws with
  | nil => simp
  | cons u us ih =>
    obtain ⟨hu, hus⟩ := List.forall_mem_cons.mp hus
    rw [List.cons_append, spells_cons hu]
    constructor
    · rintro ⟨ws', rfl, h⟩
      obtain ⟨ws'', rfl, h'⟩ := (ih hus).mp h
      exact ⟨ws'', rfl, h'⟩
    · rintro ⟨ws'', rfl, h⟩
      exact ⟨us ++ ws'', rfl, (ih hus).mpr ⟨ws'', rfl, h⟩⟩

theorem spells_self_append : Spells (us ++ rest) us rest := by
  induction us with
  | nil => exact .nil rest
  | cons u us ih => exact .cons u ih

/-- What is left behind words that spell something is a part of the words, or the second half of a
shift among them is in front of such a part. -/
theorem Spells.suffix (h : Spells ws us rest) :
    rest <:+ ws ∨ ∃ rest', rest = closingAngle :: rest' ∧ shift :: rest' <:+ ws := by
  induction h with
  | nil ws => exact .inl List.suffix_rfl
  | cons w _ ih =>
    rcases ih with h | ⟨rest', rfl, h⟩
    · exact .inl (h.trans (List.suffix_cons _ _))
    · exact .inr ⟨rest', rfl, h.trans (List.suffix_cons _ _)⟩
  | @half ws us rest _ ih =>
    rcases ih with h | ⟨rest', rfl, h⟩
    · rcases List.suffix_cons_iff.mp h with rfl | h
      · exact .inr ⟨ws, rfl, List.suffix_rfl⟩
      · exact .inl (h.trans (List.suffix_cons _ _))
    · rcases List.suffix_cons_iff.mp h with h | h
      · cases h
      · exact .inr ⟨rest', rfl, h.trans (List.suffix_cons _ _)⟩

theorem Spells.suffix_of_front (h : Spells ws us rest) (hrest : front rest ≠ .greater) :
    rest <:+ ws := by
  rcases h.suffix with h | ⟨rest', rfl, -⟩
  · exact h
  · exact absurd rfl hrest

/-- The half of a shift is no part of the words. -/
theorem not_suffix_half (h : shift :: rest <:+ ws) : ¬ closingAngle :: rest <:+ ws := by
  intro hhalf
  have heq := List.suffix_of_suffix_length_le hhalf h (by simp)
  rcases List.suffix_cons_iff.mp heq with h | h
  · cases h
  · exact absurd h.length_le (by simp)

/-- What is no half of a shift in the whole text is none behind words of it. -/
theorem Spells.suffix_of_suffix {all : List Token} (h : Spells ws us rest) (hws : ws <:+ all)
    (hrest : rest <:+ all) : rest <:+ ws := by
  rcases h.suffix with hpart | ⟨rest', rfl, hhalf⟩
  · exact hpart
  · exact absurd hrest (not_suffix_half (hhalf.trans hws))

end Words

end LivePatch
