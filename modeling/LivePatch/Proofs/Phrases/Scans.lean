import LivePatch.Proofs.Phrases.Readings

/-!
# How phrases are passed over

The scans that look ahead pass over a phrase as a whole.  Type arguments are only matched by their
brackets there, and brackets are balanced in every phrase (`TypePhrase.closeAngles_eq`).  Outside
of type arguments the scans go by the structure of types, and `TypePhrase.isScanned` follows it.

A scan cannot take half of a shift.  So what is behind a type must begin with a whole word of the
text, which it does unless the type stands in a type argument list.
-/

namespace LivePatch

open Token (closeBracket closeParen closingAngle comma openAngle openBracket openParen question
  shift star)
open Words (front Spells spells_append spells_cons spells_append_of_ne spells_closingAngle
  closeAngles afterTypeArguments skipNameTail skipTypeSuffixes skipIdentifier scanType
  scanTupleElements afterType)

namespace Words

variable {w : Token} {ws rest : List Token} {depth : Nat}

/-- A word that may stand in type arguments is passed. -/
theorem closeAngles_cons (hw : isTypeArgumentWord w.kind = true) :
    closeAngles depth (w :: ws) = closeAngles depth ws := by
  rw [closeAngles]
  split
  case h_4 => exact if_pos hw
  all_goals
    rename_i hk
    rw [hk] at hw
    cases hw

/-- So are such words one after the other. -/
theorem closeAngles_append (us : List Token)
    (hus : ∀ u ∈ us, isTypeArgumentWord u.kind = true) :
    closeAngles depth (us ++ ws) = closeAngles depth ws := by
  induction us with
  | nil => rfl
  | cons u us ih =>
    obtain ⟨hu, hus⟩ := List.forall_mem_cons.mp hus
    rw [List.cons_append, closeAngles_cons hu, ih hus]

/-- A closing angle bracket closes one of several open ones, even if it is half of a shift. -/
theorem closeAngles_closingAngle (hdepth : 1 ≤ depth) (h : Spells ws [closingAngle] rest) :
    closeAngles (depth + 1) ws = closeAngles depth rest := by
  rcases spells_closingAngle.mp h with ⟨ws', rfl, hnil⟩ | ⟨ws', rfl, hnil⟩
  · obtain rfl := spells_nil.mp hnil
    simp [closeAngles, closingAngle, Nat.not_le.mpr (Nat.lt_succ_of_le hdepth)]
  · obtain rfl := spells_nil.mp hnil
    obtain ⟨n, rfl⟩ := Nat.exists_eq_add_of_le' hdepth
    cases n <;> simp [closeAngles, closingAngle, shift]

/-- It closes the last open one, unless it is half of a shift. -/
theorem closeAngles_one {us mid : List Token} (hmid : Spells ws us mid)
    (h : Spells mid [closingAngle] rest) (hrest : rest <:+ ws) :
    closeAngles 1 mid = some rest := by
  rcases spells_closingAngle.mp h with ⟨ws', rfl, hnil⟩ | ⟨ws', rfl, hnil⟩
  · obtain rfl := spells_nil.mp hnil
    simp [closeAngles, closingAngle]
  · obtain rfl := spells_nil.mp hnil
    exact absurd hrest (not_suffix_half (hmid.suffix_of_front (Words.front_ne (by decide))))

end Words

namespace TypePhrase

open Words

variable {r : TypeRole} {ws us rest : List Token} {depth : Nat}

theorem isTypeArgumentWord_of_mem_suffixWords (suffixes : List TypeSuffix) :
    ∀ w ∈ suffixWords suffixes, isTypeArgumentWord w.kind = true := by
  intro w hw
  obtain ⟨suffix, -, hw⟩ := List.mem_flatMap.mp hw
  cases suffix <;> simp [TypeSuffix.words] at hw
  · subst hw; rfl
  · subst hw; rfl
  · rcases hw with rfl | ⟨-, rfl⟩ | rfl <;> rfl

theorem isTypeArgumentWord_builtIn (word : BuiltIn) : isTypeArgumentWord word.token.kind = true := by
  have hall : ∀ k : Kind, (k.isPredefinedType || k == .voidKw) = true →
      isTypeArgumentWord k = true := by
    intro k hk
    cases k <;> first | rfl | cases hk
  exact hall _ word.isBuiltIn

theorem isTypeArgumentWord_separator (separator : NameSeparator) :
    isTypeArgumentWord separator.token.kind = true := by
  cases separator <;> rfl

theorem closeAngles_name (name : Name) :
    closeAngles depth (name.token :: ws) = closeAngles depth ws :=
  closeAngles_cons (by simp [isTypeArgumentWord])

theorem closeAngles_separator (separator : NameSeparator) :
    closeAngles depth (separator.token :: ws) = closeAngles depth ws :=
  closeAngles_cons (isTypeArgumentWord_separator separator)

theorem closeAngles_nameWords (name : Option Name) :
    closeAngles depth (nameWords name ++ ws) = closeAngles depth ws := by
  cases name with
  | none => rfl
  | some name => exact closeAngles_name name

/-- A type argument list closes the angle bracket that it opens. -/
theorem closeAngles_list {mid : List Token} (hdepth : 1 ≤ depth)
    (harguments : closeAngles (depth + 1) ws = closeAngles (depth + 1) mid)
    (hclose : Spells mid [closingAngle] rest) :
    closeAngles depth (openAngle :: ws) = closeAngles depth rest := by
  rw [closeAngles]
  exact harguments.trans (closeAngles_closingAngle hdepth hclose)

/-- **Angle brackets are balanced in every phrase.** -/
theorem closeAngles_eq (f : TypePhrase r) (h : Spells ws f.words rest) (hdepth : 1 ≤ depth) :
    closeAngles depth ws = closeAngles depth rest := by
  induction f generalizing ws rest depth with
  | builtIn word suffixes =>
    obtain ⟨ws', rfl, hsuffixes⟩ := (spells_cons (ne_greater_of_isBuiltIn word.isBuiltIn)).mp h
    obtain rfl := spells_suffixWords.mp hsuffixes
    rw [closeAngles_cons (isTypeArgumentWord_builtIn word),
      closeAngles_append _ (isTypeArgumentWord_of_mem_suffixWords suffixes)]
  | tuple elements suffixes ih =>
    obtain ⟨ws', rfl, hwords⟩ := (spells_cons (by decide)).mp h
    obtain ⟨mid, helements, hmid⟩ := spells_append.mp hwords
    obtain ⟨ws'', rfl, hsuffixes⟩ := (spells_cons (by decide)).mp hmid
    obtain rfl := spells_suffixWords.mp hsuffixes
    rw [closeAngles_cons rfl, ih helements hdepth, closeAngles_cons rfl,
      closeAngles_append _ (isTypeArgumentWord_of_mem_suffixWords suffixes)]
  | named name tail suffixes ih =>
    obtain ⟨ws', rfl, hwords⟩ := spells_name.mp h
    obtain ⟨mid, htail, hmid⟩ := spells_append.mp hwords
    obtain rfl := spells_suffixWords.mp hmid
    rw [closeAngles_name, ih htail hdepth,
      closeAngles_append _ (isTypeArgumentWord_of_mem_suffixWords suffixes)]
  | noElement | nameEnd | noArgument => rw [spells_nil.mp h]
  | lastElement type name ih =>
    obtain ⟨mid, htype, hmid⟩ := spells_append.mp h
    obtain rfl := spells_lastName.mp hmid
    rw [ih htype hdepth, closeAngles_nameWords]
  | element type name more ih ihmore =>
    obtain ⟨mid, htype, hmid⟩ := spells_append.mp h
    obtain ⟨mid', rfl, hcomma⟩ := spells_nameWords.mp hmid
    obtain ⟨mid'', rfl, hmore⟩ := (spells_cons (by decide)).mp hcomma
    rw [ih htype hdepth, closeAngles_nameWords, closeAngles_cons rfl, ihmore hmore hdepth]
  | segment separator name tail ih =>
    obtain ⟨ws', rfl, hwords⟩ := spells_separator.mp h
    obtain ⟨ws'', rfl, htail⟩ := spells_name.mp hwords
    rw [closeAngles_separator, closeAngles_name, ih htail hdepth]
  | generic arguments ih =>
    obtain ⟨ws', rfl, hwords⟩ := (spells_cons (by decide)).mp h
    obtain ⟨mid, harguments, hclose⟩ := spells_append.mp hwords
    exact closeAngles_list hdepth (ih harguments (Nat.le_add_left 1 depth)) hclose
  | genericSegment arguments separator name tail ih ihtail =>
    obtain ⟨ws', rfl, hwords⟩ := (spells_cons (by decide)).mp h
    obtain ⟨mid, harguments, hmid⟩ := spells_append.mp hwords
    obtain ⟨mid', hclose, hseparator⟩ := spells_append.mp
      (show Spells mid ([closingAngle] ++ separator.token :: name.token :: tail.words) rest from hmid)
    obtain ⟨ws'', rfl, hname⟩ := spells_separator.mp hseparator
    obtain ⟨behind, rfl, htail⟩ := spells_name.mp hname
    rw [closeAngles_list hdepth (ih harguments (Nat.le_add_left 1 depth)) hclose,
      closeAngles_separator, closeAngles_name, ihtail htail hdepth]
  | unbound more ih =>
    obtain ⟨ws', rfl, hwords⟩ := (spells_cons (by decide)).mp h
    rw [closeAngles_cons rfl, ih hwords hdepth]
  | lastArgument type ih => exact ih h hdepth
  | argument type more ih ihmore =>
    obtain ⟨mid, htype, hmid⟩ := spells_append.mp h
    obtain ⟨mid', rfl, hmore⟩ := (spells_cons (by decide)).mp hmid
    rw [ih htype hdepth, closeAngles_cons rfl, ihmore hmore hdepth]

/-! ## Types outside of type arguments -/

/-- A type argument list is passed, if no shift is divided at its end. -/
theorem afterTypeArguments_list (arguments : TypePhrase .arguments)
    (h : Spells ws (arguments.words ++ [closingAngle]) rest) (hrest : rest <:+ ws) :
    afterTypeArguments (openAngle :: ws) = some rest := by
  obtain ⟨mid, harguments, hclose⟩ := spells_append.mp h
  have hscan : closeAngles 1 ws = closeAngles 1 mid := arguments.closeAngles_eq harguments le_rfl
  have hlist : closeAngles 1 ws = some rest := hscan.trans (closeAngles_one harguments hclose hrest)
  simpa [afterTypeArguments, scanTypeArguments, openAngle] using hlist

theorem skipTypeSuffixes_eq (h : (front rest).continuesType = false) :
    skipTypeSuffixes rest = rest := by
  cases rest with
  | nil => rw [skipTypeSuffixes]
  | cons w ws =>
    have hquestion : w.kind ≠ .question := fun he => by simp [he, Kind.continuesType] at h
    have hstar : w.kind ≠ .star := fun he => by simp [he, Kind.continuesType] at h
    have hbracket : w.kind ≠ .lBracket := fun he => by simp [he, Kind.continuesType] at h
    rw [skipTypeSuffixes]
    simp [hquestion, hstar, hbracket]

theorem skipTypeSuffixes_cons {w : Token} (hw : w.kind = .question ∨ w.kind = .star) :
    skipTypeSuffixes (w :: ws) = skipTypeSuffixes ws := by
  rw [skipTypeSuffixes, if_pos (by simpa using hw)]

theorem skipTypeSuffixes_array (n : Nat) :
    skipTypeSuffixes (openBracket :: (List.replicate n comma ++ closeBracket :: ws)) =
      skipTypeSuffixes ws := by
  have hcommas : (List.replicate n comma ++ closeBracket :: ws).dropWhile
      (fun w : Token => w.kind == .comma) = closeBracket :: ws := by
    induction n with
    | zero => rfl
    | succ n ih => exact ih
  rw [skipTypeSuffixes, if_neg (by decide), if_pos (by decide)]
  split
  · rename_i hnil
    rw [hcommas] at hnil
    cases hnil
  · rename_i hcons
    rw [hcommas] at hcons
    obtain ⟨rfl, rfl⟩ := List.cons.inj hcons
    rw [if_pos (by decide)]

/-- The suffixes of a type are passed. -/
theorem skipTypeSuffixes_append (suffixes : List TypeSuffix)
    (h : (front rest).continuesType = false) :
    skipTypeSuffixes (suffixWords suffixes ++ rest) = rest := by
  induction suffixes with
  | nil => exact skipTypeSuffixes_eq h
  | cons suffix suffixes ih =>
    rw [suffixWords_cons, List.append_assoc]
    cases suffix with
    | nullable => exact (skipTypeSuffixes_cons (.inl rfl)).trans ih
    | pointer => exact (skipTypeSuffixes_cons (.inr rfl)).trans ih
    | array n =>
      simp only [TypeSuffix.words, List.cons_append, List.append_assoc, List.nil_append]
      rw [skipTypeSuffixes_array, ih]

/-- A name goes on where a separator and a word follow. -/
theorem skipNameTail_segment {separator : NameSeparator} {name : Name}
    (h : afterTypeArguments ws = some (separator.token :: name.token :: rest)) :
    skipNameTail ws = skipNameTail rest := by
  rw [skipNameTail]
  split
  all_goals
    rename_i heq
    rw [h] at heq
    cases heq
  rw [if_pos]
  cases separator <;> simp [NameSeparator.token, Token.dot, Token.doubleColon, isNameSeparator]

theorem skipNameTail_end (h : afterTypeArguments ws = some rest)
    (hrest : isNameSeparator (front rest) = false) : skipNameTail ws = rest := by
  rw [skipNameTail]
  split
  all_goals
    rename_i heq
    rw [h] at heq
    cases heq
  · rfl
  · rfl
  · rw [if_neg]
    simpa using fun hsep => absurd (hrest.symm.trans hsep) (by simp)

theorem afterTypeArguments_self (h : front ws ≠ .less) : afterTypeArguments ws = some ws := by
  simp [afterTypeArguments, h]

/-- No two question marks stand side by side. -/
def marksOnce : List TypeSuffix → Bool
  | .nullable :: .nullable :: _ => false
  | _ :: suffixes => marksOnce suffixes
  | [] => true

/-- More than one element stands in the tuple. -/
def isSeveral : TypePhrase .elements → Bool
  | element _ _ _ => true
  | _ => false

/-- Is the phrase written as types are outside of type arguments: each tuple of several elements,
no list with a gap or with a comma at its end, and no type marked twice as nullable? -/
def isProper : {r : TypeRole} → TypePhrase r → Bool
  | _, builtIn _ suffixes => marksOnce suffixes
  | _, tuple elements suffixes => elements.isSeveral && elements.isProper && marksOnce suffixes
  | _, named _ tail suffixes => tail.isProper && marksOnce suffixes
  | _, noElement => false
  | _, lastElement type _ => type.isProper
  | _, element type _ more => type.isProper && more.isProper
  | _, nameEnd => true
  | _, segment _ _ tail => tail.isProper
  | _, generic arguments => arguments.isProper
  | _, genericSegment arguments _ _ tail => arguments.isProper && tail.isProper
  | _, noArgument => false
  | _, unbound _ => false
  | _, lastArgument type => type.isProper
  | _, argument type more => type.isProper && more.isProper

/-- How the scans pass over a phrase that the words `ws` spell. -/
def IsScanned : {r : TypeRole} → TypePhrase r → Prop
  | .type, f => ∀ ws rest, Spells ws f.words rest → rest <:+ ws →
      (front rest).continuesType = false → afterType ws = some rest
  | .elements, f => ∀ count ws rest, Spells ws f.words (closeParen :: rest) →
      (1 ≤ count ∨ f.isSeveral = true) →
      afterElements count ws = some rest
  | .nameTail, f => ∀ ws rest, Spells ws f.words rest → rest <:+ ws →
      TypeRole.nameTail.endsAt (front rest) = true → skipNameTail ws = rest
  | .arguments, _ => True

theorem afterType_builtIn {w : Token} (hw : (w.kind.isPredefinedType || w.kind == .voidKw) = true) :
    afterType (w :: ws) = some (skipTypeSuffixes ws) := by
  rw [afterType, scanType, if_pos hw, Option.map_some]

theorem afterType_name {w : Token} (hw : w.kind = .identifier) :
    afterType (w :: ws) = some (skipTypeSuffixes (skipNameTail ws)) := by
  rw [afterType, scanType]
  simp [hw, Kind.isPredefinedType]

theorem afterType_openParen :
    afterType (openParen :: ws) = (afterElements 0 ws).map skipTypeSuffixes := by
  rw [afterType, scanType, if_neg (by decide), if_neg (by decide), if_pos (by decide),
    afterElements]
  cases scanTupleElements 0 ws <;> rfl

/-- What is behind the first identifier of a name begins with a whole word. -/
theorem suffix_of_spells_tail {mid : List Token} {suffixes : List TypeSuffix}
    (h : Spells ws us (suffixWords suffixes ++ rest)) (hws : ws <:+ mid) (hrest : rest <:+ mid) :
    suffixWords suffixes ++ rest <:+ ws := by
  cases suffixes with
  | nil => exact Spells.suffix_of_suffix h hws hrest
  | cons suffix suffixes =>
    exact h.suffix_of_front (by cases suffix <;> exact Words.front_ne (by decide))

/-- **Every phrase is passed over** as it is read. -/
theorem isScanned (f : TypePhrase r) (hproper : f.isProper = true) : f.IsScanned := by
  induction f with
  | builtIn word suffixes =>
    intro ws rest h hrest hend
    obtain ⟨ws', rfl, hsuffixes⟩ := (spells_cons (ne_greater_of_isBuiltIn word.isBuiltIn)).mp h
    obtain rfl := spells_suffixWords.mp hsuffixes
    rw [afterType_builtIn word.isBuiltIn, skipTypeSuffixes_append suffixes hend]
  | tuple elements suffixes ih =>
    intro ws rest h hrest hend
    obtain ⟨⟨hseveral, hproper'⟩, -⟩ := (Bool.and_eq_true_iff.mp hproper).imp_left
      Bool.and_eq_true_iff.mp
    obtain ⟨ws', rfl, hwords⟩ := (spells_cons (by decide)).mp h
    obtain ⟨mid, helements, hmid⟩ := spells_append.mp hwords
    obtain ⟨ws'', rfl, hsuffixes⟩ := (spells_cons (by decide)).mp hmid
    obtain rfl := spells_suffixWords.mp hsuffixes
    rw [afterType_openParen, ih hproper' 0 ws' _ helements (.inr hseveral), Option.map_some,
      skipTypeSuffixes_append suffixes hend]
  | named name tail suffixes ih =>
    intro ws rest h hrest hend
    obtain ⟨hproper', -⟩ := Bool.and_eq_true_iff.mp hproper
    obtain ⟨ws', rfl, hwords⟩ := spells_name.mp h
    obtain ⟨mid, htail, hmid⟩ := spells_append.mp hwords
    obtain rfl := spells_suffixWords.mp hmid
    rw [afterType_name name.kind_eq, ih hproper' ws' _ htail
      (suffix_of_spells_tail htail (List.suffix_cons _ _) hrest) (endsAt_suffixWords suffixes hend),
      skipTypeSuffixes_append suffixes hend]
  | noElement => cases hproper
  | lastElement type name ih =>
    intro count ws rest h hcount
    obtain ⟨mid, htype, hmid⟩ := spells_append.mp h
    obtain rfl := spells_lastName.mp hmid
    have hend : (front (nameWords name ++ closeParen :: rest)).continuesType = false := by
      simpa [TypeRole.endsAt] using endsAt_nameWords name rfl
    have hwhole : nameWords name ++ closeParen :: rest <:+ ws :=
      htype.suffix_of_front (by cases name <;> simp [nameWords, closeParen])
    have hcount' : 1 ≤ count := by simpa [isSeveral] using hcount
    rw [afterElements_eq, ih hproper ws _ htype hwhole hend]
    cases name <;> simp [nameWords, skipIdentifier, closeParen, hcount']
  | element type name more ih ihmore =>
    intro count ws rest h hcount
    obtain ⟨hproper', hmoreproper⟩ := Bool.and_eq_true_iff.mp hproper
    obtain ⟨mid, htype, hmid⟩ := spells_append.mp h
    obtain ⟨mid', rfl, hcomma⟩ := spells_nameWords.mp hmid
    obtain ⟨mid'', rfl, hmore⟩ := (spells_cons (by decide)).mp hcomma
    have hend : (front (nameWords name ++ comma :: mid'')).continuesType = false := by
      simpa [TypeRole.endsAt] using endsAt_nameWords name rfl
    have hwhole : nameWords name ++ comma :: mid'' <:+ ws :=
      htype.suffix_of_front (by cases name <;> simp [nameWords, comma])
    have hscan := ihmore hmoreproper (count + 1) mid'' rest hmore (.inl (Nat.le_add_left 1 count))
    rw [afterElements_eq, ih hproper' ws _ htype hwhole hend]
    cases name <;> simp [nameWords, skipIdentifier, comma, hscan]
  | nameEnd =>
    intro ws rest h hrest hend
    obtain ⟨hless, hseparator⟩ : front rest ≠ .less ∧ isNameSeparator (front rest) = false := by
      simpa [TypeRole.endsAt] using hend
    obtain rfl := spells_nil.mp h
    exact skipNameTail_end (afterTypeArguments_self hless) hseparator
  | segment separator name tail ih =>
    intro ws rest h hrest hend
    obtain ⟨ws', rfl, hwords⟩ := spells_separator.mp h
    obtain ⟨ws'', rfl, htail⟩ := spells_name.mp hwords
    have hless : separator.token.kind ≠ .less := by cases separator <;> decide
    rw [skipNameTail_segment (afterTypeArguments_self (Words.front_ne hless))]
    refine ih hproper ws'' rest htail (htail.suffix_of_suffix ?_ hrest) hend
    exact (List.suffix_cons _ _).trans (List.suffix_cons _ _)
  | generic arguments ih =>
    intro ws rest h hrest hend
    obtain ⟨-, hseparator⟩ : front rest ≠ .less ∧ isNameSeparator (front rest) = false := by
      simpa [TypeRole.endsAt] using hend
    obtain ⟨ws', rfl, hwords⟩ := (spells_cons (by decide)).mp h
    exact skipNameTail_end (afterTypeArguments_list arguments hwords
      (hwords.suffix_of_suffix (List.suffix_cons _ _) hrest)) hseparator
  | genericSegment arguments separator name tail ih ihtail =>
    intro ws rest h hrest hend
    obtain ⟨-, htailproper⟩ := Bool.and_eq_true_iff.mp hproper
    obtain ⟨ws', rfl, hwords⟩ := (spells_cons (by decide)).mp h
    obtain ⟨mid, hlist, hmid⟩ := spells_append.mp
      (show Spells ws' ((arguments.words ++ [closingAngle]) ++
        separator.token :: name.token :: tail.words) rest by simpa using hwords)
    obtain ⟨mid', rfl, hname⟩ := spells_separator.mp hmid
    obtain ⟨ws'', rfl, htail⟩ := spells_name.mp hname
    have hwhole : separator.token :: name.token :: ws'' <:+ ws' :=
      hlist.suffix_of_front (Words.front_ne (by cases separator <;> decide))
    rw [skipNameTail_segment (afterTypeArguments_list arguments hlist hwhole)]
    refine ihtail htailproper ws'' rest htail (htail.suffix_of_suffix ?_ hrest) hend
    exact (List.suffix_cons _ _).trans ((List.suffix_cons _ _).trans
      (hwhole.trans (List.suffix_cons _ _)))
  | noArgument => cases hproper
  | unbound | lastArgument | argument => trivial

end TypePhrase

end LivePatch
