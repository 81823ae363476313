import LivePatch.Proofs.Phrases.Scans
import LivePatch.Proofs.Cutting.Marks

/-!
# Only phrases are read

What the productions for types read without a problem is a phrase: the words that were taken spell
one (`Words.spelled_of_recount`).  The proof is by induction on calls, one production after the
other.  The tokens that the lexer makes are `Legible`, which is why the words are known as soon as
their kinds are.
-/

namespace LivePatch

open Token (closeBracket closeParen closingAngle comma openAngle openBracket openParen question
  shift star)
open Words (front Spells)
open Grammar (production)
open LivePatch.Action (recount Recital)

namespace Token

/-- A token whose text is known from its kind, if it is a mark, and is a word that the lexer cuts,
if its kind is that of a word. -/
structure Legible (t : Token) : Prop where
  word : t.kind.isWord = true → t.IsCutWord
  mark : ∀ text, (text, t.kind) ∈ Kind.marks → t.text = text

theorem Legible.eq_mark {t u : Token} (h : t.Legible) (hu : (u.text, u.kind) ∈ Kind.marks)
    (hk : t.kind = u.kind) : t = u := by
  obtain ⟨k, text⟩ := t
  obtain rfl : k = u.kind := hk
  obtain rfl : text = u.text := h.mark _ hu
  rfl

theorem legible_mark {t : Token} (h : (t.text, t.kind) ∈ Kind.marks) : t.Legible where
  word hk := by
    have hall : ∀ m ∈ Kind.marks, m.2.isWord = false := by decide
    rw [hall _ h] at hk
    cases hk
  mark text htext := by
    have hall : ∀ m ∈ Kind.marks, ∀ n ∈ Kind.marks, m.2 = n.2 → m.1 = n.1 := by decide +kernel
    exact hall _ h _ htext rfl

theorem legible_closingAngle : closingAngle.Legible := legible_mark (by decide)

/-- Whatever the lexer cuts is legible. -/
theorem Cut.legible {t : Token} {lineStart : Bool} {rest : List Char} (h : t.Cut lineStart rest) :
    t.Legible where
  word hk := ⟨hk, lineStart, rest, h⟩
  mark text htext := by
    obtain ⟨c, cs, hchars, hcuts⟩ := h
    have hread := Lexer.read_ok (k := t.kind) (by rw [hcuts.read_eq])
    have hopen : ∀ k ∈ Lexer.openKinds, ∀ m ∈ Kind.marks, m.2 ≠ k := by decide +kernel
    have hsame : ∀ m ∈ Kind.keywords ++ Kind.marks, ∀ n ∈ Kind.marks, m.2 = n.2 → m.1 = n.1 := by
      decide +kernel
    rcases hread with hread | hread
    · exact absurd rfl (hopen _ hread _ htext)
    · rw [hcuts.read_eq] at hread
      have heq : String.ofList (c :: (cs ++ rest).take cs.length) = text :=
        hsame _ hread _ htext rfl
      rw [← heq, List.take_left, ← hchars, String.ofList_toList]

end Token

/-- Every piece that is a token is cut where it stands. -/
theorem Lexer.exists_cut_of_mem {lineStart : Bool} {skip : Nat} {cs : List Char} {l : Lexeme}
    {k : Kind} (hl : l ∈ piecesFrom lineStart skip cs) (hk : l.outcome = .ok k) :
    ∃ lineStart rest, (⟨k, l.text⟩ : Token).Cut lineStart rest := by
  induction cs generalizing lineStart skip with
  | nil => cases hl
  | cons c cs ih =>
    cases skip with
    | succ skip => exact ih hl
    | zero =>
      rw [piecesFrom] at hl
      rcases List.mem_cons.mp hl with rfl | hl
      · have hread : read lineStart c cs = ⟨.ok k, (read lineStart c cs).more⟩ := by
          rw [← hk]
        have hcuts := cuts_of_read hread
        refine ⟨lineStart, cs.drop (read lineStart c cs).more, c, _, String.toList_ofList, ?_⟩
        rw [List.take_append_drop, List.length_take, Nat.min_eq_left hcuts.le_length]
        exact hcuts
      · exact ih hl

theorem legible_of_mem_lex {source : String} {t : Token} (ht : t ∈ lex source) : t.Legible := by
  have hnone : ∀ k, k = Kind.error ∨ k = .eof → k.isWord = false ∧ ∀ m ∈ Kind.marks, m.2 ≠ k := by
    rintro k (rfl | rfl) <;> decide
  have hother : ∀ t : Token, t.kind = .error ∨ t.kind = .eof → t.Legible := by
    intro t hk
    obtain ⟨hword, hmarks⟩ := hnone _ hk
    refine ⟨fun h => ?_, fun text h => absurd rfl (hmarks _ h)⟩
    rw [hword] at h
    cases h
  rcases List.mem_append.mp ht with ht | ht
  · obtain ⟨l, hl, rfl⟩ := List.mem_map.mp ht
    cases hk : l.outcome with
    | error fault => exact hother _ (.inl (by rw [Lexer.Lexeme.token, hk]))
    | ok k =>
      obtain ⟨lineStart, rest, hcut⟩ := Lexer.exists_cut_of_mem hl hk
      have htoken : l.token = ⟨k, l.text⟩ := by rw [Lexer.Lexeme.token, hk]
      exact htoken ▸ hcut.legible
  · obtain rfl := List.mem_singleton.mp ht
    exact hother _ (.inr rfl)

namespace Words

/-- All words are legible. -/
def AllLegible (ws : List Token) : Prop := ∀ w ∈ ws, w.Legible

variable {ws us rest : List Token} {t : Token}

theorem AllLegible.of_cons {w : Token} (h : AllLegible (w :: ws)) : AllLegible ws :=
  (List.forall_mem_cons.mp h).2

/-- The first word is known by its kind. -/
theorem AllLegible.exists_cons (h : AllLegible ws) (ht : (t.text, t.kind) ∈ Kind.marks)
    (hfront : front ws = t.kind) : ∃ ws', ws = t :: ws' ∧ AllLegible ws' := by
  cases ws with
  | nil =>
    have heof : ∀ m ∈ Kind.marks, Kind.eof ≠ m.2 := by decide
    exact absurd hfront (heof _ ht)
  | cons w ws =>
    obtain ⟨hw, hws⟩ := List.forall_mem_cons.mp h
    exact ⟨ws, by rw [hw.eq_mark ht hfront], hws⟩

/-- What is left behind legible words is legible. -/
theorem Spells.allLegible (h : Spells ws us rest) (hws : AllLegible ws) : AllLegible rest := by
  induction h with
  | nil => exact hws
  | cons w _ ih => exact ih hws.of_cons
  | half _ ih => exact ih (List.forall_mem_cons.mpr ⟨Token.legible_closingAngle, hws.of_cons⟩)

/-- The words `ws` down to `rest` spell a phrase that the production reads, or the suffixes or
commas that it reads. -/
def Spelled : Rule → List Token → List Token → Prop
  | .type false, ws, rest => ∃ f : TypePhrase .type, Spells ws f.words rest
  | .tupleElements, ws, rest => ∃ f : TypePhrase .elements, Spells ws f.words rest
  | .typeNameTail, ws, rest => ∃ f : TypePhrase .nameTail, Spells ws f.words rest
  | .typeArguments, ws, rest => ∃ f : TypePhrase .arguments, Spells ws f.words rest
  | .typeSuffixes false _, ws, rest =>
    ∃ suffixes : List TypeSuffix, ws = TypePhrase.suffixWords suffixes ++ rest
  | .commas, ws, rest => ∃ n, ws = List.replicate n comma ++ rest
  | _, _, _ => True

end Words

namespace Grammar

open Words

/-- What a call comes to that reads legible words. -/
def Reads (r : Rule) (ws : List Token) (_ : Bool) (ws' : List Token) : Prop :=
  AllLegible ws → Spelled r ws ws'

variable {ws rest : List Token}

theorem reads_commas : (production .commas).Comes Reads (Reads .commas ws) ws := by
  simp only [production, comes_silently, commas, Action.comes_bind, comes_eat]
  split
  · rename_i hcomma
    intro b ws' hcall hws
    obtain ⟨ws₁, rfl, hws₁⟩ := hws.exists_cons (t := comma) (by decide) hcomma
    obtain ⟨n, rfl⟩ := hcall hws₁
    exact ⟨n + 1, rfl⟩
  · exact fun _ => ⟨0, rfl⟩

theorem reads_typeSuffixes (isArray : Bool) :
    (production (.typeSuffixes false isArray)).Comes Reads (Reads (.typeSuffixes false isArray) ws)
      ws := by
  simp only [production, typeSuffixes, Action.comes_bind, comes_current, comes_ite, comes_ahead,
    Bool.false_and, Bool.false_eq_true, if_false, Action.comes_take, Action.comes_call, arrayRank,
    comes_read, comes_expect, Action.comes_pure, beq_iff_eq]
  split
  · rename_i hquestion
    intro b ws' hcall hws
    obtain ⟨ws₁, rfl, hws₁⟩ := hws.exists_cons (t := question) (by decide) hquestion
    obtain ⟨suffixes, rfl⟩ := hcall hws₁
    exact ⟨.nullable :: suffixes, rfl⟩
  split
  · rename_i hstar
    intro b ws' hcall hws
    obtain ⟨ws₁, rfl, hws₁⟩ := hws.exists_cons (t := star) (by decide) hstar
    obtain ⟨suffixes, rfl⟩ := hcall hws₁
    exact ⟨.pointer :: suffixes, rfl⟩
  split
  · rename_i hrank
    intro b mid hcommas hclose b' ws' hcall hws
    obtain ⟨hopen, -⟩ := atArrayRank_iff.mp hrank
    obtain ⟨ws₁, rfl, hws₁⟩ := hws.exists_cons (t := openBracket) (by decide) hopen
    obtain ⟨n, hn⟩ := hcommas hws₁
    obtain rfl : ws₁ = List.replicate n comma ++ mid := hn
    have hmid : AllLegible mid := fun w hw => hws₁ w (List.mem_append_right _ hw)
    obtain ⟨ws₂, rfl, hws₂⟩ := hmid.exists_cons (t := closeBracket) (by decide) hclose
    obtain ⟨suffixes, hsuffixes⟩ := hcall hws₂
    refine ⟨.array n :: suffixes, ?_⟩
    obtain rfl : ws₂ = TypePhrase.suffixWords suffixes ++ ws' := hsuffixes
    simp [TypeSuffix.words]
  · exact fun _ => ⟨[], rfl⟩

theorem reads_typeArguments : (production .typeArguments).Comes Reads (Reads .typeArguments ws) ws := by
  simp only [production, comes_silently, typeArguments, Action.comes_bind, comes_current, comes_ite,
    comes_read, Action.comes_take, Action.comes_call, comes_eat, Action.comes_pure, type,
    beq_iff_eq]
  split
  · exact fun _ => ⟨.noArgument, .nil ws⟩
  split
  · rename_i hcomma
    intro b ws' hcall hws
    obtain ⟨ws₁, rfl, hws₁⟩ := hws.exists_cons (t := comma) (by decide) hcomma
    obtain ⟨more, hmore⟩ := hcall hws₁
    exact ⟨.unbound more, .cons comma hmore⟩
  intro b mid htype
  split
  · rename_i hcomma
    intro b' ws' hcall hws
    obtain ⟨type, htype⟩ := htype hws
    obtain ⟨ws₁, rfl, hws₁⟩ := (htype.allLegible hws).exists_cons (t := comma) (by decide) hcomma
    obtain ⟨more, hmore⟩ := hcall hws₁
    exact ⟨.argument type more, Words.spells_append.mpr ⟨_, htype, .cons comma hmore⟩⟩
  · intro hws
    obtain ⟨type, htype⟩ := htype hws
    exact ⟨.lastArgument type, htype⟩

theorem exists_name (hws : AllLegible ws) (hk : front ws = .identifier) :
    ∃ (name : Name) (ws' : List Token), ws = name.token :: ws' ∧ AllLegible ws' := by
  cases ws with
  | nil => cases hk
  | cons w ws =>
    obtain ⟨hw, hws⟩ := List.forall_mem_cons.mp hws
    have hkind : w.kind = .identifier := hk
    exact ⟨⟨w, hkind, hw.word (by rw [hkind]; rfl)⟩, ws, rfl, hws⟩

theorem exists_builtIn (hws : AllLegible ws)
    (hk : ((front ws).isPredefinedType || front ws == .voidKw) = true) :
    ∃ (word : BuiltIn) (ws' : List Token), ws = word.token :: ws' ∧ AllLegible ws' := by
  cases ws with
  | nil => cases hk
  | cons w ws =>
    obtain ⟨hw, hws⟩ := List.forall_mem_cons.mp hws
    have hword : w.kind.isWord = true := by
      have hall : ∀ k : Kind, (k.isPredefinedType || k == .voidKw) = true → k.isWord = true := by
        intro k hk
        cases k <;> first | rfl | cases hk
      exact hall _ hk
    exact ⟨⟨w, hk, hw.word hword⟩, ws, rfl, hws⟩

/-- The name of an element, if there is one, and what is behind it. -/
theorem exists_elementName (hws : AllLegible ws) : ∃ (name : Option Name) (ws' : List Token),
    ws = TypePhrase.nameWords name ++ ws' ∧ AllLegible ws' ∧
      (if front ws = .identifier then ws.drop 1 else ws) = ws' := by
  by_cases hk : front ws = .identifier
  · obtain ⟨name, ws', rfl, hws'⟩ := exists_name hws hk
    exact ⟨some name, ws', rfl, hws', if_pos hk⟩
  · exact ⟨none, ws, rfl, hws, if_neg hk⟩

theorem reads_tupleElements : (production .tupleElements).Comes Reads (Reads .tupleElements ws) ws := by
  simp only [production, comes_silently, tupleElements, Action.comes_bind, comes_current, comes_ite,
    comes_read, Action.comes_call, comes_eat, comes_takeIf, Action.comes_pure, type]
  split
  · exact fun _ => ⟨.noElement, .nil ws⟩
  intro b mid htype
  -- What is read behind the name is the same whether there is one or not.
  suffices h : ∀ mid', (if front mid = .identifier then mid.drop 1 else mid) = mid' →
      if front mid' = .comma then ∀ b ws', Reads .tupleElements (mid'.drop 1) b ws' →
        Reads .tupleElements ws false ws'
      else Reads .tupleElements ws false mid' by
    have h' := h _ rfl
    split at h' <;> simp_all
  intro mid' hmid'
  split
  · rename_i hcomma
    intro b' ws' hcall hws
    obtain ⟨type, htype⟩ := htype hws
    obtain ⟨name, mid₁, rfl, hmid₁, hname⟩ := exists_elementName (htype.allLegible hws)
    obtain rfl := hname.symm.trans hmid'
    obtain ⟨ws₁, rfl, hws₁⟩ := hmid₁.exists_cons (t := comma) (by decide) hcomma
    obtain ⟨more, hmore⟩ := hcall hws₁
    exact ⟨.element type name more, Words.spells_append.mpr ⟨_, htype,
      TypePhrase.spells_nameWords.mpr ⟨_, rfl, .cons comma hmore⟩⟩⟩
  · intro hws
    obtain ⟨type, htype⟩ := htype hws
    obtain ⟨name, mid₁, rfl, hmid₁, hname⟩ := exists_elementName (htype.allLegible hws)
    obtain rfl := hname.symm.trans hmid'
    exact ⟨.lastElement type name, Words.spells_append.mpr ⟨_, htype,
      TypePhrase.spells_lastName.mpr rfl⟩⟩

/-- Taking a closing angle bracket, of which half a shift is one. -/
theorem comes_expectClosingAngle {P : Rule → List Token → Bool → List Token → Prop}
    {U : Unit → List Token → Prop} (hws : AllLegible ws)
    (h : ∀ rest, Spells ws [closingAngle] rest → U () rest) :
    expectClosingAngle.Comes P U ws := by
  simp only [expectClosingAngle, Action.comes_bind, comes_current]
  split
  · rename_i hgreater
    obtain ⟨ws', rfl, -⟩ := hws.exists_cons (t := closingAngle) (by decide) hgreater
    exact h ws' (.cons closingAngle (.nil ws'))
  · rename_i hshift
    obtain ⟨ws', rfl, -⟩ := hws.exists_cons (t := shift) (by decide) hshift
    exact h _ (.half (.nil _))
  · trivial

/-- The list of type arguments as a whole. -/
theorem comes_typeArgumentList {U : Unit → List Token → Prop} (hws : AllLegible ws)
    (h : ∀ (arguments : TypePhrase .arguments) (rest : List Token),
      Spells ws (openAngle :: (arguments.words ++ [closingAngle])) rest → U () rest) :
    typeArgumentList.Comes Reads U ws := by
  simp only [typeArgumentList, comes_node, Action.comes_bind, comes_expect, comes_read]
  intro hopen b mid hcall
  obtain ⟨ws₁, rfl, hws₁⟩ := hws.exists_cons (t := openAngle) (by decide) hopen
  obtain ⟨arguments, harguments⟩ := hcall hws₁
  refine comes_expectClosingAngle (harguments.allLegible hws₁) fun rest hrest => ?_
  exact h arguments rest (.cons openAngle (Words.spells_append.mpr ⟨mid, harguments, hrest⟩))

/-- Further segments of a name, with what stands in front of them. -/
theorem reads_segment (hws : AllLegible ws) {start : List Token} {us : List Token}
    (hstart : Spells start us ws)
    (hend : ∀ rest, Spells start us rest → Spelled .typeNameTail start rest)
    (hsegment : ∀ (separator : NameSeparator) (name : Name) (tail : TypePhrase .nameTail) rest,
      Spells start (us ++ separator.token :: name.token :: tail.words) rest →
        Spelled .typeNameTail start rest) :
    if (isNameSeparator (front ws) && isAt 1 .identifier ws) = true then
      ∀ b ws', Reads .typeNameTail ((ws.drop 1).drop 1) b ws' →
        Reads .typeNameTail start false ws'
    else Reads .typeNameTail start false ws := by
  split
  · rename_i hboth
    obtain ⟨hseparator, hname⟩ := Bool.and_eq_true_iff.mp hboth
    intro b ws' hcall _
    have hfront : ∃ separator : NameSeparator, front ws = separator.token.kind ∧
        (separator.token.text, separator.token.kind) ∈ Kind.marks := by
      have hall : ∀ k : Kind, isNameSeparator k = true → k = .dot ∨ k = .doubleColon := by
        intro k hk
        cases k <;> first | exact .inl rfl | exact .inr rfl | cases hk
      rcases hall _ hseparator with hk | hk
      · exact ⟨.dot, hk, by decide⟩
      · exact ⟨.doubleColon, hk, by decide⟩
    obtain ⟨separator, hfront, hmark⟩ := hfront
    obtain ⟨ws₁, rfl, hws₁⟩ := hws.exists_cons hmark hfront
    obtain ⟨name, ws₂, rfl, hws₂⟩ := exists_name hws₁ (by simpa using hname)
    obtain ⟨tail, htail⟩ := hcall hws₂
    exact hsegment separator name tail ws' (Words.spells_append.mpr ⟨_, hstart,
      .cons separator.token (.cons name.token htail)⟩)
  · exact fun _ => hend ws hstart

theorem reads_typeNameTail : (production .typeNameTail).Comes Reads (Reads .typeNameTail ws) ws := by
  by_cases hws : AllLegible ws
  swap
  · exact Action.comes_of_forall _ fun _ _ h => absurd h hws
  simp only [production, comes_silently, typeNameTail, Action.comes_bind, comes_sees, comes_ite,
    comes_current, comes_ahead, comes_read, Action.comes_take, Action.comes_pure]
  split
  · refine comes_typeArgumentList hws fun arguments mid hlist => ?_
    refine reads_segment (hlist.allLegible hws) hlist (fun rest h => ⟨.generic arguments, h⟩)
      fun separator name tail rest h => ⟨.genericSegment arguments separator name tail, ?_⟩
    simpa [TypePhrase.words] using h
  · exact reads_segment hws (.nil ws) (fun rest h => ⟨.nameEnd, h⟩)
      fun separator name tail rest h => ⟨.segment separator name tail, h⟩

theorem reads_type : (production (.type false)).Comes Reads (Reads (.type false) ws) ws := by
  simp only [production, typeProduction, Action.comes_bind, Action.comes_skipTrivia,
    Action.comes_frame, comes_begins, typeHead, comes_current, comes_ite, comes_node, comes_read,
    Action.comes_take, comes_expect, comes_missing, Action.comes_call, Action.comes_enclose,
    Action.comes_pure, beq_iff_eq]
  split
  · rename_i hbuiltIn
    intro b ws' hcall hws
    obtain ⟨word, ws₁, rfl, hws₁⟩ := exists_builtIn hws hbuiltIn
    obtain ⟨suffixes, rfl⟩ := hcall hws₁
    exact ⟨.builtIn word suffixes, .cons _ (TypePhrase.spells_suffixWords.mpr rfl)⟩
  split
  · rename_i hopen
    intro b mid helements hclose b' ws' hcall hws
    obtain ⟨ws₁, rfl, hws₁⟩ := hws.exists_cons (t := openParen) (by decide) hopen
    obtain ⟨elements, hspells⟩ := helements hws₁
    obtain ⟨ws₂, rfl, hws₂⟩ := (hspells.allLegible hws₁).exists_cons (t := closeParen)
      (by decide) hclose
    obtain ⟨suffixes, rfl⟩ := hcall hws₂
    exact ⟨.tuple elements suffixes, .cons openParen (Words.spells_append.mpr ⟨_, hspells,
      .cons closeParen (TypePhrase.spells_suffixWords.mpr rfl)⟩)⟩
  split
  · rename_i hname
    intro b mid htail b' ws' hcall hws
    obtain ⟨name, ws₁, rfl, hws₁⟩ := exists_name hws hname
    obtain ⟨tail, hspells⟩ := htail hws₁
    obtain ⟨suffixes, rfl⟩ := hcall (hspells.allLegible hws₁)
    exact ⟨.named name tail suffixes, .cons _ (Words.spells_append.mpr ⟨_, hspells,
      TypePhrase.spells_suffixWords.mpr rfl⟩)⟩
  · trivial

/-- **Every production for types reads a phrase**, as long as the productions that it calls do. -/
theorem reads_production (r : Rule) (ws : List Token) :
    (production r).Comes Reads (Reads r ws) ws := by
  match r with
  | .type false => exact reads_type
  | .tupleElements => exact reads_tupleElements
  | .typeNameTail => exact reads_typeNameTail
  | .typeSuffixes false isArray => exact reads_typeSuffixes isArray
  | .commas => exact reads_commas
  | .typeArguments => exact reads_typeArguments
  | .type true | .typeSuffixes true _ | .namespaceMembers _ | .namespaceDeclaration
  | .typeDeclaration | .skipTo _ | .declaredType | .typeParameters | .attributeLists | .baseTypes
  | .constraintClauses | .constraints | .enumMembers | .typeMembers | .member | .dottedSegments
  | .accessors | .modifierWords | .attributes | .nameSegments | .parameters _
  | .parameterModifierWords | .arguments _ | .designation | .designated | .block | .statements
  | .statement | .localModifierWords | .moreDeclarators | .switchSections | .switchLabels
  | .sectionStatements | .expressionList | .catchClauses | .expression _ | .operators _
  | .moreTupleValues _ | .arrayRanks | .initializer | .initializerElements | .lambdaParameters
  | .switchArms | .pattern | .patternOperators | .primaryPattern =>
    exact Action.comes_of_forall _ fun _ _ _ => trivial

end Grammar

/-- **Only phrases are read.**  What a production for types leaves of legible words, if it finds
nothing missing, is what is behind a phrase. -/
theorem Words.spelled_of_recount {r : Rule} {ws ws' : List Token} {ts ts' : List Tree} {v : Bool}
    (hws : AllLegible ws) (h : recount production r ws ts = some (v, ws', ts')) :
    Spelled r ws ws' :=
  Action.of_recount (fun r ws => Grammar.reads_production r ws) h hws

end LivePatch
