import LivePatch.Proofs.Cutting.Fits

/-!
# The tokens of templates

A template is put together from names of the source, a few fixed words and a few marks.  Here its
tokens are listed, and it is shown that they are cut wherever the template stands, as long as no
letter follows.
-/

namespace LivePatch

open Lexer (Similar Reach isHead blockCommentReach)

namespace Token

variable {lineStart : Bool} {c d : Char} {cs es rest : List Char} {t u : Token} {ts : List Token}

/-! ## Words -/

/-- The token is a word that the lexer cuts somewhere. -/
structure IsCutWord (t : Token) : Prop where
  isWord : t.kind.isWord = true
  cut : ∃ lineStart rest, t.Cut lineStart rest

theorem Cut.next_of_isWord (h : t.Cut lineStart rest) (hk : t.kind.isWord = true) :
    rest.head?.any isIdentifierContinue = false := by
  obtain ⟨c, cs, -, hcuts⟩ := h
  exact hcuts.next_of_isWord hk

/-- A word is cut wherever no letter follows. -/
theorem IsCutWord.cut_of_next (h : t.IsCutWord)
    (hrest : rest.head?.any isIdentifierContinue = false) : t.Cut lineStart rest := by
  obtain ⟨_, _, c, cs, htext, hcuts⟩ := h.cut
  exact ⟨c, cs, htext, hcuts.of_isWord h.isWord hrest⟩

theorem IsCutWord.exists_head (h : t.IsCutWord) :
    ∃ c cs, t.text.toList = c :: cs ∧ isHead c = true := by
  obtain ⟨_, _, c, cs, htext, hcuts⟩ := h.cut
  refine ⟨c, cs, htext, ?_⟩
  obtain ⟨-, ⟨hstart, -⟩ | ⟨rfl, -⟩⟩ := hcuts.isWord_cases h.isWord
  · simp [isHead, hstart]
  · rfl

theorem IsCutWord.ne_whitespace (h : t.IsCutWord) : t.kind ≠ .whitespace := by
  intro hk
  have := h.isWord
  rw [hk] at this
  cases this

/-- The token of the reserved word `this`. -/
def this : Token := ⟨.thisKw, "this"⟩

/-- The token of the reserved word `object`. -/
def object : Token := ⟨.objectKw, "object"⟩

theorem isCutWord_this : this.IsCutWord :=
  ⟨rfl, true, [], 't', ['h', 'i', 's'], rfl, Lexer.cuts_of_read rfl⟩

theorem isCutWord_object : object.IsCutWord :=
  ⟨rfl, true, [], 'o', ['b', 'j', 'e', 'c', 't'], rfl, Lexer.cuts_of_read rfl⟩

/-! ## Marks -/

def openParen : Token := ⟨.lParen, "("⟩
def closeParen : Token := ⟨.rParen, ")"⟩
def openAngle : Token := ⟨.less, "<"⟩
def comma : Token := ⟨.comma, ","⟩
def space : Token := ⟨.whitespace, " "⟩
def dot : Token := ⟨.dot, "."⟩

theorem cut_openParen : openParen.Cut lineStart rest :=
  ⟨'(', [], rfl, .mark nofun nofun rfl⟩

theorem cut_closeParen : closeParen.Cut lineStart rest :=
  ⟨')', [], rfl, .mark nofun nofun rfl⟩

theorem cut_comma : comma.Cut lineStart rest :=
  ⟨',', [], rfl, .mark nofun nofun rfl⟩

/-- The other marks are parts of longer ones, but none of these goes on with a head. -/
theorem cut_openAngle (hc : isHead c = true) : openAngle.Cut lineStart (c :: cs) := by
  have hmodel : openAngle.Cut lineStart ['x'] := ⟨'<', [], rfl, .mark nofun nofun rfl⟩
  exact hmodel.of_similar (.heads rfl hc) nofun nofun

theorem cut_dot (hc : isHead c = true) : dot.Cut lineStart (c :: cs) := by
  have hmodel : dot.Cut lineStart ['x'] := ⟨'.', [], rfl, .mark nofun (fun _ => rfl) rfl⟩
  exact hmodel.of_similar (.heads rfl hc) nofun nofun

theorem cut_closingAngle (hd : d = '.' ∨ d = ')') (hc : isHead c = true) :
    closingAngle.Cut lineStart (d :: c :: cs) := by
  have hmodel : closingAngle.Cut lineStart [d, 'x'] := by
    rcases hd with rfl | rfl
    · exact ⟨'>', [], rfl, .mark nofun nofun rfl⟩
    · exact ⟨'>', [], rfl, .mark nofun nofun rfl⟩
  exact hmodel.of_similar (.cons d (.heads rfl hc)) nofun nofun

theorem cut_space (hc : isHead c = true) : space.Cut lineStart (c :: cs) := by
  refine ⟨' ', [], rfl, .blank rfl rfl ?_⟩
  rw [List.nil_append, Lexer.runLength_cons, Lexer.isBlank_of_isHead hc]
  rfl

/-! ## Names between commas -/

/-- The tokens of a list of names. -/
def separated : Token → List Token → List Token
  | t, [] => [t]
  | t, u :: ts => t :: comma :: space :: separated u ts

theorem charsOf_separated (t : Token) (ts : List Token) :
    charsOf (separated t ts) = (", ".intercalate ((t :: ts).map (·.text))).toList := by
  induction ts generalizing t with
  | nil => simp [separated]
  | cons u ts ih => simp [separated, ih, comma, space, String.intercalate_cons_cons]

theorem exists_head_separated (h : t.IsCutWord) (ts : List Token) (rest : List Char) :
    ∃ c cs, charsOf (separated t ts) ++ rest = c :: cs ∧ isHead c = true := by
  obtain ⟨c, cs, htext, hc⟩ := h.exists_head
  cases ts with
  | nil => exact ⟨c, cs ++ rest, by simp [separated, htext], hc⟩
  | cons u ts => exact ⟨c, _, by rw [separated, charsOf_cons, htext]; rfl, hc⟩

theorem lexes_separated (h : ∀ u ∈ t :: ts, u.IsCutWord)
    (hrest : rest.head?.any isIdentifierContinue = false) :
    Lexes lineStart (separated t ts) rest := by
  induction ts generalizing t lineStart with
  | nil => exact lexes_singleton.mpr ((h t List.mem_cons_self).cut_of_next hrest)
  | cons u ts ih =>
    obtain ⟨ht, hts⟩ := List.forall_mem_cons.mp h
    obtain ⟨c, cs, hchars, hc⟩ := exists_head_separated (hts u List.mem_cons_self) ts rest
    refine ⟨ht.cut_of_next (by rw [charsOf_cons]; rfl), cut_comma, ?_, ih hts⟩
    rw [hchars]
    exact cut_space hc

/-! ## Qualifying names -/

/-- The tokens of the name of a type with its parameters. -/
def qualifier (name : Token) : List Token → List Token
  | [] => [name]
  | p :: ps => name :: openAngle :: (separated p ps ++ [closingAngle])

/-- What may stand behind a qualifying name. -/
def Closes (rest : List Char) : Prop :=
  ∃ d c cs, rest = d :: c :: cs ∧ (d = '.' ∨ d = ')') ∧ isHead c = true

theorem exists_head_qualifier (h : t.IsCutWord) (ps : List Token) :
    ∃ c cs, charsOf (qualifier t ps) = c :: cs ∧ isHead c = true := by
  obtain ⟨c, cs, htext, hc⟩ := h.exists_head
  cases ps with
  | nil => exact ⟨c, cs, by simp [qualifier, htext], hc⟩
  | cons p ps => exact ⟨c, _, by rw [qualifier, charsOf_cons, htext]; rfl, hc⟩

theorem lexes_qualifier {ps : List Token} (ht : t.IsCutWord) (hps : ∀ p ∈ ps, p.IsCutWord)
    (hrest : Closes rest) : Lexes lineStart (qualifier t ps) rest := by
  obtain ⟨d, c, cs, rfl, hd, hc⟩ := hrest
  cases ps with
  | nil =>
    refine lexes_singleton.mpr (ht.cut_of_next ?_)
    rcases hd with rfl | rfl
    · rfl
    · rfl
  | cons p ps =>
    obtain ⟨e, es, hchars, he⟩ := exists_head_separated (hps p List.mem_cons_self) ps
      (charsOf [closingAngle] ++ d :: c :: cs)
    refine ⟨ht.cut_of_next (by rw [charsOf_cons]; rfl), ?_,
      lexes_append.mpr ⟨lexes_separated hps rfl, ?_⟩⟩
    · rw [charsOf_append, List.append_assoc, hchars]
      exact cut_openAngle he
    · exact lexes_singleton.mpr (cut_closingAngle hd hc)

/-! ## Templates -/

/-- The tokens of a member of a type. -/
def member (type : List Token) (name : Token) : List Token := type ++ [dot, name]

/-- The tokens of `this`, cast to a type. -/
def cast (type : List Token) : List Token :=
  openParen :: (type ++ [closeParen, openParen, object, closeParen, this])

/-- The same between parentheses. -/
def parenthesizedCast (type : List Token) : List Token := openParen :: (cast type ++ [closeParen])

theorem textOf_member (type : List Token) (name : Token) :
    textOf (member type name) = memberText (textOf type) name.text := by
  simp [member, memberText, dot, String.append_assoc]

theorem textOf_cast (type : List Token) :
    textOf (cast type) = castText (textOf type) "this" := by
  simp [cast, castText, openParen, closeParen, object, this, String.append_assoc]

theorem textOf_parenthesizedCast (type : List Token) :
    textOf (parenthesizedCast type) = parenthesizedCastText (textOf type) "this" := by
  simp [parenthesizedCast, parenthesizedCastText, textOf_cast, openParen, closeParen,
    String.append_assoc]

variable {name : Token} {ps : List Token}

theorem lexes_member (ht : t.IsCutWord) (hps : ∀ p ∈ ps, p.IsCutWord) (hname : name.IsCutWord)
    (hrest : rest.head?.any isIdentifierContinue = false) :
    Lexes lineStart (member (qualifier t ps) name) rest := by
  obtain ⟨c, cs, htext, hc⟩ := hname.exists_head
  refine lexes_append.mpr ⟨lexes_qualifier ht hps ?_, ?_, lexes_singleton.mpr ?_⟩
  · refine ⟨'.', c, cs ++ rest, ?_, .inl rfl, hc⟩
    simp [htext, dot]
  · rw [charsOf_cons, htext, charsOf_nil, List.append_nil]
    exact cut_dot hc
  · exact hname.cut_of_next hrest

theorem lexes_cast (ht : t.IsCutWord) (hps : ∀ p ∈ ps, p.IsCutWord)
    (hrest : rest.head?.any isIdentifierContinue = false) :
    Lexes lineStart (cast (qualifier t ps)) rest := by
  refine ⟨cut_openParen, lexes_append.mpr ⟨lexes_qualifier ht hps ?_, ?_⟩⟩
  · refine ⟨')', '(', charsOf [object, closeParen, this] ++ rest, ?_, .inr rfl, rfl⟩
    simp [closeParen, openParen]
  · refine ⟨cut_closeParen, cut_openParen, isCutWord_object.cut_of_next ?_, cut_closeParen,
      lexes_singleton.mpr (isCutWord_this.cut_of_next hrest)⟩
    rw [charsOf_cons]
    rfl

theorem lexes_parenthesizedCast (ht : t.IsCutWord) (hps : ∀ p ∈ ps, p.IsCutWord) :
    Lexes lineStart (parenthesizedCast (qualifier t ps)) rest :=
  ⟨cut_openParen, lexes_append.mpr ⟨lexes_cast ht hps rfl, lexes_singleton.mpr cut_closeParen⟩⟩

theorem three_le_member (ht : t.IsCutWord) (ps : List Token) (hname : name.IsCutWord) :
    3 ≤ (charsOf (member (qualifier t ps) name)).length := by
  obtain ⟨c, cs, htype, -⟩ := exists_head_qualifier ht ps
  obtain ⟨d, ds, htext, -⟩ := hname.exists_head
  rw [member, charsOf_append, htype, charsOf_cons, charsOf_cons, htext]
  simp [dot]
  omega

/-- The tokens are cut wherever no letter follows them, and they begin with a head. -/
structure Portable (ts : List Token) : Prop where
  lexes : ∀ lineStart rest, rest.head?.any isIdentifierContinue = false → Lexes lineStart ts rest
  lineStart : ∀ lineStart, lineStartOf lineStart ts = false
  head : ∃ c cs, charsOf ts = c :: cs ∧ isHead c = true

theorem portable_member (ht : t.IsCutWord) (hps : ∀ p ∈ ps, p.IsCutWord)
    (hname : name.IsCutWord) : Portable (member (qualifier t ps) name) := by
  refine ⟨fun _ _ => lexes_member ht hps hname, fun lineStart => ?_, ?_⟩
  · have hconcat : member (qualifier t ps) name = (qualifier t ps ++ [dot]) ++ [name] := by
      simp [member]
    rw [hconcat]
    exact lineStartOf_concat _ hname.ne_whitespace
  · obtain ⟨c, cs, hchars, hc⟩ := exists_head_qualifier ht ps
    exact ⟨c, _, by rw [member, charsOf_append, hchars]; rfl, hc⟩

theorem portable_cast (ht : t.IsCutWord) (hps : ∀ p ∈ ps, p.IsCutWord) :
    Portable (cast (qualifier t ps)) := by
  refine ⟨fun _ _ => lexes_cast ht hps, fun lineStart => ?_, '(', _, charsOf_cons _ _, rfl⟩
  have hconcat : cast (qualifier t ps) =
      (openParen :: (qualifier t ps ++ [closeParen, openParen, object, closeParen])) ++ [this] := by
    simp [cast]
  rw [hconcat]
  exact lineStartOf_concat _ nofun

theorem portable_parenthesizedCast (ht : t.IsCutWord) (hps : ∀ p ∈ ps, p.IsCutWord) :
    Portable (parenthesizedCast (qualifier t ps)) :=
  ⟨fun _ _ _ => lexes_parenthesizedCast ht hps,
    fun _ => lineStartOf_concat (openParen :: cast (qualifier t ps)) nofun,
    '(', _, charsOf_cons _ _, rfl⟩

/-! ## Comments -/

theorem blockCommentReach_append (h : '*' ∉ cs) (rest : List Char) :
    blockCommentReach (cs ++ '*' :: '/' :: rest) = ⟨cs.length + 2, true⟩ := by
  induction cs with
  | nil => rfl
  | cons c cs ih =>
    obtain ⟨hc, hcs⟩ := List.ne_and_not_mem_of_not_mem_cons h
    rw [List.cons_append, blockCommentReach, ih hcs, List.length_cons]
    · show Reach.mk (1 + (cs.length + 2)) true = _
      rw [Nat.add_comm 1, Nat.add_right_comm]
    · exact fun _ hstar _ => hc hstar.symm

/-- The comment of a rule is cut in front of everything. -/
theorem lexes_mark (comments : Bool) (rule : PatchRule) :
    Lexes lineStart (Tree.mark comments rule) rest := by
  cases comments with
  | false => trivial
  | true =>
    let body := rule.passName.toList ++ ':' :: rule.shortName.toList
    have hbody : '*' ∉ body := by cases rule <;> decide
    have hreach := blockCommentReach_append hbody rest
    refine lexes_singleton.mpr ⟨'/', '*' :: (body ++ ['*', '/']), ?_, ?_⟩
    · simp [PatchRule.comment, body]
    · refine .blockComment rfl (by simp) hreach rfl ?_
      simp
      omega

end Token

/-! ## The names of a clean text -/

namespace Site

variable {s : Site}

/-- Are all names of the tree words that the lexer cuts somewhere? -/
def AllNamesCut (s : Site) : Prop :=
  ∀ w ∈ s.tree.leaves, w.kind = .identifier → w.IsCutWord

theorem exists_typeParameters (h : s.AllNamesCut) :
    ∃ ps : List Token, (∀ p ∈ ps, p.IsCutWord ∧ p.kind = .identifier) ∧
      s.typeParameterNames = ps.map (·.text) := by
  unfold Site.typeParameterNames
  split
  · exact ⟨[], List.forall_mem_nil _, rfl⟩
  rename_i list hlist
  refine ⟨(list.nodesOf .typeParameter).filterMap (·.declaredName?), ?_, ?_⟩
  · intro w hw
    obtain ⟨p, hp, hw⟩ := List.mem_filterMap.mp hw
    obtain ⟨hmem, hk⟩ := declaredName?_eq_some hw
    -- The token stands in a part of a part of the declaration.
    have hlistpart := mem_parts_of_mem_nodes (nodesOf_subset (List.mem_of_mem_head? hlist))
    have hpart := mem_parts_of_mem_nodes (nodesOf_subset hp)
    have haround : s.Around p := (Around.refl.part hlistpart).part hpart
    exact ⟨h w (haround.mem_leaves hmem) hk, hk⟩
  · rw [List.map_filterMap]

/-- The tokens of a qualifying name: that of the declared name, and those of its parameters. -/
theorem exists_qualifier {q : String} (h : s.AllNamesCut) (hq : s.qualifyingName? = some q) :
    ∃ name ps, name.IsCutWord ∧ (∀ p ∈ ps, p.IsCutWord) ∧
      Token.textOf (Token.qualifier name ps) = q ∧ s.declaredName? = some name ∧
      ∀ p ∈ ps, p.kind = .identifier := by
  unfold qualifyingName? at hq
  obtain ⟨w, hw, hq⟩ := Option.bind_eq_some_iff.mp hq
  obtain ⟨hmem, hk⟩ := declaredName?_eq_some hw
  obtain ⟨ps, hps, hnames⟩ := exists_typeParameters h
  refine ⟨w, ps, h w hmem hk, fun p hp => (hps p hp).1, ?_, hw, fun p hp => (hps p hp).2⟩
  rw [hnames] at hq
  cases ps with
  | nil =>
    obtain rfl : w.text = q := Option.some.inj hq
    simp [Token.qualifier]
  | cons p ps =>
    obtain rfl := Option.some.inj hq
    apply String.toList_inj.mp
    have hlist := Token.charsOf_separated p ps
    simp only [Token.charsOf] at hlist
    simp [Token.qualifier, hlist, Token.openAngle, Token.closingAngle]

end Site

end LivePatch
