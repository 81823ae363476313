import LivePatch.Proofs.Cutting.Templates
import LivePatch.Proofs.PassDecisions

/-!
# The tokens of what a pass leaves

A pass puts trees together and prints their leaves; the text it leaves is never read again.  Does
the text say what the tree says?  If the source is clean, then for the pass over `this` it does, up
to the tokens: the text is cut into the leaves of the tree.  For the pass over static fields it does
so wherever the qualifier does not fuse with a word or number right in front of it.
-/

namespace LivePatch

open Token (Divides Fits Grafts Lexes charsOf closingAngle endOfText textOf)
open Lexer (Similar JoinsNumber isHead)

/-! ## Clean texts -/

theorem Parsed.lexicalFaults_eq_nil {source : String} (h : (parse source).isClean = true) :
    lexicalFaults source = [] := by
  obtain ⟨_, _, _, hlast⟩ := Grammar.exists_last_parse source
  have hdiagnostics := hlast.diagnostics
  generalize parse source = p at *
  rw [List.isEmpty_iff.mp h] at hdiagnostics
  exact (List.append_eq_nil_iff.mp hdiagnostics.symm).1

/-- The tokens of a text divide into the leaves of its tree. -/
theorem divides_parse (source : String) : Divides (lex source) (parse source).tree.leaves := by
  obtain ⟨_, _, _, hlast⟩ := Grammar.exists_last_parse source
  exact hlast.holds.leaves

/-- The names of a text without lexical faults are words that the lexer cuts. -/
theorem Site.Around.allNamesCut {source : String} (h : lexicalFaults source = []) {t : Tree}
    (ht : Divides (lex source) t.leaves) {n : Site} (hn : (Site.root t).Around n) :
    n.AllNamesCut := by
  have hall : ∀ w ∈ t.leaves, w.kind = .identifier → w.IsCutWord := by
    refine ht.forall_mem nofun ?_
    intro w hw hk
    rcases List.mem_append.mp hw with hw | hw
    · exact ⟨by rw [hk]; rfl, (Token.lexes_lexed h).exists_cut hw⟩
    · obtain rfl := List.mem_singleton.mp hw
      cases hk
  intro w hw hk
  exact hall w (hn.mem_leaves hw) hk

/-! ## Decisions whose grafts fit -/

/-- If all grafts of a decision fit, then the text that it leaves is cut into the leaves. -/
theorem Decision.Rewords.relexes {d : Decision} {t : Tree} {source : String} {comments : Bool}
    (h : d.Rewords t) (hclean : lexicalFaults source = []) (ht : Divides (lex source) t.leaves)
    (hfits : ∀ before' before w new, Divides before' before →
      d.Grafting t comments before w new → ∃ new', Divides new' new ∧ Fits before' w new')
    {o : Outcome} (hrun : d.run comments t = .ok o) :
    lexicalFaults o.text = [] ∧ Divides (lex o.text) o.tree.leaves := by
  unfold Decision.run at hrun
  split at hrun
  · cases hrun
  rename_i tree edits hrev
  obtain rfl := Except.ok.inj hrun
  have hgrafts := h.grafts (n := Site.root t) .refl hrev
  -- A graft is in place of a word, which begins with a head.
  have hangle : ∀ before w new, d.Grafting t comments before w new → w ≠ closingAngle := by
    rintro before w new hgraft rfl
    obtain ⟨_, -, hfit⟩ := hfits _ _ _ _ (.refl before) hgraft
    obtain ⟨c, cs, htext, hc⟩ := hfit.head
    cases htext
    exact absurd hc (by decide)
  obtain ⟨us, hus, hdivides⟩ := hgrafts.undivide hangle hfits ht .nil
  obtain ⟨us, last, rfl, hfront, hlast⟩ := hus.of_append
  obtain rfl : last = [endOfText] := by
    refine hlast.eq_of_forall_not ?_
    rintro w hw before new hfit
    obtain rfl := List.mem_singleton.mp hw
    obtain ⟨c, cs, htext, -⟩ := hfit.head
    cases htext
  have hlexes := (hfront.lexes (fun _ _ _ hfit => hfit) (Token.lexes_lexed hclean)).1
  have htext : Outcome.text ⟨tree, edits⟩ = textOf us := by
    rw [Outcome.text, Tree.text, hdivides.textOf_eq, Token.textOf_append]
    simp [endOfText]
  refine ⟨by rw [htext]; exact Token.lexicalFaults_of_lexes hlexes, ?_⟩
  have hlex : lex (textOf us) = us ++ [endOfText] := by
    show lexed (textOf us) ++ [endOfText] = _
    rw [Token.lexed_of_lexes hlexes]
  rw [htext, hlex]
  exact hdivides

/-! ## Templates that fit -/

/-- The tokens of a template fit in place of a word, if what stands in front of the word is cut in
front of them. -/
theorem exists_fits_of_portable {before ts : List Token} {w : Token} {made : Tree}
    {comments : Bool} {rule : PatchRule} (hspells : made.Spells (textOf ts))
    (hts : Token.Portable ts) (hw : w.IsCutWord)
    (hfront : ∀ p, before.getLast? = some p → ∀ lineStart rest rest',
      p.Cut lineStart (w.text.toList ++ rest) → p.Cut lineStart (charsOf ts ++ rest')) :
    ∃ new, Divides new (made.leaves ++ Tree.mark comments rule) ∧ Fits before w new := by
  have hdivides := hspells.leaves
  rw [Token.lexed_of_lexes (hts.lexes true [] rfl)] at hdivides
  refine ⟨ts ++ Tree.mark comments rule, hdivides.append (.refl _), hw.exists_head, ?_, ?_, ?_, ?_⟩
  · obtain ⟨c, cs, hchars, hc⟩ := hts.head
    rw [Token.charsOf_append, hchars]
    exact ⟨c, _, rfl, hc⟩
  · intro p hp lineStart rest rest' hcut
    rw [Token.charsOf_append, List.append_assoc]
    exact hfront p hp _ _ _ hcut
  · intro lineStart rest hcut
    refine Token.lexes_append.mpr ⟨hts.lexes _ _ ?_, Token.lexes_mark comments rule⟩
    cases comments with
    | false => exact hcut.next_of_isWord hw.isWord
    | true => simp [Tree.mark, PatchRule.comment]; decide
  · intro lineStart
    have hword : Token.lineStartOf lineStart [w] = false :=
      Token.lineStartOf_concat [] hw.ne_whitespace
    rw [Token.lineStartOf_append, hts.lineStart, hword]
    cases comments with
    | false => rfl
    | true => rfl

/-! ## The object itself -/

namespace SelfReference

/-- What stands in front of `this` is cut alike in front of a parenthesis: it is no word, and it is
no number that either of them would go on. -/
theorem cut_parenthesis {p : Token} {lineStart : Bool} {rest rest' : List Char}
    (h : p.Cut lineStart (Token.this.text.toList ++ rest)) : p.Cut lineStart ('(' :: rest') := by
  refine h.of_similar (.heads rfl rfl) (fun hk => ?_) fun _ => .ends rfl rfl
  have hnext : true = false := h.next_of_isWord hk
  cases hnext

theorem exists_fits {t : Tree} (ht : t.Regular) {source : String}
    (hclean : lexicalFaults source = []) (hdivides : Divides (lex source) t.leaves)
    {comments : Bool} {before' before new : List Token} {w : Token}
    (hgraft : (Decision.ofSite cast?).Grafting t comments before w new) :
    ∃ new', Divides new' new ∧ Fits before' w new' := by
  obtain ⟨n, p, made, hgraft⟩ := hgraft
  obtain ⟨hkind, type, hmem, target, htarget, htemplate⟩ := cast?_eq_some hgraft.decided
  have hspells := (rewords ht).spells hgraft.around hgraft.isWord.isNode hgraft.decided
    hgraft.synthesized
  have hword := Tree.isWord_this (hgraft.around.sound ht.sound) hgraft.isWord.isNode hkind
  obtain rfl : w = Token.this := hgraft.isWord.unique hword
  have htype := (hgraft.around.of_mem_ancestors hmem).1
  obtain ⟨name, ps, hname, hps, rfl, -⟩ :=
    Site.exists_qualifier (htype.allNamesCut hclean hdivides) htarget
  rw [hgraft.new_eq]
  -- Both templates begin with a parenthesis.
  have hfront {ts : List Token} {cs : List Char} (hchars : charsOf ts = '(' :: cs) :
      ∀ p, before'.getLast? = some p → ∀ lineStart rest rest',
        p.Cut lineStart (Token.this.text.toList ++ rest) →
          p.Cut lineStart (charsOf ts ++ rest') := by
    intro p _ _ _ _ hcut
    rw [hchars]
    exact cut_parenthesis hcut
  rcases htemplate with htemplate | htemplate
  · rw [htemplate, ← Token.textOf_cast] at hspells
    exact exists_fits_of_portable hspells (Token.portable_cast hname hps) Token.isCutWord_this
      (hfront (Token.charsOf_cons _ _))
  · rw [htemplate, ← Token.textOf_parenthesizedCast] at hspells
    exact exists_fits_of_portable hspells (Token.portable_parenthesizedCast hname hps)
      Token.isCutWord_this (hfront (Token.charsOf_cons _ _))

/-- **What the pass over `this` leaves, token by token.**  On a clean text, the text that the pass
leaves has no lexical fault and is cut into the leaves of the tree that it has put together, where
some shifts may stand divided. -/
theorem casts_relex (options : PatchOptions) (source : String)
    (hclean : (parse source).isClean = true) (o : Outcome)
    (hrun : Pass.selfReference.run options (parse source).tree = .ok o) :
    lexicalFaults o.text = [] ∧ Divides (lex o.text) o.tree.leaves := by
  have ht := regular_parse source
  have hfaults := Parsed.lexicalFaults_eq_nil hclean
  have hdivides := divides_parse source
  generalize (parse source).tree = t at *
  have hrun' := ((tracks t).run_eq options.comments).symm.trans hrun
  exact (rewords ht).relexes hfaults hdivides
    (fun _ _ _ _ _ hgraft => exists_fits ht hfaults hdivides hgraft) hrun'

/-- A type with parameters, a shift that closes two lists of types, and `this` behind a mark and
in place of an argument. -/
def markedCasts : String :=
  "class A<T, U> { List<List<int>> l; void M() { F(1>this.G(), this); } }"

/-- It is clean, and the text that the pass leaves there, with comments, is cut into the leaves. -/
theorem casts_relex_markedCasts :
    (parse markedCasts).isClean = true ∧
    ∃ o, Pass.selfReference.run { comments := true } (parse markedCasts).tree = .ok o ∧
      o.text = "class A<T, U> \x7b List<List<int>> l; void M() \x7b F(1>" ++
        "((A<T, U>)(object)this)/*SelfReferenceRewriter:InvocationReceiver*/.G(), " ++
        "(A<T, U>)(object)this/*SelfReferenceRewriter:Argument*/); \x7d \x7d" ∧
      lexicalFaults o.text = [] ∧ Divides (lex o.text) o.tree.leaves := by
  have hfacts : (parse markedCasts).isClean = true ∧
      (Pass.selfReference.run { comments := true } (parse markedCasts).tree).toOption.map
        Outcome.text = some ("class A<T, U> \x7b List<List<int>> l; void M() \x7b F(1>" ++
          "((A<T, U>)(object)this)/*SelfReferenceRewriter:InvocationReceiver*/.G(), " ++
          "(A<T, U>)(object)this/*SelfReferenceRewriter:Argument*/); \x7d \x7d") := by
    decide +kernel
  obtain ⟨hclean, htext⟩ := hfacts
  obtain ⟨o, hrun, htext⟩ := Outcome.exists_of_text htext
  exact ⟨hclean, o, hrun, htext, casts_relex _ _ hclean o hrun⟩

/-- Two comparisons, of which the second one compares with a call on `this`. -/
def comparedCall : String := "class A { void M() { f(a<b,c>this.Foo()); } }"

/-- The tokens are the right ones, but the text does not read as the tree: with a parenthesis
behind them, the angles of the two comparisons enclose the type arguments of a call. -/
theorem cast_misread :
    (parse comparedCall).isClean = true ∧
    ∃ o, Pass.selfReference.run {} (parse comparedCall).tree = .ok o ∧
      o.text = "class A { void M() { f(a<b,c>((A)(object)this).Foo()); } }" ∧
      (parse o.text).isClean = true ∧ (parse o.text).tree.dropTrivia ≠ o.tree.dropTrivia := by
  have hfacts : (parse comparedCall).isClean = true ∧
      ((Pass.selfReference.run {} (parse comparedCall).tree).toOption.any fun o =>
        o.text = "class A { void M() { f(a<b,c>((A)(object)this).Foo()); } }" ∧
          (parse o.text).isClean = true ∧ (parse o.text).tree.dropTrivia ≠ o.tree.dropTrivia) := by
    decide +kernel
  exact ⟨hfacts.1, Outcome.exists_of_any hfacts.2⟩

end SelfReference

/-! ## Static fields -/

/-- The token right in front of what the grammar sees of a node. -/
def Site.tokenBefore? (n : Site) : Option Token :=
  (n.leavesBefore ++ n.tree.leadingTrivia).getLast?

/-- May a token of the kind fuse with a word right behind it? -/
def Kind.fuses (k : Kind) : Bool := k.isWord || k.isNumber

theorem Kind.ne_of_fuses {k j : Kind} (hk : k.fuses = true) (hj : j.fuses = false) : k ≠ j := by
  rintro rfl
  rw [hk] at hj
  cases hj

/-- A word or number is still cut as it is with `text` right behind it. -/
def Token.StandsApart (p : Token) (text : String) : Prop :=
  p.kind.fuses = true → (lex (p.text ++ text)).head? = some p

instance (p : Token) (text : String) : Decidable (p.StandsApart text) :=
  inferInstanceAs (Decidable (_ → _))

namespace StaticFields

/-- What stands in front of a name is cut in front of the name with its type, if it is no word or
number that fuses with the type. -/
theorem cut_member {p w t name : Token} {ps : List Token} {lineStart : Bool}
    {rest rest' : List Char} (ht : t.IsCutWord) (hps : ∀ p ∈ ps, p.IsCutWord)
    (hname : name.IsCutWord) (hw : w.IsCutWord)
    (hapart : p.StandsApart (textOf (Token.member (Token.qualifier t ps) name)))
    (h : p.Cut lineStart (w.text.toList ++ rest)) :
    p.Cut lineStart (charsOf (Token.member (Token.qualifier t ps) name) ++ rest') := by
  by_cases hk : p.kind.fuses = true
  · have hcut := Token.cut_of_head? h.ne_empty (Kind.ne_of_fuses hk rfl) (hapart hk)
    exact (hcut.of_lineStart (Kind.ne_of_fuses hk rfl)).append_right
      (Token.three_le_member ht ps hname) _
  · obtain ⟨c, cs, hchars, hc⟩ := (Token.portable_member ht hps hname).head
    obtain ⟨hword, hnumber⟩ := Bool.or_eq_false_iff.mp (Bool.not_eq_true _ ▸ hk)
    obtain ⟨d, ds, htext, hd⟩ := hw.exists_head
    rw [htext] at h
    rw [hchars]
    exact h.of_similar (.heads hd hc) (by simp [hword]) (by simp [hnumber])

theorem exists_fits {t : Tree} (ht : t.Regular) {source : String}
    (hclean : lexicalFaults source = []) (hdivides : Divides (lex source) t.leaves)
    {visibility : FieldVisibility}
    (hapart : ∀ n ∈ (Site.root t).descendants, ∀ type qualifier name,
      Refers visibility n type qualifier name →
        ∀ p, n.tokenBefore? = some p → p.StandsApart (memberText qualifier name))
    {comments : Bool} {before' before new : List Token} {w : Token}
    (hbefore : Divides before' before)
    (hgraft : (Decision.ofSite (reference? visibility)).Grafting t comments before w new) :
    ∃ new', Divides new' new ∧ Fits before' w new' := by
  obtain ⟨n, p, made, hgraft⟩ := hgraft
  have hn := Site.mem_descendants.mpr ⟨hgraft.around, hgraft.isWord.isNode⟩
  have hspells := (rewords ht visibility).spells hgraft.around hgraft.isWord.isNode
    hgraft.decided hgraft.synthesized
  obtain ⟨type, q, x, hr, hp⟩ := reference?_eq_some.mp hgraft.decided
  obtain ⟨v, hv, rfl⟩ := Option.map_eq_some_iff.mp hr.named
  have hword := Site.isWord_name (hgraft.around.sound ht.sound) hgraft.isWord.isNode hr.kind hv
    hr.plain
  obtain rfl : w = v := hgraft.isWord.unique hword
  obtain ⟨hmem, hkind⟩ := Site.boundName?_eq_some hv
  have hname : w.IsCutWord :=
    hgraft.around.allNamesCut hclean hdivides w (Site.mem_leaves_of_mem_tokens hmem) hkind
  have htype := (hgraft.around.of_mem_ancestors (List.mem_of_find?_eq_some hr.nearest)).1
  obtain ⟨owner, ps, howner, hps, rfl, -⟩ :=
    Site.exists_qualifier (htype.allNamesCut hclean hdivides) hr.qualified
  have hmember := Token.textOf_member (Token.qualifier owner ps) w
  rw [hp, ← hmember] at hspells
  rw [hgraft.new_eq]
  refine exists_fits_of_portable hspells (Token.portable_member howner hps hname) hname ?_
  intro u hu lineStart rest rest' hcut
  refine cut_member howner hps hname hname ?_ hcut
  intro hk
  have hlast := hbefore.getLast? hu (Kind.ne_of_fuses hk rfl)
  rw [hgraft.before_eq] at hlast
  rw [hmember]
  exact hapart n hn _ _ _ hr u hlast hk

/-- **What the pass over static fields leaves, token by token.**  On a clean text, and if no
qualifier fuses with a word or number right in front of it, the text that the pass leaves has no
lexical fault and is cut into the leaves of the tree that it has put together, where some shifts
may stand divided. -/
theorem qualifiers_relex (options : PatchOptions) (source : String)
    (hclean : (parse source).isClean = true) (o : Outcome)
    (hrun : Pass.staticFieldAccess.run options (parse source).tree = .ok o)
    (hapart : ∀ n ∈ (Site.root (parse source).tree).descendants, ∀ type qualifier name,
      Refers options.visibility n type qualifier name →
        ∀ p, n.tokenBefore? = some p → p.StandsApart (memberText qualifier name)) :
    lexicalFaults o.text = [] ∧ Divides (lex o.text) o.tree.leaves := by
  have ht := regular_parse source
  have hfaults := Parsed.lexicalFaults_eq_nil hclean
  have hdivides := divides_parse source
  generalize (parse source).tree = t at *
  have hrun' := ((tracks options t).run_eq options.comments).symm.trans hrun
  exact (rewords ht options.visibility).relexes hfaults hdivides
    (fun _ _ _ _ hbefore hgraft => exists_fits ht hfaults hdivides hapart hbefore hgraft) hrun'

/-- A word right in front of a reference, which the sign of the type's name keeps apart. -/
def verbatimType : String := "class @A { public static int @x, y; int M() { return@x+y; } }"

/-- It is clean, no qualifier fuses, and the text that the pass leaves is cut into the leaves. -/
theorem qualifiers_relex_verbatimType :
    (parse verbatimType).isClean = true ∧
    (∀ n ∈ (Site.root (parse verbatimType).tree).descendants, ∀ type qualifier name,
      Refers .explicitPrivateOnly n type qualifier name →
        ∀ p, n.tokenBefore? = some p → p.StandsApart (memberText qualifier name)) ∧
    ∃ o, Pass.staticFieldAccess.run {} (parse verbatimType).tree = .ok o ∧
      o.text = "class @A { public static int @x, y; int M() { return@A.@x+@A.y; } }" ∧
      lexicalFaults o.text = [] ∧ Divides (lex o.text) o.tree.leaves := by
  have hfacts : (parse verbatimType).isClean = true ∧
      (∀ n ∈ (Site.root (parse verbatimType).tree).descendants,
        ∀ p ∈ reference? .explicitPrivateOnly n, ∀ u ∈ n.tokenBefore?,
          u.StandsApart p.template) ∧
      (Pass.staticFieldAccess.run {} (parse verbatimType).tree).toOption.map Outcome.text =
        some "class @A { public static int @x, y; int M() { return@A.@x+@A.y; } }" := by
    decide +kernel
  obtain ⟨hclean, hall, htext⟩ := hfacts
  obtain ⟨o, hrun, htext⟩ := Outcome.exists_of_text htext
  have hapart : ∀ n ∈ (Site.root (parse verbatimType).tree).descendants,
      ∀ type qualifier name, Refers .explicitPrivateOnly n type qualifier name →
        ∀ p, n.tokenBefore? = some p → p.StandsApart (memberText qualifier name) := by
    generalize (parse verbatimType).tree = t at hall
    intro n hn type qualifier name hr p hp
    exact hall n hn _ (reference?_eq_some.mpr ⟨type, qualifier, name, hr, rfl⟩) p hp
  refine ⟨hclean, hapart, o, hrun, htext, ?_⟩
  exact qualifiers_relex {} verbatimType hclean o hrun hapart

/-- A reserved word right in front of a reference. -/
def returnedVerbatim : String := "class A { public static int @x; int M() { return@x; } }"

/-- There the type fuses with the word: the text that the pass leaves has no `return`. -/
theorem qualifier_fuses :
    (parse returnedVerbatim).isClean = true ∧
    ∃ o, Pass.staticFieldAccess.run {} (parse returnedVerbatim).tree = .ok o ∧
      o.text = "class A { public static int @x; int M() { returnA.@x; } }" ∧
      ¬Divides (lex o.text) o.tree.leaves := by
  have hfacts : (parse returnedVerbatim).isClean = true ∧
      (Pass.staticFieldAccess.run {} (parse returnedVerbatim).tree).toOption.any fun o : Outcome =>
        decide (o.text = "class A { public static int @x; int M() { returnA.@x; } }" ∧
          (∀ w ∈ lex o.text, w.kind ≠ .returnKw) ∧ ∃ w ∈ o.tree.leaves, w.kind = .returnKw) := by
    decide +kernel
  obtain ⟨hclean, hany⟩ := hfacts
  obtain ⟨o, hrun, htext, hnone, w, hw, hreturn⟩ := Outcome.exists_of_any hany
  refine ⟨hclean, o, hrun, htext, fun hdivides => ?_⟩
  have hall := hdivides.forall_mem (P := fun w => w.kind ≠ .returnKw) (by decide) hnone
  exact hall w hw hreturn

end StaticFields

end LivePatch
