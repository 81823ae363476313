import LivePatch.Proofs.Commutation

/-!
# Templates made of names

The passes over static fields and over `this` put nothing into a template but names: that of the
nearest type, those of its parameters and that of a field.  Whatever identifiers these are, words
such as `await` or `var` and names behind `@` among them, the templates read as the expressions that
they are meant to be.  So patching a clean text cannot fail, as long as no returned value is to be
cast.
-/

namespace LivePatch

open Lexer (piecesFrom)

/-! ## Names -/

/-- The token of the identifier `x`. -/
def Token.ofName (x : String) : Token := ⟨.identifier, x⟩

/-- The text `x` is that of an identifier in some text. -/
def IsName (x : String) : Prop := ∃ source, Token.ofName x ∈ lex source

/-- The name of a type as it is referred to, given its own name and those of its parameters. -/
def qualifierText (type : String) : List String → String
  | [] => type
  | parameters => type ++ "<" ++ ", ".intercalate parameters ++ ">"

theorem Site.qualifyingName?_eq (s : Site) : s.qualifyingName? =
    s.declaredName?.map fun w => qualifierText w.text s.typeParameterNames := by
  unfold Site.qualifyingName?
  cases s.declaredName? with
  | none => rfl
  | some w =>
    cases s.typeParameterNames with
    | nil => rfl
    | cons p ps => rfl

theorem Token.textOf_qualifier_map (type : String) (parameters : List String) :
    textOf (qualifier (ofName type) (parameters.map ofName)) = qualifierText type parameters := by
  cases parameters with
  | nil => simp [qualifier, qualifierText, ofName]
  | cons p ps =>
    have hlist := charsOf_separated (ofName p) (ps.map ofName)
    have htexts : (ofName p :: ps.map ofName).map (·.text) = p :: ps := by
      simp [ofName, Function.comp_def]
    rw [charsOf, String.toList_inj, htexts] at hlist
    simp only [List.map_cons, qualifier, qualifierText]
    rw [textOf_cons, textOf_cons, textOf_append, hlist]
    simp [ofName, openAngle, closingAngle, String.append_assoc]

/-- A piece that is a token was cut off in front of something. -/
theorem Token.exists_cut_of_piece {lineStart : Bool} {cs : List Char} {l : Lexer.Lexeme} {k : Kind}
    (hl : l ∈ piecesFrom lineStart 0 cs) (hk : l.outcome = .ok k) :
    ∃ lineStart' rest, l.token.Cut lineStart' rest := by
  -- By induction on how much of the text is left.
  induction hn : cs.length using Nat.strongRecOn generalizing lineStart cs with
  | _ n ih =>
    subst hn
    cases cs with
    | nil => cases hl
    | cons c cs =>
      rw [piecesFrom, Mode.piecesFrom_skip] at hl
      rcases List.mem_cons.mp hl with rfl | hl
      · generalize hread : Lexer.read lineStart c cs = r at hk
        obtain ⟨outcome, n⟩ := r
        obtain rfl : outcome = .ok k := hk
        have hcuts := Lexer.cuts_of_read hread
        refine ⟨lineStart, cs.drop n, c, cs.take n, String.toList_ofList, ?_⟩
        rw [List.take_append_drop, List.length_take, Nat.min_eq_left hcuts.le_length]
        exact hcuts
      · exact ih _ (by rw [List.length_drop, List.length_cons]; omega) hl rfl

/-- A name is a word that the lexer cuts. -/
theorem IsName.isCutWord {x : String} (h : IsName x) : (Token.ofName x).IsCutWord := by
  obtain ⟨source, hmem⟩ := h
  rw [lex, List.mem_append, List.mem_map] at hmem
  rcases hmem with ⟨l, hl, htoken⟩ | hmem
  · cases hk : l.outcome with
    | ok k => exact ⟨rfl, htoken ▸ Token.exists_cut_of_piece hl hk⟩
    | error fault =>
      have hkind : l.token.kind = .error := by rw [Lexer.Lexeme.token, hk]
      rw [htoken] at hkind
      cases hkind
  · cases List.mem_singleton.mp hmem

theorem nameable_of_isName {type : String} {parameters : List String} (htype : IsName type)
    (hparameters : ∀ p ∈ parameters, IsName p) :
    Nameable (Token.ofName type) (parameters.map Token.ofName) where
  cut := htype.isCutWord
  parameters := by
    intro u hu
    obtain ⟨p, hp, rfl⟩ := List.mem_map.mp hu
    exact (hparameters p hp).isCutWord
  identifiers := by
    refine List.forall_mem_cons.mpr ⟨rfl, fun v hv => ?_⟩
    obtain ⟨p, -, rfl⟩ := List.mem_map.mp hv
    rfl

/-! ## Patching -/

/-- When returned values are left alone, every clean text can be patched. -/
theorem exists_patch (options : PatchOptions) (source : String)
    (hclean : (parse source).isClean = true) (hreturns : options.castReturns = false) :
    ∃ o, patch options source = .ok o := by
  obtain ⟨-, es, hrun, -⟩ := Pass.run_fields_casts options (readable_parse hclean)
  have hlast : ∀ t, Pass.runAll options [.returnType] t = .ok ⟨t, []⟩ := by
    intro t
    exact Pass.runAll_singleton (by simp [Pass.run, hreturns])
  have hall := Pass.runAll_append hrun (hlast _)
  rw [patch]
  simp only [hclean, if_true]
  exact ⟨_, hall⟩

open Grammar in
/-- **Making replacements never fails.**  A clean text can be patched when returned values are left
alone; and for all names `type`, `x` and `parameters`, the three templates read as the member `x`
of the type, as `this` cast to `object` and on to the type, and as that between parentheses. -/
theorem names_make_templates :
    (∀ options source, (parse source).isClean = true → options.castReturns = false →
      ∃ o, patch options source = .ok o) ∧
    ∀ (type x : String) (parameters : List String), IsName type → IsName x →
      (∀ p ∈ parameters, IsName p) →
      MakesTree (memberText (qualifierText type parameters) x)
        (memberTree (.ofName type) (parameters.map .ofName) (.ofName x)) ∧
      MakesTree (castText (qualifierText type parameters) "this")
        (thisCastTree (.ofName type) (parameters.map .ofName)) ∧
      MakesTree (parenthesizedCastText (qualifierText type parameters) "this")
        (parenthesizedTree (.ofName type) (parameters.map .ofName)) := by
  refine ⟨exists_patch, fun type x parameters htype hx hparameters => ?_⟩
  have hnames := nameable_of_isName htype hparameters
  have hmember := makesTree_member hnames hx.isCutWord rfl
  have hcast := makesTree_cast hnames
  have hparenthesized := makesTree_parenthesizedCast hnames
  rw [Token.textOf_qualifier_map] at hmember hcast hparenthesized
  exact ⟨hmember, hcast, hparenthesized⟩

/-- A type with names that are keywords in some places, and a field with a verbatim name. -/
def contextualNames : String :=
  "class await<var, async> { static int @class; int M() { N(this); return @class; } }"

/-- Its names are names, and it can be patched. -/
theorem names_make_templates_contextualNames :
    (parse contextualNames).isClean = true ∧ (∃ o, patch {} contextualNames = .ok o) ∧
    IsName "await" ∧ IsName "var" ∧ IsName "async" ∧ IsName "@class" ∧
    Grammar.MakesTree (memberText (qualifierText "await" ["var", "async"]) "@class")
      (Grammar.memberTree (.ofName "await") [.ofName "var", .ofName "async"]
        (.ofName "@class")) := by
  have hclean : (parse contextualNames).isClean = true := by decide +kernel
  have hawait : IsName "await" := ⟨"await", by decide +kernel⟩
  have hvar : IsName "var" := ⟨"var", by decide +kernel⟩
  have hasync : IsName "async" := ⟨"async", by decide +kernel⟩
  have hclass : IsName "@class" := ⟨"@class", by decide +kernel⟩
  refine ⟨hclean, names_make_templates.1 {} contextualNames hclean rfl, hawait, hvar, hasync,
    hclass, (names_make_templates.2 "await" "@class" ["var", "async"] hawait hclass ?_).1⟩
  simp [hvar, hasync]

end LivePatch
