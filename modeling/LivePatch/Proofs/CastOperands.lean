import LivePatch.Proofs.ReturnedValues
import LivePatch.Proofs.ReturnScopes

/-!
# What the operand of a cast reads as

A returned value is cast as a text: its own text, perhaps between parentheses, stands behind the
texts of two casts, and the whole is read again.  The casts end in a parenthesis, and a value begins
with a word of its own, so the text is cut into the tokens of the casts and those that the operand
has by itself.  Hence the casts take the value as a whole if and only if the operand, read by itself
where only operators count that bind tighter than a cast, reads as the value.
-/

namespace LivePatch

open Grammar (MakesTree castThroughTree castWords readWhole wholeExpression prefixPower)

/-! ## Tokens of casts -/

namespace Token

/-- The tokens of two casts in front of an operand, the outer one to a type. -/
def casts (type : List Token) : List Token :=
  openParen :: (type ++ [closeParen, openParen, object, closeParen])

variable {type : List Token} {t : Token} {us : List Token} {lineStart : Bool} {rest : List Char}

theorem charsOf_castText (operand : String) :
    (castText (textOf type) operand).toList = charsOf (casts type) ++ operand.toList := by
  simp [charsOf, castText, casts, openParen, closeParen, object]

/-- Two casts are cut in front of everything. -/
theorem lexes_casts (ht : t.IsCutWord) (hus : ∀ u ∈ us, u.IsCutWord) :
    Lexes lineStart (casts (qualifier t us)) rest := by
  refine ⟨cut_openParen, lexes_append.mpr ⟨lexes_qualifier ht hus ?_, ?_⟩⟩
  · refine ⟨')', '(', charsOf [object, closeParen] ++ rest, ?_, .inr rfl, rfl⟩
    simp [closeParen, openParen]
  · refine ⟨cut_closeParen, cut_openParen, isCutWord_object.cut_of_next ?_, ?_⟩
    · rw [charsOf_cons]
      rfl
    · exact lexes_singleton.mpr cut_closeParen

theorem lineStartOf_casts : lineStartOf lineStart (casts type) = false := by
  have hconcat : casts type = (openParen :: (type ++ [closeParen, openParen, object])) ++
      [closeParen] := by
    simp [casts]
  rw [hconcat]
  exact lineStartOf_concat _ nofun

theorem filter_casts (h : ∀ v ∈ t :: us, v.kind = .identifier) (ws : List Token) :
    (casts (qualifier t us)).filter isSignificant ++ ws = castWords t us ws := by
  have hopen : openParen.isSignificant = true := rfl
  have hclose : closeParen.isSignificant = true := rfl
  have hobject : object.isSignificant = true := rfl
  simp [casts, castWords, Grammar.objectCastWords, filter_qualifier h, hopen, hclose, hobject]

end Token

open Token (Divides casts qualifier textOf)
open Decision (fills)

/-- The text begins with a word that may stand behind a cast, and not at the start of its line. -/
def BeginsWord (text : String) : Prop :=
  ∃ c cs, text.toList = c :: cs ∧ isBlank c = false ∧ c ≠ '#'

section

variable {t : Token} {us : List Token} {operand : String}

/-- Behind two casts, an operand has the pieces that it has by itself. -/
theorem pieces_castText (h : Nameable t us) (hbegins : BeginsWord operand) :
    Lexer.pieces (castText (textOf (qualifier t us)) operand) =
      (casts (qualifier t us)).map (fun w => ⟨.ok w.kind, w.text⟩) ++ Lexer.pieces operand := by
  obtain ⟨c, cs, hchars, hblank, hhash⟩ := hbegins
  rw [Lexer.pieces, Token.charsOf_castText,
    Token.piecesFrom_append (Token.lexes_casts h.cut h.parameters), Token.lineStartOf_casts,
    Lexer.pieces, hchars]
  exact congrArg _ (Lexer.piecesFrom_of_head hblank hhash true)

theorem lexicalFaults_castText (h : Nameable t us) (hbegins : BeginsWord operand) :
    lexicalFaults (castText (textOf (qualifier t us)) operand) = [] ↔
      lexicalFaults operand = [] := by
  rw [lexicalFaults, lexicalFaults, Token.faultsFrom_eq_nil_iff, Token.faultsFrom_eq_nil_iff,
    pieces_castText h hbegins, List.forall_mem_append]
  refine and_iff_right fun l hl => ?_
  obtain ⟨w, -, rfl⟩ := List.mem_map.mp hl
  exact ⟨w.kind, rfl⟩

theorem words_castText (h : Nameable t us) (hbegins : BeginsWord operand) :
    (lex (castText (textOf (qualifier t us)) operand)).filter Token.isSignificant =
      castWords t us ((lex operand).filter Token.isSignificant) := by
  have htokens : (fun w : Token => Lexer.Lexeme.token ⟨.ok w.kind, w.text⟩) = id := rfl
  rw [← Token.filter_casts h.identifiers, lex, pieces_castText h hbegins, List.map_append,
    List.map_map, Function.comp_def, htokens, List.map_id, List.append_assoc, List.filter_append]
  rfl

end

/-! ## Operands by themselves -/

namespace Grammar

/-- Where only operators count that bind at least as tightly as `power`, the text reads as the
expression `e` without a problem, trivia apart. -/
def ReadsAs (power : Nat) (source : String) (e : Tree) : Prop :=
  (readWhole (wholeExpression power) source).isClean = true ∧
    (readWhole (wholeExpression power) source).tree.dropTrivia =
      .node .expressionFragment [e, .token .endOfText]

theorem readsAs_iff {power : Nat} {source : String} {e : Tree} : ReadsAs power source e ↔
    lexicalFaults source = [] ∧ ∃ depth, Action.reciteRule production depth (.expression power)
      ((lex source).filter Token.isSignificant) [] = some (false, [.endOfText], [e]) := by
  constructor
  · rintro ⟨hclean, htree⟩
    obtain ⟨hlexical, depth, parts, hrecite, hparts⟩ := recite_of_isClean hclean
    obtain ⟨-, hboth⟩ := Tree.node.inj (hparts.symm.trans htree)
    obtain rfl : parts = [e] := List.append_cancel_right (show _ = [e] ++ _ from hboth)
    exact ⟨hlexical, depth, hrecite⟩
  · rintro ⟨hlexical, depth, hrecite⟩
    exact isClean_of_recite hlexical hrecite

/-- **Two casts in front of an operand** make the casts of `e` if and only if the operand by itself
reads as `e`. -/
theorem makesTree_castText_iff {t : Token} {us : List Token} (h : Nameable t us) {operand : String}
    (hbegins : BeginsWord operand) {e : Tree}
    (hkind : ReturnValues.needsParentheses e.kind = false) :
    MakesTree (castText (textOf (qualifier t us)) operand) (castThroughTree t us e) ↔
      ReadsAs prefixPower operand e := by
  obtain ⟨ht, hus⟩ := List.forall_mem_cons.mp h.identifiers
  have hends : EndsExpression .endOfText := .inl rfl
  have hstops : Stops 0 [.endOfText] := hends.stops 0
  rw [makesTree_iff, readsAs_iff, lexicalFaults_castText h hbegins, words_castText h hbegins]
  refine and_congr_right fun _ => ⟨?_, ?_⟩
  · rintro ⟨depth, parts, hrecite, hfirst⟩
    obtain ⟨k, ts, rfl⟩ := exists_of_recite_castThrough ht hus hrecite
    have hmem := (List.mem_filter.mp (List.mem_of_mem_head? hfirst)).1
    rw [← List.mem_singleton.mp hmem] at hrecite
    exact ((recite_castThrough_iff ht hus hstops (Nat.zero_le _)).mp ⟨depth, hrecite⟩).2
  · rintro ⟨depth, hrecite⟩
    obtain ⟨depth', hcast⟩ := (recite_castThrough_iff ht hus hstops (Nat.zero_le _)).mpr
      ⟨canStartExpression_of_recite hkind hrecite, depth, hrecite⟩
    exact ⟨depth', _, hcast, rfl⟩

end Grammar

/-! ## Returned values -/

/-- In a clean text, what the grammar sees of a node begins with a word. -/
theorem Site.Around.beginsWord {source : String} (h : lexicalFaults source = []) {t : Tree}
    (ht : Divides (lex source) t.leaves) {n : Site} (hn : (Site.root t).Around n)
    (hsolid : n.tree.isSolid = true) (hvalue : n.tree.IsValue) : BeginsWord n.tree.coreText := by
  obtain ⟨w, core, hcore, hw⟩ := (Tree.edges_of_isSolid hsolid).first
  have hmem : w ∈ n.tree.leaves :=
    Tree.mem_leaves_of_mem_coreLeaves hsolid (hcore ▸ List.mem_cons_self)
  have hall : ∀ u ∈ t.leaves, u.IsPiece → ∃ lineStart rest, u.Cut lineStart rest := by
    refine ht.forall_mem (fun _ => ⟨true, [], '>', [], rfl, .mark nofun nofun rfl⟩) ?_
    intro u hu hpiece
    rcases List.mem_append.mp hu with hu | hu
    · exact (Token.lexes_lexed h).exists_cut hu
    · exact absurd (congrArg Token.kind (List.mem_singleton.mp hu)) hpiece.ne_eof
  obtain ⟨lineStart, rest, c, cs, htext, hcuts⟩ :=
    hall w (hn.mem_leaves hmem) (hvalue.pieces w hmem)
  obtain ⟨hblank, hhash⟩ := hcuts.first_of_isTrivia hw
  refine ⟨c, cs ++ Token.charsOf core, ?_, hblank, hhash⟩
  rw [Tree.coreText, hcore, Token.textOf_cons, String.toList_append, htext]
  rfl

namespace ReturnValues

/-- The operand that a returned value becomes: the value, or the value between parentheses. -/
def operandTree (e : Tree) : Tree :=
  if needsParentheses e.kind then
    .node .parenthesizedExpression [.token Token.openParen, e, .token Token.closeParen]
  else e

theorem needsParentheses_operandTree (e : Tree) : needsParentheses (operandTree e).kind = false := by
  unfold operandTree
  split
  · rfl
  · simp_all

theorem beginsWord_operandText {e : Tree} (h : BeginsWord e.coreText) (k : Kind) :
    BeginsWord (operandText k e) := by
  unfold operandText
  split
  · exact ⟨'(', e.coreText.toList ++ [')'], by simp, by decide, by decide⟩
  · exact h

/-- The operand that the value `e` becomes reads by itself as that: as the value, with all of its
parts, between the parentheses if there are any. -/
def ReadsWhole (e : Tree) : Prop :=
  Grammar.ReadsAs prefixPower (operandText e.kind e) (operandTree e.dropTrivia)

instance (e : Tree) : Decidable (ReadsWhole e) :=
  inferInstanceAs (Decidable (_ ∧ _))

/-- The casts of the value `e` to `target` read as casts of the whole value. -/
def MakesCasts (target : String) (e : Tree) : Prop :=
  ∃ name parameters, Nameable name parameters ∧ textOf (qualifier name parameters) = target ∧
    MakesTree (castText target (operandText e.kind e))
      (castThroughTree name parameters (operandTree e.dropTrivia))

/-- Two casts in front of a value are those of the whole value exactly if the operand reads by
itself as the value. -/
theorem makesCasts_iff {root : Tree} {source : String} (hroot : root.Readable)
    (hwell : root.WellFormed) (hlexical : lexicalFaults source = [])
    (hdivides : Divides (lex source) root.leaves) {e : Site} (he : (Site.root root).Around e)
    (hnode : e.tree.isNode = true) {target : String} (hneeds : NeedsCast e target) :
    MakesCasts target e.tree ↔ ReadsWhole e.tree := by
  have hcast : value? e = some _ :=
    (cast?_eq_some_iff hwell he hnode).mpr ⟨target, hneeds, rfl⟩
  obtain ⟨-, hsolid, hvalue⟩ := value_of_cast? hroot.toRegular he hnode hcast
  have hbegins := beginsWord_operandText (he.beginsWord hlexical hdivides hsolid hvalue) e.tree.kind
  have hiff {name : Token} {parameters : List Token} (hnames : Nameable name parameters) :
      MakesTree (castText (textOf (qualifier name parameters)) (operandText e.tree.kind e.tree))
        (castThroughTree name parameters (operandTree e.tree.dropTrivia)) ↔ ReadsWhole e.tree :=
    Grammar.makesTree_castText_iff hnames hbegins (needsParentheses_operandTree _)
  constructor
  · rintro ⟨name, parameters, hnames, rfl, hmade⟩
    exact (hiff hnames).mp hmade
  · intro hwhole
    -- The name of the type is made of identifiers of the text.
    obtain ⟨method, type, hreturns⟩ := hneeds.owned
    have htype : (Site.root root).Around type := by
      rcases List.mem_cons.mp (List.mem_of_find?_eq_some hreturns.nearest) with rfl | hmem
      · exact he
      · exact (he.of_mem_ancestors hmem).1
    obtain ⟨name, parameters, hnames, rfl, -⟩ :=
      Site.exists_nameable (hroot.allNamesCut htype) hreturns.named
    exact ⟨name, parameters, hnames, rfl, (hiff hnames).mpr hwhole⟩

/-- **Which values are cast as a whole.**  On a clean text, the template for a value that needs a
cast makes two casts around the whole value, to the nearest type by its name and to `object` inside,
exactly if the operand reads by itself as the value.  If that is so for all of them, then the pass
succeeds, and it puts these casts in their places. -/
theorem values_cast_whole (options : PatchOptions) (source : String)
    (hclean : (parse source).isClean = true) (hreturns : options.castReturns = true) :
    let t := (parse source).tree
    (∀ e ∈ (Site.root t).descendants, ∀ target, NeedsCast e target →
      (MakesCasts target e.tree ↔ ReadsWhole e.tree)) ∧
    ((∀ e ∈ (Site.root t).descendants, ∀ target, NeedsCast e target → ReadsWhole e.tree) →
      Pass.returnType.run options t = .ok ⟨(fills options.comments value?).run t,
        (Site.root t).descendants.filterMap valueEdit?⟩) := by
  intro t
  have hroot : t.Readable := readable_parse hclean
  have hwell : t.WellFormed := wellFormed_parse source hclean
  have hcasts : ∀ e ∈ (Site.root t).descendants, ∀ target, NeedsCast e target →
      (MakesCasts target e.tree ↔ ReadsWhole e.tree) := by
    intro e he target hneeds
    obtain ⟨hplace, hnode⟩ := Site.mem_descendants.mp he
    exact makesCasts_iff hroot hwell (Parsed.lexicalFaults_eq_nil hclean) (divides_parse source)
      hplace hnode hneeds
  clear_value t
  refine ⟨hcasts, fun hwhole => ?_⟩
  have hmade : ∀ e, (Site.root t).Around e → e.tree.isNode = true → ∀ p, value? e = some p →
      ∃ made, synthesize p.template = .ok made := by
    intro e hplace hnode p hp
    obtain ⟨target, hneeds, rfl⟩ := (cast?_eq_some_iff hwell hplace hnode).mp hp
    have he := Site.mem_descendants.mpr ⟨hplace, hnode⟩
    obtain ⟨name, parameters, -, rfl, made, hok, -⟩ :=
      (hcasts e he target hneeds).mpr (hwhole e he target hneeds)
    exact ⟨made, hok⟩
  rw [run_returnType hroot.toRegular hreturns,
    Decision.run_ofSite options.comments (apart_value? hroot.toRegular) hmade]
  refine congrArg (fun es => Except.ok (Outcome.mk _ es)) (List.filterMap_congr fun e he => ?_)
  obtain ⟨hplace, hnode⟩ := Site.mem_descendants.mp he
  exact edit?_eq_valueEdit? hroot.toRegular hplace hnode (hmade e hplace hnode)

/-- A value that is called behind a parenthesis, and one that needs parentheses. -/
def wholeValues : String :=
  "class A<T> \x7b A<T> M(A<T> a) \x7b if (a.P) return (a ?? this).N(a); return a ?? this; \x7d \x7d"

/-- There both values read as they should, and so they are cast as wholes. -/
theorem values_cast_whole_wholeValues : (parse wholeValues).isClean = true ∧
    ((Site.root (parse wholeValues).tree).descendants.filterMap value?).length = 2 ∧
    (∀ e ∈ (Site.root (parse wholeValues).tree).descendants, ∀ target, NeedsCast e target →
      ReadsWhole e.tree) ∧
    ∃ o, Pass.returnType.run { castReturns := true } (parse wholeValues).tree = .ok o := by
  obtain ⟨hclean, hboth, hfacts⟩ : (parse wholeValues).isClean = true ∧
      ((Site.root (parse wholeValues).tree).descendants.filterMap value?).length = 2 ∧
      ((Site.root (parse wholeValues).tree).descendants.all fun e =>
        (value? e).isNone || decide (ReadsWhole e.tree)) = true := by
    decide +kernel
  have hwhole : ∀ e ∈ (Site.root (parse wholeValues).tree).descendants, ∀ target,
      NeedsCast e target → ReadsWhole e.tree := by
    intro e he target hneeds
    obtain ⟨hplace, hnode⟩ := Site.mem_descendants.mp he
    have hvalue : value? e = some _ :=
      (cast?_eq_some_iff (wellFormed_parse _ hclean) hplace hnode).mpr ⟨target, hneeds, rfl⟩
    simpa [hvalue] using List.all_eq_true.mp hfacts e he
  exact ⟨hclean, hboth, hwhole, _, (values_cast_whole { castReturns := true } wholeValues hclean rfl).2
    hwhole⟩

/-- A value that is awaited. -/
def awaitedValue : String := "class A \x7b async A M() \x7b return await x; \x7d \x7d"

/-- Between the parentheses that it gets, `await x` is read as the declaration of a variable `x` of a
type `await`: the value is not cast as a whole. -/
theorem awaited_reread : (parse awaitedValue).isClean = true ∧
    .awaitExpression ∈ (parse awaitedValue).tree.kinds ∧
    ∃ o, Pass.returnType.run { castReturns := true } (parse awaitedValue).tree = .ok o ∧
      o.text = "class A \x7b async A M() \x7b return (A)(object)(await x); \x7d \x7d" ∧
      .awaitExpression ∉ o.tree.kinds ∧ .declarationExpression ∈ o.tree.kinds := by
  have hfacts : (parse awaitedValue).isClean = true ∧
      .awaitExpression ∈ (parse awaitedValue).tree.kinds ∧
      ((Pass.returnType.run { castReturns := true } (parse awaitedValue).tree).toOption.any fun o =>
        o.text = "class A \x7b async A M() \x7b return (A)(object)(await x); \x7d \x7d" ∧
          .awaitExpression ∉ o.tree.kinds ∧ .declarationExpression ∈ o.tree.kinds) := by
    decide +kernel
  exact ⟨hfacts.1, hfacts.2.1, Outcome.exists_of_any hfacts.2.2⟩

end ReturnValues

end LivePatch
