import LivePatch.Proofs.Following.Scans
import Mathlib.Data.List.Infix

/-!
# Decisions in front of two ends

The same words are read in front of two ends, `here` and `there`: in front of the end of a text and
in front of what is around, say.  What the grammar decides by looking ahead is the same in both
places, apart from two words that may stand right behind: an arrow makes a lambda of a name or of a
parenthesis, and a colon makes a label of a name.

A colon can mislead only where the last of the words is still ahead, and that is no bracket that
closes something: where a closing bracket is ahead, words are `Settled`.  An arrow cannot mislead
where the last of the words is none that it could make a lambda of (`Calm`).
-/

namespace LivePatch

/-- Is this the kind of a bracket that closes something? -/
def Kind.closes : Kind → Bool
  | .rParen | .rBracket | .rBrace | .greater | .rightShift => true
  | _ => false

theorem Kind.closes_cases {k : Kind} (h : k.closes = true) :
    k = .rParen ∨ k = .rBracket ∨ k = .rBrace ∨ k = .greater ∨ k = .rightShift := by
  unfold closes at h
  split at h <;> simp_all

/-- Does an arrow behind a word of this kind say nothing about the words in front of it?  It does,
if a name ends there, a parenthesis or type arguments. -/
def Kind.fitsArrow : Kind → Bool
  | .identifier | .rParen | .greater | .rightShift => false
  | _ => true

namespace Words

variable {here there behind us : List Token} {k : Kind} {n : Nat}

theorem front_beq_of_limits (h : Limits behind) (hk : k.limits = false) :
    (front behind == k) = false := by
  rw [beq_eq_false_iff_ne]
  rintro rfl
  exact absurd (hk.symm.trans h.limits) (by decide)

theorem front_nil_beq (hk : k.limits = false) : (front [] == k) = false :=
  front_beq_of_limits limits_nil hk

/-! ## Words that stand at a place -/

theorem kindAt_behind (h : n < us.length) : kindAt n (us ++ behind) = kindAt n us := by
  rw [kindAt, List.getElem?_append_left h, kindAt]

theorem isAt_behind_of_lt (h : n < us.length) : isAt n k (us ++ behind) = isAt n k us := by
  rw [isAt, kindAt_behind h, isAt]

/-- Right behind the words stands what is first there. -/
theorem isAt_length (hk : k ≠ .eof) : isAt us.length k (us ++ behind) = (front behind == k) := by
  rw [isAt, kindAt, List.getElem?_append_right le_rfl, Nat.sub_self]
  cases behind with
  | nil => simp [front, hk.symm]
  | cons w ws => simp [front]

theorem isAt_behind (h : Limits behind) (hk : k.limits = false)
    (hn : n ≤ us.length) : isAt n k (us ++ behind) = isAt n k us := by
  rcases hn.lt_or_eq with hlt | rfl
  · exact isAt_behind_of_lt hlt
  · have hne : k ≠ .eof := by
      rintro rfl
      cases hk
    have hout : isAt us.length k us = false := by simp [isAt, kindAt]
    rw [isAt_length hne, hout, front_beq_of_limits h hk]

theorem holdsAt_behind {p : Kind → Bool} (h : Limits behind)
    (hp : ∀ k : Kind, k.limits = true → p k = false) (hn : n ≤ us.length) :
    holdsAt n p (us ++ behind) = holdsAt n p us := by
  rcases hn.lt_or_eq with hlt | rfl
  · rw [holdsAt, kindAt_behind hlt, holdsAt]
  · rw [holdsAt, holdsAt, kindAt, kindAt, List.getElem?_append_right le_rfl, Nat.sub_self]
    cases behind with
    | nil => simp
    | cons w ws => simpa using hp _ h.limits

theorem length_pos (hus : us ≠ []) : 1 ≤ us.length := List.length_pos_iff.mpr hus

/-- May an expression begin there?  Not with a word that limits. -/
theorem canStartExpression_of_limits (h : k.limits = true) : canStartExpression k = false := by
  obtain rfl | rfl | rfl | rfl | rfl := Kind.limits_cases h <;> rfl

/-! ## Decisions that no limit takes part in -/

section

variable (h : Limits behind)

include h

@[simp] theorem atArrayRank_behind (us : List Token) :
    Grammar.atArrayRank (us ++ behind) = Grammar.atArrayRank us := by
  cases us with
  | nil =>
    have hopen : isAt 0 .lBracket ([] ++ behind) = isAt 0 .lBracket [] := isAt_behind h rfl le_rfl
    rw [Grammar.atArrayRank, hopen]
    rfl
  | cons u us =>
    have hpos : 1 ≤ (u :: us).length := length_pos (List.cons_ne_nil _ _)
    rw [Grammar.atArrayRank, Grammar.atArrayRank, isAt_behind h rfl (Nat.zero_le _),
      isAt_behind h rfl hpos, isAt_behind h rfl hpos]

@[simp] theorem atDeclarationExpression_behind (us : List Token) :
    atDeclarationExpression (us ++ behind) = atDeclarationExpression us := by
  cases us with
  | nil => simp [atDeclarationExpression, afterType_of_limits h]
  | cons u us =>
    rw [atDeclarationExpression, atDeclarationExpression]
    have hscan := afterType_behind h (u :: us)
    generalize afterType (u :: us ++ behind) = there at hscan ⊢
    rcases hscan with rfl | ⟨hnone, rest, rfl, heof⟩
    · cases afterType (u :: us) with
      | none => rfl
      | some rest =>
        cases rest with
        | nil =>
          simp only [Option.map_some, List.nil_append, front_beq_of_limits h (k := .identifier) rfl,
            front_nil_beq (k := .identifier) rfl, Bool.false_and]
          rfl
        | cons w rest => rfl
    · simp [hnone, heof]

@[simp] theorem atVariableDeclaration_behind (us : List Token) :
    atVariableDeclaration (us ++ behind) = atVariableDeclaration us := by
  cases us with
  | nil => simp [atVariableDeclaration, afterType_of_limits h]
  | cons u us =>
    rw [atVariableDeclaration, atVariableDeclaration]
    have hscan := afterType_behind h (u :: us)
    generalize afterType (u :: us ++ behind) = there at hscan ⊢
    rcases hscan with rfl | ⟨hnone, rest, rfl, heof⟩
    · cases afterType (u :: us) with
      | none => rfl
      | some rest =>
        cases rest with
        | nil =>
          simp only [Option.map_some, List.nil_append, front_beq_of_limits h (k := .identifier) rfl,
            front_nil_beq (k := .identifier) rfl, Bool.false_and]
          rfl
        | cons w rest =>
          have hpos : 1 ≤ (w :: rest).length := length_pos (List.cons_ne_nil _ _)
          simp only [Option.map_some, isAt_behind h (k := .eq) rfl hpos,
            isAt_behind h (k := .semicolon) rfl hpos, isAt_behind h (k := .comma) rfl hpos]
          rfl
    · simp [hnone, heof]

@[simp] theorem atVarDesignation_behind (us : List Token) :
    atVarDesignation (us ++ behind) = atVarDesignation us := by
  match us with
  | [] =>
    simp only [atVarDesignation, List.nil_append, front_beq_of_limits h (k := .identifier) rfl,
      front_nil_beq (k := .identifier) rfl, Bool.false_and]
  | [u] =>
    have hopen : isAt 1 .lParen ([u] ++ behind) = isAt 1 .lParen [u] := isAt_behind h rfl le_rfl
    rw [atVarDesignation, atVarDesignation, hopen]
    simp [isAt, kindAt]
  | u :: v :: us =>
    have hopen : isAt 1 .lParen (u :: v :: us ++ behind) = isAt 1 .lParen (u :: v :: us) :=
      isAt_behind h rfl (by simp)
    have hdrop : (u :: v :: us ++ behind).drop 2 = us ++ behind := rfl
    rw [atVarDesignation, atVarDesignation, hopen, hdrop]
    simp only [List.drop_succ_cons, List.drop_zero]
    have hscan := (skipDesignation_behind h us).1 1
    generalize skipDesignation 1 (us ++ behind) = there at hscan ⊢
    rcases hscan with rfl | ⟨hnone, rest, rfl, heof⟩
    · cases skipDesignation 1 us with
      | none => rfl
      | some rest =>
        simp only [Option.map_some, Bool.beq_eq_decide_eq, front_append_eq_iff h (k := .eq) rfl,
          front_append_eq_iff h (k := .inKw) rfl]
        rfl
    · simp [hnone, heof]

@[simp] theorem atCast_behind (hus : us ≠ []) : atCast (us ++ behind) = atCast us := by
  obtain ⟨u, us, rfl⟩ := List.exists_cons_of_ne_nil hus
  rw [atCast, atCast, List.cons_append, List.drop_one, List.tail_cons, List.drop_one,
    List.tail_cons]
  cases us with
  | nil => rw [List.nil_append, afterType_of_limits h, afterType_nil]
  | cons v us =>
    have hscan := afterType_behind h (v :: us)
    generalize afterType (v :: us ++ behind) = there at hscan ⊢
    rcases hscan with rfl | ⟨hnone, rest, rfl, heof⟩
    · cases afterType (v :: us) with
      | none => rfl
      | some rest =>
        rcases rest with _ | ⟨w, _ | ⟨x, rest⟩⟩
        · simp only [Option.map_some, List.nil_append]
          by_cases hk : front behind = .rParen
          · -- Behind the parenthesis stands no operand, but the end of the text.
            have hoperand : canStartExpression .eof = false := rfl
            have hkeyword : (Kind.isLiteral .eof || Kind.isKeyword .eof) = false := rfl
            rw [h.last hk]
            simp [hoperand, hkeyword]
          · rw [beq_eq_false_iff_ne.mpr hk]
            rfl
        · have hnext : front ([w] ++ behind).tail = front behind := rfl
          simp only [Option.map_some, List.drop_one, hnext]
          rcases h.cases with hk | hk | hk | hk | hk <;> rw [hk] <;> rfl
        · rfl
    · simp [hnone, heof]

@[simp] theorem atNotPattern_behind (hus : us ≠ []) :
    Grammar.atNotPattern (us ++ behind) = Grammar.atNotPattern us := by
  rw [Grammar.atNotPattern, Grammar.atNotPattern, frontText_append hus,
    holdsAt_behind h (fun k hk => ?_) (length_pos hus)]
  obtain rfl | rfl | rfl | rfl | rfl := Kind.limits_cases hk <;> rfl

/-- A type and, as the last of the words, a name: with a parenthesis behind them, they declare an
element of a deconstruction. -/
def declaresLast (us : List Token) : Bool :=
  match afterType us with
  | some [w] => !(us.dropLast.any (·.kind == .star)) && w.kind == .identifier
  | _ => false

/-- A parenthesis behind the words takes part in one decision alone. -/
theorem atTupleDeclaration_behind (us : List Token) : atTupleDeclaration (us ++ behind) =
    (atTupleDeclaration us || declaresLast us && front behind == .rParen) := by
  rw [atTupleDeclaration, atTupleDeclaration, declaresLast]
  have hscan := afterType_behind h us
  generalize afterType (us ++ behind) = there at hscan ⊢
  rcases hscan with rfl | ⟨hnone, rest, rfl, heof⟩
  · cases hrest : afterType us with
    | none => rfl
    | some rest =>
      have htake : (us ++ behind).take ((us ++ behind).length - (rest ++ behind).length) =
          us.take (us.length - rest.length) := by
        rw [List.length_append, List.length_append, Nat.add_sub_add_right]
        exact List.take_append_of_le_length (Nat.sub_le _ _)
      simp only [Option.map_some, htake]
      rcases rest with _ | ⟨w, _ | ⟨v, rest⟩⟩
      · simp only [List.nil_append, front_beq_of_limits h (k := .identifier) rfl,
          front_nil_beq (k := .identifier) rfl, Bool.false_and, Bool.and_false, Bool.or_false]
      · have hcomma : isAt 1 .comma ([w] ++ behind) = false := isAt_behind h rfl le_rfl
        have hclose : isAt 1 .rParen ([w] ++ behind) = (front behind == .rParen) :=
          isAt_length (by decide)
        have hnone {k : Kind} : isAt 1 k [w] = false := rfl
        simp only [hcomma, hclose, hnone, Bool.or_self, Bool.false_or, Bool.and_false,
          List.dropLast_eq_take, List.length_singleton]
        rfl
      · have hone {k : Kind} : isAt 1 k (w :: v :: rest ++ behind) = isAt 1 k (w :: v :: rest) :=
          isAt_behind_of_lt (by simp)
        simp only [hone, Bool.false_and, Bool.or_false]
        rfl
  · simp [hnone, heof]

end

/-! ## Decisions that an arrow or a colon takes part in -/

/-- Two ends of a text.  The same words are read in front of both: a word that bounds comes first
there, and no parenthesis that is open in front makes a lambda there. -/
structure Ends where
  here : List Token
  there : List Token
  here_ne : here ≠ []
  here_limits : Limits here
  there_limits : Limits there
  here_parens : ∀ depth, front (skipParens (depth + 1) here) ≠ .fatArrow
  there_parens : ∀ depth, front (skipParens (depth + 1) there) ≠ .fatArrow
  /-- Nothing that is open is closed in the first of the places, which ends the text or begins with
  the same word as the second. -/
  here_open : ∀ w ∈ here, w.kind.closes = false
  same : front here = .eof ∨ front here = front there

attribute [simp] Ends.here_limits Ends.there_limits

/-- No closing parenthesis stands in the first of the places. -/
theorem Ends.front_here_ne (e : Ends) : front e.here ≠ .rParen := by
  obtain ⟨w, ws, hhere⟩ := List.exists_cons_of_ne_nil e.here_ne
  intro hclose
  have hopen := e.here_open w (by rw [hhere]; exact List.mem_cons_self)
  rw [hhere, front_cons] at hclose
  rw [hclose] at hopen
  cases hopen

/-- Nowhere behind a parenthesis or a comma is a variable declared with the last word. -/
def Undeclared (us : List Token) : Prop :=
  ∀ vs ∈ us.tails, front vs = .lParen ∨ front vs = .comma → declaresLast vs.tail = false

instance (us : List Token) : Decidable (Undeclared us) :=
  inferInstanceAs (Decidable (∀ vs ∈ us.tails, _))

theorem Undeclared.suffix {vs : List Token} (h : Undeclared us) (hvs : vs <:+ us) :
    Undeclared vs := fun ws hws =>
  h ws ((List.mem_tails _ _).mpr (((List.mem_tails _ _).mp hws).trans hvs))

/-- What the two places begin with means the same to the words in front. -/
structure Ends.Calm (e : Ends) (us : List Token) : Prop where
  /-- An arrow stands behind the words in both places or in none, or it means nothing to the last of
  them. -/
  arrow : (front e.here = .fatArrow ↔ front e.there = .fatArrow) ∨
    ∀ w, us.getLast? = some w → w.kind.fitsArrow = true
  /-- If a closing parenthesis stands behind them, it makes no declaration of the words. -/
  closing : front e.there = .rParen → Undeclared us

/-- A bracket that closes something is ahead. -/
def Settled (us : List Token) : Prop := ∃ w ∈ us, w.kind.closes = true

@[simp] theorem Settled.ne_nil (h : Settled us) : us ≠ [] := by
  rintro rfl
  obtain ⟨w, hw, -⟩ := h
  cases hw

theorem settled_cons {u : Token} (hu : u.kind.closes = false) :
    Settled (u :: us) ↔ Settled us := by
  constructor
  · rintro ⟨w, hw, hcloses⟩
    rcases List.mem_cons.mp hw with rfl | hw
    · exact absurd (hu.symm.trans hcloses) (by decide)
    · exact ⟨w, hw, hcloses⟩
  · rintro ⟨w, hw, hcloses⟩
    exact ⟨w, List.mem_cons_of_mem u hw, hcloses⟩

/-- Behind a word that closes nothing, more words are ahead. -/
theorem Settled.one_lt_length (h : Settled us) (hk : (front us).closes = false) :
    1 < us.length := by
  cases us with
  | nil => exact absurd rfl h.ne_nil
  | cons u us =>
    have hpos := length_pos ((settled_cons hk).mp h).ne_nil
    rw [List.length_cons]
    omega

theorem Ends.Calm.tail {e : Ends} {u v : Token} (h : e.Calm (u :: v :: us)) :
    e.Calm (v :: us) where
  arrow := h.arrow.imp_right fun hlast w hw => hlast w (by rw [List.getLast?_cons_cons, hw])
  closing hclose := (h.closing hclose).suffix (List.suffix_cons _ _)

/-- Behind a parenthesis or a comma the same is declared in both places. -/
theorem Ends.Calm.atTupleDeclaration_there {e : Ends} (h : e.Calm us)
    (hus : front us = .lParen ∨ front us = .comma) :
    atTupleDeclaration (us.tail ++ e.there) = atTupleDeclaration (us.tail ++ e.here) := by
  rw [atTupleDeclaration_behind e.here_limits, atTupleDeclaration_behind e.there_limits,
    beq_eq_false_iff_ne.mpr e.front_here_ne]
  by_cases hclose : front e.there = .rParen
  · rw [h.closing hclose us ((List.mem_tails _ _).mpr List.suffix_rfl) hus]
    rfl
  · rw [beq_eq_false_iff_ne.mpr hclose]

/-- A word in front of a bracket that is ahead modifies no parameter. -/
theorem atScopedModifier_there {e : Ends} (h : Settled us) (hk : (front us).closes = false) :
    atScopedModifier (us ++ e.there) = atScopedModifier (us ++ e.here) := by
  have hlen := h.one_lt_length hk
  have hnext (behind : List Token) {p : Kind → Bool} :
      holdsAt 1 p (us ++ behind) = holdsAt 1 p us := by
    rw [holdsAt, kindAt_behind hlen, holdsAt]
  rw [atScopedModifier, atScopedModifier, frontText_append h.ne_nil, frontText_append h.ne_nil,
    hnext, hnext]
  rcases us with _ | ⟨u, _ | ⟨v, _ | ⟨w, us⟩⟩⟩
  · simp at hlen
  · simp at hlen
  · have hclose : v.kind.closes = true := by
      obtain ⟨w, hw, hcloses⟩ := (settled_cons hk).mp h
      rwa [← List.mem_singleton.mp hw]
    have hsecond : kindAt 1 [u, v] = some v.kind := rfl
    have hnone : holdsAt 1 (fun k => k == .identifier || k == .refKw || k.isPredefinedType)
        [u, v] = false := by
      rw [holdsAt, hsecond, Option.any_some]
      rcases Kind.closes_cases hclose with hk | hk | hk | hk | hk <;> rw [hk] <;> rfl
    simp only [hnone, Bool.and_false, Bool.false_and]
  · have hlen : 2 < (u :: v :: w :: us).length := by simp
    simp only [isAt_behind_of_lt hlen]

theorem Settled.isAt_colon (h : Settled us) (hk : (front us).closes = false) :
    isAt 1 k (us ++ there) = isAt 1 k (us ++ here) := by
  rw [isAt_behind_of_lt (h.one_lt_length hk), isAt_behind_of_lt (h.one_lt_length hk)]

@[simp] theorem atSwitchLabel_there {e : Ends} (h : Settled us) :
    atSwitchLabel (us ++ e.there) = atSwitchLabel (us ++ e.here) := by
  rw [atSwitchLabel, atSwitchLabel, front_append h.ne_nil, front_append h.ne_nil]
  split
  · rfl
  · rename_i hk
    exact h.isAt_colon (by rw [hk]; rfl)
  · rfl

/-- An arrow right behind a name is there in both places. -/
theorem Ends.Calm.isAt_arrow {e : Ends} (h : e.Calm us) (hk : front us = .identifier) :
    isAt 1 .fatArrow (us ++ e.there) = isAt 1 .fatArrow (us ++ e.here) := by
  match us with
  | [] => cases hk
  | [u] =>
    have hstands (behind : List Token) :
        isAt 1 .fatArrow ([u] ++ behind) = (front behind == .fatArrow) := isAt_length (by decide)
    rw [hstands, hstands]
    rcases h.arrow with harrow | hlast
    · simp only [Bool.beq_eq_decide_eq, harrow]
    · have hname := hlast u rfl
      rw [front_cons] at hk
      rw [hk] at hname
      cases hname
  | u :: v :: us =>
    rw [isAt_behind_of_lt (by simp), isAt_behind_of_lt (by simp)]

namespace Ends

variable (e : Ends)

@[simp] theorem atTypeArguments_there (hcalm : e.Calm us) :
    atTypeArguments (us ++ e.there) = atTypeArguments (us ++ e.here) := by
  rw [atTypeArguments, atTypeArguments, scanTypeArguments_behind e.here_limits,
    scanTypeArguments_behind e.there_limits]
  cases hscan : scanTypeArguments us with
  | none => rfl
  | some rest =>
    cases rest with
    | cons w rest => rfl
    | nil =>
      have hends : ∀ behind : List Token, Limits behind →
          closesTypeArguments (front behind) = !decide (front behind = .fatArrow) := by
        intro behind hlimits
        rcases hlimits.cases with hk | hk | hk | hk | hk <;> rw [hk] <;> rfl
      simp only [Option.map_some, List.nil_append, hends _ e.here_limits, hends _ e.there_limits]
      rcases hcalm.arrow with harrow | hlast
      · simp only [harrow]
      · cases us with
        | nil => cases hscan
        | cons u us =>
          rw [scanTypeArguments] at hscan
          split at hscan
          · obtain ⟨w, hw, hkind⟩ := closes_of_closeAngles hscan
            have hfits := hlast w (by rw [List.getLast?_cons, hw]; rfl)
            rcases hkind with hkind | hkind <;> rw [hkind] at hfits <;> cases hfits
          · cases hscan

@[simp] theorem atLambdaParen_there (hcalm : e.Calm us) :
    atLambdaParen (us ++ e.there) = atLambdaParen (us ++ e.here) := by
  cases us with
  | nil =>
    simp only [atLambdaParen, List.nil_append, front_beq_of_limits e.here_limits (k := .lParen) rfl,
      front_beq_of_limits e.there_limits (k := .lParen) rfl, Bool.false_and]
  | cons u us =>
    have hrest (behind : List Token) : (u :: us ++ behind).drop 1 = us ++ behind := rfl
    simp only [atLambdaParen, hrest]
    refine congrArg (u.kind == .lParen && ·) ?_
    rcases parensEnd 0 us with ⟨vs, hlast, hclosed⟩ | ⟨rest, hopen⟩
    · rw [hclosed, hclosed]
      cases vs with
      | cons v vs => rfl
      | nil =>
        rcases hcalm.arrow with harrow | hcalm
        · simp only [List.nil_append, Bool.beq_eq_decide_eq, harrow]
        · obtain ⟨w, hw, hkind⟩ := hlast rfl
          have hfits := hcalm w (by rw [List.getLast?_cons, hw]; rfl)
          rw [hkind] at hfits
          cases hfits
    · have hnone {behind : List Token} (hne : front (skipParens (rest + 1) behind) ≠ .fatArrow) :
          (front (skipParens (0 + 1) (us ++ behind)) == .fatArrow) = false := by
        rw [hopen, beq_eq_false_iff_ne]
        exact hne
      rw [hnone (e.there_parens rest), hnone (e.here_parens rest)]

@[simp] theorem atAsyncLambda_there (hcalm : e.Calm us) (hus : us ≠ []) :
    atAsyncLambda (us ++ e.there) = atAsyncLambda (us ++ e.here) := by
  match us with
  | [] => exact absurd rfl hus
  | [u] =>
    have hnone : ∀ behind : List Token, Limits behind →
        atAsyncLambda ([u] ++ behind) = false := by
      intro behind hlimits
      cases behind with
      | nil => rfl
      | cons w ws =>
        have hsecond : kindAt 1 ([u] ++ w :: ws) = some w.kind := rfl
        rw [atAsyncLambda, hsecond]
        rcases hlimits.cases with hk | hk | hk | hk | hk <;>
          rw [front_cons] at hk <;> rw [hk]
    rw [hnone _ e.here_limits, hnone _ e.there_limits]
  | u :: v :: us =>
    have hsecond (behind : List Token) : kindAt 1 (u :: v :: us ++ behind) = some v.kind := rfl
    have hdrop (behind : List Token) : (u :: v :: us ++ behind).drop 1 = v :: us ++ behind := rfl
    simp only [atAsyncLambda, hsecond, hdrop]
    split
    · rename_i hk
      exact hcalm.tail.isAt_arrow (Option.some.inj hk)
    · rfl
    · exact e.atLambdaParen_there hcalm.tail
    · rfl

end Ends

/-! ## Local declarations -/

@[simp] theorem atLocalModifier_there {e : Ends} (h : Settled us) :
    atLocalModifier (us ++ e.there) = atLocalModifier (us ++ e.here) := by
  rw [atLocalModifier, atLocalModifier, front_append h.ne_nil, front_append h.ne_nil]
  split
  · rfl
  · rfl
  · rfl
  · rfl
  · rfl
  · rfl
  · rfl
  · rename_i hk
    have hlen := h.one_lt_length (by rw [hk]; rfl)
    rw [frontText_append h.ne_nil, frontText_append h.ne_nil, holdsAt, holdsAt,
      kindAt_behind hlen, kindAt_behind hlen]
    rcases us with _ | ⟨u, _ | ⟨v, us⟩⟩
    · exact absurd rfl h.ne_nil
    · exact absurd hlen (by simp)
    · by_cases hv : v.kind.closes = true
      · have hnone : (kindAt 1 (u :: v :: us)).any (fun k => k == .identifier || k == .voidKw ||
            k == .refKw || k.isPredefinedType) = false := by
          have hsecond : kindAt 1 (u :: v :: us) = some v.kind := rfl
          rw [hsecond, Option.any_some]
          rcases Kind.closes_cases hv with hk | hk | hk | hk | hk <;> rw [hk] <;> rfl
        rw [hnone, Bool.and_false, Bool.false_and, Bool.false_and]
      · have hlen : 2 < (u :: v :: us).length := by
          have htail := (settled_cons (by rw [show u.kind = .identifier from hk]; rfl)).mp h
          have hpos := htail.one_lt_length (by simpa using hv)
          rw [List.length_cons]
          omega
        simp only [isAt_behind_of_lt hlen]
  · rfl

theorem Ends.skipLocalModifiers_there (e : Ends) (h : Settled us) : ∃ vs, Settled vs ∧
    skipLocalModifiers (us ++ e.here) = vs ++ e.here ∧
    skipLocalModifiers (us ++ e.there) = vs ++ e.there := by
  induction us with
  | nil => exact absurd rfl h.ne_nil
  | cons u us ih =>
    have hsame : atLocalModifier (u :: (us ++ e.there)) = atLocalModifier (u :: (us ++ e.here)) :=
      atLocalModifier_there h
    simp only [List.cons_append, skipLocalModifiers, hsame]
    split
    · rename_i hmodifier
      refine ih ((settled_cons ?_).mp h)
      rw [atLocalModifier, front_cons] at hmodifier
      split at hmodifier <;> first | (rename_i hk; rw [hk]; rfl) | cases hmodifier
    · exact ⟨u :: us, h, rfl, rfl⟩

@[simp] theorem Ends.localStart_there (e : Ends) (hus : Settled us) :
    localStart (us ++ e.there) = localStart (us ++ e.here) := by
  obtain ⟨vs, hvs, hhere, hthere⟩ := e.skipLocalModifiers_there hus
  rw [localStart, localStart, hhere, hthere]
  simp only [front_append hvs.ne_nil, frontText_append hvs.ne_nil]
  have hscan := afterType_behind e.here_limits vs
  have hscan' := afterType_behind e.there_limits vs
  generalize afterType (vs ++ e.here) = here at hscan ⊢
  generalize afterType (vs ++ e.there) = there at hscan' ⊢
  rcases hscan with rfl | ⟨hnone, rest, rfl, heof⟩ <;>
    rcases hscan' with rfl | ⟨hnone', rest', rfl, heof'⟩
  case inl.inl =>
    cases afterType vs with
    | none => rfl
    | some rest =>
      rcases rest with _ | ⟨w, _ | ⟨x, rest⟩⟩
      · simp only [Option.map_some, List.nil_append,
          front_beq_of_limits e.here_limits (k := .identifier) rfl,
          front_beq_of_limits e.there_limits (k := .identifier) rfl, Bool.false_eq_true, if_false]
      · have hnext (behind : List Token) : front (([w] ++ behind).drop 1) = front behind := rfl
        simp only [Option.map_some, hnext]
        rcases e.here_limits.cases with hj | hj | hj | hj | hj <;> rw [hj] <;>
          rcases e.there_limits.cases with hk | hk | hk | hk | hk <;> rw [hk] <;> rfl
      · rfl
  all_goals simp [*]

end Words

end LivePatch
