import LivePatch.Proofs.Operations.Lookahead

/-!
# What stands behind the words

An expression stands at the end of a text, or a word stands behind it that belongs to what is
around.  The scans that look ahead may run up to that place, but not over it: neither a colon, a
closing brace nor an arrow is part of a type, of type arguments or of a designation.  So each scan
over the words `us` with `behind` behind them comes to what it comes to over `us` alone, with
`behind` behind it.  Only the scan for a closing parenthesis runs on, if there is none in `us`.

A closing parenthesis may also be the last word of a text.  Types and designations that begin in
front of it may end with it, but then they end with the text (`ScansTo`).
-/

namespace LivePatch

/-- Words of this kind stand behind expressions; no scan over types runs over them. -/
def Kind.bounds : Kind → Bool
  | .eof | .colon | .rBrace | .fatArrow => true
  | _ => false

theorem Kind.bounds_cases {k : Kind} (h : k.bounds = true) :
    k = .eof ∨ k = .colon ∨ k = .rBrace ∨ k = .fatArrow := by
  unfold bounds at h
  split at h <;> simp_all

/-- Words of this kind end what is in front of them, to which they do not belong: the words that
bound, and a closing parenthesis. -/
def Kind.limits (k : Kind) : Bool := k.bounds || k == .rParen

theorem Kind.limits_cases {k : Kind} (h : k.limits = true) :
    k = .eof ∨ k = .colon ∨ k = .rBrace ∨ k = .fatArrow ∨ k = .rParen := by
  rcases Bool.or_eq_true_iff.mp h with hbounds | hclose
  · rcases bounds_cases hbounds with hk | hk | hk | hk <;> simp [hk]
  · simp [beq_iff_eq.mp hclose]

namespace Words

variable {us behind : List Token} {k : Kind} {n depth : Nat}

/-- The words `behind` may stand behind an expression: a word that bounds comes first, or they are
a closing parenthesis at the end of a text. -/
structure Limits (behind : List Token) : Prop where
  limits : (front behind).limits = true
  last : front behind = .rParen → front (behind.drop 1) = .eof

theorem limits_of_bounds (h : (front behind).bounds = true) : Limits behind where
  limits := Bool.or_eq_true_iff.mpr (.inl h)
  last hclose := by
    rw [hclose] at h
    cases h

theorem limits_nil : Limits [] := limits_of_bounds rfl

theorem Limits.cases (h : Limits behind) : front behind = .eof ∨ front behind = .colon ∨
    front behind = .rBrace ∨ front behind = .fatArrow ∨ front behind = .rParen :=
  Kind.limits_cases h.limits

/-- What is no word that limits is only found among the words themselves. -/
theorem front_append_eq_iff (h : Limits behind) (hk : k.limits = false) :
    front (us ++ behind) = k ↔ front us = k := by
  cases us with
  | cons u us => rfl
  | nil =>
    refine iff_of_false ?_ ?_
    · rintro rfl
      exact absurd (hk.symm.trans h.limits) (by decide)
    · rintro rfl
      cases hk

theorem front_append (hus : us ≠ []) : front (us ++ behind) = front us := by
  cases us with
  | nil => exact absurd rfl hus
  | cons u us => rfl

theorem frontText_append (hus : us ≠ []) : frontText (us ++ behind) = frontText us := by
  cases us with
  | nil => exact absurd rfl hus
  | cons u us => rfl

/-! ## Types -/

/-- Angle brackets are not closed at the end of a text. -/
theorem closeAngles_eof (h : front us = .eof) (depth : Nat) : closeAngles depth us = none := by
  cases us with
  | nil => rfl
  | cons u us =>
    rw [front_cons] at h
    rw [closeAngles, h]
    rfl

theorem closeAngles_behind (h : Limits behind) (depth : Nat) (us : List Token) :
    closeAngles depth (us ++ behind) = (closeAngles depth us).map (· ++ behind) := by
  induction us generalizing depth with
  | nil =>
    cases behind with
    | nil => rfl
    | cons w ws =>
      have hcases := h.cases
      have hlast := h.last
      show closeAngles depth (w :: ws) = none
      rw [closeAngles]
      rw [front_cons] at hcases hlast
      rcases hcases with hk | hk | hk | hk | hk <;> rw [hk]
      -- A parenthesis may stand between angle brackets, but the end of the text is behind it.
      case inr.inr.inr.inr => exact closeAngles_eof (hlast hk) depth
      all_goals rfl
  | cons u us ih =>
    rw [List.cons_append, closeAngles, closeAngles]
    split <;> simp only [ih] <;> split <;> (try split) <;> rfl

theorem scanTypeArguments_behind (h : Limits behind) (us : List Token) :
    scanTypeArguments (us ++ behind) = (scanTypeArguments us).map (· ++ behind) := by
  cases us with
  | nil =>
    cases behind with
    | nil => rfl
    | cons w ws =>
      have hless : w.kind ≠ .less := fun he => by
        have hw : w.kind.limits = true := h.limits
        rw [he] at hw
        cases hw
      simp [scanTypeArguments, hless]
  | cons u us =>
    rw [List.cons_append, scanTypeArguments, scanTypeArguments]
    split
    · exact closeAngles_behind h 1 us
    · rfl

theorem afterTypeArguments_behind (h : Limits behind) (us : List Token) :
    afterTypeArguments (us ++ behind) = (afterTypeArguments us).map (· ++ behind) := by
  have hfront : front (us ++ behind) = .less ↔ front us = .less := front_append_eq_iff h rfl
  simp only [afterTypeArguments, beq_iff_eq, hfront]
  split
  · exact scanTypeArguments_behind h us
  · rfl

theorem skipNameTail_behind (h : Limits behind) (us : List Token) :
    skipNameTail (us ++ behind) = skipNameTail us ++ behind := by
  induction hn : us.length using Nat.strongRecOn generalizing us with
  | _ n ih =>
    subst hn
    rw [skipNameTail_eq, skipNameTail_eq us, afterTypeArguments_behind h]
    cases hrest : afterTypeArguments us with
    | none => rfl
    | some rest =>
      have hlen := length_afterTypeArguments hrest
      simp only [Option.map_some]
      match rest with
      | [] =>
        have hseparator : isNameSeparator (front behind) = false := by
          rcases h.cases with hk | hk | hk | hk | hk <;> rw [hk] <;> rfl
        rw [List.nil_append, hseparator]
        rfl
      | [w] =>
        have hname : front behind ≠ .identifier := fun he => by
          have hlimits := h.limits
          rw [he] at hlimits
          cases hlimits
        simp [hname]
      | v :: w :: rest =>
        simp only [List.cons_append, front, List.drop_succ_cons, List.drop_zero]
        split
        · exact ih rest.length (by simp only [List.length_cons] at hlen; omega) rest rfl
        · rfl

theorem skipTypeSuffixes_behind (h : Limits behind) (us : List Token) :
    skipTypeSuffixes (us ++ behind) = skipTypeSuffixes us ++ behind := by
  induction hn : us.length using Nat.strongRecOn generalizing us with
  | _ n ih =>
    subst hn
    cases us with
    | nil =>
      have hnil : skipTypeSuffixes [] = [] := by rw [skipTypeSuffixes]
      rw [hnil]
      show skipTypeSuffixes behind = behind
      refine TypePhrase.skipTypeSuffixes_eq ?_
      rcases h.cases with hk | hk | hk | hk | hk <;> rw [hk] <;> rfl
    | cons u us =>
      have hcommas : (us ++ behind).dropWhile (·.kind == .comma) =
          us.dropWhile (·.kind == .comma) ++ behind := by
        rw [List.dropWhile_append]
        split
        · rename_i hnil
          rw [List.isEmpty_iff.mp hnil, List.nil_append]
          cases behind with
          | nil => rfl
          | cons w ws =>
            have hcomma : (w.kind == .comma) = false := by
              have hcases := h.cases
              rw [front_cons] at hcases
              rcases hcases with hk | hk | hk | hk | hk <;> rw [hk] <;> rfl
            rw [List.dropWhile_cons_of_neg (by simp [hcomma])]
        · rfl
      rw [List.cons_append, skipTypeSuffixes_cons_eq, skipTypeSuffixes_cons_eq u us]
      simp only [hcommas, front_append_eq_iff h (k := .rBracket) rfl]
      split
      · exact ih us.length (by simp) us rfl
      split
      · rename_i hclose
        cases hrest : us.dropWhile (·.kind == .comma) with
        | nil =>
          rw [hrest] at hclose
          cases hclose.2
        | cons w ws =>
          exact ih ws.length (length_behind_commas hrest |>.trans (by simp)) ws rfl
      · rfl

theorem skipIdentifier_behind (h : Limits behind) (us : List Token) :
    skipIdentifier (us ++ behind) = skipIdentifier us ++ behind := by
  cases us with
  | nil =>
    cases behind with
    | nil => rfl
    | cons w ws =>
      have hname : w.kind ≠ .identifier := fun he => by
        have hw : w.kind.limits = true := h.limits
        rw [he] at hw
        cases hw
      simp [skipIdentifier, hname]
  | cons u us =>
    rw [List.cons_append, skipIdentifier, skipIdentifier]
    split <;> rfl

/-- No type begins with a word that limits. -/
theorem afterType_of_limits (h : Limits behind) : afterType behind = none := by
  cases behind with
  | nil => rw [afterType, scanType, Option.map_none]
  | cons w ws =>
    have hcases := h.cases
    rw [front_cons] at hcases
    rw [afterType, scanType]
    rcases hcases with hk | hk | hk | hk | hk <;> rw [hk] <;> rfl

@[simp] theorem afterType_nil : afterType [] = none := afterType_of_limits limits_nil

/-- With `behind` behind the words a scan comes to `there`, and without it to `alone`: both come to
the same place, or only the first comes to an end, which is the end of the text. -/
def ScansTo (behind : List Token) (there alone : Option (List Token)) : Prop :=
  there = alone.map (· ++ behind) ∨ alone = none ∧ ∃ rest, there = some rest ∧ front rest = .eof

variable {there alone : Option (List Token)}

/-- What is behind the scan may be passed, if nothing is passed at the end of a text. -/
theorem ScansTo.map (h : ScansTo behind there alone) {f : List Token → List Token}
    (hf : ∀ rest, f (rest ++ behind) = f rest ++ behind)
    (heof : ∀ rest, front rest = .eof → front (f rest) = .eof) :
    ScansTo behind (there.map f) (alone.map f) := by
  rcases h with rfl | ⟨rfl, rest, rfl, hrest⟩
  · refine .inl ?_
    cases alone with
    | none => rfl
    | some rest => exact congrArg some (hf rest)
  · exact .inr ⟨rfl, f rest, rfl, heof rest hrest⟩

/-- What is behind the scan may be scanned, if no scan runs from the end of a text. -/
theorem ScansTo.bind (h : ScansTo behind there alone) {f g : List Token → Option (List Token)}
    (hf : ∀ rest, alone = some rest → ScansTo behind (f (rest ++ behind)) (g rest))
    (heof : ∀ rest, front rest = .eof → f rest = none) :
    ScansTo behind (there.bind f) (alone.bind g) := by
  rcases h with rfl | ⟨rfl, rest, rfl, hrest⟩
  · cases alone with
    | none => exact .inl rfl
    | some rest => exact hf rest rfl
  · exact .inl (heof rest hrest)

theorem skipIdentifier_eof (h : front us = .eof) : skipIdentifier us = us := by
  cases us with
  | nil => rfl
  | cons u us =>
    rw [front_cons] at h
    simp [skipIdentifier, h]

/-- The scans of a type and of the elements of a tuple type, which call each other. -/
theorem afterType_behind_and_elements (h : Limits behind) (us : List Token) :
    ScansTo behind (afterType (us ++ behind)) (afterType us) ∧
      ∀ count, ScansTo behind (afterElements count (us ++ behind))
        (afterElements count us) := by
  induction hn : us.length using Nat.strongRecOn generalizing us with
  | _ n ih =>
    subst hn
    have htype : ScansTo behind (afterType (us ++ behind)) (afterType us) := by
      cases us with
      | nil =>
        rw [List.nil_append, afterType_of_limits h, afterType_nil]
        exact .inl rfl
      | cons u us =>
        obtain ⟨-, helements⟩ := ih us.length (by simp) us rfl
        rw [List.cons_append, afterType_cons, afterType_cons, skipNameTail_behind h,
          skipTypeSuffixes_behind h, skipTypeSuffixes_behind h]
        split
        · exact .inl rfl
        split
        · exact .inl rfl
        split
        · refine (helements 0).map (skipTypeSuffixes_behind h) fun rest hrest => ?_
          rw [TypePhrase.skipTypeSuffixes_eq (by rw [hrest]; rfl)]
          exact hrest
        · exact .inl rfl
    refine ⟨htype, fun count => ?_⟩
    rw [afterElements_eq, afterElements_eq count us]
    refine htype.bind (fun rest hrest => ?_) fun rest hrest => ?_
    · have hlen : (skipIdentifier rest).length < us.length := by
        obtain ⟨scanned, hscan, rfl⟩ := Option.map_eq_some_iff.mp hrest
        exact (length_skipIdentifier _).trans_lt scanned.2
      rw [skipIdentifier_behind h]
      cases hname : skipIdentifier rest with
      | nil =>
        cases behind with
        | nil => exact .inl rfl
        | cons w ws =>
          have hcases := h.cases
          have hlast := h.last
          rw [front_cons] at hcases hlast
          simp only [List.nil_append]
          rcases hcases with hk | hk | hk | hk | hk <;> rw [hk]
          -- The parenthesis may close the tuple type, and then the text ends.
          case inr.inr.inr.inr =>
            split
            · rename_i hcomma
              cases hcomma
            split
            · exact .inr ⟨rfl, ws, rfl, hlast hk⟩
            · exact .inl rfl
          all_goals exact .inl rfl
      | cons w rest =>
        rw [hname, List.length_cons] at hlen
        obtain ⟨-, helements⟩ := ih rest.length (by omega) rest rfl
        simp only [List.cons_append]
        split
        · exact helements (count + 1)
        split <;> exact .inl rfl
    · rw [skipIdentifier_eof hrest]
      cases rest with
      | nil => rfl
      | cons w rest =>
        rw [front_cons] at hrest
        simp [hrest]

theorem afterType_behind (h : Limits behind) (us : List Token) :
    ScansTo behind (afterType (us ++ behind)) (afterType us) :=
  (afterType_behind_and_elements h us).1

/-! ## Designations -/

theorem skipDesignation_behind (h : Limits behind) (us : List Token) :
    (∀ depth, ScansTo behind (skipDesignation depth (us ++ behind)) (skipDesignation depth us)) ∧
      ∀ depth, ScansTo behind (skipDesignation.afterDesignated depth (us ++ behind))
        (skipDesignation.afterDesignated depth us) := by
  induction us with
  | nil =>
    cases behind with
    | nil => exact ⟨fun _ => .inl rfl, fun _ => .inl rfl⟩
    | cons w ws =>
      have hcases := h.cases
      have hlast := h.last
      rw [front_cons] at hcases hlast
      simp only [List.nil_append, skipDesignation, skipDesignation.afterDesignated]
      rcases hcases with hk | hk | hk | hk | hk <;> rw [hk]
      -- The parenthesis may close the designation, and then the text ends.
      case inr.inr.inr.inr =>
        refine ⟨fun _ => .inl rfl, fun depth => ?_⟩
        dsimp only
        split
        · exact .inr ⟨rfl, ws, rfl, hlast hk⟩
        · refine .inl ?_
          cases ws with
          | nil => rfl
          | cons v vs =>
            have hv : v.kind = .eof := hlast hk
            rw [skipDesignation.afterDesignated, hv]
            rfl
      all_goals exact ⟨fun _ => .inl rfl, fun _ => .inl rfl⟩
  | cons u us ih =>
    obtain ⟨hnames, hafter⟩ := ih
    simp only [List.cons_append, skipDesignation, skipDesignation.afterDesignated]
    constructor
    · intro depth
      split
      · exact hafter depth
      · exact hnames (depth + 1)
      · exact .inl rfl
    · intro depth
      split
      · exact hnames depth
      · split
        · exact .inl rfl
        · exact hafter (depth - 1)
      · exact .inl rfl

/-! ## Parentheses -/

/-- With one parenthesis more than `depth` open in front of the words `us`, the last of them is
closed among the words, or the search for it runs on behind them. -/
def ParensEnd (depth : Nat) (us : List Token) : Prop :=
  (∃ vs, (vs = [] → ∃ w, us.getLast? = some w ∧ w.kind = .rParen) ∧
      ∀ behind, skipParens (depth + 1) (us ++ behind) = vs ++ behind) ∨
    ∃ rest, ∀ behind, skipParens (depth + 1) (us ++ behind) = skipParens (rest + 1) behind

theorem ParensEnd.cons {u : Token} {depth' : Nat} (h : ParensEnd depth' us)
    (hstep : ∀ ws, skipParens (depth + 1) (u :: ws) = skipParens (depth' + 1) ws) :
    ParensEnd depth (u :: us) := by
  rcases h with ⟨vs, hlast, hclosed⟩ | ⟨rest, hopen⟩
  · refine .inl ⟨vs, fun hvs => ?_, fun behind => (hstep _).trans (hclosed behind)⟩
    obtain ⟨w, hw, hclose⟩ := hlast hvs
    exact ⟨w, by rw [List.getLast?_cons, hw]; rfl, hclose⟩
  · exact .inr ⟨rest, fun behind => (hstep _).trans (hopen behind)⟩

theorem parensEnd (depth : Nat) (us : List Token) : ParensEnd depth us := by
  induction us generalizing depth with
  | nil => exact .inr ⟨depth, fun _ => rfl⟩
  | cons u us ih =>
    by_cases hopen : u.kind = .lParen
    · exact (ih (depth + 1)).cons fun ws => by rw [skipParens]; simp [hopen]
    by_cases hclose : u.kind = .rParen
    · cases depth with
      | zero =>
        refine .inl ⟨us, fun hnil => ⟨u, by rw [hnil]; rfl, hclose⟩, fun behind => ?_⟩
        rw [List.cons_append, skipParens]
        simp [hclose]
      | succ depth => exact (ih depth).cons fun ws => by rw [skipParens]; simp [hclose]
    by_cases hend : u.kind = .eof
    · refine .inl ⟨u :: us, fun h => absurd h (List.cons_ne_nil _ _), fun behind => ?_⟩
      rw [List.cons_append, skipParens]
      simp [hend]
    · exact (ih depth).cons fun ws => Term.skipParens_cons ⟨hopen, hclose, hend⟩

/-- Angle brackets that are closed by the last word end in one that closes. -/
theorem closes_of_closeAngles (h : closeAngles depth us = some []) :
    ∃ w, us.getLast? = some w ∧ (w.kind = .greater ∨ w.kind = .rightShift) := by
  induction us generalizing depth with
  | nil => cases h
  | cons u us ih =>
    have hpass : ∀ {depth'}, closeAngles depth' us = some [] →
        ∃ w, (u :: us).getLast? = some w ∧ (w.kind = .greater ∨ w.kind = .rightShift) := by
      intro depth' h
      obtain ⟨w, hw, hkind⟩ := ih h
      exact ⟨w, by rw [List.getLast?_cons, hw]; rfl, hkind⟩
    rw [closeAngles] at h
    split at h
    · exact hpass h
    · rename_i hkind
      split at h
      · exact ⟨u, by rw [Option.some.inj h]; rfl, .inl hkind⟩
      · exact hpass h
    · rename_i hkind
      split at h
      · cases h
      split at h
      · exact ⟨u, by rw [Option.some.inj h]; rfl, .inr hkind⟩
      · exact hpass h
    · split at h
      · exact hpass h
      · cases h

end Words

end LivePatch
