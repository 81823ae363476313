import LivePatch.Proofs.Following.Decisions

/-!
# Two readings of the same words

The words `us` are read in front of two ends.  As long as the two readings come to the same
decisions, they do the same, so it is enough to look at the decisions (`Grammar.Follows`).  There
is one thing to allow for.  In front of the end of a text the loops over arguments, elements and the
like stop, and in front of another word they may go on; but then a closing bracket is missed in
front of the end of the text, and the first reading cannot come to an answer.  So the first reading
is followed to its answer, and the second only where it keeps in step.
-/

namespace LivePatch

open Token (closingAngle)
open Words (Ends Limits Settled front)
open LivePatch.Action (Recital divideShift)

/-! ## What is left of words -/

namespace Words

variable {ws ws' ws'' us vs behind : List Token}

/-- The words `ws'` are what is left of `ws`, perhaps with a shift divided at their front. -/
def Later (ws ws' : List Token) : Prop :=
  ws' <:+ ws ∨ ∃ w rest, ws' = closingAngle :: rest ∧ w.kind = .rightShift ∧ w :: rest <:+ ws

theorem Later.refl (ws : List Token) : Later ws ws := .inl List.suffix_rfl

theorem Later.trans (h : Later ws ws') (h' : Later ws' ws'') : Later ws ws'' := by
  rcases h with h | ⟨w, rest, rfl, hw, h⟩
  · rcases h' with h' | ⟨v, more, rfl, hv, h'⟩
    · exact .inl (h'.trans h)
    · exact .inr ⟨v, more, rfl, hv, h'.trans h⟩
  · have hrest : ∀ {vs}, vs <:+ rest → vs <:+ ws :=
      fun hvs => (hvs.trans (List.suffix_cons w rest)).trans h
    rcases h' with h' | ⟨v, more, rfl, hv, h'⟩
    · rcases List.suffix_cons_iff.mp h' with rfl | h'
      · exact .inr ⟨w, rest, rfl, hw, h⟩
      · exact .inl (hrest h')
    · rcases List.suffix_cons_iff.mp h' with heq | h'
      · obtain ⟨rfl, rfl⟩ := List.cons.inj heq
        cases hv
      · exact .inr ⟨v, more, rfl, hv, hrest h'⟩

theorem later_drop (ws : List Token) : Later ws (ws.drop 1) := .inl (List.drop_suffix 1 ws)

theorem divideShift_eq_self (h : front ws ≠ .rightShift) : divideShift ws = ws := by
  unfold divideShift
  split
  · exact absurd rfl h
  · rfl

theorem later_divideShift (ws : List Token) : Later ws ((divideShift ws).drop 1) := by
  unfold divideShift
  split
  · exact .inr ⟨_, _, rfl, rfl, List.suffix_rfl⟩
  · exact later_drop _

theorem Later.length_le (h : Later ws ws') : ws'.length ≤ ws.length := by
  rcases h with h | ⟨w, rest, rfl, -, h⟩
  · exact h.length_le
  · exact h.length_le

/-- What is left of words in front of an end is left of these words, if the end is still there. -/
theorem Later.exists_append (h : Later (us ++ behind) ws') (hlimits : Limits behind)
    (hlen : behind.length ≤ ws'.length) : ∃ vs, ws' = vs ++ behind ∧ Later us vs := by
  have hend {ws : List Token} (h : ws <:+ us ++ behind) (hlen : behind.length ≤ ws.length) :
      ∃ vs, ws = vs ++ behind ∧ vs <:+ us := by
    obtain ⟨vs, rfl⟩ := List.suffix_of_suffix_length_le (List.suffix_append us behind) h hlen
    exact ⟨vs, rfl, (List.suffix_append_inj_of_length_eq rfl).mp h |>.1⟩
  rcases h with h | ⟨w, rest, rfl, hw, h⟩
  · obtain ⟨vs, rfl, hvs⟩ := hend h hlen
    exact ⟨vs, rfl, .inl hvs⟩
  · obtain ⟨vs, hvs, hsuffix⟩ := hend h (by simpa using hlen)
    cases vs with
    | nil =>
      obtain rfl : w :: rest = behind := hvs
      have hfront := hlimits.limits
      rw [front_cons, hw] at hfront
      cases hfront
    | cons v vs =>
      obtain ⟨rfl, rfl⟩ := List.cons.inj hvs
      exact ⟨closingAngle :: vs, rfl, .inr ⟨w, vs, rfl, hw, hsuffix⟩⟩

/-- A bracket that is still ahead was ahead before. -/
theorem Later.settled (h : Later us vs) (hvs : Settled vs) : Settled us := by
  obtain ⟨v, hv, hcloses⟩ := hvs
  rcases h with h | ⟨w, rest, rfl, hw, h⟩
  · exact ⟨v, h.subset hv, hcloses⟩
  · exact ⟨w, h.subset List.mem_cons_self, by rw [hw]; rfl⟩

/-- Behind the words that are left stands the same, so the last word stays the last one. -/
theorem Later.calm {e : Ends} (h : Later us vs) (hus : e.Calm us) : e.Calm vs where
  arrow := by
    have hlast {ws : List Token} {v : Token} (h : ws <:+ us) (hv : ws.getLast? = some v) :
        us.getLast? = some v := by
      obtain ⟨front, rfl⟩ := h
      rw [List.getLast?_append, hv]
      rfl
    refine hus.arrow.imp_right fun hfits v hv => ?_
    rcases h with h | ⟨w, rest, rfl, hw, h⟩
    · exact hfits v (hlast h hv)
    · cases rest with
      | nil =>
        have hw' := hfits w (hlast h rfl)
        rw [hw] at hw'
        cases hw'
      | cons x rest =>
        refine hfits v (hlast h ?_)
        rw [List.getLast?_cons_cons] at hv ⊢
        exact hv
  closing hclose := by
    rcases h with h | ⟨w, rest, rfl, hw, h⟩
    · exact (hus.closing hclose).suffix h
    · -- Half a shift is no word that a declaration stands behind.
      have hrest := (hus.closing hclose).suffix ((List.suffix_cons w rest).trans h)
      intro vs hvs
      rcases List.suffix_cons_iff.mp ((List.mem_tails _ _).mp hvs) with rfl | hvs
      · rintro (hk | hk) <;> cases hk
      · exact hrest vs ((List.mem_tails _ _).mpr hvs)

/-- What is taken is one of the words in front, if the end is still there. -/
theorem Ends.eq_of_drop (e : Ends) (h : (us ++ e.here).drop 1 = vs ++ e.here) :
    us ≠ [] ∧ vs = us.drop 1 := by
  cases us with
  | nil =>
    have hlen := congrArg List.length h
    have hpos := List.length_pos_iff.mpr e.here_ne
    simp only [List.nil_append, List.length_drop, List.length_append] at hlen
    omega
  | cons u us =>
    have hrest : us ++ e.here = vs ++ e.here := h
    exact ⟨List.cons_ne_nil _ _, (List.append_cancel_right hrest).symm⟩

/-- A shift is divided among the words only. -/
theorem divideShift_append (h : Limits behind) (us : List Token) :
    divideShift (us ++ behind) = divideShift us ++ behind := by
  cases us with
  | nil =>
    show divideShift behind = behind
    refine divideShift_eq_self fun hk => ?_
    have hlimits := h.limits
    rw [hk] at hlimits
    cases hlimits
  | cons u us =>
    obtain ⟨k, text⟩ := u
    by_cases hk : k = .rightShift
    · subst hk
      rfl
    · have hfront : front (⟨k, text⟩ :: us) ≠ .rightShift := hk
      rw [divideShift_eq_self hfront]
      exact divideShift_eq_self hk

end Words

/-! ## The two readings -/

/-- Is the production one of those that expressions are made of, down to the statements of a
lambda? -/
def Rule.inExpression : Rule → Bool
  | .namespaceMembers _ | .namespaceDeclaration | .typeDeclaration | .skipTo _ | .declaredType
  | .baseTypes | .enumMembers | .typeMembers | .member | .dottedSegments | .accessors
  | .modifierWords => false
  | _ => true

/-- May an expression end where the production ends?  The others end in front of something that
belongs to the same expression. -/
def Rule.mayEnd : Rule → Bool
  | .expression _ | .operators _ | .type _ | .typeSuffixes _ _ | .typeNameTail | .arrayRanks
  | .pattern | .patternOperators | .primaryPattern | .initializer | .block | .designation => true
  | _ => false

namespace Grammar

open Words (Later)

variable {α β : Type} {e : Ends} {whole : Bool} {us : List Token}

/-- The first reading by itself, with no closing bracket ahead: if it comes to an answer, then `L`
holds of it. -/
def Loses : {α : Type} → Step α → (α → Prop) → Prop
  | _, .pure a, L => L a
  | _, .bind first next, L => Loses first fun v => Loses (next v) L
  | _, .look decide _, L => ∀ ws, ¬ Settled ws → L (decide ws)
  | _, .report _, _ => True
  | _, .frame body, L => Loses body L
  | _, .idle body, L => Loses body fun _ => ∀ b, L b
  | _, .call _, L => ∀ b, L b
  | _, .skipTrivia, L | _, .take, L | _, .takeHalf, L => L ()
  | _, .opening _ _, L | _, .enclose _, L => L ()

/-- Two readings are in step in front of the words `us`, and the first does `a`, the second `a'`.
If the first comes to an answer, then they are in step again, and `Q` holds of the answers and of
the words ahead; or else no closing bracket is ahead, and `L` holds of the first answer.  If the
words need not be read `whole`, then it is enough to follow them as long as a closing bracket is
ahead. -/
def Follows (e : Ends) (whole : Bool) : {α : Type} → Step α → Step α →
    (α → α → List Token → Prop) → (α → Prop) → List Token → Prop
  | _, .pure a, a', Q, _, us => ∃ b, a' = .pure b ∧ Q a b us
  | _, .bind first next, a', Q, L, us => ∃ first' next', a' = .bind first' next' ∧
      Follows e whole first first' (fun v v' us => Follows e whole (next v) (next' v') Q L us)
        (fun v => Loses (next v) L) us
  | _, .look decide _, a', Q, _, us => ∃ decide' scanned', a' = .look decide' scanned' ∧
      Q (decide (us ++ e.here)) (decide' (us ++ e.there)) us
  | _, .skipTrivia, a', Q, _, us => a' = .skipTrivia ∧ Q () () us
  | _, .take, a', Q, _, us => a' = .take ∧ (us ≠ [] → e.Calm (us.drop 1) →
      (whole = false → Settled (us.drop 1)) → Q () () (us.drop 1))
  | _, .takeHalf, a', Q, _, us => a' = .takeHalf ∧ (us ≠ [] → e.Calm ((divideShift us).drop 1) →
      (whole = false → Settled ((divideShift us).drop 1)) → Q () () ((divideShift us).drop 1))
  | _, .report _, _, _, _, _ => True
  | _, .opening out k, a', Q, _, us => a' = .opening out k ∧ Q () () us
  | _, .enclose k, a', Q, _, us => a' = .enclose k ∧ Q () () us
  | _, .frame body, a', Q, L, us => ∃ body', a' = .frame body' ∧ Follows e whole body body' Q L us
  | _, .idle body, a', Q, L, us => ∃ body', a' = .idle body' ∧ Follows e whole body body'
      (fun _ _ us' => Q (us'.length == us.length) (us'.length == us.length) us')
      (fun _ => ∀ b, L b) us
  | _, .call r, a', Q, L, _ => a' = .call r ∧ r.inExpression = true ∧ ∀ b us', e.Calm us' →
      (whole = false → Settled us') → (Settled us' ∨ r.mayEnd = true → Q b b us') ∧
        (¬ Settled us' → r.mayEnd = false → L b)

/-- What calls come to in front of the two ends. -/
structure Answers (e : Ends) (answer answer' : Rule → List Token → List Tree → Recital Bool) :
    Prop where
  later : ∀ {r ws ts b ws' ts'}, answer r ws ts = some (b, ws', ts') → Later ws ws'
  same : ∀ {r us ts b us' ts'}, r.inExpression = true → e.Calm us →
    answer r (us ++ e.here) ts = some (b, us' ++ e.here, ts') →
    Settled us' ∨ r.mayEnd = true →
    answer' r (us ++ e.there) ts = some (b, us' ++ e.there, ts')

variable {answer answer' : Rule → List Token → List Tree → Recital Bool}
  {ws ws' : List Token} {ts ts' : List Tree}

/-- What a recital leaves is left of its words. -/
theorem later_of_recite (hlater : ∀ {r ws ts b ws' ts'},
      answer r ws ts = some (b, ws', ts') → Later ws ws')
    (a : Step α) {v : α} (h : a.recite answer ws ts = some (v, ws', ts')) : Later ws ws' := by
  induction a generalizing ws ts ws' ts' with
  | bind first next ihf ihn =>
    rw [Action.recite, Option.bind_eq_some_iff] at h
    obtain ⟨⟨u, ws₁, ts₁⟩, hfirst, hnext⟩ := h
    exact (ihf hfirst).trans (ihn u hnext)
  | frame body ih | idle body ih =>
    rw [Action.recite, Option.map_eq_some_iff] at h
    obtain ⟨⟨u, ws₁, ts₁⟩, hbody, heq⟩ := h
    cases heq
    exact ih hbody
  | call r => exact hlater h
  | take =>
    rw [Action.recite] at h
    cases h
    exact Words.later_drop ws
  | takeHalf =>
    rw [Action.recite] at h
    cases h
    exact Words.later_divideShift ws
  | report =>
    rw [Action.recite] at h
    cases h
  | _ =>
    rw [Action.recite] at h
    cases h
    exact .refl ws

/-- Without a closing bracket there is none later on. -/
theorem not_settled_of_later (h : Later ws ws') (hws : ¬ Settled ws) : ¬ Settled ws' :=
  fun hws' => hws (h.settled hws')

/-- A reading that is not in step stays so. -/
theorem Loses.of_recite (hlater : ∀ {r ws ts b ws' ts'},
      answer r ws ts = some (b, ws', ts') → Later ws ws') {a : Step α} {L : α → Prop} {v : α}
    (h : a.recite answer ws ts = some (v, ws', ts')) (hws : ¬ Settled ws) (hloses : Loses a L) :
    L v := by
  induction a generalizing ws ts ws' ts' with
  | bind first next ihf ihn =>
    rw [Action.recite, Option.bind_eq_some_iff] at h
    obtain ⟨⟨u, ws₁, ts₁⟩, hfirst, hnext⟩ := h
    have hws₁ := not_settled_of_later (later_of_recite hlater first hfirst) hws
    exact ihn u hnext hws₁ (ihf hfirst hws hloses)
  | frame body ih =>
    rw [Action.recite, Option.map_eq_some_iff] at h
    obtain ⟨⟨u, ws₁, ts₁⟩, hbody, heq⟩ := h
    cases heq
    exact ih hbody hws hloses
  | idle body ih =>
    rw [Action.recite, Option.map_eq_some_iff] at h
    obtain ⟨⟨u, ws₁, ts₁⟩, hbody, heq⟩ := h
    cases heq
    exact ih hbody hws hloses _
  | look =>
    rw [Action.recite] at h
    cases h
    exact hloses ws hws
  | call r => exact hloses v
  | report =>
    rw [Action.recite] at h
    cases h
  | _ =>
    rw [Action.recite] at h
    cases h
    exact hloses

/-- What stays behind makes no difference to whether words were used up. -/
theorem length_append_beq (us us' behind : List Token) :
    ((us' ++ behind).length == (us ++ behind).length) = (us'.length == us.length) := by
  rw [List.length_append, List.length_append, Bool.beq_eq_decide_eq, Bool.beq_eq_decide_eq,
    decide_eq_decide, Nat.add_right_cancel_iff]

/-- **Two readings in step** come to the same, or the first of them has no closing bracket ahead. -/
theorem Follows.recite_eq (hanswers : Answers e answer answer') {a a' : Step α}
    {Q : α → α → List Token → Prop} {L : α → Prop} {v : α} {us us' : List Token}
    (hfollows : Follows e whole a a' Q L us)
    (h : a.recite answer (us ++ e.here) ts = some (v, us' ++ e.here, ts'))
    (hcalm : e.Calm us) (hsettled : whole = false → Settled us') :
    (∃ v', a'.recite answer' (us ++ e.there) ts = some (v', us' ++ e.there, ts') ∧ Q v v' us') ∨
      ¬ Settled us' ∧ L v := by
  induction a generalizing us ts us' ts' with
  | bind first next ihf ihn =>
    obtain ⟨first', next', rfl, hfollows⟩ := hfollows
    rw [Action.recite, Option.bind_eq_some_iff] at h
    obtain ⟨⟨u, ws₁, ts₁⟩, hfirst, hnext⟩ := h
    have hlater₁ := later_of_recite hanswers.later first hfirst
    have hlater₂ := later_of_recite hanswers.later (next u) hnext
    have hlen : e.here.length ≤ ws₁.length := by
      have hle : (us' ++ e.here).length ≤ ws₁.length := hlater₂.length_le
      rw [List.length_append] at hle
      omega
    obtain ⟨us₁, rfl, hown⟩ := hlater₁.exists_append e.here_limits hlen
    obtain ⟨us₂, heq, hown'⟩ := hlater₂.exists_append e.here_limits (by simp)
    obtain rfl := List.append_cancel_right heq
    rcases ihf hfollows hfirst hcalm (fun hw => hown'.settled (hsettled hw)) with
      ⟨u', hfirst', hfollows'⟩ | ⟨hlost, hloses⟩
    · rcases ihn u hfollows' hnext (hown.calm hcalm) hsettled with ⟨v', hnext', hQ⟩ | hL
      · refine .inl ⟨v', ?_, hQ⟩
        rw [Action.recite, hfirst', Option.bind_some]
        exact hnext'
      · exact .inr hL
    · have hws₁ : ¬ Settled (us₁ ++ e.here) := by
        rintro ⟨w, hw, hcloses⟩
        rcases List.mem_append.mp hw with hw | hw
        · exact hlost ⟨w, hw, hcloses⟩
        · exact absurd ((e.here_open w hw).symm.trans hcloses) (by decide)
      exact .inr ⟨not_settled_of_later hown' hlost, hloses.of_recite hanswers.later hnext hws₁⟩
  | frame body ih =>
    obtain ⟨body', rfl, hfollows⟩ := hfollows
    rw [Action.recite, Option.map_eq_some_iff] at h
    obtain ⟨⟨u, ws₁, ts₁⟩, hbody, heq⟩ := h
    obtain ⟨rfl, hrest⟩ := Prod.mk.inj heq
    obtain ⟨rfl, rfl⟩ := Prod.mk.inj hrest
    rcases ih hfollows hbody hcalm hsettled with ⟨v', hbody', hQ⟩ | hL
    · exact .inl ⟨v', by rw [Action.recite, hbody']; rfl, hQ⟩
    · exact .inr hL
  | idle body ih =>
    obtain ⟨body', rfl, hfollows⟩ := hfollows
    rw [Action.recite, Option.map_eq_some_iff] at h
    obtain ⟨⟨u, ws₁, ts₁⟩, hbody, heq⟩ := h
    obtain ⟨rfl, hrest⟩ := Prod.mk.inj heq
    obtain ⟨rfl, rfl⟩ := Prod.mk.inj hrest
    simp only [length_append_beq]
    rcases ih hfollows hbody hcalm hsettled with ⟨v', hbody', hQ⟩ | ⟨hlost, hL⟩
    · refine .inl ⟨_, ?_, hQ⟩
      rw [Action.recite, hbody', Option.map_some, length_append_beq]
    · exact .inr ⟨hlost, hL _⟩
  | call r =>
    obtain ⟨rfl, hr, hfollows⟩ := hfollows
    rw [Action.recite] at h ⊢
    obtain ⟨us₁, heq, hown⟩ := (hanswers.later h).exists_append e.here_limits (by simp)
    obtain rfl := List.append_cancel_right heq
    obtain ⟨hin, hout⟩ := hfollows v us' (hown.calm hcalm) hsettled
    by_cases hgoes : Settled us' ∨ r.mayEnd = true
    · exact .inl ⟨v, hanswers.same hr hcalm h hgoes, hin hgoes⟩
    · obtain ⟨hlost, hinner⟩ := not_or.mp hgoes
      exact .inr ⟨hlost, hout hlost (by simpa using hinner)⟩
  | take =>
    obtain ⟨rfl, hfollows⟩ := hfollows
    rw [Action.recite] at h ⊢
    obtain ⟨-, hrest⟩ := Prod.mk.inj (Option.some.inj h)
    obtain ⟨hws, rfl⟩ := Prod.mk.inj hrest
    obtain ⟨hus, hleft⟩ := e.eq_of_drop hws
    obtain ⟨u, us, rfl⟩ := List.exists_cons_of_ne_nil hus
    subst hleft
    exact .inl ⟨(), rfl, hfollows hus ((Words.later_drop _).calm hcalm) hsettled⟩
  | takeHalf =>
    obtain ⟨rfl, hfollows⟩ := hfollows
    rw [Action.recite] at h ⊢
    obtain ⟨-, hrest⟩ := Prod.mk.inj (Option.some.inj h)
    obtain ⟨hws, rfl⟩ := Prod.mk.inj hrest
    rw [Words.divideShift_append e.here_limits] at hws ⊢
    rw [Words.divideShift_append e.there_limits]
    obtain ⟨hus, hleft⟩ := e.eq_of_drop hws
    obtain ⟨u, vs, hdivided⟩ := List.exists_cons_of_ne_nil hus
    have hne : us ≠ [] := by
      rintro rfl
      cases hdivided
    subst hleft
    have hcalm' := (Words.later_divideShift us).calm hcalm
    have hQ := hfollows hne
    rw [hdivided] at hcalm' hsettled hQ ⊢
    exact .inl ⟨(), rfl, hQ hcalm' hsettled⟩
  | report =>
    rw [Action.recite] at h
    cases h
  | look =>
    obtain ⟨decide', scanned', rfl, hQ⟩ := hfollows
    rw [Action.recite] at h ⊢
    obtain ⟨rfl, hrest⟩ := Prod.mk.inj (Option.some.inj h)
    obtain ⟨hus, rfl⟩ := Prod.mk.inj hrest
    obtain rfl := List.append_cancel_right hus
    exact .inl ⟨_, rfl, hQ⟩
  | pure u =>
    obtain ⟨u', rfl, hQ⟩ := hfollows
    rw [Action.recite] at h ⊢
    obtain ⟨rfl, hrest⟩ := Prod.mk.inj (Option.some.inj h)
    obtain ⟨hus, rfl⟩ := Prod.mk.inj hrest
    obtain rfl := List.append_cancel_right hus
    exact .inl ⟨_, rfl, hQ⟩
  | skipTrivia | opening | enclose =>
    obtain ⟨rfl, hQ⟩ := hfollows
    rw [Action.recite] at h ⊢
    obtain ⟨-, hrest⟩ := Prod.mk.inj (Option.some.inj h)
    obtain ⟨hus, rfl⟩ := Prod.mk.inj hrest
    obtain rfl := List.append_cancel_right hus
    exact .inl ⟨_, rfl, hQ⟩

/-! ## Small steps -/

section

variable {Q : α → α → List Token → Prop} {L : α → Prop} {U : Unit → Unit → List Token → Prop}
  {M : Unit → Prop} {B : Bool → Bool → List Token → Prop} {N : Bool → Prop} {k : Kind}

@[simp ↓] theorem loses_bind (first : Step β) (next : β → Step α) :
    Loses (first >>= next) L ↔ Loses first fun v => Loses (next v) L := Iff.rfl

@[simp ↓] theorem loses_pure (a : α) : Loses (pure a : Step α) L ↔ L a := Iff.rfl

@[simp ↓] theorem loses_skipTrivia : Loses Action.skipTrivia M ↔ M () := Iff.rfl

@[simp ↓] theorem loses_take : Loses Action.take M ↔ M () := Iff.rfl

@[simp ↓] theorem loses_begins : Loses (begins k) M ↔ M () := Iff.rfl

@[simp ↓] theorem loses_enclose : Loses (Action.enclose k) M ↔ M () := Iff.rfl

@[simp ↓] theorem loses_missing (what : String) : Loses (missing what) M := trivial

@[simp ↓] theorem loses_frame (body : Step α) :
    Loses (Action.frame body) L ↔ Loses body L := Iff.rfl

@[simp ↓] theorem loses_node (k : Kind) (body : Step Unit) :
    Loses (node k body) M ↔ Loses body fun _ => M () := Iff.rfl

@[simp ↓] theorem loses_call (r : Rule) : Loses (Action.call r) N ↔ ∀ b, N b := Iff.rfl

@[simp ↓] theorem loses_read (r : Rule) : Loses (read r) M ↔ M () := by
  simp [read]

@[simp ↓] theorem loses_ite (p : Prop) [Decidable p] (a b : Step α) :
    Loses (if p then a else b) L ↔ if p then Loses a L else Loses b L := by
  split <;> rfl

/-- A closing bracket is missed. -/
@[simp ↓] theorem loses_expect (hk : k.closes = true) (what : String) :
    Loses (expect k what) M := by
  intro ws hws
  have hne : (front ws == k) = false := by
    rw [beq_eq_false_iff_ne]
    rintro rfl
    cases ws with
    | nil => cases hk
    | cons w ws => exact hws ⟨w, List.mem_cons_self, hk⟩
  simp [hne]

@[simp ↓] theorem follows_pure (a b : α) :
    Follows e whole (pure a) (pure b) Q L us ↔ Q a b us := by
  refine ⟨?_, fun h => ⟨b, rfl, h⟩⟩
  rintro ⟨b', hb, h⟩
  obtain rfl : b = b' := by injection hb
  exact h

@[simp ↓] theorem follows_bind (first first' : Step β) (next next' : β → Step α) :
    Follows e whole (first >>= next) (first' >>= next') Q L us ↔
      Follows e whole first first' (fun v v' us => Follows e whole (next v) (next' v') Q L us)
        (fun v => Loses (next v) L) us := by
  refine ⟨?_, fun h => ⟨first', next', rfl, h⟩⟩
  rintro ⟨first₁, next₁, heq, h⟩
  obtain ⟨rfl, rfl⟩ : first' = first₁ ∧ next' = next₁ := by
    injection heq with _ _ hfirst hnext
    exact ⟨hfirst, hnext⟩
  exact h

@[simp ↓] theorem follows_skipTrivia :
    Follows e whole Action.skipTrivia Action.skipTrivia U M us ↔ U () () us := and_iff_right rfl

@[simp ↓] theorem follows_take : Follows e whole Action.take Action.take U M us ↔
    (us ≠ [] → e.Calm (us.drop 1) → (whole = false → Settled (us.drop 1)) →
      U () () (us.drop 1)) := and_iff_right rfl

@[simp ↓] theorem follows_takeHalf : Follows e whole Action.takeHalf Action.takeHalf U M us ↔
    (us ≠ [] → e.Calm ((divideShift us).drop 1) →
      (whole = false → Settled ((divideShift us).drop 1)) →
        U () () ((divideShift us).drop 1)) := and_iff_right rfl

@[simp ↓] theorem follows_begins : Follows e whole (begins k) (begins k) U M us ↔ U () () us :=
  and_iff_right rfl

@[simp ↓] theorem follows_enclose :
    Follows e whole (Action.enclose k) (Action.enclose k) U M us ↔ U () () us := and_iff_right rfl

@[simp ↓] theorem follows_missing (what : String) (a : Step Unit) :
    Follows e whole (missing what) a U M us := trivial

@[simp ↓] theorem follows_frame (body body' : Step α) :
    Follows e whole (Action.frame body) (Action.frame body') Q L us ↔
      Follows e whole body body' Q L us := by
  refine ⟨?_, fun h => ⟨body', rfl, h⟩⟩
  rintro ⟨body₁, heq, h⟩
  obtain rfl : body' = body₁ := by injection heq
  exact h

@[simp ↓] theorem follows_idle (body body' : Step Unit) :
    Follows e whole (Action.idle body) (Action.idle body') B N us ↔
      Follows e whole body body'
        (fun _ _ us' => B (us'.length == us.length) (us'.length == us.length) us')
        (fun _ => ∀ b, N b) us := by
  refine ⟨?_, fun h => ⟨body', rfl, h⟩⟩
  rintro ⟨body₁, heq, h⟩
  obtain rfl : body' = body₁ := by injection heq
  exact h

@[simp ↓] theorem follows_node (k : Kind) (body body' : Step Unit) :
    Follows e whole (node k body) (node k body') U M us ↔
      Follows e whole body body' (fun _ _ us => U () () us) (fun _ => M ()) us := by
  simp only [node, ↓follows_frame, ↓follows_bind, ↓follows_begins, ↓follows_enclose, ↓loses_enclose]

@[simp ↓] theorem follows_call (r : Rule) : Follows e whole (Action.call r) (Action.call r) B N us ↔
    r.inExpression = true ∧ ∀ b us', e.Calm us' → (whole = false → Settled us') →
      (Settled us' ∨ r.mayEnd = true → B b b us') ∧ (¬ Settled us' → r.mayEnd = false → N b) :=
  and_iff_right rfl

@[simp ↓] theorem follows_read (r : Rule) : Follows e whole (read r) (read r) U M us ↔
    r.inExpression = true ∧ ∀ us', e.Calm us' → (whole = false → Settled us') →
      (Settled us' ∨ r.mayEnd = true → U () () us') ∧
        (¬ Settled us' → r.mayEnd = false → M ()) := by
  simp only [read, ↓follows_bind, ↓follows_call, ↓follows_pure, ↓loses_pure, forall_const]

@[simp ↓] theorem follows_ite (p : Prop) [Decidable p] (a b a' b' : Step α) :
    Follows e whole (if p then a else b) (if p then a' else b') Q L us ↔
      if p then Follows e whole a a' Q L us else Follows e whole b b' Q L us := by
  split <;> rfl

@[simp ↓] theorem follows_ahead (d d' : List Token → α) [Scanned d] [Scanned d'] :
    Follows e whole (ahead d) (ahead d') Q L us ↔ Q (d (us ++ e.here)) (d' (us ++ e.there)) us := by
  refine ⟨?_, fun h => ⟨d', inferInstance, rfl, h⟩⟩
  rintro ⟨d₁, scanned, heq, h⟩
  obtain rfl : d' = d₁ := by injection heq
  exact h

@[simp ↓] theorem follows_current {K : Kind → Kind → List Token → Prop} {M : Kind → Prop} :
    Follows e whole current current K M us ↔
      K (front (us ++ e.here)) (front (us ++ e.there)) us := by
  simp only [current, ↓follows_bind, ↓follows_skipTrivia, ↓follows_ahead]

/-- A word that does not limit is the next in both places or in none. -/
@[simp ↓] theorem follows_sees (hk : k.limits = false) :
    Follows e whole (sees k) (sees k) B N us ↔ B (front us == k) (front us == k) us := by
  have hsame {behind : List Token} (h : Limits behind) :
      (front (us ++ behind) == k) = (front us == k) := by
    rw [Bool.beq_eq_decide_eq, Bool.beq_eq_decide_eq, decide_eq_decide]
    exact Words.front_append_eq_iff h hk
  simp only [sees, ↓follows_bind, ↓follows_current, ↓follows_pure, hsame e.here_limits,
    hsame e.there_limits]

@[simp ↓] theorem follows_eat (hk : k.limits = false) : Follows e whole (eat k) (eat k) B N us ↔
    if front us = k then (us ≠ [] → e.Calm (us.drop 1) → (whole = false → Settled (us.drop 1)) →
      B true true (us.drop 1)) else B false false us := by
  simp only [eat, ↓follows_bind, ↓follows_sees hk, beq_iff_eq, ↓follows_ite, ↓follows_take,
    ↓follows_pure]

@[simp ↓] theorem follows_takeIf (hk : k.limits = false) :
    Follows e whole (takeIf k) (takeIf k) U M us ↔
      if front us = k then (us ≠ [] → e.Calm (us.drop 1) → (whole = false → Settled (us.drop 1)) →
        U () () (us.drop 1)) else U () () us := by
  simp only [takeIf, ↓follows_bind, ↓follows_sees hk, beq_iff_eq, ↓follows_ite, ↓follows_take,
    ↓follows_pure]

/-- A word that is expected is one of the words in front, since the end of a text is not. -/
@[simp ↓] theorem follows_expect (hk : k ≠ .eof) (what : String) :
    Follows e whole (expect k what) (expect k what) U M us ↔
      (front us = k → us ≠ [] → e.Calm (us.drop 1) → (whole = false → Settled (us.drop 1)) →
        U () () (us.drop 1)) := by
  simp only [expect, sees, ↓follows_bind, ↓follows_current, ↓follows_pure, beq_iff_eq]
  cases us with
  | cons u us =>
    simp only [List.cons_append, Words.front_cons]
    by_cases hu : u.kind = k <;> simp [hu]
  | nil =>
    refine iff_of_true ?_ fun h => absurd h.symm hk
    have hmissing : front e.here ≠ k → Follows e whole
        (if front ([] ++ e.here) = k then Action.take else missing what)
        (if front ([] ++ e.there) = k then Action.take else missing what) U M [] := by
      intro hne
      rw [List.nil_append, if_neg hne]
      trivial
    rcases e.same with heof | hsame
    · exact hmissing (by rw [heof]; exact hk.symm)
    · by_cases hhere : front e.here = k
      · rw [List.nil_append, List.nil_append, if_pos hhere, if_pos (hsame ▸ hhere)]
        exact follows_take.mpr fun h => absurd rfl h
      · exact hmissing hhere

end

end Grammar

end LivePatch
