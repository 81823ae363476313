import LivePatch.Proofs.Cutting.Tokens
import LivePatch.Proofs.Grafts

/-!
# Grafts that fit

The tokens put in place of a word `Fits` if the lexer cannot tell them from the word on either
side: what stands in front is cut as it was, and where the word is cut, the new tokens are cut.  If
all grafts of a list fit, then the new list is cut like the old one (`Grafts.lexes`).

The tree of a text may hold two angle brackets in place of a shift.  They do not touch a graft, so
the grafts can be made before the shifts are divided (`Grafts.undivide`).
-/

namespace LivePatch

open Lexer (Similar JoinsNumber isHead)

namespace Token

variable {R : List Token → Token → List Token → Prop} {before before' ts us vs xs : List Token}

/-- The tokens `new` fit in place of the word `w` behind `before`. -/
structure Fits (before : List Token) (w : Token) (new : List Token) : Prop where
  head : ∃ c cs, w.text.toList = c :: cs ∧ isHead c = true
  head_new : ∃ c cs, charsOf new = c :: cs ∧ isHead c = true
  /-- What stands in front is cut as before. -/
  front : ∀ p, before.getLast? = some p → ∀ lineStart rest rest',
    p.Cut lineStart (w.text.toList ++ rest) → p.Cut lineStart (charsOf new ++ rest')
  /-- Where the word is cut, the new tokens are. -/
  lexes : ∀ lineStart rest, w.Cut lineStart rest → Lexes lineStart new rest
  lineStart : ∀ lineStart, lineStartOf lineStart new = lineStartOf lineStart [w]

/-- In front of a token that is kept, all is as before. -/
theorem Cut.keep {p w : Token} {lineStart : Bool} {rest rest' : List Char} (hne : w.text ≠ "")
    (h : p.Cut lineStart (w.text.toList ++ rest)) (hs : Similar 3 rest rest') :
    p.Cut lineStart (w.text.toList ++ rest') := by
  obtain ⟨c, cs, htext⟩ := List.exists_cons_of_ne_nil (mt String.toList_eq_nil_iff.mp hne)
  have hall := hs.append_left w.text.toList
  rw [htext] at h hall ⊢
  refine h.of_similar hall (fun hk => ?_) fun _ => ?_
  · obtain ⟨a, as, -, hcuts⟩ := h
    exact hcuts.next_of_isWord hk
  · exact .cons c (hs.of_succ.append_left cs)

/-- **Grafts that fit leave the cutting alone.**  The texts before and behind stay similar, so that
what stands in front of both is cut in the same way. -/
theorem Grafts.lexes (hR : ∀ before w new, R before w new → Fits before w new)
    (h : Grafts R before ts us) {lineStart : Bool} (hts : Lexes lineStart ts []) :
    Lexes lineStart us [] ∧ Similar 3 (charsOf ts) (charsOf us) ∧
      ∀ p, before.getLast? = some p → ∀ lineStart', p.Cut lineStart' (charsOf ts) →
        p.Cut lineStart' (charsOf us) := by
  induction h generalizing lineStart with
  | nil => exact ⟨trivial, .nil 3, fun _ _ _ hp => hp⟩
  | @keep before ts us w _ ih =>
    obtain ⟨hcut, hts⟩ := hts
    rw [List.append_nil] at hcut
    obtain ⟨hus, hs, hlast⟩ := ih hts
    have hw := hlast w (by simp) _ hcut
    refine ⟨⟨by rwa [List.append_nil], hus⟩, ?_, ?_⟩
    · rw [charsOf_cons, charsOf_cons]
      exact hs.append_left _
    · intro p _ _ hp
      rw [charsOf_cons] at hp ⊢
      exact hp.keep hcut.ne_empty hs
  | @graft before new ts us w hgraft _ ih =>
    obtain ⟨hcut, hts⟩ := hts
    rw [List.append_nil] at hcut
    obtain ⟨hus, hs, hlast⟩ := ih hts
    have hfits := hR _ _ _ hgraft
    have hw := hlast w (by simp) _ hcut
    refine ⟨?_, ?_, ?_⟩
    · refine lexes_append.mpr ⟨?_, ?_⟩
      · rw [List.append_nil]
        exact hfits.lexes _ _ hw
      · rw [hfits.lineStart]
        exact hus
    · obtain ⟨c, cs, htext, hc⟩ := hfits.head
      obtain ⟨d, es, hnew, hd⟩ := hfits.head_new
      rw [charsOf_cons, charsOf_append, htext, hnew]
      exact .heads hc hd
    · intro p hp _ hpcut
      rw [charsOf_cons] at hpcut
      rw [charsOf_append]
      exact hfits.front p hp _ _ _ hpcut

/-- Grafts can be made before the shifts are divided, in front of them and inside of them. -/
theorem Grafts.undivide {S : List Token → Token → List Token → Prop}
    (hR : ∀ before w new, R before w new → w ≠ closingAngle)
    (hS : ∀ before' before w new, Divides before' before → R before w new →
      ∃ new', Divides new' new ∧ S before' w new')
    (hd : Divides ts vs) (hbefore : Divides before' before) (h : Grafts R before vs xs) :
    ∃ us, Grafts S before' ts us ∧ Divides us xs := by
  induction hd generalizing before before' xs with
  | nil =>
    cases h
    exact ⟨[], .nil _, .nil⟩
  | keep t _ ih =>
    cases h with
    | keep _ h =>
      obtain ⟨us, hus, hdiv⟩ := ih (hbefore.append (.refl [t])) h
      exact ⟨t :: us, .keep t hus, .keep t hdiv⟩
    | graft hgraft h =>
      obtain ⟨us, hus, hdiv⟩ := ih (hbefore.append (.refl [t])) h
      obtain ⟨new', hnew, hgraft⟩ := hS _ _ _ _ hbefore hgraft
      exact ⟨new' ++ us, .graft hgraft hus, hnew.append hdiv⟩
  | divide _ ih =>
    -- Neither half of a shift is a word.
    cases h with
    | graft hgraft _ => exact absurd rfl (hR _ _ _ hgraft)
    | keep _ h =>
      cases h with
      | graft hgraft _ => exact absurd rfl (hR _ _ _ hgraft)
      | keep _ h =>
        rw [List.append_assoc] at h
        obtain ⟨us, hus, hdiv⟩ := ih (hbefore.append (.divide .nil)) h
        exact ⟨shift :: us, .keep shift hus, .divide hdiv⟩

/-- The last token of undivided tokens is the last one, or it is a shift. -/
theorem Divides.getLast? {p : Token} (h : Divides before' before) (hp : before'.getLast? = some p)
    (hne : p.kind ≠ .rightShift) : before.getLast? = some p := by
  obtain ⟨front, rfl⟩ := List.getLast?_eq_some_iff.mp hp
  obtain ⟨vs, rfl, -⟩ := h.concat hne
  exact List.getLast?_concat

end Token

end LivePatch
