import LivePatch.Proofs.Cutting.Sealed
import LivePatch.Proofs.OutputTokens

/-!
# Behind a graft

The leaves of a tree are cut one after the other, but for the halves of shifts.  If tokens are put
in place of a word, then what is cut in front of them may change: a word or number right in front
may fuse with a name, and halves of a shift join.  In any case the lexer cuts behind the new tokens,
and all that it has cut so far does not depend on what follows (`Leafy.sealed`).
-/

namespace LivePatch

open Lexer (Sealed EndsWord Bars IsRun isAngle isHead Similar piecesFrom)

namespace Token

variable {lineStart : Bool} {t w : Token} {ts us new : List Token} {rest : List Char}

/-! ## Leaves -/

/-- Does the token consist of angle brackets? -/
def isAngles (t : Token) : Bool :=
  t.kind != .whitespace && !t.text.toList.isEmpty && t.text.toList.all isAngle

/-- The lexer cuts one of the tokens after the other, angle brackets apart, with `rest` behind the
last of them. -/
def Leafy : Bool → List Token → List Char → Prop
  | _, [], _ => True
  | lineStart, t :: ts, rest =>
    (t.isAngles = true ∨ t.Cut lineStart (charsOf ts ++ rest)) ∧
      Leafy (lineStartOf lineStart [t]) ts rest

theorem leafy_append : Leafy lineStart (ts ++ us) rest ↔
    Leafy lineStart ts (charsOf us ++ rest) ∧ Leafy (lineStartOf lineStart ts) us rest := by
  induction ts generalizing lineStart with
  | nil => simp [Leafy, lineStartOf]
  | cons t ts ih =>
    rw [List.cons_append, Leafy, Leafy, ih, charsOf_append, List.append_assoc, and_assoc,
      ← lineStartOf_append, List.singleton_append]

/-- Tokens that the lexer cuts, with shifts divided. -/
theorem Lexes.leafy (h : Lexes lineStart ts rest) (hd : Divides ts us) :
    Leafy lineStart us rest := by
  induction hd generalizing lineStart with
  | nil => trivial
  | @keep t ts us hd ih =>
    have hchars : charsOf us = charsOf ts := by rw [charsOf, charsOf, hd.textOf_eq]
    exact ⟨.inr (hchars ▸ h.1), ih h.2⟩
  | divide _ ih => exact ⟨.inl rfl, .inl rfl, ih h.2⟩

/-- Where a line starts matters to trivia only. -/
theorem Leafy.of_lineStart (h : Leafy lineStart (t :: ts) rest) (ht : t.isTrivia = false)
    {lineStart' : Bool} : Leafy lineStart' (t :: ts) rest := by
  have hkind {k : Kind} (hk : k.isTrivia = true) : t.kind ≠ k := by
    rintro rfl
    rw [isTrivia, hk] at ht
    cases ht
  have hstart (b : Bool) : lineStartOf b [t] = false := lineStartOf_concat [] (hkind rfl)
  refine ⟨h.1.imp_right fun hcut => hcut.of_lineStart (hkind rfl), ?_⟩
  rw [hstart, ← hstart lineStart]
  exact h.2

/-- What the lexer cuts begins with an angle bracket only if it consists of them. -/
theorem Cut.head_of_isAngles (h : t.Cut lineStart rest) (ht : t.isAngles = false) :
    ∃ c cs, t.text.toList = c :: cs ∧ isAngle c = false := by
  obtain ⟨c, cs, htext, hcuts⟩ := h
  refine ⟨c, cs, htext, Bool.eq_false_iff.mpr fun hc => ?_⟩
  have hread := hcuts.read_eq
  rw [Lexer.read_angle hc] at hread
  have hall : ∀ m ∈ Kind.marks, m.1.toList.head?.any isAngle = true →
      m.2 ≠ .whitespace ∧ m.1.toList.all isAngle = true := by decide
  have hmark := @Lexer.markReading_ok c (cs ++ rest) t.kind (by rw [hread])
  rw [hread, List.take_left, ← htext, String.ofList_toList] at hmark
  obtain ⟨hkind, hangles⟩ := hall _ hmark (by rw [htext]; exact hc)
  have hangle : t.isAngles = true := by
    rw [isAngles, bne_iff_ne.mpr hkind, hangles, htext]
    rfl
  rw [hangle] at ht
  cases ht

/-! ## Words and their grafts -/

/-- The tokens may stand in place of the word `w`: they are those of a member of that name, or `w`
is `this`, and they begin with a parenthesis. -/
inductive Replaces (w : Token) : List Token → Prop
  | member {t : Token} {ps : List Token} (type : t.IsCutWord)
      (parameters : ∀ p ∈ ps, p.IsCutWord) (name : w.IsCutWord) :
      Replaces w (member (qualifier t ps) w)
  | cast {ts : List Token} (self : w = this) (portable : Portable ts)
      (opens : ∃ cs, charsOf ts = '(' :: cs) : Replaces w ts

namespace Replaces

theorem isCutWord (h : Replaces w new) : w.IsCutWord := by
  cases h with
  | member _ _ name => exact name
  | cast self _ _ => exact self ▸ isCutWord_this

theorem portable (h : Replaces w new) : Portable new := by
  cases h with
  | member type parameters name => exact portable_member type parameters name
  | cast _ portable _ => exact portable

end Replaces

/-! ## Fronts -/

theorem sealed_of_lexes {q : List Char → Prop} (h : ∀ tail, q tail → Lexes lineStart ts tail)
    (hstart : lineStartOf lineStart ts = false) : Sealed q lineStart (charsOf ts) := by
  refine ⟨ts.map fun t => ⟨.ok t.kind, t.text⟩, fun tail htail => ?_⟩
  rw [piecesFrom_append (h tail htail), hstart]

theorem Portable.sealed (h : Portable ts) (lineStart : Bool) :
    Sealed EndsWord lineStart (charsOf ts) :=
  sealed_of_lexes (h.lexes lineStart) (h.lineStart lineStart)

/-- A token that is cut in front of a sealed text is sealed together with it. -/
theorem Cut.sealed {front : List Char}
    (hcut : ∀ tail, EndsWord tail → t.Cut lineStart (front ++ tail))
    (h : Sealed EndsWord (lineStartOf lineStart [t]) front) :
    Sealed EndsWord lineStart (t.text.toList ++ front) := by
  obtain ⟨ls, hls⟩ := h
  refine ⟨⟨.ok t.kind, t.text⟩ :: ls, fun tail htail => ?_⟩
  have hone := piecesFrom_append (lexes_singleton.mpr (hcut tail htail))
  rw [charsOf_cons, charsOf_nil, List.append_nil] at hone
  rw [List.append_assoc, hone, hls tail htail]
  rfl

/-- The characters of a word or number. -/
theorem Cut.isRun (h : t.Cut lineStart rest) (hk : t.kind.fuses = true) : IsRun t.text.toList := by
  obtain ⟨c, cs, htext, hcuts⟩ := h
  rw [htext]
  rcases Bool.or_eq_true_iff.mp hk with hword | hnumber
  · exact (hcuts.isRun_of_isWord hword).1
  · exact Lexer.isRun_of_isPlain (hcuts.isPlain_of_isNumber hnumber)

/-- What stands behind the first name of a member. -/
theorem exists_bars {ps : List Token} (hps : ∀ p ∈ ps, p.IsCutWord) (hw : w.IsCutWord) :
    ∃ d c cs us, Bars d c ∧ member (qualifier t ps) w = t :: us ∧ charsOf us = d :: c :: cs := by
  cases ps with
  | nil =>
    obtain ⟨c, cs, htext, hc⟩ := hw.exists_head
    exact ⟨'.', c, cs, [dot, w], ⟨.inl rfl, hc⟩, rfl, by simp [dot, htext]⟩
  | cons p ps =>
    obtain ⟨c, cs, hchars, hc⟩ := exists_head_separated (hps p List.mem_cons_self) ps
      (charsOf [closingAngle, dot, w])
    refine ⟨'<', c, cs, openAngle :: (separated p ps ++ [closingAngle, dot, w]),
      ⟨.inr rfl, hc⟩, by simp [member, qualifier], ?_⟩
    rw [charsOf_cons, charsOf_append, hchars]
    rfl

/-- **What stands right in front of a graft** is sealed together with it. -/
theorem Replaces.sealed_behind (h : Replaces w new) {p : Token}
    (hcut : p.Cut lineStart (w.text.toList ++ rest)) :
    Sealed EndsWord lineStart (p.text.toList ++ charsOf new) := by
  have hportable := h.portable
  cases h with
  | cast self _ opens =>
    obtain ⟨cs, hopens⟩ := opens
    refine Cut.sealed (fun tail _ => ?_) (hportable.sealed _)
    rw [hopens]
    rw [self] at hcut
    exact SelfReference.cut_parenthesis hcut
  | @member t ps type parameters name =>
    by_cases hk : p.kind.fuses = true
    · -- The word or number and the first name of the member are sealed, and then comes the rest.
      obtain ⟨d, c, cs, us, hbars, hmember, hus⟩ := exists_bars (t := t) parameters name
      obtain ⟨_, _, c', cs', htext, hcuts⟩ := type.cut
      obtain ⟨hrun, e, hlast, he⟩ := hcuts.isRun_of_isWord type.isWord
      have hfront : Sealed (fun tail => ∃ cs, tail = d :: c :: cs) lineStart
          (p.text.toList ++ t.text.toList) := by
        rw [htext]
        refine hbars.sealed_run ((hcut.isRun hk).append hrun) (e := e) ?_ he lineStart
        rw [List.getLast?_append_of_ne_nil _ (List.cons_ne_nil _ _), hlast]
      have hstart : lineStartOf false [t] = false := lineStartOf_concat [] type.ne_whitespace
      have hback : Sealed EndsWord false (charsOf us) := by
        rw [← hstart]
        refine sealed_of_lexes (fun tail htail => ?_) ?_
        · exact (hmember ▸ hportable.lexes false tail htail).2
        · rw [← lineStartOf_append, List.singleton_append, ← hmember]
          exact hportable.lineStart false
      rw [hmember, charsOf_cons, ← List.append_assoc]
      refine hfront.append hback fun tail _ => ⟨cs ++ tail, ?_⟩
      rw [hus]
      rfl
    · refine Cut.sealed (fun tail _ => ?_) (hportable.sealed _)
      exact StaticFields.cut_member type parameters name name (fun hfuses => absurd hfuses hk) hcut

/-! ## Leaves in front of a graft -/

theorem mem_charsOf {c : Char} : c ∈ charsOf ts ↔ ∃ t ∈ ts, c ∈ t.text.toList := by
  induction ts with
  | nil => simp
  | cons t ts ih => simp [ih]

theorem ne_empty_of_isAngles (h : t.isAngles = true) : t.text ≠ "" := by
  intro hempty
  rw [isAngles, hempty] at h
  simp at h

theorem lineStartOf_angles (h : ∀ t ∈ ts, t.isAngles = true) (hne : ts ≠ []) :
    lineStartOf lineStart ts = false := by
  have hlast := h _ (List.getLast_mem hne)
  rw [← List.dropLast_append_getLast hne]
  refine lineStartOf_concat _ fun hk => ?_
  rw [isAngles, hk] at hlast
  simp at hlast

/-- The angle brackets at the front of a list. -/
theorem exists_angles (ts : List Token) : ∃ run back, ts = run ++ back ∧
    (∀ t ∈ run, t.isAngles = true) ∧ ∀ t ∈ back.head?, t.isAngles = false := by
  induction ts with
  | nil => exact ⟨[], [], rfl, by simp, by simp⟩
  | cons t ts ih =>
    by_cases ht : t.isAngles = true
    · obtain ⟨run, back, rfl, hall, hhead⟩ := ih
      exact ⟨t :: run, back, rfl, List.forall_mem_cons.mpr ⟨ht, hall⟩, hhead⟩
    · exact ⟨[], t :: ts, rfl, by simp, by simpa using ht⟩

/-- A graft begins with no angle bracket. -/
theorem isAngle_of_isHead {c : Char} (h : isHead c = true) : isAngle c = false := by
  rw [Bool.eq_false_iff]
  intro hangle
  rcases Bool.or_eq_true_iff.mp hangle with hc | hc
  · rw [beq_iff_eq.mp hc] at h
    exact absurd h (by decide)
  · rw [beq_iff_eq.mp hc] at h
    exact absurd h (by decide)

/-- **The leaves in front of a graft** are sealed together with it.  A leaf sees the next one, which
is kept, unless it stands right in front of the graft; only angle brackets see more. -/
theorem Leafy.sealed (hw : Replaces w new) {front after : List Token}
    (h : Leafy lineStart (front ++ w :: after) rest) :
    Sealed EndsWord lineStart (charsOf front ++ charsOf new) := by
  obtain ⟨c, cs, hnew, hc⟩ := hw.portable.head
  obtain ⟨c', cs', hword, hc'⟩ := hw.isCutWord.exists_head
  induction hn : front.length using Nat.strongRecOn generalizing lineStart front with
  | _ n ih =>
    subst hn
    cases front with
    | nil => exact hw.portable.sealed lineStart
    | cons b front =>
      have hfirst : b.isAngles = true ∨ b.Cut lineStart (charsOf (front ++ w :: after) ++ rest) :=
        h.1
      by_cases hb : b.isAngles = true
      · -- All angle brackets in a row are sealed together.
        obtain ⟨run, back, hsplit, hall, hhead⟩ := exists_angles (b :: front)
        have hne : run ≠ [] := by
          rintro rfl
          rw [hhead b (by rw [← List.nil_append back, ← hsplit]; rfl)] at hb
          cases hb
        have hlen : back.length < (b :: front).length := by
          rw [hsplit, List.length_append]
          have := List.length_pos_iff.mpr hne
          omega
        rw [hsplit, List.append_assoc] at h
        have hback := (leafy_append.mp h).2
        rw [lineStartOf_angles hall hne] at hback
        rw [hsplit, charsOf_append, List.append_assoc]
        refine (Lexer.sealed_angles ?_ ?_).append (ih _ hlen hback rfl) fun tail _ => ?_
        · intro e he
          obtain ⟨t, ht, he⟩ := mem_charsOf.mp he
          have hangles := hall t ht
          simp only [isAngles, Bool.and_eq_true, List.all_eq_true] at hangles
          exact hangles.2 e he
        · obtain ⟨t, ts, rfl⟩ := List.exists_cons_of_ne_nil hne
          rw [charsOf_cons]
          intro hnil
          have hempty := (List.append_eq_nil_iff.mp hnil).1
          exact ne_empty_of_isAngles (hall t List.mem_cons_self) (String.toList_eq_nil_iff.mp hempty)
        · cases back with
          | nil =>
            rw [charsOf_nil, List.nil_append, hnew]
            exact isAngle_of_isHead hc
          | cons b' back =>
            have hb' := hhead b' rfl
            rcases hback.1 with hangles | hcut
            · rw [hb'] at hangles
              cases hangles
            · obtain ⟨d, ds, htext, hd⟩ := hcut.head_of_isAngles hb'
              rw [charsOf_cons, htext]
              exact hd
      · have hcut := hfirst.resolve_left hb
        cases front with
        | nil =>
          rw [charsOf_cons, charsOf_nil, List.append_nil]
          rw [List.nil_append, charsOf_cons, List.append_assoc] at hcut
          exact hw.sealed_behind hcut
        | cons b' front =>
          have hne : b'.text ≠ "" := h.2.1.elim ne_empty_of_isAngles Cut.ne_empty
          rw [charsOf_cons, List.append_assoc]
          refine Cut.sealed (fun tail _ => ?_) (ih _ (Nat.lt_succ_self _) h.2 rfl)
          rw [List.cons_append, charsOf_cons, List.append_assoc] at hcut
          rw [charsOf_cons, List.append_assoc, List.append_assoc]
          refine hcut.keep hne ?_
          rw [charsOf_append, charsOf_cons, hword, hnew, List.append_assoc]
          exact Similar.append_left (.heads hc' hc) _

end Token

end LivePatch
