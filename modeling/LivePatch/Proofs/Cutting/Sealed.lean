import LivePatch.Proofs.Cutting.Templates

/-!
# Where the lexer is sure to cut

What stands in front of a graft may fuse with it, and a text that begins between the halves of a
shift is not cut like the tokens of the tree.  Still the lexer always cuts behind a graft, and what
it has cut until then does not depend on what follows: the front is `Sealed`.

A front is sealed if each reading that starts in it stays in it and is the same for all that may
follow (`sealed_of_read`).  This is so for a run of angle brackets and for a word or number with a
name right behind it.
-/

namespace LivePatch

namespace Lexer

variable {q : List Char → Prop} {lineStart : Bool} {c d : Char} {cs front rest : List Char}

/-- In front of all texts that satisfy `q`, the text `front` is cut into the same pieces, and the
lexer starts anew behind it. -/
def Sealed (q : List Char → Prop) (lineStart : Bool) (front : List Char) : Prop :=
  ∃ ls, ∀ tail, q tail →
    piecesFrom lineStart 0 (front ++ tail) = ls ++ piecesFrom false 0 tail

/-- A word right in front of the text ends there. -/
def EndsWord (tail : List Char) : Prop := tail.head?.any isIdentifierContinue = false

theorem sealed_nil : Sealed q false [] := ⟨[], fun _ _ => rfl⟩

theorem Sealed.append {q' : List Char → Prop} {back : List Char} (h : Sealed q lineStart front)
    (k : Sealed q' false back) (hq : ∀ tail, q' tail → q (back ++ tail)) :
    Sealed q' lineStart (front ++ back) := by
  obtain ⟨ls, hls⟩ := h
  obtain ⟨ms, hms⟩ := k
  refine ⟨ls ++ ms, fun tail htail => ?_⟩
  rw [List.append_assoc, hls _ (hq tail htail), hms tail htail, List.append_assoc]

/-- **A text is sealed** if every reading inside stays inside and does not depend on what
follows. -/
theorem sealed_of_read
    (h : ∀ c cs, c :: cs <:+ front → ∃ r : Reading, r.more ≤ cs.length ∧
      r.outcome ≠ .ok .whitespace ∧ ∀ lineStart tail, q tail → read lineStart c (cs ++ tail) = r)
    (hfront : front ≠ [] ∨ lineStart = false) : Sealed q lineStart front := by
  induction hn : front.length using Nat.strongRecOn generalizing lineStart front with
  | _ n ih =>
    subst hn
    cases front with
    | nil =>
      obtain rfl : lineStart = false := hfront.resolve_left fun h => h rfl
      exact sealed_nil
    | cons c cs =>
      obtain ⟨r, hmore, hwhite, hread⟩ := h c cs (List.suffix_refl _)
      have hdrop : cs.drop r.more <:+ c :: cs :=
        (List.drop_suffix _ _).trans (List.suffix_cons _ _)
      obtain ⟨ls, hls⟩ := ih (cs.drop r.more).length
        (by rw [List.length_drop, List.length_cons]; omega)
        (fun d ds hds => h d ds (hds.trans hdrop)) (.inr rfl) rfl
      refine ⟨⟨r.outcome, String.ofList (c :: cs.take r.more)⟩ :: ls, fun tail htail => ?_⟩
      rw [List.cons_append, piecesFrom, hread _ tail htail, Mode.piecesFrom_skip,
        Mode.lineStartAfter_eq_false hwhite, List.take_append_of_le_length hmore,
        List.drop_append_of_le_length hmore, hls tail htail, List.cons_append]

/-! ## Runs -/

theorem runLength_append_of_head? {p : Char → Bool} (h : rest.head?.any p = false) (cs : List Char) :
    runLength p (cs ++ rest) = runLength p cs := by
  induction cs with
  | nil =>
    cases rest with
    | nil => rfl
    | cons d ds =>
      have hd : p d = false := h
      simp [hd, runLength]
  | cons c cs ih =>
    rw [List.cons_append, runLength_cons, runLength_cons, ih]

/-! ## Numbers -/

/-- The search `F` never reaches into `rest`. -/
def Stays (F : List Char → Nat) (rest : List Char) : Prop := ∀ cs, F (cs ++ rest) ≤ cs.length

section

variable {F : List Char → Nat} {p : Char → Bool}

theorem stays_runLength (h : rest.head?.any p = false) : Stays (runLength p) rest := by
  intro cs
  rw [runLength_append_of_head? h]
  exact runLength_le p cs

theorem stays_runLength_take (h : rest.head?.any p = false) (n : Nat) :
    Stays (fun ds => runLength p (ds.take n)) rest := by
  intro cs
  induction cs generalizing n with
  | nil =>
    cases rest with
    | nil => simp [runLength]
    | cons d ds =>
      have hd : p d = false := h
      cases n <;> simp [hd, runLength]
  | cons c cs ih =>
    cases n with
    | zero => simp [runLength]
    | succ n =>
      have hrest : runLength p ((cs ++ rest).take n) ≤ cs.length := ih n
      simp only [List.cons_append, List.take_succ_cons, runLength_cons, List.length_cons]
      split <;> omega

theorem stays_digitsLength (h : rest.head?.any isDigitPart = false) : Stays digitsLength rest := by
  intro cs
  unfold digitsLength
  split
  · exact stays_runLength h cs
  · exact Nat.zero_le _

theorem stays_behind (hF : Stays F rest) (h : behind p F rest = 0) : Stays (behind p F) rest := by
  intro cs
  cases cs with
  | nil => exact Nat.le_of_eq h
  | cons c cs =>
    have := hF cs
    simp only [List.cons_append, behind, List.length_cons]
    split <;> omega

end

theorem exists_kind_of_number (first : Char) (ds : List Char) :
    ∃ k, numberReading first ds = ⟨.ok k, (numberReading first ds).more⟩ := by
  by_cases hradix : first = '0' ∧ ds.head?.any isRadix = true
  · obtain ⟨rfl, hhead⟩ := hradix
    cases ds with
    | nil => cases hhead
    | cons e es => exact ⟨_, by rw [numberReading_radix hhead]⟩
  · exact ⟨_, by rw [numberReading_decimal fun hc => by simpa [hc] using hradix]⟩

/-- What stands behind the name of a type that a graft begins with: a point or an angle bracket in
front of another name. -/
def Bars (d c : Char) : Prop := (d = '.' ∨ d = '<') ∧ isHead c = true

namespace Bars

variable (h : Bars d c)

include h

theorem any_eq_false {p : Char → Bool} (hpoint : p '.' = false) (hangle : p '<' = false) :
    (d :: c :: cs).head?.any p = false := by
  rcases h.1 with rfl | rfl
  · exact hpoint
  · exact hangle

theorem stays_fractionAfter (first : Char) : Stays (fractionAfter first) (d :: c :: cs) := by
  intro ds
  unfold fractionAfter
  split
  · exact Nat.zero_le _
  rw [fractionLength_eq]
  refine stays_behind (stays_digitsLength (h.any_eq_false rfl rfl)) ?_ ds
  refine behind_cons_eq_zero.mpr (.inr (digitsLength_eq_zero.mpr ?_))
  simp [isDigit_of_isHead h.2]

theorem stays_exponentLength : Stays exponentLength (d :: c :: cs) := by
  have hdigits : Stays digitsLength (d :: c :: cs) :=
    stays_digitsLength (h.any_eq_false rfl rfl)
  have hzero : isSignum d = false ∧ isExponent d = false := by
    rcases h.1 with rfl | rfl <;> decide
  have hsigned := stays_behind (p := isSignum) hdigits (behind_cons_eq_zero.mpr (.inl hzero.1))
  rw [exponentLength_eq]
  refine stays_behind ?_ (behind_cons_eq_zero.mpr (.inl hzero.2))
  -- Of the two searches, one finds nothing: a sign is no digit.
  intro ds
  have hfirst := hdigits ds
  have hsecond := hsigned ds
  show behind isSignum digitsLength (ds ++ _) + digitsLength (ds ++ _) ≤ ds.length
  cases ds with
  | nil => simp only [List.length_nil] at hfirst hsecond ⊢; omega
  | cons e es =>
    rw [List.cons_append] at hfirst hsecond ⊢
    by_cases he : isSignum e = true
    · have : digitsLength (e :: (es ++ d :: c :: cs)) = 0 :=
        digitsLength_eq_zero.mpr (isDigit_of_isSignum he)
      omega
    · have : behind isSignum digitsLength (e :: (es ++ d :: c :: cs)) = 0 :=
        behind_cons_eq_zero.mpr (.inl (by simpa using he))
      omega

theorem stays_endLength (isReal : Bool) : Stays (endLength isReal) (d :: c :: cs) := by
  intro ds
  have hletter : runLength isRealSuffix ((ds ++ d :: c :: cs).take 1) ≤ ds.length :=
    stays_runLength_take (h.any_eq_false rfl rfl) 1 ds
  have hsuffix : integerSuffixLength (ds ++ d :: c :: cs) ≤ ds.length :=
    stays_runLength_take (h.any_eq_false rfl rfl) 2 ds
  simp only [endLength]
  split
  · omega
  · rename_i hreal
    simp only [Bool.or_eq_true, decide_eq_true_eq, not_or] at hreal
    omega

/-- A number ends in front of such a point or angle bracket. -/
theorem stays_number (first : Char) : Stays (fun ds => (numberReading first ds).more)
    (d :: c :: cs) := by
  intro ds
  have hstays {F : List Char → Nat} (hF : Stays F (d :: c :: cs)) {m : Nat} (hm : m ≤ ds.length) :
      m + F ((ds ++ d :: c :: cs).drop m) ≤ ds.length := by
    rw [List.drop_append_of_le_length hm]
    have := hF (ds.drop m)
    rw [List.length_drop] at this
    omega
  show (numberReading first (ds ++ d :: c :: cs)).more ≤ ds.length
  by_cases hradix : first = '0' ∧ (ds ++ d :: c :: cs).head?.any isRadix = true
  · obtain ⟨rfl, hhead⟩ := hradix
    cases ds with
    | nil =>
      rw [List.nil_append, h.any_eq_false rfl rfl] at hhead
      cases hhead
    | cons e es =>
      rw [List.cons_append, numberReading_radix hhead]
      have hdigits : runLength isHexPart (es ++ d :: c :: cs) ≤ es.length :=
        stays_runLength (h.any_eq_false rfl rfl) es
      have hsuffix : Stays integerSuffixLength (d :: c :: cs) :=
        stays_runLength_take (h.any_eq_false rfl rfl) 2
      have hend := hsuffix (es.drop (runLength isHexPart (es ++ d :: c :: cs)))
      rw [List.length_drop] at hend
      rw [List.drop_append_of_le_length hdigits]
      simp only [List.length_cons]
      omega
  · rw [numberReading_decimal fun hc => by simpa [hc] using hradix]
    have hwhole : runLength isDigitPart (ds ++ d :: c :: cs) ≤ ds.length :=
      stays_runLength (h.any_eq_false rfl rfl) ds
    have hfraction := hstays (h.stays_fractionAfter first) hwhole
    have hexponent := hstays h.stays_exponentLength hfraction
    exact hstays (h.stays_endLength _) hexponent

/-- A number in front of it does not depend on what follows. -/
theorem exists_number (first : Char) (ds : List Char) : ∃ r : Reading, r.more ≤ ds.length ∧
    r.outcome ≠ .ok .whitespace ∧ ∀ cs, numberReading first (ds ++ d :: c :: cs) = r := by
  obtain ⟨k, hk⟩ := exists_kind_of_number first (ds ++ [d, c])
  have hle : (numberReading first (ds ++ [d, c])).more ≤ ds.length := h.stays_number first ds
  generalize hn : (numberReading first (ds ++ [d, c])).more = n at hle hk
  refine ⟨⟨.ok k, n⟩, hle, ?_, fun cs => ?_⟩
  · rintro hwhite
    obtain rfl := Except.ok.inj hwhite
    cases isNumber_of_reading hk
  have hlen : n = (ds.take n).length := by rw [List.length_take, Nat.min_eq_left hle]
  have hsimilar : Similar 2 [d, c] (d :: c :: cs) := .cons d (.heads h.2 h.2)
  have hjoins : JoinsNumber (ds.drop n ++ [d, c]) (ds.drop n ++ d :: c :: cs) := by
    cases ds.drop n with
    | nil => exact .cons d (.heads h.2 h.2)
    | cons e es => exact .cons e (hsimilar.append_left es)
  have hread : numberReading first (ds.take n ++ (ds.drop n ++ [d, c])) =
      ⟨.ok k, (ds.take n).length⟩ := by
    rw [← List.append_assoc, List.take_append_drop, hk, ← hlen]
  have hother := numberReading_of_joins hjoins le_rfl hread
  rwa [← List.append_assoc, List.take_append_drop, ← hlen] at hother

end Bars

/-! ## Words and marks -/

theorem ne_whitespace_of_word {text : String} :
    (Except.ok ((Kind.ofKeyword? text).getD .identifier) : Except LexicalFault Kind) ≠
      .ok .whitespace := by
  intro h
  have hword : ((Kind.ofKeyword? text).getD .identifier).isWord = true := isWord_of_word
  rw [Except.ok.inj h] at hword
  cases hword

theorem ne_whitespace_of_mark (c : Char) (ds : List Char) :
    (markReading c ds).outcome ≠ .ok .whitespace := by
  intro h
  have hall : ∀ m ∈ Kind.marks, m.2 ≠ .whitespace := by decide
  exact hall _ (markReading_ok h) rfl

/-- A mark stays in front of a letter. -/
theorem markReading_stays {e : Char} (hlast : e ∈ c :: cs) (he : isIdentifierContinue e = true) :
    (markReading c (cs ++ rest)).more ≤ cs.length := by
  unfold markReading
  split
  swap
  · exact Nat.zero_le _
  rename_i text kind hfind
  show text.length - 1 ≤ cs.length
  by_contra hlong
  have hfits := List.find?_some hfind
  simp only [markFits, Bool.and_eq_true] at hfits
  have hmark := List.isPrefixOf_iff_prefix.mp hfits.1
  have hfront : c :: cs <+: text.toList := by
    refine List.prefix_of_prefix_length_le (List.prefix_append (c :: cs) rest) hmark ?_
    rw [List.length_cons, String.length_toList]
    omega
  have hall : ∀ m ∈ Kind.marks, m.1.toList.any isIdentifierContinue = false := by decide
  exact List.any_eq_false.mp (hall _ (List.mem_of_find?_eq_some hfind)) e
    (hfront.subset hlast) he

/-! ## A word or number with a name right behind it -/

/-- The characters of words and numbers; the sign of a name stands in front of a letter. -/
def IsRun : List Char → Prop
  | [] => True
  | c :: cs =>
    (Mode.isPlain c = true ∨ c = '@' ∧ cs.head?.any isIdentifierStart = true) ∧ IsRun cs

theorem isRun_of_isPlain (h : ∀ c ∈ cs, Mode.isPlain c = true) : IsRun cs := by
  induction cs with
  | nil => trivial
  | cons c cs ih =>
    obtain ⟨hc, hcs⟩ := List.forall_mem_cons.mp h
    exact ⟨.inl hc, ih hcs⟩

theorem IsRun.append (h : IsRun cs) (hrest : IsRun rest) : IsRun (cs ++ rest) := by
  induction cs with
  | nil => exact hrest
  | cons c cs ih =>
    refine ⟨h.1.imp_right fun hsign => ⟨hsign.1, ?_⟩, ih h.2⟩
    cases cs with
    | nil => cases hsign.2
    | cons d ds => exact hsign.2

theorem IsRun.of_append (h : IsRun (cs ++ rest)) : IsRun rest := by
  induction cs with
  | nil => exact h
  | cons c cs ih => exact ih h.2

theorem Bars.exists_read (h : Bars d c) {first : Char} {ds : List Char}
    (hfirst : Mode.isPlain first = true ∨ first = '@' ∧ ds.head?.any isIdentifierStart = true)
    {e : Char} (hlast : e ∈ first :: ds) (he : isIdentifierContinue e = true) :
    ∃ r : Reading, r.more ≤ ds.length ∧ r.outcome ≠ .ok .whitespace ∧
      ∀ lineStart tail, (∃ cs, tail = d :: c :: cs) → read lineStart first (ds ++ tail) = r := by
  have hrun (cs : List Char) : runLength isIdentifierContinue (ds ++ d :: c :: cs) =
      runLength isIdentifierContinue ds :=
    runLength_append_of_head? (h.any_eq_false (by decide) (by decide)) ds
  have hle := runLength_le isIdentifierContinue ds
  rcases hfirst with hplain | ⟨rfl, hstart⟩
  · by_cases hword : isIdentifierStart first = true
    · refine ⟨wordReading first ds, hle, ne_whitespace_of_word, ?_⟩
      rintro lineStart _ ⟨cs, rfl⟩
      rw [read_eq_of_isPlain hplain, if_pos hword, wordReading, wordReading, hrun,
        List.take_append_of_le_length hle]
    have hdigit (cs : List Char) : (ds ++ d :: c :: cs).head?.any Char.isDigit =
        ds.head?.any Char.isDigit := by
      cases ds with
      | nil => exact h.any_eq_false rfl rfl
      | cons _ _ => rfl
    by_cases hnumber : (first.isDigit || (first == '.' && ds.head?.any Char.isDigit)) = true
    · obtain ⟨r, hmore, hwhite, hread⟩ := h.exists_number first ds
      refine ⟨r, hmore, hwhite, ?_⟩
      rintro lineStart _ ⟨cs, rfl⟩
      rw [read_eq_of_isPlain hplain, if_neg hword, hdigit, if_pos hnumber, hread]
    · refine ⟨markReading first (ds ++ [d, c]), markReading_stays hlast he,
        ne_whitespace_of_mark _ _, ?_⟩
      rintro lineStart _ ⟨cs, rfl⟩
      have hsimilar : Similar 3 (d :: c :: cs) [d, c] := .cons d (.heads h.2 h.2)
      rw [read_eq_of_isPlain hplain, if_neg hword, hdigit, if_neg hnumber,
        markReading_of_similar (hsimilar.append_left ds)]
  · refine ⟨⟨.ok .identifier, runLength isIdentifierContinue ds⟩, hle, by simp, ?_⟩
    rintro lineStart _ ⟨cs, rfl⟩
    have hhead : (ds ++ d :: c :: cs).head?.any isIdentifierStart = true := by
      cases ds with
      | nil => cases hstart
      | cons _ _ => exact hstart
    exact (Cuts.verbatimName rfl hhead rfl (hrun cs).symm).read_eq

/-- **Words and numbers with a name right behind them are sealed**, fused or not. -/
theorem Bars.sealed_run (h : Bars d c) (hrun : IsRun front) {e : Char}
    (hlast : front.getLast? = some e) (he : isIdentifierContinue e = true) (lineStart : Bool) :
    Sealed (fun tail => ∃ cs, tail = d :: c :: cs) lineStart front := by
  refine sealed_of_read (fun first ds hsuffix => ?_) (.inl fun hnil => ?_)
  · obtain ⟨before, rfl⟩ := hsuffix
    refine h.exists_read hrun.of_append.1 (List.mem_of_getLast? ?_) he
    rw [← hlast, List.getLast?_append_of_ne_nil _ (List.cons_ne_nil _ _)]
  · rw [hnil] at hlast
    cases hlast

/-! ## Angle brackets -/

/-- Is the character one of which the marks consist that begin with a closing angle bracket? -/
def isAngle (c : Char) : Bool := c == '>' || c == '='

theorem read_angle (hc : isAngle c = true) (ds : List Char) :
    read lineStart c ds = markReading c ds := by
  rcases Bool.or_eq_true_iff.mp hc with h | h
  · rw [beq_iff_eq.mp h]
    exact read_eq_of_isPlain rfl
  · rw [beq_iff_eq.mp h]
    exact read_eq_of_isPlain rfl

theorem isPrefixOf_append_of_all {p : Char → Bool} {mark : List Char} (hmark : mark.all p = true)
    (h : rest.head?.any p = false) (cs : List Char) :
    mark.isPrefixOf (cs ++ rest) = mark.isPrefixOf cs := by
  induction mark generalizing cs with
  | nil => simp
  | cons a as ih =>
    obtain ⟨ha, has⟩ := Bool.and_eq_true_iff.mp hmark
    cases cs with
    | nil =>
      cases rest with
      | nil => rfl
      | cons d ds =>
        have hne : (a == d) = false := by
          rw [beq_eq_false_iff_ne]
          rintro rfl
          exact absurd ha (Bool.eq_false_iff.mp h)
        simp [List.isPrefixOf, hne]
    | cons b bs => simp only [List.cons_append, List.isPrefixOf, ih has]

theorem markReading_angle (hc : isAngle c = true) (h : rest.head?.any isAngle = false)
    (cs : List Char) : markReading c (cs ++ rest) = markReading c cs := by
  have hall : ∀ m ∈ Kind.marks, m.1.toList.head?.any isAngle = true →
      m.1 ≠ "?." ∧ m.1.toList.all isAngle = true := by decide
  have hfits : ∀ m ∈ Kind.marks, markFits m.1 (c :: (cs ++ rest)) = markFits m.1 (c :: cs) := by
    intro m hm
    by_cases hangle : m.1.toList.head?.any isAngle = true
    · obtain ⟨hne, hmark⟩ := hall m hm hangle
      have hprefix := isPrefixOf_append_of_all hmark h (c :: cs)
      simp only [markFits, beq_eq_false_iff_ne.mpr hne, Bool.false_and, Bool.not_false,
        Bool.and_true]
      exact hprefix
    · have hnone (ds : List Char) : m.1.toList.isPrefixOf (c :: ds) = false ∨ m.1.toList = [] := by
        cases htext : m.1.toList with
        | nil => exact .inr rfl
        | cons a as =>
          left
          have hne : (a == c) = false := by
            rw [beq_eq_false_iff_ne]
            rintro rfl
            rw [htext] at hangle
            exact hangle hc
          simp [List.isPrefixOf, hne]
      have hsome : m.1.toList ≠ [] := (by decide : ∀ m ∈ Kind.marks, m.1.toList ≠ []) m hm
      simp only [markFits, (hnone _).resolve_right hsome, Bool.false_and]
  unfold markReading
  rw [List.find?_congr hfits]

/-- **Angle brackets in a row are sealed** in front of all other characters. -/
theorem sealed_angles (hall : ∀ e ∈ front, isAngle e = true) (hne : front ≠ []) :
    Sealed (fun tail => tail.head?.any isAngle = false) lineStart front := by
  refine sealed_of_read (fun first ds hsuffix => ?_) (.inl hne)
  have hfirst := hall first (hsuffix.subset List.mem_cons_self)
  refine ⟨markReading first ds, markReading_more_le first ds, ne_whitespace_of_mark _ _, ?_⟩
  intro lineStart tail htail
  rw [read_angle hfirst, markReading_angle hfirst htail]

/-- A number consists of characters that open nothing. -/
theorem Cuts.isPlain_of_isNumber {k : Kind} (h : Cuts lineStart c (cs ++ rest) k cs.length)
    (hk : k.isNumber = true) : ∀ d ∈ c :: cs, Mode.isPlain d = true := by
  obtain ⟨first, reading⟩ := h.isNumber_cases hk
  have hplain := Mode.plainFor_number c (cs ++ rest)
  rw [reading, Mode.PlainFor, List.take_left] at hplain
  refine List.forall_mem_cons.mpr ⟨?_, hplain⟩
  rcases first with hdigit | ⟨rfl, -⟩
  · exact Mode.isPlain_of_isDigit hdigit
  · rfl

/-- A word is a run that ends in a letter. -/
theorem Cuts.isRun_of_isWord {k : Kind} (h : Cuts lineStart c (cs ++ rest) k cs.length)
    (hk : k.isWord = true) : IsRun (c :: cs) ∧
      ∃ e, (c :: cs).getLast? = some e ∧ isIdentifierContinue e = true := by
  obtain ⟨hmore, hfirst⟩ := h.isWord_cases hk
  obtain ⟨hall, hnext⟩ := runLength_append.mp hmore.symm
  have hrun : IsRun cs :=
    isRun_of_isPlain fun d hd => Mode.isPlain_of_isIdentifierContinue (hall d hd)
  rcases hfirst with ⟨hstart, -⟩ | ⟨rfl, hsecond, -⟩
  · have hc := isIdentifierContinue_of_isIdentifierStart hstart
    have hletters : ∀ e ∈ c :: cs, isIdentifierContinue e = true :=
      List.forall_mem_cons.mpr ⟨hc, hall⟩
    refine ⟨⟨.inl (Mode.isPlain_of_isIdentifierContinue hc), hrun⟩, _,
      List.getLast?_eq_some_getLast (List.cons_ne_nil c cs), hletters _ (List.getLast_mem _)⟩
  · -- Behind the sign stands a letter of the word.
    have hstart : cs.head?.any isIdentifierStart = true := by
      cases cs with
      | nil =>
        cases rest with
        | nil => cases hsecond
        | cons d ds =>
          have hd := isIdentifierContinue_of_isIdentifierStart hsecond
          exact absurd hd (Bool.eq_false_iff.mp hnext)
      | cons d ds => exact hsecond
    have hne : cs ≠ [] := by
      rintro rfl
      cases hstart
    refine ⟨⟨.inr ⟨rfl, hstart⟩, hrun⟩, _, ?_, hall _ (List.getLast_mem hne)⟩
    rw [List.getLast?_cons_of_ne_nil hne, List.getLast?_eq_some_getLast hne]

end Lexer

end LivePatch
