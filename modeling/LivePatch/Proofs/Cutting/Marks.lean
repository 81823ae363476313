import LivePatch.Proofs.Cutting.Templates

/-!
# Marks and what follows them

A mark is cut as it stands unless it begins a longer one there.  One character behind it is enough
to rule that out.
-/

namespace LivePatch

namespace Lexer

/-- May the character `c` behind the mark `text` make another piece of the two? -/
def joinsMark (text : String) (c : Char) : Bool :=
  c.isDigit || (text == "/" && (c == '/' || c == '*')) ||
    Kind.marks.any fun m => (text.toList ++ [c]).isPrefixOf m.1.toList

variable {text : String} {c : Char} {k : Kind} {cs rest : List Char}

theorem joinsMark_eq_false : joinsMark text c = false ↔ c.isDigit = false ∧
    (text = "/" → c ≠ '/' ∧ c ≠ '*') ∧
      ∀ m ∈ Kind.marks, (text.toList ++ [c]).isPrefixOf m.1.toList = false := by
  simp only [joinsMark, Bool.or_eq_false_iff, Bool.and_eq_false_imp, beq_iff_eq,
    beq_eq_false_iff_ne, List.any_eq_false, Bool.not_eq_true, and_assoc]

/-- What fits in front of more text fits in front of none, and the other way around. -/
theorem isPrefixOf_append {p ds : List Char} (h : (ds ++ [c]).isPrefixOf p = false) :
    p.isPrefixOf (ds ++ c :: cs) = p.isPrefixOf ds := by
  rw [Bool.eq_iff_iff, List.isPrefixOf_iff_prefix, List.isPrefixOf_iff_prefix]
  constructor
  · intro hp
    have hds : ds ++ [c] <+: ds ++ c :: cs := ⟨cs, by simp⟩
    rcases List.prefix_or_prefix_of_prefix hp hds with hle | hle
    · rcases List.prefix_concat_iff.mp hle with rfl | hle
      · rw [List.isPrefixOf_iff_prefix.mpr List.prefix_rfl] at h
        cases h
      · exact hle
    · rw [List.isPrefixOf_iff_prefix.mpr hle] at h
      cases h
  · exact fun hp => hp.trans (List.prefix_append _ _)

/-- A mark fits in front of more text as it fits alone. -/
theorem markFits_append {m : String × Kind} (hm : m ∈ Kind.marks)
    (h : joinsMark text c = false) :
    markFits m.1 (text.toList ++ c :: cs) = markFits m.1 text.toList := by
  obtain ⟨hdigit, -, hmarks⟩ := joinsMark_eq_false.mp h
  unfold markFits
  dsimp only
  rw [isPrefixOf_append (hmarks m hm)]
  cases hfits : m.1.toList.isPrefixOf text.toList with
  | false => rfl
  | true =>
    -- What stands behind the mark is what stood there before, or else `c`, which is no digit.
    obtain ⟨ds, hds⟩ := List.isPrefixOf_iff_prefix.mp hfits
    rw [← hds, List.append_assoc, List.drop_left, List.drop_left]
    cases ds with
    | nil => simp [hdigit]
    | cons d ds => rfl

theorem markReading_append {d : Char} {ds : List Char} (htext : text.toList = d :: ds)
    (h : joinsMark text c = false) :
    markReading d (ds ++ c :: cs) = markReading d ds := by
  unfold markReading
  have hfind : Kind.marks.find? (fun mark => markFits mark.1 (d :: (ds ++ c :: cs))) =
      Kind.marks.find? (fun mark => markFits mark.1 (d :: ds)) := by
    refine List.find?_congr fun m hm => ?_
    rw [← List.cons_append, ← htext]
    exact markFits_append hm h
  rw [hfind]

/-- A character that stands behind the first one in no mark joins none. -/
theorem joinsMark_of_not_mem (htext : text ≠ "") (hdigit : c.isDigit = false)
    (hcomment : c ≠ '/' ∧ c ≠ '*') (hmarks : ∀ m ∈ Kind.marks, c ∉ m.1.toList.tail) :
    joinsMark text c = false := by
  refine joinsMark_eq_false.mpr ⟨hdigit, fun _ => hcomment, fun m hm => ?_⟩
  obtain ⟨d, ds, hds⟩ := List.exists_cons_of_ne_nil (mt String.toList_eq_nil_iff.mp htext)
  rw [Bool.eq_false_iff]
  intro hprefix
  obtain ⟨es, hes⟩ := List.isPrefixOf_iff_prefix.mp hprefix
  refine hmarks m hm ?_
  rw [← hes, hds]
  simp

/-- Nor do characters of a sort that begins no comment and goes on with no mark. -/
theorem joinsMark_of_sort {p : Char → Bool} (htext : text ≠ "") (hc : p c = true)
    (hdigit : c.isDigit = false) (hslash : p '/' = false) (hstar : p '*' = false)
    (htails : (Kind.marks.all fun m => m.1.toList.tail.all fun d => !p d) = true) :
    joinsMark text c = false := by
  have hother : ∀ d, p d = false → c ≠ d := by
    rintro d hd rfl
    rw [hc] at hd
    cases hd
  refine joinsMark_of_not_mem htext hdigit ⟨hother _ hslash, hother _ hstar⟩ fun m hm hmem => ?_
  have htail := List.all_eq_true.mp (List.all_eq_true.mp htails m hm) c hmem
  simp [hc] at htail

theorem joinsMark_of_isHead (htext : text ≠ "") (hc : isHead c = true) :
    joinsMark text c = false :=
  joinsMark_of_sort htext hc (isDigit_of_isHead hc) (by decide) (by decide) (by decide)

theorem joinsMark_of_isBlank (htext : text ≠ "") (hc : isBlank c = true) :
    joinsMark text c = false := by
  have hdigit : c.isDigit = false := by
    rw [Bool.eq_false_iff]
    intro hdigit
    have hplain := Mode.isPlain_of_isDigit hdigit
    simp [Mode.isPlain, hc] at hplain
  exact joinsMark_of_sort htext hc hdigit (by decide) (by decide) (by decide)

end Lexer

namespace Token

open Lexer (joinsMark)

variable {lineStart : Bool} {t : Token} {rest : List Char}

/-- Every mark is read where nothing follows it. -/
theorem exists_markReading (h : (t.text, t.kind) ∈ Kind.marks) :
    ∃ d ds, t.text.toList = d :: ds ∧ Lexer.markReading d ds = ⟨.ok t.kind, ds.length⟩ := by
  have hall : ∀ m ∈ Kind.marks, ∃ d ds, m.1.toList = d :: ds ∧
      Lexer.markReading d ds = ⟨.ok m.2, ds.length⟩ := by
    unfold Kind.marks
    repeat refine List.forall_mem_cons.mpr ⟨⟨_, _, rfl, rfl⟩, ?_⟩
    exact List.forall_mem_nil _
  exact hall _ h

/-- The marks that begin as comments and numbers do. -/
theorem text_of_mark {d : Char} {ds : List Char} (h : (t.text, t.kind) ∈ Kind.marks)
    (htext : t.text.toList = d :: ds) :
    (d = '/' → t.text = "/" ∨ t.text = "/=") ∧ (d = '.' → t.text = ".") := by
  have hall : ∀ m ∈ Kind.marks, (m.1.toList.head? = some '/' → m.1 = "/" ∨ m.1 = "/=") ∧
      (m.1.toList.head? = some '.' → m.1 = ".") := by
    decide
  obtain ⟨hslash, hpoint⟩ := hall _ h
  refine ⟨fun hd => hslash ?_, fun hd => hpoint ?_⟩
  · rw [htext, hd]
    rfl
  · rw [htext, hd]
    rfl

/-- **A mark is cut** wherever the next character does not join it. -/
theorem cut_mark (h : (t.text, t.kind) ∈ Kind.marks)
    (hrest : rest.head?.all (fun c => !joinsMark t.text c) = true) : t.Cut lineStart rest := by
  obtain ⟨d, ds, htext, hreading⟩ := exists_markReading h
  obtain ⟨hslash, hpoint⟩ := text_of_mark h htext
  have hjoins : ∀ c cs, rest = c :: cs → joinsMark t.text c = false := by
    rintro c cs rfl
    simpa using hrest
  refine ⟨d, ds, htext, .mark (fun hd => ?_) (fun hd => ?_) ?_⟩
  · rcases hslash hd with htext' | htext'
    · obtain rfl : ds = [] := (List.cons.inj (htext.symm.trans (by rw [htext']; rfl))).2
      cases rest with
      | nil => simp
      | cons c cs =>
        obtain ⟨-, hcomment, -⟩ := Lexer.joinsMark_eq_false.mp (hjoins c cs rfl)
        simpa using hcomment htext'
    · obtain rfl : ds = ['='] := (List.cons.inj (htext.symm.trans (by rw [htext']; rfl))).2
      simp
  · obtain rfl : ds = [] := (List.cons.inj (htext.symm.trans (by rw [hpoint hd]; rfl))).2
    cases rest with
    | nil => rfl
    | cons c cs => exact (Lexer.joinsMark_eq_false.mp (hjoins c cs rfl)).1
  · cases rest with
    | nil => rw [List.append_nil, hreading]
    | cons c cs => rw [Lexer.markReading_append htext (hjoins c cs rfl), hreading]

end Token

end LivePatch
