import LivePatch.Syntax.Tree
import LivePatch.Proofs.Kinds
import Mathlib.Data.List.Nodup

/-!
# The dump determines the tree

A dump is read back from the inside out.  The quoted form of a text ends at the first quote that
is not escaped, because no character's form is the beginning of another one's.  A line of a dump
is then its depth, its kind and, for a token, its text, and none of them holds a line break, so
the dump shows where each line ends.  What is left is the outline, a list of entries with their
depths, in which the parts of a node are the entries below it up to the next one that is not
deeper.
-/

namespace LivePatch

/-! ## Telling joined texts apart -/

/-- A separator that two texts do not hold shows where each of them ends. -/
theorem eq_of_append_separator {α : Type} {sep : α} {a b x y : List α} (ha : sep ∉ a)
    (hb : sep ∉ b) (h : a ++ sep :: x = b ++ sep :: y) : a = b ∧ x = y := by
  induction a generalizing b with
  | nil =>
    cases b with
    | nil => exact ⟨rfl, (List.cons.inj h).2⟩
    | cons e es => exact absurd (List.cons.inj h).1 (fun same => hb (by simp [same]))
  | cons d ds ih =>
    cases b with
    | nil => exact absurd (List.cons.inj h).1 (fun same => ha (by simp [same]))
    | cons e es =>
      obtain ⟨rfl, rest⟩ := List.cons.inj h
      obtain ⟨rfl, same⟩ := ih (fun m => ha (.tail _ m)) (fun m => hb (.tail _ m)) rest
      exact ⟨rfl, same⟩

/-- A run of one character ends where another one stands. -/
theorem eq_of_replicate_append {α : Type} {c : α} {m n : Nat} {x y : List α}
    (hx : x.head? ≠ some c) (hy : y.head? ≠ some c)
    (h : List.replicate m c ++ x = List.replicate n c ++ y) : m = n ∧ x = y := by
  induction m generalizing n with
  | zero =>
    cases n with
    | zero => exact ⟨rfl, h⟩
    | succ n => exact absurd (by simp_all [List.replicate_succ]) hx
  | succ m ih =>
    cases n with
    | zero => exact absurd (by simp [← show _ = y from h, List.replicate_succ]) hy
    | succ n =>
      obtain ⟨rfl, same⟩ := ih (List.cons.inj h).2
      exact ⟨rfl, same⟩

/-! ## The quoted form of a text -/

namespace Quoted

/-- The characters that are escaped by a name, each with its name. -/
def shortNames : List (Char × Char) :=
  [('\x00', '0'), ('\t', 't'), ('\r', 'r'), ('\n', 'n'), ('"', '"'), ('\\', '\\')]

theorem digitChar_injective :
    ∀ i < 16, ∀ j < 16, Nat.digitChar i = Nat.digitChar j → i = j := by decide

theorem toDigits_injective {m n : Nat} (h : Nat.toDigits 16 m = Nat.toDigits 16 n) : m = n := by
  induction m using Nat.strongRecOn generalizing n with
  | ind m ih =>
    rw [Nat.toDigits_eq_if (by decide), Nat.toDigits_eq_if (n := n) (by decide)] at h
    split at h <;> split at h
    case isTrue.isTrue hm hn => exact digitChar_injective m hm n hn (List.cons.inj h).1
    case isTrue.isFalse => simp [List.cons_eq_append_iff] at h
    case isFalse.isTrue => simp [List.append_eq_cons_iff] at h
    case isFalse.isFalse hm hn =>
      obtain ⟨front, last⟩ := List.append_inj' h rfl
      have quotients := ih (m / 16) (by omega) front
      have digits := digitChar_injective _ (Nat.mod_lt m (by decide)) _
        (Nat.mod_lt n (by decide)) (List.cons.inj last).1
      omega

theorem exists_digit_of_mem_toDigits {n : Nat} {d : Char} (h : d ∈ Nat.toDigits 16 n) :
    ∃ i, d = Nat.digitChar i := by
  induction n using Nat.strongRecOn with
  | ind n ih =>
    rw [Nat.toDigits_eq_if (by decide)] at h
    split at h
    · exact ⟨n, List.mem_singleton.mp h⟩
    · obtain h | h := List.mem_append.mp h
      · exact ih (n / 16) (by omega) h
      · exact ⟨n % 16, List.mem_singleton.mp h⟩

theorem brace_notMem_toDigits (n : Nat) : '}' ∉ Nat.toDigits 16 n := fun h =>
  have ⟨i, hi⟩ := exists_digit_of_mem_toDigits h
  Nat.digitChar_ne '}' (by decide) hi.symm

/-- The three forms a character has between the quotes. -/
inductive Form (c : Char) : List Char → Prop
  | itself (plain : c ∉ shortNames.map Prod.fst) : Form c [c]
  | short {name : Char} (named : (c, name) ∈ shortNames) : Form c ['\\', name]
  | code : Form c (codePoint c)

theorem form_encodeChar (c : Char) : Form c (encodeChar c) := by
  unfold encodeChar
  split
  case h_7 =>
    split
    · exact .itself (by simp_all [shortNames])
    · exact .code
  all_goals exact .short (by simp [shortNames])

namespace Form

variable {c d : Char} {a b x y : List Char}

/-- A form is not empty, and it begins with no quote. -/
theorem head?_append (h : Form c a) : ∃ e, (a ++ x).head? = some e ∧ e ≠ '"' := by
  cases h with
  | itself plain => exact ⟨c, rfl, fun same => plain (by simp [shortNames, same])⟩
  | short | code => exact ⟨'\\', rfl, by decide⟩

/-- No form holds a line break. -/
theorem notMem_newline (h : Form c a) : '\n' ∉ a := by
  cases h with
  | itself plain => exact fun m => plain (by simp [shortNames, (List.mem_singleton.mp m).symm])
  | short named =>
    have : ∀ p ∈ shortNames, '\n' ∉ ['\\', p.2] := by decide
    exact this _ named
  | code =>
    simp only [codePoint, List.mem_append, not_or]
    refine ⟨⟨by decide, fun m => ?_⟩, by decide⟩
    obtain ⟨i, hi⟩ := exists_digit_of_mem_toDigits m
    exact Nat.digitChar_ne '\n' (by decide) hi.symm

/-- A text that begins with a character's form begins with no other character's form. -/
theorem append_inj (hc : Form c a) (hd : Form d b) (h : a ++ x = b ++ y) : c = d ∧ x = y := by
  cases hc with
  | itself plain =>
    cases hd with
    | itself => exact List.cons.inj h
    | short | code =>
      exact absurd (List.cons.inj h).1 (fun same => plain (by simp [shortNames, same]))
  | short named =>
    have unalike : ∀ p ∈ shortNames, ∀ q ∈ shortNames, p.2 = q.2 → p.1 = q.1 := by
      decide +kernel
    have notCode : ∀ p ∈ shortNames, p.2 ≠ 'u' := by decide
    cases hd with
    | itself plain =>
      exact absurd (List.cons.inj h).1 (fun same => plain (by simp [shortNames, ← same]))
    | short named' =>
      obtain ⟨same, rest⟩ := List.cons.inj (List.cons.inj h).2
      exact ⟨unalike _ named _ named' same, rest⟩
    | code => exact absurd (List.cons.inj (List.cons.inj h).2).1 (notCode _ named)
  | code =>
    have notCode : ∀ p ∈ shortNames, p.2 ≠ 'u' := by decide
    cases hd with
    | itself plain =>
      exact absurd (List.cons.inj h).1 (fun same => plain (by simp [shortNames, ← same]))
    | short named => exact absurd (List.cons.inj (List.cons.inj h).2).1.symm (notCode _ named)
    | code =>
      simp only [codePoint, List.append_assoc, List.cons_append, List.nil_append, List.cons.injEq,
        true_and] at h
      obtain ⟨digits, rest⟩ := eq_of_append_separator (brace_notMem_toDigits _)
        (brace_notMem_toDigits _) h
      exact ⟨Char.toNat_inj.mp (toDigits_injective digits), rest⟩

end Form

theorem flatMap_encodeChar_inj {a b x y : List Char}
    (h : a.flatMap encodeChar ++ '"' :: x = b.flatMap encodeChar ++ '"' :: y) :
    a = b ∧ x = y := by
  induction a generalizing b with
  | nil =>
    cases b with
    | nil => exact ⟨rfl, (List.cons.inj h).2⟩
    | cons d ds =>
      obtain ⟨e, he, unquoted⟩ := (form_encodeChar d).head?_append
        (x := ds.flatMap encodeChar ++ '"' :: y)
      rw [List.flatMap_cons, List.append_assoc] at h
      exact absurd (Option.some.inj ((congrArg List.head? h).trans he)).symm unquoted
  | cons c cs ih =>
    cases b with
    | nil =>
      obtain ⟨e, he, unquoted⟩ := (form_encodeChar c).head?_append
        (x := cs.flatMap encodeChar ++ '"' :: x)
      rw [List.flatMap_cons, List.append_assoc] at h
      exact absurd (Option.some.inj ((congrArg List.head? h.symm).trans he)).symm unquoted
    | cons d ds =>
      simp only [List.flatMap_cons, List.append_assoc] at h
      obtain ⟨rfl, rest⟩ := (form_encodeChar c).append_inj (form_encodeChar d) h
      obtain ⟨rfl, same⟩ := ih rest
      exact ⟨rfl, same⟩

theorem encode_injective {a b : List Char} (h : encode a = encode b) : a = b :=
  (flatMap_encodeChar_inj (List.cons.inj h).2).1

theorem newline_notMem_encode (text : List Char) : '\n' ∉ encode text := by
  simp only [encode, List.mem_cons, List.mem_append, List.mem_flatMap, List.not_mem_nil]
  rintro (quote | ⟨c, -, m⟩ | quote)
  · exact absurd quote (by decide)
  · exact (form_encodeChar c).notMem_newline m
  · simp at quote

end Quoted

/-! ## The printed names of kinds -/

namespace Kind

theorem exists_letters (k : Kind) :
    ∃ letters, k.label = String.ofList letters ∧ letters ≠ [] ∧
      letters.all Char.isAlpha = true := by
  cases k <;> exact ⟨_, rfl, List.cons_ne_nil _ _, rfl⟩

theorem notMem_label {c : Char} (h : c.isAlpha = false) (k : Kind) : c ∉ k.label.toList := by
  obtain ⟨letters, same, -, alphabetical⟩ := exists_letters k
  rw [same, String.toList_ofList]
  exact fun m => by simp [List.all_eq_true.mp alphabetical c m] at h

-- Names of one length are few, so they are compared with each other length by length; the
-- remainder only spares a bound on the lengths.
set_option maxRecDepth 100000 in
theorem nodup_labels_of_size : ∀ n < 32,
    ((all.filter fun k => k.label.utf8ByteSize % 32 == n).map label).Nodup := by
  decide +kernel

theorem label_injective {j k : Kind} (h : j.label = k.label) : j = k :=
  List.inj_on_of_nodup_map (nodup_labels_of_size _ (Nat.mod_lt k.label.utf8ByteSize (by decide)))
    (by simp [mem_all, h]) (by simp [mem_all]) h

end Kind

/-! ## Lines and outlines -/

namespace Tree

/-- What one line of a dump shows: the depth, the kind and, for a token, its text. -/
structure Entry where
  depth : Nat
  kind : Kind
  text? : Option String

/-- The line that shows the entry. -/
def Entry.line (e : Entry) : String :=
  String.ofList (List.replicate (2 * e.depth) ' ') ++ e.kind.label ++
    match e.text? with
    | some text => " " ++ quoted text
    | none => ""

mutual

/-- The entries of a tree's dump at the given depth. -/
def outline (depth : Nat) : Tree → List Entry
  | .token t => [⟨depth, t.kind, some t.text⟩]
  | .node k children => ⟨depth, k, none⟩ :: outlineAll (depth + 1) children

/-- The entries of several trees' dumps at the given depth. -/
def outlineAll (depth : Nat) : List Tree → List Entry
  | [] => []
  | t :: ts => outline depth t ++ outlineAll depth ts

end

mutual

theorem dumpLines_eq (depth : Nat) : (t : Tree) →
    t.dumpLines depth = (outline depth t).map Entry.line
  | .token t => by simp [dumpLines, outline, Entry.line, String.append_assoc]
  | .node k children => by
    simp [dumpLines, outline, Entry.line, dumpLinesAll_eq (depth + 1) children]

theorem dumpLinesAll_eq (depth : Nat) : (ts : List Tree) →
    dumpLinesAll depth ts = (outlineAll depth ts).map Entry.line
  | [] => rfl
  | t :: ts => by
    simp [dumpLinesAll, outlineAll, dumpLines_eq depth t, dumpLinesAll_eq depth ts]

end

theorem toList_line (e : Entry) :
    e.line.toList = List.replicate (2 * e.depth) ' ' ++ (e.kind.label.toList ++
      match e.text? with
      | some text => ' ' :: Quoted.encode text.toList
      | none => []) := by
  cases e with
  | mk depth kind text? => cases text? <;> simp [Entry.line, quoted]

theorem head?_label_append (k : Kind) (x : List Char) :
    (k.label.toList ++ x).head? ≠ some ' ' := by
  obtain ⟨letters, same, someLetter, -⟩ := k.exists_letters
  have first := k.notMem_label (c := ' ') (by decide)
  rw [same, String.toList_ofList] at first ⊢
  cases letters with
  | nil => exact absurd rfl someLetter
  | cons c cs => exact fun head => first (by simp [Option.some.inj head])

theorem line_injective {d e : Entry} (h : d.line = e.line) : d = e := by
  obtain ⟨depth, j, s?⟩ := d
  obtain ⟨depth', k, t?⟩ := e
  have chars := congrArg String.toList h
  rw [toList_line, toList_line] at chars
  dsimp only at chars
  obtain ⟨depths, rest⟩ :=
    eq_of_replicate_append (head?_label_append _ _) (head?_label_append _ _) chars
  obtain rfl : depth = depth' := Nat.eq_of_mul_eq_mul_left (by decide) depths
  have unspaced (l : Kind) := l.notMem_label (c := ' ') (by decide)
  cases s? with
  | none =>
    cases t? with
    | none =>
      rw [List.append_nil, List.append_nil, String.toList_inj] at rest
      rw [Kind.label_injective rest]
    | some t => exact absurd (by simp_all) (unspaced j)
  | some s =>
    cases t? with
    | none => exact absurd (by simp [← show _ = k.label.toList by simpa using rest]) (unspaced k)
    | some t =>
      obtain ⟨labels, texts⟩ := eq_of_append_separator (unspaced j) (unspaced k) rest
      rw [Kind.label_injective (String.toList_inj.mp labels),
        String.toList_inj.mp (Quoted.encode_injective texts)]

theorem newline_notMem_line (e : Entry) : '\n' ∉ e.line.toList := by
  rw [toList_line]
  simp only [List.mem_append, List.mem_replicate, not_or, not_and]
  refine ⟨fun _ => by decide, e.kind.notMem_label (by decide), ?_⟩
  cases e.text? with
  | none => exact List.not_mem_nil
  | some text =>
    rw [List.mem_cons, not_or]
    exact ⟨by decide, Quoted.newline_notMem_encode _⟩

/-- The lines of the entries, each with its line break. -/
def joined (es : List Entry) : List Char := es.flatMap fun e => e.line.toList ++ ['\n']

theorem toList_dump (t : Tree) : t.dump.toList = joined (t.outline 0) := by
  rw [dump, dumpLines_eq, joined]
  induction t.outline 0 with
  | nil => rfl
  | cons e es ih => simpa using ih

theorem joined_injective {ds es : List Entry} (h : joined ds = joined es) : ds = es := by
  induction ds generalizing es with
  | nil =>
    cases es with
    | nil => rfl
    | cons e es => simp [joined] at h
  | cons d ds ih =>
    cases es with
    | nil => simp [joined] at h
    | cons e es =>
      simp only [joined, List.flatMap_cons, List.append_assoc] at h
      obtain ⟨lines, rest⟩ :=
        eq_of_append_separator (newline_notMem_line d) (newline_notMem_line e) h
      rw [line_injective (String.toList_inj.mp lines), ih rest]

/-- The entries go on with one that is less deep, or they are at their end. -/
def Rises (depth : Nat) (es : List Entry) : Prop := ∀ e ∈ es.head?, e.depth < depth

theorem Rises.mono {m n : Nat} {es : List Entry} (h : Rises m es) (le : m ≤ n) : Rises n es :=
  fun e he => Nat.lt_of_lt_of_le (h e he) le

theorem exists_outline (depth : Nat) (t : Tree) :
    ∃ e es, outline depth t = e :: es ∧ e.depth = depth := by
  cases t <;> exact ⟨_, _, rfl, rfl⟩

theorem rises_outlineAll_append {depth : Nat} {ts : List Tree} {es : List Entry}
    (h : Rises depth es) : Rises (depth + 1) (outlineAll depth ts ++ es) := by
  cases ts with
  | nil => exact h.mono (Nat.le_succ depth)
  | cons t ts =>
    obtain ⟨e, rest, same, rfl⟩ := exists_outline depth t
    simp [Rises, outlineAll, same]

mutual

theorem eq_of_outline_append {depth : Nat} : {s t : Tree} → {x y : List Entry} →
    Rises (depth + 1) x → Rises (depth + 1) y →
    outline depth s ++ x = outline depth t ++ y → s = t ∧ x = y
  | .token s, .token t, x, y, _, _, h => by
    obtain ⟨same, rest⟩ := List.cons.inj h
    cases s; cases t; simp_all
  | .token s, .node k ts, _, _, _, _, h => by simp [outline] at h
  | .node j ss, .token t, _, _, _, _, h => by simp [outline] at h
  | .node j ss, .node k ts, x, y, hx, hy, h => by
    obtain ⟨same, rest⟩ := List.cons.inj h
    obtain ⟨rfl, rfl⟩ := eq_of_outlineAll_append hx hy rest
    simp_all

theorem eq_of_outlineAll_append {depth : Nat} : {ss ts : List Tree} → {x y : List Entry} →
    Rises depth x → Rises depth y →
    outlineAll depth ss ++ x = outlineAll depth ts ++ y → ss = ts ∧ x = y
  | [], [], _, _, _, _, h => ⟨rfl, h⟩
  | [], t :: ts, x, y, hx, _, h => by
    obtain ⟨e, rest, same, rfl⟩ := exists_outline depth t
    obtain rfl : x = _ := h
    exact absurd (hx e (by simp [outlineAll, same])) (Nat.lt_irrefl _)
  | s :: ss, [], x, y, _, hy, h => by
    obtain ⟨e, rest, same, rfl⟩ := exists_outline depth s
    obtain rfl : _ = y := h
    exact absurd (hy e (by simp [outlineAll, same])) (Nat.lt_irrefl _)
  | s :: ss, t :: ts, x, y, hx, hy, h => by
    simp only [outlineAll, List.append_assoc] at h
    obtain ⟨rfl, rest⟩ := eq_of_outline_append (rises_outlineAll_append hx)
      (rises_outlineAll_append hy) h
    obtain ⟨rfl, same⟩ := eq_of_outlineAll_append hx hy rest
    exact ⟨rfl, same⟩

end

/-- Two trees have the same dump only if they are the same tree. -/
theorem dump_eq_iff (s t : Tree) : s.dump = t.dump ↔ s = t := by
  constructor
  · intro h
    have entries : s.outline 0 = t.outline 0 :=
      joined_injective (by rw [← toList_dump, ← toList_dump, h])
    have atEnd : Rises 1 [] := by simp [Rises]
    exact (eq_of_outline_append atEnd atEnd (by rw [entries])).1
  · rintro rfl
    rfl

end Tree
end LivePatch
