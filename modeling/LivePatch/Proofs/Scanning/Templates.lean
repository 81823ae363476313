import LivePatch.Patch.Synthesis
import LivePatch.Proofs.Places
import LivePatch.Proofs.Scanning.Tokens

/-!
# The texts that passes write

A template consists of names, which come from the tree, and of a few fixed marks.  Such a text is
*settled*: wherever a token may start, it opens neither a comment nor a string, and it leaves
nothing open.  So a settled text can be put in front of any other without touching it.

The one template with a free part is that of a returned value, which ends in the text of the value
itself; for it only the part in front is settled.
-/

namespace LivePatch

open Lexer (IsNameText)

namespace Mode

/-- The text opens nothing with its first character. -/
def OpensNothing : List Char → Prop
  | [] => False
  | c :: cs => isPlain c = true ∨ (c = '@' ∧ cs.head? ≠ some '"')

/-- The text opens nothing, and from wherever a token may start it leads back to code. -/
structure Settled (text : List Char) : Prop where
  opens : OpensNothing text
  scan : ∀ m : Mode, m.isBetween = true → m.scan text = code

theorem OpensNothing.append {cs : List Char} (h : OpensNothing cs) (ds : List Char)
    (hd : ds.head? ≠ some '"') : OpensNothing (cs ++ ds) := by
  cases cs with
  | nil => exact h.elim
  | cons c cs =>
    rcases h with hplain | ⟨rfl, hquote⟩
    · exact .inl hplain
    · refine .inr ⟨rfl, ?_⟩
      cases cs with
      | nil => exact hd
      | cons e es => exact hquote

theorem OpensNothing.head?_ne {cs : List Char} (h : OpensNothing cs) : cs.head? ≠ some '"' := by
  intro hquote
  cases cs with
  | nil => cases hquote
  | cons c cs =>
    obtain rfl : c = '"' := Option.some.inj hquote
    rcases h with hplain | ⟨hat, -⟩
    · revert hplain
      decide
    · cases hat

/-- A text that opens nothing is taken as if nothing stood in front, whatever mode it meets
between two tokens. -/
theorem OpensNothing.starts {m : Mode} {c : Char} {cs : List Char} (h : OpensNothing (c :: cs))
    (hm : m.isBetween = true) : m.Starts c cs := by
  rcases h with hplain | ⟨rfl, hquote⟩
  · left
    rw [step_of_isPlain hm hplain, fresh_of_isPlain hplain]
  · by_cases hsign : m.isSign = true
    · exact .inr ⟨hsign, .inl rfl, hquote⟩
    · left
      cases m <;> first | rfl | (exact absurd rfl hsign) | cases hm

theorem Settled.append {cs ds : List Char} (h : Settled cs) (k : Settled ds) :
    Settled (cs ++ ds) := by
  refine ⟨h.opens.append ds k.opens.head?_ne, ?_⟩
  intro m hm
  rw [scan_append, h.scan m hm]
  exact k.scan code rfl

/-- Marks and letters alone are settled. -/
theorem settled_of_isPlain {c : Char} {cs : List Char} (h : (c :: cs).all isPlain = true) :
    Settled (c :: cs) := by
  obtain ⟨hc, hcs⟩ := List.forall_mem_cons.mp (List.all_eq_true.mp h)
  refine ⟨.inl hc, ?_⟩
  intro m hm
  rw [scan_cons, step_of_isPlain hm hc]
  exact scan_plain hcs

/-! ## Names -/

theorem settled_name {text : List Char} (h : IsNameText text) : Settled text := by
  cases text with
  | nil => exact h.elim
  | cons c cs =>
    obtain ⟨hfirst, hrest⟩ := h
    have hplain : ∀ d ∈ cs, isPlain d = true := by
      intro d hd
      exact isPlain_of_isIdentifierContinue (hrest d hd)
    rcases hfirst with hstart | ⟨rfl, hne⟩
    · have hc := isPlain_of_isIdentifierContinue (isIdentifierContinue_of_isIdentifierStart hstart)
      exact settled_of_isPlain (List.all_eq_true.mpr (List.forall_mem_cons.mpr ⟨hc, hplain⟩))
    -- Behind the sign stands a letter, which brings every sign back to code.
    obtain ⟨d, ds, rfl⟩ := List.exists_cons_of_ne_nil hne
    obtain ⟨hd, hds⟩ := List.forall_mem_cons.mp hplain
    refine ⟨.inr ⟨rfl, (settled_of_isPlain (List.all_eq_true.mpr hplain)).opens.head?_ne⟩, ?_⟩
    intro m hm
    have hsign := (alike_step_sign hm (.inl rfl)).1
    rw [scan_cons, scan_cons, step_of_isPlain (isBetween_of_isSign hsign) hd]
    exact scan_plain hds

/-- The names of a list between commas. -/
theorem settled_intercalate {name : String} {names : List String}
    (h : ∀ n ∈ name :: names, IsNameText n.toList) :
    Settled (", ".intercalate (name :: names)).toList := by
  induction names generalizing name with
  | nil =>
    rw [String.intercalate_singleton]
    exact settled_name (h name (List.mem_singleton_self name))
  | cons next names ih =>
    obtain ⟨hname, hnames⟩ := List.forall_mem_cons.mp h
    have hrest := ih hnames
    have hcomma : Settled (", ".toList ++ (", ".intercalate (next :: names)).toList) := by
      refine ⟨.inl (by decide), ?_⟩
      intro m hm
      have hspace : m.scan ", ".toList = space false := by
        show (m.step ',').step ' ' = space false
        rw [step_of_isPlain hm (by decide)]
        decide
      rw [scan_append, hspace]
      exact hrest.scan (space false) rfl
    rw [String.intercalate_cons_cons, String.toList_append, String.toList_append]
    rw [List.append_assoc]
    exact (settled_name hname).append hcomma

end Mode

open Mode (Settled settled_of_isPlain settled_name settled_intercalate)

/-! ## Qualifying names -/

namespace Site

variable {s : Site}

/-- Are all tokens of the tree what the lexer may cut? -/
def AllPieces (s : Site) : Prop := ∀ w ∈ s.tree.leaves, w.IsPiece ∨ w = .endOfText

theorem AllPieces.isNameText (h : s.AllPieces) {w : Token} (hw : w ∈ s.tree.leaves)
    (hk : w.kind = .identifier) : IsNameText w.text.toList := by
  rcases h w hw with hpiece | rfl
  · exact hpiece.name hk
  · cases hk

theorem AllPieces.typeParameterNames (h : s.AllPieces) :
    ∀ n ∈ s.typeParameterNames, IsNameText n.toList := by
  intro n hn
  unfold Site.typeParameterNames at hn
  split at hn
  · cases hn
  rename_i list hlist
  obtain ⟨p, hp, hname⟩ := List.mem_filterMap.mp hn
  obtain ⟨w, hw, rfl⟩ := Option.map_eq_some_iff.mp hname
  obtain ⟨hmem, hk⟩ := declaredName?_eq_some hw
  -- The token stands in a part of a part of the declaration.
  have hlistpart := mem_parts_of_mem_nodes (nodesOf_subset (List.mem_of_mem_head? hlist))
  have hpart := mem_parts_of_mem_nodes (nodesOf_subset hp)
  have haround : s.Around p := (Around.refl.part hlistpart).part hpart
  exact h.isNameText (haround.mem_leaves hmem) hk

theorem settled_qualifyingName {q : String} (h : s.AllPieces) (hq : s.qualifyingName? = some q) :
    Settled q.toList := by
  unfold qualifyingName? at hq
  obtain ⟨w, hw, hq⟩ := Option.bind_eq_some_iff.mp hq
  obtain ⟨hmem, hk⟩ := declaredName?_eq_some hw
  have hname := settled_name (h.isNameText hmem hk)
  have hparameters := h.typeParameterNames
  split at hq
  · obtain rfl : w.text = q := Option.some.inj hq
    exact hname
  · rename_i hne
    cases hlist : s.typeParameterNames with
    | nil => exact absurd hlist hne
    | cons p ps =>
      rw [hlist] at hq hparameters
      obtain rfl := Option.some.inj hq
      have hopen : Settled "<".toList := settled_of_isPlain (by decide)
      have hclose : Settled ">".toList := settled_of_isPlain (by decide)
      have hall := ((hname.append hopen).append (settled_intercalate hparameters)).append hclose
      simpa only [String.toList_append] using hall

end Site

/-! ## Templates -/

theorem settled_memberText {qualifier name : String} (hq : Settled qualifier.toList)
    (hn : Settled name.toList) : Settled (memberText qualifier name).toList := by
  have hdot : Settled ".".toList := settled_of_isPlain (by decide)
  simpa only [memberText, String.toList_append] using (hq.append hdot).append hn

/-- The part of a cast in front of the value. -/
theorem settled_castFront {target : String} (h : Settled target.toList) :
    Settled ("(" ++ target ++ ")(object)").toList := by
  have hopen : Settled "(".toList := settled_of_isPlain (by decide)
  have hclose : Settled ")(object)".toList := settled_of_isPlain (by decide)
  simpa only [String.toList_append] using (hopen.append h).append hclose

theorem settled_castText {target expr : String} (h : Settled target.toList)
    (he : Settled expr.toList) : Settled (castText target expr).toList := by
  simpa only [castText, String.toList_append] using (settled_castFront h).append he

theorem settled_parenthesizedCastText {target expr : String} (h : Settled target.toList)
    (he : Settled expr.toList) : Settled (parenthesizedCastText target expr).toList := by
  have hopen : Settled "(".toList := settled_of_isPlain (by decide)
  have hclose : Settled ")".toList := settled_of_isPlain (by decide)
  have hcast := settled_castText h he
  simpa only [parenthesizedCastText, String.toList_append] using (hopen.append hcast).append hclose

theorem settled_this : Settled "this".toList := settled_of_isPlain (by decide)

end LivePatch
