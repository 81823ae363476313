import LivePatch.Patch.Rule
import Mathlib.Data.List.Infix
import Mathlib.Data.Option.Basic

/-!
# Edit scripts

The edits of a pass are meant as a script: made at their spans, from front to back, they turn the
one text into the other, and nothing else changes.  `splice?` makes them, and `IsScript` says what
a user of the edits may rely on.

A `Script` is the same thing put together piece by piece, so that it can be carried along a walk
over a tree: scripts of neighbouring texts append to one of both.
-/

namespace LivePatch

/-! ## Dividing texts at bytes -/

theorem byteLength_append (cs ds : List Char) :
    byteLength (cs ++ ds) = byteLength cs + byteLength ds := by
  induction cs with
  | nil => simp [byteLength]
  | cons c cs ih =>
    rw [List.cons_append, byteLength, byteLength, ih]
    omega

theorem byteLength_toList (s : String) : byteLength s.toList = s.utf8ByteSize := by
  obtain ⟨cs, rfl⟩ : ∃ cs, s = String.ofList cs := ⟨s.toList, by simp⟩
  rw [String.toList_ofList]
  induction cs with
  | nil => rfl
  | cons c cs ih =>
    rw [byteLength, ih, String.ofList_cons, String.utf8ByteSize_append,
      String.utf8ByteSize_singleton]

theorem byteLength_pos {cs : List Char} (h : cs ≠ []) : 0 < byteLength cs := by
  obtain ⟨c, cs, rfl⟩ := List.exists_cons_of_ne_nil h
  have hc := c.utf8Size_pos
  rw [byteLength]
  omega

/-- A text divides behind any front part. -/
theorem splitAtByte?_append (cs ds : List Char) :
    splitAtByte? (byteLength cs) (cs ++ ds) = some (cs, ds) := by
  induction cs with
  | nil => cases ds <;> rfl
  | cons c cs ih =>
    have hc := c.utf8Size_pos
    rw [List.cons_append, byteLength, splitAtByte?, if_neg (by simp; omega), if_pos (by omega),
      Nat.add_sub_cancel_left, ih]
    rfl

/-- The span behind `front` that is as wide as `core` holds it. -/
theorem Span.slice?_append (front core back : List Char) :
    Span.slice? ⟨byteLength front, byteLength front + byteLength core⟩ (front ++ (core ++ back)) =
      some core := by
  rw [Span.slice?, splitAtByte?_append, Span.width, Nat.add_sub_cancel_left]
  simp [splitAtByte?_append]

/-! ## Making edits -/

namespace Edit

/-- What an edit writes: the new text, and the comment of its rule if comments are asked for. -/
def written (comments : Bool) (e : Edit) : String :=
  e.after ++ if comments then e.rule.comment else ""

/-- The text that starts at byte `start` with the edits made.  There is none if a span does not
fit. -/
def splice? (comments : Bool) (start : Nat) (text : List Char) : List Edit → Option (List Char)
  | [] => some text
  | e :: es => do
    guard (start ≤ e.span.start)
    let (gap, rest) ← splitAtByte? (e.span.start - start) text
    let (_, back) ← splitAtByte? e.span.width rest
    let out ← splice? comments e.span.stop back es
    return gap ++ (e.written comments).toList ++ out

/-- **The edits are a script** that turns `text` into `result` and only inserts: their spans lie in
the text, in order and apart; each edit replaces what it says, by something that holds it; and the
result is the text with the edits made. -/
structure IsScript (comments : Bool) (text : String) (edits : List Edit) (result : String) :
    Prop where
  inside : ∀ e ∈ edits, e.span.start < e.span.stop ∧ e.span.stop ≤ text.utf8ByteSize
  ordered : edits.Pairwise fun e f => e.span.stop ≤ f.span.start
  replaced : ∀ e ∈ edits, e.span.slice? text.toList = some e.before.toList
  kept : ∀ e ∈ edits, e.before.toList <:+: e.after.toList
  spliced : splice? comments 0 text.toList edits = some result.toList

/-- The edit replaces `old`, which stands behind `gap` in a text that starts at `start`, by
something that holds it. -/
structure Fits (e : Edit) (start : Nat) (gap old : List Char) : Prop where
  span : e.span = ⟨start + byteLength gap, start + byteLength gap + byteLength old⟩
  before_eq : e.before.toList = old
  ne_nil : old ≠ []
  kept : old <:+: e.after.toList

/-- The edits turn the text that starts at byte `start` into another one. -/
inductive Script (comments : Bool) : Nat → List Char → List Edit → List Char → Prop
  | done (start : Nat) (text : List Char) : Script comments start text [] text
  | edit {start : Nat} {e : Edit} {es : List Edit} {gap before rest out : List Char} :
      e.Fits start gap before → Script comments e.span.stop rest es out →
      Script comments start (gap ++ before ++ rest) (e :: es)
        (gap ++ (e.written comments).toList ++ out)

namespace Script

variable {comments : Bool} {start : Nat} {text text' out out' : List Char} {es fs : List Edit}

/-- A text in front that stays as it is. -/
theorem skip (front : List Char) (h : Script comments (start + byteLength front) text es out) :
    Script comments start (front ++ text) es (front ++ out) := by
  cases h with
  | done => exact .done start (front ++ text)
  | @edit _ e es gap before rest out hfits hrest =>
    have hfits' : e.Fits start (front ++ gap) before := by
      refine ⟨?_, hfits.before_eq, hfits.ne_nil, hfits.kept⟩
      rw [hfits.span, byteLength_append, Nat.add_assoc start]
    have hscript := Script.edit hfits' hrest
    simpa only [List.append_assoc] using hscript

/-- **Scripts of neighbouring texts** append. -/
theorem append (h : Script comments start text es out)
    (k : Script comments (start + byteLength text) text' fs out') :
    Script comments start (text ++ text') (es ++ fs) (out ++ out') := by
  induction h with
  | done start text => exact k.skip text
  | @edit start e es gap before rest out hfits _ ih =>
    have hstop : e.span.stop + byteLength rest =
        start + byteLength (gap ++ before ++ rest) := by
      rw [hfits.span, byteLength_append, byteLength_append]
      simp only
      omega
    rw [← hstop] at k
    have hscript := Script.edit hfits (ih k)
    simpa only [List.append_assoc, List.cons_append] using hscript

/-- The spans of a script lie in its text and are not empty. -/
theorem inside (h : Script comments start text es out) :
    ∀ e ∈ es, start ≤ e.span.start ∧ e.span.start < e.span.stop ∧
      e.span.stop ≤ start + byteLength text := by
  induction h with
  | done => exact List.forall_mem_nil _
  | @edit start e es gap before rest out hfits _ ih =>
    have hpos := byteLength_pos hfits.ne_nil
    intro f hf
    rw [byteLength_append, byteLength_append]
    have hspan := hfits.span
    rcases List.mem_cons.mp hf with rfl | hf
    · rw [hspan]
      simp only
      omega
    · obtain ⟨hstart, hne, hstop⟩ := ih f hf
      rw [hspan] at hstart hstop
      simp only at hstart hstop
      omega

theorem ordered (h : Script comments start text es out) :
    es.Pairwise fun e f => e.span.stop ≤ f.span.start := by
  induction h with
  | done => exact .nil
  | edit _ hrest ih =>
    refine .cons (fun f hf => ?_) ih
    exact (hrest.inside f hf).1

theorem kept (h : Script comments start text es out) :
    ∀ e ∈ es, e.before.toList <:+: e.after.toList := by
  induction h with
  | done => exact List.forall_mem_nil _
  | edit hfits _ ih =>
    refine List.forall_mem_cons.mpr ⟨?_, ih⟩
    rw [hfits.before_eq]
    exact hfits.kept

/-- Each edit replaces what stands at its span, also when the text has something in front. -/
theorem replaced (h : Script comments start text es out) (front : List Char)
    (hfront : byteLength front = start) :
    ∀ e ∈ es, e.span.slice? (front ++ text) = some e.before.toList := by
  induction h generalizing front with
  | done => exact List.forall_mem_nil _
  | @edit start e es gap before rest out hfits _ ih =>
    refine List.forall_mem_cons.mpr ⟨?_, ?_⟩
    · have hslice := Span.slice?_append (front ++ gap) before rest
      rw [byteLength_append, hfront, ← hfits.span] at hslice
      rw [List.append_assoc gap, ← List.append_assoc front, hslice, hfits.before_eq]
    · have hstop : byteLength (front ++ gap ++ before) = e.span.stop := by
        rw [hfits.span, byteLength_append, byteLength_append, hfront]
      have hrest := ih (front ++ gap ++ before) hstop
      simpa only [List.append_assoc] using hrest

theorem spliced (h : Script comments start text es out) :
    splice? comments start text es = some out := by
  induction h with
  | done => rfl
  | @edit start e es gap before rest out hfits _ ih =>
    have hgap : e.span.start - start = byteLength gap := by
      rw [hfits.span]
      simp
    have hwidth : e.span.width = byteLength before := by
      rw [Span.width, hfits.span]
      simp
    have hle : start ≤ e.span.start := by
      rw [hfits.span]
      simp
    rw [splice?, hgap, hwidth, List.append_assoc, splitAtByte?_append]
    simp [guard, hle, splitAtByte?_append, ih]

/-- A script of a whole text is one that a user may rely on. -/
theorem isScript {text result : String}
    (h : Script comments 0 text.toList es result.toList) : IsScript comments text es result := by
  refine ⟨?_, h.ordered, ?_, h.kept, h.spliced⟩
  · intro e he
    have := h.inside e he
    rw [byteLength_toList] at this
    omega
  · exact h.replaced [] rfl

end Script

end Edit

end LivePatch
