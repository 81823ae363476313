import LivePatch.Syntax.Tree
import Mathlib.Algebra.GroupWithZero.Nat
import Mathlib.Data.List.Basic

/-!
# Token lists and the leaves of trees

What the reading of a text does to its tokens is said here once, for lists of tokens: a list
`Divides` into another when the two agree but for shifts `>>` that stand in the second as two
closing angle brackets.  The relation is a preorder that respects `++`, so it composes along a
reading, and it keeps the text, which is what makes a reading lossless.

The second half holds the laws of `Tree.leavesAll` over `++`, and the *bare* trees of a list:
those that are no trivia tokens, hence what the grammar sees of a node's parts.
-/

namespace LivePatch

namespace Token

@[simp] theorem textOf_nil : textOf [] = "" := rfl

@[simp] theorem textOf_append (ts us : List Token) :
    textOf (ts ++ us) = textOf ts ++ textOf us := by
  simp [textOf, String.join_append]

@[simp] theorem textOf_cons (t : Token) (ts : List Token) :
    textOf (t :: ts) = t.text ++ textOf ts := by
  simp [textOf, String.join_cons]

theorem utf8ByteSize_textOf (ts : List Token) : (textOf ts).utf8ByteSize = widthOf ts := by
  induction ts with
  | nil => rfl
  | cons t ts ih => rw [textOf_cons, String.utf8ByteSize_append, ih, widthOf_cons, width]

@[simp] theorem isSignificant_eq_false (t : Token) : t.isSignificant = false ↔ t.isTrivia = true := by
  simp [isSignificant]

/-! ## Dividing shifts -/

/-- The shift operator, as the lexer cuts it. -/
def shift : Token := ⟨.rightShift, ">>"⟩

/-- One closing angle bracket. -/
def closingAngle : Token := ⟨.greater, ">"⟩

/-- The second list is the first one in which some shifts have become two closing angle brackets
each; nothing else is added, left out or moved. -/
inductive Divides : List Token → List Token → Prop
  | nil : Divides [] []
  | keep (t : Token) {ts us : List Token} : Divides ts us → Divides (t :: ts) (t :: us)
  | divide {ts us : List Token} : Divides ts us →
      Divides (shift :: ts) (closingAngle :: closingAngle :: us)

namespace Divides

theorem refl : ∀ ts : List Token, Divides ts ts
  | [] => .nil
  | t :: ts => .keep t (refl ts)

theorem append {ts us vs ws : List Token} (h : Divides ts us) (k : Divides vs ws) :
    Divides (ts ++ vs) (us ++ ws) := by
  induction h with
  | nil => exact k
  | keep t _ ih => exact .keep t ih
  | divide _ ih => exact .divide ih

theorem append_left (ts : List Token) {us vs : List Token} (h : Divides us vs) :
    Divides (ts ++ us) (ts ++ vs) :=
  (refl ts).append h

/-- An angle bracket is no shift, so a shift that was divided stays as it is. -/
theorem trans {ts us vs : List Token} (h : Divides ts us) (k : Divides us vs) : Divides ts vs := by
  induction h generalizing vs with
  | nil => exact k
  | keep t h ih =>
    cases k with
    | keep _ k => exact .keep t (ih k)
    | divide k => exact .divide (ih k)
  | divide h ih =>
    cases k with
    | keep _ k =>
      cases k with
      | keep _ k => exact .divide (ih k)

theorem textOf_eq {ts us : List Token} (h : Divides ts us) : textOf us = textOf ts := by
  induction h with
  | nil => rfl
  | keep t _ ih => rw [textOf_cons, textOf_cons, ih]
  | divide _ ih =>
    rw [textOf_cons, textOf_cons, textOf_cons, ih, ← String.append_assoc]
    rfl

theorem widthOf_eq {ts us : List Token} (h : Divides ts us) : widthOf us = widthOf ts := by
  rw [← utf8ByteSize_textOf, h.textOf_eq, utf8ByteSize_textOf]

/-- What the grammar sees divides on its own. -/
theorem filter_isSignificant {ts us : List Token} (h : Divides ts us) :
    Divides (ts.filter isSignificant) (us.filter isSignificant) := by
  induction h with
  | nil => exact .nil
  | keep t _ ih =>
    simp only [List.filter_cons]
    split
    · exact .keep t ih
    · exact ih
  | divide _ ih => exact .divide ih

/-- A property of tokens that the two halves of a shift have carries over. -/
theorem forall_mem {P : Token → Prop} (half : P closingAngle) {ts us : List Token}
    (h : Divides ts us) (all : ∀ t ∈ ts, P t) : ∀ u ∈ us, P u := by
  induction h with
  | nil => exact all
  | keep t _ ih =>
    intro u hu
    rcases List.mem_cons.mp hu with rfl | hu
    · exact all u List.mem_cons_self
    · exact ih (fun t ht => all t (List.mem_cons_of_mem _ ht)) u hu
  | divide _ ih =>
    intro u hu
    rcases List.mem_cons.mp hu with rfl | hu
    · exact half
    rcases List.mem_cons.mp hu with rfl | hu
    · exact half
    · exact ih (fun t ht => all t (List.mem_cons_of_mem _ ht)) u hu

/-- What stands in front of the last token divides on its own when that token is no shift. -/
theorem concat {ts us : List Token} {t : Token} (ht : t.kind ≠ .rightShift)
    (h : Divides (ts ++ [t]) us) : ∃ vs, us = vs ++ [t] ∧ Divides ts vs := by
  induction ts generalizing us with
  | nil =>
    cases h with
    | keep _ h => cases h; exact ⟨[], rfl, .nil⟩
    | divide _ => exact absurd rfl ht
  | cons r ts ih =>
    cases h with
    | keep _ h =>
      obtain ⟨vs, rfl, hv⟩ := ih h
      exact ⟨r :: vs, rfl, .keep r hv⟩
    | divide h =>
      obtain ⟨vs, rfl, hv⟩ := ih h
      exact ⟨closingAngle :: closingAngle :: vs, rfl, .divide hv⟩

end Divides

end Token

namespace Tree

/-- An induction over trees that gives the hypothesis for every part of a node. -/
theorem inductionOn {P : Tree → Prop} (t : Tree) (leaf : ∀ w, P (.token w))
    (part : ∀ k ts, (∀ t ∈ ts, P t) → P (.node k ts)) : P t :=
  @Tree.rec P (fun ts => ∀ t ∈ ts, P t) leaf part (by simp)
    (fun _ _ ht hts => List.forall_mem_cons.mpr ⟨ht, hts⟩) t

/-! ## Leaves of several trees -/

@[simp] theorem leaves_token (t : Token) : leaves (.token t) = [t] := by rw [leaves]

@[simp] theorem leaves_node (k : Kind) (ts : List Tree) : leaves (.node k ts) = leavesAll ts := by
  rw [leaves]

@[simp] theorem leavesAll_nil : leavesAll [] = [] := by rw [leavesAll]

@[simp] theorem leavesAll_cons (t : Tree) (ts : List Tree) :
    leavesAll (t :: ts) = leaves t ++ leavesAll ts := by rw [leavesAll]

@[simp] theorem leavesAll_append (ts us : List Tree) :
    leavesAll (ts ++ us) = leavesAll ts ++ leavesAll us := by
  induction ts with
  | nil => simp
  | cons t ts ih => simp [ih, List.append_assoc]

@[simp] theorem leavesAll_tokens (ts : List Token) : leavesAll (ts.map .token) = ts := by
  induction ts with
  | nil => simp
  | cons t ts ih => simp [ih]

theorem mem_leavesAll {t : Token} {ts : List Tree} :
    t ∈ leavesAll ts ↔ ∃ u ∈ ts, t ∈ u.leaves := by
  induction ts with
  | nil => simp
  | cons u ts ih => simp [ih]

/-- The width of several trees is that of their leaves together. -/
theorem widthOf_leavesAll (ts : List Tree) :
    Token.widthOf (leavesAll ts) = (ts.map width).sum := by
  induction ts with
  | nil => simp
  | cons t ts ih => simp [ih, width]

/-! ## Bare trees -/

/-- Is the tree a trivia token? -/
def isTriviaToken : Tree → Bool
  | .token t => t.isTrivia
  | .node _ _ => false

/-- The trees that are no trivia tokens. -/
def bare (ts : List Tree) : List Tree := ts.filter (!·.isTriviaToken)

@[simp] theorem bare_nil : bare [] = [] := rfl

@[simp] theorem bare_append (ts us : List Tree) : bare (ts ++ us) = bare ts ++ bare us :=
  List.filter_append ..

@[simp] theorem bare_reverse (ts : List Tree) : bare ts.reverse = (bare ts).reverse :=
  List.filter_reverse ..

theorem mem_bare {t : Tree} {ts : List Tree} : t ∈ bare ts ↔ t ∈ ts ∧ t.isTriviaToken = false := by
  simp [bare]

theorem bare_tokens {ts : List Token} (h : ∀ t ∈ ts, t.isTrivia = true) :
    bare (ts.map .token) = [] := by
  simp only [bare, List.filter_eq_nil_iff, List.mem_map, forall_exists_index, and_imp]
  rintro u t ht rfl
  simp [isTriviaToken, h t ht]

/-- Has the tree a leaf that the grammar sees? -/
def isSolid (t : Tree) : Bool := t.leaves.any Token.isSignificant

theorem isSolid_iff {t : Tree} : t.isSolid = true ↔ ∃ w ∈ t.leaves, w.isSignificant = true := by
  simp [isSolid]

theorem isSolid_node {k : Kind} {ts : List Tree} :
    isSolid (.node k ts) = true ↔ ∃ t ∈ ts, t.isSolid = true := by
  constructor
  · intro h
    obtain ⟨w, hw, hs⟩ := isSolid_iff.mp h
    rw [leaves_node] at hw
    obtain ⟨t, ht, hwt⟩ := mem_leavesAll.mp hw
    exact ⟨t, ht, isSolid_iff.mpr ⟨w, hwt, hs⟩⟩
  · rintro ⟨t, ht, h⟩
    obtain ⟨w, hw, hs⟩ := isSolid_iff.mp h
    refine isSolid_iff.mpr ⟨w, ?_, hs⟩
    rw [leaves_node]
    exact mem_leavesAll.mpr ⟨t, ht, hw⟩

end Tree

end LivePatch
