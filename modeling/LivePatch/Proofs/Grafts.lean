import LivePatch.Proofs.Insertions
import LivePatch.Proofs.Regularity

/-!
# Words in place of words

The passes over static fields and over `this` replace nodes that stand for one word.  Seen from the
leaves, such a pass puts tokens in place of single tokens and leaves all others as they are:
`Grafts`.  Each graft is known together with the tokens in front of it, so that one can ask how
the new tokens join up with what they stand behind.

`Decision.Rewords` says of a decision that it is of this kind.  Such a decision only inserts, and
its revisions graft.
-/

namespace LivePatch

open Token (Edges textOf)

/-! ## Grafts -/

/-- The second list is the first one, which stands behind `before`, with other tokens in place of
some words.  Each of them satisfies `R`, together with the tokens in front of it. -/
inductive Token.Grafts (R : List Token → Token → List Token → Prop) :
    List Token → List Token → List Token → Prop
  | nil (before : List Token) : Grafts R before [] []
  | keep {before ts us : List Token} (w : Token) : Grafts R (before ++ [w]) ts us →
      Grafts R before (w :: ts) (w :: us)
  | graft {before new ts us : List Token} {w : Token} : R before w new →
      Grafts R (before ++ [w]) ts us → Grafts R before (w :: ts) (new ++ us)

namespace Token.Grafts

variable {R : List Token → Token → List Token → Prop} {before ts us vs ws : List Token}

theorem refl (before ts : List Token) : Grafts R before ts ts := by
  induction ts generalizing before with
  | nil => exact .nil before
  | cons w ts ih => exact .keep w (ih _)

theorem append (h : Grafts R before ts us) (k : Grafts R (before ++ ts) vs ws) :
    Grafts R before (ts ++ vs) (us ++ ws) := by
  induction h with
  | nil => simpa using k
  | keep w _ ih => exact .keep w (ih (by simpa using k))
  | graft hR _ ih =>
    rw [List.append_assoc]
    exact .graft hR (ih (by simpa using k))

/-- What becomes of two neighbouring lists. -/
theorem of_append (h : Grafts R before (ts ++ vs) ws) :
    ∃ us us', ws = us ++ us' ∧ Grafts R before ts us ∧ Grafts R (before ++ ts) vs us' := by
  induction ts generalizing before ws with
  | nil => exact ⟨[], ws, rfl, .nil before, by simpa using h⟩
  | cons w ts ih =>
    cases h with
    | keep _ h =>
      obtain ⟨us, us', rfl, hts, hvs⟩ := ih h
      exact ⟨w :: us, us', rfl, .keep w hts, by simpa using hvs⟩
    | @graft _ new _ _ _ hR h =>
      obtain ⟨us, us', rfl, hts, hvs⟩ := ih h
      exact ⟨new ++ us, us', by simp, .graft hR hts, by simpa using hvs⟩

theorem eq_of_forall_not (h : Grafts R before ts us)
    (hnone : ∀ w ∈ ts, ∀ before new, ¬R before w new) : us = ts := by
  induction h with
  | nil => rfl
  | keep w _ ih => rw [ih fun v hv => hnone v (List.mem_cons_of_mem _ hv)]
  | graft hR _ _ => exact absurd hR (hnone _ List.mem_cons_self _ _)

theorem forall_mem {P : Token → Prop} (hR : ∀ before w new, R before w new → ∀ v ∈ new, P v)
    (h : Grafts R before ts us) (hts : ∀ w ∈ ts, P w) : ∀ v ∈ us, P v := by
  induction h with
  | nil => exact List.forall_mem_nil _
  | keep w _ ih =>
    obtain ⟨hw, hts⟩ := List.forall_mem_cons.mp hts
    exact List.forall_mem_cons.mpr ⟨hw, ih hts⟩
  | graft hgraft _ ih =>
    intro v hv
    rcases List.mem_append.mp hv with hv | hv
    · exact hR _ _ _ hgraft v hv
    · exact ih (List.forall_mem_cons.mp hts).2 v hv

theorem exists_mem {P : Token → Prop} (hR : ∀ before w new, R before w new → ∃ v ∈ new, P v)
    (h : Grafts R before ts us) (hts : ∃ w ∈ ts, P w) : ∃ v ∈ us, P v := by
  induction h with
  | nil => exact hts
  | keep w _ ih =>
    obtain ⟨v, hv, hP⟩ := hts
    rcases List.mem_cons.mp hv with rfl | hv
    · exact ⟨v, List.mem_cons_self, hP⟩
    · obtain ⟨u, hu, hP⟩ := ih ⟨v, hv, hP⟩
      exact ⟨u, List.mem_cons_of_mem _ hu, hP⟩
  | graft hgraft _ _ =>
    obtain ⟨v, hv, hP⟩ := hR _ _ _ hgraft
    exact ⟨v, List.mem_append_left _ hv, hP⟩

/-- A mode that follows the words follows what is put in place of them. -/
theorem follows (hR : ∀ before w new, R before w new → ∀ (m : Mode) (rest : List Token),
      m.Follows (w :: rest) → m.Follows (new ++ rest))
    {m : Mode} (h : Grafts R before ts us) (hm : m.Follows ts) : m.Follows us := by
  induction h generalizing m with
  | nil => trivial
  | keep w _ ih => exact ⟨hm.1, ih hm.2⟩
  | graft hgraft _ ih => exact hR _ _ _ hgraft m _ ⟨hm.1, ih hm.2⟩

end Token.Grafts

/-! ## What stands in front -/

/-- The leaves in front of a site. -/
def Site.leavesBefore (s : Site) : List Token :=
  s.trail.reverse.flatMap fun c => Tree.leavesAll (c.parent.children.take c.index)

theorem Site.leavesBefore_cons (t : Tree) (start : Nat) (c : Crumb) (trail : List Crumb) :
    leavesBefore ⟨t, start, c :: trail⟩ = leavesBefore ⟨c.parent, c.start, trail⟩ ++
      Tree.leavesAll (c.parent.children.take c.index) := by
  simp [leavesBefore]

/-! ## Decisions about words -/

namespace Decision

variable {d : Decision} {root : Tree} {comments : Bool}

/-- On the tree `root`, something is decided only for nodes that stand for a word, and it is to
put a settled text that holds the word in place of it. -/
def Rewords (d : Decision) (root : Tree) : Prop :=
  ∀ ⦃n rebuilt p⦄, (Site.root root).Around n → n.tree.isNode = true → d n rebuilt = some p →
    n.kind.isExpression = true ∧ Mode.Settled p.template.toList ∧
      ∃ w : Token, n.tree.IsWord w ∧ Mode.Settled w.text.toList ∧
        w.text.toList <:+: p.template.toList

/-- The tokens `new` are put in place of the word `w` behind `before`, as decided for the node that
stands for the word. -/
structure IsGraft (d : Decision) (root : Tree) (comments : Bool) (n : Site) (p : Proposal)
    (made : Tree) (before : List Token) (w : Token) (new : List Token) : Prop where
  around : (Site.root root).Around n
  isWord : n.tree.IsWord w
  decided : d n n.tree = some p
  synthesized : synthesize p.template = .ok made
  before_eq : before = n.leavesBefore ++ n.tree.leadingTrivia
  new_eq : new = made.leaves ++ Tree.mark comments p.rule

/-- The grafts that a decision makes. -/
def Grafting (d : Decision) (root : Tree) (comments : Bool) (before : List Token) (w : Token)
    (new : List Token) : Prop :=
  ∃ n p made, d.IsGraft root comments n p made before w new

theorem spells_of_settled {template : String} {made : Tree}
    (h : Mode.Settled template.toList) (hmade : synthesize template = .ok made) :
    made.Spells template := by
  refine (synthesized_of_ok hmade).spells h.opens ?_
  rw [h.scan _ rfl]
  rfl

theorem Rewords.spells (h : d.Rewords root) {n : Site} {rebuilt made : Tree} {p : Proposal}
    (hn : (Site.root root).Around n) (hnode : n.tree.isNode = true)
    (hp : d n rebuilt = some p) (hmade : synthesize p.template = .ok made) :
    made.Spells p.template :=
  spells_of_settled (h hn hnode hp).2.1 hmade

theorem ne_empty_of_settled {w : Token} (h : Mode.Settled w.text.toList) : w.text ≠ "" := by
  intro hempty
  rw [hempty] at h
  exact h.opens

theorem Rewords.apart (h : d.Rewords root) : d.Apart root := by
  intro n hn rebuilt p hp q hq m hm hnode
  obtain ⟨-, -, w, hword, -⟩ := h hn (Site.isNode_of_mem_parts hq) hp
  have hqnode := hm.isNode hnode
  rw [hword.isNode_eq_false _ (Site.tree_mem_of_mem_parts hq)] at hqnode
  cases hqnode

/-- A decision about words only inserts. -/
theorem Rewords.inserts (h : d.Rewords root) : d.Inserts root := by
  refine ⟨h.apart, ?_⟩
  intro n p made hn hnode hp hmade
  obtain ⟨hexpr, -, w, hword, hsettled, hkept⟩ := h hn hnode hp
  refine ⟨hexpr, hword.isSolid, ?_, ?_, h.spells hn hnode hp hmade⟩
  · rw [hword.coreText_eq]
    exact ne_empty_of_settled hsettled
  · rwa [hword.coreText_eq]

/-- **A revision by a decision about words grafts.** -/
theorem Rewords.grafts (h : d.Rewords root) {n : Site} {t' : Tree} {es : List Edit}
    (hn : (Site.root root).Around n)
    (hrev : d.revise comments n.trail n.start n.tree = .ok (t', es)) :
    Token.Grafts (d.Grafting root comments) n.leavesBefore n.tree.leaves t'.leaves := by
  refine revise_induction_of_apart h.apart
    (P := fun n t' _ =>
      Token.Grafts (d.Grafting root comments) n.leavesBefore n.tree.leaves t'.leaves)
    (Q := fun n index _ ts ts' _ => n.tree.children.drop index = ts →
      Token.Grafts (d.Grafting root comments)
        (n.leavesBefore ++ Tree.leavesAll (n.tree.children.take index))
        (Tree.leavesAll ts) (Tree.leavesAll ts'))
    ?_ ?_ ?_ ?_ ?_ hn hrev
  · intro w start trail
    exact .refl _ _
  · intro n index start _
    exact .refl _ _
  · intro n index start t ts t' ts' es fs _ _ hfirst hrest hdrop
    have hget : n.tree.children[index]? = some t := by
      rw [← List.head?_drop, hdrop, List.head?_cons]
    have hnext : n.tree.children.drop (index + 1) = ts := by
      rw [← List.tail_drop, hdrop, List.tail_cons]
    rw [Site.leavesBefore_cons] at hfirst
    rw [Tree.leavesAll_cons, Tree.leavesAll_cons]
    refine hfirst.append ?_
    have htake := hrest hnext
    rw [List.take_add_one, hget, Option.toList_some, Tree.leavesAll_append,
      ← List.append_assoc] at htake
    simpa using htake
  · intro n k ts ts' es _ htree hparts
    have hchildren : n.tree.children = ts := by rw [htree]; rfl
    have hall := hparts (by rw [List.drop_zero, hchildren])
    rw [htree, Tree.leaves_node, Tree.leaves_node]
    simpa using hall
  · intro n p made hn hnode hp hmade
    obtain ⟨-, -, w, hword, -⟩ := h hn hnode hp
    obtain ⟨lead, trail, hedges⟩ := hword.edges
    have hlead := Tree.leadingTrivia_of_edges hedges
    have hgraft : d.Grafting root comments (n.leavesBefore ++ lead) w
        (made.leaves ++ Tree.mark comments p.rule) :=
      ⟨n, p, made, hn, hword, hp, hmade, by rw [hlead], rfl⟩
    rw [Tree.leaves_finish comments p.rule hedges (synthesized_of_ok hmade).isNode, hedges.eq]
    have hone : Token.Grafts (d.Grafting root comments) (n.leavesBefore ++ lead) ([w] ++ trail)
        ((made.leaves ++ Tree.mark comments p.rule) ++ trail) := .graft hgraft (.refl _ _)
    simpa using (Token.Grafts.refl _ lead).append hone

end Decision

end LivePatch
