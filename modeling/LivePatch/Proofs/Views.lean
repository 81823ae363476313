import LivePatch.Proofs.TriviaIndependence
import LivePatch.Syntax.View

/-!
# What a node shows of its parts

The views of a node look at the nodes and tokens among its parts.  Most of them ask for the trees of
these nodes only, and not for their places, so that they can be read off the tree of the node; and
none of them asks for trivia, so that they do not change when trivia is left out.
-/

namespace LivePatch

variable {p : Token → Bool}

namespace Site

theorem partsFrom_map_tree (s : Site) (index start : Nat) (ts : List Tree) :
    (s.partsFrom index start ts).map (·.tree) = ts := by
  induction ts generalizing index start with
  | nil => rfl
  | cons t ts ih => rw [partsFrom, List.map_cons, ih]

theorem nodesWith_map_tree (s : Site) (q : Kind → Bool) :
    (s.nodesWith q).map (·.tree) = s.tree.children.filter fun t => t.isNode && q t.kind := by
  rw [nodesWith, nodes, List.filter_filter]
  have hparts := congrArg (List.filter fun t => t.isNode && q t.kind)
    (s.partsFrom_map_tree 0 s.start s.tree.children)
  rw [List.filter_map] at hparts
  rw [← hparts]
  congr 2
  funext n
  exact Bool.and_comm _ _

end Site

namespace Tree

@[simp] theorem isNode_token (w : Token) : (token w).isNode = false := rfl

@[simp] theorem isNode_node (k : Kind) (ts : List Tree) : (node k ts).isNode = true := rfl

@[simp] theorem kind_node (k : Kind) (ts : List Tree) : (node k ts).kind = k := rfl

theorem kind_without (t : Tree) : (t.without p).kind = t.kind := by
  cases t <;> simp [kind]

/-- The nodes among trees from which tokens are left out. -/
theorem filter_withoutAll (q : Kind → Bool) (ts : List Tree) :
    (withoutAll p ts).filter (fun t => t.isNode && q t.kind) =
      (ts.filter fun t => t.isNode && q t.kind).map (without p) := by
  induction ts with
  | nil => rfl
  | cons t ts ih =>
    cases t with
    | token w =>
      rw [withoutAll_token]
      split <;> simp [ih]
    | node k us => by_cases hk : q k = true <;> simp [hk, ih]

/-- The tokens among them. -/
theorem tokens_withoutAll (ts : List Tree) :
    (withoutAll p ts).filterMap token? = (ts.filterMap token?).filter (!p ·) := by
  induction ts with
  | nil => rfl
  | cons t ts ih =>
    cases t with
    | token w =>
      rw [withoutAll_token]
      by_cases hw : p w = true <;> simp [token?, hw, ih]
    | node k us =>
      rw [withoutAll_node, List.filterMap_cons_none rfl, List.filterMap_cons_none rfl, ih]

theorem children_without (t : Tree) : (t.without p).children = withoutAll p t.children := by
  cases t <;> simp [children]

end Tree

namespace Site

variable (s : Site)

theorem nodes_map_without :
    s.nodes.map (fun n => n.tree.without p) = (s.tree.without p).children.filter Tree.isNode := by
  have hall : s.nodes.map (·.tree) = s.tree.children.filter Tree.isNode := by
    have hnodes := s.nodesWith_map_tree fun _ => true
    simpa [nodesWith] using hnodes
  have hshown := Tree.filter_withoutAll (p := p) (fun _ => true) s.tree.children
  simp only [Bool.and_true] at hshown
  rw [Tree.children_without, hshown, ← hall, List.map_map]
  rfl

theorem tokens_filter :
    s.tokens.filter (!p ·) = (s.tree.without p).children.filterMap Tree.token? := by
  rw [Tree.children_without, Tree.tokens_withoutAll]
  rfl

/-- A token of a kind that is left out nowhere is found also when others are left out. -/
theorem token?_eq_without {k : Kind} (hk : ∀ w, p w = true → w.kind ≠ k) :
    s.token? k = ((s.tree.without p).children.filterMap Tree.token?).find? (·.kind == k) := by
  rw [← tokens_filter, List.find?_filter]
  refine congrArg (List.find? · s.tokens) (funext fun w => ?_)
  cases hw : p w with
  | false => simp [Bool.beq_eq_decide_eq]
  | true => simpa using hk w hw

end Site

end LivePatch
