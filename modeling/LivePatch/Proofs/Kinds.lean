import LivePatch.Syntax.Kind

/-!
# All kinds

`Kind.all` lists every kind at the place of its number, so a decidable property holds of all kinds
if evaluation finds that it holds of those in the list (`Kind.forall_of_all`).
-/

namespace LivePatch.Kind

theorem number_lt (k : Kind) : k.number < 249 := by
  cases k <;> decide

set_option maxRecDepth 10000 in
theorem all_eq_map : all = (List.range 249).map ofNat := by
  decide +kernel

theorem getElem?_all (k : Kind) : all[k.number]? = some k := by
  rw [all_eq_map, List.getElem?_map, List.getElem?_range k.number_lt]
  exact congrArg some (ofNat_ctorIdx k)

theorem mem_all (k : Kind) : k ∈ all := List.mem_of_getElem? (getElem?_all k)

/-- What all listed kinds have, all kinds have. -/
theorem forall_of_all {p : Kind → Prop} (h : ∀ k ∈ all, p k) (k : Kind) : p k := h k (mem_all k)

end LivePatch.Kind
