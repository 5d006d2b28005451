import Provisioning.Json.Emission
import Provisioning.Proofs.Json.Values

/-!
# What is told of a value makes its tree

A value is told with its names as keys, and a name is a text, so no key is refused. What could still
be different is a number: an infinity or a NaN, which has no tree of its own. Of a value without
floating-point numbers the parts make the tree (`Json.toTree_emission`).
-/

set_option autoImplicit false

namespace Provisioning.Json

open Emission

theorem toTreeItems_emission {items : List Json}
    (h : ∀ item ∈ items, item.emission.toTree = .ok item.tree) :
    toTreeItems (emissionItems items) = .ok (treeItems items) := by
  induction items with
  | nil => rfl
  | cons item items ih =>
    obtain ⟨hitem, hitems⟩ := List.forall_mem_cons.mp h
    rw [emissionItems, toTreeItems, hitem, ih hitems]
    rfl

theorem toTreeEntries_emission {members : List (String × Json)}
    (h : ∀ m ∈ members, m.2.emission.toTree = .ok m.2.tree) :
    toTreeEntries (emissionMembers members) = .ok (treeMembers members) := by
  induction members with
  | nil => rfl
  | cons m members ih =>
    obtain ⟨hm, hmembers⟩ := List.forall_mem_cons.mp h
    rw [emissionMembers, toTreeEntries, name, hm, ih hmembers]
    rfl

theorem toTree_scalar {value : Scalar} (h : NoFloat (scalar value)) :
    (Emission.scalar value).toTree = .ok (.scalar value) := by
  cases value with
  | float x => exact h.elim
  | null => rfl
  | bool _ => rfl
  | integer _ => rfl
  | string _ => rfl

theorem toTree_emission {value : Json} (h : value.Exact) :
    value.emission.toTree = .ok value.tree := by
  induction value with
  | scalar value =>
    rw [emission, tree]
    exact toTree_scalar (everywhere_scalar.mp h)
  | array items ih =>
    have hitems : ∀ item ∈ items, item.emission.toTree = .ok item.tree := fun item hitem =>
      ih item hitem ((everywhere_array.mp h).2 item hitem)
    rw [emission, toTree, toTreeItems_emission hitems, tree]
    rfl
  | object members ih =>
    have hmembers : ∀ m ∈ members, m.2.emission.toTree = .ok m.2.tree := fun m hm =>
      ih m hm ((everywhere_object.mp h).2 m hm)
    rw [emission, toTree, toTreeEntries_emission hmembers, tree]
    rfl

end Provisioning.Json
