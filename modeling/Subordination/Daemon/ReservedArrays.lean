import Subordination.Daemon.EndlessTraversals

/-!
# Reserved arrays

`nodes`, `lower_nodes` and `upper_nodes` reserve room for one record more than the table has, and then let `traverse`
append to the array, while it holds a reference to a record there. The reference is good as long as the array does not
grow beyond what has been reserved.

One way finds at most as many records as there are in the table. `nodes` goes both ways, with the own record in the
array twice, so that there may be one record too many.

## What is proved

* `traverseReserved_iff` — a traversal keeps to what is reserved if it finds nothing, or no more than that.
* **`nodesInMemory_of_reserved`** — and then its reference is good, whatever else the memory has room for.
* **`keepsReserve_iff`** — which traversals do.
-/

namespace Subordination.Daemon

open Subordination.Core Subordination.Library

namespace Hierarchy

/-! ### The loops -/

/-- The innermost loop of `traverse`. It gives up where an `emplace_back` makes the array larger than what is
reserved, while the reference `a` is held. -/
def visitReserved (pred : List HierarchyNode → HierarchyNode → HierarchyNode → Bool) (reserved : ℕ)
    (a : HierarchyNode) : List HierarchyNode → List HierarchyNode → Option (List HierarchyNode)
  | [], result => some result
  | b :: bs, result =>
    if pred result b a then
      if result.length < reserved then visitReserved pred reserved a bs (result ++ [b]) else none
    else visitReserved pred reserved a bs result

/-- The loops of `traverse` over the array and the table. -/
def visitAllReserved (h : Hierarchy) (pred : List HierarchyNode → HierarchyNode → HierarchyNode → Bool) (reserved : ℕ)
    (as result : List HierarchyNode) : Option (List HierarchyNode) :=
  as.foldlM (fun result a => visitReserved pred reserved a h.records result) result

/-- `traverse`, as long as it keeps to what is reserved. -/
def traverseReserved (h : Hierarchy) (pred : List HierarchyNode → HierarchyNode → HierarchyNode → Bool)
    (reserved : ℕ) : ℕ → ℕ → List HierarchyNode → Option (List HierarchyNode)
  | 0, _, result => some result
  | radius + 1, j0, result => do
    let result' ← h.visitAllReserved pred reserved (result.drop j0) result
    if result'.length = result.length then some result'
    else h.traverseReserved pred reserved radius result.length result'

/-- What the functions reserve: `_nodes.size()+1`. -/
def reserved (h : Hierarchy) : ℕ := h.records.length + 1

/-- `nodes(radius)`. Nothing refers to the array when the own record is appended for the second time. -/
def nodesReserved (h : Hierarchy) (radius : ℕ) : Option (List HierarchyNode) := do
  let result ← h.traverseReserved isSubordinate h.reserved radius 0 [h.thisNode]
  let oldSize := result.length
  let result ← h.traverseReserved isNewSuperior h.reserved radius 0 (result ++ [h.thisNode])
  pure (result.eraseIdx oldSize)

/-- `lower_nodes(from, depth)`. -/
def lowerNodesReserved (h : Hierarchy) (node : HierarchyNode) (depth : ℕ) : Option (List HierarchyNode) :=
  h.traverseReserved isSubordinate h.reserved depth 0 [node]

/-- `upper_nodes(from, depth)`. -/
def upperNodesReserved (h : Hierarchy) (node : HierarchyNode) (depth : ℕ) : Option (List HierarchyNode) :=
  h.traverseReserved isNewSuperior h.reserved depth 0 [node]

/-- The traversals keep to what is reserved, and none of them looks at memory that the array has left. -/
structure KeepsReserve (h : Hierarchy) (radius : ℕ) : Prop where
  /-- `nodes`. -/
  nodes : ∃ listed, h.nodesReserved radius = some listed ∧ ∀ spare, h.nodesInMemory spare radius = some listed
  /-- `lower_nodes`. -/
  lower : ∀ node, ∃ listed, h.lowerNodesReserved node radius = some listed ∧
    ∀ spare, h.lowerNodesInMemory spare node radius = some listed
  /-- `upper_nodes`. -/
  upper : ∀ node, ∃ listed, h.upperNodesReserved node radius = some listed ∧
    ∀ spare, h.upperNodesInMemory spare node radius = some listed

/-! ### What keeps to the reserve -/

/-- An array that grows from one size to another does not grow beyond a third one. -/
def StaysWithin (reserved before after : ℕ) : Prop := after = before ∨ after ≤ reserved

theorem staysWithin_trans {reserved before middle after : ℕ} (hle : before ≤ middle) (hle' : middle ≤ after) :
    StaysWithin reserved before middle ∧ StaysWithin reserved middle after ↔ StaysWithin reserved before after := by
  simp only [StaysWithin]
  omega

section Reserve

variable {h : Hierarchy} {pred : List HierarchyNode → HierarchyNode → HierarchyNode → Bool} {a node : HierarchyNode}
  {v : NodeArray} {as xs result listed : List HierarchyNode} {n j0 depth radius reserved spare : ℕ}

/-- An array that is left alone keeps to any reserve. -/
theorem some_eq_iff_staysWithin : some result = some listed ↔
    listed = result ∧ StaysWithin reserved result.length listed.length := by
  rw [Option.some.injEq]
  constructor
  · rintro rfl
    exact ⟨rfl, Or.inl rfl⟩
  · rintro ⟨rfl, -⟩
    rfl

/-- One loop after another keeps to the reserve if both do. -/
theorem bind_eq_iff_staysWithin {first : Option (List HierarchyNode)}
    {second : List HierarchyNode → Option (List HierarchyNode)} {middle after : List HierarchyNode}
    (hfirst : ∀ l, first = some l ↔ l = middle ∧ StaysWithin reserved result.length l.length)
    (hsecond : ∀ l, second middle = some l ↔ l = after ∧ StaysWithin reserved middle.length l.length)
    (hle : result.length ≤ middle.length) (hle' : middle.length ≤ after.length) :
    first.bind second = some listed ↔ listed = after ∧ StaysWithin reserved result.length listed.length := by
  constructor
  · intro hbind
    obtain ⟨l, hl, hbind⟩ := Option.bind_eq_some_iff.1 hbind
    obtain ⟨rfl, hstays⟩ := (hfirst l).1 hl
    obtain ⟨rfl, hstays'⟩ := (hsecond listed).1 hbind
    exact ⟨rfl, (staysWithin_trans hle hle').1 ⟨hstays, hstays'⟩⟩
  · rintro ⟨rfl, hstays⟩
    obtain ⟨hstays, hstays'⟩ := (staysWithin_trans hle hle').2 hstays
    exact Option.bind_eq_some_iff.2 ⟨middle, (hfirst middle).2 ⟨rfl, hstays⟩, (hsecond listed).2 ⟨rfl, hstays'⟩⟩

theorem visitReserved_iff : visitReserved pred reserved a xs result = some listed ↔
    listed = xs.foldl (fun result b => if pred result b a then result ++ [b] else result) result ∧
      StaysWithin reserved result.length listed.length := by
  induction xs generalizing result with
  | nil =>
    rw [visitReserved, List.foldl_nil]
    exact some_eq_iff_staysWithin
  | cons b xs ih =>
    rw [visitReserved, List.foldl_cons]
    by_cases hpred : pred result b a = true
    · rw [if_pos hpred, if_pos hpred]
      -- the record is appended
      have hlength : (result ++ [b]).length = result.length + 1 := by
        rw [List.length_append, List.length_singleton]
      have hle : (result ++ [b]).length ≤
          (xs.foldl (fun result b => if pred result b a then result ++ [b] else result) (result ++ [b])).length :=
        length_le_foldl xs (result ++ [b]) a
      rw [hlength] at hle
      by_cases hroom : result.length < reserved
      · rw [if_pos hroom, ih, hlength]
        refine and_congr_right fun heq => ?_
        rw [heq, StaysWithin, StaysWithin]
        omega
      · rw [if_neg hroom]
        refine iff_of_false (Option.some_ne_none listed).symm ?_
        rintro ⟨heq, hstays⟩
        rw [heq, StaysWithin] at hstays
        omega
    · rw [if_neg hpred, if_neg hpred]
      exact ih

theorem visitAllReserved_iff : h.visitAllReserved pred reserved as result = some listed ↔
    listed = as.foldl (h.traverseTable pred) result ∧ StaysWithin reserved result.length listed.length := by
  induction as generalizing result listed with
  | nil =>
    rw [visitAllReserved, List.foldlM_nil, List.foldl_nil, Option.pure_def]
    exact some_eq_iff_staysWithin
  | cons a as ih =>
    exact bind_eq_iff_staysWithin (fun _ => visitReserved_iff) (fun _ => ih)
      (goesOn_traverseTable pred result a).length_le (goesOn_foldl pred as _).length_le

/-- **A traversal keeps to the reserve** if it finds nothing, or no more than what is reserved. -/
theorem traverseReserved_iff : h.traverseReserved pred reserved n j0 result = some listed ↔
    listed = h.traverse pred n j0 result ∧ StaysWithin reserved result.length listed.length := by
  induction n generalizing j0 result listed with
  | zero =>
    rw [traverseReserved, traverse]
    exact some_eq_iff_staysWithin
  | succ n ih =>
    rw [traverseReserved, traverse]
    have hround : h.GoesOn result ((result.drop j0).foldl (h.traverseTable pred) result) := goesOn_foldl pred _ result
    by_cases hend : ((result.drop j0).foldl (h.traverseTable pred) result).length = result.length
    · simp only [if_pos hend]
      refine bind_eq_iff_staysWithin (fun _ => visitAllReserved_iff) (fun l => ?_) hround.length_le le_rfl
      rw [if_pos hend]
      exact some_eq_iff_staysWithin
    · simp only [if_neg hend]
      refine bind_eq_iff_staysWithin (fun _ => visitAllReserved_iff) (fun l => ?_) hround.length_le
        (goesOn_traverse pred n _ _).length_le
      rw [if_neg hend]
      exact ih

/-! ### The memory -/

/-- **A traversal that keeps to the reserve is one in memory** that has at least this room. -/
theorem traverseArray_of_reserved (hreserved : reserved ≤ v.capacity)
    (htraverse : h.traverseReserved pred reserved n j0 v.nodes = some listed) :
    ∃ w, h.traverseArray pred n j0 v = some w ∧ w.nodes = listed ∧ w.capacity = v.capacity := by
  obtain ⟨rfl, hstays⟩ := traverseReserved_iff.1 htraverse
  have hroom : (h.traverse pred n j0 v.nodes).length ≤ v.capacity := by
    rcases hstays with hsame | hle
    · exact hsame.trans_le v.fits
    · exact hle.trans hreserved
  obtain ⟨w, hw, hcapacity⟩ := traverseArray_of_room h pred n j0 v hroom
  exact ⟨w, hw, traverseArray_nodes hw, hcapacity⟩

theorem nodesInMemory_of_reserved (spare : ℕ) (hnodes : h.nodesReserved radius = some listed) :
    h.nodesInMemory spare radius = some listed := by
  obtain ⟨down, hdown, hnodes⟩ := Option.bind_eq_some_iff.1 hnodes
  obtain ⟨up, hup, hnodes⟩ := Option.bind_eq_some_iff.1 hnodes
  obtain ⟨w, hw, rfl, hcapacity⟩ := traverseArray_of_reserved
    (v := .reserve h.records.length spare h.thisNode) (Nat.le_add_right h.reserved spare) hdown
  have hreserved : h.reserved ≤ (w.emplaceBack h.thisNode).capacity := by
    have hle := w.capacity_le_emplaceBack h.thisNode
    rw [hcapacity] at hle
    exact (Nat.le_add_right h.reserved spare).trans hle
  obtain ⟨u, hu, rfl, -⟩ := traverseArray_of_reserved hreserved hup
  exact Option.bind_eq_some_iff.2 ⟨w, hw, Option.bind_eq_some_iff.2 ⟨u, hu, hnodes⟩⟩

/-- A way that lists every node once keeps to the reserve. -/
theorem exists_reserved (hnodup : ((h.traverse pred n 0 [node]).map HierarchyNode.socketAddress).Nodup) :
    ∃ listed, h.traverseReserved pred h.reserved n 0 [node] = some listed ∧ ∀ spare, (do
      let result ← h.traverseArray pred n 0 (.reserve h.records.length spare node)
      pure result.nodes) = some listed := by
  have hle := length_le_of_nodup (goesOn_traverse (h := h) pred n 0 [node]) hnodup
  exact ⟨_, traverseReserved_iff.2 ⟨rfl, Or.inr hle⟩, fun spare => listed_of_nodup hnodup⟩

end Reserve

/-! ### Where there are no cycles -/

namespace IsForest

variable {h : Hierarchy} (hforest : h.IsForest) {radius depth : ℕ}

include hforest

/-- **The way down is clear**, from any node. -/
theorem isClear (node : HierarchyNode) : h.IsClear node depth := by
  rw [isClear_iff_of_keyed hforest.toIsKeyed]
  rintro x ⟨k, -, hx⟩ haddress
  have hsame : subordinatesAmong h.records node = subordinatesAmong h.records x := by
    rw [subordinatesAmong, subordinatesAmong, haddress]
  obtain ⟨b, hb, hbx⟩ := hx
  rw [hsame] at hb
  exact hforest.acyclic_down k x (reaches_all_down ⟨b, hb, hbx⟩)

/-- The way down. -/
theorem traverse_down : h.traverse isSubordinate radius 0 [h.thisNode] = h.thisNode :: h.below radius := by
  rw [← within_down]
  exact hforest.lowerNodes_eq List.mem_cons_self radius

/-- The way up, with the nodes below the node and once more the node itself in the array. -/
theorem traverse_up : h.traverse isNewSuperior radius 0 (h.thisNode :: h.below radius ++ [h.thisNode]) =
    h.thisNode :: h.below radius ++ [h.thisNode] ++ h.above radius := by
  -- a memory that is large enough
  obtain ⟨v, hnodes, hroom⟩ : ∃ v : NodeArray, v.nodes = h.thisNode :: h.below radius ++ [h.thisNode] ∧
      (h.traverse isNewSuperior radius 0 v.nodes).length ≤ v.capacity :=
    ⟨⟨_, _ + (h.traverse isNewSuperior radius 0 _).length, Nat.le_add_right _ _⟩, rfl, Nat.le_add_left _ _⟩
  obtain ⟨w, hw, -⟩ := traverseArray_of_room h isNewSuperior radius 0 v hroom
  rw [← hnodes, ← traverseArray_nodes hw]
  exact (hforest.traverseArray_around hnodes).1 w hw

/-- **`nodes` keeps to the reserve** if it finds nothing above the node, or leaves some record out. -/
theorem nodesReserved_iff : (∃ listed, h.nodesReserved radius = some listed) ↔
    h.above radius = [] ∨ (h.below radius).length + (h.above radius).length < h.records.length := by
  have hle := hforest.length_around_le radius
  have hlength : (h.thisNode :: h.below radius ++ [h.thisNode]).length = (h.below radius).length + 2 := by simp
  have hlength' : (h.thisNode :: h.below radius ++ [h.thisNode] ++ h.above radius).length =
      (h.below radius).length + 2 + (h.above radius).length := by rw [List.length_append, hlength]
  have hstays : StaysWithin h.reserved (h.thisNode :: h.below radius ++ [h.thisNode]).length
      (h.thisNode :: h.below radius ++ [h.thisNode] ++ h.above radius).length ↔
      h.above radius = [] ∨ (h.below radius).length + (h.above radius).length < h.records.length := by
    rw [hlength', hlength, StaysWithin, reserved, ← List.length_eq_zero_iff]
    omega
  have hdown : h.traverseReserved isSubordinate h.reserved radius 0 [h.thisNode] =
      some (h.thisNode :: h.below radius) := by
    refine traverseReserved_iff.2 ⟨hforest.traverse_down.symm, Or.inr ?_⟩
    rw [List.length_cons, reserved]
    omega
  rw [← hstays]
  constructor
  · rintro ⟨listed, hlisted⟩
    obtain ⟨down, hdown', hlisted⟩ := Option.bind_eq_some_iff.1 hlisted
    obtain rfl := Option.some.inj (hdown.symm.trans hdown')
    obtain ⟨up, hup, -⟩ := Option.bind_eq_some_iff.1 hlisted
    obtain ⟨rfl, hup⟩ := traverseReserved_iff.1 hup
    rwa [← hforest.traverse_up]
  · intro hwithin
    have hup := traverseReserved_iff.2 ⟨hforest.traverse_up.symm, hwithin⟩
    exact ⟨_, Option.bind_eq_some_iff.2 ⟨_, hdown, Option.bind_eq_some_iff.2 ⟨_, hup, rfl⟩⟩⟩

/-- **The arrays keep to what is reserved** if and only if some record is neither below nor above the node, or no
record is above it. -/
theorem keepsReserve_iff (radius : ℕ) : h.KeepsReserve radius ↔
    (∃ r ∈ h.records, ¬ h.IsBelow radius r ∧ ¬ h.IsAbove radius r) ∨ ∀ r, ¬ h.IsAbove radius r := by
  have habove : h.above radius = [] ↔ ∀ r, ¬ h.IsAbove radius r := by
    rw [List.eq_nil_iff_forall_not_mem]
    exact forall_congr' fun r => not_congr hforest.mem_above
  rw [← hforest.length_around_lt_iff, ← habove, or_comm, ← hforest.nodesReserved_iff]
  constructor
  · intro hkeeps
    obtain ⟨listed, hlisted, -⟩ := hkeeps.nodes
    exact ⟨listed, hlisted⟩
  · rintro ⟨listed, hlisted⟩
    refine ⟨⟨listed, hlisted, fun spare => nodesInMemory_of_reserved spare hlisted⟩, fun node => ?_, fun node => ?_⟩
    · exact exists_reserved (nodup_lowerNodes_iff.2 (hforest.isClear node))
    · exact exists_reserved (nodup_traverse (List.nodup_singleton _))

end IsForest

/-- The other subordinate of the superior leaves room for the superior. -/
theorem keepsReserve_oneOfTwo : oneOfTwo.IsForest ∧ oneOfTwo.KeepsReserve 1 := by
  have hforest := isTree_oneOfTwo.isForest
  have hmem : subordinateRecord 3 1 ∈ oneOfTwo.records := List.mem_pair.2 (Or.inr rfl)
  refine ⟨hforest, (hforest.keepsReserve_iff 1).2 (Or.inl ⟨_, hmem, ?_, ?_⟩)⟩
  · rintro ⟨k, hk, hreaches⟩
    obtain rfl : k = 0 := by omega
    obtain ⟨b, hb, rfl⟩ := hreaches
    exact absurd (mem_subordinatesAmong.1 hb).2 (by decide)
  · rintro ⟨k, hk, hreaches⟩
    obtain rfl : k = 0 := by omega
    obtain ⟨b, hb, rfl⟩ := hreaches
    exact absurd (mem_superiorsAmong.1 hb).2 (by decide)

/-- Between two nodes the superior is one record too many, and the reference is looked at again after that. -/
theorem keepsReserve_fails : ¬ ∀ h : Hierarchy, h.IsForest → ∀ radius, h.KeepsReserve radius := by
  intro hall
  have hforest : superiorFirst.IsForest := isForest_between rfl fun entry hentry => List.mem_pair.1 hentry
  obtain ⟨listed, -, hlisted⟩ := (hall superiorFirst hforest 1).nodes
  have hnone : superiorFirst.nodesInMemory 0 1 = none := by rfl
  exact absurd (hnone.symm.trans (hlisted 0)) (Option.some_ne_none listed).symm

end Hierarchy

end Subordination.Daemon
