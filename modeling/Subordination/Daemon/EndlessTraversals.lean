import Subordination.Daemon.Traversals

/-!
# Traversals without an end

The table is filled with records of other nodes, and nothing keeps their superiors from leading
in a circle. The way up looks at a node once, but the way down does not look for nodes that it
has been to.

## What is proved

* **`lists_iff`**: the way up ends and lists every node once, whatever the table is; the way
  down does exactly if it is clear: it does not come back to the node that it starts from, and
  the records below this node have different addresses.
* `isClear_iff_of_keyed`: with one record for each node only the first of the two matters.
-/

namespace Subordination.Daemon

open Subordination.Core Subordination.Library

namespace Hierarchy

variable {h : Hierarchy} {pred : List HierarchyNode → HierarchyNode → HierarchyNode → Bool} {node : HierarchyNode}
  {result : List HierarchyNode} {a : SocketAddress} {n depth j0 m spare : ℕ}

/-! ### What is listed -/

/-- Some nodes are listed, and none of them twice. -/
def ListsOnce (listed : Option (List HierarchyNode)) : Prop :=
  ∃ nodes, listed = some nodes ∧ (nodes.map HierarchyNode.socketAddress).Nodup

/-- A traversal ends by itself, and lists every node once. -/
structure Lists (traversal : ℕ → Option (List HierarchyNode)) : Prop where
  /-- From some depth on it does not depend on the depth. -/
  ends : ∃ n, ∀ depth, n ≤ depth → traversal depth = traversal n
  /-- It lists no node twice. -/
  once : ∀ depth, ListsOnce (traversal depth)

/-- The way down from a node is clear. -/
def IsClear (h : Hierarchy) (node : HierarchyNode) (depth : ℕ) : Prop :=
  Library.IsClear (subordinatesAmong h.records) HierarchyNode.socketAddress h.records depth node

/-! ### Ends -/

/-- **A traversal that finds a limited number of nodes ends.** -/
theorem traverse_ends (hlimit : ∀ d, (h.traverse pred d j0 result).length ≤ result.length + m) (hdepth : m < depth) :
    h.traverse pred depth j0 result = h.traverse pred (m + 1) j0 result := by
  induction m generalizing depth j0 result with
  | zero =>
    obtain ⟨depth, rfl⟩ : ∃ d, depth = d + 1 := ⟨depth - 1, by omega⟩
    have hround := hlimit 1
    obtain ⟨rest, hrest, -⟩ := goesOn_traverse (h := h) pred 1 j0 result
    have hsame : h.traverse pred 1 j0 result = (result.drop j0).foldl (h.traverseTable pred) result := by
      rw [traverse]
      split
      · rfl
      · rfl
    have hlength : ((result.drop j0).foldl (h.traverseTable pred) result).length = result.length := by
      rw [← hsame, hrest, List.length_append]
      rw [hrest, List.length_append] at hround
      omega
    rw [hsame, traverse]
    exact if_pos hlength
  | succ m ih =>
    obtain ⟨depth, rfl⟩ : ∃ d, depth = d + 1 := ⟨depth - 1, by omega⟩
    rw [traverse, traverse]
    by_cases hlength : ((result.drop j0).foldl (h.traverseTable pred) result).length = result.length
    · simp only [if_pos hlength]
    · simp only [if_neg hlength]
      refine ih (fun d => ?_) (by omega)
      have hnext := hlimit (d + 1)
      rw [traverse] at hnext
      simp only [if_neg hlength] at hnext
      obtain ⟨rest, hrest, -⟩ := goesOn_foldl (h := h) pred (result.drop j0) result
      rw [hrest, List.length_append] at hlength
      rw [hrest] at hnext ⊢
      rw [List.length_append]
      omega

/-- Nodes that follow the first one, and have different addresses, are as many as the table has at most. -/
theorem length_le_of_nodup (hgoes : h.GoesOn [node] result)
    (hnodup : (result.map HierarchyNode.socketAddress).Nodup) : result.length ≤ h.records.length + 1 := by
  obtain ⟨rest, rfl, hrest⟩ := hgoes
  have hle := ((hnodup.of_map _).of_append_right.subperm hrest).length_le
  rw [List.length_append, List.length_singleton]
  omega

/-- There is room for nodes that are all different. -/
theorem listed_of_nodup (hnodup : ((h.traverse pred n 0 [node]).map HierarchyNode.socketAddress).Nodup) :
    (do
      let result ← h.traverseArray pred n 0 (.reserve h.records.length spare node)
      pure result.nodes) = some (h.traverse pred n 0 [node]) := by
  have hle := length_le_of_nodup (goesOn_traverse (h := h) pred n 0 [node]) hnodup
  obtain ⟨w, hw, -⟩ := traverseArray_of_room h pred n 0 (.reserve h.records.length spare node)
    (hle.trans (Nat.le_add_right _ spare))
  exact Option.bind_eq_some_iff.2 ⟨w, hw, congrArg some (traverseArray_nodes hw)⟩

/-- **A traversal that lists every node once, whatever its depth, ends.** -/
theorem lists_of_nodup (hnodup : ∀ d, ((h.traverse pred d 0 [node]).map HierarchyNode.socketAddress).Nodup) :
    Lists fun d => (do
      let result ← h.traverseArray pred d 0 (.reserve h.records.length spare node)
      pure result.nodes) := by
  constructor
  · refine ⟨h.records.length + 1, fun depth hdepth => ?_⟩
    simp only [listed_of_nodup (hnodup _)]
    rw [traverse_ends (m := h.records.length) (fun d => ?_) hdepth]
    have hlimit := length_le_of_nodup (goesOn_traverse (h := h) pred d 0 [node]) (hnodup d)
    rw [List.length_singleton]
    omega
  · intro d
    exact ⟨_, listed_of_nodup (hnodup d), hnodup d⟩

/-! ### The way up -/

theorem nodup_traverseTable (hnodup : (result.map HierarchyNode.socketAddress).Nodup) (c : HierarchyNode) :
    ((h.traverseTable isNewSuperior result c).map HierarchyNode.socketAddress).Nodup := by
  rw [traverseTable]
  induction h.records generalizing result with
  | nil => exact hnodup
  | cons b xs ih =>
    rw [List.foldl_cons]
    refine ih ?_
    split
    · next hpred =>
      obtain ⟨-, hnew⟩ := of_decide_eq_true hpred
      rw [List.map_append]
      refine List.Nodup.append hnodup (List.nodup_singleton _) fun c hc hcb => ?_
      obtain ⟨x, hx, rfl⟩ := List.mem_map.1 hc
      exact of_decide_eq_true (List.all_eq_true.1 hnew x hx) (List.mem_singleton.1 hcb)
    · exact hnodup

/-- **The way up lists no node twice.** -/
theorem nodup_traverse (hnodup : (result.map HierarchyNode.socketAddress).Nodup) :
    ((h.traverse isNewSuperior n j0 result).map HierarchyNode.socketAddress).Nodup := by
  induction n generalizing j0 result with
  | zero => exact hnodup
  | succ n ih =>
    have hround : (((result.drop j0).foldl (h.traverseTable isNewSuperior) result).map
        HierarchyNode.socketAddress).Nodup := by
      generalize result.drop j0 = as
      induction as generalizing result with
      | nil => exact hnodup
      | cons b as ih => exact ih (nodup_traverseTable hnodup b)
    rw [traverse]
    split
    · exact hround
    · exact ih hround

/-! ### The way down -/

theorem foldl_isSubordinate (c : HierarchyNode) (xs result : List HierarchyNode) :
    xs.foldl (fun result b => if isSubordinate result b c then result ++ [b] else result) result =
      result ++ subordinatesAmong xs c := by
  induction xs generalizing result with
  | nil => exact (List.append_nil result).symm
  | cons b xs ih =>
    rw [List.foldl_cons, ih, subordinatesAmong, subordinatesAmong, List.filter_cons]
    by_cases hb : decide (b.superiorSocketAddress = c.socketAddress) = true
    · rw [if_pos hb, if_pos (show isSubordinate result b c = true from hb), List.append_assoc]
      rfl
    · rw [if_neg hb, if_neg (show ¬ isSubordinate result b c = true from hb)]

/-- **The way down goes from generation to generation**, with all the nodes that it finds again. -/
theorem lowerNodes_eq_within (h : Hierarchy) (node : HierarchyNode) (depth : ℕ) :
    h.lowerNodes node depth = within (subordinatesAmong h.records) depth [node] := by
  have hround (front result : List HierarchyNode) :
      front.foldl (h.traverseTable isSubordinate) result = result ++ front.flatMap (subordinatesAmong h.records) := by
    induction front generalizing result with
    | nil => exact (List.append_nil result).symm
    | cons c front ih =>
      rw [List.foldl_cons, ih, List.flatMap_cons, ← List.append_assoc]
      congr 1
      exact foldl_isSubordinate c h.records result
  have heq : h.traverse isSubordinate depth ([] : List HierarchyNode).length ([] ++ [node]) =
      [] ++ within (subordinatesAmong h.records) depth [node] :=
    traverse_eq_of_rounds (fun _ => True) (fun _ _ _ => trivial) (fun front result _ => hround front result) trivial
  exact heq

theorem nodup_lowerNodes_iff :
    ((h.lowerNodes node depth).map HierarchyNode.socketAddress).Nodup ↔ h.IsClear node depth := by
  rw [lowerNodes_eq_within]
  exact nodup_map_within_iff fun a => rfl

theorem listsOnce_lowerNodes_iff : ListsOnce (h.lowerNodesInMemory spare node depth) ↔ h.IsClear node depth := by
  rw [← nodup_lowerNodes_iff]
  constructor
  · rintro ⟨nodes, hnodes, hnodup⟩
    obtain ⟨w, hw, hnodes⟩ := Option.bind_eq_some_iff.1 hnodes
    obtain rfl : w.nodes = nodes := Option.some.inj hnodes
    rwa [traverseArray_nodes hw] at hnodup
  · intro hnodup
    exact ⟨_, listed_of_nodup hnodup, hnodup⟩

/-- **The way up ends and lists every node once; the way down does exactly if it is clear**, and
so do the nodes behind a neighbour, which are on the way up or down. -/
theorem lists_iff (h : Hierarchy) (spare : ℕ) :
    (∀ node, Lists (h.upperNodesInMemory spare node)) ∧
      (∀ node, Lists (h.lowerNodesInMemory spare node) ↔ ∀ depth, h.IsClear node depth) ∧
      (∀ node depth, ListsOnce (h.lowerNodesInMemory spare node depth) ↔ h.IsClear node depth) ∧
      ∀ a, ListsOnce (h.nodesBehindInMemory spare a) ↔
        ∀ b, h.nodes.lookup a = some b → a ≠ h.superiorSocketAddress → h.IsClear b maxDepth := by
  have hup (node : HierarchyNode) : Lists (h.upperNodesInMemory spare node) :=
    lists_of_nodup fun d => nodup_traverse (List.nodup_singleton _)
  refine ⟨hup, fun node => ⟨fun hlists depth => listsOnce_lowerNodes_iff.1 (hlists.once depth), fun hclear => ?_⟩,
    fun node depth => listsOnce_lowerNodes_iff, fun a => ?_⟩
  · exact lists_of_nodup fun d => nodup_lowerNodes_iff.2 (hclear d)
  · rw [nodesBehindInMemory]
    cases hlookup : h.nodes.lookup a with
    | none => exact iff_of_true ⟨[], rfl, List.nodup_nil⟩ fun b hb => nomatch hb
    | some b =>
      show ListsOnce (if _ then _ else _) ↔ _
      by_cases ha : a = h.superiorSocketAddress
      · rw [if_pos ha]
        exact iff_of_true ((hup b).once maxDepth) fun _ _ hne => absurd ha hne
      · rw [if_neg ha, listsOnce_lowerNodes_iff]
        constructor
        · rintro hclear b' hb' -
          obtain rfl := Option.some.inj hb'
          exact hclear
        · intro hall
          exact hall b rfl ha

/-- With one record for each node, the way down is clear if it does not come back. -/
theorem isClear_iff_of_keyed (hkeyed : h.IsKeyed) : h.IsClear node depth ↔
    ∀ x, Found (subordinatesAmong h.records) depth node x → x.socketAddress ≠ node.socketAddress := by
  constructor
  · exact fun hclear => hclear.own
  · intro hown
    have hnodup := hkeyed.nodup_all
    rw [all, List.map_cons, List.nodup_cons] at hnodup
    exact ⟨hown, (List.pairwise_map.1 hnodup.2).imp fun hne _ _ => hne⟩

/-! ### A node below itself -/

/-- The node at 10.0.0.3 has said that it is its own superior. -/
def ownSuperior : Hierarchy where
  netmask := 8
  thisNode := nodeRecord 1
  nodes := ⟨[⟨nodeAddress 3, subordinateRecord 3 3⟩], List.nodupKeys_singleton _⟩

/-- The node behind it is the node itself, which is listed again in every round. -/
theorem lists_fails : ¬ ∀ (h : Hierarchy) (spare : ℕ), (∀ node, Lists (h.upperNodesInMemory spare node)) ∧
    (∀ node, Lists (h.lowerNodesInMemory spare node)) ∧ ∀ a, ListsOnce (h.nodesBehindInMemory spare a) := by
  intro hall
  have hbehind : ListsOnce (ownSuperior.lowerNodesInMemory 0 (subordinateRecord 3 3) maxDepth) :=
    (hall ownSuperior 0).2.2 (nodeAddress 3)
  have hmem : subordinateRecord 3 3 ∈ subordinatesAmong ownSuperior.records (subordinateRecord 3 3) :=
    mem_subordinatesAmong.2 ⟨List.mem_singleton_self _, rfl⟩
  exact (listsOnce_lowerNodes_iff.1 hbehind).own _ ⟨0, by decide, .single hmem⟩ rfl

end Hierarchy

end Subordination.Daemon
