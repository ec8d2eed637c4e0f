import Subordination.Daemon.Superiors
import Subordination.Library.Generations

/-!
# Nodes behind a neighbour

The nodes behind a neighbour of a node are those that are reached through it. They say how
many threads a client of the pipeline stands for.

## What is proved

* **`upperNodes_eq`** and **`lowerNodes_eq`**: in a tree, the traversals find the nodes above
  and below a node, each of them once.
* **`splits_iff_lineal`**: the neighbours of a node split the rest of the tree exactly if every
  other node is above or below it. The way up does not turn down again, so the siblings of the
  node and of the nodes above it are behind none of its neighbours.
-/

namespace Subordination.Daemon

open Subordination.Core Subordination.Library

/-! ### The nodes -/

/-- `total_threads()`. -/
def HierarchyNode.totalThreads (n : HierarchyNode) : UInt64 := (n.resources.data Resources.totalThreads).toU64

/-- `update_counters`: the sum of the threads, in 32 bits. -/
def threads (nodes : List HierarchyNode) : UInt32 :=
  nodes.foldl (fun sum n => sum + n.totalThreads.toUInt32) 0

namespace Hierarchy

/-- `std::numeric_limits<int>::max()`. -/
def maxDepth : ℕ := 2 ^ 31 - 1

/-- `lower_nodes(from, depth)`. -/
def lowerNodes (h : Hierarchy) (node : HierarchyNode) (depth : ℕ) : List HierarchyNode :=
  h.traverse isSubordinate depth 0 [node]

/-- `upper_nodes(from, depth)`. -/
def upperNodes (h : Hierarchy) (node : HierarchyNode) (depth : ℕ) : List HierarchyNode :=
  h.traverse isNewSuperior depth 0 [node]

/-- `nodes_behind`. -/
def nodesBehind (h : Hierarchy) (a : SocketAddress) : List HierarchyNode :=
  match h.nodes.lookup a with
  | none => []
  | some b => if a = h.superiorSocketAddress then h.upperNodes b maxDepth else h.lowerNodes b maxDepth

/-! ### Traversal -/

section Traversal

variable {h : Hierarchy} {pred : List HierarchyNode → HierarchyNode → HierarchyNode → Bool}
  {q : HierarchyNode → HierarchyNode → Bool} {a : HierarchyNode} {xs result front found : List HierarchyNode} {n : ℕ}

/-- The predicate of a traversal is one on two nodes, except that it may be false for a node that
has been found before. -/
structure Looks (pred : List HierarchyNode → HierarchyNode → HierarchyNode → Bool)
    (q : HierarchyNode → HierarchyNode → Bool) : Prop where
  /-- It is not true otherwise. -/
  sound : ∀ result b a, pred result b a = true → q b a = true
  /-- It is true for new nodes. -/
  new : ∀ result b a, (∀ x ∈ result, x.socketAddress ≠ b.socketAddress) → q b a = true → pred result b a = true

theorem foldl_eq_append (hlooks : Looks pred q)
    (hnodup : ((result ++ xs.filter (q · a)).map HierarchyNode.socketAddress).Nodup) :
    xs.foldl (fun result b => if pred result b a then result ++ [b] else result) result =
      result ++ xs.filter (q · a) := by
  induction xs generalizing result with
  | nil => exact (List.append_nil result).symm
  | cons b xs ih =>
    rw [List.foldl_cons]
    by_cases hq : q b a = true
    · rw [List.filter_cons, if_pos hq] at hnodup ⊢
      have hnew : ∀ x ∈ result, x.socketAddress ≠ b.socketAddress := by
        intro x hx heq
        rw [List.map_append] at hnodup
        exact (List.nodup_append.1 hnodup).2.2 _ (List.mem_map_of_mem hx) _
          (List.mem_map_of_mem List.mem_cons_self) heq
      rw [if_pos (hlooks.new result b a hnew hq), ih (by rwa [List.append_assoc]), List.append_assoc]
      rfl
    · rw [List.filter_cons, if_neg hq] at hnodup ⊢
      rw [if_neg fun hpred => hq (hlooks.sound result b a hpred), ih hnodup]

/-- A round adds the next generation. -/
theorem foldl_traverseTable (hlooks : Looks pred q)
    (hnodup : ((result ++ front.flatMap fun a => h.records.filter (q · a)).map HierarchyNode.socketAddress).Nodup) :
    front.foldl (h.traverseTable pred) result = result ++ front.flatMap fun a => h.records.filter (q · a) := by
  induction front generalizing result with
  | nil => exact (List.append_nil result).symm
  | cons a front ih =>
    rw [List.flatMap_cons, ← List.append_assoc] at hnodup
    have hfirst : h.traverseTable pred result a = result ++ h.records.filter (q · a) := by
      refine foldl_eq_append hlooks ?_
      rw [List.map_append] at hnodup
      exact (List.nodup_append.1 hnodup).1
    rw [List.foldl_cons, hfirst, ih hnodup, List.flatMap_cons, List.append_assoc]

/-- **A traversal goes from generation to generation**, as long as its rounds do. -/
theorem traverse_eq_of_rounds {next : HierarchyNode → List HierarchyNode} (good : List HierarchyNode → Prop)
    (hpre : ∀ xs ys, good (xs ++ ys) → good xs)
    (hround : ∀ front result : List HierarchyNode, good (result ++ front.flatMap next) →
      front.foldl (h.traverseTable pred) result = result ++ front.flatMap next)
    (hgood : good (found ++ within next n front)) :
    h.traverse pred n found.length (found ++ front) = found ++ within next n front := by
  induction n generalizing found front with
  | zero => rfl
  | succ n ih =>
    have hadded : ((found ++ front).drop found.length).foldl (h.traverseTable pred) (found ++ front) =
        found ++ front ++ front.flatMap next := by
      rw [List.drop_left]
      refine hround front _ ?_
      rw [within] at hgood
      split at hgood
      · next hempty => rwa [List.isEmpty_iff.1 hempty, List.append_nil]
      · obtain ⟨rest, hrest⟩ := within_eq_append next n (front.flatMap next)
        rw [hrest, ← List.append_assoc, ← List.append_assoc] at hgood
        exact hpre _ _ hgood
    rw [traverse, within] at *
    simp only [hadded]
    by_cases hempty : (front.flatMap next).isEmpty = true
    · rw [if_pos hempty, if_pos (by rw [List.isEmpty_iff.1 hempty, List.append_nil]), List.isEmpty_iff.1 hempty,
        List.append_nil]
    · rw [if_neg hempty] at hgood ⊢
      rw [← List.append_assoc] at hgood ⊢
      rw [if_neg fun hlength => hempty ?_, ih hgood]
      rw [List.length_append] at hlength
      exact List.isEmpty_iff.2 (List.eq_nil_of_length_eq_zero (by omega))

/-- A traversal goes from generation to generation as long as it finds no node twice. -/
theorem traverse_eq (hlooks : Looks pred q)
    (hnodup : ((found ++ within (fun a => h.records.filter (q · a)) n front).map
      HierarchyNode.socketAddress).Nodup) :
    h.traverse pred n found.length (found ++ front) =
      found ++ within (fun a => h.records.filter (q · a)) n front := by
  refine traverse_eq_of_rounds (fun xs => (xs.map HierarchyNode.socketAddress).Nodup)
    (fun xs ys hxs => ?_) (fun front result => foldl_traverseTable hlooks) hnodup
  rw [List.map_append] at hxs
  exact (List.nodup_append.1 hxs).1

/-- A traversal that begins with one node. -/
theorem traverse_singleton (hlooks : Looks pred q)
    (hnodup : ((within (fun a => h.records.filter (q · a)) n [a]).map HierarchyNode.socketAddress).Nodup) :
    h.traverse pred n 0 [a] = within (fun a => h.records.filter (q · a)) n [a] := by
  rw [← List.nil_append (within _ n [a])] at hnodup ⊢
  exact traverse_eq hlooks hnodup

theorem looks_isSubordinate : Looks isSubordinate fun b a => b.superiorSocketAddress = a.socketAddress :=
  ⟨fun _ _ _ h => h, fun _ _ _ _ h => h⟩

theorem looks_isNewSuperior : Looks isNewSuperior fun b a => a.superiorSocketAddress = b.socketAddress := by
  constructor
  · intro result b a h
    rw [isNewSuperior, decide_eq_true_eq] at h
    exact decide_eq_true h.1
  · intro result b a hnew h
    rw [isNewSuperior, decide_eq_true_eq]
    refine ⟨of_decide_eq_true h, ?_⟩
    rw [List.all_eq_true]
    exact fun x hx => decide_eq_true (hnew x hx)

end Traversal

/-! ### Trees -/

/-- The own record and those of the table. -/
def all (h : Hierarchy) : List HierarchyNode := h.thisNode :: h.records

/-- The superior of a node, if it is among some nodes. -/
def superiorsAmong (nodes : List HierarchyNode) (a : HierarchyNode) : List HierarchyNode :=
  nodes.filter fun b => a.superiorSocketAddress = b.socketAddress

/-- The subordinates of a node among some nodes. -/
def subordinatesAmong (nodes : List HierarchyNode) (a : HierarchyNode) : List HierarchyNode :=
  nodes.filter fun b => b.superiorSocketAddress = a.socketAddress

/-- The own record and the table are those of all nodes of a tree: the nodes have different
addresses, and the superiors lead from every node to one that has none. -/
structure IsTree (h : Hierarchy) : Prop where
  /-- The node has an address. -/
  own_set : h.socketAddress ≠ .unset
  /-- It is not in its own table. -/
  own_missing : h.nodes.lookup h.socketAddress = none
  /-- The records are kept at the addresses of their nodes. -/
  keyed : ∀ a r, h.nodes.lookup a = some r → r.socketAddress = a ∧ a ≠ .unset
  /-- The superiors lead to the root. -/
  rooted : ∃ root : HierarchyNode, root.superiorSocketAddress = .unset ∧
    ∀ r ∈ h.all, ∃ n, Reaches (superiorsAmong h.all) n r root

/-- There is one record for each node. -/
structure IsKeyed (h : Hierarchy) : Prop where
  /-- The node is not in its own table. -/
  own_missing : h.nodes.lookup h.socketAddress = none
  /-- The records are kept at the addresses of their nodes. -/
  keyed : ∀ a r, h.nodes.lookup a = some r → r.socketAddress = a

/-- There is one record for each node, and no node is above itself. -/
structure IsForest (h : Hierarchy) : Prop extends h.IsKeyed where
  /-- There are no cycles. -/
  acyclic : Acyclic (superiorsAmong h.all)

theorem mem_superiorsAmong {nodes : List HierarchyNode} {a b : HierarchyNode} :
    b ∈ superiorsAmong nodes a ↔ b ∈ nodes ∧ a.superiorSocketAddress = b.socketAddress := by
  rw [superiorsAmong, List.mem_filter, decide_eq_true_eq]

theorem mem_subordinatesAmong {nodes : List HierarchyNode} {a b : HierarchyNode} :
    b ∈ subordinatesAmong nodes a ↔ b ∈ nodes ∧ b.superiorSocketAddress = a.socketAddress := by
  rw [subordinatesAmong, List.mem_filter, decide_eq_true_eq]

namespace IsKeyed

variable {h : Hierarchy} (hkeyed : h.IsKeyed) {a b r : HierarchyNode}

include hkeyed

theorem lookup_of_mem (hr : r ∈ h.records) : h.nodes.lookup r.socketAddress = some r := by
  obtain ⟨a, ha⟩ := mem_records.1 hr
  obtain rfl := hkeyed.keyed a r ha
  exact ha

/-- The nodes have different addresses. -/
theorem nodup_all : (h.all.map HierarchyNode.socketAddress).Nodup := by
  have hkeys : h.records.map HierarchyNode.socketAddress = h.nodes.keys := by
    rw [records, List.map_map]
    refine List.map_congr_left fun entry hentry => ?_
    exact hkeyed.keyed entry.1 entry.2 (AList.mem_lookup_iff.2 hentry)
  rw [all, List.map_cons, List.nodup_cons, hkeys]
  refine ⟨fun hown => ?_, h.nodes.nodupKeys⟩
  have hmem : h.socketAddress ∈ h.nodes := hown
  exact AList.lookup_eq_none.1 hkeyed.own_missing hmem

theorem eq_of_address_eq (ha : a ∈ h.all) (hb : b ∈ h.all) (hab : a.socketAddress = b.socketAddress) : a = b :=
  List.inj_on_of_nodup_map hkeyed.nodup_all ha hb hab

theorem nodup_records : h.records.Nodup := by
  have hnodup := hkeyed.nodup_all
  rw [all, List.map_cons, List.nodup_cons] at hnodup
  exact hnodup.2.of_map _

/-- A node has one superior at most. -/
theorem functional (a x y : HierarchyNode) (hx : x ∈ superiorsAmong h.all a) (hy : y ∈ superiorsAmong h.all a) :
    x = y := by
  obtain ⟨hx, hax⟩ := mem_superiorsAmong.1 hx
  obtain ⟨hy, hay⟩ := mem_superiorsAmong.1 hy
  exact hkeyed.eq_of_address_eq hx hy (hax.symm.trans hay)

theorem injective (a b x : HierarchyNode) (ha : a ∈ h.all) (hb : b ∈ h.all) (hxa : x ∈ subordinatesAmong h.all a)
    (hxb : x ∈ subordinatesAmong h.all b) : a = b :=
  hkeyed.eq_of_address_eq ha hb
    ((mem_subordinatesAmong.1 hxa).2.symm.trans (mem_subordinatesAmong.1 hxb).2)

/-- A list of nodes without repetitions has no repeated addresses. -/
theorem nodup_map_of_nodup {nodes : List HierarchyNode} (hnodup : nodes.Nodup) (hmem : ∀ x ∈ nodes, x ∈ h.all) :
    (nodes.map HierarchyNode.socketAddress).Nodup :=
  hnodup.map_on fun x hx y hy hxy => hkeyed.eq_of_address_eq (hmem x hx) (hmem y hy) hxy

theorem length_superiorsAmong (a : HierarchyNode) : (superiorsAmong h.records a).length ≤ 1 := by
  have hnodup : (superiorsAmong h.records a).Nodup := hkeyed.nodup_records.filter _
  have hmem : ∀ b ∈ superiorsAmong h.records a, b ∈ superiorsAmong h.all a := fun b hb =>
    mem_superiorsAmong.2 ⟨List.mem_cons_of_mem _ (mem_superiorsAmong.1 hb).1, (mem_superiorsAmong.1 hb).2⟩
  match hlist : superiorsAmong h.records a with
  | [] => exact Nat.zero_le 1
  | [b] => exact le_rfl
  | b :: c :: rest =>
    rw [hlist] at hnodup hmem
    have hbc := hkeyed.functional a b c (hmem b List.mem_cons_self) (hmem c (by simp))
    rw [hbc] at hnodup
    exact absurd List.mem_cons_self (List.nodup_cons.1 hnodup).1

end IsKeyed

section Ways

variable {h : Hierarchy} {a b x : HierarchyNode} {n : ℕ}

/-- Up and down are opposite ways. -/
theorem reaches_reverse (hb : b ∈ h.all) (hreaches : Reaches (subordinatesAmong h.all) n b a) :
    Reaches (superiorsAmong h.all) n a b := by
  refine hreaches.reverse (p := (· ∈ h.all)) (fun a b _ hb => (mem_subordinatesAmong.1 hb).1) ?_ hb
  intro a b ha hb
  exact mem_superiorsAmong.2 ⟨ha, (mem_subordinatesAmong.1 hb).2⟩

theorem reaches_reverse' (hb : b ∈ h.all) (hreaches : Reaches (superiorsAmong h.all) n b a) :
    Reaches (subordinatesAmong h.all) n a b := by
  refine hreaches.reverse (p := (· ∈ h.all)) (fun a b _ hb => (mem_superiorsAmong.1 hb).1) ?_ hb
  intro a b ha hb
  exact mem_subordinatesAmong.2 ⟨ha, (mem_superiorsAmong.1 hb).2⟩

theorem reaches_all_up (hreaches : Reaches (superiorsAmong h.records) n a b) :
    Reaches (superiorsAmong h.all) n a b := by
  refine hreaches.transfer fun _ b c _ hc => ?_
  obtain ⟨hc, haddress⟩ := mem_superiorsAmong.1 hc
  exact mem_superiorsAmong.2 ⟨List.mem_cons_of_mem _ hc, haddress⟩

theorem reaches_all_down (hreaches : Reaches (subordinatesAmong h.records) n a b) :
    Reaches (subordinatesAmong h.all) n a b := by
  refine hreaches.transfer fun _ b c _ hc => ?_
  obtain ⟨hc, haddress⟩ := mem_subordinatesAmong.1 hc
  exact mem_subordinatesAmong.2 ⟨List.mem_cons_of_mem _ hc, haddress⟩

/-- As many rounds as an `int` can count are enough for a table of as many nodes. -/
theorem mem_within_maxDepth {next : HierarchyNode → List HierarchyNode} (hsize : h.records.length < 2 ^ 31)
    (hnodup : ∀ n, (within next n [b]).Nodup) (hmem : ∀ n, ∀ x ∈ within next n [b], x ∈ h.records) :
    x ∈ within next maxDepth [b] ↔ ∃ k, Reaches next k b x := by
  rw [mem_within]
  constructor
  · rintro ⟨k, -, hx⟩
    exact ⟨k, hx⟩
  · rintro ⟨k, hx⟩
    have hlength : k < (within next k [b]).length :=
      lt_length_within (mem_generation_singleton.2 hx)
    have hle : (within next k [b]).length ≤ h.records.length :=
      ((hnodup k).subperm fun x hx => hmem k x hx).length_le
    have hdepth : maxDepth = 2 ^ 31 - 1 := rfl
    exact ⟨k, by omega, hx⟩

theorem mem_records_within {next : HierarchyNode → List HierarchyNode} (hnext : ∀ a, ∀ b ∈ next a, b ∈ h.records)
    (hb : b ∈ h.records) (hx : x ∈ within next n [b]) : x ∈ h.records := by
  obtain ⟨k, -, hx⟩ := mem_within.1 hx
  exact hx.keep (p := (· ∈ h.records)) (fun a c _ hc => hnext a c hc) hb

end Ways

namespace IsForest

variable {h : Hierarchy} (hforest : h.IsForest) {a b x : HierarchyNode} {m n : ℕ}

include hforest

theorem acyclic_down : Acyclic (subordinatesAmong h.all) := by
  intro n a hcycle
  obtain ⟨b, -, ha⟩ := hcycle.last
  exact hforest.acyclic n a (reaches_reverse (mem_subordinatesAmong.1 ha).1 hcycle)

/-! #### Upwards and downwards in the table -/

/-- The way up from the node stays in the table. -/
theorem reaches_records_up (ha : Reaches (superiorsAmong h.all) m h.thisNode a)
    (hreaches : Reaches (superiorsAmong h.all) n a b) : Reaches (superiorsAmong h.records) n a b := by
  refine hreaches.transfer fun j b c hb hc => ?_
  obtain ⟨hmem, haddress⟩ := mem_superiorsAmong.1 hc
  refine mem_superiorsAmong.2 ⟨?_, haddress⟩
  rcases List.mem_cons.1 hmem with rfl | hmem
  · exact absurd (ha.add (hb.add (.single hc))) (hforest.acyclic (m + j) _)
  · exact hmem

/-- The way down from the node stays in the table. -/
theorem reaches_records_down (ha : Reaches (subordinatesAmong h.all) m h.thisNode a)
    (hreaches : Reaches (subordinatesAmong h.all) n a b) : Reaches (subordinatesAmong h.records) n a b := by
  refine hreaches.transfer fun j b c hb hc => ?_
  obtain ⟨hmem, haddress⟩ := mem_subordinatesAmong.1 hc
  refine mem_subordinatesAmong.2 ⟨?_, haddress⟩
  rcases List.mem_cons.1 hmem with rfl | hmem
  · exact absurd (ha.add (hb.add (.single hc))) (hforest.acyclic_down (m + j) _)
  · exact hmem

theorem nodup_up (b : HierarchyNode) (n : ℕ) : (within (superiorsAmong h.records) n [b]).Nodup := by
  refine nodup_within (nodup_generation_of_length hforest.length_superiorsAmong le_rfl) ?_
  refine disjoint_generation_of_functional (fun n a hcycle => hforest.acyclic n a (reaches_all_up hcycle)) ?_
  intro a x y hx hy
  obtain ⟨hx, hax⟩ := mem_superiorsAmong.1 hx
  obtain ⟨hy, hay⟩ := mem_superiorsAmong.1 hy
  exact hforest.eq_of_address_eq (List.mem_cons_of_mem _ hx) (List.mem_cons_of_mem _ hy) (hax.symm.trans hay)

theorem nodup_down (hb : b ∈ h.all) (n : ℕ) : (within (subordinatesAmong h.records) n [b]).Nodup := by
  have hkeep : ∀ a b, a ∈ h.all → b ∈ subordinatesAmong h.records a → b ∈ h.all := fun a b _ hb =>
    List.mem_cons_of_mem _ (mem_subordinatesAmong.1 hb).1
  have hinjective : ∀ a b x, a ∈ h.all → b ∈ h.all → x ∈ subordinatesAmong h.records a →
      x ∈ subordinatesAmong h.records b → a = b := fun a b x ha hb hxa hxb =>
    hforest.eq_of_address_eq ha hb ((mem_subordinatesAmong.1 hxa).2.symm.trans (mem_subordinatesAmong.1 hxb).2)
  refine nodup_within (nodup_generation_of_injective (fun a => hforest.nodup_records.filter _) hkeep hinjective
    (fun a ha => (List.mem_singleton.1 ha) ▸ hb) (List.nodup_singleton b)) ?_
  exact disjoint_generation_of_injective (fun n a hcycle => hforest.acyclic_down n a (reaches_all_down hcycle))
    hkeep hinjective hb

/-- **The upper nodes** of a node are those that its superiors lead to. -/
theorem upperNodes_eq (hb : b ∈ h.all) (n : ℕ) : h.upperNodes b n = within (superiorsAmong h.records) n [b] := by
  refine traverse_singleton looks_isNewSuperior (hforest.nodup_map_of_nodup (hforest.nodup_up b n) ?_)
  intro x hx
  obtain ⟨k, -, hx⟩ := mem_within.1 hx
  exact (reaches_all_up hx).keep (p := (· ∈ h.all)) (fun a c _ hc => (mem_superiorsAmong.1 hc).1) hb

/-- **The lower nodes** of a node are those that its subordinates lead to. -/
theorem lowerNodes_eq (hb : b ∈ h.all) (n : ℕ) : h.lowerNodes b n = within (subordinatesAmong h.records) n [b] := by
  refine traverse_singleton looks_isSubordinate (hforest.nodup_map_of_nodup (hforest.nodup_down hb n) ?_)
  intro x hx
  obtain ⟨k, -, hx⟩ := mem_within.1 hx
  exact (reaches_all_down hx).keep (p := (· ∈ h.all)) (fun a c _ hc => (mem_subordinatesAmong.1 hc).1) hb

/-! #### Behind a neighbour -/

/-- Behind the superior are the upper nodes. -/
theorem nodesBehind_superior (hb : b ∈ superiorsAmong h.records h.thisNode) :
    h.nodesBehind b.socketAddress = within (superiorsAmong h.records) maxDepth [b] := by
  obtain ⟨hmem, haddress⟩ := mem_superiorsAmong.1 hb
  have hsame : b.socketAddress = h.superiorSocketAddress := haddress.symm
  rw [nodesBehind, hforest.lookup_of_mem hmem]
  show (if _ then _ else _) = _
  rw [if_pos hsame, hforest.upperNodes_eq (List.mem_cons_of_mem _ hmem)]

/-- Behind a subordinate are the lower nodes. -/
theorem nodesBehind_subordinate (hb : b ∈ subordinatesAmong h.records h.thisNode) :
    h.nodesBehind b.socketAddress = within (subordinatesAmong h.records) maxDepth [b] := by
  obtain ⟨hmem, haddress⟩ := mem_subordinatesAmong.1 hb
  have hne : b.socketAddress ≠ h.superiorSocketAddress := by
    intro hsame
    have hup : b ∈ superiorsAmong h.all h.thisNode :=
      mem_superiorsAmong.2 ⟨List.mem_cons_of_mem _ hmem, hsame.symm⟩
    have hdown : h.thisNode ∈ superiorsAmong h.all b := mem_superiorsAmong.2 ⟨List.mem_cons_self, haddress⟩
    exact hforest.acyclic 1 h.thisNode ((Reaches.single hup).add (.single hdown))
  rw [nodesBehind, hforest.lookup_of_mem hmem]
  show (if _ then _ else _) = _
  rw [if_neg hne, hforest.lowerNodes_eq (List.mem_cons_of_mem _ hmem)]

/-- **Behind the superior** are nodes above this one, and all of them if they can be counted. -/
theorem mem_nodesBehind_superior (hb : b ∈ superiorsAmong h.records h.thisNode) :
    (x ∈ h.nodesBehind b.socketAddress → ∃ k, Reaches (superiorsAmong h.all) (k + 1) h.thisNode x) ∧
      (h.records.length < 2 ^ 31 → (∃ k, Reaches (superiorsAmong h.all) (k + 1) h.thisNode x) →
        x ∈ h.nodesBehind b.socketAddress) := by
  have hmem : b ∈ h.records := (mem_superiorsAmong.1 hb).1
  have hb' : b ∈ superiorsAmong h.all h.thisNode :=
    mem_superiorsAmong.2 ⟨List.mem_cons_of_mem _ hmem, (mem_superiorsAmong.1 hb).2⟩
  rw [hforest.nodesBehind_superior hb]
  constructor
  · intro hx
    obtain ⟨k, -, hx⟩ := mem_within.1 hx
    exact ⟨k, b, hb', reaches_all_up hx⟩
  · rintro hsize ⟨k, c, hc, hx⟩
    obtain rfl := hforest.functional _ c b hc hb'
    refine (mem_within_maxDepth hsize (hforest.nodup_up c) fun n x hx => ?_).2
      ⟨k, hforest.reaches_records_up (.single hc) hx⟩
    exact mem_records_within (fun a b hb => (mem_superiorsAmong.1 hb).1) hmem hx

/-- **Behind a subordinate** are nodes below it, and all of them if they can be counted. -/
theorem mem_nodesBehind_subordinate (hb : b ∈ subordinatesAmong h.records h.thisNode) :
    (x ∈ h.nodesBehind b.socketAddress → ∃ k, Reaches (subordinatesAmong h.all) k b x) ∧
      (h.records.length < 2 ^ 31 → (∃ k, Reaches (subordinatesAmong h.all) k b x) →
        x ∈ h.nodesBehind b.socketAddress) := by
  have hmem : b ∈ h.records := (mem_subordinatesAmong.1 hb).1
  have hb' : b ∈ subordinatesAmong h.all h.thisNode :=
    mem_subordinatesAmong.2 ⟨List.mem_cons_of_mem _ hmem, (mem_subordinatesAmong.1 hb).2⟩
  rw [hforest.nodesBehind_subordinate hb]
  constructor
  · intro hx
    obtain ⟨k, -, hx⟩ := mem_within.1 hx
    exact ⟨k, reaches_all_down hx⟩
  · rintro hsize ⟨k, hx⟩
    refine (mem_within_maxDepth hsize (hforest.nodup_down (List.mem_cons_of_mem _ hmem)) fun n x hx => ?_).2
      ⟨k, hforest.reaches_records_down (.single hb') hx⟩
    exact mem_records_within (fun a b hb => (mem_subordinatesAmong.1 hb).1) hmem hx

end IsForest

/-! ### Splitting the tree -/

/-- The neighbours in the table: the superior and the direct subordinates. -/
def neighbours (h : Hierarchy) : List HierarchyNode :=
  superiorsAmong h.records h.thisNode ++ subordinatesAmong h.records h.thisNode

/-- The neighbours split the tree: every other node is behind exactly one of them, once, and
the threads behind them are those of all other nodes. -/
structure Splits (h : Hierarchy) : Prop where
  /-- The nodes. -/
  nodes : (h.neighbours.flatMap fun n => h.nodesBehind n.socketAddress).Perm h.records
  /-- The threads. -/
  threads_eq : (h.neighbours.foldl (fun sum n => sum + threads (h.nodesBehind n.socketAddress)) 0) =
    threads h.records

/-- Every other node is above or below this one. -/
def Lineal (h : Hierarchy) : Prop :=
  ∀ r ∈ h.records, (∃ k, Reaches (superiorsAmong h.all) (k + 1) h.thisNode r) ∨
    ∃ k, Reaches (superiorsAmong h.all) (k + 1) r h.thisNode

theorem foldl_threads (nodes : List HierarchyNode) (sum : UInt32) :
    nodes.foldl (fun sum n => sum + n.totalThreads.toUInt32) sum = sum + threads nodes := by
  induction nodes generalizing sum with
  | nil => exact (UInt32.add_zero sum).symm
  | cons n nodes ih =>
    rw [threads, List.foldl_cons, List.foldl_cons, ih, ih (0 + _), UInt32.zero_add, UInt32.add_assoc]

theorem threads_append (xs ys : List HierarchyNode) : threads (xs ++ ys) = threads xs + threads ys := by
  rw [threads, List.foldl_append, foldl_threads]
  rfl

theorem threads_of_perm {xs ys : List HierarchyNode} (hperm : xs.Perm ys) : threads xs = threads ys := by
  refine hperm.foldl_eq' (fun x _ y _ sum => ?_) 0
  rw [UInt32.add_assoc, UInt32.add_assoc, UInt32.add_comm x.totalThreads.toUInt32]

/-- The threads behind several neighbours are the threads of the nodes behind them. -/
theorem foldl_threads_flatMap (f : HierarchyNode → List HierarchyNode) (nodes : List HierarchyNode) (sum : UInt32) :
    nodes.foldl (fun sum n => sum + threads (f n)) sum = sum + threads (nodes.flatMap f) := by
  induction nodes generalizing sum with
  | nil => exact (UInt32.add_zero sum).symm
  | cons n nodes ih => rw [List.foldl_cons, ih, List.flatMap_cons, threads_append, UInt32.add_assoc]

/-- The threads add up when the nodes do. -/
theorem splits_iff (h : Hierarchy) :
    h.Splits ↔ (h.neighbours.flatMap fun n => h.nodesBehind n.socketAddress).Perm h.records := by
  constructor
  · exact fun hsplits => hsplits.nodes
  · intro hperm
    refine ⟨hperm, ?_⟩
    rw [foldl_threads_flatMap, UInt32.zero_add, threads_of_perm hperm]

namespace IsForest

variable {h : Hierarchy} (hforest : h.IsForest) {a b r x : HierarchyNode}

include hforest

/-- **No node is behind two neighbours.** -/
theorem nodup_behind : (h.neighbours.flatMap fun n => h.nodesBehind n.socketAddress).Nodup := by
  have hthis : h.thisNode ∈ h.all := List.mem_cons_self
  have hdown {b : HierarchyNode} (hb : b ∈ subordinatesAmong h.records h.thisNode) :
      b ∈ subordinatesAmong h.all h.thisNode :=
    mem_subordinatesAmong.2 ⟨List.mem_cons_of_mem _ (mem_subordinatesAmong.1 hb).1, (mem_subordinatesAmong.1 hb).2⟩
  have hup {b : HierarchyNode} (hb : b ∈ superiorsAmong h.records h.thisNode) :
      b ∈ superiorsAmong h.all h.thisNode :=
    mem_superiorsAmong.2 ⟨List.mem_cons_of_mem _ (mem_superiorsAmong.1 hb).1, (mem_superiorsAmong.1 hb).2⟩
  have hkeep : ∀ a b, a ∈ h.all → b ∈ subordinatesAmong h.all a → b ∈ h.all := fun _ _ _ hb =>
    (mem_subordinatesAmong.1 hb).1
  rw [List.nodup_flatMap]
  constructor
  · intro n hn
    rcases List.mem_append.1 hn with hn | hn
    · rw [hforest.nodesBehind_superior hn]
      exact hforest.nodup_up n maxDepth
    · rw [hforest.nodesBehind_subordinate hn]
      exact hforest.nodup_down (hkeep h.thisNode n hthis (hdown hn)) maxDepth
  · have hnodup : h.neighbours.Nodup := by
      refine List.Nodup.append (hforest.nodup_records.filter _) (hforest.nodup_records.filter _) ?_
      intro b hsuperior hsubordinate
      have habove := reaches_reverse hthis (.single (hdown hsubordinate))
      exact hforest.acyclic 1 h.thisNode ((Reaches.single (hup hsuperior)).add habove)
    refine hnodup.imp_of_mem fun {a b} ha hb hne => ?_
    intro x hxa hxb
    -- A node above this one is not below it, and two subordinates share no node below them.
    have hapart {a b : HierarchyNode} (ha : a ∈ superiorsAmong h.records h.thisNode)
        (hb : b ∈ subordinatesAmong h.records h.thisNode) (hxa : x ∈ h.nodesBehind a.socketAddress)
        (hxb : x ∈ h.nodesBehind b.socketAddress) : False := by
      obtain ⟨j, habove⟩ := (hforest.mem_nodesBehind_superior ha).1 hxa
      obtain ⟨k, hbelow⟩ := (hforest.mem_nodesBehind_subordinate hb).1 hxb
      have hround := habove.add (reaches_reverse hthis ((Reaches.single (hdown hb)).add hbelow))
      rw [show j + 1 + (1 + k) = j + 1 + k + 1 by omega] at hround
      exact hforest.acyclic _ _ hround
    rcases List.mem_append.1 ha with ha | ha
    · rcases List.mem_append.1 hb with hb | hb
      · exact hne (hforest.functional _ _ _ (hup ha) (hup hb))
      · exact hapart ha hb hxa hxb
    · rcases List.mem_append.1 hb with hb | hb
      · exact hapart hb ha hxb hxa
      · obtain ⟨j, hxa⟩ := (hforest.mem_nodesBehind_subordinate ha).1 hxa
        obtain ⟨k, hxb⟩ := (hforest.mem_nodesBehind_subordinate hb).1 hxb
        exact hne (Reaches.siblings hforest.acyclic_down hkeep hforest.injective hthis (hdown ha) (hdown hb) hxa hxb)

/-- What is behind a neighbour is another node of the tree. -/
theorem mem_records_of_behind {n : HierarchyNode} (hn : n ∈ h.neighbours) (hx : x ∈ h.nodesBehind n.socketAddress) :
    x ∈ h.records := by
  rcases List.mem_append.1 hn with hn | hn
  · rw [hforest.nodesBehind_superior hn] at hx
    exact mem_records_within (fun a b hb => (mem_superiorsAmong.1 hb).1) (mem_superiorsAmong.1 hn).1 hx
  · rw [hforest.nodesBehind_subordinate hn] at hx
    exact mem_records_within (fun a b hb => (mem_subordinatesAmong.1 hb).1) (mem_subordinatesAmong.1 hn).1 hx

/-- **What is behind the neighbours** is above or below this node. -/
theorem lineal_of_behind (hx : x ∈ h.neighbours.flatMap fun n => h.nodesBehind n.socketAddress) :
    (∃ k, Reaches (superiorsAmong h.all) (k + 1) h.thisNode x) ∨
      ∃ k, Reaches (superiorsAmong h.all) (k + 1) x h.thisNode := by
  obtain ⟨n, hn, hx⟩ := List.mem_flatMap.1 hx
  rcases List.mem_append.1 hn with hn | hn
  · exact Or.inl ((hforest.mem_nodesBehind_superior hn).1 hx)
  · obtain ⟨k, hx⟩ := (hforest.mem_nodesBehind_subordinate hn).1 hx
    have hn' : n ∈ subordinatesAmong h.all h.thisNode :=
      mem_subordinatesAmong.2 ⟨List.mem_cons_of_mem _ (mem_subordinatesAmong.1 hn).1, (mem_subordinatesAmong.1 hn).2⟩
    have hbelow := reaches_reverse List.mem_cons_self ((Reaches.single hn').add hx)
    rw [Nat.add_comm] at hbelow
    exact Or.inr ⟨k, hbelow⟩

/-- What is above or below this node is behind a neighbour. -/
theorem behind_of_lineal (hsize : h.records.length < 2 ^ 31) (hx : x ∈ h.records)
    (hlineal : (∃ k, Reaches (superiorsAmong h.all) (k + 1) h.thisNode x) ∨
      ∃ k, Reaches (superiorsAmong h.all) (k + 1) x h.thisNode) :
    x ∈ h.neighbours.flatMap fun n => h.nodesBehind n.socketAddress := by
  rcases hlineal with ⟨k, n, hn, habove⟩ | ⟨k, hbelow⟩
  · have hn' : n ∈ superiorsAmong h.records h.thisNode := by
      obtain ⟨hmem, haddress⟩ := mem_superiorsAmong.1 hn
      refine mem_superiorsAmong.2 ⟨?_, haddress⟩
      rcases List.mem_cons.1 hmem with rfl | hmem
      · exact absurd (Reaches.single hn) (hforest.acyclic 0 _)
      · exact hmem
    exact List.mem_flatMap.2 ⟨n, List.mem_append_left _ hn',
      (hforest.mem_nodesBehind_superior hn').2 hsize ⟨k, n, hn, habove⟩⟩
  · obtain ⟨n, hn, hbelow⟩ := reaches_reverse' (List.mem_cons_of_mem _ hx) hbelow
    have hn' : n ∈ subordinatesAmong h.records h.thisNode := by
      obtain ⟨hmem, haddress⟩ := mem_subordinatesAmong.1 hn
      refine mem_subordinatesAmong.2 ⟨?_, haddress⟩
      rcases List.mem_cons.1 hmem with rfl | hmem
      · exact absurd (Reaches.single hn) (hforest.acyclic_down 0 _)
      · exact hmem
    exact List.mem_flatMap.2 ⟨n, List.mem_append_right _ hn',
      (hforest.mem_nodesBehind_subordinate hn').2 hsize ⟨k, hbelow⟩⟩

end IsForest

namespace IsTree

variable {h : Hierarchy} (htree : h.IsTree) {r : HierarchyNode}

include htree

theorem isKeyed : h.IsKeyed where
  own_missing := htree.own_missing
  keyed a r hr := (htree.keyed a r hr).1

theorem address_ne_unset (hr : r ∈ h.all) : r.socketAddress ≠ .unset := by
  rcases List.mem_cons.1 hr with rfl | hr
  · exact htree.own_set
  · obtain ⟨a, ha⟩ := mem_records.1 hr
    obtain ⟨rfl, hset⟩ := htree.keyed a r ha
    exact hset

/-- No node of a tree is above itself. -/
theorem isForest : h.IsForest where
  toIsKeyed := htree.isKeyed
  acyclic := by
    refine acyclic_of_ends htree.isKeyed.functional fun a b hb => ?_
    obtain ⟨root, hroot, hall⟩ := htree.rooted
    obtain ⟨n, hn⟩ := hall b (mem_superiorsAmong.1 hb).1
    refine ⟨n, root, hn, List.eq_nil_iff_forall_not_mem.2 fun x hx => ?_⟩
    obtain ⟨hx, haddress⟩ := mem_superiorsAmong.1 hx
    exact htree.address_ne_unset hx (haddress.symm.trans hroot)

/-- **The neighbours of a node split the tree exactly if every other node is above or below it**,
as long as an `int` can count the nodes. The siblings of the node and of the nodes above it are
behind none of its neighbours. -/
theorem splits_iff_lineal : (h.Splits → h.Lineal) ∧ (h.Lineal → h.records.length < 2 ^ 31 → h.Splits) := by
  constructor
  · intro hsplits r hr
    exact htree.isForest.lineal_of_behind (hsplits.nodes.mem_iff.2 hr)
  · intro hlineal hsize
    rw [splits_iff, List.perm_ext_iff_of_nodup htree.isForest.nodup_behind htree.isForest.nodup_records]
    intro x
    constructor
    · intro hx
      obtain ⟨n, hn, hx⟩ := List.mem_flatMap.1 hx
      exact htree.isForest.mem_records_of_behind hn hx
    · intro hx
      exact htree.isForest.behind_of_lineal hsize hx (hlineal x hx)

end IsTree

/-- A node whose superior is above all other nodes. -/
theorem isTree_of_root {h : Hierarchy} {root : HierarchyNode} (hown : h.socketAddress ≠ .unset)
    (hmissing : h.nodes.lookup h.socketAddress = none)
    (hkeyed : ∀ entry ∈ h.nodes.entries, entry.2.socketAddress = entry.1 ∧ entry.1 ≠ .unset)
    (hroot : root ∈ h.records) (hunset : root.superiorSocketAddress = .unset)
    (hbelow : ∀ r ∈ h.all, r = root ∨ r.superiorSocketAddress = root.socketAddress) : h.IsTree where
  own_set := hown
  own_missing := hmissing
  keyed a r hr := hkeyed ⟨a, r⟩ (AList.mem_lookup_iff.1 hr)
  rooted := by
    refine ⟨root, hunset, fun r hr => ?_⟩
    rcases hbelow r hr with rfl | hsuperior
    · exact ⟨0, rfl⟩
    · exact ⟨1, .single (mem_superiorsAmong.2 ⟨List.mem_cons_of_mem _ hroot, hsuperior⟩)⟩

/-! ### Two and three nodes -/

/-- The record of a node of 10.0.0.0/8 with a superior. -/
def subordinateRecord (i superior : UInt32) : HierarchyNode :=
  { nodeRecord i with superiorSocketAddress := nodeAddress superior }

/-- The node at 10.0.0.2 is the only subordinate of the one at 10.0.0.1. -/
def onlySubordinate : Hierarchy where
  netmask := 8
  thisNode := subordinateRecord 2 1
  nodes := ⟨[⟨nodeAddress 1, nodeRecord 1⟩], List.nodupKeys_singleton _⟩

/-- The node at 10.0.0.1 has another subordinate at 10.0.0.3. -/
def oneOfTwo : Hierarchy where
  netmask := 8
  thisNode := subordinateRecord 2 1
  nodes := ⟨[⟨nodeAddress 1, nodeRecord 1⟩, ⟨nodeAddress 3, subordinateRecord 3 1⟩],
    show [nodeAddress 1, nodeAddress 3].Nodup by decide⟩

theorem isTree_onlySubordinate : onlySubordinate.IsTree := by
  refine isTree_of_root (by decide) rfl (fun entry hentry => ?_) (List.mem_singleton_self (nodeRecord 1)) rfl
    fun r hr => ?_
  · rw [List.mem_singleton.1 hentry]
    exact ⟨rfl, by decide⟩
  · rcases List.mem_pair.1 hr with rfl | rfl
    · exact Or.inr rfl
    · exact Or.inl rfl

theorem isTree_oneOfTwo : oneOfTwo.IsTree := by
  refine isTree_of_root (by decide) rfl (fun entry hentry => ?_) (List.mem_cons_self (a := nodeRecord 1)) rfl
    fun r hr => ?_
  · rcases List.mem_pair.1 hentry with rfl | rfl
    · exact ⟨rfl, by decide⟩
    · exact ⟨rfl, by decide⟩
  · rcases List.mem_cons.1 hr with rfl | hr
    · exact Or.inr rfl
    · rcases List.mem_pair.1 hr with rfl | rfl
      · exact Or.inl rfl
      · exact Or.inr rfl

/-- The two nodes are split. -/
theorem splits_onlySubordinate : onlySubordinate.Splits := by
  refine (IsTree.splits_iff_lineal isTree_onlySubordinate).2 (fun r hr => ?_) (by decide)
  obtain rfl : r = nodeRecord 1 := List.mem_singleton.1 hr
  have hsuperior : nodeRecord 1 ∈ superiorsAmong onlySubordinate.all onlySubordinate.thisNode :=
    mem_superiorsAmong.2 ⟨List.mem_cons_of_mem _ (List.mem_singleton_self _), rfl⟩
  exact Or.inl ⟨0, .single hsuperior⟩

/-- The node at 10.0.0.3 is behind no neighbour of the one at 10.0.0.2. -/
theorem sibling_behind_nothing : ¬ ∀ h : Hierarchy, h.IsTree → h.Splits := by
  intro hall
  have hlength : (oneOfTwo.neighbours.flatMap fun n => oneOfTwo.nodesBehind n.socketAddress).length = 1 := by
    decide +kernel
  have hperm := (hall oneOfTwo isTree_oneOfTwo).nodes.length_eq
  rw [hlength] at hperm
  exact absurd hperm (by decide)

end Hierarchy

end Subordination.Daemon
