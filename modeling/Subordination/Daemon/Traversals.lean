import Subordination.Daemon.NodesBehind

/-!
# Traversals in memory

`traverse` holds a reference to a record of the array that it appends to. The array is given
room for one record more than the table has; when it grows beyond that, it is moved, and the
reference must not be looked at any more.

## What is proved

* **`traverseArray_nodes`** and **`traverseArray_of_room`**: a traversal in memory finds what the
  traversal finds, and it succeeds as long as the array is not moved.
* `IsKeyed.addNodes`: the operations of the table keep one record for each node.
* **`IsForest.listsAround_iff`**: the own record is twice in the array while `nodes(radius)` looks
  for the nodes above. If all records are below or above the node, the last one found is one too
  many, and then it must be the last one of the table.
-/

namespace Subordination.Daemon

open Subordination.Core Subordination.Library

/-! ### Arrays -/

/-- `hierarchy_node_array`: the records, and how many its memory has room for. -/
structure NodeArray where
  /-- The records. -/
  nodes : List HierarchyNode
  /-- `capacity()`. -/
  capacity : ℕ
  /-- The records are in the memory. -/
  fits : nodes.length ≤ capacity

namespace NodeArray

/-- There is no room for another record. -/
def IsFull (v : NodeArray) : Prop := v.nodes.length = v.capacity

instance (v : NodeArray) : Decidable v.IsFull := inferInstanceAs (Decidable (_ = _))

/-- `emplace_back`. An array that is full is moved into memory twice as large. -/
def emplaceBack (v : NodeArray) (b : HierarchyNode) : NodeArray where
  nodes := v.nodes ++ [b]
  capacity := if v.IsFull then v.nodes.length + max v.nodes.length 1 else v.capacity
  fits := by
    have hfits := v.fits
    rw [List.length_append, List.length_singleton]
    split
    · omega
    · next hfull =>
      have hne : v.nodes.length ≠ v.capacity := hfull
      omega

/-- The array of one record, after `reserve(n + 1)`. It may have been given more. -/
def reserve (n spare : ℕ) (b : HierarchyNode) : NodeArray := ⟨[b], n + 1 + spare, by simp; omega⟩

@[simp] theorem nodes_emplaceBack (v : NodeArray) (b : HierarchyNode) : (v.emplaceBack b).nodes = v.nodes ++ [b] := rfl

theorem capacity_emplaceBack {v : NodeArray} (b : HierarchyNode) (hroom : ¬ v.IsFull) :
    (v.emplaceBack b).capacity = v.capacity := if_neg hroom

theorem capacity_le_emplaceBack (v : NodeArray) (b : HierarchyNode) : v.capacity ≤ (v.emplaceBack b).capacity := by
  by_cases hfull : v.IsFull
  · have hlength : v.nodes.length = v.capacity := hfull
    rw [emplaceBack]
    simp only [if_pos hfull]
    omega
  · exact (capacity_emplaceBack b hfull).ge

end NodeArray

namespace Hierarchy

/-! ### One record for each node -/

namespace IsKeyed

variable {h : Hierarchy} (hkeyed : h.IsKeyed) {a : SocketAddress} {n r : HierarchyNode} {now : TimePoint}

include hkeyed

/-- A record is put at the address of its node. -/
theorem put (ha : a ≠ h.socketAddress) (hr : r.socketAddress = a) : (h.put a r).IsKeyed where
  own_missing := by
    show (h.nodes.insert a r).lookup h.socketAddress = none
    rw [AList.lookup_insert_ne ha.symm]
    exact hkeyed.own_missing
  keyed a' r' hr' := by
    by_cases heq : a' = a
    · subst heq
      rw [Hierarchy.put, AList.lookup_insert] at hr'
      obtain rfl := Option.some.inj hr'
      exact hr
    · rw [Hierarchy.put, AList.lookup_insert_ne heq] at hr'
      exact hkeyed.keyed a' r' hr'

theorem addNode : (h.addNode n now).1.IsKeyed := by
  rcases h.addNode_cases n now with ⟨-, heq⟩ | ⟨hne, -, heq⟩ | ⟨hne, b, hb, -, heq | heq⟩
  · rwa [heq]
  · rw [heq]
    exact hkeyed.put hne rfl
  · rw [heq]
    exact hkeyed.put hne (hkeyed.keyed _ b hb)
  · rwa [heq]

/-- **`add_nodes` keeps one record for each node**, whatever it is given. -/
theorem addNodes (nodes : List HierarchyNode) : (h.addNodes nodes now).1.IsKeyed := by
  induction nodes generalizing h with
  | nil => exact hkeyed
  | cons n nodes ih => exact ih hkeyed.addNode

/-- And so does `add_subordinate` for a node that is in the table. -/
theorem addSubordinate (hn : h.nodes.lookup n.socketAddress = some r) : (h.addSubordinate n now).1.IsKeyed := by
  have hne : n.socketAddress ≠ h.socketAddress := by
    intro heq
    rw [heq, hkeyed.own_missing] at hn
    cases hn
  rw [Hierarchy.addSubordinate, hn]
  show (if _ then _ else _ : Hierarchy × Bool).1.IsKeyed
  split
  · exact hkeyed.put hne (hkeyed.keyed _ r hn)
  · exact hkeyed.put hne (hkeyed.keyed _ r hn)

end IsKeyed

/-! ### The loops -/

/-- The innermost loop of `traverse`. The reference `a` is `none` once the array has been moved
away from the memory that it refers to. -/
def visitTable (pred : List HierarchyNode → HierarchyNode → HierarchyNode → Bool) :
    List HierarchyNode → Option HierarchyNode → NodeArray → Option NodeArray
  | [], _, v => some v
  | b :: bs, a, v => do
    let record ← a
    if pred v.nodes b record then visitTable pred bs (if v.IsFull then none else a) (v.emplaceBack b)
    else visitTable pred bs a v

/-- The loops of `traverse` over the array and the table. -/
def visitArray (h : Hierarchy) (pred : List HierarchyNode → HierarchyNode → HierarchyNode → Bool)
    (as : List HierarchyNode) (v : NodeArray) : Option NodeArray :=
  as.foldlM (fun v a => visitTable pred h.records (some a) v) v

/-- `traverse`, in memory. -/
def traverseArray (h : Hierarchy) (pred : List HierarchyNode → HierarchyNode → HierarchyNode → Bool) :
    ℕ → ℕ → NodeArray → Option NodeArray
  | 0, _, result => some result
  | radius + 1, j0, result => do
    let result' ← h.visitArray pred (result.nodes.drop j0) result
    if result'.nodes.length = result.nodes.length then some result'
    else h.traverseArray pred radius result.nodes.length result'

/-- `nodes(radius)`, in memory. -/
def nodesInMemory (h : Hierarchy) (spare radius : ℕ) : Option (List HierarchyNode) := do
  let result ← h.traverseArray isSubordinate radius 0 (.reserve h.records.length spare h.thisNode)
  let oldSize := result.nodes.length
  let result ← h.traverseArray isNewSuperior radius 0 (result.emplaceBack h.thisNode)
  pure (result.nodes.eraseIdx oldSize)

/-- `lower_nodes(from, depth)`, in memory. -/
def lowerNodesInMemory (h : Hierarchy) (spare : ℕ) (node : HierarchyNode) (depth : ℕ) :
    Option (List HierarchyNode) := do
  let result ← h.traverseArray isSubordinate depth 0 (.reserve h.records.length spare node)
  pure result.nodes

/-- `upper_nodes(from, depth)`, in memory. -/
def upperNodesInMemory (h : Hierarchy) (spare : ℕ) (node : HierarchyNode) (depth : ℕ) :
    Option (List HierarchyNode) := do
  let result ← h.traverseArray isNewSuperior depth 0 (.reserve h.records.length spare node)
  pure result.nodes

/-- `nodes_behind`, in memory. -/
def nodesBehindInMemory (h : Hierarchy) (spare : ℕ) (a : SocketAddress) : Option (List HierarchyNode) :=
  match h.nodes.lookup a with
  | none => some []
  | some b =>
    if a = h.superiorSocketAddress then h.upperNodesInMemory spare b maxDepth
    else h.lowerNodesInMemory spare b maxDepth

/-! ### What they find -/

section Arrays

variable {h : Hierarchy} {pred : List HierarchyNode → HierarchyNode → HierarchyNode → Bool} {a b : HierarchyNode}
  {v w : NodeArray} {as bs xs : List HierarchyNode} {n j0 : ℕ}

/-- The table beside one record, without regard to memory. -/
theorem visitTable_nodes {reference : Option HierarchyNode} (hreference : ∀ x ∈ reference, x = a)
    (hvisit : visitTable pred xs reference v = some w) :
    w.nodes = xs.foldl (fun result b => if pred result b a then result ++ [b] else result) v.nodes := by
  induction xs generalizing reference v with
  | nil =>
    cases hvisit
    rfl
  | cons b xs ih =>
    obtain ⟨record, hrecord, hvisit⟩ := Option.bind_eq_some_iff.1 hvisit
    obtain rfl := hreference record hrecord
    rw [List.foldl_cons]
    split at hvisit
    · next hpred =>
      rw [if_pos hpred]
      refine ih (fun x hx => ?_) hvisit
      split at hx
      · exact absurd hx (Option.not_mem_none x)
      · exact hreference x hx
    · next hpred =>
      rw [if_neg hpred]
      exact ih hreference hvisit

theorem visitArray_nodes (hvisit : h.visitArray pred as v = some w) :
    w.nodes = as.foldl (h.traverseTable pred) v.nodes := by
  induction as generalizing v with
  | nil =>
    cases hvisit
    rfl
  | cons a as ih =>
    obtain ⟨u, hu, hvisit⟩ := Option.bind_eq_some_iff.1 hvisit
    rw [List.foldl_cons, ih hvisit, visitTable_nodes (fun x hx => (Option.mem_some.1 hx).symm) hu]
    rfl

/-- **A traversal in memory finds what the traversal finds.** -/
theorem traverseArray_nodes (htraverse : h.traverseArray pred n j0 v = some w) :
    w.nodes = h.traverse pred n j0 v.nodes := by
  induction n generalizing j0 v with
  | zero =>
    cases htraverse
    rfl
  | succ n ih =>
    obtain ⟨u, hu, htraverse⟩ := Option.bind_eq_some_iff.1 htraverse
    rw [traverse, ← visitArray_nodes hu]
    split at htraverse
    · next hlength =>
      cases htraverse
      rw [if_pos hlength]
    · next hlength =>
      rw [if_neg hlength]
      exact ih htraverse

/-! ### Where there is room -/

theorem length_le_foldl (xs result : List HierarchyNode) (a : HierarchyNode) :
    result.length ≤ (xs.foldl (fun result b => if pred result b a then result ++ [b] else result) result).length := by
  induction xs generalizing result with
  | nil => exact le_rfl
  | cons b xs ih =>
    refine le_trans ?_ (ih _)
    dsimp only
    split
    · rw [List.length_append]
      omega
    · exact le_rfl

theorem visitTable_of_room
    (hroom : (xs.foldl (fun result b => if pred result b a then result ++ [b] else result) v.nodes).length ≤
      v.capacity) :
    ∃ w, visitTable pred xs (some a) v = some w ∧ w.capacity = v.capacity := by
  induction xs generalizing v with
  | nil => exact ⟨v, rfl, rfl⟩
  | cons b xs ih =>
    rw [List.foldl_cons] at hroom
    rw [visitTable]
    by_cases hpred : pred v.nodes b a = true
    · rw [if_pos hpred] at hroom
      have hlength := (length_le_foldl xs (v.nodes ++ [b]) a).trans hroom
      have hfull : ¬ v.IsFull := by
        intro hfull
        have hsame : v.nodes.length = v.capacity := hfull
        rw [List.length_append, List.length_singleton] at hlength
        omega
      obtain ⟨w, hw, hcapacity⟩ := @ih (v.emplaceBack b) (by rwa [NodeArray.capacity_emplaceBack b hfull])
      refine ⟨w, ?_, hcapacity.trans (NodeArray.capacity_emplaceBack b hfull)⟩
      simpa [hpred, hfull] using hw
    · rw [if_neg hpred] at hroom
      obtain ⟨w, hw, hcapacity⟩ := ih hroom
      exact ⟨w, by simpa [hpred] using hw, hcapacity⟩

theorem visitArray_of_room (hroom : (as.foldl (h.traverseTable pred) v.nodes).length ≤ v.capacity) :
    ∃ w, h.visitArray pred as v = some w ∧ w.capacity = v.capacity := by
  induction as generalizing v with
  | nil => exact ⟨v, rfl, rfl⟩
  | cons a as ih =>
    rw [List.foldl_cons] at hroom
    have hle : (h.traverseTable pred v.nodes a).length ≤ v.capacity :=
      (goesOn_foldl pred as _).length_le.trans hroom
    obtain ⟨u, hu, hcapacity⟩ := visitTable_of_room hle
    have hnodes : u.nodes = h.traverseTable pred v.nodes a :=
      visitTable_nodes (fun x hx => (Option.mem_some.1 hx).symm) hu
    obtain ⟨w, hw, hcapacity'⟩ := @ih u (by rwa [hnodes, hcapacity])
    exact ⟨w, Option.bind_eq_some_iff.2 ⟨u, hu, hw⟩, hcapacity'.trans hcapacity⟩

/-- **A traversal in memory succeeds** if there is room for what the traversal finds. -/
theorem traverseArray_of_room (h : Hierarchy) (pred : List HierarchyNode → HierarchyNode → HierarchyNode → Bool)
    (n j0 : ℕ) (v : NodeArray) (hroom : (h.traverse pred n j0 v.nodes).length ≤ v.capacity) :
    ∃ w, h.traverseArray pred n j0 v = some w ∧ w.capacity = v.capacity := by
  induction n generalizing j0 v with
  | zero => exact ⟨v, rfl, rfl⟩
  | succ n ih =>
    rw [traverse] at hroom
    have hle : ((v.nodes.drop j0).foldl (h.traverseTable pred) v.nodes).length ≤ v.capacity := by
      refine le_trans ?_ hroom
      split
      · exact le_rfl
      · exact (goesOn_traverse pred n v.nodes.length _).length_le
    obtain ⟨u, hu, hcapacity⟩ := visitArray_of_room hle
    rw [← visitArray_nodes hu] at hroom
    by_cases hlength : u.nodes.length = v.nodes.length
    · refine ⟨u, Option.bind_eq_some_iff.2 ⟨u, hu, ?_⟩, hcapacity⟩
      rw [if_pos hlength]
    · rw [if_neg hlength, ← hcapacity] at hroom
      obtain ⟨w, hw, hcapacity'⟩ := ih _ _ hroom
      refine ⟨w, Option.bind_eq_some_iff.2 ⟨u, hu, ?_⟩, hcapacity'.trans hcapacity⟩
      rw [if_neg hlength]
      exact hw

/-! ### The way up -/

theorem visitTable_append {pre : List HierarchyNode} (hpre : ∀ b ∈ pre, ¬ pred v.nodes b a = true) :
    visitTable pred (pre ++ bs) (some a) v = visitTable pred bs (some a) v := by
  induction pre with
  | nil => rfl
  | cons b pre ih =>
    rw [List.cons_append, visitTable]
    show (if _ then _ else _) = _
    rw [if_neg (hpre b List.mem_cons_self)]
    exact ih fun x hx => hpre x (List.mem_cons_of_mem b hx)

theorem visitTable_idle (hidle : ∀ b ∈ xs, ¬ pred v.nodes b a = true) : visitTable pred xs (some a) v = some v := by
  rw [← List.append_nil xs, visitTable_append hidle]
  rfl

theorem visitArray_idle (hidle : ∀ a ∈ as, ∀ b ∈ h.records, ¬ pred v.nodes b a = true) :
    h.visitArray pred as v = some v := by
  induction as with
  | nil => rfl
  | cons a as ih =>
    refine Option.bind_eq_some_iff.2 ⟨v, visitTable_idle (hidle a List.mem_cons_self), ?_⟩
    exact ih fun x hx => hidle x (List.mem_cons_of_mem a hx)

/-- **The array is moved under the reference** if the superior that is found is not the last
record of the table. -/
theorem visitTable_superior {s : HierarchyNode} (hnodup : xs.Nodup) (hs : superiorsAmong xs a = [s])
    (hnew : ∀ x ∈ v.nodes, x.socketAddress ≠ s.socketAddress) :
    (¬ v.IsFull ∨ xs.getLast? = some s → visitTable isNewSuperior xs (some a) v = some (v.emplaceBack s)) ∧
      (v.IsFull → xs.getLast? ≠ some s → visitTable isNewSuperior xs (some a) v = none) := by
  obtain ⟨pre, post, rfl, hpre, hmatch, hpost⟩ := List.filter_eq_cons_iff.1 hs
  have hpost : ∀ b ∈ post, ¬ a.superiorSocketAddress = b.socketAddress := by
    intro b hb heq
    exact List.not_mem_nil (hpost ▸ List.mem_filter.2 ⟨hb, decide_eq_true heq⟩)
  have hidle {u : NodeArray} {b : HierarchyNode} (hb : ¬ a.superiorSocketAddress = b.socketAddress) :
      ¬ isNewSuperior u.nodes b a = true := fun hpred => hb (of_decide_eq_true hpred).1
  have hvisit : visitTable isNewSuperior (pre ++ s :: post) (some a) v =
      visitTable isNewSuperior post (if v.IsFull then none else some a) (v.emplaceBack s) := by
    rw [visitTable_append fun b hb => hidle fun heq => hpre b hb (decide_eq_true heq), visitTable]
    exact if_pos (looks_isNewSuperior.new v.nodes s a hnew hmatch)
  rw [hvisit]
  constructor
  · intro hlast
    by_cases hfull : v.IsFull
    · -- Nothing is left to be looked at.
      obtain rfl : post = [] := by
        have hlast := hlast.resolve_left (not_not_intro hfull)
        cases post with
        | nil => rfl
        | cons b post =>
          have hs : s ∉ b :: post := (List.nodup_cons.1 (List.nodup_append.1 hnodup).2.1).1
          rw [List.getLast?_append_cons, List.getLast?_cons_cons] at hlast
          exact absurd (List.mem_of_getLast? hlast) hs
      rfl
    · rw [if_neg hfull]
      exact visitTable_idle fun b hb => hidle (hpost b hb)
  · intro hfull hlast
    rw [if_pos hfull]
    cases post with
    | nil => exact absurd List.getLast?_concat hlast
    | cons b post => rfl

/-- The nodes of a list that have no superior that is not there yet. -/
def Idle (h : Hierarchy) (as result : List HierarchyNode) : Prop :=
  ∀ a ∈ as, ∀ b ∈ h.records, ¬ isNewSuperior result b a = true

/-- The only superior of a node is there. -/
theorem idle_of_superior (hlength : (superiorsAmong h.records a).length ≤ 1)
    (hsuperior : ∀ s ∈ superiorsAmong h.records a, ∃ x ∈ xs, x.socketAddress = s.socketAddress) : h.Idle [a] xs := by
  intro c hc b hb hpred
  obtain rfl := List.mem_singleton.1 hc
  obtain ⟨haddress, hnew⟩ := of_decide_eq_true hpred
  obtain ⟨x, hx, hsame⟩ := hsuperior b (mem_superiorsAmong.2 ⟨hb, haddress⟩)
  exact of_decide_eq_true (List.all_eq_true.1 hnew x hx) hsame

/-- No node has a superior to be found. -/
theorem traverseArray_up_nil (hstart : v.nodes.drop j0 = a :: as) (hs : superiorsAmong h.records a = [])
    (hidle : h.Idle as v.nodes) : h.traverseArray isNewSuperior (n + 1) j0 v = some v := by
  have hidle' : h.Idle (a :: as) v.nodes := by
    intro c hc
    rcases List.mem_cons.1 hc with rfl | hc
    · exact idle_of_superior (by simp [hs]) (by simp [hs]) c (List.mem_singleton_self c)
    · exact hidle c hc
  rw [traverseArray, hstart, visitArray_idle hidle']
  exact if_pos rfl

/-- The superior is found, and the other nodes have none to be found. -/
theorem traverseArray_up_succ {s : HierarchyNode} (hkeyed : h.IsKeyed) (hstart : v.nodes.drop j0 = a :: as)
    (hs : superiorsAmong h.records a = [s]) (hidle : h.Idle as (v.nodes ++ [s]))
    (hsnew : ∀ y ∈ v.nodes, y.socketAddress ≠ s.socketAddress) (hok : ¬ v.IsFull ∨ h.records.getLast? = some s) :
    h.traverseArray isNewSuperior (n + 1) j0 v = h.traverseArray isNewSuperior n v.nodes.length (v.emplaceBack s) := by
  have hstay := (visitTable_superior hkeyed.nodup_records hs hsnew).1
  have hvisit : h.visitArray isNewSuperior (a :: as) v = some (v.emplaceBack s) :=
    Option.bind_eq_some_iff.2 ⟨v.emplaceBack s, hstay hok, visitArray_idle hidle⟩
  rw [traverseArray, hstart, hvisit]
  exact if_neg (by simp)

/-- Without room for it the search is lost, if it is not the last record. -/
theorem traverseArray_up_full {s : HierarchyNode} (hkeyed : h.IsKeyed) (hstart : v.nodes.drop j0 = a :: as)
    (hs : superiorsAmong h.records a = [s]) (hsnew : ∀ y ∈ v.nodes, y.socketAddress ≠ s.socketAddress)
    (hfull : v.IsFull) (hend : h.records.getLast? ≠ some s) : h.traverseArray isNewSuperior (n + 1) j0 v = none := by
  have hmove := (visitTable_superior hkeyed.nodup_records hs hsnew).2
  have hvisit : h.visitArray isNewSuperior (a :: as) v = none :=
    Option.bind_eq_none_iff.2 fun u hu => absurd (hu.symm.trans (hmove hfull hend)) (Option.some_ne_none u)
  rw [traverseArray, hstart, hvisit]
  rfl

/-- **The way up in memory.** It succeeds if there is room for all superiors, or if all but the
highest have room and that one is the last record of the table. -/
theorem traverseArray_up (hkeyed : h.IsKeyed) (hstart : v.nodes.drop j0 = a :: as)
    (hidle : h.Idle as (v.nodes ++ superiorsAmong h.records a))
    (hnew : ∀ x ∈ (within (superiorsAmong h.records) n [a]).tail, ∀ y ∈ v.nodes, y.socketAddress ≠ x.socketAddress)
    (hnodup : ((within (superiorsAmong h.records) n [a]).tail.map HierarchyNode.socketAddress).Nodup)
    (hroom : v.nodes.length + (within (superiorsAmong h.records) n [a]).tail.length ≤ v.capacity + 1) :
    (∃ w, h.traverseArray isNewSuperior n j0 v = some w ∧
      w.nodes = v.nodes ++ (within (superiorsAmong h.records) n [a]).tail) ↔
      v.nodes.length + (within (superiorsAmong h.records) n [a]).tail.length ≤ v.capacity ∨
        h.records.getLast? = (within (superiorsAmong h.records) n [a]).getLast? := by
  induction n generalizing j0 a as v with
  | zero =>
    refine iff_of_true ⟨v, rfl, (List.append_nil _).symm⟩ (Or.inl ?_)
    simpa [within] using v.fits
  | succ n ih =>
    rcases hs : superiorsAmong h.records a with _ | ⟨s, _ | ⟨b, rest⟩⟩
    · -- nothing is above
      have hwithin : within (superiorsAmong h.records) (n + 1) [a] = [a] := by
        rw [within, List.flatMap_singleton, hs]
        rfl
      rw [hs, List.append_nil] at hidle
      rw [hwithin]
      refine iff_of_true ⟨v, ?_, (List.append_nil _).symm⟩ (Or.inl (by simpa using v.fits))
      exact traverseArray_up_nil hstart hs hidle
    · have hwithin : within (superiorsAmong h.records) (n + 1) [a] = a :: within (superiorsAmong h.records) n [s] := by
        rw [within, List.flatMap_singleton, hs]
        rfl
      obtain ⟨rest, hrest⟩ := within_eq_append (superiorsAmong h.records) n [s]
      rw [hwithin, List.tail_cons, hrest] at hnew hnodup hroom ⊢
      have hlast : (a :: ([s] ++ rest)).getLast? = ([s] ++ rest).getLast? := List.getLast?_cons_cons
      have hcount : ([s] ++ rest).length = 1 + rest.length := List.length_append
      have htail : ([s] ++ rest).tail = rest := rfl
      rw [hcount] at hroom ⊢
      rw [hlast]
      have hsnew : ∀ y ∈ v.nodes, y.socketAddress ≠ s.socketAddress := hnew s List.mem_cons_self
      rw [hs] at hidle
      -- from the superior the way goes on
      have hnext := @ih s (v.emplaceBack s) [] v.nodes.length (by simp) (fun c hc => absurd hc List.not_mem_nil)
      rw [hrest, htail] at hnext
      specialize hnext (fun x hx y hy => ?_) (List.nodup_cons.1 hnodup).2 ?_
      · rcases List.mem_append.1 hy with hy | hy
        · exact hnew x (List.mem_cons_of_mem s hx) y hy
        · obtain rfl := List.mem_singleton.1 hy
          exact fun heq => (List.nodup_cons.1 hnodup).1 (heq ▸ List.mem_map_of_mem hx)
      · have hle := v.capacity_le_emplaceBack s
        rw [NodeArray.nodes_emplaceBack, List.length_append, List.length_singleton]
        omega
      rw [NodeArray.nodes_emplaceBack, List.append_assoc, List.length_append, List.length_singleton] at hnext
      by_cases hfull : v.IsFull
      · -- there is no superior above this one
        have hsame : v.nodes.length = v.capacity := hfull
        obtain rfl : rest = [] := List.eq_nil_of_length_eq_zero (by omega)
        rw [or_iff_right (by omega)]
        by_cases hend : h.records.getLast? = some s
        · rw [traverseArray_up_succ hkeyed hstart hs hidle hsnew (Or.inr hend)]
          exact iff_of_true (hnext.2 (Or.inr hend)) hend
        · rw [traverseArray_up_full hkeyed hstart hs hsnew hfull hend]
          refine iff_of_false ?_ hend
          rintro ⟨w, hw, -⟩
          cases hw
      · rw [traverseArray_up_succ hkeyed hstart hs hidle hsnew (Or.inl hfull), hnext,
          NodeArray.capacity_emplaceBack s hfull, Nat.add_assoc]
    · have hle := hkeyed.length_superiorsAmong a
      rw [hs] at hle
      exact absurd hle (by simp)

/-- What the way up finds does not depend on the room. -/
theorem traverseArray_up_nodes (hkeyed : h.IsKeyed) (hstart : v.nodes.drop j0 = a :: as)
    (hidle : h.Idle as (v.nodes ++ superiorsAmong h.records a))
    (hnew : ∀ x ∈ (within (superiorsAmong h.records) n [a]).tail, ∀ y ∈ v.nodes, y.socketAddress ≠ x.socketAddress)
    (hnodup : ((within (superiorsAmong h.records) n [a]).tail.map HierarchyNode.socketAddress).Nodup)
    (htraverse : h.traverseArray isNewSuperior n j0 v = some w) :
    w.nodes = v.nodes ++ (within (superiorsAmong h.records) n [a]).tail := by
  have hfits := v.fits
  let roomy : NodeArray :=
    ⟨v.nodes, v.capacity + (within (superiorsAmong h.records) n [a]).tail.length, by omega⟩
  have hroom : roomy.nodes.length + (within (superiorsAmong h.records) n [a]).tail.length ≤ roomy.capacity :=
    Nat.add_le_add_right hfits _
  obtain ⟨u, hu, hnodes⟩ := (traverseArray_up (v := roomy) hkeyed hstart hidle hnew hnodup
    (Nat.le_succ_of_le hroom)).2 (Or.inl hroom)
  rw [traverseArray_nodes htraverse, ← hnodes, traverseArray_nodes hu]

end Arrays

/-! ### The nodes around a node -/

section Around

variable {h : Hierarchy} {r t x : HierarchyNode} {n spare radius : ℕ}

/-- A record of the table at most `radius` links below the node. -/
def IsBelow (h : Hierarchy) (radius : ℕ) (r : HierarchyNode) : Prop :=
  ∃ k < radius, Reaches (subordinatesAmong h.all) (k + 1) h.thisNode r

/-- A record of the table at most `radius` links above the node. -/
def IsAbove (h : Hierarchy) (radius : ℕ) (r : HierarchyNode) : Prop :=
  ∃ k < radius, Reaches (superiorsAmong h.all) (k + 1) h.thisNode r

/-- The highest of these records. -/
def IsHighest (h : Hierarchy) (radius : ℕ) (t : HierarchyNode) : Prop :=
  ∃ k < radius, Reaches (superiorsAmong h.all) (k + 1) h.thisNode t ∧
    ∀ j x, k < j → j < radius → ¬ Reaches (superiorsAmong h.all) (j + 1) h.thisNode x

/-- The records that the way down finds. -/
def below (h : Hierarchy) (radius : ℕ) : List HierarchyNode :=
  (within (subordinatesAmong h.records) radius [h.thisNode]).tail

/-- The records that the way up finds. -/
def above (h : Hierarchy) (radius : ℕ) : List HierarchyNode :=
  (within (superiorsAmong h.records) radius [h.thisNode]).tail

theorem within_down (h : Hierarchy) (radius : ℕ) :
    within (subordinatesAmong h.records) radius [h.thisNode] = h.thisNode :: h.below radius :=
  within_singleton _ _ _

theorem within_up (h : Hierarchy) (radius : ℕ) :
    within (superiorsAmong h.records) radius [h.thisNode] = h.thisNode :: h.above radius :=
  within_singleton _ _ _

/-- `nodes(radius)` returns the own record, and then the records below and above the node, once each. -/
def ListsAround (h : Hierarchy) (spare radius : ℕ) : Prop :=
  ∃ rest, h.nodesInMemory spare radius = some (h.thisNode :: rest) ∧ rest.Nodup ∧
    ∀ r, r ∈ rest ↔ h.IsBelow radius r ∨ h.IsAbove radius r

namespace IsForest

variable (hforest : h.IsForest)

include hforest

theorem mem_below : x ∈ h.below n ↔ h.IsBelow n x := by
  refine (mem_tail_within (fun k hback => hforest.acyclic_down k _ (reaches_all_down hback))
    (hforest.nodup_down List.mem_cons_self n)).trans (exists_congr fun k => and_congr_right fun _ => ?_)
  exact ⟨reaches_all_down, hforest.reaches_records_down (m := 0) rfl⟩

theorem mem_above : x ∈ h.above n ↔ h.IsAbove n x := by
  refine (mem_tail_within (fun k hback => hforest.acyclic k _ (reaches_all_up hback))
    (hforest.nodup_up h.thisNode n)).trans (exists_congr fun k => and_congr_right fun _ => ?_)
  exact ⟨reaches_all_up, hforest.reaches_records_up (m := 0) rfl⟩

theorem mem_records_of_below (hx : h.IsBelow n x) : x ∈ h.records := by
  obtain ⟨k, -, hx⟩ := hx
  obtain ⟨b, -, hx⟩ := (hforest.reaches_records_down (m := 0) rfl hx).last
  exact (mem_subordinatesAmong.1 hx).1

theorem mem_records_of_above (hx : h.IsAbove n x) : x ∈ h.records := by
  obtain ⟨k, -, hx⟩ := hx
  obtain ⟨b, -, hx⟩ := (hforest.reaches_records_up (m := 0) rfl hx).last
  exact (mem_superiorsAmong.1 hx).1

/-- No node is above and below the node. -/
theorem not_below_and_above (hbelow : h.IsBelow n x) (habove : h.IsAbove n x) : False := by
  obtain ⟨j, -, hbelow⟩ := hbelow
  obtain ⟨k, -, habove⟩ := habove
  have hround := habove.add (reaches_reverse List.mem_cons_self hbelow)
  rw [← Nat.add_assoc] at hround
  exact hforest.acyclic _ _ hround

theorem nodup_around (n : ℕ) : (h.below n ++ h.above n).Nodup := by
  have hdown := hforest.nodup_down (b := h.thisNode) List.mem_cons_self n
  have hup := hforest.nodup_up h.thisNode n
  rw [within_down] at hdown
  rw [within_up] at hup
  refine List.Nodup.append (List.nodup_cons.1 hdown).2 (List.nodup_cons.1 hup).2 fun x hbelow habove => ?_
  exact hforest.not_below_and_above (hforest.mem_below.1 hbelow) (hforest.mem_above.1 habove)

theorem mem_records_of_around (hx : x ∈ h.below n ++ h.above n) : x ∈ h.records := by
  rcases List.mem_append.1 hx with hx | hx
  · exact hforest.mem_records_of_below (hforest.mem_below.1 hx)
  · exact hforest.mem_records_of_above (hforest.mem_above.1 hx)

theorem length_around_le (n : ℕ) : (h.below n).length + (h.above n).length ≤ h.records.length := by
  rw [← List.length_append]
  exact ((hforest.nodup_around n).subperm fun _ hx => hforest.mem_records_of_around hx).length_le

/-- Some record is neither below nor above the node. -/
theorem length_around_lt_iff : (h.below n).length + (h.above n).length < h.records.length ↔
    ∃ r ∈ h.records, ¬ h.IsBelow n r ∧ ¬ h.IsAbove n r := by
  rw [← List.length_append]
  constructor
  · intro hlt
    by_contra hall
    push Not at hall
    have hsub : h.records ⊆ h.below n ++ h.above n := fun r hr => by
      by_cases hbelow : h.IsBelow n r
      · exact List.mem_append_left _ (hforest.mem_below.2 hbelow)
      · exact List.mem_append_right _ (hforest.mem_above.2 (hall r hr hbelow))
    have hle := (hforest.nodup_records.subperm hsub).length_le
    omega
  · rintro ⟨r, hr, hbelow, habove⟩
    have hnew : r ∉ h.below n ++ h.above n := by
      intro hmem
      rcases List.mem_append.1 hmem with hmem | hmem
      · exact hbelow (hforest.mem_below.1 hmem)
      · exact habove (hforest.mem_above.1 hmem)
    have hsub : r :: (h.below n ++ h.above n) ⊆ h.records := fun x hx => by
      rcases List.mem_cons.1 hx with rfl | hx
      · exact hr
      · exact hforest.mem_records_of_around hx
    exact ((List.nodup_cons.2 ⟨hnew, hforest.nodup_around n⟩).subperm hsub).length_le

/-- The highest of the records is the last of the way up. -/
theorem isHighest_iff (habove : h.above n ≠ []) :
    (∀ t, h.IsHighest n t → h.records.getLast? = some t) ↔
      h.records.getLast? = (within (superiorsAmong h.records) n [h.thisNode]).getLast? := by
  obtain ⟨k, t, hk, hreaches, hlast, -, hend⟩ := exists_last_within hforest.length_superiorsAmong n h.thisNode
  rw [hlast]
  obtain ⟨x, hx⟩ := List.exists_mem_of_ne_nil _ habove
  obtain ⟨i, hi, hx⟩ := hforest.mem_above.1 hx
  cases k with
  | zero => exact absurd (hforest.reaches_records_up (m := 0) rfl hx) (hend (i + 1) x (Nat.succ_pos i) hi)
  | succ k =>
    have hhighest : h.IsHighest n t :=
      ⟨k, hk, reaches_all_up hreaches, fun j y hj hle hy =>
        hend (j + 1) y (by omega) (by omega) (hforest.reaches_records_up (m := 0) rfl hy)⟩
    constructor
    · intro hall
      exact hall t hhighest
    · rintro hlast t' ⟨k', hk', hreaches', hend'⟩
      -- both are the end of the way up
      have hle : k ≤ k' := by
        by_contra hlt
        exact hend' k t (by omega) hk (reaches_all_up hreaches)
      have hge : k' ≤ k := by
        by_contra hlt
        exact hend (k' + 1) t' (by omega) hk' (hforest.reaches_records_up (m := 0) rfl hreaches')
      obtain rfl : k = k' := by omega
      have hsame : Reaches (superiorsAmong h.all) 0 t t' :=
        (reaches_all_up hreaches).cancel_left hforest.functional hreaches'
      rw [hlast, show t = t' from hsame]

/-- Without nodes above the node there is no highest one. -/
theorem not_isHighest (habove : h.above n = []) (t : HierarchyNode) : ¬ h.IsHighest n t := by
  rintro ⟨k, hk, hreaches, -⟩
  have hmem := hforest.mem_above.2 ⟨k, hk, hreaches⟩
  rw [habove] at hmem
  exact List.not_mem_nil hmem

/-- The superiors of the nodes below a node, and its own, are there. -/
theorem idle_below (n : ℕ) : h.Idle (h.below n ++ [h.thisNode])
    (h.thisNode :: h.below n ++ [h.thisNode] ++ superiorsAmong h.records h.thisNode) := by
  intro a ha
  rcases List.mem_append.1 ha with ha | ha
  · intro b hb hpred
    obtain ⟨haddress, hnew⟩ := of_decide_eq_true hpred
    obtain ⟨k, hk, hreaches⟩ := hforest.mem_below.1 ha
    obtain ⟨c, hc, hac⟩ := hreaches.last
    have hmem : c ∈ h.thisNode :: h.below n := by
      cases k with
      | zero =>
        obtain rfl : h.thisNode = c := hc
        exact List.mem_cons_self
      | succ k => exact List.mem_cons_of_mem _ (hforest.mem_below.2 ⟨k, by omega, hc⟩)
    refine of_decide_eq_true (List.all_eq_true.1 hnew c ?_) ((mem_subordinatesAmong.1 hac).2.symm.trans haddress)
    exact List.mem_append_left _ (List.mem_append_left _ hmem)
  · obtain rfl := List.mem_singleton.1 ha
    exact idle_of_superior (hforest.length_superiorsAmong h.thisNode)
      (fun s hs => ⟨s, List.mem_append_right _ hs, rfl⟩) _ (List.mem_singleton_self _)

/-- The way down in memory. -/
theorem traverseArray_down (spare n : ℕ) :
    ∃ w, h.traverseArray isSubordinate n 0 (.reserve h.records.length spare h.thisNode) = some w ∧
      w.nodes = h.thisNode :: h.below n ∧ w.capacity = h.records.length + 1 + spare := by
  have hlower : h.traverse isSubordinate n 0 [h.thisNode] = _ := hforest.lowerNodes_eq List.mem_cons_self n
  rw [within_down] at hlower
  have hle := hforest.length_around_le n
  have hroom : (h.traverse isSubordinate n 0 [h.thisNode]).length ≤ h.records.length + 1 + spare := by
    rw [hlower, List.length_cons]
    omega
  obtain ⟨w, hw, hcapacity⟩ :=
    traverseArray_of_room h isSubordinate n 0 (.reserve h.records.length spare h.thisNode) hroom
  exact ⟨w, hw, (traverseArray_nodes hw).trans hlower, hcapacity⟩

/-- **The way up in memory**, with the nodes below the node and once more the node itself in the array. -/
theorem traverseArray_around {v : NodeArray} (hnodes : v.nodes = h.thisNode :: h.below n ++ [h.thisNode]) :
    (∀ w, h.traverseArray isNewSuperior n 0 v = some w → w.nodes = v.nodes ++ h.above n) ∧
      (v.nodes.length + (h.above n).length ≤ v.capacity + 1 →
        ((∃ w, h.traverseArray isNewSuperior n 0 v = some w) ↔ v.nodes.length + (h.above n).length ≤ v.capacity ∨
          h.records.getLast? = (within (superiorsAmong h.records) n [h.thisNode]).getLast?)) := by
  have hstart : v.nodes.drop 0 = h.thisNode :: (h.below n ++ [h.thisNode]) := hnodes
  have hidle : h.Idle (h.below n ++ [h.thisNode]) (v.nodes ++ superiorsAmong h.records h.thisNode) := by
    rw [hnodes]
    exact hforest.idle_below n
  have hall {x : HierarchyNode} (hx : x ∈ h.above n) : x ∈ h.all :=
    List.mem_cons_of_mem _ (hforest.mem_records_of_around (List.mem_append_right _ hx))
  have hnew : ∀ x ∈ h.above n, ∀ y ∈ v.nodes, y.socketAddress ≠ x.socketAddress := by
    intro x hx y hy heq
    have hup := hforest.nodup_up h.thisNode n
    rw [within_up] at hup
    rw [hnodes] at hy
    have hy : y = h.thisNode ∨ y ∈ h.below n := by simpa [or_comm, or_assoc] using hy
    rcases hy with rfl | hy
    · obtain rfl := hforest.eq_of_address_eq List.mem_cons_self (hall hx) heq
      exact (List.nodup_cons.1 hup).1 hx
    · obtain rfl := hforest.eq_of_address_eq
        (List.mem_cons_of_mem _ (hforest.mem_records_of_around (List.mem_append_left _ hy))) (hall hx) heq
      exact hforest.not_below_and_above (hforest.mem_below.1 hy) (hforest.mem_above.1 hx)
  have hnodup : ((h.above n).map HierarchyNode.socketAddress).Nodup :=
    hforest.nodup_map_of_nodup (List.nodup_append.1 (hforest.nodup_around n)).2.1 fun x hx => hall hx
  refine ⟨fun w hw => traverseArray_up_nodes hforest.toIsKeyed hstart hidle hnew hnodup hw, fun hroom => ?_⟩
  rw [show h.above n = (within (superiorsAmong h.records) n [h.thisNode]).tail from rfl] at hnew hnodup hroom ⊢
  rw [← traverseArray_up hforest.toIsKeyed hstart hidle hnew hnodup hroom]
  constructor
  · rintro ⟨w, hw⟩
    exact ⟨w, hw, traverseArray_up_nodes hforest.toIsKeyed hstart hidle hnew hnodup hw⟩
  · rintro ⟨w, hw, -⟩
    exact ⟨w, hw⟩

/-- The nodes are listed if the way up succeeds after the way down. -/
theorem listsAround_iff_traverse {w : NodeArray} {spare radius : ℕ}
    (hdown : h.traverseArray isSubordinate radius 0 (.reserve h.records.length spare h.thisNode) = some w)
    (hnodes : w.nodes = h.thisNode :: h.below radius) : h.ListsAround spare radius ↔
      ∃ u, h.traverseArray isNewSuperior radius 0 (w.emplaceBack h.thisNode) = some u := by
  have hvalue := (hforest.traverseArray_around (v := w.emplaceBack h.thisNode) (n := radius)
    (by rw [NodeArray.nodes_emplaceBack, hnodes])).1
  constructor
  · rintro ⟨rest, hrest, -⟩
    obtain ⟨w', hw', hrest⟩ := Option.bind_eq_some_iff.1 hrest
    obtain rfl : w = w' := Option.some.inj (hdown.symm.trans hw')
    obtain ⟨u, hu, -⟩ := Option.bind_eq_some_iff.1 hrest
    exact ⟨u, hu⟩
  · rintro ⟨u, hu⟩
    refine ⟨h.below radius ++ h.above radius, ?_, hforest.nodup_around radius, fun r => ?_⟩
    · refine Option.bind_eq_some_iff.2 ⟨w, hdown, Option.bind_eq_some_iff.2 ⟨u, hu, ?_⟩⟩
      show some (u.nodes.eraseIdx w.nodes.length) = _
      rw [hvalue u hu, NodeArray.nodes_emplaceBack, List.append_assoc,
        List.eraseIdx_append_of_length_le le_rfl, Nat.sub_self, hnodes]
      rfl
    · rw [List.mem_append, hforest.mem_below, hforest.mem_above]

/-- **`nodes(radius)` lists the nodes around a node** exactly if the array has more room than
was asked for, or if some record is neither below nor above the node, or if the highest record
above it, if there is one, is the last of the table. -/
theorem listsAround_iff (spare radius : ℕ) : h.ListsAround spare radius ↔
    spare ≠ 0 ∨ (∃ r ∈ h.records, ¬ h.IsBelow radius r ∧ ¬ h.IsAbove radius r) ∨
      ∀ t, h.IsHighest radius t → h.records.getLast? = some t := by
  obtain ⟨w, hdown, hnodes, hcapacity⟩ := hforest.traverseArray_down spare radius
  have hle := hforest.length_around_le radius
  have hfits := (w.emplaceBack h.thisNode).fits
  have hlength : (w.emplaceBack h.thisNode).nodes.length = (h.below radius).length + 2 := by
    rw [NodeArray.nodes_emplaceBack, hnodes]
    simp
  obtain ⟨-, hroom⟩ := hforest.traverseArray_around (v := w.emplaceBack h.thisNode) (n := radius)
    (by rw [NodeArray.nodes_emplaceBack, hnodes])
  rw [hlength] at hroom hfits
  rw [hforest.listsAround_iff_traverse hdown hnodes, ← hforest.length_around_lt_iff]
  by_cases hfull : w.IsFull
  · -- All records are below the node.
    have hsame : w.nodes.length = w.capacity := hfull
    rw [hnodes, hcapacity, List.length_cons] at hsame
    have habove : h.above radius = [] := List.eq_nil_of_length_eq_zero (by omega)
    rw [hroom (by rw [habove, List.length_nil]; omega)]
    refine iff_of_true (Or.inl (by rw [habove, List.length_nil]; omega)) (Or.inr (Or.inr fun t ht => ?_))
    exact absurd ht (hforest.not_isHighest habove t)
  · rw [NodeArray.capacity_emplaceBack _ hfull, hcapacity] at hroom hfits
    rw [hroom (by omega)]
    by_cases habove : h.above radius = []
    · refine iff_of_true (Or.inl (by rw [habove, List.length_nil]; omega)) (Or.inr (Or.inr fun t ht => ?_))
      exact absurd ht (hforest.not_isHighest habove t)
    · rw [← hforest.isHighest_iff habove, ← or_assoc]
      refine or_congr_left ?_
      omega

end IsForest

end Around

/-! ### Between two nodes -/

theorem nodup_nodeAddresses : [nodeAddress 1, nodeAddress 3].Nodup := by decide

/-- The node at 10.0.0.2 is between those at 10.0.0.1 and 10.0.0.3, in one order of the table. -/
def superiorFirst : Hierarchy where
  netmask := 8
  thisNode := subordinateRecord 2 1
  nodes := ⟨[⟨nodeAddress 1, nodeRecord 1⟩, ⟨nodeAddress 3, subordinateRecord 3 2⟩],
    nodup_nodeAddresses⟩

/-- And in the other one. -/
def superiorLast : Hierarchy where
  netmask := 8
  thisNode := subordinateRecord 2 1
  nodes := ⟨[⟨nodeAddress 3, subordinateRecord 3 2⟩, ⟨nodeAddress 1, nodeRecord 1⟩],
    List.nodup_reverse.1 nodup_nodeAddresses⟩

theorem isForest_between {h : Hierarchy} (hthis : h.thisNode = subordinateRecord 2 1)
    (hentries : ∀ entry ∈ h.nodes.entries, entry = ⟨nodeAddress 1, nodeRecord 1⟩ ∨
      entry = ⟨nodeAddress 3, subordinateRecord 3 2⟩) : h.IsForest where
  own_missing := by
    cases hlookup : h.nodes.lookup h.socketAddress with
    | none => rfl
    | some r =>
      rw [socketAddress, hthis] at hlookup
      rcases hentries _ (AList.mem_lookup_iff.1 hlookup) with heq | heq
      · exact absurd (congrArg Sigma.fst heq) (show nodeAddress 2 ≠ nodeAddress 1 by decide)
      · exact absurd (congrArg Sigma.fst heq) (show nodeAddress 2 ≠ nodeAddress 3 by decide)
  keyed a r hr := by
    rcases hentries _ (AList.mem_lookup_iff.1 hr) with heq | heq
    · cases heq
      rfl
    · cases heq
      rfl
  acyclic := by
    have hall : ∀ r ∈ h.all, r = subordinateRecord 2 1 ∨ r = nodeRecord 1 ∨ r = subordinateRecord 3 2 := by
      intro r hr
      rcases List.mem_cons.1 hr with rfl | hr
      · exact Or.inl hthis
      · obtain ⟨entry, hentry, rfl⟩ := List.mem_map.1 hr
        rcases hentries entry hentry with rfl | rfl
        · exact Or.inr (Or.inl rfl)
        · exact Or.inr (Or.inr rfl)
    refine acyclic_of_rank (p := (· ∈ h.all)) (fun r => if r.socketAddress = nodeAddress 1 then 0 else
      if r.socketAddress = nodeAddress 2 then 1 else 2) (fun a b hb => (mem_superiorsAmong.1 hb).1) ?_
    intro a b ha hb
    obtain ⟨hmem, haddress⟩ := mem_superiorsAmong.1 hb
    rcases hall a ha with rfl | rfl | rfl <;> rcases hall b hmem with rfl | rfl | rfl <;>
      first | decide | exact absurd haddress (by decide)

/-- The superior is looked at last. -/
theorem listsAround_superiorLast : superiorLast.ListsAround 0 1 := by
  have hforest : superiorLast.IsForest := isForest_between rfl fun entry hentry => (List.mem_pair.1 hentry).symm
  refine (hforest.listsAround_iff 0 1).2 (Or.inr (Or.inr ?_))
  rintro t ⟨k, hk, hreaches, -⟩
  obtain rfl : k = 0 := by omega
  obtain ⟨b, hb, rfl⟩ := hreaches
  obtain ⟨hmem, haddress⟩ := mem_superiorsAmong.1 hb
  rcases List.mem_cons.1 hmem with rfl | hmem
  · exact absurd haddress (by decide)
  · rcases List.mem_pair.1 hmem with rfl | rfl
    · exact absurd haddress (by decide)
    · rfl

/-- After the superior has been found the array is in other memory. -/
theorem listsAround_fails : superiorFirst.IsForest ∧ ¬ superiorFirst.ListsAround 0 1 := by
  refine ⟨isForest_between rfl fun entry hentry => List.mem_pair.1 hentry, ?_⟩
  rintro ⟨rest, hrest, -⟩
  have hnone : superiorFirst.nodesInMemory 0 1 = none := by rfl
  rw [hnone] at hrest
  cases hrest

end Hierarchy

end Subordination.Daemon
