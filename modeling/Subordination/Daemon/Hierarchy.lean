import Subordination.Core.Resources
import Subordination.Daemon.InterfaceAddress
import Subordination.Library.Versions

/-!
# The hierarchy

`Hierarchy` is what a daemon knows of the daemons around it: its own record and a table of
the records of others, each with the address of the node, the address of its superior, its
resources and a version that the node itself counts.

## What is proved

* `contents` is the table without the times of the last changes. **`contents_addNode`** and
  **`addNodes_snd`** say that `add_nodes` is the absorbing of versions of
  `Subordination.Library.Versions`, and that it returns true when it has changed the table.
* `Hierarchy.All` is a property of the superior links of a hierarchy, and there is one lemma
  for each operation that says when the operation keeps it.
-/

namespace Subordination.Daemon

open Subordination.Core Subordination.Library
open Subordination.Core.Resources (Bindings)

/-! ### Nodes -/

/-- `hierarchy_node::time_point`, in ticks of the clock. -/
abbrev TimePoint := ℕ

/-- `hierarchy_node`. -/
structure HierarchyNode where
  /-- `_socket_address`. -/
  socketAddress : SocketAddress
  /-- `_superior_socket_address`. -/
  superiorSocketAddress : SocketAddress
  /-- `_resources`. -/
  resources : Bindings
  /-- `_version`. -/
  version : UInt64
  /-- `_last_modified`. -/
  lastModified : TimePoint

namespace HierarchyNode

instance : Inhabited HierarchyNode := ⟨⟨.unset, .unset, default, 0, 0⟩⟩

/-- `std::numeric_limits<version_type>::max()`. -/
def maxVersion : UInt64 := 0xFFFFFFFFFFFFFFFF

/-- `increment_version`. -/
def incrementVersion (n : HierarchyNode) : HierarchyNode :=
  if n.version < maxVersion then { n with version := n.version + 1 } else n

@[simp] theorem socketAddress_incrementVersion (n : HierarchyNode) :
    n.incrementVersion.socketAddress = n.socketAddress := by
  rw [incrementVersion]
  split <;> rfl

@[simp] theorem superiorSocketAddress_incrementVersion (n : HierarchyNode) :
    n.incrementVersion.superiorSocketAddress = n.superiorSocketAddress := by
  rw [incrementVersion]
  split <;> rfl

/-- The record without the time of its last change. -/
def content (n : HierarchyNode) : HierarchyNode := { n with lastModified := 0 }

/-- The key and the version of a record. -/
def versions : Versions SocketAddress HierarchyNode := ⟨socketAddress, fun n => n.version.toNat⟩

end HierarchyNode

/-! ### The table -/

/-- `Hierarchy`. -/
structure Hierarchy where
  /-- `_netmask`, by the number of its bits. -/
  netmask : ℕ
  /-- `_this_node`. -/
  thisNode : HierarchyNode
  /-- `_nodes`. -/
  nodes : AList fun _ : SocketAddress => HierarchyNode

namespace Hierarchy

/-- `Hierarchy(interface_address, port)`. -/
def construct (a : InterfaceAddress) (netmask : ℕ) (port : UInt16) : Hierarchy where
  netmask := netmask
  thisNode := { (default : HierarchyNode) with socketAddress := ipv4SocketAddress a.address port }
  nodes := ∅

/-- `socket_address()`. -/
def socketAddress (h : Hierarchy) : SocketAddress := h.thisNode.socketAddress

/-- `interface_address()`. -/
def interfaceAddress (h : Hierarchy) : InterfaceAddress :=
  .ofAddress (ipv4Address h.socketAddress) h.netmask

/-- `port()`. -/
def port (h : Hierarchy) : UInt16 := ipv4Port h.socketAddress

/-- `superior_socket_address()`. -/
def superiorSocketAddress (h : Hierarchy) : SocketAddress := h.thisNode.superiorSocketAddress

/-- `has_superior()`. -/
def hasSuperior (h : Hierarchy) : Bool := h.superiorSocketAddress.isSet

/-- Set the record at an address. -/
def put (h : Hierarchy) (a : SocketAddress) (n : HierarchyNode) : Hierarchy :=
  { h with nodes := h.nodes.insert a n }

/-- The turn of one node in `add_nodes`, and whether it counts as an update. -/
def addNode (h : Hierarchy) (a : HierarchyNode) (now : TimePoint) : Hierarchy × Bool :=
  if a.socketAddress = h.socketAddress then (h, false)
  else
    match h.nodes.lookup a.socketAddress with
    | none => (h.put a.socketAddress { a with lastModified := now }, true)
    | some b =>
      if b.version < a.version then (h.put a.socketAddress { a with lastModified := now }, true)
      else if b.version ≤ a.version then
        (h.put a.socketAddress { b with lastModified := now }, false)
      else (h, false)

/-- `add_nodes`. -/
def addNodes (h : Hierarchy) : List HierarchyNode → TimePoint → Hierarchy × Bool
  | [], _ => (h, false)
  | a :: nodes, now =>
    let (h, updated) := h.addNode a now
    let (h, updated') := h.addNodes nodes now
    (h, updated || updated')

/-- `add_superior`. -/
def addSuperior (h : Hierarchy) (node : HierarchyNode) (now : TimePoint) : Hierarchy × Bool :=
  if h.thisNode.superiorSocketAddress ≠ node.socketAddress then
    let n := { h.thisNode with superiorSocketAddress := node.socketAddress }
    ({ h with thisNode := { n.incrementVersion with lastModified := now } }, true)
  else (h, false)

/-- `add_subordinate`. A record that is missing is made by `operator[]`. -/
def addSubordinate (h : Hierarchy) (node : HierarchyNode) (now : TimePoint) : Hierarchy × Bool :=
  let b := (h.nodes.lookup node.socketAddress).getD default
  if b.superiorSocketAddress ≠ h.socketAddress then
    (h.put node.socketAddress
      { b with superiorSocketAddress := h.socketAddress, lastModified := now }, true)
  else (h.put node.socketAddress b, false)

/-- The first half of `remove_node`: the node is no longer the superior. -/
def unsetSuperior (h : Hierarchy) (sa : SocketAddress) (now : TimePoint) : Hierarchy × Bool :=
  if h.superiorSocketAddress = sa then
    let n := { h.thisNode with superiorSocketAddress := .unset }
    ({ h with thisNode := { n with lastModified := now } }, true)
  else (h, false)

/-- `remove_node`. The record itself stays in the table. -/
def removeNode (h : Hierarchy) (sa : SocketAddress) (now : TimePoint) : Hierarchy × Bool :=
  let (h, updated) := h.unsetSuperior sa now
  match h.nodes.lookup sa with
  | none => (h, false)
  | some b =>
    if b.superiorSocketAddress = h.socketAddress then
      (h.put sa { b with superiorSocketAddress := .unset, lastModified := now }, true)
    else (h.put sa { b with lastModified := now }, updated)

/-- `resources(rhs, now)`. -/
def setResources (h : Hierarchy) (rhs : Bindings) (now : TimePoint) : Hierarchy × Bool :=
  if h.thisNode.resources.eq rhs then (h, false)
  else
    let n := { h.thisNode with resources := rhs }
    ({ h with thisNode := { n.incrementVersion with lastModified := now } }, true)

/-! ### The nodes within a radius -/

/-- The records of the table, in the order of the table. -/
def records (h : Hierarchy) : List HierarchyNode := h.nodes.entries.map Sigma.snd

/-- The innermost loop of `traverse`: every record of the table, beside one of the nodes that
were found before. -/
def traverseTable (h : Hierarchy) (pred : List HierarchyNode → HierarchyNode → HierarchyNode → Bool)
    (result : List HierarchyNode) (a : HierarchyNode) : List HierarchyNode :=
  h.records.foldl (fun result b => if pred result b a then result ++ [b] else result) result

/-- `traverse`, from the nodes with index `j0` on. The loop stops after a round that has
added nothing. -/
def traverse (h : Hierarchy) (pred : List HierarchyNode → HierarchyNode → HierarchyNode → Bool) :
    ℕ → ℕ → List HierarchyNode → List HierarchyNode
  | 0, _, result => result
  | radius + 1, j0, result =>
    let result' := (result.drop j0).foldl (h.traverseTable pred) result
    if result'.length = result.length then result' else h.traverse pred radius result.length result'

/-- The predicate that goes down the hierarchy. -/
def isSubordinate (_ : List HierarchyNode) (b a : HierarchyNode) : Bool :=
  b.superiorSocketAddress = a.socketAddress

/-- The predicate that goes up the hierarchy, to nodes that are not there yet. -/
def isNewSuperior (result : List HierarchyNode) (b a : HierarchyNode) : Bool :=
  a.superiorSocketAddress = b.socketAddress ∧ result.all fun x => x.socketAddress ≠ b.socketAddress

/-- `nodes(radius)`. The loops of `traverse` start from the first node in both directions:
the local `j0` hides the parameter. -/
def nodesWithin (h : Hierarchy) (radius : ℕ) : List HierarchyNode :=
  let result := h.traverse isSubordinate radius 0 [h.thisNode]
  let oldSize := result.length
  let result := h.traverse isNewSuperior radius 0 (result ++ [h.thisNode])
  result.eraseIdx oldSize

theorem mem_records {h : Hierarchy} {r : HierarchyNode} :
    r ∈ h.records ↔ ∃ a, h.nodes.lookup a = some r := by
  rw [records, List.mem_map]
  constructor
  · rintro ⟨⟨a, r⟩, hmem, rfl⟩
    exact ⟨a, AList.mem_lookup_iff.2 hmem⟩
  · rintro ⟨a, ha⟩
    exact ⟨⟨a, r⟩, AList.mem_lookup_iff.1 ha, rfl⟩

/-- A list of nodes that goes on with records of the table. -/
def GoesOn (h : Hierarchy) (xs ys : List HierarchyNode) : Prop :=
  ∃ zs, ys = xs ++ zs ∧ ∀ z ∈ zs, z ∈ h.records

section GoesOn

variable {h : Hierarchy} {xs ys zs : List HierarchyNode}

theorem GoesOn.refl (xs : List HierarchyNode) : h.GoesOn xs xs :=
  ⟨[], (List.append_nil xs).symm, fun _ hz => absurd hz List.not_mem_nil⟩

theorem GoesOn.length_le (hxy : h.GoesOn xs ys) : xs.length ≤ ys.length := by
  obtain ⟨zs, rfl, -⟩ := hxy
  rw [List.length_append]
  exact Nat.le_add_right _ _

theorem GoesOn.trans (hxy : h.GoesOn xs ys) (hyz : h.GoesOn ys zs) : h.GoesOn xs zs := by
  obtain ⟨us, rfl, hus⟩ := hxy
  obtain ⟨vs, rfl, hvs⟩ := hyz
  refine ⟨us ++ vs, List.append_assoc xs us vs, fun z hz => ?_⟩
  rcases List.mem_append.1 hz with hz | hz
  · exact hus z hz
  · exact hvs z hz

/-- What one element adds, a list of them adds. -/
theorem GoesOn.foldl {f : List HierarchyNode → HierarchyNode → List HierarchyNode} {as : List HierarchyNode}
    (hf : ∀ result, ∀ a ∈ as, h.GoesOn result (f result a)) (result : List HierarchyNode) :
    h.GoesOn result (as.foldl f result) := by
  induction as generalizing result with
  | nil => exact GoesOn.refl result
  | cons a as ih =>
    exact (hf result a List.mem_cons_self).trans
      (ih (fun result b hb => hf result b (List.mem_cons_of_mem a hb)) (f result a))

theorem goesOn_traverseTable (pred : List HierarchyNode → HierarchyNode → HierarchyNode → Bool)
    (result : List HierarchyNode) (a : HierarchyNode) : h.GoesOn result (h.traverseTable pred result a) :=
  GoesOn.foldl (fun result b hb => by
    by_cases hpred : pred result b a = true
    · rw [if_pos hpred]
      exact ⟨[b], rfl, fun z hz => (List.mem_singleton.1 hz) ▸ hb⟩
    · rw [if_neg hpred]
      exact GoesOn.refl result) result

theorem goesOn_foldl (pred : List HierarchyNode → HierarchyNode → HierarchyNode → Bool)
    (as result : List HierarchyNode) : h.GoesOn result (as.foldl (h.traverseTable pred) result) :=
  GoesOn.foldl (fun result a _ => goesOn_traverseTable pred result a) result

theorem goesOn_traverse (pred : List HierarchyNode → HierarchyNode → HierarchyNode → Bool) (radius j0 : ℕ)
    (result : List HierarchyNode) : h.GoesOn result (h.traverse pred radius j0 result) := by
  induction radius generalizing j0 result with
  | zero => exact GoesOn.refl result
  | succ radius ih =>
    have hround := goesOn_foldl (h := h) pred (result.drop j0) result
    rw [traverse]
    split
    · exact hround
    · exact hround.trans (ih result.length _)

end GoesOn

/-- **The nodes within a radius are the own record and records of the table after it.** -/
theorem nodesWithin_eq (h : Hierarchy) (radius : ℕ) :
    ∃ rest, h.nodesWithin radius = h.thisNode :: rest ∧ ∀ r ∈ rest, r ∈ h.records := by
  obtain ⟨lower, hlower, hlmem⟩ := goesOn_traverse (h := h) isSubordinate radius 0 [h.thisNode]
  obtain ⟨upper, hupper, humem⟩ := goesOn_traverse (h := h) isNewSuperior radius 0
    (h.traverse isSubordinate radius 0 [h.thisNode] ++ [h.thisNode])
  refine ⟨lower ++ upper, ?_, fun r hr => ?_⟩
  · rw [nodesWithin, hupper, List.append_assoc, List.eraseIdx_append_of_length_le le_rfl, Nat.sub_self,
      hlower]
    rfl
  · rcases List.mem_append.1 hr with hr | hr
    · exact hlmem r hr
    · exact humem r hr

/-! ### What merging keeps -/

/-- The table without the times of the last changes. -/
def contents (h : Hierarchy) (a : SocketAddress) : Option HierarchyNode :=
  (h.nodes.lookup a).map HierarchyNode.content

theorem contents_put (h : Hierarchy) (a : SocketAddress) (n : HierarchyNode) :
    (h.put a n).contents = Function.update h.contents a (some n.content) := by
  funext a'
  by_cases ha : a' = a
  · subst ha
    rw [Function.update_self, contents, put, AList.lookup_insert]
    rfl
  · rw [Function.update_of_ne ha, contents, put, AList.lookup_insert_ne ha]
    rfl

/-- **What a turn of `add_nodes` does**: nothing with the own record; a record that is new
or newer is put into the table; otherwise the record that is there stays. -/
theorem addNode_cases (h : Hierarchy) (a : HierarchyNode) (now : TimePoint) :
    (a.socketAddress = h.socketAddress ∧ h.addNode a now = (h, false)) ∨
      (a.socketAddress ≠ h.socketAddress ∧
        (∀ b, h.nodes.lookup a.socketAddress = some b → b.version < a.version) ∧
        h.addNode a now = (h.put a.socketAddress { a with lastModified := now }, true)) ∨
      (a.socketAddress ≠ h.socketAddress ∧
        ∃ b, h.nodes.lookup a.socketAddress = some b ∧ ¬ b.version < a.version ∧
          (h.addNode a now = (h.put a.socketAddress { b with lastModified := now }, false) ∨
            h.addNode a now = (h, false))) := by
  rw [addNode]
  by_cases hown : a.socketAddress = h.socketAddress
  · exact Or.inl ⟨hown, if_pos hown⟩
  · rw [if_neg hown]
    cases hb : h.nodes.lookup a.socketAddress with
    | none => exact Or.inr (Or.inl ⟨hown, fun b hb' => absurd hb'.symm (Option.some_ne_none b), rfl⟩)
    | some b =>
      by_cases hlt : b.version < a.version
      · refine Or.inr (Or.inl ⟨hown, fun b' hb' => ?_, if_pos hlt⟩)
        obtain rfl : b = b' := Option.some.inj hb'
        exact hlt
      · refine Or.inr (Or.inr ⟨hown, b, rfl, hlt, ?_⟩)
        show (if _ then _ else _) = _ ∨ (if _ then _ else _) = _
        rw [if_neg hlt]
        by_cases hle : b.version ≤ a.version
        · exact Or.inl (if_pos hle)
        · exact Or.inr (if_neg hle)

/-- A turn of `add_nodes` leaves the own record as it is. -/
theorem thisNode_addNode (h : Hierarchy) (a : HierarchyNode) (now : TimePoint) :
    (h.addNode a now).1.thisNode = h.thisNode := by
  obtain ⟨-, heq⟩ | ⟨-, -, heq⟩ | ⟨-, b, -, -, heq | heq⟩ := h.addNode_cases a now
  · rw [heq]
  · rw [heq]
    rfl
  · rw [heq]
    rfl
  · rw [heq]

theorem contents_of_lookup {h : Hierarchy} {a : SocketAddress} {b : HierarchyNode}
    (hb : h.nodes.lookup a = some b) : h.contents a = some b.content := by
  rw [contents, hb]
  rfl

/-- A version that is not newer than the one in the table changes nothing. -/
theorem absorb_contents {h : Hierarchy} {a b : HierarchyNode} (hb : h.nodes.lookup a.socketAddress = some b)
    (hold : ¬ b.version < a.version) : HierarchyNode.versions.absorb h.contents a.content = h.contents :=
  Versions.absorb_eq_self_iff.2 ⟨b.content, contents_of_lookup hb, not_lt.1 hold⟩

/-- **A turn of `add_nodes` absorbs a version**, unless it is a version of the own record. -/
theorem contents_addNode (h : Hierarchy) (a : HierarchyNode) (now : TimePoint) :
    (h.addNode a now).1.contents =
      if a.socketAddress = h.socketAddress then h.contents
      else HierarchyNode.versions.absorb h.contents a.content := by
  obtain ⟨hown, heq⟩ | ⟨hown, hnew, heq⟩ | ⟨hown, b, hb, hold, heq⟩ := h.addNode_cases a now
  · rw [heq, if_pos hown]
  · have hnewer : HierarchyNode.versions.newer (h.contents a.socketAddress) a.content = some a.content := by
      rw [contents]
      cases hb : h.nodes.lookup a.socketAddress with
      | none => rfl
      | some b => exact if_pos (hnew b hb)
    rw [heq, if_neg hown, contents_put]
    exact congrArg (Function.update h.contents a.socketAddress) hnewer.symm
  · rw [if_neg hown, absorb_contents hb hold]
    rcases heq with heq | heq
    · rw [heq, contents_put]
      exact Function.update_eq_self_iff.2 (contents_of_lookup hb).symm
    · rw [heq]

/-- A turn of `add_nodes` counts as an update when it changes the table. -/
theorem addNode_snd (h : Hierarchy) (a : HierarchyNode) (now : TimePoint) :
    (h.addNode a now).2 = true ↔ (h.addNode a now).1.contents ≠ h.contents := by
  rw [contents_addNode]
  obtain ⟨hown, heq⟩ | ⟨hown, hnew, heq⟩ | ⟨hown, b, hb, hold, heq⟩ := h.addNode_cases a now
  · rw [heq, if_pos hown]
    exact iff_of_false Bool.false_ne_true (not_not_intro rfl)
  · rw [heq, if_neg hown]
    refine iff_of_true rfl fun hsame => ?_
    obtain ⟨c, hc, hle⟩ := Versions.absorb_eq_self_iff.1 hsame
    obtain ⟨b, hb, rfl⟩ := Option.map_eq_some_iff.1 hc
    exact absurd (hnew b hb) (not_lt.2 hle)
  · rw [if_neg hown, absorb_contents hb hold]
    refine iff_of_false ?_ (not_not_intro rfl)
    rcases heq with heq | heq
    · rw [heq]
      exact Bool.false_ne_true
    · rw [heq]
      exact Bool.false_ne_true

theorem below_addNode (h : Hierarchy) (a : HierarchyNode) (now : TimePoint) :
    HierarchyNode.versions.Below h.contents (h.addNode a now).1.contents := by
  rw [contents_addNode]
  split
  · exact Versions.Below.refl _
  · exact Versions.below_absorb _ _

theorem addNodes_cons (h : Hierarchy) (a : HierarchyNode) (nodes : List HierarchyNode) (now : TimePoint) :
    h.addNodes (a :: nodes) now = (((h.addNode a now).1.addNodes nodes now).1,
      (h.addNode a now).2 || ((h.addNode a now).1.addNodes nodes now).2) := rfl

theorem thisNode_addNodes (h : Hierarchy) (nodes : List HierarchyNode) (now : TimePoint) :
    (h.addNodes nodes now).1.thisNode = h.thisNode := by
  induction nodes generalizing h with
  | nil => rfl
  | cons a nodes ih => rw [addNodes_cons, ih, thisNode_addNode]

theorem below_addNodes (h : Hierarchy) (nodes : List HierarchyNode) (now : TimePoint) :
    HierarchyNode.versions.Below h.contents (h.addNodes nodes now).1.contents := by
  induction nodes generalizing h with
  | nil => exact Versions.Below.refl _
  | cons a nodes ih => exact (below_addNode h a now).trans (ih _)

/-- The records that `add_nodes` looks at. -/
def foreign (h : Hierarchy) (nodes : List HierarchyNode) : List HierarchyNode :=
  (nodes.filter (·.socketAddress ≠ h.socketAddress)).map HierarchyNode.content

/-- **`add_nodes` absorbs the versions of the other nodes.** -/
theorem contents_addNodes (h : Hierarchy) (nodes : List HierarchyNode) (now : TimePoint) :
    (h.addNodes nodes now).1.contents = (h.foreign nodes).foldl HierarchyNode.versions.absorb h.contents := by
  induction nodes generalizing h with
  | nil => rfl
  | cons a nodes ih =>
    have hforeign : (h.addNode a now).1.foreign nodes = h.foreign nodes := by
      rw [foreign, foreign, socketAddress, thisNode_addNode]
      rfl
    rw [addNodes_cons, ih, hforeign, contents_addNode]
    by_cases hown : a.socketAddress = h.socketAddress
    · rw [if_pos hown, foreign, foreign, List.filter_cons, if_neg (by simpa using hown)]
    · rw [if_neg hown, foreign, foreign, List.filter_cons, if_pos (by simpa using hown)]
      rfl

/-- **`add_nodes` returns true when it has changed the table.** -/
theorem addNodes_snd (h : Hierarchy) (nodes : List HierarchyNode) (now : TimePoint) :
    (h.addNodes nodes now).2 = true ↔ (h.addNodes nodes now).1.contents ≠ h.contents := by
  induction nodes generalizing h with
  | nil => exact iff_of_false Bool.false_ne_true (not_not_intro rfl)
  | cons a nodes ih =>
    rw [addNodes_cons]
    show ((h.addNode a now).2 || _) = true ↔ _
    rw [Bool.or_eq_true, addNode_snd, ih]
    have hfirst := below_addNode h a now
    have hrest := below_addNodes (h.addNode a now).1 nodes now
    constructor
    · rintro (hne | hne) heq
      · exact hne (hrest.trans (heq ▸ Versions.Below.refl _) |>.antisymm hfirst)
      · refine hne (Versions.Below.antisymm ?_ hrest)
        rw [heq]
        exact hfirst
    · intro hne
      by_cases hsame : (h.addNode a now).1.contents = h.contents
      · exact Or.inr fun heq => hne (heq.trans hsame)
      · exact Or.inl hsame

/-! ### Merging list after list -/

/-- `add_nodes` with one list after another, each at its own time. -/
def merge (h : Hierarchy) (lists : List (List HierarchyNode × TimePoint)) : Hierarchy :=
  lists.foldl (fun h list => (h.addNodes list.1 list.2).1) h

/-- All the records of some lists, without the times of their last changes. -/
def received (lists : List (List HierarchyNode × TimePoint)) : List HierarchyNode :=
  (lists.flatMap Prod.fst).map HierarchyNode.content

theorem mem_foreign {h : Hierarchy} {nodes : List HierarchyNode} {r : HierarchyNode} :
    r ∈ h.foreign nodes ↔ r.socketAddress ≠ h.socketAddress ∧ r ∈ nodes.map HierarchyNode.content := by
  rw [foreign, List.mem_map, List.mem_map]
  constructor
  · rintro ⟨a, ha, rfl⟩
    obtain ⟨hmem, hown⟩ := List.mem_filter.1 ha
    exact ⟨of_decide_eq_true hown, a, hmem, rfl⟩
  · rintro ⟨hown, a, hmem, rfl⟩
    exact ⟨a, List.mem_filter.2 ⟨hmem, decide_eq_true hown⟩, rfl⟩

/-- The lists are absorbed as one. -/
theorem contents_merge (h : Hierarchy) (lists : List (List HierarchyNode × TimePoint)) :
    (h.merge lists).contents =
      (h.foreign (lists.flatMap Prod.fst)).foldl HierarchyNode.versions.absorb h.contents := by
  induction lists generalizing h with
  | nil => rfl
  | cons list lists ih =>
    have hforeign (nodes : List HierarchyNode) : (h.addNodes list.1 list.2).1.foreign nodes = h.foreign nodes := by
      rw [foreign, foreign, socketAddress, thisNode_addNodes]
      rfl
    have happend : h.foreign ((list :: lists).flatMap Prod.fst) =
        h.foreign list.1 ++ h.foreign (lists.flatMap Prod.fst) := by
      rw [List.flatMap_cons, foreign, List.filter_append, List.map_append]
      rfl
    show ((h.addNodes list.1 list.2).1.merge lists).contents = _
    rw [ih, hforeign, contents_addNodes, happend, List.foldl_append]

/-- **The order of the lists, the split into lists and repetitions do not matter.** -/
theorem contents_merge_congr (h : Hierarchy) {lists lists' : List (List HierarchyNode × TimePoint)}
    (hsame : HierarchyNode.versions.Consistent (received lists))
    (hmem : ∀ r, r ∈ received lists ↔ r ∈ received lists') :
    (h.merge lists).contents = (h.merge lists').contents := by
  rw [contents_merge, contents_merge]
  refine Versions.foldl_absorb_congr (fun a ha b hb => ?_) (fun r => ?_) h.contents
  · exact hsame a (mem_foreign.1 ha).2 b (mem_foreign.1 hb).2
  · rw [mem_foreign, mem_foreign]
    exact and_congr_right fun _ => hmem r

/-- **The highest version of each record is kept.** -/
theorem highest_merge (h : Hierarchy) (lists : List (List HierarchyNode × TimePoint)) {a : SocketAddress}
    (ha : a ≠ h.socketAddress) :
    match (h.merge lists).contents a with
    | none => h.contents a = none ∧ ∀ r ∈ received lists, r.socketAddress ≠ a
    | some r => HierarchyNode.versions.Highest (h.contents a)
        ((received lists).filter (·.socketAddress = a)) r := by
  have hfilter : (h.foreign (lists.flatMap Prod.fst)).filter (HierarchyNode.versions.key · = a) =
      (received lists).filter (·.socketAddress = a) := by
    rw [foreign, received, List.filter_map, List.filter_map, List.filter_filter]
    refine congrArg (List.map HierarchyNode.content) (List.filter_congr fun r _ => ?_)
    show (decide (r.socketAddress = a) && decide (r.socketAddress ≠ h.socketAddress)) =
      decide (r.socketAddress = a)
    by_cases hr : r.socketAddress = a
    · rw [hr, decide_eq_true ha, Bool.and_true]
    · rw [decide_eq_false hr, Bool.false_and]
  cases hr : (h.merge lists).contents a with
  | none =>
    rw [contents_merge, Versions.foldl_absorb_apply, hfilter, Versions.foldl_newer_eq_none] at hr
    refine ⟨hr.1, fun r hmem hra => ?_⟩
    have hmem : r ∈ (received lists).filter (·.socketAddress = a) :=
      List.mem_filter.2 ⟨hmem, decide_eq_true hra⟩
    rw [hr.2] at hmem
    exact List.not_mem_nil hmem
  | some r =>
    rw [contents_merge] at hr
    rw [← hfilter]
    exact Versions.highest_of_foldl_absorb hr

/-! ### Superior links -/

/-- The hierarchy is that of the node with the given address and mask, its superior links
have a property, and every record is kept at its own address. -/
structure All (P : SocketAddress → SocketAddress → Prop) (address : SocketAddress) (netmask : ℕ)
    (h : Hierarchy) : Prop where
  /-- The address of the node. -/
  address_eq : h.socketAddress = address
  /-- The mask of the node. -/
  netmask_eq : h.netmask = netmask
  /-- The link of the own record. -/
  own : P address h.superiorSocketAddress
  /-- The records of the table and their links. -/
  table : ∀ a r, h.nodes.lookup a = some r → r.socketAddress = a ∧ P a r.superiorSocketAddress

variable {P : SocketAddress → SocketAddress → Prop} {address : SocketAddress} {netmask : ℕ} {h : Hierarchy}

theorem all_construct {a : InterfaceAddress} {port : UInt16} (hunset : ∀ a, P a .unset) :
    (construct a netmask port).All P (ipv4SocketAddress a.address port) netmask where
  address_eq := rfl
  netmask_eq := rfl
  own := hunset _
  table _ r hr := absurd hr.symm (Option.some_ne_none r)

theorem All.put (hall : h.All P address netmask) {a : SocketAddress} {n : HierarchyNode}
    (haddress : n.socketAddress = a) (hn : P a n.superiorSocketAddress) :
    (h.put a n).All P address netmask where
  address_eq := hall.address_eq
  netmask_eq := hall.netmask_eq
  own := hall.own
  table a' r hr := by
    by_cases ha : a' = a
    · subst ha
      rw [Hierarchy.put, AList.lookup_insert] at hr
      obtain rfl : n = r := Option.some.inj hr
      exact ⟨haddress, hn⟩
    · rw [Hierarchy.put, AList.lookup_insert_ne ha] at hr
      exact hall.table a' r hr

/-- The own record may change as long as its address does not. -/
theorem All.setThisNode (hall : h.All P address netmask) {n : HierarchyNode}
    (haddress : n.socketAddress = h.socketAddress) (hn : P address n.superiorSocketAddress) :
    { h with thisNode := n }.All P address netmask where
  address_eq := haddress.trans hall.address_eq
  netmask_eq := hall.netmask_eq
  own := hn
  table := hall.table

/-- So it is with a new version of another record of this node. -/
theorem All.renewThisNode (hall : h.All P address netmask) {n : HierarchyNode}
    (haddress : n.socketAddress = h.socketAddress) (hn : P address n.superiorSocketAddress) (now : TimePoint) :
    { h with thisNode := { n.incrementVersion with lastModified := now } }.All P address netmask := by
  apply hall.setThisNode
  · exact (HierarchyNode.socketAddress_incrementVersion n).trans haddress
  · show P address n.incrementVersion.superiorSocketAddress
    rw [HierarchyNode.superiorSocketAddress_incrementVersion]
    exact hn

theorem All.addNode (hall : h.All P address netmask) {a : HierarchyNode} (now : TimePoint)
    (ha : P a.socketAddress a.superiorSocketAddress) : (h.addNode a now).1.All P address netmask := by
  obtain ⟨-, heq⟩ | ⟨-, -, heq⟩ | ⟨-, b, hb, -, heq | heq⟩ := h.addNode_cases a now
  · rw [heq]
    exact hall
  · rw [heq]
    exact hall.put rfl ha
  · rw [heq]
    exact hall.put (hall.table _ b hb).1 (hall.table _ b hb).2
  · rw [heq]
    exact hall

theorem All.addNodes (hall : h.All P address netmask) {nodes : List HierarchyNode} (now : TimePoint)
    (hnodes : ∀ a ∈ nodes, P a.socketAddress a.superiorSocketAddress) :
    (h.addNodes nodes now).1.All P address netmask := by
  induction nodes generalizing h with
  | nil => exact hall
  | cons a nodes ih =>
    exact ih (hall.addNode now (hnodes a List.mem_cons_self)) fun b hb =>
      hnodes b (List.mem_cons_of_mem a hb)

theorem All.addSuperior (hall : h.All P address netmask) (node : HierarchyNode) (now : TimePoint)
    (hnode : P address node.socketAddress) : (h.addSuperior node now).1.All P address netmask := by
  rw [Hierarchy.addSuperior]
  split
  · exact hall.renewThisNode (n := { h.thisNode with superiorSocketAddress := node.socketAddress }) rfl hnode now
  · exact hall

/-- The record of a subordinate is there before its link is set. -/
theorem All.addSubordinate (hall : h.All P address netmask) {node : HierarchyNode} (now : TimePoint)
    (hmem : h.nodes.lookup node.socketAddress ≠ none) (hnode : P node.socketAddress address) :
    (h.addSubordinate node now).1.All P address netmask := by
  obtain ⟨b, hb⟩ := Option.ne_none_iff_exists'.1 hmem
  rw [Hierarchy.addSubordinate, hb, hall.address_eq]
  show (if _ then _ else _ : Hierarchy × Bool).1.All P address netmask
  split
  · exact hall.put (hall.table _ b hb).1 hnode
  · exact hall.put (hall.table _ b hb).1 (hall.table _ b hb).2

theorem All.removeNode (hall : h.All P address netmask) (sa : SocketAddress) (now : TimePoint)
    (hunset : ∀ a, P a .unset) : (h.removeNode sa now).1.All P address netmask := by
  have hfirst : (h.unsetSuperior sa now).1.All P address netmask := by
    rw [unsetSuperior]
    split
    · exact hall.setThisNode rfl (hunset _)
    · exact hall
  rw [Hierarchy.removeNode]
  generalize h.unsetSuperior sa now = first at hfirst
  obtain ⟨h, updated⟩ := first
  cases hb : h.nodes.lookup sa with
  | none =>
    simp only [hb]
    exact hfirst
  | some b =>
    have haddress := (hfirst.table sa b hb).1
    simp only [hb]
    split
    · exact hfirst.put haddress (hunset sa)
    · exact hfirst.put haddress (hfirst.table sa b hb).2

theorem All.setResources (hall : h.All P address netmask) (rhs : Bindings) (now : TimePoint) :
    (h.setResources rhs now).1.All P address netmask := by
  rw [Hierarchy.setResources]
  split
  · exact hall
  · exact hall.renewThisNode (n := { h.thisNode with resources := rhs }) rfl hall.own now

/-- A turn of `add_nodes` with another node leaves it in the table. -/
theorem lookup_addNodes (nodes : List HierarchyNode) (now : TimePoint) {a : HierarchyNode}
    (ha : a ∈ nodes) (hown : a.socketAddress ≠ h.socketAddress) :
    (h.addNodes nodes now).1.nodes.lookup a.socketAddress ≠ none := by
  intro hnone
  have hcontents : (h.merge [(nodes, now)]).contents a.socketAddress = none := by
    show ((h.addNodes nodes now).1.nodes.lookup a.socketAddress).map _ = none
    rw [hnone]
    rfl
  have hhighest := h.highest_merge [(nodes, now)] hown
  rw [hcontents] at hhighest
  refine hhighest.2 a.content ?_ rfl
  rw [received, List.flatMap_singleton]
  exact List.mem_map.2 ⟨a, ha, rfl⟩

theorem All.nodesWithin (hall : h.All P address netmask) {radius : ℕ} {r : HierarchyNode}
    (hr : r ∈ h.nodesWithin radius) :
    P r.socketAddress r.superiorSocketAddress := by
  obtain ⟨rest, heq, hrest⟩ := h.nodesWithin_eq radius
  rw [heq] at hr
  rcases List.mem_cons.1 hr with rfl | hr
  · have haddress : h.thisNode.socketAddress = address := hall.address_eq
    rw [haddress]
    exact hall.own
  · obtain ⟨a, ha⟩ := mem_records.1 (hrest r hr)
    obtain ⟨rfl, hlink⟩ := hall.table a r ha
    exact hlink

end Hierarchy

end Subordination.Daemon
