import Subordination.Core.AnyCells
import Subordination.Daemon.Superiors

/-!
# Hierarchies on the wire

A hierarchy is its netmask, its own record and its table. The own record is read over the one
that is there, and the records of the table are all read into one variable, from which they are
copied. An address that is not set has no bytes, so that reading it leaves the one before it, and
the values of the resources are read as `Core.AnyCells` says.

## The model

A `NodeCells` is a variable of type `hierarchy_node`, whose resources are cells. The netmask is an
address of its own here. Where `new` finds room while a record is read, and what the variables of
the reader hold, is a `ReadContext`, one for each record.

## What is proved

* **`Hierarchy.isReadBack_iff`**: when a hierarchy is read back. The records have to come in an order
  in which no address that is not set follows one that is, and no string an integer.
* `Hierarchy.readBack_fails`: a node without a superior gets that of the record before it.
-/

namespace Subordination.Core.Resources

/-! ### Copies -/

theorem Any.isOk_copy {v : Any} : v.copy.isOk = true ↔ v ≠ .string none := by
  cases v with
  | boolean b => simp [copy, Except.isOk, Except.toBool]
  | u64 n => simp [copy, Except.isOk, Except.toBool]
  | string s => cases s <;> simp [copy, Except.isOk, Except.toBool]
  | unknown t => simp [copy, Except.isOk, Except.toBool]

namespace Bindings

/-- `Bindings(const Bindings&)`. -/
def copy (b : Bindings) : Except Trap Bindings :=
  if (List.finRange numResources).all (fun r => (b.data r).copy.isOk) && b.symbols.entries.all (fun x => x.2.copy.isOk)
  then .ok b
  else .error .nullPointer

/-- No value is a null string. -/
def IsCopyable (b : Bindings) : Prop :=
  (∀ r, b.data r ≠ .string none) ∧ ∀ s v, b.symbols.lookup s = some v → v ≠ .string none

theorem copy_eq_ok_iff {b b' : Bindings} : b.copy = .ok b' ↔ b.IsCopyable ∧ b' = b := by
  have hall : ((List.finRange numResources).all (fun r => (b.data r).copy.isOk) &&
      b.symbols.entries.all fun x => x.2.copy.isOk) = true ↔ b.IsCopyable := by
    rw [Bool.and_eq_true, List.all_eq_true, List.all_eq_true]
    refine and_congr ⟨fun h r => ?_, fun h r _ => ?_⟩ ⟨fun h s v hv => ?_, fun h x hx => ?_⟩
    · exact Any.isOk_copy.1 (h r (List.mem_finRange r))
    · exact Any.isOk_copy.2 (h r)
    · exact Any.isOk_copy.1 (h ⟨s, v⟩ (AList.mem_lookup_iff.1 hv))
    · exact Any.isOk_copy.2 (h x.1 x.2 (AList.mem_lookup_iff.2 hx))
  rw [copy]
  by_cases hb : b.IsCopyable
  · rw [if_pos (hall.2 hb), Except.ok.injEq, and_iff_right hb]
    exact eq_comm
  · rw [if_neg fun h => hb (hall.1 h)]
    simp [hb]

/-- Equal bindings can be copied alike. -/
theorem isCopyable_of_eq {a b : Bindings} (h : a.eq b = true) : a.IsCopyable ↔ b.IsCopyable := by
  obtain ⟨hdata, hlookup, -⟩ := eq_iff.1 h
  refine and_congr (forall_congr' fun r => ?_) (forall_congr' fun s => forall_congr' fun v => ?_)
  · rw [(Any.eq_iff.1 (hdata r)).1]
  · rw [hlookup s]

end Bindings

end Subordination.Core.Resources

namespace Subordination.Daemon

open Subordination.Core Subordination.Library
open Subordination.Core.Resources (Bindings BindingCells Cell HeapAddress numResources)

/-! ### Records in memory -/

/-- A variable of type `hierarchy_node`. -/
structure NodeCells where
  /-- `_socket_address`. -/
  socketAddress : SocketAddress
  /-- `_superior_socket_address`. -/
  superiorSocketAddress : SocketAddress
  /-- `_resources`. -/
  resources : BindingCells
  /-- `_version`. -/
  version : UInt64
  /-- `_last_modified`. -/
  lastModified : TimePoint

/-- Where `new` finds room while a record is read, and what local variables hold. -/
structure ReadContext where
  /-- For the strings of the array. -/
  data : Fin numResources → HeapAddress
  /-- For the strings of the names. -/
  symbols : ℕ → HeapAddress
  /-- The local variables. -/
  rubbish : ℕ → UInt64

/-- Records that are equal but for the times of their last changes. -/
structure HierarchyNode.Same (a b : HierarchyNode) : Prop where
  /-- The addresses. -/
  socketAddress : a.socketAddress = b.socketAddress
  /-- The addresses of the superiors. -/
  superiorSocketAddress : a.superiorSocketAddress = b.superiorSocketAddress
  /-- The resources. -/
  resources : a.resources.eq b.resources = true
  /-- The versions. -/
  version : a.version = b.version

section Records

variable [ByteOrder]

/-- `hierarchy_node::write`. -/
def HierarchyNode.bytes (n : HierarchyNode) : List UInt8 :=
  n.socketAddress.wire ++ (n.superiorSocketAddress.wire ++ (n.resources.bytes ++ u64Bytes n.version))

namespace NodeCells

/-- The record. -/
def value (c : NodeCells) : HierarchyNode where
  socketAddress := c.socketAddress
  superiorSocketAddress := c.superiorSocketAddress
  resources := c.resources.value
  version := c.version
  lastModified := c.lastModified

/-- `hierarchy_node::read`. -/
def read (x : ReadContext) (c : NodeCells) : ReadM NodeCells := do
  let socketAddress ← c.socketAddress.readOver
  let superiorSocketAddress ← c.superiorSocketAddress.readOver
  let (resources, _) ← c.resources.read x.data x.symbols x.rubbish
  let version ← readU64
  pure { c with socketAddress, superiorSocketAddress, resources, version }

/-- The record can be read into the variable: its addresses are set where there is one already, and its
resources can be taken. -/
structure Takes (x : ReadContext) (c : NodeCells) (n : HierarchyNode) : Prop where
  /-- The address. -/
  socketAddress : c.socketAddress.isSet = true → n.socketAddress.isSet = true
  /-- The address of the superior. -/
  superiorSocketAddress : c.superiorSocketAddress.isSet = true → n.superiorSocketAddress.isSet = true
  /-- The resources. -/
  resources : c.resources.Takes x.rubbish n.resources

/-- The variable after the record was read. -/
def after (x : ReadContext) (c : NodeCells) (n : HierarchyNode) : NodeCells where
  socketAddress := n.socketAddress
  superiorSocketAddress := n.superiorSocketAddress
  resources := c.resources.after x.data n.resources
  version := n.version
  lastModified := c.lastModified

variable {x : ReadContext} {c c' : NodeCells} {n : HierarchyNode} {rest w : List UInt8}

/-- **A record is read into a variable that can take it.** -/
theorem reads (h : c.Takes x n) : Reads (c.read x) n.bytes (c.after x n) := by
  have haddress := SocketAddress.reads_over c.socketAddress n.socketAddress
  have hsuperior := SocketAddress.reads_over c.superiorSocketAddress n.superiorSocketAddress
  rw [SocketAddress.overlay_eq_iff.2 h.socketAddress] at haddress
  rw [SocketAddress.overlay_eq_iff.2 h.superiorSocketAddress] at hsuperior
  exact haddress.bind (hsuperior.bind ((BindingCells.reads_of_takes h.resources).bind
    ((reads_u64 n.version).bindPure rfl)))

theorem same_after (h : c.Takes x n) : (c.after x n).value.Same n :=
  ⟨rfl, rfl, BindingCells.value_after_eq h.resources, rfl⟩

/-- **A record that is read back could be taken.** -/
theorem takes_of_ok (h : c.read x (n.bytes ++ rest) = .ok c' w) (hsame : c'.value.Same n) :
    c.Takes x n ∧ c' = c.after x n ∧ w = rest := by
  have hread := h
  rw [HierarchyNode.bytes, List.append_assoc, List.append_assoc, List.append_assoc] at hread
  obtain ⟨a, w₁, ha, hread⟩ := bind_ok hread
  obtain ⟨s, w₂, hs, hread⟩ := bind_ok hread
  obtain ⟨⟨resources, released⟩, w₃, hresources, hread⟩ := bind_ok hread
  obtain ⟨version, w₄, hversion, hread⟩ := bind_ok hread
  cases hread
  rw [SocketAddress.reads_over c.socketAddress n.socketAddress] at ha
  cases ha
  rw [SocketAddress.reads_over c.superiorSocketAddress n.superiorSocketAddress] at hs
  cases hs
  have htakes : c.Takes x n := ⟨SocketAddress.overlay_eq_iff.1 hsame.socketAddress,
    SocketAddress.overlay_eq_iff.1 hsame.superiorSocketAddress, BindingCells.takes_of_ok hresources hsame.resources⟩
  injection (reads htakes rest).symm.trans h with hc hw
  exact ⟨htakes, hc.symm, hw.symm⟩

end NodeCells

/-! ### The table -/

/-- The variable that the entries of the table are read into, `std::pair<X,Y> tmp`, and the number
of entries that were. -/
structure Temporary where
  /-- `first`. -/
  key : SocketAddress
  /-- `second`. -/
  node : NodeCells
  /-- How many entries were read. -/
  round : ℕ

/-- `hierarchy_node()`: there is one thread. -/
def NodeCells.initial : NodeCells where
  socketAddress := .unset
  superiorSocketAddress := .unset
  resources := ⟨fun r => if r = Resources.totalThreads then ⟨4, 1, none, by simp, by simp⟩ else .garbage 0, ∅⟩
  version := 0
  lastModified := 0

/-- A key and a record, as they are written. -/
def entryBytes (x : Σ _ : SocketAddress, HierarchyNode) : List UInt8 := x.1.wire ++ x.2.bytes

namespace Temporary

/-- The variable before the loop. -/
def initial : Temporary := ⟨.unset, .initial, 0⟩

/-- A round of the loop: the key and the record are read into the variable, and `emplace` makes copies of them. -/
def readEntry (xs : ℕ → ReadContext) (t : Temporary) : ReadM (SocketAddress × HierarchyNode × Temporary) := do
  let key ← t.key.readOver
  let node ← t.node.read (xs t.round)
  match node.value.resources.copy with
  | .error _ => throw (.foreign "the length of a null string")
  | .ok _ => pure (key, node.value, ⟨key, node, t.round + 1⟩)

/-- The entry can be read into the variable and copied. -/
structure Takes (xs : ℕ → ReadContext) (t : Temporary) (x : Σ _ : SocketAddress, HierarchyNode) : Prop where
  /-- The key is set where there is one already. -/
  key : t.key.isSet = true → x.1.isSet = true
  /-- The record can be read. -/
  node : t.node.Takes (xs t.round) x.2
  /-- And copied. -/
  copyable : x.2.resources.IsCopyable

/-- The variable after the entry was read. -/
def after (xs : ℕ → ReadContext) (t : Temporary) (x : Σ _ : SocketAddress, HierarchyNode) : Temporary :=
  ⟨x.1, t.node.after (xs t.round) x.2, t.round + 1⟩

/-- The entries can be read one after another. -/
def TakesAll (xs : ℕ → ReadContext) : Temporary → List (Σ _ : SocketAddress, HierarchyNode) → Prop
  | _, [] => True
  | t, x :: entries => t.Takes xs x ∧ TakesAll xs (t.after xs x) entries

variable {xs : ℕ → ReadContext} {t t' : Temporary} {x : Σ _ : SocketAddress, HierarchyNode} {k : SocketAddress}
  {v : HierarchyNode} {rest w w' : List UInt8}

/-- What a round has done. -/
theorem readEntry_ok (h : readEntry xs t w = .ok (k, v, t') w') : ∃ w₁ node, t.key.readOver w = .ok k w₁ ∧
    t.node.read (xs t.round) w₁ = .ok node w' ∧ node.value.resources.IsCopyable ∧ v = node.value ∧
      t' = ⟨k, node, t.round + 1⟩ := by
  obtain ⟨key, w₁, hkey, h⟩ := bind_ok h
  obtain ⟨node, w₂, hnode, h⟩ := bind_ok h
  cases hcopy : node.value.resources.copy with
  | error e =>
    rw [hcopy] at h
    cases h
  | ok b =>
    rw [hcopy] at h
    cases h
    exact ⟨w₁, node, hkey, hnode, (Bindings.copy_eq_ok_iff.1 hcopy).1, rfl, rfl⟩

theorem readsEntry (h : t.Takes xs x) : ReadsEntry (readEntry xs) entryBytes HierarchyNode.Same t x (t.after xs x) := by
  intro rest
  have hsame := NodeCells.same_after h.node
  have hkey := SocketAddress.reads_over t.key x.1
  rw [SocketAddress.overlay_eq_iff.2 h.key] at hkey
  have hcopy := Bindings.copy_eq_ok_iff.2
    ⟨(Bindings.isCopyable_of_eq hsame.resources).2 h.copyable, rfl⟩
  refine ⟨(t.node.after (xs t.round) x.2).value, ?_, hsame⟩
  rw [entryBytes, List.append_assoc]
  refine bind_eq_ok (hkey _) (bind_eq_ok (NodeCells.reads h.node rest) ?_)
  rw [hcopy]
  rfl

theorem takes_of_ok (h : readEntry xs t (entryBytes x ++ rest) = .ok (x.1, v, t') w) (hsame : v.Same x.2) :
    t.Takes xs x ∧ t' = t.after xs x := by
  obtain ⟨w₁, node, hkey, hnode, hcopyable, rfl, rfl⟩ := readEntry_ok h
  rw [entryBytes, List.append_assoc, SocketAddress.reads_over] at hkey
  injection hkey with hk hw
  subst hw
  obtain ⟨htakes, rfl, -⟩ := NodeCells.takes_of_ok hnode hsame
  exact ⟨⟨SocketAddress.overlay_eq_iff.1 hk, htakes, (Bindings.isCopyable_of_eq hsame.resources).1 hcopyable⟩, rfl⟩

/-- **The entries are read one by one** exactly if the variable can take them one after another. -/
theorem readsEntries_iff {entries : List (Σ _ : SocketAddress, HierarchyNode)} :
    ReadsEntries (readEntry xs) entryBytes HierarchyNode.Same t entries ↔ TakesAll xs t entries := by
  induction entries generalizing t with
  | nil => exact iff_of_true .nil trivial
  | cons x entries ih =>
    constructor
    · rintro (_ | ⟨hentry, hrest⟩)
      obtain ⟨v, hv, hsame⟩ := hentry []
      obtain ⟨htakes, rfl⟩ := takes_of_ok hv hsame
      exact ⟨htakes, ih.1 hrest⟩
    · rintro ⟨htakes, hrest⟩
      exact .cons (readsEntry htakes) (ih.2 hrest)

/-- A key that is not set is not read any more once there is one that is. -/
def Lost (a : SocketAddress) (t : Temporary) : Prop := a.isSet = false ∧ t.key.isSet = true

theorem lost_of_ok (ha : Lost k t) {k' : SocketAddress} (h : readEntry xs t w = .ok (k', v, t') w') :
    k' ≠ k ∧ Lost k t' := by
  obtain ⟨w₁, node, hkey, -, -, -, rfl⟩ := readEntry_ok h
  have hset := SocketAddress.isSet_of_readOver hkey ha.2
  refine ⟨?_, ha.1, hset⟩
  rintro rfl
  rw [ha.1] at hset
  cases hset

theorem lost_of_ne (h : readEntry xs t (entryBytes x ++ rest) = .ok (k, v, t') w) (hne : k ≠ x.1) : Lost x.1 t' := by
  obtain ⟨w₁, node, hkey, -, -, -, rfl⟩ := readEntry_ok h
  rw [entryBytes, List.append_assoc, SocketAddress.reads_over] at hkey
  injection hkey with hk hw
  rw [SocketAddress.overlay] at hk
  split at hk
  · exact absurd hk.symm hne
  · next hunset =>
    have hunset : x.1.isSet = false := Bool.eq_false_iff.2 hunset
    refine ⟨hunset, ?_⟩
    by_contra hkey
    have hk : k.isSet = false := Bool.eq_false_iff.2 hkey
    exact hne ((SocketAddress.eq_unset_of_isSet hk).trans (SocketAddress.eq_unset_of_isSet hunset).symm)

end Temporary

/-! ### Hierarchies -/

/-- A variable of type `Hierarchy`. The records of the old table are gone before those of the new one are read. -/
structure HierarchyCells where
  /-- `_netmask`. -/
  netmask : UInt32
  /-- `_this_node`. -/
  thisNode : NodeCells
  /-- `_nodes`. -/
  nodes : AList fun _ : SocketAddress => HierarchyNode

/-- `Hierarchy::write`, with the netmask as an address. -/
def Hierarchy.bytes (netmask : UInt32) (h : Hierarchy) : List UInt8 :=
  Endian.big.encode 4 netmask.toNat ++ (h.thisNode.bytes ++
    (intBytes 4 h.nodes.entries.length ++ h.nodes.entries.flatMap entryBytes))

namespace HierarchyCells

/-- `Hierarchy::read`. -/
def read (own : ReadContext) (xs : ℕ → ReadContext) (c : HierarchyCells) : ReadM HierarchyCells := do
  let netmask ← readBytes 4
  let thisNode ← c.thisNode.read own
  let n ← readInt 4
  let nodes ← readEntries (Temporary.readEntry xs) n .initial ∅
  pure { c with netmask := UInt32.ofNat (Endian.big.decode netmask), thisNode, nodes }

/-- The variable is equal to the hierarchy, but for the times of the last changes. -/
structure IsEqual (c : HierarchyCells) (netmask : UInt32) (h : Hierarchy) : Prop where
  /-- The netmask. -/
  netmask_eq : c.netmask = netmask
  /-- The own record. -/
  thisNode : c.thisNode.value.Same h.thisNode
  /-- There are no other nodes. -/
  keys : ∀ a, a ∈ c.nodes ↔ a ∈ h.nodes
  /-- The records of the table. -/
  nodes : ∀ x ∈ h.nodes.entries, ∃ r, c.nodes.lookup x.1 = some r ∧ r.Same x.2

/-- The hierarchy is read back. -/
def Restores (own : ReadContext) (xs : ℕ → ReadContext) (c : HierarchyCells) (netmask : UInt32)
    (h : Hierarchy) : Prop :=
  ∀ rest, ∃ c', c.read own xs (h.bytes netmask ++ rest) = .ok c' rest ∧ c'.IsEqual netmask h

/-- The hierarchy can be read into the variable. -/
structure Suits (own : ReadContext) (xs : ℕ → ReadContext) (c : HierarchyCells) (h : Hierarchy) : Prop where
  /-- The own record is read over the one that is there. -/
  thisNode : c.thisNode.Takes own h.thisNode
  /-- The number of records fits its 32 bits. -/
  length : h.nodes.entries.length < 2 ^ 32
  /-- The records are read one after another. -/
  nodes : Temporary.initial.TakesAll xs h.nodes.entries

variable {own : ReadContext} {xs : ℕ → ReadContext} {c : HierarchyCells} {netmask : UInt32} {h : Hierarchy}

omit [ByteOrder] in
/-- The netmask is read as it is. -/
theorem reads_netmask (netmask : UInt32) :
    Reads (readBytes 4) (Endian.big.encode 4 netmask.toNat) (Endian.big.encode 4 netmask.toNat) := by
  have hread := reads_bytes (Endian.big.encode 4 netmask.toNat)
  rwa [Endian.length_encode] at hread

theorem restores_of_suits (hsuits : c.Suits own xs h) : c.Restores own xs netmask h := by
  intro rest
  obtain ⟨m', hm', hin, hout⟩ := reads_entries (Temporary.readsEntries_iff.2 hsuits.nodes) h.nodes.nodupKeys (m := ∅)
    (fun _ _ => AList.notMem_empty _) rest
  refine ⟨⟨netmask, c.thisNode.after own h.thisNode, m'⟩, ?_, rfl, NodeCells.same_after hsuits.thisNode,
    fun a => ?_, hin⟩
  · rw [Hierarchy.bytes, List.append_assoc, List.append_assoc, List.append_assoc]
    refine bind_eq_ok (reads_netmask netmask _) (bind_eq_ok (NodeCells.reads hsuits.thisNode _)
      (bind_eq_ok (reads_int hsuits.length _) (bind_eq_ok hm' ?_)))
    have hlt : netmask.toNat < 256 ^ 4 := by simpa using netmask.toNat_lt
    have hdecode := Endian.decode_encode_of_lt Endian.big hlt
    rw [hdecode, UInt32.ofNat_toNat]
    rfl
  · by_cases ha : a ∈ h.nodes
    · obtain ⟨r, hr⟩ := Option.isSome_iff_exists.1 (AList.lookup_isSome.2 ha)
      obtain ⟨v, hv, -⟩ := hin ⟨a, r⟩ (AList.mem_lookup_iff.1 hr)
      exact iff_of_true (AList.lookup_isSome.1 (by rw [hv]; rfl)) ha
    · refine iff_of_false (fun hmem => ?_) ha
      have hlookup := hout a ha
      rw [AList.lookup_empty] at hlookup
      exact AList.lookup_eq_none.1 hlookup hmem

theorem suits_of_restores (hrestores : c.Restores own xs netmask h) : c.Suits own xs h := by
  obtain ⟨c', hread, hequal⟩ := hrestores []
  rw [Hierarchy.bytes, List.append_assoc, List.append_assoc, List.append_assoc] at hread
  obtain ⟨bs, w₁, hbs, hread⟩ := bind_ok hread
  obtain ⟨thisNode, w₂, hthis, hread⟩ := bind_ok hread
  obtain ⟨n, w₃, hn, hread⟩ := bind_ok hread
  obtain ⟨nodes, w₄, hnodes, hread⟩ := bind_ok hread
  cases hread
  rw [reads_netmask netmask] at hbs
  cases hbs
  obtain ⟨htakes, -, rfl⟩ := NodeCells.takes_of_ok hthis hequal.thisNode
  rw [reads_int_mod] at hn
  cases hn
  -- there are no fewer records than were written
  have hlength : h.nodes.entries.length < 2 ^ 32 := length_lt_of_readEntries hnodes hequal.keys
  rw [Nat.mod_eq_of_lt (show h.nodes.entries.length < 256 ^ 4 from hlength)] at hnodes
  have hentries : ReadsEntries (Temporary.readEntry xs) entryBytes HierarchyNode.Same .initial h.nodes.entries := by
    refine readsEntries_of_ok Temporary.Lost (fun ha hok => Temporary.lost_of_ok ha hok)
      (fun hok hne => Temporary.lost_of_ne hok hne) (fun hok hsame => ?_)
      h.nodes.nodupKeys (fun _ _ => AList.notMem_empty _) hnodes hequal.nodes
    obtain ⟨htakes, rfl⟩ := Temporary.takes_of_ok hok hsame
    exact Temporary.readsEntry htakes
  exact ⟨htakes, hlength, Temporary.readsEntries_iff.1 hentries⟩

end HierarchyCells

/-- **A hierarchy is read back** exactly if its own record can be read over the one that is there
and the records of the table can be read one after another. -/
theorem Hierarchy.isReadBack_iff (own : ReadContext) (xs : ℕ → ReadContext) (c : HierarchyCells) (netmask : UInt32)
    (h : Hierarchy) : c.Restores own xs netmask h ↔ c.Suits own xs h :=
  ⟨HierarchyCells.suits_of_restores, HierarchyCells.restores_of_suits⟩

end Records

/-! ### A node without a superior -/

/-- There is always room at one address, and the variables of the reader are zero. -/
def ReadContext.blank : ReadContext := ⟨fun _ => ⟨4096, by decide⟩, fun _ => ⟨4096, by decide⟩, fun _ => 0⟩

/-- The record of the node at 10.0.0.3, which has a superior, comes before that of the node at 10.0.0.2. -/
def Hierarchy.rootLast : Hierarchy where
  netmask := 8
  thisNode := nodeRecord 1
  nodes := ⟨[⟨nodeAddress 3, { nodeRecord 3 with superiorSocketAddress := nodeAddress 2 }⟩,
    ⟨nodeAddress 2, nodeRecord 2⟩], show [nodeAddress 3, nodeAddress 2].Nodup by decide⟩

/-- The node at 10.0.0.2 gets itself as its superior. -/
theorem Hierarchy.readBack_fails :
    letI := ByteOrder.littleEndian
    ¬ HierarchyCells.Restores .blank (fun _ => .blank) ⟨0, .initial, ∅⟩ 0xFF000000 rootLast := by
  let _ := ByteOrder.littleEndian
  intro hrestores
  obtain ⟨-, hsecond, -⟩ : Temporary.TakesAll _ _ (_ :: _ :: _) := (HierarchyCells.suits_of_restores hrestores).nodes
  exact absurd (hsecond.node.superiorSocketAddress rfl) (by decide)

end Subordination.Daemon
