import Mathlib.Algebra.Order.BigOperators.Group.Finset
import Mathlib.Data.Fintype.BigOperators
import Subordination.Daemon.Network

/-!
# Gossip

Daemons that only merge the hierarchies they receive, and send their own when that has
changed it. **`addNodes_join`** puts together what merging is good for: the outcome depends
on what is received, not on how, and the wave of hierarchies comes to an end, for a daemon
can only be changed once by each version of each record.
-/

namespace Subordination.Daemon

open Subordination.Core Subordination.Library

/-- The address and the version of a record. -/
def HierarchyNode.stamp (r : HierarchyNode) : SocketAddress × ℕ := (r.socketAddress, r.version.toNat)

/-- The addresses and versions of the records of a hierarchy. A record of the table counts at
the address where it is kept. -/
def Hierarchy.stamps (h : Hierarchy) : List (SocketAddress × ℕ) :=
  h.thisNode.stamp :: h.nodes.entries.flatMap fun e => [(e.1, e.2.version.toNat), e.2.stamp]

namespace Network

variable {s : Subnet} {ι : Type}

/-- The addresses and versions of all the records in the network: those that the daemons hold
and those that are on their way. -/
def stamps [Fintype ι] (net : Network ι) : Finset (SocketAddress × ℕ) :=
  (Finset.univ.biUnion fun i =>
    match net.discoverer i with
    | none => ∅
    | some d => d.hierarchy.stamps.toFinset) ∪
  ((net.sent.flatMap Message.nodes).map HierarchyNode.stamp).toFinset

/-- Whether a hierarchy that arrives changes the table of a discoverer. -/
def updates (d : Discoverer) (k : HierarchyKernel) (now : TimePoint) : Bool :=
  !(k.returned ∧ k.returnCode ≠ .success) && (d.hierarchy.addNodes k.nodes now).2

/-- A run in which daemons do nothing but merge hierarchies that arrive, with the number of
the updates that have returned true. -/
inductive Gossip [DecidableEq ι] (daemons : ι → Member s) (net : Network ι) : ℕ → Network ι → Prop
  /-- Nothing has arrived. -/
  | start : Gossip daemons net 0 net
  /-- A hierarchy arrives. -/
  | arrive {n : ℕ} {net' : Network ι} {i : ι} {d : Discoverer} {k : HierarchyKernel} (now : TimePoint) :
      Gossip daemons net n net' → net'.discoverer i = some d → MayHappen daemons net' i (.hierarchy k) →
      Gossip daemons net (n + (updates d k now).toNat)
        ⟨Function.update net'.discoverer i (some (d.updateWeights k now).1),
          net'.sent ++ sends (d.updateWeights k now).2⟩

/-! ### The records stay the same -/

/-- The records in the network have their addresses and versions in a set. -/
structure Within (P : Finset (SocketAddress × ℕ)) (net : Network ι) : Prop where
  /-- The records that the daemons hold. -/
  held : ∀ i d, net.discoverer i = some d → ∀ p ∈ d.hierarchy.stamps, p ∈ P
  /-- The records that are on their way. -/
  sent : ∀ m ∈ net.sent, ∀ r ∈ m.nodes, r.stamp ∈ P

theorem within_stamps [Fintype ι] (net : Network ι) : net.Within net.stamps where
  held i d hd p hp := by
    refine Finset.mem_union_left _ (Finset.mem_biUnion.2 ⟨i, Finset.mem_univ i, ?_⟩)
    rw [hd]
    exact List.mem_toFinset.2 hp
  sent m hm r hr := by
    refine Finset.mem_union_right _ (List.mem_toFinset.2 (List.mem_map.2 ⟨r, ?_, rfl⟩))
    exact List.mem_flatMap.2 ⟨m, hm, hr⟩

end Network

namespace Hierarchy

variable {P : Finset (SocketAddress × ℕ)} {h : Hierarchy}

theorem mem_stamps {p : SocketAddress × ℕ} :
    p ∈ h.stamps ↔ p = h.thisNode.stamp ∨
      ∃ a r, h.nodes.lookup a = some r ∧ (p = (a, r.version.toNat) ∨ p = r.stamp) := by
  rw [stamps, List.mem_cons, List.mem_flatMap]
  refine or_congr_right ⟨?_, ?_⟩
  · rintro ⟨⟨a, r⟩, hmem, hp⟩
    refine ⟨a, r, AList.mem_lookup_iff.2 hmem, ?_⟩
    simpa using hp
  · rintro ⟨a, r, hr, hp⟩
    exact ⟨⟨a, r⟩, AList.mem_lookup_iff.1 hr, by simpa using hp⟩

/-- What a list of records brings into a table comes from the list. -/
theorem stamps_addNodes {nodes : List HierarchyNode} (hh : ∀ p ∈ h.stamps, p ∈ P)
    (hnodes : ∀ r ∈ nodes, r.stamp ∈ P) (now : TimePoint) : ∀ p ∈ (h.addNodes nodes now).1.stamps, p ∈ P := by
  intro p hp
  obtain rfl | ⟨a, r, hr, hp⟩ := mem_stamps.1 hp
  · rw [thisNode_addNodes]
    exact hh _ (mem_stamps.2 (Or.inl rfl))
  · have hcontents : (h.addNodes nodes now).1.contents a = some r.content := contents_of_lookup hr
    rw [contents_addNodes] at hcontents
    have hstamp : r.content.stamp = r.stamp := rfl
    have hversion : r.content.version = r.version := rfl
    rcases (Versions.highest_of_foldl_absorb hcontents).mem with hold | hnew
    · obtain ⟨b, hb, hcontent⟩ := Option.map_eq_some_iff.1 hold
      have hbstamp : b.stamp = r.stamp := by rw [← hstamp, ← hcontent]; rfl
      have hbversion : b.version = r.version := by rw [← hversion, ← hcontent]; rfl
      refine hh p (mem_stamps.2 (Or.inr ⟨a, b, hb, ?_⟩))
      rwa [hbstamp, hbversion]
    · obtain ⟨hmem, hkey⟩ := List.mem_filter.1 hnew
      obtain ⟨b, hb, hcontent⟩ := List.mem_map.1 (mem_foreign.1 hmem).2
      have hbstamp : r.stamp = b.stamp := by rw [← hstamp, ← hcontent]; rfl
      have ha : r.socketAddress = a := of_decide_eq_true hkey
      have hpstamp : p = r.stamp := by
        rcases hp with rfl | rfl
        · rw [HierarchyNode.stamp, ha]
        · rfl
      rw [hpstamp, hbstamp]
      exact hnodes b hb

/-- A hierarchy that is sent holds nothing but own records. -/
theorem stamp_nodesWithin {radius : ℕ} {r : HierarchyNode} (hr : r ∈ h.nodesWithin radius) :
    r.stamp ∈ h.stamps := by
  obtain ⟨rest, heq, hrest⟩ := h.nodesWithin_eq radius
  rw [heq] at hr
  rcases List.mem_cons.1 hr with rfl | hr
  · exact mem_stamps.2 (Or.inl rfl)
  · obtain ⟨a, ha⟩ := mem_records.1 (hrest r hr)
    exact mem_stamps.2 (Or.inr ⟨a, r, ha, Or.inr rfl⟩)

end Hierarchy

namespace Network

variable {s : Subnet} {ι : Type} {P : Finset (SocketAddress × ℕ)}

/-- What a broadcast carries. -/
theorem nodes_broadcastHierarchy {d : Discoverer} {a : SocketAddress} {m : Message}
    (hm : m ∈ sends (d.broadcastHierarchy a)) : m.nodes = d.hierarchy.nodesWithin d.maxRadius := by
  rw [mem_sends, Discoverer.broadcastHierarchy] at hm
  rcases List.mem_append.1 hm with hm | hm
  · obtain ⟨b, -, hb⟩ := List.mem_map.1 hm
    rw [Discoverer.sendWeight, Action.send.injEq] at hb
    rw [← hb]
    rfl
  · exact absurd (List.mem_singleton.1 hm) Action.noConfusion

/-- The records of a hierarchy that arrives are on their way before. -/
theorem Within.arrived {daemons : ι → Member s} {net : Network ι} (hnet : net.Within P) {i : ι}
    {k : HierarchyKernel} (he : MayHappen daemons net i (.hierarchy k)) : ∀ r ∈ k.nodes, r.stamp ∈ P := by
  cases he with
  | hierarchy hsent _ => exact hnet.sent _ hsent
  | undeliveredHierarchy hsent _ _ => exact hnet.sent _ hsent

/-- What `update_weights` does: nothing, or a merge and a broadcast if the table has changed. -/
theorem updateWeights_cases (d : Discoverer) (k : HierarchyKernel) (now : TimePoint) :
    (updates d k now = false ∧ d.updateWeights k now = (d, [])) ∨
      (updates d k now = (d.hierarchy.addNodes k.nodes now).2 ∧
        (d.updateWeights k now).1.hierarchy = (d.hierarchy.addNodes k.nodes now).1 ∧
        ∀ m ∈ sends (d.updateWeights k now).2,
          m.nodes = (d.hierarchy.addNodes k.nodes now).1.nodesWithin d.maxRadius) := by
  rw [updates, Discoverer.updateWeights]
  by_cases hfailed : k.returned ∧ k.returnCode ≠ .success
  · rw [if_pos hfailed, decide_eq_true hfailed]
    exact Or.inl ⟨rfl, rfl⟩
  · rw [if_neg hfailed, decide_eq_false hfailed]
    refine Or.inr ⟨Bool.true_and _, rfl, fun m hm => ?_⟩
    cases hchanged : (d.hierarchy.addNodes k.nodes now).2 with
    | false =>
      simp only [hchanged] at hm
      exact absurd hm List.not_mem_nil
    | true =>
      simp only [hchanged] at hm
      exact nodes_broadcastHierarchy (d := { d with hierarchy := (d.hierarchy.addNodes k.nodes now).1 }) hm

variable [DecidableEq ι]

theorem Within.arrive {daemons : ι → Member s} {net : Network ι} (hnet : net.Within P) {i : ι}
    {d : Discoverer} {k : HierarchyKernel} (hd : net.discoverer i = some d)
    (he : MayHappen daemons net i (.hierarchy k)) (now : TimePoint) :
    Within P ⟨Function.update net.discoverer i (some (d.updateWeights k now).1),
      net.sent ++ sends (d.updateWeights k now).2⟩ := by
  obtain ⟨-, hsame⟩ | ⟨-, hhierarchy, hsends⟩ := updateWeights_cases d k now
  · rw [hsame, Function.update_eq_self_iff.2 hd.symm]
    exact ⟨hnet.held, by rw [sends_nil, List.append_nil]; exact hnet.sent⟩
  · have hstamps := Hierarchy.stamps_addNodes (hnet.held i d hd) (hnet.arrived he) now
    constructor
    · intro j d' hj
      obtain ⟨rfl, rfl⟩ | ⟨-, hj⟩ := update_eq_some hj
      · rw [hhierarchy]
        exact hstamps
      · exact hnet.held j d' hj
    · intro m hm r hr
      rcases List.mem_append.1 hm with hm | hm
      · exact hnet.sent m hm r hr
      · rw [hsends m hm] at hr
        exact hstamps _ (Hierarchy.stamp_nodesWithin hr)

/-! ### The wave comes to an end -/

omit [DecidableEq ι] in
/-- The versions that a daemon knows of. -/
def reached (P : Finset (SocketAddress × ℕ)) (net : Network ι) (i : ι) : ℕ :=
  match net.discoverer i with
  | none => 0
  | some d => (HierarchyNode.versions.known P d.hierarchy.contents).card

/-- **An update that returns true makes another version known to the daemon.** -/
theorem reached_arrive {net : Network ι} {i : ι} {d : Discoverer} {k : HierarchyKernel} {now : TimePoint}
    (hd : net.discoverer i = some d) {sent : List Message}
    (hnet : Within P ⟨Function.update net.discoverer i (some (d.updateWeights k now).1), sent⟩) :
    (updates d k now).toNat + net.reached P i ≤
      reached P ⟨Function.update net.discoverer i (some (d.updateWeights k now).1), sent⟩ i := by
  have hbefore : net.reached P i = (HierarchyNode.versions.known P d.hierarchy.contents).card := by
    rw [reached, hd]
  have hafter : reached P ⟨Function.update net.discoverer i (some (d.updateWeights k now).1), sent⟩ i =
      (HierarchyNode.versions.known P (d.updateWeights k now).1.hierarchy.contents).card := by
    simp only [reached, Function.update_self]
  rw [hbefore, hafter]
  obtain ⟨hfalse, hsame⟩ | ⟨hflag, hhierarchy, -⟩ := updateWeights_cases d k now
  · rw [hfalse, hsame]
    exact (Nat.zero_add _).le
  · have hbelow := d.hierarchy.below_addNodes k.nodes now
    rw [hflag, hhierarchy]
    cases hchanged : (d.hierarchy.addNodes k.nodes now).2 with
    | false => exact (Nat.zero_add _).trans_le (Finset.card_le_card (Versions.known_subset hbelow))
    | true =>
      have hne := (Hierarchy.addNodes_snd _ _ _).1 hchanged
      rw [Bool.toNat_true, Nat.add_comm]
      refine Versions.known_card_lt hbelow hne.symm fun a c hc => ?_
      obtain ⟨r, hr, rfl⟩ := Option.map_eq_some_iff.1 hc
      have hheld := hnet.held i _ (Function.update_self i _ _)
      rw [hhierarchy] at hheld
      exact hheld _ (Hierarchy.mem_stamps.2 (Or.inr ⟨a, r, hr, Or.inl rfl⟩))

/-- The updates that have returned true, and what the daemons knew before them, are no more
than what they know after them. -/
theorem Gossip.count_le [Fintype ι] {daemons : ι → Member s} {net net' : Network ι} {n : ℕ}
    (h : Gossip daemons net n net') (hnet : net.Within P) :
    net'.Within P ∧ n + ∑ i, net.reached P i ≤ ∑ i, net'.reached P i := by
  induction h with
  | start => exact ⟨hnet, (Nat.zero_add _).le⟩
  | @arrive n net' i d k now _ hd he ih =>
    obtain ⟨hnet', hcount⟩ := ih
    have hwithin := hnet'.arrive hd he now
    have hdaemon := reached_arrive hd hwithin
    refine ⟨hwithin, ?_⟩
    have hothers : ∑ j ∈ Finset.univ.erase i, reached P ⟨Function.update net'.discoverer i
        (some (d.updateWeights k now).1), net'.sent ++ sends (d.updateWeights k now).2⟩ j =
        ∑ j ∈ Finset.univ.erase i, net'.reached P j := by
      refine Finset.sum_congr rfl fun j hj => ?_
      simp only [reached, Function.update_of_ne (Finset.ne_of_mem_erase hj)]
    have hbefore := Finset.add_sum_erase Finset.univ (net'.reached P) (Finset.mem_univ i)
    have hafter := Finset.add_sum_erase Finset.univ (reached P ⟨Function.update net'.discoverer i
      (some (d.updateWeights k now).1), net'.sent ++ sends (d.updateWeights k now).2⟩) (Finset.mem_univ i)
    omega

/-- **A run of merges has at most as many updates as there are daemons and versions.** -/
theorem Gossip.le_card [Fintype ι] {daemons : ι → Member s} {net net' : Network ι} {n : ℕ}
    (h : Gossip daemons net n net') : n ≤ Fintype.card ι * net.stamps.card := by
  have hcount := (h.count_le net.within_stamps).2
  have hbound : ∑ i, net'.reached net.stamps i ≤ ∑ _i : ι, net.stamps.card :=
    Finset.sum_le_sum fun i _ => by
      rw [reached]
      split
      · exact Nat.zero_le _
      · exact Versions.known_card_le _ _
  rw [Finset.sum_const_nat fun _ _ => rfl, Finset.card_univ] at hbound
  omega

end Network

/-- **Merging is a join.** The table that lists are merged into does not depend on their
order, on their grouping or on repetitions; it keeps the highest version of each record but
the own one; a merge returns true when it changes the table; and daemons that do nothing but
merge and pass on what has changed them come to rest. -/
theorem addNodes_join :
    (∀ (h : Hierarchy) (lists lists' : List (List HierarchyNode × TimePoint)),
      HierarchyNode.versions.Consistent (Hierarchy.received lists) →
      (∀ r, r ∈ Hierarchy.received lists ↔ r ∈ Hierarchy.received lists') →
      (h.merge lists).contents = (h.merge lists').contents) ∧
    (∀ (h : Hierarchy) (lists : List (List HierarchyNode × TimePoint)) (a : SocketAddress),
      a ≠ h.socketAddress →
      match (h.merge lists).contents a with
      | none => h.contents a = none ∧ ∀ r ∈ Hierarchy.received lists, r.socketAddress ≠ a
      | some r => HierarchyNode.versions.Highest (h.contents a)
          ((Hierarchy.received lists).filter (·.socketAddress = a)) r) ∧
    (∀ (h : Hierarchy) (nodes : List HierarchyNode) (now : TimePoint),
      (h.addNodes nodes now).2 = true ↔ (h.addNodes nodes now).1.contents ≠ h.contents) ∧
    ∀ {s : Subnet} {ι : Type} [Fintype ι] [DecidableEq ι] (daemons : ι → Member s) (net net' : Network ι)
      (n : ℕ), Network.Gossip daemons net n net' → n ≤ Fintype.card ι * net.stamps.card :=
  ⟨fun h _ _ hsame hmem => h.contents_merge_congr hsame hmem, fun h lists _ ha => h.highest_merge lists ha,
    Hierarchy.addNodes_snd, fun _ _ _ _ h => h.le_card⟩

/-- The record of the node at 10.0.0.2, in the given version. -/
def recordOfTwo (version : UInt64) : HierarchyNode :=
  { (default : HierarchyNode) with socketAddress := ipv4SocketAddress 0x0a000002 33333, version }

/-- Two versions of a record come in one list, or one by one the other way round and again. -/
theorem addNodes_join_two :
    let h := Hierarchy.construct (.ofAddress 0x0a000001 8) 8 33333
    (h.merge [([recordOfTwo 1, recordOfTwo 2], 5)]).contents =
      (h.merge [([recordOfTwo 2], 3), ([recordOfTwo 1, recordOfTwo 1], 4)]).contents := by
  refine addNodes_join.1 _ _ _ ?_ ?_
  · rintro a ha b hb - hversion
    rcases List.mem_pair.1 ha with rfl | rfl
    · rcases List.mem_pair.1 hb with rfl | rfl
      · rfl
      · exact absurd hversion (by decide)
    · rcases List.mem_pair.1 hb with rfl | rfl
      · exact absurd hversion (by decide)
      · rfl
  · intro r
    show r ∈ [(recordOfTwo 1).content, (recordOfTwo 2).content] ↔
      r ∈ [(recordOfTwo 2).content, (recordOfTwo 1).content, (recordOfTwo 1).content]
    simp only [List.mem_cons, List.not_mem_nil, or_false]
    tauto

end Subordination.Daemon
