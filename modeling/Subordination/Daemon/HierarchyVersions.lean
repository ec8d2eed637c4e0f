import Subordination.Daemon.Hierarchy

/-!
# Versions of the own record

A node counts the versions of its own record, so that the nodes that hold a copy of it take
a new version for an old one. The functions that change a hierarchy keep to a discipline,
`Disciplined`: they return true when they have changed something, and a change of the own
superior or the own resources makes a new version.

**`disciplined_iff`** says when they do. The function that does not is `remove_node`: it
takes the superior away without a new version, and returns false if the superior is not in
the table.
-/

namespace Subordination.Daemon

open Subordination.Core Subordination.Library
open Subordination.Core.Resources (Bindings)

/-! ### The discipline -/

/-- A call of a function that changes a hierarchy. -/
inductive Mutator where
  /-- `add_nodes`. -/
  | addNodes (nodes : List HierarchyNode)
  /-- `add_superior`. -/
  | addSuperior (node : HierarchyNode)
  /-- `add_subordinate`. -/
  | addSubordinate (node : HierarchyNode)
  /-- `remove_node`. -/
  | removeNode (sa : SocketAddress)
  /-- `resources`. -/
  | resources (rhs : Bindings)

theorem HierarchyNode.version_lt_incrementVersion {n : HierarchyNode} (h : n.version < maxVersion) :
    n.version < n.incrementVersion.version := by
  have hlt : n.version.toNat < 2 ^ 64 - 1 := h
  rw [incrementVersion, if_pos h, UInt64.lt_iff_toNat_lt]
  show n.version.toNat < (n.version + 1).toNat
  rw [UInt64.toNat_add, UInt64.toNat_one]
  omega

namespace Hierarchy

/-- The call. -/
def apply (h : Hierarchy) (m : Mutator) (now : TimePoint) : Hierarchy × Bool :=
  match m with
  | .addNodes nodes => h.addNodes nodes now
  | .addSuperior node => h.addSuperior node now
  | .addSubordinate node => h.addSubordinate node now
  | .removeNode sa => h.removeNode sa now
  | .resources rhs => h.setResources rhs now

/-- The table or the own record has changed, and not only in the time of the last change. -/
def Changed (h h' : Hierarchy) : Prop :=
  h'.contents ≠ h.contents ∨ h'.thisNode.content ≠ h.thisNode.content

/-- What the node advertises of itself has changed. -/
def Readvertised (h h' : Hierarchy) : Prop :=
  h'.thisNode.superiorSocketAddress ≠ h.thisNode.superiorSocketAddress ∨
    h'.thisNode.resources ≠ h.thisNode.resources

/-- A neighbour that has a copy of the own record from before takes the one from after. -/
def Accepted (h h' : Hierarchy) : Prop :=
  ∀ (g : Hierarchy) (b : HierarchyNode) (now : TimePoint), g.socketAddress ≠ h'.socketAddress →
    g.nodes.lookup h'.socketAddress = some b → b.version ≤ h.thisNode.version →
    (g.addNodes [h'.thisNode] now).1.contents h'.socketAddress = some h'.thisNode.content

/-- A call returns true when something has changed, and makes a new version when what the
node advertises has changed, so that its neighbours take it. -/
def Disciplined (h : Hierarchy) (m : Mutator) (now : TimePoint) : Prop :=
  ((h.apply m now).2 = true ↔ h.Changed (h.apply m now).1) ∧
    (h.Readvertised (h.apply m now).1 → h.thisNode.version < HierarchyNode.maxVersion →
      h.thisNode.version < (h.apply m now).1.thisNode.version ∧ h.Accepted (h.apply m now).1)

/-- When a call keeps to the discipline. -/
def KeepsDiscipline (h : Hierarchy) : Mutator → Prop
  | .addNodes _ => True
  | .addSuperior _ => True
  -- A node without an address of its own does not see that it has added a record.
  | .addSubordinate node => h.socketAddress ≠ .unset ∨ h.nodes.lookup node.socketAddress ≠ none
  | .removeNode sa =>
    match h.nodes.lookup sa with
    | none => h.superiorSocketAddress ≠ sa ∨ sa = .unset
    | some b =>
      if b.superiorSocketAddress = h.socketAddress then
        if h.superiorSocketAddress = sa ∧ sa ≠ .unset then ¬ h.thisNode.version < HierarchyNode.maxVersion
        else h.socketAddress ≠ .unset
      else
        h.superiorSocketAddress = sa → sa ≠ .unset ∧ ¬ h.thisNode.version < HierarchyNode.maxVersion
  -- Values of an unknown type are never equal, so setting them again counts as a change.
  | .resources rhs => h.thisNode.resources.eq rhs = true ∨ h.thisNode.resources ≠ rhs ∨
      h.thisNode.version < HierarchyNode.maxVersion

/-! ### What the calls do -/

/-- A newer record is accepted. -/
theorem accepted_of_lt {h h' : Hierarchy} (hlt : h.thisNode.version < h'.thisNode.version) : h.Accepted h' := by
  intro g b now hown hb hle
  have hnewer : HierarchyNode.versions.newer (g.contents h'.socketAddress) h'.thisNode.content =
      some h'.thisNode.content := by
    rw [contents, hb]
    exact if_pos (UInt64.lt_of_le_of_lt hle hlt)
  have hcontents : (g.addNodes [h'.thisNode] now).1.contents =
      HierarchyNode.versions.absorb g.contents h'.thisNode.content := by
    rw [addNodes_cons]
    show (g.addNode h'.thisNode now).1.contents = _
    rw [contents_addNode]
    exact if_neg hown.symm
  rw [hcontents]
  show Function.update g.contents h'.socketAddress _ h'.socketAddress = _
  rw [Function.update_self]
  exact hnewer

/-- A call that leaves the own record alone keeps to the discipline if it says whether it has
changed the table. -/
theorem disciplined_of_thisNode {h : Hierarchy} {m : Mutator} {now : TimePoint}
    (hthis : (h.apply m now).1.thisNode = h.thisNode) :
    h.Disciplined m now ↔ ((h.apply m now).2 = true ↔ (h.apply m now).1.contents ≠ h.contents) := by
  rw [Disciplined, Changed, Readvertised, hthis]
  simp

theorem disciplined_addNodes (h : Hierarchy) (nodes : List HierarchyNode) (now : TimePoint) :
    h.Disciplined (.addNodes nodes) now :=
  (disciplined_of_thisNode (m := .addNodes nodes) (h.thisNode_addNodes nodes now)).2 (h.addNodes_snd nodes now)

theorem disciplined_addSuperior (h : Hierarchy) (node : HierarchyNode) (now : TimePoint) :
    h.Disciplined (.addSuperior node) now := by
  by_cases hsame : h.thisNode.superiorSocketAddress = node.socketAddress
  · have heq : h.apply (.addSuperior node) now = (h, false) := if_neg (not_not_intro hsame)
    rw [disciplined_of_thisNode (by rw [heq]), heq]
    exact iff_of_false Bool.false_ne_true (not_not_intro rfl)
  · have heq : h.apply (.addSuperior node) now = ({ h with thisNode :=
        { ({ h.thisNode with superiorSocketAddress := node.socketAddress } : HierarchyNode).incrementVersion with
          lastModified := now } }, true) := if_pos hsame
    rw [Disciplined, heq]
    refine ⟨iff_of_true rfl (Or.inr fun hcontent => hsame ?_), fun _ hmax => ?_⟩
    · have hsuperior := congrArg HierarchyNode.superiorSocketAddress hcontent
      have hnew := HierarchyNode.superiorSocketAddress_incrementVersion
        { h.thisNode with superiorSocketAddress := node.socketAddress }
      exact hsuperior.symm.trans hnew
    · have hlt := HierarchyNode.version_lt_incrementVersion
        (n := { h.thisNode with superiorSocketAddress := node.socketAddress }) hmax
      exact ⟨hlt, accepted_of_lt hlt⟩

theorem disciplined_addSubordinate_iff (h : Hierarchy) (node : HierarchyNode) (now : TimePoint) :
    h.Disciplined (.addSubordinate node) now ↔ h.KeepsDiscipline (.addSubordinate node) := by
  have hthis : (h.apply (.addSubordinate node) now).1.thisNode = h.thisNode := by
    rw [apply, addSubordinate]
    split
    · rfl
    · rfl
  rw [disciplined_of_thisNode hthis, apply, addSubordinate, KeepsDiscipline]
  cases hb : h.nodes.lookup node.socketAddress with
  | none =>
    have hcontents : h.contents node.socketAddress = none := by
      rw [contents, hb]
      rfl
    have hchanged (n : HierarchyNode) : (h.put node.socketAddress n).contents ≠ h.contents := by
      rw [contents_put, Ne, Function.update_eq_self_iff, hcontents]
      exact Option.some_ne_none _
    by_cases hown : h.socketAddress = .unset
    · have hdefault : ¬ (default : HierarchyNode).superiorSocketAddress ≠ h.socketAddress :=
        not_not_intro hown.symm
      rw [Option.getD_none, if_neg hdefault]
      refine iff_of_false (fun hflag => Bool.false_ne_true (hflag.2 (hchanged _))) ?_
      rw [not_or, not_not, not_not]
      exact ⟨hown, rfl⟩
    · have hdefault : (default : HierarchyNode).superiorSocketAddress ≠ h.socketAddress := Ne.symm hown
      rw [Option.getD_none, if_pos hdefault]
      exact iff_of_true (iff_of_true rfl (hchanged _)) (Or.inl hown)
  | some b =>
    have hcontents : h.contents node.socketAddress = some b.content := contents_of_lookup hb
    rw [Option.getD_some]
    refine iff_of_true ?_ (Or.inr (Option.some_ne_none b))
    by_cases hsuperior : b.superiorSocketAddress = h.socketAddress
    · rw [if_neg (not_not_intro hsuperior)]
      refine iff_of_false Bool.false_ne_true (not_not_intro ?_)
      rw [contents_put]
      exact Function.update_eq_self_iff.2 hcontents.symm
    · rw [if_pos hsuperior]
      refine iff_of_true rfl fun hsame => hsuperior ?_
      rw [contents_put, Function.update_eq_self_iff, hcontents] at hsame
      exact (congrArg HierarchyNode.superiorSocketAddress (Option.some.inj hsame)).symm

theorem disciplined_resources_iff (h : Hierarchy) (rhs : Bindings) (now : TimePoint) :
    h.Disciplined (.resources rhs) now ↔ h.KeepsDiscipline (.resources rhs) := by
  rw [KeepsDiscipline]
  by_cases hsame : h.thisNode.resources.eq rhs = true
  · have heq : h.apply (.resources rhs) now = (h, false) := if_pos hsame
    rw [disciplined_of_thisNode (by rw [heq]), heq]
    exact iff_of_true (iff_of_false Bool.false_ne_true (not_not_intro rfl)) (Or.inl hsame)
  · have heq : h.apply (.resources rhs) now = ({ h with thisNode :=
        { ({ h.thisNode with resources := rhs } : HierarchyNode).incrementVersion with
          lastModified := now } }, true) := if_neg hsame
    rw [Disciplined, heq]
    by_cases hmax : h.thisNode.version < HierarchyNode.maxVersion
    · have hlt := HierarchyNode.version_lt_incrementVersion (n := { h.thisNode with resources := rhs }) hmax
      refine iff_of_true ⟨iff_of_true rfl (Or.inr fun hcontent => ?_), fun _ _ => ?_⟩ (Or.inr (Or.inr hmax))
      · have hversion := congrArg HierarchyNode.version hcontent
        change (HierarchyNode.incrementVersion { h.thisNode with resources := rhs }).version =
          h.thisNode.version at hversion
        exact absurd (hversion ▸ hlt) (UInt64.lt_irrefl _)
      · exact ⟨hlt, accepted_of_lt hlt⟩
    · -- At the largest version nothing but the resources can change.
      have hlast : ({ h.thisNode with resources := rhs } : HierarchyNode).incrementVersion =
          { h.thisNode with resources := rhs } := if_neg hmax
      rw [hlast]
      constructor
      · rintro ⟨hflag, -⟩
        rcases hflag.1 rfl with hcontents | hcontent
        · exact absurd rfl hcontents
        · refine Or.inr (Or.inl fun heq => hcontent ?_)
          rw [← heq]
          rfl
      · rintro (hsame' | hne | hlt)
        · exact absurd hsame' hsame
        · refine ⟨iff_of_true rfl (Or.inr fun hcontent => hne ?_), fun _ hlt => absurd hlt hmax⟩
          exact (congrArg HierarchyNode.resources hcontent).symm
        · exact absurd hlt hmax

/-! ### Removing a node -/

/-- The first half of `remove_node` takes the superior away if it is the node, and nothing
else of the own record. -/
theorem unsetSuperior_spec (h : Hierarchy) (sa : SocketAddress) (now : TimePoint) :
    (h.unsetSuperior sa now).1.nodes = h.nodes ∧
      (h.unsetSuperior sa now).1.socketAddress = h.socketAddress ∧
      (h.unsetSuperior sa now).1.thisNode.version = h.thisNode.version ∧
      (h.unsetSuperior sa now).1.thisNode.resources = h.thisNode.resources ∧
      (h.unsetSuperior sa now).1.superiorSocketAddress =
        (if h.superiorSocketAddress = sa then .unset else h.superiorSocketAddress) ∧
      ((h.unsetSuperior sa now).2 = true ↔ h.superiorSocketAddress = sa) := by
  rw [unsetSuperior]
  by_cases hsa : h.superiorSocketAddress = sa
  · rw [if_pos hsa, if_pos hsa]
    exact ⟨rfl, rfl, rfl, rfl, rfl, iff_of_true rfl hsa⟩
  · rw [if_neg hsa, if_neg hsa]
    exact ⟨rfl, rfl, rfl, rfl, rfl, iff_of_false Bool.false_ne_true hsa⟩

/-- **What `remove_node` does**: the superior goes, a subordinate in the table loses its
superior, and what is returned depends on the table. -/
theorem removeNode_spec (h : Hierarchy) (sa : SocketAddress) (now : TimePoint) :
    (h.removeNode sa now).1.thisNode = (h.unsetSuperior sa now).1.thisNode ∧
      match h.nodes.lookup sa with
      | none => (h.removeNode sa now).1.contents = h.contents ∧ (h.removeNode sa now).2 = false
      | some b =>
        if b.superiorSocketAddress = h.socketAddress then
          (h.removeNode sa now).1.contents =
            Function.update h.contents sa (some { b.content with superiorSocketAddress := .unset }) ∧
          (h.removeNode sa now).2 = true
        else (h.removeNode sa now).1.contents = h.contents ∧
          ((h.removeNode sa now).2 = true ↔ h.superiorSocketAddress = sa) := by
  obtain ⟨hnodes, haddress, -, -, -, hflag⟩ := h.unsetSuperior_spec sa now
  rw [removeNode]
  generalize h.unsetSuperior sa now = first at hnodes haddress hflag
  obtain ⟨h', updated⟩ := first
  have hcontents : h'.contents = h.contents := by
    funext a
    rw [contents, contents, hnodes]
  simp only at hnodes haddress hflag
  simp only [hnodes, haddress]
  cases hb : h.nodes.lookup sa with
  | none => exact ⟨rfl, hcontents, rfl⟩
  | some b =>
    simp only
    by_cases hsuperior : b.superiorSocketAddress = h.socketAddress
    · rw [if_pos hsuperior, if_pos hsuperior]
      refine ⟨rfl, ?_, rfl⟩
      rw [contents_put, hcontents]
      rfl
    · rw [if_neg hsuperior, if_neg hsuperior]
      refine ⟨rfl, ?_, hflag⟩
      rw [contents_put, hcontents]
      refine Function.update_eq_self_iff.2 ?_
      rw [contents, hb]
      rfl

/-- The own record changes in `remove_node` when the node is the superior. -/
theorem readvertised_removeNode (h : Hierarchy) (sa : SocketAddress) (now : TimePoint) :
    (h.Readvertised (h.removeNode sa now).1 ↔ h.superiorSocketAddress = sa ∧ sa ≠ .unset) ∧
      ((h.removeNode sa now).1.thisNode.content ≠ h.thisNode.content ↔
        h.superiorSocketAddress = sa ∧ sa ≠ .unset) := by
  obtain ⟨hthis, -⟩ := h.removeNode_spec sa now
  rw [Readvertised, hthis, unsetSuperior]
  by_cases hsa : h.superiorSocketAddress = sa
  · rw [if_pos hsa]
    have hsuperior : h.thisNode.superiorSocketAddress = sa := hsa
    constructor
    · constructor
      · rintro (hne | hne)
        · exact ⟨hsa, fun hunset => hne (hsuperior.trans hunset).symm⟩
        · exact absurd rfl hne
      · rintro ⟨-, hset⟩
        exact Or.inl fun heq => hset (hsuperior.symm.trans heq.symm)
    · constructor
      · intro hne
        refine ⟨hsa, fun hunset => hne ?_⟩
        rw [HierarchyNode.content, HierarchyNode.content, hsuperior, hunset]
      · rintro ⟨-, hset⟩ heq
        exact hset (hsuperior.symm.trans (congrArg HierarchyNode.superiorSocketAddress heq).symm)
  · rw [if_neg hsa]
    have hno : ¬ (h.superiorSocketAddress = sa ∧ sa ≠ .unset) := fun hboth => hsa hboth.1
    exact ⟨iff_of_false (by rintro (hne | hne) <;> exact hne rfl) hno, iff_of_false (not_not_intro rfl) hno⟩

/-- A node that is removed is no superior any more, and the version stays: what is returned has to be right, and
if it was the superior there has to be no greater version. -/
theorem disciplined_removeNode (h : Hierarchy) (sa : SocketAddress) (now : TimePoint) :
    h.Disciplined (.removeNode sa) now ↔
      ((h.removeNode sa now).2 = true ↔
        (h.removeNode sa now).1.contents ≠ h.contents ∨ (h.superiorSocketAddress = sa ∧ sa ≠ .unset)) ∧
      (h.superiorSocketAddress = sa ∧ sa ≠ .unset → ¬ h.thisNode.version < HierarchyNode.maxVersion) := by
  obtain ⟨hreadvertised, hcontent⟩ := h.readvertised_removeNode sa now
  have hversion : (h.removeNode sa now).1.thisNode.version = h.thisNode.version := by
    rw [(h.removeNode_spec sa now).1]
    exact (h.unsetSuperior_spec sa now).2.2.1
  have hnothing (P : Prop) : (h.superiorSocketAddress = sa ∧ sa ≠ .unset →
      h.thisNode.version < HierarchyNode.maxVersion → h.thisNode.version < h.thisNode.version ∧ P) ↔
      (h.superiorSocketAddress = sa ∧ sa ≠ .unset → ¬ h.thisNode.version < HierarchyNode.maxVersion) :=
    imp_congr_right fun _ => imp_congr_right fun _ => iff_of_false (fun hlt => UInt64.lt_irrefl _ hlt.1) id
  rw [Disciplined, Changed, apply, hreadvertised, hcontent, hversion, hnothing]

/-- A subordinate that is removed changes the table, unless the own address is not set. -/
theorem contents_removeNode_ne {h : Hierarchy} {sa : SocketAddress} {b : HierarchyNode}
    (hb : h.nodes.lookup sa = some b) (hsuperior : b.superiorSocketAddress = h.socketAddress) (now : TimePoint) :
    (h.removeNode sa now).1.contents ≠ h.contents ↔ h.socketAddress ≠ .unset := by
  obtain ⟨-, htable⟩ := h.removeNode_spec sa now
  simp only [hb, if_pos hsuperior] at htable
  rw [htable.1, Ne, Function.update_eq_self_iff, contents_of_lookup hb, Option.some.injEq, ← hsuperior]
  refine not_congr ⟨fun heq => (congrArg HierarchyNode.superiorSocketAddress heq).symm, fun heq => ?_⟩
  rw [← heq]
  rfl

theorem disciplined_removeNode_iff (h : Hierarchy) (sa : SocketAddress) (now : TimePoint) :
    h.Disciplined (.removeNode sa) now ↔ h.KeepsDiscipline (.removeNode sa) := by
  obtain ⟨-, htable⟩ := h.removeNode_spec sa now
  rw [disciplined_removeNode, KeepsDiscipline]
  cases hb : h.nodes.lookup sa with
  | none =>
    simp only [hb] at htable
    rw [htable.1, htable.2]
    constructor
    · rintro ⟨hflag, -⟩
      by_contra hlost
      rw [not_or, not_not] at hlost
      exact Bool.false_ne_true (hflag.2 (Or.inr hlost))
    · intro hkept
      have hno : ¬ (h.superiorSocketAddress = sa ∧ sa ≠ .unset) := fun hlost =>
        hkept.elim (fun hother => hother hlost.1) hlost.2
      refine ⟨iff_of_false Bool.false_ne_true ?_, fun hlost => absurd hlost hno⟩
      rintro (hne | hlost)
      · exact hne rfl
      · exact hno hlost
  | some b =>
    simp only [hb] at htable
    simp only
    by_cases hsuperior : b.superiorSocketAddress = h.socketAddress
    · rw [if_pos hsuperior] at htable
      rw [if_pos hsuperior, contents_removeNode_ne hb hsuperior, htable.2]
      split
      · next hlost => exact ⟨fun hboth => hboth.2 hlost, fun hmax => ⟨iff_of_true rfl (Or.inr hlost), fun _ => hmax⟩⟩
      · next hkept =>
        exact ⟨fun hboth => (hboth.1.1 rfl).resolve_right hkept,
          fun hown => ⟨iff_of_true rfl (Or.inl hown), fun hlost => absurd hlost hkept⟩⟩
    · rw [if_neg hsuperior] at htable
      rw [if_neg hsuperior, htable.1, htable.2]
      constructor
      · rintro ⟨hflag, hmax⟩ hsa
        rcases hflag.1 hsa with hne | hlost
        · exact absurd rfl hne
        · exact ⟨hlost.2, hmax hlost⟩
      · intro hkept
        refine ⟨⟨fun hsa => Or.inr ⟨hsa, (hkept hsa).1⟩, ?_⟩, fun hlost => (hkept hlost.1).2⟩
        rintro (hne | hlost)
        · exact absurd rfl hne
        · exact hlost.1

/-- **The calls keep to the discipline**, but for some calls of `remove_node` and what cannot
happen to a node that knows its own address. -/
theorem disciplined_iff (h : Hierarchy) (m : Mutator) (now : TimePoint) :
    h.Disciplined m now ↔ h.KeepsDiscipline m := by
  cases m with
  | addNodes nodes => exact iff_of_true (h.disciplined_addNodes nodes now) trivial
  | addSuperior node => exact iff_of_true (h.disciplined_addSuperior node now) trivial
  | addSubordinate node => exact h.disciplined_addSubordinate_iff node now
  | removeNode sa => exact h.disciplined_removeNode_iff sa now
  | resources rhs => exact h.disciplined_resources_iff rhs now

/-- A node whose superior is 10.0.0.1. -/
def subordinateOfOne : Hierarchy :=
  ((construct (.ofAddress 0x0a000002 8) 8 33333).addSuperior
    { (default : HierarchyNode) with socketAddress := ipv4SocketAddress 0x0a000001 33333 } 1).1

/-- It loses its superior and keeps its version, and says that nothing has changed. -/
theorem superior_removed_silently :
    ¬ ∀ (h : Hierarchy) (m : Mutator) (now : TimePoint), h.Disciplined m now := by
  intro hall
  have hsuperior := (hall subordinateOfOne (.removeNode (ipv4SocketAddress 0x0a000001 33333)) 2)
  rw [disciplined_removeNode_iff] at hsuperior
  rcases hsuperior with hother | hunset
  · exact hother (by decide)
  · exact absurd hunset (by decide)

end Hierarchy

end Subordination.Daemon
