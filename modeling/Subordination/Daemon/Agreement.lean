import Subordination.Daemon.Handlers

/-!
# Agreement of records

Copies of a record of one node travel through the tables and the kernels of all daemons. Two
copies of the same version should say the same.

## The model

A superior rewrites the superior in its copy of a record, and a node that loses its superior
rewrites its own record; neither makes a new version. `Ledger` is the network together with
the nodes and versions of which some daemon has rewritten a record in this way.

## What is proved

**`records_agree`**: below the largest version, two records of the same node and version have
the same resources, and the same superior unless a record of that node and version has been
rewritten.
-/

namespace Subordination.Daemon

open Subordination.Core Subordination.Library

/-- A node and a version of its record. -/
abbrev Edition := SocketAddress × UInt64

namespace HierarchyNode

/-- The node and the version of a record. -/
def edition (r : HierarchyNode) : Edition := (r.socketAddress, r.version)

/-- The second record is a copy of the first one, and if its superior is another one the
edition is among those that have been rewritten. -/
structure Copies (rewritten : Set Edition) (r r' : HierarchyNode) : Prop where
  /-- The node and the version. -/
  edition_eq : r'.edition = r.edition
  /-- The resources. -/
  resources_eq : r'.resources = r.resources
  /-- The superior. -/
  superior_eq : r.edition ∉ rewritten → r'.superiorSocketAddress = r.superiorSocketAddress

/-- Two records agree. -/
structure Agree (rewritten : Set Edition) (r r' : HierarchyNode) : Prop where
  /-- They have the same resources. -/
  resources_eq : r.resources = r'.resources
  /-- They have the same superior. -/
  superior_eq : r.edition ∉ rewritten → r.superiorSocketAddress = r'.superiorSocketAddress

theorem Copies.of_content_eq {r r' : HierarchyNode} (h : r'.content = r.content) (rewritten : Set Edition) :
    r.Copies rewritten r' where
  edition_eq := (congrArg edition h :)
  resources_eq := (congrArg HierarchyNode.resources h :)
  superior_eq _ := (congrArg superiorSocketAddress h :)

theorem Copies.refl (r : HierarchyNode) (rewritten : Set Edition) : r.Copies rewritten r :=
  Copies.of_content_eq rfl rewritten

theorem Copies.mono {r r' : HierarchyNode} {rewritten rewritten' : Set Edition} (h : r.Copies rewritten r')
    (hsub : rewritten ⊆ rewritten') : r.Copies rewritten' r' :=
  ⟨h.edition_eq, h.resources_eq, fun hr => h.superior_eq fun hmem => hr (hsub hmem)⟩

theorem version_le_incrementVersion (n : HierarchyNode) : n.version ≤ n.incrementVersion.version := by
  by_cases hmax : n.version < maxVersion
  · exact UInt64.le_of_lt (version_lt_incrementVersion hmax)
  · rw [incrementVersion, if_neg hmax]
    exact UInt64.le_refl _

/-- The next version is a new one, or the largest one. -/
theorem version_incrementVersion (n : HierarchyNode) :
    n.version < n.incrementVersion.version ∨ ¬ n.incrementVersion.version < maxVersion := by
  by_cases hmax : n.version < maxVersion
  · exact Or.inl (version_lt_incrementVersion hmax)
  · refine Or.inr ?_
    rw [incrementVersion, if_neg hmax]
    exact hmax

end HierarchyNode

/-! ### All records together -/

/-- Any two of some records agree if they are of the same edition, below the largest version. -/
def Agreement (records : Set HierarchyNode) (rewritten : Set Edition) : Prop :=
  ∀ r ∈ records, ∀ r' ∈ records, r.edition = r'.edition → r.version < HierarchyNode.maxVersion →
    r.Agree rewritten r'

/-- **Copies agree, and so does a record of a version that nobody has yet.** -/
theorem Agreement.extend {records records' : Set HierarchyNode} {rewritten rewritten' : Set Edition}
    (h : Agreement records rewritten) (hsub : rewritten ⊆ rewritten') (own : HierarchyNode)
    (hnew : ∀ r' ∈ records', (∃ r ∈ records, r.Copies rewritten' r') ∨
      (r' = own ∧ ∀ r ∈ records, r.edition = own.edition → ¬ own.version < HierarchyNode.maxVersion)) :
    Agreement records' rewritten' := by
  intro r₁ hr₁ r₂ hr₂ hedition hmax
  have hversion : r₁.version = r₂.version := congrArg Prod.snd hedition
  rcases hnew r₁ hr₁ with ⟨s₁, hs₁, hcopy₁⟩ | ⟨rfl, hfresh₁⟩
  · have hversion₁ : r₁.version = s₁.version := congrArg Prod.snd hcopy₁.edition_eq
    rcases hnew r₂ hr₂ with ⟨s₂, hs₂, hcopy₂⟩ | ⟨rfl, hfresh₂⟩
    · have hagree := h s₁ hs₁ s₂ hs₂ (hcopy₁.edition_eq.symm.trans (hedition.trans hcopy₂.edition_eq))
        (hversion₁ ▸ hmax)
      constructor
      · rw [hcopy₁.resources_eq, hcopy₂.resources_eq]
        exact hagree.resources_eq
      · intro hr
        have hr₁ : s₁.edition ∉ rewritten' := hcopy₁.edition_eq ▸ hr
        have hr₂ : s₂.edition ∉ rewritten' := hcopy₂.edition_eq ▸ hedition ▸ hr
        rw [hcopy₁.superior_eq hr₁, hcopy₂.superior_eq hr₂]
        exact hagree.superior_eq fun hmem => hr₁ (hsub hmem)
    · exact absurd (hversion ▸ hmax) (hfresh₂ s₁ hs₁ (hcopy₁.edition_eq.symm.trans hedition))
  · rcases hnew r₂ hr₂ with ⟨s₂, hs₂, hcopy₂⟩ | ⟨rfl, -⟩
    · exact absurd hmax (hfresh₁ s₂ hs₂ (hcopy₂.edition_eq.symm.trans hedition.symm))
    · exact ⟨rfl, fun _ => rfl⟩

/-! ### Calls -/

/-- The records that a call brings in. -/
def Mutator.nodes : Mutator → List HierarchyNode
  | .addNodes nodes => nodes
  | _ => []

/-- The first record becomes the second one, which is of the same edition but has another
superior. -/
def HierarchyNode.Rewritten (r r' : HierarchyNode) (x : Edition) : Prop :=
  r.edition = x ∧ r'.edition = x ∧ r'.superiorSocketAddress ≠ r.superiorSocketAddress

namespace Hierarchy

variable {h : Hierarchy} {now : TimePoint}

/-- The records of a hierarchy: the own one and those of the table. -/
def Has (h : Hierarchy) (r : HierarchyNode) : Prop := r = h.thisNode ∨ r ∈ h.records

/-- The editions that a call rewrites: those of the records which `add_subordinate` and
`remove_node` edit in place. -/
def rewrites (h : Hierarchy) (m : Mutator) (now : TimePoint) : Set Edition :=
  match m with
  | .addSubordinate _ | .removeNode _ =>
    {x | h.thisNode.Rewritten (h.apply m now).1.thisNode x ∨
      ∃ a r r', h.nodes.lookup a = some r ∧ (h.apply m now).1.nodes.lookup a = some r' ∧ r.Rewritten r' x}
  | _ => ∅

/-- What is rewritten is a record that there is. -/
theorem has_of_rewrites {m : Mutator} {x : Edition} (hx : x ∈ h.rewrites m now) : ∃ r, h.Has r ∧ r.edition = x := by
  cases m with
  | addSubordinate node =>
    obtain ⟨hown, -, -⟩ | ⟨a, r, r', hr, -, hedition, -, -⟩ := hx
    · exact ⟨_, Or.inl rfl, hown⟩
    · exact ⟨r, Or.inr (mem_records.2 ⟨a, hr⟩), hedition⟩
  | removeNode sa =>
    obtain ⟨hown, -, -⟩ | ⟨a, r, r', hr, -, hedition, -, -⟩ := hx
    · exact ⟨_, Or.inl rfl, hown⟩
    · exact ⟨r, Or.inr (mem_records.2 ⟨a, hr⟩), hedition⟩
  | _ => exact absurd hx (Set.notMem_empty x)

/-- The editions that calls rewrite. -/
def rewritesAll (h : Hierarchy) (now : TimePoint) : List Mutator → Set Edition
  | [] => ∅
  | m :: calls => h.rewrites m now ∪ (h.apply m now).1.rewritesAll now calls

/-- An answer rewrites nothing. -/
theorem rewritesAll_answerCalls (h : Hierarchy) (now : TimePoint) (p : Probe) :
    h.rewritesAll now (Discoverer.answerCalls p) = ∅ := by
  unfold Discoverer.answerCalls
  split
  · split
    · rfl
    · simp only [rewritesAll, rewrites, Set.union_empty]
  · rfl

/-- A call of `add_subordinate` finds the record that it changes. -/
def Finds (h : Hierarchy) (m : Mutator) : Prop :=
  ∀ node, m = .addSubordinate node → h.nodes.lookup node.socketAddress ≠ none

/-- Calls of `add_subordinate` find the records that they change. -/
def FindsAll (h : Hierarchy) (now : TimePoint) : List Mutator → Prop
  | [] => True
  | m :: calls => h.Finds m ∧ (h.apply m now).1.FindsAll now calls

/-- A new own record, of a version that is new or the largest one. -/
structure Renewed (h h' : Hierarchy) : Prop where
  /-- The node does not change. -/
  address_eq : h'.thisNode.socketAddress = h.thisNode.socketAddress
  /-- The version. -/
  version : h.thisNode.version < h'.thisNode.version ∨ ¬ h'.thisNode.version < HierarchyNode.maxVersion

/-- A record of the table that keeps its edition and its resources is copied or rewritten. -/
theorem copies_of_rewrites {m : Mutator} {a : SocketAddress} {r r' : HierarchyNode}
    (hm : (∃ node, m = .addSubordinate node) ∨ ∃ sa, m = .removeNode sa)
    (hr : h.nodes.lookup a = some r) (hr' : (h.apply m now).1.nodes.lookup a = some r')
    (hedition : r'.edition = r.edition) (hresources : r'.resources = r.resources) :
    r.Copies (h.rewrites m now) r' := by
  refine ⟨hedition, hresources, fun hnot => by_contra fun hne => hnot ?_⟩
  rcases hm with ⟨node, rfl⟩ | ⟨sa, rfl⟩
  · exact Or.inr ⟨a, r, r', hr, hr', rfl, hedition, hne⟩
  · exact Or.inr ⟨a, r, r', hr, hr', rfl, hedition, hne⟩

/-- A record of the table after one has been put there. -/
theorem lookup_put {a x : SocketAddress} {n r' : HierarchyNode} (hr' : (h.put a n).nodes.lookup x = some r') :
    (x = a ∧ r' = n) ∨ (x ≠ a ∧ h.nodes.lookup x = some r') := by
  by_cases hx : x = a
  · subst hx
    rw [put, AList.lookup_insert] at hr'
    exact Or.inl ⟨rfl, (Option.some.inj hr').symm⟩
  · rw [put, AList.lookup_insert_ne hx] at hr'
    exact Or.inr ⟨hx, hr'⟩

/-- What is in the table after a turn of `add_nodes` was there before or is the node. -/
theorem lookup_addNode {a : HierarchyNode} {x : SocketAddress} {r' : HierarchyNode}
    (hr' : (h.addNode a now).1.nodes.lookup x = some r') :
    (∃ r, h.nodes.lookup x = some r ∧ r'.content = r.content) ∨ r'.content = a.content := by
  obtain ⟨-, heq⟩ | ⟨-, -, heq⟩ | ⟨-, b, hb, -, heq | heq⟩ := h.addNode_cases a now
  · rw [heq] at hr'
    exact Or.inl ⟨r', hr', rfl⟩
  · rw [heq] at hr'
    rcases lookup_put hr' with ⟨-, rfl⟩ | ⟨-, hr'⟩
    · exact Or.inr rfl
    · exact Or.inl ⟨r', hr', rfl⟩
  · rw [heq] at hr'
    rcases lookup_put hr' with ⟨rfl, rfl⟩ | ⟨-, hr'⟩
    · exact Or.inl ⟨b, hb, rfl⟩
    · exact Or.inl ⟨r', hr', rfl⟩
  · rw [heq] at hr'
    exact Or.inl ⟨r', hr', rfl⟩

theorem lookup_addNodes_cases {nodes : List HierarchyNode} {x : SocketAddress} {r' : HierarchyNode}
    (hr' : (h.addNodes nodes now).1.nodes.lookup x = some r') :
    (∃ r, h.nodes.lookup x = some r ∧ r'.content = r.content) ∨ ∃ a ∈ nodes, r'.content = a.content := by
  induction nodes generalizing h with
  | nil => exact Or.inl ⟨r', hr', rfl⟩
  | cons a nodes ih =>
    rcases ih hr' with ⟨r, hr, heq⟩ | ⟨b, hb, heq⟩
    · rcases lookup_addNode hr with ⟨r₀, hr₀, heq₀⟩ | heq₀
      · exact Or.inl ⟨r₀, hr₀, heq.trans heq₀⟩
      · exact Or.inr ⟨a, List.mem_cons_self, heq.trans heq₀⟩
    · exact Or.inr ⟨b, List.mem_cons_of_mem a hb, heq⟩

/-- What `remove_node` leaves in the table has been there before, with the same edition and resources. -/
theorem lookup_removeNode {sa x : SocketAddress} {r' : HierarchyNode}
    (hr' : (h.removeNode sa now).1.nodes.lookup x = some r') :
    ∃ r, h.nodes.lookup x = some r ∧ r'.edition = r.edition ∧ r'.resources = r.resources := by
  have hcontents : (h.removeNode sa now).1.contents x = some r'.content := contents_of_lookup hr'
  have hkept (hx : h.contents x = some r'.content) :
      ∃ r, h.nodes.lookup x = some r ∧ r'.edition = r.edition ∧ r'.resources = r.resources := by
    obtain ⟨r, hr, heq⟩ := Option.map_eq_some_iff.1 hx
    exact ⟨r, hr, (congrArg HierarchyNode.edition heq.symm :), (congrArg HierarchyNode.resources heq.symm :)⟩
  obtain ⟨-, htable⟩ := h.removeNode_spec sa now
  cases hb : h.nodes.lookup sa with
  | none =>
    simp only [hb] at htable
    rw [htable.1] at hcontents
    exact hkept hcontents
  | some b =>
    simp only [hb] at htable
    split at htable
    · rw [htable.1] at hcontents
      by_cases hx : x = sa
      · rw [hx, Function.update_self] at hcontents
        have heq := Option.some.inj hcontents
        exact ⟨b, hx ▸ hb, (congrArg HierarchyNode.edition heq.symm :), (congrArg HierarchyNode.resources heq.symm :)⟩
      · rw [Function.update_of_ne hx] at hcontents
        exact hkept hcontents
    · rw [htable.1] at hcontents
      exact hkept hcontents

/-- A call other than `add_nodes` leaves the editions and the resources in the table as they
are. -/
theorem lookup_apply {m : Mutator} (hm : m.nodes = []) (hfinds : h.Finds m) {x : SocketAddress}
    {r' : HierarchyNode} (hr' : (h.apply m now).1.nodes.lookup x = some r') :
    ∃ r, h.nodes.lookup x = some r ∧ r'.edition = r.edition ∧ r'.resources = r.resources ∧
      (r'.superiorSocketAddress = r.superiorSocketAddress ∨ (∃ node, m = .addSubordinate node) ∨
        ∃ sa, m = .removeNode sa) := by
  cases m with
  | addNodes nodes =>
    rw [Mutator.nodes] at hm
    subst hm
    exact ⟨r', hr', rfl, rfl, Or.inl rfl⟩
  | addSuperior node =>
    rw [apply, addSuperior] at hr'
    split at hr'
    · exact ⟨r', hr', rfl, rfl, Or.inl rfl⟩
    · exact ⟨r', hr', rfl, rfl, Or.inl rfl⟩
  | addSubordinate node =>
    obtain ⟨b, hb⟩ := Option.ne_none_iff_exists'.1 (hfinds node rfl)
    rw [apply, addSubordinate, hb, Option.getD_some] at hr'
    split at hr'
    · rcases lookup_put hr' with ⟨rfl, rfl⟩ | ⟨-, hr'⟩
      · exact ⟨b, hb, rfl, rfl, Or.inr (Or.inl ⟨node, rfl⟩)⟩
      · exact ⟨r', hr', rfl, rfl, Or.inl rfl⟩
    · rcases lookup_put hr' with ⟨rfl, rfl⟩ | ⟨-, hr'⟩
      · exact ⟨r', hb, rfl, rfl, Or.inl rfl⟩
      · exact ⟨r', hr', rfl, rfl, Or.inl rfl⟩
  | removeNode sa =>
    obtain ⟨r, hr, hedition, hresources⟩ := lookup_removeNode hr'
    exact ⟨r, hr, hedition, hresources, Or.inr (Or.inr ⟨sa, rfl⟩)⟩
  | resources rhs =>
    rw [apply, setResources] at hr'
    split at hr'
    · exact ⟨r', hr', rfl, rfl, Or.inl rfl⟩
    · exact ⟨r', hr', rfl, rfl, Or.inl rfl⟩

/-- **The own record after a call** is a copy of the one before, or a new version of it. -/
theorem thisNode_apply (h : Hierarchy) (m : Mutator) (now : TimePoint) :
    h.thisNode.version ≤ (h.apply m now).1.thisNode.version ∧
      (h.thisNode.Copies (h.rewrites m now) (h.apply m now).1.thisNode ∨ h.Renewed (h.apply m now).1) := by
  cases m with
  | addNodes nodes =>
    rw [apply, thisNode_addNodes]
    exact ⟨UInt64.le_refl _, Or.inl (.refl _ _)⟩
  | addSuperior node =>
    rw [apply, addSuperior]
    split
    · exact ⟨HierarchyNode.version_le_incrementVersion { h.thisNode with superiorSocketAddress := node.socketAddress },
        Or.inr ⟨HierarchyNode.socketAddress_incrementVersion _,
          HierarchyNode.version_incrementVersion { h.thisNode with superiorSocketAddress := node.socketAddress }⟩⟩
    · exact ⟨UInt64.le_refl _, Or.inl (.refl _ _)⟩
  | addSubordinate node =>
    rw [apply, addSubordinate]
    split
    · exact ⟨UInt64.le_refl _, Or.inl (.refl _ _)⟩
    · exact ⟨UInt64.le_refl _, Or.inl (.refl _ _)⟩
  | removeNode sa =>
    obtain ⟨hthis, -⟩ := h.removeNode_spec sa now
    obtain ⟨-, haddress, hversion, hresources, -, -⟩ := h.unsetSuperior_spec sa now
    have hedition : (h.removeNode sa now).1.thisNode.edition = h.thisNode.edition := by
      rw [hthis]
      exact Prod.ext haddress hversion
    refine ⟨?_, Or.inl ⟨hedition, ?_, fun hnot => by_contra fun hne => hnot (Or.inl ⟨rfl, hedition, hne⟩)⟩⟩
    · rw [apply, hthis, hversion]
      exact UInt64.le_refl _
    · rw [apply, hthis, hresources]
  | resources rhs =>
    rw [apply, setResources]
    split
    · exact ⟨UInt64.le_refl _, Or.inl (.refl _ _)⟩
    · exact ⟨HierarchyNode.version_le_incrementVersion { h.thisNode with resources := rhs },
        Or.inr ⟨HierarchyNode.socketAddress_incrementVersion _,
          HierarchyNode.version_incrementVersion { h.thisNode with resources := rhs }⟩⟩

/-- **The records after a call** are copies of those before it and of those that it brings in,
and perhaps a new version of the own record. -/
theorem has_apply {m : Mutator} (hfinds : h.Finds m) {r' : HierarchyNode} (hr' : (h.apply m now).1.Has r') :
    (∃ r, (h.Has r ∨ r ∈ m.nodes) ∧ r.Copies (h.rewrites m now) r') ∨
      (r' = (h.apply m now).1.thisNode ∧ h.Renewed (h.apply m now).1) := by
  rcases hr' with rfl | hr'
  · rcases (h.thisNode_apply m now).2 with hcopy | hrenewed
    · exact Or.inl ⟨h.thisNode, Or.inl (Or.inl rfl), hcopy⟩
    · exact Or.inr ⟨rfl, hrenewed⟩
  · obtain ⟨x, hx⟩ := mem_records.1 hr'
    refine Or.inl ?_
    cases hm : m.nodes with
    | nil =>
      obtain ⟨r, hr, hedition, hresources, hsuperior | hinPlace⟩ := lookup_apply hm hfinds hx
      · exact ⟨r, Or.inl (Or.inr (mem_records.2 ⟨x, hr⟩)), hedition, hresources, fun _ => hsuperior⟩
      · exact ⟨r, Or.inl (Or.inr (mem_records.2 ⟨x, hr⟩)), copies_of_rewrites hinPlace hr hx hedition hresources⟩
    | cons a nodes =>
      cases m with
      | addNodes nodes' =>
        rcases lookup_addNodes_cases hx with ⟨r, hr, heq⟩ | ⟨b, hb, heq⟩
        · exact ⟨r, Or.inl (Or.inr (mem_records.2 ⟨x, hr⟩)), .of_content_eq heq _⟩
        · refine ⟨b, Or.inr ?_, .of_content_eq heq _⟩
          rw [← hm]
          exact hb
      | addSuperior node => cases hm
      | addSubordinate node => cases hm
      | removeNode sa => cases hm
      | resources rhs => cases hm

/-- A hierarchy among all records that there have ever been: they agree, those of the hierarchy
are among them, and none of them is a newer version of the own record. -/
structure Recorded (h : Hierarchy) (records : Set HierarchyNode) (rewritten : Set Edition) : Prop where
  /-- The records agree. -/
  agreement : Agreement records rewritten
  /-- Those of the hierarchy are among them. -/
  has : ∀ r, h.Has r → r ∈ records
  /-- The own record is the newest of its versions. -/
  newest : ∀ r ∈ records, r.socketAddress = h.socketAddress → r.version ≤ h.thisNode.version

/-- No record of another node is newer than those that there were before. -/
def Bounded (h : Hierarchy) (records records' : Set HierarchyNode) : Prop :=
  ∀ r' ∈ records', r'.socketAddress ≠ h.socketAddress → ∃ r ∈ records, r.edition = r'.edition

variable {records : Set HierarchyNode} {rewritten : Set Edition}

/-- **A call keeps the records in agreement.** -/
theorem Recorded.apply (hrecorded : h.Recorded records rewritten) {m : Mutator}
    (hnodes : ∀ r ∈ m.nodes, r ∈ records) (hfinds : h.Finds m) (now : TimePoint) :
    (h.apply m now).1.Recorded (records ∪ {r | (h.apply m now).1.Has r}) (rewritten ∪ h.rewrites m now) ∧
      h.Bounded records (records ∪ {r | (h.apply m now).1.Has r}) := by
  have haddress := h.socketAddress_apply m now
  have hversion := (h.thisNode_apply m now).1
  -- A record is an old one, a copy of an old one, or a new version of the own record.
  have hnew : ∀ r' ∈ records ∪ {r | (h.apply m now).1.Has r},
      (∃ r ∈ records, r.Copies (rewritten ∪ h.rewrites m now) r') ∨
        (r' = (h.apply m now).1.thisNode ∧ h.Renewed (h.apply m now).1) := by
    rintro r' (hr' | hr')
    · exact Or.inl ⟨r', hr', .refl _ _⟩
    · rcases has_apply hfinds hr' with ⟨r, hr, hcopy⟩ | hfresh
      · refine Or.inl ⟨r, ?_, hcopy.mono Set.subset_union_right⟩
        rcases hr with hr | hr
        · exact hrecorded.has r hr
        · exact hnodes r hr
      · exact Or.inr hfresh
  refine ⟨⟨?_, fun r hr => Or.inr hr, fun r' hr' haddress' => ?_⟩, fun r' hr' hother => ?_⟩
  · refine hrecorded.agreement.extend Set.subset_union_left (h.apply m now).1.thisNode fun r' hr' => ?_
    rcases hnew r' hr' with hcopy | ⟨heq, hrenewed⟩
    · exact Or.inl hcopy
    · refine Or.inr ⟨heq, fun r hr hedition hmax => ?_⟩
      have hle := hrecorded.newest r hr ((congrArg Prod.fst hedition).trans haddress)
      rw [show r.version = _ from congrArg Prod.snd hedition] at hle
      rcases hrenewed.version with hlt | hlast
      · exact absurd (UInt64.lt_of_lt_of_le hlt hle) (UInt64.lt_irrefl _)
      · exact hlast hmax
  · rcases hnew r' hr' with ⟨r, hr, hcopy⟩ | ⟨rfl, -⟩
    · have hle := hrecorded.newest r hr
        ((congrArg Prod.fst hcopy.edition_eq).symm.trans (haddress'.trans haddress))
      rw [← show r'.version = r.version from congrArg Prod.snd hcopy.edition_eq] at hle
      exact UInt64.le_trans hle hversion
    · exact UInt64.le_refl _
  · rcases hnew r' hr' with ⟨r, hr, hcopy⟩ | ⟨rfl, -⟩
    · exact ⟨r, hr, hcopy.edition_eq.symm⟩
    · exact absurd haddress hother

/-- **Calls keep the records in agreement.** -/
theorem Recorded.applyAll (hrecorded : h.Recorded records rewritten) {calls : List Mutator}
    (hnodes : ∀ m ∈ calls, ∀ r ∈ m.nodes, r ∈ records) (hfinds : h.FindsAll now calls) :
    ∃ records', records ⊆ records' ∧
      (h.applyAll calls now).Recorded records' (rewritten ∪ h.rewritesAll now calls) ∧
      h.Bounded records records' := by
  induction calls generalizing h records rewritten with
  | nil =>
    refine ⟨records, Set.Subset.rfl, ?_, fun r hr _ => ⟨r, hr, rfl⟩⟩
    rw [rewritesAll, Set.union_empty]
    exact hrecorded
  | cons m calls ih =>
    obtain ⟨hfirst, hbounded⟩ := hrecorded.apply (hnodes m List.mem_cons_self) hfinds.1 now
    obtain ⟨records', hsub, hrest, hbounded'⟩ := ih hfirst
      (fun m' hm' r hr => Or.inl (hnodes m' (List.mem_cons_of_mem m hm') r hr)) hfinds.2
    refine ⟨records', Set.subset_union_left.trans hsub, ?_, fun r' hr' hother => ?_⟩
    · rw [rewritesAll, ← Set.union_assoc]
      exact hrest
    · obtain ⟨r₁, hr₁, hedition₁⟩ := hbounded' r' hr' (by rwa [socketAddress_apply])
      have hother₁ : r₁.socketAddress ≠ h.socketAddress := by
        rwa [show r₁.socketAddress = r'.socketAddress from congrArg Prod.fst hedition₁]
      obtain ⟨r, hr, hedition⟩ := hbounded r₁ hr₁ hother₁
      exact ⟨r, hr, hedition.trans hedition₁⟩

end Hierarchy

/-! ### The ledger -/

/-- The network, and the editions that some daemon has rewritten. -/
structure Ledger (ι : Type) where
  /-- The network. -/
  network : Network ι
  /-- The editions. -/
  rewritten : Set Edition

/-- The records that daemons hold and that kernels carry. -/
inductive Network.Holds {ι : Type} (net : Network ι) (r : HierarchyNode) : Prop
  /-- A record of a daemon. -/
  | daemon {i : ι} {d : Discoverer} : net.discoverer i = some d → d.hierarchy.Has r → Holds net r
  /-- A record in a kernel. -/
  | kernel {m : Message} : m ∈ net.sent → r ∈ m.nodes → Holds net r

namespace Ledger

variable {s : Subnet} {ι : Type} {daemons : ι → Member s}

section

variable [DecidableEq ι]

/-- A daemon handles an event, and the ledger notes what it rewrites. -/
inductive Step (daemons : ι → Member s) : Ledger ι → Ledger ι → Prop
  | handle {l : Ledger ι} {i : ι} {d d' : Discoverer} {e : Discoverer.Event} {now : TimePoint}
      {actions : List Action} : l.network.discoverer i = some d → l.network.MayHappen daemons i e →
      d.handle e now = some (d', actions) →
      Step daemons l ⟨⟨Function.update l.network.discoverer i (some d'), l.network.sent ++ sends actions⟩,
        l.rewritten ∪ d.hierarchy.rewritesAll now (d.calls e)⟩

/-- The daemons start with empty tables, nothing has been sent and nothing rewritten. -/
def system (daemons : ι → Member s) : System (Ledger ι) where
  Initial l := (Network.system daemons).Initial l.network ∧ l.rewritten = ∅
  Step := Step daemons

end

/-- All records that there have ever been agree. -/
structure Sound (daemons : ι → Member s) (l : Ledger ι) (records : Set HierarchyNode) : Prop where
  /-- The network is good. -/
  good : l.network.Good daemons
  /-- The hierarchies are recorded. -/
  recorded : ∀ i d, l.network.discoverer i = some d → d.hierarchy.Recorded records l.rewritten
  /-- The records in kernels are recorded. -/
  sent : ∀ m ∈ l.network.sent, ∀ r ∈ m.nodes, r ∈ records
  /-- The records agree. -/
  agreement : Agreement records l.rewritten

/-- The records that a probe brings in are those that it carries. -/
theorem nodes_probeCalls {d : Discoverer} {p : Probe} {m : Mutator} (hm : m ∈ d.probeCalls p) {r : HierarchyNode}
    (hr : r ∈ m.nodes) : r ∈ p.nodes := by
  unfold Discoverer.probeCalls at hm
  split at hm
  · exact absurd hm List.not_mem_nil
  · rcases List.mem_cons.1 hm with rfl | hm
    · exact hr
    · split at hm
      · rw [List.mem_singleton.1 hm] at hr
        exact absurd hr List.not_mem_nil
      · rw [List.mem_singleton.1 hm] at hr
        exact absurd hr List.not_mem_nil
      · exact absurd hm List.not_mem_nil
      · exact absurd hm List.not_mem_nil

/-- So are those of its answer. -/
theorem nodes_answerCalls {p : Probe} {m : Mutator} (hm : m ∈ Discoverer.answerCalls p) {r : HierarchyNode}
    (hr : r ∈ m.nodes) : r ∈ p.nodes := by
  unfold Discoverer.answerCalls at hm
  split at hm
  · split at hm
    · exact absurd hm List.not_mem_nil
    · rcases List.mem_cons.1 hm with rfl | hm
      · exact hr
      · rw [List.mem_singleton.1 hm] at hr
        exact absurd hr List.not_mem_nil
  · exact absurd hm List.not_mem_nil

/-- The records that an event brings in are in a kernel that has been sent. -/
theorem nodes_calls {net : Network ι} {i : ι} {d : Discoverer} {e : Discoverer.Event}
    (he : Network.MayHappen daemons net i e) {m : Mutator} (hm : m ∈ d.calls e) {r : HierarchyNode}
    (hr : r ∈ m.nodes) : ∃ k ∈ net.sent, r ∈ k.nodes := by
  cases he with
  | start => exact absurd hm List.not_mem_nil
  | timer => exact absurd hm List.not_mem_nil
  | removeClient a =>
    rw [List.mem_singleton.1 hm] at hr
    exact absurd hr List.not_mem_nil
  | otherPipelineEvent => exact absurd hm List.not_mem_nil
  | resources rhs =>
    rw [List.mem_singleton.1 hm] at hr
    exact absurd hr List.not_mem_nil
  | @probe p hsent _ => exact ⟨.probe p, hsent, nodes_probeCalls hm hr⟩
  | @answer p hsent _ => exact ⟨.returned p, hsent, nodes_answerCalls hm hr⟩
  | @undelivered p code _ _ hcode =>
    change m ∈ Discoverer.answerCalls (p.returnToParent code) at hm
    rw [Discoverer.answerCalls, if_neg fun hboth => hcode hboth.1] at hm
    exact absurd hm List.not_mem_nil
  | @hierarchy k hsent _ =>
    refine ⟨.hierarchy k, hsent, ?_⟩
    rw [Discoverer.calls] at hm
    split at hm
    · exact absurd hm List.not_mem_nil
    · rw [List.mem_singleton.1 hm] at hr
      exact hr
  | undeliveredHierarchy _ _ hcode =>
    rw [Discoverer.calls, if_pos ⟨rfl, hcode⟩] at hm
    exact absurd hm List.not_mem_nil

/-- The record of a node that becomes a subordinate is in the table by then. -/
theorem findsAll_calls {net : Network ι} (hnet : net.Good daemons) {i : ι} {d : Discoverer}
    (hd : net.discoverer i = some d) {e : Discoverer.Event} (he : Network.MayHappen daemons net i e)
    (now : TimePoint) : d.hierarchy.FindsAll now (d.calls e) := by
  cases he with
  | start => exact trivial
  | timer => exact trivial
  | removeClient a => exact ⟨fun _ h => Mutator.noConfusion h, trivial⟩
  | otherPipelineEvent => exact trivial
  | resources rhs => exact ⟨fun _ h => Mutator.noConfusion h, trivial⟩
  | @probe p hsent hdestination =>
    change d.hierarchy.FindsAll now (d.probeCalls p)
    rw [Discoverer.probeCalls]
    split
    · exact trivial
    · next front rest hnodes =>
      refine ⟨fun _ h => Mutator.noConfusion h, ?_⟩
      split
      · refine ⟨fun node hnode => ?_, trivial⟩
        obtain rfl := Mutator.addSubordinate.inj hnode
        have hasks := (hnet.kernels _ hsent).2
        have hfront : front.socketAddress = p.source := hasks.front front (by rw [hnodes]; rfl)
        refine Hierarchy.lookup_addNodes p.nodes now (by rw [hnodes]; exact List.mem_cons_self) ?_
        rw [(hnet.discoverers i d hd).links.address_eq, ← hdestination, hfront]
        exact hasks.destination.ne.symm
      · exact ⟨fun _ h => Mutator.noConfusion h, trivial⟩
      · exact trivial
      · exact trivial
  | @answer p _ _ =>
    change d.hierarchy.FindsAll now (Discoverer.answerCalls p)
    rw [Discoverer.answerCalls]
    split
    · split
      · exact trivial
      · exact ⟨fun _ h => Mutator.noConfusion h, fun _ h => Mutator.noConfusion h, trivial⟩
    · exact trivial
  | @undelivered p code _ _ hcode =>
    change d.hierarchy.FindsAll now (Discoverer.answerCalls (p.returnToParent code))
    rw [Discoverer.answerCalls, if_neg fun hboth => hcode hboth.1]
    exact trivial
  | hierarchy _ _ =>
    rw [Discoverer.calls]
    split
    · exact trivial
    · exact ⟨fun _ h => Mutator.noConfusion h, trivial⟩
  | undeliveredHierarchy _ _ hcode =>
    rw [Discoverer.calls, if_pos ⟨rfl, hcode⟩]
    exact trivial

variable [DecidableEq ι]

/-- **A step keeps all records in agreement**, if no two daemons share an address. -/
theorem Sound.step (hdistinct : ∀ i j, (daemons i).socketAddress = (daemons j).socketAddress → i = j)
    {l l' : Ledger ι} {records : Set HierarchyNode} (hl : l.Sound daemons records) (h : Step daemons l l') :
    ∃ records', l'.Sound daemons records' := by
  cases h with
  | @handle i d d' e now actions hd he hhandle =>
    have hhierarchy := Discoverer.hierarchy_handle hhandle
    have hown : d.hierarchy.socketAddress = (daemons i).socketAddress :=
      (hl.good.discoverers i d hd).links.address_eq
    have hnodes : ∀ m ∈ d.calls e, ∀ r ∈ m.nodes, r ∈ records := by
      intro m hm r hr
      obtain ⟨k, hk, hrk⟩ := nodes_calls he hm hr
      exact hl.sent k hk r hrk
    obtain ⟨records', hsub, hrecorded, hbounded⟩ :=
      (hl.recorded i d hd).applyAll hnodes (findsAll_calls hl.good hd he now)
    rw [← hhierarchy] at hrecorded
    refine ⟨records', hl.good.step (.handle hd he hhandle), fun j d₁ hj => ?_, fun m hm r hr => ?_,
      hrecorded.agreement⟩
    · obtain ⟨rfl, rfl⟩ | ⟨hji, hj⟩ := Network.update_eq_some hj
      · exact hrecorded
      · -- The other daemons only see copies of what there was before.
        have hother := hl.recorded j d₁ hj
        refine ⟨hrecorded.agreement, fun r hr => hsub (hother.has r hr), fun r' hr' haddress => ?_⟩
        have hne : r'.socketAddress ≠ d.hierarchy.socketAddress := by
          rw [haddress, hown, (hl.good.discoverers j d₁ hj).links.address_eq]
          exact fun hsame => hji (hdistinct j i hsame)
        obtain ⟨r, hr, hedition⟩ := hbounded r' hr' hne
        have hle := hother.newest r hr ((congrArg Prod.fst hedition).trans haddress)
        rwa [show r.version = r'.version from congrArg Prod.snd hedition] at hle
    · rcases List.mem_append.1 hm with hm | hm
      · exact hsub (hl.sent m hm r hr)
      · exact hrecorded.has r (Discoverer.nodes_handle hhandle m hm r hr)

/-- The table of a discoverer that has just been constructed is empty. -/
theorem has_discoverer {c : Member s} {d : Discoverer} (hd : c.discoverer = some d) {r : HierarchyNode}
    (hr : d.hierarchy.Has r) : r = d.hierarchy.thisNode := by
  obtain ⟨iterator, -, heq⟩ := Option.bind_eq_some_iff.1 hd
  obtain rfl := Option.some.inj heq
  rcases hr with rfl | hr
  · rfl
  · exact absurd hr List.not_mem_nil

theorem sound_initial (hdistinct : ∀ i j, (daemons i).socketAddress = (daemons j).socketAddress → i = j)
    {l : Ledger ι} (h : (system daemons).Initial l) : ∃ records, l.Sound daemons records := by
  obtain ⟨hnetwork, hrewritten⟩ := h
  have hgood := Network.good_initial hnetwork
  have hsame {r r' : HierarchyNode} {i j : ι} {d d' : Discoverer} (hi : l.network.discoverer i = some d)
      (hj : l.network.discoverer j = some d') (hr : r = d.hierarchy.thisNode) (hr' : r' = d'.hierarchy.thisNode)
      (haddress : r.socketAddress = r'.socketAddress) : r = r' := by
    have haddress : d.hierarchy.socketAddress = d'.hierarchy.socketAddress := by
      rw [hr, hr'] at haddress
      exact haddress
    rw [(hgood.discoverers i d hi).links.address_eq, (hgood.discoverers j d' hj).links.address_eq] at haddress
    obtain rfl := hdistinct i j haddress
    rw [hr, hr', Option.some.inj (hi.symm.trans hj)]
  obtain ⟨net, rewritten⟩ := l
  obtain rfl : net = _ := hnetwork
  have hagreement : Agreement {r | ∃ i d, (daemons i).discoverer = some d ∧ r = d.hierarchy.thisNode} rewritten := by
    rintro r ⟨i, d, hi, hr⟩ r' ⟨j, d', hj, hr'⟩ hedition -
    rw [hsame hi hj hr hr' (congrArg Prod.fst hedition)]
    exact ⟨rfl, fun _ => rfl⟩
  refine ⟨{r | ∃ i d, (daemons i).discoverer = some d ∧ r = d.hierarchy.thisNode}, hgood, fun i d hi => ?_,
    fun m hm => absurd hm List.not_mem_nil, hagreement⟩
  refine ⟨hagreement, fun r hr => ⟨i, d, hi, has_discoverer hi hr⟩, ?_⟩
  rintro r ⟨j, d', hj, hr⟩ haddress
  rw [hsame hj hi hr rfl haddress]
  exact UInt64.le_refl _

/-- Every network that is reached has a ledger. -/
theorem exists_reachable {net : Network ι} (h : (Network.system daemons).Reachable net) :
    ∃ rewritten, (system daemons).Reachable ⟨net, rewritten⟩ := by
  induction h with
  | initial hinitial => exact ⟨∅, .initial ⟨hinitial, rfl⟩⟩
  | step _ hstep ih =>
    obtain ⟨rewritten, hreachable⟩ := ih
    cases hstep with
    | handle hd he hhandle => exact ⟨_, hreachable.step (.handle hd he hhandle)⟩

/-- **Two records of the same node and version agree**, wherever they are, whatever has happened
and in whatever order kernels have arrived: below the largest version they have the same
resources, and the same superior unless some daemon has rewritten a record of that node and
version. -/
theorem records_agree (hdistinct : ∀ i j, (daemons i).socketAddress = (daemons j).socketAddress → i = j)
    {l : Ledger ι} (h : (system daemons).Reachable l) {r r' : HierarchyNode} (hr : l.network.Holds r)
    (hr' : l.network.Holds r') (haddress : r.socketAddress = r'.socketAddress)
    (hversion : r.version = r'.version) (hmax : r.version < HierarchyNode.maxVersion) :
    r.resources = r'.resources ∧
      (r.edition ∉ l.rewritten → r.superiorSocketAddress = r'.superiorSocketAddress) := by
  obtain ⟨records, hsound⟩ : ∃ records, l.Sound daemons records :=
    h.invariant (fun _ => sound_initial hdistinct) fun _ _ ⟨_, hl⟩ hstep => hl.step hdistinct hstep
  have hmem {r : HierarchyNode} (hr : l.network.Holds r) : r ∈ records := by
    cases hr with
    | daemon hd hhas => exact (hsound.recorded _ _ hd).has r hhas
    | kernel hm hnodes => exact hsound.sent _ hm r hnodes
  have hagree := hsound.agreement r (hmem hr) r' (hmem hr') (Prod.ext haddress hversion) hmax
  exact ⟨hagree.resources_eq, hagree.superior_eq⟩

/-! ### Two daemons -/

theorem twoDaemons_distinct (i j : Fin 2) (h : (twoDaemons i).socketAddress = (twoDaemons j).socketAddress) :
    i = j := by
  revert i j
  decide

/-- The network after the second daemon has started. -/
theorem reachable_two : ∃ (d : Discoverer) (o : Discoverer.Outcome), (twoDaemons 1).discoverer = some d ∧
    o.1.hierarchy = d.hierarchy ∧
    (Network.system twoDaemons).Reachable
      ⟨Function.update (fun i => (twoDaemons i).discoverer) 1 (some o.1), [.probe d.newProbe]⟩ := by
  obtain ⟨d, o, hd, hstart, hhierarchy, hactions⟩ := starts_two
  have hinitial : (Network.system twoDaemons).Reachable ⟨fun i => (twoDaemons i).discoverer, []⟩ := .initial rfl
  have hsteps := hinitial.step (Network.Step.handle hd .start hstart)
  rw [hactions] at hsteps
  exact ⟨d, o, hd, hhierarchy, hsteps⟩

/-- The second daemon has joined the first one, and the first one has heard of its resources. -/
def updatedLedger : Ledger (Fin 2) where
  network := updatedNetwork
  rewritten := ∅ ∪ firstDaemon.hierarchy.rewritesAll 2 (firstDaemon.probeCalls secondDaemon.newProbe)

/-- An event that rewrites nothing. -/
theorem handle_reachable {l : Ledger (Fin 2)} {i : Fin 2} {d d' : Discoverer} {e : Discoverer.Event} {now : TimePoint}
    {actions : List Action} (h : (system twoDaemons).Reachable l) (hd : l.network.discoverer i = some d)
    (he : l.network.MayHappen twoDaemons i e) (hhandle : d.handle e now = some (d', actions))
    (hnothing : d.hierarchy.rewritesAll now (d.calls e) = ∅) :
    (system twoDaemons).Reachable
      ⟨⟨Function.update l.network.discoverer i (some d'), l.network.sent ++ sends actions⟩, l.rewritten⟩ := by
  have hstep := h.step (Step.handle hd he hhandle)
  rwa [hnothing, Set.union_empty] at hstep

theorem updatedLedger_reachable : (system twoDaemons).Reachable updatedLedger := by
  have hinitial : (system twoDaemons).Reachable ⟨⟨fun i => (twoDaemons i).discoverer, []⟩, ∅⟩ := .initial ⟨rfl, rfl⟩
  have hstart := handle_reachable hinitial secondDaemon_eq .start secondStarts_eq rfl
  have hasked := hstart.step (Step.handle (i := 0) (d := firstDaemon) firstDaemon_eq
    (.probe (List.mem_append_right _ probe_mem) (by decide)) firstAsked_eq)
  have hjoins := handle_reachable (i := 1) (d := secondStarts.1) hasked rfl
    (.answer (List.mem_append_right _ answer_mem) (by decide)) secondJoins_eq
    (Hierarchy.rewritesAll_answerCalls _ 3 firstAnswer)
  have hsecond : secondJoins.1.handle (.resources twoOfEach) 4 = some (secondUpdates.1, secondUpdates.2) := rfl
  have hupdates := handle_reachable (i := 1) hjoins rfl (.resources twoOfEach) hsecond (Set.union_empty _)
  have hfirst : firstAsked.1.handle (.hierarchy updateKernel) 5 = some (firstUpdates.1, firstUpdates.2) := rfl
  exact handle_reachable (i := 0) hupdates rfl
    (.hierarchy (List.mem_append_right _ updateKernel_mem) rfl) hfirst (Set.union_empty _)

/-- It has not rewritten the second daemon's new record. -/
theorem updatedLedger_rewritten {r : HierarchyNode} (hr : r.version = 2) : r.edition ∉ updatedLedger.rewritten := by
  intro hmem
  have hcalls : firstDaemon.probeCalls secondDaemon.newProbe =
      [.addNodes [secondDaemon.hierarchy.thisNode], .addSubordinate secondDaemon.hierarchy.thisNode] := rfl
  have hversions : ∀ r ∈ (firstDaemon.hierarchy.addNodes [secondDaemon.hierarchy.thisNode] 2).1.thisNode ::
      (firstDaemon.hierarchy.addNodes [secondDaemon.hierarchy.thisNode] 2).1.records, r.version ≠ 2 := by
    decide +kernel
  rw [updatedLedger, hcalls] at hmem
  obtain hnone | hnone | hrewrites | hnone := hmem
  · exact hnone
  · exact hnone
  · obtain ⟨r₀, hhas, hedition⟩ := Hierarchy.has_of_rewrites hrewrites
    refine hversions r₀ ?_ ((congrArg Prod.snd hedition).trans hr)
    rcases hhas with rfl | hhas
    · exact List.mem_cons_self
    · exact List.mem_cons_of_mem _ hhas
  · exact hnone

/-- The first daemon has the new record of the second one, with the same superior and resources. -/
theorem records_agree_two : ∃ r, firstUpdates.1.hierarchy.nodes.lookup (twoDaemons 1).socketAddress = some r ∧
    r.superiorSocketAddress = (twoDaemons 0).socketAddress ∧
    r.resources = secondUpdates.1.hierarchy.thisNode.resources ∧
    r.superiorSocketAddress = secondUpdates.1.hierarchy.thisNode.superiorSocketAddress := by
  have htable : (firstUpdates.1.hierarchy.nodes.lookup (twoDaemons 1).socketAddress).map (fun r =>
      (r.socketAddress, r.version, r.superiorSocketAddress)) =
      some ((twoDaemons 1).socketAddress, 2, (twoDaemons 0).socketAddress) := by decide +kernel
  obtain ⟨r, hr, hfields⟩ := Option.map_eq_some_iff.1 htable
  obtain ⟨haddress, hfields⟩ := Prod.mk.inj hfields
  obtain ⟨hversion, hsuperior⟩ := Prod.mk.inj hfields
  have hown : secondUpdates.1.hierarchy.thisNode.socketAddress = (twoDaemons 1).socketAddress ∧
      secondUpdates.1.hierarchy.thisNode.version = 2 := by decide +kernel
  have hagree := records_agree twoDaemons_distinct updatedLedger_reachable
    (.daemon (i := 0) (d := firstUpdates.1) rfl (Or.inr (Hierarchy.mem_records.2 ⟨_, hr⟩)))
    (.daemon (i := 1) (d := secondUpdates.1) rfl (Or.inl rfl)) (haddress.trans hown.1.symm)
    (hversion.trans hown.2.symm) (by rw [hversion]; decide)
  exact ⟨r, hr, hsuperior, hagree.1, hagree.2 (updatedLedger_rewritten hversion)⟩

/-- When the first daemon has made the second one its subordinate, its record of it says so. The
second one has no superior in the same version of its own record. -/
theorem superior_disagrees :
    ¬ ∀ net : Network (Fin 2), (Network.system twoDaemons).Reachable net →
      ∀ r r', net.Holds r → net.Holds r' → r.socketAddress = r'.socketAddress → r.version = r'.version →
        r.superiorSocketAddress = r'.superiorSocketAddress ∧ r.resources = r'.resources := by
  intro hall
  obtain ⟨d, o, hd, hhierarchy, hreachable⟩ := reachable_two
  obtain ⟨d₀, hd₀⟩ : ∃ d₀, (twoDaemons 0).discoverer = some d₀ :=
    Option.isSome_iff_exists.1 (by decide)
  have hdestination : d.newProbe.destination = (twoDaemons 0).socketAddress := by
    have hcandidate : (twoDaemons 1).discoverer.map (·.newProbe.destination) =
        some (twoDaemons 0).socketAddress := by decide
    rw [hd] at hcandidate
    exact Option.some.inj hcandidate
  have hfirst : Function.update (fun i => (twoDaemons i).discoverer) 1 (some o.1) 0 = some d₀ := hd₀
  obtain ⟨⟨d', actions⟩, hhandle⟩ : ∃ o', d₀.handle (.probeReceived d.newProbe) 1 = some o' := ⟨_, rfl⟩
  have hsteps := hreachable.step (Network.Step.handle hfirst (.probe (List.mem_singleton_self _) hdestination) hhandle)
  have hd' : (d₀.probeReceived d.newProbe 1).1 = d' := congrArg Prod.fst (Option.some.inj hhandle)
  have htable : ((twoDaemons 0).discoverer.bind fun d₀ => (twoDaemons 1).discoverer.bind fun d =>
      ((d₀.probeReceived d.newProbe 1).1.hierarchy.nodes.lookup d.hierarchy.socketAddress).map fun r =>
        (r.superiorSocketAddress.isSet, r.version, r.socketAddress)) =
      some (true, 0, (twoDaemons 1).socketAddress) := by decide +kernel
  have hown : (twoDaemons 1).discoverer.map (fun d => (d.hierarchy.superiorSocketAddress.isSet,
      d.hierarchy.thisNode.version, d.hierarchy.socketAddress)) = some (false, 0, (twoDaemons 1).socketAddress) := by
    decide
  rw [hd₀, hd, Option.bind_some, Option.bind_some, hd'] at htable
  rw [hd] at hown
  obtain ⟨r, hr, hfields⟩ := Option.map_eq_some_iff.1 htable
  obtain ⟨hset, hfields⟩ := Prod.mk.inj hfields
  obtain ⟨hversion, haddress⟩ := Prod.mk.inj hfields
  obtain ⟨hunset, hfields⟩ := Prod.mk.inj (Option.some.inj hown)
  obtain ⟨hversion', haddress'⟩ := Prod.mk.inj hfields
  have hzero : Function.update (Function.update (fun i => (twoDaemons i).discoverer) 1 (some o.1)) 0 (some d') 0 =
      some d' := rfl
  have hone : Function.update (Function.update (fun i => (twoDaemons i).discoverer) 1 (some o.1)) 0 (some d') 1 =
      some o.1 := rfl
  have hsame := (hall _ hsteps r o.1.hierarchy.thisNode
    (.daemon (i := 0) hzero (Or.inr (Hierarchy.mem_records.2 ⟨_, hr⟩)))
    (.daemon (i := 1) hone (Or.inl rfl)) (by rw [haddress, hhierarchy]; exact haddress'.symm)
    (by rw [hversion, hhierarchy]; exact hversion'.symm)).1
  have hsuperior : o.1.hierarchy.thisNode.superiorSocketAddress = d.hierarchy.superiorSocketAddress := by
    rw [hhierarchy]
    rfl
  rw [hsame, hsuperior, hunset] at hset
  exact Bool.false_ne_true hset

end Ledger

end Subordination.Daemon
