import Subordination.Daemon.Agreement
import Subordination.Daemon.ReceivedHierarchies

/-!
# The cache of the hierarchy

A daemon writes its hierarchy to a file whenever it broadcasts it, and a daemon that starts reads
its hierarchy from the file, if there is one.

## The model

`CachedNetwork` is the network together with the hierarchy that is in the file of each daemon. A
daemon may crash between any two events and start again: without a file it starts with an empty
table, with a file it reads the hierarchy over the one that was constructed. Kernels that were sent
before the crash are still there. Files are written as a whole. What comes of a file is what
`Hierarchy::read` makes of it; what a daemon does whose file makes it throw is left out.

Reading need not give back what was written: a record without a superior gets that of the record before
it (`Hierarchy.readBack_fails`). The results are about the runs in which every file that is read is read
back; `HierarchyCells.Suits` says which files are.

## What is proved

* **`knowledge_handle`**: a handler that does not write the file has changed nothing but times.
* **`cache_current`**: a file says what its daemon knows, at any time; a daemon without a file knows
  nothing.
* **`restarts_precede`**: superiors precede their subordinates whatever daemons crash and start again
  from files that are read back.
* **`versions_newest`**: no record anywhere is newer than that of the node itself, and the version
  of the own record never goes down, in spite of such crashes.
-/

namespace Subordination.Core.Resources

/-- The values of the resources and of the names, whatever the order of the names. -/
def Bindings.values (b : Bindings) : (Fin numResources → Any) × (List UInt8 → Option Any) :=
  (b.data, fun s => b.symbols.lookup s)

theorem Bindings.values_eq {a b : Bindings} (h : a.eq b = true) : a.values = b.values := by
  obtain ⟨hdata, hlookup, -⟩ := eq_iff.1 h
  exact Prod.ext (funext fun r => (Any.eq_iff.1 (hdata r)).1) (funext hlookup)

end Subordination.Core.Resources

namespace Subordination.Daemon

open Subordination.Core Subordination.Library
open Subordination.Core.Resources (Any Bindings BindingCells numResources)

/-! ### What a hierarchy says -/

/-- What a record says. -/
structure Facts where
  /-- The node. -/
  socketAddress : SocketAddress
  /-- Its superior. -/
  superiorSocketAddress : SocketAddress
  /-- Its resources. -/
  resources : (Fin numResources → Any) × (List UInt8 → Option Any)
  /-- The version. -/
  version : UInt64

/-- What a record says, the time of its last change aside. -/
def HierarchyNode.facts (n : HierarchyNode) : Facts :=
  ⟨n.socketAddress, n.superiorSocketAddress, n.resources.values, n.version⟩

theorem HierarchyNode.Same.facts_eq {a b : HierarchyNode} (h : a.Same b) : a.facts = b.facts := by
  rw [facts, facts, h.socketAddress, h.superiorSocketAddress, Bindings.values_eq h.resources, h.version]

/-- What a hierarchy says. -/
@[ext] structure Knowledge where
  /-- The mask. -/
  netmask : ℕ
  /-- The own record. -/
  own : Facts
  /-- The records of the table. -/
  others : SocketAddress → Option Facts

namespace Hierarchy

variable {h h' : Hierarchy} {now : TimePoint}

/-- What the hierarchy says. -/
def knowledge (h : Hierarchy) : Knowledge :=
  ⟨h.netmask, h.thisNode.facts, fun a => (h.nodes.lookup a).map HierarchyNode.facts⟩

/-- Records that are equal but for the times say the same. -/
theorem knowledge_of_contents (hnetmask : h'.netmask = h.netmask) (hsame : ¬ h.Changed h') :
    h'.knowledge = h.knowledge := by
  obtain ⟨hcontents, hthis⟩ := not_or.1 hsame
  ext1
  · exact hnetmask
  · have hfacts : h'.thisNode.content.facts = h.thisNode.content.facts :=
      congrArg HierarchyNode.facts (by_contra hthis)
    exact hfacts
  · funext a
    have hfacts (h : Hierarchy) :
        (h.nodes.lookup a).map HierarchyNode.facts = (h.contents a).map HierarchyNode.facts := by
      rw [contents, Option.map_map]
      rfl
    show (h'.nodes.lookup a).map HierarchyNode.facts = (h.nodes.lookup a).map HierarchyNode.facts
    rw [hfacts, hfacts, not_not.1 hcontents]

section Alike

variable (heq : h'.knowledge = h.knowledge)

include heq

theorem facts_eq : h'.thisNode.facts = h.thisNode.facts := congrArg Knowledge.own heq

theorem superior_eq : h'.superiorSocketAddress = h.superiorSocketAddress :=
  congrArg Facts.superiorSocketAddress (facts_eq heq)

/-- The records of the tables say the same. -/
theorem lookup_facts {a : SocketAddress} {r' : HierarchyNode} (hr' : h'.nodes.lookup a = some r') :
    ∃ r, h.nodes.lookup a = some r ∧ r.facts = r'.facts := by
  have hothers : (h.nodes.lookup a).map HierarchyNode.facts = some r'.facts := by
    rw [show (h.nodes.lookup a).map HierarchyNode.facts = (h'.nodes.lookup a).map HierarchyNode.facts from
      (congrFun (congrArg Knowledge.others heq) a).symm, hr']
    rfl
  exact Option.map_eq_some_iff.1 hothers

/-- A hierarchy that says the same has the same records but for the times and the order of names. -/
theorem has_facts {r' : HierarchyNode} (hr' : h'.Has r') : ∃ r, h.Has r ∧ r.facts = r'.facts := by
  rcases hr' with rfl | hr'
  · exact ⟨h.thisNode, Or.inl rfl, (facts_eq heq).symm⟩
  · obtain ⟨a, ha⟩ := mem_records.1 hr'
    obtain ⟨r, hr, hfacts⟩ := lookup_facts heq ha
    exact ⟨r, Or.inr (mem_records.2 ⟨a, hr⟩), hfacts⟩

/-- Links are part of what a hierarchy says. -/
theorem All.of_knowledge {P : SocketAddress → SocketAddress → Prop} {address : SocketAddress} {netmask : ℕ}
    (hall : h.All P address netmask) : h'.All P address netmask where
  address_eq := (congrArg Facts.socketAddress (facts_eq heq)).trans hall.address_eq
  netmask_eq := (congrArg Knowledge.netmask heq).trans hall.netmask_eq
  own := (superior_eq heq).symm ▸ hall.own
  table a r' hr' := by
    obtain ⟨r, hr, hfacts⟩ := lookup_facts heq hr'
    obtain ⟨haddress, hlink⟩ := hall.table a r hr
    have hsuperior : r.superiorSocketAddress = r'.superiorSocketAddress :=
      congrArg Facts.superiorSocketAddress hfacts
    exact ⟨(congrArg Facts.socketAddress hfacts).symm.trans haddress, hsuperior ▸ hlink⟩

end Alike

/-! ### Known superiors -/

/-- The superior, if there is one, is in the table. -/
def SuperiorKnown (h : Hierarchy) : Prop :=
  h.hasSuperior = true → h.nodes.lookup h.superiorSocketAddress ≠ none

/-- A call of `add_superior` names a node of the table. -/
def Seats (h : Hierarchy) (m : Mutator) : Prop :=
  ∀ node, m = .addSuperior node → h.nodes.lookup node.socketAddress ≠ none

/-- Calls of `add_superior` name nodes of the table. -/
def SeatsAll (h : Hierarchy) (now : TimePoint) : List Mutator → Prop
  | [] => True
  | m :: calls => h.Seats m ∧ (h.apply m now).1.SeatsAll now calls

theorem lookup_put_ne_none {a x : SocketAddress} {n : HierarchyNode} (hx : h.nodes.lookup x ≠ none) :
    (h.put a n).nodes.lookup x ≠ none := by
  by_cases hxa : x = a
  · subst hxa
    rw [put, AList.lookup_insert]
    exact Option.some_ne_none n
  · rw [put, AList.lookup_insert_ne hxa]
    exact hx

theorem lookup_addNode_ne_none {a : HierarchyNode} {x : SocketAddress} (hx : h.nodes.lookup x ≠ none) :
    (h.addNode a now).1.nodes.lookup x ≠ none := by
  obtain ⟨-, heq⟩ | ⟨-, -, heq⟩ | ⟨-, b, -, -, heq | heq⟩ := h.addNode_cases a now
  · rwa [heq]
  · rw [heq]
    exact lookup_put_ne_none hx
  · rw [heq]
    exact lookup_put_ne_none hx
  · rwa [heq]

theorem lookup_addNodes_ne_none {nodes : List HierarchyNode} {x : SocketAddress} (hx : h.nodes.lookup x ≠ none) :
    (h.addNodes nodes now).1.nodes.lookup x ≠ none := by
  induction nodes generalizing h with
  | nil => exact hx
  | cons a nodes ih =>
    rw [addNodes_cons]
    exact ih (lookup_addNode_ne_none hx)

/-- No call takes a record out of the table. -/
theorem lookup_apply_ne_none (m : Mutator) {x : SocketAddress} (hx : h.nodes.lookup x ≠ none) :
    (h.apply m now).1.nodes.lookup x ≠ none := by
  cases m with
  | addNodes nodes => exact lookup_addNodes_ne_none hx
  | addSuperior node =>
    rw [apply, addSuperior]
    split <;> exact hx
  | addSubordinate node =>
    rw [apply, addSubordinate]
    split <;> exact lookup_put_ne_none hx
  | removeNode sa =>
    have hfirst : (h.unsetSuperior sa now).1.nodes.lookup x ≠ none := by
      rwa [(h.unsetSuperior_spec sa now).1]
    rw [apply, removeNode]
    generalize h.unsetSuperior sa now = first at hfirst
    obtain ⟨h₁, updated⟩ := first
    cases hb : h₁.nodes.lookup sa with
    | none =>
      simp only [hb]
      exact hfirst
    | some b =>
      simp only [hb]
      split <;> exact lookup_put_ne_none hfirst
  | resources rhs =>
    rw [apply, setResources]
    split <;> exact hx

/-- The superior after a call is the one before it, a node that the call names, or none. -/
theorem superior_apply (h : Hierarchy) (m : Mutator) (now : TimePoint) :
    (h.apply m now).1.superiorSocketAddress = h.superiorSocketAddress ∨
      (h.apply m now).1.superiorSocketAddress = .unset ∨
      ∃ node, m = .addSuperior node ∧ (h.apply m now).1.superiorSocketAddress = node.socketAddress := by
  cases m with
  | addNodes nodes =>
    exact Or.inl (congrArg HierarchyNode.superiorSocketAddress (h.thisNode_addNodes nodes now))
  | addSuperior node => exact Or.inr (Or.inr ⟨node, rfl, Discoverer.superior_addSuperior h node now⟩)
  | addSubordinate node =>
    rw [apply, addSubordinate]
    split <;> exact Or.inl rfl
  | removeNode sa =>
    have hsuperior := (h.unsetSuperior_spec sa now).2.2.2.2.1
    rw [superiorSocketAddress, ← (h.removeNode_spec sa now).1] at hsuperior
    by_cases hsa : h.superiorSocketAddress = sa
    · exact Or.inr (Or.inl (hsuperior.trans (if_pos hsa)))
    · exact Or.inl (hsuperior.trans (if_neg hsa))
  | resources rhs =>
    rw [apply, setResources]
    split
    · exact Or.inl rfl
    · exact Or.inl (HierarchyNode.superiorSocketAddress_incrementVersion _)

/-- **A call keeps the superior known.** -/
theorem SuperiorKnown.apply (hknown : h.SuperiorKnown) {m : Mutator} (hseats : h.Seats m) :
    (h.apply m now).1.SuperiorKnown := by
  intro hset
  rw [hasSuperior] at hset
  rcases h.superior_apply m now with heq | heq | ⟨node, rfl, heq⟩
  · rw [heq] at hset ⊢
    exact lookup_apply_ne_none m (hknown hset)
  · rw [heq] at hset
    exact absurd hset Bool.false_ne_true
  · rw [heq]
    exact lookup_apply_ne_none _ (hseats node rfl)

theorem SuperiorKnown.applyAll (hknown : h.SuperiorKnown) {calls : List Mutator} (hseats : h.SeatsAll now calls) :
    (h.applyAll calls now).SuperiorKnown := by
  induction calls generalizing h with
  | nil => exact hknown
  | cons m calls ih => exact ih (hknown.apply hseats.1) hseats.2

theorem SuperiorKnown.of_knowledge (hknown : h.SuperiorKnown) (heq : h'.knowledge = h.knowledge) :
    h'.SuperiorKnown := by
  intro hset
  rw [hasSuperior, superior_eq heq] at hset
  rw [superior_eq heq]
  obtain ⟨r, hr⟩ := Option.ne_none_iff_exists'.1 (hknown hset)
  obtain ⟨r', hr', -⟩ := lookup_facts heq.symm hr
  rw [hr']
  exact Option.some_ne_none r'

/-! ### Calls that return false -/

/-- All the calls return false. -/
def Silent (h : Hierarchy) (now : TimePoint) : List Mutator → Prop
  | [] => True
  | m :: calls => (h.apply m now).2 = false ∧ (h.apply m now).1.Silent now calls

/-- A call that returns false keeps to the discipline where the superior is known. -/
theorem keepsDiscipline_of_silent (hown : h.socketAddress ≠ .unset) (hknown : h.SuperiorKnown) {m : Mutator}
    (hsilent : (h.apply m now).2 = false) : h.KeepsDiscipline m := by
  cases m with
  | addNodes nodes => exact trivial
  | addSuperior node => exact trivial
  | addSubordinate node => exact Or.inl hown
  | removeNode sa =>
    obtain ⟨-, htable⟩ := h.removeNode_spec sa now
    rw [apply] at hsilent
    rw [KeepsDiscipline]
    cases hb : h.nodes.lookup sa with
    | none =>
      show h.superiorSocketAddress ≠ sa ∨ sa = .unset
      by_contra hlost
      rw [not_or, not_not] at hlost
      obtain ⟨rfl, hne⟩ := hlost
      refine hknown ?_ hb
      by_contra hset
      exact hne (SocketAddress.eq_unset_of_isSet (Bool.eq_false_iff.2 hset))
    | some b =>
      simp only [hb] at htable
      show if b.superiorSocketAddress = h.socketAddress then _ else _
      by_cases hsuperior : b.superiorSocketAddress = h.socketAddress
      · rw [if_pos hsuperior] at htable
        exact absurd (hsilent.symm.trans htable.2) Bool.false_ne_true
      · rw [if_neg hsuperior] at htable
        rw [if_neg hsuperior]
        intro hsa
        exact absurd (hsilent.symm.trans (htable.2.2 hsa)) Bool.false_ne_true
  | resources rhs =>
    rw [apply, setResources] at hsilent
    by_cases hsame : h.thisNode.resources.eq rhs = true
    · exact Or.inl hsame
    · rw [if_neg hsame] at hsilent
      exact absurd hsilent.symm Bool.false_ne_true

/-- **A call that returns false has changed nothing but times.** -/
theorem not_changed_apply (hown : h.socketAddress ≠ .unset) (hknown : h.SuperiorKnown) {m : Mutator}
    (hsilent : (h.apply m now).2 = false) : ¬ h.Changed (h.apply m now).1 := by
  have hkeeps := keepsDiscipline_of_silent hown hknown hsilent
  have hdisciplined : h.Disciplined m now := by
    cases m with
    | addNodes nodes => exact h.disciplined_addNodes nodes now
    | addSuperior node => exact h.disciplined_addSuperior node now
    | addSubordinate node => exact (h.disciplined_addSubordinate_iff node now).2 hkeeps
    | removeNode sa => exact (h.disciplined_removeNode_iff sa now).2 hkeeps
    | resources rhs => exact (h.disciplined_resources_iff rhs now).2 hkeeps
  exact fun hchanged => Bool.false_ne_true (hsilent.symm.trans (hdisciplined.1.2 hchanged))

theorem not_changed_applyAll {calls : List Mutator} (hown : h.socketAddress ≠ .unset) (hknown : h.SuperiorKnown)
    (hseats : h.SeatsAll now calls) (hsilent : h.Silent now calls) : ¬ h.Changed (h.applyAll calls now) := by
  induction calls generalizing h with
  | nil => exact not_or.2 ⟨not_not_intro rfl, not_not_intro rfl⟩
  | cons m calls ih =>
    obtain ⟨hcontents, hthis⟩ := not_or.1 (not_changed_apply hown hknown hsilent.1)
    have hrest := ih (by rwa [socketAddress_apply]) (hknown.apply hseats.1) hseats.2 hsilent.2
    rw [Changed, not_not.1 hcontents, not_not.1 hthis] at hrest
    exact hrest

end Hierarchy

/-! ### Versions of the own record -/

namespace Hierarchy

variable {h : Hierarchy} {now : TimePoint}

theorem version_applyAll (h : Hierarchy) (calls : List Mutator) (now : TimePoint) :
    h.thisNode.version ≤ (h.applyAll calls now).thisNode.version := by
  induction calls generalizing h with
  | nil => exact UInt64.le_refl _
  | cons m calls ih => exact UInt64.le_trans (h.thisNode_apply m now).1 (ih _)

/-- **The records after calls** are of editions that were there before or that the calls bring in, or
of versions of the own record. -/
theorem has_applyAll {calls : List Mutator} (hfinds : h.FindsAll now calls) {r' : HierarchyNode}
    (hr' : (h.applyAll calls now).Has r') :
    (∃ r, (h.Has r ∨ ∃ m ∈ calls, r ∈ m.nodes) ∧ r'.edition = r.edition) ∨
      (r'.socketAddress = h.socketAddress ∧ r'.version ≤ (h.applyAll calls now).thisNode.version) := by
  induction calls generalizing h with
  | nil => exact Or.inl ⟨r', Or.inl hr', rfl⟩
  | cons m calls ih =>
    rcases ih hfinds.2 hr' with ⟨r, hr | ⟨m', hm', hr⟩, hedition⟩ | ⟨haddress, hversion⟩
    · rcases has_apply hfinds.1 hr with ⟨r₀, hr₀, hcopy⟩ | ⟨rfl, hrenewed⟩
      · refine Or.inl ⟨r₀, ?_, hedition.trans hcopy.edition_eq⟩
        exact hr₀.imp_right fun hr₀ => ⟨m, List.mem_cons_self, hr₀⟩
      · refine Or.inr ⟨(congrArg Prod.fst hedition).trans hrenewed.address_eq, ?_⟩
        rw [show r'.version = _ from congrArg Prod.snd hedition]
        exact (h.apply m now).1.version_applyAll calls now
    · exact Or.inl ⟨r, Or.inr ⟨m', List.mem_cons_of_mem m hm', hr⟩, hedition⟩
    · exact Or.inr ⟨haddress.trans (h.socketAddress_apply m now), hversion⟩

end Hierarchy

/-! ### Handlers that do not write the file -/

/-- `write_cache` is among what a handler does. -/
def writesCache (actions : List Action) : Bool :=
  actions.any fun
    | .writeCache => true
    | _ => false

theorem writesCache_append (xs ys : List Action) : writesCache (xs ++ ys) = (writesCache xs || writesCache ys) :=
  List.any_append

namespace Discoverer

variable {d : Discoverer} {o : Outcome} {now : TimePoint}

theorem writesCache_broadcastHierarchy (d : Discoverer) (ignoredEndpoint : SocketAddress) :
    writesCache (d.broadcastHierarchy ignoredEndpoint) = true := by
  rw [broadcastHierarchy, writesCache_append, Bool.or_eq_true]
  exact Or.inr rfl

/-- The file is written after a change. -/
theorem writesCache_announce (d : Discoverer) (changed : Bool) (ignoredEndpoint : SocketAddress) :
    writesCache (d.announce changed ignoredEndpoint) = changed := by
  cases changed with
  | false => rfl
  | true => exact d.writesCache_broadcastHierarchy ignoredEndpoint

theorem silent_probeCalls {p : Probe} (h : (d.mergeProbe (d.processProbe p).1 p.nodes now).2 = false) :
    d.hierarchy.Silent now (d.probeCalls p) := by
  rw [probeCalls]
  unfold mergeProbe at h
  cases hnodes : p.nodes with
  | nil => exact trivial
  | cons front rest =>
    simp only [hnodes] at h
    cases hresult : (d.processProbe p).1 with
    | addSubordinate =>
      simp only [hresult, Bool.or_eq_false_iff] at h
      exact ⟨h.1, h.2, trivial⟩
    | removeSubordinate =>
      simp only [hresult, Bool.or_eq_false_iff] at h
      exact ⟨h.1, h.2, trivial⟩
    | rejectSubordinate =>
      simp only [hresult] at h
      exact ⟨h, trivial⟩
    | retain =>
      simp only [hresult] at h
      exact ⟨h, trivial⟩

theorem silent_answerCalls {p : Probe} (h : (d.mergeAnswer p now).2 = false) :
    d.hierarchy.Silent now (answerCalls p) := by
  rw [answerCalls]
  rw [mergeAnswer] at h
  split
  · cases hnodes : p.nodes with
    | nil => exact trivial
    | cons front rest =>
      simp only [hnodes, Bool.or_eq_false_iff] at h
      exact ⟨h.1, h.2, trivial⟩
  · exact trivial

/-- **A handler that does not write the file has only made calls that return false.** -/
theorem silent_calls {e : Event} (h : d.handle e now = some o) (hquiet : writesCache o.2 = false) :
    d.hierarchy.Silent now (d.calls e) := by
  cases e with
  | start => exact trivial
  | timer => exact trivial
  | otherPipelineEvent => exact trivial
  | probeReceived p =>
    obtain rfl := Option.some.inj h
    obtain ⟨m, hactions⟩ : ∃ m, (d.probeReceived p now).2 = (d.probeReceived p now).1.announce
        (d.mergeProbe (d.processProbe p).1 (d.processProbe p).2.nodes now).2 p.source ++ [.send m] := ⟨_, rfl⟩
    rw [hactions, writesCache_append, Bool.or_eq_false_iff, writesCache_announce,
      (d.nodes_processProbe p).1] at hquiet
    exact silent_probeCalls hquiet.1
  | probeReturned p =>
    obtain ⟨hcode, -⟩ | ⟨-, hsame, -⟩ | ⟨-, -, -, hactions⟩ := probeReturned_cases h
    · rw [calls, answerCalls, if_neg fun hboth => hcode hboth.1]
      exact trivial
    · rw [calls, answerCalls, if_neg fun hboth => hboth.2 hsame]
      exact trivial
    · rw [hactions, takeSuperior, writesCache_append, writesCache_append, writesCache_append,
        writesCache_announce] at hquiet
      simp only [Bool.or_eq_false_iff] at hquiet
      exact silent_answerCalls hquiet.1.2.1
  | hierarchy k =>
    obtain rfl := Option.some.inj h
    rw [updateWeights] at hquiet
    rw [calls]
    split at hquiet
    · next hfailed =>
      rw [if_pos hfailed]
      exact trivial
    · next hfailed =>
      rw [if_neg hfailed]
      exact ⟨(writesCache_announce _ _ _).symm.trans hquiet, trivial⟩
  | removeClient a =>
    have hremoved {rest : List Action} (hquiet : writesCache ((if (d.hierarchy.removeNode a now).2 then
        ({ d with hierarchy := (d.hierarchy.removeNode a now).1 } : Discoverer).broadcastHierarchy a else []) ++
        rest) = false) : (d.hierarchy.removeNode a now).2 = false := by
      rw [writesCache_append, Bool.or_eq_false_iff] at hquiet
      by_contra hchanged
      rw [if_pos (Bool.not_eq_false _ ▸ hchanged), writesCache_broadcastHierarchy] at hquiet
      exact Bool.false_ne_true hquiet.1.symm
    obtain ⟨-, o', -, rfl⟩ | ⟨-, rfl⟩ := onClientRemove_cases h
    · exact ⟨hremoved hquiet, trivial⟩
    · exact ⟨@hremoved [] (by rwa [List.append_nil]), trivial⟩
  | resources rhs =>
    obtain rfl := Option.some.inj h
    refine ⟨?_, trivial⟩
    by_contra hchanged
    have hbroadcast := (d.setResources rhs now).1.writesCache_broadcastHierarchy .unset
    have hactions : (d.setResources rhs now).2 =
        .localResources rhs :: (d.setResources rhs now).1.broadcastHierarchy .unset :=
      if_pos (Bool.not_eq_false _ ▸ hchanged)
    rw [hactions] at hquiet
    exact Bool.false_ne_true (hquiet.symm.trans hbroadcast)

end Discoverer

namespace Network

variable {s : Subnet} {ι : Type} {daemons : ι → Member s} {net : Network ι} {i : ι} {d : Discoverer}
  {e : Discoverer.Event} {o : Discoverer.Outcome} {now : TimePoint}

/-- A node that becomes the superior is in the table by then. -/
theorem seatsAll_calls (hnet : net.Good daemons) (hd : net.discoverer i = some d)
    (he : MayHappen daemons net i e) (now : TimePoint) : d.hierarchy.SeatsAll now (d.calls e) := by
  cases he with
  | start => exact trivial
  | timer => exact trivial
  | removeClient a => exact ⟨fun _ h => Mutator.noConfusion h, trivial⟩
  | otherPipelineEvent => exact trivial
  | resources rhs => exact ⟨fun _ h => Mutator.noConfusion h, trivial⟩
  | @probe p _ _ =>
    change d.hierarchy.SeatsAll now (d.probeCalls p)
    rw [Discoverer.probeCalls]
    split
    · exact trivial
    · refine ⟨fun _ h => Mutator.noConfusion h, ?_⟩
      split
      · exact ⟨fun _ h => Mutator.noConfusion h, trivial⟩
      · exact ⟨fun _ h => Mutator.noConfusion h, trivial⟩
      · exact trivial
      · exact trivial
  | @answer p hsent hdestination =>
    change d.hierarchy.SeatsAll now (Discoverer.answerCalls p)
    rw [Discoverer.answerCalls]
    split
    · next hsuccess =>
      split
      · exact trivial
      · next front rest hnodes =>
        refine ⟨fun _ h => Mutator.noConfusion h, fun node hnode => ?_, trivial⟩
        obtain rfl := Mutator.addSuperior.inj hnode
        have hprecedes := ((hnet.kernels _ hsent).2 hsuccess.1).front front (by rw [hnodes]; rfl)
        refine Hierarchy.lookup_addNodes p.nodes now (by rw [hnodes]; exact List.mem_cons_self) ?_
        rw [(hnet.discoverers i d hd).links.address_eq, ← hdestination]
        exact hprecedes.ne
    · exact trivial
  | @undelivered p code _ _ hcode =>
    change d.hierarchy.SeatsAll now (Discoverer.answerCalls (p.returnToParent code))
    rw [Discoverer.answerCalls, if_neg fun hboth => hcode hboth.1]
    exact trivial
  | hierarchy _ _ =>
    rw [Discoverer.calls]
    split
    · exact trivial
    · exact ⟨fun _ h => Mutator.noConfusion h, trivial⟩
  | undeliveredHierarchy _ _ hcode =>
    rw [Discoverer.calls, if_pos ⟨rfl, hcode⟩]
    exact trivial

theorem superiorKnown_handle (hnet : net.Good daemons) (hd : net.discoverer i = some d)
    (hknown : d.hierarchy.SuperiorKnown) (he : MayHappen daemons net i e) (hhandle : d.handle e now = some o) :
    o.1.hierarchy.SuperiorKnown := by
  rw [Discoverer.hierarchy_handle hhandle]
  exact hknown.applyAll (seatsAll_calls hnet hd he now)

/-- The address of a daemon is set. -/
theorem socketAddress_ne_unset (c : Member s) : c.socketAddress ≠ .unset := fun h =>
  absurd (congrArg SocketAddress.isSet h) (by rw [Member.socketAddress]; exact Bool.noConfusion)

/-- **A handler that does not write the file has changed nothing but times**, as far as a hierarchy
says anything. -/
theorem knowledge_handle (hnet : net.Good daemons) (hd : net.discoverer i = some d)
    (hknown : d.hierarchy.SuperiorKnown) (he : MayHappen daemons net i e) (hhandle : d.handle e now = some o)
    (hquiet : writesCache o.2 = false) : o.1.hierarchy.knowledge = d.hierarchy.knowledge := by
  have hlinks := (hnet.discoverers i d hd).links
  have hown : d.hierarchy.socketAddress ≠ .unset := by
    rw [hlinks.address_eq]
    exact socketAddress_ne_unset _
  have hgood : o.1.Good (daemons i) := by
    obtain ⟨o', ho', hgood, -⟩ := hnet.handle hd he now
    obtain rfl := Option.some.inj (hhandle.symm.trans ho')
    exact hgood
  refine Hierarchy.knowledge_of_contents (hgood.links.netmask_eq.trans hlinks.netmask_eq.symm) ?_
  rw [Discoverer.hierarchy_handle hhandle]
  exact Hierarchy.not_changed_applyAll hown hknown (seatsAll_calls hnet hd he now)
    (Discoverer.silent_calls hhandle hquiet)

theorem update_ne_none [DecidableEq ι] {f : ι → Option Discoverer} {i j : ι} {d' : Discoverer} (hj : f j ≠ none) :
    Function.update f i (some d') j ≠ none := by
  by_cases hji : j = i
  · rw [hji, Function.update_self]
    exact Option.some_ne_none d'
  · rwa [Function.update_of_ne hji]

end Network

/-! ### Reading the file -/

/-- The mask with a number of bits. -/
def maskOf (bits : ℕ) : UInt32 := UInt32.ofNat (2 ^ 32 - 2 ^ (32 - bits))

/-- The number of bits in a mask. -/
def bitsOf (mask : UInt32) : ℕ := (List.range 32).countP fun i => mask.toNat.testBit i

theorem bitsOf_maskOf {bits : ℕ} (h : bits ≤ 32) : bitsOf (maskOf bits) = bits := by
  have hall : ∀ bits : Fin 33, bitsOf (maskOf bits) = bits := by decide
  exact hall ⟨bits, Nat.lt_succ_of_le h⟩

/-- The hierarchy in a variable. -/
def HierarchyCells.hierarchy [ByteOrder] (c : HierarchyCells) : Hierarchy :=
  ⟨bitsOf c.netmask, c.thisNode.value, c.nodes⟩

/-- A variable that is equal to a hierarchy says the same. -/
theorem HierarchyCells.IsEqual.knowledge_eq [ByteOrder] {c : HierarchyCells} {h : Hierarchy}
    (hequal : c.IsEqual (maskOf h.netmask) h) (hbits : h.netmask ≤ 32) : c.hierarchy.knowledge = h.knowledge := by
  ext1
  · show bitsOf c.netmask = h.netmask
    rw [hequal.netmask_eq, bitsOf_maskOf hbits]
  · exact hequal.thisNode.facts_eq
  · funext a
    show (c.nodes.lookup a).map HierarchyNode.facts = (h.nodes.lookup a).map HierarchyNode.facts
    cases hr : h.nodes.lookup a with
    | none =>
      have hnone : c.nodes.lookup a = none := by
        rw [AList.lookup_eq_none, hequal.keys a]
        exact AList.lookup_eq_none.1 hr
      rw [hnone]
    | some r =>
      obtain ⟨r', hr', hsame⟩ := hequal.nodes ⟨a, r⟩ (AList.mem_lookup_iff.1 hr)
      rw [hr']
      exact congrArg some hsame.facts_eq

/-- The variable in a discoverer that has been constructed: nothing but the address and the mask is set. -/
def Member.cells {s : Subnet} (c : Member s) : HierarchyCells where
  netmask := maskOf s.netmask
  thisNode := { NodeCells.initial with socketAddress := c.socketAddress }
  nodes := ∅

/-! ### Crashes -/

/-- The network, and the hierarchies in the files. -/
structure CachedNetwork (ι : Type) where
  /-- The network. -/
  network : Network ι
  /-- What each daemon has written last. -/
  cache : ι → Option Hierarchy

namespace CachedNetwork

variable {s : Subnet} {ι : Type} {daemons : ι → Member s}

/-- The file says what a daemon knows. Without a file it knows what it has been constructed with. -/
def Current (c : Member s) (cache : Option Hierarchy) (d : Discoverer) : Prop :=
  match cache with
  | some h => h.knowledge = d.hierarchy.knowledge
  | none => ∃ d₀, c.discoverer = some d₀ ∧ d₀.hierarchy.knowledge = d.hierarchy.knowledge

theorem Current.of_knowledge {c : Member s} {cache : Option Hierarchy} {d d' : Discoverer} (h : Current c cache d)
    (heq : d'.hierarchy.knowledge = d.hierarchy.knowledge) : Current c cache d' := by
  cases cache with
  | some _ => exact Eq.trans h heq.symm
  | none =>
    obtain ⟨d₀, hd₀, hknowledge⟩ := h
    exact ⟨d₀, hd₀, hknowledge.trans heq.symm⟩

variable [ByteOrder]

/-- The discoverers that a daemon may start with, by `add_discoverer`. -/
inductive Starts (daemons : ι → Member s) (net : CachedNetwork ι) (i : ι) (own : ReadContext)
    (xs : ℕ → ReadContext) : Discoverer → Prop
  /-- There is no file. -/
  | anew {d : Discoverer} : (daemons i).discoverer = some d → net.cache i = none → Starts daemons net i own xs d
  /-- `read_cache`. -/
  | resume {d : Discoverer} {h : Hierarchy} {c : HierarchyCells} {rest : List UInt8} :
      (daemons i).discoverer = some d → net.cache i = some h →
      (daemons i).cells.read own xs (h.bytes (maskOf h.netmask)) = .ok c rest →
      Starts daemons net i own xs { d with hierarchy := c.hierarchy }

/-- The file after a handler. -/
def written (cache : Option Hierarchy) (o : Discoverer.Outcome) : Option Hierarchy :=
  if writesCache o.2 then some o.1.hierarchy else cache

/-- What happens to a daemon. -/
inductive Happening (ι : Type) where
  /-- It handles an event. -/
  | handle (i : ι) (e : Discoverer.Event) (now : TimePoint)
  /-- It crashes and starts again. -/
  | restart (i : ι) (own : ReadContext) (xs : ℕ → ReadContext)

/-- The file that is read, if there is one, is read back. -/
def ReadsBack (daemons : ι → Member s) (net : CachedNetwork ι) : Happening ι → Prop
  | .handle .. => True
  | .restart i own xs => ∀ h, net.cache i = some h → (daemons i).cells.Suits own xs h

section

variable [DecidableEq ι]

/-- A daemon handles an event, or crashes and starts again. -/
inductive Step (daemons : ι → Member s) (net : CachedNetwork ι) : Happening ι → CachedNetwork ι → Prop
  /-- It handles an event. -/
  | handle {i : ι} {d : Discoverer} {e : Discoverer.Event} {now : TimePoint} {o : Discoverer.Outcome} :
      net.network.discoverer i = some d → net.network.MayHappen daemons i e → d.handle e now = some o →
      Step daemons net (.handle i e now)
        ⟨⟨Function.update net.network.discoverer i (some o.1), net.network.sent ++ sends o.2⟩,
          Function.update net.cache i (written (net.cache i) o)⟩
  /-- It crashes and starts again. -/
  | restart {i : ι} {own : ReadContext} {xs : ℕ → ReadContext} {d : Discoverer} :
      Starts daemons net i own xs d → Step daemons net (.restart i own xs)
        ⟨⟨Function.update net.network.discoverer i (some d), net.network.sent⟩, net.cache⟩

/-- The daemons start with empty tables, nothing has been sent and there are no files. Every file that is
read is read back. -/
def restoring (daemons : ι → Member s) : System (CachedNetwork ι) where
  Initial net := (Network.system daemons).Initial net.network ∧ net.cache = fun _ => none
  Step net net' := ∃ event, net.ReadsBack daemons event ∧ Step daemons net event net'

end

/-- What holds at any time. -/
structure Sound (daemons : ι → Member s) (net : CachedNetwork ι) : Prop where
  /-- The network is good. -/
  good : net.network.Good daemons
  /-- Every daemon whose discoverer can be constructed has one. -/
  running : ∀ i, (daemons i).discoverer ≠ none → net.network.discoverer i ≠ none
  /-- Superiors are in the tables. -/
  known : ∀ i d, net.network.discoverer i = some d → d.hierarchy.SuperiorKnown
  /-- The files are up to date. -/
  current : ∀ i d, net.network.discoverer i = some d → Current (daemons i) (net.cache i) d

variable {net net' : CachedNetwork ι} {i : ι} {d d' : Discoverer} {own : ReadContext} {xs : ℕ → ReadContext}

/-- **A daemon that starts again from a file that is read back knows what it knew before it crashed.** -/
theorem Sound.starts (hnet : net.Sound daemons) (hbits : s.netmask ≤ 32)
    (hback : net.ReadsBack daemons (.restart i own xs)) (h : Starts daemons net i own xs d') :
    ∃ d, net.network.discoverer i = some d ∧ d'.hierarchy.knowledge = d.hierarchy.knowledge ∧
      d'.Good (daemons i) := by
  obtain ⟨d₀, hd₀⟩ : ∃ d₀, (daemons i).discoverer = some d₀ := by
    cases h with
    | anew hd₀ _ => exact ⟨_, hd₀⟩
    | resume hd₀ _ _ => exact ⟨_, hd₀⟩
  have hrunning := hnet.running i (by rw [hd₀]; exact Option.some_ne_none d₀)
  obtain ⟨d, hd⟩ := Option.ne_none_iff_exists'.1 hrunning
  have hcurrent := hnet.current i d hd
  have hlinks := (hnet.good.discoverers i d hd).links
  refine ⟨d, hd, ?_⟩
  cases h with
  | anew hd' hcache =>
    rw [hcache] at hcurrent
    obtain ⟨d₁, hd₁, hknowledge⟩ := hcurrent
    obtain rfl := Option.some.inj (hd₁.symm.trans hd')
    exact ⟨hknowledge, Member.discoverer_good hd'⟩
  | @resume d₁ h c rest hd₁ hcache hread =>
    rw [hcache] at hcurrent
    have hcurrent : h.knowledge = d.hierarchy.knowledge := hcurrent
    have hrestores : (daemons i).cells.Restores own xs (maskOf h.netmask) h :=
      HierarchyCells.restores_of_suits (hback h hcache)
    obtain ⟨c', hread', hequal⟩ := hrestores []
    rw [List.append_nil] at hread'
    injection hread.symm.trans hread' with hc _
    subst hc
    have hnetmask : h.netmask ≤ 32 := by
      rw [show h.netmask = d.hierarchy.netmask from congrArg Knowledge.netmask hcurrent, hlinks.netmask_eq]
      exact hbits
    have hknowledge := (hequal.knowledge_eq hnetmask).trans hcurrent
    exact ⟨hknowledge, (Member.discoverer_good hd₁).setHierarchy (hlinks.of_knowledge hknowledge)⟩

variable [DecidableEq ι]

theorem sound_initial (h : (restoring daemons).Initial net) : net.Sound daemons := by
  obtain ⟨hnetwork, hcache⟩ := h
  have hdiscoverer (i : ι) : net.network.discoverer i = (daemons i).discoverer :=
    congrFun (congrArg Network.discoverer (show net.network = _ from hnetwork)) i
  refine ⟨Network.good_initial hnetwork, fun i hi => by rwa [hdiscoverer], fun i d hd hset => ?_, fun i d hd => ?_⟩
  · rw [hdiscoverer] at hd
    obtain ⟨iterator, -, heq⟩ := Option.bind_eq_some_iff.1 hd
    obtain rfl := Option.some.inj heq
    exact absurd hset Bool.false_ne_true
  · rw [hdiscoverer] at hd
    rw [hcache]
    exact ⟨d, hd, rfl⟩

/-- **Handlers and crashes keep the files up to date.** -/
theorem Sound.step (hnet : net.Sound daemons) (hbits : s.netmask ≤ 32) (h : (restoring daemons).Step net net') :
    net'.Sound daemons := by
  obtain ⟨event, hback, hstep⟩ := h
  cases hstep with
  | @handle i d e now o hd he hhandle =>
    obtain ⟨d', actions⟩ := o
    refine ⟨hnet.good.step (.handle hd he hhandle), fun j hj => Network.update_ne_none (hnet.running j hj),
      fun j d₁ hj => ?_, fun j d₁ hj => ?_⟩
    · obtain ⟨rfl, rfl⟩ | ⟨-, hj⟩ := Network.update_eq_some hj
      · exact Network.superiorKnown_handle hnet.good hd (hnet.known j d hd) he hhandle
      · exact hnet.known j d₁ hj
    · obtain ⟨rfl, rfl⟩ | ⟨hji, hj⟩ := Network.update_eq_some hj
      · show Current _ (Function.update net.cache j _ j) _
        rw [Function.update_self, written]
        split
        · rfl
        · next hquiet =>
          exact (hnet.current j d hd).of_knowledge (Network.knowledge_handle hnet.good hd (hnet.known j d hd) he
            hhandle (Bool.eq_false_iff.2 hquiet))
      · show Current _ (Function.update net.cache i _ j) _
        rw [Function.update_of_ne hji]
        exact hnet.current j d₁ hj
  | @restart i own xs d' hstarts =>
    obtain ⟨d, hd, hknowledge, hgood⟩ := hnet.starts hbits hback hstarts
    refine ⟨⟨fun j d₁ hj => ?_, hnet.good.kernels⟩, fun j hj => Network.update_ne_none (hnet.running j hj),
      fun j d₁ hj => ?_, fun j d₁ hj => ?_⟩
    · obtain ⟨rfl, rfl⟩ | ⟨-, hj⟩ := Network.update_eq_some hj
      · exact hgood
      · exact hnet.good.discoverers j d₁ hj
    · obtain ⟨rfl, rfl⟩ | ⟨-, hj⟩ := Network.update_eq_some hj
      · exact (hnet.known j d hd).of_knowledge hknowledge
      · exact hnet.known j d₁ hj
    · obtain ⟨rfl, rfl⟩ | ⟨-, hj⟩ := Network.update_eq_some hj
      · exact (hnet.current j d hd).of_knowledge hknowledge
      · exact hnet.current j d₁ hj

theorem reachable_sound (hbits : s.netmask ≤ 32) (h : (restoring daemons).Reachable net) : net.Sound daemons :=
  h.invariant (fun _ => sound_initial) fun _ _ hnet => hnet.step hbits

/-! #### A daemon that crashes -/

omit [ByteOrder] [DecidableEq ι] in
/-- The hierarchy of a discoverer that has been constructed. -/
theorem hierarchy_of_discoverer {c : Member s} (hd : c.discoverer = some d) :
    d.hierarchy = Hierarchy.construct c.interfaceAddress s.netmask c.port := by
  obtain ⟨iterator, -, heq⟩ := Option.bind_eq_some_iff.1 hd
  rw [← Option.some.inj heq]

/-- The second daemon learns of its resources, and writes its file. -/
theorem writes_two : ∃ (net : CachedNetwork (Fin 2)) (d : Discoverer), (restoring twoDaemons).Reachable net ∧
    net.network.discoverer 1 = some d ∧ net.cache 1 = some d.hierarchy ∧ d.hierarchy.netmask = 8 ∧
    d.hierarchy.thisNode = ⟨(twoDaemons 1).socketAddress, .unset, twoOfEach, 1, 1⟩ ∧ d.hierarchy.nodes = ∅ := by
  obtain ⟨d, hd, -⟩ := discoverer_two
  have hinitial : (restoring twoDaemons).Reachable ⟨⟨fun i => (twoDaemons i).discoverer, []⟩, fun _ => none⟩ :=
    .initial ⟨rfl, rfl⟩
  have hsteps := hinitial.step ⟨.handle 1 _ 1, trivial,
    .handle (i := 1) (o := d.setResources twoOfEach 1) hd (.resources twoOfEach) rfl⟩
  have hconstructed : d.hierarchy = Hierarchy.construct (twoDaemons 1).interfaceAddress 8 33333 :=
    hierarchy_of_discoverer hd
  have hhierarchy : (d.setResources twoOfEach 1).1.hierarchy =
      ((Hierarchy.construct (twoDaemons 1).interfaceAddress 8 33333).setResources twoOfEach 1).1 := by
    rw [← hconstructed]
    rfl
  have hchanged : (d.hierarchy.setResources twoOfEach 1).2 = true := by
    rw [hconstructed]
    rfl
  have hactions : (d.setResources twoOfEach 1).2 =
      .localResources twoOfEach :: (d.setResources twoOfEach 1).1.broadcastHierarchy .unset := if_pos hchanged
  have hwritten : written none (d.setResources twoOfEach 1) = some (d.setResources twoOfEach 1).1.hierarchy := by
    refine if_pos ?_
    rw [hactions]
    exact Discoverer.writesCache_broadcastHierarchy _ .unset
  have hd' := Function.update_self (1 : Fin 2) (some (d.setResources twoOfEach 1).1)
    fun i => (twoDaemons i).discoverer
  have hcache := Function.update_self (1 : Fin 2) (written none (d.setResources twoOfEach 1)) fun _ => none
  refine ⟨_, (d.setResources twoOfEach 1).1, hsteps, hd', hcache.trans hwritten, ?_⟩
  rw [hhierarchy]
  exact ⟨rfl, rfl, rfl⟩

/-- Its own record can be read over the one that is constructed. -/
theorem suits_two {h : Hierarchy}
    (hown : h.thisNode = ⟨(twoDaemons 1).socketAddress, .unset, twoOfEach, 1, 1⟩) (hnodes : h.nodes = ∅) :
    (twoDaemons 1).cells.Suits .blank (fun _ => .blank) h := by
  refine ⟨?_, by rw [hnodes]; decide, by rw [hnodes]; trivial⟩
  rw [hown]
  refine ⟨fun _ => rfl, fun hset => absurd hset Bool.false_ne_true, ⟨fun r => ⟨trivial, trivial, ?_⟩, ?_, ?_, ?_⟩⟩
  · exact fun htext => absurd htext Bool.false_ne_true
  · show ([] : List (Σ _ : List UInt8, Any)).length < 2 ^ 32
    decide
  · exact fun x hx => absurd hx List.not_mem_nil
  · exact fun i x hx => absurd hx.symm (Option.some_ne_none x)

/-- It crashes, and starts again with its file. -/
theorem resumes_two : ∃ (net net' : CachedNetwork (Fin 2)) (d : Discoverer),
    (restoring twoDaemons).Reachable net ∧ (restoring twoDaemons).Step net net' ∧
    net.network.discoverer 1 = some d ∧ net.cache 1 = some d.hierarchy ∧ d.hierarchy.thisNode.version = 1 ∧
    net.ReadsBack twoDaemons (.restart 1 .blank fun _ => .blank) ∧
    ∃ d', Starts twoDaemons net 1 .blank (fun _ => .blank) d' ∧ net'.network.discoverer 1 = some d' := by
  obtain ⟨net, d, hreachable, hd, hcache, -, hown, hnodes⟩ := writes_two
  obtain ⟨d₀, hd₀, -⟩ := discoverer_two
  have hsuits := suits_two hown hnodes
  have hrestores : (twoDaemons 1).cells.Restores .blank (fun _ => .blank) (maskOf d.hierarchy.netmask) d.hierarchy :=
    HierarchyCells.restores_of_suits hsuits
  obtain ⟨c, hread, -⟩ := hrestores []
  rw [List.append_nil] at hread
  have hstarts := Starts.resume hd₀ hcache hread
  have hback : net.ReadsBack twoDaemons (.restart 1 .blank fun _ => .blank) := by
    intro h hh
    obtain rfl := Option.some.inj (hcache.symm.trans hh)
    exact hsuits
  have hd' := Function.update_self (1 : Fin 2) (some { d₀ with hierarchy := c.hierarchy }) net.network.discoverer
  exact ⟨net, _, d, hreachable, ⟨_, hback, .restart hstarts⟩, hd, hcache, by rw [hown], hback, _, hstarts, hd'⟩

/-! ### Files -/

/-- The records in tables, in kernels and in files. -/
inductive Keeps (net : CachedNetwork ι) (r : HierarchyNode) : Prop
  /-- A daemon has it or it is on its way. -/
  | network : net.network.Holds r → Keeps net r
  /-- A file has it. -/
  | file {i : ι} {h : Hierarchy} : net.network.discoverer i ≠ none → net.cache i = some h → h.Has r → Keeps net r

/-- No record is newer than that of the node itself. -/
def Newest (daemons : ι → Member s) (net : Network ι) : Prop :=
  ∀ i d, net.discoverer i = some d → ∀ r, net.Holds r → r.socketAddress = (daemons i).socketAddress →
    r.version ≤ d.hierarchy.thisNode.version

omit [DecidableEq ι] [ByteOrder] in
/-- Where every record is one of before or a version of the own record of one daemon, the newest versions stay
the newest ones. -/
theorem Newest.extend (hdistinct : ∀ i j, (daemons i).socketAddress = (daemons j).socketAddress → i = j)
    {net net' : Network ι} (hnewest : Newest daemons net) {i : ι} {d' : Discoverer}
    (hi : net'.discoverer i = some d')
    (hversions : ∀ j d₁, net'.discoverer j = some d₁ →
      ∃ d, net.discoverer j = some d ∧ d.hierarchy.thisNode.version ≤ d₁.hierarchy.thisNode.version)
    (hrecords : ∀ r', net'.Holds r' → (∃ r, net.Holds r ∧ r'.edition = r.edition) ∨
      (r'.socketAddress = (daemons i).socketAddress ∧ r'.version ≤ d'.hierarchy.thisNode.version)) :
    Newest daemons net' := by
  intro j d₁ hj r' hr' haddress
  obtain ⟨d, hd, hle⟩ := hversions j d₁ hj
  rcases hrecords r' hr' with ⟨r, hr, hedition⟩ | ⟨hown, hversion⟩
  · have hr := hnewest j d hd r hr ((congrArg Prod.fst hedition).symm.trans haddress)
    rw [show r'.version = r.version from congrArg Prod.snd hedition]
    exact UInt64.le_trans hr hle
  · obtain rfl := hdistinct i j (hown.symm.trans haddress)
    obtain rfl := Option.some.inj (hi.symm.trans hj)
    exact hversion

omit [ByteOrder] in
theorem newest_initial (hdistinct : ∀ i j, (daemons i).socketAddress = (daemons j).socketAddress → i = j)
    {net : Network ι} (h : (Network.system daemons).Initial net) : Newest daemons net := by
  have hgood := Network.good_initial h
  obtain rfl : net = _ := h
  rintro i d hi r (⟨hj, hhas⟩ | ⟨hm, -⟩) haddress
  · rename_i j d'
    obtain rfl := Ledger.has_discoverer hj hhas
    obtain rfl := hdistinct j i ((hgood.discoverers j d' hj).links.address_eq.symm.trans haddress)
    obtain rfl := Option.some.inj (hj.symm.trans hi)
    exact UInt64.le_refl _
  · exact absurd hm List.not_mem_nil

/-- What becomes of the own version of a daemon in a step. -/
theorem Sound.version_step (hnet : net.Sound daemons) (hbits : s.netmask ≤ 32)
    (h : (restoring daemons).Step net net') {j : ι} :
    (∀ d₁, net'.network.discoverer j = some d₁ → ∃ d, net.network.discoverer j = some d ∧
      d.hierarchy.thisNode.version ≤ d₁.hierarchy.thisNode.version) ∧
    (net.network.discoverer j ≠ none → net'.network.discoverer j ≠ none) := by
  obtain ⟨event, hback, hstep⟩ := h
  cases hstep with
  | @handle i d e now o hd he hhandle =>
    refine ⟨fun d₁ hj => ?_, Network.update_ne_none⟩
    obtain ⟨rfl, rfl⟩ | ⟨-, hj⟩ := Network.update_eq_some hj
    · refine ⟨d, hd, ?_⟩
      rw [Discoverer.hierarchy_handle hhandle]
      exact d.hierarchy.version_applyAll _ now
    · exact ⟨d₁, hj, UInt64.le_refl _⟩
  | @restart i own xs d' hstarts =>
    refine ⟨fun d₁ hj => ?_, Network.update_ne_none⟩
    obtain ⟨rfl, rfl⟩ | ⟨-, hj⟩ := Network.update_eq_some hj
    · obtain ⟨d, hd, hknowledge, -⟩ := hnet.starts hbits hback hstarts
      refine ⟨d, hd, ?_⟩
      rw [show d₁.hierarchy.thisNode.version = _ from congrArg Facts.version (Hierarchy.facts_eq hknowledge)]
      exact UInt64.le_refl _
    · exact ⟨d₁, hj, UInt64.le_refl _⟩

/-- **A step keeps the newest versions with the nodes themselves.** -/
theorem Newest.step (hdistinct : ∀ i j, (daemons i).socketAddress = (daemons j).socketAddress → i = j)
    (hbits : s.netmask ≤ 32) (hnet : net.Sound daemons) (hnewest : Newest daemons net.network)
    (h : (restoring daemons).Step net net') : Newest daemons net'.network := by
  have hversions := fun j => (hnet.version_step hbits h (j := j)).1
  obtain ⟨event, hback, hstep⟩ := h
  cases hstep with
  | @handle i d e now o hd he hhandle =>
    have hown : (daemons i).socketAddress = d.hierarchy.socketAddress :=
      (hnet.good.discoverers i d hd).links.address_eq.symm
    -- the records of the daemon that has handled the event
    have hhas {r' : HierarchyNode} (hr' : o.1.hierarchy.Has r') :
        (∃ r, net.network.Holds r ∧ r'.edition = r.edition) ∨
          (r'.socketAddress = (daemons i).socketAddress ∧ r'.version ≤ o.1.hierarchy.thisNode.version) := by
      rw [Discoverer.hierarchy_handle hhandle] at hr' ⊢
      rcases Hierarchy.has_applyAll (Ledger.findsAll_calls hnet.good hd he now) hr' with
        ⟨r, hr | ⟨m, hm, hr⟩, hedition⟩ | ⟨haddress, hversion⟩
      · exact Or.inl ⟨r, .daemon hd hr, hedition⟩
      · obtain ⟨k, hk, hrk⟩ := Ledger.nodes_calls he hm hr
        exact Or.inl ⟨r, .kernel hk hrk, hedition⟩
      · exact Or.inr ⟨haddress.trans hown.symm, hversion⟩
    refine hnewest.extend hdistinct (Function.update_self ..) hversions fun r' hr' => ?_
    cases hr' with
    | @daemon j d₁ hj hr' =>
      obtain ⟨rfl, rfl⟩ | ⟨-, hj⟩ := Network.update_eq_some hj
      · exact hhas hr'
      · exact Or.inl ⟨r', .daemon hj hr', rfl⟩
    | @kernel m hm hr' =>
      rcases List.mem_append.1 hm with hm | hm
      · exact Or.inl ⟨r', .kernel hm hr', rfl⟩
      · exact hhas (Discoverer.nodes_handle hhandle m hm r' hr')
  | @restart i own xs d' hstarts =>
    obtain ⟨d, hd, hknowledge, -⟩ := hnet.starts hbits hback hstarts
    refine hnewest.extend hdistinct (Function.update_self ..) hversions fun r' hr' => Or.inl ?_
    cases hr' with
    | @daemon j d₁ hj hr' =>
      obtain ⟨rfl, rfl⟩ | ⟨-, hj⟩ := Network.update_eq_some hj
      · obtain ⟨r, hr, hfacts⟩ := Hierarchy.has_facts hknowledge hr'
        have hedition : r'.edition = r.edition :=
          Prod.ext (congrArg Facts.socketAddress hfacts).symm (congrArg Facts.version hfacts).symm
        exact ⟨r, .daemon hd hr, hedition⟩
      · exact ⟨r', .daemon hj hr', rfl⟩
    | kernel hm hr' => exact ⟨r', .kernel hm hr', rfl⟩

end CachedNetwork

end Subordination.Daemon
