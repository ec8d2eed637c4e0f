import Subordination.Core.PlugParents
import Mathlib.Data.List.Find

/-!
# The links between the kernels of the log

Which kernel `transaction_log::plug_parents` makes the parent of which, when the records are of any applications
(`core/transaction_log.cc`).

## The model

The records are such as a process can decode from any file. The map of `plug_parents` is from ids alone, and each
connection draws its ids from a counter of its own: kernels of two applications may have the same id, and kernels
that have none share the id 0. `found` is the kernel that the map yields, with its record. The application of a
record is that of its kernel: the parent that has come with it has no header.

## What is proved

* `linked_plugParents` — every kernel of the records has the parent that is found for it.
* `plug_parents_iff` — when the links are what they are to be.
* `parent_of_another` — two applications whose kernels have the same id.
-/

namespace Subordination.Core

open Library

section Links

variable {P : Type}

/-! ### The records -/

/-- `parent_id()` of the kernel of a record, once it is in memory. -/
def Located.parentId (x : Located P) : UInt64 :=
  match x.1.k.carried with
  | none => x.1.k.kernel.parentWord
  | some parent => parent.id

/-- The application that the record is of. -/
def Located.application (x : Located P) : UInt64 := x.1.k.kernel.sourceApplicationId

/-- The kernels that `plug_parents` goes through, in order: each with its record and its place. -/
def visitedKernels (located : List (Located P)) : List (Located P × UInt64 × Kernel P) :=
  located.flatMap fun x => x.kernels.map fun y => (x, y)

/-- The last kernel with the given id. -/
def found (located : List (Located P)) (id : UInt64) : Option (Located P × UInt64 × Kernel P) :=
  (visitedKernels located).reverse.find? fun y => y.2.2.id == id

/-- The kernel that is found for the kernel at the place `a` is at the place `b`. -/
def FoundAt (located : List (Located P)) (a b : UInt64) : Prop :=
  ∃ x ∈ located, x.2.kernel = a ∧ ∃ y, found located x.parentId = some y ∧ y.2.1 = b

/-! ### What the links are to be -/

/-- The links that `plug_parents` makes are what they are to be. -/
structure WellLinked (memory : Memory P) (located : List (Located P)) : Prop where
  /-- A kernel is linked only to a kernel of the same application that has the id of its parent. -/
  same : ∀ x ∈ located, (memory x.2.kernel).parent ≠ 0 → ∃ y ∈ located, ∃ z ∈ y.kernels,
    z.1 = (memory x.2.kernel).parent ∧ y.application = x.application ∧ z.2.id = x.parentId
  /-- No kernel is linked to itself. -/
  irrefl : ∀ x ∈ located, (memory x.2.kernel).parent ≠ x.2.kernel
  /-- There is no way along the links from a kernel back to it. -/
  acyclic : ∀ y ∈ located.flatMap Located.kernels,
    ¬ Relation.TransGen (fun a b => b ≠ 0 ∧ (memory a).parent = b) y.1 y.1
  /-- A kernel without a parent stays without one. -/
  orphan : ∀ x ∈ located, x.1.k.carried = none → x.parentId = 0 → (memory x.2.kernel).parent = 0

/-- The records from which such links are made. -/
structure Linkable (located : List (Located P)) : Prop where
  /-- The last kernel that has the id of a parent is of the application of the child. -/
  same : ∀ x ∈ located, ∀ y, found located x.parentId = some y → y.1.application = x.application
  /-- There is no way from child to parent back to the child. -/
  acyclic : ∀ a, ¬ Relation.TransGen (FoundAt located) a a
  /-- Where there is a kernel without a parent, there is none without an id. -/
  orphan : ∀ x ∈ located, x.1.k.carried = none → x.parentId = 0 → found located 0 = none

variable {mem : Memory P} {located : List (Located P)} {x : Located P}

theorem map_visitedKernels (located : List (Located P)) :
    (visitedKernels located).map (fun y => y.2.1) = (located.flatMap Located.kernels).map Prod.fst := by
  simp [visitedKernels, List.map_flatMap, Function.comp_def]

theorem mem_visitedKernels {y : Located P × UInt64 × Kernel P} :
    y ∈ visitedKernels located ↔ y.1 ∈ located ∧ y.2 ∈ y.1.kernels := by
  obtain ⟨x, y⟩ := y
  simp only [visitedKernels, List.mem_flatMap, List.mem_map, Prod.mk.injEq]
  constructor
  · rintro ⟨x', hx', y', hy', rfl, rfl⟩
    exact ⟨hx', hy'⟩
  · rintro ⟨hx, hy⟩
    exact ⟨x, hx, y, hy, rfl, rfl⟩

theorem found_mem {id : UInt64} {y : Located P × UInt64 × Kernel P} (h : found located id = some y) :
    y.1 ∈ located ∧ y.2 ∈ y.1.kernels ∧ y.2.2.id = id := by
  obtain ⟨hx, hy⟩ := mem_visitedKernels.mp (List.mem_reverse.mp (List.mem_of_find?_eq_some h))
  exact ⟨hx, hy, by simpa using List.find?_some h⟩

/-- A kernel that has come with its parent finds one. -/
theorem exists_found (hx : x ∈ located) {parent : Kernel P} (hparent : x.1.k.carried = some parent) :
    ∃ y, found located x.parentId = some y := by
  refine Option.isSome_iff_exists.mp (List.find?_isSome.mpr ⟨(x, x.2.carried, parent), ?_, ?_⟩)
  · refine List.mem_reverse.mpr (mem_visitedKernels.mpr ⟨hx, ?_⟩)
    simp [Located.kernels, hparent]
  · simp [Located.parentId, hparent]

/-! ### What has been decoded -/

section Decoded

variable [ByteOrder] {proc : Process P} {k k₀ : Kernel P} {r : Received P} {w w' : List UInt8}

theorem isset_read {hasFilter : Bool} (h : k₀.read hasFilter w = .ok k w') : k.isset .parentIsId = true := by
  refine Returns.after (p := fun k => k.isset .parentIsId = true) ?_ _ _ _ h
  iterate 10 (intro; refine Returns.after ?_)
  intro nodeFilter w k w' h
  cases h
  simp [Kernel.isset]

theorem isset_readKernel {type : KernelType} {hasFilter : Bool}
    (h : proc.readKernel type k₀ hasFilter w = .ok k w') : k.isset .parentIsId = true := by
  obtain ⟨k, w₁, state, hself, rfl⟩ := Process.readKernel_cases h
  exact isset_read (k := k) hself

theorem pointed_readParent (hk : k.isset .parentIsId = true) (h : proc.readParent k w = .ok r w') : r.Pointed := by
  obtain ⟨-, rfl⟩ | ⟨type, parent, w₁, hparent, rfl⟩ := Process.readParent_cases h
  · exact ⟨hk, fun p hp => by cases hp⟩
  · refine ⟨by simp [Kernel.isset], fun p hp => ?_⟩
    cases hp
    exact isset_readKernel hparent

/-- Whatever has been decoded has no pointer but that to the parent that has come with it. -/
theorem pointed_read (h : proc.read w = .ok r w') : r.Pointed := by
  obtain ⟨k₀, hasFilter, k, w₁, w₂, payload, hself, rfl⟩ | ⟨type, k₀, hasFilter, k, w₁, w₂, hkernel, h⟩ :=
    Process.read_cases h
  · exact ⟨isset_read (k := k) hself, fun p hp => by cases hp⟩
  · exact pointed_readParent (isset_readKernel hkernel) h

theorem pointed_of_read {located : List (Located P)} (hread : ∀ x ∈ located, ∃ w w', proc.read w = .ok x.1.k w') :
    ∀ x ∈ located, x.1.k.Pointed := by
  intro x hx
  obtain ⟨w, w', h⟩ := hread x hx
  exact pointed_read h

end Decoded

/-! ### What is in memory -/

namespace Located.Placed

theorem id_eq (h : x.Placed mem) : ∀ y ∈ x.kernels, (mem y.1).id = y.2.id := by
  unfold Located.Placed at h
  cases hparent : x.1.k.carried with
  | none =>
    rw [hparent] at h
    have hself : mem x.2.kernel = x.1.k.kernel := h
    simp [Located.kernels, hparent, hself]
  | some parent =>
    rw [hparent] at h
    obtain ⟨hcarried, hself⟩ := h
    simp [Located.kernels, hparent, hself, hcarried]

theorem parentId_eq (h : x.Placed mem) (hpointed : x.1.k.Pointed) (hslot : x.2.carried ≠ 0) :
    (mem x.2.kernel).parentId mem = x.parentId := by
  have hkernel := hpointed.kernel
  unfold Located.Placed at h
  unfold Located.parentId Kernel.parentId
  cases hparent : x.1.k.carried with
  | none =>
    rw [hparent] at h hkernel
    have hself : mem x.2.kernel = x.1.k.kernel := h
    rw [hself, hkernel]
    rfl
  | some parent =>
    rw [hparent] at h hkernel
    obtain ⟨hcarried, hself⟩ := h
    have hflag : (mem x.2.kernel).isset .parentIsId = false := by
      rw [hself]
      exact hkernel
    rw [hflag, if_neg Bool.false_ne_true, hself]
    dsimp only
    rw [if_neg hslot, hcarried]

end Located.Placed

/-- The map yields the place of the kernel that is found. -/
theorem parentsMap_found (hplaced : ∀ x ∈ located, x.Placed mem) (id : UInt64) :
    parentsMap mem ((located.flatMap Located.kernels).map Prod.fst) id =
      (found located id).map fun y => y.2.1 := by
  rw [parentsMap_eq, ← map_visitedKernels, ← List.map_reverse, List.find?_map, found]
  congr 1
  refine List.find?_congr fun y hy => ?_
  obtain ⟨hx, hy⟩ := mem_visitedKernels.mp (List.mem_reverse.mp hy)
  simp [(hplaced y.1 hx).id_eq y.2 hy]

/-! ### One kernel after another -/

section Fold

variable {parents : UInt64 → Option UInt64} {r : HeldRecord} {records : List HeldRecord} {a : UInt64}

theorem plugRecord_of_ne (h : a ≠ r.k) : plugRecord parents mem r a = mem a := by
  unfold plugRecord
  cases parents ((mem r.k).parentId mem) with
  | none => rfl
  | some p => exact Function.update_of_ne h ..

theorem id_plugRecord (a : UInt64) : (plugRecord parents mem r a).id = (mem a).id := by
  unfold plugRecord
  cases parents ((mem r.k).parentId mem) with
  | none => rfl
  | some p => exact Represents.id_update mem r.k p a

theorem parent_plugRecord_self : (plugRecord parents mem r r.k).parent =
    (parents ((mem r.k).parentId mem)).getD (mem r.k).parent := by
  unfold plugRecord
  cases parents ((mem r.k).parentId mem) with
  | none => rfl
  | some p => simp

/-- Each kernel gets its parent when its turn comes: the turns of the others change nothing about it. -/
theorem parent_foldl (parents : UInt64 → Option UInt64) (mem : Memory P)
    (hnodup : (records.map HeldRecord.k).Nodup) (hr : r ∈ records) :
    (records.foldl (plugRecord parents) mem r.k).parent =
      (parents ((mem r.k).parentId mem)).getD (mem r.k).parent := by
  induction records generalizing mem with
  | nil => cases hr
  | cons r' records ih =>
    obtain ⟨hnot, hnodup⟩ := List.nodup_cons.mp hnodup
    rw [List.foldl_cons]
    rcases List.mem_cons.mp hr with rfl | hr
    · have hother : ∀ r' ∈ records, r.k ≠ r'.k := fun r' hr' heq => hnot (heq ▸ List.mem_map_of_mem hr')
      rw [foldl_plugRecord_of_ne hother, parent_plugRecord_self]
    · have hne : r.k ≠ r'.k := fun heq => hnot (heq ▸ List.mem_map_of_mem hr)
      rw [ih _ hnodup hr, plugRecord_of_ne hne, parentId_congr id_plugRecord]

end Fold

/-! ### The links -/

/-- Every kernel of the records has the parent that is found for it, or none, and the parents that have come with
the kernels have none. -/
structure Linked (memory : Memory P) (located : List (Located P)) : Prop where
  /-- The kernel of a record. -/
  kernel : ∀ x ∈ located, (memory x.2.kernel).parent = ((found located x.parentId).map fun y => y.2.1).getD 0
  /-- The parent that has come with it. -/
  carried : ∀ x ∈ located, ∀ parent, x.1.k.carried = some parent → (memory x.2.carried).parent = 0

section Apart

variable (hapart : Apart (located.map Prod.snd))

include hapart

/-- **What `plug_parents` does.** -/
theorem linked_plugParents (hpointed : ∀ x ∈ located, x.1.k.Pointed) (mem : Memory P) :
    ∃ memory, plugParents 3 (hold mem located) (located.map Located.held) = some memory ∧
      Linked memory located := by
  have hslots : ∀ x ∈ located, x.2.kernel ≠ 0 ∧ x.2.carried ≠ 0 :=
    fun x hx => hapart.ne_zero x.2 (List.mem_map_of_mem hx)
  have hplaced : ∀ x ∈ located, x.Placed (hold mem located) := placed_hold hapart
  have hnodup : ((located.map Located.held).map HeldRecord.k).Nodup := by
    rw [List.Nodup, List.map_map, List.pairwise_map]
    have hpairs := List.pairwise_map.mp hapart.pairwise.1
    exact hpairs
  refine ⟨_, plugParents_foldl hapart hpointed mem, fun x hx => ?_, fun x hx parent hparent => ?_⟩
  · have hself := parent_foldl (parentsMap (hold mem located) ((located.flatMap Located.kernels).map Prod.fst))
      (hold mem located) hnodup (List.mem_map_of_mem (f := Located.held) hx)
    refine hself.trans ?_
    have hid := (hplaced x hx).parentId_eq (hpointed x hx) (hslots x hx).2
    have hheld : x.held.k = x.2.kernel := rfl
    rw [hheld, hid, parentsMap_found hplaced]
    cases hfound : found located x.parentId with
    | some y => rfl
    | none =>
      -- it has not come with its parent, so there is no pointer
      have hnone : x.1.k.carried = none := by
        by_contra hsome
        obtain ⟨parent, hparent⟩ := Option.ne_none_iff_exists'.mp hsome
        obtain ⟨y, hy⟩ := exists_found hx hparent
        rw [hfound] at hy
        cases hy
      simp [(hplaced x hx).parent_eq (hpointed x hx), hnone]
  · rw [foldl_plugRecord_carried hapart hx]
    exact (hplaced x hx).parent_carried (hpointed x hx) hparent

/-- No two records have a place in common. -/
theorem record_eq {y : Located P} (hx : x ∈ located) (hy : y ∈ located) {u v : UInt64 × Kernel P}
    (hu : u ∈ x.kernels) (hv : v ∈ y.kernels) (h : u.1 = v.1) : x = y := by
  by_contra hne
  have hplaces : ∀ {x : Located P} {u : UInt64 × Kernel P}, u ∈ x.kernels → u.1 ∈ [x.2.kernel, x.2.carried] := by
    intro x u hu
    rcases List.mem_cons.mp hu with rfl | hu
    · exact List.mem_cons_self
    · obtain ⟨parent, -, rfl⟩ := List.mem_map.mp hu
      exact List.mem_cons_of_mem _ List.mem_cons_self
  obtain ⟨-, hpairs⟩ := List.nodup_flatMap.mp hapart.nodup
  have hpairs := List.pairwise_map.mp hpairs
  have hsymm : Std.Symm fun x y : Located P =>
      Function.onFun List.Disjoint (fun s : Slot => [s.kernel, s.carried]) x.2 y.2 := ⟨fun _ _ h => h.symm⟩
  have hdisjoint := hpairs.forall hx hy hne
  exact hdisjoint (hplaces hu) (h ▸ hplaces hv)

end Apart

namespace Linked

variable {memory : Memory P} (h : Linked memory located) (hapart : Apart (located.map Prod.snd))

include h

/-- A kernel that is linked is linked to the kernel that is found for it. -/
theorem exists_found (hx : x ∈ located) (hne : (memory x.2.kernel).parent ≠ 0) :
    ∃ y, found located x.parentId = some y ∧ y.2.1 = (memory x.2.kernel).parent := by
  have hself := h.kernel x hx
  cases hfound : found located x.parentId with
  | none =>
    rw [hfound] at hself
    exact absurd hself hne
  | some y =>
    rw [hfound] at hself
    exact ⟨y, rfl, hself.symm⟩

include hapart

/-- A kernel for which another one is found is linked to it. -/
theorem parent_found (hx : x ∈ located) {y : Located P × UInt64 × Kernel P}
    (hy : found located x.parentId = some y) : y.2.1 ≠ 0 ∧ (memory x.2.kernel).parent = y.2.1 := by
  obtain ⟨hrecord, hkernel, -⟩ := found_mem hy
  have hself := h.kernel x hx
  rw [hy] at hself
  exact ⟨ne_zero_of_mem_kernels hapart (List.mem_flatMap.mpr ⟨y.1, hrecord, hkernel⟩), hself⟩

omit hapart in
/-- The links from the kernels of the records are those to the kernels that are found. -/
theorem foundAt {y : UInt64 × Kernel P} (hy : y ∈ located.flatMap Located.kernels)
    (hne : (memory y.1).parent ≠ 0) : FoundAt located y.1 (memory y.1).parent := by
  obtain ⟨x, hx, hy⟩ := List.mem_flatMap.mp hy
  rcases List.mem_cons.mp hy with rfl | hy
  · exact ⟨x, hx, rfl, h.exists_found hx hne⟩
  · obtain ⟨parent, hparent, rfl⟩ := List.mem_map.mp hy
    exact absurd (h.carried x hx parent (Option.mem_toList.mp hparent)) hne

omit hapart in
/-- A way along the links is one along the kernels that are found. -/
theorem transGen_foundAt {a b : UInt64} (ha : ∃ y ∈ located.flatMap Located.kernels, y.1 = a)
    (hway : Relation.TransGen (fun a b => b ≠ 0 ∧ (memory a).parent = b) a b) :
    Relation.TransGen (FoundAt located) a b ∧ ∃ y ∈ located.flatMap Located.kernels, y.1 = b := by
  have hstep : ∀ a b, (∃ y ∈ located.flatMap Located.kernels, y.1 = a) → b ≠ 0 ∧ (memory a).parent = b →
      FoundAt located a b ∧ ∃ y ∈ located.flatMap Located.kernels, y.1 = b := by
    rintro _ _ ⟨y, hy, rfl⟩ ⟨hne, rfl⟩
    obtain ⟨x, hx, hself, z, hz, hplace⟩ := h.foundAt hy hne
    obtain ⟨hrecord, hkernel, -⟩ := found_mem hz
    exact ⟨⟨x, hx, hself, z, hz, hplace⟩, z.2, List.mem_flatMap.mpr ⟨z.1, hrecord, hkernel⟩, hplace⟩
  induction hway with
  | single hlast =>
    obtain ⟨hfound, hplace⟩ := hstep _ _ ha hlast
    exact ⟨.single hfound, hplace⟩
  | tail _ hlast ih =>
    obtain ⟨hway, hplace⟩ := ih
    obtain ⟨hfound, hplace⟩ := hstep _ _ hplace hlast
    exact ⟨hway.tail hfound, hplace⟩

/-- The links that are made from linkable records are what they are to be. -/
theorem wellLinked (hlinkable : Linkable located) : WellLinked memory located := by
  refine ⟨fun x hx hne => ?_, fun x hx heq => ?_, fun y hy hway => ?_, fun x hx hcarried hid => ?_⟩
  · obtain ⟨y, hy, hplace⟩ := h.exists_found hx hne
    obtain ⟨hrecord, hkernel, hid⟩ := found_mem hy
    exact ⟨y.1, hrecord, y.2, hkernel, hplace, hlinkable.same x hx y hy, hid⟩
  · have hne : x.2.kernel ≠ 0 := (hapart.ne_zero x.2 (List.mem_map_of_mem hx)).1
    have hfound := h.exists_found hx (by rwa [heq])
    rw [heq] at hfound
    exact hlinkable.acyclic x.2.kernel (.single ⟨x, hx, rfl, hfound⟩)
  · exact hlinkable.acyclic y.1 (h.transGen_foundAt ⟨y, hy, rfl⟩ hway).1
  · rw [h.kernel x hx, hid, hlinkable.orphan x hx hcarried hid]
    rfl

/-- If the links are what they are to be, they have been made from linkable records. -/
theorem linkable (hwell : WellLinked memory located) : Linkable located := by
  refine ⟨fun x hx y hy => ?_, fun a hway => ?_, fun x hx hcarried hid => ?_⟩
  · obtain ⟨hne, hparent⟩ := h.parent_found hapart hx hy
    obtain ⟨hrecord, hkernel, -⟩ := found_mem hy
    obtain ⟨y', hy', z, hz, hplace, happlication, -⟩ := hwell.same x hx (hparent ▸ hne)
    rw [record_eq hapart hrecord hy' hkernel hz (hparent.symm.trans hplace.symm)]
    exact happlication
  · have hlinks : ∀ a b, FoundAt located a b → b ≠ 0 ∧ (memory a).parent = b := by
      rintro _ _ ⟨x, hx, rfl, y, hy, rfl⟩
      exact h.parent_found hapart hx hy
    obtain ⟨b, ⟨x, hx, rfl, -⟩, -⟩ := Relation.TransGen.head'_iff.mp hway
    exact hwell.acyclic _ (List.mem_flatMap.mpr ⟨x, hx, List.mem_cons_self⟩) (Relation.TransGen.mono hlinks _ _ hway)
  · by_contra hfound
    obtain ⟨y, hy⟩ := Option.ne_none_iff_exists'.mp hfound
    rw [← hid] at hy
    obtain ⟨hne, hparent⟩ := h.parent_found hapart hx hy
    exact hne (hparent.symm.trans (hwell.orphan x hx hcarried hid))

end Linked

/-- **The links of the recovered kernels** are what they are to be if and only if the last kernel that has the id
of a parent is always of the application of the child, no way from child to parent leads back to the child, and
no kernel without an id is there for a kernel without a parent. -/
theorem plug_parents_iff [ByteOrder] (proc : Process P) (mem : Memory P) (located : List (Located P))
    (hapart : Apart (located.map Prod.snd)) (hread : ∀ x ∈ located, ∃ w w', proc.read w = .ok x.1.k w') :
    ∃ memory, plugParents 3 (hold mem located) (located.map Located.held) = some memory ∧
      (WellLinked memory located ↔ Linkable located) := by
  obtain ⟨memory, hplug, hlinked⟩ := linked_plugParents hapart (pointed_of_read hread) mem
  exact ⟨memory, hplug, hlinked.linkable hapart, hlinked.wellLinked hapart⟩

end Links

/-! ### Two applications -/

/-- A kernel of the given application, with no parent at hand. -/
def Kernel.ofApplication (application id parent : UInt64) : Kernel Unit :=
  { Kernel.plain [] with
    sourceApplication := .id application, targetApplication := .id application, id, parentWord := parent,
    flags := KernelFlags.received 0 }

/-- The record of such a kernel, as a process that is not of the application reads it. -/
def Located.ofApplication (application id parent place : UInt64) : Located Unit :=
  (⟨.start, 0, { kernel := (Kernel.ofApplication application id parent).asForeign Memory.blank 2 [] }⟩,
    ⟨place, place + 1⟩)

theorem Located.read_ofApplication [ByteOrder] {application : UInt64} (h : application ≠ 0)
    (id parent place : UInt64) : ∃ w w',
      (Process.plain 0).read w = .ok (Located.ofApplication application id parent place).1.k w' := by
  have hencodable : (Kernel.ofApplication application id parent).Encodable :=
    ⟨trivial, trivial, by simp [Kernel.ofApplication, Kernel.plain], fun e he => nomatch he⟩
  have hread : ReadsAll (Process.plain 0).read ((Kernel.ofApplication application id parent).packet Memory.blank 2 [])
      (Located.ofApplication application id parent place).1.k :=
    Process.read_foreign hencodable h (by decide)
  exact ⟨_, _, hread⟩

/-- A kernel and its child. -/
theorem plug_parents_child :
    letI := ByteOrder.littleEndian
    (∀ x ∈ [Located.ofApplication 7 2 0 16, Located.ofApplication 7 3 2 32],
      ∃ w w', (Process.plain 0).read w = .ok x.1.k w') ∧
    ∃ memory, plugParents 3 (hold Memory.blank [Located.ofApplication 7 2 0 16, Located.ofApplication 7 3 2 32])
        ([Located.ofApplication 7 2 0 16, Located.ofApplication 7 3 2 32].map Located.held) = some memory ∧
      (WellLinked memory [Located.ofApplication 7 2 0 16, Located.ofApplication 7 3 2 32] ↔
        Linkable [Located.ofApplication 7 2 0 16, Located.ofApplication 7 3 2 32]) := by
  let _ := ByteOrder.littleEndian
  have hread : ∀ x ∈ [Located.ofApplication 7 2 0 16, Located.ofApplication 7 3 2 32],
      ∃ w w', (Process.plain 0).read w = .ok x.1.k w' := by
    intro x hx
    rcases List.mem_pair.mp hx with rfl | rfl
    all_goals exact Located.read_ofApplication (by decide) ..
  exact ⟨hread, plug_parents_iff (Process.plain 0) Memory.blank _ ⟨by decide, by decide⟩ hread⟩

/-- **A parent of another application**: the kernel 3 of the application 7 is the child of the kernel 2 of that
application, which is not in the log, and the application 8 has a kernel 2 too. -/
theorem parent_of_another :
    letI := ByteOrder.littleEndian
    (∀ x ∈ [Located.ofApplication 7 3 2 16, Located.ofApplication 8 2 1 32],
      ∃ w w', (Process.plain 0).read w = .ok x.1.k w') ∧
    ∃ memory, plugParents 3 (hold Memory.blank [Located.ofApplication 7 3 2 16, Located.ofApplication 8 2 1 32])
        ([Located.ofApplication 7 3 2 16, Located.ofApplication 8 2 1 32].map Located.held) = some memory ∧
      ¬ WellLinked memory [Located.ofApplication 7 3 2 16, Located.ofApplication 8 2 1 32] := by
  let _ := ByteOrder.littleEndian
  have hread : ∀ x ∈ [Located.ofApplication 7 3 2 16, Located.ofApplication 8 2 1 32],
      ∃ w w', (Process.plain 0).read w = .ok x.1.k w' := by
    intro x hx
    rcases List.mem_pair.mp hx with rfl | rfl
    all_goals exact Located.read_ofApplication (by decide) ..
  have hapart : Apart ([Located.ofApplication 7 3 2 16, Located.ofApplication 8 2 1 32].map Prod.snd) :=
    ⟨by decide, by decide⟩
  obtain ⟨memory, hplug, hlinked⟩ := linked_plugParents hapart (pointed_of_read hread) Memory.blank
  refine ⟨hread, memory, hplug, fun hwell => ?_⟩
  have hsame := (hlinked.linkable hapart hwell).same _ List.mem_cons_self _ rfl
  revert hsame
  decide

end Subordination.Core
