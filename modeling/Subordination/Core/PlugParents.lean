import Subordination.Core.TransactionLog
import Mathlib.Logic.Function.Basic

/-!
# The parents of the kernels in the log

`transaction_log::plug_parents` gives the kernels that have been read from the log their parents
(`core/transaction_log.cc`).

## The model

The kernels that have been read are put in memory, each in a place of its own, and the map of
`plug_parents` is from ids to addresses. The chain of the parents of a kernel that has been read is
short: the parent it carries has been read without a parent of its own.

## What is proved

* `plugParents_eq` — a kernel that carries a parent gets the last kernel in the log that has the id
  of the parent, and nothing else changes.
-/

namespace Subordination.Core

open Library

section PlugParents

variable {P : Type}

/-! ### Kernels in memory -/

/-- Where the kernel of a record and the parent it carries are put. -/
structure Slot where
  /-- The kernel. -/
  kernel : UInt64
  /-- The parent it carries, if it carries one. -/
  carried : UInt64
  deriving DecidableEq

/-- `transaction_record`, with its kernel in memory. -/
structure HeldRecord where
  /-- `status`. -/
  status : TransactionStatus
  /-- `pipeline_index`. -/
  pipelineIndex : UInt32
  /-- `k`. -/
  k : UInt64
  deriving DecidableEq

/-- A record that has been read, and where it is put. -/
abbrev Located (P : Type) := TransactionRecord P × Slot

/-- The record, once its kernel is in memory. -/
def Located.held (x : Located P) : HeldRecord := ⟨x.1.status, x.1.pipelineIndex, x.2.kernel⟩

/-- The memory once the records have been read. -/
def hold (mem : Memory P) : List (Located P) → Memory P
  | [] => mem
  | (r, slot) :: located =>
    let mem := hold mem located
    match r.k.carried with
    | none => Function.update mem slot.kernel r.k.kernel
    | some parent =>
      Function.update (Function.update mem slot.carried parent) slot.kernel
        { r.k.kernel with parentWord := slot.carried }

/-- Every kernel has a place of its own. -/
structure Apart (slots : List Slot) : Prop where
  /-- No two are in one place. -/
  nodup : (slots.flatMap fun s => [s.kernel, s.carried]).Nodup
  /-- The null pointer is no place. -/
  ne_zero : ∀ s ∈ slots, s.kernel ≠ 0 ∧ s.carried ≠ 0

/-! ### Parents -/

/-- The kernel at the given address, its parent, and so on: `while (p) { …; p = p->parent(); }`. The
result is `none` when the fuel does not suffice. -/
def ancestors (mem : Memory P) : ℕ → UInt64 → Option (List UInt64)
  | 0, _ => none
  | fuel + 1, p => if p = 0 then some [] else (ancestors mem fuel (mem p).parent).map (p :: ·)

/-- The first loop of `plug_parents`: the addresses in the order in which they are put in the map. -/
def visited (mem : Memory P) (fuel : ℕ) : List HeldRecord → Option (List UInt64)
  | [] => some []
  | r :: records => do
    let chain ← ancestors mem fuel r.k
    let rest ← visited mem fuel records
    pure (chain ++ rest)

/-- `parents`: a kernel takes the place of an earlier one with the same id. -/
def parentsMap (mem : Memory P) (addresses : List UInt64) : UInt64 → Option UInt64 :=
  addresses.foldl (fun parents p => Function.update parents (mem p).id (some p)) fun _ => none

/-- The inside of the second loop of `plug_parents`. -/
def plugRecord (parents : UInt64 → Option UInt64) (mem : Memory P) (r : HeldRecord) : Memory P :=
  match parents ((mem r.k).parentId mem) with
  | none => mem
  | some p => Function.update mem r.k ((mem r.k).setParent p)

/-- `plug_parents`. -/
def plugParents (fuel : ℕ) (mem : Memory P) (records : List HeldRecord) : Option (Memory P) :=
  (visited mem fuel records).map fun addresses =>
    records.foldl (plugRecord (parentsMap mem addresses)) mem

/-! ### A kernel in memory, and the kernel that has been read -/

theorem parentId_congr {mem mem' : Memory P} (h : ∀ a, (mem' a).id = (mem a).id) (k : Kernel P) :
    k.parentId mem' = k.parentId mem := by
  simp only [Kernel.parentId, h]

/-- The kernel at the given address is the kernel that has been read, but that it may have a pointer
to its parent where that has the id of it. -/
structure Represents (mem : Memory P) (a : UInt64) (k : Kernel P) : Prop where
  /-- Nothing else differs. -/
  same : mem a = { k with parentWord := (mem a).parentWord, flags := (mem a).flags }
  /-- The other flags are the same. -/
  flags : (mem a).flags.received = k.flags.received
  /-- The principal is an id. -/
  principal : (mem a).isset .principalIsId = true
  /-- The parent. -/
  parentId : (mem a).parentId mem = k.parentWord

/-- What becomes of the kernel `k₀` when it reads a kernel whose parent and principal are ids. -/
def Kernel.copied (k₀ k : Kernel P) : Kernel P :=
  { k₀ with
    result := k.result, id := k.id, oldId := k.oldId, atTime := k.atTime,
    parentWord := k.parentWord, principalWord := k.principalWord, phase := k.phase, path := k.path,
    weight := k.weight, nodeFilter := k.nodeFilter,
    flags := k.flags.received }

namespace Represents

variable {mem : Memory P} {a : UInt64} {k : Kernel P}

theorem id_eq (h : Represents mem a k) : (mem a).id = k.id := by rw [h.same]

theorem copyOf_eq (h : Represents mem a k) (k₀ : Kernel P) : Kernel.copyOf mem k₀ (mem a) = k₀.copied k := by
  have hprincipal : (mem a).principalId mem = k.principalWord := by
    rw [Kernel.principalId, if_pos h.principal, h.same]
  rw [Kernel.copyOf, h.flags, h.parentId, hprincipal, h.same]
  rfl

theorem carriesParent (h : Represents mem a k) : (mem a).carriesParent = k.carriesParent := by
  have hflag := congrArg (KernelFlags.isset · .carriesParent) h.flags
  simpa [Kernel.carriesParent, Kernel.isset] using hflag

/-- The kernels keep their ids when one of them gets a parent. -/
theorem id_update (mem : Memory P) (a p b : UInt64) :
    (Function.update mem a ((mem a).setParent p) b).id = (mem b).id := by
  by_cases hb : b = a
  · rw [hb, Function.update_self]
    rfl
  · rw [Function.update_of_ne hb]

/-- A parent with the right id may be put in. -/
theorem setParent {p : UInt64} (h : Represents mem a k) (hp : p ≠ 0) (hid : (mem p).id = k.parentWord) :
    Represents (Function.update mem a ((mem a).setParent p)) a k := by
  have hself : Function.update mem a ((mem a).setParent p) a = (mem a).setParent p := Function.update_self ..
  refine ⟨?_, ?_, ?_, ?_⟩
  · rw [hself, Kernel.setParent]
    conv_lhs => rw [h.same]
  · rw [hself, ← h.flags]
    exact KernelFlags.received_unsetf _
  · rw [hself, Kernel.isset, Kernel.setParent, KernelFlags.isset_unsetf, ← Kernel.isset, h.principal]
    rfl
  · rw [hself, parentId_congr (id_update mem a p), Kernel.parentId]
    have hid' : ((mem a).setParent p).isset .parentIsId = false := by
      simp [Kernel.isset, Kernel.setParent]
    have hword : ((mem a).setParent p).parentWord = p := rfl
    rw [hid', if_neg Bool.false_ne_true, hword, if_neg hp]
    exact hid

/-- The other kernels stay as they are. -/
theorem update_of_ne {b p : UInt64} (h : Represents mem a k) (hab : a ≠ b) :
    Represents (Function.update mem b ((mem b).setParent p)) a k := by
  have hself : Function.update mem b ((mem b).setParent p) a = mem a := Function.update_of_ne hab ..
  refine ⟨?_, ?_, ?_, ?_⟩
  · rw [hself]
    exact h.same
  · rw [hself]
    exact h.flags
  · rw [hself]
    exact h.principal
  · rw [hself, parentId_congr (id_update mem b p)]
    exact h.parentId

/-- A kernel is what it is as long as nothing happens to it, or to the id of its parent. -/
theorem of_agree {mem' : Memory P} (h : Represents mem a k) (ha : mem' a = mem a)
    (hparent : (mem a).isset .parentIsId = false →
      (mem' (mem a).parentWord).id = (mem (mem a).parentWord).id) : Represents mem' a k := by
  refine ⟨?_, ?_, ?_, ?_⟩
  · rw [ha]
    exact h.same
  · rw [ha]
    exact h.flags
  · rw [ha]
    exact h.principal
  · rw [ha, ← h.parentId]
    cases hid : (mem a).isset .parentIsId with
    | true => simp only [Kernel.parentId, hid, if_true]
    | false => simp only [Kernel.parentId, hid, hparent hid]

end Represents

/-- The same, and the pointer, if there is one, is to one of the given kernels. -/
structure Stands (kernels : List (UInt64 × Kernel P)) (mem : Memory P) (a : UInt64) (k : Kernel P) : Prop
    extends Represents mem a k where
  /-- The kernel it points to has the id of the parent. -/
  points : (mem a).isset .parentIsId = false → ∃ k', ((mem a).parentWord, k') ∈ kernels ∧ k'.id = k.parentWord

/-! ### What comes out of the codec -/

/-- The pointers of a kernel that has been read: none, but for that to the parent that has come with
it, where the id of the parent was. -/
inductive Received.Linked : Received P → Prop
  /-- A kernel with its parent. -/
  | carrier {k parent : Kernel P} : k.flags = k.flags.received.unsetf .parentIsId →
      k.parentWord = parent.id → parent.flags = parent.flags.received → Linked ⟨k, some parent⟩
  /-- A kernel without one. -/
  | alone {k : Kernel P} : k.flags = k.flags.received → Linked ⟨k, none⟩

theorem Received.Linked.parentWord {r : Received P} (h : r.Linked) {parent : Kernel P}
    (hparent : r.carried = some parent) : r.kernel.parentWord = parent.id := by
  cases h with
  | carrier hflags hword hparentFlags =>
    cases hparent
    exact hword
  | alone hflags => cases hparent

/-- The pointers of a kernel that has been decoded, whatever it has been decoded from: a pointer to the parent
that has come with it, or none. -/
structure Received.Pointed (r : Received P) : Prop where
  /-- The kernel. -/
  kernel : r.kernel.isset .parentIsId = r.carried.isNone
  /-- The parent. -/
  carried : ∀ parent, r.carried = some parent → parent.isset .parentIsId = true

theorem Received.Linked.pointed {r : Received P} (h : r.Linked) : r.Pointed := by
  cases h with
  | carrier hflags hword hparentFlags =>
    refine ⟨?_, fun parent hparent => ?_⟩
    · rw [Kernel.isset, hflags]
      simp
    · cases hparent
      rw [Kernel.isset, hparentFlags]
      simp
  | alone hflags =>
    refine ⟨?_, fun parent hparent => by cases hparent⟩
    rw [Kernel.isset, hflags]
    simp

/-! ### The kernels of the log in memory -/

variable {mem : Memory P}

/-- The kernels of a record that has been read. -/
def TransactionRecord.kernels (r : TransactionRecord P) : List (Kernel P) :=
  r.k.kernel :: r.k.carried.toList

/-- The same, each with its place. -/
def Located.kernels (x : Located P) : List (UInt64 × Kernel P) :=
  (x.2.kernel, x.1.k.kernel) :: x.1.k.carried.toList.map fun parent => (x.2.carried, parent)

/-- The kernels of the record are in their places. -/
def Located.Placed (mem : Memory P) (x : Located P) : Prop :=
  match x.1.k.carried with
  | none => mem x.2.kernel = x.1.k.kernel
  | some parent =>
    mem x.2.carried = parent ∧ mem x.2.kernel = { x.1.k.kernel with parentWord := x.2.carried }

theorem Located.Placed.congr {mem' : Memory P} {x : Located P} (h : x.Placed mem)
    (hkernel : mem' x.2.kernel = mem x.2.kernel) (hcarried : mem' x.2.carried = mem x.2.carried) :
    x.Placed mem' := by
  rw [Located.Placed] at h ⊢
  rw [hkernel, hcarried]
  exact h

theorem hold_cons_of_ne {r : TransactionRecord P} {slot : Slot} {located : List (Located P)} {a : UInt64}
    (hkernel : a ≠ slot.kernel) (hcarried : a ≠ slot.carried) :
    hold mem ((r, slot) :: located) a = hold mem located a := by
  rw [hold]
  cases r.k.carried with
  | none => exact Function.update_of_ne hkernel ..
  | some parent => exact (Function.update_of_ne hkernel ..).trans (Function.update_of_ne hcarried ..)

theorem placed_hold {located : List (Located P)} (h : Apart (located.map Prod.snd)) :
    ∀ x ∈ located, x.Placed (hold mem located) := by
  obtain ⟨hnodup, -⟩ := h
  induction located with
  | nil => exact fun x hx => nomatch hx
  | cons x located ih =>
    obtain ⟨r, slot⟩ := x
    rw [List.map_cons, List.flatMap_cons, List.nodup_append] at hnodup
    obtain ⟨hslot, hrest, hdisjoint⟩ := hnodup
    have hne : slot.kernel ≠ slot.carried := by simpa using hslot
    intro y hy
    rcases List.mem_cons.mp hy with rfl | hy
    · rw [Located.Placed, hold]
      dsimp only
      cases r.k.carried with
      | none => exact Function.update_self ..
      | some parent =>
        exact ⟨(Function.update_of_ne hne.symm ..).trans (Function.update_self ..), Function.update_self ..⟩
    · have hplaces : ∀ a ∈ [y.2.kernel, y.2.carried], a ≠ slot.kernel ∧ a ≠ slot.carried := by
        intro a ha
        have hmem : a ∈ (located.map Prod.snd).flatMap fun s => [s.kernel, s.carried] :=
          List.mem_flatMap.mpr ⟨y.2, List.mem_map_of_mem hy, ha⟩
        exact ⟨(hdisjoint _ List.mem_cons_self _ hmem).symm,
          (hdisjoint _ (List.mem_cons_of_mem _ List.mem_cons_self) _ hmem).symm⟩
      obtain ⟨h1, h2⟩ := hplaces y.2.kernel List.mem_cons_self
      obtain ⟨h3, h4⟩ := hplaces y.2.carried (List.mem_cons_of_mem _ List.mem_cons_self)
      exact (ih hrest y hy).congr (hold_cons_of_ne h1 h2) (hold_cons_of_ne h3 h4)

/-- A kernel whose parent is an id is in its place. -/
theorem represents_of_eq {a : UInt64} {k : Kernel P} (h : mem a = k) (hflags : k.flags = k.flags.received) :
    Represents mem a k := by
  have hid : ∀ f, k.isset f = k.flags.received.isset f := by
    intro f
    rw [Kernel.isset, ← hflags]
  refine ⟨?_, ?_, ?_, ?_⟩
  · rw [h]
  · rw [h]
  · rw [h, hid]
    simp
  · rw [h, Kernel.parentId, hid]
    simp

/-- A kernel whose parent has come with it is in its place, if the parent is. -/
theorem represents_of_carrier {a p : UInt64} {k parent : Kernel P} (h : mem a = { k with parentWord := p })
    (hflags : k.flags = k.flags.received.unsetf .parentIsId) (hp : p ≠ 0) (hparent : mem p = parent)
    (hword : k.parentWord = parent.id) : Represents mem a k := by
  have hid : ∀ f, (mem a).isset f = (k.flags.received.unsetf .parentIsId).isset f := by
    intro f
    rw [h, Kernel.isset, ← hflags]
  refine ⟨?_, ?_, ?_, ?_⟩
  · rw [h]
  · rw [h]
  · rw [hid]
    simp
  · have hflag : (mem a).isset .parentIsId = false := by
      rw [hid]
      simp
    rw [Kernel.parentId, hflag, if_neg Bool.false_ne_true, h]
    dsimp only
    rw [if_neg hp, hparent, hword]

section Placed

variable {x : Located P}

theorem Located.Placed.stands (h : x.Placed mem) (hlinked : x.1.k.Linked) (hslot : x.2.carried ≠ 0) :
    ∀ y ∈ x.kernels, Stands x.kernels mem y.1 y.2 := by
  obtain ⟨⟨status, pipelineIndex, k⟩, slot⟩ := x
  -- A kernel that has no parent with it points nowhere.
  have hnone : ∀ a (k : Kernel P), mem a = k → k.flags = k.flags.received → (mem a).isset .parentIsId = true := by
    intro a k ha hflags
    rw [ha, Kernel.isset, hflags]
    simp
  cases hlinked with
  | @carrier k parent hflags hword hparentFlags =>
    obtain ⟨hparent, hself⟩ := h
    intro y hy
    rcases List.mem_pair.mp hy with rfl | rfl
    · refine ⟨represents_of_carrier hself hflags hslot hparent hword, fun _ => ⟨parent, ?_, hword.symm⟩⟩
      dsimp only at hself ⊢
      rw [hself]
      exact List.mem_cons_of_mem _ List.mem_cons_self
    · refine ⟨represents_of_eq hparent hparentFlags, fun hid => ?_⟩
      exact absurd (hid.symm.trans (hnone _ _ hparent hparentFlags)) Bool.false_ne_true
  | alone hflags =>
    intro y hy
    rw [List.mem_singleton.mp hy]
    refine ⟨represents_of_eq h hflags, fun hid => ?_⟩
    exact absurd (hid.symm.trans (hnone _ _ h hflags)) Bool.false_ne_true

theorem parent_of_isset {k : Kernel P} (h : k.isset .parentIsId = true) : k.parent = 0 := by
  rw [Kernel.parent, if_pos h]

/-- Only a kernel that has come with its parent has a pointer to it. -/
theorem Located.Placed.parent_eq (h : x.Placed mem) (hpointed : x.1.k.Pointed) :
    (mem x.2.kernel).parent = if x.1.k.carried.isSome then x.2.carried else 0 := by
  obtain ⟨⟨status, pipelineIndex, ⟨k, carried⟩⟩, slot⟩ := x
  have hkernel := hpointed.kernel
  cases carried with
  | none =>
    have hself : mem slot.kernel = k := h
    dsimp only at hkernel ⊢
    rw [hself]
    exact parent_of_isset hkernel
  | some parent =>
    obtain ⟨-, hself⟩ := h
    dsimp only at hkernel hself ⊢
    rw [hself, Kernel.parent, Kernel.isset]
    rw [Kernel.isset] at hkernel
    simp [hkernel]

theorem Located.Placed.parent_carried (h : x.Placed mem) (hpointed : x.1.k.Pointed) {parent : Kernel P}
    (hparent : x.1.k.carried = some parent) : (mem x.2.carried).parent = 0 := by
  rw [Located.Placed, hparent] at h
  rw [h.1]
  exact parent_of_isset (hpointed.carried parent hparent)

/-- The chain from a kernel that has been read: the kernel, and the parent that came with it. -/
theorem Located.Placed.ancestors (h : x.Placed mem) (hpointed : x.1.k.Pointed) (hkernel : x.2.kernel ≠ 0)
    (hcarried : x.2.carried ≠ 0) : ancestors mem 3 x.2.kernel = some (x.kernels.map Prod.fst) := by
  rw [Core.ancestors, if_neg hkernel, h.parent_eq hpointed]
  cases hparent : x.1.k.carried with
  | none =>
    rw [Option.isSome_none, if_neg Bool.false_ne_true, Core.ancestors, if_pos rfl]
    simp [Located.kernels, hparent]
  | some parent =>
    rw [Option.isSome_some, if_pos rfl, Core.ancestors, if_neg hcarried, h.parent_carried hpointed hparent,
      Core.ancestors, if_pos rfl]
    simp [Located.kernels, hparent]

end Placed

/-! ### The map -/

/-- The last of the addresses with the given id. -/
theorem parentsMap_eq (addresses : List UInt64) (id : UInt64) :
    parentsMap mem addresses id = addresses.reverse.find? fun p => (mem p).id == id := by
  suffices h : ∀ parents : UInt64 → Option UInt64,
      addresses.foldl (fun parents p => Function.update parents (mem p).id (some p)) parents id =
        (addresses.reverse.find? fun p => (mem p).id == id).or (parents id) by
    rw [parentsMap, h, Option.or_none]
  induction addresses with
  | nil => exact fun parents => rfl
  | cons p addresses ih =>
    intro parents
    rw [List.foldl_cons, ih, List.reverse_cons, List.find?_append, Option.or_assoc]
    congr 1
    by_cases hid : (mem p).id = id
    · rw [← hid, Function.update_self]
      simp
    · rw [Function.update_of_ne (Ne.symm hid)]
      simp [hid]

/-- The last kernel in the log with the given id. -/
def lastKernel (records : List (TransactionRecord P)) (id : UInt64) : Option (Kernel P) :=
  (records.flatMap TransactionRecord.kernels).reverse.find? fun k => k.id == id

theorem exists_lastKernel {records : List (TransactionRecord P)} {r : TransactionRecord P} {k : Kernel P}
    (hr : r ∈ records) (hk : k ∈ r.kernels) : ∃ q, lastKernel records k.id = some q := by
  refine Option.isSome_iff_exists.mp (List.find?_isSome.mpr ⟨k, ?_, beq_self_eq_true _⟩)
  exact List.mem_reverse.mpr (List.mem_flatMap.mpr ⟨r, hr, hk⟩)

theorem map_snd_kernels (located : List (Located P)) : (located.flatMap Located.kernels).map Prod.snd =
    (located.map Prod.fst).flatMap TransactionRecord.kernels := by
  rw [List.map_flatMap, List.flatMap_map]
  congr 1
  funext x
  simp [Located.kernels, TransactionRecord.kernels]

/-- The map yields the place of the last kernel in the log with the given id. -/
theorem parentsMap_kernels {located : List (Located P)}
    (h : ∀ y ∈ located.flatMap Located.kernels, Represents mem y.1 y.2) (id : UInt64) :
    ∃ found : Option (UInt64 × Kernel P),
      parentsMap mem ((located.flatMap Located.kernels).map Prod.fst) id = found.map Prod.fst ∧
      lastKernel (located.map Prod.fst) id = found.map Prod.snd ∧
      ∀ y, found = some y → y ∈ located.flatMap Located.kernels ∧ y.2.id = id := by
  refine ⟨(located.flatMap Located.kernels).reverse.find? fun y => y.2.id == id, ?_, ?_, ?_⟩
  · rw [parentsMap_eq, ← List.map_reverse, List.find?_map]
    rw [← List.head?_filter, ← List.head?_filter]
    congr 2
    refine List.filter_congr fun y hy => ?_
    have hid := (h y (List.mem_reverse.mp hy)).id_eq
    simp only [Function.comp_apply, hid]
  · rw [lastKernel, ← map_snd_kernels, ← List.map_reverse, List.find?_map]
    rfl
  · intro y hy
    exact ⟨List.mem_reverse.mp (List.mem_of_find?_eq_some hy), by simpa using List.find?_some hy⟩

theorem visited_eq {located : List (Located P)} (hpointed : ∀ x ∈ located, x.1.k.Pointed)
    (hslots : ∀ x ∈ located, x.2.kernel ≠ 0 ∧ x.2.carried ≠ 0) (hplaced : ∀ x ∈ located, x.Placed mem) :
    visited mem 3 (located.map Located.held) = some ((located.flatMap Located.kernels).map Prod.fst) := by
  induction located with
  | nil => rfl
  | cons x located ih =>
    obtain ⟨hkernel, hcarried⟩ := hslots x List.mem_cons_self
    have hchain : ancestors mem 3 x.held.k = some (x.kernels.map Prod.fst) :=
      (hplaced x List.mem_cons_self).ancestors (hpointed x List.mem_cons_self) hkernel hcarried
    have hrest := ih (fun y hy => hpointed y (List.mem_cons_of_mem x hy))
      (fun y hy => hslots y (List.mem_cons_of_mem x hy)) fun y hy => hplaced y (List.mem_cons_of_mem x hy)
    rw [List.map_cons, visited, hchain, hrest, List.flatMap_cons, List.map_append]
    rfl

/-! ### The second loop -/

section Plug

variable {kernels : List (UInt64 × Kernel P)} {parents : UInt64 → Option UInt64}

/-- What the map yields is the place of a kernel with the id. -/
def Finds (kernels : List (UInt64 × Kernel P)) (parents : UInt64 → Option UInt64) : Prop :=
  ∀ id p, parents id = some p → p ≠ 0 ∧ ∃ k, (p, k) ∈ kernels ∧ k.id = id

/-- The kernels stay what they are when one of them gets its parent. -/
theorem Stands.plugRecord (hfinds : Finds kernels parents) (h : ∀ y ∈ kernels, Stands kernels mem y.1 y.2)
    {r : HeldRecord} {k : Kernel P} (hr : (r.k, k) ∈ kernels) :
    ∀ y ∈ kernels, Stands kernels (plugRecord parents mem r) y.1 y.2 := by
  intro y hy
  have hword := (h _ hr).parentId
  have hy' := h y hy
  rw [Core.plugRecord, hword]
  cases hp : parents k.parentWord with
  | none => exact hy'
  | some p =>
    obtain ⟨hne, k', hk', hid⟩ := hfinds _ _ hp
    by_cases hself : y.1 = r.k
    · have hsame : y.2.parentWord = k.parentWord := by
        rw [← hy'.parentId, hself]
        exact hword
      rw [← hself]
      refine ⟨hy'.setParent hne ?_, fun _ => ⟨k', ?_, hid.trans hsame.symm⟩⟩
      · rw [(h _ hk').id_eq, hid, hsame]
      · dsimp only
        rw [Function.update_self]
        exact hk'
    · refine ⟨hy'.update_of_ne hself, ?_⟩
      dsimp only
      rw [Function.update_of_ne hself]
      exact hy'.points

/-- A kernel whose parent is found gets it. -/
theorem parent_plugRecord (h : ∀ y ∈ kernels, Stands kernels mem y.1 y.2) {r : HeldRecord} {k : Kernel P}
    (hr : (r.k, k) ∈ kernels) {p : UInt64} (hp : parents k.parentWord = some p) :
    (plugRecord parents mem r r.k).parent = p := by
  rw [plugRecord, (h _ hr).parentId, hp]
  dsimp only
  rw [Function.update_self, Kernel.parent_setParent]

/-- A kernel that has got its parent keeps it. -/
theorem parent_plugRecord_of_parent (h : ∀ y ∈ kernels, Stands kernels mem y.1 y.2) {r : HeldRecord}
    {k k' : Kernel P} (hr : (r.k, k) ∈ kernels) {a p : UInt64} (ha : (a, k') ∈ kernels)
    (hp : parents k'.parentWord = some p) (hparent : (mem a).parent = p) :
    (plugRecord parents mem r a).parent = p := by
  by_cases hself : a = r.k
  · have hsame : k.parentWord = k'.parentWord := by
      rw [← (h _ hr).parentId, ← (h _ ha).parentId, hself]
    rw [← hsame] at hp
    rw [hself]
    exact parent_plugRecord h hr hp
  · rw [plugRecord]
    cases parents ((mem r.k).parentId mem) with
    | none => exact hparent
    | some p' =>
      dsimp only
      rw [Function.update_of_ne hself]
      exact hparent

/-- Every kernel of the records gets the parent that is found for it. -/
theorem foldl_plugRecord (hfinds : Finds kernels parents) {records : List HeldRecord}
    (hrecords : ∀ r ∈ records, ∃ k, (r.k, k) ∈ kernels) (h : ∀ y ∈ kernels, Stands kernels mem y.1 y.2) :
    (∀ y ∈ kernels, Stands kernels (records.foldl (plugRecord parents) mem) y.1 y.2) ∧
      ∀ a k p, (a, k) ∈ kernels → parents k.parentWord = some p →
        (∃ r ∈ records, r.k = a) ∨ (mem a).parent = p →
        (records.foldl (plugRecord parents) mem a).parent = p := by
  induction records generalizing mem with
  | nil =>
    refine ⟨h, ?_⟩
    rintro a k p ha hp (⟨r, hr, -⟩ | hparent)
    · cases hr
    · exact hparent
  | cons r records ih =>
    obtain ⟨k, hk⟩ := hrecords r List.mem_cons_self
    have hstep := Stands.plugRecord hfinds h hk
    obtain ⟨hall, hgets⟩ := ih (fun r' hr' => hrecords r' (List.mem_cons_of_mem r hr')) hstep
    refine ⟨hall, ?_⟩
    rintro a k' p ha hp (⟨r', hr', rfl⟩ | hparent)
    · rcases List.mem_cons.mp hr' with rfl | hr'
      · exact hgets _ _ _ ha hp (Or.inr (parent_plugRecord h ha hp))
      · exact hgets _ _ _ ha hp (Or.inl ⟨r', hr', rfl⟩)
    · exact hgets _ _ _ ha hp (Or.inr (parent_plugRecord_of_parent h hk ha hp hparent))

/-- Nothing happens where no record has its kernel. -/
theorem foldl_plugRecord_of_ne {records : List HeldRecord} {a : UInt64} (ha : ∀ r ∈ records, a ≠ r.k) :
    records.foldl (plugRecord parents) mem a = mem a := by
  induction records generalizing mem with
  | nil => rfl
  | cons r records ih =>
    rw [List.foldl_cons, ih fun r' hr' => ha r' (List.mem_cons_of_mem r hr'), plugRecord]
    cases parents ((mem r.k).parentId mem) with
    | none => rfl
    | some p => exact Function.update_of_ne (ha r List.mem_cons_self) ..

end Plug

/-! ### Both -/

/-- The kernels of two records are in two places, and no parent that has come with a kernel is in
either. -/
theorem Apart.pairwise {slots : List Slot} (h : Apart slots) :
    slots.Pairwise (fun s s' => s.kernel ≠ s'.kernel) ∧ ∀ s ∈ slots, ∀ s' ∈ slots, s.carried ≠ s'.kernel := by
  obtain ⟨hnodup, -⟩ := h
  obtain ⟨hself, hpairs⟩ := List.nodup_flatMap.mp hnodup
  refine ⟨hpairs.imp fun hdisjoint heq => ?_, ?_⟩
  · exact hdisjoint List.mem_cons_self (heq ▸ List.mem_cons_self)
  · refine List.Pairwise.forall_of_forall_of_flip ?_ ?_ ?_
    · intro s hs heq
      have hne : s.kernel ≠ s.carried := by simpa using hself s hs
      exact hne heq.symm
    · refine hpairs.imp fun hdisjoint heq => ?_
      exact hdisjoint (List.mem_cons_of_mem _ List.mem_cons_self) (heq ▸ List.mem_cons_self)
    · refine hpairs.imp fun hdisjoint heq => ?_
      exact hdisjoint List.mem_cons_self (heq ▸ List.mem_cons_of_mem _ List.mem_cons_self)

/-- No kernel is at the null pointer. -/
theorem ne_zero_of_mem_kernels {located : List (Located P)} (hapart : Apart (located.map Prod.snd))
    {y : UInt64 × Kernel P} (hy : y ∈ located.flatMap Located.kernels) : y.1 ≠ 0 := by
  obtain ⟨x, hx, hy⟩ := List.mem_flatMap.mp hy
  have hslot := hapart.ne_zero x.2 (List.mem_map_of_mem hx)
  rcases List.mem_cons.mp hy with rfl | hy
  · exact hslot.1
  · obtain ⟨parent, -, rfl⟩ := List.mem_map.mp hy
    exact hslot.2

/-- `plug_parents` is its second loop, with the map of all kernels of the log. -/
theorem plugParents_foldl {located : List (Located P)} (hapart : Apart (located.map Prod.snd))
    (hpointed : ∀ x ∈ located, x.1.k.Pointed) (mem : Memory P) :
    plugParents 3 (hold mem located) (located.map Located.held) =
      some ((located.map Located.held).foldl (plugRecord (parentsMap (hold mem located)
        ((located.flatMap Located.kernels).map Prod.fst))) (hold mem located)) := by
  have hslots : ∀ x ∈ located, x.2.kernel ≠ 0 ∧ x.2.carried ≠ 0 :=
    fun x hx => hapart.ne_zero x.2 (List.mem_map_of_mem hx)
  rw [plugParents, visited_eq hpointed hslots (placed_hold hapart)]
  rfl

/-- That loop leaves alone the parents that have come with the kernels. -/
theorem foldl_plugRecord_carried {located : List (Located P)} (hapart : Apart (located.map Prod.snd))
    {x : Located P} (hx : x ∈ located) (parents : UInt64 → Option UInt64) :
    (located.map Located.held).foldl (plugRecord parents) mem x.2.carried = mem x.2.carried := by
  refine foldl_plugRecord_of_ne fun r hr => ?_
  obtain ⟨x', hx', rfl⟩ := List.mem_map.mp hr
  exact hapart.pairwise.2 _ (List.mem_map_of_mem hx) _ (List.mem_map_of_mem hx')

/-- The kernels that have just been read stand where they have been put. -/
theorem stands_hold {located : List (Located P)} (hapart : Apart (located.map Prod.snd))
    (hlinked : ∀ x ∈ located, x.1.k.Linked) (mem : Memory P) {y : UInt64 × Kernel P}
    (hy : y ∈ located.flatMap Located.kernels) :
    Stands (located.flatMap Located.kernels) (hold mem located) y.1 y.2 := by
  obtain ⟨x, hx, hy⟩ := List.mem_flatMap.mp hy
  have hslot := hapart.ne_zero x.2 (List.mem_map_of_mem hx)
  obtain ⟨hrepresents, hpoints⟩ := (placed_hold hapart x hx).stands (hlinked x hx) hslot.2 y hy
  refine ⟨hrepresents, fun hid => ?_⟩
  obtain ⟨k', hk', hword⟩ := hpoints hid
  exact ⟨k', List.mem_flatMap.mpr ⟨x, hx, hk'⟩, hword⟩

/-- **What `plug_parents` does**: a kernel that carries a parent gets the last kernel in the log that
has the id of the parent, and nothing else changes. -/
theorem plugParents_eq {located : List (Located P)} (hapart : Apart (located.map Prod.snd))
    (hlinked : ∀ x ∈ located, x.1.k.Linked) (mem : Memory P) :
    ∃ memory, plugParents 3 (hold mem located) (located.map Located.held) = some memory ∧
      (∀ y ∈ located.flatMap Located.kernels, Stands (located.flatMap Located.kernels) memory y.1 y.2) ∧
      ∀ x ∈ located, ∀ parent, x.1.k.carried = some parent → ∃ q,
        lastKernel (located.map Prod.fst) parent.id = some q ∧ (memory x.2.kernel).parent ≠ 0 ∧
          ((memory x.2.kernel).parent, q) ∈ located.flatMap Located.kernels ∧ memory x.2.carried = parent := by
  have hheld : ∀ y ∈ located.flatMap Located.kernels,
      Stands (located.flatMap Located.kernels) (hold mem located) y.1 y.2 :=
    fun y hy => stands_hold hapart hlinked mem hy
  have hne : ∀ y ∈ located.flatMap Located.kernels, y.1 ≠ 0 := fun y hy => ne_zero_of_mem_kernels hapart hy
  have hmap := parentsMap_kernels fun y hy => (hheld y hy).toRepresents
  have hfinds : Finds (located.flatMap Located.kernels)
      (parentsMap (hold mem located) ((located.flatMap Located.kernels).map Prod.fst)) := by
    intro id p hp
    obtain ⟨found, hfound, -, hmem⟩ := hmap id
    obtain ⟨y, rfl, rfl⟩ := Option.map_eq_some_iff.mp (hfound.symm.trans hp)
    obtain ⟨hy, hid⟩ := hmem y rfl
    exact ⟨hne y hy, y.2, hy, hid⟩
  have hself : ∀ x ∈ located, (x.2.kernel, x.1.k.kernel) ∈ located.flatMap Located.kernels :=
    fun x hx => List.mem_flatMap.mpr ⟨x, hx, List.mem_cons_self⟩
  have hrecords : ∀ r ∈ located.map Located.held, ∃ k, (r.k, k) ∈ located.flatMap Located.kernels := by
    intro r hr
    obtain ⟨x, hx, rfl⟩ := List.mem_map.mp hr
    exact ⟨_, hself x hx⟩
  obtain ⟨hall, hgets⟩ := foldl_plugRecord hfinds hrecords hheld
  refine ⟨_, plugParents_foldl hapart (fun x hx => (hlinked x hx).pointed) mem, hall, ?_⟩
  · intro x hx parent hparent
    have hword := (hlinked x hx).parentWord hparent
    have hkernel : parent ∈ x.1.kernels := by
      rw [TransactionRecord.kernels, hparent]
      exact List.mem_cons_of_mem _ List.mem_cons_self
    obtain ⟨q, hq⟩ := exists_lastKernel (List.mem_map_of_mem (f := Prod.fst) hx) hkernel
    obtain ⟨found, hfound, hlast, hmem⟩ := hmap parent.id
    obtain ⟨y, rfl, rfl⟩ := Option.map_eq_some_iff.mp (hlast.symm.trans hq)
    obtain ⟨hy, -⟩ := hmem y rfl
    rw [← hword] at hfound
    have hgot := hgets _ _ _ (hself x hx) hfound (Or.inl ⟨x.held, List.mem_map_of_mem hx, rfl⟩)
    rw [hgot]
    refine ⟨y.2, hq, hne y hy, hy, ?_⟩
    rw [foldl_plugRecord_carried hapart hx]
    have hplaced : x.Placed (hold mem located) := placed_hold hapart x hx
    rw [Located.Placed, hparent] at hplaced
    exact hplaced.1

end PlugParents

end Subordination.Core
