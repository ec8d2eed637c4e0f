import Subordination.Core.BinaryExpressions
import Subordination.Core.ForeignKernel

/-!
# Carried parents

What becomes of the parent that a native kernel carries (`core/kernel_buffer.cc`, `core/kernel.cc`).

## The model

The parent is embedded into the packet without a header. `kernel::write` writes the node filter of the parent
if it has one, but the bit that says so is in the header; whoever reads the parent starts from a new kernel,
whose bit is not set, and does not look for a filter.

## What is proved

* `Process.nodeFilter_carried` — a parent that has been decoded has no node filter.
* `carried_parent_iff` — when a parent comes through with its child.
* `filter_lost` — one that does not.
-/

namespace Subordination.Core

open Library

section Parents

variable {P : Type} [ByteOrder]

/-! ### What is to come through -/

/-- A native kernel of a type that both processes know, whose class writes its state in the one as it reads it
in the other. Its strings are no longer than a length can say. -/
structure KnownToBoth (sender target : Process P) (k : Kernel P) (type : KernelType) (state : P)
    (bs : List UInt8) : Prop where
  /-- The type is registered where the kernel is written. -/
  sent : ∃ types, sender.types = some types ∧ type ∈ types.types
  /-- It is registered where the kernel is read. -/
  read : ∃ types, target.types = some types ∧ type ∈ types.types
  /-- The state of the class. -/
  payload : k.payload = .native type.index state
  /-- It is written. -/
  writes : Writes ((sender.classes type.index).write state) bs
  /-- It is read. -/
  reads : Reads (target.classes type.index).read bs state
  /-- The path. -/
  path : k.path.length < 2 ^ 64
  /-- The source application. -/
  sourceApplication : k.sourceApplication.Fits
  /-- The target application. -/
  targetApplication : k.targetApplication.Fits

/-- The kernel `p'` has all the fields that `kernel::write` writes of `p`, with ids in place of the pointers,
and its payload. -/
structure Kernel.SameFields (mem : Memory P) (p p' : Kernel P) : Prop where
  /-- `_result`. -/
  result : p'.result = p.result
  /-- `_id`. -/
  id : p'.id = p.id
  /-- `_old_id`. -/
  oldId : p'.oldId = p.oldId
  /-- `_at`. -/
  atTime : p'.atTime = p.atTime
  /-- `_flags`, but that the parent and the principal are ids. -/
  flags : p'.flags = p.flags.received
  /-- `parent_id()`. -/
  parentId : p'.parentWord = p.parentId mem
  /-- `principal_id()`. -/
  principalId : p'.principalWord = p.principalId mem
  /-- `_phase`. -/
  phase : p'.phase = p.phase
  /-- `_path`. -/
  path : p'.path = p.path
  /-- `_weight`. -/
  weight : p'.weight = p.weight
  /-- `_node_filter`. -/
  nodeFilter : p'.nodeFilter = p.nodeFilter
  /-- What the class adds. -/
  payload : p'.payload = p.payload

/-- The target decodes what the sender has encoded, to the last byte. -/
def Decodes (sender target : Process P) (mem : Memory P) (k : Kernel P) (r : Received P) : Prop :=
  ∃ wire, Writes (sender.write mem k) wire ∧ ReadsAll target.read wire r

/-- **The parent comes through**: what the target decodes carries a parent with the same fields. -/
def Received.CarriesSame (mem : Memory P) (k : Kernel P) (r : Received P) : Prop :=
  ∃ p', r.carried = some p' ∧ Kernel.SameFields mem (mem k.parent) p'

/-! ### What a decoder does with node filters -/

/-- No filter is read where there is no bit for it. -/
theorem Kernel.nodeFilter_read {k₀ k : Kernel P} {w w' : List UInt8} (h : k₀.read false w = .ok k w') :
    k.nodeFilter = k₀.nodeFilter := by
  refine Returns.after (p := fun k => k.nodeFilter = k₀.nodeFilter) ?_ _ _ _ h
  iterate 9 (intro; refine Returns.after ?_)
  intro weight w k w' h
  obtain ⟨nodeFilter, w₁, hfilter, hk⟩ := bind_ok h
  cases hfilter
  cases hk
  rfl

/-- A node filter that is read back is encodable. -/
theorem Kernel.encodable_of_read {k₀ k k' : Kernel P} {mem : Memory P} {rest w : List UInt8}
    (hpath : k.path.length < 2 ^ 64) (h : k₀.read k.nodeFilter.isSome (k.bytes mem ++ rest) = .ok k' w)
    (hsame : k'.nodeFilter = k.nodeFilter) : ∀ e, k.nodeFilter = some e → e.Encodable := by
  intro e he
  simp only [Kernel.read, Kernel.bytes, he, List.append_assoc, Option.isSome_some] at h
  rw [(reads_u16 k.result.code).bind_apply, (reads_u64 k.id).bind_apply, (reads_u64 k.oldId).bind_apply,
    (reads_u64 k.atTime).bind_apply, (reads_flags (w := 4) k.flags).bind_apply,
    (reads_u64 (k.parentId mem)).bind_apply, (reads_u64 (k.principalId mem)).bind_apply,
    (reads_u8 k.phase.byte).bind_apply, (reads_string hpath).bind_apply, (reads_u32 k.weight).bind_apply] at h
  obtain ⟨nodeFilter, w₁, hfilter, hk⟩ := bind_ok h
  obtain ⟨e', hread, rfl⟩ := map_ok hfilter
  cases hk
  obtain rfl : e' = e := Option.some.inj (hsame.trans he)
  exact Resources.Expression.encodable_of_read hread

namespace Process

variable {proc : Process P}

/-- **A parent that has been decoded has no node filter.** -/
theorem nodeFilter_carried {w w' : List UInt8} {r : Received P} {p : Kernel P} (h : proc.read w = .ok r w')
    (hp : r.carried = some p) : p.nodeFilter = none := by
  obtain ⟨k₀, hasFilter, k, w₁, w₂, payload, -, rfl⟩ | ⟨type, k₀, hasFilter, k, w₁, w₂, -, h⟩ := read_cases h
  · cases hp
  · obtain ⟨-, rfl⟩ | ⟨type, parent, w₃, hparent, rfl⟩ := readParent_cases h
    · cases hp
    · cases hp
      obtain ⟨p, w₄, state, hself, rfl⟩ := readKernel_cases hparent
      exact Kernel.nodeFilter_read hself

/-- A parent changes nothing about the node filter of its child. -/
theorem nodeFilter_readParent {k : Kernel P} {w w' : List UInt8} {r : Received P}
    (h : proc.readParent k w = .ok r w') : r.kernel.nodeFilter = k.nodeFilter := by
  obtain ⟨-, rfl⟩ | ⟨type, parent, w₁, -, rfl⟩ := readParent_cases h
  · rfl
  · rfl

/-- A node filter that the target reads back is encodable. -/
theorem encodable_of_read {mem : Memory P} {k : Kernel P} {typeId : UInt16} {rest w : List UInt8}
    {r : Received P} (hs : k.sourceApplication.Fits) (ht : k.targetApplication.Fits)
    (hpath : k.path.length < 2 ^ 64) (htarget : k.targetApplicationId = proc.thisApplication)
    (h : proc.read (k.packet mem typeId rest) = .ok r w) (hsame : r.kernel.nodeFilter = k.nodeFilter) :
    ∀ e, k.nodeFilter = some e → e.Encodable := by
  have htarget' : ¬ k.sent.targetApplication.toId ≠ proc.thisApplication := by
    rwa [Kernel.targetApplicationId_sent, not_not]
  rw [Kernel.packet, read, (Header.reads hs ht _).bind_apply] at h
  change proc.readBody k.sent k.nodeFilter.isSome _ = _ at h
  rw [readBody, if_neg htarget'] at h
  obtain ⟨type, w₁, hmake, h⟩ := bind_ok h
  cases makeNative_ok hmake
  obtain ⟨k', w₂, hkernel, h⟩ := bind_ok h
  obtain ⟨k'', w₃, state, hself, rfl⟩ := readKernel_cases hkernel
  exact Kernel.encodable_of_read hpath hself ((nodeFilter_readParent h).symm.trans hsame)

end Process

/-! ### When a parent comes through -/

section Iff

variable {sender target : Process P} {mem : Memory P} {k : Kernel P} {type type' : KernelType} {state state' : P}
  {bs bs' : List UInt8}

theorem KnownToBoth.encodable (hk : KnownToBoth sender target k type state bs)
    (hfilter : ∀ e, k.nodeFilter = some e → e.Encodable) : k.Encodable :=
  ⟨hk.sourceApplication, hk.targetApplication, hk.path,
    fun e he => Resources.Expression.survives_of_encodable (hfilter e he)⟩

/-- What the sender writes of a kernel and the parent that it carries. -/
theorem writes_carrier (hk : KnownToBoth sender target k type state bs)
    (hp : KnownToBoth sender target (mem k.parent) type' state' bs') (hcarries : k.carriesParent = true)
    (hparent : k.parent ≠ 0) : Writes (sender.write mem k)
      (k.packet mem type.id (bs ++ (u16Bytes type'.id ++ ((mem k.parent).bytes mem ++ bs')))) := by
  obtain ⟨types, htypes, htype⟩ := hk.sent
  obtain ⟨types', htypes', htype'⟩ := hp.sent
  exact Process.writes_packet htypes htype hk.payload hk.writes
    (Process.writes_parent hcarries hparent (Process.writes_native htypes' htype' hp.payload hp.writes))

/-- **A parent comes through with its child**, and the child with its own node filter, if and only if the parent
has no node filter and that of the child is encodable. A parent that has one does not come through in any case. -/
theorem carried_parent_iff (hk : KnownToBoth sender target k type state bs)
    (hp : KnownToBoth sender target (mem k.parent) type' state' bs') (hcarries : k.carriesParent = true)
    (hparent : k.parent ≠ 0) (htarget : k.targetApplicationId = target.thisApplication) :
    ((∃ r, Decodes sender target mem k r ∧ r.kernel.nodeFilter = k.nodeFilter ∧ r.CarriesSame mem k) ↔
      (mem k.parent).nodeFilter = none ∧ ∀ e, k.nodeFilter = some e → e.Encodable) ∧
    ((∃ r, Decodes sender target mem k r ∧ r.CarriesSame mem k) → (mem k.parent).nodeFilter = none) := by
  have hwrites := writes_carrier hk hp hcarries hparent
  have hnone : ∀ r, Decodes sender target mem k r → r.CarriesSame mem k → (mem k.parent).nodeFilter = none := by
    rintro r ⟨wire, -, hread⟩ ⟨p', hcarried, hsame⟩
    rw [← hsame.nodeFilter]
    exact Process.nodeFilter_carried hread hcarried
  refine ⟨⟨?_, ?_⟩, fun ⟨r, hdecodes, hsame⟩ => hnone r hdecodes hsame⟩
  · rintro ⟨r, hdecodes, hfilter, hsame⟩
    refine ⟨hnone r hdecodes hsame, ?_⟩
    obtain ⟨wire, hwire, hread⟩ := hdecodes
    obtain rfl := hwire.unique hwrites
    exact Process.encodable_of_read hk.sourceApplication hk.targetApplication hk.path htarget hread hfilter
  · rintro ⟨hpfilter, hkfilter⟩
    obtain ⟨types, htypes, htype⟩ := hk.read
    obtain ⟨types', htypes', htype'⟩ := hp.read
    obtain rfl := Option.some.inj (htypes.symm.trans htypes')
    have hp' : (mem k.parent).Encodable := hp.encodable fun e he => by simp [hpfilter] at he
    have hread := Process.read_native_carried (hk.encodable hkfilter) htarget htypes htype hk.reads hcarries
      hp' hpfilter htype' hp.reads
    refine ⟨_, ⟨_, hwrites, hread⟩, rfl, _, rfl, ?_⟩
    exact ⟨rfl, rfl, rfl, rfl, rfl, rfl, rfl, rfl, rfl, rfl, rfl, hp.payload.symm⟩

end Iff

end Parents

/-! ### A filter that is lost -/

/-- A kernel of the plain class with a node filter. -/
def Kernel.filtered : Kernel Unit := { Kernel.plain [] with nodeFilter := some (.symbol 0) }

/-- A kernel that carries the parent at the given address. -/
def Kernel.carrying (p : UInt64) : Kernel Unit :=
  { (Kernel.plain []).setParent p with flags := KernelFlags.setf 0 .carriesParent }

/-- A memory with the given kernel everywhere. -/
def Memory.filled (k : Kernel Unit) : Memory Unit := fun _ => k

theorem knownToBoth_plain [ByteOrder] {k : Kernel Unit} (hpayload : k.payload = .native KernelType.plain.index ())
    (hpath : k.path = []) (hs : k.sourceApplication.Fits) (ht : k.targetApplication.Fits) :
    KnownToBoth (Process.plain 0) (Process.plain 0) k KernelType.plain () [] :=
  ⟨⟨_, rfl, mem_plain⟩, ⟨_, rfl, mem_plain⟩, hpayload, writes_pure, Reads.pure (), by rw [hpath]; decide, hs, ht⟩

/-- A parent without a node filter comes through. -/
theorem carried_parent_plain :
    letI := ByteOrder.littleEndian
    ∃ r, Decodes (Process.plain 0) (Process.plain 0) Memory.blank (Kernel.carrying 1) r ∧
      r.CarriesSame Memory.blank (Kernel.carrying 1) := by
  let _ := ByteOrder.littleEndian
  have hk : KnownToBoth (Process.plain 0) (Process.plain 0) (Kernel.carrying 1) KernelType.plain () [] :=
    knownToBoth_plain rfl rfl trivial trivial
  have hp : KnownToBoth (Process.plain 0) (Process.plain 0) (Memory.blank (Kernel.carrying 1).parent)
      KernelType.plain () [] := knownToBoth_plain rfl rfl trivial trivial
  have h := carried_parent_iff hk hp (by decide) (by decide) rfl
  obtain ⟨r, hdecodes, -, hsame⟩ := h.1.mpr ⟨rfl, fun e he => by cases he⟩
  exact ⟨r, hdecodes, hsame⟩

/-- **The node filter of a parent is lost.** -/
theorem filter_lost :
    letI := ByteOrder.littleEndian
    ¬ ∃ r, Decodes (Process.plain 0) (Process.plain 0) (Memory.filled Kernel.filtered) (Kernel.carrying 1) r ∧
      r.CarriesSame (Memory.filled Kernel.filtered) (Kernel.carrying 1) := by
  let _ := ByteOrder.littleEndian
  rintro ⟨r, ⟨wire, -, hread⟩, p', hcarried, hsame⟩
  have hnone := Process.nodeFilter_carried hread hcarried
  rw [hsame.nodeFilter] at hnone
  cases hnone

end Subordination.Core
