import Subordination.Core.KernelBuffer
import Subordination.Core.Vectors

/-!
# The status of the pipelines

The kernel that tells `sbnc` what the pipelines of a daemon hold
(`daemon/pipeline_status_kernel.cc`, `daemon/pipeline_status_kernel.hh`): the connections of each
pipeline with their kernels, and the kernels that wait in the pipeline itself. The latter have a
field in the record and are not written.

## The model

The records are those of the source, and the kernel is a `KernelClass`: it writes and reads its
records after `kernel::write` and `kernel::read`. Every element of a vector is read into a new
record, so that it does not matter what was there before.

## What is proved

* `Pipeline.readsExactly`: a pipeline is read back if no kernel waits in it.
* **`pipelineStatusKernel_roundTrips_iff`**: which lists of pipelines and which applications are
  read back.
* `pipelineStatusKernel_roundTrips_fails`: a kernel that waits in its pipeline gets lost, and so
  does the wish to wait for an application.
-/

namespace Subordination.Daemon

open Subordination.Core Subordination.Library

namespace PipelineStatusKernel

/-- `Pipeline_status_kernel::Kernel`. -/
structure Kernel where
  /-- `id`. -/
  id : UInt64
  /-- `type_id`. -/
  typeId : UInt16
  /-- `source_application_id`. -/
  sourceApplicationId : UInt64
  /-- `target_application_id`. -/
  targetApplicationId : UInt64
  /-- `source`. -/
  source : SocketAddress
  /-- `destination`. -/
  destination : SocketAddress
  deriving DecidableEq

/-- `Pipeline_status_kernel::Connection`. -/
structure Connection where
  /-- `address`. -/
  address : SocketAddress
  /-- `kernels`. -/
  kernels : List Kernel
  deriving DecidableEq

/-- `Pipeline_status_kernel::Pipeline`. -/
structure Pipeline where
  /-- `name`. -/
  name : List UInt8
  /-- `connections`. -/
  connections : List Connection
  /-- `kernels`. -/
  kernels : List Kernel
  deriving DecidableEq

/-- The connection has a number of kernels that fits 32 bits. -/
def Connection.Fits (c : Connection) : Prop := c.kernels.length < 2 ^ 32

/-- The lengths in the pipeline fit the bits that are written for them, and no kernel waits in it. -/
structure Pipeline.IsShown (p : Pipeline) : Prop where
  /-- The length of the name. -/
  name : p.name.length < 2 ^ 64
  /-- The number of connections. -/
  length_connections : p.connections.length < 2 ^ 32
  /-- The connections. -/
  connections : ∀ c ∈ p.connections, c.Fits
  /-- The kernels of the pipeline. -/
  kernels : p.kernels = []

section Wire

variable [ByteOrder]

/-- `operator<<` of a kernel. -/
def Kernel.bytes (k : Kernel) : List UInt8 :=
  u64Bytes k.id ++ (u16Bytes k.typeId ++ (u64Bytes k.sourceApplicationId ++ (u64Bytes k.targetApplicationId ++
    (k.source.wire ++ k.destination.wire))))

/-- `operator>>` of a kernel. -/
def Kernel.read : ReadM Kernel := do
  let id ← readU64
  let typeId ← readU16
  let sourceApplicationId ← readU64
  let targetApplicationId ← readU64
  let source ← SocketAddress.unset.readOver
  let destination ← SocketAddress.unset.readOver
  pure { id, typeId, sourceApplicationId, targetApplicationId, source, destination }

/-- `operator<<` of a connection. -/
def Connection.bytes (c : Connection) : List UInt8 := c.address.wire ++ vectorOf Kernel.bytes c.kernels

/-- `operator>>` of a connection. -/
def Connection.read : ReadM Connection := do
  let address ← SocketAddress.unset.readOver
  let kernels ← readVectorOf Kernel.read
  pure { address, kernels }

/-- `operator<<` of a pipeline. -/
def Pipeline.bytes (p : Pipeline) : List UInt8 := stringBytes p.name ++ vectorOf Connection.bytes p.connections

/-- `operator>>` of a pipeline: the kernels of a new record stay as they are. -/
def Pipeline.read : ReadM Pipeline := do
  let name ← readString
  let connections ← readVectorOf Connection.read
  pure { name, connections, kernels := [] }

/-- An address is read back into a new one. -/
theorem reads_address (a : SocketAddress) : Reads SocketAddress.unset.readOver a.wire a := by
  have hread := SocketAddress.reads_over .unset a
  rwa [SocketAddress.overlay_eq_iff.2 fun hunset => absurd hunset (by decide)] at hread

theorem Kernel.readsExactly : ReadsExactly Kernel.read Kernel.bytes fun _ => True :=
  ReadsExactly.of_reads fun k => (reads_u64 k.id).bind <| (reads_u16 k.typeId).bind <|
    (reads_u64 k.sourceApplicationId).bind <| (reads_u64 k.targetApplicationId).bind <|
    (reads_address k.source).bind <| (reads_address k.destination).bindPure rfl

/-- A connection is read back with all its kernels. -/
theorem Connection.readsExactly : ReadsExactly Connection.read Connection.bytes Connection.Fits where
  reads c hc := (reads_address c.address).bind
    ((Kernel.readsExactly.vector.reads c.kernels ⟨hc, fun _ _ => trivial⟩).bindPure rfl)
  only := by
    intro c rest w hok
    rw [Connection.bytes, List.append_assoc, Connection.read, (reads_address c.address).bind_apply] at hok
    obtain ⟨kernels, w₁, hkernels, hok⟩ := bind_ok hok
    injection hok with heq _
    obtain rfl : kernels = c.kernels := congrArg Connection.kernels heq
    exact (Kernel.readsExactly.vector.only hkernels).1

/-- **A pipeline is read back** if no kernel waits in it. -/
theorem Pipeline.readsExactly : ReadsExactly Pipeline.read Pipeline.bytes Pipeline.IsShown where
  reads := by
    rintro ⟨name, connections, kernels⟩ ⟨hname, hlength, hconnections, hkernels⟩
    dsimp only at hname hlength hconnections hkernels
    subst hkernels
    exact (reads_string hname).bind
      ((Connection.readsExactly.vector.reads connections ⟨hlength, hconnections⟩).bindPure rfl)
  only := by
    intro p rest w hok
    rw [Pipeline.bytes, List.append_assoc] at hok
    obtain ⟨name, w₁, hname, hok⟩ := bind_ok hok
    obtain ⟨connections, w₂, hconnections, hok⟩ := bind_ok hok
    injection hok with heq _
    obtain rfl : name = p.name := congrArg Pipeline.name heq
    obtain rfl : connections = p.connections := congrArg Pipeline.connections heq
    obtain rfl := readsExactly_string.rest_eq hname
    obtain ⟨hlength, hfits⟩ := Connection.readsExactly.vector.only hconnections
    exact ⟨readsExactly_string.only hname, hlength, hfits, (congrArg Pipeline.kernels heq).symm⟩

end Wire

end PipelineStatusKernel

open PipelineStatusKernel

/-- `Pipeline_status_kernel`. -/
def pipelineStatusKernel [ByteOrder] : KernelClass (List Pipeline) where
  initial := []
  write pipelines := writeBytes (vectorOf Pipeline.bytes pipelines)
  read := readVectorOf Pipeline.read

/-- Writing the pipelines and reading what was written gives them back. -/
def GivesBack [ByteOrder] (pipelines : List Pipeline) : Prop := ∃ bs, pipelineStatusKernel.RoundTrips pipelines bs

theorem givesBack_iff_reads [ByteOrder] (pipelines : List Pipeline) :
    GivesBack pipelines ↔ Reads (readVectorOf Pipeline.read) (vectorOf Pipeline.bytes pipelines) pipelines := by
  constructor
  · rintro ⟨bs, hwrites, hreads⟩
    rwa [← hwrites.unique (writes_bytes _)]
  · exact fun h => ⟨_, writes_bytes _, h⟩

/-- **Pipelines are read back** exactly if no kernel waits in one of them, and an application into another
exactly if both wait for completion or neither does; the lengths have to fit their bits. -/
theorem pipelineStatusKernel_roundTrips_iff [ByteOrder] :
    (∀ pipelines, GivesBack pipelines ↔ pipelines.length < 2 ^ 32 ∧ ∀ p ∈ pipelines, p.IsShown) ∧
    (∀ c a : FullApplication, Reads c.read a.bytes a ↔ a.Fits ∧ a.waitForCompletion = c.waitForCompletion) :=
  ⟨fun pipelines => (givesBack_iff_reads pipelines).trans (Pipeline.readsExactly.vector.reads_iff pipelines),
    fun c a => (FullApplication.readsExactly c).reads_iff a⟩

/-- A kernel waits in the remote pipeline, which has no connections. -/
def waitingPipeline : Pipeline where
  name := [114]
  connections := []
  kernels := [⟨7, 1, 3, 3, .unset, .unset⟩]

/-- It gets lost, and so does the wish to wait for an application when `read_header` makes a new one. -/
theorem pipelineStatusKernel_roundTrips_fails :
    letI := ByteOrder.littleEndian
    ¬ GivesBack [waitingPipeline] ∧ ¬ Reads FullApplication.initial.read
      { FullApplication.initial with waitForCompletion := true }.bytes
      { FullApplication.initial with waitForCompletion := true } := by
  let _ := ByteOrder.littleEndian
  constructor
  · intro hback
    rw [givesBack_iff_reads, Pipeline.readsExactly.vector.reads_iff] at hback
    exact absurd (hback.2 waitingPipeline List.mem_cons_self).kernels (by decide)
  · intro hread
    exact absurd (((FullApplication.readsExactly .initial).reads_iff _).1 hread).2 (by decide)

end Subordination.Daemon
