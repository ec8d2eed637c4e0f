import Subordination.Core.TransactionLog

/-!
# Start records

The records of kernels that leave, as `operator<<` lays them down one after another and
`read_records` takes them from the file (`core/transaction_log.cc`).

## The model

The codec of a kernel comes from the class of the kernel. `Recordable` says that it is lossless:
the class reads back what it writes, and the node filter survives. Such a kernel is native and
carries its parent, or foreign with any payload; `Recordable` gives what is laid down of it, and
what a reader makes of that. A `StartRecord` is such a kernel with the index of a pipeline.

Unlike `transaction_log::write`, `operator<<` takes any kernel, and the records stay in the buffer
until it is flushed.

## What is proved

* `Recordable.kernel_eq` — what is read is the kernel, with ids in place of the pointers.
* `readRecords_fileOf` — the records are read back in the order in which they were written, however
  the file is cut, if each fits in a frame.
-/

namespace Subordination.Core

open Library

section StartRecords

variable {P : Type} [ByteOrder]

/-! ### Kernels whose codec is lossless -/

/-- A native kernel of a type that the process knows, whose class reads back what it writes. -/
structure Kernel.Native (proc : Process P) (k : Kernel P) (type : KernelType) (state : P)
    (bs : List UInt8) : Prop where
  /-- The type is known. -/
  known : ∃ types, proc.types = some types ∧ type ∈ types.types
  /-- The state of the class. -/
  payload : k.payload = .native type.index state
  /-- The codec of the class. -/
  roundTrips : (proc.classes type.index).RoundTrips state bs
  /-- The codec of the other fields. -/
  encodable : k.Encodable

/-- The kernel is laid down as the given bytes, and this is what is read from them. -/
inductive Recordable (proc : Process P) (mem : Memory P) (k : Kernel P) : List UInt8 → Received P → Prop
  /-- A native kernel carries its parent, which comes without a header and hence without a node
  filter. -/
  | native {type type' : KernelType} {state state' : P} {bs bs' : List UInt8} :
      k.Native proc type state bs → k.targetApplicationId = proc.thisApplication →
      k.carriesParent = true → k.parent ≠ 0 → (mem k.parent).Native proc type' state' bs' →
      (mem k.parent).nodeFilter = none →
      Recordable proc mem k
        (k.packet mem type.id (bs ++ (u16Bytes type'.id ++ ((mem k.parent).bytes mem ++ bs'))))
        (Process.asCarrier proc mem k type type' state state')
  /-- A foreign kernel is for another application. -/
  | foreign {payload : List UInt8} : k.payload = .foreign payload →
      k.targetApplicationId ≠ proc.thisApplication → k.Encodable →
      Recordable proc mem k (k.packet mem k.typeId payload)
        { kernel := k.asForeign mem k.typeId payload }

namespace Recordable

variable {proc : Process P} {mem : Memory P} {k : Kernel P} {wire : List UInt8} {r : Received P}

theorem writes (h : Recordable proc mem k wire r) : Writes (proc.write mem k) wire := by
  cases h with
  | native hk htarget hcarries hparent hp hfilter =>
    obtain ⟨types, htypes, htype⟩ := hk.known
    obtain ⟨types', htypes', htype'⟩ := hp.known
    refine Process.writes_packet htypes htype hk.payload hk.roundTrips.writes ?_
    refine Process.writes_parent hcarries hparent ?_
    exact Process.writes_native htypes' htype' hp.payload hp.roundTrips.writes
  | foreign hk htarget hencodable => exact Process.writes_foreign hk

/-- A payload that does not fit in a frame would be cut. -/
theorem reads (h : Recordable proc mem k wire r) (hfits : wire.length < 2 ^ 32) :
    ReadsAll proc.read wire r := by
  cases h with
  | native hk htarget hcarries hparent hp hfilter =>
    obtain ⟨types, htypes, htype⟩ := hk.known
    obtain ⟨types', htypes', htype'⟩ := hp.known
    obtain rfl := Option.some.inj (htypes.symm.trans htypes')
    exact Process.read_native_carried hk.encodable htarget htypes htype hk.roundTrips.reads hcarries
      hp.encodable hfilter htype' hp.roundTrips.reads
  | @foreign payload hk htarget hencodable =>
    have hlen : payload.length < 2 ^ 32 := by
      simp only [Kernel.packet, List.length_append] at hfits
      omega
    exact Process.read_foreign hencodable htarget hlen

/-- What is read is the kernel, with ids in place of the pointers. -/
theorem kernel_eq (h : Recordable proc mem k wire r) : r.kernel =
    { k with
      toHeader := k.sent
      parentWord := k.parentId mem
      principalWord := k.principalId mem
      typeId := r.kernel.typeId
      flags := r.kernel.flags } := by
  cases h with
  | native hk htarget hcarries hparent hp hfilter =>
    rw [Process.asCarrier, Kernel.asNative, Kernel.copyOf, ← hk.payload]
    rfl
  | foreign hk htarget hencodable =>
    rw [Kernel.asForeign, Kernel.copyOf, ← hk]

end Recordable

/-! ### Records -/

/-- What `operator<<` puts in the frame of a record. -/
def recordBody (status : TransactionStatus) (pipelineIndex : UInt32) (wire : List UInt8) : List UInt8 :=
  u8Bytes status.byte ++ (u32Bytes pipelineIndex ++ wire)

theorem recordBody_ne_nil (status : TransactionStatus) (pipelineIndex : UInt32) (wire : List UInt8) :
    recordBody status pipelineIndex wire ≠ [] := by
  intro h
  have hlen := congrArg List.length h
  simp [recordBody] at hlen

/-- `operator<<(kernel_buffer&, const transaction_record&)`. -/
def writeRecord (proc : Process P) (mem : Memory P) (status : TransactionStatus) (pipelineIndex : UInt32)
    (k : Kernel P) : PutM Unit :=
  writeFrame (putRecord proc mem status pipelineIndex k)

theorem writes_record {proc : Process P} {mem : Memory P} {k : Kernel P} {wire : List UInt8}
    (h : Writes (proc.write mem k) wire) {status : TransactionStatus} {pipelineIndex : UInt32}
    (hfits : kernelFraming.Fits (recordBody status pipelineIndex wire)) :
    Writes (writeRecord proc mem status pipelineIndex k)
      (kernelFraming.frame (recordBody status pipelineIndex wire)) := by
  have hbody : Writes (putRecord proc mem status pipelineIndex k) (recordBody status pipelineIndex wire) :=
    (writes_bytes _).seq ((writes_bytes _).seq h)
  exact writes_frame hbody (recordBody_ne_nil _ _ _) hfits

/-- A `start` record is read back with the kernel that is read from it. -/
theorem handleRecord_recordBody {proc : Process P} {wire : List UInt8} {r : Received P}
    (h : ReadsAll proc.read wire r) (pipelineIndex : UInt32) (records : List (TransactionRecord P)) :
    handleRecord proc (recordBody .start pipelineIndex wire) records =
      .ok () (records ++ [⟨.start, pipelineIndex, r⟩]) := by
  have hne : ¬ (⟨TransactionStatus.start.byte⟩ : TransactionStatus) = .end' := by decide
  have hread : readRecord proc (recordBody .start pipelineIndex wire) =
      EStateM.map (fun k => Sum.inr (TransactionRecord.mk .start pipelineIndex k)) proc.read wire := by
    rw [readRecord, recordBody, (reads_u8 TransactionStatus.start.byte).bind_apply,
      (reads_u32 pipelineIndex).bind_apply, if_neg hne]
    rfl
  have hr : proc.read wire = .ok r [] := h
  rw [handleRecord, hread]
  simp only [EStateM.map, hr]
  rfl

/-- A record with the status `start`. -/
structure StartRecord (proc : Process P) where
  /-- The memory when it is written. -/
  mem : Memory P
  /-- The kernel. -/
  k : Kernel P
  /-- The index of the pipeline. -/
  pipelineIndex : UInt32
  /-- What is laid down of the kernel. -/
  wire : List UInt8
  /-- What is read from that. -/
  received : Received P
  /-- The codec of the kernel is lossless. -/
  recordable : Recordable proc mem k wire received
  /-- The record fits in a frame. -/
  fits : kernelFraming.Fits (recordBody .start pipelineIndex wire)

namespace StartRecord

variable {proc : Process P}

/-- What is in the frame. -/
def body (c : StartRecord proc) : List UInt8 := recordBody .start c.pipelineIndex c.wire

/-- The record as it is read. -/
def record (c : StartRecord proc) : TransactionRecord P := ⟨.start, c.pipelineIndex, c.received⟩

/-- The records one after another. -/
def writeAll : List (StartRecord proc) → PutM Unit
  | [] => pure ()
  | c :: cs => do
    writeRecord proc c.mem .start c.pipelineIndex c.k
    writeAll cs

/-- The frames of the records, one after another. -/
def fileOf (cs : List (StartRecord proc)) : List UInt8 :=
  ((cs.map body).map kernelFraming.frame).flatten

theorem length_wire (c : StartRecord proc) : c.wire.length < 2 ^ 32 := by
  have hfits : 4 + c.body.length < 2 ^ 32 := c.fits
  simp only [body, recordBody, List.length_append] at hfits
  omega

theorem writes (c : StartRecord proc) :
    Writes (writeRecord proc c.mem .start c.pipelineIndex c.k) (kernelFraming.frame c.body) :=
  writes_record c.recordable.writes c.fits

theorem writes_writeAll (cs : List (StartRecord proc)) : Writes (writeAll cs) (fileOf cs) := by
  induction cs with
  | nil => exact writes_pure
  | cons c cs ih => exact c.writes.seq ih

theorem handleRecord_body (c : StartRecord proc) (records : List (TransactionRecord P)) :
    handleRecord proc c.body records = .ok () (records ++ [c.record]) :=
  handleRecord_recordBody (c.recordable.reads c.length_wire) c.pipelineIndex records

theorem forM_bodies (cs : List (StartRecord proc)) (records : List (TransactionRecord P)) :
    (cs.map body).forM (handleRecord proc) records = .ok () (records ++ cs.map record) := by
  induction cs generalizing records with
  | nil =>
    rw [List.map_nil, List.map_nil, List.append_nil]
    rfl
  | cons c cs ih =>
    change EStateM.bind (handleRecord proc c.body)
      (fun _ => (cs.map body).forM (handleRecord proc)) records = _
    rw [EStateM.bind, c.handleRecord_body]
    simp only [ih, List.map_cons, List.append_assoc, List.singleton_append]

/-- **The records are read back** in the order in which they were written, however the file is cut. -/
theorem readRecords_fileOf {cs : List (StartRecord proc)} {pieces : List (List UInt8)}
    (h : pieces.flatten = fileOf cs) : readRecords proc pieces = some (.ok (cs.map record)) := by
  have hfits : ∀ bs ∈ cs.map body, kernelFraming.Fits bs := by
    intro bs hbs
    obtain ⟨c, -, rfl⟩ := List.mem_map.mp hbs
    exact c.fits
  have hloop := forM_bodies cs []
  rw [List.nil_append] at hloop
  obtain ⟨b, e, -⟩ := receiveChunks_eq (b := ByteBuffer.empty) le_rfl kernelFraming.partial_nil hfits h hloop
  rw [readRecords, e]

end StartRecord

end StartRecords

end Subordination.Core
