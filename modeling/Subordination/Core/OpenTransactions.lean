import Subordination.Core.Restarts

/-!
# Open transactions

Which kernels `save_kernel` takes for open transactions, and which of them are in the log
(`core/connection.cc`, `core/transaction_log.cc`).

## The model

`save_kernel` opens a transaction for a kernel that carries its parent or is flagged
`transactional`; `transaction_log::write` looks at the first of the two alone. What is written to the
file is what was left in the buffer, which an earlier exception may have put there, and the frame of
the record. The log owns the kernel while it writes: when it throws, what is saved is a null pointer.

## What is proved

* `Endpoint.startRecorded_iff` — a kernel with which a transaction is opened has a start record in
  the log if and only if it carries its parent, its encoding succeeds, and the record fits in a
  frame; and the kernel is kept unless the log throws.
* `Endpoint.transactional_not_recorded` — a kernel that is flagged `transactional`, and of which
  nothing is written.
-/

namespace Subordination.Core

open Library

section OpenTransactions

variable {P : Type}

/-! ### Records -/

/-- `save_kernel` opens a transaction for the kernel, over a connection that keeps the kernels that
go upstream. -/
def Kernel.OpensTransaction (k : Kernel P) : Prop :=
  (k.phase = .upstream ∨ k.phase = .pointToPoint) ∧
    (k.carriesParent = true ∨ k.isset .transactional = true)

variable [ByteOrder]

/-- The bytes are the start record of the kernel: it is encoded without an exception, and the record
fits in its frame. -/
def Kernel.IsStartRecord (proc : Process P) (mem : Memory P) (pipelineIndex : UInt32) (k : Kernel P)
    (bytes : List UInt8) : Prop :=
  ∃ wire, Writes (proc.write mem k) wire ∧ kernelFraming.Fits (recordBody .start pipelineIndex wire) ∧
    bytes = kernelFraming.frame (recordBody .start pipelineIndex wire)

/-- The kernel has a start record. -/
def Kernel.HasStartRecord (proc : Process P) (mem : Memory P) (pipelineIndex : UInt32) (k : Kernel P) :
    Prop :=
  ∃ bytes, k.IsStartRecord proc mem pipelineIndex bytes

/-- From `e` to `e'`, the start record of the kernel has been put at the end of the log. -/
def Endpoint.StartRecorded (proc : Process P) (ppl : BasicSocketPipeline) (k : Kernel P)
    (e e' : Endpoint P) : Prop :=
  ∃ before bytes, k.IsStartRecord proc e.memory ppl.index bytes ∧
    e'.log.file = e.log.file ++ (before ++ bytes)

/-- A start record is not empty. -/
theorem Kernel.IsStartRecord.length_pos {proc : Process P} {mem : Memory P} {pipelineIndex : UInt32}
    {k : Kernel P} {bytes : List UInt8} (h : k.IsStartRecord proc mem pipelineIndex bytes) :
    0 < bytes.length := by
  obtain ⟨wire, -, -, rfl⟩ := h
  have hwidth : kernelFraming.width = 4 := rfl
  rw [kernelFraming.length_frame, hwidth]
  omega

namespace Endpoint

variable {proc : Process P} {ppl : BasicSocketPipeline} {e e' : Endpoint P} {k : Kernel P}

/-- A file that has not changed holds no new record. -/
theorem not_startRecorded_of_eq (h : e'.log.file = e.log.file) : ¬ StartRecorded proc ppl k e e' := by
  rintro ⟨before, bytes, hbytes, hfile⟩
  have hpos := hbytes.length_pos
  have hlength := congrArg List.length (h.symm.trans hfile)
  simp only [List.length_append] at hlength
  omega

/-! ### What the log does with a record -/

/-- A record that can be written goes to the file after what is left in the buffer. -/
theorem file_write {log : TransactionLog} (hbuffer : log.buffer.position ≤ log.buffer.data.length)
    {mem : Memory P} {index : UInt32} (hcarries : k.carriesParent = true) {bytes : List UInt8}
    (hbytes : k.IsStartRecord proc mem index bytes) : ∃ log',
      TransactionLog.write proc mem .start index k log = .ok () log' ∧
        log'.file = log.file ++ (log.buffer.content ++ bytes) := by
  obtain ⟨wire, hwire, hfits, rfl⟩ := hbytes
  obtain ⟨b, hwrite, -, -, hcontent⟩ := writes_record hwire hfits log.buffer hbuffer
  unfold writeRecord at hwrite
  have hflush : b.flip.flush.1 = log.buffer.content ++ kernelFraming.frame (recordBody .start index wire) :=
    b.window_flip.trans hcontent
  unfold TransactionLog.write
  simp only [hcarries, Bool.not_true, Bool.false_eq_true, if_false, hwrite]
  refine ⟨_, rfl, ?_⟩
  rw [hflush]

omit [ByteOrder] in
/-- What is planned for a kernel that opens a transaction. -/
theorem plan_opens (hsaves : e.connection.flags.saveUpstreamKernels = true) (hopens : k.OpensTransaction) :
    e.plan k = (some .upstream, some .start) := by
  obtain ⟨hphase, hflag⟩ := hopens
  have hflags : (k.carriesParent || k.isset .transactional) = true := by
    rw [Bool.or_eq_true]
    exact hflag
  unfold plan
  rw [if_pos hphase, if_pos hsaves, if_pos hflags]

/-- The log is asked for the record. -/
theorem record_opens (hrecords : e.Records ppl) (k : Kernel P) : e.record proc ppl k (some .start) =
    match TransactionLog.write proc e.memory .start ppl.index k e.log with
    | .ok _ log => ({ e with log }, some k)
    | .error _ log => ({ e with log }, none) := by
  have hasked : (e.connection.flags.writeTransactionLog && ppl.transactions) = true := by
    rw [hrecords.writes, hrecords.transactions]
    rfl
  unfold record
  exact if_pos hasked

/-- The kernel is put in the queue. -/
theorem saveKernel_written (hrecords : e.Records ppl) (hopens : k.OpensTransaction) {log : TransactionLog}
    (hwrite : TransactionLog.write proc e.memory .start ppl.index k e.log = .ok () log) :
    (e.saveKernel proc ppl k).1 =
      { e with log, connection.upstream := e.connection.upstream ++ [k] } := by
  rw [saveKernel, plan_opens hrecords.saves hopens, record_opens hrecords, hwrite]
  rfl

/-- The kernel is gone, and a null pointer is put in the queue. -/
theorem saveKernel_thrown (hrecords : e.Records ppl) (hopens : k.OpensTransaction) {x : Exception}
    {log : TransactionLog}
    (hwrite : TransactionLog.write proc e.memory .start ppl.index k e.log = .error x log) :
    (e.saveKernel proc ppl k).1 =
      { e with log, connection.upstreamNulls := e.connection.upstreamNulls + 1 } := by
  rw [saveKernel, plan_opens hrecords.saves hopens, record_opens hrecords, hwrite]
  rfl

/-- A kernel that carries its parent, and whose record can be written, is recorded. -/
theorem startRecorded_of_carries (hrecords : e.Records ppl)
    (hbuffer : e.log.buffer.position ≤ e.log.buffer.data.length) (hopens : k.OpensTransaction)
    (hcarries : k.carriesParent = true) (hrecord : k.HasStartRecord proc e.memory ppl.index) :
    StartRecorded proc ppl k e (e.saveKernel proc ppl k).1 := by
  obtain ⟨bytes, hbytes⟩ := hrecord
  obtain ⟨log, hwrite, hfile⟩ := file_write hbuffer hcarries hbytes
  refine ⟨e.log.buffer.content, bytes, hbytes, ?_⟩
  rw [saveKernel_written hrecords hopens hwrite]
  exact hfile

/-- A kernel that does not carry its parent leaves the log as it is. -/
theorem not_startRecorded_of_carries (hrecords : e.Records ppl) (hopens : k.OpensTransaction)
    (hcarries : k.carriesParent = false) : ¬ StartRecorded proc ppl k e (e.saveKernel proc ppl k).1 := by
  have hwrite : TransactionLog.write proc e.memory .start ppl.index k e.log = .ok () e.log := by
    unfold TransactionLog.write
    rw [hcarries]
    rfl
  have hlog : (e.saveKernel proc ppl k).1.log = e.log := by rw [saveKernel_written hrecords hopens hwrite]
  exact not_startRecorded_of_eq (congrArg TransactionLog.file hlog)

/-- **A kernel with which a transaction is opened is in the log** if and only if it carries its parent and
its record can be written: `transactional` alone does not get it there. It is kept in any case, unless the
log throws. -/
theorem startRecorded_iff (hrecords : e.Records ppl)
    (hbuffer : e.log.buffer.position ≤ e.log.buffer.data.length) (hopens : k.OpensTransaction) :
    (StartRecorded proc ppl k e (e.saveKernel proc ppl k).1 ↔
        k.carriesParent = true ∧ k.HasStartRecord proc e.memory ppl.index) ∧
      (∀ log, TransactionLog.write proc e.memory .start ppl.index k e.log = .ok () log →
        (e.saveKernel proc ppl k).1.connection.upstream = e.connection.upstream ++ [k]) ∧
      ∀ x log, TransactionLog.write proc e.memory .start ppl.index k e.log = .error x log →
        (e.saveKernel proc ppl k).1.connection.upstream = e.connection.upstream ∧
          (e.saveKernel proc ppl k).1.connection.upstreamNulls = e.connection.upstreamNulls + 1 := by
  refine ⟨⟨?_, ?_⟩, ?_, ?_⟩
  · intro hrecorded
    have hcarries : k.carriesParent = true := by
      by_contra hcarries
      rw [Bool.not_eq_true] at hcarries
      exact not_startRecorded_of_carries hrecords hopens hcarries hrecorded
    obtain ⟨before, bytes, hbytes, -⟩ := hrecorded
    exact ⟨hcarries, bytes, hbytes⟩
  · rintro ⟨hcarries, hrecord⟩
    exact startRecorded_of_carries hrecords hbuffer hopens hcarries hrecord
  · intro log hwrite
    rw [saveKernel_written hrecords hopens hwrite]
  · intro x log hwrite
    rw [saveKernel_thrown hrecords hopens hwrite]
    exact ⟨rfl, rfl⟩

end Endpoint

/-! ### A kernel that carries its parent, and one that does not -/

/-- A connection over which kernels are recorded. -/
def Endpoint.recording : Endpoint Unit where
  connection := { flags := { saveUpstreamKernels := true, writeTransactionLog := true } }
  memory := Memory.blank

/-- A kernel that is flagged `transactional`. It has a parent and does not carry it. -/
def Kernel.transactional : Kernel Unit :=
  { Kernel.plain [] with id := 5, parentWord := 1, flags := KernelFlags.setf 0 .transactional }

theorem hasStartRecord_carrier : Kernel.carrier.HasStartRecord (Process.plain 0) Memory.blank 0 :=
  ⟨_, carrierLeaves.wire, carrierLeaves.writes, carrierLeaves.fits_body, rfl⟩

theorem writes_transactional : Writes ((Process.plain 0).write Memory.blank Kernel.transactional)
    (Kernel.transactional.packet Memory.blank 2 []) := by
  have hcarries : Kernel.transactional.carriesParent = false := by decide
  have h : Writes ((Process.plain 0).write Memory.blank Kernel.transactional)
      (Kernel.transactional.packet Memory.blank KernelType.plain.id ([] ++ [])) :=
    Process.writes_packet rfl mem_plain rfl writes_plain_state (Process.writes_no_parent hcarries)
  exact h

theorem length_packet_transactional : (Kernel.transactional.packet Memory.blank 2 []).length = 78 := by
  simp [Kernel.packet, Kernel.transactional, Kernel.plain, Kernel.fresh, Header.fresh, Header.bytes,
    Header.addressBytes, Header.written, ApplicationSlot.bytes, Kernel.bytes, stringBytes]

theorem hasStartRecord_transactional :
    Kernel.transactional.HasStartRecord (Process.plain 0) Memory.blank 0 := by
  refine ⟨_, _, writes_transactional, ?_, rfl⟩
  simp only [Framing.Fits, recordBody, List.length_append, length_packet_transactional, length_u8Bytes,
    length_u32Bytes]
  exact (by decide : 4 + (1 + (4 + 78)) < 2 ^ 32)

end OpenTransactions

/-- A kernel that carries its parent is recorded. -/
theorem Endpoint.startRecorded_carrier :
    letI := ByteOrder.littleEndian
    Endpoint.StartRecorded (Process.plain 0) .recording Kernel.carrier Endpoint.recording
      (Endpoint.recording.saveKernel (Process.plain 0) .recording Kernel.carrier).1 := by
  let _ := ByteOrder.littleEndian
  have hopens : Kernel.carrier.OpensTransaction := ⟨Or.inl rfl, Or.inl (by decide)⟩
  exact (Endpoint.startRecorded_iff ⟨rfl, rfl, rfl⟩ le_rfl hopens).1.mpr ⟨by decide, hasStartRecord_carrier⟩

/-- **A transaction that the log does not know**: the kernel is kept as an open transaction and could
be recorded, and the log stays empty. -/
theorem Endpoint.transactional_not_recorded :
    letI := ByteOrder.littleEndian
    Endpoint.recording.Records .recording ∧ Kernel.transactional.OpensTransaction ∧
      Kernel.transactional.HasStartRecord (Process.plain 0) Endpoint.recording.memory 0 ∧
      ((Endpoint.recording.saveKernel (Process.plain 0) .recording Kernel.transactional).1.connection.upstream =
        [Kernel.transactional]) ∧
      (Endpoint.recording.saveKernel (Process.plain 0) .recording Kernel.transactional).1.log.file = [] ∧
      ¬ Endpoint.StartRecorded (Process.plain 0) .recording Kernel.transactional Endpoint.recording
        (Endpoint.recording.saveKernel (Process.plain 0) .recording Kernel.transactional).1 := by
  let _ := ByteOrder.littleEndian
  have hlog : (Endpoint.recording.saveKernel (Process.plain 0) .recording Kernel.transactional).1.log.file = [] := by
    decide +kernel
  refine ⟨⟨rfl, rfl, rfl⟩, ⟨Or.inl rfl, Or.inr (by decide)⟩, hasStartRecord_transactional, rfl, hlog, ?_⟩
  exact Endpoint.not_startRecorded_of_eq hlog

end Subordination.Core
