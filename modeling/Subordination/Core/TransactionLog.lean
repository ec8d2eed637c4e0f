import Subordination.Core.ForeignKernel
import Subordination.Library.Journal

/-!
# The transaction log

The file in which a daemon records the kernels that carry their parents
(`core/transaction_log.cc`), and what it reads from it when it starts.

## The model

`TransactionLog.write` lays a record down in a frame of its own and flushes it to the
file. `readRecords` goes through the file in whatever pieces the file descriptor
delivers it; a record with the status `end` erases the records with the id it reads,
any other is kept.

The two do not have the same idea of an `end` record. The writer lays down a kernel
after the pipeline index, the reader expects an id there, so what it reads as the id is
the front of the kernel's header: the field byte and seven bytes of the source
application (`Kernel.headerWord`).

## What is proved

* `readRecords_eq` — what is read back: the `start` records but for those that a later `end`
  record hits with its header word.
* `readRecords_eq_open_iff` — that this is what the log is for, the records of transactions
  that no later record ends, if and only if hitting and ending come to the same.
* `readRecords_returned` — a run in which they do not.
-/

namespace Subordination.Core

open Library Journal

/-- `transaction_status`. Any byte may be in the file. -/
structure TransactionStatus where
  /-- The underlying `sys::u8`. -/
  byte : UInt8
  deriving DecidableEq, Repr

namespace TransactionStatus

/-- `start`: the kernel leaves. -/
def start : TransactionStatus := ⟨1⟩

/-- `end`: the kernel returns. -/
def end' : TransactionStatus := ⟨2⟩

/-- A start is recorded. -/
theorem recorded_start : start = start ∨ start = end' := Or.inl rfl

/-- An end is recorded. -/
theorem recorded_end : end' = start ∨ end' = end' := Or.inr rfl

end TransactionStatus

/-- `transaction_record`, as it is read. -/
structure TransactionRecord (P : Type) where
  /-- `status`. -/
  status : TransactionStatus
  /-- `pipeline_index`. -/
  pipelineIndex : UInt32
  /-- `k`. -/
  k : Received P
  deriving DecidableEq

/-- `transaction_log`: what has been written and not flushed, and the file. -/
structure TransactionLog where
  /-- `_buffer`. -/
  buffer : ByteBuffer := .empty
  /-- What is behind `_file_descriptor`. -/
  file : List UInt8 := []
  deriving DecidableEq

section Log

variable {P : Type} [ByteOrder]

/-! ### Writing -/

/-- What `operator<<(kernel_buffer&, const transaction_record&)` writes inside its frame. -/
def putRecord (proc : Process P) (mem : Memory P) (status : TransactionStatus) (pipelineIndex : UInt32)
    (k : Kernel P) : PutM Unit := do
  writeBytes (u8Bytes status.byte)
  writeBytes (u32Bytes pipelineIndex)
  proc.write mem k

/-- `transaction_log::write`: only kernels that carry their parents are recorded. -/
def TransactionLog.write (proc : Process P) (mem : Memory P) (status : TransactionStatus)
    (pipelineIndex : UInt32) (k : Kernel P) : EStateM Exception TransactionLog Unit := fun log =>
  if !k.carriesParent then .ok () log
  else
    match writeFrame (putRecord proc mem status pipelineIndex k) log.buffer with
    | .error e b => .error e { log with buffer := b }
    | .ok _ b =>
      let (bytes, b) := b.flip.flush
      .ok () { buffer := b.compact, file := log.file ++ bytes }

/-! ### Reading -/

/-- The records that `erase_upstream` leaves. -/
def eraseUpstream (id : UInt64) (records : List (TransactionRecord P)) : List (TransactionRecord P) :=
  records.filter fun r => !(r.k.kernel.id == id)

/-- What `read_records` reads from a frame: the id to erase, or the record to keep. -/
def readRecord (proc : Process P) : ReadM (UInt64 ⊕ TransactionRecord P) := do
  let byte ← readU8
  let pipelineIndex ← readU32
  if (⟨byte⟩ : TransactionStatus) = .end' then
    let id ← readU64
    pure (.inl id)
  else
    let k ← proc.read
    pure (.inr { status := ⟨byte⟩, pipelineIndex, k })

/-- What `read_records` does with what it has read from a frame. -/
def applyRecord (records : List (TransactionRecord P)) :
    UInt64 ⊕ TransactionRecord P → List (TransactionRecord P)
  | .inl id => eraseUpstream id records
  | .inr record => records ++ [record]

/-- The inside of the loop of `read_records`. -/
def handleRecord (proc : Process P) (body : List UInt8) :
    EStateM Exception (List (TransactionRecord P)) Unit := fun records =>
  match readRecord proc body with
  | .ok r _ => .ok () (applyRecord records r)
  | .error e _ => .error e records

/-- `read_records`, over the pieces in which the file descriptor delivers the file. -/
def readRecords (proc : Process P) (pieces : List (List UInt8)) :
    Option (Except Exception (List (TransactionRecord P))) :=
  match receiveChunks (handleRecord proc) .empty pieces [] with
  | none => none
  | some (.ok _ records) => some (.ok records)
  | some (.error e _) => some (.error e)

/-! ### The front of a header -/

/-- The first eight bytes of a kernel, as a reader that expects an id reads them: the field
byte and all but the last byte of the source application id. -/
def Kernel.headerWord (k : Kernel P) : UInt64 :=
  UInt64.ofNat (ByteOrder.wire.decode
    (flagBytes (w := 1) (k.toHeader.byte k.nodeFilter.isSome) ++ (u64Bytes k.sourceApplicationId).take 7))

theorem readU64_packet (mem : Memory P) (k : Kernel P) (typeId : UInt16) (rest : List UInt8) :
    ∃ w, readU64 (k.packet mem typeId rest) = .ok k.headerWord w := by
  obtain ⟨tail, happlication⟩ := k.sourceApplication.bytes_eq
  generalize hfront : flagBytes (w := 1) (k.toHeader.byte k.nodeFilter.isSome) ++
    (u64Bytes k.sourceApplicationId).take 7 = front
  have hlen : front.length = 8 := by rw [← hfront]; simp
  obtain ⟨w, hw⟩ : front <+: k.packet mem typeId rest := by
    rw [Kernel.packet, Header.bytes, happlication, ← hfront]
    simp only [List.append_assoc]
    exact (List.prefix_append_right_inj _).mpr ((List.take_prefix 7 _).trans (List.prefix_append _ _))
  have hread : Reads readU64 front (UInt64.ofNat (ByteOrder.wire.decode front)) := by
    have := ((reads_bytes front).map ByteOrder.wire.decode).map UInt64.ofNat
    rwa [hlen] at this
  refine ⟨w, ?_⟩
  rw [← hw, hread w, Kernel.headerWord, hfront]

/-! ### A log and what is read back from it -/

/-- A call of `transaction_log::write` that succeeds: with the status `start` or `end`, and a
kernel that carries its parent. -/
structure LogCall (writer : Process P) extends Packet writer where
  /-- The status. -/
  status : TransactionStatus
  /-- The index of the pipeline. -/
  pipelineIndex : UInt32
  /-- The status is one of the two. -/
  status_eq : status = .start ∨ status = .end'
  /-- The kernel carries its parent. -/
  carries : k.carriesParent = true
  /-- The record fits in a frame. -/
  record_fits : 9 + (k.packet mem typeId bytes).length < 2 ^ 32

namespace LogCall

variable {writer : Process P}

/-- The body of the frame of the record. -/
def body (c : LogCall writer) : List UInt8 :=
  u8Bytes c.status.byte ++ (u32Bytes c.pipelineIndex ++ c.wire)

/-- The record, as far as the reader can make it. -/
def record (reader : Process P) (c : LogCall writer) : Option (TransactionRecord P) :=
  (c.received reader).map fun k => { status := c.status, pipelineIndex := c.pipelineIndex, k }

/-- The record `e` is of the same transaction as the record `c`: it is of the same pipeline, of
a kernel with the same id, and comes from the application that the kernel went to. -/
def SameTransaction (c e : LogCall writer) : Prop :=
  e.pipelineIndex = c.pipelineIndex ∧ e.k.id = c.k.id ∧
    e.k.sourceApplicationId = c.k.targetApplicationId

/-- The same, of a record that has been read. -/
def endsTransaction (e : LogCall writer) (r : TransactionRecord P) : Bool :=
  e.pipelineIndex == r.pipelineIndex && e.k.id == r.k.kernel.id &&
    e.k.sourceApplicationId == r.k.kernel.targetApplicationId

/-- The `end` record `e` hits the record `r`: what is read as the id is that of its kernel. -/
def hits (e : LogCall writer) (r : TransactionRecord P) : Bool := r.k.kernel.id == e.k.headerWord

/-- The calls as a journal of the records that can be read. -/
def journal (reader : Process P) : List (LogCall writer) → List (Entry (TransactionRecord P) (LogCall writer))
  | [] => []
  | c :: calls =>
    if c.status = .end' then .closed c :: journal reader calls
    else
      match c.record reader with
      | some r => .opened r :: journal reader calls
      | none => journal reader calls

/-- What the log is for: the `start` records that no later `end` record of their transactions
closes, in writing order. -/
def openTransactions (reader : Process P) (calls : List (LogCall writer)) : List (TransactionRecord P) :=
  survivors endsTransaction (journal reader calls)

/-- Every `start` record can be read. -/
def Readable (reader : Process P) (calls : List (LogCall writer)) : Prop :=
  ∀ c ∈ calls, c.status = .start → (c.received reader).isSome

/-- A `start` record is hit by a later `end` record if and only if there is a later `end` record
of its transaction. -/
def HeaderWordsTell : List (LogCall writer) → Prop
  | [] => True
  | c :: calls =>
    (c.status = .start →
      ((∃ e ∈ calls, e.status = .end' ∧ e.k.headerWord = c.k.id) ↔
        ∃ e ∈ calls, e.status = .end' ∧ c.SameTransaction e)) ∧ HeaderWordsTell calls

/-- Make the calls one after another. -/
def writeAll (calls : List (LogCall writer)) : EStateM Exception TransactionLog Unit :=
  calls.forM fun c => TransactionLog.write writer c.mem c.status c.pipelineIndex c.k

theorem fits_body (c : LogCall writer) : kernelFraming.Fits c.body := by
  have h : 9 + c.wire.length < 2 ^ 32 := c.record_fits
  have hlen : c.body.length = 5 + c.wire.length := by
    simp only [body, List.length_append, length_u8Bytes, length_u32Bytes]
    omega
  rw [Framing.Fits, hlen]
  exact (show 4 + (5 + c.wire.length) < 2 ^ 32 by omega)

theorem write_eq (c : LogCall writer) (file : List UInt8) :
    TransactionLog.write writer c.mem c.status c.pipelineIndex c.k { file } =
      .ok () { file := file ++ kernelFraming.frame c.body } := by
  have hbody : Writes (putRecord writer c.mem c.status c.pipelineIndex c.k) c.body :=
    (writes_bytes _).seq ((writes_bytes _).seq c.writes)
  have hne : c.body ≠ [] := by
    intro h
    have := congrArg List.length h
    simp [body] at this
  obtain ⟨b, e, hp, hv, hc⟩ := writes_frame hbody hne c.fits_body ByteBuffer.empty le_rfl
  have hw : b.flip.flush.1 = kernelFraming.frame c.body := by
    change b.flip.window = _
    rw [b.window_flip, hc, ByteBuffer.content_empty, List.nil_append]
  rw [TransactionLog.write, c.carries]
  simp only [Bool.not_true, Bool.false_eq_true, if_false, e, hw, ByteBuffer.compact_flush]

/-- The frames of the records, one after another. -/
def fileOf (calls : List (LogCall writer)) : List UInt8 :=
  ((calls.map body).map kernelFraming.frame).flatten

/-- The calls succeed, and leave their records in the file. -/
theorem writeAll_eq (calls : List (LogCall writer)) (file : List UInt8) :
    writeAll calls { file } = .ok () { file := file ++ fileOf calls } := by
  induction calls generalizing file with
  | nil =>
    rw [fileOf, List.map_nil, List.map_nil, List.flatten_nil, List.append_nil]
    rfl
  | cons c calls ih =>
    change EStateM.bind (TransactionLog.write writer c.mem c.status c.pipelineIndex c.k)
      (fun _ => writeAll calls) { file } = _
    rw [EStateM.bind, c.write_eq]
    simp only [ih, fileOf, List.map_cons, List.flatten_cons, List.append_assoc]

theorem writeAll_empty (calls : List (LogCall writer)) :
    writeAll calls {} = .ok () { file := fileOf calls } :=
  writeAll_eq calls []

/-! ### What is read back -/

variable {reader : Process P}

theorem handleRecord_end {c : LogCall writer} (hc : c.status = .end') (records : List (TransactionRecord P)) :
    handleRecord reader c.body records = .ok () (records.filter fun r => !c.hits r) := by
  obtain ⟨w, hword⟩ := readU64_packet c.mem c.k c.typeId c.bytes
  have hread : readRecord reader c.body = .ok (.inl c.k.headerWord) w := by
    rw [readRecord, body, (reads_u8 c.status.byte).bind_apply, (reads_u32 c.pipelineIndex).bind_apply,
      if_pos hc]
    change EStateM.bind readU64 _ (c.k.packet c.mem c.typeId c.bytes) = _
    rw [EStateM.bind, hword]
    rfl
  rw [handleRecord, hread]
  rfl

theorem readRecord_start {c : LogCall writer} (hc : c.status ≠ .end') :
    readRecord reader c.body =
      EStateM.map (fun k => Sum.inr (TransactionRecord.mk c.status c.pipelineIndex k)) reader.read
        c.wire := by
  rw [readRecord, body, (reads_u8 c.status.byte).bind_apply, (reads_u32 c.pipelineIndex).bind_apply,
    if_neg hc]
  rfl

theorem handleRecord_start {c : LogCall writer} (hc : c.status ≠ .end') {r : TransactionRecord P}
    (hr : c.record reader = some r) (records : List (TransactionRecord P)) :
    handleRecord reader c.body records = .ok () (records ++ [r]) := by
  obtain ⟨k, hk, rfl⟩ := Option.map_eq_some_iff.mp hr
  rw [Packet.received] at hk
  split at hk
  · rename_i r' w hread
    cases hk
    rw [handleRecord, readRecord_start hc]
    simp only [EStateM.map, hread]
    rfl
  · cases hk

theorem handleRecord_undecodable {c : LogCall writer} (hc : c.status ≠ .end')
    (hr : c.record reader = none) (records : List (TransactionRecord P)) :
    ∃ e, handleRecord reader c.body records = .error e records := by
  rw [record, Option.map_eq_none_iff, Packet.received] at hr
  split at hr
  · cases hr
  · rename_i e w hread
    refine ⟨e, ?_⟩
    rw [handleRecord, readRecord_start hc]
    simp only [EStateM.map, hread]

theorem start_of_ne {c : LogCall writer} (hc : c.status ≠ .end') : c.status = .start :=
  c.status_eq.resolve_right hc

theorem journal_end {c : LogCall writer} (hc : c.status = .end') (calls : List (LogCall writer)) :
    journal reader (c :: calls) = .closed c :: journal reader calls := by
  rw [journal, if_pos hc]

theorem journal_start {c : LogCall writer} (hc : c.status ≠ .end') {r : TransactionRecord P}
    (hr : c.record reader = some r) (calls : List (LogCall writer)) :
    journal reader (c :: calls) = .opened r :: journal reader calls := by
  rw [journal, if_neg hc, hr]

theorem Readable.record {c : LogCall writer} {calls : List (LogCall writer)}
    (h : Readable reader (c :: calls)) (hc : c.status ≠ .end') : ∃ r, c.record reader = some r := by
  have hsome := h c List.mem_cons_self (start_of_ne hc)
  obtain ⟨k, hk⟩ := Option.isSome_iff_exists.mp hsome
  exact ⟨_, by rw [LogCall.record, hk]; rfl⟩

theorem Readable.tail {c : LogCall writer} {calls : List (LogCall writer)}
    (h : Readable reader (c :: calls)) : Readable reader calls :=
  fun c' hc' => h c' (List.mem_cons_of_mem c hc')

/-- The loop over readable records replays the journal, with what the `end` records hit. -/
theorem forM_readable {calls : List (LogCall writer)} (h : Readable reader calls)
    (records : List (TransactionRecord P)) :
    (calls.map body).forM (handleRecord reader) records =
      .ok () (replay hits records (journal reader calls)) := by
  induction calls generalizing records with
  | nil => rfl
  | cons c calls ih =>
    change EStateM.bind (handleRecord reader c.body)
      (fun _ => (calls.map body).forM (handleRecord reader)) records = _
    rw [EStateM.bind]
    by_cases hc : c.status = .end'
    · rw [handleRecord_end hc, journal_end hc, replay]
      exact ih h.tail _
    · obtain ⟨r, hr⟩ := h.record hc
      rw [handleRecord_start hc hr, journal_start hc hr, replay]
      exact ih h.tail _

/-- A record that cannot be read ends the loop. -/
theorem forM_unreadable {calls : List (LogCall writer)} (h : ¬ Readable reader calls)
    (records : List (TransactionRecord P)) :
    ∃ e records', (calls.map body).forM (handleRecord reader) records = .error e records' := by
  induction calls generalizing records with
  | nil => exact absurd (fun c hc => nomatch hc) h
  | cons c calls ih =>
    change ∃ e records', EStateM.bind (handleRecord reader c.body)
      (fun _ => (calls.map body).forM (handleRecord reader)) records = .error e records'
    rw [EStateM.bind]
    -- The exception comes from this record, or from a later one.
    have htail (hc : c.status = .start → (c.received reader).isSome) : ¬ Readable reader calls := by
      intro htail
      refine h fun c' hc' => ?_
      rcases List.mem_cons.mp hc' with rfl | hc'
      · exact hc
      · exact htail c' hc'
    by_cases hc : c.status = .end'
    · rw [handleRecord_end hc]
      exact ih (htail fun hs => absurd (hs.symm.trans hc) (by decide)) _
    · cases hr : c.record reader with
      | none =>
        obtain ⟨e, he⟩ := handleRecord_undecodable hc hr records
        rw [he]
        exact ⟨e, records, rfl⟩
      | some r =>
        rw [handleRecord_start hc hr]
        obtain ⟨k, hk, -⟩ := Option.map_eq_some_iff.mp hr
        exact ih (htail fun _ => by rw [hk]; rfl) _

theorem fits_of_mem {calls : List (LogCall writer)} : ∀ bs ∈ calls.map body, kernelFraming.Fits bs := by
  intro bs hbs
  obtain ⟨c, -, rfl⟩ := List.mem_map.mp hbs
  exact c.fits_body

/-- **What is read back** of a log whose records can be read: the `start` records that no later
`end` record hits. -/
theorem readRecords_eq {calls : List (LogCall writer)} {pieces : List (List UInt8)}
    (hfile : pieces.flatten = fileOf calls) (h : Readable reader calls) :
    readRecords reader pieces = some (.ok (survivors hits (journal reader calls))) := by
  have hloop := forM_readable h []
  rw [replay_nil] at hloop
  obtain ⟨b, e, -⟩ := receiveChunks_eq (b := ByteBuffer.empty) le_rfl kernelFraming.partial_nil fits_of_mem
    hfile hloop
  rw [readRecords, e]

theorem readRecords_unreadable {calls : List (LogCall writer)} {pieces : List (List UInt8)}
    (hfile : pieces.flatten = fileOf calls) (h : ¬ Readable reader calls) :
    ∃ e, readRecords reader pieces = some (.error e) := by
  obtain ⟨e, records, hloop⟩ := forM_unreadable h []
  have he := receiveChunks_error (b := ByteBuffer.empty) le_rfl kernelFraming.partial_nil fits_of_mem
    hfile hloop
  exact ⟨e, by rw [readRecords, he]⟩

/-! ### Hitting and ending -/

theorem isClosed_journal (closes : LogCall writer → TransactionRecord P → Bool)
    (calls : List (LogCall writer)) (r : TransactionRecord P) :
    isClosed closes (journal reader calls) r = true ↔
      ∃ e ∈ calls, e.status = .end' ∧ closes e r = true := by
  induction calls with
  | nil => simp [journal, isClosed]
  | cons c calls ih =>
    by_cases hc : c.status = .end'
    · rw [journal_end hc, isClosed, Bool.or_eq_true, ih]
      simp [hc]
    · have hjournal : isClosed closes (journal reader (c :: calls)) r =
          isClosed closes (journal reader calls) r := by
        rw [journal, if_neg hc]
        split <;> rfl
      rw [hjournal, ih]
      simp [hc]

theorem hits_record {c e : LogCall writer} {r : TransactionRecord P} (hr : c.record reader = some r) :
    e.hits r = true ↔ e.k.headerWord = c.k.id := by
  obtain ⟨k, hk, rfl⟩ := Option.map_eq_some_iff.mp hr
  rw [hits, (Packet.received_eq hk).1, beq_iff_eq, eq_comm]

theorem isClosed_hits {c : LogCall writer} {r : TransactionRecord P} (hr : c.record reader = some r)
    (calls : List (LogCall writer)) :
    isClosed hits (journal reader calls) r = true ↔
      ∃ e ∈ calls, e.status = .end' ∧ e.k.headerWord = c.k.id := by
  rw [isClosed_journal]
  simp only [hits_record hr]

/-- A record is read back if it is that of a `start` call that no later `end` call hits. -/
theorem mem_survivors {calls : List (LogCall writer)} {r : TransactionRecord P}
    (h : Readable reader calls) :
    r ∈ survivors hits (journal reader calls) ↔ ∃ before c after, calls = before ++ c :: after ∧
      c.status = .start ∧ c.record reader = some r ∧
      ¬ ∃ e ∈ after, e.status = .end' ∧ e.k.headerWord = c.k.id := by
  induction calls with
  | nil => simp [journal, survivors]
  | cons c calls ih =>
    -- The record comes from a later call, or from this one.
    have hcons : (∃ before c' after, c :: calls = before ++ c' :: after ∧ c'.status = .start ∧
        c'.record reader = some r ∧ ¬ ∃ e ∈ after, e.status = .end' ∧ e.k.headerWord = c'.k.id) ↔
        (c.status = .start ∧ c.record reader = some r ∧
          ¬ ∃ e ∈ calls, e.status = .end' ∧ e.k.headerWord = c.k.id) ∨
        ∃ before c' after, calls = before ++ c' :: after ∧ c'.status = .start ∧
          c'.record reader = some r ∧ ¬ ∃ e ∈ after, e.status = .end' ∧ e.k.headerWord = c'.k.id := by
      constructor
      · rintro ⟨before, c', after, hcalls, hrest⟩
        rcases List.cons_eq_append_iff.mp hcalls with ⟨rfl, hcalls⟩ | ⟨before', rfl, hcalls⟩
        · cases hcalls
          exact Or.inl hrest
        · exact Or.inr ⟨before', c', after, (List.cons.inj hcalls).2, hrest⟩
      · rintro (hrest | ⟨before, c', after, hcalls, hrest⟩)
        · exact ⟨[], c, calls, rfl, hrest⟩
        · exact ⟨c :: before, c', after, by rw [hcalls]; rfl, hrest⟩
    rw [hcons, ← ih h.tail]
    by_cases hc : c.status = .end'
    · have hns : c.status ≠ .start := by
        rw [hc]
        decide
      rw [journal_end hc, survivors]
      simp [hns]
    · obtain ⟨r', hr'⟩ := h.record hc
      rw [journal_start hc hr', survivors, ← isClosed_hits hr', hr', Option.some.injEq]
      simp only [start_of_ne hc, true_and]
      cases hclosed : isClosed hits (journal reader calls) r' with
      | true => simp
      | false => simp [List.mem_cons, eq_comm]

theorem endsTransaction_record {c e : LogCall writer} {r : TransactionRecord P}
    (hr : c.record reader = some r) : e.endsTransaction r = true ↔ c.SameTransaction e := by
  obtain ⟨k, hk, rfl⟩ := Option.map_eq_some_iff.mp hr
  obtain ⟨hid, hheader⟩ := Packet.received_eq hk
  have htarget : k.kernel.targetApplicationId = c.k.targetApplicationId := by
    rw [← c.k.targetApplicationId_sent, ← hheader]
    rfl
  simp only [endsTransaction, hid, htarget, Bool.and_eq_true, beq_iff_eq, SameTransaction, and_assoc]

theorem agree_iff {calls : List (LogCall writer)} (h : Readable reader calls) :
    Agree hits endsTransaction (journal reader calls) ↔ HeaderWordsTell calls := by
  induction calls with
  | nil => simp [journal, Agree, HeaderWordsTell]
  | cons c calls ih =>
    by_cases hc : c.status = .end'
    · have hns : c.status ≠ .start := by rw [hc]; decide
      rw [journal_end hc, Agree, HeaderWordsTell, ih h.tail]
      simp [hns]
    · obtain ⟨r, hr⟩ := h.record hc
      rw [journal_start hc hr, Agree, HeaderWordsTell, ih h.tail, Bool.eq_iff_iff, isClosed_journal,
        isClosed_journal]
      simp only [hits_record hr, endsTransaction_record hr, start_of_ne hc, true_implies]

/-- **What is read back is what the log is for** if and only if every `start` record can be
read, and the header words of the `end` records tell which transactions they end. -/
theorem readRecords_eq_open_iff (reader : Process P) (calls : List (LogCall writer)) :
    ∃ file, writeAll calls {} = .ok () { file } ∧ ∀ pieces, pieces.flatten = file →
      (readRecords reader pieces = some (.ok (openTransactions reader calls)) ↔
        Readable reader calls ∧ HeaderWordsTell calls) := by
  refine ⟨fileOf calls, writeAll_empty calls, fun pieces hfile => ?_⟩
  by_cases h : Readable reader calls
  · rw [readRecords_eq hfile h, openTransactions, Option.some.injEq, Except.ok.injEq, survivors_eq_iff,
      agree_iff h]
    simp only [h, true_and]
  · obtain ⟨e, he⟩ := readRecords_unreadable hfile h
    rw [he]
    simp [h]

end LogCall

/-! ### A transaction that is never closed -/

/-- A kernel with the id 5 that carries its parent. -/
def Kernel.carrier : Kernel Unit :=
  { Kernel.plain [] with id := 5, parentWord := 1, flags := KernelFlags.setf 0 .carriesParent }

/-- A kernel that carries the blank kernel as its parent is laid down with it. -/
theorem writes_plain_parent {k : Kernel Unit} (hk : k.payload = .native KernelType.plain.index ())
    (hcarries : k.carriesParent = true) (hparent : k.parent ≠ 0) :
    Writes ((Process.plain 0).write Memory.blank k)
      (k.packet Memory.blank 2 (u16Bytes 2 ++ (Kernel.plain []).bytes Memory.blank)) := by
  have hp : Writes ((Process.plain 0).writeNative Memory.blank (Kernel.plain []))
      (u16Bytes KernelType.plain.id ++ ((Kernel.plain []).bytes Memory.blank ++ [])) :=
    Process.writes_native rfl mem_plain rfl writes_plain_state
  rw [List.append_nil] at hp
  have h : Writes ((Process.plain 0).write Memory.blank k) (k.packet Memory.blank KernelType.plain.id
      ([] ++ (u16Bytes KernelType.plain.id ++ (Kernel.plain []).bytes Memory.blank))) :=
    Process.writes_packet rfl mem_plain hk writes_plain_state (Process.writes_parent hcarries hparent hp)
  exact h

theorem length_packet_carrier (k : Kernel Unit) (hs : k.source = .unset) (hd : k.destination = .unset)
    (hf : k.fields = {}) (ha : k.sourceApplication = .id 0) (ht : k.targetApplication = .id 0)
    (hpath : k.path = []) (hfilter : k.nodeFilter = none) :
    (k.packet Memory.blank 2 (u16Bytes 2 ++ (Kernel.plain []).bytes Memory.blank)).length = 139 := by
  simp [Kernel.packet, Header.bytes, Header.addressBytes, Header.written, hs, hd, hf, ha, ht, hpath, hfilter,
    ApplicationSlot.bytes, Kernel.bytes, stringBytes, Kernel.plain, Kernel.fresh]

/-- The kernel leaves. -/
def carrierLeaves : LogCall (Process.plain 0) where
  mem := Memory.blank
  status := .start
  pipelineIndex := 0
  k := Kernel.carrier
  typeId := 2
  bytes := u16Bytes 2 ++ (Kernel.plain []).bytes Memory.blank
  status_eq := TransactionStatus.recorded_start
  carries := by decide
  writes := writes_plain_parent rfl (by decide) (by decide)
  fits := by
    rw [Framing.Fits, length_packet_carrier _ rfl rfl rfl rfl rfl rfl rfl]
    exact (by decide : 4 + 139 < 2 ^ 32)
  record_fits := by
    rw [length_packet_carrier _ rfl rfl rfl rfl rfl rfl rfl]
    decide

/-- The kernel returns. -/
def carrierReturns : LogCall (Process.plain 0) where
  mem := Memory.blank
  status := .end'
  pipelineIndex := 0
  k := Kernel.carrier.returnToParent .success
  typeId := 2
  bytes := u16Bytes 2 ++ (Kernel.plain []).bytes Memory.blank
  status_eq := TransactionStatus.recorded_end
  carries := by decide
  writes := writes_plain_parent rfl (by decide) (by decide)
  fits := by
    rw [Framing.Fits, length_packet_carrier _ rfl rfl rfl rfl rfl rfl rfl]
    exact (by decide : 4 + 139 < 2 ^ 32)
  record_fits := by
    rw [length_packet_carrier _ rfl rfl rfl rfl rfl rfl rfl]
    decide

theorem received_carrier : ∃ r, carrierLeaves.received (Process.plain 0) = some r := by
  have hk : Kernel.carrier.Encodable := ⟨trivial, trivial, by decide, fun e he => nomatch he⟩
  have hp : (Memory.blank Kernel.carrier.parent).Encodable :=
    ⟨trivial, trivial, by decide, fun e he => nomatch he⟩
  have hread : ReadsAll (Process.plain 0).read
      (Kernel.carrier.packet Memory.blank KernelType.plain.id
        ([] ++ (u16Bytes KernelType.plain.id ++ ((Memory.blank Kernel.carrier.parent).bytes Memory.blank ++ []))))
      (Process.asCarrier (Process.plain 0) Memory.blank Kernel.carrier KernelType.plain KernelType.plain () ()) :=
    Process.read_native_carried hk rfl rfl mem_plain (Reads.pure ()) (by decide) hp rfl mem_plain
      (Reads.pure ())
  rw [List.append_nil, List.nil_append] at hread
  exact ⟨_, Packet.received_of_readsAll hread⟩

end Log

/-- **A completed transaction is read back as open**: the `end` record of a kernel with the id 5
erases the records with the id 0. -/
theorem readRecords_returned :
    letI := ByteOrder.littleEndian
    ∃ file r, LogCall.writeAll [carrierLeaves, carrierReturns] {} = .ok () { file } ∧
      LogCall.openTransactions (Process.plain 0) [carrierLeaves, carrierReturns] = [] ∧
      readRecords (Process.plain 0) [file] = some (.ok [r]) := by
  let _ := ByteOrder.littleEndian
  obtain ⟨k, hk⟩ := received_carrier
  have hr : carrierLeaves.record (Process.plain 0) = some ⟨.start, 0, k⟩ := by
    rw [LogCall.record, hk]
    rfl
  have hword : carrierReturns.k.headerWord = 0 := by decide
  have hid : k.kernel.id = 5 := (Packet.received_eq hk).1
  have hjournal : LogCall.journal (Process.plain 0) [carrierLeaves, carrierReturns] =
      [.opened ⟨.start, 0, k⟩, .closed carrierReturns] := by
    rw [LogCall.journal_start (by decide) hr, LogCall.journal_end rfl]
    rfl
  have hreadable : LogCall.Readable (Process.plain 0) [carrierLeaves, carrierReturns] := by
    intro c hc hstart
    rcases List.mem_pair.mp hc with rfl | rfl
    · rw [hk]
      rfl
    · cases hstart
  have hends : carrierReturns.endsTransaction ⟨.start, 0, k⟩ = true :=
    (LogCall.endsTransaction_record hr).mpr ⟨rfl, rfl, rfl⟩
  have hmisses : carrierReturns.hits ⟨.start, 0, k⟩ = false := by
    rw [LogCall.hits, hword, hid]
    rfl
  refine ⟨LogCall.fileOf [carrierLeaves, carrierReturns], ⟨.start, 0, k⟩, LogCall.writeAll_empty _, ?_, ?_⟩
  · simp [LogCall.openTransactions, hjournal, survivors, isClosed, hends]
  · rw [LogCall.readRecords_eq (List.flatten_singleton) hreadable, hjournal]
    simp [survivors, isClosed, hmisses]

end Subordination.Core
