import Subordination.Core.AtomicWrites
import Subordination.Core.Rewriting
import Subordination.Library.System

/-!
# One restart after another

A daemon that is started again and again over one transaction log: each time it recovers the log,
sends the kernels in it again, and dies before any of them returns (`core/transaction_log.cc`,
`core/connection.cc`).

## The model

`Resends` is `transaction_log::recover(record_array&)` and what comes of it: each kernel goes to the
pipeline of its record, and from there over one of the connections, which are in any state by then.
On the way a kernel may get a destination. The kernels may overtake each other, and the daemon may die
when only some of them have been sent.

The log remembers what `read_records` has returned at each restart, what `recover` has left, and each
kernel that has gone over a connection, with the memory at that time.

## What is proved

* `Restarted.recorded_again` — a kernel that is sent again is recorded again, and the next restart reads
  both records.
* `Restarted.reads_le` — the number of records never exceeds that at the beginning if `recover` keeps at
  most half as many: then there is room for the new ones. That no kernel gets a second record takes a
  `recover` that keeps none.
-/

namespace Subordination.Core

open Library

section Restarts

variable {P : Type} [ByteOrder]

/-! ### Sending the kernels -/

/-- The connection keeps the kernels that go upstream, and records them. -/
structure Endpoint.Records (ppl : BasicSocketPipeline) (e : Endpoint P) : Prop where
  /-- `save_upstream_kernels`. -/
  saves : e.connection.flags.saveUpstreamKernels = true
  /-- `write_transaction_log`. -/
  writes : e.connection.flags.writeTransactionLog = true
  /-- The pipeline knows the log. -/
  transactions : ppl.transactions = true

/-- What comes before the kernel is written: a native kernel that is sent gets an id. -/
def Endpoint.ready (e : Endpoint P) (k : Kernel P) : Option (Endpoint P × Kernel P) :=
  if k.isNative then e.prepare k else some (e, k)

/-- A native kernel is sent over the connection, a foreign one is forwarded. -/
def Endpoint.resend (proc : Process P) (ppl : BasicSocketPipeline) (e : Endpoint P) (k : Kernel P) :
    Option (Endpoint P) :=
  if k.isNative then (e.send proc ppl k).map Prod.fst else some (e.doForward proc ppl k).1

/-- `recover(record_array&)`: what it does to the log, and the kernels that go over a connection. -/
inductive Resends (proc : Process P) (pipelines : List BasicSocketPipeline) (memory : Memory P) :
    List HeldRecord → TransactionLog → List (Memory P × Kernel P) → TransactionLog → Prop
  /-- The daemon dies. -/
  | died (records : List HeldRecord) (log : TransactionLog) :
      Resends proc pipelines memory records log [] log
  /-- The kernel of one of the records goes over a connection. -/
  | sent {before after : List HeldRecord} {r : HeldRecord} {ppl : BasicSocketPipeline} {e e₁ e' : Endpoint P}
      {k k₁ : Kernel P} {destination : SocketAddress} {later : List (Memory P × Kernel P)}
      {log : TransactionLog} :
      pipelines[r.pipelineIndex.toNat]? = some ppl → e.Records ppl →
      k = { memory r.k with destination } → e.ready k = some (e₁, k₁) → e.resend proc ppl k = some e' →
      Resends proc pipelines memory (before ++ after) e'.log later log →
      Resends proc pipelines memory (before ++ r :: after) e.log ((e₁.memory, k₁) :: later) log

/-! ### The log and its restarts -/

/-- The frames of the given bodies, one after another. -/
def framesOf (bodies : List (List UInt8)) : List UInt8 := (bodies.map kernelFraming.frame).flatten

/-- A log that is recovered again and again. -/
structure Restarted (P : Type) where
  /-- The file. -/
  file : List UInt8
  /-- What `read_records` has returned, oldest first. -/
  reads : List (List (TransactionRecord P)) := []
  /-- What `recover` has left, oldest first. -/
  recoveries : List (Recovered P) := []
  /-- The kernels that have gone over a connection, oldest first, and the memory at that time. -/
  sent : List (Memory P × Kernel P) := []

/-- One restart after another, over a log that holds the records with the given bodies. The daemon
does not get to the new file if `recover` throws, or if it dies before that. -/
def restarts (proc : Process P) (maxRecords : ℕ) (pipelines : List BasicSocketPipeline)
    (bodies : List (List UInt8)) : System (Restarted P) where
  Initial s := s = { file := framesOf bodies }
  Step s s' := ∃ room pieces records, pieces.flatten = s.file ∧
    readRecords proc pieces = some (.ok records) ∧
    (s' = { s with reads := s.reads ++ [records] } ∨
      ∃ recovered sent log, recoverFile proc maxRecords room pieces = some (.ok recovered) ∧
        Resends proc pipelines recovered.memory recovered.records { file := recovered.file } sent log ∧
        s' =
          { file := log.file
            reads := s.reads ++ [records]
            recoveries := s.recoveries ++ [recovered]
            sent := s.sent ++ sent })

/-- The record of the kernel fits in a frame, given what the classes lay down. -/
def RecordFits (proc : Process P) (writes : String → P → Laid) (memory : Memory P) (k : Kernel P) : Prop :=
  9 + (proc.laid writes memory k).bytes.length < 2 ^ 32

instance (proc : Process P) (writes : String → P → Laid) (memory : Memory P) (k : Kernel P) :
    Decidable (RecordFits proc writes memory k) :=
  inferInstanceAs (Decidable (_ < _))

/-- Every record that is written again fits in a frame. -/
def Recovered.Fits (proc : Process P) (writes : String → P → Laid) (recovered : Recovered P) : Prop :=
  ∀ r ∈ recovered.records, RecordFits proc writes recovered.memory (recovered.memory r.k)

variable {proc : Process P} {writes : String → P → Laid}

/-! ### A record in a frame -/

/-- **What is laid down for a record**: one frame, whatever the kernel, also if its class throws. -/
theorem lays_record (hwrites : ∀ index state, Lays ((proc.classes index).write state) (writes index state))
    {memory : Memory P} {k : Kernel P} (hfits : RecordFits proc writes memory k) (status : TransactionStatus)
    (index : UInt32) : ∃ body thrown, kernelFraming.Fits body ∧
      Lays (writeFrame (putRecord proc memory status index k)) ⟨kernelFraming.frame body, thrown⟩ := by
  have hput : Lays (putRecord proc memory status index k) (Laid.seq { bytes := u8Bytes status.byte }
      (Laid.seq { bytes := u32Bytes index } (proc.laid writes memory k))) :=
    (writes_bytes _).lays.seq ((writes_bytes _).lays.seq (Process.lays_write hwrites))
  have hbody : kernelFraming.Fits (recordBody status index (proc.laid writes memory k).bytes) := by
    simp only [Framing.Fits, recordBody, List.length_append, length_u8Bytes, length_u32Bytes]
    change 4 + (1 + (4 + _)) < 2 ^ 32
    rw [RecordFits] at hfits
    omega
  exact ⟨_, _, hbody, hput.frame (recordBody_ne_nil _ _ _) hbody⟩

/-! ### A log of frames -/

/-- The file is made of frames, and so is what has been written and not flushed: at most the given number
in all. -/
structure TransactionLog.Framed (n : ℕ) (log : TransactionLog) : Prop where
  /-- The frames. -/
  frames : ∃ bodies pending, bodies.length + List.length pending ≤ n ∧
    (∀ body ∈ bodies ++ pending, kernelFraming.Fits body) ∧ log.file = framesOf bodies ∧
      log.buffer.content = framesOf pending
  /-- The buffer is sound. -/
  position : log.buffer.position ≤ log.buffer.data.length

theorem framesOf_append (bodies bodies' : List (List UInt8)) :
    framesOf (bodies ++ bodies') = framesOf bodies ++ framesOf bodies' := by
  rw [framesOf, List.map_append, List.flatten_append, framesOf, framesOf]

theorem framesOf_singleton (body : List UInt8) : framesOf [body] = kernelFraming.frame body :=
  List.flatten_singleton

theorem TransactionLog.Framed.succ {n : ℕ} {log : TransactionLog} (h : log.Framed n) : log.Framed (n + 1) := by
  obtain ⟨⟨bodies, pending, hlength, hframes⟩, hposition⟩ := h
  exact ⟨⟨bodies, pending, Nat.le_succ_of_le hlength, hframes⟩, hposition⟩

/-- The state in which a call ends, with or without an exception. -/
def stateOf {σ : Type} : EStateM.Result Exception σ Unit → σ
  | .ok _ s => s
  | .error _ s => s

/-- **A record adds at most one frame to the log**. If it throws, the frame is still in the buffer. -/
theorem TransactionLog.Framed.write
    (hwrites : ∀ index state, Lays ((proc.classes index).write state) (writes index state))
    {memory : Memory P} {k : Kernel P} (hfits : RecordFits proc writes memory k) {n : ℕ} {log : TransactionLog}
    (h : log.Framed n) (status : TransactionStatus) (index : UInt32) :
    (stateOf (TransactionLog.write proc memory status index k log)).Framed (n + 1) := by
  obtain ⟨⟨bodies, pending, hlength, hall, hfile, hcontent⟩, hposition⟩ := id h
  unfold TransactionLog.write
  by_cases hcarries : k.carriesParent = true
  · obtain ⟨body, thrown, hbody, hlays⟩ := lays_record hwrites hfits status index
    obtain ⟨b, hframe, -, hb, hwritten⟩ := hlays log.buffer hposition
    have hall' : ∀ body' ∈ bodies ++ (pending ++ [body]), kernelFraming.Fits body' := by
      intro body' hbody'
      rw [← List.append_assoc] at hbody'
      rcases List.mem_append.mp hbody' with hbody' | hbody'
      · exact hall body' hbody'
      · rw [List.mem_singleton.mp hbody']
        exact hbody
    have hpending : b.content = framesOf (pending ++ [body]) := by
      rw [hwritten, hcontent, framesOf_append, framesOf_singleton]
    have hlength' : bodies.length + (pending ++ [body]).length ≤ n + 1 := by
      rw [List.length_append, List.length_singleton]
      omega
    rw [hcarries, Bool.not_true, if_neg Bool.false_ne_true, hframe]
    cases thrown with
    | none =>
      -- the frames that are pending are flushed with the new one
      refine ⟨⟨bodies ++ (pending ++ [body]), [], ?_, ?_, ?_, ?_⟩, ?_⟩
      · simpa using hlength'
      · rw [List.append_nil]
        exact hall'
      · have hflushed : b.flip.flush.1 = framesOf (pending ++ [body]) := b.window_flip.trans hpending
        change log.file ++ b.flip.flush.1 = _
        rw [hflushed, hfile, framesOf_append bodies]
      · change b.flip.flush.2.compact.content = _
        rw [ByteBuffer.compact_flush, ByteBuffer.content_empty]
        rfl
      · exact b.flip.flush.2.position_le_compact
    | some x => exact ⟨⟨bodies, pending ++ [body], hlength', hall', hfile, hpending⟩, hb⟩
  · rw [Bool.not_eq_true] at hcarries
    rw [hcarries, Bool.not_false, if_pos rfl]
    exact h.succ

/-! ### A kernel that goes over a connection -/

theorem Endpoint.log_record (ppl : BasicSocketPipeline) (e : Endpoint P) (k : Kernel P)
    (status : Option TransactionStatus) : (e.record proc ppl k status).1.log = e.log ∨ ∃ status',
      (e.record proc ppl k status).1.log =
        stateOf (TransactionLog.write proc e.memory status' ppl.index k e.log) := by
  cases status with
  | none => exact Or.inl rfl
  | some status =>
    rw [record]
    split
    · refine Or.inr ⟨status, ?_⟩
      split
      · rename_i hwrite
        rw [hwrite]
        rfl
      · rename_i hwrite
        rw [hwrite]
        rfl
    · exact Or.inl rfl

/-- A kernel that is written and saved adds at most one frame to the log. -/
theorem Endpoint.framed_doForward
    (hwrites : ∀ index state, Lays ((proc.classes index).write state) (writes index state))
    {k : Kernel P} {e : Endpoint P} (hfits : RecordFits proc writes e.memory k) {n : ℕ} (h : e.log.Framed n)
    (ppl : BasicSocketPipeline) : (e.doForward proc ppl k).1.log.Framed (n + 1) := by
  obtain ⟨b, load, hwrite⟩ := e.writeKernel_eq proc k
  rw [doForward, saveKernel, log_keep, hwrite]
  rcases log_record ppl { e with connection.outputBuffer := b, connection.load := load } k
    (({ e with connection.outputBuffer := b, connection.load := load } : Endpoint P).plan k).2
    with hlog | ⟨status, hlog⟩
  · rw [hlog]
    exact h.succ
  · rw [hlog]
    exact h.write hwrites hfits status ppl.index

/-- What `send` and `do_forward` do once the kernel is ready. -/
theorem Endpoint.resend_eq (ppl : BasicSocketPipeline) {e e₁ : Endpoint P} {k k₁ : Kernel P}
    (h : e.ready k = some (e₁, k₁)) : e.resend proc ppl k = some (e₁.doForward proc ppl k₁).1 := by
  rw [ready] at h
  rw [resend]
  split at h
  · rename_i hnative
    rw [if_pos hnative, send, h]
    rfl
  · rename_i hforeign
    cases h
    rw [if_neg hforeign]

omit [ByteOrder] in
/-- Nothing is recorded before the kernel is written. -/
theorem Endpoint.log_ready {e e₁ : Endpoint P} {k k₁ : Kernel P} (h : e.ready k = some (e₁, k₁)) :
    e₁.log = e.log := by
  rw [ready, prepare] at h
  split_ifs at h with hnative hup hnull
  · cases h
    change (e.ensureHasId k.parent).log = e.log
    rw [ensureHasId]
    split <;> rfl
  · cases h
    rfl
  · cases h
    rfl

/-- **The kernels of the records add at most as many frames**: each goes over a connection at most once. -/
theorem Resends.framed
    (hwrites : ∀ index state, Lays ((proc.classes index).write state) (writes index state))
    {pipelines : List BasicSocketPipeline} {memory : Memory P} {records : List HeldRecord}
    {sent : List (Memory P × Kernel P)} {log log' : TransactionLog}
    (h : Resends proc pipelines memory records log sent log')
    (hfits : ∀ x ∈ sent, RecordFits proc writes x.1 x.2) {n : ℕ} (hlog : log.Framed n) :
    log'.Framed (n + records.length) := by
  induction h generalizing n with
  | died records log =>
    obtain ⟨⟨bodies, pending, hlength, hframes⟩, hposition⟩ := hlog
    exact ⟨⟨bodies, pending, hlength.trans (Nat.le_add_right _ _), hframes⟩, hposition⟩
  | @sent before after r ppl e e₁ e' k k₁ destination later log _ _ _ hready hresend _ ih =>
    have hone : e'.log.Framed (n + 1) := by
      rw [Endpoint.resend_eq ppl hready, Option.some.injEq] at hresend
      rw [← Endpoint.log_ready hready] at hlog
      rw [← hresend]
      exact Endpoint.framed_doForward hwrites (hfits (e₁.memory, k₁) List.mem_cons_self) hlog ppl
    have hrest := ih (fun x hx => hfits x (List.mem_cons_of_mem _ hx)) hone
    have hcount : n + (before ++ r :: after).length = n + 1 + (before ++ after).length := by
      simp only [List.length_append, List.length_cons]
      omega
    rw [hcount]
    exact hrest

/-- No more kernels are sent again than there are records. -/
theorem Resends.length_le {pipelines : List BasicSocketPipeline} {memory : Memory P}
    {records : List HeldRecord} {sent : List (Memory P × Kernel P)} {log log' : TransactionLog}
    (h : Resends proc pipelines memory records log sent log') : sent.length ≤ records.length := by
  induction h with
  | died records log => exact Nat.zero_le _
  | sent _ _ _ _ _ _ ih =>
    simp only [List.length_append, List.length_cons] at ih ⊢
    omega

/-! ### A file of frames -/

/-- A frame yields at most one record. -/
theorem length_handleRecord {body : List UInt8} {records records' : List (TransactionRecord P)}
    (h : handleRecord proc body records = .ok () records') : records'.length ≤ records.length + 1 := by
  rw [handleRecord] at h
  split at h
  · rename_i r w hread
    cases h
    cases r with
    | inl id => exact (List.length_filter_le _ _).trans (Nat.le_succ _)
    | inr record =>
      rw [applyRecord, List.length_append]
      exact le_rfl
  · cases h

theorem length_forM_handleRecord {bodies : List (List UInt8)} {records records' : List (TransactionRecord P)}
    (h : bodies.forM (handleRecord proc) records = .ok () records') :
    records'.length ≤ records.length + bodies.length := by
  induction bodies generalizing records with
  | nil =>
    cases h
    exact le_rfl
  | cons body bodies ih =>
    obtain ⟨records₁, h₁, h₂⟩ := forM_cons_ok h
    have hone := length_handleRecord h₁
    have hrest := ih h₂
    rw [List.length_cons]
    omega

/-- A file yields at most as many records as there are frames. -/
theorem length_readRecords {bodies : List (List UInt8)} (hfits : ∀ body ∈ bodies, kernelFraming.Fits body)
    {pieces : List (List UInt8)} (hpieces : pieces.flatten = framesOf bodies)
    {records : List (TransactionRecord P)} (h : readRecords proc pieces = some (.ok records)) :
    records.length ≤ bodies.length := by
  cases hloop : bodies.forM (handleRecord proc) [] with
  | ok u records' =>
    obtain ⟨b, e, -⟩ := receiveChunks_eq (b := ByteBuffer.empty) le_rfl kernelFraming.partial_nil hfits
      hpieces hloop
    rw [readRecords, e] at h
    cases h
    have hlength := length_forM_handleRecord hloop
    rwa [List.length_nil, Nat.zero_add] at hlength
  | error x records' =>
    rw [readRecords, receiveChunks_error (b := ByteBuffer.empty) le_rfl kernelFraming.partial_nil hfits
      hpieces hloop] at h
    cases h

/-- The records that `recover` writes make as many frames. -/
theorem content_writeHeld
    (hwrites : ∀ index state, Lays ((proc.classes index).write state) (writes index state))
    {memory : Memory P} {held : List HeldRecord}
    (hfits : ∀ r ∈ held, RecordFits proc writes memory (memory r.k)) {b b' : ByteBuffer}
    (hb : b.position ≤ b.data.length) (h : writeHeld proc memory held b = .ok () b') :
    ∃ bodies, bodies.length = held.length ∧ (∀ body ∈ bodies, kernelFraming.Fits body) ∧
      b'.content = b.content ++ framesOf bodies := by
  induction held generalizing b with
  | nil =>
    cases h
    exact ⟨[], rfl, (fun body hbody => nomatch hbody), (List.append_nil _).symm⟩
  | cons r held ih =>
    obtain ⟨body, thrown, hbody, hlays⟩ :=
      lays_record hwrites (hfits r List.mem_cons_self) r.status r.pipelineIndex
    obtain ⟨b₁, hframe, -, hb₁, hcontent⟩ := hlays b hb
    have hrest : writeHeld proc memory held b₁ = .ok () b' := by
      change EStateM.bind (writeFrame _) _ b = _ at h
      rw [EStateM.bind, hframe] at h
      cases thrown with
      | none => exact h
      | some x => cases h
    obtain ⟨bodies, hlength, hall, hcontent'⟩ :=
      ih (fun r' hr' => hfits r' (List.mem_cons_of_mem r hr')) hb₁ hrest
    refine ⟨body :: bodies, by rw [List.length_cons, List.length_cons, hlength], ?_, ?_⟩
    · intro body' hbody'
      rcases List.mem_cons.mp hbody' with rfl | hbody'
      · exact hbody
      · exact hall body' hbody'
    · rw [hcontent', hcontent, List.append_assoc]
      rfl

/-- What `recover` leaves: no more records than it has read, nor than it keeps, and a file of as many
frames. -/
theorem recoverFile_framesOf
    (hwrites : ∀ index state, Lays ((proc.classes index).write state) (writes index state))
    {maxRecords : ℕ} {room : Room P} {pieces : List (List UInt8)} {records : List (TransactionRecord P)}
    {recovered : Recovered P} (hread : readRecords proc pieces = some (.ok records))
    (h : recoverFile proc maxRecords room pieces = some (.ok recovered))
    (hfits : recovered.Fits proc writes) :
    recovered.records.length ≤ min maxRecords records.length ∧
      ∃ bodies, bodies.length = recovered.records.length ∧ (∀ body ∈ bodies, kernelFraming.Fits body) ∧
        recovered.file = framesOf bodies := by
  rw [recoverFile, hread] at h
  dsimp only at h
  split at h
  · cases h
  · split at h
    · cases h
    · rename_i u b hwrite
      cases h
      obtain ⟨bodies, hlength, hall, hcontent⟩ := content_writeHeld hwrites hfits le_rfl hwrite
      refine ⟨?_, bodies, hlength, hall, ?_⟩
      · rw [List.length_take, List.length_map, List.length_zip]
        omega
      · rw [ByteBuffer.content_empty, List.nil_append] at hcontent
        exact b.window_flip.trans hcontent

/-! ### The run -/

/-- The file has at most the given number of records, and so have all that have been read. -/
structure Restarted.Within (n : ℕ) (s : Restarted P) : Prop where
  /-- The file is made of frames. -/
  file : ∃ bodies, bodies.length ≤ n ∧ (∀ body ∈ bodies, kernelFraming.Fits body) ∧ s.file = framesOf bodies
  /-- What has been read. -/
  reads : ∀ records ∈ s.reads, records.length ≤ n

theorem Restarted.Within.read {n : ℕ} {s : Restarted P} (h : s.Within n) {pieces : List (List UInt8)}
    (hpieces : pieces.flatten = s.file) {records : List (TransactionRecord P)}
    (hread : readRecords proc pieces = some (.ok records)) :
    records.length ≤ n ∧ ∀ records' ∈ s.reads ++ [records], records'.length ≤ n := by
  obtain ⟨bodies, hlength, hall, hfile⟩ := h.file
  have hn : records.length ≤ n := (length_readRecords hall (hpieces.trans hfile) hread).trans hlength
  refine ⟨hn, fun records' hrecords' => ?_⟩
  rcases List.mem_append.mp hrecords' with hrecords' | hrecords'
  · exact h.reads records' hrecords'
  · rw [List.mem_singleton.mp hrecords']
    exact hn

/-- A restart leaves at most twice as many frames as `recover` keeps, and none if it reads none. -/
theorem Restarted.Within.restart
    (hwrites : ∀ index state, Lays ((proc.classes index).write state) (writes index state))
    {maxRecords n : ℕ} {pipelines : List BasicSocketPipeline} {room : Room P} {pieces : List (List UInt8)}
    {records : List (TransactionRecord P)} {recovered : Recovered P} {sent : List (Memory P × Kernel P)}
    {log : TransactionLog} (hmax : n = 0 ∨ 2 * maxRecords ≤ n) (hn : records.length ≤ n)
    (hread : readRecords proc pieces = some (.ok records))
    (hrecover : recoverFile proc maxRecords room pieces = some (.ok recovered))
    (hfits : recovered.Fits proc writes)
    (hresends : Resends proc pipelines recovered.memory recovered.records { file := recovered.file } sent log)
    (hsent : ∀ x ∈ sent, RecordFits proc writes x.1 x.2) :
    (∃ bodies, bodies.length ≤ n ∧ (∀ body ∈ bodies, kernelFraming.Fits body) ∧ log.file = framesOf bodies) ∧
      (n = 0 ∨ maxRecords = 0 → sent = []) := by
  obtain ⟨hkept, bodies, hlength, hall, hfile⟩ := recoverFile_framesOf hwrites hread hrecover hfits
  have hfirst : TransactionLog.Framed recovered.records.length { file := recovered.file } :=
    ⟨⟨bodies, [], by simp [hlength], by simpa using hall, hfile, rfl⟩, le_rfl⟩
  obtain ⟨⟨bodies', pending, hlength', hall', hfile', -⟩, -⟩ := hresends.framed hwrites hsent hfirst
  refine ⟨⟨bodies', ?_, fun body hbody => hall' body (List.mem_append_left _ hbody), hfile'⟩, fun hnone => ?_⟩
  · rcases hmax with rfl | hmax
    · omega
    · omega
  · have hle := hresends.length_le
    refine List.eq_nil_of_length_eq_zero ?_
    omega

/-- **The number of records does not grow** if `recover` keeps at most half of them, and the records fit in
their frames. No kernel is sent a second time if it keeps none. -/
theorem Restarted.reads_le
    (hwrites : ∀ index state, Lays ((proc.classes index).write state) (writes index state))
    {maxRecords : ℕ} {pipelines : List BasicSocketPipeline} {bodies : List (List UInt8)}
    (hbodies : ∀ body ∈ bodies, kernelFraming.Fits body)
    (hmax : bodies = [] ∨ 2 * maxRecords ≤ bodies.length) {s : Restarted P}
    (h : (restarts proc maxRecords pipelines bodies).Reachable s)
    (hsent : ∀ x ∈ s.sent, RecordFits proc writes x.1 x.2)
    (hrecovered : ∀ recovered ∈ s.recoveries, recovered.Fits proc writes) :
    (∀ records ∈ s.reads, records.length ≤ bodies.length) ∧ (bodies = [] ∨ maxRecords = 0 → s.sent = []) := by
  have hmax' : bodies.length = 0 ∨ 2 * maxRecords ≤ bodies.length := hmax.imp_left List.length_eq_zero_iff.mpr
  suffices hwithin : s.Within bodies.length ∧ (bodies.length = 0 ∨ maxRecords = 0 → s.sent = []) from
    ⟨hwithin.1.reads, fun hnone => hwithin.2 (hnone.imp_left List.length_eq_zero_iff.mpr)⟩
  refine h.invariant (p := fun s => (∀ x ∈ s.sent, RecordFits proc writes x.1 x.2) →
    (∀ recovered ∈ s.recoveries, recovered.Fits proc writes) →
      s.Within bodies.length ∧ (bodies.length = 0 ∨ maxRecords = 0 → s.sent = [])) ?_ ?_ hsent hrecovered
  · rintro s rfl - -
    exact ⟨⟨⟨bodies, le_rfl, hbodies, rfl⟩, fun records hrecords => nomatch hrecords⟩, fun _ => rfl⟩
  · rintro s s' ih ⟨room, pieces, records, hpieces, hread, hstep⟩ hsent hrecovered
    rcases hstep with rfl | ⟨recovered, sent, log, hrecover, hresends, rfl⟩
    · obtain ⟨hs, hnone⟩ := ih hsent hrecovered
      exact ⟨⟨hs.file, (hs.read hpieces hread).2⟩, hnone⟩
    · obtain ⟨hs, hnone⟩ := ih (fun x hx => hsent x (List.mem_append_left _ hx))
        fun r hr => hrecovered r (List.mem_append_left _ hr)
      have hlast := hrecovered recovered (List.mem_append_right _ (List.mem_singleton.mpr rfl))
      obtain ⟨hn, hreads⟩ := hs.read hpieces hread
      obtain ⟨hfile, hlastSent⟩ := Restarted.Within.restart hwrites hmax' hn hread hrecover hlast hresends
        fun x hx => hsent x (List.mem_append_right _ hx)
      refine ⟨⟨hfile, hreads⟩, fun h => ?_⟩
      change s.sent ++ sent = []
      rw [hnone h, hlastSent h, List.append_nil]

/-! ### A kernel that is recorded again -/

/-- A connection after the first restart. -/
def Endpoint.afterRestart (recovered : Recovered Unit) : Endpoint Unit where
  connection := { flags := { saveUpstreamKernels := true, saveDownstreamKernels := true, writeTransactionLog := true } }
  memory := recovered.memory
  log := { file := recovered.file }

/-- A pipeline that knows the log. -/
def BasicSocketPipeline.recording : BasicSocketPipeline := { transactions := true }

/-- The result, if there is no exception. -/
def succeeded {α : Type} : Option (Except Exception α) → Option α
  | some (.ok a) => some a
  | _ => none

omit [ByteOrder] in
theorem succeeded_eq_some {α : Type} {r : Option (Except Exception α)} {a : α} :
    succeeded r = some a ↔ r = some (.ok a) := by
  rcases r with _ | (x | b) <;> simp [succeeded]

/-- Two restarts, with one kernel that is sent after the first: what the first leaves, the connection, the
kernel as it went over it, and what the second reads. -/
def sendTwice (maxRecords : ℕ) (cs : List (StartRecord (Process.plain 0))) :
    Option (Recovered Unit × Endpoint Unit × (Memory Unit × Kernel Unit) × List (TransactionRecord Unit)) := do
  let recovered ← succeeded (recoverFile (Process.plain 0) maxRecords Room.plain [StartRecord.fileOf cs])
  let (e₁, k) ← (Endpoint.afterRestart recovered).ready (recovered.memory 1)
  let e ← (Endpoint.afterRestart recovered).resend (Process.plain 0) .recording (recovered.memory 1)
  let records ← succeeded (readRecords (Process.plain 0) [e.log.file])
  pure (recovered, e, (e₁.memory, k), records)

/-- The run of these two restarts. -/
theorem reachable_sendTwice {maxRecords : ℕ} {cs : List (StartRecord (Process.plain 0))}
    {recovered : Recovered Unit} {e : Endpoint Unit} {sent : Memory Unit × Kernel Unit}
    {records : List (TransactionRecord Unit)}
    (h : sendTwice maxRecords cs = some (recovered, e, sent, records))
    (hheld : recovered.records = [⟨.start, 0, 1⟩]) :
    (restarts (Process.plain 0) maxRecords [.recording] (cs.map StartRecord.body)).Reachable
      { file := e.log.file
        reads := [cs.map StartRecord.record, records]
        recoveries := [recovered]
        sent := [sent] } := by
  rw [sendTwice] at h
  obtain ⟨recovered', hrecover, h⟩ := Option.bind_eq_some_iff.mp h
  obtain ⟨⟨e₁, k⟩, hready, h⟩ := Option.bind_eq_some_iff.mp h
  obtain ⟨e', hresend, h⟩ := Option.bind_eq_some_iff.mp h
  obtain ⟨records', hread, h⟩ := Option.bind_eq_some_iff.mp h
  cases h
  rw [succeeded_eq_some] at hrecover hread
  have hfirst : readRecords (Process.plain 0) [StartRecord.fileOf cs] = some (.ok (cs.map StartRecord.record)) :=
    StartRecord.readRecords_fileOf List.flatten_singleton
  have hsent : Resends (Process.plain 0) [.recording] recovered.memory recovered.records
      { file := recovered.file } [(e₁.memory, k)] e.log := by
    have hrecords : recovered.records = [] ++ ⟨.start, 0, 1⟩ :: [] := hheld
    have hlog : ({ file := recovered.file } : TransactionLog) = (Endpoint.afterRestart recovered).log := rfl
    rw [hrecords, hlog]
    exact .sent rfl ⟨rfl, rfl, rfl⟩ rfl hready hresend (.died _ _)
  let S := restarts (Process.plain 0) maxRecords [.recording] (cs.map StartRecord.body)
  let first : Restarted Unit := { file := StartRecord.fileOf cs }
  let second : Restarted Unit :=
    { file := e.log.file
      reads := [cs.map StartRecord.record]
      recoveries := [recovered]
      sent := [(e₁.memory, k)] }
  have honce : S.Step first second := ⟨Room.plain, _, _, List.flatten_singleton, hfirst,
    Or.inr ⟨recovered, _, e.log, hrecover, hsent, rfl⟩⟩
  have hagain : S.Step second { second with reads := second.reads ++ [records] } :=
    ⟨Room.plain, _, records, List.flatten_singleton, hread, Or.inl rfl⟩
  have hreachable : S.Reachable first := .initial rfl
  exact (hreachable.step honce).step hagain

/-- What a class without a state lays down. -/
def KernelClass.plainWrites (_ : String) (_ : Unit) : Laid := {}

omit [ByteOrder] in
theorem KernelClass.lays_plain (index : String) (state : Unit) :
    Lays (((Process.plain 0).classes index).write state) (plainWrites index state) :=
  writes_pure.lays

end Restarts

/-- One of two kernels is kept and sent again: there are two records at the second restart too, that of the
kernel and the new one. -/
theorem Restarted.reads_le_two :
    letI := ByteOrder.littleEndian
    ∃ s, (restarts (Process.plain 0) 1 [.recording]
        [(StartRecord.child 5 97).body, (StartRecord.child 6 98).body]).Reachable s ∧
      s.reads.map List.length = [2, 2] ∧ (s.sent.map fun x => x.2.carriesParent) = [true] ∧
      ∀ records ∈ s.reads, records.length ≤ 2 := by
  let _ := ByteOrder.littleEndian
  have htwice : (sendTwice 1 [StartRecord.child 5 97, StartRecord.child 6 98]).map (fun r =>
      (r.1.records, r.2.2.1.2.carriesParent, r.2.2.2.length,
        decide (RecordFits (Process.plain 0) KernelClass.plainWrites r.2.2.1.1 r.2.2.1.2),
        decide (RecordFits (Process.plain 0) KernelClass.plainWrites r.1.memory (r.1.memory 1)))) =
      some ([⟨.start, 0, 1⟩], true, 2, true, true) := by
    decide +kernel
  obtain ⟨⟨recovered, e, sent, records⟩, hrun, hresult⟩ := Option.map_eq_some_iff.mp htwice
  obtain ⟨hheld, hcarries, hlength, hsent, hrecovered⟩ : recovered.records = [⟨.start, 0, 1⟩] ∧
      sent.2.carriesParent = true ∧ records.length = 2 ∧
      decide (RecordFits (Process.plain 0) KernelClass.plainWrites sent.1 sent.2) = true ∧
      decide (RecordFits (Process.plain 0) KernelClass.plainWrites recovered.memory (recovered.memory 1)) =
        true := by
    simpa using hresult
  have hreachable := reachable_sendTwice hrun hheld
  refine ⟨_, hreachable, ?_, ?_, (Restarted.reads_le KernelClass.lays_plain ?_ (Or.inr le_rfl) hreachable ?_ ?_).1⟩
  · simp [hlength]
  · simp [hcarries]
  · intro body hbody
    obtain ⟨c, -, rfl⟩ := List.mem_map.mp hbody
    exact c.fits
  · intro x hx
    rw [List.mem_singleton.mp hx]
    exact of_decide_eq_true hsent
  · intro recovered' hrecovered' r hr
    rw [List.mem_singleton.mp hrecovered'] at hr ⊢
    rw [hheld] at hr
    rw [List.mem_singleton.mp hr]
    exact of_decide_eq_true hrecovered

/-- **A kernel that is sent again is recorded again**: its old record is in the log and the new one
too, and the second restart reads both. -/
theorem Restarted.recorded_again :
    letI := ByteOrder.littleEndian
    ∃ s, (restarts (Process.plain 0) (2 ^ 64 - 1) [.recording] [(StartRecord.child 5 98).body]).Reachable s ∧
      ∃ records ∈ s.reads, ¬ records.length ≤ [(StartRecord.child 5 98).body].length := by
  let _ := ByteOrder.littleEndian
  have htwice : (sendTwice (2 ^ 64 - 1) [StartRecord.child 5 98]).map (fun r => (r.1.records, r.2.2.2.length)) =
      some ([⟨.start, 0, 1⟩], 2) := by
    decide +kernel
  obtain ⟨⟨recovered, e, sent, records⟩, hrun, hresult⟩ := Option.map_eq_some_iff.mp htwice
  obtain ⟨hheld, hlength⟩ := Prod.mk.inj hresult
  refine ⟨_, reachable_sendTwice hrun hheld, records, List.mem_cons_of_mem _ List.mem_cons_self, ?_⟩
  have htwo : records.length = 2 := hlength
  rw [htwo]
  decide

end Subordination.Core
