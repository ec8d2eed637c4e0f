import Subordination.Core.Delivery
import Subordination.Library.System

/-!
# Transactions between two daemons

A daemon A sends kernels to a daemon B over a client connection (`socket_pipeline::do_add_client`),
B returns them, and A reads its transaction log when it starts again (`transaction_log::open`).

## The model

Each daemon has its end of the connection, with the transaction log behind it. What one end has
written and the other has not yet received is a list of packets: the streams between them deliver
these once each and in order, however they are cut. In a step a daemon sends a kernel or forwards
one, receives the next packet, or does something else with its memory. Kernels are written
and recorded without exceptions. `route()` of a client is never set, so what the client does with
a foreign kernel is what `connection` does with it.

`plug_parents` changes the parent pointers of the records only, and `max_records()` is left
at the greatest `size_t`, so the records that `open` yields are those of `read_records`.

## What is proved

* `log_receive` — what arrives leaves the log alone.
* `log_of_reachable` — the log of A holds the records of what A has sent, and nothing else.
* `not_replayed_iff` — so a kernel that A has sent is gone from the log if and only if A itself has
  recorded a kernel later on its way back whose header word is the id of the first.
* `returned_replayed` — B records the return of the kernel in its own log: the transaction is
  complete, and A reads it as open.
-/

namespace Subordination.Daemon

open Subordination.Core Subordination.Library

section Transactions

variable {P : Type} [ByteOrder]

/-! ### The run -/

/-- The flags that `do_add_client` sets. -/
def clientFlags : ConnectionFlags where
  saveUpstreamKernels := true
  saveDownstreamKernels := true
  writeTransactionLog := true

/-- A connection is about to write a kernel: it has been sent or forwarded. -/
inductive Submits (e : Endpoint P) : Endpoint P → Kernel P → Prop
  /-- `send`. -/
  | send {e' : Endpoint P} {k k' : Kernel P} : e.prepare k = some (e', k') → Submits e e' k'
  /-- `do_forward`. -/
  | forward (k : Kernel P) : Submits e e k

/-- The record of a kernel fits in a frame, like the kernel itself. -/
abbrev RecordFits {writer : Process P} (p : Packet writer) : Prop :=
  9 + (p.k.packet p.mem p.typeId p.bytes).length < 2 ^ 32

/-- What the next packet does at the end where it arrives. -/
def arrive {writer : Process P} (reader : Process P) (ppl : BasicSocketPipeline) (address : UInt64)
    (p : Packet writer) (e : Endpoint P) : Endpoint P :=
  match p.received reader with
  | none => e
  | some r =>
    (Endpoint.receiver reader ppl address).receive
      (Receiver.comesFrom e.connection.socketAddress r) e

/-- The daemons, and the packets between them. -/
structure Daemons (procA procB : Process P) where
  /-- The end of A. -/
  a : Endpoint P
  /-- The end of B. -/
  b : Endpoint P
  /-- The packets on their way to B. -/
  toB : List (Packet procA) := []
  /-- The packets on their way to A. -/
  toA : List (Packet procB) := []
  /-- All packets that A has written, oldest first. -/
  sentA : List (Packet procA) := []

variable {procA procB : Process P} (pplA pplB : BasicSocketPipeline)

/-- What may happen next. -/
inductive Daemons.Step : Daemons procA procB → Daemons procA procB → Prop
  /-- A writes a kernel. -/
  | leavesA {d : Daemons procA procB} {e : Endpoint P} {p : Packet procA} :
      Submits d.a e p.k → e.memory = p.mem → RecordFits p →
      Step d
        { d with
          a := (e.doForward procA pplA p.k).1
          toB := d.toB ++ [p]
          sentA := d.sentA ++ [p] }
  /-- B writes a kernel. -/
  | leavesB {d : Daemons procA procB} {e : Endpoint P} {p : Packet procB} :
      Submits d.b e p.k → e.memory = p.mem → RecordFits p →
      Step d { d with b := (e.doForward procB pplB p.k).1, toA := d.toA ++ [p] }
  /-- The next packet arrives at A. -/
  | arrivesA {d : Daemons procA procB} (address : UInt64) {p : Packet procB}
      {packets : List (Packet procB)} : d.toA = p :: packets →
      Step d { d with a := arrive procA pplA address p d.a, toA := packets }
  /-- The next packet arrives at B. -/
  | arrivesB {d : Daemons procA procB} (address : UInt64) {p : Packet procA}
      {packets : List (Packet procA)} : d.toB = p :: packets →
      Step d { d with b := arrive procB pplB address p d.b, toB := packets }
  /-- The rest of A goes on. -/
  | otherA {d : Daemons procA procB} (memory : Memory P) : Step d { d with a.memory := memory }
  /-- The rest of B goes on. -/
  | otherB {d : Daemons procA procB} (memory : Memory P) : Step d { d with b.memory := memory }

/-- Two daemons, from when they have been connected. The log of A is there and empty. -/
def daemons : System (Daemons procA procB) where
  Initial d := pplA.transactions = true ∧ d.a.connection.flags = clientFlags ∧ d.a.log = {} ∧ d.sentA = []
  Step := Daemons.Step pplA pplB

/-! ### What is recorded -/

variable {pplA pplB}

/-- The call of `transaction_log::write` that the packet leads to, at an end with the flags of a
client. -/
def call {writer : Process P} (ppl : BasicSocketPipeline) (p : Packet writer) :
    Option (LogCall writer) :=
  if h : p.k.carriesParent = true ∧ RecordFits p then
    if p.k.phase = .upstream ∨ p.k.phase = .pointToPoint then
      some { p with
        status := .start, pipelineIndex := ppl.index, status_eq := TransactionStatus.recorded_start, carries := h.1,
        record_fits := h.2 }
    else if p.k.phase = .downstream then
      some { p with
        status := .end', pipelineIndex := ppl.index, status_eq := TransactionStatus.recorded_end, carries := h.1,
        record_fits := h.2 }
    else none
  else none

/-- A kernel that does not carry its parent is not recorded. -/
theorem call_of_not_carries {writer : Process P} {ppl : BasicSocketPipeline} {p : Packet writer}
    (h : p.k.carriesParent = false) : call ppl p = none := by
  rw [call, dif_neg]
  rw [h]
  exact fun hcarries => Bool.false_ne_true hcarries.1

theorem fileOf_append {writer : Process P} (calls calls' : List (LogCall writer)) :
    LogCall.fileOf (calls ++ calls') = LogCall.fileOf calls ++ LogCall.fileOf calls' := by
  simp only [LogCall.fileOf, List.map_append, List.flatten_append]

theorem fileOf_singleton {writer : Process P} (c : LogCall writer) :
    LogCall.fileOf [c] = kernelFraming.frame c.body :=
  List.append_nil _

/-- A kernel that carries its parent is recorded when it leaves and when it returns. -/
theorem call_of_carries {writer : Process P} (ppl : BasicSocketPipeline) {p : Packet writer}
    {e : Endpoint P} (hflags : e.connection.flags = clientFlags) (hcarries : p.k.carriesParent = true)
    (hfits : RecordFits p) :
    (∃ c, call ppl p = some c ∧ c.toPacket = p ∧ c.pipelineIndex = ppl.index ∧
      (e.plan p.k).2 = some c.status) ∨ (call ppl p = none ∧ (e.plan p.k).2 = none) := by
  by_cases hup : p.k.phase = .upstream ∨ p.k.phase = .pointToPoint
  · have hstatus : (e.plan p.k).2 = some .start := by
      rw [Endpoint.plan, if_pos hup, hflags, hcarries]
      rfl
    exact Or.inl ⟨_, by rw [call, dif_pos ⟨hcarries, hfits⟩, if_pos hup], rfl, rfl, hstatus⟩
  · by_cases hdown : p.k.phase = .downstream
    · have hstatus : (e.plan p.k).2 = some .end' := by
        rw [Endpoint.plan, if_neg hup, if_pos hdown, hflags, hcarries]
        rfl
      exact Or.inl ⟨_, by rw [call, dif_pos ⟨hcarries, hfits⟩, if_neg hup, if_pos hdown], rfl, rfl, hstatus⟩
    · refine Or.inr ⟨by rw [call, dif_pos ⟨hcarries, hfits⟩, if_neg hup, if_neg hdown], ?_⟩
      rw [Endpoint.plan, if_neg hup, if_neg hdown]
      split
      · split <;> rfl
      · rfl

/-- **What a client asks of the log is what is written to it**, and the log gives the kernel back. -/
theorem record_eq_call {writer : Process P} {ppl : BasicSocketPipeline} (hppl : ppl.transactions = true)
    {p : Packet writer} {e : Endpoint P} (hflags : e.connection.flags = clientFlags)
    (hmem : e.memory = p.mem) (hfits : RecordFits p) {file : List UInt8} (hlog : e.log = { file }) :
    e.record writer ppl p.k (e.plan p.k).2 =
      ({ e with log := { file := file ++ LogCall.fileOf (call ppl p).toList } }, some p.k) := by
  have hnil : e = { e with log := { file := file ++ LogCall.fileOf ([] : List (LogCall writer)) } } := by
    change _ = ({ e with log := { file := file ++ [] } } : Endpoint P)
    rw [List.append_nil, ← hlog]
  cases hcarries : p.k.carriesParent with
  | false =>
    rw [Endpoint.record_of_not_carries writer ppl e hcarries, call_of_not_carries hcarries]
    exact congrArg (·, some p.k) hnil
  | true =>
    rcases call_of_carries ppl hflags hcarries hfits with ⟨c, hcall, rfl, hindex, hstatus⟩ | ⟨hcall, hstatus⟩
    · have hwrite := c.write_eq file
      rw [← hmem, hindex, ← hlog] at hwrite
      rw [hstatus, hcall, Endpoint.record, hflags, hppl, hwrite, Option.toList_some, fileOf_singleton]
      rfl
    · rw [hstatus, hcall, Endpoint.record]
      exact congrArg (·, some p.k) hnil

/-- Writing a kernel leaves its record in the log, and the flags as they are. -/
theorem doForward_log {writer : Process P} {ppl : BasicSocketPipeline} (hppl : ppl.transactions = true)
    {p : Packet writer} {e : Endpoint P} (hflags : e.connection.flags = clientFlags)
    (hmem : e.memory = p.mem) (hfits : RecordFits p) {file : List UInt8}
    (hlog : e.log = { file }) :
    (e.doForward writer ppl p.k).1.log = { file := file ++ LogCall.fileOf (call ppl p).toList } ∧
      (e.doForward writer ppl p.k).1.connection.flags = clientFlags := by
  obtain ⟨b, load, hwrite⟩ := e.writeKernel_eq writer p.k
  have hflags' : (e.writeKernel writer p.k).connection.flags = clientFlags := by
    rw [hwrite]
    exact hflags
  have hmem' : (e.writeKernel writer p.k).memory = p.mem := by
    rw [hwrite]
    exact hmem
  have hlog' : (e.writeKernel writer p.k).log = { file } := by
    rw [hwrite]
    exact hlog
  have hrecord := record_eq_call hppl hflags' hmem' hfits hlog'
  rw [Endpoint.doForward, Endpoint.saveKernel, hrecord, Endpoint.log_keep, Endpoint.flags_keep]
  exact ⟨rfl, hflags'⟩

/-! ### What is not recorded -/

omit [ByteOrder] in
/-- Drawing ids leaves the log alone. -/
theorem Submits.log_eq {e e' : Endpoint P} {k : Kernel P} (h : Submits e e' k) :
    e'.log = e.log ∧ e'.connection.flags = e.connection.flags := by
  cases h with
  | forward k => exact ⟨rfl, rfl⟩
  | @send e' k k' hprepare =>
    rw [Endpoint.prepare] at hprepare
    split at hprepare
    · split at hprepare
      · cases hprepare
      · cases hprepare
        rw [Endpoint.ensureHasId]
        split <;> exact ⟨rfl, rfl⟩
    · cases hprepare
      exact ⟨rfl, rfl⟩

/-- Whatever comes of it, the log and the flags stay as they are. -/
def KeepsLog (m : EStateM Exception (Endpoint P) Unit) : Prop :=
  ∀ e, ∃ e', (m e = .ok () e' ∨ ∃ x, m e = .error x e') ∧ e'.log = e.log ∧
    e'.connection.flags = e.connection.flags

omit [ByteOrder] in
theorem keepsLog_receiveKernel (ppl : BasicSocketPipeline) (address : UInt64) (r : Received P) :
    KeepsLog (Endpoint.receiveKernel ppl address r) := by
  intro e
  obtain ⟨memory, word, hplace⟩ := e.place_eq address r
  simp only [Endpoint.receiveKernel, hplace]
  split
  · cases hplug : Endpoint.plugParent { e with memory } { r.kernel with parentWord := word } with
    | error x => exact ⟨_, Or.inr ⟨x, rfl⟩, rfl, rfl⟩
    | ok result =>
      obtain ⟨e', k'⟩ := result
      rcases Endpoint.plugParent_ok hplug with ⟨q, -, -, rfl⟩ | ⟨-, -, downstream, rfl⟩
      · exact ⟨_, Or.inl rfl, rfl, rfl⟩
      · exact ⟨_, Or.inl rfl, rfl, rfl⟩
  · cases ppl.instances with
    | none => exact ⟨_, Or.inl rfl, rfl, rfl⟩
    | some instances =>
      simp only
      split
      · exact ⟨_, Or.inl rfl, rfl, rfl⟩
      · split
        · exact ⟨_, Or.inr ⟨_, rfl⟩, rfl, rfl⟩
        · exact ⟨_, Or.inl rfl, rfl, rfl⟩

theorem keepsLog_receiveForeignKernel (reader : Process P) (ppl : BasicSocketPipeline)
    (r : Received P) : KeepsLog (Endpoint.receiveForeignKernel reader ppl r) := by
  intro e
  simp only [Endpoint.receiveForeignKernel]
  by_cases hphase : r.kernel.phase = .downstream
  · simp only [if_pos hphase]
    split
    · obtain ⟨b, load, hwrite⟩ := Endpoint.writeKernel_eq reader
        ({ e with connection.upstream := eraseKernel r.kernel e.connection.upstream } : Endpoint P) r.kernel
      rw [hwrite]
      exact ⟨_, Or.inl rfl, rfl, rfl⟩
    · exact ⟨_, Or.inl rfl, rfl, rfl⟩
  · rw [if_neg fun h => hphase h.1, if_neg hphase]
    exact ⟨_, Or.inl rfl, rfl, rfl⟩

/-- **What arrives leaves the log alone**: the result of a kernel is taken out of the queue, and
nothing is recorded. -/
theorem log_receive (reader : Process P) (ppl : BasicSocketPipeline) (address : UInt64)
    (r : Received P) (e : Endpoint P) :
    let e' := (Endpoint.receiver reader ppl address).receive r e
    e'.log = e.log ∧ e'.connection.flags = e.connection.flags := by
  have hhandler : KeepsLog (if r.kernel.isNative then Endpoint.receiveKernel ppl address r
      else Endpoint.receiveForeignKernel reader ppl r) := by
    split
    · exact keepsLog_receiveKernel ppl address r
    · exact keepsLog_receiveForeignKernel reader ppl r
  obtain ⟨e', he', hkeeps⟩ := hhandler (if r.kernel.phase = .downstream then
    { e with connection.load := e.connection.load.sub r.kernel.weights } else e)
  have hsame : e'.log = e.log ∧ e'.connection.flags = e.connection.flags := by
    split at hkeeps <;> exact hkeeps
  simp only [Receiver.receive, Endpoint.receiver]
  rcases he' with he' | ⟨x, he'⟩
  · rw [he']
    exact hsame
  · rw [he']
    exact hsame

/-! ### The log of A -/

/-- The calls of the log that A has made. -/
def Daemons.calls {procA procB : Process P} (ppl : BasicSocketPipeline) (d : Daemons procA procB) :
    List (LogCall procA) :=
  d.sentA.filterMap (call ppl)

/-- What holds of A in every state that a run reaches. -/
structure Daemons.Inv {procA procB : Process P} (ppl : BasicSocketPipeline) (d : Daemons procA procB) :
    Prop where
  /-- There is a log. -/
  transactions : ppl.transactions = true
  /-- The flags are those of a client. -/
  flags : d.a.connection.flags = clientFlags
  /-- The log holds the records of what has been sent, and nothing else. -/
  log : d.a.log = { file := LogCall.fileOf (d.calls ppl) }

theorem Daemons.Inv.initial {d : Daemons procA procB} (h : (daemons pplA pplB).Initial d) :
    d.Inv pplA := by
  obtain ⟨hppl, hflags, hlog, hsent⟩ := h
  refine ⟨hppl, hflags, ?_⟩
  rw [hlog, Daemons.calls, hsent]
  rfl

theorem Daemons.Inv.step {d d' : Daemons procA procB} (hinv : d.Inv pplA)
    (hstep : (daemons pplA pplB).Step d d') : d'.Inv pplA := by
  cases hstep with
  | @leavesA e p hsubmits hmem hfits =>
    obtain ⟨hlog, hflags⟩ := hsubmits.log_eq
    obtain ⟨hlog', hflags'⟩ := doForward_log hinv.transactions (hflags.trans hinv.flags) hmem hfits
      (hlog.trans hinv.log)
    refine ⟨hinv.transactions, hflags', ?_⟩
    have hcalls : Daemons.calls pplA { d with
        a := (e.doForward procA pplA p.k).1, toB := d.toB ++ [p], sentA := d.sentA ++ [p] } =
        d.calls pplA ++ (call pplA p).toList := by
      rw [Daemons.calls, List.filterMap_append]
      congr 1
    rw [hcalls, fileOf_append]
    exact hlog'
  | @arrivesA address p packets hpackets =>
    have hkeeps : (arrive procA pplA address p d.a).log = d.a.log ∧
        (arrive procA pplA address p d.a).connection.flags = d.a.connection.flags := by
      rw [arrive]
      cases p.received procA with
      | none => exact ⟨rfl, rfl⟩
      | some r => exact log_receive procA pplA address _ d.a
    exact ⟨hinv.transactions, hkeeps.2.trans hinv.flags, hkeeps.1.trans hinv.log⟩
  | leavesB => exact ⟨hinv.transactions, hinv.flags, hinv.log⟩
  | arrivesB => exact ⟨hinv.transactions, hinv.flags, hinv.log⟩
  | otherA memory => exact ⟨hinv.transactions, hinv.flags, hinv.log⟩
  | otherB memory => exact ⟨hinv.transactions, hinv.flags, hinv.log⟩

/-- **The log of A** holds the records of what A has sent, and nothing else. -/
theorem log_of_reachable {d : Daemons procA procB} (h : (daemons pplA pplB).Reachable d) :
    d.a.log = { file := LogCall.fileOf (d.calls pplA) } :=
  (h.invariant (fun _ => Daemons.Inv.initial) (fun _ _ => Daemons.Inv.step)).log

/-! ### Starting again -/

/-- The kernel of the packet is not among the records that the log yields from these pieces of its
file. -/
def NotReplayed {writer : Process P} (ppl : BasicSocketPipeline) (p : Packet writer)
    (pieces : List (List UInt8)) : Prop :=
  ∀ c r records, call ppl p = some c → c.record writer = some r →
    readRecords writer pieces = some (.ok records) → r ∉ records

/-- After each of the records that are like that of the packet there is an `end` record that hits it. -/
def HitLater {writer : Process P} (ppl : BasicSocketPipeline) (p : Packet writer)
    (calls : List (LogCall writer)) : Prop :=
  ∀ c r, call ppl p = some c → c.record writer = some r →
    ∀ before c' after, calls = before ++ c' :: after → c'.status = .start → c'.record writer = some r →
      ∃ e ∈ after, e.status = .end' ∧ e.k.headerWord = c'.k.id

/-- **A kernel that A has sent is not replayed** when A starts again if and only if its log cannot be
read at all, or A itself has recorded, after the kernel, one on its way back whose header word is
the id of the kernel. -/
theorem not_replayed_iff {d : Daemons procA procB} (hreach : (daemons pplA pplB).Reachable d)
    (p : Packet procA) {pieces : List (List UInt8)}
    (hpieces : pieces.flatten = d.a.log.file) :
    NotReplayed pplA p pieces ↔
      ¬ LogCall.Readable procA (d.calls pplA) ∨ HitLater pplA p (d.calls pplA) := by
  have hfile : pieces.flatten = LogCall.fileOf (d.calls pplA) := by
    rw [hpieces, log_of_reachable hreach]
  by_cases hreadable : LogCall.Readable procA (d.calls pplA)
  · have hread := LogCall.readRecords_eq hfile hreadable
    simp only [NotReplayed, HitLater, hread, hreadable, not_true_eq_false, false_or]
    constructor
    · intro h c r hc hr before c' after hcalls hstart hr'
      by_contra hnone
      exact h c r _ hc hr rfl
        ((LogCall.mem_survivors hreadable).mpr ⟨before, c', after, hcalls, hstart, hr', hnone⟩)
    · rintro h c r records hc hr hrecords hmem
      cases hrecords
      obtain ⟨before, c', after, hcalls, hstart, hr', hmiss⟩ := (LogCall.mem_survivors hreadable).mp hmem
      exact hmiss (h c r hc hr before c' after hcalls hstart hr')
  · obtain ⟨x, hread⟩ := LogCall.readRecords_unreadable hfile hreadable
    refine ⟨fun _ => Or.inl hreadable, ?_⟩
    intro _ c r records _ _ hrecords
    rw [hread] at hrecords
    cases hrecords

/-! ### A transaction that is replayed -/

/-- The address of A. -/
def addressA : SocketAddress := SocketAddress.ofBytes [1]

/-- The address of B. -/
def addressB : SocketAddress := SocketAddress.ofBytes [2]

/-- A kernel of some application, with the id 5, as a daemon holds it. It carries its parent. -/
def leaving : Kernel Unit :=
  { Kernel.fresh 0 (.foreign []) with id := 5, flags := KernelFlags.setf 0 .carriesParent }

/-- The same kernel as B returns it. -/
def returning : Kernel Unit :=
  Kernel.returnToParent { leaving.asForeign Memory.blank 0 [] with source := addressA } .success

/-- A foreign kernel without a payload is written as it is. -/
def foreignPacket (proc : Process Unit) (k : Kernel Unit) (hk : k.payload = .foreign [])
    (hfits : kernelFraming.Fits (k.packet Memory.blank k.typeId [])) : Packet proc where
  mem := Memory.blank
  k := k
  typeId := k.typeId
  bytes := []
  writes := Process.writes_foreign hk
  fits := hfits

theorem length_foreign {k : Kernel Unit} (hf : k.fields = {}) (hs : k.sourceApplication = .id 0)
    (ht : k.targetApplication = .id 0) (hpath : k.path = []) (hfilter : k.nodeFilter = none) :
    (k.packet Memory.blank k.typeId []).length =
      78 + (Header.addressBytes k.source.isSet k.source).length +
        (Header.addressBytes k.destination.isSet k.destination).length := by
  simp [Kernel.packet, Header.bytes, Header.written, hf, hs, ht, hpath, hfilter, ApplicationSlot.bytes,
    Kernel.bytes, stringBytes]
  omega

theorem length_leaving : (leaving.packet Memory.blank leaving.typeId []).length = 78 := by
  rw [length_foreign rfl rfl rfl rfl rfl]
  rfl

theorem length_returning : (returning.packet Memory.blank returning.typeId []).length = 84 := by
  rw [length_foreign (by decide) rfl rfl rfl rfl]
  have haddress : returning.source = addressA ∧ returning.destination = addressA := ⟨rfl, rfl⟩
  rw [haddress.1, haddress.2]
  simp [Header.addressBytes, SocketAddress.wire, SocketAddress.isSet, addressA, SocketAddress.ofBytes]

/-- The kernel, as A writes it. -/
def packetA : Packet (Process.plain 7) :=
  foreignPacket _ leaving rfl (by
    rw [Framing.Fits, length_leaving]
    exact (by decide : 4 + 78 < 2 ^ 32))

/-- The kernel, as B writes it. -/
def packetB : Packet (Process.plain 8) :=
  foreignPacket _ returning rfl (by
    rw [Framing.Fits, length_returning]
    exact (by decide : 4 + 84 < 2 ^ 32))

theorem recordFits_packetA : RecordFits packetA := by
  have hlength : (packetA.k.packet packetA.mem packetA.typeId packetA.bytes).length = 78 := length_leaving
  rw [RecordFits, hlength]
  decide

theorem recordFits_packetB : RecordFits packetB := by
  have hlength : (packetB.k.packet packetB.mem packetB.typeId packetB.bytes).length = 84 := length_returning
  rw [RecordFits, hlength]
  decide

/-- A pipeline that has a transaction log. -/
def logged : BasicSocketPipeline where
  transactions := true

/-- The daemons when they have been connected. -/
def connected : Daemons (Process.plain 7) (Process.plain 8) where
  a := { connection := { flags := clientFlags, socketAddress := addressB }, memory := Memory.blank }
  b := { connection := { flags := clientFlags, socketAddress := addressA }, memory := Memory.blank }

/-- The daemons when the kernel has left A. -/
def left : Daemons (Process.plain 7) (Process.plain 8) :=
  { connected with
    a := (connected.a.doForward (Process.plain 7) logged leaving).1
    toB := [packetA]
    sentA := [packetA] }

theorem reachable_left : (daemons logged logged).Reachable left := by
  have hconnected : (daemons logged logged).Reachable connected := System.Reachable.initial ⟨rfl, rfl, rfl, rfl⟩
  have hstep : Daemons.Step logged logged connected left :=
    Daemons.Step.leavesA (p := packetA) (Submits.forward leaving) rfl recordFits_packetA
  exact hconnected.step hstep

/-- The kernel stays in the queue of A until its result arrives. -/
theorem upstream_left : left.a.connection.upstream = [leaving] := by
  obtain ⟨b, load, hwrite⟩ := connected.a.writeKernel_eq (Process.plain 7) leaving
  let e : Endpoint Unit :=
    { connected.a with connection.outputBuffer := b, connection.load := load }
  have hrecord : e.record (Process.plain 7) logged packetA.k (e.plan packetA.k).2 = _ :=
    record_eq_call rfl rfl rfl recordFits_packetA rfl
  have hleft : left.a = (e.saveKernel (Process.plain 7) logged packetA.k).1 :=
    congrArg (fun e => (e.saveKernel (Process.plain 7) logged leaving).1) hwrite
  rw [hleft, Endpoint.saveKernel, hrecord]
  rfl

theorem calls_left : ∃ c r, call logged packetA = some c ∧ c.status = .start ∧
    c.record (Process.plain 7) = some r ∧ left.calls logged = [c] := by
  have hcarries : leaving.carriesParent = true := by decide
  have hfits : packetA.k.carriesParent = true ∧ RecordFits packetA := ⟨hcarries, recordFits_packetA⟩
  have hfilter : ∀ x, packetA.k.nodeFilter = some x → x.Survives := fun x hx => nomatch hx
  have htarget : leaving.targetApplicationId ≠ (Process.plain 7).thisApplication := by decide
  have hreceived := Packet.received_foreign hfilter htarget
  have hcall : ∃ c, call logged packetA = some c ∧ c.status = .start ∧ c.toPacket = packetA := by
    rw [call, dif_pos hfits]
    exact ⟨_, rfl, rfl, rfl⟩
  obtain ⟨c, hc, hstart, hpacket⟩ := hcall
  have hrecord : ∃ r, c.record (Process.plain 7) = some r := by
    rw [LogCall.record, hpacket, hreceived]
    exact ⟨_, rfl⟩
  obtain ⟨r, hr⟩ := hrecord
  refine ⟨c, r, hc, hstart, hr, ?_⟩
  change [packetA].filterMap (call logged) = [c]
  rw [List.filterMap_cons, hc]
  rfl

/-- A takes the kernel out of its queue when its result arrives. -/
theorem upstream_arrive {e : Endpoint Unit} (he : e.connection.upstream = [leaving]) :
    (arrive (Process.plain 7) logged 0 packetB e).connection.upstream = [] := by
  have hfilter : ∀ x, packetB.k.nodeFilter = some x → x.Survives := fun x hx => nomatch hx
  have htarget : returning.targetApplicationId ≠ (Process.plain 7).thisApplication := by decide
  have hreceived := Packet.received_foreign hfilter htarget
  generalize hr : ({ kernel := packetB.k.asForeign packetB.mem packetB.typeId packetB.bytes } :
    Received Unit) = r at hreceived
  have hsame : (Receiver.comesFrom e.connection.socketAddress r).kernel.phase = .downstream ∧
      (Receiver.comesFrom e.connection.socketAddress r).kernel.isNative = false ∧
      (Receiver.comesFrom e.connection.socketAddress r).kernel.isResultOf leaving = true := by
    rw [Receiver.comesFrom, ← hr]
    split <;> exact ⟨rfl, rfl, rfl⟩
  obtain ⟨hphase, hforeign, hresult⟩ := hsame
  obtain ⟨b, load, handedOff, hreceive⟩ :=
    Receiver.receive_foreign (Process.plain 7) logged 0 hphase hforeign e
  rw [arrive, hreceived]
  simp only [hreceive, he, eraseKernel, List.eraseP_cons_of_pos hresult]

/-- The daemons when B has received the kernel. -/
def received : Daemons (Process.plain 7) (Process.plain 8) :=
  { left with b := arrive (Process.plain 8) logged 0 packetA left.b, toB := [] }

/-- The daemons when B is about to return it. -/
def acted : Daemons (Process.plain 7) (Process.plain 8) :=
  { received with b.memory := Memory.blank }

/-- The daemons when B has returned it. -/
def returned : Daemons (Process.plain 7) (Process.plain 8) :=
  { acted with b := (acted.b.doForward (Process.plain 8) logged returning).1, toA := [packetB] }

/-- The daemons when A has received the result. -/
def completed : Daemons (Process.plain 7) (Process.plain 8) :=
  { returned with a := arrive (Process.plain 7) logged 0 packetB returned.a, toA := [] }

/-- B receives the kernel and returns it, and A receives the result. -/
theorem left_completed :
    Relation.ReflTransGen (Daemons.Step logged logged)
      left completed := by
  have hreceived : Daemons.Step logged logged left received := Daemons.Step.arrivesB 0 rfl
  have hacted : Daemons.Step logged logged received acted := Daemons.Step.otherB Memory.blank
  have hreturned : Daemons.Step logged logged acted returned :=
    Daemons.Step.leavesB (p := packetB) (Submits.forward returning) rfl recordFits_packetB
  have hcompleted : Daemons.Step logged logged returned completed := Daemons.Step.arrivesA 0 rfl
  exact (((Relation.ReflTransGen.single hreceived).tail hacted).tail hreturned).tail hcompleted

theorem upstream_completed : completed.a.connection.upstream = [] :=
  upstream_arrive upstream_left

/-- The kernel is still in the log of A. -/
theorem replayed_completed : ¬ NotReplayed logged packetA [completed.a.log.file] := by
  obtain ⟨c, r, hc, hstart, hr, hcalls⟩ := calls_left
  have hreach : (daemons logged logged).Reachable completed := reachable_left.steps left_completed
  have hcalls' : completed.calls logged = [c] := hcalls
  have hfile : [completed.a.log.file].flatten = LogCall.fileOf [c] := by
    rw [List.flatten_singleton, log_of_reachable hreach, hcalls']
  have hreadable : LogCall.Readable (Process.plain 7) [c] := by
    intro c' hc' _
    rw [List.mem_singleton.mp hc']
    obtain ⟨k, hk, -⟩ := Option.map_eq_some_iff.mp hr
    rw [hk]
    rfl
  have hmem : r ∈ Journal.survivors LogCall.hits (LogCall.journal (Process.plain 7) [c]) :=
    (LogCall.mem_survivors hreadable).mpr ⟨[], c, [], rfl, hstart, hr, by simp⟩
  intro h
  exact h c r _ hc hr (LogCall.readRecords_eq hfile hreadable) hmem

end Transactions

/-- When the kernel has left A, the theorem says what becomes of it if A starts again. -/
theorem not_replayed_iff_left :
    letI := ByteOrder.littleEndian
    NotReplayed logged packetA [left.a.log.file] ↔
      ¬ LogCall.Readable (Process.plain 7) (left.calls logged) ∨ HitLater logged packetA (left.calls logged) :=
  let _ := ByteOrder.littleEndian
  not_replayed_iff reachable_left packetA List.flatten_singleton

/-- **A completed transaction is replayed**: A has sent a kernel that carries its parent and kept it in
its queue, B has returned it, A has received the result and taken the kernel out of the queue, and
when A starts again its log yields the kernel. -/
theorem returned_replayed :
    letI := ByteOrder.littleEndian
    (daemons logged logged).Reachable left ∧ left.a.connection.upstream = [leaving] ∧
      Relation.ReflTransGen
        (Daemons.Step logged logged) left completed ∧
      completed.toB = [] ∧ completed.toA = [] ∧ completed.a.connection.upstream = [] ∧
      ¬ NotReplayed logged packetA [completed.a.log.file] :=
  let _ := ByteOrder.littleEndian
  ⟨reachable_left, upstream_left, left_completed, rfl, rfl, @upstream_completed .littleEndian,
    @replayed_completed .littleEndian⟩

end Subordination.Daemon
