import Subordination.Core.StartRecords
import Subordination.Core.PlugParents

/-!
# The log at a restart

What `transaction_log::recover` makes of the file it finds: it reads the records, gives the kernels
their parents, and writes the records to a new file (`core/transaction_log.cc`).

## The model

`recoverFile` ends where `recover` sends the kernels. Where in memory the kernels are put is given,
and so is what is found where a kernel has been deleted: with fewer than all the records kept, a
kernel may have got a parent that is gone.

## What is proved

* `recover_startRecords` — the new file yields the same records as the old, but for the parents that
  the kernels carry: of all the kernels with the id of a parent, the last in the log takes its
  place.
* `adopt_eq_self` — a record is the same where these are all the same.
* `recover_foreign` — a foreign kernel may have the id of a parent; then there is no new file.
* `not_recovered` — two kernels need not carry the same copy of their parent, and then one of the
  copies is gone.
-/

namespace Subordination.Core

open Library

section Rewriting

variable {P : Type} [ByteOrder]

/-! ### Recovering -/

/-- The records are written to `new_buffer`. -/
def writeHeld (proc : Process P) (mem : Memory P) : List HeldRecord → PutM Unit
  | [] => pure ()
  | r :: records => do
    writeRecord proc mem r.status r.pipelineIndex (mem r.k)
    writeHeld proc mem records

/-- `records.resize(max_records())`: the kernels of the records that go are deleted, and anything may
be where they were. -/
def deleteRecords (freed mem : Memory P) (records : List HeldRecord) : Memory P := fun a =>
  if a ∈ records.map HeldRecord.k then freed a else mem a

/-- What `recover(filename, max_offset)` leaves before it sends the kernels. -/
structure Recovered (P : Type) where
  /-- The memory. -/
  memory : Memory P
  /-- `records`. -/
  records : List HeldRecord
  /-- The new file. -/
  file : List UInt8

/-- What `recover` finds in memory: what is there otherwise, where it puts the kernels, and what is
there once kernels have been deleted. -/
structure Room (P : Type) where
  /-- What is in memory otherwise. -/
  memory : Memory P
  /-- Where the kernels are put. -/
  slots : List Slot
  /-- What is where kernels have been. -/
  freed : Memory P

/-- `recover(filename, max_offset)`, up to where it sends the kernels: the file comes in the given
pieces. -/
def recoverFile (proc : Process P) (maxRecords : ℕ) (room : Room P) (pieces : List (List UInt8)) :
    Option (Except Exception (Recovered P)) :=
  match readRecords proc pieces with
  | none => none
  | some (.error e) => some (.error e)
  | some (.ok records) =>
    let located := records.zip room.slots
    let held := located.map Located.held
    match plugParents 3 (hold room.memory located) held with
    | none => none
    | some memory =>
      let memory := deleteRecords room.freed memory (held.drop maxRecords)
      let held := held.take maxRecords
      match writeHeld proc memory held .empty with
      | .error e _ => some (.error e)
      | .ok _ b => some (.ok { memory, records := held, file := b.flip.flush.1 })

/-! ### What comes out of the log -/

/-- A native kernel that has been read. -/
def Kernel.ReadNative (proc : Process P) (k : Kernel P) : Prop :=
  ∃ type state bs, k.Native proc type state bs ∧ k.typeId = type.id

/-- What is read from a `start` record. -/
inductive Settled (proc : Process P) : Received P → Prop
  /-- A native kernel has a pointer to the parent that came with it, where the id of that was; the
  parent came without a header. -/
  | native {k parent : Kernel P} : k.ReadNative proc → k.sent = k.toHeader →
      k.targetApplicationId = proc.thisApplication → k.carriesParent = true →
      k.flags = k.flags.received.unsetf .parentIsId → k.parentWord = parent.id →
      parent.ReadNative proc → parent.nodeFilter = none →
      parent.toHeader = Header.fresh proc.thisApplication → parent.flags = parent.flags.received →
      Settled proc ⟨k, some parent⟩
  /-- A foreign kernel has ids. -/
  | foreign {k : Kernel P} {payload : List UInt8} : k.payload = .foreign payload → k.sent = k.toHeader →
      k.targetApplicationId ≠ proc.thisApplication → k.Encodable → k.flags = k.flags.received →
      Settled proc ⟨k, none⟩

variable {proc : Process P} {mem : Memory P}

theorem Recordable.settled {k : Kernel P} {wire : List UInt8} {r : Received P}
    (h : Recordable proc mem k wire r) : Settled proc r := by
  cases h with
  | @native type type' state state' bs bs' hk htarget hcarries hparent hp hfilter =>
    have hid : k.isset .parentIsId = false := by
      by_contra hid
      rw [Bool.not_eq_false] at hid
      exact hparent (by rw [Kernel.parent, if_pos hid])
    have hword : k.parentId mem = (mem k.parent).id := by
      rw [Kernel.parent, hid, if_neg Bool.false_ne_true] at hparent ⊢
      rw [Kernel.parentId, hid, if_neg Bool.false_ne_true, if_neg hparent]
    have hk' := hk.encodable
    have hp' := hp.encodable
    refine .native ⟨type, state, bs, ⟨hk.known, rfl, hk.roundTrips, ?_⟩, rfl⟩ k.toHeader.sent_sent ?_ ?_ ?_
      hword ⟨type', state', bs', ⟨hp.known, rfl, hp.roundTrips, ?_⟩, rfl⟩ hfilter rfl ?_
    · exact ⟨hk'.sourceApplication.sent, hk'.targetApplication.sent, hk'.path, hk'.nodeFilter⟩
    · rw [← htarget]
      exact k.targetApplicationId_sent
    · rw [← hcarries]
      simp [Kernel.asNative, Kernel.copyOf, Kernel.carriesParent, Kernel.isset]
    · simp [Kernel.asNative, Kernel.copyOf]
    · exact ⟨trivial, trivial, hp'.path, hp'.nodeFilter⟩
    · simp [Kernel.copyOf]
  | foreign hk htarget hencodable =>
    refine .foreign rfl k.toHeader.sent_sent ?_ hencodable.asForeign ?_
    · rw [← k.targetApplicationId_sent] at htarget
      exact htarget
    · simp [Kernel.asForeign, Kernel.copyOf]

/-! ### What is written again -/

/-- A kernel as it is read when another kernel carries it. -/
def Kernel.asParent (proc : Process P) (k : Kernel P) : Kernel P :=
  { k with toHeader := Header.fresh proc.thisApplication, flags := k.flags.received }

theorem Represents.native {a : UInt64} {k : Kernel P} (h : Represents mem a k) {type : KernelType}
    {state : P} {bs : List UInt8} (hk : k.Native proc type state bs) : (mem a).Native proc type state bs := by
  rw [h.same]
  exact ⟨hk.known, hk.payload, hk.roundTrips,
    ⟨hk.encodable.sourceApplication, hk.encodable.targetApplication, hk.encodable.path,
      hk.encodable.nodeFilter⟩⟩

/-- A native kernel can be recorded again, with the parent it has got. -/
theorem Settled.again {a : UInt64} {k parent q : Kernel P} (h : Settled proc ⟨k, some parent⟩)
    (ha : Represents mem a k) (hparent : (mem a).parent ≠ 0) (hp : Represents mem (mem a).parent q)
    (hq : q.ReadNative proc) (hfilter : q.nodeFilter = none) :
    ∃ wire, Recordable proc mem (mem a) wire ⟨k, some (q.asParent proc)⟩ := by
  cases h with
  | native hk hsent htarget hcarries hflags hword hparentNative hparentFilter hfresh hparentFlags =>
    obtain ⟨type, state, bs, hnative, htype⟩ := hk
    obtain ⟨type', state', bs', hnative', htype'⟩ := hq
    have hheader : (mem a).toHeader = k.toHeader := by rw [ha.same]
    have hfilter' : (mem (mem a).parent).nodeFilter = none := by rw [hp.same]; exact hfilter
    have htarget' : (mem a).targetApplicationId = proc.thisApplication := by
      rw [Kernel.targetApplicationId, hheader]
      exact htarget
    have hagain := Recordable.native (ha.native hnative) htarget' (ha.carriesParent.trans hcarries) hparent
      (hp.native hnative') hfilter'
    have hself : (Process.asCarrier proc mem (mem a) type type' state state').kernel =
        { k with
          typeId := type.id
          payload := .native type.index state
          flags := k.flags.received.unsetf .parentIsId } := by
      rw [Process.asCarrier, Kernel.asNative, ha.copyOf_eq, hheader, hsent]
      rfl
    have hcarried : (Process.asCarrier proc mem (mem a) type type' state state').carried =
        some { q.asParent proc with typeId := type'.id, payload := .native type'.index state' } := by
      rw [Process.asCarrier, hp.copyOf_eq]
      rfl
    rw [← htype, ← hnative.payload, ← hflags] at hself
    rw [← htype', ← hnative'.payload] at hcarried
    have hreceived : Process.asCarrier proc mem (mem a) type type' state state' =
        ⟨k, some (q.asParent proc)⟩ := congrArg₂ Received.mk hself hcarried
    rw [hreceived] at hagain
    exact ⟨_, hagain⟩

/-- A foreign kernel can be recorded again. -/
theorem Settled.again_foreign {a : UInt64} {k : Kernel P} (h : Settled proc ⟨k, none⟩)
    (ha : Represents mem a k) : ∃ wire, Recordable proc mem (mem a) wire ⟨k, none⟩ := by
  cases h with
  | @foreign _ payload hk hsent htarget hencodable hflags =>
    have hheader : (mem a).toHeader = k.toHeader := by rw [ha.same]
    have hpayload : (mem a).payload = .foreign payload := by rw [ha.same]; exact hk
    have htypeId : (mem a).typeId = k.typeId := by rw [ha.same]
    have htarget' : (mem a).targetApplicationId ≠ proc.thisApplication := by
      rw [Kernel.targetApplicationId, hheader]
      exact htarget
    have hencodable' : (mem a).Encodable := by
      rw [ha.same]
      exact ⟨hencodable.sourceApplication, hencodable.targetApplication, hencodable.path,
        hencodable.nodeFilter⟩
    have hself : (mem a).asForeign mem (mem a).typeId payload =
        { k with payload := .foreign payload, flags := k.flags.received } := by
      rw [Kernel.asForeign, ha.copyOf_eq, hheader, hsent, htypeId]
      rfl
    rw [← hk, ← hflags] at hself
    have hagain : Recordable proc mem (mem a) _ _ := .foreign hpayload htarget' hencodable'
    rw [hself] at hagain
    exact ⟨_, hagain⟩

theorem Settled.linked {r : Received P} (h : Settled proc r) : r.Linked := by
  cases h with
  | native hk hsent htarget hcarries hflags hword hparent hfilter hfresh hparentFlags =>
    exact .carrier hflags hword hparentFlags
  | foreign hk hsent htarget hencodable hflags => exact .alone hflags

/-! ### The size of a record -/

/-- The length of the fields of a kernel depends on its path and its node filter. -/
theorem Kernel.length_bytes_congr {mem mem' : Memory P} {k k' : Kernel P} (hpath : k.path = k'.path)
    (hfilter : k.nodeFilter = k'.nodeFilter) : (k.bytes mem).length = (k'.bytes mem').length := by
  simp only [Kernel.bytes, List.length_append, length_u16Bytes, length_u64Bytes, length_flagBytes,
    length_u8Bytes, length_u32Bytes, hpath, hfilter]

theorem Kernel.length_packet_congr {mem mem' : Memory P} {k k' : Kernel P} (hheader : k.sent = k'.sent)
    (hpath : k.path = k'.path) (hfilter : k.nodeFilter = k'.nodeFilter) (typeId : UInt16)
    {rest rest' : List UInt8} (hrest : rest.length = rest'.length) :
    (k.packet mem typeId rest).length = (k'.packet mem' typeId rest').length := by
  have hbytes : k.toHeader.bytes k.nodeFilter.isSome = k'.toHeader.bytes k'.nodeFilter.isSome := by
    rw [← k.toHeader.bytes_sent, ← k'.toHeader.bytes_sent, hfilter]
    exact congrArg (Header.bytes · _) hheader
  have hlen : (k.bytes mem).length = (k'.bytes mem').length := Kernel.length_bytes_congr hpath hfilter
  rw [Kernel.packet, Kernel.packet, hbytes]
  simp only [List.length_append, hlen, hrest]

/-- What is read from a record tells how long it is. -/
theorem Recordable.length_unique {mem mem' : Memory P} {k k' : Kernel P} {wire wire' : List UInt8}
    {r r' : Received P} (h : Recordable proc mem k wire r) (h' : Recordable proc mem' k' wire' r')
    (hr : r = r') : wire.length = wire'.length := by
  have hkernel := congrArg Received.kernel hr
  have hcarried := congrArg Received.carried hr
  cases h with
  | @native type₁ type₁' state₁ state₁' bs₁ bs₁' hk htarget hcarries hparent hp hfilter =>
    cases h' with
    | @native type₂ type₂' state₂ state₂' bs₂ bs₂' hk' htarget' hcarries' hparent' hp' hfilter' =>
      have hpayload := congrArg Kernel.payload hkernel
      have hparents := Option.some.inj hcarried
      have hpayload' := congrArg Kernel.payload hparents
      obtain ⟨hindex, hstate⟩ := Payload.native.inj hpayload
      obtain ⟨hindex', hstate'⟩ := Payload.native.inj hpayload'
      have hpath : (mem k.parent).path = (mem' k'.parent).path := (congrArg Kernel.path hparents :)
      have hbytes : ((mem k.parent).bytes mem).length = ((mem' k'.parent).bytes mem').length :=
        Kernel.length_bytes_congr hpath (hfilter.trans hfilter'.symm)
      have hw := hk.roundTrips.writes
      have hw' := hp.roundTrips.writes
      rw [hindex, hstate] at hw
      rw [hindex', hstate'] at hw'
      have hid : type₁.id = type₂.id := (congrArg Kernel.typeId hkernel :)
      rw [hid, hw.unique hk'.roundTrips.writes, hw'.unique hp'.roundTrips.writes]
      refine Kernel.length_packet_congr (congrArg Kernel.toHeader hkernel :) (congrArg Kernel.path hkernel :)
        (congrArg Kernel.nodeFilter hkernel :) _ ?_
      simp only [List.length_append, length_u16Bytes, hbytes]
    | foreign hk' htarget' hencodable' => cases hcarried
  | @foreign payload hk htarget hencodable =>
    cases h' with
    | native hk' htarget' hcarries' hparent' hp' hfilter' => cases hcarried
    | @foreign payload' hk' htarget' hencodable' =>
      have hpayload : payload = payload' := Payload.foreign.inj (congrArg Kernel.payload hkernel)
      have hid : k.typeId = k'.typeId := (congrArg Kernel.typeId hkernel :)
      rw [hpayload, hid]
      exact Kernel.length_packet_congr (congrArg Kernel.toHeader hkernel :) (congrArg Kernel.path hkernel :)
        (congrArg Kernel.nodeFilter hkernel :) _ rfl

/-! ### The new file -/

/-- The record in memory is the record that the start record is read as. -/
def HeldRecord.Writes (proc : Process P) (mem : Memory P) (h : HeldRecord) (c : StartRecord proc) : Prop :=
  h.status = .start ∧ h.pipelineIndex = c.pipelineIndex ∧
    ∃ wire, Recordable proc mem (mem h.k) wire c.received

/-- The records are written like those that they are read as. -/
theorem writes_writeHeld {held : List HeldRecord} {cs : List (StartRecord proc)}
    (h : List.Forall₂ (HeldRecord.Writes proc mem) held cs) :
    ∃ cs' : List (StartRecord proc), cs'.map StartRecord.record = cs.map StartRecord.record ∧
      Writes (writeHeld proc mem held) (StartRecord.fileOf cs') := by
  induction h with
  | nil => exact ⟨[], rfl, writes_pure⟩
  | @cons r c held cs hwrites _ ih =>
    obtain ⟨hstatus, hindex, wire, hrecordable⟩ := hwrites
    obtain ⟨cs', hrecords, hrest⟩ := ih
    have hlen : wire.length = c.wire.length := hrecordable.length_unique c.recordable rfl
    have hfits : kernelFraming.Fits (recordBody .start c.pipelineIndex wire) := by
      have hfits := c.fits
      simp only [Framing.Fits, recordBody, List.length_append, length_u8Bytes, length_u32Bytes, hlen] at hfits ⊢
      exact hfits
    let c' : StartRecord proc :=
      { mem, k := mem r.k, pipelineIndex := c.pipelineIndex, wire, received := c.received
        recordable := hrecordable, fits := hfits }
    refine ⟨c' :: cs', ?_, ?_⟩
    · rw [List.map_cons, hrecords]
      rfl
    · rw [writeHeld, hstatus, hindex]
      exact c'.writes.seq hrest

/-- A record with the parent that its kernel gets: the last kernel in the log that has the id of the
parent. -/
def adopt (proc : Process P) (records : List (TransactionRecord P)) (r : TransactionRecord P) :
    TransactionRecord P :=
  match r.k.carried with
  | none => r
  | some parent => { r with k.carried := some (((lastKernel records parent.id).getD parent).asParent proc) }

/-- No kernel that is deleted has the id of the parent of one that is kept. -/
def Spares (maxRecords : ℕ) (records : List (TransactionRecord P)) : Prop :=
  ∀ r ∈ records.drop maxRecords, ∀ r' ∈ records.take maxRecords, r.k.kernel.id ≠ r'.k.kernel.parentWord

section Kept

variable {located : List (Located P)} {maxRecords : ℕ} {memory : Memory P}

omit [ByteOrder] in
/-- The kernels that have the id of the parent of a kernel that is kept are not deleted. -/
theorem deleteRecords_of_id (freed : Memory P) (hspares : Spares maxRecords (located.map Prod.fst))
    (hstands : ∀ y ∈ located.flatMap Located.kernels,
      Stands (located.flatMap Located.kernels) memory y.1 y.2)
    {x : Located P} (hx : x ∈ located.take maxRecords) {p : UInt64} {q : Kernel P}
    (hq : (p, q) ∈ located.flatMap Located.kernels) (hid : q.id = x.1.k.kernel.parentWord) :
    deleteRecords freed memory ((located.map Located.held).drop maxRecords) p = memory p := by
  rw [deleteRecords, if_neg]
  rw [← List.map_drop, List.map_map]
  intro hp
  obtain ⟨y, hy, rfl⟩ := List.mem_map.mp hp
  have hyself : (y.2.kernel, y.1.k.kernel) ∈ located.flatMap Located.kernels :=
    List.mem_flatMap.mpr ⟨y, List.mem_of_mem_drop hy, List.mem_cons_self⟩
  have hsame : y.1.k.kernel.id = q.id := (hstands _ hyself).id_eq.symm.trans (hstands _ hq).id_eq
  refine hspares y.1 ?_ x.1 ?_ (hsame.trans hid)
  · rw [← List.map_drop]
    exact List.mem_map_of_mem hy
  · rw [← List.map_take]
    exact List.mem_map_of_mem hx

omit [ByteOrder] in
/-- The kernels that are kept are not deleted. -/
theorem deleteRecords_of_kept (freed : Memory P) (hapart : Apart (located.map Prod.snd)) {x : Located P}
    (hx : x ∈ located.take maxRecords) :
    deleteRecords freed memory ((located.map Located.held).drop maxRecords) x.2.kernel =
      memory x.2.kernel := by
  rw [deleteRecords, if_neg]
  rw [← List.map_drop, List.map_map]
  intro hp
  obtain ⟨y, hy, heq⟩ := List.mem_map.mp hp
  have hpairs := (List.pairwise_map.mp hapart.pairwise.1).rel_of_mem_take_of_mem_drop hx hy
  exact hpairs heq.symm

omit [ByteOrder] in
/-- A kernel that is kept is still there when the others have been deleted, and so is the parent it
has got. -/
theorem represents_deleteRecords (freed : Memory P) (hapart : Apart (located.map Prod.snd))
    (hlinked : ∀ x ∈ located, x.1.k.Linked) (hspares : Spares maxRecords (located.map Prod.fst))
    (hstands : ∀ y ∈ located.flatMap Located.kernels,
      Stands (located.flatMap Located.kernels) memory y.1 y.2)
    (hparents : ∀ x ∈ located, ∀ parent, x.1.k.carried = some parent → ∃ q,
      lastKernel (located.map Prod.fst) parent.id = some q ∧ (memory x.2.kernel).parent ≠ 0 ∧
        ((memory x.2.kernel).parent, q) ∈ located.flatMap Located.kernels ∧ memory x.2.carried = parent)
    {x : Located P} (hx : x ∈ located.take maxRecords) :
    let memory' := deleteRecords freed memory ((located.map Located.held).drop maxRecords)
    Represents memory' x.2.kernel x.1.k.kernel ∧
      ∀ parent, x.1.k.carried = some parent → ∃ q, lastKernel (located.map Prod.fst) parent.id = some q ∧
        (memory' x.2.kernel).parent ≠ 0 ∧ Represents memory' (memory' x.2.kernel).parent q := by
  intro memory'
  have hself : ∀ x ∈ located.take maxRecords, memory' x.2.kernel = memory x.2.kernel ∧
      Represents memory' x.2.kernel x.1.k.kernel := by
    intro x hx
    have hkept : memory' x.2.kernel = memory x.2.kernel := deleteRecords_of_kept freed hapart hx
    have hstand := hstands (x.2.kernel, x.1.k.kernel)
      (List.mem_flatMap.mpr ⟨x, List.mem_of_mem_take hx, List.mem_cons_self⟩)
    refine ⟨hkept, hstand.of_agree hkept fun hpointer => ?_⟩
    obtain ⟨q, hq, hid⟩ := hstand.points hpointer
    exact congrArg Kernel.id (deleteRecords_of_id freed hspares hstands hx hq hid)
  obtain ⟨hkept, hrepresents⟩ := hself x hx
  refine ⟨hrepresents, fun parent hparent => ?_⟩
  obtain ⟨q, hlast, hne, hq, -⟩ := hparents x (List.mem_of_mem_take hx) parent hparent
  have hid : q.id = x.1.k.kernel.parentWord := by
    rw [(hlinked x (List.mem_of_mem_take hx)).parentWord hparent]
    simpa using List.find?_some hlast
  have hthere := deleteRecords_of_id freed hspares hstands hx hq hid
  rw [hkept]
  refine ⟨q, hlast, hne, (hstands _ hq).of_agree hthere fun hpointer => ?_⟩
  -- The parent is a kernel that is kept, or one that has come with a kernel.
  obtain ⟨y, hy, hq'⟩ := List.mem_flatMap.mp hq
  rcases List.mem_cons.mp hq' with heq | hcarried
  · obtain rfl : q = y.1.k.kernel := congrArg Prod.snd heq
    rw [← List.take_append_drop maxRecords located, List.mem_append] at hy
    rcases hy with hy | hy
    · obtain ⟨q', hq', hid'⟩ := (hstands _ hq).points hpointer
      exact congrArg Kernel.id (deleteRecords_of_id freed hspares hstands hy hq' hid')
    · refine absurd hid (hspares y.1 ?_ x.1 ?_)
      · rw [← List.map_drop]
        exact List.mem_map_of_mem hy
      · rw [← List.map_take]
        exact List.mem_map_of_mem hx
  · obtain ⟨parent', hparent', heq⟩ := List.mem_map.mp hcarried
    obtain ⟨hplace, rfl⟩ := Prod.mk.inj heq
    obtain ⟨-, -, -, -, hmemory⟩ := hparents y hy parent' (Option.mem_toList.mp hparent')
    have hnone := (hlinked y hy).pointed.carried _ (Option.mem_toList.mp hparent')
    rw [← hplace, hmemory, hnone] at hpointer
    cases hpointer

end Kept

/-- Every kernel that has been read is encodable. -/
theorem Settled.encodable {r : Received P} (h : Settled proc r) : ∀ k ∈ r.kernel :: r.carried.toList,
    k.Encodable := by
  cases h with
  | native hk hsent htarget hcarries hflags hword hparent hfilter hfresh hparentFlags =>
    obtain ⟨type, state, bs, hnative, htype⟩ := hk
    obtain ⟨type', state', bs', hnative', htype'⟩ := hparent
    intro k hk
    rcases List.mem_pair.mp hk with rfl | rfl
    · exact hnative.encodable
    · exact hnative'.encodable
  | foreign hk hsent htarget hencodable hflags =>
    intro k hk
    rw [List.mem_singleton.mp hk]
    exact hencodable

/-- A kernel that can be carried as a parent is native, and has no node filter. -/
theorem Settled.parent_of_asParent {k q : Kernel P} (h : Settled proc ⟨k, some (q.asParent proc)⟩)
    (hq : q.Encodable) : q.ReadNative proc ∧ q.nodeFilter = none := by
  generalize hparent : q.asParent proc = parent at h
  cases h with
  | native _ _ _ _ _ _ hnative hfilter _ _ =>
    subst hparent
    obtain ⟨type, state, bs, hread, htype⟩ := hnative
    exact ⟨⟨type, state, bs, ⟨hread.known, hread.payload, hread.roundTrips, hq⟩, htype⟩, hfilter⟩

/-- A record that is kept is written again as the record with the parent that its kernel has got. -/
theorem writes_kept {x : Located P} {records : List (TransactionRecord P)} {c : StartRecord proc}
    (hsettled : Settled proc x.1.k) (hstatus : x.1.status = .start)
    (hencodable : ∀ id q, lastKernel records id = some q → q.Encodable)
    (hself : Represents mem x.2.kernel x.1.k.kernel)
    (hparent : ∀ parent, x.1.k.carried = some parent → ∃ q, lastKernel records parent.id = some q ∧
      (mem x.2.kernel).parent ≠ 0 ∧ Represents mem (mem x.2.kernel).parent q)
    (hc : adopt proc records x.1 = c.record) : x.held.Writes proc mem c := by
  obtain ⟨⟨status, pipelineIndex, k, carried⟩, slot⟩ := x
  dsimp only at hsettled hstatus hself hparent hc
  cases carried with
  | none =>
    have hreceived : ⟨k, none⟩ = c.received := congrArg TransactionRecord.k hc
    refine ⟨hstatus, congrArg TransactionRecord.pipelineIndex hc, ?_⟩
    rw [← hreceived]
    exact hsettled.again_foreign hself
  | some parent =>
    obtain ⟨q, hlast, hne, hq⟩ := hparent parent rfl
    rw [adopt] at hc
    dsimp only at hc
    rw [hlast, Option.getD_some] at hc
    have hreceived : ⟨k, some (q.asParent proc)⟩ = c.received := congrArg TransactionRecord.k hc
    have hsettled' := c.recordable.settled
    rw [← hreceived] at hsettled'
    obtain ⟨hnative, hfilter⟩ := hsettled'.parent_of_asParent (hencodable _ q hlast)
    refine ⟨hstatus, congrArg TransactionRecord.pipelineIndex hc, ?_⟩
    rw [← hreceived]
    exact hsettled.again hself hne hq hnative hfilter

omit [ByteOrder] in
/-- Two lists that are mapped to the same are related element by element. -/
theorem forall₂_of_map_eq {α β γ : Type} {f : α → γ} {g : β → γ} {R : α → β → Prop} {l : List α} {l' : List β}
    (heq : l.map f = l'.map g) (h : ∀ a ∈ l, ∀ b ∈ l', f a = g b → R a b) : List.Forall₂ R l l' := by
  induction l generalizing l' with
  | nil =>
    rw [List.map_nil, eq_comm, List.map_eq_nil_iff] at heq
    rw [heq]
    exact .nil
  | cons a l ih =>
    cases l' with
    | nil => cases heq
    | cons b l' =>
      obtain ⟨hhead, htail⟩ := List.cons.inj heq
      exact .cons (h a List.mem_cons_self b List.mem_cons_self hhead)
        (ih htail fun a' ha b' hb => h a' (List.mem_cons_of_mem a ha) b' (List.mem_cons_of_mem b hb))

/-- **The new file yields the records that are kept**, each with the parent that its kernel has got,
if the records with these parents can be recorded. -/
theorem readRecords_recover (cs cs' : List (StartRecord proc)) (maxRecords : ℕ) (room : Room P)
    (hslots : room.slots.length = cs.length) (hapart : Apart room.slots)
    (hspares : Spares maxRecords (cs.map StartRecord.record))
    (hcs' : cs'.map StartRecord.record =
      ((cs.map StartRecord.record).take maxRecords).map (adopt proc (cs.map StartRecord.record)))
    {pieces : List (List UInt8)} (hpieces : pieces.flatten = StartRecord.fileOf cs) :
    ∃ recovered, recoverFile proc maxRecords room pieces = some (.ok recovered) ∧
      ∀ pieces', pieces'.flatten = recovered.file → readRecords proc pieces' =
        some (.ok (((cs.map StartRecord.record).take maxRecords).map
          (adopt proc (cs.map StartRecord.record)))) := by
  have hread := StartRecord.readRecords_fileOf hpieces
  generalize hrecords : cs.map StartRecord.record = records at hread hspares hcs' ⊢
  have hlength : records.length = room.slots.length := by rw [hslots, ← hrecords, List.length_map]
  have hfst : (records.zip room.slots).map Prod.fst = records := List.map_fst_zip (le_of_eq hlength)
  have hsnd : (records.zip room.slots).map Prod.snd = room.slots := List.map_snd_zip (ge_of_eq hlength)
  generalize hlocated : records.zip room.slots = located at hfst hsnd
  have hsettled : ∀ r ∈ records, Settled proc r.k ∧ r.status = .start := by
    intro r hr
    rw [← hrecords] at hr
    obtain ⟨c, -, rfl⟩ := List.mem_map.mp hr
    exact ⟨c.recordable.settled, rfl⟩
  have hmem : ∀ x ∈ located, x.1 ∈ records := fun x hx => hfst ▸ List.mem_map_of_mem hx
  have hlinked : ∀ x ∈ located, x.1.k.Linked := fun x hx => (hsettled _ (hmem x hx)).1.linked
  have hencodable : ∀ id q, lastKernel records id = some q → q.Encodable := by
    intro id q hq
    obtain ⟨r, hr, hk⟩ := List.mem_flatMap.mp (List.mem_reverse.mp (List.mem_of_find?_eq_some hq))
    exact (hsettled r hr).1.encodable q hk
  rw [← hsnd] at hapart
  obtain ⟨memory, hplug, hstands, hparents⟩ := plugParents_eq hapart hlinked room.memory
  rw [← hfst] at hspares
  have hkept : List.Forall₂ (HeldRecord.Writes proc
      (deleteRecords room.freed memory ((located.map Located.held).drop maxRecords)))
      ((located.map Located.held).take maxRecords) cs' := by
    rw [← List.map_take, List.forall₂_map_left_iff]
    rw [← hfst, ← List.map_take, List.map_map, hfst] at hcs'
    refine forall₂_of_map_eq hcs'.symm fun x hx c _ hc => ?_
    obtain ⟨hself, hparent⟩ :=
      represents_deleteRecords room.freed hapart hlinked hspares hstands hparents hx
    rw [hfst] at hparent
    obtain ⟨hx', hstatus⟩ := hsettled _ (hmem x (List.mem_of_mem_take hx))
    exact writes_kept hx' hstatus hencodable hself hparent hc
  obtain ⟨cs'', hrecords'', hwrites⟩ := writes_writeHeld hkept
  obtain ⟨b, e, -, -, hcontent⟩ := hwrites ByteBuffer.empty le_rfl
  have hrecover : recoverFile proc maxRecords room pieces = some (.ok
      { memory := deleteRecords room.freed memory ((located.map Located.held).drop maxRecords)
        records := (located.map Located.held).take maxRecords
        file := b.flip.flush.1 }) := by
    rw [recoverFile, hread]
    simp only [hlocated, hplug, e]
  refine ⟨_, hrecover, fun pieces' hpieces' => ?_⟩
  rw [← hcs', ← hrecords'']
  refine StartRecord.readRecords_fileOf (hpieces'.trans ?_)
  change b.flip.window = _
  rw [b.window_flip, hcontent, ByteBuffer.content_empty, List.nil_append]

/-- **The log survives a restart**: start records are read back in the order in which they were
written, and the file that takes the place of theirs yields those that are kept, each with the parent
that `plug_parents` has given to its kernel, however the files are cut. The records with these parents
must be such as can be recorded. -/
theorem recover_startRecords (cs : List (StartRecord proc)) :
    ∃ b, StartRecord.writeAll cs .empty = .ok () b ∧ ∀ pieces, pieces.flatten = b.flip.flush.1 →
      readRecords proc pieces = some (.ok (cs.map StartRecord.record)) ∧
      ∀ (maxRecords : ℕ) (room : Room P) (cs' : List (StartRecord proc)),
        room.slots.length = cs.length → Apart room.slots →
        Spares maxRecords (cs.map StartRecord.record) →
        cs'.map StartRecord.record =
          ((cs.map StartRecord.record).take maxRecords).map (adopt proc (cs.map StartRecord.record)) →
        ∃ recovered, recoverFile proc maxRecords room pieces = some (.ok recovered) ∧
          ∀ pieces', pieces'.flatten = recovered.file →
            readRecords proc pieces' = some (.ok (cs'.map StartRecord.record)) := by
  obtain ⟨b, e, -, -, hcontent⟩ := StartRecord.writes_writeAll cs ByteBuffer.empty le_rfl
  have hfile : b.flip.flush.1 = StartRecord.fileOf cs := by
    change b.flip.window = _
    rw [b.window_flip, hcontent, ByteBuffer.content_empty, List.nil_append]
  refine ⟨b, e, fun pieces hpieces => ?_⟩
  rw [hfile] at hpieces
  refine ⟨StartRecord.readRecords_fileOf hpieces, fun maxRecords room cs' hslots hapart hspares hcs' => ?_⟩
  rw [hcs']
  exact readRecords_recover cs cs' maxRecords room hslots hapart hspares hcs' hpieces

/-- A record keeps its parent if all the kernels in the log with the id of that are the same. -/
theorem adopt_eq_self {records : List (TransactionRecord P)} {r : TransactionRecord P}
    (hsettled : Settled proc r.k)
    (hsame : ∀ parent, r.k.carried = some parent → ∀ q, lastKernel records parent.id = some q → q = parent) :
    adopt proc records r = r := by
  obtain ⟨status, pipelineIndex, k, carried⟩ := r
  cases carried with
  | none => rfl
  | some parent =>
    have hlast : (lastKernel records parent.id).getD parent = parent := by
      cases hq : lastKernel records parent.id with
      | none => rfl
      | some q => exact hsame parent rfl q hq
    rw [adopt]
    dsimp only
    rw [hlast]
    cases hsettled with
    | native hk hsent htarget hcarries hflags hword hparent hfilter hfresh hparentFlags =>
      have hself : parent.asParent proc = parent := by
        rw [Kernel.asParent, ← hfresh, ← hparentFlags]
      rw [hself]

/-! ### Two kernels with one parent -/

/-- A kernel without a state that carries such a kernel. -/
theorem recordable_plain {mem : Memory Unit} {k : Kernel Unit}
    (hk : k.payload = .native KernelType.plain.index ()) (hencodable : k.Encodable)
    (htarget : k.targetApplicationId = 0) (hcarries : k.carriesParent = true) (hparent : k.parent ≠ 0)
    (hp : (mem k.parent).payload = .native KernelType.plain.index ()) (hencodable' : (mem k.parent).Encodable)
    (hfilter : (mem k.parent).nodeFilter = none) :
    Recordable (Process.plain 0) mem k
      (k.packet mem KernelType.plain.id ([] ++ (u16Bytes KernelType.plain.id ++ ((mem k.parent).bytes mem ++ []))))
      (Process.asCarrier (Process.plain 0) mem k KernelType.plain KernelType.plain () ()) := by
  have hknown : ∃ types, (Process.plain 0).types = some types ∧ KernelType.plain ∈ types.types :=
    ⟨_, rfl, mem_plain⟩
  have hclass : ((Process.plain 0).classes KernelType.plain.index).RoundTrips () [] :=
    ⟨writes_plain_state, Reads.pure ()⟩
  exact .native ⟨hknown, hk, hclass, hencodable⟩ htarget hcarries hparent ⟨hknown, hp, hclass, hencodable'⟩
    hfilter

/-- A kernel on its way to the log. It carries its parent, which has the id 7 and the given path. -/
def StartRecord.child (id : UInt64) (letter : UInt8) : StartRecord (Process.plain 0) where
  mem _ := { Kernel.plain [letter] with id := 7 }
  k := { Kernel.carrier with id }
  pipelineIndex := 0
  wire := _
  received := _
  recordable := by
    refine recordable_plain rfl ⟨trivial, trivial, ?_, fun e he => nomatch he⟩ rfl ?_ ?_ rfl
      ⟨trivial, trivial, ?_, fun e he => nomatch he⟩ rfl
    · exact (by decide : 0 < 2 ^ 64)
    · exact (by decide : Kernel.carrier.carriesParent = true)
    · exact (by decide : Kernel.carrier.parent ≠ 0)
    · exact (by decide : 1 < 2 ^ 64)
  fits := by
    simp [Framing.Fits, recordBody, Kernel.packet, Header.bytes, Header.addressBytes, Header.written,
      Kernel.carrier, Kernel.plain, Kernel.fresh, Header.fresh, ApplicationSlot.bytes, Kernel.bytes, stringBytes]
    exact (by decide : 4 + 145 < 2 ^ 32)

/-- A kernel of another application, with the given id and payload. -/
def Kernel.stranger (id : UInt64) (payload : List UInt8) : Kernel Unit :=
  { Kernel.fresh 0 (.foreign payload) with id, targetApplication := .id 1 }

theorem recordable_stranger (mem : Memory Unit) (id : UInt64) (payload : List UInt8) :
    Recordable (Process.plain 0) mem (Kernel.stranger id payload)
      ((Kernel.stranger id payload).packet mem 0 payload)
      { kernel := (Kernel.stranger id payload).asForeign mem 0 payload } := by
  refine .foreign rfl ?_ ⟨trivial, trivial, ?_, fun e he => nomatch he⟩
  · exact (by decide : (1 : UInt64) ≠ 0)
  · exact (by decide : 0 < 2 ^ 64)

theorem length_packet_stranger (mem : Memory Unit) (id : UInt64) (payload : List UInt8) :
    ((Kernel.stranger id payload).packet mem 0 payload).length = payload.length + 78 := by
  simp [Kernel.packet, Kernel.stranger, Kernel.fresh, Header.fresh, Header.bytes, Header.addressBytes,
    Header.written, ApplicationSlot.bytes, Kernel.bytes, stringBytes]
  omega

/-- The record of such a kernel. -/
def StartRecord.stranger (id : UInt64) : StartRecord (Process.plain 0) where
  mem := Memory.blank
  k := Kernel.stranger id []
  pipelineIndex := 0
  wire := _
  received := _
  recordable := recordable_stranger Memory.blank id []
  fits := by
    simp only [Framing.Fits, recordBody, List.length_append, length_packet_stranger, length_u8Bytes,
      length_u32Bytes]
    exact (by decide : 4 + (1 + (4 + (0 + 78))) < 2 ^ 32)

/-- A record that does not fit in a frame is not in the file, though no exception is thrown. -/
theorem writes_record_huge (mem : Memory Unit) :
    Writes (writeRecord (Process.plain 0) mem .start 0
      (Kernel.stranger 5 (List.replicate (2 ^ 32 - 87) 0))) [] := by
  have hwrite := (recordable_stranger mem 5 (List.replicate (2 ^ 32 - 87) 0)).writes
  refine writes_frame_wrapped ((writes_bytes _).seq ((writes_bytes _).seq hwrite)) ?_
  simp only [List.length_append, length_packet_stranger, List.length_replicate, length_u8Bytes,
    length_u32Bytes]
  decide

/-- Where the kernels are put. -/
def Room.plain : Room Unit where
  memory := Memory.blank
  slots := [⟨1, 2⟩, ⟨3, 4⟩]
  freed := Memory.blank

end Rewriting

/-- Two siblings whose parents are the same are the same afterwards. -/
theorem recover_startRecords_siblings :
    letI := ByteOrder.littleEndian
    ∃ b, StartRecord.writeAll [StartRecord.child 5 98, StartRecord.child 6 98] .empty = .ok () b ∧
      ∃ recovered, recoverFile (Process.plain 0) 2 Room.plain [b.flip.flush.1] = some (.ok recovered) ∧
        readRecords (Process.plain 0) [recovered.file] =
          some (.ok ([StartRecord.child 5 98, StartRecord.child 6 98].map StartRecord.record)) := by
  let _ := ByteOrder.littleEndian
  obtain ⟨b, hwrite, hread⟩ := recover_startRecords [StartRecord.child 5 98, StartRecord.child 6 98]
  obtain ⟨-, hagain⟩ := hread [b.flip.flush.1] List.flatten_singleton
  obtain ⟨recovered, hrecover, hrecovered⟩ := hagain 2 Room.plain
    [StartRecord.child 5 98, StartRecord.child 6 98] rfl ⟨by decide, by decide⟩ (fun r hr => nomatch hr)
    (by decide)
  exact ⟨b, hwrite, recovered, hrecover, hrecovered _ List.flatten_singleton⟩

/-- A kernel of another application may have the id of a parent. It cannot be carried, and there is
no new file. -/
theorem recover_foreign :
    letI := ByteOrder.littleEndian
    (recoverFile (Process.plain 0) 2 Room.plain
        [StartRecord.fileOf [StartRecord.child 5 97, StartRecord.stranger 7]]).map (Except.map Recovered.file) =
      some (.error (.error "no kernel type for sbn::foreign_kernel")) := by
  decide +kernel

/-- **Not every record survives**: one that does not fit in a frame is not in the file, though its
codec is lossless and no exception is thrown, and of two siblings one carries afterwards the parent as
the other knows it. -/
theorem not_recovered :
    letI := ByteOrder.littleEndian
    (∃ (k : Kernel Unit) (wire : List UInt8) (r : Received Unit) (b : ByteBuffer),
      Recordable (Process.plain 0) Memory.blank k wire r ∧
        writeRecord (Process.plain 0) Memory.blank .start 0 k .empty = .ok () b ∧
        readRecords (Process.plain 0) [b.flip.flush.1] = some (.ok [])) ∧
    ∃ recovered, recoverFile (Process.plain 0) 2 Room.plain
        [StartRecord.fileOf [StartRecord.child 5 97, StartRecord.child 6 98]] = some (.ok recovered) ∧
      readRecords (Process.plain 0) [recovered.file] ≠
        some (.ok ([StartRecord.child 5 97, StartRecord.child 6 98].map StartRecord.record)) := by
  let _ := ByteOrder.littleEndian
  constructor
  · obtain ⟨b, hwrite, -, -, hcontent⟩ := writes_record_huge Memory.blank ByteBuffer.empty le_rfl
    have hempty : b.flip.flush.1 = [] := b.window_flip.trans hcontent
    refine ⟨_, _, _, b, recordable_stranger Memory.blank 5 _, hwrite, ?_⟩
    rw [hempty]
    have hnone : [([] : List UInt8)].flatten = StartRecord.fileOf ([] : List (StartRecord (Process.plain 0))) := rfl
    exact StartRecord.readRecords_fileOf hnone
  · obtain ⟨recovered, hrecover, hread⟩ := readRecords_recover
      [StartRecord.child 5 97, StartRecord.child 6 98] [StartRecord.child 5 98, StartRecord.child 6 98] 2
      Room.plain rfl ⟨by decide, by decide⟩ (fun r hr => nomatch hr) (by decide) List.flatten_singleton
    refine ⟨recovered, hrecover, ?_⟩
    rw [hread _ List.flatten_singleton]
    decide

end Subordination.Core
