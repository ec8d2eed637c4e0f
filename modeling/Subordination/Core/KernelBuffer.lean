import Subordination.Core.Kernel
import Subordination.Library.Framing

/-!
# Kernel buffers

How kernels are laid down in a buffer and taken from it (`core/kernel_buffer.cc`,
`core/foreign_kernel.cc`, `core/kernel_type_registry.cc`), and the frames around them.

## The model

A `Process` is what a process knows when it encodes and decodes kernels: its
application id, the types its buffer knows, and the classes of its program. The
classes are not part of the repository: a `KernelClass` says what the class of a kernel
writes and reads after `kernel::write` and `kernel::read`. No code of the repository
makes a buffer carry all the parents of a kernel, so only the other branch is here.

The guards of a frame are functions around what is done inside it, with the work
of their destructors done on the state that the inside leaves, by an exception or
without one. `drainFrames` is the loop that both `connection::receive_kernels` and
`transaction_log::read_records` run over a buffer.

## What is proved

* `read_foreign`, `read_native`, `read_native_carried` — what a process makes of a
  kernel laid down by another.
* `read_cases`, `readParent_cases` — what has been decoded, whatever from.
* `writes_frame` — the write guard makes a frame of what is written inside it.
* `drainFrames_eq` — the loop handles the complete frames of the buffer in order,
  and leaves the rest.
-/

namespace Subordination.Core

open Library

/-! ### Kernel types -/

/-- `kernel_type`. Its constructor makes a kernel of the class with the given name. -/
structure KernelType where
  /-- `_id`, the same in every process. -/
  id : UInt16
  /-- `_index`: the name of the class. -/
  index : String
  deriving DecidableEq, Repr

/-- `kernel_type_registry`. -/
structure KernelTypeRegistry where
  /-- `_types`. -/
  types : List KernelType := []
  /-- `add` refuses an index that is there already. -/
  nodup_index : (types.map KernelType.index).Nodup := by decide
  /-- `add` refuses an id that is there already. -/
  nodup_id : (types.map KernelType.id).Nodup := by decide
  /-- `add` refuses a type without an id. -/
  has_id : ∀ t ∈ types, t.id ≠ 0 := by decide

namespace KernelTypeRegistry

/-- `find(id_type)`. -/
def findId (r : KernelTypeRegistry) (id : UInt16) : Option KernelType :=
  r.types.find? fun t => t.id == id

/-- `find(std::type_index)`. -/
def findIndex (r : KernelTypeRegistry) (index : String) : Option KernelType :=
  r.types.find? fun t => t.index == index

/-- An element is found by a key that no other element has. -/
theorem find?_key {α β : Type} [BEq β] [LawfulBEq β] {f : α → β} {l : List α} (hl : (l.map f).Nodup)
    {a : α} (ha : a ∈ l) : l.find? (fun b => f b == f a) = some a := by
  induction l with
  | nil => cases ha
  | cons b l ih =>
    rw [List.map_cons, List.nodup_cons] at hl
    rcases List.mem_cons.mp ha with rfl | ha
    · simp
    · have hne : f b ≠ f a := fun he => hl.1 (he ▸ List.mem_map_of_mem ha)
      rw [List.find?_cons_of_neg (by simpa using hne)]
      exact ih hl.2 ha

theorem findId_of_mem {r : KernelTypeRegistry} {t : KernelType} (ht : t ∈ r.types) :
    r.findId t.id = some t :=
  find?_key r.nodup_id ht

theorem findIndex_of_mem {r : KernelTypeRegistry} {t : KernelType} (ht : t ∈ r.types) :
    r.findIndex t.index = some t :=
  find?_key r.nodup_index ht

end KernelTypeRegistry

/-- A subclass of `kernel`. -/
structure KernelClass (P : Type) where
  /-- The state of a new kernel. -/
  initial : P
  /-- What `write` writes after `kernel::write`. -/
  write : P → PutM Unit
  /-- What `read` reads after `kernel::read`. -/
  read : ReadM P

/-- The class writes the state as the given bytes and reads it back from them. -/
structure KernelClass.RoundTrips {P : Type} (c : KernelClass P) (state : P) (bs : List UInt8) :
    Prop where
  /-- The bytes are written. -/
  writes : Writes (c.write state) bs
  /-- The state is read. -/
  reads : Reads c.read bs state

/-- What a process knows when it encodes and decodes kernels. -/
structure Process (P : Type) where
  /-- `this_application::id()`. -/
  thisApplication : UInt64
  /-- `kernel_buffer::types()`. -/
  types : Option KernelTypeRegistry
  /-- The subclasses of `kernel`, by name. -/
  classes : String → KernelClass P

/-- A decoded kernel, with the parent that came with it. -/
structure Received (P : Type) where
  /-- The kernel. Its parent pointer is set once the parent has an address. -/
  kernel : Kernel P
  /-- The parent it carries. -/
  carried : Option (Kernel P) := none
  deriving DecidableEq

variable {P : Type} [ByteOrder]

/-! ### Writing a kernel -/

/-- `k->write(out)`, as the class of the kernel does it. -/
def Kernel.write (proc : Process P) (mem : Memory P) (k : Kernel P) : PutM Unit :=
  match k.payload with
  | .native index state => do
    writeBytes (k.bytes mem)
    (proc.classes index).write state
  | .foreign payload => writeBytes (u16Bytes k.typeId ++ (k.bytes mem ++ payload))

/-- `typeid(*k).name()`. -/
def Kernel.typeName (k : Kernel P) : String :=
  match k.payload with
  | .native index _ => index
  | .foreign _ => "sbn::foreign_kernel"

namespace Process

/-- `write_native`. -/
def writeNative (proc : Process P) (mem : Memory P) (k : Kernel P) : PutM Unit :=
  match proc.types with
  | none => throw (.error "no kernel types")
  | some types =>
    match types.findIndex k.typeName with
    | none => throw (.error ("no kernel type for " ++ k.typeName))
    | some type => do
      writeBytes (u16Bytes type.id)
      k.write proc mem

/-- The parent that `kernel_buffer::write` embeds after a native kernel. -/
def writeParent (proc : Process P) (mem : Memory P) (k : Kernel P) : PutM Unit :=
  if k.carriesParent then
    if k.parent = 0 then throw (.invalidArgument "parent is null")
    else proc.writeNative mem (mem k.parent)
  else pure ()

/-- `kernel_buffer::write(const kernel*)`. -/
def write (proc : Process P) (mem : Memory P) (k : Kernel P) : PutM Unit := do
  writeBytes (k.toHeader.bytes k.nodeFilter.isSome)
  if k.isNative then do
    proc.writeNative mem k
    proc.writeParent mem k
  else k.write proc mem

/-! ### Reading a kernel -/

/-- `make_native`, up to the construction of the kernel. -/
def makeNative (proc : Process P) : ReadM KernelType := do
  let id ← readU16
  match proc.types with
  | none => throw (.error "no kernel types")
  | some types =>
    match types.findId id with
    | none => throw (.error ("no kernel type for " ++ toString id.toNat))
    | some type => pure type

/-- The kernel that the constructor of a type makes, with its type id set. -/
def construct (proc : Process P) (type : KernelType) : Kernel P :=
  { Kernel.fresh proc.thisApplication (.native type.index (proc.classes type.index).initial) with
    typeId := type.id }

/-- `k->read(in)` of a kernel of the given type. -/
def readKernel (proc : Process P) (type : KernelType) (k : Kernel P) (hasFilter : Bool) :
    ReadM (Kernel P) := do
  let k ← k.read hasFilter
  let state ← (proc.classes type.index).read
  pure { k with payload := .native type.index state }

/-- `read_native`: a kernel without a header, hence without a node filter bit. -/
def readNative (proc : Process P) : ReadM (Kernel P) := do
  let type ← proc.makeNative
  proc.readKernel type (proc.construct type) false

/-- All there is up to the limit, with its size kept in 32 bits. -/
def readPayload : ReadM (List UInt8) := fun w => readBytes (w.length % 2 ^ 32) w

/-- `foreign_kernel::read`. -/
def readForeign (k : Kernel P) (hasFilter : Bool) : ReadM (Kernel P) := do
  let typeId ← readU16
  let k ← Kernel.read { k with typeId } hasFilter
  let payload ← readPayload
  pure { k with payload := .foreign payload }

/-- The parent that `kernel_buffer::read` takes from after a native kernel. -/
def readParent (proc : Process P) (k : Kernel P) : ReadM (Received P) :=
  if k.carriesParent then do
    let parent ← proc.readNative
    pure { kernel := { k with flags := k.flags.unsetf .parentIsId }, carried := some parent }
  else pure { kernel := k }

/-- `kernel_buffer::read(kernel_ptr&)` once the header is there: a kernel for another
application stays foreign. -/
def readBody (proc : Process P) (header : Header) (hasFilter : Bool) : ReadM (Received P) :=
  if header.targetApplication.toId ≠ proc.thisApplication then do
    let k ← readForeign ((Kernel.fresh proc.thisApplication (.foreign [])).swapHeader header) hasFilter
    pure { kernel := k }
  else do
    let type ← proc.makeNative
    let k ← proc.readKernel type ((proc.construct type).swapHeader header) hasFilter
    proc.readParent k

/-- `kernel_buffer::read(kernel_ptr&)`. -/
def read (proc : Process P) : ReadM (Received P) := do
  let (header, hasFilter) ← Header.read
  proc.readBody header hasFilter

end Process

/-! ### What is laid down, and what is made of it -/

/-- A kernel as `kernel_buffer::write` lays it down: its header, the id of its type, its
own fields, and what its class writes. -/
def Kernel.packet (mem : Memory P) (k : Kernel P) (typeId : UInt16) (rest : List UInt8) : List UInt8 :=
  k.toHeader.bytes k.nodeFilter.isSome ++ (u16Bytes typeId ++ (k.bytes mem ++ rest))

/-- The kernel as a daemon on its way holds it. -/
def Kernel.asForeign (mem : Memory P) (k : Kernel P) (typeId : UInt16) (payload : List UInt8) : Kernel P :=
  Kernel.copyOf mem { k.sent with typeId, payload := .foreign payload } k

/-- The kernel as its target application holds it, before its parent pointer is set. -/
def Kernel.asNative (proc : Process P) (mem : Memory P) (k : Kernel P) (type : KernelType) (state : P) :
    Kernel P :=
  { Kernel.copyOf mem ((proc.construct type).swapHeader k.sent) k with
    payload := .native type.index state }

namespace Process

variable {proc : Process P} {mem : Memory P} {k : Kernel P}

theorem writes_write_native {index : String} {state : P} {bs : List UInt8}
    (hk : k.payload = .native index state) (hw : Writes ((proc.classes index).write state) bs) :
    Writes (k.write proc mem) (k.bytes mem ++ bs) := by
  rw [Kernel.write, hk]
  exact (writes_bytes (k.bytes mem)).seq hw

theorem writes_native {types : KernelTypeRegistry} {type : KernelType} {state : P} {bs : List UInt8}
    (htypes : proc.types = some types) (htype : type ∈ types.types)
    (hk : k.payload = .native type.index state)
    (hw : Writes ((proc.classes type.index).write state) bs) :
    Writes (proc.writeNative mem k) (u16Bytes type.id ++ (k.bytes mem ++ bs)) := by
  have hname : k.typeName = type.index := by rw [Kernel.typeName, hk]
  rw [writeNative, htypes]
  simp only [hname, KernelTypeRegistry.findIndex_of_mem htype]
  exact (writes_bytes (u16Bytes type.id)).seq (writes_write_native hk hw)

/-- A foreign kernel is laid down with its type id and its payload as they are. -/
theorem writes_foreign {bs : List UInt8} (hk : k.payload = .foreign bs) :
    Writes (proc.write mem k) (k.packet mem k.typeId bs) := by
  refine (writes_bytes (k.toHeader.bytes k.nodeFilter.isSome)).seq ?_
  rw [Kernel.isNative_of_foreign hk, if_neg Bool.false_ne_true, Kernel.write, hk]
  exact writes_bytes _

/-- A native kernel is laid down with the id of its type, the state of its class, and the
parent it carries. -/
theorem writes_packet {types : KernelTypeRegistry} {type : KernelType} {state : P}
    {bs parent : List UInt8} (htypes : proc.types = some types) (htype : type ∈ types.types)
    (hk : k.payload = .native type.index state)
    (hw : Writes ((proc.classes type.index).write state) bs) (hp : Writes (proc.writeParent mem k) parent) :
    Writes (proc.write mem k) (k.packet mem type.id (bs ++ parent)) := by
  have hself : Writes (proc.writeNative mem k) _ := writes_native htypes htype hk hw
  have hboth := hself.seq (n := fun _ => proc.writeParent mem k) hp
  simp only [List.append_assoc] at hboth
  refine (writes_bytes (k.toHeader.bytes k.nodeFilter.isSome)).seq ?_
  rw [if_pos (Kernel.isNative_of_native hk)]
  exact hboth

theorem writes_no_parent (h : k.carriesParent = false) : Writes (proc.writeParent mem k) [] := by
  rw [writeParent, if_neg (by rw [h]; exact Bool.false_ne_true)]
  exact writes_pure

theorem writes_parent (hcarries : k.carriesParent = true) (hparent : k.parent ≠ 0) {bs : List UInt8}
    (hw : Writes (proc.writeNative mem (mem k.parent)) bs) : Writes (proc.writeParent mem k) bs := by
  rw [writeParent, if_pos hcarries, if_neg hparent]
  exact hw

theorem reads_makeNative {types : KernelTypeRegistry} {type : KernelType}
    (htypes : proc.types = some types) (htype : type ∈ types.types) :
    Reads proc.makeNative (u16Bytes type.id) type := by
  refine (reads_u16 type.id).bindPure ?_
  simp only [htypes, KernelTypeRegistry.findId_of_mem htype]

theorem reads_kernel {type : KernelType} {k₀ : Kernel P} (h₀ : k₀.nodeFilter = none)
    (hk : k.Encodable) (mem : Memory P) {state : P} {bs : List UInt8}
    (hr : Reads (proc.classes type.index).read bs state) :
    Reads (proc.readKernel type k₀ k.nodeFilter.isSome) (k.bytes mem ++ bs)
      { Kernel.copyOf mem k₀ k with payload := .native type.index state } :=
  (Kernel.reads hk h₀ mem).bind (hr.bindPure rfl)

omit [ByteOrder] in
theorem readsAll_payload {bs : List UInt8} (h : bs.length < 2 ^ 32) : ReadsAll readPayload bs bs := by
  rw [ReadsAll, readPayload, Nat.mod_eq_of_lt h]
  exact (reads_bytes bs).readsAll

theorem readsAll_foreign (hk : k.Encodable) (mem : Memory P) {k₀ : Kernel P} (h₀ : k₀.nodeFilter = none)
    {typeId : UInt16} {rest : List UInt8} (hrest : rest.length < 2 ^ 32) :
    ReadsAll (readForeign k₀ k.nodeFilter.isSome) (u16Bytes typeId ++ (k.bytes mem ++ rest))
      { Kernel.copyOf mem { k₀ with typeId } k with payload := .foreign rest } := by
  have h₀' : Kernel.nodeFilter { k₀ with typeId } = none := h₀
  exact (reads_u16 typeId).bindAll ((Kernel.reads hk h₀' mem).bindAll ((readsAll_payload hrest).bindPure rfl))

/-- **A process that is not the target** keeps the kernel as it came. -/
theorem read_foreign {typeId : UInt16} {rest : List UInt8} (hk : k.Encodable)
    (htarget : k.targetApplicationId ≠ proc.thisApplication) (hrest : rest.length < 2 ^ 32) :
    ReadsAll proc.read (k.packet mem typeId rest)
      { kernel := k.asForeign mem typeId rest } := by
  have htarget' : k.sent.targetApplication.toId ≠ proc.thisApplication := by
    rwa [Kernel.targetApplicationId_sent]
  refine (Header.reads hk.sourceApplication hk.targetApplication _).bindAll ?_
  simp only [readBody, if_pos htarget']
  exact (readsAll_foreign hk mem rfl hrest).bindPure rfl

/-- The target gets the kernel back, and goes on to its parent. -/
theorem read_target {types : KernelTypeRegistry} {type : KernelType} {state : P}
    {bs rest : List UInt8} {r : Received P} (hk : k.Encodable)
    (htarget : k.targetApplicationId = proc.thisApplication) (htypes : proc.types = some types)
    (htype : type ∈ types.types) (hr : Reads (proc.classes type.index).read bs state)
    (hrest : ReadsAll (proc.readParent (k.asNative proc mem type state)) rest r) :
    ReadsAll proc.read (k.packet mem type.id (bs ++ rest)) r := by
  have htarget' : ¬ k.sent.targetApplication.toId ≠ proc.thisApplication := by
    rwa [Kernel.targetApplicationId_sent, not_not]
  have hself : Reads (proc.readKernel type ((proc.construct type).swapHeader k.sent)
      k.nodeFilter.isSome) (k.bytes mem ++ bs) (k.asNative proc mem type state) :=
    reads_kernel rfl hk mem hr
  refine (Header.reads hk.sourceApplication hk.targetApplication _).bindAll ?_
  simp only [readBody, if_neg htarget', ← List.append_assoc (k.bytes mem)]
  exact (reads_makeNative htypes htype).bindAll (hself.bindAll hrest)

omit [ByteOrder] in
theorem carriesParent_asNative (type : KernelType) (state : P) :
    (k.asNative proc mem type state).carriesParent = k.carriesParent := by
  simp [Kernel.asNative, Kernel.copyOf, Kernel.carriesParent, Kernel.isset]

/-- **The target** gets a kernel back that does not carry its parent. -/
theorem read_native {types : KernelTypeRegistry} {type : KernelType} {state : P}
    {bs : List UInt8} (hk : k.Encodable) (htarget : k.targetApplicationId = proc.thisApplication)
    (htypes : proc.types = some types) (htype : type ∈ types.types)
    (hr : Reads (proc.classes type.index).read bs state) (hcarries : k.carriesParent = false) :
    ReadsAll proc.read (k.packet mem type.id bs) { kernel := k.asNative proc mem type state } := by
  have hrest : ReadsAll (proc.readParent (k.asNative proc mem type state)) []
      { kernel := k.asNative proc mem type state } := by
    rw [readParent, carriesParent_asNative, hcarries]
    exact (Reads.pure _).readsAll
  have hread := read_target hk htarget htypes htype hr hrest
  rwa [List.append_nil] at hread

/-- The kernel with its own parent, as the target holds it: the parent came without a
header. -/
def asCarrier (proc : Process P) (mem : Memory P) (k : Kernel P) (type type' : KernelType)
    (state state' : P) : Received P where
  kernel :=
    let k' := k.asNative proc mem type state
    { k' with flags := k'.flags.unsetf .parentIsId }
  carried := some
    { Kernel.copyOf mem (proc.construct type') (mem k.parent) with payload := .native type'.index state' }

/-- **The target** gets a kernel back with the parent it carries, if the parent has no
node filter. -/
theorem read_native_carried {types : KernelTypeRegistry} {type type' : KernelType}
    {state state' : P} {bs bs' : List UInt8} (hk : k.Encodable)
    (htarget : k.targetApplicationId = proc.thisApplication) (htypes : proc.types = some types)
    (htype : type ∈ types.types) (hr : Reads (proc.classes type.index).read bs state)
    (hcarries : k.carriesParent = true) (hp : (mem k.parent).Encodable)
    (hfilter : (mem k.parent).nodeFilter = none) (htype' : type' ∈ types.types)
    (hr' : Reads (proc.classes type'.index).read bs' state') :
    ReadsAll proc.read
      (k.packet mem type.id (bs ++ (u16Bytes type'.id ++ ((mem k.parent).bytes mem ++ bs'))))
      (asCarrier proc mem k type type' state state') := by
  refine read_target hk htarget htypes htype hr ?_
  have hnone : (proc.construct type').nodeFilter = none := rfl
  have hparent := reads_kernel hnone hp mem hr'
  rw [show (mem k.parent).nodeFilter.isSome = false by rw [hfilter]; rfl] at hparent
  have hself : Reads proc.readNative _ _ := (reads_makeNative htypes htype').bind hparent
  rw [readParent, carriesParent_asNative, if_pos hcarries]
  exact hself.readsAll.bindPure rfl

theorem makeNative_ok {typeId : UInt16} {w w' : List UInt8} {type : KernelType}
    (h : proc.makeNative (u16Bytes typeId ++ w) = .ok type w') : w' = w := by
  rw [makeNative, (reads_u16 typeId).bind_apply] at h
  cases htypes : proc.types with
  | none =>
    simp only [htypes] at h
    cases h
  | some types =>
    simp only [htypes] at h
    cases hfind : types.findId typeId with
    | none =>
      simp only [hfind] at h
      cases h
    | some t =>
      simp only [hfind] at h
      cases h
      rfl

/-- A native kernel that has been decoded: `kernel::read`, and the state that the class reads. -/
theorem readKernel_cases {type : KernelType} {k₀ : Kernel P} {hasFilter : Bool} {w w' : List UInt8}
    (h : proc.readKernel type k₀ hasFilter w = .ok k w') : ∃ k₁ w₁ state,
      k₀.read hasFilter w = .ok k₁ w₁ ∧ k = { k₁ with payload := .native type.index state } := by
  obtain ⟨k₁, w₁, hself, h⟩ := bind_ok h
  obtain ⟨state, w₂, -, h⟩ := bind_ok h
  cases h
  exact ⟨k₁, w₁, state, hself, rfl⟩

/-- The kernel is alone, or a parent has been decoded after it. -/
theorem readParent_cases {w w' : List UInt8} {r : Received P} (h : proc.readParent k w = .ok r w') :
    (k.carriesParent = false ∧ r = { kernel := k }) ∨ ∃ type parent w₁,
      proc.readKernel type (proc.construct type) false w₁ = .ok parent w' ∧
      r = { kernel := { k with flags := k.flags.unsetf .parentIsId }, carried := some parent } := by
  rw [readParent] at h
  split_ifs at h with hcarries
  · obtain ⟨parent, w₁, hparent, h⟩ := bind_ok h
    obtain ⟨type, w₂, -, hparent⟩ := bind_ok hparent
    cases h
    exact Or.inr ⟨type, parent, w₂, hparent, rfl⟩
  · cases h
    exact Or.inl ⟨Bool.eq_false_iff.mpr hcarries, rfl⟩

/-- **What has been decoded**, whatever from: a kernel for another application, as it came, or a native one, and
its parent if it carries one. -/
theorem read_cases {w w' : List UInt8} {r : Received P} (h : proc.read w = .ok r w') :
    (∃ (k₀ : Kernel P) (hasFilter : Bool) (k₁ : Kernel P) (w₁ w₂ payload : List UInt8),
      k₀.read hasFilter w₁ = .ok k₁ w₂ ∧ r = { kernel := { k₁ with payload := .foreign payload } }) ∨
    ∃ type k₀ hasFilter k₁ w₁ w₂, proc.readKernel type k₀ hasFilter w₁ = .ok k₁ w₂ ∧
      proc.readParent k₁ w₂ = .ok r w' := by
  obtain ⟨⟨header, hasFilter⟩, w₁, -, h⟩ := bind_ok h
  change proc.readBody header hasFilter w₁ = _ at h
  rw [readBody] at h
  split_ifs at h
  · obtain ⟨k₁, w₂, hforeign, h⟩ := bind_ok h
    obtain ⟨typeId, w₃, -, hforeign⟩ := bind_ok hforeign
    obtain ⟨k₂, w₄, hself, hforeign⟩ := bind_ok hforeign
    obtain ⟨payload, w₅, -, hforeign⟩ := bind_ok hforeign
    cases hforeign
    cases h
    exact Or.inl ⟨_, hasFilter, k₂, w₃, w₄, payload, hself, rfl⟩
  · obtain ⟨type, w₂, -, h⟩ := bind_ok h
    obtain ⟨k₁, w₃, hkernel, h⟩ := bind_ok h
    exact Or.inr ⟨type, _, hasFilter, k₁, w₂, w₃, hkernel, h⟩

theorem readParent_ok {w w' : List UInt8} {r : Received P} (h : proc.readParent k w = .ok r w') :
    r.kernel.id = k.id ∧ r.kernel.toHeader = k.toHeader := by
  obtain ⟨-, rfl⟩ | ⟨type, parent, w₁, -, rfl⟩ := readParent_cases h
  · exact ⟨rfl, rfl⟩
  · exact ⟨rfl, rfl⟩

/-- **Whoever decodes a kernel**, if it decodes at all, gets its id and its header. -/
theorem read_ok (hs : k.sourceApplication.Fits) (ht : k.targetApplication.Fits) {typeId : UInt16}
    {rest w : List UInt8} {r : Received P} (h : proc.read (k.packet mem typeId rest) = .ok r w) :
    r.kernel.id = k.id ∧ r.kernel.toHeader = k.sent := by
  rw [Kernel.packet, read, (Header.reads hs ht _).bind_apply] at h
  change proc.readBody k.sent k.nodeFilter.isSome _ = _ at h
  by_cases htarget : k.sent.targetApplication.toId ≠ proc.thisApplication
  · rw [readBody, if_pos htarget] at h
    obtain ⟨k', w₁, hforeign, h⟩ := bind_ok h
    cases h
    rw [readForeign, (reads_u16 typeId).bind_apply] at hforeign
    obtain ⟨k'', w₂, hself, h⟩ := bind_ok hforeign
    obtain ⟨payload, w₃, -, h⟩ := bind_ok h
    cases h
    exact Kernel.read_ok hself
  · rw [readBody, if_neg htarget] at h
    obtain ⟨type, w₁, hmake, h⟩ := bind_ok h
    cases makeNative_ok hmake
    obtain ⟨k', w₂, hkernel, h⟩ := bind_ok h
    obtain ⟨k'', w₃, state, hself, rfl⟩ := readKernel_cases hkernel
    obtain ⟨hid, hheader⟩ := readParent_ok h
    obtain ⟨hid', hheader'⟩ := Kernel.read_ok hself
    exact ⟨hid.trans hid', hheader.trans hheader'⟩

end Process

/-! ### Frames -/

/-- `kernel_frame`: the size of a frame, header included, as it is in memory. -/
def kernelFraming : Framing UInt8 where
  width := 4
  width_pos := by decide
  header := ByteOrder.host.encode 4
  size := ByteOrder.host.decode
  length_header := ByteOrder.host.length_encode 4
  bound := 2 ^ 32
  size_header := fun _ h => ByteOrder.host.decode_encode_of_lt h

/-- What `~kernel_write_guard` does to the buffer, given the position at which the
guard was made: the header is put in front of what was written, if anything was. -/
def closeFrame (old : ℕ) (b : ByteBuffer) : ByteBuffer :=
  let size := (b.position + 2 ^ 64 - old) % 2 ^ 32
  if 4 < size then
    { { b with position := old }.put (kernelFraming.header size) with position := b.position }
  else { b with position := old }

/-- Write under a `kernel_write_guard`. -/
def writeFrame (body : PutM Unit) : PutM Unit := fun b =>
  match body (b.bump 4) with
  | .ok a b' => .ok a (closeFrame b.position b')
  | .error e b' => .error e (closeFrame b.position b')

theorem content_closeFrame {b : ByteBuffer} {before junk bs : List UInt8} (hjunk : junk.length = 4)
    (hb : b.content = before ++ (junk ++ bs)) (hv : b.position ≤ b.data.length) (hbs : bs ≠ [])
    (hfits : kernelFraming.Fits bs) :
    (closeFrame before.length b).content = before ++ kernelFraming.frame bs ∧
      (closeFrame before.length b).position = b.position ∧
      b.position ≤ (closeFrame before.length b).data.length := by
  have hpos : b.position = before.length + (4 + bs.length) := by
    rw [← ByteBuffer.length_content hv, hb, List.length_append, List.length_append, hjunk]
  have hne : 0 < bs.length := List.length_pos_iff.mpr hbs
  have hbound : 4 + bs.length < 2 ^ 32 := hfits
  have hsize : (b.position + 2 ^ 64 - before.length) % 2 ^ 32 = 4 + bs.length := by
    rw [hpos, show before.length + (4 + bs.length) + 2 ^ 64 - before.length =
      4 + bs.length + 2 ^ 32 * 2 ^ 32 by omega, Nat.add_mul_mod_self_left, Nat.mod_eq_of_lt hbound]
  obtain ⟨tail, hdata⟩ : ∃ tail, b.data = before ++ (junk ++ (bs ++ tail)) := by
    refine ⟨b.data.drop b.position, ?_⟩
    have := List.take_append_drop b.position b.data
    rw [← ByteBuffer.content, hb] at this
    simpa using this.symm
  have hhead : (kernelFraming.header (4 + bs.length)).length = 4 := kernelFraming.length_header _
  have hdrop : b.data.drop (before.length + 4) = bs ++ tail := by
    rw [hdata, ← List.append_assoc before, List.drop_left' (by rw [List.length_append, hjunk])]
  have hput : (ByteBuffer.put { b with position := before.length }
      (kernelFraming.header (4 + bs.length))).data =
      before ++ kernelFraming.frame bs ++ tail := by
    simp only [ByteBuffer.put, hhead, hdrop, Framing.frame]
    rw [hdata, List.take_left]
    simp [kernelFraming]
  have hlen : (before ++ kernelFraming.frame bs).length = b.position := by
    rw [List.length_append, Framing.length_frame, hpos]
    rfl
  simp only [closeFrame, hsize, if_pos (show 4 < 4 + bs.length by omega), ByteBuffer.content, hput]
  refine ⟨List.take_left' hlen, trivial, ?_⟩
  rw [List.length_append, hlen]
  omega

/-- **The write guard makes a frame** of what is written inside it. -/
theorem writes_frame {body : PutM Unit} {bs : List UInt8} (h : Writes body bs) (hbs : bs ≠ [])
    (hfits : kernelFraming.Fits bs) : Writes (writeFrame body) (kernelFraming.frame bs) := by
  intro b hb
  obtain ⟨junk, hjunk, hbump⟩ := b.content_bump hb 4
  obtain ⟨b', e, hp, hv, hc⟩ := h (b.bump 4) (b.position_le_bump 4)
  have hc' : b'.content = b.content ++ (junk ++ bs) := by rw [hc, hbump, List.append_assoc]
  obtain ⟨h1, h2, h3⟩ := content_closeFrame hjunk hc' hv hbs hfits
  rw [b.length_content hb] at h1 h2 h3
  refine ⟨closeFrame b.position b', ?_, ?_, h2 ▸ h3, h1⟩
  · rw [writeFrame, e]
  · rw [h2, hp, Framing.length_frame]
    exact Nat.add_assoc _ _ _

/-- A frame whose length is not much more than a multiple of what fits in its header is
taken back. -/
theorem writes_frame_wrapped {body : PutM Unit} {bs : List UInt8} (h : Writes body bs)
    (hwraps : (4 + bs.length) % 2 ^ 32 ≤ 4) : Writes (writeFrame body) [] := by
  intro b hb
  obtain ⟨junk, hjunk, hbump⟩ := b.content_bump hb 4
  obtain ⟨b', e, hp, hv, hc⟩ := h (b.bump 4) (b.position_le_bump 4)
  have hpos : b'.position = b.position + (4 + bs.length) := by rw [hp]; exact Nat.add_assoc _ _ _
  have hsize : (b'.position + 2 ^ 64 - b.position) % 2 ^ 32 = (4 + bs.length) % 2 ^ 32 := by
    rw [hpos, show b.position + (4 + bs.length) + 2 ^ 64 - b.position =
      4 + bs.length + 2 ^ 32 * 2 ^ 32 by omega, Nat.add_mul_mod_self_left]
  refine ⟨{ b' with position := b.position }, ?_, rfl, ?_, ?_⟩
  · rw [writeFrame, e]
    simp only [closeFrame, hsize, if_neg (Nat.not_lt.mpr hwraps)]
  · exact Nat.le_trans (Nat.le_add_right _ _) (hpos ▸ hv)
  · rw [hbump, List.append_assoc] at hc
    have hcut := congrArg (List.take b.position) hc
    rw [ByteBuffer.content, List.take_take, min_eq_left (hpos ▸ Nat.le_add_right _ _),
      List.take_left' (b.length_content hb)] at hcut
    rw [List.append_nil]
    exact hcut

/-- What can be read from the buffer: a limit before the position is no limit, because
`remaining()` wraps. -/
def ByteBuffer.readable (b : ByteBuffer) : List UInt8 :=
  if b.position ≤ b.limit then b.window else b.data.drop b.position

/-- The constructor of `kernel_read_guard`: the buffer limited to its front frame, with
the header read, when the frame is all there. -/
def openFrame (b : ByteBuffer) : Option ByteBuffer :=
  if b.remaining < 4 then none
  else
    let size := kernelFraming.size ((b.data.drop b.position).take 4)
    if size ≤ b.remaining then some { b with position := b.position + 4, limit := b.position + size }
    else none

/-- The destructor of `kernel_read_guard`: the buffer after the frame, with the limit
as it was. -/
def skipFrame (b opened : ByteBuffer) : ByteBuffer :=
  { opened with position := opened.limit, limit := b.limit }

section Drain

variable {σ : Type} (handle : List UInt8 → EStateM Exception σ Unit)

/-- Handle the frames of the buffer one after another, until what remains is not a
whole frame or an exception leaves the loop. The result is `none` when the fuel
does not suffice. -/
def drainFrames : ℕ → ByteBuffer → σ → Option (EStateM.Result Exception σ ByteBuffer)
  | 0, _, _ => none
  | fuel + 1, b, s =>
    if b.remaining < 4 then some (.ok b s)
    else
      match openFrame b with
      | none => some (.ok b s)
      | some opened =>
        match handle opened.readable s with
        | .ok _ s => drainFrames fuel (skipFrame b opened) s
        | .error e s => some (.error e s)

variable {handle}

theorem openFrame_of_partial {b : ByteBuffer} (hv : b.Valid) (h : kernelFraming.Partial b.window) :
    b.remaining < 4 ∨ openFrame b = none := by
  rcases Nat.lt_or_ge b.remaining 4 with hlt | hge
  · exact Or.inl hlt
  · right
    rw [hv.remaining_eq] at hge
    have hsize : b.window.length < kernelFraming.size (b.window.take 4) :=
      h.resolve_left (Nat.not_lt.mpr hge)
    rw [openFrame, if_neg (by rw [hv.remaining_eq]; exact Nat.not_lt.mpr hge), hv.take_drop_data hge,
      hv.remaining_eq, if_neg (Nat.not_le.mpr hsize)]

/-- The front frame of the buffer, opened and skipped. -/
theorem openFrame_of_not_stuck {b : ByteBuffer} (hv : b.Valid) (h : ¬ kernelFraming.Stuck b.window) :
    ∃ opened, openFrame b = some opened ∧
      opened.readable = (b.window.take (kernelFraming.size (b.window.take kernelFraming.width))).drop
        kernelFraming.width ∧
      (skipFrame b opened).Valid ∧ (skipFrame b opened).window =
        b.window.drop (kernelFraming.size (b.window.take kernelFraming.width)) := by
  simp only [Framing.Stuck, not_or, Nat.not_lt] at h
  rw [show kernelFraming.width = 4 from rfl] at h ⊢
  have h4 : 4 ≤ b.window.length := h.1
  have hmin : 4 ≤ kernelFraming.size (b.window.take 4) := h.2.1
  have hmax : kernelFraming.size (b.window.take 4) ≤ b.window.length := h.2.2
  have hopen := hv.take_drop_data h4
  have hsize : kernelFraming.size ((b.data.drop b.position).take 4) =
      kernelFraming.size (b.window.take 4) := by rw [hv.take_drop_data h4]
  generalize kernelFraming.size (b.window.take 4) = n at hmin hmax hsize ⊢
  have hlen := hv.length_window
  have hpos := hv.position_le
  refine ⟨{ b with position := b.position + 4, limit := b.position + n }, ?_, ?_,
    ⟨(by simp only [skipFrame]; omega), hv.limit_le⟩, ?_⟩
  · rw [openFrame, if_neg (by rw [hv.remaining_eq]; omega)]
    simp only [hsize, hv.remaining_eq, if_pos hmax]
  · rw [ByteBuffer.readable, if_pos (Nat.add_le_add_left hmin _)]
    simp only [ByteBuffer.window, List.drop_take, List.drop_drop, List.take_take]
    congr 1
    omega
  · simp only [skipFrame, ByteBuffer.window, List.drop_drop]

omit [ByteOrder] in
theorem forM_cons_ok {x : List UInt8} {xs : List (List UInt8)} {s s' : σ}
    (h : (x :: xs).forM handle s = .ok () s') :
    ∃ s₁, handle x s = .ok () s₁ ∧ xs.forM handle s₁ = .ok () s' := by
  change EStateM.bind (handle x) (fun _ => xs.forM handle) s = _ at h
  rw [EStateM.bind] at h
  split at h
  · exact ⟨_, ‹_›, h⟩
  · cases h

/-- **The loop handles the complete frames of the buffer**, in order, and leaves the
rest: a part of a frame, which stays for the next call. -/
theorem drainFrames_eq {b : ByteBuffer} (hv : b.Valid)
    (hpart : kernelFraming.Partial (kernelFraming.split b.window).2) {s s' : σ}
    (hs : (kernelFraming.split b.window).1.forM handle s = .ok () s') {fuel : ℕ}
    (hfuel : b.window.length < fuel) :
    ∃ b', drainFrames handle fuel b s = some (.ok b' s') ∧ b'.Valid ∧
      b'.window = (kernelFraming.split b.window).2 := by
  induction fuel generalizing b s with
  | zero => omega
  | succ fuel ih =>
    by_cases hst : kernelFraming.Stuck b.window
    · rw [kernelFraming.split_of_stuck hst] at hpart hs ⊢
      cases hs
      refine ⟨b, ?_, hv, rfl⟩
      rcases openFrame_of_partial hv hpart with hr | ho
      · rw [drainFrames, if_pos hr]
      · rw [drainFrames, ho]
        exact ite_self _
    · obtain ⟨opened, ho, hread, hv', hw'⟩ := openFrame_of_not_stuck hv hst
      have hlt := kernelFraming.length_drop_lt hst
      rw [kernelFraming.split_of_not_stuck hst] at hpart hs ⊢
      obtain ⟨s₁, h₁, h₂⟩ := forM_cons_ok hs
      have hwin : (skipFrame b opened).window.length < fuel := by
        rw [hw']
        exact Nat.lt_of_lt_of_le hlt (Nat.le_of_lt_succ hfuel)
      rw [← hw'] at hpart h₂ ⊢
      obtain ⟨b', e, hb', hw⟩ := ih hv' hpart h₂ hwin
      refine ⟨b', ?_, hb', hw⟩
      have hrem : ¬ b.remaining < 4 := by
        rw [hv.remaining_eq]
        exact fun hlt => hst (Or.inl hlt)
      rw [drainFrames, if_neg hrem, ho]
      simp only [hread, h₁, e]

omit [ByteOrder] in
theorem forM_cons_error {x : List UInt8} {xs : List (List UInt8)} {s s' : σ} {e : Exception}
    (h : (x :: xs).forM handle s = .error e s') :
    handle x s = .error e s' ∨ ∃ s₁, handle x s = .ok () s₁ ∧ xs.forM handle s₁ = .error e s' := by
  change EStateM.bind (handle x) (fun _ => xs.forM handle) s = _ at h
  rw [EStateM.bind] at h
  split at h
  · exact Or.inr ⟨_, ‹_›, h⟩
  · rename_i e₁ s₁ he
    cases h
    exact Or.inl he

/-- **An exception in a frame leaves the loop.** -/
theorem drainFrames_error {b : ByteBuffer} (hv : b.Valid) {s s' : σ} {e : Exception}
    (hs : (kernelFraming.split b.window).1.forM handle s = .error e s') {fuel : ℕ}
    (hfuel : b.window.length < fuel) : drainFrames handle fuel b s = some (.error e s') := by
  induction fuel generalizing b s with
  | zero => omega
  | succ fuel ih =>
    have hst : ¬ kernelFraming.Stuck b.window := by
      intro hst
      rw [kernelFraming.split_of_stuck hst] at hs
      cases hs
    obtain ⟨opened, ho, hread, hv', hw'⟩ := openFrame_of_not_stuck hv hst
    have hlt := kernelFraming.length_drop_lt hst
    have hrem : ¬ b.remaining < 4 := by
      rw [hv.remaining_eq]
      exact fun hlt => hst (Or.inl hlt)
    rw [kernelFraming.split_of_not_stuck hst] at hs
    rw [drainFrames, if_neg hrem, ho]
    rcases forM_cons_error hs with h | ⟨s₁, h₁, h₂⟩
    · simp only [hread, h]
    · rw [← hw'] at hlt h₂
      simp only [hread, h₁]
      exact ih hv' h₂ (Nat.lt_of_lt_of_le hlt (Nat.le_of_lt_succ hfuel))

omit [ByteOrder] in
theorem forM_append_ok {xs ys : List (List UInt8)} {s s' : σ}
    (h : (xs ++ ys).forM handle s = .ok () s') :
    ∃ s₁, xs.forM handle s = .ok () s₁ ∧ ys.forM handle s₁ = .ok () s' := by
  induction xs generalizing s with
  | nil => exact ⟨s, rfl, h⟩
  | cons x xs ih =>
    obtain ⟨s₁, h₁, h₂⟩ := forM_cons_ok h
    obtain ⟨s₂, h₃, h₄⟩ := ih h₂
    refine ⟨s₂, ?_, h₄⟩
    change EStateM.bind (handle x) (fun _ => xs.forM handle) s = _
    rw [EStateM.bind, h₁]
    exact h₃

omit [ByteOrder] in
theorem forM_append_error {xs ys : List (List UInt8)} {s s' : σ} {e : Exception}
    (h : (xs ++ ys).forM handle s = .error e s') :
    xs.forM handle s = .error e s' ∨ ∃ s₁, xs.forM handle s = .ok () s₁ ∧ ys.forM handle s₁ = .error e s' := by
  induction xs generalizing s with
  | nil => exact Or.inr ⟨s, rfl, h⟩
  | cons x xs ih =>
    have hcons : ∀ {s₁ : σ}, handle x s = .ok () s₁ → (x :: xs).forM handle s = xs.forM handle s₁ := by
      intro s₁ h₁
      change EStateM.bind (handle x) (fun _ => xs.forM handle) s = _
      rw [EStateM.bind, h₁]
    rcases forM_cons_error h with hx | ⟨s₁, h₁, h₂⟩
    · left
      change EStateM.bind (handle x) (fun _ => xs.forM handle) s = _
      rw [EStateM.bind, hx]
    · rw [hcons h₁]
      exact ih h₂

variable (handle)

/-- One arrival: `fill`, `flip`, the loop, and `compact` unless an exception left the
loop. A frame that announces no bytes keeps the loop going forever; any other advances
it, so that the fuel suffices. -/
def receiveChunk (b : ByteBuffer) (chunk : List UInt8) (s : σ) :
    Option (EStateM.Result Exception σ ByteBuffer) :=
  let b := (b.fill chunk).flip
  (drainFrames handle (b.window.length + 1) b s).map fun r =>
    match r with
    | .ok b s => .ok b.compact s
    | .error e s => .error e s

/-- One arrival after another. -/
def receiveChunks : ByteBuffer → List (List UInt8) → σ → Option (EStateM.Result Exception σ ByteBuffer)
  | b, [], s => some (.ok b s)
  | b, chunk :: chunks, s =>
    match receiveChunk handle b chunk s with
    | some (.ok b s) => receiveChunks b chunks s
    | r => r

variable {handle}

theorem receiveChunk_eq {b : ByteBuffer} (hb : b.position ≤ b.data.length) {chunk : List UInt8}
    (hpart : kernelFraming.Partial (kernelFraming.split (b.content ++ chunk)).2) {s s' : σ}
    (hs : (kernelFraming.split (b.content ++ chunk)).1.forM handle s = .ok () s') :
    ∃ b', receiveChunk handle b chunk s = some (.ok b' s') ∧ b'.position ≤ b'.data.length ∧
      b'.content = (kernelFraming.split (b.content ++ chunk)).2 := by
  have hv : (b.fill chunk).flip.Valid := ByteBuffer.valid_flip (b.position_le_put hb chunk)
  rw [← ByteBuffer.window_flip_fill hb chunk] at hpart hs ⊢
  obtain ⟨b', e, -, hw'⟩ := drainFrames_eq hv hpart hs (Nat.lt_succ_self _)
  refine ⟨b'.compact, ?_, b'.position_le_compact, b'.content_compact.trans hw'⟩
  simp only [receiveChunk, e, Option.map_some]

/-- **However the stream is cut**, its frames are handled once each and in order. -/
theorem receiveChunks_eq {b : ByteBuffer} (hb : b.position ≤ b.data.length)
    (hpart : kernelFraming.Partial b.content) {bodies : List (List UInt8)}
    (hfits : ∀ body ∈ bodies, kernelFraming.Fits body) {chunks : List (List UInt8)}
    (h : b.content ++ chunks.flatten = (bodies.map kernelFraming.frame).flatten) {s s' : σ}
    (hs : bodies.forM handle s = .ok () s') :
    ∃ b', receiveChunks handle b chunks s = some (.ok b' s') ∧ b'.content = [] := by
  induction chunks generalizing b bodies s with
  | nil =>
    rw [List.flatten_nil, List.append_nil] at h
    obtain ⟨rfl, hnil⟩ := kernelFraming.eq_nil_of_partial hfits h hpart
    cases hs
    exact ⟨b, rfl, hnil⟩
  | cons chunk chunks ih =>
    rw [List.flatten_cons, ← List.append_assoc] at h
    obtain ⟨later, rfl, hrest, hpart'⟩ := kernelFraming.split_prefix hfits h
    obtain ⟨s₁, h₁, h₂⟩ := forM_append_ok hs
    obtain ⟨b₁, e₁, hb₁, hc₁⟩ := receiveChunk_eq hb hpart' h₁
    rw [← hc₁] at hpart' hrest
    obtain ⟨b', e, hnil⟩ := ih hb₁ hpart' (fun body hm => hfits body (List.mem_append_right _ hm)) hrest h₂
    refine ⟨b', ?_, hnil⟩
    rw [receiveChunks, e₁]
    exact e

theorem receiveChunk_error {b : ByteBuffer} (hb : b.position ≤ b.data.length) {chunk : List UInt8}
    {s s' : σ} {e : Exception}
    (hs : (kernelFraming.split (b.content ++ chunk)).1.forM handle s = .error e s') :
    receiveChunk handle b chunk s = some (.error e s') := by
  have hv : (b.fill chunk).flip.Valid := ByteBuffer.valid_flip (b.position_le_put hb chunk)
  rw [← ByteBuffer.window_flip_fill hb chunk] at hs
  simp only [receiveChunk, drainFrames_error hv hs (Nat.lt_succ_self _), Option.map_some]

/-- **However the stream is cut**, an exception that is not caught ends it. -/
theorem receiveChunks_error {b : ByteBuffer} (hb : b.position ≤ b.data.length)
    (hpart : kernelFraming.Partial b.content) {bodies : List (List UInt8)}
    (hfits : ∀ body ∈ bodies, kernelFraming.Fits body) {chunks : List (List UInt8)}
    (h : b.content ++ chunks.flatten = (bodies.map kernelFraming.frame).flatten) {s s' : σ}
    {e : Exception} (hs : bodies.forM handle s = .error e s') :
    receiveChunks handle b chunks s = some (.error e s') := by
  induction chunks generalizing b bodies s with
  | nil =>
    rw [List.flatten_nil, List.append_nil] at h
    obtain ⟨rfl, -⟩ := kernelFraming.eq_nil_of_partial hfits h hpart
    cases hs
  | cons chunk chunks ih =>
    rw [List.flatten_cons, ← List.append_assoc] at h
    obtain ⟨later, rfl, hrest, hpart'⟩ := kernelFraming.split_prefix hfits h
    rw [receiveChunks]
    rcases forM_append_error hs with h₁ | ⟨s₁, h₁, h₂⟩
    · rw [receiveChunk_error hb h₁]
    · obtain ⟨b₁, e₁, hb₁, hc₁⟩ := receiveChunk_eq hb hpart' h₁
      rw [← hc₁] at hpart' hrest
      rw [e₁]
      exact ih hb₁ hpart' (fun body hm => hfits body (List.mem_append_right _ hm)) hrest h₂

end Drain

end Subordination.Core
