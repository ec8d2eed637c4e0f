import Subordination.Core.TransactionLog

/-!
# Connections

One end of a connection between two processes (`core/connection.hh`, `core/connection.cc`):
it sends kernels and keeps those whose results it waits for, receives kernels and finds the
parents of the results, and gives the kernels it keeps back when the connection fails.

## The model

An `Endpoint` is a connection together with what it works on: the memory of its process, the
transaction log, and the kernels it has handed to the pipelines. `plugged` is there for the proofs
alone: it says which kept kernel was taken for the one that a result belongs to.

The log owns the kernel that it is given. When it throws, the kernel is gone, and `save_kernel` puts
a null pointer in the queue. Null pointers are counted: where they stand among the kernels is left
out, and so is the search that dereferences one.

What a `delete` does is left out: nothing that the code does afterwards depends on it. The
same holds for the calls of `Expects`, which are there in debug builds only; where a null
pointer gets past one of them the model has no result.

`receive_kernel` and `receive_foreign_kernel` are virtual. A `Receiver` is what a subclass makes
of them, over a state of its own, and `Endpoint.receiver` is what `connection` makes of them.
-/

namespace Subordination.Core

open Library

/-- `connection_flags`. -/
structure ConnectionFlags where
  /-- `save_upstream_kernels`. -/
  saveUpstreamKernels : Bool := false
  /-- `save_downstream_kernels`. -/
  saveDownstreamKernels : Bool := false
  /-- `write_transaction_log`. -/
  writeTransactionLog : Bool := false
  deriving DecidableEq, Repr

/-- `connection`, but for its input buffer. -/
structure Connection (P : Type) where
  /-- `_flags`. -/
  flags : ConnectionFlags := {}
  /-- `_counter`: the last id that has been given. -/
  counter : UInt64 := 1
  /-- `_upstream`. -/
  upstream : List (Kernel P) := []
  /-- `_downstream`. -/
  downstream : List (Kernel P) := []
  /-- How many null pointers are in `_upstream`. -/
  upstreamNulls : ℕ := 0
  /-- How many null pointers are in `_downstream`. -/
  downstreamNulls : ℕ := 0
  /-- `_output_buffer`. -/
  outputBuffer : ByteBuffer := .empty
  /-- `_socket_address`. -/
  socketAddress : SocketAddress := .unset
  /-- `_load`. -/
  load : WeightArray := {}

/-- `basic_socket_pipeline`, as far as a connection looks at its parent. -/
structure BasicSocketPipeline where
  /-- `stopping()`. -/
  stopping : Bool := false
  /-- `stopped()`. -/
  stopped : Bool := false
  /-- `native_pipeline()` is set. -/
  nativePipeline : Bool := true
  /-- `remote_pipeline()` is set. -/
  remotePipeline : Bool := true
  /-- `foreign_pipeline()` is set. -/
  foreignPipeline : Bool := true
  /-- `transactions()` is set. -/
  transactions : Bool := false
  /-- `index()`. -/
  index : UInt32 := 0
  /-- `instances()`: the kernels that can be found by their ids. -/
  instances : Option (UInt64 → Option UInt64) := none

/-- A kernel in the hands of a pipeline. -/
inductive HandOff (P : Type) where
  /-- `native_pipeline()->send`. -/
  | sendNative (k : Kernel P)
  /-- `remote_pipeline()->send`. -/
  | sendRemote (k : Kernel P)
  /-- `remote_pipeline()->forward`. -/
  | forwardRemote (k : Kernel P)
  /-- `foreign_pipeline()->forward`. -/
  | forwardForeign (k : Kernel P)
  /-- `trash`. -/
  | trash (k : Kernel P)
  deriving DecidableEq

namespace BasicSocketPipeline

variable {P : Type}

/-- `send_native`. -/
def sendNative (ppl : BasicSocketPipeline) (k : Kernel P) : List (HandOff P) :=
  if ppl.nativePipeline then [.sendNative k] else []

/-- `send_remote`. -/
def sendRemote (ppl : BasicSocketPipeline) (k : Kernel P) : List (HandOff P) :=
  if ppl.remotePipeline then [.sendRemote k] else []

/-- `forward_remote`. -/
def forwardRemote (ppl : BasicSocketPipeline) (k : Kernel P) : List (HandOff P) :=
  if ppl.remotePipeline then [.forwardRemote k] else []

/-- `forward_foreign`. -/
def forwardForeign (ppl : BasicSocketPipeline) (k : Kernel P) : List (HandOff P) :=
  if ppl.foreignPipeline then [.forwardForeign k] else []

end BasicSocketPipeline

/-- A connection, and what it works on. -/
structure Endpoint (P : Type) where
  /-- The connection. -/
  connection : Connection P
  /-- The memory of its process. -/
  memory : Memory P
  /-- The kernels in the hands of the pipelines, oldest first. -/
  handedOff : List (HandOff P) := []
  /-- The transaction log. -/
  log : TransactionLog := {}
  /-- The kept kernels whose results have come, each with its result, oldest first. -/
  plugged : List (Kernel P × Kernel P) := []

/-! ### Finding a kernel in a queue -/

section Find

variable {P : Type}

/-- The kernel `b` is the one that has come back as the kernel `a`. -/
def Kernel.isResultOf (a b : Kernel P) : Bool :=
  a.id == b.id && a.oldId == b.oldId && a.sourceApplicationId == b.targetApplicationId &&
    a.isNative == b.isNative

/-- The result `k` of the kernel `orig`, once it has got the parent of that. -/
def Kernel.plugged (k orig : Kernel P) : Kernel P :=
  let k := k.setParent orig.parent
  let k := k.setPrincipal k.parent
  { k with id := orig.id }

@[simp] theorem Kernel.parent_plugged (k orig : Kernel P) : (k.plugged orig).parent = orig.parent :=
  (Kernel.parent_setPrincipal _ (k.setParent orig.parent).parent).trans
    (Kernel.parent_setParent k orig.parent)

@[simp] theorem Kernel.principal_plugged (k orig : Kernel P) :
    (k.plugged orig).principal = orig.parent :=
  (Kernel.principal_setPrincipal _ (k.setParent orig.parent).parent).trans
    (Kernel.parent_setParent k orig.parent)

/-- `find_kernel`. -/
def findKernel (a : Kernel P) (queue : List (Kernel P)) : Option (Kernel P) :=
  queue.find? a.isResultOf

/-- The queue without the kernel that `find_kernel` finds. -/
def eraseKernel (a : Kernel P) (queue : List (Kernel P)) : List (Kernel P) :=
  queue.eraseP a.isResultOf

theorem Kernel.isResultOf_iff {a b : Kernel P} : a.isResultOf b = true ↔
    a.id = b.id ∧ a.oldId = b.oldId ∧ a.sourceApplicationId = b.targetApplicationId ∧
      a.isNative = b.isNative := by
  simp only [isResultOf, Bool.and_eq_true, beq_iff_eq, and_assoc]

theorem findKernel_eq_some {a q : Kernel P} {queue : List (Kernel P)} (h : findKernel a queue = some q) :
    q ∈ queue ∧ a.isResultOf q = true :=
  ⟨List.mem_of_find?_eq_some h, List.find?_some h⟩

/-- A kernel that is not found leaves the queue as it is. -/
theorem eraseKernel_of_none {a : Kernel P} {queue : List (Kernel P)} (h : findKernel a queue = none) :
    eraseKernel a queue = queue := by
  rw [eraseKernel, List.eraseP_of_forall_not]
  intro q hq
  exact List.find?_eq_none.mp h q hq

/-- A kernel that is found is the only one that is taken out. -/
theorem eraseKernel_of_some {a q : Kernel P} {queue : List (Kernel P)} (h : findKernel a queue = some q) :
    ∃ before after, queue = before ++ q :: after ∧ eraseKernel a queue = before ++ after := by
  obtain ⟨hq, before, after, rfl, hbefore⟩ := List.find?_eq_some_iff_append.mp h
  refine ⟨before, after, rfl, ?_⟩
  rw [eraseKernel, List.eraseP_append_right _ (by simpa using hbefore), List.eraseP_cons_of_pos hq]

end Find

namespace Endpoint

variable {P : Type}

/-! ### Sending -/

/-- `generate_new_id`. -/
def generateNewId (e : Endpoint P) (k : Kernel P) : Endpoint P × Kernel P :=
  let counter := e.connection.counter + 1
  ({ e with connection.counter := counter }, { k with id := counter })

/-- `ensure_has_id`, of the kernel at the given address. -/
def ensureHasId (e : Endpoint P) (p : UInt64) : Endpoint P :=
  if (e.memory p).hasId then e
  else
    let counter := e.connection.counter + 1
    { e with
      connection.counter := counter
      memory := Function.update e.memory p { e.memory p with id := counter } }

/-- `write_kernel`: what is written when an exception is thrown stays written. -/
def writeKernel [ByteOrder] (proc : Process P) (e : Endpoint P) (k : Kernel P) : Endpoint P :=
  match writeFrame (proc.write e.memory k) e.connection.outputBuffer with
  | .error _ b => { e with connection.outputBuffer := b }
  | .ok _ b =>
    { e with
      connection.outputBuffer := b
      connection.load :=
        if k.phase = .upstream then e.connection.load.add k.weights else e.connection.load }

/-- The queues of a connection. -/
inductive Queue where
  /-- `_upstream`. -/
  | upstream
  /-- `_downstream`. -/
  | downstream
  deriving DecidableEq, Repr

/-- What `save_kernel` does with a kernel: the queue it goes to, and the status with which it
is to be recorded. -/
def plan (e : Endpoint P) (k : Kernel P) : Option Queue × Option TransactionStatus :=
  if k.phase = .upstream ∨ k.phase = .pointToPoint then
    if e.connection.flags.saveUpstreamKernels then
      (some .upstream, if k.carriesParent || k.isset .transactional then some .start else none)
    else (none, none)
  else if k.phase = .downstream then
    if e.connection.flags.saveDownstreamKernels && k.carriesParent then
      (some .downstream, some .end')
    else (none, none)
  else if k.phase = .broadcast then
    if k.principalId e.memory ≠ 0 then (some .upstream, none) else (none, none)
  else (none, none)

/-- `write_transaction`, if the log is there and the connection is to use it: there is no kernel any
more if the log has thrown. -/
def record [ByteOrder] (proc : Process P) (ppl : BasicSocketPipeline) (e : Endpoint P) (k : Kernel P) :
    Option TransactionStatus → Endpoint P × Option (Kernel P)
  | none => (e, some k)
  | some status =>
    if e.connection.flags.writeTransactionLog && ppl.transactions then
      match TransactionLog.write proc e.memory status ppl.index k e.log with
      | .ok _ log => ({ e with log }, some k)
      | .error _ log => ({ e with log }, none)
    else (e, some k)

/-- Put a kernel, or a null pointer, at the end of a queue, if it is to be kept. What is returned is
the kernel otherwise. -/
def keep (e : Endpoint P) : Option (Kernel P) → Option Queue → Endpoint P × Option (Kernel P)
  | k, none => (e, k)
  | some k, some .upstream => ({ e with connection.upstream := e.connection.upstream ++ [k] }, none)
  | some k, some .downstream => ({ e with connection.downstream := e.connection.downstream ++ [k] }, none)
  | none, some .upstream => ({ e with connection.upstreamNulls := e.connection.upstreamNulls + 1 }, none)
  | none, some .downstream => ({ e with connection.downstreamNulls := e.connection.downstreamNulls + 1 }, none)

@[simp] theorem log_keep (e : Endpoint P) (k : Option (Kernel P)) (queue : Option Queue) :
    (e.keep k queue).1.log = e.log := by
  rcases k with _ | k <;> rcases queue with _ | _ | _ <;> rfl

@[simp] theorem flags_keep (e : Endpoint P) (k : Option (Kernel P)) (queue : Option Queue) :
    (e.keep k queue).1.connection.flags = e.connection.flags := by
  rcases k with _ | k <;> rcases queue with _ | _ | _ <;> rfl

@[simp] theorem memory_keep (e : Endpoint P) (k : Option (Kernel P)) (queue : Option Queue) :
    (e.keep k queue).1.memory = e.memory := by
  rcases k with _ | k <;> rcases queue with _ | _ | _ <;> rfl

@[simp] theorem counter_keep (e : Endpoint P) (k : Option (Kernel P)) (queue : Option Queue) :
    (e.keep k queue).1.connection.counter = e.connection.counter := by
  rcases k with _ | k <;> rcases queue with _ | _ | _ <;> rfl

/-- `save_kernel`. -/
def saveKernel [ByteOrder] (proc : Process P) (ppl : BasicSocketPipeline) (e : Endpoint P) (k : Kernel P) :
    Endpoint P × Option (Kernel P) :=
  let (recorded, k') := e.record proc ppl k (e.plan k).2
  recorded.keep k' (e.plan k).1

/-- What `send` does first: the kernels that are going to come back get an id, and so do their
parents. -/
def prepare (e : Endpoint P) (k : Kernel P) : Option (Endpoint P × Kernel P) :=
  if k.phase = .upstream ∨ k.phase = .pointToPoint then
    if k.parent = 0 then none else some ((e.ensureHasId k.parent).generateNewId k)
  else some (e, k)

/-- `send`. -/
def send [ByteOrder] (proc : Process P) (ppl : BasicSocketPipeline) (e : Endpoint P) (k : Kernel P) :
    Option (Endpoint P × Option (Kernel P)) :=
  match e.prepare k with
  | none => none
  | some (e, k) => some ((e.writeKernel proc k).saveKernel proc ppl k)

/-- `do_forward`. -/
def doForward [ByteOrder] (proc : Process P) (ppl : BasicSocketPipeline) (e : Endpoint P) (k : Kernel P) :
    Endpoint P × Option (Kernel P) :=
  (e.writeKernel proc k).saveKernel proc ppl k

/-- Writing a kernel changes nothing but the output buffer and the load. -/
theorem writeKernel_eq [ByteOrder] (proc : Process P) (e : Endpoint P) (k : Kernel P) :
    ∃ b load, e.writeKernel proc k =
      { e with connection.outputBuffer := b, connection.load := load } := by
  rw [writeKernel]
  split
  · exact ⟨_, e.connection.load, rfl⟩
  · exact ⟨_, _, rfl⟩

/-- A record of a kernel that does not carry its parent is not written. -/
theorem record_of_not_carries [ByteOrder] (proc : Process P) (ppl : BasicSocketPipeline) (e : Endpoint P)
    {k : Kernel P} (h : k.carriesParent = false) (status : Option TransactionStatus) :
    e.record proc ppl k status = (e, some k) := by
  cases status with
  | none => rfl
  | some status =>
    rw [record]
    split
    · rw [TransactionLog.write, h]
      rfl
    · rfl

/-- The kernel is there after it has been recorded, or it has been lost: it carried its parent, and was to
be kept. -/
inductive Outcome (e : Endpoint P) (k : Kernel P) : Option (Kernel P) → Prop
  /-- It is there. -/
  | kept : Outcome e k (some k)
  /-- The log has thrown. -/
  | lost (status : TransactionStatus) : k.carriesParent = true → (e.plan k).2 = some status → Outcome e k none

/-- Writing a record changes nothing but the log. -/
theorem record_eq [ByteOrder] (proc : Process P) (ppl : BasicSocketPipeline) (e : Endpoint P) (k : Kernel P)
    (status : Option TransactionStatus) : ∃ log, (e.record proc ppl k status).1 = { e with log } := by
  cases status with
  | none => exact ⟨e.log, rfl⟩
  | some status =>
    rw [record]
    split
    · split
      · exact ⟨_, rfl⟩
      · exact ⟨_, rfl⟩
    · exact ⟨e.log, rfl⟩

/-- A kernel is lost only if it is to be recorded. -/
theorem outcome_record [ByteOrder] (proc : Process P) (ppl : BasicSocketPipeline) (e : Endpoint P) (k : Kernel P) :
    Outcome e k (e.record proc ppl k (e.plan k).2).2 := by
  cases hcarries : k.carriesParent with
  | false =>
    rw [record_of_not_carries proc ppl e hcarries]
    exact .kept
  | true =>
    cases hstatus : (e.plan k).2 with
    | none => exact .kept
    | some status =>
      rw [record]
      split
      · split
        · exact .kept
        · exact .lost status hcarries hstatus
      · exact .kept

/-- A kernel that is saved is put in the queue that is planned for it, or a null pointer is. -/
theorem saveKernel_eq [ByteOrder] (proc : Process P) (ppl : BasicSocketPipeline) (e : Endpoint P)
    (k : Kernel P) : ∃ log k', Outcome e k k' ∧
      e.saveKernel proc ppl k = ({ e with log } : Endpoint P).keep k' (e.plan k).1 := by
  obtain ⟨log, h⟩ := e.record_eq proc ppl k (e.plan k).2
  refine ⟨log, _, e.outcome_record proc ppl k, ?_⟩
  rw [saveKernel, ← h]

/-- A kernel that is forwarded is written, and put in the queue that is planned for it, or a null pointer is. -/
theorem doForward_eq [ByteOrder] (proc : Process P) (ppl : BasicSocketPipeline) (e : Endpoint P)
    (k : Kernel P) : ∃ b load log k', Outcome e k k' ∧ e.doForward proc ppl k =
      ({ e with connection.outputBuffer := b, connection.load := load, log } : Endpoint P).keep k'
        (e.plan k).1 := by
  obtain ⟨b, load, hwrite⟩ := e.writeKernel_eq proc k
  obtain ⟨log, k', houtcome, hsave⟩ := saveKernel_eq proc ppl
    ({ e with connection.outputBuffer := b, connection.load := load } : Endpoint P) k
  refine ⟨b, load, log, k', ?_, ?_⟩
  · cases houtcome with
    | kept => exact .kept
    | lost status hcarries hstatus => exact .lost status hcarries hstatus
  · rw [doForward, hwrite, hsave]
    rfl

/-- A kernel that does not carry its parent is not lost. -/
theorem Outcome.eq_some {e : Endpoint P} {k : Kernel P} {k' : Option (Kernel P)} (h : Outcome e k k')
    (hcarries : k.carriesParent = false) : k' = some k := by
  cases h with
  | kept => rfl
  | lost status hcarried => exact absurd hcarried (by rw [hcarries]; decide)

/-- A kernel in the broadcast phase is kept if it has a principal, and is not recorded. -/
theorem plan_of_broadcast {e : Endpoint P} {k : Kernel P} (h : k.phase = .broadcast) :
    e.plan k = (if k.principalId e.memory = 0 then none else some .upstream, none) := by
  have hreturns : ¬(k.phase = .upstream ∨ k.phase = .pointToPoint) := by
    rw [h]
    decide
  have hdown : k.phase ≠ .downstream := by
    rw [h]
    decide
  rw [plan, if_neg hreturns, if_neg hdown, if_pos h]
  split_ifs <;> simp_all

/-- In the broadcast phase `send` does nothing that `do_forward` does not. -/
theorem send_of_broadcast [ByteOrder] (proc : Process P) (ppl : BasicSocketPipeline) (e : Endpoint P) {k : Kernel P}
    (h : k.phase = .broadcast) : e.send proc ppl k = some (e.doForward proc ppl k) := by
  have hreturns : ¬(k.phase = .upstream ∨ k.phase = .pointToPoint) := by
    rw [h]
    decide
  rw [send, prepare, if_neg hreturns, doForward]

/-! ### Receiving -/

/-- Kernels in the hands of the pipelines. -/
def handOff (e : Endpoint P) (hs : List (HandOff P)) : Endpoint P :=
  { e with handedOff := e.handedOff ++ hs }

/-- The parent that has come with a kernel is put where there is room for it. -/
def place (e : Endpoint P) (address : UInt64) (r : Received P) : Endpoint P × Kernel P :=
  match r.carried with
  | none => (e, r.kernel)
  | some parent =>
    ({ e with memory := Function.update e.memory address parent },
      { r.kernel with parentWord := address })

/-- `plug_parent`. -/
def plugParent (e : Endpoint P) (k : Kernel P) : Except Exception (Endpoint P × Kernel P) :=
  if !k.hasId then .error (.invalidArgument "downstream kernel without an id")
  else
    match findKernel k e.connection.upstream with
    | none =>
      if k.carriesParent then
        .ok ({ e with connection.downstream := eraseKernel k e.connection.downstream },
          k.setPrincipal k.parent)
      else if k.typeId ≠ 1 then .error (.invalidArgument "parent not found")
      else .ok (e, k)
    | some orig =>
      .ok ({ e with
        connection.upstream := eraseKernel k e.connection.upstream
        plugged := e.plugged ++ [(orig, k.plugged orig)] }, k.plugged orig)

/-- `receive_kernel`. A principal that is not among the instances is read from behind the last
of them; the model throws there. -/
def receiveKernel (ppl : BasicSocketPipeline) (address : UInt64) (r : Received P) :
    EStateM Exception (Endpoint P) Unit := fun e =>
  let (e, k) := e.place address r
  if k.phase = .downstream then
    match e.plugParent k with
    | .error x => .error x e
    | .ok (e, k) => .ok () (e.handOff (ppl.sendNative k))
  else
    match ppl.instances with
    | none => .ok () (e.handOff (ppl.sendNative k))
    | some instances =>
      if k.principalId e.memory = 0 then .ok () (e.handOff (ppl.sendNative k))
      else
        match instances (k.principalId e.memory) with
        | none => .error (.foreign "no principal found") e
        | some principal => .ok () (e.handOff (ppl.sendNative (k.setPrincipal principal)))

/-- `receive_foreign_kernel`. -/
def receiveForeignKernel [ByteOrder] (proc : Process P) (ppl : BasicSocketPipeline) (r : Received P) :
    EStateM Exception (Endpoint P) Unit := fun e =>
  let k := r.kernel
  let e :=
    if k.phase = .downstream then
      { e with connection.upstream := eraseKernel k e.connection.upstream }
    else e
  if k.phase = .downstream ∧ !k.destination.isSet then .ok () (e.writeKernel proc k)
  else .ok () (e.handOff (ppl.forwardForeign k))

/-- Nothing but the memory and the parent pointer changes when a parent is put in its place. -/
theorem place_eq (e : Endpoint P) (address : UInt64) (r : Received P) : ∃ memory word,
    e.place address r = ({ e with memory }, { r.kernel with parentWord := word }) := by
  rw [place]
  cases r.carried with
  | none => exact ⟨e.memory, r.kernel.parentWord, rfl⟩
  | some parent => exact ⟨_, address, rfl⟩

/-- **What `plug_parent` accepts**: the result of a kernel in the queue, which is taken out, or else
a kernel that carries its parent or is of type 1. -/
theorem plugParent_ok {e e' : Endpoint P} {k k' : Kernel P} (h : e.plugParent k = .ok (e', k')) :
    (∃ q, findKernel k e.connection.upstream = some q ∧ k' = k.plugged q ∧
      e' = { e with
        connection.upstream := eraseKernel k e.connection.upstream
        plugged := e.plugged ++ [(q, k')] }) ∨
    (findKernel k e.connection.upstream = none ∧ (k.carriesParent = true ∨ k.typeId = 1) ∧
      ∃ downstream, e' = { e with connection.downstream := downstream }) := by
  rw [plugParent] at h
  split at h
  · cases h
  · cases hfind : findKernel k e.connection.upstream with
    | some q =>
      left
      simp only [hfind] at h
      cases h
      exact ⟨q, rfl, rfl, rfl⟩
    | none =>
      right
      simp only [hfind] at h
      by_cases hcarries : k.carriesParent
      · rw [if_pos hcarries] at h
        cases h
        exact ⟨rfl, Or.inl hcarries, _, rfl⟩
      · rw [if_neg hcarries] at h
        split at h
        · cases h
        · rename_i htype
          cases h
          exact ⟨rfl, Or.inr (not_not.mp htype), e.connection.downstream, rfl⟩

end Endpoint

/-- What a subclass of `connection` makes of the kernels it receives. -/
structure Receiver (σ P : Type) where
  /-- `_load -= weights`. -/
  unload : WeightArray → σ → σ
  /-- `receive_kernel`. -/
  receiveKernel : Received P → EStateM Exception σ Unit
  /-- `receive_foreign_kernel`. -/
  receiveForeignKernel : Received P → EStateM Exception σ Unit

/-- What `connection` itself makes of them. -/
def Endpoint.receiver {P : Type} [ByteOrder] (proc : Process P) (ppl : BasicSocketPipeline)
    (address : UInt64) : Receiver (Endpoint P) P where
  unload w e := { e with connection.load := e.connection.load.sub w }
  receiveKernel := receiveKernel ppl address
  receiveForeignKernel := receiveForeignKernel proc ppl

namespace Receiver

variable {σ P : Type}

/-- What `receive_kernels` does with a kernel it has read. An exception is caught. -/
def receive (rcv : Receiver σ P) (r : Received P) (s : σ) : σ :=
  let s := if r.kernel.phase = .downstream then rcv.unload r.kernel.weights s else s
  match (if r.kernel.isNative then rcv.receiveKernel r else rcv.receiveForeignKernel r) s with
  | .ok _ s => s
  | .error _ s => s

/-- `read_kernel`, once the kernel is there: it comes from the other end of the connection. -/
def comesFrom (address : SocketAddress) (r : Received P) : Received P :=
  if address.isSet then { r with kernel.source := address } else r

/-- The state of a receiver, and the kernels that it has been given, oldest first. -/
structure Receiving (σ P : Type) where
  /-- The state. -/
  state : σ
  /-- The kernels. -/
  given : List (Received P) := []

/-- A foreign kernel on its way back takes the kernel it is the result of out of the queue, and goes
on. -/
theorem receive_foreign [ByteOrder] (proc : Process P) (ppl : BasicSocketPipeline) (address : UInt64)
    {r : Received P} (hphase : r.kernel.phase = .downstream) (hforeign : r.kernel.isNative = false)
    (e : Endpoint P) : ∃ b load handedOff, (Endpoint.receiver proc ppl address).receive r e =
      { e with
        connection.upstream := eraseKernel r.kernel e.connection.upstream
        connection.outputBuffer := b
        connection.load := load
        handedOff } := by
  simp only [receive, Endpoint.receiver, if_pos hphase, hforeign, Bool.false_eq_true, if_false,
    Endpoint.receiveForeignKernel]
  by_cases hback : r.kernel.phase = .downstream ∧ (!r.kernel.destination.isSet) = true
  · rw [if_pos hback]
    obtain ⟨b, load, hwrite⟩ := Endpoint.writeKernel_eq proc
      ({ e with
        connection.load := e.connection.load.sub r.kernel.weights
        connection.upstream := eraseKernel r.kernel e.connection.upstream } : Endpoint P) r.kernel
    simp only [hwrite]
    exact ⟨b, load, e.handedOff, rfl⟩
  · rw [if_neg hback]
    exact ⟨e.connection.outputBuffer, e.connection.load.sub r.kernel.weights, _, rfl⟩

variable [ByteOrder]

/-- What `receive_kernels` does with a frame. An exception is caught. -/
def receiveFrame (rcv : Receiver σ P) (proc : Process P) (address : SocketAddress) (body : List UInt8) :
    EStateM Exception (Receiving σ P) Unit := fun s =>
  match proc.read body with
  | .error _ _ => .ok () s
  | .ok r _ =>
    let r := comesFrom address r
    .ok () { state := rcv.receive r s.state, given := s.given ++ [r] }

/-- `handle`, once for every piece in which the stream arrives: `fill`, and
`receive_kernels`. -/
def receiveKernels (rcv : Receiver σ P) (proc : Process P) (address : SocketAddress) (b : ByteBuffer)
    (chunks : List (List UInt8)) (s : Receiving σ P) :
    Option (EStateM.Result Exception (Receiving σ P) ByteBuffer) :=
  receiveChunks (rcv.receiveFrame proc address) b chunks s

end Receiver

end Subordination.Core
