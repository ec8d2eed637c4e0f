import Subordination.Daemon.SocketPipeline

/-!
# Broadcasts

What the loops over the clients do with a kernel in the broadcast phase: that of `process_kernel`, and that of
`forward` (`daemon/socket_pipeline.cc`, `core/connection.cc`).

## The model

`SocketPipeline.broadcast` says which clients are called. Here the clients are called indeed, one after another, each
with its own connection, and the pointer is what the one before has left in it. `routed()` is only set for upstream
kernels, so what a client does in `forward` is `do_forward`.

## What is proved

* `SocketPipeline.spreads_iff` — what the loops come to.
* `SocketPipeline.spreads_iff_broadcast` — it is what `SocketPipeline.broadcast` says.
* `SocketPipeline.broadcasts_iff` — when the kernel gets to all clients.
* `SocketPipeline.kept_by_the_first` — two clients, of which the first one keeps the kernel.
-/

namespace Subordination.Daemon

open Subordination.Core Subordination.Library

section Broadcasts

variable {P : Type}

/-- A client and its key. -/
abbrev ClientEntry (P : Type) := Sigma fun _ : SocketAddress => SocketPipelineClient P

/-- The kernel comes from the client. -/
def ClientEntry.isSourceOf (c : ClientEntry P) (k : Kernel P) : Bool := k.source = c.2.connection.socketAddress

/-- The client with the given connection. -/
def ClientEntry.reconnected (c : ClientEntry P) (connection : Connection P) : ClientEntry P :=
  ⟨c.1, { c.2 with connection }⟩

/-- What a client does when it is called: the endpoint afterwards, and what is left in the pointer. The result is
`none` if a null pointer is looked at. -/
abbrev ClientCall (P : Type) := Endpoint P → Kernel P → Option (Endpoint P × Option (Kernel P))

namespace SocketPipeline

/-- The loop over the clients, with what is in the pointer `k`. -/
def broadcastClients (call : ClientCall P) :
    Option (Kernel P) → List (ClientEntry P) → Endpoint P → Except PipelineError (Endpoint P × List (ClientEntry P))
  | _, [], e => .ok (e, [])
  | none, _ :: _, _ => .error (.trap .nullPointer)
  | some k, c :: rest, e =>
    if c.isSourceOf k then Prod.map id (c :: ·) <$> broadcastClients call (some k) rest e
    else
      match call { e with connection := c.2.connection } k with
      | none => .error (.trap .nullPointer)
      | some (e, left) => Prod.map id (c.reconnected e.connection :: ·) <$> broadcastClients call left rest e

variable [ByteOrder] (proc : Process P) (ppl : BasicSocketPipeline)

/-- `process_kernel`, in the broadcast phase. -/
def processBroadcast (p : SocketPipeline P) (k : Kernel P) (e : Endpoint P) :
    Except PipelineError (Endpoint P × List (ClientEntry P)) :=
  broadcastClients (Endpoint.send proc ppl) (some k) p.clients.entries e

/-- `forward`, in the broadcast phase. -/
def forwardBroadcast (p : SocketPipeline P) (k : Kernel P) (e : Endpoint P) :
    Except PipelineError (Endpoint P × List (ClientEntry P)) :=
  broadcastClients (fun e k => some (e.doForward proc ppl k)) (some k) p.clients.entries e

end SocketPipeline

/-! ### What is to come of it -/

/-- The client once `write_kernel` has been called with the kernel, once, and the kernel has been saved if it has a
principal. -/
def ClientEntry.told [ByteOrder] (proc : Process P) (memory : Memory P) (k : Kernel P) (c : ClientEntry P) :
    ClientEntry P :=
  c.reconnected
    { (Endpoint.writeKernel proc { connection := c.2.connection, memory } k).connection with
      upstream := c.2.connection.upstream ++ if k.principalId memory = 0 then [] else [k] }

/-- **The kernel gets to all clients** but the one that it comes from, and to each once. -/
def Spreads [ByteOrder] (proc : Process P) (e : Endpoint P) (k : Kernel P) (clients : List (ClientEntry P))
    (outcome : Except PipelineError (Endpoint P × List (ClientEntry P))) : Prop :=
  ∃ e', outcome = .ok (e', clients.map fun c => if c.isSourceOf k then c else c.told proc e.memory k)

/-- The first client that the kernel does not come from, if there is one, is the last of the table. -/
def OnlyLast (k : Kernel P) (clients : List (ClientEntry P)) : Prop :=
  (clients.dropWhile fun c => c.isSourceOf k).length ≤ 1

instance (k : Kernel P) (clients : List (ClientEntry P)) : Decidable (OnlyLast k clients) :=
  inferInstanceAs (Decidable (_ ≤ _))

/-! ### A client -/

section Client

variable [ByteOrder] (proc : Process P) (ppl : BasicSocketPipeline) {k : Kernel P}

/-- Writing a kernel changes nothing but the output buffer and the load, and looks at nothing but the connection and
the memory. -/
theorem exists_writeKernel (e : Endpoint P) (connection : Connection P) : ∃ b load,
    ({ e with connection } : Endpoint P).writeKernel proc k =
        { e with connection := { connection with outputBuffer := b, load } } ∧
      (Endpoint.writeKernel proc { connection, memory := e.memory } k).connection =
        { connection with outputBuffer := b, load } := by
  unfold Endpoint.writeKernel
  dsimp only
  cases writeFrame (proc.write e.memory k) connection.outputBuffer with
  | error x b => exact ⟨b, connection.load, rfl, rfl⟩
  | ok _ b => exact ⟨b, _, rfl, rfl⟩

/-- A client is told of the kernel; the pointer keeps the kernel if that has no principal. -/
theorem doForward_of_broadcast (hphase : k.phase = .broadcast) (e : Endpoint P) (c : ClientEntry P) :
    ∃ e', ({ e with connection := c.2.connection } : Endpoint P).doForward proc ppl k =
        (e', if k.principalId e.memory = 0 then some k else none) ∧
      e'.memory = e.memory ∧ c.reconnected e'.connection = c.told proc e.memory k := by
  obtain ⟨b, load, hwrite, htold⟩ := exists_writeKernel proc (k := k) e c.2.connection
  unfold Endpoint.doForward Endpoint.saveKernel ClientEntry.told
  rw [hwrite, htold]
  rw [Endpoint.plan_of_broadcast hphase]
  split_ifs with hprincipal
  · refine ⟨_, rfl, rfl, ?_⟩
    rw [List.append_nil]
  · exact ⟨_, rfl, rfl, rfl⟩

end Client

namespace SocketPipeline

/-! ### All clients -/

section Loop

variable [ByteOrder] {proc : Process P} {k : Kernel P} {call : ClientCall P}

variable (hcall : ∀ (e : Endpoint P) (c : ClientEntry P), ∃ e',
  call { e with connection := c.2.connection } k = some (e', if k.principalId e.memory = 0 then some k else none) ∧
    e'.memory = e.memory ∧ c.reconnected e'.connection = c.told proc e.memory k)

include hcall

/-- A kernel without a principal gets to all clients. -/
theorem spreads_of_principal {e : Endpoint P} (hprincipal : k.principalId e.memory = 0)
    (clients : List (ClientEntry P)) :
    Spreads proc e k clients (broadcastClients call (some k) clients e) := by
  induction clients generalizing e with
  | nil => exact ⟨e, rfl⟩
  | cons c rest ih =>
    by_cases hsource : c.isSourceOf k = true
    · obtain ⟨e', hrest⟩ := ih hprincipal
      exact ⟨e', by simp [broadcastClients, hsource, hrest]⟩
    · obtain ⟨e₁, hself, hmemory, htold⟩ := hcall e c
      obtain ⟨e', hrest⟩ := ih (e := e₁) (hmemory ▸ hprincipal)
      rw [if_pos hprincipal] at hself
      rw [hmemory] at hrest
      exact ⟨e', by simp [broadcastClients, hsource, hself, hrest, htold]⟩

/-- A kernel with a principal gets to the first client. -/
theorem spreads_of_not_principal {e : Endpoint P} (hprincipal : k.principalId e.memory ≠ 0)
    (clients : List (ClientEntry P)) :
    if OnlyLast k clients then Spreads proc e k clients (broadcastClients call (some k) clients e)
    else broadcastClients call (some k) clients e = .error (.trap .nullPointer) := by
  induction clients with
  | nil => exact ⟨e, rfl⟩
  | cons c rest ih =>
    by_cases hsource : c.isSourceOf k = true
    · have honly : OnlyLast k (c :: rest) ↔ OnlyLast k rest := by simp [OnlyLast, hsource]
      simp only [honly]
      split_ifs at ih ⊢ with h
      · obtain ⟨e', hrest⟩ := ih
        exact ⟨e', by simp [broadcastClients, hsource, hrest]⟩
      · simp [broadcastClients, hsource, ih]
    · obtain ⟨e₁, hself, hmemory, htold⟩ := hcall e c
      rw [if_neg hprincipal] at hself
      cases rest with
      | nil =>
        have honly : OnlyLast k [c] := by simp [OnlyLast, hsource]
        rw [if_pos honly]
        exact ⟨e₁, by simp [broadcastClients, hsource, hself, htold]⟩
      | cons c' rest =>
        have honly : ¬ OnlyLast k (c :: c' :: rest) := by simp [OnlyLast, hsource]
        rw [if_neg honly]
        simp [broadcastClients, hsource, hself]

/-- **What the loops come to**: the kernel gets to all clients, or a null pointer is looked at. -/
theorem spreads_iff (clients : List (ClientEntry P)) (e : Endpoint P) :
    Spreads proc e k clients (broadcastClients call (some k) clients e) ↔
      k.principalId e.memory = 0 ∨ OnlyLast k clients := by
  by_cases hprincipal : k.principalId e.memory = 0
  · exact iff_of_true (spreads_of_principal hcall hprincipal clients) (Or.inl hprincipal)
  · have h := spreads_of_not_principal hcall hprincipal clients
    split_ifs at h with honly
    · exact iff_of_true h (Or.inr honly)
    · refine iff_of_false ?_ (by simp [hprincipal, honly])
      rintro ⟨e', hok⟩
      cases h.symm.trans hok

end Loop

/-! ### The loops of the pipeline -/

/-- `broadcast` gets to its end if and only if the kernel has no principal, or only the last client is called. -/
theorem exists_broadcast {memory : Memory P} {call : SocketAddress → Kernel P → PipelineCall P} {k : Kernel P}
    (hphase : k.phase = .broadcast) (clients : List (ClientEntry P)) :
    (∃ calls, broadcast memory call k clients = .ok calls) ↔ k.principalId memory = 0 ∨ OnlyLast k clients := by
  have hkeeps : ∀ client : SocketPipelineClient P, keeps memory client k = !decide (k.principalId memory = 0) := by
    intro client
    rw [keeps, Endpoint.plan_of_broadcast hphase]
    by_cases hprincipal : k.principalId memory = 0 <;> simp [hprincipal]
  induction clients with
  | nil => simp [broadcast, OnlyLast]
  | cons c rest ih =>
    unfold broadcast
    by_cases hsource : k.source = c.2.connection.socketAddress
    · rw [if_pos hsource]
      refine ih.trans ?_
      simp [OnlyLast, ClientEntry.isSourceOf, hsource]
    · rw [if_neg hsource, hkeeps]
      by_cases hprincipal : k.principalId memory = 0
      · obtain ⟨calls, hcalls⟩ := ih.mpr (Or.inl hprincipal)
        simp [hprincipal, hcalls]
      · cases rest with
        | nil => simp [hprincipal, OnlyLast, ClientEntry.isSourceOf, hsource]
        | cons c' rest => simp [hprincipal, OnlyLast, ClientEntry.isSourceOf, hsource]

variable [ByteOrder] (proc : Process P) (ppl : BasicSocketPipeline) (p : SocketPipeline P) {k : Kernel P}

/-- What `broadcast` says is what happens. -/
theorem spreads_iff_broadcast (hphase : k.phase = .broadcast) (e : Endpoint P)
    (call : SocketAddress → Kernel P → PipelineCall P) :
    Spreads proc e k p.clients.entries (p.processBroadcast proc ppl k e) ↔
      ∃ calls, broadcast e.memory call k p.clients.entries = .ok calls := by
  rw [exists_broadcast hphase]
  refine spreads_iff (fun e c => ?_) p.clients.entries e
  rw [Endpoint.send_of_broadcast proc ppl _ hphase]
  obtain ⟨e', hself, hmemory, htold⟩ := doForward_of_broadcast proc ppl hphase e c
  exact ⟨e', congrArg some hself, hmemory, htold⟩

/-- **A broadcast gets to all clients**, each is told of it once and saves it if it has a principal, and no null
pointer is looked at, if and only if the kernel has no principal, or the first client that it does not come from is
the last of the table. -/
theorem broadcasts_iff (hphase : k.phase = .broadcast) (e : Endpoint P) :
    (Spreads proc e k p.clients.entries (p.processBroadcast proc ppl k e) ↔
      k.principalId e.memory = 0 ∨ OnlyLast k p.clients.entries) ∧
    (Spreads proc e k p.clients.entries (p.forwardBroadcast proc ppl k e) ↔
      k.principalId e.memory = 0 ∨ OnlyLast k p.clients.entries) := by
  have hforward : ∀ (e : Endpoint P) (c : ClientEntry P), ∃ e',
      some (({ e with connection := c.2.connection } : Endpoint P).doForward proc ppl k) =
        some (e', if k.principalId e.memory = 0 then some k else none) ∧
      e'.memory = e.memory ∧ c.reconnected e'.connection = c.told proc e.memory k := by
    intro e c
    obtain ⟨e', hself, hmemory, htold⟩ := doForward_of_broadcast proc ppl hphase e c
    exact ⟨e', congrArg some hself, hmemory, htold⟩
  refine ⟨spreads_iff (fun e c => ?_) p.clients.entries e, spreads_iff hforward p.clients.entries e⟩
  rw [Endpoint.send_of_broadcast proc ppl _ hphase]
  exact hforward e c

end SocketPipeline

end Broadcasts

/-! ### Two clients -/

/-- A client with nothing in its queues. -/
def newClient (address : SocketAddress) : SocketPipelineClient Unit :=
  { connection := { socketAddress := address }, state := .started }

/-- A pipeline with two clients. -/
def twoClients : SocketPipeline Unit where
  clients := ((∅ : ClientTable Unit).insert (.ofBytes [1]) (newClient (.ofBytes [1]))).insert (.ofBytes [2])
    (newClient (.ofBytes [2]))

/-- The process of the pipeline. -/
def quietNode : Endpoint Unit where
  connection := {}
  memory := Memory.blank

/-- A kernel for all nodes. -/
def Kernel.announcement (principal : UInt64) : Kernel Unit :=
  { Kernel.plain [] with
    phase := .broadcast, principalWord := principal, flags := KernelFlags.setf 0 .principalIsId }

/-- A kernel without a principal gets to both clients. -/
theorem SocketPipeline.broadcasts_two :
    letI := ByteOrder.littleEndian
    Spreads (Process.plain 0) quietNode (Kernel.announcement 0) twoClients.clients.entries
        (twoClients.processBroadcast (Process.plain 0) {} (Kernel.announcement 0) quietNode) ∧
      Spreads (Process.plain 0) quietNode (Kernel.announcement 0) twoClients.clients.entries
        (twoClients.forwardBroadcast (Process.plain 0) {} (Kernel.announcement 0) quietNode) := by
  let _ := ByteOrder.littleEndian
  have h := twoClients.broadcasts_iff (Process.plain 0) {} (k := Kernel.announcement 0) rfl quietNode
  exact ⟨h.1.mpr (Or.inl rfl), h.2.mpr (Or.inl rfl)⟩

/-- **The first client keeps the kernel**, and a null pointer is looked at. -/
theorem SocketPipeline.kept_by_the_first :
    letI := ByteOrder.littleEndian
    ¬ Spreads (Process.plain 0) quietNode (Kernel.announcement 5) twoClients.clients.entries
        (twoClients.processBroadcast (Process.plain 0) {} (Kernel.announcement 5) quietNode) := by
  let _ := ByteOrder.littleEndian
  rw [twoClients.spreads_iff_broadcast (Process.plain 0) {} rfl quietNode .clientSend,
    SocketPipeline.exists_broadcast rfl]
  decide

end Subordination.Daemon
