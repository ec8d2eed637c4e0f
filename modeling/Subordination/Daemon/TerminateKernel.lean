import Subordination.Daemon.SocketPipeline
import Subordination.Library.Floods

/-!
# Terminate kernels

A daemon that stops a job tells all the others, with a kernel that each of them passes on
(`daemon/terminate_kernel.cc`, `daemon/main.cc`).

## The model

A `Cluster` is a number of daemons that are joined by client connections, and stays as it is while the
kernels are on their way. A kernel that arrives is given to the local pipeline, which calls `act`. All that
it brings along is the ids of the jobs; where it has come from, the client knows that has received it.

## What is proved

* `Cluster.flood_reachable_iff` — what the daemons do is a flood through the graph of their connections.
* `Cluster.terminates_iff` — so each daemon handles the kernel at most once, and there are finitely many of
  them, if and only if there is no cycle that can be reached from the first daemon.
* `Cluster.triangle_acts_twice` — three daemons that know each other.
-/

namespace Subordination.Daemon

open Subordination.Core Subordination.Library

/-! ### The kernel -/

namespace TerminateKernel

/-- `make_pointer<Terminate_kernel>(job_ids)`, in the broadcast phase and with the given source. -/
def make (thisApplication : UInt64) (jobIds : List UInt64) (source : SocketAddress) : Kernel (List UInt64) :=
  { Kernel.fresh thisApplication (.native "sbnd::Terminate_kernel" jobIds) with phase := .broadcast, source }

/-- `job_ids()`. -/
def jobIds (k : Kernel (List UInt64)) : List UInt64 :=
  match k.payload with
  | .native _ ids => ids
  | .foreign _ => []

/-- `act`: the jobs that are removed, and the kernel that is sent on. -/
def act (thisApplication : UInt64) (k : Kernel (List UInt64)) : List UInt64 × Kernel (List UInt64) :=
  (jobIds k, make thisApplication (jobIds k) k.source)

end TerminateKernel

/-! ### Broadcasts -/

namespace SocketPipeline

variable {P : Type} {memory : Memory P} {call : SocketAddress → Kernel P → PipelineCall P} {k : Kernel P}

/-- **A kernel without a principal is broadcast** to all clients but the one it has come from, and none of
them keeps it. -/
theorem broadcast_eq (hphase : k.phase = .broadcast) (hprincipal : k.principalId memory = 0)
    (clients : List (Sigma fun _ : SocketAddress => SocketPipelineClient P)) :
    broadcast memory call k clients =
      .ok ((clients.filter fun e => k.source ≠ e.2.connection.socketAddress).map fun e => call e.1 k) := by
  have hkeeps : ∀ client : SocketPipelineClient P, keeps memory client k = false := by
    intro client
    have hup : ¬ (k.phase = .upstream ∨ k.phase = .pointToPoint) := by
      rw [hphase]
      decide
    have hdown : ¬ k.phase = .downstream := by
      rw [hphase]
      decide
    unfold keeps Endpoint.plan
    rw [if_neg hup, if_neg hdown, if_pos hphase, if_neg (not_not.mpr hprincipal)]
    rfl
  induction clients with
  | nil => rfl
  | cons e rest ih =>
    unfold broadcast
    by_cases hsource : k.source = e.2.connection.socketAddress
    · rw [if_pos hsource, ih, List.filter_cons_of_neg (by simpa using hsource)]
    · rw [if_neg hsource, hkeeps e.2, ih, List.filter_cons_of_pos (by simpa using hsource)]
      rfl

end SocketPipeline

/-! ### Clusters -/

/-- Daemons that are joined by client connections. -/
structure Cluster (ι : Type) where
  /-- `this_application::id()` of the daemons. -/
  thisApplication : UInt64
  /-- The socket pipeline of a daemon. -/
  pipeline : ι → SocketPipeline (List UInt64)
  /-- The memory of a daemon. -/
  memory : ι → Memory (List UInt64)
  /-- The addresses to which sockets can be connected. -/
  connects : SocketAddress → Bool
  /-- The address of a daemon. -/
  address : ι → SocketAddress
  /-- The daemon with an address. -/
  daemonAt : SocketAddress → Option ι
  /-- There is one daemon at an address. -/
  daemonAt_eq_some : ∀ a v, daemonAt a = some v ↔ address v = a
  /-- A daemon has an address. -/
  isSet_address : ∀ v, (address v).isSet = true
  /-- The clients of a daemon are other daemons. -/
  clients_known : ∀ u a, a ∈ (pipeline u).clients → ∃ v, v ≠ u ∧ address v = a
  /-- A connection has two ends. -/
  clients_symm : ∀ u v, address v ∈ (pipeline u).clients → address u ∈ (pipeline v).clients
  /-- A client knows the address that it is listed under. -/
  socketAddress_eq : ∀ u, ∀ e ∈ (pipeline u).clients.entries, e.2.connection.socketAddress = e.1

/-- The kernels that are on their way, each with the daemon that it comes from and the one that it goes to,
and the daemons that have called `act`, each with the jobs that it has removed, oldest first. -/
structure Termination (ι : Type) where
  /-- The kernels that are on their way. -/
  inFlight : List (ι × ι × Kernel (List UInt64))
  /-- The calls of `act`. -/
  acts : List (ι × List UInt64) := []

/-- The flood that the kernels are. -/
def Termination.flood {ι : Type} (t : Termination ι) : Flood ι where
  pending := t.inFlight.map fun m => (m.1, m.2.1)
  handled := t.acts.map Prod.fst

namespace Cluster

variable {ι : Type} (D : Cluster ι)

/-- The kernel that a call of a client puts on its way. -/
def message (v : ι) : PipelineCall (List UInt64) → Option (ι × ι × Kernel (List UInt64))
  | .clientSend address k => (D.daemonAt address).map (v, ·, k)
  | _ => none

/-- What the daemon puts on its way when it sends the kernel over its socket pipeline. -/
def send (v : ι) (k : Kernel (List UInt64)) : List (ι × ι × Kernel (List UInt64)) :=
  match (D.pipeline v).processKernel (D.memory v) D.connects k with
  | .ok (_, calls) => calls.filterMap (D.message v)
  | .error _ => []

/-- The daemon `s` tells the others to terminate the given jobs. -/
def system (s : ι) (jobIds : List UInt64) : System (Termination ι) where
  Initial t := t = { inFlight := D.send s (TerminateKernel.make D.thisApplication jobIds .unset) }
  Step t t' := ∃ before u v k after, t.inFlight = before ++ (u, v, k) :: after ∧
    let (jobs, next) := TerminateKernel.act D.thisApplication { k with source := D.address u }
    t' = { inFlight := before ++ after ++ D.send v next, acts := t.acts ++ [(v, jobs)] }

/-- The graph of the connections. -/
def graph : SimpleGraph ι where
  Adj u v := D.address v ∈ (D.pipeline u).clients
  symm := ⟨D.clients_symm⟩
  loopless := ⟨fun u h => by
    obtain ⟨v, hne, hv⟩ := D.clients_known u _ h
    exact hne (Option.some.inj (((D.daemonAt_eq_some _ v).mpr hv).symm.trans ((D.daemonAt_eq_some _ u).mpr rfl)))⟩

/-- The daemons at the other ends of the connections. -/
def next (u : ι) : List ι := (D.pipeline u).clients.keys.filterMap D.daemonAt

theorem mem_next (u v : ι) : v ∈ D.next u ↔ D.graph.Adj u v := by
  unfold next
  rw [List.mem_filterMap]
  constructor
  · rintro ⟨a, ha, hv⟩
    obtain rfl := (D.daemonAt_eq_some a v).mp hv
    exact AList.mem_keys.mp ha
  · intro h
    exact ⟨D.address v, AList.mem_keys.mpr h, (D.daemonAt_eq_some _ v).mpr rfl⟩

theorem nodup_next (u : ι) : (D.next u).Nodup := by
  refine List.Nodup.filterMap ?_ (D.pipeline u).clients.keys_nodup
  intro a a' v hv hv'
  exact ((D.daemonAt_eq_some a v).mp hv).symm.trans ((D.daemonAt_eq_some a' v).mp hv')

/-- The clients that are not left out, and the daemons at their ends. -/
theorem filterMap_message (v : ι) (k : Kernel (List UInt64))
    {clients : List (Sigma fun _ : SocketAddress => SocketPipelineClient (List UInt64))}
    (hclients : ∀ e ∈ clients, e.2.connection.socketAddress = e.1) :
    ((clients.filter fun e => k.source ≠ e.2.connection.socketAddress).map fun e =>
        PipelineCall.clientSend e.1 k).filterMap (D.message v) =
      (((clients.map Sigma.fst).filterMap D.daemonAt).filter fun w => k.source ≠ D.address w).map (v, ·, k) := by
  induction clients with
  | nil => rfl
  | cons e clients ih =>
    have hrest := ih fun e' he' => hclients e' (List.mem_cons_of_mem e he')
    have haddress := hclients e List.mem_cons_self
    by_cases hsource : k.source = e.1
    · rw [List.filter_cons_of_neg (by simp [haddress, hsource]), hrest, List.map_cons]
      cases hat : D.daemonAt e.1 with
      | none => rw [List.filterMap_cons_none hat]
      | some w =>
        have hw : D.address w = e.1 := (D.daemonAt_eq_some _ w).mp hat
        rw [List.filterMap_cons_some hat, List.filter_cons_of_neg (by simp [hw, hsource])]
    · rw [List.filter_cons_of_pos (by simp [haddress, hsource]), List.map_cons, List.map_cons]
      cases hat : D.daemonAt e.1 with
      | none =>
        have hnone : D.message v (.clientSend e.1 k) = none := by simp [message, hat]
        rw [List.filterMap_cons_none hnone, List.filterMap_cons_none hat, hrest]
      | some w =>
        have hw : D.address w = e.1 := (D.daemonAt_eq_some _ w).mp hat
        have hsome : D.message v (.clientSend e.1 k) = some (v, w, k) := by simp [message, hat]
        rw [List.filterMap_cons_some hsome, List.filterMap_cons_some hat, hrest,
          List.filter_cons_of_pos (by simp [hw, hsource]), List.map_cons]

/-- **What a daemon sends** goes to its neighbours but the one at the source. -/
theorem send_make (v : ι) (jobIds : List UInt64) (source : SocketAddress) :
    (D.send v (TerminateKernel.make D.thisApplication jobIds source)).map (fun m => (m.1, m.2.1)) =
      ((D.next v).filter fun w => source ≠ D.address w).map (v, ·) := by
  have hprincipal : (TerminateKernel.make D.thisApplication jobIds source).principalId (D.memory v) = 0 := by
    have hflag : KernelFlags.isset 0 .principalIsId = false := by decide
    change (if KernelFlags.isset 0 .principalIsId then 0 else if (0 : UInt64) = 0 then 0 else _) = 0
    rw [hflag]
    rfl
  have hphase : (TerminateKernel.make D.thisApplication jobIds source).phase = .broadcast := rfl
  unfold send SocketPipeline.processKernel
  rw [if_pos hphase, SocketPipeline.broadcast_eq hphase hprincipal]
  change List.map _ (List.filterMap _ _) = _
  rw [D.filterMap_message v _ (D.socketAddress_eq v), List.map_map]
  rfl

variable [DecidableEq ι]

/-- A daemon passes the kernel on to its neighbours but the one that it has come from. -/
theorem send_address (u v : ι) (jobIds : List UInt64) :
    (D.send v (TerminateKernel.make D.thisApplication jobIds (D.address u))).map (fun m => (m.1, m.2.1)) =
      Flood.relay D.next u v := by
  have hne : ∀ w, D.address u ≠ D.address w ↔ w ≠ u := by
    intro w
    have hinjective : D.address u = D.address w ↔ u = w := by
      constructor
      · intro h
        have hu : D.daemonAt (D.address w) = some u := (D.daemonAt_eq_some _ u).mpr h
        exact Option.some.inj (hu.symm.trans ((D.daemonAt_eq_some _ w).mpr rfl))
      · rintro rfl
        rfl
    rw [ne_eq, hinjective, ne_eq, eq_comm]
  rw [send_make]
  unfold Flood.relay
  simp only [hne]

omit [DecidableEq ι] in
/-- The first daemon sends it to all of them. -/
theorem send_unset (s : ι) (jobIds : List UInt64) :
    (D.send s (TerminateKernel.make D.thisApplication jobIds .unset)).map (fun m => (m.1, m.2.1)) =
      (D.next s).map (s, ·) := by
  have hall : ∀ w, SocketAddress.unset ≠ D.address w := by
    intro w h
    have hset := D.isSet_address w
    rw [← h] at hset
    exact Bool.false_ne_true hset
  rw [send_make, List.filter_eq_self.mpr]
  intro w _
  exact decide_eq_true (hall w)

/-- **What the daemons do is a flood.** -/
theorem flood_reachable_iff (s : ι) (jobIds : List UInt64) (f : Flood ι) :
    (∃ t, (D.system s jobIds).Reachable t ∧ t.flood = f) ↔ (Flood.system D.next s).Reachable f := by
  have hstart : Termination.flood
      { inFlight := D.send s (TerminateKernel.make D.thisApplication jobIds .unset) } =
        { pending := (D.next s).map (s, ·) } := by
    unfold Termination.flood
    rw [D.send_unset]
    rfl
  constructor
  · rintro ⟨t, ht, rfl⟩
    refine ht.map ?_ ?_
    · rintro t rfl
      exact hstart
    · rintro t t' ⟨before, u, v, k, after, hinFlight, rfl⟩
      refine ⟨before.map (fun m => (m.1, m.2.1)), u, v, after.map (fun m => (m.1, m.2.1)), ?_, ?_⟩
      · unfold Termination.flood
        rw [hinFlight, List.map_append]
        rfl
      · simp only [Termination.flood, List.map_append, send_address, List.map_cons, List.map_nil]
  · intro hf
    refine hf.lift ?_ ?_
    · rintro f rfl
      exact ⟨_, rfl, hstart⟩
    · rintro t f' ⟨before, u, v, after, hpending, rfl⟩
      obtain ⟨before', rest, hinFlight, rfl, hrest⟩ := List.map_eq_append_iff.mp hpending
      obtain ⟨⟨u', v', k⟩, after', rfl, hm, rfl⟩ := List.map_eq_cons_iff.mp hrest
      cases hm
      refine ⟨_, ⟨before', u', v', k, after', hinFlight, rfl⟩, ?_⟩
      simp only [Termination.flood, List.map_append, send_address, List.map_cons, List.map_nil]

/-- **Every daemon handles the kernel at most once, and there are finitely many of them**, at most as many as
there are daemons, if and only if no cycle of connections can be reached from the daemon that starts. -/
theorem terminates_iff [Fintype ι] (s : ι) (jobIds : List UInt64) :
    (∀ t, (D.system s jobIds).Reachable t →
      (t.acts.map Prod.fst).Nodup ∧ t.inFlight.length + t.acts.length ≤ Fintype.card ι) ↔
      Flood.NoCycleFrom D.graph s := by
  rw [← Flood.once_iff D.mem_next D.nodup_next]
  constructor
  · intro hterminates f hf
    obtain ⟨t, ht, rfl⟩ := (D.flood_reachable_iff s jobIds f).mpr hf
    obtain ⟨hnodup, hlength⟩ := hterminates t ht
    refine ⟨hnodup, ?_⟩
    unfold Termination.flood
    rw [List.length_map, List.length_map]
    exact hlength
  · intro honce t ht
    obtain ⟨hnodup, hlength⟩ := honce _ ((D.flood_reachable_iff s jobIds _).mp ⟨t, ht, rfl⟩)
    refine ⟨hnodup, ?_⟩
    unfold Termination.flood at hlength
    rw [List.length_map, List.length_map] at hlength
    exact hlength

/-! ### Three daemons -/

/-- A daemon is found by its address. -/
theorem find?_finRange {n : ℕ} {f : Fin n → SocketAddress} (hf : Function.Injective f) (a : SocketAddress)
    (v : Fin n) : (List.finRange n).find? (fun v => f v = a) = some v ↔ f v = a := by
  have hfound : ∀ w, (List.finRange n).find? (fun v => f v = a) = some w → f w = a := by
    intro w hw
    simpa using List.find?_some hw
  constructor
  · exact hfound v
  · intro h
    obtain ⟨w, hw⟩ : ∃ w, (List.finRange n).find? (fun v => f v = a) = some w :=
      Option.isSome_iff_exists.mp (List.find?_isSome.mpr ⟨v, List.mem_finRange v, decide_eq_true h⟩)
    rw [hw, hf ((hfound w hw).trans h.symm)]

/-- The clients for the daemons at the given addresses. -/
def clientsFor (addresses : List SocketAddress) : ClientTable (List UInt64) :=
  addresses.foldr (fun a clients => clients.insert a { connection := { socketAddress := a }, state := .started }) ∅

theorem mem_clientsFor (addresses : List SocketAddress) (a : SocketAddress) :
    a ∈ clientsFor addresses ↔ a ∈ addresses := by
  induction addresses with
  | nil => simp [clientsFor]
  | cons b rest ih =>
    have hinsert : a ∈ clientsFor (b :: rest) ↔ a = b ∨ a ∈ clientsFor rest := AList.mem_insert _
    rw [hinsert, ih, List.mem_cons]

/-- The addresses of the daemons. -/
def nodeAddress (v : Fin 3) : SocketAddress := ipv4SocketAddress (0x0A000001 + UInt32.ofNat v) 33333

theorem nodeAddress_injective : Function.Injective nodeAddress := by decide

/-- Three daemons, each of which is a client of the two others. -/
def triangle : Cluster (Fin 3) where
  thisApplication := 0
  pipeline u := { clients := clientsFor (((List.finRange 3).filter (· ≠ u)).map nodeAddress) }
  memory _ _ := TerminateKernel.make 0 [] .unset
  connects _ := false
  address := nodeAddress
  daemonAt a := (List.finRange 3).find? (nodeAddress · = a)
  daemonAt_eq_some := find?_finRange nodeAddress_injective
  isSet_address _ := rfl
  clients_known u a ha := by
    obtain ⟨v, hv, rfl⟩ := List.mem_map.mp ((mem_clientsFor _ a).mp ha)
    exact ⟨v, of_decide_eq_true (List.mem_filter.mp hv).2, rfl⟩
  clients_symm u v h := by
    obtain ⟨w, hw, heq⟩ := List.mem_map.mp ((mem_clientsFor _ _).mp h)
    obtain rfl := nodeAddress_injective heq
    have hne : w ≠ u := of_decide_eq_true (List.mem_filter.mp hw).2
    refine (mem_clientsFor _ _).mpr (List.mem_map.mpr ⟨u, List.mem_filter.mpr ⟨List.mem_finRange u, ?_⟩, rfl⟩)
    exact decide_eq_true hne.symm
  socketAddress_eq := by decide +kernel

/-- The kernel at the given position arrives. -/
def arrive (D : Cluster ι) (t : Termination ι) (i : ℕ) : Option (Termination ι) :=
  t.inFlight[i]?.map fun (u, v, k) =>
    let (jobs, next) := TerminateKernel.act D.thisApplication { k with source := D.address u }
    { inFlight := t.inFlight.take i ++ t.inFlight.drop (i + 1) ++ D.send v next, acts := t.acts ++ [(v, jobs)] }

omit [DecidableEq ι] in
theorem reachable_arrive {s : ι} {jobIds : List UInt64} {is : List ℕ} {t t' : Termination ι}
    (h : (D.system s jobIds).Reachable t) (hrun : is.foldlM (D.arrive) t = some t') :
    (D.system s jobIds).Reachable t' := by
  induction is generalizing t with
  | nil =>
    obtain rfl := Option.some.inj hrun
    exact h
  | cons i is ih =>
    obtain ⟨t₁, harrive, hrest⟩ := Option.bind_eq_some_iff.mp hrun
    obtain ⟨⟨u, v, k⟩, hi, rfl⟩ := Option.map_eq_some_iff.mp harrive
    refine ih (h.step ⟨t.inFlight.take i, u, v, k, t.inFlight.drop (i + 1), ?_, rfl⟩) hrest
    obtain ⟨hlt, hget⟩ := List.getElem?_eq_some_iff.mp hi
    rw [← hget, List.getElem_cons_drop, List.take_append_drop]

end Cluster

/-- **A daemon acts twice**: it hears of the job from the one that has stopped it and from the third one, to
which it has passed it on. -/
theorem Cluster.triangle_acts_twice : ¬ ∀ t, (Cluster.triangle.system 0 [7]).Reachable t →
    (t.acts.map Prod.fst).Nodup ∧ t.inFlight.length + t.acts.length ≤ Fintype.card (Fin 3) := by
  intro hall
  have hrun : ([0, 0, 0].foldlM Cluster.triangle.arrive
      { inFlight := Cluster.triangle.send 0 (TerminateKernel.make 0 [7] .unset) }).map (fun t => t.acts) =
        some [(1, [7]), (2, [7]), (2, [7])] := by
    decide +kernel
  obtain ⟨t, ht, hacts⟩ := Option.map_eq_some_iff.mp hrun
  have hnodup := (hall t (Cluster.triangle.reachable_arrive (.initial rfl) ht)).1
  rw [hacts] at hnodup
  exact absurd hnodup (by decide)

end Subordination.Daemon
