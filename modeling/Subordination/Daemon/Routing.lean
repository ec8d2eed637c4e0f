import Subordination.Core.Rewriting
import Subordination.Core.Connection
import Subordination.Daemon.InterfaceAddress

/-!
# Routing

Kernels that are scheduled again by every daemon on their way, and their results
(`daemon/socket_pipeline.hh`, `daemon/socket_pipeline.cc`).

## The model

A `Router` is a client with `route()` set. It gives the kernels that it routes to the socket pipeline
of its daemon, which sends them over another client. `routed()` is not sent with a kernel, so it is a
value of its own next to the kernel.

A chain of daemons is given by its hops, from one daemon to the next. The clients at the two ends of a
hop may be in any state when the kernel and its result come by, except that the copy of the kernel is
still in the queue in which it has been saved, and that no kernel before it waits for the same result.
The last daemon gives the kernel to a process, which answers it.

## What is proved

* `Retraced.iff` — the result finds the copies on its way back, and comes to the first daemon with the id
  of the kernel, if and only if there are at most two daemons or all ids along the way but the last are
  the same.
* `three_daemons` — a chain of three daemons where they are not.
-/

namespace Subordination.Daemon

open Subordination.Core Subordination.Library

/-! ### Clients -/

/-- `socket_pipeline_client` with `route()` set. -/
structure Router (P : Type) extends Endpoint P where
  /-- The kernels that it has given to `parent()->forward`, each with `routed()`, oldest first. -/
  given : List (Kernel P × Bool) := []

namespace Router

variable {P : Type}

/-- What `forward` does to the ids of a kernel: one that is routed gets a new one. -/
def relabel (client : Router P) (k : Kernel P) (routed : Bool) : Router P × Kernel P :=
  if routed then
    let (e, k) := client.generateNewId { k with oldId := k.id }
    ({ client with toEndpoint := e }, k)
  else (client, k)

variable [ByteOrder] (proc : Process P) (ppl : BasicSocketPipeline)

/-- `forward`. -/
def forward (client : Router P) (k : Kernel P) (routed : Bool) : Router P :=
  let (client, k) := client.relabel k routed
  { client with toEndpoint := (client.doForward proc ppl k).1 }

/-- `connection::receive_foreign_kernel`. -/
def receiveUnrouted (k : Kernel P) : EStateM Exception (Router P) Unit := fun client =>
  match Endpoint.receiveForeignKernel proc ppl { kernel := k } client.toEndpoint with
  | .ok _ e => .ok () { client with toEndpoint := e }
  | .error x e => .error x { client with toEndpoint := e }

/-- `receive_downstream_foreign_kernel`. -/
def receiveDownstreamForeignKernel (a : Kernel P) : EStateM Exception (Router P) Unit := fun client =>
  match findKernel a client.connection.upstream with
  | none => receiveUnrouted proc ppl a client
  | some result =>
    if !result.source.isSet then receiveUnrouted proc ppl a client
    else
      -- the id that the kernel had here takes the place of its own
      .ok () { client with
        connection.upstream := eraseKernel a client.connection.upstream
        given := client.given ++ [({ a with destination := result.source, id := a.oldId }, false)] }

/-- `receive_foreign_kernel`. -/
def receiveForeignKernel (k : Kernel P) : EStateM Exception (Router P) Unit := fun client =>
  if k.phase = .upstream then
    if !k.carriesParent && k.path.isEmpty then .ok () { client with given := client.given ++ [(k, true)] }
    else receiveUnrouted proc ppl k client
  else if k.phase = .downstream then receiveDownstreamForeignKernel proc ppl k client
  else receiveUnrouted proc ppl k client

/-- The client after it has received a kernel. -/
def received (client : Router P) (k : Kernel P) : Router P :=
  match receiveForeignKernel proc ppl k client with
  | .ok _ client => client
  | .error _ client => client

/-- What the client gives to `parent()->forward` when it receives the kernel. -/
def gives (client : Router P) (k : Kernel P) : Option (Kernel P × Bool) :=
  ((client.received proc ppl k).given.drop client.given.length).head?

end Router

/-! ### From one daemon to another -/

/-- A foreign kernel as the other end of the connection reads it, where the address of this end is the
given one. -/
def transported {P : Type} (k : Kernel P) (mem : Memory P) (address : SocketAddress) : Kernel P :=
  { Kernel.copyOf mem { k.sent with typeId := k.typeId, payload := k.payload } k with source := address }

/-- **What is written at one end is read at the other.** -/
theorem reads_transported {P : Type} [ByteOrder] {k : Kernel P} {payload : List UInt8}
    (hpayload : k.payload = .foreign payload) (hlength : payload.length < 2 ^ 32) (hencodable : k.Encodable)
    {writer reader : Process P} (htarget : k.targetApplicationId ≠ reader.thisApplication) (mem : Memory P)
    {address : SocketAddress} (haddress : address.isSet = true) : ∃ wire r,
      Writes (writer.write mem k) wire ∧ ReadsAll reader.read wire r ∧
        Receiver.comesFrom address r = { kernel := transported k mem address } := by
  refine ⟨_, _, Process.writes_foreign hpayload, Process.read_foreign hencodable htarget hlength, ?_⟩
  unfold Receiver.comesFrom transported Kernel.asForeign
  rw [if_pos haddress, hpayload]

/-- From one daemon of a chain to the next. -/
structure Hop (P : Type) where
  /-- The client of the one for the other, when the kernel goes out. -/
  outgoing : Router P
  /-- The client of the other for the one, when the kernel arrives there. -/
  arriving : Router P
  /-- The client of the one for the other, when the result comes back. -/
  returning : Router P
  /-- The address of the one. -/
  address : SocketAddress
  /-- The address of the other. -/
  back : SocketAddress
  /-- The other knows the address of the one. -/
  isSet_address : address.isSet = true

namespace Hop

variable {P : Type} (h : Hop P)

/-- The kernel as it goes out, and is saved. -/
def copy (k : Kernel P) (routed : Bool) : Kernel P := (h.outgoing.relabel k routed).2

/-- The kernel as it arrives. -/
def across (k : Kernel P) (routed : Bool) : Kernel P :=
  transported (h.copy k routed) h.outgoing.memory h.address

/-- The copy of the kernel is still in the queue when the result comes back, and it is the first one
that waits for it. -/
def Keeps (copy : Kernel P) : Prop :=
  ∃ before after, h.returning.connection.upstream = before ++ copy :: after ∧
    ∀ b ∈ before, ¬ (copy.id = b.id ∧ copy.oldId = b.oldId ∧
      copy.targetApplicationId = b.targetApplicationId ∧ copy.isNative = b.isNative)

variable [ByteOrder] (proc : Process P) (ppl : BasicSocketPipeline)

/-- The result comes back to the copy: it carries its ids and its application, the copy is found, and it is
taken out of the queue. -/
def TakesBack (copy a : Kernel P) : Prop :=
  a.isResultOf copy = true ∧ findKernel a h.returning.connection.upstream = some copy ∧
    ∃ before after, h.returning.connection.upstream = before ++ copy :: after ∧
      (h.returning.received proc ppl a).connection.upstream = before ++ after

/-- The result as it comes back over the hop, given what the rest of the chain makes of the kernel. -/
def result (rest : Kernel P × Bool → Option (Kernel P)) (k : Kernel P) (routed : Bool) : Option (Kernel P) :=
  (h.arriving.gives proc ppl (h.across k routed)).bind fun next =>
    (rest next).map fun a => transported a h.arriving.memory h.back

end Hop

/-! ### There and back again -/

section Chain

variable {P : Type} [ByteOrder] (proc : Process P) (ppl : BasicSocketPipeline)

/-- The kernel goes along the chain and is answered. What the first daemon sends on then, if its client
does not keep the result to itself. -/
def roundTrip (answer : Kernel P → Kernel P) : List (Hop P) → Kernel P × Bool → Option (Kernel P)
  | [], (k, _) => some (answer k)
  | h :: hops, (k, routed) =>
    (h.result proc ppl (roundTrip answer hops) k routed).bind fun a =>
      (h.returning.gives proc ppl a).map Prod.fst

/-- Every hop still has its copy of the kernel when the result comes back. -/
def Waits : List (Hop P) → Kernel P × Bool → Prop
  | [], _ => True
  | h :: hops, (k, routed) => h.Keeps (h.copy k routed) ∧ Waits hops (h.across k routed, true)

/-- The result comes back to the copy of the kernel at every hop. -/
def Retraced (answer : Kernel P → Kernel P) : List (Hop P) → Kernel P × Bool → Prop
  | [], _ => True
  | h :: hops, (k, routed) =>
    Retraced answer hops (h.across k routed, true) ∧
      ∃ a, h.result proc ppl (roundTrip proc ppl answer hops) k routed = some a ∧
        h.TakesBack proc ppl (h.copy k routed) a

/-- The result comes to the first daemon with the id of the kernel. -/
def ReturnsId (answer : Kernel P → Kernel P) : List (Hop P) → Kernel P → Prop
  | [], _ => True
  | h :: hops, k => ∃ a, h.result proc ppl (roundTrip proc ppl answer hops) k false = some a ∧ a.id = k.id

end Chain

/-! ### What a client does -/

section Client

variable {P : Type}

/-- A foreign kernel that the clients schedule again. -/
structure Routable (k : Kernel P) : Prop where
  /-- It goes upstream. -/
  phase : k.phase = .upstream
  /-- It does not carry its parent. -/
  carriesParent : k.carriesParent = false
  /-- It has no path. -/
  path : k.path = []
  /-- It is foreign. -/
  isNative : k.isNative = false

/-- The result of a kernel, with the given ids. -/
structure IsResult (k a : Kernel P) (id oldId : UInt64) : Prop where
  /-- It goes downstream. -/
  phase : a.phase = .downstream
  /-- It is foreign. -/
  isNative : a.isNative = false
  /-- It comes from the application that the kernel has gone to. -/
  application : a.sourceApplicationId = k.targetApplicationId
  /-- Its id. -/
  id : a.id = id
  /-- Its old id. -/
  oldId : a.oldId = oldId

theorem Routable.across {k : Kernel P} (hk : Routable k) (mem : Memory P) (address : SocketAddress) :
    Routable (transported k mem address) where
  phase := hk.phase
  carriesParent := by
    have hflag := hk.carriesParent
    unfold Kernel.carriesParent Kernel.isset at hflag ⊢
    change k.flags.received.isset .carriesParent = false
    rw [KernelFlags.isset_received, hflag]
    rfl
  path := hk.path
  isNative := hk.isNative

/-- A new label changes nothing but the ids. -/
theorem Routable.relabel {k : Kernel P} (hk : Routable k) (client : Router P) (routed : Bool) :
    Routable (client.relabel k routed).2 := by
  cases routed with
  | false => exact hk
  | true => exact ⟨hk.phase, hk.carriesParent, hk.path, hk.isNative⟩

theorem IsResult.across {k a : Kernel P} {id oldId : UInt64} (ha : IsResult k a id oldId) (mem : Memory P)
    (address : SocketAddress) : IsResult k (transported a mem address) id oldId where
  phase := ha.phase
  isNative := ha.isNative
  application := (ApplicationSlot.toId_sent a.sourceApplication).trans ha.application
  id := ha.id
  oldId := ha.oldId

/-- The result of a kernel that has gone over a connection is one of the kernel itself. -/
theorem IsResult.of_transported {k a : Kernel P} {mem : Memory P} {address : SocketAddress} {id oldId : UInt64}
    (ha : IsResult (transported k mem address) a id oldId) : IsResult k a id oldId :=
  { ha with application := ha.application.trans (Kernel.targetApplicationId_sent k) }

/-- The ids decide whether a result comes back to a copy. -/
theorem IsResult.isResultOf_iff {k a : Kernel P} {id oldId : UInt64} (ha : IsResult k a id oldId)
    (hk : k.isNative = false) : a.isResultOf k = true ↔ id = k.id ∧ oldId = k.oldId := by
  rw [Kernel.isResultOf_iff, ha.id, ha.oldId, ha.application, ha.isNative, hk]
  simp

namespace Router

theorem relabel_false (client : Router P) (k : Kernel P) : (client.relabel k false).2 = k := rfl

variable [ByteOrder] {proc : Process P} {ppl : BasicSocketPipeline} {client : Router P} {k a : Kernel P}

/-- A kernel that goes out is saved as it is sent. -/
theorem upstream_forward (hsaves : client.connection.flags.saveUpstreamKernels = true) (hphase : k.phase = .upstream)
    (hcarries : k.carriesParent = false) (routed : Bool) : (client.forward proc ppl k routed).connection.upstream =
      client.connection.upstream ++ [(client.relabel k routed).2] := by
  have hsaved : ∀ (e : Endpoint P) (k : Kernel P), e.connection.flags.saveUpstreamKernels = true →
      k.phase = .upstream → k.carriesParent = false →
      (e.doForward proc ppl k).1.connection.upstream = e.connection.upstream ++ [k] := by
    intro e k hsaves hphase hcarries
    obtain ⟨b, load, log, k', houtcome, hforward⟩ := e.doForward_eq proc ppl k
    obtain rfl := houtcome.eq_some hcarries
    rw [hforward]
    unfold Endpoint.plan
    rw [if_pos (Or.inl hphase), if_pos hsaves]
    rfl
  cases routed with
  | false => exact hsaved client.toEndpoint k hsaves hphase hcarries
  | true => exact hsaved _ { k with oldId := k.id, id := client.connection.counter + 1 } hsaves hphase hcarries

/-- A kernel that goes upstream is scheduled again. -/
theorem gives_upstream (hk : Routable k) : client.gives proc ppl k = some (k, true) := by
  have hkeeps : (!k.carriesParent && k.path.isEmpty) = true := by
    rw [hk.carriesParent, hk.path]
    rfl
  unfold gives received receiveForeignKernel
  rw [if_pos hk.phase, if_pos hkeeps]
  simp

/-- What `connection` does with a kernel on its way back. -/
theorem receiveUnrouted_eq (proc : Process P) (ppl : BasicSocketPipeline) (client : Router P)
    (ha : a.phase = .downstream) : ∃ client', receiveUnrouted proc ppl a client = .ok () client' ∧
      client'.given = client.given ∧
      client'.connection.upstream = eraseKernel a client.connection.upstream := by
  unfold receiveUnrouted Endpoint.receiveForeignKernel
  simp only [if_pos ha]
  by_cases hback : a.phase = .downstream ∧ (!a.destination.isSet) = true
  · obtain ⟨b, load, hwrite⟩ := Endpoint.writeKernel_eq proc
      ({ client.toEndpoint with
        connection.upstream := eraseKernel a client.connection.upstream } : Endpoint P) a
    simp only [if_pos hback, hwrite]
    exact ⟨_, rfl, rfl, rfl⟩
  · simp only [if_neg hback]
    exact ⟨_, rfl, rfl, rfl⟩

theorem receiveForeignKernel_downstream (ha : a.phase = .downstream) :
    receiveForeignKernel proc ppl a client = receiveDownstreamForeignKernel proc ppl a client := by
  have hne : ¬ a.phase = .upstream := by
    rw [ha]
    decide
  unfold receiveForeignKernel
  rw [if_neg hne, if_pos ha]

/-- Whatever becomes of a result, the kernel that it is found for is taken out of the queue. -/
theorem upstream_received (ha : a.phase = .downstream) :
    (client.received proc ppl a).connection.upstream = eraseKernel a client.connection.upstream := by
  obtain ⟨client', hbase, -, hupstream⟩ := receiveUnrouted_eq proc ppl client ha
  unfold received
  rw [receiveForeignKernel_downstream ha]
  unfold receiveDownstreamForeignKernel
  cases findKernel a client.connection.upstream with
  | none =>
    simp only [hbase]
    exact hupstream
  | some q =>
    by_cases hsource : (!q.source.isSet) = true
    · simp only [if_pos hsource, hbase]
      exact hupstream
    · simp only [if_neg hsource]

/-- A result that is found for a kernel that has come from another node goes on to that node, with the old
id for an id. -/
theorem gives_downstream (ha : a.phase = .downstream) {q : Kernel P}
    (hfind : findKernel a client.connection.upstream = some q) (hsource : q.source.isSet = true) :
    client.gives proc ppl a = some ({ a with destination := q.source, id := a.oldId }, false) := by
  have hset : ¬ (!q.source.isSet) = true := by simp [hsource]
  unfold gives received
  rw [receiveForeignKernel_downstream ha]
  unfold receiveDownstreamForeignKernel
  simp only [hfind, if_neg hset]
  simp

end Router

end Client

/-! ### What a hop does -/

namespace Hop

variable {P : Type} {h : Hop P} {k a : Kernel P} {routed : Bool}

theorem across_routable (hk : Routable k) : Routable (h.across k routed) :=
  (hk.relabel h.outgoing routed).across h.outgoing.memory h.address

theorem id_across : (h.across k routed).id = (h.copy k routed).id := rfl

theorem oldId_across : (h.across k routed).oldId = (h.copy k routed).oldId := rfl

/-- What arrives has come from the daemon before. -/
theorem source_across : (h.across k routed).source.isSet = true := h.isSet_address

variable [ByteOrder] {proc : Process P} {ppl : BasicSocketPipeline}

/-- The kernel is scheduled again where it arrives, so the result is that of the rest of the chain. -/
theorem result_eq (hk : Routable k) (rest : Kernel P × Bool → Option (Kernel P)) :
    h.result proc ppl rest k routed =
      (rest (h.across k routed, true)).map fun a => transported a h.arriving.memory h.back := by
  unfold result
  rw [Router.gives_upstream (across_routable hk)]
  rfl

omit [ByteOrder] in
/-- The copy is the first kernel in the queue that the result belongs to. -/
theorem findKernel_keeps {copy : Kernel P} (hkeeps : h.Keeps copy) (hresult : a.isResultOf copy = true) :
    findKernel a h.returning.connection.upstream = some copy := by
  obtain ⟨before, after, hqueue, hfirst⟩ := hkeeps
  have hnot : ∀ b ∈ before, ¬ a.isResultOf b = true := by
    intro b hb hother
    obtain ⟨hid, hold, happlication, hnative⟩ := Kernel.isResultOf_iff.mp hresult
    obtain ⟨hid', hold', happlication', hnative'⟩ := Kernel.isResultOf_iff.mp hother
    exact hfirst b hb ⟨hid.symm.trans hid', hold.symm.trans hold', happlication.symm.trans happlication',
      hnative.symm.trans hnative'⟩
  unfold findKernel
  rw [hqueue, List.find?_append, List.find?_eq_none.mpr hnot, Option.none_or, List.find?_cons_of_pos hresult]

/-- **A result comes back to the copy if and only if it has its ids.** -/
theorem takesBack_iff {copy : Kernel P} (hkeeps : h.Keeps copy) (hcopy : copy.isNative = false)
    {id oldId : UInt64} (ha : IsResult copy a id oldId) :
    h.TakesBack proc ppl copy a ↔ id = copy.id ∧ oldId = copy.oldId := by
  rw [← ha.isResultOf_iff hcopy]
  constructor
  · intro htakes
    exact htakes.1
  · intro hresult
    have hfind := findKernel_keeps hkeeps hresult
    obtain ⟨before, after, hqueue, herase⟩ := eraseKernel_of_some hfind
    refine ⟨hresult, hfind, before, after, hqueue, ?_⟩
    rw [Router.upstream_received ha.phase, herase]

end Hop

/-! ### What a chain does -/

section Retraced

variable {P : Type} [ByteOrder] {proc : Process P} {ppl : BasicSocketPipeline}
  {answer : Kernel P → Kernel P} {k : Kernel P}

/-- The ids that the hops but the last one have drawn are the given one. -/
def SameIds (hops : List (Hop P)) (id : UInt64) : Prop :=
  ∀ h ∈ hops.dropLast, h.outgoing.connection.counter + 1 = id

omit [ByteOrder] in
theorem sameIds_cons {h h' : Hop P} {hops : List (Hop P)} {id : UInt64} : SameIds (h :: h' :: hops) id ↔
    h.outgoing.connection.counter + 1 = id ∧ SameIds (h' :: hops) id := by
  unfold SameIds
  simp

/-- The old id that the result of a kernel carries when the hops are behind it. -/
def oldIdBehind (hops : List (Hop P)) (k : Kernel P) : UInt64 := if hops.isEmpty then k.oldId else k.id

/-- **One hop more**: what comes back of the rest of the chain comes back to the copy if and only if it has the
old id of that. -/
theorem retraced_cons {h : Hop P} {hops : List (Hop P)} {routed : Bool} (hk : Routable k)
    (hkeeps : h.Keeps (h.copy k routed)) {oldId : UInt64}
    (hrest : Retraced proc ppl answer hops (h.across k routed, true) → ∃ a,
      roundTrip proc ppl answer hops (h.across k routed, true) = some a ∧
        IsResult (h.across k routed) a (h.across k routed).id oldId) :
    (Retraced proc ppl answer (h :: hops) (k, routed) ↔
      Retraced proc ppl answer hops (h.across k routed, true) ∧ oldId = (h.copy k routed).oldId) ∧
      (Retraced proc ppl answer (h :: hops) (k, routed) → ∃ a,
        h.result proc ppl (roundTrip proc ppl answer hops) k routed = some a ∧
          findKernel a h.returning.connection.upstream = some (h.copy k routed) ∧
          IsResult (h.copy k routed) a (h.copy k routed).id (h.copy k routed).oldId) := by
  have hcopy : (h.copy k routed).isNative = false := (hk.relabel h.outgoing routed).isNative
  have hback : Retraced proc ppl answer hops (h.across k routed, true) → ∃ a,
      h.result proc ppl (roundTrip proc ppl answer hops) k routed = some a ∧
        IsResult (h.copy k routed) a (h.copy k routed).id oldId := by
    intro hretraced
    obtain ⟨a, htrip, ha⟩ := hrest hretraced
    refine ⟨transported a h.arriving.memory h.back, ?_, ha.of_transported.across _ _⟩
    rw [Hop.result_eq hk, htrip]
    rfl
  have hiff : Retraced proc ppl answer (h :: hops) (k, routed) ↔
      Retraced proc ppl answer hops (h.across k routed, true) ∧ oldId = (h.copy k routed).oldId := by
    constructor
    · rintro ⟨hretraced, a, ha, htakes⟩
      obtain ⟨a', ha', hresult⟩ := hback hretraced
      obtain rfl := Option.some.inj (ha.symm.trans ha')
      exact ⟨hretraced, ((Hop.takesBack_iff hkeeps hcopy hresult).mp htakes).2⟩
    · rintro ⟨hretraced, hold⟩
      obtain ⟨a, ha, hresult⟩ := hback hretraced
      exact ⟨hretraced, a, ha, (Hop.takesBack_iff hkeeps hcopy hresult).mpr ⟨rfl, hold⟩⟩
  refine ⟨hiff, ?_⟩
  intro hretraced
  obtain ⟨hretraced, rfl⟩ := hiff.mp hretraced
  obtain ⟨a, ha, hresult⟩ := hback hretraced
  have htakes : h.TakesBack proc ppl (h.copy k routed) a :=
    (Hop.takesBack_iff hkeeps hcopy hresult).mpr ⟨rfl, rfl⟩
  exact ⟨a, ha, htakes.2.1, hresult⟩

/-- **A chain of hops over which the kernel is routed**: the result finds its copies if and only if the ids are
the same, and then it has the id of the kernel. -/
theorem retraced_routed (hanswer : ∀ k, Routable k → IsResult k (answer k) k.id k.oldId) {hops : List (Hop P)}
    (hk : Routable k) (hsource : k.source.isSet = true) (hwaits : Waits hops (k, true)) :
    (Retraced proc ppl answer hops (k, true) ↔ SameIds hops k.id) ∧
      (Retraced proc ppl answer hops (k, true) → ∃ a, roundTrip proc ppl answer hops (k, true) = some a ∧
        IsResult k a k.id (oldIdBehind hops k)) := by
  induction hops generalizing k with
  | nil =>
    refine ⟨?_, fun _ => ⟨answer k, rfl, hanswer k hk⟩⟩
    unfold Retraced SameIds
    simp
  | cons h hops ih =>
    obtain ⟨hkeeps, hwaits⟩ := hwaits
    obtain ⟨hsame, hrest⟩ := ih (h.across_routable hk) h.source_across hwaits
    obtain ⟨hiff, hresult⟩ := retraced_cons hk hkeeps hrest
    have hid : (h.copy k true).id = h.outgoing.connection.counter + 1 := rfl
    have hold : (h.copy k true).oldId = k.id := rfl
    refine ⟨?_, ?_⟩
    · rw [hiff, hsame, h.id_across, hid, hold]
      cases hops with
      | nil =>
        unfold SameIds oldIdBehind
        simpa using h.oldId_across.trans hold
      | cons h' hops =>
        rw [sameIds_cons]
        change SameIds (h' :: hops) _ ∧ (h.across k true).id = k.id ↔ _
        rw [h.id_across, hid]
        constructor
        · rintro ⟨hsame, hfirst⟩
          exact ⟨hfirst, hfirst ▸ hsame⟩
        · rintro ⟨hfirst, hsame⟩
          exact ⟨hfirst ▸ hsame, hfirst⟩
    · intro hretraced
      obtain ⟨a, ha, hfind, hcopy⟩ := hresult hretraced
      have hset : (h.copy k true).source.isSet = true := hsource
      refine ⟨{ a with destination := (h.copy k true).source, id := a.oldId }, ?_, ?_⟩
      · unfold roundTrip
        rw [ha, Option.bind_some, Router.gives_downstream hcopy.phase hfind hset]
        rfl
      · exact { hcopy with id := hcopy.oldId, oldId := hcopy.oldId }

/-- **The result of a kernel finds its copies on the way back**, and comes to the first daemon with the id of
the kernel, if and only if there are at most two daemons, or the ids that the kernel has had along the
way, its old id, and that of the application, but not the last of them, are all the same. -/
theorem retraced_iff (hanswer : ∀ k, Routable k → IsResult k (answer k) k.id k.oldId) {hops : List (Hop P)}
    (hk : Routable k) (hwaits : Waits hops (k, false)) :
    (Retraced proc ppl answer hops (k, false) ∧ ReturnsId proc ppl answer hops k) ↔
      hops.length ≤ 1 ∨ k.oldId = k.id ∧ SameIds hops.tail k.id := by
  cases hops with
  | nil => simp [Retraced, ReturnsId]
  | cons h hops =>
    obtain ⟨hkeeps, hwaits⟩ := hwaits
    obtain ⟨hsame, hrest⟩ := retraced_routed hanswer (h.across_routable hk) h.source_across hwaits
    obtain ⟨hiff, hresult⟩ := retraced_cons hk hkeeps hrest
    have hreturns : Retraced proc ppl answer (h :: hops) (k, false) → ReturnsId proc ppl answer (h :: hops) k := by
      intro hretraced
      obtain ⟨a, ha, -, hcopy⟩ := hresult hretraced
      exact ⟨a, ha, hcopy.id⟩
    rw [and_iff_left_of_imp hreturns, hiff, hsame]
    change SameIds hops k.id ∧ oldIdBehind hops (h.across k false) = k.oldId ↔ _
    cases hops with
    | nil => simp [SameIds, oldIdBehind, Hop.oldId_across, Hop.copy, Router.relabel_false]
    | cons h' hops =>
      change SameIds (h' :: hops) k.id ∧ k.id = k.oldId ↔ _
      simp [eq_comm, and_comm]

end Retraced

/-! ### Two daemons, and three -/

/-- What a process makes of a kernel that it returns. -/
theorem isResult_returnToParent {P : Type} {k : Kernel P} (hk : Routable k) (code : ExitCode) :
    IsResult k (k.returnToParent code) k.id k.oldId := by
  have hnative := hk.isNative
  unfold Kernel.returnToParent
  split
  · exact ⟨rfl, hnative, rfl, rfl, rfl⟩
  · exact ⟨rfl, hnative, rfl, rfl, rfl⟩

/-- A client that keeps what goes upstream. -/
def Router.keeping (upstream : List (Kernel Unit)) : Router Unit where
  connection := { flags := { saveUpstreamKernels := true }, upstream }
  memory := Memory.blank

/-- A hop from the node 10.0.0.n to the next one, at the end of which the given kernels wait. -/
def Hop.between (n : UInt32) (upstream : List (Kernel Unit)) : Hop Unit where
  outgoing := .keeping []
  arriving := .keeping []
  returning := .keeping upstream
  address := ipv4SocketAddress (0x0A000000 + n) 33333
  back := ipv4SocketAddress (0x0A000001 + n) 33333
  isSet_address := rfl

/-- The first hop of a kernel of an application, which waits there. -/
def firstHop : Hop Unit := .between 1 [Kernel.stranger 5 []]

theorem routable_stranger : Routable (Kernel.stranger 5 []) := ⟨rfl, by decide, rfl, rfl⟩

theorem keeps_firstHop : firstHop.Keeps (firstHop.copy (Kernel.stranger 5 []) false) :=
  ⟨[], [], rfl, fun _ hb => absurd hb List.not_mem_nil⟩

/-- The second hop, where the kernel waits with its new id. -/
def secondHop : Hop Unit := .between 2 [(Hop.between 2 []).copy (firstHop.across (Kernel.stranger 5 []) false) true]

theorem keeps_secondHop :
    secondHop.Keeps (secondHop.copy (firstHop.across (Kernel.stranger 5 []) false) true) :=
  ⟨[], [], rfl, fun _ hb => absurd hb List.not_mem_nil⟩

/-- Two daemons: the result finds the kernel. -/
theorem retraced_two :
    letI := ByteOrder.littleEndian
    Retraced (Process.plain 0) {} (·.returnToParent .success) [firstHop] (Kernel.stranger 5 [], false) ∧
      ReturnsId (Process.plain 0) {} (·.returnToParent .success) [firstHop] (Kernel.stranger 5 []) := by
  let _ := ByteOrder.littleEndian
  have hanswer : ∀ k : Kernel Unit, Routable k → IsResult k (k.returnToParent .success) k.id k.oldId :=
    fun k hk => isResult_returnToParent hk .success
  have hwaits : Waits [firstHop] (Kernel.stranger 5 [], false) := ⟨keeps_firstHop, trivial⟩
  exact (retraced_iff hanswer routable_stranger hwaits).mpr (Or.inl le_rfl)

/-- **Three daemons**: the second one has put the old id of the kernel in the place of its id, and the result
carries it twice. It is not found for the kernel that waits at the first daemon. -/
theorem three_daemons :
    letI := ByteOrder.littleEndian
    Waits [firstHop, secondHop] (Kernel.stranger 5 [], false) ∧
      ¬ Retraced (Process.plain 0) {} (·.returnToParent .success) [firstHop, secondHop]
        (Kernel.stranger 5 [], false) := by
  let _ := ByteOrder.littleEndian
  refine ⟨⟨keeps_firstHop, keeps_secondHop, trivial⟩, ?_⟩
  rintro ⟨-, a, ha, hresult, -⟩
  have hnone : (firstHop.result (Process.plain 0) {}
      (roundTrip (Process.plain 0) {} (·.returnToParent .success) [secondHop]) (Kernel.stranger 5 [])
      false).map (·.isResultOf (Kernel.stranger 5 [])) = some false := by
    decide +kernel
  rw [ha] at hnone
  have hfalse : a.isResultOf (Kernel.stranger 5 []) = false := Option.some.inj hnone
  exact absurd (hfalse.symm.trans hresult) Bool.false_ne_true

end Subordination.Daemon
