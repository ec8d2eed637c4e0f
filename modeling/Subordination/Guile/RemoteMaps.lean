import Subordination.Guile.MapReduce
import Subordination.Guile.ScriptKernels

/-!
# Maps on other nodes

The children of a map are executed in other processes of the application (`Map_child_kernel::act`, `guile/kernel.cc`).
The connection of the process that has sent them keeps them, and takes each out when it comes back
(`core/connection.cc`).

## The model

What `map` makes of a procedure and some lists is a function, the same in every process. Map kernels stay in the
process of the main kernel, as they do unless `kernel-map` is told otherwise; their children leave it, in the order in
which they are made. The connection numbers what it sends with its counter, which does not come round to zero; other
kernels may be numbered in between. Frames are shorter than `2 ^ 32` bytes.

Daemons set the source, the destination and the applications of a kernel that they pass on. A kernel that is routed gets
a new id from the counter of a client, and its id becomes its old id; what was the old id is lost, so that a kernel
that has been routed need not be found when it comes back (`Daemon.Routing`). A child may also be lost, or executed more
than once, as it is when a node fails that has executed it already. It may be sent back with an error, which
`Map_kernel::react` does not look for.

## What is proved

* **`WireRun.runs_as_on_one_node`**: as long as no child is sent back with an error, a script over several nodes does
  what it does on one.
-/

namespace Subordination.Guile

open Subordination.Core Subordination.Library

variable [ByteOrder]

/-! ### Maps and their children -/

/-- A call of `kernel-map` with the objects of a script. -/
structure ScriptMap where
  /-- `_proc`. -/
  proc : Scm
  /-- `_lists`. -/
  lists : List (List Scm)
  /-- `_block_size`. -/
  blockSize : Option ℕ
  /-- `_pipeline`. -/
  childPipeline : Scm := .symbol "local"

/-- The call, given what `map` makes of a procedure and some lists. -/
def ScriptMap.call (apply : Scm → List Scm → Scm) (m : ScriptMap) : MapCall Scm Scm where
  map lists := apply m.proc (lists.map Scm.ofList)
  lists := m.lists
  blockSize := m.blockSize

/-- `make_pointer<Map_child_kernel>`, for a block of the lists. -/
def ScriptMap.child (m : ScriptMap) (lists : List (List Scm)) : ScriptState :=
  .mapChild {} m.proc (.ofList (lists.map .ofList)) m.childPipeline

/-- `Map_child_kernel::act`: the kernel that is sent back. -/
def actChild (apply : Scm → List Scm → Scm) (k : Kernel ScriptState) : Option (Kernel ScriptState) :=
  match k.payload with
  | .native index (.mapChild base proc lists pipeline) =>
    let state := ScriptState.mapChild { base with result := apply proc lists.toList } proc lists pipeline
    some (Kernel.returnToParent { k with payload := .native index state } .success)
  | _ => none

/-- A kernel that is on its way between two processes of one application. -/
structure Addressed (application : UInt64) (phase : Phases) (k : Kernel ScriptState) : Prop where
  /-- The phase. -/
  phase : k.phase = phase
  /-- The kernel is of the application. -/
  source : k.sourceApplicationId = application
  /-- It is for the application. -/
  target : k.targetApplicationId = application
  /-- No one sets a node filter. -/
  nodeFilter : k.nodeFilter = none
  /-- The parent stays where it is. -/
  carriesParent : k.carriesParent = false

/-- A kernel of a script, as its process sends it to another one of the same application. -/
structure IsSent (application : UInt64) (phase : Phases) (state : ScriptState) (k : Kernel ScriptState) : Prop
    extends Addressed application phase k where
  /-- The class, and what it adds. -/
  payload : k.payload = .native state.type.index state

/-- The kernel is written as a frame whose size fits. -/
def IsFrame (proc : Process ScriptState) (k : Kernel ScriptState) (frame : List UInt8) : Prop :=
  ∃ mem, proc.encode mem k = some frame ∧ ∀ body, Writes (proc.write mem k) body → kernelFraming.Fits body

/-- What daemons do to a foreign kernel before they send it on. -/
inductive Passes : Kernel ScriptState → Kernel ScriptState → Prop
  /-- `read_kernel`. -/
  | source (k : Kernel ScriptState) (source : SocketAddress) : Passes k { k with source }
  /-- `process_handler::read_kernel` and `process_handler::forward`: an application takes the place of its id, or the
  other way round. -/
  | applications {k : Kernel ScriptState} {sourceApplication targetApplication : ApplicationSlot} :
      sourceApplication.toId = k.sourceApplicationId → targetApplication.toId = k.targetApplicationId →
      Passes k { k with sourceApplication, targetApplication }
  /-- `socket_pipeline_client::forward`: a kernel that is routed gets a new id. -/
  | label {k : Kernel ScriptState} {id : UInt64} : k.phase = .upstream → id ≠ 0 → Passes k { k with oldId := k.id, id }
  /-- `receive_downstream_foreign_kernel`: its result gets the old one. -/
  | unlabel {k : Kernel ScriptState} (destination : SocketAddress) : k.phase = .downstream →
      Passes k { k with destination, id := k.oldId }

/-! ### Runs -/

/-- A map kernel, and the children of it that its process waits for. -/
structure WireMap where
  /-- What the kernel was made of. -/
  map : ScriptMap
  /-- Where it is. -/
  phase : Phase Scm := .queued
  /-- The children that it has made and that have not been sent. -/
  pending : List (List (List Scm)) := []
  /-- The kernels of `_upstream` of which it is the parent: their ids and their lists. -/
  upstream : List (UInt64 × List (List Scm)) := []

/-- The same kernel, as if the children that it waits for had not been executed. -/
def WireMap.toMapRun (apply : Scm → List Scm → Scm) (m : WireMap) : MapRun Scm Scm where
  call := m.map.call apply
  phase := m.phase
  children := m.upstream.map Prod.snd ++ m.pending

/-- A run of a script whose children go to other processes. -/
structure WireRun (β : Type) where
  /-- The main kernel. -/
  main : KernelBase Scm Scm β
  /-- The map kernels that it has sent. -/
  maps : List WireMap
  /-- What has become of the main kernel, once it is done. -/
  outcome : Option (Outcome β) := none
  /-- The results with which the postamble has been called. -/
  postambles : List β := []
  /-- `_counter` of the connection. -/
  counter : UInt64 := 0
  /-- The children that have been sent: their ids, their maps and their lists. -/
  children : List (UInt64 × ScriptMap × List (List Scm)) := []
  /-- The frames that have been written. -/
  frames : List (List UInt8) := []
  /-- A child has been sent back with an error. -/
  failed : Bool := false

namespace WireRun

variable {β : Type}

/-- The same kernels, as if the children that are waited for had not been executed. -/
def toRun (apply : Scm → List Scm → Scm) (w : WireRun β) : Run Scm Scm β where
  main := w.main
  maps := w.maps.map (WireMap.toMapRun apply)
  outcome := w.outcome
  postambles := w.postambles

/-- `Main::act`. -/
def start (apply : Scm → List Scm → Scm) (unspecified : β) (hasParent : Bool) (maps : List ScriptMap)
    (proc : List Scm → β → β) (initial : β) : WireRun β :=
  let s := Run.start unspecified hasParent (mapsAndReact (maps.map (ScriptMap.call apply)) proc initial)
  { main := s.main, maps := maps.map fun map => { map }, outcome := s.outcome }

/-- A step of a run. A frame that has been written may be read at any time, by any process, any number of times. -/
inductive Step (apply : Scm → List Scm → Scm) (guile : Conversions) (application : UInt64) :
    WireRun β → WireRun β → Prop
  /-- `Map_kernel::act`. -/
  | act {w : WireRun β} {before after : List WireMap} {m : WireMap} {k : MapKernel Scm}
      {blocks : List (List (List Scm))} : w.maps = before ++ m :: after → m.phase = .queued →
      act m.map.lists m.map.blockSize = some (k, blocks) →
      Step apply guile application w { w with
        maps := before ++ { m with phase := .running k, pending := m.pending ++ blocks } :: after }
  /-- `connection::send`: the child gets an id and is kept. One that cannot be written has no frame. -/
  | send {w : WireRun β} {before after : List WireMap} {m : WireMap} {block : List (List Scm)}
      {rest : List (List (List Scm))} {k : Kernel ScriptState} {frames : List (List UInt8)} :
      w.maps = before ++ m :: after → m.pending = block :: rest →
      IsSent application .upstream (m.map.child block) k → k.oldId = 0 → w.counter < k.id →
      (∀ frame ∈ frames, IsFrame (scriptProcess guile application) k frame) →
      Step apply guile application w { w with
        maps := before ++ { m with pending := rest, upstream := m.upstream ++ [(k.id, block)] } :: after
        counter := k.id
        children := w.children ++ [(k.id, m.map, block)]
        frames := w.frames ++ frames }
  /-- A daemon passes a kernel on. -/
  | relay {w : WireRun β} {frame frame' : List UInt8} {daemon : Process ScriptState} {d : Decoded ScriptState}
      {k : Kernel ScriptState} : frame ∈ w.frames → daemon.thisApplication ≠ application →
      daemon.decode frame = some d → Relation.ReflTransGen Passes d.received.kernel k → IsFrame daemon k frame' →
      Step apply guile application w { w with frames := w.frames ++ [frame'] }
  /-- A process reads a child, executes it and sends it back. -/
  | execute {w : WireRun β} {frame frame' : List UInt8} {d : Decoded ScriptState} {k : Kernel ScriptState} :
      frame ∈ w.frames → (scriptProcess guile application).decode frame = some d →
      d.received.kernel.phase = .upstream → actChild apply d.received.kernel = some k →
      IsFrame (scriptProcess guile application) k frame' →
      Step apply guile application w { w with frames := w.frames ++ [frame'] }
  /-- A daemon sends a child back with an error. -/
  | fail {w : WireRun β} {frame frame' : List UInt8} {daemon : Process ScriptState} {mem : Memory ScriptState}
      {d : Decoded ScriptState} (code : ExitCode) : frame ∈ w.frames → daemon.decode frame = some d →
      daemon.encode mem (d.received.kernel.returnToParent code) = some frame' →
      Step apply guile application w { w with frames := w.frames ++ [frame'], failed := true }
  /-- `plug_parent` and `Map_kernel::react`: a child that has come back is found by its id, and by its old id, which a
  child that is kept has not. -/
  | react {w : WireRun β} {before after : List WireMap} {m : WireMap} {k : MapKernel Scm} {frame : List UInt8}
      {d : Decoded ScriptState} {index : String} {base : BaseState} {proc lists pipeline : Scm}
      {before' after' : List (UInt64 × List (List Scm))} {block : List (List Scm)} :
      frame ∈ w.frames → (scriptProcess guile application).decode frame = some d →
      d.received.kernel.phase = .downstream → d.received.kernel.oldId = 0 →
      d.received.kernel.payload = .native index (.mapChild base proc lists pipeline) →
      w.maps = before ++ m :: after → m.phase = .running k →
      m.upstream = before' ++ (d.received.kernel.id, block) :: after' →
      Step apply guile application w { w with
        maps := before ++ { m with
          phase := if (k.react base.result).2 then .returned (k.react base.result).1.result
            else .running (k.react base.result).1
          upstream := before' ++ after' } :: after }
  /-- A map kernel that comes back, while the main kernel is there. -/
  | main {w : WireRun β} {before after : List WireMap} {m : WireMap} {result : List Scm} : w.outcome = none →
      w.maps = before ++ m :: after → m.phase = .returned result →
      Step apply guile application w { w with
        main := ((w.toRun apply).receive result []).main
        maps := before ++ { m with phase := .received } :: after
        outcome := ((w.toRun apply).receive result []).outcome
        postambles := ((w.toRun apply).receive result []).postambles }

/-- The runs of a script. -/
def system (apply : Scm → List Scm → Scm) (guile : Conversions) (application : UInt64) (unspecified : β)
    (hasParent : Bool) (maps : List ScriptMap) (proc : List Scm → β → β) (initial : β) : System (WireRun β) where
  Initial w := w = start apply unspecified hasParent maps proc initial
  Step := Step apply guile application

end WireRun

/-! ### What a frame carries -/

section Frames

variable {guile : Conversions} {application : UInt64} {phase : Phases} {state : ScriptState} {k : Kernel ScriptState}
  {id : UInt64} {frame : List UInt8}

/-- The ids of a kernel that was sent with the given one: daemons that give it another one give it an old id. -/
structure Labelled (id : UInt64) (k : Kernel ScriptState) : Prop where
  /-- Without an old id it has its own, or none. -/
  own : k.oldId = 0 → k.id = id ∨ k.id = 0
  /-- On its way to where it is executed it has one. -/
  hasId : k.phase = .upstream → k.id ≠ 0

/-- The frame of a kernel that was sent with the given id, which a process or a daemon has written. -/
def Carries (guile : Conversions) (application : UInt64) (phase : Phases) (state : ScriptState) (id : UInt64)
    (frame : List UInt8) : Prop :=
  ∃ k mem, IsSent application phase state k ∧ Labelled id k ∧ state.Writable guile ∧
    kernelFraming.Fits (k.packet mem state.type.id state.bytes) ∧
    frame = kernelFraming.frame (k.packet mem state.type.id state.bytes)

omit [ByteOrder] in
theorem type_mem (state : ScriptState) : state.type ∈ [mainType, mapType, mapChildType] := by
  cases state with
  | main base => exact List.mem_cons_self
  | map base proc lists pipeline blockSize numKernels => exact List.mem_cons_of_mem _ List.mem_cons_self
  | mapChild base proc lists pipeline =>
    exact List.mem_cons_of_mem _ (List.mem_cons_of_mem _ (List.mem_singleton_self _))

/-- A kernel with an object that cannot be written is not written. -/
theorem IsSent.fails_write (hk : IsSent application phase state k) (hfails : Fails (state.write guile))
    (mem : Memory ScriptState) : Fails ((scriptProcess guile application).write mem k) := by
  have hname : k.typeName = state.type.index := by rw [Kernel.typeName, hk.payload]
  refine .after (writes_bytes _) ?_
  rw [if_pos (Kernel.isNative_of_native hk.payload)]
  refine Fails.seq ?_
  rw [Process.writeNative]
  simp only [scriptProcess, hname, KernelTypeRegistry.findIndex_of_mem (r := { types := _ }) (type_mem state)]
  refine .after (writes_bytes _) ?_
  rw [Kernel.write, hk.payload]
  exact .after (writes_bytes _) hfails

theorem Fails.not_encoded {mem : Memory ScriptState}
    (h : Fails ((scriptProcess guile application).write mem k)) :
    (scriptProcess guile application).encode mem k = none := by
  obtain ⟨x, b, hx⟩ := h (ByteBuffer.empty.bump 4) (ByteBuffer.empty.position_le_bump 4)
  rw [Process.encode, writeFrame, hx]

theorem IsSent.writes (hk : IsSent application phase state k) (hwritable : state.Writable guile)
    (mem : Memory ScriptState) :
    Writes ((scriptProcess guile application).write mem k) (k.packet mem state.type.id state.bytes) := by
  have hwrites : Writes ((scriptProcess guile application).write mem k)
      (k.packet mem state.type.id (state.bytes ++ [])) :=
    Process.writes_packet rfl (type_mem state) hk.payload (ScriptState.writes hwritable)
      (Process.writes_no_parent hk.carriesParent)
  rwa [List.append_nil] at hwrites

/-- **A frame carries the kernel that was written**, whatever objects are in it: what cannot be written has no
frame. -/
theorem IsSent.carries (hk : IsSent application phase state k) (hlabel : Labelled id k)
    (hframe : IsFrame (scriptProcess guile application) k frame) :
    Carries guile application phase state id frame := by
  obtain ⟨mem, hencode, hfits⟩ := hframe
  have hwritable : state.Writable guile := by
    by_contra h
    rw [(hk.fails_write (ScriptState.fails h) mem).not_encoded] at hencode
    cases hencode
  have hwrites := hk.writes hwritable mem
  have hsize := hfits _ hwrites
  have heq := Process.encode_eq (writes_frame hwrites Kernel.packet_ne_nil hsize)
  rw [hencode, Option.some.injEq] at heq
  exact ⟨k, mem, hk, hlabel, hwritable, hsize, heq⟩

/-- The other way round. -/
theorem IsSent.isFrame (hk : IsSent application phase state k) (hwritable : state.Writable guile)
    (mem : Memory ScriptState) (hsize : kernelFraming.Fits (k.packet mem state.type.id state.bytes)) :
    IsFrame (scriptProcess guile application) k
      (kernelFraming.frame (k.packet mem state.type.id state.bytes)) := by
  have hwrites := hk.writes hwritable mem
  exact ⟨mem, Process.encode_eq (writes_frame hwrites Kernel.packet_ne_nil hsize), fun body hbody =>
    hbody.unique hwrites ▸ hsize⟩

theorem IsSent.encodable (hk : IsSent application phase state k) {mem : Memory ScriptState} {bs : List UInt8}
    (hsize : kernelFraming.Fits (k.packet mem state.type.id bs)) : k.Encodable := by
  have hlt : 4 + (k.packet mem state.type.id bs).length < 2 ^ 32 := hsize
  have hlength : (k.packet mem state.type.id bs).length < 2 ^ 64 := by omega
  exact Kernel.encodable_of_length hlength fun e he => absurd (hk.nodeFilter.symm.trans he) nofun

omit [ByteOrder] in
/-- **What daemons do to a kernel** leaves what is in it, and where it is to go. -/
theorem Passes.keeps {k' : Kernel ScriptState} (h : Passes k k') (hk : Addressed application phase k)
    (hlabel : Labelled id k) : Addressed application phase k' ∧ Labelled id k' ∧ k'.payload = k.payload ∧
      k'.typeId = k.typeId := by
  cases h with
  | source source =>
    exact ⟨⟨hk.phase, hk.source, hk.target, hk.nodeFilter, hk.carriesParent⟩, ⟨hlabel.own, hlabel.hasId⟩, rfl, rfl⟩
  | applications hsource htarget =>
    exact ⟨⟨hk.phase, hsource.trans hk.source, htarget.trans hk.target, hk.nodeFilter, hk.carriesParent⟩,
      ⟨hlabel.own, hlabel.hasId⟩, rfl, rfl⟩
  | label hup hid =>
    -- its id becomes its old id, so that it has one
    exact ⟨⟨hk.phase, hk.source, hk.target, hk.nodeFilter, hk.carriesParent⟩,
      ⟨fun hold => absurd hold (hlabel.hasId hup), fun _ => hid⟩, rfl, rfl⟩
  | unlabel destination hdown =>
    refine ⟨⟨hk.phase, hk.source, hk.target, hk.nodeFilter, hk.carriesParent⟩, ⟨Or.inr, fun hup => ?_⟩, rfl, rfl⟩
    exact absurd (hdown.symm.trans hup) (by decide)

omit [ByteOrder] in
theorem Passes.keeps_all {k' : Kernel ScriptState} (h : Relation.ReflTransGen Passes k k')
    (hk : Addressed application phase k) (hlabel : Labelled id k) :
    Addressed application phase k' ∧ Labelled id k' ∧ k'.payload = k.payload ∧ k'.typeId = k.typeId := by
  induction h with
  | refl => exact ⟨hk, hlabel, rfl, rfl⟩
  | tail _ hstep ih =>
    obtain ⟨hk', hlabel', hpayload, htype⟩ := ih
    obtain ⟨hk'', hlabel'', hpayload', htype'⟩ := hstep.keeps hk' hlabel'
    exact ⟨hk'', hlabel'', hpayload'.trans hpayload, htype'.trans htype⟩

/-- **A daemon that passes a kernel on** writes another frame of it. -/
theorem Carries.relay (h : Carries guile application phase state id frame) {daemon : Process ScriptState}
    {d : Decoded ScriptState} {frame' : List UInt8} (hdaemon : daemon.thisApplication ≠ application)
    (hdecode : daemon.decode frame = some d) (hpasses : Relation.ReflTransGen Passes d.received.kernel k)
    (hframe : IsFrame daemon k frame') : Carries guile application phase state id frame' := by
  obtain ⟨k₀, mem, hk₀, hlabel, hwritable, hsize, rfl⟩ := h
  have htarget : k₀.targetApplicationId ≠ daemon.thisApplication := fun heq => hdaemon (heq.symm.trans hk₀.target)
  have hheld := (hop (d := (daemon, mem)) (hk₀.encodable hsize) hsize htarget).1 []
  rw [List.append_nil, hdecode, Option.some.injEq] at hheld
  rw [hheld] at hpasses
  -- the foreign kernel that the daemon holds
  have haddressed : Addressed application phase (k₀.asForeign mem state.type.id state.bytes) :=
    ⟨hk₀.phase, (ApplicationSlot.toId_sent _).trans hk₀.source, (ApplicationSlot.toId_sent _).trans hk₀.target,
      hk₀.nodeFilter, Kernel.carriesParent_asForeign.trans hk₀.carriesParent⟩
  obtain ⟨hk, hlabel', hpayload, htype⟩ := Passes.keeps_all hpasses haddressed ⟨hlabel.own, hlabel.hasId⟩
  obtain ⟨mem', hencode, hfits⟩ := hframe
  have hwrites : Writes (daemon.write mem' k) (k.packet mem' state.type.id state.bytes) := by
    have hforeign : Writes (daemon.write mem' k) (k.packet mem' k.typeId state.bytes) :=
      Process.writes_foreign hpayload
    rwa [htype] at hforeign
  have heq := Process.encode_eq (writes_frame hwrites Kernel.packet_ne_nil (hfits _ hwrites))
  rw [hencode, Option.some.injEq] at heq
  exact ⟨{ k with payload := .native state.type.index state }, mem',
    ⟨⟨hk.phase, hk.source, hk.target, hk.nodeFilter, hk.carriesParent⟩, rfl⟩, ⟨hlabel'.own, hlabel'.hasId⟩,
    hwritable, hfits _ hwrites, heq⟩

/-- **What a process of the application reads.** -/
theorem IsSent.decode_frame (hk : IsSent application phase state k) (hwritable : state.Writable guile)
    (hwhole : state.IsWhole) {mem : Memory ScriptState}
    (hsize : kernelFraming.Fits (k.packet mem state.type.id state.bytes)) :
    (scriptProcess guile application).decode (kernelFraming.frame (k.packet mem state.type.id state.bytes)) =
      some
        { received := { kernel := k.asNative (scriptProcess guile application) mem state.type state }
          unread := [], rest := [] } := by
  have hread : ReadsAll (scriptProcess guile application).read (k.packet mem state.type.id state.bytes)
      { kernel := k.asNative (scriptProcess guile application) mem state.type state } :=
    Process.read_native (hk.encodable hsize) hk.target rfl (type_mem state) (ScriptState.reads hwritable hwhole)
      hk.carriesParent
  have hdecode : (scriptProcess guile application).decode (kernelFraming.frame _ ++ []) = some _ :=
    Process.decode_frame hread hsize
  rwa [List.append_nil] at hdecode

theorem IsSent.asNative (hk : IsSent application phase state k) (mem : Memory ScriptState) :
    IsSent application phase state (k.asNative (scriptProcess guile application) mem state.type state) where
  payload := rfl
  phase := hk.phase
  source := (ApplicationSlot.toId_sent _).trans hk.source
  target := (ApplicationSlot.toId_sent _).trans hk.target
  nodeFilter := hk.nodeFilter
  carriesParent := by rw [Process.carriesParent_asNative, hk.carriesParent]

/-- **A process of the application reads the kernel that was sent.** -/
theorem Carries.decode (h : Carries guile application phase state id frame) (hwhole : state.IsWhole) :
    ∃ k, IsSent application phase state k ∧ Labelled id k ∧
      (scriptProcess guile application).decode frame =
        some { received := { kernel := k }, unread := [], rest := [] } := by
  obtain ⟨k, mem, hk, hlabel, hwritable, hsize, rfl⟩ := h
  exact ⟨_, hk.asNative mem, ⟨hlabel.own, hlabel.hasId⟩, hk.decode_frame hwritable hwhole hsize⟩

/-! ### Children that have been executed -/

/-- The state of a child that has been executed. -/
def ScriptMap.executed (apply : Scm → List Scm → Scm) (m : ScriptMap) (lists : List (List Scm)) : ScriptState :=
  .mapChild { result := childAct (m.call apply).map lists } m.proc (.ofList (lists.map .ofList)) m.childPipeline

omit [ByteOrder] in
theorem toList_ofList (xs : List Scm) : (Scm.ofList xs).toList = xs := by
  induction xs with
  | nil => rfl
  | cons x xs ih => rw [Scm.ofList, Scm.toList, ih]

omit [ByteOrder] in
/-- A kernel that is returned still carries its parent, if it does. -/
theorem returnToParent_eq (k : Kernel ScriptState) (ret : ExitCode) : ∃ flags,
    k.returnToParent ret =
      { k with
        principalWord := k.parentWord, flags, result := ret, destination := k.source, phase := .downstream,
        sourceApplication := k.targetApplication, targetApplication := k.sourceApplication } ∧
    flags.isset .carriesParent = k.carriesParent := by
  rw [Kernel.returnToParent]
  split
  · exact ⟨k.flags.setf .principalIsId, rfl, by simp [Kernel.carriesParent, Kernel.isset]⟩
  · exact ⟨k.flags.unsetf .principalIsId, rfl, by simp [Kernel.carriesParent, Kernel.isset]⟩

omit [ByteOrder] in
theorem IsSent.returnToParent (hk : IsSent application phase state k) (state' : ScriptState)
    (htype : state'.type = state.type) (ret : ExitCode) :
    IsSent application .downstream state'
      (Kernel.returnToParent { k with payload := .native state.type.index state' } ret) ∧
    (Kernel.returnToParent { k with payload := .native state.type.index state' } ret).id = k.id ∧
    (Kernel.returnToParent { k with payload := .native state.type.index state' } ret).oldId = k.oldId := by
  obtain ⟨flags, heq, hflags⟩ := returnToParent_eq { k with payload := .native state.type.index state' } ret
  rw [heq]
  exact ⟨⟨⟨rfl, hk.target, hk.source, hk.nodeFilter, hflags.trans hk.carriesParent⟩, by rw [htype]⟩, rfl, rfl⟩

omit [ByteOrder] in
/-- **A child that is executed goes back to the application with its result.** -/
theorem IsSent.actChild {apply : Scm → List Scm → Scm} {m : ScriptMap} {lists : List (List Scm)}
    {k' : Kernel ScriptState} (hk : IsSent application phase (m.child lists) k)
    (hact : Guile.actChild apply k = some k') :
    IsSent application .downstream (m.executed apply lists) k' ∧ k'.id = k.id ∧ k'.oldId = k.oldId := by
  rw [Guile.actChild, hk.payload] at hact
  simp only [ScriptMap.child, toList_ofList, Option.some.injEq] at hact
  rw [← hact]
  exact hk.returnToParent (m.executed apply lists) rfl .success

omit [ByteOrder] in
/-- It keeps its ids. -/
theorem Labelled.back {k' : Kernel ScriptState} (h : Labelled id k) (hid : k'.id = k.id) (hold : k'.oldId = k.oldId)
    (hphase : k'.phase = .downstream) : Labelled id k' where
  own hnone := hid ▸ h.own (hold ▸ hnone)
  hasId hup := absurd (hphase.symm.trans hup) (by decide)

end Frames

/-! ### Children that come back -/

namespace WireRun

variable {β : Type} {apply : Scm → List Scm → Scm} {guile : Conversions} {application : UInt64} {w w' : WireRun β}

/-- What holds in every run. -/
structure Valid (apply : Scm → List Scm → Scm) (guile : Conversions) (application : UInt64) (w : WireRun β) : Prop where
  /-- No two children have the same id. -/
  nodup : (w.children.map Prod.fst).Nodup
  /-- The ids come from the counter. -/
  counted : ∀ x ∈ w.children, 0 < x.1 ∧ x.1 ≤ w.counter
  /-- The kernels that are waited for are children of their parents. -/
  upstream : ∀ m ∈ w.maps, ∀ x ∈ m.upstream, (x.1, m.map, x.2) ∈ w.children
  /-- The frames carry children, or children with their results. -/
  frames : ∀ frame ∈ w.frames, ∃ x ∈ w.children,
    Carries guile application .upstream (x.2.1.child x.2.2) x.1 frame ∨
      Carries guile application .downstream (x.2.1.executed apply x.2.2) x.1 frame

/-- What a process reads is a child, or a child with its result. -/
theorem Valid.read (hw : w.Valid apply guile application) {frame : List UInt8} {d : Decoded ScriptState}
    (hframe : frame ∈ w.frames) (hdecode : (scriptProcess guile application).decode frame = some d) :
    ∃ x ∈ w.children, Labelled x.1 d.received.kernel ∧
      (IsSent application .upstream (x.2.1.child x.2.2) d.received.kernel ∨
        IsSent application .downstream (x.2.1.executed apply x.2.2) d.received.kernel) := by
  obtain ⟨x, hx, hcarries | hcarries⟩ := hw.frames frame hframe
  · obtain ⟨k, hk, hlabel, hdecode'⟩ := hcarries.decode trivial
    rw [hdecode', Option.some.injEq] at hdecode
    subst hdecode
    exact ⟨x, hx, hlabel, Or.inl hk⟩
  · obtain ⟨k, hk, hlabel, hdecode'⟩ := hcarries.decode trivial
    rw [hdecode', Option.some.injEq] at hdecode
    subst hdecode
    exact ⟨x, hx, hlabel, Or.inr hk⟩

/-- **The result that is taken is that of the child that is waited for.** -/
theorem Valid.result_eq (hw : w.Valid apply guile application) {frame : List UInt8} {d : Decoded ScriptState}
    {index : String} {base : BaseState} {proc lists pipeline : Scm} {m : WireMap} {block : List (List Scm)}
    (hframe : frame ∈ w.frames) (hdecode : (scriptProcess guile application).decode frame = some d)
    (hphase : d.received.kernel.phase = .downstream) (hold : d.received.kernel.oldId = 0)
    (hpayload : d.received.kernel.payload = .native index (.mapChild base proc lists pipeline)) (hm : m ∈ w.maps)
    (hblock : (d.received.kernel.id, block) ∈ m.upstream) : base.result = childAct (m.map.call apply).map block := by
  obtain ⟨x, hx, hlabel, hk⟩ := hw.read hframe hdecode
  -- it is downstream, so that it has been executed
  replace hk := hk.resolve_left fun hk => absurd (hk.phase.symm.trans hphase) (by decide)
  have hchild := hw.upstream m hm _ hblock
  have hpos : d.received.kernel.id ≠ 0 := (UInt64.ne_of_lt (hw.counted _ hchild).1).symm
  have hid : d.received.kernel.id = x.1 := (hlabel.own hold).resolve_right hpos
  -- there is one child with this id
  have hsame : x = (d.received.kernel.id, m.map, block) := List.inj_on_of_nodup_map hw.nodup hx hchild hid.symm
  rw [hk.payload, hsame] at hpayload
  injection hpayload with _ hstate
  injection hstate with hbase
  rw [← hbase]

/-- Frames that are written say what they have to. -/
theorem Valid.write (hw : w.Valid apply guile application) {x : UInt64 × ScriptMap × List (List Scm)}
    {frame : List UInt8} (hx : x ∈ w.children)
    (hcarries : Carries guile application .upstream (x.2.1.child x.2.2) x.1 frame ∨
      Carries guile application .downstream (x.2.1.executed apply x.2.2) x.1 frame) :
    { w with frames := w.frames ++ [frame] }.Valid apply guile application := by
  refine ⟨hw.nodup, hw.counted, hw.upstream, fun frame' hframe' => ?_⟩
  rcases List.mem_append.1 hframe' with hframe' | hframe'
  · exact hw.frames frame' hframe'
  · obtain rfl := List.mem_singleton.1 hframe'
    exact ⟨x, hx, hcarries⟩

/-- The next id is that of no child. -/
theorem Valid.nodup_append (hw : w.Valid apply guile application) {id : UInt64} (hid : w.counter < id)
    (m : ScriptMap) (block : List (List Scm)) : ((w.children ++ [(id, m, block)]).map Prod.fst).Nodup := by
  rw [List.map_append, List.nodup_append']
  refine ⟨hw.nodup, List.nodup_singleton id, fun id' hold hnew => ?_⟩
  obtain rfl := List.mem_singleton.1 hnew
  obtain ⟨x, hx, rfl⟩ := List.mem_map.1 hold
  exact absurd (UInt64.lt_of_lt_of_le hid (hw.counted x hx).2) (UInt64.lt_irrefl _)

omit [ByteOrder] in
/-- What holds of all maps holds of all maps when one of them goes on, if it holds of that one. -/
theorem forall_mem_maps {P : WireMap → Prop} {before after : List WireMap} {m m' : WireMap}
    (hmaps : w.maps = before ++ m :: after) (h : ∀ m ∈ w.maps, P m) (hm : P m → P m') :
    ∀ x ∈ before ++ m' :: after, P x := by
  rw [hmaps] at h
  intro x hx
  rcases List.mem_append.1 hx with hx | hx
  · exact h x (List.mem_append_left _ hx)
  · rcases List.mem_cons.1 hx with rfl | hx
    · exact hm (h m (List.mem_append_right before List.mem_cons_self))
    · exact h x (List.mem_append_right before (List.mem_cons_of_mem m hx))

theorem Valid.step (hw : w.Valid apply guile application) (h : Step apply guile application w w')
    (hfailed : w'.failed = false) : w'.Valid apply guile application := by
  cases h with
  | fail code _ _ _ => cases hfailed
  | @act before after m k blocks hmaps hphase hact =>
    exact ⟨hw.nodup, hw.counted, forall_mem_maps hmaps hw.upstream fun hm => hm, hw.frames⟩
  | @send before after m block rest k frames hmaps hpending hk hold hcounter hframes =>
    have hpos : 0 < k.id := UInt64.lt_of_le_of_lt UInt64.zero_le hcounter
    have hlabel : Labelled k.id k := ⟨fun _ => Or.inl rfl, fun _ => (UInt64.ne_of_lt hpos).symm⟩
    refine ⟨hw.nodup_append hcounter m.map block, fun x hx => ?_, ?_, fun frame hframe => ?_⟩
    · rcases List.mem_append.1 hx with hx | hx
      · exact ⟨(hw.counted x hx).1, UInt64.le_trans (hw.counted x hx).2 (UInt64.le_of_lt hcounter)⟩
      · obtain rfl := List.mem_singleton.1 hx
        exact ⟨hpos, UInt64.le_refl _⟩
    · refine forall_mem_maps hmaps (fun m' hm' x hx => List.mem_append_left _ (hw.upstream m' hm' x hx)) ?_
      intro hupstream x hx
      rcases List.mem_append.1 hx with hx | hx
      · exact hupstream x hx
      · obtain rfl := List.mem_singleton.1 hx
        exact List.mem_append_right _ (List.mem_singleton_self _)
    · rcases List.mem_append.1 hframe with hframe | hframe
      · obtain ⟨x, hx, hcarries⟩ := hw.frames frame hframe
        exact ⟨x, List.mem_append_left _ hx, hcarries⟩
      · exact ⟨_, List.mem_append_right _ (List.mem_singleton_self _),
          Or.inl (hk.carries hlabel (hframes frame hframe))⟩
  | @relay frame frame' daemon d k hframe hdaemon hdecode hpasses hframe' =>
    obtain ⟨x, hx, hcarries⟩ := hw.frames frame hframe
    exact hw.write hx
      (hcarries.imp (·.relay hdaemon hdecode hpasses hframe') (·.relay hdaemon hdecode hpasses hframe'))
  | @execute frame frame' d k hframe hdecode hphase hact hframe' =>
    obtain ⟨x, hx, hlabel, hk⟩ := hw.read hframe hdecode
    replace hk := hk.resolve_right fun hk => absurd (hk.phase.symm.trans hphase) (by decide)
    obtain ⟨hk', hid, hold⟩ := hk.actChild hact
    exact hw.write hx (Or.inr (hk'.carries (hlabel.back hid hold hk'.phase) hframe'))
  | @react before after m k frame d index base proc lists pipeline before' after' block _ _ _ _ _ hmaps _ hupstream =>
    refine ⟨hw.nodup, hw.counted, forall_mem_maps hmaps hw.upstream fun hm x hx => hm x ?_, hw.frames⟩
    rw [hupstream]
    exact (List.mem_append.1 hx).elim (List.mem_append_left _) fun hx =>
      List.mem_append_right _ (List.mem_cons_of_mem _ hx)
  | @main before after m result _ hmaps _ =>
    exact ⟨hw.nodup, hw.counted, forall_mem_maps hmaps hw.upstream fun hm => hm, hw.frames⟩

/-! ### The run on one node -/

omit [ByteOrder] in
theorem toRun_maps (w : WireRun β) (apply : Scm → List Scm → Scm) {before after : List WireMap} {m : WireMap}
    (hmaps : w.maps = before ++ m :: after) : (w.toRun apply).maps =
      before.map (WireMap.toMapRun apply) ++ m.toMapRun apply :: after.map (WireMap.toMapRun apply) := by
  rw [toRun, hmaps, List.map_append, List.map_cons]

/-- **A step is followed** by the run in which kernels come back as they were sent: when a child is taken it is
executed first, and what happens to frames is not seen. -/
theorem Valid.follows (hw : w.Valid apply guile application) (h : Step apply guile application w w') :
    Relation.ReflTransGen Run.Step (w.toRun apply) (w'.toRun apply) := by
  cases h with
  | @act before after m k blocks hmaps hphase hact =>
    have hstep := Run.Step.map (w.toRun_maps apply hmaps) (.act hphase hact)
    refine .single ?_
    simpa only [toRun, WireMap.toMapRun, List.map_append, List.map_cons, List.append_assoc] using hstep
  | @send before after m block rest k frames hmaps hpending _ _ _ _ =>
    -- a child that is sent has not been executed yet
    have hsame : ({ m with pending := rest, upstream := m.upstream ++ [(k.id, block)] } : WireMap).toMapRun apply =
        m.toMapRun apply := by
      simp only [WireMap.toMapRun, hpending, List.map_append, List.map_cons, List.map_nil, List.append_assoc,
        List.singleton_append]
    simp only [toRun, List.map_append, List.map_cons, hsame, hmaps]
    exact .refl
  | relay _ _ _ _ _ => exact .refl
  | execute _ _ _ _ _ => exact .refl
  | fail code _ _ _ => exact .refl
  | @react before after m k frame d index base proc lists pipeline before' after' block hframe hdecode hdown hold
      hpayload hmaps hphase hupstream =>
    have hresult : base.result = childAct (m.map.call apply).map block :=
      hw.result_eq hframe hdecode hdown hold hpayload (hmaps ▸ List.mem_append_right before List.mem_cons_self)
        (hupstream ▸ List.mem_append_right before' List.mem_cons_self)
    have hchildren : (m.toMapRun apply).children =
        before'.map Prod.snd ++ block :: (after'.map Prod.snd ++ m.pending) := by
      rw [WireMap.toMapRun, hupstream, List.map_append, List.map_cons, List.append_assoc, List.cons_append]
    have hchild := Run.Step.map (w.toRun_maps apply hmaps) (.child hchildren)
    refine .tail (.single hchild) ?_
    -- the map kernel when the child has been executed
    let r : MapRun Scm Scm :=
      { m.toMapRun apply with
        children := before'.map Prod.snd ++ (after'.map Prod.snd ++ m.pending)
        back := [] ++ [childAct (m.map.call apply).map block] }
    have hback : r.back = [] ++ childAct (m.map.call apply).map block :: [] := rfl
    have hreact := Run.Step.map (s := { w.toRun apply with
      maps := before.map (WireMap.toMapRun apply) ++ r :: after.map (WireMap.toMapRun apply) }) rfl
      (.react hphase hback)
    simp only [toRun, WireMap.toMapRun, List.map_append, List.map_cons, hresult, List.append_assoc]
    exact hreact
  | @main before after m result hnone hmaps hphase =>
    have hstep := Run.Step.react (s := w.toRun apply) hnone (w.toRun_maps apply hmaps) hphase
    refine .single ?_
    simpa only [toRun, WireMap.toMapRun, List.map_append, List.map_cons, Run.receive] using hstep

variable {unspecified initial : β} {hasParent : Bool} {maps : List ScriptMap} {proc : List Scm → β → β}

omit [ByteOrder] in
theorem toRun_start : (start apply unspecified hasParent maps proc initial).toRun apply =
    Run.start unspecified hasParent (mapsAndReact (maps.map (ScriptMap.call apply)) proc initial) := by
  simp only [start, toRun, Run.start_eq, List.map_map]
  rfl

theorem valid_start : (start apply unspecified hasParent maps proc initial).Valid apply guile application where
  nodup := List.nodup_nil
  counted _ h := absurd h List.not_mem_nil
  upstream m hm x hx := by
    obtain ⟨map, -, rfl⟩ := List.mem_map.1 hm
    exact absurd hx List.not_mem_nil
  frames _ h := absurd h List.not_mem_nil

theorem failed_step (h : Step apply guile application w w') (hfailed : w'.failed = false) :
    w.failed = false := by
  cases h with
  | fail code _ _ _ => cases hfailed
  | _ => exact hfailed

/-- **A script over several nodes does what it does on one**, whatever its objects are, and however often its children
are lost or executed, as long as none is sent back with an error: what it reaches, a run reaches in which every child
is executed once. So when the main kernel is done, every map has come back once, with all of its results. -/
theorem runs_as_on_one_node (hmaps : maps.length < 2 ^ 32)
    (h : (system apply guile application unspecified hasParent maps proc initial).Reachable w)
    (hfailed : w.failed = false) :
    (Run.system unspecified hasParent (mapsAndReact (maps.map (ScriptMap.call apply)) proc initial)).Reachable
      (w.toRun apply) ∧
    ∀ o, w.outcome = some o → ∃ arrivals : List (MapCall Scm Scm × List Scm),
      (arrivals.map Prod.fst).Perm (maps.map (ScriptMap.call apply)) ∧ (∀ a ∈ arrivals, a.2.Perm a.1.results) ∧
        o.result = foldArrivals proc initial arrivals := by
  let S := Run.system unspecified hasParent (mapsAndReact (maps.map (ScriptMap.call apply)) proc initial)
  have hreach : S.Reachable (w.toRun apply) := by
    refine (h.invariant (p := fun w => w.failed = false → w.Valid apply guile application ∧
      S.Reachable (w.toRun apply)) ?_ ?_ hfailed).2
    · rintro _ rfl -
      exact ⟨valid_start, .initial toRun_start⟩
    · intro s s' hs hstep hfailed
      obtain ⟨hvalid, hreach⟩ := hs (failed_step hstep hfailed)
      exact ⟨hvalid.step hstep hfailed, hreach.steps (hvalid.follows hstep)⟩
  have hrun := Run.invariant_of_reachable (by rwa [List.length_map]) hreach
  refine ⟨hreach, fun o ho => ?_⟩
  obtain ⟨hnil, hresult, -⟩ := hrun.done o ho
  obtain ⟨arrivals, hperm, hresults, hfold⟩ := hrun.arrived
  rw [hnil, List.map_nil, List.append_nil] at hperm
  exact ⟨arrivals, hperm, fun a ha => (hresults a ha).1, hresult.trans hfold⟩

/-- A map of one list of one element. -/
def oneChild : ScriptMap := { proc := .null, lists := [[.integer 5]], blockSize := none, childPipeline := .null }

/-- `map` with a procedure that gives back its argument. -/
def mapIdentity (_ : Scm) (lists : List Scm) : Scm := lists.headD .null

/-- The child, as it is sent. -/
def oneChildKernel : Kernel ScriptState :=
  { Kernel.fresh 9 (.native mapChildType.index (oneChild.child [[.integer 5]])) with id := 2 }

omit [ByteOrder] in
theorem isSent_oneChild : IsSent 9 .upstream (oneChild.child [[.integer 5]]) oneChildKernel where
  payload := rfl
  phase := rfl
  source := rfl
  target := rfl
  nodeFilter := rfl
  carriesParent := by
    simp [Kernel.carriesParent, Kernel.isset, oneChildKernel, Kernel.fresh, KernelFlags.isset]

theorem fits_oneChild (mem : Memory ScriptState) :
    kernelFraming.Fits (oneChildKernel.packet mem mapChildType.id (oneChild.child [[.integer 5]]).bytes) := by
  show 4 + _ < 2 ^ 32
  simp [Kernel.packet, oneChildKernel, Kernel.fresh, Header.fresh, Header.bytes, Header.addressBytes, Header.written,
    ApplicationSlot.bytes, Kernel.bytes, stringBytes, oneChild, ScriptMap.child, ScriptState.bytes, BaseState.bytes,
    objectBytes, BaseState.objects, bytes, elementBytes, Scm.ofList, Scm.isList, Scm.length, Scm.toList]

omit [ByteOrder] in
theorem writable_oneChild : (oneChild.child [[.integer 5]]).Writable (.plain true) := by
  simp [ScriptState.Writable, oneChild, ScriptMap.child, ScriptState.objects, BaseState.objects, Scm.Writable,
    Scm.ofList, Scm.isList, Scm.length, Scm.toList]

omit [ByteOrder] in
theorem writable_oneChildResult : (oneChild.executed mapIdentity [[.integer 5]]).Writable (.plain true) := by
  simp [ScriptState.Writable, oneChild, ScriptMap.executed, ScriptMap.call, childAct, mapIdentity,
    ScriptState.objects, BaseState.objects, Scm.Writable, Scm.ofList, Scm.isList, Scm.length, Scm.toList]

/-- The child, as another process of the application reads it. -/
def oneChildNative (mem : Memory ScriptState) : Kernel ScriptState :=
  oneChildKernel.asNative (scriptProcess (.plain true) 9) mem mapChildType (oneChild.child [[.integer 5]])

/-- The child, when it has been executed. -/
def oneChildResult (mem : Memory ScriptState) : Kernel ScriptState :=
  Kernel.returnToParent
    { oneChildNative mem with
      payload := .native mapChildType.index (oneChild.executed mapIdentity [[.integer 5]]) } .success

theorem fits_oneChildResult (mem : Memory ScriptState) :
    kernelFraming.Fits ((oneChildResult mem).packet mem mapChildType.id
      (oneChild.executed mapIdentity [[.integer 5]]).bytes) := by
  show 4 + _ < 2 ^ 32
  simp [Kernel.packet, oneChildResult, oneChildNative, oneChildKernel, Kernel.fresh, Kernel.returnToParent,
    Kernel.asNative, Kernel.copyOf, Kernel.swapHeader, Kernel.setPrincipalId, Kernel.isset, Header.fresh, Header.sent,
    ApplicationSlot.sent, Header.bytes, Header.addressBytes, Header.written, ApplicationSlot.bytes, Kernel.bytes,
    stringBytes, oneChild, ScriptMap.executed, ScriptMap.call, childAct, mapIdentity, ScriptState.bytes,
    BaseState.bytes, objectBytes, BaseState.objects, bytes, elementBytes, Scm.ofList, Scm.isList, Scm.length,
    Scm.toList]

/-- The results of a map are counted. -/
def countResults (results : List Scm) (n : ℕ) : ℕ := results.length + n

/-- The run of a script that makes the map, before the map kernel comes back. -/
def oneChildRun (m : WireMap) (counter : UInt64) (children : List (UInt64 × ScriptMap × List (List Scm)))
    (frames : List (List UInt8)) : WireRun ℕ where
  main := { numChildren := 1, noChildren := false, result := 7, reactProc := countResults }
  maps := [m]
  counter
  children
  frames

/-- The map kernel when it has been executed. -/
def oneRunning (pending : List (List (List Scm))) (upstream : List (UInt64 × List (List Scm))) : WireMap where
  map := oneChild
  phase := .running ⟨[], 1⟩
  pending
  upstream

/-- The frame of a kernel. -/
def oneFrame (mem : Memory ScriptState) (k : Kernel ScriptState) (state : ScriptState) : List UInt8 :=
  kernelFraming.frame (k.packet mem mapChildType.id state.bytes)

/-- The child, as a daemon holds it. -/
def oneChildForeign (mem : Memory ScriptState) : Kernel ScriptState :=
  oneChildKernel.asForeign mem mapChildType.id (oneChild.child [[.integer 5]]).bytes

theorem fits_oneChildForeign (mem : Memory ScriptState) :
    kernelFraming.Fits ((oneChildForeign mem).packet mem mapChildType.id (oneChild.child [[.integer 5]]).bytes) := by
  have hsize := fits_oneChild mem
  rwa [Framing.Fits, oneChildForeign, Kernel.length_packet_asForeign]

/-- A daemon passes it on. -/
theorem relayed_oneChild (mem : Memory ScriptState) :
    (scriptProcess (.plain true) 8).decode (oneFrame mem oneChildKernel (oneChild.child [[.integer 5]])) =
      some { received := { kernel := oneChildForeign mem }, unread := [], rest := [] } ∧
    IsFrame (scriptProcess (.plain true) 8) (oneChildForeign mem)
      (oneFrame mem (oneChildForeign mem) (oneChild.child [[.integer 5]])) := by
  obtain ⟨hdecode, hencode⟩ := hop (d := (scriptProcess (.plain true) 8, mem))
    (isSent_oneChild.encodable (fits_oneChild mem)) (fits_oneChild mem) (show (9 : UInt64) ≠ 8 by decide)
  have hdecode := hdecode []
  rw [List.append_nil] at hdecode
  exact ⟨hdecode, mem, hencode, fun body hbody => hbody.unique (Process.writes_foreign rfl) ▸ fits_oneChildForeign mem⟩

/-- A process of the application reads what the daemon has written. -/
theorem decode_oneChild (mem : Memory ScriptState) :
    (scriptProcess (.plain true) 9).decode (oneFrame mem (oneChildForeign mem) (oneChild.child [[.integer 5]])) =
      some { received := { kernel := oneChildNative mem }, unread := [], rest := [] } := by
  have hcarries : (oneChildForeign mem).carriesParent = false := by
    rw [oneChildForeign, Kernel.carriesParent_asForeign, isSent_oneChild.carriesParent]
  have hk : IsSent 9 .upstream (oneChild.child [[.integer 5]])
      { oneChildForeign mem with payload := .native mapChildType.index (oneChild.child [[.integer 5]]) } :=
    ⟨⟨rfl, rfl, rfl, rfl, hcarries⟩, rfl⟩
  have hdecode := hk.decode_frame writable_oneChild trivial (fits_oneChildForeign mem)
  have hsame : (oneChildForeign mem).asNative (scriptProcess (.plain true) 9) mem mapChildType
      (oneChild.child [[.integer 5]]) = oneChildNative mem := Kernel.asNative_asForeign mem _ _ _
  rw [← hsame]
  exact hdecode

theorem reachable_oneChild (mem : Memory ScriptState) : ∃ w : WireRun ℕ,
    (system mapIdentity (.plain true) 9 0 true [oneChild] countResults 7).Reachable w ∧ w.failed = false ∧
      w.outcome = some (.sent 8) := by
  let S : System (WireRun ℕ) := system mapIdentity (.plain true) 9 0 true [oneChild] countResults 7
  let x : UInt64 × ScriptMap × List (List Scm) := (2, oneChild, [[.integer 5]])
  let sent := oneFrame mem oneChildKernel (oneChild.child [[.integer 5]])
  let relayed := oneFrame mem (oneChildForeign mem) (oneChild.child [[.integer 5]])
  let result := oneFrame mem (oneChildResult mem) (oneChild.executed mapIdentity [[.integer 5]])
  have hnative : IsSent 9 .upstream (oneChild.child [[.integer 5]]) (oneChildNative mem) :=
    isSent_oneChild.asNative mem
  obtain ⟨hsent, hid, hold⟩ : IsSent 9 .downstream (oneChild.executed mapIdentity [[.integer 5]])
      (oneChildResult mem) ∧ (oneChildResult mem).id = 2 ∧ (oneChildResult mem).oldId = 0 := hnative.actChild rfl
  have hupstream : [((2 : UInt64), [[Scm.integer 5]])] =
      [] ++ ((oneChildResult mem).id, [[Scm.integer 5]]) :: [] := by
    rw [hid, List.nil_append]
  have hframe : IsFrame (scriptProcess (.plain true) 9) oneChildKernel sent :=
    isSent_oneChild.isFrame writable_oneChild mem (fits_oneChild mem)
  have hframe' : IsFrame (scriptProcess (.plain true) 9) (oneChildResult mem) result :=
    hsent.isFrame writable_oneChildResult mem (fits_oneChildResult mem)
  have hdecode := hsent.decode_frame writable_oneChildResult trivial (fits_oneChildResult mem)
  obtain ⟨hheld, hforeign⟩ := relayed_oneChild mem
  -- the map kernel makes the child, which is sent, passed on and executed
  have hstart : S.Reachable (oneChildRun { map := oneChild } 0 [] []) := .initial rfl
  have hact : S.Reachable (oneChildRun (oneRunning [[[.integer 5]]] []) 0 [] []) :=
    hstart.step (@Step.act _ _ _ _ _ (oneChildRun { map := oneChild } 0 [] []) [] [] { map := oneChild } ⟨[], 1⟩
      [[[.integer 5]]] rfl rfl rfl)
  have hsend : S.Reachable (oneChildRun (oneRunning [] [(2, [[.integer 5]])]) 2 [x] [sent]) :=
    hact.step (@Step.send _ _ _ _ _ (oneChildRun (oneRunning [[[.integer 5]]] []) 0 [] []) [] []
      (oneRunning [[[.integer 5]]] []) [[.integer 5]] [] oneChildKernel [sent] rfl rfl isSent_oneChild rfl
      (show (0 : UInt64) < 2 by decide) fun _ hmem => List.mem_singleton.1 hmem ▸ hframe)
  have hrelay := hsend.step (.relay List.mem_cons_self (show (8 : UInt64) ≠ 9 by decide) hheld .refl hforeign)
  have hexecute : S.Reachable (oneChildRun (oneRunning [] [(2, [[.integer 5]])]) 2 [x] [sent, relayed, result]) :=
    hrelay.step (.execute (List.mem_cons_of_mem _ List.mem_cons_self) (decode_oneChild mem) rfl rfl hframe')
  -- the child is executed once more, and comes back twice
  have hagain : S.Reachable (oneChildRun (oneRunning [] [(2, [[.integer 5]])]) 2 [x] [sent, relayed, result, result]) :=
    hexecute.step (.execute (List.mem_cons_of_mem _ List.mem_cons_self) (decode_oneChild mem) rfl rfl hframe')
  have hreact : S.Reachable (oneChildRun { map := oneChild, phase := .returned [.ofList [.integer 5]] } 2 [x]
      [sent, relayed, result, result]) :=
    hagain.step (@Step.react _ _ _ _ _
      (oneChildRun (oneRunning [] [(2, [[.integer 5]])]) 2 [x] [sent, relayed, result, result]) [] []
      (oneRunning [] [(2, [[.integer 5]])]) ⟨[], 1⟩ result _ _ _ _ _ _ [] [] [[.integer 5]]
      (List.mem_cons_of_mem _ (List.mem_cons_of_mem _ List.mem_cons_self)) hdecode rfl hold rfl rfl rfl hupstream)
  refine ⟨_, hreact.step (@Step.main _ _ _ _ _
    (oneChildRun { map := oneChild, phase := .returned [.ofList [.integer 5]] } 2 [x] [sent, relayed, result, result])
    [] [] { map := oneChild, phase := .returned [.ofList [.integer 5]] } _ rfl rfl rfl), rfl, ?_⟩
  simp [Run.receive, KernelBase.react, toRun, oneChildRun, countResults]

omit [ByteOrder] in
theorem runs_as_on_one_node_oneChild : ∃ w : WireRun ℕ, w.outcome = some (.sent 8) ∧
    (Run.system 0 true (mapsAndReact ([oneChild].map (ScriptMap.call mapIdentity)) countResults 7)).Reachable
      (w.toRun mapIdentity) := by
  let _ := ByteOrder.littleEndian
  obtain ⟨w, hreach, hfailed, houtcome⟩ := reachable_oneChild fun _ => oneChildKernel
  exact ⟨w, houtcome, (runs_as_on_one_node (by decide) hreach hfailed).1⟩

end WireRun

end Subordination.Guile
