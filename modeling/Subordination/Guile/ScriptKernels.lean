import Subordination.Core.ForeignKernel
import Subordination.Guile.SchemeObjects

/-!
# The kernels of a script

What is laid down in a kernel buffer of a kernel of a script, and read from it (`Kernel_base`, `Main`, `Map_kernel`
and `Map_child_kernel`, `guile/kernel.cc`).

## The model

The kernels of `make-kernel`, which are laid down as texts, are left out. A process loads the script before it reads
its first kernel; that has no effect on what is read.

## What is proved

* **`ScriptState.comesThrough_iff`**: a kernel is read as it was written if and only if all its objects can be
  written, and it is not a main kernel that has a result or procedures.
-/

namespace Subordination.Guile

open Subordination.Core Subordination.Library

/-! ### What is in the kernels of a script -/

/-- `Kernel_base`, but for its children. -/
structure BaseState where
  /-- `_num_children`. -/
  numChildren : UInt32 := 0
  /-- `_no_children`. -/
  noChildren : Bool := false
  /-- `_result`. -/
  result : Scm := .unspecified
  /-- `_react`. -/
  react : Scm := .unspecified
  /-- `_postamble`. -/
  postamble : Scm := .unspecified

/-- What a class of kernels adds to the fields of a kernel. -/
inductive ScriptState where
  /-- `Main`. -/
  | main (base : BaseState)
  /-- `Map_kernel`: `_proc`, `_lists`, `_pipeline`, `_block_size` and `_num_kernels`. -/
  | map (base : BaseState) (proc lists pipeline blockSize : Scm) (numKernels : UInt32)
  /-- `Map_child_kernel`: `_proc`, `_lists` and `_pipeline`. -/
  | mapChild (base : BaseState) (proc lists pipeline : Scm)

/-- The type of a main kernel, as the main program registers it. -/
def mainType : KernelType := ⟨1, "sbn::guile::Main"⟩

/-- The type of a map kernel. -/
def mapType : KernelType := ⟨3, "sbn::guile::Map_kernel"⟩

/-- The type of a child of a map kernel. -/
def mapChildType : KernelType := ⟨4, "sbn::guile::Map_child_kernel"⟩

/-- The type of a kernel. -/
def ScriptState.type : ScriptState → KernelType
  | main _ => mainType
  | map .. => mapType
  | mapChild .. => mapChildType

section Wire

variable [ByteOrder]

/-- `object_write`, of some objects one after another. -/
def writeObjects (guile : Conversions) : List Scm → PutM Unit
  | [] => pure ()
  | object :: objects => do
    objectWrite guile object
    writeObjects guile objects

/-- `Kernel_base::write`, after `kernel::write`. -/
def BaseState.write (guile : Conversions) (s : BaseState) : PutM Unit := do
  writeBytes (u32Bytes s.numChildren)
  writeBytes (u8Bytes (if s.noChildren then 1 else 0))
  writeObjects guile [s.result, s.react, s.postamble]

/-- `Kernel_base::read`, after `kernel::read` and without the loading of the script. -/
def BaseState.read (guile : Conversions) : ReadM BaseState := do
  let numChildren ← readU32
  let noChildren ← readU8
  let result ← objectRead guile
  let react ← objectRead guile
  let postamble ← objectRead guile
  return { numChildren, noChildren := noChildren ≠ 0, result, react, postamble }

/-- `write`, of each of the classes. -/
def ScriptState.write (guile : Conversions) : ScriptState → PutM Unit
  | main base => do
    writeBytes (u32Bytes base.numChildren)
    writeBytes (u8Bytes (if base.noChildren then 1 else 0))
  | map base proc lists pipeline blockSize numKernels => do
    base.write guile
    writeObjects guile [proc, lists, pipeline, blockSize]
    writeBytes (u32Bytes numKernels)
  | mapChild base proc lists pipeline => do
    base.write guile
    writeObjects guile [proc, lists, pipeline]

/-- `Main::read`. A main kernel that has been made by another program has no fields of its own. -/
def readMain : ReadM ScriptState := fun w =>
  if w.isEmpty then .ok (.main {}) w
  else
    (do
      let numChildren ← readU32
      let noChildren ← readU8
      return .main { numChildren, noChildren := noChildren ≠ 0 } : ReadM ScriptState) w

/-- `Map_kernel::read`. -/
def readMap (guile : Conversions) : ReadM ScriptState := do
  let base ← BaseState.read guile
  let proc ← objectRead guile
  let lists ← objectRead guile
  let pipeline ← objectRead guile
  let blockSize ← objectRead guile
  let numKernels ← readU32
  return .map base proc lists pipeline blockSize numKernels

/-- `Map_child_kernel::read`. -/
def readMapChild (guile : Conversions) : ReadM ScriptState := do
  let base ← BaseState.read guile
  let proc ← objectRead guile
  let lists ← objectRead guile
  let pipeline ← objectRead guile
  return .mapChild base proc lists pipeline

/-- The classes of the kernels of a script. -/
def scriptClass (guile : Conversions) (index : String) : KernelClass ScriptState where
  initial :=
    if index = mainType.index then .main {}
    else if index = mapType.index then .map {} .unspecified .unspecified .unspecified .undefined 0
    else .mapChild {} .unspecified .unspecified .unspecified
  write := ScriptState.write guile
  read :=
    if index = mainType.index then readMain
    else if index = mapType.index then readMap guile
    else readMapChild guile

/-- A process that runs a script. -/
def scriptProcess (guile : Conversions) (application : UInt64) : Process ScriptState where
  thisApplication := application
  types := some { types := [mainType, mapType, mapChildType] }
  classes := scriptClass guile

end Wire

/-! ### Which kernels come through -/

/-- The objects that are written. -/
def BaseState.objects (s : BaseState) : List Scm := [s.result, s.react, s.postamble]

/-- The objects that are written. -/
def ScriptState.objects : ScriptState → List Scm
  | main _ => []
  | map base proc lists pipeline blockSize _ => base.objects ++ [proc, lists, pipeline, blockSize]
  | mapChild base proc lists pipeline => base.objects ++ [proc, lists, pipeline]

/-- All objects of a kernel can be written. -/
def ScriptState.Writable (guile : Conversions) (s : ScriptState) : Prop := ∀ x ∈ s.objects, x.Writable guile

/-- Nothing of a kernel is left out: a main kernel is written without its result and its procedures. -/
def ScriptState.IsWhole : ScriptState → Prop
  | main base => base = { numChildren := base.numChildren, noChildren := base.noChildren }
  | _ => True

section Wire

variable [ByteOrder] {guile : Conversions}

/-- What is written of some objects. -/
def objectBytes (objects : List Scm) : List UInt8 := (objects.map bytes).flatten

/-- What is written of a base. -/
def BaseState.bytes (s : BaseState) : List UInt8 :=
  u32Bytes s.numChildren ++ (u8Bytes (if s.noChildren then 1 else 0) ++ objectBytes s.objects)

/-- What is written of a kernel after `kernel::write`. -/
def ScriptState.bytes : ScriptState → List UInt8
  | main base => u32Bytes base.numChildren ++ u8Bytes (if base.noChildren then 1 else 0)
  | map base proc lists pipeline blockSize numKernels =>
    base.bytes ++ (objectBytes [proc, lists, pipeline, blockSize] ++ u32Bytes numKernels)
  | mapChild base proc lists pipeline => base.bytes ++ objectBytes [proc, lists, pipeline]

theorem writes_objects {objects : List Scm} (h : ∀ x ∈ objects, x.Writable guile) :
    Writes (writeObjects guile objects) (objectBytes objects) := by
  induction objects with
  | nil => exact writes_pure
  | cons x objects ih =>
    exact ((writes_objectWrite x).1 (h x List.mem_cons_self)).seq (ih fun y hy => h y (List.mem_cons_of_mem x hy))

theorem fails_objects {objects : List Scm} (h : ¬ ∀ x ∈ objects, x.Writable guile) :
    Fails (writeObjects guile objects) := by
  induction objects with
  | nil => exact absurd (fun x hx => absurd hx List.not_mem_nil) h
  | cons x objects ih =>
    by_cases hx : x.Writable guile
    · refine .after ((writes_objectWrite x).1 hx) (ih fun hobjects => h fun y hy => ?_)
      rcases List.mem_cons.1 hy with rfl | hy
      · exact hx
      · exact hobjects y hy
    · exact ((fails_objectWrite x).1 hx).seq

/-- An object that can be written is read. -/
theorem reads_object {x : Scm} (h : x.Writable guile) : Reads (objectRead guile) (bytes x) x := by
  intro rest
  have hfuel : (bytes x).length ≤ (bytes x ++ rest).length + 1 := by
    rw [List.length_append]
    omega
  exact (readNested_bytes x).1 h _ hfuel rest

theorem BaseState.writes {s : BaseState} (h : ∀ x ∈ s.objects, x.Writable guile) :
    Writes (s.write guile) s.bytes :=
  (writes_bytes _).seq ((writes_bytes _).seq (writes_objects h))

theorem BaseState.fails {s : BaseState} (h : ¬ ∀ x ∈ s.objects, x.Writable guile) :
    Fails (s.write guile) :=
  .after (writes_bytes _) (.after (writes_bytes _) (fails_objects h))

omit [ByteOrder] in
/-- A flag is read as it was written. -/
theorem flag_eq (b : Bool) : decide ((if b then 1 else 0 : UInt8) ≠ 0) = b := by
  cases b <;> rfl

theorem BaseState.reads {s : BaseState} (h : ∀ x ∈ s.objects, x.Writable guile) :
    Reads (BaseState.read guile) s.bytes s := by
  have hobject : ∀ {x}, x ∈ s.objects → Reads (objectRead guile) (Guile.bytes x) x := fun hx =>
    reads_object (h _ hx)
  have hobjects : objectBytes s.objects =
      Guile.bytes s.result ++ (Guile.bytes s.react ++ Guile.bytes s.postamble) := by
    simp only [objectBytes, objects, List.map_cons, List.map_nil, List.flatten_cons, List.flatten_nil,
      List.append_nil]
  rw [bytes, hobjects]
  refine (reads_u32 _).bind <| (reads_u8 _).bind <| (hobject (by simp [objects])).bind <|
    (hobject (by simp [objects])).bind <| (hobject (by simp [objects])).bindPure ?_
  rw [flag_eq]

namespace ScriptState

variable {s : ScriptState}

theorem writes (h : s.Writable guile) : Writes (s.write guile) s.bytes := by
  cases s with
  | main base => exact (writes_bytes _).seq (writes_bytes _)
  | map base proc lists pipeline blockSize numKernels =>
    obtain ⟨hbase, hobjects⟩ := List.forall_mem_append.1 h
    exact (BaseState.writes hbase).seq ((writes_objects hobjects).seq (writes_bytes _))
  | mapChild base proc lists pipeline =>
    obtain ⟨hbase, hobjects⟩ := List.forall_mem_append.1 h
    exact (BaseState.writes hbase).seq (writes_objects hobjects)

theorem fails (h : ¬ s.Writable guile) : Fails (s.write guile) := by
  cases s with
  | main base => exact absurd (fun x hx => absurd hx List.not_mem_nil) h
  | map base proc lists pipeline blockSize numKernels =>
    by_cases hbase : ∀ x ∈ base.objects, x.Writable guile
    · exact .after (BaseState.writes hbase)
        (fails_objects fun hobjects => h (List.forall_mem_append.2 ⟨hbase, hobjects⟩)).seq
    · exact (BaseState.fails hbase).seq
  | mapChild base proc lists pipeline =>
    by_cases hbase : ∀ x ∈ base.objects, x.Writable guile
    · exact .after (BaseState.writes hbase)
        (fails_objects fun hobjects => h (List.forall_mem_append.2 ⟨hbase, hobjects⟩))
    · exact (BaseState.fails hbase).seq

theorem reads_main (base : BaseState) : Reads (readMain : ReadM ScriptState) (bytes (.main base))
    (.main { numChildren := base.numChildren, noChildren := base.noChildren }) := by
  intro rest
  have hsome : (bytes (.main base) ++ rest).isEmpty = false := by
    rw [List.isEmpty_eq_false_iff]
    intro hnil
    have := congrArg List.length hnil
    simp [bytes, u32Bytes, u8Bytes] at this
  rw [readMain, hsome, if_neg Bool.false_ne_true]
  refine ((reads_u32 _).bind <| (reads_u8 _).bindPure ?_) rest
  rw [flag_eq]

/-- **What is written of a whole kernel is read back.** -/
theorem reads (h : s.Writable guile) (hwhole : s.IsWhole) :
    Reads (scriptClass guile s.type.index).read s.bytes s := by
  cases s with
  | main base =>
    rw [hwhole]
    exact reads_main base
  | map base proc lists pipeline blockSize numKernels =>
    obtain ⟨hbase, hobjects⟩ := List.forall_mem_append.1 h
    have hobject : ∀ {x}, x ∈ [proc, lists, pipeline, blockSize] → Reads (objectRead guile) (Guile.bytes x) x :=
      fun hx => reads_object (hobjects _ hx)
    have hbytes : bytes (.map base proc lists pipeline blockSize numKernels) = base.bytes ++ (Guile.bytes proc ++
        (Guile.bytes lists ++ (Guile.bytes pipeline ++ (Guile.bytes blockSize ++ u32Bytes numKernels)))) := by
      simp only [bytes, objectBytes, List.map_cons, List.map_nil, List.flatten_cons, List.flatten_nil,
        List.append_nil, List.append_assoc]
    rw [hbytes]
    exact (BaseState.reads hbase).bind <| (hobject (by simp)).bind <| (hobject (by simp)).bind <|
      (hobject (by simp)).bind <| (hobject (by simp)).bind <| (reads_u32 _).bindPure rfl
  | mapChild base proc lists pipeline =>
    obtain ⟨hbase, hobjects⟩ := List.forall_mem_append.1 h
    have hobject : ∀ {x}, x ∈ [proc, lists, pipeline] → Reads (objectRead guile) (Guile.bytes x) x :=
      fun hx => reads_object (hobjects _ hx)
    have hbytes : bytes (.mapChild base proc lists pipeline) =
        base.bytes ++ (Guile.bytes proc ++ (Guile.bytes lists ++ Guile.bytes pipeline)) := by
      simp only [bytes, objectBytes, List.map_cons, List.map_nil, List.flatten_cons, List.flatten_nil,
        List.append_nil]
    rw [hbytes]
    exact (BaseState.reads hbase).bind <| (hobject (by simp)).bind <| (hobject (by simp)).bind <|
      (hobject (by simp)).bindPure rfl

/-- **Which kernels come through**: those whose objects can all be written, and of the main kernels those that have
no result and no procedures yet. -/
theorem comesThrough_iff (guile : Conversions) (s : ScriptState) :
    (∃ bs, (scriptClass guile s.type.index).RoundTrips s bs) ↔ s.Writable guile ∧ s.IsWhole := by
  constructor
  · rintro ⟨bs, hwrites, hreads⟩
    have hwritable : s.Writable guile := by
      by_contra h
      exact (fails h).not_writes hwrites
    refine ⟨hwritable, ?_⟩
    cases s with
    | main base =>
      -- what is read of a main kernel has only its counters
      obtain rfl := hwrites.unique (writes hwritable)
      have heq : (EStateM.Result.ok (.main base) [] : EStateM.Result Exception (List UInt8) ScriptState) =
          .ok (.main { numChildren := base.numChildren, noChildren := base.noChildren }) [] :=
        (hreads []).symm.trans (reads_main base [])
      injection heq with hstate
      injection hstate
    | map base proc lists pipeline blockSize numKernels => trivial
    | mapChild base proc lists pipeline => trivial
  · rintro ⟨hwritable, hwhole⟩
    exact ⟨s.bytes, writes hwritable, reads hwritable hwhole⟩

end ScriptState

end Wire

end Subordination.Guile
