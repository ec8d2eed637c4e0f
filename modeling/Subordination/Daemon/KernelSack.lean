import Subordination.Core.Kernel
import Subordination.Library.Marking

/-!
# The kernel sack

When the pipelines are cleared, their kernels and the parents of their kernels are collected in a sack, and deleted
with it (`core/kernel.cc`, `core/connection.cc`, `core/basic_socket_pipeline.cc`, `core/parallel_pipeline.cc`,
`daemon/main.cc`).

## The model

The heap has finitely many kernels, and a pointer that is not null points to one of them. The deleted flags are kept
beside the kernels. `mark_as_deleted` is virtual: besides `sbn::kernel` only `sbnd::Main` has one of its own. The depth
of the calls is bounded by a number, which is shown to be no bound.

## What is proved

* `KernelHeap.markAsDeleted_visits` — a call ends, and visits a kernel along its links.
* `SocketPipelineKernels.clear_eq`, `ParallelPipelineKernels.clear_eq` — a pipeline is cleared like one queue.
* `KernelHeap.clear_sack` — what is in the sack after the roots have been cleared, once each.
-/

namespace Subordination.Daemon

open Subordination.Core Subordination.Library Relation

/-! ### Marks -/

/-- The deleted flags of the kernels, and the sack. -/
structure Marks (α : Type) where
  /-- `isset(kernel_flag::deleted)`. -/
  deleted : α → Bool
  /-- `kernel_sack`. -/
  sack : List α
  /-- No kernel is in the sack twice. -/
  nodup : sack.Nodup
  /-- The flagged kernels are in the sack. -/
  deleted_iff : ∀ k, deleted k = true ↔ k ∈ sack

namespace Marks

variable {α : Type}

/-- No kernel is flagged, and the sack is empty. -/
def none : Marks α := ⟨fun _ => false, [], List.nodup_nil, by simp⟩

/-- Flag a kernel and put it into the sack. -/
def mark [DecidableEq α] (marks : Marks α) (k : α) (h : ¬marks.deleted k = true) : Marks α where
  deleted := Function.update marks.deleted k true
  sack := marks.sack ++ [k]
  nodup := by
    rw [marks.deleted_iff] at h
    have hne : ∀ a ∈ marks.sack, a ≠ k := fun a ha => ne_of_mem_of_not_mem ha h
    exact List.nodup_append.mpr ⟨marks.nodup, List.nodup_singleton k, by simpa using hne⟩
  deleted_iff := by
    intro j
    by_cases hj : j = k
    · simp [hj]
    · simp [hj, marks.deleted_iff]

@[simp] theorem sack_mark [DecidableEq α] (marks : Marks α) (k : α) (h : ¬marks.deleted k = true) :
    (marks.mark k h).sack = marks.sack ++ [k] := rfl

end Marks

/-! ### The heap -/

/-- The kernels that have not been freed. -/
structure KernelHeap (α P : Type) where
  /-- The kernels. -/
  kernel : α → Kernel P
  /-- The kernel that a pointer points to, if it is not null. -/
  deref : UInt64 → α
  /-- `_discoverers`, if the kernel is a `sbnd::Main`. -/
  discoverers : α → Option (List α)
  /-- A discoverer is no `sbnd::Main`. -/
  discoverers_eq_none : ∀ k ds, discoverers k = some ds → ∀ d ∈ ds, discoverers d = none

namespace KernelHeap

variable {α P : Type} [DecidableEq α] (heap : KernelHeap α P)

/-- `parent()`, if it is not null. -/
def parent (k : α) : Option α :=
  if (heap.kernel k).parent = 0 then none else some (heap.deref (heap.kernel k).parent)

/-- `sbn::kernel::mark_as_deleted`, given what a virtual call does. -/
def kernelMarkAsDeleted (call : Marks α → α → Option (Marks α)) (marks : Marks α) (k : α) : Option (Marks α) :=
  if h : marks.deleted k then some marks
  else
    let marks := marks.mark k h
    if (heap.kernel k).isNative then
      match heap.parent k with
      | some p => call marks p
      | none => some marks
    else some marks

/-- `mark_as_deleted`, with no more than the given number of calls inside each other: `sbnd::Main` calls the one of
`sbn::kernel`, then that of its discoverers. -/
def markAsDeleted : ℕ → Marks α → α → Option (Marks α)
  | 0, _, _ => none
  | depth + 1, marks, k => do
    let marks ← heap.kernelMarkAsDeleted (markAsDeleted depth) marks k
    match heap.discoverers k with
    | some ds => ds.foldlM (markAsDeleted depth) marks
    | none => some marks

/-- `clear_queue` and `clear_deque`. -/
def clearQueue (depth : ℕ) (marks : Marks α) (queue : List α) : Option (Marks α) :=
  queue.foldlM (heap.markAsDeleted depth) marks

end KernelHeap

/-! ### Clearing pipelines -/

/-- The kernels of a connection. -/
structure ConnectionKernels (α : Type) where
  /-- `_upstream`. -/
  upstream : List α
  /-- `_downstream`. -/
  downstream : List α

/-- The kernels of a `basic_socket_pipeline`. -/
structure SocketPipelineKernels (α : Type) where
  /-- `_kernels`. -/
  kernels : List α
  /-- `_connections`. -/
  connections : List (Option (ConnectionKernels α))
  /-- `_listeners`. -/
  listeners : List α
  /-- `_trash`. -/
  trash : List α

/-- The kernels of a `parallel_pipeline`. -/
structure ParallelPipelineKernels (α : Type) where
  /-- `_upstream_kernels`. -/
  upstream : List α
  /-- `_timer_kernels`, from the top. -/
  timer : List α
  /-- `_downstream_kernels`. -/
  downstream : List (List α)

section Clear

variable {α P : Type} [DecidableEq α] (heap : KernelHeap α P) (depth : ℕ)

/-- `connection::clear`. -/
def ConnectionKernels.clear (conn : ConnectionKernels α) (marks : Marks α) : Option (Marks α) := do
  let marks ← heap.clearQueue depth marks conn.upstream
  heap.clearQueue depth marks conn.downstream

/-- `basic_socket_pipeline::clear`. -/
def SocketPipelineKernels.clear (pipeline : SocketPipelineKernels α) (marks : Marks α) : Option (Marks α) := do
  let marks ← heap.clearQueue depth marks pipeline.kernels
  let marks ← pipeline.connections.foldlM (fun marks conn =>
    match conn with
    | some conn => conn.clear heap depth marks
    | none => some marks) marks
  let marks ← heap.clearQueue depth marks pipeline.listeners
  heap.clearQueue depth marks pipeline.trash

/-- `parallel_pipeline::clear`. -/
def ParallelPipelineKernels.clear (pipeline : ParallelPipelineKernels α) (marks : Marks α) : Option (Marks α) := do
  let marks ← heap.clearQueue depth marks pipeline.upstream
  let marks ← heap.clearQueue depth marks pipeline.timer
  pipeline.downstream.foldlM (heap.clearQueue depth) marks

/-- The kernels that `connection::clear` marks. -/
def ConnectionKernels.roots (conn : ConnectionKernels α) : List α := conn.upstream ++ conn.downstream

/-- The kernels that `basic_socket_pipeline::clear` marks. -/
def SocketPipelineKernels.roots (pipeline : SocketPipelineKernels α) : List α :=
  pipeline.kernels ++ pipeline.connections.flatMap (fun conn => conn.elim [] ConnectionKernels.roots) ++
    pipeline.listeners ++ pipeline.trash

/-- The kernels that `parallel_pipeline::clear` marks. -/
def ParallelPipelineKernels.roots (pipeline : ParallelPipelineKernels α) : List α :=
  pipeline.upstream ++ pipeline.timer ++ pipeline.downstream.flatten

variable {heap depth}

theorem clearQueue_append (marks : Marks α) (ks ks' : List α) :
    heap.clearQueue depth marks (ks ++ ks') = (heap.clearQueue depth marks ks).bind (heap.clearQueue depth · ks') := by
  simp [KernelHeap.clearQueue, List.foldlM_append]

/-- To clear a connection is to clear one queue. -/
theorem ConnectionKernels.clear_eq (conn : ConnectionKernels α) (marks : Marks α) :
    conn.clear heap depth marks = heap.clearQueue depth marks conn.roots := by
  rw [roots, clearQueue_append]
  rfl

/-- One queue after another is one queue. -/
theorem clearQueue_flatMap {β : Type} {clear : Marks α → β → Option (Marks α)} {roots : β → List α}
    (h : ∀ x marks, clear marks x = heap.clearQueue depth marks (roots x)) (xs : List β) (marks : Marks α) :
    xs.foldlM clear marks = heap.clearQueue depth marks (xs.flatMap roots) := by
  induction xs generalizing marks with
  | nil => rfl
  | cons x xs ih =>
    rw [List.foldlM_cons, List.flatMap_cons, clearQueue_append, h]
    exact congrArg _ (funext ih)

/-- So it is with a socket pipeline. -/
theorem SocketPipelineKernels.clear_eq (pipeline : SocketPipelineKernels α) (marks : Marks α) :
    pipeline.clear heap depth marks = heap.clearQueue depth marks pipeline.roots := by
  have hconn : ∀ (conn : Option (ConnectionKernels α)) (marks : Marks α),
      (match conn with
        | some conn => conn.clear heap depth marks
        | none => some marks) = heap.clearQueue depth marks (conn.elim [] ConnectionKernels.roots) := by
    rintro (_ | conn) marks
    · rfl
    · exact conn.clear_eq marks
  simp only [clear, roots, clearQueue_append, clearQueue_flatMap hconn, Option.bind_eq_bind, Option.bind_assoc]

/-- And with a parallel pipeline. -/
theorem ParallelPipelineKernels.clear_eq (pipeline : ParallelPipelineKernels α) (marks : Marks α) :
    pipeline.clear heap depth marks = heap.clearQueue depth marks pipeline.roots := by
  have hdownstream : ∀ marks, pipeline.downstream.foldlM (heap.clearQueue depth) marks =
      heap.clearQueue depth marks pipeline.downstream.flatten := fun marks => by
    rw [← List.flatMap_id]
    exact clearQueue_flatMap (fun _ _ => rfl) pipeline.downstream marks
  simp only [clear, roots, clearQueue_append, hdownstream, Option.bind_eq_bind, Option.bind_assoc]

end Clear

namespace KernelHeap

variable {α P : Type} (heap : KernelHeap α P)

/-! ### Links -/

/-- The link of a native kernel to its parent. -/
def ParentLink (k p : α) : Prop := (heap.kernel k).isNative = true ∧ heap.parent k = some p

/-- The link of a main kernel to a discoverer. -/
def DiscovererLink (k d : α) : Prop := ∃ ds, heap.discoverers k = some ds ∧ d ∈ ds

/-- The links that `mark_as_deleted` follows. -/
def Link (k l : α) : Prop := heap.ParentLink k l ∨ heap.DiscovererLink k l

/-- The kernels behind the links that `sbn::kernel::mark_as_deleted` follows. -/
def parents (k : α) : List α := if (heap.kernel k).isNative then (heap.parent k).toList else []

variable {heap} {k l : α}

theorem mem_parents : l ∈ heap.parents k ↔ heap.ParentLink k l := by
  unfold parents ParentLink
  split_ifs with h <;> simp [h]

theorem mem_discoverers : l ∈ (heap.discoverers k).getD [] ↔ heap.DiscovererLink k l := by
  unfold DiscovererLink
  cases heap.discoverers k <;> simp

variable [DecidableEq α]

/-- What is marked already is left as it is, and anything else is marked before its parent is called. -/
theorem kernelMarkAsDeleted_eq (call : Marks α → α → Option (Marks α)) (marks : Marks α) (k : α) :
    heap.kernelMarkAsDeleted call marks k =
      if h : marks.deleted k then some marks else (heap.parents k).foldlM call (marks.mark k h) := by
  unfold kernelMarkAsDeleted parents
  split_ifs with h hnative
  · rfl
  · cases heap.parent k <;> simp
  · rfl

/-- The discoverers of other kernels are none. -/
theorem markAsDeleted_succ (depth : ℕ) (marks : Marks α) (k : α) : heap.markAsDeleted (depth + 1) marks k =
    (heap.kernelMarkAsDeleted (heap.markAsDeleted depth) marks k).bind fun marks =>
      ((heap.discoverers k).getD []).foldlM (heap.markAsDeleted depth) marks := by
  rw [markAsDeleted]
  cases heap.discoverers k <;> rfl

/-- A call that ends ends as well when more calls may be inside each other. -/
theorem markAsDeleted_of_le {n m : ℕ} (hle : n ≤ m) {marks marks' : Marks α}
    (h : heap.markAsDeleted n marks k = some marks') : heap.markAsDeleted m marks k = some marks' := by
  induction n generalizing m marks k marks' with
  | zero => cases h
  | succ n ih =>
    obtain ⟨m, rfl⟩ := Nat.exists_eq_add_of_le' (Nat.lt_of_lt_of_le n.succ_pos hle)
    have hcall : ∀ (s : Marks α) a t, heap.markAsDeleted n s a = some t → heap.markAsDeleted m s a = some t :=
      fun s a t hs => ih (Nat.le_of_succ_le_succ hle) hs
    rw [markAsDeleted_succ] at h ⊢
    obtain ⟨middle, hfirst, hrest⟩ := Option.bind_eq_some_iff.mp h
    refine Option.bind_eq_some_iff.mpr ⟨middle, ?_, foldlM_of_le hcall hrest⟩
    rw [kernelMarkAsDeleted_eq] at hfirst ⊢
    split_ifs at hfirst ⊢ with hdeleted
    · exact hfirst
    · exact foldlM_of_le hcall hfirst

variable [Fintype α]

/-- How many calls may be inside each other before each of them ends: a main kernel may call a discoverer without being
marked itself. -/
def callDepth (heap : KernelHeap α P) (marks : Marks α) (k : α) : ℕ :=
  2 * unmarked marks.sack + if (heap.discoverers k).isSome then 1 else 0

/-- Calls one after another, if each of them ends and visits its kernel whatever else has been marked before. -/
theorem visits_foldlM {depth n : ℕ} (ks : List α) (h : ∀ k ∈ ks, ∀ marks : Marks α, unmarked marks.sack ≤ n →
    ∃ marks', heap.markAsDeleted depth marks k = some marks' ∧ Visits heap.Link [k] marks.sack marks'.sack)
    (marks : Marks α) (hn : unmarked marks.sack ≤ n) :
    ∃ marks', ks.foldlM (heap.markAsDeleted depth) marks = some marks' ∧
      Visits heap.Link ks marks.sack marks'.sack :=
  Visits.foldlM (fun _ _ hsubset hs => le_trans (unmarked_le hsubset) hs) h hn

/-- **A call of `mark_as_deleted` ends**, and visits the kernel along its links. -/
theorem markAsDeleted_visits (depth : ℕ) (marks : Marks α) (k : α) (h : heap.callDepth marks k < depth) :
    ∃ marks', heap.markAsDeleted depth marks k = some marks' ∧ Visits heap.Link [k] marks.sack marks'.sack := by
  induction depth generalizing marks k with
  | zero => exact absurd h (Nat.not_lt_zero _)
  | succ depth ih =>
    unfold callDepth at h
    rw [markAsDeleted_succ, kernelMarkAsDeleted_eq]
    -- a discoverer needs one call less than the main kernel, whatever has been marked in between
    have hdiscoverers : ∀ start : Marks α, marks.sack ⊆ start.sack →
        ∃ marks', ((heap.discoverers k).getD []).foldlM (heap.markAsDeleted depth) start = some marks' ∧
          Visits heap.Link ((heap.discoverers k).getD []) start.sack marks'.sack := by
      intro start hstart
      refine visits_foldlM _ (fun d hd s hs => ih s d ?_) start (unmarked_le hstart)
      obtain ⟨ds, hds, hmem⟩ := mem_discoverers.mp hd
      simp only [hds, Option.isSome_some, if_true] at h
      simp only [callDepth, heap.discoverers_eq_none k ds hds d hmem, Option.isSome_none]
      simp only [Bool.false_eq_true, if_false]
      omega
    by_cases hdeleted : marks.deleted k = true
    · obtain ⟨marks', hcall, hvisits⟩ := hdiscoverers marks (List.Subset.refl _)
      refine ⟨marks', by simpa [hdeleted] using hcall, ?_⟩
      exact Visits.again ((marks.deleted_iff k).mp hdeleted) (fun r hr => Or.inr (mem_discoverers.mp hr)) hvisits
    · have hlt : unmarked (marks.sack ++ [k]) < unmarked marks.sack :=
        unmarked_append_lt fun hk => hdeleted ((marks.deleted_iff k).mpr hk)
      -- there is one kernel less that is not marked, which makes up for the call
      obtain ⟨middle, hparents, hvisits⟩ :=
        visits_foldlM (heap.parents k) (fun p _ s hs => ih s p (by unfold callDepth; split_ifs at h ⊢ <;> omega))
          (marks.mark k hdeleted) (le_of_eq (congrArg unmarked (marks.sack_mark k hdeleted)))
      have hmiddle : marks.sack ⊆ middle.sack := List.Subset.trans (List.subset_append_left _ _) hvisits.subset
      obtain ⟨marks', hcall, hvisits'⟩ := hdiscoverers middle hmiddle
      refine ⟨marks', by simp [hdeleted, hparents, hcall], Visits.mark (fun l => ?_) (hvisits.append hvisits')⟩
      rw [List.mem_append, mem_parents, mem_discoverers, Link]

/-- **What is in the sack** after the roots have been cleared: once each, what can be reached from them along the
links of native kernels to their parents and of the main kernel to its discoverers. -/
theorem clear_sack (heap : KernelHeap α P) (roots : List α) : ∃ (marks : Marks α) (depth : ℕ),
    (∀ n, depth ≤ n → heap.clearQueue n Marks.none roots = some marks) ∧ marks.sack.Nodup ∧
      ∀ k, k ∈ marks.sack ↔ ∃ r ∈ roots, ReflTransGen heap.Link r k := by
  have hdepth : ∀ (k : α) (marks : Marks α), unmarked marks.sack ≤ unmarked ([] : List α) →
      heap.callDepth marks k < 2 * unmarked ([] : List α) + 2 := by
    intro k marks hmarks
    unfold callDepth
    split_ifs <;> omega
  obtain ⟨marks, hclear, hvisits⟩ := visits_foldlM roots
    (fun k _ marks hmarks => markAsDeleted_visits _ marks k (hdepth k marks hmarks)) Marks.none le_rfl
  refine ⟨marks, 2 * unmarked ([] : List α) + 2, fun n hn => ?_, marks.nodup, fun k => hvisits.mem_iff⟩
  exact foldlM_of_le (fun s a t => markAsDeleted_of_le hn) hclear

end KernelHeap

/-! ### The daemon -/

/-- The main kernel of a daemon with one discoverer, whose parent it is. -/
def daemonHeap : KernelHeap Bool Unit where
  kernel k := { Header.fresh 1 with payload := .native "kernel" (), parentWord := if k then 1 else 0 }
  deref _ := false
  discoverers k := if k then none else some [true]
  discoverers_eq_none := by decide

/-- The main kernel takes the discoverer with it, although it is not its child. -/
theorem discoverer_in_sack : ¬∀ (heap : KernelHeap Bool Unit) (roots : List Bool), ∃ (marks : Marks Bool) (depth : ℕ),
    (∀ n, depth ≤ n → heap.clearQueue n Marks.none roots = some marks) ∧
      ∀ k, k ∈ marks.sack ↔ ∃ r ∈ roots, ReflTransGen heap.ParentLink r k := by
  intro h
  obtain ⟨marks, depth, hclear, hsack⟩ := h daemonHeap [false]
  have hrun : (daemonHeap.clearQueue 4 Marks.none [false]).map Marks.sack = some [false, true] := by decide
  obtain ⟨marks', hfour, hsack'⟩ := Option.map_eq_some_iff.mp hrun
  have hmore := foldlM_of_le (fun s a t => KernelHeap.markAsDeleted_of_le (le_max_left 4 depth)) hfour
  have heq : marks = marks' := Option.some.inj ((hclear _ (le_max_right 4 depth)).symm.trans hmore)
  have hmem : true ∈ marks.sack := by simp [heq, hsack']
  obtain ⟨r, hr, hreach⟩ := (hsack true).mp hmem
  rw [List.mem_singleton.mp hr] at hreach
  rcases hreach.cases_head with hfalse | ⟨p, ⟨-, hparent⟩, -⟩
  · cases hfalse
  · exact absurd hparent (by decide +revert)

end Subordination.Daemon
