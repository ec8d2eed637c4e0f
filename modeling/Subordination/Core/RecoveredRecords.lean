import Subordination.Core.PlugParents
import Subordination.Library.Refusals

/-!
# Handing over the records of the log

`transaction_log::recover(record_array&)` hands the kernels of the records to the pipelines; with a delay it is
`transaction_kernel::act` that calls it (`core/transaction_log.cc`).

## The model

The pipelines are known by their indices. What has been handed over is the state, so that it is there when
`recover` does not return. The index of a record is compared with the number of the pipelines, and what follows
then is the same whether the record is good or not: the kernel is dropped, and then the pipeline is looked up and
the kernel looked at.

A pipeline may throw, as `forward` of the process pipeline does when an application cannot be started. `throws` says
which kernels are refused, given what has been handed over before. Nothing in `recover` catches the exception, and
the kernel is gone.

## What is proved

* `recover_iff` — when the kernels all get to their pipelines.
* `recover_bad`, `recover_thrown` — otherwise the first record with a bad index ends the process, or the first
  exception leaves `recover`, and the later records are not handed over.
-/

namespace Subordination.Core

open Library
open Resources (Trap)

/-- What is done with a kernel, given by its place. -/
inductive Handing where
  /-- `send`, of the pipeline with the given index. -/
  | send (pipeline : ℕ) (k : UInt64)
  /-- `forward`, of the pipeline with the given index. -/
  | forward (pipeline : ℕ) (k : UInt64)
  deriving DecidableEq

/-- Why `recover` does not return. -/
inductive Interruption where
  /-- The process ends. -/
  | trap (t : Trap)
  /-- A pipeline has thrown. -/
  | thrown
  deriving DecidableEq

section Recover

variable {P : Type}

/-- The kernel of a record goes to the pipeline of the record. -/
def HeldRecord.handing (mem : Memory P) (r : HeldRecord) : Handing :=
  if (mem r.k).isNative then .send r.pipelineIndex.toNat r.k else .forward r.pipelineIndex.toNat r.k

/-- `send` or `forward`. -/
def Handing.perform (throws : List Handing → Handing → Bool) (h : Handing) :
    EStateM Interruption (List Handing) Unit := fun handed =>
  if throws handed h then .error .thrown handed else .ok () (handed ++ [h])

/-- The inside of the second loop of `recover`. -/
def recoverRecord (throws : List Handing → Handing → Bool) (pipelines : ℕ) (mem : Memory P) (r : HeldRecord) :
    EStateM Interruption (List Handing) Unit :=
  if r.k = 0 then pure ()
  else do
    -- `r.k.reset()`
    let r := if pipelines ≤ r.pipelineIndex.toNat then { r with k := 0 } else r
    if pipelines ≤ r.pipelineIndex.toNat then throw (.trap .outOfBounds)
    else if r.k = 0 then throw (.trap .nullPointer)
    else (r.handing mem).perform throws

/-- `recover(record_array&)`. -/
def recover (throws : List Handing → Handing → Bool) (pipelines : ℕ) (mem : Memory P) (records : List HeldRecord) :
    EStateM Interruption (List Handing) Unit :=
  records.forM (recoverRecord throws pipelines mem)

/-- The index of a record that has a kernel is that of a pipeline. -/
def HeldRecord.Good (pipelines : ℕ) (r : HeldRecord) : Prop := r.k ≠ 0 → r.pipelineIndex.toNat < pipelines

instance (pipelines : ℕ) (r : HeldRecord) : Decidable (r.Good pipelines) := inferInstanceAs (Decidable (_ → _))

/-- The kernels that are to be handed over. -/
def handings (pipelines : ℕ) (mem : Memory P) (records : List HeldRecord) : List Handing :=
  (records.filter fun r => r.k ≠ 0 ∧ r.pipelineIndex.toNat < pipelines).map (HeldRecord.handing mem)

variable {throws : List Handing → Handing → Bool} {pipelines : ℕ} {mem : Memory P} {r : HeldRecord}
  {records later : List HeldRecord} {handed : List Handing}

@[simp] theorem handings_nil : handings pipelines mem [] = [] := rfl

theorem handings_append (records later : List HeldRecord) : handings pipelines mem (records ++ later) =
    handings pipelines mem records ++ handings pipelines mem later := by
  simp only [handings, ← List.map_append, ← List.filter_append]

theorem handings_cons (r : HeldRecord) (records : List HeldRecord) : handings pipelines mem (r :: records) =
    handings pipelines mem [r] ++ handings pipelines mem records :=
  handings_append [r] records

/-- A good record has a kernel for its pipeline, or none. -/
theorem handings_singleton (h : r.Good pipelines) :
    handings pipelines mem [r] = if r.k = 0 then [] else [r.handing mem] := by
  by_cases hk : r.k = 0
  · simp [handings, hk]
  · simp [handings, hk, h hk]

/-- A good record gets to its pipeline, if it has a kernel and the pipeline does not throw. -/
theorem recoverRecord_good (h : r.Good pipelines) (haccepted : Accepted throws handed (handings pipelines mem [r])) :
    recoverRecord throws pipelines mem r handed = .ok () (handed ++ handings pipelines mem [r]) := by
  rw [handings_singleton h] at haccepted ⊢
  unfold recoverRecord
  by_cases hk : r.k = 0
  · rw [if_pos hk, if_pos hk, List.append_nil]
    rfl
  · rw [if_neg hk] at haccepted ⊢
    simp [hk, Nat.not_le.mpr (h hk), Handing.perform, (accepted_cons.mp haccepted).1]

/-- An exception leaves `recover`. -/
theorem recoverRecord_thrown (h : r.Good pipelines)
    (haccepted : ¬ Accepted throws handed (handings pipelines mem [r])) :
    recoverRecord throws pipelines mem r handed = .error .thrown handed := by
  rw [handings_singleton h] at haccepted
  unfold recoverRecord
  by_cases hk : r.k = 0
  · rw [if_pos hk] at haccepted
    exact absurd accepted_nil haccepted
  · rw [if_neg hk, accepted_cons, and_iff_left accepted_nil, Bool.not_eq_false] at haccepted
    simp [hk, Nat.not_le.mpr (h hk), Handing.perform, haccepted]

/-- **A record with a bad index ends the process.** -/
theorem recoverRecord_bad (h : ¬ r.Good pipelines) :
    recoverRecord throws pipelines mem r handed = .error (.trap .outOfBounds) handed := by
  simp only [HeldRecord.Good, Classical.not_imp, Nat.not_lt] at h
  simp [recoverRecord, h.1, h.2]
  rfl

theorem recover_cons : recover throws pipelines mem (r :: records) handed =
    EStateM.bind (recoverRecord throws pipelines mem r) (fun _ => recover throws pipelines mem records) handed :=
  rfl

/-- The good records at the front are handed over, and the others are gone on with. -/
theorem recover_append (h : ∀ r ∈ records, r.Good pipelines)
    (haccepted : Accepted throws handed (handings pipelines mem records)) :
    recover throws pipelines mem (records ++ later) handed =
      recover throws pipelines mem later (handed ++ handings pipelines mem records) := by
  induction records generalizing handed with
  | nil => simp
  | cons r records ih =>
    obtain ⟨hr, hrecords⟩ := List.forall_mem_cons.mp h
    rw [handings_cons, accepted_append] at haccepted
    rw [List.cons_append, recover_cons, EStateM.bind, recoverRecord_good hr haccepted.1]
    dsimp only
    rw [ih hrecords haccepted.2, handings_cons r records, List.append_assoc]

/-- The first record with a bad index ends the process; the kernels of the records before it have been handed
over. -/
theorem recover_bad (h : ∀ r ∈ records, r.Good pipelines)
    (haccepted : Accepted throws handed (handings pipelines mem records)) (hr : ¬ r.Good pipelines) :
    recover throws pipelines mem (records ++ r :: later) handed =
      .error (.trap .outOfBounds) (handed ++ handings pipelines mem records) := by
  rw [recover_append h haccepted, recover_cons, EStateM.bind, recoverRecord_bad hr]

/-- The first exception leaves `recover`; the kernels of the records before have been handed over. -/
theorem recover_thrown (h : ∀ r ∈ records, r.Good pipelines)
    (haccepted : Accepted throws handed (handings pipelines mem records)) (hr : r.Good pipelines)
    (hthrows : ¬ Accepted throws (handed ++ handings pipelines mem records) (handings pipelines mem [r])) :
    recover throws pipelines mem (records ++ r :: later) handed =
      .error .thrown (handed ++ handings pipelines mem records) := by
  rw [recover_append h haccepted, recover_cons, EStateM.bind, recoverRecord_thrown hr hthrows]

/-- **How `recover` ends**: it hands all kernels over, or stops at the first record with a bad index, or at the first
kernel that is refused, with those before handed over. -/
theorem recover_cases (throws : List Handing → Handing → Bool) (pipelines : ℕ) (mem : Memory P)
    (records : List HeldRecord) (handed : List Handing) :
    (recover throws pipelines mem records handed = .ok () (handed ++ handings pipelines mem records) ∧
      (∀ r ∈ records, r.Good pipelines) ∧ Accepted throws handed (handings pipelines mem records)) ∨
    ∃ before r after, records = before ++ r :: after ∧ (∀ r ∈ before, r.Good pipelines) ∧
      Accepted throws handed (handings pipelines mem before) ∧
      ((¬ r.Good pipelines ∧ recover throws pipelines mem records handed =
          .error (.trap .outOfBounds) (handed ++ handings pipelines mem before)) ∨
        (r.Good pipelines ∧
          ¬ Accepted throws (handed ++ handings pipelines mem before) (handings pipelines mem [r]) ∧
          recover throws pipelines mem records handed =
            .error .thrown (handed ++ handings pipelines mem before))) := by
  induction records using List.reverseRecOn with
  | nil => exact Or.inl ⟨by rw [handings_nil, List.append_nil]; rfl, nofun, accepted_nil⟩
  | append_singleton records r ih =>
    rcases ih with ⟨-, hgood, haccepted⟩ | ⟨before, r', after, rfl, hgood, haccepted, hends⟩
    · by_cases hr : r.Good pipelines
      · by_cases hthrows : Accepted throws (handed ++ handings pipelines mem records) (handings pipelines mem [r])
        · have hall : ∀ r' ∈ records ++ [r], r'.Good pipelines := by
            rw [List.forall_mem_append]
            exact ⟨hgood, List.forall_mem_singleton.mpr hr⟩
          have haccepted' : Accepted throws handed (handings pipelines mem (records ++ [r])) := by
            rw [handings_append, accepted_append]
            exact ⟨haccepted, hthrows⟩
          have hrecover : recover throws pipelines mem (records ++ [r] ++ []) handed = _ :=
            recover_append hall haccepted'
          rw [List.append_nil] at hrecover
          exact Or.inl ⟨hrecover, hall, haccepted'⟩
        · exact Or.inr ⟨records, r, [], rfl, hgood, haccepted,
            Or.inr ⟨hr, hthrows, recover_thrown hgood haccepted hr hthrows⟩⟩
      · exact Or.inr ⟨records, r, [], rfl, hgood, haccepted, Or.inl ⟨hr, recover_bad hgood haccepted hr⟩⟩
    · rw [List.append_assoc, List.cons_append]
      refine Or.inr ⟨before, r', after ++ [r], rfl, hgood, haccepted, ?_⟩
      rcases hends with ⟨hr, -⟩ | ⟨hr, hthrows, -⟩
      · exact Or.inl ⟨hr, recover_bad hgood haccepted hr⟩
      · exact Or.inr ⟨hr, hthrows, recover_thrown hgood haccepted hr hthrows⟩

/-- **The kernels get to their pipelines**, each exactly once, those of the records with a bad index are dropped,
and nothing goes wrong, if and only if no record that has a kernel has a bad index, and no pipeline throws. -/
theorem recover_iff (throws : List Handing → Handing → Bool) (pipelines : ℕ) (mem : Memory P)
    (records : List HeldRecord) :
    recover throws pipelines mem records [] = .ok () (handings pipelines mem records) ↔
      (∀ r ∈ records, r.k ≠ 0 → r.pipelineIndex.toNat < pipelines) ∧
        Accepted throws [] (handings pipelines mem records) := by
  rcases recover_cases throws pipelines mem records [] with
    ⟨hrecover, hgood, haccepted⟩ | ⟨before, r, after, rfl, hgood, haccepted, hends⟩
  · exact iff_of_true hrecover ⟨hgood, haccepted⟩
  · refine iff_of_false ?_ ?_
    · rcases hends with ⟨-, hrecover⟩ | ⟨-, -, hrecover⟩
      · rw [hrecover]
        exact fun h => by cases h
      · rw [hrecover]
        exact fun h => by cases h
    · rintro ⟨hall, hthrows⟩
      rw [handings_append, handings_cons, accepted_append, accepted_append] at hthrows
      rcases hends with ⟨hr, -⟩ | ⟨-, hr, -⟩
      · exact hr (hall r (by simp))
      · exact hr hthrows.2.1

end Recover

/-- A record whose index is from another configuration. -/
def HeldRecord.stale : HeldRecord := ⟨.start, 3, 1⟩

/-- **A bad index ends the process**, and the good record behind it is lost with the bad one. -/
theorem recover_stale : ¬ recover (fun _ _ => false) 2 (fun _ => Kernel.plain []) [.stale, ⟨.start, 0, 2⟩] [] =
    .ok () (handings 2 (fun _ => Kernel.plain []) [.stale, ⟨.start, 0, 2⟩]) := by
  rw [recover_cons, EStateM.bind, recoverRecord_bad (by decide)]
  exact fun h => by cases h

end Subordination.Core
