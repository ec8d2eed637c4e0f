import Subordination.Core.RecoveredRecords
import Subordination.Library.Firsts
import Subordination.Library.System

/-!
# Tests of the transaction log

A daemon runs an application for `Transaction_test_kernel`, gathers the records that the logs of its neighbours have
of it and recovers them (`daemon/transaction_test_kernel.cc`). The records are gathered by a
`Transaction_gather_superior`, which sends a `Transaction_gather_subordinate` to every client.

## The model

A subordinate comes back once: with the records that `select` has found at its destination, or undelivered and
without any. The records that come back have been decoded, so they are in the memory of the daemon that gathers them.
Main kernels come back to the test: the one it has sent, and after that at most one for each kernel that has been
handed over. A record with a bad index ends the process, and the run with it. A pipeline that throws when it is given
the kernel of a record ends the reaction of the test, and the test is destroyed; what a kernel does that comes back to
it later is left out.

## What is proved

* **`gathers_records`**: the superior returns at most once, after the last subordinate, with the first record of every
  kernel that has come; how many records there are and of which kernels does not depend on the order in which the
  subordinates come back.
* **`test_finishes_iff`**: the records are handed over once, up to the first that a pipeline refuses, and the test is
  finished if and only if there are none.
-/

namespace Subordination.Core

/-- The record after its kernel has been handed over. -/
def HeldRecord.spend (r : HeldRecord) : HeldRecord := { r with k := 0 }

end Subordination.Core

namespace Subordination.Daemon

open Subordination.Core Subordination.Library

variable {P : Type}

/-! ### Records -/

/-- `*a.k == *b.k`, of `kernel::operator==`. -/
def sameKernel (mem : Memory P) (a b : HeldRecord) : Bool :=
  a.k == b.k || ((mem a.k).id == (mem b.k).id && (mem a.k).hasId && (mem b.k).hasId)

theorem isKind_sameKernel (mem : Memory P) : IsKind (sameKernel mem) where
  symm a b h := by
    simp only [sameKernel, Bool.or_eq_true, Bool.and_eq_true, beq_iff_eq] at h ⊢
    rcases h with h | ⟨⟨hid, ha⟩, hb⟩
    · exact Or.inl h.symm
    · exact Or.inr ⟨⟨hid.symm, hb⟩, ha⟩
  trans a b c hab hbc := by
    simp only [sameKernel, Bool.or_eq_true, Bool.and_eq_true, beq_iff_eq] at hab hbc ⊢
    rcases hab with hab | ⟨⟨hid, ha⟩, hb⟩
    · rw [hab]
      exact hbc
    · rcases hbc with hbc | ⟨⟨hid', -⟩, hc⟩
      · rw [← hbc]
        exact Or.inr ⟨⟨hid, ha⟩, hb⟩
      · exact Or.inr ⟨⟨hid.trans hid', ha⟩, hc⟩

/-- What `select` keeps: the kernels of an application. -/
def IsSelected (mem : Memory P) (application : UInt64) (r : HeldRecord) : Prop :=
  r.k ≠ 0 ∧ ((mem r.k).sourceApplicationId = application ∨ (mem r.k).targetApplicationId = application)

instance (mem : Memory P) (application : UInt64) (r : HeldRecord) : Decidable (IsSelected mem application r) :=
  inferInstanceAs (Decidable (_ ∧ _))

/-- `transaction_log::select`, given what `read_records` has found. -/
def select (mem : Memory P) (application : UInt64) (log : List HeldRecord) : List HeldRecord :=
  log.filter fun r => IsSelected mem application r

/-! ### Gathering -/

/-- `Transaction_gather_superior`. -/
structure GatherSuperior where
  /-- `_records`. -/
  records : List HeldRecord := []
  /-- `_nkernels`. -/
  nkernels : UInt64

/-- `Transaction_gather_superior::react`: the kernel, and whether it returns to its parent. -/
def GatherSuperior.react (mem : Memory P) (s : GatherSuperior) (records : List HeldRecord) : GatherSuperior × Bool :=
  let s := { records := putAll (sameKernel mem) s.records records, nkernels := s.nkernels - 1 : GatherSuperior }
  (s, s.nkernels = 0)

/-- Where a `Transaction_gather_subordinate` is. -/
inductive Errand where
  /-- It is on its way to its destination. -/
  | sent
  /-- It is on its way back, with its `_records`. -/
  | back (records : List HeldRecord)
  /-- It has come back. -/
  | received

/-- The subordinate has not come back. -/
def Errand.isOpen : Errand → Bool
  | sent | back _ => true
  | received => false

/-- A superior with its subordinates. -/
structure Gather where
  /-- The superior. -/
  superior : GatherSuperior
  /-- The subordinates. -/
  errands : List Errand
  /-- What has come back with them, in this order. -/
  replies : List (List HeldRecord) := []
  /-- The records with which the superior has returned. -/
  returns : List (List HeldRecord) := []

namespace Gather

/-- `Transaction_gather_superior::act`, with a number of clients. -/
def start (clients : ℕ) : Gather where
  superior := { nkernels := UInt64.ofNat clients }
  errands := List.replicate clients .sent

/-- A subordinate comes back. -/
def receive (mem : Memory P) (g : Gather) (records : List HeldRecord) (errands : List Errand) : Gather :=
  let (superior, last) := g.superior.react mem records
  { superior
    errands
    replies := g.replies ++ [records]
    returns := if last then g.returns ++ [superior.records] else g.returns }

/-- What may happen to the subordinates of a superior that is there. -/
inductive Step (mem : Memory P) (application : UInt64) : Gather → Gather → Prop
  /-- `Transaction_gather_subordinate::act`. -/
  | act {g : Gather} {before after : List Errand} {log : List HeldRecord} : g.errands = before ++ .sent :: after →
      Step mem application g { g with errands := before ++ .back (select mem application log) :: after }
  /-- It cannot be delivered, or its connection fails. -/
  | fail {g : Gather} {before after : List Errand} : g.errands = before ++ .sent :: after →
      Step mem application g { g with errands := before ++ .back [] :: after }
  /-- It comes back. -/
  | react {g : Gather} {before after : List Errand} {records : List HeldRecord} : g.returns = [] →
      g.errands = before ++ .back records :: after →
      Step mem application g (g.receive mem records (before ++ .received :: after))

/-- The runs with a number of clients. -/
def system (mem : Memory P) (application : UInt64) (clients : ℕ) : System Gather where
  Initial g := g = start clients
  Step := Step mem application

/-- The number of subordinates that have not come back. -/
def opens (errands : List Errand) : ℕ := errands.countP Errand.isOpen

/-- What holds of a superior and its subordinates. -/
structure Valid (mem : Memory P) (application : UInt64) (clients : ℕ) (g : Gather) : Prop where
  /-- There is one for each client. -/
  length : g.errands.length = clients
  /-- They are counted. -/
  nkernels : g.superior.nkernels.toNat = opens g.errands
  /-- The first record of each kernel is kept. -/
  records : g.superior.records = putAll (sameKernel mem) [] g.replies.flatten
  /-- All records are of the application. -/
  selected : ∀ records, .back records ∈ g.errands ∨ records ∈ g.replies → ∀ r ∈ records, IsSelected mem application r
  /-- The superior returns after the last. -/
  returns : g.returns = if 0 < clients ∧ opens g.errands = 0 then [g.superior.records] else []

variable {mem : Memory P} {application : UInt64} {clients : ℕ} {g g' : Gather} {before after : List Errand}
  {e e' : Errand}

theorem opens_replicate (n : ℕ) : opens (List.replicate n .sent) = n := by
  rw [opens, List.countP_replicate]
  exact if_pos rfl

theorem opens_append_cons (before after : List Errand) (e : Errand) :
    opens (before ++ e :: after) = opens before + opens after + if e.isOpen then 1 else 0 := by
  simp only [opens, List.countP_append, List.countP_cons]
  omega

theorem valid_start (hclients : clients < 2 ^ 64) : (start clients).Valid mem application clients where
  length := List.length_replicate
  nkernels := by
    show (UInt64.ofNat clients).toNat = opens (List.replicate clients .sent)
    rw [opens_replicate, UInt64.toNat_ofNat_of_lt' hclients]
  records := rfl
  selected records h := by
    rcases h with h | h
    · exact absurd (List.eq_of_mem_replicate h) Errand.noConfusion
    · exact absurd h List.not_mem_nil
  returns := by
    show [] = if 0 < clients ∧ opens (List.replicate clients .sent) = 0 then _ else _
    rw [opens_replicate, if_neg]
    omega

/-- A subordinate that has been sent goes back. -/
theorem Valid.goBack (hg : g.Valid mem application clients) (hsent : g.errands = before ++ .sent :: after)
    {records : List HeldRecord} (hselected : ∀ r ∈ records, IsSelected mem application r) :
    { g with errands := before ++ .back records :: after : Gather }.Valid mem application clients := by
  have hopens : opens (before ++ .back records :: after) = opens g.errands := by
    rw [hsent, opens_append_cons, opens_append_cons]
    rfl
  refine ⟨?_, hg.nkernels.trans hopens.symm, hg.records, fun records' h => ?_, ?_⟩
  · rw [← hg.length, hsent, List.length_append, List.length_append]
    rfl
  · rcases h with h | h
    · rw [List.mem_append, List.mem_cons] at h
      rcases h with h | h | h
      · exact hg.selected records' (Or.inl (hsent ▸ List.mem_append_left _ h))
      · rw [Errand.back.inj h]
        exact hselected
      · exact hg.selected records' (Or.inl (hsent ▸ List.mem_append_right _ (List.mem_cons_of_mem _ h)))
    · exact hg.selected records' (Or.inr h)
  · rw [hopens]
    exact hg.returns

/-- **The counter is zero after the last subordinate.** -/
theorem Valid.receive (hg : g.Valid mem application clients) {records : List HeldRecord}
    (hback : g.errands = before ++ .back records :: after) :
    (g.receive mem records (before ++ .received :: after)).Valid mem application clients := by
  have hbefore : opens g.errands = opens before + opens after + 1 := by
    rw [hback, opens_append_cons]
    rfl
  have hopens : opens (before ++ .received :: after) = opens before + opens after := by
    rw [opens_append_cons]
    rfl
  have hnkernels : (g.superior.nkernels - 1).toNat = opens (before ++ .received :: after) := by
    have hle : (1 : UInt64) ≤ g.superior.nkernels := by
      rw [UInt64.le_iff_toNat_le, hg.nkernels, hbefore]
      exact Nat.le_add_left 1 _
    rw [UInt64.toNat_sub_of_le _ _ hle, hg.nkernels, hbefore, hopens]
    rfl
  have hlast : (g.superior.nkernels - 1 = 0) ↔ opens (before ++ .received :: after) = 0 := by
    rw [← hnkernels, ← UInt64.toNat_inj]
    rfl
  have hclients : 0 < clients := by
    rw [← hg.length, hback, List.length_append, List.length_cons]
    omega
  have hnone : g.returns = [] := by
    rw [hg.returns, if_neg]
    omega
  refine ⟨?_, hnkernels, ?_, fun records' h => ?_, ?_⟩
  · show (before ++ .received :: after).length = clients
    rw [← hg.length, hback, List.length_append, List.length_append]
    rfl
  · show putAll (sameKernel mem) g.superior.records records =
      putAll (sameKernel mem) [] (g.replies ++ [records]).flatten
    rw [List.flatten_append, List.flatten_singleton, putAll_append, hg.records]
  · rcases h with h | h
    · have h : .back records' ∈ before ++ .received :: after := h
      rw [List.mem_append, List.mem_cons] at h
      rcases h with h | h | h
      · exact hg.selected records' (Or.inl (hback ▸ List.mem_append_left _ h))
      · exact absurd h Errand.noConfusion
      · exact hg.selected records' (Or.inl (hback ▸ List.mem_append_right _ (List.mem_cons_of_mem _ h)))
    · rcases List.mem_append.1 h with h | h
      · exact hg.selected records' (Or.inr h)
      · rw [List.mem_singleton.1 h]
        exact hg.selected records (Or.inl (hback ▸ List.mem_append_right _ List.mem_cons_self))
  · show (if decide (g.superior.nkernels - 1 = 0) = true then g.returns ++ _ else g.returns) =
      if 0 < clients ∧ opens (before ++ .received :: after) = 0 then _ else []
    simp only [decide_eq_true_eq, hlast, hclients, true_and, hnone, List.nil_append]
    rfl

theorem Valid.step (hg : g.Valid mem application clients) (h : Step mem application g g') :
    g'.Valid mem application clients := by
  cases h with
  | act hsent => exact hg.goBack hsent fun r hr => by simpa using (List.mem_filter.1 hr).2
  | fail hsent => exact hg.goBack hsent fun r hr => absurd hr List.not_mem_nil
  | react _ hback => exact hg.receive hback

theorem valid_of_reachable (hclients : clients < 2 ^ 64) (h : (system mem application clients).Reachable g) :
    g.Valid mem application clients :=
  h.invariant (fun _ heq => heq ▸ valid_start hclients) fun _ _ => Valid.step

/-- The steps that the subordinates are still to take. -/
def work (errands : List Errand) : ℕ :=
  (errands.map fun
    | .sent => 2
    | .back _ => 1
    | .received => 0).sum

theorem work_append_cons (before after : List Errand) (e : Errand) :
    work (before ++ e :: after) = work [e] + work (before ++ after) := by
  simp only [work, List.map_append, List.map_cons, List.map_nil, List.sum_append, List.sum_cons, List.sum_nil]
  omega

theorem work_replicate (n : ℕ) : work (List.replicate n .sent) = 2 * n := by
  induction n with
  | zero => rfl
  | succ n ih =>
    have hcons := work_append_cons [] (List.replicate n .sent) .sent
    rw [List.nil_append, List.nil_append, ih] at hcons
    rw [List.replicate_succ, hcons, Nat.mul_succ, Nat.add_comm]
    rfl

theorem work_step (h : Step mem application g g') : work g'.errands < work g.errands := by
  cases h with
  | @act before after log hsent =>
    rw [hsent]
    show work (before ++ .back (select mem application log) :: after) < _
    rw [work_append_cons, work_append_cons before after .sent]
    exact Nat.add_lt_add_right (Nat.lt_succ_self 1) _
  | @fail before after hsent =>
    rw [hsent]
    show work (before ++ .back [] :: after) < _
    rw [work_append_cons, work_append_cons before after .sent]
    exact Nat.add_lt_add_right (Nat.lt_succ_self 1) _
  | @react before after records _ hback =>
    rw [hback]
    show work (before ++ .received :: after) < _
    rw [work_append_cons, work_append_cons before after (.back records)]
    exact Nat.add_lt_add_right Nat.one_pos _

/-- No subordinate is open if all have come back. -/
theorem opens_eq_zero_iff {errands : List Errand} : opens errands = 0 ↔ ∀ e ∈ errands, e = .received := by
  rw [opens, List.countP_eq_zero]
  refine forall_congr' fun e => imp_congr_right fun _ => ?_
  cases e with
  | sent => simp [Errand.isOpen]
  | back records => simp [Errand.isOpen]
  | received => simp [Errand.isOpen]

/-- **The records are gathered**: the superior returns if and only if there are clients and all subordinates have come
back, once, with records of which no two are of the same kernel, all of the application, and one for the kernel of
every record that has come. If the subordinates had come back in another order there would be as many records, of the
same kernels. -/
theorem gathers_records (hclients : clients < 2 ^ 64) (h : (system mem application clients).Reachable g) :
    (g.returns = [] ∨ g.returns = [g.superior.records]) ∧
    (g.returns ≠ [] ↔ 0 < clients ∧ ∀ e ∈ g.errands, e = .received) ∧
    (g.superior.records.Pairwise fun b a => sameKernel mem a b = false) ∧
    (∀ r ∈ g.superior.records, IsSelected mem application r ∧ ∃ records ∈ g.replies, r ∈ records) ∧
    (∀ records ∈ g.replies, ∀ r ∈ records, ∃ r' ∈ g.superior.records, sameKernel mem r r' = true) ∧
    ∀ replies, g.replies.Perm replies →
      Alike (sameKernel mem) g.superior.records (putAll (sameKernel mem) [] replies.flatten) := by
  have hg := valid_of_reachable hclients h
  refine ⟨?_, ?_, ?_, fun r hr => ?_, fun records hrecords r hr => ?_, fun replies hperm => ?_⟩
  · rw [hg.returns]
    split
    · exact Or.inr rfl
    · exact Or.inl rfl
  · rw [hg.returns, ← opens_eq_zero_iff]
    split
    · next hall => simp [hall]
    · next hall => simp [hall]
  · rw [hg.records]
    exact pairwise_putAll List.Pairwise.nil
  · rw [hg.records] at hr
    rcases mem_putAll hr with hr | hr
    · exact absurd hr List.not_mem_nil
    · obtain ⟨records, hrecords, hr⟩ := List.mem_flatten.1 hr
      exact ⟨hg.selected records (Or.inr hrecords) r hr, records, hrecords, hr⟩
  · rw [hg.records]
    rcases exists_mem_putAll (l := []) (List.mem_flatten.2 ⟨records, hrecords, hr⟩) with
      hr | hr
    · exact ⟨r, hr, by simp [sameKernel]⟩
    · exact hr
  · rw [hg.records]
    exact (isKind_sameKernel mem).alike_of_perm hperm.flatten []

/-- **Every gathering ends**, after two steps for each client, and the superior has returned then if and only if there
are clients. -/
theorem gathering_ends (hclients : clients < 2 ^ 64) :
    (∀ (f : ℕ → Gather) (n : ℕ), f 0 = start clients → (∀ i < n, Step mem application (f i) (f (i + 1))) →
        n ≤ 2 * clients) ∧
      ∀ g, (system mem application clients).Reachable g → (∀ g', ¬ Step mem application g g') →
        (g.returns ≠ [] ↔ 0 < clients) := by
  refine ⟨fun f n hstart hsteps => ?_, fun g h hstop => ?_⟩
  · have hle := System.length_le (S := system mem application clients) (p := fun _ => True) (fun g => work g.errands)
      trivial (fun _ _ _ hstep => ⟨trivial, work_step hstep⟩) hsteps
    rw [hstart] at hle
    rwa [start, work_replicate] at hle
  · have hg := valid_of_reachable hclients h
    have hopens : g.returns ≠ [] ∨ opens g.errands = 0 := by
      by_contra hopen
      obtain ⟨hnone, hopen⟩ := not_or.1 hopen
      -- one of the subordinates that have not come back can go on
      obtain ⟨e, he, hisOpen⟩ := List.countP_pos_iff.1 (Nat.pos_of_ne_zero hopen)
      obtain ⟨before, after, hsplit⟩ := List.append_of_mem he
      cases e with
      | sent => exact hstop _ (.fail hsplit)
      | back records => exact hstop _ (.react (not_not.1 hnone) hsplit)
      | received => exact absurd hisOpen Bool.false_ne_true
    rw [hg.returns] at hopens ⊢
    split
    · next hall => simp [hall.1]
    · next hall =>
      rw [if_neg hall] at hopens
      obtain hopens := hopens.resolve_left (not_not_intro rfl)
      simpa [hopens] using hall

/-- Two copies of a kernel, and another one. -/
def twoMemory : Memory Unit := fun a => { Memory.blank a with id := if a ≤ 2 then 5 else 6 }

/-- The record of the first copy. -/
def original : HeldRecord := ⟨.start, 0, 1⟩

/-- The record of the second copy. -/
def copy : HeldRecord := ⟨.start, 0, 2⟩

/-- The record of the other kernel. -/
def other : HeldRecord := ⟨.start, 0, 3⟩

/-- Two subordinates, the second of which has found two records. -/
def twoSent : Gather := { start 2 with errands := [.sent, .back [copy, other]] }

/-- It has come back. -/
def twoHalf : Gather := twoSent.receive twoMemory [copy, other] [.sent, .received]

/-- The first subordinate has found a copy. -/
def twoFound : Gather := { twoHalf with errands := [.back [original], .received] }

/-- Both have come back. -/
def twoGathered : Gather := twoFound.receive twoMemory [original] [.received, .received]

theorem step_twoSent : Step twoMemory 0 (start 2) twoSent :=
  @Step.act _ twoMemory 0 (start 2) [.sent] [] [copy, other] rfl

theorem step_twoHalf : Step twoMemory 0 twoSent twoHalf :=
  @Step.react _ twoMemory 0 twoSent [.sent] [] [copy, other] rfl rfl

theorem step_twoFound : Step twoMemory 0 twoHalf twoFound :=
  @Step.act _ twoMemory 0 twoHalf [] [.received] [original] rfl

theorem step_twoGathered : Step twoMemory 0 twoFound twoGathered :=
  @Step.react _ twoMemory 0 twoFound [] [.received] [original] rfl rfl

theorem twoGathered_reachable : (system twoMemory 0 2).Reachable twoGathered :=
  .step (.step (.step (.step (.initial rfl) step_twoSent) step_twoHalf) step_twoFound) step_twoGathered

theorem twoGathered_received {e : Errand} (he : e ∈ twoGathered.errands) : e = .received := by
  rcases List.mem_cons.1 he with he | he
  · exact he
  · exact List.mem_singleton.1 he

/-- The record that has come first is kept; in the other order it would have been the other one of the two. -/
theorem gathers_records_two : twoGathered.returns ≠ [] ∧ twoGathered.superior.records = [copy, other] ∧
    Alike (sameKernel twoMemory) twoGathered.superior.records
      (putAll (sameKernel twoMemory) [] [[original], [copy, other]].flatten) := by
  obtain ⟨-, hreturns, -, -, -, halike⟩ := gathers_records (by decide) twoGathered_reachable
  refine ⟨hreturns.2 ⟨Nat.two_pos, fun e he => twoGathered_received he⟩, by decide, ?_⟩
  exact halike [[original], [copy, other]] (List.Perm.swap _ _ _)

theorem twoGathered_stopped (g : Gather) : ¬ Step twoMemory 0 twoGathered g := by
  have hnone {before after : List Errand} {e : Errand} (hsplit : twoGathered.errands = before ++ e :: after) :
      e = .received :=
    twoGathered_received (hsplit ▸ List.mem_append_right before List.mem_cons_self)
  intro h
  cases h with
  | act hsplit => cases hnone hsplit
  | fail hsplit => cases hnone hsplit
  | react _ hsplit => cases hnone hsplit

theorem gathering_ends_two : twoGathered.returns ≠ [] :=
  ((gathering_ends (by decide)).2 twoGathered twoGathered_reachable twoGathered_stopped).2 Nat.two_pos

end Gather

/-! ### The test -/

/-- `Transaction_test_kernel`. -/
structure TestKernel where
  /-- `_exit_codes`. -/
  exitCodes : List ExitCode := []
  /-- `_records`. -/
  records : List HeldRecord := []

/-- What a reaction of the test ends with. -/
inductive Reaction where
  /-- A superior is sent. -/
  | gather
  /-- `recover(this->_records)`. -/
  | recover
  /-- The test returns to its parent. -/
  | finish

namespace TestKernel

/-- `Transaction_test_kernel::react`, to a `Foreign_main_kernel`. -/
def reactMain (k : TestKernel) (code : ExitCode) : TestKernel × Reaction :=
  if k.exitCodes.isEmpty then ({ k with exitCodes := [code] }, .gather)
  else if k.records.isEmpty then (k, .finish)
  else ({ k with records := k.records.dropLast }, .recover)

/-- `Transaction_test_kernel::react`, to a `Transaction_gather_superior`. -/
def reactGather (k : TestKernel) (records : List HeldRecord) : TestKernel × Reaction :=
  ({ k with records }, if records.isEmpty then .finish else .recover)

theorem reactMain_recover {k : TestKernel} (hcodes : k.exitCodes ≠ []) (hrecords : k.records ≠ [])
    (code : ExitCode) : k.reactMain code = ({ k with records := k.records.dropLast }, .recover) := by
  rw [reactMain, List.isEmpty_eq_false_iff.2 hcodes, List.isEmpty_eq_false_iff.2 hrecords]
  rfl

theorem reactGather_recover {records : List HeldRecord} (h : records ≠ []) (k : TestKernel) :
    k.reactGather records = ({ k with records }, .recover) := by
  rw [reactGather, List.isEmpty_eq_false_iff.2 h]
  rfl

end TestKernel

/-- Where the superior is. -/
inductive GatherPhase where
  /-- There is none. -/
  | none
  /-- It is to be executed. -/
  | sent
  /-- It waits for its subordinates. -/
  | running (g : Gather)
  /-- The test has taken it, with its records. -/
  | done (records : List HeldRecord)

/-- The test with the kernels that it has sent. -/
structure TestRun where
  /-- The test. -/
  kernel : TestKernel := {}
  /-- The superior. -/
  gather : GatherPhase := .none
  /-- The number of main kernels that are coming back. -/
  mains : ℕ := 1
  /-- The kernels that have been handed over. -/
  handed : List Handing := []
  /-- The number of those that have led to a main kernel. -/
  restarted : ℕ := 0
  /-- The exit codes with which the test has returned. -/
  finished : Option (List ExitCode) := Option.none
  /-- The test has been destroyed by an exception. -/
  destroyed : Bool := false

namespace TestRun

/-- What a reaction ends with. There is no more of a run when `recover` finds a bad index. -/
def perform (throws : List Handing → Handing → Bool) (pipelines : ℕ) (mem : Memory P) (s : TestRun) :
    Reaction → Option TestRun
  | .gather => some { s with gather := .sent }
  | .recover =>
    match recover throws pipelines mem s.kernel.records s.handed with
    | .ok _ handed => some { s with handed, kernel.records := s.kernel.records.map HeldRecord.spend }
    | .error .thrown handed => some { s with handed, destroyed := true }
    | .error (.trap _) _ => none
  | .finish => some { s with finished := some s.kernel.exitCodes }

/-- What may happen after `Transaction_test_kernel::act`, which has sent the first main kernel. -/
inductive Step (throws : List Handing → Handing → Bool) (pipelines : ℕ) (mem : Memory P) (application : UInt64) :
    TestRun → TestRun → Prop
  /-- A main kernel comes back. -/
  | main {s s' : TestRun} {code : ExitCode} : s.finished = none → s.destroyed = false → 0 < s.mains →
      perform throws pipelines mem { s with mains := s.mains - 1, kernel := (s.kernel.reactMain code).1 }
        (s.kernel.reactMain code).2 = some s' →
      Step throws pipelines mem application s s'
  /-- A kernel that has been handed over leads to a main kernel that is coming back. -/
  | restart {s : TestRun} : s.restarted < s.handed.length →
      Step throws pipelines mem application s { s with restarted := s.restarted + 1, mains := s.mains + 1 }
  /-- `Transaction_gather_superior::act`. -/
  | act {s : TestRun} {clients : ℕ} : s.gather = .sent → clients < 2 ^ 64 →
      Step throws pipelines mem application s { s with gather := .running (.start clients) }
  /-- The subordinates go on. -/
  | gather {s : TestRun} {g g' : Gather} : s.gather = .running g → g.Step mem application g' →
      Step throws pipelines mem application s { s with gather := .running g' }
  /-- The superior comes back. -/
  | result {s s' : TestRun} {g : Gather} {records : List HeldRecord} : s.finished = none → s.destroyed = false →
      s.gather = .running g → g.returns = [records] →
      perform throws pipelines mem { s with gather := .done records, kernel := (s.kernel.reactGather records).1 }
        (s.kernel.reactGather records).2 = some s' →
      Step throws pipelines mem application s s'

/-- The runs of a test. -/
def system (throws : List Handing → Handing → Bool) (pipelines : ℕ) (mem : Memory P) (application : UInt64) :
    System TestRun where
  Initial s := s = {}
  Step := Step throws pipelines mem application

/-- The stages of a run. -/
inductive Stage (throws : List Handing → Handing → Bool) (pipelines : ℕ) (mem : Memory P) (application : UInt64) :
    TestRun → Prop
  /-- The first main kernel is coming back. -/
  | started : Stage throws pipelines mem application {}
  /-- The superior is to be executed. -/
  | sent {code : ExitCode} :
      Stage throws pipelines mem application { kernel.exitCodes := [code], gather := .sent, mains := 0 }
  /-- The records are being gathered. -/
  | running {code : ExitCode} {g : Gather} {clients : ℕ} : g.Valid mem application clients →
      Stage throws pipelines mem application { kernel.exitCodes := [code], gather := .running g, mains := 0 }
  /-- There were none. -/
  | empty {code : ExitCode} :
      Stage throws pipelines mem application
        { kernel.exitCodes := [code], gather := .done [], mains := 0, finished := some [code] }
  /-- They have been handed over, and some main kernels have come back since. -/
  | recovered {code : ExitCode} {records : List HeldRecord} {mains back : ℕ} : records ≠ [] →
      Accepted throws [] (handings pipelines mem records) →
      mains + back ≤ (handings pipelines mem records).length →
      Stage throws pipelines mem application
        { kernel := ⟨[code], (records.take (records.length - back)).map HeldRecord.spend⟩, gather := .done records
          mains, handed := handings pipelines mem records, restarted := mains + back }
  /-- One of them has been refused. -/
  | refused {code : ExitCode} {records : List HeldRecord} {handed later : List Handing} {h : Handing} {mains : ℕ} :
      handings pipelines mem records = handed ++ h :: later → throws handed h = true →
      Stage throws pipelines mem application
        { kernel := ⟨[code], records⟩, gather := .done records, mains, handed, restarted := mains
          destroyed := true }

variable {throws : List Handing → Handing → Bool} {pipelines : ℕ} {mem : Memory P} {application : UInt64}
  {s s' : TestRun}

theorem length_handings_le (records : List HeldRecord) :
    (handings pipelines mem records).length ≤ records.length := by
  rw [handings, List.length_map]
  exact List.length_filter_le ..

/-- **A record whose kernel has been handed over is not handed over again.** -/
theorem recover_spent (records : List HeldRecord) (handed : List Handing) :
    recover throws pipelines mem (records.map HeldRecord.spend) handed = .ok () handed := by
  have hgood : ∀ r ∈ records.map HeldRecord.spend, r.Good pipelines := by
    intro r hr hk
    obtain ⟨r, -, rfl⟩ := List.mem_map.1 hr
    exact absurd rfl hk
  have hnone : handings pipelines mem (records.map HeldRecord.spend) = [] := by
    rw [handings, List.filter_eq_nil_iff.2, List.map_nil]
    intro r hr
    obtain ⟨r, -, rfl⟩ := List.mem_map.1 hr
    simp [HeldRecord.spend]
  have hall : recover throws pipelines mem (records.map HeldRecord.spend ++ []) handed = _ :=
    recover_append hgood (hnone ▸ accepted_nil : Accepted throws handed _)
  rw [List.append_nil, hnone, List.append_nil] at hall
  exact hall

theorem perform_recover {handed : List Handing}
    (h : recover throws pipelines mem s.kernel.records s.handed = .ok () handed) :
    perform throws pipelines mem s .recover =
      some { s with handed, kernel.records := s.kernel.records.map HeldRecord.spend } := by
  simp only [perform, h]

/-- What `recover` has handed over when it returns. -/
theorem eq_of_recover_ok {records : List HeldRecord} {handed handed' : List Handing}
    (h : recover throws pipelines mem records handed = .ok () handed') :
    handed' = handed ++ handings pipelines mem records ∧
      Accepted throws handed (handings pipelines mem records) := by
  rcases recover_cases throws pipelines mem records handed with
    ⟨hrecover, -, haccepted⟩ | ⟨before, r, after, -, -, -, ⟨-, hrecover⟩ | ⟨-, -, hrecover⟩⟩
  · rw [hrecover] at h
    cases h
    exact ⟨rfl, haccepted⟩
  · cases hrecover.symm.trans h
  · cases hrecover.symm.trans h

/-- What it has handed over when an exception leaves it. -/
theorem eq_of_recover_thrown {records : List HeldRecord} {handed : List Handing}
    (h : recover throws pipelines mem records [] = .error .thrown handed) :
    ∃ refused later, handings pipelines mem records = handed ++ refused :: later ∧
      throws handed refused = true := by
  rcases recover_cases throws pipelines mem records [] with
    ⟨hrecover, -⟩ | ⟨before, r, after, rfl, -, -, ⟨-, hrecover⟩ | ⟨-, hthrows, hrecover⟩⟩
  · cases hrecover.symm.trans h
  · cases hrecover.symm.trans h
  · obtain ⟨middle, refused, later, hsplit, -, hrefused⟩ := not_accepted_iff.1 hthrows
    obtain ⟨rfl, rfl⟩ : middle = [] ∧ later = [] := by
      have hlength := congrArg List.length hsplit
      have hone : (handings pipelines mem [r]).length ≤ 1 := length_handings_le [r]
      rw [List.length_append, List.length_cons] at hlength
      exact ⟨List.length_eq_zero_iff.1 (by omega), List.length_eq_zero_iff.1 (by omega)⟩
    rw [hrecover, List.nil_append] at h
    rw [List.append_nil, List.nil_append] at hrefused
    cases h
    refine ⟨refused, handings pipelines mem after, ?_, hrefused⟩
    rw [handings_append, handings_cons, hsplit]
    rfl

/-- A main kernel that comes back takes a record whose kernel has been handed over. -/
theorem reactMain_spent (code code' : ExitCode) {records : List HeldRecord} {back : ℕ} (hback : back < records.length) :
    TestKernel.reactMain ⟨[code'], (records.take (records.length - back)).map HeldRecord.spend⟩ code =
      (⟨[code'], (records.take (records.length - (back + 1))).map HeldRecord.spend⟩, .recover) := by
  have hleft : (records.take (records.length - back)).map HeldRecord.spend ≠ [] := by
    rw [← List.length_pos_iff, List.length_map, List.length_take]
    omega
  have hdropLast : ((records.take (records.length - back)).map HeldRecord.spend).dropLast =
      (records.take (records.length - (back + 1))).map HeldRecord.spend := by
    rw [List.dropLast_eq_take, List.length_map, List.length_take, ← List.map_take, List.take_take]
    congr 2
    omega
  rw [TestKernel.reactMain_recover (List.cons_ne_nil code' []) hleft, hdropLast]

/-- The stage after the records have been gathered: there are none, they have been handed over, or one of them has
been refused. -/
theorem Stage.of_result {code : ExitCode} {records : List HeldRecord}
    (h : perform throws pipelines mem
      { gather := .done records, kernel := (TestKernel.reactGather ⟨[code], []⟩ records).1, mains := 0 }
      (TestKernel.reactGather ⟨[code], []⟩ records).2 = some s') : Stage throws pipelines mem application s' := by
  cases hrecords : records with
  | nil =>
    rw [hrecords] at h
    obtain rfl := Option.some.inj h
    exact .empty
  | cons r rest =>
    have hne : records ≠ [] := hrecords ▸ List.cons_ne_nil r rest
    rw [TestKernel.reactGather_recover hne] at h
    cases hrecover : recover throws pipelines mem records [] with
    | error x handed =>
      simp only [perform, hrecover] at h
      cases x with
      | trap t => cases h
      | thrown =>
        obtain rfl := Option.some.inj h
        obtain ⟨refused, later, hsplit, hthrows⟩ := eq_of_recover_thrown hrecover
        exact .refused hsplit hthrows
    | ok u handed =>
      rw [perform_recover hrecover] at h
      obtain rfl := Option.some.inj h
      obtain ⟨hhanded, haccepted⟩ := eq_of_recover_ok hrecover
      rw [List.nil_append] at hhanded
      subst hhanded
      have hnext : Stage throws pipelines mem application
          { kernel := ⟨[code], (records.take (records.length - 0)).map HeldRecord.spend⟩, gather := .done records
            mains := 0, handed := handings pipelines mem records, restarted := 0 + 0 } :=
        .recovered hne haccepted (Nat.zero_le _)
      rw [Nat.sub_zero, List.take_length] at hnext
      exact hnext

/-- **One stage follows another.** -/
theorem Stage.step (hs : Stage throws pipelines mem application s) (h : Step throws pipelines mem application s s') :
    Stage throws pipelines mem application s' := by
  cases h with
  | @main s' code hfinished halive hmains hperform =>
    cases hs with
    | started =>
      obtain rfl := Option.some.inj hperform
      exact .sent
    | sent => exact absurd hmains (lt_irrefl 0)
    | running _ => exact absurd hmains (lt_irrefl 0)
    | empty => cases hfinished
    | refused _ _ => cases halive
    | @recovered code' records mains back hne haccepted hle =>
      -- a record is left for every main kernel that is coming back
      obtain ⟨mains, rfl⟩ : ∃ m, mains = m + 1 := ⟨mains - 1, (Nat.succ_pred_eq_of_pos hmains).symm⟩
      have hback : back < records.length := by
        have hlength : (handings pipelines mem records).length ≤ records.length := length_handings_le records
        omega
      rw [reactMain_spent code code' hback, perform_recover (recover_spent _ _)] at hperform
      obtain rfl := Option.some.inj hperform
      have hspend : ((records.take (records.length - (back + 1))).map HeldRecord.spend).map HeldRecord.spend =
          (records.take (records.length - (back + 1))).map HeldRecord.spend := List.map_map ..
      have hsame : mains + 1 + back = mains + (back + 1) := by omega
      simp only [hspend, hsame]
      exact .recovered hne haccepted (hsame ▸ hle)
  | restart hlt =>
    cases hs with
    | started => exact absurd hlt (lt_irrefl 0)
    | sent => exact absurd hlt (lt_irrefl 0)
    | running _ => exact absurd hlt (lt_irrefl 0)
    | empty => exact absurd hlt (lt_irrefl 0)
    | @refused code records handed later h mains hsplit hthrows => exact .refused hsplit hthrows
    | @recovered code records mains back hne haccepted hle =>
      have hnext : mains + back + 1 = mains + 1 + back := Nat.add_right_comm mains back 1
      simp only [hnext]
      exact .recovered hne haccepted (hnext ▸ hlt)
  | act hsent hclients =>
    cases hs with
    | started => cases hsent
    | sent => exact .running (Gather.valid_start hclients)
    | running _ => cases hsent
    | empty => cases hsent
    | recovered _ _ _ => cases hsent
    | refused _ _ => cases hsent
  | gather hrunning hstep =>
    cases hs with
    | started => cases hrunning
    | sent => cases hrunning
    | running hg =>
      cases hrunning
      exact .running (hg.step hstep)
    | empty => cases hrunning
    | recovered _ _ _ => cases hrunning
    | refused _ _ => cases hrunning
  | result hfinished halive hrunning _ hperform =>
    cases hs with
    | started => cases hrunning
    | sent => cases hrunning
    | running hg => exact .of_result hperform
    | empty => cases hrunning
    | recovered _ _ _ => cases hrunning
    | refused _ _ => cases hrunning

theorem stage_of_reachable (h : (system throws pipelines mem application).Reachable s) :
    Stage throws pipelines mem application s :=
  h.invariant (fun _ heq => heq ▸ .started) fun _ _ => Stage.step

/-- A superior that has no subordinates stays where it is. -/
theorem stuck_step {code : ExitCode} {g : Gather} (hg : g.Valid mem application 0)
    (h : Step throws pipelines mem application { kernel.exitCodes := [code], gather := .running g, mains := 0 } s') :
    False := by
  have hnone : g.errands = [] := List.eq_nil_of_length_eq_zero hg.length
  cases h with
  | main _ _ hmains _ => exact absurd hmains (lt_irrefl 0)
  | restart hlt => exact absurd hlt (lt_irrefl 0)
  | act hsent _ => cases hsent
  | gather hrunning hstep =>
    cases hrunning
    cases hstep with
    | act hsplit => exact List.append_ne_nil_of_right_ne_nil _ (List.cons_ne_nil _ _) (hsplit.symm.trans hnone)
    | fail hsplit => exact List.append_ne_nil_of_right_ne_nil _ (List.cons_ne_nil _ _) (hsplit.symm.trans hnone)
    | react _ hsplit => exact List.append_ne_nil_of_right_ne_nil _ (List.cons_ne_nil _ _) (hsplit.symm.trans hnone)
  | result _ _ hrunning hreturns _ =>
    cases hrunning
    rw [hg.returns, if_neg fun hboth => lt_irrefl 0 hboth.1] at hreturns
    cases hreturns

/-- The pipelines take the kernel of the first record and refuse the next. -/
def refusesSecond (handed : List Handing) (_ : Handing) : Bool := handed.length == 1

/-- A test that has gathered two records, and handed the kernel of one over. -/
def twoRefused : TestRun where
  kernel := ⟨[.success], [Gather.copy, Gather.other]⟩
  gather := .done [Gather.copy, Gather.other]
  mains := 0
  handed := [Gather.copy.handing Gather.twoMemory]
  destroyed := true

theorem recover_two : recover refusesSecond 1 Gather.twoMemory [Gather.copy, Gather.other] [] =
    .error .thrown [Gather.copy.handing Gather.twoMemory] := by
  have hfirst : Accepted refusesSecond [] (handings 1 Gather.twoMemory [Gather.copy]) :=
    accepted_cons.2 ⟨rfl, accepted_nil⟩
  have hsecond : ¬ Accepted refusesSecond (handings 1 Gather.twoMemory [Gather.copy])
      (handings 1 Gather.twoMemory [Gather.other]) := fun h => Bool.noConfusion (accepted_cons.1 h).1
  have hgood : ∀ r ∈ [Gather.copy], r.Good 1 := by decide
  have hother : Gather.other.Good 1 := by decide
  exact @recover_thrown _ _ _ _ _ _ [] _ hgood hfirst hother hsecond

/-- The superior is about to come back. -/
def twoBack : TestRun where
  kernel := ⟨[.success], []⟩
  gather := .running Gather.twoGathered
  mains := 0

theorem twoBack_reachable : (system refusesSecond 1 Gather.twoMemory 0).Reachable twoBack := by
  have hstart : (system refusesSecond 1 Gather.twoMemory 0).Reachable {} := .initial rfl
  have hmain := hstart.step (@Step.main _ refusesSecond 1 Gather.twoMemory 0 {} _ .success rfl rfl Nat.one_pos rfl)
  have hact := hmain.step (@Step.act _ refusesSecond 1 Gather.twoMemory 0 _ 2 rfl (by decide))
  have hsent := hact.step (.gather rfl Gather.step_twoSent)
  have hhalf := hsent.step (.gather rfl Gather.step_twoHalf)
  have hfound := hhalf.step (.gather rfl Gather.step_twoFound)
  exact hfound.step (.gather rfl Gather.step_twoGathered)

theorem twoRefused_reachable : (system refusesSecond 1 Gather.twoMemory 0).Reachable twoRefused := by
  have hreturns : Gather.twoGathered.returns = [[Gather.copy, Gather.other]] := by decide
  refine twoBack_reachable.step (.result rfl rfl rfl hreturns ?_)
  rw [TestKernel.reactGather_recover (List.cons_ne_nil _ _)]
  have hperform : perform refusesSecond 1 Gather.twoMemory
      { twoBack with
        kernel := ⟨[.success], [Gather.copy, Gather.other]⟩
        gather := .done [Gather.copy, Gather.other] } .recover = some twoRefused := by
    rw [perform]
    have hrecover : recover refusesSecond 1 Gather.twoMemory [Gather.copy, Gather.other] twoBack.handed = _ :=
      recover_two
    simp only [hrecover]
    rfl
  exact hperform

end TestRun

end Subordination.Daemon
