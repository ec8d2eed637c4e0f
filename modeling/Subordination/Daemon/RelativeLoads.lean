import Subordination.Core.LoadOrder
import Subordination.Daemon.Scheduler
import Subordination.Library.Quotients
import Mathlib.Algebra.Order.Field.Rat
import Mathlib.Tactic.NormNum

/-!
# Relative loads

The load of a client relative to the nodes and threads behind it (`daemon/socket_pipeline.hh`).

## The model

A relative load is a quotient and a remainder for each of the two counters of a load. The exact relative load is a
pair of fractions: the number of kernels of the greatest weight for each node, and the weight of all others for each
thread. The node itself is one node with the threads of its own.

## What is proved

* `relative_loads_agree_iff` — for which nodes the relative loads are in the order of the exact ones.
-/

namespace Subordination.Daemon

open Subordination.Core Subordination.Library

/-! ### Exact loads -/

/-- How many threads the nodes have. -/
def numThreads (nodes : List HierarchyNode) : ℕ := (nodes.map fun n => n.totalThreads.toNat).sum

/-- The kernels of the greatest weight for each node, and the weight of the others for each thread. -/
def exactLoad (load : WeightArray) (numNodes numThreads : ℕ) : ℚ ×ₗ ℚ :=
  toLex ((load.whole.value.toNat : ℚ) / numNodes, (load.part.value.toNat : ℚ) / numThreads)

/-- The divisor of a relative load: no threads are one. -/
def divisor (n : UInt32) : UInt32 := if n = 0 then 1 else n

theorem divisor_ne_zero (n : UInt32) : divisor n ≠ 0 := by
  unfold divisor
  split_ifs with h
  · decide
  · exact h

theorem divisor_pos (n : UInt32) : 0 < (divisor n).toNat := by
  have hne := divisor_ne_zero n
  rw [Ne, ← UInt32.toNat_inj] at hne
  exact Nat.pos_of_ne_zero hne

/-- Fractions as quotients with remainders. -/
theorem agrees_divMod_iff (n₁ n₂ : UInt32) {T₁ T₂ : ℕ} (hT₁ : 0 < T₁) (hT₂ : 0 < T₂) :
    Agrees (fun w : UInt32 => divMod (divisor n₁).toNat w.toNat) (fun w => divMod (divisor n₂).toNat w.toNat)
        (fun w => (w.toNat : ℚ) / T₁) (fun w => (w.toNat : ℚ) / T₂) ↔
      Proportionate (divisor n₁).toNat T₁ (divisor n₂).toNat T₂ := by
  have hfraction : ∀ {T T' : ℕ}, 0 < T → 0 < T' → ∀ p q : ℕ, (p : ℚ) / T < q / T' ↔ p * T' < q * T := by
    intro T T' hT hT' p q
    rw [div_lt_div_iff₀ (by exact_mod_cast hT) (by exact_mod_cast hT')]
    exact_mod_cast Iff.rfl
  simp only [Agrees, hfraction hT₁ hT₂, hfraction hT₂ hT₁]
  constructor
  · intro h
    refine proportionate_of_divMod (n := 2 ^ 32) (by decide) (divisor_pos n₁) (divisor_pos n₂)
      (divisor n₁).toNat_lt (divisor n₂).toNat_lt hT₁ fun p hp q hq => ?_
    have hpq := h (UInt32.ofNat p) (UInt32.ofNat q)
    rwa [UInt32.toNat_ofNat_of_lt' hp, UInt32.toNat_ofNat_of_lt' hq] at hpq
  · intro h p q
    exact ⟨h.divMod_lt_iff (divisor_pos n₁) (divisor_pos n₂) hT₁ hT₂ _ _,
      h.symm.divMod_lt_iff (divisor_pos n₂) (divisor_pos n₁) hT₂ hT₁ _ _⟩

/-! ### Relative loads -/

/-- The numbers of a relative load, in the order in which they are compared. -/
def loadKey (a : ModularWeightArray) : (ℕ ×ₗ ℕ) ×ₗ (ℕ ×ₗ ℕ) := toLex (a.whole.key, a.part.key)

theorem lt_iff_loadKey {a b : ModularWeightArray} : a.lt b = true ↔ loadKey a < loadKey b := by
  rw [ModularWeightArray.lt_iff, ModularWeightArray.lt_iff_lex, loadKey, loadKey, Prod.Lex.toLex_lt_toLex,
    ModularWeight.key_injective.eq_iff]
  exact Iff.rfl

theorem le_iff_loadKey {a b : ModularWeightArray} : a.le b = true ↔ ¬loadKey b < loadKey a := by
  rw [← lt_iff_loadKey, ModularWeightArray.le]
  simp

theorem key_div_mod (w : Weight) {n : UInt32} (hn : n ≠ 0) :
    ModularWeight.key ⟨w.div ⟨n⟩, w.mod ⟨n⟩⟩ = divMod n.toNat w.value.toNat := by
  simp [ModularWeight.key, Weight.div, Weight.mod, hn, divMod]

variable {P : Type}

/-- The relative load of a client is a pair of quotients by the number of threads. -/
theorem loadKey_relativeLoad (c : SocketPipelineClient P) (nodes : List HierarchyNode) :
    loadKey (c.setNodesBehind nodes).relativeLoad =
      toLex (divMod (divisor (threads nodes)).toNat c.load.whole.value.toNat,
        divMod (divisor (threads nodes)).toNat c.load.part.value.toNat) := by
  have hkey := fun w => key_div_mod w (divisor_ne_zero (threads nodes))
  rw [loadKey, ← hkey, ← hkey]
  rfl

/-- That of the node itself has the number of kernels in place of the first one. -/
theorem loadKey_localRelativeLoad (s : Scheduler) :
    loadKey s.localRelativeLoad = toLex (divMod (divisor 1).toNat s.localLoad.whole.value.toNat,
      divMod (divisor s.localNumThreadsBehind).toNat s.localLoad.part.value.toNat) := by
  have hwhole : ModularWeight.key ⟨s.localLoad.whole, ⟨0⟩⟩ =
      divMod (divisor 1).toNat s.localLoad.whole.value.toNat := by
    simp [ModularWeight.key, divMod, divisor, Nat.mod_one]
  rw [loadKey, ← hwhole, ← key_div_mod _ (divisor_ne_zero _)]
  rfl

/-- The number of threads of the node itself, in 64 bits. -/
def Scheduler.localThreads (s : Scheduler) : UInt64 := (s.localResources.data Resources.totalThreads).toU64

/-- The relative loads of two clients are compared like the exact ones, whatever has been sent to them. -/
def ComparesClients (P : Type) (nodes₁ nodes₂ : List HierarchyNode) : Prop :=
  ∀ c₁ c₂ : SocketPipelineClient P,
    ((c₁.setNodesBehind nodes₁).relativeLoad.lt (c₂.setNodesBehind nodes₂).relativeLoad = true ↔
      exactLoad c₁.load nodes₁.length (numThreads nodes₁) < exactLoad c₂.load nodes₂.length (numThreads nodes₂)) ∧
    ((c₁.setNodesBehind nodes₁).relativeLoad.le (c₂.setNodesBehind nodes₂).relativeLoad = true ↔
      exactLoad c₁.load nodes₁.length (numThreads nodes₁) ≤ exactLoad c₂.load nodes₂.length (numThreads nodes₂))

/-- So is that of a client with that of the node itself, which has the given resources. -/
def ComparesLocally (P : Type) (s : Scheduler) (nodes : List HierarchyNode) : Prop :=
  ∀ (c : SocketPipelineClient P) (load : WeightArray),
    ((c.setNodesBehind nodes).relativeLoad.lt { s with localLoad := load }.localRelativeLoad = true ↔
      exactLoad c.load nodes.length (numThreads nodes) < exactLoad load 1 s.localThreads.toNat) ∧
    ((c.setNodesBehind nodes).relativeLoad.le { s with localLoad := load }.localRelativeLoad = true ↔
      exactLoad c.load nodes.length (numThreads nodes) ≤ exactLoad load 1 s.localThreads.toNat)

/-- Two sides agree if both of their counters do. -/
theorem agrees_loads_iff (n₁ n₁' n₂ n₂' : UInt32) {N₁ T₁ N₂ T₂ : ℕ} (hN₁ : 0 < N₁) (hT₁ : 0 < T₁) (hN₂ : 0 < N₂)
    (hT₂ : 0 < T₂) :
    (∀ a b : WeightArray,
      (toLex (divMod (divisor n₁).toNat a.whole.value.toNat, divMod (divisor n₁').toNat a.part.value.toNat) <
          toLex (divMod (divisor n₂).toNat b.whole.value.toNat, divMod (divisor n₂').toNat b.part.value.toNat) ↔
        exactLoad a N₁ T₁ < exactLoad b N₂ T₂) ∧
      (¬toLex (divMod (divisor n₂).toNat b.whole.value.toNat, divMod (divisor n₂').toNat b.part.value.toNat) <
          toLex (divMod (divisor n₁).toNat a.whole.value.toNat, divMod (divisor n₁').toNat a.part.value.toNat) ↔
        exactLoad a N₁ T₁ ≤ exactLoad b N₂ T₂)) ↔
      Proportionate (divisor n₁).toNat N₁ (divisor n₂).toNat N₂ ∧
        Proportionate (divisor n₁').toNat T₁ (divisor n₂').toNat T₂ := by
  have hlex := @agrees_lex_iff UInt32 _ _ _ _ _ _ _ _
    (fun w => divMod (divisor n₁).toNat w.toNat) (fun w => divMod (divisor n₂).toNat w.toNat)
    (fun w => (w.toNat : ℚ) / N₁) (fun w => (w.toNat : ℚ) / N₂)
    (fun w => divMod (divisor n₁').toNat w.toNat) (fun w => divMod (divisor n₂').toNat w.toNat)
    (fun w => (w.toNat : ℚ) / T₁) (fun w => (w.toNat : ℚ) / T₂) 0
    (by simp [divMod]) (by simp) (by simp [divMod]) (by simp)
  rw [← agrees_divMod_iff n₁ n₂ hN₁ hN₂, ← agrees_divMod_iff n₁' n₂' hT₁ hT₂, ← hlex]
  constructor
  · rintro h ⟨w, p⟩ ⟨w', p'⟩
    obtain ⟨hlt, hle⟩ := h ⟨⟨w⟩, ⟨p⟩⟩ ⟨⟨w'⟩, ⟨p'⟩⟩
    exact ⟨hlt, by rw [← not_lt, not_iff_not] at hle; exact hle⟩
  · intro h a b
    obtain ⟨hlt, hgt⟩ := h (a.whole.value, a.part.value) (b.whole.value, b.part.value)
    exact ⟨hlt, by rw [← not_lt, not_iff_not]; exact hgt⟩

/-- A client to which the given load has been sent. -/
def loadedClient (P : Type) (load : WeightArray) : SocketPipelineClient P :=
  { connection := { load }, state := .started }

theorem numThreads_pos {nodes : List HierarchyNode} (hne : nodes ≠ []) (h : ∀ n ∈ nodes, 1 ≤ n.totalThreads) :
    0 < numThreads nodes := by
  obtain ⟨n, hn⟩ := List.exists_mem_of_ne_nil _ hne
  have hone : 1 ≤ n.totalThreads.toNat := UInt64.le_iff_toNat_le.mp (h n hn)
  exact lt_of_lt_of_le hone (List.le_sum_of_mem (List.mem_map_of_mem hn))

/-- **The relative loads are in the order of the exact ones**, whatever the loads are, if and only if the divisors of
the code stand for the numbers of nodes and of threads. -/
theorem relative_loads_agree_iff (s : Scheduler) {nodes₁ nodes₂ : List HierarchyNode} (hne₁ : nodes₁ ≠ [])
    (hne₂ : nodes₂ ≠ []) (hthreads₁ : ∀ n ∈ nodes₁, 1 ≤ n.totalThreads) (hthreads₂ : ∀ n ∈ nodes₂, 1 ≤ n.totalThreads)
    (hlocal : 1 ≤ s.localThreads) :
    (ComparesClients P nodes₁ nodes₂ ↔
      Proportionate (divisor (threads nodes₁)).toNat nodes₁.length (divisor (threads nodes₂)).toNat nodes₂.length ∧
      Proportionate (divisor (threads nodes₁)).toNat (numThreads nodes₁)
        (divisor (threads nodes₂)).toNat (numThreads nodes₂)) ∧
    (ComparesLocally P s nodes₁ ↔ (divisor (threads nodes₁)).toNat = nodes₁.length ∧
      Proportionate (divisor (threads nodes₁)).toNat (numThreads nodes₁)
        (divisor s.localNumThreadsBehind).toNat s.localThreads.toNat) := by
  have hN₁ := List.length_pos_of_ne_nil hne₁
  have hN₂ := List.length_pos_of_ne_nil hne₂
  have hT₁ := numThreads_pos hne₁ hthreads₁
  have hT₂ := numThreads_pos hne₂ hthreads₂
  have hT : 0 < s.localThreads.toNat := UInt64.le_iff_toNat_le.mp hlocal
  constructor
  · rw [← agrees_loads_iff _ _ _ _ hN₁ hT₁ hN₂ hT₂]
    simp only [ComparesClients, lt_iff_loadKey, le_iff_loadKey, loadKey_relativeLoad]
    exact ⟨fun h a b => h (loadedClient P a) (loadedClient P b), fun h c₁ c₂ => h c₁.load c₂.load⟩
  · have hnodes : (divisor (threads nodes₁)).toNat = nodes₁.length ↔
        Proportionate (divisor (threads nodes₁)).toNat nodes₁.length (divisor 1).toNat 1 := by
      have hone : (divisor 1).toNat = 1 := rfl
      rw [Proportionate, hone, one_mul, mul_one]
      constructor
      · exact fun h => Or.inr (Or.inr ⟨rfl, h.symm⟩)
      · rintro (⟨ht, hn⟩ | ⟨ht, hn⟩ | ⟨-, hn⟩)
        · exact ht.trans hn.symm
        · exact ht.trans hn
        · exact hn.symm
    rw [hnodes, ← agrees_loads_iff _ _ _ _ hN₁ hT₁ one_pos hT]
    simp only [ComparesLocally, lt_iff_loadKey, le_iff_loadKey, loadKey_relativeLoad, loadKey_localRelativeLoad]
    exact ⟨fun h a b => h (loadedClient P a) b, fun h c load => h c.load load⟩

/-- Nodes with the given numbers of threads. -/
def nodesWith (ns : List UInt64) : List HierarchyNode :=
  ns.map fun n => { (default : HierarchyNode) with resources := ⟨fun _ => .u64 n, ∅⟩ }

/-- Nodes with one thread each are compared as they are to be, also with a node itself that has more. -/
theorem relative_loads_agree_ones :
    ComparesClients Unit (nodesWith [1, 1]) (nodesWith [1]) ∧ ComparesLocally Unit {} (nodesWith [1, 1]) := by
  have h := @relative_loads_agree_iff Unit {} (nodesWith [1, 1]) (nodesWith [1])
    (by decide) (by decide) (by decide) (by decide) (by decide)
  exact ⟨h.1.mpr (by decide), h.2.mpr (by decide)⟩

/-- **A kernel of weight one is the same to nodes with two and with three threads.** -/
theorem two_or_three_threads : ¬ComparesClients Unit (nodesWith [2]) (nodesWith [3]) := by
  intro h
  have hle := (h (loadedClient Unit ⟨⟨0⟩, ⟨1⟩⟩) (loadedClient Unit ⟨⟨0⟩, ⟨1⟩⟩)).2.mp (by decide)
  have htwo : numThreads (nodesWith [2]) = 2 := rfl
  have hthree : numThreads (nodesWith [3]) = 3 := rfl
  have hone : UInt32.toNat 1 = 1 := rfl
  rw [htwo, hthree, exactLoad, exactLoad, Prod.Lex.toLex_le_toLex] at hle
  have hfractions : (1 : ℚ) / 2 ≤ 1 / 3 := by simpa [loadedClient, SocketPipelineClient.load, hone] using hle
  norm_num at hfractions

end Subordination.Daemon
