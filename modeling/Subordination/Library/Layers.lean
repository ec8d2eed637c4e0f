import Mathlib.Algebra.BigOperators.Group.Finset.Basic
import Mathlib.Algebra.Order.BigOperators.Group.Finset
import Mathlib.Data.List.Perm.Basic
import Mathlib.Data.List.Range
import Mathlib.Data.Nat.Find

/-!
# Trees by layers

The nodes of a tree whose layer `l` holds `width l` nodes, numbered from one layer by
layer: the root is node 1. A node is found by its layer and its offset in it.

`enumeration` is the order in which a node looks for a superior: its parent first, then
the rest of its parent's layer, then the layers above one by one up to the root, then
the nodes of its own layer that precede it. **`enumeration_perm`** says that this is
every node that precedes it, once.
-/

namespace Subordination.Library

variable (width : ℕ → ℕ)

/-! ### Numbers of nodes -/

/-- The number of nodes in the layers above `l`. -/
def above (l : ℕ) : ℕ := ∑ i ∈ Finset.range l, width i

@[simp] theorem above_zero : above width 0 = 0 := rfl

theorem above_succ (l : ℕ) : above width (l + 1) = above width l + width l :=
  Finset.sum_range_succ _ _

theorem above_mono {l m : ℕ} (h : l ≤ m) : above width l ≤ above width m :=
  Finset.sum_le_sum_of_subset (Finset.range_mono h)

/-- As many layers hold at least as many nodes when none of them is empty. -/
theorem le_above {l : ℕ} (h : ∀ i < l, 1 ≤ width i) : l ≤ above width l := by
  induction l with
  | zero => exact Nat.zero_le _
  | succ l ih =>
    have hl := ih fun i hi => h i (by omega)
    have hw := h l (by omega)
    rw [above_succ]
    omega

/-- The layer of node `n`: the last one that begins before it ends. -/
def layerOf (n : ℕ) : ℕ := Nat.findGreatest (fun l => above width l < n) n

/-- The offset of node `n` in its layer. -/
def offsetOf (n : ℕ) : ℕ := n - above width (layerOf width n) - 1

/-- The layers begin one after the other, so no node is in two of them. -/
theorem layerOf_eq {l o n : ℕ} (hn : n = above width l + o + 1) (ho : o < width l)
    (hpos : ∀ i < l, 1 ≤ width i) : layerOf width n = l := by
  have hl := le_above width hpos
  refine (Nat.findGreatest_eq_iff).2 ⟨by omega, fun _ => by omega, fun {m} hlt _ hm => ?_⟩
  have := above_mono width (show l + 1 ≤ m from hlt)
  rw [above_succ] at this
  omega

theorem offsetOf_eq {l o n : ℕ} (hn : n = above width l + o + 1) (ho : o < width l)
    (hpos : ∀ i < l, 1 ≤ width i) : offsetOf width n = o := by
  rw [offsetOf, layerOf_eq width hn ho hpos]
  omega

/-- A node that comes before another is not in a layer below. -/
theorem layerOf_mono {m n : ℕ} (h : m ≤ n) : layerOf width m ≤ layerOf width n :=
  Nat.findGreatest_mono (fun _ hl => Nat.lt_of_lt_of_le hl h) h

/-- A node is found at its offset in its layer. -/
theorem node_eq (hpos : ∀ i, 1 ≤ width i) {n : ℕ} (hn : 1 ≤ n) :
    n = above width (layerOf width n) + offsetOf width n + 1 ∧
      offsetOf width n < width (layerOf width n) := by
  have hlt : above width (layerOf width n) < n :=
    Nat.findGreatest_spec (P := fun l => above width l < n) (Nat.zero_le n) hn
  have hle : n ≤ above width (layerOf width n + 1) := by
    by_contra hgt
    have hl := le_above width (l := layerOf width n + 1) fun i _ => hpos i
    have := Nat.le_findGreatest (P := fun l => above width l < n) (n := n) (by omega) (not_le.1 hgt)
    rw [← layerOf] at this
    omega
  rw [above_succ] at hle
  constructor
  · rw [offsetOf]
    omega
  · rw [offsetOf]
    omega

/-! ### Orders of nodes -/

/-- The nodes of layer `l`. -/
def layerNodes (l : ℕ) : List ℕ := List.range' (above width l + 1) (width l)

/-- The nodes of the layers above `l`, the nearest layer first. -/
def layersAbove : ℕ → List ℕ
  | 0 => []
  | l + 1 => layerNodes width l ++ layersAbove l

theorem layersAbove_perm (l : ℕ) : (layersAbove width l).Perm (List.range' 1 (above width l)) := by
  induction l with
  | zero => exact List.Perm.refl _
  | succ l ih =>
    have happend : List.range' 1 (above width l) ++ layerNodes width l =
        List.range' 1 (above width (l + 1)) := by
      rw [layerNodes, Nat.add_comm (above width l) 1, List.range'_append_1, above_succ]
    rw [← happend]
    exact (ih.append_left _).trans List.perm_append_comm

/-- The order in which the node at offset `o` of layer `l + 1`, whose parent is at offset
`k` of layer `l`, visits the nodes that precede it. -/
def enumeration (l k o : ℕ) : List ℕ :=
  (above width l + k + 1) ::
    ((layerNodes width l).filter (· != above width l + k + 1) ++
      (layersAbove width l ++ List.range' (above width (l + 1) + 1) o))

/-- **Every node that precedes a node is visited, and only once.** -/
theorem enumeration_perm {l k : ℕ} (o : ℕ) (hk : k < width l) :
    (enumeration width l k o).Perm (List.range' 1 (above width (l + 1) + o)) := by
  have hmem : above width l + k + 1 ∈ layerNodes width l := by
    rw [layerNodes, List.mem_range'_1]
    omega
  have hlayer : ((above width l + k + 1) ::
      (layerNodes width l).filter (· != above width l + k + 1)).Perm (layerNodes width l) := by
    have hnodup : (layerNodes width l).Nodup := List.nodup_range'
    have herase := (List.perm_cons_erase hmem).symm
    rwa [hnodup.erase_eq_filter] at herase
  have hupper : (layerNodes width l ++ layersAbove width l).Perm
      (List.range' 1 (above width (l + 1))) := layersAbove_perm width (l + 1)
  have hall : List.range' 1 (above width (l + 1)) ++ List.range' (above width (l + 1) + 1) o =
      List.range' 1 (above width (l + 1) + o) := by
    rw [Nat.add_comm (above width (l + 1)) 1, List.range'_append_1]
  rw [← hall, enumeration, ← List.cons_append, ← List.append_assoc]
  exact ((hlayer.append_right _).trans hupper).append_right _

variable {width} {width' : ℕ → ℕ}

theorem above_congr {l : ℕ} (h : ∀ i < l, width i = width' i) : above width l = above width' l :=
  Finset.sum_congr rfl fun i hi => h i (Finset.mem_range.1 hi)

theorem layerNodes_congr {l : ℕ} (h : ∀ i ≤ l, width i = width' i) :
    layerNodes width l = layerNodes width' l := by
  rw [layerNodes, layerNodes, h l le_rfl, above_congr fun i hi => h i (Nat.le_of_lt hi)]

theorem layersAbove_congr {l : ℕ} (h : ∀ i < l, width i = width' i) :
    layersAbove width l = layersAbove width' l := by
  induction l with
  | zero => rfl
  | succ l ih =>
    rw [layersAbove, layersAbove, ih fun i hi => h i (by omega),
      layerNodes_congr fun i hi => h i (by omega)]

/-- The order depends on the layers above the node. -/
theorem enumeration_congr {l k o : ℕ} (h : ∀ i ≤ l, width i = width' i) :
    enumeration width l k o = enumeration width' l k o := by
  rw [enumeration, enumeration, layerNodes_congr h, layersAbove_congr fun i hi => h i (Nat.le_of_lt hi),
    above_congr fun i hi => h i (Nat.le_of_lt hi), above_congr fun i hi => h i (Nat.lt_succ_iff.1 hi)]

/-! ### Trees of one fanout -/

/-- The subordinates of the node at offset `k` of layer `l` when every node has `f`. -/
def subordinates (f l k : ℕ) : List ℕ := List.range' (above (f ^ ·) (l + 1) + f * k + 1) f

/-- The parent of the node at offset `o` is at offset `o / f` of the layer above. -/
theorem mem_subordinates_iff {f l k o : ℕ} (hf : 1 ≤ f) :
    above (f ^ ·) (l + 1) + o + 1 ∈ subordinates f l k ↔ k = o / f := by
  rw [subordinates, List.mem_range'_1, eq_comm, Nat.div_eq_iff hf, Nat.mul_comm f k]
  constructor
  · rintro ⟨hle, hlt⟩
    exact ⟨by omega, by omega⟩
  · rintro ⟨hle, hlt⟩
    exact ⟨by omega, by omega⟩

/-- The order in which node `n` of a tree of fanout `f` visits the nodes that precede it. -/
def treeOrder (f n : ℕ) : List ℕ :=
  match layerOf (f ^ ·) n with
  | 0 => []
  | l + 1 => enumeration (f ^ ·) l (offsetOf (f ^ ·) n / f) (offsetOf (f ^ ·) n)

theorem treeOrder_perm {f n : ℕ} (hf : 1 ≤ f) (hn : 1 ≤ n) :
    (treeOrder f n).Perm (List.range' 1 (n - 1)) := by
  obtain ⟨hnode, hoffset⟩ := node_eq (f ^ ·) (fun i => Nat.one_le_pow i f hf) hn
  rw [treeOrder]
  cases hl : layerOf (f ^ ·) n with
  | zero =>
    rw [hl] at hnode hoffset
    have hone : n = 1 := by
      rw [above_zero] at hnode
      simp only [pow_zero] at hoffset
      omega
    rw [hone]
    exact List.Perm.refl _
  | succ l =>
    rw [hl] at hnode hoffset
    have hparent : offsetOf (f ^ ·) n / f < f ^ l := (Nat.div_lt_iff_lt_mul hf).2 hoffset
    have hperm := enumeration_perm (f ^ ·) (offsetOf (f ^ ·) n) hparent
    rwa [show n - 1 = above (f ^ ·) (l + 1) + offsetOf (f ^ ·) n by omega]

end Subordination.Library
