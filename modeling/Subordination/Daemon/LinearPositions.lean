import Mathlib.Data.Set.Function
import Subordination.Daemon.PositionInTree

/-!
# Linear positions

The nodes of the tree are numbered from one, layer by layer, and five functions of `position_in_tree` go by these
numbers: the constructor, `to_position_in_address_range`, `operator++`, `operator--` and `operator<`. Each of them
counts the nodes of the layers anew.

A layer may fit into `pos_type` while the layers up to it do not: with three subordinates to a node there are `3 ^ 20`
nodes in layer 20, and more than `2 ^ 32` nodes up to its end.

## What is proved

* `toPositionInAddressRange_eq`, `increment_eq`, `decrement_eq` — what the functions do to the number of a node.
* **`isNumbering`** — they agree on the nodes whose numbers fit into `pos_type`.
* `isNumbering_fails` — on the other nodes of a layer that fits they do not.
-/

namespace Subordination.Daemon

open Subordination.Library

namespace PositionInTree

/-! ### Nodes and their numbers -/

/-- The position is that of a node in a layer whose number of nodes does not wrap. -/
structure InLayer (p : PositionInTree) : Prop where
  /-- The layer fits. -/
  layer_fits : p.fanout ^ p.layer < 2 ^ 32
  /-- The node is a node of its layer. -/
  offset_lt : p.offset < p.fanout ^ p.layer

/-- The number of the node. -/
def linear (p : PositionInTree) : ℕ := above (p.fanout ^ ·) p.layer + p.offset + 1

/-- The numbers that `pos_type` holds of nodes in layers that fit. -/
def numbers (f : ℕ) : Set ℕ := {n | 1 ≤ n ∧ n < 2 ^ 32 ∧ f ^ layerOf (f ^ ·) n < 2 ^ 32}

/-- `_parentpos` of an iterator with this base position. -/
def parent (p : PositionInTree) : PositionInTree := ⟨wrapSub p.layer 1, p.offset / p.fanout, p.fanout⟩

/-- The functions of `position_in_tree` agree on some nodes of the tree of a fanout. -/
structure IsNumbering (f : ℕ) (nodes : Set PositionInTree) : Prop where
  /-- Every number is that of one node. -/
  bijOn : Set.BijOn (fun p => p.toPositionInAddressRange + 1) nodes (numbers f)
  /-- The constructor finds it. -/
  ofLinear_iff : ∀ p ∈ nodes, ∀ n ∈ numbers f, ofLinear n f = some p ↔ p.toPositionInAddressRange = n - 1
  /-- `operator++` goes to the next node, and `operator--` goes back. -/
  increment : ∀ p ∈ nodes, p.increment.toPositionInAddressRange = p.toPositionInAddressRange + 1 ∧
    p.increment.decrement = p
  /-- `operator--` goes to the node before, and `operator++` goes back. -/
  decrement : ∀ p ∈ nodes, ¬ p.isRoot = true → p.decrement ∈ nodes ∧
    p.decrement.toPositionInAddressRange + 1 = p.toPositionInAddressRange ∧ p.decrement.increment = p
  /-- `operator--` stays at the root. -/
  decrement_root : ∀ p ∈ nodes, p.isRoot = true → p.decrement = p
  /-- `operator<` is the order of the numbers. -/
  lessThan_iff : ∀ p ∈ nodes, ∀ q ∈ nodes,
    p.lessThan q = true ↔ p.toPositionInAddressRange < q.toPositionInAddressRange
  /-- The parent is a node before. -/
  parent : ∀ p ∈ nodes, ¬ p.isRoot = true → p.parent ∈ nodes ∧ p.parent.lessThan p = true ∧
    p.parent.toPositionInAddressRange < p.toPositionInAddressRange

/-! ### What the functions do to a number -/

section Functions

variable {f : ℕ} {p q : PositionInTree}

/-- The layers up to one that fits are those of the tree proper. -/
theorem InLayer.width_eq (h : p.InLayer) (hf : 1 ≤ p.fanout) {i : ℕ} (hi : i ≤ p.layer) :
    width p.fanout i = p.fanout ^ i :=
  width_eq_pow hf ((Nat.pow_le_pow_right hf hi).trans_lt h.layer_fits)

theorem InLayer.valid (h : p.InLayer) (hf : 1 ≤ p.fanout) : p.Valid := by
  rw [Valid, h.width_eq hf le_rfl]
  exact h.offset_lt

theorem InLayer.index_eq (h : p.InLayer) (hf : 1 ≤ p.fanout) : p.index = p.linear := by
  rw [index, linear, above_congr fun i hi => h.width_eq hf (Nat.le_of_lt hi)]

/-- The loop adds up the layers as long as their sum does not wrap. -/
theorem toPositionInAddressRange_eq (h : above (width p.fanout) p.layer + p.offset < 2 ^ 32) :
    p.toPositionInAddressRange = above (width p.fanout) p.layer + p.offset := by
  rw [toPositionInAddressRange, rangeLoop_eq (by omega), wrap_of_lt h]

/-- So the index is the number of the node, counted from zero. -/
theorem toPositionInAddressRange_linear (hwidth : ∀ i < p.layer, width p.fanout i = p.fanout ^ i)
    (hlinear : p.linear ≤ 2 ^ 32) : p.toPositionInAddressRange + 1 = p.linear := by
  have habove : above (width p.fanout) p.layer = above (p.fanout ^ ·) p.layer := above_congr hwidth
  rw [linear] at hlinear ⊢
  rw [toPositionInAddressRange_eq (by omega), habove]

/-- The layer is found by the number, -/
theorem layerOf_linear (hf : 1 ≤ p.fanout) (ho : p.offset < p.fanout ^ p.layer) :
    layerOf (p.fanout ^ ·) p.linear = p.layer :=
  layerOf_eq (p.fanout ^ ·) rfl ho fun i _ => Nat.one_le_pow i p.fanout hf

/-- and so is the node. -/
theorem linear_inj (hf : 1 ≤ q.fanout) (hp : p.offset < p.fanout ^ p.layer) (hq : q.offset < q.fanout ^ q.layer)
    (hfanout : p.fanout = q.fanout) (h : p.linear = q.linear) : p = q := by
  have hlayer := layerOf_linear (hfanout ▸ hf) hp
  rw [h, hfanout, layerOf_linear hf hq] at hlayer
  have hoffset : p.offset = q.offset := by
    rw [linear, linear, hfanout, hlayer] at h
    omega
  cases p
  cases q
  simp_all

theorem increment_of_isLast (h : p.isLast = true) (hl : p.layer + 1 < 2 ^ 32) :
    p.increment = { p with layer := p.layer + 1, offset := 0 } := by
  rw [PositionInTree.increment, if_pos h, wrap_of_lt hl]

theorem decrement_of_zero (hl : p.layer ≠ 0) (hlt : p.layer < 2 ^ 32) (ho : p.offset = 0) :
    p.decrement = ⟨p.layer - 1, wrapSub (width p.fanout (p.layer - 1)) 1, p.fanout⟩ := by
  rw [PositionInTree.decrement, if_neg (by tauto), if_pos ho]
  simp only [numNodes, wrapSub_of_le (Nat.one_le_iff_ne_zero.2 hl) hlt]

theorem decrement_of_ne_zero (ho : p.offset ≠ 0) (hlt : p.offset < 2 ^ 32) :
    p.decrement = { p with offset := p.offset - 1 } := by
  rw [PositionInTree.decrement, if_neg (by tauto), if_neg ho, wrapSub_of_le (Nat.one_le_iff_ne_zero.2 ho) hlt]

theorem parent_eq (hl : p.layer ≠ 0) (hlt : p.layer < 2 ^ 32) :
    p.parent = ⟨p.layer - 1, p.offset / p.fanout, p.fanout⟩ := by
  rw [PositionInTree.parent, wrapSub_of_le (Nat.one_le_iff_ne_zero.2 hl) hlt]

end Functions

/-! ### Where the numbers fit -/

/-- The number of the node fits, too. -/
structure Fits (f : ℕ) (p : PositionInTree) : Prop extends p.InLayer where
  /-- The node is one of the tree of this fanout. -/
  fanout_eq : p.fanout = f
  /-- Its number does not wrap. -/
  linear_lt : p.linear < 2 ^ 32

section Numbers

variable {f n : ℕ} (hf : 1 ≤ f) {p q : PositionInTree}

include hf

theorem Fits.one_le_fanout (h : p.Fits f) : 1 ≤ p.fanout := h.fanout_eq ▸ hf

theorem Fits.valid (h : p.Fits f) : p.Valid := h.toInLayer.valid (h.one_le_fanout hf)

theorem Fits.index_eq (h : p.Fits f) : p.index = p.linear := h.toInLayer.index_eq (h.one_le_fanout hf)

/-- **The index in the range of addresses is the number of the node, counted from zero.** -/
theorem Fits.toPositionInAddressRange_succ (h : p.Fits f) : p.toPositionInAddressRange + 1 = p.linear := by
  refine toPositionInAddressRange_linear (fun i hi => ?_) h.linear_lt.le
  exact h.toInLayer.width_eq (h.one_le_fanout hf) (Nat.le_of_lt hi)

theorem Fits.layerOf_linear (h : p.Fits f) : layerOf (f ^ ·) p.linear = p.layer := by
  obtain rfl := h.fanout_eq
  exact layerOf_linear hf h.offset_lt

theorem Fits.linear_mem (h : p.Fits f) : p.linear ∈ numbers f := by
  refine ⟨Nat.le_add_left 1 _, h.linear_lt, ?_⟩
  rw [h.layerOf_linear hf, ← h.fanout_eq]
  exact h.layer_fits

/-- **The constructor finds the node that has a number.** -/
theorem Fits.ofLinear_linear (h : p.Fits f) : ofLinear p.linear f = some p := by
  have hindex := h.index_eq hf
  refine (ofLinear_eq_some_iff (Nat.le_add_left 1 _) h.linear_lt).2 ⟨h.fanout_eq, ?_, ?_⟩
  · rw [← h.fanout_eq]
    exact h.valid hf
  · rw [← h.fanout_eq]
    exact hindex.symm

/-- Every number is that of a node. -/
theorem exists_fits (hn : n ∈ numbers f) : ∃ p : PositionInTree, p.Fits f ∧ p.linear = n := by
  obtain ⟨hpos, hlt, hlayer⟩ := hn
  obtain ⟨hnode, hoffset⟩ := node_eq (f ^ ·) (fun i => Nat.one_le_pow i f hf) hpos
  have hlinear : linear ⟨layerOf (f ^ ·) n, offsetOf (f ^ ·) n, f⟩ = n := hnode.symm
  exact ⟨⟨layerOf (f ^ ·) n, offsetOf (f ^ ·) n, f⟩, ⟨⟨hlayer, hoffset⟩, rfl, hlinear.trans_lt hlt⟩, hlinear⟩

theorem Fits.eq_of_linear (hp : p.Fits f) (hq : q.Fits f) (h : p.linear = q.linear) : p = q :=
  linear_inj (hq.one_le_fanout hf) hp.offset_lt hq.offset_lt (hp.fanout_eq.trans hq.fanout_eq.symm) h

/-- There are at least as many nodes as layers. -/
theorem Fits.layer_lt (h : p.Fits f) : p.layer + 1 < 2 ^ 32 := by
  have hlt := h.linear_lt
  have hle := le_above (p.fanout ^ ·) fun i (_ : i < p.layer) => Nat.one_le_pow i _ (h.one_le_fanout hf)
  rw [linear] at hlt
  omega

/-! ### The next node and the node before -/

/-- **`operator++` goes to the next number**, also where there is no such node in 32 bits, and `operator--` goes
back. -/
theorem Fits.increment_eq (h : p.Fits f) :
    p.increment.fanout = p.fanout ∧ p.increment.offset < p.fanout ^ p.increment.layer ∧
      p.increment.layer ≤ p.layer + 1 ∧ p.increment.linear = p.linear + 1 ∧ p.increment.decrement = p := by
  have hvalid := h.valid hf
  have hlayer := h.layer_lt hf
  have hwidth := h.toInLayer.width_eq (h.one_le_fanout hf) le_rfl
  have hfits := h.layer_fits
  by_cases hlast : p.isLast = true
  · have hend := (isLast_iff hvalid).1 hlast
    rw [hwidth] at hend
    have hback : wrapSub (width p.fanout p.layer) 1 = p.offset := by
      rw [hwidth, wrapSub_of_le (by omega) hfits]
      omega
    rw [increment_of_isLast hlast (by omega)]
    refine ⟨rfl, Nat.one_le_pow _ _ (h.one_le_fanout hf), le_rfl, ?_, ?_⟩
    · show above (p.fanout ^ ·) (p.layer + 1) + 0 + 1 = _
      rw [above_succ, linear]
      omega
    · rw [decrement_of_zero (Nat.succ_ne_zero p.layer) hlayer rfl]
      simp only [Nat.add_sub_cancel, hback]
  · rw [isLast_iff hvalid, hwidth] at hlast
    have hnext : p.offset + 1 < p.fanout ^ p.layer := by
      have hoffset := h.offset_lt
      omega
    rw [increment_of_lt (hwidth.symm ▸ hnext)]
    refine ⟨rfl, hnext, Nat.le_succ _, rfl, ?_⟩
    exact decrement_of_ne_zero (Nat.succ_ne_zero p.offset) (hnext.trans hfits)

theorem Fits.toPositionInAddressRange_increment (h : p.Fits f) :
    p.increment.toPositionInAddressRange = p.toPositionInAddressRange + 1 := by
  obtain ⟨hfanout, -, hlayer, hlinear, -⟩ := h.increment_eq hf
  have hlt := h.linear_lt
  have hrange := h.toPositionInAddressRange_succ hf
  have hrange' := p.increment.toPositionInAddressRange_linear (fun i hi => ?_) (by omega)
  · omega
  · rw [hfanout]
    exact h.toInLayer.width_eq (h.one_le_fanout hf) (by omega)

/-- A node that is not the root has a node before it. -/
theorem Fits.pred_mem (h : p.Fits f) (hroot : ¬ p.isRoot = true) : p.linear - 1 ∈ numbers f := by
  have hoffset := h.offset_lt
  have hlinear := h.linear_lt
  have hpos : 1 < p.linear := by
    rw [linear]
    by_contra hle
    have hl := le_above (p.fanout ^ ·) fun i (_ : i < p.layer) => Nat.one_le_pow i _ (h.one_le_fanout hf)
    exact hroot (isRoot_iff.2 ⟨by omega, by omega⟩)
  have hlayer := layerOf_mono (f ^ ·) (Nat.sub_le p.linear 1)
  rw [h.layerOf_linear hf] at hlayer
  refine ⟨by omega, by omega, (Nat.pow_le_pow_right hf hlayer).trans_lt ?_⟩
  rw [← h.fanout_eq]
  exact h.layer_fits

/-- **`operator--` goes to the number before**, and `operator++` back from there. -/
theorem Fits.decrement_eq (h : p.Fits f) (hroot : ¬ p.isRoot = true) :
    p.decrement.Fits f ∧ p.decrement.linear + 1 = p.linear ∧ p.decrement.increment = p := by
  -- the node that has the number before
  obtain ⟨q, hq, hlinear⟩ := exists_fits hf (h.pred_mem hf hroot)
  have hpos := (h.pred_mem hf hroot).1
  obtain ⟨hfanout, hoffset, -, hnext, hback⟩ := hq.increment_eq hf
  have hsame : q.increment = p := by
    refine linear_inj (h.one_le_fanout hf) ?_ h.offset_lt ?_ (by omega)
    · rwa [hfanout]
    · rw [hfanout, hq.fanout_eq, h.fanout_eq]
  rw [hsame] at hback
  rw [hback]
  exact ⟨hq, by omega, hsame⟩

/-! ### The order -/

omit hf in
/-- The nodes of a layer come before those of the layers below. -/
theorem InLayer.linear_lt_of_layer (h : p.InLayer) (hfanout : p.fanout = q.fanout) (hl : p.layer < q.layer) :
    p.linear < q.linear := by
  have hoffset := h.offset_lt
  have hle := above_mono (q.fanout ^ ·) (show p.layer + 1 ≤ q.layer from hl)
  rw [above_succ] at hle
  rw [linear, linear]
  rw [hfanout] at hoffset ⊢
  omega

omit hf in
/-- **`operator<` is the order of the numbers.** -/
theorem InLayer.lessThan_iff (hp : p.InLayer) (hq : q.InLayer) (hfanout : p.fanout = q.fanout) :
    p.lessThan q = true ↔ p.linear < q.linear := by
  rw [lessThan, decide_eq_true_iff]
  rcases Nat.lt_trichotomy p.layer q.layer with hl | hl | hl
  · exact iff_of_true (Or.inl hl) (hp.linear_lt_of_layer hfanout hl)
  · have hlinear : p.linear < q.linear ↔ p.offset < q.offset := by
      rw [linear, linear, hl, hfanout]
      omega
    rw [hlinear]
    exact ⟨fun h => h.elim (fun hlt => absurd hlt (by omega)) And.right, fun h => Or.inr ⟨hl, h⟩⟩
  · have hlt := hq.linear_lt_of_layer hfanout.symm hl
    exact iff_of_false (by omega) (by omega)

/-- **The parent is a node of the layer above.** -/
theorem Fits.parent_fits (h : p.Fits f) (hroot : ¬ p.isRoot = true) :
    p.parent.Fits f ∧ p.parent.linear < p.linear := by
  have hoffset := h.offset_lt
  have hfits := h.layer_fits
  have hl : p.layer ≠ 0 := by
    intro hzero
    rw [hzero, pow_zero] at hoffset
    exact hroot (isRoot_iff.2 ⟨hzero, by omega⟩)
  have hpow : p.fanout ^ p.layer = p.fanout ^ (p.layer - 1) * p.fanout := by
    rw [← pow_succ, Nat.sub_add_cancel (Nat.one_le_iff_ne_zero.2 hl)]
  rw [parent_eq hl (Nat.lt_of_succ_lt (h.layer_lt hf))]
  have hparent : InLayer ⟨p.layer - 1, p.offset / p.fanout, p.fanout⟩ := by
    refine ⟨(Nat.pow_le_pow_right (h.one_le_fanout hf) (Nat.sub_le _ _)).trans_lt hfits, ?_⟩
    show p.offset / p.fanout < p.fanout ^ (p.layer - 1)
    rw [Nat.div_lt_iff_lt_mul (h.one_le_fanout hf), ← hpow]
    exact hoffset
  have hlt := hparent.linear_lt_of_layer (q := p) rfl (show p.layer - 1 < p.layer by omega)
  exact ⟨⟨hparent, h.fanout_eq, hlt.trans h.linear_lt⟩, hlt⟩

/-! ### All of them -/

/-- **The functions of `position_in_tree` agree on the nodes whose layers and numbers do not wrap.** -/
theorem isNumbering : IsNumbering f {p | p.Fits f} where
  bijOn := by
    refine ⟨fun p hp => ?_, fun p hp q hq hpq => ?_, fun n hn => ?_⟩
    · show p.toPositionInAddressRange + 1 ∈ numbers f
      rw [hp.toPositionInAddressRange_succ hf]
      exact hp.linear_mem hf
    · refine hp.eq_of_linear hf hq ?_
      rw [← hp.toPositionInAddressRange_succ hf, ← hq.toPositionInAddressRange_succ hf]
      exact hpq
    · obtain ⟨p, hp, rfl⟩ := exists_fits hf hn
      exact ⟨p, hp, hp.toPositionInAddressRange_succ hf⟩
  ofLinear_iff p hp n hn := by
    have hrange := hp.toPositionInAddressRange_succ hf
    obtain ⟨q, hq, rfl⟩ := exists_fits hf hn
    rw [hq.ofLinear_linear hf]
    constructor
    · rintro ⟨⟩
      omega
    · intro hpq
      have hpos := (hq.linear_mem hf).1
      exact congrArg some (hq.eq_of_linear hf hp (by omega))
  increment p hp := ⟨hp.toPositionInAddressRange_increment hf, (hp.increment_eq hf).2.2.2.2⟩
  decrement p hp hroot := by
    obtain ⟨hfits, hlinear, hback⟩ := hp.decrement_eq hf hroot
    have hrange := hp.toPositionInAddressRange_succ hf
    have hrange' := hfits.toPositionInAddressRange_succ hf
    exact ⟨hfits, by omega, hback⟩
  decrement_root p hp hroot := if_pos (isRoot_iff.1 hroot)
  lessThan_iff p hp q hq := by
    have hrange := hp.toPositionInAddressRange_succ hf
    have hrange' := hq.toPositionInAddressRange_succ hf
    rw [hp.toInLayer.lessThan_iff hq.toInLayer (hp.fanout_eq.trans hq.fanout_eq.symm)]
    omega
  parent p hp hroot := by
    obtain ⟨hfits, hlt⟩ := hp.parent_fits hf hroot
    have hrange := hp.toPositionInAddressRange_succ hf
    have hrange' := hfits.toPositionInAddressRange_succ hf
    have hfanout := hfits.fanout_eq.trans hp.fanout_eq.symm
    exact ⟨hfits, (hfits.toInLayer.lessThan_iff hp.toInLayer hfanout).2 hlt, by omega⟩

end Numbers

/-- The last node of layer 2 with three subordinates to a node: the next one begins layer 3, and its parent is the last
node of layer 1. -/
theorem isNumbering_ternary :
    (⟨2, 8, 3⟩ : PositionInTree).toPositionInAddressRange = 12 ∧ increment ⟨2, 8, 3⟩ = ⟨3, 0, 3⟩ ∧
      (⟨3, 0, 3⟩ : PositionInTree).toPositionInAddressRange = 13 ∧ decrement ⟨3, 0, 3⟩ = ⟨2, 8, 3⟩ ∧
      (parent ⟨2, 8, 3⟩).lessThan ⟨2, 8, 3⟩ = true ∧ ofLinear 13 3 = some ⟨2, 8, 3⟩ := by
  have hfits : (⟨2, 8, 3⟩ : PositionInTree).Fits 3 := ⟨⟨by decide, by decide⟩, rfl, by decide⟩
  have hnumbering := isNumbering (f := 3) (by decide)
  have hnumber : (⟨2, 8, 3⟩ : PositionInTree).toPositionInAddressRange = 12 := by decide +kernel
  have hnext : increment ⟨2, 8, 3⟩ = ⟨3, 0, 3⟩ := by decide +kernel
  have hmem : 13 ∈ numbers 3 := by
    have hbij := hnumbering.bijOn.mapsTo hfits
    rwa [hnumber] at hbij
  obtain ⟨hsucc, hback⟩ := hnumbering.increment _ hfits
  rw [hnext] at hsucc hback
  rw [hnumber] at hsucc
  exact ⟨hnumber, hnext, hsucc, hback, (hnumbering.parent _ hfits (by decide)).2.1,
    (hnumbering.ofLinear_iff _ hfits 13 hmem).2 hnumber⟩

/-- The last node of layer 20 with three subordinates to a node: the number begins anew, and is that of a node in
layer 19. -/
theorem isNumbering_fails : ¬ ∀ f, 1 ≤ f → IsNumbering f {p | p.fanout = f ∧ p.InLayer} := by
  intro hall
  have hlast : InLayer ⟨20, 3 ^ 20 - 1, 3⟩ := ⟨by decide +kernel, by decide +kernel⟩
  have hother : InLayer ⟨19, 354078571, 3⟩ := ⟨by decide +kernel, by decide +kernel⟩
  have hsame := (hall 3 (by decide)).bijOn.injOn ⟨rfl, hlast⟩ ⟨rfl, hother⟩ (by decide +kernel)
  exact absurd (congrArg layer hsame) (by decide)

end PositionInTree

end Subordination.Daemon
