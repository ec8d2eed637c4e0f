import Subordination.Library.Layers

/-!
# Positions in the tree

`position_in_tree`: the layer and the offset of a node in a tree in which every node has
`fanout` subordinates. The arithmetic is that of `pos_type`, which has 32 bits: the number
of nodes in a layer wraps, and a layer whose number of nodes wraps to zero is one that the
search of `position_in_tree(linear_pos, fanout)` never leaves.

**`ofLinear_eq_some_iff`** says what the search finds: the layer and the offset at which
the number of the node ends, counting every layer by its wrapped number of nodes. As long
as no layer wraps that is its place in the tree (`width_eq_pow`).
-/

namespace Subordination.Daemon

open Subordination.Library

/-! ### `pos_type` -/

/-- A number as a `pos_type` holds it. -/
def wrap (n : ℕ) : ℕ := n % 2 ^ 32

/-- `a - b`. -/
def wrapSub (a b : ℕ) : ℕ := wrap (a + (2 ^ 32 - wrap b))

theorem wrap_of_lt {n : ℕ} (h : n < 2 ^ 32) : wrap n = n := Nat.mod_eq_of_lt h

theorem wrap_lt (n : ℕ) : wrap n < 2 ^ 32 := Nat.mod_lt n (by decide)

theorem wrapSub_of_le {a b : ℕ} (hb : b ≤ a) (ha : a < 2 ^ 32) : wrapSub a b = a - b := by
  rw [wrapSub, wrap_of_lt (by omega : b < 2 ^ 32), wrap]
  omega

/-! ### The layers -/

/-- The number of nodes in layer `l`, as `n *= fanout` leaves it after `l` rounds. -/
def width (fanout : ℕ) : ℕ → ℕ
  | 0 => 1
  | l + 1 => wrap (width fanout l * fanout)

@[simp] theorem width_zero (fanout : ℕ) : width fanout 0 = 1 := rfl

theorem width_lt (fanout l : ℕ) : width fanout l < 2 ^ 32 := by
  cases l with
  | zero =>
    rw [width_zero]
    decide
  | succ l => exact wrap_lt _

/-- After an empty layer every layer is empty. -/
theorem width_pos_of_le {fanout i l : ℕ} (hi : i ≤ l) (h : 1 ≤ width fanout l) : 1 ≤ width fanout i := by
  induction l, hi using Nat.le_induction with
  | base => exact h
  | succ l _ ih =>
    apply ih
    by_contra hzero
    have hl : width fanout l = 0 := by omega
    rw [width, hl, Nat.zero_mul] at h
    exact absurd h (by decide)

/-- The number of nodes in a layer is a power of the fanout as long as it fits. -/
theorem width_eq_pow {fanout : ℕ} (hf : 1 ≤ fanout) :
    ∀ {l : ℕ}, fanout ^ l < 2 ^ 32 → width fanout l = fanout ^ l
  | 0, _ => rfl
  | l + 1, h => by
    have hl : fanout ^ l ≤ fanout ^ (l + 1) := Nat.pow_le_pow_right hf (Nat.le_succ l)
    rw [width, width_eq_pow hf (hl.trans_lt h), ← pow_succ, wrap_of_lt h]

/-- The node above a node of layer `l + 1` is in layer `l`. -/
theorem div_lt_width {fanout l o : ℕ} (hf : 1 ≤ fanout) (ho : o < width fanout (l + 1)) :
    o / fanout < width fanout l := by
  have hle : width fanout (l + 1) ≤ width fanout l * fanout := Nat.mod_le _ _
  exact (Nat.div_lt_iff_lt_mul hf).2 (ho.trans_le hle)

/-! ### Positions -/

/-- `position_in_tree`. -/
structure PositionInTree where
  /-- `_layer`. -/
  layer : ℕ
  /-- `_offset`. -/
  offset : ℕ
  /-- `_fanout`. -/
  fanout : ℕ
  deriving DecidableEq, Repr

namespace PositionInTree

/-- The loop of `position_in_tree(linear_pos, fanout)`, in which `n` is the number of nodes
of layer `l`, for so many rounds. -/
def search (fanout : ℕ) : ℕ → ℕ → ℕ → ℕ → Option PositionInTree
  | 0, linearPos, l, n =>
    if linearPos > n then none else some ⟨l, wrapSub linearPos 1, fanout⟩
  | fuel + 1, linearPos, l, n =>
    if linearPos > n then search fanout fuel (linearPos - n) (l + 1) (wrap (n * fanout))
    else some ⟨l, wrapSub linearPos 1, fanout⟩

/-- `position_in_tree(linear_pos, fanout)`. The position falls in each round until the
number of nodes in a layer wraps to zero, after which the loop goes round for ever. -/
def ofLinear (linearPos fanout : ℕ) : Option PositionInTree :=
  search fanout linearPos linearPos 0 1

/-- The loop of `to_position_in_address_range`: `pos` and `n` after `l` rounds. -/
def rangeLoop (fanout : ℕ) : ℕ → ℕ × ℕ
  | 0 => (0, 1)
  | l + 1 =>
    let (pos, n) := rangeLoop fanout l
    (wrap (pos + n), wrap (n * fanout))

/-- `to_position_in_address_range`. -/
def toPositionInAddressRange (p : PositionInTree) : ℕ :=
  wrap ((rangeLoop p.fanout p.layer).1 + p.offset)

/-- `num_nodes`. -/
def numNodes (p : PositionInTree) : ℕ := width p.fanout p.layer

/-- `is_root`. -/
def isRoot (p : PositionInTree) : Bool := p.layer = 0 ∧ p.offset = 0

/-- `is_last`. -/
def isLast (p : PositionInTree) : Bool := p.offset = wrapSub p.numNodes 1

/-- `operator++`. -/
def increment (p : PositionInTree) : PositionInTree :=
  if p.isLast then { p with layer := wrap (p.layer + 1), offset := 0 }
  else { p with offset := wrap (p.offset + 1) }

/-- `operator--`. -/
def decrement (p : PositionInTree) : PositionInTree :=
  if p.layer = 0 ∧ p.offset = 0 then p
  else if p.offset = 0 then
    let p := { p with layer := wrapSub p.layer 1 }
    { p with offset := wrapSub p.numNodes 1 }
  else { p with offset := wrapSub p.offset 1 }

/-- `operator<`. -/
def lessThan (p rhs : PositionInTree) : Bool :=
  p.layer < rhs.layer ∨ p.layer = rhs.layer ∧ p.offset < rhs.offset

/-- `decrement_layer`. -/
def decrementLayer (p : PositionInTree) : PositionInTree :=
  if p.layer > 0 then { p with layer := p.layer - 1, offset := 0 } else p

/-! ### What the search finds -/

/-- Where the loop stops. -/
theorem search_stops {fanout r l : ℕ} {p : PositionInTree} (hr : 1 ≤ r) (hlt : r < 2 ^ 32)
    (hle : r ≤ width fanout l) (h : some ⟨l, wrapSub r 1, fanout⟩ = some p) :
    p.fanout = fanout ∧ p.offset < width fanout p.layer ∧
      above (width fanout) l + r = above (width fanout) p.layer + p.offset + 1 := by
  rw [wrapSub_of_le hr hlt, Option.some.injEq] at h
  subst h
  refine ⟨rfl, ?_, ?_⟩
  · show r - 1 < width fanout l
    omega
  · show _ = above (width fanout) l + (r - 1) + 1
    omega

theorem search_eq_some {fanout fuel r l : ℕ} {p : PositionInTree} (hr : 1 ≤ r) (hlt : r < 2 ^ 32)
    (h : search fanout fuel r l (width fanout l) = some p) :
    p.fanout = fanout ∧ p.offset < width fanout p.layer ∧
      above (width fanout) l + r = above (width fanout) p.layer + p.offset + 1 := by
  induction fuel generalizing r l with
  | zero =>
    rw [search] at h
    split at h
    · exact absurd h (by simp)
    · exact search_stops hr hlt (by omega) h
  | succ fuel ih =>
    rw [search] at h
    split at h
    · next hgt =>
      have hnext := ih (by omega) (by omega) h
      rw [above_succ] at hnext
      exact ⟨hnext.1, hnext.2.1, by omega⟩
    · exact search_stops hr hlt (by omega) h

theorem search_of_eq {fanout l o : ℕ} (ho : o < width fanout l) {fuel r m : ℕ} (hm : m ≤ l)
    (hr : above (width fanout) m + r = above (width fanout) l + o + 1) (hlt : r < 2 ^ 32)
    (hfuel : l - m ≤ fuel) :
    search fanout fuel r m (width fanout m) = some ⟨l, o, fanout⟩ := by
  induction fuel generalizing r m with
  | zero =>
    obtain rfl : m = l := by omega
    obtain rfl : r = o + 1 := by omega
    rw [search, if_neg (by omega), wrapSub_of_le (by omega) hlt]
    rfl
  | succ fuel ih =>
    by_cases hml : m = l
    · subst hml
      obtain rfl : r = o + 1 := by omega
      rw [search, if_neg (by omega), wrapSub_of_le (by omega) hlt]
      rfl
    · have habove := above_mono (width fanout) (show m + 1 ≤ l by omega)
      rw [above_succ] at habove
      have hnext := ih (r := r - width fanout m) (show m + 1 ≤ l by omega)
        (by rw [above_succ]; omega) (by omega) (by omega)
      rw [search, if_pos (by omega)]
      exact hnext

/-- **The search finds the place of a node in layers of the given widths.** -/
theorem ofLinear_eq_some_iff {fanout n : ℕ} {p : PositionInTree} (hn : 1 ≤ n) (hlt : n < 2 ^ 32) :
    ofLinear n fanout = some p ↔
      p.fanout = fanout ∧ p.offset < width fanout p.layer ∧
        n = above (width fanout) p.layer + p.offset + 1 := by
  constructor
  · intro h
    have hsearch := search_eq_some (l := 0) hn hlt h
    rw [above_zero, Nat.zero_add] at hsearch
    exact hsearch
  · rintro ⟨rfl, ho, rfl⟩
    have hl := le_above (width p.fanout) fun i hi => width_pos_of_le hi.le (Nat.one_le_of_lt ho)
    exact search_of_eq ho (Nat.zero_le p.layer) (by rw [above_zero]; omega) hlt (by omega)

/-- The position is one in the tree of the given fanout. -/
theorem fanout_search {fanout fuel r l n : ℕ} {p : PositionInTree}
    (h : search fanout fuel r l n = some p) : p.fanout = fanout := by
  induction fuel generalizing r l n with
  | zero =>
    rw [search] at h
    split at h
    · exact absurd h.symm (Option.some_ne_none p)
    · exact (congrArg PositionInTree.fanout (Option.some.inj h)).symm
  | succ fuel ih =>
    rw [search] at h
    split at h
    · exact ih h
    · exact (congrArg PositionInTree.fanout (Option.some.inj h)).symm

theorem fanout_ofLinear {n fanout : ℕ} {p : PositionInTree} (h : ofLinear n fanout = some p) :
    p.fanout = fanout := fanout_search h

/-! ### Nodes -/

/-- The position is that of a node of its layer. -/
def Valid (p : PositionInTree) : Prop := p.offset < width p.fanout p.layer

/-- The number of the node. -/
def index (p : PositionInTree) : ℕ := above (width p.fanout) p.layer + p.offset + 1

theorem Valid.width_pos {p : PositionInTree} (h : p.Valid) : ∀ i < p.layer, 1 ≤ width p.fanout i :=
  fun _ hi => width_pos_of_le hi.le (Nat.one_le_of_lt h)

theorem Valid.layerOf_index {p : PositionInTree} (h : p.Valid) :
    layerOf (width p.fanout) p.index = p.layer := layerOf_eq _ rfl h h.width_pos

theorem Valid.offsetOf_index {p : PositionInTree} (h : p.Valid) :
    offsetOf (width p.fanout) p.index = p.offset := offsetOf_eq _ rfl h h.width_pos

/-- A node has one place in the tree. -/
theorem Valid.index_inj {p q : PositionInTree} (hp : p.Valid) (hq : q.Valid)
    (hf : p.fanout = q.fanout) (h : p.index = q.index) : p = q := by
  have hlayer : p.layer = q.layer := by rw [← hp.layerOf_index, ← hq.layerOf_index, h, hf]
  have hoffset : p.offset = q.offset := by rw [← hp.offsetOf_index, ← hq.offsetOf_index, h, hf]
  cases p
  cases q
  simp_all

/-! ### Moving through a layer -/

theorem rangeLoop_eq {fanout l : ℕ} (h : above (width fanout) l < 2 ^ 32) :
    rangeLoop fanout l = (above (width fanout) l, width fanout l) := by
  induction l with
  | zero => rfl
  | succ l ih =>
    have hle := above_mono (width fanout) (show l ≤ l + 1 by omega)
    rw [rangeLoop, ih (by omega)]
    rw [above_succ] at h ⊢
    simp only [wrap_of_lt h]
    rfl

/-- The index in the range of addresses is counted from zero. -/
theorem toPositionInAddressRange_succ {p : PositionInTree} (h : p.index < 2 ^ 32) :
    p.toPositionInAddressRange + 1 = p.index := by
  rw [index] at h ⊢
  rw [toPositionInAddressRange, rangeLoop_eq (by omega), wrap_of_lt (by omega)]

theorem isRoot_iff {p : PositionInTree} : p.isRoot = true ↔ p.layer = 0 ∧ p.offset = 0 := by
  rw [isRoot, decide_eq_true_iff]

theorem isLast_iff {p : PositionInTree} (h : p.Valid) :
    p.isLast = true ↔ p.offset + 1 = width p.fanout p.layer := by
  have hlt := width_lt p.fanout p.layer
  have hoffset : p.offset < width p.fanout p.layer := h
  rw [isLast, numNodes, wrapSub_of_le (by omega) hlt, decide_eq_true_iff]
  omega

theorem increment_of_lt {p : PositionInTree} (h : p.offset + 1 < width p.fanout p.layer) :
    p.increment = { p with offset := p.offset + 1 } := by
  have hlt := width_lt p.fanout p.layer
  have hlast : ¬ p.isLast = true := by
    rw [isLast_iff (show p.offset < _ by omega)]
    omega
  rw [increment, if_neg hlast, wrap_of_lt (by omega)]

end PositionInTree

end Subordination.Daemon
