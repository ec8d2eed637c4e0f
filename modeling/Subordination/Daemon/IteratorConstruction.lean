import Subordination.Daemon.TreeHierarchyIterator

/-!
# Constructing the tree hierarchy iterator

The member initialisers of `tree_hierarchy_iterator` divide by the stride and by the fanout, and the constructor
looks at both only after that (`tree_hierarchy_iterator.cc`). Between the divisions `position_in_tree` looks for the
layer of the base position, in 32-bit arithmetic: once the number of nodes of a layer is a multiple of `2 ^ 32` the
search stays where it is.

## The model

`construct` has one answer for whatever goes wrong; here a division by zero, an exception and a loop that goes on are
told apart. A division by zero ends the program.

## What is proved

* `not_invalidArgument` — the exceptions of the constructor are never thrown.
* `search_ends_iff` — when the layer is found.
* `nextLoop_start` — the first address is found, whatever the offset and the stride.
* `constructsProperly_iff` — which constructions end as they should.
-/

namespace Subordination.Daemon

open Subordination.Library

/-! ### The constructor -/

/-- What stops a construction. -/
inductive Fault where
  /-- An integer division by zero. -/
  | divisionByZero
  /-- `std::invalid_argument`. -/
  | invalidArgument (what : String)
  deriving DecidableEq, Repr

/-- A construction with a bound on the rounds of its loops: nothing if they are too few. -/
abbrev Attempt := ExceptT Fault Option

/-- `a / b`. -/
def divide (a b : ℕ) : Attempt ℕ := if b = 0 then throw .divisionByZero else pure (a / b)

/-- A loop of the construction. -/
def Attempt.ofLoop {α : Type} (result : Option α) : Attempt α := ExceptT.lift result

namespace TreeHierarchyIterator

/-- `to_virtual_position`. -/
def toVirtualPosition (offset stride rhs : ℕ) : Attempt ℕ := do
  let q ← divide rhs stride
  return wrapSub q offset

/-- The members before the first increment. -/
def start (ifaddr : InterfaceAddress) (fanout offset stride : ℕ) (basepos parentpos : PositionInTree) :
    TreeHierarchyIterator where
  ifaddr := ifaddr
  fanout := fanout
  offset := offset
  stride := stride
  basepos := basepos
  parentpos := parentpos
  currentpos := basepos
  address := 0
  state := .initial
  oldstate := .initial

/-- What follows the search for the layer: the offset of the parent, the checks, and the first increment. -/
def constructFrom (rounds : ℕ) (ifaddr : InterfaceAddress) (fanout offset stride : ℕ) (basepos : PositionInTree) :
    Attempt TreeHierarchyIterator := do
  let parentOffset ← divide basepos.offset fanout
  let parentpos := ⟨wrapSub basepos.layer 1, parentOffset, fanout⟩
  if fanout = 0 then throw (.invalidArgument "fanout=0")
  if stride = 0 then throw (.invalidArgument "stride=0")
  Attempt.ofLoop (nextLoop rounds (start ifaddr fanout offset stride basepos parentpos))

/-- `tree_hierarchy_iterator(interface_address, fanout, offset, stride)`: the member initialisers in their order,
and the body. -/
def constructWithin (rounds : ℕ) (ifaddr : InterfaceAddress) (fanout offset stride : ℕ) :
    Option (Except Fault TreeHierarchyIterator) := ExceptT.run do
  let linearPos ← toVirtualPosition offset stride ifaddr.position
  let basepos ← Attempt.ofLoop (PositionInTree.search fanout rounds linearPos 0 1)
  constructFrom rounds ifaddr fanout offset stride basepos

/-- The check of `discoverer::properties::set` on `fanout`, of the number that `std::stoul` has read. -/
def setFanout (v : ℕ) : Except String UInt32 :=
  if v > 2 ^ 32 - 1 ∨ v = 0 then .error "out of range" else .ok (UInt32.ofNat v)

section Construction

variable {a : InterfaceAddress} {fanout offset stride rounds : ℕ}

theorem constructWithin_stride_zero :
    constructWithin rounds a fanout offset 0 = some (.error .divisionByZero) := rfl

/-- Where the division by the stride goes through, the layer is looked for. -/
theorem constructWithin_of_stride (hs : stride ≠ 0) :
    constructWithin rounds a fanout offset stride =
      (PositionInTree.search fanout rounds (wrapSub (a.position / stride) offset) 0 1).bind fun basepos =>
        (constructFrom rounds a fanout offset stride basepos).run := by
  rw [constructWithin, toVirtualPosition, divide, if_neg hs]
  simp only [pure_bind]
  cases PositionInTree.search fanout rounds (wrapSub (a.position / stride) offset) 0 1 <;> rfl

/-- A fanout of zero divides by zero when the layer has been found. -/
theorem constructFrom_fanout_zero (p : PositionInTree) :
    (constructFrom rounds a 0 offset stride p).run = some (.error .divisionByZero) := rfl

/-- Otherwise what is left is the first increment. -/
theorem constructFrom_of_ne {p : PositionInTree} (hf : fanout ≠ 0) (hs : stride ≠ 0) :
    (constructFrom rounds a fanout offset stride p).run =
      (nextLoop rounds (start a fanout offset stride p ⟨wrapSub p.layer 1, p.offset / fanout, fanout⟩)).map .ok := by
  simp only [constructFrom, divide, if_neg hf, if_neg hs, pure_bind]
  cases nextLoop rounds (start a fanout offset stride p ⟨wrapSub p.layer 1, p.offset / fanout, fanout⟩) <;> rfl

/-- **The exceptions are never thrown**: a fanout or a stride that they are about has divided by zero. -/
theorem not_invalidArgument {what : String} :
    constructWithin rounds a fanout offset stride ≠ some (.error (.invalidArgument what)) := by
  intro h
  by_cases hs : stride = 0
  · rw [hs, constructWithin_stride_zero] at h
    cases h
  · rw [constructWithin_of_stride hs] at h
    obtain ⟨p, -, h⟩ := Option.bind_eq_some_iff.1 h
    by_cases hf : fanout = 0
    · subst hf
      rw [constructFrom_fanout_zero] at h
      cases h
    · rw [constructFrom_of_ne hf hs] at h
      obtain ⟨it, -, h⟩ := Option.map_eq_some_iff.1 h
      cases h

end Construction

end TreeHierarchyIterator

/-! ### The search for the layer -/

/-- The number of nodes of layer `l` is a power of the fanout in 32 bits. -/
theorem width_eq (fanout l : ℕ) : width fanout l = fanout ^ l % 2 ^ 32 := by
  induction l with
  | zero => rfl
  | succ l ih => rw [width, ih, wrap, Nat.mod_mul_mod, pow_succ fanout]

/-- The first `l` layers hold a position, counted by their numbers of nodes in 32 bits. -/
def Holds (fanout l pos : ℕ) : Prop := pos ≤ ∑ i ∈ Finset.range l, fanout ^ i % 2 ^ 32

instance (fanout l pos : ℕ) : Decidable (Holds fanout l pos) :=
  inferInstanceAs (Decidable (pos ≤ ∑ i ∈ Finset.range l, fanout ^ i % 2 ^ 32))

theorem holds_iff {fanout l pos : ℕ} : Holds fanout l pos ↔ pos ≤ above (width fanout) l := by
  rw [Holds, above, Finset.sum_congr rfl fun i _ => width_eq fanout i]

/-- **With an odd fanout every position is held**: no layer is empty in 32 bits. -/
theorem holds_of_odd {fanout : ℕ} (h : Odd fanout) (pos : ℕ) : Holds fanout pos pos := by
  rw [holds_iff]
  refine le_above (width fanout) fun i _ => ?_
  have hmod : fanout ^ i % 2 ^ 32 % 2 = 1 := by
    rw [Nat.mod_mod_of_dvd _ (by decide : 2 ∣ 2 ^ 32)]
    exact Nat.odd_iff.1 (h.pow)
  rw [width_eq]
  omega

/-- **With a fanout that is a multiple of `2 ^ 16` only two layers hold anything.** -/
theorem nodes_le {fanout : ℕ} (h : 2 ^ 16 ∣ fanout) (l : ℕ) :
    ∑ i ∈ Finset.range l, fanout ^ i % 2 ^ 32 ≤ 1 + fanout := by
  have hempty (i : ℕ) : fanout ^ (i + 2) % 2 ^ 32 = 0 := by
    refine Nat.mod_eq_zero_of_dvd ?_
    calc 2 ^ 32 = (2 ^ 16) ^ 2 := by rw [← pow_mul]
      _ ∣ fanout ^ 2 := pow_dvd_pow_of_dvd h 2
      _ ∣ fanout ^ (i + 2) := pow_dvd_pow fanout (Nat.le_add_left 2 i)
  induction l with
  | zero => exact Nat.zero_le _
  | succ l ih =>
    match l with
    | 0 => exact Nat.le_add_right 1 _
    | 1 =>
      rw [Finset.sum_range_succ, Finset.sum_range_one, pow_zero, pow_one]
      exact Nat.add_le_add_left (Nat.mod_le _ _) 1
    | i + 2 =>
      rw [Finset.sum_range_succ, hempty]
      exact ih

namespace PositionInTree

variable {fanout pos : ℕ}

/-- More rounds change nothing. -/
theorem search_add {fuel r l n : ℕ} {p : PositionInTree} (h : search fanout fuel r l n = some p) (k : ℕ) :
    search fanout (fuel + k) r l n = some p := by
  induction fuel generalizing r l n with
  | zero =>
    rw [search] at h
    by_cases hgt : r > n
    · rw [if_pos hgt] at h
      cases h
    · rw [if_neg hgt] at h
      cases k with
      | zero => rwa [search, if_neg hgt]
      | succ k => rwa [Nat.zero_add, search, if_neg hgt]
  | succ fuel ih =>
    rw [search] at h
    rw [Nat.succ_add, search]
    by_cases hgt : r > n
    · rw [if_pos hgt] at h ⊢
      exact ih h
    · rwa [if_neg hgt] at h ⊢

/-- The place that the search finds. -/
def IsPlaceOf (pos fanout : ℕ) (p : PositionInTree) : Prop :=
  p.fanout = fanout ∧ if pos = 0 then p.layer = 0 else p.Valid ∧ p.index = pos

/-- What the search finds is the place of the position. -/
theorem isPlaceOf_of_search {fuel : ℕ} {p : PositionInTree} (hlt : pos < 2 ^ 32)
    (h : search fanout fuel pos 0 1 = some p) : IsPlaceOf pos fanout p := by
  refine ⟨fanout_search h, ?_⟩
  by_cases hzero : pos = 0
  · subst hzero
    rw [if_pos rfl]
    cases fuel with
    | zero =>
      cases h
      rfl
    | succ fuel =>
      cases h
      rfl
  · rw [if_neg hzero]
    obtain ⟨hfanout, hoffset, hindex⟩ := search_eq_some (l := 0) (Nat.one_le_iff_ne_zero.2 hzero) hlt h
    rw [above_zero, Nat.zero_add] at hindex
    subst hfanout
    exact ⟨hoffset, hindex.symm⟩

/-- A place that is not the root has an index, and its layer does not wrap. -/
theorem IsPlaceOf.spec {p : PositionInTree} (hlt : pos < 2 ^ 32) (h : IsPlaceOf pos fanout p) (hl : p.layer ≠ 0) :
    p.Valid ∧ p.index = pos ∧ wrapSub p.layer 1 = p.layer - 1 := by
  obtain ⟨-, hplace⟩ := h
  have hpos : pos ≠ 0 := fun hzero => hl (by rwa [if_pos hzero] at hplace)
  rw [if_neg hpos] at hplace
  obtain ⟨hvalid, hindex⟩ := hplace
  have hle : p.layer ≤ above (width p.fanout) p.layer := le_above _ hvalid.width_pos
  refine ⟨hvalid, hindex, wrapSub_of_le (Nat.one_le_iff_ne_zero.2 hl) ?_⟩
  rw [index] at hindex
  omega

/-- **The layer is found if and only if the layers hold the position.** -/
theorem search_ends_iff (hlt : pos < 2 ^ 32) :
    (∃ fuel p, search fanout fuel pos 0 1 = some p) ↔ ∃ l, Holds fanout l pos := by
  constructor
  · rintro ⟨fuel, p, h⟩
    obtain ⟨rfl, hplace⟩ := isPlaceOf_of_search hlt h
    by_cases hzero : pos = 0
    · exact ⟨0, hzero.trans_le (Nat.zero_le _)⟩
    · rw [if_neg hzero] at hplace
      obtain ⟨hvalid, hindex⟩ := hplace
      refine ⟨p.layer + 1, holds_iff.2 ?_⟩
      have hoffset : p.offset < width p.fanout p.layer := hvalid
      rw [index] at hindex
      rw [above_succ]
      omega
  · intro h
    have hle := Nat.find_spec h
    rw [holds_iff] at hle
    cases hl : Nat.find h with
    | zero =>
      rw [hl, above_zero] at hle
      exact ⟨0, _, if_neg (by omega)⟩
    | succ l =>
      have hgt : ¬ pos ≤ above (width fanout) l := fun hle => Nat.find_min h (by omega) (holds_iff.2 hle)
      rw [hl, above_succ] at hle
      have hoffset : pos - above (width fanout) l - 1 < width fanout l := by omega
      have hindex : pos = above (width fanout) l + (pos - above (width fanout) l - 1) + 1 := by omega
      exact ⟨pos, ⟨l, _, fanout⟩, (ofLinear_eq_some_iff (by omega) hlt).2 ⟨rfl, hoffset, hindex⟩⟩

end PositionInTree

/-! ### The first increment -/

namespace TreeHierarchyIterator

variable {it it' : TreeHierarchyIterator}

/-- More rounds change nothing. -/
theorem nextLoop_add {n : ℕ} (h : nextLoop n it = some it') (k : ℕ) : nextLoop (n + k) it = some it' := by
  induction n generalizing it with
  | zero => cases h
  | succ n ih =>
    rw [Nat.succ_add, nextLoop]
    rw [nextLoop] at h
    by_cases hsame : it.address = it.step.address ∧ it.step.state ≠ .finished
    · rw [if_pos hsame] at h ⊢
      exact ih h
    · rwa [if_neg hsame] at h ⊢

/-- The loop of `next` comes to one result. -/
theorem nextLoop_unique {m n : ℕ} {x y : TreeHierarchyIterator} (hx : nextLoop m it = some x)
    (hy : nextLoop n it = some y) : x = y := by
  have hx := nextLoop_add hx n
  have hy := nextLoop_add hy m
  rw [Nat.add_comm, hy] at hx
  exact (Option.some.inj hx).symm

/-- The loop of `next` is left. -/
def Ends (it : TreeHierarchyIterator) : Prop := ∃ n it', nextLoop n it = some it'

theorem ends_of_step (h : it.step.state ≠ .finished → Ends it.step) : Ends it := by
  by_cases hsame : it.address = it.step.address ∧ it.step.state ≠ .finished
  · obtain ⟨n, it', h⟩ := h hsame.2
    exact ⟨n + 1, it', by rwa [nextLoop, if_pos hsame]⟩
  · exact ⟨1, it.step, if_neg hsame⟩

/-- The position after a step through the base layer. -/
def basePosition (it : TreeHierarchyIterator) : PositionInTree :=
  if it.oldstate = .traversingBaseLayer then it.currentpos.increment else ⟨it.basepos.layer, 0, it.fanout⟩

/-- The position after a step through the upper layers. -/
def upperPosition (it : TreeHierarchyIterator) : PositionInTree :=
  let c := if it.oldstate = .traversingUpperLayers then it.currentpos.advanceUpper
    else ⟨it.parentpos.layer, 0, it.fanout⟩
  if c = it.parentpos then c.advanceUpper else c

/-- The iterator at a position, with its address. -/
def moved (it : TreeHierarchyIterator) (c : PositionInTree) (state oldstate : StateType) : TreeHierarchyIterator :=
  updateAddress { it with currentpos := c, state := state, oldstate := oldstate }

theorem step_initial (h : it.state = .initial) (hl : it.basepos.layer ≠ 0) :
    it.step = { it with state := .traversingParentNode, oldstate := .initial } := by
  rw [step, h]
  simp only [init, setstate, h, if_neg hl]

theorem step_parent (h : it.state = .traversingParentNode) :
    it.step = it.moved it.parentpos .traversingUpperLayers .traversingParentNode := by
  rw [step, h]
  simp only [traverseParentNode, setCurrentPosition, updateAddress, setstate, moved, h]
  rfl

/-- Entering a layer and going on in it differ in the position. -/
theorem enter_eq (layer : ℕ) (advance : PositionInTree → PositionInTree) :
    it.enter layer (fun it => { it with currentpos := advance it.currentpos }) =
      { it with
        currentpos := if it.oldstate = it.state then advance it.currentpos else ⟨layer, 0, it.fanout⟩
        oldstate := it.state } := by
  rw [enter]
  by_cases h : it.oldstate = it.state
  · rw [if_neg (not_not_intro h.symm), if_pos h, ← h]
  · rw [if_pos (Ne.symm h), if_neg h]

/-- In a layer that has been entered, a step ends with the address and perhaps another state. -/
theorem updateAddress_setstate {state : StateType} (hold : it.oldstate = state) (h : it.state = state)
    (next : StateType) (p : Prop) [Decidable p] :
    (if p then it.updateAddress.setstate next else it.updateAddress) =
      it.moved it.currentpos (if p then next else state) state := by
  obtain ⟨_, _, _, _, _, _, _, _, _, _⟩ := it
  cases hold
  cases h
  by_cases hp : p
  · rw [if_pos hp, if_pos hp]
    rfl
  · rw [if_neg hp, if_neg hp]
    rfl

theorem step_upperLayers (h : it.state = .traversingUpperLayers) :
    it.step = it.moved it.upperPosition
      (if it.upperPosition.isRoot then .traversingBaseLayer else .traversingUpperLayers) .traversingUpperLayers := by
  let x : TreeHierarchyIterator := { it with currentpos := it.upperPosition, oldstate := .traversingUpperLayers }
  have henter := it.enter_eq it.parentpos.layer PositionInTree.advanceUpper
  have hskip : (if (it.enter it.parentpos.layer advanceUpper).currentpos =
      (it.enter it.parentpos.layer advanceUpper).parentpos
      then (it.enter it.parentpos.layer advanceUpper).advanceUpper
      else it.enter it.parentpos.layer advanceUpper) = x := by
    rw [show it.enter it.parentpos.layer advanceUpper = _ from henter]
    simp only [x, upperPosition, h, advanceUpper]
    split <;> split <;> rfl
  have hstep : it.step = if x.updateAddress.currentpos.isRoot then x.updateAddress.setstate .traversingBaseLayer
      else x.updateAddress := by
    rw [← hskip, step, h]
    rfl
  rw [hstep]
  exact x.updateAddress_setstate rfl h _ _

theorem step_baseLayer (h : it.state = .traversingBaseLayer) :
    it.step = it.moved it.basePosition
      (if it.basePosition = it.basepos then .finished else .traversingBaseLayer) .traversingBaseLayer := by
  let x : TreeHierarchyIterator := { it with currentpos := it.basePosition, oldstate := .traversingBaseLayer }
  have henter : (it.enter it.basepos.layer fun it => { it with currentpos := it.currentpos.increment }) = x := by
    rw [enter_eq]
    simp only [x, basePosition, h]
  have hstep : it.step = if x.updateAddress.currentpos = x.updateAddress.basepos
      then x.updateAddress.setstate .finished else x.updateAddress := by
    rw [← henter, step, h]
    rfl
  rw [hstep]
  exact x.updateAddress_setstate rfl h _ _

/-- The base position and the parent are nodes of the tree. -/
structure Placed (it : TreeHierarchyIterator) : Prop where
  /-- The base position is in the tree. -/
  fanout_base : it.basepos.fanout = it.fanout
  /-- It is a node. -/
  valid_base : it.basepos.Valid
  /-- The parent is in the tree. -/
  fanout_parent : it.parentpos.fanout = it.fanout
  /-- It is a node. -/
  valid_parent : it.parentpos.Valid

theorem Placed.moved (h : Placed it) (c : PositionInTree) (state oldstate : StateType) :
    Placed (it.moved c state oldstate) := ⟨h.fanout_base, h.valid_base, h.fanout_parent, h.valid_parent⟩

/-- The base layer: in each round the position comes closer to the node. -/
theorem ends_base {o k : ℕ} (h : Placed it) (hstate : it.state = .traversingBaseLayer)
    (hposition : it.basePosition = ⟨it.basepos.layer, o, it.fanout⟩) (ho : o + k = it.basepos.offset) : Ends it := by
  induction k generalizing it o with
  | zero =>
    refine ends_of_step fun hnot => absurd ?_ hnot
    have hbase : it.basePosition = it.basepos := by
      rw [hposition, show o = it.basepos.offset from ho, ← h.fanout_base]
    rw [step_baseLayer hstate, if_pos hbase]
    rfl
  | succ k ih =>
    refine ends_of_step fun _ => ?_
    have hbase : it.basePosition ≠ it.basepos := fun hbase => by
      have hoffset := congrArg PositionInTree.offset (hposition.symm.trans hbase)
      change o = it.basepos.offset at hoffset
      omega
    have hnext : o + 1 < width it.fanout it.basepos.layer := by
      have hvalid : it.basepos.offset < width it.basepos.fanout it.basepos.layer := h.valid_base
      rw [h.fanout_base] at hvalid
      omega
    rw [step_baseLayer hstate, if_neg hbase]
    refine ih (h.moved _ _ _) rfl ?_ (show o + 1 + k = it.basepos.offset by omega)
    show it.basePosition.increment = _
    rw [hposition]
    exact PositionInTree.increment_of_lt hnext

/-- Skipping the parent leads to a node, and not away from the root. -/
theorem skip_spec {p c : PositionInTree} (hc : c.Valid) :
    (if c = p then c.advanceUpper else c).Valid ∧ (if c = p then c.advanceUpper else c).fanout = c.fanout ∧
      (if c = p then c.advanceUpper else c).upperFrom.length ≤ c.upperFrom.length := by
  by_cases hparent : c = p
  · rw [if_pos hparent]
    by_cases hroot : c.isRoot = true
    · rw [PositionInTree.advanceUpper_root hc hroot]
      exact ⟨hc, rfl, le_rfl⟩
    · obtain ⟨hvalid, hfanout, -, hfrom⟩ := PositionInTree.advanceUpper_spec hc hroot
      refine ⟨hvalid, hfanout, ?_⟩
      rw [hfrom]
      exact Nat.le_succ _
  · rw [if_neg hparent]
    exact ⟨hc, rfl, le_rfl⟩

/-- The upper layers: in each round there are fewer nodes to come. -/
theorem ends_upper (h : Placed it) (hstate : it.state = .traversingUpperLayers)
    (hfanout : it.upperPosition.fanout = it.fanout) (hvalid : it.upperPosition.Valid) : Ends it := by
  induction hk : it.upperPosition.upperFrom.length using Nat.strong_induction_on generalizing it with
  | _ k ih =>
    refine ends_of_step fun _ => ?_
    rw [step_upperLayers hstate]
    by_cases hroot : it.upperPosition.isRoot = true
    · rw [if_pos hroot]
      exact ends_base (o := 0) (h.moved _ _ _) rfl (if_neg StateType.noConfusion) (Nat.zero_add _)
    · rw [if_neg hroot]
      obtain ⟨hvalid', hfanout', -, hfrom⟩ := PositionInTree.advanceUpper_spec hvalid hroot
      obtain ⟨hvalid'', hfanout'', hlength⟩ := skip_spec (p := it.parentpos) hvalid'
      rw [hfrom, List.length_cons] at hk
      exact ih _ (by rw [← hk]; exact Nat.lt_succ_of_le hlength) (h.moved _ _ _) rfl
        (hfanout''.trans (hfanout'.trans hfanout)) hvalid'' rfl

/-- **The first increment comes to an end**, whatever the offset and the stride. -/
theorem ends_initial (h : it.basepos.layer ≠ 0 → Placed it) (hstate : it.state = .initial) : Ends it := by
  refine ends_of_step fun hnot => ?_
  by_cases hl : it.basepos.layer = 0
  · refine absurd ?_ hnot
    rw [step, hstate]
    simp only [init, if_pos hl, setstate]
  · have hplaced := h hl
    rw [step_initial hstate hl]
    refine ends_of_step fun _ => ?_
    rw [step_parent rfl]
    have hfirst : (⟨it.parentpos.layer, 0, it.fanout⟩ : PositionInTree).Valid := by
      have hvalid : it.parentpos.offset < width it.parentpos.fanout it.parentpos.layer := hplaced.valid_parent
      rw [hplaced.fanout_parent] at hvalid
      exact Nat.zero_lt_of_lt hvalid
    obtain ⟨hvalid, hfanout, -⟩ := skip_spec (p := it.parentpos) hfirst
    exact ends_upper ⟨hplaced.fanout_base, hplaced.valid_base, hplaced.fanout_parent, hplaced.valid_parent⟩ rfl
      hfanout hvalid

/-- What increments leave as the constructor has set it. -/
def fixed (it : TreeHierarchyIterator) : InterfaceAddress × ℕ × ℕ × ℕ × PositionInTree :=
  (it.ifaddr, it.fanout, it.offset, it.stride, it.basepos)

/-- A step leaves the members alone, and what it changes the address to is the address of the position. -/
theorem step_spec (it : TreeHierarchyIterator) :
    it.step.fixed = it.fixed ∧ (it.step.address = it.address ∨ it.step.updateAddress = it.step) := by
  cases hstate : it.state with
  | initial =>
    rw [step, hstate]
    exact ⟨rfl, .inl rfl⟩
  | traversingParentNode =>
    rw [step_parent hstate]
    exact ⟨rfl, .inr rfl⟩
  | traversingUpperLayers =>
    rw [step_upperLayers hstate]
    exact ⟨rfl, .inr rfl⟩
  | traversingBaseLayer =>
    rw [step_baseLayer hstate]
    exact ⟨rfl, .inr rfl⟩
  | finished =>
    rw [step, hstate]
    exact ⟨rfl, .inl rfl⟩

/-- After an increment that does not come to the end the address is that of another position. -/
theorem nextLoop_spec {n : ℕ} (h : nextLoop n it = some it') :
    it'.fixed = it.fixed ∧ (it'.atEnd = true ∨ it'.address ≠ it.address ∧ it'.updateAddress = it') := by
  induction n generalizing it with
  | zero => cases h
  | succ n ih =>
    obtain ⟨hfixed, haddress⟩ := it.step_spec
    rw [nextLoop] at h
    by_cases hsame : it.address = it.step.address ∧ it.step.state ≠ .finished
    · rw [if_pos hsame] at h
      obtain ⟨hfixed', haddress'⟩ := ih h
      exact ⟨hfixed'.trans hfixed, hsame.1 ▸ haddress'⟩
    · rw [if_neg hsame] at h
      cases h
      refine ⟨hfixed, ?_⟩
      by_cases hend : it.step.state = .finished
      · exact .inl (decide_eq_true hend)
      · have hne : it.step.address ≠ it.address := fun heq => hsame ⟨heq.symm, hend⟩
        exact .inr ⟨hne, haddress.resolve_left hne⟩

/-! ### Which constructions end -/

/-- `to_virtual_position`, where the stride does not divide by zero. -/
def virtualPosition (a : InterfaceAddress) (offset stride : ℕ) : ℕ := wrapSub (a.position / stride) offset

/-- An iterator that has been constructed: the base position is the place of the virtual position, and unless there
are no addresses the first of them has been found. -/
structure Constructed (a : InterfaceAddress) (fanout offset stride : ℕ) (it : TreeHierarchyIterator) : Prop where
  /-- The arguments are kept. -/
  arguments : it.ifaddr = a ∧ it.fanout = fanout ∧ it.offset = offset ∧ it.stride = stride
  /-- `_basepos`. -/
  basepos : PositionInTree.IsPlaceOf (virtualPosition a offset stride) fanout it.basepos
  /-- `_address`. -/
  address : it.atEnd = true ∨ it.address ≠ 0 ∧ it.updateAddress = it

/-- The construction comes to an end: with `std::invalid_argument` if the fanout or the stride is zero, and otherwise
with an iterator. -/
def ConstructsProperly (a : InterfaceAddress) (fanout offset stride : UInt32) : Prop :=
  if fanout = 0 ∨ stride = 0 then
    ∃ rounds what, constructWithin rounds a fanout.toNat offset.toNat stride.toNat =
      some (.error (.invalidArgument what))
  else
    ∃ rounds it, constructWithin rounds a fanout.toNat offset.toNat stride.toNat = some (.ok it) ∧
      Constructed a fanout.toNat offset.toNat stride.toNat it

variable {a : InterfaceAddress} {fanout offset stride : ℕ}

theorem virtualPosition_lt : virtualPosition a offset stride < 2 ^ 32 := wrap_lt _

/-- The iterator before the first increment is at a node, and so is its parent. -/
theorem placed_start {pos : ℕ} {p : PositionInTree} (hf : fanout ≠ 0) (hlt : pos < 2 ^ 32)
    (h : PositionInTree.IsPlaceOf pos fanout p) (hl : p.layer ≠ 0) :
    Placed (start a fanout offset stride p ⟨wrapSub p.layer 1, p.offset / fanout, fanout⟩) := by
  obtain ⟨hvalid, -, hlayer⟩ := h.spec hlt hl
  have hfanout := h.1
  have hparent : p.offset / fanout < width fanout (p.layer - 1) := by
    have hoffset : p.offset < width p.fanout p.layer := hvalid
    obtain ⟨l, hl⟩ := Nat.exists_eq_add_one_of_ne_zero hl
    rw [hl, hfanout] at hoffset
    rw [hl, Nat.add_sub_cancel]
    exact div_lt_width (Nat.one_le_iff_ne_zero.2 hf) hoffset
  refine ⟨hfanout, hvalid, rfl, ?_⟩
  show p.offset / fanout < width fanout (wrapSub p.layer 1)
  rwa [hlayer]

/-- **A construction makes an iterator if the layers hold the virtual position**, -/
theorem exists_constructed (hf : fanout ≠ 0) (hs : stride ≠ 0)
    (h : ∃ l, Holds fanout l (virtualPosition a offset stride)) :
    ∃ rounds it, constructWithin rounds a fanout offset stride = some (.ok it) ∧
      Constructed a fanout offset stride it := by
  obtain ⟨k, p, hsearch⟩ := (PositionInTree.search_ends_iff virtualPosition_lt).2 h
  have hplace := PositionInTree.isPlaceOf_of_search virtualPosition_lt hsearch
  have hends : Ends (start a fanout offset stride p ⟨wrapSub p.layer 1, p.offset / fanout, fanout⟩) :=
    ends_initial (placed_start hf virtualPosition_lt hplace) rfl
  obtain ⟨n, it, hnext⟩ := hends
  obtain ⟨hfixed, haddress⟩ := nextLoop_spec hnext
  refine ⟨k + n, it, ?_, ?_⟩
  · have hsearch' := PositionInTree.search_add hsearch n
    have hnext' := nextLoop_add hnext k
    rw [Nat.add_comm] at hnext'
    rw [virtualPosition] at hsearch'
    rw [constructWithin_of_stride hs, hsearch', Option.bind_some, constructFrom_of_ne hf hs, hnext']
    rfl
  · simp only [fixed, start, Prod.mk.injEq] at hfixed
    obtain ⟨hifaddr, hfanout, hoffset, hstride, hbasepos⟩ := hfixed
    exact ⟨⟨hifaddr, hfanout, hoffset, hstride⟩, hbasepos ▸ hplace, haddress⟩

/-- and otherwise it goes on for ever. -/
theorem constructWithin_endless (hs : stride ≠ 0) (h : ¬ ∃ l, Holds fanout l (virtualPosition a offset stride))
    (rounds : ℕ) : constructWithin rounds a fanout offset stride = none := by
  rw [constructWithin_of_stride hs]
  cases hsearch : PositionInTree.search fanout rounds (wrapSub (a.position / stride) offset) 0 1 with
  | none => rfl
  | some p => exact absurd ((PositionInTree.search_ends_iff virtualPosition_lt).1 ⟨rounds, p, hsearch⟩) h

/-- Where the layers are found, `ofLinear` finds the same place. -/
theorem ofLinear_of_search {rounds pos : ℕ} {p : PositionInTree} (hlt : pos < 2 ^ 32)
    (h : PositionInTree.search fanout rounds pos 0 1 = some p) : PositionInTree.ofLinear pos fanout = some p := by
  by_cases hzero : pos = 0
  · subst hzero
    cases rounds with
    | zero => exact h
    | succ rounds => exact h
  · obtain ⟨rfl, hplace⟩ := PositionInTree.isPlaceOf_of_search hlt h
    rw [if_neg hzero] at hplace
    exact (PositionInTree.ofLinear_eq_some_iff (Nat.one_le_iff_ne_zero.2 hzero) hlt).2
      ⟨rfl, hplace.1, hplace.2.symm⟩

theorem construct_of_ne (a : InterfaceAddress) (hf : fanout ≠ 0) : construct a fanout 0 1 =
    (PositionInTree.ofLinear (virtualPosition a 0 1) fanout).bind fun p =>
      next (start a fanout 0 1 p ⟨wrapSub p.layer 1, p.offset / fanout, fanout⟩) := by
  rw [construct, if_neg (by omega)]
  rfl

theorem constructWithin_of_construct {it : TreeHierarchyIterator} (hf : fanout ≠ 0)
    (h : construct a fanout 0 1 = some it) : ∃ rounds, constructWithin rounds a fanout 0 1 = some (.ok it) := by
  rw [construct_of_ne a hf] at h
  obtain ⟨p, hp, hnext⟩ := Option.bind_eq_some_iff.1 h
  refine ⟨virtualPosition a 0 1 + 5, ?_⟩
  have hsearch := PositionInTree.search_add hp 5
  have hloop := nextLoop_add hnext (virtualPosition a 0 1)
  rw [Nat.add_comm] at hloop
  rw [constructWithin_of_stride Nat.one_ne_zero]
  rw [virtualPosition] at hsearch hloop ⊢
  rw [hsearch, Option.bind_some, constructFrom_of_ne hf Nat.one_ne_zero, hloop]
  rfl

theorem construct_of_constructWithin {it : TreeHierarchyIterator} {rounds : ℕ} (hf : fanout ≠ 0)
    (h : constructWithin rounds a fanout 0 1 = some (.ok it)) : construct a fanout 0 1 = some it := by
  rw [constructWithin_of_stride Nat.one_ne_zero] at h
  obtain ⟨p, hsearch, h⟩ := Option.bind_eq_some_iff.1 h
  rw [constructFrom_of_ne hf Nat.one_ne_zero] at h
  obtain ⟨it', hloop, h⟩ := Option.map_eq_some_iff.1 h
  cases h
  have hp := ofLinear_of_search virtualPosition_lt hsearch
  have hposition : virtualPosition a 0 1 = a.position := by
    have hrange := a.inRange
    rw [virtualPosition, Nat.div_one, wrapSub_of_le (Nat.zero_le _) (by omega), Nat.sub_zero]
  rw [hposition] at hp
  -- the iterator of a discoverer takes no more than five rounds
  obtain ⟨it', hit, -⟩ := Option.bind_eq_some_iff.1
    (visited_construct (Nat.one_le_iff_ne_zero.2 hf) hp (le_refl a.position))
  rw [construct_of_ne a hf, hposition, hp, Option.bind_some] at hit ⊢
  rw [hit, nextLoop_unique hit hloop]

/-- **The iterators of a discoverer**, which have no offset and a stride of one, are those of `construct`. -/
theorem construct_eq_some_iff {it : TreeHierarchyIterator} :
    construct a fanout 0 1 = some it ↔ ∃ rounds, constructWithin rounds a fanout 0 1 = some (.ok it) := by
  by_cases hf : fanout = 0
  · subst hf
    refine ⟨fun h => absurd h.symm (Option.some_ne_none it), ?_⟩
    rintro ⟨rounds, h⟩
    rw [constructWithin_of_stride Nat.one_ne_zero] at h
    obtain ⟨p, -, h⟩ := Option.bind_eq_some_iff.1 h
    rw [constructFrom_fanout_zero] at h
    cases h
  · exact ⟨constructWithin_of_construct hf, fun ⟨_, h⟩ => construct_of_constructWithin hf h⟩

/-- **A construction ends as it should if and only if neither the fanout nor the stride is zero, and the layers hold
the virtual position in 32 bits.** -/
theorem constructsProperly_iff (a : InterfaceAddress) (fanout offset stride : UInt32) :
    ConstructsProperly a fanout offset stride ↔
      fanout ≠ 0 ∧ stride ≠ 0 ∧
        ∃ l, Holds fanout.toNat l (virtualPosition a offset.toNat stride.toNat) := by
  rw [ConstructsProperly]
  by_cases hzero : fanout = 0 ∨ stride = 0
  · rw [if_pos hzero]
    constructor
    · rintro ⟨rounds, what, h⟩
      exact absurd h not_invalidArgument
    · rintro ⟨hf, hs, -⟩
      exact absurd hzero (not_or.2 ⟨hf, hs⟩)
  · rw [if_neg hzero]
    obtain ⟨hf, hs⟩ := not_or.1 hzero
    have hf' : fanout.toNat ≠ 0 := fun h => hf (UInt32.toNat_inj.1 h)
    have hs' : stride.toNat ≠ 0 := fun h => hs (UInt32.toNat_inj.1 h)
    constructor
    · rintro ⟨rounds, it, h, -⟩
      refine ⟨hf, hs, ?_⟩
      by_contra hholds
      rw [constructWithin_endless hs' hholds] at h
      cases h
    · rintro ⟨-, -, h⟩
      exact exists_constructed hf' hs' h

/-- A node of a network with a prefix of eight bits, and a fanout that the configuration accepts: the second layer
below the root has `2 ^ 32` nodes. -/
theorem constructsProperly_fails :
    setFanout 65536 = .ok 65536 ∧ ¬ ConstructsProperly ⟨0x0a000000, 0x20000, by decide⟩ 65536 0 1 := by
  refine ⟨rfl, fun h => ?_⟩
  have hholds : ¬ ∃ l, Holds 65536 l (virtualPosition ⟨0x0a000000, 0x20000, by decide⟩ 0 1) := by
    rintro ⟨l, hl⟩
    have hle : virtualPosition ⟨0x0a000000, 0x20000, by decide⟩ 0 1 ≤ 65537 :=
      hl.trans (nodes_le (by decide : 2 ^ 16 ∣ 65536) l)
    exact absurd hle (by decide)
  rw [ConstructsProperly, if_neg (by decide)] at h
  obtain ⟨rounds, it, h, -⟩ := h
  rw [show (65536 : UInt32).toNat = 65536 from rfl, show (0 : UInt32).toNat = 0 from rfl,
    show (1 : UInt32).toNat = 1 from rfl, constructWithin_endless (by decide) hholds] at h
  cases h

end TreeHierarchyIterator

end Subordination.Daemon
