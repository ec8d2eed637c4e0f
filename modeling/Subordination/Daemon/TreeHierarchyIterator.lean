import Subordination.Daemon.InterfaceAddress
import Subordination.Daemon.PositionInTree

/-!
# The tree hierarchy iterator

`tree_hierarchy_iterator` goes through the addresses of a network in the order in which a
node looks for a superior. The address at index `p` of the network is node `p` of a tree
(`PositionInTree`), and the iterator goes through its states: the parent of the node, then
the layers above it from the parent's layer up, then its own layer up to the node itself.

A step of the state machine may leave the address as it is: the root is the parent of the
nodes of layer 1 and the last of the upper layers too. `next` repeats steps until the
address changes, so each address comes once.

**`visited_construct`** gives the addresses in order, for the wrapped widths of the layers;
**`visited_tree`** gives them for the tree proper, when the layer of the node does not wrap.
-/

namespace Subordination.Daemon

open Subordination.Library

/-! ### The state machine -/

/-- `tree_hierarchy_iterator::state_type`. -/
inductive StateType where
  /-- `initial`. -/
  | initial
  /-- `traversing_parent_node`. -/
  | traversingParentNode
  /-- `traversing_upper_layers`. -/
  | traversingUpperLayers
  /-- `traversing_base_layer`. -/
  | traversingBaseLayer
  /-- `end`. -/
  | finished
  deriving DecidableEq, Repr

/-- What `advance_upper` does to the current position. -/
def PositionInTree.advanceUpper (p : PositionInTree) : PositionInTree :=
  if p.isLast then p.decrementLayer else p.increment

/-- `tree_hierarchy_iterator`. -/
structure TreeHierarchyIterator where
  /-- `_ifaddr`. -/
  ifaddr : InterfaceAddress
  /-- `_fanout`. -/
  fanout : ℕ
  /-- `_offset`. -/
  offset : ℕ
  /-- `_stride`. -/
  stride : ℕ
  /-- `_basepos`. -/
  basepos : PositionInTree
  /-- `_parentpos`. -/
  parentpos : PositionInTree
  /-- `_currentpos`. -/
  currentpos : PositionInTree
  /-- `_address`. -/
  address : UInt32
  /-- `_state`. -/
  state : StateType
  /-- `_oldstate`. -/
  oldstate : StateType
  deriving DecidableEq

namespace TreeHierarchyIterator

/-- `setstate`. -/
def setstate (it : TreeHierarchyIterator) (rhs : StateType) : TreeHierarchyIterator :=
  { it with oldstate := it.state, state := rhs }

/-- `to_real_position`. -/
def toRealPosition (it : TreeHierarchyIterator) (rhs : ℕ) : ℕ := wrap (it.offset + wrap (rhs * it.stride))

/-- `update_address`. -/
def updateAddress (it : TreeHierarchyIterator) : TreeHierarchyIterator :=
  { it with
    address := it.ifaddr.beginPlus (it.toRealPosition it.currentpos.toPositionInAddressRange) }

/-- `set_current_position`. -/
def setCurrentPosition (it : TreeHierarchyIterator) (rhs : PositionInTree) : TreeHierarchyIterator :=
  { it with currentpos := rhs }.updateAddress

/-- `init`. -/
def init (it : TreeHierarchyIterator) : TreeHierarchyIterator :=
  it.setstate (if it.basepos.layer = 0 then .finished else .traversingParentNode)

/-- `traverse_parent_node`. -/
def traverseParentNode (it : TreeHierarchyIterator) : TreeHierarchyIterator :=
  (it.setCurrentPosition it.parentpos).setstate .traversingUpperLayers

/-- `advance_upper`. -/
def advanceUpper (it : TreeHierarchyIterator) : TreeHierarchyIterator :=
  { it with currentpos := it.currentpos.advanceUpper }

/-- The first step in a layer begins it; the steps after it go on with `advance`. -/
def enter (it : TreeHierarchyIterator) (layer : ℕ)
    (advance : TreeHierarchyIterator → TreeHierarchyIterator) : TreeHierarchyIterator :=
  if it.state ≠ it.oldstate then
    { it with currentpos := ⟨layer, 0, it.fanout⟩, oldstate := it.state }
  else advance it

/-- `traverse_upper_layers`. -/
def traverseUpperLayers (it : TreeHierarchyIterator) : TreeHierarchyIterator :=
  let it := it.enter it.parentpos.layer advanceUpper
  -- The parent has been visited first.
  let it := if it.currentpos = it.parentpos then it.advanceUpper else it
  let it := it.updateAddress
  if it.currentpos.isRoot then it.setstate .traversingBaseLayer else it

/-- `traverse_base_layer`. -/
def traverseBaseLayer (it : TreeHierarchyIterator) : TreeHierarchyIterator :=
  let it := it.enter it.basepos.layer fun it => { it with currentpos := it.currentpos.increment }
  let it := it.updateAddress
  if it.currentpos = it.basepos then it.setstate .finished else it

/-- The body of the loop of `next`. -/
def step (it : TreeHierarchyIterator) : TreeHierarchyIterator :=
  match it.state with
  | .initial => it.init
  | .traversingParentNode => it.traverseParentNode
  | .traversingUpperLayers => it.traverseUpperLayers
  | .traversingBaseLayer => it.traverseBaseLayer
  | .finished => it

/-- The loop of `next`, for so many rounds. -/
def nextLoop : ℕ → TreeHierarchyIterator → Option TreeHierarchyIterator
  | 0, _ => none
  | n + 1, it =>
    if it.address = it.step.address ∧ it.step.state ≠ .finished then nextLoop n it.step
    else some it.step

/-- `next`, and `operator++`. A round that is repeated enters another state, and there are
five. -/
def next (it : TreeHierarchyIterator) : Option TreeHierarchyIterator := nextLoop 5 it

/-- `tree_hierarchy_iterator(interface_address, fanout, offset, stride)`. A fanout or a
stride of zero divides by zero before the constructor gets to its checks. -/
def construct (ifaddr : InterfaceAddress) (fanout offset stride : ℕ) :
    Option TreeHierarchyIterator :=
  if fanout = 0 ∨ stride = 0 then none
  else do
    let basepos ← PositionInTree.ofLinear (wrapSub (ifaddr.position / stride) offset) fanout
    let parentpos := ⟨wrapSub basepos.layer 1, basepos.offset / fanout, fanout⟩
    next { ifaddr, fanout, offset, stride, basepos, parentpos, currentpos := basepos,
           address := 0, state := .initial, oldstate := .initial }

/-- Whether the iterator compares equal to the end: `operator==` looks at the state only. -/
def atEnd (it : TreeHierarchyIterator) : Bool := it.state = .finished

/-- The addresses that an iteration yields from the iterator on, if it gets to the end in
so many increments. -/
def visited : ℕ → TreeHierarchyIterator → Option (List UInt32)
  | 0, it => if it.atEnd then some [] else none
  | n + 1, it =>
    if it.atEnd then some []
    else do
      let it' ← it.next
      let rest ← visited n it'
      pure (it.address :: rest)

/-- A step that changes the address is one increment. -/
theorem next_of_step {it it' : TreeHierarchyIterator} (hstep : it.step = it')
    (h : it.address ≠ it'.address ∨ it'.state = .finished) : it.next = some it' := by
  rw [next, nextLoop, hstep, if_neg]
  tauto

/-- A step that leaves the address as it is is followed by another one. -/
theorem next_of_step_step {it it' it'' : TreeHierarchyIterator} (hstep : it.step = it')
    (hsame : it.address = it'.address) (hstate : it'.state ≠ .finished) (hstep' : it'.step = it'')
    (h : it'.address ≠ it''.address ∨ it''.state = .finished) : it.next = some it'' := by
  rw [next, nextLoop, hstep, if_pos ⟨hsame, hstate⟩, nextLoop, hstep', if_neg]
  tauto

theorem visited_of_atEnd {it : TreeHierarchyIterator} (n : ℕ) (h : it.state = .finished) :
    visited n it = some [] := by
  have hend : it.atEnd = true := decide_eq_true h
  cases n with
  | zero => rw [visited, if_pos hend]
  | succ n => rw [visited, if_pos hend]

theorem visited_of_next {it it' : TreeHierarchyIterator} {n : ℕ} {xs : List UInt32}
    (hstate : it.state ≠ .finished) (hnext : it.next = some it') (h : visited n it' = some xs) :
    visited (n + 1) it = some (it.address :: xs) := by
  have hend : ¬ it.atEnd = true := by simpa [atEnd] using hstate
  rw [visited, if_neg hend]
  simp only [hnext, Option.bind_eq_bind, Option.bind_some, h, Option.pure_def]

end TreeHierarchyIterator

/-! ### The upper layers -/

namespace PositionInTree

/-- The nodes from a position on: the rest of its layer and the layers above. -/
def upperFrom (p : PositionInTree) : List ℕ :=
  List.range' p.index (width p.fanout p.layer - p.offset) ++ layersAbove (width p.fanout) p.layer

theorem upperFrom_root {p : PositionInTree} (hroot : p.isRoot = true) : p.upperFrom = [p.index] := by
  obtain ⟨hl, ho⟩ := isRoot_iff.1 hroot
  rw [upperFrom, hl, ho]
  rfl

/-- At the root there is nowhere to go. -/
theorem advanceUpper_root {p : PositionInTree} (h : p.Valid) (hroot : p.isRoot = true) : p.advanceUpper = p := by
  obtain ⟨hl, ho⟩ := isRoot_iff.1 hroot
  have hlast : p.isLast = true := by
    rw [isLast_iff h, hl, ho, width_zero]
  rw [advanceUpper, if_pos hlast, decrementLayer, if_neg (by omega)]

/-- **`advance_upper` goes to the next of them.** -/
theorem advanceUpper_spec {p : PositionInTree} (hp : p.Valid) (hroot : ¬ p.isRoot = true) :
    p.advanceUpper.Valid ∧ p.advanceUpper.fanout = p.fanout ∧ p.advanceUpper.layer ≤ p.layer ∧
      p.upperFrom = p.index :: p.advanceUpper.upperFrom := by
  have hoffset : p.offset < width p.fanout p.layer := hp
  by_cases hlast : p.isLast = true
  · have hend := (isLast_iff hp).1 hlast
    obtain ⟨l, hl⟩ : ∃ l, p.layer = l + 1 := by
      refine Nat.exists_eq_succ_of_ne_zero fun hzero => hroot (isRoot_iff.2 ⟨hzero, ?_⟩)
      rw [hzero, width_zero] at hoffset
      omega
    have hadvance : p.advanceUpper = { p with layer := l, offset := 0 } := by
      rw [advanceUpper, if_pos hlast, decrementLayer, if_pos (by omega), hl]
      rfl
    have hwidth := hp.width_pos l (by omega)
    rw [hadvance]
    refine ⟨hwidth, rfl, by show l ≤ p.layer; omega, ?_⟩
    rw [upperFrom, upperFrom, ← hend, hl, Nat.add_sub_cancel_left]
    rfl
  · have hlt : p.offset + 1 < width p.fanout p.layer := by
      rw [isLast_iff hp] at hlast
      omega
    have hadvance : p.advanceUpper = { p with offset := p.offset + 1 } := by
      rw [advanceUpper, if_neg hlast, increment_of_lt hlt]
    rw [hadvance]
    refine ⟨hlt, rfl, le_rfl, ?_⟩
    obtain ⟨m, hm⟩ : ∃ m, width p.fanout p.layer - p.offset = m + 1 :=
      Nat.exists_eq_add_one_of_ne_zero (by omega)
    have hm' : width p.fanout p.layer - (p.offset + 1) = m := by omega
    simp only [upperFrom, index, hm, hm', List.range'_succ, List.cons_append, Nat.add_assoc]

end PositionInTree

/-! ### The walk -/

open TreeHierarchyIterator

/-- An interface address below the root of the tree with the given fanout: its place and
the place of its parent. -/
structure Descendant (a : InterfaceAddress) (fanout : ℕ) where
  /-- The layer of the parent. -/
  layer : ℕ
  /-- The offset of the parent in its layer. -/
  parentOffset : ℕ
  /-- The offset of the node in the layer below. -/
  offset : ℕ
  /-- The parent is a node of its layer. -/
  parentOffset_lt : parentOffset < width fanout layer
  /-- The node is a node of its layer. -/
  offset_lt : offset < width fanout (layer + 1)
  /-- The node is the one with the index of the address. -/
  position_eq : a.position = above (width fanout) (layer + 1) + offset + 1

/-- A position that the iterator of an address comes by: that of a node which does not come after
it. -/
structure Passes (a : InterfaceAddress) (fanout : ℕ) (c : PositionInTree) : Prop where
  /-- It is a position of the tree. -/
  fanout_eq : c.fanout = fanout
  /-- It is a node. -/
  valid : c.Valid
  /-- It does not come after the node. -/
  index_le : c.index ≤ a.position

namespace Passes

variable {a : InterfaceAddress} {fanout : ℕ} {c d : PositionInTree}

theorem eq_of_address (hc : Passes a fanout c) (hd : Passes a fanout d)
    (h : a.addressAt c.index = a.addressAt d.index) : c = d :=
  hc.valid.index_inj hd.valid (hc.fanout_eq.trans hd.fanout_eq.symm)
    (InterfaceAddress.addressAt_inj hc.index_le hd.index_le h)

/-- Their index in the range of addresses does not wrap. -/
theorem beginPlus_eq (hc : Passes a fanout c) :
    a.beginPlus (wrap (0 + wrap (c.toPositionInAddressRange * 1))) = a.addressAt c.index := by
  have hrange := a.inRange
  have hindex := hc.index_le
  have hsucc := c.toPositionInAddressRange_succ (by omega)
  have hwrap := wrap_of_lt (n := c.toPositionInAddressRange) (by omega)
  rw [Nat.mul_one, hwrap, Nat.zero_add, hwrap, InterfaceAddress.beginPlus, hsucc]

end Passes

namespace Descendant

variable {a : InterfaceAddress} {fanout : ℕ} (n : Descendant a fanout)

/-- `_basepos`. -/
def basepos : PositionInTree := ⟨n.layer + 1, n.offset, fanout⟩

/-- `_parentpos`. -/
def parentpos : PositionInTree := ⟨n.layer, n.parentOffset, fanout⟩

/-- The iterator of the node. -/
def iterator (currentpos : PositionInTree) (address : UInt32) (state oldstate : StateType) :
    TreeHierarchyIterator where
  ifaddr := a
  fanout := fanout
  offset := 0
  stride := 1
  basepos := n.basepos
  parentpos := n.parentpos
  currentpos := currentpos
  address := address
  state := state
  oldstate := oldstate

theorem passes_upper {c : PositionInTree} (hf : c.fanout = fanout) (hc : c.Valid)
    (hl : c.layer ≤ n.layer) : Passes a fanout c := by
  have hoffset : c.offset < width c.fanout c.layer := hc
  have hle := above_mono (width fanout) (show c.layer + 1 ≤ n.layer + 1 by omega)
  have hposition := n.position_eq
  rw [above_succ] at hle
  refine ⟨hf, hc, ?_⟩
  rw [PositionInTree.index, hf]
  rw [hf] at hoffset
  omega

theorem passes_base {o : ℕ} (ho : o ≤ n.offset) : Passes a fanout ⟨n.layer + 1, o, fanout⟩ := by
  have hposition := n.position_eq
  have hoffset := n.offset_lt
  refine ⟨rfl, show o < width fanout (n.layer + 1) by omega, ?_⟩
  show above (width fanout) (n.layer + 1) + o + 1 ≤ a.position
  omega

/-- The iterator where it has reached a position. -/
def reached (c : PositionInTree) (state oldstate : StateType) : TreeHierarchyIterator :=
  n.iterator c (a.addressAt c.index) state oldstate

theorem updateAddress_iterator {c : PositionInTree} (hc : Passes a fanout c) (address : UInt32)
    (state oldstate : StateType) :
    (n.iterator c address state oldstate).updateAddress = n.reached c state oldstate := by
  rw [reached, ← hc.beginPlus_eq]
  rfl

theorem enter_of_ne (c : PositionInTree) (address : UInt32) {state oldstate : StateType}
    (h : state ≠ oldstate) (l : ℕ) (advance : TreeHierarchyIterator → TreeHierarchyIterator) :
    (n.iterator c address state oldstate).enter l advance =
      n.iterator ⟨l, 0, fanout⟩ address state state := if_pos h

theorem enter_self (c : PositionInTree) (address : UInt32) (state : StateType) (l : ℕ)
    (advance : TreeHierarchyIterator → TreeHierarchyIterator) :
    (n.iterator c address state state).enter l advance = advance (n.iterator c address state state) :=
  if_neg (not_not_intro rfl)

/-! #### The base layer -/

/-- The iterator after a step through the base layer. -/
def baseIterator (o : ℕ) : TreeHierarchyIterator :=
  n.reached ⟨n.layer + 1, o, fanout⟩ (if o = n.offset then .finished else .traversingBaseLayer)
    .traversingBaseLayer

/-- What a step through the base layer does with the position it moves to. -/
theorem baseIterator_eq {o : ℕ} (ho : o ≤ n.offset) {it : TreeHierarchyIterator} (address : UInt32)
    (h : it = n.iterator ⟨n.layer + 1, o, fanout⟩ address .traversingBaseLayer .traversingBaseLayer) :
    (if it.updateAddress.currentpos = it.updateAddress.basepos then it.updateAddress.setstate .finished
      else it.updateAddress) = n.baseIterator o := by
  rw [h, n.updateAddress_iterator (n.passes_base ho), baseIterator]
  by_cases heq : o = n.offset
  · rw [if_pos (by rw [heq]; rfl), if_pos heq]
    rfl
  · rw [if_neg (fun hpos => heq (congrArg PositionInTree.offset hpos)), if_neg heq]

/-- The step into the base layer. -/
theorem step_enterBase (c : PositionInTree) (address : UInt32) :
    (n.iterator c address .traversingBaseLayer .traversingUpperLayers).step = n.baseIterator 0 :=
  n.baseIterator_eq (Nat.zero_le _) address (n.enter_of_ne c address (by decide) _ _)

/-- A step through the base layer. -/
theorem step_base {o : ℕ} (ho : o < n.offset) : (n.baseIterator o).step = n.baseIterator (o + 1) := by
  have hlt : o + 1 < width fanout (n.layer + 1) := by
    have := n.offset_lt
    omega
  have hincrement : (⟨n.layer + 1, o, fanout⟩ : PositionInTree).increment = ⟨n.layer + 1, o + 1, fanout⟩ :=
    PositionInTree.increment_of_lt hlt
  rw [baseIterator, if_neg (by omega)]
  refine n.baseIterator_eq ho (a.addressAt (PositionInTree.index ⟨n.layer + 1, o, fanout⟩)) ?_
  rw [reached, n.enter_self, ← hincrement]
  rfl

/-- **The base layer is visited from left to right, up to the node.** -/
theorem visited_base {o k m : ℕ} (ho : o + k = n.offset) (hm : k ≤ m) :
    visited m (n.baseIterator o) =
      some ((List.range' (above (width fanout) (n.layer + 1) + o + 1) k).map a.addressAt) := by
  induction k generalizing o m with
  | zero =>
    rw [baseIterator, if_pos (by omega)]
    exact visited_of_atEnd _ rfl
  | succ k ih =>
    have hne : a.addressAt (PositionInTree.index ⟨n.layer + 1, o, fanout⟩) ≠
        a.addressAt (PositionInTree.index ⟨n.layer + 1, o + 1, fanout⟩) := fun haddress => by
      have := (n.passes_base (o := o) (by omega)).eq_of_address (n.passes_base (by omega)) haddress
      have := congrArg PositionInTree.offset this
      exact absurd this (Nat.succ_ne_self o).symm
    have hstate : (n.baseIterator o).state ≠ .finished := by
      rw [baseIterator, if_neg (by omega)]
      exact StateType.noConfusion
    have hnext := next_of_step (n.step_base (o := o) (by omega)) (Or.inl hne)
    obtain ⟨m, rfl⟩ := Nat.exists_eq_add_one_of_ne_zero (show m ≠ 0 by omega)
    rw [visited_of_next hstate hnext (ih (o := o + 1) (by omega) (by omega)), List.range'_succ]
    rfl

/-! #### The upper layers -/

/-- The iterator after a step through the upper layers. -/
def upperIterator (c : PositionInTree) : TreeHierarchyIterator :=
  n.reached c (if c.isRoot then .traversingBaseLayer else .traversingUpperLayers)
    .traversingUpperLayers

/-- The position without the parent: when it is the parent, the one after it. -/
def skipParent (c : PositionInTree) : PositionInTree := if c = n.parentpos then c.advanceUpper else c

/-- A position of one of the upper layers. -/
structure Upper (c : PositionInTree) : Prop where
  /-- It is a position of the tree. -/
  fanout_eq : c.fanout = fanout
  /-- It is a node. -/
  valid : c.Valid
  /-- It is not below the layer of the parent. -/
  layer_le : c.layer ≤ n.layer

theorem upper_parentpos : n.Upper n.parentpos := ⟨rfl, n.parentOffset_lt, le_rfl⟩

theorem upper_first : n.Upper ⟨n.layer, 0, fanout⟩ :=
  ⟨rfl, Nat.zero_lt_of_lt n.parentOffset_lt, le_rfl⟩

variable {n}

theorem Upper.passes {c : PositionInTree} (h : n.Upper c) : Passes a fanout c :=
  n.passes_upper h.fanout_eq h.valid h.layer_le

theorem Upper.advance {c : PositionInTree} (h : n.Upper c) (hroot : ¬ c.isRoot = true) :
    n.Upper c.advanceUpper ∧ c.upperFrom = c.index :: c.advanceUpper.upperFrom := by
  obtain ⟨hvalid, hfanout, hlayer, hfrom⟩ := PositionInTree.advanceUpper_spec h.valid hroot
  exact ⟨⟨hfanout.trans h.fanout_eq, hvalid, hlayer.trans h.layer_le⟩, hfrom⟩

/-- After skipping the parent the nodes still to come are the same but for the parent. -/
theorem Upper.skip {c : PositionInTree} (h : n.Upper c) (hroot : c = n.parentpos → ¬ c.isRoot = true) :
    n.Upper (n.skipParent c) ∧ n.skipParent c ≠ n.parentpos ∧
      (n.skipParent c).upperFrom.length ≤ c.upperFrom.length ∧
      (n.skipParent c).upperFrom.filter (· != n.parentpos.index) =
        c.upperFrom.filter (· != n.parentpos.index) := by
  by_cases hc : c = n.parentpos
  · obtain ⟨hupper, hfrom⟩ := h.advance (hroot hc)
    have hlength := congrArg List.length hfrom
    rw [List.length_cons] at hlength
    rw [skipParent, if_pos hc]
    refine ⟨hupper, fun heq => ?_, by omega, ?_⟩
    · rw [heq, ← hc] at hlength
      omega
    · rw [hfrom, List.filter_cons_of_neg (by simp [hc])]
  · rw [skipParent, if_neg hc]
    exact ⟨h, hc, le_rfl, rfl⟩

theorem skip_iterator (c : PositionInTree) (address : UInt32) (state oldstate : StateType) :
    (if (n.iterator c address state oldstate).currentpos = (n.iterator c address state oldstate).parentpos
      then (n.iterator c address state oldstate).advanceUpper
      else n.iterator c address state oldstate) =
      n.iterator (n.skipParent c) address state oldstate := by
  by_cases hc : c = n.parentpos
  · rw [skipParent, if_pos hc]
    exact if_pos hc
  · rw [skipParent, if_neg hc]
    exact if_neg hc

/-- What a step through the upper layers does with the position it moves to. -/
theorem upperIterator_eq {c : PositionInTree} (hskip : n.Upper (n.skipParent c))
    {it : TreeHierarchyIterator} (address : UInt32) (hstate : it.state = .traversingUpperLayers)
    (h : it.enter it.parentpos.layer advanceUpper =
      n.iterator c address .traversingUpperLayers .traversingUpperLayers) :
    it.step = n.upperIterator (n.skipParent c) := by
  have hstep : it.step = it.traverseUpperLayers := by rw [step, hstate]
  rw [hstep]
  simp only [traverseUpperLayers, h, skip_iterator, n.updateAddress_iterator hskip.passes]
  rw [upperIterator]
  by_cases hroot : (n.skipParent c).isRoot = true
  · rw [if_pos hroot]
    exact if_pos hroot
  · rw [if_neg hroot]
    exact if_neg hroot

/-- The step into the upper layers. -/
theorem step_enterUpper (hskip : n.Upper (n.skipParent ⟨n.layer, 0, fanout⟩)) :
    (n.reached n.parentpos .traversingUpperLayers .traversingParentNode).step =
      n.upperIterator (n.skipParent ⟨n.layer, 0, fanout⟩) :=
  upperIterator_eq hskip _ rfl (n.enter_of_ne _ _ (by decide) _ _)

/-- A step through the upper layers. -/
theorem step_upper {c : PositionInTree} (hroot : ¬ c.isRoot = true)
    (hskip : n.Upper (n.skipParent c.advanceUpper)) :
    (n.upperIterator c).step = n.upperIterator (n.skipParent c.advanceUpper) := by
  rw [upperIterator, if_neg hroot]
  exact upperIterator_eq hskip (a.addressAt c.index) rfl (n.enter_self _ _ _ _ _)

/-- The nodes of its own layer that precede the node. -/
def baseNodes (n : Descendant a fanout) : List ℕ :=
  List.range' (above (width fanout) (n.layer + 1) + 1) n.offset

/-- The root is the last of the upper layers: the base layer comes after it. -/
theorem next_root {c : PositionInTree} (hc : n.Upper c) (hroot : c.isRoot = true) :
    (n.upperIterator c).step = n.baseIterator 0 ∧
      (n.upperIterator c).address ≠ (n.baseIterator 0).address := by
  constructor
  · rw [upperIterator, if_pos hroot]
    exact n.step_enterBase c _
  · intro haddress
    have hsame := hc.passes.eq_of_address (n.passes_base (Nat.zero_le _)) haddress
    have hlayer := hc.layer_le
    rw [hsame] at hlayer
    exact absurd hlayer (Nat.not_succ_le_self n.layer)

/-- **The upper layers are visited from left to right, one above the other, without the
parent, and the base layer after them.** -/
theorem visited_upper {c : PositionInTree} (hc : n.Upper c) (hne : c ≠ n.parentpos) {m : ℕ}
    (hm : c.upperFrom.length + n.offset ≤ m) :
    visited m (n.upperIterator c) =
      some ((c.upperFrom.filter (· != n.parentpos.index) ++ n.baseNodes).map a.addressAt) := by
  induction hk : c.upperFrom.length using Nat.strong_induction_on generalizing c m with
  | _ k ih =>
    have hindex : c.index ≠ n.parentpos.index := fun h =>
      hne (hc.valid.index_inj n.upper_parentpos.valid hc.fanout_eq h)
    have hkeep (xs : List ℕ) : (c.index :: xs).filter (· != n.parentpos.index) =
        c.index :: xs.filter (· != n.parentpos.index) := List.filter_cons_of_pos (bne_iff_ne.2 hindex)
    by_cases hroot : c.isRoot = true
    · rw [PositionInTree.upperFrom_root hroot] at hm ⊢
      rw [List.length_singleton] at hm
      obtain ⟨hstep, haddress⟩ := next_root hc hroot
      have hstate : (n.upperIterator c).state ≠ .finished := by
        rw [upperIterator, if_pos hroot]
        exact StateType.noConfusion
      obtain ⟨m, rfl⟩ := Nat.exists_eq_add_one_of_ne_zero (show m ≠ 0 by omega)
      have hbase := n.visited_base (o := 0) (Nat.zero_add _) (show n.offset ≤ m by omega)
      rw [visited_of_next hstate (next_of_step hstep (Or.inl haddress)) hbase, hkeep]
      rfl
    · obtain ⟨hadvance, hfrom⟩ := hc.advance hroot
      have hlength := congrArg List.length hfrom
      rw [List.length_cons] at hlength
      have hnotroot : c.advanceUpper = n.parentpos → ¬ c.advanceUpper.isRoot = true := by
        intro hparent hrootparent
        -- Where the parent is the root, the upper layers hold nothing else.
        obtain ⟨hlayer, -⟩ := PositionInTree.isRoot_iff.1 hrootparent
        rw [hparent] at hlayer
        have hl : c.layer = 0 := Nat.le_zero.1 (hc.layer_le.trans_eq hlayer)
        have hvalid : c.offset < width c.fanout c.layer := hc.valid
        rw [hl, width_zero] at hvalid
        exact hroot (PositionInTree.isRoot_iff.2 ⟨hl, by omega⟩)
      obtain ⟨hskip, hskipne, hskiplength, hfilter⟩ := hadvance.skip hnotroot
      have haddress : (n.upperIterator c).address ≠
          (n.upperIterator (n.skipParent c.advanceUpper)).address := by
        intro haddress
        have hsame := hc.passes.eq_of_address hskip.passes haddress
        rw [← hsame] at hskiplength
        omega
      have hstate : (n.upperIterator c).state ≠ .finished := by
        rw [upperIterator, if_neg hroot]
        exact StateType.noConfusion
      obtain ⟨m, rfl⟩ := Nat.exists_eq_add_one_of_ne_zero (show m ≠ 0 by omega)
      have hfuel : (n.skipParent c.advanceUpper).upperFrom.length + n.offset ≤ m := by omega
      have hrest := ih _ (by omega) hskip hskipne hfuel rfl
      rw [visited_of_next hstate (next_of_step (step_upper hroot hskip) (Or.inl haddress)) hrest,
        hfilter, hfrom, hkeep]
      rfl

/-! #### From the parent on -/

/-- **After a parent that is the root comes the base layer.** -/
theorem visited_parent_root {m : ℕ} (hroot : n.parentpos.isRoot = true) (hm : n.offset < m) :
    visited m (n.reached n.parentpos .traversingUpperLayers .traversingParentNode) =
      some ((n.parentpos.index :: n.baseNodes).map a.addressAt) := by
  obtain ⟨hl, ho⟩ := PositionInTree.isRoot_iff.1 hroot
  have hoffset : n.parentOffset = 0 := ho
  have hfirst : (⟨n.layer, 0, fanout⟩ : PositionInTree) = n.parentpos := by rw [parentpos, hoffset]
  -- The step leaves the position at the root, so the address stays as it is.
  have hstay : n.parentpos.advanceUpper = n.parentpos :=
    PositionInTree.advanceUpper_root n.upper_parentpos.valid hroot
  have hskip : n.skipParent ⟨n.layer, 0, fanout⟩ = n.parentpos := by
    rw [hfirst, skipParent, if_pos rfl, hstay]
  have hstep := step_enterUpper (n := n) (by rw [hskip]; exact n.upper_parentpos)
  rw [hskip] at hstep
  obtain ⟨hbase, haddress⟩ := next_root n.upper_parentpos hroot
  have hnotend : (n.upperIterator n.parentpos).state ≠ .finished := by
    rw [upperIterator, if_pos hroot]
    exact StateType.noConfusion
  have hnext := next_of_step_step hstep rfl hnotend hbase (Or.inl haddress)
  obtain ⟨m, rfl⟩ := Nat.exists_eq_add_one_of_ne_zero (show m ≠ 0 by omega)
  rw [visited_of_next StateType.noConfusion hnext (n.visited_base (o := 0) (Nat.zero_add _) (by omega))]
  rfl

/-- The upper layers without the parent: only its own layer holds it. -/
theorem filter_upperFrom : (PositionInTree.upperFrom ⟨n.layer, 0, fanout⟩).filter (· != n.parentpos.index) =
    (layerNodes (width fanout) n.layer).filter (· != n.parentpos.index) ++
      layersAbove (width fanout) n.layer := by
  have habove : (layersAbove (width fanout) n.layer).filter (· != n.parentpos.index) =
      layersAbove (width fanout) n.layer := by
    refine List.filter_eq_self.2 fun i hi => bne_iff_ne.2 ?_
    have hi := (layersAbove_perm (width fanout) n.layer).mem_iff.1 hi
    rw [List.mem_range'_1] at hi
    show i ≠ above (width fanout) n.layer + n.parentOffset + 1
    omega
  rw [PositionInTree.upperFrom, List.filter_append, habove]
  rfl

/-- **After the parent come the rest of its layer, the layers above and the base layer.** -/
theorem visited_parent {m : ℕ} (hm : a.position ≤ m) :
    visited m (n.reached n.parentpos .traversingUpperLayers .traversingParentNode) =
      some ((enumeration (width fanout) n.layer n.parentOffset n.offset).map a.addressAt) := by
  have hposition := n.position_eq
  have habove := above_succ (width fanout) n.layer
  have hwidth := n.parentOffset_lt
  by_cases hroot : n.parentpos.isRoot = true
  · obtain ⟨hl, ho⟩ := PositionInTree.isRoot_iff.1 hroot
    have hlayer : n.layer = 0 := hl
    have hoffset : n.parentOffset = 0 := ho
    rw [n.visited_parent_root hroot (by omega), baseNodes, enumeration, hlayer, hoffset, PositionInTree.index,
      hl, ho]
    rfl
  · obtain ⟨hskip, hskipne, hskiplength, hfilter⟩ := n.upper_first.skip fun hfirst => by rwa [hfirst]
    have hlength : (PositionInTree.upperFrom ⟨n.layer, 0, fanout⟩).length =
        above (width fanout) (n.layer + 1) := by
      have hperm := (layersAbove_perm (width fanout) (n.layer + 1)).length_eq
      rwa [List.length_range'] at hperm
    have haddress : (n.reached n.parentpos .traversingUpperLayers .traversingParentNode).address ≠
        (n.upperIterator (n.skipParent ⟨n.layer, 0, fanout⟩)).address := fun haddress =>
      hskipne (n.upper_parentpos.passes.eq_of_address hskip.passes haddress).symm
    obtain ⟨m, rfl⟩ := Nat.exists_eq_add_one_of_ne_zero (show m ≠ 0 by omega)
    have hfuel : (n.skipParent ⟨n.layer, 0, fanout⟩).upperFrom.length + n.offset ≤ m := by omega
    have hrest := visited_upper hskip hskipne hfuel
    rw [visited_of_next StateType.noConfusion (next_of_step (step_enterUpper hskip) (Or.inl haddress)) hrest,
      hfilter, n.filter_upperFrom, List.append_assoc]
    rfl

end Descendant

/-! ### Construction -/

open Descendant

/-- The nodes that a node at a position visits, by the widths of the layers. -/
def PositionInTree.order (p : PositionInTree) : List ℕ :=
  match p.layer with
  | 0 => []
  | l + 1 => enumeration (width p.fanout) l (p.offset / p.fanout) p.offset

/-- The first increment goes from the start to the parent. -/
theorem Descendant.next_start {a : InterfaceAddress} {fanout : ℕ} (n : Descendant a fanout) :
    (n.iterator n.basepos 0 .initial .initial).next =
      some (n.reached n.parentpos .traversingUpperLayers .traversingParentNode) := by
  have hinit : (n.iterator n.basepos 0 .initial .initial).step =
      n.iterator n.basepos 0 .traversingParentNode .initial := rfl
  have hparent : (n.iterator n.basepos 0 .traversingParentNode .initial).step =
      n.reached n.parentpos .traversingUpperLayers .traversingParentNode := by
    show ((n.iterator n.parentpos 0 .traversingParentNode .initial).updateAddress).setstate _ = _
    rw [n.updateAddress_iterator n.upper_parentpos.passes]
    rfl
  have haddress := InterfaceAddress.addressAt_ne_zero (a := a) (i := n.parentpos.index)
    (Nat.le_add_left 1 _) n.upper_parentpos.passes.index_le
  exact next_of_step_step hinit rfl StateType.noConfusion hparent (Or.inl haddress.symm)

/-- **An iterator visits the nodes in the order that the layers give them.** -/
theorem visited_construct {a : InterfaceAddress} {fanout : ℕ} (hf : 1 ≤ fanout) {p : PositionInTree}
    (hp : PositionInTree.ofLinear a.position fanout = some p) {m : ℕ} (hm : a.position ≤ m) :
    (construct a fanout 0 1).bind (visited m) = some (p.order.map a.addressAt) := by
  have hrange := a.inRange
  have hposition : wrapSub (a.position / 1) 0 = a.position := by
    rw [Nat.div_one, wrapSub_of_le (Nat.zero_le _) (by omega), Nat.sub_zero]
  have hconstruct : construct a fanout 0 1 =
      next ⟨a, fanout, 0, 1, p, ⟨wrapSub p.layer 1, p.offset / fanout, fanout⟩, p, 0, .initial, .initial⟩ := by
    rw [construct, if_neg (by omega), hposition, hp]
    rfl
  rw [hconstruct]
  cases hl : p.layer with
  | zero =>
    have hstep : step ⟨a, fanout, 0, 1, p, ⟨wrapSub 0 1, p.offset / fanout, fanout⟩, p, 0, .initial, .initial⟩ =
        ⟨a, fanout, 0, 1, p, ⟨wrapSub 0 1, p.offset / fanout, fanout⟩, p, 0, .finished, .initial⟩ := by
      rw [step, init, if_pos hl]
      rfl
    rw [next_of_step hstep (Or.inr rfl), Option.bind_some, visited_of_atEnd m rfl,
      PositionInTree.order, hl]
    rfl
  | succ l =>
    have hpos : 1 ≤ a.position := by
      by_contra hzero
      obtain hzero : a.position = 0 := by omega
      rw [hzero] at hp
      cases hp
      cases hl
    obtain ⟨hfanout, hoffset, hindex⟩ := (PositionInTree.ofLinear_eq_some_iff hpos (by omega)).1 hp
    obtain ⟨pl, o, pf⟩ := p
    obtain rfl : pl = l + 1 := hl
    obtain rfl : pf = fanout := hfanout
    change a.position = above (width pf) (l + 1) + o + 1 at hindex
    let n : Descendant a pf := ⟨l, o / pf, o, div_lt_width hf hoffset, hoffset, hindex⟩
    have hlayer : wrapSub (l + 1) 1 = l := by
      have hle := le_above (width pf) fun i (hi : i < l + 1) => width_pos_of_le hi.le (Nat.one_le_of_lt hoffset)
      exact wrapSub_of_le (by omega) (by omega)
    have hstart : (⟨a, pf, 0, 1, ⟨l + 1, o, pf⟩, ⟨wrapSub (l + 1) 1, o / pf, pf⟩, ⟨l + 1, o, pf⟩, 0,
        .initial, .initial⟩ : TreeHierarchyIterator) = n.iterator n.basepos 0 .initial .initial := by
      rw [hlayer]
      rfl
    rw [hstart, n.next_start, Option.bind_some, n.visited_parent hm]
    rfl

/-- The nodes that are visited precede the node. -/
theorem PositionInTree.mem_order {p : PositionInTree} {n i : ℕ} (hf : 1 ≤ p.fanout)
    (hp : PositionInTree.ofLinear n p.fanout = some p) (hn : n < 2 ^ 32) (hi : i ∈ p.order) :
    1 ≤ i ∧ i < n := by
  rw [PositionInTree.order] at hi
  cases hl : p.layer with
  | zero =>
    rw [hl] at hi
    exact absurd hi List.not_mem_nil
  | succ l =>
    have hpos : 1 ≤ n := by
      by_contra hzero
      obtain rfl : n = 0 := by omega
      have hlayer := congrArg (Option.map PositionInTree.layer) hp
      rw [Option.map_some, hl] at hlayer
      exact absurd (Option.some.inj hlayer) (Nat.succ_ne_zero l).symm
    obtain ⟨-, hoffset, hindex⟩ := (PositionInTree.ofLinear_eq_some_iff hpos hn).1 hp
    rw [hl] at hi hoffset hindex
    have hmem := (enumeration_perm (width p.fanout) p.offset (div_lt_width hf hoffset)).mem_iff.1 hi
    rw [List.mem_range'_1] at hmem
    omega

/-- The iteration comes to its end, and the addresses on its way precede the interface
address. -/
def Walks (a : InterfaceAddress) (it : TreeHierarchyIterator) : Prop :=
  ∃ n xs, visited n it = some xs ∧ ∀ x ∈ xs, ∃ i, 1 ≤ i ∧ i < a.position ∧ x = a.addressAt i

/-- **Whatever the fanout, an iterator that has been constructed walks.** -/
theorem walks_construct {a : InterfaceAddress} {fanout : ℕ} {it : TreeHierarchyIterator}
    (h : construct a fanout 0 1 = some it) : Walks a it := by
  have hrange := a.inRange
  have hf : 1 ≤ fanout := by
    by_contra hzero
    rw [construct, if_pos (by omega)] at h
    exact absurd h.symm (Option.some_ne_none it)
  have hposition : wrapSub (a.position / 1) 0 = a.position := by
    rw [Nat.div_one, wrapSub_of_le (Nat.zero_le _) (by omega), Nat.sub_zero]
  cases hp : PositionInTree.ofLinear a.position fanout with
  | none =>
    rw [construct, if_neg (by omega), hposition, hp] at h
    exact absurd h.symm (Option.some_ne_none it)
  | some p =>
    have hvisited := visited_construct hf hp (le_refl a.position)
    rw [h, Option.bind_some] at hvisited
    refine ⟨a.position, _, hvisited, fun x hx => ?_⟩
    obtain ⟨i, hi, rfl⟩ := List.mem_map.1 hx
    obtain rfl : p.fanout = fanout := PositionInTree.fanout_ofLinear hp
    obtain ⟨hlow, hhigh⟩ := PositionInTree.mem_order hf hp (by omega) hi
    exact ⟨i, hlow, hhigh, rfl⟩

/-- Where a walk has not come to its end, it goes on from an address that precedes. -/
theorem Walks.next {a : InterfaceAddress} {it : TreeHierarchyIterator} (h : Walks a it)
    (hend : ¬ it.atEnd = true) :
    (∃ i, 1 ≤ i ∧ i < a.position ∧ it.address = a.addressAt i) ∧
      ∃ it', it.next = some it' ∧ Walks a it' := by
  obtain ⟨n, xs, hvisited, hxs⟩ := h
  cases n with
  | zero =>
    rw [visited, if_neg hend] at hvisited
    exact absurd hvisited.symm (Option.some_ne_none xs)
  | succ n =>
    rw [visited, if_neg hend] at hvisited
    obtain ⟨it', hnext, hvisited⟩ := Option.bind_eq_some_iff.1 hvisited
    obtain ⟨rest, hrest, heq⟩ := Option.bind_eq_some_iff.1 hvisited
    obtain rfl : it.address :: rest = xs := Option.some.inj heq
    exact ⟨hxs _ List.mem_cons_self, it', hnext, n, rest, hrest,
      fun x hx => hxs x (List.mem_cons_of_mem _ hx)⟩

/-- **Unless the layer of the node wraps, an iteration visits the tree proper**: it comes
to its end, the addresses come in the order in which the node looks for a superior, and
they are those of the nodes that precede it, each once. -/
theorem visited_tree {f : ℕ} (hf : 1 ≤ f) (a : InterfaceAddress) (hpos : 1 ≤ a.position)
    (hwrap : f ^ layerOf (f ^ ·) a.position < 2 ^ 32) {m : ℕ} (hm : a.position ≤ m) :
    (construct a f 0 1).bind (visited m) = some ((treeOrder f a.position).map a.addressAt) ∧
      (treeOrder f a.position).Perm (List.range' 1 (a.position - 1)) := by
  have hrange := a.inRange
  have hpow (i : ℕ) : 1 ≤ f ^ i := Nat.one_le_pow _ _ hf
  obtain ⟨hnode, hoffset⟩ := node_eq (f ^ ·) hpow hpos
  have hwidth (i : ℕ) (hi : i ≤ layerOf (f ^ ·) a.position) : width f i = f ^ i :=
    width_eq_pow hf ((Nat.pow_le_pow_right hf hi).trans_lt hwrap)
  constructor
  · have hp : PositionInTree.ofLinear a.position f =
        some ⟨layerOf (f ^ ·) a.position, offsetOf (f ^ ·) a.position, f⟩ := by
      refine (PositionInTree.ofLinear_eq_some_iff hpos (by omega)).2 ⟨rfl, ?_, ?_⟩
      · show offsetOf (f ^ ·) a.position < width f (layerOf (f ^ ·) a.position)
        rw [hwidth _ le_rfl]
        exact hoffset
      · show a.position = above (width f) (layerOf (f ^ ·) a.position) + _ + 1
        rw [above_congr fun i hi => hwidth i (Nat.le_of_lt hi)]
        exact hnode
    rw [visited_construct hf hp hm, PositionInTree.order, treeOrder]
    cases hl : layerOf (f ^ ·) a.position with
    | zero => rfl
    | succ l =>
      rw [hl] at hwidth
      exact congrArg (fun xs => some (xs.map a.addressAt))
        (enumeration_congr fun i hi => hwidth i (Nat.le_succ_of_le hi))
  · exact treeOrder_perm hf hpos

/-- The tenth address of a network, with three subordinates to a node. -/
theorem visited_tree_ten :
    (construct ⟨0x0a000000, 10, by decide⟩ 3 0 1).bind (visited 10) =
        some ([3, 2, 4, 1, 5, 6, 7, 8, 9].map (InterfaceAddress.addressAt ⟨0x0a000000, 10, by decide⟩)) ∧
      [3, 2, 4, 1, 5, 6, 7, 8, 9].Perm (List.range' 1 9) := by
  have hlayer : layerOf (3 ^ ·) 10 = 2 := by decide
  have horder : treeOrder 3 10 = [3, 2, 4, 1, 5, 6, 7, 8, 9] := by decide
  have hvisited := visited_tree (f := 3) (by decide) ⟨0x0a000000, 10, by decide⟩ (by decide)
    (by rw [hlayer]; decide) (m := 10) (by decide)
  rw [horder] at hvisited
  exact hvisited

end Subordination.Daemon
