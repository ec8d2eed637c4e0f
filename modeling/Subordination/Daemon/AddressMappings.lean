import Subordination.Daemon.IteratorConstruction

/-!
# The two address mappings

An iterator with an offset and a stride uses every `stride`-th address of the network from `offset` on. It maps its
own position in the network to one in the tree (`to_virtual_position`) when it is constructed, and the positions in
the tree that it comes by to positions in the network (`to_real_position`) when it looks for their addresses.

The second mapping counts from zero and multiplies before it adds the offset. The first one counts from one, and
divides before it subtracts: it undoes the second one only where there is nothing to divide.

## What is proved

* `updateAddress_address` — the address that is used for a node of the tree.
* `virtualPosition_onGrid_iff` — a node with such an address finds its own place only with a stride of one.
* `yielded_offset` — with a stride of one the iterators yield what those without an offset yield, moved by the offset.
* **`mappingsInverse_iff`** — so the mappings are inverse if and only if the stride is one.
-/

namespace Subordination.Daemon

open Subordination.Library

namespace TreeHierarchyIterator

/-! ### The mappings -/

/-- The index in the network of the address that is used for node `v` of the tree. -/
def realIndex (offset stride v : ℕ) : ℕ := wrap (offset + wrap ((v - 1) * stride)) + 1

/-- The address that takes the place of an address with offset 0 and stride 1. -/
def renumber (a : InterfaceAddress) (offset stride : ℕ) (x : UInt32) : UInt32 :=
  a.addressAt 1 + UInt32.ofNat offset + (x - a.addressAt 1) * UInt32.ofNat stride

/-- The addresses from an iterator on, if it gets to the end in so many increments of so many rounds. -/
def visitedWithin (rounds : ℕ) : ℕ → TreeHierarchyIterator → Option (List UInt32)
  | 0, it => if it.atEnd then some [] else none
  | n + 1, it =>
    if it.atEnd then some []
    else do
      let it' ← nextLoop rounds it
      let rest ← visitedWithin rounds n it'
      pure (it.address :: rest)

/-- The addresses from the construction of an iterator on. -/
def yielded (rounds n : ℕ) (a : InterfaceAddress) (fanout offset stride : ℕ) : Option (List UInt32) := do
  let result ← constructWithin rounds a fanout offset stride
  let it ← result.toOption
  visitedWithin rounds n it

/-- An iteration gets to the end, and yields these addresses. -/
def Yields (a : InterfaceAddress) (fanout offset stride : ℕ) (xs : List UInt32) : Prop :=
  ∃ rounds n, yielded rounds n a fanout offset stride = some xs

/-- The two mappings undo each other. -/
structure MappingsInverse (offset stride : ℕ) : Prop where
  /-- An iterator that is constructed on the address that is used for a node of the tree has this node as its base. -/
  base : ∀ {it it' : TreeHierarchyIterator} {b : InterfaceAddress} {v fanout rounds : ℕ}, 1 ≤ v → v < 2 ^ 32 →
    PositionInTree.ofLinear v fanout = some it.currentpos → it.offset = offset → it.stride = stride →
    b.network = it.ifaddr.network → b.address = it.updateAddress.address →
    constructWithin rounds b fanout offset stride = some (.ok it') → it'.basepos = it.currentpos
  /-- With the address of node `v` it yields, in other numbers, what node `v` yields without offset and stride. -/
  sequence : ∀ {a b : InterfaceAddress} {v fanout : ℕ} {xs : List UInt32}, 1 ≤ v → a.network = b.network →
    a.position = v → b.position = offset + (v - 1) * stride + 1 →
    (Yields b fanout offset stride xs ↔ ∃ ys, Yields a fanout 0 1 ys ∧ xs = ys.map (renumber b offset stride))

/-! ### The addresses of the nodes of the tree -/

section Addresses

variable {it : TreeHierarchyIterator} {a b : InterfaceAddress} {offset stride v : ℕ}

/-- **The address that is used for a node.** -/
theorem updateAddress_address (h : it.currentpos.index < 2 ^ 32) :
    it.updateAddress.address = it.ifaddr.addressAt (realIndex it.offset it.stride it.currentpos.index) := by
  have hsucc := PositionInTree.toPositionInAddressRange_succ h
  rw [realIndex, ← hsucc]
  rfl

/-- What takes the place of the address of node `v` is the address that is used for it. -/
theorem renumber_addressAt (a : InterfaceAddress) (offset stride : ℕ) (hv : 1 ≤ v) :
    renumber a offset stride (a.addressAt v) = a.addressAt (realIndex offset stride v) := by
  obtain ⟨i, rfl⟩ : ∃ i, v = i + 1 := ⟨v - 1, by omega⟩
  have hreal : a.addressAt (realIndex offset stride (i + 1)) = a.addressAt (offset + i * stride + 1) := by
    refine a.addressAt_mod ?_
    rw [realIndex, wrap, wrap, Nat.add_sub_cancel]
    omega
  have hfirst : a.addressAt (i + 1) - a.addressAt 1 = UInt32.ofNat i := by
    rw [InterfaceAddress.addressAt, InterfaceAddress.addressAt, Nat.add_left_comm, UInt32.ofNat_add,
      UInt32.add_sub_cancel]
  rw [hreal, renumber, hfirst, ← UInt32.ofNat_mul, InterfaceAddress.addressAt, InterfaceAddress.addressAt,
    ← UInt32.ofNat_add, ← UInt32.ofNat_add]
  congr 1
  omega

/-- With a stride of one the numbers are moved by the offset. -/
theorem renumber_one (a : InterfaceAddress) (offset : ℕ) (x : UInt32) :
    renumber a offset 1 x = x + UInt32.ofNat offset := by
  have hone : UInt32.ofNat 1 = 1 := rfl
  rw [renumber, hone]
  grind

end Addresses

/-! ### Moved by the offset -/

/-- The iterator of another node that is as far as this one, with its addresses moved by the offset. -/
def moveTo (it : TreeHierarchyIterator) (b : InterfaceAddress) (offset : ℕ) : TreeHierarchyIterator :=
  { it with ifaddr := b, offset := offset, address := it.address + UInt32.ofNat offset }

/-- The iterator has no offset and a stride of one, and goes through a certain network. -/
structure Plain (network : ℕ) (it : TreeHierarchyIterator) : Prop where
  /-- `_offset`. -/
  offset_eq : it.offset = 0
  /-- `_stride`. -/
  stride_eq : it.stride = 1
  /-- The network of `_ifaddr`. -/
  network_eq : it.ifaddr.network = network

section Moved

variable {it : TreeHierarchyIterator} {b : InterfaceAddress} {offset : ℕ} (h : Plain b.network it)

include h

/-- What increments leave as it is. -/
theorem Plain.of_fixed {it' : TreeHierarchyIterator} (hfixed : it'.fixed = it.fixed) : Plain b.network it' := by
  simp only [fixed, Prod.mk.injEq] at hfixed
  obtain ⟨hifaddr, -, hoffset, hstride, -⟩ := hfixed
  exact ⟨hoffset.trans h.offset_eq, hstride.trans h.stride_eq, hifaddr ▸ h.network_eq⟩

/-- The addresses of the positions are moved, whatever they are. -/
theorem updateAddress_moveTo : (it.moveTo b offset).updateAddress = it.updateAddress.moveTo b offset := by
  have haddress : b.beginPlus (wrap (offset + wrap (it.currentpos.toPositionInAddressRange * it.stride))) =
      it.ifaddr.beginPlus (wrap (it.offset + wrap (it.currentpos.toPositionInAddressRange * it.stride))) +
        UInt32.ofNat offset := by
    rw [InterfaceAddress.beginPlus, InterfaceAddress.beginPlus, InterfaceAddress.addressAt,
      InterfaceAddress.addressAt, h.network_eq, h.offset_eq, ← UInt32.ofNat_add]
    refine UInt32.toNat_inj.1 ?_
    rw [UInt32.toNat_ofNat', UInt32.toNat_ofNat', wrap, wrap, wrap]
    omega
  simp only [updateAddress, moveTo, toRealPosition, haddress]

theorem moved_moveTo (c : PositionInTree) (state oldstate : StateType) :
    (it.moveTo b offset).moved c state oldstate = (it.moved c state oldstate).moveTo b offset := by
  have hplain : Plain b.network { it with currentpos := c, state := state, oldstate := oldstate } :=
    ⟨h.offset_eq, h.stride_eq, h.network_eq⟩
  exact updateAddress_moveTo hplain

/-- **A step of the moved iterator is the step of the iterator, moved.** -/
theorem step_moveTo : (it.moveTo b offset).step = it.step.moveTo b offset := by
  cases hstate : it.state with
  | initial =>
    have hstate' : (it.moveTo b offset).state = .initial := hstate
    rw [step, step, hstate, hstate']
    rfl
  | traversingParentNode =>
    have hstate' : (it.moveTo b offset).state = .traversingParentNode := hstate
    rw [step_parent hstate, step_parent hstate']
    exact moved_moveTo h _ _ _
  | traversingUpperLayers =>
    have hstate' : (it.moveTo b offset).state = .traversingUpperLayers := hstate
    rw [step_upperLayers hstate, step_upperLayers hstate']
    exact moved_moveTo h _ _ _
  | traversingBaseLayer =>
    have hstate' : (it.moveTo b offset).state = .traversingBaseLayer := hstate
    rw [step_baseLayer hstate, step_baseLayer hstate']
    exact moved_moveTo h _ _ _
  | finished =>
    have hstate' : (it.moveTo b offset).state = .finished := hstate
    rw [step, step, hstate, hstate']

theorem nextLoop_moveTo (rounds : ℕ) :
    nextLoop rounds (it.moveTo b offset) = (nextLoop rounds it).map (moveTo · b offset) := by
  induction rounds generalizing it with
  | zero => rfl
  | succ rounds ih =>
    have hsame : (it.moveTo b offset).address = (it.step.moveTo b offset).address ∧
        (it.step.moveTo b offset).state ≠ .finished ↔ it.address = it.step.address ∧ it.step.state ≠ .finished :=
      and_congr_left' (UInt32.add_left_inj (UInt32.ofNat offset))
    rw [nextLoop, nextLoop, step_moveTo h]
    by_cases hrepeat : it.address = it.step.address ∧ it.step.state ≠ .finished
    · rw [if_pos (hsame.2 hrepeat), if_pos hrepeat]
      exact ih (h.of_fixed it.step_spec.1)
    · rw [if_neg (mt hsame.1 hrepeat), if_neg hrepeat]
      rfl

theorem visitedWithin_moveTo (rounds n : ℕ) : visitedWithin rounds n (it.moveTo b offset) =
    (visitedWithin rounds n it).map (List.map (renumber b offset 1)) := by
  induction n generalizing it with
  | zero =>
    have hend : (it.moveTo b offset).atEnd = it.atEnd := rfl
    rw [visitedWithin, visitedWithin, hend]
    split <;> rfl
  | succ n ih =>
    have hend : (it.moveTo b offset).atEnd = it.atEnd := rfl
    rw [visitedWithin, visitedWithin, hend, nextLoop_moveTo h]
    by_cases hatEnd : it.atEnd = true
    · rw [if_pos hatEnd, if_pos hatEnd]
      rfl
    · rw [if_neg hatEnd, if_neg hatEnd]
      cases hnext : nextLoop rounds it with
      | none => rfl
      | some it' =>
        simp only [Option.map_some, Option.bind_eq_bind, Option.bind_some, ih (h.of_fixed (nextLoop_spec hnext).1)]
        cases visitedWithin rounds n it' with
        | none => rfl
        | some rest =>
          simp only [Option.map_some, Option.bind_some, Option.pure_def, List.map_cons, renumber_one]
          rfl

end Moved

/-! ### Construction -/

section Construction

variable {a b : InterfaceAddress} {fanout offset stride rounds n v : ℕ} {p q : PositionInTree}

theorem realIndex_one (hv : 1 ≤ v) (hlt : offset + v ≤ 2 ^ 32) : realIndex offset 1 v = offset + v := by
  rw [realIndex, Nat.mul_one, wrap_of_lt (show v - 1 < 2 ^ 32 by omega), wrap_of_lt (by omega)]
  omega

/-- The root has nobody to look for. -/
theorem nextLoop_root (hl : p.layer = 0) :
    nextLoop (rounds + 1) (start a fanout offset stride p q) =
      some { start a fanout offset stride p q with state := .finished } := by
  have hstep : (start a fanout offset stride p q).step =
      { start a fanout offset stride p q with state := .finished } := by
    have hbase : (start a fanout offset stride p q).basepos.layer = 0 := hl
    show (start a fanout offset stride p q).init = _
    rw [init, if_pos hbase]
    rfl
  rw [nextLoop, hstep]
  exact if_neg fun h => h.2 rfl

/-- The first address that another node looks for is that of its parent. -/
theorem nextLoop_start (hl : p.layer ≠ 0) (hlt : q.index < 2 ^ 32)
    (hne : a.addressAt (realIndex offset stride q.index) ≠ 0) :
    nextLoop (rounds + 2) (start a fanout offset stride p q) =
      some ((start a fanout offset stride p q).moved q .traversingUpperLayers .traversingParentNode) := by
  have haddress : ((start a fanout offset stride p q).moved q .traversingUpperLayers .traversingParentNode).address =
      a.addressAt (realIndex offset stride q.index) := updateAddress_address hlt
  rw [nextLoop, step_initial rfl hl, if_pos ⟨rfl, StateType.noConfusion⟩, nextLoop, step_parent rfl]
  exact if_neg fun h => hne (haddress.symm.trans h.1.symm)

theorem nextLoop_one (hl : p.layer ≠ 0) : nextLoop 1 (start a fanout offset stride p q) = none := by
  rw [nextLoop, step_initial rfl hl]
  exact if_pos ⟨rfl, StateType.noConfusion⟩

/-- **The first increment** of the iterator of a moved node. -/
theorem nextLoop_start_moveTo (hnetwork : a.network = b.network) (hposition : b.position = offset + a.position)
    (hl : p.layer ≠ 0) (hq : q.index ≤ a.position) :
    nextLoop rounds (start b fanout offset 1 p q) =
      (nextLoop rounds (start a fanout 0 1 p q)).map (moveTo · b offset) := by
  have hrange := b.inRange
  have hone : 1 ≤ q.index := Nat.le_add_left 1 _
  match rounds with
  | 0 => rfl
  | 1 =>
    rw [nextLoop_one hl, nextLoop_one hl]
    rfl
  | rounds + 2 =>
    rw [nextLoop_start hl (by omega), nextLoop_start hl (by omega)]
    · have hplain : Plain b.network { start a fanout 0 1 p q with
          currentpos := q, state := .traversingUpperLayers, oldstate := .traversingParentNode } :=
        ⟨rfl, rfl, hnetwork⟩
      exact congrArg some (updateAddress_moveTo hplain)
    · rw [realIndex_one hone (by omega)]
      exact InterfaceAddress.addressAt_ne_zero (by omega) (by omega)
    · rw [realIndex_one hone (by omega)]
      exact InterfaceAddress.addressAt_ne_zero (by omega) (by omega)

theorem virtualPosition_offset (hposition : b.position = offset + v) : virtualPosition b offset 1 = v := by
  have hrange := b.inRange
  rw [virtualPosition, Nat.div_one, wrapSub_of_le (by omega) (by omega)]
  omega

/-- The parent of a node comes before it. -/
theorem index_parent_le (hf : fanout ≠ 0) (hlt : v < 2 ^ 32) (hplace : PositionInTree.IsPlaceOf v fanout p)
    (hl : p.layer ≠ 0) : PositionInTree.index ⟨wrapSub p.layer 1, p.offset / fanout, fanout⟩ ≤ v := by
  obtain ⟨hvalid, hindex, hlayer⟩ := hplace.spec hlt hl
  obtain ⟨l, hsucc⟩ := Nat.exists_eq_add_one_of_ne_zero hl
  have hoffset : p.offset < width p.fanout p.layer := hvalid
  rw [hplace.1, hsucc] at hoffset
  have hparent := div_lt_width (Nat.one_le_iff_ne_zero.2 hf) hoffset
  rw [PositionInTree.index, hplace.1, hsucc, above_succ] at hindex
  rw [hlayer, hsucc, Nat.add_sub_cancel]
  show above (width fanout) l + p.offset / fanout + 1 ≤ v
  omega

/-- **With a stride of one the addresses are moved by the offset.** -/
theorem yielded_offset (hnetwork : a.network = b.network) (hposition : b.position = offset + a.position) :
    yielded rounds n b fanout offset 1 = (yielded rounds n a fanout 0 1).map (List.map (renumber b offset 1)) := by
  have hrange := a.inRange
  have hvirtual := virtualPosition_offset hposition
  have hvirtual' := virtualPosition_offset (b := a) (Nat.zero_add _).symm
  rw [virtualPosition] at hvirtual hvirtual'
  rw [yielded, yielded, constructWithin_of_stride Nat.one_ne_zero, constructWithin_of_stride Nat.one_ne_zero,
    hvirtual, hvirtual']
  cases hsearch : PositionInTree.search fanout rounds a.position 0 1 with
  | none => rfl
  | some p =>
    have hplace := PositionInTree.isPlaceOf_of_search (by omega) hsearch
    simp only [Option.bind_some]
    by_cases hf : fanout = 0
    · subst hf
      rw [constructFrom_fanout_zero, constructFrom_fanout_zero]
      rfl
    · rw [constructFrom_of_ne hf Nat.one_ne_zero, constructFrom_of_ne hf Nat.one_ne_zero]
      by_cases hl : p.layer = 0
      · cases rounds with
        | zero => rfl
        | succ rounds =>
          rw [nextLoop_root hl, nextLoop_root hl]
          cases n <;> rfl
      · rw [nextLoop_start_moveTo hnetwork hposition hl (index_parent_le hf (by omega) hplace hl)]
        cases hnext : nextLoop rounds
            (start a fanout 0 1 p ⟨wrapSub p.layer 1, p.offset / fanout, fanout⟩) with
        | none => rfl
        | some it =>
          have hplain : Plain b.network (start a fanout 0 1 p ⟨wrapSub p.layer 1, p.offset / fanout, fanout⟩) :=
            ⟨rfl, rfl, hnetwork⟩
          exact visitedWithin_moveTo (hplain.of_fixed (nextLoop_spec hnext).1) rounds n

/-- **The base position** is the place of the virtual position. -/
theorem ofLinear_basepos {it : TreeHierarchyIterator} (hs : stride ≠ 0)
    (h : constructWithin rounds a fanout offset stride = some (.ok it)) :
    PositionInTree.ofLinear (virtualPosition a offset stride) fanout = some it.basepos := by
  rw [constructWithin_of_stride hs] at h
  obtain ⟨p, hsearch, h⟩ := Option.bind_eq_some_iff.1 h
  by_cases hf : fanout = 0
  · subst hf
    rw [constructFrom_fanout_zero] at h
    cases h
  · rw [constructFrom_of_ne hf hs] at h
    obtain ⟨it', hnext, h⟩ := Option.map_eq_some_iff.1 h
    cases h
    have hfixed := (nextLoop_spec hnext).1
    simp only [fixed, start, Prod.mk.injEq] at hfixed
    rw [hfixed.2.2.2.2]
    exact ofLinear_of_search virtualPosition_lt hsearch

/-- A place is that of one number. -/
theorem ofLinear_inj {x y : ℕ} (hx : x < 2 ^ 32) (hy : 1 ≤ y) (hlt : y < 2 ^ 32)
    (h : PositionInTree.ofLinear x fanout = some p) (h' : PositionInTree.ofLinear y fanout = some p) : x = y := by
  obtain ⟨-, hoffset, hindex⟩ := (PositionInTree.ofLinear_eq_some_iff hy hlt).1 h'
  by_cases hzero : x = 0
  · subst hzero
    cases h
    exact absurd hoffset (show ¬ wrapSub 0 1 < 1 by decide)
  · exact ((PositionInTree.ofLinear_eq_some_iff (Nat.one_le_iff_ne_zero.2 hzero) hx).1 h).2.2.trans hindex.symm

end Construction

/-! ### Where the mappings are inverse -/

section Inverse

variable {b : InterfaceAddress} {offset stride v : ℕ}

/-- **A node on the grid finds its own place only with a stride of one.** -/
theorem virtualPosition_onGrid_iff (hs : stride ≠ 0) (hv : 1 ≤ v)
    (hposition : b.position = offset + (v - 1) * stride + 1) : virtualPosition b offset stride = v ↔ stride = 1 := by
  have hrange := b.inRange
  have hpos : 0 < stride := Nat.pos_of_ne_zero hs
  have hdiv : b.position / stride = (offset + 1) / stride + (v - 1) := by
    rw [hposition, Nat.add_right_comm, Nat.add_mul_div_right _ _ hpos]
  have hle : v - 1 ≤ (v - 1) * stride := Nat.le_mul_of_pos_right _ hpos
  rw [virtualPosition, hdiv]
  constructor
  · intro h
    by_contra hne
    -- the quotient is smaller than what it stands for
    have hsmall : (offset + 1) / stride < offset + 1 := Nat.div_lt_self (Nat.succ_pos offset) (by omega)
    generalize (offset + 1) / stride = quotient at h hsmall
    rw [wrapSub, wrap, wrap] at h
    omega
  · rintro rfl
    rw [Nat.div_one, wrapSub_of_le (by omega) (by omega)]
    omega

/-- With a stride of one every node of the tree is found. -/
theorem virtualPosition_of_address {a : InterfaceAddress} (hv : 1 ≤ v) (hlt : v < 2 ^ 32)
    (hnetwork : b.network = a.network) (haddress : b.address = a.addressAt (realIndex offset 1 v)) :
    virtualPosition b offset 1 = v := by
  have hrange := b.inRange
  have hnat := congrArg UInt32.toNat haddress
  rw [InterfaceAddress.address, InterfaceAddress.addressAt, InterfaceAddress.addressAt, hnetwork, UInt32.toNat_ofNat',
    UInt32.toNat_ofNat', realIndex, wrap, wrap] at hnat
  rw [virtualPosition, wrapSub, wrap, wrap]
  omega

/-- What the mappings have to do for every node of the tree. -/
theorem MappingsInverse.virtualPosition_eq (h : MappingsInverse offset stride) (hs : stride ≠ 0) (hv : 1 ≤ v)
    (hlt : v < 2 ^ 32) (hposition : b.position = realIndex offset stride v) :
    virtualPosition b offset stride = v := by
  -- with one subordinate to a node every number is that of a node
  obtain ⟨fuel, p, hsearch⟩ := (PositionInTree.search_ends_iff hlt).2 ⟨v, holds_of_odd odd_one v⟩
  have hp := ofLinear_of_search hlt hsearch
  have hindex : p.index = v := by
    obtain ⟨hfanout, -, hindex⟩ := (PositionInTree.ofLinear_eq_some_iff hv hlt).1 hp
    rw [PositionInTree.index, hfanout, ← hindex]
  have hholds : ∃ l, Holds 1 l (virtualPosition b offset stride) := ⟨_, holds_of_odd odd_one _⟩
  obtain ⟨rounds, it, hit, -⟩ := exists_constructed Nat.one_ne_zero hs hholds
  have haddress : b.address = (start b 1 offset stride p p).updateAddress.address := by
    have hfits : (start b 1 offset stride p p).currentpos.index < 2 ^ 32 := hindex.trans_lt hlt
    rw [updateAddress_address hfits]
    show b.addressAt b.position = b.addressAt (realIndex offset stride p.index)
    rw [hposition, hindex]
  have hcurrent : PositionInTree.ofLinear v 1 = some (start b 1 offset stride p p).currentpos := hp
  have hbase : it.basepos = p := h.base hv hlt hcurrent rfl rfl rfl haddress hit
  have hfound := ofLinear_basepos hs hit
  rw [hbase] at hfound
  exact ofLinear_inj virtualPosition_lt hv hlt hfound hp

/-- The offset that is `-1` in 32 bits leaves the first node without an address. With it a node fails whose address is
one of those that are used again. -/
theorem not_mappingsInverse_minusOne (hs : 1 < stride) (hlt : stride < 2 ^ 32) :
    ¬ MappingsInverse (2 ^ 32 - 1) stride := by
  intro h
  have hquotient : 1 ≤ 2 ^ 32 / stride := (Nat.one_le_div_iff (by omega)).2 hlt.le
  have hhalf : 2 ^ 32 / stride ≤ 2 ^ 32 / 2 := Nat.div_le_div_left hs (by decide)
  have hmod := Nat.mod_lt (2 ^ 32) (show stride > 0 by omega)
  have hsum := Nat.div_add_mod' (2 ^ 32) stride
  have hproduct : (2 ^ 32 / stride + 2 - 1) * stride = 2 ^ 32 + (stride - 2 ^ 32 % stride) := by
    rw [show 2 ^ 32 / stride + 2 - 1 = 2 ^ 32 / stride + 1 from rfl, Nat.add_mul, Nat.one_mul]
    omega
  have hreal : realIndex (2 ^ 32 - 1) stride (2 ^ 32 / stride + 2) = stride - 2 ^ 32 % stride := by
    rw [realIndex, hproduct, wrap, wrap]
    omega
  have hvirtual := h.virtualPosition_eq (b := ⟨0, stride - 2 ^ 32 % stride, by omega⟩) (by omega)
    (Nat.le_add_left 1 _) (by omega) hreal.symm
  have hdiv : (stride - 2 ^ 32 % stride) / stride ≤ 1 := Nat.div_le_of_le_mul (by omega)
  change wrapSub ((stride - 2 ^ 32 % stride) / stride) (2 ^ 32 - 1) = _ at hvirtual
  generalize (stride - 2 ^ 32 % stride) / stride = quotient at hvirtual hdiv
  rw [wrapSub, wrap, wrap] at hvirtual
  omega

end Inverse

/-- **The mappings are inverse if and only if the stride is one**, whatever the offset. -/
theorem mappingsInverse_iff (offset stride : UInt32) (hs : stride ≠ 0) :
    MappingsInverse offset.toNat stride.toNat ↔ stride = 1 := by
  have hs' : stride.toNat ≠ 0 := fun h => hs (UInt32.toNat_inj.1 h)
  have ho := offset.toNat_lt
  constructor
  · intro h
    by_contra hne
    have hne' : stride.toNat ≠ 1 := fun h => hne (UInt32.toNat_inj.1 h)
    by_cases hlast : offset.toNat = 2 ^ 32 - 1
    · rw [hlast] at h
      exact not_mappingsInverse_minusOne (by omega) stride.toNat_lt h
    · have hfirst := h.virtualPosition_eq (b := ⟨0, offset.toNat + 1, by omega⟩) hs' le_rfl (by decide) (by
        rw [realIndex, Nat.sub_self, Nat.zero_mul, wrap_of_lt (show 0 < 2 ^ 32 by decide), wrap_of_lt (by omega)])
      exact hne' ((virtualPosition_onGrid_iff hs' le_rfl (by simp)).1 hfirst)
  · rintro rfl
    constructor
    · intro it it' b v fanout rounds hv hlt hp hoffset hstride hnetwork haddress hit
      obtain ⟨hfanout, -, hindex⟩ := (PositionInTree.ofLinear_eq_some_iff hv hlt).1 hp
      have hindex : it.currentpos.index = v := by rw [PositionInTree.index, hfanout, ← hindex]
      rw [updateAddress_address (by omega), hindex, hoffset, hstride] at haddress
      have hfound := ofLinear_basepos hs' hit
      rw [show (1 : UInt32).toNat = 1 from rfl] at haddress hfound
      rw [virtualPosition_of_address hv hlt hnetwork haddress, hp] at hfound
      exact (Option.some.inj hfound).symm
    · rintro a b v fanout xs hv hnetwork rfl hposition
      rw [show (1 : UInt32).toNat = 1 from rfl] at hposition ⊢
      have hposition : b.position = offset.toNat + a.position := by omega
      constructor
      · rintro ⟨rounds, n, h⟩
        rw [yielded_offset hnetwork hposition] at h
        obtain ⟨ys, hys, rfl⟩ := Option.map_eq_some_iff.1 h
        exact ⟨ys, ⟨rounds, n, hys⟩, rfl⟩
      · rintro ⟨ys, ⟨rounds, n, hys⟩, rfl⟩
        refine ⟨rounds, n, ?_⟩
        rw [yielded_offset hnetwork hposition, hys]
        rfl

/-- The grids of the tests have an offset only. -/
theorem mappingsInverse_offset :
    (1 : UInt32) ≠ 0 ∧ (MappingsInverse (1 : UInt32).toNat (1 : UInt32).toNat ↔ (1 : UInt32) = 1) :=
  ⟨by decide, mappingsInverse_iff 1 1 (by decide)⟩

/-- With a stride of two and no offset the second node of the tree has the third address, and takes itself for the
first. -/
theorem mappingsInverse_fails :
    ¬ ∀ offset stride : UInt32, stride ≠ 0 → MappingsInverse offset.toNat stride.toNat := by
  intro hall
  have hinverse : MappingsInverse 0 2 := hall 0 2 (by decide)
  have hsecond := hinverse.virtualPosition_eq (b := ⟨0x7f000000, 3, by decide⟩) (v := 2) (by decide) (by decide)
    (by decide) (by decide)
  exact absurd hsecond (by decide)

end TreeHierarchyIterator

end Subordination.Daemon
