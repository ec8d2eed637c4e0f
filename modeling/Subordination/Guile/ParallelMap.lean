import Mathlib.Algebra.Order.Ring.Nat
import Mathlib.Data.List.Perm.Basic
import Mathlib.Data.List.SplitLengths

/-!
# Parallel map

A map over lists is done by children, each of which maps a block of them (`Map_kernel` and `Map_child_kernel`,
`guile/kernel.cc`).

## The model

The lists have elements of any type, and `map` with the procedure of the kernel gives a child its result. What
throws, or divides by zero, gives nothing.

## What is proved

* `sendChildren_eq` — the children get consecutive blocks of the lists.
* `returns_eq` — the kernel is returned when as many children have come back as it waits for.
* `mapsInParallel_iff` — the map is complete if and only if there is a full block.
-/

namespace Subordination.Guile

variable {α ρ : Type}

/-! ### The kernels -/

/-- `std::numeric_limits<int>::max()`. -/
def intMax : ℕ := 2 ^ 31 - 1

/-- `scm_to_int`, of a number that is not negative. -/
def scmToInt (n : ℕ) : Option ℕ := if n ≤ intMax then some n else none

/-- `Map_kernel`: `_result` and `_num_kernels`. -/
structure MapKernel (ρ : Type) where
  /-- `_result`. -/
  result : List ρ
  /-- `_num_kernels`. -/
  numKernels : ℤ

/-- The length of the shortest list. -/
def shortestLength : ℕ → List (List α) → Option ℕ
  | n, [] => some n
  | n, lst :: lists => do
    let len ← scmToInt lst.length
    shortestLength (if len < n then len else n) lists

/-- The innermost loop: so many elements of a list, and what is left of it. -/
def takeBlock : ℕ → List α → List α → Option (List α × List α)
  | 0, lst, parentList => some (lst.reverse, parentList)
  | _ + 1, _, [] => none
  | n + 1, lst, x :: parentList => takeBlock n (x :: lst) parentList

/-- The lists of a child, and what is left of the lists. -/
def childLists (n : ℕ) : List (List α) → Option (List (List α) × List (List α))
  | [] => some ([], [])
  | parentList :: lists => do
    let (lst, parentList) ← takeBlock n [] parentList
    let (child, lists) ← childLists n lists
    return (lst :: child, parentList :: lists)

/-- The loop that sends the children, for some more of them. -/
def sendChildren (numKernels lastBlockSize blockSize : ℕ) : ℕ → ℕ → List (List α) → Option (List (List (List α)))
  | 0, _, _ => some []
  | more + 1, i, lists => do
    let n := if i = numKernels - 1 then lastBlockSize else blockSize
    let (child, lists) ← childLists n lists
    let children ← sendChildren numKernels lastBlockSize blockSize more (i + 1) lists
    return child :: children

/-- `block_size`: 1, if it is not bound. -/
def blockSizeToInt : Option ℕ → Option ℕ
  | none => some 1
  | some b => scmToInt b

/-- `Map_kernel::act`: the kernel, and the lists of the children that it sends. -/
def act (lists : List (List α)) (blockSize : Option ℕ) : Option (MapKernel ρ × List (List (List α))) := do
  let numKernels ← shortestLength intMax lists
  let blockSize ← blockSizeToInt blockSize
  if blockSize = 0 then none
  else
    let lastBlockSize := blockSize + numKernels % blockSize
    let numKernels := numKernels / blockSize
    let children ← sendChildren numKernels lastBlockSize blockSize numKernels 0 lists
    return (⟨[], numKernels⟩, children)

/-- `Map_child_kernel::act`: the result, with which the child is sent back. -/
def childAct (map : List (List α) → ρ) (lists : List (List α)) : ρ := map lists

/-- `Map_kernel::react`: the kernel, and whether it is sent to its parent. -/
def MapKernel.react (k : MapKernel ρ) (child : ρ) : MapKernel ρ × Bool :=
  let k := { k with result := child :: k.result, numKernels := k.numKernels - 1 }
  (k, k.numKernels = 0)

/-- The children come back one after the other. -/
def MapKernel.returns : MapKernel ρ → List ρ → MapKernel ρ × List Bool
  | k, [] => (k, [])
  | k, child :: children =>
    let (k, sent) := k.react child
    let (k, sents) := k.returns children
    (k, sent :: sents)

/-! ### What a map should do -/

/-- However the children come back, the kernel is sent to its parent once, after the last of them, with the result
of each of them once. -/
def MapKernel.ReturnsOnce (k : MapKernel ρ) (results : List ρ) : Prop :=
  ∀ order : List ρ, order.Perm results →
    (k.returns order).2 = List.replicate (results.length - 1) false ++ [true] ∧
      (k.returns order).1.result.Perm results

/-- The number of elements that are mapped: that of the shortest list. -/
def shortest (lists : List (List α)) : ℕ := lists.foldl (fun n lst => min n lst.length) intMax

/-- The children get blocks that make up the lists, the kernel waits for all of them, and it is returned once. -/
def MapsInParallel (map : List (List α) → ρ) (lists : List (List α)) (blockSize : Option ℕ) : Prop :=
  ∃ k children, act lists blockSize = some (k, children) ∧
    (∀ j, (children.map (·.getD j [])).flatten = (lists.getD j []).take (shortest lists)) ∧
    k.numKernels = children.length ∧ k.ReturnsOnce (children.map (childAct map))

/-! ### The blocks -/

variable {lists : List (List α)} {n : ℕ}

theorem takeBlock_eq {lst parentList : List α} (h : n ≤ parentList.length) :
    takeBlock n lst parentList = some (lst.reverse ++ parentList.take n, parentList.drop n) := by
  induction n generalizing lst parentList with
  | zero => rw [takeBlock, List.take_zero, List.append_nil, List.drop_zero]
  | succ n ih =>
    cases parentList with
    | nil => exact absurd h (Nat.not_succ_le_zero n)
    | cons x parentList =>
      rw [takeBlock, ih (Nat.le_of_succ_le_succ h), List.reverse_cons, List.append_assoc]
      rfl

theorem childLists_eq (h : ∀ lst ∈ lists, n ≤ lst.length) :
    childLists n lists = some (lists.map (·.take n), lists.map (·.drop n)) := by
  induction lists with
  | nil => rfl
  | cons lst lists ih =>
    rw [childLists, takeBlock_eq (h lst List.mem_cons_self), ih fun l hl => h l (List.mem_cons_of_mem _ hl)]
    rfl

/-- The sizes of the blocks that are still to be sent. -/
def sizes (numKernels lastBlockSize blockSize : ℕ) : ℕ → ℕ → List ℕ
  | 0, _ => []
  | more + 1, i =>
    (if i = numKernels - 1 then lastBlockSize else blockSize) :: sizes numKernels lastBlockSize blockSize more (i + 1)

theorem getD_map {f : List α → List α} (hf : f [] = []) (lists : List (List α)) (j : ℕ) :
    (lists.map f).getD j [] = f (lists.getD j []) := by
  rw [List.getD_eq_getElem?_getD, List.getD_eq_getElem?_getD, List.getElem?_map]
  cases lists[j]? with
  | none => exact hf.symm
  | some lst => rfl

/-- **The children get consecutive blocks** of every list. -/
theorem sendChildren_eq {m l b more i : ℕ} (h : ∀ lst ∈ lists, (sizes m l b more i).sum ≤ lst.length) :
    ∃ children, sendChildren m l b more i lists = some children ∧ children.length = more ∧
      ∀ j, children.map (·.getD j []) = (sizes m l b more i).splitLengths (lists.getD j []) := by
  induction more generalizing i lists with
  | zero => exact ⟨[], rfl, rfl, fun _ => rfl⟩
  | succ more ih =>
    have hfirst : ∀ lst ∈ lists, (if i = m - 1 then l else b) ≤ lst.length := fun lst hlst =>
      (Nat.le_add_right _ _).trans (h lst hlst)
    have hrest : ∀ lst ∈ lists.map (·.drop (if i = m - 1 then l else b)),
        (sizes m l b more (i + 1)).sum ≤ lst.length := by
      intro rest hmem
      obtain ⟨lst, hlst, rfl⟩ := List.mem_map.mp hmem
      have hle := h lst hlst
      rw [sizes, List.sum_cons] at hle
      rw [List.length_drop]
      omega
    obtain ⟨children, hsend, hlength, hblocks⟩ := ih hrest
    refine ⟨lists.map (·.take (if i = m - 1 then l else b)) :: children, ?_, by rw [List.length_cons, hlength], ?_⟩
    · rw [sendChildren, childLists_eq hfirst]
      change (sendChildren m l b more (i + 1) _ >>= fun children => _) = _
      rw [hsend]
      rfl
    · intro j
      rw [List.map_cons, hblocks j, sizes, List.splitLengths_cons, getD_map List.take_nil, getD_map List.drop_nil]

/-- The blocks are as many elements as there are: the last one takes what is left over. -/
theorem sum_sizes {m l b more i : ℕ} (h : i + more = m) (hmore : 0 < more) :
    (sizes m l b more i).sum = (more - 1) * b + l := by
  induction more generalizing i with
  | zero => exact absurd hmore (lt_irrefl 0)
  | succ more ih =>
    rw [sizes, List.sum_cons]
    cases more with
    | zero =>
      rw [if_pos (by omega), sizes, List.sum_nil]
      omega
    | succ more =>
      rw [if_neg (by omega), ih (by omega) (Nat.succ_pos more), Nat.add_sub_cancel, Nat.add_sub_cancel, Nat.succ_mul]
      omega

theorem flatten_splitLengths_take (ns : List ℕ) (xs : List α) : (ns.splitLengths xs).flatten = xs.take ns.sum := by
  induction ns generalizing xs with
  | nil => rfl
  | cons n ns ih =>
    rw [List.splitLengths_cons, List.flatten_cons, ih, List.sum_cons, List.take_add]

/-! ### The children that come back -/

/-- **The kernel is returned** when as many children have come back as it waits for, and not before. -/
theorem returns_eq (k : MapKernel ρ) (order : List ρ) (h : k.numKernels = order.length) :
    (k.returns order).1.result = order.reverse ++ k.result ∧
      (order ≠ [] → (k.returns order).2 = List.replicate (order.length - 1) false ++ [true]) := by
  induction order generalizing k with
  | nil => exact ⟨rfl, fun hne => absurd rfl hne⟩
  | cons child order ih =>
    have hleft : (k.react child).1.numKernels = order.length := by
      simp only [MapKernel.react, h, List.length_cons]
      omega
    obtain ⟨hresult, hsents⟩ := ih (k.react child).1 hleft
    refine ⟨?_, fun _ => ?_⟩
    · rw [MapKernel.returns]
      simp only [hresult]
      simp [MapKernel.react]
    · rw [MapKernel.returns]
      simp only
      cases order with
      | nil =>
        have hlast : (k.react child).2 = true := by
          simp only [MapKernel.react, h, List.length_cons, List.length_nil]
          rfl
        rw [hlast]
        rfl
      | cons child' order =>
        have hmore : (k.react child).2 = false := by
          simp only [MapKernel.react, h, List.length_cons]
          exact decide_eq_false (by omega)
        rw [hmore, hsents (List.cons_ne_nil _ _)]
        rfl

theorem returnsOnce_iff {k : MapKernel ρ} {results : List ρ} (h : k.numKernels = results.length)
    (hresult : k.result = []) : k.ReturnsOnce results ↔ results ≠ [] := by
  constructor
  · rintro honce rfl
    exact absurd (honce [] (List.Perm.refl [])).1 (by simp [MapKernel.returns])
  · intro hne order horder
    obtain ⟨hreturned, hsents⟩ := returns_eq k order (h.trans (by rw [horder.length_eq]))
    have hnil : order ≠ [] := fun heq => hne (List.nil_perm.mp (heq ▸ horder))
    rw [hsents hnil, hreturned, hresult, List.append_nil, horder.length_eq]
    exact ⟨rfl, (List.reverse_perm order).trans horder⟩

/-! ### The whole map -/

theorem foldl_min_le (lists : List (List α)) (n : ℕ) :
    lists.foldl (fun n lst => min n lst.length) n ≤ n ∧
      ∀ lst ∈ lists, lists.foldl (fun n lst => min n lst.length) n ≤ lst.length := by
  induction lists generalizing n with
  | nil => exact ⟨le_rfl, fun lst hlst => absurd hlst List.not_mem_nil⟩
  | cons lst lists ih =>
    obtain ⟨hle, hall⟩ := ih (min n lst.length)
    refine ⟨hle.trans (min_le_left _ _), fun lst' hlst' => ?_⟩
    rcases List.mem_cons.mp hlst' with rfl | hlst'
    · exact hle.trans (min_le_right _ _)
    · exact hall lst' hlst'

theorem shortestLength_eq (n : ℕ) (lists : List (List α)) :
    shortestLength n lists =
      if ∀ lst ∈ lists, lst.length ≤ intMax then some (lists.foldl (fun n lst => min n lst.length) n) else none := by
  induction lists generalizing n with
  | nil => rw [if_pos fun lst hlst => absurd hlst List.not_mem_nil]; rfl
  | cons lst lists ih =>
    rw [shortestLength, scmToInt]
    by_cases hlst : lst.length ≤ intMax
    · have hmin : (if lst.length < n then lst.length else n) = min n lst.length := by
        rw [min_def]
        split_ifs <;> omega
      rw [if_pos hlst]
      change shortestLength (if lst.length < n then lst.length else n) lists = _
      rw [hmin, ih]
      simp [hlst]
    · rw [if_neg hlst, if_neg fun hall => hlst (hall lst List.mem_cons_self)]
      rfl

/-- What `act` gives, if it does not throw. -/
theorem act_eq_some_iff {blockSize : Option ℕ} {k : MapKernel ρ} {children : List (List (List α))} :
    act lists blockSize = some (k, children) ↔
      (∀ lst ∈ lists, lst.length ≤ intMax) ∧ (0 < blockSize.getD 1 ∧ blockSize.getD 1 ≤ intMax) ∧
        sendChildren (shortest lists / blockSize.getD 1) (blockSize.getD 1 + shortest lists % blockSize.getD 1)
          (blockSize.getD 1) (shortest lists / blockSize.getD 1) 0 lists = some children ∧
        k = ⟨[], (shortest lists / blockSize.getD 1 : ℕ)⟩ := by
  have hsize : blockSizeToInt blockSize = scmToInt (blockSize.getD 1) := by
    cases blockSize with
    | none => rfl
    | some b => rfl
  rw [act, hsize, shortestLength_eq, ← shortest]
  generalize blockSize.getD 1 = b
  by_cases hlists : ∀ lst ∈ lists, lst.length ≤ intMax
  · by_cases hb : b ≤ intMax
    · rcases Nat.eq_zero_or_pos b with rfl | hpos
      · simp [scmToInt]
      · rw [if_pos hlists, scmToInt, if_pos hb]
        change (if b = 0 then none else _) = _ ↔ _
        rw [if_neg hpos.ne']
        cases sendChildren (shortest lists / b) (b + shortest lists % b) b (shortest lists / b) 0 lists with
        | none => simp
        | some sent =>
          change some ((⟨[], (shortest lists / b : ℕ)⟩ : MapKernel ρ), sent) = some (k, children) ↔ _
          rw [Option.some.injEq, Prod.mk.injEq]
          constructor
          · rintro ⟨rfl, rfl⟩
            exact ⟨hlists, ⟨hpos, hb⟩, rfl, rfl⟩
          · rintro ⟨-, -, hsent, rfl⟩
            exact ⟨rfl, Option.some.inj hsent⟩
    · simp [scmToInt, hb]
  · simp [hlists]

/-- **A map in parallel is complete** if and only if there is a full block: otherwise there are no children, and
nothing sends the kernel back. Lengths have to fit an `int`. -/
theorem mapsInParallel_iff (map : List (List α) → ρ) (lists : List (List α)) (blockSize : Option ℕ) :
    MapsInParallel map lists blockSize ↔
      (∀ lst ∈ lists, lst.length ≤ intMax) ∧ 0 < blockSize.getD 1 ∧ blockSize.getD 1 ≤ shortest lists := by
  obtain ⟨hmax, hle⟩ := foldl_min_le lists intMax
  constructor
  · rintro ⟨k, children, hact, -, hnum, honce⟩
    obtain ⟨hlists, ⟨hpos, -⟩, -, rfl⟩ := act_eq_some_iff.mp hact
    have hlength : (shortest lists / blockSize.getD 1 : ℕ) = (children.map (childAct map)).length := by
      rw [List.length_map]
      exact Int.ofNat_inj.mp hnum
    have hchildren : children.map (childAct map) ≠ [] :=
      (returnsOnce_iff (congrArg Nat.cast hlength) rfl).mp honce
    have hfull : 0 < shortest lists / blockSize.getD 1 := by
      rw [hlength]
      exact List.length_pos_of_ne_nil hchildren
    exact ⟨hlists, hpos, (Nat.div_pos_iff.mp hfull).2⟩
  · rintro ⟨hlists, hpos, hfull⟩
    have hmore : 0 < shortest lists / blockSize.getD 1 := Nat.div_pos hfull hpos
    have hsum : (sizes (shortest lists / blockSize.getD 1) (blockSize.getD 1 + shortest lists % blockSize.getD 1)
        (blockSize.getD 1) (shortest lists / blockSize.getD 1) 0).sum = shortest lists := by
      have hdivision := Nat.div_add_mod' (shortest lists) (blockSize.getD 1)
      have hproduct := Nat.sub_one_mul (shortest lists / blockSize.getD 1) (blockSize.getD 1)
      have hone := Nat.le_mul_of_pos_left (blockSize.getD 1) hmore
      rw [sum_sizes (Nat.zero_add _) hmore, hproduct]
      omega
    obtain ⟨children, hsend, hlength, hblocks⟩ := sendChildren_eq fun lst hlst => hsum.trans_le (hle lst hlst)
    have hnum : (shortest lists / blockSize.getD 1 : ℕ) = (children.map (childAct map)).length := by
      rw [List.length_map, hlength]
    refine ⟨⟨[], (shortest lists / blockSize.getD 1 : ℕ)⟩, children,
      act_eq_some_iff.mpr ⟨hlists, ⟨hpos, hfull.trans hmax⟩, hsend, rfl⟩, fun j => ?_, by rw [hlength], ?_⟩
    · rw [hblocks j, flatten_splitLengths_take, hsum]
    · refine (returnsOnce_iff (congrArg Nat.cast hnum) rfl).mpr fun hnil => ?_
      rw [hnil] at hnum
      exact hmore.ne' hnum

/-- Five elements in blocks of two: the last block takes what is left over. -/
example : (act [[1, 2, 3, 4, 5]] (some 2) : Option (MapKernel ℕ × List (List (List ℕ)))).map Prod.snd =
    some [[[1, 2]], [[3, 4, 5]]] := rfl

/-- A list of one element, in blocks of two: the kernel is never sent to its parent. -/
theorem mapsInParallel_fails : ¬ ∀ (map : List (List ℕ) → ℕ) (lists : List (List ℕ)) (b : ℕ), 1 ≤ b →
    MapsInParallel map lists (some b) := by
  intro h
  obtain ⟨k, children, hact, -, -, honce⟩ := h List.length [[7]] 2 (by decide)
  obtain ⟨-, -, hsend, rfl⟩ := act_eq_some_iff.mp hact
  cases hsend
  exact absurd (honce [] (List.Perm.refl [])).1 (by decide)

end Subordination.Guile
