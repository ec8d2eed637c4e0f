import Mathlib.Algebra.Order.Ring.Nat
import Mathlib.Data.List.Basic
import Mathlib.Logic.Function.Basic

/-!
# The connection table

`connection_table` has a slot for each descriptor, which is empty or holds a connection. The table grows
when a connection is put in a slot that it does not have yet.

## What is proved

* `ConnectionTable.get_emplace`, `get_erase` — what the slots hold then.
-/

namespace Subordination.Core

/-- `connection_table`. -/
structure ConnectionTable (α : Type) where
  /-- `_connections`; there is no connection in an empty slot. -/
  connections : List (Option α) := []

namespace ConnectionTable

variable {α : Type}

/-- `size`. -/
def size (t : ConnectionTable α) : ℕ := t.connections.length

/-- What the slot holds, if the table has it. -/
def get (t : ConnectionTable α) (fd : ℕ) : Option α := t.connections[fd]?.join

/-- The size is doubled as long as there is no slot `fd`; `fuel` bounds the number of turns. -/
def grow (fd : ℕ) : ℕ → ℕ → ℕ
  | 0, n => n
  | fuel + 1, n => if n ≤ fd then grow fd fuel (2 * n) else n

/-- The size of a table that was empty: a page of pointers. -/
def pageSize : ℕ := 4096 / 16

/-- `ensure_size`. -/
def ensureSize (t : ConnectionTable α) (fd : ℕ) : ConnectionTable α :=
  let n := grow fd (fd + 1) (if t.size = 0 then pageSize else t.size)
  { connections := t.connections ++ List.replicate (n - t.size) none }

/-- `emplace`. -/
def emplace (t : ConnectionTable α) (fd : ℕ) (x : α) : ConnectionTable α :=
  { connections := (t.ensureSize fd).connections.set fd (some x) }

/-- `erase`. -/
def erase (t : ConnectionTable α) (fd : ℕ) : ConnectionTable α :=
  if fd < t.size then { connections := t.connections.set fd none } else t

/-- The first slot that holds the connection, or the end of the table. -/
def indexOf [DecidableEq α] (t : ConnectionTable α) (x : α) : ℕ := t.connections.findIdx (· = some x)

/-! ### The slots -/

theorem lt_grow {fd fuel n : ℕ} (hn : 0 < n) (h : fd < n * 2 ^ fuel) : fd < grow fd fuel n := by
  induction fuel generalizing n with
  | zero => simpa [grow] using h
  | succ fuel ih =>
    unfold grow
    split
    · exact ih (by omega) (by rwa [pow_succ, mul_comm _ 2, ← mul_assoc, mul_comm n] at h)
    · omega

theorem le_grow (fd fuel n : ℕ) : n ≤ grow fd fuel n := by
  induction fuel generalizing n with
  | zero => exact Nat.le_refl n
  | succ fuel ih =>
    unfold grow
    split
    · have := ih (2 * n)
      omega
    · exact Nat.le_refl n

/-- There is a slot for the descriptor then. -/
theorem lt_size_ensureSize (t : ConnectionTable α) (fd : ℕ) : fd < (t.ensureSize fd).size := by
  have hpow : fd < 2 ^ (fd + 1) := (Nat.lt_succ_self fd).trans Nat.lt_two_pow_self
  have hpos : 0 < if t.size = 0 then pageSize else t.size := by
    split
    · decide
    · omega
  have := lt_grow hpos (hpow.trans_le (Nat.le_mul_of_pos_left _ hpos))
  have := le_grow fd (fd + 1) (if t.size = 0 then pageSize else t.size)
  unfold ensureSize size
  simp only [List.length_append, List.length_replicate]
  unfold size at *
  omega

/-- No slot changes when the table grows. -/
theorem get_ensureSize (t : ConnectionTable α) (fd : ℕ) : (t.ensureSize fd).get = t.get := by
  funext i
  unfold ensureSize get
  by_cases hi : i < t.connections.length
  · rw [List.getElem?_append_left hi]
  · rw [List.getElem?_append_right (by omega), List.getElem?_replicate, List.getElem?_eq_none (by omega)]
    simp only [apply_ite Option.join, Option.join_some, ite_self, Option.join_none]

/-- **One slot gets the connection, and the others hold what they held.** -/
theorem get_emplace (t : ConnectionTable α) (fd : ℕ) (x : α) :
    (t.emplace fd x).get = Function.update t.get fd (some x) := by
  rw [← get_ensureSize t fd]
  funext i
  by_cases hi : i = fd
  · subst hi
    have := lt_size_ensureSize t i
    simp_all [emplace, get, size]
  · simp [emplace, get, hi, List.getElem?_set_ne (Ne.symm hi)]

/-- **One slot becomes empty, and the others hold what they held.** -/
theorem get_erase (t : ConnectionTable α) (fd : ℕ) : (t.erase fd).get = Function.update t.get fd none := by
  funext i
  unfold erase size
  by_cases hi : i = fd
  · subst hi
    split <;> simp_all [get]
  · split <;> simp [get, hi, List.getElem?_set_ne (Ne.symm hi)]

/-- A slot that holds something is in the table. -/
theorem lt_size {t : ConnectionTable α} {fd : ℕ} {x : α} (h : t.get fd = some x) : fd < t.size := by
  unfold size
  by_contra hn
  simp [get, List.getElem?_eq_none (Nat.le_of_not_lt hn)] at h

variable [DecidableEq α] {t : ConnectionTable α} {x y : α} {fd : ℕ}

/-- What is found in the table is what has been looked for. -/
theorem eq_of_get_indexOf (h : t.get (t.indexOf x) = some y) : y = x := by
  have hlt : t.connections.findIdx (· = some x) < t.connections.length := lt_size h
  have := List.findIdx_getElem (w := hlt)
  simp only [decide_eq_true_eq] at this
  unfold get indexOf at h
  rw [List.getElem?_eq_getElem hlt, this] at h
  exact (Option.some.inj h).symm

/-- What is in the table is found. -/
theorem get_indexOf (h : t.get fd = some x) : t.get (t.indexOf x) = some x := by
  have hlt : fd < t.connections.length := lt_size h
  have hx : t.connections[fd] = some x := by
    simpa [get, List.getElem?_eq_getElem hlt] using h
  have hfind : t.connections.findIdx (· = some x) < t.connections.length :=
    List.findIdx_lt_length_of_exists ⟨_, List.getElem_mem hlt, by simpa using hx⟩
  have := List.findIdx_getElem (w := hfind)
  simp only [decide_eq_true_eq] at this
  unfold get indexOf
  rw [List.getElem?_eq_getElem hfind, this]
  rfl

end ConnectionTable

end Subordination.Core
