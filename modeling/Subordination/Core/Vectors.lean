import Subordination.Core.Kernel

/-!
# Vectors and applications in kernel buffers

A vector is its length in 32 bits and its elements (`core/kernel_buffer.hh`); each element is read
into a new one at the end of the vector. An application is written field by field
(`core/application.cc`), and `process_handler::forward` (`core/process_handler.cc`) looks at the
target application of a kernel when the kernel has not been passed on.

## The model

`Application` has the fields that are written. A `FullApplication` has the other one as well:
whether the daemon waits for completion.

## What is proved

* `ReadsExactly.vector`: a vector is read back if its length fits and its elements are read back.
* `FullApplication.readsExactly`: which applications are read back.
* `afterForward_received`: no daemon keeps the main kernel of an application that it has received.
-/

namespace Subordination.Core

/-! ### What is read back -/

section ReadsExactly

variable {α : Type} {m : ReadM α} {bytes : α → List UInt8} {p : α → Prop}

/-- The values that are read back from what is written of them are those with the property. -/
structure ReadsExactly (m : ReadM α) (bytes : α → List UInt8) (p : α → Prop) : Prop where
  /-- They are read back. -/
  reads : ∀ a, p a → Reads m (bytes a) a
  /-- Whatever comes next, no other value is. -/
  only : ∀ {a : α} {rest w : List UInt8}, m (bytes a ++ rest) = .ok a w → p a

namespace ReadsExactly

theorem of_reads (h : ∀ a, Reads m (bytes a) a) : ReadsExactly m bytes fun _ => True :=
  ⟨fun a _ => h a, fun _ => trivial⟩

/-- When a value is read back, nothing else is read. -/
theorem rest_eq (h : ReadsExactly m bytes p) {a : α} {rest w : List UInt8} (hok : m (bytes a ++ rest) = .ok a w) :
    w = rest := by
  have hread := (h.reads a (h.only hok) rest).symm.trans hok
  injection hread with _ hrest
  exact hrest.symm

theorem reads_iff (h : ReadsExactly m bytes p) (a : α) : Reads m (bytes a) a ↔ p a :=
  ⟨fun hread => h.only (hread []), h.reads a⟩

end ReadsExactly

end ReadsExactly

/-! ### Vectors -/

section Vectors

variable [ByteOrder] {α : Type} {m : ReadM α} {bytes : α → List UInt8} {p : α → Prop}

/-- A string is read back unless it is too long for the 64 bits of its length. -/
theorem readsExactly_string : ReadsExactly readString stringBytes fun s => s.length < 2 ^ 64 :=
  ⟨fun _ hs => reads_string hs, fun hok => length_of_readString hok⟩

/-- `kernel_buffer::write(const std::vector<T>&)`. -/
def vectorOf (bytes : α → List UInt8) (l : List α) : List UInt8 :=
  intBytes 4 (l.length % 2 ^ 32) ++ ((l.take (l.length % 2 ^ 32)).map bytes).flatten

/-- The loop of `kernel_buffer::read(std::vector<T>&)`. -/
def readElements (m : ReadM α) : ℕ → ReadM (List α)
  | 0 => pure []
  | n + 1 => do
    let a ← m
    let l ← readElements m n
    pure (a :: l)

/-- `kernel_buffer::read(std::vector<T>&)`. -/
def readVectorOf (m : ReadM α) : ReadM (List α) := do
  let n ← readInt 4
  readElements m n

omit [ByteOrder] in
theorem length_readElements {n : ℕ} {w w' : List UInt8} {l : List α} (h : readElements m n w = .ok l w') :
    l.length = n := by
  induction n generalizing w l with
  | zero =>
    cases h
    rfl
  | succ n ih =>
    obtain ⟨a, w₁, -, h⟩ := bind_ok h
    obtain ⟨l, w₂, hl, h⟩ := bind_ok h
    cases h
    rw [List.length_cons, ih hl]

namespace ReadsExactly

omit [ByteOrder] in
theorem reads_elements (h : ReadsExactly m bytes p) {l : List α} (hl : ∀ a ∈ l, p a) :
    Reads (readElements m l.length) (l.map bytes).flatten l := by
  induction l with
  | nil => exact Reads.pure []
  | cons a l ih =>
    have htail := (ih fun b hb => hl b (List.mem_cons_of_mem a hb)).bindPure (f := fun l => pure (a :: l)) rfl
    exact (h.reads a (hl a List.mem_cons_self)).bind htail

omit [ByteOrder] in
theorem only_elements (h : ReadsExactly m bytes p) {l : List α} {rest w : List UInt8}
    (hok : readElements m l.length ((l.map bytes).flatten ++ rest) = .ok l w) : ∀ a ∈ l, p a := by
  induction l generalizing rest with
  | nil => exact fun _ ha => absurd ha List.not_mem_nil
  | cons a l ih =>
    rw [List.map_cons, List.flatten_cons, List.append_assoc] at hok
    obtain ⟨b, w₁, hb, hok⟩ := bind_ok hok
    obtain ⟨l', w₂, hl', hok⟩ := bind_ok hok
    cases hok
    -- the elements after this one are read from where they were written
    obtain rfl := h.rest_eq hb
    rintro c hc
    rcases List.mem_cons.1 hc with rfl | hc
    · exact h.only hb
    · exact ih hl' c hc

/-- **A vector is read back** if its length fits 32 bits and its elements are read back. -/
theorem vector (h : ReadsExactly m bytes p) :
    ReadsExactly (readVectorOf m) (vectorOf bytes) fun l => l.length < 2 ^ 32 ∧ ∀ a ∈ l, p a where
  reads := by
    rintro l ⟨hlength, hl⟩
    have helements := h.reads_elements hl
    rw [vectorOf, Nat.mod_eq_of_lt hlength, List.take_length]
    exact (reads_int (w := 4) hlength).bind helements
  only := by
    intro l rest w hok
    rw [vectorOf, List.append_assoc] at hok
    have hmod : l.length % 2 ^ 32 < 256 ^ 4 := Nat.mod_lt _ (by decide)
    rw [readVectorOf, (reads_int hmod).bind_apply] at hok
    -- as many elements have been read as the 32 bits say
    have hlength : l.length < 2 ^ 32 := by
      have hmod := Nat.mod_lt l.length (show 0 < 2 ^ 32 by decide)
      rwa [← length_readElements hok] at hmod
    rw [Nat.mod_eq_of_lt hlength, List.take_length] at hok
    exact ⟨hlength, h.only_elements hok⟩

end ReadsExactly

theorem readStrings_eq (n : ℕ) : readStrings n = readElements readString n := by
  induction n with
  | zero => rfl
  | succ n ih => rw [readStrings, readElements, ih]

/-- The vectors of an application are like those of `kernel_buffer`. -/
theorem readsExactly_strings :
    ReadsExactly readVector vectorBytes fun ss => ss.length < 2 ^ 32 ∧ ∀ s ∈ ss, s.length < 2 ^ 64 := by
  have hvector : readVector = readVectorOf readString := by
    rw [readVector, readVectorOf]
    simp only [readStrings_eq]
  rw [hvector]
  exact readsExactly_string.vector

end Vectors

/-! ### Applications -/

/-- `application`. -/
structure FullApplication extends Application where
  /-- `_wait_for_completion`. -/
  waitForCompletion : Bool := false
  deriving DecidableEq

namespace FullApplication

/-- `application()`. -/
def initial : FullApplication where
  id := 0
  uid := UInt32.ofNat (2 ^ 32 - 1)
  gid := UInt32.ofNat (2 ^ 32 - 1)
  args := []
  env := []
  workingDirectory := []

/-- Lengths fit the bits that are written for them. -/
structure Fits (a : FullApplication) : Prop where
  /-- The number of arguments. -/
  length_args : a.args.length < 2 ^ 32
  /-- The arguments. -/
  args : ∀ s ∈ a.args, s.length < 2 ^ 64
  /-- The number of environment variables. -/
  length_env : a.env.length < 2 ^ 32
  /-- The environment variables. -/
  env : ∀ s ∈ a.env, s.length < 2 ^ 64
  /-- The working directory. -/
  workingDirectory : a.workingDirectory.length < 2 ^ 64

section Wire

variable [ByteOrder]

/-- `application::write`. -/
def bytes (a : FullApplication) : List UInt8 := a.toApplication.bytes

/-- `application::read`, into the application that is there. -/
def read (c : FullApplication) : ReadM FullApplication := do
  let a ← Application.read
  pure { a with waitForCompletion := c.waitForCompletion }

variable {a : FullApplication}

theorem reads (h : a.Fits) (c : FullApplication) :
    Reads c.read a.bytes { a with waitForCompletion := c.waitForCompletion } := by
  refine Reads.bindPure (a := a.toApplication) ?_ rfl
  exact (reads_u64 a.id).bind <| (reads_u32 a.uid).bind <| (reads_u32 a.gid).bind <|
    (readsExactly_strings.reads a.args ⟨h.length_args, h.args⟩).bind <|
    (readsExactly_strings.reads a.env ⟨h.length_env, h.env⟩).bind <|
    (reads_string h.workingDirectory).bindPure rfl

theorem fits_of_read {rest w : List UInt8} {b : Application}
    (h : Application.read (a.bytes ++ rest) = .ok b w) (hb : b = a.toApplication) : a.Fits := by
  rw [bytes, Application.bytes, List.append_assoc, List.append_assoc, List.append_assoc, List.append_assoc,
    List.append_assoc, Application.read, (reads_u64 a.id).bind_apply, (reads_u32 a.uid).bind_apply,
    (reads_u32 a.gid).bind_apply] at h
  obtain ⟨args, w₁, hargs, h⟩ := bind_ok h
  obtain ⟨env, w₂, henv, h⟩ := bind_ok h
  obtain ⟨workingDirectory, w₃, hdirectory, h⟩ := bind_ok h
  cases h
  obtain rfl : args = a.args := congrArg Application.args hb
  obtain rfl : env = a.env := congrArg Application.env hb
  obtain rfl : workingDirectory = a.workingDirectory := congrArg Application.workingDirectory hb
  obtain rfl := readsExactly_strings.rest_eq hargs
  have hlength := length_of_readString hdirectory
  obtain ⟨hnargs, hargs⟩ := readsExactly_strings.only hargs
  obtain ⟨hnenv, henv⟩ := readsExactly_strings.only henv
  exact ⟨hnargs, hargs, hnenv, henv, hlength⟩

/-- **Which applications are read back**: those that wait for completion as the one they are read into does. -/
theorem readsExactly (c : FullApplication) :
    ReadsExactly c.read bytes fun a => a.Fits ∧ a.waitForCompletion = c.waitForCompletion where
  reads a h := by
    have hread := reads h.1 c
    rwa [← h.2] at hread
  only hok := by
    obtain ⟨b, w₁, hb, hok⟩ := bind_ok hok
    injection hok with hok _
    exact ⟨fits_of_read hb (congrArg toApplication hok), (congrArg waitForCompletion hok).symm⟩

end Wire

end FullApplication

/-! ### Main kernels -/

/-- What becomes of a kernel that `do_forward` gives back to `process_handler::forward`. -/
inductive AfterForward where
  /-- It is saved as the main kernel. -/
  | saved
  /-- It returns to its parent. -/
  | returned
  /-- It is deleted. -/
  | deleted
  deriving DecidableEq, Repr

/-- The end of `process_handler::forward`, given `target_application()` and `type_id()`. -/
def afterForward (target : Option FullApplication) (typeId : UInt16) : AfterForward :=
  let waitForCompletion := match target with
    | some a => a.waitForCompletion
    | none => false
  if typeId = 1 then if waitForCompletion then .saved else .returned else .deleted

/-- **No daemon keeps the main kernel** of an application that `read_header` has read. -/
theorem afterForward_received [ByteOrder] {a : FullApplication} {w w' : List UInt8} (typeId : UInt16)
    (h : FullApplication.initial.read w = .ok a w') : afterForward (some a) typeId ≠ .saved := by
  obtain ⟨b, w₁, -, h⟩ := bind_ok h
  cases h
  rw [afterForward]
  split <;> simp [FullApplication.initial]

end Subordination.Core
