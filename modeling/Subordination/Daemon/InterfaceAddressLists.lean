import Mathlib.Data.List.Basic
import Mathlib.Data.Set.Basic
import Subordination.Core.PrintedConstants

/-!
# Lists of interface addresses

The allowed interfaces are configured as addresses with commas between them
(`string_to_interface_address_list`, `daemon/factory.cc`).

## The model

The class of the addresses is not in the repository. An `AddressFormat` is what is used of it: its texts, which are
read back, also where a comma comes after them.

## What is proved

* `stringToInterfaceAddressList_joined` — all entries are the first address: the start of a part never moves.
* `readsJoined_iff` — the list is read back if and only if it has no two different addresses.
-/

namespace Subordination.Daemon

open Subordination.Core Subordination.Core.Resources

/-- `,`. -/
def comma : UInt8 := 44

/-- `sys::interface_address<sys::ipv4_address>`, as it is written and read. -/
structure AddressFormat (A : Type) where
  /-- `operator<<`. -/
  text : A → List UInt8
  /-- `operator>>`: what a new address is after a stream with these characters has been read into it. -/
  extract : List UInt8 → A
  /-- A text is read back. -/
  extract_text : ∀ a, extract (text a) = a
  /-- A text is read up to the character that cannot be a part of it. -/
  extract_comma : ∀ a rest, extract (text a ++ comma :: rest) = a
  /-- There are no commas in a text. -/
  comma_notMem : ∀ a, comma ∉ text a
  /-- No text is empty. -/
  text_ne_nil : ∀ a, text a ≠ []

variable {A : Type} (F : AddressFormat A)

/-! ### The splitter -/

/-- The loop of `string_to_interface_address_list`, for some more characters, at the index `i`. -/
def splitLoop (s : List UInt8) (i0 : ℕ) : ℕ → ℕ → List A → List A
  | 0, _, lst => lst
  | more + 1, i, lst =>
    if s[i]? = some comma ∨ i = s.length - 1 then
      splitLoop s i0 more (i + 1) (lst ++ [F.extract ((s.drop i0).take (i - i0 + if i = s.length - 1 then 1 else 0))])
    else splitLoop s i0 more (i + 1) lst

/-- `string_to_interface_address_list`. -/
def stringToInterfaceAddressList (s : List UInt8) : List A := splitLoop F s 0 s.length 0 []

/-- The texts of some addresses, with commas between them. -/
def joined (as : List A) : List UInt8 := [comma].intercalate (as.map F.text)

/-- The list of which the texts have been joined is what is read, and so are the addresses that are allowed. -/
def ReadsJoined (as : List A) : Prop :=
  stringToInterfaceAddressList F (joined F as) = as ∧
    {a | a ∈ stringToInterfaceAddressList F (joined F as)} = {a | a ∈ as}

/-! ### What it reads -/

variable {F} {s p suffix : List UInt8} {pre : List UInt8} {lst : List A} {more : ℕ} {a first : A} {as : List A}

theorem joined_singleton (a : A) : joined F [a] = F.text a := by simp [joined]

theorem joined_cons_cons (a b : A) (as : List A) :
    joined F (a :: b :: as) = F.text a ++ comma :: joined F (b :: as) := by
  simp [joined]

theorem joined_ne_nil (a : A) (as : List A) : joined F (a :: as) ≠ [] := by
  cases as with
  | nil =>
    rw [joined_singleton]
    exact F.text_ne_nil a
  | cons b as =>
    rw [joined_cons_cons]
    exact List.append_ne_nil_of_left_ne_nil (F.text_ne_nil a) _

/-- The loop goes on over characters that are no commas, up to the last one of the text. -/
theorem splitLoop_text (hs : s = pre ++ p ++ suffix) (hp : comma ∉ p) (hsuffix : suffix ≠ []) :
    splitLoop F s 0 (p.length + more) pre.length lst = splitLoop F s 0 more (pre.length + p.length) lst := by
  induction p generalizing pre with
  | nil => rw [List.length_nil, Nat.zero_add, Nat.add_zero]
  | cons c p ih =>
    obtain ⟨hc, hp⟩ := List.ne_and_not_mem_of_not_mem_cons hp
    have hget : s[pre.length]? = some c := by
      rw [hs, List.append_assoc, List.getElem?_append_right le_rfl, Nat.sub_self]
      rfl
    have hlength : pre.length < s.length - 1 := by
      have hpos := List.length_pos_of_ne_nil hsuffix
      rw [hs, List.length_append, List.length_append, List.length_cons]
      omega
    have hgoesOn : ¬ (s[pre.length]? = some comma ∨ pre.length = s.length - 1) := by
      rw [hget, not_or]
      exact ⟨fun h => hc (Option.some.inj h).symm, hlength.ne⟩
    have hshift : s = pre ++ [c] ++ p ++ suffix := by
      rw [hs]
      simp
    have hmore := ih hshift hp
    rw [List.length_append, List.length_singleton] at hmore
    rw [List.length_cons, Nat.add_right_comm, splitLoop, if_neg hgoesOn, hmore]
    congr 1
    omega

/-- At a comma, what stands before it is read from the start of the whole text. -/
theorem splitLoop_comma (hs : s = pre ++ comma :: suffix) (hsuffix : suffix ≠ []) :
    splitLoop F s 0 (more + 1) pre.length lst = splitLoop F s 0 more (pre.length + 1) (lst ++ [F.extract pre]) := by
  have hget : s[pre.length]? = some comma := by
    rw [hs, List.getElem?_append_right le_rfl, Nat.sub_self]
    rfl
  have hlength : pre.length ≠ s.length - 1 := by
    have hpos := List.length_pos_of_ne_nil hsuffix
    rw [hs, List.length_append, List.length_cons]
    omega
  have htake : (s.drop 0).take (pre.length - 0 + 0) = pre := by
    rw [hs, List.drop_zero, Nat.sub_zero, Nat.add_zero, List.take_left]
  rw [splitLoop, if_pos (Or.inl hget), if_neg hlength, htake]

/-- At the last character, the whole text is read. -/
theorem splitLoop_last (hs : s = pre ++ p) (hp : comma ∉ p) (hne : p ≠ []) :
    splitLoop F s 0 p.length pre.length lst = lst ++ [F.extract s] := by
  obtain ⟨q, c, rfl⟩ := (List.eq_nil_or_concat' p).resolve_left hne
  have hq : comma ∉ q := fun h => hp (List.mem_append_left [c] h)
  have htext : splitLoop F s 0 (q.length + 1) pre.length lst = splitLoop F s 0 1 (pre.length + q.length) lst :=
    splitLoop_text (hs.trans (List.append_assoc pre q [c]).symm) hq (List.cons_ne_nil c [])
  have hlength : pre.length + q.length = s.length - 1 := by
    rw [hs]
    simp
  have htake : (s.drop 0).take (pre.length + q.length - 0 + 1) = s := by
    refine List.take_of_length_le ?_
    rw [hs]
    simp
    omega
  rw [List.length_append, List.length_singleton, htext, splitLoop, if_pos (Or.inr hlength), if_pos hlength, htake,
    splitLoop]

/-- **The loop on some addresses**: each time it reads the first address of the text. -/
theorem splitLoop_joined (hs : s = pre ++ joined F (a :: as))
    (hfirst : ∀ i, pre.length + (F.text a).length ≤ i → F.extract (s.take i) = first) :
    splitLoop F s 0 (joined F (a :: as)).length pre.length lst = lst ++ List.replicate (as.length + 1) first := by
  induction as generalizing pre a lst with
  | nil =>
    rw [joined_singleton] at hs ⊢
    have hlength : pre.length + (F.text a).length ≤ s.length := by rw [hs, List.length_append]
    rw [splitLoop_last hs (F.comma_notMem a) (F.text_ne_nil a), ← hfirst s.length hlength, List.take_length]
    rfl
  | cons b as ih =>
    rw [joined_cons_cons] at hs ⊢
    have hne := joined_ne_nil (F := F) b as
    have htext : s = pre ++ F.text a ++ comma :: joined F (b :: as) := by rw [hs, List.append_assoc]
    have hcomma : s = pre ++ F.text a ++ [comma] ++ joined F (b :: as) := by rw [htext]; simp
    have hread : F.extract (pre ++ F.text a) = first := by
      have htake : s.take (pre.length + (F.text a).length) = pre ++ F.text a := by
        rw [htext, ← List.length_append, List.take_left]
      rw [← htake]
      exact hfirst _ le_rfl
    have hmore : splitLoop F s 0 (joined F (b :: as)).length (pre ++ F.text a ++ [comma]).length (lst ++ [first]) =
        lst ++ [first] ++ List.replicate (as.length + 1) first := by
      refine ih hcomma fun i hi => hfirst i ?_
      simp only [List.length_append, List.length_singleton] at hi
      omega
    rw [List.length_append, List.length_append, List.length_singleton] at hmore
    rw [List.length_append, List.length_cons, splitLoop_text htext (F.comma_notMem a) (List.cons_ne_nil _ _),
      ← List.length_append, splitLoop_comma htext hne, hread, List.length_append, hmore, List.append_assoc]
    rfl

/-- What the first address of a text is read as does not depend on what comes after its comma. -/
theorem extract_take_joined (a : A) (as : List A) {i : ℕ} (hi : (F.text a).length ≤ i) :
    F.extract ((joined F (a :: as)).take i) = a := by
  cases as with
  | nil => rw [joined_singleton, List.take_of_length_le hi, F.extract_text]
  | cons b as =>
    obtain ⟨k, rfl⟩ := Nat.exists_eq_add_of_le hi
    rw [joined_cons_cons, List.take_length_add_append]
    cases k with
    | zero => rw [List.take_zero, List.append_nil, F.extract_text]
    | succ k => rw [List.take_succ_cons, F.extract_comma]

/-- **All entries are the first address.** -/
theorem stringToInterfaceAddressList_joined (a : A) (as : List A) :
    stringToInterfaceAddressList F (joined F (a :: as)) = List.replicate (as.length + 1) a := by
  have hs : joined F (a :: as) = [] ++ joined F (a :: as) := rfl
  refine splitLoop_joined hs fun i hi => ?_
  rw [List.length_nil, Nat.zero_add] at hi
  exact extract_take_joined a as hi

variable (F) in
/-- **When the list is read back**: it has no two different addresses. -/
theorem readsJoined_iff (as : List A) : ReadsJoined F as ↔ ∀ a ∈ as, ∀ b ∈ as, a = b := by
  cases as with
  | nil => exact iff_of_true ⟨rfl, rfl⟩ fun a ha => absurd ha List.not_mem_nil
  | cons first as =>
    rw [ReadsJoined, stringToInterfaceAddressList_joined]
    constructor
    · rintro ⟨hlist, -⟩ a ha b hb
      rw [← hlist] at ha hb
      rw [List.eq_of_mem_replicate ha, List.eq_of_mem_replicate hb]
    · intro h
      have hlist : List.replicate (as.length + 1) first = first :: as :=
        (List.eq_replicate_iff.mpr ⟨rfl, fun b hb => h b hb first List.mem_cons_self⟩).symm
      exact ⟨hlist, by rw [hlist]⟩

/-! ### Addresses in dots -/

/-- An address with its mask, such as `10.0.0.1/8`. -/
structure DottedAddress where
  /-- The bytes of the address. -/
  bytes : UInt8 × UInt8 × UInt8 × UInt8
  /-- The number of bits in the mask. -/
  mask : UInt8
  deriving DecidableEq

namespace DottedAddress

/-- The address as it is written. -/
def text (a : DottedAddress) : List UInt8 :=
  digits a.bytes.1.toNat ++ 46 :: (digits a.bytes.2.1.toNat ++ 46 :: (digits a.bytes.2.2.1.toNat ++
    46 :: (digits a.bytes.2.2.2.toNat ++ 47 :: digits a.mask.toNat)))

/-- A number, and what stands after it. -/
def number (s : List UInt8) : UInt8 × List UInt8 :=
  (UInt8.ofNat (ofDigits (s.takeWhile isDigit)).toNat, s.dropWhile isDigit)

/-- The address as it is read: five numbers with a character between them. -/
def extract (s : List UInt8) : DottedAddress :=
  let (a, s) := number s
  let (b, s) := number s.tail
  let (c, s) := number s.tail
  let (d, s) := number s.tail
  ⟨(a, b, c, d), (number s.tail).1⟩

theorem number_digits (n : UInt8) {rest : List UInt8} (h : ∀ c ∈ rest.head?, isDigit c = false) :
    number (digits n.toNat ++ rest) = (n, rest) := by
  have hall := isDigit_digits n.toNat
  have htake : rest.takeWhile isDigit = [] := by
    cases rest with
    | nil => rfl
    | cons c rest => exact List.takeWhile_cons_of_neg (by simp [h c rfl])
  have hdrop : rest.dropWhile isDigit = rest := by
    cases rest with
    | nil => rfl
    | cons c rest => exact List.dropWhile_cons_of_neg (by simp [h c rfl])
  rw [number, List.takeWhile_append_of_pos hall, List.dropWhile_append_of_pos hall, htake, hdrop, List.append_nil,
    ofDigits_digits, Int.toNat_natCast, UInt8.ofNat_toNat]

/-- An address is read up to what cannot be a part of its mask. -/
theorem extract_append (a : DottedAddress) {rest : List UInt8} (h : ∀ c ∈ rest.head?, isDigit c = false) :
    extract (a.text ++ rest) = a := by
  have hdot : ∀ s : List UInt8, ∀ c ∈ (46 :: s : List UInt8).head?, isDigit c = false := by
    rintro s c ⟨⟩
    rfl
  have hslash : ∀ s : List UInt8, ∀ c ∈ (47 :: s : List UInt8).head?, isDigit c = false := by
    rintro s c ⟨⟩
    rfl
  simp only [extract, text, List.append_assoc, List.cons_append, number_digits _ (hdot _), List.tail_cons,
    number_digits _ (hslash _), number_digits _ h]

/-- The format of the addresses. -/
def format : AddressFormat DottedAddress where
  text := text
  extract := extract
  extract_text a := by
    rw [← List.append_nil a.text]
    exact extract_append a nofun
  extract_comma a rest := extract_append a (by rintro c ⟨⟩; rfl)
  comma_notMem a h := by
    have hdigits : ∀ n, 44 ∉ digits n := fun n h => absurd (isDigit_digits n 44 h) (by decide)
    simp [text, hdigits, comma] at h
  text_ne_nil a := List.append_ne_nil_of_right_ne_nil _ (List.cons_ne_nil _ _)

end DottedAddress

/-- Of `10.0.0.1/8,127.0.0.1/8` the first address is read twice. -/
theorem readsJoined_fails : ¬ ∀ (A : Type) (F : AddressFormat A) (as : List A), ReadsJoined F as := by
  intro h
  have hlist := (h _ DottedAddress.format [⟨(10, 0, 0, 1), 8⟩, ⟨(127, 0, 0, 1), 8⟩]).1
  rw [stringToInterfaceAddressList_joined] at hlist
  exact absurd hlist (by decide)

end Subordination.Daemon
