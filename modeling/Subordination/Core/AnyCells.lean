import Subordination.Core.BinaryExpressions
import Subordination.Core.MapReaders

/-!
# Values in memory

`Any` is a type byte and a union, in which a string is a pointer to a buffer of its own. `Any::read` reads over
whatever the variable held before, and what it does to that depends on the old bytes of the union and on the new
type byte; the old type byte is gone by then.

## The model

A `Cell` is a variable of type `Any`: the type byte, the bytes of the union, and the buffer at that address if
there is one. `delete[]` of a pointer to anything else has no defined outcome; here it is an exception. Where
`new` finds room, and what an uninitialised variable holds, are parameters.

`Cell.read` also returns whether it has released a buffer.

## What is proved

* `Cell.read_ok` and `Cell.reads` — what reading does: `Any.read`, if the old bytes can be given to `delete[]`.
* `restores_iff` — when a value replaces the old content of a variable, and when bindings do.
* `Cell.restores_fails` — a value that does not replace an integer.
-/

namespace Subordination.Core.Resources

open Library

/-- An address at which `new` finds room. -/
abbrev HeapAddress := { p : UInt64 // p ≠ 0 }

/-- A variable of type `Any`. -/
structure Cell where
  /-- `_type`. -/
  type : UInt8
  /-- The eight bytes of the union, as a number. -/
  word : UInt64
  /-- The characters in the buffer at that address, if the variable has a buffer there. -/
  buffer : Option CString
  /-- No buffer has the null address. -/
  ne_zero : buffer.isSome → word ≠ 0
  /-- A string is a null pointer or has a buffer. -/
  isSome_of_string : type = 5 → word ≠ 0 → buffer.isSome

section Cells

variable [ByteOrder]

/-- The first byte of the union in memory, which `_b` is. -/
def firstByte (word : UInt64) : UInt8 := (ByteOrder.host.encode 8 word.toNat).headD 0

/-- The union after its first byte was set. -/
def setFirstByte (word : UInt64) (b : UInt8) : UInt64 :=
  UInt64.ofNat (ByteOrder.host.decode (b :: (ByteOrder.host.encode 8 word.toNat).tail))

theorem firstByte_setFirstByte (word : UInt64) (b : UInt8) : firstByte (setFirstByte word b) = b := by
  let bs := b :: (ByteOrder.host.encode 8 word.toNat).tail
  have hlength : bs.length = 8 := by simp [bs]
  have hlt := Endian.decode_lt ByteOrder.host bs
  have hback := Endian.encode_decode ByteOrder.host bs
  rw [hlength] at hlt hback
  rw [firstByte, setFirstByte, UInt64.toNat_ofNat_of_lt' hlt, hback]
  rfl

namespace Any

/-- A string that is not a null pointer. -/
def isText : Any → Bool
  | .string (some _) => true
  | _ => false

end Any

namespace Cell

/-- The value of the variable. -/
def value (c : Cell) : Any :=
  if c.type = 0 then .boolean (firstByte c.word ≠ 0)
  else if c.type = 4 then .u64 c.word
  else if c.type = 5 then .string c.buffer
  else .unknown c.type

/-- The variable owns a string. -/
def OwnsString (c : Cell) : Prop := c.type = 5 ∧ c.buffer.isSome

instance (c : Cell) : Decidable c.OwnsString := inferInstanceAs (Decidable (_ ∧ _))

/-- A variable that was not initialised: `_type{}`, and a union with anything in it. -/
def garbage (word : UInt64) : Cell := ⟨0, word, none, by simp, by simp⟩

/-- The union is overwritten, and the variable is not a string. A buffer is lost unless its address is still
there. -/
def overwrite (c : Cell) (type : UInt8) (word : UInt64) (h : type ≠ 5) : Cell where
  type := type
  word := word
  buffer := if word = c.word then c.buffer else none
  ne_zero := by
    split
    · next heq => exact fun hsome => heq ▸ c.ne_zero hsome
    · simp
  isSome_of_string := fun h5 => absurd h5 h

/-- The variable is a null string. -/
def nullString : Cell := ⟨5, 0, none, by simp, by simp⟩

/-- The variable is a string in a new buffer. -/
def newString (p : HeapAddress) (s : CString) : Cell := ⟨5, p.1, some s, fun _ => p.2, fun _ _ => rfl⟩

/-- `if (this->_string) { delete[] this->_string; … }`, and whether that has released a buffer. -/
def release (c : Cell) : ReadM Bool :=
  if c.word = 0 then pure false
  else if c.buffer.isSome then pure true
  else throw (.foreign "delete[] of a pointer to no buffer")

/-- `Any::read`, and whether it has released a buffer. -/
def read (p : HeapAddress) (c : Cell) : ReadM (Cell × Bool) := do
  let type ← readU8
  if type = 0 then
    let b ← readU8
    return (c.overwrite 0 (setFirstByte c.word b) (by decide), false)
  else if type = 4 then
    let n ← readU64
    return (c.overwrite 4 n (by decide), false)
  else if h : type = 5 then
    let n ← readInt 4
    if n = 2 ^ 32 - 1 then return (nullString, false)
    else
      let released ← c.release
      let s ← readBytes n
      return (newString p (CString.ofBytes s), released)
  else return (c.overwrite type c.word h, false)

/-- What is in the variable after a value was read. -/
def after (p : HeapAddress) (c : Cell) : Any → Cell
  | .boolean b => c.overwrite 0 (setFirstByte c.word (if b then 1 else 0)) (by decide)
  | .u64 n => c.overwrite 4 n (by decide)
  | .string none => nullString
  | .string (some s) => newString p s
  | .unknown t => if h : t = 5 then c else c.overwrite t c.word h

/-- The old bytes can be given to `delete[]` if they are. -/
def CanTake (c : Cell) (v : Any) : Prop := v.isText → c.word ≠ 0 → c.buffer.isSome

/-- Reading the value releases a buffer. -/
def releases (c : Cell) (v : Any) : Bool := v.isText && c.word ≠ 0

/-! ### What reading does -/

theorem value_overwrite_boolean (c : Cell) (b : UInt8) :
    (c.overwrite 0 (setFirstByte c.word b) (by decide)).value = .boolean (b ≠ 0) := by
  simp [value, overwrite, firstByte_setFirstByte]

/-- The variable has the value that was read. -/
theorem value_after (p : HeapAddress) (c : Cell) {v : Any} (h : v.Fits) : (c.after p v).value = v := by
  cases v with
  | boolean b =>
    rw [after, value_overwrite_boolean]
    cases b <;> rfl
  | u64 n => rfl
  | string s => cases s <;> rfl
  | unknown t =>
    have hnames : t ≠ 0 ∧ t ≠ 4 ∧ t ≠ 5 := h
    simp [after, value, overwrite, hnames]

omit [ByteOrder] in
theorem release_eq {c : Cell} {v : Any} (htext : v.isText = true) (h : c.CanTake v) :
    c.release = pure (c.releases v) := by
  by_cases hzero : c.word = 0
  · simp [release, releases, hzero]
  · simp [release, releases, hzero, htext, h htext hzero]

omit [ByteOrder] in
/-- What `delete[]` was given. -/
theorem release_ok {c : Cell} {released : Bool} {w w' : List UInt8} (h : c.release w = .ok released w') :
    w' = w ∧ released = decide (c.word ≠ 0) ∧ (c.word ≠ 0 → c.buffer.isSome) := by
  rw [release] at h
  split at h
  · next hzero =>
    cases h
    exact ⟨rfl, by simp [hzero], fun hne => absurd hzero hne⟩
  · next hne =>
    split at h
    · next hsome =>
      cases h
      exact ⟨rfl, by simp [hne], fun _ => hsome⟩
    · cases h

/-- What is read after the type byte of a string. -/
theorem read_string (p : HeapAddress) (c : Cell) (n : ℕ) (rest : List UInt8) :
    c.read p (u8Bytes 5 ++ (intBytes 4 n ++ rest)) =
      (if n % 256 ^ 4 = 2 ^ 32 - 1 then pure (nullString, false)
        else c.release >>= fun released => readBytes (n % 256 ^ 4) >>= fun s =>
          pure (newString p (CString.ofBytes s), released) : ReadM (Cell × Bool)) rest := by
  unfold read
  rw [(reads_u8 5).bind_apply]
  exact (reads_int_mod 4 n).bind_apply rest

/-- **A value is read into a variable that can take it.** -/
theorem reads (p : HeapAddress) {c : Cell} {v : Any} (hfits : v.Fits) (htake : c.CanTake v) :
    Reads (c.read p) v.bytes (c.after p v, c.releases v) := by
  cases v with
  | boolean b => exact (reads_u8 0).bind ((reads_u8 _).bindPure rfl)
  | u64 n => exact (reads_u8 4).bind ((reads_u64 n).bindPure rfl)
  | string s =>
    cases s with
    | none =>
      intro rest
      have hread := c.read_string p (2 ^ 32 - 1) rest
      rw [if_pos (by decide)] at hread
      rw [Any.bytes, List.append_assoc]
      exact hread
    | some s =>
      intro rest
      have hlt : s.1.length < 2 ^ 32 - 1 := hfits
      rw [Any.bytes, Nat.mod_eq_of_lt (by omega), List.take_length, List.append_assoc, List.append_assoc,
        read_string, Nat.mod_eq_of_lt (by omega), if_neg (by omega), release_eq rfl htake, pure_bind,
        (reads_bytes s.1).bind_apply, Any.ofBytes_eq]
      rfl
  | unknown t =>
    obtain ⟨h0, h4, h5⟩ : t ≠ 0 ∧ t ≠ 4 ∧ t ≠ 5 := hfits
    intro rest
    unfold read
    rw [Any.bytes, (reads_u8 t).bind_apply, if_neg h0, if_neg h4, dif_neg h5, after, dif_neg h5]
    rfl

/-- **What reading has done**: `Any.read`, to a variable that could take what it returned. -/
theorem read_ok {p : HeapAddress} {c c' : Cell} {released : Bool} {w w' : List UInt8}
    (h : c.read p w = .ok (c', released) w') :
    Any.read w = .ok c'.value w' ∧ released = c.releases c'.value ∧ c.CanTake c'.value := by
  obtain ⟨type, w₁, htype, h⟩ := bind_ok h
  by_cases h0 : type = 0
  · subst h0
    obtain ⟨b, w₂, hb, h⟩ := bind_ok h
    cases h
    rw [value_overwrite_boolean]
    exact ⟨bind_eq_ok htype (bind_eq_ok hb rfl), rfl, nofun⟩
  rw [if_neg h0] at h
  by_cases h4 : type = 4
  · subst h4
    obtain ⟨n, w₂, hn, h⟩ := bind_ok h
    cases h
    exact ⟨bind_eq_ok htype (bind_eq_ok hn rfl), rfl, nofun⟩
  rw [if_neg h4] at h
  by_cases h5 : type = 5
  · subst h5
    obtain ⟨n, w₂, hn, h⟩ := bind_ok h
    by_cases hnull : n = 2 ^ 32 - 1
    · rw [if_pos hnull] at h
      cases h
      refine ⟨bind_eq_ok htype (bind_eq_ok hn ?_), rfl, nofun⟩
      rw [if_pos hnull]
      rfl
    · rw [if_neg hnull] at h
      obtain ⟨released', w₃, hrelease, h⟩ := bind_ok h
      obtain ⟨s, w₄, hs, h⟩ := bind_ok h
      cases h
      obtain ⟨rfl, rfl, hsome⟩ := release_ok hrelease
      refine ⟨bind_eq_ok htype (bind_eq_ok hn ?_), (Bool.true_and _).symm, fun _ => hsome⟩
      rw [if_neg hnull]
      exact bind_eq_ok hs rfl
  · rw [dif_neg h5] at h
    cases h
    have hvalue : (c.overwrite type c.word h5).value = .unknown type := by
      simp [value, overwrite, h0, h4, h5]
    rw [hvalue]
    refine ⟨bind_eq_ok htype ?_, rfl, nofun⟩
    rw [if_neg h0, if_neg h4, if_neg h5]
    rfl

/-- What a variable that can take the value is read into is the variable that `after` says. -/
theorem read_bytes_ok {p : HeapAddress} {c c' : Cell} {v : Any} {released : Bool} {rest w : List UInt8}
    (h : c.read p (v.bytes ++ rest) = .ok (c', released) w) (hv : c'.value = v) :
    v.Fits ∧ c.CanTake v ∧ c' = c.after p v ∧ released = c.releases v ∧ w = rest := by
  obtain ⟨hread, -, htake⟩ := read_ok h
  rw [hv] at hread htake
  have hfits := Any.fits_of_read hread
  have hsame := (reads p hfits htake rest).symm.trans h
  cases hsame
  exact ⟨hfits, htake, rfl, rfl, rfl⟩

/-- Reading the value makes the variable equal to it, and releases a buffer if and only if the variable owned a
string. -/
def Restores (p : HeapAddress) (c : Cell) (v : Any) : Prop :=
  ∀ rest, ∃ c' released, c.read p (v.bytes ++ rest) = .ok (c', released) rest ∧ c'.value.eq v = true ∧
    (released = true ↔ c.OwnsString)

/-- The value is one of a known type that can be written, and a string meets an owned string or zero bytes,
anything else no owned string. -/
def Suits (c : Cell) (v : Any) : Prop :=
  v.Known ∧ v.Fits ∧ (c.OwnsString ↔ v.isText = true ∧ c.word ≠ 0)

omit [ByteOrder] in
theorem Suits.canTake {c : Cell} {v : Any} (h : c.Suits v) : c.CanTake v := fun htext hne =>
  (h.2.2.2 ⟨htext, hne⟩).2

omit [ByteOrder] in
theorem releases_iff {c : Cell} {v : Any} : c.releases v = true ↔ v.isText = true ∧ c.word ≠ 0 := by
  simp [releases]

omit [ByteOrder] in
/-- What is read into a variable that was not initialised. -/
theorem suits_garbage_iff {word : UInt64} {v : Any} :
    (garbage word).Suits v ↔ v.Known ∧ v.Fits ∧ (garbage word).CanTake v := by
  simp [Suits, CanTake, OwnsString, garbage]

theorem restores_of_suits {p : HeapAddress} {c : Cell} {v : Any} (h : c.Suits v) : c.Restores p v := fun rest =>
  ⟨c.after p v, c.releases v, reads p h.2.1 h.canTake rest, by rw [value_after p c h.2.1, Any.eq_iff]; exact ⟨rfl, h.1⟩,
    releases_iff.trans h.2.2.symm⟩

theorem suits_of_restores {p : HeapAddress} {c : Cell} {v : Any} (h : c.Restores p v) : c.Suits v := by
  obtain ⟨c', released, hread, heq, hreleased⟩ := h []
  obtain ⟨hvalue, hknown⟩ := Any.eq_iff.1 heq
  obtain ⟨hfits, -, -, rfl, -⟩ := read_bytes_ok hread hvalue
  exact ⟨hknown, hfits, hreleased.symm.trans releases_iff⟩

end Cell

/-! ### Bindings in memory -/

namespace Bindings

/-- `Bindings::write(byte_buffer&)`. -/
def bytes (b : Bindings) : List UInt8 :=
  (List.finRange numResources).flatMap (fun r => (b.data r).bytes) ++
    (intBytes 4 b.symbols.entries.length ++ b.symbols.entries.flatMap fun x => stringBytes x.1 ++ x.2.bytes)

omit [ByteOrder] in
/-- Bindings are equal when their values are, and of known types. -/
theorem eq_iff {a b : Bindings} : a.eq b = true ↔ (∀ r, (a.data r).eq (b.data r) = true) ∧
    (∀ s, a.symbols.lookup s = b.symbols.lookup s) ∧ ∀ s v, b.symbols.lookup s = some v → v.Known := by
  have hdata : (List.finRange numResources).all (fun r => (a.data r).eq (b.data r)) = true ↔
      ∀ r, (a.data r).eq (b.data r) = true := by simp
  rw [eq, Bool.and_eq_true, hdata, Bool.and_eq_true, List.isPerm_iff, List.all_eq_true]
  refine and_congr_right fun _ => ⟨?_, ?_⟩
  · rintro ⟨hperm, hnames⟩
    have hmem : ∀ s, s ∈ a.symbols ↔ s ∈ b.symbols := fun s => hperm.mem_iff
    have hsome : ∀ s v, b.symbols.lookup s = some v → a.symbols.lookup s = some v ∧ v.Known := by
      intro s v hv
      have hs : s ∈ a.symbols := (hmem s).2 (AList.lookup_isSome.1 (by rw [hv]; rfl))
      obtain ⟨u, hu⟩ := Option.isSome_iff_exists.1 (AList.lookup_isSome.2 hs)
      have hname := hnames s hs
      rw [name, name, hu, hv] at hname
      obtain ⟨heq, hknown⟩ := Any.eq_iff.1 hname
      have huv : u = v := heq
      exact ⟨huv ▸ hu, hknown⟩
    refine ⟨fun s => ?_, fun s v hv => (hsome s v hv).2⟩
    cases hv : b.symbols.lookup s with
    | some v => exact (hsome s v hv).1
    | none => exact AList.lookup_eq_none.2 fun h => AList.lookup_eq_none.1 hv ((hmem s).1 h)
  · rintro ⟨hlookup, hknown⟩
    have hmem : ∀ s, s ∈ a.symbols.keys ↔ s ∈ b.symbols.keys := fun s => by
      rw [← AList.mem_keys, ← AList.mem_keys, ← AList.lookup_isSome, ← AList.lookup_isSome, hlookup]
    refine ⟨(List.perm_ext_iff_of_nodup a.symbols.keys_nodup b.symbols.keys_nodup).2 hmem, fun s hs => ?_⟩
    obtain ⟨v, hv⟩ := Option.isSome_iff_exists.1 (AList.lookup_isSome.2 ((hmem s).1 hs))
    rw [name, name, hlookup, hv]
    exact Any.eq_iff.2 ⟨rfl, hknown s v hv⟩

end Bindings

/-- An object of type `Bindings`. The values of the names are never read into: a reader makes new ones. -/
structure BindingCells where
  /-- `_data`. -/
  data : Fin numResources → Cell
  /-- `_symbols`. -/
  symbols : AList fun _ : List UInt8 => Any

namespace BindingCells

/-- The values. -/
def value (c : BindingCells) : Bindings := ⟨fun r => (c.data r).value, c.symbols⟩

/-- The loop of `Bindings::read` over the array, and the resources whose buffers it has released. -/
def readData (alloc : Fin numResources → HeapAddress) : List (Fin numResources) → (Fin numResources → Cell) →
    ReadM ((Fin numResources → Cell) × List (Fin numResources))
  | [], data => pure (data, [])
  | r :: rs, data => do
    let (c, released) ← (data r).read (alloc r)
    let (data, rest) ← readData alloc rs (Function.update data r c)
    pure (data, if released then r :: rest else rest)

/-- A round of the loop of `Bindings::read` over the names: the value is read into a local variable. The state
counts the rounds. -/
def readSymbol (alloc : ℕ → HeapAddress) (rubbish : ℕ → UInt64) (i : ℕ) : ReadM (List UInt8 × Any × ℕ) := do
  let key ← readString
  let (value, _) ← (Cell.garbage (rubbish i)).read (alloc i)
  pure (key, value.value, i + 1)

/-- `Bindings::read`, and the resources whose buffers it has released. The buffers of the old names go with the
names. -/
def read (alloc : Fin numResources → HeapAddress) (alloc' : ℕ → HeapAddress) (rubbish : ℕ → UInt64)
    (c : BindingCells) : ReadM (BindingCells × List (Fin numResources)) := do
  let (data, released) ← readData alloc (List.finRange numResources) c.data
  let nsymbols ← readInt 4
  let symbols ← readEntries (readSymbol alloc' rubbish) nsymbols 0 ∅
  pure (⟨data, symbols⟩, released)

variable {alloc : Fin numResources → HeapAddress} {alloc' : ℕ → HeapAddress} {rubbish : ℕ → UInt64}

/-- The values are read into the variables that can take them, and the others stay. -/
theorem reads_data {v : Fin numResources → Any} {rs : List (Fin numResources)} (hrs : rs.Nodup)
    {data : Fin numResources → Cell} (h : ∀ r ∈ rs, (v r).Fits ∧ (data r).CanTake (v r)) :
    ∃ data', Reads (readData alloc rs data) (rs.flatMap fun r => (v r).bytes)
        (data', rs.filter fun r => (data r).releases (v r)) ∧
      (∀ s ∈ rs, data' s = (data s).after (alloc s) (v s)) ∧ ∀ s ∉ rs, data' s = data s := by
  induction rs generalizing data with
  | nil => exact ⟨data, fun _ => rfl, fun s hs => absurd hs List.not_mem_nil, fun _ _ => rfl⟩
  | cons r rs ih =>
    obtain ⟨hr, hrs⟩ := List.nodup_cons.1 hrs
    obtain ⟨hfits, htake⟩ := h r List.mem_cons_self
    have hother : ∀ s ∈ rs, Function.update data r ((data r).after (alloc r) (v r)) s = data s := fun s hs =>
      Function.update_of_ne (ne_of_mem_of_not_mem hs hr) _ _
    obtain ⟨data', hread, hin, hout⟩ := @ih hrs (Function.update data r ((data r).after (alloc r) (v r)))
      fun s hs => by
        rw [hother s hs]
        exact h s (List.mem_cons_of_mem r hs)
    have hreleased : rs.filter (fun s => (Function.update data r ((data r).after (alloc r) (v r)) s).releases (v s)) =
        rs.filter fun s => (data s).releases (v s) :=
      List.filter_congr fun s hs => by rw [hother s hs]
    refine ⟨data', ?_, fun s hs => ?_, fun s hs => ?_⟩
    · rw [List.flatMap_cons]
      refine (Cell.reads (alloc r) hfits htake).bind (hread.bindPure ?_)
      show pure (_, _) = pure (_, _)
      rw [hreleased, List.filter_cons]
    · rcases List.mem_cons.1 hs with rfl | hs
      · rw [hout s hr, Function.update_self]
      · rw [hin s hs, hother s hs]
    · obtain ⟨hne, hs⟩ : s ≠ r ∧ s ∉ rs := by simpa using hs
      rw [hout s hs, Function.update_of_ne hne]

/-- All values are read into the variables that can take them. -/
theorem reads_all_data {v : Fin numResources → Any} {data : Fin numResources → Cell}
    (h : ∀ r, (v r).Fits ∧ (data r).CanTake (v r)) :
    Reads (readData alloc (List.finRange numResources) data) ((List.finRange numResources).flatMap fun r => (v r).bytes)
      (fun r => (data r).after (alloc r) (v r),
        (List.finRange numResources).filter fun r => (data r).releases (v r)) := by
  obtain ⟨data', hread, hin, -⟩ := @reads_data _ alloc v _ (List.nodup_finRange numResources) data fun r _ => h r
  rwa [funext fun r => hin r (List.mem_finRange r)] at hread

/-- The loop leaves the other variables as they are. -/
theorem data_of_not_mem {rs : List (Fin numResources)} {data data' : Fin numResources → Cell}
    {released : List (Fin numResources)} {w w' : List UInt8} (h : readData alloc rs data w = .ok (data', released) w')
    {r : Fin numResources} (hr : r ∉ rs) : data' r = data r := by
  induction rs generalizing data released w with
  | nil =>
    cases h
    rfl
  | cons s rs ih =>
    rw [List.mem_cons, not_or] at hr
    obtain ⟨⟨c, b⟩, w₁, -, h⟩ := bind_ok h
    obtain ⟨⟨data₁, rest⟩, w₂, hrest, h⟩ := bind_ok h
    cases h
    rw [ih hrest hr.2, Function.update_of_ne hr.1]

/-- Variables that have the values that were written could take them. -/
theorem canTake_of_data {v : Fin numResources → Any} {rs : List (Fin numResources)} (hrs : rs.Nodup)
    {data data' : Fin numResources → Cell} {released : List (Fin numResources)} {rest w : List UInt8}
    (h : readData alloc rs data ((rs.flatMap fun r => (v r).bytes) ++ rest) = .ok (data', released) w)
    (hv : ∀ r ∈ rs, (data' r).value = v r) : ∀ r ∈ rs, (v r).Fits ∧ (data r).CanTake (v r) := by
  induction rs generalizing data released with
  | nil => simp
  | cons r rs ih =>
    obtain ⟨hr, hrs⟩ := List.nodup_cons.1 hrs
    rw [List.flatMap_cons, List.append_assoc] at h
    obtain ⟨⟨c, b⟩, w₁, hread, h⟩ := bind_ok h
    obtain ⟨⟨data₁, rest'⟩, w₂, hrest, h⟩ := bind_ok h
    cases h
    -- the other variables do not change what was read first
    have hc : c.value = v r := by
      rw [← hv r List.mem_cons_self, data_of_not_mem hrest hr, Function.update_self]
    obtain ⟨hfits, htake, -, -, rfl⟩ := Cell.read_bytes_ok hread hc
    intro s hs
    rcases List.mem_cons.1 hs with rfl | hs
    · exact ⟨hfits, htake⟩
    · have hs' := ih hrs hrest (fun s hs => hv s (List.mem_cons_of_mem r hs)) s hs
      rwa [Function.update_of_ne (ne_of_mem_of_not_mem hs hr)] at hs'

/-- A name and its value, as they are written. -/
def symbolBytes (x : Σ _ : List UInt8, Any) : List UInt8 := stringBytes x.1 ++ x.2.bytes

/-- The name is short enough for its length, and the value fits a variable that was not initialised. -/
def SymbolSuits (word : UInt64) (x : Σ _ : List UInt8, Any) : Prop :=
  x.1.length < 2 ^ 64 ∧ x.2.Fits ∧ (Cell.garbage word).CanTake x.2

/-- What a round has done. -/
theorem readSymbol_ok {i i' : ℕ} {k : List UInt8} {v : Any} {w w' : List UInt8}
    (h : readSymbol alloc' rubbish i w = .ok (k, v, i') w') :
    ∃ w₁, readString w = .ok k w₁ ∧ ∃ c released,
      (Cell.garbage (rubbish i)).read (alloc' i) w₁ = .ok (c, released) w' ∧ v = c.value ∧ i' = i + 1 := by
  obtain ⟨key, w₁, hkey, h⟩ := bind_ok h
  obtain ⟨⟨c, released⟩, w₂, hc, h⟩ := bind_ok h
  cases h
  exact ⟨w₁, hkey, c, released, hc, rfl, rfl⟩

/-- A name that is short enough is read as itself. -/
theorem name_of_readSymbol {i i' : ℕ} {x : Σ _ : List UInt8, Any} (hx : x.1.length < 2 ^ 64) {k : List UInt8}
    {v : Any} {rest w : List UInt8}
    (h : readSymbol alloc' rubbish i (symbolBytes x ++ rest) = .ok (k, v, i') w) : k = x.1 := by
  obtain ⟨w₁, hkey, -⟩ := readSymbol_ok h
  rw [symbolBytes, List.append_assoc, reads_string hx] at hkey
  cases hkey
  rfl

theorem readsEntry_symbol {i : ℕ} {x : Σ _ : List UInt8, Any} (h : SymbolSuits (rubbish i) x) :
    ReadsEntry (readSymbol alloc' rubbish) symbolBytes Eq i x (i + 1) := by
  obtain ⟨hlength, hfits, htake⟩ := h
  have hread : Reads (readSymbol alloc' rubbish i) (symbolBytes x)
      (x.1, ((Cell.garbage (rubbish i)).after (alloc' i) x.2).value, i + 1) :=
    (reads_string hlength).bind ((Cell.reads (alloc' i) hfits htake).bindPure rfl)
  exact fun rest => ⟨_, hread rest, Cell.value_after _ _ hfits⟩

/-- A name that is read with its value is read as what it was written from. -/
theorem symbolSuits_of_ok {i i' : ℕ} {x : Σ _ : List UInt8, Any} {rest w : List UInt8}
    (h : readSymbol alloc' rubbish i (symbolBytes x ++ rest) = .ok (x.1, x.2, i') w) :
    SymbolSuits (rubbish i) x ∧ i' = i + 1 := by
  obtain ⟨w₁, hkey, c, released, hc, hvalue, rfl⟩ := readSymbol_ok h
  have hlength := length_of_readString hkey
  rw [symbolBytes, List.append_assoc, reads_string hlength] at hkey
  cases hkey
  obtain ⟨hfits, htake, -⟩ := Cell.read_bytes_ok hc hvalue.symm
  exact ⟨⟨hlength, hfits, htake⟩, rfl⟩

/-- The entries are read one by one if and only if they suit the variables. -/
theorem readsEntries_symbol_iff {i : ℕ} {xs : List (Σ _ : List UInt8, Any)} :
    ReadsEntries (readSymbol alloc' rubbish) symbolBytes Eq i xs ↔
      ∀ j x, xs[j]? = some x → SymbolSuits (rubbish (i + j)) x := by
  induction xs generalizing i with
  | nil => exact iff_of_true .nil (by simp)
  | cons x xs ih =>
    constructor
    · rintro (_ | ⟨hentry, hrest⟩) j y hj
      obtain ⟨v, hv, rfl⟩ := hentry []
      obtain ⟨hsuits, rfl⟩ := symbolSuits_of_ok hv
      cases j with
      | zero =>
        obtain rfl : x = y := by simpa using hj
        exact hsuits
      | succ j =>
        have hy := ih.1 hrest j y (by simpa using hj)
        rwa [Nat.add_assoc, Nat.add_comm 1] at hy
    · intro h
      refine .cons (readsEntry_symbol (h 0 x rfl)) (ih.2 fun j y hj => ?_)
      have hy := h (j + 1) y (by simpa using hj)
      rwa [← Nat.add_assoc, Nat.add_right_comm] at hy

/-- The bindings are restored, and exactly the buffers of strings in the array are released. -/
def Restores (alloc : Fin numResources → HeapAddress) (alloc' : ℕ → HeapAddress) (rubbish : ℕ → UInt64)
    (c : BindingCells) (b : Bindings) : Prop :=
  ∀ rest, ∃ c' released, c.read alloc alloc' rubbish (b.bytes ++ rest) = .ok (c', released) rest ∧
    c'.value.eq b = true ∧ ∀ r, r ∈ released ↔ (c.data r).OwnsString

/-- Every value suits the variable that it is read into. -/
structure Suits (rubbish : ℕ → UInt64) (c : BindingCells) (b : Bindings) : Prop where
  /-- The resources are read into the elements of the array. -/
  data : ∀ r, (c.data r).Suits (b.data r)
  /-- The number of names fits its 32 bits. -/
  length : b.symbols.entries.length < 2 ^ 32
  /-- The names are short enough. -/
  names : ∀ x ∈ b.symbols.entries, x.1.length < 2 ^ 64
  /-- The values of the names are read into local variables. -/
  symbols : ∀ i x, b.symbols.entries[i]? = some x → (Cell.garbage (rubbish i)).Suits x.2

/-- Every value can be read into its variable. -/
structure Takes (rubbish : ℕ → UInt64) (c : BindingCells) (b : Bindings) : Prop where
  /-- The resources are read into the elements of the array. -/
  data : ∀ r, (b.data r).Known ∧ (b.data r).Fits ∧ (c.data r).CanTake (b.data r)
  /-- The number of names fits its 32 bits. -/
  length : b.symbols.entries.length < 2 ^ 32
  /-- The values of the names are of known types. -/
  known : ∀ x ∈ b.symbols.entries, x.2.Known
  /-- The names and their values are read into local variables. -/
  symbols : ∀ i x, b.symbols.entries[i]? = some x → SymbolSuits (rubbish i) x

/-- The object after bindings were read. -/
def after (alloc : Fin numResources → HeapAddress) (c : BindingCells) (b : Bindings) : BindingCells where
  data r := (c.data r).after (alloc r) (b.data r)
  symbols := b.symbols.entries.foldl (fun m x => emplace m x.1 x.2) ∅

theorem Takes.readsEntries {c : BindingCells} {b : Bindings} (h : c.Takes rubbish b) (alloc' : ℕ → HeapAddress) :
    ReadsEntries (readSymbol alloc' rubbish) symbolBytes Eq 0 b.symbols.entries := by
  refine readsEntries_symbol_iff.2 fun j x hj => ?_
  rw [Nat.zero_add]
  exact h.symbols j x hj

/-- **Bindings are read into an object that can take them**, and buffers are released. -/
theorem reads_of_takes {c : BindingCells} {b : Bindings} (h : c.Takes rubbish b) :
    Reads (c.read alloc alloc' rubbish) b.bytes
      (c.after alloc b, (List.finRange numResources).filter fun r => (c.data r).releases (b.data r)) := by
  intro rest
  have hdata : Reads (readData alloc (List.finRange numResources) c.data) _ _ := reads_all_data fun r => (h.data r).2
  rw [Bindings.bytes, List.append_assoc, List.append_assoc]
  refine bind_eq_ok (hdata _) (bind_eq_ok (reads_int h.length _)
    (bind_eq_ok (reads_entries_eq (h.readsEntries alloc') ∅ rest) ?_))
  simp [after]
  rfl

theorem value_after_eq {c : BindingCells} {b : Bindings} (h : c.Takes rubbish b) :
    (c.after alloc b).value.eq b = true := by
  refine Bindings.eq_iff.2 ⟨fun r => ?_, (h.readsEntries fun _ => ⟨1, by decide⟩).lookup_foldl,
    fun s v hv => h.known ⟨s, v⟩ (AList.mem_lookup_iff.1 hv)⟩
  exact Any.eq_iff.2 ⟨Cell.value_after _ _ (h.data r).2.1, (h.data r).1⟩

/-- **Bindings that are read back could be taken.** -/
theorem takes_of_ok {c c' : BindingCells} {b : Bindings} {released : List (Fin numResources)} {rest w : List UInt8}
    (h : c.read alloc alloc' rubbish (b.bytes ++ rest) = .ok (c', released) w) (heq : c'.value.eq b = true) :
    c.Takes rubbish b := by
  obtain ⟨hvalues, hlookup, hknown⟩ := Bindings.eq_iff.1 heq
  rw [Bindings.bytes, List.append_assoc, List.append_assoc] at h
  obtain ⟨⟨data, released'⟩, w₁, hdata, h⟩ := bind_ok h
  obtain ⟨n, w₂, hn, h⟩ := bind_ok h
  obtain ⟨symbols, w₃, hsymbols, h⟩ := bind_ok h
  cases h
  -- the array
  have htake := canTake_of_data (List.nodup_finRange numResources) hdata fun r _ => (Any.eq_iff.1 (hvalues r)).1
  have hsame := (reads_all_data (fun r => htake r (List.mem_finRange r)) _).symm.trans hdata
  cases hsame
  -- the number of names: there are no fewer than were written
  rw [reads_int_mod] at hn
  cases hn
  replace hlookup : ∀ s, symbols.lookup s = b.symbols.lookup s := hlookup
  have hkeys : ∀ s, s ∈ symbols ↔ s ∈ b.symbols := fun s => by
    rw [← AList.lookup_isSome, ← AList.lookup_isSome, hlookup s]
  have hlength : b.symbols.entries.length < 2 ^ 32 := length_lt_of_readEntries hsymbols hkeys
  rw [Nat.mod_eq_of_lt (show b.symbols.entries.length < 256 ^ 4 from hlength)] at hsymbols
  -- the names
  have hentries : ReadsEntries (readSymbol alloc' rubbish) symbolBytes Eq 0 b.symbols.entries := by
    refine readsEntries_of_ok (fun k _ => ¬ k.length < 2 ^ 64) (fun ha hok => ⟨?_, ha⟩)
      (fun hok hne hlt => hne (name_of_readSymbol hlt hok)) (fun hok hsame => ?_) b.symbols.nodupKeys
      (fun _ _ => AList.notMem_empty _) hsymbols fun x hx =>
        ⟨x.2, (hlookup x.1).trans (AList.mem_lookup_iff.2 hx), rfl⟩
    · rintro rfl
      exact ha (length_of_readString (readSymbol_ok hok).choose_spec.1)
    · subst hsame
      obtain ⟨hsuits, rfl⟩ := symbolSuits_of_ok hok
      exact readsEntry_symbol hsuits
  have hsuits := readsEntries_symbol_iff.1 hentries
  refine ⟨fun r => ⟨(Any.eq_iff.1 (hvalues r)).2, htake r (List.mem_finRange r)⟩, hlength,
    fun x hx => hknown x.1 x.2 (AList.mem_lookup_iff.2 hx), fun i x hx => ?_⟩
  have hsuit := hsuits i x hx
  rwa [Nat.zero_add] at hsuit

omit [ByteOrder] in
theorem Suits.takes {c : BindingCells} {b : Bindings} (h : c.Suits rubbish b) : c.Takes rubbish b where
  data r := ⟨(h.data r).1, (h.data r).2.1, (h.data r).canTake⟩
  length := h.length
  known x hx := by
    obtain ⟨i, hi⟩ := List.getElem?_of_mem hx
    exact (h.symbols i x hi).1
  symbols i x hx :=
    ⟨h.names x (List.mem_of_getElem? hx), (h.symbols i x hx).2.1, (h.symbols i x hx).canTake⟩

theorem restores_of_suits {c : BindingCells} {b : Bindings} (h : c.Suits rubbish b) :
    c.Restores alloc alloc' rubbish b := by
  refine fun rest => ⟨_, _, reads_of_takes h.takes rest, value_after_eq h.takes, fun r => ?_⟩
  rw [List.mem_filter]
  exact (and_iff_right (List.mem_finRange r)).trans (Cell.releases_iff.trans (h.data r).2.2.symm)

theorem suits_of_restores {c : BindingCells} {b : Bindings} (h : c.Restores alloc alloc' rubbish b) :
    c.Suits rubbish b := by
  obtain ⟨c', released, hread, heq, hreleased⟩ := h []
  have htakes := takes_of_ok hread heq
  have hsame := (reads_of_takes htakes []).symm.trans hread
  cases hsame
  refine ⟨fun r => ⟨(htakes.data r).1, (htakes.data r).2.1, ?_⟩, htakes.length, fun x hx => ?_, fun i x hx => ?_⟩
  · rw [← hreleased r, List.mem_filter, and_iff_right (List.mem_finRange r), Cell.releases_iff]
  · obtain ⟨i, hi⟩ := List.getElem?_of_mem hx
    exact (htakes.symbols i x hi).1
  · exact Cell.suits_garbage_iff.2 ⟨htakes.known x (List.mem_of_getElem? hx), (htakes.symbols i x hx).2⟩

end BindingCells

/-- **A value replaces the old content of a variable**, and a buffer is released if and only if the variable owned
a string, exactly when the value suits the variable; bindings are read the same way, element by element. -/
theorem restores_iff :
    (∀ (p : HeapAddress) (c : Cell) (v : Any), c.Restores p v ↔ c.Suits v) ∧
      ∀ (alloc : Fin numResources → HeapAddress) (alloc' : ℕ → HeapAddress) (rubbish : ℕ → UInt64)
        (c : BindingCells) (b : Bindings), c.Restores alloc alloc' rubbish b ↔ c.Suits rubbish b :=
  ⟨fun _ _ _ => ⟨Cell.suits_of_restores, Cell.restores_of_suits⟩,
    fun _ _ _ _ _ => ⟨BindingCells.suits_of_restores, BindingCells.restores_of_suits⟩⟩

end Cells

/-- **An integer is not replaced by a string**: its bytes are given to `delete[]`. -/
theorem Cell.restores_fails :
    letI := ByteOrder.littleEndian
    ¬ Cell.Restores ⟨4096, by decide⟩ ((garbage 0).overwrite 4 10 (by decide)) (.string (some ⟨[97], by decide⟩)) := by
  let _ := ByteOrder.littleEndian
  intro h
  obtain ⟨c', released, hread, -⟩ := h []
  cases hread

end Subordination.Core.Resources
