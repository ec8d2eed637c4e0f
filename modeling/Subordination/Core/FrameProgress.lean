import Subordination.Core.Recovery
import Subordination.Library.Loops

/-!
# The progress of the loops over frames

`connection::receive_kernels` and the inner loop of `transaction_log::read_records` take frames from a
buffer one after another (`core/connection.cc`, `core/transaction_log.cc`, `core/kernel_buffer.cc`). How far
a turn gets is what the frame itself says.

## The model

`drainFrames` is both loops; `drainTurn` is one turn of it. A frame that announces less than a header moves
the limit of the buffer to where the header starts or ends, so that what is decoded in it is not bounded by
the frame, and the destructor of the guard then puts the position there: not past the header, or not
forward at all.

What decodes a frame throws for some of them, whatever the state is. `receive_kernels` catches all
exceptions, `read_records` none.

## What is proved

* `drainTurn_*` — the turns over the three kinds of frames.
* `progresses_iff` — when a loop over frames ends with every turn past a header.
* `frames_progress_iff` — what this means for the two loops.
* `drainFrames_of_zero` — a frame that announces nothing is handled again and again.
-/

namespace Subordination.Core

open Library

section Turns

variable {σ : Type} [ByteOrder] (handle : List UInt8 → EStateM Exception σ Unit)

/-- What `drainFrames` does in one turn, unless it is left. -/
def drainTurn : ByteBuffer × σ → Option (ByteBuffer × σ)
  | (b, s) =>
    if b.remaining < 4 then none
    else
      match openFrame b with
      | none => none
      | some opened =>
        match handle opened.readable s with
        | .ok _ s => some (skipFrame b opened, s)
        | .error _ _ => none

/-- The turn goes past a header. -/
def PastHeader (x y : ByteBuffer × σ) : Prop := x.1.position + 4 ≤ y.1.position

/-- **The loop progresses**: it ends, and every turn until then goes past a header. -/
def DrainProgresses (b : ByteBuffer) (s : σ) : Prop := Loop.Progresses (drainTurn handle) PastHeader (b, s)

/-- The loop is left within so many turns if and only if that much fuel suffices. -/
theorem drainFrames_isSome (n : ℕ) (b : ByteBuffer) (s : σ) :
    (drainFrames handle n b s).isSome = true ↔ Loop.EndsWithin (drainTurn handle) n (b, s) := by
  induction n generalizing b s with
  | zero => simp [drainFrames, Loop.EndsWithin]
  | succ n ih =>
    rw [drainFrames, Loop.EndsWithin]
    by_cases hr : b.remaining < 4
    · have hturn : drainTurn handle (b, s) = none := if_pos hr
      simp [hr, hturn]
    cases ho : openFrame b with
    | none =>
      have hturn : drainTurn handle (b, s) = none := by simp [drainTurn, hr, ho]
      simp [hr, hturn]
    | some opened =>
      cases hhandle : handle opened.readable s with
      | error e s' =>
        have hturn : drainTurn handle (b, s) = none := by simp [drainTurn, hr, ho, hhandle]
        simp [hr, hturn, hhandle]
      | ok u s' =>
        have hturn : drainTurn handle (b, s) = some (skipFrame b opened, s') := by
          simp [drainTurn, hr, ho, hhandle]
        simp [hr, hturn, hhandle, ih]

variable {handle} {b : ByteBuffer} {s : σ}

/-! ### The three kinds of frames -/

theorem drainTurn_of_part (hv : b.Valid) (h : kernelFraming.Partial b.window) :
    drainTurn handle (b, s) = none := by
  unfold drainTurn
  rcases openFrame_of_partial hv h with hr | ho
  · exact if_pos hr
  · simp [ho]

/-- What the loop finds in a frame that announces less than a header: all that is in store behind the
header. -/
def ByteBuffer.overrun (b : ByteBuffer) : List UInt8 := b.data.drop (b.position + 4)

/-- A frame that announces less than a header is opened, and closed before its header ends. -/
theorem openFrame_of_short (hv : b.Valid) (hstuck : kernelFraming.Stuck b.window)
    (hwhole : ¬ kernelFraming.Partial b.window) :
    kernelFraming.size (b.window.take 4) < 4 ∧ ∃ opened, openFrame b = some opened ∧
      opened.readable = b.overrun ∧
      skipFrame b opened = { b with position := b.position + kernelFraming.size (b.window.take 4) } := by
  have hlong : ¬ b.window.length < 4 := fun h => hwhole (Or.inl h)
  have hshort : kernelFraming.size (b.window.take 4) < 4 := by
    rcases hstuck with h | h | h
    · exact absurd h hlong
    · exact h
    · exact absurd (Or.inr h) hwhole
  have hopen := hv.take_drop_data (Nat.le_of_not_lt hlong)
  refine ⟨hshort, { b with
    position := b.position + 4
    limit := b.position + kernelFraming.size (b.window.take 4) }, ?_, ?_, rfl⟩
  · simp only [openFrame, hopen, hv.remaining_eq]
    rw [if_neg hlong, if_pos (Nat.le_trans (Nat.le_of_lt hshort) (Nat.le_of_not_lt hlong))]
  · rw [ByteBuffer.readable, if_neg (by simpa using hshort)]
    rfl

variable (handle s) in
/-- What is decoded in it is not bounded by it. -/
theorem drainTurn_of_short (hv : b.Valid) (hstuck : kernelFraming.Stuck b.window)
    (hwhole : ¬ kernelFraming.Partial b.window) :
    drainTurn handle (b, s) =
      match handle b.overrun s with
      | .ok _ s => some ({ b with position := b.position + kernelFraming.size (b.window.take 4) }, s)
      | .error _ _ => none := by
  obtain ⟨-, opened, ho, hread, hskip⟩ := openFrame_of_short hv hstuck hwhole
  have hlong : ¬ b.window.length < 4 := fun h => hwhole (Or.inl h)
  rw [drainTurn, if_neg (by rwa [hv.remaining_eq]), ho]
  simp only [hread, hskip]

variable (handle s) in
/-- A whole frame is taken off, and the position goes as far as it announces. -/
theorem drainTurn_of_not_stuck (hv : b.Valid) (h : ¬ kernelFraming.Stuck b.window) :
    ∃ b', b'.Valid ∧ b'.data = b.data ∧ b'.limit = b.limit ∧ b.position + 4 ≤ b'.position ∧
      b'.window = b.window.drop (kernelFraming.size (b.window.take kernelFraming.width)) ∧
      drainTurn handle (b, s) =
        match handle ((b.window.take (kernelFraming.size (b.window.take kernelFraming.width))).drop
          kernelFraming.width) s with
        | .ok _ s => some (b', s)
        | .error _ _ => none := by
  obtain ⟨opened, ho, hread, hv', hw'⟩ := openFrame_of_not_stuck hv h
  have hrem : ¬ b.remaining < 4 := by
    rw [hv.remaining_eq]
    exact fun hlt => h (Or.inl hlt)
  have hopened : opened.data = b.data ∧
      opened.limit = b.position + kernelFraming.size ((b.data.drop b.position).take 4) := by
    unfold openFrame at ho
    rw [if_neg hrem] at ho
    dsimp only at ho
    split_ifs at ho
    cases ho
    exact ⟨rfl, rfl⟩
  simp only [Framing.Stuck, not_or, Nat.not_lt] at h
  have hsize : 4 ≤ kernelFraming.size ((b.data.drop b.position).take 4) := by
    have hlong : 4 ≤ b.window.length := h.1
    rw [hv.take_drop_data hlong]
    exact h.2.1
  refine ⟨skipFrame b opened, hv', hopened.1, rfl, ?_, hw', ?_⟩
  · have hposition : (skipFrame b opened).position = opened.limit := rfl
    omega
  · rw [drainTurn, if_neg hrem, ho]
    simp only [hread]

/-! ### A whole loop -/

/-- What the loop finds in the frame at which it stops taking whole frames off the buffer, if that announces
less than a header. -/
def ByteBuffer.lastOverrun (b : ByteBuffer) : List UInt8 :=
  b.data.drop (b.limit - (kernelFraming.split b.window).2.length + 4)

/-- What a frame is decoded to does not depend on the state if it is an exception. -/
def ThrowsOn (handle : List UInt8 → EStateM Exception σ Unit) (throws : List UInt8 → Prop) : Prop :=
  ∀ body s, (throws body → ∃ e s', handle body s = .error e s') ∧
    (¬ throws body → ∃ s', handle body s = .ok () s')

theorem lastOverrun_of_stuck (hv : b.Valid) (hstuck : kernelFraming.Stuck b.window) :
    b.lastOverrun = b.overrun := by
  have hposition := hv.position_le
  have hlength := hv.length_window
  have hstart : b.limit - b.window.length = b.position := by omega
  rw [ByteBuffer.lastOverrun, kernelFraming.split_of_stuck hstuck, ByteBuffer.overrun, hstart]

/-- A turn that decodes what is in a frame: the loop is left if that throws, and otherwise the turn has to go past a
header. -/
theorem progresses_of_turn {throws : List UInt8 → Prop} (hthrows : ThrowsOn handle throws) {body : List UInt8}
    {b' : ByteBuffer} (hturn : drainTurn handle (b, s) =
      match handle body s with
      | .ok _ s => some (b', s)
      | .error _ _ => none) :
    DrainProgresses handle b s ↔ throws body ∨ b.position + 4 ≤ b'.position ∧
      ∃ s', handle body s = .ok () s' ∧ DrainProgresses handle b' s' := by
  by_cases hthrow : throws body
  · obtain ⟨e, s', hhandle⟩ := (hthrows body s).1 hthrow
    rw [hhandle] at hturn
    exact iff_of_true (Loop.progresses_of_leaves hturn) (Or.inl hthrow)
  · obtain ⟨s', hhandle⟩ := (hthrows body s).2 hthrow
    rw [hhandle] at hturn
    rw [DrainProgresses, Loop.progresses_iff_of_turn hturn]
    simp [hthrow, hhandle, PastHeader, DrainProgresses]

/-- **When a loop over frames ends with every turn past a header**: a whole frame throws, the rest of the
buffer is a part of a frame, or it is a frame that announces less than a header, and throws. -/
theorem progresses_iff {throws : List UInt8 → Prop} (hthrows : ThrowsOn handle throws) (hv : b.Valid) (s : σ) :
    DrainProgresses handle b s ↔ (∃ body ∈ (kernelFraming.split b.window).1, throws body) ∨
      kernelFraming.Partial (kernelFraming.split b.window).2 ∨ throws b.lastOverrun := by
  induction hn : b.window.length using Nat.strong_induction_on generalizing b s with
  | _ n ih =>
  by_cases hstuck : kernelFraming.Stuck b.window
  · rw [lastOverrun_of_stuck hv hstuck, kernelFraming.split_of_stuck hstuck]
    by_cases hpart : kernelFraming.Partial b.window
    · have hends : DrainProgresses handle b s := Loop.progresses_of_leaves (drainTurn_of_part hv hpart)
      simp [hends, hpart]
    -- the position is moved back before the end of the header
    have hshort := (openFrame_of_short hv hstuck hpart).1
    rw [progresses_of_turn hthrows (drainTurn_of_short handle s hv hstuck hpart)]
    simp [hpart, hshort]
  · obtain ⟨b', hv', hdata, hlimit, hposition, hw', hturn⟩ := drainTurn_of_not_stuck handle s hv hstuck
    have hlt := kernelFraming.length_drop_lt hstuck
    rw [← hw', hn] at hlt
    have hoverrun : b.lastOverrun = b'.lastOverrun := by
      rw [ByteBuffer.lastOverrun, kernelFraming.split_of_not_stuck hstuck, ByteBuffer.lastOverrun, hdata, hlimit, hw']
    rw [hoverrun, kernelFraming.split_of_not_stuck hstuck, ← hw']
    generalize (b.window.take (kernelFraming.size (b.window.take kernelFraming.width))).drop
      kernelFraming.width = body at hturn
    rw [progresses_of_turn hthrows hturn]
    by_cases hthrow : throws body
    · simp [hthrow]
    · obtain ⟨s', hhandle⟩ := (hthrows body s).2 hthrow
      simp [hthrow, hposition, hhandle, ih _ hlt hv' s' rfl]

/-- **A frame that announces nothing is handled again and again**: no amount of fuel suffices, unless handling
it throws. -/
theorem drainFrames_of_zero {throws : List UInt8 → Prop} (hthrows : ThrowsOn handle throws) (hv : b.Valid)
    (hlength : 4 ≤ b.window.length) (hzero : kernelFraming.size (b.window.take 4) = 0)
    (hthrow : ¬ throws b.overrun) (s : σ) (fuel : ℕ) : drainFrames handle fuel b s = none := by
  have hsize : kernelFraming.size (b.window.take kernelFraming.width) = 0 := hzero
  have hstuck : kernelFraming.Stuck b.window := by
    refine Or.inr (Or.inl ?_)
    rw [hsize]
    exact kernelFraming.width_pos
  have hwhole : ¬ kernelFraming.Partial b.window := by
    rintro (h | h)
    · exact absurd h (Nat.not_lt.mpr hlength)
    · omega
  have hends : ¬ Loop.EndsWithin (drainTurn handle) fuel (b, s) := by
    refine Loop.not_endsWithin_of_invariant (p := fun x => x.1 = b) ?_ rfl fuel
    rintro ⟨b', s⟩ hsame
    obtain ⟨s', hhandle⟩ := (hthrows b.overrun s).2 hthrow
    have hturn := drainTurn_of_short handle s hv hstuck hwhole
    rw [hhandle, hzero] at hturn
    dsimp only at hsame
    rw [hsame]
    exact ⟨_, hturn, rfl⟩
  rw [← drainFrames_isSome] at hends
  simpa using hends

end Turns

/-! ### The two loops -/

section Loops

variable {σ P : Type} [ByteOrder]

/-- `receive_kernels` catches what is thrown. -/
theorem Receiver.throwsOn_receiveFrame (rcv : Receiver σ P) (proc : Process P) (address : SocketAddress) :
    ThrowsOn (rcv.receiveFrame proc address) fun _ => False := by
  refine fun body s => ⟨fun h => h.elim, fun _ => ?_⟩
  unfold receiveFrame
  cases proc.read body with
  | error e w => exact ⟨s, rfl⟩
  | ok r w => exact ⟨_, rfl⟩

/-- What is in a frame of the log cannot be decoded. -/
def Undecodable (proc : Process P) (body : List UInt8) : Prop := ∃ e w, readRecord proc body = .error e w

/-- `read_records` does not. -/
theorem throwsOn_handleRecord (proc : Process P) : ThrowsOn (handleRecord proc) (Undecodable proc) := by
  intro body records
  unfold Undecodable handleRecord
  cases readRecord proc body with
  | error e w => simp
  | ok r w => simp

/-- **The two loops progress**: that of `receive_kernels` if and only if what is left in the buffer after the
whole frames is a part of a frame, that of `read_records` also if one of the whole frames cannot be decoded,
or what is left is not a part of a frame and what is behind its header cannot be decoded. -/
theorem frames_progress_iff (rcv : Receiver σ P) (proc : Process P) (address : SocketAddress) {b : ByteBuffer}
    (hb : b.Valid) (s : Receiver.Receiving σ P) (records : List (TransactionRecord P)) :
    (DrainProgresses (rcv.receiveFrame proc address) b s ↔
      kernelFraming.Partial (kernelFraming.split b.window).2) ∧
    (DrainProgresses (handleRecord proc) b records ↔
      (∃ body ∈ (kernelFraming.split b.window).1, Undecodable proc body) ∨
        kernelFraming.Partial (kernelFraming.split b.window).2 ∨ Undecodable proc b.lastOverrun) := by
  constructor
  · simpa using progresses_iff (rcv.throwsOn_receiveFrame proc address) hb s
  · exact progresses_iff (throwsOn_handleRecord proc) hb records

omit [ByteOrder] in
/-- A buffer that holds nothing. -/
theorem frames_progress_empty :
    letI := ByteOrder.littleEndian
    DrainProgresses ((Endpoint.receiver (Process.plain 0) {} 1).receiveFrame (Process.plain 0) .unset) .empty
        { state := Endpoint.idle } ∧ DrainProgresses (handleRecord (Process.plain 0)) .empty [] := by
  let _ := ByteOrder.littleEndian
  have h := frames_progress_iff (Endpoint.receiver (Process.plain 0) {} 1) (Process.plain 0) .unset
    (b := .empty) ⟨le_rfl, le_rfl⟩ { state := Endpoint.idle } []
  have hpart : kernelFraming.Partial (kernelFraming.split ByteBuffer.empty.window).2 := by
    have hwindow : ByteBuffer.empty.window = [] := rfl
    rw [hwindow, Framing.split_nil]
    exact Framing.partial_nil _
  exact ⟨h.1.mpr hpart, h.2.mpr (Or.inr (Or.inl hpart))⟩

end Loops

/-- A buffer of the given bytes. -/
def ByteBuffer.holding (bs : List UInt8) : ByteBuffer := ⟨bs, 0, bs.length⟩

/-- A frame that announces nothing, and a kernel of an unknown type. -/
def emptyFrame : List UInt8 := List.replicate 21 0 ++ [0, 9]

/-- A frame that announces nothing, and an `end` record. -/
def emptyRecord : List UInt8 := [0, 0, 0, 0, 2] ++ List.replicate 11 0 ++ [5]

/-- **The loops spin**: neither of them ever ends. -/
theorem loops_spin :
    letI := ByteOrder.littleEndian
    (¬ DrainProgresses ((Endpoint.receiver (Process.plain 0) {} 1).receiveFrame (Process.plain 0) .unset)
        (.holding emptyFrame) { state := Endpoint.idle }) ∧
      ¬ DrainProgresses (handleRecord (Process.plain 0)) (.holding emptyRecord) [] := by
  let _ := ByteOrder.littleEndian
  have hdecodes : ¬ Undecodable (Process.plain 0) (ByteBuffer.holding emptyRecord).overrun := by
    rintro ⟨e, w, h⟩
    have hread : readRecord (Process.plain 0) (ByteBuffer.holding emptyRecord).overrun = .ok (.inl 5) [] := rfl
    rw [hread] at h
    cases h
  constructor
  · rintro ⟨⟨n, hends⟩, -⟩
    rw [← drainFrames_isSome, drainFrames_of_zero (Receiver.throwsOn_receiveFrame _ _ _)
      ⟨by decide, by decide⟩ (by decide) (by decide) id] at hends
    cases hends
  · rintro ⟨⟨n, hends⟩, -⟩
    rw [← drainFrames_isSome, drainFrames_of_zero (throwsOn_handleRecord _) ⟨by decide, by decide⟩ (by decide)
      (by decide) hdecodes] at hends
    cases hends

end Subordination.Core
