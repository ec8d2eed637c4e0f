import Mathlib.Data.UInt

/-!
# Weights

The saturating counters in which the load of a node is kept (`core/weights.hh`).
-/

namespace Subordination.Core

/-- `weight_type`: `basic_weight<sys::u32>`. -/
structure Weight where
  /-- `get()`. -/
  value : UInt32
  deriving DecidableEq, Repr

namespace Weight

/-- `std::numeric_limits<sys::u32>::max()`. -/
def max : UInt32 := 0xFFFFFFFF

/-- `operator+=`: a sum that does not fit is the greatest value. -/
def add (a b : Weight) : Weight :=
  if a.value < max - b.value then ⟨a.value + b.value⟩ else ⟨max⟩

/-- `operator-=`: a difference below zero is zero. -/
def sub (a b : Weight) : Weight := if a.value > b.value then ⟨a.value - b.value⟩ else ⟨0⟩

/-- `operator*`: a product that does not fit is the greatest value. A second factor of zero ends the
process. -/
def mul (a b : Weight) : Weight :=
  if a.value < max / b.value + (if max % b.value = 0 then 0 else 1) then ⟨a.value * b.value⟩ else ⟨max⟩

/-- `operator/`: a quotient by zero is the greatest value. -/
def div (a b : Weight) : Weight := if b.value = 0 then ⟨max⟩ else ⟨a.value / b.value⟩

/-- `operator%`: a remainder by zero is zero. -/
def mod (a b : Weight) : Weight := if b.value = 0 then ⟨0⟩ else ⟨a.value % b.value⟩

end Weight

/-- `weight_array`: a counter of the kernels that take a whole node and one of the
weights of all others. -/
structure WeightArray where
  /-- `[0]`. -/
  whole : Weight := ⟨0⟩
  /-- `[1]`. -/
  part : Weight := ⟨0⟩
  deriving DecidableEq, Repr

namespace WeightArray

/-- `operator+=`. -/
def add (a b : WeightArray) : WeightArray := ⟨a.whole.add b.whole, a.part.add b.part⟩

/-- `operator-=`. -/
def sub (a b : WeightArray) : WeightArray := ⟨a.whole.sub b.whole, a.part.sub b.part⟩

end WeightArray

/-- `std::array<weight_type,2>`: a quotient, and the remainder of the division. -/
structure ModularWeight where
  /-- `[0]`. -/
  quotient : Weight
  /-- `[1]`. -/
  remainder : Weight := ⟨0⟩
  deriving DecidableEq, Repr

/-- `operator<` of `std::array`: the first of the numbers that differ decides. -/
def ModularWeight.lt (a b : ModularWeight) : Bool :=
  if a.quotient.value < b.quotient.value then true
  else if b.quotient.value < a.quotient.value then false
  else a.remainder.value < b.remainder.value

/-- `modular_weight_array`. -/
structure ModularWeightArray where
  /-- `[0]`. -/
  whole : ModularWeight
  /-- `[1]`. -/
  part : ModularWeight
  deriving DecidableEq, Repr

namespace ModularWeightArray

/-- `operator<` of `std::array`. -/
def lt (a b : ModularWeightArray) : Bool :=
  if a.whole.lt b.whole then true
  else if b.whole.lt a.whole then false
  else a.part.lt b.part

/-- `operator<=` of `std::array`. -/
def le (a b : ModularWeightArray) : Bool := !b.lt a

end ModularWeightArray

end Subordination.Core
