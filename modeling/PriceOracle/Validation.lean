import PriceOracle.Decimal

/-!
# Validation of fetched values

A `ValidationPolicy` says which values may be published. Zero and negative values need to be
allowed explicitly; bounds are inclusive and apply to every value.
-/

namespace PriceOracle

/-- Which fetched values may be published. -/
structure ValidationPolicy where
  allowZero : Bool
  allowNegative : Bool
  min : Option Decimal
  max : Option Decimal

namespace ValidationPolicy

/-- The policy that takes every positive value. -/
def default : ValidationPolicy := ⟨false, false, none, none⟩

/-- The fault of the sign of a value. -/
def signFault? (p : ValidationPolicy) (v : Decimal) : Option String :=
  if v.isZero then if p.allowZero then none else some "value is zero"
  else if v.isNegative && !p.allowNegative then some s!"value {v.text} is negative"
  else none

/-- The fault of a value below the least one. -/
def minFault? (p : ValidationPolicy) (v : Decimal) : Option String :=
  p.min.bind fun m => if v.lt m then some s!"value {v.text} is below the minimum {m.text}" else none

/-- The fault of a value above the largest one. -/
def maxFault? (p : ValidationPolicy) (v : Decimal) : Option String :=
  p.max.bind fun m => if m.lt v then some s!"value {v.text} is above the maximum {m.text}" else none

/-- Why a value may not be published; none when it may. -/
def fault? (p : ValidationPolicy) (v : Decimal) : Option String :=
  p.signFault? v <|> p.minFault? v <|> p.maxFault? v

/-- Whether a value may be published. -/
def accepts (p : ValidationPolicy) (v : Decimal) : Bool := (p.fault? v).isNone

end ValidationPolicy

end PriceOracle
