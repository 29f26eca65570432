/-!
# Powers

Within this library `a ^ n` is the power of core arithmetic, whatever else is imported: bounds such
as `2 ^ 256` then mean the same in definitions and in statements about them.
-/

namespace PriceOracle

attribute [scoped instance (2000)] instPowNat

attribute [default_instance 20000] instPowNat

end PriceOracle
