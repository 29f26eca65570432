import PriceOracle.Round

/-!
# Counting rounds

Rounds are counted in 64 bits. `successor?` is one more as natural numbers wherever it gives a
number at all, so that nothing that is proved of the next round has to speak of a sum that wraps.
There is one round without a next.
-/

namespace PriceOracle

variable {n m : UInt64}

/-- What follows a number is one more, as natural numbers. -/
theorem successor_eq_some : successor? n = some m ↔ m.toNat = n.toNat + 1 := by
  have hm := m.toNat_lt
  have hone : (1 : UInt64).toNat = 1 := rfl
  rw [successor?]
  split
  next hfits =>
    rw [Option.some_inj, ← UInt64.toNat_inj, UInt64.toNat_add, hone, Nat.mod_eq_of_lt hfits]
    exact eq_comm
  next hfull =>
    refine iff_of_false nofun fun h => ?_
    omega

/-- Nothing follows the last number of 64 bits. -/
theorem successor_eq_none : successor? n = none ↔ n.toNat + 1 = 2 ^ 64 := by
  have hn := n.toNat_lt
  rw [successor?]
  split
  · refine iff_of_false nofun fun h => ?_
    omega
  · refine iff_of_true rfl ?_
    omega

/-- Numbers before one number are one number. -/
theorem eq_of_successor {k : UInt64} (hn : successor? n = some k) (hm : successor? m = some k) :
    n = m := by
  rw [successor_eq_some] at hn hm
  exact UInt64.toNat_inj.mp (by omega)

/-- A number is known by what follows it, and by that nothing does. -/
theorem successor_injective : Function.Injective successor? := by
  intro n m h
  cases hm : successor? m with
  | some k => exact eq_of_successor (h.trans hm) hm
  | none =>
    rw [hm] at h
    have hn := successor_eq_none.mp h
    have hm := successor_eq_none.mp hm
    exact UInt64.toNat_inj.mp (by omega)

theorem lt_of_successor (h : successor? n = some m) : n < m := by
  rw [successor_eq_some] at h
  exact UInt64.lt_iff_toNat_lt.mpr (by omega)

theorem ne_of_successor (h : successor? n = some m) : m ≠ n :=
  (UInt64.ne_of_lt (lt_of_successor h)).symm

end PriceOracle
