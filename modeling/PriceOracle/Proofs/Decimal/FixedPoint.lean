import Mathlib.Tactic.Ring
import PriceOracle.Decimal.FixedPoint

/-!
# Rounding to fixed point

What `Decimal.toFixedPoint` gives. `RoundsTo` says of an integer, without any division, that it is a
magnitude with a number of decimals, rounded to the nearest, half going up.

* `RoundsTo.unique`: there is one such integer, and `RoundsTo.zero_iff`: it is zero exactly for
  magnitudes below half a unit.
* `roundsTo_of_toFixedPoint`: whatever is encoded is rounded in this sense.
* `toFixedPoint_of_positive`: values that are not negative have an encoding on every feed whose
  answers can be read back.
-/

namespace PriceOracle.Decimal

variable {v : Decimal} {decimals n : Nat}

/-- An integer is the magnitude of a value with `decimals` decimals, rounded to the nearest, half
going up: `n ≤ |v| * 10 ^ decimals + 1 / 2 < n + 1`. -/
structure RoundsTo (v : Decimal) (decimals n : Nat) : Prop where
  le : 2 * n * 10 ^ v.scale ≤ 2 * v.coefficient.natAbs * 10 ^ decimals + 10 ^ v.scale
  lt : 2 * v.coefficient.natAbs * 10 ^ decimals + 10 ^ v.scale < 2 * (n + 1) * 10 ^ v.scale

theorem RoundsTo.unique {n' : Nat} (h : v.RoundsTo decimals n) (h' : v.RoundsTo decimals n') :
    n = n' := by
  have hle {a b : Nat} (ha : v.RoundsTo decimals a) (hb : v.RoundsTo decimals b) : a ≤ b := by
    have hlt := Nat.lt_of_mul_lt_mul_right (Nat.lt_of_le_of_lt ha.le hb.lt)
    omega
  exact Nat.le_antisymm (hle h h') (hle h' h)

/-- A magnitude rounds to zero exactly when it is below half a unit. -/
theorem RoundsTo.zero_iff (h : v.RoundsTo decimals n) :
    n = 0 ↔ 2 * v.coefficient.natAbs * 10 ^ decimals < 10 ^ v.scale := by
  constructor
  · rintro rfl
    have hlt := h.lt
    omega
  · intro hsmall
    have hlt : 2 * n * 10 ^ v.scale < 2 * 10 ^ v.scale := by
      have hle := h.le
      omega
    have hone := Nat.lt_of_mul_lt_mul_right hlt
    omega

/-! ## Both ways to scale -/

/-- Scaling up is exact. -/
theorem roundsTo_up (hscale : v.scale ≤ decimals) :
    v.RoundsTo decimals (v.coefficient.natAbs * 10 ^ (decimals - v.scale)) := by
  have hpow : 10 ^ (decimals - v.scale) * 10 ^ v.scale = 10 ^ decimals := by
    rw [← Nat.pow_add, Nat.sub_add_cancel hscale]
  have hexact : 2 * (v.coefficient.natAbs * 10 ^ (decimals - v.scale)) * 10 ^ v.scale
      = 2 * v.coefficient.natAbs * 10 ^ decimals := by
    rw [← hpow]
    ring
  have hpositive : 0 < 10 ^ v.scale := Nat.pow_pos (by decide)
  constructor
  · rw [hexact]
    exact Nat.le_add_right _ _
  · rw [Nat.mul_add, Nat.add_mul, hexact]
    omega

/-- Dividing by a power of ten, half going up. -/
theorem scaledDown_bounds (m : Nat) {k : Nat} (hk : 0 < k) :
    2 * scaledDown m k * 10 ^ k ≤ 2 * m + 10 ^ k ∧
      2 * m + 10 ^ k < 2 * (scaledDown m k + 1) * 10 ^ k := by
  have hpositive : 0 < 10 ^ k := Nat.pow_pos (by decide)
  -- Every positive power of ten is even.
  have heven : 10 ^ k = 2 * (10 ^ k / 2) := by
    obtain ⟨j, rfl⟩ := Nat.exists_eq_succ_of_ne_zero hk.ne'
    rw [Nat.pow_succ]
    omega
  have hdiv := Nat.div_mul_le_self (m + 10 ^ k / 2) (10 ^ k)
  have hmod := Nat.lt_div_mul_add (a := m + 10 ^ k / 2) hpositive
  unfold scaledDown
  constructor
  · rw [Nat.mul_assoc]
    omega
  · rw [Nat.mul_assoc, Nat.add_mul]
    omega

theorem roundsTo_down (hscale : decimals < v.scale) :
    v.RoundsTo decimals (scaledDown v.coefficient.natAbs (v.scale - decimals)) := by
  have hpow : 10 ^ v.scale = 10 ^ (v.scale - decimals) * 10 ^ decimals := by
    rw [← Nat.pow_add, Nat.sub_add_cancel (Nat.le_of_lt hscale)]
  have hpositive : 0 < 10 ^ decimals := Nat.pow_pos (by decide)
  obtain ⟨hle, hlt⟩ := scaledDown_bounds v.coefficient.natAbs (Nat.sub_pos_of_lt hscale)
  constructor
  · rw [hpow, ← Nat.mul_assoc, ← Nat.add_mul]
    exact Nat.mul_le_mul_right _ hle
  · rw [hpow, ← Nat.mul_assoc, ← Nat.add_mul]
    exact Nat.mul_lt_mul_of_pos_right hlt hpositive

/-! ## Encoding -/

variable {d : Decimal} {width : UInt32} {a : Uint256}

theorem toNat_of_ofNat (h : Uint256.ofNat? n = some a) : a.toNat = n := by
  unfold Uint256.ofNat? at h
  split at h
  · obtain rfl := Option.some.inj h
    rfl
  · cases h

theorem toNat_of_scaledUp {m k : Nat} (h : scaledUp? m k = some a) : a.toNat = m * 10 ^ k := by
  unfold scaledUp? pow10? at h
  split at h
  · exact toNat_of_ofNat h
  · cases h

/-- Whatever is encoded is not negative, and is rounded. -/
theorem roundsTo_of_toFixedPoint (h : d.toFixedPoint width = .ok a) :
    d.isNegative = false ∧ d.RoundsTo width.toNat a.toNat := by
  cases hsign : d.isNegative with
  | true => simp [toFixedPoint, hsign] at h
  | false =>
    refine ⟨rfl, ?_⟩
    by_cases hscale : d.scale ≤ width.toNat
    · cases hup : scaledUp? d.coefficient.natAbs (width.toNat - d.scale) with
      | none => simp [toFixedPoint, hsign, hscale, hup] at h
      | some a' =>
        obtain rfl : a' = a := by simpa [toFixedPoint, hsign, hscale, hup] using h
        rw [toNat_of_scaledUp hup]
        exact roundsTo_up hscale
    · cases hdown : Uint256.ofNat? (scaledDown d.coefficient.natAbs (d.scale - width.toNat)) with
      | none => simp [toFixedPoint, hsign, hscale, hdown] at h
      | some a' =>
        obtain rfl : a' = a := by simpa [toFixedPoint, hsign, hscale, hdown] using h
        rw [toNat_of_ofNat hdown]
        exact roundsTo_down (Nat.lt_of_not_le hscale)

/-- Scaling up by at most 28 digits fits 256 bits. -/
theorem scaledUp_isSome {k : Nat} (hk : k ≤ 28) :
    (scaledUp? d.coefficient.natAbs k).isSome := by
  have hfits : d.coefficient.natAbs * 10 ^ k < 2 ^ 256 :=
    calc d.coefficient.natAbs * 10 ^ k ≤ 2 ^ 96 * 10 ^ 28 :=
          Nat.mul_le_mul d.coefficient_lt.le (Nat.pow_le_pow_right (by decide) hk)
      _ < 2 ^ 256 := by decide
  have hpower : pow10? k = some (10 ^ k) := if_pos (Nat.lt_of_le_of_lt hk (by decide))
  simp [scaledUp?, hpower, Uint256.ofNat?, hfits]

/-- Scaling down fits 256 bits. -/
theorem scaledDown_isSome (k : Nat) :
    (Uint256.ofNat? (scaledDown d.coefficient.natAbs k)).isSome := by
  have hpositive : 0 < 10 ^ k := Nat.pow_pos (by decide)
  have hle : scaledDown d.coefficient.natAbs k ≤ d.coefficient.natAbs + 1 :=
    calc (d.coefficient.natAbs + 10 ^ k / 2) / 10 ^ k
        ≤ (d.coefficient.natAbs + 10 ^ k) / 10 ^ k :=
          Nat.div_le_div_right (Nat.add_le_add_left (Nat.div_le_self _ _) _)
      _ = d.coefficient.natAbs / 10 ^ k + 1 := Nat.add_div_right _ hpositive
      _ ≤ d.coefficient.natAbs + 1 := Nat.add_le_add_right (Nat.div_le_self _ _) 1
  have hfits : scaledDown d.coefficient.natAbs k < 2 ^ 256 := by
    have hlt := d.coefficient_lt
    omega
  simp [Uint256.ofNat?, hfits]

/-- A value that is not negative has an encoding on every feed whose answers can be read back. -/
theorem toFixedPoint_of_positive (hsign : d.isNegative = false) (hwidth : width.toNat ≤ 28) :
    ∃ a, d.toFixedPoint width = .ok a := by
  by_cases hscale : d.scale ≤ width.toNat
  · obtain ⟨a, ha⟩ := Option.isSome_iff_exists.mp
      (scaledUp_isSome (d := d) (k := width.toNat - d.scale) (by omega))
    exact ⟨a, by simp [toFixedPoint, hscale, hsign, ha]⟩
  · obtain ⟨a, ha⟩ := Option.isSome_iff_exists.mp
      (scaledDown_isSome (d := d) (d.scale - width.toNat))
    exact ⟨a, by simp [toFixedPoint, hscale, hsign, ha]⟩

/-- On such a feed the answer that a value is encoded as is the one that it rounds to. -/
theorem toFixedPoint_ok_iff (hwidth : width.toNat ≤ 28) :
    d.toFixedPoint width = .ok a ↔ d.isNegative = false ∧ d.RoundsTo width.toNat a.toNat := by
  refine ⟨roundsTo_of_toFixedPoint, ?_⟩
  rintro ⟨hsign, hrounds⟩
  obtain ⟨a', ha'⟩ := toFixedPoint_of_positive hsign hwidth
  have hsame : a'.toNat = a.toNat := (roundsTo_of_toFixedPoint ha').2.unique hrounds
  rw [ha']
  cases a
  cases a'
  cases hsame
  rfl

/-- A negative value is never encoded. -/
theorem toFixedPoint_of_negative (hsign : d.isNegative = true) (width : UInt32) :
    d.toFixedPoint width = .error (.negative d) := by
  simp [toFixedPoint, hsign]

end PriceOracle.Decimal
