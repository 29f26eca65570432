import PriceOracle.Proofs.Cycle.Paths
import PriceOracle.Proofs.Cycle.Requests
import PriceOracle.Proofs.Decimal.FixedPoint

/-!
# Answers that stand for accepted values

A policy looks at a value as it was fetched, and a feed stores it rounded and without a sign. So
there are values that a policy accepts and a feed cannot hold, and values that a feed holds as zero
although the policy refuses zero.

* `accepted_encoded`: these are the negative ones of a policy that allows them, and those below half
  a unit of the feed; no cycle halts for another value or sends zero for another one.
* `accepted_refused_and_accepted_lost`: there are such values.
-/

namespace PriceOracle

open Program (Keeps Makes)
open Surroundings (interface)

/-- The magnitude of a value is below half a unit of a feed. -/
def Decimal.Vanishes (v : Decimal) (decimals : UInt32) : Prop :=
  2 * v.coefficient.natAbs * 10 ^ decimals.toNat < 10 ^ v.scale

namespace ValidationPolicy

variable {policy : ValidationPolicy} {v : Decimal}

theorem signFault_of_accepts (h : policy.accepts v = true) : policy.signFault? v = none := by
  have hfault : policy.fault? v = none := Option.isNone_iff_eq_none.mp h
  unfold fault? at hfault
  cases hsign : policy.signFault? v with
  | none => rfl
  | some reason =>
    rw [hsign] at hfault
    cases hfault

/-- Zero is accepted only where it is allowed. -/
theorem allowZero_of_accepts (h : policy.accepts v = true) (hzero : v.isZero = true) :
    policy.allowZero = true := by
  have hsign := signFault_of_accepts h
  unfold signFault? at hsign
  cases hallow : policy.allowZero with
  | true => rfl
  | false => simp [hzero, hallow] at hsign

/-- Negative values are accepted only where they are allowed. -/
theorem allowNegative_of_accepts (h : policy.accepts v = true) (hnegative : v.isNegative = true) :
    policy.allowNegative = true := by
  have hzero : v.isZero = false := by
    have hlt : v.coefficient < 0 := of_decide_eq_true hnegative
    exact beq_false_of_ne (by omega)
  have hsign := signFault_of_accepts h
  unfold signFault? at hsign
  cases hallow : policy.allowNegative with
  | true => rfl
  | false => simp [hzero, hnegative, hallow] at hsign

end ValidationPolicy

namespace Publication

variable {d : Destination} {v : Decimal} {answer : Uint256}

theorem toFixedPoint_of_encode (h : encode d v = .ok answer) :
    v.toFixedPoint d.decimals = .ok answer := by
  unfold encode outOfRange at h
  cases hfixed : v.toFixedPoint d.decimals with
  | ok a =>
    rw [hfixed] at h
    exact congrArg Except.ok (Except.ok.inj h)
  | error e =>
    rw [hfixed] at h
    cases h

/-- A destination that the registry admits has an answer for every value that is not negative. -/
theorem encode_of_positive (hwidth : d.decimals ≤ Destination.maxDecimals)
    (hsign : v.isNegative = false) : ∃ answer, encode d v = .ok answer := by
  have hwidth : d.decimals.toNat ≤ 28 := UInt32.le_iff_toNat_le.mp hwidth
  obtain ⟨answer, hfixed⟩ := Decimal.toFixedPoint_of_positive hsign hwidth
  exact ⟨answer, by rw [encode, hfixed]; rfl⟩

theorem encode_of_negative (hsign : v.isNegative = true) :
    encode d v = .error (.valueOutOfRange (NumericError.negative v).message) := by
  rw [encode, Decimal.toFixedPoint_of_negative hsign]
  rfl

/-- The answer for a value that a policy accepts. -/
structure StandsFor (policy : ValidationPolicy) (d : Destination) (v : Decimal) (answer : Uint256) :
    Prop where
  positive : v.isNegative = false
  rounded : v.RoundsTo d.decimals.toNat answer.toNat
  /-- It is zero only where the policy allows zero, or for a value that is not zero itself. -/
  zero : answer.toNat = 0 → policy.allowZero = true ∨ v.isZero = false ∧ v.Vanishes d.decimals

theorem standsFor_of_encode {policy : ValidationPolicy} (haccepts : policy.accepts v = true)
    (h : encode d v = .ok answer) : StandsFor policy d v answer := by
  obtain ⟨hsign, hrounds⟩ := Decimal.roundsTo_of_toFixedPoint (toFixedPoint_of_encode h)
  refine ⟨hsign, hrounds, fun hzero => ?_⟩
  cases hvalue : v.isZero with
  | true => exact .inl (ValidationPolicy.allowZero_of_accepts haccepts hvalue)
  | false => exact .inr ⟨rfl, hrounds.zero_iff.mp hzero⟩

end Publication

namespace Cycle

variable {σ : Type} {B : Behaviour interface σ} {policy : Policy}

/-- A publication is out of range for nothing but a negative value that the policy allows. -/
def NegativeIfOutOfRange (policy : Policy) (e : PublishError) : Prop :=
  e.IsOutOfRange → ∃ v : Decimal, policy.validation.accepts v = true ∧ v.isNegative = true ∧
    policy.validation.allowNegative = true ∧
    e = .valueOutOfRange (NumericError.negative v).message

/-- Surroundings with feeds that take no value to be out of range, and a registry as it should be:
destinations are admitted, and what is pending was sent. -/
structure InRange (B : Behaviour interface σ) : Prop where
  onFeed : ∀ {r s reply t e}, B (.feed r) s reply t → Feed.Request.failure? r reply = some e →
    ¬PublishError.IsOutOfRange e
  admitted : ∀ {row}, Tells B row → row.config.destination.decimals ≤ Destination.maxDecimals
  sent : ∀ {row p}, Tells B row → row.bookkeeping.pending = some p → p.answer.isNegative = false

/-- All that a cycle fails to publish for in such surroundings. -/
theorem InRange.causes (h : InRange B) : Causes B policy (NegativeIfOutOfRange policy) where
  onFeed := {
    told := fun hreply hfails hout => absurd hout (h.onFeed hreply hfails)
    found := fun hnot hout => absurd hout hnot }
  accepted := by
    intro row hrow v haccepts e herror hout
    cases hsign : v.isNegative with
    | true =>
      rw [Publication.encode_of_negative hsign] at herror
      cases herror
      exact ⟨v, haccepts, hsign, ValidationPolicy.allowNegative_of_accepts haccepts hsign, rfl⟩
    | false =>
      obtain ⟨answer, hencoded⟩ := Publication.encode_of_positive (h.admitted hrow) hsign
      rw [hencoded] at herror
      cases herror
  pending := by
    intro row row' hrow hrow' p hpending e herror
    obtain ⟨answer, hencoded⟩ :=
      Publication.encode_of_positive (h.admitted hrow) (h.sent hrow' hpending)
    rw [hencoded] at herror
    cases herror

/-- A request that halts an oracle for nothing but a failure of some kind. -/
def HaltsOnlyFor (cause : PublishError → Prop) (r : Surroundings.Request) : Prop :=
  ∀ id change, r = .registry (.revise id change) → HaltsFor cause change

/-- A request that sends no update but one that stands for an accepted value. -/
def SendsOnlyAccepted (policy : ValidationPolicy) (r : Surroundings.Request) : Prop :=
  ∀ d answer, r = .feed (.submit d answer) →
    ∃ v, policy.accepts v = true ∧ Publication.StandsFor policy d v answer

/-- A value that a policy accepts and that is not negative has an answer on every destination that
the registry admits: itself, rounded, which is zero only where the policy allows zero or for a value
below half a unit. A negative value, which only a policy accepts that allows them, has none. So no
cycle halts an oracle for a value that is out of range unless the policy allows negative values, and
every update that a cycle sends stands for an accepted value. -/
theorem accepted_encoded (policy : Policy) :
    (∀ d v, d.decimals ≤ Destination.maxDecimals → policy.validation.accepts v = true →
      (v.isNegative = false → ∃ answer, Publication.encode d v = .ok answer ∧
        Publication.StandsFor policy.validation d v answer) ∧
      (v.isNegative = true → policy.validation.allowNegative = true ∧
        Publication.encode d v = .error (.valueOutOfRange (NumericError.negative v).message))) ∧
    (∀ {σ : Type} (B : Behaviour interface σ) (s : σ) (id : OracleId) (deadline : Duration),
      InRange B →
        Keeps B (fun r _ => HaltsOnlyFor (NegativeIfOutOfRange policy) r) (fun _ _ => True)
          (run policy id deadline) s) ∧
    ∀ id deadline, (run policy id deadline).Makes (SendsOnlyAccepted policy.validation) := by
  refine ⟨fun d v hwidth haccepts => ⟨fun hsign => ?_, fun hsign => ?_⟩, ?_, ?_⟩
  · obtain ⟨answer, hencoded⟩ := Publication.encode_of_positive hwidth hsign
    exact ⟨answer, hencoded, Publication.standsFor_of_encode haccepts hencoded⟩
  · exact ⟨ValidationPolicy.allowNegative_of_accepts haccepts hsign,
      Publication.encode_of_negative hsign⟩
  · intro σ B s id deadline hrange
    refine (keeps_run hrange.causes id deadline).allowing fun r _ hasks => ?_
    rintro other change rfl
    exact hasks trivial
  · intro id deadline
    refine (makes_run policy id deadline).mono fun r hasks => ?_
    rintro d answer rfl
    obtain ⟨v, haccepts, hencoded⟩ := hasks trivial
    exact ⟨v, haccepts, Publication.standsFor_of_encode haccepts hencoded⟩

/-- Feeds that never fail, and a registry with one oracle. -/
def wellBehaved : Behaviour interface Unit
  | .feed r, _, reply, _ => r.failure? reply = none
  | .registry (.row _), _, reply, _ => reply = .ok ⟨ethUsd, .initial⟩
  | _, _, _, _ => True

theorem inRange_wellBehaved : InRange wellBehaved where
  onFeed := by
    intro r s reply t e hreply hfails
    rw [show r.failure? reply = none from hreply] at hfails
    cases hfails
  admitted := by
    rintro row ⟨id, s, t, hrow⟩
    obtain rfl := Except.ok.inj hrow
    decide
  sent := by
    rintro row p ⟨id, s, t, hrow⟩ hpending
    obtain rfl := Except.ok.inj hrow
    cases hpending

/-- The value `5` is encoded as it is, and no cycle among well-behaved surroundings halts over it.
-/
theorem accepted_encoded_five :
    (∃ answer, Publication.encode ethUsd.destination five = .ok answer ∧
      Publication.StandsFor .default ethUsd.destination five answer) ∧
    Keeps wellBehaved (fun r _ => HaltsOnlyFor (NegativeIfOutOfRange onceOnly) r)
      (fun _ _ => True) (run onceOnly ethUsd.id ⟨1⟩) () := by
  obtain ⟨hencoded, hhalts, -⟩ := accepted_encoded onceOnly
  exact ⟨(hencoded ethUsd.destination five (by decide) rfl).1 rfl,
    hhalts wellBehaved () ethUsd.id ⟨1⟩ inRange_wellBehaved⟩

/-- The value `-1`. -/
def minusOne : Decimal := { Decimal.zero with coefficient := -1, coefficient_lt := by decide }

/-- The value `0.000000001`. -/
def billionth : Decimal := ⟨1, 9, by decide, by decide⟩

/-- A policy that allows negative values accepts one that no feed can hold, and one that takes
positive values only accepts one that a feed of eight decimals holds as zero. -/
theorem accepted_refused_and_accepted_lost :
    (ValidationPolicy.accepts ⟨false, true, none, none⟩ minusOne = true ∧
      ∀ answer, Publication.encode ethUsd.destination minusOne ≠ .ok answer) ∧
    ValidationPolicy.default.accepts billionth = true ∧
      ValidationPolicy.default.allowZero = false ∧
      Publication.encode ethUsd.destination billionth = .ok .zero := by
  refine ⟨⟨rfl, fun answer hencoded => ?_⟩, rfl, rfl, rfl⟩
  rw [Publication.encode_of_negative rfl] at hencoded
  cases hencoded

end Cycle

end PriceOracle
