import PriceOracle.Oracle
import PriceOracle.Proofs.Round

/-!
# Comparing bookkeeping

Bookkeeping is compared with values by magnitude, so that two that count as the same need not be
equal. All that is not a value is the same (`Bookkeeping.same_of_beq`); counters that went on are
not. It matters where a change leaves bookkeeping that counts as the same, since the registry then
writes nothing.
-/

namespace PriceOracle

theorem UInt64.add_one_ne (n : UInt64) : n + 1 ≠ n := by
  intro h
  have hnat := congrArg UInt64.toNat h
  have hone : (1 : UInt64).toNat = 1 := rfl
  rw [UInt64.toNat_add] at hnat
  have hlt := n.toNat_lt
  omega

theorem UInt32.add_one_ne (n : UInt32) : n + 1 ≠ n := by
  intro h
  have hnat := congrArg UInt32.toNat h
  have hone : (1 : UInt32).toNat = 1 := rfl
  rw [UInt32.toNat_add] at hnat
  have hlt := n.toNat_lt
  omega

namespace Bookkeeping

/-- What is equal in bookkeeping that counts as the same. -/
structure Same (b b' : Bookkeeping) : Prop where
  lastAttempt : b.lastAttempt = b'.lastAttempt
  lastRound : b.lastRound = b'.lastRound
  failures : b.failures = b'.failures
  cycles : b.cycles = b'.cycles
  halted : b.halted = b'.halted
  pending : b.pending.isSome = b'.pending.isSome

theorem same_of_beq {b b' : Bookkeeping} (h : (b == b') = true) : b.Same b' := by
  obtain ⟨_, _, _, _, _, _, p⟩ := b
  obtain ⟨_, _, _, _, _, _, p'⟩ := b'
  simp only [BEq.beq, instBEqBookkeeping.beq, Bool.and_eq_true, decide_eq_true_eq] at h
  obtain ⟨hattempt, hround, -, hfailures, hcycles, hhalted, hpending⟩ := h
  refine ⟨eq_of_beq hattempt, hround, hfailures, hcycles, eq_of_beq hhalted, ?_⟩
  cases p <;> cases p' <;> first | rfl | cases hpending

/-- A submission that counts as the same is the same transaction, for the same round. -/
theorem pending_of_beq {b b' : Bookkeeping} {p : Pending} (h : (b == b') = true)
    (hp : b.pending = some p) :
    ∃ p', b'.pending = some p' ∧ p'.txHash = p.txHash ∧ p'.round = p.round := by
  obtain ⟨_, _, _, _, _, _, q⟩ := b
  obtain ⟨_, _, _, _, _, _, q'⟩ := b'
  obtain rfl : q = some p := hp
  simp only [BEq.beq, instBEqBookkeeping.beq, Bool.and_eq_true] at h
  obtain ⟨-, -, -, -, -, -, hpending⟩ := h
  cases q' with
  | none => cases hpending
  | some p' =>
    have hsame : (p == p') = true := (Option.some_beq_some (α := Pending)).symm.trans hpending
    obtain ⟨_, _, _⟩ := p
    obtain ⟨_, _, _⟩ := p'
    simp only [BEq.beq, instBEqPending.beq, Bool.and_eq_true, decide_eq_true_eq] at hsame
    exact ⟨_, rfl, hsame.1.symm, hsame.2.1.symm⟩

theorem not_beq_of_failures {b b' : Bookkeeping} (h : b.failures = b'.failures + 1) :
    (b == b') = false := by
  cases hsame : b == b' with
  | false => rfl
  | true =>
    have hfailures := (same_of_beq hsame).failures
    rw [h] at hfailures
    exact absurd hfailures (UInt32.add_one_ne _)

/-- Bookkeeping with a failure more never counts as the same. -/
theorem ne_of_failures {b b' : Bookkeeping} (h : b.failures = b'.failures + 1) :
    (b == b') ≠ true :=
  Bool.eq_false_iff.mp (not_beq_of_failures h)

theorem not_beq_of_cycles {b b' : Bookkeeping} (h : b.cycles = b'.cycles + 1) :
    (b == b') = false := by
  cases hsame : b == b' with
  | false => rfl
  | true =>
    have hcycles := (same_of_beq hsame).cycles
    rw [h] at hcycles
    exact absurd hcycles (UInt64.add_one_ne _)

theorem not_beq_of_lastRound {b b' : Bookkeeping} (h : b'.nextRound = some b.lastRound) :
    (b == b') = false := by
  cases hsame : b == b' with
  | false => rfl
  | true => exact absurd (same_of_beq hsame).lastRound (ne_of_successor h)

theorem not_beq_of_pending {b b' : Bookkeeping} (h : b.pending.isSome ≠ b'.pending.isSome) :
    (b == b') = false := by
  cases hsame : b == b' with
  | false => rfl
  | true => exact absurd (same_of_beq hsame).pending h

/-- The rounds, the last value and the submission are the same. -/
structure SameLedger (b b' : Bookkeeping) : Prop where
  lastRound : b'.lastRound = b.lastRound
  lastValue : b'.lastValue = b.lastValue
  pending : b'.pending = b.pending

theorem SameLedger.nextRound {b b' : Bookkeeping} (h : b.SameLedger b') :
    b'.nextRound = b.nextRound := congrArg successor? h.lastRound

end Bookkeeping

end PriceOracle
