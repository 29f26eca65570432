import PriceOracle.Cycle
import PriceOracle.Proofs.Program.Behaviour

/-!
# The ends of a cycle

Wherever a cycle comes to an end that is worth writing down, it goes through the same three
requests: the time of day, a change of the bookkeeping, and an event about what the bookkeeping is
then. What is proved of cycles differs in what is asserted on the way, in which requests are
permitted and in how the surroundings behave, but not in this passage. It is gone through here once,
for any assertion, permit and behaviour: whoever uses `keeps_stamped` only says what becomes of an
assertion at each of the three.
-/

namespace PriceOracle.Cycle

open Attempt (Ends)
open Program (Carries Keeps)
open Surroundings (Step interface)

variable {σ β : Type} {B : Behaviour interface σ} {allow : Surroundings.Request → σ → Prop}
  {J : σ → Prop} {s : σ}

/-- What is carried through a look at the clock is carried through the question whether a deadline
has passed. -/
theorem keeps_isLate {deadline : Duration} {f : Bool → Step β}
    {post : Except RegistryError β → σ → Prop} (h : Carries B allow J .elapsed) (hs : J s)
    (hf : ∀ late t, J t → Keeps B allow post (f late).run t) :
    Keeps B allow post ((liftM (isLate deadline) : Step Bool) >>= f).run s :=
  Attempt.keeps_lift_bind.mpr
    (Program.keeps_bind.mpr ((h.keeps hs).mono fun _ t ht => hf _ t ht))

/-- Nothing is asked for but that the stage is put back, if anything. -/
theorem leaveStage_cases (id : OracleId) (e : Except RegistryError Outcome) :
    leaveStage id e = Program.done () ∨ leaveStage id e = Surroundings.enter id .idle := by
  unfold leaveStage
  split
  · exact .inl rfl
  · exact .inr rfl

theorem keeps_leaveStage {id : OracleId} (h : Carries B allow J (.enter id .idle))
    (e : Except RegistryError Outcome) (hs : J s) :
    Keeps B allow (fun _ => J) (leaveStage id e) s := by
  rcases leaveStage_cases id e with hleft | hidle
  · rw [hleft]
    exact hs
  · rw [hidle]
    exact h.keeps hs

variable {id : OracleId} {event : Bookkeeping → Event} {K L : UInt64 → Bookkeeping → σ → Prop}
  {post : Except RegistryError β → σ → Prop}

/-- An end of a cycle is written down with the time of day, and then told. -/
theorem keeps_stamped {change : UInt64 → Bookkeeping → Bookkeeping} {f : Bookkeeping → Step β}
    (hclock : Carries B allow J .unixTime)
    (hrevise : ∀ now t, J t → Keeps B allow (Ends (K now) fun e => post (.error e))
      (Surroundings.revise id (change now)).run t)
    (htell : ∀ now b t, K now b t →
      Keeps B allow (fun _ => L now b) (Surroundings.emit (event b)) t)
    (hf : ∀ now b t, L now b t → Keeps B allow post (f b).run t) (hs : J s) :
    Keeps B allow post
      ((liftM Surroundings.unixTime : Step UInt64) >>= fun now =>
        Surroundings.revise id (change now) >>= fun b =>
          (liftM (Surroundings.emit (event b)) : Step Unit) >>= fun _ => f b).run s := by
  refine Attempt.keeps_carries hclock hs fun now t ht => ?_
  refine Attempt.keeps_bind.mpr ((hrevise now t ht).mono fun e t he => ?_)
  cases e with
  | error e => exact he
  | ok b =>
    exact Attempt.keeps_lift_bind.mpr ((htell now b t he).mono fun _ t hL => hf now b t hL)

end PriceOracle.Cycle
