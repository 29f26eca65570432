import PriceOracle.Publication
import PriceOracle.Proofs.Program.Behaviour
import PriceOracle.Proofs.Round

/-!
# Publications on any feed

What the two halves of a publication ask for, give back and fail for, whatever the feed answers: a
submission carries the encoding of the value and is for the round it was asked for (`Taken`), a
confirmed round is the one that was submitted, with the answer that was sent (`Told`), and nothing
but a submission sends an update.

A publication that fails passes a failure of the feed on, finds one itself, or has a value that no
feed can hold; `Causes` says which of those there may be.
-/

namespace PriceOracle

/-- A publication fails for a value that no feed can hold. -/
def PublishError.IsOutOfRange : PublishError → Prop
  | valueOutOfRange _ => True
  | _ => False

/-- The failure that a feed replies with. -/
def Feed.Request.failure? : (r : Feed.Request) → r.Reply → Option PublishError
  | .latestRound _, .error e | .roundData _ _, .error e | .submit _ _, .error e
  | .receipt _ _, .error e | .isKnown _ _, .error e | .confirmation _ _ _, .error e => some e
  | _, _ => none

/-- Requests that send nothing. -/
def Feed.Request.reads : Feed.Request → Prop
  | submit _ _ => False
  | _ => True

namespace Publication

open Attempt (Ends)
open Program (Keeps Leads)

variable {σ : Type} {B : Behaviour Feed.interface σ} {s : σ}

/-- Nothing is asked of the requests to feeds. -/
abbrev anyRequest : Feed.Request → σ → Prop := fun _ _ => True

/-- Nothing is sent. -/
abbrev onlyReads : Feed.Request → σ → Prop := fun r _ => r.reads

/-- An update carries the encoding of a value, to its destination. -/
def Sends (d : Destination) (value : Decimal) : Feed.Request → Prop
  | .submit d' answer => d' = d ∧ encode d value = .ok answer
  | _ => True

/-- A kind of failures to which all that publications run into belong, unless a value is out of
range. -/
structure Causes (B : Behaviour Feed.interface σ) (cause : PublishError → Prop) : Prop where
  /-- Failures of the feed. -/
  told : ∀ {r s reply t e}, B r s reply t → Feed.Request.failure? r reply = some e → cause e
  /-- Failures that publications find themselves. -/
  found : ∀ {e : PublishError}, ¬e.IsOutOfRange → cause e

theorem Causes.any : Causes B fun _ => True := ⟨fun _ _ => trivial, fun _ => trivial⟩

variable {cause : PublishError → Prop} {value : Decimal}

/-- A submission is what the feed took just now. -/
structure Taken (B : Behaviour Feed.interface σ) (d : Destination) (value : Decimal)
    (round : RoundId) (x : Submission) (s : σ) : Prop where
  round_eq : x.round = round
  value_eq : x.value = value
  encoded : encode d value = .ok x.answer
  reply : ∃ s₁, B (.submit d x.answer) s₁ (.ok x.txHash) s

/-- A round is what the feed told just now, with the answer that was sent. -/
structure Told (B : Behaviour Feed.interface σ) (d : Destination) (x : Submission)
    (r : RoundRecord) (s : σ) : Prop where
  round_eq : r.round = x.round
  value_eq : r.answer = x.value
  reply : ∃ f s₁, B (.roundData d x.round) s₁ (.ok (some f)) s ∧ f.answer = x.answer

/-- A round may be sent exactly if it is one more than the round that the feed is at. -/
theorem checkNext_eq_ok {current round : RoundId} :
    checkNext current round = .ok () ↔ successor? current = some round := by
  rw [checkNext]
  cases successor? current with
  | none => exact iff_of_false nofun nofun
  | some next =>
    rw [Option.some_inj]
    dsimp only
    split
    next hnext => exact iff_of_true rfl hnext
    next hother => exact iff_of_false nofun hother

/-- The check itself fails exactly if nothing can come after the round that the feed is at. -/
theorem checkNext_overflow_iff {current round : RoundId} {e : PublishError}
    (h : checkNext current round = .error e) :
    (.error e : Except PublishError Submission) = .error .overflow ↔ successor? current = none := by
  rw [checkNext] at h
  cases hnext : successor? current with
  | none =>
    rw [hnext] at h
    cases h
    exact iff_of_true rfl rfl
  | some next =>
    rw [hnext] at h
    dsimp only at h
    split at h
    · cases h
    · cases h
      exact iff_of_false nofun nofun

/-- A round that may not be sent is none too large a value. -/
theorem not_isOutOfRange_of_checkNext {current round : RoundId} {e : PublishError}
    (h : checkNext current round = .error e) : ¬e.IsOutOfRange := by
  rw [checkNext] at h
  cases hnext : successor? current with
  | none =>
    rw [hnext] at h
    cases h
    exact not_false
  | some next =>
    rw [hnext] at h
    dsimp only at h
    split at h
    · cases h
    · cases h
      exact not_false

theorem keeps_submitRound (hcause : Causes B cause) {d : Destination}
    (hvalue : ∀ e, encode d value = .error e → cause e) (round : RoundId) :
    Keeps B (fun r _ => Sends d value r)
      (Ends (fun x s => Taken B d value round x s) fun e _ => cause e)
      (submitRound d value round).run s := by
  rw [submitRound]
  refine Attempt.keeps_bind.mpr ?_
  cases hencoded : encode d value with
  | error e => exact hvalue e hencoded
  | ok answer =>
    refine Attempt.keeps_bind.mpr ⟨trivial, fun reply s hreply => ?_⟩
    cases reply with
    | error e => exact hcause.told hreply rfl
    | ok current =>
      refine Attempt.keeps_bind.mpr ?_
      cases hchecked : checkNext current.round round with
      | error e => exact hcause.found (not_isOutOfRange_of_checkNext hchecked)
      | ok _ =>
        refine Attempt.keeps_bind.mpr ⟨⟨rfl, hencoded⟩, fun reply s hreply => ?_⟩
        cases reply with
        | error e => exact hcause.told hreply rfl
        | ok hash => exact ⟨rfl, rfl, hencoded, _, hreply⟩

theorem keeps_readBack (hcause : Causes B cause) (d : Destination) (x : Submission) :
    Keeps B onlyReads (Ends (fun r s => Told B d x r s) fun e _ => cause e)
      (readBack d x).run s := by
  rw [readBack]
  refine Attempt.keeps_bind.mpr ⟨trivial, fun reply s hreply => ?_⟩
  cases reply with
  | error e => exact hcause.told hreply rfl
  | ok found =>
    cases found with
    | none => exact hcause.found not_false
    | some f =>
      show Keeps _ _ _ (ExceptT.run (if _ then _ else _)) s
      split
      · refine Attempt.keeps_bind.mpr ⟨trivial, fun reply s hreply => ?_⟩
        cases reply with
        | error e => exact hcause.told hreply rfl
        | ok latest => exact hcause.found not_false
      next hsame => exact ⟨rfl, rfl, f, _, hreply, Decidable.of_not_not hsame⟩

theorem keeps_confirmRound (hcause : Causes B cause) (depth : UInt64) (d : Destination)
    (x : Submission) :
    Keeps B onlyReads (Ends (fun r s => Told B d x r s) fun e _ => cause e)
      (confirmRound depth d x).run s := by
  rw [confirmRound]
  refine Attempt.keeps_bind.mpr ⟨trivial, fun reply s hreply => ?_⟩
  cases reply with
  | error e => exact hcause.told hreply rfl
  | ok receipt =>
    show Keeps _ _ _ (ExceptT.run (if _ then _ else _)) s
    split
    · exact hcause.found not_false
    · exact keeps_readBack hcause d x

/-- A submission without a receipt is never taken for a round. -/
theorem keeps_resolveUnmined (hcause : Causes B cause) (d : Destination) (p : Pending) :
    Keeps B onlyReads (Ends (fun o _ => o = none) fun e _ => cause e)
      (resolveUnmined d p).run s := by
  rw [resolveUnmined]
  refine Attempt.keeps_bind.mpr ⟨trivial, fun reply s hreply => ?_⟩
  cases reply with
  | error e => exact hcause.told hreply rfl
  | ok current =>
    show Keeps _ _ _ (ExceptT.run (if _ then _ else _)) s
    split
    · exact hcause.found not_false
    · refine Attempt.keeps_bind.mpr ⟨trivial, fun reply s hreply => ?_⟩
      cases reply with
      | error e => exact hcause.told hreply rfl
      | ok known =>
        show Keeps _ _ _ (ExceptT.run (if _ then _ else _)) s
        split
        · exact hcause.found not_false
        · exact rfl

theorem keeps_resolve (hcause : Causes B cause) {d : Destination} {p : Pending}
    (hvalue : ∀ e, encode d p.answer = .error e → cause e) :
    Keeps B onlyReads
      (Ends (fun o s => ∀ r, o = some r →
          ∃ answer, encode d p.answer = .ok answer ∧
            Told B d ⟨p.txHash, p.round, p.answer, answer⟩ r s)
        fun e _ => cause e)
      (resolve d p).run s := by
  rw [resolve]
  refine Attempt.keeps_bind.mpr ?_
  cases hencoded : encode d p.answer with
  | error e => exact hvalue e hencoded
  | ok answer =>
    refine Attempt.keeps_bind.mpr ⟨trivial, fun reply s hreply => ?_⟩
    cases reply with
    | error e => exact hcause.told hreply rfl
    | ok found =>
      cases found with
      | some receipt =>
        show Keeps _ _ _ (ExceptT.run (if _ then _ else _)) s
        split
        · refine Attempt.keeps_bind.mpr ((keeps_readBack hcause d _).mono fun e s h => ?_)
          cases e with
          | error e => exact h
          | ok r =>
            rintro r' h'
            cases h'
            exact ⟨answer, rfl, h⟩
        · exact fun r h => by cases h
      | none =>
        refine (keeps_resolveUnmined hcause d p).mono fun e s h => ?_
        cases e with
        | error e => exact h
        | ok o =>
          rintro r rfl
          cases (show some r = none from h)

/-- A submission whose receipt is told is settled as its round. -/
theorem leads_resolve {d : Destination} {p : Pending} {answer : Uint256} {receipt : Receipt}
    {r : FeedRound} {s' s'' : σ} (hencoded : encode d p.answer = .ok answer)
    (hreceipt : B (.receipt d p.txHash) s (.ok (some receipt)) s')
    (hsuccess : receipt.success = true)
    (hround : B (.roundData d p.round) s' (.ok (some r)) s'') (hanswer : r.answer = answer) :
    Leads B (resolve d p).run s (.done (.ok (some ⟨p.round, p.answer, r.updatedAt⟩))) s'' := by
  rw [resolve, hencoded]
  refine .ask hreceipt ?_
  show Leads B (ExceptT.run (if receipt.success = true then _ else _)) _ _ _
  rw [if_pos hsuccess]
  refine .ask hround ?_
  show Leads B (Program.bind (ExceptT.run (if r.answer ≠ answer then _ else _)) _) _ _ _
  rw [if_neg (Decidable.not_not.mpr hanswer)]
  exact .here _ _

end Publication

end PriceOracle
