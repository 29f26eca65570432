import PriceOracle.Proofs.Cycle.Outline
import PriceOracle.Proofs.Service.Paths

/-!
# Paths through a cycle

A cycle of an oracle that is due, on which nothing is pending, may come to every point of a
publication: to the submission, to a submission that is written down or fails to be, and to every
end after it. These are the runs behind statements that something may happen.
-/

namespace PriceOracle

open Program (Leads)
open Surroundings (Action Step)

/-- Sources may answer anything. -/
def Source.anyAnswer : Behaviour Source.interface Unit := fun _ _ _ _ => True

/-- A read of a source may give a value. -/
def Source.MayGive (limit : Duration) (source : Source) (value : Decimal) : Prop :=
  Leads Source.anyAnswer (Source.read limit source) () (.done (.ok value)) ()

namespace Cycle

/-- A cycle finds a value that can be published, in time. -/
structure Finds (policy : Policy) (c : OracleConfig) (deadline : Duration) (value : Decimal)
    (answer : Uint256) : Prop where
  given : Source.MayGive policy.limit c.source value
  valid : policy.validation.fault? value = none
  encoded : Publication.encode c.destination value = .ok answer
  inTime : 0 < deadline.nanos

/-- An oracle that publishes in its next cycle. -/
structure Ready (c : OracleConfig) (b : Bookkeeping) : Prop where
  running : b.halted = none
  clear : b.pending = none
  due : Schedule.isDue c.threshold (b.cycles + 1) = true

variable {φ : Type} {N : Nature φ} {id : OracleId} {policy : Policy} {c : OracleConfig}
  {b : Bookkeeping} {s s' : φ} {row row' : Row} {deadline : Duration} {value : Decimal}
  {answer : Uint256} {round : RoundId}

/-- The bookkeeping after a cycle was counted. -/
def counted (b : Bookkeeping) : Bookkeeping := { b with cycles := b.cycles + 1 }

/-- The bookkeeping after a submission was written down. -/
def noted (x : Submission) (b : Bookkeeping) : Bookkeeping := { b with pending := some x.pending }

/-- What an oracle that runs does after its cycle was counted. -/
theorem decide_counted (hrunning : b.halted = none) :
    Schedule.decide c.threshold (counted b)
      = if Schedule.isDue c.threshold (b.cycles + 1) then .due
        else .notDue (Schedule.remaining c.threshold (b.cycles + 1)) :=
  Schedule.decide_of_running (b := counted b) hrunning

/-! ## The frame of a cycle -/

theorem reaches_run {q : Step Outcome} (hmoves : ∀ s, N.moves s s)
    (h : Reaches N id (runLocked policy id deadline).run row s q.run row' s') :
    Reaches N id (run policy id deadline) row s
      (q.run.bind fun outcome => do
        leaveStage id outcome
        Surroundings.release 0
        return outcome) row' s' := by
  refine .trans (.quiet (r := .slot id) trivial (0 : Slot) (hmoves s)) ?_
  refine .trans (.quiet (r := .tryTake (0 : Slot)) trivial true (hmoves s)) ?_
  exact h.bind _

/-- A cycle may end as it does behind the lock. -/
theorem reaches_run_end {outcome : Except RegistryError Outcome} (hmoves : ∀ s, N.moves s s)
    (h : Reaches N id (runLocked policy id deadline).run row s (.done outcome) row' s') :
    Reaches N id (run policy id deadline) row s (.done outcome) row' s' := by
  refine .trans (reaches_run (q := ExceptT.mk (Program.done outcome)) hmoves h) ?_
  have hrelease : Reaches N id (do Surroundings.release 0; return outcome) row' s' (.done outcome)
      row' s' := .quiet (r := .release 0) trivial () (hmoves s')
  rcases leaveStage_cases id outcome with hleft | hidle
  · show Reaches N id (Program.bind (leaveStage id outcome) _) _ _ _ _ _
    rw [hleft]
    exact hrelease
  · show Reaches N id (Program.bind (leaveStage id outcome) _) _ _ _ _ _
    rw [hidle]
    exact .trans (.quiet (r := .enter id .idle) trivial () (hmoves s')) hrelease

/-- An oracle that runs, on which nothing is pending, comes to look whether it is due. -/
theorem reaches_observe (hmoves : ∀ s, N.moves s s) (hrunning : b.halted = none)
    (hpending : b.pending = none) :
    Reaches N id (runLocked policy id deadline).run ⟨c, b⟩ s
      (observe policy id c deadline).run ⟨c, b⟩ s := by
  refine .trans (.tell hmoves) (.resume ?_)
  simp only [hrunning, hpending]
  exact .refl _ _ _

/-- A cycle that is due comes to publish a value that it finds. -/
theorem reaches_publish (hmoves : ∀ s, N.moves s s) (hready : Ready c b)
    (hfinds : Finds policy c deadline value answer) :
    Reaches N id (runLocked policy id deadline).run ⟨c, b⟩ s
      (publish policy id c (counted b) value deadline).run ⟨c, counted b⟩ s := by
  have hlate : decide (deadline.nanos ≤ 0) = false := by
    have := hfinds.inTime
    simp only [decide_eq_false_iff_not]
    omega
  refine .trans (reaches_observe hmoves hready.running hready.clear) ?_
  refine .trans (.revise counted hmoves (Bookkeeping.not_beq_of_cycles rfl)) (.resume ?_)
  rw [decide_counted hready.running, if_pos hready.due]
  refine .trans (.quiet (r := .elapsed) trivial (⟨0⟩ : Duration) (hmoves s)) ?_
  show Reaches N id (ExceptT.run (if decide (deadline.nanos ≤ 0) = true then _ else _)) _ _ _ _ _
  rw [hlate]
  refine .trans (.quiet (r := .enter id .fetching) trivial () (hmoves s)) ?_
  refine .andThen (p := (Surroundings.act (Surroundings.source (Source.read policy.limit c.source))
    : Step _).run) (.andThen (.source hmoves hfinds.given) (.refl _ _ _)) ?_
  refine .trans (.quiet (r := .enter id .validating) trivial () (hmoves s)) (.resume ?_)
  rw [hfinds.valid]
  refine .trans (.quiet (r := .elapsed) trivial (⟨0⟩ : Duration) (hmoves s)) ?_
  show Reaches N id (ExceptT.run (if decide (deadline.nanos ≤ 0) = true then _ else _)) _ _ _ _ _
  rw [hlate]
  exact .refl _ _ _

/-- A value is published as the next round, if there is one. -/
theorem reaches_publishAs (hmoves : ∀ s, N.moves s s) (hnext : b.nextRound = some round) :
    Reaches N id (publish policy id c (counted b) value deadline).run row s
      (publishAs policy id c value round deadline).run row s := by
  refine .trans (.quiet (r := .enter id .publishing) trivial () (hmoves s)) (.resume ?_)
  have hsame : (counted b).nextRound = some round := hnext
  rw [hsame]
  exact .refl _ _ _

/-- A cycle that finds a value for which there is no round breaks off. -/
theorem reaches_end_overflowed (hmoves : ∀ s, N.moves s s) (hready : Ready c b)
    (hnone : b.nextRound = none) (hfinds : Finds policy c deadline value answer) :
    Reaches N id (run policy id deadline) ⟨c, b⟩ s (.done (.ok .overflowed)) ⟨c, counted b⟩ s := by
  refine reaches_run_end hmoves ((reaches_publish hmoves hready hfinds).trans ?_)
  refine .trans (.quiet (r := .enter id .publishing) trivial () (hmoves s)) (.resume ?_)
  have hsame : (counted b).nextRound = none := hnone
  rw [hsame]
  exact .refl _ _ _

/-- A cycle that is not due is counted. -/
theorem reaches_waiting (policy : Policy) (deadline : Duration) (hmoves : ∀ s, N.moves s s)
    (hhalted : b.halted = none) (hpending : b.pending = none)
    (hdue : Schedule.isDue c.threshold (b.cycles + 1) = false) :
    Reaches N id (run policy id deadline) ⟨c, b⟩ s
      (.done (.ok (.waiting (Schedule.remaining c.threshold (b.cycles + 1)))))
      ⟨c, counted b⟩ s := by
  refine reaches_run_end hmoves (.trans (reaches_observe hmoves hhalted hpending) ?_)
  refine .trans (.revise counted hmoves (Bookkeeping.not_beq_of_cycles rfl)) (.resume ?_)
  rw [decide_counted hhalted, if_neg (by simpa using hdue)]
  exact .refl _ _ _

/-! ## Attempts to publish -/

/-- What comes after a submission was accepted. -/
def follow (policy : Policy) (c : OracleConfig) (x : Submission) :
    Step (Except PublishError RoundRecord) := do
  let _ ← Surroundings.revise c.id (noted x)
  Surroundings.emit (.publishSubmitted c.id x.round x.txHash)
  Surroundings.feed (Publication.confirmRound policy.depth c.destination x)

/-- What comes after a submission. -/
def afterSubmit (policy : Policy) (c : OracleConfig) (value : Decimal) (answer : Uint256)
    (round : RoundId) : Except PublishError TxHash →
      Action (Except RegistryError (Except PublishError RoundRecord))
  | .error e => .done (.ok (.error e))
  | .ok h => (follow policy c ⟨h, round, value, answer⟩).run

/-- An attempt comes to the submission where the feed is at the round before. -/
theorem reaches_submission (policy : Policy) (hmoves : ∀ s, N.moves s s) (hnamed : c.id = id)
    (hpending : b.pending = none) (hencoded : Publication.encode c.destination value = .ok answer)
    {current : FeedRound} (hlatest : N.feed (.latestRound c.destination) s (.ok current) s)
    (hnext : successor? current.round = some round) :
    Reaches N id (publishOnce policy c value round).run ⟨c, b⟩ s
      (.ask (.feed (.submit c.destination answer)) (afterSubmit policy c value answer round))
      ⟨c, b⟩ s := by
  subst hnamed
  refine .trans (.tell hmoves) (.resume ?_)
  simp only [hpending]
  rw [submit, Publication.submitRound, hencoded]
  refine .trans (.feed hlatest (hmoves s)) ?_
  show Reaches N c.id (Program.bind (Program.bind (Program.through _
    (ExceptT.run (Attempt.ofExcept (Publication.checkNext current.round round) >>= _))) _) _)
    _ _ _ _ _
  rw [Publication.checkNext_eq_ok.mpr hnext]
  refine .of_eq (congrArg (Program.ask (I := Surroundings.interface) _) ?_)
  funext reply
  cases reply <;> rfl

/-- A submission that was accepted may fail to be written down. -/
theorem reaches_lost {x : Submission} (hmoves : ∀ s, N.moves s s) (hnamed : c.id = id)
    (hpending : b.pending = none)
    (hfails : ∀ m, N.mayFail (.set (Storage.recordKey Registry.rowSpace id)
      (Storage.encode (⟨c, noted x b⟩ : Row).toJson)) m)
    (e : StorageError) :
    Reaches N id (follow policy c x).run ⟨c, b⟩ s (.done (.error (.storage e))) ⟨c, b⟩ s := by
  subst hnamed
  refine .revise_fails (noted x) hmoves ?_ hfails e
  refine Bookkeeping.not_beq_of_pending ?_
  rw [hpending]
  nofun

/-- A submission that was accepted may be written down. -/
theorem reaches_noted {x : Submission} (hmoves : ∀ s, N.moves s s) (hnamed : c.id = id)
    (hpending : b.pending = none) :
    Reaches N id (follow policy c x).run ⟨c, b⟩ s
      (ExceptT.lift (Surroundings.feed (Publication.confirmRound policy.depth c.destination x)) :
        Step _).run ⟨c, noted x b⟩ s := by
  subst hnamed
  refine .trans (.revise _ hmoves (Bookkeeping.not_beq_of_pending ?_)) ?_
  · rw [hpending]
    nofun
  exact .quiet (r := .emit _) trivial () (hmoves s)

/-- Waiting for a submission may fail. -/
theorem reaches_unconfirmed {x : Submission} (hmoves : ∀ s, N.moves s s) {e : PublishError}
    (hwait : N.feed (.confirmation c.destination x.txHash policy.depth) s (.error e) s) :
    Reaches N id (ExceptT.lift (Surroundings.feed
        (Publication.confirmRound policy.depth c.destination x)) : Step _).run row s
      (.done (.ok (.error e))) row s :=
  .feed hwait (hmoves s)

/-- A submission may be confirmed and its round read back. -/
theorem reaches_confirmed {x : Submission} (hmoves : ∀ s, N.moves s s) {receipt : Receipt}
    (hwait : N.feed (.confirmation c.destination x.txHash policy.depth) s (.ok receipt) s)
    (hsuccess : receipt.success = true) {r : FeedRound}
    (hread : N.feed (.roundData c.destination x.round) s (.ok (some r)) s)
    (hanswer : r.answer = x.answer) :
    Reaches N id (ExceptT.lift (Surroundings.feed
        (Publication.confirmRound policy.depth c.destination x)) : Step _).run row s
      (.done (.ok (.ok ⟨x.round, x.value, r.updatedAt⟩))) row s := by
  refine .trans (.feed hwait (hmoves s)) ?_
  show Reaches N id (Program.bind (Program.through _
    (ExceptT.run (if (!receipt.success) = true then _ else _))) _) _ _ _ _ _
  rw [hsuccess]
  refine .trans (.feed hread (hmoves s)) ?_
  show Reaches N id (Program.bind (Program.through _
    (ExceptT.run (if r.answer ≠ x.answer then _ else _))) _) _ _ _ _ _
  rw [if_neg (not_not.mpr hanswer)]
  exact .refl _ _ _

/-! ## Ends of a publication -/

/-- Whatever the first attempt comes to ask for, publishing comes to ask for. -/
theorem reaches_publish_ask (deadline : Duration) {r : Surroundings.Request} {next}
    (h : Reaches N id (publishOnce policy c value round).run row s (.ask r next) row' s') :
    ∃ next', Reaches N id (publishAs policy id c value round deadline).run row s (.ask r next')
      row' s' := by
  suffices hretry : ∀ retries interval, ∃ next', Reaches N id
      (publishWithRetry policy c value round deadline retries interval).run row s
        (.ask r next') row' s' by
    obtain ⟨next', hreaches⟩ := hretry policy.retry.maxRetries.toNat policy.retry.initialInterval
    exact ⟨_, hreaches.bind _⟩
  intro retries interval
  -- With no retries left nothing comes behind the attempt.
  cases retries with
  | zero => exact ⟨_, h⟩
  | succ retries => exact ⟨_, h.bind _⟩

/-- Publishing may end with the first attempt. -/
theorem reaches_publish_end {e : Except RegistryError (Except PublishError RoundRecord)}
    {q : Action (Except RegistryError Outcome)} {row'' : Row} {s'' : φ}
    (hmoves : ∀ s, N.moves s s)
    (h : Reaches N id (publishOnce policy c value round).run row s (.done e) row' s')
    (hend : Reaches N id (match e with
      | .error e => .done (.error e)
      | .ok (.ok r) => (record id r).run
      | .ok (.error e) => (failPublish id round e).run) row' s' q row'' s'') :
    Reaches N id (publishAs policy id c value round deadline).run row s q row'' s'' := by
  have hretry : ∀ retries interval, Reaches N id
      (publishWithRetry policy c value round deadline retries interval).run row s
        (.done e) row' s' := by
    intro retries interval
    cases retries with
    | zero => exact h
    | succ retries =>
      refine .andThen h ?_
      rcases e with e | e | r
      · exact .refl _ _ _
      · show Reaches N id (ExceptT.run (if (!e.isRetryable) = true then _ else _)) _ _ _ _ _
        split
        · exact .refl _ _ _
        · -- A failure that may be tried again is not, as the time is up.
          refine .trans (.quiet (r := .delay _ _) trivial (⟨0⟩ : Duration) (hmoves s')) ?_
          refine .trans (.quiet (r := .elapsed) trivial deadline (hmoves s')) ?_
          show Reaches N id (ExceptT.run (if deadline.nanos ≤ deadline.nanos + 0 then _ else _))
            _ _ _ _ _
          rw [if_pos (show deadline.nanos ≤ deadline.nanos + 0 from Nat.le_refl _)]
          exact .refl _ _ _
      · exact .refl _ _ _
  refine .andThen (p := (publishWithRetry policy c value round deadline _ _).run)
    (hretry policy.retry.maxRetries.toNat policy.retry.initialInterval) ?_
  rcases e with e | e | r <;> exact hend

/-- A confirmed round may be written down. -/
theorem reaches_record {r : RoundRecord} (hmoves : ∀ s, N.moves s s) (now : UInt64)
    (hnext : r.round ≠ b.lastRound) :
    Reaches N id (record id r).run ⟨c, b⟩ s (.done (.ok (.published r))) ⟨c, afterRound now r b⟩
      s := by
  refine .trans (.quiet (r := .enter id .recorded) trivial () (hmoves s)) ?_
  refine .trans (.quiet (r := .unixTime) trivial now (hmoves s)) ?_
  have hchanged : (afterRound now r b == b) = false := by
    cases hsame : afterRound now r b == b with
    | false => rfl
    | true => exact absurd (Bookkeeping.same_of_beq hsame).lastRound hnext
  refine .trans (.revise _ hmoves hchanged) ?_
  exact .quiet (r := .emit _) trivial () (hmoves s)

/-- A publication that can be tried again may fail. -/
theorem reaches_failPublish {e : PublishError} (hmoves : ∀ s, N.moves s s) (now : UInt64)
    (hretryable : e.isRetryable = true) :
    Reaches N id (failPublish id round e).run ⟨c, b⟩ s
      (.done (.ok (.publishFailed round e.message true)))
      ⟨c, afterPublishFailure now none b⟩ s := by
  have hfits : e ≠ .overflow := by
    rintro rfl
    cases hretryable
  rw [failPublish, if_neg hfits]
  refine .trans (.quiet (r := .unixTime) trivial now (hmoves s)) ?_
  simp only [hretryable]
  refine .trans (.revise _ hmoves (Bookkeeping.not_beq_of_failures rfl)) ?_
  refine .trans (.quiet (r := .emit _) trivial () (hmoves s)) ?_
  exact .refl _ _ _

/-- A publication that cannot be tried again halts the oracle. -/
theorem reaches_failPublish_halted {e : PublishError} (hmoves : ∀ s, N.moves s s) (now : UInt64)
    (hfatal : e.isRetryable = false) (hfits : e ≠ .overflow) :
    Reaches N id (failPublish id round e).run ⟨c, b⟩ s
      (.done (.ok (.publishFailed round e.message false)))
      ⟨c, afterPublishFailure now (some e.message) b⟩ s := by
  rw [failPublish, if_neg hfits]
  refine .trans (.quiet (r := .unixTime) trivial now (hmoves s)) ?_
  simp only [hfatal]
  refine .trans (.revise _ hmoves (Bookkeeping.not_beq_of_failures rfl)) ?_
  refine .trans (.quiet (r := .emit _) trivial () (hmoves s)) ?_
  exact .quiet (r := .emit _) trivial () (hmoves s)

/-- A cycle that finds a submission pending ends as what follows settling it. -/
theorem reaches_settle (policy : Policy) {p : Pending}
    {e : Except PublishError (Option RoundRecord)} {outcome : Except RegistryError Outcome}
    {s'' : φ} (hmoves : ∀ s, N.moves s s) (hrunning : b.halted = none)
    (hpending : b.pending = some p) (hinTime : 0 < deadline.nanos)
    (hresolve : Program.Leads N.onFeed (Publication.resolve c.destination p).run s (.done e) s')
    (hend : Reaches N id (match e with
      | .error e => failPublish id p.round e
      | .ok (some settled) => record id settled
      | .ok none => do
        dropPending id
        observe policy id c deadline : Step Outcome).run ⟨c, b⟩ s' (.done outcome) row' s'') :
    Reaches N id (run policy id deadline) ⟨c, b⟩ s (.done outcome) row' s'' := by
  have hlate : decide (deadline.nanos ≤ 0) = false := by
    simp only [decide_eq_false_iff_not]
    omega
  refine reaches_run_end hmoves (.trans (.tell hmoves) (.resume ?_))
  simp only [hrunning, hpending]
  refine .trans (.quiet (r := .elapsed) trivial (⟨0⟩ : Duration) (hmoves s)) ?_
  show Reaches N id (ExceptT.run (if decide (deadline.nanos ≤ 0) = true then _ else _)) _ _ _ _ _
  rw [hlate]
  refine .trans (.quiet (r := .enter id .publishing) trivial () (hmoves s)) ?_
  refine .andThen (p := (Surroundings.act (Surroundings.feed (Publication.resolve c.destination p))
    : Step _).run) (.andThen (.use hresolve) (.refl _ _ _)) ?_
  rcases e with _ | _ | _ <;> exact hend

/-- A pending submission that cannot be settled for good halts the oracle. -/
theorem reaches_end_halted (policy : Policy) {p : Pending} {e : PublishError}
    (hmoves : ∀ s, N.moves s s) (hrunning : b.halted = none) (hpending : b.pending = some p)
    (hinTime : 0 < deadline.nanos)
    (hresolve : Program.Leads N.onFeed (Publication.resolve c.destination p).run s
      (.done (.error e)) s')
    (hfatal : e.isRetryable = false) (hfits : e ≠ .overflow) (now : UInt64) :
    Reaches N id (run policy id deadline) ⟨c, b⟩ s
      (.done (.ok (.publishFailed p.round e.message false)))
      ⟨c, afterPublishFailure now (some e.message) b⟩ s' :=
  reaches_settle policy hmoves hrunning hpending hinTime hresolve
    (reaches_failPublish_halted hmoves now hfatal hfits)

/-- A pending submission may be settled as a round. -/
theorem reaches_end_settled (policy : Policy) {p : Pending} {r : RoundRecord}
    (hmoves : ∀ s, N.moves s s) (hrunning : b.halted = none) (hpending : b.pending = some p)
    (hinTime : 0 < deadline.nanos)
    (hresolve : Program.Leads N.onFeed (Publication.resolve c.destination p).run s
      (.done (.ok (some r))) s')
    (hnext : r.round ≠ b.lastRound) (now : UInt64) :
    Reaches N id (run policy id deadline) ⟨c, b⟩ s (.done (.ok (.published r)))
      ⟨c, afterRound now r b⟩ s' :=
  reaches_settle policy hmoves hrunning hpending hinTime hresolve
    (reaches_record hmoves now hnext)

/-! ## Cycles that submit -/

/-- A feed that is at the last round of an oracle takes a submission. -/
structure Takes (N : Nature φ) (c : OracleConfig) (b : Bookkeeping) (answer : Uint256)
    (h : TxHash) (s s' : φ) : Prop where
  latest : ∃ current : FeedRound, current.round = b.lastRound ∧
    N.feed (.latestRound c.destination) s (.ok current) s
  taken : ∃ s₁, N.feed (.submit c.destination answer) s (.ok h) s₁ ∧ N.moves s₁ s'

variable {h : TxHash} {s₁ s₂ : φ}

/-- A cycle whose submission is taken ends as what follows the submission. -/
theorem reaches_end {e : Except RegistryError (Except PublishError RoundRecord)}
    {outcome : Except RegistryError Outcome} (hmoves : ∀ s, N.moves s s) (hnamed : c.id = id)
    (hready : Ready c b) (hnext : b.nextRound = some round)
    (hfinds : Finds policy c deadline value answer) (htakes : Takes N c b answer h s s₁)
    (hfollow : Reaches N id (follow policy c ⟨h, round, value, answer⟩).run ⟨c, counted b⟩ s₁
      (.done e) row s₂)
    (hend : Reaches N id (match e with
      | .error e => .done (.error e)
      | .ok (.ok r) => (record id r).run
      | .ok (.error e) => (failPublish id round e).run) row s₂ (.done outcome) row' s') :
    Reaches N id (run policy id deadline) ⟨c, b⟩ s (.done outcome) row' s' := by
  obtain ⟨⟨current, hcurrent, hlatest⟩, s₀, htaken, hmoved⟩ := htakes
  have hafter : successor? current.round = some round := by
    rw [hcurrent]
    exact hnext
  have hattempt := (reaches_submission policy (b := counted b) hmoves hnamed hready.clear
    hfinds.encoded hlatest hafter).trans (.feed htaken hmoved)
  refine reaches_run_end hmoves ((reaches_publish hmoves hready hfinds).trans ?_)
  refine .trans (reaches_publishAs hmoves hnext) ?_
  exact reaches_publish_end hmoves (hattempt.trans hfollow) hend

/-- A submission that is taken may get lost. -/
theorem reaches_end_lost (hmoves : ∀ s, N.moves s s) (hnamed : c.id = id) (hready : Ready c b)
    (hnext : b.nextRound = some round) (hfinds : Finds policy c deadline value answer)
    (htakes : Takes N c b answer h s s')
    (hfails : ∀ m, N.mayFail (.set (Storage.recordKey Registry.rowSpace id)
      (Storage.encode
        (⟨c, noted ⟨h, round, value, answer⟩ (counted b)⟩ : Row).toJson)) m)
    (e : StorageError) :
    Reaches N id (run policy id deadline) ⟨c, b⟩ s (.done (.error (.storage e))) ⟨c, counted b⟩
      s' := by
  have hclear : (counted b).pending = none := hready.clear
  have hfollow : Reaches N id (follow policy c ⟨h, round, value, answer⟩).run
      ⟨c, counted b⟩ s' (.done (.error (.storage e))) ⟨c, counted b⟩ s' :=
    reaches_lost hmoves hnamed hclear hfails e
  exact reaches_end hmoves hnamed hready hnext hfinds htakes hfollow (.refl _ _ _)

/-- A submission that is taken may not be confirmed in its cycle. -/
theorem reaches_end_unconfirmed (hmoves : ∀ s, N.moves s s) (hnamed : c.id = id)
    (hready : Ready c b) (hnext : b.nextRound = some round)
    (hfinds : Finds policy c deadline value answer) (htakes : Takes N c b answer h s s')
    {e : PublishError} (hretryable : e.isRetryable = true)
    (hwait : N.feed (.confirmation c.destination h policy.depth) s' (.error e) s') (now : UInt64) :
    Reaches N id (run policy id deadline) ⟨c, b⟩ s
      (.done (.ok (.publishFailed round e.message true)))
      ⟨c, afterPublishFailure now none
        (noted ⟨h, round, value, answer⟩ (counted b))⟩ s' := by
  let x : Submission := ⟨h, round, value, answer⟩
  have hclear : (counted b).pending = none := hready.clear
  have hfollow : Reaches N id (follow policy c x).run ⟨c, counted b⟩ s' (.done (.ok (.error e)))
      ⟨c, noted x (counted b)⟩ s' :=
    (reaches_noted hmoves hnamed hclear).trans (reaches_unconfirmed hmoves hwait)
  exact reaches_end hmoves hnamed hready hnext hfinds htakes hfollow
    (reaches_failPublish hmoves now hretryable)

/-- A submission that is taken may be confirmed in its cycle. -/
theorem reaches_end_published (hmoves : ∀ s, N.moves s s) (hnamed : c.id = id)
    (hready : Ready c b) (hnext : b.nextRound = some round)
    (hfinds : Finds policy c deadline value answer) (htakes : Takes N c b answer h s s')
    {receipt : Receipt} (hsuccess : receipt.success = true)
    (hwait : N.feed (.confirmation c.destination h policy.depth) s' (.ok receipt) s')
    {r : FeedRound} (hread : N.feed (.roundData c.destination round) s' (.ok (some r)) s')
    (hanswer : r.answer = answer) (now : UInt64) :
    Reaches N id (run policy id deadline) ⟨c, b⟩ s
      (.done (.ok (.published ⟨round, value, r.updatedAt⟩)))
      ⟨c, afterRound now ⟨round, value, r.updatedAt⟩
        (noted ⟨h, round, value, answer⟩ (counted b))⟩ s' := by
  let x : Submission := ⟨h, round, value, answer⟩
  have hclear : (counted b).pending = none := hready.clear
  have hfollow : Reaches N id (follow policy c x).run ⟨c, counted b⟩ s'
      (.done (.ok (.ok ⟨round, value, r.updatedAt⟩))) ⟨c, noted x (counted b)⟩ s' :=
    (reaches_noted hmoves hnamed hclear).trans
      (reaches_confirmed hmoves hwait hsuccess hread hanswer)
  exact reaches_end hmoves hnamed hready hnext hfinds htakes hfollow
    (reaches_record hmoves now (ne_of_successor hnext))

/-! ## Runs of cycles -/

/-- A reached end of a cycle is a step. -/
theorem step_of_reaches {outcome : Except RegistryError Outcome} {w : World φ}
    (h : Reaches N id (run policy id deadline) row s (.done outcome) row' s')
    (hkept : Registry.Kept id row w.table w.storage) (houtside : w.outside = s) :
    ∃ w', N.Step id w (.cycled outcome) w' ∧ Registry.Kept id row' w'.table w'.storage ∧
      w'.outside = s' := by
  obtain ⟨w', hkept', houtside', -, hrun⟩ := h w hkept houtside
  exact ⟨w', .cycle policy deadline hrun, hkept', houtside'⟩

/-- A cycle that only counted. -/
def Waited (h : Happening) : Prop := ∃ remaining, h = .cycled (.ok (.waiting remaining))

theorem isDue_iff {threshold cycles : UInt64} :
    Schedule.isDue threshold cycles = true ↔
      0 < threshold.toNat ∧ threshold.toNat ≤ cycles.toNat := by
  simp [Schedule.isDue, UInt64.lt_iff_toNat_lt, UInt64.le_iff_toNat_le]

/-- Cycles that find nothing pending count up to the threshold. -/
theorem run_until_due (policy : Policy) (deadline : Duration) (hmoves : ∀ s, N.moves s s)
    (hhalted : b.halted = none) (hpending : b.pending = none) (hthreshold : c.threshold ≠ 0)
    {w : World φ}
    (hkept : Registry.Kept id ⟨c, b⟩ w.table w.storage) :
    ∃ hs w' n, N.Run id w hs w' ∧ (∀ h ∈ hs, Waited h) ∧
      Registry.Kept id ⟨c, { b with cycles := n }⟩ w'.table w'.storage ∧ w'.outside = w.outside ∧
      Ready c { b with cycles := n } := by
  have hpositive : 0 < c.threshold.toNat := by
    refine Nat.pos_of_ne_zero ?_
    intro hzero
    exact hthreshold (UInt64.toNat_inj.mp hzero)
  -- The induction is on the cycles that are still needed.
  induction hneeded : c.threshold.toNat - (b.cycles + 1).toNat using Nat.strongRecOn
    generalizing b w with
  | ind needed ih =>
    by_cases hdue : Schedule.isDue c.threshold (b.cycles + 1) = true
    · exact ⟨[], w, b.cycles, .nil w, by simp, hkept, rfl, ⟨hhalted, hpending, hdue⟩⟩
    · have hwait : Schedule.isDue c.threshold (b.cycles + 1) = false := by simpa using hdue
      obtain ⟨w₁, hstep, hkept₁, houtside₁⟩ := step_of_reaches
        (reaches_waiting policy deadline hmoves hhalted hpending hwait) hkept rfl
      have hshort : (b.cycles + 1).toNat < c.threshold.toNat := by
        rw [isDue_iff] at hdue
        omega
      have hnext : (b.cycles + 1 + 1).toNat = (b.cycles + 1).toNat + 1 := by
        have hlt := c.threshold.toNat_lt
        have hone : (1 : UInt64).toNat = 1 := rfl
        rw [UInt64.toNat_add (b.cycles + 1) 1]
        omega
      obtain ⟨hs, w', n, hrun, hwaited, hkept', houtside', hready⟩ := ih
        (c.threshold.toNat - (b.cycles + 1 + 1).toNat) (by omega) (b := counted b) hhalted hpending
        hkept₁ rfl
      refine ⟨_ :: hs, w', n, .cons hstep hrun, ?_, hkept', houtside'.trans houtside₁, hready⟩
      intro h hmem
      rcases List.mem_cons.mp hmem with rfl | hmem
      · exact ⟨_, rfl⟩
      · exact hwaited h hmem

/-- An oracle that is due comes to submit where its feed is at its last round. -/
theorem asks_submit (hmoves : ∀ s, N.moves s s) (hready : Ready c b)
    (hnext : b.nextRound = some round) (hfinds : Finds policy c deadline value answer)
    {current : FeedRound} {w : World φ}
    (hlatest : N.feed (.latestRound c.destination) w.outside (.ok current) w.outside)
    (hround : current.round = b.lastRound) (hkept : Registry.Kept id ⟨c, b⟩ w.table w.storage) :
    ∃ w', N.Asks id w (.submit c.destination answer) w' ∧ w'.outside = w.outside := by
  have hafter : successor? current.round = some round := by
    rw [hround]
    exact hnext
  obtain ⟨next, hreaches⟩ := reaches_publish_ask deadline
    (reaches_submission policy (b := counted b) hmoves hkept.named hready.clear
      hfinds.encoded hlatest hafter)
  have hlocked := ((reaches_publish hmoves hready hfinds).trans
    (reaches_publishAs hmoves hnext)).trans hreaches
  obtain ⟨w', -, houtside, -, hrun⟩ := reaches_run (q := ExceptT.mk _) hmoves hlocked w hkept rfl
  exact ⟨w', ⟨policy, deadline, _, hrun⟩, houtside⟩

/-! ## An oracle that finds a value -/

/-- A web server that answers with a document may give what stands in it. -/
theorem mayGive_http {url path : String} {limit : Duration} {a : Source.HttpAnswer}
    (hanswer : Source.ofAnswer a path = .ok value) :
    Source.MayGive limit (.http url path) value := by
  have hget : Source.anyAnswer (.get url limit) () (some (.ok a)) () := trivial
  have hread : Leads Source.anyAnswer (Source.read limit (.http url path)) ()
      (.done (Source.ofAnswer a path)) () := .ask hget (.here (.done (Source.ofAnswer a path)) ())
  rw [hanswer] at hread
  exact hread

/-- The value of a document that is nothing but a digit. -/
def five : Decimal := { Decimal.zero with coefficient := 5, coefficient_lt := by decide }

/-- `five` with eight decimals. -/
def fiveAnswer : Uint256 := ⟨500000000, by decide⟩

/-- An oracle that publishes whenever it can. -/
def ethUsd : OracleConfig where
  id := "eth-usd"
  source := .http "https://prices.test/eth-usd" ""
  threshold := 1
  destination := ⟨⟨List.replicate 20 1, rfl⟩, ⟨31337, "http://node.test", none⟩, 8⟩

/-- A policy that takes every positive value and never tries again. -/
def onceOnly : Policy := ⟨⟨1⟩, 0, .default, ⟨0, ⟨1⟩, ⟨1⟩⟩⟩

theorem finds_five : Finds onceOnly ethUsd ⟨1⟩ five fiveAnswer where
  given := mayGive_http (a := ⟨200, "5".toUTF8⟩) rfl
  valid := rfl
  encoded := rfl
  inTime := Nat.one_pos

theorem ready_initial : Ready ethUsd .initial := ⟨rfl, rfl, rfl⟩

theorem next_initial : Bookkeeping.initial.nextRound = some 1 := rfl

end Cycle

end PriceOracle
