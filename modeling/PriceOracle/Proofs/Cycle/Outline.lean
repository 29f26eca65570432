import PriceOracle.Proofs.Cycle.Ends
import PriceOracle.Proofs.Oracle.Bookkeeping
import PriceOracle.Proofs.Publication
import PriceOracle.Proofs.Service.World

/-!
# The outline of a cycle

The bookkeeping of an oracle goes through a few phases within a cycle: nothing is pending, a
submission was sent, it is written down, the chain settled it, its round is recorded. An `Outline`
attaches an assertion to each phase and says why every single request and every change of the
bookkeeping leads from one to the next. What holds between cycles then holds at the end of each,
and every request on the way is permitted (`Outline.keeps_run`), however the requests are answered
and wherever storage fails. What all phases have in common holds at every request, too
(`Outline.keeps_between`).
-/

namespace PriceOracle

open Attempt (Ends)
open Program (Carries Keeps Leads)
open Registry (Kept)
open Surroundings.Request (permitted quiet)

/-! ## Around a cycle -/

/-- What an oracle that runs does is up to its threshold and its count. -/
theorem Schedule.decide_of_running {threshold : UInt64} {b : Bookkeeping} (h : b.halted = none) :
    Schedule.decide threshold b = if Schedule.isDue threshold b.cycles then .due
      else .notDue (Schedule.remaining threshold b.cycles) := by
  have hnot : b.isHalted = false := by
    simp [Bookkeeping.isHalted, h]
  rw [Schedule.decide, hnot]
  rfl

/-- Requests of a cycle around what it does while it holds its lock. -/
def Surroundings.Request.framing : Surroundings.Request → Prop
  | .slot _ | .tryTake _ | .enter _ _ | .release _ => True
  | _ => False

/-- What frames a cycle is asked of neither the registry nor a feed. -/
theorem Surroundings.Request.quiet_of_framing {r : Surroundings.Request} (h : r.framing) :
    r.quiet := by
  cases r with
  | registry _ | feed _ => exact h
  | _ => exact trivial

/-- Does something under the lock of an oracle, unless the lock is held. What it comes to tells how
the cycle ended, and so what becomes of the stage. -/
def Cycle.framed {α : Type} (id : OracleId) (ending : α → Except RegistryError Outcome)
    (body : Surroundings.Action α) (busy : α) : Surroundings.Action α := do
  let slot ← Surroundings.slot id
  if ← Surroundings.tryTake slot then
    let a ← body
    Cycle.leaveStage id (ending a)
    Surroundings.release slot
    return a
  else return busy

/-- What is done with the result of something framed may be done within. -/
theorem Cycle.map_framed {α β : Type} (f : α → β) (id : OracleId)
    (ending : β → Except RegistryError Outcome) (body : Surroundings.Action α) (busy : α) :
    f <$> Cycle.framed id (fun a => ending (f a)) body busy =
      Cycle.framed id ending (f <$> body) (f busy) := by
  simp only [Cycle.framed, Program.bind_eq, Program.map_bind]
  refine congrArg (Program.bind _) (funext fun slot => ?_)
  refine congrArg (Program.bind _) (funext fun free => ?_)
  cases free <;> simp

section framing

variable {φ : Type} {N : Nature φ} {id : OracleId} {w : World φ}
  {allow : Surroundings.Request → World φ → Prop} {J : World φ → Prop}

/-- What is framed comes to what it comes to under the lock, or does not get the lock. -/
theorem keeps_framed {α : Type} {ending : α → Except RegistryError Outcome}
    {body : Surroundings.Action α} {busy : α} {post : α → World φ → Prop}
    (hallow : ∀ r w, r.framing → (J w ∨ ∃ a, post a w) → allow r w)
    (hJ : N.Unaffected id J) (hpost : ∀ a, N.Unaffected id (post a))
    (hbusy : ∀ w, J w → post busy w) (hbody : ∀ w, J w → Keeps (N.around id) allow post body w)
    (hw : J w) : Keeps (N.around id) allow post (Cycle.framed id ending body busy) w := by
  rw [Cycle.framed]
  refine Program.keeps_bind.mpr
    (keeps_quiet (r := .slot id) trivial (hallow _ w trivial (.inl hw)) hJ hw fun slot w hw => ?_)
  refine Program.keeps_bind.mpr (keeps_quiet (r := .tryTake slot) trivial
    (hallow _ w trivial (.inl hw)) hJ hw fun free w hw => ?_)
  obtain free : Bool := free
  cases free with
  | false => exact hbusy w hw
  | true =>
    refine Program.keeps_bind.mpr ((hbody w hw).mono fun a w hw => ?_)
    have hidle : Carries (N.around id) allow (post a) (.enter id .idle) :=
      carries_quiet trivial (fun w hw => hallow _ w trivial (.inr ⟨a, hw⟩)) (hpost a)
    refine Program.keeps_bind.mpr
      ((Cycle.keeps_leaveStage hidle (ending a) hw).mono fun _ w hw => ?_)
    exact Program.keeps_bind.mpr (keeps_quiet (r := .release slot) trivial
      (hallow _ w trivial (.inr ⟨a, hw⟩)) (hpost a) hw fun _ w hw => hw)

/-- A cycle comes to what it comes to while it holds its lock, or does not get the lock. -/
theorem keeps_run_of_locked {policy : Cycle.Policy} {deadline : Duration}
    {post : Except RegistryError Outcome → World φ → Prop}
    (hallow : ∀ r w, r.framing → (J w ∨ ∃ e, post e w) → allow r w)
    (hJ : N.Unaffected id J) (hpost : ∀ e, N.Unaffected id (post e))
    (hbusy : ∀ w, J w → post (.ok .busy) w)
    (hlocked : ∀ w, J w → Keeps (N.around id) allow post (Cycle.runLocked policy id deadline).run w)
    (hw : J w) : Keeps (N.around id) allow post (Cycle.run policy id deadline) w :=
  keeps_framed hallow hJ hpost hbusy hlocked hw

end framing

/-! ## Phases -/

/-- How an oracle stands within a cycle. -/
inductive Phase where
  /-- Nothing is pending. -/
  | clear
  /-- A submission was sent and is not written down. -/
  | sent (x : Submission)
  /-- A submission is written down. -/
  | held (p : Pending)
  /-- The submission that is written down was settled without a round. -/
  | gone (p : Pending)
  /-- The submission that is written down was settled as a round. -/
  | confirmed (p : Pending) (r : RoundRecord)
  /-- The round is written down. -/
  | recorded (r : RoundRecord)

namespace Phase

/-- What a phase says of the bookkeeping. Submissions are for the next round. -/
def Fits : Phase → Bookkeeping → Prop
  | clear, b => b.pending = none
  | sent x, b => b.pending = none ∧ b.nextRound = some x.round
  | held p, b | gone p, b => b.pending = some p ∧ b.nextRound = some p.round
  | confirmed p r, b =>
    b.pending = some p ∧ b.nextRound = some p.round ∧ b.nextRound = some r.round
  | recorded r, b => b.pending = none ∧ b.lastRound = r.round ∧ b.lastValue = some r.answer

/-- The phase between cycles. -/
def ofPending : Option Pending → Phase
  | none => clear
  | some p => held p

end Phase

/-- Whether a phase fits depends on the ledger alone, not on counters and times. -/
theorem Phase.Fits.of_ledger {phase : Phase} {b b' : Bookkeeping} (h : b.SameLedger b')
    (hfits : phase.Fits b) : phase.Fits b' := by
  cases phase <;>
    simpa only [Fits, h.lastRound, h.lastValue, h.pending, h.nextRound] using hfits

/-- The round that a cycle published. -/
def Cycle.published? : Except RegistryError Outcome → Option RoundRecord
  | .ok (.published r) => some r
  | _ => none

/-! ## Outlines -/

/-- An assertion for each phase of the cycles of an oracle, kept by all that a cycle does. -/
structure Outline {φ : Type} (N : Nature φ) (id : OracleId) (c : OracleConfig)
    (depth : UInt64) where
  /-- The requests to feeds that may be made. -/
  permit : Feed.Request → φ → Prop
  /-- What holds in a phase. -/
  asserts : Phase → Assertion φ
  /-- What holds at every request. -/
  between : Assertion φ
  within : ∀ {phase b s}, phase.Fits b → asserts phase b s → between b s
  stable : ∀ phase, N.Stable (asserts phase)
  ledger : ∀ {phase b b' s}, b.SameLedger b' → asserts phase b s → asserts phase b' s
  submit : ∀ {b s round} value, b.nextRound = some round → b.pending = none →
    asserts .clear b s →
    Keeps N.onFeed permit
      (Ends (fun x s' => asserts (.sent x) b s') fun _ s' => asserts .clear b s')
      (Publication.submitRound c.destination value round).run s
  confirm : ∀ {b s} (x : Submission), b.pending = some x.pending → b.nextRound = some x.round →
    asserts (.held x.pending) b s →
    Keeps N.onFeed permit (Ends (fun r s' => asserts (.confirmed x.pending r) b s')
        fun _ s' => asserts (.held x.pending) b s')
      (Publication.confirmRound depth c.destination x).run s
  resolve : ∀ {b s p}, b.pending = some p → b.nextRound = some p.round → asserts (.held p) b s →
    Keeps N.onFeed permit (Ends
        (fun o s' => match o with
          | some r => asserts (.confirmed p r) b s'
          | none => asserts (.gone p) b s')
        fun _ s' => asserts (.held p) b s')
      (Publication.resolve c.destination p).run s
  /-- A submission is written down. -/
  note : ∀ {b s x}, asserts (.sent x) b s →
    asserts (.held x.pending) { b with pending := some x.pending } s
  /-- A submission fails to be written down. -/
  lose : ∀ {b s x}, b.pending = none → asserts (.sent x) b s →
    N.MayLose id c b { b with pending := some x.pending } → asserts .clear b s
  /-- A settled submission is forgotten. -/
  drop : ∀ {b s p}, asserts (.gone p) b s → asserts .clear { b with pending := none } s
  /-- A settled submission stays written down. -/
  keepGone : ∀ {b s p}, asserts (.gone p) b s → asserts (.held p) b s
  /-- A round is written down. -/
  record : ∀ {b s p r} now, asserts (.confirmed p r) b s →
    asserts (.recorded r) (Cycle.afterRound now r b) s
  /-- A round fails to be written down. -/
  keepConfirmed : ∀ {b s p r}, asserts (.confirmed p r) b s → asserts (.held p) b s

namespace Outline

variable {φ : Type} {N : Nature φ} {id : OracleId} {c : OracleConfig} {policy : Cycle.Policy}
  (O : Outline N id c policy.depth)

/-- The assertion of a phase, for an oracle whose next round is given, if there is one. -/
def At (next : Option RoundId) (phase : Phase) : Assertion φ :=
  fun b s => b.nextRound = next ∧ phase.Fits b ∧ O.asserts phase b s

/-- What holds between cycles. -/
def Rest (next : Option RoundId) : Assertion φ :=
  fun b s => O.At next (.ofPending b.pending) b s

/-- What holds after a cycle that recorded a round. -/
def Recorded (next : Option RoundId) (r : RoundRecord) : Assertion φ :=
  fun b s => next = some r.round ∧ (Phase.recorded r).Fits b ∧ O.asserts (.recorded r) b s

/-- What an end of a cycle leaves. -/
def End (next : Option RoundId) (e : Except RegistryError Outcome) : Assertion φ :=
  match Cycle.published? e with
  | some r => O.Recorded next r
  | none => O.Rest next

/-- What holds at the end of a cycle. -/
def Ended (next : Option RoundId) (e : Except RegistryError Outcome) (w : World φ) : Prop :=
  Holds id c (O.End next e) w

/-- What holds after an attempt to publish. -/
def Tried (next : Option RoundId) :
    Except RegistryError (Except PublishError RoundRecord) → World φ → Prop
  | .ok (.ok r), w => Holds id c (fun b s => ∃ p, O.At next (.confirmed p r) b s) w
  | _, w => Holds id c (O.Rest next) w

/-- What a cycle may ask for. A change of the bookkeeping keeps what holds at every request. -/
def Permits : Surroundings.Request → World φ → Prop
  | .registry (.revise other change), w =>
    other = id ∧ ∀ b, Kept id ⟨c, b⟩ w.table w.storage → O.between (change b) w.outside
  | r, w => r.permitted O.permit w

variable {O} {next : Option RoundId} {round : RoundId} {w : World φ}

theorem permitted_of_permits {r : Surroundings.Request} (h : O.Permits r w) :
    r.permitted O.permit w := by
  cases r with
  | registry r =>
    cases r with
    | revise _ _ => exact trivial
    | _ => exact h
  | _ => exact h

/-- Quiet requests need no permit. -/
theorem permits_quiet {r : Surroundings.Request} (hquiet : r.quiet) (w : World φ) :
    O.Permits r w := by
  cases r with
  | registry _ | feed _ => exact hquiet.elim
  | _ => exact trivial

/-- What others do moves an oracle to no other phase. -/
theorem stable_at (phase : Phase) : N.Stable (O.At next phase) := by
  rintro b s s' hmoves ⟨hnext, hfits, hfact⟩
  exact ⟨hnext, hfits, O.stable phase b s s' hmoves hfact⟩

/-- What holds between cycles goes on to hold while others act. -/
theorem stable_rest : N.Stable (O.Rest next) := by
  intro b s s' hmoves hrest
  exact stable_at (.ofPending b.pending) b s s' hmoves hrest

theorem stable_recorded (r : RoundRecord) : N.Stable (O.Recorded next r) := by
  rintro b s s' hmoves ⟨hround, hfits, hfact⟩
  exact ⟨hround, hfits, O.stable (.recorded r) b s s' hmoves hfact⟩

theorem stable_end (e : Except RegistryError Outcome) : N.Stable (O.End next e) := by
  unfold End
  cases Cycle.published? e with
  | some r => exact stable_recorded r
  | none => exact stable_rest

/-- The submission that was confirmed need not be named, as long as there is one. -/
theorem stable_confirmed (r : RoundRecord) :
    N.Stable fun b s => ∃ p, O.At next (.confirmed p r) b s := by
  rintro b s s' hmoves ⟨p, hconfirmed⟩
  exact ⟨p, stable_at (.confirmed p r) b s s' hmoves hconfirmed⟩

/-- Changes beside the ledger keep the phase. -/
theorem at_ledger {phase : Phase} {b b' : Bookkeeping} {s : φ} (hledger : b.SameLedger b')
    (h : O.At next phase b s) : O.At next phase b' s := by
  obtain ⟨hnext, hfits, hfact⟩ := h
  refine ⟨?_, hfits.of_ledger hledger, O.ledger hledger hfact⟩
  rw [← hnext, hledger.nextRound]

/-- Changes beside the ledger keep what holds between cycles. -/
theorem rest_ledger {b b' : Bookkeeping} {s : φ} (hledger : b.SameLedger b')
    (h : O.Rest next b s) : O.Rest next b' s := by
  have hphase := at_ledger hledger h
  rw [← hledger.pending] at hphase
  exact hphase

/-- What all phases have in common holds in each. -/
theorem between_of_at {phase : Phase} {b : Bookkeeping} {s : φ} (h : O.At next phase b s) :
    O.between b s := O.within h.2.1 h.2.2

theorem between_of_rest {b : Bookkeeping} {s : φ} (h : O.Rest next b s) : O.between b s :=
  between_of_at h

theorem between_of_recorded {r : RoundRecord} {b : Bookkeeping} {s : φ}
    (h : O.Recorded next r b s) : O.between b s := O.within h.2.1 h.2.2

/-- A cycle may end where nothing is pending. -/
theorem rest_of_clear {b : Bookkeeping} {s : φ} (h : O.At next .clear b s) : O.Rest next b s := by
  have hpending : b.pending = none := h.2.1
  rw [Rest, hpending]
  exact h

/-- A cycle may end where a submission is written down: the next one settles it. -/
theorem rest_of_held {b : Bookkeeping} {s : φ} {p : Pending} (h : O.At next (.held p) b s) :
    O.Rest next b s := by
  have hpending : b.pending = some p := h.2.1.1
  rw [Rest, hpending]
  exact h

/-- A cycle may end where a submission came to nothing and is still written down. -/
theorem rest_of_gone {b : Bookkeeping} {s : φ} {p : Pending} (h : O.At next (.gone p) b s) :
    O.Rest next b s := by
  obtain ⟨hnext, hfits, hfact⟩ := h
  exact rest_of_held ⟨hnext, hfits, O.keepGone hfact⟩

/-- A cycle may end where a round is confirmed and not yet recorded, as the submission is still
written down then. -/
theorem rest_of_confirmed {b : Bookkeeping} {s : φ} {p : Pending} {r : RoundRecord}
    (h : O.At next (.confirmed p r) b s) : O.Rest next b s := by
  obtain ⟨hnext, ⟨hpending, hround, -⟩, hfact⟩ := h
  exact rest_of_held ⟨hnext, ⟨hpending, hround⟩, O.keepConfirmed hfact⟩

/-! ## Steps of a cycle -/

open Surroundings (Step interface)

/-- What is stable is carried through quiet requests. -/
theorem carries_quiet_stable {P : Assertion φ} {r : Surroundings.Request} (hquiet : r.quiet)
    (hstable : N.Stable P) : Carries (N.around id) O.Permits (Holds id c P) r :=
  carries_quiet hquiet (fun w _ => permits_quiet hquiet w) hstable.holds

/-- A quiet request in front of the rest of a cycle. -/
theorem keeps_quiet_bind {P : Assertion φ} {β : Type} {r : Surroundings.Request}
    {f : r.Reply → Step β} {post : Except RegistryError β → World φ → Prop}
    (hquiet : r.quiet) (hstable : N.Stable P) (hP : Holds id c P w)
    (h : ∀ reply w', Holds id c P w' →
      Keeps (N.around id) O.Permits post (f reply).run w') :
    Keeps (N.around id) O.Permits post
      ((liftM (Surroundings.ask r) : Step r.Reply) >>= f).run w :=
  Attempt.keeps_carries (carries_quiet_stable hquiet hstable) hP h

/-- A change of the bookkeeping, after which it does not count as the same. -/
theorem keeps_changed {P Q R : Assertion φ} {change : Bookkeeping → Bookkeeping}
    {post : Except RegistryError Bookkeeping → World φ → Prop} (hQ : N.Stable Q) (hR : N.Stable R)
    (hP : Holds id c P w) (hnew : ∀ b s, P b s → (change b == b) = false)
    (hdone : ∀ b s, P b s → Q (change b) s) (hwithin : ∀ b s, Q b s → O.between b s)
    (hlost : ∀ b s, P b s → N.MayLose id c b (change b) → R b s)
    (hok : ∀ b w', Holds id c (fun b' s => b' = b ∧ Q b' s) w' → post (.ok b) w')
    (hfail : ∀ e w', Holds id c R w' → post (.error e) w') :
    Keeps (N.around id) O.Permits post (Surroundings.revise id change).run w := by
  have hpermits : O.Permits (.registry (.revise id change)) w :=
    ⟨rfl, fun b hkept => hwithin _ _ (hdone b _ (hP.of_kept hkept))⟩
  refine keeps_revise_exact hpermits hQ hR hP (fun b s h hsame => ?_) hdone hlost hok hfail
  rw [hnew b s h] at hsame
  cases hsame

/-- A change of the bookkeeping that leaves rounds, value and submission alone. -/
theorem keeps_note {β : Type} {change : Bookkeeping → Bookkeeping} {f : Bookkeeping → Step β}
    {post : Except RegistryError β → World φ → Prop}
    (hledger : ∀ b : Bookkeeping, b.SameLedger (change b))
    (hnew : ∀ b, (change b == b) = false)
    (hP : Holds id c (O.Rest next) w)
    (hok : ∀ b w', Holds id c (fun b' s => b' = b ∧ O.Rest next b' s) w' →
      Keeps (N.around id) O.Permits post (f b).run w')
    (hfail : ∀ e w', Holds id c (O.Rest next) w' → post (.error e) w') :
    Keeps (N.around id) O.Permits post
      (Surroundings.revise id change >>= f).run w := by
  exact Attempt.keeps_bind.mpr (keeps_changed stable_rest stable_rest hP (fun b _ _ => hnew b)
    (fun b s hrest => rest_ledger (hledger b) hrest) (fun b s => between_of_rest)
    (fun b s hrest _ => hrest) hok hfail)

/-- A failure is written down with the time, and told. It leaves what holds between cycles. -/
theorem keeps_failure {change : UInt64 → Bookkeeping → Bookkeeping} {event : Bookkeeping → Event}
    {f : Bookkeeping → Step Outcome} (hP : Holds id c (O.Rest next) w)
    (hledger : ∀ now b, Bookkeeping.SameLedger b (change now b))
    (hcounts : ∀ now b, (change now b).failures = b.failures + 1)
    (hf : ∀ b w', Holds id c (O.Rest next) w' →
      Keeps (N.around id) O.Permits (O.Ended next) (f b).run w') :
    Keeps (N.around id) O.Permits (O.Ended next)
      ((liftM Surroundings.unixTime : Step UInt64) >>= fun now =>
        Surroundings.revise id (change now) >>= fun b =>
          (liftM (Surroundings.emit (event b)) : Step Unit) >>= fun _ => f b).run w := by
  refine Cycle.keeps_stamped (K := fun _ _ => Holds id c (O.Rest next))
    (L := fun _ _ => Holds id c (O.Rest next))
    (carries_quiet_stable (r := .unixTime) trivial stable_rest) (fun now w' hP => ?_)
    (fun _ _ _ => (carries_quiet_stable (r := .emit _) trivial stable_rest).keeps)
    (fun _ b w' => hf b w') hP
  exact keeps_changed stable_rest stable_rest hP
    (fun b _ _ => Bookkeeping.not_beq_of_failures (hcounts now b))
    (fun b _ hrest => rest_ledger (hledger now b) hrest) (fun _ _ => between_of_rest)
    (fun _ _ hrest _ => hrest) (fun _ _ hP => hP.mono fun _ _ h => h.2) fun _ _ hP => hP

/-- A failure that publishes nothing is counted. -/
theorem keeps_fail (hP : Holds id c (O.Rest next) w) (event : Bookkeeping → Event)
    {outcome : Outcome} (hnone : Cycle.published? (.ok outcome) = none) :
    Keeps (N.around id) O.Permits (O.Ended next) (Cycle.fail id event outcome).run w := by
  rw [Cycle.fail]
  refine keeps_failure hP (fun _ _ => ⟨rfl, rfl, rfl⟩) (fun _ _ => rfl) fun _ w' hP => ?_
  show Holds id c (O.End next (.ok outcome)) w'
  rw [End, hnone]
  exact hP

/-- A publication that fails is counted, and may halt the oracle. One that breaks off leaves all as
it was. -/
theorem keeps_failPublish (hP : Holds id c (O.Rest next) w) (round : RoundId) (e : PublishError) :
    Keeps (N.around id) O.Permits (O.Ended next)
      (Cycle.failPublish id round e).run w := by
  rw [Cycle.failPublish]
  show Keeps _ _ _ (ExceptT.run (if _ then _ else _)) w
  split
  · exact hP
  · refine keeps_failure hP (fun _ _ => ⟨rfl, rfl, rfl⟩) (fun _ _ => rfl) fun _ w' hP => ?_
    show Keeps _ _ _ (ExceptT.run (if _ then _ else _)) w'
    split
    · exact keeps_quiet_bind (r := .emit _) trivial stable_rest hP fun _ w' hP => hP
    · exact hP

/-- Recording a confirmed round changes the last round, so that it is written. -/
theorem keeps_record {r : RoundRecord}
    (hP : Holds id c (fun b s => ∃ p, O.At next (.confirmed p r) b s) w) :
    Keeps (N.around id) O.Permits (O.Ended next) (Cycle.record id r).run w := by
  rw [Cycle.record]
  refine keeps_quiet_bind (r := .enter id .recorded) trivial (stable_confirmed r) hP
    fun _ w' hP => ?_
  refine keeps_quiet_bind (r := .unixTime) trivial (stable_confirmed r) hP fun now w' hP => ?_
  refine Attempt.keeps_bind.mpr
    (keeps_changed (Q := O.Recorded next r) (R := O.Rest next) (stable_recorded r) stable_rest hP
      ?_ ?_ (fun b s => between_of_recorded) ?_ (fun b w' hP => ?_) fun e w' hP => hP)
  · rintro b s ⟨p, -, ⟨-, -, hconfirmed⟩, -⟩
    exact Bookkeeping.not_beq_of_lastRound hconfirmed
  · rintro b s ⟨p, hnext, ⟨-, -, hconfirmed⟩, hfact⟩
    exact ⟨hnext.symm.trans hconfirmed, ⟨rfl, rfl, rfl⟩, O.record now hfact⟩
  · rintro b s ⟨p, hconfirmed⟩ -
    exact rest_of_confirmed hconfirmed
  · have hrecorded := hP.mono fun _ _ h => h.2
    exact keeps_quiet_bind (r := .emit _) trivial (stable_recorded r) hrecorded fun _ w' hP => hP

/-- Forgetting a settled submission. -/
theorem keeps_dropPending {p : Pending} (hP : Holds id c (O.At next (.gone p)) w) :
    Keeps (N.around id) O.Permits
      (Ends (fun _ w' => Holds id c (O.At next .clear) w') fun _ w' => Holds id c (O.Rest next) w')
      (Cycle.dropPending id).run w := by
  rw [Cycle.dropPending]
  refine Attempt.keeps_bind.mpr
    (keeps_changed (Q := O.At next .clear) (R := O.Rest next) (stable_at _) stable_rest hP
      ?_ ?_ (fun b s => between_of_at) ?_ (fun b w' hP => ?_) fun e w' hP => hP)
  · rintro b s ⟨-, ⟨hheld, -⟩, -⟩
    exact Bookkeeping.not_beq_of_pending (by rw [hheld]; nofun)
  · rintro b s ⟨hnext, -, hfact⟩
    exact ⟨hnext, rfl, O.drop hfact⟩
  · intro b s hgone _
    exact rest_of_gone hgone
  · exact hP.mono fun _ _ h => h.2

/-- What a submission leaves: the phase after it, or none. -/
def Sent (next : Option RoundId) : Except PublishError Submission → Assertion φ
  | .ok x => O.At next (.sent x)
  | .error _ => O.At next .clear

/-- What waiting for a submission leaves. -/
def Confirmed (next : Option RoundId) (p : Pending) : Except PublishError RoundRecord → Assertion φ
  | .ok r => O.At next (.confirmed p r)
  | .error _ => O.At next (.held p)

/-- What settling a submission leaves. -/
def Resolved (next : Option RoundId) (p : Pending) :
    Except PublishError (Option RoundRecord) → Assertion φ
  | .ok (some r) => O.At next (.confirmed p r)
  | .ok none => O.At next (.gone p)
  | .error _ => O.At next (.held p)

/-- Submitting leads from nothing pending to where `Sent` says. -/
theorem onFeed_submit {b : Bookkeeping} {s : φ} (value : Decimal)
    (h : O.At (some round) .clear b s) :
    Keeps N.onFeed O.permit (fun e s' => O.Sent (some round) e b s')
      (Publication.submitRound c.destination value round).run s := by
  obtain ⟨hnext, hfits, hfact⟩ := h
  have hboth := (O.submit value hnext hfits hfact).and
    (Publication.keeps_submitRound .any (fun _ _ => trivial) round)
  refine hboth.mono ?_
  rintro e s' ⟨hends, hround⟩
  cases e with
  | error e => exact ⟨hnext, hfits, hends⟩
  | ok x => exact ⟨hnext, ⟨hfits, by rw [hnext, hround.round_eq]⟩, hends⟩

/-- Confirming leads from a submission that is written down to where `Confirmed` says. -/
theorem onFeed_confirm {b : Bookkeeping} {s : φ} {x : Submission}
    (h : O.At next (.held x.pending) b s) :
    Keeps N.onFeed O.permit (fun e s' => O.Confirmed next x.pending e b s')
      (Publication.confirmRound policy.depth c.destination x).run s := by
  obtain ⟨rfl, hfits, hfact⟩ := h
  have hboth := (O.confirm x hfits.1 hfits.2 hfact).and
    (Publication.keeps_confirmRound .any policy.depth c.destination x)
  refine hboth.mono ?_
  rintro e s' ⟨hends, hround⟩
  cases e with
  | error e => exact ⟨rfl, hfits, hends⟩
  | ok r =>
    have hnext := hfits.2.trans (congrArg some hround.round_eq.symm)
    exact ⟨rfl, ⟨hfits.1, hfits.2, hnext⟩, hends⟩

/-- Settling leads from a submission that is written down to where `Resolved` says. -/
theorem onFeed_resolve {b : Bookkeeping} {s : φ} {p : Pending} (h : O.At next (.held p) b s) :
    Keeps N.onFeed O.permit (fun e s' => O.Resolved next p e b s')
      (Publication.resolve c.destination p).run s := by
  obtain ⟨rfl, hfits, hfact⟩ := h
  have hboth := (O.resolve hfits.1 hfits.2 hfact).and
    (Publication.keeps_resolve .any fun _ _ => trivial)
  refine hboth.mono ?_
  rintro e s' ⟨hends, hround⟩
  cases e with
  | error e => exact ⟨rfl, hfits, hends⟩
  | ok o =>
    cases o with
    | none => exact ⟨rfl, hfits, hends⟩
    | some r =>
      obtain ⟨answer, -, htold⟩ := hround r rfl
      exact ⟨rfl, ⟨hfits.1, hfits.2, by rw [hfits.2, htold.round_eq]⟩, hends⟩

theorem tried_of_confirmed {p : Pending} {r : RoundRecord}
    (h : Holds id c (O.At next (.confirmed p r)) w) : O.Tried next (.ok (.ok r)) w := by
  have hconfirmed : Holds id c (fun b s => ∃ p, O.At next (.confirmed p r) b s) w :=
    h.mono fun _ _ h => ⟨p, h⟩
  exact hconfirmed

/-- Sending a value, writing the submission down and waiting for it. -/
theorem keeps_submit (hP : Holds id c (O.At (some round) .clear) w) (value : Decimal) :
    Keeps (N.around id) O.Permits (O.Tried (some round))
      (Cycle.submit policy c value round).run w := by
  obtain rfl := hP.named
  rw [Cycle.submit]
  refine Attempt.keeps_bind.mpr (Attempt.keeps_lift.mpr (keeps_feed (fun _ _ h => h)
    (Q := O.Sent (some round)) hP (fun b s h => onFeed_submit value h) fun e w' hP => ?_))
  cases e with
  | error e => exact hP.mono fun _ _ h => rest_of_clear h
  | ok x =>
    -- Between the submission and its record lies a write that may fail.
    refine Attempt.keeps_bind.mpr
      (keeps_changed (Q := O.At (some round) (.held x.pending)) (R := O.At (some round) .clear)
        (stable_at _) (stable_at _) hP ?_ ?_ (fun b s => between_of_at) ?_ (fun b w' hP => ?_)
        fun e w' hP => hP.mono fun _ _ => rest_of_clear)
    · rintro b s ⟨-, ⟨hclear, -⟩, -⟩
      exact Bookkeeping.not_beq_of_pending (by rw [hclear]; nofun)
    · rintro b s ⟨hnext, ⟨-, hround⟩, hfact⟩
      exact ⟨hnext, ⟨rfl, hround⟩, O.note hfact⟩
    · -- The submission is in flight, and nothing remembers it.
      rintro b s ⟨hnext, ⟨hclear, -⟩, hfact⟩ hlose
      exact ⟨hnext, hclear, O.lose hclear hfact hlose⟩
    · have hheld := hP.mono fun _ _ h => h.2
      refine keeps_quiet_bind (r := .emit _) trivial (stable_at _) hheld fun _ w' hP => ?_
      refine Attempt.keeps_lift.mpr (keeps_feed (fun _ _ h => h)
        (Q := O.Confirmed (some round) x.pending) hP (fun b s h => onFeed_confirm h)
        fun e w' hP => ?_)
      cases e with
      | error e => exact hP.mono fun _ _ h => rest_of_held h
      | ok r => exact tried_of_confirmed hP

/-- One attempt to publish, from whatever an earlier one left. -/
theorem keeps_publishOnce (hP : Holds id c (O.Rest (some round)) w) (value : Decimal) :
    Keeps (N.around id) O.Permits (O.Tried (some round))
      (Cycle.publishOnce policy c value round).run w := by
  obtain rfl := hP.named
  rw [Cycle.publishOnce]
  refine Attempt.keeps_bind.mpr (keeps_row trivial stable_rest hP fun b w' hP => ?_)
  obtain ⟨attempt, last, lastValue, failures, cycles, halted, pending⟩ := b
  -- A submission that an earlier attempt left is settled before another is sent.
  cases pending with
  | none =>
    refine keeps_submit (hP.mono fun b' s h => ?_) value
    obtain ⟨rfl, hrest⟩ := h
    exact hrest
  | some p =>
    have hheld : Holds c.id c (O.At (some round) (.held p)) w' := by
      refine hP.mono fun b' s h => ?_
      obtain ⟨rfl, hrest⟩ := h
      exact hrest
    refine Attempt.keeps_bind.mpr (Attempt.keeps_lift.mpr (keeps_feed (fun _ _ h => h)
      (Q := O.Resolved (some round) p) hheld (fun b s h => onFeed_resolve h) fun e w' hP => ?_))
    cases e with
    | error e => exact hP.mono fun _ _ h => rest_of_held h
    | ok o =>
      cases o with
      | some r => exact tried_of_confirmed hP
      | none =>
        refine Attempt.keeps_bind.mpr ((keeps_dropPending hP).mono fun e w' h => ?_)
        cases e with
        | error e => exact h
        | ok _ => exact keeps_submit h value

/-- All attempts of a cycle to publish. -/
theorem keeps_publishWithRetry (hP : Holds id c (O.Rest (some round)) w) (value : Decimal)
    (deadline : Duration) (retries : Nat) (interval : Duration) :
    Keeps (N.around id) O.Permits (O.Tried (some round))
      (Cycle.publishWithRetry policy c value round deadline retries interval).run w := by
  -- Every attempt starts from what holds between cycles, whatever the one before it left.
  induction retries generalizing interval w with
  | zero =>
    rw [Cycle.publishWithRetry]
    exact keeps_publishOnce hP value
  | succ retries ih =>
    rw [Cycle.publishWithRetry]
    refine Attempt.keeps_bind.mpr ((keeps_publishOnce hP value).mono fun e w' h => ?_)
    cases e with
    | error e => exact h
    | ok tried =>
      cases tried with
      | ok r => exact h
      | error e =>
        have hrest : Holds id c (O.Rest (some round)) w' := h
        show Keeps _ _ _ (ExceptT.run (if _ then _ else _)) w'
        split
        · exact hrest
        · -- Another attempt is made only where its delay ends before the deadline.
          refine keeps_quiet_bind (r := .delay _ _) trivial stable_rest hrest fun delay w' hP => ?_
          refine keeps_quiet_bind (r := .elapsed) trivial stable_rest hP fun now w' hP => ?_
          show Keeps _ _ _ (ExceptT.run (if _ then _ else _)) w'
          split
          · exact hP
          · refine keeps_quiet_bind (r := .sleep _) trivial stable_rest hP fun _ w' hP => ?_
            exact ih hP _

/-- Publishing as a round ends with a recorded round or with a failure. -/
theorem keeps_publishAs (hP : Holds id c (O.Rest (some round)) w) (value : Decimal)
    (deadline : Duration) :
    Keeps (N.around id) O.Permits (O.Ended (some round))
      (Cycle.publishAs policy id c value round deadline).run w := by
  rw [Cycle.publishAs]
  refine Attempt.keeps_bind.mpr
    ((keeps_publishWithRetry hP value deadline _ _).mono fun e w' h => ?_)
  cases e with
  | error e => exact h
  | ok tried =>
    cases tried with
    | ok r => exact keeps_record h
    | error e => exact keeps_failPublish h round e

/-- Where there is no next round, nothing happens. -/
theorem keeps_publish (hP : Holds id c (O.Rest next) w) {b : Bookkeeping}
    (hnext : b.nextRound = next) (value : Decimal) (deadline : Duration) :
    Keeps (N.around id) O.Permits (O.Ended next)
      (Cycle.publish policy id c b value deadline).run w := by
  rw [Cycle.publish]
  refine keeps_quiet_bind (r := .enter id .publishing) trivial stable_rest hP fun _ w' hP => ?_
  rw [hnext]
  cases next with
  | none => exact hP
  | some round => exact keeps_publishAs hP value deadline

/-- A cycle that is due. -/
theorem keeps_fetch (hP : Holds id c (O.Rest next) w) {b : Bookkeeping}
    (hnext : b.nextRound = next) (deadline : Duration) :
    Keeps (N.around id) O.Permits (O.Ended next)
      (Cycle.fetch policy id c b deadline).run w := by
  rw [Cycle.fetch]
  refine Cycle.keeps_isLate (carries_quiet_stable trivial stable_rest) hP fun late w' hP => ?_
  show Keeps _ _ _ (ExceptT.run (if _ then _ else _)) w'
  split
  · exact hP
  · refine keeps_quiet_bind (r := .enter id .fetching) trivial stable_rest hP fun _ w' hP => ?_
    refine Attempt.keeps_bind.mpr (Attempt.keeps_lift.mpr
      (keeps_source (fun _ _ => trivial) stable_rest.holds hP fun e w' hP => ?_))
    cases e with
    | error e => exact keeps_fail hP _ rfl
    | ok value =>
      refine keeps_quiet_bind (r := .enter id .validating) trivial stable_rest hP fun _ w' hP => ?_
      cases policy.validation.fault? value with
      | some reason => exact keeps_fail hP _ rfl
      | none =>
        refine Cycle.keeps_isLate (carries_quiet_stable trivial stable_rest) hP fun late w' hP => ?_
        show Keeps _ _ _ (ExceptT.run (if _ then _ else _)) w'
        split
        · exact hP
        · exact keeps_publish hP hnext value deadline

/-- A cycle with nothing left to settle. -/
theorem keeps_observe (hP : Holds id c (O.Rest next) w) (deadline : Duration) :
    Keeps (N.around id) O.Permits (O.Ended next)
      (Cycle.observe policy id c deadline).run w := by
  rw [Cycle.observe]
  refine keeps_note (fun b => ⟨rfl, rfl, rfl⟩) (fun b => Bookkeeping.not_beq_of_cycles rfl) hP
    (fun b w' hP => ?_) fun e w' hP => hP
  have hrest := hP.mono fun _ _ h => h.2
  cases Schedule.decide c.threshold b with
  | due =>
    -- The round to publish comes from the bookkeeping as it was counted.
    obtain ⟨b', _, rfl, hnext, _⟩ := hP
    exact keeps_fetch hrest hnext deadline
  | notDue remaining => exact hrest
  | halted => exact hrest

/-- The cycle of an oracle whose lock is held. -/
theorem keeps_runLocked (hP : Holds id c (O.Rest next) w) (deadline : Duration) :
    Keeps (N.around id) O.Permits (O.Ended next)
      (Cycle.runLocked policy id deadline).run w := by
  rw [Cycle.runLocked]
  refine Attempt.keeps_bind.mpr (keeps_row trivial stable_rest hP fun b w' hP => ?_)
  have hrest := hP.mono fun _ _ h => h.2
  obtain ⟨attempt, last, lastValue, failures, cycles, halted, pending⟩ := b
  cases halted with
  | some reason => exact hrest
  | none =>
    cases pending with
    | none => exact keeps_observe hrest deadline
    | some p =>
      -- What an earlier cycle left is settled before anything else.
      have hheld : Holds id c (O.At next (.held p)) w' := by
        refine hP.mono fun b' s h => ?_
        obtain ⟨rfl, hrest⟩ := h
        exact hrest
      refine Cycle.keeps_isLate (carries_quiet_stable trivial (stable_at _)) hheld
        fun late w' hP => ?_
      show Keeps _ _ _ (ExceptT.run (if _ then _ else _)) w'
      split
      · exact hP.mono fun _ _ h => rest_of_held h
      · refine keeps_quiet_bind (r := .enter id .publishing) trivial (stable_at _) hP
          fun _ w' hP => ?_
        refine Attempt.keeps_bind.mpr (Attempt.keeps_lift.mpr
          (keeps_feed (fun _ _ h => h) (Q := O.Resolved next p) hP
            (fun b s h => onFeed_resolve h) fun e w' hP => ?_))
        cases e with
        | error e => exact keeps_failPublish (hP.mono fun _ _ h => rest_of_held h) p.round e
        | ok o =>
          cases o with
          | some r => exact keeps_record (hP.mono fun _ _ h => ⟨p, h⟩)
          | none =>
            refine Attempt.keeps_bind.mpr ((keeps_dropPending hP).mono fun e w' h => ?_)
            cases e with
            | error e => exact h
            | ok _ => exact keeps_observe (Holds.mono h fun _ _ => rest_of_clear) deadline

/-- What holds between cycles holds at the end of every cycle. -/
theorem permits_run (hP : Holds id c (O.Rest next) w) (deadline : Duration) :
    Keeps (N.around id) O.Permits (O.Ended next) (Cycle.run policy id deadline) w :=
  keeps_run_of_locked
    (fun _ w hframing _ => permits_quiet (Surroundings.Request.quiet_of_framing hframing) w)
    stable_rest.holds (fun e => (stable_end e).holds) (fun _ hP => hP)
    (fun _ hP => keeps_runLocked hP deadline) hP

/-- What holds between cycles holds at the end of every cycle, and every request is permitted. -/
theorem keeps_run (hP : Holds id c (O.Rest next) w) (deadline : Duration) :
    Keeps (N.around id) (permitted O.permit) (O.Ended next) (Cycle.run policy id deadline) w :=
  (permits_run hP deadline).allowing fun _ _ => permitted_of_permits

/-! ## Within a cycle -/

/-- A request that a cycle may make keeps what holds at every request. -/
theorem between_of_permits (hstable : N.Stable O.between)
    (hfeed : ∀ {b s r reply s'}, O.between b s → N.feed r s reply s' → O.between b s')
    {r : Surroundings.Request} {reply : r.Reply} {w' : World φ} (hpermits : O.Permits r w)
    (hP : Holds id c O.between w) (hreply : N.around id r w reply w') :
    Holds id c O.between w' := by
  obtain ⟨w₁, hanswer, hstirs⟩ := hreply
  refine hstable.holds _ _ hstirs ?_
  obtain ⟨b, hkept, hb⟩ := hP
  cases r with
  | registry r =>
    obtain ⟨hregistry, houtside⟩ := hanswer
    cases r with
    | row other =>
      obtain ⟨hdone, hstorage⟩ := Leads.of_done hregistry
      obtain ⟨-, htable⟩ := Prod.mk.inj (Program.done.inj hdone)
      refine ⟨b, ?_, houtside ▸ hb⟩
      rw [htable, hstorage]
      exact hkept
    | revise other change =>
      obtain ⟨rfl, hchange⟩ := hpermits
      -- A revision that fails leaves the bookkeeping, one that succeeds changes it as permitted.
      have hspec : Keeps (Storage.Memory.Flaky N.mayFail) Registry.anyRequest
          (fun e m => ∃ b', Kept other ⟨c, b'⟩ e.2 m ∧ O.between b' w.outside)
          (Registry.answer (.revise other change) w.table) w.storage := by
        refine Registry.keeps_revise hkept (fun b' t' m' hb' hkept' _ => ⟨b', hkept', ?_⟩)
          fun _ e => ⟨b, hkept, hb⟩
        rcases hb' with rfl | ⟨rfl, -⟩
        · exact hchange b hkept
        · exact hb
      obtain ⟨b', hkept', hb'⟩ := hspec.leads hregistry
      exact ⟨b', hkept', houtside ▸ hb'⟩
    | _ => exact hpermits.elim
  | feed r =>
    obtain ⟨hfed, htable, hstorage⟩ := hanswer
    refine ⟨b, ?_, hfeed hb hfed⟩
    rw [htable, hstorage]
    exact hkept
  | _ =>
    obtain rfl := hanswer
    exact ⟨b, hkept, hb⟩

/-- What all phases have in common holds at every request of a cycle and at its end. -/
theorem keeps_between (hstable : N.Stable O.between)
    (hfeed : ∀ {b s r reply s'}, O.between b s → N.feed r s reply s' → O.between b s')
    (hP : Holds id c (O.Rest next) w) (deadline : Duration) :
    Keeps (N.around id) (fun _ w => Holds id c O.between w) (fun _ w => Holds id c O.between w)
      (Cycle.run policy id deadline) w := by
  have halways := (permits_run hP deadline).always (hP.mono fun _ _ => between_of_rest)
    fun r w reply w' hpermits hbetween hreply =>
      between_of_permits hstable hfeed hpermits hbetween hreply
  exact (halways.allowing fun _ _ h => h.2).mono fun _ _ h => h.2

end Outline

end PriceOracle
