import PriceOracle.Proofs.Cycle.Ends
import PriceOracle.Proofs.Publication

/-!
# What cycles ask for

The requests that a cycle may make (`Cycle.Asks`), whoever answers them and how: an update that is
sent to a feed carries a value that the policy accepts, an oracle is halted only for a failure of a
publication that cannot be tried again, and nothing between taking the lock and giving it back has
to do with locks.

Which failures there are depends on the surroundings (`Cycle.Causes`): those that feeds reply with,
those that publications find themselves, and values that are out of range.

* `Cycle.keeps_runLocked`, `Cycle.keeps_run`: the requests of a cycle among surroundings.
* `Cycle.makes_runLocked`: its requests, whatever the surroundings are.
-/

namespace PriceOracle

open Attempt (Ends)
open Program (Keeps Makes)
open Surroundings (Action Step interface)

/-- Requests that no lock is asked for with. -/
def Surroundings.Request.lockless : Surroundings.Request → Prop
  | slot _ | tryTake _ | take _ | release _ | forget _ => False
  | _ => True

/-! ## Uses of feeds and sources -/

namespace Surroundings

variable {σ α : Type} {B : Behaviour interface σ} {allow : Request → σ → Prop}
  {only : Request → Prop}

/-- A use of a feed keeps what its requests keep. -/
theorem keeps_use {use : Feed.Use α} {post : Except PublishError α → σ → Prop} {s : σ}
    (h : Keeps (I := Feed.interface) (fun r => B (.feed r)) (fun r => allow (.feed r)) post
      use.run s) : Keeps B allow post (feed use) s := by
  have hstep : ∀ r s t, t = s → allow (.feed r) s → Keeps B allow
      (fun reply t' => ∃ s', B (.feed r) s reply s' ∧ t' = s') (ask (.feed r)) t := by
    rintro r s _ rfl hr
    exact ⟨hr, fun reply t hreply => ⟨t, hreply, rfl⟩⟩
  refine (Program.keeps_through hstep rfl h).mono ?_
  rintro e _ ⟨s', rfl, hpost⟩
  exact hpost

/-- A use of a feed makes its requests. -/
theorem makes_feed {permit : Feed.Request → Prop} {use : Feed.Use α} (h : use.run.Makes permit)
    (hpermit : ∀ r, permit r → only (.feed r)) : (feed use).Makes only :=
  h.through fun r hr => ⟨hpermit r hr, fun _ => trivial⟩

/-- A read of a source asks sources only. -/
theorem makes_source (honly : ∀ r, only (.source r)) (read : Program Source.interface α) :
    (source read).Makes only := by
  have hask : ∀ r, (ask (.source r)).Makes only := fun r => ⟨honly r, fun _ => trivial⟩
  exact Program.makes_through hask read

end Surroundings

namespace Cycle

/-- A change of the bookkeeping halts for nothing but a failure of some kind. -/
def HaltsFor (cause : PublishError → Prop) (change : Bookkeeping → Bookkeeping) : Prop :=
  ∀ b, (change b).halted = b.halted ∨
    ∃ e, cause e ∧ e.isRetryable = false ∧ (change b).halted = some e.message

/-- What a cycle may ask for while it holds its lock. -/
def Asks (policy : Policy) (cause : PublishError → Prop) : Surroundings.Request → Prop
  | .feed (.submit d answer) =>
    ∃ value, policy.validation.accepts value = true ∧ Publication.encode d value = .ok answer
  | .registry (.revise _ change) => HaltsFor cause change
  | .slot _ | .tryTake _ | .take _ | .release _ | .forget _ => False
  | _ => True

/-- Between taking the lock and giving it back, no request is one for a lock. -/
theorem Asks.lockless {policy : Policy} {cause : PublishError → Prop} {r : Surroundings.Request}
    (h : Asks policy cause r) : r.lockless := by
  cases r with
  | slot _ | tryTake _ | take _ | release _ | forget _ => exact h
  | _ => exact trivial

variable {σ α β : Type} {B : Behaviour interface σ} {policy : Policy}
  {cause : PublishError → Prop} {s : σ}

/-- The registry may tell a row. -/
def Tells (B : Behaviour interface σ) (row : Row) : Prop :=
  ∃ id s t, B (.registry (.row id)) s (.ok row) t

/-- A value is out of range for a destination only if that is a cause. -/
def Fits (cause : PublishError → Prop) (d : Destination) (value : Decimal) : Prop :=
  ∀ e, Publication.encode d value = .error e → cause e

/-- A kind of failures to which all belong that a cycle may fail to publish for. -/
structure Causes (B : Behaviour interface σ) (policy : Policy) (cause : PublishError → Prop) :
    Prop where
  onFeed : Publication.Causes (fun r => B (.feed r)) cause
  /-- Values that are found and may be published. -/
  accepted : ∀ {row}, Tells B row → ∀ value, policy.validation.accepts value = true →
    Fits cause row.config.destination value
  /-- Values that are pending. -/
  pending : ∀ {row row'}, Tells B row → Tells B row' → ∀ p, row'.bookkeeping.pending = some p →
    Fits cause row.config.destination p.answer

/-- Where any failure counts as a cause, nothing is asked of the surroundings. -/
theorem Causes.any : Causes B policy fun _ => True where
  onFeed := .any
  accepted := fun _ _ _ _ _ => trivial
  pending := fun _ _ _ _ _ _ => trivial

/-- A program of a cycle asks for nothing else. -/
abbrev KeepsTo (B : Behaviour interface σ) (policy : Policy) (cause : PublishError → Prop)
    (post : α → Prop) (p : Action α) : Prop :=
  ∀ s, Keeps B (fun r _ => Asks policy cause r) (fun a _ => post a) p s

/-- Whatever a part of a cycle comes to. -/
abbrev anyEnd : α → Prop := fun _ => True

/-- Where it comes to anything but a refusal of the registry. -/
abbrev Unrefused (post : α → Prop) : Except RegistryError α → Prop
  | .ok a => post a
  | .error _ => True

/-! ## Parts of a cycle -/

theorem keepsTo_done {post : α → Prop} {a : α} (h : post a) :
    KeepsTo B policy cause post (.done a) := fun _ => h

/-- A single request that a cycle may make. -/
theorem keepsTo_ask {r : Surroundings.Request} (h : Asks policy cause r) :
    KeepsTo B policy cause anyEnd (Surroundings.ask r) := fun _ => ⟨h, fun _ _ _ => trivial⟩

/-- One part after the other. -/
theorem keepsTo_bind {post : α → Prop} {post' : β → Prop} {x : Step α} {f : α → Step β}
    (h : KeepsTo B policy cause (Unrefused post) x.run)
    (hf : ∀ a, post a → KeepsTo B policy cause (Unrefused post') (f a).run) :
    KeepsTo B policy cause (Unrefused post') (x >>= f).run := by
  intro s
  refine Attempt.keeps_bind.mpr ((h s).mono fun e t he => ?_)
  cases e with
  | ok a => exact hf a he t
  | error e => exact trivial

/-- A part that cannot be refused, and what follows. -/
theorem keepsTo_act {post : α → Prop} {post' : β → Prop} {p : Action α} {f : α → Step β}
    (h : KeepsTo B policy cause post p)
    (hf : ∀ a, post a → KeepsTo B policy cause (Unrefused post') (f a).run) :
    KeepsTo B policy cause (Unrefused post') ((liftM p : Step α) >>= f).run := by
  intro s
  exact Attempt.keeps_lift_bind.mpr ((h s).mono fun a t ha => hf a ha t)

/-- A single request, and what follows. -/
theorem keepsTo_first {post : β → Prop} {r : Surroundings.Request} {f : r.Reply → Step β}
    (h : Asks policy cause r)
    (hf : ∀ reply, KeepsTo B policy cause (Unrefused post) (f reply).run) :
    KeepsTo B policy cause (Unrefused post)
      ((liftM (Surroundings.ask r) : Step r.Reply) >>= f).run :=
  keepsTo_act (keepsTo_ask h) fun reply _ => hf reply

/-- The row that the registry tells is one that it has. -/
theorem keepsTo_row (id : OracleId) :
    KeepsTo B policy cause (Unrefused (Tells B)) (Surroundings.row id).run := by
  refine fun s => ⟨trivial, fun reply t hreply => ?_⟩
  cases reply with
  | ok row => exact ⟨id, s, t, hreply⟩
  | error e => exact trivial

/-- A change of the bookkeeping may halt the oracle only for a cause. -/
theorem keepsTo_revise {id : OracleId} {change : Bookkeeping → Bookkeeping}
    (h : HaltsFor cause change) :
    KeepsTo B policy cause (Unrefused anyEnd) (Surroundings.revise id change).run := by
  refine fun s => ⟨h, fun reply t _ => ?_⟩
  cases reply <;> exact trivial

/-- A use of a feed asks for what the feed is asked for. -/
theorem keepsTo_feed {permit : Feed.Request → Prop} {use : Feed.Use α}
    {post : Except PublishError α → Prop}
    (hpermit : ∀ r, permit r → Asks policy cause (.feed r))
    (h : ∀ s, Keeps (fun r => B (.feed r)) (fun r _ => permit r) (fun e _ => post e) use.run s) :
    KeepsTo B policy cause post (Surroundings.feed use) :=
  fun s => Surroundings.keeps_use ((h s).allowing fun r _ hr => hpermit r hr)

/-- Reading a feed. -/
theorem keepsTo_reads {use : Feed.Use α} {post : Except PublishError α → Prop}
    (h : ∀ s, Keeps (fun r => B (.feed r)) Publication.onlyReads (fun e _ => post e) use.run s) :
    KeepsTo B policy cause post (Surroundings.feed use) := by
  refine keepsTo_feed (fun r hr => ?_) h
  cases r with
  | submit _ _ => exact hr.elim
  | _ => exact trivial

theorem keepsTo_source (read : Program Source.interface α) :
    KeepsTo B policy cause anyEnd (Surroundings.source read) := by
  -- Nothing is known of what sources answer.
  intro s
  rw [Surroundings.source]
  induction read generalizing s with
  | done a => exact trivial
  | ask r next ih => exact ⟨trivial, fun reply t _ => ih reply t⟩

theorem keepsTo_isLate (deadline : Duration) :
    KeepsTo B policy cause anyEnd (isLate deadline) :=
  fun _ => ⟨trivial, fun _ _ _ => trivial⟩

/-! ## Ends of a cycle -/

/-- A change that has nothing to do with halts. -/
theorem haltsFor_of_same {change : Bookkeeping → Bookkeeping}
    (h : ∀ b, (change b).halted = b.halted) : HaltsFor cause change := fun b => .inl (h b)

theorem haltsFor_failure (now : UInt64) {e : PublishError} (he : cause e) :
    HaltsFor cause (afterPublishFailure now (if e.isRetryable then none else some e.message)) := by
  intro b
  cases hretryable : e.isRetryable with
  | true => exact .inl rfl
  | false => exact .inr ⟨e, he, hretryable, rfl⟩

/-- An end of a cycle is written down with the time of day, and then told. -/
theorem keepsTo_stamped {id : OracleId} {change : UInt64 → Bookkeeping → Bookkeeping}
    {event : Bookkeeping → Event} {rest : Bookkeeping → Step Outcome}
    (hchange : ∀ now, HaltsFor cause (change now))
    (hrest : ∀ b, KeepsTo B policy cause (Unrefused anyEnd) (rest b).run) :
    KeepsTo B policy cause (Unrefused anyEnd)
      ((liftM Surroundings.unixTime : Step UInt64) >>= fun now =>
        Surroundings.revise id (change now) >>= fun b =>
          (liftM (Surroundings.emit (event b)) : Step Unit) >>= fun _ => rest b).run :=
  fun _ => keeps_stamped (J := fun _ => True) (K := fun _ _ _ => True) (L := fun _ _ _ => True)
    (fun _ _ => ⟨trivial, fun _ _ _ => trivial⟩)
    (fun now t _ => (keepsTo_revise (hchange now) t).mono fun e _ _ => by cases e <;> exact trivial)
    (fun _ _ _ _ => ⟨trivial, fun _ _ _ => trivial⟩) (fun _ b t _ => hrest b t) trivial

theorem keepsTo_record (id : OracleId) (r : RoundRecord) :
    KeepsTo B policy cause (Unrefused anyEnd) (record id r).run :=
  keepsTo_first (r := .enter id .recorded) trivial fun _ =>
    keepsTo_stamped (fun _ => haltsFor_of_same fun _ => rfl) fun _ => keepsTo_done trivial

theorem keepsTo_fail (id : OracleId) (event : Bookkeeping → Event) (outcome : Outcome) :
    KeepsTo B policy cause (Unrefused anyEnd) (fail id event outcome).run :=
  keepsTo_stamped (fun _ => haltsFor_of_same fun _ => rfl) fun _ => keepsTo_done trivial

theorem keepsTo_failPublish (id : OracleId) (round : RoundId) {e : PublishError} (he : cause e) :
    KeepsTo B policy cause (Unrefused anyEnd) (failPublish id round e).run := by
  rw [failPublish]
  show KeepsTo _ _ _ _ (ExceptT.run (if _ then _ else _))
  split
  · exact keepsTo_done trivial
  · refine keepsTo_stamped (fun now => haltsFor_failure now he) fun _ => ?_
    cases e.isRetryable with
    | true => exact keepsTo_done trivial
    | false => exact keepsTo_first (r := .emit _) trivial fun _ => keepsTo_done trivial

/-! ## Publishing -/

variable {c : OracleConfig} {value : Decimal} {round : RoundId} {deadline : Duration}
  {id : OracleId}

/-- The configuration is one that the registry tells. -/
def Configured (B : Behaviour interface σ) (c : OracleConfig) : Prop := ∃ b, Tells B ⟨c, b⟩

/-- A publication fails for a cause. -/
abbrev FailsFor (cause : PublishError → Prop) : Except PublishError α → Prop
  | .ok _ => True
  | .error e => cause e

theorem failsFor_of_ends {success : α → σ → Prop} {e : Except PublishError α} {t : σ}
    (h : Ends success (fun e _ => cause e) e t) : FailsFor cause e := by
  cases e with
  | ok _ => exact trivial
  | error _ => exact h

theorem keepsTo_dropPending (id : OracleId) :
    KeepsTo B policy cause (Unrefused anyEnd) (dropPending id).run :=
  keepsTo_bind (keepsTo_revise (haltsFor_of_same fun _ => rfl)) fun _ _ => keepsTo_done trivial

theorem keepsTo_resolve (hcauses : Causes B policy cause) {row : Row} {p : Pending}
    (hc : Configured B c) (hrow : Tells B row) (hpending : row.bookkeeping.pending = some p) :
    KeepsTo B policy cause (FailsFor cause)
      (Surroundings.feed (Publication.resolve c.destination p)) := by
  obtain ⟨b, hc⟩ := hc
  have hvalue := hcauses.pending hc hrow p hpending
  exact keepsTo_reads fun s => (Publication.keeps_resolve hcauses.onFeed hvalue).mono
    fun _ _ => failsFor_of_ends

theorem keepsTo_submit (hcauses : Causes B policy cause) (hc : Configured B c)
    (hvalue : policy.validation.accepts value = true) :
    KeepsTo B policy cause (Unrefused (FailsFor cause)) (submit policy c value round).run := by
  obtain ⟨b, hc⟩ := hc
  have hsend : KeepsTo B policy cause (FailsFor cause)
      (Surroundings.feed (Publication.submitRound c.destination value round)) := by
    refine keepsTo_feed (fun r hr => ?_) fun s => (Publication.keeps_submitRound hcauses.onFeed
      (hcauses.accepted hc value hvalue) round).mono fun _ _ => failsFor_of_ends
    cases r with
    | submit d answer =>
      obtain ⟨rfl, hencoded⟩ := hr
      exact ⟨value, hvalue, hencoded⟩
    | _ => exact trivial
  refine keepsTo_act hsend fun e he => ?_
  cases e with
  | error e => exact keepsTo_done he
  | ok x =>
    refine keepsTo_bind (keepsTo_revise (haltsFor_of_same fun _ => rfl)) fun _ _ => ?_
    refine keepsTo_first (r := .emit _) trivial fun _ => ?_
    refine fun s => Attempt.keeps_lift.mpr ?_
    exact keepsTo_reads (fun s => (Publication.keeps_confirmRound hcauses.onFeed policy.depth
      c.destination x).mono fun _ _ => failsFor_of_ends) s

theorem keepsTo_publishOnce (hcauses : Causes B policy cause) (hc : Configured B c)
    (hvalue : policy.validation.accepts value = true) :
    KeepsTo B policy cause (Unrefused (FailsFor cause)) (publishOnce policy c value round).run := by
  refine keepsTo_bind (keepsTo_row c.id) fun row hrow => ?_
  cases hpending : row.bookkeeping.pending with
  | none => exact keepsTo_submit hcauses hc hvalue
  | some p =>
    refine keepsTo_act (keepsTo_resolve hcauses hc hrow hpending) fun e he => ?_
    rcases e with _ | _ | _
    · exact keepsTo_done he
    · exact keepsTo_bind (keepsTo_dropPending c.id) fun _ _ => keepsTo_submit hcauses hc hvalue
    · exact keepsTo_done he

theorem keepsTo_publishWithRetry (hcauses : Causes B policy cause) (hc : Configured B c)
    (hvalue : policy.validation.accepts value = true) (retries : Nat) (interval : Duration) :
    KeepsTo B policy cause (Unrefused (FailsFor cause))
      (publishWithRetry policy c value round deadline retries interval).run := by
  induction retries generalizing interval with
  | zero => exact keepsTo_publishOnce hcauses hc hvalue
  | succ retries ih =>
    refine keepsTo_bind (keepsTo_publishOnce hcauses hc hvalue) fun e he => ?_
    cases e with
    | ok _ => exact keepsTo_done trivial
    | error e =>
      show KeepsTo _ _ _ _ (ExceptT.run (if _ then _ else _))
      split
      · exact keepsTo_done he
      · refine keepsTo_first (r := .delay _ _) trivial fun delay => ?_
        refine keepsTo_first (r := .elapsed) trivial fun now => ?_
        show KeepsTo _ _ _ _ (ExceptT.run (if _ then _ else _))
        split
        · exact keepsTo_done he
        · exact keepsTo_first (r := .sleep _) trivial fun _ => ih _

/-- A publication that failed for good halts the oracle; the failure is one of the causes. -/
theorem keepsTo_publishAs (hcauses : Causes B policy cause) (hc : Configured B c)
    (hvalue : policy.validation.accepts value = true) :
    KeepsTo B policy cause (Unrefused anyEnd) (publishAs policy id c value round deadline).run := by
  refine keepsTo_bind (keepsTo_publishWithRetry hcauses hc hvalue _ _) fun e he => ?_
  cases e with
  | ok r => exact keepsTo_record id r
  | error e => exact keepsTo_failPublish id round he

theorem keepsTo_publish (hcauses : Causes B policy cause) (hc : Configured B c)
    (hvalue : policy.validation.accepts value = true) (b : Bookkeeping) :
    KeepsTo B policy cause (Unrefused anyEnd) (publish policy id c b value deadline).run := by
  refine keepsTo_first (r := .enter id .publishing) trivial fun _ => ?_
  cases b.nextRound with
  | none => exact keepsTo_done trivial
  | some round => exact keepsTo_publishAs hcauses hc hvalue

/-! ## The cycle -/

/-- Only a value that the policy accepts goes on from here. -/
theorem keepsTo_fetch (hcauses : Causes B policy cause) (hc : Configured B c) (b : Bookkeeping) :
    KeepsTo B policy cause (Unrefused anyEnd) (fetch policy id c b deadline).run := by
  refine keepsTo_act (keepsTo_isLate deadline) fun late _ => ?_
  cases late with
  | true => exact keepsTo_done trivial
  | false =>
    refine keepsTo_first (r := .enter id .fetching) trivial fun _ => ?_
    refine keepsTo_act (keepsTo_source _) fun e _ => ?_
    cases e with
    | error e => exact keepsTo_fail id _ _
    | ok value =>
      refine keepsTo_first (r := .enter id .validating) trivial fun _ => ?_
      cases hfault : policy.validation.fault? value with
      | some reason => exact keepsTo_fail id _ _
      | none =>
        have hvalue : policy.validation.accepts value = true := Option.isNone_iff_eq_none.mpr hfault
        refine keepsTo_act (keepsTo_isLate deadline) fun late _ => ?_
        cases late with
        | true => exact keepsTo_done trivial
        | false => exact keepsTo_publish hcauses hc hvalue b

theorem keepsTo_observe (hcauses : Causes B policy cause) (hc : Configured B c) :
    KeepsTo B policy cause (Unrefused anyEnd) (observe policy id c deadline).run := by
  refine keepsTo_bind (keepsTo_revise (haltsFor_of_same fun _ => rfl)) fun b _ => ?_
  cases Schedule.decide c.threshold b with
  | due => exact keepsTo_fetch hcauses hc b
  | notDue _ => exact keepsTo_done trivial
  | halted => exact keepsTo_done trivial

/-- What a cycle asks for while it holds its lock. -/
theorem keepsTo_runLocked (hcauses : Causes B policy cause) (id : OracleId)
    (deadline : Duration) :
    KeepsTo B policy cause (Unrefused anyEnd) (runLocked policy id deadline).run := by
  refine keepsTo_bind (keepsTo_row id) fun row hrow => ?_
  have hc : Configured B row.config := ⟨row.bookkeeping, hrow⟩
  cases row.bookkeeping.halted with
  | some _ => exact keepsTo_done trivial
  | none =>
    cases hpending : row.bookkeeping.pending with
    | none => exact keepsTo_observe hcauses hc
    | some p =>
      refine keepsTo_act (keepsTo_isLate deadline) fun late _ => ?_
      cases late with
      | true => exact keepsTo_done trivial
      | false =>
        refine keepsTo_first (r := .enter id .publishing) trivial fun _ => ?_
        refine keepsTo_act (keepsTo_resolve hcauses hc hrow hpending) fun e he => ?_
        rcases e with e | _ | settled
        · exact keepsTo_failPublish id p.round he
        · exact keepsTo_bind (keepsTo_dropPending id) fun _ _ => keepsTo_observe hcauses hc
        · exact keepsTo_record id settled

/-- What a cycle asks for, with its lock. -/
def AsksInAll (policy : Policy) (cause : PublishError → Prop) (r : Surroundings.Request) : Prop :=
  r.lockless → Asks policy cause r

theorem keeps_run (hcauses : Causes B policy cause) (id : OracleId) (deadline : Duration) :
    Keeps B (fun r _ => AsksInAll policy cause r) (fun _ _ => True) (run policy id deadline) s := by
  refine ⟨False.elim, fun slot s _ => ⟨False.elim, fun taken s _ => ?_⟩⟩
  obtain taken : Bool := taken
  cases taken with
  | false => exact trivial
  | true =>
    have hlocked : Keeps B (fun r _ => AsksInAll policy cause r) _ _ s :=
      (keepsTo_runLocked hcauses id deadline s).allowing fun r _ hr _ => hr
    show Keeps _ _ _ (Program.bind (runLocked policy id deadline).run _) _
    refine Program.keeps_bind.mpr (hlocked.mono fun outcome s _ => ?_)
    have hleave : Keeps B (fun r _ => AsksInAll policy cause r) (fun _ _ => True)
        (leaveStage id outcome) s :=
      keeps_leaveStage (fun _ _ => ⟨fun _ => trivial, fun _ _ _ => trivial⟩) outcome trivial
    exact Program.keeps_bind.mpr
      (hleave.mono fun _ _ _ => ⟨False.elim, fun _ _ _ => trivial⟩)

/-- A cycle makes these requests whatever the surroundings are. -/
theorem makes_runLocked (policy : Policy) (id : OracleId) (deadline : Duration) :
    (runLocked policy id deadline).run.Makes (Asks policy fun _ => True) :=
  Keeps.makes (keepsTo_runLocked .any id deadline ())

/-- What a cycle asks for does not depend on its surroundings, where any failure may halt it. -/
theorem makes_run (policy : Policy) (id : OracleId) (deadline : Duration) :
    (run policy id deadline).Makes (AsksInAll policy fun _ => True) :=
  Keeps.makes (keeps_run .any id deadline)

end Cycle

end PriceOracle
