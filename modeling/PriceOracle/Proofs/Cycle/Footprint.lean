import PriceOracle.Proofs.Cycle.Requests

/-!
# What a cycle touches

Once the registry has told a cycle its row, the cycle asks for nothing but that row, the feed of its
destination, and requests that neither the registry nor a feed answers (`Cycle.Touches`). It stays
so whatever the replies are, so that it is a fact about the program alone, and none of the theorems
about cycles in a world has to be opened again to tell two oracles apart.

Attempts to publish change nothing of the bookkeeping but what is pending (`Cycle.Pends`).
-/

namespace PriceOracle

open Attempt (makes_bind makes_lift makes_lift_bind)
open Program (Makes)
open Surroundings (Action Step)

namespace Publication

/-! ## Feeds -/

/-- A request to the feed of one destination. -/
abbrev At (d : Destination) : Feed.Request → Prop := fun r => r.destination = d

variable (d : Destination) (x : Submission) (p : Pending)

/-- A submission is made to one feed only. -/
theorem makes_submitRound (value : Decimal) (round : RoundId) :
    (submitRound d value round).run.Makes (At d) := by
  rw [submitRound]
  refine makes_bind trivial fun answer => makes_bind ⟨rfl, fun _ => trivial⟩ fun current => ?_
  exact makes_bind trivial fun _ => makes_bind ⟨rfl, fun _ => trivial⟩ fun _ => trivial

theorem makes_readBack : (readBack d x).run.Makes (At d) := by
  rw [readBack]
  refine makes_bind ⟨rfl, fun _ => trivial⟩ fun found => ?_
  cases found with
  | none => exact trivial
  | some r =>
    show Makes _ (ExceptT.run (if _ then _ else _))
    split
    · exact makes_bind ⟨rfl, fun _ => trivial⟩ fun _ => trivial
    · exact trivial

/-- A confirmation asks the feed that the submission was made to. -/
theorem makes_confirmRound (depth : UInt64) : (confirmRound depth d x).run.Makes (At d) := by
  rw [confirmRound]
  refine makes_bind ⟨rfl, fun _ => trivial⟩ fun receipt => ?_
  show Makes _ (ExceptT.run (if _ then _ else _))
  split
  · exact trivial
  · exact makes_readBack d x

theorem makes_resolveUnmined : (resolveUnmined d p).run.Makes (At d) := by
  rw [resolveUnmined]
  refine makes_bind ⟨rfl, fun _ => trivial⟩ fun current => ?_
  show Makes _ (ExceptT.run (if _ then _ else _))
  split
  · exact trivial
  · refine makes_bind ⟨rfl, fun _ => trivial⟩ fun known => ?_
    show Makes _ (ExceptT.run (if _ then _ else _))
    split <;> exact trivial

/-- Settling a submission asks its feed only. -/
theorem makes_resolve : (resolve d p).run.Makes (At d) := by
  rw [resolve]
  refine makes_bind trivial fun answer => makes_bind ⟨rfl, fun _ => trivial⟩ fun found => ?_
  cases found with
  | none => exact makes_resolveUnmined d p
  | some receipt =>
    show Makes _ (ExceptT.run (if _ then _ else _))
    split
    · exact makes_bind (makes_readBack d _) fun _ => trivial
    · exact trivial

end Publication

namespace Cycle

/-! ## Rows -/

/-- A change of nothing but what is pending. -/
def Pends (change : Bookkeeping → Bookkeeping) : Prop :=
  ∃ p, change = fun b => { b with pending := p }

/-- What an oracle may ask for that was told its configuration, when it makes some changes. -/
def Touches (id : OracleId) (c : OracleConfig) (changes : (Bookkeeping → Bookkeeping) → Prop) :
    Surroundings.Request → Prop
  | .registry (.row i) => i = id
  | .registry (.revise i change) => i = id ∧ changes change
  | .registry _ => False
  | .feed r => r.destination = c.destination
  | .slot _ | .tryTake _ | .take _ | .release _ | .forget _ => False
  | _ => True

/-- Any change. -/
abbrev anyChange : (Bookkeeping → Bookkeeping) → Prop := fun _ => True

variable {α : Type} {id : OracleId} {c : OracleConfig}
  {changes changes' : (Bookkeeping → Bookkeeping) → Prop} {policy : Policy} {value : Decimal}
  {round : RoundId} {deadline : Duration}

/-- What changes of one kind touch, changes of a wider kind touch as well. -/
theorem Touches.mono {r : Surroundings.Request} (h : Touches id c changes r)
    (hchanges : ∀ change, changes change → changes' change) : Touches id c changes' r := by
  cases r with
  | registry r =>
    cases r with
    | revise _ _ => exact ⟨h.1, hchanges _ h.2⟩
    | _ => exact h
  | _ => exact h

theorem makes_anyChange {p : Action α} (h : p.Makes (Touches id c changes)) :
    p.Makes (Touches id c anyChange) :=
  h.mono fun _ hr => hr.mono fun _ _ => trivial

/-- A single request. -/
theorem touches_ask {r : Surroundings.Request} (h : Touches id c changes r) :
    (Surroundings.ask r).Makes (Touches id c changes) := ⟨h, fun _ => trivial⟩

/-- A single request, and what follows. -/
theorem touches_first {β : Type} {r : Surroundings.Request} {f : r.Reply → Step β}
    (h : Touches id c changes r) (hf : ∀ reply, (f reply).run.Makes (Touches id c changes)) :
    ((liftM (Surroundings.ask r) : Step r.Reply) >>= f).run.Makes (Touches id c changes) :=
  makes_lift_bind (touches_ask h) hf

theorem touches_revise {change : Bookkeeping → Bookkeeping} (h : changes change) :
    (Surroundings.revise id change).run.Makes (Touches id c changes) := ⟨⟨rfl, h⟩, fun _ => trivial⟩

/-- What is asked of the feed of the destination is touched. -/
theorem touches_feed {use : Feed.Use α} (h : use.run.Makes (Publication.At c.destination)) :
    (Surroundings.feed use).Makes (Touches id c changes) :=
  Surroundings.makes_feed h fun _ hr => hr

theorem touches_source (read : Program Source.interface α) :
    (Surroundings.source read).Makes (Touches id c changes) :=
  Surroundings.makes_source (fun _ => trivial) read

theorem touches_isLate : (isLate deadline).Makes (Touches id c changes) :=
  ⟨trivial, fun _ => trivial⟩

/-! ## Ends of a cycle -/

/-- An end of a cycle is written down with the time of day, and then told. -/
theorem touches_stamped {change : UInt64 → Bookkeeping → Bookkeeping}
    {rest : Bookkeeping → Step Outcome}
    (hrest : ∀ b, (rest b).run.Makes (Touches id c anyChange)) :
    (do
      let now ← Surroundings.unixTime
      let b ← Surroundings.revise id (change now)
      rest b : Step Outcome).run.Makes (Touches id c anyChange) :=
  touches_first (r := .unixTime) trivial fun _ => makes_bind (touches_revise trivial) hrest

theorem touches_record (r : RoundRecord) :
    (record id r).run.Makes (Touches id c anyChange) := by
  refine touches_first (r := .enter id .recorded) trivial fun _ => touches_stamped fun _ => ?_
  exact touches_first (r := .emit _) trivial fun _ => trivial

theorem touches_fail (event : Bookkeeping → Event) (outcome : Outcome) :
    (fail id event outcome).run.Makes (Touches id c anyChange) :=
  touches_stamped fun _ => touches_first (r := .emit _) trivial fun _ => trivial

theorem touches_failPublish (round : RoundId) (e : PublishError) :
    (failPublish id round e).run.Makes (Touches id c anyChange) := by
  rw [failPublish]
  show Makes _ (ExceptT.run (if _ then _ else _))
  split
  · exact trivial
  · refine touches_stamped fun _ => touches_first (r := .emit _) trivial fun _ => ?_
    cases e.isRetryable with
    | true => exact trivial
    | false => exact touches_first (r := .emit _) trivial fun _ => trivial

/-! ## Publishing -/

/-- Forgetting what is pending changes nothing else. -/
theorem touches_dropPending : (dropPending id).run.Makes (Touches id c Pends) :=
  makes_bind (touches_revise ⟨none, rfl⟩) fun _ => trivial

/-- A submission is written down as pending, which changes nothing else. -/
theorem touches_submit (hnamed : c.id = id) :
    (submit policy c value round).run.Makes (Touches id c Pends) := by
  subst hnamed
  refine makes_lift_bind (touches_feed (Publication.makes_submitRound _ _ _)) fun e => ?_
  cases e with
  | error e => exact trivial
  | ok x =>
    refine makes_bind (touches_revise ⟨some x.pending, rfl⟩) fun _ => ?_
    refine touches_first (r := .emit _) trivial fun _ => ?_
    exact makes_lift (touches_feed (Publication.makes_confirmRound _ _ _))

/-- One attempt changes nothing of the bookkeeping but what is pending. -/
theorem touches_publishOnce (hnamed : c.id = id) :
    (publishOnce policy c value round).run.Makes (Touches id c Pends) := by
  refine makes_bind ⟨hnamed, fun _ => trivial⟩ fun row => ?_
  cases row.bookkeeping.pending with
  | none => exact touches_submit hnamed
  | some p =>
    refine makes_lift_bind (touches_feed (Publication.makes_resolve _ _)) fun e => ?_
    rcases e with _ | _ | _
    · exact trivial
    · subst hnamed
      exact makes_bind touches_dropPending fun _ => touches_submit rfl
    · exact trivial

/-- However often a publication is tried again, nothing of the bookkeeping changes but what is
pending. -/
theorem touches_publishWithRetry (hnamed : c.id = id) (retries : Nat) (interval : Duration) :
    (publishWithRetry policy c value round deadline retries interval).run.Makes
      (Touches id c Pends) := by
  induction retries generalizing interval with
  | zero => exact touches_publishOnce hnamed
  | succ retries ih =>
    refine makes_bind (touches_publishOnce hnamed) fun e => ?_
    cases e with
    | ok _ => exact trivial
    | error e =>
      show Makes _ (ExceptT.run (if _ then _ else _))
      split
      · exact trivial
      · refine touches_first (r := .delay _ _) trivial fun delay => ?_
        refine touches_first (r := .elapsed) trivial fun now => ?_
        show Makes _ (ExceptT.run (if _ then _ else _))
        split
        · exact trivial
        · exact touches_first (r := .sleep _) trivial fun _ => ih _

/-- All attempts and their end touch only the oracle. -/
theorem touches_publishAs (hnamed : c.id = id) :
    (publishAs policy id c value round deadline).run.Makes (Touches id c anyChange) := by
  refine makes_bind (makes_anyChange (touches_publishWithRetry hnamed _ _)) fun e => ?_
  cases e with
  | ok r => exact touches_record r
  | error e => exact touches_failPublish round e

theorem touches_publish (hnamed : c.id = id) (b : Bookkeeping) :
    (publish policy id c b value deadline).run.Makes (Touches id c anyChange) := by
  refine touches_first (r := .enter id .publishing) trivial fun _ => ?_
  cases b.nextRound with
  | none => exact trivial
  | some round => exact touches_publishAs hnamed

/-! ## The cycle -/

theorem touches_fetch (hnamed : c.id = id) (b : Bookkeeping) :
    (fetch policy id c b deadline).run.Makes (Touches id c anyChange) := by
  refine makes_lift_bind touches_isLate fun late => ?_
  cases late with
  | true => exact trivial
  | false =>
    refine touches_first (r := .enter id .fetching) trivial fun _ => ?_
    refine makes_lift_bind (touches_source _) fun e => ?_
    cases e with
    | error e => exact touches_fail _ _
    | ok value =>
      refine touches_first (r := .enter id .validating) trivial fun _ => ?_
      cases policy.validation.fault? value with
      | some reason => exact touches_fail _ _
      | none =>
        refine makes_lift_bind touches_isLate fun late => ?_
        cases late with
        | true => exact trivial
        | false => exact touches_publish hnamed b

theorem touches_observe (hnamed : c.id = id) :
    (observe policy id c deadline).run.Makes (Touches id c anyChange) := by
  refine makes_bind (touches_revise trivial) fun b => ?_
  cases Schedule.decide c.threshold b with
  | due => exact touches_fetch hnamed b
  | notDue _ => exact trivial
  | halted => exact trivial

/-- Settles what an earlier cycle left. A cycle that comes to nothing else goes on. -/
def settle (id : OracleId) (deadline : Duration) (r : Row) : Step (Option Outcome) :=
  match r.bookkeeping.halted, r.bookkeeping.pending with
  | some reason, _ => return some (.halted reason)
  | none, none => return none
  | none, some p => do
    if ← isLate deadline then return some .deadlineExceeded
    Surroundings.enter id .publishing
    match ← Surroundings.act <| Surroundings.feed (Publication.resolve r.config.destination p) with
    | .error e => return some (← failPublish id p.round e)
    | .ok (some settled) => return some (← record id settled)
    | .ok none =>
      dropPending id
      return none

/-- What a cycle does once the registry has told its row. -/
def afterRow (policy : Policy) (id : OracleId) (deadline : Duration) (r : Row) : Step Outcome := do
  match ← settle id deadline r with
  | some outcome => return outcome
  | none => observe policy id r.config deadline

/-- A cycle under its lock reads its row first; all else goes by the configuration in it. -/
theorem runLocked_eq (policy : Policy) (id : OracleId) (deadline : Duration) :
    runLocked policy id deadline = Surroundings.row id >>= afterRow policy id deadline := by
  rw [runLocked]
  refine bind_congr fun r => ?_
  rw [afterRow, settle]
  cases r.bookkeeping.halted with
  | some _ => rfl
  | none =>
    cases r.bookkeeping.pending with
    | none => rfl
    | some p =>
      simp only [bind_assoc]
      refine bind_congr fun late => ?_
      cases late with
      | true => rfl
      | false =>
        simp only [Bool.false_eq_true, if_false, bind_assoc]
        refine bind_congr fun _ => bind_congr fun e => ?_
        rcases e with e | _ | settled <;> simp

/-- Settling touches only the oracle and the feed of the row that was read. -/
theorem touches_settle (deadline : Duration) (r : Row) :
    (settle id deadline r).run.Makes (Touches id r.config anyChange) := by
  rw [settle]
  cases r.bookkeeping.halted with
  | some _ => exact trivial
  | none =>
    cases r.bookkeeping.pending with
    | none => exact trivial
    | some p =>
      refine makes_lift_bind touches_isLate fun late => ?_
      cases late with
      | true => exact trivial
      | false =>
        refine touches_first (r := .enter id .publishing) trivial fun _ => ?_
        refine makes_lift_bind (touches_feed (Publication.makes_resolve _ _)) fun e => ?_
        rcases e with e | _ | settled
        · exact makes_bind (touches_failPublish p.round e) fun _ => trivial
        · exact makes_bind (makes_anyChange touches_dropPending) fun _ => trivial
        · exact makes_bind (touches_record settled) fun _ => trivial

/-- A cycle that was told a row touches nothing but what belongs to it. -/
theorem touches_afterRow (policy : Policy) (deadline : Duration) {r : Row}
    (hnamed : r.config.id = id) :
    (afterRow policy id deadline r).run.Makes (Touches id r.config anyChange) := by
  refine makes_bind (touches_settle deadline r) fun settled => ?_
  cases settled with
  | some _ => exact trivial
  | none => exact touches_observe hnamed

end Cycle

end PriceOracle
