import PriceOracle.Proofs.Cycle.Rounds

/-!
# Where pending submissions come from

An oracle remembers of a submission the value and not the answer that it sent, and encodes the value
again when it settles the submission. Here all updates that feeds take from an oracle are logged
(`Nature.logged`), to say that its pending submission is one of them, sent to the destination that
the oracle has now, and that encoding the value again gives the answer that was sent.

This holds between the steps of a service and at every request of a cycle, also if cycles are broken
off (`Nature.Visits`): whatever starts a new destination forgets the submission, and the value comes
back from storage as it was.

* `pending_was_sent`: the pending submission of an oracle, and what settling it compares.
-/

namespace PriceOracle

open Attempt (Ends)
open Program (Keeps Leads)
open Registry (Kept carriedOver storedRow?)

variable {φ : Type} {N : Nature φ} {id : OracleId} {c : OracleConfig} {d : Destination}
  {p : Pending}

/-! ## The log of updates -/

/-- An update that a feed took. -/
structure Sent where
  destination : Destination
  answer : Uint256
  txHash : TxHash

/-- The update that a feed takes with a reply. -/
def Feed.Request.sent? : (r : Feed.Request) → r.Reply → Option Sent
  | .submit d answer, .ok h => some ⟨d, answer, h⟩
  | _, _ => none

/-- A nature with a log of the updates that its feeds took, the last one first. -/
def Nature.logged (N : Nature φ) : Nature (φ × List Sent) where
  feed := fun r s reply s' => N.feed r s.1 reply s'.1 ∧ s'.2 = (r.sent? reply).toList ++ s.2
  moves := fun s s' => N.moves s.1 s'.1 ∧ s'.2 = s.2
  mayFail := N.mayFail

/-- An update is the one that is pending on an oracle with some destination. -/
structure Sent.Backs (x : Sent) (d : Destination) (p : Pending) : Prop where
  hash : x.txHash = p.txHash
  destination : x.destination = d
  encoded : Publication.encode d p.answer = .ok x.answer

/-- The log has the update that is pending. -/
def Backed (d : Destination) (p : Pending) (s : φ × List Sent) : Prop := ∃ x ∈ s.2, x.Backs d p

/-- What is pending is for the next round, and the log has the update. -/
def Rooted (d : Destination) : Assertion (φ × List Sent) := fun b s =>
  ∀ p, b.pending = some p → b.nextRound = some p.round ∧ Backed d p s

theorem rooted_of_clear {b : Bookkeeping} {s : φ × List Sent} (h : b.pending = none) :
    Rooted d b s := by
  intro p hpending
  rw [h] at hpending
  cases hpending

/-- Nothing is taken out of the log. -/
theorem Backed.feed {s s' : φ × List Sent} {r : Feed.Request} {reply : r.Reply}
    (h : Backed d p s) (hreply : N.logged.feed r s reply s') : Backed d p s' := by
  obtain ⟨x, hmem, hbacks⟩ := h
  refine ⟨x, ?_, hbacks⟩
  rw [hreply.2]
  exact List.mem_append_right _ hmem

theorem Backed.moves {s s' : φ × List Sent} (h : Backed d p s) (hmoves : N.logged.moves s s') :
    Backed d p s' := by
  obtain ⟨x, hmem, hbacks⟩ := h
  exact ⟨x, hmoves.2.symm ▸ hmem, hbacks⟩

/-- What a feed took just now is in the log. -/
theorem backed_of_taken {value : Decimal} {round : RoundId} {x : Submission}
    {s : φ × List Sent} (h : Publication.Taken N.logged.onFeed d value round x s) :
    Backed d x.pending s := by
  obtain ⟨s₀, s₁, ⟨-, hlog⟩, -, hsame⟩ := h.reply
  refine ⟨⟨d, x.answer, x.txHash⟩, ?_, rfl, rfl, ?_⟩
  · rw [hsame, hlog]
    exact List.mem_cons_self
  · rw [Submission.pending, h.value_eq]
    exact h.encoded

/-- Whatever a feed is used for, the log keeps an update. -/
theorem keeps_backed {α : Type} (use : Feed.Use α) {s : φ × List Sent} (h : Backed d p s) :
    Keeps N.logged.onFeed (fun _ _ => True) (fun _ s' => Backed d p s') use.run s := by
  have hany : Keeps N.logged.onFeed (fun _ _ => True) (fun _ _ => True) use.run s :=
    Program.keeps_of_forall (fun _ _ => trivial) (fun _ _ => trivial) _ _
  have halways := hany.always h fun r s reply s' _ hbacked hreply => by
    obtain ⟨s₁, hfeed, hmoves⟩ := hreply
    exact (hbacked.feed hfeed).moves hmoves
  exact (halways.allowing fun _ _ _ => trivial).mono fun _ _ h => h.2

/-! ## Cycles -/

/-- The outline of a cycle whose submissions are in the log. -/
def originOutline (N : Nature φ) (id : OracleId) (c : OracleConfig) (depth : UInt64) :
    Outline N.logged id c depth where
  permit := fun _ _ => True
  asserts
    | .sent x, _, s => Backed c.destination x.pending s
    | .held p, _, s | .gone p, _, s | .confirmed p _, _, s => Backed c.destination p s
    | .clear, _, _ | .recorded _, _, _ => True
  between := Rooted c.destination
  within := by
    intro phase b s hfits hasserts p hpending
    cases phase with
    | clear => exact rooted_of_clear hfits p hpending
    | sent | recorded => exact rooted_of_clear hfits.1 p hpending
    | held q | gone q =>
      obtain rfl := Option.some.inj (hfits.1.symm.trans hpending)
      exact ⟨hfits.2, hasserts⟩
    | confirmed q r =>
      obtain rfl := Option.some.inj (hfits.1.symm.trans hpending)
      exact ⟨hfits.2.1, hasserts⟩
  stable := fun phase _ _ _ hmoves h => by
    cases phase with
    | clear | recorded => exact trivial
    | sent | held | gone | confirmed => exact Backed.moves h hmoves
  ledger := fun {phase _ _ _} _ h => by cases phase <;> exact h
  submit := fun _ _ _ _ =>
    ((Publication.keeps_submitRound .any (fun _ _ => trivial) _).allowing
      fun _ _ _ => trivial).mono fun e _ h => by
        cases e with
        | error _ => exact trivial
        | ok x => exact backed_of_taken h
  confirm := fun _ _ _ h => (keeps_backed _ h).mono fun e _ h => by cases e <;> exact h
  resolve := fun _ _ h => (keeps_backed _ h).mono fun e _ h => by
    rcases e with _ | _ | _ <;> exact h
  note := fun h => h
  lose := fun _ _ _ => trivial
  drop := fun _ => trivial
  keepGone := fun h => h
  record := fun _ _ => trivial
  keepConfirmed := fun h => h

/-- What is pending on an oracle was sent. -/
def PendingSent : Standing (φ × List Sent) := fun o s =>
  ∀ row, o = some row → Rooted row.config.destination row.bookkeeping s

theorem settled_pendingSent : N.logged.Settled PendingSent := by
  intro o s s' hmoves hsent row hrow p hpending
  obtain ⟨hround, hbacked⟩ := hsent row hrow p hpending
  exact ⟨hround, hbacked.moves hmoves⟩

theorem pendingSent_missing (s : φ × List Sent) : PendingSent none s := fun _ hrow => by cases hrow

theorem pendingSent_of_clear {row : Row} {s : φ × List Sent}
    (h : row.bookkeeping.pending = none) : PendingSent (some row) s := by
  rintro row' ⟨⟩
  exact rooted_of_clear h

variable {w w' : World (φ × List Sent)} {policy : Cycle.Policy} {deadline : Duration}

/-- At every request of a cycle, and at its end, what is pending was sent. -/
theorem keeps_pendingSent (hstands : Stands id PendingSent w) :
    Keeps (N.logged.around id) (fun _ w' => Stands id PendingSent w')
      (fun _ w' => Stands id PendingSent w') (Cycle.run policy id deadline) w := by
  cases hstands with
  | @present row hkept hsent =>
    obtain ⟨c, b⟩ := row
    -- With a row, the outline's rest is what the bookkeeping says of its pending submission.
    have hrooted : Rooted c.destination b w.outside := hsent _ rfl
    let O : Outline N.logged id c policy.depth := originOutline N id c policy.depth
    have hrest : Holds id c (O.Rest b.nextRound) w := by
      refine ⟨b, hkept, rfl, ?_, ?_⟩
      · cases hpending : b.pending with
        | none => exact hpending
        | some p => exact ⟨hpending, (hrooted p hpending).1⟩
      · cases hpending : b.pending with
        | none => exact trivial
        | some p => exact (hrooted p hpending).2
    have hstable : N.logged.Stable (Rooted c.destination) := by
      intro b s s' hmoves hrooted p hpending
      exact ⟨(hrooted p hpending).1, (hrooted p hpending).2.moves hmoves⟩
    have hbetween := Outline.keeps_between (O := O) hstable
      (fun {b s r reply s'} hrooted hreply p hpending =>
        ⟨(hrooted p hpending).1, (hrooted p hpending).2.feed hreply⟩) hrest deadline
    have hpresent : ∀ w' : World (φ × List Sent), Holds id c (Rooted c.destination) w' →
        Stands id PendingSent w' := by
      rintro w' ⟨b', hkept', hrooted'⟩
      refine .present hkept' ?_
      rintro row ⟨⟩
      exact hrooted'
    exact (hbetween.allowing fun _ => hpresent).mono fun _ => hpresent
  | missing hnone hunlisted hsent =>
    have hsettled : N.logged.Settled PendingSent := settled_pendingSent
    have hmissing : Keeps _ _ _ (Cycle.run policy id deadline) w :=
      keeps_run_standing (fun _ _ => True) hsettled (.missing hnone hunlisted hsent) hnone
    exact (hmissing.allowing fun _ _ h => h.2).mono fun _ _ h => h.1

/-! ## Runs -/

theorem pendingSent_carriedOver {row : Row} {s : φ × List Sent}
    (h : PendingSent (some row) s) : PendingSent (some ⟨c, carriedOver row c⟩) s := by
  unfold carriedOver
  split
  next hsame =>
    rintro row' ⟨⟩
    have hrooted := h row rfl
    rw [hsame] at hrooted
    exact hrooted
  next => exact pendingSent_of_clear rfl

/-- What is pending was sent after every step, if it was before. -/
theorem step_pendingSent {h : Happening} (hstep : N.logged.Step id w h w')
    (hstands : Stands id PendingSent w) : Stands id PendingSent w' := by
  have hsettled : N.logged.Settled PendingSent := settled_pendingSent
  cases hstep with
  | cycle policy deadline hrun => exact (keeps_pendingSent hstands).leads hrun
  | register auth caller c hc hrun =>
    exact ((keeps_register hc hsettled hsettled hstands
      fun s _ => pendingSent_of_clear rfl).leads hrun).either
  | update auth caller c hc hrun =>
    exact ((keeps_update hc hsettled hsettled hstands
      fun row s h => pendingSent_carriedOver h).leads hrun).either
  | remove auth caller hrun =>
    exact ((keeps_remove hsettled hsettled hstands
      fun o s _ => pendingSent_missing s).leads hrun).either
  | resync auth caller hrun =>
    refine ((keeps_resync (T := fun _ _ _ => True) hsettled hsettled (fun _ _ _ _ _ h => h) hstands
      (fun row s s' reply h hreply => ⟨fun row' hrow p hpending => ?_, fun _ _ => trivial⟩)
      fun row b latest value s _ _ hsame => ?_).leads hrun).either
    · obtain ⟨hround, hbacked⟩ := h row' hrow p hpending
      exact ⟨hround, hbacked.feed hreply⟩
    · exact pendingSent_of_clear
        (Option.not_isSome_iff_eq_none.mp (by rw [← hsame.pending]; nofun))
  | restart hload hmoves =>
    exact hstands.restart hsettled (fun o s _ => pendingSent_missing s) hload hmoves
  | elsewhere hstirs => exact hsettled.stands _ _ hstirs hstands

/-- A world that comes up in a service that started with nothing registered: between its steps, at
any request of a cycle, and after cycles that were broken off there. The log is that of the updates
that feeds took since. -/
inductive Nature.Visits (N : Nature φ) (id : OracleId) : World (φ × List Sent) → Prop
  | fresh (outside : φ) : N.Visits id (.fresh (outside, []))
  | step {w w' : World (φ × List Sent)} {h : Happening} :
    N.Visits id w → N.logged.Step id w h w' → N.Visits id w'
  | within {w w' : World (φ × List Sent)} {policy : Cycle.Policy} {deadline : Duration}
    {rest : Surroundings.Action (Except RegistryError Outcome)} :
    N.Visits id w → Leads (N.logged.around id) (Cycle.run policy id deadline) w rest w' →
      N.Visits id w'

theorem Nature.Visits.pendingSent (h : N.Visits id w) : Stands id PendingSent w := by
  induction h with
  | fresh outside => exact .fresh (pendingSent_missing _)
  | step _ hstep ih => exact step_pendingSent hstep ih
  | @within _ _ _ _ rest _ hrun ih =>
    have hkeeps := (keeps_pendingSent ih).leads hrun
    -- What is left of the cycle is an end or a request, and both say the same.
    cases rest with
    | done _ => exact hkeeps
    | ask _ _ => exact hkeeps.1

/-- Whatever feeds answer and wherever storage fails, the submission that is pending on an oracle is
for the round after the last one, and a feed took it at the destination that the oracle has now,
with the answer that its value is encoded as there. Storage has it, too. So settling it confirms no
round but one that the feed tells with the answer that was sent, and does not run into a value out
of range unless the feed itself replies so. -/
theorem pending_was_sent {row : Row} (hvisits : N.Visits id w)
    (hrow : w.table.row? id = some row) (hpending : row.bookkeeping.pending = some p) :
    p.round.toNat = row.bookkeeping.lastRound.toNat + 1 ∧ storedRow? id w.storage = some row ∧
    ∃ x ∈ w.outside.2, x.txHash = p.txHash ∧ x.destination = row.config.destination ∧
      Publication.encode row.config.destination p.answer = .ok x.answer ∧
      ∀ {σ : Type} (B : Behaviour Feed.interface σ) (s t : σ),
        (∀ r,
          Leads B (Publication.resolve row.config.destination p).run s (.done (.ok (some r))) t →
          ∃ f s₁, B (.roundData row.config.destination p.round) s₁ (.ok (some f)) t ∧
            f.answer = x.answer) ∧
        ∀ e, Leads B (Publication.resolve row.config.destination p).run s (.done (.error e)) t →
          e.IsOutOfRange → ∃ r s₁ reply s₂, B r s₁ reply s₂ ∧ r.failure? reply = some e := by
  cases hvisits.pendingSent with
  | missing hnone =>
    rw [hnone] at hrow
    cases hrow
  | @present row' hkept hsent =>
    obtain rfl : row' = row := Option.some.inj (hkept.inTable.symm.trans hrow)
    obtain ⟨hround, x, hmem, hbacks⟩ := hsent _ rfl p hpending
    refine ⟨successor_eq_some.mp hround, hkept.inStorage, x, hmem, hbacks.hash,
      hbacks.destination, hbacks.encoded, ?_⟩
    intro σ B s t
    let replied (e : PublishError) : Prop :=
      e.IsOutOfRange → ∃ r s₁ reply s₂, B r s₁ reply s₂ ∧ Feed.Request.failure? r reply = some e
    have hcause : Publication.Causes B replied :=
      ⟨fun hreply hfails _ => ⟨_, _, _, _, hreply, hfails⟩, fun hnot hout => absurd hout hnot⟩
    -- The answer was encoded when it was sent, so its encoding cannot fail now.
    have hvalue : ∀ e, Publication.encode row'.config.destination p.answer = .error e →
        replied e := by
      intro e herror
      rw [hbacks.encoded] at herror
      cases herror
    have hkeeps := Publication.keeps_resolve (s := s) hcause hvalue
    constructor
    · intro r hrun
      obtain ⟨answer, hencoded, -, -, f, s₁, hreply, hanswer⟩ := hkeeps.leads hrun r rfl
      obtain rfl := Except.ok.inj (hbacks.encoded.symm.trans hencoded)
      exact ⟨f, s₁, hreply, hanswer⟩
    · intro e hrun
      exact hkeeps.leads hrun

open PriceOracle.Cycle in
/-- The first submission of an oracle, which is not confirmed in its cycle. -/
theorem pending_was_sent_first :
    ∃ (w : World (Unit × List Sent)) (row : Row) (p : Pending) (x : Sent),
      Nature.lawless.Visits ethUsd.id w ∧ w.table.row? ethUsd.id = some row ∧
      row.bookkeeping.pending = some p ∧ p.round.toNat = row.bookkeeping.lastRound.toNat + 1 ∧
      x ∈ w.outside.2 ∧ x.txHash = p.txHash ∧ x.destination = row.config.destination ∧
      Publication.encode row.config.destination p.answer = .ok x.answer := by
  let N : Nature (Unit × List Sent) := Nature.lawless.logged
  have hmoves : ∀ s, N.moves s s := fun _ => ⟨trivial, rfl⟩
  obtain ⟨w₀, hregister, hkept₀, -, houtside₀⟩ := N.registers hmoves (c := ethUsd) rfl ((), [])
  let x : Sent := ⟨ethUsd.destination, fiveAnswer, ⟨[]⟩⟩
  have htakes : Takes N ethUsd .initial fiveAnswer ⟨[]⟩ ((), []) ((), [x]) :=
    ⟨⟨⟨0, .zero, 0, 0, 0⟩, rfl, trivial, rfl⟩, ((), [x]), ⟨trivial, rfl⟩, hmoves _⟩
  have hwait : N.feed (.confirmation ethUsd.destination ⟨[]⟩ onceOnly.depth) ((), [x])
      (.error (.timeout "no receipt")) ((), [x]) := ⟨trivial, rfl⟩
  obtain ⟨w, hcycle, hkept, houtside⟩ := step_of_reaches
    (reaches_end_unconfirmed hmoves rfl ready_initial next_initial finds_five htakes rfl hwait 0)
    hkept₀ houtside₀
  have hvisits : Nature.lawless.Visits ethUsd.id w :=
    .step (.step (.fresh ()) hregister) hcycle
  obtain ⟨hround, -, x', hmem, hhash, hdestination, hencoded, -⟩ :=
    pending_was_sent hvisits hkept.inTable rfl
  exact ⟨w, _, _, x', hvisits, hkept.inTable, rfl, hround, hmem, hhash, hdestination, hencoded⟩

end PriceOracle
