import PriceOracle.Proofs.Cycle.Rounds

/-!
# Halts

An oracle that was halted stays halted, for the same reason and at the same last round, until its
bookkeeping is started over. Cycles, failed calls, other oracles and whatever happens outside leave
it alone, and so does a restart, as long as the stored order lists the oracle.

An update starts the bookkeeping over when any part of the destination is another one. So an update
that only names another node for the same feed lifts a halt (`halt_lifted_by_another_node`).

* `keeps_runLocked_of_halted`, `keeps_run_of_halted`: cycles of a halted oracle.
* `keeps_seed`: seeding leaves an oracle alone that is there.
* `halt_lifted_iff_started_over`: which steps lift a halt.
-/

namespace PriceOracle

open Program (Keeps Leads)
open Registry (Kept carriedOver storedOrder? storedRow?)

variable {φ : Type} {N : Nature φ} {id : OracleId} {w w' w₁ : World φ} {P : Standing φ}
  {reason : String} {n : RoundId} {row : Row}

/-! ## Halted oracles -/

/-- An oracle is halted for a reason, at some last round. -/
def Stopped (reason : String) (n : RoundId) : Standing φ := fun o _ =>
  ∃ row, o = some row ∧ row.bookkeeping.halted = some reason ∧ row.bookkeeping.lastRound = n

/-- An oracle is not halted, if it is there at all. -/
def Unhalted : Standing φ := fun o _ => ∀ row, o = some row → row.bookkeeping.halted = none

/-- An oracle is halted for a reason, at some last round, in memory and in storage. -/
def World.Halted (w : World φ) (id : OracleId) (reason : String) (n : RoundId) : Prop :=
  ∃ row, w.table.row? id = some row ∧ storedRow? id w.storage = some row ∧
    row.bookkeeping.halted = some reason ∧ row.bookkeeping.lastRound = n

/-- The stored order lists an oracle. -/
def World.Lists (w : World φ) (id : OracleId) : Prop :=
  ∃ order, storedOrder? w.storage = some order ∧ id ∈ order

theorem settled_stopped : N.Settled (Stopped reason n) := fun _ _ _ _ h => h

theorem settled_unhalted : N.Settled Unhalted := fun _ _ _ _ h => h

theorem stopped_missing (s : φ) : ¬Stopped reason n none s := by
  rintro ⟨row, hrow, -⟩
  cases hrow

theorem Stands.halted (h : Stands id (Stopped reason n) w) : w.Halted id reason n := by
  cases h with
  | present hkept hstopped =>
    obtain ⟨_, ⟨⟩, hhalted, hround⟩ := hstopped
    exact ⟨_, hkept.inTable, hkept.inStorage, hhalted, hround⟩
  | missing _ _ hstopped => exact absurd hstopped (stopped_missing _)

/-- The row of an oracle that runs is not halted. -/
theorem Stands.unhalted (h : Stands id Unhalted w) (hrow : w.table.row? id = some row) :
    row.bookkeeping.halted = none := by
  cases h with
  | present hkept hrunning => exact hrunning row (hkept.inTable.symm.trans hrow)
  | missing hnone =>
    rw [hnone] at hrow
    cases hrow

/-! ## Cycles -/

/-- Requests that ask neither a source nor a feed. -/
def Surroundings.Request.internal : Surroundings.Request → Prop
  | .source _ | .feed _ => False
  | _ => True

variable {policy : Cycle.Policy} {deadline : Duration}

/-- A halted oracle whose lock is held tells why, and leaves its row. -/
theorem keeps_runLocked_of_halted (hkept : Kept id row w.table w.storage)
    (hhalted : row.bookkeeping.halted = some reason) :
    Keeps (N.around id) (fun r _ => r.internal)
      (fun outcome w' => outcome = .ok (.halted reason) ∧ Kept id row w'.table w'.storage)
      (Cycle.runLocked policy id deadline).run w := by
  obtain ⟨c, b⟩ := row
  obtain ⟨lastAttempt, lastRound, lastValue, failures, cycles, halted, pending⟩ := b
  obtain rfl : halted = some reason := hhalted
  rw [Cycle.runLocked]
  have hholds : Holds id c (fun b' _ => b' = _) w := ⟨_, hkept, rfl⟩
  refine Attempt.keeps_bind.mpr
    (keeps_row trivial (fun _ _ _ _ h => h) hholds fun b w' hholds => ?_)
  obtain ⟨_, hkept', rfl, rfl⟩ := hholds
  exact ⟨rfl, hkept'⟩

/-- A cycle of a halted oracle tells why, unless its lock is held, and leaves its row. -/
theorem keeps_run_of_halted (hkept : Kept id row w.table w.storage)
    (hhalted : row.bookkeeping.halted = some reason) :
    Keeps (N.around id) (fun r _ => r.internal)
      (fun outcome w' => (outcome = .ok (.halted reason) ∨ outcome = .ok .busy) ∧
        Kept id row w'.table w'.storage)
      (Cycle.run policy id deadline) w := by
  let J (w : World φ) : Prop := Kept id row w.table w.storage
  have hJ : N.Unaffected id J := fun w w' hstirs hkept => hstirs.spared.kept hkept
  refine keeps_run_of_locked ?_ hJ (fun e => ?_) (fun _ hkept => ⟨.inr rfl, hkept⟩)
    (fun w hkept => ?_) hkept
  · intro r w hframing _
    cases r with
    | source _ | feed _ => exact hframing
    | _ => exact trivial
  · rintro w w' hstirs ⟨houtcome, hkept⟩
    exact ⟨houtcome, hJ w w' hstirs hkept⟩
  · exact (keeps_runLocked_of_halted hkept hhalted).mono fun _ _ h => ⟨.inl h.1, h.2⟩

/-! ## Requests about other oracles -/

/-- Requests to the registry about other oracles leave an oracle alone. -/
theorem Stands.other {r : Registry.Request} {reply : r.Reply} (h : Stands id P w)
    (hkeyed : Registry.Keyed w.table) (hne : r.target? ≠ some id)
    (hanswer : N.answers (.registry r) w reply w₁) : Stands id P w₁ :=
  h.spared ((Registry.keeps_other hkeyed hne).leads hanswer.1) fun _ hholds =>
    hanswer.2 ▸ hholds

/-- To tell a row changes nothing. -/
theorem Stands.told {other : OracleId} {reply : Except RegistryError Row} (h : Stands id P w)
    (hanswer : N.answers (.registry (.row other)) w reply w₁) : Stands id P w₁ := by
  obtain ⟨hdone, hstorage⟩ := Leads.of_done hanswer.1
  exact h.of_same (Prod.mk.inj (Program.done.inj hdone)).2 hstorage hanswer.2

/-- An oracle that is there is left alone by every registration. -/
theorem Stands.registering {c : OracleConfig} {reply : Except RegistryError Unit}
    (h : Stands id P w) (hpresent : ∀ s, ¬P none s)
    (hanswer : N.answers (.registry (.register c)) w reply w₁) : Stands id P w₁ := by
  by_cases hc : c.id = id
  · exact (answers_register hc h (fun s hnone => absurd hnone (hpresent s)) hanswer).either
  · exact h.spared ((Registry.keeps_register_other hc).leads hanswer.1) fun _ hholds =>
      hanswer.2 ▸ hholds

/-- Seeding leaves an oracle alone that is there. -/
theorem keeps_seed (hP : N.Settled P) (hpresent : ∀ s, ¬P none s) (configs : List OracleConfig)
    (hstands : Stands id P w) :
    Keeps (N.around id) anyAction (fun _ w' => Stands id P w') (Management.seed configs).run w := by
  induction configs generalizing w with
  | nil => exact hstands
  | cons c rest ih =>
    refine Attempt.keeps_lift_bind.mpr ((keeps_registry (.row c.id) (fun _ w' => Stands id P w')
      (fun _ => hP.stands) fun _ _ => hstands.told).mono fun told w' hstands => ?_)
    rcases told with e | r
    · cases e with
      | notFound _ =>
        refine Attempt.keeps_bind.mpr (Attempt.keeps_adapt.mpr ((keeps_registry (.register c)
          (fun _ w' => Stands id P w') (fun _ => hP.stands)
          fun _ _ => hstands.registering hpresent).mono fun registered w' hstands => ?_))
        cases registered with
        | error _ => exact hstands
        | ok _ =>
          refine keeps_call_quiet (r := .emit _) trivial hP.stands hstands fun _ w' hstands => ?_
          refine Attempt.keeps_bind.mpr ((ih hstands).mono fun seeded w' hstands => ?_)
          cases seeded <;> exact hstands
      | _ => exact hstands
    · exact ih hstands

/-! ## Steps -/

/-- An oracle that the stored order lists stands after a restart as before. -/
theorem Stands.restart_of_lists {m : Storage.Memory} {table : Table} {outside : φ}
    (hP : N.Settled P) (hpresent : ∀ s, ¬P none s) (h : Stands id P w) (hlists : w.Lists id)
    (hload : Leads (Storage.Memory.Flaky N.mayFail) Registry.load.run w.storage
      (.done (.ok table)) m)
    (hmoves : N.moves w.outside outside) : Stands id P ⟨table, m, outside⟩ := by
  obtain ⟨rfl, hloaded⟩ := Registry.loaded_of_leads hload
  cases h with
  | missing _ _ hholds => exact absurd hholds (hpresent _)
  | @present row hkept hholds =>
    obtain ⟨-, hrow⟩ := hloaded.listed id row hkept.inStorage hlists
    exact .present ⟨hrow, hkept.inStorage, hkept.named⟩ (hP _ _ _ hmoves hholds)

/-- A step that starts nothing over leaves an oracle halted, unless it is a restart that does not
find the oracle in the stored order. -/
theorem step_stopped {x : Happening} (hstep : N.Step id w x w') (hreset : ¬x.Resets)
    (hlists : x = .restarted → w.Lists id) (hstands : Stands id (Stopped reason n) w) :
    Stands id (Stopped reason n) w' := by
  have hsettled : N.Settled (Stopped reason n) := settled_stopped
  have hcalled (hcall : x.IsCall) : Stands id (Stopped reason n) w' := by
    refine hstep.stands_of_call hcall hreset hsettled (fun _ _ _ _ h _ => h) ?_ hstands
    rintro row c s - ⟨row', ⟨⟩, hhalted, hround⟩
    exact ⟨_, rfl, hhalted, hround⟩
  cases hstep with
  | cycle policy deadline hrun =>
    cases hstands with
    | missing _ _ hstopped => exact absurd hstopped (stopped_missing _)
    | present hkept hstopped =>
      obtain ⟨_, ⟨⟩, hhalted, hround⟩ := hstopped
      have hended := (keeps_run_of_halted hkept hhalted).leads hrun
      exact .present hended.2 ⟨_, rfl, hhalted, hround⟩
  | register | update | remove | resync => exact hcalled trivial
  | restart hload hmoves =>
    exact hstands.restart_of_lists hsettled stopped_missing (hlists rfl) hload hmoves
  | elsewhere hstirs => exact hsettled.stands _ _ hstirs hstands

/-- A step that starts over leaves no oracle halted. -/
theorem step_unhalted {x : Happening} (hstep : N.Step id w x w') (hreset : x.Resets)
    (hstands : Stands id P w) : Stands id Unhalted w' := by
  refine hstep.stands_of_reset (T := fun _ _ _ => True) hreset settled_unhalted
    (fun _ _ _ _ _ h => h) ?_ ?_ (fun _ _ _ _ _ => trivial) ?_ hstands
  · intro s row hrow
    cases hrow
  · rintro c s row ⟨⟩
    rfl
  · rintro c b latest value s - hsame row ⟨⟩
    exact hsame.halted.symm

/-- A run that starts nothing over leaves an oracle halted, unless it comes to a restart that does
not find the oracle in the stored order. -/
theorem run_stopped {hs : List Happening} (hrun : N.Run id w hs w') (hreset : ∀ x ∈ hs, ¬x.Resets)
    (hstands : Stands id (Stopped reason n) w) :
    Stands id (Stopped reason n) w' ∨
      ∃ past u rest, hs = past ++ .restarted :: rest ∧ N.Run id w past u ∧ ¬u.Lists id := by
  induction hrun with
  | nil => exact .inl hstands
  | @cons w w₁ w' x rest hstep _ ih =>
    by_cases hlists : x = .restarted → w.Lists id
    · have hstands₁ := step_stopped hstep (hreset x List.mem_cons_self) hlists hstands
      refine (ih (fun x hmem => hreset x (List.mem_cons_of_mem _ hmem)) hstands₁).imp_right ?_
      rintro ⟨past, u, rest, rfl, hpast, hunlisted⟩
      exact ⟨x :: past, u, rest, rfl, .cons hstep hpast, hunlisted⟩
    · obtain ⟨rfl, hunlisted⟩ := Classical.not_imp.mp hlists
      exact .inr ⟨[], w, rest, rfl, .nil w, hunlisted⟩

/-! ## Which steps lift a halt -/

theorem Nature.Reachable.stopped (hreach : N.Reachable id w) (hrow : w.table.row? id = some row)
    (hhalted : row.bookkeeping.halted = some reason) :
    Stands id (Stopped reason row.bookkeeping.lastRound) w :=
  .present (hreach.kept hrow).1 ⟨row, rfl, hhalted, rfl⟩

theorem World.Halted.not_unhalted (h : w.Halted id reason n) : ¬Stands id Unhalted w := by
  obtain ⟨row, hrow, -, hhalted, -⟩ := h
  intro hrunning
  rw [hrunning.unhalted hrow] at hhalted
  cases hhalted

/-- The configuration that an update replaces is the one in the table. -/
theorem Nature.Step.former_eq {former : Option OracleConfig} {c : OracleConfig}
    {result : Except ServiceError Unit} (hstep : N.Step id w (.updated former c result) w') :
    former = (w.table.row? id).map (·.config) := by
  cases hstep
  rfl

/-- A halt is lifted by the steps that start the bookkeeping over, and by no others; a restart that
does not find the oracle in the stored order, which a removal that failed halfway leaves, takes it
away altogether. So an update that goes well keeps a halt if and only if it keeps the whole
destination: address, chain, node, credential and decimals. Seeding and requests about other oracles
keep it, and while it lasts cycles ask neither sources nor feeds and end with its reason, or without
the lock. -/
theorem halt_lifted_iff_started_over (hreach : N.Reachable id w)
    (hrow : w.table.row? id = some row) (hhalted : row.bookkeeping.halted = some reason) :
    (∀ x w', N.Step id w x w' → (x = .restarted → w.Lists id) →
      (w'.Halted id reason row.bookkeeping.lastRound ↔ ¬x.Resets)) ∧
    (∀ x w', N.Step id w x w' → x.Resets → ∀ row', w'.table.row? id = some row' →
      row'.bookkeeping.halted = none) ∧
    (∀ w', N.Step id w .restarted w' → ¬w.Lists id → w'.table.row? id = none) ∧
    (∀ former c w', N.Step id w (.updated former c (.ok ())) w' →
      (w'.Halted id reason row.bookkeeping.lastRound ↔
        row.config.destination = c.destination)) ∧
    (∀ hs w', N.Run id w hs w' → (∀ x ∈ hs, ¬x.Resets) →
      w'.Halted id reason row.bookkeeping.lastRound ∨
        ∃ past u rest, hs = past ++ .restarted :: rest ∧ N.Run id w past u ∧ ¬u.Lists id) ∧
    (∀ configs result w', Leads (N.around id) (Management.seed configs).run w (.done result) w' →
      w'.Halted id reason row.bookkeeping.lastRound) ∧
    (∀ (r : Registry.Request) reply w', Registry.Keyed w.table → r.target? ≠ some id →
      N.answers (.registry r) w reply w' → w'.Halted id reason row.bookkeeping.lastRound) ∧
    ∀ policy deadline,
      Keeps (N.around id) (fun r _ => r.internal)
        (fun outcome w' => (outcome = .ok (.halted reason) ∨ outcome = .ok .busy) ∧
          w'.table.row? id = some row) (Cycle.run policy id deadline) w ∧
      Keeps (N.around id) (fun r _ => r.internal)
        (fun outcome _ => outcome = .ok (.halted reason))
        (Cycle.runLocked policy id deadline).run w := by
  have hkept := (hreach.kept hrow).1
  have hstands := hreach.stopped hrow hhalted
  -- The equivalence at one step carries the clauses about steps; runs repeat one half of it.
  have hiff : ∀ x w', N.Step id w x w' → (x = .restarted → w.Lists id) →
      (w'.Halted id reason row.bookkeeping.lastRound ↔ ¬x.Resets) := by
    intro x w' hstep hlists
    constructor
    · intro hhalted' hreset
      exact hhalted'.not_unhalted (step_unhalted hstep hreset hstands)
    · intro hreset
      exact (step_stopped hstep hreset hlists hstands).halted
  refine ⟨hiff, ?_, ?_, ?_, ?_, ?_, ?_, ?_⟩
  · intro x w' hstep hreset row' hrow'
    exact (step_unhalted hstep hreset hstands).unhalted hrow'
  · intro w' hstep hunlisted
    cases hstep with
    | restart hload hmoves =>
      obtain ⟨-, hloaded⟩ := Registry.loaded_of_leads hload
      exact (hloaded.unlisted id fun order horder hmem => hunlisted ⟨order, horder, hmem⟩).1
  · intro former c w' hstep
    -- An update starts over exactly if it names another destination than the row had.
    rw [hiff _ w' hstep nofun]
    have hformer := hstep.former_eq
    rw [hrow] at hformer
    subst hformer
    exact not_not.trans Option.some_inj
  · intro hs w' hrun hreset
    exact (run_stopped hrun hreset hstands).imp_left Stands.halted
  · intro configs result w' hrun
    exact ((keeps_seed settled_stopped stopped_missing configs hstands).leads hrun).halted
  · intro r reply w' hkeyed hne hanswer
    exact (hstands.other hkeyed hne hanswer).halted
  · intro policy deadline
    exact ⟨(keeps_run_of_halted hkept hhalted).mono fun _ _ h => ⟨h.1, h.2.inTable⟩,
      (keeps_runLocked_of_halted hkept hhalted).mono fun _ _ h => h.1⟩

/-! ## A halt that is lifted by an update -/

open PriceOracle.Cycle in
/-- The first submission of an oracle is reverted, which halts it. -/
theorem first_submission_halts :
    ∃ (w : World Unit) (b : Bookkeeping) (reason : String),
      Nature.lawless.Reachable ethUsd.id w ∧ Kept ethUsd.id ⟨ethUsd, b⟩ w.table w.storage ∧
      b.halted = some reason ∧ w.table.Solo ethUsd.id := by
  let N : Nature Unit := Nature.lawless
  have hmoves : ∀ s, N.moves s s := fun _ => trivial
  obtain ⟨w₀, hregister, hkept₀, -, houtside₀, hsolo₀⟩ :=
    N.registers_solo hmoves (c := ethUsd) rfl ()
  let x : Submission := ⟨⟨[]⟩, 1, five, fiveAnswer⟩
  let e : PublishError := .reverted "execution reverted"
  have htakes : Takes N ethUsd .initial fiveAnswer ⟨[]⟩ () () :=
    ⟨⟨⟨0, .zero, 0, 0, 0⟩, rfl, trivial⟩, (), trivial, trivial⟩
  have hfollow : Reaches N ethUsd.id (follow onceOnly ethUsd x).run ⟨ethUsd, counted .initial⟩ ()
      (.done (.ok (.error e))) ⟨ethUsd, noted x (counted .initial)⟩ () :=
    (reaches_noted hmoves rfl rfl).trans (reaches_unconfirmed hmoves trivial)
  have hcycle := reaches_end hmoves rfl ready_initial next_initial finds_five htakes hfollow
    (reaches_failPublish_halted hmoves 0 rfl nofun)
  obtain ⟨w, hkept, -, hsolo, hrun⟩ := hcycle w₀ hkept₀ houtside₀
  have hreach : N.Reachable ethUsd.id w :=
    ⟨(), _, .cons hregister (.cons (.cycle onceOnly ⟨1⟩ hrun) (.nil w))⟩
  exact ⟨w, _, e.message, hreach, hkept, rfl, hsolo hsolo₀⟩

open PriceOracle.Cycle in
/-- `ethUsd` through another node, on the same chain and the same contract. -/
def ethUsdElsewhere : OracleConfig :=
  { ethUsd with
    destination := ⟨ethUsd.destination.contract, ⟨31337, "http://spare.test", none⟩, 8⟩ }

open PriceOracle.Cycle in
/-- An update that names another node for the same feed lifts the halt of an oracle. -/
theorem halt_lifted_by_another_node :
    ∃ (w w' : World Unit) (row row' : Row) (reason : String) (c : OracleConfig),
      Nature.lawless.Reachable ethUsd.id w ∧ w.table.row? ethUsd.id = some row ∧
      row.bookkeeping.halted = some reason ∧
      Nature.lawless.Step ethUsd.id w (.updated (some row.config) c (.ok ())) w' ∧
      c.destination.key = row.config.destination.key ∧
      w'.table.row? ethUsd.id = some row' ∧ row'.bookkeeping.halted = none := by
  obtain ⟨w, b, reason, hreach, hkept, hhalted, hsolo⟩ := first_submission_halts
  obtain ⟨w', hstep, hkept', -⟩ := Nature.lawless.updates (fun _ => trivial)
    ethUsdElsewhere hkept hsolo rfl rfl
  have hchanged : ethUsd.destination ≠ ethUsdElsewhere.destination := by decide
  rw [carriedOver, if_neg hchanged] at hkept'
  exact ⟨w, w', _, _, reason, ethUsdElsewhere, hreach, hkept.inTable, hhalted, hstep, rfl,
    hkept'.inTable, rfl⟩

open PriceOracle.Cycle in
/-- An update that changes the threshold keeps the halt of an oracle, and one that names another
node does not. -/
theorem halt_outlasts_another_threshold :
    ∃ (w w' w'' : World Unit) (row : Row) (reason : String),
      Nature.lawless.Reachable ethUsd.id w ∧ w.table.row? ethUsd.id = some row ∧
      row.bookkeeping.halted = some reason ∧
      Nature.lawless.Step ethUsd.id w
        (.updated (some ethUsd) { ethUsd with threshold := 2 } (.ok ())) w' ∧
      w'.Halted ethUsd.id reason row.bookkeeping.lastRound ∧
      Nature.lawless.Step ethUsd.id w (.updated (some ethUsd) ethUsdElsewhere (.ok ())) w'' ∧
      ¬w''.Halted ethUsd.id reason row.bookkeeping.lastRound := by
  obtain ⟨w, b, reason, hreach, hkept, hhalted, hsolo⟩ := first_submission_halts
  obtain ⟨w', hstep, -⟩ := Nature.lawless.updates (fun _ => trivial)
    { ethUsd with threshold := 2 } hkept hsolo rfl rfl
  obtain ⟨w'', hstep', -⟩ := Nature.lawless.updates (fun _ => trivial)
    ethUsdElsewhere hkept hsolo rfl rfl
  obtain ⟨-, -, -, hupdates, -⟩ := halt_lifted_iff_started_over hreach hkept.inTable hhalted
  have hchanged : ethUsd.destination ≠ ethUsdElsewhere.destination := by decide
  refine ⟨w, w', w'', _, reason, hreach, hkept.inTable, hhalted, hstep,
    (hupdates _ _ w' hstep).mpr rfl, hstep', ?_⟩
  rw [hupdates _ _ w'' hstep']
  exact hchanged

end PriceOracle
