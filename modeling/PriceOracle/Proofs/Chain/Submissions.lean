import PriceOracle.Proofs.Chain.Cycles
import PriceOracle.Proofs.Chain.Paths
import PriceOracle.Proofs.Cycle.Rounds

/-!
# Submissions that are sent twice

A submission that the chain accepted is written down in a write of its own. Where that write never
fails, no cycle sends an update while a transaction of the oracle is in flight, whichever other
writes fail (`Nature.NeverLoses`). Where it failed, the next cycle that is due sends the round
again: whether a transaction that is in flight is protected depends on nothing but whether the
bookkeeping has it as pending.
-/

namespace PriceOracle

open Chain (Moves nature)
open Program (Leads)
open Registry (Kept)

variable {key : FeedKey} {shared : Prop} {mayFail : Storage.Request → Storage.Memory → Prop}
  {id : OracleId} {c : OracleConfig} {b : Bookkeeping} {w w' : World Chain} {h : TxHash}

/-- A cycle may send an update of a feed while a transaction is in flight. -/
def Nature.SendsBeside (N : Nature Chain) (id : OracleId) (key : FeedKey) (h : TxHash)
    (w : World Chain) : Prop :=
  ∃ d answer w', N.Asks id w (.submit d answer) w' ∧ d.key = key ∧ w'.outside.InFlight h

/-- So it may be after some cycles and restarts. -/
def Nature.Resubmits (N : Nature Chain) (id : OracleId) (key : FeedKey) (h : TxHash)
    (w : World Chain) : Prop :=
  ∃ hs w', N.Run id w hs w' ∧ (∀ x ∈ hs, ¬x.IsCall) ∧ N.SendsBeside id key h w'

/-- Every transaction of a feed that is in flight is the one that the oracle has as pending. -/
def World.Accounts (w : World Chain) (key : FeedKey) (id : OracleId) : Prop :=
  ∀ row, w.table.row? id = some row → row.config.destination.key = key ∧
    ∀ h, w.outside.InFlight h → ∃ p, row.bookkeeping.pending = some p ∧ p.txHash = h

/-! ## Submissions that are written down -/

namespace Watch

/-- At rest, no cycle sends an update beside what is watched. -/
theorem not_sendsBeside {W : Watch} {kind : OracleConfig → Prop}
    (hsound : W.Sound shared mayFail id) (hstands : Stands id (W.Rests kind) w)
    (hwatched : W.hashes h) :
    ¬(nature W.key shared mayFail).SendsBeside id W.key h w := by
  rintro ⟨d, answer, w', hasks, hkey, hflight⟩
  exact not_inFlight_of_asks hsound hstands hasks hkey hwatched hflight

/-- What is watched at rest is not sent a second time. -/
theorem not_resubmits {W : Watch} {kind : OracleConfig → Prop} (hsound : W.Sound shared mayFail id)
    (hstands : Stands id (W.Rests kind) w) (hwatched : W.hashes h) :
    ¬(nature W.key shared mayFail).Resubmits id W.key h w := by
  rintro ⟨hs, w', hrun, hcalls, hsends⟩
  have hstands' := hrun.keeps_of hcalls (fun _ _ _ => step_rests hsound) hstands
  exact not_sendsBeside hsound hstands' hwatched hsends

/-- A row in step is at rest where what is watched is what is pending. -/
theorem rests_of_inStep {W : Watch} {kind : OracleConfig → Prop} {s : Chain}
    (hsynced : ¬W.synced) (hkind : kind c) (hstep : InStep (some ⟨c, b⟩) s) (hknown : W.Known s)
    (honly : c.destination.key = W.key → W.Only (b.pending.map (·.txHash)) s) :
    W.Rests kind (some ⟨c, b⟩) s := by
  cases hpending : b.pending with
  | none =>
    rw [hpending] at honly
    refine rests_of_clear hkind hpending ⟨hknown, ?_⟩
    intro hkey
    exact ⟨.inl (honly hkey), fun h => absurd h hsynced⟩
  | some p =>
    rw [hpending] at honly
    have hround : b.nextRound = some p.round := hstep _ p rfl hpending
    rw [Rests, hpending]
    refine ⟨hkind, ⟨hpending, hround⟩, hknown, ?_⟩
    intro hkey
    exact ⟨honly hkey, fun h => absurd h hsynced⟩

/-- A transaction in flight that is pending can be watched. -/
theorem rests_of_pending {row : Row} {p : Pending} (hkept : Kept id row w.table w.storage)
    (hstep : InStep (some row) w.outside) (hpending : row.bookkeeping.pending = some p)
    (hflight : w.outside.InFlight p.txHash) :
    Stands id ((one key p.txHash).Rests fun _ => True) w := by
  refine .present hkept (rests_of_inStep not_false trivial hstep ?_ ?_)
  · rintro - g rfl hnone
    cases hnone.symm.trans hflight
  · rintro - g rfl -
    rw [hpending]
    rfl

/-- Nothing is in flight but what is pending. -/
theorem rests_of_accounts (hstep : Stands id InStep w) (haccounts : w.Accounts key id) :
    Stands id ((all key False).Rests fun c => c.destination.key = key) w := by
  cases hstep with
  | @present row hkept hstep =>
    obtain ⟨hkey, hflights⟩ := haccounts row hkept.inTable
    refine .present hkept (rests_of_inStep not_false hkey hstep nofun ?_)
    intro _ g _ hflight
    obtain ⟨p, hpending, rfl⟩ := hflights g hflight
    rw [hpending]
    rfl
  | missing hnone hunlisted _ => exact .missing hnone hunlisted nofun

theorem accounts_of_rests
    (hstands : Stands id ((all key False).Rests fun c => c.destination.key = key) w) :
    w.Accounts key id := by
  intro row hrow
  cases hstands with
  | missing hnone =>
    rw [hnone] at hrow
    cases hrow
  | @present found hkept hrests =>
    obtain rfl : found = row := Option.some.inj (hkept.inTable.symm.trans hrow)
    obtain ⟨hkey, -, -, hfact⟩ := hrests
    refine ⟨hkey, fun g hflight => ?_⟩
    cases hpending : found.bookkeeping.pending with
    | none =>
      rw [hpending] at hfact
      rcases (hfact hkey).1 with honly | ⟨hlax, -⟩
      · cases honly g trivial hflight
      · exact hlax.elim
    | some p =>
      rw [hpending] at hfact
      exact ⟨p, rfl, Option.some.inj ((hfact hkey).1 g trivial hflight)⟩

end Watch

/-! ## Submissions that got lost -/

/-- An oracle that runs, is at the latest round of its feed, which is not the last that can be
counted, and finds a value to publish. -/
structure World.Publishes (w : World Chain) (c : OracleConfig) (b : Bookkeeping) : Prop where
  running : b.halted = none
  counts : c.threshold ≠ 0
  upToDate : w.outside.latest = b.lastRound.toNat
  next : b.nextRound.isSome
  finds : ∃ policy deadline value answer, Cycle.Finds policy c deadline value answer

/-- A transaction that is in flight and not pending does not keep an oracle from sending another. -/
theorem resubmits_of_clear (hkept : Kept id ⟨c, b⟩ w.table w.storage)
    (hkey : c.destination.key = key) (hpublishes : w.Publishes c b) (hpending : b.pending = none)
    (hflight : w.outside.InFlight h) : (nature key shared mayFail).Resubmits id key h w := by
  obtain ⟨hrunning, hcounts, hlatest, hnext, policy, deadline, value, answer, hfinds⟩ := hpublishes
  obtain ⟨round, hround⟩ := Option.isSome_iff_exists.mp hnext
  -- Some cycles are counted until the oracle is due, and the next one asks.
  obtain ⟨hs, w', n, hrun, hwaited, hkept', houtside, hready⟩ :=
    Cycle.run_until_due policy deadline Chain.nature_moves hrunning hpending hcounts hkept
  obtain ⟨current, hcurrent, htells⟩ := Chain.may_tell key c.destination hlatest
  rw [← houtside] at htells hflight
  obtain ⟨w'', hasks, houtside'⟩ :=
    Cycle.asks_submit Chain.nature_moves hready hround hfinds htells hcurrent hkept'
  refine ⟨hs, w', hrun, ?_, c.destination, answer, w'', hasks, hkey, ?_⟩
  · intro x hx
    obtain ⟨remaining, rfl⟩ := hwaited x hx
    exact not_false
  · rw [houtside']
    exact hflight

/-! ## Which submissions are sent twice -/

/-- Where a submission that was accepted never fails to be written down, nothing is sent while a
transaction is in flight, whichever other writes fail. In general a transaction in flight keeps the
oracle from sending another if and only if it is written down as pending, whatever fails later. -/
theorem resubmits_iff_not_written (hreach : (nature key shared mayFail).Reachable id w) :
    ((nature key shared mayFail).NeverLoses id → w.Accounts key id →
      (∀ hs w', (nature key shared mayFail).Run id w hs w' → (∀ x ∈ hs, ¬x.IsCall) →
        w'.Accounts key id) ∧
      ∀ h, ¬(nature key shared mayFail).Resubmits id key h w) ∧
    ∀ c b h, w.table.row? id = some ⟨c, b⟩ → c.destination.key = key → w.Publishes c b →
      w.outside.InFlight h → (∀ p, b.pending = some p → p.txHash = h) →
        ((nature key shared mayFail).Resubmits id key h w ↔ b.pending = none) := by
  constructor
  · intro hnever haccounts
    have hsound : (Watch.all key False).Sound shared mayFail id := Watch.sound_all nofun hnever
    have hrests := Watch.rests_of_accounts hreach.inStep haccounts
    constructor
    · intro hs w' hrun hcalls
      exact Watch.accounts_of_rests
        (hrun.keeps_of hcalls (fun _ _ _ => Watch.step_rests hsound) hrests)
    · intro h
      exact Watch.not_resubmits hsound hrests trivial
  · intro c b h hrow hkey hpublishes hflight hsame
    obtain ⟨hkept, hinStep⟩ := hreach.kept hrow
    constructor
    · -- What is pending is watched, so that no cycle sends anything beside it.
      intro hagain
      by_contra hpending
      obtain ⟨p, hp⟩ := Option.ne_none_iff_exists'.mp hpending
      obtain rfl := hsame p hp
      have hrests : Stands id ((Watch.one key p.txHash).Rests fun _ => True) w :=
        Watch.rests_of_pending hkept hinStep hp hflight
      exact Watch.not_resubmits Watch.sound_one hrests rfl hagain
    · intro hpending
      exact resubmits_of_clear hkept hkey hpublishes hpending hflight

/-! ## A submission that gets lost -/

/-- Writes of rows with a submission may fail, and no other requests. -/
def failsToNote : Storage.Request → Storage.Memory → Prop := fun r _ =>
  ∃ row : Row, row.bookkeeping.pending ≠ none ∧ ∃ k, r = .set k (Storage.encode row.toJson)

/-- A feed without rounds to which nothing was sent. -/
def Chain.empty : Chain := ⟨[], fun _ => none⟩

open PriceOracle.Cycle in
/-- The first submission of an oracle gets lost. -/
theorem first_submission_lost (e : StorageError) :
    ∃ w w' : World Chain,
      (nature ethUsd.destination.key False failsToNote).Reachable ethUsd.id w ∧
      w.outside = .empty ∧
      (nature ethUsd.destination.key False failsToNote).Step ethUsd.id w
        (.cycled (.error (.storage e))) w' ∧
      Kept ethUsd.id ⟨ethUsd, counted .initial⟩ w'.table w'.storage ∧
      w'.outside = Chain.empty.sent ⟨[]⟩ fiveAnswer := by
  let N : Nature Chain := nature ethUsd.destination.key False failsToNote
  obtain ⟨w, hregister, hkept, -, houtside⟩ :=
    N.registers Chain.nature_moves (c := ethUsd) rfl Chain.empty
  have htakes : Takes N ethUsd .initial fiveAnswer ⟨[]⟩ Chain.empty
      (Chain.empty.sent ⟨[]⟩ fiveAnswer) := Chain.takes rfl rfl rfl .refl
  obtain ⟨w', hstep, hkept', houtside'⟩ := step_of_reaches
    (reaches_end_lost Chain.nature_moves rfl ready_initial next_initial finds_five htakes
      (fun m => ⟨_, by simp [noted], _, rfl⟩) e) hkept houtside
  exact ⟨w, w', ⟨Chain.empty, [_], .cons hregister (.nil w)⟩, houtside, hstep, hkept', houtside'⟩

open PriceOracle.Cycle in
/-- A round is sent while the transaction that was accepted for it before is in flight. -/
theorem lost_submission_sent_again :
    ∃ (w w' w'' : World Chain) (h : TxHash) (e : StorageError) (answer : Uint256),
      (nature ethUsd.destination.key False failsToNote).Reachable ethUsd.id w ∧
      w.outside.fate? h = none ∧
      (nature ethUsd.destination.key False failsToNote).Step ethUsd.id w
        (.cycled (.error (.storage e))) w' ∧
      w'.outside.InFlight h ∧
      (nature ethUsd.destination.key False failsToNote).Asks ethUsd.id w'
        (.submit ethUsd.destination answer) w'' ∧
      w''.outside.InFlight h ∧ w.outside.latest = 0 ∧ w''.outside.latest = 0 := by
  obtain ⟨w, w', hreach, houtside, hstep, hkept, houtside'⟩ :=
    first_submission_lost (.backend "injected set failure")
  have hready : Ready ethUsd (counted .initial) := ⟨rfl, rfl, rfl⟩
  obtain ⟨current, hcurrent, htells⟩ :=
    Chain.may_tell ethUsd.destination.key ethUsd.destination (s := w'.outside) (n := 0)
      (by rw [houtside']; rfl)
  obtain ⟨w'', hasks, hsame⟩ :=
    asks_submit Chain.nature_moves hready next_initial finds_five htells hcurrent hkept
  refine ⟨w, w', w'', ⟨[]⟩, _, fiveAnswer, hreach, ?_, hstep, ?_, hasks, ?_, ?_, ?_⟩
  · rw [houtside]
    rfl
  · rw [houtside']
    exact Chain.inFlight_sent
  · rw [hsame, houtside']
    exact Chain.inFlight_sent
  · rw [houtside]
    rfl
  · rw [hsame, houtside']
    rfl

open PriceOracle.Cycle in
/-- An oracle whose writes go through is accounted for, and one that lost a submission sends it
again. -/
theorem resubmits_after_loss :
    (∃ w, (nature ethUsd.destination.key False fun _ _ => False).Reachable ethUsd.id w ∧
      w.Accounts ethUsd.destination.key ethUsd.id ∧ ∀ h,
        ¬(nature ethUsd.destination.key False fun _ _ => False).Resubmits ethUsd.id
          ethUsd.destination.key h w) ∧
    ∃ w h, (nature ethUsd.destination.key False failsToNote).Reachable ethUsd.id w ∧
      w.outside.InFlight h ∧
      (nature ethUsd.destination.key False failsToNote).Resubmits ethUsd.id
        ethUsd.destination.key h w := by
  constructor
  · let N : Nature Chain := nature ethUsd.destination.key False fun _ _ => False
    obtain ⟨w, hregister, hkept, -, houtside⟩ :=
      N.registers Chain.nature_moves (c := ethUsd) rfl Chain.empty
    have hreach : N.Reachable ethUsd.id w := ⟨Chain.empty, [_], .cons hregister (.nil w)⟩
    have haccounts : w.Accounts ethUsd.destination.key ethUsd.id := by
      intro row hrow
      obtain rfl := Option.some.inj (hkept.inTable.symm.trans hrow)
      refine ⟨rfl, fun h hflight => ?_⟩
      rw [houtside] at hflight
      cases hflight
    exact ⟨w, hreach, haccounts, ((resubmits_iff_not_written hreach).1
      (fun _ _ _ _ ⟨_, _, h⟩ => h) haccounts).2⟩
  -- The first submission is in flight and noted nowhere: the write after it failed.
  · obtain ⟨w, w', hreach, -, hstep, hkept, houtside⟩ :=
      first_submission_lost (.backend "injected set failure")
    have hreach' := hreach.run (.cons hstep (.nil w'))
    have hflight : w'.outside.InFlight ⟨[]⟩ := by
      rw [houtside]
      exact Chain.inFlight_sent
    have hpublishes : w'.Publishes ethUsd (counted .initial) := by
      refine ⟨rfl, by decide, ?_, rfl, _, _, _, _, finds_five⟩
      rw [houtside]
      rfl
    exact ⟨w', ⟨[]⟩, hreach', hflight, ((resubmits_iff_not_written hreach').2 ethUsd _ ⟨[]⟩
      hkept.inTable rfl hpublishes hflight nofun).mpr rfl⟩

end PriceOracle
