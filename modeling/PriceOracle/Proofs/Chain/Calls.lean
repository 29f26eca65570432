import PriceOracle.Proofs.Chain.Submissions

/-!
# Calls that forget a submission

A management call that starts the bookkeeping of an oracle over forgets the submission that is
pending. The oracle then sends an update beside the transaction in flight, unless its feed is ahead
of the bookkeeping: an update starts over at round zero, so that a feed with rounds is ahead, and a
resync starts over at the latest round, so that it hardly ever is.

* `Watch.step_rests_of_not_resets`, `Watch.step_rests_of_late`: calls that start nothing over, or
  start over behind the feed, keep what is known of a transaction in flight. Runs of them do so by
  `Nature.Run.keeps_of`.
* `forgotten_iff_started_over`: a step forgets a transaction in flight if and only if it starts the
  bookkeeping over at the latest round of the feed, and another can be counted.
-/

namespace PriceOracle

open Chain (Moves nature)
open Program (Leads)
open Registry (Kept carriedOver)

variable {key : FeedKey} {shared : Prop} {mayFail : Storage.Request → Storage.Memory → Prop}
  {id : OracleId} {c : OracleConfig} {b : Bookkeeping} {s s' : Chain} {w w' : World Chain}
  {h : TxHash} {x : Happening}

/-! ## The latest round -/

namespace Chain

/-- No request takes rounds away. -/
theorem latest_le_of_around {r : Surroundings.Request} {reply : r.Reply}
    (hreply : (nature key shared mayFail).around id r w reply w') :
    w.outside.latest ≤ w'.outside.latest := by
  obtain ⟨w₁, hanswer, hstirs⟩ := hreply
  refine Nat.le_trans ?_ hstirs.moved.latest_le
  cases r with
  | registry r => rw [hanswer.2]
  | feed r => exact (answers_latest hanswer.1).ge
  | _ =>
    obtain rfl := hanswer
    exact Nat.le_refl _

theorem latest_le_of_leads {α : Type} {p q : Surroundings.Action α}
    (hrun : Leads ((nature key shared mayFail).around id) p w q w') :
    w.outside.latest ≤ w'.outside.latest := by
  induction hrun with
  | here => exact Nat.le_refl _
  | ask hreply _ ih => exact Nat.le_trans (latest_le_of_around hreply) ih

/-- No step takes rounds away. -/
theorem latest_le_of_step (hstep : (nature key shared mayFail).Step id w x w') :
    w.outside.latest ≤ w'.outside.latest := by
  cases hstep with
  | cycle _ _ hrun => exact latest_le_of_leads hrun
  | register _ _ _ _ hrun | update _ _ _ _ hrun => exact latest_le_of_leads hrun
  | remove _ _ hrun | resync _ _ hrun => exact latest_le_of_leads hrun
  | restart _ hmoves => exact hmoves.latest_le
  | elsewhere hstirs => exact hstirs.moved.latest_le

end Chain

/-! ## Calls that keep what is watched -/

/-- A fact about what lies outside holds of an oracle however it stands. -/
theorem Stands.and {φ : Type} {P : Standing φ} {fact : φ → Prop} {w : World φ}
    (hstands : Stands id P w) (hfact : fact w.outside) :
    Stands id (fun o s => P o s ∧ fact s) w := by
  cases hstands with
  | present hkept hholds => exact .present hkept ⟨hholds, hfact⟩
  | missing hnone hunlisted hholds => exact .missing hnone hunlisted ⟨hholds, hfact⟩

namespace Watch

variable {W : Watch} {kind : OracleConfig → Prop}

/-- What is known does not depend on a configuration beyond its destination. -/
theorem rests_configured {row : Row} (hkind : kind c)
    (hsame : row.config.destination = c.destination) (h : W.Rests kind (some row) s) :
    W.Rests kind (some ⟨c, row.bookkeeping⟩) s := by
  obtain ⟨-, hfits, htells⟩ := h
  refine ⟨hkind, hfits, ?_⟩
  rw [← hsame]
  exact htells

/-- Bookkeeping whose next round is written already sends nothing. -/
theorem rests_of_outrun (hpending : b.pending = none) (hknown : (one key h).Known s)
    (hout : c.destination.key = key → b.Outrun s) :
    (one key h).Rests (fun _ => True) (some ⟨c, b⟩) s :=
  rests_of_clear trivial hpending ⟨hknown, fun hkey => ⟨.inr ⟨trivial, hout hkey⟩, nofun⟩⟩

/-- A step that starts nothing over keeps what is known. -/
theorem step_rests_of_not_resets (hsound : W.Sound shared mayFail id)
    (hkind : ∀ c c' : OracleConfig, c.destination = c'.destination → kind c → kind c')
    (hstep : (nature W.key shared mayFail).Step id w x w') (hreset : ¬x.Resets)
    (hstands : Stands id (W.Rests kind) w) : Stands id (W.Rests kind) w' := by
  by_cases hcall : x.IsCall
  · refine hstep.stands_of_call hcall hreset (settled_rests hsound) ?_ ?_ hstands
    · rintro row s s' reply hrests ⟨-, rfl⟩
      exact hrests
    · intro row c s hsame hrests
      exact rests_configured (hkind _ _ hsame hrests.1) hsame hrests
  · exact step_rests hsound hstep hcall hstands

/-- Where a feed has rounds, only a resync may start bookkeeping over at the latest. -/
theorem step_rests_of_late (hstep : (nature key shared mayFail).Step id w x w')
    (hlate : 0 < w.outside.latest) (hresync : ¬x.Resyncs)
    (hstands : Stands id ((one key h).Rests fun _ => True) w) :
    Stands id ((one key h).Rests fun _ => True) w' := by
  -- Rounds stay, so that whatever starts over does so behind the feed.
  let P : Standing Chain := fun o s => (one key h).Rests (fun _ => True) o s ∧ 0 < s.latest
  have hsound : (one key h).Sound shared mayFail id := sound_one
  have hsettled : (nature key shared mayFail).Settled ((one key h).Rests fun _ => True) :=
    settled_rests hsound
  have hP : (nature key shared mayFail).Settled P := by
    rintro o s s' hmoves ⟨hrests, hpositive⟩
    exact ⟨hsettled o s s' hmoves hrests, Nat.lt_of_lt_of_le hpositive hmoves.latest_le⟩
  have hstands' : Stands id P w := hstands.and hlate
  have hinitial : ∀ c s, P none s → P (some ⟨c, .initial⟩) s := by
    rintro c s ⟨hknown, hpositive⟩
    refine ⟨rests_of_outrun rfl hknown fun _ round hnext => ?_, hpositive⟩
    obtain rfl := Option.some.inj hnext
    exact hpositive
  have hgone : ∀ o s, P o s → P none s := by
    rintro o s ⟨hrests, hpositive⟩
    exact ⟨hrests.known, hpositive⟩
  by_cases hreset : x.Resets
  · refine Stands.mono (P := P) ?_ fun o s hrests => hrests.1
    cases hstep with
    | register auth caller c hc hrun =>
      exact ((keeps_register hc hP hP hstands' fun s => hinitial c s).leads hrun).either
    | update auth caller c hc hrun =>
      refine ((keeps_update hc hP hP hstands' fun row s hrests => ?_).leads hrun).either
      unfold carriedOver
      split
      next hsame =>
        obtain ⟨hrests, hpositive⟩ := hrests
        exact ⟨rests_configured trivial hsame hrests, hpositive⟩
      next => exact hinitial c s (hgone _ s hrests)
    | remove auth caller hrun =>
      exact ((keeps_remove hP hP hstands' hgone).leads hrun).either
    | @resync _ result auth caller hrun =>
      cases result with
      | ok _ => exact absurd trivial hresync
      | error _ => exact hreset.elim
    | cycle | restart | elsewhere => exact hreset.elim
  · exact step_rests_of_not_resets sound_one (fun _ _ _ _ => trivial) hstep hreset hstands

end Watch

/-! ## Calls that start over -/

/-- Bookkeeping that was started over remembers no submission, and is not ahead of its feed. -/
def StartedOver (key : FeedKey) : Standing Chain := fun o s =>
  ∀ row, o = some row → row.bookkeeping.pending = none ∧ row.bookkeeping.halted = none ∧
    (row.config.destination.key = key → row.bookkeeping.lastRound.toNat ≤ s.latest)

theorem settled_startedOver : (nature key shared mayFail).Settled (StartedOver key) := by
  intro o s s' hmoves hover row hrow
  obtain ⟨hpending, hhalted, hround⟩ := hover row hrow
  exact ⟨hpending, hhalted, fun hkey => Nat.le_trans (hround hkey) hmoves.latest_le⟩

theorem startedOver_missing (s : Chain) : StartedOver key none s := fun _ hrow => by cases hrow

theorem startedOver_initial (c : OracleConfig) (s : Chain) :
    StartedOver key (some ⟨c, .initial⟩) s := by
  rintro row ⟨⟩
  exact ⟨rfl, rfl, fun _ => Nat.zero_le _⟩

/-- An aligned oracle is not ahead of a feed that told the truth. -/
theorem startedOver_aligned {latest : FeedRound} {value : Option Decimal}
    (htold : c.destination.key = key → latest.round.toNat ≤ s.latest)
    (hsame : (Management.aligned latest value).Same b) : StartedOver key (some ⟨c, b⟩) s := by
  rintro row ⟨⟩
  have hpending : b.pending.isSome = false := hsame.pending.symm
  have hround : latest.round = b.lastRound := hsame.lastRound
  exact ⟨Option.not_isSome_iff_eq_none.mp (by simp [hpending]), hsame.halted.symm,
    fun hkey => hround ▸ htold hkey⟩

/-- A step that starts the bookkeeping over leaves it so. -/
theorem step_startedOver {P : Standing Chain} (hstep : (nature key shared mayFail).Step id w x w')
    (hreset : x.Resets) (hstands : Stands id P w) : Stands id (StartedOver key) w' := by
  let told (d : Destination) (latest : FeedRound) (s : Chain) : Prop :=
    d.key = key → latest.round.toNat ≤ s.latest
  refine hstep.stands_of_reset (T := told) hreset settled_startedOver ?_ startedOver_missing
    startedOver_initial ?_ (fun _ _ _ _ _ htold hsame => startedOver_aligned htold hsame) hstands
  · intro d latest s s' hmoves htold hkey
    exact Nat.le_trans (htold hkey) hmoves.latest_le
  · rintro d latest s s' ⟨htrue, rfl⟩ hkey
    exact (htrue hkey).1.le

/-! ## What is forgotten -/

/-- An oracle that counts its cycles and may find a value to publish. -/
def OracleConfig.MayPublish (c : OracleConfig) : Prop :=
  c.threshold ≠ 0 ∧ ∃ policy deadline value answer, Cycle.Finds policy c deadline value answer

/-- Bookkeeping that was started over sends an update beside a transaction in flight if and only if
it is at the latest round, and there is a next one. -/
theorem resubmits_of_startedOver (hreach : (nature key shared mayFail).Reachable id w)
    (hover : Stands id (StartedOver key) w) (hrow : w.table.row? id = some ⟨c, b⟩)
    (hkey : c.destination.key = key) (hpublish : c.MayPublish) (hflight : w.outside.InFlight h) :
    (nature key shared mayFail).Resubmits id key h w ↔
      w.outside.latest = b.lastRound.toNat ∧ b.nextRound.isSome := by
  have hkept := (hreach.kept hrow).1
  obtain ⟨hpending, hhalted, hround⟩ : b.pending = none ∧ b.halted = none ∧
      (c.destination.key = key → b.lastRound.toNat ≤ w.outside.latest) := by
    cases hover with
    | present hkept' hover => exact hover _ (hkept'.inTable.symm.trans hrow)
    | missing hnone =>
      rw [hnone] at hrow
      cases hrow
  constructor
  · -- Elsewhere the oracle finds that the next round was taken, or has none, and sends nothing.
    intro hagain
    by_contra hnot
    have hout : b.Outrun w.outside := by
      intro round hnext
      have hle := hround hkey
      have hne : w.outside.latest ≠ b.lastRound.toNat := fun heq => hnot ⟨heq, by simp [hnext]⟩
      rw [successor_eq_some.mp hnext]
      omega
    have hknown : (Watch.one key h).Known w.outside := by
      rintro - g rfl hnone
      cases hnone.symm.trans hflight
    have hrests := Stands.present hkept (Watch.rests_of_outrun hpending hknown fun _ => hout)
    exact Watch.not_resubmits Watch.sound_one hrests rfl hagain
  · rintro ⟨hlatest, hnext⟩
    exact resubmits_of_clear hkept hkey ⟨hhalted, hpublish.1, hlatest, hnext, hpublish.2⟩ hpending
      hflight

/-- A submission that is pending and in flight is not forgotten by any run of cycles, restarts and
calls in which nothing is started over, or where the feed has rounds and there is no resync; and
where no accepted submission is lost, no run in which nothing is started over sends an update beside
any transaction. A step forgets the submission if and only if it starts the bookkeeping over at the
latest round of the feed, and another can be counted. -/
theorem forgotten_iff_started_over {row : Row} {p : Pending}
    (hreach : (nature key shared mayFail).Reachable id w) (hrow : w.table.row? id = some row)
    (hpending : row.bookkeeping.pending = some p) (hflight : w.outside.InFlight p.txHash) :
    (∀ hs w', (nature key shared mayFail).Run id w hs w' →
      ((∀ x ∈ hs, ¬x.Resets) ∨ 0 < w.outside.latest ∧ ∀ x ∈ hs, ¬x.Resyncs) →
        ¬(nature key shared mayFail).SendsBeside id key p.txHash w') ∧
    ((nature key shared mayFail).NeverLoses id → w.Accounts key id →
      ∀ hs w', (nature key shared mayFail).Run id w hs w' → (∀ x ∈ hs, ¬x.Resets) →
        ∀ h, ¬(nature key shared mayFail).SendsBeside id key h w') ∧
    ∀ x w' c b, (nature key shared mayFail).Step id w x w' → w'.table.row? id = some ⟨c, b⟩ →
      c.destination.key = key → c.MayPublish → w'.outside.InFlight p.txHash →
        ((nature key shared mayFail).Resubmits id key p.txHash w' ↔
          x.Resets ∧ w'.outside.latest = b.lastRound.toNat ∧ b.nextRound.isSome) := by
  obtain ⟨hkept, hinStep⟩ := hreach.kept hrow
  have hrests : Stands id ((Watch.one key p.txHash).Rests fun _ => True) w :=
    Watch.rests_of_pending hkept hinStep hpending hflight
  refine ⟨?_, ?_, ?_⟩
  · intro hs w' hrun hkeeps
    have hrests' : Stands id ((Watch.one key p.txHash).Rests fun _ => True) w' := by
      rcases hkeeps with hreset | ⟨hlate, hresync⟩
      · exact hrun.keeps_of hreset (fun _ _ _ => Watch.step_rests_of_not_resets Watch.sound_one
          fun _ _ _ _ => trivial) hrests
      · -- The feed goes on having rounds, step after step.
        have hboth := hrun.keeps_of (J := fun w => 0 < w.outside.latest ∧
            Stands id ((Watch.one key p.txHash).Rests fun _ => True) w) hresync
          (fun _ _ _ hstep hresync hw =>
            ⟨Nat.lt_of_lt_of_le hw.1 (Chain.latest_le_of_step hstep),
              Watch.step_rests_of_late hstep hw.1 hresync hw.2⟩) ⟨hlate, hrests⟩
        exact hboth.2
    exact Watch.not_sendsBeside Watch.sound_one hrests' rfl
  · intro hnever haccounts hs w' hrun hreset h
    have hsound : (Watch.all key False).Sound shared mayFail id := Watch.sound_all nofun hnever
    have hkind : ∀ c c' : OracleConfig, c.destination = c'.destination →
        c.destination.key = key → c'.destination.key = key := by
      intro c c' hsame hkey
      rw [← hsame]
      exact hkey
    have hrests' := hrun.keeps_of hreset
      (fun _ _ _ => Watch.step_rests_of_not_resets hsound hkind)
      (Watch.rests_of_accounts hreach.inStep haccounts)
    exact Watch.not_sendsBeside hsound hrests' trivial
  · intro x w' c b hstep hrow' hkey hpublish hflight'
    by_cases hreset : x.Resets
    · have hreach' := hreach.run (.cons hstep (.nil w'))
      rw [resubmits_of_startedOver hreach' (step_startedOver hstep hreset hrests) hrow' hkey
        hpublish hflight']
      exact (and_iff_right hreset).symm
    · have hrests' := Watch.step_rests_of_not_resets Watch.sound_one (fun _ _ _ _ => trivial) hstep
        hreset hrests
      exact iff_of_false (Watch.not_resubmits Watch.sound_one hrests' rfl) fun h => hreset h.1

/-! ## A submission that is forgotten -/

open PriceOracle.Cycle in
/-- The first submission of an oracle waits to be mined when the oracle is aligned with its feed. -/
theorem first_submission_forgotten :
    ∃ (w w' : World Chain) (row : Row) (p : Pending),
      (nature ethUsd.destination.key False fun _ _ => False).Reachable ethUsd.id w ∧
      w.table.row? ethUsd.id = some row ∧ row.bookkeeping.pending = some p ∧
      w.outside.InFlight p.txHash ∧ w.outside.latest = 0 ∧
      (nature ethUsd.destination.key False fun _ _ => False).Step ethUsd.id w
        (.resynced (.ok .initial)) w' ∧
      Kept ethUsd.id ⟨ethUsd, .initial⟩ w'.table w'.storage ∧ w'.outside = w.outside := by
  let N : Nature Chain := nature ethUsd.destination.key False fun _ _ => False
  let x : Submission := ⟨⟨[]⟩, 1, five, fiveAnswer⟩
  let b : Bookkeeping := afterPublishFailure 0 none (noted x (counted .initial))
  obtain ⟨w₀, hregister, hkept₀, -, houtside₀⟩ :=
    N.registers Chain.nature_moves (c := ethUsd) rfl Chain.empty
  have htakes : Takes N ethUsd .initial fiveAnswer ⟨[]⟩ Chain.empty
      (Chain.empty.sent ⟨[]⟩ fiveAnswer) := Chain.takes rfl rfl rfl .refl
  obtain ⟨w, hcycle, hkept, houtside⟩ := step_of_reaches
    (reaches_end_unconfirmed Chain.nature_moves rfl ready_initial next_initial finds_five htakes
      (e := .unconfirmed (TxHash.text ⟨[]⟩) "no receipt before timeout") rfl
      (Chain.may_fail_to_confirm _) 0) hkept₀ houtside₀
  have hhalf : N.Reachable ethUsd.id w₀ := ⟨Chain.empty, [_], .cons hregister (.nil w₀)⟩
  -- The feed still stands at round 0, so the resync aligns to it and drops what is pending.
  have hlatest : N.feed (.latestRound ethUsd.destination) w.outside (.ok ⟨0, .zero, 0, 0, 0⟩)
      w.outside := by
    rw [houtside]
    exact ⟨fun _ => ⟨rfl, fun h => absurd h (Nat.lt_irrefl 0)⟩, rfl⟩
  have hchanged : (Management.aligned ⟨0, .zero, 0, 0, 0⟩ none == b) = false :=
    Bookkeeping.not_beq_of_pending Bool.false_ne_true
  obtain ⟨w', hkept', houtside', -, hresync⟩ :=
    reaches_resync Chain.nature_moves hlatest rfl hchanged w hkept rfl
  refine ⟨w, w', ⟨ethUsd, b⟩, x.pending, hhalf.run (.cons hcycle (.nil w)), hkept.inTable, rfl, ?_,
    ?_, .resync .anyone none hresync, hkept', houtside'⟩
  · rw [houtside]
    exact Chain.inFlight_sent
  · rw [houtside]
    rfl

open PriceOracle.Cycle in
/-- After a resync an update is sent beside the one that was pending, which is still in flight. -/
theorem forgotten_submission_sent_again :
    ∃ (w w' w'' : World Chain) (row : Row) (p : Pending) (answer : Uint256),
      (nature ethUsd.destination.key False fun _ _ => False).Reachable ethUsd.id w ∧
      w.table.row? ethUsd.id = some row ∧ row.bookkeeping.pending = some p ∧
      w.outside.InFlight p.txHash ∧
      (nature ethUsd.destination.key False fun _ _ => False).Step ethUsd.id w
        (.resynced (.ok .initial)) w' ∧
      (nature ethUsd.destination.key False fun _ _ => False).Asks ethUsd.id w'
        (.submit ethUsd.destination answer) w'' ∧
      w''.outside.InFlight p.txHash := by
  obtain ⟨w, w', row, p, hreach, hrow, hpending, hflight, hlatest, hresync, hkept, houtside⟩ :=
    first_submission_forgotten
  obtain ⟨current, hcurrent, htells⟩ :=
    Chain.may_tell ethUsd.destination.key ethUsd.destination (s := w'.outside) (n := 0)
      (by rw [houtside]; exact hlatest)
  obtain ⟨w'', hasks, hsame⟩ :=
    asks_submit Chain.nature_moves ready_initial next_initial finds_five htells hcurrent hkept
  refine ⟨w, w', w'', row, p, fiveAnswer, hreach, hrow, hpending, hflight, hresync, hasks, ?_⟩
  rw [hsame, houtside]
  exact hflight

open PriceOracle.Cycle in
/-- Before a resync nothing is sent beside the submission that is pending, and after it one is. -/
theorem forgotten_after_resync :
    ∃ (w w' : World Chain) (row : Row) (p : Pending),
      (nature ethUsd.destination.key False fun _ _ => False).Reachable ethUsd.id w ∧
      w.table.row? ethUsd.id = some row ∧ row.bookkeeping.pending = some p ∧
      w.outside.InFlight p.txHash ∧
      ¬(nature ethUsd.destination.key False fun _ _ => False).SendsBeside ethUsd.id
        ethUsd.destination.key p.txHash w ∧
      (nature ethUsd.destination.key False fun _ _ => False).Step ethUsd.id w
        (.resynced (.ok .initial)) w' ∧
      (nature ethUsd.destination.key False fun _ _ => False).Resubmits ethUsd.id
        ethUsd.destination.key p.txHash w' := by
  obtain ⟨w, w', row, p, hreach, hrow, hpending, hflight, hlatest, hresync, hkept, houtside⟩ :=
    first_submission_forgotten
  obtain ⟨hsafe, -, hforgets⟩ := forgotten_iff_started_over hreach hrow hpending hflight
  have hpublish : ethUsd.MayPublish := ⟨by decide, _, _, _, _, finds_five⟩
  have hagain := hforgets (.resynced (.ok .initial)) w' ethUsd .initial hresync hkept.inTable rfl
    hpublish (by rw [houtside]; exact hflight)
  refine ⟨w, w', row, p, hreach, hrow, hpending, hflight, hsafe [] w (.nil w) (.inl ?_), hresync,
    hagain.mpr ⟨trivial, ?_, rfl⟩⟩
  · exact fun x hx => absurd hx List.not_mem_nil
  · rw [houtside]
    exact hlatest

end PriceOracle
