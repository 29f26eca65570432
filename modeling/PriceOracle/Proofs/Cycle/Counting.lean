import PriceOracle.Proofs.Cycle.Footprint
import PriceOracle.Proofs.Cycle.Outline

/-!
# What a cycle counts

A cycle is counted when it gets past what an earlier one left. `Cycle.tracked` is a cycle that also
tells how far it got (`Extent`); without that it is the cycle (`Cycle.run_eq_tracked`).

`Cycle.keeps_tracked` is the pass through a cycle that finds some number of cycles counted: what it
may ask for, how it may end, and how many cycles are counted then. Failures of every kind leave the
count where it was, and only a round that is written down sets it back.
-/

namespace PriceOracle

open Program (Carries Keeps Leads)
open Surroundings (Action Step)

/-! ## Schedules -/

namespace Schedule

/-- An oracle whose threshold is positive is due when it is reached, and waits for the rest. -/
theorem decide_of_pos {threshold : UInt64} {b : Bookkeeping} (hpos : 0 < threshold)
    (h : b.halted = none) :
    threshold ≤ b.cycles ∧ decide threshold b = .due ∨
      b.cycles < threshold ∧ decide threshold b = .notDue (threshold - b.cycles) := by
  rw [decide_of_running h]
  by_cases hreached : threshold ≤ b.cycles
  · refine .inl ⟨hreached, if_pos ?_⟩
    simp [isDue, hpos, hreached]
  · have hshort : b.cycles < threshold := UInt64.not_le.mp hreached
    refine .inr ⟨hshort, ?_⟩
    rw [if_neg (by simp [isDue, hshort]), remaining, if_pos hshort]

end Schedule

namespace Cycle

/-! ## Cycles that tell how far they got -/

/-- How far a cycle gets. -/
inductive Extent where
  /-- It ends before it is counted. -/
  | early
  /-- It is counted, and goes no further. -/
  | counted
  /-- It is counted, and goes on to read its source. -/
  | fetched
  deriving DecidableEq

/-- How a cycle ends, and how far it got. -/
abbrev Tracked := Except RegistryError Outcome × Extent

/-- Counts the cycle, and goes on where the oracle is due. -/
def trackObserve (policy : Policy) (id : OracleId) (c : OracleConfig) (deadline : Duration) :
    Action Tracked := do
  match ← (Surroundings.revise id fun b => { b with cycles := b.cycles + 1 }).run with
  | .error e => return (.error e, .early)
  | .ok b =>
    match Schedule.decide c.threshold b with
    | .due => return (← (fetch policy id c b deadline).run, .fetched)
    | .notDue remaining => return (.ok (.waiting remaining), .counted)
    | .halted => return (.ok (.halted (b.halted.getD "")), .counted)

/-- The cycle of an oracle whose lock is held. -/
def trackLocked (policy : Policy) (id : OracleId) (deadline : Duration) : Action Tracked := do
  match ← (Surroundings.row id).run with
  | .error e => return (.error e, .early)
  | .ok r =>
    match ← (settle id deadline r).run with
    | .error e => return (.error e, .early)
    | .ok (some outcome) => return (.ok outcome, .early)
    | .ok none => trackObserve policy id r.config deadline

/-- One cycle of an oracle, unless its lock is held. -/
def tracked (policy : Policy) (id : OracleId) (deadline : Duration) : Action Tracked :=
  framed id Prod.fst (trackLocked policy id deadline) (.ok .busy, .early)

/-- Without telling how far it got, the counting part of a cycle is as it was. -/
theorem observe_eq_track (policy : Policy) (id : OracleId) (c : OracleConfig)
    (deadline : Duration) :
    (observe policy id c deadline).run = Prod.fst <$> trackObserve policy id c deadline := by
  rw [observe, Attempt.run_bind, trackObserve, Program.bind_eq, Program.map_bind]
  refine congrArg (Program.bind _) (funext fun e => ?_)
  cases e with
  | error e => rfl
  | ok b =>
    dsimp only
    cases Schedule.decide c.threshold b with
    | due => simp
    | notDue _ => rfl
    | halted => rfl

theorem runLocked_eq_track (policy : Policy) (id : OracleId) (deadline : Duration) :
    (runLocked policy id deadline).run = Prod.fst <$> trackLocked policy id deadline := by
  rw [runLocked_eq, Attempt.run_bind, trackLocked, Program.bind_eq, Program.map_bind]
  refine congrArg (Program.bind _) (funext fun e => ?_)
  cases e with
  | error e => rfl
  | ok r =>
    dsimp only
    rw [afterRow, Attempt.run_bind, Program.bind_eq, Program.map_bind]
    refine congrArg (Program.bind _) (funext fun e => ?_)
    rcases e with _ | _ | _
    · rfl
    · exact observe_eq_track policy id r.config deadline
    · rfl

/-- A cycle is one that tells how far it got, without that. -/
theorem run_eq_tracked (policy : Policy) (id : OracleId) (deadline : Duration) :
    run policy id deadline = Prod.fst <$> tracked policy id deadline := by
  have hmap := map_framed Prod.fst id (fun e => e) (trackLocked policy id deadline)
    (.ok .busy, .early)
  rw [← runLocked_eq_track] at hmap
  exact hmap.symm

/-! ## Counts -/

/-- A cycle ends with waiting. -/
def Waits : Except RegistryError Outcome → Prop
  | .ok (.waiting _) => True
  | _ => False

/-- A read of a source, or a submission. -/
def Spends : Surroundings.Request → Prop
  | .source _ | .feed (.submit _ _) => True
  | _ => False

/-- The number of cycles that are counted after a cycle that found some. -/
def tally (n : Nat) (e : Tracked) : Nat :=
  if (published? e.1).isSome then 0 else if e.2 = .early then n else n + 1

/-- How a cycle ends that found some number of cycles counted. The next number says whether it
waits, and for how long. -/
def Sound (t : UInt64) (n : Nat) : Tracked → Prop
  | (e, .early) => ¬Waits e ∧ ((published? e).isSome → t ≤ .ofNat n)
  | (e, .counted) => .ofNat (n + 1) < t ∧ e = .ok (.waiting (t - .ofNat (n + 1)))
  | (e, .fetched) => t ≤ .ofNat (n + 1) ∧ ¬Waits e

variable {φ : Type} {N : Nature φ} {id : OracleId} {c : OracleConfig} {w : World φ}
  {policy : Policy} {deadline : Duration} {t : UInt64} {n m : Nat}

/-- Sources are read, and values submitted, by none but a cycle that is due. -/
abbrev Sparing (t : UInt64) (n : Nat) : Surroundings.Request → World φ → Prop :=
  fun r _ => Spends r → t ≤ .ofNat (n + 1)

/-- The bookkeeping counts cycles, and nothing is pending before they are enough. -/
def Counts (t : UInt64) (n : Nat) : Assertion φ :=
  fun b _ => b.cycles = .ofNat n ∧ (b.pending.isSome → t ≤ .ofNat n)

/-- How a cycle ends that does not wait, with the number of cycles that are counted then. -/
def Closes (id : OracleId) (c : OracleConfig) (t : UInt64) (n : Nat)
    (e : Except RegistryError Outcome) (w : World φ) : Prop :=
  ¬Waits e ∧ Holds id c (Counts t (if (published? e).isSome then 0 else n)) w

theorem stable_counts : N.Stable (Counts t n) := fun _ _ _ _ h => h

/-! ## Ends of a cycle -/

/-- Requests that neither spend nor touch the bookkeeping are not a matter of counts. -/
theorem carries_sparing {P : Assertion φ} {r : Surroundings.Request} (hquiet : r.quiet)
    (hfree : ¬Spends r) (hstable : N.Stable P) :
    Carries (N.around id) (Sparing t n) (Holds id c P) r :=
  carries_quiet hquiet (fun _ _ hspends => absurd hspends hfree) hstable.holds

/-- Such a request in front of the rest of a cycle. -/
theorem keeps_sparing_bind {P : Assertion φ} {β : Type} {r : Surroundings.Request}
    {f : r.Reply → Step β} {post : Except RegistryError β → World φ → Prop} (hquiet : r.quiet)
    (hfree : ¬Spends r) (hstable : N.Stable P) (hP : Holds id c P w)
    (hf : ∀ reply w', Holds id c P w' → Keeps (N.around id) (Sparing t n) post (f reply).run w') :
    Keeps (N.around id) (Sparing t n) post
      ((liftM (Surroundings.ask r) : Step r.Reply) >>= f).run w :=
  Attempt.keeps_carries (carries_sparing hquiet hfree hstable) hP hf

/-- A failure is written down with the time, and told. It is not a matter of counts. -/
theorem keeps_failure {change : UInt64 → Bookkeeping → Bookkeeping} {e : Bookkeeping → Event}
    {f : Bookkeeping → Step Outcome}
    (hchange : ∀ now b, (change now b).cycles = b.cycles ∧ (change now b).pending = b.pending)
    (hP : Holds id c (Counts t m) w)
    (hf : ∀ b w', Holds id c (Counts t m) w' →
      Keeps (N.around id) (Sparing t n) (Closes id c t m) (f b).run w') :
    Keeps (N.around id) (Sparing t n) (Closes id c t m)
      ((liftM Surroundings.unixTime : Step UInt64) >>= fun now =>
        Surroundings.revise id (change now) >>= fun b =>
          (liftM (Surroundings.emit (e b)) : Step Unit) >>= fun _ => f b).run w := by
  refine keeps_stamped (K := fun _ _ => Holds id c (Counts t m))
    (L := fun _ _ => Holds id c (Counts t m))
    (carries_sparing (r := .unixTime) trivial not_false stable_counts) (fun now w' hP => ?_)
    (fun _ _ _ => (carries_sparing (r := .emit _) trivial not_false stable_counts).keeps)
    (fun _ b w' => hf b w') hP
  refine keeps_revise (Q := fun _ => Counts t m) (R := Counts t m) False.elim
    (fun _ => stable_counts) stable_counts hP (fun b b' s hcounts hb' => ?_)
    (fun b s hcounts _ => hcounts) (fun _ _ hP => hP) fun e w' hP => ⟨not_false, hP⟩
  rcases hb' with rfl | ⟨rfl, -⟩
  · obtain ⟨hcycles, hpending⟩ := hchange now b
    rw [Counts, hcycles, hpending]
    exact hcounts
  · exact hcounts

/-- A round that is written down sets the count back. -/
theorem keeps_record (hP : Holds id c (Counts t m) w) (r : RoundRecord) :
    Keeps (N.around id) (Sparing t n) (Closes id c t m) (record id r).run w := by
  refine keeps_sparing_bind (r := .enter id .recorded) trivial not_false stable_counts hP
    fun _ w' hP => ?_
  refine keeps_sparing_bind (r := .unixTime) trivial not_false stable_counts hP
    fun now w' hP => ?_
  refine Attempt.keeps_bind.mpr (keeps_revise (Q := fun _ => Counts t 0) (R := Counts t m)
    False.elim (fun _ => stable_counts) stable_counts hP (fun b b' s _ hb' => ?_)
    (fun b s hcounts _ => hcounts) (fun b w' hP => ?_) fun e w' hP => ⟨not_false, hP⟩)
  · have hsame : (afterRound now r b).Same b' := by
      rcases hb' with rfl | ⟨rfl, hsame⟩
      · exact ⟨rfl, rfl, rfl, rfl, rfl, rfl⟩
      · exact Bookkeeping.same_of_beq hsame
    refine ⟨hsame.cycles.symm, ?_⟩
    rw [← hsame.pending]
    nofun
  · exact keeps_sparing_bind (r := .emit _) trivial not_false stable_counts hP
      fun _ w' hP => ⟨not_false, hP⟩

/-- A failure that publishes nothing leaves the count where it was. -/
theorem keeps_fail (hP : Holds id c (Counts t m) w) (event : Bookkeeping → Event)
    {outcome : Outcome} (hwaits : ¬Waits (.ok outcome))
    (hnone : published? (.ok outcome) = none) :
    Keeps (N.around id) (Sparing t n) (Closes id c t m) (fail id event outcome).run w := by
  refine keeps_failure (fun _ _ => ⟨rfl, rfl⟩) hP fun _ w' hP => ⟨hwaits, ?_⟩
  rw [hnone]
  exact hP

theorem keeps_failPublish (hP : Holds id c (Counts t m) w) (round : RoundId) (e : PublishError) :
    Keeps (N.around id) (Sparing t n) (Closes id c t m) (failPublish id round e).run w := by
  rw [failPublish]
  show Keeps _ _ _ (ExceptT.run (if _ then _ else _)) w
  split
  · exact ⟨not_false, hP⟩
  · refine keeps_failure (fun _ _ => ⟨rfl, rfl⟩) hP fun _ w' hP => ?_
    cases e.isRetryable with
    | true => exact ⟨not_false, hP⟩
    | false =>
      exact keeps_sparing_bind (r := .emit _) trivial not_false stable_counts hP
        fun _ _ hP => ⟨not_false, hP⟩

/-! ## Requests that leave a property of the bookkeeping alone -/

/-- What changes keep of the bookkeeping is kept by requests that make no others. -/
theorem keeps_touching {α : Type} {allow : Surroundings.Request → World φ → Prop}
    {changes : (Bookkeeping → Bookkeeping) → Prop} {P : Bookkeeping → Prop} {p : Action α}
    (h : p.Makes (Touches id c changes)) (hallow : ∀ r w, allow r w)
    (hchanges : ∀ change b, changes change → P b → P (change b))
    (hP : Holds id c (fun b _ => P b) w) :
    Keeps (N.around id) allow (fun _ w' => Holds id c (fun b _ => P b) w') p w := by
  have hstable : N.Stable fun b _ => P b := fun _ _ _ _ h => h
  refine h.keeps (fun r w _ _ => hallow r w) (fun r w reply w' hr hP hreply => ?_) hP
  cases r with
  | registry r =>
    cases r with
    | row other =>
      obtain rfl := hr
      have hrow : Keeps (N.around other) allow (fun _ w' => Holds other c (fun b _ => P b) w')
          (Surroundings.row other).run w :=
        keeps_row (hallow _ w) hstable hP fun b w' h => h.mono fun _ _ h => h.2
      exact hrow.2 reply w' hreply
    | revise other change =>
      obtain ⟨rfl, hchange⟩ := hr
      have hrevise : Keeps (N.around other) allow (fun _ w' => Holds other c (fun b _ => P b) w')
          (Surroundings.revise other change).run w := by
        refine keeps_revise (Q := fun _ b _ => P b) (R := fun b _ => P b) (hallow _ w)
          (fun _ => hstable) hstable hP (fun b b' _ hb hb' => ?_) (fun _ _ hb _ => hb)
          (fun _ _ h => h) fun _ _ h => h
        rcases hb' with rfl | ⟨rfl, -⟩
        · exact hchanges change b hchange hb
        · exact hb
      exact hrevise.2 reply w' hreply
    -- A cycle asks the registry nothing else.
    | _ => exact hr.elim
  | feed _ =>
    obtain ⟨w₁, ⟨-, htable, hstorage⟩, hstirs⟩ := hreply
    obtain ⟨b, hkept, hb⟩ := hP
    refine hstable.holds _ _ hstirs ⟨b, ?_, hb⟩
    rw [htable, hstorage]
    exact hkept
  | slot _ | tryTake _ | take _ | release _ | forget _ => exact hr.elim
  | _ =>
    obtain ⟨w₁, hanswer, hstirs⟩ := hreply
    obtain rfl : w₁ = w := hanswer
    exact hstable.holds _ _ hstirs hP

/-! ## The cycle -/

/-- Publishing as a round takes attempts that only change what is pending. -/
theorem keeps_publishAs (hP : Holds id c (Counts t m) w) (hspend : t ≤ .ofNat (n + 1))
    (hpend : t ≤ .ofNat m) (value : Decimal) (round : RoundId) :
    Keeps (N.around id) (Sparing t n) (Closes id c t m)
      (publishAs policy id c value round deadline).run w := by
  -- Enough cycles are counted for something to be pending.
  have hchanges : ∀ change (b : Bookkeeping), Pends change →
      (b.cycles = .ofNat m ∧ (b.pending.isSome → t ≤ .ofNat m)) →
      (change b).cycles = .ofNat m ∧ ((change b).pending.isSome → t ≤ .ofNat m) := by
    rintro _ b ⟨p, rfl⟩ ⟨hcycles, -⟩
    exact ⟨hcycles, fun _ => hpend⟩
  rw [publishAs]
  refine Attempt.keeps_bind.mpr ((keeps_touching (touches_publishWithRetry hP.named _ _)
    (fun _ _ _ => hspend) hchanges hP).mono fun e w' hP => ?_)
  rcases e with e | e | r
  · exact ⟨not_false, hP⟩
  · exact keeps_failPublish hP round e
  · exact keeps_record hP r

/-- Where there is no next round, nothing more is counted either. -/
theorem keeps_publish (hP : Holds id c (Counts t m) w) (hspend : t ≤ .ofNat (n + 1))
    (hpend : t ≤ .ofNat m) (b : Bookkeeping) (value : Decimal) :
    Keeps (N.around id) (Sparing t n) (Closes id c t m)
      (publish policy id c b value deadline).run w := by
  rw [publish]
  refine keeps_sparing_bind (r := .enter id .publishing) trivial not_false stable_counts hP
    fun _ w' hP => ?_
  cases b.nextRound with
  | none => exact ⟨not_false, hP⟩
  | some round => exact keeps_publishAs hP hspend hpend value round

/-- A cycle that is due ends without waiting. -/
theorem keeps_fetch (hP : Holds id c (Counts t (n + 1)) w) (hdue : t ≤ .ofNat (n + 1))
    (b : Bookkeeping) :
    Keeps (N.around id) (Sparing t n) (Closes id c t (n + 1))
      (fetch policy id c b deadline).run w := by
  refine keeps_isLate (carries_sparing trivial not_false stable_counts) hP fun late w' hP => ?_
  cases late with
  | true => exact ⟨not_false, hP⟩
  | false =>
    refine keeps_sparing_bind (r := .enter id .fetching) trivial not_false stable_counts hP
      fun _ w' hP => ?_
    refine Attempt.keeps_lift_bind.mpr
      (keeps_source (fun _ _ _ => hdue) stable_counts.holds hP fun e w' hP => ?_)
    cases e with
    | error e => exact keeps_fail hP _ not_false rfl
    | ok value =>
      refine keeps_sparing_bind (r := .enter id .validating) trivial not_false stable_counts hP
        fun _ w' hP => ?_
      cases policy.validation.fault? value with
      | some reason => exact keeps_fail hP _ not_false rfl
      | none =>
        refine keeps_isLate (carries_sparing trivial not_false stable_counts) hP
          fun late w' hP => ?_
        cases late with
        | true => exact ⟨not_false, hP⟩
        | false => exact keeps_publish hP hdue hdue b value

/-- What holds of an oracle that has nothing to settle. -/
def Clear (n : Nat) : Assertion φ :=
  fun b _ => b.cycles = .ofNat n ∧ b.pending = none ∧ b.halted = none

theorem stable_clear : N.Stable (Clear n) := fun _ _ _ _ h => h

theorem counts_of_clear {b : Bookkeeping} {s : φ} (h : Clear n b s) : Counts t n b s :=
  ⟨h.1, fun hpending => by rw [h.2.1] at hpending; cases hpending⟩

/-- How a cycle ends that found some number of cycles counted, and how many are counted then. -/
def Tracks (id : OracleId) (c : OracleConfig) (t : UInt64) (n : Nat) (e : Tracked) (w : World φ) :
    Prop :=
  Sound t n e ∧ Holds id c (Counts t (tally n e)) w

theorem tracks_fetched {e : Except RegistryError Outcome} (hdue : t ≤ .ofNat (n + 1))
    (h : Closes id c t (n + 1) e w) : Tracks id c t n (e, .fetched) w := ⟨⟨hdue, h.1⟩, h.2⟩

theorem tracks_early {e : Except RegistryError Outcome}
    (hpublished : (published? e).isSome → t ≤ .ofNat n)
    (h : Closes id c t n e w) : Tracks id c t n (e, .early) w := ⟨⟨h.1, hpublished⟩, h.2⟩

theorem tracks_unpublished {e : Except RegistryError Outcome} (hnone : published? e = none)
    (h : Closes id c t n e w) : Tracks id c t n (e, .early) w :=
  tracks_early (by rw [hnone]; exact fun hsome => Bool.noConfusion hsome) h

/-- A cycle with nothing left to settle is counted. It waits until the threshold is reached. -/
theorem keeps_trackObserve (hpos : 0 < c.threshold) (hP : Holds id c (Clear n) w) :
    Keeps (N.around id) (Sparing c.threshold n) (Tracks id c c.threshold n)
      (trackObserve policy id c deadline) w := by
  refine Program.keeps_bind.mpr (keeps_revise_exact (Q := Clear (n + 1))
    (R := Counts c.threshold n) False.elim stable_clear stable_counts hP
    (fun b _ _ hsame => ?_) (fun b s hclear => ?_) (fun _ _ hclear _ => counts_of_clear hclear)
    (fun b w' hP => ?_) fun e w' hP => tracks_unpublished rfl ⟨not_false, hP⟩)
  · exact absurd (Bookkeeping.same_of_beq hsame).cycles (UInt64.add_one_ne _)
  · obtain ⟨hcycles, hpending, hrunning⟩ := hclear
    refine ⟨?_, hpending, hrunning⟩
    show b.cycles + 1 = _
    rw [hcycles, UInt64.ofNat_add]
    rfl
  · have hcounts : Holds id c (Counts c.threshold (n + 1)) w' :=
      hP.mono fun _ _ h => counts_of_clear h.2
    obtain ⟨_, _, rfl, hcycles, -, hrunning⟩ := hP
    have hdecide := Schedule.decide_of_pos hpos hrunning
    rw [hcycles] at hdecide
    rcases hdecide with ⟨hdue, hdecide⟩ | ⟨hshort, hdecide⟩
    · simp only [hdecide]
      exact Program.keeps_bind.mpr
        ((keeps_fetch hcounts hdue _).mono fun e w' h => tracks_fetched hdue h)
    · simp only [hdecide]
      exact ⟨⟨hshort, rfl⟩, hcounts⟩

/-- Forgetting what is pending does not change the count. -/
theorem keeps_dropPending
    (hP : Holds id c (fun b s => Counts t n b s ∧ b.halted = none) w) :
    Keeps (N.around id) (Sparing t m) (Attempt.Ends (fun _ w' => Holds id c (Clear n) w')
      fun _ w' => Holds id c (Counts t n) w') (dropPending id).run w := by
  rw [dropPending]
  refine Attempt.keeps_bind.mpr (keeps_revise_exact (Q := Clear n) (R := Counts t n) False.elim
    stable_clear stable_counts hP (fun b s _ hsame => ?_) (fun b s h => ?_) (fun _ _ h _ => h.1)
    (fun b w' hP => hP.mono fun _ _ h => h.2) fun _ _ hP => hP)
  · -- Nothing was pending where nothing changes.
    have hpending := (Bookkeeping.same_of_beq hsame).pending.symm
    rw [Option.isSome_none, Option.isSome_eq_false_iff, Option.isNone_iff_eq_none] at hpending
    rw [← hpending]
  · exact ⟨h.1.1, rfl, h.2⟩

/-- What comes of settling what an earlier cycle left. -/
def Settles (id : OracleId) (c : OracleConfig) (t : UInt64) (n : Nat) :
    Except RegistryError (Option Outcome) → World φ → Prop
  | .ok none, w => Holds id c (Clear n) w
  | .ok (some outcome), w => Tracks id c t n (.ok outcome, .early) w
  | .error e, w => Tracks id c t n (.error e, .early) w

/-- Where it comes to an end of the cycle. -/
theorem keeps_settled {x : Step Outcome} (hpending : t ≤ .ofNat n)
    (h : Keeps (N.around id) (Sparing t n) (Closes id c t n) x.run w) :
    Keeps (N.around id) (Sparing t n) (Settles id c t n)
      (x >>= fun outcome => (pure (some outcome) : Step (Option Outcome))).run w := by
  refine Attempt.keeps_bind.mpr (h.mono fun e w' hcloses => ?_)
  cases e with
  | error e => exact tracks_unpublished rfl hcloses
  | ok outcome => exact tracks_early (fun _ => hpending) hcloses

/-- What an earlier cycle left is settled without counting. A submission that is confirmed late was
sent when enough cycles were counted. -/
theorem keeps_settle {b : Bookkeeping}
    (hP : Holds id c (fun b' s => b' = b ∧ Counts t n b' s) w) :
    Keeps (N.around id) (Sparing t n) (Settles id c t n) (settle id deadline ⟨c, b⟩).run w := by
  have hcounts : Holds id c (Counts t n) w := hP.mono fun _ _ h => h.2
  rw [settle]
  dsimp only
  cases hhalted : b.halted with
  | some _ => exact tracks_unpublished rfl ⟨not_false, hcounts⟩
  | none =>
    have hrunning : Holds id c (fun b s => Counts t n b s ∧ b.halted = none) w := by
      refine hP.mono ?_
      rintro _ _ ⟨rfl, hcounts⟩
      exact ⟨hcounts, hhalted⟩
    have hstable : N.Stable fun b s => Counts t n b s ∧ b.halted = none := fun _ _ _ _ h => h
    cases hpending : b.pending with
    | none =>
      refine hP.mono ?_
      rintro _ _ ⟨rfl, hcycles, -⟩
      exact ⟨hcycles, hpending, hhalted⟩
    | some p =>
      -- Something is pending, and below the threshold nothing is ever sent.
      have henough : t ≤ .ofNat n := by
        obtain ⟨_, _, rfl, -, henough⟩ := hP
        exact henough (by rw [hpending]; rfl)
      refine keeps_isLate (carries_sparing trivial not_false hstable) hrunning fun late w' hP => ?_
      cases late with
      | true => exact tracks_unpublished rfl ⟨not_false, hP.mono fun _ _ h => h.1⟩
      | false =>
        refine keeps_sparing_bind (r := .enter id .publishing) trivial not_false hstable hP
          fun _ w' hP => ?_
        refine Attempt.keeps_lift_bind.mpr (keeps_feed
          (Q := fun _ b s => Counts t n b s ∧ b.halted = none) (fun r w hreads hspends => ?_) hP
          (fun b s h => (Publication.keeps_resolve .any fun _ _ => trivial).mono fun _ _ _ => h)
          fun e w' hP => ?_)
        · cases r with
          | submit _ _ => exact hreads.elim
          | _ => exact hspends.elim
        have hcounts := hP.mono fun _ _ h => h.1
        rcases e with e | _ | r
        · exact keeps_settled henough (keeps_failPublish hcounts p.round e)
        · refine Attempt.keeps_bind.mpr ((keeps_dropPending hP).mono fun e w' h => ?_)
          cases e with
          | error e => exact tracks_unpublished rfl ⟨not_false, h⟩
          | ok _ => exact h
        · exact keeps_settled henough (keeps_record hcounts r)

/-- The cycle of an oracle whose lock is held. -/
theorem keeps_trackLocked (hpos : 0 < c.threshold) (hP : Holds id c (Counts c.threshold n) w) :
    Keeps (N.around id) (Sparing c.threshold n) (Tracks id c c.threshold n)
      (trackLocked policy id deadline) w := by
  refine Program.keeps_bind.mpr (keeps_row False.elim stable_counts hP fun b w' hP => ?_)
  refine Program.keeps_bind.mpr ((keeps_settle hP).mono fun e w' h => ?_)
  rcases e with e | _ | outcome
  · exact h
  · exact keeps_trackObserve hpos h
  · exact h

end Cycle

end PriceOracle
