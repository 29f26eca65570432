import PriceOracle.Proofs.Cycle.Counting

/-!
# What a cycle leaves of the bookkeeping

The outcome is all that an operator gets to see of a cycle. As long as storage does not fail, it
tells the whole effect on the bookkeeping of the oracle, wherever the cycle ended and however often
it tried. `Cycle.Accounts` has the effect for each outcome, and for how far the cycle got.

* `Cycle.Closed`: the same for the part of a cycle that begins once nothing is left to settle.
  Attempts to publish change nothing but what is pending (`Cycle.Tries`), so that only the end
  decides.
* `Cycle.keeps_tracked`: every end of a cycle is accounted for.
-/

namespace PriceOracle

open PriceOracle.Cycle (Extent Policy Tracked)
open Program (Carries Keeps)
open Surroundings (Step)

/-- The same surroundings, in which storage does not fail. -/
def Nature.reliable {φ : Type} (N : Nature φ) : Nature φ := { N with mayFail := fun _ _ => False }

namespace Outcome

/-- The failures in a row after a cycle. -/
def failures : Outcome → UInt32 → UInt32
  | published _, _ => 0
  | fetchFailed _, n | rejected _, n | publishFailed _ _ _, n => n + 1
  | _, n => n

/-- The cycles since the last round, with this one. -/
def cycles : Outcome → UInt64 → UInt64
  | published _, _ => 0
  | _, n => n

/-- The reason for which a cycle halts its oracle. -/
def halt? : Outcome → Option String
  | publishFailed _ reason false => some reason
  | _ => none

/-- A publication failed, or broke off. -/
def IsPublishFailed : Outcome → Prop
  | publishFailed _ _ _ | overflowed => True
  | _ => False

/-- A publication comes to its end, or breaks off. -/
def IsPublication : Outcome → Prop
  | published _ | publishFailed _ _ _ | overflowed => True
  | _ => False

/-- An outcome halts an oracle exactly if a publication failed for good. -/
theorem halt_eq_some {o : Outcome} {reason : String} :
    o.halt? = some reason ↔ ∃ round, o = .publishFailed round reason false := by
  constructor
  · intro h
    match o, h with
    | publishFailed round _ false, rfl => exact ⟨round, rfl⟩
  · rintro ⟨round, rfl⟩
    rfl

end Outcome

namespace Cycle

/-! ## Effects -/

/-- What a cycle leaves, by its outcome and by how far it got. -/
structure Accounts (b : Bookkeeping) (o : Outcome) (x : Extent) (b' : Bookkeeping) : Prop where
  notBusy : o ≠ .busy
  failures : b'.failures = o.failures b.failures
  cycles : b'.cycles = o.cycles (if x = .early then b.cycles else b.cycles + 1)
  halts : ∀ reason, b.halted = none ∧ b'.halted = some reason ↔
    ∃ round, o = .publishFailed round reason false
  /-- Nothing else changes whether the oracle is halted. -/
  halted : o.halt? = none → b'.halted = b.halted
  pending : b'.pending.isSome → o.IsPublishFailed ∨ (∃ reason, o = .halted reason) ∨
    o = .deadlineExceeded ∧ x = .early
  /-- A halted oracle stays as it is. -/
  stays : ∀ reason, o = .halted reason → x = .early ∧ b.halted = some reason ∧ b' = b
  /-- A submission that was not looked at stays as it is. -/
  unresolved : o = .deadlineExceeded → x = .early → b' = b
  /-- Only a halt or a submission of an earlier cycle keeps a cycle from being counted. -/
  early : x = .early → (∃ reason, o = .halted reason) ∨
    b.pending.isSome ∧ (o = .deadlineExceeded ∨ o.IsPublication)

/-- The bookkeeping of an oracle that runs, with some failures and cycles. -/
structure Runs (f : UInt32) (n : UInt64) (b : Bookkeeping) : Prop where
  halted : b.halted = none
  failures : b.failures = f
  cycles : b.cycles = n

/-- Nothing is pending, too. -/
structure Idle (f : UInt32) (n : UInt64) (b : Bookkeeping) : Prop extends Runs f n b where
  pending : b.pending = none

/-- What is left at the end of a cycle that finds some failures and cycles. -/
structure Closed (f : UInt32) (n : UInt64) (o : Outcome) (b : Bookkeeping) : Prop where
  notBusy : o ≠ .busy
  notHalted : ∀ reason, o ≠ .halted reason
  failures : b.failures = o.failures f
  cycles : b.cycles = o.cycles n
  halted : b.halted = o.halt?
  pending : b.pending.isSome → o.IsPublishFailed

/-- What is left by a publication. -/
structure Concluded (f : UInt32) (n : UInt64) (o : Outcome) (b : Bookkeeping) : Prop
    extends Closed f n o b where
  publication : o.IsPublication

variable {f : UInt32} {n : UInt64} {b b' : Bookkeeping} {o : Outcome} {x : Extent}

/-- What the end of a cycle left is accounted for by where the cycle began. -/
theorem Closed.accounts (h : Closed b.failures n o b') (hrunning : b.halted = none)
    (hn : n = if x = .early then b.cycles else b.cycles + 1)
    (hearly : x = .early → b.pending.isSome ∧ o.IsPublication) : Accounts b o x b' where
  notBusy := h.notBusy
  failures := h.failures
  cycles := hn ▸ h.cycles
  halts := fun reason => by
    rw [h.halted, Outcome.halt_eq_some]
    exact and_iff_right hrunning
  halted := fun hnone => by rw [h.halted, hnone, hrunning]
  pending := fun hpending => .inl (h.pending hpending)
  stays := fun reason ho => absurd ho (h.notHalted reason)
  unresolved := fun ho hx => by
    subst ho
    exact (hearly hx).2.elim
  early := fun hx => .inr ⟨(hearly hx).1, .inr (hearly hx).2⟩

/-- An oracle that was halted. -/
theorem accounts_halted {reason : String} (h : b.halted = some reason) :
    Accounts b (.halted reason) .early b where
  notBusy := nofun
  failures := rfl
  cycles := rfl
  halts := fun _ => by
    refine ⟨fun hnone => ?_, fun hfailed => nomatch hfailed⟩
    rw [h] at hnone
    cases hnone.1
  halted := fun _ => rfl
  pending := fun _ => .inr (.inl ⟨reason, rfl⟩)
  stays := fun _ ho => by
    obtain rfl := Outcome.halted.inj ho
    exact ⟨rfl, h, rfl⟩
  unresolved := nofun
  early := fun _ => .inl ⟨reason, rfl⟩

/-- A submission for which there was no time. -/
theorem accounts_unresolved (hpending : b.pending.isSome) :
    Accounts b .deadlineExceeded .early b where
  notBusy := nofun
  failures := rfl
  cycles := rfl
  halts := fun _ => by
    refine ⟨?_, fun hfailed => nomatch hfailed⟩
    rintro ⟨hnone, hsome⟩
    rw [hnone] at hsome
    cases hsome
  halted := fun _ => rfl
  pending := fun _ => .inr (.inr ⟨rfl, rfl⟩)
  stays := nofun
  unresolved := fun _ _ => rfl
  early := fun _ => .inr ⟨hpending, .inl rfl⟩

/-! ## Parts of a cycle -/

variable {φ α β : Type} {N : Nature φ} {id : OracleId} {c : OracleConfig} {w : World φ}
  {policy : Policy} {deadline : Duration} {P Q : Bookkeeping → Prop}

/-- Nothing is asked of the requests. -/
abbrev anyAsk : Surroundings.Request → World φ → Prop := fun _ _ => True

/-- A property of the bookkeeping alone. -/
abbrev Has (id : OracleId) (c : OracleConfig) (P : Bookkeeping → Prop) : World φ → Prop :=
  Holds id c fun b _ => P b

/-- A part of a cycle is not refused, and what it comes to fits the bookkeeping. -/
def Leaves (id : OracleId) (c : OracleConfig) (R : α → Bookkeeping → Prop) :
    Except RegistryError α → World φ → Prop
  | .ok a, w => Has id c (R a) w
  | .error _, _ => False

/-- What is left may be said more loosely. -/
theorem leaves_mono {R R' : α → Bookkeeping → Prop} {e : Except RegistryError α}
    (h : Leaves id c R e w) (hR : ∀ a b, R a b → R' a b) : Leaves id c R' e w := by
  cases e with
  | ok a =>
    have hleft : Has id c (R a) w := h
    exact hleft.mono fun b _ => hR a b
  | error e => exact h

theorem stable_has : N.Stable fun b _ => P b := fun _ _ _ _ h => h

/-- A part that comes before the end of a cycle. -/
theorem keeps_part {B : Step α} {g : α → Step β} {R : α → Bookkeeping → Prop}
    {post : Except RegistryError β → World φ → Prop}
    (h : Keeps (N.around id) anyAsk (Leaves id c R) B.run w)
    (hg : ∀ a w', Has id c (R a) w' → Keeps (N.around id) anyAsk post (g a).run w') :
    Keeps (N.around id) anyAsk post (B >>= g).run w := by
  refine Attempt.keeps_bind.mpr (h.mono fun e w' he => ?_)
  cases e with
  | ok a => exact hg a w' he
  | error e => exact he.elim

/-- A request that has nothing to do with the bookkeeping. -/
theorem carries_has {r : Surroundings.Request} (hquiet : r.quiet) :
    Carries (N.around id) anyAsk (Has id c P) r :=
  carries_quiet hquiet (fun _ _ => trivial) stable_has.holds

/-- Whatever a feed answers. -/
theorem keeps_fed {use : Feed.Use α} (hP : Has id c P w) :
    Keeps (N.around id) anyAsk (fun _ => Has id c P) (Surroundings.feed use) w := by
  have huse : ∀ b s, P b →
      Keeps N.onFeed (fun _ _ => True) (fun _ _ => P b) use.run s :=
    fun _ s hb => Program.keeps_of_forall (fun _ _ => hb) (fun _ _ => trivial) _ s
  exact keeps_feed (Q := fun _ b _ => P b) (fun _ _ _ => trivial) hP huse fun _ _ hP => hP

/-- A change of the bookkeeping is written, unless it counts as none. -/
theorem keeps_revised {change : Bookkeeping → Bookkeeping}
    {post : Except RegistryError Bookkeeping → World φ → Prop} (hP : Has id c P w)
    (hdone : ∀ b, P b → Q (change b))
    (hsame : ∀ b, P b → (change b == b) = true → Q b)
    (hpost : ∀ b w', P b → Has id c Q w' → post (.ok (change b)) w') :
    Keeps (N.reliable.around id) anyAsk post (Surroundings.revise id change).run w := by
  refine keeps_revise (Q := fun b b' _ => P b ∧ Q b') (R := fun _ _ => False) trivial
    (fun _ _ _ _ _ h => h) (fun _ _ _ _ h => h) hP (fun b b' _ hb hb' => ?_)
    (fun _ _ _ hlose => ?_) (fun b w' h => ?_) fun _ _ h => ?_
  · rcases hb' with rfl | ⟨rfl, hequal⟩
    · exact ⟨hb, hdone b hb⟩
    · exact ⟨hb, hsame _ hb hequal⟩
  · obtain ⟨_, -, hfails⟩ := hlose
    exact hfails
  · obtain ⟨b', hkept, hb, hb'⟩ := h
    exact hpost b w' hb ⟨b', hkept, hb'⟩
  · obtain ⟨_, -, hfalse⟩ := h
    exact hfalse.elim

/-! ## Ends of a cycle -/

/-- What an end of a cycle makes of the bookkeeping is left to what follows. -/
theorem keeps_closing {change : UInt64 → Bookkeeping → Bookkeeping} {e : Bookkeeping → Event}
    {g : Bookkeeping → Step β} {R : β → Bookkeeping → Prop} (hP : Has id c P w)
    (hdone : ∀ now b, P b → Q (change now b))
    (hsame : ∀ now b, P b → (change now b == b) = true → Q b)
    (hg : ∀ b w', Has id c Q w' →
      Keeps (N.reliable.around id) anyAsk (Leaves id c R) (g b).run w') :
    Keeps (N.reliable.around id) anyAsk (Leaves id c R)
      ((liftM Surroundings.unixTime : Step UInt64) >>= fun now =>
        Surroundings.revise id (change now) >>= fun b =>
          (liftM (Surroundings.emit (e b)) : Step Unit) >>= fun _ => g b).run w :=
  keeps_stamped (K := fun _ _ => Has id c Q) (L := fun _ _ => Has id c Q)
    (carries_has (r := .unixTime) trivial)
    (fun now _ hP => keeps_revised hP (hdone now) (hsame now) fun _ _ _ hQ => hQ)
    (fun _ _ _ => (carries_has (r := .emit _) trivial).keeps) (fun _ => hg) hP

/-- A round that is written down is the last one, and all counters start over. -/
theorem concluded_record (h : Runs f n b) (now : UInt64) (r : RoundRecord) :
    Concluded f n (.published r) (afterRound now r b) :=
  ⟨⟨nofun, nofun, rfl, rfl, h.halted, nofun⟩, trivial⟩

/-- A round that was written down in the same words before leaves the same. -/
theorem concluded_record_same {now : UInt64} {r : RoundRecord} (h : Runs f n b)
    (hsame : (afterRound now r b == b) = true) : Concluded f n (.published r) b := by
  have hequal := Bookkeeping.same_of_beq hsame
  refine ⟨⟨nofun, nofun, hequal.failures.symm, hequal.cycles.symm, h.halted, ?_⟩, trivial⟩
  rw [← hequal.pending]
  nofun

/-- Writing a round down concludes a cycle. -/
theorem keeps_record_concluded (hP : Has id c (Runs f n) w) (r : RoundRecord) :
    Keeps (N.reliable.around id) anyAsk (Leaves id c (Concluded f n)) (record id r).run w := by
  refine Attempt.keeps_carries (carries_has (r := .enter id .recorded) trivial) hP fun _ w' hP => ?_
  exact keeps_closing hP (fun now _ h => concluded_record h now r)
    (fun _ _ h => concluded_record_same h) fun _ _ hconcluded => hconcluded

/-- A failure without a publication, by its reason. -/
theorem closed_failure (h : Idle f n b) (now : UInt64) (ho : o.failures f = f + 1)
    (hcycles : o.cycles n = n) (hhalt : o.halt? = none) (hbusy : o ≠ .busy)
    (hhalted : ∀ reason, o ≠ .halted reason) : Closed f n o (afterFailure now b) where
  notBusy := hbusy
  notHalted := hhalted
  failures := by rw [ho, afterFailure, h.failures]
  cycles := by rw [hcycles, afterFailure, h.cycles]
  halted := by rw [hhalt, afterFailure, h.halted]
  pending := fun hsome => by
    rw [afterFailure, h.pending] at hsome
    cases hsome

/-- A failure that publishes nothing is counted, and leaves nothing pending. -/
theorem keeps_fail_closed (hP : Has id c (Idle f n) w) (event : Bookkeeping → Event)
    (ho : o.failures f = f + 1) (hcycles : o.cycles n = n) (hhalt : o.halt? = none)
    (hbusy : o ≠ .busy) (hhalted : ∀ reason, o ≠ .halted reason) :
    Keeps (N.reliable.around id) anyAsk (Leaves id c (Closed f n)) (fail id event o).run w :=
  keeps_closing (Q := Closed f n o) hP
    (fun now _ h => closed_failure h now ho hcycles hhalt hbusy hhalted)
    (fun _ _ _ hsame => absurd hsame (Bookkeeping.ne_of_failures rfl))
    fun _ _ hclosed => hclosed

/-- A cycle that breaks off leaves all as it was. -/
theorem concluded_overflowed (h : Runs f n b) : Concluded f n .overflowed b :=
  ⟨⟨nofun, nofun, h.failures, h.cycles, h.halted, fun _ => trivial⟩, trivial⟩

/-- A publication that failed counts a failure, and halts the oracle unless it can be tried again.
-/
theorem concluded_failPublish (h : Runs f n b) (now : UInt64) (round : RoundId) (e : PublishError) :
    Concluded f n (.publishFailed round e.message e.isRetryable)
      (afterPublishFailure now (if e.isRetryable then none else some e.message) b) := by
  refine ⟨⟨nofun, nofun, congrArg (· + 1) h.failures, h.cycles, ?_, fun _ => trivial⟩, trivial⟩
  show (_ <|> b.halted) = _
  rw [h.halted]
  cases e.isRetryable <;> rfl

/-- Writing such a failure down concludes a cycle as well. -/
theorem keeps_failPublish_concluded (hP : Has id c (Runs f n) w) (round : RoundId)
    (e : PublishError) :
    Keeps (N.reliable.around id) anyAsk (Leaves id c (Concluded f n))
      (failPublish id round e).run w := by
  rw [failPublish]
  show Keeps _ _ _ (ExceptT.run (if _ then _ else _)) w
  split
  · exact hP.mono fun _ _ => concluded_overflowed
  · refine keeps_closing hP (fun now _ h => concluded_failPublish h now round e)
      (fun _ _ _ hsame => absurd hsame (Bookkeeping.ne_of_failures rfl))
      fun _ w' hconcluded => ?_
    cases hretryable : e.isRetryable with
    | true =>
      rw [hretryable] at hconcluded
      exact hconcluded
    | false =>
      rw [hretryable] at hconcluded
      exact Attempt.keeps_carries (carries_has (r := .emit _) trivial) hconcluded
        fun _ _ hconcluded => hconcluded

/-! ## Publishing -/

/-- What is pending may be anything. -/
theorem Runs.pend (h : Runs f n b) (p : Option Pending) : Runs f n { b with pending := p } :=
  ⟨h.halted, h.failures, h.cycles⟩

/-- Attempts change nothing but what is pending. -/
abbrev Tries (id : OracleId) (c : OracleConfig) (f : UInt32) (n : UInt64) :
    Except RegistryError α → World φ → Prop :=
  Leaves id c fun _ => Runs f n

/-- Once a submission is forgotten the oracle is idle, with the counters that it had. -/
theorem keeps_dropPending_idle (hP : Has id c (Runs f n) w) :
    Keeps (N.reliable.around id) anyAsk (Leaves id c fun _ => Idle f n) (dropPending id).run w := by
  refine Attempt.keeps_bind.mpr (keeps_revised (Q := Idle f n) hP
    (fun b h => ⟨h.pend none, rfl⟩) (fun b h hsame => ⟨h, ?_⟩) fun _ _ _ hidle => hidle)
  have hnone := (Bookkeeping.same_of_beq hsame).pending.symm
  rwa [Option.isSome_none, Option.isSome_eq_false_iff, Option.isNone_iff_eq_none] at hnone

/-- A submission leaves the counters alone, whether or not it is written down. -/
theorem keeps_submit_runs (hP : Has id c (Runs f n) w) (value : Decimal) (round : RoundId) :
    Keeps (N.reliable.around id) anyAsk (Tries id c f n) (submit policy c value round).run w := by
  obtain rfl := hP.named
  refine Attempt.keeps_lift_bind.mpr ((keeps_fed hP).mono fun e w' hP => ?_)
  cases e with
  | error e => exact hP
  | ok s =>
    refine Attempt.keeps_bind.mpr (keeps_revised (Q := Runs f n) hP (fun _ h => h.pend _)
      (fun _ h _ => h) fun _ w' _ hP => ?_)
    refine Attempt.keeps_carries (carries_has (r := .emit _) trivial) hP fun _ w' hP => ?_
    exact Attempt.keeps_lift.mpr (keeps_fed hP)

/-- So does an attempt, -/
theorem keeps_publishOnce_runs (hP : Has id c (Runs f n) w) (value : Decimal) (round : RoundId) :
    Keeps (N.reliable.around id) anyAsk (Tries id c f n)
      (publishOnce policy c value round).run w := by
  obtain rfl := hP.named
  refine Attempt.keeps_bind.mpr (keeps_row trivial stable_has hP fun b w' hP => ?_)
  have hruns : Has c.id c (Runs f n) w' := hP.mono fun _ _ h => h.2
  rw [Attempt.ends_ok]
  dsimp only
  cases b.pending with
  | none => exact keeps_submit_runs hruns value round
  | some p =>
    refine Attempt.keeps_lift_bind.mpr ((keeps_fed hruns).mono fun e w' hruns => ?_)
    rcases e with e | _ | r
    · exact hruns
    · refine keeps_part (keeps_dropPending_idle hruns) fun _ w' hidle => ?_
      exact keeps_submit_runs (hidle.mono fun _ _ h => h.toRuns) value round
    · exact hruns

/-- and so do all attempts. The induction is on how many are left. -/
theorem keeps_publishWithRetry_runs (hP : Has id c (Runs f n) w) (value : Decimal)
    (round : RoundId) (retries : Nat) (interval : Duration) :
    Keeps (N.reliable.around id) anyAsk (Tries id c f n)
      (publishWithRetry policy c value round deadline retries interval).run w := by
  -- Every attempt finds what the first one found, but for what is pending.
  induction retries generalizing interval w with
  | zero => exact keeps_publishOnce_runs hP value round
  | succ retries ih =>
    refine keeps_part (keeps_publishOnce_runs hP value round) fun e w' hP => ?_
    cases e with
    | ok r => exact hP
    | error e =>
      show Keeps _ _ _ (ExceptT.run (if _ then _ else _)) w'
      split
      · exact hP
      · refine Attempt.keeps_carries (carries_has (r := .delay _ _) trivial) hP fun _ w' hP => ?_
        refine Attempt.keeps_carries (carries_has (r := .elapsed) trivial) hP fun _ w' hP => ?_
        show Keeps _ _ _ (ExceptT.run (if _ then _ else _)) w'
        split
        · exact hP
        · exact Attempt.keeps_carries (carries_has (r := .sleep _) trivial) hP
            fun _ w' hP => ih hP _

theorem keeps_publishAs_concluded (hP : Has id c (Runs f n) w) (value : Decimal)
    (round : RoundId) :
    Keeps (N.reliable.around id) anyAsk (Leaves id c (Concluded f n))
      (publishAs policy id c value round deadline).run w := by
  rw [publishAs]
  refine keeps_part (keeps_publishWithRetry_runs hP value round _ _) fun e w' hP => ?_
  cases e with
  | ok r => exact keeps_record_concluded hP r
  | error e => exact keeps_failPublish_concluded hP round e

theorem keeps_publish_concluded (hP : Has id c (Runs f n) w) (b : Bookkeeping) (value : Decimal) :
    Keeps (N.reliable.around id) anyAsk (Leaves id c (Concluded f n))
      (publish policy id c b value deadline).run w := by
  rw [publish]
  refine Attempt.keeps_carries (carries_has (r := .enter id .publishing) trivial) hP
    fun _ w' hP => ?_
  cases b.nextRound with
  | none => exact hP.mono fun _ _ => concluded_overflowed
  | some round => exact keeps_publishAs_concluded hP value round

/-! ## The cycle -/

/-- A cycle for which there is no time left. -/
theorem closed_late (h : Idle f n b) : Closed f n .deadlineExceeded b :=
  ⟨nofun, nofun, h.failures, h.cycles, h.halted,
    fun hsome => by rw [h.pending] at hsome; cases hsome⟩

/-- A cycle that waits has counted itself and done nothing else. -/
theorem closed_waiting (h : Idle f n b) (remaining : UInt64) : Closed f n (.waiting remaining) b :=
  ⟨nofun, nofun, h.failures, h.cycles, h.halted,
    fun hsome => by rw [h.pending] at hsome; cases hsome⟩

/-- From the deadline on, every end of a cycle that is due is written down as the outcome says. -/
theorem keeps_fetch_closed (hP : Has id c (Idle f n) w) (b : Bookkeeping) :
    Keeps (N.reliable.around id) anyAsk (Leaves id c (Closed f n))
      (fetch policy id c b deadline).run w := by
  refine keeps_isLate (carries_has trivial) hP fun late w' hP => ?_
  cases late with
  | true => exact hP.mono fun _ _ => closed_late
  | false =>
    refine Attempt.keeps_carries (carries_has (r := .enter id .fetching) trivial) hP
      fun _ w' hP => ?_
    refine Attempt.keeps_lift_bind.mpr
      (keeps_source (fun _ _ => trivial) stable_has.holds hP fun e w' hP => ?_)
    cases e with
    | error e => exact keeps_fail_closed hP _ rfl rfl rfl nofun nofun
    | ok value =>
      refine Attempt.keeps_carries (carries_has (r := .enter id .validating) trivial) hP
        fun _ w' hP => ?_
      cases policy.validation.fault? value with
      | some reason => exact keeps_fail_closed hP _ rfl rfl rfl nofun nofun
      | none =>
        refine keeps_isLate (carries_has trivial) hP fun late w' hP => ?_
        cases late with
        | true => exact hP.mono fun _ _ => closed_late
        | false =>
          have hruns := hP.mono fun _ _ h => h.toRuns
          exact (keeps_publish_concluded hruns b value).mono fun _ _ h =>
            leaves_mono h fun _ _ h => h.toClosed

/-- How a cycle ends, accounted for from what it found. -/
def Accounted (id : OracleId) (c : OracleConfig) (b : Bookkeeping) :
    Tracked → World φ → Prop
  | (.ok o, x), w => Has id c (Accounts b o x) w
  | (.error _, _), _ => False

/-- A cycle with nothing left to settle is counted. -/
theorem keeps_observe_accounted (hrunning : b.halted = none)
    (hP : Has id c (Idle b.failures b.cycles) w) :
    Keeps (N.reliable.around id) anyAsk (Accounted id c b)
      (trackObserve policy id c deadline) w := by
  refine Program.keeps_bind.mpr (keeps_revised (Q := Idle b.failures (b.cycles + 1)) hP
    (fun b' h => ⟨⟨h.halted, h.failures, congrArg (· + 1) h.cycles⟩, h.pending⟩)
    (fun b' h hsame => ?_) fun b' w' hidle hP => ?_)
  · exact absurd (Bookkeeping.same_of_beq hsame).cycles (UInt64.add_one_ne _)
  · have hclosed : ∀ {o x b'}, x ≠ .early → Closed b.failures (b.cycles + 1) o b' →
        Accounts b o x b' := fun hx h =>
      h.accounts hrunning (if_neg hx).symm fun hearly => absurd hearly hx
    have hcounted : ({ b' with cycles := b'.cycles + 1 } : Bookkeeping).halted = none :=
      hidle.halted
    have hdecide : Schedule.decide c.threshold _ = _ := Schedule.decide_of_running hcounted
    split at hdecide
    · simp only [hdecide]
      refine Program.keeps_bind.mpr ((keeps_fetch_closed hP _).mono fun e w' h => ?_)
      cases e with
      | ok o =>
        have hleft : Has id c (Closed b.failures (b.cycles + 1) o) w' := h
        exact hleft.mono fun _ _ => hclosed (by decide)
      | error e => exact h.elim
    · simp only [hdecide]
      exact hP.mono fun _ _ h => hclosed (by decide) (closed_waiting h _)

/-- What comes of settling what an earlier cycle left. -/
def Settled (id : OracleId) (c : OracleConfig) (b : Bookkeeping) :
    Except RegistryError (Option Outcome) → World φ → Prop
  | .ok none, w => b.halted = none ∧ Has id c (Idle b.failures b.cycles) w
  | .ok (some o), w => Has id c (Accounts b o .early) w
  | .error _, _ => False

/-- What an earlier cycle left is settled without counting. -/
theorem keeps_settle_accounted (hP : Has id c (· = b) w) :
    Keeps (N.reliable.around id) anyAsk (Settled id c b) (settle id deadline ⟨c, b⟩).run w := by
  rw [settle]
  dsimp only
  cases hhalted : b.halted with
  | some reason =>
    have haccounts : Has id c (Accounts b (.halted reason) .early) w := by
      refine hP.mono ?_
      rintro _ _ rfl
      exact accounts_halted hhalted
    exact haccounts
  | none =>
    cases hpending : b.pending with
    | none =>
      refine ⟨hhalted, hP.mono ?_⟩
      rintro _ _ rfl
      exact ⟨⟨hhalted, rfl, rfl⟩, hpending⟩
    | some p =>
      have hsome : b.pending.isSome := by rw [hpending]; rfl
      -- Where it ends the cycle, a submission was settled, and nothing is counted.
      have hends : ∀ {g : Step Outcome} {w' : World φ},
          Keeps (N.reliable.around id) anyAsk
            (Leaves id c (Concluded b.failures b.cycles)) g.run w' →
          Keeps (N.reliable.around id) anyAsk (Settled id c b)
            (g >>= fun o => (pure (some o) : Step (Option Outcome))).run w' := by
        intro g w' h
        refine keeps_part h fun o w' hconcluded => ?_
        exact hconcluded.mono fun _ _ h =>
          h.toClosed.accounts hhalted rfl fun _ => ⟨hsome, h.publication⟩
      refine keeps_isLate (carries_has trivial) hP fun late w' hP => ?_
      cases late with
      | true =>
        have haccounts : Has id c (Accounts b .deadlineExceeded .early) w' := by
          refine hP.mono ?_
          rintro _ _ rfl
          exact accounts_unresolved hsome
        exact haccounts
      | false =>
        have hruns : Has id c (Runs b.failures b.cycles) w' := by
          refine hP.mono ?_
          rintro _ _ rfl
          exact ⟨hhalted, rfl, rfl⟩
        refine Attempt.keeps_carries (carries_has (r := .enter id .publishing) trivial) hruns
          fun _ w' hruns => ?_
        refine Attempt.keeps_lift_bind.mpr ((keeps_fed hruns).mono fun e w' hruns => ?_)
        rcases e with e | _ | r
        · exact hends (keeps_failPublish_concluded hruns p.round e)
        · exact keeps_part (keeps_dropPending_idle hruns) fun _ _ hidle => ⟨hhalted, hidle⟩
        · exact hends (keeps_record_concluded hruns r)

/-- A cycle whose lock is held is accounted for. -/
theorem keeps_locked_accounted (hP : Has id c (· = b) w) :
    Keeps (N.reliable.around id) anyAsk (Accounted id c b) (trackLocked policy id deadline) w := by
  refine Program.keeps_bind.mpr (keeps_row trivial stable_has hP fun told w' htold => ?_)
  obtain ⟨b', hkept, rfl, rfl⟩ := htold
  have hP : Has id c (· = b') w' := ⟨b', hkept, rfl⟩
  refine Program.keeps_bind.mpr ((keeps_settle_accounted hP).mono fun e w' h => ?_)
  rcases e with e | _ | o
  · exact h.elim
  · exact keeps_observe_accounted h.1 h.2
  · exact h

/-- Every cycle is accounted for, unless it does not get its lock. -/
theorem keeps_tracked (hP : Has id c (· = b) w) :
    Keeps (N.reliable.around id) anyAsk
      (fun e w' => e = (.ok .busy, .early) ∧ Has id c (· = b) w' ∨ Accounted id c b e w')
      (tracked policy id deadline) w := by
  have haccounted : ∀ e, N.reliable.Unaffected id (Accounted id c b e) := by
    rintro ⟨e | o, x⟩
    · exact fun _ _ _ h => h
    · exact stable_has.holds
  refine keeps_framed (J := Has id c (· = b)) (fun _ _ _ _ => trivial) stable_has.holds
    (fun e w w' hstirs h => ?_) (fun w hw => .inl ⟨rfl, hw⟩)
    (fun w hw => (keeps_locked_accounted hw).mono fun _ _ h => .inr h) hP
  exact h.imp (fun h => ⟨h.1, stable_has.holds _ _ hstirs h.2⟩) (haccounted e _ _ hstirs)

end Cycle

end PriceOracle
