import PriceOracle.Proofs.Service.Course

/-!
# What a cycle announces

The events of a cycle are those of its outcome (`Announcement.Tells`): one for each submission that
was accepted, and then the one of its end, with a second one where it halts the oracle. A cycle that
the registry refuses only tells submissions (`Announcement.CycleTells`). Whoever follows the events
has nothing else to go by, so that each must be told once, and none of what did not happen.

* `Announcement.Sent`: through all attempts to publish, each submission that was accepted was told.
* `Announcement.keeps_run`: every event of a cycle is shown, and how it ends.
-/

namespace PriceOracle

open Program (Carries Keeps noted)
open Registry (Standpoint Written amid)
open Surroundings (Step)

namespace Announcement

/-! ## Outcomes -/

/-- The events of some submissions for a round. -/
abbrev submitted (id : OracleId) (round : RoundId) (A : List TxHash) : List Event :=
  A.map (.publishSubmitted id round ·)

/-- The accepted submissions and the events of a cycle, by its outcome. -/
inductive Tells (id : OracleId) : Outcome → List TxHash → List Event → Prop where
  | busy : Tells id .busy [] []
  | halted (reason : String) : Tells id (.halted reason) [] []
  | waiting (remaining : UInt64) : Tells id (.waiting remaining) [] []
  | deadlineExceeded : Tells id .deadlineExceeded [] []
  | fetchFailed (reason : String) (failures : UInt32) :
    Tells id (.fetchFailed reason) [] [.fetchFailed id reason failures]
  | rejected (value : Decimal) (reason : String) :
    Tells id (.rejected reason) [] [.valueRejected id value reason]
  | published (round : RoundId) (A : List TxHash) (r : RoundRecord) :
    Tells id (.published r) A (submitted id round A ++ [.roundPublished id r])
  | publishFailed (round : RoundId) (A : List TxHash) (reason : String) :
    Tells id (.publishFailed round reason true) A
      (submitted id round A ++ [.publishFailed id round reason true])
  | overflowed (round : RoundId) (A : List TxHash) : Tells id .overflowed A (submitted id round A)
  | publishHalted (round : RoundId) (A : List TxHash) (reason : String) :
    Tells id (.publishFailed round reason false) A
      (submitted id round A ++ [.publishFailed id round reason false, .halted id reason])

/-- The accepted submissions and the events of a cycle. One that the registry refuses only tells
submissions; the last one that was accepted may be missing, which could not be written down. -/
def CycleTells (id : OracleId) :
    Except RegistryError Outcome → List TxHash → List Event → Prop
  | .ok o, A, E => Tells id o A E
  | .error _, A, E => ∃ round B rest, rest.length ≤ 1 ∧ A = B ++ rest ∧ E = submitted id round B

/-- What a cycle comes to. -/
def CycleEnds (id : OracleId) (e : Except RegistryError Outcome) (x : Standpoint × Course) : Prop :=
  ∃ E A, SoFar anySight E A [] x ∧ CycleTells id e A E

variable {V : Sight} {E : List Event} {A : List TxHash} {x : Standpoint × Course}
  {configs : List OracleConfig} {α β : Type} {id : OracleId} {round : RoundId}
  {policy : Cycle.Policy} {c : OracleConfig} {deadline : Duration}

/-- Some submissions were accepted, and told. -/
def Sent (id : OracleId) (round : RoundId) (x : Standpoint × Course) : Prop :=
  ∃ A, SoFar anySight (submitted id round A) A [] x

/-- Some submissions were accepted, and told but for the last one. -/
def Lagging (id : OracleId) (round : RoundId) (x : Standpoint × Course) : Prop :=
  ∃ A rest, rest.length ≤ 1 ∧ SoFar anySight (submitted id round A) (A ++ rest) [] x

/-- The attempts are at a rest where just the submissions that were accepted are told. -/
theorem SoFar.sent (h : SoFar V (submitted id round A) A [] x) : Sent id round x := ⟨A, h.blind⟩

/-- At a rest, no submission waits to be told. -/
theorem Sent.lagging (h : Sent id round x) : Lagging id round x := by
  obtain ⟨A, hA⟩ := h
  exact ⟨A, [], Nat.zero_le 1, by rwa [List.append_nil]⟩

/-- A cycle that the registry refuses may leave its last submission untold. -/
theorem Lagging.ends (h : Lagging id round x) (e : RegistryError) : CycleEnds id (.error e) x := by
  obtain ⟨A, rest, hrest, hx⟩ := h
  exact ⟨_, _, hx, round, A, rest, hrest, rfl, rfl⟩

/-- A cycle ends well where its events are those of its outcome. -/
theorem SoFar.ends {o : Outcome} (h : SoFar V E A [] x) (ho : Tells id o A E) :
    CycleEnds id (.ok o) x := ⟨E, A, h.blind, ho⟩

/-! ## Ends of a cycle -/

/-- A request that tells and sends nothing leaves what was told and sent. -/
theorem carries_mute {r : Surroundings.Request} {I : List OracleId} (hr : Mute r) :
    Carries (noted amid) (Permits configs) (SoFar V E A I) r :=
  fun x h => ⟨permits_mute hr x, fun _ _ hreply => h.mute hr hreply⟩

/-- An end of a cycle is written down, and seen when it is told. -/
theorem keeps_closing {change : UInt64 → Bookkeeping → Bookkeeping} {e : Bookkeeping → Event}
    {g : Bookkeeping → Step Outcome} {R : UInt64 → Bookkeeping → Bookkeeping → Prop}
    (h : SoFar V (submitted id round A) A [] x) (hdone : ∀ now b, R now b (change now b))
    (hsame : ∀ now b, (change now b == b) = true → R now b b)
    (hshown : ∀ now b s s', Written id (fun b₀ b' => change now b₀ = b ∧ R now b₀ b') s s' →
      (e b).Shown configs s s')
    (hg : ∀ now b y, SoFar (Written id fun b₀ b' => change now b₀ = b ∧ R now b₀ b')
        (submitted id round A ++ [e b]) A [] y →
      Keeps (noted amid) (Permits configs) (CycleEnds id) (g b).run y) :
    Keeps (noted amid) (Permits configs) (CycleEnds id)
      ((liftM Surroundings.unixTime : Step UInt64) >>= fun now =>
        Surroundings.revise id (change now) >>= fun b =>
          (liftM (Surroundings.emit (e b)) : Step Unit) >>= fun _ => g b).run x :=
  Cycle.keeps_stamped (carries_mute (r := .unixTime) trivial)
    (fun now _ hy => keeps_revise hy (hdone now) (hsame now) (fun _ _ hz => hz)
      fun e _ hz => hz.sent.lagging.ends e)
    (fun now b _ hy => keeps_emit hy (hshown now b) fun _ hz => hz) hg h

/-- A failure before anything was sent is counted, and told. -/
theorem keeps_fail {event : Bookkeeping → Event} {o : Outcome} (h : SoFar V [] [] [] x)
    (hshown : ∀ b s s', Written id (fun b₀ b' => b' = b ∧ ∃ now, b' = Cycle.afterFailure now b₀)
      s s' → (event b).Shown configs s s')
    (ho : ∀ b, Tells id o [] [event b]) :
    Keeps (noted amid) (Permits configs) (CycleEnds id) (Cycle.fail id event o).run x := by
  have hnothing : SoFar V (submitted id 0 []) [] [] x := h
  refine keeps_closing (R := fun now b b' => b' = Cycle.afterFailure now b) hnothing
    (fun _ _ => rfl) (fun _ _ hsame => absurd hsame (Bookkeeping.ne_of_failures rfl)) ?_
    fun _ b y hy => hy.ends (ho b)
  rintro now _ s s' ⟨c, b₀, _, hrow, hkept, rfl, rfl⟩
  exact hshown _ s s' ⟨c, b₀, _, hrow, hkept, rfl, now, rfl⟩

/-- A failure that is written down is told, and then the halt, where it is one for good. -/
theorem keeps_failPublish (h : Sent id round x) (e : PublishError) :
    Keeps (noted amid) (Permits configs) (CycleEnds id) (Cycle.failPublish id round e).run x := by
  obtain ⟨A, hA⟩ := h
  let halt := if e.isRetryable then none else some e.message
  rw [Cycle.failPublish]
  show Keeps _ _ _ (ExceptT.run (if _ then _ else _)) x
  split
  · exact hA.ends (.overflowed round A)
  · refine keeps_closing (R := fun now b b' => b' = Cycle.afterPublishFailure now halt b) hA
      (fun _ _ => rfl) (fun _ _ hsame => absurd hsame (Bookkeeping.ne_of_failures rfl)) ?_
      fun now b y hy => ?_
    · rintro now _ s s' ⟨c, b₀, _, hrow, hkept, -, rfl⟩
      exact ⟨c, b₀, _, hrow, hkept, now, rfl⟩
    · cases hretryable : e.isRetryable with
      | true =>
        rw [hretryable] at hy
        exact hy.ends (.publishFailed round A e.message)
      | false =>
        -- The change that is told first has also halted the oracle.
        refine keeps_emit_bind hy ?_ fun z hz => ?_
        · rintro s s' ⟨c, b₀, _, hrow, hkept, -, rfl⟩
          refine ⟨c, b₀, _, hrow, hkept, ?_⟩
          show (halt <|> b₀.halted) = _
          simp [halt, hretryable]
        · rw [hretryable, List.append_assoc] at hz
          exact hz.ends (.publishHalted round A e.message)

/-- A round that is written down is told once. -/
theorem keeps_record (h : Sent id round x) (r : RoundRecord) :
    Keeps (noted amid) (Permits configs) (CycleEnds id) (Cycle.record id r).run x := by
  obtain ⟨A, hA⟩ := h
  refine keeps_ask_bind (r := .enter id .recorded) trivial hA fun _ y hy => ?_
  refine keeps_closing (R := fun _ _ b' =>
      b'.lastRound = r.round ∧ b'.failures = 0 ∧ b'.cycles = 0 ∧ b'.pending = none) hy
    (fun _ _ => ⟨rfl, rfl, rfl, rfl⟩) (fun now b hsame => ?_) ?_
    fun _ _ z hz => hz.ends (.published round A r)
  · have hequal := Bookkeeping.same_of_beq hsame
    refine ⟨hequal.lastRound.symm, hequal.failures.symm, hequal.cycles.symm, ?_⟩
    rw [← Option.isNone_iff_eq_none, ← Option.isSome_eq_false_iff, ← hequal.pending]
    rfl
  · rintro now _ s s' ⟨c, b₀, b', hrow, hkept, -, hb'⟩
    exact ⟨c, b₀, b', hrow, hkept, hb'⟩

/-! ## Publishing -/

/-- What a part of a publication comes to. -/
def Tried (id : OracleId) (round : RoundId) : Except RegistryError α → Standpoint × Course → Prop
  | .ok _, x => Sent id round x
  | .error _, x => Lagging id round x

/-- A submission that was accepted is written down and told, in this order. -/
theorem keeps_submit (hnamed : c.id = id) (h : Sent id round x) (value : Decimal) :
    Keeps (noted amid) (Permits configs) (Tried id round)
      (Cycle.submit policy c value round).run x := by
  subst hnamed
  obtain ⟨A, hA⟩ := h
  refine Attempt.keeps_lift_bind.mpr (keeps_submitRound hA (fun e y hy => hy.sent) ?_)
  rintro s y rfl hy
  -- The submission was accepted, and is told once it is written down.
  refine Attempt.keeps_bind.mpr (keeps_revise
    (R := fun _ b' => ∃ p, b'.pending = some p ∧ p.txHash = s.txHash ∧ p.round = s.round) hy
    (fun _ => ⟨_, rfl, rfl, rfl⟩) (fun b hsame => ?_) (fun b z hz => ?_) fun _ z hz => ?_)
  · exact Bookkeeping.pending_of_beq hsame rfl
  · refine keeps_emit_bind hz ?_ fun z hz => ?_
    · rintro s₁ s₂ ⟨c', b₀, b', hrow, hkept, -, hb'⟩
      exact ⟨c', b₀, b', hrow, hkept, hb'⟩
    · have hsent : Sent c.id s.round z :=
        ⟨A ++ [s.txHash], by rw [submitted, List.map_append]; exact hz.blind⟩
      obtain ⟨_, hsent⟩ := hsent
      exact Attempt.keeps_lift.mpr
        ((keeps_mute (mute_confirm _ _ _) hsent).mono fun _ _ h => h.sent)
  · exact ⟨A, [s.txHash], Nat.le_refl 1, hz⟩

/-- Forgetting a submission tells nothing. -/
theorem keeps_dropPending {post : Except RegistryError Unit → Standpoint × Course → Prop}
    (h : SoFar V E A I x) (hpost : ∀ e y, SoFar anySight E A I y → post e y) :
    Keeps (noted amid) (Permits configs) post (Cycle.dropPending id).run x :=
  Attempt.keeps_bind.mpr (keeps_revise (R := fun _ _ => True) h (fun _ => trivial)
    (fun _ _ => trivial) (fun _ y hy => hpost _ y hy.blind) fun _ y hy => hpost _ y hy)

theorem keeps_publishOnce (hnamed : c.id = id) (h : Sent id round x) (value : Decimal) :
    Keeps (noted amid) (Permits configs) (Tried id round)
      (Cycle.publishOnce policy c value round).run x := by
  obtain ⟨A, hA⟩ := h
  refine Attempt.keeps_bind.mpr
    (keeps_row hA (fun e y hy => hy.sent.lagging) fun row y _ hy => ?_)
  rw [Attempt.ends_ok]
  cases row.bookkeeping.pending with
  | none => exact keeps_submit hnamed hy.sent value
  | some p =>
    refine keeps_mute_bind (mute_resolve _ p) hy fun e z hz => ?_
    rcases e with e | _ | r
    · exact hz.sent
    · refine Attempt.keeps_bind.mpr (keeps_dropPending hz fun e z hz => ?_)
      cases e with
      | error e => exact hz.sent.lagging
      | ok _ => exact keeps_submit hnamed hz.sent value
    · exact hz.sent

/-- However many attempts are made, each tells what it submitted. The induction is on how many are
left. -/
theorem keeps_publishWithRetry (hnamed : c.id = id) (h : Sent id round x) (value : Decimal)
    (retries : Nat) (interval : Duration) :
    Keeps (noted amid) (Permits configs) (Tried id round)
      (Cycle.publishWithRetry policy c value round deadline retries interval).run x := by
  -- An attempt goes on from what the ones before it sent and told.
  induction retries generalizing interval x with
  | zero => exact keeps_publishOnce hnamed h value
  | succ retries ih =>
    refine Attempt.keeps_bind.mpr ((keeps_publishOnce hnamed h value).mono fun e y hy => ?_)
    rcases e with e | e | r
    · exact hy
    · show Keeps _ _ _ (ExceptT.run (if _ then _ else _)) y
      split
      · exact hy
      · obtain ⟨A, hA⟩ := hy
        refine keeps_ask_bind (r := .delay _ _) trivial hA fun _ y hy => ?_
        refine keeps_ask_bind (r := .elapsed) trivial hy fun _ y hy => ?_
        show Keeps _ _ _ (ExceptT.run (if _ then _ else _)) y
        split
        · exact hy.sent
        · exact keeps_ask_bind (r := .sleep _) trivial hy fun _ y hy => ih hy.sent _
    · exact hy

theorem keeps_publishAs (hnamed : c.id = id) (h : Sent id round x) (value : Decimal) :
    Keeps (noted amid) (Permits configs) (CycleEnds id)
      (Cycle.publishAs policy id c value round deadline).run x := by
  rw [Cycle.publishAs]
  refine Attempt.keeps_bind.mpr ((keeps_publishWithRetry hnamed h value _ _).mono fun e y hy => ?_)
  rcases e with e | e | r
  · exact Lagging.ends hy e
  · exact keeps_failPublish hy e
  · exact keeps_record hy r

theorem keeps_publish (hnamed : c.id = id) (h : SoFar V [] [] [] x) (b : Bookkeeping)
    (value : Decimal) :
    Keeps (noted amid) (Permits configs) (CycleEnds id)
      (Cycle.publish policy id c b value deadline).run x := by
  rw [Cycle.publish]
  refine keeps_ask_bind (r := .enter id .publishing) trivial h fun _ y hy => ?_
  cases b.nextRound with
  | none => exact hy.ends (.overflowed 0 [])
  | some round =>
    have hnothing : Sent id round y := ⟨[], hy.blind⟩
    exact keeps_publishAs hnamed hnothing value

/-! ## The cycle -/

theorem keeps_fetch (hnamed : c.id = id) (h : SoFar V [] [] [] x) (b : Bookkeeping) :
    Keeps (noted amid) (Permits configs) (CycleEnds id)
      (Cycle.fetch policy id c b deadline).run x := by
  refine Cycle.keeps_isLate (carries_mute trivial) h fun late y hy => ?_
  cases late with
  | true => exact hy.ends .deadlineExceeded
  | false =>
    refine keeps_ask_bind (r := .enter id .fetching) trivial hy fun _ y hy => ?_
    refine keeps_mute_bind (Surroundings.makes_source (fun _ => trivial) _) hy fun e y hy => ?_
    cases e with
    | error e =>
      refine keeps_fail hy ?_ fun b => .fetchFailed e.message b.failures
      rintro b s s' ⟨c, b₀, _, hrow, hkept, rfl, now, hnow⟩
      exact ⟨c, b₀, _, hrow, hkept, rfl, now, hnow⟩
    | ok value =>
      refine keeps_ask_bind (r := .enter id .validating) trivial hy fun _ y hy => ?_
      cases policy.validation.fault? value with
      | some reason =>
        refine keeps_fail hy ?_ fun _ => .rejected value reason
        rintro b s s' ⟨c, b₀, _, hrow, hkept, -, now, hnow⟩
        exact ⟨c, b₀, _, hrow, hkept, now, hnow⟩
      | none =>
        refine Cycle.keeps_isLate (carries_mute trivial) hy fun late y hy => ?_
        cases late with
        | true => exact hy.ends .deadlineExceeded
        | false => exact keeps_publish hnamed hy b value

/-- Nothing was told yet. -/
theorem SoFar.refused (h : SoFar V [] [] [] x) (e : RegistryError) :
    CycleEnds id (.error e) x := by
  have hnothing : Sent id 0 x := ⟨[], h.blind⟩
  exact hnothing.lagging.ends e

theorem keeps_observe (hnamed : c.id = id) (h : SoFar V [] [] [] x) :
    Keeps (noted amid) (Permits configs) (CycleEnds id)
      (Cycle.observe policy id c deadline).run x := by
  refine Attempt.keeps_bind.mpr (keeps_revise (R := fun _ _ => True) h (fun _ => trivial)
    (fun _ _ => trivial) (fun b y hy => ?_) fun e y hy => hy.refused e)
  rw [Attempt.ends_ok]
  cases Schedule.decide c.threshold b with
  | due => exact keeps_fetch hnamed hy b
  | notDue remaining => exact hy.ends (.waiting remaining)
  | halted => exact hy.ends (.halted _)

theorem keeps_runLocked (h : SoFar V [] [] [] x) :
    Keeps (noted amid) (Permits configs) (CycleEnds id)
      (Cycle.runLocked policy id deadline).run x := by
  refine Attempt.keeps_bind.mpr
    (keeps_row h (fun e y hy => hy.refused e) fun row y hnamed hy => ?_)
  rw [Attempt.ends_ok]
  cases row.bookkeeping.halted with
  | some reason => exact hy.ends (.halted reason)
  | none =>
    cases row.bookkeeping.pending with
    | none => exact keeps_observe hnamed hy
    | some p =>
      refine Cycle.keeps_isLate (carries_mute trivial) hy fun late y hy => ?_
      cases late with
      | true => exact hy.ends .deadlineExceeded
      | false =>
        refine keeps_ask_bind (r := .enter id .publishing) trivial hy fun _ y hy => ?_
        refine keeps_mute_bind (mute_resolve _ p) hy fun e z hz => ?_
        rcases e with e | _ | settled
        · exact keeps_failPublish ⟨[], hz⟩ e
        · refine Attempt.keeps_bind.mpr (keeps_dropPending hz fun e z hz => ?_)
          cases e with
          | error e => exact hz.refused e
          | ok _ => exact keeps_observe hnamed hz
        · have hnothing : Sent id p.round z := ⟨[], hz⟩
          exact keeps_record hnothing settled

theorem keeps_run (h : SoFar V [] [] [] x) :
    Keeps (noted amid) (Permits configs) (CycleEnds id) (Cycle.run policy id deadline) x := by
  rw [Cycle.run]
  refine Program.keeps_bind.mpr ((keeps_ask (r := .slot id) trivial h).mono fun slot y hy => ?_)
  refine Program.keeps_bind.mpr <|
    (keeps_ask (r := .tryTake slot) trivial hy).mono fun free y hy => ?_
  obtain free : Bool := free
  cases free with
  | false => exact hy.ends .busy
  | true =>
    refine Program.keeps_bind.mpr ((keeps_runLocked hy).mono fun e y hends => ?_)
    obtain ⟨E, A, hy, htells⟩ := hends
    -- Giving the lock back tells nothing.
    refine Program.keeps_bind.mpr
      ((Cycle.keeps_leaveStage (carries_mute trivial) e hy).mono fun _ y hy => ?_)
    exact Program.keeps_bind.mpr
      ((keeps_ask (r := .release slot) trivial hy).mono fun _ y hy => ⟨E, A, hy, htells⟩)

end Announcement

end PriceOracle
