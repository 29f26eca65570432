import PriceOracle.Proofs.Cycle.Rounds
import PriceOracle.Proofs.Cycle.Tries
import PriceOracle.Proofs.Service.Readback

/-!
# Attempts one after the other

A publication is tried again after a retryable failure, each time with the same value and the same
round. `Cycle.Course` is how the attempts of one publication went: each finds what the ones before
it left pending, settles it before it sends anything, and is followed by another only where it
failed in a way that may go away.

* `Cycle.Rests`: how far the attempts have come, with one lemma for an attempt and one for a request
  of the pause behind it.
* `Cycle.retries_careful`: all that is asked for, and what the attempts come to.
* `Cycle.reaches_late`: an attempt may find that the one before it has landed.
-/

namespace PriceOracle

open Program (Keeps Leads)
open Publication (Careful Carries Gone Landed OnlyReads Result accepted updates)
open Registry (Kept Spared)
open Surroundings (Action Step)

namespace Cycle

/-- An attempt to publish, and the pause behind it. -/
structure Try (φ : Type) where
  before : World φ
  after : World φ
  asked : Transcript Surroundings.interface
  pause : Transcript Surroundings.interface
  result : Result

variable {φ : Type} {N : Nature φ} {policy : Policy} {c : OracleConfig} {b : Bookkeeping}
  {value : Decimal} {round : RoundId} {deadline : Duration} {sent : List TxHash} {w : World φ}
  {a : Try φ} {calls : List (Try φ)} {x x' : Recording φ} {result : Result}

/-- What is asked for while waiting for the next attempt. -/
def Pausing : Surroundings.Request → Prop
  | .delay _ _ | .elapsed | .sleep _ => True
  | _ => False

namespace Try

/-- All that was asked for. -/
def transcript (a : Try φ) : Transcript Surroundings.interface := a.asked ++ a.pause

/-- It failed in a way that may go away. -/
def Retryable (a : Try φ) : Prop := ∃ e, a.result = .ok (.error e) ∧ e.isRetryable = true

/-- An attempt that finds nothing pending but what was sent for the same publication. -/
structure Fits (N : Nature φ) (policy : Policy) (c : OracleConfig) (value : Decimal)
    (round : RoundId) (sent : List TxHash) (a : Try φ) : Prop where
  made : Leads (N.recorded c.id) (publishOnce policy c value round).run (a.before, [])
    (.done a.result) (a.after, a.asked)
  careful : ∃ b, Kept c.id ⟨c, b⟩ a.before.table a.before.storage ∧ Owned value round sent b ∧
    Careful c.destination value round b.pending (feeds a.asked) a.result
  succeeds : Succeeds value round a.result
  paused : ∀ entry ∈ a.pause, Pausing entry.1

/-- The hashes of the updates that were accepted, with those of this attempt. -/
def sentAfter (a : Try φ) (sent : List TxHash) : List TxHash := sent ++ accepted (feeds a.asked)

end Try

/-- Attempts to publish one after the other, each after a retryable failure of the one before. -/
inductive Course (N : Nature φ) (policy : Policy) (c : OracleConfig) (value : Decimal)
    (round : RoundId) : List TxHash → World φ → List (Try φ) → Result → Prop
  | last {sent : List TxHash} {a : Try φ} : a.Fits N policy c value round sent →
      Course N policy c value round sent a.before [a] a.result
  | again {sent : List TxHash} {w : World φ} {a : Try φ} {calls : List (Try φ)} {result : Result} :
      a.Fits N policy c value round sent → a.Retryable →
      Spared c.id a.after.table a.after.storage w.table w.storage →
      Course N policy c value round (a.sentAfter sent) w calls result →
      Course N policy c value round sent a.before (a :: calls) result

/-! ## One attempt among others -/

/-- How far the attempts have come once one has ended and maybe paused. -/
structure Rests (N : Nature φ) (policy : Policy) (c : OracleConfig) (value : Decimal)
    (round : RoundId) (sent : List TxHash) (T : Transcript Surroundings.interface) (a : Try φ)
    (x : Recording φ) : Prop where
  fits : a.Fits N policy c value round sent
  asked : x.2 = T ++ a.transcript
  spared : Spared c.id a.after.table a.after.storage x.1.table x.1.storage
  left : ∃ b, Kept c.id ⟨c, b⟩ x.1.table x.1.storage ∧ Owned value round (a.sentAfter sent) b

/-- An attempt, whatever was asked before. -/
theorem keeps_try (hkept : Kept c.id ⟨c, b⟩ x.1.table x.1.storage)
    (howned : Owned value round sent b) :
    Keeps (N.recorded c.id) anyNoted
      (fun result x' => ∃ a, a.before = x.1 ∧ a.result = result ∧
        Rests N policy c value round sent x.2 a x')
      (publishOnce policy c value round).run x := by
  refine Program.keeps_of_leads fun result x' hrun => ?_
  obtain ⟨asked, hasked, hrun⟩ := hrun.noted_append (List.append_nil x.2).symm
  have hseen : Seen c.id c b [] (x.1, ([] : Transcript Surroundings.interface)) := ⟨hkept, rfl⟩
  obtain ⟨⟨F, b', hcareful, ⟨hkept', rfl⟩, howned'⟩, hsucceeds⟩ :=
    (keeps_publishOnce_tried hseen howned).leads hrun
  refine ⟨⟨x.1, x'.1, asked, [], result⟩, rfl, rfl, ?_⟩
  exact {
    fits := ⟨hrun, ⟨b, hkept, howned, hcareful⟩, hsucceeds, List.forall_mem_nil _⟩
    asked := by rw [hasked, Try.transcript, List.append_nil]
    spared := .refl _ _ _
    left := ⟨b', hkept', howned'⟩ }

/-- The attempt with one more request of its pause. -/
def Try.rest (a : Try φ) {r : Surroundings.Request} (reply : r.Reply) : Try φ :=
  { a with pause := a.pause ++ [⟨r, reply⟩] }

/-- A request of a pause. -/
theorem keeps_pause {r : Surroundings.Request} {T : Transcript Surroundings.interface}
    {post : r.Reply → Recording φ → Prop} (hr : Pausing r)
    (h : Rests N policy c value round sent T a x)
    (hpost : ∀ reply x', Rests N policy c value round sent T (a.rest reply) x' → post reply x') :
    Keeps (N.recorded c.id) anyNoted post (Surroundings.ask r) x := by
  have hquiet : r.quiet := by
    cases r with
    | delay _ _ | elapsed | sleep _ => exact trivial
    | _ => exact hr.elim
  refine ⟨trivial, ?_⟩
  rintro reply x' ⟨⟨w₁, hanswer, hstirs⟩, hentry⟩
  obtain rfl := answers_quiet hquiet hanswer
  obtain ⟨b, hkept, howned⟩ := h.left
  refine hpost reply x' ⟨⟨h.fits.made, h.fits.careful, h.fits.succeeds, ?_⟩, ?_,
    h.spared.trans hstirs.spared, b, hstirs.spared.kept hkept, howned⟩
  · exact List.forall_mem_append.mpr ⟨h.fits.paused, List.forall_mem_singleton.mpr hr⟩
  · rw [hentry, h.asked]
    simp only [Try.transcript, Try.rest, List.append_assoc]

/-! ## All attempts -/

/-- How a number of attempts ends. -/
def Ended (N : Nature φ) (policy : Policy) (c : OracleConfig) (value : Decimal) (round : RoundId)
    (sent : List TxHash) (n : Nat) (x : Recording φ) (result : Result) (x' : Recording φ) : Prop :=
  ∃ calls, Course N policy c value round sent x.1 calls result ∧ calls.length ≤ n ∧
    x'.2 = x.2 ++ calls.flatMap Try.transcript

/-- The last attempt. -/
theorem Rests.ended (h : Rests N policy c value round sent x.2 a x') (hbefore : a.before = x.1)
    (hresult : a.result = result) (n : Nat) :
    Ended N policy c value round sent (n + 1) x result x' := by
  subst hresult
  refine ⟨[a], hbefore ▸ .last h.fits, Nat.succ_le_succ (Nat.zero_le n), ?_⟩
  simpa using h.asked

/-- An attempt before others. -/
theorem Rests.again {n : Nat} {y : Recording φ}
    (h : Rests N policy c value round sent x.2 a x') (hbefore : a.before = x.1)
    (hretryable : a.Retryable)
    (hended : Ended N policy c value round (a.sentAfter sent) n x' result y) :
    Ended N policy c value round sent (n + 1) x result y := by
  obtain ⟨calls, hcourse, hlength, htranscript⟩ := hended
  refine ⟨a :: calls, hbefore ▸ .again h.fits hretryable h.spared hcourse,
    Nat.succ_le_succ hlength, ?_⟩
  rw [htranscript, h.asked, List.flatMap_cons, List.append_assoc]

theorem keeps_publishWithRetry_ended (retries : Nat) (interval : Duration)
    (hkept : Kept c.id ⟨c, b⟩ x.1.table x.1.storage) (howned : Owned value round sent b) :
    Keeps (N.recorded c.id) anyNoted (Ended N policy c value round sent (retries + 1) x)
      (publishWithRetry policy c value round deadline retries interval).run x := by
  -- Every attempt finds the row of its oracle, and what is pending was sent by one before it.
  induction retries generalizing interval x b sent with
  | zero =>
    refine (keeps_try hkept howned).mono ?_
    rintro result x' ⟨a, hbefore, hresult, hrests⟩
    exact hrests.ended hbefore hresult 0
  | succ retries ih =>
    refine Attempt.keeps_bind.mpr ((keeps_try hkept howned).mono ?_)
    rintro result x' ⟨a, hbefore, hresult, hrests⟩
    have hended := hrests.ended hbefore hresult (retries + 1)
    rcases result with e | e | r
    · exact hended
    · show Keeps _ _ _ (ExceptT.run (if _ then _ else _)) x'
      split
      · exact hended
      next hretryable =>
        refine Attempt.keeps_lift_bind.mpr
          (keeps_pause (r := .delay _ _) trivial hrests fun delay x' hrests => ?_)
        refine Attempt.keeps_lift_bind.mpr
          (keeps_pause (r := .elapsed) trivial hrests fun now x' hrests => ?_)
        show Keeps _ _ _ (ExceptT.run (if _ then _ else _)) x'
        split
        · exact hrests.ended hbefore hresult (retries + 1)
        · refine Attempt.keeps_lift_bind.mpr
            (keeps_pause (r := .sleep _) trivial hrests fun _ x' hrests => ?_)
          obtain ⟨b', hkept', howned'⟩ := hrests.left
          refine (ih _ hkept' howned').mono fun result y hended => ?_
          exact hrests.again hbefore ⟨e, hresult, by simpa using hretryable⟩ hended
    · exact hended

/-! ## What the attempts come to -/

theorem feeds_append (T T' : Transcript Surroundings.interface) :
    feeds (T ++ T') = feeds T ++ feeds T' := List.filterMap_append ..

theorem feeds_pause {T : Transcript Surroundings.interface} (h : ∀ entry ∈ T, Pausing entry.1) :
    feeds T = [] := by
  refine List.filterMap_eq_nil_iff.mpr ?_
  rintro ⟨r, reply⟩ hentry
  have hr := h _ hentry
  cases r with
  | feed _ => exact hr.elim
  | _ => rfl

/-- An attempt sends at most one update, which carries the value as the round. -/
theorem Try.Fits.sends (h : a.Fits N policy c value round sent) :
    (updates (feeds a.transcript)).length ≤ 1 ∧ ∀ u ∈ updates (feeds a.transcript),
      Carries c.destination value round (feeds a.transcript) u := by
  obtain ⟨b, -, -, hcareful⟩ := h.careful
  rw [Try.transcript, feeds_append, feeds_pause h.paused, List.append_nil]
  exact hcareful.sends

/-- At most one update is sent for each attempt. -/
theorem Course.sends_le (h : Course N policy c value round sent w calls result) :
    (updates (feeds (calls.flatMap Try.transcript))).length ≤ calls.length := by
  induction h with
  | last hfits => simpa using hfits.sends.1
  | again hfits _ _ _ ih =>
    rw [List.flatMap_cons, feeds_append, Publication.updates_append, List.length_append,
      List.length_cons, Nat.add_comm]
    exact Nat.add_le_add ih hfits.sends.1

/-- All attempts carry the same value as the same round. -/
theorem Course.carries (h : Course N policy c value round sent w calls result) :
    ∀ u ∈ updates (feeds (calls.flatMap Try.transcript)),
      Carries c.destination value round (feeds (calls.flatMap Try.transcript)) u := by
  induction h with
  | last hfits => simpa using hfits.sends.2
  | again hfits _ _ _ ih =>
    rw [List.flatMap_cons, feeds_append, Publication.updates_append]
    refine List.forall_mem_append.mpr ⟨fun u hu => ?_, fun u hu => ?_⟩
    · exact (hfits.sends.2 u hu).mono (List.subset_append_left _ _)
    · exact (ih u hu).mono (List.subset_append_right _ _)

theorem Course.ne_nil (h : Course N policy c value round sent w calls result) : calls ≠ [] := by
  cases h <;> exact List.cons_ne_nil _ _

/-- Only the last attempt fails for good, or succeeds. -/
theorem Course.retryable (h : Course N policy c value round sent w calls result) :
    ∀ a ∈ calls.dropLast, a.Retryable := by
  induction h with
  | last _ => exact List.forall_mem_nil _
  | again _ hretryable _ hcourse ih =>
    rw [List.dropLast_cons_of_ne_nil hcourse.ne_nil]
    exact List.forall_mem_cons.mpr ⟨hretryable, ih⟩

theorem Course.getLast_result (h : Course N policy c value round sent w calls result) :
    calls.getLast?.map Try.result = some result := by
  induction h with
  | last _ => rfl
  | again _ _ _ hcourse ih => rwa [List.getLast?_cons_of_ne_nil hcourse.ne_nil]

theorem Course.succeeds (h : Course N policy c value round sent w calls result) :
    Succeeds value round result := by
  induction h with
  | last hfits => exact hfits.succeeds
  | again _ _ _ _ ih => exact ih

/-! ## How much is asked -/

theorem within_publishWithRetry (retries : Nat) (interval : Duration) :
    (publishWithRetry policy c value round deadline retries interval).run.Within
      (12 + 15 * retries) := by
  induction retries generalizing interval with
  | zero => exact within_publishOnce
  | succ retries ih =>
    refine (Attempt.within_bind (n := 12 + 15 * retries + 3) within_publishOnce
      fun e => ?_).mono (by omega)
    cases e with
    | ok r => exact trivial
    | error e =>
      show Program.Within (ExceptT.run (if _ then _ else _)) _
      split
      · exact trivial
      · refine fun delay now => ?_
        show Program.Within (ExceptT.run (if _ then _ else _)) _
        split
        · exact trivial
        · exact fun _ => ih _

/-! ## The whole publication -/

/-- The attempts that a cycle makes to publish a value. -/
abbrev attempts (policy : Policy) (c : OracleConfig) (value : Decimal) (round : RoundId)
    (deadline : Duration) : Action Result :=
  (publishWithRetry policy c value round deadline policy.retry.maxRetries.toNat
    policy.retry.initialInterval).run

/-- What there is to say of the attempts of a publication that has come to its end. -/
structure Retried (N : Nature φ) (policy : Policy) (c : OracleConfig) (value : Decimal)
    (round : RoundId) (w : World φ) (calls : List (Try φ)) (T : Transcript Surroundings.interface)
    (result : Result) : Prop where
  course : Course N policy c value round [] w calls result
  transcript : T = calls.flatMap Try.transcript
  bounded : calls.length ≤ policy.retry.maxRetries.toNat + 1
  /-- At most one for each attempt, whether it was accepted or not. -/
  sends : (updates (feeds T)).length ≤ calls.length
  carries : ∀ u ∈ updates (feeds T), Carries c.destination value round (feeds T) u
  retryable : ∀ a ∈ calls.dropLast, a.Retryable
  last : calls.getLast?.map Try.result = some result
  /-- While a submission is pending, nothing is sent unless it came to nothing just now. -/
  held : ∀ a ∈ calls, ∀ b p, Kept c.id ⟨c, b⟩ a.before.table a.before.storage →
    b.pending = some p → updates (feeds a.asked) = [] ∨
      ∃ R S, feeds a.asked = R ++ S ∧ Gone c.destination p R ∧ OnlyReads R
  /-- A submission that landed after all is not sent again, but is the round. -/
  landed : ∀ a ∈ calls, ∀ b p, Kept c.id ⟨c, b⟩ a.before.table a.before.storage →
    b.pending = some p → Landed c.destination p (feeds a.asked) →
      updates (feeds a.asked) = [] ∧ ∃ r, a.result = .ok (.ok r)
  succeeds : Succeeds value round result

/-- An attempt is careful with what its row says is pending. -/
theorem Try.Fits.careful_of_kept (h : a.Fits N policy c value round sent)
    (hkept : Kept c.id ⟨c, b⟩ a.before.table a.before.storage) :
    Careful c.destination value round b.pending (feeds a.asked) a.result := by
  obtain ⟨b', hkept', -, hcareful⟩ := h.careful
  obtain ⟨⟩ := Option.some.inj (hkept.inTable.symm.trans hkept'.inTable)
  exact hcareful

theorem Course.careful (h : Course N policy c value round sent w calls result) :
    ∀ a ∈ calls, ∀ b, Kept c.id ⟨c, b⟩ a.before.table a.before.storage →
      Careful c.destination value round b.pending (feeds a.asked) a.result := by
  induction h with
  | last hfits => exact List.forall_mem_singleton.mpr fun _ => hfits.careful_of_kept
  | again hfits _ _ _ ih => exact List.forall_mem_cons.mpr ⟨fun _ => hfits.careful_of_kept, ih⟩

theorem Course.retried {T : Transcript Surroundings.interface}
    (h : Course N policy c value round [] w calls result)
    (hbounded : calls.length ≤ policy.retry.maxRetries.toNat + 1)
    (htranscript : T = calls.flatMap Try.transcript) :
    Retried N policy c value round w calls T result where
  course := h
  transcript := htranscript
  bounded := hbounded
  sends := htranscript ▸ h.sends_le
  carries := htranscript ▸ h.carries
  retryable := h.retryable
  last := h.getLast_result
  held := fun a ha b _ hkept hp => (hp ▸ h.careful a ha b hkept).held
  landed := fun a ha b _ hkept hp => (hp ▸ h.careful a ha b hkept).of_landed
  succeeds := h.succeeds

/-- A publication that begins with nothing pending asks for no more than the retries of its policy
allow for, however long they wait and whatever the feed and storage do, and comes to an end wherever
it is answered. Its attempts all send the same value as the same round, each but the last fails in a
way that may go away, and each settles what the ones before it left before it sends anything. -/
theorem retries_careful (deadline : Duration) (hkept : Kept c.id ⟨c, b⟩ w.table w.storage)
    (hclear : b.pending = none) :
    (∀ q x, Leads (N.recorded c.id) (attempts policy c value round deadline) (w, []) q x →
      x.2.length ≤ 12 + 15 * policy.retry.maxRetries.toNat ∧
        (N.Responsive → ∃ result y, Leads (N.recorded c.id) q x (.done result) y)) ∧
    ∀ result w' T, Leads (N.recorded c.id) (attempts policy c value round deadline) (w, [])
        (.done result) (w', T) →
      ∃ calls, Retried N policy c value round w calls T result := by
  constructor
  · intro q x hrun
    refine ⟨?_, fun hresponsive => (hresponsive.around c.id).noted.ends q x⟩
    simpa using (within_publishWithRetry _ _).length_le hrun
  · intro result w' T hrun
    have howned : Owned value round [] b := by
      intro p hp
      rw [hclear] at hp
      cases hp
    obtain ⟨calls, hcourse, hbounded, htranscript⟩ :=
      (keeps_publishWithRetry_ended (x := (w, [])) _ _ hkept howned).leads hrun
    exact ⟨calls, hcourse.retried hbounded (by simpa using htranscript)⟩

/-! ## A submission that lands late -/

variable {id : OracleId} {current r : FeedRound} {h : TxHash} {e : PublishError}
  {receipt : Receipt} {s : φ}

/-- An attempt that is not confirmed in time may be followed by one that finds its round. -/
theorem reaches_late (retries : Nat) (interval : Duration) (hmoves : ∀ s, N.moves s s)
    (hnamed : c.id = id) (hpending : b.pending = none)
    (hencoded : Publication.encode c.destination value = .ok r.answer)
    (hlatest : N.feed (.latestRound c.destination) s (.ok current) s)
    (hround : successor? current.round = some round)
    (hsubmit : N.feed (.submit c.destination r.answer) s (.ok h) s)
    (hwait : N.feed (.confirmation c.destination h policy.depth) s (.error e) s)
    (hretryable : e.isRetryable = true) (hinTime : 0 < deadline.nanos)
    (hreceipt : N.feed (.receipt c.destination h) s (.ok (some receipt)) s)
    (hsuccess : receipt.success = true)
    (hread : N.feed (.roundData c.destination round) s (.ok (some r)) s) :
    Reaches N id (publishWithRetry policy c value round deadline (retries + 1) interval).run ⟨c, b⟩
      s (.done (.ok (.ok ⟨round, value, r.updatedAt⟩))) ⟨c, noted ⟨h, round, value, r.answer⟩ b⟩
      s := by
  have hsubmitted := (reaches_submission policy hmoves hnamed hpending hencoded hlatest
    hround).trans (.feed hsubmit (hmoves s))
  have hfirst := hsubmitted.trans
    ((reaches_noted hmoves hnamed hpending).trans (reaches_unconfirmed hmoves hwait))
  refine .andThen (p := (publishOnce policy c value round).run) hfirst ?_
  show Reaches N id (ExceptT.run (if (!e.isRetryable) = true then _ else _)) _ _ _ _ _
  -- The wait ran out; after a pause the second try finds the transaction mined.
  rw [hretryable]
  refine .trans (.quiet (r := .delay _ _) trivial (⟨0⟩ : Duration) (hmoves s)) ?_
  refine .trans (.quiet (r := .elapsed) trivial (⟨0⟩ : Duration) (hmoves s)) ?_
  show Reaches N id (ExceptT.run (if deadline.nanos ≤ 0 + 0 then _ else _)) _ _ _ _ _
  rw [if_neg (Nat.not_le.mpr hinTime)]
  refine .trans (.quiet (r := .sleep _) trivial () (hmoves s)) ?_
  have hsecond : Reaches N id (publishOnce policy c value round).run
      ⟨c, noted ⟨h, round, value, r.answer⟩ b⟩ s (.done (.ok (.ok ⟨round, value, r.updatedAt⟩)))
      ⟨c, noted ⟨h, round, value, r.answer⟩ b⟩ s := by
    subst hnamed
    refine .trans (.tell hmoves) (.resume ?_)
    have hresolve : Leads N.onFeed (Publication.resolve c.destination ⟨h, round, value⟩).run s
        (.done (.ok (some ⟨round, value, r.updatedAt⟩))) s :=
      Publication.leads_resolve hencoded ⟨s, hreceipt, hmoves s⟩ hsuccess ⟨s, hread, hmoves s⟩ rfl
    exact .andThen (p := (Surroundings.act (Surroundings.feed (Publication.resolve c.destination
      ⟨h, round, value⟩)) : Step _).run) (.andThen (.use hresolve) (.refl _ _ _)) (.refl _ _ _)
  cases retries with
  | zero => exact hsecond
  | succ retries =>
    exact .andThen (p := (publishOnce policy c value round).run) hsecond (.refl _ _ _)

/-- A policy that tries again once. -/
def twice : Policy := { onceOnly with retry := ⟨1, ⟨1⟩, ⟨1⟩⟩ }

/-- The first round of an oracle, whose submission lands after its attempt has failed. -/
theorem retries_careful_late :
    ∃ (w w' : World Unit) (T : Transcript Surroundings.interface) (calls : List (Try Unit)),
      Kept ethUsd.id ⟨ethUsd, .initial⟩ w.table w.storage ∧
      Leads (Nature.lawless.recorded ethUsd.id) (attempts twice ethUsd five 1 ⟨1⟩)
        (w, []) (.done (.ok (.ok ⟨1, five, 0⟩))) (w', T) ∧
      T.length ≤ 27 ∧
      Retried Nature.lawless twice ethUsd five 1 w calls T (.ok (.ok ⟨1, five, 0⟩)) := by
  obtain ⟨w, -, hkept, -, houtside⟩ :=
    Nature.lawless.registers (fun _ => trivial) (c := ethUsd) rfl ()
  have hlatest : Nature.lawless.feed (.latestRound ethUsd.destination) ()
      (.ok ⟨0, .zero, 0, 0, 0⟩) () := trivial
  have hreceipt : Nature.lawless.feed (.receipt ethUsd.destination ⟨[]⟩) ()
      (.ok (some ⟨⟨[]⟩, 0, true⟩)) () := trivial
  have hreaches : Reaches Nature.lawless ethUsd.id (attempts twice ethUsd five 1 ⟨1⟩)
      ⟨ethUsd, .initial⟩ () (.done (.ok (.ok ⟨1, five, 0⟩)))
      ⟨ethUsd, noted ⟨⟨[]⟩, 1, five, fiveAnswer⟩ .initial⟩ () :=
    reaches_late (r := ⟨1, fiveAnswer, 0, 0, 1⟩) (h := ⟨[]⟩) (e := .timeout "no receipt") 0 ⟨1⟩
      (fun _ => trivial) rfl rfl finds_five.encoded hlatest rfl trivial trivial rfl Nat.one_pos
      hreceipt rfl trivial
  obtain ⟨w', -, -, -, hrun⟩ := hreaches w hkept houtside
  obtain ⟨T, hnoted⟩ := hrun.noted []
  obtain ⟨hbounded, hended⟩ := retries_careful ⟨1⟩ hkept rfl
  obtain ⟨calls, hretried⟩ := hended _ _ _ hnoted
  exact ⟨w, w', T, calls, hkept, hnoted, (hbounded _ _ hnoted).1, hretried⟩

end Cycle

end PriceOracle
