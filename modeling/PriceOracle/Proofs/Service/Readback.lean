import PriceOracle.Proofs.Cycle.Answers
import PriceOracle.Proofs.Decimal.Decoding
import PriceOracle.Proofs.Program.Endings
import PriceOracle.Proofs.Service.Calls

/-!
# Reading published rounds back

A value that is not negative has an answer on every feed that the registry admits. The answer is
written in 256 bits and read back in 96.

* `read_back_iff_readable`: the round that an oracle published last can be told as a record, and the
  oracle can be aligned with its feed, if and only if the value is `Readable`. A halt of an oracle
  whose last value is not can be lifted by no resync.
* `published_eight_stays_halted`: such an oracle.
-/

namespace PriceOracle

open Attempt (Ends)
open Program (Answered Ensures Keeps Leads)
open Registry (Kept)

/-! ## Feeds that answer -/

/-- Nothing waits for ever: every request to a feed is answered, and nothing has to go on outside
before the service may. -/
structure Nature.Responsive {φ : Type} (N : Nature φ) : Prop where
  feed : Answered N.feed
  still : ∀ s, N.moves s s

/-- As long as a fact holds outside, a feed tells the same round as its latest. -/
structure Nature.Shows {φ : Type} (N : Nature φ) (d : Destination) (latest : FeedRound)
    (K : φ → Prop) : Prop where
  moved : ∀ s s', N.moves s s' → K s → K s'
  told : ∀ s reply s', N.feed (.latestRound d) s reply s' → K s → reply = .ok latest ∧ K s'

variable {φ : Type} {N : Nature φ} {id : OracleId} {c : OracleConfig} {b : Bookkeeping}
  {w : World φ} {s : φ} {K : φ → Prop} {d : Destination} {latest : FeedRound}

namespace Nature

theorem Responsive.onFeed (h : N.Responsive) : Answered N.onFeed := by
  intro r s
  obtain ⟨reply, s', hreply⟩ := h.feed r s
  exact ⟨reply, s', s', hreply, h.still s'⟩

/-- Storage always answers, be it with a failure. -/
theorem flaky_answered (mayFail : Storage.Request → Storage.Memory → Prop) :
    Answered (Storage.Memory.Flaky mayFail) := fun _ _ => ⟨_, _, .inl rfl⟩

/-- There is a reply to every quiet request. -/
theorem reply_of_quiet {r : Surroundings.Request} (hquiet : r.quiet) : Nonempty r.Reply := by
  cases r with
  | registry _ | feed _ => exact hquiet.elim
  | source r => cases r <;> exact ⟨none⟩
  | unixTime => exact ⟨(0 : UInt64)⟩
  | elapsed | delay _ _ => exact ⟨(⟨0⟩ : Duration)⟩
  | stage _ => exact ⟨Stage.idle⟩
  | slot _ => exact ⟨(0 : Slot)⟩
  | tryTake _ => exact ⟨true⟩
  | sleep _ | emit _ | enter _ _ | leave _ | take _ | release _ | forget _ => exact ⟨()⟩

theorem Responsive.answers (h : N.Responsive) : Answered N.answers := by
  intro r w
  by_cases hquiet : r.quiet
  · obtain ⟨reply⟩ := reply_of_quiet hquiet
    refine ⟨reply, w, ?_⟩
    cases r with
    | registry _ | feed _ => exact hquiet.elim
    | _ => exact rfl
  · cases r with
    | registry r =>
      obtain ⟨⟨reply, table⟩, storage, hrun⟩ :=
        (flaky_answered N.mayFail).ends (Registry.answer r w.table) w.storage
      exact ⟨reply, ⟨table, storage, w.outside⟩, hrun, rfl⟩
    | feed r =>
      obtain ⟨reply, s', hreply⟩ := h.feed r w.outside
      exact ⟨reply, { w with outside := s' }, hreply, rfl, rfl⟩
    | _ => exact absurd trivial hquiet

theorem Responsive.around (h : N.Responsive) (id : OracleId) : Answered (N.around id) := by
  intro r w
  obtain ⟨reply, w', hanswer⟩ := h.answers r w
  exact ⟨reply, w', w', hanswer, .refl _ _ _, h.still _⟩

end Nature

/-! ## What a round is read as -/

namespace Publication

variable {v : Decimal}

/-- The record of a round whose value can be read back has the value, rounded. -/
theorem toRecord_of_readable (hwidth : d.decimals ≤ Destination.maxDecimals)
    (hencoded : encode d v = .ok latest.answer) (hreadable : v.Readable d.decimals.toNat) :
    ∃ x, v.Rounds d.decimals.toNat x ∧
      toRecord d latest = .ok ⟨latest.round, x, latest.updatedAt⟩ := by
  have hfixed := toFixedPoint_of_encode hencoded
  have hwidth : d.decimals.toNat ≤ 28 := UInt32.le_iff_toNat_le.mp hwidth
  obtain ⟨x, hx, hdenotes⟩ := Decimal.ofFixedPoint_ok (a := latest.answer) hwidth
    ((Decimal.fits_iff_readable hfixed).mpr hreadable)
  refine ⟨x, ⟨_, (Decimal.roundsTo_of_toFixedPoint hfixed).2, hdenotes⟩, ?_⟩
  rw [toRecord, hx]
  rfl

/-- The failure to read an answer of more than 96 bits. -/
def unreadable (a : Uint256) : PublishError := .valueOutOfRange (NumericError.overflow a).message

theorem toRecord_of_unreadable (hencoded : encode d v = .ok latest.answer)
    (hunreadable : ¬v.Readable d.decimals.toNat) :
    toRecord d latest = .error (unreadable latest.answer) := by
  have hlong := mt (Decimal.fits_iff_readable (toFixedPoint_of_encode hencoded)).mp hunreadable
  rw [toRecord, Decimal.ofFixedPoint_overflow hlong]
  rfl

/-- The latest round is told as its record. -/
theorem keeps_latestRecord (hshows : N.Shows d latest K) (hround : latest.round ≠ 0) (hK : K s) :
    Keeps N.onFeed anyRequest (fun e s' => e = (toRecord d latest).map some ∧ K s')
      (latestRecord d).run s := by
  rw [latestRecord]
  refine Attempt.keeps_bind.mpr ⟨trivial, ?_⟩
  rintro reply s' ⟨s₁, hreply, hmoves⟩
  obtain ⟨rfl, hK₁⟩ := hshows.told s reply s₁ hreply hK
  show Keeps _ _ _ (ExceptT.run (if latest.round = 0 then _ else _)) s'
  rw [if_neg hround]
  refine Attempt.keeps_bind.mpr ?_
  cases toRecord d latest <;> exact ⟨rfl, hshows.moved _ _ hmoves hK₁⟩

end Publication

/-! ## Aligning an oracle with its feed -/

namespace Management

variable {auth : Authorization} {caller : Caller} {α : Type}

/-- The bookkeeping of an oracle remembers a round of its feed and nothing else: it is as after it
was aligned, though the value may have been kept in another written form. -/
def Matches (latest : FeedRound) (value : Option Decimal) (b b' : Bookkeeping) : Prop :=
  b' = aligned latest value ∨ b' = b ∧ (aligned latest value == b) = true

/-- Whoever is admitted makes the call. -/
theorem keeps_admitted {call : Call α} {post : Except ServiceError α → World φ → Prop}
    (hadmits : auth.admits caller = true) (h : Keeps (N.around id) anyAction post call.run w) :
    Keeps (N.around id) anyAction post (authorize auth caller >>= fun _ => call).run w := by
  refine Attempt.keeps_bind.mpr ?_
  rw [authorize, hadmits]
  exact h

/-- A call behind the lock of an oracle keeps what it keeps without it. -/
theorem keeps_locked_call {call : Call α} {J : World φ → Prop}
    {post : Except ServiceError α → World φ → Prop} (hJ : N.Unaffected id J)
    (hpost : ∀ result, N.Unaffected id (post result)) (hw : J w)
    (h : ∀ w', J w' → Keeps (N.around id) anyAction post call.run w') :
    Keeps (N.around id) anyAction post (locked id call).run w := by
  refine Program.keeps_bind.mpr (keeps_quiet (r := .slot id) trivial trivial hJ hw
    fun slot w' hw => ?_)
  refine Program.keeps_bind.mpr (keeps_quiet (r := .take slot) trivial trivial hJ hw
    fun _ w' hw => ?_)
  refine Program.keeps_bind.mpr ((h w' hw).mono fun result w' hresult => ?_)
  exact Program.keeps_bind.mpr (keeps_quiet (r := .release slot) trivial trivial (hpost result)
    hresult fun _ _ h => h)

/-- What a resync ends with on a feed that tells its latest round. -/
inductive Resynced (id : OracleId) (c : OracleConfig) (b : Bookkeeping) (latest : FeedRound)
    (K : φ → Prop) : Except ServiceError Bookkeeping → World φ → Prop where
  | aligned {value : Option Decimal} {w : World φ} :
      valueOf c.destination latest = .ok value →
      Holds id c (fun b' s => Matches latest value b b' ∧ K s) w →
      Resynced id c b latest K (.ok (Management.aligned latest value)) w
  | failed {e : PublishError} {w : World φ} : valueOf c.destination latest = .error e →
      Holds id c (fun b' s => b' = b ∧ K s) w → Resynced id c b latest K (.error (.publish e)) w

/-- A resync reads the latest round and starts the bookkeeping over at it, or fails to read it and
leaves the bookkeeping. -/
theorem keeps_resync_shown (hadmits : auth.admits caller = true)
    (hshows : N.Shows c.destination latest K) (hsturdy : ∀ r m, ¬N.mayFail r m)
    (hholds : Holds id c (fun b' s => b' = b ∧ K s) w) :
    Keeps (N.around id) anyAction (Resynced id c b latest K) (resync auth caller id).run w := by
  let P : Assertion φ := fun b' s => b' = b ∧ K s
  have hP : N.Stable P := fun _ s s' hmoves h => ⟨h.1, hshows.moved s s' hmoves h.2⟩
  have hmatches : ∀ value, N.Stable fun b' s => Matches latest value b b' ∧ K s :=
    fun _ _ s s' hmoves h => ⟨h.1, hshows.moved s s' hmoves h.2⟩
  -- What others do between the requests of the call leaves each conclusion standing.
  have hend : ∀ result, N.Unaffected id (Resynced id c b latest K result) := by
    rintro result w₁ w₂ hstirs h
    cases h with
    | aligned hvalue hholds => exact .aligned hvalue ((hmatches _).holds _ _ hstirs hholds)
    | failed hvalue hholds => exact .failed hvalue (hP.holds _ _ hstirs hholds)
  have hlatest : ∀ b' s, P b' s → Keeps N.onFeed (fun _ _ => True)
      (fun e s' => e = .ok latest ∧ P b' s') (Feed.latestRound c.destination).run s := by
    rintro b' s ⟨hb, hK⟩
    refine ⟨trivial, ?_⟩
    rintro reply s' ⟨s₁, hreply, hmoves⟩
    obtain ⟨rfl, hK₁⟩ := hshows.told s reply s₁ hreply hK
    exact ⟨rfl, hb, hshows.moved _ _ hmoves hK₁⟩
  refine keeps_admitted hadmits (keeps_locked_call hP.holds hend hholds fun w' hholds => ?_)
  refine Attempt.keeps_bind.mpr (Attempt.keeps_adapt.mpr
    (keeps_row trivial hP hholds fun b₁ w' hholds => ?_))
  have hholds : Holds id c P w' := hholds.mono fun _ _ h => h.2
  refine Attempt.keeps_bind.mpr (Attempt.keeps_adapt.mpr
    (keeps_feed (Q := fun e b' s => e = .ok latest ∧ P b' s) (fun _ _ _ => trivial) hholds hlatest
      fun e w' hholds => ?_))
  obtain ⟨b₂, hkept, rfl, hP₂⟩ := hholds
  have hholds : Holds id c P w' := ⟨b₂, hkept, hP₂⟩
  refine Attempt.keeps_bind.mpr (Attempt.keeps_adapt.mpr (Attempt.keeps_ofExcept.mpr ?_))
  cases hvalue : valueOf c.destination latest with
  | error e => exact Resynced.failed hvalue hholds
  | ok value =>
    refine Attempt.keeps_bind.mpr (Attempt.keeps_adapt.mpr ?_)
    refine keeps_revise (Q := fun _ b' s => Matches latest value b b' ∧ K s) (R := fun _ _ => False)
      trivial (fun _ => hmatches value) (fun _ _ _ _ h => h) hholds ?_ ?_ (fun _ w' hholds => ?_)
      fun _ _ h => h.elim fun _ h => h.2.elim
    · rintro b₁ b' s ⟨rfl, hK⟩ hb'
      exact ⟨hb', hK⟩
    · rintro _ _ _ ⟨m, -, hfails⟩
      exact hsturdy _ _ hfails
    · exact keeps_call_quiet (r := .emit _) trivial (hmatches value).holds hholds fun _ w' hholds =>
        Resynced.aligned hvalue hholds

theorem Matches.aligned_same {value : Option Decimal} {b' : Bookkeeping}
    (h : Matches latest value b b') : (aligned latest value).Same b' := PriceOracle.aligned_same h

end Management

open Management (Matches aligned resync)
open Publication (latestRecord unreadable)

/-- A value that is published as the latest round of a feed can be read back if and only if it still
is a decimal with as many fractional digits as the feed keeps: then the round is told as a record of
the value, rounded, and a resync aligns the oracle with it, which lifts any halt. Otherwise the
round is not told and every resync fails and leaves the bookkeeping as it was, with its halt. -/
theorem read_back_iff_readable {v : Decimal} {auth : Authorization} {caller : Management.Caller}
    (hwidth : c.destination.decimals ≤ Destination.maxDecimals)
    (hencoded : Publication.encode c.destination v = .ok latest.answer) (hround : latest.round ≠ 0)
    (hresponsive : N.Responsive) (hshows : N.Shows c.destination latest K)
    (hsturdy : ∀ r m, ¬N.mayFail r m) (hadmits : auth.admits caller = true)
    (hkept : Kept id ⟨c, b⟩ w.table w.storage) (hK : K w.outside) :
    (v.Readable c.destination.decimals.toNat →
      ∃ x, v.Rounds c.destination.decimals.toNat x ∧
        Ensures N.onFeed (fun e _ => e = .ok (some ⟨latest.round, x, latest.updatedAt⟩))
          (latestRecord c.destination).run w.outside ∧
        Ensures (N.around id) (fun result w' => result = .ok (aligned latest (some x)) ∧
          ∃ b', Kept id ⟨c, b'⟩ w'.table w'.storage ∧ Matches latest (some x) b b' ∧
            b'.lastRound = latest.round ∧ b'.halted = none) (resync auth caller id).run w) ∧
    (¬v.Readable c.destination.decimals.toNat →
      Ensures N.onFeed (fun e _ => e = .error (unreadable latest.answer))
        (latestRecord c.destination).run w.outside ∧
      Ensures (N.around id)
        (fun result w' => result = .error (.publish (unreadable latest.answer)) ∧
        Kept id ⟨c, b⟩ w'.table w'.storage) (resync auth caller id).run w) := by
  have hholds : Holds id c (fun b' s => b' = b ∧ K s) w := ⟨b, hkept, rfl, hK⟩
  have hrecord := Publication.keeps_latestRecord hshows hround hK
  have hresync := Management.keeps_resync_shown hadmits hshows hsturdy hholds
  -- Both requests read the same value, so one computation decides both clauses.
  have hvalue : Management.valueOf c.destination latest
      = (Publication.toRecord c.destination latest).map fun r => some r.answer := if_neg hround
  constructor
  · intro hreadable
    obtain ⟨x, hrounds, htold⟩ := Publication.toRecord_of_readable hwidth hencoded hreadable
    rw [htold] at hrecord hvalue
    refine ⟨x, hrounds, (hrecord.mono fun _ _ h => h.1).ensures hresponsive.onFeed,
      (hresync.mono fun result w' h => ?_).ensures (hresponsive.around id)⟩
    cases h with
    | failed htold => cases hvalue.symm.trans htold
    | aligned htold hholds =>
      obtain rfl := Except.ok.inj (hvalue.symm.trans htold)
      obtain ⟨b', hkept', hmatches, -⟩ := hholds
      have hsame := hmatches.aligned_same
      exact ⟨rfl, b', hkept', hmatches, hsame.lastRound.symm, hsame.halted.symm⟩
  · intro hunreadable
    have htold := Publication.toRecord_of_unreadable hencoded hunreadable
    rw [htold] at hrecord hvalue
    refine ⟨(hrecord.mono fun _ _ h => h.1).ensures hresponsive.onFeed,
      (hresync.mono fun result w' h => ?_).ensures (hresponsive.around id)⟩
    cases h with
    | aligned htold => cases hvalue.symm.trans htold
    | failed htold hholds =>
      obtain rfl := Except.error.inj (hvalue.symm.trans htold)
      obtain ⟨b', hkept', rfl, -⟩ := hholds
      exact ⟨rfl, hkept'⟩

/-! ## Values that can be read back and values that cannot -/

/-- A feed on which updates are mined at once, unless the node refuses them. -/
def Nature.prompt : Nature FeedRound where
  feed := fun
    | .latestRound _, s, reply, s' => reply = .ok s ∧ s' = s
    | .roundData _ n, s, reply, s' => reply = .ok (if n = s.round then some s else none) ∧ s' = s
    | .submit _ answer, s, reply, s' =>
      reply = .ok ⟨[]⟩ ∧ s' = { s with round := s.round + 1, answer := answer } ∨
        (∃ e, reply = .error e) ∧ s' = s
    | _, s, _, s' => s' = s
  moves := fun s s' => s' = s
  mayFail := fun _ _ => False

theorem Nature.prompt_responsive : Nature.prompt.Responsive where
  feed := by
    intro r s
    cases r with
    | latestRound _ | roundData _ _ => exact ⟨_, _, rfl, rfl⟩
    | submit _ _ => exact ⟨_, _, .inl ⟨rfl, rfl⟩⟩
    | receipt _ _ | isKnown _ _ | confirmation _ _ _ => exact ⟨.error (.network ""), s, rfl⟩
  still := fun _ => rfl

/-- Its latest round stays the latest until an update is sent. -/
theorem Nature.prompt_shows (d : Destination) (latest : FeedRound) :
    Nature.prompt.Shows d latest (· = latest) where
  moved := by
    rintro s s' rfl hs
    exact hs
  told := by
    rintro s reply s' ⟨rfl, rfl⟩ rfl
    exact ⟨rfl, rfl⟩

namespace Cycle

/-- The value of a document that is nothing but an eight. -/
def eight : Decimal := { Decimal.zero with coefficient := 8, coefficient_lt := by decide }

/-- `eight` with 28 decimals. -/
def eightAnswer : Uint256 := ⟨80000000000000000000000000000, by decide⟩

/-- `ethUsd` with as many decimals as the registry admits. -/
def ethUsdFine : OracleConfig :=
  { ethUsd with destination := { ethUsd.destination with decimals := 28 } }

theorem finds_eight : Finds onceOnly ethUsdFine ⟨1⟩ eight eightAnswer where
  given := mayGive_http (a := ⟨200, "8".toUTF8⟩) rfl
  valid := rfl
  encoded := rfl
  inTime := Nat.one_pos

/-- A feed whose latest round is the first, with an answer. -/
def firstRound (answer : Uint256) : FeedRound :=
  { FeedRound.empty with round := 1, answer := answer }

/-- An oracle that is due halts where the node refuses its update. -/
theorem reaches_end_refused {policy : Policy} {deadline : Duration} {value : Decimal}
    {answer : Uint256} {round : RoundId} (hmoves : ∀ s, N.moves s s) (hnamed : c.id = id)
    (hready : Ready c b) (hnext : b.nextRound = some round)
    (hfinds : Finds policy c deadline value answer) {current : FeedRound}
    (hlatest : N.feed (.latestRound c.destination) s (.ok current) s)
    (hround : current.round = b.lastRound) {e : PublishError} (hfatal : e.isRetryable = false)
    (hfits : e ≠ .overflow)
    (hrefused : N.feed (.submit c.destination answer) s (.error e) s) (now : UInt64) :
    Reaches N id (run policy id deadline) ⟨c, b⟩ s
      (.done (.ok (.publishFailed round e.message false)))
      ⟨c, afterPublishFailure now (some e.message) (counted b)⟩ s := by
  have hafter : successor? current.round = some round := by
    rw [hround]
    exact hnext
  have hattempt := (reaches_submission policy (b := counted b) hmoves hnamed hready.clear
    hfinds.encoded hlatest hafter).trans (.feed hrefused (hmoves s))
  refine reaches_run_end hmoves ((reaches_publish hmoves hready hfinds).trans ?_)
  refine .trans (reaches_publishAs hmoves hnext) ?_
  exact reaches_publish_end hmoves hattempt (reaches_failPublish_halted hmoves now hfatal hfits)

end Cycle

open PriceOracle.Cycle in
/-- `five` is read back from a feed with eight decimals, and `eight` from none with 28. -/
theorem read_back_five_not_eight :
    (∃ (w : World FeedRound) (x : Decimal), Nature.prompt.Reachable ethUsd.id w ∧
      five.Rounds 8 x ∧
      Ensures (Nature.prompt.around ethUsd.id) (fun result _ =>
        result = .ok (aligned (firstRound fiveAnswer) (some x))) (resync .anyone none ethUsd.id).run
        w) ∧
    ∃ w : World FeedRound, Nature.prompt.Reachable ethUsdFine.id w ∧
      Ensures (Nature.prompt.around ethUsdFine.id) (fun result _ =>
        result = .error (.publish (unreadable eightAnswer)))
        (resync .anyone none ethUsdFine.id).run w := by
  have hmoves : ∀ s, Nature.prompt.moves s s := fun _ => rfl
  have hadmits : Authorization.anyone.admits none = true := rfl
  constructor
  · obtain ⟨w, hregister, hkept, -, houtside⟩ :=
      Nature.prompt.registers hmoves (c := ethUsd) rfl (firstRound fiveAnswer)
    obtain ⟨x, hrounds, -, hresync⟩ := (read_back_iff_readable (by decide)
      finds_five.encoded (by decide) Nature.prompt_responsive
      (Nature.prompt_shows ethUsd.destination (firstRound fiveAnswer)) (fun _ _ h => h)
      hadmits hkept houtside).1 (by decide)
    exact ⟨w, x, ⟨_, _, .cons hregister (.nil w)⟩, hrounds,
      ⟨hresync.ends, fun a t hrun => (hresync.holds a t hrun).1⟩⟩
  · obtain ⟨w, hregister, hkept, -, houtside⟩ :=
      Nature.prompt.registers hmoves (c := ethUsdFine) rfl (firstRound eightAnswer)
    obtain ⟨-, hresync⟩ := (read_back_iff_readable (by decide) finds_eight.encoded
      (by decide) Nature.prompt_responsive
      (Nature.prompt_shows ethUsdFine.destination (firstRound eightAnswer)) (fun _ _ h => h)
      hadmits hkept houtside).2 (by decide)
    exact ⟨w, ⟨_, _, .cons hregister (.nil w)⟩,
      ⟨hresync.ends, fun a t hrun => (hresync.holds a t hrun).1⟩⟩

open PriceOracle.Cycle in
/-- An oracle published a value on an admitted feed and was halted later. No resync lifts the halt,
and its own round is not told as a record. -/
theorem published_eight_stays_halted :
    ∃ (w : World FeedRound) (b : Bookkeeping) (reason : String),
      Nature.prompt.Reachable ethUsdFine.id w ∧ Registry.check ethUsdFine = .ok () ∧
      Kept ethUsdFine.id ⟨ethUsdFine, b⟩ w.table w.storage ∧ b.halted = some reason ∧
      b.lastRound = w.outside.round ∧ b.lastRound = 1 ∧ b.lastValue = some eight ∧
      eight.isNegative = false ∧
      Publication.encode ethUsdFine.destination eight = .ok w.outside.answer ∧
      (∀ e s', Leads Nature.prompt.onFeed (latestRecord ethUsdFine.destination).run w.outside
        (.done e) s' → ∀ r, e ≠ .ok r) ∧
      ∀ auth caller result w', auth.admits caller = true →
        Leads (Nature.prompt.around ethUsdFine.id) (resync auth caller ethUsdFine.id).run w
          (.done result) w' →
        (∀ b', result ≠ .ok b') ∧ Kept ethUsdFine.id ⟨ethUsdFine, b⟩ w'.table w'.storage := by
  let N := Nature.prompt
  have hmoves : ∀ s, N.moves s s := fun _ => rfl
  obtain ⟨w₀, hregister, hkept₀, -, houtside₀⟩ := N.registers hmoves (c := ethUsdFine) rfl .empty
  let latest : FeedRound := firstRound eightAnswer
  let b₁ : Bookkeeping :=
    afterRound 0 ⟨1, eight, 0⟩ (noted ⟨⟨[]⟩, 1, eight, eightAnswer⟩ (counted .initial))
  -- The first cycle publishes.
  have hready : Ready ethUsdFine .initial := ⟨rfl, rfl, rfl⟩
  have htakes : Takes N ethUsdFine .initial eightAnswer ⟨[]⟩ .empty latest :=
    ⟨⟨.empty, rfl, rfl, rfl⟩, latest, .inl ⟨rfl, rfl⟩, rfl⟩
  have hmined : (⟨⟨[]⟩, 0, true⟩ : Receipt).success = true := rfl
  have hread : N.feed (.roundData ethUsdFine.destination 1) latest (.ok (some latest)) latest :=
    ⟨rfl, rfl⟩
  have hpublish :=
    reaches_end_published hmoves rfl hready next_initial finds_eight htakes hmined rfl
    hread rfl 0
  obtain ⟨w₁, hstep₁, hkept₁, houtside₁⟩ := step_of_reaches hpublish hkept₀ houtside₀
  -- The second one is refused.
  let e : PublishError := .unauthorized "caller is not the owner"
  have hlatest : N.feed (.latestRound ethUsdFine.destination) latest (.ok latest) latest :=
    ⟨rfl, rfl⟩
  have hrefuse :=
    reaches_end_refused (b := b₁) hmoves rfl ⟨rfl, rfl, rfl⟩ rfl finds_eight hlatest rfl
    (e := e) rfl nofun (.inr ⟨⟨e, rfl⟩, rfl⟩) 0
  obtain ⟨w₂, hstep₂, hkept₂, houtside₂⟩ := step_of_reaches hrefuse hkept₁ houtside₁
  have hreach : N.Reachable ethUsdFine.id w₂ :=
    ⟨.empty, _, .cons hregister (.cons hstep₁ (.cons hstep₂ (.nil w₂)))⟩
  have hunreadable : Publication.toRecord ethUsdFine.destination latest
      = .error (unreadable eightAnswer) :=
    Publication.toRecord_of_unreadable (v := eight) rfl (by decide)
  have hshows := Nature.prompt_shows ethUsdFine.destination latest
  refine ⟨w₂, _, e.message, hreach, rfl, hkept₂, rfl, ?_, rfl, rfl, rfl, ?_, ?_, ?_⟩
  · rw [houtside₂]
    rfl
  · rw [houtside₂]
    rfl
  · intro result s' hrun r hresult
    have htold := (Publication.keeps_latestRecord hshows (by decide) houtside₂).leads hrun
    rw [hunreadable] at htold
    cases htold.1.symm.trans hresult
  · intro auth caller result w' hadmits hrun
    have hvalue : Management.valueOf ethUsdFine.destination latest
        = .error (unreadable eightAnswer) := by
      rw [Management.valueOf, if_neg (by decide), hunreadable]
      rfl
    have hresynced := (Management.keeps_resync_shown hadmits hshows (fun _ _ h => h)
      ⟨_, hkept₂, rfl, houtside₂⟩).leads hrun
    cases hresynced with
    | aligned htold => cases hvalue.symm.trans htold
    | failed _ hholds =>
      obtain ⟨b', hkept', rfl, -⟩ := hholds
      exact ⟨nofun, hkept'⟩

end PriceOracle
