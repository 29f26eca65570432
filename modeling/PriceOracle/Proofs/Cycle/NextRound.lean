import PriceOracle.Node.PriceFeed
import PriceOracle.Proofs.Cycle.Rounds
import PriceOracle.Proofs.Decimal.Decoding
import PriceOracle.Proofs.Node.Checked
import PriceOracle.Proofs.Publication.Transcripts

/-!
# The round after the last

Rounds are counted in 64 bits, and the round after another is computed in two places: what an oracle
publishes next, from its bookkeeping, and whether a feed is at the round before, from what it tells.
That no round is published twice rests on both being one more as natural numbers. So they are,
wherever they come out: nothing is sent for a round that does not follow the one of the feed. But a
feed may be at the last round that there is. Both then come to nothing, and an oracle that was
aligned with such a feed breaks off every cycle that finds a value.

* `Node.PriceFeed.run_roundOf_iff`: a round of a node is told as it is if it has 64 bits, so that
  the last one is told as well.
* `Publication.keeps_submitRound_sentAfter`: a value is sent only when its feed told the round
  before. `Publication.keeps_submitRound_overflow`: it breaks off exactly after the last one.
* `next_round_exact_iff`: the same of an oracle in a service, where `Nature.heard` remembers what
  its feed told last. `cycle_overflows_after_last` is what happens after the last round.
-/

namespace PriceOracle

open Program (Keeps Leads noting)
open Registry (Kept)

/-! ## Counting rounds -/

namespace RoundId

/-- A round is one more than another, as natural numbers. -/
def Follows (r next : RoundId) : Prop := next.toNat = r.toNat + 1

/-- There is no round after a round. -/
def IsLast (r : RoundId) : Prop := r.toNat + 1 = 2 ^ 64

instance {r : RoundId} : Decidable (IsLast r) := inferInstanceAs (Decidable (_ = _))

end RoundId

open RoundId (Follows IsLast)

/-! ## Rounds of a node -/

namespace Node.PriceFeed

variable {known : Known}

theorem run_narrow (what : String) (n : Nat) : run (narrow what n) known =
    .done (if n < 2 ^ 64 then .ok (UInt64.ofNat n)
      else .error (.invalidDestination s!"{what} {n} exceeds u64"), known) := by
  unfold narrow
  split <;> rfl

/-- A round is told by its number exactly if it has 64 bits, and so has the one it was answered
in. -/
theorem run_roundOf_iff (words : Abi.RoundWords) (known : Known) (r : RoundId) :
    (∃ f, run (roundOf words) known = .done (.ok f, known) ∧ f.round = r) ↔
      words.round = r.toNat ∧ words.answeredIn < 2 ^ 64 := by
  rw [roundOf, run_bind, run_narrow]
  by_cases hround : words.round < 2 ^ 64
  · rw [if_pos hround]
    show (∃ f, run (narrow _ _ >>= _) known = _ ∧ _) ↔ _
    rw [run_bind, run_narrow]
    by_cases hin : words.answeredIn < 2 ^ 64
    · rw [if_pos hin]
      constructor
      · rintro ⟨f, hrun, rfl⟩
        cases hrun
        exact ⟨(UInt64.toNat_ofNat_of_lt' hround).symm, hin⟩
      · rintro ⟨heq, -⟩
        exact ⟨_, rfl, by rw [heq, UInt64.ofNat_toNat]⟩
    · rw [if_neg hin]
      refine iff_of_false ?_ fun h => hin h.2
      rintro ⟨f, hrun, -⟩
      cases hrun
  · rw [if_neg hround]
    refine iff_of_false ?_ fun h => hround (h.1 ▸ r.toNat_lt)
    rintro ⟨f, hrun, -⟩
    cases hrun

end Node.PriceFeed

/-! ## Submissions -/

namespace Publication

variable {σ : Type} {B : Behaviour Feed.interface σ} {told : Destination → FeedRound → σ → Prop}
  {s : σ} {d : Destination} {value : Decimal} {round : RoundId} {next : Option RoundId}

/-- A value is sent as a round only when its feed has told the one before. -/
def SentAfter (told : Destination → FeedRound → σ → Prop) (d : Destination)
    (next : Option RoundId) : Feed.Request → σ → Prop
  | .submit d' _, s => d' = d ∧ next.isSome ∧ ∃ current, told d current s ∧
      successor? current.round = next
  | _, _ => True

theorem sentAfter_of_reads {r : Feed.Request} (h : r.reads) (s : σ) :
    SentAfter told d next r s := by
  cases r with
  | submit _ _ => exact h.elim
  | _ => exact trivial

theorem keeps_submitRound_sentAfter
    (htold : ∀ {d s current t}, B (.latestRound d) s (.ok current) t → told d current t) :
    Keeps B (SentAfter told d (some round)) (fun _ _ => True)
      (submitRound d value round).run s := by
  rw [submitRound]
  refine Attempt.keeps_bind.mpr ?_
  cases encode d value with
  | error e => exact trivial
  | ok answer =>
    refine Attempt.keeps_bind.mpr ⟨trivial, fun reply t hreply => ?_⟩
    cases reply with
    | error e => exact trivial
    | ok current =>
      refine Attempt.keeps_bind.mpr ?_
      cases hcheck : checkNext current.round round with
      | error e => exact trivial
      | ok _ =>
        have hsent : SentAfter told d (some round) (.submit d answer) t :=
          ⟨rfl, rfl, current, htold hreply, checkNext_eq_ok.mp hcheck⟩
        refine Attempt.keeps_bind.mpr ⟨hsent, fun reply t _ => ?_⟩
        cases reply <;> exact trivial

/-- The last that was asked of a feed is its latest round, and this was told. -/
def JustTold (d : Destination) (current : FeedRound) (F : Transcript Feed.interface) : Prop :=
  F.getLast? = some ⟨.latestRound d, .ok current⟩

/-- What was told last is the last of a transcript. -/
theorem justTold_concat {current : FeedRound} {F : Transcript Feed.interface}
    {r : Feed.Request} {reply : r.Reply} :
    JustTold d current (F ++ [⟨r, reply⟩]) ↔
      (⟨r, reply⟩ : Σ r : Feed.Request, r.Reply) = ⟨.latestRound d, .ok current⟩ := by
  rw [JustTold, List.getLast?_concat, Option.some_inj]
  rfl

/-- After a round was told, nothing but the last one makes a submission break off. -/
theorem keeps_submitRound_overflow (d : Destination) (value : Decimal) (round : RoundId) :
    Keeps noting anyRequest (fun e F => ∀ current, JustTold d current F →
      (e = .error .overflow ↔ IsLast current.round)) (submitRound d value round).run [] := by
  rw [submitRound]
  refine Attempt.keeps_bind.mpr ?_
  cases encode d value with
  | error e => exact fun _ htold => by cases htold
  | ok answer =>
    refine Attempt.keeps_bind.mpr ⟨trivial, ?_⟩
    rintro reply _ rfl
    cases reply with
    | error e => exact fun _ htold => by cases justTold_concat.mp htold
    | ok current =>
      refine Attempt.keeps_bind.mpr ?_
      cases hcheck : checkNext current.round round with
      | error e =>
        intro current' htold
        cases justTold_concat.mp htold
        exact (checkNext_overflow_iff hcheck).trans successor_eq_none
      | ok _ =>
        -- From here on the last that was asked is the submission.
        refine Attempt.keeps_bind.mpr ⟨trivial, ?_⟩
        rintro reply _ rfl
        cases reply <;> exact fun _ htold => by cases justTold_concat.mp htold

end Publication

open Publication (JustTold SentAfter)

/-! ## An oracle in a service -/

/-- What a feed told last. -/
abbrev Heard := Option (Destination × FeedRound)

/-- The latest round is heard until something is sent. -/
def Heard.after (heard : Heard) : (r : Feed.Request) → r.Reply → Heard
  | .latestRound d, .ok current => some (d, current)
  | .submit _ _, _ => none
  | _, _ => heard

/-- A nature with the latest round that was told for an oracle since it sent anything. -/
def Nature.heard {φ : Type} (N : Nature φ) : Nature (φ × Heard) where
  feed := fun r x reply x' => N.feed r x.1 reply x'.1 ∧ x'.2 = x.2.after r reply
  moves := fun x x' => N.moves x.1 x'.1 ∧ x'.2 = x.2
  mayFail := N.mayFail

variable {φ : Type} {N : Nature φ} {id : OracleId} {c : OracleConfig} {d : Destination}
  {n : RoundId}

/-- The latest round of a feed was told last. -/
def HasHeard (d : Destination) (current : FeedRound) (x : φ × Heard) : Prop :=
  x.2 = some (d, current)

theorem hasHeard_of_onFeed {current : FeedRound} {x x' : φ × Heard}
    (h : N.heard.onFeed (.latestRound d) x (.ok current) x') : HasHeard d current x' := by
  obtain ⟨x₁, ⟨-, htold⟩, -, hsame⟩ := h
  exact hsame.trans htold

/-- The outline of a cycle that sends only when its feed told the last round. -/
def nextRoundOutline (N : Nature φ) (id : OracleId) (c : OracleConfig) (depth : UInt64)
    (n : RoundId) : Outline N.heard id c depth where
  permit := SentAfter HasHeard c.destination (successor? n)
  asserts
    | .recorded _, _, _ => True
    | _, b, _ => b.lastRound = n
  between := fun _ _ => True
  within := fun _ _ => trivial
  stable := fun phase _ _ _ _ h => by cases phase <;> exact h
  ledger := fun {phase _ _ _} hsame h => by
    cases phase <;> first | exact trivial | exact hsame.lastRound.trans h
  submit := fun value hnext _ h => by
    subst h
    rw [show successor? _ = some _ from hnext]
    exact (Publication.keeps_submitRound_sentAfter hasHeard_of_onFeed).mono
      fun e _ _ => by cases e <;> rfl
  confirm := fun x _ _ h =>
    ((Publication.keeps_confirmRound .any depth c.destination x).allowing
      fun _ _ hreads => Publication.sentAfter_of_reads hreads _).mono
      fun e _ _ => by cases e <;> exact h
  resolve := fun _ _ h =>
    ((Publication.keeps_resolve .any fun _ _ => trivial).allowing
      fun _ _ hreads => Publication.sentAfter_of_reads hreads _).mono
      fun e _ _ => by rcases e with _ | _ | _ <;> exact h
  note := fun h => h
  lose := fun _ h _ => h
  drop := fun h => h
  keepGone := fun h => h
  record := fun _ _ => trivial
  keepConfirmed := fun h => h

variable {w w' : World (φ × Heard)} {answer : Uint256}

/-- A cycle sends when the feed told the round before the oracle's next one. -/
theorem sentAfter_of_asks (hreach : N.heard.Reachable id w)
    (hasks : N.heard.Asks id w (.submit d answer) w') :
    ∃ row, w.table.row? id = some row ∧
      SentAfter HasHeard row.config.destination row.bookkeeping.nextRound (.submit d answer)
        w'.outside := by
  cases hreach.inStep with
  | @present row hkept hstep =>
    obtain ⟨c, b⟩ := row
    have hkeeps (policy : Cycle.Policy) (deadline : Duration) : Keeps (N.heard.around id)
        (Surroundings.Request.permitted (SentAfter HasHeard c.destination b.nextRound))
        (fun _ _ => True) (Cycle.run policy id deadline) w := by
      have hrest : Holds id c ((nextRoundOutline N id c policy.depth b.lastRound).Rest b.nextRound)
          w := by
        refine ⟨b, hkept, rfl, ?_, ?_⟩
        · cases hpending : b.pending with
          | none => exact hpending
          | some p => exact ⟨hpending, hstep _ p rfl hpending⟩
        · cases b.pending <;> rfl
      exact (Outline.keeps_run hrest deadline).mono fun _ _ _ => trivial
    exact ⟨⟨c, b⟩, hkept.inTable, permit_of_asks hkeeps hasks⟩
  | missing hnone hunlisted hstep =>
    -- Without a row no feed is asked for anything.
    have hstands : Stands id InStep w := .missing hnone hunlisted hstep
    have hkeeps (policy : Cycle.Policy) (deadline : Duration) : Keeps (N.heard.around id)
        (Surroundings.Request.permitted fun _ _ => False) (fun _ _ => True)
        (Cycle.run policy id deadline) w :=
      ((keeps_run_standing (fun _ _ => False) settled_inStep hstands hnone).allowing
        fun _ _ h => h.1).mono fun _ _ _ => trivial
    exact (permit_of_asks hkeeps hasks).elim

/-- The last round of an oracle is the one that its feed told last. -/
def Aligned : Standing (φ × Heard) := fun o x =>
  ∃ row current, o = some row ∧ HasHeard row.config.destination current x ∧
    row.bookkeeping.lastRound = current.round

theorem aligned_of_resync {b : Bookkeeping} (hreach : N.heard.Reachable id w)
    (hstep : N.heard.Step id w (.resynced (.ok b)) w') : Stands id Aligned w' := by
  have haligned : N.heard.Settled Aligned := by
    rintro o x x' ⟨-, hsame⟩ ⟨row, current, ho, hheard, hlast⟩
    exact ⟨row, current, ho, hsame.trans hheard, hlast⟩
  cases hstep with
  | resync auth caller hrun =>
    exact (keeps_resync (Q := Aligned) (T := HasHeard) settled_inStep haligned
      (fun d latest x x' hmoves h => hmoves.2.trans h) hreach.inStep
      (fun row x x' reply h hreply => ⟨h, fun latest hlatest => by
        rw [HasHeard, hreply.2, hlatest]
        rfl⟩)
      (fun row b latest value x _ htold hsame => ⟨_, latest, rfl, htold, hsame.lastRound.symm⟩)
      ).leads hrun

/-- The round after another is one more as natural numbers wherever it can be computed, and it can
be for every round but the last one that there is. That is so for every round of a node, all of
which are told that have 64 bits; where a value is sent as a round, which happens only right after
the feed told the one before, and breaks off exactly after the feed told the last; for an oracle
that was aligned with its feed, which has the round that was told; and in a cycle, which sends only
as a round that is greater than the oracle's own last one. -/
theorem next_round_exact_iff (hreach : N.heard.Reachable id w) :
    (∀ words known r, (∃ f, Node.run (Node.PriceFeed.roundOf words) known = .done (.ok f, known) ∧
        f.round = r) ↔ words.round = r.toNat ∧ words.answeredIn < 2 ^ 64) ∧
    (∀ d value round d' answer next F,
      Leads noting (Publication.submitRound d value round).run [] (.ask (.submit d' answer) next)
        F → d' = d ∧ ∃ current, JustTold d current F ∧ Follows current.round round) ∧
    (∀ d value round e F current,
      Leads noting (Publication.submitRound d value round).run [] (.done e) F →
        JustTold d current F → (e = .error .overflow ↔ IsLast current.round)) ∧
    (∀ b w', N.heard.Step id w (.resynced (.ok b)) w' →
      ∃ row current, w'.table.row? id = some row ∧
        HasHeard row.config.destination current w'.outside ∧
        row.bookkeeping.lastRound = current.round ∧
        (∀ next, row.bookkeeping.nextRound = some next ↔ Follows current.round next) ∧
        (row.bookkeeping.nextRound = none ↔ IsLast current.round)) ∧
    ∀ d answer w', N.heard.Asks id w (.submit d answer) w' →
      ∃ row current round, w.table.row? id = some row ∧ d = row.config.destination ∧
        HasHeard d current w'.outside ∧ current.round = row.bookkeeping.lastRound ∧
        row.bookkeeping.nextRound = some round ∧ Follows row.bookkeeping.lastRound round ∧
        row.bookkeeping.lastRound < round := by
  refine ⟨Node.PriceFeed.run_roundOf_iff, ?_, ?_, ?_, ?_⟩
  · intro d value round d' answer next F hrun
    have hkeeps : Keeps noting (SentAfter JustTold d (some round)) (fun _ _ => True)
        (Publication.submitRound d value round).run [] := by
      -- The round read last is the one the check is made against, as nothing is asked between.
      refine Publication.keeps_submitRound_sentAfter ?_
      rintro d F current _ rfl
      exact Publication.justTold_concat.mpr rfl
    obtain ⟨rfl, -, current, htold, hnext⟩ := (hkeeps.leads hrun).1
    exact ⟨rfl, current, htold, successor_eq_some.mp hnext⟩
  · intro d value round e F current hrun htold
    exact (Publication.keeps_submitRound_overflow d value round).leads hrun current htold
  · intro b w' hstep
    cases aligned_of_resync hreach hstep with
    | @present row hkept haligned =>
      obtain ⟨row, current, ⟨⟩, htold, hlast⟩ := haligned
      refine ⟨row, current, hkept.inTable, htold, hlast, fun next => ?_, ?_⟩
      · rw [Bookkeeping.nextRound, hlast]
        exact successor_eq_some
      · rw [Bookkeeping.nextRound, hlast]
        exact successor_eq_none
    | missing _ _ haligned =>
      obtain ⟨_, _, ⟨⟩, -⟩ := haligned
  · intro d answer w' hasks
    obtain ⟨row, hrow, rfl, hsome, current, htold, hcurrent⟩ := sentAfter_of_asks hreach hasks
    obtain ⟨round, hnext⟩ := Option.isSome_iff_exists.mp hsome
    -- The round both are the successor of is one, the successor being injective.
    have hlast : current.round = row.bookkeeping.lastRound := successor_injective hcurrent
    exact ⟨row, current, round, hrow, rfl, htold, hlast, hnext, successor_eq_some.mp hnext,
      lt_of_successor hnext⟩

/-! ## At the last round -/

open PriceOracle.Cycle in
/-- `ethUsd` may be aligned with a feed that tells any round. -/
theorem resyncs_at (round : RoundId) (hround : round ≠ 0) :
    ∃ (w w' : World (Unit × Heard)) (b : Bookkeeping), Nature.lawless.heard.Reachable ethUsd.id w ∧
      Nature.lawless.heard.Step ethUsd.id w (.resynced (.ok b)) w' ∧ b.lastRound = round ∧
      Ready ethUsd b ∧ Kept ethUsd.id ⟨ethUsd, b⟩ w'.table w'.storage ∧
      w'.outside = ((), some (ethUsd.destination, ⟨round, fiveAnswer, 0, 0, round⟩)) := by
  let N : Nature (Unit × Heard) := Nature.lawless.heard
  let latest : FeedRound := ⟨round, fiveAnswer, 0, 0, round⟩
  let s : Unit × Heard := ((), some (ethUsd.destination, latest))
  have hmoves : ∀ s, N.moves s s := fun _ => ⟨trivial, rfl⟩
  obtain ⟨w, hregister, hkept, -, houtside⟩ := N.registers hmoves (c := ethUsd) rfl s
  have hlatest : N.feed (.latestRound ethUsd.destination) s (.ok latest) s := ⟨trivial, rfl⟩
  obtain ⟨value, hvalue⟩ : ∃ value, Management.valueOf ethUsd.destination latest = .ok value := by
    obtain ⟨x, hdecoded, -⟩ :=
      @Decimal.ofFixedPoint_ok ethUsd.destination.decimals fiveAnswer (by decide) (by decide)
    rw [Management.valueOf, if_neg hround, Publication.toRecord, hdecoded]
    exact ⟨_, rfl⟩
  have hchanged : (Management.aligned latest value == Bookkeeping.initial) = false := by
    cases hsame : Management.aligned latest value == Bookkeeping.initial with
    | false => rfl
    | true => exact absurd (Bookkeeping.same_of_beq hsame).lastRound hround
  obtain ⟨w', hkept', houtside', -, hrun⟩ :=
    reaches_resync hmoves hlatest hvalue hchanged w hkept houtside
  exact ⟨w, w', _, ⟨s, _, .cons hregister (.nil w)⟩, .resync .anyone none hrun, rfl,
    ⟨rfl, rfl, rfl⟩, hkept', houtside'⟩

open PriceOracle.Cycle in
/-- The round after one of the many. -/
theorem next_round_after_41 :
    ∃ (w w' : World (Unit × Heard)) (row : Row) (current : FeedRound) (round : RoundId),
      Nature.lawless.heard.Reachable ethUsd.id w ∧
      Nature.lawless.heard.Asks ethUsd.id w (.submit ethUsd.destination fiveAnswer) w' ∧
      w.table.row? ethUsd.id = some row ∧ HasHeard ethUsd.destination current w'.outside ∧
      current.round = row.bookkeeping.lastRound ∧ row.bookkeeping.lastRound = 41 ∧
      row.bookkeeping.nextRound = some round ∧ round.toNat = 42 := by
  obtain ⟨w₀, w, b, hreach, hresync, hround, hready, hkept, houtside⟩ := resyncs_at 41 (by decide)
  have hreach' := hreach.run (.cons hresync (.nil w))
  have hmoves : ∀ s, Nature.lawless.heard.moves s s := fun _ => ⟨trivial, rfl⟩
  have hlatest : Nature.lawless.heard.feed (.latestRound ethUsd.destination) w.outside
      (.ok ⟨41, fiveAnswer, 0, 0, 41⟩) w.outside := by
    rw [houtside]
    exact ⟨trivial, rfl⟩
  have hnext : b.nextRound = some 42 := by
    rw [Bookkeeping.nextRound, hround]
    rfl
  obtain ⟨w', hasks, -⟩ := asks_submit hmoves hready hnext finds_five hlatest hround.symm hkept
  obtain ⟨row, current, round, hrow, -, hheard, hsame, hnext', hfollows, -⟩ :=
    (next_round_exact_iff hreach').2.2.2.2 _ _ _ hasks
  obtain rfl := Option.some.inj (hkept.inTable.symm.trans hrow)
  have hafter : round.toNat = 42 := by
    rw [Follows, hround] at hfollows
    exact hfollows
  exact ⟨w, w', _, current, round, hreach', hasks, hrow, hheard, hsame, hround, hnext', hafter⟩

open PriceOracle.Cycle in
/-- An oracle that is aligned with a feed at the last round there is has no next round, and its
cycle breaks off; and so does the submission of any round to the feed. -/
theorem cycle_overflows_after_last :
    ∃ (w w' w'' : World (Unit × Heard)) (b : Bookkeeping),
      Nature.lawless.heard.Reachable ethUsd.id w ∧
      Nature.lawless.heard.Step ethUsd.id w (.resynced (.ok b)) w' ∧ IsLast b.lastRound ∧
      b.nextRound = none ∧
      Nature.lawless.heard.Step ethUsd.id w' (.cycled (.ok .overflowed)) w'' ∧
      ∃ (current : FeedRound) (F : Transcript Feed.interface), IsLast current.round ∧
        Leads noting (Publication.submitRound ethUsd.destination five 0).run []
          (.done (.error .overflow)) F ∧ JustTold ethUsd.destination current F := by
  obtain ⟨w, w', b, hreach, hresync, hround, hready, hkept, -⟩ :=
    resyncs_at 18446744073709551615 (by decide)
  have hlast : IsLast b.lastRound := by
    rw [hround]
    decide
  have hnone : b.nextRound = none := successor_eq_none.mpr hlast
  obtain ⟨w'', hcycle, -⟩ := step_of_reaches (N := Nature.lawless.heard)
    (reaches_end_overflowed (fun _ => ⟨trivial, rfl⟩) hready hnone finds_five) hkept rfl
  let current : FeedRound := ⟨18446744073709551615, fiveAnswer, 0, 0, 18446744073709551615⟩
  have hrun : Leads noting (Publication.submitRound ethUsd.destination five 0).run []
      (.done (.error .overflow)) [⟨.latestRound ethUsd.destination, .ok current⟩] := by
    rw [Publication.submitRound, finds_five.encoded]
    have htold : noting (I := Feed.interface) (.latestRound ethUsd.destination) [] (.ok current)
        [⟨.latestRound ethUsd.destination, .ok current⟩] := rfl
    exact .ask htold (.here _ _)
  exact ⟨w, w', w'', b, hreach, hresync, hlast, hnone, hcycle, current, _, by decide, hrun, rfl⟩

end PriceOracle
