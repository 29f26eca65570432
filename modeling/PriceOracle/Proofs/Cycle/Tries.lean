import PriceOracle.Proofs.Cycle.Requests
import PriceOracle.Proofs.Oracle.Bookkeeping
import PriceOracle.Proofs.Publication.Transcripts
import PriceOracle.Proofs.Service.World

/-!
# One attempt to publish

An attempt finds the bookkeeping of its oracle, with what an earlier attempt left pending. What it
asks of the feed, and what it leaves pending, does not depend on how the feed answers or on whether
storage fails.

`Cycle.Seen` is the form of every assertion about an attempt between two requests: the bookkeeping,
on which table and storage agree, and what has been asked of feeds so far. There is one lemma for
each kind of request, and `Cycle.keeps_publishOnce_tried` for the whole.
-/

namespace PriceOracle

open Program (Keeps noting)
open Publication (Careful OnlyReads Publishes Result Submits accepted)
open Registry (Kept)

/-- A world, and what was asked so far. -/
abbrev Recording (φ : Type) := World φ × Transcript Surroundings.interface

/-- The surroundings as the cycles of an oracle see them, and what they ask for. -/
abbrev Nature.recorded {φ : Type} (N : Nature φ) (id : OracleId) :
    Behaviour Surroundings.interface (Recording φ) := Program.noted (N.around id)

/-- What is asked of a feed. -/
def Surroundings.Request.onFeed? :
    (r : Surroundings.Request) → r.Reply →
      Option ((r : Feed.interface.Request) × Feed.interface.Reply r)
  | .feed r, reply => some ⟨r, reply⟩
  | _, _ => none

namespace Cycle

/-- What was asked of feeds, with their replies. -/
def feeds (T : Transcript Surroundings.interface) : Transcript Feed.interface :=
  Transcript.picks Surroundings.Request.onFeed? T

theorem feeds_concat (T : Transcript Surroundings.interface) (r : Surroundings.Request)
    (reply : r.Reply) : feeds (T ++ [⟨r, reply⟩]) = feeds T ++ (r.onFeed? reply).toList :=
  Transcript.picks_concat _ T r reply

/-- The bookkeeping of an oracle, and what was asked of feeds so far. -/
structure Seen {φ : Type} (id : OracleId) (c : OracleConfig) (b : Bookkeeping)
    (F : Transcript Feed.interface) (x : Recording φ) : Prop where
  kept : Kept id ⟨c, b⟩ x.1.table x.1.storage
  asked : feeds x.2 = F

/-- What is pending is the round that is being published, sent by an update that was accepted. -/
def Owned (value : Decimal) (round : RoundId) (sent : List TxHash) (b : Bookkeeping) : Prop :=
  ∀ p, b.pending = some p → p.round = round ∧ p.answer = value ∧ p.txHash ∈ sent

variable {φ α : Type} {N : Nature φ} {id : OracleId} {c : OracleConfig} {b b' : Bookkeeping}
  {F : Transcript Feed.interface} {x : Recording φ} {value : Decimal} {round : RoundId}
  {sent : List TxHash} {policy : Policy}

/-! ## Requests -/

/-- Nothing is asked of the requests. -/
abbrev anyNoted : Surroundings.Request → Recording φ → Prop := fun _ _ => True

/-- A request that asks no feed. -/
theorem Seen.step {r : Surroundings.Request} {reply : r.Reply} {w : World φ}
    (h : Seen id c b F x) (hkept : Kept id ⟨c, b'⟩ w.table w.storage)
    (hr : r.onFeed? reply = none) : Seen id c b' F (w, x.2 ++ [⟨r, reply⟩]) := by
  refine ⟨hkept, ?_⟩
  rw [feeds_concat, hr, h.asked]
  exact List.append_nil F

/-- The registry tells the bookkeeping. -/
theorem seen_row {post : Except RegistryError Row → Recording φ → Prop} (h : Seen id c b F x)
    (hpost : ∀ x', Seen id c b F x' → post (.ok ⟨c, b⟩) x') :
    Keeps (N.recorded id) anyNoted post (Surroundings.row id).run x := by
  have hholds : Holds id c (fun b' _ => b' = b) x.1 := ⟨b, h.kept, rfl⟩
  refine Keeps.noted_request trivial (keeps_row trivial (fun _ _ _ _ h => h) hholds
    fun b₁ w' htold => ?_)
  obtain ⟨b', hkept, rfl, rfl⟩ := htold
  exact hpost _ (h.step hkept rfl)

/-- A change of what is pending is written, or is refused and leaves the bookkeeping. -/
theorem seen_revise {change : Bookkeeping → Bookkeeping}
    {post : Except RegistryError Bookkeeping → Recording φ → Prop} (h : Seen id c b F x)
    (hchange : (change b).pending.isSome ≠ b.pending.isSome)
    (hok : ∀ x', Seen id c (change b) F x' → post (.ok (change b)) x')
    (hfail : ∀ e x', Seen id c b F x' → post (.error e) x') :
    Keeps (N.recorded id) anyNoted post (Surroundings.revise id change).run x := by
  have hholds : Holds id c (fun b' _ => b' = b) x.1 := ⟨b, h.kept, rfl⟩
  have hexact : ∀ b₁, b₁ = b → (change b₁ == b₁) = true → change b₁ = b₁ := by
    rintro _ rfl hsame
    exact absurd (Bookkeeping.same_of_beq hsame).pending hchange
  refine Keeps.noted_request trivial (keeps_revise_exact (Q := fun b' _ => b' = change b)
    (R := fun b' _ => b' = b) trivial (fun _ _ _ _ h => h) (fun _ _ _ _ h => h) hholds
    (fun b₁ _ => hexact b₁) ?_ (fun _ _ h _ => h) ?_ ?_)
  · rintro _ _ rfl
    rfl
  · rintro _ w' ⟨b₁, hkept, rfl, rfl⟩
    exact hok _ (h.step hkept rfl)
  · rintro e w' ⟨b₁, hkept, rfl⟩
    exact hfail e _ (h.step hkept rfl)

theorem onFeed_quiet {r : Surroundings.Request} (hquiet : r.quiet) (reply : r.Reply) :
    r.onFeed? reply = none := by
  cases r with
  | feed _ => exact hquiet.elim
  | _ => rfl

/-- A request that has nothing to do with the bookkeeping. -/
theorem seen_quiet {r : Surroundings.Request} {post : r.Reply → Recording φ → Prop}
    (hquiet : r.quiet) (h : Seen id c b F x)
    (hpost : ∀ reply x', Seen id c b F x' → post reply x') :
    Keeps (N.recorded id) anyNoted post (Surroundings.ask r) x := by
  have hholds : Holds id c (fun b' _ => b' = b) x.1 := ⟨b, h.kept, rfl⟩
  have hstable : N.Stable fun b' _ => b' = b := fun _ _ _ _ h => h
  refine Keeps.noted_request trivial
    (keeps_quiet hquiet trivial hstable.holds hholds fun reply w' hleft => ?_)
  obtain ⟨b', hkept, rfl⟩ := hleft
  exact hpost reply _ (h.step hkept (onFeed_quiet hquiet reply))

/-- A use of a feed, whatever the feed answers. -/
theorem seen_feed {use : Feed.Use α} {Q : Except PublishError α → Transcript Feed.interface → Prop}
    {post : Except PublishError α → Recording φ → Prop} (h : Seen id c b F x)
    (huse : Keeps noting Publication.anyRequest Q use.run [])
    (hpost : ∀ e F' x', Q e F' → Seen id c b (F ++ F') x' → post e x') :
    Keeps (N.recorded id) anyNoted post (Surroundings.feed use) x := by
  have hthrough : Keeps (N.recorded id) anyNoted
      (fun e x' => ∃ F', Seen id c b (F ++ F') x' ∧ Q e F') (Surroundings.feed use) x := by
    refine Program.keeps_through ?_ (by rwa [List.append_nil]) huse
    rintro r F' x h -
    refine ⟨trivial, ?_⟩
    rintro reply ⟨w', T'⟩ ⟨⟨w₁, ⟨-, htable, hstorage⟩, hstirs⟩, hT'⟩
    obtain rfl : T' = x.2 ++ [⟨.feed r, reply⟩] := hT'
    have hentry : noting r F' reply (F' ++ [⟨r, reply⟩]) := rfl
    refine ⟨_, hentry, hstirs.spared.kept ?_, ?_⟩
    · rw [htable, hstorage]
      exact h.kept
    · refine (feeds_concat x.2 (.feed r) reply).trans ?_
      rw [h.asked]
      exact List.append_assoc F F' _
  refine hthrough.mono ?_
  rintro e x' ⟨F', hseen, hQ⟩
  exact hpost e F' x' hQ hseen

/-! ## The attempt -/

/-- A publication that succeeds is of the value and the round. -/
def Succeeds (value : Decimal) (round : RoundId) : Result → Prop
  | .ok (.ok r) => r.round = round ∧ r.answer = value
  | _ => True

/-- How an attempt ends: what it asked of the feed, and what it leaves pending. -/
structure Tried (c : OracleConfig) (value : Decimal) (round : RoundId) (sent : List TxHash)
    (F : Transcript Feed.interface) (asked : Transcript Feed.interface → Result → Prop)
    (result : Result) (x : Recording φ) : Prop where
  left : ∃ S b, asked S result ∧ Seen c.id c b (F ++ S) x ∧
    Owned value round (sent ++ accepted S) b
  succeeds : Succeeds value round result

/-- A value is sent with nothing pending. -/
theorem keeps_submit_tried (sent : List TxHash) (h : Seen c.id c b F x)
    (hnone : b.pending = none) :
    Keeps (N.recorded c.id) anyNoted
      (Tried c value round sent F fun S _ => Publishes c.destination value round S)
      (submit policy c value round).run x := by
  have howned : ∀ hashes, Owned value round hashes b := by
    intro hashes p hp
    rw [hnone] at hp
    cases hp
  refine Attempt.keeps_lift_bind.mpr
    (seen_feed h Publication.keeps_submitRound_submits fun e S x' hsubmits h => ?_)
  have hpublishes := hsubmits.publishes
  cases e with
  | error e => exact ⟨⟨S, b, hpublishes, h, howned _⟩, trivial⟩
  | ok s =>
    obtain ⟨hround, hvalue, haccepted⟩ := hsubmits.submission
    -- From here on what is pending is the submission just accepted.
    have hpending :
        Owned value round (sent ++ accepted S) { b with pending := some s.pending } := by
      rintro _ ⟨⟩
      exact ⟨hround, hvalue, List.mem_append_right sent haccepted⟩
    refine Attempt.keeps_bind.mpr
      (seen_revise h (by simp [hnone]) (fun x' h => ?_) fun e x' h => ?_)
    · refine Attempt.keeps_lift_bind.mpr (seen_quiet (r := .emit _) trivial h fun _ x' h => ?_)
      refine Attempt.keeps_lift.mpr
        (seen_feed h (Publication.keeps_confirmRound_reads _ s) fun e R x' hconfirms h => ?_)
      rw [List.append_assoc] at h
      refine ⟨⟨S ++ R, _, .intro hsubmits hconfirms.1, h, ?_⟩, ?_⟩
      · rwa [Publication.accepted_append, hconfirms.1.accepted_eq, List.append_nil]
      · cases e with
        | error e => exact trivial
        | ok r =>
          obtain ⟨hr, ha⟩ := hconfirms.2 r rfl
          exact ⟨hr.trans hround, ha.trans hvalue⟩
    · exact ⟨⟨S, b, hpublishes, h, howned _⟩, trivial⟩

/-- An attempt is careful with what is pending. Where an earlier attempt of the same publication
left it, what the attempt leaves is of this publication, too, and so is the round it comes to. -/
theorem keeps_publishOnce_tried (h : Seen c.id c b F x) (howned : Owned value round sent b) :
    Keeps (N.recorded c.id) anyNoted
      (Tried c value round sent F (Careful c.destination value round b.pending))
      (publishOnce policy c value round).run x := by
  refine Attempt.keeps_bind.mpr (seen_row h fun x' h => ?_)
  rw [Attempt.ends_ok]
  dsimp only
  cases hpending : b.pending with
  | none =>
    refine (keeps_submit_tried sent h hpending).mono ?_
    rintro result x' ⟨⟨S, b', hS, h, howned⟩, hsucceeds⟩
    exact ⟨⟨S, b', .fresh hS, h, howned⟩, hsucceeds⟩
  | some p =>
    refine Attempt.keeps_lift_bind.mpr
      (seen_feed h Publication.keeps_resolve_told fun e R x' htold h => ?_)
    obtain ⟨hreads, hsettles⟩ := htold
    have howned' : Owned value round (sent ++ accepted R) b := by
      rwa [hreads.accepted_eq, List.append_nil]
    cases hsettles with
    | unsettled hnot => exact ⟨⟨R, b, .unsettled hnot hreads, h, howned'⟩, trivial⟩
    | landed hlanded hround hanswer =>
      obtain ⟨hr, ha, -⟩ := howned p hpending
      exact ⟨⟨R, b, .landed hlanded hreads, h, howned'⟩, hround.trans hr, hanswer.trans ha⟩
    | gone hgone =>
      -- What is gone is dropped and the same value sent afresh, after the reads of before.
      have hdropped : ∀ x', Seen c.id c { b with pending := none } (F ++ R) x' →
          Keeps (N.recorded c.id) anyNoted
            (Tried c value round sent F (Careful c.destination value round (some p)))
            (submit policy c value round).run x' := by
        refine fun x' h => (keeps_submit_tried sent h rfl).mono ?_
        rintro result x' ⟨⟨S, b', hS, h, howned⟩, hsucceeds⟩
        rw [List.append_assoc] at h
        refine ⟨⟨R ++ S, b', .again hgone hreads hS, h, ?_⟩, hsucceeds⟩
        rwa [Publication.accepted_append, hreads.accepted_eq, List.nil_append]
      refine Attempt.keeps_bind.mpr (Attempt.keeps_bind.mpr
        (seen_revise h (by simp [hpending]) (fun x' h => hdropped x' h) fun e x' h => ?_))
      refine ⟨⟨R, b, ?_, h, howned'⟩, trivial⟩
      simpa using Careful.again hgone hreads Publication.publishes_nil

/-! ## How much is asked -/

theorem within_feed {use : Feed.Use α} {n : Nat} (h : use.run.Within n) :
    (Surroundings.feed use).Within n := h.through fun _ _ => trivial

theorem within_submit : (submit policy c value round).run.Within 7 := by
  rw [submit]
  refine Attempt.within_bind (m := 2) (n := 5)
    (Attempt.within_lift (within_feed Publication.within_submitRound)) fun e => ?_
  cases e with
  | error e => exact trivial
  | ok s =>
    refine Attempt.within_bind (m := 1) (n := 4) (fun _ => trivial) fun _ => ?_
    refine Attempt.within_bind (m := 1) (n := 3) (fun _ => trivial) fun _ => ?_
    exact Attempt.within_lift (within_feed (Publication.within_confirmRound _ s))

theorem within_publishOnce : (publishOnce policy c value round).run.Within 12 := by
  rw [publishOnce]
  refine Attempt.within_bind (m := 1) (n := 11) (fun _ => trivial) fun r => ?_
  cases r.bookkeeping.pending with
  | none => exact within_submit.mono (by decide)
  | some p =>
    refine Attempt.within_bind (m := 3) (n := 8)
      (Attempt.within_lift (within_feed Publication.within_resolve)) fun e => ?_
    rcases e with e | _ | r
    · exact trivial
    · refine Attempt.within_bind (m := 1) (n := 7) ?_ fun _ => within_submit
      exact Attempt.within_bind (m := 1) (n := 0) (fun _ => trivial) fun _ => trivial
    · exact trivial

end Cycle

end PriceOracle
