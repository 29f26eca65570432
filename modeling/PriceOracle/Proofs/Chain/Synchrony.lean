import PriceOracle.Proofs.Chain.Cycles
import PriceOracle.Proofs.Chain.Paths

/-!
# Feed and bookkeeping stay in step

An oracle that alone writes to its feed, whose storage takes every write, never has two of its
transactions in flight, and after each cycle its last round is the latest round of the feed, or the
one before it while the transaction that wrote the latest is still pending.

An oracle decides from its bookkeeping which round to publish, and looks at its feed only to find
out that it was wrong. So the bookkeeping must not fall behind by more than what is pending, and
this is what the invariant says. `InStepWithFeed` is kept by cycles, whenever transactions settle
and reads fail, and by restarts.
-/

namespace PriceOracle

open Chain (Moves nature)
open Program (Keeps Leads)
open Registry (Kept Listed)
open Surroundings.Request (permitted)

variable {key : FeedKey} {shared : Prop} {mayFail : Storage.Request → Storage.Memory → Prop}
  {id : OracleId} {s s' : Chain} {w w' : World Chain}

namespace Chain

theorem AtMostOneInFlight.moves (h : s.AtMostOneInFlight) (hmoves : Moves shared s s') :
    s'.AtMostOneInFlight := by
  intro g g' hg hg'
  exact h g g' (hmoves.inFlight hg) (hmoves.inFlight hg')

/-- Sending the one transaction leaves at most one in flight. -/
theorem atMostOne_of_sends {answer : Uint256} {reply : Except PublishError TxHash}
    (hnone : ∀ h, ¬s.InFlight h) (hsends : s.Sends answer reply s') : s'.AtMostOneInFlight := by
  cases reply with
  | error _ =>
    obtain rfl : s' = s := hsends
    intro g _ hg
    exact absurd hg (hnone g)
  | ok h =>
    obtain ⟨-, rfl⟩ := hsends
    have hsent : ∀ g, (s.put h ⟨answer, .inFlight⟩).InFlight g → g = h := by
      intro g hg
      by_contra hne
      exact hnone g ((fate_put_of_ne s _ hne).symm.trans hg)
    intro g g' hg hg'
    rw [hsent g hg, hsent g' hg']

end Chain

/-- The latest round of a feed is the last round, or the next where a pending submission wrote
it. -/
def Bookkeeping.Follows (b : Bookkeeping) (s : Chain) : Prop :=
  s.latest = b.lastRound.toNat ∨ s.latest = b.lastRound.toNat + 1 ∧
    ∃ p, b.pending = some p ∧ s.fate? p.txHash = some (.mined s.latest)

/-- An oracle follows its feed. -/
def World.Follows (w : World Chain) (id : OracleId) : Prop :=
  ∃ row, w.table.row? id = some row ∧ row.bookkeeping.Follows w.outside

/-- An oracle that never sent anything to its feed, at whose latest round it is. -/
structure World.Starts (w : World Chain) (key : FeedKey) (id : OracleId) : Prop where
  row : ∃ row, Kept id row w.table w.storage ∧ row.config.destination.key = key ∧
    row.bookkeeping.pending = none ∧ w.outside.latest = row.bookkeeping.lastRound.toNat
  listed : Listed id w.table w.storage
  nothingSent : ∀ h, ¬w.outside.InFlight h

/-- Where no write fails, every transaction of one's own feed can be watched. -/
theorem sound_of_writes (id : OracleId) (hwrites : ∀ k v m, ¬mayFail (.set k v) m) :
    (Watch.all key True).Sound False mayFail id :=
  Watch.sound_all (fun _ => not_false) fun _ _ _ _ ⟨m, _, hfails⟩ => hwrites _ _ m hfails

/-- Feed and bookkeeping are in step, and at most one transaction is in flight. -/
structure InStepWithFeed (key : FeedKey) (id : OracleId) (w : World Chain) : Prop where
  row : ∃ row, Kept id row w.table w.storage ∧
    (Watch.all key True).Rests (fun c => c.destination.key = key) (some row) w.outside
  listed : Listed id w.table w.storage
  atMostOne : w.outside.AtMostOneInFlight

namespace InStepWithFeed

theorem of_starts (h : w.Starts key id) : InStepWithFeed key id w := by
  obtain ⟨⟨⟨c, b⟩, hkept, hkey, hpending, hlatest⟩, hlisted, hnothing⟩ := h
  refine ⟨⟨⟨c, b⟩, hkept, ?_⟩, hlisted, fun g _ hg => absurd hg (hnothing g)⟩
  refine Watch.rests_of_clear hkey hpending ⟨nofun, fun _ => ⟨.inl ?_, fun _ => hlatest⟩⟩
  intro g _ hg
  exact absurd hg (hnothing g)

theorem follows (h : InStepWithFeed key id w) : w.Follows id := by
  obtain ⟨row, hkept, hkey, -, -, hfact⟩ := h.row
  refine ⟨row, hkept.inTable, ?_⟩
  cases hpending : row.bookkeeping.pending with
  | none =>
    rw [hpending] at hfact
    exact .inl ((hfact hkey).2 trivial)
  | some p =>
    rw [hpending] at hfact
    rcases (hfact hkey).2 trivial with ⟨hlatest, -⟩ | ⟨hlatest, hfate⟩
    · exact .inl hlatest
    · exact .inr ⟨hlatest, p, hpending, hfate⟩

/-- What a request of a cycle leaves of the order, and of what is in flight. -/
theorem always {r : Surroundings.Request} {reply : r.Reply}
    (hpermit : r.permitted (Watch.all key True).permit w)
    (h : Listed id w.table w.storage ∧ w.outside.AtMostOneInFlight)
    (hreply : (nature key False mayFail).around id r w reply w') :
    Listed id w'.table w'.storage ∧ w'.outside.AtMostOneInFlight := by
  refine ⟨listed_of_permitted hpermit h.1 hreply, ?_⟩
  obtain ⟨w₁, hanswer, hstirs⟩ := hreply
  refine Chain.AtMostOneInFlight.moves ?_ hstirs.moved
  cases r with
  | registry r =>
    rw [hanswer.2]
    exact h.2
  | feed r =>
    cases r with
    | submit d answer =>
      -- A submission to the feed is asked for only where nothing is in flight.
      obtain ⟨⟨hown, hother⟩, -, -⟩ := hanswer
      by_cases hkey : d.key = key
      · exact Chain.atMostOne_of_sends (fun g => hpermit hkey g trivial) (hown hkey)
      · rw [hother hkey]
        exact h.2
    | _ =>
      obtain ⟨⟨-, hsame⟩, -, -⟩ := hanswer
      rw [hsame]
      exact h.2
  | _ =>
    obtain rfl := hanswer
    exact h.2

theorem keeps_cycle (hwrites : ∀ k v m, ¬mayFail (.set k v) m) (h : InStepWithFeed key id w)
    (policy : Cycle.Policy) (deadline : Duration) :
    Keeps ((nature key False mayFail).around id)
      (fun r w => r.permitted (Watch.all key True).permit w ∧
        Listed id w.table w.storage ∧ w.outside.AtMostOneInFlight)
      (fun _ w' => InStepWithFeed key id w') (Cycle.run policy id deadline) w := by
  obtain ⟨⟨⟨c, b⟩, hkept, hrests⟩, hlisted, hone⟩ := h
  have hcycle := Watch.keeps_cycle_of_kept policy deadline (sound_of_writes id hwrites) hkept hrests
  refine (hcycle.always ⟨hlisted, hone⟩ fun r w reply w' => always).mono ?_
  rintro _ w' ⟨⟨b', hkept', hrests'⟩, hlisted, hone⟩
  exact ⟨⟨⟨c, b'⟩, hkept', hrests'⟩, hlisted, hone⟩

/-- Cycles, restarts and whatever does not concern the oracle keep the two in step. -/
theorem step {h : Happening} (hwrites : ∀ k v m, ¬mayFail (.set k v) m)
    (hstep : (nature key False mayFail).Step id w h w') (hcall : ¬h.IsCall)
    (hw : InStepWithFeed key id w) : InStepWithFeed key id w' := by
  have hsettled : (nature key False mayFail).Settled
      ((Watch.all key True).Rests fun c => c.destination.key = key) :=
    Watch.settled_rests (sound_of_writes id hwrites)
  cases hstep with
  | cycle policy deadline hrun => exact (hw.keeps_cycle hwrites policy deadline).leads hrun
  | restart hload hmoves =>
    -- The row survives, since the oracle is listed in storage.
    obtain ⟨⟨row, hkept, hrests⟩, hlisted, hone⟩ := hw
    obtain ⟨hkept', hlisted'⟩ := hlisted.restart hkept hload
    exact ⟨⟨row, hkept', hsettled _ _ _ hmoves hrests⟩, hlisted', hone.moves hmoves⟩
  | elsewhere hstirs =>
    obtain ⟨⟨row, hkept, hrests⟩, hlisted, hone⟩ := hw
    exact ⟨⟨row, hstirs.spared.kept hkept, hsettled _ _ _ hstirs.moved hrests⟩,
      hstirs.spared.listed hlisted, hone.moves hstirs.moved⟩
  | register | update | remove | resync => exact absurd trivial hcall

end InStepWithFeed

/-- What is left of a cycle when at most one transaction is in flight. -/
theorem atMostOne_of_keeps {α : Type} {N : Nature Chain}
    {allow : Surroundings.Request → World Chain → Prop} {post : α → World Chain → Prop}
    {q : Surroundings.Action α}
    (h : Keeps (N.around id) (fun r w => allow r w ∧ Listed id w.table w.storage ∧
      w.outside.AtMostOneInFlight) post q w)
    (hpost : ∀ a w, post a w → w.outside.AtMostOneInFlight) : w.outside.AtMostOneInFlight := by
  cases q with
  | done a => exact hpost a w h
  | ask r next => exact h.1.2.2

/-- However cycles, restarts and the chain interleave, whichever reads fail and whenever
transactions are mined, reverted or dropped: at no moment of a cycle or between cycles are two
transactions in flight, and wherever a cycle ends the oracle follows its feed. -/
theorem cycles_follow_feed {hs : List Happening} (hwrites : ∀ k v m, ¬mayFail (.set k v) m)
    (hstart : w.Starts key id) (hrun : (nature key False mayFail).Run id w hs w')
    (hcalls : ∀ h ∈ hs, ¬h.IsCall) :
    w'.outside.AtMostOneInFlight ∧ w'.Follows id ∧
      ∀ policy deadline q w'',
        Leads ((nature key False mayFail).around id) (Cycle.run policy id deadline) w' q w'' →
          w''.outside.AtMostOneInFlight ∧ ∀ outcome, q = .done outcome → w''.Follows id := by
  have hsync := hrun.keeps_of hcalls
    (fun _ _ _ hstep hcall hw => InStepWithFeed.step hwrites hstep hcall hw) (.of_starts hstart)
  refine ⟨hsync.atMostOne, hsync.follows, ?_⟩
  intro policy deadline q w'' hleads
  have hleft := (hsync.keeps_cycle hwrites policy deadline).leads hleads
  constructor
  · exact atMostOne_of_keeps hleft fun _ _ h => h.atMostOne
  · rintro outcome rfl
    exact InStepWithFeed.follows hleft

open PriceOracle.Cycle in
/-- The first round of an oracle on its own feed, mined before the oracle waits for it. -/
theorem cycles_follow_feed_first :
    ∃ (w w' : World Chain) (r : RoundRecord), w.Starts ethUsd.destination.key ethUsd.id ∧
      (nature ethUsd.destination.key False fun _ _ => False).Run ethUsd.id w
        [.cycled (.ok (.published r))] w' ∧
      w'.outside.latest = 1 ∧ w'.outside.AtMostOneInFlight ∧ w'.Follows ethUsd.id := by
  let empty : Chain := ⟨[], fun _ => none⟩
  let mined : Chain := empty.sentAndMined ⟨[]⟩ fiveAnswer
  let N : Nature Chain := nature ethUsd.destination.key False fun _ _ => False
  obtain ⟨w, -, hkept, hlisted, houtside⟩ := N.registers Chain.nature_moves (c := ethUsd) rfl empty
  have hstart : w.Starts ethUsd.destination.key ethUsd.id := by
    refine ⟨⟨_, hkept, rfl, rfl, ?_⟩, hlisted, fun h hflight => ?_⟩
    · rw [houtside]
      rfl
    · rw [houtside] at hflight
      cases hflight
  have htakes : Takes N ethUsd .initial fiveAnswer ⟨[]⟩ empty mined :=
    Chain.takes rfl rfl rfl Chain.moves_mined
  have hmined : mined.Mined ⟨[]⟩ := ⟨1, rfl⟩
  have hread : N.feed (.roundData ethUsd.destination 1) mined (.ok (some ⟨1, fiveAnswer, 0, 0, 1⟩))
      mined := ⟨fun _ => ⟨Nat.one_pos, rfl, rfl⟩, rfl⟩
  obtain ⟨w', -, houtside', -, hrun⟩ := reaches_end_published Chain.nature_moves rfl ready_initial
    next_initial finds_five htakes rfl (Chain.may_confirm hmined) hread rfl 0 w hkept houtside
  have hsteps := Nature.Run.cons (.cycle onceOnly ⟨1⟩ hrun) (.nil w')
  obtain ⟨hone, hfollows, -⟩ := cycles_follow_feed (fun _ _ _ h => h) hstart hsteps fun h hmem => by
    obtain rfl := List.mem_singleton.mp hmem
    exact not_false
  exact ⟨w, w', _, hstart, hsteps, congrArg Chain.latest houtside', hone, hfollows⟩

end PriceOracle
