import PriceOracle.Proofs.Chain.Blocks
import PriceOracle.Proofs.Cycle.Rounds

/-!
# How deep a published round lies

A publication is confirmed when its transaction lies under the configured number of blocks. A
submission that was not confirmed in time is settled later from its receipt alone, however deep it
lies. So a published round lies as deep as was waited for, or as receipts are told from, whichever
is less (`deepens_min`), and the configured depth is honoured only where receipts are not told
before (`depth_honoured_iff`). A node tells them from the first block on.

What carries this is `Placed`: what is pending was sent for the next round, so that its transaction
wrote that round or a later one.
-/

namespace PriceOracle

open Attempt (Ends)
open Blocks (Chains nature later_of_feed read_of_onFeed)
open Program (Keeps Leads)
open Registry (Kept)

variable {least : Nat} {mayFail : Storage.Request → Storage.Memory → Prop} {id : OracleId}
  {c : OracleConfig} {d : Destination} {b : Bookkeeping} {s t : Chains} {w w' : World Chains}
  {n : RoundId} {k : Nat}

/-! ## Publications -/

namespace Publication

/-- A submission stays the one that was sent for its round, whatever feeds are asked for. -/
theorem keeps_carrying {α : Type} {p : Program Feed.interface α} {post : α → Chains → Prop}
    {key : FeedKey} {h : TxHash} {m : Nat}
    (hkeeps : Keeps (nature least mayFail).onFeed anyRequest post p s)
    (hcarries : (s key).Carries h m) :
    Keeps (nature least mayFail).onFeed anyRequest (fun a s' => post a s' ∧ (s' key).Carries h m)
      p s := by
  refine (hkeeps.always hcarries ?_).allowing fun _ _ _ => trivial
  rintro r s reply s' - hcarries ⟨s₁, hfeed, hmoves⟩
  exact (hmoves key).carries ((later_of_feed hfeed key).carries hcarries)

/-- A submission is for the round after the latest at most. -/
theorem keeps_submitRound_carried (value : Decimal) (round : RoundId) :
    Keeps (nature least mayFail).onFeed anyRequest
      (Ends (fun x s' => (s' d.key).Carries x.txHash x.round.toNat) fun _ _ => True)
      (submitRound d value round).run s := by
  rw [submitRound]
  refine Attempt.keeps_bind.mpr ?_
  cases encode d value with
  | error e => exact trivial
  | ok answer =>
    refine Attempt.keeps_bind.mpr ⟨trivial, fun reply s' hreply => ?_⟩
    obtain ⟨htruthful, hlater⟩ := read_of_onFeed (r := .latestRound d) trivial hreply
    cases reply with
    | error e => exact trivial
    | ok current =>
      refine Attempt.keeps_bind.mpr ?_
      cases hcheck : checkNext current.round round with
      | error e => exact trivial
      | ok _ =>
        refine Attempt.keeps_bind.mpr ⟨trivial, ?_⟩
        rintro reply s'' ⟨s₁, ⟨hanswers, -⟩, hmoves⟩
        cases reply with
        | error e => exact trivial
        | ok h =>
          -- The transaction is in flight before anything else happens to the feed.
          obtain ⟨-, -, hrounds, hfates⟩ := hanswers
          refine (hmoves d.key).carries (.of_inFlight ?_ ?_)
          · exact (congrFun hfates h).trans (Function.update_self _ _ _)
          · have hle := (hlater d.key).latest_le
            have hcurrent : current.round.toNat = (s d.key).latest := htruthful
            have hnext := successor_eq_some.mp (checkNext_eq_ok.mp hcheck)
            have hsame : (s₁ d.key).latest = (s' d.key).latest := congrArg List.length hrounds
            show round.toNat ≤ (s₁ d.key).latest + 1
            omega

/-- A round that is read back lies as deep as the transaction that was sent for it. -/
theorem keeps_readBack_buried (x : Submission) (hcarries : (s d.key).Carries x.txHash x.round.toNat)
    (hsettled : (s d.key).Settled x.txHash k) :
    Keeps (nature least mayFail).onFeed anyRequest
      (Ends (fun r s' => (s' d.key).Buried r.round.toNat k) fun _ _ => True)
      (readBack d x).run s := by
  rw [readBack]
  refine Attempt.keeps_bind.mpr ⟨trivial, fun reply s' hreply => ?_⟩
  obtain ⟨htruthful, hlater⟩ := read_of_onFeed (r := .roundData d x.round) trivial hreply
  rcases reply with e | _ | r
  · exact trivial
  · exact trivial
  · show Keeps _ _ _ (ExceptT.run (if _ then _ else _)) s'
    split
    · exact Attempt.keeps_bind.mpr ⟨trivial, fun reply _ _ => by cases reply <;> exact trivial⟩
    · obtain ⟨-, block, hround⟩ := htruthful
      exact (hlater d.key).buried (hcarries.buried hsettled hround)

/-- What waiting for a submission gives lies under as many blocks as were waited for. -/
theorem keeps_confirmRound_buried (depth : UInt64) (x : Submission)
    (hcarries : (s d.key).Carries x.txHash x.round.toNat) :
    Keeps (nature least mayFail).onFeed anyRequest
      (Ends (fun r s' => (s' d.key).Buried r.round.toNat depth.toNat) fun _ _ => True)
      (confirmRound depth d x).run s := by
  rw [confirmRound]
  refine Attempt.keeps_bind.mpr ⟨trivial, fun reply s' hreply => ?_⟩
  obtain ⟨htruthful, hlater⟩ := read_of_onFeed (r := .confirmation d x.txHash depth) trivial hreply
  cases reply with
  | error e => exact trivial
  | ok receipt =>
    show Keeps _ _ _ (ExceptT.run (if _ then _ else _)) s'
    split
    · exact trivial
    next hsuccess =>
      refine keeps_readBack_buried x ((hlater d.key).carries hcarries)
        ((hlater d.key).settles (htruthful.settled ?_))
      simpa using hsuccess

/-- What settles a submission from its receipt lies as deep as receipts are told from. -/
theorem keeps_resolve_buried (p : Pending)
    (hcarries : (s d.key).Carries p.txHash p.round.toNat) :
    Keeps (nature least mayFail).onFeed anyRequest
      (Ends (fun o s' => ∀ r, o = some r → (s' d.key).Buried r.round.toNat least) fun _ _ => True)
      (resolve d p).run s := by
  rw [resolve]
  refine Attempt.keeps_bind.mpr ?_
  cases encode d p.answer with
  | error e => exact trivial
  | ok answer =>
    refine Attempt.keeps_bind.mpr ⟨trivial, fun reply s' hreply => ?_⟩
    obtain ⟨htruthful, hlater⟩ := read_of_onFeed (r := .receipt d p.txHash) trivial hreply
    rcases reply with e | _ | receipt
    · exact trivial
    · -- Without a receipt no round comes of it.
      refine ((keeps_resolveUnmined .any d p).allowing fun _ _ _ => trivial).mono fun e _ h => ?_
      cases e with
      | error e => exact trivial
      | ok o =>
        obtain rfl : o = none := h
        intro r hr
        cases hr
    · show Keeps _ _ _ (ExceptT.run (if _ then _ else _)) s'
      split
      next hsuccess =>
        refine Attempt.keeps_bind.mpr ((keeps_readBack_buried ⟨p.txHash, p.round, p.answer, answer⟩
          ((hlater d.key).carries hcarries)
          ((hlater d.key).settles (htruthful.settled hsuccess))).mono fun e _ h => ?_)
        cases e with
        | error e => exact trivial
        | ok r =>
          rintro _ ⟨⟩
          exact h
      · intro r hr
        cases hr

end Publication

/-! ## Cycles -/

/-- The outline of a cycle that finds some last round. A round that is recorded lies deep enough for
one of the two ways to confirm it. -/
def depthOutline (least : Nat) (mayFail : Storage.Request → Storage.Memory → Prop) (id : OracleId)
    (c : OracleConfig) (depth : UInt64) (n : RoundId) :
    Outline (nature least mayFail) id c depth where
  permit := Publication.anyRequest
  asserts
    | .recorded r, _, s => (s c.destination.key).Buried r.round.toNat (min depth.toNat least)
    | .clear, b, _ => b.lastRound = n
    | .sent x, b, s => b.lastRound = n ∧ (s c.destination.key).Carries x.txHash x.round.toNat
    | .held p, b, s | .gone p, b, s =>
      b.lastRound = n ∧ (s c.destination.key).Carries p.txHash p.round.toNat
    | .confirmed p r, b, s =>
      b.lastRound = n ∧ (s c.destination.key).Carries p.txHash p.round.toNat ∧
        (s c.destination.key).Buried r.round.toNat (min depth.toNat least)
  between := fun b s => b.lastRound ≠ n →
    (s c.destination.key).Buried b.lastRound.toNat (min depth.toNat least)
  within := by
    intro phase b s hfits h
    cases phase with
    | recorded r =>
      intro _
      rw [hfits.2.1]
      exact h
    | clear => exact fun hne => absurd h hne
    | sent _ | held _ | gone _ | confirmed _ _ => exact fun hne => absurd h.1 hne
  stable := by
    intro phase b s s' hmoves h
    have hlater := hmoves c.destination.key
    cases phase with
    | clear => exact h
    | sent _ | held _ | gone _ => exact ⟨h.1, hlater.carries h.2⟩
    | confirmed _ _ => exact ⟨h.1, hlater.carries h.2.1, hlater.buried h.2.2⟩
    | recorded _ => exact hlater.buried h
  ledger := by
    intro phase b b' s hsame h
    cases phase with
    | clear => exact hsame.lastRound.trans h
    | sent _ | held _ | gone _ | confirmed _ _ => exact ⟨hsame.lastRound.trans h.1, h.2⟩
    | recorded _ => exact h
  submit := by
    intro b s round value _ _ h
    refine (Publication.keeps_submitRound_carried value round).mono fun e s' hends => ?_
    cases e with
    | error _ => exact h
    | ok x => exact ⟨h, hends⟩
  confirm := by
    intro b s x _ _ h
    refine (Publication.keeps_carrying (Publication.keeps_confirmRound_buried depth x h.2)
      h.2).mono fun e s' hends => ?_
    cases e with
    | error _ => exact ⟨h.1, hends.2⟩
    | ok r => exact ⟨h.1, hends.2, hends.1.mono (Nat.min_le_left _ _)⟩
  resolve := by
    intro b s p _ _ h
    refine (Publication.keeps_carrying (Publication.keeps_resolve_buried p h.2)
      h.2).mono fun e s' hends => ?_
    rcases e with _ | _ | r
    · exact ⟨h.1, hends.2⟩
    · exact ⟨h.1, hends.2⟩
    · exact ⟨h.1, hends.2, (hends.1 r rfl).mono (Nat.min_le_right _ _)⟩
  note := fun h => h
  lose := fun _ h _ => h.1
  drop := fun h => h.1
  keepGone := fun h => h
  record := fun _ h => h.2.2
  keepConfirmed := fun h => ⟨h.1, h.2.1⟩

/-- What is pending was sent to the feed of the oracle for its round. -/
def SentFor : Standing Chains
  | some row, s => ∀ p, row.bookkeeping.pending = some p →
    (s row.config.destination.key).Carries p.txHash p.round.toNat
  | none, _ => True

/-- What is pending is for the next round, and was sent for it. -/
def Placed : Standing Chains := fun o s => InStep o s ∧ SentFor o s

theorem settled_placed : (nature least mayFail).Settled Placed := by
  rintro o s s' hmoves ⟨hstep, hsent⟩
  refine ⟨hstep, ?_⟩
  cases o with
  | none => exact trivial
  | some row => exact fun p hpending => (hmoves _).carries (hsent p hpending)

theorem placed_of_clear {row : Row} (h : row.bookkeeping.pending = none) : Placed (some row) s := by
  refine ⟨inStep_of_clear h, fun p hpending => ?_⟩
  rw [h] at hpending
  cases hpending

/-- What holds between cycles is where their outline starts. -/
theorem rest_of_placed {policy : Cycle.Policy} (h : Placed (some ⟨c, b⟩) s) :
    (depthOutline least mayFail id c policy.depth b.lastRound).Rest b.nextRound b s := by
  refine ⟨rfl, ?_, ?_⟩
  · cases hpending : b.pending with
    | none => exact hpending
    | some p => exact ⟨hpending, h.1 _ p rfl hpending⟩
  · cases hpending : b.pending with
    | none => exact rfl
    | some p => exact ⟨rfl, h.2 p hpending⟩

/-- And where it ends. -/
theorem placed_of_end {policy : Cycle.Policy} {next : Option RoundId}
    {e : Except RegistryError Outcome}
    (h : (depthOutline least mayFail id c policy.depth n).End next e b s) :
    Placed (some ⟨c, b⟩) s := by
  unfold Outline.End at h
  cases hpublished : Cycle.published? e with
  | some r =>
    rw [hpublished] at h
    exact placed_of_clear h.2.1.1
  | none =>
    rw [hpublished] at h
    obtain ⟨-, hfits, hfact⟩ := h
    cases hpending : b.pending with
    | none => exact placed_of_clear hpending
    | some p =>
      rw [hpending] at hfits hfact
      constructor
      · rintro _ p' ⟨⟩ hpending'
        obtain rfl := Option.some.inj (hpending.symm.trans hpending')
        exact hfits.2
      · intro p' hpending'
        obtain rfl := Option.some.inj (hpending.symm.trans hpending')
        exact hfact.2

theorem keeps_cycle_placed (policy : Cycle.Policy) (deadline : Duration)
    (h : Stands id Placed w) :
    Keeps ((nature least mayFail).around id) (fun _ _ => True) (fun _ w' => Stands id Placed w')
      (Cycle.run policy id deadline) w := by
  cases h with
  | @present row hkept hplaced =>
    obtain ⟨c, b⟩ := row
    have hrest : Holds id c ((depthOutline least mayFail id c policy.depth b.lastRound).Rest
        b.nextRound) w := ⟨b, hkept, rest_of_placed hplaced⟩
    refine ((Outline.keeps_run hrest deadline).allowing fun _ _ _ => trivial).mono ?_
    rintro e w' ⟨b', hkept', hend⟩
    exact .present hkept' (placed_of_end hend)
  | missing hnone hunlisted hplaced =>
    have hmissing : Keeps ((nature least mayFail).around id) _ _ (Cycle.run policy id deadline) w :=
      keeps_run_standing (fun _ _ => True) settled_placed (.missing hnone hunlisted hplaced) hnone
    exact (hmissing.allowing fun _ _ _ => trivial).mono fun _ _ h => h.1

/-- Every step keeps what is pending placed. -/
theorem step_placed {h : Happening} (hstep : (nature least mayFail).Step id w h w')
    (hstands : Stands id Placed w) : Stands id Placed w' := by
  have hsettled : (nature least mayFail).Settled Placed := settled_placed
  have hcall (hcall : h.IsCall) (hreset : ¬h.Resets) : Stands id Placed w' := by
    refine hstep.stands_of_call hcall hreset hsettled (fun row s s' reply hplaced hfeed => ?_)
      (fun row c s hsame hplaced => ?_) hstands
    · exact ⟨hplaced.1, fun p hpending =>
        (later_of_feed hfeed _).carries (hplaced.2 p hpending)⟩
    · refine ⟨?_, fun p hpending => ?_⟩
      · rintro _ p ⟨⟩ hpending
        exact hplaced.1 row p rfl hpending
      · rw [← hsame]
        exact hplaced.2 p hpending
  have hreset (hreset : h.Resets) : Stands id Placed w' :=
    hstep.stands_of_reset (T := fun _ _ _ => True) hreset hsettled (fun _ _ _ _ _ h => h)
      (fun s => ⟨inStep_missing s, trivial⟩) (fun c s => placed_of_clear rfl)
      (fun _ _ _ _ _ => trivial)
      (fun c b latest value s _ hsame => placed_of_clear
        (Option.not_isSome_iff_eq_none.mp (by rw [← hsame.pending]; nofun))) hstands
  by_cases hstarted : h.Resets
  · exact hreset hstarted
  · cases hstep with
    | cycle policy deadline hrun => exact (keeps_cycle_placed policy deadline hstands).leads hrun
    | register | update | remove | resync => exact hcall trivial hstarted
    | restart hload hmoves =>
      exact hstands.restart hsettled (fun o s _ => ⟨inStep_missing s, trivial⟩) hload hmoves
    | elsewhere hstirs => exact hsettled.stands _ _ hstirs hstands

theorem reachable_placed (h : (nature least mayFail).Reachable id w) : Stands id Placed w := by
  obtain ⟨outside, past, hpast⟩ := h
  exact hpast.keeps (fun _ _ _ hstep => step_placed hstep)
    (.fresh ⟨inStep_missing outside, trivial⟩)

/-! ## Depths -/

/-- Cycles that wait for a number of blocks publish rounds that lie under some number of blocks at
least. A round is as deep already when a cycle asks for it to be written down as the last. -/
def Deepens (least : Nat) (depth : UInt64) (k : Nat) : Prop :=
  ∀ mayFail id w row policy deadline, (nature least mayFail).Reachable id w →
    w.table.row? id = some row → policy.depth = depth →
    (∀ change next w', Leads ((nature least mayFail).around id) (Cycle.run policy id deadline) w
        (.ask (.registry (.revise id change)) next) w' →
      ∀ row', w'.table.row? id = some row' →
        (change row'.bookkeeping).lastRound ≠ row.bookkeeping.lastRound →
        (w'.outside row.config.destination.key).Buried
          (change row'.bookkeeping).lastRound.toNat k) ∧
    ∀ r w', Leads ((nature least mayFail).around id) (Cycle.run policy id deadline) w
        (.done (.ok (.published r))) w' →
      (w'.outside row.config.destination.key).Buried r.round.toNat k

/-- What holds at every request of a cycle does not depend on what feeds are asked. -/
theorem between_of_feed {depth : UInt64} {r : Feed.Request} {reply : r.Reply} {s s' : Chains}
    (h : (depthOutline least mayFail id c depth n).between b s)
    (hfeed : (nature least mayFail).feed r s reply s') :
    (depthOutline least mayFail id c depth n).between b s' := fun hne =>
  (later_of_feed hfeed _).buried (h hne)

theorem stable_between {depth : UInt64} :
    (nature least mayFail).Stable (depthOutline least mayFail id c depth n).between :=
  fun _ _ _ hmoves h hne => (hmoves _).buried (h hne)

theorem deepens_min (least : Nat) (depth : UInt64) :
    Deepens least depth (min depth.toNat least) := by
  rintro mayFail id w ⟨c, b⟩ policy deadline hreach hrow rfl
  have hplaced : Placed (some ⟨c, b⟩) w.outside ∧ Kept id ⟨c, b⟩ w.table w.storage := by
    cases reachable_placed hreach with
    | present hkept hplaced =>
      obtain rfl := Option.some.inj (hkept.inTable.symm.trans hrow)
      exact ⟨hplaced, hkept⟩
    | missing hnone _ _ =>
      rw [hnone] at hrow
      cases hrow
  have hrest : Holds id c ((depthOutline least mayFail id c policy.depth b.lastRound).Rest
      b.nextRound) w := ⟨b, hplaced.2, rest_of_placed hplaced.1⟩
  constructor
  · intro change next w' hrun row' hrow' hne
    obtain ⟨-, hpermits⟩ := ((Outline.permits_run hrest deadline).leads hrun).1
    obtain ⟨b', hkept', -⟩ := ((Outline.keeps_between stable_between between_of_feed hrest
      deadline).leads hrun).1
    obtain rfl := Option.some.inj (hkept'.inTable.symm.trans hrow')
    exact hpermits b' hkept' hne
  · intro r w' hrun
    obtain ⟨_, -, hrecorded⟩ := (Outline.keeps_run hrest deadline).leads hrun
    exact hrecorded.2.2

/-! ## A round that is settled from its receipt -/

namespace Blocks

/-- A feed without rounds, on a chain of one block. -/
def genesis : Blocks := ⟨0, [], fun _ => none, .nil, nofun⟩

/-- The feed after a transaction was sent. -/
def sent (h : TxHash) : Blocks :=
  { genesis with fates := Function.update genesis.fates h (some .inFlight) }

/-- The feed after it was mined in that block, with a number of blocks on the chain. -/
def mined (h : TxHash) (answer : Uint256) (k : Nat) : Blocks where
  head := k - 1
  rounds := [(answer, 0)]
  fates := Function.update genesis.fates h (some (.mined 1))
  ordered := List.pairwise_singleton _ _
  below := by simp

variable {h : TxHash} {answer : Uint256} {k : Nat}

theorem fate_sent {h' : TxHash} {f : Fate} (hfate : (sent h).fates h' = some f) :
    h' = h ∧ f = .inFlight := by
  have hupdate : Function.update (fun _ => none) h (some Fate.inFlight) h' = some f := hfate
  rw [Function.update_apply] at hupdate
  split at hupdate
  next heq => exact ⟨heq, (Option.some.inj hupdate).symm⟩
  · cases hupdate

theorem sent_later : (sent h).Later (mined h answer k) where
  head := Nat.zero_le _
  rounds := List.nil_prefix
  settled := fun hfate hf => absurd (fate_sent hfate).2 hf
  inFlight := by
    intro h' hfate
    obtain ⟨rfl, -⟩ := fate_sent hfate
    refine ⟨.mined 1, Function.update_self _ _ _, ?_⟩
    rintro _ ⟨⟩
    exact Nat.one_pos

theorem shows_mined (hk : 0 < k) : (mined h answer k).Shows h k ⟨h, 0, true⟩ := by
  refine ⟨1, answer, Function.update_self _ _ _, rfl, ?_⟩
  show 0 + k ≤ k - 1 + 1
  omega

/-- It lies under those blocks and no more. -/
theorem buried_mined (hk : 0 < k) {m : Nat} (hburied : (mined h answer k).Buried 1 m) : m ≤ k := by
  obtain ⟨_, block, hround, hdeep⟩ := hburied
  cases hround
  have hdeep : 0 + m ≤ k - 1 + 1 := hdeep
  omega

end Blocks

open PriceOracle.Cycle in
/-- An oracle that waits for a number of blocks may publish a round that lies no deeper than
receipts are told from: its transaction is mined, the wait for more blocks fails, and the next cycle
finds the receipt. -/
theorem shallow_round (hleast : 0 < least) (depth : UInt64) :
    ∃ (w w' : World Chains) (row : Row) (policy : Policy) (r : RoundRecord),
      (nature least mayFail).Reachable ethUsd.id w ∧ w.table.row? ethUsd.id = some row ∧
      policy.depth = depth ∧
      Leads ((nature least mayFail).around ethUsd.id) (Cycle.run policy ethUsd.id ⟨1⟩) w
        (.done (.ok (.published r))) w' ∧
      ∀ k, (w'.outside row.config.destination.key).Buried r.round.toNat k → k ≤ least := by
  let N : Nature Chains := nature least mayFail
  let key : FeedKey := ethUsd.destination.key
  let policy : Policy := { onceOnly with depth := depth }
  let x : Submission := ⟨⟨[]⟩, 1, five, fiveAnswer⟩
  let s₀ : Chains := fun _ => .genesis
  let s₁ : Chains := Function.update s₀ key (.sent x.txHash)
  let s₂ : Chains := Function.update s₀ key (.mined x.txHash fiveAnswer least)
  have hmoves : ∀ s, N.moves s s := fun s key => .refl _
  have hs₁ : s₁ key = .sent x.txHash := Function.update_self _ _ _
  have hs₂ : s₂ key = .mined x.txHash fiveAnswer least := Function.update_self _ _ _
  have hsettles : N.moves s₁ s₂ := by
    intro key'
    by_cases hkey : key' = key
    · rw [hkey, hs₁, hs₂]
      exact Blocks.sent_later
    · simp only [s₁, s₂, Function.update_of_ne hkey]
      exact .refl _
  -- The first cycle submits, and does not see the transaction deep enough.
  obtain ⟨w₀, hregister, hkept₀, -, houtside₀⟩ := N.registers hmoves (c := ethUsd) rfl s₀
  have htakes : Takes N ethUsd .initial fiveAnswer x.txHash s₀ s₂ := by
    refine ⟨⟨⟨0, .zero, 0, 0, 0⟩, rfl, ⟨rfl, rfl⟩, fun _ _ => rfl⟩, s₁, ⟨?_, ?_⟩, hsettles⟩
    · show (s₀ key).Answers least (.submit ethUsd.destination fiveAnswer) (.ok x.txHash) (s₁ key)
      rw [hs₁]
      exact ⟨rfl, rfl, rfl, rfl⟩
    · exact fun key' hkey => Function.update_of_ne hkey _ _
  have hfinds : Finds policy ethUsd ⟨1⟩ five fiveAnswer :=
    ⟨finds_five.given, finds_five.valid, finds_five.encoded, finds_five.inTime⟩
  have hwait : N.feed (.confirmation ethUsd.destination x.txHash depth) s₂
      (.error (.unconfirmed x.txHash.text s!"no {depth} confirmations after 60s")) s₂ :=
    ⟨⟨trivial, rfl⟩, fun _ _ => rfl⟩
  obtain ⟨w₁, hfirst, hkept₁, houtside₁⟩ := step_of_reaches (reaches_end_unconfirmed hmoves rfl
    ready_initial next_initial hfinds htakes rfl hwait 0) hkept₀ houtside₀
  -- The second one finds its receipt.
  have hreceipt : N.onFeed (.receipt ethUsd.destination x.txHash) s₂
      (.ok (some ⟨x.txHash, 0, true⟩)) s₂ := by
    refine ⟨s₂, ⟨⟨?_, rfl⟩, fun _ _ => rfl⟩, hmoves s₂⟩
    show (s₂ key).Shows x.txHash least ⟨x.txHash, 0, true⟩
    rw [hs₂]
    exact Blocks.shows_mined hleast
  have hround : N.onFeed (.roundData ethUsd.destination 1) s₂
      (.ok (some ⟨1, fiveAnswer, 0, 0, 1⟩)) s₂ := by
    refine ⟨s₂, ⟨⟨⟨rfl, 0, ?_⟩, rfl⟩, fun _ _ => rfl⟩, hmoves s₂⟩
    show (s₂ key).round? 1 = some (fiveAnswer, 0)
    rw [hs₂]
    rfl
  have hresolve := Publication.leads_resolve (p := x.pending) finds_five.encoded hreceipt rfl
    hround rfl
  let b : Bookkeeping := afterPublishFailure 0 none (noted x (counted .initial))
  have hsecond : Reaches N ethUsd.id (run policy ethUsd.id ⟨1⟩) ⟨ethUsd, b⟩ s₂
      (.done (.ok (.published ⟨1, five, 0⟩))) ⟨ethUsd, afterRound 0 ⟨1, five, 0⟩ b⟩ s₂ := by
    refine reaches_end_settled policy hmoves rfl rfl Nat.one_pos hresolve ?_ 0
    show (1 : RoundId) ≠ 0
    decide
  obtain ⟨w₂, hkept₂, houtside₂, -, hrun⟩ := hsecond w₁ hkept₁ houtside₁
  refine ⟨w₁, w₂, _, policy, _, ⟨s₀, _, .cons hregister (.cons hfirst (.nil w₁))⟩, hkept₁.inTable,
    rfl, hrun, fun k hburied => ?_⟩
  rw [houtside₂] at hburied
  have hburied : (s₂ key).Buried 1 k := hburied
  rw [hs₂] at hburied
  exact Blocks.buried_mined hleast hburied

/-- Cycles publish rounds that lie as deep as they wait for, or as receipts are told from, whichever
is less. So the configured depth is honoured if and only if receipts are not told before; where they
are told from the first block on, it is honoured for no depth but one. -/
theorem depth_honoured_iff (hleast : 0 < least) (depth : UInt64) :
    Deepens least depth (min depth.toNat least) ∧
      (Deepens least depth depth.toNat ↔ depth.toNat ≤ least) := by
  refine ⟨deepens_min least depth, fun hdeepens => ?_, fun hle => ?_⟩
  · obtain ⟨w, w', row, policy, r, hreach, hrow, hdepth, hrun, hshallow⟩ :=
      shallow_round hleast depth
    have hhonours := hdeepens (fun _ _ => False) _ w row policy ⟨1⟩ hreach hrow hdepth
    exact hshallow _ (hhonours.2 r w' hrun)
  · have hmin := deepens_min least depth
    rwa [Nat.min_eq_left hle] at hmin

open PriceOracle.Cycle in
/-- Where receipts are told from the first block on, an oracle that waits for one block publishes
rounds that lie under one. -/
theorem depth_honoured_of_one :
    ∃ (w w' : World Chains) (row : Row) (policy : Policy) (r : RoundRecord),
      (nature 1 fun _ _ => False).Reachable ethUsd.id w ∧ w.table.row? ethUsd.id = some row ∧
      policy.depth = 1 ∧
      Leads ((nature 1 fun _ _ => False).around ethUsd.id) (Cycle.run policy ethUsd.id ⟨1⟩) w
        (.done (.ok (.published r))) w' ∧
      (w'.outside row.config.destination.key).Buried r.round.toNat 1 := by
  obtain ⟨w, w', row, policy, r, hreach, hrow, hdepth, hrun, -⟩ := shallow_round Nat.one_pos 1
  have honoured := (depth_honoured_iff Nat.one_pos 1).2.mpr (Nat.le_refl 1)
  exact ⟨w, w', row, policy, r, hreach, hrow, hdepth, hrun,
    (honoured _ _ w row policy ⟨1⟩ hreach hrow hdepth).2 r w' hrun⟩

open PriceOracle.Cycle in
/-- An oracle that waits for two blocks publishes a round that lies under one. -/
theorem published_at_half_the_depth :
    ∃ (w w' : World Chains) (row : Row) (policy : Policy) (r : RoundRecord),
      (nature 1 fun _ _ => False).Reachable ethUsd.id w ∧ w.table.row? ethUsd.id = some row ∧
      policy.depth = 2 ∧
      Leads ((nature 1 fun _ _ => False).around ethUsd.id) (Cycle.run policy ethUsd.id ⟨1⟩) w
        (.done (.ok (.published r))) w' ∧
      ¬(w'.outside row.config.destination.key).Buried r.round.toNat policy.depth.toNat := by
  obtain ⟨w, w', row, policy, r, hreach, hrow, hdepth, hrun, hshallow⟩ :=
    shallow_round Nat.one_pos 2
  refine ⟨w, w', row, policy, r, hreach, hrow, hdepth, hrun, fun hburied => ?_⟩
  rw [hdepth] at hburied
  exact absurd (hshallow _ hburied) (by decide)

end PriceOracle
