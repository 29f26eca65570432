import PriceOracle.Proofs.Chain.Transactions
import PriceOracle.Proofs.Cycle.Outline

/-!
# Watching the transactions of a feed

An oracle must not send an update of its feed while an earlier one of its own is in flight. A
`Watch` names the transactions that this is asked of, and says what is known in each phase of a
cycle: one that is watched is in flight only where the bookkeeping has it as pending.

What is watched can be every transaction, where submissions never fail to be written down, or a
single one that was written down, whatever fails later. In a watch that is `synced` the feed is
written by the oracle alone, and its latest round and the bookkeeping tell the same.

Bookkeeping whose next round is written already sends nothing, and neither does one that has no next
round, so nothing has to be known then (`Bookkeeping.Outrun`): a submission starts with a look at
the latest round.
-/

namespace PriceOracle

open Attempt (Ends)
open Chain (Moves nature)
open Program (Keeps)

/-- The next round is written already, if there is one, so that nothing is sent for it. -/
def Bookkeeping.Outrun (b : Bookkeeping) (s : Chain) : Prop :=
  ∀ round, b.nextRound = some round → round.toNat ≤ s.latest

/-- Which transactions of a feed are watched, and what may go wrong. -/
structure Watch where
  key : FeedKey
  /-- The transactions that are watched. -/
  hashes : TxHash → Prop
  /-- The feed and the bookkeeping tell the same. -/
  synced : Prop
  /-- Submissions may fail to be written down, and bookkeeping may be started over. -/
  lax : Prop

namespace Watch

variable (W : Watch)

/-- The transactions that are watched and in flight are those that the bookkeeping has. -/
def Only (held : Option TxHash) (s : Chain) : Prop :=
  ∀ h, W.hashes h → s.InFlight h → held = some h

/-- Where submissions may get lost, those that are watched were sent before. -/
def Known (s : Chain) : Prop := W.lax → ∀ h, W.hashes h → s.fate? h ≠ none

/-- The latest round is the last one, or the next, which a transaction wrote. -/
def Due (last : RoundId) (h : TxHash) (s : Chain) : Prop :=
  (s.latest = last.toNat ∧
      (s.fate? h = some .inFlight ∨ s.fate? h = some .reverted ∨ s.fate? h = some .dropped)) ∨
    (s.latest = last.toNat + 1 ∧ s.fate? h = some (.mined s.latest))

/-- What is known of a feed in each phase. -/
def Says : Phase → Assertion Chain
  | .clear, b, s =>
    (W.Only none s ∨ W.lax ∧ b.Outrun s) ∧
      (W.synced → s.latest = b.lastRound.toNat)
  | .sent x, b, s =>
    W.Only (some x.txHash) s ∧ (W.lax → ¬W.hashes x.txHash) ∧
      (W.synced → Due b.lastRound x.txHash s)
  | .held p, b, s => W.Only (some p.txHash) s ∧ (W.synced → Due b.lastRound p.txHash s)
  | .gone p, b, s =>
    W.Only none s ∧ (W.synced → s.latest = b.lastRound.toNat ∧ Due b.lastRound p.txHash s)
  | .confirmed p r, b, s =>
    W.Only none s ∧ (W.synced → s.latest = r.round.toNat ∧ Due b.lastRound p.txHash s)
  | .recorded r, _, s => W.Only none s ∧ (W.synced → s.latest = r.round.toNat)

/-- What is known of an oracle with a destination; of one that publishes elsewhere, nothing. -/
def Tells (d : Destination) (phase : Phase) : Assertion Chain :=
  fun b s => W.Known s ∧ (d.key = W.key → W.Says phase b s)

/-- Nothing is sent to the feed while a transaction that is watched is in flight. -/
def permit : Feed.Request → Chain → Prop
  | .submit d _, s => d.key = W.key → ∀ h, W.hashes h → ¬s.InFlight h
  | _, _ => True

/-- What a watch relies on. -/
structure Sound (shared : Prop) (mayFail : Storage.Request → Storage.Memory → Prop)
    (id : OracleId) : Prop where
  /-- Feed and bookkeeping tell the same only where every transaction is watched, the feed is not
  shared and no submission gets lost. -/
  synced : W.synced → (∀ h, W.hashes h) ∧ ¬shared ∧ ¬W.lax
  lossless : ¬W.lax → (nature W.key shared mayFail).NeverLoses id

/-- Every transaction of a feed is watched, and none gets lost. -/
def all (key : FeedKey) (synced : Prop) : Watch := ⟨key, fun _ => True, synced, False⟩

/-- One transaction of a feed is watched, whatever gets lost. -/
def one (key : FeedKey) (h : TxHash) : Watch := ⟨key, fun g => g = h, False, True⟩

variable {W} {shared : Prop} {mayFail : Storage.Request → Storage.Memory → Prop} {id : OracleId}
  {b b' : Bookkeeping} {s s' : Chain} {d : Destination} {p : Pending} {phase : Phase}

/-- All transactions may be watched where no submission fails to be written down. -/
theorem sound_all {key : FeedKey} {synced : Prop} (hown : synced → ¬shared)
    (hnever : (nature key shared mayFail).NeverLoses id) :
    (all key synced).Sound shared mayFail id where
  synced := fun hsynced => ⟨fun _ => trivial, hown hsynced, not_false⟩
  lossless := fun _ => hnever

/-- One transaction may be watched whatever fails. -/
theorem sound_one {key : FeedKey} {h : TxHash} : (one key h).Sound shared mayFail id where
  synced := nofun
  lossless := fun hnot => absurd trivial hnot

/-- Where none that is watched is in flight, at most one is. -/
theorem Only.of_none {held : Option TxHash} (h : W.Only none s) : W.Only held s := by
  intro g hg hflight
  cases h g hg hflight

/-- A transaction that is not in flight need not be known. -/
theorem Only.none_of_not {h : TxHash} (honly : W.Only (some h) s) (hnot : ¬s.InFlight h) :
    W.Only none s := by
  intro g hg hflight
  have hsame : h = g := Option.some.inj (honly g hg hflight)
  rw [hsame] at hnot
  exact absurd hflight hnot

/-! ## What moves on its own -/

/-- Nothing comes to be in flight on its own. -/
theorem Only.moves {held : Option TxHash} (h : W.Only held s) (hmoves : Moves shared s s') :
    W.Only held s' := by
  intro g hg hflight
  exact h g hg (hmoves.inFlight hflight)

/-- Watched transactions stay known. -/
theorem Known.moves (h : W.Known s) (hmoves : Moves shared s s') : W.Known s' := by
  intro hlax g hg
  exact hmoves.known (h hlax g hg)

/-- The transaction that is due may settle. -/
theorem Due.move {last : RoundId} {h : TxHash} (hdue : Due last h s) (hown : ¬shared)
    (honly : ∀ g, s.InFlight g → h = g) (hmove : Chain.Move shared s s') : Due last h s' := by
  have hwaits : ∀ {g : TxHash} {answer : Uint256},
      s.transactions g = some ⟨answer, .inFlight⟩ → h = g ∧ s.latest = last.toNat := by
    intro g answer htransaction
    have hflight := Chain.inFlight_of_transaction htransaction
    obtain rfl := honly g hflight
    rcases hdue with ⟨hlatest, -⟩ | ⟨-, hmined⟩
    · exact ⟨rfl, hlatest⟩
    · cases hmined.symm.trans hflight
  cases hmove with
  | mine htransaction =>
    obtain ⟨rfl, hlatest⟩ := hwaits htransaction
    refine .inr ⟨?_, ?_⟩ <;> simp [hlatest]
  | revert htransaction =>
    obtain ⟨rfl, hlatest⟩ := hwaits htransaction
    exact .inl ⟨hlatest, by simp⟩
  | drop htransaction =>
    obtain ⟨rfl, hlatest⟩ := hwaits htransaction
    exact .inl ⟨hlatest, by simp⟩
  | other _ hshared => exact absurd hshared hown

/-- What is known in a phase stays so while the chain moves. -/
theorem says_moves (hsound : W.Sound shared mayFail id) (hfact : W.Says phase b s)
    (hmoves : Moves shared s s') : W.Says phase b s' := by
  induction hmoves with
  | refl => exact hfact
  | @tail s₁ s₂ _ hmove ih =>
    have hone : Moves shared s₁ s₂ := .single hmove
    -- Where all is in step and nothing is in flight, nothing moves.
    have hstill : W.synced → W.Only none s₁ → s₂ = s₁ := by
      intro hsynced honly
      obtain ⟨hall, hown, -⟩ := hsound.synced hsynced
      exact hmove.latest_eq hown fun h hflight => by cases honly h (hall h) hflight
    have hdue : ∀ {last : RoundId} {h : TxHash}, W.synced → W.Only (some h) s₁ →
        Due last h s₁ → Due last h s₂ := by
      intro last h hsynced honly hdue
      obtain ⟨hall, hown, -⟩ := hsound.synced hsynced
      exact hdue.move hown (fun g hflight => Option.some.inj (honly g (hall g) hflight)) hmove
    cases phase with
    | clear =>
      obtain ⟨hclear, hlatest⟩ := ih
      constructor
      · rcases hclear with honly | ⟨hlax, hout⟩
        · exact .inl (honly.moves hone)
        · exact .inr ⟨hlax, fun round hnext => Nat.le_trans (hout round hnext) hmove.latest_le⟩
      · intro hsynced
        rcases hclear with honly | ⟨hlax, -⟩
        · rw [hstill hsynced honly]
          exact hlatest hsynced
        · exact absurd hlax (hsound.synced hsynced).2.2
    | sent x =>
      obtain ⟨honly, hlost, hsent⟩ := ih
      exact ⟨honly.moves hone, hlost, fun hsynced => hdue hsynced honly (hsent hsynced)⟩
    | held p =>
      obtain ⟨honly, hheld⟩ := ih
      exact ⟨honly.moves hone, fun hsynced => hdue hsynced honly (hheld hsynced)⟩
    | gone p | confirmed p r | recorded r =>
      -- In these phases the transaction has settled.
      obtain ⟨honly, hrest⟩ := ih
      refine ⟨honly.moves hone, ?_⟩
      intro hsynced
      rw [hstill hsynced honly]
      exact hrest hsynced

/-- What is known in a phase stays true while the chain moves. -/
theorem tells_moves (hsound : W.Sound shared mayFail id) (h : W.Tells d phase b s)
    (hmoves : Moves shared s s') : W.Tells d phase b s' := by
  obtain ⟨hknown, hfact⟩ := h
  exact ⟨hknown.moves hmoves, fun hkey => says_moves hsound (hfact hkey) hmoves⟩

/-! ## Requests to feeds -/

/-- The surroundings of a use of feeds. -/
abbrev feeds (W : Watch) (shared : Prop) (mayFail : Storage.Request → Storage.Memory → Prop) :
    Behaviour Feed.interface Chain :=
  (nature W.key shared mayFail).onFeed

/-- A read of a feed changes nothing, and what the feed tells holds. -/
theorem truthful_of_read {r : Feed.Request} {reply : r.Reply}
    (hreply : W.feeds shared mayFail r s reply s') (hread : r.IsRead) :
    (r.destination.key = W.key → s.Truthful r reply) ∧ Moves shared s s' := by
  obtain ⟨s₁, hanswer, hmoves⟩ := hreply
  cases r with
  | submit d answer => exact hread.elim
  | _ =>
    obtain ⟨htrue, rfl⟩ := hanswer
    exact ⟨htrue, hmoves⟩

/-- Nor does a request make a transaction unknown. -/
theorem known_of_answer {r : Feed.Request} {reply : r.Reply}
    (h : (nature W.key shared mayFail).feed r s reply s') (hknown : W.Known s) : W.Known s' := by
  intro hlax g hg
  rw [Chain.answers_fate h (hknown hlax g hg)]
  exact hknown hlax g hg

/-- A submission that was refused changes nothing. -/
theorem tells_refused {answer : Uint256} {e : PublishError} (htells : W.Tells d .clear b s)
    (hanswer : (nature W.key shared mayFail).feed (.submit d answer) s (.error e) s') :
    W.Tells d .clear b s' := by
  obtain ⟨hknown, hfact⟩ := htells
  refine ⟨known_of_answer hanswer hknown, ?_⟩
  intro hkey
  obtain rfl : s' = s := hanswer.1 hkey
  exact hfact hkey

/-- A submission that was accepted is the only one in flight. -/
theorem tells_sent {answer : Uint256} {value : Decimal} {round : RoundId} {g : TxHash}
    (htells : W.Tells d .clear b s) (honly : d.key = W.key → W.Only none s)
    (hanswer : (nature W.key shared mayFail).feed (.submit d answer) s (.ok g) s') :
    W.Tells d (.sent ⟨g, round, value, answer⟩) b s' := by
  obtain ⟨hknown, hfact⟩ := htells
  refine ⟨known_of_answer hanswer hknown, ?_⟩
  intro hkey
  obtain ⟨hfresh, rfl⟩ := hanswer.1 hkey
  refine ⟨?_, ?_, ?_⟩
  · intro h hwatched hflight
    by_cases hsame : h = g
    · rw [hsame]
    · have hbefore : s.InFlight h := (Chain.fate_put_of_ne _ _ hsame).symm.trans hflight
      cases honly hkey h hwatched hbefore
  · -- Where submissions may get lost, one that is new is not among those that are watched.
    intro hlax hwatched
    exact hknown hlax g hwatched hfresh
  · intro hsynced
    exact .inl ⟨(hfact hkey).2 hsynced, .inl (Chain.fate_put_self _ _ _)⟩

/-- A submission is sent when nothing that is watched is in flight. -/
theorem keeps_submitRound (hsound : W.Sound shared mayFail id) (value : Decimal) {round : RoundId}
    (hnext : b.nextRound = some round) (htells : W.Tells d .clear b s) :
    Keeps (W.feeds shared mayFail) W.permit
      (Ends (fun x s' => W.Tells d (.sent x) b s') fun _ s' => W.Tells d .clear b s')
      (Publication.submitRound d value round).run s := by
  rw [Publication.submitRound]
  refine Attempt.keeps_bind.mpr ?_
  cases Publication.encode d value with
  | error e => exact htells
  | ok answer =>
    refine Attempt.keeps_bind.mpr ⟨trivial, ?_⟩
    intro reply s₁ hreply
    obtain ⟨htrue, hmoves⟩ := truthful_of_read hreply trivial
    have htells₁ := tells_moves hsound htells hmoves
    cases reply with
    | error e => exact htells₁
    | ok current =>
      refine Attempt.keeps_bind.mpr ?_
      cases hcheck : Publication.checkNext current.round round with
      | error e => exact htells₁
      | ok _ =>
        have hcurrent : current.round = b.lastRound :=
          eq_of_successor (Publication.checkNext_eq_ok.mp hcheck) hnext
        have honly : d.key = W.key → W.Only none s₁ := by
          intro hkey
          rcases (htells.2 hkey).1 with honly | ⟨-, hout⟩
          · exact honly.moves hmoves
          · -- The round was taken from a feed that is ahead, and would not be the next one.
            have hlatest : current.round.toNat = s.latest := (htrue hkey).1
            have hwritten := hout round hnext
            rw [hcurrent] at hlatest
            rw [successor_eq_some.mp hnext] at hwritten
            omega
        refine Attempt.keeps_bind.mpr ⟨?_, ?_⟩
        · intro hkey h hwatched hflight
          cases honly hkey h hwatched hflight
        · rintro reply s₃ ⟨s₂, hanswer, hmoves⟩
          cases reply with
          | error e => exact tells_moves hsound (tells_refused htells₁ hanswer) hmoves
          | ok g => exact tells_moves hsound (tells_sent htells₁ honly hanswer) hmoves

/-- The round of a transaction that was mined is read back. -/
theorem keeps_readBack (hsound : W.Sound shared mayFail id) {x : Submission}
    (hround : b.nextRound = some x.round) (hmined : d.key = W.key → s.Mined x.txHash)
    (htells : W.Tells d (.held x.pending) b s) :
    Keeps (W.feeds shared mayFail) W.permit
      (Ends (fun r s' => W.Tells d (.confirmed x.pending r) b s')
        fun _ s' => W.Tells d (.held x.pending) b s')
      (Publication.readBack d x).run s := by
  rw [Publication.readBack]
  refine Attempt.keeps_bind.mpr ⟨trivial, ?_⟩
  intro reply s₁ hreply
  obtain ⟨htrue, hmoves⟩ := truthful_of_read hreply trivial
  have htells₁ := tells_moves hsound htells hmoves
  cases reply with
  | error e => exact htells₁
  | ok found =>
    cases found with
    | none => exact htells₁
    | some r =>
      show Keeps _ _ _ (ExceptT.run (if _ then _ else _)) s₁
      split
      · refine Attempt.keeps_bind.mpr ⟨trivial, ?_⟩
        intro reply s₂ hreply
        obtain ⟨-, hmoves⟩ := truthful_of_read hreply trivial
        have htells₂ := tells_moves hsound htells₁ hmoves
        cases reply <;> exact htells₂
      · refine ⟨htells₁.1, ?_⟩
        intro hkey
        obtain ⟨n, hfate₁⟩ := hmoves.mined (hmined hkey)
        obtain ⟨honly, hdue⟩ := htells₁.2 hkey
        refine ⟨honly.none_of_not ?_, fun hsynced => ⟨?_, hdue hsynced⟩⟩
        · intro hflight
          cases hfate₁.symm.trans hflight
        · -- The round that was read is the next one, so that the transaction wrote it.
          rcases hdue hsynced with ⟨-, hwaits⟩ | ⟨hlatest, -⟩
          · rcases hwaits with hf | hf | hf <;> cases hfate₁.symm.trans hf
          · show s₁.latest = x.round.toNat
            rw [successor_eq_some.mp hround]
            exact hlatest

/-- Waiting for a submission confirms its round or leaves it pending. -/
theorem keeps_confirmRound (hsound : W.Sound shared mayFail id) (depth : UInt64) {x : Submission}
    (hround : b.nextRound = some x.round) (htells : W.Tells d (.held x.pending) b s) :
    Keeps (W.feeds shared mayFail) W.permit
      (Ends (fun r s' => W.Tells d (.confirmed x.pending r) b s')
        fun _ s' => W.Tells d (.held x.pending) b s')
      (Publication.confirmRound depth d x).run s := by
  rw [Publication.confirmRound]
  refine Attempt.keeps_bind.mpr ⟨trivial, ?_⟩
  intro reply s₁ hreply
  obtain ⟨htrue, hmoves⟩ := truthful_of_read hreply trivial
  have htells₁ := tells_moves hsound htells hmoves
  cases reply with
  | error e => exact htells₁
  | ok receipt =>
    show Keeps _ _ _ (ExceptT.run (if _ then _ else _)) s₁
    split
    · exact htells₁
    · rename_i hsuccess
      -- The receipt is older than the state by now, but what was mined stays so.
      refine keeps_readBack hsound hround (fun hkey => ?_) htells₁
      have hshows : s.Shows x.txHash receipt := htrue hkey
      exact hmoves.mined (hshows.mined (by simpa using hsuccess))

/-- A transaction that the chain does not know to be mined or in flight is gone. -/
theorem says_gone (hfact : W.Says (.held p) b s) (hflight : ¬s.InFlight p.txHash)
    (hmined : ¬s.Mined p.txHash) : W.Says (.gone p) b s := by
  obtain ⟨honly, hdue⟩ := hfact
  refine ⟨honly.none_of_not hflight, ?_⟩
  intro hsynced
  refine ⟨?_, hdue hsynced⟩
  rcases hdue hsynced with ⟨hlatest, -⟩ | ⟨-, hfate⟩
  · exact hlatest
  · exact absurd ⟨_, hfate⟩ hmined

/-- What settling a submission leaves. -/
def Settled (W : Watch) (d : Destination) (p : Pending) (b : Bookkeeping) :
    Option RoundRecord → Chain → Prop
  | some r, s => W.Tells d (.confirmed p r) b s
  | none, s => W.Tells d (.gone p) b s

/-- A submission without a receipt is gone where the chain does not know it any more. -/
theorem keeps_resolveUnmined (hsound : W.Sound shared mayFail id)
    (htells : W.Tells d (.held p) b s) :
    Keeps (W.feeds shared mayFail) W.permit
      (Ends (W.Settled d p b) fun _ s' => W.Tells d (.held p) b s')
      (Publication.resolveUnmined d p).run s := by
  rw [Publication.resolveUnmined]
  refine Attempt.keeps_bind.mpr ⟨trivial, ?_⟩
  intro reply s₁ hreply
  obtain ⟨-, hmoves⟩ := truthful_of_read hreply trivial
  have htells₁ := tells_moves hsound htells hmoves
  cases reply with
  | error e => exact htells₁
  | ok current =>
    show Keeps _ _ _ (ExceptT.run (if _ then _ else _)) s₁
    split
    · exact htells₁
    · refine Attempt.keeps_bind.mpr ⟨trivial, ?_⟩
      intro reply s₂ hreply
      obtain ⟨htrue, hmoves⟩ := truthful_of_read hreply trivial
      have htells₂ := tells_moves hsound htells₁ hmoves
      cases reply with
      | error e => exact htells₂
      | ok known =>
        cases known with
        | true => exact htells₂
        | false =>
          -- What is not known was neither in flight nor mined when the chain was asked.
          have hgone : W.Tells d (.gone p) b s₁ := by
            refine ⟨htells₁.1, ?_⟩
            intro hkey
            obtain ⟨hflight, hmined⟩ := htrue hkey
            exact says_gone (htells₁.2 hkey) hflight hmined
          exact tells_moves hsound hgone hmoves

/-- A submission that is pending is settled by what the chain tells of it. -/
theorem keeps_resolve (hsound : W.Sound shared mayFail id) (hround : b.nextRound = some p.round)
    (htells : W.Tells d (.held p) b s) :
    Keeps (W.feeds shared mayFail) W.permit
      (Ends (W.Settled d p b) fun _ s' => W.Tells d (.held p) b s')
      (Publication.resolve d p).run s := by
  rw [Publication.resolve]
  refine Attempt.keeps_bind.mpr ?_
  cases Publication.encode d p.answer with
  | error e => exact htells
  | ok answer =>
    refine Attempt.keeps_bind.mpr ⟨trivial, ?_⟩
    intro reply s₁ hreply
    obtain ⟨htrue, hmoves⟩ := truthful_of_read hreply trivial
    have htells₁ := tells_moves hsound htells hmoves
    cases reply with
    | error e => exact htells₁
    | ok found =>
      cases found with
      | none => exact keeps_resolveUnmined hsound htells₁
      | some receipt =>
        have hshows : d.key = W.key → s.Shows p.txHash receipt := htrue
        show Keeps _ _ _ (ExceptT.run (if _ then _ else _)) s₁
        split
        · rename_i hsuccess
          refine Attempt.keeps_bind.mpr
            ((keeps_readBack (x := ⟨p.txHash, p.round, p.answer, answer⟩) hsound hround
              (fun hkey => ?_) htells₁).mono fun e s₂ hends => ?_)
          · exact hmoves.mined ((hshows hkey).mined hsuccess)
          · cases e <;> exact hends
        · rename_i hsuccess
          -- A transaction that reverted wrote no round, and never will.
          have hgone : W.Tells d (.gone p) b s := by
            refine ⟨htells.1, ?_⟩
            intro hkey
            have hreverted := (hshows hkey).reverted hsuccess
            refine says_gone (htells.2 hkey) ?_ ?_
            · intro hflight
              cases hreverted.symm.trans hflight
            · rintro ⟨n, hfate⟩
              cases hreverted.symm.trans hfate
          exact tells_moves hsound hgone hmoves

/-! ## Changes of the bookkeeping -/

/-- What is known goes by the ledger, which most changes leave alone. -/
theorem says_ledger (h : b.SameLedger b') (hfact : W.Says phase b s) : W.Says phase b' s := by
  cases phase <;> simp only [Says, Bookkeeping.Outrun, ← h.lastRound, h.nextRound] at hfact ⊢ <;>
    exact hfact

theorem tells_ledger (h : b.SameLedger b') (htells : W.Tells d phase b s) :
    W.Tells d phase b' s := by
  obtain ⟨hknown, hfact⟩ := htells
  exact ⟨hknown, fun hkey => says_ledger h (hfact hkey)⟩

/-- A submission that is written down is pending. -/
theorem tells_note {x : Submission} (htells : W.Tells d (.sent x) b s) :
    W.Tells d (.held x.pending) { b with pending := some x.pending } s := by
  obtain ⟨hknown, hfact⟩ := htells
  refine ⟨hknown, ?_⟩
  intro hkey
  obtain ⟨honly, -, hdue⟩ := hfact hkey
  exact ⟨honly, hdue⟩

/-- A submission may only get lost where it is not watched. -/
theorem tells_lose {x : Submission} (hsound : W.Sound shared mayFail id) (hlax : W.lax)
    (htells : W.Tells d (.sent x) b s) : W.Tells d .clear b s := by
  obtain ⟨hknown, hfact⟩ := htells
  refine ⟨hknown, ?_⟩
  intro hkey
  obtain ⟨honly, hunwatched, -⟩ := hfact hkey
  constructor
  · refine .inl fun g hg hflight => ?_
    obtain rfl := Option.some.inj (honly g hg hflight)
    exact absurd hg (hunwatched hlax)
  · intro hsynced
    obtain ⟨-, -, hnot⟩ := hsound.synced hsynced
    exact absurd hlax hnot

/-- Once a submission is known to be gone, forgetting it forgets nothing. -/
theorem tells_drop (htells : W.Tells d (.gone p) b s) :
    W.Tells d .clear { b with pending := none } s := by
  obtain ⟨hknown, hfact⟩ := htells
  refine ⟨hknown, ?_⟩
  intro hkey
  obtain ⟨honly, hlatest⟩ := hfact hkey
  exact ⟨.inl honly, fun hsynced => (hlatest hsynced).1⟩

/-- As long as it is still written down, it is held. -/
theorem tells_held_of_gone (htells : W.Tells d (.gone p) b s) : W.Tells d (.held p) b s := by
  obtain ⟨hknown, hfact⟩ := htells
  refine ⟨hknown, ?_⟩
  intro hkey
  obtain ⟨honly, hlatest⟩ := hfact hkey
  exact ⟨honly.of_none, fun hsynced => (hlatest hsynced).2⟩

/-- The round of a confirmed submission is the next one, so that writing it down keeps step. -/
theorem tells_record {r : RoundRecord} (now : UInt64) (htells : W.Tells d (.confirmed p r) b s) :
    W.Tells d (.recorded r) (Cycle.afterRound now r b) s := by
  obtain ⟨hknown, hfact⟩ := htells
  refine ⟨hknown, ?_⟩
  intro hkey
  obtain ⟨honly, hlatest⟩ := hfact hkey
  exact ⟨honly, fun hsynced => (hlatest hsynced).1⟩

/-- A confirmed submission is held until its round is written down. -/
theorem tells_held_of_confirmed {r : RoundRecord} (htells : W.Tells d (.confirmed p r) b s) :
    W.Tells d (.held p) b s := by
  obtain ⟨hknown, hfact⟩ := htells
  refine ⟨hknown, ?_⟩
  intro hkey
  obtain ⟨honly, hlatest⟩ := hfact hkey
  exact ⟨honly.of_none, fun hsynced => (hlatest hsynced).2⟩

/-! ## Cycles -/

/-- The outline of the cycles of an oracle that is watched. -/
def outline (W : Watch) {shared : Prop} {mayFail : Storage.Request → Storage.Memory → Prop}
    {id : OracleId} (hsound : W.Sound shared mayFail id) (c : OracleConfig) (depth : UInt64) :
    Outline (nature W.key shared mayFail) id c depth where
  permit := W.permit
  asserts := W.Tells c.destination
  between := fun _ _ => True
  within := fun _ _ => trivial
  stable := fun _ _ _ _ hmoves htells => tells_moves hsound htells hmoves
  ledger := tells_ledger
  submit := fun value hnext _ htells => keeps_submitRound hsound value hnext htells
  confirm := fun _ _ hround htells => keeps_confirmRound hsound depth hround htells
  resolve := fun _ hround htells => (keeps_resolve hsound hround htells).mono fun e _ hends => by
    rcases e with _ | _ | _ <;> exact hends
  note := tells_note
  lose := fun {b s x} hnone htells hlose => by
    refine tells_lose hsound ?_ htells
    by_contra hnot
    exact hsound.lossless hnot c b x.pending hnone hlose
  drop := tells_drop
  keepGone := tells_held_of_gone
  record := tells_record
  keepConfirmed := tells_held_of_confirmed

end Watch

end PriceOracle
