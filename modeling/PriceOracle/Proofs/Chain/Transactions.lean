import Mathlib.Logic.Function.Basic
import Mathlib.Logic.Relation
import PriceOracle.Proofs.Service.World

/-!
# A feed on a chain

A `Chain` is one feed as its chain sees it: the rounds that were written, and what became of the
transactions that were sent to write one. A transaction that was sent is in flight until it is
mined, reverted or dropped, whenever that may be (`Chain.Move`).

`Chain.nature` is the world of a feed that tells the truth: whatever it answers holds at the moment
it is asked. Any request may fail; a submission that fails sent nothing. Nothing is said of other
feeds, nor of which requests to storage fail.
-/

namespace PriceOracle

/-- What has become of a transaction. -/
inductive Fate where
  | inFlight
  /-- It wrote a round. -/
  | mined (round : Nat)
  | reverted
  /-- It will never be mined. -/
  | dropped
  deriving DecidableEq

/-- An update of a feed. -/
structure Transaction where
  answer : Uint256
  fate : Fate

/-- A feed on its chain. -/
structure Chain where
  /-- The answers of the rounds, from the first to the latest. -/
  rounds : List Uint256
  transactions : TxHash → Option Transaction

/-- A request that sends nothing. -/
def Feed.Request.IsRead : Feed.Request → Prop
  | submit _ _ => False
  | latestRound _ | roundData _ _ | receipt _ _ | isKnown _ _ | confirmation _ _ _ => True

namespace Chain

/-- The number of the latest round, zero before the first. -/
def latest (s : Chain) : Nat := s.rounds.length

/-- What has become of the transaction with a hash, if there is one. -/
def fate? (s : Chain) (h : TxHash) : Option Fate := (s.transactions h).map (·.fate)

def InFlight (s : Chain) (h : TxHash) : Prop := s.fate? h = some .inFlight

def Mined (s : Chain) (h : TxHash) : Prop := ∃ n, s.fate? h = some (.mined n)

/-- No two transactions are in flight. -/
def AtMostOneInFlight (s : Chain) : Prop :=
  ∀ h h', s.InFlight h → s.InFlight h' → h = h'

/-- Puts a transaction in the place of the former one. -/
def put (s : Chain) (h : TxHash) (t : Transaction) : Chain :=
  { s with transactions := Function.update s.transactions h (some t) }

/-- Writes another round. -/
def write (s : Chain) (answer : Uint256) : Chain := { s with rounds := s.rounds ++ [answer] }

@[simp] theorem latest_put (s : Chain) (h : TxHash) (t : Transaction) :
    (s.put h t).latest = s.latest := rfl

@[simp] theorem latest_write (s : Chain) (answer : Uint256) :
    (s.write answer).latest = s.latest + 1 := List.length_append

@[simp] theorem fate_write (s : Chain) (answer : Uint256) (h : TxHash) :
    (s.write answer).fate? h = s.fate? h := rfl

@[simp] theorem fate_put_self (s : Chain) (h : TxHash) (t : Transaction) :
    (s.put h t).fate? h = some t.fate := by
  simp [fate?, put]

theorem fate_put_of_ne (s : Chain) {h h' : TxHash} (t : Transaction) (hne : h' ≠ h) :
    (s.put h t).fate? h' = s.fate? h' := by
  simp [fate?, put, hne]

/-! ## What happens on its own -/

/-- What may happen on a chain. Rounds of others are written where the feed is shared. -/
inductive Move (shared : Prop) : Chain → Chain → Prop where
  | mine {s : Chain} {h : TxHash} {answer : Uint256} :
      s.transactions h = some ⟨answer, .inFlight⟩ →
      Move shared s ((s.put h ⟨answer, .mined (s.latest + 1)⟩).write answer)
  | revert {s : Chain} {h : TxHash} {answer : Uint256} :
      s.transactions h = some ⟨answer, .inFlight⟩ → Move shared s (s.put h ⟨answer, .reverted⟩)
  | drop {s : Chain} {h : TxHash} {answer : Uint256} :
      s.transactions h = some ⟨answer, .inFlight⟩ → Move shared s (s.put h ⟨answer, .dropped⟩)
  | other {s : Chain} (answer : Uint256) : shared → Move shared s (s.write answer)

/-- Any number of moves. -/
abbrev Moves (shared : Prop) : Chain → Chain → Prop := Relation.ReflTransGen (Move shared)

variable {shared : Prop} {s s' : Chain} {h : TxHash}

theorem inFlight_of_transaction {answer : Uint256}
    (hsent : s.transactions h = some ⟨answer, .inFlight⟩) : s.InFlight h := by
  rw [InFlight, fate?, hsent]
  rfl

/-- The transaction that settles was in flight. -/
theorem Move.fate {f : Fate} (hmove : Move shared s s') (hfate : s.fate? h = some f)
    (hf : f ≠ .inFlight) : s'.fate? h = some f := by
  -- A transaction that settles is another one, as this one is not in flight.
  have hne : ∀ {g : TxHash} {answer : Uint256},
      s.transactions g = some ⟨answer, .inFlight⟩ → h ≠ g := by
    rintro g answer htransaction rfl
    rw [inFlight_of_transaction htransaction] at hfate
    exact hf (Option.some.inj hfate).symm
  cases hmove with
  | mine htransaction | revert htransaction | drop htransaction =>
    exact (fate_put_of_ne _ _ (hne htransaction)).trans hfate
  | other _ _ => exact hfate

/-- Nothing is sent on its own. -/
theorem Move.inFlight (hmove : Move shared s s') (hflight : s'.InFlight h) : s.InFlight h := by
  cases hmove with
  | @mine g _ htransaction | @revert g _ htransaction | @drop g _ htransaction =>
    by_cases heq : h = g
    · rw [heq]
      exact inFlight_of_transaction htransaction
    · exact (fate_put_of_ne _ _ heq).symm.trans hflight
  | other _ _ => exact hflight

/-- A transaction that was sent stays known. -/
theorem Move.known (hmove : Move shared s s') (hknown : s.fate? h ≠ none) : s'.fate? h ≠ none := by
  cases hmove with
  | @mine g _ htransaction | @revert g _ htransaction | @drop g _ htransaction =>
    by_cases heq : h = g
    · rw [heq]
      simp
    · simpa [fate_put_of_ne _ _ heq] using hknown
  | other _ _ => exact hknown

/-- Rounds stay. -/
theorem Move.latest_le (hmove : Move shared s s') : s.latest ≤ s'.latest := by
  cases hmove <;> simp

/-- On a feed of one's own only transactions in flight write rounds. -/
theorem Move.latest_eq (hmove : Move shared s s') (hown : ¬shared)
    (hnone : ∀ h, ¬s.InFlight h) : s' = s := by
  cases hmove with
  | mine htransaction | revert htransaction | drop htransaction =>
    exact absurd (inFlight_of_transaction htransaction) (hnone _)
  | other _ hshared => exact absurd hshared hown

theorem Moves.fate {f : Fate} (hmoves : Moves shared s s') (hfate : s.fate? h = some f)
    (hf : f ≠ .inFlight) : s'.fate? h = some f := by
  induction hmoves with
  | refl => exact hfate
  | tail _ hmove ih => exact hmove.fate ih hf

/-- A transaction that was mined stays so. -/
theorem Moves.mined (hmoves : Moves shared s s') (hmined : s.Mined h) : s'.Mined h := by
  obtain ⟨n, hfate⟩ := hmined
  exact ⟨n, hmoves.fate hfate (by simp)⟩

theorem Moves.inFlight (hmoves : Moves shared s s') (hflight : s'.InFlight h) : s.InFlight h := by
  induction hmoves with
  | refl => exact hflight
  | tail _ hmove ih => exact ih (hmove.inFlight hflight)

theorem Moves.known (hmoves : Moves shared s s') (hknown : s.fate? h ≠ none) :
    s'.fate? h ≠ none := by
  induction hmoves with
  | refl => exact hknown
  | tail _ hmove ih => exact hmove.known ih

theorem Moves.latest_le (hmoves : Moves shared s s') : s.latest ≤ s'.latest := by
  induction hmoves with
  | refl => exact Nat.le_refl _
  | tail _ hmove ih => exact Nat.le_trans ih hmove.latest_le

/-! ## What feeds answer -/

/-- A receipt tells what became of a transaction. -/
def Shows (s : Chain) (h : TxHash) (receipt : Receipt) : Prop :=
  if receipt.success then s.Mined h else s.fate? h = some .reverted

theorem Shows.mined {receipt : Receipt} (h' : s.Shows h receipt)
    (hsuccess : receipt.success = true) : s.Mined h := by
  unfold Shows at h'
  rw [if_pos hsuccess] at h'
  exact h'

theorem Shows.reverted {receipt : Receipt} (h' : s.Shows h receipt)
    (hfailure : ¬receipt.success = true) : s.fate? h = some .reverted := by
  unfold Shows at h'
  rw [if_neg hfailure] at h'
  exact h'

/-- An answer to a read holds. A read that fails says nothing. -/
def Truthful (s : Chain) : (r : Feed.Request) → r.Reply → Prop
  | .latestRound _, .ok r =>
    r.round.toNat = s.latest ∧ (0 < s.latest → s.rounds[s.latest - 1]? = some r.answer)
  | .roundData _ n, .ok (some r) =>
    0 < n.toNat ∧ r.round = n ∧ s.rounds[n.toNat - 1]? = some r.answer
  | .roundData _ n, .ok none => n.toNat = 0 ∨ s.latest < n.toNat
  | .receipt _ h, .ok (some receipt) => s.Shows h receipt
  | .receipt _ h, .ok none => ¬s.Mined h ∧ s.fate? h ≠ some .reverted
  | .isKnown _ h, .ok false => ¬s.InFlight h ∧ ¬s.Mined h
  | .confirmation _ h _, .ok receipt => s.Shows h receipt
  | _, _ => True

/-- Sending an update: it is in flight under a new hash, or nothing was sent. -/
def Sends (s : Chain) (answer : Uint256) : Except PublishError TxHash → Chain → Prop
  | .ok h, s' => s.fate? h = none ∧ s' = s.put h ⟨answer, .inFlight⟩
  | .error _, s' => s' = s

/-- Feeds of which the one with a key tells the truth. -/
def answers (key : FeedKey) : Behaviour Feed.interface Chain
  | .submit d answer, s, reply, s' =>
    (d.key = key → s.Sends answer reply s') ∧ (d.key ≠ key → s' = s)
  | r, s, reply, s' => (r.destination.key = key → s.Truthful r reply) ∧ s' = s

/-- A world with a feed that tells the truth. -/
def nature (key : FeedKey) (shared : Prop) (mayFail : Storage.Request → Storage.Memory → Prop) :
    Nature Chain where
  feed := answers key
  moves := Moves shared
  mayFail := mayFail

variable {key : FeedKey} {r : Feed.Request} {reply : r.Reply}

/-- A request leaves the chain as it is, or a transaction is in flight under a new hash. -/
theorem answers_cases (hreply : answers key r s reply s') :
    s' = s ∨ ∃ h answer, s.fate? h = none ∧ s' = s.put h ⟨answer, .inFlight⟩ := by
  cases r with
  | submit d answer =>
    obtain ⟨hown, hother⟩ := hreply
    by_cases hkey : d.key = key
    · have hsends := hown hkey
      cases reply with
      | error _ => exact .inl hsends
      | ok h => exact .inr ⟨h, answer, hsends⟩
    · exact .inl (hother hkey)
  | _ => exact .inl hreply.2

/-- What became of a transaction that was sent before stays. -/
theorem answers_fate (hreply : answers key r s reply s') (hknown : s.fate? h ≠ none) :
    s'.fate? h = s.fate? h := by
  obtain rfl | ⟨g, answer, hfresh, rfl⟩ := answers_cases hreply
  · rfl
  · refine fate_put_of_ne _ _ fun heq => hknown ?_
    rw [heq]
    exact hfresh

/-- No request writes a round at once. -/
theorem answers_latest (hreply : answers key r s reply s') : s'.latest = s.latest := by
  obtain rfl | ⟨g, answer, -, rfl⟩ := answers_cases hreply
  · rfl
  · exact latest_put _ _ _

end Chain

end PriceOracle
