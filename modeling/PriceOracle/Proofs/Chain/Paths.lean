import PriceOracle.Proofs.Chain.Transactions
import PriceOracle.Proofs.Cycle.Paths

/-!
# What may happen on a chain

What is proved of chains says that two transactions are in flight, or that one is forgotten, only
under some condition. These are the steps from which it is shown that the condition does come up: a
feed at the last round of an oracle may tell so and take a submission, and the chain may mine it
before the oracle waits for it. All of this may happen whether or not others write to the feed.
-/

namespace PriceOracle

namespace Chain

variable {key : FeedKey} {shared : Prop} {mayFail : Storage.Request → Storage.Memory → Prop}
  {s : Chain} {d : Destination} {c : OracleConfig} {b : Bookkeeping} {h : TxHash}
  {answer : Uint256}

theorem nature_moves (s : Chain) : (nature key shared mayFail).moves s s := .refl

/-- A feed may tell its latest round. -/
theorem may_tell (key : FeedKey) (d : Destination) {n : RoundId} (hlatest : s.latest = n.toNat) :
    ∃ current : FeedRound, current.round = n ∧ answers key (.latestRound d) s (.ok current) s := by
  refine ⟨⟨n, (s.rounds[s.latest - 1]?).getD Uint256.zero, 0, 0, n⟩, rfl,
    fun _ => ⟨hlatest.symm, fun hpositive => ?_⟩, rfl⟩
  have hlt : s.latest - 1 < s.rounds.length := Nat.sub_lt hpositive Nat.one_pos
  rw [List.getElem?_eq_getElem hlt]
  rfl

/-- The chain after an update was sent. -/
def sent (s : Chain) (h : TxHash) (answer : Uint256) : Chain := s.put h ⟨answer, .inFlight⟩

/-- The chain after an update was sent and mined. -/
def sentAndMined (s : Chain) (h : TxHash) (answer : Uint256) : Chain :=
  ((s.sent h answer).put h ⟨answer, .mined (s.latest + 1)⟩).write answer

theorem inFlight_sent : (s.sent h answer).InFlight h := fate_put_self _ _ _

theorem mined_sentAndMined : (s.sentAndMined h answer).Mined h :=
  ⟨s.latest + 1, (fate_write _ _ _).trans (fate_put_self _ _ _)⟩

/-- A submission is in flight once it is taken, and may be mined at once. -/
theorem takes (hlatest : s.latest = b.lastRound.toNat) (hfresh : s.fate? h = none)
    (hkey : c.destination.key = key) {s' : Chain} (hmoves : Moves shared (s.sent h answer) s') :
    Cycle.Takes (nature key shared mayFail) c b answer h s s' where
  latest := may_tell key c.destination hlatest
  taken := ⟨s.sent h answer, ⟨fun _ => ⟨hfresh, rfl⟩, fun hne => absurd hkey hne⟩, hmoves⟩

theorem moves_mined : Moves shared (s.sent h answer) (s.sentAndMined h answer) := by
  refine .single (.mine ?_)
  simp [sent, put]

/-- A receipt that tells of a transaction that was mined. -/
theorem may_confirm {depth : UInt64} (hmined : s.Mined h) :
    answers key (.confirmation d h depth) s (.ok ⟨h, 0, true⟩) s :=
  ⟨fun _ => by simpa [Truthful, Shows] using hmined, rfl⟩

/-- Waiting for a transaction may fail at any time. -/
theorem may_fail_to_confirm {depth : UInt64} (e : PublishError) :
    answers key (.confirmation d h depth) s (.error e) s :=
  ⟨fun _ => trivial, rfl⟩

end Chain

end PriceOracle
