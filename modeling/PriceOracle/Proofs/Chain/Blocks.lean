import Mathlib.Data.List.Pairwise
import Mathlib.Logic.Function.Basic
import PriceOracle.Proofs.Chain.Transactions

/-!
# Feeds in blocks

`Blocks` is one feed as its chain sees it, with the block that each of its rounds was written in.
Rounds lie under more and more blocks as the head of the chain rises (`Blocks.Buried`); what was
written stays (`Blocks.Later`).

`Blocks.nature` is the world of feeds that tell the truth: receipts are of transactions in blocks,
and waiting for a number of blocks goes well only for a transaction that lies under so many. How
deep a transaction lies whose receipt is told at once is left open; a node tells it from the first
block on. Any request may fail.
-/

namespace PriceOracle

/-- A feed on its chain. -/
structure Blocks where
  /-- The number of the latest block. -/
  head : Nat
  /-- The answers of the rounds, from the first to the latest, with the blocks that they are in. -/
  rounds : List (Uint256 × Nat)
  fates : TxHash → Option Fate
  ordered : (rounds.map Prod.snd).Pairwise (· ≤ ·)
  below : ∀ r ∈ rounds, r.2 ≤ head

namespace Blocks

/-- The number of the latest round, zero before the first. -/
def latest (s : Blocks) : Nat := s.rounds.length

/-- The answer of a round, and the block that it is in. -/
def round? (s : Blocks) (n : Nat) : Option (Uint256 × Nat) :=
  if n = 0 then none else s.rounds[n - 1]?

/-- The transaction that wrote a round lies under a number of blocks, the one that it is in
included. -/
def Buried (s : Blocks) (n k : Nat) : Prop :=
  ∃ answer block, s.round? n = some (answer, block) ∧ block + k ≤ s.head + 1

/-- A transaction wrote a round and lies under a number of blocks. -/
def Settled (s : Blocks) (h : TxHash) (k : Nat) : Prop :=
  ∃ n, s.fates h = some (.mined n) ∧ s.Buried n k

variable {s s' : Blocks} {h : TxHash} {n m k k' : Nat}

theorem round_some {r : Uint256 × Nat} :
    s.round? n = some r ↔ n ≠ 0 ∧ s.rounds[n - 1]? = some r := by
  rw [round?]
  split <;> simp_all

theorem Buried.mono (h : s.Buried n k) (hk : k' ≤ k) : s.Buried n k' := by
  obtain ⟨answer, block, hround, hdeep⟩ := h
  exact ⟨answer, block, hround, by omega⟩

/-- An earlier round lies under as many blocks as a later one. -/
theorem Buried.earlier {r : Uint256 × Nat} (h : s.Buried n k) (hmn : m ≤ n)
    (hround : s.round? m = some r) : s.Buried m k := by
  obtain ⟨answer, block, hlater, hdeep⟩ := h
  obtain ⟨hm, hearlier⟩ := round_some.mp hround
  obtain ⟨hn, hlater⟩ := round_some.mp hlater
  refine ⟨r.1, r.2, hround, ?_⟩
  suffices hle : r.2 ≤ block by omega
  rcases Nat.lt_or_eq_of_le hmn with hlt | rfl
  · obtain ⟨hm', hm''⟩ := List.getElem?_eq_some_iff.mp hearlier
    obtain ⟨hn', hn''⟩ := List.getElem?_eq_some_iff.mp hlater
    have hordered := List.pairwise_iff_getElem.mp s.ordered (m - 1) (n - 1)
      (by simpa using hm') (by simpa using hn') (by omega)
    simpa [hm'', hn''] using hordered
  · rw [hearlier] at hlater
    cases hlater
    exact Nat.le_refl _

/-! ## What happens on its own -/

/-- What may have happened on a chain meanwhile. The head rises, rounds are added, by whomever, and
what is in flight settles; a transaction that is mined writes another round. -/
structure Later (s s' : Blocks) : Prop where
  head : s.head ≤ s'.head
  rounds : s.rounds <+: s'.rounds
  settled : ∀ {h f}, s.fates h = some f → f ≠ .inFlight → s'.fates h = some f
  inFlight : ∀ {h}, s.fates h = some .inFlight →
    ∃ f, s'.fates h = some f ∧ ∀ n, f = .mined n → s.latest < n

theorem Later.refl (s : Blocks) : s.Later s where
  head := Nat.le_refl _
  rounds := List.prefix_rfl
  settled := fun h _ => h
  inFlight := fun h => ⟨_, h, nofun⟩

theorem Later.latest_le (h : s.Later s') : s.latest ≤ s'.latest := h.rounds.length_le

theorem Later.round {r : Uint256 × Nat} (h : s.Later s') (hround : s.round? n = some r) :
    s'.round? n = some r := by
  obtain ⟨hn, hround⟩ := round_some.mp hround
  obtain ⟨rest, hrest⟩ := h.rounds
  refine round_some.mpr ⟨hn, ?_⟩
  rw [← hrest, List.getElem?_append_left (List.getElem?_eq_some_iff.mp hround).1]
  exact hround

/-- What is buried stays buried. -/
theorem Later.buried (h : s.Later s') (hburied : s.Buried n k) : s'.Buried n k := by
  obtain ⟨answer, block, hround, hdeep⟩ := hburied
  have := h.head
  exact ⟨answer, block, h.round hround, by omega⟩

theorem Later.settles (hlater : s.Later s') (hsettled : s.Settled h k) : s'.Settled h k := by
  obtain ⟨n, hfate, hburied⟩ := hsettled
  exact ⟨n, hlater.settled hfate nofun, hlater.buried hburied⟩

/-! ## Submissions -/

/-- A transaction was sent for a round: it writes that round or a later one, if any. -/
def Carries (s : Blocks) (h : TxHash) (n : Nat) : Prop :=
  ∃ f, s.fates h = some f ∧ (f = .inFlight → n ≤ s.latest + 1) ∧ ∀ m, f = .mined m → n ≤ m

theorem Carries.of_inFlight (hfate : s.fates h = some .inFlight) (hn : n ≤ s.latest + 1) :
    s.Carries h n := ⟨.inFlight, hfate, fun _ => hn, nofun⟩

theorem Later.carries (hlater : s.Later s') (hcarries : s.Carries h n) : s'.Carries h n := by
  obtain ⟨f, hfate, hflight, hmined⟩ := hcarries
  by_cases hf : f = .inFlight
  · subst hf
    obtain ⟨f', hfate', hnew⟩ := hlater.inFlight hfate
    have hle := hlater.latest_le
    have hn := hflight rfl
    refine ⟨f', hfate', fun _ => by omega, fun m hm => ?_⟩
    have := hnew m hm
    omega
  · exact ⟨f, hlater.settled hfate hf, fun h => absurd h hf, hmined⟩

/-- A round that is there lies at least as deep as the transaction that was sent for it. -/
theorem Carries.buried {r : Uint256 × Nat} (hcarries : s.Carries h n) (hsettled : s.Settled h k)
    (hround : s.round? n = some r) : s.Buried n k := by
  obtain ⟨f, hfate, -, hmined⟩ := hcarries
  obtain ⟨m, hfate', hburied⟩ := hsettled
  rw [hfate] at hfate'
  exact hburied.earlier (hmined m (Option.some.inj hfate')) hround

/-! ## What feeds answer -/

/-- A receipt is of a transaction that lies under a number of blocks. -/
def Shows (s : Blocks) (h : TxHash) (k : Nat) (receipt : Receipt) : Prop :=
  if receipt.success then
    ∃ n answer, s.fates h = some (.mined n) ∧ s.round? n = some (answer, receipt.block.toNat) ∧
      receipt.block.toNat + k ≤ s.head + 1
  else s.fates h = some .reverted

theorem Shows.settled {receipt : Receipt} (hshows : s.Shows h k receipt)
    (hsuccess : receipt.success = true) : s.Settled h k := by
  rw [Shows, if_pos hsuccess] at hshows
  obtain ⟨n, answer, hfate, hround, hdeep⟩ := hshows
  exact ⟨n, hfate, answer, _, hround, hdeep⟩

/-- An answer to a read holds, where receipts are told from some depth on. A read that fails says
nothing. -/
def Truthful (least : Nat) (s : Blocks) : (r : Feed.Request) → r.Reply → Prop
  | .latestRound _, .ok r => r.round.toNat = s.latest
  | .roundData _ n, .ok (some r) => r.round = n ∧ ∃ block, s.round? n.toNat = some (r.answer, block)
  | .roundData _ n, .ok none => s.round? n.toNat = none
  | .receipt _ h, .ok (some receipt) => s.Shows h least receipt
  | .isKnown _ h, .ok false => s.fates h ≠ some .inFlight ∧ ∀ n, s.fates h ≠ some (.mined n)
  | .confirmation _ h depth, .ok receipt => s.Shows h depth.toNat receipt
  | _, _ => True

/-- How a feed answers. An update that is taken is in flight under a new hash. -/
def Answers (least : Nat) (s : Blocks) : (r : Feed.Request) → r.Reply → Blocks → Prop
  | .submit _ _, .ok h, s' => s.fates h = none ∧ s'.head = s.head ∧ s'.rounds = s.rounds ∧
      s'.fates = Function.update s.fates h (some .inFlight)
  | r, reply, s' => s.Truthful least r reply ∧ s' = s

variable {least : Nat} {r : Feed.Request} {reply : r.Reply}

/-- Whatever is asked of a feed, what it answers leaves it as it was or later. -/
theorem Answers.later (h : s.Answers least r reply s') : s.Later s' := by
  cases r with
  | submit d answer =>
    cases reply with
    | error _ =>
      obtain ⟨-, rfl⟩ := h
      exact .refl _
    | ok g =>
      obtain ⟨hfresh, hhead, hrounds, hfates⟩ := h
      have hother : ∀ {h f}, s.fates h = some f → s'.fates h = some f := by
        intro h f hfate
        have hne : h ≠ g := by
          rintro rfl
          rw [hfresh] at hfate
          cases hfate
        rw [hfates, Function.update_of_ne hne]
        exact hfate
      refine ⟨hhead.ge, hrounds ▸ List.prefix_rfl, fun hfate _ => hother hfate, fun hfate => ?_⟩
      exact ⟨_, hother hfate, nofun⟩
  | _ =>
    obtain ⟨-, rfl⟩ := h
    exact .refl _

/-! ## All feeds -/

/-- Every feed on its chain. -/
abbrev Chains := FeedKey → Blocks

/-- A world with feeds that tell the truth, and receipts from some depth on. -/
def nature (least : Nat) (mayFail : Storage.Request → Storage.Memory → Prop) : Nature Chains where
  feed := fun r s reply s' => (s r.destination.key).Answers least r reply (s' r.destination.key) ∧
    ∀ key, key ≠ r.destination.key → s' key = s key
  moves := fun s s' => ∀ key, (s key).Later (s' key)
  mayFail := mayFail

variable {mayFail : Storage.Request → Storage.Memory → Prop} {t t' : Chains} {d : Destination}

/-- After a request every chain is as it was or later. -/
theorem later_of_feed (h : (nature least mayFail).feed r t reply t') (key : FeedKey) :
    (t key).Later (t' key) := by
  obtain ⟨hanswers, hother⟩ := h
  by_cases hkey : key = r.destination.key
  · rw [hkey]
    exact hanswers.later
  · rw [hother key hkey]
    exact .refl _

/-- A read tells the truth about a feed, which then goes on. -/
theorem read_of_onFeed (hread : r.IsRead) (h : (nature least mayFail).onFeed r t reply t') :
    (t r.destination.key).Truthful least r reply ∧ ∀ key, (t key).Later (t' key) := by
  obtain ⟨t₁, ⟨hanswers, hother⟩, hmoves⟩ := h
  have htruthful : (t r.destination.key).Truthful least r reply ∧
      t₁ r.destination.key = t r.destination.key := by
    cases r with
    | submit _ _ => exact hread.elim
    | _ => exact hanswers
  refine ⟨htruthful.1, fun key => ?_⟩
  have hlater := hmoves key
  by_cases hkey : key = r.destination.key
  · rw [hkey, htruthful.2] at hlater
    rwa [hkey]
  · rwa [hother key hkey] at hlater

end Blocks

end PriceOracle
