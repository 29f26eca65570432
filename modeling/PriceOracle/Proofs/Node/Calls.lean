import PriceOracle.Node.Contract
import PriceOracle.Node.PriceFeed
import PriceOracle.Proofs.Node.Checked

/-!
# Calls of feeds and contracts

Each call first comes to the end of the check of its endpoint, whatever it is for, and remembers
the endpoint exactly if the check is passed: `PriceFeed.ended_answer` for feeds, and for contracts
`Contract.ended_call`. Waiting for a confirmation checks the endpoint again at each look, and by
then it is remembered.
-/

namespace PriceOracle.Node

open Program (Keeps)

variable {e : Endpoint}

/-! ## Feeds -/

namespace PriceFeed

variable {options : Options} {known known' : Known} {d : Destination}

/-- After a passed check, what was remembered is, and so is the endpoint. -/
def Kept (e : Endpoint) (known known' : Known) : Prop :=
  ∀ e', known'.has e' = true ↔ known.has e' = true ∨ e' = e

/-- The failure of a check. -/
abbrev refusal (e : Endpoint) : Except String UInt64 → PublishError :=
  failure e PublishError.classify .invalidDestination

theorem kept_self (h : known.has e = true) : Kept e known known := by
  intro e'
  constructor
  · exact .inl
  · rintro (h' | rfl)
    · exact h'
    · exact h

theorem kept_set (key : Option Secp256k1.PrivateKey) : Kept e known (Dict.set e key known) := by
  intro e'
  by_cases he : e' = e
  · simp [Dict.has, he, Dict.get?_set_self]
  · simp [Dict.has, he, Dict.get?_set_of_ne]

theorem Kept.has (h : Kept e known known') : known'.has e = true := (h e).mpr (.inr rfl)

/-! ### The check -/

theorem keeps_signer : Keeps (following e) (Check.Permits e)
    (fun y check => y.2 = known ∧ check = .due) (run (signer options e) known) .due := by
  unfold signer
  cases e.credentialPath with
  | none => exact ⟨rfl, rfl⟩
  | some path =>
    refine keeps_bind.mpr ⟨.inl (.read path), ?_⟩
    rintro content check rfl
    -- Whether the file has a key or not, no node has been asked.
    show Keeps _ _ _ (run _ known) _
    split <;> exact ⟨rfl, rfl⟩

/-- A remembered endpoint is not checked. -/
theorem run_connect (options : Options) (h : known.has e = true) :
    ∃ key, run (connect options e) known = .done (.ok key, known) := by
  obtain ⟨key, hkey⟩ := Option.isSome_iff_exists.mp h
  refine ⟨key, ?_⟩
  rw [connect, run_get_bind, hkey]
  rfl

theorem opens_connect : Opens e (refusal e) (Kept e known) known (connect options e)
    (.start (known.has e)) := by
  cases h : known.has e with
  | true =>
    obtain ⟨key, hrun⟩ := run_connect options h
    unfold Opens
    rw [hrun]
    exact ⟨kept_self h, rfl⟩
  | false =>
    have hnone : known.get? e = none := by simpa [Dict.has] using h
    unfold Opens
    rw [connect, run_get_bind, hnone]
    show Opens e _ _ known (if (!Url.isWellFormed e.url) = true then _ else _) Check.due
    split_ifs
    · exact ⟨rfl, .inl rfl⟩
    -- The key comes before the check, and is remembered after it.
    · exact opens_bind keeps_signer fun key => opens_checkChain rfl (kept_set key)

theorem steady_connect (h : known.has e = true) : Steady e known (connect options e) := by
  obtain ⟨key, hrun⟩ := run_connect options h
  unfold Steady
  rw [hrun]
  exact ⟨rfl, rfl⟩

/-! ### After the check -/

theorem steady_roundOf (r : Abi.RoundWords) : Steady e known (roundOf r) := by
  have hnarrow (what : String) (n : Nat) : Steady e known (narrow what n) := by
    unfold narrow
    split_ifs
    · exact steady_pure _
    · exact steady_throw _
  exact steady_bind (hnarrow _ _) fun _ => steady_bind (hnarrow _ _) fun _ => steady_pure _

theorem steady_checkHash (hash : TxHash) : Steady e known (checkHash hash) := by
  unfold checkHash
  split_ifs
  · exact steady_pure _
  · exact steady_throw _

theorem steady_receipt (h : known.has d.endpoint = true) (hash : TxHash) :
    Steady d.endpoint known (receipt options d hash) :=
  steady_bind (steady_connect h) fun _ => steady_bind (steady_checkHash hash) fun _ =>
    steady_request (.inr (.receipt hash)) fun _ => steady_pure _

theorem steady_look (h : known.has d.endpoint = true) (hash : TxHash) (confirmations : UInt64) :
    Steady d.endpoint known (look options d hash confirmations) := by
  refine steady_bind (steady_receipt h hash) fun found => ?_
  cases found with
  | none => exact steady_pure _
  | some r =>
    refine steady_request (.inr .blockNumber) fun latest => ?_
    unfold judge
    cases depth latest r.block with
    | none => exact steady_throw _
    | some _ => exact steady_pure _

/-- Each look comes after the check. -/
theorem steady_poll (h : known.has d.endpoint = true) (hash : TxHash) (confirmations : UInt64)
    (start : Duration) (looks : Nat) :
    Steady d.endpoint known (poll options d hash confirmations start looks) := by
  -- The endpoint stays remembered from one look to the next.
  induction looks with
  | zero => exact steady_throw _
  | succ looks ih =>
    refine steady_bind (steady_ask (.inl .elapsed)) fun now => ?_
    show Steady _ _ (if start.nanos + options.patience.nanos < now.nanos then _ else _)
    split_ifs
    · exact steady_throw _
    · refine steady_bind (steady_look h hash confirmations) fun found => ?_
      cases found with
      | some r => exact steady_pure _
      | none => exact steady_bind (steady_ask (.inl (.sleep _))) fun _ => ih

/-! ### Calls -/

/-- The reply that is a failure. -/
def refuse : (r : Feed.Request) → PublishError → r.Reply
  | .latestRound _, err | .roundData _ _, err | .submit _ _, err | .receipt _ _, err
  | .isKnown _ _, err | .confirmation _ _ _, err => .error err

/-- A use that first makes sure that its endpoint serves its chain. -/
theorem ended_connect {α : Type} {f : Option Secp256k1.PrivateKey → Use α}
    (hf : ∀ key known', known'.has e = true → Steady e known' (f key)) :
    Keeps (following e) (Check.Permits e)
      (Ended (fun answer => .error (refusal e answer)) (Kept e known) known)
      (run (connect options e >>= f) known) (.start (known.has e)) :=
  opens_connect.ended fun key _ hkept => hf key _ hkept.has

theorem ended_submit (answer : Uint256) :
    Keeps (following d.endpoint) (Check.Permits d.endpoint)
      (Ended (fun answer => .error (refusal d.endpoint answer)) (Kept d.endpoint known) known)
      (run (submit options d answer) known) (.start (known.has d.endpoint)) := by
  unfold submit
  show Keeps _ _ _ (run (if (d.endpoint.credentialPath.isNone && options.account.isNone) = true
    then _ else _) known) _
  split_ifs
  -- Without anything to sign with, nothing is asked at all.
  · cases h : known.has d.endpoint with
    | true => exact .through _ (kept_self h)
    | false => exact .early _
  · exact ended_connect fun key _ _ => steady_bind (steady_ask (.inr (.send _ _ _))) fun _ =>
      steady_expect _ _

/-- How every call of a feed ends. -/
theorem ended_answer (r : Feed.Request) :
    Keeps (following r.destination.endpoint) (Check.Permits r.destination.endpoint)
      (Ended (fun answer => refuse r (refusal r.destination.endpoint answer))
        (Kept r.destination.endpoint known) known)
      (answer options r known) (.start (known.has r.destination.endpoint)) := by
  cases r with
  | latestRound d =>
    exact ended_connect fun _ _ _ => steady_request (.inr (.call _ _)) steady_roundOf
  | roundData d round =>
    refine ended_connect fun _ _ _ => steady_bind (steady_ask (.inr (.call _ _))) fun output => ?_
    show Steady _ _ _
    split
    next r _ =>
      show Steady _ _ (if r.updatedAt = 0 then _ else _)
      split_ifs
      · exact steady_pure _
      · exact steady_bind (steady_roundOf r) fun _ => steady_pure _
    -- A revert reads as a round never stored; any other failure is passed on.
    next reason _ =>
      split
      · exact steady_pure _
      · exact steady_throw _
  | submit d answer => exact ended_submit answer
  | receipt d hash =>
    exact ended_connect fun _ _ _ => steady_bind (steady_checkHash hash) fun _ =>
      steady_request (.inr (.receipt hash)) fun _ => steady_pure _
  | isKnown d hash =>
    exact ended_connect fun _ _ _ => steady_bind (steady_checkHash hash) fun _ =>
      steady_bind (steady_ask (.inr (.transaction hash))) fun _ => steady_expect _ _
  | confirmation d hash confirmations =>
    exact ended_connect fun _ _ h => steady_bind (steady_ask (.inl .elapsed)) fun start =>
      steady_poll h hash confirmations start _

end PriceFeed

/-! ## Contracts -/

namespace Contract

variable {known known' : Known}

/-- What a contract read is remembered by. -/
def key (e : Endpoint) : UInt64 × String := (e.chainId, e.url)

/-- After a passed check, what was remembered is, and so is the endpoint. -/
def Kept (e : Endpoint) (known known' : Known) : Prop :=
  ∀ k, k ∈ known' ↔ k ∈ known ∨ k = key e

/-- The failure of a check. -/
abbrev refusal (e : Endpoint) : Except String UInt64 → SourceError :=
  failure e .transport .invalidSource

theorem opens_connect : Opens e (refusal e) (Kept e known) known (connect e)
    (.start (known.contains (key e))) := by
  unfold Opens
  show Keeps _ _ _ (run (if known.contains (key e) = true then _ else _) known) _
  cases h : known.contains (key e) with
  | true =>
    rw [if_pos rfl]
    refine ⟨fun k => ⟨.inl, ?_⟩, rfl⟩
    rintro (hk | rfl)
    · exact hk
    · exact List.contains_iff_mem.mp h
  | false =>
    rw [if_neg Bool.false_ne_true]
    show Opens e _ _ known (if (!Url.isWellFormed e.url) = true then _ else _) Check.due
    split_ifs
    · exact ⟨rfl, .inl rfl⟩
    · refine opens_checkChain rfl fun k => ?_
      rw [List.mem_cons, or_comm]
      rfl

/-- How every call of a contract ends. -/
theorem ended_call (target : Address) (data : List UInt8) :
    Keeps (following e) (Check.Permits e)
      (Ended (fun answer => .error (refusal e answer)) (Kept e known) known)
      (run (call e target data) known) (.start (known.contains (key e))) :=
  opens_connect.ended fun _ _ _ => steady_bind (steady_ask (.inr (.call target data))) fun _ =>
    steady_expect _ _

end Contract

end PriceOracle.Node
