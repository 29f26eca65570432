import PriceOracle.Proofs.Program.Endings
import PriceOracle.Proofs.Publication
import PriceOracle.Registry

/-!
# What publications ask a feed

The two halves of a publication and the settling of a submission, by all that they ask a feed and
all that it replies: a value is sent at most once, right after the feed told that it is at the round
before (`Submits`), and a submission is given up only after the feed told that it came to nothing
(`Settles`).

* `updates`, `accepted`: what was sent to feeds, and what they took.
* `Careful`: an attempt that settles what is pending before it sends anything.
-/

namespace PriceOracle

/-- An update that was sent to a feed. -/
structure Update where
  destination : Destination
  answer : Uint256
  reply : Except PublishError TxHash

/-- The update that is sent. -/
def Feed.Request.update? : (r : Feed.Request) → r.Reply → Option Update
  | .submit d answer, reply => some ⟨d, answer, reply⟩
  | _, _ => none

namespace Publication

open Program (Keeps noting)

variable {d : Destination} {p : Pending} {value : Decimal} {round : RoundId}
  {F : Transcript Feed.interface}

/-- The updates that were sent, in their order. -/
def updates (F : Transcript Feed.interface) : List Update :=
  Transcript.picks Feed.Request.update? F

/-- The hashes of the updates that were accepted. -/
def accepted (F : Transcript Feed.interface) : List TxHash :=
  (updates F).filterMap fun u => u.reply.toOption

/-- An update carries a value as a round: it encodes the value, and the feed told that it was at the
round before. -/
structure Carries (d : Destination) (value : Decimal) (round : RoundId)
    (F : Transcript Feed.interface) (u : Update) : Prop where
  destination : u.destination = d
  encoded : encode d value = .ok u.answer
  next : ∃ current : FeedRound, ⟨.latestRound d, .ok current⟩ ∈ F ∧
    successor? current.round = some round

/-- An update carries what it does in view of all that was asked before, and of more. -/
theorem Carries.mono {F' : Transcript Feed.interface} {u : Update} (h : Carries d value round F u)
    (hF : F ⊆ F') : Carries d value round F' u := by
  obtain ⟨current, hmem, hround⟩ := h.next
  exact ⟨h.destination, h.encoded, current, hF hmem, hround⟩

/-- Nothing was sent. -/
def OnlyReads (F : Transcript Feed.interface) : Prop := ∀ entry ∈ F, entry.1.reads

@[simp] theorem updates_append (F S : Transcript Feed.interface) :
    updates (F ++ S) = updates F ++ updates S := List.filterMap_append ..

@[simp] theorem accepted_append (F S : Transcript Feed.interface) :
    accepted (F ++ S) = accepted F ++ accepted S := by
  rw [accepted, updates_append, List.filterMap_append]
  rfl

/-- Reads send nothing. -/
theorem OnlyReads.updates_eq (h : OnlyReads F) : updates F = [] := by
  refine List.filterMap_eq_nil_iff.mpr ?_
  rintro ⟨r, reply⟩ hentry
  cases r with
  | submit _ _ => exact (h _ hentry).elim
  | _ => rfl

/-- Where nothing is sent, nothing is taken. -/
theorem OnlyReads.accepted_eq (h : OnlyReads F) : accepted F = [] := by
  rw [accepted, h.updates_eq]
  rfl

/-- A use of a feed that only reads. -/
theorem keeps_reads {α : Type} {use : Feed.Use α} (h : use.run.Makes Feed.Request.reads)
    {post : Except PublishError α → Transcript Feed.interface → Prop}
    (hpost : Keeps noting anyRequest post use.run []) :
    Keeps noting anyRequest (fun e F => OnlyReads F ∧ post e F) use.run [] := by
  refine ((h.noting []).and hpost).mono ?_
  rintro e _ ⟨⟨F, rfl, hF⟩, hpost⟩
  exact ⟨hF, hpost⟩

/-! ## Settling a submission -/

/-- The feed told that a submission was mined, and that its round has the answer that was sent. -/
def Landed (d : Destination) (p : Pending) (F : Transcript Feed.interface) : Prop :=
  ∃ (receipt : Receipt) (r : FeedRound), receipt.success = true ∧ encode d p.answer = .ok r.answer ∧
    F = [⟨.receipt d p.txHash, .ok (some receipt)⟩, ⟨.roundData d p.round, .ok (some r)⟩]

/-- The feed told that a submission came to nothing: its transaction reverted, or there is no
receipt, no round of it and no node that knows it. -/
inductive Gone (d : Destination) (p : Pending) : Transcript Feed.interface → Prop
  | reverted (receipt : Receipt) : receipt.success = false →
      Gone d p [⟨.receipt d p.txHash, .ok (some receipt)⟩]
  | dropped (current : FeedRound) : current.round < p.round →
      Gone d p [⟨.receipt d p.txHash, .ok none⟩, ⟨.latestRound d, .ok current⟩,
        ⟨.isKnown d p.txHash, .ok false⟩]

/-- What a submission is settled as, and what the feed told. -/
inductive Settles (d : Destination) (p : Pending) :
    Except PublishError (Option RoundRecord) → Transcript Feed.interface → Prop
  | landed {r : RoundRecord} {F : Transcript Feed.interface} :
      Landed d p F → r.round = p.round → r.answer = p.answer → Settles d p (.ok (some r)) F
  | gone {F : Transcript Feed.interface} : Gone d p F → Settles d p (.ok none) F
  | unsettled {e : PublishError} {F : Transcript Feed.interface} :
      ¬Landed d p F → Settles d p (.error e) F

/-- What came to nothing did not land, whatever else was asked. -/
theorem Gone.not_landed (h : Gone d p F) (S : Transcript Feed.interface) :
    ¬Landed d p (F ++ S) := by
  rintro ⟨receipt, r, hsuccess, -, hF⟩
  cases h with
  | reverted receipt' hfailed =>
    obtain ⟨rfl⟩ := Except.ok.inj (eq_of_heq (Sigma.mk.inj (List.cons.inj hF).1).2)
    rw [hfailed] at hsuccess
    cases hsuccess
  | dropped => cases Except.ok.inj (eq_of_heq (Sigma.mk.inj (List.cons.inj hF).1).2)

/-- A submission landed only where its receipt and its round were told, in this order and with
nothing else asked. -/
theorem not_landed_of_ne (h : ∀ (receipt : Receipt) (r : FeedRound),
      F ≠ [⟨.receipt d p.txHash, .ok (some receipt)⟩, ⟨.roundData d p.round, .ok (some r)⟩]) :
    ¬Landed d p F := by
  rintro ⟨receipt, r, -, -, hF⟩
  exact h receipt r hF

/-- A submission without a receipt did not land. -/
theorem not_landed_of_unmined (S : Transcript Feed.interface) :
    ¬Landed d p (⟨.receipt d p.txHash, .ok none⟩ :: S) := by
  rintro ⟨receipt, r, -, -, hF⟩
  cases Except.ok.inj (eq_of_heq (Sigma.mk.inj (List.cons.inj hF).1).2)

/-- Without a receipt, a submission is given up only as another took its round or as it is unknown.
-/
theorem keeps_resolveUnmined_settles :
    Keeps noting anyRequest (Settles d p) (resolveUnmined d p).run
      [⟨.receipt d p.txHash, .ok none⟩] := by
  rw [resolveUnmined]
  refine Attempt.keeps_bind.mpr ⟨trivial, ?_⟩
  rintro (e | current) _ rfl
  · exact .unsettled (not_landed_of_unmined _)
  · show Keeps _ _ _ (ExceptT.run (if _ then _ else _)) _
    split
    · exact .unsettled (not_landed_of_unmined _)
    next hbehind =>
      refine Attempt.keeps_bind.mpr ⟨trivial, ?_⟩
      rintro (e | known) _ rfl
      · exact .unsettled (not_landed_of_unmined _)
      · cases known with
        | true => exact .unsettled (not_landed_of_unmined _)
        | false => exact .gone (.dropped current (UInt64.not_le.mp hbehind))

/-- With a receipt of success, the round is read back and compared. -/
theorem keeps_readBack_settles {receipt : Receipt} {answer : Uint256}
    (hsuccess : receipt.success = true) (hencoded : encode d p.answer = .ok answer) :
    Keeps noting anyRequest (fun e F => Settles d p (e.map some) F)
      (readBack d ⟨p.txHash, p.round, p.answer, answer⟩).run
      [⟨.receipt d p.txHash, .ok (some receipt)⟩] := by
  rw [readBack]
  refine Attempt.keeps_bind.mpr ⟨trivial, ?_⟩
  rintro (e | _ | r) _ rfl
  · exact .unsettled (not_landed_of_ne (by rintro _ _ ⟨⟩))
  · exact .unsettled (not_landed_of_ne (by rintro _ _ ⟨⟩))
  · show Keeps _ _ _ (ExceptT.run (if _ then _ else _)) _
    split
    · refine Attempt.keeps_bind.mpr ⟨trivial, ?_⟩
      rintro (e | latest) _ rfl
      · exact .unsettled (not_landed_of_ne (by rintro _ _ ⟨⟩))
      · exact .unsettled (not_landed_of_ne (by rintro _ _ ⟨⟩))
    next hsame =>
      obtain rfl := Decidable.of_not_not hsame
      exact .landed ⟨receipt, r, hsuccess, hencoded, rfl⟩ rfl rfl

/-- Settling a submission asks and concludes as `Settles` says. -/
theorem keeps_resolve_settles :
    Keeps noting anyRequest (Settles d p) (resolve d p).run [] := by
  rw [resolve]
  refine Attempt.keeps_bind.mpr (Attempt.keeps_ofExcept.mpr ?_)
  cases hencoded : encode d p.answer with
  | error e => exact .unsettled (not_landed_of_ne (by rintro _ _ ⟨⟩))
  | ok answer =>
    refine Attempt.keeps_bind.mpr ⟨trivial, ?_⟩
    rintro (e | _ | receipt) _ rfl
    · exact .unsettled (not_landed_of_ne (by rintro _ _ ⟨⟩))
    · exact keeps_resolveUnmined_settles
    · show Keeps _ _ _ (ExceptT.run (if _ then _ else _)) _
      split
      next hsuccess =>
        refine Attempt.keeps_bind.mpr ((keeps_readBack_settles hsuccess hencoded).mono ?_)
        rintro (e | r) F hsettles
        · exact hsettles
        · exact hsettles
      next hfailed => exact .gone (.reverted receipt (by simpa using hfailed))

/-- A submission is given up only when the feed told that it came to nothing, and is taken for a
round if and only if the feed told that it landed. -/
theorem keeps_resolve_told :
    Keeps noting anyRequest (fun e F => OnlyReads F ∧ Settles d p e F) (resolve d p).run [] :=
  keeps_reads (keeps_resolve (B := fun _ _ _ _ => True) .any fun _ _ => trivial).makes
    keeps_resolve_settles

/-! ## Sending a value -/

/-- What is asked where a value is sent as a round: nothing is sent, or its encoding is, once, right
after the feed told that it is at the round before. -/
inductive Submits (d : Destination) (value : Decimal) (round : RoundId) :
    Except PublishError Submission → Transcript Feed.interface → Prop
  | withheld {e : PublishError} {F : Transcript Feed.interface} :
      OnlyReads F → Submits d value round (.error e) F
  | refused {current : FeedRound} {answer : Uint256} {e : PublishError} :
      successor? current.round = some round → encode d value = .ok answer →
      Submits d value round (.error e)
        [⟨.latestRound d, .ok current⟩, ⟨.submit d answer, .error e⟩]
  | taken {current : FeedRound} {answer : Uint256} {hash : TxHash} :
      successor? current.round = some round → encode d value = .ok answer →
      Submits d value round (.ok ⟨hash, round, value, answer⟩)
        [⟨.latestRound d, .ok current⟩, ⟨.submit d answer, .ok hash⟩]

/-- Submitting a value asks and sends as `Submits` says. -/
theorem keeps_submitRound_submits :
    Keeps noting anyRequest (Submits d value round) (submitRound d value round).run [] := by
  rw [submitRound]
  refine Attempt.keeps_bind.mpr ?_
  cases hencoded : encode d value with
  | error e => exact .withheld (by simp [OnlyReads])
  | ok answer =>
    refine Attempt.keeps_bind.mpr ⟨trivial, ?_⟩
    rintro (e | current) _ rfl
    · exact .withheld (by simp [OnlyReads, Feed.Request.reads])
    · refine Attempt.keeps_bind.mpr ?_
      cases hchecked : checkNext current.round round with
      | error e => exact .withheld (by simp [OnlyReads, Feed.Request.reads])
      | ok _ =>
        have hnext := checkNext_eq_ok.mp hchecked
        refine Attempt.keeps_bind.mpr ⟨trivial, ?_⟩
        rintro (e | hash) _ rfl
        · exact .refused hnext hencoded
        · exact .taken hnext hencoded

/-- An update carries its value when it follows at once on the round before. -/
theorem carries_pair {current : FeedRound} {answer : Uint256} {reply : Except PublishError TxHash}
    (hnext : successor? current.round = some round) (hencoded : encode d value = .ok answer) :
    Carries d value round [⟨.latestRound d, .ok current⟩, ⟨.submit d answer, reply⟩]
      ⟨d, answer, reply⟩ :=
  ⟨rfl, hencoded, current, List.mem_cons_self, hnext⟩

/-- At most one update is sent, and it carries the value. -/
theorem Submits.sends {e : Except PublishError Submission} (h : Submits d value round e F) :
    (updates F).length ≤ 1 ∧ ∀ u ∈ updates F, Carries d value round F u := by
  cases h with
  | withheld hF => simp [hF.updates_eq]
  | refused hnext hencoded | taken hnext hencoded =>
    exact ⟨Nat.le_refl 1, List.forall_mem_singleton.mpr (carries_pair hnext hencoded)⟩

/-- A submission is of the value and the round, and its update was accepted. -/
theorem Submits.submission {s : Submission} (h : Submits d value round (.ok s) F) :
    s.round = round ∧ s.value = value ∧ s.txHash ∈ accepted F := by
  cases h with
  | taken _ _ => exact ⟨rfl, rfl, List.mem_singleton_self _⟩

/-- Waiting for a submission sends nothing; a round that it comes to is the one submitted. -/
theorem keeps_confirmRound_reads (depth : UInt64) (x : Submission) :
    Keeps noting anyRequest
      (fun e F => OnlyReads F ∧ ∀ r, e = .ok r → r.round = x.round ∧ r.answer = x.value)
      (confirmRound depth d x).run [] := by
  refine keeps_reads (keeps_confirmRound (B := fun _ _ _ _ => True) .any depth d x).makes
    (((keeps_confirmRound .any depth d x).mono ?_).allowing fun _ _ _ => trivial)
  rintro _ F hends r rfl
  have htold : Told noting d x r F := hends
  exact ⟨htold.round_eq, htold.value_eq⟩

/-- What is asked where a value is published: it is sent, and nothing more is sent while the update
is waited for. -/
inductive Publishes (d : Destination) (value : Decimal) (round : RoundId) :
    Transcript Feed.interface → Prop
  | intro {e : Except PublishError Submission} {S R : Transcript Feed.interface} :
      Submits d value round e S → OnlyReads R → Publishes d value round (S ++ R)

theorem Submits.publishes {e : Except PublishError Submission} (h : Submits d value round e F) :
    Publishes d value round F := by
  simpa using Publishes.intro h (R := []) (List.forall_mem_nil _)

theorem publishes_nil : Publishes d value round [] :=
  (Submits.withheld (e := .network "") (List.forall_mem_nil _)).publishes

/-- A publication sends what its submission does. -/
theorem Publishes.sends (h : Publishes d value round F) :
    (updates F).length ≤ 1 ∧ ∀ u ∈ updates F, Carries d value round F u := by
  cases h with
  | intro hsubmits hreads =>
    rw [updates_append, hreads.updates_eq, List.append_nil]
    exact hsubmits.sends.imp_right fun h u hu => (h u hu).mono (List.subset_append_left _ _)

/-! ## How much is asked -/

/-- The latest round and the update. -/
theorem within_submitRound : (submitRound d value round).run.Within 2 := by
  rw [submitRound]
  refine Attempt.within_bind (m := 0) (n := 2) trivial fun answer => ?_
  refine Attempt.within_bind (m := 1) (n := 1) (fun _ => trivial) fun current => ?_
  refine Attempt.within_bind (m := 0) (n := 1) trivial fun _ => ?_
  exact Attempt.within_bind (m := 1) (n := 0) (fun _ => trivial) fun _ => trivial

/-- The round, and the latest one where it is not as it was sent. -/
theorem within_readBack (s : Submission) : (readBack d s).run.Within 2 := by
  rw [readBack]
  refine Attempt.within_bind (m := 1) (n := 1) (fun _ => trivial) fun found => ?_
  cases found with
  | none => exact trivial
  | some r =>
    show Program.Within (ExceptT.run (if _ then _ else _)) 1
    split
    · exact Attempt.within_bind (m := 1) (n := 0) (fun _ => trivial) fun _ => trivial
    · exact trivial

theorem within_confirmRound (depth : UInt64) (s : Submission) :
    (confirmRound depth d s).run.Within 3 := by
  rw [confirmRound]
  refine Attempt.within_bind (m := 1) (n := 2) (fun _ => trivial) fun receipt => ?_
  show Program.Within (ExceptT.run (if _ then _ else _)) 2
  split
  · exact trivial
  · exact within_readBack s

theorem within_resolveUnmined : (resolveUnmined d p).run.Within 2 := by
  rw [resolveUnmined]
  refine Attempt.within_bind (m := 1) (n := 1) (fun _ => trivial) fun current => ?_
  show Program.Within (ExceptT.run (if _ then _ else _)) 1
  split
  · exact trivial
  · refine Attempt.within_bind (m := 1) (n := 0) (fun _ => trivial) fun known => ?_
    cases known <;> exact trivial

/-- The receipt, and what is asked with it or without it. -/
theorem within_resolve : (resolve d p).run.Within 3 := by
  rw [resolve]
  refine Attempt.within_bind (m := 0) (n := 3) trivial fun answer => ?_
  refine Attempt.within_bind (m := 1) (n := 2) (fun _ => trivial) fun found => ?_
  cases found with
  | none => exact within_resolveUnmined
  | some receipt =>
    show Program.Within (ExceptT.run (if _ then _ else _)) 2
    split
    · exact Attempt.within_bind (m := 2) (n := 0) (within_readBack _) fun _ => trivial
    · exact trivial

/-! ## Attempts -/

/-- What an attempt to publish comes to. -/
abbrev Result := Except RegistryError (Except PublishError RoundRecord)

/-- What an attempt to publish asks: nothing is sent as long as a submission is pending, unless it
came to nothing just now, and a submission that landed is the attempt's round. -/
inductive Careful (d : Destination) (value : Decimal) (round : RoundId) :
    Option Pending → Transcript Feed.interface → Result → Prop
  | landed {p : Pending} {r : RoundRecord} {F : Transcript Feed.interface} :
      Landed d p F → OnlyReads F → Careful d value round (some p) F (.ok (.ok r))
  | unsettled {p : Pending} {e : PublishError} {F : Transcript Feed.interface} :
      ¬Landed d p F → OnlyReads F → Careful d value round (some p) F (.ok (.error e))
  | again {p : Pending} {F S : Transcript Feed.interface} {result : Result} :
      Gone d p F → OnlyReads F → Publishes d value round S →
      Careful d value round (some p) (F ++ S) result
  | fresh {S : Transcript Feed.interface} {result : Result} :
      Publishes d value round S → Careful d value round none S result

variable {pending : Option Pending} {result : Result}

/-- An attempt sends at most one update, which carries the value as the round. -/
theorem Careful.sends (h : Careful d value round pending F result) :
    (updates F).length ≤ 1 ∧ ∀ u ∈ updates F, Carries d value round F u := by
  cases h with
  | landed _ hF | unsettled _ hF => simp [hF.updates_eq]
  | again _ hF hS =>
    rw [updates_append, hF.updates_eq, List.nil_append]
    exact hS.sends.imp_right fun h u hu => (h u hu).mono (List.subset_append_right _ _)
  | fresh hS => exact hS.sends

/-- While a submission is pending, nothing is sent unless it came to nothing just now. -/
theorem Careful.held (h : Careful d value round (some p) F result) :
    updates F = [] ∨ ∃ R S, F = R ++ S ∧ Gone d p R ∧ OnlyReads R := by
  cases h with
  | landed _ hF | unsettled _ hF => exact .inl hF.updates_eq
  | again hgone hR _ => exact .inr ⟨_, _, rfl, hgone, hR⟩

/-- A submission that landed after all is not sent again, but is the attempt's round. -/
theorem Careful.of_landed (h : Careful d value round (some p) F result) (hlanded : Landed d p F) :
    updates F = [] ∧ ∃ r, result = .ok (.ok r) := by
  cases h with
  | landed _ hF => exact ⟨hF.updates_eq, _, rfl⟩
  | unsettled hnot _ => exact absurd hlanded hnot
  | again hgone _ _ => exact absurd hlanded (hgone.not_landed _)

end Publication

end PriceOracle
