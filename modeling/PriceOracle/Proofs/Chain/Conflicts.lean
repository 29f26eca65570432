import PriceOracle.Proofs.Chain.Submissions

/-!
# Conflicts over rounds

A pending submission that has no receipt, on a feed that is at its round, counts as overtaken: some
other transaction seems to have written the round. But the receipt and the latest round are read one
after the other, and the chain goes on in between.

Here nobody else writes the feed and every answer holds at the moment it is given
(`Chain.candid`). A conflict then is always one with the submission itself, and comes up exactly
where its transaction is mined after the receipt was asked for and before the latest round is.
-/

namespace PriceOracle

open Attempt (Ends)
open Chain (Moves)
open Program (Keeps Leads)
open Registry (Kept)

/-- A failed publication that is a conflict. -/
def PublishError.IsConflict (e : PublishError) : Prop :=
  ∃ expected actual, e = .roundConflict expected actual

/-- A feed answers with a conflict. Nodes never do: it is for publications to tell. -/
def Feed.Request.Conflicts : (r : Feed.Request) → r.Reply → Prop
  | .latestRound _, .error e | .roundData _ _, .error e | .submit _ _, .error e
  | .receipt _ _, .error e | .isKnown _ _, .error e | .confirmation _ _ _, .error e => e.IsConflict
  | _, _ => False

namespace Chain

/-- The world of a feed that is written by nobody else and tells the truth, where it does not
fail. -/
def candid (key : FeedKey) (mayFail : Storage.Request → Storage.Memory → Prop) : Nature Chain where
  feed := fun r s reply s' => answers key r s reply s' ∧ ¬r.Conflicts reply
  moves := Moves False
  mayFail := mayFail

/-- A transaction with an answer was sent for the round behind the last one, and no other is in
flight. -/
structure Awaits (s : Chain) (h : TxHash) (answer : Uint256) (last : RoundId) : Prop where
  alone : ∀ g, s.InFlight g → h = g
  due : Watch.Due last h s
  sent : ∃ f, s.transactions h = some ⟨answer, f⟩
  written : s.Mined h → s.rounds.getLast? = some answer

variable {key : FeedKey} {mayFail : Storage.Request → Storage.Memory → Prop} {s s' : Chain}
  {h : TxHash} {answer : Uint256} {last : RoundId} {d : Destination} {p : Pending}

/-! ## The transaction of a submission -/

theorem awaits_sent (hclear : ∀ g, ¬s.InFlight g) (hlatest : s.latest = last.toNat) :
    (s.sent h answer).Awaits h answer last where
  alone := by
    intro g hflight
    by_contra hne
    exact hclear g ((fate_put_of_ne _ _ (Ne.symm hne)).symm.trans hflight)
  due := .inl ⟨hlatest, .inl inFlight_sent⟩
  sent := ⟨.inFlight, Function.update_self _ _ _⟩
  written := by
    rintro ⟨n, hmined⟩
    have hflight : (s.sent h answer).InFlight h := inFlight_sent
    cases hmined.symm.trans hflight

/-- Nothing but the transaction itself moves. -/
theorem Awaits.move (hawaits : s.Awaits h answer last) (hmove : Move False s s') :
    s'.Awaits h answer last := by
  have hdue : Watch.Due last h s' := hawaits.due.move not_false hawaits.alone hmove
  have halone : ∀ g, s'.InFlight g → h = g := fun g hflight =>
    hawaits.alone g (hmove.inFlight hflight)
  obtain ⟨f, hsent⟩ := hawaits.sent
  have hsettled : ∀ {g : TxHash} {answer' : Uint256},
      s.transactions g = some ⟨answer', .inFlight⟩ → h = g ∧ answer = answer' := by
    intro g answer' htransaction
    obtain rfl := hawaits.alone g (inFlight_of_transaction htransaction)
    have hsame := Option.some.inj (hsent.symm.trans htransaction)
    exact ⟨rfl, congrArg Transaction.answer hsame⟩
  cases hmove with
  | mine htransaction =>
    obtain ⟨rfl, rfl⟩ := hsettled htransaction
    exact ⟨halone, hdue, ⟨_, Function.update_self _ _ _⟩, fun _ => List.getLast?_concat⟩
  | revert htransaction | drop htransaction =>
    obtain ⟨rfl, rfl⟩ := hsettled htransaction
    refine ⟨halone, hdue, ⟨_, Function.update_self _ _ _⟩, ?_⟩
    rintro ⟨n, hmined⟩
    rw [fate_put_self] at hmined
    cases hmined
  | other _ hshared => exact hshared.elim

theorem Awaits.moves (hawaits : s.Awaits h answer last) (hmoves : Moves False s s') :
    s'.Awaits h answer last := by
  induction hmoves with
  | refl => exact hawaits
  | tail _ hmove ih => exact ih.move hmove

/-- The feed is at the round of the transaction if and only if it was mined. -/
theorem Awaits.mined_iff (hawaits : s.Awaits h answer last) :
    s.Mined h ↔ s.latest = last.toNat + 1 := by
  constructor
  · rintro ⟨n, hmined⟩
    rcases hawaits.due with ⟨-, hf | hf | hf⟩ | ⟨hlatest, -⟩
    · cases hmined.symm.trans hf
    · cases hmined.symm.trans hf
    · cases hmined.symm.trans hf
    · exact hlatest
  · intro hlatest
    rcases hawaits.due with ⟨hbefore, -⟩ | ⟨-, hmined⟩
    · omega
    · exact ⟨_, hmined⟩

theorem Awaits.latest_le (hawaits : s.Awaits h answer last) : s.latest ≤ last.toNat + 1 := by
  rcases hawaits.due with ⟨hlatest, -⟩ | ⟨hlatest, -⟩ <;> omega

/-- A transaction that is mined later was in flight. -/
theorem Awaits.inFlight_of_mined (hawaits : s.Awaits h answer last) (hbefore : ¬s.Mined h)
    (hmoves : Moves False s s') (hafter : s'.Mined h) : s.InFlight h := by
  obtain ⟨n, hmined⟩ := hafter
  rcases hawaits.due with ⟨-, hf | hf | hf⟩ | ⟨-, hf⟩
  · exact hf
  · cases (hmoves.fate hf (by simp)).symm.trans hmined
  · cases (hmoves.fate hf (by simp)).symm.trans hmined
  · exact absurd ⟨_, hf⟩ hbefore

/-- What a feed tells of the round of the transaction is its answer. -/
theorem Awaits.answer_eq (hawaits : s.Awaits h answer last) (hmined : s.Mined h) {a : Uint256}
    (htold : s.rounds[last.toNat + 1 - 1]? = some a) : a = answer := by
  have hlast : s.rounds.getLast? = some a := by
    rw [List.getLast?_eq_getElem?]
    have hlength : s.rounds.length = last.toNat + 1 := hawaits.mined_iff.mp hmined
    rw [hlength]
    exact htold
  exact Option.some.inj (hlast.symm.trans (hawaits.written hmined))

/-! ## What is read one after the other -/

/-- What a read tells is the truth, it is no conflict, and afterwards the chain goes on. -/
theorem candid_read {r : Feed.Request} {reply : r.Reply} (hread : r.IsRead)
    (hkey : r.destination.key = key) (hreply : (candid key mayFail).onFeed r s reply s') :
    s.Truthful r reply ∧ ¬r.Conflicts reply ∧ Moves False s s' := by
  obtain ⟨s₁, ⟨hanswer, hnot⟩, hmoves⟩ := hreply
  cases r with
  | submit d answer => exact hread.elim
  | _ =>
    obtain ⟨htrue, rfl⟩ := hanswer
    exact ⟨htrue hkey, hnot, hmoves⟩

/-- A submission without a receipt is in conflict only where it was mined meanwhile, and then with
itself. -/
theorem keeps_resolveUnmined (hkey : d.key = key) (hround : p.round.toNat = last.toNat + 1)
    (hawaits : s.Awaits p.txHash answer last) :
    Keeps (candid key mayFail).onFeed Publication.anyRequest
      (Ends (fun _ _ => True) fun e s' => e.IsConflict →
        e = .roundConflict p.round p.round ∧ s.Mined p.txHash ∧ Moves False s s')
      (Publication.resolveUnmined d p).run s := by
  rw [Publication.resolveUnmined]
  refine Attempt.keeps_bind.mpr ⟨trivial, ?_⟩
  intro reply s₁ hreply
  obtain ⟨htrue, hnot, hmoves⟩ := candid_read (r := .latestRound d) trivial hkey hreply
  cases reply with
  | error e => exact fun hconflict => absurd hconflict hnot
  | ok current =>
    have hcurrent : current.round.toNat = s.latest := htrue.1
    show Keeps _ _ _ (ExceptT.run (if _ then _ else _)) s₁
    split
    · rename_i hpassed
      -- The feed has reached the round awaited, and it cannot have gone past it.
      have hle : p.round.toNat ≤ current.round.toNat := UInt64.le_iff_toNat_le.mp hpassed
      have hmost := hawaits.latest_le
      have hsame : current.round = p.round := UInt64.toNat_inj.mp (by omega)
      have hmined : s.Mined p.txHash := hawaits.mined_iff.mpr (by omega)
      refine fun _ => ⟨?_, hmined, hmoves⟩
      rw [hsame]
    · refine Attempt.keeps_bind.mpr ⟨trivial, ?_⟩
      intro reply s₂ hreply
      obtain ⟨-, hnot, -⟩ := candid_read (r := .isKnown d p.txHash) trivial hkey hreply
      cases reply with
      | error e => exact fun hconflict => absurd hconflict hnot
      | ok known =>
        show Keeps _ _ _ (ExceptT.run (if _ then _ else _)) s₂
        split
        · rintro ⟨expected, actual, heq⟩
          cases heq
        · exact trivial

/-- The round of a submission that was mined holds its answer, whenever it is read. -/
theorem keeps_readBack {x : Submission} (hkey : d.key = key)
    (hround : x.round.toNat = last.toNat + 1) (hawaits : s.Awaits x.txHash x.answer last)
    (hmined : s.Mined x.txHash) :
    Keeps (candid key mayFail).onFeed Publication.anyRequest
      (Ends (fun _ _ => True) fun e _ => ¬e.IsConflict) (Publication.readBack d x).run s := by
  rw [Publication.readBack]
  refine Attempt.keeps_bind.mpr ⟨trivial, ?_⟩
  intro reply s₁ hreply
  obtain ⟨htrue, hnot, -⟩ := candid_read (r := .roundData d x.round) trivial hkey hreply
  cases reply with
  | error e => exact hnot
  | ok found =>
    cases found with
    | none =>
      rintro ⟨expected, actual, heq⟩
      cases heq
    | some r =>
      obtain ⟨-, -, htold⟩ := htrue
      rw [hround] at htold
      have hanswer : r.answer = x.answer := hawaits.answer_eq hmined htold
      show Keeps _ _ _ (ExceptT.run (if _ then _ else _)) s₁
      rw [if_neg (not_not.mpr hanswer)]
      exact trivial

/-- Settling a submission ends in a conflict only where it was in flight before and mined by the
time the latest round is read. -/
theorem keeps_resolve (hkey : d.key = key) (hencoded : Publication.encode d p.answer = .ok answer)
    (hround : p.round.toNat = last.toNat + 1) (hawaits : s.Awaits p.txHash answer last) :
    Keeps (candid key mayFail).onFeed Publication.anyRequest
      (Ends (fun _ _ => True) fun e s' => e.IsConflict →
        e = .roundConflict p.round p.round ∧ s.InFlight p.txHash ∧ s'.Mined p.txHash ∧
          Moves False s s')
      (Publication.resolve d p).run s := by
  rw [Publication.resolve, hencoded]
  refine Attempt.keeps_bind.mpr (Attempt.keeps_bind.mpr ⟨trivial, ?_⟩)
  intro reply s₁ hreply
  obtain ⟨htrue, hnot, hmoves⟩ := candid_read (r := .receipt d p.txHash) trivial hkey hreply
  have hawaits₁ := hawaits.moves hmoves
  cases reply with
  | error e => exact fun hconflict => absurd hconflict hnot
  | ok found =>
    cases found with
    | none =>
      -- No receipt: unmined at this read, so mined at the next means mined in between.
      obtain ⟨hbefore, -⟩ := htrue
      refine (keeps_resolveUnmined hkey hround hawaits₁).mono ?_
      intro e s' hend
      cases e with
      | ok _ => exact trivial
      | error e =>
        intro hconflict
        obtain ⟨hown, hafter, hmoves'⟩ := hend hconflict
        exact ⟨hown, hawaits.inFlight_of_mined hbefore hmoves hafter, hmoves'.mined hafter,
          hmoves.trans hmoves'⟩
    | some receipt =>
      show Keeps _ _ _ (ExceptT.run (if _ then _ else _)) s₁
      split
      · rename_i hsuccess
        have hmined : s₁.Mined p.txHash := hmoves.mined (Shows.mined htrue hsuccess)
        refine Attempt.keeps_bind.mpr ((keeps_readBack hkey hround hawaits₁ hmined).mono ?_)
        intro e s' hend
        cases e with
        | ok _ => exact trivial
        | error e => exact fun hconflict => absurd hconflict hend
      · exact trivial

/-! ## A conflict with oneself -/

/-- A submission that was mined looks overtaken to whoever did not see its receipt. -/
theorem resolveUnmined_conflicts (hround : p.round.toNat = last.toNat + 1)
    (hawaits : s.Awaits p.txHash answer last) (hmined : s.Mined p.txHash)
    (hmoves : Moves False s s') :
    Leads (candid key mayFail).onFeed (Publication.resolveUnmined d p).run s
      (.done (.error (.roundConflict p.round p.round))) s' := by
  have hlatest : s.latest = p.round.toNat := (hawaits.mined_iff.mp hmined).trans hround.symm
  obtain ⟨current, hcurrent, htold⟩ := may_tell key d hlatest
  have hask : (candid key mayFail).onFeed (.latestRound d) s (.ok current) s' :=
    ⟨s, ⟨htold, not_false⟩, hmoves⟩
  refine .ask hask ?_
  show Leads _ (ExceptT.run (if p.round ≤ current.round then _ else _)) _ _ _
  rw [hcurrent, if_pos (UInt64.le_refl _)]
  exact .here _ _

/-- The receipt is asked for while the transaction is in flight, and the latest round when it was
mined. -/
theorem resolve_conflicts (hencoded : Publication.encode d p.answer = .ok answer)
    (hround : p.round.toNat = last.toNat + 1) (hawaits : s.Awaits p.txHash answer last)
    (hflight : s.InFlight p.txHash) (hmined : s'.Mined p.txHash) (hmoves : Moves False s s') :
    Leads (candid key mayFail).onFeed (Publication.resolve d p).run s
      (.done (.error (.roundConflict p.round p.round))) s' := by
  have hnone : s.Truthful (.receipt d p.txHash) (.ok none) := by
    constructor
    · rintro ⟨n, hmined⟩
      cases hmined.symm.trans hflight
    · intro hreverted
      cases hreverted.symm.trans hflight
  have hask : (candid key mayFail).onFeed (.receipt d p.txHash) s (.ok none) s' :=
    ⟨s, ⟨⟨fun _ => hnone, rfl⟩, not_false⟩, hmoves⟩
  rw [Publication.resolve, hencoded]
  exact .ask hask (resolveUnmined_conflicts hround (hawaits.moves hmoves) hmined .refl)

/-- Settling a submission that was sent for the next round of its feed may end in a conflict if and
only if its transaction is in flight before and mined after. One that was mined before its receipt
is asked for is not taken for another, and neither is one that is not mined by the time the latest
round is read, whatever happens afterwards. -/
theorem conflicts_iff_mined_meanwhile {s₀ : Chain} (hkey : d.key = key)
    (hencoded : Publication.encode d p.answer = .ok answer)
    (hclear : ∀ g, ¬s₀.InFlight g) (hround : p.round.toNat = s₀.latest + 1)
    (hmoves : Moves False (s₀.sent p.txHash answer) s) :
    (∀ s', (∃ expected actual, Leads (candid key mayFail).onFeed (Publication.resolve d p).run s
        (.done (.error (.roundConflict expected actual))) s') ↔
      s.InFlight p.txHash ∧ s'.Mined p.txHash ∧ Moves False s s') ∧
    ∀ s₁ s', Moves False s s₁ →
      ((∃ expected actual, Leads (candid key mayFail).onFeed (Publication.resolveUnmined d p).run s₁
        (.done (.error (.roundConflict expected actual))) s') ↔
        s₁.Mined p.txHash ∧ Moves False s₁ s') := by
  -- The round before the pending one is where the feed stood when it was sent.
  let last : RoundId := p.round - 1
  have hlast : last.toNat = s₀.latest := by
    have hone : (1 : UInt64).toNat = 1 := rfl
    have hle : (1 : UInt64) ≤ p.round := UInt64.le_iff_toNat_le.mpr (by omega)
    rw [UInt64.toNat_sub_of_le _ _ hle]
    omega
  have hnext : p.round.toNat = last.toNat + 1 := by omega
  have hawaits : s.Awaits p.txHash answer last := (awaits_sent hclear hlast.symm).moves hmoves
  constructor
  · intro s'
    constructor
    · rintro ⟨expected, actual, hrun⟩
      exact ((keeps_resolve hkey hencoded hnext hawaits).leads hrun ⟨_, _, rfl⟩).2
    · rintro ⟨hflight, hmined, hmoves'⟩
      exact ⟨_, _, resolve_conflicts hencoded hnext hawaits hflight hmined hmoves'⟩
  · intro s₁ s' hmoves₁
    have hawaits₁ := hawaits.moves hmoves₁
    constructor
    · rintro ⟨expected, actual, hrun⟩
      exact ((keeps_resolveUnmined hkey hnext hawaits₁).leads hrun ⟨_, _, rfl⟩).2
    · rintro ⟨hmined, hmoves'⟩
      exact ⟨_, _, resolveUnmined_conflicts hnext hawaits₁ hmined hmoves'⟩

/-- The first submission to a feed, mined while it is settled. -/
theorem conflicts_when_mined_meanwhile :
    ∃ (s s' : Chain) (p : Pending), (∀ g, ¬Chain.empty.InFlight g) ∧
      p.round.toNat = Chain.empty.latest + 1 ∧
      Moves False (Chain.empty.sent p.txHash Cycle.fiveAnswer) s ∧
      ∃ expected actual, Leads (candid Cycle.ethUsd.destination.key fun _ _ => False).onFeed
        (Publication.resolve Cycle.ethUsd.destination p).run s
        (.done (.error (.roundConflict expected actual))) s' := by
  let p : Pending := ⟨⟨[]⟩, 1, Cycle.five⟩
  have hclear : ∀ g, ¬Chain.empty.InFlight g := fun g hflight => by cases hflight
  exact ⟨_, _, p, hclear, rfl, .refl, ((conflicts_iff_mined_meanwhile rfl
    Cycle.finds_five.encoded hclear rfl .refl).1 _).mpr
      ⟨inFlight_sent, mined_sentAndMined, moves_mined⟩⟩

end Chain

/-! ## An oracle that halts over its own round -/

open PriceOracle.Chain (candid) in
open PriceOracle.Cycle in
/-- An oracle whose submission is mined while a cycle settles it is halted, although the round that
it finds is its own. -/
theorem own_round_halts_oracle :
    ∃ (w w' w'' : World Chain) (p : Pending) (b b' : Bookkeeping) (reason : String),
      (candid ethUsd.destination.key fun _ _ => False).Reachable ethUsd.id w ∧
      (∀ g, ¬w.outside.InFlight g) ∧ p.round.toNat = w.outside.latest + 1 ∧
      (candid ethUsd.destination.key fun _ _ => False).Step ethUsd.id w
        (.cycled (.ok (.publishFailed p.round reason true))) w' ∧
      Kept ethUsd.id ⟨ethUsd, b⟩ w'.table w'.storage ∧ b.pending = some p ∧
      w'.outside = w.outside.sent p.txHash fiveAnswer ∧
      (candid ethUsd.destination.key fun _ _ => False).Step ethUsd.id w'
        (.cycled (.ok (.publishFailed p.round (PublishError.roundConflict p.round p.round).message
          false))) w'' ∧
      Kept ethUsd.id ⟨ethUsd, b'⟩ w''.table w''.storage ∧ b'.isHalted = true ∧
      w''.outside = w.outside.sentAndMined p.txHash fiveAnswer := by
  let N : Nature Chain := candid ethUsd.destination.key fun _ _ => False
  let h : TxHash := ⟨[]⟩
  let p : Pending := ⟨h, 1, five⟩
  have hmoves : ∀ s, N.moves s s := fun _ => .refl
  obtain ⟨w, hregister, hkept, -, houtside⟩ := N.registers hmoves (c := ethUsd) rfl Chain.empty
  -- The first cycle submits, and waits in vain.
  obtain ⟨current, hcurrent, htold⟩ :=
    Chain.may_tell ethUsd.destination.key ethUsd.destination (s := Chain.empty) (n := 0) rfl
  have htakes : Takes N ethUsd .initial fiveAnswer h Chain.empty (Chain.empty.sent h fiveAnswer) :=
    ⟨⟨current, hcurrent, htold, not_false⟩,
      ⟨_, ⟨⟨fun _ => ⟨rfl, rfl⟩, fun hne => absurd rfl hne⟩, not_false⟩, .refl⟩⟩
  have hwait : N.feed (.confirmation ethUsd.destination h onceOnly.depth)
      (Chain.empty.sent h fiveAnswer) (.error (.timeout "no receipt"))
      (Chain.empty.sent h fiveAnswer) :=
    ⟨Chain.may_fail_to_confirm _, by rintro ⟨_, _, heq⟩; cases heq⟩
  obtain ⟨w', hstep, hkept', houtside'⟩ := step_of_reaches
    (reaches_end_unconfirmed hmoves rfl ready_initial next_initial finds_five htakes rfl hwait 0)
    hkept houtside
  -- The second one asks for the receipt before the transaction is mined.
  have hawaits : (Chain.empty.sent h fiveAnswer).Awaits h fiveAnswer 0 :=
    Chain.awaits_sent (fun g hflight => by cases hflight) rfl
  have hresolve : Leads N.onFeed (Publication.resolve ethUsd.destination p).run
      (Chain.empty.sent h fiveAnswer) (.done (.error (.roundConflict 1 1)))
      (Chain.empty.sentAndMined h fiveAnswer) :=
    Chain.resolve_conflicts finds_five.encoded rfl hawaits Chain.inFlight_sent
      Chain.mined_sentAndMined Chain.moves_mined
  have hinTime : 0 < (⟨1⟩ : Duration).nanos := Nat.one_pos
  obtain ⟨w'', hstep', hkept'', houtside''⟩ := step_of_reaches
    (reaches_end_halted onceOnly hmoves rfl rfl hinTime hresolve rfl nofun 0) hkept' houtside'
  refine ⟨w, w', w'', p, _, _, _, ⟨Chain.empty, [_], .cons hregister (.nil w)⟩, ?_, ?_, hstep,
    hkept', rfl, ?_, hstep', hkept'', rfl, ?_⟩
  · rw [houtside]
    intro g hflight
    cases hflight
  · rw [houtside]
    rfl
  · rw [houtside]
    exact houtside'
  · rw [houtside]
    exact houtside''

end PriceOracle
