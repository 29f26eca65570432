import PriceOracle.Proofs.Cycle.Paths

/-!
# Rounds follow each other

Whatever feeds and sources answer and wherever storage fails, a cycle that publishes writes the
round after the last one down, in memory and in storage, and all else that a cycle does leaves last
round and last value alone. So the rounds that an oracle publishes are consecutive until its
bookkeeping is started over.

What carries this is `InStep`: a submission that is remembered is always for the next round.
-/

namespace PriceOracle

open Attempt (Ends)
open Program (Keeps Leads)
open Registry (Kept Unlisted storedRow? carriedOver)

variable {φ : Type} {N : Nature φ} {id : OracleId} {c : OracleConfig} {w w' : World φ}

/-! ## What is remembered -/

/-- The last round and the last value of a row. -/
def Row.last (r : Row) : RoundId × Option Decimal :=
  (r.bookkeeping.lastRound, r.bookkeeping.lastValue)

/-- The last round and the last value of an oracle, in memory. -/
def World.last? (w : World φ) (id : OracleId) : Option (RoundId × Option Decimal) :=
  (w.table.row? id).map Row.last

/-- The last round and the last value of an oracle, in storage. -/
def World.storedLast? (w : World φ) (id : OracleId) : Option (RoundId × Option Decimal) :=
  (storedRow? id w.storage).map Row.last

/-- A submission that is remembered is for the next round. -/
def InStep : Standing φ := fun o _ =>
  ∀ row p, o = some row → row.bookkeeping.pending = some p →
    row.bookkeeping.nextRound = some p.round

/-- A submission is for the next round, and the last round and value are given. -/
def Tracks (n : RoundId) (v : Option Decimal) : Standing φ := fun o s =>
  InStep o s ∧ ∀ row, o = some row → row.last = (n, v)

theorem settled_inStep : N.Settled InStep := fun _ _ _ _ h => h

theorem settled_tracks (n : RoundId) (v : Option Decimal) : N.Settled (Tracks n v) :=
  fun _ _ _ _ h => h

theorem inStep_missing (s : φ) : InStep none s := fun _ _ hrow => by cases hrow

/-- A row on which nothing is pending is in step. -/
theorem inStep_of_clear {row : Row} {s : φ} (h : row.bookkeeping.pending = none) :
    InStep (some row) s := by
  rintro row' p ⟨⟩ hpending
  rw [h] at hpending
  cases hpending

theorem tracks_missing (n : RoundId) (v : Option Decimal) (s : φ) : Tracks n v none s :=
  ⟨inStep_missing s, fun _ hrow => by cases hrow⟩

/-- The last round and value of an oracle in step are some. -/
theorem Stands.tracks (h : Stands id InStep w) : ∃ n v, Stands id (Tracks n v) w := by
  cases h with
  | @present row hkept hstep =>
    exact ⟨_, _, .present hkept ⟨hstep, fun row' h => by cases h; rfl⟩⟩
  | missing hnone hunlisted hstep =>
    exact ⟨0, none, .missing hnone hunlisted (tracks_missing 0 none _)⟩

/-! ## Cycles -/

/-- The outline of a cycle that keeps the last value until it records a round. -/
def lastValueOutline (N : Nature φ) (id : OracleId) (c : OracleConfig) (depth : UInt64)
    (v : Option Decimal) : Outline N id c depth where
  permit := fun _ _ => True
  asserts
    | .recorded _, _, _ => True
    | _, b, _ => b.lastValue = v
  between := fun _ _ => True
  within := fun _ _ => trivial
  stable := fun phase _ _ _ _ h => by cases phase <;> exact h
  ledger := fun {phase _ _ _} hsame h => by
    cases phase <;> first | exact trivial | exact hsame.lastValue.trans h
  submit := fun _ _ _ h => Program.keeps_of_forall (fun e _ => by cases e <;> exact h)
    (fun _ _ => trivial) _ _
  confirm := fun _ _ _ h => Program.keeps_of_forall (fun e _ => by cases e <;> exact h)
    (fun _ _ => trivial) _ _
  resolve := fun _ _ h => Program.keeps_of_forall
    (fun e _ => by rcases e with _ | _ | _ <;> exact h) (fun _ _ => trivial) _ _
  note := fun h => h
  lose := fun _ h _ => h
  drop := fun h => h
  keepGone := fun h => h
  record := fun _ _ => trivial
  keepConfirmed := fun h => h

/-- What a cycle does to the last round and value, in memory and in storage. -/
def Advances (id : OracleId) (w w' : World φ) : Option RoundRecord → Prop
  | some r => ∃ n v, w.last? id = some (n, v) ∧ r.round.toNat = n.toNat + 1 ∧
      w'.last? id = some (r.round, some r.answer) ∧
      w'.storedLast? id = some (r.round, some r.answer)
  | none => w'.last? id = w.last? id ∧ w'.storedLast? id = w.storedLast? id

/-- What a cycle leaves of an oracle whose last round and value are given. -/
def CycleLeaves (id : OracleId) (n : RoundId) (v : Option Decimal) (w : World φ) :
    Option RoundRecord → Prop
  | some r => r.round.toNat = n.toNat + 1 ∧ Stands id (Tracks r.round (some r.answer)) w
  | none => Stands id (Tracks n v) w

theorem Registry.Kept.last {row : Row} (h : Kept id row w.table w.storage) :
    w.last? id = some row.last ∧ w.storedLast? id = some row.last := by
  rw [World.last?, World.storedLast?, h.inTable, h.inStorage]
  exact ⟨rfl, rfl⟩

/-- An oracle that has a row has the last round and value that it tracks, in memory and in
storage. -/
theorem Stands.last {n : RoundId} {v : Option Decimal} (h : Stands id (Tracks n v) w)
    (hrow : (w.table.row? id).isSome) :
    w.last? id = some (n, v) ∧ w.storedLast? id = some (n, v) := by
  cases h with
  | @present row hkept htracks =>
    have hlast := hkept.last
    rw [htracks.2 row rfl] at hlast
    exact hlast
  | missing hnone =>
    rw [hnone] at hrow
    cases hrow

/-- A cycle of a registered oracle. -/
theorem keeps_cycle_of_present {policy : Cycle.Policy} {deadline : Duration} {n : RoundId}
    {v : Option Decimal} {row : Row} (hkept : Kept id row w.table w.storage)
    (htracks : Tracks n v (some row) w.outside) :
    Keeps (N.around id) (Surroundings.Request.permitted fun _ _ => True)
      (fun outcome w' => CycleLeaves id n v w' (Cycle.published? outcome) ∧
        (w'.table.row? id).isSome)
      (Cycle.run policy id deadline) w := by
  obtain ⟨c, b⟩ := row
  obtain ⟨hstep, hlast⟩ := htracks
  obtain ⟨hround, hvalue⟩ := Prod.mk.inj (hlast _ rfl)
  -- The outline starts at rest, whether or not something is pending.
  have hrest : Holds id c ((lastValueOutline N id c policy.depth v).Rest (successor? n)) w := by
    refine ⟨b, hkept, congrArg successor? hround, ?_, ?_⟩
    · cases hpending : b.pending with
      | none => exact hpending
      | some p => exact ⟨hpending, hstep _ p rfl hpending⟩
    · cases b.pending <;> exact hvalue
  refine (Outline.keeps_run hrest deadline).mono fun outcome w' hended => ?_
  unfold Outline.Ended Outline.End at hended
  cases hpublished : Cycle.published? outcome with
  | some r =>
    rw [hpublished] at hended
    obtain ⟨b', hkept', hround', ⟨hclear, hlastRound, hlastValue⟩, -⟩ := hended
    have htracks' : Tracks r.round (some r.answer) (some ⟨c, b'⟩) w'.outside := by
      constructor
      · exact inStep_of_clear hclear
      · rintro row ⟨⟩
        exact Prod.ext hlastRound hlastValue
    refine ⟨⟨successor_eq_some.mp hround', .present hkept' htracks'⟩, ?_⟩
    rw [hkept'.inTable]
    rfl
  | none =>
    rw [hpublished] at hended
    obtain ⟨b', hkept', hnext, hfits, hfact⟩ := hended
    have hround' : b'.lastRound = n := successor_injective hnext
    have hvalue' : b'.lastValue = v := by
      cases hpending : b'.pending <;> simp only [hpending] at hfact <;> exact hfact
    have htracks' : Tracks n v (some ⟨c, b'⟩) w'.outside := by
      constructor
      · -- What is pending now may be another submission, but it is for the same round.
        rintro row p ⟨⟩ hpending
        have hfits' : (Phase.held p).Fits b' := by
          rw [show b'.pending = some p from hpending] at hfits
          exact hfits
        exact hfits'.2
      · rintro row ⟨⟩
        exact Prod.ext hround' hvalue'
    refine ⟨.present hkept' htracks', ?_⟩
    rw [hkept'.inTable]
    rfl

/-- A cycle of an oracle that tracks some round and value. -/
theorem cycle_tracks {policy : Cycle.Policy} {deadline : Duration} {n : RoundId}
    {v : Option Decimal} {outcome : Except RegistryError Outcome}
    (hstands : Stands id (Tracks n v) w)
    (hrun : Leads (N.around id) (Cycle.run policy id deadline) w (.done outcome) w') :
    Advances id w w' (Cycle.published? outcome) ∧
      CycleLeaves id n v w' (Cycle.published? outcome) := by
  cases hrow : w.table.row? id with
  | some row =>
    have hlast := hstands.last (by rw [hrow]; rfl)
    cases hstands with
    | missing hnone =>
      rw [hnone] at hrow
      cases hrow
    | present hkept htracks =>
      obtain ⟨hleaves, hrow'⟩ := (keeps_cycle_of_present hkept htracks).leads hrun
      refine ⟨?_, hleaves⟩
      cases hpublished : Cycle.published? outcome with
      | some r =>
        rw [hpublished] at hleaves
        obtain ⟨hround, hstands'⟩ := hleaves
        have hlast' := hstands'.last hrow'
        exact ⟨n, v, hlast.1, hround, hlast'.1, hlast'.2⟩
      | none =>
        rw [hpublished] at hleaves
        have hlast' := Stands.last hleaves hrow'
        exact ⟨hlast'.1.trans hlast.1.symm, hlast'.2.trans hlast.2.symm⟩
  | none =>
    -- A registration that failed may have left a row in storage, where it stays.
    have hleaves :=
      (keeps_run_standing (fun _ _ => True) (settled_tracks n v) hstands hrow).leads hrun
    obtain ⟨hstands', hnone, hstored, hpublished⟩ := hleaves
    rw [hpublished]
    refine ⟨?_, hstands'⟩
    rw [Advances, World.last?, World.last?, World.storedLast?, World.storedLast?, hnone, hrow,
      hstored]
    exact ⟨rfl, rfl⟩

/-! ## Runs -/

/-- The round that a step published. -/
def Happening.published? : Happening → Option RoundRecord
  | cycled outcome => Cycle.published? outcome
  | _ => none

theorem CycleLeaves.inStep {n : RoundId} {v : Option Decimal} {published : Option RoundRecord}
    (h : CycleLeaves id n v w published) : Stands id InStep w := by
  cases published with
  | some r => exact h.2.mono fun _ _ h => h.1
  | none => exact Stands.mono h fun _ _ h => h.1

theorem inStep_carriedOver {row : Row} {s : φ} (h : InStep (some row) s) :
    InStep (some ⟨c, carriedOver row c⟩) s := by
  unfold carriedOver
  split
  · rintro row' p ⟨⟩ hpending
    exact h row p rfl hpending
  · exact inStep_of_clear rfl

/-- Every step keeps a submission that is remembered for the next round. -/
theorem step_inStep {h : Happening} (hstep : N.Step id w h w') (hstands : Stands id InStep w) :
    Stands id InStep w' := by
  cases hstep with
  | cycle policy deadline hrun =>
    obtain ⟨n, v, htracks⟩ := hstands.tracks
    exact (cycle_tracks htracks hrun).2.inStep
  | register auth caller c hc hrun =>
    exact ((keeps_register hc settled_inStep settled_inStep hstands
      fun s _ => inStep_of_clear rfl).leads hrun).either
  | update auth caller c hc hrun =>
    exact ((keeps_update hc settled_inStep settled_inStep hstands
      fun row s h => inStep_carriedOver h).leads hrun).either
  | remove auth caller hrun =>
    exact ((keeps_remove settled_inStep settled_inStep hstands
      fun o s _ => inStep_missing s).leads hrun).either
  | resync auth caller hrun =>
    refine ((keeps_resync (T := fun _ _ _ => True) settled_inStep settled_inStep
      (fun _ _ _ _ _ h => h) hstands (fun _ _ _ _ h _ => ⟨h, fun _ _ => trivial⟩)
      fun row b latest value s _ _ hsame => ?_).leads hrun).either
    exact inStep_of_clear (Option.not_isSome_iff_eq_none.mp (by rw [← hsame.pending]; nofun))
  | restart hload hmoves =>
    exact hstands.restart settled_inStep (fun o s _ => inStep_missing s) hload hmoves
  | elsewhere hstirs => exact settled_inStep.stands _ _ hstirs hstands

theorem Nature.Reachable.inStep (h : N.Reachable id w) : Stands id InStep w := by
  obtain ⟨outside, past, hpast⟩ := h
  exact hpast.keeps (J := Stands id InStep) (fun _ _ _ hstep => step_inStep hstep)
    (.fresh (inStep_missing outside))

/-- Table and storage agree on the row of an oracle, and it is in step. -/
theorem Nature.Reachable.kept {row : Row} (h : N.Reachable id w)
    (hrow : w.table.row? id = some row) :
    Kept id row w.table w.storage ∧ InStep (some row) w.outside := by
  cases h.inStep with
  | present hkept hstep =>
    obtain rfl := Option.some.inj (hkept.inTable.symm.trans hrow)
    exact ⟨hkept, hstep⟩
  | missing hnone =>
    rw [hnone] at hrow
    cases hrow

/-- A new configuration for the same destination leaves round and value. -/
theorem tracks_configured {n : RoundId} {v : Option Decimal} {row : Row} {s : φ}
    (h : Tracks n v (some row) s) : Tracks n v (some ⟨c, row.bookkeeping⟩) s := by
  constructor
  · rintro row' p ⟨⟩ hpending
    exact h.1 row p rfl hpending
  · rintro row' ⟨⟩
    exact h.2 row rfl

/-- A step that does not start the bookkeeping over publishes the next round or leaves round and
value alone. -/
theorem step_tracks {h : Happening} {n : RoundId} {v : Option Decimal}
    (hstep : N.Step id w h w') (hreset : ¬h.Resets) (hstands : Stands id (Tracks n v) w) :
    CycleLeaves id n v w' h.published? := by
  have hsettled := settled_tracks (N := N) n v
  have hcalled (hcall : h.IsCall) : Stands id (Tracks n v) w' :=
    hstep.stands_of_call hcall hreset hsettled (fun _ _ _ _ h _ => h)
      (fun _ _ _ _ h => tracks_configured h) hstands
  cases hstep with
  | cycle policy deadline hrun => exact (cycle_tracks hstands hrun).2
  | register | update | remove | resync => exact hcalled trivial
  | restart hload hmoves =>
    exact hstands.restart hsettled (fun o s _ => tracks_missing n v s) hload hmoves
  | elsewhere hstirs => exact hsettled.stands _ _ hstirs hstands

/-- The rounds that steps published, in their order. -/
def published (hs : List Happening) : List RoundRecord := hs.filterMap Happening.published?

theorem published_cons (h : Happening) (rest : List Happening) :
    published (h :: rest) = h.published?.toList ++ published rest := by
  cases hpublished : h.published? <;> simp [published, hpublished]

/-- The rounds of a run count up by one. -/
theorem run_tracks {hs : List Happening} {n : RoundId} {v : Option Decimal}
    (hrun : N.Run id w hs w') (hreset : ∀ h ∈ hs, ¬h.Resets)
    (hstands : Stands id (Tracks n v) w) :
    (published hs).map (·.round.toNat) = List.range' (n.toNat + 1) (published hs).length := by
  induction hrun generalizing n v with
  | nil => rfl
  | @cons w w₁ w' h rest hstep _ ih =>
    have hleaves := step_tracks hstep (hreset h List.mem_cons_self) hstands
    have hreset' : ∀ h ∈ rest, ¬h.Resets := fun h hmem => hreset h (List.mem_cons_of_mem _ hmem)
    rw [published_cons]
    cases hpublished : h.published? with
    | none =>
      rw [hpublished] at hleaves
      exact ih hreset' hleaves
    | some r =>
      -- The rest of the run counts on from the round that was published.
      rw [hpublished] at hleaves
      obtain ⟨hround, hstands'⟩ := hleaves
      have hrest := ih hreset' hstands'
      simp only [Option.toList, List.cons_append, List.nil_append, List.map_cons, List.length_cons,
        List.range'_succ]
      rw [hrest, hround]

/-- Whatever happens outside, a cycle that publishes writes the next round and its value down, in
memory and in storage, and no other end of a cycle changes last round or value; and the rounds that
are published until the bookkeeping is started over follow each other without a gap. No round comes
after the last that 64 bits can count: a cycle that would need it breaks off and publishes none. -/
theorem rounds_consecutive (hreach : N.Reachable id w) :
    (∀ policy deadline outcome w',
      Leads (N.around id) (Cycle.run policy id deadline) w (.done outcome) w' →
        Advances id w w' (Cycle.published? outcome)) ∧
    ∀ n v hs w', w.last? id = some (n, v) → N.Run id w hs w' → (∀ h ∈ hs, ¬h.Resets) →
      (published hs).map (·.round.toNat) = List.range' (n.toNat + 1) (published hs).length := by
  have hinStep := hreach.inStep
  constructor
  · intro policy deadline outcome w' hrun
    obtain ⟨n, v, hstands⟩ := hinStep.tracks
    exact (cycle_tracks hstands hrun).1
  · intro n v hs w' hlast hrun hreset
    have hstands : Stands id (Tracks n v) w := by
      cases hinStep with
      | present hkept hstep =>
        have hfound := (hkept.last).1.symm.trans hlast
        refine .present hkept ⟨hstep, ?_⟩
        rintro row ⟨⟩
        exact Option.some.inj hfound
      | missing hnone =>
        rw [World.last?, hnone] at hlast
        cases hlast
    exact run_tracks hrun hreset hstands

/-- A world in which feeds answer anything and anything fails. -/
def Nature.lawless : Nature Unit := ⟨fun _ _ _ _ => True, fun _ _ => True, fun _ _ => True⟩

open PriceOracle.Cycle in
/-- The first round of an oracle, on a feed that may lie. -/
theorem rounds_consecutive_first :
    ∃ (w w' : World Unit) (r : RoundRecord), Nature.lawless.Reachable ethUsd.id w ∧
      Nature.lawless.Run ethUsd.id w [.cycled (.ok (.published r))] w' ∧
      Advances ethUsd.id w w' (some r) ∧ [r.round.toNat] = [1] := by
  obtain ⟨w, hregister, hkept, -, houtside⟩ :=
    Nature.lawless.registers (fun _ => trivial) (c := ethUsd) rfl ()
  have hreach : Nature.lawless.Reachable ethUsd.id w := ⟨(), [_], .cons hregister (.nil w)⟩
  have htakes : Takes Nature.lawless ethUsd .initial fiveAnswer ⟨[]⟩ () () :=
    ⟨⟨⟨0, .zero, 0, 0, 0⟩, rfl, trivial⟩, (), trivial, trivial⟩
  have hwait : Nature.lawless.feed (.confirmation ethUsd.destination ⟨[]⟩ onceOnly.depth) ()
      (.ok ⟨⟨[]⟩, 0, true⟩) () := trivial
  have hread : Nature.lawless.feed (.roundData ethUsd.destination 1) ()
      (.ok (some ⟨1, fiveAnswer, 0, 0, 1⟩)) () := trivial
  obtain ⟨w', hkept', -, -, hrun⟩ := reaches_end_published (fun _ => trivial) rfl ready_initial
    next_initial finds_five htakes rfl hwait hread rfl 0 w hkept houtside
  obtain ⟨hcycle, hruns⟩ := rounds_consecutive hreach
  have hsteps := Nature.Run.cons (.cycle onceOnly ⟨1⟩ hrun) (.nil w')
  refine ⟨w, w', _, hreach, hsteps, hcycle _ _ _ w' hrun, ?_⟩
  refine hruns 0 none _ w' hkept.last.1 hsteps ?_
  intro h hmem
  obtain rfl := List.mem_singleton.mp hmem
  exact not_false

end PriceOracle
