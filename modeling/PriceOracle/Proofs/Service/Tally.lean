import PriceOracle.Proofs.Cycle.Counting
import PriceOracle.Proofs.Cycle.Rounds

/-!
# The distance between publications

An oracle whose threshold stays as it is counts its cycles. `Nature.Tallied` goes through a run and
counts along: a cycle that gets past what an earlier one left counts one, and a publication, a
registration, an alignment with the feed and a change of the destination start over. The bookkeeping
has the same number, as a number of 64 bits, in every world that a run comes to
(`Nature.Tallied.stands`).

`threshold_is_distance` puts it together: a cycle that is counted waits exactly until the threshold
is reached, whatever failed before, so that at least as many cycles as the threshold says lie
between two publications.
-/

namespace PriceOracle

open PriceOracle.Cycle (Counts Sound Sparing Tracked next_initial tally tracked)
open Program (Keeps Leads)

/-- A step is a cycle. -/
def Happening.isCycle : Happening → Bool
  | cycled _ => true
  | _ => false

/-- A step gives the oracle no configuration but one of some kind. -/
def Happening.Configures (C : OracleConfig → Prop) : Happening → Prop
  | registered c _ | updated _ c _ => C c
  | _ => True

theorem Happening.Resets.not_cycle {h : Happening} (hreset : h.Resets) : h.isCycle = false := by
  cases h with
  | cycled _ => exact hreset.elim
  | _ => rfl

variable {φ : Type} {N : Nature φ} {id : OracleId} {w w' : World φ} {t : UInt64} {n : Nat}
  {past rest : List Happening}

/-! ## Configurations -/

/-- The configuration of an oracle is of some kind. -/
def Configured (C : OracleConfig → Prop) : Standing φ
  | some row, _ => C row.config
  | none, _ => True

theorem settled_configured {C : OracleConfig → Prop} : N.Settled (Configured C) :=
  fun o _ _ _ h => by cases o <;> exact h

/-- How an oracle stands is put together from what is known of it. -/
theorem Stands.both {P Q : Standing φ} (h : Stands id P w) (h' : Stands id Q w) :
    Stands id (fun o s => P o s ∧ Q o s) w := by
  cases h with
  | present hkept hP =>
    cases h' with
    | present hkept' hQ =>
      obtain rfl := Option.some.inj (hkept.inTable.symm.trans hkept'.inTable)
      exact .present hkept ⟨hP, hQ⟩
    | missing hnone _ _ =>
      rw [hkept.inTable] at hnone
      cases hnone
  | missing hnone hunlisted hP =>
    cases h' with
    | present hkept' _ =>
      rw [hkept'.inTable] at hnone
      cases hnone
    | missing _ _ hQ => exact .missing hnone hunlisted ⟨hP, hQ⟩

/-- Only registrations and updates give a configuration. -/
theorem Nature.Step.configured {C : OracleConfig → Prop} {h : Happening}
    (hstep : N.Step id w h w') (hcycle : h.isCycle = false) (hset : h.Configures C)
    (hstands : Stands id (Configured C) w) : Stands id (Configured C) w' := by
  have hsettled : N.Settled (Configured C) := settled_configured
  cases hstep with
  | cycle => cases hcycle
  | register auth caller c hc hrun =>
    exact ((keeps_register hc hsettled hsettled hstands fun s _ => hset).leads hrun).either
  | update auth caller c hc hrun =>
    exact ((keeps_update hc hsettled hsettled hstands fun row s _ => hset).leads hrun).either
  | remove auth caller hrun =>
    exact ((keeps_remove hsettled hsettled hstands fun _ s _ => trivial).leads hrun).either
  | resync auth caller hrun =>
    exact ((keeps_resync (T := fun _ _ _ => True) hsettled hsettled (fun _ _ _ _ _ h => h)
      hstands (fun row s s' reply h _ => ⟨h, fun _ _ => trivial⟩)
      fun row b latest value s h _ _ => h).leads hrun).either
  | restart hload hmoves => exact hstands.restart hsettled (fun _ _ _ => trivial) hload hmoves
  | elsewhere hstirs => exact hsettled.stands _ _ hstirs hstands

/-! ## Counts -/

/-- The bookkeeping of an oracle counts cycles. -/
def CountsUp (t : UInt64) (n : Nat) : Standing φ
  | some row, s => Counts t n row.bookkeeping s
  | none, _ => True

theorem settled_countsUp : N.Settled (CountsUp t n) := fun o _ _ _ h => by cases o <;> exact h

/-- An oracle with a threshold has counted cycles. -/
def AtCount (t : UInt64) (n : Nat) : Standing φ :=
  fun o s => Configured (·.threshold = t) o s ∧ CountsUp t n o s

theorem settled_atCount : N.Settled (AtCount t n) := fun o s s' hmoves h =>
  ⟨settled_configured o s s' hmoves h.1, settled_countsUp o s s' hmoves h.2⟩

/-- What a cycle does to the count, and what the count says about the cycle. -/
theorem keeps_tracked (hpos : 0 < t) (hstands : Stands id (AtCount t n) w)
    (policy : Cycle.Policy) (deadline : Duration) :
    Keeps (N.around id) (Sparing t n)
      (fun e w' => Sound t n e ∧ Stands id (AtCount t (tally n e)) w')
      (tracked policy id deadline) w := by
  have hsettled : ∀ n, N.Settled (AtCount t n) := fun _ => settled_atCount
  refine keeps_framed (fun r _ hframing _ hspends => ?_) (hsettled n).stands
    (fun e w w' hstirs h => ⟨h.1, (hsettled _).stands w w' hstirs h.2⟩)
    (fun w hstands => ⟨⟨not_false, nofun⟩, hstands⟩) (fun w hstands => ?_) hstands
  · cases r with
    | source _ | feed _ => exact hframing.elim
    | _ => exact hspends.elim
  · cases hstands with
    | @present row hkept hholds =>
      obtain ⟨c, b⟩ := row
      obtain rfl : c.threshold = t := hholds.1
      refine (Cycle.keeps_trackLocked hpos ⟨b, hkept, hholds.2⟩).mono ?_
      rintro e w' ⟨hsound, b', hkept', hcounts'⟩
      exact ⟨hsound, .present hkept' ⟨rfl, hcounts'⟩⟩
    | missing hnone hunlisted hholds =>
      exact Program.keeps_bind.mpr (keeps_row_of_missing False.elim (hsettled n).stands
        (.missing hnone hunlisted hholds) hnone fun w' hstands => ⟨⟨not_false, nofun⟩, hstands⟩)

/-! ## Counting along a run -/

/-- A run of an oracle whose threshold stays as it is, and the number of cycles that were counted
since the last of its steps that started over. -/
inductive Nature.Tallied (N : Nature φ) (id : OracleId) (t : UInt64) :
    List Happening → Nat → World φ → Prop where
  | fresh (outside : φ) : N.Tallied id t [] 0 (.fresh outside)
  | cycle {past : List Happening} {n : Nat} {w w' : World φ} {e : Tracked} (policy : Cycle.Policy)
      (deadline : Duration) : N.Tallied id t past n w →
      Leads (N.around id) (tracked policy id deadline) w (.done e) w' →
      N.Tallied id t (past ++ [.cycled e.1]) (tally n e) w'
  | reset {past : List Happening} {n : Nat} {w w' : World φ} {h : Happening} :
      N.Tallied id t past n w → N.Step id w h w' → h.Resets → h.Configures (·.threshold = t) →
      N.Tallied id t (past ++ [h]) 0 w'
  | other {past : List Happening} {n : Nat} {w w' : World φ} {h : Happening} :
      N.Tallied id t past n w → N.Step id w h w' → h.isCycle = false → ¬h.Resets →
      h.Configures (·.threshold = t) → N.Tallied id t (past ++ [h]) n w'

/-- Steps that start over leave nothing counted. -/
theorem Nature.Step.countsUp_of_reset {P : Standing φ} {h : Happening} (hstep : N.Step id w h w')
    (hreset : h.Resets) (hstands : Stands id P w) : Stands id (CountsUp t 0) w' := by
  refine hstep.stands_of_reset (T := fun _ _ _ => True) hreset settled_countsUp
    (fun _ _ _ _ _ h => h) (fun _ => trivial) (fun c s => ⟨rfl, nofun⟩)
    (fun _ _ _ _ _ => trivial) (fun c b latest value s _ hsame => ?_) hstands
  -- What is aligned with a feed has counted nothing.
  refine ⟨hsame.cycles.symm, ?_⟩
  show b.pending.isSome = true → _
  rw [← hsame.pending]
  nofun

/-- Steps that neither are cycles nor start over leave the count as it is. -/
theorem Nature.Step.countsUp_of_other {h : Happening} (hstep : N.Step id w h w')
    (hcycle : h.isCycle = false) (hreset : ¬h.Resets) (hstands : Stands id (CountsUp t n) w) :
    Stands id (CountsUp t n) w' := by
  have hsettled : N.Settled (CountsUp t n) := settled_countsUp
  have hcall (hcall : h.IsCall) : Stands id (CountsUp t n) w' :=
    hstep.stands_of_call hcall hreset hsettled (fun _ _ _ _ h _ => h)
      (fun _ _ _ _ h => h) hstands
  cases hstep with
  | cycle => cases hcycle
  | register | update | remove | resync => exact hcall trivial
  | restart hload hmoves => exact hstands.restart hsettled (fun _ _ _ => trivial) hload hmoves
  | elsewhere hstirs => exact hsettled.stands _ _ hstirs hstands

namespace Nature

/-- The bookkeeping counts what was counted along. -/
theorem Tallied.stands (hpos : 0 < t) (h : N.Tallied id t past n w) :
    Stands id (AtCount t n) w := by
  induction h with
  | fresh outside => exact .fresh ⟨trivial, trivial⟩
  | cycle policy deadline _ hrun ih =>
    exact ((keeps_tracked hpos ih policy deadline).leads hrun).2
  | reset _ hstep hreset hset ih =>
    exact (hstep.configured hreset.not_cycle hset (ih.mono fun _ _ h => h.1)).both
      (hstep.countsUp_of_reset hreset ih)
  | other _ hstep hcycle hreset hset ih =>
    exact (hstep.configured hcycle hset (ih.mono fun _ _ h => h.1)).both
      (hstep.countsUp_of_other hcycle hreset (ih.mono fun _ _ h => h.2))

/-- Every run can be counted along. Each of its cycles counts at most one. -/
theorem Tallied.run (h : N.Tallied id t past n w) (hrun : N.Run id w rest w')
    (hset : ∀ h ∈ rest, h.Configures (·.threshold = t)) :
    ∃ m, N.Tallied id t (past ++ rest) m w' ∧ m ≤ n + rest.countP (·.isCycle) := by
  induction hrun generalizing past n with
  | nil => exact ⟨n, by rwa [List.append_nil], Nat.le_add_right _ _⟩
  | @cons w w' w'' first rest hstep _ ih =>
    -- The first step counts at most one more, where it is a cycle.
    have hfirst : ∃ m, N.Tallied id t (past ++ [first]) m w' ∧
        m ≤ n + if first.isCycle then 1 else 0 := by
      have hone := hset first List.mem_cons_self
      cases hcycle : first.isCycle with
      | false =>
        by_cases hreset : first.Resets
        · exact ⟨0, .reset h hstep hreset hone, Nat.zero_le _⟩
        · exact ⟨n, .other h hstep hcycle hreset hone, Nat.le_refl _⟩
      | true =>
        cases hstep with
        | cycle policy deadline hrun =>
          rw [Cycle.run_eq_tracked] at hrun
          obtain ⟨e, rfl, htracked⟩ := Program.leads_map hrun
          refine ⟨tally n e, .cycle policy deadline h htracked, ?_⟩
          rw [tally]
          split
          · exact Nat.zero_le _
          · split <;> simp
        | _ => cases hcycle
    obtain ⟨m, htallied, hm⟩ := hfirst
    obtain ⟨m', htallied', hm'⟩ := ih htallied fun h hmem => hset h (List.mem_cons_of_mem _ hmem)
    refine ⟨m', by simpa using htallied', ?_⟩
    rw [List.countP_cons]
    omega

/-- A run in two parts. -/
theorem Run.split {hs : List Happening} (h : N.Run id w (hs ++ rest) w') :
    ∃ mid, N.Run id w hs mid ∧ N.Run id mid rest w' := by
  induction hs generalizing w with
  | nil => exact ⟨w, .nil w, h⟩
  | cons first hs ih =>
    cases h with
    | cons hstep hrest =>
      obtain ⟨mid, hrun, hrun'⟩ := ih hrest
      exact ⟨mid, .cons hstep hrun, hrun'⟩

/-- A cycle that publishes starts over, and is due or confirms what was. -/
theorem Tallied.published (hpos : 0 < t) {r : RoundRecord} (h : N.Tallied id t past n w)
    (hrun : N.Run id w [.cycled (.ok (.published r))] w') :
    N.Tallied id t (past ++ [.cycled (.ok (.published r))]) 0 w' ∧ t.toNat ≤ n + 1 := by
  cases hrun with
  | cons hstep hnil =>
    cases hnil with
    | nil =>
      cases hstep with
      | cycle policy deadline hrun =>
        rw [Cycle.run_eq_tracked] at hrun
        obtain ⟨⟨_, extent⟩, rfl, htracked⟩ := Program.leads_map hrun
        refine ⟨.cycle policy deadline h htracked, ?_⟩
        have hsound := ((keeps_tracked hpos (h.stands hpos) policy deadline).leads htracked).1
        have hle {m : Nat} (hm : t ≤ .ofNat m) : t.toNat ≤ m :=
          Nat.le_trans (UInt64.le_iff_toNat_le.mp hm) (Nat.mod_le m _)
        cases extent with
        | early => exact Nat.le_succ_of_le (hle (hsound.2 rfl))
        | counted => cases hsound.2
        | fetched => exact hle hsound.1

end Nature

/-! ## The distance -/

/-- A threshold is the exact distance between publications in cycles. Of each cycle it is known how
far it got, which is all that is told besides its outcome, and cycles can be counted along every
run. The bookkeeping has their number in 64 bits. A cycle that is counted waits for what is missing
if the threshold is not reached, and reads and submits nothing then; otherwise it goes on to read
its source. Storage, feeds, sources and clocks may do anything. -/
theorem threshold_is_distance (N : Nature φ) (id : OracleId) {t : UInt64} (hpos : 0 < t) :
    (∀ policy deadline, Cycle.run policy id deadline = Prod.fst <$> tracked policy id deadline) ∧
    (∀ outside past w, N.Run id (.fresh outside) past w →
      (∀ h ∈ past, h.Configures (·.threshold = t)) → ∃ n, N.Tallied id t past n w) ∧
    (∀ past n w, N.Tallied id t past n w →
      (∀ row, w.table.row? id = some row → row.bookkeeping.cycles = .ofNat n) ∧
      ∀ policy deadline w',
        (∀ e, Leads (N.around id) (tracked policy id deadline) w (.done e) w' → Sound t n e) ∧
        ∀ r next, Leads (N.around id) (tracked policy id deadline) w (.ask r next) w' →
          Cycle.Spends r → t ≤ .ofNat (n + 1)) ∧
    ∀ outside past r between r' w,
      N.Run id (.fresh outside) (past ++ (.cycled (.ok (.published r)) ::
        (between ++ [.cycled (.ok (.published r'))]))) w →
      (∀ h ∈ past ++ (.cycled (.ok (.published r)) :: between), h.Configures (·.threshold = t)) →
      t.toNat ≤ between.countP (·.isCycle) + 1 := by
  refine ⟨fun policy deadline => Cycle.run_eq_tracked policy id deadline, ?_, ?_, ?_⟩
  · intro outside past w hrun hset
    obtain ⟨n, htallied, -⟩ := (Nature.Tallied.fresh outside).run hrun hset
    exact ⟨n, htallied⟩
  · intro past n w htallied
    have hstands := htallied.stands hpos
    refine ⟨fun row hrow => ?_, fun policy deadline w' => ⟨fun e hrun => ?_, fun r next hrun => ?_⟩⟩
    · cases hstands with
      | present hkept hholds =>
        obtain rfl := Option.some.inj (hkept.inTable.symm.trans hrow)
        exact hholds.2.1
      | missing hnone _ _ =>
        rw [hnone] at hrow
        cases hrow
    · exact ((keeps_tracked hpos hstands policy deadline).leads hrun).1
    · exact ((keeps_tracked hpos hstands policy deadline).leads hrun).1
  · intro outside past r between r' w hrun hset
    obtain ⟨w₁, hpast, hrun⟩ := hrun.split
    have hrest : N.Run id w₁ ([.cycled (.ok (.published r))] ++
        (between ++ [.cycled (.ok (.published r'))])) w := hrun
    obtain ⟨w₂, hfirst, hrest⟩ := hrest.split
    obtain ⟨w₃, hbetween, hlast⟩ := hrest.split
    obtain ⟨n, htallied, -⟩ := (Nature.Tallied.fresh outside).run hpast fun h hmem =>
      hset h (List.mem_append_left _ hmem)
    -- The count starts over with the first publication.
    obtain ⟨m, htallied, hm⟩ := (htallied.published hpos hfirst).1.run hbetween fun h hmem =>
      hset h (List.mem_append_right _ (List.mem_cons_of_mem _ hmem))
    have hlast := (htallied.published hpos hlast).2
    omega

open PriceOracle.Cycle in
/-- `ethUsd`, for every other cycle. -/
def ethUsdHalved : OracleConfig := { ethUsd with threshold := 2 }

open PriceOracle.Cycle in
/-- An oracle that has counted nothing waits once and then publishes, on a feed that may lie. -/
theorem waits_and_publishes {b : Bookkeeping} {w : World Unit} {round : RoundId}
    (hkept : Registry.Kept ethUsdHalved.id ⟨ethUsdHalved, b⟩ w.table w.storage)
    (hnext : b.nextRound = some round) (hrunning : b.halted = none) (hclear : b.pending = none)
    (hzero : b.cycles = 0) :
    ∃ w' b' r, Nature.lawless.Run ethUsdHalved.id w
        [.cycled (.ok (.waiting 1)), .cycled (.ok (.published r))] w' ∧
      Registry.Kept ethUsdHalved.id ⟨ethUsdHalved, b'⟩ w'.table w'.storage ∧
      b'.lastRound = round ∧ b'.halted = none ∧ b'.pending = none ∧ b'.cycles = 0 := by
  have hmoves : ∀ s, Nature.lawless.moves s s := fun _ => trivial
  -- With threshold 2 the first cycle counts to 1 and waits, the second to 2 and is due.
  have hshort : Schedule.isDue ethUsdHalved.threshold (b.cycles + 1) = false := by
    rw [hzero]
    rfl
  obtain ⟨w₁, hwaits, hkept₁, -⟩ := step_of_reaches
    (reaches_waiting onceOnly ⟨1⟩ hmoves hrunning hclear hshort) hkept rfl
  have hready : Ready ethUsdHalved (counted b) := by
    refine ⟨hrunning, hclear, ?_⟩
    show Schedule.isDue ethUsdHalved.threshold (b.cycles + 1 + 1) = true
    rw [hzero]
    rfl
  have hfinds : Finds onceOnly ethUsdHalved ⟨1⟩ five fiveAnswer :=
    ⟨finds_five.given, finds_five.valid, finds_five.encoded, finds_five.inTime⟩
  have htakes : Takes Nature.lawless ethUsdHalved (counted b) fiveAnswer ⟨[]⟩ () () :=
    ⟨⟨⟨b.lastRound, .zero, 0, 0, 0⟩, rfl, trivial⟩, (), trivial, trivial⟩
  have hread : Nature.lawless.feed (.roundData ethUsdHalved.destination round) ()
      (.ok (some ⟨round, fiveAnswer, 0, 0, 0⟩)) () := trivial
  have hwait : Nature.lawless.feed (.confirmation ethUsdHalved.destination ⟨[]⟩ onceOnly.depth) ()
      (.ok ⟨⟨[]⟩, 0, true⟩) () := trivial
  obtain ⟨w₂, hpublishes, hkept₂, -⟩ := step_of_reaches
    (reaches_end_published hmoves rfl hready hnext hfinds htakes rfl hwait hread rfl 0) hkept₁ rfl
  have hone : Schedule.remaining ethUsdHalved.threshold (b.cycles + 1) = 1 := by
    rw [hzero]
    rfl
  rw [hone] at hwaits
  exact ⟨w₂, _, _, .cons hwaits (.cons hpublishes (.nil w₂)), hkept₂, rfl, hrunning, rfl, rfl⟩

/-- Between two publications of such an oracle lies the cycle that waits, and no other. -/
theorem distance_of_two :
    ∃ (w : World Unit) (past : List Happening) (r r' : RoundRecord),
      Nature.lawless.Run ethUsdHalved.id (.fresh ()) (past ++ (.cycled (.ok (.published r)) ::
        ([.cycled (.ok (.waiting 1))] ++ [.cycled (.ok (.published r'))]))) w ∧
      (2 : UInt64).toNat ≤ [Happening.cycled (.ok (.waiting 1))].countP (·.isCycle) + 1 := by
  obtain ⟨w₀, hregister, hkept₀, -⟩ := Nature.lawless.registers (fun _ => trivial)
    (c := ethUsdHalved) rfl ()
  obtain ⟨w₁, b, r, hrun₁, hkept₁, hlast, hrunning, hclear, hzero⟩ :=
    waits_and_publishes hkept₀ next_initial rfl rfl rfl
  have hnext : b.nextRound = some 2 := by
    rw [Bookkeeping.nextRound, hlast]
    rfl
  obtain ⟨w₂, -, r', hrun₂, -⟩ := waits_and_publishes hkept₁ hnext hrunning hclear hzero
  let past : List Happening :=
    [.registered ethUsdHalved (.ok ethUsdHalved.id), .cycled (.ok (.waiting 1))]
  have hrun : Nature.lawless.Run ethUsdHalved.id (.fresh ())
      (past ++ (.cycled (.ok (.published r)) ::
        ([.cycled (.ok (.waiting 1))] ++ [.cycled (.ok (.published r'))]))) w₂ :=
    .cons hregister (hrun₁.append hrun₂)
  obtain ⟨-, -, -, hdistance⟩ := threshold_is_distance Nature.lawless ethUsdHalved.id
    (t := 2) (by decide)
  refine ⟨w₂, past, r, r', hrun, hdistance () past r _ r' w₂ hrun fun h hmem => ?_⟩
  simp only [past, List.mem_append, List.mem_cons, List.not_mem_nil, or_false] at hmem
  rcases hmem with (rfl | rfl) | rfl | rfl <;> trivial

end PriceOracle
