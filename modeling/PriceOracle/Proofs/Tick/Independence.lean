import PriceOracle.Proofs.Tick.Interleaving
import PriceOracle.Simulation.PriceFeed

/-!
# Cycles of different oracles do not interfere

Cycles of distinct oracles that run side by side are works that are apart (`Work.proper_cycle`), and
so come to what they come to one after the other, in either order; a tick has the same outcomes in
whatever order its cycles go on.

* `Commons.Settled.same`: wherever works have come to their upshots, the same is left.
* `Exterior.in_turn`: works that run one after the other come to their upshots.
* `cycles_do_not_interfere`: any two cycles, and all cycles of a tick.
-/

namespace PriceOracle

open Program (Exactly Keeps)

variable {α : Type} {E : Exterior} {c c' c₀ : Commons} {id : OracleId} {k : Work α}
  {ks ks' : List (Work α)}

/-! ## The order of turns -/

/-- The same rows, in memory and in storage, the same calls, and the same locks held. -/
structure Commons.Same (c c' : Commons) : Prop where
  order : c.table.order = c'.table.order
  row : ∀ id, c.table.row? id = c'.table.row? id
  stored : ∀ key, Dict.get? c.storage key = Dict.get? c'.storage key
  calls : ∀ key, c.calls key = c'.calls key
  asked : ∀ id, c.asked id = c'.asked id
  held : ∀ id, c.locks.isHeld id = c'.locks.isHeld id

namespace Commons.Settled

/-- Wherever the same works have come to their upshots, the same is left. -/
theorem same (h : c₀.Settled E ks c) (h' : c₀.Settled E ks' c') (hperm : ks.Perm ks') :
    c.Same c' := by
  have hamong : ∀ id, Among ks' id ↔ Among ks id := fun _ => (hperm.map _).mem_iff.symm
  have hshare : ∀ id, Among ks id → c.share id = c'.share id := by
    intro id hid
    obtain ⟨k, hk, rfl⟩ := List.mem_map.mp hid
    rw [h.share k hk, h'.share k (hperm.mem_iff.mp hk)]
  have hspares : c₀.Spares (Among ks) c' := h'.spares.mono fun id => (hamong id).mp
  refine ⟨h.spares.order.trans hspares.order.symm, ?_, ?_, ?_, ?_, ?_⟩
  · intro id
    by_cases hid : Among ks id
    · exact congrArg Share.row (hshare id hid)
    · rw [h.spares.row id hid, hspares.row id hid]
  -- A key of the storage is some ticking oracle's row or belongs to none of them.
  · intro key
    by_cases hkey : ∃ id, Among ks id ∧ key = Registry.rowKey id
    · obtain ⟨id, hid, rfl⟩ := hkey
      exact congrArg Share.stored (hshare id hid)
    · have hother : ∀ id, Among ks id → key ≠ Registry.rowKey id :=
        fun id hid heq => hkey ⟨id, hid, heq⟩
      rw [h.spares.stored key hother, hspares.stored key hother]
  · intro key
    by_cases hkey : ∃ id, Among ks id ∧ c₀.table.key? id = some key
    · obtain ⟨id, hid, hkey⟩ := hkey
      have hcalls := congrArg Share.calls (hshare id hid)
      rwa [calls_share ((h.spares.keys id).trans hkey),
        calls_share ((hspares.keys id).trans hkey)] at hcalls
    · have hother : ∀ id, Among ks id → c₀.table.key? id ≠ some key :=
        fun id hid heq => hkey ⟨id, hid, heq⟩
      rw [h.spares.calls key hother, hspares.calls key hother]
  · intro id
    by_cases hid : Among ks id
    · exact congrArg Share.asked (hshare id hid)
    · rw [h.spares.asked id hid, hspares.asked id hid]
  · intro id
    by_cases hid : Among ks id
    · obtain ⟨k, hk, rfl⟩ := List.mem_map.mp hid
      rw [h.held k hk, h'.held k (hperm.mem_iff.mp hk)]
    · rw [LockTable.isHeld_of_view (h.spares.view id hid),
        LockTable.isHeld_of_view (hspares.view id hid)]

/-- Nothing was to be done. -/
theorem nil (hc : c.Orderly) : c.Settled E ([] : List (Work α)) c :=
  ⟨hc, .refl c _, nofun, nofun⟩

/-- Works that are settled after another one was settled. -/
theorem cons (h : c₀.Settled E [k] c) (h' : c.Settled E ks c') (hc₀ : c₀.Orderly)
    (hk : ¬Among ks k.oracle) : c₀.Settled E (k :: ks) c' := by
  have hother : ∀ k' ∈ ks, ¬Among [k] k'.oracle := fun _ => not_among_singleton hk
  refine ⟨h'.orderly, ?_, ?_, ?_⟩
  · refine (h.spares.mono ?_).trans (h'.spares.mono fun id => List.mem_cons_of_mem _)
    exact fun id hid => List.mem_cons.mpr (.inl (among_singleton.mp hid))
  · refine List.forall_mem_cons.mpr ⟨?_, ?_⟩
    · rw [h'.spares.share h.orderly hk]
      exact h.share k (List.mem_singleton_self k)
    · intro k' hk'
      have hview := h.spares.view _ (hother k' hk')
      rw [h'.share k' hk', Work.upshot_congr (h.spares.share hc₀ (hother k' hk'))
        (LockTable.isHeld_of_view hview)]
  · refine List.forall_mem_cons.mpr ⟨?_, ?_⟩
    · rw [LockTable.isHeld_of_view (h'.spares.view _ hk)]
      exact h.held k (List.mem_singleton_self k)
    · intro k' hk'
      rw [h'.held k' hk']
      exact LockTable.isHeld_of_view (h.spares.view _ (hother k' hk'))

end Commons.Settled

/-- Works that run one after the other come to their upshots. -/
theorem Exterior.in_turn (hc : c.Orderly) (hks : Apart E c ks) :
    ∃ v, E.InTurn c (ks.map Work.start) (ks.map fun k => (k.upshot E c).1) v ∧
      c.Settled E ks v := by
  induction ks generalizing c with
  | nil => exact ⟨c, .nil c, .nil hc⟩
  | cons k ks ih =>
    -- The first one runs alone.
    have halone : Apart E c [k] :=
      ⟨List.nodup_singleton _, List.forall_mem_singleton.mpr (hks.proper k List.mem_cons_self)⟩
    obtain ⟨⟨u, ts⟩, hrun, hdone⟩ := (Parallel.Consistent.start hc).ends halone
    obtain ⟨htasks, hfirst⟩ := ((Parallel.Consistent.start hc).comes halone hrun).settled hdone
    obtain rfl : ts = _ := htasks
    -- The others find their shares as they were.
    have hother : ∀ k' ∈ ks, ¬Among [k] k'.oracle := fun _ => not_among_singleton hks.head
    have hshare : ∀ k' ∈ ks, u.share k'.oracle = c.share k'.oracle :=
      fun k' hk' => hfirst.spares.share hc (hother k' hk')
    have hrest : Apart E u ks :=
      ⟨hks.tail.nodup, fun k' hk' => (hks.tail.proper k' hk').congr (hshare k' hk')⟩
    obtain ⟨v, hinturn, hsettled⟩ := ih hfirst.orderly hrest
    have hsame : (ks.map fun k => (k.upshot E u).1) = ks.map fun k => (k.upshot E c).1 := by
      refine List.map_congr_left fun k' hk' => ?_
      rw [Work.upshot_congr (hshare k' hk')
        (LockTable.isHeld_of_view (hfirst.spares.view _ (hother k' hk')))]
    rw [hsame] at hinturn
    exact ⟨v, .cons hrun hinturn, hfirst.cons hsettled hc hks.head⟩

/-! ## Cycles -/

/-- One cycle of an oracle, with its id. -/
def Task.cycle (policy : Cycle.Policy) (deadline : Duration) (id : OracleId) :
    Task (OracleId × Except RegistryError Outcome) :=
  ⟨id, Prod.mk id <$> Cycle.run policy id deadline⟩

/-- One cycle of an oracle, as work under its lock. -/
def Work.cycle (policy : Cycle.Policy) (deadline : Duration) (id : OracleId) :
    Work (OracleId × Except RegistryError Outcome) :=
  ⟨id, Prod.snd, Prod.mk id <$> (Cycle.runLocked policy id deadline).run, (id, .ok .busy)⟩

theorem Work.start_cycle (policy : Cycle.Policy) (deadline : Duration) (id : OracleId) :
    (Work.cycle policy deadline id).start = Task.cycle policy deadline id :=
  congrArg (Task.mk id) (Cycle.map_framed (Prod.mk id) id Prod.snd _ _).symm

/-- What a cycle comes to that starts now. -/
def Work.outcome (E : Exterior) (c : Commons) (policy : Cycle.Policy) (deadline : Duration)
    (id : OracleId) : Except RegistryError Outcome :=
  ((Work.cycle policy deadline id).upshot E c).1.2

theorem Work.upshot_cycle (E : Exterior) (c : Commons) (policy : Cycle.Policy)
    (deadline : Duration) (id : OracleId) :
    ((Work.cycle policy deadline id).upshot E c).1 = (id, Work.outcome E c policy deadline id) := by
  refine Prod.ext ?_ rfl
  rw [Work.upshot]
  split
  · rfl
  · have hlocked := Program.run_bind (E.onShare id) (Cycle.runLocked policy id deadline).run
      (fun e => .done (id, e)) (c.share id)
    rw [Work.inside, Program.run_bind, Program.run_bind]
    exact congrArg (·.1.1) hlocked

/-- An oracle under its own id. -/
theorem Share.keyed_table {s : Share} (h : ∀ row, s.row = some row → row.config.id = id) :
    Registry.Keyed (s.table id) := by
  intro i row hrow
  obtain ⟨row', hrow', hmem⟩ : ∃ row', s.row = some row' ∧ (i, row) ∈ [(id, row')] := by
    have hmem := Dict.mem_of_get? hrow
    cases hs : s.row with
    | none => simp [Share.table, hs] at hmem
    | some row' => exact ⟨row', rfl, by simpa [Share.table, hs] using hmem⟩
  obtain ⟨rfl, rfl⟩ := Prod.mk.inj (List.mem_singleton.mp hmem)
  exact h row hrow'

/-- A share goes on to be that of an oracle with its configuration. -/
def Share.Of (id : OracleId) (cfg : OracleConfig) (s : Share) : Prop :=
  cfg.id = id ∧ s.row.map (·.config) = some cfg

/-- Requests that touch nothing but what belongs to an oracle are local to it, and leave it its
configuration. -/
theorem Cycle.Touches.onShare {cfg : OracleConfig} {changes : (Bookkeeping → Bookkeeping) → Prop}
    {r : Surroundings.Request} {s : Share} (hr : Touches id cfg changes r) (hs : s.Of id cfg)
    (E : Exterior) : Share.Local id r s ∧ (E.onShare id r s).2.Of id cfg := by
  obtain ⟨hid, hconfig⟩ := hs
  cases r with
  | registry r =>
    have hrow : r.OfRow id := by
      cases r with
      | row _ => exact hr
      | revise _ _ => exact hr.1
      | _ => exact hr.elim
    -- The share holds one row only, which is keyed because it is of this config.
    have hkeyed : Registry.Keyed (s.table id) := by
      refine Share.keyed_table fun row hfound => ?_
      rw [hfound] at hconfig
      exact (congrArg OracleConfig.id (Option.some.inj hconfig)).trans hid
    obtain ⟨-, hconfigs, -, -⟩ := Registry.serve_frame (m := s.storage id)
      (E.faults id s.asked) hrow hkeyed
    refine ⟨hrow, hid, (hconfigs id).trans ?_⟩
    rw [s.row_table]
    exact hconfig
  | feed r =>
    have hkey := congrArg (Option.map (·.destination.key)) hconfig
    rw [Option.map_map] at hkey
    refine ⟨hkey.trans ?_, hid, hconfig⟩
    rw [Option.map_some, show r.destination = cfg.destination from hr]
  | slot _ | tryTake _ | take _ | release _ | forget _ => exact hr.elim
  | _ => exact ⟨trivial, hid, hconfig⟩

/-- A cycle asks for nothing but what concerns its oracle. -/
theorem Cycle.keeps_local (E : Exterior) (policy : Policy) (deadline : Duration) {s : Share}
    (hnamed : ∀ row, s.row = some row → row.config.id = id) :
    Keeps (Exactly (E.onShare id)) (Share.Local id) (fun _ _ => True)
      (runLocked policy id deadline).run s := by
  rw [runLocked_eq]
  refine Attempt.keeps_bind.mpr ⟨rfl, ?_⟩
  rintro reply s' hreply
  obtain ⟨rfl, rfl⟩ := Prod.mk.inj hreply
  show Attempt.Ends _ _ (Registry.rowOf (s.table id) id) _
  rw [Registry.rowOf, s.row_table]
  cases hrow : s.row with
  | none => exact trivial
  | some row =>
    have hnamed := hnamed row hrow
    have hshare : s.Of id row.config := ⟨hnamed, congrArg (Option.map (·.config)) hrow⟩
    have htouches : Touches id row.config anyChange (.registry (.row id)) := rfl
    have hkeeps : Keeps (Exactly (E.onShare id)) (Share.Local id)
        (fun _ s => Share.Of id row.config s) (afterRow policy id deadline row).run
        (E.onShare id (.registry (.row id)) s).2 := by
      refine (touches_afterRow policy deadline hnamed).keeps
        (fun r s hr hs => (hr.onShare hs E).1) ?_ (htouches.onShare hshare E).2
      rintro r s reply t hr hs hreply
      have hafter := (hr.onShare hs E).2
      rwa [show E.onShare id r s = (reply, t) from hreply] at hafter
    exact hkeeps.mono fun _ _ _ => trivial

theorem Work.proper_cycle (hc : c.Orderly) (policy : Cycle.Policy) (deadline : Duration)
    (id : OracleId) : (Work.cycle policy deadline id).Proper E c := by
  have hnamed : ∀ row, (c.share id).row = some row → row.config.id = id := hc.table.keyed id
  have hlocal := Cycle.keeps_local E policy deadline hnamed
  exact Program.keeps_bind.mpr (hlocal.mono fun _ _ _ => trivial)

/-! ## Any order of turns -/

/-- Works that are apart come to the same, in whatever order their turns are taken, as one after the
other in any order. -/
theorem interleavings_agree (hc : c.Orderly) (hks : Apart E c ks) (hperm : ks.Perm ks') :
    ∃ v, E.InTurn c (ks'.map Work.start) (ks'.map fun k => (k.upshot E c).1) v ∧
      ∀ p, E.Comes (.start c ks) p →
        (∃ p', E.Comes p p' ∧ p'.Finished) ∧ c.Spares (Among ks) p.commons ∧
        (p.Finished → p.tasks = ks.map (fun k => .ended k.oracle (k.upshot E c).1) ∧
          p.commons.Same v) := by
  have hks' : Apart E c ks' :=
    ⟨((hperm.map _).nodup_iff).mp hks.nodup, fun k hk => hks.proper k (hperm.mem_iff.mpr hk)⟩
  obtain ⟨v, hinturn, hv⟩ := Exterior.in_turn hc hks'
  refine ⟨v, hinturn, fun p hrun => ?_⟩
  have hp := (Parallel.Consistent.start hc).comes hks hrun
  refine ⟨hp.ends hks, hp.spares, fun hdone => ?_⟩
  obtain ⟨htasks, hsettled⟩ := hp.settled hdone
  exact ⟨htasks, hsettled.same hv hperm⟩

/-- Cycles of distinct oracles, each under a deadline of its own. -/
theorem cycles_agree (E : Exterior) (hc : c.Orderly) (policy : Cycle.Policy)
    {jobs jobs' : List (OracleId × Duration)} (hnodup : (jobs.map (·.1)).Nodup)
    (hperm : jobs.Perm jobs') :
    let outcome (j : OracleId × Duration) := Work.outcome E c policy j.2 j.1
    ∃ v, E.InTurn c (jobs'.map fun j => .cycle policy j.2 j.1)
        (jobs'.map fun j => (j.1, outcome j)) v ∧
      ∀ p, E.Comes ⟨c, jobs.map fun j => .cycle policy j.2 j.1⟩ p →
        (∃ p', E.Comes p p' ∧ p'.Finished) ∧ c.Spares (· ∈ jobs.map (·.1)) p.commons ∧
        (p.Finished → p.tasks = jobs.map (fun j => .ended j.1 (j.1, outcome j)) ∧
          p.commons.Same v) := by
  intro outcome
  -- A cycle is a proper piece of work, so the general theorem on interleavings applies.
  let work (j : OracleId × Duration) := Work.cycle policy j.2 j.1
  have hstart : ∀ jobs : List (OracleId × Duration),
      (jobs.map work).map Work.start = jobs.map fun j => .cycle policy j.2 j.1 := by
    intro jobs
    rw [List.map_map]
    exact List.map_congr_left fun j _ => Work.start_cycle policy j.2 j.1
  have hover : ∀ j, ((work j).upshot E c).1 = (j.1, outcome j) :=
    fun j => Work.upshot_cycle E c policy j.2 j.1
  have horacles : (jobs.map work).map (·.oracle) = jobs.map (·.1) := List.map_map
  have hks : Apart E c (jobs.map work) := by
    refine ⟨horacles ▸ hnodup, List.forall_mem_map.mpr fun j _ => ?_⟩
    exact Work.proper_cycle hc policy j.2 j.1
  obtain ⟨v, hinturn, hall⟩ := interleavings_agree hc hks (hperm.map work)
  have hvalues : (jobs'.map work).map (fun k => (k.upshot E c).1)
      = jobs'.map fun j => (j.1, outcome j) := by
    rw [List.map_map]
    exact List.map_congr_left fun j _ => hover j
  rw [hstart, hvalues] at hinturn
  refine ⟨v, hinturn, fun p hrun => ?_⟩
  rw [Parallel.start, hstart] at hall
  obtain ⟨hends, hspares, hsame⟩ := hall p hrun
  refine ⟨hends, hspares.mono fun id hid => horacles ▸ hid, fun hdone => ?_⟩
  obtain ⟨htasks, hsame⟩ := hsame hdone
  refine ⟨?_, hsame⟩
  rw [htasks, List.map_map]
  refine List.map_congr_left fun j _ => ?_
  exact congrArg (Task.ended j.1) (hover j)

/-! ## Ticks -/

/-- The cycles of a tick that starts now, as tasks of some oracles. -/
def Engine.tasks (e : Engine) (now : Duration) (ids : List OracleId) :
    List (Task (OracleId × Except RegistryError Outcome)) :=
  List.zipWith Task.mk ids (e.cycles now ids)

theorem Engine.tasks_eq (e : Engine) (now : Duration) (ids : List OracleId) :
    e.tasks now ids = ids.map (.cycle e.policy ⟨now.nanos + e.patience.nanos⟩) := by
  rw [tasks, cycles, List.zipWith_map_right, List.zipWith_self]
  rfl

/-- The outcome of a cycle that is over and did not fail. -/
def Task.outcome? (t : Task (OracleId × Except RegistryError Outcome)) :
    Option (OracleId × Outcome) :=
  match t.rest with
  | .done (id, .ok o) => some (id, o)
  | _ => none

/-- The outcomes of a tick with the ids of their oracles; cycles that fail are left out. -/
def Parallel.outcomes (p : Parallel (OracleId × Except RegistryError Outcome)) :
    List (OracleId × Outcome) :=
  p.tasks.filterMap Task.outcome?

/-- Tasks that are over tell what has come out where that is no failure. -/
theorem outcomes_of_ended {p : Parallel (OracleId × Except RegistryError Outcome)}
    {outcome : OracleId → Except RegistryError Outcome} {ids : List OracleId}
    (h : p.tasks = ids.map fun id => .ended id (id, outcome id)) :
    p.outcomes = ids.filterMap fun id => (outcome id).toOption.map (id, ·) := by
  rw [Parallel.outcomes, h, List.filterMap_map]
  refine List.filterMap_congr fun id _ => ?_
  show Task.outcome? (.ended id (id, outcome id)) = _
  cases outcome id <;> rfl

/-- Every oracle has at most one outcome, and has one unless its cycle failed. -/
theorem ids_of_outcomes (outcome : OracleId → Except RegistryError Outcome) {ids : List OracleId}
    (h : ids.Nodup) :
    let outcomes := ids.filterMap fun id => (outcome id).toOption.map (id, ·)
    (outcomes.map (·.1)).Nodup ∧
      ∀ id ∈ ids, id ∈ outcomes.map (·.1) ∨ ∃ e, outcome id = .error e := by
  intro outcomes
  have hids : outcomes.map (·.1) = ids.filter fun id => (outcome id).toOption.isSome := by
    rw [List.map_filterMap, ← List.filterMap_eq_filter]
    refine List.filterMap_congr fun id _ => ?_
    rw [Option.guard]
    cases outcome id <;> rfl
  rw [hids]
  refine ⟨h.filter _, fun id hid => ?_⟩
  cases ho : outcome id with
  | ok o => exact .inl (List.mem_filter.mpr ⟨hid, by rw [ho]; rfl⟩)
  | error e => exact .inr ⟨e, rfl⟩

open PriceOracle.Cycle (ethUsd onceOnly)

/-- Another oracle on the node of `ethUsd`. -/
def btcUsd : OracleConfig :=
  { ethUsd with
    id := "btc-usd", source := .http "https://prices.test/btc-usd" "",
    destination := { ethUsd.destination with contract := ⟨List.replicate 20 2, rfl⟩ } }

/-- A registry with two oracles that never ran. -/
def twoOracles : Commons :=
  let served := Registry.serve (.register btcUsd) [] Registry.onlyEthUsd Registry.withEthUsd
  ⟨served.table, served.contents, .empty, fun _ => [], fun _ => []⟩

/-- Feeds that take every update, pages that tell the price, and storage that refuses every first
write of `btcUsd`. -/
def calm : Exterior where
  feed := fun calls r =>
    ((calls.foldl (fun f call => (f.answer call).2) Simulation.PriceFeed.empty).answer r).1
  own := fun _ _ r =>
    match r with
    | .registry r => (Registry.plan .empty r).reply
    | .feed r => (Simulation.PriceFeed.empty.answer r).1
    | .source (.get _ _) => some (.ok ⟨200, "5".toUTF8⟩)
    | .source (.call _ _ _ _) => none
    | .unixTime => (0 : UInt64)
    | .elapsed => ⟨0⟩
    | .delay shortest _ => shortest
    | .stage _ => .idle
    | .slot _ => (0 : Slot)
    | .tryTake _ => true
    | .sleep _ | .emit _ | .enter _ _ | .leave _ | .take _ | .release _ | .forget _ => ()
  faults := fun id _ => if id = btcUsd.id then [some (.backend "disk full")] else []

end PriceOracle
