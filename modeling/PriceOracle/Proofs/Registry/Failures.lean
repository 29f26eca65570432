import PriceOracle.Proofs.Cycle.Paths
import PriceOracle.Proofs.Registry.Reload

/-!
# Changes that fail

Requests to storage fail as a list of faults says; one that fails leaves the contents as they were.

* `Reachable`: the registries that any requests, amid any faults, and any restarts lead to.
* `Reachable.backed`: in all of them storage has every row of the table.
* `failed_reloads_iff`: a request that is answered with an error leaves the table as it was, and
  what a restart rebuilds as well, unless it is a removal that fails between its two writes.
-/

namespace PriceOracle.Registry

open Storage (Memory recordKey encode)
open PriceOracle.Cycle (ethUsd)

variable {t t' saved : Table} {m : Memory}

/-! ## Faults -/

/-- How the coming requests to storage fail, if they do; those past the end take effect. -/
abbrev Faults := List (Option StorageError)

/-- Answers a request to storage by the next fault, or else by the contents. -/
def answerAmid (r : Storage.interface.Request) :
    Faults × Memory → Storage.interface.Reply r × (Faults × Memory)
  | (some e :: faults, m) => (Simulation.refuse e r, faults, m)
  | (none :: faults, m) => ((Memory.answer r m).1, faults, (Memory.answer r m).2)
  | ([], m) => ((Memory.answer r m).1, [], (Memory.answer r m).2)

/-- A write takes effect, or fails and leaves the contents as they were. -/
theorem answerAmid_sound : Write.Sound answerAmid Prod.snd := by
  rintro w ⟨faults, m⟩
  match faults with
  | some e :: rest => cases w <;> exact .inr ⟨e, (rest, m), rfl, rfl⟩
  | none :: rest => cases w <;> exact .inl ⟨(rest, _), rfl, rfl⟩
  | [] => cases w <;> exact .inl ⟨([], _), rfl, rfl⟩

/-- Of the two writes of a removal the second one fails. -/
theorem taken_remove_iff {order : List OracleId} {id : OracleId} {faults : Faults} :
    Write.taken answerAmid [.order order, .drop id] (faults, m) = 1 ↔
      ∃ e rest, faults = none :: some e :: rest := by
  constructor
  · intro h
    match faults with
    | [] => cases h
    | some _ :: _ => cases h
    | [none] => cases h
    | none :: none :: _ => cases h
    | none :: some e :: rest => exact ⟨e, rest, rfl⟩
  · rintro ⟨e, rest, rfl⟩
    rfl

/-! ## Requests amid faults -/

/-- What a request amid faults leaves. -/
structure Served (r : Request) where
  reply : r.Reply
  table : Table
  contents : Memory

/-- Serves a request amid faults. -/
def serve (r : Request) (faults : Faults) (t : Table) (m : Memory) : Served r :=
  let outcome := (answer r t).run answerAmid (faults, m)
  ⟨outcome.1.1, outcome.1.2, outcome.2.2⟩

/-- The registries that requests amid faults and restarts lead to, from empty storage on. -/
inductive Reachable : Table → Memory → Prop where
  | empty : Reachable .empty []
  | served {t : Table} {m : Memory} (h : Reachable t m) (r : Request) (faults : Faults) :
    Reachable (serve r faults t m).table (serve r faults t m).contents
  | restarted {t t' : Table} {m : Memory} (h : Reachable t m) (hload : reload m = .ok t') :
    Reachable t' m

/-- A request carries out the writes of its plan before the first fault. -/
theorem serve_eq (r : Request) (faults : Faults) (t : Table) (m : Memory) :
    let p := plan t r
    let k := Write.taken answerAmid p.writes (faults, m)
    (serve r faults t m).contents = Write.applyAll (p.writes.take k) m ∧
      (k = p.writes.length →
        (serve r faults t m).reply = p.reply ∧ (serve r faults t m).table = p.table) ∧
      (k < p.writes.length → (serve r faults t m).table = t) := by
  obtain ⟨hcontents, hfinished, hcut⟩ := run_answer answerAmid_sound r t (faults, m)
  refine ⟨hcontents, ?_, hcut⟩
  intro hall
  exact Prod.mk.inj (hfinished hall)

/-- A request one of whose writes fails is refused. -/
theorem serve_refused {r : Request} {faults : Faults}
    (hcut : Write.taken answerAmid (plan t r).writes (faults, m) < (plan t r).writes.length) :
    ∃ e, (serve r faults t m).reply = (plan t r).refused e := by
  have hrefused := (answerAmid_sound.run_perform ((plan t r).reply, (plan t r).table)
    (fun e => ((plan t r).refused e, t)) (plan t r).writes (faults, m)).2.2
  obtain ⟨e, he⟩ := hrefused hcut
  rw [serve, answer_eq]
  exact ⟨e, congrArg Prod.fst he⟩

/-- A request, whatever fails, leaves every row of the table in storage. -/
theorem Backed.served (h : Backed t saved m) (r : Request) (faults : Faults) :
    ∃ saved', Backed (serve r faults t m).table saved' (serve r faults t m).contents := by
  obtain ⟨hcontents, hfinished, hcut⟩ := serve_eq r faults t m
  have hplan := planned h.arranged.keyed r
  rw [hcontents]
  rcases Nat.eq_or_lt_of_le (Write.taken_le (plan t r).writes (faults, m)) with hall | hsome
  · obtain ⟨saved', hbacked, -⟩ := h.finished hplan
    rw [(hfinished hall).2, hall, List.take_length]
    exact ⟨saved', hbacked⟩
  · rw [hcut hsome]
    exact ⟨_, h.cut hplan hsome⟩

/-- In every registry that can be reached, storage has all rows of the table. -/
theorem Reachable.backed (h : Reachable t m) : ∃ saved, Backed t saved m := by
  induction h with
  | empty => exact ⟨_, backed_empty⟩
  | served _ r faults ih =>
    obtain ⟨saved, hbacked⟩ := ih
    exact hbacked.served r faults
  | restarted _ hload ih =>
    obtain ⟨saved, hbacked⟩ := ih
    rw [hbacked.reload] at hload
    cases hload
    exact ⟨_, hbacked.settled⟩

/-! ## Removals that are cut in half -/

/-- A removal that fails between its two writes, of an oracle that a restart would have brought
back. -/
def HalfRemoves (r : Request) (faults : Faults) (m : Memory) : Prop :=
  ∃ id t' e rest, r = .remove id ∧ reload m = .ok t' ∧ t'.row? id ≠ none ∧
    faults = none :: some e :: rest

theorem Backed.halfRemoves_iff (h : Backed t saved m) {r : Request} {faults : Faults} :
    HalfRemoves r faults m ↔
      ∃ id, r = .remove id ∧ saved.row? id ≠ none ∧
        Write.taken answerAmid [.order (t.order.filter (· != id)), .drop id] (faults, m) = 1 := by
  constructor
  · rintro ⟨id, t', e, rest, hr, hload, hid, hfaults⟩
    rw [h.reload] at hload
    cases hload
    exact ⟨id, hr, hid, taken_remove_iff.mpr ⟨e, rest, hfaults⟩⟩
  · rintro ⟨id, hr, hid, htaken⟩
    obtain ⟨e, rest, hfaults⟩ := taken_remove_iff.mp htaken
    exact ⟨id, saved, e, rest, hr, h.reload, hid, hfaults⟩

/-- What a restart brings back is there. -/
theorem Backed.row_ne_none (h : Backed t saved m) {id : OracleId} (hid : saved.row? id ≠ none) :
    t.row? id ≠ none := by
  obtain rfl | ⟨other, -, rfl⟩ := h.lag
  · exact hid
  · by_cases heq : id = other
    · subst heq
      exact absurd (t.row_remove_self id) hid
    · rwa [t.row_remove_of_ne heq] at hid

/-- The saved table is what is left without an oracle exactly if it has not got that oracle. -/
theorem Backed.remove_eq_iff (h : Backed t saved m) {id : OracleId} (hid : t.row? id ≠ none) :
    t.remove id = saved ↔ saved.row? id = none := by
  constructor
  · rintro rfl
    exact t.row_remove_self id
  · intro hnone
    obtain rfl | ⟨other, -, rfl⟩ := h.lag
    · exact absurd hnone hid
    · by_cases heq : id = other
      · rw [heq]
      · rw [t.row_remove_of_ne heq] at hnone
        exact absurd hnone hid

/-- A cut changes what a restart rebuilds exactly if it cuts a removal in half. -/
theorem Backed.savedAfter_eq_iff (h : Backed t saved m) {r : Request} {faults : Faults} {k : Nat}
    (hk : k = Write.taken answerAmid (plan t r).writes (faults, m))
    (hcut : k < (plan t r).writes.length) :
    savedAfter r k t saved = saved ↔ ¬HalfRemoves r faults m := by
  rw [h.halfRemoves_iff]
  cases r with
  | row _ | rows | ids | holds _ => exact absurd hcut (Nat.not_lt_zero _)
  | register _ | update _ | revise _ _ =>
    constructor
    · rintro - ⟨id, hr, -⟩
      cases hr
    · intro _
      rfl
  | remove id =>
    by_cases hid : t.row? id = none
    · rw [plan_remove_absent hid] at hcut
      exact absurd hcut (Nat.not_lt_zero _)
    · rw [plan_remove hid] at hk hcut
      match k, hcut with
      | 0, _ =>
        -- Nothing was written.
        constructor
        · rintro - ⟨id', hr, -, hone⟩
          cases hr
          rw [← hk] at hone
          cases hone
        · intro _
          rfl
      | 1, _ =>
        -- The order was written, and the row was not removed.
        show t.remove id = saved ↔ _
        rw [h.remove_eq_iff hid]
        constructor
        · rintro hgone ⟨id', hr, hpresent, -⟩
          cases hr
          exact hpresent hgone
        · intro hnot
          by_contra hpresent
          exact hnot ⟨id, rfl, hpresent, hk.symm⟩

/-- A request that is answered with an error leaves the table as it was. It leaves what a restart
rebuilds as it was exactly if it is no removal that fails between its two writes; such a removal is
reported as failed, and the next restart has lost the oracle. -/
theorem failed_reloads_iff (h : Reachable t m) (r : Request) (faults : Faults)
    (hfailed : r.Failed (serve r faults t m).reply) :
    (serve r faults t m).table = t ∧
      (reload (serve r faults t m).contents = reload m ↔ ¬HalfRemoves r faults m) ∧
      (HalfRemoves r faults m → ∃ id, r = .remove id ∧ t.row? id ≠ none ∧
        reload (serve r faults t m).contents = .ok (t.remove id)) := by
  obtain ⟨saved, hbacked⟩ := h.backed
  obtain ⟨hcontents, hfinished, hcut⟩ := serve_eq r faults t m
  have hplan := planned hbacked.arranged.keyed r
  rcases Nat.eq_or_lt_of_le (Write.taken_le (plan t r).writes (faults, m)) with hall | hsome
  · -- The registry refuses, so nothing is written.
    obtain ⟨hreply, htable⟩ := hfinished hall
    rw [hreply] at hfailed
    obtain ⟨hwrites, hsame⟩ := writes_of_failed hfailed
    have hkept : (serve r faults t m).contents = m := by
      rw [hcontents, hwrites]
      rfl
    have hnot : ¬HalfRemoves r faults m := by
      rw [hbacked.halfRemoves_iff]
      rintro ⟨id, rfl, hid, -⟩
      rw [plan_remove (hbacked.row_ne_none hid)] at hwrites
      cases hwrites
    rw [hkept]
    exact ⟨htable.trans hsame, iff_of_true rfl hnot, fun hhalf => absurd hhalf hnot⟩
  · have hafter := (hbacked.cut hplan hsome).reload
    rw [← hcontents] at hafter
    refine ⟨hcut hsome, ?_, ?_⟩
    · rw [hafter, hbacked.reload, ← hbacked.savedAfter_eq_iff rfl hsome]
      exact ⟨Except.ok.inj, congrArg Except.ok⟩
    · intro hhalf
      obtain ⟨id, rfl, hid, hone⟩ := hbacked.halfRemoves_iff.mp hhalf
      have hpresent := hbacked.row_ne_none hid
      rw [plan_remove hpresent, hone] at hafter
      exact ⟨id, rfl, hpresent, hafter⟩

/-! ## An oracle that is lost -/

/-- A table with one oracle, as it was just registered. -/
def onlyEthUsd : Table := Table.empty.append ethUsd.id ⟨ethUsd, .initial⟩

/-- The contents of storage after an oracle was registered. -/
def withEthUsd : Memory := (serve (.register ethUsd) [] .empty []).contents

theorem reachable_ethUsd : Reachable onlyEthUsd withEthUsd :=
  Reachable.empty.served (.register ethUsd) []

theorem backed_ethUsd : Backed onlyEthUsd onlyEthUsd withEthUsd := by
  have hplan := planned Table.arranged_empty.keyed (.register ethUsd)
  obtain ⟨saved, hbacked, hsaved⟩ := backed_empty.finished hplan
  rw [hsaved rfl] at hbacked
  exact hbacked

/-- A removal whose second write fails. -/
def cutRemoval : Served (.remove ethUsd.id) :=
  serve (.remove ethUsd.id) [none, some (.backend "injected delete failure")] onlyEthUsd withEthUsd

theorem cutRemoval_reply :
    cutRemoval.reply = .error (.storage (.backend "injected delete failure")) := rfl

/-- A removal that fails at its second write is reported as failed and leaves the oracle in the
table; the next restart has lost it. -/
theorem failed_removal_loses_oracle :
    Reachable onlyEthUsd withEthUsd ∧
      cutRemoval.reply = .error (.storage (.backend "injected delete failure")) ∧
      cutRemoval.table = onlyEthUsd ∧ reload withEthUsd = .ok onlyEthUsd ∧
      reload cutRemoval.contents = .ok .empty := by
  have hplan := planned backed_ethUsd.arranged.keyed (.remove ethUsd.id)
  have hcut : Backed onlyEthUsd (onlyEthUsd.remove ethUsd.id) cutRemoval.contents :=
    backed_ethUsd.cut hplan (k := 1) Nat.one_lt_two
  exact ⟨reachable_ethUsd, cutRemoval_reply, rfl, backed_ethUsd.reload, hcut.reload⟩

/-- A removal that is cut in half loses its oracle, and one that fails at once loses nothing. -/
theorem failed_removals_reload :
    reload cutRemoval.contents ≠ reload withEthUsd ∧
      reload (serve (.remove ethUsd.id) [some (.backend "injected set failure")] onlyEthUsd
        withEthUsd).contents = reload withEthUsd := by
  constructor
  · have hhalf : HalfRemoves (.remove ethUsd.id)
        [none, some (.backend "injected delete failure")] withEthUsd :=
      ⟨ethUsd.id, onlyEthUsd, _, [], rfl, backed_ethUsd.reload, nofun, rfl⟩
    have hiff := (failed_reloads_iff reachable_ethUsd (.remove ethUsd.id)
      [none, some (.backend "injected delete failure")] ⟨_, cutRemoval_reply⟩).2.1
    exact fun hsame => hiff.mp hsame hhalf
  · refine (failed_reloads_iff reachable_ethUsd (.remove ethUsd.id)
      [some (.backend "injected set failure")] ⟨_, rfl⟩).2.1.mpr ?_
    rintro ⟨_, _, _, _, _, _, _, hfaults⟩
    cases hfaults

end PriceOracle.Registry
