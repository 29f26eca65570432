import PriceOracle.Config.Check
import PriceOracle.Proofs.Cycle.Footprint
import PriceOracle.Proofs.Program.Endings
import PriceOracle.Proofs.Registry.Regular

/-!
# Seeding

Seeding registers those of the configured oracles that the registry does not know. What it does to a
table is decided by the ids alone (`unknown`); whether it succeeds is decided by the same rules that
a configuration is checked by.

* `keeps_seed_cons`: what seeding does about the first of some oracles.
* `keeps_seed_checked`: oracles that pass the check of a configuration are all registered.
* `keeps_seed_unknown`: whatever fails, where seeding succeeds it has added the unknown oracles.
* `keeps_seed_known`: known oracles are only read.
* `Meanwhile`: requests that neither register nor remove, such as those of cycles, and restarts.
* `Unbroken`: registries without a removal that failed between its two writes.
* `seed_settles`: seeding once more adds nothing, in between any of these, exactly when a restart
  brings all configured oracles back.
-/

namespace PriceOracle

open PriceOracle.Cycle (ethUsd)
open Program (Answered Carries Keeps Leads)
open Storage (Memory)
open Surroundings (Action)

/-! ## Tables -/

/-- A new row comes last. -/
theorem Table.Arranged.inOrder_append {t : Table} (h : t.Arranged) (row : Row)
    (hid : t.row? row.config.id = none) :
    (t.append row.config.id row).inOrder = t.inOrder ++ [row] := by
  have hkey : row.config.id ∉ Dict.keys t.rows := (Dict.get?_eq_none_iff t.rows _).mp hid
  have hrows : (t.append row.config.id row).rows = t.rows ++ [(row.config.id, row)] :=
    Dict.set_of_not_mem row hkey
  rw [(h.append hid).inOrder_eq, h.inOrder_eq, hrows, List.map_append]
  rfl

namespace Registry

variable {t t' saved : Table} {m : Memory} {c : OracleConfig} {s s' : Table × Memory}
  {configs earlier : List OracleConfig} {log : List OracleId}

/-! ## Requests of seeding -/

/-- How the surroundings of a call serve it when storage does not fail. -/
def wellServed : Behaviour Surroundings.interface (Table × Memory)
  | .registry r, s, reply, s' => serve r [] s.1 s.2 = ⟨reply, s'.1, s'.2⟩
  | _, s, _, s' => s' = s

theorem serves_of_wellServed {r : Surroundings.Request} {reply : r.Reply}
    (h : wellServed r s reply s') : serves r s reply s' := by
  cases r with
  | registry r => exact ⟨[], h⟩
  | _ => exact h

theorem serves_emit (e : Event) (s : Table × Memory) : serves (.emit e) s () s := rfl

/-- All writes take effect when nothing fails. -/
theorem taken_all (writes : List Write) (m : Memory) :
    Write.taken answerAmid writes ([], m) = writes.length := by
  induction writes generalizing m with
  | nil => rfl
  | cons w rest ih =>
    have hrun : w.access.run.run answerAmid ([], m) = (.ok (), ([], w.apply m)) := by
      cases w <;> rfl
    rw [Write.taken_cons hrun, ih, List.length_cons]

/-- When nothing fails a request is answered as planned. -/
theorem serve_well (r : Request) (t : Table) (m : Memory) :
    (serve r [] t m).reply = (plan t r).reply ∧ (serve r [] t m).table = (plan t r).table :=
  (serve_eq r [] t m).2.1 (taken_all _ m)

theorem told_row {id : OracleId} {reply : Except RegistryError Row}
    (h : serves (.registry (.row id)) s reply s') : reply = rowOf s.1 id ∧ s' = s := by
  obtain ⟨faults, hserve⟩ := h
  have hreply : rowOf s.1 id = reply := congrArg Served.reply hserve
  have htable : s.1 = s'.1 := congrArg Served.table hserve
  have hcontents : s.2 = s'.2 := congrArg Served.contents hserve
  exact ⟨hreply.symm, (Prod.ext htable hcontents).symm⟩

/-- The row that an oracle gets when it is registered. -/
def newRow (c : OracleConfig) : Row := ⟨c, .initial⟩

/-- What seeding does about the first of some oracles: it goes on where the oracle is known, and
registers it otherwise. -/
theorem keeps_seed_cons {B : Behaviour Surroundings.interface (Table × Memory)}
    (hB : ∀ r s reply s', B r s reply s' → serves r s reply s')
    {post : Except ServiceError Nat → Table × Memory → Prop} {rest : List OracleConfig}
    (hknown : s.1.row? c.id ≠ none →
      Keeps B (fun _ _ => True) post (Management.seed rest).run s)
    (hnew : s.1.row? c.id = none → ∀ reply s₁, B (.registry (.register c)) s reply s₁ →
      (∀ e, reply = .error e → post (.error (.registry e)) s₁) ∧
      (reply = .ok () → Keeps B (fun _ _ => True) (fun result s' => post (result.map (· + 1)) s')
        (Management.seed rest).run s₁)) :
    Keeps B (fun _ _ => True) post (Management.seed (c :: rest)).run s := by
  refine Attempt.keeps_lift_bind.mpr ⟨trivial, ?_⟩
  intro told s₁ htold
  obtain ⟨rfl, rfl⟩ := told_row (hB _ _ _ _ htold)
  rw [rowOf]
  cases hrow : s₁.1.row? c.id with
  | some row => exact hknown (by rw [hrow]; exact Option.some_ne_none row)
  | none =>
    refine Attempt.keeps_bind.mpr (Attempt.keeps_adapt.mpr ⟨trivial, ?_⟩)
    intro registered s₂ hregistered
    obtain ⟨hrefused, hadded⟩ := hnew hrow registered s₂ hregistered
    cases registered with
    | error e => exact hrefused e rfl
    | ok _ =>
      refine Attempt.keeps_lift_bind.mpr ⟨trivial, ?_⟩
      intro _ s₃ hemitted
      obtain rfl : s₃ = s₂ := hB (.emit _) _ _ _ hemitted
      refine Attempt.keeps_bind.mpr ((hadded rfl).mono ?_)
      intro counted s' hpost
      cases counted <;> exact hpost

/-! ## Oracles that pass the check -/

theorem oraclesFault_of_check {config : Config} (h : config.check = .ok ()) :
    Config.oraclesFault? [] config.oracles = none := by
  rw [Config.check] at h
  cases hfault : config.fault? with
  | some reason =>
    rw [hfault] at h
    cases h
  | none =>
    simp only [Config.fault?, Option.orElse_eq_orElse, Option.orElse_eq_or,
      Option.or_eq_none_iff] at hfault
    exact hfault.2.2.2.1

theorem sound_of_oracleFault (h : Config.oracleFault? earlier c = none) :
    check c = .ok () ∧ (∀ d ∈ earlier, d.id ≠ c.id) ∧
      ∀ d ∈ earlier, d.destination.key ≠ c.destination.key := by
  unfold Config.oracleFault? at h
  split at h
  · cases h
  next hthreshold =>
    split at h
    · cases h
    next hdecimals =>
      split at h
      · cases h
      next hids =>
        split at h
        · cases h
        next hkeys =>
          refine ⟨by rw [check, if_neg hthreshold, if_neg hdecimals], ?_, ?_⟩
          · simpa using hids
          · simpa using hkeys

/-- When nothing fails, all oracles that pass the check are registered. -/
theorem keeps_seed_checked (hfault : Config.oraclesFault? earlier configs = none)
    (hs : s.1.Regular) (hearlier : ∀ id row, s.1.row? id = some row → row.config ∈ earlier) :
    Keeps wellServed (fun _ _ => True)
      (fun result s' => result = .ok configs.length ∧
        s'.1.order = s.1.order ++ configs.map (·.id) ∧
        s'.1.inOrder = s.1.inOrder ++ configs.map newRow)
      (Management.seed configs).run s := by
  induction configs generalizing earlier s with
  | nil => exact ⟨rfl, (List.append_nil _).symm, (List.append_nil _).symm⟩
  | cons c rest ih =>
    obtain ⟨hfirst, hrest⟩ : Config.oracleFault? earlier c = none ∧
        Config.oraclesFault? (c :: earlier) rest = none := by
      simpa [Config.oraclesFault?] using hfault
    obtain ⟨hcheck, hids, hkeys⟩ := sound_of_oracleFault hfirst
    -- Every row so far came from an earlier config, and the check compared those with `c`.
    have hfree : s.1.row? c.id = none := by
      by_contra hsome
      obtain ⟨row, hrow⟩ := Option.ne_none_iff_exists'.mp hsome
      exact hids _ (hearlier _ row hrow) (hs.keyed _ row hrow)
    have howner : s.1.owner? c = none := by
      by_contra hsome
      obtain ⟨o, ho⟩ := Option.ne_none_iff_exists'.mp hsome
      obtain ⟨-, row, hrow, hkey⟩ := hs.owner_iff.mp ho
      exact hkeys _ (hearlier o row hrow) hkey
    refine keeps_seed_cons (fun _ _ _ _ => serves_of_wellServed) (absurd hfree) ?_
    intro _ reply s₁ hserve
    obtain ⟨hreply, htable⟩ := serve_well (.register c) s.1 s.2
    rw [show serve (.register c) [] s.1 s.2 = _ from hserve,
      plan_register hcheck hfree howner] at hreply htable
    replace hreply : reply = .ok () := hreply
    replace htable : s₁.1 = s.1.append c.id (newRow c) := htable
    subst hreply
    refine ⟨nofun, fun _ => (ih hrest ?_ ?_).mono ?_⟩
    · rw [htable]
      exact (Effect.registered hcheck hfree howner).regular hs
    · intro id row hrow
      rw [htable] at hrow
      by_cases hid : id = c.id
      · subst hid
        rw [s.1.row_append_self] at hrow
        cases hrow
        exact List.mem_cons_self
      · rw [s.1.row_append_of_ne _ hid] at hrow
        exact List.mem_cons_of_mem _ (hearlier id row hrow)
    · rintro result s' ⟨rfl, horder, hrows⟩
      have hlast : (s.1.append c.id (newRow c)).inOrder = s.1.inOrder ++ [newRow c] :=
        hs.inOrder_append (newRow c) hfree
      refine ⟨rfl, ?_, ?_⟩
      · rw [horder, htable]
        exact List.append_assoc _ _ _
      · rw [hrows, htable, hlast, List.append_assoc]
        rfl

/-! ## What seeding adds -/

theorem Effect.table_register {reply : Except RegistryError Unit}
    (h : Effect t (.register c) reply t') (hok : reply = .ok ()) :
    t' = t.append c.id (newRow c) := by
  cases h with
  | told hread => cases hread
  | refused hfailed =>
    obtain ⟨e, rfl⟩ := hfailed
    cases hok
  | registered => rfl

/-- The configurations whose ids are not known: of each id the first one. -/
def unknown (known : List OracleId) : List OracleConfig → List OracleConfig
  | [] => []
  | c :: rest =>
    if c.id ∈ known then unknown known rest else c :: unknown (known ++ [c.id]) rest

theorem unknown_eq_nil_iff {known : List OracleId} :
    unknown known configs = [] ↔ ∀ c ∈ configs, c.id ∈ known := by
  induction configs with
  | nil => simp [unknown]
  | cons c rest ih =>
    rw [unknown, List.forall_mem_cons]
    split
    next hknown => rw [ih, and_iff_right hknown]
    next hnew => exact iff_of_false (List.cons_ne_nil _ _) fun h => hnew h.1

/-- Seeding knows all oracles afterwards. -/
theorem mem_append_unknown (known : List OracleId) :
    ∀ c ∈ configs, c.id ∈ known ++ (unknown known configs).map (·.id) := by
  induction configs generalizing known with
  | nil => exact fun _ hc => absurd hc List.not_mem_nil
  | cons c rest ih =>
    rw [unknown]
    split
    next hknown =>
      exact List.forall_mem_cons.mpr ⟨List.mem_append_left _ hknown, ih known⟩
    next hnew =>
      refine List.forall_mem_cons.mpr ⟨by simp, fun d hd => ?_⟩
      simpa using ih (known ++ [c.id]) d hd

/-- Whatever fails, where seeding succeeds it has added the unknown oracles behind the others. -/
theorem keeps_seed_unknown (configs : List OracleConfig) (hs : s.1.Regular) :
    Keeps serves (fun _ _ => True)
      (fun result s' => ∀ n, result = .ok n → n = (unknown s.1.order configs).length ∧
        s'.1.order = s.1.order ++ (unknown s.1.order configs).map (·.id) ∧
        s'.1.inOrder = s.1.inOrder ++ (unknown s.1.order configs).map newRow)
      (Management.seed configs).run s := by
  induction configs generalizing s with
  | nil =>
    rintro n h
    cases h
    exact ⟨rfl, (List.append_nil _).symm, (List.append_nil _).symm⟩
  | cons c rest ih =>
    refine keeps_seed_cons (fun _ _ _ _ h => h) ?_ ?_
    -- A config already there is passed over; a new one is appended before the rest go on.
    · intro hthere
      rw [unknown, if_pos (hs.mem_order.mpr hthere)]
      exact ih hs
    · intro hfree reply s₁ hserve
      refine ⟨fun _ _ _ => nofun, ?_⟩
      rintro rfl
      have heffect := effect_serves hserve
      have htable : s₁.1 = s.1.append c.id (newRow c) := heffect.table_register rfl
      have hnew : c.id ∉ s.1.order := fun hmem => hs.mem_order.mp hmem hfree
      rw [unknown, if_neg hnew]
      have hlast : (s.1.append c.id (newRow c)).inOrder = s.1.inOrder ++ [newRow c] :=
        hs.inOrder_append (newRow c) hfree
      refine (ih (heffect.regular hs)).mono ?_
      intro result s' hpost n hn
      obtain ⟨k, rfl, rfl⟩ : ∃ k, result = .ok k ∧ k + 1 = n := by
        cases result with
        | error e => cases hn
        | ok k => exact ⟨k, rfl, Except.ok.inj hn⟩
      obtain ⟨hcount, horder, hrows⟩ := hpost k rfl
      have hknown : s₁.1.order = s.1.order ++ [c.id] := by rw [htable]; rfl
      rw [hknown] at hcount horder hrows
      rw [htable, hlast, List.append_assoc] at hrows
      rw [List.append_assoc] at horder
      exact ⟨by rw [hcount, List.length_cons], horder, hrows⟩

/-! ## Nothing to add -/

/-- What seeding asks for. -/
def Seeds : Surroundings.Request → Prop
  | .registry (.row _) | .registry (.register _) | .emit _ => True
  | _ => False

theorem makes_seed (configs : List OracleConfig) : (Management.seed configs).run.Makes Seeds := by
  induction configs with
  | nil => exact trivial
  | cons c rest ih =>
    refine Attempt.makes_lift_bind ⟨trivial, fun _ => trivial⟩ fun told => ?_
    rcases told with e | row
    · cases e with
      | notFound _ =>
        refine Attempt.makes_bind (Attempt.makes_adapt _ ⟨trivial, fun _ => trivial⟩) fun _ => ?_
        refine Attempt.makes_lift_bind ⟨trivial, fun _ => trivial⟩ fun _ => ?_
        exact Attempt.makes_bind ih fun _ => trivial
      | _ => exact trivial
    · exact ih

/-- Seeding comes to an end. -/
theorem seed_ends {B : Behaviour Surroundings.interface (Table × Memory)}
    (hB : ∀ r s reply s', wellServed r s reply s' → B r s reply s') (configs : List OracleConfig)
    (s : Table × Memory) :
    ∃ result s', Leads B (Management.seed configs).run s (.done result) s' := by
  refine (makes_seed configs).ends ?_ s
  intro r s hr
  cases r with
  | registry r => exact ⟨_, (_, _), hB (.registry r) _ _ _ rfl⟩
  | emit e => exact ⟨(), s, hB (.emit e) _ _ _ rfl⟩
  | _ => exact hr.elim

/-- To seed some oracles once more returns zero, and does nothing but read rows. -/
def AddsNothing (configs : List OracleConfig) (s : Table × Memory) : Prop :=
  Leads serves (Management.seed configs).run s (.done (.ok 0)) s ∧
    Keeps serves (fun r _ => ∃ id, r = .registry (.row id))
      (fun result s' => result = .ok 0 ∧ s' = s) (Management.seed configs).run s

/-- Known oracles are only read. -/
theorem keeps_seed_known (hs : s.1.Arranged) (hknown : ∀ c ∈ configs, c.id ∈ s.1.order) :
    Keeps serves (fun r _ => ∃ id, r = .registry (.row id))
      (fun result s' => result = .ok 0 ∧ s' = s) (Management.seed configs).run s := by
  induction configs with
  | nil => exact ⟨rfl, rfl⟩
  | cons c rest ih =>
    rw [List.forall_mem_cons] at hknown
    refine Attempt.keeps_lift_bind.mpr ⟨⟨c.id, rfl⟩, ?_⟩
    intro told s₁ htold
    obtain ⟨rfl, rfl⟩ := told_row htold
    rw [rowOf]
    cases hrow : s₁.1.row? c.id with
    | some row => exact ih hknown.2
    | none => exact absurd hrow (hs.mem_order.mp hknown.1)

/-- Seeding adds nothing exactly where all oracles are known. -/
theorem addsNothing_iff (hs : s.1.Regular) :
    AddsNothing configs s ↔ ∀ c ∈ configs, c.id ∈ s.1.order := by
  constructor
  · rintro ⟨hrun, -⟩
    obtain ⟨hcount, -⟩ := (keeps_seed_unknown configs hs).leads hrun 0 rfl
    exact unknown_eq_nil_iff.mp (List.length_eq_zero_iff.mp hcount.symm)
  · intro hknown
    have hkeeps := keeps_seed_known hs.toArranged hknown
    obtain ⟨result, s', hrun⟩ := seed_ends (fun _ _ _ _ => serves_of_wellServed) configs s
    obtain ⟨rfl, rfl⟩ := hkeeps.leads hrun
    exact ⟨hrun, hkeeps⟩

/-! ## In between -/

/-- What goes on between two seedings: requests that neither register nor remove, amid any faults,
and restarts. -/
inductive Meanwhile : Table × Memory → Table × Memory → Prop where
  | nothing (s : Table × Memory) : Meanwhile s s
  | served {t : Table} {m : Memory} {s' : Table × Memory} (r : Request) (faults : Faults)
    (hr : r.KeepsOrder)
    (h : Meanwhile ((serve r faults t m).table, (serve r faults t m).contents) s') :
    Meanwhile (t, m) s'
  | restarted {t t' : Table} {m : Memory} {s' : Table × Memory} (hload : reload m = .ok t')
    (h : Meanwhile (t', m) s') : Meanwhile (t, m) s'

/-- A program of such requests, as far as it came. -/
theorem Meanwhile.of_leads {α : Type} {p q : Action α} {post : α → Table × Memory → Prop}
    (h : Keeps serves (fun r _ => OrderKept r) post p s) (hrun : Leads serves p s q s') :
    Meanwhile s s' := by
  induction hrun with
  | here => exact .nothing _
  | @ask r next reply s₁ s₂ s₃ q hreply _ ih =>
    have hrest := ih (h.2 _ _ hreply)
    cases r with
    | registry r =>
      obtain ⟨faults, hserve⟩ := hreply
      refine .served r faults h.1 ?_
      rw [hserve]
      exact hrest
    | _ =>
      obtain rfl := hreply
      exact hrest

theorem orderKept_of_touches {id : OracleId} {c : OracleConfig} {r : Surroundings.Request}
    (h : Cycle.Touches id c Cycle.anyChange r) : OrderKept r := by
  cases r with
  | registry r =>
    cases r with
    | row | revise => exact trivial
    | _ => exact h.elim
  | _ => exact trivial

/-- The requests of a cycle neither register nor remove. -/
theorem keeps_cycle (policy : Cycle.Policy) (id : OracleId) (deadline : Duration)
    (hs : s.1.Arranged) :
    Keeps serves (fun r _ => OrderKept r) (fun _ _ => True) (Cycle.run policy id deadline) s := by
  refine ⟨trivial, fun slot s₁ hslot => ?_⟩
  obtain rfl : s₁ = s := hslot
  refine ⟨trivial, fun free s₂ htried => ?_⟩
  obtain rfl : s₂ = s₁ := htried
  cases free with
  | false => exact trivial
  | true =>
    show Keeps serves _ _ ((Cycle.runLocked policy id deadline).run.bind _) s₂
    rw [Cycle.runLocked_eq]
    refine Program.keeps_bind.mpr (Attempt.keeps_bind.mpr ?_)
    refine ⟨trivial, fun told s₃ htold => ?_⟩
    obtain ⟨rfl, rfl⟩ := told_row htold
    -- What follows the locked part emits and releases only, whatever the outcome.
    have hrest : ∀ (outcome : Except RegistryError Outcome) (s : Table × Memory),
        Keeps serves (fun r _ => OrderKept r) (fun _ _ => True)
          (do
            Cycle.leaveStage id outcome
            Surroundings.release slot
            return outcome : Action (Except RegistryError Outcome)) s := by
      intro outcome s
      have hidle : Carries serves (fun r _ => OrderKept r) (fun _ : Table × Memory => True)
          (.enter id .idle) := fun _ _ => ⟨trivial, fun _ _ _ => trivial⟩
      exact Program.keeps_bind.mpr ((Cycle.keeps_leaveStage hidle outcome trivial).mono
        fun _ _ _ => ⟨trivial, fun _ _ _ => trivial⟩)
    rw [rowOf]
    cases hrow : s₃.1.row? id with
    | none => exact hrest _ _
    | some row =>
      have hmakes := Cycle.touches_afterRow policy deadline (hs.keyed id row hrow)
      have hkeeps : Keeps serves (fun r _ => OrderKept r) (fun _ _ => True)
          (Cycle.afterRow policy id deadline row).run s₃ :=
        hmakes.keeps (fun r _ hr _ => orderKept_of_touches hr) (fun _ _ _ _ _ _ _ => trivial)
          trivial
      exact hkeeps.mono fun outcome s _ => hrest outcome s

/-- Storage has one order. -/
theorem HasOrder.unique {order order' : List OracleId} (h : HasOrder order m)
    (h' : HasOrder order' m) : order = order' := by
  have hnone (hmissing : Dict.get? m (Storage.recordKey indexSpace indexId) = none) :
      storedOrder? m = none := by
    rw [storedOrder?, Memory.record?, hmissing]
    rfl
  rcases h with hstored | ⟨hmissing, rfl⟩ <;> rcases h' with hstored' | ⟨hmissing', rfl⟩
  · exact Option.some.inj (hstored.symm.trans hstored')
  · rw [hnone hmissing'] at hstored
    cases hstored
  · rw [hnone hmissing] at hstored'
    cases hstored'
  · rfl

/-- Requests that neither register nor remove write a row at most. -/
theorem Planned.rowAtMost {r : Request} {writes : List Write} (h : Planned t r writes t')
    (hr : r.KeepsOrder) : writes = [] ∨ ∃ row, writes = [.row row] := by
  cases h with
  | idle => exact .inl rfl
  | revised row _ => exact .inr ⟨row, rfl⟩
  | registered | removed => exact hr.elim

/-- Requests that neither register nor remove leave the stored order. -/
theorem HasOrder.served {order : List OracleId} (h : HasOrder order m) (hkeyed : Keyed t)
    {r : Request} (hr : r.KeepsOrder) (faults : Faults) :
    HasOrder order (serve r faults t m).contents := by
  rw [(serve_eq r faults t m).1]
  rcases (planned hkeyed r).rowAtMost hr with hwrites | ⟨row, hwrites⟩
  · rw [hwrites, List.take_nil]
    exact h
  · rw [hwrites]
    cases Write.taken answerAmid [.row row] (faults, m) with
    | zero => exact h
    | succ k =>
      rw [List.take_succ_cons, List.take_nil]
      exact h.of_row (w := .row row) (rowKey_ne_indexKey _)

/-- The stored order is that of the table, or lacks an oracle of it. -/
theorem Backed.saved_sublist (h : Backed t saved m) : saved.order.Sublist t.order := by
  obtain rfl | ⟨id, -, rfl⟩ := h.lag
  · exact List.Sublist.refl _
  · exact List.filter_sublist

/-- The stored order stays through all that goes on between two seedings. -/
theorem Meanwhile.backed (h : Meanwhile s s') (hbacked : Backed s.1 saved s.2) :
    ∃ saved', Backed s'.1 saved' s'.2 ∧ saved'.order = saved.order := by
  induction h generalizing saved with
  | nothing => exact ⟨saved, hbacked, rfl⟩
  | served r faults hr _ ih =>
    obtain ⟨saved₁, hbacked₁⟩ := hbacked.served r faults
    have hsame := hbacked₁.ordered.unique (hbacked.ordered.served hbacked.arranged.keyed hr faults)
    obtain ⟨saved', hbacked', horder⟩ := ih hbacked₁
    exact ⟨saved', hbacked', horder.trans hsame⟩
  | restarted hload _ ih =>
    rw [hbacked.reload] at hload
    obtain rfl := Except.ok.inj hload
    exact ih hbacked.settled

/-- A table stays regular between two seedings. -/
theorem Meanwhile.regular (h : Meanwhile s s') (hs : s.1.Regular) (hbacked : Backed s.1 saved s.2) :
    s'.1.Regular := by
  induction h generalizing saved with
  | nothing => exact hs
  | served r faults _ _ ih =>
    obtain ⟨saved₁, hbacked₁⟩ := hbacked.served r faults
    exact ih ((effect_serve r faults _ _).regular hs) hbacked₁
  | restarted hload _ ih =>
    rw [hbacked.reload] at hload
    obtain rfl := Except.ok.inj hload
    exact ih (hbacked.saved_regular hs).1 hbacked.settled

/-- In between two seedings there is never anything to add exactly where a restart brings all
oracles back: it may restart at once, and from then on these oracles are known. -/
theorem Backed.addsNothing_meanwhile_iff (hbacked : Backed s.1 saved s.2)
    (configs : List OracleConfig) (hs : s.1.Regular) :
    (∀ s', Meanwhile s s' → AddsNothing configs s') ↔ ∀ c ∈ configs, c.id ∈ saved.order := by
  constructor
  · intro hnothing
    have hrestarted := hnothing (saved, s.2) (.restarted hbacked.reload (.nothing _))
    exact (addsNothing_iff (hbacked.saved_regular hs).1).mp hrestarted
  · intro hsaved s' hmeanwhile
    obtain ⟨saved', hbacked', hsame⟩ := hmeanwhile.backed hbacked
    refine (addsNothing_iff (hmeanwhile.regular hs hbacked)).mpr fun c hc => ?_
    exact hbacked'.saved_sublist.subset (hsame ▸ hsaved c hc)

/-! ## No removal that failed in between -/

/-- The registries that any requests amid any faults and any restarts lead to, without a removal
that failed between its two writes. -/
inductive Unbroken : Table → Memory → Prop where
  | empty : Unbroken .empty []
  | served {t : Table} {m : Memory} (h : Unbroken t m) (r : Request) (faults : Faults)
    (hwhole : ¬HalfRemoves r faults m) :
    Unbroken (serve r faults t m).table (serve r faults t m).contents
  | restarted {t t' : Table} {m : Memory} (h : Unbroken t m) (hload : reload m = .ok t') :
    Unbroken t' m

/-- There, a restart rebuilds the table as it is. -/
theorem Unbroken.backed (h : Unbroken t m) : Backed t t m := by
  induction h with
  | empty => exact backed_empty
  | @served t m _ r faults hwhole ih =>
    obtain ⟨hcontents, hfinished, hcut⟩ := serve_eq r faults t m
    have hplan := planned ih.arranged.keyed r
    rw [hcontents]
    rcases Nat.eq_or_lt_of_le (Write.taken_le (plan t r).writes (faults, m)) with hall | hsome
    · obtain ⟨saved', hbacked, hsame⟩ := ih.finished hplan
      rw [(hfinished hall).2, hall, List.take_length]
      rwa [hsame rfl] at hbacked
    · have hbacked := ih.cut hplan hsome
      rw [(ih.savedAfter_eq_iff rfl hsome).mpr hwhole] at hbacked
      rwa [hcut hsome]
  | restarted _ hload ih =>
    rw [ih.reload] at hload
    obtain rfl := Except.ok.inj hload
    exact ih

/-- Seeding removes nothing. -/
theorem Unbroken.seed {result : Except ServiceError Nat} (h : Unbroken s.1 s.2)
    (hrun : Leads serves (Management.seed configs).run s (.done result) s') :
    Unbroken s'.1 s'.2 := by
  have hkeeps : Keeps serves (fun _ _ => True) (fun _ s' => Unbroken s'.1 s'.2)
      (Management.seed configs).run s := by
    refine (makes_seed configs).keeps (fun _ _ _ _ => trivial) ?_ h
    intro r s reply s' hr hs hreply
    cases r with
    | registry r =>
      obtain ⟨faults, hserve⟩ := hreply
      have hwhole : ¬HalfRemoves r faults s.2 := by
        rintro ⟨id, _, _, _, rfl, -⟩
        exact hr
      have hserved := hs.served r faults hwhole
      rwa [hserve] at hserved
    | _ =>
      obtain rfl := hreply
      exact hs
  exact hkeeps.leads hrun

/-! ## Seeding twice -/

/-- Where no oracle is there and nothing fails, the oracles of a configuration that passes its check
are all seeded. Whatever failed before and fails now, where seeding succeeds it adds the unknown
oracles behind the others, gives their number, and adds nothing when it is repeated at once.
Repeated later, amid cycles and restarts, it always adds nothing exactly if a restart brings all
these oracles back, and so it is in every registry without a removal that failed between its two
writes. -/
theorem seed_settles (h : History log t m) (configs : List OracleConfig) :
    (t = .empty → ∀ config : Config, config.check = .ok () → config.oracles = configs →
      (∃ s', Leads wellServed (Management.seed configs).run (t, m)
        (.done (.ok configs.length)) s') ∧
      ∀ result s', Leads wellServed (Management.seed configs).run (t, m) (.done result) s' →
        result = .ok configs.length ∧ s'.1.order = configs.map (·.id) ∧
          s'.1.inOrder = configs.map newRow) ∧
    (∀ n s', Leads serves (Management.seed configs).run (t, m) (.done (.ok n)) s' →
      let added := unknown t.order configs
      n = added.length ∧ s'.1.order = t.order ++ added.map (·.id) ∧
        s'.1.inOrder = t.inOrder ++ added.map newRow ∧ AddsNothing configs s' ∧
        (∃ saved, reload s'.2 = .ok saved ∧
          ((∀ s'', Meanwhile s' s'' → AddsNothing configs s'') ↔
            ∀ c ∈ configs, c.id ∈ saved.order)) ∧
        (Unbroken t m → ∀ s'', Meanwhile s' s'' → AddsNothing configs s'')) ∧
    ∀ policy id deadline q s', Leads serves (Cycle.run policy id deadline) (t, m) q s' →
      Meanwhile (t, m) s' := by
  refine ⟨?_, ?_, ?_⟩
  · rintro rfl config hcheck rfl
    have hkeeps := keeps_seed_checked (s := (.empty, m)) (oraclesFault_of_check hcheck)
      Table.regular_empty (fun _ _ hrow => nomatch hrow)
    obtain ⟨result, s', hrun⟩ := seed_ends (fun _ _ _ _ h => h) config.oracles (.empty, m)
    constructor
    · obtain ⟨rfl, -⟩ := hkeeps.leads hrun
      exact ⟨s', hrun⟩
    · intro result s' hrun
      obtain ⟨hcount, horder, hrows⟩ := hkeeps.leads hrun
      exact ⟨hcount, horder, hrows⟩
  · intro n s' hrun added
    obtain ⟨more, hafter⟩ := History.leads (s := (t, m)) h hrun
    obtain ⟨saved, hbacked⟩ := hafter.reachable.backed
    have hregular := hafter.regular.1
    have hlater := hbacked.addsNothing_meanwhile_iff configs hregular
    obtain ⟨hcount, horder, hrows⟩ := (keeps_seed_unknown configs h.regular.1).leads hrun n rfl
    have hknown : ∀ c ∈ configs, c.id ∈ s'.1.order := by
      rw [horder]
      exact mem_append_unknown t.order
    refine ⟨hcount, horder, hrows, (addsNothing_iff hregular).mpr hknown,
      ⟨saved, hbacked.reload, hlater⟩, fun hunbroken => ?_⟩
    -- Unbroken, the reload gives back the very order in memory, so nothing is lost to it.
    have hwhole := (Unbroken.seed (s := (t, m)) hunbroken hrun).backed
    obtain rfl := Except.ok.inj (hbacked.reload.symm.trans hwhole.reload)
    exact hlater.mpr hknown
  · intro policy id deadline q s' hrun
    exact .of_leads (keeps_cycle policy id deadline h.regular.1.toArranged) hrun

/-- `ethUsd` under another id, with a feed of its own. -/
def btcEur : OracleConfig :=
  { ethUsd with
    id := "btc-eur"
    destination := ⟨⟨List.replicate 20 4, rfl⟩, ⟨31337, "http://node.test", none⟩, 8⟩ }

/-- A configuration of two oracles. -/
def twoFeeds : Config where
  schedule := .default
  storage := ⟨"memory", Setting.empty⟩
  account := none
  fetcher := Setting.empty
  publisher := .default
  validation := .default
  api := none
  oracles := [ethUsd, btcEur]

/-- Two oracles are seeded into an empty registry, or behind the first of them. -/
theorem seed_settles_twoFeeds :
    twoFeeds.check = .ok () ∧
    (∃ s', Leads wellServed (Management.seed twoFeeds.oracles).run (.empty, [])
      (.done (.ok 2)) s' ∧ s'.1.order = ["eth-usd", "btc-eur"]) ∧
    History [ethUsd.id] onlyEthUsd withEthUsd ∧ Unbroken onlyEthUsd withEthUsd ∧
    ∃ s', Leads serves (Management.seed twoFeeds.oracles).run (onlyEthUsd, withEthUsd)
      (.done (.ok 1)) s' ∧ s'.1.order = ["eth-usd", "btc-eur"] ∧
      ∀ s'', Meanwhile s' s'' → AddsNothing twoFeeds.oracles s'' := by
  have hcheck : twoFeeds.check = .ok () := rfl
  obtain ⟨⟨s₁, hrun₁⟩, hall⟩ := (seed_settles .empty _).1 rfl twoFeeds hcheck rfl
  have hunbroken : Unbroken onlyEthUsd withEthUsd :=
    Unbroken.empty.served (.register ethUsd) [] (by rintro ⟨_, _, _, _, h, -⟩; cases h)
  let s := (onlyEthUsd, withEthUsd)
  let s₂ := serve (.register btcEur) [] onlyEthUsd withEthUsd
  have hthere : serves (.registry (.row ethUsd.id)) s (.ok (newRow ethUsd)) s := ⟨[], rfl⟩
  have hnew : serves (.registry (.row btcEur.id)) s (.error (.notFound btcEur.id)) s := ⟨[], rfl⟩
  have hadded : serves (.registry (.register btcEur)) s (.ok ()) (s₂.table, s₂.contents) :=
    ⟨[], rfl⟩
  have hrun₂ : Leads serves (Management.seed twoFeeds.oracles).run s (.done (.ok 1))
      (s₂.table, s₂.contents) :=
    .ask hthere (.ask hnew (.ask hadded (.ask (serves_emit _ _) (.here _ _))))
  obtain ⟨-, horder, -, -, -, hlater⟩ :=
    (seed_settles history_ethUsd _).2.1 1 _ hrun₂
  exact ⟨hcheck, ⟨s₁, hrun₁, (hall _ _ hrun₁).2.1⟩, history_ethUsd, hunbroken,
    _, hrun₂, horder, hlater hunbroken⟩

/-- After a removal that failed between its two writes the oracle is known, and a restart loses it,
so that it is seeded again. -/
theorem seeded_again :
    History [ethUsd.id] onlyEthUsd cutRemoval.contents ∧
    Leads serves (Management.seed [ethUsd]).run (onlyEthUsd, cutRemoval.contents)
      (.done (.ok 0)) (onlyEthUsd, cutRemoval.contents) ∧
    Meanwhile (onlyEthUsd, cutRemoval.contents) (.empty, cutRemoval.contents) ∧
    ∃ s', Leads serves (Management.seed [ethUsd]).run (.empty, cutRemoval.contents)
      (.done (.ok 1)) s' ∧ s'.1.order = [ethUsd.id] := by
  have hplan := planned backed_ethUsd.arranged.keyed (.remove ethUsd.id)
  have hcut : Backed onlyEthUsd (onlyEthUsd.remove ethUsd.id) cutRemoval.contents :=
    backed_ethUsd.cut hplan (k := 1) Nat.one_lt_two
  let s := (onlyEthUsd, cutRemoval.contents)
  let s₁ := (Table.empty, cutRemoval.contents)
  let s₂ := serve (.register ethUsd) [] .empty cutRemoval.contents
  have hthere : serves (.registry (.row ethUsd.id)) s (.ok (newRow ethUsd)) s := ⟨[], rfl⟩
  have hlost : serves (.registry (.row ethUsd.id)) s₁ (.error (.notFound ethUsd.id)) s₁ := ⟨[], rfl⟩
  have hadded : serves (.registry (.register ethUsd)) s₁ (.ok ()) (s₂.table, s₂.contents) :=
    ⟨[], rfl⟩
  refine ⟨?_, .ask hthere (.here _ _), .restarted hcut.reload (.nothing _),
    (s₂.table, s₂.contents), .ask hlost (.ask hadded (.ask (serves_emit _ _) (.here _ _))), rfl⟩
  exact history_ethUsd.served (.remove ethUsd.id) [none, some (.backend "injected delete failure")]

end Registry

end PriceOracle
