import Mathlib.Data.List.Dedup
import PriceOracle.Management
import PriceOracle.Proofs.Registry.Failures

/-!
# Tables stay regular

A table is regular when its rows stand in the order of registration, each once, under its own id,
with a sound configuration and a feed of its own. Whatever requests come, whatever fails and however
often the service restarts, the table stays so, and so does what a restart rebuilds.

* `Effect`: what a request may do to a table, with its reply. All else is derived from it.
* `Effect.regular`, `Effect.order_sublist`: one step.
* `History`: what a registry has been through, with the ids in the order of their registrations.
* `History.leads`: calls and cycles are made of such steps.
* `tables_stay_regular`: what is true of every table that comes up.
-/

namespace PriceOracle

open PriceOracle.Cycle (ethUsd)
open Program (Keeps Leads)
open Storage (Memory)
open Surroundings (Action)

/-! ## Regular tables -/

/-- A table in good order, of sound configurations that do not share a feed. -/
structure Table.Regular (t : Table) : Prop extends t.Arranged where
  checked : ∀ id row, t.row? id = some row → Registry.check row.config = .ok ()
  apart : ∀ id id' row row', t.row? id = some row → t.row? id' = some row' →
    row.config.destination.key = row'.config.destination.key → id = id'

namespace Table

variable {t t' : Table} {id o : OracleId} {row : Row} {c : OracleConfig}

theorem regular_empty : empty.Regular where
  toArranged := arranged_empty
  checked := fun _ _ hrow => by cases hrow
  apart := fun _ _ _ _ hrow => by cases hrow

/-- The rows of a table in good order are those that it is asked for. -/
theorem Arranged.mem_rows (h : t.Arranged) : (id, row) ∈ t.rows ↔ t.row? id = some row :=
  ⟨h.row_of_mem, Dict.mem_of_get?⟩

/-- The rows in the order of registration are all rows. -/
theorem Arranged.inOrder_eq (h : t.Arranged) : t.inOrder = t.rows.map (·.2) := by
  have hrows : ∀ entry ∈ t.rows, t.row? entry.1 = some entry.2 := fun _ hmem => h.row_of_mem hmem
  rw [inOrder, ← h.keys, Dict.keys, List.filterMap_map, ← List.filterMap_eq_map]
  exact List.filterMap_congr hrows

/-- The rows in the order of registration are those of the ids in it. -/
theorem Arranged.ids_inOrder (h : t.Arranged) : t.inOrder.map (·.config.id) = t.order := by
  rw [h.inOrder_eq, List.map_map, ← h.keys, Dict.keys]
  refine List.map_congr_left ?_
  rintro ⟨id, row⟩ hmem
  exact h.keyed id row (h.row_of_mem hmem)

theorem Arranged.mem_inOrder (h : t.Arranged) (hrow : t.row? id = some row) : row ∈ t.inOrder := by
  rw [h.inOrder_eq]
  exact List.mem_map_of_mem (h.mem_rows.mpr hrow)

/-- The owner of a feed is the other oracle that publishes to it. -/
theorem Regular.owner_iff (h : t.Regular) :
    t.owner? c = some o ↔ o ≠ c.id ∧
      ∃ row, t.row? o = some row ∧ row.config.destination.key = c.destination.key := by
  -- What is found is an oracle that publishes to the feed.
  have hfound : ∀ {o}, t.owner? c = some o → o ≠ c.id ∧
      ∃ row, t.row? o = some row ∧ row.config.destination.key = c.destination.key := by
    intro o howner
    obtain ⟨⟨id, row⟩, hfind, rfl⟩ := Option.map_eq_some_iff.mp howner
    have hrow := h.row_of_mem (List.mem_of_find?_eq_some hfind)
    have hfits := List.find?_some hfind
    rw [Bool.and_eq_true, bne_iff_ne, beq_iff_eq] at hfits
    have hnamed : row.config.id = id := h.keyed id row hrow
    refine ⟨hfits.1, row, ?_, hfits.2⟩
    rw [hnamed]
    exact hrow
  refine ⟨hfound, ?_⟩
  rintro ⟨hne, row, hrow, hkey⟩
  cases howner : t.owner? c with
  | none =>
    rw [owner?, Option.map_eq_none_iff, List.find?_eq_none] at howner
    refine absurd ?_ (howner (o, row) (h.mem_rows.mpr hrow))
    rw [Bool.and_eq_true, bne_iff_ne, beq_iff_eq, h.keyed o row hrow]
    exact ⟨hne, hkey⟩
  | some other =>
    obtain ⟨-, row', hrow', hkey'⟩ := hfound howner
    rw [h.apart other o row' row hrow' hrow (hkey'.trans hkey.symm)]

/-- A feed without an owner is at most the oracle's own. -/
theorem Regular.eq_of_unowned (h : t.Regular) (hnone : t.owner? c = none)
    (hrow : t.row? id = some row) (hkey : row.config.destination.key = c.destination.key) :
    id = c.id := by
  by_contra hne
  rw [h.owner_iff.mpr ⟨hne, row, hrow, hkey⟩] at hnone
  cases hnone

/-- A row is put into a table, with a feed that no other oracle has. -/
theorem Regular.put (h : t.Regular) (row : Row) (harranged : t'.Arranged)
    (hself : t'.row? row.config.id = some row)
    (hothers : ∀ id, id ≠ row.config.id → t'.row? id = t.row? id)
    (hcheck : Registry.check row.config = .ok ())
    (hfree : ∀ id other, t.row? id = some other →
      other.config.destination.key = row.config.destination.key → id = row.config.id) :
    t'.Regular := by
  have hcases : ∀ id r, t'.row? id = some r →
      id = row.config.id ∧ r = row ∨ id ≠ row.config.id ∧ t.row? id = some r := by
    intro id r hr
    by_cases hid : id = row.config.id
    · subst hid
      exact .inl ⟨rfl, Option.some.inj (hr.symm.trans hself)⟩
    · exact .inr ⟨hid, (hothers id hid).symm.trans hr⟩
  refine ⟨harranged, ?_, ?_⟩
  · intro id r hr
    rcases hcases id r hr with ⟨-, rfl⟩ | ⟨-, hold⟩
    · exact hcheck
    · exact h.checked id r hold
  · intro id id' r r' hr hr' hkey
    rcases hcases id r hr with ⟨rfl, rfl⟩ | ⟨hne, hold⟩ <;>
      rcases hcases id' r' hr' with ⟨rfl, rfl⟩ | ⟨hne', hold'⟩
    · rfl
    · exact absurd (hfree id' r' hold' hkey.symm) hne'
    · exact absurd (hfree id r hold hkey) hne
    · exact h.apart id id' r r' hold hold' hkey

/-- Taking an oracle out leaves the others in their order, with feeds of their own. -/
theorem Regular.remove (h : t.Regular) (id : OracleId) : (t.remove id).Regular := by
  have hsub : ∀ id' row, (t.remove id).row? id' = some row → t.row? id' = some row := by
    intro id' row hrow
    by_cases heq : id' = id
    · subst heq
      rw [t.row_remove_self] at hrow
      cases hrow
    · rwa [t.row_remove_of_ne heq] at hrow
  refine ⟨h.toArranged.remove id, ?_, ?_⟩
  · intro id' row hrow
    exact h.checked id' row (hsub id' row hrow)
  · intro id' id'' row row' hrow hrow'
    exact h.apart id' id'' row row' (hsub id' row hrow) (hsub id'' row' hrow')

end Table

namespace Registry

variable {t t' saved : Table} {m : Memory} {r : Request} {reply : r.Reply} {c : OracleConfig}
  {log : List OracleId}

/-- What a configuration has that passes its check. -/
theorem sound_of_check (h : check c = .ok ()) :
    1 ≤ c.threshold.toNat ∧ c.destination.decimals.toNat ≤ 28 := by
  unfold check at h
  split at h
  · cases h
  next hthreshold =>
    split at h
    · cases h
    next hdecimals =>
      refine ⟨Nat.pos_of_ne_zero fun hzero => hthreshold (UInt64.toNat_inj.mp hzero), ?_⟩
      exact Nat.le_of_not_lt fun hlt => hdecimals (UInt32.lt_iff_toNat_lt.mpr hlt)

/-! ## What a request does to a table -/

/-- What a request may do to a table, and its reply. -/
inductive Effect (t : Table) : (r : Request) → r.Reply → Table → Prop where
  | told {r : Request} (h : r.target? = none) : Effect t r (plan t r).reply t
  | refused {r : Request} {reply : r.Reply} (h : r.Failed reply) : Effect t r reply t
  | registered {c : OracleConfig} (hcheck : check c = .ok ()) (hfree : t.row? c.id = none)
    (howner : t.owner? c = none) :
    Effect t (.register c) (.ok ()) (t.append c.id ⟨c, .initial⟩)
  | updated {c : OracleConfig} {current : Row} (hcheck : check c = .ok ())
    (hrow : t.row? c.id = some current) (howner : t.owner? c = none) :
    Effect t (.update c) (.ok ()) (t.setRow c.id ⟨c, carriedOver current c⟩)
  | removed {id : OracleId} (h : t.row? id ≠ none) : Effect t (.remove id) (.ok ()) (t.remove id)
  | revised {id : OracleId} {change : Bookkeeping → Bookkeeping} {current : Row}
    (hrow : t.row? id = some current) :
    Effect t (.revise id change) (.ok (change current.bookkeeping))
      (t.setRow id { current with bookkeeping := change current.bookkeeping })
  /-- Bookkeeping that counts as the same is not written. -/
  | unchanged {id : OracleId} {change : Bookkeeping → Bookkeeping} {b : Bookkeeping} :
    Effect t (.revise id change) (.ok b) t

/-- The check for other owners passes only where there is none. -/
theorem owner_of_checkOwner (h : checkOwner t c = .ok ()) : t.owner? c = none := by
  unfold checkOwner at h
  cases howner : t.owner? c with
  | none => rfl
  | some o =>
    rw [howner] at h
    cases h

theorem row_of_checkFree {id : OracleId} (h : checkFree t id = .ok ()) : t.row? id = none := by
  by_contra hsome
  simp [checkFree, Option.isSome_iff_ne_none, hsome] at h

/-- A plan that is carried out. -/
theorem effect_of_plan (t : Table) (r : Request) :
    Effect t r (plan t r).reply (plan t r).table := by
  cases r with
  | row _ | rows | ids | holds _ => exact .told rfl
  | register c =>
    rw [plan]
    cases hcheck : check c with
    | error e => exact .refused ⟨e, rfl⟩
    | ok _ =>
      cases hfree : checkFree t c.id with
      | error e => exact .refused ⟨e, rfl⟩
      | ok _ =>
        cases howner : checkOwner t c with
        | error e => exact .refused ⟨e, rfl⟩
        | ok _ => exact .registered hcheck (row_of_checkFree hfree) (owner_of_checkOwner howner)
  | update c =>
    rw [plan]
    cases hcheck : check c with
    | error e => exact .refused ⟨e, rfl⟩
    | ok _ =>
      cases hrow : rowOf t c.id with
      | error e => exact .refused ⟨e, rfl⟩
      | ok current =>
        cases howner : checkOwner t c with
        | error e => exact .refused ⟨e, rfl⟩
        | ok _ => exact .updated hcheck (row_of_rowOf hrow) (owner_of_checkOwner howner)
  | remove id =>
    rw [plan]
    cases hrow : rowOf t id with
    | error e => exact .refused ⟨e, rfl⟩
    | ok current => exact .removed (ne_none_of_rowOf hrow)
  | revise id change =>
    rw [plan]
    cases hrow : rowOf t id with
    | error e => exact .refused ⟨e, rfl⟩
    | ok current =>
      show Effect t (.revise id change) (Plan.change t (if _ then _ else _)).reply
        (Plan.change t (if _ then _ else _)).table
      split
      · exact .unchanged
      · exact .revised (row_of_rowOf hrow)

/-- A plan with a write that fails is refused. -/
theorem failed_refused {k : Nat} (h : k < (plan t r).writes.length) (e : StorageError) :
    r.Failed ((plan t r).refused e) := by
  have hchange : ∀ {α : Type} (x : Except RegistryError (List Write × α × Table)),
      k < (Plan.change t x).writes.length → ∃ e', (Plan.change t x).refused e = .error e' := by
    rintro α (e' | _) hk
    · exact absurd hk (Nat.not_lt_zero k)
    · exact ⟨_, rfl⟩
  cases r with
  | row _ | rows | ids | holds _ => exact absurd h (Nat.not_lt_zero k)
  | register _ | update _ | remove _ | revise _ _ => exact hchange _ h

/-- Whatever fails, a request has one of these effects. -/
theorem effect_serve (r : Request) (faults : Faults) (t : Table) (m : Memory) :
    Effect t r (serve r faults t m).reply (serve r faults t m).table := by
  obtain ⟨-, hfinished, hcut⟩ := serve_eq r faults t m
  rcases Nat.eq_or_lt_of_le (Write.taken_le (plan t r).writes (faults, m)) with hall | hsome
  · rw [(hfinished hall).1, (hfinished hall).2]
    exact effect_of_plan t r
  · obtain ⟨e, hreply⟩ := serve_refused hsome
    rw [hcut hsome, hreply]
    exact .refused (failed_refused hsome e)

/-! ### One step -/

/-- A table stays regular. -/
theorem Effect.regular (h : Effect t r reply t') (ht : t.Regular) : t'.Regular := by
  cases h with
  | told | refused | unchanged => exact ht
  | @registered c hcheck hfree howner =>
    let row : Row := ⟨c, .initial⟩
    have harranged : (t.append row.config.id row).Arranged := ht.toArranged.append hfree
    exact ht.put row harranged (t.row_append_self _ _)
      (fun id hne => t.row_append_of_ne _ hne) hcheck
      fun id other hrow hkey => ht.eq_of_unowned howner hrow hkey
  | @updated c current hcheck hrow howner =>
    have hid : t.row? c.id ≠ none := by
      rw [hrow]
      exact Option.some_ne_none current
    let row : Row := ⟨c, carriedOver current c⟩
    have harranged : (t.setRow row.config.id row).Arranged := ht.toArranged.setRow hid
    exact ht.put row harranged
      (t.row_setRow_self _ _) (fun id hne => t.row_setRow_of_ne _ hne) hcheck
      fun id other hrow hkey => ht.eq_of_unowned howner hrow hkey
  | @removed id _ => exact ht.remove id
  | @revised id change current hrow =>
    obtain rfl : current.config.id = id := ht.keyed id current hrow
    have hid : t.row? current.config.id ≠ none := by
      rw [hrow]
      exact Option.some_ne_none current
    let row : Row := { current with bookkeeping := change current.bookkeeping }
    have harranged : (t.setRow row.config.id row).Arranged := ht.toArranged.setRow hid
    -- The configuration is the one that was there, and so is its feed.
    exact ht.put row harranged (t.row_setRow_self _ _) (fun id hne => t.row_setRow_of_ne _ hne)
      (ht.checked _ current hrow) fun id other hother hkey => ht.apart _ _ _ _ hother hrow hkey

/-- The oracle that a request registered. -/
def Request.registered? : (r : Request) → r.Reply → Option OracleId
  | .register c, .ok _ => some c.id
  | _, _ => none

/-- A request that failed registered nothing. -/
theorem registered_of_failed (h : r.Failed reply) : r.registered? reply = none := by
  cases r with
  | register c =>
    obtain ⟨e, rfl⟩ := h
    rfl
  | _ => rfl

/-- The ids that were ever registered, in the order of their latest registrations. -/
theorem dedup_concat (log : List OracleId) (id : OracleId) :
    (log ++ [id]).dedup = log.dedup.filter (· != id) ++ [id] := by
  induction log with
  | nil => simp
  | cons first rest ih =>
    rw [List.cons_append]
    by_cases hfirst : first ∈ rest
    · rw [List.dedup_cons_of_mem hfirst, List.dedup_cons_of_mem (List.mem_append_left _ hfirst), ih]
    · rw [List.dedup_cons_of_notMem hfirst]
      by_cases heq : first = id
      · subst heq
        rw [List.dedup_cons_of_mem (List.mem_append_right _ (List.mem_singleton_self _)), ih]
        simp
      · rw [List.dedup_cons_of_notMem (by simp [hfirst, heq]), ih]
        simp [heq]

/-- The order stays that of the latest registrations. -/
theorem Effect.order_sublist (h : Effect t r reply t') (ht : t.Arranged)
    (hlog : t.order.Sublist log.dedup) :
    t'.order.Sublist (log ++ (r.registered? reply).toList).dedup := by
  -- But for a registration, nothing is logged.
  have hsame : ∀ {order : List OracleId}, r.registered? reply = none → order.Sublist t.order →
      order.Sublist (log ++ (r.registered? reply).toList).dedup := by
    intro order hnone hsub
    rw [hnone]
    simpa using hsub.trans hlog
  cases h with
  | told hread =>
    refine hsame ?_ (List.Sublist.refl _)
    cases r with
    | row | rows | ids | holds => rfl
    | register | update | remove | revise => cases hread
  | refused hfailed => exact hsame (registered_of_failed hfailed) (List.Sublist.refl _)
  | updated | revised | unchanged => exact hsame rfl (List.Sublist.refl _)
  | removed => exact hsame rfl List.filter_sublist
  | @registered c _ hfree _ =>
    have hnot : c.id ∉ t.order := fun hmem => ht.mem_order.mp hmem hfree
    have hfilter : t.order.filter (· != c.id) = t.order := by
      rw [List.filter_eq_self]
      intro id hmem
      exact bne_iff_ne.mpr fun heq => hnot (heq ▸ hmem)
    show (t.order ++ [c.id]).Sublist (log ++ [c.id]).dedup
    rw [dedup_concat, ← hfilter]
    exact (hlog.filter _).append (List.Sublist.refl _)

/-- Requests that neither register nor remove leave the order. -/
def Request.KeepsOrder : Request → Prop
  | .register _ | .remove _ => False
  | _ => True

/-- Only registrations and removals change the order. -/
theorem Effect.order_eq (h : Effect t r reply t') (hr : r.KeepsOrder) : t'.order = t.order := by
  cases h with
  | registered | removed => exact hr.elim
  | _ => rfl

/-- An oracle that is registered comes last. -/
theorem Effect.order_register {reply : Except RegistryError Unit} (ht : t.Arranged)
    (h : Effect t (.register c) reply t') :
    (reply = .ok () → c.id ∉ t.order ∧ t'.order = t.order ++ [c.id]) ∧
      ∀ e, reply = .error e → t'.order = t.order := by
  cases h with
  | told hread => cases hread
  | refused hfailed =>
    obtain ⟨e, rfl⟩ := hfailed
    exact ⟨nofun, fun _ _ => rfl⟩
  | registered _ hfree _ => exact ⟨fun _ => ⟨fun hmem => ht.mem_order.mp hmem hfree, rfl⟩, nofun⟩

/-- An oracle that is removed leaves the others in their order. -/
theorem Effect.order_remove {id : OracleId} {reply : Except RegistryError Unit}
    (h : Effect t (.remove id) reply t') :
    (reply = .ok () → t'.order = t.order.filter (· != id)) ∧
      ∀ e, reply = .error e → t'.order = t.order := by
  cases h with
  | told hread => cases hread
  | refused hfailed =>
    obtain ⟨e, rfl⟩ := hfailed
    exact ⟨nofun, fun _ _ => rfl⟩
  | removed _ => exact ⟨fun _ => rfl, nofun⟩

/-! ## Histories -/

/-- What a registry has been through from empty storage on: requests amid any faults, and restarts.
The log has the ids that were registered, in the order in which they were. -/
inductive History : List OracleId → Table → Memory → Prop where
  | empty : History [] .empty []
  | served {log : List OracleId} {t : Table} {m : Memory} (h : History log t m) (r : Request)
    (faults : Faults) :
    History (log ++ (r.registered? (serve r faults t m).reply).toList)
      (serve r faults t m).table (serve r faults t m).contents
  | restarted {log : List OracleId} {t t' : Table} {m : Memory} (h : History log t m)
    (hload : reload m = .ok t') : History log t' m

/-- What a restart rebuilds is regular, and in the same order. -/
theorem Backed.saved_regular (h : Backed t saved m) (ht : t.Regular) :
    saved.Regular ∧ saved.order.Sublist t.order := by
  obtain rfl | ⟨id, -, rfl⟩ := h.lag
  · exact ⟨ht, List.Sublist.refl _⟩
  · exact ⟨ht.remove id, List.filter_sublist⟩

/-- What a registry has been through is one way to come to its table. -/
theorem History.reachable (h : History log t m) : Reachable t m := by
  induction h with
  | empty => exact .empty
  | served _ r faults ih => exact ih.served r faults
  | restarted _ hload ih => exact ih.restarted hload

/-- Through a whole history the table is regular, and its order is that of the registrations. -/
theorem History.regular (h : History log t m) : t.Regular ∧ t.order.Sublist log.dedup := by
  induction h with
  | empty => exact ⟨Table.regular_empty, List.Sublist.refl _⟩
  | @served log t m _ r faults ih =>
    obtain ⟨hregular, hlog⟩ := ih
    have heffect := effect_serve r faults t m
    exact ⟨heffect.regular hregular, heffect.order_sublist hregular.toArranged hlog⟩
  | restarted h hload ih =>
    obtain ⟨hregular, hlog⟩ := ih
    obtain ⟨saved, hbacked⟩ := h.reachable.backed
    rw [hbacked.reload] at hload
    obtain rfl := Except.ok.inj hload
    obtain ⟨hsaved, hsub⟩ := hbacked.saved_regular hregular
    exact ⟨hsaved, hsub.trans hlog⟩

/-! ## Calls and cycles -/

/-- How the surroundings of a call serve it: the registry amid any faults, and all else in any
way. -/
def serves : Behaviour Surroundings.interface (Table × Memory)
  | .registry r, s, reply, s' => ∃ faults, serve r faults s.1 s.2 = ⟨reply, s'.1, s'.2⟩
  | _, s, _, s' => s' = s

variable {s s' : Table × Memory} {α : Type}

/-- Requests of calls and cycles have the effects of requests to the registry. -/
theorem effect_serves {r : Request} {reply : r.Reply} (h : serves (.registry r) s reply s') :
    Effect s.1 r reply s'.1 := by
  obtain ⟨faults, hserve⟩ := h
  have heffect := effect_serve r faults s.1 s.2
  rw [hserve] at heffect
  exact heffect

/-- A program of calls or cycles, as far as it came, adds steps to a history. -/
theorem History.leads {p q : Action α} (h : History log s.1 s.2) (hrun : Leads serves p s q s') :
    ∃ more, History (log ++ more) s'.1 s'.2 := by
  induction hrun generalizing log with
  | here => exact ⟨[], by simpa using h⟩
  | @ask r next reply s₁ s₂ s₃ q hreply _ ih =>
    have hstep : ∃ more, History (log ++ more) s₂.1 s₂.2 := by
      cases r with
      | registry r =>
        obtain ⟨faults, hserve⟩ := hreply
        have hserved := h.served r faults
        rw [hserve] at hserved
        exact ⟨_, hserved⟩
      | _ =>
        obtain rfl := hreply
        exact ⟨[], by simpa using h⟩
    obtain ⟨more, hmore⟩ := hstep
    obtain ⟨rest, hrest⟩ := ih hmore
    exact ⟨more ++ rest, by simpa using hrest⟩

/-- Requests of calls that neither register nor remove. -/
def OrderKept : Surroundings.Request → Prop
  | .registry r => r.KeepsOrder
  | _ => True

/-- A program that neither registers nor removes leaves the order. -/
theorem order_of_makes {p : Action α} {a : α} (hp : p.Makes OrderKept)
    (hrun : Leads serves p s (.done a) s') : s'.1.order = s.1.order := by
  have hkeeps : Keeps serves (fun _ _ => True) (fun _ s' => s'.1.order = s.1.order) p s := by
    refine hp.keeps (fun _ _ _ _ => trivial) ?_ rfl
    intro r s₁ reply s₂ hr hsame hreply
    cases r with
    | registry r => exact ((effect_serves hreply).order_eq hr).trans hsame
    | _ =>
      obtain rfl := hreply
      exact hsame
  exact hkeeps.leads hrun

/-- A call behind its authorization and its lock. -/
theorem makes_locked {auth : Authorization} {caller : Management.Caller} {id : OracleId}
    {call : Management.Call α} (h : call.run.Makes OrderKept) :
    (Management.authorize auth caller >>= fun _ => Management.locked id call).run.Makes
      OrderKept := by
  refine Attempt.makes_bind trivial fun _ => ?_
  refine ⟨trivial, fun _ => ⟨trivial, fun _ => h.bind fun _ => ⟨trivial, fun _ => trivial⟩⟩⟩

/-- An update leaves the order. -/
theorem makes_update (auth : Authorization) (caller : Management.Caller) (c : OracleConfig) :
    (Management.update auth caller c).run.Makes OrderKept := by
  refine makes_locked (Attempt.makes_bind (Attempt.makes_adapt _ ⟨trivial, fun _ => trivial⟩) ?_)
  exact fun _ => ⟨trivial, fun _ => trivial⟩

/-- A resync leaves the order. -/
theorem makes_resync (auth : Authorization) (caller : Management.Caller) (id : OracleId) :
    (Management.resync auth caller id).run.Makes OrderKept := by
  have hask : ∀ r, (Surroundings.ask (.feed r)).Makes OrderKept :=
    fun _ => ⟨trivial, fun _ => trivial⟩
  have hfeed : ∀ {α : Type} (use : Feed.Use α), (Management.onFeed use).run.Makes OrderKept :=
    fun use => Attempt.makes_adapt _ (Program.makes_through hask use.run)
  refine makes_locked (Attempt.makes_bind (Attempt.makes_adapt _ ⟨trivial, fun _ => trivial⟩) ?_)
  intro row
  refine Attempt.makes_bind (hfeed _) fun latest => Attempt.makes_bind (hfeed _) fun value => ?_
  refine Attempt.makes_bind (Attempt.makes_adapt _ ⟨trivial, fun _ => trivial⟩) fun b => ?_
  exact ⟨trivial, fun _ => trivial⟩

/-- Seeding adds some of the configured oracles at the end, in the order in which they are given. -/
theorem keeps_seed_order (configs : List OracleConfig) (hs : s.1.Regular) :
    Keeps serves (fun _ _ => True)
      (fun _ s' => ∃ added, added.Sublist (configs.map (·.id)) ∧ s'.1.order = s.1.order ++ added)
      (Management.seed configs).run s := by
  induction configs generalizing s with
  | nil => exact ⟨[], List.Sublist.refl _, (List.append_nil _).symm⟩
  | cons c rest ih =>
    -- What the rest adds is added behind what this oracle adds.
    have hrest : ∀ {s₁ : Table × Memory} {added : List OracleId}, s₁.1.Regular →
        added.Sublist [c.id] → s₁.1.order = s.1.order ++ added →
        Keeps serves (fun _ _ => True)
          (fun _ s' => ∃ added, added.Sublist ((c :: rest).map (·.id)) ∧
            s'.1.order = s.1.order ++ added) (Management.seed rest).run s₁ := by
      intro s₁ added hs₁ hadded horder
      refine (ih hs₁).mono ?_
      rintro _ s' ⟨more, hmore, horder'⟩
      refine ⟨added ++ more, hadded.append hmore, ?_⟩
      rw [horder', horder, List.append_assoc]
    refine Attempt.keeps_lift_bind.mpr ⟨trivial, ?_⟩
    intro told s₁ htold
    have hs₁ := (effect_serves htold).regular hs
    have horder₁ := (effect_serves htold).order_eq trivial
    have hend : ∃ added, added.Sublist ((c :: rest).map (·.id)) ∧
        s₁.1.order = s.1.order ++ added :=
      ⟨[], List.nil_sublist _, by rw [horder₁, List.append_nil]⟩
    rcases told with e | row
    · cases e with
      | notFound _ =>
        refine Attempt.keeps_bind.mpr (Attempt.keeps_adapt.mpr ⟨trivial, ?_⟩)
        intro registered s₂ hregistered
        have heffect := effect_serves hregistered
        obtain ⟨hnew, hrefused⟩ := heffect.order_register hs₁.toArranged
        cases registered with
        | error e =>
          exact ⟨[], List.nil_sublist _, by rw [hrefused e rfl, horder₁, List.append_nil]⟩
        | ok _ =>
          refine Attempt.keeps_lift_bind.mpr ⟨trivial, ?_⟩
          rintro _ _ rfl
          refine Attempt.keeps_bind.mpr ((hrest (heffect.regular hs₁) (List.Sublist.refl _)
            (by rw [(hnew rfl).2, horder₁])).mono ?_)
          intro counted s' hcounted
          cases counted <;> exact hcounted
      | _ => exact hend
    · exact hrest hs₁ (List.nil_sublist _) (by rw [horder₁, List.append_nil])

/-! ## Owners -/

/-- A request is answered as planned, or refused for a write that failed. -/
theorem serve_reply (r : Request) (faults : Faults) (t : Table) (m : Memory) :
    (serve r faults t m).reply = (plan t r).reply ∨
      ∃ e, (serve r faults t m).reply = (plan t r).refused e := by
  obtain ⟨-, hfinished, -⟩ := serve_eq r faults t m
  rcases Nat.eq_or_lt_of_le (Write.taken_le (plan t r).writes (faults, m)) with hall | hsome
  · exact .inl (hfinished hall).1
  · exact .inr (serve_refused hsome)

variable {k : FeedKey} {o : OracleId}

/-- It is for its owner that a feed is refused, not for a write. -/
theorem inUse_of_change {x : Except RegistryError (List Write × α × Table)}
    {reply : Except RegistryError α}
    (h : reply = (Plan.change t x).reply ∨ ∃ e, reply = (Plan.change t x).refused e)
    (hreply : reply = .error (.destinationInUse k o)) : x = .error (.destinationInUse k o) := by
  subst hreply
  cases x with
  | error e =>
    rcases h with h | ⟨_, h⟩ <;>
    · cases h
      rfl
  | ok _ => rcases h with h | ⟨_, h⟩ <;> cases h

/-- The check of a configuration has nothing to do with owners. -/
theorem inUse_of_check {next : Unit → Except RegistryError α}
    (h : (check c >>= next) = .error (.destinationInUse k o)) :
    next () = .error (.destinationInUse k o) := by
  unfold check at h
  split at h
  · cases h
  · split at h
    · cases h
    · exact h

/-- The error about a feed in use comes from the check for other owners, and names what that found.
-/
theorem inUse_of_checkOwner {next : Unit → Except RegistryError α}
    (h : (checkOwner t c >>= next) = .error (.destinationInUse k o))
    (hnext : ∀ e, next () ≠ .error e) : k = c.destination.key ∧ t.owner? c = some o := by
  unfold checkOwner at h
  cases howner : t.owner? c with
  | none =>
    rw [howner] at h
    exact absurd h (hnext _)
  | some other =>
    rw [howner] at h
    cases h
    exact ⟨rfl, rfl⟩

/-- A registration is refused for the oracle that publishes to the feed. -/
theorem inUse_register {faults : Faults}
    (h : (serve (.register c) faults t m).reply = .error (.destinationInUse k o)) :
    k = c.destination.key ∧ t.owner? c = some o := by
  have hchecked := inUse_of_check (inUse_of_change (serve_reply (.register c) faults t m) h)
  unfold checkFree at hchecked
  split at hchecked
  · cases hchecked
  · exact inUse_of_checkOwner hchecked nofun

/-- So is an update. -/
theorem inUse_update {faults : Faults}
    (h : (serve (.update c) faults t m).reply = .error (.destinationInUse k o)) :
    k = c.destination.key ∧ t.owner? c = some o := by
  have hchecked := inUse_of_check (inUse_of_change (serve_reply (.update c) faults t m) h)
  unfold rowOf at hchecked
  cases hrow : t.row? c.id with
  | none =>
    rw [hrow] at hchecked
    cases hchecked
  | some current =>
    rw [hrow] at hchecked
    exact inUse_of_checkOwner hchecked nofun

/-- The owner of a feed is the one oracle that publishes to it. -/
theorem owner_unique (ht : t.Regular)
    (howner : t.owner? c = some o) :
    o ≠ c.id ∧ ∀ id row, t.row? id = some row →
      (row.config.destination.key = c.destination.key ↔ id = o) := by
  obtain ⟨hne, row', hrow', hkey'⟩ := ht.owner_iff.mp howner
  refine ⟨hne, fun id row hrow => ⟨fun hkey => ?_, ?_⟩⟩
  · exact ht.apart id o row row' hrow hrow' (hkey.trans hkey'.symm)
  · rintro rfl
    obtain rfl := Option.some.inj (hrow.symm.trans hrow')
    exact hkey'

/-! ## What is true of every table -/

/-- Whatever a registry has been through: its order has every id once and is that of the rows, which
stand under their own ids, with sound configurations and a feed each. The ids and the rows that are
told are as many and lose no oracle, in the order of the latest registrations. A restart rebuilds a
part of that order, updates, changes of bookkeeping and resyncs leave it, a removal leaves the
others in it, a registration adds at its end, and so does seeding, in the order that is configured.
A feed is refused for the one other oracle that publishes to it. Calls and cycles, as far as they
came, lead to nothing but such tables. -/
theorem tables_stay_regular (h : History log t m) :
    (t.order.Nodup ∧ Dict.keys t.rows = t.order ∧ ∀ id row, t.row? id = some row →
      row.config.id = id ∧ 1 ≤ row.config.threshold.toNat ∧
        row.config.destination.decimals.toNat ≤ 28) ∧
    (∀ id id' row row', t.row? id = some row → t.row? id' = some row' →
      row.config.destination.key = row'.config.destination.key → id = id') ∧
    (∀ faults, (serve .ids faults t m).reply = t.order ∧
      ∃ rows : List Row, (serve .rows faults t m).reply = rows ∧
        rows.map (·.config.id) = t.order ∧ ∀ id row, t.row? id = some row → row ∈ rows) ∧
    t.order.Sublist log.dedup ∧
    (∃ saved, reload m = .ok saved ∧ saved.order.Sublist t.order) ∧
    (∀ r faults, r.KeepsOrder → (serve r faults t m).table.order = t.order) ∧
    (∀ id faults, ((serve (.remove id) faults t m).reply = .ok () →
        (serve (.remove id) faults t m).table.order = t.order.filter (· != id)) ∧
      ∀ e, (serve (.remove id) faults t m).reply = .error e →
        (serve (.remove id) faults t m).table.order = t.order) ∧
    (∀ c faults, ((serve (.register c) faults t m).reply = .ok () →
        c.id ∉ t.order ∧ (serve (.register c) faults t m).table.order = t.order ++ [c.id]) ∧
      ∀ e, (serve (.register c) faults t m).reply = .error e →
        (serve (.register c) faults t m).table.order = t.order) ∧
    (∀ c faults k o,
      (serve (.register c) faults t m).reply = .error (.destinationInUse k o) ∨
        (serve (.update c) faults t m).reply = .error (.destinationInUse k o) →
      k = c.destination.key ∧ o ≠ c.id ∧ ∀ id row, t.row? id = some row →
        (row.config.destination.key = k ↔ id = o)) ∧
    (∀ auth caller c result s', Leads serves (Management.update auth caller c).run (t, m)
      (.done result) s' → s'.1.order = t.order) ∧
    (∀ auth caller id result s', Leads serves (Management.resync auth caller id).run (t, m)
      (.done result) s' → s'.1.order = t.order) ∧
    (∀ configs result s', Leads serves (Management.seed configs).run (t, m) (.done result) s' →
      ∃ added, added.Sublist (configs.map (·.id)) ∧ s'.1.order = t.order ++ added) ∧
    ∀ {α : Type} (p q : Action α) s', Leads serves p (t, m) q s' →
      ∃ more, History (log ++ more) s'.1 s'.2 := by
  -- Every clause reads off the two invariants of a history: a regular table, a backed one.
  obtain ⟨ht, hlog⟩ := h.regular
  obtain ⟨saved, hbacked⟩ := h.reachable.backed
  refine ⟨⟨ht.nodup, ht.keys, ?_⟩, ht.apart, ?_, hlog,
    ⟨saved, hbacked.reload, (hbacked.saved_regular ht).2⟩, ?_, ?_, ?_, ?_, ?_, ?_, ?_, ?_⟩
  · intro id row hrow
    exact ⟨ht.keyed id row hrow, sound_of_check (ht.checked id row hrow)⟩
  · intro faults
    exact ⟨rfl, t.inOrder, rfl, ht.ids_inOrder, fun id row hrow => ht.mem_inOrder hrow⟩
  · intro r faults hr
    exact (effect_serve r faults t m).order_eq hr
  · intro id faults
    exact (effect_serve (.remove id) faults t m).order_remove
  · intro c faults
    exact (effect_serve (.register c) faults t m).order_register ht.toArranged
  · rintro c faults k o hreply
    obtain ⟨rfl, howner⟩ := hreply.elim inUse_register inUse_update
    exact ⟨rfl, owner_unique ht howner⟩
  · intro auth caller c result s' hrun
    exact order_of_makes (makes_update auth caller c) hrun
  · intro auth caller id result s' hrun
    exact order_of_makes (makes_resync auth caller id) hrun
  · intro configs result s' hrun
    exact (keeps_seed_order configs ht).leads hrun
  · intro α p q s' hrun
    exact History.leads (s := (t, m)) h hrun

/-- `ethUsd` under another id. -/
def rival : OracleConfig := { ethUsd with id := "eth-usd-again" }

theorem history_ethUsd : History [ethUsd.id] onlyEthUsd withEthUsd :=
  History.empty.served (.register ethUsd) []

/-- One oracle is registered, and another one is refused its feed. -/
theorem tables_stay_regular_ethUsd :
    History [ethUsd.id] onlyEthUsd withEthUsd ∧ onlyEthUsd.order = [ethUsd.id] ∧
    Dict.keys onlyEthUsd.rows = onlyEthUsd.order ∧
    (serve (.register rival) [] onlyEthUsd withEthUsd).reply
      = .error (.destinationInUse ethUsd.destination.key ethUsd.id) ∧
    (∀ id row, onlyEthUsd.row? id = some row →
      (row.config.destination.key = ethUsd.destination.key ↔ id = ethUsd.id)) ∧
    (serve (.register rival) [] onlyEthUsd withEthUsd).table.order = onlyEthUsd.order := by
  obtain ⟨⟨-, hkeys, -⟩, -, -, -, -, -, -, hregister, howner, -⟩ :=
    tables_stay_regular history_ethUsd
  have hrefused : (serve (.register rival) [] onlyEthUsd withEthUsd).reply
      = .error (.destinationInUse ethUsd.destination.key ethUsd.id) := rfl
  exact ⟨history_ethUsd, rfl, hkeys, hrefused,
    (howner rival [] ethUsd.destination.key ethUsd.id (.inl hrefused)).2.2,
    (hregister rival []).2 _ hrefused⟩

end Registry

end PriceOracle
