import PriceOracle.Proofs.Cycle.Footprint
import PriceOracle.Proofs.Lock.Views
import PriceOracle.Proofs.Registry.Regular

/-!
# What oracles have in common

The cycles of a tick share one registry with its storage, and one table of locks (`Commons`). What
lies outside is an `Exterior`: a feed answers by the calls that were made to it, and all else
answers an oracle by what that oracle asked for before.

The `Share` of an oracle is its row, in memory and in storage, and what was asked for on its behalf.
A request that is `Local` to an oracle is answered from its share alone (`Exterior.onShare`), and
leaves the shares of all others (`Commons.Spares`, `answer_local`).
-/

namespace PriceOracle

open Registry (Faults Served rowOf)
open Storage (Memory encode recordKey)

/-! ## Requests for one row -/

namespace Registry

variable {id i : OracleId} {t t' : Table} {m m' : Memory} {change : Bookkeeping → Bookkeeping}
  {row : Row} {r : Request}

/-- The key of a row. -/
abbrev rowKey (id : OracleId) : String := recordKey rowSpace id

/-- What cycles ask the registry for: to tell one row, or to change its bookkeeping. -/
def Request.OfRow (id : OracleId) : Request → Prop
  | .row i | .revise i _ => i = id
  | _ => False

/-- The answer to a change of bookkeeping amid faults, and the row that is written, if any. -/
def revision (faults : Faults) (change : Bookkeeping → Bookkeeping) :
    Except RegistryError Row → Except RegistryError Bookkeeping × Option Row
  | .error e => (.error e, none)
  | .ok row =>
    let b := change row.bookkeeping
    if b == row.bookkeeping then (.ok b, none)
    else match faults.head?.join with
      | some e => (.error (.storage e), none)
      | none => (.ok b, some { row with bookkeeping := b })

/-- What a change of bookkeeping leaves. -/
def revised (id : OracleId) (t : Table) (m : Memory) :
    Except RegistryError Bookkeeping × Option Row → Served (.revise id change)
  | (reply, none) => ⟨reply, t, m⟩
  | (reply, some row) =>
    ⟨reply, t.setRow id row, Dict.set (rowKey row.config.id) (encode row.toJson) m⟩

theorem serve_revise (faults : Faults) (t : Table) (m : Memory) :
    serve (.revise id change) faults t m
      = revised id t m (revision faults change (rowOf t id)) := by
  rw [serve, answer_eq, plan]
  cases rowOf t id with
  | error e => rfl
  | ok row =>
    rw [revision]
    cases hsame : change row.bookkeeping == row.bookkeeping with
    | true =>
      simp only [bind, Except.bind, hsame, if_true]
      rfl
    | false =>
      simp only [bind, Except.bind, hsame, Bool.false_eq_true, if_false]
      rcases faults with _ | ⟨_ | e, rest⟩ <;> rfl

/-- A row that is written has the configuration of the row that was there. -/
theorem written_of_revision {faults : Faults} {reply : Except RegistryError Bookkeeping}
    (h : revision faults change (rowOf t id) = (reply, some row)) :
    ∃ current, t.row? id = some current ∧ row.config = current.config := by
  cases hrow : rowOf t id with
  | error e =>
    rw [hrow] at h
    cases h
  | ok current =>
    refine ⟨current, row_of_rowOf hrow, ?_⟩
    rw [hrow, revision] at h
    split at h
    · cases h
    · split at h
      · cases h
      · obtain ⟨-, hrow⟩ := Prod.mk.inj h
        rw [← Option.some.inj hrow]

/-- Requests for a row see nothing but that row, and change nothing else of it. -/
theorem serve_congr (faults : Faults) (hr : r.OfRow id) (hrow : t'.row? id = t.row? id)
    (hstored : Dict.get? m' (rowKey id) = Dict.get? m (rowKey id)) (hkeyed : Keyed t) :
    (serve r faults t' m').reply = (serve r faults t m).reply ∧
      (serve r faults t' m').table.row? id = (serve r faults t m).table.row? id ∧
      Dict.get? (serve r faults t' m').contents (rowKey id)
        = Dict.get? (serve r faults t m).contents (rowKey id) := by
  have hfound : rowOf t' id = rowOf t id := by
    rw [rowOf, hrow, rowOf]
  cases r with
  | row i =>
    obtain rfl : i = id := hr
    exact ⟨hfound, hrow, hstored⟩
  | revise i change =>
    obtain rfl : i = id := hr
    rw [serve_revise, serve_revise, hfound]
    rcases hwritten : revision faults change (rowOf t i) with ⟨reply, _ | row⟩
    · exact ⟨rfl, hrow, hstored⟩
    · obtain ⟨current, hcurrent, hconfig⟩ := written_of_revision hwritten
      have hnamed : row.config.id = i := by
        rw [hconfig]
        exact hkeyed i current hcurrent
      refine ⟨rfl, ?_, ?_⟩
      · rw [revised, revised, Table.row_setRow_self, Table.row_setRow_self]
      · rw [revised, revised, hnamed, Dict.get?_set_self, Dict.get?_set_self]
  | _ => exact hr.elim

end Registry

/-- The key of the feed that an oracle publishes to. -/
def Table.key? (t : Table) (id : OracleId) : Option FeedKey :=
  (t.row? id).map (·.config.destination.key)

theorem Table.Regular.key_inj {t : Table} (h : t.Regular) {i j : OracleId} {k : FeedKey}
    (hi : t.key? i = some k) (hj : t.key? j = some k) : i = j := by
  obtain ⟨row, hrow, rfl⟩ := Option.map_eq_some_iff.mp hi
  obtain ⟨row', hrow', hkey⟩ := Option.map_eq_some_iff.mp hj
  exact h.apart i j row row' hrow hrow' hkey.symm

namespace Registry

variable {id : OracleId} {t : Table} {m : Memory} {r : Request}

/-- Requests for a row leave the order, all configurations, and the rows of others. -/
theorem serve_frame (faults : Faults) (hr : r.OfRow id) (hkeyed : Keyed t) :
    (serve r faults t m).table.order = t.order ∧
      (∀ i, ((serve r faults t m).table.row? i).map (·.config) = (t.row? i).map (·.config)) ∧
      (∀ i, i ≠ id → (serve r faults t m).table.row? i = t.row? i) ∧
      ∀ key, key ≠ rowKey id → Dict.get? (serve r faults t m).contents key = Dict.get? m key := by
  cases r with
  | row i => exact ⟨rfl, fun _ => rfl, fun _ _ => rfl, fun _ _ => rfl⟩
  | revise i change =>
    obtain rfl : i = id := hr
    rw [serve_revise]
    rcases hwritten : revision faults change (rowOf t i) with ⟨reply, _ | row⟩
    · exact ⟨rfl, fun _ => rfl, fun _ _ => rfl, fun _ _ => rfl⟩
    · obtain ⟨current, hcurrent, hconfig⟩ := written_of_revision hwritten
      -- A revision keeps the config, and with it the key the row is stored under.
      have hnamed : row.config.id = i := by
        rw [hconfig]
        exact hkeyed i current hcurrent
      have hothers : ∀ j, j ≠ i → (t.setRow i row).row? j = t.row? j :=
        fun j hne => t.row_setRow_of_ne row hne
      refine ⟨rfl, ?_, hothers, ?_⟩
      · intro j
        by_cases hj : j = i
        · subst hj
          rw [revised, t.row_setRow_self, hcurrent, Option.map_some, Option.map_some, hconfig]
        · exact congrArg _ (hothers j hj)
      · intro key hkey
        rw [revised, hnamed]
        exact Dict.get?_set_of_ne _ _ hkey
  | _ => exact hr.elim

end Registry

/-! ## Common ground and shares -/

/-- What lies outside of the service, as far as it answers. -/
structure Exterior where
  /-- What a feed answers after some calls. -/
  feed : List Feed.Request → (r : Feed.Request) → r.Reply
  /-- What sources, clocks and all else answer an oracle after its former requests. -/
  own : OracleId → List Surroundings.Request → (r : Surroundings.Request) → r.Reply
  /-- How storage fails a request of an oracle after its former requests. -/
  faults : OracleId → List Surroundings.Request → Faults

/-- What all cycles work on, and what was asked for: of each feed, and by each oracle. -/
structure Commons where
  table : Table
  storage : Memory
  locks : LockTable
  calls : FeedKey → List Feed.Request
  asked : OracleId → List Surroundings.Request

/-- What concerns one oracle: its row, in memory and in storage, the calls made to its feed, and
what it asked for. -/
@[ext] structure Share where
  row : Option Row
  stored : Option ByteArray
  calls : List Feed.Request
  asked : List Surroundings.Request

namespace Commons

/-- Writes down what an oracle asked for. -/
def note (c : Commons) (id : OracleId) (r : Surroundings.Request) : Commons :=
  { c with asked := Function.update c.asked id (c.asked id ++ [r]) }

/-- Writes a call to a feed down. -/
def call (c : Commons) (r : Feed.Request) : Commons :=
  let key := r.destination.key
  { c with calls := Function.update c.calls key (c.calls key ++ [r]) }

/-- The share of an oracle. -/
def share (c : Commons) (id : OracleId) : Share where
  row := c.table.row? id
  stored := Dict.get? c.storage (Registry.rowKey id)
  calls := (c.table.key? id).elim [] c.calls
  asked := c.asked id

theorem calls_share {c : Commons} {id : OracleId} {key : FeedKey}
    (h : c.table.key? id = some key) : (c.share id).calls = c.calls key := by
  rw [share, h]
  rfl

/-- A regular table, and tidy locks. -/
structure Orderly (c : Commons) : Prop where
  table : c.table.Regular
  locks : c.locks.Tidy

/-- Whatever the registry has been through and whichever calls run, all is in order. -/
theorem orderly_of_history {c : Commons} {log : List OracleId} {grips : Grips}
    (hhistory : Registry.History log c.table c.storage) (hserves : c.locks.Serves grips) :
    c.Orderly := ⟨hhistory.regular.1, hserves.tidy⟩

end Commons

namespace Share

/-- Writes down what the oracle asked for. -/
def note (s : Share) (r : Surroundings.Request) : Share := { s with asked := s.asked ++ [r] }

/-- A table of nothing but the row of a share. -/
def table (s : Share) (id : OracleId) : Table := ⟨[], (s.row.map (id, ·)).toList⟩

/-- Storage of nothing but the row of a share. -/
def storage (s : Share) (id : OracleId) : Memory :=
  (s.stored.map (Registry.rowKey id, ·)).toList

theorem row_table (s : Share) (id : OracleId) : (s.table id).row? id = s.row := by
  cases h : s.row <;> simp [table, Table.row?, Dict.get?, h]

theorem get?_storage (s : Share) (id : OracleId) :
    Dict.get? (s.storage id) (Registry.rowKey id) = s.stored := by
  cases h : s.stored <;> simp [storage, Dict.get?, h]

end Share

namespace Exterior

variable (E : Exterior) (id : OracleId)

/-- Answers a request that is made for an oracle; none while a lock is waited for. -/
def answer : (r : Surroundings.Request) → Commons → Option (r.Reply × Commons)
  | .registry r, c =>
    let served := Registry.serve r (E.faults id (c.asked id)) c.table c.storage
    some (served.reply, { c.note id (.registry r) with
      table := served.table, storage := served.contents })
  | .feed r, c => some (E.feed (c.calls r.destination.key) r, (c.note id (.feed r)).call r)
  | .slot i, c => some ((c.locks.slot i).1, { c with locks := (c.locks.slot i).2 })
  | .tryTake s, c => some ((c.locks.tryTake s).1, { c with locks := (c.locks.tryTake s).2 })
  | .take s, c =>
    if (c.locks.tryTake s).1 then some ((), { c with locks := (c.locks.tryTake s).2 }) else none
  | .release s, c => some ((), { c with locks := c.locks.release s })
  | .forget i, c => some ((), { c with locks := c.locks.forget i })
  | r, c => some (E.own id (c.asked id) r, c.note id r)

/-- Answers a request of an oracle from its share alone. -/
def onShare : (r : Surroundings.interface.Request) → Share →
    Surroundings.interface.Reply r × Share
  | .registry r, s =>
    let served := Registry.serve r (E.faults id s.asked) (s.table id) (s.storage id)
    (served.reply, { s.note (.registry r) with
      row := served.table.row? id, stored := Dict.get? served.contents (Registry.rowKey id) })
  | .feed r, s => (E.feed s.calls r, { s.note (.feed r) with calls := s.calls ++ [r] })
  | r, s => (E.own id s.asked r, s.note r)

end Exterior

/-- A request about nothing but the share of an oracle, and not about its lock. -/
def Share.Local (id : OracleId) : Surroundings.Request → Share → Prop
  | .registry r, _ => r.OfRow id
  | .feed r, s => s.row.map (·.config.destination.key) = some r.destination.key
  | .slot _, _ | .tryTake _, _ | .take _, _ | .release _, _ | .forget _, _ => False
  | _, _ => True

/-! ## What is spared -/

/-- Nothing changes but what belongs to some oracles. -/
structure Commons.Spares (c : Commons) (who : OracleId → Prop) (c' : Commons) : Prop where
  order : c'.table.order = c.table.order
  keys : ∀ id, c'.table.key? id = c.table.key? id
  row : ∀ id, ¬who id → c'.table.row? id = c.table.row? id
  stored : ∀ key, (∀ id, who id → key ≠ Registry.rowKey id) →
    Dict.get? c'.storage key = Dict.get? c.storage key
  calls : ∀ key, (∀ id, who id → c.table.key? id ≠ some key) → c'.calls key = c.calls key
  asked : ∀ id, ¬who id → c'.asked id = c.asked id
  view : ∀ id, ¬who id → c'.locks.view id = c.locks.view id

namespace Commons.Spares

variable {c c' c'' : Commons} {who who' : OracleId → Prop} {id : OracleId}

theorem refl (c : Commons) (who : OracleId → Prop) : c.Spares who c :=
  ⟨rfl, fun _ => rfl, fun _ _ => rfl, fun _ _ => rfl, fun _ _ => rfl, fun _ _ => rfl,
    fun _ _ => rfl⟩

theorem mono (h : c.Spares who c') (hwho : ∀ id, who id → who' id) : c.Spares who' c' where
  order := h.order
  keys := h.keys
  row := fun id hid => h.row id fun hmem => hid (hwho id hmem)
  stored := fun key hkey => h.stored key fun id hid => hkey id (hwho id hid)
  calls := fun key hkey => h.calls key fun id hid => hkey id (hwho id hid)
  asked := fun id hid => h.asked id fun hmem => hid (hwho id hmem)
  view := fun id hid => h.view id fun hmem => hid (hwho id hmem)

theorem trans (h : c.Spares who c') (h' : c'.Spares who c'') : c.Spares who c'' where
  order := h'.order.trans h.order
  keys := fun id => (h'.keys id).trans (h.keys id)
  row := fun id hid => (h'.row id hid).trans (h.row id hid)
  stored := fun key hkey => (h'.stored key hkey).trans (h.stored key hkey)
  calls := by
    intro key hkey
    refine (h'.calls key fun id hid => ?_).trans (h.calls key hkey)
    rw [h.keys id]
    exact hkey id hid
  asked := fun id hid => (h'.asked id hid).trans (h.asked id hid)
  view := fun id hid => (h'.view id hid).trans (h.view id hid)

/-- Oracles that are spared keep their shares: nobody else writes under the key of their rows, and
nobody else publishes to their feeds. -/
theorem share (h : c.Spares who c') (hc : c.Orderly) (hid : ¬who id) :
    c'.share id = c.share id := by
  have hcalls : (c'.table.key? id).elim [] c'.calls = (c.table.key? id).elim [] c.calls := by
    rw [h.keys id]
    cases hkey : c.table.key? id with
    | none => rfl
    | some key =>
      refine h.calls key fun i hi hsame => hid ?_
      rw [hc.table.key_inj hkey hsame]
      exact hi
  have hstored : Dict.get? c'.storage (Registry.rowKey id)
      = Dict.get? c.storage (Registry.rowKey id) := by
    refine h.stored _ fun i hi hsame => hid ?_
    rw [Storage.recordKey_inj hsame]
    exact hi
  rw [Commons.share, Commons.share, h.row id hid, hstored, hcalls, h.asked id hid]

end Commons.Spares

/-! ## One request -/

section

variable {E : Exterior} {id : OracleId} {c : Commons} {r : Surroundings.Request}

theorem Commons.spares_note (c : Commons) (id : OracleId) (r : Surroundings.Request) :
    c.Spares (· = id) (c.note id r) :=
  { Spares.refl c _ with asked := fun _ hne => Function.update_of_ne hne _ _ }

theorem Commons.share_note (c : Commons) (id : OracleId) (r : Surroundings.Request) :
    (c.note id r).share id = (c.share id).note r :=
  congrArg (Share.mk _ _ _) (Function.update_self id _ c.asked)

theorem Commons.spares_call (c : Commons) {r : Feed.Request}
    (hkey : c.table.key? id = some r.destination.key) : c.Spares (· = id) (c.call r) := by
  refine { Spares.refl c _ with calls := fun key hkeys => Function.update_of_ne ?_ _ _ }
  rintro rfl
  exact hkeys id rfl hkey

/-- A turn of an oracle at its own lock leaves everything else. -/
theorem Commons.Orderly.turn {t : LockTable} {g g' : Grip} (hc : c.Orderly)
    (hturn : LockTable.Turn id c.locks g none t g') (howns : c.locks.Owns id g) :
    c.Spares (· = id) { c with locks := t } ∧ Orderly { c with locks := t } :=
  ⟨{ Spares.refl c _ with view := fun _ hne => hturn.view_of_ne hc.locks howns hne },
    hc.table, hturn.tidy hc.locks howns⟩

/-- What is asked for on behalf of an oracle is answered from its share, and leaves all others. -/
theorem answer_local (hc : c.Orderly) (hlocal : Share.Local id r (c.share id)) :
    ∃ c', E.answer id r c = some ((E.onShare id r (c.share id)).1, c') ∧
      c'.share id = (E.onShare id r (c.share id)).2 ∧ c.Spares (· = id) c' ∧ c'.Orderly ∧
      c'.locks = c.locks := by
  cases r with
  | registry r =>
    have hkeyed := hc.table.keyed
    obtain ⟨hreply, hrow, hstored⟩ := Registry.serve_congr (E.faults id (c.asked id)) hlocal
      ((c.share id).row_table id) ((c.share id).get?_storage id) hkeyed
    obtain ⟨horder, hconfigs, hrows, hcontents⟩ := Registry.serve_frame (m := c.storage)
      (E.faults id (c.asked id)) hlocal hkeyed
    -- The registry may rewrite the row, but not its config, so the feed keys stay.
    have hkeys : ∀ i, (Registry.serve r (E.faults id (c.asked id)) c.table c.storage).table.key? i
        = c.table.key? i := by
      intro i
      have := congrArg (Option.map (·.destination.key)) (hconfigs i)
      simpa [Table.key?, Option.map_map, Function.comp_def] using this
    refine ⟨_, congrArg (fun x => some (x, _)) hreply.symm, ?_, ?_, ?_, rfl⟩
    · refine Share.ext hrow.symm hstored.symm ?_ (Function.update_self id _ c.asked)
      exact congrArg (Option.elim · [] c.calls) (hkeys id)
    · exact ⟨horder, hkeys, hrows, fun key hkey => hcontents key (hkey id rfl), fun _ _ => rfl,
        fun _ hne => Function.update_of_ne hne _ _, fun _ _ => rfl⟩
    · exact ⟨(Registry.effect_serve r _ c.table c.storage).regular hc.table, hc.locks⟩
  | feed r =>
    have hkey : c.table.key? id = some r.destination.key := hlocal
    have hcalls := Commons.calls_share hkey
    refine ⟨(c.note id (.feed r)).call r, ?_, ?_, ?_, ⟨hc.table, hc.locks⟩, rfl⟩
    · rw [Exterior.onShare, hcalls]
      rfl
    · refine Share.ext rfl rfl ?_ (Function.update_self id _ c.asked)
      show (c.table.key? id).elim [] _ = (c.share id).calls ++ [r]
      rw [hkey, hcalls]
      exact Function.update_self _ _ c.calls
    · exact (c.spares_note id _).trans (Commons.spares_call (c.note id _) hkey)
  | slot _ | tryTake _ | take _ | release _ | forget _ => exact hlocal.elim
  | _ =>
    exact ⟨_, rfl, c.share_note id _, c.spares_note id _, ⟨hc.table, hc.locks⟩, rfl⟩

end

end PriceOracle
