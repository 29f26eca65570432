import PriceOracle.Proofs.Registry.Plans

/-!
# What a restart rebuilds

A restart reads the stored order and then the row of each oracle in it. Rows that the order does
not name are left over and stay out of sight.

* `Table.Arranged`: the rows of a table stand in the order of registration, each once, under its
  own id.
* `Backed`: storage has every row of a table, and an order, which may have lost one of the oracles.
* `Backed.load`: what a restart rebuilds then, exactly.
* `Backed.cut`: what is true of storage when the first few writes of a plan took effect.
-/

namespace PriceOracle

open Storage (Memory recordKey encode)
open Storage.Memory (record?)

/-! ## Tables in good order -/

/-- The rows of a table stand in the order of registration, each once, under its own id. -/
structure Table.Arranged (t : Table) : Prop where
  keys : Dict.keys t.rows = t.order
  nodup : t.order.Nodup
  keyed : Registry.Keyed t

namespace Table

variable {t : Table} {id : OracleId} {row : Row}

/-- The listed oracles are those that have a row. -/
theorem Arranged.mem_order (h : t.Arranged) : id ∈ t.order ↔ t.row? id ≠ none := by
  have hnone := Dict.get?_eq_none_iff t.rows id
  rw [h.keys] at hnone
  constructor
  · intro hmem heq
    exact hnone.mp heq hmem
  · intro hne
    by_contra hmem
    exact hne (hnone.mpr hmem)

/-- A row that stands in a table is found there, as each id stands in it once. -/
theorem Arranged.row_of_mem (h : t.Arranged) (hmem : (id, row) ∈ t.rows) :
    t.row? id = some row := by
  have hnodup : (Dict.keys t.rows).Nodup := by
    rw [h.keys]
    exact h.nodup
  exact Dict.get?_of_mem hnodup hmem

theorem arranged_empty : empty.Arranged := by
  refine ⟨rfl, List.nodup_nil, ?_⟩
  intro id row hrow
  cases hrow

/-- A new row in the place of a former one leaves the rows arranged. -/
theorem Arranged.setRow (h : t.Arranged) (hid : t.row? row.config.id ≠ none) :
    (t.setRow row.config.id row).Arranged := by
  have hmem : row.config.id ∈ Dict.keys t.rows := by
    rw [h.keys]
    exact h.mem_order.mpr hid
  refine ⟨?_, h.nodup, ?_⟩
  · exact (Dict.keys_set_of_mem row hmem).trans h.keys
  · intro id' row' hrow'
    by_cases heq : id' = row.config.id
    · subst heq
      rw [t.row_setRow_self] at hrow'
      cases hrow'
      rfl
    · rw [t.row_setRow_of_ne row heq] at hrow'
      exact h.keyed id' row' hrow'

/-- A row behind all others leaves them arranged, if its id is new. -/
theorem Arranged.append (h : t.Arranged) (hid : t.row? row.config.id = none) :
    (t.append row.config.id row).Arranged := by
  have hnot : row.config.id ∉ t.order := fun hmem => h.mem_order.mp hmem hid
  have hkey : row.config.id ∉ Dict.keys t.rows := by
    rw [h.keys]
    exact hnot
  refine ⟨?_, ?_, ?_⟩
  · show Dict.keys (Dict.set _ _ _) = t.order ++ [row.config.id]
    rw [Dict.set_of_not_mem row hkey, ← h.keys]
    simp [Dict.keys]
  · show (t.order ++ [row.config.id]).Nodup
    rw [List.nodup_append]
    refine ⟨h.nodup, List.pairwise_singleton _ _, ?_⟩
    intro a ha b hb
    obtain rfl := List.mem_singleton.mp hb
    rintro rfl
    exact hnot ha
  · intro id' row' hrow'
    by_cases heq : id' = row.config.id
    · subst heq
      rw [t.row_append_self] at hrow'
      cases hrow'
      rfl
    · rw [t.row_append_of_ne row heq] at hrow'
      exact h.keyed id' row' hrow'

/-- Taking a row out leaves the others arranged. -/
theorem Arranged.remove (h : t.Arranged) (id : OracleId) : (t.remove id).Arranged := by
  refine ⟨?_, h.nodup.filter _, ?_⟩
  · show Dict.keys (Dict.unset t.rows id) = t.order.filter (· != id)
    rw [Dict.keys_unset, h.keys]
    refine List.filter_congr fun other _ => ?_
    rw [bne, BEq.comm]
  · intro id' row' hrow'
    by_cases heq : id' = id
    · subst heq
      rw [t.row_remove_self] at hrow'
      cases hrow'
    · rw [t.row_remove_of_ne heq] at hrow'
      exact h.keyed id' row' hrow'

end Table

namespace Registry

variable {t saved : Table} {m : Memory} {id : OracleId} {row : Row}

/-! ## What storage has -/

/-- Storage has an order. Where none was ever written it is empty. -/
def HasOrder (order : List OracleId) (m : Memory) : Prop :=
  storedOrder? m = some order ∨ Dict.get? m (recordKey indexSpace indexId) = none ∧ order = []

theorem HasOrder.written (order : List OracleId) (m : Memory) :
    HasOrder order ((Write.order order).apply m) :=
  .inl (storedOrder_set_index order m)

/-- A write to a row leaves the order alone. -/
theorem HasOrder.of_row {order : List OracleId} {w : Write} (h : HasOrder order m)
    (hkey : w.key ≠ recordKey indexSpace indexId) : HasOrder order (w.apply m) := by
  cases w with
  | order _ => exact absurd rfl hkey
  | row row =>
    refine h.imp (fun hstored => ?_) fun ⟨hnone, hempty⟩ => ⟨?_, hempty⟩
    · exact (storedOrder_set_row row.config.id _ m).trans hstored
    · exact (Dict.get?_set_of_ne m _ hkey.symm).trans hnone
  | drop id =>
    refine h.imp (fun hstored => ?_) fun ⟨hnone, hempty⟩ => ⟨?_, hempty⟩
    · exact (storedOrder_unset_row id m).trans hstored
    · exact (Dict.get?_unset_of_ne m hkey.symm).trans hnone

/-- A row that is written is rebuilt. -/
theorem Rebuilt.write_setRow (h : Rebuilt m t) (row : Row) :
    Rebuilt ((Write.row row).apply m) (t.setRow row.config.id row) := by
  intro id' row' hrow'
  by_cases heq : id' = row.config.id
  · subst heq
    rw [t.row_setRow_self] at hrow'
    cases hrow'
    exact storedRow_set_self row m
  · rw [t.row_setRow_of_ne row heq] at hrow'
    exact (storedRow_set_of_ne heq _ m).trans (h id' row' hrow')

/-- A row that the table has not may be written beforehand. -/
theorem Rebuilt.write_absent (h : Rebuilt m t) (hid : t.row? row.config.id = none) :
    Rebuilt ((Write.row row).apply m) t := by
  intro id' row' hrow'
  have hne : id' ≠ row.config.id := by
    rintro rfl
    rw [hid] at hrow'
    cases hrow'
  exact (storedRow_set_of_ne hne _ m).trans (h id' row' hrow')

/-- What is rebuilt of rows does not depend on the order. -/
theorem Rebuilt.write_order (h : Rebuilt m t) (order : List OracleId) :
    Rebuilt ((Write.order order).apply m) t := by
  intro id' row' hrow'
  exact (storedRow_set_index id' _ m).trans (h id' row' hrow')

/-- A row may be stored that the table has no more. -/
theorem Rebuilt.remove (h : Rebuilt m t) (id : OracleId) : Rebuilt m (t.remove id) := by
  intro id' row' hrow'
  by_cases heq : id' = id
  · subst heq
    rw [t.row_remove_self] at hrow'
    cases hrow'
  · rw [t.row_remove_of_ne heq] at hrow'
    exact h id' row' hrow'

/-- A row may be deleted as soon as the table does without it. -/
theorem Rebuilt.write_drop (h : Rebuilt m t) (id : OracleId) :
    Rebuilt ((Write.drop id).apply m) (t.remove id) := by
  intro id' row' hrow'
  have hne : id' ≠ id := by
    rintro rfl
    rw [t.row_remove_self] at hrow'
    cases hrow'
  have hkey : recordKey rowSpace id' ≠ recordKey rowSpace id :=
    fun hkey => hne (Storage.recordKey_inj hkey)
  exact (Storage.Memory.record_unset_of_ne hkey m).trans (h.remove id id' row' hrow')

/-! ## Backed tables -/

/-- Storage has every row of a table, and the order of a saved one: the table itself, or what is
left of it without one of its oracles. -/
structure Backed (t saved : Table) (m : Memory) : Prop where
  arranged : t.Arranged
  rebuilt : Rebuilt m t
  ordered : HasOrder saved.order m
  lag : saved = t ∨ ∃ id, t.row? id ≠ none ∧ saved = t.remove id

theorem backed_empty : Backed .empty .empty [] := by
  refine ⟨Table.arranged_empty, ?_, .inr ⟨rfl, rfl⟩, .inl rfl⟩
  intro id row hrow
  cases hrow

/-- The saved table is backed by itself. -/
theorem Backed.settled (h : Backed t saved m) : Backed saved saved m := by
  obtain ⟨harranged, hrebuilt, hordered, rfl | ⟨id, -, rfl⟩⟩ := h
  · exact ⟨harranged, hrebuilt, hordered, .inl rfl⟩
  · exact ⟨harranged.remove id, hrebuilt.remove id, hordered, .inl rfl⟩

/-! ### Loading -/

/-- How storage in memory is served: some answer to each request. -/
abbrev Service := (r : Storage.interface.Request) → Memory → Storage.interface.Reply r × Memory

/-- Reads of the order, and of records that are there, are truthful and change nothing. -/
def Reads (A : Service) (m : Memory) : Prop :=
  ∀ key, key = recordKey indexSpace indexId ∨ Dict.get? m key ≠ none →
    A (.get key) m = Memory.answer (.get key) m

variable {A : Service}

/-- A restart that reads one record goes on with what is found in it. -/
theorem run_retrieve {α β : Type} {space id : String} {read : Document → Decoded α}
    {found : Option α} {reply : Except StorageError ByteArray}
    (hread : A (.get (recordKey space id)) m = (reply, m))
    (hfound : Storage.found read reply = .ok found) (f : Option α → Change β) :
    (stored (Storage.retrieve? space id read) >>= f).run.run A m = (f found).run.run A m := by
  have hrun : (stored (Storage.retrieve? space id read)).run.run A m = (.ok found, m) := by
    refine (Program.run_bind A (Storage.retrieve? space id read).run _ m).trans ?_
    have hask : (Storage.retrieve? space id read).run.run A m = (.ok found, m) := by
      rw [Storage.retrieve_eq]
      show (Storage.found read (A (.get (recordKey space id)) m).1,
        (A (.get (recordKey space id)) m).2) = _
      rw [hread, hfound]
    rw [hask]
    rfl
  rw [Attempt.run_bind, Program.run_bind, hrun]

/-- A record that is there is read. -/
theorem Reads.run_retrieve (hA : Reads A m) {α β : Type} {space id : String}
    {read : Document → Decoded α} {a : α} (h : record? space id read m = some a)
    (f : Option α → Change β) :
    (stored (Storage.retrieve? space id read) >>= f).run.run A m = (f (some a)).run.run A m := by
  obtain ⟨bytes, hbytes, hdecode⟩ := Option.bind_eq_some_iff.mp h
  have hread : A (.get (recordKey space id)) m = (.ok bytes, m) := by
    have hthere : Dict.get? m (recordKey space id) ≠ none := by
      rw [hbytes]
      exact Option.some_ne_none bytes
    refine (hA _ (.inr hthere)).trans ?_
    rw [Memory.answer, hbytes]
    rfl
  refine Registry.run_retrieve hread ?_ f
  rw [Storage.found]
  cases hresult : Storage.decode read bytes with
  | error e =>
    rw [hresult] at hdecode
    cases hdecode
  | ok a' =>
    rw [hresult] at hdecode
    obtain rfl := Option.some.inj hdecode
    rfl

/-- Loading puts stored rows behind what is there. -/
theorem Reads.run_loadRows (hA : Reads A m) {rows : Dict OracleId Row}
    (hstored : ∀ entry ∈ rows, storedRow? entry.1 m = some entry.2) {t : Table}
    (hnew : (Dict.keys (t.rows ++ rows)).Nodup) :
    (loadRows (Dict.keys rows) t).run.run A m
      = (.ok ⟨t.order ++ Dict.keys rows, t.rows ++ rows⟩, m) := by
  -- The table is what was loaded so far, `rows` what is still to be loaded.
  induction rows generalizing t with
  | nil =>
    show (Except.ok t, m) = _
    simp [Dict.keys]
  | cons entry rest ih =>
    obtain ⟨first, row⟩ := entry
    have hfirst : storedRow? first m = some row := hstored (first, row) (List.mem_cons_self ..)
    have hfresh : first ∉ Dict.keys t.rows := by
      intro hmem
      rw [Dict.keys, List.map_append, List.nodup_append] at hnew
      exact hnew.2.2 first hmem first (List.mem_cons_self ..) rfl
    have hrows : (t.append first row).rows = t.rows ++ [(first, row)] :=
      Dict.set_of_not_mem row hfresh
    show (stored (Storage.retrieve? rowSpace first Row.decode) >>= _).run.run A m = _
    rw [hA.run_retrieve hfirst]
    have hrest : ∀ entry ∈ rest, storedRow? entry.1 m = some entry.2 :=
      fun entry hmem => hstored entry (List.mem_cons_of_mem _ hmem)
    have hnodup : (Dict.keys ((t.append first row).rows ++ rest)).Nodup := by
      rw [hrows]
      simpa [Dict.keys] using hnew
    refine (ih hrest hnodup).trans ?_
    rw [hrows]
    simp [Table.append, Dict.keys]

/-- The order is read as it was stored. -/
theorem Reads.run_loadOrder (hA : Reads A m) {order : List OracleId} (h : HasOrder order m) :
    loadOrder.run.run A m = (.ok order, m) := by
  rcases h with hstored | ⟨hnone, rfl⟩
  · exact hA.run_retrieve hstored fun order => pure (order.getD [])
  · have hread : A (.get (recordKey indexSpace indexId)) m = (.error .notFound, m) := by
      refine (hA _ (.inl rfl)).trans ?_
      rw [Memory.answer, hnone]
      rfl
    exact Registry.run_retrieve hread rfl fun order => pure (order.getD [])

/-- A restart rebuilds the saved table. -/
theorem Backed.load (h : Backed t saved m) (hA : Reads A m) :
    Registry.load.run.run A m = (.ok saved, m) := by
  have hsaved := h.settled
  have hnodup : (Dict.keys (Table.empty.rows ++ saved.rows)).Nodup := by
    show (Dict.keys saved.rows).Nodup
    rw [hsaved.arranged.keys]
    exact hsaved.arranged.nodup
  have hstored : ∀ entry ∈ saved.rows, storedRow? entry.1 m = some entry.2 := by
    rintro ⟨id, row⟩ hmem
    exact hsaved.rebuilt id row (hsaved.arranged.row_of_mem hmem)
  rw [Registry.load, Attempt.run_bind, Program.run_bind, hA.run_loadOrder h.ordered,
    ← hsaved.arranged.keys]
  refine (hA.run_loadRows hstored hnodup).trans ?_
  show (Except.ok (Table.mk (Dict.keys saved.rows) saved.rows), m) = _
  rw [hsaved.arranged.keys]

/-- What a restart makes of the contents of storage. -/
def reload (m : Memory) : Except RegistryError Table := (Registry.load.run.run Memory.answer m).1

/-- A restart rebuilds the table that storage backs. -/
theorem Backed.reload (h : Backed t saved m) : Registry.reload m = .ok saved := by
  rw [Registry.reload, h.load fun _ _ => rfl]

/-! ### Plans that are cut short -/

/-- An update of a row goes into the saved table as well. -/
theorem Backed.setRow (h : Backed t saved m) (hid : t.row? row.config.id ≠ none) :
    ∃ saved', Backed (t.setRow row.config.id row) saved' ((Write.row row).apply m) ∧
      (saved = t → saved' = t.setRow row.config.id row) := by
  have hordered : HasOrder saved.order ((Write.row row).apply m) :=
    h.ordered.of_row (rowKey_ne_indexKey _)
  have harranged := h.arranged.setRow hid
  have hrebuilt := h.rebuilt.write_setRow row
  obtain hsame | ⟨id, hpresent, rfl⟩ := h.lag
  · subst hsame
    exact ⟨saved.setRow row.config.id row, ⟨harranged, hrebuilt, hordered, .inl rfl⟩, fun _ => rfl⟩
  · refine ⟨(t.setRow row.config.id row).remove id, ⟨harranged, hrebuilt, hordered, ?_⟩, ?_⟩
    · refine .inr ⟨id, ?_, rfl⟩
      exact harranged.mem_order.mp (h.arranged.mem_order.mpr hpresent)
    · intro hsame
      -- An oracle was lost, so the saved table is another one.
      have hmem : id ∈ (t.remove id).order := by
        rw [hsame]
        exact h.arranged.mem_order.mpr hpresent
      simp [Table.remove] at hmem

variable {r : Request} {writes : List Write} {t' : Table}

/-- When all writes of a plan took effect, the new table is backed. -/
theorem Backed.finished (h : Backed t saved m) (hplan : Planned t r writes t') :
    ∃ saved', Backed t' saved' (Write.applyAll writes m) ∧ (saved = t → saved' = t') := by
  cases hplan with
  | idle => exact ⟨saved, h, id⟩
  | revised row hid => exact h.setRow hid
  | registered row hid =>
    refine ⟨_, ⟨h.arranged.append hid, ?_, HasOrder.written _ _, .inl rfl⟩, fun _ => rfl⟩
    exact (h.rebuilt.write_setRow row).write_order _
  | @removed id hid =>
    have hordered := HasOrder.written (t.order.filter (· != id)) m
    refine ⟨_, ⟨h.arranged.remove id, ?_, ?_, .inl rfl⟩, fun _ => rfl⟩
    · exact (h.rebuilt.write_order _).write_drop id
    · exact hordered.of_row (w := .drop id) (rowKey_ne_indexKey id)

/-- What a restart rebuilds when only the first few writes of a request took effect: the table that
was saved, unless the first write of a removal did. -/
def savedAfter (r : Request) (k : Nat) (t saved : Table) : Table :=
  match r, k with
  | .remove id, _ + 1 => t.remove id
  | _, _ => saved

@[simp] theorem savedAfter_zero (r : Request) (t saved : Table) :
    savedAfter r 0 t saved = saved := by
  cases r <;> rfl

/-- When only the first few writes of a plan took effect, the old table is still backed. -/
theorem Backed.cut (h : Backed t saved m) (hplan : Planned t r writes t') {k : Nat}
    (hk : k < writes.length) :
    Backed t (savedAfter r k t saved) (Write.applyAll (writes.take k) m) := by
  cases hplan with
  | idle => exact absurd hk (Nat.not_lt_zero k)
  | revised row hid =>
    obtain rfl : k = 0 := Nat.lt_one_iff.mp hk
    rw [savedAfter_zero]
    exact h
  | registered row hid =>
    match k, hk with
    | 0, _ => exact h
    | 1, _ =>
      -- The row is there already, and no order names it.
      refine ⟨h.arranged, h.rebuilt.write_absent hid, ?_, h.lag⟩
      exact h.ordered.of_row (w := .row _) (rowKey_ne_indexKey _)
  | removed hid =>
    match k, hk with
    | 0, _ => exact h
    | 1, _ =>
      -- The order has lost the oracle already, whose row is still there.
      exact ⟨h.arranged, h.rebuilt.write_order _, HasOrder.written _ _, .inr ⟨_, hid, rfl⟩⟩

end Registry

end PriceOracle
