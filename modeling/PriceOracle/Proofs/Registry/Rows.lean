import PriceOracle.Registry
import PriceOracle.Proofs.Oracle.Codec
import PriceOracle.Proofs.Storage.Records

/-!
# One row of the registry

What each change of the registry does to the row of one oracle, in the table and in storage, when
requests to storage may fail.

* `Kept`: table and storage agree on the row of an oracle.
* `Listed`: the oracle stands in the order, in the table and in storage.
* `keeps_revise`, `keeps_register`, `keeps_update`, `keeps_remove`, `keeps_load`: one lemma for each
  change. A change that fails leaves the row as it was.
* `keeps_register_other`, `keeps_other`: changes of other oracles leave the row alone.
-/

namespace PriceOracle

/-- The row that is put is the one that is there. -/
theorem Table.row_setRow_self (t : Table) (id : OracleId) (row : Row) :
    (t.setRow id row).row? id = some row := Dict.get?_set_self _ _ _

/-- Putting a row changes no other. -/
theorem Table.row_setRow_of_ne (t : Table) {id other : OracleId} (row : Row) (h : other ≠ id) :
    (t.setRow id row).row? other = t.row? other := Dict.get?_set_of_ne _ _ h

theorem Table.row_append_self (t : Table) (id : OracleId) (row : Row) :
    (t.append id row).row? id = some row := Dict.get?_set_self _ _ _

/-- Adding an oracle changes no row of another. -/
theorem Table.row_append_of_ne (t : Table) {id other : OracleId} (row : Row) (h : other ≠ id) :
    (t.append id row).row? other = t.row? other := Dict.get?_set_of_ne _ _ h

theorem Table.row_remove_self (t : Table) (id : OracleId) : (t.remove id).row? id = none :=
  Dict.get?_unset_self _ _

/-- Taking an oracle out changes no row of another. -/
theorem Table.row_remove_of_ne (t : Table) {id other : OracleId} (h : other ≠ id) :
    (t.remove id).row? other = t.row? other := Dict.get?_unset_of_ne _ h

namespace Registry

open Storage (Memory recordKey encode)
open Storage.Memory (Flaky record?)
open Program (Keeps)

/-! ## What storage holds -/

/-- The row of an oracle as storage has it. -/
def storedRow? (id : OracleId) (m : Memory) : Option Row := record? rowSpace id Row.decode m

/-- The order as storage has it. -/
def storedOrder? (m : Memory) : Option (List OracleId) :=
  record? indexSpace indexId (Document.asList Document.asString) m

/-- Rows and the order are kept in different spaces, so that no id collides with the order. -/
theorem rowKey_ne_indexKey (id : OracleId) :
    recordKey rowSpace id ≠ recordKey indexSpace indexId := by
  intro h
  have hhead := congrArg (fun s => s.toList.head?) h
  simp [recordKey, rowSpace, indexSpace, indexId] at hhead

/-- The bytes of a row are decoded as the row. -/
theorem decode_row (row : Row) : Storage.decode Row.decode (encode row.toJson) = .ok row :=
  Storage.decode_encode (Row.plain row 123) (Row.decode_toJson row)

/-- The bytes of the order are decoded as the order. -/
theorem decode_order (order : List OracleId) :
    Storage.decode (Document.asList Document.asString) (encode (.arr (order.map .str)))
      = .ok order := by
  have hplain : Json.Plain Json.maxDepth (.arr (order.map .str)) :=
    ⟨by decide, Json.plainItems_map fun id _ => Json.plain_str id _⟩
  exact Storage.decode_encode hplain (Document.asList_arr _ fun id _ => Document.asString_str id)

theorem storedRow_set_self (row : Row) (m : Memory) :
    storedRow? row.config.id (Dict.set (recordKey rowSpace row.config.id) (encode row.toJson) m)
      = some row :=
  Storage.Memory.record_set_self (decode_row row) m

/-- Writing the row of one oracle leaves the stored rows of all others. -/
theorem storedRow_set_of_ne {id other : OracleId} (h : id ≠ other) (bytes : ByteArray)
    (m : Memory) :
    storedRow? id (Dict.set (recordKey rowSpace other) bytes m) = storedRow? id m :=
  Storage.Memory.record_set_of_ne (fun hkey => h (Storage.recordKey_inj hkey)) bytes m

/-- Writing the order leaves all stored rows. -/
theorem storedRow_set_index (id : OracleId) (bytes : ByteArray) (m : Memory) :
    storedRow? id (Dict.set (recordKey indexSpace indexId) bytes m) = storedRow? id m :=
  Storage.Memory.record_set_of_ne (rowKey_ne_indexKey id) bytes m

theorem storedOrder_set_index (order : List OracleId) (m : Memory) :
    storedOrder? (Dict.set (recordKey indexSpace indexId) (encode (.arr (order.map .str))) m)
      = some order :=
  Storage.Memory.record_set_self (decode_order order) m

/-- Writing a row leaves the stored order. -/
theorem storedOrder_set_row (id : OracleId) (bytes : ByteArray) (m : Memory) :
    storedOrder? (Dict.set (recordKey rowSpace id) bytes m) = storedOrder? m :=
  Storage.Memory.record_set_of_ne (rowKey_ne_indexKey id).symm bytes m

/-- Deleting a row leaves the stored order: that is why the order is written first. -/
theorem storedOrder_unset_row (id : OracleId) (m : Memory) :
    storedOrder? (Dict.unset m (recordKey rowSpace id)) = storedOrder? m :=
  Storage.Memory.record_unset_of_ne (rowKey_ne_indexKey id).symm m

/-! ## Kept rows -/

/-- Table and storage agree on the row of an oracle. -/
structure Kept (id : OracleId) (row : Row) (t : Table) (m : Memory) : Prop where
  inTable : t.row? id = some row
  inStorage : storedRow? id m = some row
  named : row.config.id = id

/-- An oracle stands in the order, in the table and in storage. -/
structure Listed (id : OracleId) (t : Table) (m : Memory) : Prop where
  inTable : id ∈ t.order
  inStorage : ∃ order, storedOrder? m = some order ∧ id ∈ order

/-- An oracle stands in neither order. -/
structure Unlisted (id : OracleId) (t : Table) (m : Memory) : Prop where
  inTable : id ∉ t.order
  inStorage : ∀ order, storedOrder? m = some order → id ∉ order

/-- The row of an oracle and its place in the order are not affected. -/
structure Spared (id : OracleId) (t : Table) (m : Memory) (t' : Table) (m' : Memory) : Prop where
  row : t'.row? id = t.row? id
  stored : storedRow? id m' = storedRow? id m
  listed : Listed id t m → Listed id t' m'
  unlisted : Unlisted id t m → Unlisted id t' m'

theorem Spared.refl (id : OracleId) (t : Table) (m : Memory) : Spared id t m t m :=
  ⟨rfl, rfl, fun h => h, fun h => h⟩

/-- Where an oracle is spared, table and storage still agree on its row. -/
theorem Spared.kept {id : OracleId} {row : Row} {t t' : Table} {m m' : Memory}
    (h : Spared id t m t' m') (hkept : Kept id row t m) : Kept id row t' m' :=
  ⟨h.row.trans hkept.inTable, h.stored.trans hkept.inStorage, hkept.named⟩

/-- A row that is written and shown in the table is kept. -/
theorem Kept.written {id : OracleId} {row : Row} {t : Table} {m : Memory}
    (hnamed : row.config.id = id) :
    Kept id row (t.setRow id row) (Dict.set (recordKey rowSpace id) (encode row.toJson) m) := by
  subst hnamed
  exact ⟨t.row_setRow_self _ row, storedRow_set_self row m, rfl⟩

/-- Writing rows leaves an oracle listed. -/
theorem Listed.written {id shown other : OracleId} {row : Row} {bytes : ByteArray} {t : Table}
    {m : Memory} (h : Listed id t m) :
    Listed id (t.setRow shown row) (Dict.set (recordKey rowSpace other) bytes m) :=
  ⟨h.inTable, by rw [storedOrder_set_row]; exact h.inStorage⟩

/-- Writing rows lists no oracle. -/
theorem Unlisted.written {id other : OracleId} {bytes : ByteArray} {t : Table} {m : Memory}
    (h : Unlisted id t m) : Unlisted id t (Dict.set (recordKey rowSpace other) bytes m) :=
  ⟨h.inTable, by rw [storedOrder_set_row]; exact h.inStorage⟩

/-! ## Changes of the oracle itself -/

variable {mayFail : Storage.Request → Memory → Prop} {id : OracleId} {row : Row} {t : Table}
  {m : Memory}

/-- Nothing is asked of the requests to storage. -/
abbrev anyRequest : Storage.Request → Memory → Prop := fun _ _ => True

/-- Writing a row down takes effect, or fails and leaves storage as it was. -/
theorem keeps_persist {post : Except RegistryError Unit → Memory → Prop}
    (hok : post (.ok ()) (Dict.set (recordKey rowSpace row.config.id) (encode row.toJson) m))
    (hfail : mayFail (.set (recordKey rowSpace row.config.id) (encode row.toJson)) m →
      ∀ e, post (.error (.storage e)) m) :
    Keeps (Flaky mayFail) anyRequest post (persist row).run m :=
  Attempt.keeps_adapt.mpr (Storage.Memory.keeps_store trivial hok hfail)

/-- The order is stored, or nothing is. -/
theorem keeps_persistOrder {order : List OracleId}
    {post : Except RegistryError Unit → Memory → Prop}
    (hok : post (.ok ())
      (Dict.set (recordKey indexSpace indexId) (encode (.arr (order.map .str))) m))
    (hfail : ∀ e, post (.error (.storage e)) m) :
    Keeps (Flaky mayFail) anyRequest post (persistOrder order).run m :=
  Attempt.keeps_adapt.mpr (Storage.Memory.keeps_store trivial hok fun _ => hfail)

/-- A change is answered by its result and the table it leaves. -/
theorem keeps_settle {change : Change (Table × α)} {t : Table}
    {post : Except RegistryError α × Table → Memory → Prop} :
    Keeps (Flaky mayFail) anyRequest post (settle t change) m ↔
      Keeps (Flaky mayFail) anyRequest
        (Attempt.Ends (fun a m' => post (.ok a.2, a.1) m') fun e m' => post (.error e, t) m')
        change.run m := by
  rw [settle]
  refine Program.keeps_bind.trans ?_
  constructor <;> refine fun h => h.mono fun a t hpost => ?_ <;> cases a <;> exact hpost

theorem rowOf_of_kept (h : Kept id row t m) : rowOf t id = .ok row := by
  rw [rowOf, h.inTable]

theorem row_of_rowOf (h : rowOf t id = .ok row) : t.row? id = some row := by
  unfold rowOf at h
  cases hrow : t.row? id with
  | none =>
    rw [hrow] at h
    cases h
  | some found =>
    rw [hrow] at h
    cases h
    rfl

/-- Bookkeeping that counts as the same is not written; the change is answered all the same. -/
theorem keeps_revise (h : Kept id row t m) {change : Bookkeeping → Bookkeeping}
    {post : Except RegistryError Bookkeeping × Table → Memory → Prop}
    (hok : ∀ b t' m', b = change row.bookkeeping ∨
        b = row.bookkeeping ∧ (change row.bookkeeping == row.bookkeeping) = true →
      Kept id { row with bookkeeping := b } t' m' → (Listed id t m → Listed id t' m') →
      post (.ok (change row.bookkeeping), t') m')
    (hfail : mayFail (.set (recordKey rowSpace id)
        (encode ({ row with bookkeeping := change row.bookkeeping } : Row).toJson)) m →
      ∀ e, post (.error (.storage e), t) m) :
    Keeps (Flaky mayFail) anyRequest post (answer (.revise id change) t) m := by
  rw [answer, keeps_settle, revise, rowOf_of_kept h]
  show Keeps _ _ _ (ExceptT.run (if _ then _ else _)) m
  split
  next hsame => exact hok row.bookkeeping t m (.inr ⟨rfl, hsame⟩) h fun hlisted => hlisted
  next hchanged =>
    obtain rfl := h.named
    refine Attempt.keeps_bind.mpr (keeps_persist ?_ hfail)
    exact hok _ _ _ (.inl rfl) (Kept.written rfl) Listed.written

/-- Changes of bookkeeping leave the order alone. -/
theorem keeps_listed_of_revise (mayFail : Storage.Request → Memory → Prop) (other : OracleId)
    (change : Bookkeeping → Bookkeeping) (h : Listed id t m) :
    Keeps (Flaky mayFail) anyRequest (fun e m' => Listed id e.2 m')
      (answer (.revise other change) t) m := by
  refine keeps_settle.mpr ?_
  rw [revise]
  refine Attempt.keeps_bind.mpr ?_
  cases rowOf t other with
  | error e => exact h
  | ok row =>
    show Keeps _ _ _ (ExceptT.run (if _ then _ else _)) m
    split
    · exact h
    · exact Attempt.keeps_bind.mpr (keeps_persist h.written fun _ _ => h)

/-- A row is told as it is kept. -/
theorem keeps_row (h : Kept id row t m) {post : Except RegistryError Row × Table → Memory → Prop}
    (hok : post (.ok row, t) m) :
    Keeps (Flaky mayFail) anyRequest post (answer (.row id) t) m := by
  show post (rowOf t id, t) m
  rw [rowOf_of_kept h]
  exact hok

/-- An oracle that is new starts with initial bookkeeping. One that fails to be registered may have
left a row in storage, but only where it has none in the table. -/
theorem keeps_register {c : OracleConfig} {post : Except RegistryError Unit × Table → Memory → Prop}
    (hok : t.row? c.id = none → ∀ t' m', Kept c.id ⟨c, .initial⟩ t' m' → Listed c.id t' m' →
      post (.ok (), t') m')
    (hfail : ∀ e m', m' = m ∨ t.row? c.id = none ∧ storedOrder? m' = storedOrder? m →
      post (.error e, t) m') :
    Keeps (Flaky mayFail) anyRequest post (answer (.register c) t) m := by
  rw [answer, keeps_settle]
  refine Attempt.keeps_map.mpr ?_
  rw [register]
  refine Attempt.keeps_bind.mpr ?_
  cases hcheck : check c with
  | error e => exact hfail e m (.inl rfl)
  | ok _ =>
    refine Attempt.keeps_bind.mpr ?_
    cases hrow : t.row? c.id with
    | some row =>
      have hfree : checkFree t c.id = .error (.duplicateId c.id) := by simp [checkFree, hrow]
      rw [hfree]
      exact hfail _ m (.inl rfl)
    | none =>
      have hfree : checkFree t c.id = .ok () := by simp [checkFree, hrow]
      rw [hfree]
      refine Attempt.keeps_bind.mpr ?_
      cases howner : checkOwner t c with
      | error e => exact hfail e m (.inl rfl)
      | ok _ =>
        -- The row is written before the order, so a failure may leave it behind.
        refine Attempt.keeps_bind.mpr (keeps_persist ?_ fun _ e => hfail _ _ (.inl rfl))
        have hindex := storedOrder_set_row c.id (encode (⟨c, .initial⟩ : Row).toJson) m
        refine Attempt.keeps_bind.mpr
          (keeps_persistOrder ?_ fun e => hfail _ _ (.inr ⟨hrow, hindex⟩))
        have hlisted : c.id ∈ t.order ++ [c.id] :=
          List.mem_append_right _ (List.mem_singleton_self _)
        refine hok hrow _ _ ⟨t.row_append_self c.id _, ?_, rfl⟩
          ⟨hlisted, _, storedOrder_set_index _ _, hlisted⟩
        rw [storedRow_set_index]
        exact storedRow_set_self ⟨c, .initial⟩ m

/-- A new configuration carries the bookkeeping over, or starts it over. -/
theorem keeps_update {c : OracleConfig} (h : Kept c.id row t m)
    {post : Except RegistryError Unit × Table → Memory → Prop}
    (hok : ∀ t' m', Kept c.id ⟨c, carriedOver row c⟩ t' m' →
      (Listed c.id t m → Listed c.id t' m') → post (.ok (), t') m')
    (hfail : ∀ e, post (.error e, t) m) :
    Keeps (Flaky mayFail) anyRequest post (answer (.update c) t) m := by
  rw [answer, keeps_settle]
  refine Attempt.keeps_map.mpr ?_
  rw [update]
  refine Attempt.keeps_bind.mpr ?_
  cases hcheck : check c with
  | error e => exact hfail e
  | ok _ =>
    refine Attempt.keeps_bind.mpr ?_
    rw [rowOf_of_kept h]
    refine Attempt.keeps_bind.mpr ?_
    cases howner : checkOwner t c with
    | error e => exact hfail e
    | ok _ =>
      refine Attempt.keeps_bind.mpr (keeps_persist ?_ fun _ e => hfail _)
      exact hok _ _ (.written rfl) Listed.written

/-- An oracle that is not there is not updated. -/
theorem keeps_update_of_missing {c : OracleConfig} (h : t.row? c.id = none)
    {post : Except RegistryError Unit × Table → Memory → Prop} (hfail : ∀ e, post (.error e, t) m) :
    Keeps (Flaky mayFail) anyRequest post (answer (.update c) t) m := by
  rw [answer, keeps_settle]
  refine Attempt.keeps_map.mpr ?_
  rw [update]
  refine Attempt.keeps_bind.mpr ?_
  cases hcheck : check c with
  | error e => exact hfail e
  | ok _ =>
    refine Attempt.keeps_bind.mpr ?_
    rw [rowOf, h]
    exact hfail _

/-- An oracle that fails to be removed keeps its row, though it may be out of the stored order. -/
theorem keeps_remove {post : Except RegistryError Unit × Table → Memory → Prop}
    (hok : ∀ t' m', t'.row? id = none → Unlisted id t' m' → post (.ok (), t') m')
    (hfail : ∀ e m', storedRow? id m' = storedRow? id m → (t.row? id = none → m' = m) →
      post (.error e, t) m') :
    Keeps (Flaky mayFail) anyRequest post (answer (.remove id) t) m := by
  rw [answer, keeps_settle]
  refine Attempt.keeps_map.mpr ?_
  rw [remove]
  refine Attempt.keeps_bind.mpr ?_
  cases hrow : rowOf t id with
  | error e => exact hfail e m rfl fun _ => rfl
  | ok row =>
    have hpresent : t.row? id ≠ none := by
      rw [row_of_rowOf hrow]
      exact Option.some_ne_none row
    -- The order is written before the row is removed, so a failure may leave the row.
    refine Attempt.keeps_bind.mpr (keeps_persistOrder ?_ fun e => hfail _ m rfl fun _ => rfl)
    refine Attempt.keeps_bind.mpr (Attempt.keeps_adapt.mpr
      (Storage.Memory.keeps_remove trivial ?_ fun _ e => ?_))
    · have hout : id ∉ t.order.filter (· != id) := by simp
      refine hok _ _ (t.row_remove_self id) ⟨hout, ?_⟩
      intro order horder
      rw [storedOrder_unset_row, storedOrder_set_index] at horder
      cases horder
      exact hout
    · exact hfail _ _ (storedRow_set_index id _ m) fun hnone => absurd hnone hpresent

/-! ## Changes of other oracles -/

/-- The oracle that a request changes. -/
def Request.target? : Request → Option OracleId
  | .register c | .update c => some c.id
  | .remove id | .revise id _ => some id
  | .row _ | .rows | .ids | .holds _ => none

/-- Every row of a table stands under the id of its configuration. -/
def Keyed (t : Table) : Prop := ∀ id row, t.row? id = some row → row.config.id = id

/-- A row that is written spares all other oracles. -/
theorem Spared.set_row {other : OracleId} (hne : other ≠ id) (row : Row) (bytes : ByteArray) :
    Spared id t m (t.setRow other row) (Dict.set (recordKey rowSpace other) bytes m) :=
  ⟨t.row_setRow_of_ne row hne.symm, storedRow_set_of_ne hne.symm bytes m, Listed.written,
    fun h => ⟨h.inTable, h.written.inStorage⟩⟩

/-- Bytes that are stored under another id are not seen by an oracle, whether or not the table
follows. -/
theorem Spared.set_bytes {other : OracleId} (hne : other ≠ id) (bytes : ByteArray) :
    Spared id t m t (Dict.set (recordKey rowSpace other) bytes m) :=
  ⟨rfl, storedRow_set_of_ne hne.symm bytes m,
    fun h => ⟨h.inTable, by rw [storedOrder_set_row]; exact h.inStorage⟩, Unlisted.written⟩

/-- A new order spares an oracle that is in it exactly if it was in the old one. -/
theorem Spared.set_order {order : List OracleId} (h : id ∈ order ↔ id ∈ t.order) :
    Spared id t m t
      (Dict.set (recordKey indexSpace indexId) (encode (.arr (order.map .str))) m) := by
  refine ⟨rfl, storedRow_set_index id _ m, ?_, ?_⟩
  · intro hlisted
    exact ⟨hlisted.inTable, order, storedOrder_set_index order m, h.mpr hlisted.inTable⟩
  · intro hunlisted
    refine ⟨hunlisted.inTable, ?_⟩
    intro order' horder hin
    rw [storedOrder_set_index] at horder
    cases horder
    exact hunlisted.inTable (h.mp hin)

theorem Spared.trans {t' t'' : Table} {m' m'' : Memory} (h : Spared id t m t' m')
    (h' : Spared id t' m' t'' m'') : Spared id t m t'' m'' :=
  ⟨h'.row.trans h.row, h'.stored.trans h.stored, fun hlisted => h'.listed (h.listed hlisted),
    fun hunlisted => h'.unlisted (h.unlisted hunlisted)⟩

/-- A change of the table alone. -/
theorem Spared.of_table {t' : Table} (hrow : t'.row? id = t.row? id)
    (horder : id ∈ t'.order ↔ id ∈ t.order) : Spared id t m t' m :=
  ⟨hrow, rfl, fun h => ⟨horder.mpr h.inTable, h.inStorage⟩,
    fun h => ⟨fun hin => h.inTable (horder.mp hin), h.inStorage⟩⟩

/-- Registering another oracle leaves the row of an oracle alone. -/
theorem keeps_register_other {c : OracleConfig} (hne : c.id ≠ id) :
    Keeps (Flaky mayFail) anyRequest (fun e m' => Spared id t m e.2 m') (answer (.register c) t)
      m := by
  refine keeps_settle.mpr (Attempt.keeps_map.mpr ?_)
  rw [register]
  refine Attempt.keeps_bind.mpr ?_
  cases check c with
  | error e => exact Spared.refl id t m
  | ok _ =>
    refine Attempt.keeps_bind.mpr ?_
    cases checkFree t c.id with
    | error e => exact Spared.refl id t m
    | ok _ =>
      refine Attempt.keeps_bind.mpr ?_
      cases checkOwner t c with
      | error e => exact Spared.refl id t m
      | ok _ =>
        refine Attempt.keeps_bind.mpr (keeps_persist ?_ fun _ _ => Spared.refl id t m)
        have hpersist := Spared.set_bytes (t := t) (m := m) hne
          (encode (⟨c, .initial⟩ : Row).toJson)
        refine Attempt.keeps_bind.mpr (keeps_persistOrder ?_ fun _ => hpersist)
        have hmem : id ∈ t.order ++ [c.id] ↔ id ∈ t.order := by simp [hne.symm]
        exact (hpersist.trans (Spared.set_order hmem)).trans
          (Spared.of_table (t.row_append_of_ne _ hne.symm) hmem)

/-- Requests about other oracles leave the row of an oracle alone. -/
theorem keeps_other (hkeyed : Keyed t) {r : Request} (h : r.target? ≠ some id) :
    Keeps (Flaky mayFail) anyRequest (fun e m' => Spared id t m e.2 m') (answer r t) m := by
  cases r with
  | row _ | rows | ids | holds _ => exact Spared.refl id t m
  | register c => exact keeps_register_other fun heq => h (congrArg some heq)
  | update c =>
    have hne : c.id ≠ id := fun heq => h (congrArg some heq)
    refine keeps_settle.mpr (Attempt.keeps_map.mpr ?_)
    rw [update]
    refine Attempt.keeps_bind.mpr ?_
    cases check c with
    | error e => exact Spared.refl id t m
    | ok _ =>
      refine Attempt.keeps_bind.mpr ?_
      cases rowOf t c.id with
      | error e => exact Spared.refl id t m
      | ok current =>
        refine Attempt.keeps_bind.mpr ?_
        cases checkOwner t c with
        | error e => exact Spared.refl id t m
        | ok _ =>
          refine Attempt.keeps_bind.mpr (keeps_persist ?_ fun _ _ => Spared.refl id t m)
          exact Spared.set_row hne _ _
  | remove other =>
    have hne : other ≠ id := fun heq => h (congrArg some heq)
    refine keeps_settle.mpr (Attempt.keeps_map.mpr ?_)
    rw [remove]
    refine Attempt.keeps_bind.mpr ?_
    cases rowOf t other with
    | error e => exact Spared.refl id t m
    | ok row =>
      -- The order shrinks by another id, so it lists this one exactly if it did.
      have hmem : id ∈ t.order.filter (· != other) ↔ id ∈ t.order := by simp [hne.symm]
      have horder := Spared.set_order (m := m) hmem
      refine Attempt.keeps_bind.mpr (keeps_persistOrder ?_ fun _ => Spared.refl id t m)
      refine Attempt.keeps_bind.mpr (Attempt.keeps_adapt.mpr
        (Storage.Memory.keeps_remove trivial ?_ fun _ _ => horder))
      refine horder.trans ⟨t.row_remove_of_ne hne.symm, ?_, ?_, ?_⟩
      · exact Storage.Memory.record_unset_of_ne
          (fun hkey => hne.symm (Storage.recordKey_inj hkey)) _
      · intro hlisted
        refine ⟨hmem.mpr hlisted.inTable, ?_⟩
        rw [storedOrder_unset_row]
        exact hlisted.inStorage
      · intro hunlisted
        refine ⟨fun hin => hunlisted.inTable (hmem.mp hin), ?_⟩
        rw [storedOrder_unset_row]
        exact hunlisted.inStorage
  | revise other change =>
    have hne : other ≠ id := fun heq => h (congrArg some heq)
    refine keeps_settle.mpr ?_
    rw [revise]
    refine Attempt.keeps_bind.mpr ?_
    cases hrow : rowOf t other with
    | error e => exact Spared.refl id t m
    | ok row =>
      show Keeps _ _ _ (ExceptT.run (if _ then _ else _)) m
      split
      · exact Spared.refl id t m
      -- The row is written under its config's id, which `Keyed` makes the one asked for.
      · obtain rfl : row.config.id = other := hkeyed other row (row_of_rowOf hrow)
        refine Attempt.keeps_bind.mpr (keeps_persist ?_ fun _ _ => Spared.refl id t m)
        exact Spared.set_row hne _ _

/-! ## Loading -/

/-- Every row of a table is the stored one. -/
def Rebuilt (m : Memory) (t : Table) : Prop :=
  ∀ id row, t.row? id = some row → storedRow? id m = some row

/-- Loading puts the stored row of every listed oracle behind what is there. -/
theorem keeps_loadRows (order : List OracleId) {t : Table} (hrebuilt : Rebuilt m t) :
    Keeps (Flaky mayFail) anyRequest
      (Attempt.Ends (fun t' m' => m' = m ∧ Rebuilt m t' ∧
          (∀ id row, storedRow? id m = some row →
            id ∈ order ∨ id ∈ t.order ∧ t.row? id = some row →
            id ∈ t'.order ∧ t'.row? id = some row) ∧
          ∀ id, id ∉ order → t'.row? id = t.row? id ∧ (id ∈ t'.order → id ∈ t.order))
        fun _ m' => m' = m)
      (loadRows order t).run m := by
  -- The table is what was loaded so far, `order` what is still to be loaded.
  induction order generalizing t with
  | nil =>
    refine ⟨rfl, hrebuilt, ?_, fun id _ => ⟨rfl, fun h => h⟩⟩
    rintro id row _ (h | h)
    · cases h
    · exact h
  | cons first rest ih =>
    refine Attempt.keeps_bind.mpr (Attempt.keeps_adapt.mpr
      (Storage.Memory.keeps_retrieve trivial ?_ fun _ => rfl))
    rw [show record? rowSpace first Row.decode m = storedRow? first m from rfl]
    cases hfirst : storedRow? first m with
    | none =>
      -- An id without a row is passed over.
      refine (ih hrebuilt).mono fun e m' hends => ?_
      cases e with
      | error e => exact hends
      | ok t' =>
        obtain ⟨hm, hrebuilt', hall, hout⟩ := hends
        refine ⟨hm, hrebuilt', ?_, ?_⟩
        · rintro id row hstored (h | h) <;> refine hall id row hstored ?_
          · rcases List.mem_cons.mp h with rfl | h
            · rw [hfirst] at hstored
              cases hstored
            · exact .inl h
          · exact .inr h
        · intro id hid
          exact hout id fun hin => hid (List.mem_cons_of_mem _ hin)
    | some found =>
      have hnext : Rebuilt m (t.append first found) := by
        intro id row h
        by_cases hid : id = first
        · subst hid
          rw [t.row_append_self] at h
          rw [hfirst, h]
        · rw [t.row_append_of_ne found hid] at h
          exact hrebuilt id row h
      refine (ih hnext).mono fun e m' hends => ?_
      cases e with
      | error e => exact hends
      | ok t' =>
        obtain ⟨hm, hrebuilt', hall, hout⟩ := hends
        refine ⟨hm, hrebuilt', ?_, ?_⟩
        · intro id row hstored h
          refine hall id row hstored ?_
          by_cases hid : id = first
          · subst hid
            rw [hfirst] at hstored
            refine .inr ⟨List.mem_append_right _ (List.mem_singleton_self _), ?_⟩
            rw [t.row_append_self, hstored]
          · rcases h with h | ⟨hmem, hrow⟩
            · exact .inl ((List.mem_cons.mp h).resolve_left hid)
            · refine .inr ⟨List.mem_append_left _ hmem, ?_⟩
              rw [t.row_append_of_ne found hid, hrow]
        · intro id hid
          have hne : id ≠ first := fun heq => hid (heq ▸ List.mem_cons_self ..)
          obtain ⟨hrow, hmem⟩ := hout id fun hin => hid (List.mem_cons_of_mem _ hin)
          refine ⟨hrow.trans (t.row_append_of_ne found hne), ?_⟩
          intro hin
          rcases List.mem_append.mp (hmem hin) with hin | hin
          · exact hin
          · exact absurd (List.mem_singleton.mp hin) hne

/-- A registry as it is loaded from storage: the stored rows of the listed oracles. -/
structure Loaded (m : Memory) (t : Table) : Prop where
  rebuilt : Rebuilt m t
  listed : ∀ id row, storedRow? id m = some row →
    (∃ order, storedOrder? m = some order ∧ id ∈ order) → id ∈ t.order ∧ t.row? id = some row
  unlisted : ∀ id, (∀ order, storedOrder? m = some order → id ∉ order) →
    t.row? id = none ∧ id ∉ t.order

/-- Loading changes nothing in storage; it reads all rows that the order names, or fails. -/
theorem keeps_load {post : Except RegistryError Table → Memory → Prop}
    (hok : ∀ t', Loaded m t' → post (.ok t') m) (hfail : ∀ e, post (.error e) m) :
    Keeps (Flaky mayFail) anyRequest post load.run m := by
  have hempty : Rebuilt m .empty := by
    intro id row h
    cases h
  rw [load, loadOrder]
  refine Attempt.keeps_bind.mpr (Attempt.keeps_bind.mpr (Attempt.keeps_adapt.mpr
    (Storage.Memory.keeps_retrieve trivial ?_ fun e => hfail _)))
  show Keeps _ _ _ (loadRows ((storedOrder? m).getD []) .empty).run m
  refine (keeps_loadRows _ hempty).mono fun e m' hends => ?_
  cases e with
  | error e =>
    obtain rfl := hends
    exact hfail e
  | ok t' =>
    obtain ⟨rfl, hrebuilt, hall, hout⟩ := hends
    refine hok t' ⟨hrebuilt, ?_, ?_⟩
    · rintro id row hstored ⟨order, horder, hmem⟩
      exact hall id row hstored (.inl (by simpa [horder] using hmem))
    · intro id hid
      have hnot : id ∉ (storedOrder? m').getD [] := by
        cases horder : storedOrder? m' with
        | none => simp
        | some order => exact hid order horder
      obtain ⟨hrow, hmem⟩ := hout id hnot
      exact ⟨hrow, fun hin => absurd (hmem hin) List.not_mem_nil⟩

/-- Loading reads storage and leaves it as it is. -/
theorem loaded_of_leads {m' : Memory}
    (h : Program.Leads (Flaky mayFail) load.run m (.done (.ok t)) m') : m' = m ∧ Loaded m t := by
  have hkeeps : Keeps (Flaky mayFail) anyRequest
      (fun e m' => m' = m ∧ ∀ t', e = .ok t' → Loaded m t') load.run m :=
    keeps_load (fun t' hloaded => ⟨rfl, fun t'' h => by cases h; exact hloaded⟩)
      fun e => ⟨rfl, fun t'' h => by cases h⟩
  obtain ⟨hsame, hall⟩ := hkeeps.leads h
  exact ⟨hsame, hall t rfl⟩

end Registry

end PriceOracle
