import PriceOracle.Simulation.Backend
import PriceOracle.Proofs.Json.RoundTrip
import PriceOracle.Proofs.Program.Behaviour
import PriceOracle.Proofs.Text.Bytes

/-!
# Records in storage that may fail

`Memory.Flaky` is storage whose requests may fail: one that fails leaves the contents as they were,
and never claims that a record is missing. Records that are written are read back. The registry
asks for one record at a time, so that this is all that has to be known of storage behind it.
-/

namespace PriceOracle.Storage

open Program (Keeps Leads)

variable {α : Type}

/-! ## Encoded records -/

/-- A record is read back as the document of its value. -/
theorem decode_encode {j : Json} (h : Json.Plain Json.maxDepth j) {read : Document → Decoded α}
    {a : α} (hread : read (Document.ofJson j) = .ok a) : decode read (encode j) = .ok a := by
  have htext : String.fromUTF8? (encode j) = some j.text := Text.fromUTF8?_toUTF8 j.text
  simp only [decode, htext, Option.map_some, Json.read_text h, hread]

/-- No record is taken for a missing one. -/
theorem decode_ne_notFound (read : Document → Decoded α) (bytes : ByteArray) :
    decode read bytes ≠ .error .notFound := by
  intro h
  simp only [decode] at h
  split at h
  · cases h
  · split at h <;> cases h

/-- What the answer to a request for bytes says about a record that may be missing. -/
def found (read : Document → Decoded α) :
    Except StorageError ByteArray → Except StorageError (Option α)
  | .ok bytes => (decode read bytes).map some
  | .error .notFound => .ok none
  | .error e => .error e

/-- Reading a record that may be missing is one request. -/
theorem retrieve_eq (space id : String) (read : Document → Decoded α) :
    (retrieve? space id read).run
      = .ask (.get (recordKey space id)) fun reply => .done (found read reply) := by
  refine congrArg (Program.ask (I := interface) (.get (recordKey space id))) ?_
  funext reply
  cases reply with
  | error e => cases e <;> rfl
  | ok bytes =>
    have hne := decode_ne_notFound read bytes
    show Program.bind (.done (decode read bytes)) _ = .done ((decode read bytes).map some)
    cases hdecode : decode read bytes with
    | ok a => rfl
    | error e =>
      -- A missing record is told by the answer, never by its bytes.
      rw [hdecode] at hne
      cases e with
      | notFound => exact absurd rfl hne
      | serialization _ | backend _ | configuration _ => rfl

/-- Ids of one namespace have keys of their own. -/
theorem recordKey_inj {space id other : String} (h : recordKey space id = recordKey space other) :
    id = other := by
  unfold recordKey at h
  exact (String.append_right_inj _).mp h

/-! ## Contents -/

namespace Memory

/-- The record of an id, where there is one that can be read. -/
def record? (space id : String) (read : Document → Decoded α) (m : Memory) : Option α :=
  (Dict.get? m (recordKey space id)).bind fun bytes => (decode read bytes).toOption

theorem record_set_self {space id : String} {read : Document → Decoded α} {j : Json} {a : α}
    (h : decode read (encode j) = .ok a) (m : Memory) :
    record? space id read (Dict.set (recordKey space id) (encode j) m) = some a := by
  rw [record?, Dict.get?_set_self]
  simp [h, Except.toOption]

theorem record_set_of_ne {space id key : String} {read : Document → Decoded α}
    (h : recordKey space id ≠ key) (bytes : ByteArray) (m : Memory) :
    record? space id read (Dict.set key bytes m) = record? space id read m := by
  rw [record?, Dict.get?_set_of_ne _ _ h, record?]

theorem record_unset_self (space id : String) (read : Document → Decoded α) (m : Memory) :
    record? space id read (Dict.unset m (recordKey space id)) = none := by
  rw [record?, Dict.get?_unset_self]
  rfl

theorem record_unset_of_ne {space id key : String} {read : Document → Decoded α}
    (h : recordKey space id ≠ key) (m : Memory) :
    record? space id read (Dict.unset m key) = record? space id read m := by
  rw [record?, Dict.get?_unset_of_ne _ h, record?]

/-! ## Failures -/

/-- Storage some of whose requests may fail. A request that fails leaves the contents as they
were. A read that fails does not take the record for a missing one. -/
def Flaky (mayFail : Request → Memory → Prop) : Behaviour interface Memory :=
  fun r m reply m' => (reply, m') = answer r m ∨
    (mayFail r m ∧ m' = m ∧
      ∃ e, (∀ key, r = .get key → e ≠ .notFound) ∧ reply = Simulation.refuse e r)

variable {mayFail : Request → Memory → Prop} {allow : Request → Memory → Prop}

theorem keeps_store {space id : String} {j : Json} {m : Memory}
    {post : Except StorageError Unit → Memory → Prop}
    (hallow : allow (.set (recordKey space id) (encode j)) m)
    (hok : post (.ok ()) (Dict.set (recordKey space id) (encode j) m))
    (hfail : mayFail (.set (recordKey space id) (encode j)) m → ∀ e, post (.error e) m) :
    Keeps (Flaky mayFail) allow post (store space id j).run m := by
  refine ⟨hallow, ?_⟩
  rintro reply m' (hreply | ⟨hmay, rfl, e, -, rfl⟩)
  · obtain ⟨rfl, rfl⟩ := Prod.mk.inj hreply
    exact hok
  · exact hfail hmay e

theorem keeps_remove {space id : String} {m : Memory}
    {post : Except StorageError Unit → Memory → Prop}
    (hallow : allow (.delete (recordKey space id)) m)
    (hok : post (.ok ()) (Dict.unset m (recordKey space id)))
    (hfail : mayFail (.delete (recordKey space id)) m → ∀ e, post (.error e) m) :
    Keeps (Flaky mayFail) allow post (remove space id).run m := by
  refine ⟨hallow, ?_⟩
  rintro reply m' (hreply | ⟨hmay, rfl, e, -, rfl⟩)
  · obtain ⟨rfl, rfl⟩ := Prod.mk.inj hreply
    exact hok
  · exact hfail hmay e

/-- Reading a record that may be missing gives the record there is. -/
theorem keeps_retrieve {space id : String} {read : Document → Decoded α} {m : Memory}
    {post : Except StorageError (Option α) → Memory → Prop}
    (hallow : allow (.get (recordKey space id)) m)
    (hok : post (.ok (record? space id read m)) m) (hfail : ∀ e, post (.error e) m) :
    Keeps (Flaky mayFail) allow post (retrieve? space id read).run m := by
  rw [retrieve_eq]
  refine ⟨hallow, ?_⟩
  rintro reply m' (hreply | ⟨-, rfl, e, he, rfl⟩)
  · obtain ⟨rfl, rfl⟩ := Prod.mk.inj hreply
    unfold record? at hok
    cases hbytes : Dict.get? m' (recordKey space id) with
    | none =>
      rw [hbytes] at hok
      exact hok
    | some bytes =>
      rw [hbytes] at hok
      show post ((decode read bytes).map some) m'
      cases hdecode : decode read bytes with
      | ok a => simpa [hdecode, Except.toOption, Except.map] using hok
      | error e => exact hfail e
  · cases e with
    | notFound => exact absurd rfl (he _ rfl)
    | serialization _ | backend _ | configuration _ => exact hfail _

end Memory

end PriceOracle.Storage
