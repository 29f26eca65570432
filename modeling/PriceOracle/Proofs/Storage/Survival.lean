import PriceOracle.Proofs.Registry.Rows
import PriceOracle.Proofs.Storage.Refinement

/-!
# Stored rows come back

A row of the registry that is stored is retrieved as it was, and so is the order, whatever was asked
about other records in between. Equality of rows is equality of everything in them: texts character
by character, and decimals with their scale.

* `storeThen`: a record is stored, other things are done, and a last access is made.
* `run_storeThen`: the last access finds the record as it was stored.
* `Survives`: a value is retrieved as it was stored, on either backend.
* `rows_come_back`: rows and orders survive.
-/

namespace PriceOracle

/-- A zero that is written with a sign is read as the zero without it, at the same scale. -/
theorem Decimal.ofNumeral_minus_zero {d : Decimal} (h : d.coefficient = 0) :
    ofNumeral? ('-' :: d.text.toList) = some d := by
  obtain ⟨whole, fraction, hchars, hne, hwhole, hfraction, hscale, hvalue⟩ := chars_split d
  have hunsigned : d.isNegative = false := by
    rw [isNegative, h]
    rfl
  have hparts : signed? true d.coefficient.natAbs d.scale = some d := by
    rw [← signed_parts d, hunsigned, h]
    rfl
  have hread := whole_point true hne hwhole hfraction (hscale ▸ d.scale_le)
    (hvalue ▸ d.coefficient_lt)
  rw [hscale, hvalue, hparts] at hread
  have hplain : ofPlain? ('-' :: d.chars) = some d := by
    rw [hchars, hunsigned]
    exact hread
  rw [text, String.toList_ofList, ofNumeral?, hplain]
  rfl

namespace Storage

open File (Fits Shows keyOf)

variable {α β : Type} {space id : String} {m : Memory}
  {answer : (r : interface.Request) → Memory → interface.Reply r × Memory}

/-! ## One record -/

/-- Stores a record, does other things, and makes a last access to storage. -/
def storeThen (space id : String) (j : Json) (others : Program interface β) (last : Access α) :
    Access α := do
  store space id j
  let _ ← (ExceptT.lift others : Access β)
  last

/-- Requests about other records leave a record as it is. -/
theorem Local.contents_run (hlocal : Local answer) {key : String} {p : Program interface β}
    (hp : p.Makes fun r => keyOf r ≠ key) (m : Memory) :
    (p.run answer m).2.contents key = m.contents key := by
  induction p generalizing m with
  | done b => rfl
  | ask r next ih => exact (ih _ (hp.2 _) _).trans (hlocal.others r m hp.1.symm)

/-- The last access finds the record as it was stored. -/
theorem run_storeThen (hlocal : Local answer)
    (hown : ∀ r m, keyOf r = recordKey space id → answer r m = Memory.answer r m) (j : Json)
    {others : Program interface β} (hothers : others.Makes fun r => keyOf r ≠ recordKey space id)
    (last : Access α) (m : Memory) :
    ∃ m' : Memory, m'.contents (recordKey space id) = some (encode j) ∧
      ((storeThen space id j others last).run.run answer m).1 = (last.run.run answer m').1 := by
  let stored : Memory := Dict.set (recordKey space id) (encode j) m
  refine ⟨(others.run answer stored).2, ?_, ?_⟩
  · rw [hlocal.contents_run hothers]
    exact Dict.get?_set_self m _ _
  · have hset : answer (.set (recordKey space id) (encode j)) m = (.ok (), stored) :=
      hown (.set (recordKey space id) (encode j)) m rfl
    have hstore : (store space id j).run.run answer m = (.ok (), stored) := hset
    have hlift : (ExceptT.lift others : Access β).run.run answer stored
        = (.ok (others.run answer stored).1, (others.run answer stored).2) :=
      Program.run_bind answer others _ stored
    rw [storeThen, Attempt.run_bind, Program.run_bind, hstore]
    show ((ExceptT.lift others >>= fun _ => last : Access α).run.run answer stored).1 = _
    rw [Attempt.run_bind, Program.run_bind, hlift]

/-- A record is retrieved that is there and can be decoded. -/
theorem run_retrieve_found
    (hown : ∀ r m, keyOf r = recordKey space id → answer r m = Memory.answer r m)
    {read : Document → Decoded α} {bytes : ByteArray} {a : α}
    (hthere : m.contents (recordKey space id) = some bytes) (hdecode : decode read bytes = .ok a) :
    ((retrieve space id read).run.run answer m).1 = .ok a ∧
      ((retrieve? space id read).run.run answer m).1 = .ok (some a) := by
  have hget : answer (.get (recordKey space id)) m = (.ok bytes, m) := by
    change Dict.get? m _ = _ at hthere
    rw [hown (.get (recordKey space id)) m rfl, Memory.answer, hthere]
    rfl
  constructor
  · have hread : (get (recordKey space id)).run.run answer m = (.ok bytes, m) := hget
    rw [retrieve, Attempt.run_bind, Program.run_bind, hread]
    exact hdecode
  · rw [retrieve_eq]
    show found read (answer (.get (recordKey space id)) m).1 = _
    rw [hget, found, hdecode]
    rfl

/-! ## Values that survive -/

/-- A value whose record is retrieved as it was stored, from memory and from files whose names can
be used, whatever else is asked of storage about other records. -/
def Survives (j : Json) (read : Document → Decoded α) (a : α) : Prop :=
  ∀ (space id : String) {β : Type} (others : Program interface β),
    (others.Makes fun r => keyOf r ≠ recordKey space id) →
    let retrieved := (storeThen space id j others (retrieve space id read)).run
    let optional := (storeThen space id j others (retrieve? space id read)).run
    (∀ m : Memory, (retrieved.run Memory.answer m).1 = .ok a ∧
      (optional.run Memory.answer m).1 = .ok (some a)) ∧
    ∀ (d : Directory) (m : Memory), Shows d m → Fits (recordKey space id) →
      ((retrieved.through File.answer).run Directory.answer d).1 = .ok a ∧
        ((optional.through File.answer).run Directory.answer d).1 = .ok (some a)

/-- What is decoded from its record survives. -/
theorem survives_of_decode {j : Json} {read : Document → Decoded α} {a : α}
    (hdecode : decode read (encode j) = .ok a) : Survives j read a := by
  intro space id β others hothers retrieved optional
  -- Both backends answer requests about the record as memory does.
  have hboth : ∀ {answer : (r : interface.Request) → Memory → interface.Reply r × Memory},
      Local answer → (∀ r m, keyOf r = recordKey space id → answer r m = Memory.answer r m) →
      ∀ m : Memory, (retrieved.run answer m).1 = .ok a ∧
        (optional.run answer m).1 = .ok (some a) := by
    intro answer hlocal hown m
    obtain ⟨m₁, hthere₁, hrun₁⟩ := run_storeThen hlocal hown j hothers (retrieve space id read) m
    obtain ⟨m₂, hthere₂, hrun₂⟩ := run_storeThen hlocal hown j hothers (retrieve? space id read) m
    exact ⟨hrun₁.trans (run_retrieve_found hown hthere₁ hdecode).1,
      hrun₂.trans (run_retrieve_found hown hthere₂ hdecode).2⟩
  refine ⟨hboth local_memory fun _ _ _ => rfl, ?_⟩
  intro d m hshows hfits
  rw [(hshows.run retrieved).1, (hshows.run optional).1]
  refine hboth local_serve ?_ m
  intro r m hkey
  exact File.serve_of_fits (hkey ▸ hfits) m

end Storage

open Storage (Survives storeThen retrieve recordKey)
open Storage.File (Fits Shows keyOf)

namespace Registry

/-- Every row that is stored is retrieved as it was, and so is every order: on either backend,
whatever is asked about other records in between. A zero has no sign; one that is written with a
sign is read as zero at the same scale. -/
theorem rows_come_back :
    (∀ row : Row, Survives row.toJson Row.decode row) ∧
    (∀ order : List OracleId,
      Survives (.arr (order.map .str)) (Document.asList Document.asString) order) ∧
    ∀ d : Decimal, d.coefficient = 0 → (Document.str ("-" ++ d.text)).asDecimal = .ok d := by
  refine ⟨?_, ?_, ?_⟩
  · intro row
    exact Storage.survives_of_decode (decode_row row)
  · intro order
    exact Storage.survives_of_decode (decode_order order)
  · intro d hzero
    have htext : ("-" ++ d.text).toList = '-' :: d.text.toList := by
      rw [String.toList_append]
      rfl
    show Decoded.ofOption (Decimal.ofNumeral? _) = _
    rw [htext, Decimal.ofNumeral_minus_zero hzero]
    rfl

/-- A row whose texts have to be escaped, of a source that is a contract, with a submission pending
whose answer is a zero of 28 places. -/
def quotedRow : Row where
  config :=
    { id := "eth\"usd\\\n\u0007"
      source := .contract ⟨18446744073709551615, "http://node.test/?q=\"", some "/keys/é"⟩
        ⟨List.replicate 20 171, rfl⟩ "latestPrice()"
      threshold := 3
      destination := ⟨⟨List.replicate 20 5, rfl⟩, ⟨31337, "http://node.test", none⟩, 8⟩ }
  bookkeeping :=
    { Bookkeeping.initial with
      lastRound := 7
      lastValue := some ⟨-150, 2, by decide, by decide⟩
      halted := some "no\tway"
      pending := some ⟨⟨[0, 255]⟩, 8, { Decimal.zero with scale := 28, scale_le := by decide }⟩ }

/-- The row comes back from memory and from files, another one having been removed. -/
theorem rows_come_back_quoted :
    let id := quotedRow.config.id
    let others := (Storage.remove rowSpace "btc-usd").run
    let retrieved :=
      (storeThen rowSpace id quotedRow.toJson others (retrieve rowSpace id Row.decode)).run
    (others.Makes fun r => keyOf r ≠ recordKey rowSpace id) ∧
    Shows Directory.empty [] ∧ Fits (recordKey rowSpace id) ∧
    (retrieved.run Storage.Memory.answer []).1 = .ok quotedRow ∧
    ((retrieved.through Storage.File.answer).run Directory.answer Directory.empty).1
      = .ok quotedRow := by
  intro id others retrieved
  have hothers : others.Makes fun r => keyOf r ≠ recordKey rowSpace id :=
    ⟨by decide, fun _ => trivial⟩
  have hfits : Fits (recordKey rowSpace id) := by
    rw [Fits, Storage.File.recordName, Storage.File.stem_eq]
    decide
  obtain ⟨hmemory, hfiles⟩ := rows_come_back.1 quotedRow rowSpace id others hothers
  exact ⟨hothers, Storage.File.shows_empty, hfits, (hmemory []).1,
    (hfiles _ _ Storage.File.shows_empty hfits).1⟩

end Registry

end PriceOracle
