import PriceOracle.Oracle.Codec
import PriceOracle.Proofs.Decimal.Numeral
import PriceOracle.Proofs.Json.RoundTrip

/-!
# Stored oracles read back

Every type that is stored is decoded from the document of its JSON value to itself. The JSON values
are `Json.Plain`, so that this holds of their text as well. There is one lemma for each type, tagged
for `simp`, so that the lemma of a record follows from those of its fields.
-/

namespace PriceOracle

open Document (ofJson ofItems ofMembers)

/-! ## Records -/

namespace Record

/-- A record as it is read from an object that holds known names only, each once. -/
def ofNamed (members : List (String × Json)) : Record := ⟨ofMembers members, false, false, false⟩

/-- The names of an object are those of its document. -/
theorem map_fst_ofMembers (members : List (String × Json)) :
    (ofMembers members).map (·.1) = members.map (·.1) := by
  induction members with
  | nil => rfl
  | cons member rest ih =>
    obtain ⟨key, value⟩ := member
    simp [ofMembers, ih]

/-- Where all names are known, none is left out. -/
theorem filter_ofMembers {names : List String} {members : List (String × Json)}
    (hknown : (members.map (·.1)).all names.contains = true) :
    (ofMembers members).filter (fun m => names.contains m.1) = ofMembers members := by
  refine List.filter_eq_self.mpr fun m hm => List.all_eq_true.mp hknown m.1 ?_
  rw [← map_fst_ofMembers]
  exact List.mem_map_of_mem hm

/-- Decoding an object of known names builds from its members. -/
theorem decode_obj {names : List String} {members : List (String × Json)}
    (hknown : (members.map (·.1)).all names.contains = true)
    (hdistinct : hasRepeat (members.map (·.1)) = false) (build : Record → Decoded α) :
    decode names build (ofJson (.obj members)) = build (ofNamed members) := by
  have hrecord : ofDocument names (ofJson (.obj members)) = .ok (ofNamed members) := by
    let known := (ofMembers members).filter fun m => names.contains m.1
    show Decoded.ok (Record.mk known false (Document.anyMemberCut (ofMembers members))
      (hasRepeat (known.map (·.1)))) = _
    have hall : known = ofMembers members := filter_ofMembers hknown
    rw [hall, (Document.whole_ofMembers members).1, map_fst_ofMembers, hdistinct, ofNamed]
  rw [decode, hrecord]
  show (fun a _ => a) <$> build (ofNamed members) <*> Decoded.ok () = build (ofNamed members)
  cases build (ofNamed members) <;> rfl

/-- The first field is found under its own name. -/
@[simp] theorem find_ofNamed_cons_self (key : String) (value : Json)
    (rest : List (String × Json)) :
    (ofNamed ((key, value) :: rest)).find? key = some (ofJson value) := by
  simp [find?, ofNamed, ofMembers]

/-- A field of another name is looked for behind the first one. -/
theorem find_ofNamed_cons_of_ne {key other : String} (h : other ≠ key) (value : Json)
    (rest : List (String × Json)) :
    (ofNamed ((key, value) :: rest)).find? other = (ofNamed rest).find? other := by
  have hne : (other == key) = false := by simpa using h
  simp [find?, ofNamed, ofMembers, List.lookup_cons, hne]

@[simp] theorem find_ofNamed_nil (key : String) : (ofNamed []).find? key = none := rfl

end Record

/-! ## Parts -/

namespace Document

@[simp] theorem asString_str (s : String) : (ofJson (.str s)).asString = .ok s := rfl

/-- A number is read back where it stays below the bound of its type. -/
theorem asNatBelow_nat {bound n : Nat} (h : n < bound) :
    (ofJson (.nat n)).asNatBelow bound = .ok n := by
  have hint : (0 : Int) ≤ n ∧ (n : Int) < bound := by omega
  simp [Json.nat, ofJson, asNatBelow, resolved, hint]

@[simp] theorem asUInt64_nat (n : UInt64) : (ofJson (.nat n.toNat)).asUInt64 = .ok n := by
  rw [asUInt64, asNatBelow_nat n.toNat_lt, Decoded.map_ok, UInt64.ofNat_toNat]

@[simp] theorem asUInt32_nat (n : UInt32) : (ofJson (.nat n.toNat)).asUInt32 = .ok n := by
  rw [asUInt32, asNatBelow_nat n.toNat_lt, Decoded.map_ok, UInt32.ofNat_toNat]

@[simp] theorem asUInt8_nat (n : UInt8) : (ofJson (.nat n.toNat)).asUInt8 = .ok n := by
  rw [asUInt8, asNatBelow_nat n.toNat_lt, Decoded.map_ok, UInt8.ofNat_toNat]

/-- Decimals are stored as texts, so that no digit goes through a double. -/
@[simp] theorem asDecimal_toJson (d : Decimal) : (ofJson d.toJson).asDecimal = .ok d := by
  simp [Decimal.toJson, ofJson, asDecimal, resolved, Decimal.ofNumeral_text]

@[simp] theorem asAddress_text (a : Address) : (ofJson (.str a.text)).asAddress = .ok a := by
  simp [ofJson, asAddress, resolved, Address.ofText_text]

/-- Items that are decoded one by one are decoded together. -/
theorem decodeItems_map {write : α → Json} {decode : Document → Decoded α} {items : List α}
    (h : ∀ a ∈ items, decode (ofJson (write a)) = .ok a) :
    decodeItems decode (ofItems (items.map write)) = .ok items := by
  induction items with
  | nil => rfl
  | cons a rest ih =>
    have ha := h a (List.mem_cons_self ..)
    have hrest := ih fun b hb => h b (List.mem_cons_of_mem _ hb)
    simp [ofItems, decodeItems, ha, hrest]

/-- A list is read back when each of its items is. -/
theorem asList_arr {write : α → Json} {decode : Document → Decoded α} (items : List α)
    (h : ∀ a ∈ items, decode (ofJson (write a)) = .ok a) :
    (ofJson (.arr (items.map write))).asList decode = .ok items := by
  simpa [ofJson, asList, isBlank, resolved] using decodeItems_map h

/-- An option is written as null or as its value, which is not written as null. -/
theorem asOption_ofOption (write : α → Json) {decode : Document → Decoded α} (o : Option α)
    (h : ∀ a, decode (ofJson (write a)) = .ok a) (hnull : ∀ a, write a ≠ .null) :
    (ofJson (.ofOption write o)).asOption decode = .ok o := by
  cases o with
  | none => rfl
  | some a =>
    have hvalue := h a
    have hne := hnull a
    unfold Json.ofOption asOption
    rw [resolved_ofJson]
    -- Of the kinds of values only null would be read as none.
    cases hj : write a <;> simp_all [ofJson]

end Document

/-! ## Stored types -/

@[simp] theorem TxHash.decode_toJson (h : TxHash) : TxHash.decode (ofJson h.toJson) = .ok h := by
  have hbytes : (ofJson (.arr (h.bytes.map fun b => .nat b.toNat))).asList Document.asUInt8
      = .ok h.bytes := Document.asList_arr h.bytes fun b _ => Document.asUInt8_nat b
  rw [TxHash.decode, TxHash.toJson, hbytes]
  rfl

@[simp] theorem Endpoint.decode_toJson (e : Endpoint) :
    Endpoint.decode (ofJson e.toJson) = .ok e := by
  obtain ⟨chainId, url, path⟩ := e
  cases path with
  | none =>
    simp only [Endpoint.toJson, List.append_nil]
    rw [Endpoint.decode, Record.decode_obj rfl rfl]
    simp [Record.required, Record.optional, Record.withDefault, Record.find_ofNamed_cons_of_ne]
  | some path =>
    simp only [Endpoint.toJson, List.cons_append, List.nil_append]
    rw [Endpoint.decode, Record.decode_obj rfl rfl]
    simp [Record.required, Record.optional, Record.withDefault, Record.find_ofNamed_cons_of_ne,
      Document.asOption]
    rfl

/-- A tagged object is decoded from the members behind its tag. -/
theorem Source.decode_tagged (name : String) (fields : List (String × Json))
    (hfields : (fields.map (·.1)).contains "type" = false) :
    Source.decode (ofJson (.obj (("type", .str name) :: fields)))
      = (Source.decodeTagged (.str name) (ofJson (.obj fields))).shapeOnly := by
  have hother : ∀ m ∈ ofMembers fields, m.1 ≠ "type" := by
    intro m hm htype
    have hmem : "type" ∈ fields.map (·.1) := by
      rw [← Record.map_fst_ofMembers, ← htype]
      exact List.mem_map_of_mem hm
    rw [List.contains_iff_mem.mpr hmem] at hfields
    cases hfields
  have htag : (("type", ofJson (.str name)) :: ofMembers fields).filter (·.1 = "type")
      = [("type", .str name)] := by
    rw [List.filter_cons_of_pos (by simp)]
    rw [List.filter_eq_nil_iff.mpr fun m hm => by simpa using hother m hm]
    rfl
  have hrest : (("type", ofJson (.str name)) :: ofMembers fields).filter (·.1 ≠ "type")
      = ofMembers fields := by
    rw [List.filter_cons_of_neg (by simp)]
    exact List.filter_eq_self.mpr fun m hm => by simpa using hother m hm
  rw [Source.decode, (Document.whole_ofJson _).2, Document.resolved_ofJson]
  simp only [ofJson, ofMembers] at htag hrest ⊢
  rw [htag, hrest]
  rfl

theorem Source.decodeHttp_obj (url path : String) :
    Source.decodeHttp (ofJson (.obj [("url", .str url), ("json_path", .str path)]))
      = .ok (.http url path) := by
  rw [Source.decodeHttp, Record.decode_obj rfl rfl]
  simp [Record.required, Record.find_ofNamed_cons_of_ne]

theorem Source.decodeContract_obj (endpoint : Endpoint) (target : Address) (method : String) :
    Source.decodeContract (ofJson (.obj [("provider", endpoint.toJson),
      ("target_address", .str target.text), ("method", .str method)]))
      = .ok (.contract endpoint target method) := by
  rw [Source.decodeContract, Record.decode_obj rfl rfl]
  simp [Record.required, Record.find_ofNamed_cons_of_ne]

theorem Source.decodeTagged_http (fields : Document) :
    Source.decodeTagged (.str "http") fields = Source.decodeHttp fields.settled := by
  simp [Source.decodeTagged, Document.asString, Decoded.andThen]

theorem Source.decodeTagged_evm (fields : Document) :
    Source.decodeTagged (.str "evm") fields = Source.decodeContract fields.settled := by
  simp [Source.decodeTagged, Document.asString, Decoded.andThen]

/-- A source is stored with a tag, which is taken out before its fields are decoded. -/
@[simp] theorem Source.decode_toJson (s : Source) : Source.decode (ofJson s.toJson) = .ok s := by
  cases s with
  | http url path =>
    rw [Source.toJson, Source.decode_tagged _ _ (by simp), Source.decodeTagged_http,
      Document.settled_ofJson, Source.decodeHttp_obj]
    rfl
  | contract endpoint target method =>
    rw [Source.toJson, Source.decode_tagged _ _ (by simp), Source.decodeTagged_evm,
      Document.settled_ofJson, Source.decodeContract_obj]
    rfl

@[simp] theorem Destination.decode_toJson (d : Destination) :
    Destination.decode (ofJson d.toJson) = .ok d := by
  rw [Destination.decode, Destination.toJson, Record.decode_obj rfl rfl]
  simp [Record.required, Record.withDefault, Record.find_ofNamed_cons_of_ne]

@[simp] theorem OracleConfig.decode_toJson (c : OracleConfig) :
    OracleConfig.decode (ofJson c.toJson) = .ok c := by
  rw [OracleConfig.decode, OracleConfig.toJson, Record.decode_obj rfl rfl]
  simp [Record.required, Record.find_ofNamed_cons_of_ne]

/-- The pending submission comes back, so that a restart settles it as the same one. -/
@[simp] theorem Pending.decode_toJson (p : Pending) : Pending.decode (ofJson p.toJson) = .ok p := by
  rw [Pending.decode, Pending.toJson, Record.decode_obj rfl rfl]
  simp [Record.required, Record.find_ofNamed_cons_of_ne]

/-- Bookkeeping comes back whole, with what is pending, with its halt and with its counts. -/
@[simp] theorem Bookkeeping.decode_toJson (b : Bookkeeping) :
    Bookkeeping.decode (ofJson b.toJson) = .ok b := by
  have hattempt := Document.asOption_ofOption (fun t : UInt64 => .nat t.toNat)
    b.lastAttempt Document.asUInt64_nat fun _ h => by cases h
  have hvalue := Document.asOption_ofOption Decimal.toJson b.lastValue
    Document.asDecimal_toJson fun _ h => by cases h
  have hhalted := Document.asOption_ofOption Json.str b.halted
    Document.asString_str fun _ h => by cases h
  have hpending := Document.asOption_ofOption Pending.toJson b.pending
    Pending.decode_toJson fun _ h => by cases h
  rw [Bookkeeping.decode, Bookkeeping.toJson, Record.decode_obj rfl rfl]
  simp [Record.required, Record.nullable, Record.find_ofNamed_cons_of_ne, hattempt, hvalue,
    hhalted, hpending]

/-- A row comes back as it was. -/
@[simp] theorem Row.decode_toJson (r : Row) : Row.decode (ofJson r.toJson) = .ok r := by
  rw [Row.decode, Row.toJson, Record.decode_obj rfl rfl]
  simp [Record.required, Record.withDefault, Record.find_ofNamed_cons_of_ne]

/-! ## Stored values are plain -/

namespace Json

/-- Only numbers of at most 64 bits are written as integers that are read back. -/
theorem plain_nat {n : Nat} (h : n < 2 ^ 64) (room : Nat) : Plain room (.nat n) := by
  show -(2 ^ 63) ≤ (n : Int) ∧ (n : Int) < 2 ^ 64
  omega

@[simp] theorem plain_uint64 (n : UInt64) (room : Nat) : Plain room (.nat n.toNat) :=
  plain_nat n.toNat_lt room

@[simp] theorem plain_uint32 (n : UInt32) (room : Nat) : Plain room (.nat n.toNat) :=
  plain_nat (Nat.lt_trans n.toNat_lt (by decide)) room

@[simp] theorem plain_str (s : String) (room : Nat) : Plain room (.str s) := trivial

@[simp] theorem plain_decimal (d : Decimal) (room : Nat) : Plain room d.toJson := trivial

/-- What is not there is written as `null`, which is plain at any depth. -/
theorem plain_ofOption {write : α → Json} (room : Nat) (o : Option α)
    (h : ∀ a, Plain room (write a)) : Plain room (.ofOption write o) := by
  cases o with
  | none => exact trivial
  | some a => exact h a

/-- A list is plain when each of its items is. -/
theorem plainItems_map {write : α → Json} {room : Nat} {items : List α}
    (h : ∀ a ∈ items, Plain room (write a)) : PlainItems room (items.map write) := by
  induction items with
  | nil => exact trivial
  | cons a rest ih =>
    have hrest := ih fun b hb => h b (List.mem_cons_of_mem _ hb)
    exact ⟨h a (List.mem_cons_self ..), hrest⟩

end Json

open Json (Plain PlainMembers)

/-- The bytes of a hash are a list of numbers, one level of nesting. -/
@[simp] theorem TxHash.plain (h : TxHash) (room : Nat) : Plain (room + 1) h.toJson := by
  refine ⟨Nat.succ_pos _, Json.plainItems_map fun b _ => Json.plain_nat ?_ _⟩
  exact Nat.lt_trans b.toNat_lt (by decide)

@[simp] theorem Endpoint.plain (e : Endpoint) (room : Nat) : Plain (room + 1) e.toJson := by
  obtain ⟨chainId, url, path⟩ := e
  cases path <;> simp [Endpoint.toJson, Plain, PlainMembers]

@[simp] theorem Source.plain (s : Source) (room : Nat) : Plain (room + 2) s.toJson := by
  cases s <;> simp [Source.toJson, Plain, PlainMembers]

@[simp] theorem Destination.plain (d : Destination) (room : Nat) : Plain (room + 2) d.toJson := by
  simp [Destination.toJson, Plain, PlainMembers]

@[simp] theorem OracleConfig.plain (c : OracleConfig) (room : Nat) :
    Plain (room + 3) c.toJson := by
  simp [OracleConfig.toJson, Plain, PlainMembers]

@[simp] theorem Pending.plain (p : Pending) (room : Nat) : Plain (room + 2) p.toJson := by
  simp [Pending.toJson, Plain, PlainMembers]

@[simp] theorem Bookkeeping.plain (b : Bookkeeping) (room : Nat) : Plain (room + 3) b.toJson := by
  have hattempt := Json.plain_ofOption (room + 2) b.lastAttempt fun t =>
    Json.plain_uint64 t _
  have hvalue := Json.plain_ofOption (room + 2) b.lastValue fun v => Json.plain_decimal v _
  have hhalted := Json.plain_ofOption (room + 2) b.halted fun s => Json.plain_str s _
  have hpending := Json.plain_ofOption (room + 2) b.pending fun p => Pending.plain p room
  simp [Bookkeeping.toJson, Plain, PlainMembers, hattempt, hvalue, hhalted, hpending]

/-- A row nests four levels deep, far less than readers accept. -/
theorem Row.plain (r : Row) (room : Nat) : Plain (room + 4) r.toJson := by
  simp [Row.toJson, Plain, PlainMembers]

end PriceOracle
