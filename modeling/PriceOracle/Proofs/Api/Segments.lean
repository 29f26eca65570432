import PriceOracle.Api.Route
import PriceOracle.Api.Segment
import PriceOracle.Proofs.Text.Bytes
import PriceOracle.Proofs.Text.Pieces

/-!
# Segments that name an id

An id stands in a path as one segment. Each byte of it is written as the character that it is, where
that character may stand in a segment, or as a percent sign and two hexadecimal digits. Clients
differ in what they escape beyond the bytes that they have to, and in the case of the digits.

* `Segment.Names`: the segments that may be written for an id. `encode` writes one of them.
* `Segment.decode_of_names`: the id is read back from all of them.
* `Route.ofPath_oracle`, `Route.ofPath_resync`: a path with such a segment is cut where it was put
  together. It leads to a place unless the segment is empty, and the only empty segment is that of
  the empty id (`Segment.Names.eq_empty_iff`).
-/

namespace PriceOracle.Api

namespace Segment

/-! ## What may be written -/

/-- The marks that may stand for themselves in a segment. -/
def marks : List Char := "-._~!$&'()*+,;=:@".toList

/-- A character that may stand for itself in a segment. -/
def stands (c : Char) : Bool := c.isAlphanum || marks.contains c

/-- How a byte may be written. -/
inductive Writes : UInt8 → List Char → Prop where
  | plain {c : Char} (h : stands c = true) : Writes (byteOf c) [c]
  | escaped {b : UInt8} {high low : Char} (hhigh : Hex.value? high = some (b.toNat / 16))
    (hlow : Hex.value? low = some (b.toNat % 16)) : Writes b ['%', high, low]

/-- How bytes may be written, one after the other. -/
inductive Written : List UInt8 → List Char → Prop where
  | nil : Written [] []
  | cons {b : UInt8} {bytes : List UInt8} {piece cs : List Char} :
    Writes b piece → Written bytes cs → Written (b :: bytes) (piece ++ cs)

/-- A segment that may be written for an id. -/
def Names (segment id : String) : Prop := Written id.toUTF8.toList segment.toList

variable {c : Char} {cs : List Char} {b : UInt8} {bytes : List UInt8} {segment id : String}
  {n : Nat}

theorem alphanum_iff : c.isAlphanum = true ↔ 65 ≤ c.toNat ∧ c.toNat ≤ 90 ∨
    97 ≤ c.toNat ∧ c.toNat ≤ 122 ∨ 48 ≤ c.toNat ∧ c.toNat ≤ 57 := by
  show (decide (65 ≤ c.val ∧ c.val ≤ 90) || (decide (97 ≤ c.val) && decide (c.val ≤ 122)) ||
    (decide (48 ≤ c.val) && decide (c.val ≤ 57))) = true ↔ _
  simp only [Bool.or_eq_true, Bool.and_eq_true, decide_eq_true_eq, UInt32.le_iff_toNat_le]
  rw [or_assoc]
  exact Iff.rfl

theorem alphanum_of_value (h : Hex.value? c = some n) : c.isAlphanum = true := by
  unfold Hex.value? at h
  split at h
  next hdigit => rw [Char.isAlphanum, hdigit, Bool.or_true]
  next =>
    rw [alphanum_iff]
    split at h
    next hlower =>
      have hlower : 97 ≤ c.toNat ∧ c.toNat ≤ 102 := hlower
      omega
    next =>
      split at h
      next hupper =>
        have hupper : 65 ≤ c.toNat ∧ c.toNat ≤ 70 := hupper
        omega
      next => cases h

/-- A digit of an escape could stand for itself. -/
theorem stands_of_value (h : Hex.value? c = some n) : stands c = true := by
  rw [stands, alphanum_of_value h, Bool.true_or]

/-- Characters that may stand in a segment are ASCII. -/
theorem ascii_of_stands (h : stands c = true) : c.toNat < 128 := by
  rw [stands, Bool.or_eq_true] at h
  rcases h with h | h
  · rw [alphanum_iff] at h
    omega
  · have hmarks : marks.all (·.toNat < 128) = true := by decide
    exact of_decide_eq_true (List.all_eq_true.mp hmarks c (List.contains_iff_mem.mp h))

/-- Besides the sign of an escape, all that is written could stand for itself. -/
theorem Written.stands (h : Written bytes cs) : ∀ c ∈ cs, c = '%' ∨ Segment.stands c = true := by
  induction h with
  | nil => exact nofun
  | cons hpiece _ ih =>
    intro c hc
    rcases List.mem_append.mp hc with hc | hc
    · cases hpiece with
      | plain hstands =>
        obtain rfl := List.mem_singleton.mp hc
        exact .inr hstands
      | escaped hhigh hlow =>
        simp only [List.mem_cons, List.not_mem_nil, or_false] at hc
        rcases hc with rfl | rfl | rfl
        · exact .inl rfl
        · exact .inr (stands_of_value hhigh)
        · exact .inr (stands_of_value hlow)
    · exact ih c hc

/-- However an id is written, its segment is ASCII. -/
theorem Written.ascii (h : Written bytes cs) : ∀ c ∈ cs, c.toNat < 128 := by
  intro c hc
  rcases h.stands c hc with rfl | hstands
  · decide
  · exact ascii_of_stands hstands

/-- A mark that divides paths and targets does not stand in a segment. -/
theorem Written.not_mem (h : Written bytes cs) (hsign : c ≠ '%')
    (hstands : Segment.stands c = false) : c ∉ cs := by
  intro hc
  rcases h.stands c hc with hc | hc
  · exact hsign hc
  · rw [hstands] at hc
    cases hc

/-- Only nothing is written as nothing. -/
theorem Written.eq_nil_iff (h : Written bytes cs) : cs = [] ↔ bytes = [] := by
  cases h with
  | nil => exact ⟨fun _ => rfl, fun _ => rfl⟩
  | cons hpiece _ => cases hpiece <;> exact ⟨nofun, nofun⟩

/-! ## Bytes and characters -/

/-- An ASCII character is its byte. -/
theorem toNat_byteOf (h : c.toNat < 128) : (byteOf c).toNat = c.toNat := by
  rw [byteOf, UInt8.toNat_ofNat']
  omega

theorem ofNat_byteOf (h : c.toNat < 128) : Char.ofNat (byteOf c).toNat = c := by
  rw [toNat_byteOf h, Char.ofNat_toNat]

/-- The bytes of a text in ASCII are those of its characters. -/
theorem bytes_of_ascii {s : String} (h : ∀ c ∈ s.toList, c.toNat < 128) :
    s.toUTF8.toList = s.toList.map byteOf := by
  have hchar : ∀ c ∈ s.toList, String.utf8EncodeChar c = [byteOf c] := by
    intro c hc
    have hle : c.val.toNat ≤ 127 := Nat.le_of_lt_succ (h c hc)
    exact if_pos hle
  rw [Text.toList_toUTF8, List.flatMap_congr hchar, ← List.map_eq_flatMap]

/-! ## Reading back -/

/-- Digits are read from bytes as they are from characters. -/
theorem digit_byteOf (h : c.toNat < 128) : digit? (byteOf c) = Hex.value? c := by
  have hlt : byteOf c < 128 := by
    rw [UInt8.lt_iff_toNat_lt, toNat_byteOf h]
    exact h
  rw [digit?, if_pos hlt, ofNat_byteOf h]

/-- A percent sign does not stand for itself. -/
theorem byteOf_ne_sign (h : stands c = true) : byteOf c ≠ byteOf '%' := by
  intro hsame
  have hnat := congrArg UInt8.toNat hsame
  rw [toNat_byteOf (ascii_of_stands h), toNat_byteOf (by decide)] at hnat
  obtain rfl : c = '%' := Char.toNat_inj.mp hnat
  exact absurd h (by decide)

/-- Bytes are read back from all their written forms, since a percent sign is always followed by two
digits. -/
theorem decode_written (h : Written bytes cs) : decodeBytes (cs.map byteOf) = bytes := by
  rw [decodeBytes]
  induction h with
  | nil => rfl
  | @cons b bytes piece cs hpiece _ ih =>
    rw [List.map_append]
    cases hpiece with
    | plain hstands =>
      show decodeFrom 0 (byteOf _ :: cs.map byteOf) = _
      rw [decodeFrom, if_neg (byteOf_ne_sign hstands), ih]
    | @escaped _ high low hhigh hlow =>
      have hvalue : escaped? (byteOf high :: byteOf low :: cs.map byteOf) = some b := by
        rw [escaped?, digit_byteOf (ascii_of_stands (stands_of_value hhigh)), hhigh,
          digit_byteOf (ascii_of_stands (stands_of_value hlow)), hlow]
        show some (UInt8.ofNat (b.toNat / 16 * 16 + b.toNat % 16)) = some b
        rw [Nat.div_add_mod', UInt8.ofNat_toNat]
      show decodeFrom 0 (byteOf '%' :: byteOf high :: byteOf low :: cs.map byteOf) = _
      rw [decodeFrom, if_pos rfl, hvalue]
      show b :: decodeFrom 0 (cs.map byteOf) = _
      rw [ih]

/-- The bytes of a text are the text. -/
theorem text_bytes (s : String) : text? s.toUTF8.toList = some s := by
  have hbytes : (⟨s.toUTF8.toList.toArray⟩ : ByteArray) = s.toUTF8 := by
    rw [Text.toList_bytes, Array.toArray_toList]
  rw [text?, hbytes, Text.fromUTF8?_toUTF8]

/-- Whichever segment is written for an id, the id is read back. -/
theorem decode_of_names (h : Names segment id) : decode? segment = some id := by
  rw [decode?, bytes_of_ascii h.ascii, decode_written h, text_bytes]

/-- Only the empty id has an empty segment. -/
theorem Names.eq_empty_iff (h : Names segment id) : segment = "" ↔ id = "" := by
  have hbytes : id.toUTF8.toList = [] ↔ id = "" := by
    constructor
    · intro hnil
      have htext := text_bytes id
      rw [hnil] at htext
      exact (Option.some.inj htext).symm
    · rintro rfl
      rw [Text.toList_bytes]
      rfl
  rw [← String.toList_eq_nil_iff, h.eq_nil_iff, hbytes]

/-! ## The usual segment -/

/-- A plain byte may stand as a character. -/
theorem ofNat_of_isPlain (h : isPlain b = true) :
    stands (Char.ofNat b.toNat) = true ∧ byteOf (Char.ofNat b.toNat) = b := by
  have hall : ∀ n, n < 256 → isPlain (UInt8.ofNat n) = true →
      stands (Char.ofNat n) = true ∧ byteOf (Char.ofNat n) = UInt8.ofNat n := by
    decide +kernel
  have hb := hall b.toNat b.toNat_lt
  rw [UInt8.ofNat_toNat] at hb
  exact hb h

/-- The encoder writes each byte in one of the ways that are read back. -/
theorem writes_encodeByte (b : UInt8) :
    Writes b ((encodeByte b).map fun b => Char.ofNat b.toNat) := by
  rw [encodeByte]
  split
  next hplain =>
    obtain ⟨hstands, hbyte⟩ := ofNat_of_isPlain hplain
    have hwrites := Writes.plain hstands
    rw [hbyte] at hwrites
    exact hwrites
  next =>
    have hb := b.toNat_lt
    have hhigh := Hex.value_digit (b.toNat / 16) (by omega)
    have hlow := Hex.value_digit (b.toNat % 16) (by omega)
    show Writes b ['%', Char.ofNat (byteOf _).toNat, Char.ofNat (byteOf _).toNat]
    rw [ofNat_byteOf (ascii_of_stands (stands_of_value hhigh)),
      ofNat_byteOf (ascii_of_stands (stands_of_value hlow))]
    exact .escaped hhigh hlow

/-- What escapes all but letters, digits and four marks names the id. -/
theorem names_encode (id : String) : Names (encode id) id := by
  rw [Names, encode, String.toList_ofList]
  induction id.toUTF8.toList with
  | nil => exact .nil
  | cons b bytes ih =>
    rw [List.flatMap_cons, List.map_append]
    exact .cons (writes_encodeByte b) ih

end Segment

namespace Route

variable {segment : String}

/-- A path is cut where it was put together. -/
theorem ofPath_join {pieces : List (List Char)} (hne : pieces ≠ [])
    (hpieces : ∀ piece ∈ pieces, '/' ∉ piece) :
    ofPath? ('/' :: Text.join '/' pieces) = ofSegments? pieces := by
  rw [ofPath?, Text.splitOn_join hne hpieces]

theorem named_toList (build : String → Route) (segment : String) :
    named build segment.toList = if segment = "" then none else some (build segment) := by
  rw [named, String.ofList_toList]
  simp only [List.isEmpty_iff, String.toList_eq_nil_iff]

/-- A path is cut at its slashes, and a segment has none. -/
theorem ofPath_oracle (h : '/' ∉ segment.toList) :
    ofPath? (oracle segment).path.toList
      = if segment = "" then none else some (oracle segment) := by
  have hpath : (oracle segment).path.toList
      = '/' :: Text.join '/' ["oracles".toList, segment.toList] := by
    simp [path, Text.join]
  rw [hpath, ofPath_join (List.cons_ne_nil _ _) (by simpa using h), ← named_toList]
  rfl

/-- The same of the place of a resync. -/
theorem ofPath_resync (h : '/' ∉ segment.toList) :
    ofPath? (resync segment).path.toList
      = if segment = "" then none else some (resync segment) := by
  have hpath : (resync segment).path.toList
      = '/' :: Text.join '/' ["oracles".toList, segment.toList, "resync".toList] := by
    simp [path, Text.join]
  rw [hpath, ofPath_join (List.cons_ne_nil _ _) (by simpa using h), ← named_toList]
  rfl

/-- A target that is nothing but a path. -/
theorem pathOf_path {route : Route} (hquery : '?' ∉ route.path.toList)
    (hfragment : '#' ∉ route.path.toList) : pathOf route.path = route.path.toList := by
  have hhead : route.path.toList.head? = some '/' := by
    cases route <;> simp [path]
  have hwhole : route.path.toList.takeWhile (fun c => c ≠ '?' && c ≠ '#') = route.path.toList := by
    refine List.takeWhile_eq_self_iff.mpr fun c hc => ?_
    have hc : c ≠ '?' ∧ c ≠ '#' := by
      constructor <;> rintro rfl
      · exact hquery hc
      · exact hfragment hc
    simp [hc]
  rw [pathOf, hwhole]
  exact if_pos hhead

end Route

end PriceOracle.Api
