import PriceOracle.Json.Reader
import PriceOracle.Document.Decode
import PriceOracle.Proofs.Json.Token

/-!
# Written JSON reads back

`Json.read` gives back every value that `Json.render` wrote, as a complete document
(`read_render`), as long as the value is nested no deeper than readers accept. All that outlives a
restart goes through such a text. The document of a value holds nothing that broke off and nothing
unreadable, so that decoders see the value alone.
-/

namespace PriceOracle.Json

/-- What reading does with a complete value: it ends, or adds the value to the innermost open
container and goes on. -/
def deliver (frames : List Frame) (value : Document) (rest : List Token) : Reading :=
  match frames with
  | [] => ⟨value, rest.isEmpty⟩
  | frame :: outer => build (frame.add value :: outer) .commaOrClose rest

/-- A place where a value may stand. -/
def Expect.takesValue : Expect → Prop
  | .value | .valueOrClose => True
  | _ => False

theorem capped_of_le {depth : Nat} (h : depth ≤ maxDepth) (d : Document) : capped depth d = d :=
  if_neg (Nat.not_lt.mpr h)

theorem build_scalar (frames : List Frame) {expect : Expect} (h : expect.takesValue)
    (value : Document) (rest : List Token) :
    build frames expect (.scalar value :: rest) = deliver frames value rest := by
  cases expect <;> first | exact h.elim | rfl

theorem build_string (frames : List Frame) {expect : Expect} (h : expect.takesValue)
    (s : String) (rest : List Token) :
    build frames expect (.string (some s) :: rest) = deliver frames (.str s) rest := by
  cases expect <;> first | exact h.elim | rfl

/-- A container that is closed is delivered, if it is not nested too deep. -/
theorem build_closeBracket (frames : List Frame) (items : List Document)
    (h : frames.length + 1 ≤ maxDepth) (rest : List Token) :
    build (.seq items :: frames) .commaOrClose (.closeBracket :: rest)
      = deliver frames (.seq items.reverse) rest := by
  show deliver frames (capped (frames.length + 1) _) rest = _
  rw [capped_of_le h]
  rfl

theorem build_closeBrace (frames : List Frame) (members : List (String × Document))
    (key : Option String) (h : frames.length + 1 ≤ maxDepth) (rest : List Token) :
    build (.map members key :: frames) .commaOrClose (.closeBrace :: rest)
      = deliver frames (.map members.reverse) rest := by
  show deliver frames (capped (frames.length + 1) _) rest = _
  rw [capped_of_le h]
  rfl

/-- In a map, a key and a colon are read before the value of the member. -/
theorem build_key (before : List (String × Document)) (last : Option String) (frames : List Frame)
    (key : String) {expect : Expect} (h : expect = .key ∨ expect = .keyOrClose)
    (rest : List Token) :
    build (.map before last :: frames) expect (.string (some key) :: .colon :: rest)
      = build (.map before (some key) :: frames) .value rest := by
  rcases h with rfl | rfl <;> rfl

mutual

/-- The tokens of a value are read as its document. -/
theorem build_tokens : (room : Nat) → (j : Json) → Plain room j → (frames : List Frame) →
    (expect : Expect) → (rest : List Token) → expect.takesValue →
    frames.length + room ≤ maxDepth →
    build frames expect (tokens j ++ rest) = deliver frames (Document.ofJson j) rest
  | _, .null, _, frames, _, rest, h, _ => build_scalar frames h .null rest
  | _, .bool b, _, frames, _, rest, h, _ => build_scalar frames h (.bool b) rest
  | _, .int n, _, frames, _, rest, h, _ => build_scalar frames h (.int n) rest
  | _, .str s, _, frames, _, rest, h, _ => build_string frames h s rest
  | room, .arr items, hplain, frames, expect, rest, h, hdepth => by
    have hroom := hplain.1
    have hopen : build frames expect (tokens (.arr items) ++ rest)
        = build (.seq [] :: frames) .valueOrClose
          (tokensOfItems items ++ .closeBracket :: rest) := by
      cases expect <;> first | exact h.elim | simp [tokens, build]
    rw [hopen]
    cases items with
    | nil =>
      -- An empty array is closed where a value might stand.
      have hcap : frames.length + 1 ≤ maxDepth := by omega
      show deliver frames (capped (frames.length + 1) _) rest = _
      rw [capped_of_le hcap]
      rfl
    | cons item items =>
      have hitems := build_tokensOfItems (room - 1) item items hplain.2 frames
        .valueOrClose [] rest trivial (by omega)
      simpa [Document.ofJson] using hitems
  | room, .obj members, hplain, frames, expect, rest, h, hdepth => by
    have hroom := hplain.1
    have hopen : build frames expect (tokens (.obj members) ++ rest)
        = build (.map [] none :: frames) .keyOrClose
          (tokensOfMembers members ++ .closeBrace :: rest) := by
      cases expect <;> first | exact h.elim | simp [tokens, build]
    rw [hopen]
    cases members with
    | nil =>
      -- An empty object is closed where a key might stand.
      have hcap : frames.length + 1 ≤ maxDepth := by omega
      show deliver frames (capped (frames.length + 1) _) rest = _
      rw [capped_of_le hcap]
      rfl
    | cons member members =>
      have hmembers := build_tokensOfMembers (room - 1) member members hplain.2 frames
        .keyOrClose [] none rest (.inr rfl) (by omega)
      simpa [Document.ofJson] using hmembers

/-- The tokens of items are read behind those that a sequence holds, up to its end. -/
theorem build_tokensOfItems : (room : Nat) → (item : Json) → (items : List Json) →
    PlainItems room (item :: items) → (frames : List Frame) → (expect : Expect) →
    (before : List Document) → (rest : List Token) → expect.takesValue →
    frames.length + 1 + room ≤ maxDepth →
    build (.seq before :: frames) expect (tokensOfItems (item :: items) ++ .closeBracket :: rest)
      = deliver frames (.seq (before.reverse ++ Document.ofItems (item :: items))) rest
  | room, item, [], hplain, frames, expect, before, rest, h, hdepth => by
    have hitem := build_tokens room item hplain.1 (.seq before :: frames) expect
      (.closeBracket :: rest) h (by simpa using hdepth)
    have hclose := build_closeBracket frames (Document.ofJson item :: before)
      (by omega) rest
    rw [tokensOfItems, hitem, deliver, Frame.add, hclose]
    simp [Document.ofItems]
  | room, item, next :: items, hplain, frames, expect, before, rest, h, hdepth => by
    have hitem := build_tokens room item hplain.1 (.seq before :: frames) expect
      (.comma :: (tokensOfItems (next :: items) ++ .closeBracket :: rest)) h (by simpa using hdepth)
    have hnext := build_tokensOfItems room next items hplain.2 frames .value
      (Document.ofJson item :: before) rest trivial hdepth
    have hcomma : build (.seq (Document.ofJson item :: before) :: frames) .commaOrClose
        (.comma :: (tokensOfItems (next :: items) ++ .closeBracket :: rest))
        = build (.seq (Document.ofJson item :: before) :: frames) .value
          (tokensOfItems (next :: items) ++ .closeBracket :: rest) := rfl
    simp only [tokensOfItems, List.append_assoc, List.cons_append]
    rw [hitem, deliver, Frame.add, hcomma, hnext]
    simp [Document.ofItems]

/-- The tokens of members are read behind those that a map holds, up to its end. -/
theorem build_tokensOfMembers : (room : Nat) → (member : String × Json) →
    (members : List (String × Json)) → PlainMembers room (member :: members) →
    (frames : List Frame) → (expect : Expect) →
    (before : List (String × Document)) → (last : Option String) → (rest : List Token) →
    expect = .key ∨ expect = .keyOrClose →
    frames.length + 1 + room ≤ maxDepth →
    build (.map before last :: frames) expect
        (tokensOfMembers (member :: members) ++ .closeBrace :: rest)
      = deliver frames (.map (before.reverse ++ Document.ofMembers (member :: members))) rest
  | room, (key, value), [], hplain, frames, expect, before, last, rest, h, hdepth => by
    have hvalue := build_tokens room value hplain.1 (.map before (some key) :: frames)
      .value (.closeBrace :: rest) trivial (by simpa using hdepth)
    have hclose := build_closeBrace frames ((key, Document.ofJson value) :: before)
      none (by omega) rest
    have hkey := build_key before last frames key h (tokens value ++ .closeBrace :: rest)
    rw [tokensOfMembers, List.cons_append, List.cons_append, hkey, hvalue, deliver, Frame.add]
    simp only [Option.getD_some]
    rw [hclose]
    simp [Document.ofMembers]
  | room, (key, value), next :: members, hplain, frames, expect, before, last, rest, h, hdepth => by
    have hvalue := build_tokens room value hplain.1 (.map before (some key) :: frames) .value
      (.comma :: (tokensOfMembers (next :: members) ++ .closeBrace :: rest)) trivial
      (by simpa using hdepth)
    have hnext := build_tokensOfMembers room next members hplain.2 frames
      .key ((key, Document.ofJson value) :: before) none rest (.inl rfl) hdepth
    have hkey := build_key before last frames key h
      (tokens value ++ .comma :: (tokensOfMembers (next :: members) ++ .closeBrace :: rest))
    have hcomma : build (.map ((key, Document.ofJson value) :: before) none :: frames) .commaOrClose
        (.comma :: (tokensOfMembers (next :: members) ++ .closeBrace :: rest))
        = build (.map ((key, Document.ofJson value) :: before) none :: frames) .key
          (tokensOfMembers (next :: members) ++ .closeBrace :: rest) := rfl
    simp only [tokensOfMembers, List.append_assoc, List.cons_append] at hkey ⊢
    rw [hkey, hvalue, deliver, Frame.add]
    simp only [Option.getD_some]
    rw [hcomma, hnext]
    simp [Document.ofMembers]

end

/-- Reading gives back what was written. -/
theorem read_render {j : Json} (h : Plain maxDepth j) :
    read j.render = ⟨Document.ofJson j, true⟩ := by
  have hscan := Token.scanFrom_render maxDepth j h Token.endsScalar_nil
  have hbuild := build_tokens maxDepth j h [] .value [] trivial
    (Nat.le_of_eq (Nat.zero_add _))
  have htokens : Token.scan j.render = tokens j ++ [] := by
    simpa [Token.scan, Token.scanFrom, Token.finish] using hscan
  rw [read, htokens, hbuild]
  rfl

theorem read_text {j : Json} (h : Plain maxDepth j) :
    read j.text.toList = ⟨Document.ofJson j, true⟩ := by
  rw [text, String.toList_ofList, read_render h]

end PriceOracle.Json

/-! ## The documents of values -/

namespace PriceOracle.Document

@[simp] theorem resolved_ofJson (j : Json) : (ofJson j).resolved = ofJson j := by
  cases j <;> rfl

mutual

/-- The document of a value neither breaks off nor holds anything unreadable. -/
theorem whole_ofJson : (j : Json) → (ofJson j).hasCut = false ∧ (ofJson j).hasFault = false
  | .null | .bool _ | .int _ | .float _ | .str _ => ⟨rfl, rfl⟩
  | .arr items => whole_ofItems items
  | .obj members => whole_ofMembers members

/-- `whole_ofJson` for items. -/
theorem whole_ofItems :
    (items : List Json) → anyCut (ofItems items) = false ∧ anyFault (ofItems items) = false
  | [] => ⟨rfl, rfl⟩
  | item :: rest => by
    have hitem := whole_ofJson item
    have hrest := whole_ofItems rest
    simp [ofItems, anyCut, anyFault, hitem, hrest]

/-- `whole_ofJson` for members. -/
theorem whole_ofMembers : (members : List (String × Json)) →
    anyMemberCut (ofMembers members) = false ∧ anyMemberFault (ofMembers members) = false
  | [] => ⟨rfl, rfl⟩
  | (_, value) :: rest => by
    have hvalue := whole_ofJson value
    have hrest := whole_ofMembers rest
    simp [ofMembers, anyMemberCut, anyMemberFault, hvalue, hrest]

end

mutual

@[simp] theorem settled_ofJson : (j : Json) → (ofJson j).settled = ofJson j
  | .null | .bool _ | .int _ | .float _ | .str _ => rfl
  | .arr items => by simp [ofJson, settled, settledItems_ofItems items]
  | .obj members => by simp [ofJson, settled, settledMembers_ofMembers members]

@[simp] theorem settledItems_ofItems :
    (items : List Json) → settledItems (ofItems items) = ofItems items
  | [] => rfl
  | item :: rest => by
    simp [ofItems, settledItems, settled_ofJson item, settledItems_ofItems rest]

@[simp] theorem settledMembers_ofMembers :
    (members : List (String × Json)) → settledMembers (ofMembers members) = ofMembers members
  | [] => rfl
  | (_, value) :: rest => by
    simp [ofMembers, settledMembers, settled_ofJson value, settledMembers_ofMembers rest]

end

end PriceOracle.Document
