import PriceOracle.Document
import PriceOracle.Decimal.Numeral
import PriceOracle.Address

/-!
# Typed decoders

A decoder makes a value of a domain type out of a document, or says what is wrong with it.
`Decoded` collects the parts of a record side by side. When several parts are at fault, a wrong
shape wins over a cut: text that breaks off is always behind everything that was read.

`Record` is a document taken as named fields, either a map or a sequence in declaration order.
Unknown names are ignored and repeated ones refused.
-/

namespace PriceOracle

/-- What is wrong with a document. -/
inductive Fault where
  /-- The text breaks off, or holds something no decoder can read. -/
  | cut
  /-- The value is there and has the wrong shape. -/
  | shape
  deriving DecidableEq

/-- The fault reported when two parts of a document are at fault. -/
def Fault.merge : Fault → Fault → Fault
  | .cut, .cut => .cut
  | _, _ => .shape

/-- The outcome of decoding. -/
inductive Decoded (α : Type) where
  | ok (value : α)
  | fault (kind : Fault)

namespace Decoded

def map (f : α → β) : Decoded α → Decoded β
  | ok a => ok (f a)
  | fault k => fault k

/-- Both parts of a record; two faults become one. -/
def seq : Decoded (α → β) → Decoded α → Decoded β
  | ok f, ok a => ok (f a)
  | fault k, ok _ => fault k
  | ok _, fault k => fault k
  | fault k, fault l => fault (k.merge l)

instance : Functor Decoded := ⟨map, fun a => map fun _ => a⟩

instance : Seq Decoded := ⟨fun f a => seq f (a ())⟩

/-- The value, when there is no fault. -/
def toOption : Decoded α → Option α
  | ok a => some a
  | fault _ => none

/-- Decodes on with the value. -/
def andThen : Decoded α → (α → Decoded β) → Decoded β
  | ok a, f => f a
  | fault k, _ => fault k

/-- Reports every fault as a wrong shape. -/
def shapeOnly : Decoded α → Decoded α
  | ok a => ok a
  | fault _ => fault .shape

/-- A value that was found or not. -/
def ofOption : Option α → Decoded α
  | some a => ok a
  | none => fault .shape

/-! `simp` runs the decoder of a record through these, once its fields are decoded. -/

@[simp] theorem map_ok (f : α → β) (a : α) : f <$> (ok a) = ok (f a) := rfl

@[simp] theorem ok_seq_ok (f : α → β) (a : α) : (ok f <*> ok a) = ok (f a) := rfl

@[simp] theorem ofOption_some (a : α) : ofOption (some a) = ok a := rfl

end Decoded

namespace Document

/-- The fault of a document that has none of the expected shapes. -/
def unexpected : Document → Decoded α
  | .cut | .unreadable => .fault .cut
  | _ => .fault .shape

/-- A string; a plain scalar is taken as it is written. -/
def asString : Document → Decoded String
  | .str s => .ok s
  | .plain text _ => .ok text
  | d => d.unexpected

def asBool (d : Document) : Decoded Bool :=
  match d.resolved with
  | .bool b => .ok b
  | d => d.unexpected

/-- A natural number below a bound. -/
def asNatBelow (bound : Nat) (d : Document) : Decoded Nat :=
  match d.resolved with
  | .int n => if 0 ≤ n ∧ n < bound then .ok n.toNat else .fault .shape
  | d => d.unexpected

def asUInt64 (d : Document) : Decoded UInt64 := UInt64.ofNat <$> d.asNatBelow (2 ^ 64)

def asUInt32 (d : Document) : Decoded UInt32 := UInt32.ofNat <$> d.asNatBelow (2 ^ 32)

def asUInt16 (d : Document) : Decoded UInt16 := UInt16.ofNat <$> d.asNatBelow (2 ^ 16)

def asUInt8 (d : Document) : Decoded UInt8 := UInt8.ofNat <$> d.asNatBelow (2 ^ 8)

/-- A decimal: a numeral in a string, an integer of 64 bits, or a double by its shortest plain
text. -/
def asDecimal (d : Document) : Decoded Decimal :=
  match d.resolved with
  | .str s => .ofOption (Decimal.ofNumeral? s.toList)
  | .int n =>
    if -(2 ^ 63) ≤ n ∧ n < 2 ^ 64 then .ofOption (Decimal.ofInt? n) else .fault .shape
  | .float x => .ofOption (Decimal.ofPlain? x.plainText)
  | d => d.unexpected

/-- The items of a sequence, each decoded. -/
def decodeItems (decode : Document → Decoded α) : List Document → Decoded (List α)
  | [] => .ok []
  | d :: rest => List.cons <$> decode d <*> decodeItems decode rest

/-- A sequence of values of one type. -/
def asList (decode : Document → Decoded α) (d : Document) : Decoded (List α) :=
  if d.isBlank then .ok []
  else match d.resolved with
  | .seq items | .list items => decodeItems decode items
  | d => d.unexpected

/-- A value or null. -/
def asOption (decode : Document → Decoded α) (d : Document) : Decoded (Option α) :=
  match d.resolved with
  | .null => .ok none
  | _ => some <$> decode d

/-- A contract or account address, as hexadecimal digits or as a sequence of its bytes. -/
def asAddress (d : Document) : Decoded Address :=
  match d.resolved with
  | .str s => .ofOption (Address.ofText? s)
  | .seq items | .list items =>
    (decodeItems asUInt8 items).andThen fun bytes => .ofOption (Address.ofBytes? bytes)
  | d => d.unexpected

mutual

/-- Whether the text breaks off anywhere in the document. -/
def hasCut : Document → Bool
  | .cut => true
  | .seq items | .list items => anyCut items
  | .map members => anyMemberCut members
  | _ => false

/-- `hasCut` of some item. -/
def anyCut : List Document → Bool
  | [] => false
  | item :: rest => hasCut item || anyCut rest

/-- `hasCut` of some member. -/
def anyMemberCut : List (String × Document) → Bool
  | [] => false
  | (_, value) :: rest => hasCut value || anyMemberCut rest

end

mutual

/-- The document with every plain scalar replaced by its value and every list by a sequence. -/
def settled : Document → Document
  | .plain _ value => value
  | .seq items | .list items => .seq (settledItems items)
  | .map members => .map (settledMembers members)
  | d => d

/-- `settled` on items. -/
def settledItems : List Document → List Document
  | [] => []
  | item :: rest => settled item :: settledItems rest

/-- `settled` on members. -/
def settledMembers : List (String × Document) → List (String × Document)
  | [] => []
  | (key, value) :: rest => (key, settled value) :: settledMembers rest

end

end Document

/-- A document taken as named fields. -/
structure Record where
  members : List (String × Document)
  /-- The fields came without names, in declaration order. -/
  positional : Bool
  /-- The text breaks off inside. -/
  isCut : Bool
  /-- A known name is written twice, or there are more values than names. -/
  isOverfull : Bool

namespace Record

/-- Whether some name occurs twice. -/
def hasRepeat : List String → Bool
  | [] => false
  | name :: rest => rest.contains name || hasRepeat rest

/-- The fields of a map or of a sequence in declaration order. -/
def ofDocument (names : List String) (d : Document) : Decoded Record :=
  if d.isBlank then .ok ⟨[], false, false, false⟩
  else match d.resolved with
  | .map members =>
    let known := members.filter fun m => names.contains m.1
    .ok ⟨known, false, Document.anyMemberCut members, hasRepeat (known.map (·.1))⟩
  | .seq items =>
    if names.length < items.length then .fault .cut
    else .ok ⟨names.zip items, true, Document.anyCut items, false⟩
  | d => d.unexpected

/-- The document of a field. -/
def find? (r : Record) (name : String) : Option Document := r.members.lookup name

/-- The fault of a field that is not there. -/
def missing (r : Record) : Decoded α := .fault (if r.isCut then .cut else .shape)

/-- A field that has to be there. -/
def required (r : Record) (name : String) (decode : Document → Decoded α) : Decoded α :=
  match r.find? name with
  | some d => decode d
  | none => r.missing

/-- A field with a value of its own when it is not there. -/
def withDefault (r : Record) (name : String) (value : α) (decode : Document → Decoded α) :
    Decoded α :=
  match r.find? name with
  | some d => decode d
  | none => .ok value

/-- A field that may be null or, among named fields, not there. -/
def nullable (r : Record) (name : String) (decode : Document → Decoded α) : Decoded (Option α) :=
  match r.find? name with
  | some d => d.asOption decode
  | none => if r.positional then r.missing else .ok none

/-- A field that may be null or not there. -/
def optional (r : Record) (name : String) (decode : Document → Decoded α) : Decoded (Option α) :=
  r.withDefault name none (·.asOption decode)

/-- The faults of the record as a whole. -/
def whole (r : Record) : Decoded Unit :=
  if r.isOverfull then .fault .shape else if r.isCut then .fault .cut else .ok ()

/-- Decodes a document as a record of known names. -/
def decode (names : List String) (build : Record → Decoded α) (d : Document) : Decoded α :=
  (ofDocument names d).andThen fun r => (fun a _ => a) <$> build r <*> r.whole

end Record

end PriceOracle
