import PriceOracle.Json.Token

/-!
# Reading JSON text

`Json.read` builds a document from tokens with a stack of open containers. It never fails: where
the tokens break the grammar, the document holds `Document.cut` and all open containers are closed
around it. Containers nested deeper than 127 become `Document.unreadable`.

`Json.ofText?` is the strict form: the value of a text that is JSON from end to end.
-/

namespace PriceOracle.Json

/-- A container that is still open, with what it holds so far in reverse. -/
inductive Frame where
  | seq (items : List Document)
  | map (members : List (String × Document)) (key : Option String)

/-- What may come next. -/
inductive Expect where
  | value
  | valueOrClose
  | key
  | keyOrClose
  | colon
  | commaOrClose

/-- What reading a text gives: the document, and whether the text ends with it. -/
structure Reading where
  document : Document
  complete : Bool

/-- The deepest nesting of containers that decoders accept. -/
def maxDepth : Nat := 127

/-- Closes a container at a depth. -/
def capped (depth : Nat) (d : Document) : Document := if maxDepth < depth then .unreadable else d

/-- Adds a value to the innermost open container. -/
def Frame.add (value : Document) : Frame → Frame
  | .seq items => .seq (value :: items)
  | .map members key => .map ((key.getD "", value) :: members) none

/-- The document of a container that is closed now. -/
def Frame.close : Frame → Document
  | .seq items => .seq items.reverse
  | .map members _ => .map members.reverse

/-- Closes all open containers around a place where the text breaks off. -/
def breakOff : List Frame → Document → Document
  | [], inner => inner
  | frame :: outer, inner => breakOff outer (capped (outer.length + 1) (frame.add inner).close)

/-- The reading of a text that breaks the grammar. -/
def broken (frames : List Frame) : Reading := ⟨breakOff frames .cut, false⟩

/-- Builds a document from tokens. -/
def build : List Frame → Expect → List Token → Reading
  | frames, _, [] => broken frames
  | frames, expect, token :: rest =>
    -- A value is complete: add it to its container, or end when there is none.
    let emit (frames : List Frame) (value : Document) : Reading :=
      match frames with
      | [] => ⟨value, rest.isEmpty⟩
      | frame :: outer => build (frame.add value :: outer) .commaOrClose rest
    let close : Reading :=
      match frames with
      | [] => broken frames
      | frame :: outer => emit outer (capped (outer.length + 1) frame.close)
    match expect, token with
    | .value, .scalar v | .valueOrClose, .scalar v => emit frames v
    | .value, .string s | .valueOrClose, .string s =>
      emit frames (match s with | some s => .str s | none => .unreadable)
    | .value, .openBrace | .valueOrClose, .openBrace =>
      build (.map [] none :: frames) .keyOrClose rest
    | .value, .openBracket | .valueOrClose, .openBracket =>
      build (.seq [] :: frames) .valueOrClose rest
    | .valueOrClose, .closeBracket => close
    | .key, .string (some key) | .keyOrClose, .string (some key) =>
      match frames with
      | .map members _ :: outer => build (.map members (some key) :: outer) .colon rest
      | _ => broken frames
    | .keyOrClose, .closeBrace => close
    | .colon, .colon => build frames .value rest
    | .commaOrClose, .comma =>
      match frames with
      | .map _ _ :: _ => build frames .key rest
      | _ => build frames .value rest
    | .commaOrClose, .closeBrace =>
      match frames with
      | .map _ _ :: _ => close
      | _ => broken frames
    | .commaOrClose, .closeBracket =>
      match frames with
      | .seq _ :: _ => close
      | _ => broken frames
    | _, _ => broken frames

/-- Reads a text as a document. -/
def read (cs : List Char) : Reading := build [] .value (Token.scan cs)

/-- The value of a text that is JSON from end to end. -/
def ofChars? (cs : List Char) : Option Json :=
  let r := read cs
  if r.complete then r.document.toJson? else none

/-- `ofChars?` on a string. -/
def ofText? (s : String) : Option Json := ofChars? s.toList

/-- The value of bytes that are JSON in UTF-8. -/
def ofBytes? (bytes : ByteArray) : Option Json := do ofText? (← String.fromUTF8? bytes)

end PriceOracle.Json
