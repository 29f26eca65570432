import Mathlib.Data.List.TakeWhile
import PriceOracle.Json.Token
import PriceOracle.Proofs.Text.Digits

/-!
# The tokens of written JSON

`Json.render` writes a value without blanks, and `Token.scan` cuts a text into tokens. The two fit:
the text of a value is scanned to `Json.tokens` of it (`scanFrom_render`), whatever characters its
strings hold.

A text has no blanks between its tokens, so that what has to be shown is where each one ends: a
number and a word end at the first character of another class (`Runs`), a string at the first quote
that is not escaped, and all others after one character.

Only values that are read back as they are count here: `Json.Plain` leaves out floats and integers
beyond 64 bits, and bounds the nesting.
-/

namespace PriceOracle.Json

mutual

/-- A value that is nested at most so deep and whose only numbers are integers of 64 bits. -/
def Plain : (room : Nat) → Json → Prop
  | _, .null | _, .bool _ | _, .str _ => True
  | _, .int n => -(2 ^ 63) ≤ n ∧ n < 2 ^ 64
  | _, .float _ => False
  | room, .arr items => 0 < room ∧ PlainItems (room - 1) items
  | room, .obj members => 0 < room ∧ PlainMembers (room - 1) members

/-- `Plain` of all items. -/
def PlainItems : (room : Nat) → List Json → Prop
  | _, [] => True
  | room, item :: rest => Plain room item ∧ PlainItems room rest

/-- `Plain` of all members. -/
def PlainMembers : (room : Nat) → List (String × Json) → Prop
  | _, [] => True
  | room, (_, value) :: rest => Plain room value ∧ PlainMembers room rest

end

mutual

/-- The tokens of a value. -/
def tokens : Json → List Token
  | .null => [.scalar .null]
  | .bool b => [.scalar (.bool b)]
  | .int n => [.scalar (.int n)]
  | .float x => [.scalar (.float x)]
  | .str s => [.string (some s)]
  | .arr items => .openBracket :: tokensOfItems items ++ [.closeBracket]
  | .obj members => .openBrace :: tokensOfMembers members ++ [.closeBrace]

/-- The tokens of the items of an array, separated by commas. -/
def tokensOfItems : List Json → List Token
  | [] => []
  | [item] => tokens item
  | item :: rest => tokens item ++ .comma :: tokensOfItems rest

/-- The tokens of the members of an object, separated by commas. -/
def tokensOfMembers : List (String × Json) → List Token
  | [] => []
  | [(key, value)] => .string (some key) :: .colon :: tokens value
  | (key, value) :: rest =>
    .string (some key) :: .colon :: tokens value ++ .comma :: tokensOfMembers rest

end

namespace Token

/-- Text that ends a number or a word before it. -/
def EndsScalar (rest : List Char) : Prop :=
  ∀ c, rest.head? = some c → isNumberChar c = false ∧ c.isAlpha = false

theorem endsScalar_nil : EndsScalar [] := by
  intro c h
  cases h

theorem endsScalar_cons {c : Char} (rest : List Char) (hn : isNumberChar c = false)
    (ha : c.isAlpha = false) : EndsScalar (c :: rest) := by
  intro d h
  obtain rfl : c = d := Option.some.inj h
  exact ⟨hn, ha⟩

/-! ## Runs of characters -/

/-- A number and a word are scanned alike: the scanner keeps characters of one class and makes a
token of them as soon as another one comes. -/
structure Runs (within : List Char → State) (p : Char → Bool) (token : List Char → Token) :
    Prop where
  keeps : ∀ kept c, p c = true → advance (within kept) c = ([], within (c :: kept))
  ends : ∀ kept c, p c = false →
    advance (within kept) c = (token kept.reverse :: (start c).1, (start c).2)
  finishes : ∀ kept, finish (within kept) = [token kept.reverse]

theorem runs_number : Runs .number isNumberChar ofNumber where
  keeps := fun kept c hc => by simp [advance, hc]
  ends := fun kept c hc => by simp [advance, hc]
  finishes := fun _ => rfl

theorem runs_word : Runs .word Char.isAlpha ofWord where
  keeps := fun kept c hc => by simp [advance, hc]
  ends := fun kept c hc => by simp [advance, hc]
  finishes := fun _ => rfl

/-- A run goes on while its class does, and is one token together with what was kept of it. -/
theorem Runs.scanFrom_append {within : List Char → State} {p : Char → Bool}
    {token : List Char → Token} (hruns : Runs within p token) {run rest : List Char}
    (hrun : ∀ c ∈ run, p c = true) (hrest : ∀ c, rest.head? = some c → p c = false)
    (kept : List Char) :
    scanFrom (within kept) (run ++ rest)
      = token (kept.reverse ++ run) :: scanFrom .between rest := by
  induction run generalizing kept with
  | nil =>
    rw [List.nil_append, List.append_nil]
    cases rest with
    | nil => exact hruns.finishes kept
    | cons c rest =>
      rw [scanFrom, hruns.ends kept c (hrest c rfl)]
      rfl
  | cons c run ih =>
    have hmore := ih (fun d hd => hrun d (List.mem_cons_of_mem _ hd)) (c :: kept)
    rw [List.reverse_cons, List.append_assoc, List.singleton_append] at hmore
    rw [List.cons_append, scanFrom, hruns.keeps kept c (hrun c (List.mem_cons_self ..))]
    exact hmore

/-! ## Numbers -/

theorem isNumberChar_of_isDigit {c : Char} (h : c.isDigit = true) : isNumberChar c = true := by
  simp [isNumberChar, h]

theorem takeWhile_ofNat (n : Nat) : (Digits.ofNat n).takeWhile Char.isDigit = Digits.ofNat n :=
  List.takeWhile_eq_self_iff.mpr fun _ h => Digits.isDigit_of_mem_ofNat h

theorem dropWhile_ofNat (n : Nat) : (Digits.ofNat n).dropWhile Char.isDigit = [] :=
  List.dropWhile_eq_nil_iff.mpr fun _ h => Digits.isDigit_of_mem_ofNat h

/-- No leading zeros are written. -/
theorem ofNat_not_padded (n : Nat) :
    (decide (1 < (Digits.ofNat n).length) && (Digits.ofNat n).head? == some '0') = false := by
  rcases Nat.eq_zero_or_pos n with rfl | hn
  · decide
  · have hhead : ((Digits.ofNat n).head? == some '0') = false := by
      simpa using Digits.head_ofNat_ne_zero hn
    rw [hhead, Bool.and_false]

theorem head_ofNat_ne_minus (n : Nat) : (Digits.ofNat n).head? ≠ some '-' := by
  intro h
  have hdigit := Digits.isDigit_of_mem_ofNat (List.mem_of_mem_head? h)
  exact absurd hdigit (by decide)

theorem numeral_ofNat (n : Nat) :
    numeral? (Digits.ofNat n) = some ⟨false, Digits.ofNat n, none, none⟩ := by
  have hsign := head_ofNat_ne_minus n
  have hne := Digits.ofNat_ne_nil n
  have hpad := ofNat_not_padded n
  simp only [numeral?, hsign, decide_false, if_false, takeWhile_ofNat, dropWhile_ofNat]
  simp [hne, hpad, exponentOf?]

theorem numeral_minus_ofNat (n : Nat) :
    numeral? ('-' :: Digits.ofNat n) = some ⟨true, Digits.ofNat n, none, none⟩ := by
  have hne := Digits.ofNat_ne_nil n
  have hpad := ofNat_not_padded n
  simp only [numeral?, List.head?_cons, decide_true, if_true, List.tail_cons, takeWhile_ofNat,
    dropWhile_ofNat]
  simp [hne, hpad, exponentOf?]

/-- The token of a written integer. -/
theorem ofNumber_intText {n : Int} (hlo : -(2 ^ 63) ≤ n) (hhi : n < 2 ^ 64) :
    ofNumber (intText n) = .scalar (.int n) := by
  unfold intText ofNumber
  by_cases hn : n < 0
  · have hmag : n.natAbs ≠ 0 := by omega
    have hle : n.natAbs ≤ 2 ^ 63 := by omega
    have hback : -(n.natAbs : Int) = n := by omega
    rw [if_pos hn, List.singleton_append, numeral_minus_ofNat]
    generalize n.natAbs = m at hmag hle hback ⊢
    subst hback
    simp [Numeral.value, Digits.toNat_ofNat, hmag, hle]
  · have hlt : n.natAbs < 2 ^ 64 := by omega
    have hback : (n.natAbs : Int) = n := by omega
    rw [if_neg hn, List.nil_append, numeral_ofNat]
    generalize n.natAbs = m at hlt hback ⊢
    subst hback
    simp [Numeral.value, Digits.toNat_ofNat, hlt]

theorem start_of_number {c : Char} (h : c.isDigit = true ∨ c = '-') :
    start c = ([], .number [c]) := by
  rcases h with h | rfl
  · have hne {d : Char} (hd : d.isDigit = false) : c ≠ d := by
      rintro rfl
      rw [h] at hd
      cases hd
    have hspace : isSpace c = false := by
      simp [isSpace, hne (d := ' ') rfl, hne (d := '\n') rfl, hne (d := '\t') rfl,
        hne (d := '\r') rfl]
    have hmark : mark? c = none := by
      simp [mark?, hne (d := '{') rfl, hne (d := '}') rfl, hne (d := '[') rfl,
        hne (d := ']') rfl, hne (d := ',') rfl, hne (d := ':') rfl]
    simp [start, hspace, hmark, hne (d := '"') rfl, h]
  · rfl

/-- A written integer starts with a digit or a sign and goes on with digits. -/
theorem intText_cons (n : Int) : ∃ c digits, intText n = c :: digits ∧
    (c.isDigit = true ∨ c = '-') ∧ ∀ d ∈ digits, isNumberChar d = true := by
  by_cases hn : n < 0
  · refine ⟨'-', Digits.ofNat n.natAbs, by simp [intText, hn], .inr rfl, ?_⟩
    intro d hd
    exact isNumberChar_of_isDigit (Digits.isDigit_of_mem_ofNat hd)
  · obtain ⟨c, digits, htext⟩ := List.exists_cons_of_ne_nil (Digits.ofNat_ne_nil n.natAbs)
    have hdigit : ∀ d ∈ c :: digits, d.isDigit = true := by
      intro d hd
      rw [← htext] at hd
      exact Digits.isDigit_of_mem_ofNat hd
    refine ⟨c, digits, by simp [intText, hn, htext], .inl (hdigit c (List.mem_cons_self ..)), ?_⟩
    intro d hd
    exact isNumberChar_of_isDigit (hdigit d (List.mem_cons_of_mem _ hd))

/-- Between tokens, the text of an integer is one token. -/
theorem scanFrom_intText {n : Int} (hlo : -(2 ^ 63) ≤ n) (hhi : n < 2 ^ 64) {rest : List Char}
    (h : EndsScalar rest) :
    scanFrom .between (intText n ++ rest) = .scalar (.int n) :: scanFrom .between rest := by
  obtain ⟨c, digits, htext, hfirst, hdigits⟩ := intText_cons n
  have hstart : start c = ([], .number [c]) := start_of_number hfirst
  have hfrom : scanFrom .between (intText n ++ rest) = scanFrom (.number [c]) (digits ++ rest) := by
    simp [htext, scanFrom, advance, hstart]
  have hback : [c].reverse ++ digits = intText n := htext.symm
  rw [hfrom, runs_number.scanFrom_append hdigits (fun d hd => (h d hd).1), hback,
    ofNumber_intText hlo hhi]

/-! ## Words -/

/-- Between tokens, a word is one token. -/
theorem scanFrom_spelled {c : Char} (letters : List Char) {rest : List Char}
    (hstart : start c = ([], .word [c])) (hletters : letters.all Char.isAlpha = true)
    (h : EndsScalar rest) :
    scanFrom .between (c :: letters ++ rest)
      = ofWord (c :: letters) :: scanFrom .between rest := by
  have hfrom : scanFrom .between (c :: letters ++ rest)
      = scanFrom (.word [c]) (letters ++ rest) := by
    simp [scanFrom, advance, hstart]
  rw [hfrom, runs_word.scanFrom_append (List.all_eq_true.mp hletters) fun d hd => (h d hd).2]
  rfl

/-! ## Strings -/

/-- The code of a character is no surrogate. -/
theorem ofUnits_toNat (cs : List Char) : ofUnits (cs.map Char.toNat) = some cs := by
  induction cs with
  | nil => rfl
  | cons c cs ih =>
    have hvalid := c.valid
    have hlead : ¬(0xD800 ≤ c.toNat ∧ c.toNat < 0xDC00) := by
      rintro ⟨hlo, hhi⟩
      rcases hvalid with hlt | ⟨hgt, -⟩ <;> simp only [Char.toNat, UInt32.toNat] at * <;> omega
    have htrail : ¬(0xDC00 ≤ c.toNat ∧ c.toNat < 0xE000) := by
      rintro ⟨hlo, hhi⟩
      rcases hvalid with hlt | ⟨hgt, -⟩ <;> simp only [Char.toNat, UInt32.toNat] at * <;> omega
    rw [List.map_cons, ofUnits.eq_def]
    simp [hlead, htrail, ih]

/-- An escape by a code is read back as the code. -/
theorem scanFrom_codeEscape {n : Nat} (h : n < 32) (units : List Nat) (rest : List Char) :
    scanFrom (.string units)
        (['\\', 'u', '0', '0', Nat.digitChar (n / 16), Nat.digitChar (n % 16)] ++ rest)
      = scanFrom (.string (n :: units)) rest := by
  have hhigh : Hex.value? (Nat.digitChar (n / 16)) = some (n / 16) :=
    Hex.value_digit (n / 16) (by omega)
  have hlow : Hex.value? (Nat.digitChar (n % 16)) = some (n % 16) :=
    Hex.value_digit (n % 16) (by omega)
  have hzero : Hex.value? '0' = some 0 := by decide
  have hback : n / 16 * 16 + n % 16 = n := by omega
  simp [scanFrom, advance, hzero, hhigh, hlow, hback]

/-- Within a string, an escaped character is read back. -/
theorem scanFrom_escape (c : Char) (units : List Nat) (rest : List Char) :
    scanFrom (.string units) (escape c ++ rest)
      = scanFrom (.string (c.toNat :: units)) rest := by
  unfold escape
  cases hshort : shortEscapes.lookup c with
  | some letter =>
    have hmem : (c, letter) ∈ shortEscapes := by
      obtain ⟨l₁, l₂, h, -⟩ := List.lookup_eq_some_iff.mp hshort
      simp [h]
    simp only [shortEscapes, List.mem_cons, Prod.mk.injEq, List.not_mem_nil, or_false] at hmem
    rcases hmem with ⟨rfl, rfl⟩ | ⟨rfl, rfl⟩ | ⟨rfl, rfl⟩ | ⟨rfl, rfl⟩ | ⟨rfl, rfl⟩ | ⟨rfl, rfl⟩ |
      ⟨rfl, rfl⟩ <;> rfl
  | none =>
    -- Control characters are written by their codes, all others as they are.
    by_cases hcode : c.toNat < 32
    · simpa [hcode] using scanFrom_codeEscape hcode units rest
    · have hquote : c ≠ '"' := by
        rintro rfl
        cases hshort
      have hslash : c ≠ '\\' := by
        rintro rfl
        cases hshort
      simp [scanFrom, advance, hcode, hquote, hslash]

/-- Within a string, escaped text is read back. -/
theorem scanFrom_escapes (cs : List Char) (units : List Nat) (rest : List Char) :
    scanFrom (.string units) (cs.flatMap escape ++ rest)
      = scanFrom (.string ((cs.map Char.toNat).reverse ++ units)) rest := by
  induction cs generalizing units with
  | nil => rfl
  | cons c cs ih =>
    rw [List.flatMap_cons, List.append_assoc, scanFrom_escape, ih]
    simp

/-- Between tokens, a quoted string is one token. -/
theorem scanFrom_quote (s : String) (rest : List Char) :
    scanFrom .between (quote s ++ rest) = .string (some s) :: scanFrom .between rest := by
  have hstart : start '"' = ([], .string []) := rfl
  have hunits : ofUnits ((s.toList.map Char.toNat).reverse ++ []).reverse = some s.toList := by
    rw [List.append_nil, List.reverse_reverse, ofUnits_toNat]
  have hbody : scanFrom .between (quote s ++ rest)
      = scanFrom (.string []) (s.toList.flatMap escape ++ ('"' :: rest)) := by
    simp [quote, scanFrom, advance, hstart]
  rw [hbody, scanFrom_escapes]
  simp only [scanFrom, advance, if_true, hunits]
  simp

/-! ## Values -/

theorem endsScalar_comma (rest : List Char) : EndsScalar (',' :: rest) :=
  endsScalar_cons _ rfl rfl

/-- A punctuation mark is a token of its own. -/
theorem scanFrom_mark {c : Char} {t : Token} (h : start c = ([t], .between)) (rest : List Char) :
    scanFrom .between (c :: rest) = t :: scanFrom .between rest := by
  simp [scanFrom, advance, h]

mutual

/-- The text of a value is scanned to its tokens. -/
theorem scanFrom_render : (room : Nat) → (j : Json) → Plain room j → {rest : List Char} →
    EndsScalar rest →
    scanFrom .between (render j ++ rest) = tokens j ++ scanFrom .between rest
  | _, .null, _, _, h => scanFrom_spelled ['u', 'l', 'l'] rfl rfl h
  | _, .bool true, _, _, h => scanFrom_spelled ['r', 'u', 'e'] rfl rfl h
  | _, .bool false, _, _, h => scanFrom_spelled ['a', 'l', 's', 'e'] rfl rfl h
  | _, .int n, hn, _, h => by
    simpa [Json.render, tokens] using scanFrom_intText hn.1 hn.2 h
  | _, .str s, _, _, _ => by
    simpa [Json.render, tokens] using scanFrom_quote s _
  | room, .arr items, hroom, rest, _ => by
    have hopen := scanFrom_mark (c := '[') rfl (renderItems items ++ ']' :: rest)
    have hclose := scanFrom_mark (c := ']') rfl rest
    have hitems := scanFrom_renderItems _ items hroom.2
      (endsScalar_cons (c := ']') rest rfl rfl)
    simp [Json.render, tokens, hopen, hitems, hclose]
  | room, .obj members, hroom, rest, _ => by
    have hopen := scanFrom_mark (c := '{') rfl (renderMembers members ++ '}' :: rest)
    have hclose := scanFrom_mark (c := '}') rfl rest
    have hmembers := scanFrom_renderMembers _ members hroom.2
      (endsScalar_cons (c := '}') rest rfl rfl)
    simp [Json.render, tokens, hopen, hmembers, hclose]

/-- `scanFrom_render` for the items of an array. -/
theorem scanFrom_renderItems : (room : Nat) → (items : List Json) → PlainItems room items →
    {rest : List Char} → EndsScalar rest →
    scanFrom .between (renderItems items ++ rest) = tokensOfItems items ++ scanFrom .between rest
  | _, [], _, _, _ => rfl
  | room, [item], hitems, _, h => scanFrom_render room item hitems.1 h
  | room, item :: next :: items, hitems, rest, h => by
    have hcomma := scanFrom_mark (c := ',') rfl (renderItems (next :: items) ++ rest)
    have hitem := scanFrom_render room item hitems.1
      (endsScalar_comma (renderItems (next :: items) ++ rest))
    have hnext := scanFrom_renderItems room (next :: items) hitems.2 h
    simp only [renderItems, tokensOfItems, List.append_assoc, List.cons_append] at *
    rw [hitem, hcomma, hnext]

/-- `scanFrom_render` for the members of an object. -/
theorem scanFrom_renderMembers : (room : Nat) → (members : List (String × Json)) →
    PlainMembers room members → {rest : List Char} → EndsScalar rest →
    scanFrom .between (renderMembers members ++ rest)
      = tokensOfMembers members ++ scanFrom .between rest
  | _, [], _, _, _ => rfl
  | room, [(key, value)], hmembers, rest, h => by
    have hcolon := scanFrom_mark (c := ':') rfl (render value ++ rest)
    have hvalue := scanFrom_render room value hmembers.1 h
    simp [renderMembers, tokensOfMembers, scanFrom_quote, hcolon, hvalue]
  | room, (key, value) :: next :: members, hmembers, rest, h => by
    have hcolon := scanFrom_mark (c := ':') rfl
      (render value ++ ',' :: (renderMembers (next :: members) ++ rest))
    have hcomma := scanFrom_mark (c := ',') rfl (renderMembers (next :: members) ++ rest)
    have hvalue := scanFrom_render room value hmembers.1
      (endsScalar_comma (renderMembers (next :: members) ++ rest))
    have hnext := scanFrom_renderMembers room (next :: members) hmembers.2 h
    simp only [renderMembers, tokensOfMembers, List.append_assoc, List.cons_append] at *
    rw [scanFrom_quote, hcolon, hvalue, hcomma, hnext]

end

end Token

end PriceOracle.Json
