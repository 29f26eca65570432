import PriceOracle.Proofs.Address
import PriceOracle.Proofs.Text.Pieces
import PriceOracle.Source.Signature

/-!
# Which texts name a method

The grammar of method signatures, apart from how one is read: a name, then nothing or a pair of
parentheses with spaces before and inside them, and blanks around all of it.

* `IsName`, `Call`, `Spells`: the grammar.
* `canonical_of_spells`, `spells_of_canonical`: what is read is what is spelled.
* `canonical_of_arguments`: arguments are refused.
* `signatures`: the grammar exactly, one selector for all spellings of a name, and the written form
  is its own. The name ends between two characters of the text.
-/

namespace PriceOracle.Signature

/-! ## The grammar -/

/-- A character that a name can start with. -/
def StartsName (c : Char) : Prop := ('A' ≤ c ∧ c ≤ 'Z') ∨ ('a' ≤ c ∧ c ≤ 'z') ∨ c = '_'

/-- A name: letters, digits and underscores, but no digit in front. -/
inductive IsName : List Char → Prop where
  | intro {first : Char} {rest : List Char} (hfirst : StartsName first)
      (hrest : ∀ c ∈ rest, StartsName c ∨ ('0' ≤ c ∧ c ≤ '9')) : IsName (first :: rest)

/-- What follows the name: nothing, or parentheses with spaces before and inside them. -/
inductive Call : List Char → Prop where
  | bare : Call []
  | parentheses (before inside : Nat) : Call (List.replicate before ' ' ++ '(' ::
      (List.replicate inside ' ' ++ [')']))

/-- A text with blanks around a core. -/
def Padded (text : String) (core : List Char) : Prop :=
  ∃ left right, text.toList = left ++ (core ++ right) ∧
    (∀ c ∈ left, Text.isBlank c = true) ∧ ∀ c ∈ right, Text.isBlank c = true

/-- A text that spells a method of a name. -/
def Spells (method : String) (name : List Char) : Prop :=
  IsName name ∧ ∃ call, Call call ∧ Padded method (name ++ call)

/-- The written form of the method of a name. -/
def written (name : List Char) : String := String.ofList (name ++ ['(', ')'])

/-! ## Names -/

theorem startsName_iff {c : Char} : StartsName c ↔ c.isAlpha = true ∨ c = '_' := by
  have halpha : c.isAlpha = true ↔ ('A' ≤ c ∧ c ≤ 'Z') ∨ ('a' ≤ c ∧ c ≤ 'z') := by
    show (decide ('A' ≤ c ∧ c ≤ 'Z') || (decide ('a' ≤ c) && decide (c ≤ 'z'))) = true ↔ _
    simp
  rw [halpha, or_assoc]
  exact Iff.rfl

theorem isNameChar_iff {c : Char} :
    isNameChar c = true ↔ StartsName c ∨ ('0' ≤ c ∧ c ≤ '9') := by
  rw [isNameChar, Char.isAlphanum, Bool.or_eq_true, Bool.or_eq_true, beq_iff_eq, startsName_iff,
    ← Hex.isDigit_iff]
  tauto

/-- A character that starts a name is no digit. -/
theorem StartsName.not_digit {c : Char} (h : StartsName c) : c.isDigit = false := by
  rw [Bool.eq_false_iff, ne_eq, Hex.isDigit_iff]
  rintro ⟨hlow, hhigh⟩
  rcases h with ⟨h, -⟩ | ⟨h, -⟩ | rfl
  · exact absurd (Char.le_trans h hhigh) (by decide)
  · exact absurd (Char.le_trans h hhigh) (by decide)
  · exact absurd hhigh (by decide)

theorem isName_iff {name : List Char} : IsName name ↔
    (name.isEmpty || !name.all isNameChar) = false ∧ name.head?.any Char.isDigit = false := by
  constructor
  · rintro ⟨hfirst, hrest⟩
    refine ⟨?_, hfirst.not_digit⟩
    simp only [List.isEmpty_cons, List.all_cons, Bool.false_or, Bool.not_eq_false',
      Bool.and_eq_true, List.all_eq_true]
    exact ⟨isNameChar_iff.mpr (.inl hfirst), fun c hc => isNameChar_iff.mpr (hrest c hc)⟩
  · rintro ⟨hname, hfirst⟩
    cases name with
    | nil => exact absurd hname (by decide)
    | cons first rest =>
      simp only [List.isEmpty_cons, List.all_cons, Bool.false_or, Bool.not_eq_false',
        Bool.and_eq_true, List.all_eq_true] at hname
      refine .intro ((isNameChar_iff.mp hname.1).resolve_right ?_) fun c hc =>
        isNameChar_iff.mp (hname.2 c hc)
      rw [← Hex.isDigit_iff]
      exact ne_true_of_eq_false hfirst

theorem IsName.ne_nil {name : List Char} (h : IsName name) : name ≠ [] := by
  rintro rfl
  cases h

/-- No visible character of the first 128 is a blank. -/
theorem isBlank_of_visible {c low high : Char} (hc : low ≤ c ∧ c ≤ high)
    (hvisible : '!' ≤ low ∧ high ≤ '~') : Text.isBlank c = false := by
  have hlow : 0x21 ≤ c.toNat := UInt32.le_iff_toNat_le.mp (Char.le_trans hvisible.1 hc.1)
  have hhigh : c.toNat ≤ 0x7E := UInt32.le_iff_toNat_le.mp (Char.le_trans hc.2 hvisible.2)
  simp only [Text.isBlank, Bool.or_eq_false_iff, Bool.and_eq_false_iff, decide_eq_false_iff_not,
    beq_eq_false_iff_ne, ne_eq]
  omega

/-- No character of a name is a blank or a parenthesis. -/
theorem IsName.plain {name : List Char} (h : IsName name) {c : Char} (hc : c ∈ name) :
    Text.isBlank c = false ∧ c ≠ '(' := by
  have hin : isNameChar c = true := by
    have hall := (isName_iff.mp h).1
    rw [Bool.or_eq_false_iff, Bool.not_eq_false', List.all_eq_true] at hall
    exact hall.2 c hc
  constructor
  · rcases isNameChar_iff.mp hin with (hupper | hlower | rfl) | hdigit
    · exact isBlank_of_visible hupper (by decide)
    · exact isBlank_of_visible hlower (by decide)
    · decide
    · exact isBlank_of_visible hdigit (by decide)
  · rintro rfl
    exact absurd hin (by decide)

theorem IsName.trim_append {name tail : List Char} (h : IsName name)
    (htail : ∀ c, tail.getLast? = some c → Text.isBlank c = false) :
    Text.trim (name ++ tail) = name ++ tail := by
  rw [Text.trim_eq_self_iff]
  constructor
  · rw [List.head?_append_of_ne_nil _ h.ne_nil]
    exact fun c hc => (h.plain (List.mem_of_head? hc)).1
  -- The last character is that of the tail, or of the name where there is no tail.
  · intro c hc
    rw [List.getLast?_append] at hc
    cases hlast : tail.getLast? with
    | some last =>
      rw [hlast] at hc
      exact htail c (hlast.trans hc)
    | none =>
      rw [hlast] at hc
      exact (h.plain (List.mem_of_getLast? hc)).1

/-- The name of a text that starts with one, when blanks lie between it and a parenthesis. -/
theorem IsName.nameOf_append {name blanks tail : List Char} (h : IsName name)
    (hblanks : ∀ c ∈ blanks, Text.isBlank c = true)
    (htail : ∀ c, tail.head? = some c → c = '(') : nameOf (name ++ (blanks ++ tail)) = name := by
  have hopen : tail.takeWhile (· ≠ '(') = [] := by
    cases tail with
    | nil => rfl
    | cons c tail => rw [htail c rfl, List.takeWhile_cons_of_neg (by simp)]
  have hbefore : ∀ c ∈ name ++ blanks, decide (c ≠ '(') = true := by
    intro c hc
    rw [decide_eq_true_iff]
    rcases List.mem_append.mp hc with hc | hc
    · exact (h.plain hc).2
    · rintro rfl
      exact absurd (hblanks '(' hc) (by decide)
  rw [nameOf, ← List.append_assoc, List.takeWhile_append_of_pos hbefore, hopen, List.append_nil,
    Text.trimEnd_append_blanks hblanks, Text.trimEnd_eq_self_iff]
  exact fun c hc => (h.plain (List.mem_of_getLast? hc)).1

/-! ## What follows the name -/

/-- What is left of a text without its spaces. -/
theorem filter_spaces (n : Nat) (cs : List Char) :
    (List.replicate n ' ' ++ cs).filter (· ≠ ' ') = cs.filter (· ≠ ' ') := by
  rw [List.filter_append, List.filter_replicate_of_neg (by simp), List.nil_append]

theorem eq_spaces_of_filter_nil {cs : List Char} (h : cs.filter (· ≠ ' ') = []) :
    cs = List.replicate cs.length ' ' := by
  rw [List.filter_eq_nil_iff] at h
  exact List.eq_replicate_iff.mpr ⟨rfl, fun c hc => by simpa using h c hc⟩

theorem eq_spaces_of_filter_cons {cs rest : List Char} {c : Char}
    (h : cs.filter (· ≠ ' ') = c :: rest) :
    ∃ n more, cs = List.replicate n ' ' ++ c :: more ∧ more.filter (· ≠ ' ') = rest := by
  obtain ⟨spaces, more, rfl, hspaces, -, hrest⟩ := List.filter_eq_cons_iff.mp h
  refine ⟨spaces.length, more, ?_, hrest⟩
  rw [← List.eq_replicate_iff.mpr ⟨rfl, fun c hc => by simpa using hspaces c hc⟩]

/-- What is empty or a pair of parentheses without its spaces, and ends in no space, is a call. -/
theorem Call.of_filter {cs : List Char}
    (h : cs.filter (· ≠ ' ') = [] ∨ cs.filter (· ≠ ' ') = ['(', ')'])
    (hlast : ∀ c, cs.getLast? = some c → Text.isBlank c = false) : Call cs := by
  -- Spaces at the end would be blanks there.
  have hend (before tail : List Char) (hcs : cs = before ++ tail)
      (htail : tail.filter (· ≠ ' ') = []) : tail = [] := by
    by_contra hne
    have hspace : cs.getLast? = some ' ' := by
      rw [hcs, List.getLast?_append_of_ne_nil _ hne, eq_spaces_of_filter_nil htail,
        List.getLast?_replicate, if_neg (List.length_eq_zero_iff.not.mpr hne)]
    exact absurd (hlast ' ' hspace) (by decide)
  rcases h with h | h
  · rw [hend [] cs rfl h]
    exact .bare
  · obtain ⟨before, more, hcs, hmore⟩ := eq_spaces_of_filter_cons h
    obtain ⟨inside, tail, rfl, htail⟩ := eq_spaces_of_filter_cons hmore
    have hnil :=
      hend (List.replicate before ' ' ++ '(' :: (List.replicate inside ' ' ++ [')'])) tail
      (by simpa using hcs) htail
    rw [hcs, hnil]
    exact .parentheses before inside

theorem Call.filter {cs : List Char} (h : Call cs) :
    cs.filter (· ≠ ' ') = [] ∨ cs.filter (· ≠ ' ') = ['(', ')'] := by
  cases h with
  | bare => exact .inl rfl
  | parentheses before inside =>
    rw [filter_spaces, List.filter_cons_of_pos (by decide), filter_spaces]
    exact .inr rfl

/-- A call is spaces and then nothing or what starts with a parenthesis; it ends in no blank. -/
theorem Call.shape {cs : List Char} (h : Call cs) :
    (∃ n tail, cs = List.replicate n ' ' ++ tail ∧ ∀ c, tail.head? = some c → c = '(') ∧
      ∀ c, cs.getLast? = some c → Text.isBlank c = false := by
  cases h with
  | bare => exact ⟨⟨0, [], rfl, by simp⟩, by simp⟩
  | parentheses before inside =>
    refine ⟨⟨before, _, rfl, by simp⟩, fun c hc => ?_⟩
    rw [List.getLast?_append_of_ne_nil _ (by simp), List.getLast?_cons_of_ne_nil (by simp),
      List.getLast?_append_of_ne_nil _ (by simp)] at hc
    obtain rfl : ')' = c := by simpa using hc
    decide

/-! ## Reading -/

/-- The part of a text after its name. -/
def afterName (text : List Char) : List Char := text.drop (nameOf text).length

/-- The name is at the start of a text. -/
theorem nameOf_append (text : List Char) : nameOf text ++ afterName text = text := by
  have hprefix : nameOf text <+: text := by
    refine List.IsPrefix.trans ?_ (List.takeWhile_prefix (· ≠ '('))
    rw [nameOf, Text.trimEnd, ← List.reverse_suffix, List.reverse_reverse]
    exact List.dropWhile_suffix _
  rw [afterName]
  conv_lhs => enter [1]; rw [List.prefix_iff_eq_take.mp hprefix]
  exact List.take_append_drop _ _

theorem canonical_eq_ok_iff {method out : String} : canonical method = .ok out ↔
    IsName (nameOf (Text.trim method.toList)) ∧
      ((afterName (Text.trim method.toList)).filter (· ≠ ' ') = [] ∨
        (afterName (Text.trim method.toList)).filter (· ≠ ' ') = ['(', ')']) ∧
      out = written (nameOf (Text.trim method.toList)) := by
  rw [isName_iff, canonical, afterName]
  split_ifs with hname hdigit hcall harguments
  · exact ⟨nofun, fun h => absurd h.1.1 (ne_false_of_eq_true hname)⟩
  · exact ⟨nofun, fun h => absurd h.1.2 (ne_false_of_eq_true hdigit)⟩
  · rw [Bool.not_eq_true] at hname hdigit
    exact ⟨fun h => ⟨⟨hname, hdigit⟩, hcall, (Except.ok.inj h).symm⟩,
      fun h => congrArg Except.ok h.2.2.symm⟩
  · exact ⟨nofun, fun h => absurd h.2.1 hcall⟩
  · exact ⟨nofun, fun h => absurd h.2.1 hcall⟩

/-- Where the name of a text ends when spaces lie between it and a parenthesis. -/
theorem IsName.split_trim {method : String} {name tail : List Char} {n : Nat} (h : IsName name)
    (htail : ∀ c, tail.head? = some c → c = '(')
    (hlast : ∀ c, (List.replicate n ' ' ++ tail).getLast? = some c → Text.isBlank c = false)
    (htext : Padded method (name ++ (List.replicate n ' ' ++ tail))) :
    nameOf (Text.trim method.toList) = name ∧
      afterName (Text.trim method.toList) = List.replicate n ' ' ++ tail := by
  obtain ⟨left, right, htext, hleft, hright⟩ := htext
  have hspaces : ∀ c ∈ List.replicate n ' ', Text.isBlank c = true := fun c hc => by
    rw [List.eq_of_mem_replicate hc]
    decide
  have hnameOf := h.nameOf_append hspaces htail
  rw [htext, Text.trim_pad hleft hright (h.trim_append hlast), afterName, hnameOf]
  exact ⟨rfl, List.drop_left⟩

theorem canonical_of_spells {method : String} {name : List Char} (h : Spells method name) :
    canonical method = .ok (written name) := by
  obtain ⟨hname, call, hcall, htext⟩ := h
  obtain ⟨⟨n, tail, rfl, htail⟩, hlast⟩ := hcall.shape
  obtain ⟨hnameOf, hafter⟩ := hname.split_trim htail hlast htext
  rw [canonical_eq_ok_iff, hnameOf, hafter]
  exact ⟨hname, hcall.filter, rfl⟩

theorem spells_of_canonical {method out : String} (h : canonical method = .ok out) :
    ∃ name, Spells method name ∧ out = written name := by
  obtain ⟨hname, hrest, hout⟩ := canonical_eq_ok_iff.mp h
  have hcall : Call (afterName (Text.trim method.toList)) := by
    refine .of_filter hrest fun c hc => ?_
    refine @Text.isBlank_of_getLast_trim method.toList c ?_
    rw [← nameOf_append (Text.trim method.toList), List.getLast?_append, hc, Option.some_or]
  obtain ⟨left, right, htext, hleft, hright⟩ := Text.exists_pad method.toList
  refine ⟨_, ⟨hname, _, hcall, left, right, ?_, hleft, hright⟩, hout⟩
  rw [nameOf_append]
  exact htext

/-- The written form of a method spells it. -/
theorem IsName.spells_written {name : List Char} (h : IsName name) :
    Spells (written name) name :=
  ⟨h, _, .parentheses 0 0, [], [], by simp [written], by simp, by simp⟩

/-- The selector is taken from the name alone. -/
theorem selector_of_spells {method : String} {name : List Char} (h : Spells method name) :
    selector method = .ok ((Keccak.digestText (written name)).take 4) := by
  rw [selector, canonical_of_spells h]
  rfl

/-- Arguments that are not all blanks are refused as arguments. -/
theorem canonical_of_arguments {method : String} {name args : List Char} {n : Nat}
    (hname : IsName name) (hargs : ∃ c ∈ args, Text.isBlank c = false)
    (htext : Padded method (name ++ (List.replicate n ' ' ++ '(' :: (args ++ [')'])))) :
    canonical method = .error (.invalidSource s!"method '{String.ofList
      (Text.trim method.toList)}' takes arguments; only zero-argument calls are supported") := by
  have hclosed (args : List Char) : ('(' :: (args ++ [')'])).getLast? = some ')' := by
    rw [← List.cons_append, List.getLast?_append_of_ne_nil _ (List.cons_ne_nil _ _)]
    rfl
  obtain ⟨hnameOf, hafter⟩ := hname.split_trim (by simp) (fun c hc => by
    rw [List.getLast?_append_of_ne_nil _ (List.cons_ne_nil _ _), hclosed] at hc
    obtain rfl := Option.some_inj.mp hc
    decide) htext
  obtain ⟨hletters, hdigit⟩ := isName_iff.mp hname
  have hrest : (List.replicate n ' ' ++ '(' :: (args ++ [')'])).filter (· ≠ ' ') =
      '(' :: (args.filter (· ≠ ' ') ++ [')']) := by
    rw [filter_spaces, List.filter_cons_of_pos (by decide), List.filter_append]
    rfl
  -- A character that is no blank is no space, so it is left between the parentheses.
  have hmore : args.filter (· ≠ ' ') ≠ [] := by
    obtain ⟨c, hc, hblank⟩ := hargs
    refine List.ne_nil_of_mem (List.mem_filter.mpr ⟨hc, ?_⟩)
    rw [decide_eq_true_iff]
    rintro rfl
    exact absurd hblank (by decide)
  have hlength := List.length_pos_iff.mpr hmore
  rw [canonical, ← afterName, hnameOf, hafter, hrest, if_neg (by rw [hletters]; decide),
    if_neg (by rw [hdigit]; decide), if_neg, if_pos]
  · refine ⟨rfl, hclosed _, ?_⟩
    rw [List.length_cons, List.length_append, List.length_singleton]
    omega
  · rintro (h | h)
    · exact List.cons_ne_nil _ _ h
    · exact hmore (List.append_eq_singleton_iff.mp (List.cons.inj h).2 |>.elim And.left
        fun h => absurd h.2 (by simp))

/-! ## The grammar exactly -/

/-- The methods that are read are the texts that spell a name, and what is read is the written form
of the name. The written form is its own, all spellings of a name give one selector, and arguments
are refused. Every text can be cut where its name ends. -/
theorem signatures (method : String) :
    (∀ out, canonical method = .ok out ↔ ∃ name, Spells method name ∧ out = written name) ∧
    (∀ out, canonical method = .ok out → canonical out = .ok out) ∧
    (∀ name other, Spells method name → Spells other name →
      ∃ bytes, selector method = .ok bytes ∧ selector other = .ok bytes) ∧
    (String.ofList (nameOf (Text.trim method.toList))).rawEndPos.IsValid
      (Text.trimmed method) ∧
    (∀ name args n, IsName name → (∃ c ∈ args, Text.isBlank c = false) →
      Padded method (name ++ (List.replicate n ' ' ++ '(' :: (args ++ [')']))) →
      canonical method = .error (.invalidSource s!"method '{Text.trimmed
        method}' takes arguments; only zero-argument calls are supported")) := by
  refine ⟨fun out => ⟨spells_of_canonical, ?_⟩, fun out h => ?_, fun name other h h' => ?_, ?_,
    fun name args n hname hargs htext => canonical_of_arguments hname hargs htext⟩
  · rintro ⟨name, h, rfl⟩
    exact canonical_of_spells h
  · obtain ⟨name, hspells, rfl⟩ := spells_of_canonical h
    exact canonical_of_spells hspells.1.spells_written
  · exact ⟨_, selector_of_spells h, selector_of_spells h'⟩
  · rw [String.Pos.Raw.isValid_iff_exists_append]
    refine ⟨_, String.ofList (afterName (Text.trim method.toList)), ?_, rfl⟩
    rw [Text.trimmed, ← String.ofList_append, nameOf_append]

/-- Spaces and an argument. -/
theorem signatures_decimals :
    canonical " decimals ( ) " = .ok "decimals()" ∧ canonical "decimals()" = .ok "decimals()" ∧
    (∃ bytes, selector " decimals ( ) " = .ok bytes ∧ selector "decimals" = .ok bytes) ∧
    canonical "balanceOf(address)" = .error (.invalidSource
      "method 'balanceOf(address)' takes arguments; only zero-argument calls are supported") := by
  have hname : IsName "decimals".toList := by
    rw [isName_iff]
    decide
  have hspace : ∀ c ∈ [' '], Text.isBlank c = true := List.forall_mem_singleton.mpr (by decide)
  have hnone : ∀ c ∈ [], Text.isBlank c = true := List.forall_mem_nil _
  have hspaced : Spells " decimals ( ) " "decimals".toList :=
    ⟨hname, _, .parentheses 1 1, [' '], [' '], by decide, hspace, hspace⟩
  have hbare : Spells "decimals" "decimals".toList :=
    ⟨hname, _, .bare, [], [], by decide, hnone, hnone⟩
  obtain ⟨hread, hself, hselector, -, -⟩ := signatures " decimals ( ) "
  have hout : canonical " decimals ( ) " = .ok "decimals()" :=
    (hread "decimals()").mpr ⟨_, hspaced, by decide⟩
  have harguments := (signatures "balanceOf(address)").2.2.2.2 "balanceOf".toList
    "address".toList 0 (by rw [isName_iff]; decide) ⟨'a', by decide, by decide⟩
    ⟨[], [], by decide, hnone, hnone⟩
  exact ⟨hout, hself _ hout, hselector _ _ hspaced hbare, harguments⟩

end PriceOracle.Signature
