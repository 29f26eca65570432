/-!
# Small maps

Maps from keys to values as lists of pairs, in the order in which the keys were put in.
-/

namespace PriceOracle

/-- A map as a list of pairs; the first pair of a key counts. -/
abbrev Dict (κ α : Type) := List (κ × α)

namespace Dict

variable {κ α : Type} [BEq κ]

/-- The value of a key. -/
def get? (d : Dict κ α) (key : κ) : Option α := d.lookup key

/-- The keys, in their order. -/
def keys (d : Dict κ α) : List κ := d.map (·.1)

/-- Whether a key has a value. -/
def has (d : Dict κ α) (key : κ) : Bool := (d.get? key).isSome

/-- Gives a key a value, in the place of its former one. -/
def set (key : κ) (value : α) : Dict κ α → Dict κ α
  | [] => [(key, value)]
  | (k, v) :: rest => if key == k then (k, value) :: rest else (k, v) :: set key value rest

/-- Takes a key out. -/
def unset (d : Dict κ α) (key : κ) : Dict κ α := d.filter fun entry => !(key == entry.1)

variable [LawfulBEq κ]

theorem get?_set_self (d : Dict κ α) (key : κ) (value : α) :
    (set key value d).get? key = some value := by
  induction d with
  | nil => simp [set, get?]
  | cons entry rest ih =>
    obtain ⟨k, v⟩ := entry
    unfold set
    split
    next h => simp [get?, List.lookup_cons, h]
    next h => simpa [get?, List.lookup_cons, h] using ih

theorem get?_set_of_ne (d : Dict κ α) {key other : κ} (value : α) (h : other ≠ key) :
    (set key value d).get? other = d.get? other := by
  have hne : (other == key) = false := by simpa using h
  induction d with
  | nil => simp [set, get?, List.lookup_cons, hne]
  | cons entry rest ih =>
    obtain ⟨k, v⟩ := entry
    unfold set
    split
    next hk =>
      obtain rfl : key = k := by simpa using hk
      simp [get?, List.lookup_cons, hne]
    next hk =>
      unfold get? at ih ⊢
      simp only [List.lookup_cons]
      split
      · rfl
      · exact ih

omit [LawfulBEq κ] in
theorem mem_set {d : Dict κ α} {key : κ} {value : α} {entry : κ × α}
    (h : entry ∈ set key value d) : entry.2 = value ∨ entry ∈ d := by
  induction d with
  | nil =>
    obtain rfl := List.mem_singleton.mp h
    exact .inl rfl
  | cons first rest ih =>
    unfold set at h
    split at h
    · rcases List.mem_cons.mp h with rfl | hmem
      · exact .inl rfl
      · exact .inr (List.mem_cons_of_mem _ hmem)
    · rcases List.mem_cons.mp h with rfl | hmem
      · exact .inr List.mem_cons_self
      · exact (ih hmem).imp_right (List.mem_cons_of_mem _)

theorem get?_unset_self (d : Dict κ α) (key : κ) : (d.unset key).get? key = none := by
  induction d with
  | nil => rfl
  | cons entry rest ih =>
    obtain ⟨k, v⟩ := entry
    by_cases h : key = k
    · subst h
      have drop : unset ((key, v) :: rest) key = unset rest key := by simp [unset]
      rw [drop, ih]
    · have keep : unset ((k, v) :: rest) key = (k, v) :: unset rest key := by simp [unset, h]
      have hne : (key == k) = false := by simpa using h
      rw [keep]
      simpa [get?, List.lookup_cons, hne] using ih

theorem get?_unset_of_ne (d : Dict κ α) {key other : κ} (h : other ≠ key) :
    (d.unset key).get? other = d.get? other := by
  induction d with
  | nil => rfl
  | cons entry rest ih =>
    obtain ⟨k, v⟩ := entry
    by_cases hk : key = k
    · subst hk
      have hne : (other == key) = false := by simpa using h
      have drop : unset ((key, v) :: rest) key = unset rest key := by simp [unset]
      rw [drop, ih]
      simp [get?, List.lookup_cons, hne]
    · have keep : unset ((k, v) :: rest) key = (k, v) :: unset rest key := by simp [unset, hk]
      rw [keep]
      unfold get? at ih ⊢
      simp only [List.lookup_cons]
      split
      · rfl
      · exact ih

/-! ## Keys -/

theorem get?_eq_none_iff (d : Dict κ α) (key : κ) : d.get? key = none ↔ key ∉ keys d := by
  induction d with
  | nil => simp [get?, keys]
  | cons entry rest ih =>
    obtain ⟨k, v⟩ := entry
    unfold get? keys at *
    by_cases h : key = k
    · simp [h]
    · have hne : (key == k) = false := by simpa using h
      simpa [List.lookup_cons, hne, h] using ih

/-- Where keys occur once, every pair counts. -/
theorem get?_of_mem {d : Dict κ α} (hnodup : (keys d).Nodup) {key : κ} {value : α}
    (h : (key, value) ∈ d) : d.get? key = some value := by
  induction d with
  | nil => cases h
  | cons entry rest ih =>
    obtain ⟨k, v⟩ := entry
    obtain ⟨hfirst, hrest⟩ := List.nodup_cons.mp hnodup
    rcases List.mem_cons.mp h with heq | hmem
    · obtain ⟨rfl, rfl⟩ := Prod.mk.inj heq
      simp [get?]
    · have hkey : key ∈ keys rest := List.mem_map_of_mem hmem
      have hne : (key == k) = false := by
        simp only [beq_eq_false_iff_ne]
        rintro rfl
        exact hfirst hkey
      simpa [get?, List.lookup_cons, hne] using ih hrest hmem

theorem mem_of_get? {d : Dict κ α} {key : κ} {value : α} (h : d.get? key = some value) :
    (key, value) ∈ d := by
  induction d with
  | nil => cases h
  | cons entry rest ih =>
    obtain ⟨k, v⟩ := entry
    unfold get? at h ih
    rw [List.lookup_cons] at h
    split at h
    next heq =>
      obtain rfl := eq_of_beq heq
      obtain rfl := Option.some.inj h
      exact List.mem_cons_self
    next => exact List.mem_cons_of_mem _ (ih h)

theorem keys_set_of_mem {d : Dict κ α} {key : κ} (value : α) (h : key ∈ keys d) :
    keys (set key value d) = keys d := by
  induction d with
  | nil => cases h
  | cons entry rest ih =>
    obtain ⟨k, v⟩ := entry
    unfold set
    split
    · rfl
    next hne =>
      have hmem : key ∈ keys rest := by
        rcases List.mem_cons.mp h with rfl | hmem
        · simp at hne
        · exact hmem
      exact congrArg (k :: ·) (ih hmem)

/-- A key that is new comes last. -/
theorem set_of_not_mem {d : Dict κ α} {key : κ} (value : α) (h : key ∉ keys d) :
    set key value d = d ++ [(key, value)] := by
  induction d with
  | nil => rfl
  | cons entry rest ih =>
    obtain ⟨k, v⟩ := entry
    obtain ⟨hne, hrest⟩ := List.ne_and_not_mem_of_not_mem_cons h
    have hkey : (key == k) = false := by simpa using hne
    rw [set, if_neg (by simp [hkey]), ih hrest]
    rfl

omit [LawfulBEq κ] in
theorem keys_unset (d : Dict κ α) (key : κ) :
    keys (d.unset key) = (keys d).filter fun k => !(key == k) := by
  rw [keys, keys, unset, List.filter_map]
  rfl

end Dict

end PriceOracle
