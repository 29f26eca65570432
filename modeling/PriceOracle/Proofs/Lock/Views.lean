import PriceOracle.Proofs.Lock.Turns

/-!
# Locks as each oracle sees them

An oracle sees of the locks its own slot, and whether it is held (`LockTable.view`). Where no two
oracles share a slot (`LockTable.Tidy`), a turn of a call changes the view of no other oracle, and
the locks stay tidy (`Turn.view_of_ne`, `Turn.tidy`).
-/

namespace PriceOracle.LockTable

variable {t t' : LockTable} {grips : Grips} {id i : OracleId} {g g' : Grip} {e : Option OracleId}
  {s : Slot}

/-- No two oracles share a slot, no slot is held twice, and a new slot is one that nobody has. -/
structure Tidy (t : LockTable) : Prop where
  apart : ∀ i j s, t.slots.get? i = some s → t.slots.get? j = some s → i = j
  made : ∀ i s, t.slots.get? i = some s → s < t.next
  held : ∀ s ∈ t.held, s < t.next
  nodup : t.held.Nodup

/-- Locks that serve their calls are tidy. -/
theorem Serves.tidy (h : t.Serves grips) : t.Tidy := by
  obtain ⟨owner, howner⟩ := h.known
  refine ⟨?_, fun i s hs => (howner i s (.inl hs)).1, ?_, h.nodup⟩
  · intro i j s hi hj
    rw [← (howner i s (.inl hi)).2, (howner j s (.inl hj)).2]
  · intro s hs
    obtain ⟨n, i, hn⟩ := (h.held s).mp hs
    exact (howner i s (.inr ⟨n, _, hn, rfl⟩)).1

/-! ## Views -/

/-- The slot of an oracle, where it was made, and whether it is held. -/
def view (t : LockTable) (id : OracleId) : Option (Slot × Bool) :=
  (t.slots.get? id).map fun s => (s, decide (s ∈ t.held))

/-- Somebody holds the lock of an oracle. -/
def isHeld (t : LockTable) (id : OracleId) : Bool := (t.view id).any (·.2)

theorem isHeld_of_slot (hs : t.slots.get? id = some s) : t.isHeld id = decide (s ∈ t.held) := by
  rw [isHeld, view, hs]
  rfl

theorem isHeld_of_view (h : t'.view id = t.view id) : t'.isHeld id = t.isHeld id := by
  rw [isHeld, h, isHeld]

/-- An oracle with the same slot as before sees of the locks only whether that is held. -/
theorem view_congr (hslot : t'.slots.get? i = t.slots.get? i)
    (hheld : ∀ s, t.slots.get? i = some s → (s ∈ t'.held ↔ s ∈ t.held)) : t'.view i = t.view i := by
  rw [view, view, hslot]
  cases hs : t.slots.get? i with
  | none => rfl
  | some s => simp [hheld s hs]

theorem slot_of_view (h : t'.view id = t.view id) : t'.slots.get? id = t.slots.get? id := by
  have hslots : ∀ t : LockTable, (t.view id).map (·.1) = t.slots.get? id := by
    intro t
    rw [view, Option.map_map]
    exact Option.map_id_apply
  rw [← hslots t', h, hslots t]

/-! ## Turns -/

/-- A call with a slot has that of its oracle. -/
abbrev Owns (t : LockTable) (id : OracleId) (g : Grip) : Prop :=
  ∀ s, g.slot? = some s → t.slots.get? id = some s

theorem owns_of_slot (hs : t.slots.get? id = some s) (hg : g.slot? = some s) : t.Owns id g := by
  intro s' hs'
  obtain rfl := Option.some.inj (hg.symm.trans hs')
  exact hs

/-- A turn changes the view of no other oracle. -/
theorem Turn.view_of_ne (h : Turn id t g e t' g') (ht : t.Tidy) (howns : t.Owns id g)
    (hne : i ≠ id) : t'.view i = t.view i := by
  -- The slot of another oracle is another one.
  have hother : ∀ {s s'}, t.slots.get? id = some s → t.slots.get? i = some s' → s' ≠ s := by
    rintro s s' hs hs' rfl
    exact hne (ht.apart i id s' hs' hs)
  cases h with
  | stays | found | refused => rfl
  | made => exact view_congr (Dict.get?_set_of_ne _ _ hne) fun _ _ => Iff.rfl
  | @took s _ =>
    refine view_congr rfl fun s' hs' => ?_
    exact List.mem_cons.trans (or_iff_right (hother (howns s rfl) hs'))
  | released s =>
    exact view_congr rfl fun s' hs' => List.mem_erase_of_ne (hother (howns s rfl) hs')
  | forgot => exact view_congr (Dict.get?_unset_of_ne _ hne) fun _ _ => Iff.rfl

theorem Turn.tidy (h : Turn id t g e t' g') (ht : t.Tidy) (howns : t.Owns id g) : t'.Tidy := by
  cases h with
  | stays | found | refused => exact ht
  | made hnone =>
    -- The new slot is none of those that were made before.
    have hcases : ∀ i s, (Dict.set id t.next t.slots).get? i = some s →
        i = id ∧ s = t.next ∨ t.slots.get? i = some s := by
      intro i s hs
      by_cases hi : i = id
      · subst hi
        rw [Dict.get?_set_self] at hs
        exact .inl ⟨rfl, (Option.some.inj hs).symm⟩
      · rw [Dict.get?_set_of_ne _ _ hi] at hs
        exact .inr hs
    refine ⟨?_, ?_, fun s hs => Nat.lt_succ_of_lt (ht.held s hs), ht.nodup⟩
    · intro i j s hi hj
      have hold : ∀ i, t.slots.get? i = some s → s ≠ t.next :=
        fun i hs => Nat.ne_of_lt (ht.made i s hs)
      rcases hcases i s hi with ⟨hid, hs⟩ | hi' <;> rcases hcases j s hj with ⟨hjd, hs'⟩ | hj'
      · rw [hid, hjd]
      · exact absurd hs (hold j hj')
      · exact absurd hs' (hold i hi')
      · exact ht.apart i j s hi' hj'
    · intro i s hs
      rcases hcases i s hs with ⟨-, rfl⟩ | hs'
      · exact Nat.lt_succ_self _
      · exact Nat.lt_succ_of_lt (ht.made i s hs')
  | took hfree =>
    refine ⟨ht.apart, ht.made, ?_, List.nodup_cons.mpr ⟨hfree, ht.nodup⟩⟩
    intro s hs
    rcases List.mem_cons.mp hs with rfl | hs
    · exact ht.made id s (howns s rfl)
    · exact ht.held s hs
  | released s =>
    exact ⟨ht.apart, ht.made, fun _ hs => ht.held _ (List.mem_of_mem_erase hs), ht.nodup.erase s⟩
  | forgot =>
    have hsub : ∀ i s, (Dict.unset t.slots id).get? i = some s → t.slots.get? i = some s := by
      intro i s hs
      by_cases hi : i = id
      · subst hi
        rw [Dict.get?_unset_self] at hs
        cases hs
      · rwa [Dict.get?_unset_of_ne _ hi] at hs
    exact ⟨fun i j s hi hj => ht.apart i j s (hsub i s hi) (hsub j s hj),
      fun i s hs => ht.made i s (hsub i s hs), ht.held, ht.nodup⟩

/-! ## What an oracle does to its own lock -/

/-- Looking the lock up makes its slot, and leaves it held or free as it was. -/
theorem slot_self (ht : t.Tidy) (id : OracleId) :
    (t.slot id).2.slots.get? id = some (t.slot id).1 ∧
      (t.slot id).2.isHeld id = t.isHeld id := by
  cases hs : t.slots.get? id with
  | some s =>
    have hslot : t.slot id = (s, t) := by
      rw [slot, hs]
    rw [hslot]
    exact ⟨hs, rfl⟩
  | none =>
    have hslot : t.slot id
        = (t.next, { t with slots := t.slots.set id t.next, next := t.next + 1 }) := by
      rw [slot, hs]
    have hnew : (Dict.set id t.next t.slots).get? id = some t.next := Dict.get?_set_self _ _ _
    rw [hslot]
    refine ⟨hnew, (isHeld_of_slot hnew).trans ?_⟩
    have hfree : t.next ∉ t.held := fun hmem => Nat.lt_irrefl _ (ht.held _ hmem)
    simp [isHeld, view, hs, hfree]

/-- The lock is taken exactly if nobody holds it. -/
theorem tryTake_self (hs : t.slots.get? id = some s) :
    t.tryTake s = if t.isHeld id then (false, t) else (true, { t with held := s :: t.held }) := by
  rw [isHeld_of_slot hs, tryTake]
  by_cases hmem : s ∈ t.held <;> simp [isFree, hmem]

/-- A lock that is given back is free. -/
theorem isHeld_release (ht : t.Tidy) (hs : t.slots.get? id = some s) :
    (t.release s).isHeld id = false := by
  have hslot : (t.release s).slots.get? id = some s := hs
  rw [isHeld_of_slot hslot]
  simp [release, ht.nodup.mem_erase_iff]

end PriceOracle.LockTable
