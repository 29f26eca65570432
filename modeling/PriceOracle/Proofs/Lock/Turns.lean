import Mathlib.Logic.Function.Basic
import PriceOracle.Proofs.Lock.Grip

/-!
# Locks among many calls

What the table of locks has to do with the grips of the calls that run. A `Turn` is all that one
request of a disciplined call can do to both of them.

* `LockTable.Serves`: a slot is held by exactly one call or is free, and no two oracles share a
  slot. Every turn preserves it.
* `LockTable.Current`: whoever uses the lock of an oracle uses the slot that the table has. Every
  turn preserves it, unless it forgets the lock while a call uses it.
-/

namespace PriceOracle

/-- The calls that run: the oracle of each, and how it stands to its lock. -/
abbrev Grips := Nat → Option (OracleId × Grip)

namespace LockTable

variable {t t' : LockTable} {grips : Grips} {id i : OracleId} {g g' : Grip} {e : Option OracleId}
  {n : Nat}

/-! ## Turns -/

/-- What one request of a call about an oracle may do to the locks and to its own grip, and the
oracle whose lock it forgets. -/
inductive Turn (id : OracleId) :
    LockTable → Grip → Option OracleId → LockTable → Grip → Prop where
  | stays (t : LockTable) (g : Grip) : Turn id t g none t g
  | found {t : LockTable} {s : Slot} : t.slots.get? id = some s →
      Turn id t .apart none t (.waiting s)
  | made {t : LockTable} : t.slots.get? id = none →
      Turn id t .apart none { t with slots := t.slots.set id t.next, next := t.next + 1 }
        (.waiting t.next)
  | took {t : LockTable} {s : Slot} : s ∉ t.held →
      Turn id t (.waiting s) none { t with held := s :: t.held } (.holding s)
  | refused (t : LockTable) (s : Slot) : Turn id t (.waiting s) none t .apart
  | released (t : LockTable) (s : Slot) : Turn id t (.holding s) none (t.release s) .apart
  | forgot (t : LockTable) : Turn id t .apart (some id) (t.forget id) .apart

theorem turn_of_slot {s : Slot} (h : t.slot id = (s, t')) :
    Turn id t .apart none t' (.waiting s) := by
  unfold slot at h
  split at h
  · rename_i hfound
    obtain ⟨rfl, rfl⟩ := Prod.mk.inj h
    exact .found hfound
  · rename_i hnone
    obtain ⟨rfl, rfl⟩ := Prod.mk.inj h
    exact .made hnone

theorem isFree_iff {s : Slot} : t.isFree s = true ↔ s ∉ t.held := by
  simp [isFree]

theorem tryTake_of_free {s : Slot} (h : s ∉ t.held) :
    t.tryTake s = (true, { t with held := s :: t.held }) := by
  rw [tryTake, if_pos (isFree_iff.mpr h)]

theorem turn_of_tryTake {s : Slot} {taken : Bool} (h : t.tryTake s = (taken, t')) :
    Turn id t (.waiting s) none t' (if taken then .holding s else .apart) := by
  unfold tryTake at h
  split at h
  · rename_i hfree
    obtain ⟨rfl, rfl⟩ := Prod.mk.inj h
    exact .took (isFree_iff.mp hfree)
  · obtain ⟨rfl, rfl⟩ := Prod.mk.inj h
    exact .refused _ s

/-! ## Locks that serve their calls -/

/-- A slot goes by the name of an oracle: the table has it, or a call about the oracle uses it. -/
def Names (t : LockTable) (grips : Grips) (i : OracleId) (s : Slot) : Prop :=
  t.slots.get? i = some s ∨ ∃ n g, grips n = some (i, g) ∧ g.slot? = some s

/-- The slots held are those that calls hold, each by one of them, and no two oracles share one. -/
structure Serves (t : LockTable) (grips : Grips) : Prop where
  held : ∀ s, s ∈ t.held ↔ ∃ n i, grips n = some (i, .holding s)
  nodup : t.held.Nodup
  single : ∀ m n i j s, grips m = some (i, .holding s) → grips n = some (j, .holding s) → m = n
  known : ∃ owner : Slot → OracleId, ∀ i s, t.Names grips i s → s < t.next ∧ owner s = i

/-- Whoever uses the lock of an oracle uses the slot that the table has. -/
def Current (id : OracleId) (t : LockTable) (grips : Grips) : Prop :=
  ∀ n g s, grips n = some (id, g) → g.slot? = some s → t.slots.get? id = some s

/-- No call uses the lock of an oracle. -/
def Unused (id : OracleId) (grips : Grips) : Prop :=
  ∀ n g, grips n = some (id, g) → g = .apart

/-- A call has another grip. -/
abbrev regrip (grips : Grips) (n : Nat) (i : OracleId) (g : Grip) : Grips :=
  Function.update grips n (some (i, g))

/-- A call that had some grip, or starts, and has another. -/
theorem cases_regrip {m : Nat} {j : OracleId} {h : Grip}
    (hm : regrip grips n i g m = some (j, h)) :
    (m = n ∧ j = i ∧ h = g) ∨ (m ≠ n ∧ grips m = some (j, h)) := by
  by_cases hsame : m = n
  · subst hsame
    rw [regrip, Function.update_self] at hm
    obtain ⟨rfl, rfl⟩ := Prod.mk.inj (Option.some.inj hm)
    exact .inl ⟨rfl, rfl, rfl⟩
  · rw [regrip, Function.update_of_ne hsame] at hm
    exact .inr ⟨hsame, hm⟩

theorem serves_empty : empty.Serves fun _ => none where
  held := by simp [empty]
  nodup := List.nodup_nil
  single := nofun
  known := by
    refine ⟨fun _ => "", ?_⟩
    rintro i s (h | ⟨n, g, h, -⟩)
    · cases h
    · cases h

/-- A slot that is used only where it was used before keeps its name. -/
theorem Serves.known_of_subset {grips' : Grips} (h : t.Serves grips) (hnext : t.next ≤ t'.next)
    (hsub : ∀ i s, t'.Names grips' i s → t.Names grips i s) :
    ∃ owner : Slot → OracleId, ∀ i s, t'.Names grips' i s → s < t'.next ∧ owner s = i := by
  obtain ⟨owner, howner⟩ := h.known
  refine ⟨owner, fun i s hnames => ?_⟩
  obtain ⟨hlt, heq⟩ := howner i s (hsub i s hnames)
  exact ⟨Nat.lt_of_lt_of_le hlt hnext, heq⟩

/-- A call whose new slot, if any, goes by its name. -/
theorem names_of_regrip (hslots : ∀ j s, t'.slots.get? j = some s → t.Names grips j s)
    (hown : ∀ s, g'.slot? = some s → t.Names grips i s) {j : OracleId} {s : Slot}
    (hnames : t'.Names (regrip grips n i g') j s) : t.Names grips j s := by
  rcases hnames with htable | ⟨m, h, hm, hslot⟩
  · exact hslots j s htable
  · rcases cases_regrip hm with ⟨-, rfl, rfl⟩ | ⟨-, hm⟩
    · exact hown s hslot
    · exact .inr ⟨m, h, hm, hslot⟩

/-- A call that is apart from its lock uses no slot. -/
theorem names_of_apart (hslots : ∀ j s, t'.slots.get? j = some s → t.Names grips j s)
    {j : OracleId} {s : Slot} (hnames : t'.Names (regrip grips n i .apart) j s) :
    t.Names grips j s := by
  refine names_of_regrip hslots ?_ hnames
  intro s hs
  cases hs

/-- A call about an oracle starts, or a call that holds nothing goes on holding nothing. -/
theorem Serves.of_not_holding (h : t.Serves grips) (hheld : t'.held = t.held)
    (hbefore : ∀ j s, grips n ≠ some (j, .holding s)) (hafter : ∀ s, g' ≠ .holding s)
    (hknown : ∃ owner : Slot → OracleId, ∀ j s, t'.Names (regrip grips n i g') j s →
      s < t'.next ∧ owner s = j) : t'.Serves (regrip grips n i g') := by
  have hsame : ∀ m j s, regrip grips n i g' m = some (j, .holding s) ↔
      grips m = some (j, .holding s) := by
    intro m j s
    constructor
    · intro hm
      rcases cases_regrip hm with ⟨-, -, rfl⟩ | ⟨-, hm⟩
      · exact absurd rfl (hafter s)
      · exact hm
    · intro hm
      have hne : m ≠ n := by
        rintro rfl
        exact hbefore j s hm
      rw [regrip, Function.update_of_ne hne]
      exact hm
  refine ⟨?_, ?_, ?_, hknown⟩
  · intro s
    simp only [hsame, hheld]
    exact h.held s
  · rw [hheld]
    exact h.nodup
  · intro m k i j s hm hk
    exact h.single m k i j s ((hsame m i s).mp hm) ((hsame k j s).mp hk)

/-- A call starts apart from its lock. -/
theorem Serves.start (h : t.Serves grips) (hn : grips n = none) :
    t.Serves (regrip grips n i .apart) := by
  refine h.of_not_holding rfl (by simp [hn]) nofun ?_
  exact h.known_of_subset (Nat.le_refl _) fun j s => names_of_apart fun _ _ => .inl

theorem ne_holding (hn : grips n = some (i, g)) (hg : ∀ s, g ≠ .holding s) (j : OracleId)
    (s : Slot) : grips n ≠ some (j, .holding s) := by
  intro heq
  exact hg s (Prod.mk.inj (Option.some.inj (hn.symm.trans heq))).2

/-- Calls other than one that held nothing go on holding what they hold. -/
theorem regrip_of_holding {m : Nat} {j : OracleId} {s : Slot} (hm : grips m = some (j, .holding s))
    (hn : grips n ≠ some (j, .holding s)) : regrip grips n i g m = some (j, .holding s) := by
  have hne : m ≠ n := by
    rintro rfl
    exact hn hm
  rw [regrip, Function.update_of_ne hne]
  exact hm

/-- A slot that is made belongs to the oracle that it is made for. -/
theorem Serves.made (h : t.Serves grips) (hn : grips n = some (i, .apart)) :
    { t with slots := t.slots.set i t.next, next := t.next + 1 }.Serves
      (regrip grips n i (.waiting t.next)) := by
  refine h.of_not_holding rfl (ne_holding hn nofun) nofun ?_
  obtain ⟨owner, howner⟩ := h.known
  refine ⟨Function.update owner t.next i, fun j s hnames => ?_⟩
  have hcases : (s = t.next ∧ j = i) ∨ t.Names grips j s := by
    rcases hnames with htable | ⟨m, k, hm, hslot⟩
    · by_cases hj : j = i
      · subst hj
        rw [Dict.get?_set_self] at htable
        exact .inl ⟨(Option.some.inj htable).symm, rfl⟩
      · rw [Dict.get?_set_of_ne _ _ hj] at htable
        exact .inr (.inl htable)
    · rcases cases_regrip hm with ⟨-, rfl, rfl⟩ | ⟨-, hm⟩
      · exact .inl ⟨(Option.some.inj hslot).symm, rfl⟩
      · exact .inr (.inr ⟨m, k, hm, hslot⟩)
  rcases hcases with ⟨rfl, rfl⟩ | hbefore
  · exact ⟨Nat.lt_succ_self _, Function.update_self _ _ _⟩
  · obtain ⟨hlt, heq⟩ := howner j s hbefore
    refine ⟨Nat.lt_succ_of_lt hlt, ?_⟩
    rw [Function.update_of_ne (Nat.ne_of_lt hlt)]
    exact heq

/-- A free slot is taken by the call that waits for it, and by no other. -/
theorem Serves.took {s : Slot} (h : t.Serves grips) (hn : grips n = some (i, .waiting s))
    (hfree : s ∉ t.held) :
    { t with held := s :: t.held }.Serves (regrip grips n i (.holding s)) := by
  -- The slot was free, so no call holds it yet.
  have hnot : ∀ m j, grips m ≠ some (j, .holding s) := by
    intro m j hm
    exact hfree ((h.held s).mpr ⟨m, j, hm⟩)
  refine ⟨?_, List.nodup_cons.mpr ⟨hfree, h.nodup⟩, ?_, ?_⟩
  · intro s'
    constructor
    · intro hmem
      rcases List.mem_cons.mp hmem with rfl | hmem
      · exact ⟨n, i, Function.update_self _ _ _⟩
      · obtain ⟨m, j, hm⟩ := (h.held s').mp hmem
        exact ⟨m, j, regrip_of_holding hm (ne_holding hn nofun j s')⟩
    · rintro ⟨m, j, hm⟩
      rcases cases_regrip hm with ⟨-, -, heq⟩ | ⟨-, hm⟩
      · cases heq
        exact List.mem_cons_self
      · exact List.mem_cons_of_mem _ ((h.held s').mpr ⟨m, j, hm⟩)
  · intro m k i' j s' hm hk
    rcases cases_regrip hm with ⟨hmn, -, heq⟩ | ⟨-, hm'⟩
    · cases heq
      rcases cases_regrip hk with ⟨hkn, -, -⟩ | ⟨-, hk'⟩
      · exact hmn.trans hkn.symm
      · exact absurd hk' (hnot k j)
    · rcases cases_regrip hk with ⟨-, -, heq⟩ | ⟨-, hk'⟩
      · cases heq
        exact absurd hm' (hnot m i')
      · exact h.single m k i' j s' hm' hk'
  · refine h.known_of_subset (Nat.le_refl _) fun j s' => names_of_regrip (fun _ _ => .inl) ?_
    exact fun s' hs => .inr ⟨n, _, hn, hs⟩

/-- A slot that is given back is free, since no other call holds it. -/
theorem Serves.released {s : Slot} (h : t.Serves grips) (hn : grips n = some (i, .holding s)) :
    (t.release s).Serves (regrip grips n i .apart) := by
  refine ⟨?_, h.nodup.erase s, ?_, ?_⟩
  · intro s'
    rw [release, h.nodup.mem_erase_iff, h.held s']
    constructor
    · rintro ⟨hne, m, j, hm⟩
      refine ⟨m, j, regrip_of_holding hm fun heq => ?_⟩
      cases hn.symm.trans heq
      exact hne rfl
    · rintro ⟨m, j, hm⟩
      rcases cases_regrip hm with ⟨-, -, heq⟩ | ⟨hne, hm⟩
      · cases heq
      · refine ⟨?_, m, j, hm⟩
        rintro rfl
        exact hne (h.single m n j i s' hm hn)
  · intro m k i' j s' hm hk
    rcases cases_regrip hm with ⟨-, -, heq⟩ | ⟨-, hm⟩
    · cases heq
    · rcases cases_regrip hk with ⟨-, -, heq⟩ | ⟨-, hk⟩
      · cases heq
      · exact h.single m k i' j s' hm hk
  · exact h.known_of_subset (Nat.le_refl _) fun j s' => names_of_apart fun _ _ => .inl

/-- A lock that is forgotten leaves the slot that it had to the calls that use it. -/
theorem Serves.forgot (h : t.Serves grips) (hn : grips n = some (i, .apart)) :
    (t.forget i).Serves (regrip grips n i .apart) := by
  refine h.of_not_holding rfl (ne_holding hn nofun) nofun ?_
  refine h.known_of_subset (Nat.le_refl _) fun j s' => names_of_apart ?_
  intro k s hk
  by_cases hsame : k = i
  · rw [hsame, forget, Dict.get?_unset_self] at hk
    cases hk
  · rw [forget, Dict.get?_unset_of_ne _ hsame] at hk
    exact .inl hk

/-- Every turn preserves that the locks serve their calls. -/
theorem Turn.serves (hturn : Turn i t g e t' g') (hn : grips n = some (i, g))
    (h : t.Serves grips) : t'.Serves (regrip grips n i g') := by
  cases hturn with
  | stays =>
    have hsame : regrip grips n i g = grips := by
      rw [regrip, ← hn, Function.update_eq_self]
    rw [hsame]
    exact h
  | found hfound =>
    refine h.of_not_holding rfl (ne_holding hn nofun) nofun ?_
    refine h.known_of_subset (Nat.le_refl _) fun j s => names_of_regrip (fun _ _ => .inl) ?_
    rintro s ⟨⟩
    exact .inl hfound
  | made => exact h.made hn
  | took hfree => exact h.took hn hfree
  | refused =>
    refine h.of_not_holding rfl (ne_holding hn nofun) nofun ?_
    exact h.known_of_subset (Nat.le_refl _) fun j s' => names_of_apart fun _ _ => .inl
  | released => exact h.released hn
  | forgot => exact h.forgot hn

/-! ## Slots that are current -/

theorem Current.start (h : Current id t grips) : Current id t (regrip grips n i .apart) := by
  intro m g s hm hslot
  rcases cases_regrip hm with ⟨-, -, rfl⟩ | ⟨-, hm⟩
  · cases hslot
  · exact h m g s hm hslot

/-- Whoever uses the lock of an oracle goes on using the slot that the table has, unless the lock is
forgotten while it is used. -/
theorem Turn.current (hturn : Turn i t g e t' g') (hn : grips n = some (i, g))
    (hcareful : e = some id → Unused id grips) (h : Current id t grips) :
    Current id t' (regrip grips n i g') := by
  intro m k s hm hslot
  cases hturn with
  | stays | took | released | refused =>
    -- The table has the slots that it had, and the call uses no other than before.
    rcases cases_regrip hm with ⟨-, rfl, rfl⟩ | ⟨-, hm⟩
    · first
        | exact h n _ s hn hslot
        | cases hslot
    · exact h m k s hm hslot
  | found hfound =>
    rcases cases_regrip hm with ⟨-, rfl, rfl⟩ | ⟨-, hm⟩
    · cases hslot
      exact hfound
    · exact h m k s hm hslot
  | made hnone =>
    by_cases hsame : id = i
    · subst hsame
      rcases cases_regrip hm with ⟨-, -, rfl⟩ | ⟨-, hm⟩
      · cases hslot
        exact Dict.get?_set_self _ _ _
      · cases hnone.symm.trans (h m k s hm hslot)
    · rcases cases_regrip hm with ⟨-, heq, -⟩ | ⟨-, hm⟩
      · exact absurd heq hsame
      · exact (Dict.get?_set_of_ne _ _ hsame).trans (h m k s hm hslot)
  | forgot =>
    rcases cases_regrip hm with ⟨-, -, rfl⟩ | ⟨-, hbefore⟩
    · cases hslot
    · by_cases hsame : id = i
      · subst hsame
        rw [hcareful rfl m k hbefore] at hslot
        cases hslot
      · exact (Dict.get?_unset_of_ne _ hsame).trans (h m k s hbefore hslot)

/-- A current slot is held by one call. -/
theorem Current.single {m : Nat} {s s' : Slot} (h : Current id t grips) (hserves : t.Serves grips)
    (hm : grips m = some (id, .holding s)) (hn : grips n = some (id, .holding s')) : m = n := by
  have hs : t.slots.get? id = some s := h m _ s hm rfl
  have hs' : t.slots.get? id = some s' := h n _ s' hn rfl
  obtain rfl : s = s' := Option.some.inj (hs.symm.trans hs')
  exact hserves.single m n id id s hm hn

end LockTable

end PriceOracle
