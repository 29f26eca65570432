import PriceOracle.Proofs.Chain.Submissions
import PriceOracle.Proofs.Lock.Pool
import PriceOracle.Proofs.Registry.Plans

/-!
# One call of an oracle in flight

A lock keeps calls apart only as long as they all find the same one. The lock of an oracle that is
removed is given back before it is forgotten; whoever takes it, or waits for it, when it is
forgotten has a lock that the next call does not find.

* `Pool.Sound.crowded`: where a lock is gone that a call uses, two calls may come to be in flight.
* `forgets_while_used`: a removal may forget a lock that a cycle holds.
* `single_flight_iff_forgotten_unused`: this is the only way to two calls in flight.
-/

namespace PriceOracle

open LockTable (Unused)
open Pool (Sound InFlight)
open Program (Leads)
open Surroundings (Action interface)

variable {φ : Type} {N : Nature φ} {p p' : Pool φ} {id : OracleId} {n : Nat} {w : World φ}
  {t t' : LockTable}

/-! ## Locks that are forgotten while they are used -/

/-- A step that forgets a lock takes it out of the table and leaves all grips as they are. -/
theorem Nature.Pooled.forgotten (hstep : N.Pooled p (some id) p') (hsound : p.Sound) :
    p'.locks.slots.get? id = none ∧ p'.grips = p.grips := by
  rcases hstep.turn hsound with ⟨n, i, g, g', hn, hturn, hgrips⟩ | ⟨hnone, -⟩
  · generalize p'.locks = locks at hturn ⊢
    cases hturn with
    | forgot =>
      refine ⟨Dict.get?_unset_self _ _, ?_⟩
      rw [hgrips, LockTable.regrip, ← hn, Function.update_eq_self]
  · cases hnone

/-- A call that waits is about to take its lock. -/
theorem Pool.Sound.waiting {s : Slot} {rest : Action Unit} (hsound : p.Sound)
    (hn : p.calls[n]? = some ⟨id, .waiting s, rest⟩) :
    (∃ next, rest = .ask (.tryTake s) next) ∨ ∃ next, rest = .ask (.take s) next := by
  have hdisciplined : Disciplined id rest (.waiting s) := hsound.disciplined _ _ hn
  cases rest with
  | done a => cases hdisciplined
  | ask r next =>
    obtain ⟨hallows, -⟩ := hdisciplined
    cases r with
    | tryTake s' =>
      cases hallows
      exact .inl ⟨next, rfl⟩
    | take s' =>
      cases hallows
      exact .inr ⟨next, rfl⟩
    | release s' => cases hallows
    | slot i | forget i => cases hallows.2
    | _ => exact absurd rfl (hallows s)

/-- A call that waits for a lock may take it once it is free. -/
theorem Pool.Sound.takes {s : Slot} (hsound : p.Sound) (hn : p.grips n = some (id, .waiting s))
    (hfree : s ∉ p.locks.held) :
    ∃ p', N.Pooled p none p' ∧ p'.world = p.world ∧ p'.locks.slots = p.locks.slots ∧
      p'.InFlight id n ∧ ∀ m, m ≠ n → p'.grips m = p.grips m := by
  obtain ⟨rest, hcall⟩ := Pool.call_of_grips hn
  let t : LockTable := { p.locks with held := s :: p.locks.held }
  have htake : p.locks.tryTake s = (true, t) := LockTable.tryTake_of_free hfree
  have hgrips : ∀ rest' : Action Unit, (p.goOn p.world t n ⟨id, .holding s, rest'⟩).grips
      = LockTable.regrip p.grips n id (.holding s) := fun rest' => Pool.grips_goOn hcall _
  have hafter : ∀ rest' : Action Unit,
      (p.goOn p.world t n ⟨id, .holding s, rest'⟩).InFlight id n ∧
        ∀ m, m ≠ n → (p.goOn p.world t n ⟨id, .holding s, rest'⟩).grips m = p.grips m := by
    intro rest'
    constructor
    · refine ⟨s, ?_⟩
      rw [hgrips]
      exact Function.update_self _ _ _
    · intro m hne
      rw [hgrips]
      exact Function.update_of_ne hne _ _
  rcases hsound.waiting hcall with ⟨next, rfl⟩ | ⟨next, rfl⟩
  · have hserves : N.serves (.tryTake s) (p.world, p.locks) true (p.world, t) := ⟨htake, rfl⟩
    exact ⟨_, .reply hcall hserves, rfl, rfl, hafter _⟩
  · have hserves : N.serves (.take s) (p.world, p.locks) () (p.world, t) := ⟨htake, rfl⟩
    exact ⟨_, .reply hcall hserves, rfl, rfl, hafter _⟩

theorem LockTable.Serves.next_not_held {grips : Grips} (h : t.Serves grips) : t.next ∉ t.held := by
  intro hmem
  obtain ⟨n, i, hn⟩ := (h.held _).mp hmem
  obtain ⟨owner, howner⟩ := h.known
  exact Nat.lt_irrefl _ (howner i _ (.inr ⟨n, _, hn, rfl⟩)).1

/-- A cycle that starts when the lock is forgotten finds a free one. -/
theorem Pool.Sound.enters (hsound : p.Sound) (hgone : p.locks.slots.get? id = none) :
    ∃ p' n, N.Retains id p p' ∧ p'.world = p.world ∧ p'.InFlight id n ∧
      p.grips n = none ∧ ∀ m, m ≠ n → p'.grips m = p.grips m := by
  let j : Job := .cycle Cycle.onceOnly id ⟨1⟩
  let n := p.calls.length
  let t : LockTable :=
    { p.locks with slots := p.locks.slots.set id p.locks.next, next := p.locks.next + 1 }
  -- The cycle starts, and looks for the lock.
  have hstart : N.Pooled p none (p.add j.start) := .start p j
  obtain ⟨next, hnext⟩ : ∃ next, j.start = ⟨id, .apart, .ask (.slot id) next⟩ := ⟨_, rfl⟩
  have hcall : (p.add j.start).calls[n]? = some ⟨id, .apart, .ask (.slot id) next⟩ := by
    rw [← hnext]
    exact List.getElem?_concat_length
  have hslot : N.serves (.slot id) (p.world, p.locks) p.locks.next (p.world, t) := by
    refine ⟨?_, rfl⟩
    rw [LockTable.slot, hgone]
    rfl
  let p₂ := (p.add j.start).goOn p.world t n ⟨id, .waiting p.locks.next, next p.locks.next⟩
  have hlook : N.Pooled (p.add j.start) none p₂ := .reply hcall hslot
  have hsound₂ : p₂.Sound := (hsound.step hstart).step hlook
  have hadded : (p.add j.start).grips = LockTable.regrip p.grips n id .apart :=
    Pool.grips_add j.start
  have hgrips₂ : p₂.grips
      = LockTable.regrip (p.add j.start).grips n id (.waiting p.locks.next) :=
    Pool.grips_goOn hcall _
  -- Then it takes it.
  have hwaits : p₂.grips n = some (id, .waiting p.locks.next) := by
    rw [hgrips₂]
    exact Function.update_self _ _ _
  obtain ⟨p', htake, hworld, -, hflight, hothers⟩ :=
    hsound₂.takes (N := N) hwaits hsound.serves.next_not_held
  refine ⟨p', n, ?_, hworld, hflight, Pool.grips_length, ?_⟩
  · exact ((Relation.ReflTransGen.single ⟨_, hstart, nofun⟩).tail ⟨_, hlook, nofun⟩).tail
      ⟨_, htake, nofun⟩
  · intro m hne
    rw [hothers m hne, hgrips₂, LockTable.regrip, Function.update_of_ne hne, hadded,
      LockTable.regrip, Function.update_of_ne hne]

/-- Of the calls that use a lock some may come to be in flight. -/
theorem Pool.Sound.flies (hsound : p.Sound) (hused : ¬Unused id p.grips) :
    ∃ p' m, N.Retains id p p' ∧ p'.Sound ∧ p'.world = p.world ∧
      p'.locks.slots = p.locks.slots ∧ p'.InFlight id m := by
  have hsome : ∃ n g, p.grips n = some (id, g) ∧ g ≠ .apart := by
    by_contra hnone
    refine hused fun n g hn => ?_
    by_contra hne
    exact hnone ⟨n, g, hn, hne⟩
  obtain ⟨n, g, hn, hne⟩ := hsome
  cases g with
  | apart => exact absurd rfl hne
  | holding s => exact ⟨p, n, .refl, hsound, rfl, rfl, s, hn⟩
  | waiting s =>
    by_cases hheld : s ∈ p.locks.held
    · -- Whoever holds it is about the same oracle.
      obtain ⟨m, i, hm⟩ := (hsound.serves.held s).mp hheld
      obtain ⟨owner, howner⟩ := hsound.serves.known
      have hi : owner s = i := (howner i s (.inr ⟨m, _, hm, rfl⟩)).2
      have hid : owner s = id := (howner id s (.inr ⟨n, _, hn, rfl⟩)).2
      rw [← hi, hid] at hm
      exact ⟨p, m, .refl, hsound, rfl, rfl, s, hm⟩
    · obtain ⟨p', hstep, hworld, hslots, hflight, -⟩ := hsound.takes (N := N) hn hheld
      exact ⟨p', n, .single ⟨_, hstep, nofun⟩, hsound.step hstep, hworld, hslots, hflight⟩

/-- Where a lock is gone that a call uses, two calls may come to be in flight. -/
theorem Pool.Sound.crowded (hsound : p.Sound) (hgone : p.locks.slots.get? id = none)
    (hused : ¬Unused id p.grips) :
    ∃ p' m n, N.Retains id p p' ∧ p'.world = p.world ∧ p'.InFlight id m ∧ p'.InFlight id n ∧
      m ≠ n := by
  obtain ⟨p₁, m, hretains, hsound₁, hworld, hslots, s, hm⟩ := hsound.flies (N := N) hused
  rw [← hslots] at hgone
  obtain ⟨p₂, n, hretains', hworld', hflight, hnew, hothers⟩ := hsound₁.enters (N := N) hgone
  have hne : m ≠ n := by
    rintro rfl
    cases hnew.symm.trans hm
  refine ⟨p₂, m, n, hretains.trans hretains', hworld'.trans hworld, ⟨s, ?_⟩, hflight, hne⟩
  rw [hothers m hne]
  exact hm

/-! ## Runs of one call -/

/-- The surroundings of one call, with its own grip, as long as the lock of an oracle is not
forgotten. -/
def Nature.tracks (N : Nature φ) (id : OracleId) :
    Behaviour interface ((World φ × LockTable) × Grip) :=
  fun r x reply y => N.serves r x.1 reply y.1 ∧ y.2 = x.2.after r reply ∧ r.forgotten? ≠ some id

/-- One call goes on while all others rest. -/
theorem retains_of_leads {q q' : Action Unit} {x y : (World φ × LockTable) × Grip}
    (hrun : Leads (N.tracks id) q x q' y) (before after : List Running) (i : OracleId) :
    N.Retains id ⟨x.1.1, x.1.2, before ++ ⟨i, x.2, q⟩ :: after⟩
      ⟨y.1.1, y.1.2, before ++ ⟨i, y.2, q'⟩ :: after⟩ := by
  induction hrun with
  | here q x => exact .refl
  | @ask r next reply x y z q hreply _ ih =>
    obtain ⟨hserves, hgrip, hretained⟩ := hreply
    let p : Pool φ := ⟨x.1.1, x.1.2, before ++ ⟨i, x.2, .ask r next⟩ :: after⟩
    have hcall : p.calls[before.length]? = some ⟨i, x.2, .ask r next⟩ := by
      simp [p]
    have hstep : N.Pooled p r.forgotten?
        (p.goOn y.1.1 y.1.2 before.length ⟨i, x.2.after r reply, next reply⟩) :=
      .reply hcall hserves
    have hset : p.goOn y.1.1 y.1.2 before.length ⟨i, x.2.after r reply, next reply⟩
        = ⟨y.1.1, y.1.2, before ++ ⟨i, y.2, next reply⟩ :: after⟩ := by
      simp [p, Pool.goOn, hgrip]
    rw [hset] at hstep
    exact .head ⟨_, hstep, hretained⟩ ih

/-- A job that starts runs up to some point. -/
theorem retains_job {j : Job} {q : Action Unit} {y : (World φ × LockTable) × Grip}
    (hrun : Leads (N.tracks id) j.program ((w, t), .apart) q y) (calls : List Running) :
    N.Retains id ⟨w, t, calls⟩ ⟨y.1.1, y.1.2, calls ++ [⟨j.oracle, y.2, q⟩]⟩ := by
  have hstart : N.Pooled ⟨w, t, calls⟩ none ⟨w, t, calls ++ [j.start]⟩ := .start _ j
  exact .head ⟨none, hstart, nofun⟩ (retains_of_leads hrun calls [] j.oracle)

/-- An oracle that is not there is registered. -/
theorem register_runs (N : Nature φ) (id : OracleId) {c : OracleConfig}
    (hcheck : Registry.check c = .ok ()) (hrow : w.table.row? c.id = none)
    (howner : w.table.owner? c = none) :
    ∃ w', w'.table = w.table.append c.id ⟨c, .initial⟩ ∧
      Leads (N.tracks id) (Job.register .anyone none c).program ((w, t), .apart) (.done ())
        ((w', t), .apart) := by
  have hanswer := Registry.may_answer N.mayFail (.register c) w.table w.storage
  rw [Registry.plan_register hcheck hrow howner] at hanswer
  let w' : World φ := ⟨w.table.append c.id ⟨c, .initial⟩,
    Registry.Write.applyAll [.row ⟨c, .initial⟩, .order (w.table.order ++ [c.id])] w.storage,
    w.outside⟩
  have hnone : none ≠ some id := (Option.some_ne_none id).symm
  have hregister : N.tracks id (.registry (.register c)) ((w, t), .apart) (.ok ())
      ((w', t), .apart) := ⟨⟨⟨hanswer, rfl⟩, rfl⟩, rfl, hnone⟩
  have hemit : N.tracks id (.emit (.registered c.id)) ((w', t), .apart) () ((w', t), .apart) :=
    ⟨⟨rfl, rfl⟩, rfl, hnone⟩
  exact ⟨w', rfl, .ask hregister (.reply hemit)⟩

/-- An oracle is removed up to the point where its lock is about to be forgotten. -/
theorem remove_runs {s : Slot} (hrow : w.table.row? id ≠ none) (hslot : t.slot id = (s, t'))
    (hfree : s ∉ t'.held) :
    ∃ w' next, w'.table = w.table.remove id ∧
      Leads (N.tracks id) (Job.remove .anyone none id).program ((w, t), .apart)
        (.ask (.forget id) next) ((w', t'), .apart) := by
  have hanswer := Registry.may_answer N.mayFail (.remove id) w.table w.storage
  rw [Registry.plan_remove hrow] at hanswer
  have hback : t' = ({ t' with held := s :: t'.held } : LockTable).release s := by
    simp [LockTable.release]
  let w' : World φ := ⟨w.table.remove id,
    Registry.Write.applyAll [.order (w.table.order.filter (· != id)), .drop id] w.storage,
    w.outside⟩
  let held : LockTable := { t' with held := s :: t'.held }
  have hnone : none ≠ some id := (Option.some_ne_none id).symm
  have hlook : N.tracks id (.slot id) ((w, t), .apart) s ((w, t'), .waiting s) :=
    ⟨⟨hslot, rfl⟩, rfl, hnone⟩
  have htake : N.tracks id (.take s) ((w, t'), .waiting s) () ((w, held), .holding s) :=
    ⟨⟨LockTable.tryTake_of_free hfree, rfl⟩, rfl, hnone⟩
  have hremove : N.tracks id (.registry (.remove id)) ((w, held), .holding s) (.ok ())
      ((w', held), .holding s) := ⟨⟨⟨hanswer, rfl⟩, rfl⟩, rfl, hnone⟩
  have hrelease : N.tracks id (.release s) ((w', held), .holding s) () ((w', t'), .apart) :=
    ⟨⟨hback, rfl⟩, rfl, hnone⟩
  exact ⟨w', _, rfl, .ask hlook (.ask htake (.ask hremove (.reply hrelease)))⟩

/-- A cycle takes the lock. -/
theorem cycle_runs (policy : Cycle.Policy) (deadline : Duration) {s : Slot}
    (hslot : t.slot id = (s, t')) (hfree : s ∉ t'.held) :
    ∃ q, Leads (N.tracks id) (Job.cycle policy id deadline).program ((w, t), .apart) q
      ((w, { t' with held := s :: t'.held }), .holding s) := by
  have hnone : none ≠ some id := (Option.some_ne_none id).symm
  have hlook : N.tracks id (.slot id) ((w, t), .apart) s ((w, t'), .waiting s) :=
    ⟨⟨hslot, rfl⟩, rfl, hnone⟩
  have htake : N.tracks id (.tryTake s) ((w, t'), .waiting s) true
      ((w, { t' with held := s :: t'.held }), .holding s) :=
    ⟨⟨LockTable.tryTake_of_free hfree, rfl⟩, rfl, hnone⟩
  exact ⟨_, .ask hlook (.reply htake)⟩

/-! ## An oracle that is registered again while it is removed -/

/-- An oracle is removed and registered again; a cycle takes the lock that the removal gave back,
and then the removal forgets it. -/
theorem forgets_while_used (N : Nature φ) (outside : φ) {c : OracleConfig}
    (hcheck : Registry.check c = .ok ()) :
    ∃ p p', N.Retains c.id (.fresh outside) p ∧ N.Pooled p (some c.id) p' ∧
      p'.world.table.row? c.id = some ⟨c, .initial⟩ ∧ ¬Unused c.id p.grips := by
  let t : LockTable := ⟨[(c.id, 0)], [], 1⟩
  obtain ⟨w₁, htable₁, hregister⟩ := register_runs N c.id (t := .empty) (w := .fresh outside)
    hcheck rfl rfl
  have hthere : w₁.table.row? c.id ≠ none := by
    rw [htable₁, Table.row_append_self]
    nofun
  have hnew : LockTable.empty.slot c.id = (0, t) := rfl
  -- The removal stops short of its last request: the lock is released, not yet forgotten.
  obtain ⟨w₂, next, htable₂, hremove⟩ :=
    remove_runs (N := N) hthere hnew (List.not_mem_nil (a := 0))
  have hgone : w₂.table.row? c.id = none := by
    rw [htable₂]
    exact Table.row_remove_self _ _
  have howner : w₂.table.owner? c = none := by
    rw [htable₂, htable₁]
    simp [Table.owner?, Table.remove, Table.append, World.fresh, Table.empty, Dict.set, Dict.unset]
  obtain ⟨w₃, htable₃, hagain⟩ :=
    register_runs N c.id (t := t) hcheck hgone howner
  have hfound : t.slot c.id = (0, t) := by
    simp [t, LockTable.slot, Dict.get?]
  -- A cycle of the new oracle takes the slot that the removal is about to forget.
  obtain ⟨q, hcycle⟩ := cycle_runs (N := N) (w := w₃) Cycle.onceOnly ⟨1⟩ hfound
    (List.not_mem_nil (a := 0))
  let locks : LockTable := { t with held := 0 :: t.held }
  let p : Pool φ := ⟨w₃, locks, [⟨c.id, .apart, .done ()⟩, ⟨c.id, .apart, .ask (.forget c.id) next⟩,
    ⟨c.id, .apart, .done ()⟩, ⟨c.id, .holding 0, q⟩]⟩
  have hretains : N.Retains c.id (.fresh outside) p :=
    (((retains_job hregister []).trans (retains_job hremove _)).trans
      (retains_job hagain _)).trans (retains_job hcycle _)
  have hforget : N.serves (.forget c.id) (w₃, locks) () (w₃, locks.forget c.id) := ⟨rfl, rfl⟩
  have hcall : p.calls[1]? = some ⟨c.id, .apart, .ask (.forget c.id) next⟩ := rfl
  refine ⟨p, _, hretains, .reply hcall hforget, ?_, ?_⟩
  · show w₃.table.row? c.id = _
    rw [htable₃]
    exact Table.row_append_self _ _ _
  · intro hunused
    cases hunused 3 (.holding 0) rfl

/-! ## When one call is in flight -/

/-- As long as the lock of an oracle is not forgotten while a call uses it, at most one call of the
oracle is in flight. A step that forgets it may be followed by two calls in flight, without the lock
being forgotten again, if and only if a call uses it then. -/
theorem single_flight_iff_forgotten_unused (h : N.Careful id p) :
    (∀ m n, p.InFlight id m → p.InFlight id n → m = n) ∧
    ∀ p', N.Pooled p (some id) p' →
      ((∃ p'' m n, N.Retains id p' p'' ∧ p''.InFlight id m ∧ p''.InFlight id n ∧ m ≠ n) ↔
        ¬Unused id p.grips) := by
  refine ⟨fun m n => h.single, fun p' hstep => ?_⟩
  obtain ⟨hsound, -⟩ := h.invariant
  obtain ⟨hgone, hgrips⟩ := hstep.forgotten hsound
  constructor
  · rintro ⟨p'', m, n, hretains, hm, hn, hne⟩ hunused
    have hcareful : N.Careful id p' := .step h hstep fun _ => hunused
    exact hne ((hcareful.retains hretains).single hm hn)
  · intro hused
    rw [← hgrips] at hused
    obtain ⟨p'', m, n, hretains, -, hm, hn, hne⟩ :=
      (hsound.step hstep).crowded (N := N) hgone hused
    exact ⟨p'', m, n, hretains, hm, hn, hne⟩

/-- Two cycles of an oracle are in flight. -/
theorem two_cycles_in_flight :
    ∃ (p : Pool Chain) (m n : Nat),
      (Chain.nature Cycle.ethUsd.destination.key False fun _ _ => False).Comes
        (.fresh Chain.empty) p ∧
      p.world.table.row? Cycle.ethUsd.id = some ⟨Cycle.ethUsd, .initial⟩ ∧
      p.InFlight Cycle.ethUsd.id m ∧ p.InFlight Cycle.ethUsd.id n ∧ m ≠ n := by
  let N : Nature Chain := Chain.nature Cycle.ethUsd.destination.key False fun _ _ => False
  obtain ⟨p, p', hretains, hstep, hrow, hused⟩ :=
    forgets_while_used N Chain.empty (c := Cycle.ethUsd) rfl
  have hcareful := (Nature.Careful.fresh (.fresh Chain.empty)).retains hretains
  have hsound : p.Sound := hcareful.invariant.1
  obtain ⟨hgone, hgrips⟩ := hstep.forgotten hsound
  rw [← hgrips] at hused
  obtain ⟨p'', m, n, hretains', hworld, hm, hn, hne⟩ :=
    (hsound.step hstep).crowded (N := N) hgone hused
  refine ⟨p'', m, n, (comes_of_retains hretains).trans
    (.head ⟨_, hstep⟩ (comes_of_retains hretains')), ?_, hm, hn, hne⟩
  rw [hworld]
  exact hrow

/-- A removal that forgets the lock while a cycle holds it. -/
theorem removal_crowds :
    ∃ p p' p'' : Pool Chain,
      (Chain.nature Cycle.ethUsd.destination.key False fun _ _ => False).Careful Cycle.ethUsd.id p ∧
      (Chain.nature Cycle.ethUsd.destination.key False fun _ _ => False).Pooled p
        (some Cycle.ethUsd.id) p' ∧
      ∃ m n, (Chain.nature Cycle.ethUsd.destination.key False fun _ _ => False).Retains
        Cycle.ethUsd.id p' p'' ∧
        p''.InFlight Cycle.ethUsd.id m ∧ p''.InFlight Cycle.ethUsd.id n ∧ m ≠ n := by
  let N : Nature Chain := Chain.nature Cycle.ethUsd.destination.key False fun _ _ => False
  obtain ⟨p, p', hretains, hstep, -, hused⟩ :=
    forgets_while_used N Chain.empty (c := Cycle.ethUsd) rfl
  have hcareful : N.Careful Cycle.ethUsd.id p :=
    (Nature.Careful.fresh (.fresh Chain.empty)).retains hretains
  obtain ⟨p'', m, n, hcrowded⟩ :=
    ((single_flight_iff_forgotten_unused hcareful).2 p' hstep).mpr hused
  exact ⟨p, p', p'', hcareful, hstep, m, n, hcrowded⟩

end PriceOracle
