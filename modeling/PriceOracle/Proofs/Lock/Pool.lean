import Mathlib.Logic.Relation
import PriceOracle.Proofs.Lock.Turns
import PriceOracle.Proofs.Service.Run

/-!
# Many calls side by side

A `Pool` is a service with any number of cycles and management calls that run side by side: one
world, one table of locks, and the calls, each of which goes on with its next request whenever it
may (`Nature.Pooled`). A call is in flight between taking the lock of its oracle and giving it
back (`Pool.InFlight`).

* `Nature.Pooled.turn`: all that a step may do to locks and grips is one turn of a call.
* `Nature.Careful.single`: as long as the lock of an oracle is not forgotten while a call uses it,
  at most one call of the oracle is in flight.
-/

namespace PriceOracle

open LockTable (Current Serves Turn Unused)
open Program (Leads)
open Surroundings (Action interface)

/-- A call that runs: its oracle, how it stands to the lock, and what it still has to do. -/
structure Running where
  oracle : OracleId
  grip : Grip
  rest : Action Unit

/-- A job that starts. -/
def Job.start (j : Job) : Running := ⟨j.oracle, .apart, j.program⟩

/-- A service with the calls that run. -/
structure Pool (φ : Type) where
  world : World φ
  locks : LockTable
  calls : List Running

variable {φ : Type}

namespace Pool

/-- A service that nothing was asked of. -/
def fresh (outside : φ) : Pool φ := ⟨.fresh outside, .empty, []⟩

/-- How the calls stand to their locks. -/
def grips (p : Pool φ) : Grips := fun n => p.calls[n]?.map fun c => (c.oracle, c.grip)

/-- A call is between taking and giving back the lock of an oracle. -/
def InFlight (p : Pool φ) (id : OracleId) (n : Nat) : Prop :=
  ∃ s, p.grips n = some (id, .holding s)

/-- One call of an oracle goes on. -/
def goOn (p : Pool φ) (world : World φ) (locks : LockTable) (n : Nat) (c : Running) : Pool φ :=
  ⟨world, locks, p.calls.set n c⟩

/-- Another call starts. -/
def add (p : Pool φ) (c : Running) : Pool φ := { p with calls := p.calls ++ [c] }

end Pool

namespace Nature

variable (N : Nature φ)

/-- How the surroundings answer calls that run side by side: locks from their table, and a call
that waits for a lock is answered when the lock is free. -/
def serves : Behaviour interface (World φ × LockTable)
  | .slot id, (w, t), s, (w', t') => t.slot id = (s, t') ∧ w' = w
  | .tryTake s, (w, t), taken, (w', t') => t.tryTake s = (taken, t') ∧ w' = w
  | .take s, (w, t), _, (w', t') => t.tryTake s = (true, t') ∧ w' = w
  | .release s, (w, t), _, (w', t') => t' = t.release s ∧ w' = w
  | .forget id, (w, t), _, (w', t') => t' = t.forget id ∧ w' = w
  | r, (w, t), reply, (w', t') => N.answers r w reply w' ∧ t' = t

/-- One step of a service: a call starts, a call gets a reply, or something moves outside. A step
may forget the lock of an oracle. -/
inductive Pooled : Pool φ → Option OracleId → Pool φ → Prop where
  | start (p : Pool φ) (j : Job) : Pooled p none (p.add j.start)
  | reply {p : Pool φ} {n : Nat} {id : OracleId} {g : Grip} {r : Surroundings.Request}
      {next : r.Reply → Action Unit} {reply : r.Reply} {w : World φ} {t : LockTable} :
      p.calls[n]? = some ⟨id, g, .ask r next⟩ → N.serves r (p.world, p.locks) reply (w, t) →
      Pooled p r.forgotten? (p.goOn w t n ⟨id, g.after r reply, next reply⟩)
  | moves (p : Pool φ) {outside : φ} : N.moves p.world.outside outside →
      Pooled p none { p with world := { p.world with outside } }

/-- What a service may come to. -/
abbrev Comes (p p' : Pool φ) : Prop :=
  Relation.ReflTransGen (fun p p' => ∃ e, N.Pooled p e p') p p'

/-- What a service may come to without forgetting the lock of an oracle. -/
abbrev Retains (id : OracleId) (p p' : Pool φ) : Prop :=
  Relation.ReflTransGen (fun p p' => ∃ e, N.Pooled p e p' ∧ e ≠ some id) p p'

/-- A service has come here without forgetting the lock of an oracle while a call used it. -/
inductive Careful (id : OracleId) : Pool φ → Prop where
  | fresh (world : World φ) : Careful id ⟨world, .empty, []⟩
  | step {p p' : Pool φ} {e : Option OracleId} : Careful id p → N.Pooled p e p' →
      (e = some id → Unused id p.grips) → Careful id p'

end Nature

variable {N : Nature φ} {p p' : Pool φ} {id : OracleId} {e : Option OracleId} {n : Nat}
  {c : Running} {w w' : World φ} {t t' : LockTable} {g : Grip}

namespace Pool

theorem grips_of_call (hn : p.calls[n]? = some c) : p.grips n = some (c.oracle, c.grip) := by
  rw [grips, hn]
  rfl

theorem call_of_grips {i : OracleId} (hn : p.grips n = some (i, g)) :
    ∃ rest, p.calls[n]? = some ⟨i, g, rest⟩ := by
  obtain ⟨c, hc, heq⟩ := Option.map_eq_some_iff.mp hn
  obtain ⟨rfl, rfl⟩ := Prod.mk.inj heq
  exact ⟨c.rest, hc⟩

theorem lt_of_call (hn : p.calls[n]? = some c) : n < p.calls.length :=
  (List.getElem?_eq_some_iff.mp hn).1

theorem grips_goOn (hn : p.calls[n]? = some c) (d : Running) :
    (p.goOn w t n d).grips = LockTable.regrip p.grips n d.oracle d.grip := by
  funext m
  by_cases hsame : m = n
  · subst hsame
    rw [LockTable.regrip, Function.update_self, grips, goOn, List.getElem?_set_self (lt_of_call hn)]
    rfl
  · rw [LockTable.regrip, Function.update_of_ne hsame, grips, goOn,
      List.getElem?_set_ne (Ne.symm hsame)]
    rfl

theorem grips_length : p.grips p.calls.length = none := by
  rw [grips, List.getElem?_eq_none (Nat.le_refl _)]
  rfl

theorem grips_add (d : Running) :
    (p.add d).grips = LockTable.regrip p.grips p.calls.length d.oracle d.grip := by
  funext m
  by_cases hsame : m = p.calls.length
  · subst hsame
    rw [LockTable.regrip, Function.update_self, grips, add, List.getElem?_concat_length]
    rfl
  · rw [LockTable.regrip, Function.update_of_ne hsame, grips, add]
    by_cases hlt : m < p.calls.length
    · rw [List.getElem?_append_left hlt]
      rfl
    · have hlength : (p.calls ++ [d]).length = p.calls.length + 1 := List.length_append
      have hnew : (p.calls ++ [d])[m]? = none := List.getElem?_eq_none (by omega)
      have hold : p.calls[m]? = none := List.getElem?_eq_none (by omega)
      rw [hnew, grips, hold]

/-- Calls keep to the discipline of locks, and the locks serve them. -/
structure Sound (p : Pool φ) : Prop where
  disciplined : ∀ (n : Nat) (c : Running), p.calls[n]? = some c → Disciplined c.oracle c.rest c.grip
  serves : p.locks.Serves p.grips

end Pool

open Pool (Sound InFlight)

theorem comes_of_retains (h : N.Retains id p p') : N.Comes p p' := by
  induction h with
  | refl => exact .refl
  | tail _ hstep ih =>
    obtain ⟨e, hstep, -⟩ := hstep
    exact .tail ih ⟨e, hstep⟩

/-! ## What a step does to the locks -/

/-- What is asked of locks within the discipline is a turn. -/
theorem turn_of_serves {r : Surroundings.Request} {reply : r.Reply} (hallows : Grip.Allows id r g)
    (h : N.serves r (w, t) reply (w', t')) : Turn id t g r.forgotten? t' (g.after r reply) := by
  cases r with
  | slot i =>
    obtain ⟨rfl, rfl⟩ := hallows
    exact LockTable.turn_of_slot h.1
  | tryTake s =>
    obtain rfl := hallows
    exact LockTable.turn_of_tryTake h.1
  | take s =>
    obtain rfl := hallows
    have hturn : Turn id t (.waiting s) none t' (if true then .holding s else .apart) :=
      LockTable.turn_of_tryTake h.1
    exact hturn
  | release s =>
    obtain rfl := hallows
    obtain ⟨rfl, -⟩ := h
    exact .released t s
  | forget i =>
    obtain ⟨rfl, rfl⟩ := hallows
    obtain ⟨rfl, -⟩ := h
    exact .forgot t
  | _ =>
    obtain ⟨-, rfl⟩ := h
    exact .stays t' g

/-- A step is a turn of one call, or starts a call, or leaves locks and grips as they are. -/
theorem Nature.Pooled.turn (hstep : N.Pooled p e p') (hsound : p.Sound) :
    (∃ n i g g', p.grips n = some (i, g) ∧ Turn i p.locks g e p'.locks g' ∧
        p'.grips = LockTable.regrip p.grips n i g') ∨
      e = none ∧ p'.locks = p.locks ∧ (p'.grips = p.grips ∨
        ∃ n i, p.grips n = none ∧ p'.grips = LockTable.regrip p.grips n i .apart) := by
  cases hstep with
  | start j => exact .inr ⟨rfl, rfl, .inr ⟨_, _, Pool.grips_length, Pool.grips_add _⟩⟩
  | reply hn hserves =>
    have hallows := (hsound.disciplined _ _ hn).1
    exact .inl ⟨_, _, _, _, Pool.grips_of_call hn, turn_of_serves hallows hserves,
      Pool.grips_goOn hn _⟩
  | moves hmoves => exact .inr ⟨rfl, rfl, .inl rfl⟩

/-- Calls that go on and calls that start keep to the discipline. -/
theorem Nature.Pooled.disciplined (hstep : N.Pooled p e p') (hsound : p.Sound) :
    ∀ (n : Nat) (c : Running), p'.calls[n]? = some c → Disciplined c.oracle c.rest c.grip := by
  intro m d hm
  cases hstep with
  | start j =>
    rcases List.mem_append.mp (List.mem_of_getElem? hm) with hmem | hmem
    · obtain ⟨k, hk⟩ := List.mem_iff_getElem?.mp hmem
      exact hsound.disciplined k d hk
    · obtain rfl := List.mem_singleton.mp hmem
      exact j.disciplined
  | @reply n i g r next reply w t hn hserves =>
    by_cases hsame : n = m
    · subst hsame
      have hset : some ⟨i, g.after r reply, next reply⟩ = some d := by
        rw [← hm]
        exact (List.getElem?_set_self (Pool.lt_of_call hn)).symm
      obtain rfl := Option.some.inj hset
      exact (hsound.disciplined _ _ hn).2 reply _ rfl
    · have hother : p.calls[m]? = some d := (List.getElem?_set_ne hsame).symm.trans hm
      exact hsound.disciplined m d hother
  | moves hmoves => exact hsound.disciplined m d hm

/-- Every step preserves that the locks serve the calls. -/
theorem Pool.Sound.step (hsound : p.Sound) (hstep : N.Pooled p e p') : p'.Sound := by
  refine ⟨hstep.disciplined hsound, ?_⟩
  rcases hstep.turn hsound with ⟨n, i, g, g', hn, hturn, hgrips⟩ | ⟨-, hlocks, hgrips⟩
  · rw [hgrips]
    exact hturn.serves hn hsound.serves
  · rw [hlocks]
    rcases hgrips with hgrips | ⟨n, i, hn, hgrips⟩
    · rw [hgrips]
      exact hsound.serves
    · rw [hgrips]
      exact hsound.serves.start hn

theorem Pool.sound_fresh (world : World φ) : Pool.Sound (⟨world, .empty, []⟩ : Pool φ) :=
  ⟨nofun, LockTable.serves_empty⟩

/-- A step that does not forget the lock of an oracle while a call uses it leaves every call about
the oracle with the slot of the table. -/
theorem Nature.Pooled.current (hstep : N.Pooled p e p') (hsound : p.Sound)
    (hcareful : e = some id → Unused id p.grips) (hcurrent : Current id p.locks p.grips) :
    Current id p'.locks p'.grips := by
  rcases hstep.turn hsound with ⟨n, i, g, g', hn, hturn, hgrips⟩ | ⟨-, hlocks, hgrips⟩
  · rw [hgrips]
    exact hturn.current hn hcareful hcurrent
  · rw [hlocks]
    rcases hgrips with hgrips | ⟨n, i, hn, hgrips⟩
    · rw [hgrips]
      exact hcurrent
    · rw [hgrips]
      exact hcurrent.start

/-- A careful service is sound, and no call about the oracle has an outdated slot. -/
theorem Nature.Careful.invariant (h : N.Careful id p) : p.Sound ∧ Current id p.locks p.grips := by
  induction h with
  | fresh world => exact ⟨Pool.sound_fresh world, nofun⟩
  | step _ hstep hcareful ih =>
    obtain ⟨hsound, hcurrent⟩ := ih
    exact ⟨hsound.step hstep, hstep.current hsound hcareful hcurrent⟩

theorem Nature.Careful.retains (h : N.Careful id p) (hretains : N.Retains id p p') :
    N.Careful id p' := by
  induction hretains with
  | refl => exact h
  | tail _ hstep ih =>
    obtain ⟨e, hstep, hne⟩ := hstep
    exact .step ih hstep fun heq => absurd heq hne

/-- In a careful service no two calls of the oracle are in flight. -/
theorem Nature.Careful.single {m : Nat} (h : N.Careful id p) (hm : p.InFlight id m)
    (hn : p.InFlight id n) : m = n := by
  obtain ⟨hsound, hcurrent⟩ := h.invariant
  obtain ⟨s, hs⟩ := hm
  obtain ⟨s', hs'⟩ := hn
  exact hcurrent.single hsound.serves hs hs'

end PriceOracle
