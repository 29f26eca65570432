import PriceOracle.Management
import PriceOracle.Proofs.Cycle.Requests

/-!
# Calls and their locks

How a call stands to the lock of its oracle (`Grip`), as its requests and their replies tell, and
which requests a call may make then (`Grip.Allows`). Cycles and management calls keep to that
(`Job.disciplined`): they look the lock up, take it, give it back, and ask for no lock in between.
So a grip is all that has to be known of a call where many of them run side by side.
-/

namespace PriceOracle

open Attempt (makes_adapt makes_bind makes_lift_bind)
open Program (Keeps Makes makes_through)
open Surroundings (Action Step interface)

/-! ## Requests for locks -/

/-- The oracle whose lock a request forgets. -/
def Surroundings.Request.forgotten? : Surroundings.Request → Option OracleId
  | forget id => some id
  | _ => none

open Surroundings.Request (lockless)

/-- How a call stands to the lock of its oracle. -/
inductive Grip where
  | apart
  /-- The call looked the lock up and is about to take it. -/
  | waiting (slot : Slot)
  | holding (slot : Slot)
  deriving DecidableEq

namespace Grip

/-- The lock that a call waits for or holds. -/
def slot? : Grip → Option Slot
  | apart => none
  | waiting s | holding s => some s

/-- How a call stands to its lock after a reply. -/
def after : (r : Surroundings.Request) → r.Reply → Grip → Grip
  | .slot _, s, _ => .waiting s
  | .tryTake s, taken, _ =>
    let taken : Bool := taken
    if taken then .holding s else .apart
  | .take s, _, _ => .holding s
  | .release _, _, _ => .apart
  | _, _, g => g

/-- What a call about an oracle may ask for. One that waits does nothing but take the lock. -/
def Allows (id : OracleId) : Surroundings.Request → Grip → Prop
  | .slot other, g | .forget other, g => other = id ∧ g = .apart
  | .tryTake s, g | .take s, g => g = .waiting s
  | .release s, g => g = .holding s
  | _, g => ∀ s, g ≠ .waiting s

/-- Requests that are not for locks leave the grip as it is. -/
theorem after_of_lockless {r : Surroundings.Request} (h : r.lockless) (reply : r.Reply) (g : Grip) :
    g.after r reply = g := by
  cases r with
  | slot _ | tryTake _ | take _ | release _ | forget _ => exact h.elim
  | _ => rfl

/-- They may be made at any time but while waiting for a lock. -/
theorem allows_of_lockless {r : Surroundings.Request} (h : r.lockless) {id : OracleId} {g : Grip}
    (hg : ∀ s, g ≠ .waiting s) : Allows id r g := by
  cases r with
  | slot _ | tryTake _ | take _ | release _ | forget _ => exact h.elim
  | _ => exact hg

/-- What the replies make of the grip of a call. -/
def changes : Behaviour interface Grip := fun r g reply g' => g' = g.after r reply

end Grip

variable {α : Type} {id : OracleId} {g : Grip}

/-- A program that asks for nothing but what its grip allows, and ends apart from its lock. -/
def Disciplined (id : OracleId) (p : Action α) (g : Grip) : Prop :=
  Keeps Grip.changes (Grip.Allows id) (fun _ g => g = .apart) p g

/-- A program that asks for no lock leaves the grip as it is. -/
theorem keeps_grip {p : Action α} (h : p.Makes lockless) (hg : ∀ s, g ≠ .waiting s) :
    Keeps Grip.changes (Grip.Allows id) (fun _ g' => g' = g) p g := by
  refine h.keeps ?_ ?_ rfl
  · rintro r _ hr rfl
    exact Grip.allows_of_lockless hr hg
  · rintro r _ reply t hr rfl hchange
    exact hchange.trans (Grip.after_of_lockless hr reply _)

/-- A program without such requests keeps to the discipline wherever it stands. -/
theorem disciplined_of_lockless {p : Action α} (h : p.Makes lockless) : Disciplined id p .apart :=
  keeps_grip h nofun

/-! ## Parts of calls -/

theorem lockless_ask {r : Surroundings.Request} (h : r.lockless) :
    (Surroundings.ask r).Makes lockless := ⟨h, fun _ => trivial⟩

theorem lockless_leaveStage (id : OracleId) (e : Except RegistryError Outcome) :
    (Cycle.leaveStage id e).Makes lockless := by
  rcases Cycle.leaveStage_cases id e with hleft | hidle
  · rw [hleft]
    exact trivial
  · rw [hidle]
    exact lockless_ask trivial

theorem lockless_row (id : OracleId) : (Surroundings.row id).run.Makes lockless :=
  lockless_ask trivial

theorem lockless_revise (id : OracleId) (change : Bookkeeping → Bookkeeping) :
    (Surroundings.revise id change).run.Makes lockless := lockless_ask trivial

theorem lockless_feed (use : Feed.Use α) : (Surroundings.feed use).Makes lockless :=
  makes_through (fun r => lockless_ask (r := .feed r) trivial) _

/-- What a cycle does under its lock asks for no lock. -/
theorem Cycle.lockless_runLocked (policy : Policy) (id : OracleId) (deadline : Duration) :
    (runLocked policy id deadline).run.Makes lockless :=
  (makes_runLocked policy id deadline).mono fun _ => Asks.lockless

/-! ## Calls -/

/-- Disciplined programs that start and end apart from the lock are put one after the other. -/
theorem Disciplined.bind {β : Type} {p : Action α} {f : α → Action β}
    (h : Disciplined id p .apart) (hf : ∀ a, Disciplined id (f a) .apart) :
    Disciplined id (p.bind f) .apart := by
  refine Program.keeps_bind.mpr (Keeps.mono h ?_)
  rintro a g rfl
  exact hf a

theorem disciplined_bind {ε β : Type} {x : Attempt interface ε α} {f : α → Attempt interface ε β}
    (h : Disciplined id x.run .apart) (hf : ∀ a, Disciplined id (f a).run .apart) :
    Disciplined id (x >>= f).run .apart := by
  refine Attempt.keeps_bind.mpr (Keeps.mono h ?_)
  rintro e g rfl
  cases e with
  | ok a => exact hf a
  | error e => exact rfl

/-- What is done behind a lock that was taken, up to its release. -/
theorem keeps_held {β : Type} {slot : Slot} {p : Action α} {f : α → Action β}
    (h : p.Makes lockless)
    (hf : ∀ a, Keeps Grip.changes (Grip.Allows id) (fun _ g => g = .apart) (f a) (.holding slot)) :
    Keeps Grip.changes (Grip.Allows id) (fun _ g => g = .apart) (p.bind f) (.holding slot) := by
  have hnot : ∀ s, Grip.holding slot ≠ .waiting s := nofun
  refine Program.keeps_bind.mpr ((keeps_grip h hnot).mono ?_)
  rintro a g rfl
  exact hf a

/-- The lock is given back. -/
theorem keeps_release {slot : Slot} (a : α) :
    Keeps Grip.changes (Grip.Allows id) (fun _ g => g = .apart)
      (Program.bind (Surroundings.release slot) fun _ => .done a) (.holding slot) :=
  ⟨rfl, fun _ _ hchange => hchange⟩

/-- A cycle tries to take the lock of its oracle, and gives it back at the end. -/
theorem Cycle.disciplined_run (policy : Policy) (id : OracleId) (deadline : Duration) :
    Disciplined id (run policy id deadline) .apart := by
  refine ⟨⟨rfl, rfl⟩, ?_⟩
  rintro slot _ rfl
  refine ⟨rfl, ?_⟩
  rintro taken _ rfl
  obtain taken : Bool := taken
  cases taken with
  | false => exact rfl
  | true =>
    show Keeps _ _ _ (Program.bind (runLocked policy id deadline).run _) _
    refine keeps_held (lockless_runLocked policy id deadline) fun outcome => ?_
    exact keeps_held (lockless_leaveStage id outcome) fun _ => keeps_release outcome

namespace Management

theorem lockless_authorize (auth : Authorization) (caller : Caller) :
    (authorize auth caller).run.Makes lockless := by
  cases auth.admits caller <;> exact trivial

theorem lockless_registry {step : Step α} (h : step.run.Makes lockless) :
    (registry step).run.Makes lockless := makes_adapt _ h

theorem lockless_onFeed (use : Feed.Use α) : (onFeed use).run.Makes lockless :=
  makes_adapt _ (lockless_feed use)

/-- A call that waits for its lock. -/
theorem disciplined_locked {call : Call α} (h : call.run.Makes lockless) :
    Disciplined id (locked id call).run .apart := by
  refine ⟨⟨rfl, rfl⟩, ?_⟩
  rintro slot _ rfl
  refine ⟨rfl, ?_⟩
  rintro _ _ rfl
  show Keeps _ _ _ (Program.bind call.run _) _
  exact keeps_held h fun outcome => keeps_release outcome

/-- A registration takes the lock of the id that it registers. -/
theorem disciplined_register (auth : Authorization) (caller : Caller) (c : OracleConfig) :
    Disciplined c.id (register auth caller c).run .apart := by
  refine disciplined_of_lockless (makes_bind (lockless_authorize auth caller) fun _ => ?_)
  refine makes_bind (lockless_registry (lockless_ask trivial)) fun _ => ?_
  exact makes_lift_bind (lockless_ask trivial) fun _ => trivial

theorem disciplined_update (auth : Authorization) (caller : Caller) (c : OracleConfig) :
    Disciplined c.id (update auth caller c).run .apart := by
  refine disciplined_bind (disciplined_of_lockless (lockless_authorize auth caller)) fun _ => ?_
  refine disciplined_locked (makes_bind (lockless_registry (lockless_ask trivial)) fun _ => ?_)
  exact Attempt.makes_lift (lockless_ask trivial)

/-- A removal forgets the lock after it gave it back, as the discipline allows. -/
theorem disciplined_remove (auth : Authorization) (caller : Caller) (id : OracleId) :
    Disciplined id (remove auth caller id).run .apart := by
  refine disciplined_bind (disciplined_of_lockless (lockless_authorize auth caller)) fun _ => ?_
  refine disciplined_bind (disciplined_locked (lockless_registry (lockless_ask trivial)))
    fun _ => ?_
  -- The lock is forgotten when it was given back.
  refine ⟨⟨rfl, rfl⟩, ?_⟩
  rintro _ _ rfl
  refine disciplined_of_lockless (p := ExceptT.run (m := Program interface) _) ?_
  refine makes_lift_bind (lockless_ask trivial) fun _ => ?_
  exact Attempt.makes_lift (lockless_ask trivial)

theorem disciplined_resync (auth : Authorization) (caller : Caller) (id : OracleId) :
    Disciplined id (resync auth caller id).run .apart := by
  refine disciplined_bind (disciplined_of_lockless (lockless_authorize auth caller)) fun _ => ?_
  refine disciplined_locked (makes_bind (lockless_registry (lockless_row id)) fun r => ?_)
  refine makes_bind (lockless_onFeed _) fun latest => ?_
  refine makes_bind (lockless_onFeed _) fun value => ?_
  refine makes_bind (lockless_registry (lockless_revise id _)) fun b => ?_
  exact makes_lift_bind (lockless_ask trivial) fun _ => trivial

end Management

/-- What the service runs for an oracle. -/
inductive Job where
  | cycle (policy : Cycle.Policy) (id : OracleId) (deadline : Duration)
  | register (auth : Authorization) (caller : Management.Caller) (c : OracleConfig)
  | update (auth : Authorization) (caller : Management.Caller) (c : OracleConfig)
  | remove (auth : Authorization) (caller : Management.Caller) (id : OracleId)
  | resync (auth : Authorization) (caller : Management.Caller) (id : OracleId)

namespace Job

/-- The oracle of a job. -/
def oracle : Job → OracleId
  | cycle _ id _ | remove _ _ id | resync _ _ id => id
  | register _ _ c | update _ _ c => c.id

/-- The program of a job, whatever comes out. -/
def program : Job → Action Unit
  | cycle policy id deadline => (Cycle.run policy id deadline).bind fun _ => .done ()
  | register auth caller c => (Management.register auth caller c).run.bind fun _ => .done ()
  | update auth caller c => (Management.update auth caller c).run.bind fun _ => .done ()
  | remove auth caller id => (Management.remove auth caller id).run.bind fun _ => .done ()
  | resync auth caller id => (Management.resync auth caller id).run.bind fun _ => .done ()

/-- Every job is about the lock of its own oracle, which it takes before it holds it, and it gives
back what it took. -/
theorem disciplined (j : Job) : Disciplined j.oracle j.program .apart := by
  cases j with
  | cycle policy id deadline => exact (Cycle.disciplined_run policy id deadline).bind fun _ => rfl
  | register auth caller c =>
    exact (Management.disciplined_register auth caller c).bind fun _ => rfl
  | update auth caller c => exact (Management.disciplined_update auth caller c).bind fun _ => rfl
  | remove auth caller id => exact (Management.disciplined_remove auth caller id).bind fun _ => rfl
  | resync auth caller id => exact (Management.disciplined_resync auth caller id).bind fun _ => rfl

end Job

end PriceOracle
