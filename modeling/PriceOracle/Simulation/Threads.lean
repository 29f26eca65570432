import PriceOracle.Simulation.World

/-!
# Threads in simulated time

Several programs of the service run side by side. The thread that waits least goes on with its next
request; time moves on only when no thread can go on now. A thread that waits for a held lock
goes on once the lock is free.

`runThreads` ends because every request answered leaves one of the programs smaller
(`Shrinks.wellFounded`).
-/

namespace PriceOracle.Simulation

open Surroundings (Action)

/-! ## Programs that shrink -/

/-- A program that goes on from the first request of another. -/
inductive Continues {I : Interface} {α : Type} : Program I α → Program I α → Prop where
  | reply (r : I.Request) (next : I.Reply r → Program I α) (reply : I.Reply r) :
    Continues (next reply) (.ask r next)

theorem Continues.wellFounded {I : Interface} {α : Type} :
    WellFounded (Continues (I := I) (α := α)) := by
  refine ⟨fun p => ?_⟩
  induction p with
  | done a => exact ⟨_, fun q h => nomatch h⟩
  | ask r next ih => exact ⟨_, fun q h => by cases h with | reply _ _ reply => exact ih reply⟩

/-- Lists of programs of which one goes on. -/
inductive Shrinks {I : Interface} {α : Type} : List (Program I α) → List (Program I α) → Prop where
  | here {p q : Program I α} (rest : List (Program I α)) (h : Continues p q) :
    Shrinks (p :: rest) (q :: rest)
  | later {ps qs : List (Program I α)} (p : Program I α) (h : Shrinks ps qs) :
    Shrinks (p :: ps) (p :: qs)

theorem Shrinks.wellFounded {I : Interface} {α : Type} :
    WellFounded (Shrinks (I := I) (α := α)) := by
  refine ⟨fun ps => ?_⟩
  induction ps with
  | nil => exact ⟨_, fun qs h => nomatch h⟩
  | cons p rest ih =>
    induction Continues.wellFounded.apply p generalizing rest with
    | intro p _ ihp =>
      induction ih with
      | intro rest hrest ihrest =>
        refine ⟨_, fun qs h => ?_⟩
        cases h with
        | here _ h => exact ihp _ h _ ⟨_, hrest⟩
        | later _ h => exact ihrest _ h

instance {I : Interface} {α : Type} : WellFoundedRelation (List (Program I α)) :=
  ⟨Shrinks, Shrinks.wellFounded⟩

/-! ## Threads -/

/-- A program on its way, the time at which it goes on, and the locks that it took. -/
structure Thread (α : Type) where
  program : Action α
  wake : Duration
  held : List Slot

namespace Thread

/-- A program that starts now. -/
def start (w : World) (program : Action α) : Thread α := ⟨program, w.clock, []⟩

/-- The value of a program that is done. -/
def value? (t : Thread α) : Option α :=
  match t.program with
  | .done a => some a
  | .ask _ _ => none

/-- The locks that a thread holds after a request. -/
def heldAfter (held : List Slot) : (r : Surroundings.Request) → r.Reply → List Slot
  | .tryTake s, taken =>
    let taken : Bool := taken
    if taken then s :: held else held
  | .take s, _ => s :: held
  | .release s, _ => held.erase s
  | _, _ => held

/-- Answers the next request of a thread; none when it is done or waits for a lock. -/
def step (w : World) (t : Thread α) : Option (World × Thread α) :=
  match t.program with
  | .done _ => none
  | .ask r next =>
    (World.answer r { w with clock := ⟨max w.clock.nanos t.wake.nanos⟩ }).map fun answer =>
      (answer.2.2, ⟨next answer.1, answer.2.1, heldAfter t.held r answer.1⟩)

theorem step_continues {w w' : World} {t t' : Thread α} (h : t.step w = some (w', t')) :
    Continues t'.program t.program := by
  unfold step at h
  split at h
  · cases h
  next r next heq =>
    rw [heq]
    obtain ⟨answer, _, h⟩ := Option.map_eq_some_iff.mp h
    cases h
    exact .reply r next _

/-- Whether a thread has something to do, as far as locks allow. -/
def canStep (w : World) (t : Thread α) : Bool :=
  match t.program with
  | .done _ => false
  | .ask (.take s) _ => w.locks.isFree s
  | .ask _ _ => true

end Thread

/-- The position and the time of the thread that goes on next: the one that waits least, and of
several the first. -/
def nextThread? (w : World) : (position : Nat) → List (Thread α) → Option (Nat × Duration)
  | _, [] => none
  | i, t :: rest =>
    let later := nextThread? w (i + 1) rest
    if t.canStep w then
      match later with
      | some (j, wake) => if t.wake.nanos ≤ wake.nanos then some (i, t.wake) else some (j, wake)
      | none => some (i, t.wake)
    else later

/-- Answers the next request of the thread at a position. -/
def stepAt (w : World) : (position : Nat) → List (Thread α) → Option (World × List (Thread α))
  | _, [] => none
  | 0, t :: rest => (t.step w).map fun (w, t) => (w, t :: rest)
  | i + 1, t :: rest => (stepAt w i rest).map fun (w, rest) => (w, t :: rest)

theorem stepAt_shrinks {w w' : World} {i : Nat} {ts ts' : List (Thread α)}
    (h : stepAt w i ts = some (w', ts')) :
    Shrinks (ts'.map Thread.program) (ts.map Thread.program) := by
  induction ts generalizing i ts' with
  | nil => cases i <;> simp [stepAt] at h
  | cons t rest ih =>
    cases i with
    | zero =>
      obtain ⟨⟨w₁, t₁⟩, ht, h⟩ := Option.map_eq_some_iff.mp h
      cases h
      exact .here _ (Thread.step_continues ht)
    | succ i =>
      obtain ⟨⟨w₁, rest₁⟩, hr, h⟩ := Option.map_eq_some_iff.mp h
      cases h
      exact .later _ (ih hr)

/-- Runs threads until none can go on, or until the next one would go on after the horizon. -/
def runThreads (horizon : Option Duration) (w : World) (ts : List (Thread α)) :
    World × List (Thread α) :=
  match nextThread? w 0 ts with
  | none => (w, ts)
  | some (i, wake) =>
    if horizon.any fun h => h.nanos < wake.nanos then (w, ts)
    else match _h : stepAt w i ts with
      | none => (w, ts)
      | some (w, ts) => runThreads horizon w ts
termination_by ts.map Thread.program
decreasing_by exact stepAt_shrinks _h

/-- Moves the clock on to a time. -/
def World.moveTo (w : World) (time : Duration) : World :=
  { w with clock := ⟨max w.clock.nanos time.nanos⟩ }

/-- Gives the locks of an abandoned thread back. -/
def abandon (w : World) (t : Thread α) : World :=
  { w with locks := t.held.foldl LockTable.release w.locks }

/-- Runs one program; none when it waits for a lock forever, and is abandoned. -/
def World.run (w : World) (program : Action α) : Option α × World :=
  let (w, ts) := runThreads none w [.start w program]
  match ts with
  | [t] => (t.value?, abandon w t)
  | _ => (none, w)

/-- Runs programs side by side to their ends. -/
def World.runAll (w : World) (programs : List (Action α)) : List (Option α) × World :=
  let (w, ts) := runThreads none w (programs.map (.start w))
  (ts.map Thread.value?, ts.foldl abandon w)

/-- Starts programs every period, as long as a number of them is left, beside those that still
run. -/
def runPeriods (period : Duration) (start : World → List (Action α)) :
    (periods : Nat) → World → List (Thread α) → World × List (Thread α)
  | 0, w, ts => (w, ts)
  | periods + 1, w, ts =>
    let ts := ts ++ (start w).map (Thread.start w)
    let next : Duration := ⟨w.clock.nanos + period.nanos⟩
    let (w, ts) :=
      if periods = 0 then (w, ts) else runThreads (some ⟨next.nanos - 1⟩) w ts
    runPeriods period start periods (if periods = 0 then w else w.moveTo next) ts

/-- Starts programs every period before a shutdown, then waits for those that still run, and in the
end abandons what is left. -/
def World.runUntil (w : World) (period total drain : Duration) (start : World → List (Action α)) :
    World :=
  let begun := w.clock.nanos
  let periods := (total.nanos + period.nanos - 1) / period.nanos
  let (w, ts) := runPeriods period start periods w []
  let shutdown : Duration := ⟨begun + total.nanos⟩
  let (w, ts) := runThreads (some shutdown) w ts
  let (w, ts) := runThreads (some ⟨shutdown.nanos + drain.nanos⟩) (w.moveTo shutdown) ts
  let w := if ts.all fun t => t.value?.isSome then w else w.moveTo ⟨shutdown.nanos + drain.nanos⟩
  ts.foldl abandon w

end PriceOracle.Simulation
