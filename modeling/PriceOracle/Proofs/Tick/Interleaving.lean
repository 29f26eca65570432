import Mathlib.Data.List.Forall2
import Mathlib.Logic.Relation
import PriceOracle.Engine
import PriceOracle.Proofs.Cycle.Outline
import PriceOracle.Proofs.Tick.Commons
import PriceOracle.Simulation.Threads

/-!
# Tasks side by side

Tasks of distinct oracles, each under the lock of its own, go on in any order, one request at a time
(`Exterior.Turn`). What a task comes to is settled before it starts: its `Work.upshot` is computed
from the share of its oracle, and no turn of another task changes that share.

* `Work.At`: how far a task has come, and that its upshot is still the one that it started with.
* `At.step`, `At.frame`: a turn of the task itself and one of another task.
* `Parallel.Consistent`: the invariant of all tasks together, kept by every turn.
* `Commons.Settled.same`: whatever the order of the turns was, the same is left.
-/

namespace PriceOracle

open Program (Carries Exactly Keeps)
open Surroundings (Action interface)

variable {α : Type} {E : Exterior} {c c' c₀ : Commons} {id : OracleId}

/-! ## Tasks -/

/-- What is still to be done for an oracle. -/
structure Task (α : Type) where
  oracle : OracleId
  rest : Action α

/-- A task that has come to its end. -/
def Task.ended (id : OracleId) (a : α) : Task α := ⟨id, .done a⟩

/-- Tasks on common ground. -/
structure Parallel (α : Type) where
  commons : Commons
  tasks : List (Task α)

/-- All tasks have come to their ends. -/
def Parallel.Finished (p : Parallel α) : Prop := ∀ t ∈ p.tasks, ∃ a, t.rest = .done a

namespace Exterior

/-- One of the tasks gets a reply. -/
inductive Turn (E : Exterior) : Parallel α → Parallel α → Prop where
  | here {c c' : Commons} {id : OracleId} {r : Surroundings.Request} {next : r.Reply → Action α}
      {reply : r.Reply} (ts : List (Task α)) (h : E.answer id r c = some (reply, c')) :
      Turn E ⟨c, ⟨id, .ask r next⟩ :: ts⟩ ⟨c', ⟨id, next reply⟩ :: ts⟩
  | later {c c' : Commons} {ts ts' : List (Task α)} (t : Task α) (h : Turn E ⟨c, ts⟩ ⟨c', ts'⟩) :
      Turn E ⟨c, t :: ts⟩ ⟨c', t :: ts'⟩

/-- What some tasks may come to, in any order of their turns. -/
abbrev Comes (E : Exterior) : Parallel α → Parallel α → Prop := Relation.ReflTransGen E.Turn

/-- Tasks that run one after the other, each to its end. -/
inductive InTurn (E : Exterior) : Commons → List (Task α) → List α → Commons → Prop where
  | nil (c : Commons) : InTurn E c [] [] c
  | cons {c u v : Commons} {t : Task α} {ts : List (Task α)} {a : α} {as : List α}
      (h : E.Comes ⟨c, [t]⟩ ⟨u, [.ended t.oracle a]⟩) (hrest : InTurn E u ts as v) :
      InTurn E c (t :: ts) (a :: as) v

end Exterior

/-! ## Work under a lock -/

/-- What is to be done under the lock of an oracle, and what comes out where the lock is held. -/
structure Work (α : Type) where
  oracle : OracleId
  /-- The end of a cycle that is told by what comes out. -/
  ending : α → Except RegistryError Outcome
  body : Action α
  busy : α

namespace Work

/-- The work as a task that starts. -/
def start (k : Work α) : Task α := ⟨k.oracle, Cycle.framed k.oracle k.ending k.body k.busy⟩

/-- What is done before the lock is given back. -/
def inside (k : Work α) : Action α :=
  k.body.bind fun a => (Cycle.leaveStage k.oracle (k.ending a)).bind fun _ => .done a

/-- Gives the lock back. -/
def leave (s : Slot) (a : α) : Action α := (Surroundings.release s).bind fun _ => .done a

/-- What is done once the lock was looked up. -/
def locked (k : Work α) (s : Slot) : Action α :=
  (Surroundings.tryTake s).bind fun taken =>
    if (taken : Bool) then k.inside.bind (leave s) else .done k.busy

theorem rest_start (k : Work α) :
    k.start.rest = (Surroundings.slot k.oracle).bind k.locked := by
  refine congrArg (Surroundings.slot k.oracle).bind (funext fun s => ?_)
  refine congrArg (Surroundings.tryTake s).bind (funext fun taken => ?_)
  obtain taken : Bool := taken
  cases taken with
  | false => rfl
  | true =>
    show k.body.bind _ = _
    rw [inside, if_pos rfl, Program.bind_assoc]
    refine congrArg k.body.bind (funext fun a => ?_)
    rw [Program.bind_assoc]
    rfl

/-- What comes out, and the share that is left: nothing is done where the lock is held. -/
def upshot (E : Exterior) (c : Commons) (k : Work α) : α × Share :=
  if c.locks.isHeld k.oracle then (k.busy, c.share k.oracle)
  else k.inside.run (E.onShare k.oracle) (c.share k.oracle)

/-- All that is asked for concerns the oracle alone. -/
def Proper (E : Exterior) (c : Commons) (k : Work α) : Prop :=
  Keeps (Exactly (E.onShare k.oracle)) (Share.Local k.oracle) (fun _ _ => True) k.body
    (c.share k.oracle)

/-- How far a task has come, and that it still comes to the upshot that it started with. -/
inductive At (E : Exterior) (c₀ : Commons) (k : Work α) (c : Commons) : Action α → Prop where
  | ahead (hshare : c.share k.oracle = c₀.share k.oracle)
    (hheld : c.locks.isHeld k.oracle = c₀.locks.isHeld k.oracle) : At E c₀ k c k.start.rest
  | waiting {s : Slot} (hslot : c.locks.slots.get? k.oracle = some s)
    (hshare : c.share k.oracle = c₀.share k.oracle)
    (hheld : c.locks.isHeld k.oracle = c₀.locks.isHeld k.oracle) : At E c₀ k c (k.locked s)
  | within {s : Slot} {p : Action α} (hslot : c.locks.slots.get? k.oracle = some s)
    (hfree : c₀.locks.isHeld k.oracle = false)
    (hlocal : Keeps (Exactly (E.onShare k.oracle)) (Share.Local k.oracle) (fun _ _ => True) p
      (c.share k.oracle))
    (hrun : p.run (E.onShare k.oracle) (c.share k.oracle) = k.upshot E c₀) :
    At E c₀ k c (p.bind (leave s))
  | ended {a : α} (hdone : (a, c.share k.oracle) = k.upshot E c₀)
    (hheld : c.locks.isHeld k.oracle = c₀.locks.isHeld k.oracle) : At E c₀ k c (.done a)

variable {k : Work α} {p : Action α}

/-- What others do does not matter, as long as they leave the oracle its share and its lock. -/
theorem At.frame (h : k.At E c₀ c p) (hshare : c'.share k.oracle = c.share k.oracle)
    (hview : c'.locks.view k.oracle = c.locks.view k.oracle) : k.At E c₀ c' p := by
  have hheld := LockTable.isHeld_of_view hview
  have hslot := LockTable.slot_of_view hview
  cases h with
  | ahead hs hl => exact .ahead (hshare.trans hs) (hheld.trans hl)
  | waiting hslot' hs hl => exact .waiting (hslot.trans hslot') (hshare.trans hs) (hheld.trans hl)
  | within hslot' hfree hlocal hrun =>
    rw [← hshare] at hlocal hrun
    exact .within (hslot.trans hslot') hfree hlocal hrun
  | ended hdone hl =>
    rw [← hshare] at hdone
    exact .ended hdone (hheld.trans hl)

/-- What work asks for concerns the oracle alone up to the moment when the lock is given back. -/
theorem Proper.inside (h : k.Proper E c) :
    Keeps (Exactly (E.onShare k.oracle)) (Share.Local k.oracle) (fun _ _ => True) k.inside
      (c.share k.oracle) := by
  have hidle : Carries (Exactly (E.onShare k.oracle)) (Share.Local k.oracle) (fun _ => True)
      (.enter k.oracle .idle) := fun _ _ => ⟨trivial, fun _ _ _ => trivial⟩
  refine Program.keeps_bind.mpr (Keeps.mono h fun a _ _ => ?_)
  exact Program.keeps_bind.mpr ((Cycle.keeps_leaveStage hidle (k.ending a) trivial).mono
    fun _ _ h => h)

/-- A task that is not over is answered, and has then come one step further. -/
theorem At.step {r : Surroundings.Request} {next : r.Reply → Action α} (hproper : k.Proper E c₀)
    (h : k.At E c₀ c (.ask r next)) (hc : c.Orderly) :
    ∃ reply c', E.answer k.oracle r c = some (reply, c') ∧ k.At E c₀ c' (next reply) ∧
      c.Spares (· = k.oracle) c' ∧ c'.Orderly := by
  generalize hp : Program.ask (I := interface) r next = p at h
  cases h with
  -- Asking for a slot may make one, but leaves the lock held or free as it was.
  | ahead hshare hheld =>
    rw [rest_start] at hp
    cases hp
    obtain ⟨hslot, hsame⟩ := LockTable.slot_self hc.locks k.oracle
    have hturn : LockTable.Turn k.oracle c.locks .apart none (c.locks.slot k.oracle).2 _ :=
      LockTable.turn_of_slot rfl
    exact ⟨_, _, rfl, .waiting hslot hshare (hsame.trans hheld), hc.turn hturn nofun⟩
  | @waiting s hslot hshare hheld =>
    cases hp
    have hturn : LockTable.Turn k.oracle c.locks (.waiting s) none (c.locks.tryTake s).2 _ :=
      LockTable.turn_of_tryTake rfl
    refine ⟨_, _, rfl, ?_, hc.turn hturn (LockTable.owns_of_slot hslot rfl)⟩
    have htaken := LockTable.tryTake_self hslot
    -- Busy or not was settled at the start: no other work takes this oracle's lock.
    cases hfree : c.locks.isHeld k.oracle with
    | true =>
      rw [hfree, if_pos rfl] at htaken
      rw [htaken]
      refine .ended ?_ hheld
      rw [upshot, ← hheld, hfree, if_pos rfl, ← hshare]
    | false =>
      rw [hfree, if_neg Bool.false_ne_true] at htaken
      rw [htaken]
      have hfree₀ : c₀.locks.isHeld k.oracle = false := hheld.symm.trans hfree
      refine .within hslot hfree₀ ?_ ?_
      · have hlocal := hproper.inside
        rw [← hshare] at hlocal
        exact hlocal
      · rw [upshot, hfree₀, if_neg Bool.false_ne_true, ← hshare]
        rfl
  | @within s p hslot hfree hlocal hrun =>
    cases p with
    | done a =>
      cases hp
      have hturn : LockTable.Turn k.oracle c.locks (.holding s) none (c.locks.release s) .apart :=
        .released _ s
      refine ⟨_, _, rfl, .ended hrun ?_, hc.turn hturn (LockTable.owns_of_slot hslot rfl)⟩
      exact (LockTable.isHeld_release hc.locks hslot).trans hfree.symm
    | ask r' next' =>
      cases hp
      -- A local request is answered from the share alone, so the run within goes on.
      obtain ⟨c', hanswer, hshare, hspares, horderly, hlocks⟩ := answer_local (E := E) hc hlocal.1
      refine ⟨_, c', hanswer, .within ?_ hfree ?_ ?_, hspares, horderly⟩
      · rw [hlocks]
        exact hslot
      · rw [hshare]
        exact hlocal.2 _ _ rfl
      · rw [hshare]
        exact hrun
  | ended => cases hp

/-- A task that is over has come to its upshot. -/
theorem At.of_done {a : α} (h : k.At E c₀ c (.done a)) :
    (a, c.share k.oracle) = k.upshot E c₀ ∧
      c.locks.isHeld k.oracle = c₀.locks.isHeld k.oracle := by
  generalize hp : Program.done (I := interface) a = p at h
  cases h with
  | ended hdone hheld =>
    cases hp
    exact ⟨hdone, hheld⟩
  | ahead =>
    rw [rest_start] at hp
    cases hp
  | waiting => cases hp
  | @within s p => cases p <;> cases hp

/-- The upshot depends on the share of the oracle, and on whether its lock is held. -/
theorem upshot_congr (hshare : c'.share k.oracle = c.share k.oracle)
    (hheld : c'.locks.isHeld k.oracle = c.locks.isHeld k.oracle) :
    k.upshot E c' = k.upshot E c := by
  rw [upshot, upshot, hshare, hheld]

theorem Proper.congr (h : k.Proper E c) (hshare : c'.share k.oracle = c.share k.oracle) :
    k.Proper E c' := by
  rw [Proper, hshare]
  exact h

end Work

/-! ## All tasks together -/

/-- The oracles of some works. -/
abbrev Among (ks : List (Work α)) (id : OracleId) : Prop := id ∈ ks.map (·.oracle)

/-- How far the tasks have come that some works started as. -/
def Underway (E : Exterior) (c₀ : Commons) (ks : List (Work α)) (c : Commons)
    (ts : List (Task α)) : Prop :=
  List.Forall₂ (fun k t => t.oracle = k.oracle ∧ k.At E c₀ c t.rest) ks ts

/-- Works of distinct oracles, each of which is about its own. -/
structure Apart (E : Exterior) (c : Commons) (ks : List (Work α)) : Prop where
  nodup : (ks.map (·.oracle)).Nodup
  proper : ∀ k ∈ ks, k.Proper E c

variable {k : Work α} {ks ks' : List (Work α)} {t : Task α} {ts : List (Task α)}
  {p p' : Parallel α}

theorem Apart.tail (h : Apart E c (k :: ks)) : Apart E c ks where
  nodup := (List.nodup_cons.mp h.nodup).2
  proper := fun k hk => h.proper k (List.mem_cons_of_mem _ hk)

theorem Apart.head (h : Apart E c (k :: ks)) : ¬Among ks k.oracle := (List.nodup_cons.mp h.nodup).1

theorem among_singleton : Among [k] id ↔ id = k.oracle := List.mem_singleton

theorem not_among_singleton {k' : Work α} (h : ¬Among ks k.oracle) (hk' : k' ∈ ks) :
    ¬Among [k] k'.oracle := by
  intro hmem
  refine h ?_
  rw [← among_singleton.mp hmem]
  exact List.mem_map_of_mem hk'

namespace Underway

theorem start (E : Exterior) (c : Commons) (ks : List (Work α)) :
    Underway E c ks c (ks.map Work.start) := by
  rw [Underway, List.forall₂_map_right_iff, List.forall₂_same]
  exact fun k _ => ⟨rfl, .ahead rfl rfl⟩

theorem cons_iff : Underway E c₀ ks c (t :: ts) ↔
    ∃ k ks', (t.oracle = k.oracle ∧ k.At E c₀ c t.rest) ∧ Underway E c₀ ks' c ts ∧ ks = k :: ks' :=
  List.forall₂_cons_right_iff

/-- What one oracle does leaves tasks of others as they are. -/
theorem frame (h : Underway E c₀ ks c ts) (hspares : c.Spares (· = id) c') (hc : c.Orderly)
    (hid : ¬Among ks id) : Underway E c₀ ks c' ts := by
  have hne : ∀ k ∈ ks, ¬k.oracle = id := by
    rintro k hk rfl
    exact hid (List.mem_map_of_mem hk)
  refine List.Forall₂.imp ?_ ((List.forall₂_and_left _ _).mpr ⟨hne, h⟩)
  rintro k t ⟨hk, horacle, hat⟩
  exact ⟨horacle, hat.frame (hspares.share hc hk) (hspares.view _ hk)⟩

/-- A turn is one of some oracle, and leaves all others. -/
theorem turn (h : E.Turn p p') (hks : Apart E c₀ ks) (hc : p.commons.Orderly)
    (htasks : Underway E c₀ ks p.commons p.tasks) :
    ∃ k ∈ ks, p.commons.Spares (· = k.oracle) p'.commons ∧ p'.commons.Orderly ∧
      Underway E c₀ ks p'.commons p'.tasks := by
  induction h generalizing ks with
  | @here c c' id r next reply ts hanswer =>
    obtain ⟨k, ks, ⟨rfl, hat⟩, hrest, rfl⟩ := cons_iff.mp htasks
    obtain ⟨reply', c₁, hanswer', hat', hspares, horderly⟩ :=
      hat.step (hks.proper k List.mem_cons_self) hc
    obtain ⟨rfl, rfl⟩ := Prod.mk.inj (Option.some.inj (hanswer.symm.trans hanswer'))
    exact ⟨k, List.mem_cons_self, hspares, horderly,
      cons_iff.mpr ⟨k, ks, ⟨rfl, hat'⟩, hrest.frame hspares hc hks.head, rfl⟩⟩
  | @later c c' ts ts' t _ ih =>
    obtain ⟨k, ks, ⟨horacle, hat⟩, hrest, rfl⟩ := cons_iff.mp htasks
    obtain ⟨k', hk', hspares, horderly, hrest'⟩ := ih hks.tail hc hrest
    have hne : ¬k.oracle = k'.oracle := by
      intro heq
      refine hks.head ?_
      rw [heq]
      exact List.mem_map_of_mem hk'
    have hat' := hat.frame (hspares.share hc hne) (hspares.view _ hne)
    exact ⟨k', List.mem_cons_of_mem _ hk', hspares, horderly,
      cons_iff.mpr ⟨k, ks, ⟨horacle, hat'⟩, hrest', rfl⟩⟩

/-- No task ever waits for another one. -/
theorem goes_on (h : Underway E c₀ ks c ts) (hks : Apart E c₀ ks) (hc : c.Orderly) :
    (∀ t ∈ ts, ∃ a, t.rest = .done a) ∨ ∃ p', E.Turn ⟨c, ts⟩ p' := by
  induction h with
  | nil => exact .inl nofun
  | @cons k t ks ts hat _ ih =>
    obtain ⟨horacle, hat⟩ := hat
    obtain ⟨id, rest⟩ := t
    obtain rfl : id = k.oracle := horacle
    cases rest with
    | ask r next =>
      obtain ⟨reply, c', hanswer, -⟩ := hat.step (hks.proper k List.mem_cons_self) hc
      exact .inr ⟨_, .here ts hanswer⟩
    | done a =>
      rcases ih hks.tail with hdone | ⟨⟨c', ts'⟩, hturn⟩
      · exact .inl (List.forall_mem_cons.mpr ⟨⟨a, rfl⟩, hdone⟩)
      · exact .inr ⟨_, .later _ hturn⟩

/-- Where all tasks are over, they have come to their upshots. -/
theorem of_done (h : Underway E c₀ ks c ts) (hdone : ∀ t ∈ ts, ∃ a, t.rest = .done a) :
    ts = ks.map (fun k => .ended k.oracle (k.upshot E c₀).1) ∧
      ∀ k ∈ ks, c.share k.oracle = (k.upshot E c₀).2 ∧
        c.locks.isHeld k.oracle = c₀.locks.isHeld k.oracle := by
  induction h with
  | nil => exact ⟨rfl, nofun⟩
  | @cons k t ks ts hat _ ih =>
    obtain ⟨⟨a, ha⟩, hrest⟩ := List.forall_mem_cons.mp hdone
    obtain ⟨htasks, hshares⟩ := ih hrest
    obtain ⟨id, rest⟩ := t
    obtain ⟨horacle, hat⟩ := hat
    obtain rfl : id = k.oracle := horacle
    obtain rfl : rest = .done a := ha
    obtain ⟨hupshot, hheld⟩ := hat.of_done
    refine ⟨?_, List.forall_mem_cons.mpr ⟨⟨congrArg Prod.snd hupshot, hheld⟩, hshares⟩⟩
    rw [List.map_cons, ← htasks, ← hupshot]
    rfl

end Underway

/-- All tasks come to the upshots that they started with, and nothing else was touched. -/
structure Parallel.Consistent (E : Exterior) (c₀ : Commons) (ks : List (Work α))
    (p : Parallel α) : Prop where
  orderly : p.commons.Orderly
  spares : c₀.Spares (Among ks) p.commons
  tasks : Underway E c₀ ks p.commons p.tasks

/-- Works that start. -/
def Parallel.start (c : Commons) (ks : List (Work α)) : Parallel α := ⟨c, ks.map Work.start⟩

/-- A turn leaves less to be done. -/
theorem Exterior.Turn.shrinks (h : E.Turn p p') :
    Simulation.Shrinks (p'.tasks.map (·.rest)) (p.tasks.map (·.rest)) := by
  induction h with
  | here ts _ => exact .here _ (.reply _ _ _)
  | later t _ ih => exact .later _ ih

/-- All works have come to the upshots that they started with, and gave their locks back. -/
structure Commons.Settled (E : Exterior) (c₀ : Commons) (ks : List (Work α)) (c : Commons) :
    Prop where
  orderly : c.Orderly
  spares : c₀.Spares (Among ks) c
  share : ∀ k ∈ ks, c.share k.oracle = (k.upshot E c₀).2
  held : ∀ k ∈ ks, c.locks.isHeld k.oracle = c₀.locks.isHeld k.oracle

namespace Parallel.Consistent

theorem start (hc : c.Orderly) : Consistent E c ks (start c ks) :=
  ⟨hc, .refl c _, .start E c ks⟩

theorem turn (h : Consistent E c₀ ks p) (hks : Apart E c₀ ks) (hturn : E.Turn p p') :
    Consistent E c₀ ks p' := by
  obtain ⟨k, hk, hspares, horderly, htasks⟩ := Underway.turn hturn hks h.orderly h.tasks
  refine ⟨horderly, h.spares.trans (hspares.mono ?_), htasks⟩
  rintro _ rfl
  exact List.mem_map_of_mem hk

theorem comes (h : Consistent E c₀ ks p) (hks : Apart E c₀ ks) (hrun : E.Comes p p') :
    Consistent E c₀ ks p' := by
  induction hrun with
  | refl => exact h
  | tail _ hturn ih => exact ih.turn hks hturn

/-- Whatever turns were taken, the tasks can go on to their ends. -/
theorem ends (h : Consistent E c₀ ks p) (hks : Apart E c₀ ks) :
    ∃ p', E.Comes p p' ∧ p'.Finished := by
  -- The induction is on what is still to be done.
  generalize hleft : p.tasks.map (·.rest) = left
  induction left using Simulation.Shrinks.wellFounded.induction generalizing p with
  | _ left ih =>
    subst hleft
    rcases h.tasks.goes_on hks h.orderly with hdone | ⟨p₁, hturn⟩
    · exact ⟨p, .refl, hdone⟩
    · obtain ⟨p', hrun, hdone⟩ := ih _ hturn.shrinks (h.turn hks hturn) rfl
      exact ⟨p', .head hturn hrun, hdone⟩

theorem settled (h : Consistent E c₀ ks p) (hdone : p.Finished) :
    p.tasks = ks.map (fun k => .ended k.oracle (k.upshot E c₀).1) ∧ c₀.Settled E ks p.commons := by
  obtain ⟨htasks, hshares⟩ := h.tasks.of_done hdone
  exact ⟨htasks, h.orderly, h.spares, fun k hk => (hshares k hk).1, fun k hk => (hshares k hk).2⟩

end Parallel.Consistent

end PriceOracle
