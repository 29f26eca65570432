import Mathlib.Logic.Relation
import PriceOracle.Proofs.Program.Transcript
import PriceOracle.Proofs.Registry.Regular

/-!
# A registry that others use, too

A call or a cycle asks the registry for one thing after the other. In between, other calls and
cycles may ask for anything, and any write may fail. `amid` are the surroundings of one of them: a
`Standpoint` has the registry and its storage as they are now, and as they were when this one was
last answered.

* `Meddled`: what the others may do. Calls and cycles do nothing else (`meddled_of_leads`).
* `serves_register`, `serves_update`, `serves_remove`, `serves_revise`: what is in storage once a
  request went well.
-/

namespace PriceOracle.Registry

open Program (Keeps Leads)
open Storage (Memory)
open Surroundings (Action)

variable {s s' : Table × Memory} {id : OracleId} {c : OracleConfig} {row : Row}

/-! ## Registries that come up -/

/-- A registry and its storage that some history leads to. -/
def Arises (s : Table × Memory) : Prop := ∃ log, History log s.1 s.2

theorem Arises.served {r : Request} {reply : r.Reply} (h : Arises s)
    (hserves : serves (.registry r) s reply s') : Arises s' := by
  obtain ⟨log, hlog⟩ := h
  obtain ⟨faults, hserve⟩ := hserves
  have hserved := hlog.served r faults
  rw [hserve] at hserved
  exact ⟨_, hserved⟩

/-- Table and storage agree on every row. -/
theorem Arises.kept (h : Arises s) (hrow : s.1.row? id = some row) : Kept id row s.1 s.2 := by
  obtain ⟨_, hlog⟩ := h
  obtain ⟨saved, hbacked⟩ := hlog.reachable.backed
  exact ⟨hrow, hbacked.rebuilt id row hrow, hbacked.arranged.keyed id row hrow⟩

/-! ## Requests that go well -/

/-- A request that goes well makes all its writes. -/
theorem served_as_planned {r : Request} {reply : r.Reply} (h : serves (.registry r) s reply s')
    (hok : ¬r.Failed reply) :
    reply = (plan s.1 r).reply ∧ s'.1 = (plan s.1 r).table ∧
      s'.2 = Write.applyAll (plan s.1 r).writes s.2 := by
  obtain ⟨faults, hserve⟩ := h
  obtain ⟨hcontents, hfinished, -⟩ := serve_eq r faults s.1 s.2
  rw [hserve] at hcontents hfinished
  rcases Nat.eq_or_lt_of_le (Write.taken_le (plan s.1 r).writes (faults, s.2)) with hall | hsome
  · rw [hall, List.take_length] at hcontents
    exact ⟨(hfinished hall).1, (hfinished hall).2, hcontents⟩
  · obtain ⟨e, hrefused⟩ := serve_refused hsome
    rw [hserve] at hrefused
    obtain rfl : reply = (plan s.1 r).refused e := hrefused
    exact absurd (failed_refused hsome e) hok

theorem ok_of_answer {α : Type} (a : α) : ¬∃ e : RegistryError, Except.ok a = .error e := nofun

/-- Storage that never fails. -/
abbrev neverFails : Storage.Request → Memory → Prop := fun _ _ => False

/-- A request that goes well is answered as it is where storage never fails. -/
theorem leads_of_served {r : Request} {reply : r.Reply} (h : serves (.registry r) s reply s')
    (hok : ¬r.Failed reply) :
    Leads (Memory.Flaky neverFails) (answer r s.1) s.2 (.done (reply, s'.1)) s'.2 := by
  obtain ⟨rfl, htable, hcontents⟩ := served_as_planned h hok
  rw [htable, hcontents]
  exact may_answer neverFails r s.1 s.2

/-- An oracle that was registered has a row with initial bookkeeping, and stands in the order. -/
theorem serves_register (h : serves (.registry (.register c)) s (.ok ()) s') :
    Kept c.id ⟨c, .initial⟩ s'.1 s'.2 ∧ Listed c.id s'.1 s'.2 := by
  have hspec : Keeps (Memory.Flaky neverFails) anyRequest
      (fun e m => e.1 = .ok () → Kept c.id ⟨c, .initial⟩ e.2 m ∧ Listed c.id e.2 m)
      (answer (.register c) s.1) s.2 :=
    keeps_register (fun _ _ _ hkept hlisted _ => ⟨hkept, hlisted⟩) fun _ _ _ => nofun
  exact hspec.leads (leads_of_served h (ok_of_answer _)) rfl

/-- An oracle that was updated has the new configuration. -/
theorem serves_update (harises : Arises s) (h : serves (.registry (.update c)) s (.ok ()) s') :
    ∃ current, s.1.row? c.id = some current ∧
      Kept c.id ⟨c, carriedOver current c⟩ s'.1 s'.2 := by
  cases hrow : s.1.row? c.id with
  | none =>
    have hspec : Keeps (Memory.Flaky neverFails) anyRequest (fun e _ => e.1 ≠ .ok ())
        (answer (.update c) s.1) s.2 := keeps_update_of_missing hrow fun _ => nofun
    exact absurd rfl (hspec.leads (leads_of_served h (ok_of_answer _)))
  | some current =>
    have hspec : Keeps (Memory.Flaky neverFails) anyRequest
        (fun e m => e.1 = .ok () → Kept c.id ⟨c, carriedOver current c⟩ e.2 m)
        (answer (.update c) s.1) s.2 :=
      keeps_update (harises.kept hrow) (fun _ _ hkept _ _ => hkept) fun _ => nofun
    exact ⟨current, rfl, hspec.leads (leads_of_served h (ok_of_answer _)) rfl⟩

/-- An oracle that was removed has no row and stands in no order. -/
theorem serves_remove (h : serves (.registry (.remove id)) s (.ok ()) s') :
    s'.1.row? id = none ∧ storedRow? id s'.2 = none ∧ Unlisted id s'.1 s'.2 := by
  have hspec : Keeps (Memory.Flaky neverFails) anyRequest
      (fun e m => e.1 = .ok () → e.2.row? id = none ∧ Unlisted id e.2 m)
      (answer (.remove id) s.1) s.2 :=
    keeps_remove (fun _ _ hnone hunlisted _ => ⟨hnone, hunlisted⟩) fun _ _ _ _ => nofun
  obtain ⟨hnone, hunlisted⟩ := hspec.leads (leads_of_served h (ok_of_answer _)) rfl
  refine ⟨hnone, ?_, hunlisted⟩
  obtain ⟨hreply, -, hcontents⟩ := served_as_planned h (ok_of_answer _)
  have hthere : s.1.row? id ≠ none := by
    intro habsent
    rw [plan_remove_absent habsent] at hreply
    cases hreply
  -- The last write of a removal drops the row.
  rw [hcontents, plan_remove hthere]
  exact Memory.record_unset_self rowSpace id Row.decode _

/-- Bookkeeping that was changed is stored so, unless it counts as the same. -/
theorem serves_revise {change : Bookkeeping → Bookkeeping} {b : Bookkeeping} (harises : Arises s)
    (h : serves (.registry (.revise id change)) s (.ok b) s') :
    ∃ current b', s.1.row? id = some current ∧ b = change current.bookkeeping ∧
      Kept id ⟨current.config, b'⟩ s'.1 s'.2 ∧
      (b' = b ∨ b' = current.bookkeeping ∧ (b == current.bookkeeping) = true) := by
  cases hrow : s.1.row? id with
  | none =>
    obtain ⟨hreply, -⟩ := served_as_planned h (ok_of_answer _)
    rw [plan, rowOf, hrow] at hreply
    cases hreply
  | some current =>
    have hspec : Keeps (Memory.Flaky neverFails) anyRequest
        (fun e m => e.1 = .ok (change current.bookkeeping) ∧
          ∃ b', Kept id ⟨current.config, b'⟩ e.2 m ∧ (b' = change current.bookkeeping ∨
            b' = current.bookkeeping ∧
              (change current.bookkeeping == current.bookkeeping) = true))
        (answer (.revise id change) s.1) s.2 :=
      keeps_revise (harises.kept hrow) (fun b' _ _ hb' hkept _ => ⟨rfl, b', hkept, hb'⟩)
        fun hfails => hfails.elim
    obtain ⟨hreply, b', hkept, hb'⟩ := hspec.leads (leads_of_served h (ok_of_answer _))
    obtain rfl := Except.ok.inj hreply
    exact ⟨current, b', rfl, rfl, hkept, hb'⟩

/-! ## Others -/

/-- What others may do to a registry: any requests, amid any faults. -/
def Meddled : Table × Memory → Table × Memory → Prop :=
  Relation.ReflTransGen fun s s' => ∃ (r : Request) (reply : r.Reply),
    serves (.registry r) s reply s'

theorem Meddled.arises (h : Meddled s s') (hs : Arises s) : Arises s' := by
  induction h with
  | refl => exact hs
  | tail _ hstep ih =>
    obtain ⟨_, _, hserves⟩ := hstep
    exact ih.served hserves

/-- A call or a cycle, as far as it came, does nothing else. -/
theorem meddled_of_leads {α : Type} {p q : Action α} (h : Leads serves p s q s') :
    Meddled s s' := by
  induction h with
  | here => exact .refl
  | @ask r _ reply _ _ _ _ hreply _ ih =>
    cases r with
    | registry r => exact .head ⟨r, reply, hreply⟩ ih
    | _ =>
      obtain rfl := hreply
      exact ih

/-! ## Standpoints -/

/-- A registry with its storage, as one of those that use it may know it. -/
structure Standpoint where
  /-- As it is now. -/
  now : Table × Memory
  /-- As it was when this one last asked for something. -/
  before : Table × Memory
  /-- As the answer to that left it. -/
  after : Table × Memory

/-- How the surroundings serve one of several: each request at once, the registry amid any faults
and all else in any way, and then others may meddle. -/
def amid : Behaviour Surroundings.interface Standpoint
  | .registry r, x, reply, y =>
    serves (.registry r) x.now reply y.after ∧ y.before = x.now ∧ Meddled y.after y.now
  | _, x, _, y => y.before = x.before ∧ y.after = x.after ∧ Meddled x.now y.now

end PriceOracle.Registry
