import PriceOracle.Proofs.Cycle.Announcements

/-!
# Events follow the registry

Whatever fails and whatever others do meanwhile, an event is told only when the registry has written
what it announces, and the events of a call or a cycle are those of what comes out, each once
(`Announcement.Errand.Tells`). A call that goes well tells one event, one that fails none; seeding
tells each oracle that it adds.

* `keeps_register`, `keeps_update`, `keeps_remove`, `keeps_resync`, `keeps_seed`: the calls.
* `Announcement.events_follow_registry`: calls and cycles together.
-/

namespace PriceOracle

open Program (Keeps Leads Makes noted)
open Registry (Arises Meddled Standpoint amid serves)
open Storage (Memory)
open Surroundings (Action)

namespace Announcement

/-! ## Calls -/

open Management (Call Caller)

variable {V : Sight} {E : List Event} {A : List TxHash} {I : List OracleId}
  {x : Standpoint × Course} {configs : List OracleConfig} {α β : Type} {id : OracleId}
  {c : OracleConfig}

/-- A call that goes well tells one event, and one that fails tells none. -/
def announced (event : α → Event) : Except ServiceError α → List Event
  | .ok a => [event a]
  | .error _ => []

/-- A mute part of a call. -/
theorem keeps_mute_part {call : Call α} {f : α → Call β}
    {post : Except ServiceError β → Standpoint × Course → Prop} (hcall : call.run.Makes Mute)
    (h : SoFar V E A I x) (herror : ∀ e y, SoFar V E A I y → post (.error e) y)
    (hf : ∀ a y, SoFar V E A I y → Keeps (noted amid) (Permits configs) post (f a).run y) :
    Keeps (noted amid) (Permits configs) post (call >>= f).run x := by
  refine Attempt.keeps_bind.mpr ((keeps_mute hcall h).mono fun e y hy => ?_)
  cases e with
  | ok a => exact hf a y hy
  | error e => exact herror e y hy

theorem mute_authorize (auth : Authorization) (caller : Caller) :
    (Management.authorize auth caller).run.Makes Mute := trivial

/-- What is done under a lock is done between mute requests. -/
theorem keeps_locked (sight : Except ServiceError α → Sight)
    (events : Except ServiceError α → List Event) {call : Call α} (h : SoFar V [] [] [] x)
    (hcall : ∀ y, SoFar V [] [] [] y → Keeps (noted amid) (Permits configs)
      (fun e => SoFar (sight e) (events e) [] []) call.run y) :
    Keeps (noted amid) (Permits configs) (fun e => SoFar (sight e) (events e) [] [])
      (Management.locked id call).run x := by
  refine Program.keeps_bind.mpr ((keeps_ask (r := .slot id) trivial h).mono fun slot y hy => ?_)
  refine Program.keeps_bind.mpr ((keeps_ask (r := .take slot) trivial hy).mono fun _ y hy => ?_)
  refine Program.keeps_bind.mpr ((hcall y hy).mono fun e y hy => ?_)
  exact Program.keeps_bind.mpr (keeps_ask (r := .release slot) trivial hy)

/-- An oracle is added, and told. -/
theorem keeps_registerRow {f : Unit → Call α}
    {post : Except ServiceError α → Standpoint × Course → Prop} (hc : c ∈ configs)
    (h : SoFar V E A I x) (herror : ∀ e y, SoFar anySight E A I y → post (.error e) y)
    (hf : ∀ y, SoFar anySight (E ++ [.registered c.id]) A (I ++ [c.id]) y →
      Keeps (noted amid) (Permits configs) post (f ()).run y) :
    Keeps (noted amid) (Permits configs) post
      (Management.registerRow c >>= fun _ =>
        (liftM (Surroundings.emit (.registered c.id)) : Call Unit) >>= f).run x := by
  refine Attempt.keeps_bind.mpr (Attempt.keeps_adapt.mpr ?_)
  refine keeps_registry (r := .register c) h fun reply y hy => ?_
  cases reply with
  | error e => exact herror _ y (hy.unadded rfl).blind
  | ok _ =>
    refine keeps_emit_bind hy ?_ fun z hz => hf z hz.blind
    rintro s s' ⟨-, hserves⟩
    exact ⟨c, hc, rfl, Registry.serves_register hserves⟩

theorem keeps_register (auth : Authorization) (caller : Caller) (hc : c ∈ configs)
    (h : SoFar V [] [] [] x) :
    Keeps (noted amid) (Permits configs)
      (fun e y => ∃ I, SoFar anySight (announced .registered e) [] I y)
      (Management.register auth caller c).run x := by
  refine keeps_mute_part (mute_authorize auth caller) h (fun _ y hy => ⟨_, hy.blind⟩)
    fun _ y hy => ?_
  exact keeps_registerRow hc hy (fun _ y hy => ⟨_, hy⟩) fun y hy => ⟨_, hy⟩

theorem keeps_update (auth : Authorization) (caller : Caller) (hc : c ∈ configs)
    (h : SoFar V [] [] [] x) :
    Keeps (noted amid) (Permits configs)
      (fun e => SoFar anySight (announced (fun _ => .updated c.id) e) [] [])
      (Management.update auth caller c).run x := by
  refine keeps_mute_part (mute_authorize auth caller) h (fun _ y hy => hy.blind) fun _ y hy => ?_
  refine keeps_locked (fun _ => anySight) _ hy fun y hy => ?_
  refine Attempt.keeps_bind.mpr (Attempt.keeps_adapt.mpr ?_)
  refine keeps_registry (r := .update c) hy fun reply y hy => ?_
  cases reply with
  | error e => exact hy.blind
  | ok _ =>
    refine Program.keeps_bind.mpr (keeps_emit hy ?_ fun z hz => hz.blind)
    rintro s s' ⟨harises, hserves⟩
    exact ⟨c, hc, rfl, Registry.serves_update harises hserves⟩

/-- The removal is told after the lock was given back. -/
theorem keeps_remove (auth : Authorization) (caller : Caller) (h : SoFar V [] [] [] x) :
    Keeps (noted amid) (Permits configs)
      (fun e => SoFar anySight (announced (fun _ => .removed id) e) [] [])
      (Management.remove auth caller id).run x := by
  refine keeps_mute_part (mute_authorize auth caller) h (fun _ y hy => hy.blind) fun _ y hy => ?_
  let seen : Except ServiceError Unit → Sight
    | .ok _ => Answered (.remove id) (.ok ())
    | .error _ => anySight
  refine Attempt.keeps_bind.mpr
    ((keeps_locked seen (fun _ => []) hy fun y hy => ?_).mono fun e y hy => ?_)
  · refine Attempt.keeps_adapt.mpr (keeps_registry (r := .remove id) hy fun reply y hy => ?_)
    cases reply with
    | error e => exact hy.blind
    | ok _ => exact hy
  · cases e with
    | error e => exact hy.blind
    | ok _ =>
      refine keeps_ask_bind (r := .forget id) trivial hy fun _ y hy => ?_
      refine keeps_ask_bind (r := .leave id) trivial hy fun _ y hy => ?_
      refine Program.keeps_bind.mpr (keeps_emit hy ?_ fun z hz => hz.blind)
      rintro s s' ⟨-, hserves⟩
      exact Registry.serves_remove hserves

theorem keeps_resync (auth : Authorization) (caller : Caller) (h : SoFar V [] [] [] x) :
    Keeps (noted amid) (Permits configs)
      (fun e => SoFar anySight (announced (fun b => .resynced id b.lastRound) e) [] [])
      (Management.resync auth caller id).run x := by
  refine keeps_mute_part (mute_authorize auth caller) h (fun _ y hy => hy.blind) fun _ y hy => ?_
  refine keeps_locked (fun _ => anySight) _ hy fun y hy => ?_
  refine Attempt.keeps_bind.mpr (Attempt.keeps_adapt.mpr
    (keeps_row hy (fun _ y hy => hy) fun row y _ hy => ?_))
  refine keeps_mute_part (Attempt.makes_adapt _ (mute_reads ⟨trivial, fun _ => trivial⟩)) hy
    (fun _ y hy => hy) fun latest y hy => ?_
  refine keeps_mute_part (Attempt.makes_adapt _ (mute_reads trivial)) hy (fun _ y hy => hy)
    fun value y hy => ?_
  refine Attempt.keeps_bind.mpr (Attempt.keeps_adapt.mpr (keeps_revise (R := fun _ b' =>
      b'.lastRound = latest.round ∧ b'.halted = none ∧ b'.pending = none) hy
    (fun _ => ⟨rfl, rfl, rfl⟩) (fun b hsame => ?_) (fun b y hy => ?_) fun _ y hy => hy))
  · have hequal := Bookkeeping.same_of_beq hsame
    refine ⟨hequal.lastRound.symm, hequal.halted.symm, ?_⟩
    rw [← Option.isNone_iff_eq_none, ← Option.isSome_eq_false_iff, ← hequal.pending]
    rfl
  · obtain ⟨_, _, _, -, -, rfl, -⟩ := hy.seen
    refine keeps_emit_bind hy ?_ fun z hz => hz.blind
    rintro s s' ⟨c, b₀, b', hrow, hkept, -, hb'⟩
    exact ⟨c, b₀, b', hrow, hkept, hb'⟩

/-- Seeding tells every oracle that it adds, and gives their number. -/
theorem keeps_seed (cs : List OracleConfig) (hcs : ∀ c ∈ cs, c ∈ configs)
    (h : SoFar V (I.map .registered) [] I x) :
    Keeps (noted amid) (Permits configs)
      (fun e y => ∃ more, SoFar anySight ((I ++ more).map .registered) [] (I ++ more) y ∧
        ∀ n, e = .ok n → n = more.length)
      (Management.seed cs).run x := by
  induction cs generalizing I V x with
  | nil =>
    refine ⟨[], by rw [List.append_nil]; exact h.blind, ?_⟩
    rintro _ ⟨⟩
    rfl
  | cons c rest ih =>
    have hrest : ∀ c ∈ rest, c ∈ configs := fun c hc => hcs c (List.mem_cons_of_mem _ hc)
    -- An error ends the seeding with what was added so far announced.
    have hstop : ∀ {y : Standpoint × Course} {e : ServiceError},
        SoFar anySight (I.map .registered) [] I y →
        ∃ more, SoFar anySight ((I ++ more).map .registered) [] (I ++ more) y ∧
          ∀ n, (Except.error e : Except ServiceError Nat) = .ok n → n = more.length :=
      fun hy => ⟨[], by rwa [List.append_nil], nofun⟩
    refine Attempt.keeps_lift_bind.mpr
      (keeps_row h (fun e y hy => ?_) fun row y _ hy => ih hrest hy)
    cases e with
    | notFound _ =>
      refine keeps_registerRow (hcs c List.mem_cons_self) hy (fun _ y hy => hstop hy) fun y hy => ?_
      have hadded : SoFar anySight ((I ++ [c.id]).map .registered) [] (I ++ [c.id]) y := by
        rwa [List.map_append]
      refine Attempt.keeps_bind.mpr ((ih hrest hadded).mono ?_)
      rintro e y ⟨more, hy, hcount⟩
      rw [List.append_assoc] at hy
      cases e with
      | error e => exact ⟨_, hy, nofun⟩
      | ok n =>
        refine ⟨_, hy, ?_⟩
        rintro _ ⟨⟩
        rw [hcount n rfl]
        rfl
    | _ => exact hstop hy

/-! ## All of them -/

/-- What the service does, of its own accord or for a caller. -/
inductive Errand where
  | cycle (policy : Cycle.Policy) (id : OracleId) (deadline : Duration)
  | register (auth : Authorization) (caller : Caller) (c : OracleConfig)
  | update (auth : Authorization) (caller : Caller) (c : OracleConfig)
  | remove (auth : Authorization) (caller : Caller) (id : OracleId)
  | resync (auth : Authorization) (caller : Caller) (id : OracleId)
  | seed (configs : List OracleConfig)

namespace Errand

/-- What comes out. -/
def Result : Errand → Type
  | cycle _ _ _ => Except RegistryError Outcome
  | register _ _ _ => Except ServiceError OracleId
  | update _ _ _ => Except ServiceError Unit
  | remove _ _ _ => Except ServiceError Unit
  | resync _ _ _ => Except ServiceError Bookkeeping
  | seed _ => Except ServiceError Nat

def program : (j : Errand) → Action j.Result
  | cycle policy id deadline => Cycle.run policy id deadline
  | register auth caller c => (Management.register auth caller c).run
  | update auth caller c => (Management.update auth caller c).run
  | remove auth caller id => (Management.remove auth caller id).run
  | resync auth caller id => (Management.resync auth caller id).run
  | seed configs => (Management.seed configs).run

/-- The configurations that are put. -/
def puts : Errand → List OracleConfig
  | register _ _ c | update _ _ c => [c]
  | seed configs => configs
  | _ => []

/-- The accepted submissions, the events and the added oracles, by what comes out. -/
def Tells : (j : Errand) → j.Result → List TxHash → List Event → List OracleId → Prop
  | cycle _ id _, e, A, E, I => CycleTells id e A E ∧ I = []
  | register _ _ _, e, A, E, _ => A = [] ∧ E = announced .registered e
  | update _ _ c, e, A, E, I => A = [] ∧ E = announced (fun _ => .updated c.id) e ∧ I = []
  | remove _ _ id, e, A, E, I => A = [] ∧ E = announced (fun _ => .removed id) e ∧ I = []
  | resync _ _ id, e, A, E, I =>
    A = [] ∧ E = announced (fun b => .resynced id b.lastRound) e ∧ I = []
  | seed _, e, A, E, I => A = [] ∧ E = I.map .registered ∧ ∀ n, e = .ok n → n = I.length

/-- Every event is shown, and the events are those of what comes out. -/
theorem keeps_program (j : Errand) (h : SoFar V [] [] [] x) :
    Keeps (noted amid) (Permits j.puts)
      (fun e y => j.Tells e (accepted y.2) (told y.2) (added y.2)) j.program x := by
  cases j with
  | cycle policy id deadline =>
    refine (keeps_run h).mono ?_
    rintro e y ⟨E, A, hy, htells⟩
    rw [← hy.accepted, ← hy.told] at htells
    exact ⟨htells, hy.added⟩
  | register auth caller c =>
    refine (keeps_register auth caller (List.mem_singleton_self c) h).mono ?_
    rintro e y ⟨I, hy⟩
    exact ⟨hy.accepted, hy.told⟩
  | update auth caller c =>
    exact (keeps_update auth caller (List.mem_singleton_self c) h).mono fun _ _ hy =>
      ⟨hy.accepted, hy.told, hy.added⟩
  | remove auth caller id =>
    exact (keeps_remove auth caller h).mono fun _ _ hy => ⟨hy.accepted, hy.told, hy.added⟩
  | resync auth caller id =>
    exact (keeps_resync auth caller h).mono fun _ _ hy => ⟨hy.accepted, hy.told, hy.added⟩
  | seed configs =>
    refine (keeps_seed (I := []) configs (fun _ hc => hc) h).mono ?_
    rintro e y ⟨more, hy, hcount⟩
    rw [List.nil_append] at hy
    refine ⟨hy.accepted, hy.told.trans (congrArg _ hy.added.symm), ?_⟩
    intro n hn
    rw [hcount n hn, hy.added]

end Errand

variable {s : Table × Memory}

/-- Whatever fails, and whatever others do meanwhile, which are calls and cycles, too: an event is
told only when the registry has written what it announces, and a call or a cycle that comes to its
end has told exactly the events of its result. -/
theorem events_follow_registry (h : Arises s) :
    (∀ (j : Errand) e next y,
      Leads (noted amid) j.program (⟨s, s, s⟩, []) (.ask (.emit e) next) y →
        e.Shown j.puts y.1.before y.1.after) ∧
    (∀ (j : Errand) result y, Leads (noted amid) j.program (⟨s, s, s⟩, []) (.done result) y →
      j.Tells result (accepted y.2) (told y.2) (added y.2)) ∧
    ∀ {α : Type} (p q : Action α) s', Leads serves p s q s' → Meddled s s' := by
  have hstart : SoFar anySight [] [] [] ((⟨s, s, s⟩, []) : Standpoint × Course) :=
    ⟨h, trivial, rfl, rfl, rfl⟩
  refine ⟨fun j e next y hrun => ?_, fun j result y hrun => ?_, fun p q s' hrun => ?_⟩
  · exact ((j.keeps_program hstart).leads hrun).1
  · exact (j.keeps_program hstart).leads hrun
  · exact Registry.meddled_of_leads hrun

open PriceOracle.Cycle (ethUsd) in
open PriceOracle.Registry (onlyEthUsd withEthUsd) in
/-- A registration on empty storage is told once, and only after the row and the order are there. -/
theorem events_follow_registry_ethUsd :
    Arises (.empty, []) ∧
    Event.Shown [ethUsd] (.empty, []) (onlyEthUsd, withEthUsd) (.registered ethUsd.id) ∧
    ∃ y, Leads (noted amid) (Management.register .anyone none ethUsd).run
        (⟨(.empty, []), (.empty, []), (.empty, [])⟩, []) (.done (.ok ethUsd.id)) y ∧
      told y.2 = [.registered ethUsd.id] := by
  have harises : Arises (.empty, []) := ⟨[], .empty⟩
  obtain ⟨hshown, htells, -⟩ := events_follow_registry harises
  let start : Standpoint × Course := (⟨(.empty, []), (.empty, []), (.empty, [])⟩, [])
  let answered : Standpoint × Course :=
    (⟨(onlyEthUsd, withEthUsd), (.empty, []), (onlyEthUsd, withEthUsd)⟩,
      [⟨.registry (.register ethUsd), Except.ok ()⟩])
  let j : Errand := .register .anyone none ethUsd
  have hregistered : noted amid (.registry (.register ethUsd)) start (Except.ok ()) answered :=
    ⟨⟨⟨[], rfl⟩, rfl, .refl⟩, rfl⟩
  have htold : Leads (noted amid) j.program start
      (.ask (.emit (.registered ethUsd.id)) fun _ => .done (.ok ethUsd.id)) answered :=
    .ask hregistered (.here _ _)
  have hend : Leads (noted amid) j.program start (.done (.ok ethUsd.id))
      (answered.1, answered.2 ++ [⟨.emit (.registered ethUsd.id), ()⟩]) :=
    htold.trans (.reply ⟨⟨rfl, rfl, .refl⟩, rfl⟩)
  exact ⟨harises, hshown j _ _ _ htold, _, hend, (htells j _ _ hend).2⟩

end Announcement

end PriceOracle
