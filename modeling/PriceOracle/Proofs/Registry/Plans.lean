import PriceOracle.Proofs.Registry.Rows

/-!
# What a request writes

The registry decides on the table alone what a request writes. The writes are made one after the
other; the new table shows once the last of them took effect. Faults and crashes come between
writes, so that a request has to be known by its writes: whatever is proved of faults is proved of
plans, and no proof goes through the code of a request again.

* `Write.taken`: how many writes take effect before one fails.
* `plan`: the writes of a request, and its answer when all of them take effect.
* `answer_eq`: to answer a request is to perform its plan.
* `planned`: a plan writes nothing, or writes one row of an oracle that is there, or registers an
  oracle, or takes one out.
* `run_answer`: what a request leaves when some of its writes take effect.
-/

namespace PriceOracle.Registry

open Program (Exactly Leads)
open Storage (Memory recordKey encode)

variable {α β ρ : Type}

/-! ## Writes -/

/-- One write to storage. -/
inductive Write where
  | row (row : Row)
  | order (order : List OracleId)
  | drop (id : OracleId)

namespace Write

/-- Makes a write. -/
def access : Write → Storage.Access Unit
  | .row r => Storage.store rowSpace r.config.id r.toJson
  | .order ids => Storage.store indexSpace indexId (.arr (ids.map .str))
  | .drop id => Storage.remove rowSpace id

/-- The key that a write is about. -/
def key : Write → String
  | .row r => recordKey rowSpace r.config.id
  | .order _ => recordKey indexSpace indexId
  | .drop id => recordKey rowSpace id

/-- The contents of storage after a write. -/
def apply : Write → Memory → Memory
  | .row r, m => Dict.set (recordKey rowSpace r.config.id) (encode r.toJson) m
  | .order ids, m => Dict.set (recordKey indexSpace indexId) (encode (.arr (ids.map .str))) m
  | .drop id, m => Dict.unset m (recordKey rowSpace id)

/-- The contents of storage after some writes. -/
def applyAll (writes : List Write) (m : Memory) : Memory := writes.foldl (fun m w => w.apply m) m

/-- Makes writes one after the other, until one fails. -/
def perform (finished : β) (refused : StorageError → β) : List Write → Program Storage.interface β
  | [] => .done finished
  | w :: rest => w.access.run.bind fun
    | .ok _ => perform finished refused rest
    | .error e => .done (refused e)

/-- A change that makes some writes. -/
def carryOut (a : α) : List Write → Change α
  | [] => pure a
  | w :: rest => do
    stored w.access
    carryOut a rest

theorem run_carryOut_cons (a : α) (w : Write) (rest : List Write) :
    (carryOut a (w :: rest)).run = w.access.run.bind fun
      | .ok _ => (carryOut a rest).run
      | .error e => .done (.error (.storage e)) := by
  show (w.access.run.bind fun e => .done (e.mapError RegistryError.storage)).bind _ = _
  rw [Program.bind_assoc]
  refine congrArg w.access.run.bind (funext fun e => ?_)
  cases e <;> rfl

/-- Writes that are carried out are settled by their result, or by the failure of one of them. -/
theorem settle_carryOut (t t' : Table) (a : α) (writes : List Write) :
    settle t (carryOut (t', a) writes)
      = perform (.ok a, t') (fun e => (.error (.storage e), t)) writes := by
  induction writes with
  | nil => rfl
  | cons w rest ih =>
    rw [settle, run_carryOut_cons]
    show (w.access.run.bind _).bind _ = _
    rw [Program.bind_assoc, perform]
    refine congrArg w.access.run.bind (funext fun e => ?_)
    cases e with
    | ok _ => exact ih
    | error e => rfl

theorem map_carryOut (f : α → β) (a : α) (writes : List Write) :
    f <$> carryOut a writes = carryOut (f a) writes := by
  induction writes with
  | nil => rfl
  | cons w rest ih =>
    refine ExceptT.ext ?_
    rw [run_carryOut_cons, ← ih]
    show (carryOut a (w :: rest)).run.bind _ = _
    rw [run_carryOut_cons, Program.bind_assoc]
    refine congrArg w.access.run.bind (funext fun e => ?_)
    cases e <;> rfl

/-! ### Writes that take effect -/

section

variable {σ : Type} (A : (r : Storage.interface.Request) → σ → Storage.interface.Reply r × σ)

/-- The number of writes that take effect before one fails. -/
def taken : List Write → σ → Nat
  | [], _ => 0
  | w :: rest, s =>
    match w.access.run.run A s with
    | (.ok _, s') => taken rest s' + 1
    | (.error _, _) => 0

/-- A write takes effect, or fails and leaves the contents as they were. -/
def Sound (contents : σ → Memory) : Prop :=
  ∀ (w : Write) (s : σ),
    (∃ s', w.access.run.run A s = (.ok (), s') ∧ contents s' = w.apply (contents s)) ∨
      ∃ e s', w.access.run.run A s = (.error e, s') ∧ contents s' = contents s

variable {A} {contents : σ → Memory} {writes : List Write} {s : σ}

theorem taken_cons {w : Write} {s' : σ} (h : w.access.run.run A s = (.ok (), s')) :
    taken A (w :: writes) s = taken A writes s' + 1 := by
  rw [taken, h]

theorem taken_le (writes : List Write) (s : σ) : taken A writes s ≤ writes.length := by
  induction writes generalizing s with
  | nil => exact Nat.le_refl 0
  | cons w rest ih =>
    rw [taken]
    split
    · exact Nat.succ_le_succ (ih _)
    · exact Nat.zero_le _

/-- Writes take effect up to the first that fails. -/
theorem Sound.run_perform (hA : Sound A contents) (finished : β) (refused : StorageError → β)
    (writes : List Write) (s : σ) :
    let outcome := (perform finished refused writes).run A s
    contents outcome.2 = applyAll (writes.take (taken A writes s)) (contents s) ∧
      (taken A writes s = writes.length → outcome.1 = finished) ∧
      (taken A writes s < writes.length → ∃ e, outcome.1 = refused e) := by
  induction writes generalizing s with
  | nil => exact ⟨rfl, fun _ => rfl, fun h => absurd h (Nat.lt_irrefl 0)⟩
  | cons w rest ih =>
    rw [perform, Program.run_bind, taken]
    obtain ⟨s', hrun, hcontents⟩ | ⟨e, s', hrun, hcontents⟩ := hA w s
    · rw [hrun]
      obtain ⟨happlied, hfinished, hrefused⟩ := ih s'
      rw [hcontents] at happlied
      refine ⟨happlied, ?_, ?_⟩
      · intro hall
        exact hfinished (Nat.succ.inj hall)
      · intro hcut
        exact hrefused (Nat.lt_of_succ_lt_succ hcut)
    · rw [hrun]
      exact ⟨hcontents, fun h => absurd h (Nat.succ_ne_zero _).symm, fun _ => ⟨e, rfl⟩⟩

/-- A write is still to come, or it is made. -/
theorem leads_access {α : Type} {w : Write} {f : Except StorageError Unit → Program _ α}
    {q : Program Storage.interface α} {s' : σ}
    (h : Leads (Exactly A) (w.access.run.bind f) s q s') :
    s' = s ∨ Leads (Exactly A) (f (w.access.run.run A s).1) (w.access.run.run A s).2 q s' := by
  cases w <;>
  · cases h with
    | here => exact .inl rfl
    | ask hreply hrest =>
      obtain rfl := congrArg Prod.fst hreply
      obtain rfl := congrArg Prod.snd hreply
      exact .inr hrest

/-- Writes that are under way have taken effect one after the other. -/
theorem Sound.leads_perform (hA : Sound A contents) {finished : β} {refused : StorageError → β}
    {q : Program Storage.interface β} {s' : σ}
    (h : Leads (Exactly A) (perform finished refused writes) s q s') :
    ∃ k, k ≤ taken A writes s ∧ contents s' = applyAll (writes.take k) (contents s) := by
  induction writes generalizing s with
  | nil =>
    obtain ⟨-, rfl⟩ := h.of_done
    exact ⟨0, Nat.le_refl 0, rfl⟩
  | cons w rest ih =>
    rcases leads_access h with rfl | hrest
    · exact ⟨0, Nat.zero_le _, rfl⟩
    · rw [taken]
      obtain ⟨s₁, hrun, hcontents⟩ | ⟨e, s₁, hrun, hcontents⟩ := hA w s
      · rw [hrun] at hrest
        obtain ⟨k, hk, happlied⟩ := ih hrest
        rw [hrun]
        refine ⟨k + 1, Nat.succ_le_succ hk, ?_⟩
        rw [happlied, hcontents]
        rfl
      · rw [hrun] at hrest
        obtain ⟨-, rfl⟩ := hrest.of_done
        exact ⟨0, Nat.zero_le _, hcontents⟩

end

/-! ### Writes to storage that may fail -/

theorem may_access (mayFail : Storage.Request → Memory → Prop) (w : Write) (m : Memory)
    (f : Except StorageError Unit → Program Storage.interface β) :
    Leads (Memory.Flaky mayFail) (w.access.run.bind f) m (f (.ok ())) (w.apply m) := by
  cases w with
  | row _ | order _ | drop _ => exact .reply (B := Memory.Flaky mayFail) (.inl rfl)

/-- All writes may take effect. -/
theorem may_perform (mayFail : Storage.Request → Memory → Prop) (finished : β)
    (refused : StorageError → β) (writes : List Write) (m : Memory) :
    Leads (Memory.Flaky mayFail) (perform finished refused writes) m (.done finished)
      (applyAll writes m) := by
  induction writes generalizing m with
  | nil => exact .here _ _
  | cons w rest ih => exact (may_access mayFail w m _).trans (ih (w.apply m))

end Write

/-! ## Plans -/

/-- The writes of a request, with its answer and the table when all of them take effect, and its
answer when one fails. -/
structure Plan (ρ : Type) where
  writes : List Write
  reply : ρ
  table : Table
  refused : StorageError → ρ

namespace Plan

/-- Nothing is written. -/
def idle (t : Table) (reply : ρ) : Plan ρ := ⟨[], reply, t, fun _ => reply⟩

/-- A change that the registry takes or refuses. -/
def change (t : Table) :
    Except RegistryError (List Write × α × Table) → Plan (Except RegistryError α)
  | .ok (writes, a, t') => ⟨writes, .ok a, t', fun e => .error (.storage e)⟩
  | .error e => idle t (.error e)

/-- Makes the writes of a plan; a failure leaves the table as it was. -/
def perform (p : Plan ρ) (t : Table) : Program Storage.interface (ρ × Table) :=
  Write.perform (p.reply, p.table) (fun e => (p.refused e, t)) p.writes

end Plan

/-- What the registry decides on a request. -/
def plan (t : Table) : (r : Request) → Plan r.Reply
  | .row id => .idle t (rowOf t id)
  | .rows => .idle t t.inOrder
  | .ids => .idle t t.order
  | .holds id => .idle t (t.row? id).isSome
  | .register c => .change t do
    check c
    checkFree t c.id
    checkOwner t c
    return ([.row ⟨c, .initial⟩, .order (t.order ++ [c.id])], (), t.append c.id ⟨c, .initial⟩)
  | .update c => .change t do
    check c
    let current ← rowOf t c.id
    checkOwner t c
    return ([.row ⟨c, carriedOver current c⟩], (), t.setRow c.id ⟨c, carriedOver current c⟩)
  | .remove id => .change t do
    let _ ← rowOf t id
    return ([.order (t.order.filter (· != id)), .drop id], (), t.remove id)
  | .revise id f => .change t do
    let current ← rowOf t id
    let row : Row := { current with bookkeeping := f current.bookkeeping }
    if row.bookkeeping == current.bookkeeping then return ([], row.bookkeeping, t)
    return ([.row row], row.bookkeeping, t.setRow id row)

/-- A request is answered by performing its plan. -/
theorem answer_eq (r : Request) (t : Table) : answer r t = (plan t r).perform t := by
  cases r with
  | row _ | rows | ids | holds _ => rfl
  | register c =>
    rw [answer, plan, register]
    cases check c with
    | error e => rfl
    | ok _ =>
      cases checkFree t c.id with
      | error e => rfl
      | ok _ =>
        cases checkOwner t c with
        | error e => rfl
        | ok _ =>
          -- The guards are passed alike on both sides; only the writes are left to compare.
          have hwrites := Write.map_carryOut (·, ()) (t.append c.id ⟨c, .initial⟩)
            [.row ⟨c, .initial⟩, .order (t.order ++ [c.id])]
          exact (congrArg (settle t) hwrites).trans (Write.settle_carryOut t _ () _)
  | update c =>
    rw [answer, plan, update]
    cases check c with
    | error e => rfl
    | ok _ =>
      cases rowOf t c.id with
      | error e => rfl
      | ok current =>
        cases checkOwner t c with
        | error e => rfl
        | ok _ =>
          have hwrites := Write.map_carryOut (·, ()) (t.setRow c.id ⟨c, carriedOver current c⟩)
            [.row ⟨c, carriedOver current c⟩]
          exact (congrArg (settle t) hwrites).trans (Write.settle_carryOut t _ () _)
  | remove id =>
    rw [answer, plan, remove]
    cases rowOf t id with
    | error e => rfl
    | ok _ =>
      have hwrites := Write.map_carryOut (·, ()) (t.remove id)
        [.order (t.order.filter (· != id)), .drop id]
      exact (congrArg (settle t) hwrites).trans (Write.settle_carryOut t _ () _)
  | revise id f =>
    rw [answer, plan, revise]
    cases rowOf t id with
    | error e => rfl
    | ok current =>
      show settle t (if _ then _ else _) = (Plan.change t (if _ then _ else _)).perform t
      split
      · rfl
      · exact Write.settle_carryOut t _ _ [.row _]

/-! ## The shapes of a plan -/

/-- What a request may write on a table, and the table it may leave. -/
inductive Planned (t : Table) : Request → List Write → Table → Prop where
  | idle (r : Request) : Planned t r [] t
  | revised {r : Request} (row : Row) (h : t.row? row.config.id ≠ none) :
    Planned t r [.row row] (t.setRow row.config.id row)
  | registered {c : OracleConfig} (row : Row) (h : t.row? row.config.id = none) :
    Planned t (.register c) [.row row, .order (t.order ++ [row.config.id])]
      (t.append row.config.id row)
  | removed {id : OracleId} (h : t.row? id ≠ none) :
    Planned t (.remove id) [.order (t.order.filter (· != id)), .drop id] (t.remove id)

variable {t : Table}

theorem ne_none_of_rowOf {id : OracleId} {row : Row} (h : rowOf t id = .ok row) :
    t.row? id ≠ none := by
  rw [row_of_rowOf h]
  exact Option.some_ne_none row

theorem planned (hkeyed : Keyed t) (r : Request) :
    Planned t r (plan t r).writes (plan t r).table := by
  cases r with
  | row _ | rows | ids | holds _ => exact .idle _
  | register c =>
    rw [plan]
    cases check c with
    | error e => exact .idle _
    | ok _ =>
      cases hfree : checkFree t c.id with
      | error e => exact .idle _
      | ok _ =>
        cases checkOwner t c with
        | error e => exact .idle _
        | ok _ =>
          have hnone : t.row? c.id = none := by
            by_contra hsome
            simp [checkFree, Option.isSome_iff_ne_none, hsome] at hfree
          exact .registered ⟨c, .initial⟩ hnone
  | update c =>
    rw [plan]
    cases check c with
    | error e => exact .idle _
    | ok _ =>
      cases hrow : rowOf t c.id with
      | error e => exact .idle _
      | ok current =>
        cases checkOwner t c with
        | error e => exact .idle _
        | ok _ => exact .revised ⟨c, carriedOver current c⟩ (ne_none_of_rowOf hrow)
  | remove id =>
    rw [plan]
    cases hrow : rowOf t id with
    | error e => exact .idle _
    | ok current => exact .removed (ne_none_of_rowOf hrow)
  | revise id f =>
    rw [plan]
    cases hrow : rowOf t id with
    | error e => exact .idle _
    | ok current =>
      show Planned t _ (Plan.change t (if _ then _ else _)).writes
        (Plan.change t (if _ then _ else _)).table
      split
      · exact .idle _
      · -- The row goes on to stand under its own id.
        obtain rfl : current.config.id = id := hkeyed id current (row_of_rowOf hrow)
        exact .revised { current with bookkeeping := f current.bookkeeping }
          (ne_none_of_rowOf hrow)

/-! ## Failures -/

/-- A request is answered with an error. -/
def Request.Failed : (r : Request) → r.Reply → Prop
  | .row _, reply => ∃ e, reply = Except.error e
  | .rows, _ | .ids, _ | .holds _, _ => False
  | .register _, reply => ∃ e, reply = Except.error e
  | .update _, reply => ∃ e, reply = Except.error e
  | .remove _, reply => ∃ e, reply = Except.error e
  | .revise _ _, reply => ∃ e, reply = Except.error e

/-- A plan that fails even when all its writes take effect writes nothing. -/
theorem writes_of_failed {r : Request} (h : r.Failed (plan t r).reply) :
    (plan t r).writes = [] ∧ (plan t r).table = t := by
  have hchange : ∀ {α : Type} (x : Except RegistryError (List Write × α × Table)),
      (∃ e, (Plan.change t x).reply = .error e) →
        (Plan.change t x).writes = [] ∧ (Plan.change t x).table = t := by
    rintro α (e | ⟨writes, a, t'⟩) ⟨e', he⟩
    · exact ⟨rfl, rfl⟩
    · cases he
  cases r with
  | row _ | rows | ids | holds _ => exact ⟨rfl, rfl⟩
  | register _ | update _ | remove _ | revise _ _ => exact hchange _ h

/-- To register an oracle takes two writes. -/
theorem plan_register {c : OracleConfig} (hcheck : check c = .ok ()) (hid : t.row? c.id = none)
    (howner : t.owner? c = none) :
    plan t (.register c) = ⟨[.row ⟨c, .initial⟩, .order (t.order ++ [c.id])], .ok (),
      t.append c.id ⟨c, .initial⟩, fun e => .error (.storage e)⟩ := by
  have hfree : checkFree t c.id = .ok () := by
    simp [checkFree, hid]
  have hmine : checkOwner t c = .ok () := by
    rw [checkOwner, howner]
  rw [plan, hcheck, hfree, hmine]
  rfl

/-- To take out an oracle that is there takes two writes. -/
theorem plan_remove {id : OracleId} (hid : t.row? id ≠ none) :
    plan t (.remove id) = ⟨[.order (t.order.filter (· != id)), .drop id], .ok (), t.remove id,
      fun e => .error (.storage e)⟩ := by
  obtain ⟨row, hrow⟩ := Option.ne_none_iff_exists'.mp hid
  have hfound : rowOf t id = .ok row := by
    rw [rowOf, hrow]
  rw [plan, hfound]
  rfl

/-- An oracle that is not there is not taken out. -/
theorem plan_remove_absent {id : OracleId} (hid : t.row? id = none) :
    plan t (.remove id) = .idle t (.error (.notFound id)) := by
  rw [plan, rowOf, hid]
  rfl

/-! ## Requests that are answered -/

/-- A request may be answered as planned. -/
theorem may_answer (mayFail : Storage.Request → Memory → Prop) (r : Request) (t : Table)
    (m : Memory) :
    Leads (Memory.Flaky mayFail) (answer r t) m (.done ((plan t r).reply, (plan t r).table))
      (Write.applyAll (plan t r).writes m) := by
  rw [answer_eq]
  exact Write.may_perform mayFail _ _ _ m

section

variable {σ : Type} {A : (r : Storage.interface.Request) → σ → Storage.interface.Reply r × σ}
  {contents : σ → Memory}

/-- A request carries out the first writes of its plan. When it carries out all of them it is
answered as planned; else it is refused and leaves the table as it was. -/
theorem run_answer (hA : Write.Sound A contents) (r : Request) (t : Table) (s : σ) :
    let outcome := (answer r t).run A s
    let p := plan t r
    let k := Write.taken A p.writes s
    contents outcome.2 = Write.applyAll (p.writes.take k) (contents s) ∧
      (k = p.writes.length → outcome.1 = (p.reply, p.table)) ∧
      (k < p.writes.length → outcome.1.2 = t) := by
  rw [answer_eq]
  intro outcome p k
  obtain ⟨hcontents, hfinished, hrefused⟩ :=
    hA.run_perform (p.reply, p.table) (fun e => (p.refused e, t)) p.writes s
  refine ⟨hcontents, hfinished, ?_⟩
  intro hcut
  obtain ⟨e, he⟩ := hrefused hcut
  exact congrArg Prod.snd he

end

end PriceOracle.Registry
