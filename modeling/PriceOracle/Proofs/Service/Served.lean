import PriceOracle.Proofs.Registry.Company
import PriceOracle.Proofs.Registry.Seeding
import PriceOracle.Proofs.Service.Readback

/-!
# Calls while storage does not fail

What a management call comes to when storage does not fail and no other call gets in between. That
a call succeeds can be said of no other surroundings: where storage may fail, any call may.

* `served`: how a service is then served. `Registered` is an oracle with its row in a registry that
  some history led to.
* `keeps_get`, `keeps_update`, `keeps_remove`, `keeps_resync`, `keeps_register`: one lemma for each
  call, with what the call says and what it leaves.
* `About`: requests that concern one oracle. Whatever the replies are, the calls about an oracle
  make no others.
-/

namespace PriceOracle.Management

open Program (Answered Ensures Keeps Leads Makes)
open Registry (Arises Kept Spared carriedOver check storedRow?)
open Storage (Memory)
open Surroundings (Action)

/-! ## Surroundings that do not fail -/

/-- How a service is served whose storage does not fail: the registry makes all writes, feeds tell
their latest rounds, and all else goes in any way. -/
def served (feeds : Destination → Except PublishError FeedRound) :
    Behaviour Surroundings.interface (Table × Memory)
  | .feed (.latestRound d), s, reply, s' => reply = feeds d ∧ s' = s
  | r, s, reply, s' => Registry.wellServed r s reply s'

/-- An oracle with its row, in a registry that some history led to. -/
structure Registered (id : OracleId) (row : Row) (s : Table × Memory) : Prop where
  arises : Arises s
  row : s.1.row? id = some row

/-- No other oracle is affected, neither in the table nor in storage. -/
def SparesOthers (id : OracleId) (s s' : Table × Memory) : Prop :=
  ∀ other, other ≠ id → Spared other s.1 s.2 s'.1 s'.2

variable {feeds : Destination → Except PublishError FeedRound} {s s' : Table × Memory}
  {auth : Authorization} {caller : Caller} {c : OracleConfig} {row : Row} {id : OracleId} {α : Type}

/-- Any request. -/
abbrev anyOf : Surroundings.Request → Table × Memory → Prop := fun _ _ => True

/-- Every request is answered, so that calls come to their ends. -/
theorem served_answered (feeds : Destination → Except PublishError FeedRound) :
    Answered (served feeds) := by
  intro r s
  by_cases hquiet : r.quiet
  · obtain ⟨reply⟩ := Nature.reply_of_quiet hquiet
    refine ⟨reply, s, ?_⟩
    cases r with
    | registry _ | feed _ => exact hquiet.elim
    | _ => exact rfl
  · cases r with
    | registry r => exact ⟨_, (_, _), rfl⟩
    | feed r =>
      cases r with
      | latestRound d => exact ⟨feeds d, s, rfl, rfl⟩
      | receipt _ _ | isKnown _ _ | confirmation _ _ _ | roundData _ _ | submit _ _ =>
        exact ⟨.error (.network ""), s, rfl⟩
    | _ => exact absurd trivial hquiet

/-- As every request is answered, what holds at every end is ensured. -/
theorem ensures_of_keeps {p : Action α} {post : α → Table × Memory → Prop}
    (h : Keeps (served feeds) anyOf post p s) : Ensures (served feeds) post p s :=
  h.ensures (served_answered feeds)

/-- Requests to the registry are served as by any registry whose storage does not fail. -/
theorem serves_of_served {q : Registry.Request} {reply : q.Reply}
    (h : served feeds (.registry q) s reply s') : Registry.serves (.registry q) s reply s' :=
  ⟨[], h⟩

/-- The registry answers as planned. -/
theorem planned_of_served {q : Registry.Request} {reply : q.Reply}
    (h : served feeds (.registry q) s reply s') :
    reply = (Registry.plan s.1 q).reply ∧ s'.1 = (Registry.plan s.1 q).table := by
  have hserve : Registry.serve q [] s.1 s.2 = ⟨reply, s'.1, s'.2⟩ := h
  obtain ⟨hreply, htable⟩ := Registry.serve_well q s.1 s.2
  rw [hserve] at hreply htable
  exact ⟨hreply, htable⟩

/-- A change of one oracle spares the others. -/
theorem spares_of_served {q : Registry.Request} {reply : q.Reply} (harises : Arises s)
    (htarget : q.target? = some id) (h : served feeds (.registry q) s reply s')
    (hok : ¬q.Failed reply) : SparesOthers id s s' := by
  intro other hother
  obtain ⟨_, hlog⟩ := harises
  have hkeyed := hlog.regular.1.keyed
  have htarget : q.target? ≠ some other := by
    rw [htarget]
    exact fun hsame => hother (Option.some.inj hsame).symm
  exact (Registry.keeps_other hkeyed htarget).leads
    (Registry.leads_of_served (serves_of_served h) hok)

/-- Quiet requests leave registry and storage alone. -/
theorem served_quiet {q : Surroundings.Request} {reply : q.Reply} (hquiet : q.quiet)
    (h : served feeds q s reply s') : s' = s := by
  cases q with
  | registry _ | feed _ => exact hquiet.elim
  | _ => exact h

/-- A quiet request in front of the rest of a program. -/
theorem keeps_served {q : Surroundings.Request} {f : q.Reply → Action α}
    {post : α → Table × Memory → Prop} (hquiet : q.quiet)
    (h : ∀ reply, Keeps (served feeds) anyOf post (f reply) s) :
    Keeps (served feeds) anyOf post ((Surroundings.ask q).bind f) s := by
  refine ⟨trivial, fun reply s' hreply => ?_⟩
  rw [served_quiet hquiet hreply]
  exact h reply

/-! ## Calls -/

/-- A caller who is admitted has the call made. -/
theorem run_authorized {call : Call α} (h : auth.admits caller = true) :
    (authorize auth caller >>= fun _ => call).run = call.run := by
  rw [authorize, h]
  rfl

/-- The lock makes no difference where no other call gets in between. -/
theorem keeps_locked {call : Call α}
    {post : Except ServiceError α → Table × Memory → Prop}
    (h : Keeps (served feeds) anyOf post call.run s) :
    Keeps (served feeds) anyOf post (locked id call).run s := by
  refine keeps_served (q := .slot id) trivial fun slot => ?_
  refine keeps_served (q := .take slot) trivial fun _ => ?_
  refine Program.keeps_bind.mpr (h.mono fun outcome s' houtcome => ?_)
  exact keeps_served (q := .release slot) trivial fun _ => houtcome

theorem keeps_row (hrow : s.1.row? id = some row) :
    Keeps (served feeds) anyOf (fun e s' => e = .ok row ∧ s' = s)
      (registry (Surroundings.row id)).run s := by
  refine Attempt.keeps_adapt.mpr ⟨trivial, fun told s' htold => ?_⟩
  obtain ⟨rfl, rfl⟩ := Registry.told_row (serves_of_served htold)
  rw [Registry.rowOf, hrow]
  exact ⟨rfl, rfl⟩

/-- An oracle is told as its row has it. -/
theorem keeps_get (hrow : s.1.row? id = some row) :
    Keeps (served feeds) anyOf
      (fun e s' => (∃ stage, e = .ok ⟨row.config, row.bookkeeping, stage⟩) ∧ s' = s)
      (get id).run s := by
  refine Attempt.keeps_bind.mpr ((keeps_row hrow).mono ?_)
  rintro _ _ ⟨rfl, rfl⟩
  refine Attempt.keeps_lift.mpr ?_
  exact keeps_served (q := .stage id) trivial fun stage => ⟨⟨stage, rfl⟩, rfl⟩

/-- An oracle has a new configuration. -/
structure Updated (c : OracleConfig) (row : Row) (s s' : Table × Memory) : Prop where
  table : s'.1 = s.1.setRow c.id ⟨c, carriedOver row c⟩
  kept : Kept c.id ⟨c, carriedOver row c⟩ s'.1 s'.2
  others : SparesOthers c.id s s'

/-- A sound configuration whose feed no other oracle has replaces the former one. -/
theorem keeps_update (hadmits : auth.admits caller = true) (h : Registered c.id row s)
    (hcheck : check c = .ok ()) (howner : s.1.owner? c = none) :
    Keeps (served feeds) anyOf (fun e s' => e = .ok () ∧ Updated c row s s')
      (update auth caller c).run s := by
  rw [update, run_authorized hadmits]
  refine keeps_locked (Attempt.keeps_bind.mpr (Attempt.keeps_adapt.mpr ⟨trivial, ?_⟩))
  intro reply s' hreply
  have hplan : Registry.plan s.1 (.update c) = ⟨[.row ⟨c, carriedOver row c⟩], .ok (),
      s.1.setRow c.id ⟨c, carriedOver row c⟩, fun e => .error (.storage e)⟩ := by
    rw [Registry.plan, hcheck, Registry.rowOf, h.row, Registry.checkOwner, howner]
    rfl
  obtain ⟨hok, htable⟩ := planned_of_served hreply
  rw [hplan] at hok htable
  obtain rfl : reply = .ok () := hok
  obtain ⟨current, hcurrent, hkept⟩ := Registry.serves_update h.arises (serves_of_served hreply)
  obtain rfl := Option.some.inj (h.row.symm.trans hcurrent)
  have hothers : SparesOthers c.id s s' :=
    spares_of_served h.arises rfl hreply (Registry.ok_of_answer ())
  exact Attempt.keeps_lift.mpr
    (keeps_served (q := .emit _) trivial fun _ => ⟨rfl, htable, hkept, hothers⟩)

/-- An oracle is taken out. -/
structure Removed (id : OracleId) (s s' : Table × Memory) : Prop where
  table : s'.1 = s.1.remove id
  storage : storedRow? id s'.2 = none
  others : SparesOthers id s s'

/-- An oracle that is registered can be taken out. -/
theorem keeps_remove (hadmits : auth.admits caller = true) (h : Registered id row s) :
    Keeps (served feeds) anyOf (fun e s' => e = .ok () ∧ Removed id s s')
      (remove auth caller id).run s := by
  rw [remove, run_authorized hadmits]
  refine Attempt.keeps_bind.mpr (keeps_locked (Attempt.keeps_adapt.mpr ⟨trivial, ?_⟩))
  intro reply s' hreply
  have hthere : s.1.row? id ≠ none := by
    rw [h.row]
    exact Option.some_ne_none row
  obtain ⟨hok, htable⟩ := planned_of_served hreply
  rw [Registry.plan_remove hthere] at hok htable
  obtain rfl : reply = .ok () := hok
  obtain ⟨-, hstorage, -⟩ := Registry.serves_remove (serves_of_served hreply)
  have hothers : SparesOthers id s s' :=
    spares_of_served h.arises rfl hreply (Registry.ok_of_answer ())
  refine Attempt.keeps_lift_bind.mpr (keeps_served (q := .forget id) trivial fun _ => ?_)
  refine Attempt.keeps_lift_bind.mpr (keeps_served (q := .leave id) trivial fun _ => ?_)
  exact Attempt.keeps_lift.mpr
    (keeps_served (q := .emit _) trivial fun _ => ⟨rfl, htable, hstorage, hothers⟩)

/-- The bookkeeping that an oracle of a feed is aligned to. -/
def alignment (feeds : Destination → Except PublishError FeedRound) (d : Destination) :
    Except PublishError Bookkeeping :=
  (feeds d).bind fun latest => (valueOf d latest).map (aligned latest)

/-- What comes of aligning an oracle with its feed. Where its latest round cannot be read, nothing
changes. -/
inductive Realigned (id : OracleId) (row : Row) (s : Table × Memory) :
    Except PublishError Bookkeeping → Table × Memory → Prop where
  | aligned {b b' : Bookkeeping} {s' : Table × Memory} (hsame : b.Same b')
    (hkept : Kept id ⟨row.config, b'⟩ s'.1 s'.2) (hothers : SparesOthers id s s') :
    Realigned id row s (.ok b) s'
  | failed (e : PublishError) : Realigned id row s (.error e) s

/-- Bookkeeping is told as it was changed to, whether or not it is written. -/
theorem reply_of_revise {t : Table} (hrow : t.row? id = some row)
    (change : Bookkeeping → Bookkeeping) :
    (Registry.plan t (.revise id change)).reply = .ok (change row.bookkeeping) := by
  rw [Registry.plan, Registry.rowOf, hrow]
  show (Registry.Plan.change t (if _ then _ else _)).reply = _
  split <;> rfl

/-- A resync aligns the bookkeeping with the feed, or tells why the feed has nothing to align with.
-/
theorem keeps_resync (hadmits : auth.admits caller = true) (h : Registered id row s) :
    Keeps (served feeds) anyOf
      (fun e s' => e = (alignment feeds row.config.destination).mapError .publish ∧
        Realigned id row s (alignment feeds row.config.destination) s')
      (resync auth caller id).run s := by
  rw [resync, run_authorized hadmits]
  refine keeps_locked (Attempt.keeps_bind.mpr ((keeps_row h.row).mono ?_))
  rintro _ _ ⟨rfl, rfl⟩
  refine Attempt.keeps_bind.mpr (Attempt.keeps_adapt.mpr ⟨trivial, ?_⟩)
  rintro told s' ⟨rfl, rfl⟩
  rw [alignment]
  cases feeds row.config.destination with
  | error e => exact ⟨rfl, .failed e⟩
  | ok latest =>
    refine Attempt.keeps_bind.mpr (Attempt.keeps_adapt.mpr (Attempt.keeps_ofExcept.mpr ?_))
    rw [Except.bind]
    cases valueOf row.config.destination latest with
    | error e => exact ⟨rfl, .failed e⟩
    | ok value =>
      refine Attempt.keeps_bind.mpr (Attempt.keeps_adapt.mpr ⟨trivial, ?_⟩)
      intro reply s' hreply
      obtain rfl : reply = .ok (aligned latest value) :=
        (planned_of_served hreply).1.trans (reply_of_revise h.row _)
      obtain ⟨current, b', hcurrent, -, hkept, hb'⟩ :=
        Registry.serves_revise h.arises (serves_of_served hreply)
      obtain rfl := Option.some.inj (h.row.symm.trans hcurrent)
      have hothers : SparesOthers id _ s' :=
        spares_of_served h.arises rfl hreply (Registry.ok_of_answer _)
      refine Attempt.keeps_lift_bind.mpr (keeps_served (q := .emit _) trivial fun _ => ?_)
      exact ⟨rfl, .aligned (aligned_same hb') hkept hothers⟩

/-- A configuration that the registry takes as that of a new oracle, of a caller who may say so. -/
structure Admissible (auth : Authorization) (caller : Caller) (c : OracleConfig)
    (t : Table) : Prop where
  admits : auth.admits caller = true
  sound : check c = .ok ()
  free : t.row? c.id = none
  unowned : t.owner? c = none

/-- An oracle is added at the end. -/
structure Added (c : OracleConfig) (s s' : Table × Memory) : Prop where
  table : s'.1 = s.1.append c.id ⟨c, .initial⟩
  registered : Registered c.id ⟨c, .initial⟩ s'
  others : SparesOthers c.id s s'

/-- What was registered was admissible. -/
theorem admissible_of_effect {t t' : Table} {reply : Except RegistryError Unit}
    (hadmits : auth.admits caller = true) (h : Registry.Effect t (.register c) reply t')
    (hok : reply = .ok ()) : Admissible auth caller c t := by
  cases h with
  | told hread => cases hread
  | refused hfailed =>
    obtain ⟨e, rfl⟩ := hfailed
    cases hok
  | registered hcheck hfree howner => exact ⟨hadmits, hcheck, hfree, howner⟩

/-- An oracle is registered exactly where it is admissible. -/
theorem keeps_register (harises : Arises s) :
    Keeps (served feeds) anyOf
      (Attempt.Ends
        (fun id s' => id = c.id ∧ Admissible auth caller c s.1 ∧ Added c s s')
        fun _ _ => ¬Admissible auth caller c s.1)
      (register auth caller c).run s := by
  cases hadmits : auth.admits caller with
  | false =>
    refine Attempt.keeps_bind.mpr ?_
    rw [authorize, hadmits]
    intro h
    cases h.admits.symm.trans hadmits
  | true =>
    rw [register, run_authorized hadmits]
    refine Attempt.keeps_bind.mpr (Attempt.keeps_adapt.mpr ⟨trivial, fun reply s' hreply => ?_⟩)
    have hserves := serves_of_served hreply
    cases reply with
    | error e =>
      intro h
      have hplanned := (planned_of_served hreply).1
      rw [Registry.plan_register h.sound h.free h.unowned] at hplanned
      cases hplanned
    | ok _ =>
      have heffect := Registry.effect_serves hserves
      have hadded : Added c s s' :=
        ⟨Registry.Effect.table_register heffect rfl,
          ⟨harises.served hserves, (Registry.serves_register hserves).1.inTable⟩,
          spares_of_served harises rfl hreply (Registry.ok_of_answer ())⟩
      refine Attempt.keeps_lift_bind.mpr (keeps_served (q := .emit _) trivial fun _ => ?_)
      exact ⟨rfl, admissible_of_effect hadmits heffect rfl, hadded⟩

/-! ## One oracle -/

/-- What concerns one oracle: its row, its stage, its lock, and what is told of it. Of feeds only
the latest round is read. -/
def About (id : OracleId) : Surroundings.Request → Prop
  | .registry q => q = .row id ∨ q.target? = some id
  | .feed q => ∃ d, q = .latestRound d
  | .emit e => e.oracleId = id
  | .stage i | .leave i | .slot i | .forget i => i = id
  | .take _ | .release _ => True
  | _ => False

theorem about_row : (registry (Surroundings.row id)).run.Makes (About id) :=
  Attempt.makes_adapt _ ⟨.inl rfl, fun _ => trivial⟩

theorem about_get : (get id).run.Makes (About id) :=
  Attempt.makes_bind about_row fun _ => Attempt.makes_lift ⟨rfl, fun _ => trivial⟩

/-- The lock of an oracle is about it. -/
theorem about_locked {call : Call α} (h : call.run.Makes (About id)) :
    (locked id call).run.Makes (About id) :=
  ⟨rfl, fun _ => ⟨trivial, fun _ => h.bind fun _ => ⟨trivial, fun _ => trivial⟩⟩⟩

theorem about_authorized {call : Call α} (h : call.run.Makes (About id)) :
    (authorize auth caller >>= fun _ => call).run.Makes (About id) :=
  Attempt.makes_bind trivial fun _ => h

/-- An update is about the oracle of its configuration. -/
theorem about_update (hid : c.id = id) :
    (update auth caller c).run.Makes (About id) := by
  subst hid
  refine about_authorized (about_locked (Attempt.makes_bind ?_ fun _ => ?_))
  · exact Attempt.makes_adapt _ ⟨.inr rfl, fun _ => trivial⟩
  · exact Attempt.makes_lift ⟨rfl, fun _ => trivial⟩

/-- A removal is about the oracle that it takes out. -/
theorem about_remove : (remove auth caller id).run.Makes (About id) := by
  refine about_authorized (Attempt.makes_bind (about_locked ?_) fun _ => ?_)
  · exact Attempt.makes_adapt _ ⟨.inr rfl, fun _ => trivial⟩
  · exact ⟨rfl, fun _ => ⟨rfl, fun _ => ⟨rfl, fun _ => trivial⟩⟩⟩

/-- A resync is about its oracle, the feed of which it asks. -/
theorem about_resync : (resync auth caller id).run.Makes (About id) := by
  refine about_authorized (about_locked (Attempt.makes_bind about_row fun row => ?_))
  refine Attempt.makes_bind (Attempt.makes_adapt _ ⟨⟨_, rfl⟩, fun _ => trivial⟩) fun latest => ?_
  refine Attempt.makes_bind (Attempt.makes_adapt _ trivial) fun value => ?_
  refine Attempt.makes_bind (Attempt.makes_adapt _ ⟨.inr rfl, fun _ => trivial⟩) fun b => ?_
  exact ⟨rfl, fun _ => trivial⟩

end PriceOracle.Management
