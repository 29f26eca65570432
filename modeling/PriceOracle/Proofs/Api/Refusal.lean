import PriceOracle.Api
import PriceOracle.Proofs.Lock.Pool

/-!
# Requests of strangers

What the management interface does with a request that does not show the owner's token. There is
nothing in front of the interface that keeps such requests away. Whatever one asks for, it only
reads; and where it asks for a change, it is refused before anything is read, so that the response
cannot tell two services apart.

* `Service`: a service with all that it holds, what it sent to feeds and what it told of events.
  `Nature.attends` is what each request leaves of it.
* `Surroundings.Request.reads`: requests that leave a service untouched (`untouched_of_reads`).
* `makes_handle`: a stranger's request makes no others.
* `handle_of_changes`: a stranger's request for a change is answered without a look at anything.
-/

namespace PriceOracle

open Attempt (makes_adapt makes_bind makes_lift)
open Program (Leads Makes)
open Surroundings (Action interface)

/-! ## A service as a whole -/

/-- A service with all that it holds, the answers it sent to feeds, and the events it told. -/
structure Service (φ : Type) where
  world : World φ
  locks : LockTable
  stages : Dict OracleId Stage
  sent : List (Destination × Uint256)
  told : List Event

/-- The stages that a request leaves. -/
def Surroundings.Request.stagesAfter : Surroundings.Request → Dict OracleId Stage →
    Dict OracleId Stage
  | .enter id s, stages => stages.set id s
  | .leave id, stages => stages.unset id
  | _, stages => stages

/-- The answers that a request sends to a feed. -/
def Surroundings.Request.sends : Surroundings.Request → List (Destination × Uint256)
  | .feed (.submit d answer) => [(d, answer)]
  | _ => []

/-- The events that a request tells. -/
def Surroundings.Request.tells : Surroundings.Request → List Event
  | .emit e => [e]
  | _ => []

/-- How the surroundings answer a service, and what a request leaves of it. -/
def Nature.attends {φ : Type} (N : Nature φ) : Behaviour interface (Service φ) :=
  fun r s reply s' => N.serves r (s.world, s.locks) reply (s'.world, s'.locks) ∧
    s'.stages = r.stagesAfter s.stages ∧ s'.sent = s.sent ++ r.sends ∧ s'.told = s.told ++ r.tells

/-- Nothing of a service changed; what lies outside may have moved. -/
structure Service.Untouched {φ : Type} (s s' : Service φ) : Prop where
  table : s'.world.table = s.world.table
  storage : s'.world.storage = s.world.storage
  locks : s'.locks = s.locks
  stages : s'.stages = s.stages
  sent : s'.sent = s.sent
  told : s'.told = s.told

theorem Service.Untouched.refl {φ : Type} (s : Service φ) : s.Untouched s :=
  ⟨rfl, rfl, rfl, rfl, rfl, rfl⟩

theorem Service.Untouched.trans {φ : Type} {s s' s'' : Service φ} (h : s.Untouched s')
    (h' : s'.Untouched s'') : s.Untouched s'' :=
  ⟨h'.table.trans h.table, h'.storage.trans h.storage, h'.locks.trans h.locks,
    h'.stages.trans h.stages, h'.sent.trans h.sent, h'.told.trans h.told⟩

/-! ## Reads -/

/-- Requests that read the registry, a stage, the clock or a feed. -/
def Surroundings.Request.reads : Surroundings.Request → Prop
  | .registry (.row _) | .registry .rows | .stage _ | .unixTime | .feed (.latestRound _) => True
  | _ => False

variable {φ : Type} {N : Nature φ} {α : Type}

/-- What the registry tells at once leaves it and its storage as they are. -/
theorem told_unchanged {r : Registry.Request} {w w' : World φ} {reply told : r.Reply}
    (htold : Registry.answer r w.table = .done (told, w.table))
    (h : N.answers (.registry r) w reply w') : w'.table = w.table ∧ w'.storage = w.storage := by
  obtain ⟨hleads, -⟩ := h
  rw [htold] at hleads
  obtain ⟨hdone, hstorage⟩ := Leads.of_done hleads
  exact ⟨(Prod.mk.inj (Program.done.inj hdone)).2, hstorage⟩

/-- A request that reads leaves table, storage and locks as they are. -/
theorem serves_read {r : Surroundings.Request} (hreads : r.reads) {w w' : World φ}
    {t t' : LockTable} {reply : r.Reply} (h : N.serves r (w, t) reply (w', t')) :
    w'.table = w.table ∧ w'.storage = w.storage ∧ t' = t := by
  cases r with
  | registry q =>
    cases q with
    | row _ | rows =>
      obtain ⟨hanswer, hlocks⟩ := h
      obtain ⟨htable, hstorage⟩ := told_unchanged rfl hanswer
      exact ⟨htable, hstorage, hlocks⟩
    | _ => exact hreads.elim
  | feed q =>
    obtain ⟨⟨-, htable, hstorage⟩, hlocks⟩ := h
    exact ⟨htable, hstorage, hlocks⟩
  | stage _ | unixTime =>
    obtain ⟨hanswer, hlocks⟩ := h
    have hworld : w' = w := hanswer
    exact ⟨congrArg World.table hworld, congrArg World.storage hworld, hlocks⟩
  | _ => exact hreads.elim

/-- A read sets no stage, sends nothing and tells nothing. -/
theorem effects_of_reads {r : Surroundings.Request} (h : r.reads) :
    (∀ stages, r.stagesAfter stages = stages) ∧ r.sends = [] ∧ r.tells = [] := by
  cases r with
  | registry _ | stage _ | unixTime => exact ⟨fun _ => rfl, rfl, rfl⟩
  | feed q =>
    cases q with
    | latestRound _ => exact ⟨fun _ => rfl, rfl, rfl⟩
    | _ => exact h.elim
  | _ => exact h.elim

/-- Nor does it send or tell anything, so that a service is left untouched. -/
theorem untouched_of_reads {r : Surroundings.Request} (hreads : r.reads) {s s' : Service φ}
    {reply : r.Reply} (h : N.attends r s reply s') : s.Untouched s' := by
  obtain ⟨hserves, hstages, hsent, htold⟩ := h
  obtain ⟨htable, hstorage, hlocks⟩ := serves_read hreads hserves
  obtain ⟨hsame, hsends, htells⟩ := effects_of_reads hreads
  rw [hsame] at hstages
  rw [hsends, List.append_nil] at hsent
  rw [htells, List.append_nil] at htold
  exact ⟨htable, hstorage, hlocks, hstages, hsent, htold⟩

/-- A program of reads leaves a service untouched at every point. -/
theorem untouched_of_makes {p q : Action α} (h : p.Makes Surroundings.Request.reads)
    {s s' : Service φ} (hleads : Leads N.attends p s q s') : s.Untouched s' := by
  induction hleads with
  | here p s => exact .refl s
  | ask hanswer _ ih => exact (untouched_of_reads h.1 hanswer).trans (ih (h.2 _))

/-! ## Strangers -/

namespace Api

open Management (Caller)

/-- A request shows a token: the first header that speaks of authorization reads as the scheme and
a text that, without the blanks around it, has the digest of the token. -/
def Request.Shows (r : Request) (token : String) : Prop :=
  ∃ value rest, r.header? "authorization" = some value ∧
    value.toList = Request.scheme ++ rest ∧
    Keccak.digestText (String.ofList (Text.trim rest)) = Keccak.digestText token

/-- A request asks for a change: of the registry, or of an oracle of it. -/
def Request.Changes (r : Request) : Prop :=
  match Route.ofPath? (Route.pathOf r.uri), r.method with
  | some .oracles, .post | some (.oracle _), .put | some (.oracle _), .delete
  | some (.resync _), .post => True
  | _, _ => False

/-- Whoever does not show the owner's token is not admitted. -/
theorem not_admitted {r : Request} {token : String} (h : ¬r.Shows token) :
    (Authorization.ofToken token).admits r.token? = false := by
  cases hshown : r.token? with
  | none => rfl
  | some shown =>
    refine Bool.eq_false_iff.mpr fun hadmits => h ?_
    obtain ⟨value, hvalue, hread⟩ := Option.bind_eq_some_iff.mp hshown
    dsimp only at hread
    split at hread
    next hscheme =>
      obtain ⟨rest, hrest⟩ := List.isPrefixOf_iff_prefix.mp hscheme
      refine ⟨value, rest, hvalue, hrest.symm, ?_⟩
      rw [← hrest, List.drop_left] at hread
      obtain rfl := Option.some.inj hread
      exact eq_of_beq hadmits
    · cases hread

variable {auth : Authorization} {r : Request}

/-! ### Reads -/

/-- Only reads are asked for. -/
abbrev OnlyReads (p : Action α) : Prop := p.Makes Surroundings.Request.reads

theorem makes_views (rows : List Row) : OnlyReads (Management.views rows) := by
  induction rows with
  | nil => trivial
  | cons row rest ih =>
    have hview : OnlyReads (Management.view row row.config.id) := ⟨trivial, fun _ => trivial⟩
    exact hview.bind fun _ => ih.bind fun _ => trivial

theorem makes_list : OnlyReads Management.list := ⟨trivial, makes_views⟩

/-- Looking a row up is a read. -/
theorem makes_row (id : OracleId) :
    OnlyReads (Management.registry (Surroundings.row id)).run := by
  have hrow : OnlyReads (Surroundings.row id).run := ⟨trivial, fun _ => trivial⟩
  exact makes_adapt _ hrow

theorem makes_get (id : OracleId) : OnlyReads (Management.get id).run := by
  refine makes_bind (makes_row id) fun row => ?_
  have hview : OnlyReads (Management.view row id) := ⟨trivial, fun _ => trivial⟩
  exact makes_lift hview

/-- The latest round of a feed is all that is asked of it for a record. -/
theorem makes_latestRecord (d : Destination) :
    (Publication.latestRecord d).run.Makes fun q => q = Feed.Request.latestRound d := by
  refine ⟨rfl, fun reply => ?_⟩
  cases reply with
  | error e => trivial
  | ok latest =>
    show Makes _ (ExceptT.run (if _ then _ else _))
    split
    · trivial
    · cases Publication.toRecord d latest <;> trivial

theorem makes_latestRound (id : OracleId) : OnlyReads (Management.latestRound id).run := by
  refine makes_bind (makes_row id) fun row => makes_adapt _ ?_
  have hask : ∀ q, q = Feed.Request.latestRound row.config.destination →
      OnlyReads (Surroundings.ask (.feed q)) := by
    rintro q rfl
    exact ⟨trivial, fun _ => trivial⟩
  exact Makes.through (makes_latestRecord row.config.destination) hask

/-- Counting the oracles is a read. -/
theorem makes_health : OnlyReads health := by
  refine makes_list.bind fun views => ?_
  exact ⟨trivial, fun _ => trivial⟩

/-- An answer is written without any request. -/
theorem makes_call {write : α → Response} {c : Management.Call α} (h : OnlyReads c.run) :
    OnlyReads (call write c) := h.bind fun _ => trivial

/-- A segment is decoded without any request. -/
theorem makes_withOracle {segment : String} {next : OracleId → Action Response}
    (h : ∀ id, OnlyReads (next id)) : OnlyReads (withOracle segment next) := by
  unfold withOracle
  split
  · exact h _
  · trivial

/-! ### Refusals -/

/-- The response to a stranger who asks for a change. -/
def refusal : Response := .error 401 ServiceError.unauthorized.message

/-- What has failed goes no further. -/
theorem bind_failed {β : Type} {c : Management.Call α} {e : ServiceError}
    (h : c.run = .done (.error e)) (rest : α → Management.Call β) :
    (c >>= rest).run = .done (.error e) := by
  rw [Attempt.run_bind, h]
  rfl

/-- Where a caller is not admitted, a call is over before its first request. -/
theorem authorize_failed {caller : Caller} (h : auth.admits caller = false) :
    (Management.authorize auth caller).run = .done (.error .unauthorized) := by
  rw [Management.authorize, h]
  rfl

/-- Such a call is answered by the refusal, whatever it was to write. -/
theorem call_refused {write : α → Response} {c : Management.Call α}
    (h : c.run = .done (.error .unauthorized)) : call write c = .done refusal := by
  rw [call, h]
  rfl

/-- The response that follows from the body alone where its configuration is not asked for. -/
theorem withConfig_done {next : OracleConfig → Action Response}
    (h : ∀ c, ∃ resp, 400 ≤ resp.status ∧ next c = .done resp) :
    ∃ resp, 400 ≤ resp.status ∧ withConfig r next = .done resp := by
  unfold withConfig
  split
  · exact ⟨.bare 415, by decide, rfl⟩
  · split
    · exact ⟨.bare 413, by decide, rfl⟩
    · dsimp only
      split
      · exact h _
      · exact ⟨.bare 422, by decide, rfl⟩
      · exact ⟨.bare 400, by decide, rfl⟩

/-- A segment that names no id is answered like a call that is refused, without a look at anything.
-/
theorem withOracle_done {segment : String} {next : OracleId → Action Response}
    (h : ∀ id, ∃ resp, 400 ≤ resp.status ∧ next id = .done resp) :
    ∃ resp, 400 ≤ resp.status ∧ withOracle segment next = .done resp := by
  unfold withOracle
  split
  · exact h _
  · exact ⟨.bare 400, by decide, rfl⟩

/-- A stranger registers nothing, whatever stands in the body. -/
theorem register_refused (h : auth.admits r.token? = false) :
    ∃ resp, 400 ≤ resp.status ∧ register auth r = .done resp :=
  withConfig_done fun _ => ⟨refusal, by decide,
    call_refused (bind_failed (bind_failed (authorize_failed h) _) _)⟩

/-- A stranger replaces nothing. -/
theorem update_refused (h : auth.admits r.token? = false) (id : OracleId) :
    ∃ resp, 400 ≤ resp.status ∧ update auth r id = .done resp := by
  refine withConfig_done fun c => ?_
  -- The id in the body is compared before the caller is checked.
  by_cases hid : c.id ≠ id
  · rw [if_pos hid]
    exact ⟨_, UInt16.le_refl 400, rfl⟩
  · rw [if_neg hid]
    exact ⟨refusal, by decide,
      call_refused (bind_failed (bind_failed (authorize_failed h) _) _)⟩

/-- A stranger takes nothing out. -/
theorem remove_refused (h : auth.admits r.token? = false) (id : OracleId) :
    ∃ resp, 400 ≤ resp.status ∧ remove auth r id = .done resp :=
  ⟨refusal, by decide, call_refused (bind_failed (authorize_failed h) _)⟩

/-- A stranger aligns nothing. -/
theorem resync_refused (h : auth.admits r.token? = false) (id : OracleId) :
    ∃ resp, 400 ≤ resp.status ∧ resync auth r id = .done resp :=
  ⟨refusal, by decide, call_refused (bind_failed (authorize_failed h) _)⟩

/-- A stranger who asks for a change is answered at once. -/
theorem handle_of_changes (h : auth.admits r.token? = false) (hchanges : r.Changes) :
    ∃ resp, 400 ≤ resp.status ∧ handle auth r = .done resp := by
  unfold Request.Changes at hchanges
  unfold handle
  split at hchanges
  next hroute hmethod =>
    rw [hroute, hmethod]
    exact register_refused h
  next segment hroute hmethod =>
    rw [hroute, hmethod]
    exact withOracle_done (update_refused h)
  next segment hroute hmethod =>
    rw [hroute, hmethod]
    exact withOracle_done (remove_refused h)
  next segment hroute hmethod =>
    rw [hroute, hmethod]
    exact withOracle_done (resync_refused h)
  · exact hchanges.elim

/-! ### Whole requests -/

/-- What is done asks for nothing. -/
theorem makes_of_done {p : Action Response} (h : ∃ resp, 400 ≤ resp.status ∧ p = .done resp) :
    OnlyReads p := by
  obtain ⟨resp, -, rfl⟩ := h
  trivial

/-- Wherever a stranger asks, what is asked for only reads. -/
theorem makes_handleAt (h : auth.admits r.token? = false) (route : Route) (method : Method) :
    OnlyReads (handleAt auth r route method) := by
  unfold handleAt
  split
  · exact makes_health
  · exact makes_list.bind fun _ => trivial
  · exact makes_of_done (register_refused h)
  · exact makes_withOracle fun id => makes_call (makes_get id)
  · exact makes_of_done (withOracle_done (update_refused h))
  · exact makes_of_done (withOracle_done (remove_refused h))
  · exact makes_of_done (withOracle_done (resync_refused h))
  · exact makes_withOracle fun id => makes_call (makes_latestRound id)
  · trivial

/-- A stranger's request, whatever it is, makes the service do nothing but read. -/
theorem makes_handle (h : auth.admits r.token? = false) : OnlyReads (handle auth r) := by
  unfold handle
  split
  · trivial
  next route _ =>
    split
    · exact (makes_handleAt h route .get).bind fun _ => trivial
    · exact makes_handleAt h route _

/-- A request without the owner's token leaves every service untouched, however far it comes: its
registry with the bookkeeping, its storage, its locks and stages, what it sent to feeds and what it
told of events. If it asks for a change, it has one response, which is an error, from all services
and in all their states. -/
theorem strangers_change_and_learn_nothing {token : String} {r : Request} (h : ¬r.Shows token) :
    (∀ {φ : Type} (N : Nature φ) (s s' : Service φ) (q : Action Response),
      Leads N.attends (handle (.ofToken token) r) s q s' → s.Untouched s') ∧
    (r.Changes → ∃ resp : Response, 400 ≤ resp.status ∧
      ∀ {φ : Type} (N : Nature φ) (s s' : Service φ) (q : Action Response),
        Leads N.attends (handle (.ofToken token) r) s q s' → q = .done resp ∧ s' = s) := by
  have hrefused := not_admitted h
  refine ⟨fun N s s' q hleads => untouched_of_makes (makes_handle hrefused) hleads, ?_⟩
  intro hchanges
  obtain ⟨resp, herror, hdone⟩ := handle_of_changes hrefused hchanges
  refine ⟨resp, herror, ?_⟩
  intro φ N s s' q hleads
  rw [hdone] at hleads
  cases hleads
  exact ⟨rfl, rfl⟩

/-- A request to take an oracle out whose scheme is in small letters. -/
def smallLetters : Request :=
  ⟨.delete, "/oracles/eth-usd", [("Authorization", "bearer owner")], ""⟩

theorem not_shows_smallLetters : ¬smallLetters.Shows "owner" := by
  rintro ⟨value, rest, hvalue, htext, -⟩
  have hheader : smallLetters.header? "authorization" = some "bearer owner" := by decide +kernel
  obtain rfl := Option.some.inj (hheader.symm.trans hvalue)
  have hfirst : "bearer owner".toList.head? = some 'B' := by rw [htext]; rfl
  exact absurd hfirst (by decide)

/-- The oracle stays, and the response does not tell whether it is there. -/
theorem small_letters_change_nothing :
    ¬smallLetters.Shows "owner" ∧ smallLetters.Changes ∧
    (∀ {φ : Type} (N : Nature φ) (s s' : Service φ) (q : Action Response),
      Leads N.attends (handle (.ofToken "owner") smallLetters) s q s' → s.Untouched s') ∧
    ∃ resp : Response, 400 ≤ resp.status ∧
      ∀ {φ : Type} (N : Nature φ) (s s' : Service φ) (q : Action Response),
        Leads N.attends (handle (.ofToken "owner") smallLetters) s q s' →
          q = .done resp ∧ s' = s := by
  have hchanges : smallLetters.Changes := by
    have hroute : Route.ofPath? (Route.pathOf smallLetters.uri) = some (.oracle "eth-usd") := by
      decide
    rw [Request.Changes, hroute]
    trivial
  obtain ⟨huntouched, hrefused⟩ := strangers_change_and_learn_nothing not_shows_smallLetters
  exact ⟨not_shows_smallLetters, hchanges, huntouched, hrefused hchanges⟩

end Api

end PriceOracle
