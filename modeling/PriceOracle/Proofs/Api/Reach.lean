import PriceOracle.Api
import PriceOracle.Proofs.Api.Segments
import PriceOracle.Proofs.Service.Served

/-!
# Oracles that can be reached

An id may be any text, and all that an operator does to an oracle is done at a place that has its id
as one segment. So it has to be shown that an oracle which the registry took can be reached again,
by every client, whatever it escapes: otherwise it would publish on, and nobody could stop it.

The requests at a place are followed from the bytes of the path to what is left of the registry.
They go to the one oracle that the segment names, and concern no other.

* `Request.Asks`, `Request.Carries`: what a request is for, and the configuration in its body.
* `Managed`: all that operators do at the places of a segment comes to its end, and is done to one
  oracle.
* `registered_reachable_iff`: whatever the id of an oracle is, it is managed at every segment that
  may be written for it, unless it is empty. No place has an empty segment, and the registry takes
  an oracle without an id all the same (`nameless_unreachable`).
-/

namespace PriceOracle

open Management (About Added Admissible Realigned Registered Removed Updated alignment anyOf
  ensures_of_keeps served)
open Program (Ensures Keeps Leads Makes)
open Registry (Arises carriedOver check)
open Storage (Memory)
open Surroundings (Action)

namespace Api

/-! ## Requests -/

/-- A request for a place, which may come with a scheme and a host before the path and with a query
behind it. -/
structure Request.Asks (r : Request) (method : Method) (route : Route) : Prop where
  how : r.method = method
  path : Route.pathOf r.uri = route.path.toList

/-- The body of a request is declared and read as a configuration. -/
structure Request.Carries (r : Request) (c : OracleConfig) : Prop where
  declared : r.declaresJson = true
  size : r.body.bytes.size ≤ Body.limit
  read : OracleConfig.decode (Json.read r.body.chars).document = .ok c
  complete : (Json.read r.body.chars).complete = true

variable {auth : Authorization} {caller : Management.Caller} {r : Request} {c : OracleConfig}
  {method : Method} {route : Route} {segment : String} {id : OracleId} {α : Type}

/-- A request for a place is handled there. -/
theorem handle_of_asks (h : r.Asks method route)
    (hplace : Route.ofPath? route.path.toList = some route) (hmethod : method ≠ .head) :
    handle auth r = handleAt auth r route method := by
  rw [handle, h.path, hplace]
  dsimp only
  rw [h.how]
  cases method with
  | head => exact absurd rfl hmethod
  | _ => rfl

/-- A request for no place is lost. -/
theorem handle_of_lost (h : r.Asks method route)
    (hplace : Route.ofPath? route.path.toList = none) : handle auth r = .done (.bare 404) := by
  rw [handle, h.path, hplace]
  rfl

/-- A segment that names an id leads to the places of its oracle, unless the id is empty. -/
theorem place_of_names (h : Segment.Names segment id) :
    Route.ofPath? (Route.oracle segment).path.toList
        = (if id = "" then none else some (.oracle segment)) ∧
      Route.ofPath? (Route.resync segment).path.toList
        = if id = "" then none else some (.resync segment) := by
  have hslash : '/' ∉ segment.toList := h.not_mem (by decide) (by decide)
  simp only [Route.ofPath_oracle hslash, Route.ofPath_resync hslash, h.eq_empty_iff, and_self]

/-- At a place with a segment that names an id, the oracle of that id is meant. -/
theorem withOracle_of_names (h : Segment.Names segment id) (next : OracleId → Action Response) :
    withOracle segment next = next id := by
  rw [withOracle, Segment.decode_of_names h]

/-- The configuration in the body is the one that is taken. -/
theorem withConfig_of_carries (h : r.Carries c) (next : OracleConfig → Action Response) :
    withConfig r next = next c := by
  rw [withConfig, h.declared]
  simp only [Bool.not_true, Bool.false_eq_true, if_false, if_neg (Nat.not_lt.mpr h.size), h.read,
    h.complete]

/-- Without a configuration in the body, a request that needs one goes no further. -/
theorem withConfig_of_none (h : ∀ c, ¬r.Carries c) (next : OracleConfig → Action Response) :
    ∃ status, 400 ≤ status ∧ withConfig r next = .done (.bare status) := by
  unfold withConfig
  split
  · exact ⟨415, by decide, rfl⟩
  next hdeclared =>
    split
    · exact ⟨413, by decide, rfl⟩
    next hsize =>
      dsimp only
      split
      next c hread hcomplete =>
        exact absurd ⟨by simpa using hdeclared, Nat.le_of_not_lt hsize, hread, hcomplete⟩ (h c)
      · exact ⟨422, by decide, rfl⟩
      · exact ⟨400, by decide, rfl⟩

theorem size_text (text : String) : (text : Body).bytes.size = text.utf8ByteSize :=
  String.size_toByteArray

theorem chars_text (text : String) : (text : Body).chars = text.toList := by
  rw [Body.chars, Text.fromUTF8?_toUTF8]

/-- A configuration is carried as it is written. -/
theorem carries_text (hdeclared : r.declaresJson = true)
    (hbody : r.body = (c.toJson.text : Body)) (hsize : c.toJson.text.utf8ByteSize ≤ Body.limit) :
    r.Carries c := by
  have hread : Json.read r.body.chars = ⟨Document.ofJson c.toJson, true⟩ := by
    rw [hbody, chars_text, Json.read_text (OracleConfig.plain c 124)]
  refine ⟨hdeclared, ?_, ?_, ?_⟩
  · rw [hbody, size_text]
    exact hsize
  · rw [hread]
    exact OracleConfig.decode_toJson c
  · rw [hread]

/-! ## Calls behind a request -/

variable {feeds : Destination → Except PublishError FeedRound} {s s' : Table × Memory} {row : Row}

/-- What a call leaves, and what it says, is what the response shows. -/
theorem keeps_call {write : α → Response} {call : Management.Call α}
    {post : Response → Table × Memory → Prop}
    (h : Keeps (served feeds) anyOf (fun e s' => post (respond write e) s') call.run s) :
    Keeps (served feeds) anyOf post (Api.call write call) s :=
  Program.keeps_bind.mpr h

/-- A response is made of the outcome of a call alone. -/
theorem about_call {write : α → Response} {call : Management.Call α}
    (h : call.run.Makes (About id)) : (Api.call write call).Makes (About id) :=
  h.bind fun _ => trivial

theorem about_withConfig {next : OracleConfig → Action Response}
    (h : ∀ c, (next c).Makes (About id)) : (withConfig r next).Makes (About id) := by
  by_cases hcarries : ∃ c, r.Carries c
  · obtain ⟨c, hc⟩ := hcarries
    rw [withConfig_of_carries hc]
    exact h c
  · obtain ⟨status, -, hdone⟩ := withConfig_of_none (not_exists.mp hcarries) next
    rw [hdone]
    trivial

/-- Whatever is asked for at the place of an oracle, by whomever, is about that oracle. -/
theorem about_oracle (h : Segment.Names segment id) (method : Method) :
    (handleAt auth r (.oracle segment) method).Makes (About id) := by
  cases method with
  | get =>
    show (withOracle segment get).Makes _
    rw [withOracle_of_names h]
    exact about_call Management.about_get
  | put =>
    show (withOracle segment (update auth r)).Makes _
    rw [withOracle_of_names h]
    refine about_withConfig fun c => ?_
    by_cases hid : c.id = id
    · rw [if_neg (not_not.mpr hid)]
      exact about_call
        (Attempt.makes_bind (Management.about_update hid) fun _ => Management.about_get)
    · rw [if_pos hid]
      trivial
  | delete =>
    show (withOracle segment (remove auth r)).Makes _
    rw [withOracle_of_names h]
    exact about_call Management.about_remove
  | head | post | other _ => trivial

theorem about_resyncPlace (h : Segment.Names segment id) (method : Method) :
    (handleAt auth r (.resync segment) method).Makes (About id) := by
  cases method with
  | post =>
    show (withOracle segment (resync auth r)).Makes _
    rw [withOracle_of_names h]
    exact about_call Management.about_resync
  | get | put | delete | head | other _ => trivial

/-- Whoever asks, what is asked for at a place is handled by that place or refused. -/
theorem about_handle (hroute : Route.ofPath? (Route.pathOf r.uri) = some route)
    (h : ∀ method, (handleAt auth r route method).Makes (About id)) :
    (handle auth r).Makes (About id) := by
  rw [handle, hroute]
  dsimp only
  split
  · exact (h .get).bind fun _ => trivial
  · exact h _

/-! ## Oracles that are managed -/

/-- A response shows an oracle. -/
def Shows (status : UInt16) (row : Row) (resp : Response) : Prop :=
  ∃ stage, resp = .json status (OracleView.toJson ⟨row.config, row.bookkeeping, stage⟩)

/-- All that operators do at the places of a segment comes to its end, and is done to one oracle. -/
structure Managed (auth : Authorization) (segment : String) (id : OracleId) : Prop where
  /-- A look shows it and changes nothing. -/
  told : ∀ {feeds r row s}, r.Asks .get (.oracle segment) → Registered id row s →
    Ensures (served feeds) (fun resp s' => Shows 200 row resp ∧ s' = s) (handle auth r) s
  /-- A sound configuration of its id, for a feed that no other oracle has, replaces its own. -/
  updated : ∀ {feeds r c row s}, r.Asks .put (.oracle segment) → auth.admits r.token? = true →
    r.Carries c → c.id = id → check c = .ok () → s.1.owner? c = none → Registered id row s →
    Ensures (served feeds)
      (fun resp s' => Shows 200 ⟨c, carriedOver row c⟩ resp ∧ Updated c row s s') (handle auth r) s
  /-- It is taken out. -/
  removed : ∀ {feeds r row s}, r.Asks .delete (.oracle segment) → auth.admits r.token? = true →
    Registered id row s →
    Ensures (served feeds) (fun resp s' => resp = .bare 204 ∧ Removed id s s') (handle auth r) s
  /-- It is aligned with what its feed tells. -/
  resynced : ∀ {feeds r row s}, r.Asks .post (.resync segment) → auth.admits r.token? = true →
    Registered id row s →
    Ensures (served feeds)
      (fun resp s' =>
        resp = respond (fun b => .json 200 b.toJson)
          ((alignment feeds row.config.destination).mapError .publish) ∧
        Realigned id row s (alignment feeds row.config.destination) s') (handle auth r) s
  /-- Whatever is asked for there, by whomever and in whatever surroundings, no other oracle is
  concerned. -/
  alone : ∀ {r method}, r.Asks method (.oracle segment) ∨ r.Asks method (.resync segment) →
    (handle auth r).Makes (About id)

section

variable (h : Segment.Names segment id) (hid : id ≠ "")

include h hid

theorem handle_oracle (hasks : r.Asks method (.oracle segment)) (hmethod : method ≠ .head) :
    handle auth r = handleAt auth r (.oracle segment) method := by
  have hplace := (place_of_names h).1
  rw [if_neg hid] at hplace
  exact handle_of_asks hasks hplace hmethod

/-- The row is shown, and nothing changes. -/
theorem ensures_get (hasks : r.Asks .get (.oracle segment)) (hregistered : Registered id row s) :
    Ensures (served feeds) (fun resp s' => Shows 200 row resp ∧ s' = s) (handle auth r) s := by
  rw [handle_oracle h hid hasks (by decide)]
  refine ensures_of_keeps ?_
  show Keeps _ anyOf _ (withOracle segment get) s
  rw [withOracle_of_names h]
  refine keeps_call ((Management.keeps_get hregistered.row).mono ?_)
  rintro _ _ ⟨⟨stage, rfl⟩, rfl⟩
  exact ⟨⟨stage, rfl⟩, rfl⟩

/-- A sound configuration of the same id replaces the former one. -/
theorem ensures_put (hasks : r.Asks .put (.oracle segment)) (hadmits : auth.admits r.token? = true)
    (hcarries : r.Carries c) (hc : c.id = id) (hcheck : check c = .ok ())
    (howner : s.1.owner? c = none) (hregistered : Registered id row s) :
    Ensures (served feeds)
      (fun resp s' => Shows 200 ⟨c, carriedOver row c⟩ resp ∧ Updated c row s s')
      (handle auth r) s := by
  subst hc
  rw [handle_oracle h hid hasks (by decide)]
  refine ensures_of_keeps ?_
  show Keeps _ anyOf _ (withOracle segment (update auth r)) s
  rw [withOracle_of_names h, update, withConfig_of_carries hcarries, if_neg (not_not.mpr rfl)]
  refine keeps_call (Attempt.keeps_bind.mpr
    ((Management.keeps_update hadmits hregistered hcheck howner).mono ?_))
  rintro _ s' ⟨rfl, hupdated⟩
  refine (Management.keeps_get hupdated.kept.inTable).mono ?_
  rintro _ _ ⟨⟨stage, rfl⟩, rfl⟩
  exact ⟨⟨stage, rfl⟩, hupdated⟩

/-- The oracle is taken out, without a body in the response. -/
theorem ensures_delete (hasks : r.Asks .delete (.oracle segment))
    (hadmits : auth.admits r.token? = true) (hregistered : Registered id row s) :
    Ensures (served feeds) (fun resp s' => resp = .bare 204 ∧ Removed id s s')
      (handle auth r) s := by
  rw [handle_oracle h hid hasks (by decide)]
  refine ensures_of_keeps ?_
  show Keeps _ anyOf _ (withOracle segment (remove auth r)) s
  rw [withOracle_of_names h]
  refine keeps_call ((Management.keeps_remove hadmits hregistered).mono ?_)
  rintro _ s' ⟨rfl, hremoved⟩
  exact ⟨rfl, hremoved⟩

/-- The bookkeeping is aligned with what the feed tells, or the failure of the feed is told. -/
theorem ensures_resync (hasks : r.Asks .post (.resync segment))
    (hadmits : auth.admits r.token? = true) (hregistered : Registered id row s) :
    Ensures (served feeds)
      (fun resp s' =>
        resp = respond (fun b => .json 200 b.toJson)
          ((alignment feeds row.config.destination).mapError .publish) ∧
        Realigned id row s (alignment feeds row.config.destination) s') (handle auth r) s := by
  have hplace := (place_of_names h).2
  rw [if_neg hid] at hplace
  rw [handle_of_asks hasks hplace (by decide)]
  refine ensures_of_keeps ?_
  show Keeps _ anyOf _ (withOracle segment (resync auth r)) s
  rw [withOracle_of_names h]
  refine keeps_call ((Management.keeps_resync hadmits hregistered).mono ?_)
  rintro _ s' ⟨rfl, haligned⟩
  exact ⟨rfl, haligned⟩

/-- An oracle with an id is managed at every segment that may be written for it. -/
theorem managed_of_names : Managed auth segment id where
  told := ensures_get h hid
  updated := ensures_put h hid
  removed := ensures_delete h hid
  resynced := ensures_resync h hid
  alone := by
    obtain ⟨horacle, hresync⟩ := place_of_names h
    rw [if_neg hid] at horacle hresync
    rintro r method (hasks | hasks)
    · exact about_handle (hasks.path ▸ horacle) (about_oracle h)
    · exact about_handle (hasks.path ▸ hresync) (about_resyncPlace h)

end

/-- A request to look at an oracle. -/
def looking (segment : String) : Request := ⟨.get, (Route.oracle segment).path, [], ""⟩

theorem looking_asks (h : Segment.Names segment id) :
    (looking segment).Asks .get (.oracle segment) := by
  have hquery : '?' ∉ segment.toList := h.not_mem (by decide) (by decide)
  have hfragment : '#' ∉ segment.toList := h.not_mem (by decide) (by decide)
  refine ⟨rfl, Route.pathOf_path ?_ ?_⟩
  · simpa [Route.path] using hquery
  · simpa [Route.path] using hfragment

theorem names_empty : Segment.Names "" "" := by
  have h := Segment.names_encode ""
  rwa [h.eq_empty_iff.mpr rfl] at h

/-- A look at the oracle without an id is lost. -/
theorem handle_looking_empty : handle auth (looking "") = .done (.bare 404) :=
  handle_of_lost (looking_asks names_empty) (by decide)

/-- No segment leads to an oracle without an id. -/
theorem not_managed_of_empty (h : Registered "" row s) : ¬Managed auth "" "" := by
  intro hmanaged
  have htold : Ensures (served fun _ => .error (.network "")) _ _ s :=
    hmanaged.told (looking_asks names_empty) h
  rw [handle_looking_empty] at htold
  obtain ⟨⟨stage, hshown⟩, -⟩ := htold.holds _ _ (.here _ _)
  cases hshown

/-- An oracle is managed at all segments of its id unless it has the empty one, which no path has.
-/
theorem managed_iff (h : Registered id row s) :
    (∀ segment, Segment.Names segment id → Managed auth segment id) ↔ id ≠ "" := by
  constructor
  · rintro hall rfl
    exact not_managed_of_empty h (hall "" names_empty)
  · intro hid segment hnames
    exact managed_of_names hnames hid

/-! ## Oracles that were registered -/

/-- A call that fails creates nothing. -/
theorem statusOf_ne_created (e : ServiceError) : statusOf e ≠ 201 := by
  rcases e with _ | e | _
  · simp [statusOf]
  · cases e <;> simp [statusOf]
  · simp [statusOf]

/-- A body carries at most one configuration. -/
theorem Request.Carries.unique {c' : OracleConfig} (h : r.Carries c) (h' : r.Carries c') :
    c = c' :=
  Decoded.ok.inj (h.read.symm.trans h'.read)

/-- What comes of a request to register an oracle. -/
structure Registers (auth : Authorization) (r : Request) (s : Table × Memory) (resp : Response)
    (s' : Table × Memory) : Prop where
  created : resp.status = 201 ↔ ∃ c, r.Carries c ∧ Admissible auth r.token? c s.1
  added : ∀ c, r.Carries c → Admissible auth r.token? c s.1 →
    Shows 201 ⟨c, .initial⟩ resp ∧ Added c s s'

/-- Nothing is created where there is nothing to be admitted. -/
theorem registers_refused {resp : Response} (hstatus : resp.status ≠ 201)
    (hrefused : ∀ c, r.Carries c → ¬Admissible auth r.token? c s.1) :
    Registers auth r s resp s' where
  created := by
    refine ⟨fun h => absurd h hstatus, ?_⟩
    rintro ⟨c, hc, hadmissible⟩
    exact absurd hadmissible (hrefused c hc)
  added := fun c hc hadmissible => absurd hadmissible (hrefused c hc)

/-- Posting a configuration registers an oracle, or leaves all as it was. -/
theorem keeps_post (harises : Arises s) :
    Keeps (served feeds) anyOf (Registers auth r s) (register auth r) s := by
  rw [register]
  by_cases hcarries : ∃ c, r.Carries c
  · obtain ⟨c, hc⟩ := hcarries
    rw [withConfig_of_carries hc]
    refine keeps_call (Attempt.keeps_bind.mpr ((Management.keeps_register harises).mono ?_))
    rintro (e | id) s' h
    · refine registers_refused (statusOf_ne_created e) fun c' hc' => ?_
      rw [← hc.unique hc']
      exact h
    · obtain ⟨rfl, hadmissible, hadded⟩ := h
      refine (Management.keeps_get hadded.registered.row).mono ?_
      rintro _ _ ⟨⟨stage, rfl⟩, rfl⟩
      refine ⟨⟨fun _ => ⟨c, hc, hadmissible⟩, fun _ => rfl⟩, fun c' hc' _ => ?_⟩
      rw [← hc.unique hc']
      exact ⟨⟨stage, rfl⟩, hadded⟩
  · have hnone := not_exists.mp hcarries
    obtain ⟨status, hge, hdone⟩ := withConfig_of_none hnone _
    rw [hdone]
    refine registers_refused ?_ fun c hc => absurd hc (hnone c)
    rintro rfl
    exact absurd hge (by decide)

/-- A request to register an oracle is answered by 201 exactly where its body is a configuration
that the registry admits, of a caller who may say so. Then the oracle is there, and at every segment
that may be written for its id all that operators do is done to it and to no other, if and only if
the id is not empty. -/
theorem registered_reachable_iff (hpost : r.Asks .post .oracles) (harises : Arises s) :
    Ensures (served feeds)
      (fun resp s' => (resp.status = 201 ↔ ∃ c, r.Carries c ∧ Admissible auth r.token? c s.1) ∧
        ∀ c, r.Carries c → Admissible auth r.token? c s.1 →
          Shows 201 ⟨c, .initial⟩ resp ∧ Added c s s' ∧
            ((∀ segment, Segment.Names segment c.id → Managed auth segment c.id) ↔ c.id ≠ ""))
      (handle auth r) s := by
  rw [handle_of_asks hpost (by decide) (by decide)]
  refine ensures_of_keeps ((keeps_post harises).mono fun resp s' h => ?_)
  refine ⟨h.created, fun c hc hadmissible => ?_⟩
  obtain ⟨hshows, hadded⟩ := h.added c hc hadmissible
  exact ⟨hshows, hadded, managed_iff hadded.registered⟩

/-! ## A hard id, and none -/

/-- A request to register an oracle. -/
def posting (c : OracleConfig) : Request :=
  ⟨.post, "/oracles", [("content-type", "application/json")], c.toJson.text⟩

theorem posting_asks (c : OracleConfig) : (posting c).Asks .post .oracles := by
  have hpath : Route.pathOf "/oracles" = Route.oracles.path.toList := by decide
  exact ⟨rfl, hpath⟩

/-- A configuration that is not too long is read from the body as it was written. -/
theorem posting_carries (hshort : 4 * c.toJson.render.length ≤ Body.limit) :
    (posting c).Carries c := by
  have hdeclared : (posting c).declaresJson = true := by
    have hheader : (posting c).header? "content-type" = some "application/json" := by
      show (List.find? (fun h => h.1.toLower = "content-type")
        [("content-type", "application/json")]).bind _ = _
      decide +kernel
    rw [Request.declaresJson, hheader]
    decide +kernel
  exact carries_text hdeclared rfl ((Text.utf8ByteSize_ofList_le _).trans hshort)

theorem arises_empty : Arises (.empty, []) := ⟨[], .empty⟩

open PriceOracle.Cycle (ethUsd)

/-- An oracle whose id is made of what paths give a meaning to. -/
def slashed : OracleConfig := { ethUsd with id := "a/b %" }

/-- An oracle without an id. -/
def nameless : OracleConfig := { ethUsd with id := "" }

/-- Feeds that are out of reach. -/
def silent (_ : Destination) : Except PublishError FeedRound := .error (.network "")

theorem names_slashed : Segment.Names "a%2Fb%20%25" slashed.id := by
  have hbytes : slashed.id.toUTF8.toList = [97, 47, 98, 32, 37] := by
    rw [Text.toList_bytes]
    decide +kernel
  rw [Segment.Names, hbytes]
  have hplain (c : Char) (h : Segment.stands c = true) : Segment.Writes (Segment.byteOf c) [c] :=
    .plain h
  exact .cons (hplain 'a' (by decide)) (.cons (.escaped rfl rfl) (.cons (hplain 'b' (by decide))
    (.cons (.escaped rfl rfl) (.cons (.escaped rfl rfl) .nil))))

/-- Once it is registered, the oracle is managed, and told, where its id is written with capital
digits. -/
theorem slashed_reachable :
    (posting slashed).Asks .post .oracles ∧ Arises (.empty, []) ∧
      Segment.Names "a%2Fb%20%25" slashed.id ∧
      Ensures (served silent)
        (fun resp s' => resp.status = 201 ∧ Added slashed (.empty, []) s' ∧
          Managed .anyone "a%2Fb%20%25" slashed.id ∧
          Ensures (served silent) (fun resp' s'' => Shows 200 ⟨slashed, .initial⟩ resp' ∧ s'' = s')
            (handle .anyone (looking "a%2Fb%20%25")) s')
        (handle .anyone (posting slashed)) (.empty, []) := by
  have hcarries : (posting slashed).Carries slashed := posting_carries (by decide +kernel)
  have hadmissible : Admissible .anyone (posting slashed).token? slashed Table.empty :=
    ⟨rfl, rfl, rfl, rfl⟩
  obtain ⟨hends, hholds⟩ :
      Ensures (served silent) _ (handle .anyone (posting slashed)) (.empty, []) :=
    registered_reachable_iff (posting_asks slashed) arises_empty
  refine ⟨posting_asks slashed, arises_empty, names_slashed, hends, fun resp s' hrun => ?_⟩
  obtain ⟨hcreated, hall⟩ := hholds resp s' hrun
  obtain ⟨-, hadded, hmanaged⟩ := hall slashed hcarries hadmissible
  have hreach := hmanaged.mpr (by decide) _ names_slashed
  exact ⟨hcreated.mpr ⟨slashed, hcarries, hadmissible⟩, hadded, hreach,
    hreach.told (looking_asks names_slashed) hadded.registered⟩

/-- The registry takes an oracle without an id, from a request that is answered by 201. Then it is
there, and a look at it where its id is written is lost. -/
theorem nameless_unreachable :
    Segment.Names "" nameless.id ∧ (looking "").Asks .get (.oracle "") ∧
      (posting nameless).Asks .post .oracles ∧ (posting nameless).Carries nameless ∧
      Admissible .anyone (posting nameless).token? nameless Table.empty ∧
      Ensures (served silent)
        (fun resp s' => resp.status = 201 ∧ s'.1.row? nameless.id = some ⟨nameless, .initial⟩ ∧
          handle .anyone (looking "") = .done (.bare 404) ∧ ¬Managed .anyone "" nameless.id)
        (handle .anyone (posting nameless)) (.empty, []) := by
  have hcarries : (posting nameless).Carries nameless := posting_carries (by decide +kernel)
  have hadmissible : Admissible .anyone (posting nameless).token? nameless Table.empty :=
    ⟨rfl, rfl, rfl, rfl⟩
  refine ⟨names_empty, looking_asks names_empty, posting_asks nameless, hcarries, hadmissible, ?_⟩
  rw [handle_of_asks (posting_asks nameless) (by decide) (by decide)]
  refine ensures_of_keeps ((keeps_post arises_empty).mono fun resp s' h => ?_)
  obtain ⟨-, hadded⟩ := h.added nameless hcarries hadmissible
  exact ⟨h.created.mpr ⟨nameless, hcarries, hadmissible⟩, hadded.registered.row,
    handle_looking_empty, not_managed_of_empty hadded.registered⟩

end Api

end PriceOracle
