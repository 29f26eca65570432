import PriceOracle.Proofs.Cycle.Outline
import PriceOracle.Proofs.Service.Calls

/-!
# Runs of a service

What happens to one oracle, step after step: its cycles, the management calls about it, restarts,
and whatever else goes on. A `Happening` names a step with its result, `Nature.Step` says between
which worlds it leads, and `Nature.Run` puts steps in a row.

Cycles and calls about one oracle do not overlap, as its lock keeps them apart. A restart drops the
table and loads the registry from storage; one that fails to load it leaves no service, and is not
a step.
-/

namespace PriceOracle

open Program (Keeps Leads)
open Registry (Kept Listed carriedOver storedRow?)

/-- What happens to an oracle, with its result. -/
inductive Happening where
  | cycled (outcome : Except RegistryError Outcome)
  | registered (c : OracleConfig) (result : Except ServiceError OracleId)
  /-- An update, with the configuration before it. -/
  | updated (former : Option OracleConfig) (c : OracleConfig) (result : Except ServiceError Unit)
  | removed (result : Except ServiceError Unit)
  | resynced (result : Except ServiceError Bookkeeping)
  | restarted
  /-- Something that does not concern the oracle. -/
  | elsewhere

/-- A step that is a management call. -/
def Happening.IsCall : Happening → Prop
  | registered _ _ | updated _ _ _ | removed _ | resynced _ => True
  | cycled _ | restarted | elsewhere => False

/-- A step aligned the oracle with its feed. -/
def Happening.Resyncs : Happening → Prop
  | resynced (.ok _) => True
  | _ => False

/-- A step starts the bookkeeping of the oracle over. There is nothing to register but what was
removed before. -/
def Happening.Resets : Happening → Prop
  | registered _ (.ok _) | removed (.ok _) | resynced (.ok _) => True
  | updated former c (.ok _) => former.map (·.destination) ≠ some c.destination
  | _ => False

namespace Nature

variable {φ : Type} (N : Nature φ) (id : OracleId)

/-- One step of a service, as an oracle sees it. -/
inductive Step : World φ → Happening → World φ → Prop where
  | cycle {w w' : World φ} {outcome : Except RegistryError Outcome} (policy : Cycle.Policy)
      (deadline : Duration) :
      Leads (N.around id) (Cycle.run policy id deadline) w (.done outcome) w' →
      Step w (.cycled outcome) w'
  | register {w w' : World φ} {result : Except ServiceError OracleId} (auth : Authorization)
      (caller : Management.Caller) (c : OracleConfig) : c.id = id →
      Leads (N.around id) (Management.register auth caller c).run w (.done result) w' →
      Step w (.registered c result) w'
  | update {w w' : World φ} {result : Except ServiceError Unit} (auth : Authorization)
      (caller : Management.Caller) (c : OracleConfig) : c.id = id →
      Leads (N.around id) (Management.update auth caller c).run w (.done result) w' →
      Step w (.updated ((w.table.row? id).map (·.config)) c result) w'
  | remove {w w' : World φ} {result : Except ServiceError Unit} (auth : Authorization)
      (caller : Management.Caller) :
      Leads (N.around id) (Management.remove auth caller id).run w (.done result) w' →
      Step w (.removed result) w'
  | resync {w w' : World φ} {result : Except ServiceError Bookkeeping} (auth : Authorization)
      (caller : Management.Caller) :
      Leads (N.around id) (Management.resync auth caller id).run w (.done result) w' →
      Step w (.resynced result) w'
  | restart {w w' : World φ} :
      Leads (Storage.Memory.Flaky N.mayFail) Registry.load.run w.storage
        (.done (.ok w'.table)) w'.storage →
      N.moves w.outside w'.outside → Step w .restarted w'
  | elsewhere {w w' : World φ} : N.Stirs id w w' → Step w .elsewhere w'

/-- Steps in a row. -/
inductive Run : World φ → List Happening → World φ → Prop where
  | nil (w : World φ) : Run w [] w
  | cons {w w' w'' : World φ} {h : Happening} {rest : List Happening} :
      N.Step id w h w' → Run w' rest w'' → Run w (h :: rest) w''

end Nature

/-- What a cycle that starts in one world is about to ask a feed for in another. -/
def Nature.Asks {φ : Type} (N : Nature φ) (id : OracleId) (w : World φ) (r : Feed.Request)
    (w' : World φ) : Prop :=
  ∃ policy deadline next, Leads (N.around id) (Cycle.run policy id deadline) w
    (.ask (.feed r) next) w'

/-- A world in which nothing was ever registered. -/
def World.fresh {φ : Type} (outside : φ) : World φ := ⟨.empty, [], outside⟩

theorem Stands.fresh {φ : Type} {id : OracleId} {P : Standing φ} {outside : φ}
    (h : P none outside) : Stands id P (.fresh outside) :=
  .missing rfl ⟨List.not_mem_nil, fun order horder => by cases horder⟩ h

/-- A world that a service comes to from a fresh one. -/
def Nature.Reachable {φ : Type} (N : Nature φ) (id : OracleId) (w : World φ) : Prop :=
  ∃ outside past, N.Run id (.fresh outside) past w

variable {φ : Type} {N : Nature φ} {id : OracleId} {w w' : World φ} {P : Standing φ}

theorem Nature.Run.append {past rest : List Happening} {w'' : World φ} (h : N.Run id w past w')
    (h' : N.Run id w' rest w'') : N.Run id w (past ++ rest) w'' := by
  induction h with
  | nil => exact h'
  | cons hstep _ ih => exact .cons hstep (ih h')

theorem Nature.Reachable.run {hs : List Happening} (h : N.Reachable id w)
    (hrun : N.Run id w hs w') : N.Reachable id w' := by
  obtain ⟨outside, past, hpast⟩ := h
  exact ⟨outside, past ++ hs, hpast.append hrun⟩

/-- A fact that steps of some kind keep holds at the end of every run of such steps. -/
theorem Nature.Run.keeps_of {J : World φ → Prop} {kind : Happening → Prop} {hs : List Happening}
    (h : N.Run id w hs w') (hkind : ∀ x ∈ hs, kind x)
    (hstep : ∀ w x w', N.Step id w x w' → kind x → J w → J w') (hw : J w) : J w' := by
  induction h with
  | nil => exact hw
  | cons hfirst _ ih =>
    refine ih (fun x hmem => hkind x (List.mem_cons_of_mem _ hmem)) ?_
    exact hstep _ _ _ hfirst (hkind _ List.mem_cons_self) hw

/-- A fact that every step keeps holds at the end of every run. -/
theorem Nature.Run.keeps {J : World φ → Prop} {hs : List Happening} (h : N.Run id w hs w')
    (hstep : ∀ w h w', N.Step id w h w' → J w → J w') (hw : J w) : J w' :=
  h.keeps_of (fun _ _ => trivial) (fun w x w' hstep' _ => hstep w x w' hstep') hw

/-! ## Calls that start nothing over -/

/-- A call finds the configuration that the oracle had when it was made. -/
theorem Stands.former (h : Stands id P w) :
    Stands id (fun o s => P o s ∧ o.map (·.config) = (w.table.row? id).map (·.config)) w := by
  cases h with
  | present hkept hholds => exact .present hkept ⟨hholds, congrArg _ hkept.inTable.symm⟩
  | missing hnone hunlisted hholds =>
    exact .missing hnone hunlisted ⟨hholds, congrArg _ hnone.symm⟩

/-- A call that does not start the bookkeeping over keeps what does not depend on the configuration
beyond its destination. -/
theorem Nature.Step.stands_of_call {h : Happening} (hstep : N.Step id w h w') (hcall : h.IsCall)
    (hreset : ¬h.Resets) (hP : N.Settled P)
    (hread : ∀ row s s' reply, P (some row) s →
      N.feed (.latestRound row.config.destination) s reply s' → P (some row) s')
    (hcarry : ∀ row c s, row.config.destination = c.destination → P (some row) s →
      P (some ⟨c, row.bookkeeping⟩) s)
    (hstands : Stands id P w) : Stands id P w' := by
  have htrue : N.Settled fun _ _ => True := fun _ _ _ _ h => h
  cases hstep with
  | @register _ result auth caller c hc hrun =>
    have hcalled := (keeps_register hc hP htrue hstands fun _ _ => trivial).leads hrun
    cases result with
    | ok _ => exact absurd trivial hreset
    | error _ => exact hcalled
  | @update _ result auth caller c hc hrun =>
    -- A successful update that is no reset kept the destination it found, hence its bookkeeping.
    let former := (w.table.row? id).map (·.config)
    have hformer : N.Settled fun o s => P o s ∧ o.map (·.config) = former := by
      rintro o s s' hmoves ⟨h, hfound⟩
      exact ⟨hP _ _ _ hmoves h, hfound⟩
    have hnew : N.Settled fun o s => former.map (·.destination) = some c.destination → P o s := by
      intro o s s' hmoves h hsame
      exact hP _ _ _ hmoves (h hsame)
    have hcalled := (keeps_update hc hformer hnew hstands.former fun row s h hsame => by
      rw [← h.2] at hsame
      have hdestination := Option.some.inj hsame
      rw [carriedOver, if_pos hdestination]
      exact hcarry row c s hdestination h.1).leads hrun
    cases result with
    | ok _ => exact Stands.mono hcalled fun _ _ h => h (not_not.mp hreset)
    | error _ => exact Stands.mono hcalled fun _ _ h => h.1
  | @remove _ result auth caller hrun =>
    have hcalled := (keeps_remove hP htrue hstands fun _ _ _ => trivial).leads hrun
    cases result with
    | ok _ => exact absurd trivial hreset
    | error _ => exact hcalled
  | @resync _ result auth caller hrun =>
    have hcalled := (keeps_resync (T := fun _ _ _ => True) hP htrue (fun _ _ _ _ _ h => h) hstands
      (fun row s s' reply h hreply => ⟨hread row s s' reply h hreply, fun _ _ => trivial⟩)
      fun _ _ _ _ _ _ _ _ => trivial).leads hrun
    cases result with
    | ok _ => exact absurd trivial hreset
    | error _ => exact hcalled
  | cycle | restart | elsewhere => exact absurd hcall not_false

/-! ## Steps that start over -/

/-- A step that starts the bookkeeping over leaves an oracle without a row, with initial
bookkeeping, or aligned with what its feed told. -/
theorem Nature.Step.stands_of_reset {Q : Standing φ} {T : Destination → FeedRound → φ → Prop}
    {h : Happening} (hstep : N.Step id w h w') (hreset : h.Resets) (hQ : N.Settled Q)
    (hT : ∀ d latest s s', N.moves s s' → T d latest s → T d latest s')
    (hmissing : ∀ s, Q none s) (hinitial : ∀ c s, Q (some ⟨c, .initial⟩) s)
    (htold : ∀ d latest s s', N.feed (.latestRound d) s (.ok latest) s' → T d latest s')
    (haligned : ∀ c b latest value s, T c.destination latest s →
      (Management.aligned latest value).Same b → Q (some ⟨c, b⟩) s)
    (hstands : Stands id P w) : Stands id Q w' := by
  have hstands : Stands id (fun _ _ => True) w := hstands.mono fun _ _ _ => trivial
  have htrue : N.Settled fun _ _ => True := fun _ _ _ _ h => h
  cases hstep with
  | @register _ result auth caller c hc hrun =>
    have hcalled := (keeps_register hc htrue hQ hstands fun s _ => hinitial c s).leads hrun
    cases result with
    | ok _ => exact hcalled
    | error _ => exact hreset.elim
  | @update _ result auth caller c hc hrun =>
    -- Whether an update starts over depends on the config it finds, so that is carried along.
    let former := (w.table.row? id).map (·.config)
    have hformer : N.Settled fun o _ => True ∧ o.map (·.config) = former := fun _ _ _ _ h => h
    have hnew : N.Settled fun o s =>
        former.map (·.destination) ≠ some c.destination → Q o s := by
      intro o s s' hmoves h hne
      exact hQ o s s' hmoves (h hne)
    have hcalled := (keeps_update hc hformer hnew hstands.former fun row s hfound hne => by
      have hchanged : row.config.destination ≠ c.destination := by
        intro hsame
        rw [← hfound.2] at hne
        exact hne (congrArg some hsame)
      rw [carriedOver, if_neg hchanged]
      exact hinitial c s).leads hrun
    cases result with
    | ok _ => exact Stands.mono hcalled fun _ _ h => h hreset
    | error _ => exact hreset.elim
  | @remove _ result auth caller hrun =>
    have hcalled := (keeps_remove htrue hQ hstands fun _ s _ => hmissing s).leads hrun
    cases result with
    | ok _ => exact hcalled
    | error _ => exact hreset.elim
  | @resync _ result auth caller hrun =>
    have hcalled := (keeps_resync htrue hQ hT hstands (fun row s s' reply _ hreply => ⟨trivial, by
        rintro latest rfl
        exact htold _ latest s s' hreply⟩)
      fun row b latest value s _ htold hsame => haligned row.config b latest value s htold
        hsame).leads hrun
    cases result with
    | ok _ => exact hcalled
    | error _ => exact hreset.elim
  | cycle | restart | elsewhere => exact hreset.elim

/-! ## Requests of cycles -/

/-- Whatever a cycle asks for is permitted. -/
theorem permit_of_asks {permit : Feed.Request → φ → Prop} {r : Feed.Request}
    {post : Except RegistryError Outcome → World φ → Prop}
    (h : ∀ policy deadline, Keeps (N.around id) (Surroundings.Request.permitted permit) post
      (Cycle.run policy id deadline) w)
    (hasks : N.Asks id w r w') : permit r w'.outside := by
  obtain ⟨policy, deadline, next, hrun⟩ := hasks
  exact ((h policy deadline).leads hrun).1

/-- Requests of cycles leave the order alone. -/
theorem listed_of_permitted {permit : Feed.Request → φ → Prop} {r : Surroundings.Request}
    {reply : r.Reply} (hpermit : r.permitted permit w) (hlisted : Listed id w.table w.storage)
    (hreply : N.around id r w reply w') : Listed id w'.table w'.storage := by
  obtain ⟨w₁, hanswer, hstirs⟩ := hreply
  refine hstirs.spared.listed ?_
  cases r with
  | registry r =>
    cases r with
    | row other =>
      obtain ⟨hdone, hstorage⟩ := Leads.of_done hanswer.1
      obtain ⟨-, htable⟩ := Prod.mk.inj (Program.done.inj hdone)
      rw [htable, hstorage]
      exact hlisted
    | revise other change =>
      have hkeeps := Registry.keeps_listed_of_revise N.mayFail other change hlisted
      exact hkeeps.leads hanswer.1
    | _ => exact hpermit.elim
  | feed r =>
    obtain ⟨-, htable, hstorage⟩ := hanswer
    rw [htable, hstorage]
    exact hlisted
  | _ =>
    obtain rfl := hanswer
    exact hlisted

/-! ## Cycles of a missing oracle -/

/-- A cycle of an oracle that has no row publishes nothing. -/
theorem keeps_run_of_missing {J : World φ → Prop} (permit : Feed.Request → φ → Prop)
    {policy : Cycle.Policy} {deadline : Duration} (hJ : N.Unaffected id J)
    (hmissing : ∀ w, J w → w.table.row? id = none) (hw : J w) :
    Keeps (N.around id) (fun r w => r.permitted permit w ∧ J w)
      (fun outcome w' => J w' ∧ Cycle.published? outcome = none)
      (Cycle.run policy id deadline) w := by
  refine keeps_run_of_locked ?_ hJ (fun e => ?_) (fun _ hw => ⟨hw, rfl⟩) (fun w hw => ?_) hw
  · intro r w hframing hw
    have hJw : J w := hw.elim (fun hw => hw) fun ⟨_, hw, _⟩ => hw
    exact ⟨permitted_quiet (Surroundings.Request.quiet_of_framing hframing) w, hJw⟩
  · rintro w w' hstirs ⟨hw, hpublished⟩
    exact ⟨hJ w w' hstirs hw, hpublished⟩
  · rw [Cycle.runLocked]
    exact Attempt.keeps_bind.mpr (keeps_row_of_missing ⟨trivial, hw⟩ hJ hw (hmissing w hw)
      fun _ hw => ⟨hw, rfl⟩)

/-- It leaves the oracle as it stands: without a row, whatever storage has of it. -/
theorem keeps_run_standing {P : Standing φ} (permit : Feed.Request → φ → Prop)
    {policy : Cycle.Policy} {deadline : Duration} (hP : N.Settled P) (hstands : Stands id P w)
    (hnone : w.table.row? id = none) :
    Keeps (N.around id) (fun r w' => r.permitted permit w' ∧ Stands id P w')
      (fun outcome w' => Stands id P w' ∧ w'.table.row? id = none ∧
        storedRow? id w'.storage = storedRow? id w.storage ∧ Cycle.published? outcome = none)
      (Cycle.run policy id deadline) w := by
  let J (w₁ : World φ) : Prop := Stands id P w₁ ∧ w₁.table.row? id = none ∧
    storedRow? id w₁.storage = storedRow? id w.storage
  have hJ : N.Unaffected id J := by
    rintro w₁ w₂ hstirs ⟨hstands, hnone, hstored⟩
    exact ⟨hP.stands _ _ hstirs hstands, hstirs.spared.row.trans hnone,
      hstirs.spared.stored.trans hstored⟩
  have hkeeps : Keeps _ _ _ (Cycle.run policy id deadline) w :=
    keeps_run_of_missing permit hJ (fun _ h => h.2.1) ⟨hstands, hnone, rfl⟩
  refine (hkeeps.allowing fun _ _ h => ⟨h.1, h.2.1⟩).mono ?_
  rintro outcome w' ⟨⟨hstands, hnone, hstored⟩, hpublished⟩
  exact ⟨hstands, hnone, hstored, hpublished⟩

/-! ## Restarts -/

/-- An oracle stands after a restart as before, unless it is gone. -/
theorem Stands.restart {m : Storage.Memory} {table : Table} {outside : φ} (hP : N.Settled P)
    (hgone : ∀ o s, P o s → P none s) (h : Stands id P w)
    (hload : Leads (Storage.Memory.Flaky N.mayFail) Registry.load.run w.storage
      (.done (.ok table)) m)
    (hmoves : N.moves w.outside outside) : Stands id P ⟨table, m, outside⟩ := by
  obtain ⟨rfl, hloaded⟩ := Registry.loaded_of_leads hload
  have hnone : P none w.outside := by
    cases h with
    | present _ hholds => exact hgone _ _ hholds
    | missing _ _ hholds => exact hholds
  -- An oracle that is not listed in storage is gone, whether or not it left a row.
  have hout (hin : ∀ order, Registry.storedOrder? w.storage = some order → id ∉ order) :
      Stands id P ⟨table, w.storage, outside⟩ := by
    obtain ⟨hrow, hmem⟩ := hloaded.unlisted id hin
    exact .missing hrow ⟨hmem, hin⟩ (hP _ _ _ hmoves hnone)
  cases h with
  | missing _ hunlisted _ => exact hout hunlisted.inStorage
  | @present row hkept hholds =>
    by_cases hin : ∃ order, Registry.storedOrder? w.storage = some order ∧ id ∈ order
    · obtain ⟨-, hrow⟩ := hloaded.listed id row hkept.inStorage hin
      exact .present ⟨hrow, hkept.inStorage, hkept.named⟩ (hP _ _ _ hmoves hholds)
    · exact hout fun order horder hmem => hin ⟨order, horder, hmem⟩

/-- A listed oracle is listed and has its row after a restart. -/
theorem Registry.Listed.restart {row : Row} {m : Storage.Memory} {table : Table}
    (hkept : Kept id row w.table w.storage) (h : Listed id w.table w.storage)
    (hload : Leads (Storage.Memory.Flaky N.mayFail) Registry.load.run w.storage
      (.done (.ok table)) m) : Kept id row table m ∧ Listed id table m := by
  obtain ⟨rfl, hloaded⟩ := Registry.loaded_of_leads hload
  obtain ⟨hmem, hrow⟩ := hloaded.listed id row hkept.inStorage h.inStorage
  exact ⟨⟨hrow, hkept.inStorage, hkept.named⟩, ⟨hmem, h.inStorage⟩⟩

end PriceOracle
