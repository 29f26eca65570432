import PriceOracle.Management
import PriceOracle.Proofs.Oracle.Bookkeeping
import PriceOracle.Proofs.Service.World

/-!
# Management calls on one oracle

What every management call does to the row of the oracle it is about, whoever calls, wherever
storage fails and however feeds answer. A call that fails leaves the row as it was; one that goes
well leaves a row that the former one determines.

Cycles are those of an oracle that is there, while calls bring oracles in and take them out, so that
`Holds` will not do for them. `Stands` is the form of an assertion about an oracle that need not be
registered.
-/

namespace PriceOracle

open Program (Keeps)
open Registry (Kept Spared Unlisted carriedOver)

variable {φ : Type} {N : Nature φ} {id : OracleId} {w : World φ}

/-! ## Assertions about an oracle that may be missing -/

/-- A property of the row of an oracle, if it has one, and of what lies outside. -/
abbrev Standing (φ : Type) := Option Row → φ → Prop

/-- How an oracle stands. Where it has a row, storage has the same; where it has none, it is not
listed either, so that a restart brings none back. -/
inductive Stands (id : OracleId) (P : Standing φ) (w : World φ) : Prop where
  | present {row : Row} (kept : Kept id row w.table w.storage) (holds : P (some row) w.outside)
  | missing (absent : w.table.row? id = none) (unlisted : Unlisted id w.table w.storage)
    (holds : P none w.outside)

/-- A property of how an oracle stands does not depend on what moves on its own. -/
def Nature.Settled (N : Nature φ) (P : Standing φ) : Prop :=
  ∀ o s s', N.moves s s' → P o s → P o s'

theorem Stands.mono {P Q : Standing φ} (h : Stands id P w) (hPQ : ∀ o s, P o s → Q o s) :
    Stands id Q w := by
  cases h with
  | present hkept hP => exact .present hkept (hPQ _ _ hP)
  | missing hnone hunlisted hP => exact .missing hnone hunlisted (hPQ _ _ hP)

/-- An oracle that is spared stands as before, as far as what happens outside allows. -/
theorem Stands.spared {P : Standing φ} {w₁ : World φ} (h : Stands id P w)
    (hspared : Spared id w.table w.storage w₁.table w₁.storage)
    (houtside : ∀ o, P o w.outside → P o w₁.outside) : Stands id P w₁ := by
  cases h with
  | present hkept hholds => exact .present (hspared.kept hkept) (houtside _ hholds)
  | missing hnone hunlisted hholds =>
    exact .missing (hspared.row.trans hnone) (hspared.unlisted hunlisted) (houtside _ hholds)

theorem Nature.Settled.stands {P : Standing φ} (hP : N.Settled P) :
    N.Unaffected id (Stands id P) := fun _ _ hstirs h =>
  h.spared hstirs.spared fun o => hP o _ _ hstirs.moved

/-- An oracle stands as before where nothing changes. -/
theorem Stands.of_same {P : Standing φ} {w₁ : World φ} (h : Stands id P w)
    (htable : w₁.table = w.table) (hstorage : w₁.storage = w.storage)
    (houtside : w₁.outside = w.outside) : Stands id P w₁ := by
  obtain ⟨table, storage, outside⟩ := w₁
  obtain rfl := htable
  obtain rfl := hstorage
  obtain rfl := houtside
  exact h

/-- What a call leaves: `Q` where it goes well, and `P` where it fails. -/
def Called {ε α : Type} (id : OracleId) (P Q : Standing φ) : Except ε α → World φ → Prop
  | .ok _, w => Stands id Q w
  | .error _, w => Stands id P w

/-- A call that keeps an assertion either way. -/
theorem Called.either {ε α : Type} {P : Standing φ} {result : Except ε α}
    (h : Called id P P result w) : Stands id P w := by
  cases result <;> exact h

theorem called_unaffected {ε α : Type} {P Q : Standing φ} (hP : N.Settled P) (hQ : N.Settled Q)
    (result : Except ε α) : N.Unaffected id (Called id P Q result) := by
  cases result with
  | ok _ => exact hQ.stands
  | error _ => exact hP.stands

/-! ## Requests to the registry -/

variable {P Q : Standing φ} {c : OracleConfig} {w₁ : World φ}

/-- Registering gives an oracle without a row one with initial bookkeeping. -/
theorem answers_register {reply : Except RegistryError Unit} (hc : c.id = id)
    (hstands : Stands id P w) (hnew : ∀ s, P none s → Q (some ⟨c, .initial⟩) s)
    (h : N.answers (.registry (.register c)) w reply w₁) : Called id P Q reply w₁ := by
  subst hc
  obtain ⟨hanswer, houtside⟩ := h
  have hspec : Keeps (Storage.Memory.Flaky N.mayFail) Registry.anyRequest
      (fun e m =>
        (e.1 = .ok () ∧ w.table.row? c.id = none ∧ Kept c.id ⟨c, .initial⟩ e.2 m) ∨
          ((∃ e', e.1 = .error e') ∧ e.2 = w.table ∧
            (m = w.storage ∨ w.table.row? c.id = none ∧
              Registry.storedOrder? m = Registry.storedOrder? w.storage)))
      (Registry.answer (.register c) w.table) w.storage :=
    Registry.keeps_register (fun hnone t' m' hkept _ => .inl ⟨rfl, hnone, hkept⟩)
      fun e m' hm => .inr ⟨⟨e, rfl⟩, rfl, hm⟩
  rcases hspec.leads hanswer with ⟨hreply, hnone, hkept⟩ | ⟨⟨e, hreply⟩, htable, hm⟩
  · obtain rfl := hreply
    refine .present hkept ?_
    rw [houtside]
    cases hstands with
    | present hkept' _ =>
      rw [hkept'.inTable] at hnone
      cases hnone
    | missing _ _ hholds => exact hnew _ hholds
  · obtain rfl := hreply
    have hsame : w₁.table = w.table := htable
    rcases hm with hm | ⟨hnone, horder⟩
    · exact hstands.of_same hsame hm houtside
    · -- The row that was left behind is in no order.
      cases hstands with
      | present hkept _ =>
        rw [hkept.inTable] at hnone
        cases hnone
      | missing _ hunlisted hholds =>
        refine .missing (hsame ▸ hnone) ⟨hsame ▸ hunlisted.inTable, ?_⟩ (houtside ▸ hholds)
        rw [horder]
        exact hunlisted.inStorage

/-- Updating gives a row the new configuration and carries its bookkeeping over. -/
theorem answers_update {reply : Except RegistryError Unit} (hc : c.id = id)
    (hstands : Stands id P w)
    (hnew : ∀ row s, P (some row) s → Q (some ⟨c, carriedOver row c⟩) s)
    (h : N.answers (.registry (.update c)) w reply w₁) : Called id P Q reply w₁ := by
  subst hc
  obtain ⟨hanswer, houtside⟩ := h
  cases hstands with
  | @present row hkept hholds =>
    have hspec : Keeps (Storage.Memory.Flaky N.mayFail) Registry.anyRequest
        (fun e m =>
          (e.1 = .ok () ∧ Kept c.id ⟨c, carriedOver row c⟩ e.2 m) ∨
            ((∃ e', e.1 = .error e') ∧ e.2 = w.table ∧ m = w.storage))
        (Registry.answer (.update c) w.table) w.storage :=
      Registry.keeps_update hkept (fun t' m' hkept' _ => .inl ⟨rfl, hkept'⟩)
        fun e => .inr ⟨⟨e, rfl⟩, rfl, rfl⟩
    rcases hspec.leads hanswer with ⟨hreply, hkept'⟩ | ⟨⟨e, hreply⟩, htable, hstorage⟩
    · obtain rfl := hreply
      refine .present hkept' ?_
      rw [houtside]
      exact hnew _ _ hholds
    · obtain rfl := hreply
      exact (Stands.present hkept hholds).of_same htable hstorage houtside
  | missing hnone hunlisted hholds =>
    have hspec : Keeps (Storage.Memory.Flaky N.mayFail) Registry.anyRequest
        (fun e m => (∃ e', e.1 = .error e') ∧ e.2 = w.table ∧ m = w.storage)
        (Registry.answer (.update c) w.table) w.storage :=
      Registry.keeps_update_of_missing hnone fun e => ⟨⟨e, rfl⟩, rfl, rfl⟩
    obtain ⟨⟨e, hreply⟩, htable, hstorage⟩ := hspec.leads hanswer
    obtain rfl := hreply
    exact (Stands.missing hnone hunlisted hholds).of_same htable hstorage houtside

/-- Removing leaves no row. -/
theorem answers_remove {reply : Except RegistryError Unit} (hstands : Stands id P w)
    (hnew : ∀ o s, P o s → Q none s) (h : N.answers (.registry (.remove id)) w reply w₁) :
    Called id P Q reply w₁ := by
  obtain ⟨hanswer, houtside⟩ := h
  have hspec : Keeps (Storage.Memory.Flaky N.mayFail) Registry.anyRequest
      (fun e m =>
        (e.1 = .ok () ∧ e.2.row? id = none ∧ Unlisted id e.2 m) ∨
          ((∃ e', e.1 = .error e') ∧ e.2 = w.table ∧
            Registry.storedRow? id m = Registry.storedRow? id w.storage ∧
            (w.table.row? id = none → m = w.storage)))
      (Registry.answer (.remove id) w.table) w.storage :=
    Registry.keeps_remove (fun t' m' hnone hunlisted => .inl ⟨rfl, hnone, hunlisted⟩)
      fun e m' hm hsame => .inr ⟨⟨e, rfl⟩, rfl, hm, hsame⟩
  rcases hspec.leads hanswer with
    ⟨hreply, hnone, hunlisted⟩ | ⟨⟨e, hreply⟩, htable, hstored, hstorage⟩
  · obtain rfl := hreply
    refine .missing hnone hunlisted ?_
    rw [houtside]
    cases hstands with
    | present _ hholds => exact hnew _ _ hholds
    | missing _ _ hholds => exact hnew _ _ hholds
  · obtain rfl := hreply
    have hsame : w₁.table = w.table := htable
    cases hstands with
    | present hkept hholds =>
      -- The oracle may be out of the stored order, which `Stands` does not ask for.
      exact .present ⟨hsame ▸ hkept.inTable, hstored.trans hkept.inStorage, hkept.named⟩
        (houtside ▸ hholds)
    | missing hnone hunlisted hholds =>
      exact (Stands.missing hnone hunlisted hholds).of_same hsame (hstorage hnone) houtside

/-! ## Calls -/

open Management (Call)

/-- Nothing is asked of the requests of a call. -/
abbrev anyAction : Surroundings.Request → World φ → Prop := fun _ _ => True

/-- A request to the registry as part of a call. -/
theorem keeps_registry (r : Registry.Request) (post : r.Reply → World φ → Prop)
    (hpost : ∀ reply, N.Unaffected id (post reply))
    (h : ∀ reply w₁, N.answers (.registry r) w reply w₁ → post reply w₁) :
    Keeps (N.around id) anyAction post (Surroundings.ask (.registry r)) w := by
  refine ⟨trivial, ?_⟩
  rintro reply w' ⟨w₁, hanswer, hstirs⟩
  exact hpost reply _ _ hstirs (h reply w₁ hanswer)

/-- A quiet request in front of the rest of a call. -/
theorem keeps_call_quiet {α : Type} {r : Surroundings.Request} {f : r.Reply → Call α}
    {post : Except ServiceError α → World φ → Prop} {J : World φ → Prop}
    (hquiet : r.quiet) (hJ : N.Unaffected id J) (hw : J w)
    (h : ∀ reply w', J w' → Keeps (N.around id) anyAction post (f reply).run w') :
    Keeps (N.around id) anyAction post
      ((liftM (Surroundings.ask r) : Call r.Reply) >>= f).run w :=
  Attempt.keeps_lift_bind.mpr (keeps_quiet hquiet trivial hJ hw h)

variable {α : Type} {auth : Authorization} {caller : Management.Caller}

/-- Whoever is not authorized changes nothing. -/
theorem keeps_authorized {call : Call α} (hstands : Stands id P w)
    (h : Keeps (N.around id) anyAction (Called id P Q) call.run w) :
    Keeps (N.around id) anyAction (Called id P Q)
      (Management.authorize auth caller >>= fun _ => call).run w := by
  refine Attempt.keeps_bind.mpr ?_
  cases hadmits : auth.admits caller with
  | true =>
    simp only [Management.authorize, hadmits]
    exact h
  | false =>
    simp only [Management.authorize, hadmits]
    exact hstands

/-- A call that waits for the lock. -/
theorem keeps_locked {call : Call α} (hP : N.Settled P) (hQ : N.Settled Q)
    (hstands : Stands id P w)
    (h : ∀ w', Stands id P w' → Keeps (N.around id) anyAction (Called id P Q) call.run w') :
    Keeps (N.around id) anyAction (Called id P Q) (Management.locked id call).run w := by
  refine Program.keeps_bind.mpr (keeps_quiet (r := .slot id) trivial trivial hP.stands hstands
    fun slot w' hstands => ?_)
  refine Program.keeps_bind.mpr (keeps_quiet (r := .take slot) trivial trivial hP.stands hstands
    fun _ w' hstands => ?_)
  refine Program.keeps_bind.mpr ((h w' hstands).mono fun result w' hcalled => ?_)
  exact Program.keeps_bind.mpr (keeps_quiet (r := .release slot) trivial trivial
    (called_unaffected hP hQ result) hcalled fun _ w' hcalled => hcalled)

/-- A change of the registry and the event that tells of it. -/
theorem keeps_change {change : Call Unit} {e : Event} {f : Unit → Call α} (hQ : N.Settled Q)
    (h : Keeps (N.around id) anyAction (Called id P Q) change.run w)
    (hf : ∀ w', Stands id Q w' → Keeps (N.around id) anyAction (Called id P Q) (f ()).run w') :
    Keeps (N.around id) anyAction (Called id P Q)
      (change >>= fun _ => (liftM (Surroundings.emit e) : Call Unit) >>= f).run w := by
  refine Attempt.keeps_bind.mpr (h.mono fun result w' hcalled => ?_)
  cases result with
  | error _ => exact hcalled
  | ok _ =>
    exact keeps_call_quiet (r := .emit e) trivial hQ.stands hcalled
      fun _ w' hstands => hf w' hstands

/-- A call that registers an oracle. -/
theorem keeps_register (hc : c.id = id) (hP : N.Settled P) (hQ : N.Settled Q)
    (hstands : Stands id P w) (hnew : ∀ s, P none s → Q (some ⟨c, .initial⟩) s) :
    Keeps (N.around id) anyAction (Called id P Q) (Management.register auth caller c).run w := by
  refine keeps_authorized hstands (keeps_change hQ ?_ fun w' h => h)
  refine Attempt.keeps_adapt.mpr ?_
  refine (keeps_registry (.register c) (Called _ P Q) (called_unaffected hP hQ)
    fun reply w₁ h => answers_register hc hstands hnew h).mono fun reply w' h => ?_
  cases reply <;> exact h

/-- A call that replaces a configuration. -/
theorem keeps_update (hc : c.id = id) (hP : N.Settled P) (hQ : N.Settled Q)
    (hstands : Stands id P w)
    (hnew : ∀ row s, P (some row) s → Q (some ⟨c, carriedOver row c⟩) s) :
    Keeps (N.around id) anyAction (Called id P Q) (Management.update auth caller c).run w := by
  subst hc
  refine keeps_authorized hstands (keeps_locked hP hQ hstands fun w' hstands => ?_)
  refine Attempt.keeps_bind.mpr (Attempt.keeps_adapt.mpr ?_)
  refine (keeps_registry (.update c) (Called _ P Q) (called_unaffected hP hQ)
    fun reply w₁ h => answers_update rfl hstands hnew h).mono fun reply w' h => ?_
  cases reply with
  | error _ => exact h
  | ok _ =>
    exact Attempt.keeps_lift.mpr
      (keeps_quiet (r := .emit _) trivial trivial hQ.stands h fun _ w' h => h)

/-- A call that takes an oracle out. -/
theorem keeps_remove (hP : N.Settled P) (hQ : N.Settled Q) (hstands : Stands id P w)
    (hnew : ∀ o s, P o s → Q none s) :
    Keeps (N.around id) anyAction (Called id P Q) (Management.remove auth caller id).run w := by
  refine keeps_authorized hstands ?_
  refine Attempt.keeps_bind.mpr ((keeps_locked hP hQ hstands fun w' hstands => ?_).mono
    fun result w' hcalled => ?_)
  · refine Attempt.keeps_adapt.mpr ?_
    refine (keeps_registry (.remove id) (Called _ P Q) (called_unaffected hP hQ)
      fun reply w₁ h => answers_remove hstands hnew h).mono fun reply w' h => ?_
    cases reply <;> exact h
  · cases result with
    | error _ => exact hcalled
    | ok _ =>
      refine keeps_call_quiet (r := .forget id) trivial hQ.stands hcalled fun _ w' h => ?_
      refine keeps_call_quiet (r := .leave id) trivial hQ.stands h fun _ w' h => ?_
      exact Attempt.keeps_lift.mpr
        (keeps_quiet (r := .emit _) trivial trivial hQ.stands h fun _ w' h => h)

/-- Bookkeeping that counts as aligned remembers the round of the feed and nothing else. -/
theorem aligned_same {latest : FeedRound} {value : Option Decimal} {b b' : Bookkeeping}
    (h : b' = Management.aligned latest value ∨
      b' = b ∧ (Management.aligned latest value == b) = true) :
    (Management.aligned latest value).Same b' := by
  rcases h with rfl | ⟨rfl, hsame⟩
  · exact ⟨rfl, rfl, rfl, rfl, rfl, rfl⟩
  · exact Bookkeeping.same_of_beq hsame

/-- Aligning an oracle with its feed starts its bookkeeping over at the round that the feed told, of
which something may be known. -/
theorem keeps_resync {T : Destination → FeedRound → φ → Prop} (hP : N.Settled P)
    (hQ : N.Settled Q) (hT : ∀ d latest s s', N.moves s s' → T d latest s → T d latest s')
    (hstands : Stands id P w)
    (hread : ∀ row s s' reply, P (some row) s →
      N.feed (.latestRound row.config.destination) s reply s' →
        P (some row) s' ∧ ∀ latest, reply = .ok latest → T row.config.destination latest s')
    (hnew : ∀ row b latest value s, P (some row) s → T row.config.destination latest s →
      (Management.aligned latest value).Same b → Q (some ⟨row.config, b⟩) s) :
    Keeps (N.around id) anyAction (Called id P Q) (Management.resync auth caller id).run w := by
  refine keeps_authorized hstands (keeps_locked hP hQ hstands fun w' hstands => ?_)
  refine Attempt.keeps_bind.mpr (Attempt.keeps_adapt.mpr ?_)
  cases hstands with
  | missing hnone hunlisted hholds =>
    exact keeps_row_of_missing trivial hP.stands (.missing hnone hunlisted hholds) hnone
      fun w' hstands => hstands
  | @present row hkept hholds =>
    obtain ⟨c, b⟩ := row
    let K : Assertion φ := fun b s => P (some ⟨c, b⟩) s
    have hK : N.Stable K := by
      intro b s s' hmoves h
      exact hP _ _ _ hmoves h
    have hpresent : ∀ w, Holds id c K w → Stands id P w := by
      rintro w ⟨b, hkept, h⟩
      exact .present hkept h
    have hholds : Holds id c K w' := ⟨b, hkept, hholds⟩
    -- What is known when the feed has told its latest round, if it has.
    let told (e : Except PublishError FeedRound) : Assertion φ := fun b s =>
      K b s ∧ ∀ latest, e = .ok latest → T c.destination latest s
    have htold : ∀ e, N.Stable (told e) := by
      rintro e b s s' hmoves ⟨h, ht⟩
      exact ⟨hK _ _ _ hmoves h, fun latest he => hT _ _ _ _ hmoves (ht latest he)⟩
    have hlatest : ∀ b s, K b s → Keeps N.onFeed (fun _ _ => True)
        (fun e s' => told e b s') (Feed.latestRound c.destination).run s := by
      intro b s h
      refine ⟨trivial, ?_⟩
      rintro reply s' ⟨s₁, hfeed, hmoves⟩
      exact htold _ _ _ _ hmoves (hread ⟨c, b⟩ s s₁ reply h hfeed)
    refine keeps_row trivial hK hholds fun b w' hholds => ?_
    have hholds := hholds.mono fun _ _ h => h.2
    refine Attempt.keeps_bind.mpr (Attempt.keeps_adapt.mpr
      (keeps_feed (Q := told) (fun _ _ _ => trivial) hholds hlatest fun e w' hholds => ?_))
    cases e with
    | error e => exact hpresent w' (hholds.mono fun _ _ h => h.1)
    | ok latest =>
      refine Attempt.keeps_bind.mpr (Attempt.keeps_adapt.mpr (Attempt.keeps_ofExcept.mpr ?_))
      cases Management.valueOf c.destination latest with
      | error e => exact hpresent w' (hholds.mono fun _ _ h => h.1)
      | ok value =>
        refine Attempt.keeps_bind.mpr (Attempt.keeps_adapt.mpr ?_)
        refine keeps_revise (Q := fun _ b s => Q (some ⟨c, b⟩) s) (R := K) trivial
          (fun _ b s s' hmoves h => hQ _ _ _ hmoves h) hK hholds
          (fun b b' s h hb' =>
            hnew ⟨c, b⟩ b' latest value s h.1 (h.2 latest rfl) (aligned_same hb'))
          (fun b s h _ => h.1) (fun b w' hholds => ?_) fun e w' hholds => hpresent w' hholds
        have hstands : Stands id Q w' := by
          obtain ⟨b', hkept, h⟩ := hholds
          exact .present hkept h
        exact keeps_call_quiet (r := .emit _) trivial hQ.stands hstands fun _ w' h => h

end PriceOracle
