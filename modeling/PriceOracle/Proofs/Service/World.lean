import PriceOracle.Surroundings
import PriceOracle.Proofs.Registry.Rows

/-!
# The world around one oracle

A `World` is a registry with its storage, and whatever lies outside of the service. What happens
outside is left to a `Nature`: how feeds answer, what moves on its own, and which requests to
storage may fail. Sources, clocks, delays and locks may answer anything.

`Nature.around` is the behaviour of the surroundings as the cycles of one oracle see them: each
request is answered at once, and before the next one all else may go on. Other oracles may change
whatever does not concern this one (`Nature.Stirs`).

`Holds` is the form of every assertion about the oracle between two requests: a property of its
bookkeeping, on which table and storage agree, and of what lies outside.
-/

namespace PriceOracle

open Program (Carries Keeps Leads)
open Registry (Kept Listed Spared)

/-- The registry of a service, its storage, and what lies outside. -/
structure World (φ : Type) where
  table : Table
  storage : Storage.Memory
  outside : φ

/-- What may happen outside of a service. -/
structure Nature (φ : Type) where
  /-- How feeds answer. -/
  feed : Behaviour Feed.interface φ
  /-- What may happen on its own. -/
  moves : φ → φ → Prop
  /-- Which requests to storage may fail. -/
  mayFail : Storage.Request → Storage.Memory → Prop

namespace Nature

variable {φ : Type} (N : Nature φ) (id : OracleId)

/-- How the surroundings answer. The registry is answered from the table and writes to storage;
feeds are outside; all other requests may be answered in any way and change nothing. -/
def answers : Behaviour Surroundings.interface (World φ)
  | .registry r, w, reply, w' =>
    Leads (Storage.Memory.Flaky N.mayFail) (Registry.answer r w.table) w.storage
      (.done (reply, w'.table)) w'.storage ∧ w'.outside = w.outside
  | .feed r, w, reply, w' =>
    N.feed r w.outside reply w'.outside ∧ w'.table = w.table ∧ w'.storage = w.storage
  | _, w, _, w' => w' = w

/-- What may go on between two requests made for an oracle: its row is spared. -/
structure Stirs (w w' : World φ) : Prop where
  spared : Spared id w.table w.storage w'.table w'.storage
  moved : N.moves w.outside w'.outside

/-- The surroundings as the cycles of an oracle see them. -/
def around : Behaviour Surroundings.interface (World φ) :=
  fun r w reply w' => ∃ w₁, N.answers r w reply w₁ ∧ N.Stirs id w₁ w'

/-- Feeds as the cycles of an oracle see them. -/
def onFeed : Behaviour Feed.interface φ :=
  fun r s reply s' => ∃ s₁, N.feed r s reply s₁ ∧ N.moves s₁ s'

/-- The write that replaces the bookkeeping of an oracle may fail. -/
def MayLose (c : OracleConfig) (b b' : Bookkeeping) : Prop :=
  ∃ m, Registry.storedRow? id m = some ⟨c, b⟩ ∧
    N.mayFail (.set (Storage.recordKey Registry.rowSpace id)
      (Storage.encode (⟨c, b'⟩ : Row).toJson)) m

/-- The write of a submission that was accepted never fails. -/
def NeverLoses : Prop :=
  ∀ c b p, b.pending = none → ¬N.MayLose id c b { b with pending := some p }

end Nature

/-! ## Assertions -/

variable {φ : Type} {N : Nature φ} {id : OracleId} {c : OracleConfig} {α : Type}

/-- A property of the bookkeeping of an oracle and of what lies outside. -/
abbrev Assertion (φ : Type) := Bookkeeping → φ → Prop

/-- An assertion holds of an oracle, on whose row table and storage agree. -/
def Holds (id : OracleId) (c : OracleConfig) (P : Assertion φ) (w : World φ) : Prop :=
  ∃ b, Kept id ⟨c, b⟩ w.table w.storage ∧ P b w.outside

/-- An assertion does not depend on what moves on its own. -/
def Nature.Stable (N : Nature φ) (P : Assertion φ) : Prop :=
  ∀ b s s', N.moves s s' → P b s → P b s'

/-- A fact about a world does not depend on what goes on between requests. -/
def Nature.Unaffected (N : Nature φ) (id : OracleId) (J : World φ → Prop) : Prop :=
  ∀ w w', N.Stirs id w w' → J w → J w'

theorem Holds.mono {P Q : Assertion φ} {w : World φ} (h : Holds id c P w)
    (hPQ : ∀ b s, P b s → Q b s) : Holds id c Q w := by
  obtain ⟨b, hkept, hP⟩ := h
  exact ⟨b, hkept, hPQ b _ hP⟩

theorem Holds.named {P : Assertion φ} {w : World φ} (h : Holds id c P w) : c.id = id := by
  obtain ⟨b, hkept, -⟩ := h
  exact hkept.named

theorem Holds.of_kept {P : Assertion φ} {w : World φ} {b : Bookkeeping} (h : Holds id c P w)
    (hkept : Kept id ⟨c, b⟩ w.table w.storage) : P b w.outside := by
  obtain ⟨b', hkept', hb'⟩ := h
  obtain ⟨⟩ := Option.some.inj (hkept.inTable.symm.trans hkept'.inTable)
  exact hb'

theorem Nature.Stable.holds {P : Assertion φ} (hP : N.Stable P) :
    N.Unaffected id (Holds id c P) := by
  rintro w w' hstirs ⟨b, hkept, hb⟩
  exact ⟨b, hstirs.spared.kept hkept, hP b _ _ hstirs.moved hb⟩

/-! ## Requests -/

/-- Requests that neither the registry nor a feed answers. -/
def Surroundings.Request.quiet : Surroundings.Request → Prop
  | .registry _ | .feed _ => False
  | _ => True

/-- Requests as a cycle makes them: those to feeds are permitted, and all that is asked of the
registry is to tell or to revise a row. -/
def Surroundings.Request.permitted (permit : Feed.Request → φ → Prop) :
    Surroundings.Request → World φ → Prop
  | .feed r, w => permit r w.outside
  | .registry (.row _), _ | .registry (.revise _ _), _ => True
  | .registry _, _ => False
  | _, _ => True

open Surroundings (interface)
open Surroundings.Request (quiet permitted)

theorem answers_quiet {r : Surroundings.Request} (hquiet : r.quiet) {w w' : World φ}
    {reply : r.Reply} (h : N.answers r w reply w') : w' = w := by
  cases r with
  | registry _ | feed _ => exact hquiet.elim
  | _ => exact h

theorem permitted_quiet {permit : Feed.Request → φ → Prop} {r : Surroundings.Request}
    (hquiet : r.quiet) (w : World φ) : r.permitted permit w := by
  cases r with
  | registry _ | feed _ => exact hquiet.elim
  | _ => exact trivial

variable {permit : Feed.Request → φ → Prop} {P Q R : Assertion φ} {w : World φ}

/-- A quiet request changes nothing, and what is unaffected by others still holds. -/
theorem Nature.Unaffected.around_quiet {J : World φ → Prop} {r : Surroundings.Request}
    (hJ : N.Unaffected id J) (hquiet : r.quiet) {reply : r.Reply} {w' : World φ} (hw : J w)
    (hreply : N.around id r w reply w') : J w' := by
  obtain ⟨w₁, hanswer, hstirs⟩ := hreply
  obtain rfl := answers_quiet hquiet hanswer
  exact hJ _ _ hstirs hw

theorem carries_quiet {allow : Surroundings.Request → World φ → Prop} {J : World φ → Prop}
    {r : Surroundings.Request} (hquiet : r.quiet) (hallow : ∀ w, J w → allow r w)
    (hJ : N.Unaffected id J) : Carries (N.around id) allow J r :=
  fun w hw => ⟨hallow w hw, fun _ _ hreply => hJ.around_quiet hquiet hw hreply⟩

theorem keeps_quiet {allow : Surroundings.Request → World φ → Prop} {J : World φ → Prop}
    {r : Surroundings.Request} (hquiet : r.quiet) (hallow : allow r w) (hJ : N.Unaffected id J)
    (hw : J w) {post : r.Reply → World φ → Prop} (hpost : ∀ reply w', J w' → post reply w') :
    Keeps (N.around id) allow post (Surroundings.ask r) w :=
  ⟨hallow, fun reply w' hreply => hpost reply w' (hJ.around_quiet hquiet hw hreply)⟩

/-- A program of quiet requests changes nothing. -/
theorem keeps_source {allow : Surroundings.Request → World φ → Prop} {J : World φ → Prop}
    (hallow : ∀ r w, allow (.source r) w) (hJ : N.Unaffected id J) (hw : J w)
    {read : Program Source.interface α} {post : α → World φ → Prop}
    (hpost : ∀ a w', J w' → post a w') :
    Keeps (N.around id) allow post (Surroundings.source read) w := by
  rw [Surroundings.source]
  -- The induction is on the requests that are still to be made.
  induction read generalizing w with
  | done a => exact hpost a w hw
  | ask r next ih =>
    refine Program.keeps_bind.mpr
      (keeps_quiet (r := .source r) trivial (hallow r w) hJ hw fun reply w' hw' => ?_)
    exact ih reply hw'

/-- A use of a feed. -/
theorem keeps_feed {allow : Surroundings.Request → World φ → Prop} {use : Feed.Use α}
    {Q : Except PublishError α → Assertion φ}
    (hallow : ∀ r w, permit r w.outside → allow (.feed r) w) (hP : Holds id c P w)
    (huse : ∀ b s, P b s → Keeps N.onFeed permit (fun e s' => Q e b s') use.run s)
    {post : Except PublishError α → World φ → Prop}
    (hpost : ∀ e w', Holds id c (Q e) w' → post e w') :
    Keeps (N.around id) allow post (Surroundings.feed use) w := by
  obtain ⟨b, hkept, hb⟩ := hP
  let view (w : World φ) (s : φ) : Prop := Kept id ⟨c, b⟩ w.table w.storage ∧ w.outside = s
  have hthrough : Keeps (N.around id) allow (fun e w' => ∃ s', view w' s' ∧ Q e b s')
      (Surroundings.feed use) w := by
    refine Program.keeps_through ?_ ⟨hkept, rfl⟩ (huse b w.outside hb)
    rintro r s w ⟨hkept, rfl⟩ hpermit
    refine ⟨hallow r w hpermit, ?_⟩
    rintro reply w' ⟨w₁, ⟨hfeed, htable, hstorage⟩, hstirs⟩
    refine ⟨w'.outside, ⟨w₁.outside, hfeed, hstirs.moved⟩, ?_, rfl⟩
    refine hstirs.spared.kept ?_
    rw [htable, hstorage]
    exact hkept
  refine hthrough.mono ?_
  rintro e w' ⟨s', ⟨hkept', rfl⟩, hQ⟩
  exact hpost e w' ⟨b, hkept', hQ⟩

/-- The registry tells the row of an oracle. -/
theorem keeps_row {allow : Surroundings.Request → World φ → Prop}
    (hallow : allow (.registry (.row id)) w) (hstable : N.Stable P) (hP : Holds id c P w)
    {post : Except RegistryError Row → World φ → Prop}
    (hpost : ∀ b w', Holds id c (fun b' s => b' = b ∧ P b' s) w' → post (.ok ⟨c, b⟩) w') :
    Keeps (N.around id) allow post (Surroundings.row id).run w := by
  obtain ⟨b, hkept, hb⟩ := hP
  refine ⟨hallow, ?_⟩
  rintro reply w' ⟨w₁, ⟨hanswer, houtside⟩, hstirs⟩
  have htold : Keeps (Storage.Memory.Flaky N.mayFail) Registry.anyRequest
      (fun e m => e = (.ok ⟨c, b⟩, w.table) ∧ m = w.storage) (Registry.answer (.row id) w.table)
      w.storage := Registry.keeps_row hkept ⟨rfl, rfl⟩
  obtain ⟨hreply, hstorage⟩ := htold.leads hanswer
  obtain ⟨rfl, htable⟩ := Prod.mk.inj hreply
  refine hpost b w' ⟨b, hstirs.spared.kept ?_, rfl, ?_⟩
  · rw [htable, hstorage]
    exact hkept
  · refine hstable b _ _ hstirs.moved ?_
    rw [houtside]
    exact hb

/-- Of an oracle that has no row the registry tells so. -/
theorem keeps_row_of_missing {allow : Surroundings.Request → World φ → Prop} {J : World φ → Prop}
    (hallow : allow (.registry (.row id)) w) (hJ : N.Unaffected id J) (hw : J w)
    (hnone : w.table.row? id = none) {post : Except RegistryError Row → World φ → Prop}
    (hpost : ∀ w', J w' → post (.error (.notFound id)) w') :
    Keeps (N.around id) allow post (Surroundings.row id).run w := by
  refine ⟨hallow, ?_⟩
  rintro reply w' ⟨⟨table, storage, outside⟩, ⟨hanswer, houtside⟩, hstirs⟩
  obtain ⟨hdone, hstorage⟩ := Program.Leads.of_done hanswer
  obtain ⟨htold, htable⟩ := Prod.mk.inj (Program.done.inj hdone)
  rw [Registry.rowOf, hnone] at htold
  obtain rfl := htold
  obtain rfl := htable
  obtain rfl := hstorage
  obtain rfl := houtside
  exact hpost w' (hJ _ _ hstirs hw)

/-- A change of the bookkeeping takes effect or fails and leaves it. A change after which it counts
as the same may leave it, too. -/
theorem keeps_revise {allow : Surroundings.Request → World φ → Prop}
    {change : Bookkeeping → Bookkeeping} {Q : Bookkeeping → Assertion φ}
    (hallow : allow (.registry (.revise id change)) w) (hQ : ∀ b, N.Stable (Q b))
    (hR : N.Stable R) (hP : Holds id c P w)
    (hdone : ∀ b b' s, P b s →
      b' = change b ∨ b' = b ∧ (change b == b) = true → Q b b' s)
    (hlost : ∀ b s, P b s → N.MayLose id c b (change b) → R b s)
    {post : Except RegistryError Bookkeeping → World φ → Prop}
    (hok : ∀ b w', Holds id c (Q b) w' → post (.ok (change b)) w')
    (hfail : ∀ e w', Holds id c R w' → post (.error e) w') :
    Keeps (N.around id) allow post (Surroundings.revise id change).run w := by
  obtain ⟨b, hkept, hb⟩ := hP
  refine ⟨hallow, ?_⟩
  rintro reply w' ⟨w₁, ⟨hanswer, houtside⟩, hstirs⟩
  -- The registry's own answer, before anything else goes on.
  have hspec : Keeps (Storage.Memory.Flaky N.mayFail) Registry.anyRequest
      (fun e m =>
        (e.1 = .ok (change b) ∧ ∃ b', Kept id ⟨c, b'⟩ e.2 m ∧
            (b' = change b ∨ b' = b ∧ (change b == b) = true)) ∨
          ((∃ e', e.1 = .error (.storage e')) ∧ e.2 = w.table ∧ m = w.storage ∧
            N.MayLose id c b (change b)))
      (Registry.answer (.revise id change) w.table) w.storage :=
    Registry.keeps_revise hkept (fun b' t' m' hb' hkept' _ => .inl ⟨rfl, b', hkept', hb'⟩)
      fun hmay e => .inr ⟨⟨e, rfl⟩, rfl, rfl, w.storage, hkept.inStorage, hmay⟩
  rcases hspec.leads hanswer with ⟨hreply, b', hkept', hb'⟩ | ⟨⟨e, hreply⟩, htable, hstorage, hlose⟩
  · obtain rfl := hreply
    refine hok b w' ⟨b', hstirs.spared.kept hkept', ?_⟩
    refine hQ _ _ _ _ hstirs.moved ?_
    rw [houtside]
    exact hdone b b' _ hb hb'
  · obtain rfl := hreply
    have hsame : w₁.table = w.table := htable
    refine hfail _ w' ⟨b, hstirs.spared.kept ?_, ?_⟩
    · rw [hsame, hstorage]
      exact hkept
    · refine hR _ _ _ hstirs.moved ?_
      rw [houtside]
      exact hlost b _ hb hlose

/-- A change that leaves the bookkeeping where it counts as the same. -/
theorem keeps_revise_exact {allow : Surroundings.Request → World φ → Prop}
    {change : Bookkeeping → Bookkeeping} (hallow : allow (.registry (.revise id change)) w)
    (hQ : N.Stable Q) (hR : N.Stable R) (hP : Holds id c P w)
    (hexact : ∀ b s, P b s → (change b == b) = true → change b = b)
    (hdone : ∀ b s, P b s → Q (change b) s)
    (hlost : ∀ b s, P b s → N.MayLose id c b (change b) → R b s)
    {post : Except RegistryError Bookkeeping → World φ → Prop}
    (hok : ∀ b w', Holds id c (fun b' s => b' = b ∧ Q b' s) w' → post (.ok b) w')
    (hfail : ∀ e w', Holds id c R w' → post (.error e) w') :
    Keeps (N.around id) allow post (Surroundings.revise id change).run w := by
  refine keeps_revise (Q := fun b b' s => b' = change b ∧ Q b' s) hallow ?_ hR hP ?_ hlost
    (fun b w' h => hok (change b) w' h) hfail
  · rintro b b' s s' hmoves ⟨hb, h⟩
    exact ⟨hb, hQ _ _ _ hmoves h⟩
  · intro b b' s hb hb'
    have hchanged : b' = change b := by
      rcases hb' with hb' | ⟨hb', hsame⟩
      · exact hb'
      · rw [hb', hexact b s hb hsame]
    refine ⟨hchanged, ?_⟩
    rw [hchanged]
    exact hdone b s hb

end PriceOracle
