import PriceOracle.Proofs.Service.Run

/-!
# What may happen to an oracle

A statement about all runs says little unless some run gets to where it applies, and a condition is
the right one only if it comes up. `Reaches` says that a program may run to a point, from any world
in which an oracle has a row and outside of the service all is as given. It composes along programs,
so that a path through a cycle is put together from one lemma for each kind of request.
-/

namespace PriceOracle

open Program (Leads)
open Registry (Kept)
open Surroundings (Action)

variable {φ : Type} {N : Nature φ} {id : OracleId} {α β : Type} {row : Row} {s s' : φ}

/-- The rows of a table are those of one oracle. -/
def Table.Solo (t : Table) (id : OracleId) : Prop := ∀ entry ∈ t.rows, entry.2.config.id = id

theorem Table.Solo.set {t : Table} {order : List OracleId} (h : t.Solo id)
    (hnamed : row.config.id = id) : (Table.mk order (t.rows.set id row)).Solo id := by
  intro entry hmem
  rcases Dict.mem_set hmem with hnew | hold
  · rw [hnew]
    exact hnamed
  · exact h entry hold

/-- An oracle that is alone shares its feed with no other. -/
theorem Table.Solo.owner {t : Table} {c : OracleConfig} (h : t.Solo id) (hc : c.id = id) :
    t.owner? c = none := by
  rw [Table.owner?, Option.map_eq_none_iff, List.find?_eq_none]
  intro entry hmem
  simp [h entry hmem, hc]

/-- A program may lead an oracle from one row, and one state outside, to others. No other oracle
need come up meanwhile. -/
def Reaches (N : Nature φ) (id : OracleId) (p : Action α) (row : Row) (s : φ) (q : Action α)
    (row' : Row) (s' : φ) : Prop :=
  ∀ w : World φ, Kept id row w.table w.storage → w.outside = s →
    ∃ w', Kept id row' w'.table w'.storage ∧ w'.outside = s' ∧
      (w.table.Solo id → w'.table.Solo id) ∧ Leads (N.around id) p w q w'

theorem Nature.Stirs.refl (hmoves : ∀ s, N.moves s s) (w : World φ) : N.Stirs id w w :=
  ⟨.refl _ _ _, hmoves _⟩

namespace Reaches

theorem refl (p : Action α) (row : Row) (s : φ) : Reaches N id p row s p row s :=
  fun w hkept houtside => ⟨w, hkept, houtside, fun h => h, .here p w⟩

theorem of_eq {p q : Action α} (h : p = q) : Reaches N id p row s q row s := by
  rw [h]
  exact .refl q row s

theorem trans {p q q' : Action α} {row' row'' : Row} {s'' : φ}
    (h : Reaches N id p row s q row' s') (h' : Reaches N id q row' s' q' row'' s'') :
    Reaches N id p row s q' row'' s'' := by
  intro w hkept houtside
  obtain ⟨w₁, hkept₁, houtside₁, hsolo, hrun⟩ := h w hkept houtside
  obtain ⟨w₂, hkept₂, houtside₂, hsolo', hrun'⟩ := h' w₁ hkept₁ houtside₁
  exact ⟨w₂, hkept₂, houtside₂, fun h => hsolo' (hsolo h), hrun.trans hrun'⟩

theorem bind {p q : Action α} {row' : Row} (h : Reaches N id p row s q row' s')
    (f : α → Action β) : Reaches N id (p.bind f) row s (q.bind f) row' s' := by
  intro w hkept houtside
  obtain ⟨w₁, hkept₁, houtside₁, hsolo, hrun⟩ := h w hkept houtside
  exact ⟨w₁, hkept₁, houtside₁, hsolo, hrun.bind f⟩

/-- A program that runs to its end is followed by the next. -/
theorem andThen {p : Action α} {a : α} {f : α → Action β} {q : Action β} {row' row'' : Row}
    {s'' : φ} (h : Reaches N id p row s (.done a) row' s')
    (h' : Reaches N id (f a) row' s' q row'' s'') : Reaches N id (p.bind f) row s q row'' s'' :=
  (h.bind f).trans h'

/-- A part that went well is followed by the rest. -/
theorem resume {ε : Type} {a : α} {f : α → Attempt Surroundings.interface ε β}
    {q : Action (Except ε β)} {row' : Row} (h : Reaches N id (f a).run row s q row' s') :
    Reaches N id (Program.bind (.done (.ok a)) (ExceptT.bindCont f)) row s q row' s' := h

/-! ## Requests -/

/-- A quiet request may be answered in any way, and the outside may go on. -/
theorem quiet {r : Surroundings.Request} {next : r.Reply → Action α} (hquiet : r.quiet)
    (reply : r.Reply) (hmoves : N.moves s s') :
    Reaches N id (.ask r next) row s (next reply) row s' := by
  rintro w hkept rfl
  refine ⟨{ w with outside := s' }, hkept, rfl, fun h => h, .reply ⟨w, ?_, .refl _ _ _, hmoves⟩⟩
  cases r with
  | registry _ | feed _ => exact hquiet.elim
  | _ => exact rfl

theorem feed {r : Feed.Request} {next : r.Reply → Action α} {reply : r.Reply} {s₁ : φ}
    (hfeed : N.feed r s reply s₁) (hmoves : N.moves s₁ s') :
    Reaches N id (.ask (.feed r) next) row s (next reply) row s' := by
  rintro w hkept rfl
  exact ⟨{ w with outside := s' }, hkept, rfl, fun h => h,
    .reply ⟨{ w with outside := s₁ }, ⟨hfeed, rfl, rfl⟩, .refl _ _ _, hmoves⟩⟩

theorem tell {next : Except RegistryError Row → Action α} (hmoves : ∀ s, N.moves s s) :
    Reaches N id (.ask (.registry (.row id)) next) row s (next (.ok row)) row s := by
  intro w hkept houtside
  refine ⟨w, hkept, houtside, fun h => h, .reply ⟨w, ⟨?_, rfl⟩, .refl hmoves w⟩⟩
  have htold : Registry.answer (.row id) w.table = .done (.ok row, w.table) :=
    congrArg (fun e => Program.done (e, w.table)) (Registry.rowOf_of_kept hkept)
  rw [htold]
  exact .here _ _

variable {c : OracleConfig} {b : Bookkeeping} {change : Bookkeeping → Bookkeeping}
  {next : Except RegistryError Bookkeeping → Action α}

/-- What is left of a change of the bookkeeping when the row was told. -/
theorem revise_eq {t : Table} {m : Storage.Memory} (hkept : Kept id ⟨c, b⟩ t m)
    (hchanged : (change b == b) = false) :
    Registry.answer (.revise id change) t =
      (Registry.settle t do
        Registry.persist ⟨c, change b⟩
        return (t.setRow id ⟨c, change b⟩, change b)) := by
  show Registry.settle t (Registry.revise id change t) = _
  rw [Registry.revise, Registry.rowOf_of_kept hkept]
  show Registry.settle t (if (change b == b) = true then _ else _) = _
  rw [hchanged]
  rfl

/-- The bookkeeping may be changed. -/
theorem revise (change : Bookkeeping → Bookkeeping) (hmoves : ∀ s, N.moves s s)
    (hchanged : (change b == b) = false) :
    Reaches N id (.ask (.registry (.revise id change)) next) ⟨c, b⟩ s (next (.ok (change b)))
      ⟨c, change b⟩ s := by
  intro w hkept houtside
  let w' : World φ := ⟨w.table.setRow id ⟨c, change b⟩,
    Dict.set (Storage.recordKey Registry.rowSpace c.id)
      (Storage.encode (⟨c, change b⟩ : Row).toJson) w.storage, w.outside⟩
  have hnamed : c.id = id := hkept.named
  refine ⟨w', ?_, houtside, fun h => h.set hnamed, .reply ⟨w', ⟨?_, rfl⟩, .refl hmoves w'⟩⟩
  · subst hnamed
    exact Kept.written rfl
  · rw [revise_eq hkept hchanged]
    exact .reply (B := Storage.Memory.Flaky N.mayFail) (.inl rfl)

/-- A change of the bookkeeping may fail where writing it down may. -/
theorem revise_fails (change : Bookkeeping → Bookkeeping) (hmoves : ∀ s, N.moves s s)
    (hchanged : (change b == b) = false)
    (hfails : ∀ m, N.mayFail (.set (Storage.recordKey Registry.rowSpace id)
      (Storage.encode (⟨c, change b⟩ : Row).toJson)) m) (e : StorageError) :
    Reaches N id (.ask (.registry (.revise id change)) next) ⟨c, b⟩ s
      (next (.error (.storage e))) ⟨c, b⟩ s := by
  intro w hkept houtside
  refine ⟨w, hkept, houtside, fun h => h, .reply ⟨w, ⟨?_, rfl⟩, .refl hmoves w⟩⟩
  obtain rfl : c.id = id := hkept.named
  rw [revise_eq hkept hchanged]
  exact .reply (B := Storage.Memory.Flaky N.mayFail) (.inr ⟨hfails _, rfl, e, nofun, rfl⟩)

/-- A read of a source may give what the source may give. -/
theorem source (hmoves : ∀ s, N.moves s s) {B : Behaviour Source.interface Unit}
    {read : Program Source.interface α} {a : α} {u u' : Unit}
    (hread : Leads B read u (.done a) u') :
    Reaches N id (Surroundings.source read) row s (.done a) row s := by
  suffices h : ∀ {q}, Leads B read u q u' →
      Reaches N id (Surroundings.source read) row s (Surroundings.source q) row s from h hread
  intro q hq
  clear hread
  -- The induction is on the requests that the read makes.
  induction hq with
  | here p _ => exact .refl _ _ _
  | ask _ _ ih => exact trans (quiet (r := .source _) trivial _ (hmoves s)) ih

/-- A use of a feed may give what the feed may give. -/
theorem use {use : Feed.Use α} {e : Except PublishError α}
    (huse : Leads N.onFeed use.run s (.done e) s') :
    Reaches N id (Surroundings.feed use) row s (.done e) row s' := by
  suffices h : ∀ {p q : Program Feed.interface (Except PublishError α)},
      Leads N.onFeed p s q s' → Reaches N id (Surroundings.feed (ExceptT.mk p)) row s
        (Surroundings.feed (ExceptT.mk q)) row s' from h huse
  intro p q hq
  clear huse
  -- The induction is on the requests that the use makes.
  induction hq with
  | here p _ => exact .refl _ _ _
  | ask hreply _ ih =>
    obtain ⟨_, hfeed, hmoves⟩ := hreply
    exact trans (feed hfeed hmoves) ih

end Reaches

/-! ## Management -/

/-- An oracle may be aligned with a feed that tells its latest round. -/
theorem reaches_resync {c : OracleConfig} {b : Bookkeeping} {latest : FeedRound}
    {value : Option Decimal} (hmoves : ∀ s, N.moves s s)
    (hlatest : N.feed (.latestRound c.destination) s (.ok latest) s)
    (hvalue : Management.valueOf c.destination latest = .ok value)
    (hchanged : (Management.aligned latest value == b) = false) :
    Reaches N id (Management.resync .anyone none id).run ⟨c, b⟩ s
      (.done (.ok (Management.aligned latest value))) ⟨c, Management.aligned latest value⟩ s := by
  refine .trans (.quiet (r := .slot id) trivial (0 : Slot) (hmoves s)) ?_
  refine .trans (.quiet (r := .take 0) trivial () (hmoves s)) ?_
  refine .trans (.tell hmoves) (.trans (.feed hlatest (hmoves s)) ?_)
  show Reaches N id (Program.bind (Program.bind (Program.bind (Program.bind
    (Program.done (Management.valueOf c.destination latest)) _) _) _) _) _ _ _ _ _
  rw [hvalue]
  refine .trans (.revise (fun _ => Management.aligned latest value) hmoves hchanged) ?_
  refine .trans (.quiet (r := .emit _) trivial () (hmoves s)) ?_
  exact .quiet (r := .release 0) trivial () (hmoves s)

/-! ## Registration -/

/-- A service that starts may register an oracle whose configuration is sound. It is then the only
one. -/
theorem Nature.registers_solo (hmoves : ∀ s, N.moves s s) {c : OracleConfig}
    (hcheck : Registry.check c = .ok ()) (outside : φ) :
    ∃ w, N.Step c.id (.fresh outside) (.registered c (.ok c.id)) w ∧
      Kept c.id ⟨c, .initial⟩ w.table w.storage ∧ Registry.Listed c.id w.table w.storage ∧
      w.outside = outside ∧ w.table.Solo c.id := by
  let row : Row := ⟨c, .initial⟩
  let m₁ := Dict.set (Storage.recordKey Registry.rowSpace c.id) (Storage.encode row.toJson) []
  let m₂ := Dict.set (Storage.recordKey Registry.indexSpace Registry.indexId)
    (Storage.encode (.arr ([c.id].map .str))) m₁
  let w : World φ := ⟨Table.empty.append c.id row, m₂, outside⟩
  have hanswer : Leads (Storage.Memory.Flaky N.mayFail) (Registry.answer (.register c) .empty) []
      (.done (.ok (), w.table)) m₂ := by
    show Leads _ (Registry.settle .empty ((·, ()) <$> Registry.register c .empty)) _ _ _
    rw [Registry.register, hcheck]
    exact .ask (t := m₁) (.inl rfl) (.reply (B := Storage.Memory.Flaky N.mayFail) (.inl rfl))
  have hstep : N.Step c.id (.fresh outside) (.registered c (.ok c.id)) w := by
    refine .register .anyone none c rfl ?_
    refine .ask (t := w) ⟨w, ⟨hanswer, rfl⟩, .refl hmoves w⟩ ?_
    have hemit : N.around c.id (.emit (.registered c.id)) w () w := ⟨w, rfl, .refl hmoves w⟩
    exact .reply hemit
  have hlisted : c.id ∈ [c.id] := List.mem_singleton_self _
  refine ⟨w, hstep, ⟨Table.row_append_self _ _ _, ?_, rfl⟩,
    ⟨hlisted, [c.id], Registry.storedOrder_set_index _ _, hlisted⟩, rfl, ?_⟩
  · show Registry.storedRow? c.id m₂ = some row
    rw [Registry.storedRow_set_index]
    exact Registry.storedRow_set_self row []
  · intro entry hmem
    obtain rfl := List.mem_singleton.mp hmem
    rfl

theorem Nature.registers (hmoves : ∀ s, N.moves s s) {c : OracleConfig}
    (hcheck : Registry.check c = .ok ()) (outside : φ) :
    ∃ w, N.Step c.id (.fresh outside) (.registered c (.ok c.id)) w ∧
      Kept c.id ⟨c, .initial⟩ w.table w.storage ∧ Registry.Listed c.id w.table w.storage ∧
      w.outside = outside := by
  obtain ⟨w, hstep, hkept, hlisted, houtside, -⟩ := N.registers_solo hmoves hcheck outside
  exact ⟨w, hstep, hkept, hlisted, houtside⟩

/-! ## Updates -/

/-- The configuration of an oracle that is alone may be replaced by any that is sound. -/
theorem Nature.updates (hmoves : ∀ s, N.moves s s) (c' : OracleConfig) {c : OracleConfig}
    {b : Bookkeeping} {w : World φ} (hkept : Kept id ⟨c, b⟩ w.table w.storage)
    (hsolo : w.table.Solo id)
    (hc : c'.id = id) (hcheck : Registry.check c' = .ok ()) :
    ∃ w', N.Step id w (.updated (some c) c' (.ok ())) w' ∧
      Kept id ⟨c', Registry.carriedOver ⟨c, b⟩ c'⟩ w'.table w'.storage ∧
      w'.outside = w.outside := by
  subst hc
  let row : Row := ⟨c', Registry.carriedOver ⟨c, b⟩ c'⟩
  let w' : World φ := ⟨w.table.setRow c'.id row,
    Dict.set (Storage.recordKey Registry.rowSpace c'.id) (Storage.encode row.toJson) w.storage,
    w.outside⟩
  have hanswer : Leads (Storage.Memory.Flaky N.mayFail) (Registry.answer (.update c') w.table)
      w.storage (.done (.ok (), w'.table)) w'.storage := by
    show Leads _ (Registry.settle w.table ((·, ()) <$> Registry.update c' w.table)) _ _ _
    rw [Registry.update, hcheck, Registry.rowOf_of_kept hkept, Registry.checkOwner,
      hsolo.owner rfl]
    exact .reply (B := Storage.Memory.Flaky N.mayFail) (.inl rfl)
  have hquiet {r : Surroundings.Request} {next : r.Reply → Action (Except ServiceError Unit)}
      (hquiet : r.quiet) (reply : r.Reply) (w : World φ) :
      Leads (N.around c'.id) (.ask r next) w (next reply) w := by
    refine .reply ⟨w, ?_, .refl hmoves w⟩
    cases r with
    | registry _ | feed _ => exact hquiet.elim
    | _ => exact rfl
  -- No request of the call fails, so it runs through to its release of the lock.
  have hrun :
      Leads (N.around c'.id) (Management.update .anyone none c').run w (.done (.ok ())) w' := by
    refine .trans (hquiet (r := .slot c'.id) trivial (0 : Slot) w) ?_
    refine .trans (hquiet (r := .take 0) trivial () w) ?_
    refine .trans (.reply ⟨w', ⟨hanswer, rfl⟩, .refl hmoves w'⟩) ?_
    refine .trans (hquiet (r := .emit _) trivial () w') ?_
    exact hquiet (r := .release 0) trivial () w'
  have hstep := Nature.Step.update .anyone none c' rfl hrun
  rw [hkept.inTable] at hstep
  exact ⟨w', hstep, Kept.written rfl, rfl⟩

end PriceOracle
