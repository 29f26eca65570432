import PriceOracle.Proofs.Chain.Watch
import PriceOracle.Proofs.Service.Run

/-!
# Cycles on a chain

A cycle is the only step that sends, so it is where two transactions of an oracle could come to be
in flight. What a watch knows between cycles (`Watch.Rests`) is kept by cycles, by restarts and by
all that does not concern the oracle, and no cycle sends an update while a transaction that is
watched is in flight. This is shown for any watch, since it does not matter which transactions are
watched, nor why they are known.
-/

namespace PriceOracle

open Chain (Moves nature)
open Program (Keeps Leads)
open Registry (Kept Listed)
open Surroundings.Request (permitted)

namespace Watch

variable (W : Watch)

/-- What is known between cycles of an oracle with a configuration of some kind. -/
def Rests (kind : OracleConfig → Prop) : Standing Chain
  | none, s => W.Known s
  | some row, s =>
    kind row.config ∧ (Phase.ofPending row.bookkeeping.pending).Fits row.bookkeeping ∧
      W.Tells row.config.destination (.ofPending row.bookkeeping.pending) row.bookkeeping s

variable {W} {shared : Prop} {mayFail : Storage.Request → Storage.Memory → Prop} {id : OracleId}
  {c : OracleConfig} {b : Bookkeeping} {s : Chain} {w w' : World Chain} {policy : Cycle.Policy}
  {deadline : Duration} {kind : OracleConfig → Prop}

theorem Rests.known {o : Option Row} (h : W.Rests kind o s) : W.Known s := by
  cases o with
  | none => exact h
  | some row => exact h.2.2.1

theorem settled_rests (hsound : W.Sound shared mayFail id) :
    (nature W.key shared mayFail).Settled (W.Rests kind) := by
  intro o s s' hmoves h
  cases o with
  | none => exact Known.moves h hmoves
  | some row => exact ⟨h.1, h.2.1, tells_moves hsound h.2.2 hmoves⟩

/-- A row on which nothing is pending is at rest where nothing has to be known. -/
theorem rests_of_clear (hkind : kind c) (hpending : b.pending = none)
    (h : W.Tells c.destination .clear b s) : W.Rests kind (some ⟨c, b⟩) s := by
  rw [Rests, hpending]
  exact ⟨hkind, hpending, h⟩

theorem rests_of_end {hsound : W.Sound shared mayFail id} {next : Option RoundId}
    {e : Except RegistryError Outcome} (hkind : kind c)
    (h : (W.outline hsound c policy.depth).End next e b s) : W.Rests kind (some ⟨c, b⟩) s := by
  unfold Outline.End at h
  cases hpublished : Cycle.published? e with
  | none =>
    rw [hpublished] at h
    exact ⟨hkind, h.2⟩
  | some r =>
    rw [hpublished] at h
    obtain ⟨-, ⟨hpending, hlast, -⟩, hknown, hfact⟩ := h
    refine rests_of_clear hkind hpending ⟨hknown, ?_⟩
    intro hkey
    obtain ⟨honly, hlatest⟩ := hfact hkey
    constructor
    · exact .inl honly
    · -- The round that was recorded is the last round now.
      intro hsynced
      rw [hlast]
      exact hlatest hsynced

/-- A cycle of a registered oracle. -/
theorem keeps_cycle_of_kept (policy : Cycle.Policy) (deadline : Duration)
    (hsound : W.Sound shared mayFail id)
    (hkept : Kept id ⟨c, b⟩ w.table w.storage) (hrests : W.Rests kind (some ⟨c, b⟩) w.outside) :
    Keeps ((nature W.key shared mayFail).around id) (permitted W.permit)
      (fun _ w' => Holds id c (fun b s => W.Rests kind (some ⟨c, b⟩) s) w')
      (Cycle.run policy id deadline) w := by
  have hrest : Holds id c ((W.outline hsound c policy.depth).Rest b.nextRound) w :=
    ⟨b, hkept, rfl, hrests.2⟩
  exact (Outline.keeps_run hrest deadline).mono fun _ _ hended =>
    Holds.mono hended fun _ _ => rests_of_end hrests.1

/-- A cycle sends nothing while a transaction that is watched is in flight. -/
theorem keeps_cycle (hsound : W.Sound shared mayFail id) (hstands : Stands id (W.Rests kind) w) :
    Keeps ((nature W.key shared mayFail).around id) (permitted W.permit)
      (fun _ w' => Stands id (W.Rests kind) w') (Cycle.run policy id deadline) w := by
  cases hstands with
  | @present row hkept hrests =>
    refine (keeps_cycle_of_kept policy deadline hsound hkept hrests).mono ?_
    rintro _ w' ⟨b, hkept, hrests⟩
    exact .present hkept hrests
  | missing hnone hunlisted hrests =>
    have hmissing : Keeps _ _ _ (Cycle.run policy id deadline) w := keeps_run_standing W.permit
      (settled_rests hsound) (.missing hnone hunlisted hrests) hnone
    exact (hmissing.allowing fun _ _ h => h.1).mono fun _ _ h => h.1

/-- Cycles, restarts and whatever does not concern an oracle keep what is known of it. -/
theorem step_rests {h : Happening} (hsound : W.Sound shared mayFail id)
    (hstep : (nature W.key shared mayFail).Step id w h w') (hcall : ¬h.IsCall)
    (hstands : Stands id (W.Rests kind) w) : Stands id (W.Rests kind) w' := by
  cases hstep with
  | cycle policy deadline hrun => exact (keeps_cycle hsound hstands).leads hrun
  | restart hload hmoves =>
    exact hstands.restart (settled_rests hsound) (fun _ _ hrests => hrests.known) hload hmoves
  | elsewhere hstirs => exact (settled_rests hsound).stands _ _ hstirs hstands
  | register | update | remove | resync => exact absurd trivial hcall

/-- Whenever a cycle sends an update of the feed, nothing that is watched is in flight. -/
theorem not_inFlight_of_asks {d : Destination} {answer : Uint256} {h : TxHash}
    (hsound : W.Sound shared mayFail id) (hstands : Stands id (W.Rests kind) w)
    (hasks : (nature W.key shared mayFail).Asks id w (.submit d answer) w') (hkey : d.key = W.key)
    (hwatched : W.hashes h) : ¬w'.outside.InFlight h :=
  permit_of_asks (fun _ _ => keeps_cycle hsound hstands) hasks hkey h hwatched

end Watch

end PriceOracle
