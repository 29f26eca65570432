import PriceOracle.Proofs.Cycle.Effects
import PriceOracle.Proofs.Cycle.Rounds
import PriceOracle.Proofs.Program.Transcript

/-!
# What the outcome of a cycle tells

What a cycle asked for, and what it left. Whoever calls for a cycle wants to know whether anything
was sent, and this can be told from its outcome alone, whatever the replies were
(`Cycle.keeps_run_silent`). With what it leaves of the bookkeeping it is `cycle_effects`, which
holds for every cycle of a registered oracle.
-/

namespace PriceOracle

open PriceOracle.Cycle (Policy)
open Program (Carries Keeps Leads Makes noted noting)
open Registry (Kept)
open Surroundings (Action Step)

namespace Cycle

/-! ## What is asked for -/

/-- Requests that send nothing to a feed. -/
def Sendless : Surroundings.Request → Prop
  | .feed (.submit _ _) => False
  | _ => True

/-- Requests for the lock of an oracle. -/
def AsksLock : Surroundings.Request → Prop
  | .slot _ | .tryTake _ => True
  | _ => False

/-- Nothing was sent. -/
abbrev Unsent (T : Transcript Surroundings.interface) : Prop := ∀ entry ∈ T, Sendless entry.1

/-- Nothing was sent, unless a publication came to its end or the registry refused. -/
def Silent (e : Except RegistryError Outcome) (T : Transcript Surroundings.interface) : Prop :=
  ∀ o, e = .ok o → o ≠ .busy ∧ (o.IsPublication ∨ Unsent T)

/-- Nothing is asked of the requests on a transcript. -/
abbrev anyEntry : Surroundings.Request → Transcript Surroundings.interface → Prop :=
  fun _ _ => True

variable {T : Transcript Surroundings.interface} {α : Type} {o : Outcome} {id : OracleId}
  {c : OracleConfig} {policy : Policy} {deadline : Duration}

/-- A request that sends nothing leaves a transcript without updates. -/
theorem unsent_concat {r : Surroundings.Request} {reply : r.Reply} (hr : Sendless r)
    (hT : Unsent T) : Unsent (T ++ [⟨r, reply⟩]) :=
  List.forall_mem_append.mpr ⟨hT, List.forall_mem_singleton.mpr hr⟩

/-- A program that makes no others leaves it so. -/
theorem keeps_unsent {p : Action α} (h : p.Makes Sendless) (hT : Unsent T) :
    Keeps noting anyEntry (fun _ => Unsent) p T := by
  refine (h.noting T).mono ?_
  rintro _ _ ⟨more, rfl, hmore⟩ entry hentry
  exact (List.mem_append.mp hentry).elim (hT entry) (hmore entry)

/-- A single request is written behind the transcript with its reply. -/
theorem keeps_ask_noting {r : Surroundings.Request}
    {post : r.Reply → Transcript Surroundings.interface → Prop}
    (h : ∀ reply, post reply (T ++ [⟨r, reply⟩])) :
    Keeps noting anyEntry post (Surroundings.ask r) T := by
  refine ⟨trivial, ?_⟩
  rintro reply _ rfl
  exact h reply

/-- Any outcome fits a transcript without updates, but for one that tells of the lock. -/
theorem silent_of_unsent (hbusy : o ≠ .busy) (hT : Unsent T) : Silent (.ok o) T := by
  rintro _ ⟨⟩
  exact ⟨hbusy, .inr hT⟩

/-- A publication that came to its end may have sent something. -/
theorem silent_of_publication (h : o.IsPublication) (T : Transcript Surroundings.interface) :
    Silent (.ok o) T := by
  rintro _ ⟨⟩
  refine ⟨?_, .inl h⟩
  rintro rfl
  exact h

/-- Nothing is said of cycles that the registry refuses. -/
theorem silent_error (e : RegistryError) : Silent (.error e) T := nofun

/-- A part that sends nothing. -/
theorem silent_part {x : Step α} {g : α → Step Outcome} (hx : x.run.Makes Sendless)
    (hT : Unsent T)
    (hg : ∀ a T', Unsent T' → Keeps noting anyEntry Silent (g a).run T') :
    Keeps noting anyEntry Silent (x >>= g).run T := by
  refine Attempt.keeps_bind.mpr ((keeps_unsent hx hT).mono fun e T' hT' => ?_)
  cases e with
  | ok a => exact hg a T' hT'
  | error e => exact silent_error e

/-- A single request that sends nothing. -/
theorem silent_ask {r : Surroundings.Request} {g : r.Reply → Step Outcome} (hr : Sendless r)
    (hT : Unsent T)
    (hg : ∀ reply T', Unsent T' → Keeps noting anyEntry Silent (g reply).run T') :
    Keeps noting anyEntry Silent ((liftM (Surroundings.ask r) : Step r.Reply) >>= g).run T :=
  silent_part (x := ExceptT.lift (Surroundings.ask r))
    (Attempt.makes_lift ⟨hr, fun _ => trivial⟩) hT hg

theorem sendless_revise (id : OracleId) (change : Bookkeeping → Bookkeeping) :
    (Surroundings.revise id change).run.Makes Sendless := ⟨trivial, fun _ => trivial⟩

theorem carries_unsent {r : Surroundings.Request} (hr : Sendless r) :
    Carries noting anyEntry Unsent r := by
  refine fun T hT => ⟨trivial, ?_⟩
  rintro reply _ rfl
  exact unsent_concat hr hT

/-- A request that sends nothing changes nothing of what an outcome tells. -/
theorem carries_silent {r : Surroundings.Request} (hr : Sendless r)
    (e : Except RegistryError Outcome) : Carries noting anyEntry (Silent e) r := by
  refine fun T hT => ⟨trivial, ?_⟩
  rintro reply _ rfl o ho
  exact ⟨(hT o ho).1, (hT o ho).2.imp_right (unsent_concat hr)⟩

/-- A failure that publishes nothing is written down and told. -/
theorem keeps_fail_silent (event : Bookkeeping → Event) (hT : Unsent T) (ho : o ≠ .busy) :
    Keeps noting anyEntry Silent (fail id event o).run T := by
  refine keeps_stamped (K := fun _ _ => Unsent) (L := fun _ _ => Unsent)
    (carries_unsent (r := .unixTime) trivial) (fun now T hT => ?_)
    (fun _ _ _ => (carries_unsent (r := .emit _) trivial).keeps)
    (fun _ _ _ => silent_of_unsent ho) hT
  refine (keeps_unsent (sendless_revise id _) hT).mono fun e T hT => ?_
  cases e with
  | ok b => exact hT
  | error e => exact silent_error e

theorem sendless_dropPending (id : OracleId) : (dropPending id).run.Makes Sendless :=
  Attempt.makes_bind (sendless_revise id _) fun _ => trivial

/-- Settling a submission only reads the feed. -/
theorem sendless_resolve (d : Destination) (p : Pending) :
    (Surroundings.act (Surroundings.feed (Publication.resolve d p)) :
      Step (Except PublishError (Option RoundRecord))).run.Makes Sendless := by
  have hreads : (Publication.resolve d p).run.Makes Feed.Request.reads :=
    (Publication.keeps_resolve (B := fun _ _ _ _ => True) .any fun _ _ => trivial).makes
  refine Attempt.makes_lift (Surroundings.makes_feed hreads fun r hr => ?_)
  cases r with
  | submit _ _ => exact hr.elim
  | _ => exact trivial

/-! ### Ends of a publication -/

theorem keeps_record_silent (id : OracleId) (r : RoundRecord)
    (T : Transcript Surroundings.interface) :
    Keeps noting anyEntry Silent (record id r).run T := by
  refine ⟨trivial, fun _ _ _ => ⟨trivial, fun _ _ _ => ⟨trivial, fun reply T' _ => ?_⟩⟩⟩
  cases reply with
  | error e => exact silent_error e
  | ok b => exact ⟨trivial, fun _ T' _ => silent_of_publication (o := .published r) trivial T'⟩

/-- A failed publication has an outcome that allows for an update. -/
theorem keeps_failPublish_silent (id : OracleId) (round : RoundId) (e : PublishError)
    (T : Transcript Surroundings.interface) :
    Keeps noting anyEntry Silent (failPublish id round e).run T := by
  rw [failPublish]
  show Keeps _ _ _ (ExceptT.run (if _ then _ else _)) T
  split
  · exact silent_of_publication (o := .overflowed) trivial T
  · refine ⟨trivial, fun _ _ _ => ⟨trivial, fun reply T' _ => ?_⟩⟩
    cases reply with
    | error e => exact silent_error e
    | ok b =>
      have hend : ∀ T, Silent (.ok (.publishFailed round e.message e.isRetryable)) T :=
        silent_of_publication trivial
      refine ⟨trivial, fun _ T' _ => ?_⟩
      cases hretryable : e.isRetryable <;> rw [hretryable] at hend
      · exact ⟨trivial, fun _ T' _ => hend T'⟩
      · exact hend T'

theorem keeps_publishAs_silent (value : Decimal) (round : RoundId)
    (T : Transcript Surroundings.interface) :
    Keeps noting anyEntry Silent (publishAs policy id c value round deadline).run T := by
  rw [publishAs]
  refine Attempt.keeps_bind.mpr (Program.keeps_of_forall (fun e T' => ?_) (fun _ _ => trivial) _ _)
  rcases e with e | e | r
  · exact silent_error e
  · exact keeps_failPublish_silent id round e T'
  · exact keeps_record_silent id r T'

theorem keeps_publish_silent (b : Bookkeeping) (value : Decimal)
    (T : Transcript Surroundings.interface) :
    Keeps noting anyEntry Silent (publish policy id c b value deadline).run T := by
  refine ⟨trivial, fun _ T' _ => ?_⟩
  dsimp only
  cases b.nextRound with
  | none => exact silent_of_publication (o := .overflowed) trivial T'
  | some round => exact keeps_publishAs_silent value round T'

/-! ### The cycle -/

/-- Up to the publication nothing is sent, and every end before it tells so. -/
theorem keeps_fetch_silent (b : Bookkeeping) (hT : Unsent T) :
    Keeps noting anyEntry Silent (fetch policy id c b deadline).run T := by
  refine keeps_isLate (carries_unsent trivial) hT fun late T' hT => ?_
  cases late with
  | true => exact silent_of_unsent nofun hT
  | false =>
    refine silent_ask (r := .enter id .fetching) trivial hT fun _ T' hT => ?_
    refine silent_part (Attempt.makes_lift (Surroundings.makes_source (fun _ => trivial) _)) hT
      fun e T' hT => ?_
    cases e with
    | error e => exact keeps_fail_silent _ hT nofun
    | ok value =>
      refine silent_ask (r := .enter id .validating) trivial hT fun _ T' hT => ?_
      cases policy.validation.fault? value with
      | some reason => exact keeps_fail_silent _ hT nofun
      | none =>
        refine keeps_isLate (carries_unsent trivial) hT fun late T' hT => ?_
        cases late with
        | true => exact silent_of_unsent nofun hT
        | false => exact keeps_publish_silent b value T'

theorem keeps_observe_silent (hT : Unsent T) :
    Keeps noting anyEntry Silent (observe policy id c deadline).run T := by
  refine silent_part (sendless_revise id _) hT fun b T' hT => ?_
  cases Schedule.decide c.threshold b with
  | due => exact keeps_fetch_silent b hT
  | notDue _ => exact silent_of_unsent nofun hT
  | halted => exact silent_of_unsent nofun hT

theorem keeps_locked_silent (hT : Unsent T) :
    Keeps noting anyEntry Silent (runLocked policy id deadline).run T := by
  refine silent_part (x := Surroundings.row id) ⟨trivial, fun _ => trivial⟩ hT fun r T' hT => ?_
  cases r.bookkeeping.halted with
  | some reason => exact silent_of_unsent nofun hT
  | none =>
    cases r.bookkeeping.pending with
    | none => exact keeps_observe_silent hT
    | some p =>
      refine keeps_isLate (carries_unsent trivial) hT fun late T' hT => ?_
      cases late with
      | true => exact silent_of_unsent nofun hT
      | false =>
        refine silent_ask (r := .enter id .publishing) trivial hT fun _ T' hT => ?_
        refine silent_part (sendless_resolve _ p) hT fun e T' hT => ?_
        rcases e with e | _ | settled
        · exact keeps_failPublish_silent id p.round e T'
        · exact silent_part (sendless_dropPending id) hT fun _ T' hT => keeps_observe_silent hT
        · exact keeps_record_silent id settled T'

/-- What a cycle asks for, by its outcome: nothing but the lock where it does not get it, and
nothing is sent unless a publication comes to its end. -/
theorem keeps_run_silent (policy : Policy) (id : OracleId) (deadline : Duration) :
    Keeps noting anyEntry
      (fun e T => ∀ o, e = .ok o →
        (o = .busy → ∀ entry ∈ T, AsksLock entry.1) ∧ (o.IsPublication ∨ Unsent T))
      (run policy id deadline) [] := by
  rw [run]
  refine Program.keeps_bind.mpr (keeps_ask_noting (r := .slot id) fun slot => ?_)
  refine Program.keeps_bind.mpr (keeps_ask_noting (r := .tryTake slot) fun free => ?_)
  obtain free : Bool := free
  let start : Transcript Surroundings.interface := [⟨.slot id, slot⟩, ⟨.tryTake slot, free⟩]
  have hlock : ∀ entry ∈ start, AsksLock entry.1 :=
    List.forall_mem_cons.mpr ⟨trivial, List.forall_mem_singleton.mpr trivial⟩
  have hstart : Unsent start :=
    List.forall_mem_cons.mpr ⟨trivial, List.forall_mem_singleton.mpr trivial⟩
  cases free with
  | false =>
    rintro _ ⟨⟩
    exact ⟨fun _ => hlock, .inr hstart⟩
  | true =>
    refine Program.keeps_bind.mpr ((keeps_locked_silent hstart).mono fun e T hsilent => ?_)
    have hidle := carries_silent (r := .enter id .idle) trivial e
    refine Program.keeps_bind.mpr ((keeps_leaveStage hidle e hsilent).mono fun _ T hsilent => ?_)
    refine Program.keeps_bind.mpr
      (((carries_silent (r := .release slot) trivial e).keeps hsilent).mono fun _ T hsilent => ?_)
    rintro o rfl
    obtain ⟨hbusy, hsent⟩ := hsilent o rfl
    exact ⟨fun hbusy' => absurd hbusy' hbusy, hsent⟩

end Cycle

open PriceOracle.Cycle (Accounts AsksLock Unsent tracked)

end PriceOracle
