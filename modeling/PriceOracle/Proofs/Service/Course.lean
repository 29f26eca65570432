import PriceOracle.Proofs.Cycle.Requests
import PriceOracle.Proofs.Registry.Company

/-!
# What calls and cycles announce

Calls and cycles tell what they did as events. `Event.Shown` says what the registry wrote before an
event may be told; a transcript has the events that were told, the submissions that were accepted
and the oracles that were added.

`Announcement.SoFar` is how far a call or a cycle has come, amid whatever others do: these three,
and what the registry answered it last. There is one lemma for each kind of request:
`SoFar.mute` for those that have nothing to do with it, `keeps_emit`, `keeps_registry`, and
`keeps_submitRound` for the use of a feed that sends.
-/

namespace PriceOracle

open Program (Keeps Leads Makes noted)
open Registry (Arises Kept Listed Meddled Standpoint Unlisted amid carriedOver serves)
open Storage (Memory)
open Surroundings (Action Step)

/-! ## What an event announces -/

namespace Registry

/-- The bookkeeping of an oracle was changed, in the table and in storage. -/
def Written (id : OracleId) (P : Bookkeeping → Bookkeeping → Prop) (s s' : Table × Memory) : Prop :=
  ∃ c b b', s.1.row? id = some ⟨c, b⟩ ∧ Kept id ⟨c, b'⟩ s'.1 s'.2 ∧ P b b'

end Registry

open Registry (Written)

/-- What the registry wrote before an event, with the configurations that were put. -/
def Event.Shown (configs : List OracleConfig) (s s' : Table × Memory) : Event → Prop
  | .registered id =>
    ∃ c ∈ configs, c.id = id ∧ Kept id ⟨c, .initial⟩ s'.1 s'.2 ∧ Listed id s'.1 s'.2
  | .updated id => ∃ c ∈ configs, c.id = id ∧ ∃ current, s.1.row? id = some current ∧
      Kept id ⟨c, carriedOver current c⟩ s'.1 s'.2
  | .removed id =>
    s'.1.row? id = none ∧ Registry.storedRow? id s'.2 = none ∧ Unlisted id s'.1 s'.2
  | .fetchFailed id _ failures =>
    Written id (fun b b' => b'.failures = failures ∧ ∃ now, b' = Cycle.afterFailure now b) s s'
  | .valueRejected id _ _ => Written id (fun b b' => ∃ now, b' = Cycle.afterFailure now b) s s'
  | .publishSubmitted id round hash => Written id
      (fun _ b' => ∃ p, b'.pending = some p ∧ p.txHash = hash ∧ p.round = round) s s'
  | .roundPublished id r => Written id (fun _ b' =>
      b'.lastRound = r.round ∧ b'.failures = 0 ∧ b'.cycles = 0 ∧ b'.pending = none) s s'
  | .publishFailed id _ reason retryable => Written id (fun b b' => ∃ now,
      b' = Cycle.afterPublishFailure now (if retryable then none else some reason) b) s s'
  | .halted id reason => Written id (fun _ b' => b'.halted = some reason) s s'
  | .resynced id round => Written id (fun _ b' =>
      b'.lastRound = round ∧ b'.halted = none ∧ b'.pending = none) s s'

/-! ## What a transcript tells -/

/-- The event that is told. -/
def Surroundings.Request.told? : (r : Surroundings.Request) → r.Reply → Option Event
  | .emit e, _ => some e
  | _, _ => none

/-- The submission that is accepted. -/
def Surroundings.Request.accepted? : (r : Surroundings.Request) → r.Reply → Option TxHash
  | .feed (.submit _ _), .ok hash => some hash
  | _, _ => none

/-- The oracle that is added. -/
def Surroundings.Request.added? : (r : Surroundings.Request) → r.Reply → Option OracleId
  | .registry r, reply => r.registered? reply
  | _, _ => none

namespace Announcement

/-- The requests so far. -/
abbrev Course := Transcript Surroundings.interface

/-- The events, in their order. -/
def told : Course → List Event := Transcript.picks Surroundings.Request.told?

/-- The hashes of the submissions that were accepted, in their order. -/
def accepted : Course → List TxHash := Transcript.picks Surroundings.Request.accepted?

/-- The oracles that were added, in their order. -/
def added : Course → List OracleId := Transcript.picks Surroundings.Request.added?

/-! ## How far a call or a cycle has come -/

/-- A property of what the registry answered last: how it stood before, and how after. -/
abbrev Sight := Table × Memory → Table × Memory → Prop

/-- How far a call or a cycle has come. -/
structure SoFar (V : Sight) (E : List Event) (A : List TxHash) (I : List OracleId)
    (x : Standpoint × Course) : Prop where
  arises : Arises x.1.now
  seen : V x.1.before x.1.after
  told : told x.2 = E
  accepted : accepted x.2 = A
  added : added x.2 = I

/-- An event is told only when it is shown. -/
def Permits (configs : List OracleConfig) : Surroundings.Request → Standpoint × Course → Prop
  | .emit e, x => e.Shown configs x.1.before x.1.after
  | _, _ => True

/-- Requests that neither ask the registry nor tell nor send anything. -/
def Mute : Surroundings.Request → Prop
  | .registry _ | .emit _ | .feed (.submit _ _) => False
  | _ => True

/-- Requests that the registry answers. -/
def AsksRegistry : Surroundings.Request → Prop
  | .registry _ => True
  | _ => False

/-- How the registry answered. -/
def Answered (r : Registry.Request) (reply : r.Reply) : Sight :=
  fun s s' => Arises s ∧ serves (.registry r) s reply s'

variable {V : Sight} {E : List Event} {A : List TxHash} {I : List OracleId}
  {x y : Standpoint × Course} {configs : List OracleConfig} {α β : Type}
  {r : Surroundings.Request} {reply : r.Reply}

/-- What a request adds. -/
theorem SoFar.step (h : SoFar V E A I x) (hcourse : y.2 = x.2 ++ [⟨r, reply⟩]) :
    Announcement.told y.2 = E ++ (r.told? reply).toList ∧
      Announcement.accepted y.2 = A ++ (r.accepted? reply).toList ∧
      Announcement.added y.2 = I ++ (r.added? reply).toList := by
  rw [hcourse, ← h.told, ← h.accepted, ← h.added]
  exact ⟨Transcript.picks_concat _ _ _ _, Transcript.picks_concat _ _ _ _,
    Transcript.picks_concat _ _ _ _⟩

/-- A request that the registry does not answer leaves what it answered last. -/
theorem SoFar.view (h : SoFar V E A I x) (hr : ¬AsksRegistry r)
    (hreply : amid r x.1 reply y.1) : Arises y.1.now ∧ V y.1.before y.1.after := by
  have hviews : y.1.before = x.1.before ∧ y.1.after = x.1.after ∧ Meddled x.1.now y.1.now := by
    cases r with
    | registry _ => exact absurd trivial hr
    | _ => exact hreply
  obtain ⟨hbefore, hafter, hmeddled⟩ := hviews
  refine ⟨hmeddled.arises h.arises, ?_⟩
  rw [hbefore, hafter]
  exact h.seen

theorem SoFar.mute (h : SoFar V E A I x) (hr : Mute r) (hreply : noted amid r x reply y) :
    SoFar V E A I y := by
  have hnothing : ¬AsksRegistry r ∧ r.told? reply = none ∧ r.accepted? reply = none ∧
      r.added? reply = none := by
    cases r with
    | registry _ | emit _ => exact hr.elim
    | feed r =>
      cases r with
      | submit _ _ => exact hr.elim
      | _ => exact ⟨not_false, rfl, rfl, rfl⟩
    | _ => exact ⟨not_false, rfl, rfl, rfl⟩
  obtain ⟨hasks, htold, haccepted, hadded⟩ := hnothing
  have hstep := h.step hreply.2
  rw [htold, haccepted, hadded] at hstep
  simp only [Option.toList_none, List.append_nil] at hstep
  have hview := h.view hasks hreply.1
  exact ⟨hview.1, hview.2, hstep.1, hstep.2.1, hstep.2.2⟩

theorem permits_mute (hr : Mute r) (x : Standpoint × Course) : Permits configs r x := by
  cases r with
  | emit _ => exact hr.elim
  | _ => exact trivial

/-- What is mute leaves all as it was. -/
theorem keeps_mute {p : Action α} (hp : p.Makes Mute) (h : SoFar V E A I x) :
    Keeps (noted amid) (Permits configs) (fun _ => SoFar V E A I) p x :=
  hp.keeps (fun _ x hr _ => permits_mute hr x) (fun _ _ _ _ hr h hreply => h.mute hr hreply) h

/-- A mute request. -/
theorem keeps_ask (hr : Mute r) (h : SoFar V E A I x) :
    Keeps (noted amid) (Permits configs) (fun _ => SoFar V E A I) (Surroundings.ask r) x :=
  keeps_mute ⟨hr, fun _ => trivial⟩ h

/-- An event is told. -/
theorem keeps_emit {e : Event} {post : Unit → Standpoint × Course → Prop} (h : SoFar V E A I x)
    (hshown : ∀ s s', V s s' → e.Shown configs s s')
    (hpost : ∀ y, SoFar V (E ++ [e]) A I y → post () y) :
    Keeps (noted amid) (Permits configs) post (Surroundings.emit e) x := by
  refine ⟨hshown _ _ h.seen, fun reply y hreply => ?_⟩
  obtain ⟨htold, haccepted, hadded⟩ := h.step (r := .emit e) hreply.2
  have hview := h.view (r := .emit e) not_false hreply.1
  exact hpost y ⟨hview.1, hview.2, htold, haccepted.trans (List.append_nil A),
    hadded.trans (List.append_nil I)⟩

/-- The registry is asked for something else than to add an oracle. -/
theorem SoFar.unadded {r : Registry.Request} {reply : r.Reply}
    (h : SoFar V E A (I ++ (r.registered? reply).toList) x) (hnone : r.registered? reply = none) :
    SoFar V E A I x := by
  rwa [hnone, Option.toList_none, List.append_nil] at h

/-- The registry is asked. -/
theorem keeps_registry {r : Registry.Request} {post : r.Reply → Standpoint × Course → Prop}
    (h : SoFar V E A I x)
    (hpost : ∀ reply y, SoFar (Answered r reply) E A (I ++ (r.registered? reply).toList) y →
      post reply y) :
    Keeps (noted amid) (Permits configs) post (Surroundings.ask (.registry r)) x := by
  refine ⟨trivial, fun reply y hreply => ?_⟩
  obtain ⟨⟨hserves, hbefore, hmeddled⟩, hcourse⟩ := hreply
  obtain ⟨htold, haccepted, hadded⟩ := h.step (r := .registry r) hcourse
  refine hpost reply y ⟨hmeddled.arises (h.arises.served hserves), ?_,
    htold.trans (List.append_nil E), haccepted.trans (List.append_nil A), hadded⟩
  rw [hbefore]
  exact ⟨h.arises, hserves⟩

/-! ## Parts of calls and cycles -/

variable {ε : Type}

/-- A mute part, and what follows. -/
theorem keeps_mute_bind {p : Action α} {f : α → Attempt Surroundings.interface ε β}
    {post : Except ε β → Standpoint × Course → Prop} (hp : p.Makes Mute) (h : SoFar V E A I x)
    (hf : ∀ a y, SoFar V E A I y → Keeps (noted amid) (Permits configs) post (f a).run y) :
    Keeps (noted amid) (Permits configs) post
      ((liftM p : Attempt Surroundings.interface ε α) >>= f).run x :=
  Attempt.keeps_lift_bind.mpr ((keeps_mute hp h).mono fun a y hy => hf a y hy)

/-- A mute request, and what follows. -/
theorem keeps_ask_bind {r : Surroundings.Request} {f : r.Reply → Attempt Surroundings.interface ε β}
    {post : Except ε β → Standpoint × Course → Prop} (hr : Mute r) (h : SoFar V E A I x)
    (hf : ∀ reply y, SoFar V E A I y →
      Keeps (noted amid) (Permits configs) post (f reply).run y) :
    Keeps (noted amid) (Permits configs) post
      ((liftM (Surroundings.ask r) : Attempt Surroundings.interface ε r.Reply) >>= f).run x :=
  keeps_mute_bind ⟨hr, fun _ => trivial⟩ h hf

/-- An event, and what follows. -/
theorem keeps_emit_bind {e : Event} {f : Unit → Attempt Surroundings.interface ε β}
    {post : Except ε β → Standpoint × Course → Prop} (h : SoFar V E A I x)
    (hshown : ∀ s s', V s s' → e.Shown configs s s')
    (hf : ∀ y, SoFar V (E ++ [e]) A I y →
      Keeps (noted amid) (Permits configs) post (f ()).run y) :
    Keeps (noted amid) (Permits configs) post
      ((liftM (Surroundings.emit e) : Attempt Surroundings.interface ε Unit) >>= f).run x :=
  Attempt.keeps_lift_bind.mpr (keeps_emit h hshown hf)

/-- Whatever was seen. -/
abbrev anySight : Sight := fun _ _ => True

theorem SoFar.blind (h : SoFar V E A I x) : SoFar anySight E A I x :=
  ⟨h.arises, trivial, h.told, h.accepted, h.added⟩

/-- A change of the bookkeeping is seen when it went well, with what is stored then. -/
theorem keeps_revise {id : OracleId} {change : Bookkeeping → Bookkeeping}
    {R : Bookkeeping → Bookkeeping → Prop}
    {post : Except RegistryError Bookkeeping → Standpoint × Course → Prop}
    (h : SoFar V E A I x) (hdone : ∀ b, R b (change b))
    (hsame : ∀ b, (change b == b) = true → R b b)
    (hok : ∀ b y, SoFar (Written id fun b₀ b' => change b₀ = b ∧ R b₀ b') E A I y → post (.ok b) y)
    (herror : ∀ e y, SoFar anySight E A I y → post (.error e) y) :
    Keeps (noted amid) (Permits configs) post (Surroundings.revise id change).run x := by
  refine keeps_registry (r := .revise id change) h fun reply y hy => ?_
  have hy := hy.unadded rfl
  cases reply with
  | error e => exact herror e y hy.blind
  | ok b =>
    obtain ⟨harises, hserves⟩ := hy.seen
    obtain ⟨current, b', hrow, rfl, hkept, hb'⟩ := Registry.serves_revise harises hserves
    refine hok _ y ⟨hy.arises, ⟨_, _, b', hrow, hkept, rfl, ?_⟩, hy.told, hy.accepted, hy.added⟩
    rcases hb' with rfl | ⟨rfl, hequal⟩
    · exact hdone _
    · exact hsame _ hequal

/-- The row of an oracle is told, which stands under its own id. -/
theorem keeps_row {id : OracleId} {post : Except RegistryError Row → Standpoint × Course → Prop}
    (h : SoFar V E A I x)
    (herror : ∀ e y, SoFar anySight E A I y → post (.error e) y)
    (hok : ∀ row y, row.config.id = id → SoFar anySight E A I y → post (.ok row) y) :
    Keeps (noted amid) (Permits configs) post (Surroundings.row id).run x := by
  refine keeps_registry (r := .row id) h fun reply y hy => ?_
  have hy := hy.unadded rfl
  cases reply with
  | error e => exact herror e y hy.blind
  | ok row =>
    obtain ⟨harises, hserves⟩ := hy.seen
    have htold := (Registry.served_as_planned hserves (Registry.ok_of_answer row)).1
    exact hok row y (harises.kept (Registry.row_of_rowOf htold.symm)).named hy.blind

/-- Reading a feed is mute. -/
theorem mute_reads {use : Feed.Use α} (h : use.run.Makes Feed.Request.reads) :
    (Surroundings.feed use).Makes Mute := by
  refine Surroundings.makes_feed h fun r hr => ?_
  cases r with
  | submit _ _ => exact hr.elim
  | _ => exact trivial

theorem mute_resolve (d : Destination) (p : Pending) :
    (Surroundings.feed (Publication.resolve d p)).Makes Mute :=
  mute_reads (Publication.keeps_resolve (B := fun _ _ _ _ => True) .any fun _ _ => trivial).makes

theorem mute_confirm (depth : UInt64) (d : Destination) (s : Submission) :
    (Surroundings.feed (Publication.confirmRound depth d s)).Makes Mute :=
  mute_reads (Publication.keeps_confirmRound (B := fun _ _ _ _ => True) .any depth d s).makes

/-- A submission is accepted at most once, and last. -/
theorem keeps_submitRound {d : Destination} {value : Decimal} {round : RoundId}
    {post : Except PublishError Submission → Standpoint × Course → Prop} (h : SoFar V E A I x)
    (herror : ∀ e y, SoFar V E A I y → post (.error e) y)
    (hok : ∀ s y, s.round = round → SoFar V E (A ++ [s.txHash]) I y → post (.ok s) y) :
    Keeps (noted amid) (Permits configs) post
      (Surroundings.feed (Publication.submitRound d value round)) x := by
  refine Surroundings.keeps_use ?_
  rw [Publication.submitRound]
  refine Attempt.keeps_bind.mpr ?_
  cases Publication.encode d value with
  | error e => exact herror e x h
  | ok answer =>
    refine Attempt.keeps_bind.mpr ⟨trivial, fun reply y hreply => ?_⟩
    have hy : SoFar V E A I y := h.mute (r := .feed (.latestRound d)) trivial hreply
    cases reply with
    | error e => exact herror e y hy
    | ok current =>
      refine Attempt.keeps_bind.mpr ?_
      cases Publication.checkNext current.round round with
      | error e => exact herror e y hy
      | ok _ =>
        refine Attempt.keeps_bind.mpr ⟨trivial, fun reply z hreply => ?_⟩
        -- Only this request can add an accepted hash; a send that is refused adds none.
        obtain ⟨htold, haccepted, hadded⟩ := hy.step (r := .feed (.submit d answer)) hreply.2
        have hview := hy.view (r := .feed (.submit d answer)) not_false hreply.1
        cases reply with
        | error e =>
          exact herror e z ⟨hview.1, hview.2, htold.trans (List.append_nil E),
            haccepted.trans (List.append_nil A), hadded.trans (List.append_nil I)⟩
        | ok hash =>
          exact hok ⟨hash, round, value, answer⟩ z rfl ⟨hview.1, hview.2,
            htold.trans (List.append_nil E), haccepted, hadded.trans (List.append_nil I)⟩

end Announcement

end PriceOracle
