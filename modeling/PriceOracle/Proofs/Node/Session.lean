import PriceOracle.Proofs.Node.Calls

/-!
# Calls one after the other

A session is any number of calls of feeds and contracts, on any endpoints and with any answers of
the nodes, that remember what earlier calls of the session did (`Session`). What is remembered is
exactly what was confirmed in the session (`Session.holds_iff`), and an endpoint that is remembered
is not asked for its chain again (`Session.quiet`).

`Session.checked_first`: nothing meant for a chain is asked of a node unless the node answered
before that it serves exactly that chain. Another answer, or none, ends the call in a failure, and
the next call has to ask again.
-/

namespace PriceOracle.Node

open Program (Keeps Leads noting)

/-! ## Calls -/

/-- What nodes are called for. -/
inductive Call where
  | feed (r : Feed.Request)
  | contract (e : Endpoint) (target : Address) (data : List UInt8)

/-- What endpoints are remembered by. -/
inductive Key where
  | feed (e : Endpoint)
  | contract (chainId : UInt64) (url : String)
  deriving DecidableEq

/-- What feeds and contracts remember. -/
structure Remembered where
  feeds : PriceFeed.Known
  contracts : Contract.Known

/-- Whether an endpoint is remembered. -/
def Remembered.holds (m : Remembered) : Key → Bool
  | .feed e => m.feeds.has e
  | .contract chainId url => m.contracts.contains (chainId, url)

namespace Call

/-- The answer to each call. -/
def Reply : Call → Type
  | feed r => r.Reply
  | contract _ _ _ => Except SourceError (List UInt8)

def endpoint : Call → Endpoint
  | feed r => r.destination.endpoint
  | contract e _ _ => e

def key : Call → Key
  | feed r => .feed r.destination.endpoint
  | contract e _ _ => .contract e.chainId e.url

/-- The failure of a call whose endpoint gave an answer. -/
def refusal : (c : Call) → Except String UInt64 → c.Reply
  | feed r, answer => PriceFeed.refuse r (PriceFeed.refusal r.destination.endpoint answer)
  | contract e _ _, answer => .error (Contract.refusal e answer)

/-- Answers a call. -/
def serve (options : PriceFeed.Options) : (c : Call) → Remembered →
    Program interface (c.Reply × Remembered)
  | feed r, m =>
    (PriceFeed.answer options r m.feeds).bind fun y => .done (y.1, { m with feeds := y.2 })
  | contract e target data, m =>
    (run (Contract.call e target data) m.contracts).bind fun y =>
      .done (y.1, { m with contracts := y.2 })

end Call

variable {options : PriceFeed.Options} {c : Call} {m m' : Remembered}

/-- After a passed check, what was remembered is, and so is the endpoint. -/
def Remembered.Kept (key : Key) (m m' : Remembered) : Prop :=
  ∀ k, m'.holds k = true ↔ m.holds k = true ∨ k = key

/-- How every call ends. -/
theorem ended_serve (options : PriceFeed.Options) (c : Call) (m : Remembered) :
    Keeps (following c.endpoint) (Check.Permits c.endpoint)
      (Ended c.refusal (Remembered.Kept c.key m) m) (c.serve options m)
      (.start (m.holds c.key)) := by
  cases c with
  | feed r =>
    refine Program.keeps_bind.mpr ((PriceFeed.ended_answer r).mono ?_)
    rintro _ check (⟨reply⟩ | ⟨answer⟩ | ⟨reply, hkept⟩)
    · exact .early reply
    · exact .refused answer
    · refine .through reply fun k => ?_
      cases k with
      | feed e => simpa [Remembered.holds, Call.key] using hkept e
      | contract chainId url => simp [Remembered.holds, Call.key]
  | contract e target data =>
    refine Program.keeps_bind.mpr ((Contract.ended_call target data).mono ?_)
    rintro _ check (⟨reply⟩ | ⟨answer⟩ | ⟨reply, hkept⟩)
    · exact .early reply
    · exact .refused answer
    · refine .through reply fun k => ?_
      cases k with
      | feed e => simp [Remembered.holds, Call.key]
      | contract chainId url =>
        simpa [Remembered.holds, Call.key, Call.endpoint, Contract.key] using hkept (chainId, url)

/-! ## Sessions -/

/-- A call that has come to its end, and all that it asked for. -/
structure Record where
  call : Call
  transcript : Transcript interface

/-- The calls so far, one after the other, and what is remembered of them. The replies may be
anything. -/
inductive Session (options : PriceFeed.Options) : List Record → Remembered → Prop where
  | start : Session options [] ⟨[], []⟩
  | call {past : List Record} {m m' : Remembered} (h : Session options past m) (c : Call)
    {reply : c.Reply} {T : Transcript interface}
    (hrun : Leads noting (c.serve options m) [] (.done (reply, m')) T) :
    Session options (past ++ [⟨c, T⟩]) m'

/-- A call in which its endpoint was found to serve its chain. -/
def Record.Confirms (record : Record) : Prop := served record.call.endpoint ∈ record.transcript

variable {past : List Record}

/-- What a call has asked for at any point of it. -/
theorem course_of_serve {q : Program interface (c.Reply × Remembered)} {T : Transcript interface}
    (hrun : Leads noting (c.serve options m) [] q T) :
    ∃ check, Course c.endpoint (.start (m.holds c.key)) T check ∧
      Keeps (following c.endpoint) (Check.Permits c.endpoint)
        (Ended c.refusal (Remembered.Kept c.key m) m) q check :=
  course_of_leads (ended_serve options c m) (.nil _) hrun

theorem start_eq_due_iff {remembered : Bool} :
    Check.start remembered = .due ↔ remembered = false := by
  cases remembered <;> simp [Check.start]

theorem start_eq_passed_iff {remembered : Bool} :
    Check.start remembered = .passed ↔ remembered = true := by
  cases remembered <;> simp [Check.start]

/-- A call adds its endpoint to what is remembered exactly if it was confirmed. -/
theorem holds_after_call {reply : c.Reply} {T : Transcript interface}
    (hrun : Leads noting (c.serve options m) [] (.done (reply, m')) T) (k : Key) :
    m'.holds k = true ↔ m.holds k = true ∨ (c.key = k ∧ served c.endpoint ∈ T) := by
  obtain ⟨check, hcourse, hended⟩ := course_of_serve hrun
  cases hended with
  | early => simpa using fun _ hmem => nomatch hcourse.passed_of_served hmem
  | refused answer => simpa using fun _ hmem => nomatch hcourse.passed_of_served hmem
  | through _ hkept =>
    rw [hkept k]
    refine or_congr_right' fun hk => ⟨?_, fun h => h.1.symm⟩
    rintro rfl
    rcases hcourse.of_passed with hstart | ⟨-, hmem⟩
    · exact absurd (start_eq_passed_iff.mp hstart) hk
    · exact ⟨rfl, hmem⟩

/-- What is remembered is what was confirmed. -/
theorem Session.holds_iff (h : Session options past m) (k : Key) :
    m.holds k = true ↔ ∃ record ∈ past, record.call.key = k ∧ record.Confirms := by
  induction h with
  | start => cases k <;> simp [Remembered.holds, Dict.has, Dict.get?]
  | call h c hrun ih =>
    rw [holds_after_call hrun, ih]
    simp only [List.mem_append, List.mem_singleton, or_and_right, exists_or, exists_eq_left]
    exact Iff.rfl

/-- Nobody asks again for the chain of an endpoint that is remembered. -/
theorem Session.quiet (h : Session options past m) :
    past.Pairwise fun earlier later => earlier.call.key = later.call.key → earlier.Confirms →
      ∀ url answer, ⟨.chainId url, answer⟩ ∉ later.transcript := by
  induction h with
  | start => exact .nil
  | call h c hrun ih =>
    refine List.pairwise_append.mpr ⟨ih, List.pairwise_singleton _ _, ?_⟩
    intro earlier hearlier later hlater hkey hconfirms url answer hmem
    obtain rfl := List.mem_singleton.mp hlater
    obtain ⟨check, hcourse, -⟩ := course_of_serve hrun
    have hdue := start_eq_due_iff.mp (hcourse.answered hmem).1
    have hholds := (h.holds_iff _).mpr ⟨earlier, hearlier, hkey, hconfirms⟩
    exact absurd (hdue.symm.trans hholds) Bool.false_ne_true

/-- Every call of a session takes such a course. -/
theorem Session.course (h : Session options past m) {record : Record} (hrecord : record ∈ past) :
    ∃ start check, Course record.call.endpoint start record.transcript check := by
  induction h with
  | start => cases hrecord
  | call h c hrun ih =>
    rcases List.mem_append.mp hrecord with hrecord | hrecord
    · exact ih hrecord
    · obtain rfl := List.mem_singleton.mp hrecord
      obtain ⟨check, hcourse, -⟩ := course_of_serve hrun
      exact ⟨_, check, hcourse⟩

/-- After an answer other than the exact one, and until the next call, an endpoint is not
remembered. -/
theorem Session.forgotten {before between : List Record} {refused : Record} {url : String}
    {answer : Except String UInt64} (h : Session options (before ++ refused :: between) m)
    (hmem : ⟨.chainId url, answer⟩ ∈ refused.transcript)
    (hanswer : answer ≠ .ok refused.call.endpoint.chainId)
    (hbetween : ∀ record ∈ between, record.call.key ≠ refused.call.key) :
    m.holds refused.call.key = false := by
  rw [Bool.eq_false_iff, ne_eq, h.holds_iff]
  rintro ⟨record, hrecord, hkey, hconfirms⟩
  have hquiet := h.quiet
  rw [List.pairwise_append] at hquiet
  rcases List.mem_append.mp hrecord with hrecord | hrecord
  · exact hquiet.2.2 record hrecord refused List.mem_cons_self hkey hconfirms url answer hmem
  · rcases List.mem_cons.mp hrecord with rfl | hrecord
    · obtain ⟨start, check, hcourse⟩ := h.course (List.mem_append_right before List.mem_cons_self)
      exact hanswer (hcourse.answer_eq hconfirms hmem)
    · exact hbetween record hrecord hkey

/-- Calls with one key mean one chain and one URL. -/
theorem chain_of_key {c c' : Call} (h : c.key = c'.key) :
    c.endpoint.chainId = c'.endpoint.chainId ∧ c.endpoint.url = c'.endpoint.url := by
  cases c with
  | feed r =>
    cases c' with
    | feed r' =>
      have he : r.destination.endpoint = r'.destination.endpoint := Key.feed.inj h
      exact ⟨congrArg Endpoint.chainId he, congrArg Endpoint.url he⟩
    | contract => cases h
  | contract e target data =>
    cases c' with
    | feed => cases h
    | contract e' target' data' => exact Key.contract.inj h

theorem served_of_key {c c' : Call} (h : c.key = c'.key) :
    served c.endpoint = served c'.endpoint := by
  rw [served, served, (chain_of_key h).1, (chain_of_key h).2]

/-! ## Nodes of the right chain -/

/-- What is about to be asked at any point of a call. Nothing that is meant for a chain is asked
unless, in this call or in an earlier one with the same key, the node said that it serves exactly
that chain. Any other answer ends the call in a failure, and nothing is remembered of it. The next
call with that key asks for the chain first, and goes on only with the exact answer. -/
theorem Session.checked_first (h : Session options past m)
    {q : Program interface (c.Reply × Remembered)} {T : Transcript interface}
    (hrun : Leads noting (c.serve options m) [] q T) :
    (∀ r next, q = .ask r next → ¬IsLocal r → (∀ url, r ≠ .chainId url) →
      ForChain c.endpoint r ∧ (served c.endpoint ∈ T ∨
        ∃ record ∈ past, record.call.key = c.key ∧ served c.endpoint ∈ record.transcript)) ∧
    (∀ url answer, ⟨.chainId url, answer⟩ ∈ T → answer ≠ .ok c.endpoint.chainId →
      url = c.endpoint.url ∧ q = .done (c.refusal answer, m) ∧
        ∃ before, T = before ++ [⟨.chainId url, answer⟩] ∧ ∀ entry ∈ before, IsLocal entry.1) ∧
    (∀ before refused between url answer, past = before ++ refused :: between →
      refused.call.key = c.key → ⟨.chainId url, answer⟩ ∈ refused.transcript →
      answer ≠ .ok c.endpoint.chainId → (∀ record ∈ between, record.call.key ≠ c.key) →
      ∀ r next, q = .ask r next → ¬IsLocal r →
        (r = .chainId c.endpoint.url ∧ ∀ entry ∈ T, IsLocal entry.1) ∨ served c.endpoint ∈ T) := by
  obtain ⟨check, hcourse, hkeeps⟩ := course_of_serve hrun
  refine ⟨?_, ?_, ?_⟩
  · rintro r next rfl hnode hother
    obtain ⟨hpermits, -⟩ := hkeeps
    cases check with
    | due => exact (hpermits.elim hnode (hother _)).elim
    | failed answer => exact hpermits.elim
    | passed =>
      refine ⟨hpermits.resolve_left hnode, ?_⟩
      -- The check passed either before this call, remembered, or in this call's own requests.
      rcases hcourse.of_passed with hstart | ⟨-, hmem⟩
      · obtain ⟨record, hrecord, hkey, hconfirms⟩ :=
          (h.holds_iff c.key).mp (start_eq_passed_iff.mp hstart)
        exact .inr ⟨record, hrecord, hkey, served_of_key hkey ▸ hconfirms⟩
      · exact .inl hmem
  · intro url answer hmem hanswer
    obtain ⟨-, hurl, ⟨hexact, -⟩ | ⟨-, rfl, hlast⟩⟩ := hcourse.answered hmem
    · exact absurd hexact hanswer
    · refine ⟨hurl, ?_, hlast⟩
      cases q with
      | ask r next => exact hkeeps.1.elim
      | done y =>
        cases hkeeps
        rfl
  · rintro before refused between url answer rfl hkey hmem hanswer hbetween r next rfl hnode
    rw [← (chain_of_key hkey).1] at hanswer
    -- A refused check leaves nothing remembered, so the next call's check is due again.
    have hforgotten := h.forgotten hmem hanswer fun record hrecord => hkey ▸ hbetween record hrecord
    rw [hkey] at hforgotten
    rw [hforgotten] at hcourse
    obtain ⟨hpermits, -⟩ := hkeeps
    cases check with
    | due =>
      cases hcourse with
      | due hT => exact .inl ⟨hpermits.resolve_left hnode, hT⟩
    | failed answer => exact hpermits.elim
    | passed =>
      rcases hcourse.of_passed with hstart | ⟨-, hmem⟩
      · cases hstart
      · exact .inr hmem

/-- A node that first serves another chain, and in the next call the right one. -/
theorem checked_first_after_refusal :
    ∃ (options : PriceFeed.Options) (c : Call) (past : List Record) (m : Remembered)
      (q : Program interface (c.Reply × Remembered)) (T T' : Transcript interface) (r : Request)
      (next : interface.Reply r → Program interface (c.Reply × Remembered)),
      Session options past m ∧ past ≠ [] ∧
      Leads noting (c.serve options m) [] q T ∧ q = .done (c.refusal (.ok 2), m) ∧
      Leads noting (c.serve options m) [] (.ask r next) T' ∧
      ForChain c.endpoint r ∧ served c.endpoint ∈ T' := by
  let answered (actual : UInt64) : Transcript interface :=
    [⟨.chainId "http://a", (.ok actual : Except String UInt64)⟩]
  let options : PriceFeed.Options := ⟨none, ⟨0⟩, ⟨0⟩⟩
  let target : Address := ⟨List.replicate 20 0, rfl⟩
  let c : Call := .contract ⟨1, "http://a", none⟩ target []
  let m : Remembered := ⟨[], []⟩
  have hentry (actual : UInt64) : @noting interface (.chainId "http://a") []
      (.ok actual : Except String UInt64) (answered actual) := rfl
  -- The node tells chain 2 and is refused; asked once more, it tells chain 1.
  have hrefused : Leads noting (c.serve options m) [] (.done (c.refusal (.ok 2), m)) (answered 2) :=
    .ask (hentry 2) (.here _ _)
  have hsession : Session options [⟨c, answered 2⟩] m := .call .start c hrefused
  obtain ⟨next, hpassed⟩ : ∃ next, Leads noting (c.serve options m) []
      (.ask (.call "http://a" target []) next) (answered 1) :=
    ⟨_, .ask (hentry 1) (.here _ _)⟩
  have hother : (.ok 2 : Except String UInt64) ≠ .ok 1 := by simp
  have hnode : ¬IsLocal (.call "http://a" target []) := nofun
  have hasked := hsession.checked_first hpassed
  have hnext := hasked.2.2 [] ⟨c, answered 2⟩ [] "http://a" (.ok 2) rfl rfl List.mem_cons_self
    hother nofun _ next rfl hnode
  exact ⟨options, c, _, m, _, _, _, _, next, hsession, List.cons_ne_nil _ _, hrefused,
    ((hsession.checked_first hrefused).2.1 "http://a" (.ok 2) List.mem_cons_self hother).2.1,
    hpassed, (hasked.1 _ next rfl hnode nofun).1, hnext.resolve_left nofun⟩

end PriceOracle.Node
