import Mathlib.Data.List.Basic
import Mathlib.Data.Sigma.Basic
import PriceOracle.Node
import PriceOracle.Proofs.Program.Transcript

/-!
# Checks of endpoints

`Check` follows a call from request to request: the check of its endpoint is due, or passed, or it
failed with an answer. `Check.Permits` says what may be asked meanwhile. Until the check is passed,
nodes are asked for the chain id alone, and when it failed, for nothing.

* `Course`: the transcripts of calls that keep to that, up to some point (`course_of_leads`).
* `Opens`: a part of a use that comes to the end of the check. `Steady`: one that comes after it.
* `Ended`: how a call ends, by what became of the check. `Opens.ended` puts the parts together.
-/

namespace PriceOracle.Node

open Program (Keeps Leads noting)

variable {σ ε α β ρ : Type} {e : Endpoint}

/-! ## What may be asked -/

/-- The requests that no node sees. -/
inductive IsLocal : Request → Prop where
  | elapsed : IsLocal .elapsed
  | sleep (d : Duration) : IsLocal (.sleep d)
  | read (path : String) : IsLocal (.read path)

/-- The requests to the node of an endpoint that are meant for its chain. -/
inductive ForChain (e : Endpoint) : Request → Prop where
  | call (target : Address) (data : List UInt8) : ForChain e (.call e.url target data)
  | send (signer : Option Secp256k1.PrivateKey) (target : Address) (data : List UInt8) :
    ForChain e (.send e.url e.chainId signer target data)
  | receipt (hash : TxHash) : ForChain e (.receipt e.url hash)
  | transaction (hash : TxHash) : ForChain e (.transaction e.url hash)
  | blockNumber : ForChain e (.blockNumber e.url)

/-- How far the check of an endpoint has come. -/
inductive Check where
  | due
  | passed
  | failed (answer : Except String UInt64)

namespace Check

/-- How far a check has come when a call starts. -/
def start : (remembered : Bool) → Check
  | true => .passed
  | false => .due

/-- What an answer makes of a check. -/
def ofAnswer (e : Endpoint) : Except String UInt64 → Check
  | .ok actual => if actual = e.chainId then .passed else .failed (.ok actual)
  | .error reason => .failed (.error reason)

/-- What a request and its reply make of a check. -/
def after (e : Endpoint) (check : Check) : (r : Request) → r.Reply → Check
  | .chainId _, answer => ofAnswer e answer
  | _, _ => check

/-- What may be asked. -/
def Permits (e : Endpoint) (r : Request) : Check → Prop
  | .due => IsLocal r ∨ r = .chainId e.url
  | .passed => IsLocal r ∨ ForChain e r
  | .failed _ => False

/-- The exact chain id passes, and nothing else does. -/
theorem ofAnswer_cases (e : Endpoint) (answer : Except String UInt64) :
    (answer = .ok e.chainId ∧ ofAnswer e answer = .passed) ∨
      (answer ≠ .ok e.chainId ∧ ofAnswer e answer = .failed answer) := by
  cases answer with
  | error reason => exact .inr ⟨nofun, rfl⟩
  | ok actual =>
    by_cases h : actual = e.chainId
    · exact .inl ⟨congrArg _ h, if_pos h⟩
    · exact .inr ⟨fun heq => h (Except.ok.inj heq), if_neg h⟩

/-- Only the answer to the question for the chain changes a check. -/
theorem after_eq {r : Request} (h : IsLocal r ∨ ForChain e r) (check : Check) (reply : r.Reply) :
    check.after e r reply = check := by
  rcases h with h | h <;> cases h <;> rfl

end Check

/-- Nodes that may answer anything, while the check of an endpoint is followed. -/
def following (e : Endpoint) : Behaviour interface Check :=
  fun r check reply check' => check' = check.after e r reply

/-! ## Transcripts -/

/-- The entry of an endpoint that serves its chain. -/
def served (e : Endpoint) : (r : interface.Request) × interface.Reply r :=
  ⟨.chainId e.url, (.ok e.chainId : Except String UInt64)⟩

/-- What has been asked for, from the start of a check to where it has come. -/
inductive Course (e : Endpoint) : Check → Transcript interface → Check → Prop where
  | remembered {T : Transcript interface} (h : ∀ entry ∈ T, IsLocal entry.1 ∨ ForChain e entry.1) :
    Course e .passed T .passed
  | due {T : Transcript interface} (h : ∀ entry ∈ T, IsLocal entry.1) : Course e .due T .due
  | passed {before after : Transcript interface} (hbefore : ∀ entry ∈ before, IsLocal entry.1)
    (hafter : ∀ entry ∈ after, IsLocal entry.1 ∨ ForChain e entry.1) :
    Course e .due (before ++ served e :: after) .passed
  | failed {before : Transcript interface} {answer : Except String UInt64}
    (hbefore : ∀ entry ∈ before, IsLocal entry.1) (hanswer : answer ≠ .ok e.chainId) :
    Course e .due (before ++ [⟨.chainId e.url, answer⟩]) (.failed answer)

/-- A permitted request is one more on the way. -/
theorem Course.step {start check : Check} {T : Transcript interface} {r : Request}
    (h : Course e start T check) (hr : check.Permits e r) (reply : r.Reply) :
    Course e start (T ++ [⟨r, reply⟩]) (check.after e r reply) := by
  have hmore {p : Request → Prop} {T : Transcript interface} (hT : ∀ entry ∈ T, p entry.1)
      (hp : p r) : ∀ entry ∈ T ++ [⟨r, reply⟩], p entry.1 :=
    List.forall_mem_append.mpr ⟨hT, List.forall_mem_singleton.mpr hp⟩
  have hon {T : Transcript interface} := @hmore (fun r => IsLocal r ∨ ForChain e r) T
  cases h with
  | remembered hT =>
    rw [Check.after_eq hr]
    exact .remembered (hon hT hr)
  | due hT =>
    rcases hr with hr | rfl
    · rw [@Check.after_eq e r (.inl hr)]
      exact .due (hmore hT hr)
    -- The question for the chain, which the answer settles.
    · show Course e .due _ (Check.ofAnswer e reply)
      rcases Check.ofAnswer_cases e reply with ⟨rfl, hcheck⟩ | ⟨hanswer, hcheck⟩
      · rw [hcheck]
        exact .passed hT (List.forall_mem_nil _)
      · rw [hcheck]
        exact .failed hT hanswer
  | passed hbefore hafter =>
    rw [Check.after_eq hr, List.append_assoc, List.cons_append]
    exact .passed hbefore (hon hafter hr)
  | failed => exact hr.elim

theorem Course.nil (remembered : Bool) : Course e (.start remembered) [] (.start remembered) := by
  cases remembered with
  | true => exact .remembered (List.forall_mem_nil _)
  | false => exact .due (List.forall_mem_nil _)

/-- The question for the chain is neither kind of request. -/
theorem not_asks_chainId {url : String} (h : IsLocal (.chainId url) ∨ ForChain e (.chainId url)) :
    False := by
  rcases h with h | h <;> cases h

/-- A check is passed by what was remembered, or by the exact answer. -/
theorem Course.of_passed {start : Check} {T : Transcript interface}
    (h : Course e start T .passed) : start = .passed ∨ (start = .due ∧ served e ∈ T) := by
  cases h with
  | remembered => exact .inl rfl
  | passed => exact .inr ⟨rfl, by simp⟩

/-- An answer settles a check that was due; one that fails it is the last thing that is said. -/
theorem Course.answered {start check : Check} {T : Transcript interface} {url : String}
    {answer : Except String UInt64} (h : Course e start T check)
    (hmem : ⟨.chainId url, answer⟩ ∈ T) :
    start = .due ∧ url = e.url ∧
      ((answer = .ok e.chainId ∧ check = .passed) ∨
        (answer ≠ .ok e.chainId ∧ check = .failed answer ∧ ∃ before,
          T = before ++ [⟨.chainId url, answer⟩] ∧ ∀ entry ∈ before, IsLocal entry.1)) := by
  cases h with
  | remembered hT => exact (not_asks_chainId (hT _ hmem)).elim
  | due hT => exact (not_asks_chainId (e := e) (.inl (hT _ hmem))).elim
  | passed hbefore hafter =>
    rcases List.mem_append.mp hmem with hmem | hmem
    · exact (not_asks_chainId (e := e) (.inl (hbefore _ hmem))).elim
    · rcases List.mem_cons.mp hmem with heq | hmem
      · obtain ⟨hurl, hanswer⟩ := Sigma.mk.inj_iff.mp heq
        obtain rfl := Request.chainId.inj hurl
        exact ⟨rfl, rfl, .inl ⟨eq_of_heq hanswer, rfl⟩⟩
      · exact (not_asks_chainId (hafter _ hmem)).elim
  | @failed before answer' hbefore hanswer' =>
    rcases List.mem_append.mp hmem with hmem | hmem
    · exact (not_asks_chainId (e := e) (.inl (hbefore _ hmem))).elim
    · obtain ⟨hurl, hanswer⟩ := Sigma.mk.inj_iff.mp (List.mem_singleton.mp hmem)
      obtain rfl := Request.chainId.inj hurl
      obtain rfl := eq_of_heq hanswer
      exact ⟨rfl, rfl, .inr ⟨hanswer', rfl, before, rfl, hbefore⟩⟩

/-- The exact answer passes a check. -/
theorem Course.passed_of_served {start check : Check} {T : Transcript interface}
    (h : Course e start T check) (hmem : served e ∈ T) : check = .passed := by
  obtain ⟨-, -, ⟨-, hcheck⟩ | ⟨hanswer, -⟩⟩ := h.answered hmem
  · exact hcheck
  · exact absurd rfl hanswer

/-- An endpoint that gives the exact answer gives no other. -/
theorem Course.answer_eq {start check : Check} {T : Transcript interface} {url : String}
    {answer : Except String UInt64} (h : Course e start T check) (hserved : served e ∈ T)
    (hmem : ⟨.chainId url, answer⟩ ∈ T) : answer = .ok e.chainId := by
  obtain ⟨-, -, ⟨hanswer, -⟩ | ⟨-, hcheck, -⟩⟩ := h.answered hmem
  · exact hanswer
  · rw [h.passed_of_served hserved] at hcheck
    cases hcheck

/-- A program that keeps to what is permitted takes such a course. -/
theorem course_of_leads {start check : Check} {post : α → Check → Prop}
    {p q : Program interface α} {T T' : Transcript interface}
    (hkeeps : Keeps (following e) (Check.Permits e) post p check) (hcourse : Course e start T check)
    (hrun : Leads noting p T q T') :
    ∃ check', Course e start T' check' ∧ Keeps (following e) (Check.Permits e) post q check' := by
  -- The course so far and what the rest of the program keeps go together, request by request.
  induction hrun generalizing check with
  | here => exact ⟨check, hcourse, hkeeps⟩
  | ask hentry _ ih =>
    obtain ⟨hr, hnext⟩ := hkeeps
    refine ih (hnext _ _ rfl) ?_
    rw [hentry]
    exact hcourse.step hr _

/-! ## Uses of nodes, part by part -/

section Keeps

variable {B : Behaviour interface Check} {allow : interface.Request → Check → Prop} {s : σ}
  {check : Check}

theorem run_bind (x : Checked σ ε α) (f : α → Checked σ ε β) (s : σ) :
    run (x >>= f) s = (run x s).bind fun
      | (.ok a, s') => run (f a) s'
      | (.error err, s') => .done (.error err, s') := by
  refine congrArg (run x s).bind (funext fun y => ?_)
  obtain ⟨outcome, s'⟩ := y
  cases outcome <;> rfl

theorem run_get_bind (f : σ → Checked σ ε α) (s : σ) : run (get >>= f) s = run (f s) s := rfl

/-- A postcondition for either end of a use. -/
def Ends (success : α → σ → Check → Prop) (failure : ε → σ → Check → Prop) :
    Except ε α × σ → Check → Prop
  | (.ok a, s), check => success a s check
  | (.error err, s), check => failure err s check

/-- A part, and what comes after it if it does not fail. -/
theorem keeps_bind {x : Checked σ ε α} {f : α → Checked σ ε β}
    {post : Except ε β × σ → Check → Prop} :
    Keeps B allow post (run (x >>= f) s) check ↔
      Keeps B allow (Ends (fun a s' => Keeps B allow post (run (f a) s'))
        fun err s' => post (.error err, s')) (run x s) check := by
  rw [run_bind, Program.keeps_bind]
  constructor <;> refine fun h => h.mono ?_ <;> rintro ⟨outcome, s'⟩ check' hpost <;>
    cases outcome <;> exact hpost

theorem keeps_expect {refusal : String → ε} {x : Except String α}
    {post : Except ε α × σ → Check → Prop} :
    Keeps B allow post (run (expect refusal x) s) check ↔ post (x.mapError refusal, s) check := by
  cases x <;> exact Iff.rfl

end Keeps

/-! ## After the check -/

/-- A part of a use that comes after the check, and leaves alone what is remembered. -/
def Steady (e : Endpoint) (s : σ) (x : Checked σ ε α) : Prop :=
  Keeps (following e) (Check.Permits e) (fun y check => y.2 = s ∧ check = .passed) (run x s) .passed

section Steady

variable {s : σ}

theorem steady_pure (a : α) : Steady e s (pure a : Checked σ ε α) := ⟨rfl, rfl⟩

theorem steady_throw (err : ε) : Steady e s (throw err : Checked σ ε α) := ⟨rfl, rfl⟩

theorem steady_bind {x : Checked σ ε α} {f : α → Checked σ ε β} (h : Steady e s x)
    (hf : ∀ a, Steady e s (f a)) : Steady e s (x >>= f) := by
  refine keeps_bind.mpr (h.mono ?_)
  rintro ⟨outcome, s'⟩ check ⟨rfl, rfl⟩
  cases outcome with
  | ok a => exact hf a
  | error err => exact ⟨rfl, rfl⟩

theorem steady_ask {r : Request} (h : IsLocal r ∨ ForChain e r) :
    Steady e s (ask r : Checked σ ε r.Reply) := by
  refine ⟨h, ?_⟩
  rintro reply check rfl
  exact ⟨rfl, Check.after_eq h _ _⟩

theorem steady_expect (refusal : String → ε) (x : Except String α) :
    Steady e s (expect refusal x : Checked σ ε α) :=
  keeps_expect.mpr ⟨rfl, rfl⟩

/-- A request, what is expected of its reply, and what is made of that. -/
theorem steady_request {r : Request} {refusal : String → ε} {read : r.Reply → Except String α}
    {f : α → Checked σ ε β} (h : IsLocal r ∨ ForChain e r) (hf : ∀ a, Steady e s (f a)) :
    Steady e s (ask r >>= fun reply => expect refusal (read reply) >>= f) :=
  steady_bind (steady_ask h) fun _ => steady_bind (steady_expect _ _) hf

end Steady

/-! ## The check -/

/-- The failure of an endpoint that gave an answer. -/
def failure (e : Endpoint) (failed mismatch : String → ε) : Except String UInt64 → ε
  | .ok actual => mismatch (wrongChain e.chainId actual)
  | .error reason => failed s!"Failed to get chain ID: {reason}"

/-- How a call ends, by what became of the check. Only a call that came past the check remembers
anything. -/
inductive Ended (refusal : Except String UInt64 → ρ) (kept : σ → Prop) (s : σ) :
    ρ × σ → Check → Prop where
  | early (reply : ρ) : Ended refusal kept s (reply, s) .due
  | refused (answer : Except String UInt64) :
    Ended refusal kept s (refusal answer, s) (.failed answer)
  | through (reply : ρ) {s' : σ} (h : kept s') : Ended refusal kept s (reply, s') .passed

/-- A part of a use that goes on with a passed check only. -/
def Opens (e : Endpoint) (refusal : Except String UInt64 → ε) (kept : σ → Prop) (s : σ)
    (x : Checked σ ε α) (check : Check) : Prop :=
  Keeps (following e) (Check.Permits e) (Ends (fun _ s' check => kept s' ∧ check = .passed)
    fun err s' check => s' = s ∧
      (check = .due ∨ ∃ answer, check = .failed answer ∧ err = refusal answer)) (run x s) check

section Opens

variable {s : σ} {check : Check} {refusal : Except String UInt64 → ε} {kept : σ → Prop}

/-- A part before the check. -/
theorem opens_bind {x : Checked σ ε α} {f : α → Checked σ ε β}
    (h : Keeps (following e) (Check.Permits e) (fun y check => y.2 = s ∧ check = .due)
      (run x s) .due)
    (hf : ∀ a, Opens e refusal kept s (f a) .due) : Opens e refusal kept s (x >>= f) .due := by
  refine keeps_bind.mpr (h.mono ?_)
  rintro ⟨outcome, s'⟩ check ⟨rfl, rfl⟩
  cases outcome with
  | ok a => exact hf a
  | error err => exact ⟨rfl, .inl rfl⟩

/-- The check itself, and what is remembered of it. -/
theorem opens_checkChain {failed mismatch : String → ε} {f : Unit → Checked σ ε α} {a : α} {s' : σ}
    (hf : run (f ()) s = .done (.ok a, s')) (hkept : kept s') :
    Opens e (failure e failed mismatch) kept s (checkChain e failed mismatch >>= f) .due := by
  refine keeps_bind.mpr (keeps_bind.mpr ⟨.inr rfl, ?_⟩)
  rintro answer check rfl
  change Except String UInt64 at answer
  refine keeps_bind.mpr (keeps_expect.mpr ?_)
  cases answer with
  | error reason => exact ⟨rfl, .inr ⟨_, rfl, rfl⟩⟩
  | ok actual =>
    -- The check is what the comparison makes of it.
    show Keeps _ _ _ (run (if actual ≠ e.chainId then _ else _) s)
      (if actual = e.chainId then Check.passed else Check.failed (.ok actual))
    by_cases h : actual = e.chainId
    · rw [if_neg (not_not_intro h), if_pos h]
      show Keeps _ _ _ (run (f ()) s) Check.passed
      rw [hf]
      exact ⟨hkept, rfl⟩
    · rw [if_pos h, if_neg h]
      exact ⟨rfl, .inr ⟨_, rfl, rfl⟩⟩

/-- A use that first comes to the end of the check. -/
theorem Opens.ended {x : Checked σ ε α} {f : α → Checked σ ε β} (h : Opens e refusal kept s x check)
    (hf : ∀ a s', kept s' → Steady e s' (f a)) :
    Keeps (following e) (Check.Permits e) (Ended (fun answer => .error (refusal answer)) kept s)
      (run (x >>= f) s) check := by
  refine keeps_bind.mpr (Keeps.mono h ?_)
  rintro ⟨outcome, s'⟩ check' hpost
  cases outcome with
  | ok a =>
    obtain ⟨hkept, rfl⟩ := hpost
    refine (hf a s' hkept).mono ?_
    rintro ⟨reply, s''⟩ check'' ⟨rfl, rfl⟩
    exact .through reply hkept
  | error err =>
    obtain ⟨rfl, rfl | ⟨answer, rfl, rfl⟩⟩ := hpost
    · exact .early _
    · exact .refused answer

end Opens

end PriceOracle.Node
