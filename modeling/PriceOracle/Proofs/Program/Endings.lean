import PriceOracle.Proofs.Program.Transcript

/-!
# Programs that come to an end

`Keeps` says what holds where a program has ended, and nothing of whether it does. Programs are
finite in every branch, so that one ends wherever its surroundings answer (`Answered.ends`).
`Ensures` has both: a program can always go on to an end, and every end satisfies a postcondition.
`Within` bounds the requests on the way there.
-/

namespace PriceOracle.Program

variable {I J : Interface} {α β σ : Type} {B : Behaviour I σ}

/-- Surroundings that answer every request. -/
def Answered (B : Behaviour I σ) : Prop := ∀ r s, ∃ reply t, B r s reply t

/-- A program ends where the requests that it makes are answered. -/
theorem Makes.ends {only : I.Request → Prop} {p : Program I α} (h : p.Makes only)
    (hanswered : ∀ r s, only r → ∃ reply t, B r s reply t) (s : σ) :
    ∃ a t, Leads B p s (done a) t := by
  induction p generalizing s with
  | done a => exact ⟨a, s, .here _ _⟩
  | ask r next ih =>
    obtain ⟨reply, t, hreply⟩ := hanswered r s h.1
    obtain ⟨a, u, hrun⟩ := ih reply (h.2 reply) t
    exact ⟨a, u, .ask hreply hrun⟩

theorem Answered.ends (h : Answered B) (p : Program I α) (s : σ) :
    ∃ a t, Leads B p s (done a) t :=
  (makes_any p).ends (fun r s _ => h r s) s

/-- Wherever a program has come, it can go on to an end, and every end satisfies a
postcondition. -/
structure Ensures (B : Behaviour I σ) (post : α → σ → Prop) (p : Program I α) (s : σ) : Prop where
  ends : ∀ q t, Leads B p s q t → ∃ a u, Leads B q t (done a) u
  holds : ∀ a t, Leads B p s (done a) t → post a t

theorem Keeps.ensures {allow : I.Request → σ → Prop} {post : α → σ → Prop} {p : Program I α}
    {s : σ} (h : Keeps B allow post p s) (hanswered : Answered B) : Ensures B post p s where
  ends := fun q t _ => hanswered.ends q t
  holds := fun _ _ hrun => h.leads hrun

/-- Surroundings that answer do so while a transcript is written. -/
theorem Answered.noted (h : Answered B) : Answered (noted B) := by
  intro r x
  obtain ⟨reply, t, hreply⟩ := h r x.1
  exact ⟨reply, (t, x.2 ++ [⟨r, reply⟩]), hreply, rfl⟩

/-! ## How long a program runs -/

/-- A program makes at most a number of requests, whatever the replies are. -/
def Within : Program I α → Nat → Prop
  | done _, _ => True
  | ask _ _, 0 => False
  | ask _ next, n + 1 => ∀ reply, (next reply).Within n

variable {p : Program I α} {m n : Nat}

theorem Within.mono (h : p.Within m) (hle : m ≤ n) : p.Within n := by
  induction p generalizing m n with
  | done a => exact trivial
  | ask r next ih =>
    obtain ⟨m, rfl⟩ : ∃ k, m = k + 1 := by
      cases m with
      | zero => exact h.elim
      | succ m => exact ⟨m, rfl⟩
    obtain ⟨n, rfl⟩ := Nat.exists_eq_add_of_le' (Nat.le_trans (Nat.succ_pos m) hle)
    exact fun reply => ih reply (h reply) (Nat.le_of_succ_le_succ hle)

theorem Within.bind {f : α → Program I β} (h : p.Within m) (hf : ∀ a, (f a).Within n) :
    (p.bind f).Within (m + n) := by
  induction p generalizing m with
  | done a => exact (hf a).mono (Nat.le_add_left _ _)
  | ask r next ih =>
    cases m with
    | zero => exact h.elim
    | succ m =>
      rw [Nat.succ_add]
      exact fun reply => ih reply (h reply)

/-- Handing requests on takes one request each. -/
theorem Within.through {answer : (r : I.Request) → Program J (I.Reply r)} (h : p.Within n)
    (hanswer : ∀ r, (answer r).Within 1) : (p.through answer).Within n := by
  induction p generalizing n with
  | done a => exact trivial
  | ask r next ih =>
    cases n with
    | zero => exact h.elim
    | succ n =>
      rw [Nat.add_comm]
      exact (hanswer r).bind fun reply => ih reply (h reply)

/-- No transcript of the program is longer. -/
theorem Within.length_le {q : Program I α} {x y : σ × Transcript I} (h : p.Within n)
    (hrun : Leads (noted B) p x q y) : y.2.length ≤ x.2.length + n := by
  induction hrun generalizing n with
  | here => exact Nat.le_add_right _ _
  | ask hreply _ ih =>
    cases n with
    | zero => exact h.elim
    | succ n =>
      have hrest := ih (h _)
      rw [hreply.2, List.length_append, List.length_singleton] at hrest
      omega

end PriceOracle.Program

namespace PriceOracle.Attempt

open Program

variable {I : Interface} {ε α β σ : Type} {m n : Nat}

theorem within_bind {x : Attempt I ε α} {f : α → Attempt I ε β} (h : x.run.Within m)
    (hf : ∀ a, (f a).run.Within n) : (x >>= f).run.Within (m + n) := by
  rw [run_bind]
  refine h.bind fun e => ?_
  cases e with
  | ok a => exact hf a
  | error e => exact trivial

theorem within_lift {p : Program I α} (h : p.Within n) :
    (ExceptT.lift p : Attempt I ε α).run.Within n :=
  Within.bind (n := 0) h fun _ => trivial

end PriceOracle.Attempt
