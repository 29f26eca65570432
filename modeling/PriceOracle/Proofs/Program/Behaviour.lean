import PriceOracle.Program

/-!
# Programs among surroundings that may do anything

A `Behaviour` says which replies surroundings may give in a state and which state they leave. It is
a relation, so that surroundings may be as free as a network or as fixed as a map in memory.

* `Program.Leads`: what may be left of a program when it has made some of its requests. A program
  that `Leads` to `done` ran to its end; one that `Leads` to `ask` is about to make a request.
* `Program.Keeps`: every request of a program is allowed in the state it is made in, and every end
  satisfies a postcondition, whatever the replies are. `Keeps.leads` is what it is good for.
* `Program.keeps_through`: a program whose requests are handed on keeps what it kept before.
* `Program.Makes`: a program makes only requests of some kind, whatever the replies are.
  `Makes.keeps` is for facts that such requests leave alone.
-/

namespace PriceOracle

/-- Which replies may come to a request in a state, and which states they may leave. -/
abbrev Behaviour (I : Interface) (σ : Type) := (r : I.Request) → σ → I.Reply r → σ → Prop

namespace Program

variable {I J : Interface} {α β σ τ : Type} {B : Behaviour I σ}

instance : LawfulMonad (Program I) :=
  LawfulMonad.mk' _ bind_done (fun _ _ => rfl) bind_assoc

@[simp] theorem map_done {γ : Type} (f : α → γ) (a : α) :
    f <$> (done a : Program I α) = done (f a) := rfl

@[simp] theorem map_bind {γ : Type} (f : β → γ) (p : Program I α) (g : α → Program I β) :
    f <$> p.bind g = p.bind fun a => f <$> g a := bind_assoc p g _

@[simp] theorem bind_map {γ : Type} (f : α → β) (p : Program I α) (g : β → Program I γ) :
    (f <$> p).bind g = p.bind fun a => g (f a) := bind_assoc p _ g

/-! ## Runs -/

/-- What may be left of a program, and in which state, after some requests. -/
inductive Leads (B : Behaviour I σ) : Program I α → σ → Program I α → σ → Prop where
  | here (p : Program I α) (s : σ) : Leads B p s p s
  | ask {r : I.Request} {next : I.Reply r → Program I α} {reply : I.Reply r} {s t u : σ}
    {q : Program I α} : B r s reply t → Leads B (next reply) t q u → Leads B (ask r next) s q u

/-- Runs are put one after the other. -/
theorem Leads.trans {p q q' : Program I α} {s t u : σ} (h : Leads B p s q t)
    (h' : Leads B q t q' u) : Leads B p s q' u := by
  induction h with
  | here => exact h'
  | ask hreply _ ih => exact .ask hreply (ih h')

/-- One request. -/
theorem Leads.reply {r : I.Request} {next : I.Reply r → Program I α} {reply : I.Reply r} {s t : σ}
    (h : B r s reply t) : Leads B (Program.ask r next) s (next reply) t :=
  .ask h (.here _ _)

/-- What comes behind a program does not change how it runs. -/
theorem Leads.bind {p q : Program I α} {s t : σ} (h : Leads B p s q t)
    (f : α → Program I β) : Leads B (p.bind f) s (q.bind f) t := by
  induction h with
  | here => exact .here _ _
  | ask hreply _ ih => exact .ask hreply ih

/-- A program whose value is changed at the end ends as it did before, with the changed value. -/
theorem leads_map {f : α → β} {p : Program I α} {b : β} {s t : σ}
    (h : Leads B (f <$> p) s (done b) t) : ∃ a, f a = b ∧ Leads B p s (done a) t := by
  induction p generalizing s with
  | done a =>
    cases h
    exact ⟨a, rfl, .here _ _⟩
  | ask r next ih =>
    cases h with
    | ask hreply hrest =>
      obtain ⟨a, ha, hrun⟩ := ih _ hrest
      exact ⟨a, ha, .ask hreply hrun⟩

/-- Surroundings that answer by a function on a state. -/
def Exactly (answer : (r : I.Request) → σ → I.Reply r × σ) : Behaviour I σ :=
  fun r s reply t => answer r s = (reply, t)

/-- A done program leads nowhere else. -/
theorem Leads.of_done {a : α} {q : Program I α} {s t : σ} (h : Leads B (done a) s q t) :
    q = done a ∧ t = s := by
  cases h
  exact ⟨rfl, rfl⟩

/-! ## What holds of all runs -/

/-- Every request is allowed when it is made, and every end satisfies a postcondition. -/
def Keeps (B : Behaviour I σ) (allow : I.Request → σ → Prop) (post : α → σ → Prop) :
    Program I α → σ → Prop
  | done a, s => post a s
  | ask r next, s => allow r s ∧ ∀ reply t, B r s reply t → Keeps B allow post (next reply) t

variable {allow : I.Request → σ → Prop}

theorem keeps_bind {p : Program I α} {f : α → Program I β} {post : β → σ → Prop} {s : σ} :
    Keeps B allow post (p.bind f) s ↔
      Keeps B allow (fun a t => Keeps B allow post (f a) t) p s := by
  induction p generalizing s with
  | done a => exact Iff.rfl
  | ask r next ih =>
    refine and_congr_right fun _ => forall_congr' fun reply => forall_congr' fun t => ?_
    exact imp_congr_right fun _ => ih reply

theorem Keeps.mono {post post' : α → σ → Prop} {p : Program I α} {s : σ}
    (h : Keeps B allow post p s) (hpost : ∀ a t, post a t → post' a t) :
    Keeps B allow post' p s := by
  induction p generalizing s with
  | done a => exact hpost a s h
  | ask r next ih =>
    refine ⟨h.1, ?_⟩
    intro reply t hreply
    exact ih reply (h.2 reply t hreply)

theorem Keeps.allowing {allow' : I.Request → σ → Prop} {post : α → σ → Prop} {p : Program I α}
    {s : σ} (h : Keeps B allow post p s) (hallow : ∀ r t, allow r t → allow' r t) :
    Keeps B allow' post p s := by
  induction p generalizing s with
  | done a => exact h
  | ask r next ih =>
    exact ⟨hallow r s h.1, fun reply t hreply => ih reply (h.2 reply t hreply)⟩

/-- A request is allowed wherever a fact holds, and leaves it, whatever the reply is. -/
def Carries (B : Behaviour I σ) (allow : I.Request → σ → Prop) (fact : σ → Prop)
    (r : I.Request) : Prop :=
  ∀ s, fact s → allow r s ∧ ∀ reply t, B r s reply t → fact t

theorem Carries.keeps {fact : σ → Prop} {r : I.Request} {s : σ} (h : Carries B allow fact r)
    (hs : fact s) : Keeps B allow (fun _ t => fact t) (request r) s := h s hs

/-- A postcondition that always holds. -/
theorem keeps_of_forall {post : α → σ → Prop} (h : ∀ a s, post a s)
    (hallow : ∀ r s, allow r s) (p : Program I α) (s : σ) : Keeps B allow post p s := by
  induction p generalizing s with
  | done a => exact h a s
  | ask r next ih => exact ⟨hallow r s, fun reply t _ => ih reply t⟩

theorem Keeps.and {allow' : I.Request → σ → Prop} {post post' : α → σ → Prop} {p : Program I α}
    {s : σ} (h : Keeps B allow post p s) (h' : Keeps B allow' post' p s) :
    Keeps B allow (fun a t => post a t ∧ post' a t) p s := by
  induction p generalizing s with
  | done a => exact ⟨h, h'⟩
  | ask r next ih =>
    exact ⟨h.1, fun reply t hreply => ih reply (h.2 reply t hreply) (h'.2 reply t hreply)⟩

/-- What is left of a program keeps what the program keeps. -/
theorem Keeps.leads {post : α → σ → Prop} {p q : Program I α} {s t : σ}
    (h : Keeps B allow post p s) (hrun : Leads B p s q t) : Keeps B allow post q t := by
  induction hrun with
  | here => exact h
  | ask hreply _ ih => exact ih (h.2 _ _ hreply)

/-- What holds at the end of every run. -/
theorem keeps_of_leads {post : α → σ → Prop} {p : Program I α} {s : σ}
    (h : ∀ a t, Leads B p s (done a) t → post a t) : Keeps B (fun _ _ => True) post p s := by
  induction p generalizing s with
  | done a => exact h a s (.here _ _)
  | ask r next ih =>
    exact ⟨trivial, fun reply t hreply => ih reply fun a u hrun => h a u (.ask hreply hrun)⟩

/-- A fact that allowed requests preserve holds at every request and at every end. -/
theorem Keeps.always {post : α → σ → Prop} {p : Program I α} {s : σ} {fact : σ → Prop}
    (h : Keeps B allow post p s) (hs : fact s)
    (hstep : ∀ r s reply t, allow r s → fact s → B r s reply t → fact t) :
    Keeps B (fun r s => allow r s ∧ fact s) (fun a t => post a t ∧ fact t) p s := by
  induction p generalizing s with
  | done a => exact ⟨h, hs⟩
  | ask r next ih =>
    refine ⟨⟨h.1, hs⟩, ?_⟩
    intro reply t hreply
    exact ih reply (h.2 reply t hreply) (hstep r s reply t h.1 hs hreply)

/-! ## Requests that are handed on -/

/-- A program whose requests are handed on, one by one, keeps what it kept before, as long as the
surroundings behave there as it expects. -/
theorem keeps_through {C : Behaviour J τ} {permit : J.Request → τ → Prop}
    {answer : (r : I.Request) → Program J (I.Reply r)} {view : τ → σ → Prop}
    {post : α → σ → Prop} {p : Program I α} {s : σ} {t : τ}
    (hstep : ∀ r s t, view t s → allow r s →
      Keeps C permit (fun reply t' => ∃ s', B r s reply s' ∧ view t' s') (answer r) t)
    (hview : view t s) (h : Keeps B allow post p s) :
    Keeps C permit (fun a t' => ∃ s', view t' s' ∧ post a s') (p.through answer) t := by
  induction p generalizing s t with
  | done a => exact ⟨s, hview, h⟩
  | ask r next ih =>
    -- The answer leaves a view of some state, from which the rest goes on.
    refine keeps_bind.mpr ((hstep r s t hview h.1).mono ?_)
    rintro reply t' ⟨s', hB, hview'⟩
    exact ih reply hview' (h.2 reply s' hB)

/-! ## Kinds of requests -/

/-- A program makes only some requests, whatever the replies are. -/
def Makes (only : I.Request → Prop) : Program I α → Prop
  | done _ => True
  | ask r next => only r ∧ ∀ reply, Makes only (next reply)

variable {only : I.Request → Prop}

theorem Makes.bind {p : Program I α} {f : α → Program I β} (h : p.Makes only)
    (hf : ∀ a, (f a).Makes only) : (p.bind f).Makes only := by
  induction p with
  | done a => exact hf a
  | ask r next ih => exact ⟨h.1, fun reply => ih reply (h.2 reply)⟩

theorem Makes.mono {only' : I.Request → Prop} {p : Program I α} (h : p.Makes only)
    (honly : ∀ r, only r → only' r) : p.Makes only' := by
  induction p with
  | done a => exact trivial
  | ask r next ih => exact ⟨honly r h.1, fun reply => ih reply (h.2 reply)⟩

/-- What is asked for among surroundings that may give every reply is asked for at all. -/
theorem Keeps.makes {post : α → Unit → Prop} {p : Program I α}
    (h : Keeps (fun _ _ _ _ => True) (fun r _ => only r) post p ()) : p.Makes only := by
  induction p with
  | done a => exact trivial
  | ask r next ih => exact ⟨h.1, fun reply => ih reply (h.2 reply () trivial)⟩

/-- A program whose requests are handed on makes the requests of their answers. -/
theorem Makes.through {answer : (r : J.Request) → Program I (J.Reply r)}
    {only' : J.Request → Prop} {p : Program J α} (h : p.Makes only')
    (hanswer : ∀ r, only' r → (answer r).Makes only) : (p.through answer).Makes only := by
  induction p with
  | done a => exact trivial
  | ask r next ih => exact (hanswer r h.1).bind fun reply => ih reply (h.2 reply)

theorem makes_any (p : Program I α) : p.Makes fun _ => True := by
  induction p with
  | done a => exact trivial
  | ask r next ih => exact ⟨trivial, ih⟩

theorem makes_through {answer : (r : J.Request) → Program I (J.Reply r)}
    (hanswer : ∀ r, (answer r).Makes only) (p : Program J α) : (p.through answer).Makes only :=
  (makes_any p).through fun r _ => hanswer r

/-- What the requests of a program allow and preserve holds at its end. -/
theorem Makes.keeps {p : Program I α} {fact : σ → Prop} {s : σ} (h : p.Makes only)
    (hallow : ∀ r s, only r → fact s → allow r s)
    (hstep : ∀ r s reply t, only r → fact s → B r s reply t → fact t) (hs : fact s) :
    Keeps B allow (fun _ t => fact t) p s := by
  induction p generalizing s with
  | done a => exact hs
  | ask r next ih =>
    refine ⟨hallow r s h.1 hs, ?_⟩
    intro reply t hreply
    exact ih reply (h.2 reply) (hstep r s reply t h.1 hs hreply)

end Program

/-! ## Programs that may fail -/

namespace Attempt

open Program

variable {I : Interface} {ε ε' α β σ : Type} {B : Behaviour I σ}

/-- A postcondition for either end of an attempt. -/
def Ends (success : α → σ → Prop) (failure : ε → σ → Prop) : Except ε α → σ → Prop
  | .ok a, s => success a s
  | .error e, s => failure e s

variable {allow : I.Request → σ → Prop} {success : α → σ → Prop} {failure : ε → σ → Prop}

theorem ends_ok (a : α) (s : σ) : Ends success failure (.ok a) s = success a s := rfl

theorem run_bind (x : Attempt I ε α) (f : α → Attempt I ε β) :
    (x >>= f).run = x.run.bind fun
      | .ok a => (f a).run
      | .error e => .done (.error e) := rfl

theorem keeps_bind {x : Attempt I ε α} {f : α → Attempt I ε β} {post : Except ε β → σ → Prop}
    {s : σ} :
    Keeps B allow post (x >>= f).run s ↔
      Keeps B allow (Ends (fun a t => Keeps B allow post (f a).run t) fun e t => post (.error e) t)
        x.run s := by
  rw [run_bind, Program.keeps_bind]
  constructor <;> refine fun h => h.mono fun a t hpost => ?_ <;> cases a <;> exact hpost

/-- Failures under other names. -/
theorem keeps_adapt {x : Attempt I ε α} {f : ε → ε'} {post : Except ε' α → σ → Prop} {s : σ} :
    Keeps B allow post (ExceptT.adapt f x).run s ↔
      Keeps B allow (fun e t => post (e.mapError f) t) x.run s :=
  Program.keeps_bind (p := x.run)

theorem keeps_map {x : Attempt I ε α} {f : α → β} {post : Except ε β → σ → Prop} {s : σ} :
    Keeps B allow post (f <$> x : Attempt I ε β).run s ↔
      Keeps B allow (fun e t => post (e.map f) t) x.run s := by
  have hmap : (f <$> x : Attempt I ε β).run = x.run.bind fun e => .done (e.map f) := by
    refine congrArg x.run.bind (funext fun e => ?_)
    cases e <;> rfl
  rw [hmap]
  exact Program.keeps_bind

/-- A part that cannot fail. -/
theorem keeps_lift {p : Program I α} {post : Except ε α → σ → Prop} {s : σ} :
    Keeps B allow post (ExceptT.lift p : Attempt I ε α).run s ↔
      Keeps B allow (fun a t => post (.ok a) t) p s :=
  Program.keeps_bind (p := p)

theorem keeps_lift_bind {p : Program I α} {f : α → Attempt I ε β} {post : Except ε β → σ → Prop}
    {s : σ} :
    Keeps B allow post ((liftM p : Attempt I ε α) >>= f).run s ↔
      Keeps B allow (fun a t => Keeps B allow post (f a).run t) p s :=
  keeps_bind.trans keeps_lift

theorem keeps_ofExcept {e : Except ε α} {post : Except ε α → σ → Prop} {s : σ} :
    Keeps B allow post (Attempt.ofExcept e : Attempt I ε α).run s ↔ post e s := Iff.rfl

/-- A request that something is carried through, in front of the rest of an attempt. -/
theorem keeps_carries {fact : σ → Prop} {r : I.Request} {f : I.Reply r → Attempt I ε β}
    {post : Except ε β → σ → Prop} {s : σ} (h : Carries B allow fact r) (hs : fact s)
    (hf : ∀ reply t, fact t → Keeps B allow post (f reply).run t) :
    Keeps B allow post ((liftM (Program.request r) : Attempt I ε (I.Reply r)) >>= f).run s :=
  keeps_lift_bind.mpr ((h.keeps hs).mono fun reply t ht => hf reply t ht)

/-! ## Kinds of requests -/

variable {only : I.Request → Prop}

theorem makes_bind {x : Attempt I ε α} {f : α → Attempt I ε β} (h : x.run.Makes only)
    (hf : ∀ a, (f a).run.Makes only) : (x >>= f).run.Makes only := by
  rw [run_bind]
  refine h.bind fun e => ?_
  cases e with
  | ok a => exact hf a
  | error e => exact trivial

theorem makes_adapt {x : Attempt I ε α} (f : ε → ε') (h : x.run.Makes only) :
    (ExceptT.adapt f x).run.Makes only :=
  Makes.bind h fun _ => trivial

theorem makes_lift {p : Program I α} (h : p.Makes only) :
    (ExceptT.lift p : Attempt I ε α).run.Makes only :=
  Makes.bind h fun _ => trivial

theorem makes_lift_bind {p : Program I α} {f : α → Attempt I ε β} (h : p.Makes only)
    (hf : ∀ a, (f a).run.Makes only) :
    ((liftM p : Attempt I ε α) >>= f).run.Makes only :=
  makes_bind (makes_lift h) hf

end Attempt

end PriceOracle
