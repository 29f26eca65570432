/-!
# Programs over requests

A `Program` is a tree: it is done with a value, or it asks its surroundings for something and
goes on with the reply. What the surroundings do is left open, so one program can be run against
a live service, a scripted one, or every possible one in a proof.

* `Interface`: the requests that a program may make, and the type of the reply to each.
* `Program.bind`: sequencing, with the monad laws.
* `Program.through`: answers each request of a program by a program over another interface.
* `Program.run`: answers each request by a function on a state.
* `Program.runIn`: answers each request by an action of a monad.
-/

namespace PriceOracle

/-- Requests, and the type of the reply to each. -/
structure Interface where
  Request : Type
  Reply : Request → Type

/-- A computation that makes requests one after the other. -/
inductive Program (I : Interface) (α : Type) : Type where
  | done (value : α)
  | ask (request : I.Request) (next : I.Reply request → Program I α)

namespace Program

variable {I J : Interface} {α β γ σ : Type}

/-- Runs one program and goes on with its value. -/
def bind : Program I α → (α → Program I β) → Program I β
  | done a, f => f a
  | ask r next, f => ask r fun reply => (next reply).bind f

instance : Monad (Program I) where
  pure := done
  bind := bind

/-- The program that makes one request and is done with the reply. -/
def request (r : I.Request) : Program I (I.Reply r) := ask r done

/-! `simp` runs programs through these, so that no proof has to unfold `bind`. -/

@[simp] theorem pure_eq (a : α) : (pure a : Program I α) = done a := rfl

@[simp] theorem bind_eq (p : Program I α) (f : α → Program I β) : p >>= f = p.bind f := rfl

@[simp] theorem done_bind (a : α) (f : α → Program I β) : (done a).bind f = f a := rfl

@[simp] theorem ask_bind (r : I.Request) (next : I.Reply r → Program I α) (f : α → Program I β) :
    (ask r next).bind f = ask r fun reply => (next reply).bind f := rfl

@[simp] theorem bind_done (p : Program I α) : p.bind done = p := by
  induction p with
  | done a => rfl
  | ask r next ih => simp [ih]

theorem bind_assoc (p : Program I α) (f : α → Program I β) (g : β → Program I γ) :
    (p.bind f).bind g = p.bind fun a => (f a).bind g := by
  induction p with
  | done a => rfl
  | ask r next ih => simp [ih]

/-- Answers each request by a program over another interface. -/
def through (answer : (r : I.Request) → Program J (I.Reply r)) : Program I α → Program J α
  | done a => done a
  | ask r next => (answer r).bind fun reply => (next reply).through answer

/-- Answers each request by a function on a state. -/
def run (answer : (r : I.Request) → σ → I.Reply r × σ) : Program I α → σ → α × σ
  | done a, s => (a, s)
  | ask r next, s => (next (answer r s).1).run answer (answer r s).2

@[simp] theorem run_done (answer : (r : I.Request) → σ → I.Reply r × σ) (a : α) (s : σ) :
    (done a : Program I α).run answer s = (a, s) := rfl

theorem run_bind (answer : (r : I.Request) → σ → I.Reply r × σ) (p : Program I α)
    (f : α → Program I β) (s : σ) :
    (p.bind f).run answer s = (f (p.run answer s).1).run answer (p.run answer s).2 := by
  induction p generalizing s with
  | done a => rfl
  | ask r next ih => simp [run, ih]

/-- Answers each request by an action of a monad. -/
def runIn {m : Type → Type} [Monad m] (answer : (r : I.Request) → m (I.Reply r)) :
    Program I α → m α
  | done a => pure a
  | ask r next => answer r >>= fun reply => (next reply).runIn answer

end Program

/-- A program that may fail. -/
abbrev Attempt (I : Interface) (ε α : Type) := ExceptT ε (Program I) α

/-- The attempt whose outcome is given. -/
def Attempt.ofExcept {I : Interface} {ε α : Type} (e : Except ε α) : Attempt I ε α :=
  ExceptT.mk (.done e)

end PriceOracle
