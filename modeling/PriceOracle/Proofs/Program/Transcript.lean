import PriceOracle.Proofs.Program.Behaviour

/-!
# Transcripts

The requests that a program has made, each with the reply that it got. Surroundings that are `noted`
behave as before and write the transcript along, so that what was asked for, and how often, can be
stated of whole runs.

* `Leads.of_noted`, `Leads.noted`: the runs are those of the surroundings that write nothing.
* `Leads.noted_append`: what is added does not depend on what was there.
* `Leads.noting`: a transcript is one that surroundings may give that answer anything.
* `Makes.noting`: what a program is known to make is all that it adds.
-/

namespace PriceOracle

/-- Requests with the reply to each, in their order. -/
abbrev Transcript (I : Interface) := List ((r : I.Request) × I.Reply r)

namespace Transcript

variable {I : Interface} {β : Type}

/-- What is picked from some of the requests and their replies. -/
def picks (pick : (r : I.Request) → I.Reply r → Option β) (T : Transcript I) : List β :=
  T.filterMap fun entry => pick entry.1 entry.2

theorem picks_concat (pick : (r : I.Request) → I.Reply r → Option β) (T : Transcript I)
    (r : I.Request) (reply : I.Reply r) :
    picks pick (T ++ [⟨r, reply⟩]) = picks pick T ++ (pick r reply).toList := by
  rw [picks, List.filterMap_append, picks]
  cases h : pick r reply <;> simp [h]

end Transcript

namespace Program

variable {I : Interface} {α σ τ : Type} {B : Behaviour I σ} {C : Behaviour I τ}

/-- The surroundings behave as they do, and a transcript is written. -/
def noted (B : Behaviour I σ) : Behaviour I (σ × Transcript I) :=
  fun r x reply y => B r x.1 reply y.1 ∧ y.2 = x.2 ++ [⟨r, reply⟩]

/-- A transcript is written, whatever the replies are. -/
def noting : Behaviour I (Transcript I) := fun r T reply T' => T' = T ++ [⟨r, reply⟩]

/-- A run is one of any surroundings that may answer as its own do. -/
theorem Leads.view {f : σ → τ} {p q : Program I α} {s t : σ} (h : Leads B p s q t)
    (hstep : ∀ r s reply t, B r s reply t → C r (f s) reply (f t)) :
    Leads C p (f s) q (f t) := by
  induction h with
  | here => exact .here _ _
  | ask hreply _ ih => exact .ask (hstep _ _ _ _ hreply) ih

theorem Leads.of_noted {p q : Program I α} {x y : σ × Transcript I}
    (h : Leads (noted B) p x q y) : Leads B p x.1 q y.1 :=
  h.view (f := Prod.fst) fun _ _ _ _ hreply => hreply.1

theorem Leads.noting {p q : Program I α} {x y : σ × Transcript I}
    (h : Leads (noted B) p x q y) : Leads noting p x.2 q y.2 :=
  h.view (f := Prod.snd) fun _ _ _ _ hreply => hreply.2

theorem Leads.noted {p q : Program I α} {s t : σ} (h : Leads B p s q t) (T : Transcript I) :
    ∃ T', Leads (noted B) p (s, T) q (t, T') := by
  induction h generalizing T with
  | here => exact ⟨T, .here _ _⟩
  | @ask r _ reply _ _ _ _ hreply _ ih =>
    obtain ⟨T', hrest⟩ := ih (T ++ [⟨r, reply⟩])
    exact ⟨T', .ask ⟨hreply, rfl⟩ hrest⟩

/-- What a run adds to a transcript does not depend on what it finds there. -/
theorem Leads.noted_append {p q : Program I α} {x y : σ × Transcript I} {T more : Transcript I}
    (h : Leads (Program.noted B) p x q y) (hx : x.2 = T ++ more) :
    ∃ more', y.2 = T ++ more' ∧ Leads (Program.noted B) p (x.1, more) q (y.1, more') := by
  induction h generalizing more with
  | here => exact ⟨more, hx, .here _ _⟩
  | @ask r _ reply x x₁ _ _ hreply _ ih =>
    obtain ⟨hstep, hentry⟩ := hreply
    have hfirst : Program.noted B r (x.1, more) reply (x₁.1, more ++ [⟨r, reply⟩]) := ⟨hstep, rfl⟩
    rw [hx, List.append_assoc] at hentry
    obtain ⟨more', hy, hrest⟩ := ih hentry
    exact ⟨more', hy, .ask hfirst hrest⟩

/-- One request, and the entry of it. -/
theorem Keeps.noted_request {allow : I.Request → σ × Transcript I → Prop} {r : I.Request} {s : σ}
    {T : Transcript I} {post : I.Reply r → σ × Transcript I → Prop} (hallow : allow r (s, T))
    (h : Keeps B (fun _ _ => True) (fun reply t => post reply (t, T ++ [⟨r, reply⟩])) (request r)
      s) :
    Keeps (Program.noted B) allow post (request r) (s, T) := by
  refine ⟨hallow, ?_⟩
  rintro reply ⟨t, T'⟩ ⟨hreply, hentry⟩
  obtain rfl : T' = T ++ [⟨r, reply⟩] := hentry
  exact h.2 reply t hreply

/-- A program adds to a transcript only what it makes. -/
theorem Makes.noting {only : I.Request → Prop} {p : Program I α} (h : p.Makes only)
    (T : Transcript I) :
    Keeps noting (fun _ _ => True) (fun _ T' => ∃ more, T' = T ++ more ∧ ∀ e ∈ more, only e.1)
      p T := by
  have hstart : ∃ more, T = T ++ more ∧ ∀ e ∈ more, only e.1 := ⟨[], by simp⟩
  refine h.keeps (fun _ _ _ _ => trivial) ?_ hstart
  rintro r _ reply _ hr ⟨more, rfl, hmore⟩ rfl
  exact ⟨more ++ [⟨r, reply⟩], List.append_assoc _ _ _,
    List.forall_mem_append.mpr ⟨hmore, List.forall_mem_singleton.mpr hr⟩⟩

end Program

end PriceOracle
