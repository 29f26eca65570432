import PriceOracle.Proofs.Node.Calls
import PriceOracle.Proofs.Program.Endings
import PriceOracle.Proofs.Round

/-!
# Waiting for confirmations

A wait looks for the receipt of a transaction, and for the latest block once there is one, until the
receipt lies deep enough or time is up. `Look` has the transcripts of one look with what comes of
each, and `Wait` those of the looks one after the other, each but the last followed by a pause.

`confirmed_iff_mined`: on a machine whose clock does not run backwards, every wait comes to such an
end. A receipt is given only if it was told in the last look and lies deep enough below the latest
block told after it. A depth beyond 64 bits breaks the wait off, so that such a receipt is not given
(`Beyond`). One without a block counts as in the first block there is, so that it is given
as well: what is given is mined exactly if the node told a block (`confirmed_unmined`).
-/

namespace PriceOracle.Node

open Program (Answered Ensures Keeps Leads noted)

/-! ## Time -/

/-- Nodes that may answer anything, at a time in nanoseconds. The clock does not run backwards,
nobody is woken up early, and even a pause of no length takes some time. -/
def timely : Behaviour interface Nat
  | .elapsed, t, now, t' => t ≤ Duration.nanos now ∧ Duration.nanos now ≤ t'
  | .sleep d, t, _, t' => t + max d.nanos 1 ≤ t'
  | _, t, _, t' => t ≤ t'

theorem answered_timely : Answered timely := by
  intro r t
  cases r with
  | elapsed => exact ⟨(⟨t⟩ : Duration), t, Nat.le_refl t, Nat.le_refl t⟩
  | sleep d => exact ⟨(), t + max d.nanos 1, Nat.le_refl _⟩
  | read path => exact ⟨(none : Option ByteArray), t, Nat.le_refl t⟩
  | chainId url => exact ⟨(.error "" : Except String UInt64), t, Nat.le_refl t⟩
  | call url target data => exact ⟨(.error "" : Except String (List UInt8)), t, Nat.le_refl t⟩
  | send url chainId signer target data =>
    exact ⟨(.error "" : Except String TxHash), t, Nat.le_refl t⟩
  | receipt url hash => exact ⟨(.error "" : Except String (Option MinedAt)), t, Nat.le_refl t⟩
  | transaction url hash => exact ⟨(.error "" : Except String Bool), t, Nat.le_refl t⟩
  | blockNumber url => exact ⟨(.error "" : Except String UInt64), t, Nat.le_refl t⟩

namespace PriceFeed

variable {options : Options} {known known' : Known} {d : Destination} {hash : TxHash}
  {c latest block : UInt64} {start : Duration} {t : Nat} {T : Transcript interface}

/-! ## Depth -/

/-- A block lies under as many as are asked for, itself included. One that lies above the latest
block counts as a single one. -/
def Buried (c latest block : UInt64) : Prop :=
  c.toNat + block.toNat ≤ latest.toNat + 1 ∨ (latest < block ∧ c = 1)

/-- The number of blocks takes more than 64 bits: that of the first block, under the last one that
there can be. -/
def Beyond (latest block : UInt64) : Prop := latest.toNat + 1 = 2 ^ 64 ∧ block = 0

/-- A block lies deep enough for a wait to end, at a depth that can be counted. -/
def Reached (c latest block : UInt64) : Prop := Buried c latest block ∧ ¬Beyond latest block

instance : Decidable (Buried c latest block) := inferInstanceAs (Decidable (_ ∨ _))

instance : Decidable (Beyond latest block) := inferInstanceAs (Decidable (_ ∧ _))

instance : Decidable (Reached c latest block) := inferInstanceAs (Decidable (_ ∧ _))

theorem depth_eq_none : depth latest block = none ↔ Beyond latest block := by
  have hzero : (0 : UInt64).toNat = 0 := rfl
  have hlatest := latest.toNat_lt
  rw [depth, successor_eq_none, Beyond, ← UInt64.toNat_inj, hzero]
  split
  next habove =>
    rw [UInt64.lt_iff_toNat_lt] at habove
    omega
  next hbelow =>
    have hle := UInt64.not_lt.mp hbelow
    rw [UInt64.toNat_sub_of_le latest block hle]
    rw [UInt64.le_iff_toNat_le] at hle
    omega

theorem le_depth_iff {k : UInt64} (hc : 1 ≤ c) (h : depth latest block = some k) :
    c ≤ k ↔ Buried c latest block := by
  have hone : (1 : UInt64).toNat = 1 := rfl
  have hzero : (0 : UInt64).toNat = 0 := rfl
  rw [depth, successor_eq_some] at h
  rw [Buried, ← UInt64.toNat_inj, UInt64.lt_iff_toNat_lt, UInt64.le_iff_toNat_le]
  rw [UInt64.le_iff_toNat_le] at hc
  split at h
  next habove =>
    rw [UInt64.lt_iff_toNat_lt] at habove
    omega
  next hbelow =>
    have hle := UInt64.not_lt.mp hbelow
    rw [UInt64.toNat_sub_of_le latest block hle] at h
    rw [UInt64.le_iff_toNat_le] at hle
    omega

/-- Whatever depth is asked for, it is less than one that cannot be counted. -/
theorem Buried.of_beyond (h : Beyond latest block) : Buried c latest block := by
  obtain ⟨hlatest, rfl⟩ := h
  have hzero : (0 : UInt64).toNat = 0 := rfl
  have hc := c.toNat_lt
  refine .inl ?_
  omega

section

variable {r : Receipt} (known : Known)

/-- A depth that cannot be counted breaks a wait off. -/
theorem run_judge_of_beyond (h : Beyond latest r.block) :
    run (judge c latest r) known = .done (.error .overflow, known) := by
  rw [judge, depth_eq_none.mpr h]
  rfl

/-- A receipt is given at a depth that can be counted and is enough. -/
theorem run_judge_of_reached (hc : 1 ≤ c) (h : Reached c latest r.block) :
    run (judge c latest r) known = .done (.ok (some r), known) := by
  obtain ⟨k, hk⟩ := Option.ne_none_iff_exists'.mp (mt depth_eq_none.mp h.2)
  have hdeep : c ≤ k := (le_depth_iff hc hk).mpr h.1
  rw [judge, hk]
  simp only [if_pos hdeep]
  rfl

/-- It is kept back while it does not lie deep enough. -/
theorem run_judge_of_not_buried (hc : 1 ≤ c) (h : ¬Buried c latest r.block) :
    run (judge c latest r) known = .done (.ok none, known) := by
  obtain ⟨k, hk⟩ := Option.ne_none_iff_exists'.mp (mt depth_eq_none.mp (mt Buried.of_beyond h))
  have hshallow : ¬c ≤ k := mt (le_depth_iff hc hk).mp h
  rw [judge, hk]
  simp only [if_neg hshallow]
  rfl

end

/-! ## Looks -/

/-- What is made of a receipt. -/
def told (m : MinedAt) : Receipt := ⟨m.hash, m.block.getD 0, m.success⟩

/-- The entry of a receipt that was asked for. -/
def receiptTold (d : Destination) (hash : TxHash) (answer : Except String (Option MinedAt)) :
    (r : interface.Request) × interface.Reply r :=
  ⟨.receipt d.endpoint.url hash, answer⟩

/-- The entry of the latest block. -/
def headTold (d : Destination) (answer : Except String UInt64) :
    (r : interface.Request) × interface.Reply r :=
  ⟨.blockNumber d.endpoint.url, answer⟩

/-- What one look asks for, and what comes of it. -/
inductive Look (d : Destination) (hash : TxHash) (c : UInt64) :
    Transcript interface → Except PublishError (Option Receipt) → Prop where
  | malformed (h : hash.bytes.length ≠ 32) :
    Look d hash c [] (.error (.network s!"transaction hash {hash.text} is not 32 bytes"))
  | unread (hlength : hash.bytes.length = 32) (reason : String) :
    Look d hash c [receiptTold d hash (.error reason)]
      (.error (sorted "Failed to get receipt" reason))
  | absent (hlength : hash.bytes.length = 32) :
    Look d hash c [receiptTold d hash (.ok none)] (.ok none)
  | headless (hlength : hash.bytes.length = 32) (m : MinedAt) (reason : String) :
    Look d hash c [receiptTold d hash (.ok (some m)), headTold d (.error reason)]
      (.error (sorted "Failed to get block number" reason))
  | beyond (hlength : hash.bytes.length = 32) {m : MinedAt} {latest : UInt64}
    (h : Beyond latest (m.block.getD 0)) :
    Look d hash c [receiptTold d hash (.ok (some m)), headTold d (.ok latest)] (.error .overflow)
  | shallow (hlength : hash.bytes.length = 32) {m : MinedAt} {latest : UInt64}
    (h : ¬Buried c latest (m.block.getD 0)) :
    Look d hash c [receiptTold d hash (.ok (some m)), headTold d (.ok latest)] (.ok none)
  | deep (hlength : hash.bytes.length = 32) {m : MinedAt} {latest : UInt64}
    (h : Reached c latest (m.block.getD 0)) :
    Look d hash c [receiptTold d hash (.ok (some m)), headTold d (.ok latest)]
      (.ok (some (told m)))

/-- What a look asks for at an endpoint that is remembered. -/
theorem keeps_look (h : known.has d.endpoint = true) (hc : 1 ≤ c) :
    Keeps (noted timely) (fun _ _ => True) (fun y x => y.2 = known ∧ t ≤ x.1 ∧ ∃ looked,
      x.2 = T ++ looked ∧ Look d hash c looked y.1) (run (look options d hash c) known) (t, T) := by
  obtain ⟨key, hconnect⟩ := run_connect options h
  rw [look, run_bind, receipt, run_bind, hconnect]
  show Keeps _ _ _ ((run (checkHash hash >>= _) known).bind _) _
  rw [run_bind, checkHash]
  by_cases hlength : hash.bytes.length = 32
  · rw [if_pos hlength]
    refine ⟨trivial, ?_⟩
    rintro answer ⟨t₁, T₁⟩ ⟨hlater, rfl⟩
    change Except String (Option MinedAt) at answer
    have hle : t ≤ t₁ := hlater
    rcases answer with reason | _ | m
    · exact ⟨rfl, hle, _, rfl, .unread hlength reason⟩
    · exact ⟨rfl, hle, _, rfl, .absent hlength⟩
    -- With a receipt, the latest block is asked for.
    · refine ⟨trivial, ?_⟩
      rintro head ⟨t₂, T₂⟩ ⟨hlater', rfl⟩
      change Except String UInt64 at head
      have hle' : t ≤ t₂ := Nat.le_trans hle hlater'
      have hentries (head : Except String UInt64) :
          T ++ [receiptTold d hash (.ok (some m))] ++ [headTold d head] =
            T ++ [receiptTold d hash (.ok (some m)), headTold d head] := by simp
      cases head with
      | error reason => exact ⟨rfl, hle', _, hentries _, .headless hlength m reason⟩
      | ok latest =>
        show Keeps _ _ _ (run (judge c latest (told m)) known) _
        by_cases hbeyond : Beyond latest (m.block.getD 0)
        · rw [run_judge_of_beyond known hbeyond]
          exact ⟨rfl, hle', _, hentries _, .beyond hlength hbeyond⟩
        by_cases hburied : Buried c latest (m.block.getD 0)
        · rw [run_judge_of_reached known hc ⟨hburied, hbeyond⟩]
          exact ⟨rfl, hle', _, hentries _, .deep hlength ⟨hburied, hbeyond⟩⟩
        · rw [run_judge_of_not_buried known hc hburied]
          exact ⟨rfl, hle', _, hentries _, .shallow hlength hburied⟩
  · rw [if_neg hlength]
    exact ⟨rfl, Nat.le_refl t, [], (List.append_nil T).symm, .malformed hlength⟩

/-- Nothing of it takes any time. -/
theorem leads_look {looked : Transcript interface} {reply : Except PublishError (Option Receipt)}
    (h : known.has d.endpoint = true) (hc : 1 ≤ c) (hlook : Look d hash c looked reply) :
    Leads (noted timely) (run (look options d hash c) known) (t, T) (.done (reply, known))
      (t, T ++ looked) := by
  obtain ⟨key, hconnect⟩ := run_connect options h
  rw [look, run_bind, receipt, run_bind, hconnect]
  show Leads _ ((run (checkHash hash >>= _) known).bind _) _ _ _
  rw [run_bind, checkHash]
  have hasked (T : Transcript interface) (answer : Except String (Option MinedAt)) :
      noted timely (.receipt d.endpoint.url hash) (t, T) answer
        (t, T ++ [receiptTold d hash answer]) := ⟨Nat.le_refl t, rfl⟩
  have hhead (T : Transcript interface) (m : MinedAt) (answer : Except String UInt64) :
      noted timely (.blockNumber d.endpoint.url) (t, T ++ [receiptTold d hash (.ok (some m))])
        answer (t, T ++ [receiptTold d hash (.ok (some m)), headTold d answer]) :=
    ⟨Nat.le_refl t, by simp [headTold]⟩
  have hends {m : MinedAt} {latest : UInt64} {outcome : Except PublishError (Option Receipt)}
      {x : Nat × Transcript interface}
      (hjudge : run (judge c latest (told m)) known = .done (outcome, known)) :
      Leads (noted timely) (run (judge c latest (told m)) known) x (.done (outcome, known)) x := by
    rw [hjudge]
    exact .here _ _
  cases hlook with
  | malformed hlength =>
    rw [if_neg hlength, List.append_nil]
    exact .here _ _
  | unread hlength reason =>
    rw [if_pos hlength]
    exact .ask (hasked T (.error reason)) (.here _ _)
  | absent hlength =>
    rw [if_pos hlength]
    exact .ask (hasked T (.ok none)) (.here _ _)
  | headless hlength m reason =>
    rw [if_pos hlength]
    exact .ask (hasked T (.ok (some m))) (.ask (hhead T m (.error reason)) (.here _ _))
  | @beyond hlength m latest hbeyond =>
    rw [if_pos hlength]
    exact .ask (hasked T (.ok (some m))) (.ask (hhead T m (.ok latest))
      (hends (run_judge_of_beyond known hbeyond)))
  | @shallow hlength m latest hshallow =>
    rw [if_pos hlength]
    exact .ask (hasked T (.ok (some m))) (.ask (hhead T m (.ok latest))
      (hends (run_judge_of_not_buried known hc hshallow)))
  | @deep hlength m latest hdeep =>
    rw [if_pos hlength]
    exact .ask (hasked T (.ok (some m))) (.ask (hhead T m (.ok latest))
      (hends (run_judge_of_reached known hc hdeep)))

/-! ## Waits -/

/-- What the looks of a wait ask for from some time on, one after the other, and what comes of
them. -/
inductive Wait (options : Options) (d : Destination) (hash : TxHash) (c : UInt64)
    (start : Duration) : Nat → Transcript interface → Except PublishError Receipt → Prop where
  | late {t : Nat} {now : Duration} (hle : t ≤ now.nanos)
    (h : start.nanos + options.patience.nanos < now.nanos) :
    Wait options d hash c start t [⟨.elapsed, now⟩] (.error (unconfirmed options hash c))
  | again {t : Nat} {now : Duration} {looked rest : Transcript interface}
    {reply : Except PublishError Receipt} (hle : t ≤ now.nanos)
    (h : now.nanos ≤ start.nanos + options.patience.nanos)
    (hlook : Look d hash c looked (.ok none))
    (hrest : Wait options d hash c start (now.nanos + max options.pause.nanos 1) rest reply) :
    Wait options d hash c start t
      (⟨.elapsed, now⟩ :: (looked ++ ⟨.sleep options.pause, ()⟩ :: rest)) reply
  | found {t : Nat} {now : Duration} {looked : Transcript interface} {r : Receipt}
    (hle : t ≤ now.nanos) (h : now.nanos ≤ start.nanos + options.patience.nanos)
    (hlook : Look d hash c looked (.ok (some r))) :
    Wait options d hash c start t (⟨.elapsed, now⟩ :: looked) (.ok r)
  | failed {t : Nat} {now : Duration} {looked : Transcript interface} {err : PublishError}
    (hle : t ≤ now.nanos) (h : now.nanos ≤ start.nanos + options.patience.nanos)
    (hlook : Look d hash c looked (.error err)) :
    Wait options d hash c start t (⟨.elapsed, now⟩ :: looked) (.error err)

theorem Wait.of_le {t' : Nat} {W : Transcript interface} {reply : Except PublishError Receipt}
    (h : Wait options d hash c start t' W reply) (ht : t ≤ t') :
    Wait options d hash c start t W reply := by
  cases h with
  | late hle h => exact .late (Nat.le_trans ht hle) h
  | again hle h hlook hrest => exact .again (Nat.le_trans ht hle) h hlook hrest
  | found hle h hlook => exact .found (Nat.le_trans ht hle) h hlook
  | failed hle h hlook => exact .failed (Nat.le_trans ht hle) h hlook

/-- A receipt that is given was told in the last look, and lies deep enough below the latest block
that was told after it. -/
theorem Wait.of_ok {r : Receipt} {W : Transcript interface}
    (h : Wait options d hash c start t W (.ok r)) : ∃ before m latest,
      W = before ++ [receiptTold d hash (.ok (some m)), headTold d (.ok latest)] ∧ r = told m ∧
        Reached c latest (m.block.getD 0) := by
  generalize hreply : Except.ok r = reply at h
  induction h with
  | late => cases hreply
  | failed => cases hreply
  | @again _ now looked _ _ _ _ _ _ ih =>
    obtain ⟨before, m, latest, rfl, hr⟩ := ih hreply
    refine ⟨⟨.elapsed, now⟩ :: (looked ++ ⟨.sleep options.pause, ()⟩ :: before), m, latest, ?_, hr⟩
    simp
  | @found _ now _ _ _ _ hlook =>
    cases hreply
    cases hlook with
    | deep _ hreached => exact ⟨[⟨.elapsed, now⟩], _, _, rfl, rfl, hreached⟩

/-- Time is up before a number of pauses is over. -/
def Suffices (options : Options) (start : Duration) (t pauses : Nat) : Prop :=
  start.nanos + options.patience.nanos < t + pauses * max options.pause.nanos 1

theorem suffices_looks (h : start.nanos ≤ t) :
    Suffices options start t (options.patience.nanos / max options.pause.nanos 1 + 1) := by
  have hpause : 0 < max options.pause.nanos 1 := Nat.le_max_right _ _
  have hlast := Nat.lt_mul_div_succ options.patience.nanos hpause
  rw [Nat.mul_comm] at hlast
  exact Nat.add_lt_add_of_le_of_lt h hlast

/-- The looks do not run out before time is up. -/
theorem keeps_poll (h : known.has d.endpoint = true) (hc : 1 ≤ c) {pauses : Nat}
    (hpauses : Suffices options start t pauses) :
    Keeps (noted timely) (fun _ _ => True) (fun y x => y.2 = known ∧ ∃ W, x.2 = T ++ W ∧
      Wait options d hash c start t W y.1) (run (poll options d hash c start (pauses + 1)) known)
      (t, T) := by
  induction pauses generalizing t T with
  | zero =>
    refine ⟨trivial, ?_⟩
    rintro now ⟨t₁, T₁⟩ ⟨⟨hle, -⟩, rfl⟩
    change Duration at now
    have hlate : start.nanos + options.patience.nanos < now.nanos := by
      rw [Suffices, Nat.zero_mul] at hpauses
      exact Nat.lt_of_lt_of_le hpauses hle
    show Keeps _ _ _ (run (if _ then _ else _) known) _
    rw [if_pos hlate]
    exact ⟨rfl, _, rfl, .late hle hlate⟩
  | succ pauses ih =>
    refine ⟨trivial, ?_⟩
    rintro now ⟨t₁, T₁⟩ ⟨⟨hle, hnow⟩, rfl⟩
    change Duration at now
    show Keeps _ _ _ (run (if _ then _ else _) known) _
    split_ifs with hlate
    · exact ⟨rfl, _, rfl, .late hle hlate⟩
    · have hin := Nat.not_lt.mp hlate
      show Keeps _ _ _ (run (look options d hash c >>= _) known) _
      rw [run_bind]
      refine Program.keeps_bind.mpr ((keeps_look h hc).mono ?_)
      rintro ⟨outcome, known'⟩ ⟨t₂, T₂⟩ ⟨rfl, hle', looked, rfl, hlook⟩
      rcases outcome with err | _ | r
      · exact ⟨rfl, _, List.append_assoc _ _ _, .failed hle hin hlook⟩
      · -- The pause is over after as much time as is left out for it.
        refine ⟨trivial, ?_⟩
        rintro ⟨⟩ ⟨t₃, T₃⟩ ⟨hpause, rfl⟩
        have hlater : now.nanos + max options.pause.nanos 1 ≤ t₃ :=
          Nat.le_trans (Nat.add_le_add_right (Nat.le_trans hnow hle') _) hpause
        have hrest : Suffices options start t₃ pauses := by
          rw [Suffices, Nat.succ_mul] at hpauses
          rw [Suffices]
          omega
        refine (ih hrest).mono ?_
        rintro y x ⟨hy, W, hx, hwait⟩
        exact ⟨hy, _, by simp [hx], .again hle hin hlook (hwait.of_le hlater)⟩
      · exact ⟨rfl, _, List.append_assoc _ _ _, .found hle hin hlook⟩

/-- What follows a look. -/
def afterLook (options : Options) (d : Destination) (hash : TxHash) (c : UInt64)
    (start : Duration) (looks : Nat) : Except PublishError (Option Receipt) → Use Receipt
  | .error err => throw err
  | .ok (some r) => pure r
  | .ok none => ask (.sleep options.pause) >>= fun _ => poll options d hash c start looks

/-- In time, a look is made. -/
theorem leads_afterLook {now : Duration} {looked : Transcript interface} {looks : Nat}
    {found : Except PublishError (Option Receipt)} (h : known.has d.endpoint = true) (hc : 1 ≤ c)
    (hle : t ≤ now.nanos) (hin : now.nanos ≤ start.nanos + options.patience.nanos)
    (hlook : Look d hash c looked found) :
    Leads (noted timely) (run (poll options d hash c start (looks + 1)) known) (t, T)
      (run (afterLook options d hash c start looks found) known)
      (now.nanos, T ++ ⟨.elapsed, now⟩ :: looked) := by
  have helapsed : noted timely .elapsed (t, T) now (now.nanos, T ++ [⟨.elapsed, now⟩]) :=
    ⟨⟨hle, Nat.le_refl _⟩, rfl⟩
  refine .ask helapsed ?_
  show Leads _ (run (if _ then _ else _) known) _ _ _
  rw [if_neg (Nat.not_lt.mpr hin)]
  show Leads _ (run (look options d hash c >>= _) known) _ _ _
  rw [run_bind, List.append_cons T _ looked]
  refine ((leads_look h hc hlook).bind _).trans ?_
  rcases found with err | _ | r <;> exact .here _ _

/-- Every such course of the looks may be taken. -/
theorem leads_poll {W : Transcript interface} {reply : Except PublishError Receipt} {pauses : Nat}
    (h : known.has d.endpoint = true) (hc : 1 ≤ c) (hpauses : Suffices options start t pauses)
    (hwait : Wait options d hash c start t W reply) :
    ∃ t', Leads (noted timely) (run (poll options d hash c start (pauses + 1)) known) (t, T)
      (.done (reply, known)) (t', T ++ W) := by
  induction hwait generalizing pauses T with
  | @late t now hle hlate =>
    have helapsed : noted timely .elapsed (t, T) now (now.nanos, T ++ [⟨.elapsed, now⟩]) :=
      ⟨⟨hle, Nat.le_refl _⟩, rfl⟩
    refine ⟨now.nanos, .ask helapsed ?_⟩
    show Leads _ (run (if _ then _ else _) known) _ _ _
    rw [if_pos hlate]
    exact .here _ _
  | @again t now looked rest reply hle hin hlook hrest ih =>
    cases pauses with
    | zero =>
      rw [Suffices, Nat.zero_mul] at hpauses
      omega
    | succ pauses =>
      -- Every pause counts as a nanosecond at least, so one look less suffices for the rest.
      have hsuffices : Suffices options start (now.nanos + max options.pause.nanos 1) pauses := by
        rw [Suffices, Nat.succ_mul] at hpauses
        rw [Suffices]
        omega
      have hpause : noted timely (.sleep options.pause) (now.nanos, T ++ ⟨.elapsed, now⟩ :: looked)
          () (now.nanos + max options.pause.nanos 1,
            T ++ ⟨.elapsed, now⟩ :: looked ++ [⟨.sleep options.pause, ()⟩]) :=
        ⟨Nat.le_refl _, rfl⟩
      have hentries : T ++ ⟨.elapsed, now⟩ :: (looked ++ ⟨.sleep options.pause, ()⟩ :: rest) =
          T ++ ⟨.elapsed, now⟩ :: looked ++ [⟨.sleep options.pause, ()⟩] ++ rest := by simp
      obtain ⟨t', hrun⟩ := ih hsuffices
      refine ⟨t', (leads_afterLook h hc hle hin hlook).trans (.ask hpause ?_)⟩
      rw [hentries]
      exact hrun
  | found hle hin hlook => exact ⟨_, leads_afterLook h hc hle hin hlook⟩
  | failed hle hin hlook => exact ⟨_, leads_afterLook h hc hle hin hlook⟩

/-- How a wait for a confirmation ends. -/
inductive Waited (options : Options) (d : Destination) (hash : TxHash) (c : UInt64)
    (known : Known) (t : Nat) :
    Except PublishError Receipt × Known → Transcript interface → Prop where
  | refused {err : PublishError} {known' : Known} {t₁ : Nat} {T : Transcript interface}
    (h : Leads (noted timely) (run (connect options d.endpoint) known) (t, [])
      (.done (.error err, known')) (t₁, T)) :
    Waited options d hash c known t (.error err, known') T
  | connected {key : Option Secp256k1.PrivateKey} {known' : Known} {t₁ : Nat} {start : Duration}
    {T W : Transcript interface} {reply : Except PublishError Receipt}
    (h : Leads (noted timely) (run (connect options d.endpoint) known) (t, [])
      (.done (.ok key, known')) (t₁, T))
    (hstart : t₁ ≤ start.nanos) (hwait : Wait options d hash c start start.nanos W reply) :
    Waited options d hash c known t (reply, known') (T ++ ⟨.elapsed, start⟩ :: W)

/-- A remembered endpoint is not checked, and the looks begin at once. -/
theorem waited_of_remembered {W : Transcript interface} {reply : Except PublishError Receipt}
    (h : known.has d.endpoint = true) (hwait : Wait options d hash c ⟨t⟩ t W reply) :
    Waited options d hash c known t (reply, known) (⟨.elapsed, (⟨t⟩ : Duration)⟩ :: W) := by
  obtain ⟨key, hconnect⟩ := run_connect options h
  have hrun : Leads (noted timely) (run (connect options d.endpoint) known) (t, [])
      (.done (.ok key, known)) (t, []) := hconnect ▸ .here _ _
  exact .connected hrun (Nat.le_refl t) hwait

/-- A receipt that is given ends the last look. -/
theorem Waited.of_ok {r : Receipt} (h : Waited options d hash c known t (.ok r, known') T) :
    ∃ before m latest,
      T = before ++ [receiptTold d hash (.ok (some m)), headTold d (.ok latest)] ∧ r = told m ∧
        Reached c latest (m.block.getD 0) := by
  cases h with
  | @connected _ _ _ start T W _ _ _ hwait =>
    obtain ⟨before, m, latest, rfl, hr⟩ := hwait.of_ok
    exact ⟨T ++ ⟨.elapsed, start⟩ :: before, m, latest, by simp, hr⟩

/-- A receipt that lies deep enough is one of a mined transaction exactly if it has a block. -/
theorem mined_iff {m : MinedAt} (h : Reached c latest (m.block.getD 0)) :
    (∃ b, m.block = some b ∧ Buried c latest b) ↔ m.block.isSome := by
  constructor
  · rintro ⟨b, hb, -⟩
    rw [hb]
    rfl
  · intro hsome
    obtain ⟨b, hb⟩ := Option.isSome_iff_exists.mp hsome
    rw [hb] at h
    exact ⟨b, hb, h.1⟩

/-- A call remembers the endpoint that it connected to. -/
theorem has_of_connect {key : Option Secp256k1.PrivateKey} {x : Nat × Transcript interface}
    (h : Leads (noted timely) (run (connect options d.endpoint) known) (t, [])
      (.done (.ok key, known')) x) : known'.has d.endpoint = true := by
  obtain ⟨check, -, hkept, -⟩ := course_of_leads opens_connect (.nil _) h.noting
  exact hkept.has

theorem keeps_confirmation (hc : 1 ≤ c) :
    Keeps (noted timely) (fun _ _ => True) (fun y x => Waited options d hash c known t y x.2)
      (run (confirmation options d hash c) known) (t, []) := by
  rw [confirmation, run_bind]
  refine Program.keeps_bind.mpr (Program.keeps_of_leads ?_)
  rintro ⟨outcome, known'⟩ ⟨t₁, T₁⟩ hconnect
  cases outcome with
  | error err => exact .refused hconnect
  | ok key =>
    refine ⟨trivial, ?_⟩
    rintro start ⟨t₂, T₂⟩ ⟨⟨hle, hstart⟩, rfl⟩
    refine (keeps_poll (has_of_connect hconnect) hc (suffices_looks hstart)).mono ?_
    rintro ⟨reply, known''⟩ ⟨t₃, T₃⟩ ⟨rfl, W, rfl, hwait⟩
    rw [List.append_assoc, List.singleton_append]
    exact .connected hconnect hle (hwait.of_le hstart)

/-- The runs of a wait are exactly those. -/
theorem waited_iff (hc : 1 ≤ c) {y : Except PublishError Receipt × Known} :
    (∃ t', Leads (noted timely) (run (confirmation options d hash c) known) (t, [])
      (.done y) (t', T)) ↔ Waited options d hash c known t y T := by
  constructor
  · rintro ⟨t', hrun⟩
    exact (keeps_confirmation hc).leads hrun
  · intro hwaited
    rw [confirmation, run_bind]
    cases hwaited with
    | refused hconnect => exact ⟨_, hconnect.bind _⟩
    | @connected key known' t₁ start T₁ W reply hconnect hle hwait =>
      have helapsed : noted timely .elapsed (t₁, T₁) start
          (start.nanos, T₁ ++ [⟨.elapsed, start⟩]) := ⟨⟨hle, Nat.le_refl _⟩, rfl⟩
      obtain ⟨t', hrun⟩ := leads_poll (has_of_connect hconnect) hc (suffices_looks (Nat.le_refl _))
        hwait
      refine ⟨t', (hconnect.bind _).trans (.ask helapsed ?_)⟩
      rw [List.append_cons T₁ _ W]
      exact hrun

/-- Every wait comes to its end: its endpoint is refused, or its looks go on until one gives a
receipt or fails, or until time is up. A receipt that is given was told in the last look and lies
deep enough below the latest block told after it, where one without a block counts as in the first.
So the transaction is mined and buried exactly if the node told a block. -/
theorem confirmed_iff_mined (options : Options) (d : Destination) (hash : TxHash) (known : Known)
    (t : Nat) (hc : 1 ≤ c) :
    Ensures (noted timely) (fun y x => Waited options d hash c known t y x.2 ∧
      ∀ r, y.1 = .ok r → ∃ before m latest,
        x.2 = before ++ [receiptTold d hash (.ok (some m)), headTold d (.ok latest)] ∧
        r = told m ∧ Reached c latest (m.block.getD 0) ∧
        ((∃ b, m.block = some b ∧ Buried c latest b) ↔ m.block.isSome))
      (run (confirmation options d hash c) known) (t, []) := by
  refine ((keeps_confirmation hc).mono ?_).ensures answered_timely.noted
  rintro ⟨reply, known'⟩ ⟨t', T⟩ hwaited
  refine ⟨hwaited, ?_⟩
  rintro r rfl
  obtain ⟨before, m, latest, hT, hr, hreached⟩ := hwaited.of_ok
  exact ⟨before, m, latest, hT, hr, hreached, mined_iff hreached⟩

/-- A node that lags behind the one that told the receipt, and catches up during a pause. -/
theorem confirmed_after_pause : ∃ (options : Options) (d : Destination) (hash : TxHash)
    (known known' : Known) (t t' : Nat) (T : Transcript interface) (r : Receipt),
    Leads (noted timely) (run (confirmation options d hash 2) known) (t, [])
      (.done (.ok r, known')) (t', T) ∧
    ⟨.sleep options.pause, ()⟩ ∈ T ∧
    ∃ before m latest,
      T = before ++ [receiptTold d hash (.ok (some m)), headTold d (.ok latest)] ∧
      r = told m ∧ Reached 2 latest (m.block.getD 0) ∧
      ((∃ b, m.block = some b ∧ Buried 2 latest b) ↔ m.block.isSome) := by
  let options : Options := ⟨none, ⟨10⟩, ⟨100⟩⟩
  let d : Destination := ⟨⟨List.replicate 20 0, rfl⟩, ⟨1, "http://a", none⟩, 8⟩
  let hash : TxHash := ⟨List.replicate 32 7⟩
  let m : MinedAt := ⟨hash, some 5, true⟩
  have hremembered : (Dict.set d.endpoint none [] : Known).has d.endpoint = true :=
    (kept_set none).has
  have hshallow : Look d hash 2 [receiptTold d hash (.ok (some m)), headTold d (.ok 4)]
      (.ok none) := .shallow rfl (by decide)
  have hdeep : Look d hash 2 [receiptTold d hash (.ok (some m)), headTold d (.ok 6)]
      (.ok (some (told m))) := .deep rfl (by decide)
  have hfound : Wait options d hash 2 ⟨0⟩ 10 (⟨.elapsed, (⟨10⟩ : Duration)⟩ :: _)
      (.ok (told m)) := .found (by decide) (by decide) hdeep
  have hwait : Wait options d hash 2 ⟨0⟩ 0 (⟨.elapsed, (⟨0⟩ : Duration)⟩ :: _)
      (.ok (told m)) := .again (by decide) (by decide) hshallow hfound
  obtain ⟨t', hrun⟩ := (waited_iff (by decide)).mpr (waited_of_remembered hremembered hwait)
  exact ⟨options, d, hash, _, _, 0, t', _, told m, hrun, by simp,
    ((confirmed_iff_mined options d hash _ 0 (by decide)).holds _ _ hrun).2 _ rfl⟩

/-- A transaction that is in no block yet is confirmed three times. -/
theorem confirmed_unmined : ∃ (options : Options) (d : Destination) (hash : TxHash)
    (known known' : Known) (t t' : Nat) (before : Transcript interface) (m : MinedAt)
    (latest : UInt64),
    Leads (noted timely) (run (confirmation options d hash 3) known) (t, [])
      (.done (.ok (told m), known'))
      (t', before ++ [receiptTold d hash (.ok (some m)), headTold d (.ok latest)]) ∧
    ¬∃ b, m.block = some b ∧ Buried 3 latest b := by
  let options : Options := ⟨none, ⟨10⟩, ⟨100⟩⟩
  let d : Destination := ⟨⟨List.replicate 20 0, rfl⟩, ⟨1, "http://a", none⟩, 8⟩
  let hash : TxHash := ⟨List.replicate 32 7⟩
  let m : MinedAt := ⟨hash, none, true⟩
  have hremembered : (Dict.set d.endpoint none [] : Known).has d.endpoint = true :=
    (kept_set none).has
  have hdeep : Look d hash 3 [receiptTold d hash (.ok (some m)), headTold d (.ok 5)]
      (.ok (some (told m))) := .deep rfl (by decide)
  have hwait : Wait options d hash 3 ⟨0⟩ 0 (⟨.elapsed, (⟨0⟩ : Duration)⟩ :: _)
      (.ok (told m)) := .found (by decide) (by decide) hdeep
  obtain ⟨t', hrun⟩ := (waited_iff (by decide)).mpr (waited_of_remembered hremembered hwait)
  exact ⟨options, d, hash, _, _, 0, t',
    [⟨.elapsed, (⟨0⟩ : Duration)⟩, ⟨.elapsed, (⟨0⟩ : Duration)⟩], m, 5, hrun, nofun⟩

end PriceFeed

end PriceOracle.Node
