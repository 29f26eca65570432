import PriceOracle.Proofs.Cycle.Paths
import PriceOracle.Proofs.Registry.Reload
import PriceOracle.Proofs.Storage.Files

/-!
# Recovery from crashes

A registry whose storage is a directory, through completed requests, restarts and crashes.

* `Lives`: the tables and directories that these lead to, from a directory without records on.
* `Lives.shows`: the directory shows the table.
* `reload_after_crash`: a restart rebuilds the table. After a crash at any point of a request it
  rebuilds the table before the request, or the table that the request leaves when it is completed.
-/

namespace PriceOracle.Registry

open Program (Exactly Leads)
open Storage (Memory recordKey)
open Storage.File (Fits Interrupted Shows recordName stem_eq)
open PriceOracle.Cycle (ethUsd)

variable {t t' saved : Table} {m m' : Memory} {d d' : Directory} {r : Request}

/-! ## Requests to the contents of a directory -/

/-- The name of the order can be used. -/
theorem fits_index : Fits (recordKey indexSpace indexId) := by
  rw [Fits, recordName, stem_eq]
  decide

/-- A record that is there has a name that can be used. -/
theorem fits_of_record (h : Shows d m) {key : String} (hthere : Dict.get? m key ≠ none) :
    Fits key := by
  by_contra hlong
  rw [h.records key, if_neg hlong] at hthere
  exact hthere rfl

theorem reads_serve (h : Shows d m) : Reads Storage.File.serve m := by
  rintro key (rfl | hthere)
  · exact if_pos fits_index
  · exact if_pos (fits_of_record h hthere)

/-- A write takes effect if the name of its record can be used; else it fails. -/
theorem run_access_serve (w : Write) (m : Memory) :
    w.access.run.run Storage.File.serve m
      = if Fits w.key then (.ok (), w.apply m)
        else (.error (Storage.File.backendError .nameTooLong), m) := by
  by_cases hfits : Fits w.key
  · rw [if_pos hfits]
    cases w <;> exact Prod.ext (congrArg Prod.fst (if_pos hfits)) (congrArg Prod.snd (if_pos hfits))
  · rw [if_neg hfits]
    cases w <;> exact Prod.ext (congrArg Prod.fst (if_neg hfits)) (congrArg Prod.snd (if_neg hfits))

theorem serve_sound : Write.Sound Storage.File.serve id := by
  intro w m
  rw [run_access_serve]
  by_cases hfits : Fits w.key
  · rw [if_pos hfits]
    exact .inl ⟨_, rfl, rfl⟩
  · rw [if_neg hfits]
    exact .inr ⟨_, _, rfl, rfl⟩

/-- A removal of an oracle that is there makes both its writes. -/
theorem taken_remove (h : Backed t t m) (hshows : Shows d m) {id : OracleId}
    (hid : t.row? id ≠ none) :
    Write.taken Storage.File.serve (plan t (.remove id)).writes m
      = (plan t (.remove id)).writes.length := by
  obtain ⟨row, hrow⟩ := Option.ne_none_iff_exists'.mp hid
  obtain ⟨bytes, hbytes, -⟩ := Option.bind_eq_some_iff.mp (h.rebuilt id row hrow)
  have hthere : Dict.get? m (recordKey rowSpace id) ≠ none := by
    rw [hbytes]
    exact Option.some_ne_none bytes
  have hfits : Fits (recordKey rowSpace id) := fits_of_record hshows hthere
  have horder (order : List OracleId) : (Write.order order).access.run.run Storage.File.serve m
      = (.ok (), (Write.order order).apply m) :=
    (run_access_serve (.order order) m).trans (if_pos fits_index)
  have hdrop (m : Memory) : (Write.drop id).access.run.run Storage.File.serve m
      = (.ok (), (Write.drop id).apply m) :=
    (run_access_serve (.drop id) m).trans (if_pos hfits)
  rw [plan_remove hid, Write.taken_cons (horder _), Write.taken_cons (hdrop _)]
  rfl

/-! ## Completed and interrupted requests -/

/-- A request to a registry whose storage is a directory. -/
def call (r : Request) (t : Table) : Program Directory.interface (r.Reply × Table) :=
  (answer r t).through Storage.File.answer

/-- The table that a request leaves when it is completed. -/
def tableAfter (r : Request) (t : Table) (d : Directory) : Table :=
  ((call r t).run Directory.answer d).1.2

/-- The directory that a request leaves when it is completed. -/
def directoryAfter (r : Request) (t : Table) (d : Directory) : Directory :=
  ((call r t).run Directory.answer d).2

/-- What a restart makes of a directory. -/
def reloadFrom (d : Directory) : Except RegistryError Table :=
  ((load.run.through Storage.File.answer).run Directory.answer d).1

/-- The table that a restart rebuilds from a directory. -/
theorem reloadFrom_of_shows (hshows : Shows d m) (h : Backed t saved m) :
    reloadFrom d = .ok saved := by
  obtain ⟨hreply, -⟩ := hshows.run load.run
  rw [reloadFrom, hreply, h.load (reads_serve hshows)]

/-- A request carries out the writes of its plan whose names can be used. -/
theorem tableAfter_eq (hshows : Shows d m) (r : Request) (t : Table) :
    let p := plan t r
    let k := Write.taken Storage.File.serve p.writes m
    (k = p.writes.length → tableAfter r t d = p.table) ∧
      (k < p.writes.length → tableAfter r t d = t) ∧
      Shows (directoryAfter r t d) (Write.applyAll (p.writes.take k) m) := by
  obtain ⟨hreply, hleft⟩ := hshows.run (answer r t)
  obtain ⟨hcontents, hfinished, hcut⟩ := run_answer serve_sound r t m
  have htable : tableAfter r t d = ((answer r t).run Storage.File.serve m).1.2 :=
    congrArg Prod.snd hreply
  refine ⟨?_, ?_, hcontents ▸ hleft⟩
  · intro hall
    rw [htable, hfinished hall]
  · intro hsome
    rw [htable, hcut hsome]

/-- What a restart rebuilds after the first few writes is the old table, or the new one of a removal
that makes all its writes. -/
theorem savedAfter_or (h : Backed t t m) (hshows : Shows d m) (r : Request) {k : Nat}
    (hk : k < (plan t r).writes.length) :
    savedAfter r k t t = t ∨
      Write.taken Storage.File.serve (plan t r).writes m = (plan t r).writes.length ∧
        savedAfter r k t t = (plan t r).table := by
  cases r with
  | row _ | rows | ids | holds _ | register _ | update _ | revise _ _ => exact .inl rfl
  | remove id =>
    by_cases hid : t.row? id = none
    · rw [plan_remove_absent hid] at hk
      exact absurd hk (Nat.not_lt_zero k)
    · cases k with
      | zero => exact .inl rfl
      | succ k =>
        refine .inr ⟨taken_remove h hshows hid, ?_⟩
        rw [plan_remove hid]
        rfl

/-- A completed request leaves a directory that shows the table it leaves. -/
theorem Backed.completed (h : Backed t t m) (hshows : Shows d m) (r : Request) :
    ∃ m', Shows (directoryAfter r t d) m' ∧
      Backed (tableAfter r t d) (tableAfter r t d) m' := by
  obtain ⟨hall, hcut, hleft⟩ := tableAfter_eq hshows r t
  have hplan := planned h.arranged.keyed r
  refine ⟨_, hleft, ?_⟩
  rcases Nat.eq_or_lt_of_le (Write.taken_le (plan t r).writes m) with hfull | hsome
  · obtain ⟨saved', hbacked, hsaved⟩ := h.finished hplan
    rw [hall hfull, hfull, List.take_length]
    exact hsaved rfl ▸ hbacked
  · rw [hcut hsome]
    have hbacked := h.cut hplan hsome
    rcases savedAfter_or h hshows r hsome with hsame | ⟨hfull, -⟩
    · rw [hsame] at hbacked
      exact hbacked
    · exact absurd hfull (Nat.ne_of_lt hsome)

/-- A crash during a request leaves a directory that shows the table before it, or the table that it
leaves when it is completed. -/
theorem Backed.crashed (h : Backed t t m) (hshows : Shows d m)
    (hcrash : Interrupted (call r t) d d') :
    ∃ m' saved, Shows d' m' ∧ Backed saved saved m' ∧ (saved = t ∨ saved = tableAfter r t d) := by
  obtain ⟨q, m', hleads, hleft⟩ := Storage.File.interrupted_through hshows hcrash
  rw [answer_eq] at hleads
  obtain ⟨k, hk, hcontents⟩ := serve_sound.leads_perform hleads
  obtain ⟨hall, hcut, -⟩ := tableAfter_eq hshows r t
  have hplan := planned h.arranged.keyed r
  have hle := Write.taken_le (A := Storage.File.serve) (plan t r).writes m
  have hm : m' = Write.applyAll ((plan t r).writes.take k) m := hcontents
  subst hm
  rcases Nat.lt_or_ge k (plan t r).writes.length with hsome | hfull
  · have hbacked := (h.cut hplan hsome).settled
    refine ⟨_, _, hleft, hbacked, ?_⟩
    rcases savedAfter_or h hshows r hsome with hsame | ⟨hfull, hremoved⟩
    · exact .inl hsame
    · exact .inr (hremoved.trans (hall hfull).symm)
  · -- All writes were made, so the request was as good as completed.
    obtain rfl : k = (plan t r).writes.length := Nat.le_antisymm (hk.trans hle) hfull
    obtain ⟨saved', hbacked, hsaved⟩ := h.finished hplan
    rw [List.take_length] at hleft
    refine ⟨_, _, hleft, hbacked.settled, .inr ?_⟩
    rw [hsaved rfl, hall (Nat.le_antisymm hle hk)]

/-! ## The life of a registry -/

/-- The tables and directories that completed requests, restarts and crashes lead to, from a
directory without records on. -/
inductive Lives : Table → Directory → Prop where
  | begun {d : Directory} (hentered : d.blocked = false)
    (hempty : ∀ key, Dict.get? d.files (recordName key) = none) : Lives .empty d
  | called {t : Table} {d : Directory} (h : Lives t d) (r : Request) :
    Lives (tableAfter r t d) (directoryAfter r t d)
  | restarted {t t' : Table} {d : Directory} (h : Lives t d) (hload : reloadFrom d = .ok t') :
    Lives t' d
  | crashed {t t' : Table} {d d' : Directory} (h : Lives t d) (r : Request)
    (hcrash : Interrupted (call r t) d d') (hload : reloadFrom d' = .ok t') : Lives t' d'

theorem shows_of_empty (hentered : d.blocked = false)
    (hempty : ∀ key, Dict.get? d.files (recordName key) = none) : Shows d [] := by
  refine ⟨hentered, ?_⟩
  intro key
  rw [hempty key, ite_self]
  rfl

/-- The directory shows the table. -/
theorem Lives.shows (h : Lives t d) : ∃ m, Shows d m ∧ Backed t t m := by
  induction h with
  | begun hentered hempty => exact ⟨[], shows_of_empty hentered hempty, backed_empty⟩
  | called _ r ih =>
    obtain ⟨m, hshows, hbacked⟩ := ih
    exact hbacked.completed hshows r
  | restarted _ hload ih =>
    obtain ⟨m, hshows, hbacked⟩ := ih
    rw [reloadFrom_of_shows hshows hbacked] at hload
    cases hload
    exact ⟨m, hshows, hbacked⟩
  | crashed _ r hcrash hload ih =>
    obtain ⟨m, hshows, hbacked⟩ := ih
    obtain ⟨m', saved, hshows', hbacked', -⟩ := hbacked.crashed hshows hcrash
    rw [reloadFrom_of_shows hshows' hbacked'] at hload
    cases hload
    exact ⟨m', hshows', hbacked'⟩

/-- A restart rebuilds the table that callers saw last. After a crash at any point of a further
request it rebuilds that table, or the one that the request leaves when it is completed. -/
theorem reload_after_crash (h : Lives t d) :
    reloadFrom d = .ok t ∧
      ∀ (r : Request) (d' : Directory), Interrupted (call r t) d d' →
        reloadFrom d' = .ok t ∨ reloadFrom d' = .ok (tableAfter r t d) := by
  obtain ⟨m, hshows, hbacked⟩ := h.shows
  refine ⟨reloadFrom_of_shows hshows hbacked, ?_⟩
  intro r d' hcrash
  obtain ⟨m', saved, hshows', hbacked', hsaved⟩ := hbacked.crashed hshows hcrash
  rw [reloadFrom_of_shows hshows' hbacked']
  rcases hsaved with rfl | rfl
  · exact .inl rfl
  · exact .inr rfl

/-- A directory in which the first record of an oracle was written in part. -/
def tornDirectory : Directory :=
  ⟨false, [(Storage.File.temporaryName (recordKey rowSpace ethUsd.id), "\x7b".toUTF8)]⟩

theorem torn_register :
    Interrupted (call (.register ethUsd) .empty) Directory.empty tornDirectory := by
  refine .ask (.torn "\x7b".toUTF8 ?_)
  show Directory.fault? Directory.empty
    (Storage.File.temporaryName (recordKey rowSpace ethUsd.id)) = none
  rw [Storage.File.temporaryName, stem_eq]
  decide

/-- A registration that is cut off in its first write is as if it had not begun, or as if it had
been completed. -/
theorem reload_torn_register :
    Lives .empty Directory.empty ∧
      Interrupted (call (.register ethUsd) .empty) Directory.empty tornDirectory ∧
      reloadFrom Directory.empty = .ok .empty ∧
      (reloadFrom tornDirectory = .ok .empty ∨
        reloadFrom tornDirectory = .ok (tableAfter (.register ethUsd) .empty Directory.empty)) := by
  have hlives : Lives .empty Directory.empty := .begun rfl fun _ => rfl
  obtain ⟨hrestart, hcrash⟩ := reload_after_crash hlives
  exact ⟨hlives, torn_register, hrestart, hcrash _ _ torn_register⟩

end PriceOracle.Registry
