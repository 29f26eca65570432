import PriceOracle.Proofs.Storage.Files
import PriceOracle.Proofs.Storage.Records
import Mathlib.Logic.Function.Basic

/-!
# Two backends, one map

Storage in memory and storage in files both answer as a map from keys to bytes does, as long as the
names of the files can be used. On either of them, calls about one record have the outcomes that
they have when all calls about other records are left out.

* `Contents.answer`: what a map from keys to bytes answers. `Memory.run_eq` and `Shows.run_fits`: so
  do the two backends.
* `Bare`: a directory without leftovers, in which every file is a record. `Bare.answer`: a request
  whose record can be named leaves none behind.
* `Local`: answers that go by the contents of their own key and change no other.
* `session_filter`: calls about one record do not depend on the calls about others.
-/

namespace PriceOracle.Storage

open File (Fits Shows keyOf recordName temporaryName)

/-! ## A map -/

/-- What storage holds, as a map from keys to bytes. -/
abbrev Contents := String → Option ByteArray

/-- Answers a request on such a map. -/
def Contents.answer : (r : Request) → Contents → r.Reply × Contents
  | .get key, c =>
    (match c key with
      | some bytes => .ok bytes
      | none => .error .notFound, c)
  | .set key value, c => (.ok (), Function.update c key (some value))
  | .delete key, c => (.ok (), Function.update c key none)
  | .holds key, c => (.ok (c key).isSome, c)

/-- The answer goes by the contents of the key asked about, as does what becomes of them. -/
theorem Contents.answer_own (r : interface.Request) {c c' : Contents}
    (h : c (keyOf r) = c' (keyOf r)) :
    (Contents.answer r c).1 = (Contents.answer r c').1 ∧
      (Contents.answer r c).2 (keyOf r) = (Contents.answer r c').2 (keyOf r) := by
  cases r with
  | get key =>
    change c key = c' key at h
    refine ⟨?_, h⟩
    simp only [Contents.answer, h]
  | holds key =>
    change c key = c' key at h
    exact ⟨congrArg (fun found => Except.ok (Option.isSome found)) h, h⟩
  | set key value | delete key =>
    refine ⟨rfl, ?_⟩
    show Function.update c key _ key = Function.update c' key _ key
    rw [Function.update_self, Function.update_self]

/-- The contents of other keys stay as they are. -/
theorem Contents.answer_others (r : interface.Request) (c : Contents) {key : String}
    (h : key ≠ keyOf r) : (Contents.answer r c).2 key = c key := by
  cases r with
  | get other | holds other => rfl
  | set other value | delete other => exact Function.update_of_ne h _ _

/-- The map that a memory stands for. -/
def Memory.contents (m : Memory) : Contents := Dict.get? m

theorem Memory.contents_set (m : Memory) (key : String) (value : ByteArray) :
    Memory.contents (Dict.set key value m) = Function.update m.contents key (some value) := by
  funext other
  by_cases h : other = key
  · subst h
    rw [Function.update_self]
    exact Dict.get?_set_self m other value
  · rw [Function.update_of_ne h]
    exact Dict.get?_set_of_ne m value h

theorem Memory.contents_unset (m : Memory) (key : String) :
    Memory.contents (Dict.unset m key) = Function.update m.contents key none := by
  funext other
  by_cases h : other = key
  · subst h
    rw [Function.update_self]
    exact Dict.get?_unset_self m other
  · rw [Function.update_of_ne h]
    exact Dict.get?_unset_of_ne m h

/-- Memory answers as its map does. -/
theorem Memory.answer_eq (r : Request) (m : Memory) :
    (Memory.answer r m).1 = (Contents.answer r m.contents).1 ∧
      (Memory.answer r m).2.contents = (Contents.answer r m.contents).2 := by
  cases r with
  | get key | holds key => exact ⟨rfl, rfl⟩
  | set key value => exact ⟨rfl, m.contents_set key value⟩
  | delete key => exact ⟨rfl, m.contents_unset key⟩

theorem Memory.run_eq {α : Type} (p : Program interface α) (m : Memory) :
    (p.run Memory.answer m).1 = (p.run Contents.answer m.contents).1 ∧
      (p.run Memory.answer m).2.contents = (p.run Contents.answer m.contents).2 := by
  induction p generalizing m with
  | done a => exact ⟨rfl, rfl⟩
  | ask r next ih =>
    obtain ⟨hreply, hcontents⟩ := Memory.answer_eq r m
    have hrest := ih (Memory.answer r m).1 (Memory.answer r m).2
    rw [hcontents, hreply] at hrest
    refine ⟨Eq.trans ?_ hrest.1, Eq.trans ?_ hrest.2⟩ <;> rw [← hreply] <;> rfl

/-! ## Files -/

namespace File

variable {d : Directory} {m : Memory}

/-- A directory without leftovers: every file is a record. -/
def Bare (d : Directory) : Prop :=
  ∀ name content, Dict.get? d.files name = some content → ∃ key, Fits key ∧ recordName key = name

/-- A request whose record can be named leaves nothing but records. -/
theorem Bare.answer (hbare : Bare d) (h : Shows d m) {r : Storage.interface.Request}
    (hfits : Fits (keyOf r)) : Bare ((File.answer r).run Directory.answer d).2 := by
  cases r with
  | get key =>
    rw [run_get]
    exact hbare
  | holds key =>
    rw [run_holds]
    exact hbare
  | set key content =>
    change Fits key at hfits
    rw [h.run_set hfits content]
    -- A write leaves its record behind, but not the temporary file it went through.
    intro name found hfound
    change Dict.get? (Dict.set (recordName key) _ (Dict.unset (Dict.set _ _ d.files) _)) _ = _
      at hfound
    by_cases hrecord : name = recordName key
    · exact ⟨key, hfits, hrecord.symm⟩
    · rw [Dict.get?_set_of_ne _ _ hrecord] at hfound
      by_cases htemporary : name = temporaryName key
      · rw [htemporary, Dict.get?_unset_self] at hfound
        cases hfound
      · rw [Dict.get?_unset_of_ne _ htemporary, Dict.get?_set_of_ne _ _ htemporary] at hfound
        exact hbare name found hfound
  | delete key =>
    change Fits key at hfits
    have hfault := h.fault_record key
    rw [if_pos hfits] at hfault
    rw [run_delete, hfault]
    intro name found hfound
    change Dict.get? (if _ then _ else d : Directory).files name = _ at hfound
    split at hfound
    · by_cases hrecord : name = recordName key
      · exact ⟨key, hfits, hrecord.symm⟩
      · exact hbare name found ((Dict.get?_unset_of_ne _ hrecord).symm.trans hfound)
    · exact hbare name found hfound

/-- Requests whose records can be named have the same answers in files as in memory, and leave
nothing but records. -/
theorem Shows.run_fits {α : Type} (h : Shows d m) {p : Program Storage.interface α}
    (hfits : p.Makes fun r => Fits (keyOf r)) :
    let outcome := (p.through File.answer).run Directory.answer d
    outcome.1 = (p.run Memory.answer m).1 ∧ Shows outcome.2 (p.run Memory.answer m).2 ∧
      (Bare d → Bare outcome.2) := by
  induction p generalizing d m with
  | done a => exact ⟨rfl, h, id⟩
  | ask r next ih =>
    obtain ⟨hreply, hshows⟩ := h.answer_fits hfits.1
    intro outcome
    have houtcome : outcome = _ := Program.run_bind Directory.answer (File.answer r) _ d
    rw [houtcome, hreply]
    obtain ⟨hvalue, hleft, hbare⟩ := ih _ hshows (hfits.2 _)
    exact ⟨hvalue, hleft, fun hd => hbare (hd.answer h hfits.1)⟩

/-- The files of a bare directory are the records that it shows. -/
theorem Shows.files_iff (h : Shows d m) (hbare : Bare d) (name : String) (content : ByteArray) :
    Dict.get? d.files name = some content ↔
      ∃ key, recordName key = name ∧ m.contents key = some content := by
  constructor
  · intro hfile
    obtain ⟨key, hfits, rfl⟩ := hbare name content hfile
    have hrecord := h.records key
    rw [if_pos hfits] at hrecord
    exact ⟨key, rfl, hrecord.trans hfile⟩
  · rintro ⟨key, rfl, hkey⟩
    have hrecord := h.records key
    change m.contents key = _ at hrecord
    rw [hkey] at hrecord
    split at hrecord
    · exact hrecord.symm
    · cases hrecord

end File

/-! ## Records of their own -/

/-- The namespace can be read off the key of a record. -/
theorem space_of_recordKey {space : String} (h : ':' ∉ space.toList) (id : String) :
    (recordKey space id).toList.takeWhile (· != ':') = space.toList := by
  have hspace : ∀ c ∈ space.toList, (c != ':') = true := by
    intro c hc
    exact bne_iff_ne.mpr fun heq => h (heq ▸ hc)
  have hkey : (recordKey space id).toList = space.toList ++ ':' :: id.toList := by
    simp [recordKey]
  rw [hkey, List.takeWhile_append_of_pos hspace, List.takeWhile_cons_of_neg (by simp),
    List.append_nil]

/-- Records whose namespaces have no colon have keys of their own. -/
theorem recordKey_inj_of_plain {space other id otherId : String} (hspace : ':' ∉ space.toList)
    (hother : ':' ∉ other.toList) (h : recordKey space id = recordKey other otherId) :
    space = other ∧ id = otherId := by
  have hspaces : space.toList = other.toList := by
    rw [← space_of_recordKey hspace id, h, space_of_recordKey hother]
  obtain rfl := String.toList_inj.mp hspaces
  exact ⟨rfl, recordKey_inj h⟩

/-- Answers that go by the contents of their own key and change no other. -/
structure Local (answer : (r : interface.Request) → Memory → interface.Reply r × Memory) :
    Prop where
  own : ∀ r {m m' : Memory}, m.contents (keyOf r) = m'.contents (keyOf r) →
    (answer r m).1 = (answer r m').1 ∧
      (answer r m).2.contents (keyOf r) = (answer r m').2.contents (keyOf r)
  others : ∀ r (m : Memory) {key : String}, key ≠ keyOf r →
    (answer r m).2.contents key = m.contents key

theorem local_memory : Local Memory.answer where
  own := by
    intro r m m' h
    rw [(Memory.answer_eq r m).1, (Memory.answer_eq r m').1, (Memory.answer_eq r m).2,
      (Memory.answer_eq r m').2]
    exact Contents.answer_own r h
  others := by
    intro r m key hne
    rw [(Memory.answer_eq r m).2]
    exact Contents.answer_others r m.contents hne

/-- Files that cannot be named are not there for any key. -/
theorem local_serve : Local File.serve where
  own := by
    intro r m m' h
    by_cases hfits : Fits (keyOf r)
    · rw [File.serve_of_fits hfits, File.serve_of_fits hfits]
      exact local_memory.own r h
    · rw [File.serve_of_not_fits hfits, File.serve_of_not_fits hfits]
      exact ⟨rfl, h⟩
  others := by
    intro r m key hne
    by_cases hfits : Fits (keyOf r)
    · rw [File.serve_of_fits hfits]
      exact local_memory.others r m hne
    · rw [File.serve_of_not_fits hfits]

/-! ## Calls -/

/-- What can be done with one record. -/
inductive Action (β : Type) where
  | store (record : Json)
  | retrieve (read : Document → Decoded β)
  | retrieveOptional (read : Document → Decoded β)
  | remove
  | contains

/-- What comes of it. -/
inductive Outcome (β : Type) where
  | changed (outcome : Except StorageError Unit)
  | record (outcome : Except StorageError β)
  | optional (outcome : Except StorageError (Option β))
  | presence (outcome : Except StorageError Bool)

/-- An action on the record of a namespace and an id. -/
structure Call (β : Type) where
  space : String
  id : String
  action : Action β

variable {β : Type}

namespace Call

/-- Carries out a call. -/
def run (c : Call β) : Program interface (Outcome β) :=
  match c.action with
  | .store record => .changed <$> (Storage.store c.space c.id record).run
  | .retrieve read => .record <$> (Storage.retrieve c.space c.id read).run
  | .retrieveOptional read => .optional <$> (Storage.retrieve? c.space c.id read).run
  | .remove => .changed <$> (Storage.remove c.space c.id).run
  | .contains => .presence <$> (Storage.contains c.space c.id).run

/-- The record of a namespace and an id is what the call is about. -/
def isAbout (space id : String) (c : Call β) : Bool := c.space = space && c.id = id

/-- A call is one request, about the key of its record. -/
theorem run_eq (c : Call β) :
    ∃ (r : interface.Request) (outcome : interface.Reply r → Outcome β),
      keyOf r = recordKey c.space c.id ∧ c.run = .ask r fun reply => .done (outcome reply) := by
  obtain ⟨space, id, action⟩ := c
  cases action with
  | store record => exact ⟨.set (recordKey space id) (encode record), .changed, rfl, rfl⟩
  | remove => exact ⟨.delete (recordKey space id), .changed, rfl, rfl⟩
  | contains => exact ⟨.holds (recordKey space id), .presence, rfl, rfl⟩
  | retrieveOptional read =>
    refine ⟨.get (recordKey space id), fun reply => .optional (found read reply), rfl, ?_⟩
    show Program.bind (Storage.retrieve? space id read).run _ = _
    rw [retrieve_eq]
    rfl
  | retrieve read =>
    refine ⟨.get (recordKey space id), fun reply => .record (reply.bind (decode read)), rfl, ?_⟩
    refine congrArg (Program.ask (I := interface) (.get (recordKey space id))) ?_
    funext reply
    cases reply <;> rfl

end Call

/-- Calls one after the other, each with its outcome. -/
def session : List (Call β) → Program interface (List (Call β × Outcome β))
  | [] => .done []
  | c :: rest => c.run.bind fun outcome =>
    (session rest).bind fun outcomes => .done ((c, outcome) :: outcomes)

/-- Calls that are about a record have the outcomes that they have on their own. -/
theorem session_filter {answer : (r : interface.Request) → Memory → interface.Reply r × Memory}
    (hlocal : Local answer) {about : Call β → Bool} {key : String} {calls : List (Call β)}
    (habout : ∀ c ∈ calls, about c = true ↔ recordKey c.space c.id = key) {m m' : Memory}
    (hsame : m.contents key = m'.contents key) :
    ((session calls).run answer m).1.filter (fun entry => about entry.1)
      = ((session (calls.filter about)).run answer m').1 := by
  induction calls generalizing m m' with
  | nil => rfl
  | cons c rest ih =>
    have hrest : ∀ c ∈ rest, about c = true ↔ recordKey c.space c.id = key :=
      fun c hc => habout c (List.mem_cons_of_mem _ hc)
    obtain ⟨r, outcome, hkey, hrun⟩ := c.run_eq
    -- The first call is one request, and the others go on from what it leaves.
    have hsession : ∀ (others : List (Call β)) (m : Memory),
        ((session (c :: others)).run answer m).1
          = (c, outcome (answer r m).1) :: ((session others).run answer (answer r m).2).1 := by
      intro others m
      rw [session, hrun]
      show (((session others).bind _).run answer (answer r m).2).1 = _
      rw [Program.run_bind]
      rfl
    rw [hsession]
    by_cases hc : about c = true
    · have hown : keyOf r = key := hkey.trans ((habout c List.mem_cons_self).mp hc)
      rw [← hown] at hsame
      obtain ⟨hreply, hleft⟩ := hlocal.own r hsame
      rw [hown] at hleft
      rw [List.filter_cons_of_pos hc, List.filter_cons_of_pos (by exact hc), hsession, hreply,
        ih hrest hleft]
    · have hother : key ≠ keyOf r := by
        intro heq
        exact hc ((habout c List.mem_cons_self).mpr (hkey.symm.trans heq.symm))
      rw [List.filter_cons_of_neg hc, List.filter_cons_of_neg (by exact hc)]
      exact ih hrest ((hlocal.others r m hother).trans hsame)

/-- Where namespaces have no colon, the key of a record tells the calls about it. -/
theorem isAbout_iff {space id : String} (hspace : ':' ∉ space.toList) {c : Call β}
    (hc : ':' ∉ c.space.toList) :
    c.isAbout space id = true ↔ recordKey c.space c.id = recordKey space id := by
  constructor
  · intro h
    obtain ⟨hs, hi⟩ := (Bool.and_eq_true _ _).mp h
    rw [of_decide_eq_true hs, of_decide_eq_true hi]
  · intro h
    obtain ⟨hs, hi⟩ := recordKey_inj_of_plain hc hspace h
    simp [Call.isAbout, hs, hi]

/-- Calls whose records can be named make no other requests. -/
theorem makes_session {calls : List (Call β)}
    (hfits : ∀ c ∈ calls, Fits (recordKey c.space c.id)) :
    (session calls).Makes fun r => Fits (keyOf r) := by
  induction calls with
  | nil => trivial
  | cons c rest ih =>
    obtain ⟨r, outcome, hkey, hrun⟩ := c.run_eq
    have hfirst : Fits (keyOf r) := hkey ▸ hfits c List.mem_cons_self
    have hrest := ih fun c hc => hfits c (List.mem_cons_of_mem _ hc)
    rw [session, hrun]
    exact ⟨hfirst, fun _ => hrest.bind fun _ => trivial⟩

/-! ## The two backends -/

/-- An empty directory shows nothing. -/
theorem File.shows_empty : Shows Directory.empty [] where
  entered := rfl
  records := fun _ => (ite_self none).symm

/-- No two keys share a file, and no temporary file is the record of a key. Whatever is asked of
storage about keys whose files can be named, an empty directory gives the answers of an empty
memory, which are those of a map from keys to bytes, and is left with the records of this map and
no other file. On either backend, whatever it held before, the calls about one record have the
outcomes that they have without the calls about other records, where namespaces have no colon. -/
theorem files_refine_memory :
    (∀ key other, recordName key = recordName other → key = other) ∧
    (∀ key other, temporaryName key ≠ recordName other) ∧
    (∀ {α : Type} (p : Program interface α), (p.Makes fun r => Fits (keyOf r)) →
      let files := (p.through File.answer).run Directory.answer Directory.empty
      let memory := p.run Memory.answer []
      files.1 = memory.1 ∧ memory.1 = (p.run Contents.answer fun _ => none).1 ∧
        ∀ name content, Dict.get? files.2.files name = some content ↔
          ∃ key, recordName key = name ∧ Memory.contents memory.2 key = some content) ∧
    ∀ {β : Type} (calls : List (Call β)) (space id : String),
      ':' ∉ space.toList → (∀ c ∈ calls, ':' ∉ c.space.toList) →
      ∀ {d : Directory} {m : Memory}, Shows d m →
        let ofMemory := fun calls : List (Call β) => ((session calls).run Memory.answer m).1
        let ofFiles := fun calls : List (Call β) =>
          (((session calls).through File.answer).run Directory.answer d).1
        (ofMemory calls).filter (fun entry => entry.1.isAbout space id)
            = ofMemory (calls.filter (·.isAbout space id)) ∧
          (ofFiles calls).filter (fun entry => entry.1.isAbout space id)
            = ofFiles (calls.filter (·.isAbout space id)) := by
  refine ⟨fun _ _ => File.recordName_inj, File.temporaryName_ne, ?_, ?_⟩
  · intro α p hfits files memory
    obtain ⟨hanswer, hshows, hbare⟩ := File.shows_empty.run_fits hfits
    have hrecords : File.Bare files.2 := hbare fun _ _ hfile => nomatch hfile
    exact ⟨hanswer, (Memory.run_eq p []).1, hshows.files_iff hrecords⟩
  · intro β calls space id hspace hspaces d m hshows ofMemory ofFiles
    have habout : ∀ c ∈ calls,
        c.isAbout space id = true ↔ recordKey c.space c.id = recordKey space id :=
      fun c hc => isAbout_iff hspace (hspaces c hc)
    have hfiles : ∀ calls : List (Call β),
        ofFiles calls = ((session calls).run File.serve m).1 :=
      fun calls => (hshows.run (session calls)).1
    refine ⟨session_filter local_memory habout rfl, ?_⟩
    rw [hfiles, hfiles]
    exact session_filter local_serve habout rfl

/-- Calls about two records whose names differ in one character, and about one of another
namespace. -/
def ethUsdCalls : List (Call Unit) :=
  [⟨"oracles", "eth/usd", .store .null⟩, ⟨"oracles", "eth_usd", .remove⟩,
    ⟨"meta", "eth/usd", .contains⟩, ⟨"oracles", "eth/usd", .contains⟩]

theorem fits_ethUsdCalls : ∀ c ∈ ethUsdCalls, Fits (recordKey c.space c.id) := by
  simp only [ethUsdCalls, List.forall_mem_cons, File.Fits, recordName, File.stem_eq]
  decide

/-- The record of `eth/usd` is stored and found in files as in memory, and the call that takes
`eth_usd` out has no part in it. -/
theorem files_refine_memory_ethUsd :
    let p := session ethUsdCalls
    let about := fun c : Call Unit => c.isAbout "oracles" "eth/usd"
    (p.Makes fun r => Fits (keyOf r)) ∧ ':' ∉ "oracles".toList ∧
    (∀ c ∈ ethUsdCalls, ':' ∉ c.space.toList) ∧ Shows Directory.empty [] ∧
    ((p.through File.answer).run Directory.answer Directory.empty).1 = (p.run Memory.answer []).1 ∧
    (p.run Memory.answer []).1.filter (fun entry => about entry.1)
      = ((session (ethUsdCalls.filter about)).run Memory.answer []).1 := by
  intro p about
  have hfits := makes_session fits_ethUsdCalls
  have hspaces : ∀ c ∈ ethUsdCalls, ':' ∉ c.space.toList := by decide
  obtain ⟨-, -, hagree, happart⟩ := files_refine_memory
  have happart := happart ethUsdCalls "oracles" "eth/usd" (by decide) hspaces File.shows_empty
  exact ⟨hfits, by decide, hspaces, File.shows_empty, (hagree p hfits).1, happart.1⟩

end PriceOracle.Storage
