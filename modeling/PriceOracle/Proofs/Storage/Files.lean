import PriceOracle.Storage.File
import PriceOracle.Storage.Memory
import PriceOracle.Simulation.Backend
import PriceOracle.Proofs.Program.Behaviour
import PriceOracle.Proofs.Text.Bytes

/-!
# Records in files

What storage sees of a directory in which each key has a file of its own. Temporary files stay out
of sight, so a crash between any two operations, or amid the writing of a file, leaves every record
as it was before the interrupted request or as it is after it.

* `recordName_inj`: different keys have different files, none of which is a temporary one.
* `Shows`: the records that a directory shows.
* `Shows.answer`: a request to the files does to these records what it does in memory, as long as
  the name of the file is not too long.
* `Interrupted`: the directories that a crash may leave.
* `interrupted_through`: an interrupted program has run up to one of its requests to storage.
-/

namespace PriceOracle.Storage.File

/-! ## Names -/

/-- The loop over the bytes of a key does not compute in a proof; their list does. -/
theorem stem_eq (key : String) :
    stem key = String.ofList (key.toUTF8.data.toList.flatMap stemOfByte) := by
  rw [stem, Text.toList_bytes]

/-- Bytes are told by their list. -/
theorem bytes_inj {bytes others : ByteArray} (h : bytes.toList = others.toList) :
    bytes = others := by
  rw [Text.toList_bytes, Text.toList_bytes] at h
  exact ByteArray.ext (Array.toList_inj.mp h)

/-- A plain byte is written as the character that it is. -/
theorem stemOfByte_plain {b : UInt8} (h : isPlain b = true) :
    stemOfByte b = [Char.ofNat b.toNat] := if_pos h

/-- Any other byte is written as an underscore, which is not plain, and two digits. -/
theorem stemOfByte_escaped {b : UInt8} (h : isPlain b = false) :
    stemOfByte b = '_' :: Hex.ofByte b := by
  rw [stemOfByte, h]
  rfl

/-- The mark of an escaped byte is no plain byte. -/
theorem ofNat_ne_mark {b : UInt8} (h : isPlain b = true) : Char.ofNat b.toNat ≠ '_' := by
  intro hmark
  rw [isPlain, hmark] at h
  simp at h

theorem toNat_of_isPlain {b : UInt8} (h : isPlain b = true) :
    (Char.ofNat b.toNat).toNat = b.toNat := by
  have hlt : b.toNat < 128 := by
    simp [isPlain, UInt8.lt_iff_toNat_lt] at h
    exact h.1
  have hvalid : b.toNat.isValidChar := .inl (by omega)
  rw [Char.ofNat, dif_pos hvalid]
  rfl

/-- Two digits tell a byte. -/
theorem hexOfByte_inj {b c : UInt8} (h : Hex.ofByte b = Hex.ofByte c) : b = c := by
  have hb : Hex.decode? (Hex.encode [b]) = some [b] := Hex.decode_encode [b]
  have hc : Hex.decode? (Hex.encode [c]) = some [c] := Hex.decode_encode [c]
  rw [Hex.encode, List.flatMap_singleton] at hb hc
  rw [h, hc] at hb
  exact (List.cons.inj (Option.some.inj hb)).1.symm

/-- The written form of a byte can be split off. -/
theorem stemOfByte_append_inj {b c : UInt8} {rest other : List Char}
    (h : stemOfByte b ++ rest = stemOfByte c ++ other) : b = c ∧ rest = other := by
  by_cases hb : isPlain b = true
  · rw [stemOfByte_plain hb] at h
    by_cases hc : isPlain c = true
    · rw [stemOfByte_plain hc] at h
      obtain ⟨hchar, hrest⟩ := List.cons.inj h
      have hnat := congrArg Char.toNat hchar
      rw [toNat_of_isPlain hb, toNat_of_isPlain hc] at hnat
      exact ⟨UInt8.toNat_inj.mp hnat, hrest⟩
    · rw [stemOfByte_escaped (Bool.eq_false_iff.mpr hc)] at h
      exact absurd (List.cons.inj h).1 (ofNat_ne_mark hb)
  · rw [stemOfByte_escaped (Bool.eq_false_iff.mpr hb)] at h
    by_cases hc : isPlain c = true
    · rw [stemOfByte_plain hc] at h
      exact absurd (List.cons.inj h).1.symm (ofNat_ne_mark hc)
    · rw [stemOfByte_escaped (Bool.eq_false_iff.mpr hc)] at h
      obtain ⟨hhex, hrest⟩ := List.append_inj (List.cons.inj h).2 rfl
      exact ⟨hexOfByte_inj hhex, hrest⟩

theorem stemOfByte_ne_nil (b : UInt8) : stemOfByte b ≠ [] := by
  unfold stemOfByte
  split <;> exact List.cons_ne_nil _ _

/-- The stems of bytes can be cut apart again: a stem starts with an underscore exactly for an
escaped byte, and it is as long as that says. -/
theorem stemOfBytes_inj {bytes others : List UInt8}
    (h : bytes.flatMap stemOfByte = others.flatMap stemOfByte) : bytes = others := by
  induction bytes generalizing others with
  | nil =>
    cases others with
    | nil => rfl
    | cons c rest =>
      rw [List.flatMap_cons] at h
      exact absurd (List.append_eq_nil_iff.mp h.symm).1 (stemOfByte_ne_nil c)
  | cons b rest ih =>
    cases others with
    | nil =>
      rw [List.flatMap_cons] at h
      exact absurd (List.append_eq_nil_iff.mp h).1 (stemOfByte_ne_nil b)
    | cons c others =>
      rw [List.flatMap_cons, List.flatMap_cons] at h
      obtain ⟨rfl, hrest⟩ := stemOfByte_append_inj h
      rw [ih hrest]

/-- Different keys have different stems. -/
theorem stem_inj {key other : String} (h : stem key = stem other) : key = other := by
  have hbytes := bytes_inj (stemOfBytes_inj (String.ofList_inj.mp h))
  exact String.toByteArray_inj.mp hbytes

/-- Different keys have different files. -/
theorem recordName_inj {key other : String} (h : recordName key = recordName other) :
    key = other := stem_inj ((String.append_left_inj ".json").mp h)

/-- No record is a temporary file. -/
theorem temporaryName_ne (key other : String) : temporaryName key ≠ recordName other := by
  intro h
  have hlast := congrArg (fun s => s.toList.getLast?) h
  simp [temporaryName, recordName] at hlast

/-- The name of the record of a key can be used. -/
def Fits (key : String) : Prop := (recordName key).utf8ByteSize ≤ Directory.maxName

instance (key : String) : Decidable (Fits key) :=
  inferInstanceAs (Decidable (_ ≤ _))

/-- Where the record has a name that can be used, so has its temporary file. -/
theorem temporaryName_le {key : String} (hfits : Fits key) :
    (temporaryName key).utf8ByteSize ≤ Directory.maxName := by
  unfold temporaryName
  split
  next hempty =>
    rw [recordName, hempty]
    decide
  · refine Nat.le_trans ?_ hfits
    rw [recordName, String.utf8ByteSize_append, String.utf8ByteSize_append]
    exact Nat.add_le_add_left (by decide) _

/-! ## Records -/

/-- The key that a request is about. -/
def keyOf : Request → String
  | .get key | .set key _ | .delete key | .holds key => key

/-- Answers a request on the contents of a directory; it fails where the name of a file is too
long. -/
def serve (r : Storage.interface.Request) (m : Memory) : Storage.interface.Reply r × Memory :=
  if Fits (keyOf r) then Memory.answer r m
  else (Simulation.refuse (backendError .nameTooLong) r, m)

/-- On keys whose file can be named, storage in files answers as storage in memory does. -/
theorem serve_of_fits {r : Storage.interface.Request} (h : Fits (keyOf r)) (m : Memory) :
    serve r m = Memory.answer r m := if_pos h

/-- On other keys it refuses, and nothing changes. -/
theorem serve_of_not_fits {r : Storage.interface.Request} (h : ¬Fits (keyOf r)) (m : Memory) :
    serve r m = (Simulation.refuse (backendError .nameTooLong) r, m) := if_neg h

/-- The records that a directory shows. -/
structure Shows (d : Directory) (m : Memory) : Prop where
  entered : d.blocked = false
  records : ∀ key, Dict.get? m key =
    if Fits key then Dict.get? d.files (recordName key) else none

variable {d d' : Directory} {m : Memory} {key : String}

/-- Only a long name cannot be used. -/
theorem Shows.fault_eq (h : Shows d m) (name : String) :
    d.fault? name = if Directory.maxName < name.utf8ByteSize then some .nameTooLong else none := by
  simp [Directory.fault?, h.entered]

/-- The only fault that is left to a record is the length of its name. -/
theorem Shows.fault_record (h : Shows d m) (key : String) :
    d.fault? (recordName key) = if Fits key then none else some .nameTooLong := by
  rw [h.fault_eq]
  by_cases hfits : Fits key
  · rw [if_pos hfits, if_neg (Nat.not_lt.mpr hfits)]
  · rw [if_neg hfits, if_pos (Nat.not_le.mp hfits)]

/-- The temporary file of a record that can be named can be named as well. -/
theorem Shows.fault_temporary (h : Shows d m) (hfits : Fits key) :
    d.fault? (temporaryName key) = none := by
  rw [h.fault_eq, if_neg (Nat.not_lt.mpr (temporaryName_le hfits))]

/-- A rename fails where the name of the record is too long. -/
theorem Shows.fault_rename (h : Shows d m) (key : String) :
    (d.fault? (temporaryName key) <|> d.fault? (recordName key))
      = if Fits key then none else some .nameTooLong := by
  by_cases hfits : Fits key
  · rw [h.fault_temporary hfits, h.fault_record]
    rfl
  · rw [h.fault_eq (temporaryName key), h.fault_record, if_neg hfits]
    split <;> rfl

/-- Temporary files are no records. -/
theorem Shows.write_temporary (h : Shows d m) (key : String) (content : ByteArray) :
    Shows { d with files := Dict.set (temporaryName key) content d.files } m := by
  refine ⟨h.entered, ?_⟩
  intro other
  have hne : recordName other ≠ temporaryName key := (temporaryName_ne key other).symm
  show _ = if Fits other then Dict.get? (Dict.set _ _ d.files) _ else none
  rw [Dict.get?_set_of_ne _ _ hne]
  exact h.records other

/-- A temporary file that takes the place of a record is the record. -/
theorem Shows.rename (h : Shows d m) (hfits : Fits key) (content : ByteArray) :
    Shows
      ⟨d.blocked, Dict.set (recordName key) content (Dict.unset d.files (temporaryName key))⟩
      (Dict.set key content m) := by
  refine ⟨h.entered, ?_⟩
  intro other
  show _ = if Fits other then Dict.get? (Dict.set _ _ (Dict.unset d.files _)) _ else none
  by_cases heq : other = key
  · subst heq
    rw [Dict.get?_set_self, Dict.get?_set_self, if_pos hfits]
  · have hname : recordName other ≠ recordName key := fun hname => heq (recordName_inj hname)
    have htemporary : recordName other ≠ temporaryName key := (temporaryName_ne key other).symm
    rw [Dict.get?_set_of_ne _ _ heq, Dict.get?_set_of_ne _ _ hname,
      Dict.get?_unset_of_ne _ htemporary]
    exact h.records other

/-- A record whose file is removed is no longer shown. -/
theorem Shows.remove (h : Shows d m) (hfits : Fits key) :
    Shows { d with files := Dict.unset d.files (recordName key) } (Dict.unset m key) := by
  refine ⟨h.entered, ?_⟩
  intro other
  show _ = if Fits other then Dict.get? (Dict.unset d.files _) _ else none
  by_cases heq : other = key
  · subst heq
    rw [Dict.get?_unset_self, Dict.get?_unset_self, if_pos hfits]
  · have hname : recordName other ≠ recordName key := fun hname => heq (recordName_inj hname)
    rw [Dict.get?_unset_of_ne _ heq, Dict.get?_unset_of_ne _ hname]
    exact h.records other

/-- Taking out what is not there changes nothing that can be seen. -/
theorem Shows.remove_absent (h : Shows d m) (hnone : Dict.get? m key = none) :
    Shows d (Dict.unset m key) := by
  refine ⟨h.entered, ?_⟩
  intro other
  rw [← h.records other]
  by_cases heq : other = key
  · subst heq
    rw [Dict.get?_unset_self, hnone]
  · exact Dict.get?_unset_of_ne _ heq

/-! ### Requests -/

theorem run_ask {α : Type} {r : Directory.interface.Request}
    {next : Directory.interface.Reply r → Program Directory.interface α}
    {reply : Directory.interface.Reply r} (h : Directory.answer r d = (reply, d')) :
    (Program.ask r next).run Directory.answer d = (next reply).run Directory.answer d' := by
  show (next (Directory.answer r d).1).run Directory.answer (Directory.answer r d).2 = _
  rw [h]

/-- What the reading of a file says about a record. -/
def told : Except FileError ByteArray → Except StorageError ByteArray
  | .ok content => .ok content
  | .error .notFound => .error .notFound
  | .error e => .error (backendError e)

/-- What the removal of a file says about a record. A missing one counts as removed. -/
def gone : Except FileError Unit → Except StorageError Unit
  | .ok _ => .ok ()
  | .error .notFound => .ok ()
  | .error e => .error (backendError e)

/-- Getting a record is one read. -/
theorem answer_get (key : String) :
    File.answer (.get key) = .ask (.read (recordName key))
      fun (reply : Except FileError ByteArray) => .done (told reply) := by
  refine congrArg (Program.ask (I := Directory.interface) (.read _)) (funext fun reply => ?_)
  cases reply with
  | ok _ => rfl
  | error e => cases e <;> rfl

/-- Deleting a record is one removal of a file. -/
theorem answer_delete (key : String) :
    File.answer (.delete key) = .ask (.remove (recordName key))
      fun (reply : Except FileError Unit) => .done (gone reply) := by
  refine congrArg (Program.ask (I := Directory.interface) (.remove _)) (funext fun reply => ?_)
  cases reply with
  | ok _ => rfl
  | error e => cases e <;> rfl

/-- Looking for a record is one look for a file. -/
theorem answer_holds (key : String) :
    File.answer (.holds key) = .ask (.holds (recordName key))
      fun (reply : Except FileError Bool) => .done (reply.mapError backendError) := by
  refine congrArg (Program.ask (I := Directory.interface) (.holds _)) (funext fun reply => ?_)
  cases reply <;> rfl

theorem run_get (key : String) (d : Directory) :
    (File.answer (.get key)).run Directory.answer d
      = (told (match d.fault? (recordName key), Dict.get? d.files (recordName key) with
        | some e, _ => .error e
        | none, some content => .ok content
        | none, none => .error .notFound), d) := by
  rw [answer_get]
  rfl

/-- A record is written in three steps. -/
theorem write_eq (key : String) (content : ByteArray) :
    (write key content).run
      = .ask .create fun (created : Except FileError Unit) =>
        match created with
        | .error e => .done (.error (backendError e))
        | .ok _ =>
          .ask (.write (temporaryName key) content) fun (written : Except FileError Unit) =>
          match written with
          | .error e => .done (.error (backendError e))
          | .ok _ => .ask (.rename (temporaryName key) (recordName key))
            fun (renamed : Except FileError Unit) => .done (renamed.mapError backendError) := by
  refine congrArg (Program.ask (I := Directory.interface) .create) (funext fun created => ?_)
  cases created with
  | error e => rfl
  | ok _ =>
    refine congrArg (Program.ask (I := Directory.interface) (.write _ _)) (funext fun written => ?_)
    cases written with
    | error e => rfl
    | ok _ =>
      refine congrArg (Program.ask (I := Directory.interface) (.rename _ _)) ?_
      refine funext fun renamed => ?_
      cases renamed <;> rfl

theorem run_delete (key : String) (d : Directory) :
    (File.answer (.delete key)).run Directory.answer d
      = match d.fault? (recordName key) with
        | some e => (gone (.error e), d)
        | none =>
          (.ok (), if Dict.has d.files (recordName key) then
            ⟨d.blocked, Dict.unset d.files (recordName key)⟩ else d) := by
  rw [answer_delete]
  show (gone (Directory.answer (.remove (recordName key)) d).1,
    (Directory.answer (.remove (recordName key)) d).2) = _
  rw [Directory.answer]
  cases d.fault? (recordName key) with
  | some e => rfl
  | none =>
    cases Dict.has d.files (recordName key) <;> rfl

theorem run_holds (key : String) (d : Directory) :
    (File.answer (.holds key)).run Directory.answer d
      = (match d.fault? (recordName key) with
        | some e => .error (backendError e)
        | none => .ok (Dict.has d.files (recordName key)), d) := by
  rw [answer_holds]
  show ((Directory.answer (.holds (recordName key)) d).1.mapError backendError, d) = _
  rw [Directory.answer]
  cases d.fault? (recordName key) <;> rfl

/-! ### The steps of a write -/

theorem Shows.create (h : Shows d m) : Directory.answer .create d = (.ok (), d) := by
  simp [Directory.answer, h.entered]

/-- Writing a temporary file goes through, and is not shown. -/
theorem Shows.answer_write (h : Shows d m) (hfits : Fits key) (content : ByteArray) :
    Directory.answer (.write (temporaryName key) content) d
      = (.ok (), ⟨d.blocked, Dict.set (temporaryName key) content d.files⟩) := by
  simp only [Directory.answer, h.fault_temporary hfits]

/-- Renaming a temporary file makes it the record, in one operation. -/
theorem Shows.answer_rename (h : Shows d m) (hfits : Fits key) {content : ByteArray}
    (hcontent : Dict.get? d.files (temporaryName key) = some content) :
    Directory.answer (.rename (temporaryName key) (recordName key)) d
      = (.ok (), ⟨d.blocked, Dict.set (recordName key) content
          (Dict.unset d.files (temporaryName key))⟩) := by
  have hfault := h.fault_rename key
  rw [if_pos hfits] at hfault
  simp only [Directory.answer, hfault, hcontent]

/-- Where the name of a record can be used, its file is all that writing it leaves. -/
theorem Shows.run_set (h : Shows d m) (hfits : Fits key) (content : ByteArray) :
    (File.answer (.set key content)).run Directory.answer d
      = (.ok (), ⟨d.blocked, Dict.set (recordName key) content
          (Dict.unset (Dict.set (temporaryName key) content d.files) (temporaryName key))⟩) := by
  have hwritten := h.write_temporary key content
  show (write key content).run.run Directory.answer d = _
  rw [write_eq]
  refine (run_ask h.create).trans ?_
  refine (run_ask (h.answer_write hfits content)).trans ?_
  have hcontent := Dict.get?_set_self d.files (temporaryName key) content
  exact run_ask (hwritten.answer_rename hfits hcontent)

/-- A record is written where its name can be used. -/
theorem Shows.answer_set (h : Shows d m) (hfits : Fits key) (content : ByteArray) :
    let outcome := (File.answer (.set key content)).run Directory.answer d
    outcome.1 = .ok () ∧ Shows outcome.2 (Dict.set key content m) := by
  rw [h.run_set hfits content]
  exact ⟨rfl, (h.write_temporary key content).rename hfits content⟩

/-- A record whose name is too long is not written, though its temporary file may be. -/
theorem Shows.answer_set_long (h : Shows d m) (hlong : ¬Fits key) (content : ByteArray) :
    let outcome := (File.answer (.set key content)).run Directory.answer d
    outcome.1 = .error (backendError .nameTooLong) ∧ Shows outcome.2 m := by
  have hwritten := h.write_temporary key content
  have hrun : (File.answer (.set key content)).run Directory.answer d
      = (.error (backendError .nameTooLong),
        if Directory.maxName < (temporaryName key).utf8ByteSize then d
        else ⟨d.blocked, Dict.set (temporaryName key) content d.files⟩) := by
    show (write key content).run.run Directory.answer d = _
    rw [write_eq]
    refine (run_ask h.create).trans ?_
    have hfault := h.fault_eq (temporaryName key)
    -- Too long already for the temporary file, or only for the record it is renamed to.
    by_cases hlt : Directory.maxName < (temporaryName key).utf8ByteSize
    · rw [if_pos hlt] at hfault ⊢
      have hwrite : Directory.answer (.write (temporaryName key) content) d
          = (.error .nameTooLong, d) := by
        simp only [Directory.answer, hfault]
      exact run_ask hwrite
    · rw [if_neg hlt] at hfault ⊢
      have hwrite : Directory.answer (.write (temporaryName key) content) d
          = (.ok (), ⟨d.blocked, Dict.set (temporaryName key) content d.files⟩) := by
        simp only [Directory.answer, hfault]
      have hrename := hwritten.fault_rename key
      rw [if_neg hlong] at hrename
      refine (run_ask hwrite).trans ?_
      have hrenamed : Directory.answer (.rename (temporaryName key) (recordName key))
          ⟨d.blocked, Dict.set (temporaryName key) content d.files⟩
          = (.error .nameTooLong, ⟨d.blocked, Dict.set (temporaryName key) content d.files⟩) := by
        simp only [Directory.answer, hrename]
      exact run_ask hrenamed
  rw [hrun]
  refine ⟨rfl, ?_⟩
  show Shows (if _ then _ else _) m
  split
  · exact h
  · exact hwritten

/-- What a directory says about a record whose name can be used is what memory says. -/
theorem Shows.answer_fits (h : Shows d m) {r : Storage.interface.Request}
    (hfits : Fits (keyOf r)) :
    let outcome := (File.answer r).run Directory.answer d
    outcome.1 = (Memory.answer r m).1 ∧ Shows outcome.2 (Memory.answer r m).2 := by
  have hfault := h.fault_record (keyOf r)
  have hrecord := h.records (keyOf r)
  rw [if_pos hfits] at hfault hrecord
  cases r with
  | get key =>
    change d.fault? (recordName key) = none at hfault
    change Dict.get? m key = Dict.get? d.files (recordName key) at hrecord
    rw [run_get, hfault, Memory.answer, hrecord]
    refine ⟨?_, h⟩
    cases Dict.get? d.files (recordName key) <;> rfl
  | set key content => exact h.answer_set hfits content
  | delete key =>
    change d.fault? (recordName key) = none at hfault
    change Dict.get? m key = Dict.get? d.files (recordName key) at hrecord
    rw [run_delete, hfault]
    refine ⟨rfl, ?_⟩
    show Shows (if _ then _ else _) _
    split
    · exact h.remove hfits
    -- Nothing to delete is no error in either backend.
    next habsent =>
      refine h.remove_absent ?_
      rw [hrecord]
      simpa [Dict.has] using habsent
  | holds key =>
    change d.fault? (recordName key) = none at hfault
    change Dict.get? m key = Dict.get? d.files (recordName key) at hrecord
    rw [run_holds, hfault, Memory.answer, Dict.has, Dict.has, hrecord]
    exact ⟨rfl, h⟩

/-- A request about a record whose name is too long fails and changes no record. -/
theorem Shows.answer_long (h : Shows d m) {r : Storage.interface.Request}
    (hlong : ¬Fits (keyOf r)) :
    let outcome := (File.answer r).run Directory.answer d
    outcome.1 = Simulation.refuse (backendError .nameTooLong) r ∧ Shows outcome.2 m := by
  have hfault := h.fault_record (keyOf r)
  rw [if_neg hlong] at hfault
  cases r with
  | get key =>
    change d.fault? (recordName key) = _ at hfault
    rw [run_get, hfault]
    exact ⟨rfl, h⟩
  | set key content => exact h.answer_set_long hlong content
  | delete key =>
    change d.fault? (recordName key) = _ at hfault
    rw [run_delete, hfault]
    exact ⟨rfl, h⟩
  | holds key =>
    change d.fault? (recordName key) = _ at hfault
    rw [run_holds, hfault]
    exact ⟨rfl, h⟩

/-- A request to the files does to the records what it does to the contents. -/
theorem Shows.answer (h : Shows d m) (r : Storage.interface.Request) :
    let outcome := (File.answer r).run Directory.answer d
    outcome.1 = (serve r m).1 ∧ Shows outcome.2 (serve r m).2 := by
  by_cases hfits : Fits (keyOf r)
  · rw [serve_of_fits hfits]
    exact h.answer_fits hfits
  · rw [serve_of_not_fits hfits]
    exact h.answer_long hfits

/-- A program on files does to the records what it does to the contents. -/
theorem Shows.run {α : Type} (h : Shows d m) (p : Program Storage.interface α) :
    let outcome := (p.through File.answer).run Directory.answer d
    outcome.1 = (p.run serve m).1 ∧ Shows outcome.2 (p.run serve m).2 := by
  induction p generalizing d m with
  | done a => exact ⟨rfl, h⟩
  | ask r next ih =>
    obtain ⟨hreply, hshows⟩ := h.answer r
    intro outcome
    have houtcome : outcome = _ := Program.run_bind Directory.answer (File.answer r) _ d
    rw [houtcome, hreply]
    exact ih _ hshows

/-! ## Crashes -/

/-- The directories that a crash during a program may leave: those between two of its operations,
and those in which a file was written in part. -/
inductive Interrupted {α : Type} :
    Program Directory.interface α → Directory → Directory → Prop where
  | here (p : Program Directory.interface α) (d : Directory) : Interrupted p d d
  | torn {name : String} {content : ByteArray}
    {next : Except FileError Unit → Program Directory.interface α} {d : Directory}
    (part : ByteArray) (h : d.fault? name = none) :
    Interrupted (.ask (.write name content) next) d ⟨d.blocked, Dict.set name part d.files⟩
  | ask {r : Directory.interface.Request}
    {next : Directory.interface.Reply r → Program Directory.interface α} {d d' : Directory}
    (h : Interrupted (next (Directory.answer r d).1) (Directory.answer r d).2 d') :
    Interrupted (.ask r next) d d'

/-- A program in two parts is interrupted in the first, or in the second after the first is through.
-/
theorem Interrupted.of_bind {α β : Type} {p : Program Directory.interface α}
    {f : α → Program Directory.interface β} (h : Interrupted (p.bind f) d d') :
    Interrupted p d d' ∨
      Interrupted (f (p.run Directory.answer d).1) (p.run Directory.answer d).2 d' := by
  induction p generalizing d with
  | done a => exact .inr h
  | ask r next ih =>
    cases h with
    | here => exact .inl (.here _ _)
    | torn part hfault => exact .inl (.torn part hfault)
    | ask h =>
      rcases ih _ h with hfirst | hrest
      · exact .inl (.ask hfirst)
      · exact .inr hrest

/-- A done program leaves the directory as it is. -/
theorem Interrupted.of_done {α : Type} {a : α} (h : Interrupted (.done a) d d') : d' = d := by
  cases h
  rfl

/-- A write that is interrupted has changed no record, or is done with it. -/
theorem Shows.interrupted_write (h : Shows d m) {content : ByteArray}
    (hcrash : Interrupted (write key content).run d d') :
    Shows d' m ∨ Shows d' (serve (.set key content) m).2 := by
  have hdone : Shows ((write key content).run.run Directory.answer d).2 _ :=
    (h.answer (.set key content)).2
  have hwritten := h.write_temporary key content
  rw [write_eq] at hcrash
  -- Cut before the rename the records are the old ones, whatever the temporary file holds.
  cases hcrash with
  | here => exact .inl h
  | ask hcrash =>
    rw [h.create] at hcrash
    cases hcrash with
    | here => exact .inl h
    | torn part _ => exact .inl (h.write_temporary key part)
    | ask hcrash =>
      cases hfault : d.fault? (temporaryName key) with
      | some e =>
        have hwrite : Directory.answer (.write (temporaryName key) content) d = (.error e, d) := by
          simp only [Directory.answer, hfault]
        rw [hwrite] at hcrash
        rw [hcrash.of_done]
        exact .inl h
      | none =>
        have hwrite : Directory.answer (.write (temporaryName key) content) d
            = (.ok (), ⟨d.blocked, Dict.set (temporaryName key) content d.files⟩) := by
          simp only [Directory.answer, hfault]
        rw [hwrite] at hcrash
        cases hcrash with
        | here => exact .inl hwritten
        | ask hcrash =>
          -- Past the rename the whole write is done.
          have hend : ((write key content).run.run Directory.answer d).2 = d' := by
            rw [write_eq, hcrash.of_done]
            refine (congrArg Prod.snd (run_ask h.create)).trans ?_
            exact congrArg Prod.snd (run_ask hwrite)
          rw [← hend]
          exact .inr hdone

/-- A request that is interrupted has changed no record, or is done with it. -/
theorem Shows.interrupted (h : Shows d m) {r : Storage.interface.Request}
    (hcrash : Interrupted (File.answer r) d d') : Shows d' m ∨ Shows d' (serve r m).2 := by
  cases r with
  | set key content => exact h.interrupted_write hcrash
  | get key =>
    rw [answer_get] at hcrash
    cases hcrash with
    | here => exact .inl h
    | ask hcrash =>
      rw [hcrash.of_done]
      exact .inl h
  | delete key =>
    have hdone := (h.answer (.delete key)).2
    rw [answer_delete] at hcrash hdone
    cases hcrash with
    | here => exact .inl h
    | ask hcrash =>
      rw [hcrash.of_done]
      exact .inr hdone
  | holds key =>
    rw [answer_holds] at hcrash
    cases hcrash with
    | here => exact .inl h
    | ask hcrash =>
      rw [hcrash.of_done]
      exact .inl h

/-- An interrupted program has run up to one of its requests to storage. -/
theorem interrupted_through {α : Type} (h : Shows d m) {p : Program Storage.interface α}
    (hcrash : Interrupted (p.through File.answer) d d') :
    ∃ q m', Program.Leads (Program.Exactly serve) p m q m' ∧ Shows d' m' := by
  induction p generalizing d m with
  | done a =>
    rw [hcrash.of_done]
    exact ⟨_, m, .here _ m, h⟩
  | ask r next ih =>
    rcases hcrash.of_bind with hfirst | hrest
    · rcases h.interrupted hfirst with hbefore | hafter
      · exact ⟨_, m, .here _ m, hbefore⟩
      · exact ⟨_, _, .reply rfl, hafter⟩
    · obtain ⟨hreply, hshows⟩ := h.answer r
      have hnext : Interrupted ((next (serve r m).1).through File.answer)
          ((File.answer r).run Directory.answer d).2 d' :=
        Eq.mp (congrArg (fun reply => Interrupted ((next reply).through File.answer) _ d') hreply)
          hrest
      obtain ⟨q, m', hleads, hleft⟩ := ih _ hshows hnext
      exact ⟨q, m', .ask rfl hleads, hleft⟩

end PriceOracle.Storage.File
