import IteSdk.Upgrade.FileCrc
import Mathlib.Data.List.Nodup

/-!
# Updating the table of file checksums

`ugSetFileCrc` sets one entry of the table and nothing else.
`ugUpgradeFilesCrc` computes all entries and stores none.
-/

namespace IteSdk.Upgrade

section

open Lib Itc

universe u

variable {φ : Type u}

section Reading

variable {env : UgFilesEnv} {files : UgFiles φ}

theorem ugCalcFileCrcBy_content {chunkSize : Nat} (positive : 0 < chunkSize)
    (aligned : 4 ∣ chunkSize) {filepath data : List UInt8}
    (content : files.content (files.file filepath) = some data) (fits : data.length < 2 ^ 31) :
    ugCalcFileCrcBy chunkSize env files filepath =
      if env.mallocFile filepath = false then some (ugOutOfMem, 0)
      else some (0, ugCalcBufferCrc data data.length) := by
  obtain ⟨bufsize, bufsizeEq⟩ :
      ∃ bufsize, bufsize = (if chunkSize < data.length then chunkSize else data.length) := ⟨_, rfl⟩
  obtain ⟨readsize, sameRest, reads⟩ :=
    ugCheckCrcLoop_reads bufsize (data.length + 1) ⟨.file, data, 0, fits⟩ data.length 0 (by omega)
      (by rw [bufsizeEq]; split <;> omega)
      (by
        rw [bufsizeEq]
        split
        · exact Or.inr aligned
        · exact Or.inl (Nat.le_refl _))
      (by rw [Nat.zero_add]; exact Nat.le_refl _)
  have size : (⟨.file, data, 0, fits⟩ : ITCStream).size = data.length := rfl
  rw [ugCalcFileCrcBy, UgFiles.openStream, content]
  simp only [dif_pos fits, size, ← bufsizeEq, reads, sameRest, slice_all, ne_eq,
    not_true_eq_false, if_false, ugCalcBufferCrc_whole]

theorem ugCalcFileCrc_success {filepath : List UInt8} {crc : BitVec 32}
    (success : ugCalcFileCrc env files filepath = some (0, crc)) :
    ∃ data, files.content (files.file filepath) = some data ∧
      crc = ugCalcBufferCrc data data.length := by
  cases content : files.content (files.file filepath) with
  | none =>
    rw [ugCalcFileCrc, ugCalcFileCrcBy, UgFiles.openStream, content] at success
    simp at success
  | some data =>
    refine ⟨data, rfl, ?_⟩
    by_cases fits : data.length < 2 ^ 31
    · rw [ugCalcFileCrc, ugCalcFileCrcBy_content (by decide) (by decide) content fits]
        at success
      split at success
      · simp [ugOutOfMem] at success
      · simpa using success.symm
    · rw [ugCalcFileCrc, ugCalcFileCrcBy, UgFiles.openStream, content] at success
      dsimp only at success
      rw [dif_neg fits] at success
      simp [ugOutOfMem] at success

theorem ugCalcEntryCrc_success {path name : List UInt8} {crc : BitVec 32}
    (success : ugCalcEntryCrc env files path name = some (0, crc)) :
    ∃ data, files.content (files.file (path ++ name)) = some data ∧
      crc = ugCalcBufferCrc data data.length := by
  rw [ugCalcEntryCrc] at success
  split at success
  · exact ugCalcFileCrc_success success
  · cases success

theorem ugReadTable_eq {crcpath data : List UInt8} {room : Nat}
    (content : files.content (files.file crcpath) = some data) (fits : data.length < 2 ^ 31) :
    ugReadTable env files crcpath room =
      if env.mallocTable = false ∨ 2 ^ 31 ≤ data.length + room then
        some (.error ugOutOfMem)
      else
        match ugCheckCrc true ⟨.file, data, 0, fits⟩ true with
        | none => none
        | some ret =>
          if ret ≠ 0 then
            some (.error ret)
          else
            some
              (.ok
                (overwrite 0 (data.take (data.length - 4)) (env.fresh (data.length + room)),
                  data.length - 4)) := by
  rw [ugReadTable, UgFiles.openStream, content]
  dsimp only
  rw [dif_pos fits]
  rfl

theorem ugCheckCrc_withCrc {f : ITCStream} {body : List UInt8}
    (data : f.data = withCrc body) : ugCheckCrc true f true = some 0 := by
  rw [ugCheckCrc_package data (length_ugCrcBytes _), littleEndian_ugCrcBytes]
  simp

theorem withCrc_of_ugCheckCrc {f : ITCStream} (accepted : ugCheckCrc true f true = some 0) :
    ∃ body, f.data = withCrc body := by
  rcases Nat.lt_or_ge f.data.length 4 with short | long
  · have seek := itcStreamSeek_end_before (short : f.size < 4)
    have cast : (-(4 : Nat) : Int) = -4 := rfl
    rw [ugCheckCrc, ugCheckCrcBy, ← cast, seek] at accepted
    simp at accepted
  · have parts := List.take_append_drop (f.data.length - 4) f.data
    have four : (f.data.drop (f.data.length - 4)).length = 4 := by
      rw [List.length_drop]
      omega
    rw [ugCheckCrc_package parts.symm four, if_neg (by simp)] at accepted
    split at accepted
    · simp at accepted
    · rename_i same
      refine ⟨f.data.take (f.data.length - 4), ?_⟩
      rw [withCrc, ← of_not_not same, ugCrcBytes_littleEndian four, parts]

theorem ugReadTable_withCrc (room : Nat) {crcpath body : List UInt8}
    (content : files.content (files.file crcpath) = some (withCrc body))
    (fits : body.length + 4 + room < 2 ^ 31) (memory : env.mallocTable = true) :
    ∃ right : List UInt8, right.length = 4 + room ∧
      ugReadTable env files crcpath room = some (.ok (body ++ right, body.length)) := by
  have length := length_withCrc body
  have bodyPart : (withCrc body).take body.length = body := List.take_left
  refine ⟨(env.fresh (body.length + 4 + room)).drop body.length, ?_, ?_⟩
  · rw [List.length_drop, env.freshLength]
    omega
  · rw [ugReadTable_eq content (by omega), if_neg (by simp [memory]; omega), ugCheckCrc_withCrc rfl]
    dsimp only
    rw [if_neg (by simp), length, Nat.add_sub_cancel, bodyPart, overwrite,
      List.take_zero, List.nil_append, Nat.zero_add]

theorem ugReadTable_success {crcpath buf : List UInt8} {room size : Nat}
    (success : ugReadTable env files crcpath room = some (.ok (buf, size))) :
    env.mallocTable = true ∧
      ∃ body right,
        files.content (files.file crcpath) = some (withCrc body) ∧
          body.length + 4 + room < 2 ^ 31 ∧ right.length = 4 + room ∧
            buf = body ++ right ∧ size = body.length := by
  cases content : files.content (files.file crcpath) with
  | none =>
    rw [ugReadTable, UgFiles.openStream, content] at success
    simp at success
  | some data =>
    by_cases fits : data.length < 2 ^ 31
    · have read := success
      rw [ugReadTable_eq content fits] at read
      split at read
      · simp at read
      · rename_i available
        obtain ⟨memory, small⟩ := not_or.mp available
        have hasMemory : env.mallocTable = true := by simpa using memory
        split at read
        · cases read
        · rename_i ret checked
          split at read
          · simp at read
          · rename_i accepted
            obtain rfl : ret = 0 := by simpa using accepted
            obtain ⟨body, same⟩ := withCrc_of_ugCheckCrc checked
            dsimp only at same
            subst same
            have length := length_withCrc body
            have enough : body.length + 4 + room < 2 ^ 31 := by omega
            obtain ⟨right, rightLength, again⟩ := ugReadTable_withCrc room content enough hasMemory
            rw [success] at again
            simp only [Option.some.injEq, Except.ok.injEq, Prod.mk.injEq] at again
            exact ⟨hasMemory, body, right, rfl, enough, rightLength, again.1, again.2⟩
    · rw [ugReadTable, UgFiles.openStream, content] at success
      dsimp only at success
      rw [dif_neg fits] at success
      simp at success

theorem ugReadTable_error {crcpath : List UInt8} {room : Nat} :
    ugReadTable env files crcpath room ≠ some (.error 0) := by
  intro failed
  rw [ugReadTable] at failed
  split at failed
  · rename_i ret notOpen
    rw [UgFiles.openStream] at notOpen
    split at notOpen
    · simp only [Except.error.injEq] at notOpen
      simp [← notOpen] at failed
    · split at notOpen
      · cases notOpen
      · simp only [Except.error.injEq] at notOpen
        simp [← notOpen, ugOutOfMem] at failed
  · split at failed
    · simp [ugOutOfMem] at failed
    · split at failed
      · cases failed
      · rename_i ret checked
        split at failed
        · rename_i nonzero
          simp only [Option.some.injEq, Except.error.injEq] at failed
          exact nonzero failed
        · cases failed

end Reading

/-! ## Tables -/

/-- The entries with that of one name replaced, or with a new last one. -/
def setEntry (new : CrcEntry) : List CrcEntry → List CrcEntry
  | [] => [new]
  | entry :: rest =>
    if new.name = entry.name then new :: rest
    else entry :: setEntry new rest

theorem setEntry_absent {new : CrcEntry} (entries : List CrcEntry)
    (absent : ∀ entry ∈ entries, new.name ≠ entry.name) :
    setEntry new entries = entries ++ [new] := by
  induction entries with
  | nil =>
    rfl
  | cons entry rest ih =>
    obtain ⟨here, others⟩ := List.forall_mem_cons.mp absent
    rw [setEntry, if_neg here, ih others, List.cons_append]

theorem setEntry_present {new entry : CrcEntry} {after : List CrcEntry}
    (named : new.name = entry.name) (before : List CrcEntry)
    (absent : ∀ other ∈ before, new.name ≠ other.name) :
    setEntry new (before ++ entry :: after) = before ++ new :: after := by
  induction before with
  | nil =>
    rw [List.nil_append, setEntry, if_pos named, List.nil_append]
  | cons other rest ih =>
    obtain ⟨here, others⟩ := List.forall_mem_cons.mp absent
    rw [List.cons_append, setEntry, if_neg here, ih others, List.cons_append]

theorem listed_cases (name : List UInt8) (entries : List CrcEntry) :
    (∀ entry ∈ entries, name ≠ entry.name) ∨
      ∃ before entry after, entries = before ++ entry :: after ∧
        name = entry.name ∧ ∀ other ∈ before, name ≠ other.name := by
  induction entries with
  | nil =>
    exact Or.inl (by simp)
  | cons entry rest ih =>
    by_cases here : name = entry.name
    · exact Or.inr ⟨[], entry, rest, rfl, here, by simp⟩
    · rcases ih with
        absent | ⟨before, found, after, rfl, named, absent⟩
      · exact Or.inl (List.forall_mem_cons.mpr ⟨here, absent⟩)
      · exact
          Or.inr
            ⟨entry :: before, found, after, rfl, named, List.forall_mem_cons.mpr ⟨here, absent⟩⟩

theorem mem_setEntry_self (new : CrcEntry) (entries : List CrcEntry) :
    new ∈ setEntry new entries := by
  induction entries with
  | nil =>
    exact List.mem_singleton_self new
  | cons entry rest ih =>
    rw [setEntry]
    split
    · exact List.mem_cons_self
    · exact List.mem_cons_of_mem entry ih

theorem mem_setEntry_of_ne {new other : CrcEntry}
    (different : other.name ≠ new.name) (entries : List CrcEntry) :
    other ∈ setEntry new entries ↔ other ∈ entries := by
  have notNew : other ≠ new := fun same => different (congrArg _ same)
  induction entries with
  | nil =>
    simp [setEntry, notNew]
  | cons entry rest ih =>
    rw [setEntry]
    by_cases named : new.name = entry.name
    · have notEntry : other ≠ entry := fun same => different (by rw [same, named])
      rw [if_pos named]
      simp [notNew, notEntry]
    · rw [if_neg named, List.mem_cons, List.mem_cons]
      exact or_congr_right ih

theorem names_setEntry (new : CrcEntry) (entries : List CrcEntry) :
    (setEntry new entries).map CrcEntry.name =
      if new.name ∈ entries.map CrcEntry.name then
        entries.map CrcEntry.name
      else
        entries.map CrcEntry.name ++ [new.name] := by
  induction entries with
  | nil =>
    rfl
  | cons entry rest ih =>
    rw [setEntry]
    by_cases named : new.name = entry.name
    · rw [if_pos named, List.map_cons, List.map_cons, named, if_pos List.mem_cons_self]
    · rw [if_neg named, List.map_cons, List.map_cons, ih]
      by_cases listed : new.name ∈ rest.map CrcEntry.name
      · rw [if_pos listed, if_pos (List.mem_cons_of_mem _ listed)]
      · have notHere : new.name ∉ entry.name :: rest.map CrcEntry.name :=
          List.not_mem_cons_of_ne_of_not_mem named listed
        rw [if_neg listed, if_neg notHere, List.cons_append]

theorem length_setEntry (new : CrcEntry) (entries : List CrcEntry) :
    (encodeEntries (setEntry new entries)).length ≤
      (encodeEntries entries).length + (new.name.length + 1 + 4) := by
  induction entries with
  | nil =>
    simp [setEntry, encodeEntries, length_encode]
  | cons entry rest ih =>
    rw [setEntry]
    split
    · simp only [encodeEntries_cons, List.length_append, length_encode]
      omega
    · simp only [encodeEntries_cons, List.length_append]
      omega

structure CrcTable where
  entries : List CrcEntry
  distinct : (entries.map CrcEntry.name).Nodup

def CrcTable.encode (table : CrcTable) : List UInt8 := withCrc (encodeEntries table.entries)

def CrcTable.set (table : CrcTable) (new : CrcEntry) : CrcTable where
  entries := setEntry new table.entries
  distinct := by
    rw [names_setEntry]
    split
    · exact table.distinct
    · rename_i unlisted
      rw [List.nodup_append_comm]
      exact List.nodup_cons.mpr ⟨unlisted, table.distinct⟩

theorem ugSetCrcValue_last (body : List UInt8) {four : List UInt8} (length : four.length = 4) :
    ugSetCrcValue (body ++ four) ((body ++ four).length - 4)
        (ugCalcBufferCrc (body ++ four) ((body ++ four).length - 4)) =
      withCrc body := by
  have start : (body ++ four).length - 4 = body.length := by
    rw [List.length_append, length, Nat.add_sub_cancel]
  have covered :
      ugCalcBufferCrc (body ++ four) body.length = ugCalcBufferCrc body body.length := by
    rw [ugCalcBufferCrc, List.take_left, ugCalcBufferCrc, List.take_length]
  rw [start, covered, ugSetCrcValue, overwrite, List.take_left,
    length_ugCrcBytes, ← length, ← List.length_append, List.drop_length,
    List.append_nil, withCrc]

theorem ugSetEntryCrc_absent (new : CrcEntry) (body : List UInt8) {right : List UInt8}
    (room : right.length = 4 + (new.name.length + 1 + 4)) :
    ugSetEntryCrc new.name (body ++ right) body.length none new.crc =
      withCrc (body ++ new.encode) := by
  have stored :
      ugSetCrcValue (overwrite body.length (new.name ++ [0]) (body ++ right))
          (body.length + (new.name.length + 1)) new.crc =
        body ++ new.encode ++ right.drop (new.name.length + 1 + 4) := by
    have start :
        body.length + (new.name.length + 1) = (body ++ (new.name ++ [0])).length := by
      simp
    have copied :
        overwrite body.length (new.name ++ [0]) (body ++ right) =
          body ++ (new.name ++ [0]) ++ right.drop (new.name ++ [0]).length := by
      rw [overwrite, List.take_left, ← List.drop_drop, List.drop_left]
    rw [copied, ugSetCrcValue, start, overwrite, List.take_left,
      length_ugCrcBytes, ← List.drop_drop, List.drop_left, List.drop_drop,
      CrcEntry.encode]
    simp
  have length : (right.drop (new.name.length + 1 + 4)).length = 4 := by
    rw [List.length_drop]
    omega
  rw [ugSetEntryCrc, stored]
  exact ugSetCrcValue_last (body ++ new.encode) length

theorem ugSetEntryCrc_present {new entry : CrcEntry} {left rest : List UInt8}
    {right : List UInt8} (named : new.name = entry.name) (room : 4 ≤ right.length) :
    ugSetEntryCrc new.name (left ++ (entry.encode ++ rest) ++ right)
        (left ++ (entry.encode ++ rest)).length
        (some (left.length + (entry.name.length + 1))) new.crc =
      withCrc (left ++ (new.encode ++ rest)) := by
  have replaced : { entry with crc := new.crc } = new := by
    cases new
    cases entry
    simp_all
  have stored :
      ugSetCrcValue (left ++ (entry.encode ++ rest) ++ right)
          (left.length + (entry.name.length + 1)) new.crc =
        left ++ (new.encode ++ rest) ++ right := by
    rw [List.append_assoc, List.append_assoc, setCrc_entry rfl, replaced]
    simp
  have sameLength :
      (left ++ (entry.encode ++ rest)).length = (left ++ (new.encode ++ rest)).length := by
    simp only [List.length_append, length_encode, named]
  have kept :
      (left ++ (new.encode ++ rest) ++ right).take ((left ++ (entry.encode ++ rest)).length + 4) =
        left ++ (new.encode ++ rest) ++ right.take 4 := by
    rw [sameLength, List.take_length_add_append]
  have length : (right.take 4).length = 4 := List.length_take_of_le room
  rw [ugSetEntryCrc, stored, kept]
  exact ugSetCrcValue_last (left ++ (new.encode ++ rest)) length

theorem ugSetEntryCrc_set (new : CrcEntry) (entries : List CrcEntry)
    {buf right : List UInt8} (room : right.length = 4 + (new.name.length + 1 + 4))
    (parts : buf = encodeEntries entries ++ right) :
    ∃ crcval,
      ugSetFileCrcLoop new.name buf (encodeEntries entries).length
          (buf.length + 1) 0 = some crcval ∧
        ugSetEntryCrc new.name buf (encodeEntries entries).length crcval new.crc =
          withCrc (encodeEntries (setEntry new entries)) := by
  have enough : entries.length < buf.length + 1 := by
    rw [parts, List.length_append]
    have counted := length_le_encodeEntries entries
    omega
  rcases listed_cases new.name entries with
    absent | ⟨before, entry, after, rfl, named, absent⟩
  · refine ⟨none, ?_, ?_⟩
    · exact
        ugSetFileCrcLoop_absent entries [] (buf.length + 1) parts
          (Nat.zero_add _).symm enough absent
    · rw [setEntry_absent entries absent, parts, ugSetEntryCrc_absent new _ room,
        encodeEntries_append, encodeEntries_cons]
      simp [encodeEntries]
  · refine ⟨some ((encodeEntries before).length + (entry.name.length + 1)), ?_, ?_⟩
    · refine
        ugSetFileCrcLoop_present named before [] (buf.length + 1) parts
          (Nat.zero_add _).symm ?_ absent
      rw [List.length_append] at enough
      omega
    · rw [setEntry_present named before absent, parts, encodeEntries_append,
        encodeEntries_cons, encodeEntries_append,
        encodeEntries_cons]
      exact ugSetEntryCrc_present named (by omega)

/-! ## Setting one checksum -/

section Store

variable [DecidableEq φ] {env : UgFilesEnv} {files : UgFiles φ}
  {crcpath data : List UInt8}

@[simp] theorem UgFiles.file_store : (files.store crcpath data).file = files.file :=
  rfl

theorem UgFiles.content_store_self :
    (files.store crcpath data).content (files.file crcpath) = some data :=
  if_pos rfl

theorem UgFiles.content_store_of_ne {file : φ} (other : file ≠ files.file crcpath) :
    (files.store crcpath data).content file = files.content file :=
  if_neg other

theorem ugCalcEntryCrc_store {path name : List UInt8}
    (other : files.file (path ++ name) ≠ files.file crcpath) :
    ugCalcEntryCrc env (files.store crcpath data) path name =
      ugCalcEntryCrc env files path name := by
  rw [ugCalcEntryCrc, ugCalcEntryCrc, ugCalcFileCrc, ugCalcFileCrc,
    ugCalcFileCrcBy, ugCalcFileCrcBy, UgFiles.openStream, UgFiles.openStream, UgFiles.file_store,
    UgFiles.content_store_of_ne other]

end Store

theorem ugCheckFilesCrc_withCrc {env : UgFilesEnv} {files : UgFiles φ}
    {path crcpath : List UInt8} {entries : List CrcEntry}
    (content : files.content (files.file crcpath) = some (withCrc (encodeEntries entries)))
    (fits : (encodeEntries entries).length + 4 < 2 ^ 31) (memory : env.mallocTable = true) :
    ugCheckFilesCrc env files path crcpath = some 0 ↔
      ∀ entry ∈ entries, ugCalcEntryCrc env files path entry.name = some (0, entry.crc) := by
  obtain ⟨right, _, read⟩ := ugReadTable_withCrc 0 content fits memory
  rw [ugCheckFilesCrc, read]
  have counted := length_le_encodeEntries entries
  exact
    ugCheckFilesCrcLoop_entries entries [] _ rfl (Nat.zero_add _).symm
      (by rw [List.length_append]; omega)

theorem ugSetFileCrc_success [DecidableEq φ] {env : UgFilesEnv}
    {files files' : UgFiles φ} {filepath path crcpath : List UInt8} {table : CrcTable}
    (wellFormed : ∀ data ∈ files.content (files.file crcpath), data = table.encode)
    (noNul : (0 : UInt8) ∉ filepath)
    (success : ugSetFileCrc env files filepath path crcpath = some (0, files')) :
    ∃ (data : List UInt8) (new : CrcEntry),
      new = ⟨filepath, ugCalcBufferCrc data data.length, noNul⟩ ∧
        files.content (files.file (path ++ filepath)) = some data ∧
        ugCalcEntryCrc env files path filepath = some (0, new.crc) ∧
        files' = files.store crcpath (table.set new).encode ∧
        (encodeEntries (table.set new).entries).length + 4 < 2 ^ 31 ∧
        env.mallocTable = true := by
  rw [ugSetFileCrc] at success
  split at success
  · cases success
  · rename_i ret failed
    have zero : ret = 0 := congrArg Prod.fst (Option.some.inj success)
    exact absurd (zero ▸ failed) ugReadTable_error
  · rename_i buf size read
    obtain ⟨memory, body, right, content, fits, room, bufEq, sizeEq⟩ := ugReadTable_success read
    have bodyEq : body = encodeEntries table.entries := withCrc_injective (wellFormed _ content)
    subst bodyEq
    subst sizeEq
    split at success
    · cases success
    · rename_i ret crc computed
      split at success
      · rename_i failed
        exact absurd (congrArg Prod.fst (Option.some.inj success)) failed
      · rename_i passed
        obtain rfl : ret = 0 := by simpa using passed
        obtain ⟨data, dataContent, rfl⟩ := ugCalcEntryCrc_success computed
        obtain ⟨new, newEq⟩ : ∃ new : CrcEntry,
            new = ⟨filepath, ugCalcBufferCrc data data.length, noNul⟩ :=
          ⟨_, rfl⟩
        have name : new.name = filepath := by rw [newEq]
        have crc : new.crc = ugCalcBufferCrc data data.length := by rw [newEq]
        obtain ⟨crcval, found, written⟩ := ugSetEntryCrc_set new table.entries (name ▸ room) bufEq
        rw [name] at found written
        rw [found] at success
        dsimp only at success
        rw [← crc, written] at success
        split at success
        · simp at success
        · simp only [Option.some.injEq, Prod.mk.injEq] at success
          obtain ⟨complete, rfl⟩ := success
          rw [ite_eq_right_iff] at complete
          have whole := of_not_not fun short => by simpa using complete short
          have grown := length_setEntry new table.entries
          rw [whole, List.take_length]
          refine ⟨data, new, newEq, dataContent, crc ▸ computed, rfl, ?_, memory⟩
          rw [name] at grown
          exact lt_of_le_of_lt (Nat.add_le_add_right grown 4) (by omega)

/-- `ugSetFileCrc` sets the entry of a file and nothing else, and the table is
accepted if it was accepted but for that entry. -/
theorem ugSetFileCrc_set [DecidableEq φ] {env : UgFilesEnv}
    {files files' : UgFiles φ} {filepath path crcpath : List UInt8} {table : CrcTable}
    (wellFormed : ∀ data ∈ files.content (files.file crcpath), data = table.encode)
    (noNul : (0 : UInt8) ∉ filepath)
    (separate :
      ∀ name, name = filepath ∨ name ∈ table.entries.map CrcEntry.name →
        files.file (path ++ name) ≠ files.file crcpath)
    (success : ugSetFileCrc env files filepath path crcpath = some (0, files')) :
    ∃ (data : List UInt8) (new : CrcEntry),
      new = ⟨filepath, ugCalcBufferCrc data data.length, noNul⟩ ∧
        files'.content (files'.file (path ++ filepath)) = some data ∧
        files' = files.store crcpath (table.set new).encode ∧
        (∃ f, files'.openStream crcpath = .ok f ∧ ugCheckCrc true f true = some 0) ∧
        new ∈ (table.set new).entries ∧
        (∀ other : CrcEntry, other.name ≠ filepath →
          (other ∈ (table.set new).entries ↔ other ∈ table.entries)) ∧
        ((∀ other ∈ table.entries, other.name ≠ filepath →
            ugCalcEntryCrc env files path other.name = some (0, other.crc)) →
          ugCheckFilesCrc env files' path crcpath = some 0) := by
  obtain ⟨data, new, newEq, content, computed, rfl, fits, memory⟩ :=
    ugSetFileCrc_success wellFormed noNul success
  have name : new.name = filepath := by rw [newEq]
  have ofOther {other : CrcEntry} (different : other.name ≠ filepath) :
      other ∈ setEntry new table.entries ↔ other ∈ table.entries :=
    mem_setEntry_of_ne (name ▸ different) table.entries
  have stored :
      (files.store crcpath (table.set new).encode).content
        (files.file crcpath) = some (table.set new).encode :=
    files.content_store_self
  have apart := separate filepath (Or.inl rfl)
  refine ⟨data, new, newEq, ?_, rfl, ?_, mem_setEntry_self new _, fun other => ofOther, ?_⟩
  · rw [UgFiles.file_store, UgFiles.content_store_of_ne apart, content]
  · have small : (table.set new).encode.length < 2 ^ 31 := by
      rw [CrcTable.encode, length_withCrc]
      exact fits
    refine ⟨⟨.file, (table.set new).encode, 0, small⟩, ?_, ugCheckCrc_withCrc rfl⟩
    rw [UgFiles.openStream, UgFiles.file_store, stored]
    exact dif_pos small
  · intro accepted
    refine (ugCheckFilesCrc_withCrc stored fits memory).mpr ?_
    intro other member
    by_cases same : other.name = filepath
    · -- There is one entry with the name.
      have unique : other = new :=
        List.inj_on_of_nodup_map (table.set new).distinct member
          (mem_setEntry_self new _) (same.trans name.symm)
      rw [unique, name, ugCalcEntryCrc_store apart, computed]
    · have listed := (ofOther same).mp member
      have otherApart := separate other.name (Or.inr (List.mem_map_of_mem listed))
      rw [ugCalcEntryCrc_store otherApart]
      exact accepted other listed same

/-- Memory and files are there, and new memory holds sevens. -/
def availableFilesEnv : UgFilesEnv where
  pathMax := 260
  fresh size := List.replicate size 7
  freshLength _ := List.length_replicate
  mallocTable := true
  mallocFile _ := true
  opensForWriting := true
  fwrite := id

def filesOf (contents : List (List UInt8 × List UInt8)) : UgFiles (List UInt8) where
  file := id
  content path := contents.lookup path

/-- The first file `a` of a table `t`. -/
theorem ugSetFileCrc_set_first :
    ∃ files',
      ugSetFileCrc availableFilesEnv
          (filesOf [([116], withCrc []), ([97], [1, 2, 3])]) [97] [] [116] =
        some (0, files') ∧
      ugCheckFilesCrc availableFilesEnv files' [] [116] = some 0 := by
  have returns :
      (ugSetFileCrc availableFilesEnv
        (filesOf [([116], withCrc []), ([97], [1, 2, 3])]) [97] [] [116]).map
          Prod.fst = some 0 := by
    decide
  obtain ⟨⟨ret, files'⟩, success, rfl⟩ := Option.map_eq_some_iff.mp returns
  have wellFormed :
      ∀ data ∈ some (withCrc []), data = CrcTable.encode ⟨[], List.nodup_nil⟩ := by
    simp [CrcTable.encode, encodeEntries]
  obtain ⟨data, new, _, _, _, _, _, _, accepted⟩ :=
    ugSetFileCrc_set wellFormed (by decide) (by simp [filesOf]) success
  exact ⟨files', success, accepted (by simp)⟩

/-- The checksum of the table file itself, kept in the table, is no longer right
when the table is written. -/
theorem ugSetFileCrc_set_itself :
    ∃ files',
      ugSetFileCrc availableFilesEnv (filesOf [([116], withCrc [])]) [116] []
          [116] = some (0, files') ∧
      ugCheckFilesCrc availableFilesEnv (filesOf [([116], withCrc [])]) [] [116] = some 0 ∧
      ugCheckFilesCrc availableFilesEnv files' [] [116] = some 76 := by
  have returns :
      (ugSetFileCrc availableFilesEnv (filesOf [([116], withCrc [])]) [116] []
        [116]).map (fun result => (result.1, ugCheckFilesCrc availableFilesEnv result.2 [] [116])) =
        some (0, some 76) := by
    decide
  obtain ⟨⟨ret, files'⟩, success, same⟩ := Option.map_eq_some_iff.mp returns
  simp only [Prod.mk.injEq] at same
  obtain ⟨rfl, rejected⟩ := same
  exact ⟨files', success, by decide, rejected⟩

section Upgrade

variable {env : UgFilesEnv} {files files' : UgFiles φ}
  {path crcpath : List UInt8}

theorem ugUpgradeFilesCrc_files : (ugUpgradeFilesCrc env files path crcpath).2 = files := by
  rw [ugUpgradeFilesCrc]
  split <;> rfl

theorem ugUpgradeFilesCrc_withCrc {entries : List CrcEntry}
    (content : files.content (files.file crcpath) = some (withCrc (encodeEntries entries)))
    (fits : (encodeEntries entries).length + 4 < 2 ^ 31) (memory : env.mallocTable = true)
    (readable :
      ∀ entry ∈ entries, ∃ crc, ugCalcEntryCrc env files path entry.name = some (0, crc)) :
    ugUpgradeFilesCrc env files path crcpath = (some 0, files) := by
  obtain ⟨right, _, read⟩ := ugReadTable_withCrc 0 content fits memory
  have counted := length_le_encodeEntries entries
  have loop :=
    ugUpgradeFilesCrcLoop_entries entries [] (encodeEntries entries ++ right)
      ((encodeEntries entries ++ right).length + 1) rfl (Nat.zero_add _).symm
      (by rw [List.length_append]; omega) readable
  rw [ugUpgradeFilesCrc, read]
  dsimp only
  rw [← loop]
  rfl

theorem ugUpgradeFilesCrc_success
    (success : (ugUpgradeFilesCrc env files path crcpath).1 = some 0) :
    ∃ entries,
      files.content (files.file crcpath) = some (withCrc (encodeEntries entries)) ∧
        (encodeEntries entries).length + 4 < 2 ^ 31 ∧
        env.mallocTable = true ∧
        ∀ entry ∈ entries, ∃ crc, ugCalcEntryCrc env files path entry.name = some (0, crc) := by
  rw [ugUpgradeFilesCrc] at success
  split at success
  · cases success
  · rename_i ret failed
    exact absurd (Option.some.inj success ▸ failed) ugReadTable_error
  · rename_i buf size read
    obtain ⟨memory, body, right, content, fits, _, rfl, rfl⟩ := ugReadTable_success read
    obtain ⟨entries, rfl, readable⟩ :=
      ugUpgradeFilesCrcLoop_success _ [] body right _ rfl (Nat.zero_add _).symm success
    exact ⟨entries, content, fits, memory, readable⟩

/-- After `ugUpgradeFilesCrc` the table is accepted if and only if every
checksum in it was right before. -/
theorem ugUpgradeFilesCrc_checked :
    (∀ files', ugUpgradeFilesCrc env files path crcpath = (some 0, files') →
        ugCheckFilesCrc env files' path crcpath = some 0 ∧
          ∀ before after : List CrcEntry,
            files.content (files.file crcpath) = some (withCrc (encodeEntries before)) →
            files'.content (files'.file crcpath) = some (withCrc (encodeEntries after)) →
            after.map CrcEntry.name = before.map CrcEntry.name) ↔
      ∀ entries, files.content (files.file crcpath) = some (withCrc (encodeEntries entries)) →
        (encodeEntries entries).length + 4 < 2 ^ 31 →
        env.mallocTable = true →
        (∀ entry ∈ entries, ∃ crc, ugCalcEntryCrc env files path entry.name = some (0, crc)) →
        ∀ entry ∈ entries, ugCalcEntryCrc env files path entry.name = some (0, entry.crc) := by
  constructor
  · intro checked entries content fits memory readable
    have accepted := checked files (ugUpgradeFilesCrc_withCrc content fits memory readable)
    exact (ugCheckFilesCrc_withCrc content fits memory).mp accepted.1
  · intro right files' success
    have unchanged : files' = files := by
      have stays : (ugUpgradeFilesCrc env files path crcpath).2 = files := ugUpgradeFilesCrc_files
      rw [success] at stays
      exact stays
    subst unchanged
    obtain ⟨entries, content, fits, memory, readable⟩ :=
      ugUpgradeFilesCrc_success (congrArg Prod.fst success)
    constructor
    · exact
        (ugCheckFilesCrc_withCrc content fits memory).mpr
          (right entries content fits memory readable)
    · intro before after contentBefore contentAfter
      rw [contentBefore, Option.some.injEq] at contentAfter
      rw [encodeEntries_injective (withCrc_injective contentAfter)]

/-- A checksum that was not right stays so. -/
theorem ugUpgradeFilesCrc_checked_stale :
    ugUpgradeFilesCrc availableFilesEnv
        (filesOf [([116], withCrc [97, 0, 0, 0, 0, 0]), ([97], [1, 2, 3])]) []
        [116] =
      (some 0, filesOf [([116], withCrc [97, 0, 0, 0, 0, 0]), ([97], [1, 2, 3])]) ∧
    ugCheckFilesCrc availableFilesEnv
        (filesOf [([116], withCrc [97, 0, 0, 0, 0, 0]), ([97], [1, 2, 3])]) []
        [116] =
      some 76 := by
  have success :
      (ugUpgradeFilesCrc availableFilesEnv
        (filesOf [([116], withCrc [97, 0, 0, 0, 0, 0]), ([97], [1, 2, 3])]) []
        [116]).1 = some 0 := by
    decide
  exact ⟨Prod.ext success ugUpgradeFilesCrc_files, by decide⟩

end Upgrade

end

/-!
# The checksum in chunks and as a whole

`ugCheckCrc` and `ugCalcFileCrc` read a file in chunks, `ugCalcBufferCrc` has it in one
buffer.
-/

section

open Lib Itc

universe u

/-- Chunks of any multiple of four bytes give the checksum of the whole: a file with a
trailer is accepted exactly if the trailer is the checksum of what is in front of it,
and the checksum of a file is that of its content. -/
theorem ugCrc_agree {φ : Type u} {chunkSize : Nat} (positive : 0 < chunkSize)
    (aligned : 4 ∣ chunkSize) :
    (∀ (f : ITCStream) (content stored : List UInt8) (mallocSucceeds buffer : Bool),
      f.data = content ++ stored → stored.length = 4 →
        buffer = true ∨ mallocSucceeds = true →
          (ugCheckCrcBy chunkSize mallocSucceeds f buffer = some 0 ↔
            BitVec.ofNat 32 (littleEndian stored) = ugCalcBufferCrc content content.length)) ∧
    ∀ (env : UgFilesEnv) (files : UgFiles φ) (filepath content : List UInt8),
      files.content (files.file filepath) = some content → content.length < 2 ^ 31 →
        env.mallocFile filepath = true →
          ugCalcFileCrcBy chunkSize env files filepath =
            some (0, ugCalcBufferCrc content content.length) := by
  constructor
  · intro f content stored mallocSucceeds buffer package trailer available
    have memory : ¬ (buffer = false ∧ mallocSucceeds = false) := by
      rintro ⟨rfl, rfl⟩
      simp at available
    rw [ugCheckCrcBy_package positive aligned package trailer, if_neg memory]
    split
    · next differs => simpa using differs
    · next same => simpa using same
  · intro env files filepath content found fits available
    rw [ugCalcFileCrcBy_content positive aligned found fits, available, if_neg (by decide)]

/-- Five bytes in chunks of four. -/
theorem ugCrc_agree_five :
    ugCalcFileCrcBy 4 availableFilesEnv (filesOf [([97], [1, 2, 3, 4, 5])]) [97] =
        some (0, ugCalcBufferCrc [1, 2, 3, 4, 5] 5) ∧
      ugCheckCrcBy 4 true
          ⟨.array, [1, 2, 3, 4, 5] ++ ugCrcBytes (ugCalcBufferCrc [1, 2, 3, 4, 5] 5), 0,
            by decide⟩
          false =
        some 0 :=
  ⟨(ugCrc_agree (by decide) (by decide)).2 availableFilesEnv _ [97] [1, 2, 3, 4, 5] rfl
      (by decide) rfl,
    ((@ugCrc_agree (List UInt8) 4 (by decide) (by decide)).1 _ [1, 2, 3, 4, 5] _ true
      false rfl (by decide) (Or.inr rfl)).mpr (littleEndian_ugCrcBytes _)⟩

end

end IteSdk.Upgrade
