import IteSdk.Upgrade.Crc
import Mathlib.Data.List.TakeWhile

/-!
# The table of file checksums

`ug_filecrc.c`.  The table lists names that end in a zero byte, each with the
checksum of its file, and ends in its own checksum.  `none` stands for an access
outside a buffer.
-/

namespace IteSdk.Upgrade

section

open Lib Itc

universe u

variable {φ : Type u}

structure UgFiles (φ : Type u) where
  file : List UInt8 → φ
  content : φ → Option (List UInt8)

/-- Whether memory and files are available; `fresh` is what is in new memory and
`fwrite` how many bytes are written. -/
structure UgFilesEnv where
  pathMax : Nat
  fresh : Nat → List UInt8
  freshLength : ∀ size, (fresh size).length = size
  mallocTable : Bool
  mallocFile : List UInt8 → Bool
  opensForWriting : Bool
  fwrite : Nat → Nat

/-- `itcFileStreamOpen` for reading, or the number it returns.  With a size that
is no `int` the callers do not get their buffer. -/
def UgFiles.openStream (files : UgFiles φ) (filename : List UInt8) : Except Nat ITCStream :=
  match files.content (files.file filename) with
  | none => .error 81
  | some data =>
    if fits : data.length < 2 ^ 31 then .ok ⟨.file, data, 0, fits⟩
    else .error ugOutOfMem

def UgFiles.store [DecidableEq φ] (files : UgFiles φ) (filename data : List UInt8) : UgFiles φ :=
  { files with
    content := fun file => if file = files.file filename then some data else files.content file }

def ugGetCrcValue (bytes : List UInt8) : BitVec 32 := BitVec.ofNat 32 (littleEndian bytes)

/-- What `ugSetCrcValue` stores. -/
def ugCrcBytes (crc : BitVec 32) : List UInt8 :=
  (List.range 4).map fun i => (crc.toNat / 256 ^ i).toUInt8

def ugSetCrcValue (buf : List UInt8) (ptr : Nat) (crc : BitVec 32) : List UInt8 :=
  overwrite ptr (ugCrcBytes crc) buf

/-- `ugCalcFileCrc` with chunks of `chunkSize`: what it returns, and the checksum.  Its
loop is that of `ugCheckCrc`. -/
def ugCalcFileCrcBy (chunkSize : Nat) (env : UgFilesEnv) (files : UgFiles φ)
    (filepath : List UInt8) : Option (Nat × BitVec 32) :=
  match files.openStream filepath with
  | .error ret => some (ret, 0)
  | .ok f =>
    if env.mallocFile filepath = false then
      some (ugOutOfMem, 0)
    else
      let bufsize := if chunkSize < f.size then chunkSize else f.size
      match ugCheckCrcLoop bufsize (f.size + 1) f f.size 0 with
      | none => none
      | some scan =>
        if scan.ret ≠ 0 then
          some (197, 0)
        else
          some (0, (List.replicate (scan.readsize % 4) 0).foldl crcStep scan.crc32val)

def ugCalcFileCrc (env : UgFilesEnv) (files : UgFiles φ)
    (filepath : List UInt8) : Option (Nat × BitVec 32) :=
  ugCalcFileCrcBy cfgUgBufSize env files filepath

/-- The C string at `ptr`, if it ends inside the buffer. -/
def cStringAt (buf : List UInt8) (ptr : Nat) : Option (List UInt8) :=
  if 0 ∈ buf.drop ptr then some ((buf.drop ptr).takeWhile (· ≠ 0)) else none

/-- The checksum of the file that an entry names; `pathbuf` has `PATH_MAX`
bytes. -/
def ugCalcEntryCrc (env : UgFilesEnv) (files : UgFiles φ)
    (path name : List UInt8) : Option (Nat × BitVec 32) :=
  if path.length + name.length + 1 ≤ env.pathMax then
    ugCalcFileCrc env files (path ++ name)
  else
    none

/-- The loop of `ugCheckFilesCrc`. -/
@[grind =]
def ugCheckFilesCrcLoop (env : UgFilesEnv) (files : UgFiles φ)
    (path buf : List UInt8) (size : Nat) : Nat → Nat → Option Nat
  | 0, _ => none
  | fuel + 1, ptr =>
    if ptr = size then
      some 0
    else
      match cStringAt buf ptr with
      | none => none
      | some name =>
        let n := name.length + 1
        if buf.length < ptr + n + 4 then
          none
        else
          match ugCalcEntryCrc env files path name with
          | none => none
          | some (ret, crc) =>
            if ret ≠ 0 then
              some ret
            else if ugGetCrcValue (slice (ptr + n) 4 buf) ≠ crc then
              some 76
            else
              ugCheckFilesCrcLoop env files path buf size fuel (ptr + n + 4)

/-- The table without its own checksum in a buffer, once that was checked, or
what the caller returns. -/
def ugReadTable (env : UgFilesEnv) (files : UgFiles φ) (crcpath : List UInt8)
    (room : Nat) : Option (Except Nat (List UInt8 × Nat)) :=
  match files.openStream crcpath with
  | .error ret => some (.error ret)
  | .ok f =>
    if env.mallocTable = false ∨ 2 ^ 31 ≤ f.size + room then
      some (.error ugOutOfMem)
    else
      match ugCheckCrc true f true with
      | none => none
      | some ret =>
        if ret ≠ 0 then
          some (.error ret)
        else
          some
            (.ok (overwrite 0 (f.data.take (f.size - 4)) (env.fresh (f.size + room)), f.size - 4))

def ugCheckFilesCrc (env : UgFilesEnv) (files : UgFiles φ)
    (path crcpath : List UInt8) : Option Nat :=
  match ugReadTable env files crcpath 0 with
  | none => none
  | some (.error ret) => some ret
  | some (.ok (buf, size)) =>
    ugCheckFilesCrcLoop env files path buf size (buf.length + 1) 0

/-- The loop of `ugSetFileCrc`: where the checksum of the path is, if it has
one. -/
@[grind =]
def ugSetFileCrcLoop (filepath buf : List UInt8) (size : Nat) : Nat → Nat → Option (Option Nat)
  | 0, _ => none
  | fuel + 1, ptr =>
    if ptr = size then
      some none
    else
      match cStringAt buf ptr with
      | none => none
      | some name =>
        let n := name.length + 1
        if filepath = name then
          if buf.length < ptr + n + 4 then none else some (some (ptr + n))
        else
          ugSetFileCrcLoop filepath buf size fuel (ptr + n + 4)

/-- The updated buffer of `ugSetFileCrc` with its own checksum. -/
def ugSetEntryCrc (filepath buf : List UInt8) (size : Nat)
    (crcval : Option Nat) (crc : BitVec 32) : List UInt8 :=
  let buf :=
    match crcval with
    | some ptr => (ugSetCrcValue buf ptr crc).take (size + 4)
    | none =>
      ugSetCrcValue (overwrite size (filepath ++ [0]) buf) (size + (filepath.length + 1)) crc
  let filesize := buf.length
  ugSetCrcValue buf (filesize - 4) (ugCalcBufferCrc buf (filesize - 4))

/-- `ugSetFileCrc`: what it returns, and the files afterwards. -/
def ugSetFileCrc [DecidableEq φ] (env : UgFilesEnv) (files : UgFiles φ)
    (filepath path crcpath : List UInt8) : Option (Nat × UgFiles φ) :=
  match ugReadTable env files crcpath (filepath.length + 1 + 4) with
  | none => none
  | some (.error ret) => some (ret, files)
  | some (.ok (buf, size)) =>
    match ugCalcEntryCrc env files path filepath with
    | none => none
    | some (ret, crc) =>
      if ret ≠ 0 then
        some (ret, files)
      else
        match ugSetFileCrcLoop filepath buf size (buf.length + 1) 0 with
        | none => none
        | some crcval =>
          let buf := ugSetEntryCrc filepath buf size crcval crc
          if env.opensForWriting = false then
            some (81, files)
          else
            let written := min (env.fwrite buf.length) buf.length
            some (if written ≠ buf.length then 178 else 0, files.store crcpath (buf.take written))

/-- The loop of `ugUpgradeFilesCrc`. -/
@[grind =]
def ugUpgradeFilesCrcLoop (env : UgFilesEnv) (files : UgFiles φ) (path : List UInt8) (size : Nat) :
    Nat → List UInt8 → Nat → Option Nat
  | 0, _, _ => none
  | fuel + 1, buf, ptr =>
    if ptr = size then
      some 0
    else
      match cStringAt buf ptr with
      | none => none
      | some name =>
        let n := name.length + 1
        match ugCalcEntryCrc env files path name with
        | none => none
        | some (ret, crc) =>
          if ret ≠ 0 then
            some ret
          else if buf.length < ptr + n + 4 then
            none
          else
            ugUpgradeFilesCrcLoop env files path size fuel
              (ugSetCrcValue buf (ptr + n) crc) (ptr + n + 4)

/-- `ugUpgradeFilesCrc`: what it returns.  It opens no file for writing, so the
files stay as they are. -/
def ugUpgradeFilesCrc (env : UgFilesEnv) (files : UgFiles φ)
    (path crcpath : List UInt8) : Option Nat × UgFiles φ :=
  match ugReadTable env files crcpath 0 with
  | none => (none, files)
  | some (.error ret) => (some ret, files)
  | some (.ok (buf, size)) =>
    (ugUpgradeFilesCrcLoop env files path size (buf.length + 1) buf 0, files)

end

/-!
# Tables of file checksums

`CrcTable` is what the bytes of the table stand for.  The loops of
`ug_filecrc.c` walk over its entries.
-/

section

open Lib Itc

universe u

variable {φ : Type u}

/-- A name, without the zero byte that ends it, and a checksum. -/
structure CrcEntry where
  name : List UInt8
  crc : BitVec 32
  noNul : (0 : UInt8) ∉ name

def CrcEntry.encode (entry : CrcEntry) : List UInt8 := entry.name ++ 0 :: ugCrcBytes entry.crc

def encodeEntries (entries : List CrcEntry) : List UInt8 := entries.flatMap CrcEntry.encode

def withCrc (body : List UInt8) : List UInt8 :=
  body ++ ugCrcBytes (ugCalcBufferCrc body body.length)

@[simp] theorem length_ugCrcBytes (crc : BitVec 32) : (ugCrcBytes crc).length = 4 := by
  simp [ugCrcBytes]

@[simp] theorem length_withCrc (body : List UInt8) : (withCrc body).length = body.length + 4 := by
  simp [withCrc]

theorem withCrc_injective {body other : List UInt8}
    (same : withCrc body = withCrc other) : body = other := by
  have lengths := congrArg List.length same
  rw [length_withCrc, length_withCrc] at lengths
  exact (List.append_inj same (by omega)).1

theorem length_encode (entry : CrcEntry) : entry.encode.length = entry.name.length + 1 + 4 := by
  simp [CrcEntry.encode, Nat.add_assoc]

theorem littleEndian_ugCrcBytes (crc : BitVec 32) :
    BitVec.ofNat 32 (littleEndian (ugCrcBytes crc)) = crc := by
  have inRange := crc.isLt
  have sum : littleEndian (ugCrcBytes crc) = crc.toNat := by
    simp only [ugCrcBytes, littleEndian, List.range_succ, List.range_zero,
      List.nil_append, List.cons_append, List.map_cons, List.map_nil,
      List.foldr_cons, List.foldr_nil, UInt8.toNat_ofNat']
    omega
  rw [sum, BitVec.ofNat_toNat, BitVec.setWidth_eq]

theorem ugCrcBytes_littleEndian {bytes : List UInt8} (four : bytes.length = 4) :
    ugCrcBytes (BitVec.ofNat 32 (littleEndian bytes)) = bytes := by
  match bytes, four with
  | [first, second, third, last], _ =>
    have firstSmall := first.toNat_lt
    have secondSmall := second.toNat_lt
    have thirdSmall := third.toNat_lt
    have lastSmall := last.toNat_lt
    simp only [ugCrcBytes, littleEndian, List.range_succ, List.range_zero,
      List.nil_append, List.cons_append, List.map_cons, List.map_nil,
      List.foldr_cons, List.foldr_nil, List.cons.injEq, and_true,
      BitVec.toNat_ofNat]
    refine ⟨?_, ?_, ?_, ?_⟩
    all_goals
      apply UInt8.toNat.inj
      rw [UInt8.toNat_ofNat']
      omega

theorem takeWhile_cString {name rest : List UInt8} (noNul : (0 : UInt8) ∉ name) :
    (name ++ 0 :: rest).takeWhile (· ≠ 0) = name := by
  rw [List.takeWhile_append_of_pos]
  · simp
  · intro byte member
    simp only [decide_eq_true_eq]
    intro zero
    exact noNul (zero ▸ member)

theorem cStringAt_append {left name rest : List UInt8} (noNul : (0 : UInt8) ∉ name) :
    cStringAt (left ++ (name ++ 0 :: rest)) left.length = some name := by
  rw [cStringAt, List.drop_left, if_pos (by simp), takeWhile_cString noNul]

theorem cStringAt_eq_some {buf name : List UInt8} {ptr : Nat}
    (found : cStringAt buf ptr = some name) :
    (0 : UInt8) ∉ name ∧ ∃ rest, buf.drop ptr = name ++ 0 :: rest := by
  rw [cStringAt, Option.ite_none_right_eq_some] at found
  obtain ⟨ends, same⟩ := found
  have name_eq := Option.some.inj same
  subst name_eq
  constructor
  · intro member
    have nonzero := List.mem_takeWhile_imp member
    simp at nonzero
  · have parts :
        (buf.drop ptr).takeWhile (· ≠ 0) ++ (buf.drop ptr).dropWhile (· ≠ 0) = buf.drop ptr :=
      List.takeWhile_append_dropWhile
    have stops : (buf.drop ptr).dropWhile (· ≠ 0) ≠ [] := by
      intro none
      rw [List.dropWhile_eq_nil_iff] at none
      simpa using none 0 ends
    cases rest : (buf.drop ptr).dropWhile (· ≠ 0) with
    | nil => exact absurd rest stops
    | cons head tail =>
      have first := List.head_dropWhile_not (fun byte : UInt8 => decide (byte ≠ 0)) stops
      simp only [rest, List.head_cons] at first
      have zero : head = 0 := by simpa using first
      rw [rest, zero] at parts
      exact ⟨tail, parts.symm⟩

section Entry

variable {buf left right : List UInt8} {entry : CrcEntry}

section

variable (parts : buf = left ++ (entry.encode ++ right))

include parts

theorem cStringAt_entry : cStringAt buf left.length = some entry.name := by
  rw [parts, CrcEntry.encode, List.append_assoc, List.cons_append]
  exact cStringAt_append entry.noNul

theorem entry_inside : ¬ buf.length < left.length + (entry.name.length + 1) + 4 := by
  rw [parts, List.length_append, List.length_append, length_encode]
  omega

theorem getCrc_entry :
    ugGetCrcValue (slice (left.length + (entry.name.length + 1)) 4 buf) = entry.crc := by
  have behind :
      buf = (left ++ (entry.name ++ [0])) ++ (ugCrcBytes entry.crc ++ right) := by
    rw [parts, CrcEntry.encode]
    simp
  have start :
      left.length + (entry.name.length + 1) = (left ++ (entry.name ++ [0])).length := by
    simp
  have stored :
      slice (left.length + (entry.name.length + 1)) 4 buf = ugCrcBytes entry.crc := by
    rw [start, behind, slice, List.drop_left, List.take_left' (length_ugCrcBytes entry.crc)]
  rw [stored, ugGetCrcValue, littleEndian_ugCrcBytes]

theorem setCrc_entry (crc : BitVec 32) :
    ugSetCrcValue buf (left.length + (entry.name.length + 1)) crc =
      left ++ (CrcEntry.encode { entry with crc := crc } ++ right) := by
  have behind :
      buf = (left ++ (entry.name ++ [0])) ++ (ugCrcBytes entry.crc ++ right) := by
    rw [parts, CrcEntry.encode]
    simp
  have start :
      left.length + (entry.name.length + 1) = (left ++ (entry.name ++ [0])).length := by
    simp
  rw [ugSetCrcValue, start, behind, overwrite, List.take_left,
    length_ugCrcBytes, ← List.drop_drop, List.drop_left,
    List.drop_left' (length_ugCrcBytes entry.crc), CrcEntry.encode]
  simp

end

theorem entry_next (left : List UInt8) (entry : CrcEntry) :
    left.length + (entry.name.length + 1) + 4 = (left ++ entry.encode).length := by
  rw [List.length_append, length_encode]
  omega

theorem exists_entry {name : List UInt8} (found : cStringAt buf left.length = some name)
    (inside : ¬ buf.length < left.length + (name.length + 1) + 4) (prefixed : buf = left ++ right) :
    ∃ (entry : CrcEntry) (rest : List UInt8), entry.name = name ∧ right = entry.encode ++ rest := by
  obtain ⟨noNul, tail, behind⟩ := cStringAt_eq_some found
  rw [prefixed, List.drop_left] at behind
  subst behind
  rw [prefixed, List.length_append, List.length_append, List.length_cons]
    at inside
  have four : (tail.take 4).length = 4 := List.length_take_of_le (by omega)
  refine ⟨⟨name, BitVec.ofNat 32 (littleEndian (tail.take 4)), noNul⟩, tail.drop 4, rfl, ?_⟩
  rw [CrcEntry.encode, ugCrcBytes_littleEndian four, List.append_assoc,
    List.cons_append, List.take_append_drop]

end Entry

/-! ## The loops -/

section Loops

variable {env : UgFilesEnv} {files : UgFiles φ} {path filepath : List UInt8}

theorem encodeEntries_cons (entry : CrcEntry) (rest : List CrcEntry) :
    encodeEntries (entry :: rest) = entry.encode ++ encodeEntries rest :=
  List.flatMap_cons

theorem encodeEntries_append (first second : List CrcEntry) :
    encodeEntries (first ++ second) = encodeEntries first ++ encodeEntries second :=
  List.flatMap_append

theorem cStringAt_first (entry : CrcEntry) (rest : List UInt8) :
    cStringAt (entry.encode ++ rest) 0 = some entry.name :=
  cStringAt_entry (List.nil_append _).symm

theorem getCrc_first (entry : CrcEntry) (rest : List UInt8) :
    ugGetCrcValue (slice (entry.name.length + 1) 4 (entry.encode ++ rest)) = entry.crc := by
  have found := getCrc_entry (List.nil_append (entry.encode ++ rest)).symm
  rwa [List.length_nil, Nat.zero_add] at found

theorem encode_append_inj {entry other : CrcEntry} {rest others : List UInt8}
    (same : entry.encode ++ rest = other.encode ++ others) :
    entry = other ∧ rest = others := by
  have names : entry.name = other.name := by
    have found := cStringAt_first entry rest
    rw [same, cStringAt_first] at found
    exact (Option.some.inj found).symm
  have checksums : entry.crc = other.crc := by
    have found := getCrc_first entry rest
    rw [same, names, getCrc_first] at found
    exact found.symm
  have here : entry = other := by
    cases entry
    cases other
    simp_all
  subst here
  exact ⟨rfl, List.append_cancel_left same⟩

theorem encodeEntries_ne_nil (entry : CrcEntry) (rest : List CrcEntry) :
    encodeEntries (entry :: rest) ≠ [] := by
  rw [encodeEntries_cons, CrcEntry.encode]
  simp

theorem encodeEntries_injective {first second : List CrcEntry}
    (same : encodeEntries first = encodeEntries second) : first = second := by
  induction first generalizing second with
  | nil =>
    cases second with
    | nil => rfl
    | cons entry rest => exact absurd same.symm (encodeEntries_ne_nil entry rest)
  | cons entry rest ih =>
    cases second with
    | nil => exact absurd same (encodeEntries_ne_nil entry rest)
    | cons other others =>
      rw [encodeEntries_cons, encodeEntries_cons] at same
      obtain ⟨rfl, later⟩ := encode_append_inj same
      rw [ih later]

theorem length_le_encodeEntries (entries : List CrcEntry) :
    entries.length ≤ (encodeEntries entries).length := by
  induction entries with
  | nil =>
    exact Nat.le_refl 0
  | cons entry rest ih =>
    rw [encodeEntries_cons, List.length_append, length_encode, List.length_cons]
    omega

theorem entries_left (left : List UInt8) (entry : CrcEntry) (rest : List CrcEntry) :
    left.length ≠ left.length + (encodeEntries (entry :: rest)).length := by
  rw [encodeEntries_cons, List.length_append, length_encode]
  omega

variable {buf right : List UInt8} {size : Nat}

theorem ugCheckFilesCrcLoop_entries (entries : List CrcEntry) :
    ∀ (left : List UInt8) (fuel : Nat), buf = left ++ (encodeEntries entries ++ right) →
      size = left.length + (encodeEntries entries).length →
      entries.length < fuel →
      (ugCheckFilesCrcLoop env files path buf size fuel left.length = some 0 ↔
        ∀ entry ∈ entries, ugCalcEntryCrc env files path entry.name = some (0, entry.crc)) := by
  induction entries with
  | nil =>
    intro left fuel _ sizeEq enough
    obtain ⟨fuel, rfl⟩ := Nat.exists_eq_succ_of_ne_zero enough.ne_bot
    have atEnd : left.length = size := sizeEq.symm
    rw [ugCheckFilesCrcLoop, if_pos atEnd]
    simp
  | cons entry rest ih =>
    intro left fuel parts sizeEq enough
    obtain ⟨fuel, rfl⟩ : ∃ fewer, fuel = fewer + 1 :=
      ⟨fuel - 1, by rw [List.length_cons] at enough; omega⟩
    have notEnd : left.length ≠ size := sizeEq ▸ entries_left left entry rest
    rw [encodeEntries_cons, List.append_assoc] at parts
    have later :=
      ih (left ++ entry.encode) fuel (by rw [parts, List.append_assoc])
        (by rw [sizeEq, encodeEntries_cons, List.length_append, List.length_append, Nat.add_assoc])
        (by rw [List.length_cons] at enough; omega)
    rw [ugCheckFilesCrcLoop, if_neg notEnd, cStringAt_entry parts]
    dsimp only
    rw [if_neg (entry_inside parts), getCrc_entry parts, entry_next, List.forall_mem_cons]
    cases computed : ugCalcEntryCrc env files path entry.name with
    | none => simp
    | some result =>
      obtain ⟨ret, crc⟩ := result
      dsimp only
      by_cases failed : ret ≠ 0
      · rw [if_pos failed]
        simp [failed]
      · obtain rfl : ret = 0 := by simpa using failed
        rw [if_neg failed]
        by_cases differs : entry.crc ≠ crc
        · rw [if_pos differs]
          simp [differs.symm]
        · obtain rfl : entry.crc = crc := by simpa using differs
          rw [if_neg differs, later]
          simp

theorem ugUpgradeFilesCrcLoop_entries {right : List UInt8} (entries : List CrcEntry) :
    ∀ (left buf : List UInt8) (fuel : Nat), buf = left ++ (encodeEntries entries ++ right) →
      size = left.length + (encodeEntries entries).length →
      entries.length < fuel →
      (∀ entry ∈ entries, ∃ crc, ugCalcEntryCrc env files path entry.name = some (0, crc)) →
      ugUpgradeFilesCrcLoop env files path size fuel buf left.length = some 0 := by
  induction entries with
  | nil =>
    intro left buf fuel _ sizeEq enough _
    obtain ⟨fuel, rfl⟩ := Nat.exists_eq_succ_of_ne_zero enough.ne_bot
    have atEnd : left.length = size := sizeEq.symm
    rw [ugUpgradeFilesCrcLoop, if_pos atEnd]
  | cons entry rest ih =>
    intro left buf fuel parts sizeEq enough readable
    obtain ⟨fuel, rfl⟩ : ∃ fewer, fuel = fewer + 1 :=
      ⟨fuel - 1, by rw [List.length_cons] at enough; omega⟩
    have notEnd : left.length ≠ size := sizeEq ▸ entries_left left entry rest
    rw [encodeEntries_cons, List.append_assoc] at parts
    obtain ⟨⟨crc, computed⟩, others⟩ := List.forall_mem_cons.mp readable
    rw [ugUpgradeFilesCrcLoop, if_neg notEnd, cStringAt_entry parts]
    dsimp only
    rw [computed]
    dsimp only
    rw [if_neg (by simp), if_neg (entry_inside parts), setCrc_entry parts, entry_next]
    have sameLength :
        (left ++ entry.encode).length =
          (left ++ CrcEntry.encode { entry with crc := crc }).length := by
      rw [List.length_append, List.length_append, length_encode, length_encode]
    rw [sameLength]
    apply ih
    · rw [List.append_assoc]
    · rw [sizeEq, ← sameLength, encodeEntries_cons, List.length_append,
        List.length_append, Nat.add_assoc]
    · rw [List.length_cons] at enough
      omega
    · exact others

theorem ugUpgradeFilesCrcLoop_past (fuel : Nat) :
    ∀ (buf : List UInt8) (ptr : Nat), size < ptr →
      ugUpgradeFilesCrcLoop env files path size fuel buf ptr ≠ some 0 := by
  induction fuel with
  | zero =>
    intro buf ptr _ impossible
    cases impossible
  | succ fuel ih =>
    intro buf ptr past success
    rw [ugUpgradeFilesCrcLoop, if_neg (by omega)] at success
    split at success
    · cases success
    · dsimp only at success
      split at success
      · cases success
      · split at success
        · rename_i failed
          exact failed (Option.some.inj success)
        · split at success
          · cases success
          · exact ih _ _ (by omega) success

theorem ugUpgradeFilesCrcLoop_success (fuel : Nat) :
    ∀ (left body right buf : List UInt8), buf = left ++ (body ++ right) →
      size = left.length + body.length →
      ugUpgradeFilesCrcLoop env files path size fuel buf left.length = some 0 →
      ∃ entries, body = encodeEntries entries ∧
        ∀ entry ∈ entries, ∃ crc, ugCalcEntryCrc env files path entry.name = some (0, crc) := by
  induction fuel with
  | zero =>
    intro left body right buf _ _ impossible
    cases impossible
  | succ fuel ih =>
    intro left body right buf parts sizeEq success
    rw [ugUpgradeFilesCrcLoop] at success
    split at success
    · rename_i atEnd
      have empty : body = [] := List.length_eq_zero_iff.mp (by omega)
      exact ⟨[], empty, by simp⟩
    · split at success
      · cases success
      · rename_i name found
        dsimp only at success
        split at success
        · cases success
        · rename_i ret crc computed
          split at success
          · rename_i failed
            exact absurd (Option.some.inj success) failed
          · rename_i passed
            obtain rfl : ret = 0 := by simpa using passed
            split at success
            · cases success
            · rename_i inside
              obtain ⟨entry, rest, rfl, split_⟩ := exists_entry found inside parts
              rw [split_] at parts
              rw [setCrc_entry parts, entry_next] at success
              have sameLength :
                  (left ++ entry.encode).length =
                    (left ++ CrcEntry.encode { entry with crc := crc }).length := by
                rw [List.length_append, List.length_append, length_encode, length_encode]
              rw [sameLength] at success
              -- An entry that reaches past the end is never left.
              have fits : entry.encode.length ≤ body.length := by
                by_contra tooLong
                refine ugUpgradeFilesCrcLoop_past fuel _ _ ?_ success
                rw [← sameLength, List.length_append]
                omega
              obtain ⟨bodyRest, rfl⟩ : ∃ bodyRest, body = entry.encode ++ bodyRest := by
                refine ⟨body.drop entry.encode.length, ?_⟩
                have cut := congrArg (List.take entry.encode.length) split_
                rw [List.take_append_of_le_length fits, List.take_left] at cut
                have whole := List.take_append_drop entry.encode.length body
                rw [cut] at whole
                exact whole.symm
              rw [List.append_assoc, List.append_cancel_left_eq] at split_
              obtain ⟨entries, restEq, readable⟩ :=
                ih _ bodyRest right _ (by rw [← split_, List.append_assoc])
                  (by
                    rw [sizeEq, ← sameLength, List.length_append,
                      List.length_append, Nat.add_assoc])
                  success
              refine ⟨entry :: entries, ?_, ?_⟩
              · rw [restEq, encodeEntries_cons]
              · exact List.forall_mem_cons.mpr ⟨⟨crc, computed⟩, readable⟩

theorem ugSetFileCrcLoop_absent (entries : List CrcEntry) :
    ∀ (left : List UInt8) (fuel : Nat), buf = left ++ (encodeEntries entries ++ right) →
      size = left.length + (encodeEntries entries).length →
      entries.length < fuel →
      (∀ entry ∈ entries, filepath ≠ entry.name) →
      ugSetFileCrcLoop filepath buf size fuel left.length = some none := by
  induction entries with
  | nil =>
    intro left fuel _ sizeEq enough _
    obtain ⟨fuel, rfl⟩ := Nat.exists_eq_succ_of_ne_zero enough.ne_bot
    have atEnd : left.length = size := sizeEq.symm
    rw [ugSetFileCrcLoop, if_pos atEnd]
  | cons entry rest ih =>
    intro left fuel parts sizeEq enough absent
    obtain ⟨fuel, rfl⟩ : ∃ fewer, fuel = fewer + 1 :=
      ⟨fuel - 1, by rw [List.length_cons] at enough; omega⟩
    have notEnd : left.length ≠ size := sizeEq ▸ entries_left left entry rest
    rw [encodeEntries_cons, List.append_assoc] at parts
    obtain ⟨here, others⟩ := List.forall_mem_cons.mp absent
    rw [ugSetFileCrcLoop, if_neg notEnd, cStringAt_entry parts]
    dsimp only
    rw [if_neg here, entry_next]
    apply ih
    · rw [parts, List.append_assoc]
    · rw [sizeEq, encodeEntries_cons, List.length_append, List.length_append, Nat.add_assoc]
    · rw [List.length_cons] at enough
      omega
    · exact others

theorem ugSetFileCrcLoop_present
    {entry : CrcEntry} {after : List CrcEntry} (named : filepath = entry.name)
    (before : List CrcEntry) :
    ∀ (left : List UInt8) (fuel : Nat),
      buf = left ++ (encodeEntries (before ++ entry :: after) ++ right) →
      size = left.length + (encodeEntries (before ++ entry :: after)).length →
      before.length < fuel →
      (∀ other ∈ before, filepath ≠ other.name) →
      ugSetFileCrcLoop filepath buf size fuel left.length =
        some (some ((left ++ encodeEntries before).length + (entry.name.length + 1))) := by
  induction before with
  | nil =>
    intro left fuel parts sizeEq enough _
    obtain ⟨fuel, rfl⟩ := Nat.exists_eq_succ_of_ne_zero enough.ne_bot
    have notEnd : left.length ≠ size := sizeEq ▸ entries_left left entry after
    rw [List.nil_append, encodeEntries_cons, List.append_assoc] at parts
    rw [ugSetFileCrcLoop, if_neg notEnd, cStringAt_entry parts]
    dsimp only
    rw [if_pos named, if_neg (entry_inside parts)]
    simp [encodeEntries]
  | cons other rest ih =>
    intro left fuel parts sizeEq enough absent
    obtain ⟨fuel, rfl⟩ : ∃ fewer, fuel = fewer + 1 :=
      ⟨fuel - 1, by rw [List.length_cons] at enough; omega⟩
    have notEnd : left.length ≠ size := sizeEq ▸ entries_left left other _
    rw [List.cons_append, encodeEntries_cons, List.append_assoc] at parts
    obtain ⟨here, others⟩ := List.forall_mem_cons.mp absent
    rw [ugSetFileCrcLoop, if_neg notEnd, cStringAt_entry parts]
    dsimp only
    rw [if_neg here, entry_next, encodeEntries_cons, ← List.append_assoc]
    apply ih
    · rw [parts, List.append_assoc]
    · rw [sizeEq, List.cons_append, encodeEntries_cons, List.length_append,
        List.length_append, Nat.add_assoc]
    · rw [List.length_cons] at enough
      omega
    · exact others

end Loops

end

end IteSdk.Upgrade
