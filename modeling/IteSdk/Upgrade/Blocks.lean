import IteSdk.Itc.Stream
import IteSdk.Ith.Align
import IteSdk.Lib.Checked
import IteSdk.Upgrade.Crc
import IteSdk.Upgrade.Mark

/-!
# What an upgrade works on

The state of `ugUpgradePackage` and of the functions it calls, and the calls it
makes to the operating system.  What the system answers is not fixed: `UgEnv`
is any set of answers over a world of any type.
-/

namespace IteSdk.Upgrade

section

open Lib Itc

/-- `ITPDisk`, with names for the disks that an upgrade can write to. -/
inductive ITPDisk
  | sd0
  | sd1
  | nand
  | nor
  | other (code : Nat)
  deriving DecidableEq

def itpMaxPartition : Nat := 10

def itpMaxDrive : Nat := 26

structure ITPDriveStatus where
  disk : ITPDisk
  avail : Bool
  name : List UInt8

structure UGDevice where
  deviceType : Nat
  unformattedSize : Nat
  partitionCount : Nat
  disk : ITPDisk
  size : List Nat
  partition : Bool
  nopartition : Bool
  restore : Bool

/-- `PATH_MAX` and the settings `CFG_UG_INFO`, `CFG_UPGRADE_ENC_KEY` and
`CFG_NAND_RESERVED_SIZE`. -/
structure UgConfig where
  pathMax : Nat
  ugInfo : Bool
  enckey : UInt32
  nandReservedSize : Nat

/-- The calls to the system.  An `Option` is `none` where the call fails. -/
structure UgEnv (ω : Type) where
  markIo : ω → MarkIo × ω
  getTable : ω → List ITPDriveStatus × ω
  format : Nat → ω → Int × ω
  getPartition : ITPDisk → ω → (Int × Nat × List Nat) × ω
  unmount : ITPDisk → ω → Int × ω
  createPartition : ITPDisk → Nat → List (Nat × Nat) → ω → Int × ω
  forceMount : ITPDisk → ω → Int × ω
  saveFatExbr : ω → Unit × ω
  openDisk : ITPDisk → Bool → ω → Bool × ω
  getBlockSize : ω → Option Nat × ω
  getGapSize : ω → Option Nat × ω
  lseek : Nat → ω → Nat × ω
  read : Nat → ω → (Nat × List UInt8) × ω
  write : List UInt8 → Nat → ω → Nat × ω
  malloc : Nat → ω → Option (List UInt8) × ω
  statvfs : List UInt8 → ω → Option Nat × ω
  stat : List UInt8 → ω → Option Nat × ω
  fopen : List UInt8 → Bool → ω → Bool × ω
  fwrite : List UInt8 → ω → Nat × ω
  fread : Nat → ω → (Nat × List UInt8) × ω
  chdir : List UInt8 → ω → Int × ω
  mkdir : List UInt8 → ω → Int × ω

/-- The stream, the world, the upgrade mark, `ugDevice` and the variables
`partition` and `drive`, which keep their values from one tag to the next. -/
structure UgState (ω : Type) where
  file : ITCStream
  world : ω
  mark : UgMark
  device : UGDevice
  partition : Nat
  drive : List UInt8
  /-- The end tag was processed and `ugUpgradeFinish` returned zero. -/
  finished : Bool

/-- `bounds` is an index or a length from the stream that leaves its object,
`rawData` a division by zero or a buffer too small for the block size that the
raw device reports. -/
inductive UgFault
  | bounds
  | rawData
  deriving DecidableEq

inductive UgStop
  | returned (ret : Int)
  | fault (fault : UgFault)
  | outOfFuel
  deriving DecidableEq

abbrev Ug (ω : Type) : Type → Type := Checked (UgState ω) UgStop

variable {ω α : Type}

/-- Return `ret` unless the condition is met. -/
def ugRequire (condition : Prop) [Decidable condition] (ret : Int) : Ug ω Unit :=
  Checked.require condition (.returned ret)

def ugAsk (function : ω → α × ω) : Ug ω α :=
  Checked.call fun state =>
    ((function state.world).1, { state with world := (function state.world).2 })

def ugGet (function : UgState ω → α) : Ug ω α := Checked.call fun state => (function state, state)

def ugSetDevice (function : UGDevice → UGDevice) : Ug ω Unit :=
  Checked.call fun state => ((), { state with device := function state.device })

/-- A call of a function of `ug_mark.c`. -/
def ugCallMark (env : UgEnv ω) (function : MarkIo → UgMark → Nat × UgMark) : Ug ω Nat :=
  Checked.call fun state =>
    let io := env.markIo state.world
    let result := function io.1 state.mark
    (result.1, { state with world := io.2, mark := result.2 })

def ugRead (size : Nat) : Ug ω (List UInt8) :=
  Checked.call fun state =>
    let result := itcStreamRead state.file size
    (result.1, { state with file := result.2 })

/-- Read `size` bytes or return `ret`. -/
def ugReadExactly (size : Nat) (ret : Int) : Ug ω (List UInt8) := do
  let bytes ← ugRead size
  ugRequire (bytes.length = size) ret
  pure bytes

/-- The same into an object with room for `room` bytes. -/
def ugReadInto (size room : Nat) (fault : UgFault) (ret : Int) : Ug ω (List UInt8) := do
  let copied ← ugGet fun state => itcStreamCopied state.file size
  Checked.require (copied ≤ room) (.fault fault)
  ugReadExactly size ret

/-- `itcStreamSeek`, returning `ret` where it fails. -/
def ugSeek (offset : Int) (origin : SeekOrigin) (ret : Int) : Ug ω Unit := do
  let file ← ugGet fun state => itcStreamSeek state.file offset origin
  match file with
  | none => throw (.returned ret)
  | some file => Checked.call fun state => ((), { state with file := file })

end

/-!
# The blocks of a package

The functions for the tags of a package, raw data apart.  The numbers they
return are the line numbers of `ug_device.c`, `ug_unformatted.c`, `ug_end.c`,
`ug_partition.c`, `ug_directory.c` and `ug_file.c`.
-/

section

open Lib Itc Ith

variable {ω : Type}

/-- The little-endian number of `count` bytes behind the first `offset`. -/
def field (offset count : Nat) (bytes : List UInt8) : Nat :=
  littleEndian (slice offset count bytes)

/-- `(int)count` as the bound of a loop that counts up from zero. -/
def intBound (count : Nat) : Nat := if count < 2 ^ 31 then count else 0

/-- The length of `device_table`. -/
def deviceCount : Nat := 4

def deviceDisk : Nat → Option ITPDisk
  | 0 => some .nand
  | 1 => some .nor
  | 2 => some .sd0
  | 3 => some .sd1
  | _ => none

/-- The size in bytes of a table of `count` sizes, as `size_t` computes it. -/
def partitionTableSize (count : Nat) : Nat := 8 * count % 2 ^ 32

def ugUpgradeDevice (config : UgConfig) : Ug ω Unit := do
  let dev ← ugReadExactly 12 44
  let deviceType := field 0 4 dev
  let count := field 8 4 dev
  ugSetDevice fun device =>
    { device with
      deviceType := deviceType
      unformattedSize := field 4 4 dev
      partitionCount := count }
  -- The log reads `device_table` before the type is checked.
  Checked.require (config.ugInfo = true → deviceType < deviceCount) (.fault .bounds)
  let table ← ugReadInto (partitionTableSize count) (8 * itpMaxPartition) .bounds 62
  Checked.require (intBound count ≤ itpMaxPartition) (.fault .bounds)
  ugSetDevice fun device =>
    { device with
      size :=
        (List.range (table.length / 8)).map (fun i => field (8 * i) 8 table) ++
          device.size.drop (table.length / 8) }
  match deviceDisk deviceType with
  | some disk => ugSetDevice fun device => { device with disk := disk }
  | none => throw (.returned 95)

def ugUpgradeUnformatted : Ug ω Unit := do
  let _ ← ugReadExactly 4 24
  pure ()

def ugUpgradeEnd : Ug ω Unit := do
  let _ ← ugReadExactly 4 22
  pure ()

def partitionList (inc : Nat) : List Nat → List (Nat × Nat)
  | [] => []
  | size :: rest => (inc, size) :: partitionList ((inc + size) % 2 ^ 64) rest

def drivesOf (disk : ITPDisk) (table : List ITPDriveStatus) : List (ITPDriveStatus × Nat) :=
  (table.take itpMaxDrive).zipIdx.filter fun drive => drive.1.disk = disk ∧ drive.1.avail = true

def formatDrives (env : UgEnv ω) : List (ITPDriveStatus × Nat) → Ug ω Unit
  | [] => pure ()
  | drive :: rest => do
      let ret ← ugAsk (env.format drive.2)
      ugRequire (ret = 0) ret
      formatDrives env rest

def repartition (env : UgEnv ω) (device : UGDevice) (disk : ITPDisk) : Ug ω Unit := do
  let count := device.partitionCount
  let _ ← ugAsk (env.unmount disk)
  let ret ← ugAsk
    (env.createPartition disk count
      (partitionList device.unformattedSize (device.size.take (intBound count))))
  ugRequire (ret = 0) ret
  let ret ← ugAsk (env.forceMount disk)
  ugRequire (ret = 0) ret
  let table ← ugAsk env.getTable
  formatDrives env (drivesOf disk table)
  Checked.provided (disk = .nor ∧ 3 < intBound count) (ugAsk env.saveFatExbr)

def samePartitions (device : UGDevice) (count : Nat) (sizes : List Nat) : Prop :=
  count = device.partitionCount ∧
    ∀ i < intBound count, device.size.getD i 0 ≠ 0 → sizes.getD i 0 = device.size.getD i 0

instance (device : UGDevice) (count : Nat) (sizes : List Nat) :
    Decidable (samePartitions device count sizes) :=
  inferInstanceAs (Decidable (_ ∧ _))

def ugUpgradeDoPartition (env : UgEnv ω) : Ug ω Unit := do
  let device ← ugGet fun state => state.device
  match deviceDisk device.deviceType with
  | none => throw (.returned 161)
  | some disk =>
    if device.partitionCount = 0 then
      pure ()
    else if device.partition = true then
      repartition env device disk
    else if device.nopartition = true then
      pure ()
    else do
      let par ← ugAsk (env.getPartition disk)
      if par.1 = 0 ∧ samePartitions device par.2.1 par.2.2 then
        pure ()
      else
        repartition env device disk

def ugUpgradePartition (env : UgEnv ω) (format : Bool) : Ug ω Unit := do
  let par ← ugReadExactly 8 77
  let disk ← ugGet fun state => state.device.disk
  let partition ← ugGet fun state => state.partition
  let table ← ugAsk env.getTable
  match (drivesOf disk table)[partition]? with
  | none => throw (.returned 124)
  | some drive => do
      Checked.provided (format = true ∧ 0 < field 0 8 par) do
        let _ ← ugAsk (env.format drive.2)
        pure ()
      Checked.call fun state => ((), { state with drive := drive.1.name })

/-! ## Directories and files -/

def cString (bytes : List UInt8) : List UInt8 := bytes.takeWhile (· ≠ 0)

/-- `strcpy(path, drive)`, then `name` from the third byte on. -/
def pathOnDrive (drive name : List UInt8) : List UInt8 :=
  cString (overwrite 2 name (cString drive ++ [0]))

def directoryPath (path : List UInt8) : List UInt8 :=
  if path.getLast? = some 47 then path.dropLast else path

def ugUpgradeDirectory (config : UgConfig) (env : UgEnv ω) : Ug ω Unit := do
  let dir ← ugReadExactly 4 25
  let name ← ugReadInto (field 0 4 dir) (config.pathMax - 2) .bounds 38
  let drive ← ugGet fun state => state.drive
  let ret ← ugAsk (env.chdir drive)
  ugRequire (ret = 0) 47
  let _ ← ugAsk (env.mkdir (directoryPath (pathOnDrive drive name)))
  pure ()

/-- Byte `i` of a buffer that is decrypted word by word, the rest byte by
byte. -/
def encByte (enckey : UInt32) (count i : Nat) : UInt8 :=
  let key32 := enckey <<< 24 ||| enckey <<< 16 ||| enckey <<< 8 ||| enckey
  if i < count - count % 4 then
    (key32 >>> (8 * (i % 4)).toUInt32).toUInt8
  else
    enckey.toUInt8

def encFread (config : UgConfig) (env : UgEnv ω) (count : Nat) : Ug ω (List UInt8) :=
  if config.enckey = 0 then
    ugRead count
  else do
    let buf ← ugAsk (env.malloc count)
    match buf with
    | none => pure []
    | some _ => do
        let bytes ← ugRead count
        pure (bytes.mapIdx fun i byte => byte ^^^ encByte config.enckey count i)

/-- The two loops of `ugUpgradeFile`, which differ in what they do with a piece
of the file. -/
def ugFileLoop (config : UgConfig) (env : UgEnv ω) (bufsize : Nat) (ret : Int)
    (piece : List UInt8 → Ug ω Unit) : Nat → Nat → Ug ω Unit
  | 0, _ => throw .outOfFuel
  | fuel + 1, remainsize => do
      let readsize := if remainsize < bufsize then remainsize else bufsize
      let buf ← encFread config env readsize
      ugRequire (buf.length = readsize) ret
      piece buf
      if 0 < remainsize - readsize then
        ugFileLoop config env bufsize ret piece fuel (remainsize - readsize)
      else
        pure ()

def writePiece (env : UgEnv ω) (buf : List UInt8) : Ug ω Unit := do
  let size2 ← ugAsk (env.fwrite buf)
  ugRequire (size2 = buf.length) 156

def verifyPiece (env : UgEnv ω) (buf : List UInt8) : Ug ω Unit := do
  let buf2 ← ugAsk (env.fread buf.length)
  ugRequire (buf2.1 = buf.length) 214
  ugRequire (buf = buf2.2.take buf.length) 221

def checkCapacity (env : UgEnv ω) (drive filename : List UInt8) (filesize : Nat) : Ug ω Unit := do
  let info ← ugAsk (env.statvfs drive)
  match info with
  | none => pure ()
  | some avail => do
      let buffer ← ugAsk (env.stat filename)
      ugRequire (filesize ≤ (avail + buffer.getD 0) % 2 ^ 64) 124

/-- `ugUpgradeFile` from `malloc` on. -/
def ugUpgradeFileContent (config : UgConfig) (env : UgEnv ω)
    (drive filename : List UInt8) (filesize : Nat) : Ug ω Unit := do
  let bufsize := if cfgUgBufSize < filesize then cfgUgBufSize else filesize
  let buf ← ugAsk (env.malloc bufsize)
  ugRequire (buf.isSome = true) 108
  checkCapacity env drive filename filesize
  let outfile ← ugAsk (env.fopen filename true)
  ugRequire (outfile = true) 134
  ugFileLoop config env bufsize 148 (writePiece env) (filesize + 1) filesize
  let buf2 ← ugAsk (env.malloc bufsize)
  ugRequire (buf2.isSome = true) 177
  let outfile ← ugAsk (env.fopen filename false)
  ugRequire (outfile = true) 185
  ugSeek (-filesize) .seekCur 192
  ugFileLoop config env bufsize 206 (verifyPiece env) (filesize + 1) filesize

def ugUpgradeFile (config : UgConfig) (env : UgEnv ω) : Ug ω Unit := do
  let file ← ugReadExactly 4 76
  let name ← ugReadInto (field 0 4 file) (config.pathMax - 2) .bounds 89
  let filesize ← ugReadExactly 4 97
  let drive ← ugGet fun state => state.drive
  ugUpgradeFileContent config env drive (pathOnDrive drive name) (field 0 4 filesize)

end

end IteSdk.Upgrade
