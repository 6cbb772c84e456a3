import IteSdk.Upgrade.Blocks

/-!
# Raw data

`ug_rawdata.c`: data that goes to a raw device block by block and is read back.
A block of size zero stands for the whole package, stored behind its size.
-/

namespace IteSdk.Upgrade

section

open Lib Itc Ith

variable {ω : Type}

structure RawTarget where
  disk : ITPDisk
  blocksize : Nat
  gapsize : Nat
  bufsize : Nat

/-- The position counter `pos2`, the bytes that remain and the buffer. -/
structure RawCursor where
  pos2 : Nat
  remainsize : Nat
  buf : List UInt8

def RawTarget.readsize (target : RawTarget) (cursor : RawCursor) : Nat :=
  if cursor.pos2 = 0 ∧ target.disk = .nand then
    min cursor.remainsize (add32 target.blocksize target.gapsize)
  else
    min cursor.remainsize target.blocksize

def RawTarget.nextPos2 (target : RawTarget) (cursor : RawCursor) : Nat :=
  if cursor.pos2 = 0 ∧ target.disk = .nand then
    cursor.pos2 + 1
  else
    cursor.pos2

/-- `ITH_ALIGN_UP(size, blocksize) / blocksize`. -/
def RawTarget.blocks (target : RawTarget) (size : Nat) : Ug ω Nat := do
  Checked.require (target.blocksize ≠ 0) (.fault .rawData)
  pure (ithAlignUp size target.blocksize / target.blocksize)

/-- Read `readsize` bytes into the buffer. -/
def rawFill (target : RawTarget) (offset readsize : Nat) (ret : Int)
    (buf : List UInt8) : Ug ω (List UInt8) := do
  Checked.require (offset ≤ target.bufsize) (.fault .rawData)
  let bytes ← ugReadInto readsize (target.bufsize - offset) .rawData ret
  pure (overwrite offset bytes buf)

def rawWrite (env : UgEnv ω) (target : RawTarget) (size : Nat) (ret : Int)
    (buf : List UInt8) : Ug ω Unit := do
  let alignsize ← target.blocks size
  let size2 ← ugAsk (env.write buf alignsize)
  ugRequire (size2 = alignsize) ret

/-- Read blocks for `size` bytes back and compare `compared` bytes. -/
def rawVerify (env : UgEnv ω) (target : RawTarget) (size compared : Nat)
    (readRet verifyRet : Int) (buf : List UInt8) : Ug ω Unit := do
  let alignsize ← target.blocks size
  let buf2 ← ugAsk (env.read alignsize)
  ugRequire (buf2.1 = alignsize) readRet
  ugRequire (buf.take compared = buf2.2.take compared) verifyRet

/-- The two `do`/`while` loops, which differ in what they do with a block; the
result is the buffer they leave. -/
def rawLoop (target : RawTarget) (ret : Int) (block : Nat → List UInt8 → Ug ω Unit) :
    Nat → RawCursor → Ug ω (List UInt8)
  | 0, _ => throw .outOfFuel
  | fuel + 1, cursor => do
      let readsize := target.readsize cursor
      let buf ← rawFill target 0 readsize ret cursor.buf
      block readsize buf
      if 0 < cursor.remainsize - readsize then
        rawLoop target ret block fuel ⟨target.nextPos2 cursor, cursor.remainsize - readsize, buf⟩
      else
        pure buf

def le32 (value : Nat) : List UInt8 := (List.range 4).map fun i => (value / 256 ^ i).toUInt8

/-- The first block of a whole package: its size and what follows it. -/
def rawFirst (target : RawTarget) (ret : Int) (rawdataSize : Nat)
    (block : Nat → List UInt8 → Ug ω Unit) (cursor : RawCursor) :
    Ug ω RawCursor := do
  -- `readsize -= 4` would wrap around.
  Checked.require (4 ≤ target.readsize cursor) (.fault .rawData)
  let readsize := target.readsize cursor - 4
  let buf ← rawFill target 4 readsize ret (overwrite 0 (le32 rawdataSize) cursor.buf)
  block readsize buf
  pure ⟨target.nextPos2 cursor, cursor.remainsize - readsize, buf⟩

def rawWriteStart (env : UgEnv ω) (target : RawTarget)
    (streampos filesize : Nat) (cursor : RawCursor) : Ug ω RawCursor :=
  if 0 < streampos then
    rawFirst target 189 filesize (fun readsize => rawWrite env target (readsize + 4) 198) cursor
  else
    pure cursor

/-- From the first `lseek` to the end of the writing loop. -/
def rawWriteAll (env : UgEnv ω) (target : RawTarget)
    (pos streampos filesize : Nat) (buf : List UInt8) :
    Ug ω (List UInt8) := do
  let pos2 ← ugAsk (env.lseek pos)
  ugRequire (pos2 = pos) 161
  let cursor ← rawWriteStart env target streampos filesize ⟨pos2, filesize, buf⟩
  rawLoop target 226 (fun readsize => rawWrite env target readsize 237) (filesize + 1) cursor

def rawVerifyStart (env : UgEnv ω) (target : RawTarget)
    (streampos filesize : Nat) (cursor : RawCursor) : Ug ω RawCursor :=
  if 0 < streampos then do
    ugSeek 0 .seekSet 275
    rawFirst target 297 filesize
      (fun readsize => rawVerify env target readsize (readsize + 4) 307 315)
      cursor
  else do
    ugSeek (-filesize) .seekCur 333
    pure cursor

/-- From the second `lseek` to the end of the verifying loop. -/
def rawVerifyAll (env : UgEnv ω) (target : RawTarget)
    (pos streampos filesize : Nat) (buf : List UInt8) : Ug ω Unit := do
  let pos2 ← ugAsk (env.lseek pos)
  ugRequire (pos2 = pos) 254
  let buf2 ← ugAsk (env.malloc target.bufsize)
  ugRequire (buf2.isSome = true) 262
  let cursor ← rawVerifyStart env target streampos filesize ⟨pos2, filesize, buf⟩
  let _ ← rawLoop target 353 (fun readsize => rawVerify env target readsize readsize 363 371)
    (filesize + 1) cursor
  pure ()

/-- The function from `open` on. -/
def ugUpgradeRawDataFrom (config : UgConfig) (env : UgEnv ω)
    (position rawdataSize streampos : Nat) : Ug ω Unit := do
  let disk ← ugGet fun state => state.device.disk
  ugRequire (disk = .nand ∨ disk = .nor ∨ disk = .sd0 ∨ disk = .sd1) (-1)
  let opened ← ugAsk
    (env.openDisk disk (decide (disk = .nand ∧ position = config.nandReservedSize)))
  ugRequire (opened = true) (-1)
  let blocksize ← ugAsk env.getBlockSize
  ugRequire (blocksize.isSome = true) 125
  let gapsize ← ugAsk env.getGapSize
  ugRequire (gapsize.isSome = true) 132
  let total := add32 (blocksize.getD 0) (gapsize.getD 0)
  let alignsize := ithAlignUp rawdataSize total
  let bufsize := if cfgUgBufSize < alignsize then cfgUgBufSize else alignsize
  let buf ← ugAsk (env.malloc bufsize)
  ugRequire (buf.isSome = true) 145
  Checked.require (total ≠ 0) (.fault .rawData)
  let target : RawTarget := ⟨disk, blocksize.getD 0, gapsize.getD 0, bufsize⟩
  let buf ← rawWriteAll env target (position / total) streampos rawdataSize (buf.getD [])
  rawVerifyAll env target (position / total) streampos rawdataSize buf

def ugTrySeek (offset : Int) (origin : SeekOrigin) : Ug ω Unit :=
  Checked.call fun state =>
    ((),
      { state with
        file := (itcStreamSeek state.file offset origin).getD state.file })

def ugUpgradeRawData (config : UgConfig) (env : UgEnv ω) : Ug ω Unit := do
  let rdata ← ugReadExactly 8 36
  let position := field 0 4 rdata
  let rawdataSize := field 4 4 rdata
  let restore ← ugGet fun state => state.device.restore
  if rawdataSize ≠ 0 then
    ugUpgradeRawDataFrom config env position rawdataSize 0
  else if restore = true then
    pure ()
  else do
    let streampos ← ugGet fun state => itcStreamTell state.file
    ugTrySeek 0 .seekSet
    let size ← ugGet fun state => state.file.size
    ugUpgradeRawDataFrom config env position size streampos
    ugTrySeek streampos .seekSet
    let ret ← ugCallMark env ugUpgradeBackupFinish
    ugRequire (ret = 0) ret

end

/-!
# Raw devices

What `ug_rawdata.c` relies on of the driver of a raw device.  A device is
written and read by blocks that follow each other; the first one of a NAND flash
holds the bytes of its gap as well.
-/

section

open Lib Lib.Checked Itc Ith

variable {ω α β : Type}

/-- The block that comes next, the blocks that were written, the size of the
buffer that was allocated last, and whether every access was inside one. -/
structure RawDevice where
  block : Nat
  stored : List (Nat × List UInt8)
  room : Nat
  inside : Bool

namespace RawTarget

/-- The bytes that a block of the device takes from a buffer. -/
def capacity (target : RawTarget) (block : Nat) : Nat :=
  if block = 0 ∧ target.disk = .nand then
    add32 target.blocksize target.gapsize
  else
    target.blocksize

def span (target : RawTarget) : Nat → Nat → Nat
  | _, 0 => 0
  | block, count + 1 => target.capacity block + target.span (block + 1) count

def cut (target : RawTarget) : Nat → Nat → List UInt8 → List (Nat × List UInt8)
  | _, 0, _ => []
  | block, count + 1, bytes =>
    (block, bytes.take (target.capacity block)) ::
      target.cut (block + 1) count (bytes.drop (target.capacity block))

end RawTarget

namespace RawDevice

def write (target : RawTarget) (device : RawDevice) (buf : List UInt8) (count : Nat) : RawDevice :=
  { device with
    block := device.block + count
    stored := device.stored ++ target.cut device.block count buf
    inside := device.inside && decide (target.span device.block count ≤ buf.length) }

/-- Some blocks were read into the buffer that was allocated last. -/
def read (target : RawTarget) (device : RawDevice) (count : Nat) : RawDevice :=
  { device with
    block := device.block + count
    inside := device.inside && decide (target.span device.block count ≤ device.room) }

end RawDevice

def window (held : Nat → List UInt8) (block count : Nat) : List UInt8 :=
  (List.range' block count).flatMap held

/-- How the calls of `ugUpgradeRawData` change a device, of which reading yields
`held`.  A call may fail; then it leaves the buffers as they should be all the
same. -/
structure RawDriver (env : UgEnv ω) (view : ω → RawDevice)
    (target : RawTarget) (held : Nat → List UInt8) : Prop where
  held_length : ∀ block, (held block).length = target.capacity block
  openDisk : ∀ disk mode world, view (env.openDisk disk mode world).2 = view world
  getBlockSize : ∀ world,
    view (env.getBlockSize world).2 = view world ∧
      ∀ size ∈ (env.getBlockSize world).1, size = target.blocksize
  getGapSize : ∀ world,
    view (env.getGapSize world).2 = view world ∧
      ∀ size ∈ (env.getGapSize world).1, size = target.gapsize
  malloc : ∀ size world,
    view (env.malloc size world).2 = { view world with room := size } ∧
      ∀ buf ∈ (env.malloc size world).1, buf.length = size
  lseek : ∀ pos world,
    (view (env.lseek pos world).2).inside = (view world).inside ∧
      ((env.lseek pos world).1 = pos →
        view (env.lseek pos world).2 = { view world with block := pos })
  write : ∀ buf count world,
    (view (env.write buf count world).2).inside = ((view world).write target buf count).inside ∧
      ((env.write buf count world).1 = count →
        view (env.write buf count world).2 = (view world).write target buf count)
  read : ∀ count world,
    (view (env.read count world).2).inside = ((view world).read target count).inside ∧
      ((env.read count world).1.1 = count →
        view (env.read count world).2 = (view world).read target count ∧
          window held (view world).block count <+: (env.read count world).1.2)
  markIo : ∀ world, view (env.markIo world).2 = view world

structure RawWorks (env : UgEnv ω) : Prop where
  openDisk : ∀ disk mode world, (env.openDisk disk mode world).1 = true
  getBlockSize : ∀ world, (env.getBlockSize world).1.isSome = true
  getGapSize : ∀ world, (env.getGapSize world).1.isSome = true
  malloc : ∀ size world, (env.malloc size world).1.isSome = true
  lseek : ∀ pos world, (env.lseek pos world).1 = pos
  write : ∀ buf count world, (env.write buf count world).1 = count
  read : ∀ count world, (env.read count world).1.1 = count
  backupFinish : ∀ world mark, (ugUpgradeBackupFinish (env.markIo world).1 mark).1 = 0

def sized (package : List UInt8) : List UInt8 := le32 package.length ++ package

/-- From block `pos` on the device was given some bytes, and less than a block of
padding. -/
structure RawStored (target : RawTarget) (pos : Nat) (bytes : List UInt8)
    (stored : List (Nat × List UInt8)) : Prop where
  blocks : stored.map Prod.fst = List.range' pos stored.length
  content : bytes <+: (stored.map Prod.snd).flatten
  padding : (stored.map Prod.snd).flatten.length < bytes.length + target.blocksize

/-- In the blocks that were written the device holds some bytes. -/
def RawVerified (held : Nat → List UInt8) (bytes : List UInt8)
    (stored : List (Nat × List UInt8)) : Prop :=
  bytes <+: (stored.map Prod.fst).flatMap held

/-- The device that a package of this size is backed up to. -/
def rawTarget (disk : ITPDisk) (blocksize gapsize filesize : Nat) : RawTarget :=
  let alignsize := ithAlignUp filesize (add32 blocksize gapsize)
  ⟨disk, blocksize, gapsize, if cfgUgBufSize < alignsize then cfgUgBufSize else alignsize⟩

/-- A stream that stands before the record for a backup to `position`. -/
structure BackupRecord (file : ITCStream) (position : Nat) : Prop where
  header : file.pos + 8 ≤ file.size
  position : field file.pos 4 file.data = position
  empty : field (file.pos + 4) 4 file.data = 0

/-- A backup keeps to its buffers, and unless a call fails it puts the package
behind its size on the device; it succeeds only if that is what the device holds,
and then always unless a call fails. -/
def RawBackup (disk : ITPDisk) (blocksize gapsize position filesize : Nat) : Prop :=
  ∀ (ω : Type) (config : UgConfig) (env : UgEnv ω) (view : ω → RawDevice)
    (held : Nat → List UInt8) (state : UgState ω),
    RawDriver env view (rawTarget disk blocksize gapsize filesize) held →
    state.device.disk = disk → state.device.restore = false →
    state.file.size = filesize → BackupRecord state.file position →
    (view state.world).stored = [] → (view state.world).inside = true →
    Holds (ugUpgradeRawData config env) state
      (fun _ after =>
        (view after.world).inside = true ∧
          RawStored (rawTarget disk blocksize gapsize filesize)
            (position / add32 blocksize gapsize) (sized state.file.data)
            (view after.world).stored ∧
          RawVerified held (sized state.file.data) (view after.world).stored)
      (fun stop after =>
        (∃ ret ≠ 0, stop = .returned ret) ∧ (view after.world).inside = true ∧
          (RawWorks env →
            RawStored (rawTarget disk blocksize gapsize filesize)
              (position / add32 blocksize gapsize) (sized state.file.data)
              (view after.world).stored ∧
            ¬ RawVerified held (sized state.file.data) (view after.world).stored))

def RawTarget.count (target : RawTarget) (size : Nat) : Nat :=
  ithAlignUp size target.blocksize / target.blocksize

def RawTarget.last (target : RawTarget) (pos filesize : Nat) : Nat :=
  (filesize + 3 - target.capacity pos) % target.blocksize + 1

/-- The first block takes its part of the package and is written as one. -/
structure FirstFits (target : RawTarget) (pos filesize : Nat) : Prop where
  total : add32 target.blocksize target.gapsize ≠ 0
  prefixFits : 4 ≤ target.capacity pos
  package : target.capacity pos ≤ filesize
  buffer : target.capacity pos ≤ target.bufsize
  blocksize : target.blocksize ≠ 0
  block : target.blocksize ≤ target.bufsize
  firstWritten : target.count (target.capacity pos) = 1

/-- The first block is read as one, too, and so is the last one written. -/
structure RawFits (target : RawTarget) (pos filesize : Nat) : Prop
    extends FirstFits target pos filesize where
  firstRead : target.count (target.capacity pos - 4) = 1
  last : target.count (target.last pos filesize) = 1

end

end IteSdk.Upgrade
