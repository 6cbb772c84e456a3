import IteSdk.Upgrade.PackageRun
import IteSdk.Upgrade.RawBackup
import IteSdk.Upgrade.RawDataSpec

/-!
# The run of a backup

`ugUpgradeRawData` where the record has no size of its own.
-/

namespace IteSdk.Upgrade

section

open Lib Lib.Checked Itc Ith

variable {ω α β : Type} {env : UgEnv ω} {view : ω → RawDevice}
  {target : RawTarget} {held : Nat → List UInt8} {file : ITCStream}
  {device : RawDevice} {bad : RawDevice → Prop} {buf : List UInt8}
  {ret : Int} {pos : Nat}

@[simp] theorem length_le32 (value : Nat) : (le32 value).length = 4 := by
  rw [le32, List.length_map, List.length_range]

theorem RawTarget.readsize_eq (cursor : RawCursor) :
    target.readsize cursor = min cursor.remainsize (target.capacity cursor.pos2) := by
  rw [RawTarget.readsize, RawTarget.capacity]
  split <;> rfl

theorem notFirst_nextPos2 (cursor : RawCursor) : NotFirst target (target.nextPos2 cursor) := by
  rw [RawTarget.nextPos2]
  split
  · exact notFirst_succ cursor.pos2
  · assumption

def firstBytes (target : RawTarget) (pos : Nat) (package : List UInt8) : List UInt8 :=
  le32 package.length ++ slice 0 (target.capacity pos - 4) package

def restBytes (target : RawTarget) (pos : Nat) (package : List UInt8) : List UInt8 :=
  slice (target.capacity pos - 4) (package.length - (target.capacity pos - 4)) package

section First

variable (fits : FirstFits target pos file.data.length)
include fits

theorem FirstFits.length_first :
    (firstBytes target pos file.data).length = target.capacity pos := by
  have prefixFits := fits.prefixFits
  have package := fits.package
  rw [firstBytes, List.length_append, length_le32, length_slice (by omega)]
  omega

theorem FirstFits.length_rest :
    (restBytes target pos file.data).length = file.data.length - (target.capacity pos - 4) := by
  have package := fits.package
  exact length_slice (by omega)

theorem FirstFits.parts :
    sized file.data = firstBytes target pos file.data ++ restBytes target pos file.data := by
  have package := fits.package
  rw [firstBytes, restBytes, List.append_assoc]
  have whole := slice_add 0 (target.capacity pos - 4)
    (file.data.length - (target.capacity pos - 4)) file.data
  rw [Nat.add_sub_cancel' (by omega), slice_all, Nat.zero_add] at whole
  rw [← whole]
  rfl

theorem rawFirst_here {block : Nat → List UInt8 → Ug ω Unit}
    {post : RawCursor → UgState ω → Prop} {stop : UgStop → UgState ω → Prop}
    (start : file.pos = 0) (length : buf.length = target.bufsize)
    (deals :
      ∀ filled, filled.length = target.bufsize →
        filled.take (target.capacity pos) = firstBytes target pos file.data →
        Triple (Here view (file.advance (target.capacity pos - 4)) device)
          (block (target.capacity pos - 4) filled)
          (fun _ =>
            post
              ⟨target.nextPos2 ⟨pos, file.data.length, buf⟩,
                file.data.length - (target.capacity pos - 4), filled⟩)
          stop) :
    Triple (Here view file device)
      (rawFirst target ret file.data.length block ⟨pos, file.data.length, buf⟩)
      post stop := by
  have prefixFits := fits.prefixFits
  have package := fits.package
  have buffer := fits.buffer
  have sizeEq : file.size = file.data.length := rfl
  have readsize :
      target.readsize ⟨pos, file.data.length, buf⟩ = target.capacity pos := by
    rw [target.readsize_eq]
    exact Nat.min_eq_right package
  have sizedSlice :
      (slice file.pos (target.capacity pos - 4) file.data).length = target.capacity pos - 4 :=
    length_slice (by omega)
  have behind :
      (overwrite 0 (le32 file.data.length) buf).length = target.bufsize := by
    rw [length_overwrite (by rw [length_le32]; omega), length]
  have filled :
      (overwrite 4 (slice file.pos (target.capacity pos - 4) file.data)
        (overwrite 0 (le32 file.data.length) buf)).length = target.bufsize := by
    rw [length_overwrite (by omega), behind]
  rw [rawFirst, readsize]
  apply require_met prefixFits
  apply known_bind (rawFill_here (by omega) (by omega))
  refine Triple.bind (deals _ filled ?_) fun _ => Triple.pure fun _ here => here
  have taken := take_overwrite_overwrite buf (length_le32 file.data.length) sizedSlice
  rw [Nat.add_sub_cancel' prefixFits, start] at taken
  rw [start]
  exact taken

end First

section Passes

variable (driver : RawDriver env view target held)
  (fits : FirstFits target pos file.data.length) (buffered : Buffered target)
  (start : file.pos = 0)
include driver fits buffered start

theorem rawWriteAll_backup {streampos : Nat} (record : 0 < streampos)
    (length : buf.length = target.bufsize) (inside : device.inside = true) :
    Triple (Here view file device) (rawWriteAll env target pos streampos file.data.length buf)
      (fun buf state =>
        buf.length = target.bufsize ∧
          ∃ chunks after, Here view (file.advance file.data.length) after state ∧
            after.inside = true ∧
            after.stored = device.stored ++ (pos, firstBytes target pos file.data) :: chunks ∧
            LoopWritten target (pos + 1) (restBytes target pos file.data) chunks)
      (Stops env view bad) := by
  have prefixFits := fits.prefixFits
  have package := fits.package
  have buffer := fits.buffer
  have sizeEq : file.size = file.data.length := rfl
  have whole : target.capacity pos - 4 +
      (file.data.length - (target.capacity pos - 4)) = file.data.length := by
    omega
  apply ask_here
  rintro world rfl
  obtain ⟨kept, sought⟩ := driver.lseek pos world
  apply require_works (by decide) (kept.trans inside) fun works => works.lseek pos world
  intro there
  rw [there, sought there]
  let moved : RawDevice := { view world with block := pos }
  -- The first block.
  have first :
      Triple (Here view file moved)
        (rawWriteStart env target streampos file.data.length ⟨pos, file.data.length, buf⟩)
        (fun cursor state =>
          NotFirst target cursor.pos2 ∧
            cursor.remainsize = file.data.length - (target.capacity pos - 4) ∧
            cursor.buf.length = target.bufsize ∧
            ∃ after, Here view (file.advance (target.capacity pos - 4)) after state ∧
              after.inside = true ∧ after.block = pos + 1 ∧
              after.stored = (view world).stored ++ [(pos, firstBytes target pos file.data)])
        (Stops env view bad) := by
    rw [rawWriteStart, if_pos record]
    apply rawFirst_here fits start length
    intro filled sized_ taken
    have stays :
        (moved.write target filled (target.count (target.capacity pos - 4 + 4))).inside = true := by
      rw [Nat.sub_add_cancel prefixFits, fits.firstWritten]
      exact RawDevice.write_inside (Nat.le_refl 1) (by rw [sized_]; exact buffer) inside
    refine (rawWrite_here driver (by decide) fits.blocksize stays).post_imp ?_
    rintro _ state written
    refine ⟨notFirst_nextPos2 _, rfl, sized_, _, written, stays, ?_, ?_⟩
    · rw [Nat.sub_add_cancel prefixFits, fits.firstWritten]
      rfl
    · rw [Nat.sub_add_cancel prefixFits, fits.firstWritten, ← taken]
      rfl
  apply first.bind
  rintro ⟨pos2, remainsize, buf⟩ state
    ⟨notFirst, rfl, sized_, after, here, afterInside, block, stored⟩
  have notFirstBlock : NotFirst target after.block := by
    rw [block]
    exact notFirst_succ pos
  refine Triple.post_imp
    (rawLoop_write driver (by decide) buffered (file.data.length + 1)
      (file.advance (target.capacity pos - 4)) after ⟨pos2, _, buf⟩ notFirst
      notFirstBlock ?_ ?_ ?_ sized_ afterInside) ?_ state here
  · dsimp only
    omega
  · dsimp only
    omega
  · rw [ITCStream.advance_pos, ITCStream.advance_size]
    dsimp only
    omega
  · rintro result last ⟨resultSized, chunks, final, there', finalInside, finalStored, written⟩
    refine ⟨resultSized, chunks, final, ?_, finalInside, ?_, ?_⟩
    · rw [ITCStream.advance_advance] at there'
      dsimp only at there'
      rw [whole] at there'
      exact there'
    · rw [finalStored, stored, List.append_assoc]
      rfl
    · rw [block, ITCStream.advance_pos, start, Nat.zero_add] at written
      exact written

def Held (held : Nat → List UInt8) (target : RawTarget) (pos : Nat) (package : List UInt8) : Prop :=
  firstBytes target pos package = held pos ∧
    restBytes target pos package <+:
      window held (pos + 1) (((restBytes target pos package).length - 1) / target.blocksize + 1)

theorem rawVerifyAll_backup {streampos : Nat} (record : 0 < streampos)
    (firstRead : target.count (target.capacity pos - 4) = 1)
    (last : target.count (((restBytes target pos file.data).length - 1) % target.blocksize + 1) = 1)
    (length : buf.length = target.bufsize) (inside : device.inside = true) :
    Triple (Here view (file.advance file.data.length) device)
      (rawVerifyAll env target pos streampos file.data.length buf)
      (fun _ state =>
        Held held target pos file.data ∧
          ∃ after, Here view (file.advance file.data.length) after state ∧
            after.inside = true ∧ after.stored = device.stored)
      (Stops env view fun after =>
        after.stored = device.stored ∧ ¬ Held held target pos file.data) := by
  have prefixFits := fits.prefixFits
  have package := fits.package
  have buffer := fits.buffer
  have sizeEq : file.size = file.data.length := rfl
  have whole : target.capacity pos - 4 +
      (file.data.length - (target.capacity pos - 4)) = file.data.length := by
    omega
  apply ask_here
  rintro world rfl
  obtain ⟨kept, sought⟩ := driver.lseek pos world
  apply require_works (by decide) (kept.trans inside) fun works => works.lseek pos world
  intro there
  rw [there, sought there]
  apply ask_here
  intro world' same
  obtain ⟨allocated, _⟩ := driver.malloc target.bufsize world'
  let moved : RawDevice := { view world with block := pos, room := target.bufsize }
  have there' : view (env.malloc target.bufsize world').2 = moved := by rw [allocated, same]
  have movedInside : moved.inside = true := inside
  rw [there']
  apply require_works (by decide) movedInside fun works => works.malloc target.bufsize world'
  intro _
  have seeks :
      itcStreamSeek (file.advance file.data.length) 0 .seekSet = some file := by
    have within : 0 < (file.advance file.data.length).size := by
      rw [ITCStream.advance_size]
      omega
    rw [@itcStreamSeek_within _ 0 .seekSet 0 rfl within, ← start]
    rfl
  have seek {next : Unit → Ug ω RawCursor} {post : RawCursor → UgState ω → Prop}
      {stop : UgStop → UgState ω → Prop}
      (rest : Triple (Here view file moved) (next ()) post stop) :
      Triple (Here view (file.advance file.data.length) moved)
        (ugSeek 0 .seekSet 275 >>= next) post stop := by
    refine Triple.bind_unit ?_ rest
    apply get_here
    rintro state ⟨atEnd, _⟩
    rw [atEnd, seeks]
    apply Triple.call
    rintro after ⟨_, sameView⟩
    exact ⟨rfl, sameView⟩
  -- The first block.
  have first :
      Triple (Here view (file.advance file.data.length) moved)
        (rawVerifyStart env target streampos file.data.length ⟨pos, file.data.length, buf⟩)
        (fun cursor state =>
          firstBytes target pos file.data = held pos ∧ NotFirst target cursor.pos2 ∧
            cursor.remainsize = file.data.length - (target.capacity pos - 4) ∧
            cursor.buf.length = target.bufsize ∧
            Here view (file.advance (target.capacity pos - 4)) (moved.read target 1) state)
        (Stops env view fun after =>
          after.stored = (view world).stored ∧ ¬ Held held target pos file.data) := by
    rw [rawVerifyStart, if_pos record]
    apply seek
    apply rawFirst_here fits start length
    intro filled sized_ taken
    have heldAll :
        (held pos).take (target.capacity pos) = held pos :=
      List.take_of_length_le (Nat.le_of_eq (driver.held_length pos))
    have compared : target.capacity pos - 4 + 4 = target.capacity pos :=
      Nat.sub_add_cancel prefixFits
    rw [compared]
    refine
      ((rawVerify_here driver (by decide) (by decide) fits.blocksize firstRead
        movedInside buffer (Nat.le_refl _)).post_imp ?_).stop_imp ?_
    · rintro _ state ⟨matches_, there⟩
      rw [taken] at matches_
      exact ⟨matches_.trans heldAll, notFirst_nextPos2 _, rfl, sized_, there⟩
    · rintro stop state stops
      apply stops.imp
      rintro after ⟨stored, differs⟩
      refine ⟨stored, ?_⟩
      rw [taken] at differs
      exact fun all => differs (all.1.trans heldAll.symm)
  apply first.bind
  rintro ⟨pos2, remainsize, buf⟩ state ⟨firstHeld, notFirst, rfl, sized_, here⟩
  have block : (moved.read target 1).block = pos + 1 := rfl
  have notFirstBlock : NotFirst target (moved.read target 1).block := by
    rw [block]
    exact notFirst_succ pos
  have readInside : (moved.read target 1).inside = true := by
    have spanFits : target.span moved.block 1 ≤ moved.room := buffer
    rw [RawDevice.read, movedInside, decide_eq_true spanFits]
    rfl
  have rest := fits.length_rest
  have bytes :
      slice (file.advance (target.capacity pos - 4)).pos
          (file.data.length - (target.capacity pos - 4)) file.data =
        restBytes target pos file.data := by
    rw [ITCStream.advance_pos, start, Nat.zero_add]
    rfl
  refine Triple.bind
    ((rawLoop_verify driver (by decide) (by decide) buffered
      (file.data.length + 1) (file.advance (target.capacity pos - 4)) _
      ⟨pos2, _, buf⟩ notFirst notFirstBlock ?_ ?_ ?_ sized_ readInside
      buffered.fits ?_).stop_imp ?_) ?_ state here
  · dsimp only
    omega
  · dsimp only
    omega
  · rw [ITCStream.advance_pos, ITCStream.advance_size]
    dsimp only
    omega
  · rw [rest] at last
    exact last
  · rintro stop after stops
    apply stops.imp
    rintro device' ⟨stored, differs⟩
    refine ⟨stored, ?_⟩
    intro all
    apply differs
    have later := all.2
    rw [rest] at later
    dsimp only [ITCStream.advance_data]
    rw [bytes, block]
    exact later
  · rintro _ after ⟨later, final, there'', finalInside, stored⟩
    dsimp only [ITCStream.advance_data] at later
    rw [bytes, block, ← rest] at later
    refine Holds.pure ⟨⟨firstHeld, later⟩, final, ?_, finalInside, stored⟩
    rw [ITCStream.advance_advance] at there''
    dsimp only at there''
    rw [whole] at there''
    exact there''

end Passes

/-! ## The whole function -/

theorem RawFits.last_rest (fits : RawFits target pos file.data.length) :
    target.count (((restBytes target pos file.data).length - 1) % target.blocksize + 1) = 1 := by
  have prefixFits := fits.prefixFits
  have package := fits.package
  have same :
      (restBytes target pos file.data).length - 1 = file.data.length + 3 - target.capacity pos := by
    rw [fits.toFirstFits.length_rest]
    omega
  rw [same]
  exact fits.last

variable {chunks : List (Nat × List UInt8)}

theorem rawStored_of_written (fits : RawFits target pos file.data.length)
    (written : LoopWritten target (pos + 1) (restBytes target pos file.data) chunks) :
    RawStored target pos (sized file.data) ((pos, firstBytes target pos file.data) :: chunks) ∧
      (firstBytes target pos file.data).length = target.capacity pos ∧
      chunks.length = ((restBytes target pos file.data).length - 1) / target.blocksize + 1 := by
  obtain ⟨count, stored⟩ := written.all fits.last_rest
  refine ⟨?_, fits.toFirstFits.length_first, count⟩
  rw [fits.toFirstFits.parts]
  exact stored.cons _

theorem rawVerified_iff_held (heldSized : (held pos).length = target.capacity pos)
    (fits : RawFits target pos file.data.length)
    (written : LoopWritten target (pos + 1) (restBytes target pos file.data) chunks) :
    RawVerified held (sized file.data) ((pos, firstBytes target pos file.data) :: chunks) ↔
      Held held target pos file.data := by
  obtain ⟨stored, first, count⟩ := rawStored_of_written fits written
  rw [RawVerified, stored.blocks, List.length_cons, count, List.range'_succ,
    List.flatMap_cons, fits.toFirstFits.parts]
  exact prefix_append_iff (first.trans heldSized.symm)

theorem rawPasses_backup (driver : RawDriver env view target held)
    (fits : RawFits target pos file.data.length) (buffered : Buffered target)
    (start : file.pos = 0) {streampos : Nat} (record : 0 < streampos)
    (length : buf.length = target.bufsize) (inside : device.inside = true)
    (empty : device.stored = []) :
    Triple (Here view file device)
      (rawWriteAll env target pos streampos file.data.length buf >>= fun buf =>
        rawVerifyAll env target pos streampos file.data.length buf)
      (fun _ state =>
        ∃ after, Here view (file.advance file.data.length) after state ∧ after.inside = true ∧
          RawStored target pos (sized file.data) after.stored ∧
          RawVerified held (sized file.data) after.stored)
      (Stops env view fun after =>
        RawStored target pos (sized file.data) after.stored ∧
          ¬ RawVerified held (sized file.data) after.stored) := by
  apply (rawWriteAll_backup driver fits.toFirstFits buffered start record length inside).bind
  rintro filled state ⟨filledSized, chunks, after, arrived, afterInside, stored, loop⟩
  have whole := (rawStored_of_written fits loop).1
  have verified := rawVerified_iff_held (driver.held_length pos) fits loop
  rw [empty, List.nil_append] at stored
  rw [← stored] at whole verified
  refine
    ((rawVerifyAll_backup driver fits.toFirstFits buffered start record
      fits.firstRead fits.last_rest filledSized afterInside).stop_imp ?_).post_imp ?_ state arrived
  · rintro stop state stops
    apply stops.imp
    rintro final ⟨same, differs⟩
    rw [same, verified]
    exact ⟨whole, differs⟩
  · rintro _ state ⟨holds, final, here, finalInside, same⟩
    refine ⟨final, here, finalInside, ?_, ?_⟩
    · rw [same]
      exact whole
    · rw [same]
      exact verified.mpr holds

theorem FirstFits.buffered {disk : ITPDisk} {blocksize gapsize filesize : Nat}
    (fits : FirstFits (rawTarget disk blocksize gapsize filesize) pos filesize) :
    Buffered (rawTarget disk blocksize gapsize filesize) := by
  have limit :
      (rawTarget disk blocksize gapsize filesize).bufsize ≤ cfgUgBufSize := by
    rw [rawTarget]
    dsimp only
    split <;> omega
  exact ⟨fits.blocksize, fits.block.trans limit, fits.block⟩

section Function

variable {disk : ITPDisk} {blocksize gapsize position : Nat}

theorem ugUpgradeRawDataFrom_backup (config : UgConfig)
    (driver : RawDriver env view (rawTarget disk blocksize gapsize file.data.length) held)
    (raw : disk = .nand ∨ disk = .nor ∨ disk = .sd0 ∨ disk = .sd1)
    (fits :
      RawFits (rawTarget disk blocksize gapsize file.data.length)
        (position / add32 blocksize gapsize) file.data.length)
    (start : file.pos = 0) (empty : device.stored = [])
    (inside : device.inside = true) {streampos : Nat} (record : 0 < streampos) :
    Triple (fun state => state.device.disk = disk ∧ Here view file device state)
      (ugUpgradeRawDataFrom config env position file.data.length streampos)
      (fun _ state =>
        ∃ after, Here view (file.advance file.data.length) after state ∧ after.inside = true ∧
          RawStored (rawTarget disk blocksize gapsize file.data.length)
            (position / add32 blocksize gapsize) (sized file.data)
            after.stored ∧
          RawVerified held (sized file.data) after.stored)
      (Stops env view fun after =>
        RawStored (rawTarget disk blocksize gapsize file.data.length)
            (position / add32 blocksize gapsize) (sized file.data)
            after.stored ∧
          ¬ RawVerified held (sized file.data) after.stored) := by
  have buffered := fits.toFirstFits.buffered
  have nonzero : add32 blocksize gapsize ≠ 0 := fits.total
  rintro state ⟨rfl, here⟩
  have asked :
      Holds (ugGet fun state => state.device.disk) state
        (fun answer after => answer = state.device.disk ∧ Here view file device after)
        (Stops env view fun after =>
          RawStored (rawTarget state.device.disk blocksize gapsize file.data.length)
              (position / add32 blocksize gapsize) (sized file.data)
              after.stored ∧
            ¬ RawVerified held (sized file.data) after.stored) :=
    ⟨rfl, here⟩
  apply asked.bind
  rintro _ state' ⟨rfl, here'⟩
  revert state' here'
  apply require_works (by decide) inside fun _ => raw
  intro _
  apply ask_here
  intro world same
  rw [driver.openDisk, same]
  apply require_works (by decide) inside fun works => works.openDisk _ _ world
  intro _
  apply ask_here
  intro world same
  obtain ⟨keeps, blockAnswer⟩ := driver.getBlockSize world
  rw [keeps, same]
  apply require_works (by decide) inside fun works => works.getBlockSize world
  intro blockKnown
  obtain ⟨size, answered⟩ := Option.isSome_iff_exists.mp blockKnown
  obtain rfl : size = blocksize := blockAnswer size answered
  rw [answered]
  apply ask_here
  intro world same
  obtain ⟨keeps, gapAnswer⟩ := driver.getGapSize world
  rw [keeps, same]
  apply require_works (by decide) inside fun works => works.getGapSize world
  intro gapKnown
  obtain ⟨gap, answered⟩ := Option.isSome_iff_exists.mp gapKnown
  obtain rfl : gap = gapsize := gapAnswer gap answered
  rw [answered]
  apply ask_here
  intro world same
  obtain ⟨allocated, sizes⟩ :=
    driver.malloc (rawTarget state.device.disk size gap file.data.length).bufsize world
  let moved : RawDevice :=
    { device with
      room := (rawTarget state.device.disk size gap file.data.length).bufsize }
  have there :
      view
          (env.malloc (rawTarget state.device.disk size gap file.data.length).bufsize world).2 =
        moved := by
    rw [allocated, same]
  have movedInside : moved.inside = true := inside
  change
    Triple
      (Here view file
        (view (env.malloc (rawTarget state.device.disk size gap file.data.length).bufsize world).2))
      _ _ _
  rw [there]
  apply require_works (by decide) movedInside fun works => works.malloc _ world
  intro bufKnown
  obtain ⟨buf, answered⟩ := Option.isSome_iff_exists.mp bufKnown
  have length := sizes buf answered
  apply require_met nonzero
  rw [answered]
  exact rawPasses_backup driver fits buffered start record length movedInside empty

end Function

theorem readExactly_state {size : Nat} {state : UgState ω}
    {stop : UgStop → UgState ω → Prop} (within : state.file.pos + size ≤ state.file.size) :
    Triple (fun before => before = state) (ugReadExactly size ret : Ug ω (List UInt8))
      (fun bytes after =>
        bytes = slice state.file.pos size state.file.data ∧
          after = { state with file := state.file.advance size })
      stop := by
  have read :
      Triple (fun before => before = state) (ugRead size : Ug ω (List UInt8))
        (fun bytes after =>
          bytes = slice state.file.pos size state.file.data ∧
            after = { state with file := state.file.advance size })
        stop := by
    apply Triple.call
    rintro before rfl
    rw [itcStreamRead_within within]
    exact ⟨rfl, rfl⟩
  apply known_bind read
  apply require_met (length_slice within)
  exact Triple.pure fun _ same => ⟨rfl, same⟩

theorem rawFinish_here {streampos : Nat} (inside : device.inside = true)
    (driver : RawDriver env view target held) :
    Triple (Here view file device)
      (do
        ugTrySeek streampos .seekSet
        let ret ← ugCallMark env ugUpgradeBackupFinish
        ugRequire (ret = 0) ret)
      (fun _ state => view state.world = device) (Stops env view bad) := by
  have sought :
      Triple (Here view file device) (ugTrySeek streampos .seekSet : Ug ω Unit)
        (fun _ state => view state.world = device) (Stops env view bad) :=
    Triple.call fun _ here => here.2
  apply sought.bind_unit
  rintro state same
  have marked :
      Holds (ugCallMark env ugUpgradeBackupFinish) state
        (fun answer after => (RawWorks env → answer = 0) ∧ view after.world = device)
        (Stops env view bad) :=
    ⟨fun works => works.backupFinish state.world state.mark, (driver.markIo state.world).trans same⟩
  apply marked.bind
  rintro answer after ⟨zero, there⟩
  have requires :
      Triple (fun state => state = after) (ugRequire ((answer : Nat) = 0) answer : Ug ω Unit)
        (fun _ state => view state.world = device) (Stops env view bad) := by
    apply Triple.require_last
    · rintro failed state rfl
      have inside' : (view state.world).inside = true := by
        rw [there]
        exact inside
      exact
        ⟨⟨answer, Int.natCast_ne_zero.mpr failed, rfl⟩, inside',
          fun works => absurd (zero works) failed⟩
    · rintro _ state rfl
      exact there
  exact requires after rfl

end

/-!
# What a backup needs of the device

The sizes for which `ugUpgradeRawData` backs a package up.
-/

section

open Lib Lib.Checked Itc Ith

/-- A device on which everything succeeds.  New memory is full of `garbage`, and
behind the blocks that are read the second buffer holds `stale`. -/
def recorder (target : RawTarget) (held : Nat → List UInt8) (garbage : UInt8)
    (stale : List UInt8) : UgEnv RawDevice where
  markIo := fun device => (⟨true, true, true, true, true, true, .stored⟩, device)
  getTable := fun device => ([], device)
  format := fun _ device => (0, device)
  getPartition := fun _ device => ((0, 0, []), device)
  unmount := fun _ device => (0, device)
  createPartition := fun _ _ _ device => (0, device)
  forceMount := fun _ device => (0, device)
  saveFatExbr := fun device => ((), device)
  openDisk := fun _ _ device => (true, device)
  getBlockSize := fun device => (some target.blocksize, device)
  getGapSize := fun device => (some target.gapsize, device)
  lseek := fun pos device => (pos, { device with block := pos })
  read := fun count device =>
    ((count, window held device.block count ++ stale), device.read target count)
  write := fun buf count device => (count, device.write target buf count)
  malloc := fun size device => (some (List.replicate size garbage), { device with room := size })
  statvfs := fun _ device => (none, device)
  stat := fun _ device => (none, device)
  fopen := fun _ _ device => (true, device)
  fwrite := fun bytes device => (bytes.length, device)
  fread := fun count device => ((count, []), device)
  chdir := fun _ device => (0, device)
  mkdir := fun _ device => (0, device)

variable {target : RawTarget} {held : Nat → List UInt8} {garbage : UInt8}
  {stale : List UInt8}

theorem recorder_driver (length : ∀ block, (held block).length = target.capacity block) :
    RawDriver (recorder target held garbage stale) id target held where
  held_length := length
  openDisk := fun _ _ _ => rfl
  getBlockSize := fun _ => ⟨rfl, fun _ answered => (Option.some.inj answered).symm⟩
  getGapSize := fun _ => ⟨rfl, fun _ answered => (Option.some.inj answered).symm⟩
  malloc := fun size _ => by
    refine ⟨rfl, fun buf answered => ?_⟩
    rw [← Option.some.inj answered, List.length_replicate]
  lseek := fun _ _ => ⟨rfl, fun _ => rfl⟩
  write := fun _ _ _ => ⟨rfl, fun _ => rfl⟩
  read := fun _ _ => ⟨rfl, fun _ => ⟨rfl, List.prefix_append _ _⟩⟩
  markIo := fun _ => rfl

theorem recorder_works : RawWorks (recorder target held garbage stale) where
  openDisk := fun _ _ _ => rfl
  getBlockSize := fun _ => rfl
  getGapSize := fun _ => rfl
  malloc := fun _ _ => rfl
  lseek := fun _ _ => rfl
  write := fun _ _ _ => rfl
  read := fun _ _ => rfl
  backupFinish := by
    intro _ mark
    rw [ugUpgradeBackupFinish]
    split <;> rfl

/-- Before a backup to `disk`, on a device without any writes. -/
def backupState (disk : ITPDisk) (data : List UInt8)
    (fits : data.length < 2 ^ 31) : UgState RawDevice where
  file := ⟨.array, data, 0, fits⟩
  world := ⟨0, [], 0, true⟩
  mark := (quietState data fits).mark
  device := ⟨0, 0, 0, disk, [], false, false, false⟩
  partition := 0
  drive := []
  finished := false

theorem RawBackup.recorded {disk : ITPDisk}
    {blocksize gapsize position : Nat} (held : Nat → List UInt8)
    (garbage : UInt8) (stale data : List UInt8) (fits : data.length < 2 ^ 31)
    (backup : RawBackup disk blocksize gapsize position data.length)
    (length :
      ∀ block, (held block).length = (rawTarget disk blocksize gapsize data.length).capacity block)
    (record : BackupRecord (backupState disk data fits).file position) (config : UgConfig) :
    RawStored (rawTarget disk blocksize gapsize data.length)
      (position / add32 blocksize gapsize) (sized data)
      ((ugUpgradeRawData config
          (recorder (rawTarget disk blocksize gapsize data.length) held garbage stale)).outcome
        (backupState disk data fits)).2.world.stored := by
  have holds :=
    backup RawDevice config
      (recorder (rawTarget disk blocksize gapsize data.length) held garbage stale)
      id held (backupState disk data fits) (recorder_driver length) rfl rfl rfl
      record rfl rfl
  cases ran :
      (ugUpgradeRawData config
          (recorder (rawTarget disk blocksize gapsize data.length) held garbage
            stale)).outcome (backupState disk data fits) with
  | mk result after =>
    cases result with
    | ok value => exact (holds.ok ran).2.1
    | error stop => exact ((holds.error ran).2.2 recorder_works).1

end

end IteSdk.Upgrade
