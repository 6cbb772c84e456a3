import IteSdk.Upgrade.Package

/-!
# How far the blocks of a package reach

Every handler that goes through leaves the stream behind its block.
-/

namespace IteSdk.Upgrade

section

open Lib Lib.Checked Itc Ith

variable {ω α β : Type}
  {file : ITCStream} {finished : Bool} {inBounds : Prop}

theorem field_slice {offset count start length : Nat} (bytes : List UInt8)
    (inside : offset + count ≤ length) :
    field offset count (slice start length bytes) = field (start + offset) count bytes := by
  have window :
      slice offset count (slice start length bytes) = slice (start + offset) count bytes := by
    rw [slice, drop_slice]
    exact take_slice _ _ (by omega)
  rw [field, window, field]

theorem ugUpgradeEnd_spec :
    Triple (At file finished) (ugUpgradeEnd : Ug ω Unit)
      (fun _ => Done file 4 finished) (Fails inBounds finished) :=
  readExactly_bind (by decide) (Or.inl (by decide)) fun within =>
    Triple.pure fun _ here => ⟨within, here⟩

theorem ugUpgradeUnformatted_spec :
    Triple (At file finished) (ugUpgradeUnformatted : Ug ω Unit)
      (fun _ => Done file 4 finished) (Fails inBounds finished) :=
  readExactly_bind (by decide) (Or.inl (by decide)) fun within =>
    Triple.pure fun _ here => ⟨within, here⟩

variable {stop : UgStop → UgState ω → Prop} {next : Unit → Ug ω β} {post : β → UgState ω → Prop}

theorem setDevice_bind {function : UGDevice → UGDevice}
    (rest : Triple (At file finished) (next ()) post stop) :
    Triple (At file finished) (ugSetDevice function >>= next) post stop :=
  set_bind (fun _ => ⟨rfl, rfl⟩) rest

/-- What a device block must keep to: a known type, and a partition table that
the array of the device has room for. -/
structure DeviceInBounds (config : UgConfig) (file : ITCStream) : Prop where
  deviceType : config.ugInfo = true → field file.pos 4 file.data < deviceCount
  tableFits :
    itcStreamCopied (file.advance 12) (partitionTableSize (field (file.pos + 8) 4 file.data)) ≤
      8 * itpMaxPartition
  countFits :
    file.pos + 12 + partitionTableSize (field (file.pos + 8) 4 file.data) ≤ file.size →
      intBound (field (file.pos + 8) 4 file.data) ≤ itpMaxPartition

variable {config : UgConfig}

theorem ugUpgradeDevice_spec
    (kept : inBounds → file.pos + 12 ≤ file.size → DeviceInBounds config file) :
    Triple (At file finished) (ugUpgradeDevice config : Ug ω Unit)
      (fun _ => Done file (12 + partitionTableSize (field (file.pos + 8) 4 file.data)) finished)
      (Fails inBounds finished) := by
  apply readExactly_bind (by decide) (Or.inl (by decide))
  intro header
  rw [field_slice _ (by decide), field_slice _ (by decide), field_slice _ (by decide)]
  apply setDevice_bind
  apply bounds_bind (fun holds => (kept holds header).deviceType)
  intro known
  apply readInto_bind (by decide) header (fun _ holds => (kept holds header).tableFits)
  intro table
  apply bounds_bind (fun holds => (kept holds header).countFits table)
  intro fits
  apply setDevice_bind
  cases deviceDisk (field (file.pos + 0) 4 file.data) with
  | some disk =>
    apply Triple.call
    rintro state here
    exact Done.advance ⟨table, here⟩
  | none => exact Triple.throw fun _ here => Fails.returned (by decide) here.2

theorem formatDrives_spec (env : UgEnv ω) (drives : List (ITPDriveStatus × Nat)) :
    Triple (At file finished) (formatDrives env drives)
      (fun _ => At file finished) (Fails inBounds finished) := by
  induction drives with
  | nil => exact stay_at
  | cons drive rest ih =>
    apply ask_bind
    intro ret
    exact require_bind (fun failed => failed) fun _ => ih

theorem repartition_spec (env : UgEnv ω) (device : UGDevice) (disk : ITPDisk) :
    Triple (At file finished) (repartition env device disk)
      (fun _ => At file finished) (Fails inBounds finished) := by
  apply ask_bind
  intro _
  apply ask_bind
  intro created
  apply require_bind (fun failed => failed)
  intro _
  apply ask_bind
  intro mounted
  apply require_bind (fun failed => failed)
  intro _
  apply ask_bind
  intro table
  apply (formatDrives_spec env _).bind_unit
  exact Triple.provided (fun _ => ask_at _) fun _ _ here => here

theorem ugUpgradeDoPartition_spec (env : UgEnv ω) :
    Triple (At file finished) (ugUpgradeDoPartition env)
      (fun _ => At file finished) (Fails inBounds finished) := by
  apply get_bind
  intro state _
  cases deviceDisk state.device.deviceType with
  | none => exact Triple.throw fun _ here => Fails.returned (by decide) here.2
  | some disk =>
    refine Triple.ite (fun _ => stay_at) fun _ => ?_
    refine Triple.ite (fun _ => repartition_spec env _ _) fun _ => ?_
    refine Triple.ite (fun _ => stay_at) fun _ => ?_
    apply ask_bind
    intro par
    exact Triple.ite (fun _ => stay_at) fun _ => repartition_spec env _ _

theorem ugUpgradePartition_spec (env : UgEnv ω) (format : Bool) :
    Triple (At file finished) (ugUpgradePartition env format)
      (fun _ => Done file 8 finished) (Fails inBounds finished) := by
  apply readExactly_bind (by decide) (Or.inl (by decide))
  intro header
  apply get_bind
  intro _ _
  apply get_bind
  intro before _
  apply ask_bind
  intro table
  cases (drivesOf _ table)[before.partition]? with
  | none => exact Triple.throw fun _ here => Fails.returned (by decide) here.2
  | some drive =>
    refine stays_bind (Triple.provided (fun _ => ?_) fun _ _ here => here) ?_
    · exact ask_bind fun _ => stay_at
    · exact Triple.call fun _ here => ⟨header, here⟩

/-! ## Directories and files -/

/-- The name of a directory or a file fits behind the name of its drive. -/
def NameInBounds (config : UgConfig) (file : ITCStream) : Prop :=
  itcStreamCopied (file.advance 4) (field file.pos 4 file.data) ≤ config.pathMax - 2

theorem ugUpgradeDirectory_spec (env : UgEnv ω)
    (kept : inBounds → file.pos + 4 ≤ file.size → NameInBounds config file) :
    Triple (At file finished) (ugUpgradeDirectory config env)
      (fun _ => Done file (4 + field file.pos 4 file.data) finished)
      (Fails inBounds finished) := by
  apply readExactly_bind (by decide) (Or.inl (by decide))
  intro header
  rw [field_slice _ (by decide), Nat.add_zero]
  apply readInto_bind (by decide) header (fun _ holds => kept holds header)
  intro within
  apply get_bind
  intro _ _
  apply ask_bind
  intro changed
  apply require_bind (fun _ => by decide)
  intro _
  apply ask_bind
  intro _
  exact Triple.pure fun _ here => Done.advance ⟨within, here⟩

theorem encFread_at {env : UgEnv ω} {count : Nat} (inside : file.pos ≤ file.size) :
    Triple (At file finished) (encFread config env count)
      (fun bytes state =>
        state.finished = finished ∧ (bytes.length = count → Done file count finished state))
      stop := by
  have read :
      Triple (At file finished) (ugRead count)
        (fun bytes state =>
          state.finished = finished ∧ (bytes.length = count → Done file count finished state))
        stop :=
    (read_at (Or.inr inside)).post_imp fun _ _ here => ⟨here.1, fun full => (here.2 full).2⟩
  apply Triple.ite (fun _ => read)
  intro _
  apply ask_bind
  intro buf
  cases buf with
  | none =>
    apply Triple.pure
    intro state here
    refine ⟨here.2, ?_⟩
    rintro rfl
    exact Done.zero inside here
  | some _ =>
    apply read.bind
    intro bytes
    apply Triple.pure
    intro state here
    rw [List.length_mapIdx]
    exact here

theorem pieceSize_le (remainsize bufsize : Nat) :
    (if remainsize < bufsize then remainsize else bufsize) ≤ remainsize := by
  split <;> omega

theorem pieceSize_pos {remainsize bufsize : Nat}
    (progress : 0 < remainsize → 0 < bufsize) (remains : 0 < remainsize) :
    0 < if remainsize < bufsize then remainsize else bufsize := by
  split
  · exact remains
  · exact progress remains

theorem ugFileLoop_spec {env : UgEnv ω} {bufsize : Nat}
    {ret : Int} {piece : List UInt8 → Ug ω Unit} (nonzero : ret ≠ 0)
    (pieceStays :
      ∀ (there : ITCStream) buf,
        Triple (At there finished) (piece buf) (fun _ => At there finished)
          (Fails inBounds finished))
    {fuel remainsize : Nat} (enough : remainsize < fuel)
    (progress : 0 < remainsize → 0 < bufsize) (inside : file.pos ≤ file.size) :
    Triple (At file finished) (ugFileLoop config env bufsize ret piece fuel remainsize)
      (fun _ => Done file remainsize finished) (Fails inBounds finished) := by
  induction fuel generalizing file remainsize with
  | zero => omega
  | succ fuel ih =>
    apply (encFread_at inside).bind
    intro buf
    apply length_bind nonzero
    intro state done
    have shorter := pieceSize_le remainsize bufsize
    have longer := pieceSize_pos progress
    refine (pieceStays _ buf).bind_unit (Triple.ite ?_ ?_) state done.2
    · intro more
      refine Triple.post_imp (ih ?_ (fun _ => progress ?_) done.1) fun _ _ arrived => ?_
      · omega
      · omega
      have total := arrived.advance
      rwa [Nat.add_sub_cancel' shorter] at total
    · intro last
      have all :
          (if remainsize < bufsize then remainsize else bufsize) = remainsize := by
        omega
      rw [all] at done ⊢
      exact Triple.pure fun _ here => ⟨done.1, here⟩

theorem writePiece_spec (env : UgEnv ω) (buf : List UInt8) :
    Triple (At file finished) (writePiece env buf)
      (fun _ => At file finished) (Fails inBounds finished) := by
  apply ask_bind
  intro size2
  exact (require_at fun _ => by decide).post_imp fun _ _ here => here.2

theorem verifyPiece_spec (env : UgEnv ω) (buf : List UInt8) :
    Triple (At file finished) (verifyPiece env buf)
      (fun _ => At file finished) (Fails inBounds finished) := by
  apply ask_bind
  intro buf2
  apply require_bind (fun _ => by decide)
  intro _
  exact (require_at fun _ => by decide).post_imp fun _ _ here => here.2

theorem checkCapacity_spec (env : UgEnv ω) (drive filename : List UInt8) (filesize : Nat) :
    Triple (At file finished) (checkCapacity env drive filename filesize)
      (fun _ => At file finished) (Fails inBounds finished) := by
  apply ask_bind
  intro info
  cases info with
  | none => exact stay_at
  | some avail =>
    apply ask_bind
    intro buffer
    exact (require_at fun _ => by decide).post_imp fun _ _ here => here.2

theorem seekBack_bind {count : Nat} {ret : Int} (nonzero : ret ≠ 0)
    (rest : Triple (At file finished) (next ()) post (Fails inBounds finished)) :
    Triple (At (file.advance count) finished) (ugSeek (-count) .seekCur ret >>= next) post
      (Fails inBounds finished) := by
  refine Triple.bind_unit ?_ rest
  apply get_bind
  rintro state ⟨there, -⟩
  rw [there]
  cases sought : itcStreamSeek (file.advance count) (-count) .seekCur with
  | none => exact Triple.throw fun _ here => Fails.returned nonzero here.2
  | some back =>
    apply Triple.call
    rintro after ⟨-, same⟩
    refine ⟨?_, same⟩
    rw [itcStreamSeek_eq sought]
    simp [ITCStream.advance]

theorem ugUpgradeFileContent_spec (env : UgEnv ω)
    (drive filename : List UInt8) (filesize : Nat) (inside : file.pos ≤ file.size) :
    Triple (At file finished) (ugUpgradeFileContent config env drive filename filesize)
      (fun _ => Done file filesize finished) (Fails inBounds finished) := by
  have progress :
      0 < filesize → 0 < if cfgUgBufSize < filesize then cfgUgBufSize else filesize := by
    intro some
    split
    · decide
    · exact some
  apply ask_bind
  intro buf
  apply require_bind (fun _ => by decide)
  intro _
  apply (checkCapacity_spec env _ _ _).bind_unit
  apply ask_bind
  intro outfile
  apply require_bind (fun _ => by decide)
  intro _
  apply (ugFileLoop_spec (by decide) (fun _ => writePiece_spec env)
    (Nat.lt_succ_self _) progress inside).bind_unit
  rintro state ⟨within, here⟩
  revert here state
  apply ask_bind
  intro buf2
  apply require_bind (fun _ => by decide)
  intro _
  apply ask_bind
  intro infile
  apply require_bind (fun _ => by decide)
  intro _
  apply seekBack_bind (by decide)
  exact ugFileLoop_spec (by decide) (fun _ => verifyPiece_spec env)
    (Nat.lt_succ_self _) progress inside

/-- The bytes of a file block: its name, the length of its content and the
content. -/
def fileLength (data : List UInt8) (pos : Nat) : Nat :=
  4 + (field pos 4 data + (4 + field (pos + 4 + field pos 4 data) 4 data))

theorem ugUpgradeFile_spec (env : UgEnv ω)
    (kept : inBounds → file.pos + 4 ≤ file.size → NameInBounds config file) :
    Triple (At file finished) (ugUpgradeFile config env)
      (fun _ => Done file (fileLength file.data file.pos) finished)
      (Fails inBounds finished) := by
  apply readExactly_bind (by decide) (Or.inl (by decide))
  intro header
  rw [field_slice _ (by decide), Nat.add_zero]
  apply readInto_bind (by decide) header (fun _ holds => kept holds header)
  intro name
  apply readExactly_bind (by decide) (Or.inl (by decide))
  intro size
  rw [field_slice _ (by decide), Nat.add_zero]
  apply get_bind
  intro _ _
  exact (ugUpgradeFileContent_spec env _ _ _ size).post_imp
    fun _ _ done => done.advance.advance.advance

end

/-!
# How far raw data reaches

A raw device reads and writes whole blocks, so the loops of `ug_rawdata.c` move
on only because a block size of zero stops them.
-/

section

open Lib Lib.Checked Itc Ith

variable {ω α β : Type}
  {file : ITCStream} {finished : Bool} {inBounds : Prop}
  {env : UgEnv ω} {target : RawTarget} {ret : Int}

def RawTarget.Sound (target : RawTarget) : Prop := add32 target.blocksize target.gapsize ≠ 0

theorem RawTarget.readsize_le (target : RawTarget) (cursor : RawCursor) :
    target.readsize cursor ≤ cursor.remainsize := by
  unfold RawTarget.readsize
  split <;> exact Nat.min_le_left _ _

variable {cursor : RawCursor} {block : Nat → List UInt8 → Ug ω Unit}

theorem RawTarget.readsize_pos (sound : target.Sound)
    (block : target.blocksize ≠ 0) (remains : 0 < cursor.remainsize) :
    0 < target.readsize cursor := by
  unfold RawTarget.readsize
  split
  · exact Nat.lt_min.mpr ⟨remains, Nat.pos_of_ne_zero sound⟩
  · exact Nat.lt_min.mpr ⟨remains, Nat.pos_of_ne_zero block⟩

/-- A block action keeps to its place in the stream and needs a block size. -/
def BlockStays (inBounds : Prop) (finished : Bool) (target : RawTarget)
    (block : List UInt8 → Ug ω Unit) : Prop :=
  ∀ (there : ITCStream) buf,
    Triple (At there finished) (block buf)
      (fun _ state => target.blocksize ≠ 0 ∧ At there finished state)
      (Fails inBounds finished)

variable {post : β → UgState ω → Prop}

theorem blocks_bind {size : Nat} {next : Nat → Ug ω β}
    (rest :
      ∀ count, target.blocksize ≠ 0 →
        Triple (At file finished) (next count) post (Fails inBounds finished)) :
    Triple (At file finished) (target.blocks size >>= next) post (Fails inBounds finished) := by
  have divides :
      Triple (At file finished) (target.blocks size : Ug ω Nat)
        (fun _ state => target.blocksize ≠ 0 ∧ At file finished state)
        (Fails inBounds finished) :=
    rawData_bind fun nonzero => Triple.pure fun _ here => ⟨nonzero, here⟩
  exact divides.bind fun count state here => rest count here.1 state here.2

theorem rawWrite_stays {size : Nat} (nonzero : ret ≠ 0) :
    BlockStays inBounds finished target (rawWrite env target size ret) := by
  intro there buf
  apply blocks_bind
  intro alignsize block
  apply ask_bind
  intro size2
  exact (require_at fun _ => nonzero).post_imp fun _ _ here => ⟨block, here.2⟩

theorem rawVerify_stays {size compared : Nat} {verifyRet : Int}
    (nonzero : ret ≠ 0) (verifyNonzero : verifyRet ≠ 0) :
    BlockStays inBounds finished target (rawVerify env target size compared ret verifyRet) := by
  intro there buf
  apply blocks_bind
  intro alignsize block
  apply ask_bind
  intro buf2
  apply require_bind (fun _ => nonzero)
  intro _
  exact (require_at fun _ => verifyNonzero).post_imp fun _ _ here => ⟨block, here.2⟩

theorem rawFill_bind {offset size : Nat} {buf : List UInt8} {next : List UInt8 → Ug ω β}
    (nonzero : ret ≠ 0) (inside : file.pos ≤ file.size)
    (rest :
      ∀ filled, file.pos + size ≤ file.size →
        Triple (At (file.advance size) finished) (next filled) post (Fails inBounds finished)) :
    Triple (At file finished) (rawFill target offset size ret buf >>= next)
      post (Fails inBounds finished) := by
  have fills :
      Triple (At file finished) (rawFill target offset size ret buf : Ug ω (List UInt8))
        (fun _ => Done file size finished) (Fails inBounds finished) := by
    apply rawData_bind
    intro _
    apply readInto_bind nonzero inside (by nofun)
    intro within
    exact Triple.pure fun _ here => ⟨within, here⟩
  exact fills.bind fun filled state done => rest filled done.1 state done.2

theorem rawLoop_spec (nonzero : ret ≠ 0) (sound : target.Sound)
    (blockStays : ∀ size, BlockStays inBounds finished target (block size))
    {fuel : Nat} (enough : cursor.remainsize < fuel) (inside : file.pos ≤ file.size) :
    Triple (At file finished) (rawLoop target ret block fuel cursor)
      (fun _ => Done file cursor.remainsize finished)
      (Fails inBounds finished) := by
  induction fuel generalizing file cursor with
  | zero => omega
  | succ fuel ih =>
    have shorter := target.readsize_le cursor
    apply rawFill_bind nonzero inside
    intro buf within
    apply (blockStays _ _ buf).bind
    rintro - state ⟨whole, here⟩
    have longer : 0 < cursor.remainsize → 0 < target.readsize cursor :=
      RawTarget.readsize_pos sound whole
    refine Triple.ite ?_ ?_ state here
    · intro more
      refine Triple.post_imp (ih ?_ within) fun _ _ arrived => ?_
      · dsimp only
        omega
      have total := arrived.advance
      rwa [Nat.add_sub_cancel' shorter] at total
    · intro last
      have all : target.readsize cursor = cursor.remainsize := by omega
      rw [all] at within ⊢
      exact Triple.pure fun _ there => ⟨within, there⟩

def Started (file : ITCStream) (remainsize : Nat) (finished : Bool)
    (cursor : RawCursor) (state : UgState ω) : Prop :=
  ∃ count ≤ remainsize, cursor.remainsize = remainsize - count ∧ Done file count finished state

theorem rawFirst_spec {rawdataSize : Nat} (nonzero : ret ≠ 0)
    (blockStays : ∀ size, BlockStays inBounds finished target (block size))
    (inside : file.pos ≤ file.size) :
    Triple (At file finished) (rawFirst target ret rawdataSize block cursor)
      (Started file cursor.remainsize finished) (Fails inBounds finished) := by
  have shorter := target.readsize_le cursor
  apply rawData_bind
  intro _
  apply rawFill_bind nonzero inside
  intro buf within
  apply (blockStays _ _ buf).bind
  intro _
  apply Triple.pure
  rintro state ⟨-, here⟩
  exact ⟨_, by omega, rfl, within, here⟩

theorem rawLoop_of_started {filesize : Nat} (nonzero : ret ≠ 0) (sound : target.Sound)
    (blockStays : ∀ size, BlockStays inBounds finished target (block size)) (cursor : RawCursor) :
    Triple (Started file filesize finished cursor)
      (rawLoop target ret block (filesize + 1) cursor)
      (fun _ => Done file filesize finished) (Fails inBounds finished) := by
  rintro state ⟨count, fits, remains, within, here⟩
  have loop :
      Triple (At (file.advance count) finished) (rawLoop target ret block (filesize + 1) cursor)
        (fun _ => Done (file.advance count) cursor.remainsize finished)
        (Fails inBounds finished) :=
    rawLoop_spec nonzero sound blockStays (by omega) within
  refine (loop.post_imp fun _ _ arrived => ?_) state here
  have total := arrived.advance
  rwa [remains, Nat.add_sub_cancel' fits] at total

section All

variable {pos streampos filesize : Nat} {buf : List UInt8}

theorem rawWriteAll_spec (sound : target.Sound) (inside : file.pos ≤ file.size) :
    Triple (At file finished) (rawWriteAll env target pos streampos filesize buf)
      (fun _ => Done file filesize finished) (Fails inBounds finished) := by
  apply ask_bind
  intro pos2
  apply require_bind (fun _ => by decide)
  intro _
  refine Triple.bind (Triple.ite (fun _ => ?_) fun _ => ?_)
    (rawLoop_of_started (by decide) sound fun _ => rawWrite_stays (by decide))
  · exact rawFirst_spec (by decide) (fun _ => rawWrite_stays (by decide)) inside
  · exact Triple.pure fun _ here =>
      ⟨0, Nat.zero_le _, rfl, Done.zero inside here⟩

theorem seekStart_bind {there : ITCStream} {next : Unit → Ug ω β}
    {post : β → UgState ω → Prop} (nonzero : ret ≠ 0)
    (rest : Triple (At { there with pos := 0 } finished) (next ()) post (Fails inBounds finished)) :
    Triple (At there finished) (ugSeek 0 .seekSet ret >>= next) post (Fails inBounds finished) := by
  refine Triple.bind_unit ?_ rest
  apply get_bind
  rintro state ⟨here, -⟩
  rw [here]
  cases sought : itcStreamSeek there 0 .seekSet with
  | none => exact Triple.throw fun _ here => Fails.returned nonzero here.2
  | some start =>
    apply Triple.call
    rintro after ⟨-, same⟩
    exact ⟨itcStreamSeek_set sought, same⟩

theorem rawVerifyAll_spec (sound : target.Sound)
    (whole : 0 < streampos → file.pos = 0) (inside : file.pos ≤ file.size) :
    Triple (At (file.advance filesize) finished)
      (rawVerifyAll env target pos streampos filesize buf)
      (fun _ => Done file filesize finished) (Fails inBounds finished) := by
  apply ask_bind
  intro pos2
  apply require_bind (fun _ => by decide)
  intro _
  apply ask_bind
  intro buf2
  apply require_bind (fun _ => by decide)
  intro _
  have starts :
      Triple (At (file.advance filesize) finished)
        (rawVerifyStart env target streampos filesize ⟨pos2, filesize, buf⟩)
        (Started file filesize finished) (Fails inBounds finished) := by
    refine Triple.ite (fun first => ?_) fun _ => ?_
    · have start :
          ({ file.advance filesize with pos := 0 } : ITCStream) = file := by
        rw [← whole first]
        rfl
      apply seekStart_bind (by decide)
      rw [start]
      exact rawFirst_spec (by decide) (fun _ => rawVerify_stays (by decide) (by decide)) inside
    · apply seekBack_bind (by decide)
      exact Triple.pure fun _ here => ⟨0, Nat.zero_le _, rfl, Done.zero inside here⟩
  apply starts.bind
  intro cursor
  apply Triple.bind
    (rawLoop_of_started (by decide) sound (fun _ => rawVerify_stays (by decide) (by decide)) cursor)
  intro _
  exact Triple.pure fun _ done => done

theorem ugUpgradeRawDataFrom_spec {config : UgConfig} {position : Nat}
    (whole : 0 < streampos → file.pos = 0) (inside : file.pos ≤ file.size) :
    Triple (At file finished) (ugUpgradeRawDataFrom config env position filesize streampos)
      (fun _ => Done file filesize finished) (Fails inBounds finished) := by
  apply get_bind
  intro before _
  apply require_bind (fun _ => by decide)
  intro _
  apply ask_bind
  intro opened
  apply require_bind (fun _ => by decide)
  intro _
  apply ask_bind
  intro blocksize
  apply require_bind (fun _ => by decide)
  intro _
  apply ask_bind
  intro gapsize
  apply require_bind (fun _ => by decide)
  intro _
  apply ask_bind
  intro buf
  apply require_bind (fun _ => by decide)
  intro _
  apply rawData_bind
  intro nonzero
  have sound (bufsize : Nat) :
      RawTarget.Sound ⟨before.device.disk, blocksize.getD 0, gapsize.getD 0, bufsize⟩ :=
    nonzero
  apply (rawWriteAll_spec (sound _) inside).bind
  rintro written state ⟨-, here⟩
  exact rawVerifyAll_spec (sound _) whole inside state here

end All

/-- A seek back to a place where the stream has been, which fails only at the
end of an array stream. -/
theorem trySeek_bind {offset : Int} {target : Nat} {there : ITCStream} {next : Unit → Ug ω β}
    {stop : UgStop → UgState ω → Prop} (reaches : offset = target)
    (inside : target < there.size ∨ there.pos = target)
    (rest : Triple (At { there with pos := target } finished) (next ()) post stop) :
    Triple (At there finished) (ugTrySeek offset .seekSet >>= next) post stop := by
  subst reaches
  refine Triple.bind_unit (Triple.call ?_) rest
  rintro state ⟨rfl, same⟩
  refine ⟨?_, same⟩
  rcases inside with within | stays
  · rw [itcStreamSeek_within rfl within, Option.getD_some]
  · cases sought : itcStreamSeek state.file target .seekSet with
    | none => rw [← stays, Option.getD_none]
    | some moved => exact itcStreamSeek_set sought

theorem ugUpgradeRawData_spec {config : UgConfig} :
    Triple (At file finished) (ugUpgradeRawData config env)
      (fun _ => Done file (8 + field (file.pos + 4) 4 file.data) finished)
      (Fails inBounds finished) := by
  apply readExactly_bind (by decide) (Or.inl (by decide))
  intro header
  rw [field_slice _ (by decide), field_slice _ (by decide)]
  apply get_bind
  intro before _
  apply Triple.ite
  · intro _
    exact (ugUpgradeRawDataFrom_spec (by nofun) header).post_imp fun _ _ done => done.advance
  intro empty
  rw [not_not.mp empty]
  refine Triple.ite (fun _ => Triple.pure fun _ here => ⟨header, here⟩) ?_
  intro _
  apply get_bind
  rintro told ⟨toldHere, -⟩
  rw [toldHere]
  apply trySeek_bind Int.natCast_zero.symm (Or.inl (by simp only [ITCStream.advance_size]; omega))
  apply get_bind
  rintro sized ⟨sizedHere, -⟩
  rw [sizedHere]
  apply Triple.bind (ugUpgradeRawDataFrom_spec (fun _ => rfl) (Nat.zero_le _))
  rintro _ state ⟨-, here⟩
  refine trySeek_bind rfl ?_ ?_ state here
  · have told : itcStreamTell (file.advance 8) = file.pos + 8 := rfl
    simp only [told, ITCStream.advance_size, ITCStream.advance_pos]
    unfold ITCStream.size at header ⊢
    dsimp only [ITCStream.advance_data]
    omega
  apply callMark_bind
  intro ret
  apply (require_at Int.natCast_ne_zero.mpr).post_imp
  rintro _ _ ⟨-, there⟩
  exact ⟨header, there⟩

end

end IteSdk.Upgrade
