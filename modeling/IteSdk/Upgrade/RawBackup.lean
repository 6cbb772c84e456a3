import IteSdk.Upgrade.RawData

/-!
# Backing a package up

The loops of `ug_rawdata.c` over the blocks of a raw device, for a block size
that they can deal with.
-/

namespace IteSdk.Upgrade

open Lib Lib.Checked Itc Ith

variable {ω α β : Type} {env : UgEnv ω} {view : ω → RawDevice}
  {target : RawTarget} {held : Nat → List UInt8} {file : ITCStream}
  {device : RawDevice} {bad : RawDevice → Prop} {buf : List UInt8}
  {ret : Int}

theorem RawTarget.count_le {size : Nat} (block : target.blocksize ≠ 0)
    (small : target.blocksize ≤ cfgUgBufSize)
    (fits : size ≤ target.blocksize) : target.count size ≤ 1 := by
  have few : cfgUgBufSize = 131072 := rfl
  have bound :
      size + (target.blocksize - 1) &&& (2 ^ 32 - 1 - (target.blocksize - 1)) ≤
        size + (target.blocksize - 1) :=
    Nat.and_le_left
  rw [RawTarget.count, ithAlignUp, sub32_of_le (by omega) (by omega), add32_of_lt (by omega)]
  apply Nat.le_of_lt_succ
  rw [Nat.div_lt_iff_lt_mul (by omega)]
  omega

theorem RawTarget.count_blocksize (block : target.blocksize ≠ 0)
    (small : target.blocksize ≤ cfgUgBufSize) :
    target.count target.blocksize = 1 := by
  have few : cfgUgBufSize = 131072 := rfl
  apply Nat.le_antisymm (count_le block small (Nat.le_refl _))
  have fits : target.blocksize + (target.blocksize - 1) < 2 ^ 32 := by omega
  have maskFits : target.blocksize - 1 < 2 ^ 32 := by omega
  have bound := (land_mask_bounds fits maskFits).2
  rw [RawTarget.count, ithAlignUp, sub32_of_le (by omega) (by omega),
    add32_of_lt (by omega), Nat.le_div_iff_mul_le (by omega)]
  omega

def Here (view : ω → RawDevice) (file : ITCStream) (device : RawDevice)
    (state : UgState ω) : Prop :=
  state.file = file ∧ view state.world = device

/-- How a backup stops: with an error, with the buffers as they should be, and
for a reason if no call has failed. -/
def Stops (env : UgEnv ω) (view : ω → RawDevice) (bad : RawDevice → Prop)
    (stop : UgStop) (state : UgState ω) : Prop :=
  (∃ ret ≠ 0, stop = .returned ret) ∧ (view state.world).inside = true ∧
    (RawWorks env → bad (view state.world))

variable {next : α → Ug ω β} {block : Nat}

variable {post : β → UgState ω → Prop} {stop : UgStop → UgState ω → Prop}

theorem ask_here {function : ω → α × ω}
    (rest :
      ∀ world, view world = device →
        Triple (Here view file (view (function world).2)) (next (function world).1) post stop) :
    Triple (Here view file device) (ugAsk function >>= next) post stop := by
  rintro state ⟨sameFile, sameDevice⟩
  have called :
      Holds (ugAsk function) state
        (fun answer after =>
          answer = (function state.world).1 ∧ Here view file (view (function state.world).2) after)
        stop :=
    ⟨rfl, sameFile, rfl⟩
  apply called.bind
  rintro _ after ⟨rfl, there⟩
  exact rest state.world sameDevice after there

theorem require_works {condition : Prop} [Decidable condition] {next : Unit → Ug ω β}
    (nonzero : ret ≠ 0) (inside : device.inside = true) (works : RawWorks env → condition)
    (met : condition → Triple (Here view file device) (next ()) post (Stops env view bad)) :
    Triple (Here view file device) (ugRequire condition ret >>= next) post
      (Stops env view bad) := by
  apply Triple.require _ met
  rintro unmet state ⟨_, rfl⟩
  exact ⟨⟨ret, nonzero, rfl⟩, inside, fun all => absurd (works all) unmet⟩

theorem require_met {condition : Prop} [Decidable condition] {error : UgStop}
    {next : Unit → Ug ω β} {pre : UgState ω → Prop} (met : condition)
    (rest : Triple pre (next ()) post stop) :
    Triple pre (Checked.require condition error >>= next) post stop :=
  Triple.require (fun unmet => absurd met unmet) fun _ => rest

theorem known_bind {program : Ug ω α} {value : α} {pre middle : UgState ω → Prop}
    (first : Triple pre program (fun answer state => answer = value ∧ middle state) stop)
    (rest : Triple middle (next value) post stop) :
    Triple pre (program >>= next) post stop := by
  apply first.bind
  rintro _ state ⟨rfl, there⟩
  exact rest state there

theorem get_here {function : UgState ω → α}
    (rest :
      ∀ state, Here view file device state →
        Triple (Here view file device) (next (function state)) post stop) :
    Triple (Here view file device) (ugGet function >>= next) post stop := by
  intro state here
  have called :
      Holds (ugGet function) state
        (fun answer after => answer = function state ∧ Here view file device after)
        stop :=
    ⟨rfl, here⟩
  apply called.bind
  rintro _ after ⟨rfl, there⟩
  exact rest state here after there

theorem readExactly_here {size : Nat} (within : file.pos + size ≤ file.size) :
    Triple (Here view file device) (ugReadExactly size ret : Ug ω (List UInt8))
      (fun bytes state =>
        bytes = slice file.pos size file.data ∧ Here view (file.advance size) device state)
      stop := by
  have read :
      Triple (Here view file device) (ugRead size : Ug ω (List UInt8))
        (fun bytes state =>
          bytes = slice file.pos size file.data ∧ Here view (file.advance size) device state)
        stop := by
    apply Triple.call
    rintro state ⟨rfl, same⟩
    rw [itcStreamRead_within within]
    exact ⟨rfl, rfl, same⟩
  apply known_bind read
  apply require_met (length_slice within)
  exact Triple.pure fun _ here => ⟨rfl, here⟩

theorem rawFill_here {offset size : Nat} (room : offset + size ≤ target.bufsize)
    (within : file.pos + size ≤ file.size) :
    Triple (Here view file device) (rawFill target offset size ret buf : Ug ω (List UInt8))
      (fun filled state =>
        filled = overwrite offset (slice file.pos size file.data) buf ∧
          Here view (file.advance size) device state)
      stop := by
  have small : size < 2 ^ 31 := by
    have bound := file.sizeFits
    rw [ITCStream.size] at within
    omega
  have copied : itcStreamCopied file size ≤ target.bufsize - offset := by
    rw [itcStreamCopied, if_neg (by omega)]
    omega
  have reads :
      Triple (Here view file device)
        (ugReadInto size (target.bufsize - offset) .rawData ret : Ug ω (List UInt8))
        (fun bytes state =>
          bytes = slice file.pos size file.data ∧ Here view (file.advance size) device state)
        stop := by
    apply get_here
    rintro state ⟨rfl, _⟩
    exact require_met copied (readExactly_here within)
  apply require_met (by omega)
  apply known_bind reads
  exact Triple.pure fun _ here => ⟨rfl, here⟩

theorem rawWrite_here (driver : RawDriver env view target held)
    (nonzero : ret ≠ 0) (block : target.blocksize ≠ 0) {size : Nat}
    (inside : (device.write target buf (target.count size)).inside = true) :
    Triple (Here view file device) (rawWrite env target size ret buf)
      (fun _ => Here view file (device.write target buf (target.count size)))
      (Stops env view bad) := by
  have divides :
      Triple (Here view file device) (target.blocks size : Ug ω Nat)
        (fun count state => count = target.count size ∧ Here view file device state)
        (Stops env view bad) :=
    require_met block (Triple.pure fun _ here => ⟨rfl, here⟩)
  apply known_bind divides
  apply ask_here
  rintro world rfl
  obtain ⟨kept, written⟩ := driver.write buf (target.count size) world
  apply Triple.require_last
  · rintro unmet state ⟨_, same⟩
    refine ⟨⟨ret, nonzero, rfl⟩, ?_, fun works => ?_⟩
    · rw [same, kept]
      exact inside
    · exact absurd (works.write buf _ world) unmet
  · intro met state here
    rw [← written met]
    exact here

theorem rawVerify_here (driver : RawDriver env view target held)
    {readRet verifyRet : Int} (nonzero : readRet ≠ 0)
    (verifyNonzero : verifyRet ≠ 0) (block : target.blocksize ≠ 0)
    {size compared : Nat} (one : target.count size = 1) (inside : device.inside = true)
    (room : target.capacity device.block ≤ device.room)
    (fits : compared ≤ target.capacity device.block) :
    Triple (Here view file device) (rawVerify env target size compared readRet verifyRet buf)
      (fun _ state =>
        buf.take compared = (held device.block).take compared ∧
          Here view file (device.read target 1) state)
      (Stops env view fun after =>
        after.stored = device.stored ∧ buf.take compared ≠ (held device.block).take compared) := by
  have divides :
      Triple (Here view file device) (target.blocks size : Ug ω Nat)
        (fun count state => count = 1 ∧ Here view file device state)
        (Stops env view fun after =>
          after.stored = device.stored ∧ buf.take compared ≠ (held device.block).take compared) :=
    require_met block (Triple.pure fun _ here => ⟨one, here⟩)
  apply known_bind divides
  apply ask_here
  rintro world rfl
  obtain ⟨kept, answered⟩ := driver.read 1 world
  have stays : ((view world).read target 1).inside = true := by
    have spanFits : target.span (view world).block 1 ≤ (view world).room := room
    rw [RawDevice.read, inside, decide_eq_true spanFits]
    rfl
  apply require_works nonzero (kept.trans stays) fun works => works.read 1 world
  intro all
  obtain ⟨same, held_prefix⟩ := answered all
  have yields :
      (env.read 1 world).1.2.take compared = (held (view world).block).take compared := by
    obtain ⟨stale, answer⟩ := held_prefix
    have one : window held (view world).block 1 = held (view world).block := by simp [window]
    rw [← answer, one, List.take_append_of_le_length]
    rw [driver.held_length]
    exact fits
  rw [yields, same]
  apply Triple.require_last
  · rintro unmet state ⟨_, there⟩
    refine ⟨⟨verifyRet, verifyNonzero, rfl⟩, ?_, fun _ => ⟨?_, unmet⟩⟩
    · rw [there]
      exact stays
    · rw [there]
      rfl
  · exact fun met state here => ⟨met, here⟩

/-! ## The loops -/

theorem Stops.imp {worse : RawDevice → Prop} {stop : UgStop}
    {state : UgState ω} (stops : Stops env view bad stop state)
    (imp : ∀ device, bad device → worse device) :
    Stops env view worse stop state :=
  ⟨stops.1, stops.2.1, fun works => imp _ (stops.2.2 works)⟩

theorem prefix_append_iff {front rest front' rest' : List α} (same : front.length = front'.length) :
    front ++ rest <+: front' ++ rest' ↔ front = front' ∧ rest <+: rest' := by
  constructor
  · intro ⟨behind, whole⟩
    rw [List.append_assoc] at whole
    obtain ⟨rfl, later⟩ := List.append_inj whole same
    exact ⟨rfl, behind, later⟩
  · rintro ⟨rfl, later⟩
    exact (List.prefix_append_right_inj front).mpr later

variable {chunks : List (Nat × List UInt8)}

theorem RawStored.cons {rest : List UInt8} (stored : RawStored target (block + 1) rest chunks)
    (first : List UInt8) :
    RawStored target block (first ++ rest) ((block, first) :: chunks) where
  blocks := by rw [List.map_cons, stored.blocks, List.length_cons, List.range'_succ]
  content := by
    rw [List.map_cons, List.flatten_cons]
    exact (List.prefix_append_right_inj first).mpr stored.content
  padding := by
    have padding := stored.padding
    simp only [List.map_cons, List.flatten_cons, List.length_append]
    omega

/-- What the loop leaves on the device: all bytes if the last block is one, and
too few if it is not. -/
structure LoopWritten (target : RawTarget) (block : Nat) (bytes : List UInt8)
    (chunks : List (Nat × List UInt8)) : Prop where
  all :
    target.count ((bytes.length - 1) % target.blocksize + 1) = 1 →
      chunks.length = (bytes.length - 1) / target.blocksize + 1 ∧
        RawStored target block bytes chunks
  lost :
    target.count ((bytes.length - 1) % target.blocksize + 1) ≠ 1 →
      (chunks.map Prod.snd).flatten.length < bytes.length

theorem LoopWritten.cons {first rest : List UInt8} (length : first.length = target.blocksize)
    (positive : target.blocksize ≠ 0) (goesOn : rest ≠ [])
    (written : LoopWritten target (block + 1) rest chunks) :
    LoopWritten target block (first ++ rest) ((block, first) :: chunks) := by
  have some_ := List.length_pos_iff.mpr goesOn
  have shifted :
      (first ++ rest).length - 1 = rest.length - 1 + target.blocksize := by
    rw [List.length_append]
    omega
  refine ⟨?_, ?_⟩
  · rw [shifted, Nat.add_mod_right, Nat.add_div_right _ (by omega)]
    intro one
    obtain ⟨count, stored⟩ := written.all one
    exact ⟨by rw [List.length_cons, count], stored.cons first⟩
  · rw [shifted, Nat.add_mod_right]
    intro other
    have fewer := written.lost other
    simp only [List.map_cons, List.flatten_cons, List.length_append]
    omega

/-- Where the device and the loop are behind the first block of a NAND flash. -/
def NotFirst (target : RawTarget) (block : Nat) : Prop := ¬ (block = 0 ∧ target.disk = .nand)

theorem NotFirst.capacity (notFirst : NotFirst target block) :
    target.capacity block = target.blocksize :=
  if_neg notFirst

theorem NotFirst.readsize {cursor : RawCursor} (notFirst : NotFirst target cursor.pos2) :
    target.readsize cursor = min cursor.remainsize target.blocksize :=
  if_neg notFirst

theorem NotFirst.nextPos2 {cursor : RawCursor} (notFirst : NotFirst target cursor.pos2) :
    target.nextPos2 cursor = cursor.pos2 :=
  if_neg notFirst

theorem notFirst_succ (block : Nat) : NotFirst target (block + 1) := by
  rintro ⟨zero, _⟩
  cases zero

structure Buffered (target : RawTarget) : Prop where
  positive : target.blocksize ≠ 0
  small : target.blocksize ≤ cfgUgBufSize
  fits : target.blocksize ≤ target.bufsize

theorem RawDevice.write_inside {count : Nat} (few : count ≤ 1)
    (room : target.capacity device.block ≤ buf.length) (inside : device.inside = true) :
    (device.write target buf count).inside = true := by
  have spanFits : target.span device.block count ≤ buf.length := by
    match count, few with
    | 0, _ => exact Nat.zero_le _
    | 1, _ => exact room
  rw [RawDevice.write, inside, decide_eq_true spanFits]
  rfl

theorem loopWritten_last (bytes stale : List UInt8)
    (some_ : bytes ≠ []) (buffered : Buffered target) (short : bytes.length ≤ target.blocksize)
    (capacity : target.capacity block = target.blocksize)
    (room : target.blocksize ≤ (bytes ++ stale).length) :
    LoopWritten target block bytes
      (target.cut block (target.count bytes.length) (bytes ++ stale)) := by
  have positive := List.length_pos_iff.mpr some_
  have rest : (bytes.length - 1) % target.blocksize + 1 = bytes.length := by
    rw [Nat.mod_eq_of_lt (by omega)]
    omega
  have few := RawTarget.count_le buffered.positive buffered.small short
  refine ⟨?_, ?_⟩
  · rw [rest]
    intro one
    rw [one, RawTarget.cut, RawTarget.cut, capacity]
    have length :
        ((bytes ++ stale).take target.blocksize).length = target.blocksize := by
      rw [List.length_take]
      omega
    refine ⟨?_, rfl, ?_, ?_⟩
    · rw [Nat.div_eq_of_lt (by omega)]
      rfl
    · simp only [List.map_cons, List.map_nil, List.flatten_cons, List.flatten_nil, List.append_nil]
      rw [List.take_append, List.take_of_length_le short]
      exact List.prefix_append _ _
    · simp only [List.map_cons, List.map_nil, List.flatten_cons, List.flatten_nil, List.append_nil]
      omega
  · rw [rest]
    intro other
    have none_ : target.count bytes.length = 0 := by omega
    rw [none_, RawTarget.cut]
    exact positive

section

variable {file : ITCStream} {cursor : RawCursor} (notFirst : NotFirst target cursor.pos2)
  (within : file.pos + cursor.remainsize ≤ file.size)
  (length : cursor.buf.length = target.bufsize) (buffered : Buffered target)

include notFirst within length buffered

/-- A turn of the loop after which more is left. -/
theorem turn_splits (long : ¬ cursor.remainsize ≤ target.blocksize) :
    ∃ rest, cursor.remainsize = target.blocksize + rest ∧ 0 < rest ∧ rest < cursor.remainsize ∧
      cursor.remainsize - target.blocksize = rest ∧ file.pos + target.blocksize ≤ file.size ∧
      file.pos + target.blocksize + rest ≤ file.size ∧
      target.readsize cursor = target.blocksize ∧
      (slice file.pos target.blocksize file.data).length = target.blocksize ∧
      (overwrite 0 (slice file.pos target.blocksize file.data) cursor.buf).length =
        target.bufsize := by
  have positive := buffered.positive
  have fits := buffered.fits
  have sized : (slice file.pos target.blocksize file.data).length = target.blocksize :=
    length_slice (Nat.le_trans (by omega) within)
  refine ⟨cursor.remainsize - target.blocksize, by omega, by omega, by omega, rfl, by omega,
    by omega, ?_, sized, ?_⟩
  · rw [notFirst.readsize, Nat.min_eq_right (Nat.le_of_not_le long)]
  · rw [length_overwrite (by omega), length]

/-- The last turn of the loop. -/
theorem turn_last (short : cursor.remainsize ≤ target.blocksize) :
    target.readsize cursor = cursor.remainsize ∧
      (slice file.pos cursor.remainsize file.data).length = cursor.remainsize ∧
      (overwrite 0 (slice file.pos cursor.remainsize file.data) cursor.buf).length =
        target.bufsize := by
  have fits := buffered.fits
  have sized : (slice file.pos cursor.remainsize file.data).length = cursor.remainsize :=
    length_slice within
  refine ⟨?_, sized, ?_⟩
  · rw [notFirst.readsize, Nat.min_eq_left short]
  · rw [length_overwrite (by omega), length]

end

theorem rawLoop_write (driver : RawDriver env view target held)
    {writeRet : Int} (nonzero : writeRet ≠ 0) (buffered : Buffered target) (fuel : Nat) :
    ∀ (file : ITCStream) (device : RawDevice) (cursor : RawCursor),
      NotFirst target cursor.pos2 → NotFirst target device.block →
      0 < cursor.remainsize → cursor.remainsize < fuel →
      file.pos + cursor.remainsize ≤ file.size →
      cursor.buf.length = target.bufsize → device.inside = true →
      Triple (Here view file device)
        (rawLoop target ret (fun size => rawWrite env target size writeRet) fuel cursor)
        (fun buf state =>
          buf.length = target.bufsize ∧
            ∃ chunks after, Here view (file.advance cursor.remainsize) after state ∧
              after.inside = true ∧ after.stored = device.stored ++ chunks ∧
              LoopWritten target device.block (slice file.pos cursor.remainsize file.data) chunks)
        (Stops env view bad) := by
  induction fuel with
  | zero =>
    intro file device cursor _ _ _ enough
    cases Nat.not_lt_zero _ enough
  | succ fuel ih =>
    intro file device cursor notFirst notFirstBlock remains enough within length inside
    have capacity := notFirstBlock.capacity
    have fits := buffered.fits
    have sizeEq : file.size = file.data.length := rfl
    by_cases short : cursor.remainsize ≤ target.blocksize
    · obtain ⟨readsize, sized, filled⟩ := turn_last notFirst within length buffered short
      have room :
          target.capacity device.block ≤
            (overwrite 0 (slice file.pos cursor.remainsize file.data) cursor.buf).length := by
        omega
      have stays :=
        RawDevice.write_inside (RawTarget.count_le buffered.positive buffered.small short) room
          inside
      rw [rawLoop, readsize]
      apply known_bind (rawFill_here (by omega) within)
      apply (rawWrite_here driver nonzero buffered.positive stays).bind_unit
      rw [if_neg (by omega)]
      apply Triple.pure
      intro state here
      refine ⟨filled, _, _, here, stays, rfl, ?_⟩
      have bytes := overwrite_start (slice file.pos cursor.remainsize file.data) cursor.buf
      rw [bytes] at room filled ⊢
      have written :=
        loopWritten_last (slice file.pos cursor.remainsize file.data) _
          (List.ne_nil_of_length_pos (by omega)) buffered (by omega) capacity
          (capacity ▸ room)
      have count := congrArg target.count sized
      rw [count] at written
      exact written
    · have positive := buffered.positive
      obtain ⟨rest, total, restPositive, restLess, left, front, restWithin, readsize, sized,
          filled⟩ :=
        turn_splits notFirst within length buffered short
      have room :
          target.capacity device.block ≤
            (overwrite 0 (slice file.pos target.blocksize file.data) cursor.buf).length := by
        rw [filled, capacity]
        exact fits
      have one := RawTarget.count_blocksize positive buffered.small
      have stays := RawDevice.write_inside (Nat.le_of_eq one) room inside
      rw [rawLoop, readsize, left]
      apply known_bind (rawFill_here ((Nat.zero_add _).trans_le fits) front)
      apply (rawWrite_here driver nonzero positive stays).bind_unit
      rw [if_pos restPositive, notFirst.nextPos2]
      rw [one] at stays ⊢
      apply Triple.post_imp
        (ih _ _ ⟨cursor.pos2, rest, _⟩ notFirst (notFirst_succ device.block) restPositive
          (Nat.lt_of_lt_of_le restLess (Nat.le_of_lt_succ enough)) restWithin filled stays)
      rintro result state ⟨whole, chunks, after, there, afterInside, stored, written⟩
      refine
        ⟨whole,
          (device.block, slice file.pos target.blocksize file.data) :: chunks,
          after, ?_, afterInside, ?_, ?_⟩
      · rw [ITCStream.advance_advance] at there
        dsimp only at there
        rw [← total] at there
        exact there
      · rw [stored, RawDevice.write, RawTarget.cut, RawTarget.cut, capacity,
          take_overwrite_zero _ sized, List.append_assoc]
        rfl
      · have restSized :
            (slice (file.pos + target.blocksize) rest file.data).length = rest :=
          length_slice restWithin
        rw [total, slice_add]
        exact LoopWritten.cons sized positive
          (List.ne_nil_of_length_pos (restSized.symm ▸ restPositive)) written

theorem rawLoop_verify (driver : RawDriver env view target held)
    {readRet verifyRet : Int} (nonzero : readRet ≠ 0)
    (verifyNonzero : verifyRet ≠ 0) (buffered : Buffered target) (fuel : Nat) :
    ∀ (file : ITCStream) (device : RawDevice) (cursor : RawCursor),
      NotFirst target cursor.pos2 → NotFirst target device.block →
      0 < cursor.remainsize → cursor.remainsize < fuel →
      file.pos + cursor.remainsize ≤ file.size →
      cursor.buf.length = target.bufsize → device.inside = true →
      target.blocksize ≤ device.room →
      target.count ((cursor.remainsize - 1) % target.blocksize + 1) = 1 →
      Triple (Here view file device)
        (rawLoop target ret (fun size => rawVerify env target size size readRet verifyRet) fuel
          cursor)
        (fun _ state =>
          slice file.pos cursor.remainsize file.data <+:
              window held device.block ((cursor.remainsize - 1) / target.blocksize + 1) ∧
            ∃ after, Here view (file.advance cursor.remainsize) after state ∧
              after.inside = true ∧ after.stored = device.stored)
        (Stops env view fun after =>
          after.stored = device.stored ∧
            ¬ slice file.pos cursor.remainsize file.data <+:
                window held device.block ((cursor.remainsize - 1) / target.blocksize + 1)) := by
  induction fuel with
  | zero =>
    intro file device cursor _ _ _ enough
    cases Nat.not_lt_zero _ enough
  | succ fuel ih =>
    intro file device cursor notFirst notFirstBlock remains enough within length inside room one
    have capacity := notFirstBlock.capacity
    have fits := buffered.fits
    have positive := buffered.positive
    have sizeEq : file.size = file.data.length := rfl
    have roomFits : target.capacity device.block ≤ device.room := by omega
    have stays : (device.read target 1).inside = true := by
      have spanFits : target.span device.block 1 ≤ device.room := roomFits
      rw [RawDevice.read, inside, decide_eq_true spanFits]
      rfl
    by_cases short : cursor.remainsize ≤ target.blocksize
    · obtain ⟨readsize, sized, -⟩ := turn_last notFirst within length buffered short
      have last :
          (cursor.remainsize - 1) % target.blocksize + 1 = cursor.remainsize := by
        rw [Nat.mod_eq_of_lt (by omega)]
        omega
      have single :
          window held device.block ((cursor.remainsize - 1) / target.blocksize + 1) =
            held device.block := by
        rw [Nat.div_eq_of_lt (by omega)]
        simp [window]
      have matches_ :
          slice file.pos cursor.remainsize file.data <+:
              window held device.block ((cursor.remainsize - 1) / target.blocksize + 1) ↔
            slice file.pos cursor.remainsize file.data =
              (held device.block).take cursor.remainsize := by
        rw [single, List.prefix_iff_eq_take, sized]
      rw [last] at one
      rw [rawLoop, readsize, matches_]
      apply known_bind (rawFill_here (by omega) within)
      refine Triple.bind
        ((rawVerify_here driver nonzero verifyNonzero positive one inside
          roomFits (short.trans_eq capacity.symm)).stop_imp ?_) ?_
      · rintro stop state stops
        refine stops.imp fun after ⟨stored, differs⟩ => ⟨stored, ?_⟩
        rw [take_overwrite_zero _ sized] at differs
        exact differs
      · rintro _ state ⟨same, there⟩
        rw [take_overwrite_zero _ sized] at same
        rw [if_neg (by omega)]
        exact Holds.pure ⟨same, _, there, stays, rfl⟩
    · obtain ⟨rest, total, restPositive, restLess, left, front, restWithin, readsize, sized,
          filled⟩ :=
        turn_splits notFirst within length buffered short
      have whole := RawTarget.count_blocksize positive buffered.small
      have heldSized : (held device.block).length = target.blocksize := by
        rw [driver.held_length, capacity]
      have heldAll :
          (held device.block).take target.blocksize = held device.block :=
        List.take_of_length_le (Nat.le_of_eq heldSized)
      -- The comparison is about the first block and the rest.
      have shifted : cursor.remainsize - 1 = rest - 1 + target.blocksize := by
        rw [total, Nat.add_sub_assoc restPositive, Nat.add_comm]
      have matches_ :
          slice file.pos cursor.remainsize file.data <+:
              window held device.block ((cursor.remainsize - 1) / target.blocksize + 1) ↔
            slice file.pos target.blocksize file.data = held device.block ∧
              slice (file.pos + target.blocksize) rest file.data <+:
                window held (device.block + 1) ((rest - 1) / target.blocksize + 1) := by
        rw [shifted, total, slice_add, Nat.add_div_right _ (Nat.pos_of_ne_zero positive),
          window, List.range'_succ, List.flatMap_cons]
        exact prefix_append_iff (sized.trans heldSized.symm)
      rw [shifted, Nat.add_mod_right] at one
      rw [rawLoop, readsize, matches_, left]
      apply known_bind (rawFill_here ((Nat.zero_add _).trans_le fits) front)
      refine Triple.bind
        ((rawVerify_here driver nonzero verifyNonzero positive whole inside
          roomFits (Nat.le_of_eq capacity.symm)).stop_imp ?_) ?_
      · rintro stop state stops
        refine stops.imp fun after ⟨stored, differs⟩ => ⟨stored, ?_⟩
        rw [take_overwrite_zero _ sized, heldAll] at differs
        exact fun both => differs both.1
      · rintro _ state ⟨same, there⟩
        rw [take_overwrite_zero _ sized, heldAll] at same
        rw [if_pos restPositive, notFirst.nextPos2]
        refine (ih _ _ ⟨cursor.pos2, rest, _⟩ notFirst (notFirst_succ device.block)
          restPositive (Nat.lt_of_lt_of_le restLess (Nat.le_of_lt_succ enough)) restWithin
          filled stays room one state there).imp ?_ ?_
        · rintro result last ⟨rest, after, arrived, afterInside, stored⟩
          refine ⟨⟨same, rest⟩, after, ?_, afterInside, stored⟩
          rw [ITCStream.advance_advance] at arrived
          dsimp only at arrived
          rw [← total] at arrived
          exact arrived
        · rintro stop last stops
          refine stops.imp fun after ⟨stored, differs⟩ => ⟨stored, ?_⟩
          exact fun both => differs both.2

end IteSdk.Upgrade
