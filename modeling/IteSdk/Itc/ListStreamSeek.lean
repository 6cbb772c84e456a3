import IteSdk.Itc.ListStreamFifo

/-!
# Seeking in the list stream

A seek puts the read position where it should be and leaves the end-of-file flag
alone, so what a read delivers afterwards depends on that flag.
-/

namespace IteSdk.Itc

section

open Lib ITCListStream

namespace ITCListStream

variable {ls : ITCListStream} {written : List UInt8}

theorem Linked.writenode_le (linked : Linked ls written) : ls.writenode ≤ written.length := by
  have whole : ls.writenode * 1 ≤ ls.writenode * ls.datasize :=
    Nat.mul_le_mul_left _ linked.positive
  rw [linked.total]
  omega

theorem Linked.readindex_eq (linked : Linked ls written)
    (fits : written.length < 2 ^ 31) : ls.readindex = ls.readnode := by
  have last := linked.writenode_le
  have ordered := linked.ordered
  rw [linked.readindex, int32_natCast (by omega)]

theorem Linked.writeindex_eq (linked : Linked ls written)
    (fits : written.length < 2 ^ 31) : ls.writeindex = ls.writenode := by
  have last := linked.writenode_le
  rw [linked.writeindex, int32_natCast (by omega)]

theorem Sound.size_eq (sound : Sound ls written)
    (fits : written.length < 2 ^ 31) : ls.size = written.length := by
  rw [sound.size, int32_natCast fits]

theorem walk_spec (linked : Linked ls written) {count node : Nat}
    (inside : node + count ≤ ls.writenode) :
    ls.walk count node = some (node + count) := by
  induction count generalizing node with
  | zero => rfl
  | succ count ih =>
    have known : node ≤ ls.writenode := by omega
    obtain ⟨found, look⟩ := linked.node known
    have next : found.next = some (node + 1) := by
      rw [linked.chained.next _ _ look, if_pos (by rw [linked.last]; omega)]
    rw [walk, look]
    simp only [Option.bind_eq_bind, Option.bind_some, next]
    rw [ih (by omega)]
    exact congrArg some (by omega)

theorem stepBack_spec (sound : Sound ls written) (fits : written.length < 2 ^ 31) :
    ∃ after, ls.stepBack = some after ∧ Sound after written ∧
      after.readOffset = ls.readOffset ∧ after.eof = ls.eof ∧
        (after.readpos = 0 → ls.readOffset = 0) := by
  obtain ⟨node, found⟩ := sound.node sound.ordered
  have index := sound.readindex_eq fits
  have prev := sound.chained.prev _ _ found
  have positive := sound.positive
  by_cases root : ls.readnode = 0
  · rw [if_pos root] at prev
    refine ⟨ls, ?_, sound, rfl, rfl, fun start => ?_⟩
    · simp only [stepBack, found, Option.bind_eq_bind, Option.bind_some, prev]
      rw [index, root, if_pos Nat.cast_zero]
    · rw [readOffset, root, start, Nat.zero_mul]
  · rw [if_neg root] at prev
    have before : (ls.readnode - 1) * ls.datasize + ls.datasize = ls.readnode * ls.datasize := by
      rw [← Nat.succ_mul, Nat.succ_eq_add_one, Nat.sub_add_cancel (by omega)]
    have behind := sound.behind
    have ordered := sound.ordered
    by_cases start : ls.readpos = 0
    · rw [readOffset, start, Nat.add_zero] at behind
      refine ⟨{ ls with
        readnode := ls.readnode - 1
        readindex := int32 (ls.readindex - 1)
        readpos := ls.datasize }, ?_,
        sound.move (Nat.le_refl _) (by omega) (by omega) ?_, ?_, rfl, ?_⟩
      · simp only [stepBack, found, Option.bind_eq_bind, Option.bind_some, prev]
        rw [if_pos start, if_pos (by omega)]
      · rw [index, Nat.cast_sub (by omega), Nat.cast_one]
      · rw [readOffset, readOffset, start]
        exact before
      · intro empty
        dsimp only at empty
        omega
    · refine ⟨ls, ?_, sound, rfl, rfl, fun empty => absurd empty start⟩
      simp only [stepBack, found, Option.bind_eq_bind, Option.bind_some, prev]
      rw [if_neg start]

theorem backLoop_spec (sound : Sound ls written)
    (fits : written.length < 2 ^ 31) {fuel remainsize : Nat} (enough : remainsize < fuel) :
    ∃ after, ls.backLoop fuel remainsize = some after ∧ Sound after written ∧
      after.readOffset = ls.readOffset - remainsize ∧ after.eof = ls.eof := by
  induction fuel generalizing ls remainsize with
  | zero => omega
  | succ fuel ih =>
    by_cases none : remainsize = 0
    · refine ⟨ls, ?_, sound, by omega, rfl⟩
      rw [backLoop, if_pos none]
    obtain ⟨moved, step, movedSound, offset, eof, atStart⟩ := stepBack_spec sound fits
    by_cases start : moved.readpos = 0
    · have zero := atStart start
      refine ⟨moved, ?_, movedSound, by omega, eof⟩
      rw [backLoop, if_neg none, step]
      exact if_pos start
    · have inside := movedSound.readInside
      have behind := movedSound.behind
      have place :
          moved.readnode * moved.datasize + (moved.readpos - min remainsize moved.readpos) =
            moved.readOffset - min remainsize moved.readpos := by
        rw [readOffset]
        omega
      have backSound :
          Sound
            { moved with
              readpos := moved.readpos - min remainsize moved.readpos }
            written :=
        movedSound.move (by omega) movedSound.ordered (by omega) movedSound.readindex
      have less : remainsize - min remainsize moved.readpos < fuel := by omega
      obtain ⟨after, rest, afterSound, afterOffset, afterEof⟩ := ih backSound less
      refine ⟨after, ?_, afterSound, ?_, afterEof.trans eof⟩
      · rw [backLoop, if_neg none, step]
        simp only [Option.bind_eq_bind, Option.bind_some, if_neg start]
        exact rest
      · have back : moved.readpos ≤ moved.readOffset := Nat.le_add_left _ _
        rw [afterOffset, readOffset]
        dsimp only
        rw [place, offset, Nat.sub_sub, Nat.add_sub_cancel' (Nat.min_le_left _ _)]

end ITCListStream

section Seek

variable {ls : ITCListStream} {written : List UInt8}

def seekTarget (ls : ITCListStream) (offset : Int) : SeekOrigin → Int
  | .seekSet => offset
  | .seekCur => listStreamTell ls + offset
  | .seekEnd => ls.size + offset

/-- A seek keeps the stream sound and finds every place before the end. -/
def Seeks (ls : ITCListStream) (written : List UInt8) (target : Int)
    (seek : Option (Int × ITCListStream)) : Prop :=
  ∃ result after, seek = some (result, after) ∧ Sound after written ∧
    ∀ place : Nat, target = place → place < written.length →
      result = 0 ∧ after.readOffset = place ∧ after.eof = ls.eof

section

variable (sound : Sound ls written)

include sound

theorem seeks_fails {target : Int}
    (outside : ∀ place : Nat, target = place → ¬ place < written.length) :
    Seeks ls written target (some (-1, ls)) :=
  ⟨-1, ls, rfl, sound, fun place same inside => absurd inside (outside place same)⟩

section

variable (fits : written.length < 2 ^ 31) (offset : Int)

include fits offset

theorem seekFromStart_spec : Seeks ls written offset (seekFromStart ls offset) := by
  have size := sound.size_eq fits
  have writeindex := sound.writeindex_eq fits
  have total := sound.total
  have writeInside := sound.writeInside
  rw [seekFromStart]
  by_cases inside : 0 ≤ offset ∧ offset < ls.size
  case neg =>
    rw [if_neg inside]
    exact seeks_fails sound (by omega)
  obtain ⟨place, rfl⟩ := Int.eq_ofNat_of_zero_le inside.1
  rw [if_pos inside, Int.toNat_natCast]
  have before : place < written.length := by omega
  have split := Nat.div_add_mod' place ls.datasize
  have posInside : place % ls.datasize < ls.datasize := Nat.mod_lt _ sound.positive
  have index : place / ls.datasize ≤ ls.writenode := by
    apply Nat.le_of_lt_succ
    rw [Nat.div_lt_iff_lt_mul sound.positive, Nat.succ_mul]
    omega
  have walked : ls.walk (place / ls.datasize) 0 = some (place / ls.datasize) := by
    rw [walk_spec sound.toLinked (by omega), Nat.zero_add]
  have counted : ((place / ls.datasize : Nat) : Int) =
      int32 ((place / ls.datasize : Nat) : Int) := by
    have last := sound.writenode_le
    exact (int32_natCast (by omega)).symm
  have moved := sound.move (Nat.le_of_lt posInside) index (by omega) counted
  refine ⟨0, _, ?_, moved, fun other same _ => ⟨rfl, ?_, rfl⟩⟩
  · simp only [Option.bind_eq_bind, walked, Option.bind_some]
    rw [if_pos (by rw [writeindex]; exact Nat.cast_le.mpr index)]
    by_cases last : place / ls.datasize = ls.writenode
    · rw [last] at split
      rw [if_pos last, if_pos (by omega), if_neg (by omega)]
    · rw [if_neg last]
  · rw [Nat.cast_inj] at same
    rw [← same]
    exact split

theorem seekFromHere_spec : Seeks ls written (ls.readOffset + offset) (seekFromHere ls offset) := by
  have size := sound.size_eq fits
  have behind := sound.behind
  have here :
      ls.readindex * ls.datasize + ls.readpos = ls.readOffset := by
    rw [sound.readindex_eq fits, readOffset, Nat.cast_add, Nat.cast_mul]
  rw [seekFromHere, here, size]
  have exact' (place : Nat) (same : ls.readOffset + offset = place)
      (inside : place < written.length) :
      int32 (ls.readOffset + offset) = place := by
    rw [same, int32_natCast (by omega)]
  by_cases forward : 0 ≤ offset
  · obtain ⟨count, rfl⟩ := Int.eq_ofNat_of_zero_le forward
    rw [if_pos forward, Int.toNat_natCast]
    by_cases inside : int32 (ls.readOffset + count) < written.length
    · obtain ⟨after, read, afterSound, afterOffset, afterEof⟩ :=
        readLoop_spec sound
          (Nat.lt_succ_of_le (Nat.add_le_add_left (Nat.sub_le _ ls.readnode) count))
      refine ⟨0, after, ?_, afterSound, fun place same before => ⟨rfl, ?_, ?_⟩⟩
      · rw [if_pos inside, read]
        rfl
      · omega
      · rw [afterEof, decide_eq_false (by omega), Bool.or_false]
    · rw [if_neg inside]
      refine seeks_fails sound fun place same before => ?_
      rw [exact' place same before] at inside
      omega
  · rw [if_neg forward]
    by_cases inside : 0 ≤ int32 (ls.readOffset + offset)
    · obtain ⟨after, back, afterSound, afterOffset, afterEof⟩ :=
        backLoop_spec sound fits (Nat.lt_succ_self (-offset).toNat)
      refine ⟨0, after, ?_, afterSound, fun place same before => ⟨rfl, ?_, ?_⟩⟩
      · rw [if_pos inside, back]
        rfl
      · omega
      · exact afterEof
    · rw [if_neg inside]
      refine seeks_fails sound fun place same before => ?_
      rw [exact' place same before] at inside
      omega

theorem seekFromEnd_spec : Seeks ls written (ls.size + offset) (seekFromEnd ls offset) := by
  have size := sound.size_eq fits
  rw [seekFromEnd]
  by_cases inside : offset ≤ 0 ∧ 0 ≤ int32 (ls.size + offset)
  · have total := sound.total
    have start :
        Sound
          { ls with
            readnode := ls.writenode
            readindex := ls.writeindex
            readpos := ls.writepos } written :=
      sound.move sound.writeInside (Nat.le_refl _) (Nat.le_of_eq total.symm) sound.writeindex
    obtain ⟨after, back, afterSound, afterOffset, afterEof⟩ :=
      backLoop_spec start fits (Nat.lt_succ_self (-offset).toNat)
    refine ⟨0, after, ?_, afterSound, fun place same before => ⟨rfl, ?_, ?_⟩⟩
    · rw [if_pos inside]
      dsimp only
      rw [back]
      rfl
    · rw [afterOffset, readOffset]
      dsimp only
      omega
    · exact afterEof
  · rw [if_neg inside]
    refine seeks_fails sound fun place same before => ?_
    rw [same, int32_natCast (by omega)] at inside
    omega

theorem listStreamSeek_spec (origin : SeekOrigin) :
    Seeks ls written (seekTarget ls offset origin) (listStreamSeek ls offset origin) := by
  cases origin with
  | seekSet => exact seekFromStart_spec sound fits offset
  | seekCur =>
    have tell : listStreamTell ls = ls.readOffset := by
      have behind := sound.behind
      rw [listStreamTell_eq sound.toLinked, int32_natCast (by omega)]
    rw [seekTarget, tell]
    exact seekFromHere_spec sound fits offset
  | seekEnd => exact seekFromEnd_spec sound fits offset

end

end

end Seek

/-! ## Runs -/

inductive ListCall
  | transfer (call : ListTransfer)
  | seek (offset : Int) (origin : SeekOrigin)
  deriving DecidableEq

def listCall (fill : Nat → Nat → UInt8) (history : ListHistory) : ListCall → Option ListHistory
  | .transfer call => listTransfer fill history call
  | .seek offset origin => do
      let sought ← listStreamSeek history.stream offset origin
      some { history with stream := sought.2 }

/-- As long as the total size fits an `int`, the stream is sound. -/
def SoundWhileFits (history : ListHistory) : Prop :=
  history.written.length < 2 ^ 31 → history.stream.Sound history.written

theorem listStreamRead_sound {ls after : ITCListStream}
    {written bytes : List UInt8} {size : Int} (sound : ls.Sound written)
    (read : listStreamRead ls size = some (bytes, after)) :
    after.Sound written := by
  rw [listStreamRead] at read
  split at read
  · obtain ⟨-, rfl⟩ := Prod.mk.inj (Option.some.inj read)
    exact sound
  · obtain ⟨later, loop, laterSound, -⟩ :=
      readLoop_spec sound
        (Nat.lt_succ_of_le (Nat.add_le_add_left (Nat.sub_le _ ls.readnode) size.toNat))
    obtain ⟨-, rfl⟩ := Prod.mk.inj (Option.some.inj (read.symm.trans loop))
    exact laterSound

theorem soundWhileFits_step (fill : Nat → Nat → UInt8)
    (before : ListHistory) (call : ListCall) (after : ListHistory)
    (inv : SoundWhileFits before) (step : Enabled (listCall fill) before call after) :
    SoundWhileFits after := by
  intro fits
  cases call with
  | transfer call =>
    cases call with
    | read size =>
      obtain ⟨got, read, same⟩ := Option.bind_eq_some_iff.mp step
      obtain rfl := Option.some.inj same
      exact listStreamRead_sound (inv fits) read
    | write buf =>
      obtain ⟨stream, written, same⟩ := Option.bind_eq_some_iff.mp step
      obtain rfl := Option.some.inj same
      have fitsBefore : before.written.length < 2 ^ 31 := by
        rw [List.length_append] at fits
        omega
      obtain ⟨later, laterEq, sound, -⟩ := listStreamWrite_spec fill (inv fitsBefore) buf
      obtain rfl := Option.some.inj (written.symm.trans laterEq)
      exact sound
  | seek offset origin =>
    obtain ⟨sought, seek, same⟩ := Option.bind_eq_some_iff.mp step
    obtain rfl := Option.some.inj same
    obtain ⟨result, stream, soughtEq, sound, -⟩ := listStreamSeek_spec (inv fits) fits offset origin
    obtain rfl := Option.some.inj (seek.symm.trans soughtEq)
    exact sound

/-- What a seek to `target` is for. -/
def SeekLaw (history : ListHistory) (offset : Int) (origin : SeekOrigin) (target : Nat) : Prop :=
  ∃ after, listStreamSeek history.stream offset origin = some (0, after) ∧
    listStreamTell after = target ∧
      listStreamAvailable after = history.written.length - target ∧
        ∀ size : Int, ∃ later,
          listStreamRead after size = some ((history.written.drop target).take size.toNat, later)

theorem seekLaw_iff {history : ListHistory} {offset : Int}
    {origin : SeekOrigin} {target : Nat} (sound : history.stream.Sound history.written)
    (fits : history.written.length < 2 ^ 31)
    (reaches : seekTarget history.stream offset origin = target)
    (inside : target < history.written.length) :
    SeekLaw history offset origin target ↔ history.stream.eof = false := by
  obtain ⟨result, after, seek, afterSound, found⟩ := listStreamSeek_spec sound fits offset origin
  obtain ⟨rfl, place, eof⟩ := found target reaches inside
  constructor
  · rintro ⟨other, otherSeek, -, -, reads⟩
    obtain ⟨-, rfl⟩ := Prod.mk.inj (Option.some.inj (seek.symm.trans otherSeek))
    obtain ⟨later, read⟩ := reads 1
    cases flag : history.stream.eof with
    | false => rfl
    | true =>
      rw [listStreamRead, if_pos (eof.trans flag), Option.some.injEq, Prod.mk.injEq] at read
      have length := congrArg List.length read.1
      rw [List.length_take, List.length_drop, List.length_nil] at length
      omega
  · intro clear
    have honest : Honest after history.written := by
      intro set
      rw [eof, clear] at set
      cases set
    refine ⟨after, seek, ?_, ?_, fun size => ?_⟩
    · rw [listStreamTell_eq afterSound.toLinked, place, int32_natCast (by omega)]
    · rw [listStreamAvailable_eq afterSound.toLinked, place, int32_of_fits (by omega) (by omega)]
    · obtain ⟨later, read, -⟩ := listStreamRead_spec afterSound honest size
      rw [place] at read
      exact ⟨later, read⟩

/-- In every reachable stream a seek does what it is for exactly if the
end-of-file flag is clear. -/
theorem listStream_seek_iff {fill : Nat → Nat → UInt8} {datasize : Nat}
    {calls : List ListCall} {history : ListHistory} {offset : Int}
    {origin : SeekOrigin} {target : Nat} (positive : 0 < datasize)
    (run : calls.foldlM (listCall fill) (ListHistory.opened fill datasize) = some history)
    (fits : history.written.length < 2 ^ 31)
    (reaches : seekTarget history.stream offset origin = target)
    (inside : target < history.written.length) :
    SeekLaw history offset origin target ↔ history.stream.eof = false := by
  have initial : SoundWhileFits (ListHistory.opened fill datasize) :=
    fun _ => sound_open fill positive
  have reached : SoundWhileFits history :=
    (Run.enabled_foldlM run).invariant initial (soundWhileFits_step fill)
  exact seekLaw_iff (reached fits) fits reaches inside

/-- Five bytes in nodes of two, of which three are read: back to the start. -/
def seekHistory : ListHistory :=
  ⟨⟨false, 5, [⟨none, some 1, [1, 2]⟩, ⟨some 0, some 2, [3, 4]⟩, ⟨some 1, none, [5, 0]⟩],
      2, 1, 1, 1, 2, 2, 1⟩,
    [1, 2, 3], [1, 2, 3, 4, 5]⟩

theorem listStream_seek_iff_back :
    SeekLaw seekHistory (-3) .seekCur 0 ↔ seekHistory.stream.eof = false :=
  listStream_seek_iff (by decide : 0 < 2)
    (by decide :
      [ListCall.transfer (.write [1, 2, 3, 4, 5]), .transfer (.read 3)].foldlM
          (listCall fun _ _ => 0) (ListHistory.opened (fun _ _ => 0) 2) =
        some seekHistory)
    (by decide) (by decide) (by decide)

/-- One byte was written, and a read of two has found the end: after a seek to
the start nothing can be read. -/
theorem listStream_seek_at_end :
    ¬ ∀ (calls : List ListCall) (history : ListHistory) (offset : Int)
        (origin : SeekOrigin) (target : Nat),
        calls.foldlM (listCall fun _ _ => 0) (ListHistory.opened (fun _ _ => 0) 2) = some history →
        seekTarget history.stream offset origin = target →
        target < history.written.length →
        SeekLaw history offset origin target := by
  intro claimed
  obtain ⟨after, seek, -, -, reads⟩ :=
    claimed [.transfer (.write [1]), .transfer (.read 2)]
      ⟨⟨true, 1, [⟨none, none, [1, 0]⟩], 2, 0, 0, 1, 0, 0, 1⟩, [1], [1]⟩ 0
      .seekSet 0 (by decide) rfl (by decide)
  have sought :
      listStreamSeek ⟨true, 1, [⟨none, none, [1, 0]⟩], 2, 0, 0, 1, 0, 0, 1⟩ 0 .seekSet =
        some (0, ⟨true, 1, [⟨none, none, [1, 0]⟩], 2, 0, 0, 0, 0, 0, 1⟩) := by
    decide
  obtain ⟨-, rfl⟩ := Prod.mk.inj (Option.some.inj (seek.symm.trans sought))
  obtain ⟨later, read⟩ := reads 1
  exact absurd (Prod.mk.inj (Option.some.inj read)).1 (by decide)

end

/-!
# The list stream without memory

`ListStreamWrite` when `malloc` fails somewhere.  A node takes two blocks, so all that
matters of the allocations is how many more succeed.
-/

section

open Lib

namespace ITCListStream

/-- Go to a new node, if there is memory for it and its data: the stream and the memory
that is left. -/
def growIn (fill : Nat → Nat → UInt8) (memory : Nat) (ls : ITCListStream) :
    Option (Option (ITCListStream × Nat)) := do
  let node ← ls.nodes[ls.writenode]?
  if node.next = none then
    match memory with
    | memory + 2 => some (some (ls.grown fill node, memory))
    -- Without its data the node is freed and `next` is null again.
    | _ => some none
  else none

def roomIn (fill : Nat → Nat → UInt8) (memory : Nat) (ls : ITCListStream) :
    Option (Option (ITCListStream × Nat)) :=
  if ls.writepos = ls.datasize then ls.growIn fill memory else some (some (ls, memory))

/-- The loop of `ListStreamWrite`: how many bytes it has written, and whether it has
been left for want of memory. -/
def writeLoopIn (fill : Nat → Nat → UInt8) :
    Nat → Nat → List UInt8 → ITCListStream → Option (Nat × Bool × ITCListStream)
  | 0, _, _, _ => none
  | fuel + 1, memory, buf, ls =>
    if buf = [] then some (0, false, ls)
    else do
      match ← ls.roomIn fill memory with
      | none => some (0, true, ls)
      | some (ls, memory) =>
        let writesize := min buf.length (ls.datasize - ls.writepos)
        let ls ← ls.store (buf.take writesize)
        let (writtensize, failed, ls) ← writeLoopIn fill fuel memory (buf.drop writesize) ls
        some (writesize + writtensize, failed, ls)

end ITCListStream

/-- `ListStreamWrite` when `memory` allocations succeed: what it returns, and the
stream. -/
def listStreamWriteIn (fill : Nat → Nat → UInt8) (memory : Nat) (ls : ITCListStream)
    (buf : List UInt8) : Option (Nat × ITCListStream) := do
  let (writtensize, failed, ls) ← ITCListStream.writeLoopIn fill (buf.length + 1) memory buf ls
  if failed = true then some (writtensize, ls)
  else if 0 < writtensize then
    some (writtensize, { ls with eof := false, size := int32 (ls.size + writtensize) })
  else some (writtensize, ls)

/-- The stream is as after a successful write of the bytes that are counted: they can be
read, and the total size has grown by their number. -/
structure WriteRight (fill : Nat → Nat → UInt8) (ls : ITCListStream) (buf : List UInt8)
    (count : Nat) (after : ITCListStream) : Prop where
  same : listStreamWrite fill ls (buf.take count) = some after
  size : after.size = int32 (ls.size + count)
  available : listStreamAvailable after = int32 (listStreamAvailable ls + count)
  eof : 0 < count → after.eof = false

/-- There is memory for all nodes that are needed, or for none where the last node is
full. -/
def WriteFits (memory : Nat) (ls : ITCListStream) (buf : List UInt8) : Prop :=
  buf.length ≤ ls.datasize - ls.writepos + memory / 2 * ls.datasize ∨
    ls.writepos = ls.datasize ∧ memory < 2
deriving Decidable

namespace ITCListStream

variable {fill : Nat → Nat → UInt8} {ls : ITCListStream} {written : List UInt8}

theorem roomIn_cases (fill : Nat → Nat → UInt8) (memory : Nat) (linked : Linked ls written) :
    ls.roomIn fill memory = some none ∧ ls.writepos = ls.datasize ∧ memory < 2 ∨
      ∃ room left, ls.roomIn fill memory = some (some (room, left)) ∧
        ls.room fill = some room ∧ Linked room written ∧
          room.writepos < room.datasize ∧ room.datasize = ls.datasize ∧
            room.datasize - room.writepos + left / 2 * room.datasize =
              ls.datasize - ls.writepos + memory / 2 * ls.datasize := by
  by_cases full : ls.writepos = ls.datasize
  · obtain ⟨node, found⟩ := linked.node (Nat.le_refl _)
    have ends : node.next = none := by
      rw [linked.chained.next _ _ found, if_neg (by rw [linked.last]; omega)]
    have grows : ls.roomIn fill memory = ls.growIn fill memory := if_pos full
    match memory with
    | 0 | 1 =>
      refine Or.inl ⟨?_, full, by decide⟩
      rw [grows, growIn, found]
      exact if_pos ends
    | memory + 2 =>
      have grown : ls.grow fill = some (ls.grown fill node) := by
        rw [grow, found]
        exact if_pos ends
      refine
        Or.inr
          ⟨ls.grown fill node, memory, ?_, ?_, grown_linked fill linked full found,
            linked.positive, rfl, ?_⟩
      · rw [grows, growIn, found]
        exact if_pos ends
      · rw [room, if_pos full, grown]
      · change ls.datasize - 0 + memory / 2 * ls.datasize = _
        rw [full, Nat.add_div_right memory (by decide : 0 < 2), Nat.succ_mul]
        omega
  · refine Or.inr ⟨ls, memory, if_neg full, if_neg full, linked, ?_, rfl, rfl⟩
    exact Nat.lt_of_le_of_ne linked.writeInside full

theorem min_add_min {size first second room left : Nat} (firstEq : first = min size room)
    (secondEq : second = min (size - first) (room - first + left)) :
    first + second = min size (room + left) := by
  omega

/-- The loop writes the bytes that there is room and memory for, as it would write them
alone. -/
theorem writeLoopIn_spec (fill : Nat → Nat → UInt8) (linked : Linked ls written)
    (memory : Nat) {fuel : Nat} {buf : List UInt8} (enough : buf.length < fuel) :
    ∃ count after,
      writeLoopIn fill fuel memory buf ls = some (count, decide (count < buf.length), after) ∧
        count = min buf.length (ls.datasize - ls.writepos + memory / 2 * ls.datasize) ∧
          ∀ more, count < more → writeLoop fill more (buf.take count) ls = some after := by
  induction fuel generalizing ls written memory buf with
  | zero => omega
  | succ fuel ih =>
    by_cases none : buf = []
    · subst none
      refine ⟨0, ls, if_pos rfl, (Nat.zero_min _).symm, ?_⟩
      intro more positive
      obtain ⟨more, rfl⟩ := Nat.exists_eq_succ_of_ne_zero (Nat.ne_of_gt positive)
      exact if_pos rfl
    have some : 0 < buf.length := List.length_pos_iff.mpr none
    rcases roomIn_cases fill memory linked with
      ⟨refused, full, scarce⟩ | ⟨room, left, granted, roomEq, roomLinked, space, size, rest⟩
    · have nothing : memory / 2 = 0 := Nat.div_eq_of_lt scarce
      refine ⟨0, ls, ?_, ?_, ?_⟩
      · rw [writeLoopIn, if_neg none, refused, decide_eq_true some]
        rfl
      · rw [full, nothing]
        omega
      · intro more positive
        obtain ⟨more, rfl⟩ := Nat.exists_eq_succ_of_ne_zero (Nat.ne_of_gt positive)
        exact if_pos rfl
    · obtain ⟨node, found⟩ := roomLinked.node (Nat.le_refl _)
      obtain ⟨writesize, writesizeEq⟩ :
          ∃ writesize, writesize = min buf.length (room.datasize - room.writepos) :=
        ⟨_, rfl⟩
      have taken : (buf.take writesize).length = writesize := by
        rw [List.length_take]
        omega
      have dropped : (buf.drop writesize).length = buf.length - writesize := List.length_drop
      have fits : room.writepos + (buf.take writesize).length ≤ room.datasize := by omega
      obtain ⟨count, after, loop, counted, alone⟩ :=
        ih (stored_linked roomLinked fits found) left
          (show (buf.drop writesize).length < fuel by omega)
      have behind :
          count =
            min (buf.length - writesize)
              (room.datasize - (room.writepos + writesize) + left / 2 * room.datasize) := by
        rw [counted, dropped]
        change min _ (room.datasize - (room.writepos + (buf.take writesize).length) +
          left / 2 * room.datasize) = _
        rw [taken]
      clear counted fits taken
      have within : writesize + count ≤ buf.length := by omega
      rw [← Nat.sub_sub] at behind
      have total := (min_add_min writesizeEq behind).trans (by rw [rest])
      clear behind rest
      refine ⟨writesize + count, after, ?_, total, ?_⟩
      · rw [writeLoopIn, if_neg none, granted]
        simp only [Option.bind_eq_bind, Option.bind_some, store, found, ← writesizeEq,
          loop, dropped]
        congr 3
        rw [decide_eq_decide]
        omega
      · clear total
        intro more larger
        obtain ⟨more, rfl⟩ := Nat.exists_eq_succ_of_ne_zero (show more ≠ 0 by omega)
        have notNone : buf.take (writesize + count) ≠ [] := by
          intro empty
          have length := congrArg List.length empty
          rw [List.length_take, List.length_nil] at length
          omega
        have sameSize :
            min (buf.take (writesize + count)).length
                (room.datasize - room.writepos) = writesize := by
          rw [List.length_take]
          omega
        have first : (buf.take (writesize + count)).take writesize = buf.take writesize := by
          rw [List.take_take, Nat.min_eq_left (Nat.le_add_right _ _)]
        have later :
            (buf.take (writesize + count)).drop writesize = (buf.drop writesize).take count := by
          rw [List.drop_take, Nat.add_sub_cancel_left]
        rw [writeLoop, if_neg notNone, roomEq]
        simp only [Option.bind_eq_bind, Option.bind_some, store, found, sameSize, first, later]
        exact alone more (by omega)

end ITCListStream

open ITCListStream

variable {fill : Nat → Nat → UInt8} {ls : ITCListStream} {written : List UInt8}

/-- A write that comes to its end with fewer bytes than it has been given: the bytes
that fit are appended, and the fields of a successful write follow only if all are. -/
theorem listStreamWriteIn_spec (fill : Nat → Nat → UInt8) (sound : Sound ls written)
    (memory : Nat) (buf : List UInt8) :
    ∃ count stored after,
      listStreamWriteIn fill memory ls buf = some (count, after) ∧
        count = min buf.length (ls.datasize - ls.writepos + memory / 2 * ls.datasize) ∧
          Linked stored (written ++ buf.take count) ∧
            stored.readOffset = ls.readOffset ∧ stored.eof = ls.eof ∧
              stored.size = ls.size ∧
                listStreamWrite fill ls (buf.take count) =
                    some
                      (if 0 < count then
                        { stored with
                          eof := false, size := int32 (stored.size + count) }
                      else stored) ∧
                  after = if count < buf.length then stored
                    else if 0 < count then
                      { stored with
                        eof := false, size := int32 (stored.size + count) }
                    else stored := by
  obtain ⟨count, stored, loop, counted, alone⟩ :=
    writeLoopIn_spec fill sound.toLinked memory (Nat.lt_succ_self buf.length)
  have taken : (buf.take count).length = count := by
    rw [List.length_take]
    omega
  obtain ⟨again, loopAgain, linked, offset, eof, size⟩ :=
    writeLoop_spec fill sound.toLinked (Nat.lt_succ_self (buf.take count).length)
  obtain rfl : again = stored := by
    have same := alone ((buf.take count).length + 1) (by omega)
    exact Option.some.inj (loopAgain.symm.trans same)
  refine ⟨count, again, _, ?_, counted, linked, offset, eof, size, ?_, rfl⟩
  · rw [listStreamWriteIn, loop]
    simp only [Option.bind_eq_bind, Option.bind_some, decide_eq_true_eq]
    split
    · rfl
    · split <;> rfl
  · rw [listStreamWrite, loopAgain, taken]
    simp only [Option.bind_eq_bind, Option.bind_some]
    split <;> rfl

theorem int32_add_ne {count : Nat} (positive : 0 < count) (small : count < 2 ^ 31)
    (value : Int) : int32 (int32 value + count) ≠ int32 value := by
  rw [int32_add_left, int32, int32, Ne, Int.bmod_eq_bmod_iff_bmod_sub_eq_zero, add_sub_cancel_left]
  intro zero
  have fits : int32 (count : Int) = count := int32_natCast small
  rw [int32] at fits
  omega

/-- A write returns, appends the bytes that it counts, and is right exactly where the
memory suffices or fails at once. -/
theorem writeRight_iff (fill : Nat → Nat → UInt8) (sound : Sound ls written) (memory : Nat)
    {buf : List UInt8} (small : buf.length < 2 ^ 31) :
    ∃ count after,
      listStreamWriteIn fill memory ls buf = some (count, after) ∧
        Linked after (written ++ buf.take count) ∧
          (WriteRight fill ls buf count after ↔ WriteFits memory ls buf) := by
  obtain ⟨count, stored, after, writes, counted, linked, offset, eof, size, same, ends⟩ :=
    listStreamWriteIn_spec fill sound memory buf
  have afterLinked : Linked after (written ++ buf.take count) := by
    rw [ends]
    split
    · exact linked
    · split
      · exact { linked with }
      · exact linked
  have positive := sound.positive
  have fits : WriteFits memory ls buf ↔ count = buf.length ∨ count = 0 := by
    have inside := sound.writeInside
    have nodes : memory / 2 * ls.datasize = 0 ↔ memory < 2 := by
      rw [Nat.mul_eq_zero]
      omega
    unfold WriteFits
    omega
  refine ⟨count, after, writes, afterLinked, ?_⟩
  rw [fits]
  constructor
  · intro right
    by_contra neither
    rw [not_or] at neither
    have stale : after = stored := by rw [ends, if_pos (by omega)]
    have grows := right.size
    rw [stale, size, sound.size] at grows
    exact int32_add_ne (Nat.pos_of_ne_zero neither.2) (by omega) _ grows.symm
  · intro whole
    have success :
        after =
          if 0 < count then
            { stored with eof := false, size := int32 (stored.size + count) }
          else stored := by
      rw [ends]
      rcases whole with all | nothing
      · rw [if_neg (by omega)]
      · rw [nothing, if_neg (Nat.lt_irrefl 0), ite_self]
    have readOffset : after.readOffset = ls.readOffset := by
      rw [success]
      split <;> exact offset
    refine ⟨by rw [same, success], ?_, ?_, ?_⟩
    · rw [success]
      split
      · rw [size]
      · have none : count = 0 := by omega
        rw [size, none, sound.size, int32_add_left]
        simp
    · rw [listStreamAvailable_eq afterLinked, listStreamAvailable_eq sound.toLinked,
        int32_add_left, readOffset, List.length_append, List.length_take,
        Nat.min_eq_left (by omega)]
      congr 1
      push_cast
      omega
    · intro some
      rw [success, if_pos some]

inductive OomCall
  | call (call : ListCall)
  | write (memory : Nat) (buf : List UInt8)
  deriving DecidableEq

def oomCall (fill : Nat → Nat → UInt8) (history : ListHistory) : OomCall → Option ListHistory
  | .call call => listCall fill history call
  | .write memory buf => do
      let (count, stream) ← listStreamWriteIn fill memory history.stream buf
      some { history with stream := stream, written := history.written ++ buf.take count }

def OomAllowed (history : ListHistory) : OomCall → Prop
  | .call _ => True
  | .write memory buf => WriteFits memory history.stream buf ∧ buf.length < 2 ^ 31

instance (history : ListHistory) : ∀ call, Decidable (OomAllowed history call)
  | .call _ => inferInstanceAs (Decidable True)
  | .write _ _ => inferInstanceAs (Decidable (_ ∧ _))

theorem oomCall_sound (fill : Nat → Nat → UInt8) (before : ListHistory) (call : OomCall)
    (after : ListHistory) (inv : SoundWhileFits before)
    (step : Guarded OomAllowed (Enabled (oomCall fill)) before call after) :
    SoundWhileFits after := by
  obtain ⟨allowed, step⟩ := step
  cases call with
  | call call => exact soundWhileFits_step fill before call after inv step
  | write memory buf =>
    intro fits
    obtain ⟨⟨count, stream⟩, writes, same⟩ := Option.bind_eq_some_iff.mp step
    obtain rfl := Option.some.inj same
    have fitsBefore : before.written.length < 2 ^ 31 := by
      rw [List.length_append] at fits
      omega
    have sound := inv fitsBefore
    obtain ⟨again, stored, againWrites, -, right⟩ := writeRight_iff fill sound memory allowed.2
    obtain ⟨rfl, rfl⟩ := Prod.mk.inj (Option.some.inj (writes.symm.trans againWrites))
    obtain ⟨later, laterWrites, laterSound, -⟩ := listStreamWrite_spec fill sound (buf.take count)
    have success := (right.mpr allowed.1).same
    obtain rfl := Option.some.inj (success.symm.trans laterWrites)
    exact laterSound

/-- In every run of reads, seeks and writes that have memory or fail at once, a write
returns, what it counts is behind what was written before, and it is right exactly where
it has memory or fails at once. -/
theorem listStreamWrite_oom_iff {fill : Nat → Nat → UInt8} {datasize : Nat}
    (positive : 0 < datasize) {calls : List OomCall} {history : ListHistory}
    (run :
      Run (Guarded OomAllowed (Enabled (oomCall fill))) (ListHistory.opened fill datasize)
        calls history)
    (fits : history.written.length < 2 ^ 31) (memory : Nat) {buf : List UInt8}
    (small : buf.length < 2 ^ 31) :
    ∃ count after,
      listStreamWriteIn fill memory history.stream buf = some (count, after) ∧
        Linked after (history.written ++ buf.take count) ∧
          (WriteRight fill history.stream buf count after ↔
            WriteFits memory history.stream buf) := by
  have initial : SoundWhileFits (ListHistory.opened fill datasize) :=
    fun _ => sound_open fill positive
  have sound : history.stream.Sound history.written :=
    run.invariant initial (oomCall_sound fill) fits
  exact writeRight_iff fill sound memory small

/-- A write of three bytes in nodes of two, with no memory for the second node, after
two bytes have been written: nothing is written, which is right. -/
theorem listStreamWrite_oom_full :
    ∃ count after,
      listStreamWriteIn (fun _ _ => 0) 1
            ⟨false, 2, [⟨none, none, [1, 2]⟩], 2, 0, 0, 0, 0, 0, 2⟩ [3, 4, 5] =
          some (count, after) ∧
        Linked after ([1, 2] ++ [3, 4, 5].take count) ∧
          (WriteRight (fun _ _ => 0)
              ⟨false, 2, [⟨none, none, [1, 2]⟩], 2, 0, 0, 0, 0, 0, 2⟩ [3, 4, 5] count
              after ↔
            WriteFits 1 ⟨false, 2, [⟨none, none, [1, 2]⟩], 2, 0, 0, 0, 0, 0, 2⟩ [3, 4, 5]) :=
  listStreamWrite_oom_iff (by decide : 0 < 2)
    (Run.guarded_foldlM
      (by decide :
        [OomCall.write 0 [1, 2]].foldlM
            (fun state event =>
              if OomAllowed state event then oomCall (fun _ _ => 0) state event else none)
            (ListHistory.opened (fun _ _ => 0) 2) =
          some ⟨⟨false, 2, [⟨none, none, [1, 2]⟩], 2, 0, 0, 0, 0, 0, 2⟩, [], [1, 2]⟩))
    (by decide) 1 (by decide)

/-- A write of three bytes into a fresh stream with nodes of two, and no memory: two
bytes are stored and counted, the size stays 0, and a read delivers nothing. -/
theorem listStreamWrite_oom_stale :
    listStreamWriteIn (fun _ _ => 0) 0 (itcListStreamOpen (fun _ _ => 0) 2) [1, 2, 3] =
        some (2, ⟨true, 0, [⟨none, none, [1, 2]⟩], 2, 0, 0, 0, 0, 0, 2⟩) ∧
      ¬ WriteRight (fun _ _ => 0) (itcListStreamOpen (fun _ _ => 0) 2) [1, 2, 3] 2
          ⟨true, 0, [⟨none, none, [1, 2]⟩], 2, 0, 0, 0, 0, 0, 2⟩ ∧
      listStreamRead ⟨true, 0, [⟨none, none, [1, 2]⟩], 2, 0, 0, 0, 0, 0, 2⟩ 2 =
        some ([], ⟨true, 0, [⟨none, none, [1, 2]⟩], 2, 0, 0, 0, 0, 0, 2⟩) := by
  refine ⟨by decide, fun right => ?_, by decide⟩
  have grows := right.size
  revert grows
  decide

end

end IteSdk.Itc
