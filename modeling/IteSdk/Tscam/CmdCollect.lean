import IteSdk.Tscam.CmdPkt

/-!
# Collecting the fragments of a command

The buffer of a parser is a structure, the bytes of the context that were copied,
and what is left of the buffer.  A fragment is copied where it fits, and a command
is complete when nothing is left.
-/

namespace IteSdk.Tscam

open Lib

/-- The parser has collected these bytes of a context of `capacity` bytes. -/
structure Collecting (infoSize : Nat) (pParser : CmdPktParser) (capacity : Nat)
    (collected : List UInt8) : Prop where
  size : pParser.cmdInfoSize = infoSize + capacity
  cur : pParser.pCurCmdCtxt = infoSize + collected.length
  data :
    ∃ info left, pParser.pCmdPktPrivData = some (info ++ collected ++ left) ∧
      info.length = infoSize ∧ collected.length + left.length = capacity

def contextOk (context : CmdContext) : Bool :=
  slice (getDword context 0) 1 context = [tscmGenCheckSum (context.take (getDword context 0))]

def ContextInside (context : CmdContext) : Prop :=
  4 ≤ context.length ∧ getDword context 0 + 1 ≤ context.length

/-- The fragment fits behind what was collected, and what is complete can be
checked. -/
def FragmentFits (capacity : Nat) (collected fragment : List UInt8) : Prop :=
  collected.length + fragment.length ≤ capacity ∧
    (collected.length + fragment.length = capacity → ContextInside (collected ++ fragment))

variable {infoSize capacity offset count : Nat} {pParser after : CmdPktParser}
  {collected fragment buf bytes : List UInt8} {stop : TscmStop}

theorem bytesAt_ok (inside : offset + count ≤ bytes.length) :
    bytesAt stop bytes offset count = .ok (slice offset count bytes) :=
  if_pos inside

theorem bytesAt_error (outside : bytes.length < offset + count) :
    bytesAt stop bytes offset count = .error stop :=
  if_neg (by omega)

theorem getWord_slice (first : List UInt8) (inside : offset + 2 ≤ count) :
    getWord (slice 0 count first) offset = getWord first offset := by
  have byte (i : Nat) (less : i < count) :
      (slice 0 count first).getD i 0 = first.getD i 0 := by
    rw [List.getD_eq_getElem?_getD, List.getD_eq_getElem?_getD, getElem?_slice,
      if_pos less, Nat.zero_add]
  rw [getWord, getWord, byte offset (by omega), byte (offset + 1) (by omega)]

theorem getDword_slice (first : List UInt8) : getDword (slice 0 4 first) 0 = getDword first 0 := by
  rw [getDword, getDword, getWord_slice first (by omega), getWord_slice first (by omega)]

theorem getDword_append (inside : 4 ≤ collected.length) (rest : List UInt8) :
    getDword (collected ++ rest) 0 = getDword collected 0 := by
  have byte (i : Nat) (less : i < 4) :
      (collected ++ rest).getD i 0 = collected.getD i 0 := by
    rw [List.getD_eq_getElem?_getD, List.getD_eq_getElem?_getD,
      List.getElem?_append_left (by omega)]
  simp only [getDword, getWord, byte 0 (by omega), byte 1 (by omega),
    byte 2 (by omega), byte 3 (by omega)]

theorem getDword_lt (bytes : List UInt8) (offset : Nat) : getDword bytes offset < 2 ^ 32 := by
  have low := (bytes.getD (offset + 2 + 1) 0).toNat_lt
  have second := (bytes.getD (offset + 2) 0).toNat_lt
  have third := (bytes.getD (offset + 1) 0).toNat_lt
  have high := (bytes.getD offset 0).toNat_lt
  simp only [getDword, getWord]
  omega

theorem ok_bind {α β : Type} (value : α) (next : α → Except TscmStop β) :
    (Except.ok value >>= next) = next value := rfl

theorem error_bind {α β : Type} (stop : TscmStop) (next : α → Except TscmStop β) :
    (Except.error stop >>= next) = Except.error stop := rfl

/-- The buffer that is allocated has room for the command length of the first
fragment and the checksum, unless the size overflows. -/
theorem cmdPktAlloc_spec (grant : Nat → Bool)
    (nothing : pParser.pCmdPktPrivData = none) (dword : 4 ≤ buf.length)
    (noOverflow : infoSize + getDword buf 0 + 1 < 2 ^ 32)
    (granted : grant (infoSize + getDword buf 0 + 1) = true) :
    ∃ after, cmdPktAlloc grant infoSize pParser buf = .ok after ∧
      Collecting infoSize after (getDword buf 0 + 1) [] ∧
        after.bCollecteDone = pParser.bCollecteDone := by
  have same := getDword_slice buf
  rw [cmdPktAlloc, nothing]
  simp only [bytesAt_ok (show 0 + 4 ≤ buf.length by omega), bind, Except.bind,
    same, Nat.mod_eq_of_lt noOverflow, granted, if_true]
  refine ⟨_, rfl, ⟨by rw [Nat.add_assoc], rfl, ?_⟩, rfl⟩
  refine ⟨List.replicate infoSize 0, List.replicate (getDword buf 0 + 1) 0, ?_,
    List.length_replicate, ?_⟩
  · rw [List.append_nil, ← List.replicate_add, Nat.add_assoc]
  · simp

section

variable (collecting : Collecting infoSize pParser capacity collected)

include collecting

theorem cmdPktCopy_spec (inside : count ≤ buf.length) (room : collected.length + count ≤ capacity) :
    ∃ after, cmdPktCopy pParser buf count = .ok after ∧
      Collecting infoSize after capacity (collected ++ buf.take count) ∧
        after.bCollecteDone = pParser.bCollecteDone := by
  obtain ⟨info, left, data, infoLength, lengths⟩ := collecting.data
  have taken : (buf.take count).length = count := by
    rw [List.length_take]
    omega
  have fits :
      count = 0 ∨ pParser.pCurCmdCtxt + count ≤ (info ++ collected ++ left).length := by
    rw [collecting.cur]
    simp only [List.length_append]
    omega
  have copied :
      overwrite pParser.pCurCmdCtxt (buf.take count) (info ++ collected ++ left) =
        info ++ (collected ++ buf.take count) ++ left.drop count := by
    have front : (info ++ collected).length = pParser.pCurCmdCtxt := by
      rw [collecting.cur, List.length_append, infoLength]
    rw [overwrite, List.take_left' front, taken, ← front,
      List.drop_length_add_append, List.append_assoc info]
  rw [cmdPktCopy, data]
  simp only [bytesAt_ok (show 0 + count ≤ buf.length by omega), bind, Except.bind, if_pos fits]
  refine ⟨_, rfl, ⟨collecting.size, ?_, ?_⟩, rfl⟩
  · simp only [collecting.cur, List.length_append, taken]
    omega
  · refine ⟨info, left.drop count, ?_, infoLength, ?_⟩
    · exact congrArg some copied
    · simp only [List.length_append, List.length_drop, taken]
      omega

theorem cmdPktCopy_outside (inside : count ≤ buf.length)
    (noRoom : capacity < collected.length + count) :
    cmdPktCopy pParser buf count = .error .buffer := by
  obtain ⟨info, left, data, infoLength, lengths⟩ := collecting.data
  rw [cmdPktCopy, data]
  simp only [bytesAt_ok (show 0 + count ≤ buf.length by omega), bind, Except.bind]
  rw [if_neg]
  simp only [collecting.cur, List.length_append]
  omega

theorem cmdPktFinish_partial (more : collected.length < capacity) :
    cmdPktFinish infoSize pParser = .ok pParser := by
  obtain ⟨info, left, data, -, -⟩ := collecting.data
  rw [cmdPktFinish, data]
  dsimp only
  rw [if_pos]
  rw [collecting.cur, collecting.size]
  omega

theorem cmdPktFinish_complete (complete : collected.length = capacity) :
    cmdPktFinish infoSize pParser =
      if 4 ≤ collected.length ∧ getDword collected 0 + 1 ≤ collected.length then
        .ok
          (if contextOk collected then
            { pParser with bCollecteDone := true }
          else
            pParser)
      else
        .error .buffer := by
  obtain ⟨info, left, data, infoLength, lengths⟩ := collecting.data
  obtain rfl : left = [] := List.length_eq_zero_iff.mp (by omega)
  rw [List.append_nil] at data
  have sliced (offset count : Nat) :
      slice (infoSize + offset) count (info ++ collected) = slice offset count collected := by
    rw [slice, slice, ← infoLength, List.drop_length_add_append]
  have total : (info ++ collected).length = infoSize + collected.length := by
    rw [List.length_append, infoLength]
  have notLess : ¬ pParser.pCurCmdCtxt < pParser.cmdInfoSize := by
    rw [collecting.cur, collecting.size]
    omega
  rw [cmdPktFinish, data]
  dsimp only
  rw [if_neg notLess]
  by_cases dword : 4 ≤ collected.length
  · have first : slice infoSize 4 (info ++ collected) = slice 0 4 collected := sliced 0 4
    rw [bytesAt_ok (by omega), first, ok_bind, getDword_slice]
    by_cases inside : getDword collected 0 + 1 ≤ collected.length
    · have context :
          slice infoSize (getDword collected 0) (info ++ collected) =
            collected.take (getDword collected 0) := sliced 0 _
      rw [bytesAt_ok (by omega), ok_bind, bytesAt_ok (by omega), ok_bind, context, sliced]
      rw [if_pos (And.intro dword inside)]
      simp only [contextOk, decide_eq_true_eq]
    · rw [if_neg (by omega)]
      by_cases context : getDword collected 0 ≤ collected.length
      · rw [bytesAt_ok (by omega), ok_bind, bytesAt_error (by omega), error_bind]
      · rw [bytesAt_error (by omega), error_bind]
  · rw [if_neg (by omega), bytesAt_error (by omega), error_bind]

end

/-! ## The decoder -/

def fragmentDone (capacity : Nat) (context : CmdContext) : Bool :=
  context.length = capacity && contextOk context

theorem cmdPktCopy_finish (collecting : Collecting infoSize pParser capacity collected)
    (inside : count ≤ buf.length) (fits : FragmentFits capacity collected (buf.take count)) :
    ∃ after,
      (cmdPktCopy pParser buf count >>= cmdPktFinish infoSize) = .ok after ∧
        Collecting infoSize after capacity (collected ++ buf.take count) ∧
          after.bCollecteDone =
            (pParser.bCollecteDone || fragmentDone capacity (collected ++ buf.take count)) := by
  have taken : (buf.take count).length = count := by
    rw [List.length_take]
    omega
  have length :
      (collected ++ buf.take count).length =
        collected.length + (buf.take count).length := List.length_append
  obtain ⟨room, check⟩ := fits
  rw [taken] at room check length
  obtain ⟨copied, copies, collects, done⟩ := cmdPktCopy_spec collecting inside room
  rw [copies]
  by_cases full : collected.length + count = capacity
  · have whole : (collected ++ buf.take count).length = capacity := length.trans full
    have finished := cmdPktFinish_complete collects whole
    have checkable :
        4 ≤ (collected ++ buf.take count).length ∧
          getDword (collected ++ buf.take count) 0 + 1 ≤
            (collected ++ buf.take count).length := check full
    rw [if_pos checkable] at finished
    cases right : contextOk (collected ++ buf.take count) with
    | true =>
      rw [right, if_pos rfl] at finished
      refine ⟨_, finished, ⟨collects.size, collects.cur, collects.data⟩, ?_⟩
      simp [fragmentDone, right, whole]
    | false =>
      rw [right, if_neg (by simp)] at finished
      refine ⟨_, finished, collects, ?_⟩
      simp [fragmentDone, right, done]
  · refine ⟨copied, cmdPktFinish_partial collects (by omega), collects, ?_⟩
    rw [done, fragmentDone, length]
    simp [full]

theorem cmdPktCopy_finish_outside (collecting : Collecting infoSize pParser capacity collected)
    (inside : count ≤ buf.length) (fitsNot : ¬ FragmentFits capacity collected (buf.take count)) :
    (cmdPktCopy pParser buf count >>= cmdPktFinish infoSize) = .error .buffer := by
  have taken : (buf.take count).length = count := by
    rw [List.length_take]
    omega
  by_cases room : collected.length + count ≤ capacity
  · obtain ⟨copied, copies, collects, -⟩ := cmdPktCopy_spec collecting inside room
    have split :
        collected.length + count = capacity ∧ ¬ ContextInside (collected ++ buf.take count) := by
      by_contra other
      refine fitsNot ⟨by omega, fun full => ?_⟩
      rw [taken] at full
      by_contra outside
      exact other ⟨full, outside⟩
    have whole : (collected ++ buf.take count).length = capacity := by
      rw [List.length_append, taken]
      exact split.1
    rw [copies]
    exact (cmdPktFinish_complete collects whole).trans (if_neg split.2)
  · rw [cmdPktCopy_outside collecting inside (by omega)]
    rfl

theorem cmdPktDecode_overflow (grant : Nat → Bool)
    (nothing : pParser.pCmdPktPrivData = none) (dword : 4 ≤ buf.length)
    (inside : count ≤ buf.length) (small : infoSize < 2 ^ 32)
    (overflow : 2 ^ 32 ≤ infoSize + getDword buf 0 + 1)
    (granted : grant ((infoSize + getDword buf 0 + 1) % 2 ^ 32) = true) :
    cmdPktDecode grant infoSize pParser buf count = .error .buffer := by
  have less := getDword_lt buf 0
  have size : (infoSize + getDword buf 0 + 1) % 2 ^ 32 ≤ infoSize := by omega
  rw [cmdPktDecode, cmdPktAlloc, nothing]
  simp only [bytesAt_ok (show 0 + 4 ≤ buf.length by omega), bind, Except.bind,
    getDword_slice, granted, if_true, cmdPktCopy,
    bytesAt_ok (show 0 + count ≤ buf.length by omega), List.length_replicate]
  by_cases empty : count = 0
  · have outside :
        (List.replicate ((infoSize + getDword buf 0 + 1) % 2 ^ 32)
          (0 : UInt8)).length < infoSize + 4 := by
      rw [List.length_replicate]
      omega
    simp only [empty, true_or, if_true, cmdPktFinish, slice_zero, overwrite_nil, Nat.add_zero]
    rw [if_neg (by omega)]
    simp only [bytesAt_error outside]
    rfl
  · rw [if_neg (by omega)]

/-- The next fragment can be decoded without an access outside the packet or the
buffer. -/
def DecodeFits (grant : Nat → Bool) (infoSize : Nat) (pParser : CmdPktParser)
    (buf : List UInt8) (count : Nat) : Prop :=
  match pParser.pCmdPktPrivData with
  | none =>
    grant ((infoSize + getDword buf 0 + 1) % 2 ^ 32) = true →
      infoSize + getDword buf 0 + 1 < 2 ^ 32 ∧ FragmentFits (getDword buf 0 + 1) [] (buf.take count)
  | some data =>
    FragmentFits (data.length - infoSize)
      (slice infoSize (pParser.pCurCmdCtxt - infoSize) data) (buf.take count)

inductive CmdPktParser.Between (infoSize : Nat) (pParser : CmdPktParser) : Prop
  | empty (nothing : pParser.pCmdPktPrivData = none) (notDone : pParser.bCollecteDone = false)
  | collecting (capacity : Nat) (collected : List UInt8)
      (collecting : Collecting infoSize pParser capacity collected)
      (done : pParser.bCollecteDone = true → collected.length = capacity ∧ 4 ≤ capacity)

theorem CmdPktParser.Between.zero : CmdPktParser.zero.Between infoSize := .empty rfl rfl

theorem cmdPktDecode_next
    (collecting : Collecting infoSize pParser capacity collected) (grant : Nat → Bool) :
    cmdPktDecode grant infoSize pParser buf count =
      (cmdPktCopy pParser buf count >>= cmdPktFinish infoSize) := by
  obtain ⟨info, left, data, -⟩ := collecting.data
  rw [cmdPktDecode, cmdPktAlloc, data]
  rfl

theorem cmdPktDecode_first (grant : Nat → Bool) (count : Nat)
    (nothing : pParser.pCmdPktPrivData = none) (dword : 4 ≤ buf.length)
    (noOverflow : infoSize + getDword buf 0 + 1 < 2 ^ 32)
    (granted : grant (infoSize + getDword buf 0 + 1) = true) :
    ∃ made, Collecting infoSize made (getDword buf 0 + 1) [] ∧
      made.bCollecteDone = pParser.bCollecteDone ∧
        cmdPktDecode grant infoSize pParser buf count =
          (cmdPktCopy made buf count >>= cmdPktFinish infoSize) := by
  obtain ⟨made, makes, collecting, done⟩ := cmdPktAlloc_spec grant nothing dword noOverflow granted
  refine ⟨made, collecting, done, ?_⟩
  rw [cmdPktDecode, makes]
  rfl

theorem cmdPktDecode_refused (grant : Nat → Bool) (count : Nat)
    (nothing : pParser.pCmdPktPrivData = none) (dword : 4 ≤ buf.length)
    (refused : grant ((infoSize + getDword buf 0 + 1) % 2 ^ 32) = false) :
    ∃ after, cmdPktDecode grant infoSize pParser buf count = .ok after ∧
      after.pCmdPktPrivData = none ∧ after.bCollecteDone = pParser.bCollecteDone := by
  have alloc :
      cmdPktAlloc grant infoSize pParser buf =
        .ok { pParser with cmdInfoSize := (infoSize + getDword buf 0 + 1) % 2 ^ 32 } := by
    rw [cmdPktAlloc, nothing]
    dsimp only
    rw [bytesAt_ok (by omega), ok_bind, getDword_slice, refused]
    rfl
  refine
    ⟨{ pParser with cmdInfoSize := (infoSize + getDword buf 0 + 1) % 2 ^ 32 }, ?_, nothing, rfl⟩
  rw [cmdPktDecode, alloc, ok_bind, cmdPktCopy]
  dsimp only
  rw [nothing, ok_bind, cmdPktFinish]

theorem decodeFits_collecting
    (collecting : Collecting infoSize pParser capacity collected) (grant : Nat → Bool) :
    DecodeFits grant infoSize pParser buf count ↔
      FragmentFits capacity collected (buf.take count) := by
  obtain ⟨info, left, data, infoLength, lengths⟩ := collecting.data
  have size : (info ++ collected ++ left).length - infoSize = capacity := by
    simp only [List.length_append]
    omega
  have held :
      slice infoSize (pParser.pCurCmdCtxt - infoSize) (info ++ collected ++ left) = collected := by
    rw [collecting.cur, Nat.add_sub_cancel_left, slice, List.append_assoc,
      List.drop_left' infoLength, List.take_left' rfl]
  rw [DecodeFits, data]
  dsimp only
  rw [size, held]

theorem Collecting.between {before : CmdPktParser}
    (collecting : Collecting infoSize after capacity (collected ++ fragment))
    (fits : FragmentFits capacity collected fragment)
    (kept : before.bCollecteDone = true → collected.length = capacity ∧ 4 ≤ capacity)
    (done :
      after.bCollecteDone =
        (before.bCollecteDone || fragmentDone capacity (collected ++ fragment))) :
    after.Between infoSize := by
  refine .collecting capacity _ collecting fun isDone => ?_
  rw [List.length_append]
  rw [done, Bool.or_eq_true] at isDone
  rcases isDone with old | new
  · have full := kept old
    have room := fits.1
    exact ⟨by omega, full.2⟩
  · simp only [fragmentDone, Bool.and_eq_true, decide_eq_true_eq, List.length_append] at new
    have long := (fits.2 new.1).1
    rw [List.length_append] at long
    exact ⟨new.1, by omega⟩

/-- The decoder stays inside the packet and the buffer exactly where the fragment
fits, and keeps what a parser is. -/
theorem cmdPktDecode_spec (grant : Nat → Bool) (between : pParser.Between infoSize)
    (dword : 4 ≤ buf.length) (inside : count ≤ buf.length) (small : infoSize < 2 ^ 32) :
    (DecodeFits grant infoSize pParser buf count →
      ∃ after, cmdPktDecode grant infoSize pParser buf count = .ok after ∧ after.Between infoSize) ∧
      (¬ DecodeFits grant infoSize pParser buf count →
        cmdPktDecode grant infoSize pParser buf count = .error .buffer) := by
  cases between with
  | collecting capacity collected collecting done =>
    rw [decodeFits_collecting collecting, cmdPktDecode_next collecting]
    constructor
    · intro fits
      obtain ⟨after, decoded, collects, isDone⟩ := cmdPktCopy_finish collecting inside fits
      exact ⟨after, decoded, collects.between fits done isDone⟩
    · exact cmdPktCopy_finish_outside collecting inside
  | empty nothing notDone =>
    rw [DecodeFits, nothing]
    dsimp only
    cases granted : grant ((infoSize + getDword buf 0 + 1) % 2 ^ 32) with
    | false =>
      obtain ⟨after, decoded, none_, same⟩ := cmdPktDecode_refused grant count nothing dword granted
      refine ⟨fun _ => ⟨after, decoded, .empty none_ (same.trans notDone)⟩, ?_⟩
      intro never
      exact (never (by simp)).elim
    | true =>
      by_cases noOverflow : infoSize + getDword buf 0 + 1 < 2 ^ 32
      · rw [Nat.mod_eq_of_lt noOverflow] at granted
        obtain ⟨made, collecting, same, decodes⟩ :=
          cmdPktDecode_first grant count nothing dword noOverflow granted
        rw [decodes]
        constructor
        · intro fits
          obtain ⟨after, decoded, collects, isDone⟩ :=
            cmdPktCopy_finish collecting inside (fits rfl).2
          refine ⟨after, decoded, collects.between (fits rfl).2 ?_ isDone⟩
          rw [same, notDone]
          intro never
          cases never
        · intro fitsNot
          exact cmdPktCopy_finish_outside collecting inside fun fits =>
            fitsNot fun _ => ⟨noOverflow, fits⟩
      · refine ⟨fun fits => (noOverflow (fits rfl).1).elim, fun _ => ?_⟩
        exact cmdPktDecode_overflow grant nothing dword inside small (by omega) granted

end IteSdk.Tscam
