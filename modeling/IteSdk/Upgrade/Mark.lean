import IteSdk.Lib.Memory
import IteSdk.Lib.Transition

/-!
# The upgrade mark

`ug_mark.c` with `CFG_UPGRADE_MARK_POS` set.  A call opens the device, reads
the mark block, changes its first bytes and writes it back; which of these
device calls succeed is part of the input.  The line numbers are those of
`ug_mark.c`.
-/

namespace IteSdk.Upgrade

section

open Lib

def ugMarkBackuping : List UInt8 :=
  ['B', 'A', 'C', 'K', 'U', 'P', 'I', 'N', 'G'].map (·.toNat.toUInt8)

def ugMarkUpgrading : List UInt8 :=
  ['U', 'P', 'G', 'R', 'A', 'D', 'I', 'N', 'G'].map (·.toNat.toUInt8)

/-- What `memset(ugMarkBuf, -1, sizeof(ugMarkUpgrading))` writes. -/
def ugMarkCleared : List UInt8 := List.replicate ugMarkUpgrading.length 0xff

/-- The mark block on the device and the flag in memory.  A block is larger
than a mark. -/
structure UgMark where
  block : List UInt8
  ugBackupPackageFinished : Bool
  markFits : ugMarkUpgrading.length ≤ block.length

/-- The outcome of `write`: a failing one may leave anything in the block. -/
inductive MarkWrite
  | stored
  | failed (content : List UInt8)

/-- The outcomes of the device calls that one function makes. -/
structure MarkIo where
  openSucceeds : Bool
  ioctlSucceeds : Bool
  lseekSucceeds : Bool
  mallocSucceeds : Bool
  readSucceeds : Bool
  lseekBackSucceeds : Bool
  write : MarkWrite

def ugMarkInit (io : MarkIo) : Nat :=
  if io.openSucceeds = false then 59
  else if io.ioctlSucceeds = false then 66
  else if io.lseekSucceeds = false then 76
  else if io.mallocSucceeds = false then 85
  else if io.readSucceeds = false then 92
  else 0

/-- The block after `content` was written to it. -/
def UgMark.writeBlock (mark : UgMark) (content : List UInt8) : UgMark :=
  { mark with
    block := overwrite 0 (content.take mark.block.length) mark.block
    markFits := by
      have fits := mark.markFits
      rw [length_overwrite (by rw [List.length_take]; omega)]
      exact fits }

/-- The part that the three functions share: read the block, put `stored` at its
start and write it back.  The second component says whether the function came
to the statement behind the `write`. -/
def ugMarkStore (lseekLine : Nat) (stored : List UInt8) (io : MarkIo)
    (mark : UgMark) : Nat × Bool × UgMark :=
  let ret := ugMarkInit io
  if ret ≠ 0 then
    (ret, false, mark)
  else if io.lseekBackSucceeds = false then
    (lseekLine, false, mark)
  else
    match io.write with
    | .stored => (0, true, mark.writeBlock (overwrite 0 stored mark.block))
    -- `goto end` with `ret` still zero.
    | .failed content => (0, false, mark.writeBlock content)

def ugUpgradeCheck (io : MarkIo) (mark : UgMark) : Nat :=
  let ret := ugMarkInit io
  if ret ≠ 0 then ret
  else if mark.block.take ugMarkUpgrading.length = ugMarkUpgrading then 117
  else 0

def ugUpgradeStart (io : MarkIo) (mark : UgMark) : Nat × UgMark :=
  let result := ugMarkStore 149 ugMarkBackuping io { mark with ugBackupPackageFinished := false }
  (result.1, result.2.2)

def ugUpgradeBackupFinish (io : MarkIo) (mark : UgMark) : Nat × UgMark :=
  if mark.ugBackupPackageFinished then
    (0, mark)
  else
    let result := ugMarkStore 183 ugMarkUpgrading io mark
    if result.2.1 then
      (result.1, { result.2.2 with ugBackupPackageFinished := true })
    else
      (result.1, result.2.2)

def ugUpgradeFinish (io : MarkIo) (mark : UgMark) : Nat × UgMark :=
  let result := ugMarkStore 216 ugMarkCleared io mark
  (result.1, result.2.2)

end

/-!
# Runs of the upgrade mark

A run is any sequence of calls and power losses.  Beside the device state it
remembers the last call and whether an upgrade is under way, which is what the
mark is for.
-/

section

open Lib

inductive MarkFunction
  | start
  | backupFinish
  | finish
  deriving DecidableEq

def MarkFunction.mark : MarkFunction → List UInt8
  | .start => ugMarkBackuping
  | .backupFinish => ugMarkUpgrading
  | .finish => ugMarkCleared

def MarkFunction.call : MarkFunction → MarkIo → UgMark → Nat × UgMark
  | .start => ugUpgradeStart
  | .backupFinish => ugUpgradeBackupFinish
  | .finish => ugUpgradeFinish

def MarkFunction.marked (function : MarkFunction) (block : List UInt8) : List UInt8 :=
  overwrite 0 function.mark block

inductive MarkEvent
  | call (function : MarkFunction) (io : MarkIo)
  | powerLoss

structure MarkCall where
  function : MarkFunction
  ret : Nat
  before : List UInt8

structure MarkHistory where
  state : UgMark
  last : Option MarkCall
  /-- A backup has finished and no upgrade since. -/
  upgrading : Bool

def markStep (history : MarkHistory) : MarkEvent → MarkHistory
  | .call function io =>
    let result := function.call io history.state
    { state := result.2
      last := some ⟨function, result.1, history.state.block⟩
      upgrading :=
        if result.1 ≠ 0 then
          history.upgrading
        else
          match function with
          | .start => history.upgrading
          | .backupFinish => true
          | .finish => false }
  | .powerLoss =>
    { history with
      state := { history.state with ugBackupPackageFinished := false }
      last := none }

structure MarkSafe (history : MarkHistory) : Prop where
  stored :
    ∀ call, history.last = some call → call.ret = 0 →
      history.state.block = call.function.marked call.before
  reported : history.upgrading = true → ∀ io, ugUpgradeCheck io history.state ≠ 0

/-- The device calls before the `write` all succeed. -/
def MarkIo.reachesWrite (io : MarkIo) : Prop :=
  io.openSucceeds ∧ io.ioctlSucceeds ∧ io.lseekSucceeds ∧
    io.mallocSucceeds ∧ io.readSucceeds ∧ io.lseekBackSucceeds
deriving Decidable

/-- What a `write` of `block` leaves where `before` was. -/
def MarkWrite.leaves (write : MarkWrite) (before block : List UInt8) : List UInt8 :=
  match write with
  | .stored => block
  | .failed content => overwrite 0 (content.take before.length) before

/-- The condition under which a call is safe.  A `BackupFinish` that finds its
flag set must find its mark too.  Any other call that comes to its `write` must
leave the block it means to leave, and must not be a `Start` while an upgrade is
under way. -/
def MarkAllowed (history : MarkHistory) : MarkEvent → Prop
  | .powerLoss => True
  | .call function io =>
    if function = .backupFinish ∧ history.state.ugBackupPackageFinished then
      history.state.block = function.marked history.state.block
    else
      io.reachesWrite →
        io.write.leaves history.state.block (function.marked history.state.block) =
            function.marked history.state.block ∧
          ¬ (function = .start ∧ history.upgrading)

instance MarkAllowed.decidable :
    ∀ (history : MarkHistory) (event : MarkEvent), Decidable (MarkAllowed history event)
  | _, .powerLoss => inferInstanceAs (Decidable True)
  | _, .call _ _ => inferInstanceAs (Decidable (ite _ _ _))

def MarkHistory.opened (block : List UInt8)
    (markFits : ugMarkUpgrading.length ≤ block.length) : MarkHistory where
  state := ⟨block, false, markFits⟩
  last := none
  upgrading := false

theorem MarkFunction.length_mark (function : MarkFunction) :
    function.mark.length = ugMarkUpgrading.length := by
  cases function <;> rfl

theorem MarkFunction.length_marked (function : MarkFunction) {block : List UInt8}
    (markFits : ugMarkUpgrading.length ≤ block.length) :
    (function.marked block).length = block.length := by
  apply length_overwrite
  rw [function.length_mark, Nat.zero_add]
  exact markFits

theorem MarkFunction.take_marked (function : MarkFunction) (block : List UInt8) :
    (function.marked block).take ugMarkUpgrading.length = function.mark :=
  take_overwrite_zero block function.length_mark

theorem ugMarkInit_eq_zero (io : MarkIo) :
    ugMarkInit io = 0 ↔
      io.openSucceeds ∧ io.ioctlSucceeds ∧ io.lseekSucceeds ∧
        io.mallocSucceeds ∧ io.readSucceeds := by
  unfold ugMarkInit
  grind

/-- The shared part either fails before it touches the block, or leaves what its
`write` leaves and returns zero. -/
theorem ugMarkStore_cases (lseekLine : Nat) (positive : lseekLine ≠ 0) (function : MarkFunction)
    (io : MarkIo) (mark : UgMark) :
    (¬ io.reachesWrite ∧
        (ugMarkStore lseekLine function.mark io mark).1 ≠ 0 ∧
          (ugMarkStore lseekLine function.mark io mark).2.2.block = mark.block) ∨
      (io.reachesWrite ∧
        (ugMarkStore lseekLine function.mark io mark).1 = 0 ∧
          (ugMarkStore lseekLine function.mark io mark).2.2.block =
            io.write.leaves mark.block (function.marked mark.block)) := by
  have init := ugMarkInit_eq_zero io
  unfold ugMarkStore
  by_cases failed : ugMarkInit io ≠ 0
  · left
    refine ⟨fun reaches => failed (init.mpr ?_), ?_⟩
    · exact ⟨reaches.1, reaches.2.1, reaches.2.2.1, reaches.2.2.2.1, reaches.2.2.2.2.1⟩
    · simp only [if_pos failed]
      exact ⟨failed, trivial⟩
  · have initialised := init.mp (not_not.mp failed)
    simp only [if_neg failed]
    cases back : io.lseekBackSucceeds with
    | false =>
      left
      refine ⟨fun reaches => ?_, positive, rfl⟩
      have succeeded := reaches.2.2.2.2.2
      rw [back] at succeeded
      cases succeeded
    | true =>
      right
      refine ⟨⟨initialised.1, initialised.2.1, initialised.2.2.1,
        initialised.2.2.2.1, initialised.2.2.2.2, back⟩, ?_⟩
      cases io.write with
      | stored =>
        refine ⟨rfl, ?_⟩
        show overwrite 0 ((function.marked mark.block).take
          mark.block.length) mark.block = function.marked mark.block
        have sameLength := function.length_marked mark.markFits
        rw [List.take_of_length_le (Nat.le_of_eq sameLength)]
        exact overwrite_whole sameLength
      | failed content => exact ⟨rfl, rfl⟩

/-- A call returns zero without touching the block, fails without touching the
block, or leaves what its `write` leaves and returns zero. -/
theorem MarkFunction.call_cases (function : MarkFunction) (io : MarkIo) (mark : UgMark) :
    ((function = .backupFinish ∧ mark.ugBackupPackageFinished) ∧
        (function.call io mark).1 = 0 ∧ (function.call io mark).2.block = mark.block) ∨
      (¬ (function = .backupFinish ∧ mark.ugBackupPackageFinished) ∧
        ¬ io.reachesWrite ∧ (function.call io mark).1 ≠ 0 ∧
          (function.call io mark).2.block = mark.block) ∨
      (¬ (function = .backupFinish ∧ mark.ugBackupPackageFinished) ∧
        io.reachesWrite ∧ (function.call io mark).1 = 0 ∧
          (function.call io mark).2.block =
            io.write.leaves mark.block (function.marked mark.block)) := by
  cases function with
  | start =>
    have cases :=
      ugMarkStore_cases 149 (by decide) .start io
        { mark with ugBackupPackageFinished := false }
    rcases cases with ⟨fails, ret, same⟩ | ⟨reaches, ret, stored⟩
    · exact Or.inr (Or.inl ⟨by simp, fails, ret, same⟩)
    · exact Or.inr (Or.inr ⟨by simp, reaches, ret, stored⟩)
  | backupFinish =>
    cases flag : mark.ugBackupPackageFinished with
    | true =>
      left
      simp [MarkFunction.call, ugUpgradeBackupFinish, flag]
    | false =>
      right
      have result :
          ((MarkFunction.backupFinish).call io mark).1 =
              (ugMarkStore 183 ugMarkUpgrading io mark).1 ∧
            ((MarkFunction.backupFinish).call io mark).2.block =
              (ugMarkStore 183 ugMarkUpgrading io mark).2.2.block := by
        simp only [MarkFunction.call, ugUpgradeBackupFinish, flag, Bool.false_eq_true, if_false]
        split <;> exact ⟨rfl, rfl⟩
      rw [result.1, result.2]
      rcases ugMarkStore_cases 183 (by decide) .backupFinish io mark with
        ⟨fails, ret, same⟩ | ⟨reaches, ret, stored⟩
      · exact Or.inl ⟨by simp, fails, ret, same⟩
      · exact Or.inr ⟨by simp, reaches, ret, stored⟩
  | finish =>
    rcases ugMarkStore_cases 216 (by decide) .finish io mark with
      ⟨fails, ret, same⟩ | ⟨reaches, ret, stored⟩
    · exact Or.inr (Or.inl ⟨by simp, fails, ret, same⟩)
    · exact Or.inr (Or.inr ⟨by simp, reaches, ret, stored⟩)

/-- `ugUpgradeCheck` reports an interrupted upgrade whatever the device does
exactly when the block holds the mark of one. -/
theorem ugUpgradeCheck_reports {mark : UgMark} :
    (∀ io, ugUpgradeCheck io mark ≠ 0) ↔
      mark.block.take ugMarkUpgrading.length = ugMarkUpgrading := by
  constructor
  · intro reports
    by_contra unmarked
    apply reports ⟨true, true, true, true, true, true, .stored⟩
    simp [ugUpgradeCheck, ugMarkInit, unmarked]
  · intro marked io
    unfold ugUpgradeCheck
    simp only [if_pos marked]
    split
    · assumption
    · decide

/-- While an upgrade is under way the block holds its mark. -/
def MarkInvariant (history : MarkHistory) : Prop :=
  history.upgrading = true → history.state.block.take ugMarkUpgrading.length = ugMarkUpgrading

theorem MarkAllowed.block {history : MarkHistory} {function : MarkFunction} {io : MarkIo}
    (allowed : MarkAllowed history (.call function io))
    (succeeded : (function.call io history.state).1 = 0) :
    (function.call io history.state).2.block = function.marked history.state.block := by
  rcases function.call_cases io history.state with
    ⟨again, _, same⟩ | ⟨_, _, failed, _⟩ | ⟨first, reaches, _, leaves⟩
  · rw [same]
    rw [MarkAllowed, if_pos again] at allowed
    exact allowed
  · exact absurd succeeded failed
  · rw [MarkAllowed, if_neg first] at allowed
    rw [leaves]
    exact (allowed reaches).1

theorem markStep_kept
    (history : MarkHistory) (event : MarkEvent) (invariant : MarkInvariant history)
    (allowed : MarkAllowed history event) :
    MarkInvariant (markStep history event) ∧ MarkSafe (markStep history event) := by
  suffices parts :
      MarkInvariant (markStep history event) ∧
        ∀ call, (markStep history event).last = some call → call.ret = 0 →
          (markStep history event).state.block = call.function.marked call.before from
    ⟨parts.1, parts.2, fun upgrading => ugUpgradeCheck_reports.mpr (parts.1 upgrading)⟩
  cases event with
  | powerLoss =>
    refine ⟨invariant, ?_⟩
    intro call last
    cases last
  | call function io =>
    constructor
    · intro upgrading
      rcases function.call_cases io history.state with
        ⟨again, ret, same⟩ | ⟨_, _, ret, same⟩ | ⟨first, reaches, ret, _⟩
      · -- The mark of the backup is still there.
        have stored := allowed.block ret
        obtain ⟨rfl, _⟩ := again
        show (MarkFunction.backupFinish.call io history.state).2.block.take _ = _
        rw [stored]
        exact MarkFunction.take_marked _ _
      · have before : history.upgrading = true := by
          simpa only [markStep, if_pos ret] using upgrading
        show (function.call io history.state).2.block.take _ = _
        rw [same]
        exact invariant before
      · have stored := allowed.block ret
        show (function.call io history.state).2.block.take _ = _
        rw [stored, function.take_marked]
        have notFailed : ¬ (function.call io history.state).1 ≠ 0 := not_not.mpr ret
        simp only [markStep, if_neg notFailed] at upgrading
        cases function with
        | start =>
          rw [MarkAllowed, if_neg first] at allowed
          exact absurd ⟨rfl, upgrading⟩ (allowed reaches).2
        | backupFinish => rfl
        | finish => cases upgrading
    · intro call last succeeded
      cases last
      exact allowed.block succeeded

theorem markStep_needed (history : MarkHistory) (event : MarkEvent) (_ : MarkInvariant history)
    (safe : MarkSafe (markStep history event)) :
    MarkAllowed history event := by
  cases event with
  | powerLoss => trivial
  | call function io =>
    have stored :
        (function.call io history.state).1 = 0 →
          (function.call io history.state).2.block = function.marked history.state.block :=
      safe.stored ⟨function, _, _⟩ rfl
    rcases function.call_cases io history.state with
      ⟨again, ret, same⟩ | ⟨first, fails, _, _⟩ | ⟨first, _, ret, leaves⟩
    · rw [MarkAllowed, if_pos again, ← stored ret, same]
    · rw [MarkAllowed, if_neg first]
      intro reaches
      exact absurd reaches fails
    · rw [MarkAllowed, if_neg first]
      intro _
      refine ⟨leaves.symm.trans (stored ret), ?_⟩
      rintro ⟨rfl, upgrading⟩
      -- The mark of a backup under way has replaced that of the upgrade.
      have notFailed :
          ¬ (MarkFunction.start.call io history.state).1 ≠ 0 :=
        not_not.mpr ret
      have stillUpgrading :
          (markStep history (.call .start io)).upgrading = true := by
        simp only [markStep, if_neg notFailed]
        exact upgrading
      have marked := ugUpgradeCheck_reports.mp (safe.reported stillUpgrading)
      have backuping :
          (markStep history (.call .start io)).state.block.take
            ugMarkUpgrading.length = ugMarkBackuping := by
        show (MarkFunction.start.call io history.state).2.block.take _ = _
        rw [stored ret]
        exact MarkFunction.take_marked _ _
      exact absurd (backuping.symm.trans marked) (by decide)

/-- A run passes only through states in which the mark does what it is for if
and only if each of its steps meets the condition. -/
theorem ugMark_safe_iff
    {block : List UInt8} (markFits : ugMarkUpgrading.length ≤ block.length)
    (events : List MarkEvent) :
    (∀ done rest, events = done ++ rest →
        MarkSafe (done.foldl markStep (MarkHistory.opened block markFits))) ↔
      AllowedAlong MarkAllowed markStep (MarkHistory.opened block markFits) events := by
  have opened : MarkSafe (MarkHistory.opened block markFits) :=
    ⟨(by intro _ last; cases last), (by intro upgrading; cases upgrading)⟩
  have openedInvariant : MarkInvariant (MarkHistory.opened block markFits) :=
    by intro upgrading; cases upgrading
  exact (AllowedAlong.iff_safe markStep_kept markStep_needed openedInvariant opened events).symm

def MarkIo.succeeding : MarkIo := ⟨true, true, true, true, true, true, .stored⟩

/-- A device whose `write` fails without touching the block. -/
def MarkIo.failing : MarkIo := { MarkIo.succeeding with write := .failed [] }

/-- An upgrade that loses power once and is then taken up again. -/
theorem ugMark_safe_iff_upgrade :
    MarkSafe
      ([MarkEvent.call .start .succeeding, .call .backupFinish .succeeding,
          .powerLoss, .call .backupFinish .succeeding,
          .call .finish .succeeding].foldl markStep
        (MarkHistory.opened (List.replicate 16 0xff) (by decide))) :=
  (ugMark_safe_iff (by decide) _).mpr (by decide) _ [] (List.append_nil _).symm

/-- A failing write goes unreported, a second `BackupFinish` after the end of an
upgrade stores nothing, and a restart hides that an upgrade was interrupted. -/
theorem ugMark_not_safe :
    ¬ MarkSafe
        ([MarkEvent.call .start .failing].foldl markStep
          (MarkHistory.opened (List.replicate 16 0xff) (by decide))) ∧
      ¬ MarkSafe
          ([MarkEvent.call .start .succeeding, .call .backupFinish .succeeding,
              .call .finish .succeeding,
              .call .backupFinish .succeeding].foldl markStep
            (MarkHistory.opened (List.replicate 16 0xff) (by decide))) ∧
        ¬ MarkSafe
          ([MarkEvent.call .start .succeeding, .call .backupFinish .succeeding,
              .call .start .succeeding].foldl markStep
            (MarkHistory.opened (List.replicate 16 0xff) (by decide))) := by
  refine ⟨fun safe => ?_, fun safe => ?_, fun safe => ?_⟩
  · exact absurd (safe.stored _ rfl (by decide)) (by decide)
  · exact absurd (safe.stored _ rfl (by decide)) (by decide)
  · exact absurd (by decide) (safe.reported (by decide) .succeeding)

end

end IteSdk.Upgrade
