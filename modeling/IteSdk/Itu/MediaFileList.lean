import IteSdk.Lib.Threads
import IteSdk.Lib.Transition
import Mathlib.Data.List.Basic

/-!
# The scan of a media file list

`ituMediaFileListSetPath`, `ituMediaFileListBoxLoad`, the timer event of
`ituMediaFileListBoxUpdate` and `ituMediaFileListBoxExit` on the UI thread, and the
scan tasks that they start.  Each read and each write of `mflistboxFlags` is a step,
so that `|=` and `&=` take two.
-/

namespace IteSdk.Itu

section

/-- The bits of `mflistboxFlags` that are used. -/
structure MflistFlags where
  busying : Bool
  created : Bool
  destroying : Bool
  deriving DecidableEq

/-- Where a scan task is.  `work` is what it does between two looks at the flag
`ITU_FILELIST_DESTROYING`. -/
inductive MflistTaskPc
  | begin
  | path
  | work
  | check
  | clear
  | clearing (read : MflistFlags)
  | create
  | creating (read : MflistFlags)
  | ended
  deriving DecidableEq

/-- Where the UI thread is.  What has read the flags and not written them yet holds
what it has read. -/
inductive MflistUiPc
  | idle
  | setBusy (path : Option (List UInt8))
  | setDestroying (path : Option (List UInt8))
  | create
  | mark
  | marking (read : MflistFlags)
  | timer
  | unset
  | unsetting (read : MflistFlags)
  | exit
  | destroy
  | destroying (read : MflistFlags)
  | wait
  | free
  | exited
  deriving DecidableEq

/-- `dynamic` is `ITU_DYNAMIC`: `ituWidgetExitImpl` frees the list box as well.
`seen` are the timer events that have found the created flag set. -/
structure MflistState where
  flags : MflistFlags
  path : List UInt8
  dynamic : Bool
  ui : MflistUiPc
  tasks : List MflistTaskPc
  seen : Nat

def MflistState.init (path : List UInt8) (dynamic : Bool) : MflistState where
  flags := ⟨false, false, false⟩
  path := path
  dynamic := dynamic
  ui := .idle
  tasks := []
  seen := 0

/-- A step of the UI thread; `started` is that `pthread_create` finds memory for the
task. -/
def mflistUi (state : MflistState) (started : Bool) : MflistState :=
  match state.ui with
  | .idle => state
  | .setBusy path =>
    if state.flags.busying then { state with ui := .idle }
    else { state with ui := .setDestroying path }
  | .setDestroying path =>
    if state.flags.destroying then { state with ui := .idle }
    else
      let path := path.getD []
      if path.length < 2 then { state with path := path, ui := .idle }
      else { state with path := path, ui := .create }
  | .create =>
    if started then
      { state with tasks := state.tasks ++ [.begin], ui := .mark }
    else { state with ui := .mark }
  | .mark => { state with ui := .marking state.flags }
  | .marking read =>
    { state with flags := { read with busying := true }, ui := .idle }
  | .timer =>
    if state.flags.created then { state with seen := state.seen + 1, ui := .unset }
    else { state with ui := .idle }
  | .unset => { state with ui := .unsetting state.flags }
  | .unsetting read =>
    { state with flags := { read with created := false }, ui := .idle }
  | .exit =>
    if state.flags.busying then { state with ui := .destroy }
    else { state with ui := .wait }
  | .destroy => { state with ui := .destroying state.flags }
  | .destroying read =>
    { state with flags := { read with destroying := true }, ui := .wait }
  | .wait => if state.flags.busying then state else { state with ui := .free }
  | .free => { state with ui := .exited }
  | .exited => state

/-- `MediaFileListBoxCreateTask`; `more` is that the work goes on, and does not end
for want of memory, with the last entry of the directory or with too many files. -/
def mediaFileListBoxCreateTask (state : MflistState) (more : Bool) :
    MflistTaskPc → MflistFlags × MflistTaskPc
  | .begin => (state.flags, if state.flags.destroying then .clear else .path)
  | .path => (state.flags, if state.path.length = 0 then .clear else .work)
  | .work => (state.flags, if more then .check else .clear)
  | .check => (state.flags, if state.flags.destroying then .clear else .work)
  | .clear => (state.flags, .clearing state.flags)
  | .clearing read => ({ read with busying := false }, .create)
  | .create => (state.flags, .creating state.flags)
  | .creating read => ({ read with created := true }, .ended)
  | .ended => (state.flags, .ended)

/-- The calls on the UI thread, and the steps of the threads. -/
inductive MflistEvent
  | setPath (path : Option (List UInt8))
  | load
  | timer
  | exit
  | ui (started : Bool)
  | task (thread : Nat) (more : Bool)
  deriving DecidableEq

def MflistState.call (state : MflistState) (pc : MflistUiPc) : MflistState :=
  match state.ui with
  | .idle => { state with ui := pc }
  | _ => state

def mflistStep (state : MflistState) : MflistEvent → MflistState
  | .setPath path => state.call (.setBusy path)
  | .load => if 0 < state.path.length then state.call .create else state
  | .timer => state.call .timer
  | .exit => state.call .exit
  | .ui started => mflistUi state started
  | .task thread more =>
    match state.tasks[thread]? with
    | some pc =>
      { state with
        flags := (mediaFileListBoxCreateTask state more pc).1
        tasks := state.tasks.set thread (mediaFileListBoxCreateTask state more pc).2 }
    | none => state

end

/-!
# Runs of the scans of a media file list

The flags and the tasks fit together as long as no scan is started before the last
one has ended, the busy flag is set while the task that was started still runs, and
no flag is lost between a read and the write that follows it.
-/

section

open Lib

namespace MflistTaskPc

def runs : MflistTaskPc → Bool
  | .ended => false
  | _ => true

def uses : MflistTaskPc → Bool
  | .begin | .path | .work | .check => true
  | _ => false

def ends : MflistTaskPc → Bool
  | .ended => true
  | _ => false

end MflistTaskPc

/-- A timer event has seen the created flag and not cleared it yet. -/
def MflistUiPc.unsets : MflistUiPc → Bool
  | .unset | .unsetting _ => true
  | _ => false

namespace MflistState

def running (state : MflistState) : Nat := state.tasks.countP MflistTaskPc.runs

def using_ (state : MflistState) : Nat := state.tasks.countP MflistTaskPc.uses

def scans (state : MflistState) : Nat := state.tasks.countP MflistTaskPc.ends

def pending (state : MflistState) : Bool := state.flags.created && !state.ui.unsets

/-- At most one task runs; the busy flag is clear when none does; of the scans that
have ended a timer event of its own has seen each but the one whose flag is still set;
and what Exit frees is not used any more: the list, and the box if it is dynamic. -/
structure Safe (state : MflistState) : Prop where
  single : state.running ≤ 1
  busy : state.running = 0 → state.flags.busying = false
  seen : state.scans = state.seen + state.pending.toNat
  freed : state.ui = .exited → state.using_ = 0 ∧ (state.dynamic = true → state.running = 0)

def UiAllowed (state : MflistState) (started : Bool) : MflistUiPc → Prop
  | .create => started = true → state.running = 0
  | .marking _ => state.running ≠ 0
  | .destroying read =>
    read.created = state.flags.created ∧ (state.running = 0 → read.busying = false)
  | .free => state.dynamic = true → state.running = 0
  | _ => True

def TaskAllowed (state : MflistState) : MflistTaskPc → Prop
  | .clearing read =>
    state.ui.unsets = true ∨ read.created = state.flags.created
  | .creating read =>
    read.busying = false ∧ state.flags.created = false ∧ state.ui.unsets = false
  | _ => True

/-- A task is started when no other one runs; the busy flag is set while one runs;
the created flag is set when the one of the last scan has been seen and cleared and
the busy flag was read as clear; what is written back has the created flag as it is;
and Exit frees a dynamic box when the task has ended. -/
def Allowed (state : MflistState) : MflistEvent → Prop
  | .ui started => state.UiAllowed started state.ui
  | .task thread _ => ∀ pc ∈ state.tasks[thread]?, state.TaskAllowed pc
  | _ => True

def Placed (state : MflistState) : MflistUiPc → Prop
  | .mark => True
  | .marking read => state.running ≠ 0 → read.created = state.flags.created
  | .unsetting read =>
    (state.running = 0 → read.busying = false) ∧
      (state.using_ ≠ 0 → read.busying = true ∧ state.flags.busying = true)
  | .destroying read =>
    state.using_ ≠ 0 → read.busying = true ∧ state.flags.busying = true
  | .free | .exited => state.using_ = 0
  | _ => state.using_ ≠ 0 → state.flags.busying = true

structure Inv (state : MflistState) : Prop where
  safe : state.Safe
  placed : state.Placed state.ui

variable {state : MflistState} {thread : Nat} {pc : MflistTaskPc}

theorem using_le (state : MflistState) : state.using_ ≤ state.running := by
  apply List.countP_mono_left
  intro pc _ uses
  cases pc with
  | ended => cases uses
  | _ => rfl

theorem counts_set (here : state.tasks[thread]? = some pc) (next : MflistTaskPc) :
    (state.tasks.set thread next).countP MflistTaskPc.runs + (if pc.runs then 1 else 0) =
        state.running + (if next.runs then 1 else 0) ∧
      (state.tasks.set thread next).countP MflistTaskPc.uses + (if pc.uses then 1 else 0) =
        state.using_ + (if next.uses then 1 else 0) ∧
      (state.tasks.set thread next).countP MflistTaskPc.ends + (if pc.ends then 1 else 0) =
        state.scans + (if next.ends then 1 else 0) :=
  ⟨countP_set_add next here, countP_set_add next here, countP_set_add next here⟩

theorem Placed.fewer {ui : MflistUiPc} {after : MflistState}
    (placed : state.Placed ui) (flags : after.flags = state.flags)
    (running : after.running = state.running) (fewer : after.using_ ≤ state.using_) :
    after.Placed ui := by
  have stays : after.using_ ≠ 0 → state.using_ ≠ 0 := by omega
  cases ui with
  | mark => trivial
  | marking read =>
    intro runs
    rw [flags]
    exact placed (running ▸ runs)
  | unsetting read =>
    rw [Placed, running, flags]
    exact ⟨placed.1, fun uses => placed.2 (stays uses)⟩
  | destroying read =>
    rw [Placed, flags]
    exact fun uses => placed (stays uses)
  | free | exited => exact Nat.le_zero.mp (Nat.le_trans fewer (Nat.le_of_eq placed))
  | _ =>
    intro uses
    rw [flags]
    exact placed (stays uses)

theorem Inv.move (inv : state.Inv) (here : state.tasks[thread]? = some pc)
    (next : MflistTaskPc) (runs : next.runs = pc.runs)
    (uses : next.uses = true → pc.uses = true) (ends : next.ends = pc.ends) :
    Inv { state with tasks := state.tasks.set thread next } := by
  obtain ⟨sameRunning, sameUsing, sameScans⟩ := counts_set here next
  rw [runs] at sameRunning
  rw [ends] at sameScans
  have running :
      MflistState.running { state with tasks := state.tasks.set thread next } =
        state.running := Nat.add_right_cancel sameRunning
  have scans :
      MflistState.scans { state with tasks := state.tasks.set thread next } =
        state.scans := Nat.add_right_cancel sameScans
  have fewer :
      MflistState.using_ { state with tasks := state.tasks.set thread next } ≤ state.using_ := by
    show (state.tasks.set thread next).countP MflistTaskPc.uses ≤ _
    by_cases used : next.uses = true
    · rw [used, uses used] at sameUsing
      exact Nat.le_of_eq (Nat.add_right_cancel sameUsing)
    · rw [if_neg used] at sameUsing
      omega
  refine ⟨⟨?_, ?_, ?_, ?_⟩, inv.placed.fewer rfl running fewer⟩
  · rw [running]
    exact inv.safe.single
  · rw [running]
    exact inv.safe.busy
  · rw [scans]
    exact inv.safe.seen
  · intro exited
    rw [running]
    obtain ⟨unused, ended⟩ := inv.safe.freed exited
    exact ⟨by omega, ended⟩

/-- A task that runs and does not work on the list is the only one, so that none
works on it. -/
theorem Inv.alone (inv : state.Inv) (here : state.tasks[thread]? = some pc)
    (runs : pc.runs = true) (uses : pc.uses = false) :
    state.running = 1 ∧ state.using_ = 0 := by
  obtain ⟨sameRunning, sameUsing, -⟩ := counts_set here .ended
  rw [runs] at sameRunning
  rw [uses] at sameUsing
  have others := using_le { state with tasks := state.tasks.set thread .ended }
  have single := inv.safe.single
  have endedRuns : (MflistTaskPc.ended.runs = true) = False := by simp [MflistTaskPc.runs]
  have endedUses : (MflistTaskPc.ended.uses = true) = False := by simp [MflistTaskPc.uses]
  simp only [endedRuns, endedUses, if_true, if_false, Bool.false_eq_true] at *
  simp only [using_, running] at *
  omega

theorem placed_unused {ui : MflistUiPc} (unused : state.using_ = 0)
    (marking : ∀ read, ui = .marking read → state.running ≠ 0 → read.created = state.flags.created)
    (unsetting : ∀ read, ui = .unsetting read → state.running = 0 → read.busying = false) :
    state.Placed ui := by
  cases ui with
  | mark => trivial
  | marking read => exact marking read rfl
  | unsetting read => exact ⟨unsetting read rfl, fun uses => absurd unused uses⟩
  | free | exited => exact unused
  | _ => exact fun uses => absurd unused uses

theorem toNat_inj {left right : Bool} (same : left.toNat = right.toNat) : left = right := by
  cases left <;> cases right <;> first | rfl | cases same

variable {read : MflistFlags}

section

variable (inv : state.Inv)

include inv

theorem Inv.clearing (here : state.tasks[thread]? = some (.clearing read)) :
    let after : MflistState :=
      { state with
        flags := { read with busying := false }
        tasks := state.tasks.set thread .create }
    (state.TaskAllowed (.clearing read) → after.Inv) ∧
      (after.Safe → state.TaskAllowed (.clearing read)) := by
  intro after
  obtain ⟨sameRunning, sameUsing, sameScans⟩ := counts_set here .create
  obtain ⟨running, unused⟩ := inv.alone here rfl rfl
  have runningAfter : after.running = 1 := by
    rw [← running]
    exact Nat.add_right_cancel sameRunning
  have unusedAfter : after.using_ = 0 := by
    rw [← unused]
    exact Nat.add_right_cancel sameUsing
  have scans : after.scans = state.scans := Nat.add_right_cancel sameScans
  have seen := inv.safe.seen
  constructor
  · intro allowed
    refine ⟨⟨?_, fun _ => rfl, ?_, ?_⟩, placed_unused unusedAfter ?_ ?_⟩
    · exact Nat.le_of_eq runningAfter
    · rw [scans, seen]
      have same : after.pending = state.pending := by
        rcases allowed with unsets | equal
        · simp only [pending, after, unsets, Bool.not_true, Bool.and_false]
        · simp only [pending, after, equal]
      rw [same]
    · intro exited
      obtain ⟨-, ended⟩ := inv.safe.freed exited
      refine ⟨unusedAfter, fun dynamic => ?_⟩
      have none_ := ended dynamic
      omega
    · intro other at_ _
      have placed := inv.placed
      have atState : state.ui = .marking other := at_
      rw [atState] at placed
      rcases allowed with unsets | equal
      · rw [atState] at unsets
        cases unsets
      · rw [placed (by omega)]
        exact equal.symm
    · intro _ _ none_
      omega
  · intro safe
    have seenAfter := safe.seen
    rw [scans, seen] at seenAfter
    have same : state.pending.toNat = after.pending.toNat := Nat.add_left_cancel seenAfter
    have pendings : state.pending = after.pending := toNat_inj same
    by_cases unsets : state.ui.unsets = true
    · exact Or.inl unsets
    · right
      simp only [pending, after, unsets] at pendings
      simpa using pendings.symm

theorem Inv.creating (here : state.tasks[thread]? = some (.creating read)) :
    let after : MflistState :=
      { state with
        flags := { read with created := true }
        tasks := state.tasks.set thread .ended }
    (state.TaskAllowed (.creating read) → after.Inv) ∧
      (after.Safe → state.TaskAllowed (.creating read)) := by
  intro after
  obtain ⟨fewerRunning, sameUsing, moreScans⟩ := counts_set here .ended
  obtain ⟨running, unused⟩ := inv.alone here rfl rfl
  have runningAfter : after.running = 0 := by
    rw [running] at fewerRunning
    exact Nat.add_right_cancel fewerRunning
  have unusedAfter : after.using_ = 0 := by
    rw [← unused]
    exact Nat.add_right_cancel sameUsing
  have scans : after.scans = state.scans + 1 := moreScans
  have seen := inv.safe.seen
  constructor
  · rintro ⟨notBusy, notCreated, notUnsets⟩
    refine ⟨⟨?_, fun _ => notBusy, ?_, ?_⟩, placed_unused unusedAfter ?_ ?_⟩
    · omega
    · have was : state.pending = false := by simp only [pending, notCreated, Bool.false_and]
      have is_ : after.pending = true := by
        simp only [pending, after, notUnsets, Bool.not_false, Bool.and_true]
      rw [scans, seen, was, is_]
      rfl
    · exact fun _ => ⟨unusedAfter, fun _ => runningAfter⟩
    · intro _ _ runs
      exact absurd runningAfter runs
    · intro other at_
      have atState : state.ui = .unsetting other := at_
      rw [atState] at notUnsets
      cases notUnsets
  · intro safe
    have seenAfter : after.scans = state.seen + after.pending.toNat := safe.seen
    rw [scans, seen] at seenAfter
    have notBusy : read.busying = false := safe.busy runningAfter
    have bound : after.pending.toNat ≤ 1 := Bool.toNat_le after.pending
    have was : state.pending.toNat = 0 := by omega
    have is_ : after.pending.toNat = 1 := by omega
    have notUnsets : state.ui.unsets = false := by simpa [pending, after] using is_
    refine ⟨notBusy, ?_, notUnsets⟩
    simpa [pending, notUnsets] using was

theorem Inv.moveUi (path : List UInt8) (next : MflistUiPc)
    (unsets : next.unsets = state.ui.unsets) (goesOn : next ≠ .exited)
    (placed : state.Placed next) :
    Inv { state with path := path, ui := next } := by
  refine ⟨⟨inv.safe.single, inv.safe.busy, ?_, fun exited => absurd exited goesOn⟩, placed⟩
  have same :
      MflistState.pending { state with path := path, ui := next } = state.pending := by
    simp only [pending, unsets]
  show state.scans = state.seen + _
  rw [same]
  exact inv.safe.seen

theorem Inv.marking (at_ : state.ui = .marking read) :
    let after : MflistState := { state with flags := { read with busying := true }, ui := .idle }
    (state.running ≠ 0 → after.Inv) ∧ (after.Safe → state.running ≠ 0) := by
  intro after
  have placed := inv.placed
  rw [at_] at placed
  constructor
  · intro runs
    refine ⟨⟨inv.safe.single, fun none_ => absurd none_ runs, ?_, nofun⟩, fun _ => rfl⟩
    have same : after.pending = state.pending := by
      simp only [pending, after, at_, placed runs, MflistUiPc.unsets]
    show state.scans = state.seen + _
    rw [same]
    exact inv.safe.seen
  · intro safe none_
    cases safe.busy none_

theorem Inv.destroying (at_ : state.ui = .destroying read) :
    let after : MflistState :=
      { state with flags := { read with destroying := true }, ui := .wait }
    (state.UiAllowed true (.destroying read) → after.Inv) ∧
      (after.Safe → state.UiAllowed true (.destroying read)) := by
  intro after
  have placed := inv.placed
  rw [at_] at placed
  have was : state.pending = state.flags.created := by simp [pending, at_, MflistUiPc.unsets]
  have is_ : after.pending = read.created := by simp [pending, after, MflistUiPc.unsets]
  have seen := inv.safe.seen
  rw [was] at seen
  constructor
  · rintro ⟨created, busy⟩
    refine ⟨⟨inv.safe.single, busy, ?_, nofun⟩, fun uses => (placed uses).1⟩
    show state.scans = state.seen + _
    rw [is_, created]
    exact seen
  · intro safe
    refine ⟨?_, safe.busy⟩
    have seenAfter : state.scans = state.seen + after.pending.toNat := safe.seen
    rw [is_, seen] at seenAfter
    exact (toNat_inj (Nat.add_left_cancel seenAfter)).symm

theorem Inv.create (at_ : state.ui = .create) :
    let after : MflistState := { state with tasks := state.tasks ++ [.begin], ui := .mark }
    (state.running = 0 → after.Inv) ∧ (after.Safe → state.running = 0) := by
  intro after
  have running : after.running = state.running + 1 := by
    simp [MflistState.running, after, MflistTaskPc.runs]
  have scans : after.scans = state.scans := by simp [MflistState.scans, after, MflistTaskPc.ends]
  constructor
  · intro none_
    refine ⟨⟨by omega, fun wrong => by omega, ?_, nofun⟩, trivial⟩
    have same : after.pending = state.pending := by
      simp only [pending, after, at_, MflistUiPc.unsets]
    rw [scans, same]
    exact inv.safe.seen
  · intro safe
    have single := safe.single
    omega

theorem Inv.ui (started : Bool) :
    (state.UiAllowed started state.ui → (mflistUi state started).Inv) ∧
      ((mflistUi state started).Safe → state.UiAllowed started state.ui) := by
  have placed := inv.placed
  cases at_ : state.ui with
  | idle | exited =>
    rw [mflistUi, at_]
    exact ⟨fun _ => inv, fun _ => trivial⟩
  | setBusy path =>
    rw [at_] at placed
    refine ⟨fun _ => ?_, fun _ => trivial⟩
    rw [mflistUi, at_]
    dsimp only
    split
    · exact inv.moveUi state.path .idle (by rw [at_]; rfl) nofun placed
    · exact inv.moveUi state.path (.setDestroying path) (by rw [at_]; rfl) nofun placed
  | setDestroying path =>
    rw [at_] at placed
    refine ⟨fun _ => ?_, fun _ => trivial⟩
    rw [mflistUi, at_]
    dsimp only
    split
    · exact inv.moveUi state.path .idle (by rw [at_]; rfl) nofun placed
    · split
      · exact inv.moveUi (path.getD []) .idle (by rw [at_]; rfl) nofun placed
      · exact inv.moveUi (path.getD []) .create (by rw [at_]; rfl) nofun placed
  | create =>
    rw [mflistUi, at_]
    cases started with
    | true =>
      obtain ⟨kept, needed⟩ := inv.create at_
      exact ⟨fun allowed => kept (allowed rfl), fun safe _ => needed safe⟩
    | false =>
      refine ⟨fun _ => ?_, fun _ => nofun⟩
      exact inv.moveUi state.path .mark (by rw [at_]; rfl) nofun trivial
  | mark =>
    refine ⟨fun _ => ?_, fun _ => trivial⟩
    rw [mflistUi, at_]
    exact inv.moveUi state.path (.marking state.flags) (by rw [at_]; rfl) nofun fun _ => rfl
  | marking read =>
    rw [mflistUi, at_]
    exact inv.marking at_
  | timer =>
    rw [at_] at placed
    refine ⟨fun _ => ?_, fun _ => trivial⟩
    rw [mflistUi, at_]
    dsimp only
    split
    · next created =>
      refine ⟨⟨inv.safe.single, inv.safe.busy, ?_, nofun⟩, placed⟩
      have seen := inv.safe.seen
      have was : state.pending = true := by simp [pending, at_, created, MflistUiPc.unsets]
      rw [was] at seen
      show state.scans = state.seen + 1 + (state.flags.created && false).toNat
      rw [seen, Bool.and_false]
      rfl
    · exact inv.moveUi state.path .idle (by rw [at_]; rfl) nofun placed
  | unset =>
    rw [at_] at placed
    refine ⟨fun _ => ?_, fun _ => trivial⟩
    rw [mflistUi, at_]
    exact inv.moveUi state.path (.unsetting state.flags) (by rw [at_]; rfl) nofun
      ⟨inv.safe.busy, fun uses => ⟨placed uses, placed uses⟩⟩
  | unsetting read =>
    rw [at_] at placed
    refine ⟨fun _ => ?_, fun _ => trivial⟩
    rw [mflistUi, at_]
    refine ⟨⟨inv.safe.single, placed.1, ?_, nofun⟩, fun uses => (placed.2 uses).1⟩
    have seen := inv.safe.seen
    have was : state.pending = false := by simp [pending, at_, MflistUiPc.unsets]
    rw [was] at seen
    exact seen
  | exit =>
    rw [at_] at placed
    refine ⟨fun _ => ?_, fun _ => trivial⟩
    rw [mflistUi, at_]
    dsimp only
    split
    · exact inv.moveUi state.path .destroy (by rw [at_]; rfl) nofun placed
    · exact inv.moveUi state.path .wait (by rw [at_]; rfl) nofun placed
  | destroy =>
    rw [at_] at placed
    refine ⟨fun _ => ?_, fun _ => trivial⟩
    rw [mflistUi, at_]
    exact inv.moveUi state.path (.destroying state.flags) (by rw [at_]; rfl) nofun
      fun uses => ⟨placed uses, placed uses⟩
  | destroying read =>
    rw [mflistUi, at_]
    exact inv.destroying at_
  | wait =>
    rw [at_] at placed
    refine ⟨fun _ => ?_, fun _ => trivial⟩
    rw [mflistUi, at_]
    dsimp only
    split
    · exact inv
    · next notBusy =>
      apply inv.moveUi state.path .free (by rw [at_]; rfl) nofun
      by_contra uses
      exact notBusy (placed uses)
  | free =>
    rw [at_] at placed
    rw [mflistUi, at_]
    constructor
    · intro allowed
      refine ⟨⟨inv.safe.single, inv.safe.busy, ?_, fun _ => ⟨placed, allowed⟩⟩, placed⟩
      have seen := inv.safe.seen
      rw [pending, at_] at seen
      exact seen
    · exact fun safe => (safe.freed rfl).2

theorem Inv.call {next : MflistUiPc} (unsets : next.unsets = false) (goesOn : next ≠ .exited)
    (placed : (state.using_ ≠ 0 → state.flags.busying = true) → state.Placed next) :
    (state.call next).Inv := by
  rw [MflistState.call]
  split
  · next idle =>
    have relied := inv.placed
    rw [idle] at relied
    exact inv.moveUi state.path next (by rw [idle, unsets]; rfl) goesOn (placed relied)
  · exact inv

theorem Inv.step (event : MflistEvent) :
    (state.Allowed event → (mflistStep state event).Inv) ∧
      ((mflistStep state event).Safe → state.Allowed event) := by
  cases event with
  | setPath path | timer | exit => exact ⟨fun _ => inv.call rfl nofun id, fun _ => trivial⟩
  | load =>
    refine ⟨fun _ => ?_, fun _ => trivial⟩
    simp only [mflistStep]
    split
    · exact inv.call rfl nofun id
    · exact inv
  | ui started => exact inv.ui started
  | task thread more =>
    simp only [mflistStep, Allowed]
    cases here : state.tasks[thread]? with
    | none => exact ⟨fun _ => inv, fun _ => nofun⟩
    | some pc =>
      have one : (∀ p ∈ some pc, state.TaskAllowed p) ↔ state.TaskAllowed pc :=
        ⟨fun all => all pc rfl, fun only p same => Option.some.inj same ▸ only⟩
      rw [one]
      dsimp only
      cases pc with
      | clearing read => exact inv.clearing here
      | creating read => exact inv.creating here
      | begin =>
        refine ⟨fun _ => ?_, fun _ => trivial⟩
        simp only [mediaFileListBoxCreateTask]
        split
        · exact inv.move here .clear rfl nofun rfl
        · exact inv.move here .path rfl (fun _ => rfl) rfl
      | path | check =>
        refine ⟨fun _ => ?_, fun _ => trivial⟩
        simp only [mediaFileListBoxCreateTask]
        split
        · exact inv.move here .clear rfl nofun rfl
        · exact inv.move here .work rfl (fun _ => rfl) rfl
      | work =>
        refine ⟨fun _ => ?_, fun _ => trivial⟩
        simp only [mediaFileListBoxCreateTask]
        split
        · exact inv.move here .check rfl (fun _ => rfl) rfl
        · exact inv.move here .clear rfl nofun rfl
      | clear =>
        exact ⟨fun _ => inv.move here (.clearing state.flags) rfl nofun rfl, fun _ => trivial⟩
      | create =>
        exact ⟨fun _ => inv.move here (.creating state.flags) rfl nofun rfl, fun _ => trivial⟩
      | ended =>
        exact ⟨fun _ => inv.move here .ended rfl nofun rfl, fun _ => trivial⟩

end

theorem Inv.init (path : List UInt8) (dynamic : Bool) : Inv (.init path dynamic) where
  safe :=
    { single := Nat.zero_le 1
      busy := fun _ => rfl
      seen := rfl
      freed := nofun }
  placed := fun uses => absurd rfl uses

end MflistState

/-- The runs whose steps all meet the condition are those in which the flags, the
tasks and Exit do what they should in every state. -/
theorem mflist_iff (path : List UInt8) (dynamic : Bool) (events : List MflistEvent) :
    AllowedAlong MflistState.Allowed mflistStep (.init path dynamic) events ↔
      ∀ done rest, events = done ++ rest → (done.foldl mflistStep (.init path dynamic)).Safe := by
  have kept :
      ∀ (state : MflistState) (event : MflistEvent), state.Inv → state.Allowed event →
        (mflistStep state event).Inv ∧ (mflistStep state event).Safe := by
    intro state event inv allowed
    have next := (inv.step event).1 allowed
    exact ⟨next, next.safe⟩
  have needed :
      ∀ (state : MflistState) (event : MflistEvent), state.Inv →
        (mflistStep state event).Safe → state.Allowed event :=
    fun state event inv => (inv.step event).2
  have initial := MflistState.Inv.init path dynamic
  exact AllowedAlong.iff_safe kept needed initial initial.safe events

/-- A scan of a directory that cannot be opened, up to the end of its task. -/
def mflistScan (thread : Nat) : List MflistEvent := List.replicate 9 (.task thread false)

/-- The task has ended before the UI thread sets the busy flag. -/
def mflistEarly : List MflistEvent :=
  [.load, .ui true] ++ mflistScan 0 ++ List.replicate 2 (.ui true)

/-- The busy flag stays set, and Exit never returns. -/
theorem mflist_early :
    let after := mflistEarly.foldl mflistStep (.init [47, 97] false)
    after.running = 0 ∧ after.flags.busying = true ∧ ¬ after.Safe := by
  intro after
  have ended : after.running = 0 := by decide
  have busy : after.flags.busying = true := by decide
  refine ⟨ended, busy, fun safe => ?_⟩
  rw [safe.busy ended] at busy
  cases busy

end

end IteSdk.Itu
