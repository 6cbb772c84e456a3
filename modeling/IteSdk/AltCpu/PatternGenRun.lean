import IteSdk.AltCpu.PatternGen
import IteSdk.Lib.Transition

/-!
# Runs of the pattern generator

The player below says what the generator is for: it knows the accepted patterns
themselves, where the generator has two buffers with two counters.
-/

namespace IteSdk.AltCpu

open Lib

/-- `newest` is the pattern accepted last, `waits` while it has yet to take over
from a running one; `round` has the repetition in progress with the number of its
entries that are out, and `left` the repetitions to do, including this one. -/
structure PatternPlayer where
  newest : Option Pattern
  waits : Bool
  round : Option (Pattern × Nat)
  left : BitVec 32
  running : Bool

def PatternPlayer.init : PatternPlayer :=
  { newest := none
    waits := false
    round := none
    left := 0
    running := false }

/-- A repetition is of the newest pattern when it begins, has all entries in their
order, and is only cut short by a stop or by an updated count.  A pattern that is
accepted while another one runs waits for the end of its repetition. -/
@[grind =]
def playerStep (player : PatternPlayer) : PatternGenLog → Option PatternPlayer
  | .accept pattern =>
    if player.running = false ∨ player.left = 0 then
      some
        { player with
          newest := some pattern
          left := pattern.sendCount
          running := true }
    else
      some { player with newest := some pattern, waits := true }
  | .stop => some { player with running := false, waits := false, round := none }
  | .update sendCount =>
    some { player with running := true, left := sendCount, round := none }
  | .begin =>
    match player.newest, player.round with
    | some pattern, none =>
      if player.running ∧ player.left ≠ 0 then
        some
          { player with
            waits := false
            round := some (pattern, 0)
            left := if player.waits then pattern.sendCount else player.left }
      else
        none
    | _, _ => none
  | .output entry =>
    match player.round with
    | some (pattern, done) =>
      if pattern.entries[done]? = some entry then
        some { player with round := some (pattern, done + 1) }
      else
        none
    | none => none
  | .finish =>
    match player.round with
    | some (pattern, done) =>
      if done = pattern.entries.length then
        some
          { player with
            round := none
            left := lessSendCount player.left }
      else
        none
    | none => none

/-- No pattern waits, no repetition is in progress, and all of them have been done
unless there was a stop. -/
structure PatternPlayer.Done (player : PatternPlayer) : Prop where
  waits : player.waits = false
  round : player.round = none
  left : player.running = true → player.left = 0

/-- `patternGenGeneratePattern` skips the handle. -/
def PatternGenHandle.Idle (handle : PatternGenHandle) : Prop :=
  handle.bRun = false ∨ handle.sendCount = 0
deriving Decidable

def PatternGenHandle.Pending (handle : PatternGenHandle) : Prop :=
  handle.tmpSendCount ≠ 0 ∧ handle.tmpValidDataCount ≠ 0
deriving Decidable

/-- What was accepted and output is what the player allows.  An idle generator has
nothing left to do and no write waiting, and one that is not idle gets on as soon
as its time has elapsed. -/
structure PatternGenHandle.Safe (gTickPerUs : BitVec 32)
    (handle : PatternGenHandle) : Prop where
  played : ∃ player, handle.log.foldlM playerStep .init = some player ∧ (handle.Idle → player.Done)
  nonePending : handle.Idle → ¬ handle.Pending
  goesOn :
    ¬ handle.Idle →
      ∀ first second : PatternGenTimer,
        handle.checkTickCount ≤ first.duration →
          handle.log.length <
            (patternGenPass gTickPerUs (patternGenPass gTickPerUs handle first) second).log.length

def PatternGenHandle.EndsLast (handle : PatternGenHandle) (timer : PatternGenTimer) : Prop :=
  handle.bRun = true ∧ handle.sendCount = 1 ∧ handle.state = .writeDelay ∧
    handle.checkTickCount ≤ timer.duration ∧
    handle.validDataCount ≤ handle.writeIndex + 1
deriving Decidable

namespace PatternGenHandle

/-- An accepted write to a running generator has at most as many entries as the
pattern that runs. -/
def WriteAllowed (handle : PatternGenHandle) (command : PatternGenWriteCmd) : Prop :=
  handle.Accepts command → ¬ handle.Idle → command.validDataCount ≤ handle.validDataCount
deriving Decidable

def StopAllowed (handle : PatternGenHandle) : Prop := handle.bRun = true → ¬ handle.Pending
deriving Decidable

/-- A count is only given to a pattern, and the count 0 not while a write waits. -/
def UpdateAllowed (handle : PatternGenHandle) (sendCount : BitVec 32) : Prop :=
  handle.bValid = true → if sendCount = 0 then ¬ handle.Pending else handle.validDataCount ≠ 0
deriving Decidable

def PassAllowed (handle : PatternGenHandle) (timer : PatternGenTimer) : Prop :=
  handle.EndsLast timer → ¬ handle.Pending
deriving Decidable

end PatternGenHandle

theorem copyEntries_apply (source target : Nat → PatternWriteData) (count i : Nat) :
    copyEntries source target count i = if i < count then source i else target i := by
  induction count with
  | zero => simp [copyEntries]
  | succ count ih =>
    have last :
        copyEntries source target (count + 1) =
          Function.update (copyEntries source target count) count (source count) := by
      simp [copyEntries, List.range_succ]
    rw [last]
    by_cases here : i = count
    · simp [here]
    · rw [Function.update_of_ne here, ih]
      have same : (i < count) = (i < count + 1) := by
        apply propext
        omega
      simp [same]

theorem patternEntries_copy {source target : Nat → PatternWriteData}
    {count copied : Nat} (covered : count ≤ copied) :
    patternEntries (copyEntries source target copied) count = patternEntries source count := by
  apply List.map_congr_left
  intro i inRange
  have inCopy : i < copied := by
    have inCount := List.mem_range.mp inRange
    omega
  rw [copyEntries_apply, if_pos inCopy]

@[simp] theorem patternEntries_length (tWriteData : Nat → PatternWriteData)
    (count : Nat) : (patternEntries tWriteData count).length = count := by
  simp [patternEntries]

theorem patternEntries_get (tWriteData : Nat → PatternWriteData) {count i : Nat}
    (inRange : i < count) :
    (patternEntries tWriteData count)[i]? = some (tWriteData i) := by
  simp [patternEntries, inRange]

/-! ## The player beside the generator -/

namespace PatternGenHandle

def RoundLinked (handle : PatternGenHandle) (player : PatternPlayer) : Prop :=
  match handle.state with
  | .null => player.round = none
  | .write =>
    handle.writeIndex < handle.validDataCount ∧
      ∃ pattern,
        player.round = some (pattern, handle.writeIndex) ∧
          pattern.entries = patternEntries handle.tWriteData handle.validDataCount
  | .writeDelay =>
    handle.writeIndex < handle.validDataCount ∧
      ∃ pattern,
        player.round = some (pattern, handle.writeIndex + 1) ∧
          pattern.entries = patternEntries handle.tWriteData handle.validDataCount

structure Linked (handle : PatternGenHandle) (player : PatternPlayer) : Prop where
  running : player.running = handle.bRun
  left : player.left = handle.sendCount
  waits : player.waits = decide handle.Pending
  waiting :
    handle.Pending →
      ∃ pattern,
        player.newest = some pattern ∧ pattern.sendCount = handle.tmpSendCount ∧
          pattern.entries = patternEntries handle.tTmpWriteData handle.tmpValidDataCount
  loaded :
    ¬ handle.Pending → handle.validDataCount ≠ 0 →
      ∃ pattern,
        player.newest = some pattern ∧
          pattern.entries = patternEntries handle.tWriteData handle.validDataCount
  counted : ¬ handle.Idle → handle.validDataCount ≠ 0
  round : handle.RoundLinked player
  idle : handle.Idle → handle.state = .null ∧ ¬ handle.Pending

def Inv (handle : PatternGenHandle) : Prop :=
  ∃ player, handle.log.foldlM playerStep .init = some player ∧ handle.Linked player

variable {handle : PatternGenHandle} {player next : PatternPlayer}

theorem played_append {log : List PatternGenLog} {entry : PatternGenLog}
    (played : log.foldlM playerStep .init = some player)
    (step : playerStep player entry = some next) :
    (log ++ [entry]).foldlM playerStep .init = some next := by
  rw [List.foldlM_append, played]
  simp [step]

theorem Linked.done (linked : handle.Linked player) (idle : handle.Idle) : player.Done where
  waits := by
    rw [linked.waits]
    exact decide_eq_false (linked.idle idle).2
  round := by
    have round := linked.round
    rwa [RoundLinked, (linked.idle idle).1] at round
  left := by
    intro running
    rw [linked.running] at running
    rw [linked.left]
    exact idle.resolve_left (by simp [running])

/-! ### Commands -/

theorem Inv.write (inv : handle.Inv) (command : PatternGenWriteCmd)
    (allowed : handle.WriteAllowed command) :
    (patternGenProcessWriteCmd handle command).Inv := by
  obtain ⟨player, played, linked⟩ := inv
  unfold patternGenProcessWriteCmd
  split
  · next accepts =>
    have fits := allowed accepts
    obtain ⟨-, count, entries, -⟩ := accepts
    split
    · next idle =>
      have state := (linked.idle idle).1
      have noWrite := (linked.idle idle).2
      have accepted :
          playerStep player (.accept command.pattern) =
            some
              { player with
                newest := some command.pattern
                left := command.pattern.sendCount
                running := true } := by
        refine if_pos ?_
        rw [linked.running, linked.left]
        exact idle
      refine ⟨_, played_append played accepted, ?_⟩
      exact
        { running := rfl
          left := rfl
          waits := linked.waits
          waiting := fun pending => absurd pending noWrite
          loaded := fun _ _ => ⟨_, rfl, (patternEntries_copy (Nat.le_refl _)).symm⟩
          counted := fun _ => entries
          round := by
            have round := linked.round
            simp only [RoundLinked, state] at round ⊢
            exact round
          idle := fun _ => ⟨state, noWrite⟩ }
    · next runs =>
      have accepted :
          playerStep player (.accept command.pattern) =
            some { player with newest := some command.pattern, waits := true } := by
        refine if_neg ?_
        rw [linked.running, linked.left]
        exact runs
      have pending : command.sendCount ≠ 0 ∧ command.validDataCount ≠ 0 := ⟨count, entries⟩
      have busy : handle.bRun = true ∧ handle.sendCount ≠ 0 := by simpa [not_or] using runs
      refine ⟨_, played_append played accepted, ?_⟩
      exact
        { running := linked.running.trans busy.1
          left := linked.left
          waits := (decide_eq_true pending).symm
          waiting := fun _ => ⟨_, rfl, rfl, (patternEntries_copy (fits runs)).symm⟩
          loaded := fun noWrite => absurd pending noWrite
          counted := fun _ => linked.counted runs
          round := linked.round
          idle := fun idle => by
            rcases idle with stopped | ended
            · cases stopped
            · exact absurd ended busy.2 }
  · exact ⟨player, played, linked⟩

theorem Inv.stop (inv : handle.Inv) (allowed : handle.StopAllowed) :
    (patternGenProcessStopCmd handle).Inv := by
  obtain ⟨player, played, linked⟩ := inv
  unfold patternGenProcessStopCmd
  split
  · next runs =>
    have noWrite := allowed runs.2
    refine ⟨_, played_append played rfl, ?_⟩
    exact
      { running := rfl
        left := linked.left
        waits := (decide_eq_false noWrite).symm
        waiting := fun pending => absurd pending noWrite
        loaded := linked.loaded
        counted := fun busy => absurd (.inl rfl) busy
        round := rfl
        idle := fun _ => ⟨rfl, noWrite⟩ }
  · exact ⟨player, played, linked⟩

theorem Inv.updateSendCount (inv : handle.Inv) (sendCount : BitVec 32)
    (allowed : handle.UpdateAllowed sendCount) :
    (patternGenProcessUpdateSendCountCmd handle sendCount).Inv := by
  obtain ⟨player, played, linked⟩ := inv
  unfold patternGenProcessUpdateSendCountCmd
  split
  · next valid =>
    have condition := allowed valid
    refine ⟨_, played_append played rfl, ?_⟩
    exact
      { running := rfl
        left := rfl
        waits := linked.waits
        waiting := linked.waiting
        loaded := linked.loaded
        counted := by
          intro busy
          have nonzero : sendCount ≠ 0 := fun zero => busy (.inr zero)
          rwa [if_neg nonzero] at condition
        round := rfl
        idle := by
          intro idle
          have zero : sendCount = 0 := idle.resolve_left (by simp)
          rw [if_pos zero] at condition
          exact ⟨rfl, condition⟩ }
  · exact ⟨player, played, linked⟩

/-! ### Passes -/

theorem Linked.load (linked : handle.Linked player) (busy : ¬ handle.Idle) :
    ¬ (patternGenLoad handle).Pending ∧ ¬ (patternGenLoad handle).Idle ∧
      (patternGenLoad handle).bRun = true ∧
      (patternGenLoad handle).log = handle.log ∧
      ∃ pattern,
        player.newest = some pattern ∧
          pattern.entries =
            patternEntries (patternGenLoad handle).tWriteData
              (patternGenLoad handle).validDataCount ∧
          (patternGenLoad handle).validDataCount ≠ 0 ∧
          (patternGenLoad handle).sendCount =
            if player.waits then pattern.sendCount else player.left := by
  have runs : handle.bRun = true := by
    cases run : handle.bRun
    · exact absurd (.inl run) busy
    · rfl
  by_cases pending : handle.Pending
  · obtain ⟨pattern, newest, count, entries⟩ := linked.waiting pending
    rw [patternGenLoad, if_pos (show _ ∧ _ from pending)]
    refine ⟨fun again => again.1 rfl, ?_, runs, rfl, pattern, newest, ?_, pending.2, ?_⟩
    · rintro (stopped | ended)
      · exact busy (.inl stopped)
      · exact pending.1 ended
    · rw [entries, patternEntries_copy (Nat.le_refl _)]
    · rw [linked.waits, decide_eq_true pending, if_pos rfl, count]
  · obtain ⟨pattern, newest, entries⟩ := linked.loaded pending (linked.counted busy)
    rw [patternGenLoad, if_neg (show ¬ (_ ∧ _) from pending)]
    refine ⟨pending, busy, runs, rfl, pattern, newest, entries, linked.counted busy, ?_⟩
    rw [linked.waits, decide_eq_false pending, linked.left]
    rfl

theorem Linked.begin (linked : handle.Linked player) (busy : ¬ handle.Idle)
    (state : handle.state = .null) :
    ∃ next,
      playerStep player .begin = some next ∧ (patternGenNull handle).Linked next ∧
        (patternGenNull handle).log = handle.log ++ [.begin] := by
  obtain ⟨noWrite, stillBusy, runs, log, pattern, newest, entries, some_, count⟩ := linked.load busy
  have noRound : player.round = none := by
    have round := linked.round
    rwa [RoundLinked, state] at round
  have plays : player.running = true ∧ ¬ player.left = 0#32 := by
    rw [linked.running, linked.left]
    simpa [Idle, not_or] using busy
  have step :
      playerStep player .begin =
        some
          { player with
            waits := false
            round := some (pattern, 0)
            left := if player.waits then pattern.sendCount else player.left } := by
    simp [playerStep, newest, noRound, plays]
  refine ⟨_, step, ?_, ?_⟩
  · exact
      { running := plays.1.trans runs.symm
        left := count.symm
        waits := (decide_eq_false noWrite).symm
        waiting := fun pending => absurd pending noWrite
        loaded := fun _ _ => ⟨pattern, newest, entries⟩
        counted := fun _ => some_
        round := ⟨Nat.pos_of_ne_zero some_, pattern, rfl, entries⟩
        idle := fun idle => absurd idle stillBusy }
  · exact congrArg (· ++ [.begin]) log

theorem patternGenFinish_eq (handle : PatternGenHandle) :
    ∃ gpioDir bInputMode gpioValue,
      patternGenFinish handle =
        { handle with
          sendCount := lessSendCount handle.sendCount
          gpioDir := gpioDir
          bInputMode := bInputMode
          gpioValue := gpioValue
          state := .null
          log := handle.log ++ [.finish] } := by
  simp only [patternGenFinish, patternGenDefault]
  split
  · split
    · exact ⟨_, _, _, rfl⟩
    · split <;> exact ⟨_, _, _, rfl⟩
  · exact ⟨_, _, _, rfl⟩

theorem eq_one_of_lessSendCount {sendCount : BitVec 32}
    (last : lessSendCount sendCount = 0) : sendCount = 1 := by
  unfold lessSendCount at last
  split at last
  · exact BitVec.sub_eq_iff_eq_add.mp last
  · next infinite =>
    rw [last] at infinite
    exact absurd (by decide) infinite

theorem Linked.output (linked : handle.Linked player) (busy : ¬ handle.Idle)
    (state : handle.state = .write) (gTickPerUs : BitVec 32) (timer : PatternGenTimer) :
    ∃ next,
      playerStep player (.output (handle.tWriteData handle.writeIndex)) = some next ∧
        (patternGenWrite gTickPerUs handle timer).Linked next := by
  have round := linked.round
  simp only [RoundLinked, state] at round
  obtain ⟨inRange, pattern, playing, entries⟩ := round
  have entry :
      pattern.entries[handle.writeIndex]? = some (handle.tWriteData handle.writeIndex) := by
    rw [entries, patternEntries_get _ inRange]
  have step :
      playerStep player (.output (handle.tWriteData handle.writeIndex)) =
        some { player with round := some (pattern, handle.writeIndex + 1) } := by
    simp [playerStep, playing, entry]
  refine ⟨_, step, ?_⟩
  exact
    { running := linked.running
      left := linked.left
      waits := linked.waits
      waiting := linked.waiting
      loaded := linked.loaded
      counted := linked.counted
      round := ⟨inRange, pattern, rfl, entries⟩
      idle := fun idle => absurd idle busy }

theorem Linked.finish (linked : handle.Linked player) (busy : ¬ handle.Idle)
    (state : handle.state = .writeDelay) (full : handle.validDataCount ≤ handle.writeIndex + 1)
    (allowed : handle.sendCount = 1 → ¬ handle.Pending) :
    ∃ next,
      playerStep player .finish = some next ∧
        (patternGenFinish { handle with writeIndex := handle.writeIndex + 1 }).Linked next := by
  have round := linked.round
  simp only [RoundLinked, state] at round
  obtain ⟨inRange, pattern, playing, entries⟩ := round
  have all : handle.writeIndex + 1 = pattern.entries.length := by
    rw [entries, patternEntries_length]
    omega
  have step :
      playerStep player .finish =
        some { player with round := none, left := lessSendCount player.left } := by
    simp [playerStep, playing, all]
  obtain ⟨gpioDir, bInputMode, gpioValue, ended⟩ :=
    patternGenFinish_eq { handle with writeIndex := handle.writeIndex + 1 }
  refine ⟨_, step, ?_⟩
  rw [ended]
  exact
    { running := linked.running
      left := congrArg lessSendCount linked.left
      waits := linked.waits
      waiting := linked.waiting
      loaded := linked.loaded
      counted := fun _ => linked.counted busy
      round := rfl
      idle := by
        intro idle
        refine ⟨rfl, ?_⟩
        rcases idle with stopped | zero
        · exact absurd (.inl stopped) busy
        · exact allowed (eq_one_of_lessSendCount zero) }

theorem Inv.pass (inv : handle.Inv) (gTickPerUs : BitVec 32)
    (timer : PatternGenTimer) (allowed : handle.PassAllowed timer) :
    (patternGenPass gTickPerUs handle timer).Inv := by
  obtain ⟨player, played, linked⟩ := inv
  unfold patternGenPass
  split
  · next runs =>
    have busy : ¬ handle.Idle := by
      rintro (stopped | ended)
      · simp [stopped] at runs
      · exact runs.2 ended
    cases state : handle.state with
    | null =>
      obtain ⟨next, step, linked, log⟩ := linked.begin busy state
      exact ⟨next, log ▸ played_append played step, linked⟩
    | write =>
      obtain ⟨next, step, linked⟩ := linked.output busy state gTickPerUs timer
      exact ⟨next, played_append played step, linked⟩
    | writeDelay =>
      simp only [patternGenWriteDelay]
      split
      · next elapsed =>
        split
        · next full =>
          have last : handle.sendCount = 1 → ¬ handle.Pending :=
            fun one => allowed ⟨runs.1, one, state, elapsed, full⟩
          obtain ⟨next, step, linked⟩ := linked.finish busy state full last
          obtain ⟨_, _, _, ended⟩ :=
            patternGenFinish_eq { handle with writeIndex := handle.writeIndex + 1 }
          refine ⟨next, ?_, linked⟩
          rw [ended]
          exact played_append played step
        · next more =>
          have round := linked.round
          simp only [RoundLinked, state] at round
          refine ⟨player, played, ?_⟩
          exact
            { running := linked.running
              left := linked.left
              waits := linked.waits
              waiting := linked.waiting
              loaded := linked.loaded
              counted := linked.counted
              round := ⟨Nat.not_le.mp more, round.2⟩
              idle := fun idle => absurd idle busy }
      · exact ⟨player, played, linked⟩
  · exact ⟨player, played, linked⟩

/-! ### Progress -/

theorem null_log (handle : PatternGenHandle) :
    (patternGenNull handle).log = handle.log ++ [.begin] := by
  simp only [patternGenNull, patternGenLoad]
  split <;> rfl

theorem finish_log (handle : PatternGenHandle) :
    (patternGenFinish handle).log = handle.log ++ [.finish] := by
  obtain ⟨gpioDir, bInputMode, gpioValue, ended⟩ := patternGenFinish_eq handle
  rw [ended]

theorem pass_log (handle : PatternGenHandle) (gTickPerUs : BitVec 32) (timer : PatternGenTimer) :
    handle.log.length ≤ (patternGenPass gTickPerUs handle timer).log.length := by
  unfold patternGenPass
  split
  · cases handle.state with
    | null => simp [null_log]
    | write => simp [patternGenWrite]
    | writeDelay =>
      simp only [patternGenWriteDelay]
      split
      · split
        · simp [finish_log]
        · exact Nat.le_refl _
      · exact Nat.le_refl _
  · exact Nat.le_refl _

theorem goesOn (busy : ¬ handle.Idle) (gTickPerUs : BitVec 32)
    (first second : PatternGenTimer) (elapsed : handle.checkTickCount ≤ first.duration) :
    handle.log.length <
      (patternGenPass gTickPerUs (patternGenPass gTickPerUs handle first) second).log.length := by
  have runs : handle.bRun = true ∧ ¬ handle.sendCount = 0#32 := by simpa [Idle, not_or] using busy
  have seen :
      handle.log.length < (patternGenPass gTickPerUs handle first).log.length →
        handle.log.length <
          (patternGenPass gTickPerUs (patternGenPass gTickPerUs handle first) second).log.length :=
    fun grown => Nat.lt_of_lt_of_le grown (pass_log _ gTickPerUs second)
  cases state : handle.state with
  | null =>
    apply seen
    simp [patternGenPass, runs, state, null_log]
  | write =>
    apply seen
    simp [patternGenPass, runs, state, patternGenWrite]
  | writeDelay =>
    by_cases full : handle.validDataCount ≤ handle.writeIndex + 1
    · apply seen
      simp [patternGenPass, runs, state, patternGenWriteDelay, elapsed, full, finish_log]
    · simp [patternGenPass, runs, state, patternGenWriteDelay, elapsed, full, patternGenWrite]

theorem Inv.safe (inv : handle.Inv) (gTickPerUs : BitVec 32) : handle.Safe gTickPerUs where
  played := by
    obtain ⟨player, played, linked⟩ := inv
    exact ⟨player, played, linked.done⟩
  nonePending := by
    obtain ⟨player, -, linked⟩ := inv
    exact fun idle => (linked.idle idle).2
  goesOn := by
    intro busy first second elapsed
    exact goesOn busy gTickPerUs first second elapsed

structure Fresh (handle : PatternGenHandle) : Prop where
  bRun : handle.bRun = false
  state : handle.state = .null
  sendCount : handle.sendCount = 0
  validDataCount : handle.validDataCount = 0
  tmpSendCount : handle.tmpSendCount = 0
  log : handle.log = []

theorem Fresh.inv (fresh : handle.Fresh) : handle.Inv := by
  have noWrite : ¬ handle.Pending := fun pending => pending.1 fresh.tmpSendCount
  refine ⟨.init, by rw [fresh.log]; rfl, ?_⟩
  exact
    { running := fresh.bRun.symm
      left := fresh.sendCount.symm
      waits := (decide_eq_false noWrite).symm
      waiting := fun pending => absurd pending noWrite
      loaded := fun _ some_ => absurd fresh.validDataCount some_
      counted := fun busy => absurd (.inl fresh.bRun) busy
      round := by
        rw [RoundLinked, fresh.state]
        rfl
      idle := fun _ => ⟨fresh.state, noWrite⟩ }

end PatternGenHandle

/-! ## Runs -/

def PatternGenAllowed (gptPatternGenHandle : List PatternGenHandle) : PatternGenEvent → Prop
  | .write patternGenId command =>
    ∀ handle ∈ gptPatternGenHandle[patternGenId]?, handle.WriteAllowed command
  | .stop patternGenId =>
    ∀ handle ∈ gptPatternGenHandle[patternGenId]?, handle.StopAllowed
  | .updateSendCount patternGenId sendCount =>
    ∀ handle ∈ gptPatternGenHandle[patternGenId]?, handle.UpdateAllowed sendCount
  | .generate timers =>
    ∀ (patternGenId : Nat) (inRange : patternGenId < gptPatternGenHandle.length),
      gptPatternGenHandle[patternGenId].PassAllowed (timers patternGenId)

instance PatternGenAllowed.decidable (gptPatternGenHandle : List PatternGenHandle) :
    ∀ event : PatternGenEvent, Decidable (PatternGenAllowed gptPatternGenHandle event)
  | .write patternGenId command =>
    inferInstanceAs (Decidable (∀ handle ∈ gptPatternGenHandle[patternGenId]?, _))
  | .stop patternGenId =>
    inferInstanceAs (Decidable (∀ handle ∈ gptPatternGenHandle[patternGenId]?, _))
  | .updateSendCount patternGenId sendCount =>
    inferInstanceAs (Decidable (∀ handle ∈ gptPatternGenHandle[patternGenId]?, _))
  | .generate timers =>
    inferInstanceAs
      (Decidable
        (∀ (patternGenId : Nat) (inRange : patternGenId < gptPatternGenHandle.length),
          gptPatternGenHandle[patternGenId].PassAllowed (timers patternGenId)))

def PatternGensInv (gptPatternGenHandle : List PatternGenHandle) : Prop :=
  ∀ handle ∈ gptPatternGenHandle, handle.Inv

variable {gptPatternGenHandle : List PatternGenHandle}

theorem PatternGensInv.modify (inv : PatternGensInv gptPatternGenHandle) {patternGenId : Nat}
    {change : PatternGenHandle → PatternGenHandle}
    (kept : ∀ handle ∈ gptPatternGenHandle[patternGenId]?, handle.Inv → (change handle).Inv) :
    PatternGensInv (gptPatternGenHandle.modify patternGenId change) := by
  intro handle member
  obtain ⟨index, inRange, rfl⟩ := List.mem_iff_getElem.mp member
  rw [List.length_modify] at inRange
  have before := inv _ (List.getElem_mem inRange)
  rw [List.getElem_modify]
  split
  · next here =>
    subst here
    exact kept _ (List.getElem?_eq_getElem inRange) before
  · exact before

theorem PatternGensInv.step (inv : PatternGensInv gptPatternGenHandle) (gTickPerUs : BitVec 32)
    {event : PatternGenEvent} (allowed : PatternGenAllowed gptPatternGenHandle event) :
    PatternGensInv (patternGenStep gTickPerUs gptPatternGenHandle event) := by
  cases event with
  | write patternGenId command =>
    exact inv.modify fun handle here before => before.write command (allowed handle here)
  | stop patternGenId =>
    exact inv.modify fun handle here before => before.stop (allowed handle here)
  | updateSendCount patternGenId sendCount =>
    exact inv.modify fun handle here before =>
      before.updateSendCount sendCount (allowed handle here)
  | generate timers =>
    intro handle member
    obtain ⟨patternGenId, inRange, rfl⟩ := List.mem_mapIdx.mp member
    have before := inv _ (List.getElem_mem inRange)
    exact before.pass gTickPerUs _ (allowed patternGenId inRange)

/-- In every run that meets the condition the generators do what the player
allows. -/
theorem patternGen_safe (gTickPerUs : BitVec 32)
    (gptPatternGenHandle : List PatternGenHandle)
    (fresh : ∀ handle ∈ gptPatternGenHandle, handle.Fresh) (events : List PatternGenEvent)
    (allowed :
      AllowedAlong PatternGenAllowed (patternGenStep gTickPerUs) gptPatternGenHandle events) :
    ∀ handle ∈ events.foldl (patternGenStep gTickPerUs) gptPatternGenHandle,
      handle.Safe gTickPerUs := by
  have initial : PatternGensInv gptPatternGenHandle :=
    fun handle member => (fresh handle member).inv
  have kept :
      PatternGensInv (events.foldl (patternGenStep gTickPerUs) gptPatternGenHandle) := by
    refine Run.invariant initial ?_ (Run.guarded_foldl allowed)
    intro before event after inv step
    rw [step.2]
    exact inv.step gTickPerUs step.1
  exact fun handle member => (kept handle member).safe gTickPerUs

def freshPatternGen : PatternGenHandle :=
  { bValid := true
    bRun := false
    curTime := 0
    checkTickCount := 0
    defaultGpioValue := 0
    timeUnitInUs := 1
    tWriteData := fun _ => ⟨0, 0⟩
    validDataCount := 0
    sendCount := 0
    writeIndex := 0
    tTmpWriteData := fun _ => ⟨0, 0⟩
    tmpValidDataCount := 0
    tmpSendCount := 0
    bInputMode := false
    state := .null
    gpioDir := false
    gpioValue := 0
    log := [] }

theorem freshPatternGen_fresh : freshPatternGen.Fresh := ⟨rfl, rfl, rfl, rfl, rfl, rfl⟩

/-- Writes `count` entries of this value and no length, to be sent `sendCount`
times. -/
def writeEvent (value : BitVec 16) (count : Nat) (sendCount : BitVec 32) : PatternGenEvent :=
  .write 0
    { validDataCount := count
      sendCount := sendCount
      tWriteData := fun _ => ⟨value, 0⟩ }

def passEvents (count : Nat) : List PatternGenEvent :=
  List.replicate count (.generate fun _ => ⟨0, 0⟩)

/-- A pattern that is sent twice, a second one written meanwhile. -/
def replacedEvents : List PatternGenEvent :=
  writeEvent 1 2 2 :: passEvents 3 ++ writeEvent 2 1 1 :: passEvents 6

theorem patternGen_safe_replaced :
    ∃ handle,
      (replacedEvents.foldl (patternGenStep 1) [freshPatternGen])[0]? = some handle ∧
        handle.Safe 1 := by
  have safe :=
    patternGen_safe 1 [freshPatternGen]
      (fun handle member =>
        (List.mem_singleton.mp member : handle = freshPatternGen) ▸ freshPatternGen_fresh)
      replacedEvents (by decide)
  have length :
      0 < (replacedEvents.foldl (patternGenStep 1) [freshPatternGen]).length := by
    decide
  exact ⟨_, List.getElem?_eq_getElem length, safe _ (List.getElem_mem length)⟩

def patternGenRun (events : List PatternGenEvent) : Option PatternGenHandle :=
  (events.foldl (patternGenStep 1) [freshPatternGen])[0]?

/-- A write that waits when the last repetition ends, or when there is a stop; a
longer write to a running generator; and a count without a pattern. -/
theorem patternGen_unsafe :
    (∃ handle ∈
        patternGenRun (writeEvent 1 1 1 :: passEvents 2 ++ writeEvent 2 1 1 :: passEvents 1),
      ¬ handle.Safe 1) ∧
      (∃ handle ∈ patternGenRun (writeEvent 1 1 2 :: passEvents 1 ++ [writeEvent 2 1 1, .stop 0]),
        ¬ handle.Safe 1) ∧
      (∃ handle ∈
          patternGenRun (writeEvent 1 1 2 :: passEvents 1 ++ writeEvent 2 2 1 :: passEvents 6),
        ¬ handle.Safe 1) ∧
      ∃ handle ∈ patternGenRun (.updateSendCount 0 1 :: passEvents 1), ¬ handle.Safe 1 := by
  refine ⟨⟨_, rfl, ?_⟩, ⟨_, rfl, ?_⟩, ⟨_, rfl, ?_⟩, ⟨_, rfl, ?_⟩⟩
  · intro safe
    exact safe.nonePending (by decide) (by decide)
  · intro safe
    exact safe.nonePending (by decide) (by decide)
  · intro safe
    obtain ⟨player, played, -⟩ := safe.played
    have rejected : none = some player := played
    cases rejected
  · intro safe
    obtain ⟨player, played, -⟩ := safe.played
    have rejected : none = some player := played
    cases rejected

end IteSdk.AltCpu
