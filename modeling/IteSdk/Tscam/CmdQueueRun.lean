import IteSdk.Lib.Transition
import IteSdk.Tscam.CmdQueue

/-!
# Runs of the command queues

Commands are received, fetched, posted and pulled for transmission in any order.
A log tells what became of every command of a queue, in the order in which they
came; what is queued according to the log is what the queue holds.
-/

namespace IteSdk.Tscam

open Lib

variable {α : Type}

/-! ## Logs -/

inductive CmdFate
  | queued
  | taken
  | superseded
  | full
  | noMemory
  deriving DecidableEq

abbrev CmdLog (α : Type) := List (CmdBox α × CmdFate)

namespace CmdLog

def withFate (log : CmdLog α) (fate : CmdFate) : List (CmdBox α) :=
  (log.filter fun entry => entry.2 = fate).map Prod.fst

def supersede (log : CmdLog α) (cmdCode : Nat) : CmdLog α :=
  log.map fun entry =>
    if entry.2 = .queued ∧ entry.1.cmdCode = cmdCode then
      (entry.1, .superseded)
    else
      entry

def enqueue (log : CmdLog α) (box : CmdBox α) (allocated : Bool) : CmdLog α :=
  log ++ [(box, if allocated then .queued else .noMemory)]

def receive (log : CmdLog α) (box : CmdBox α) (allocated : Bool) : CmdLog α :=
  if tscamMaxQueueSize < (log.withFate .queued).length then
    log ++ [(box, .full)]
  else
    (log.supersede box.cmdCode).enqueue box allocated

def post (log : CmdLog α) (box : CmdBox α) (allocated : Bool) : CmdLog α :=
  if tscamMaxQueueSize < (log.withFate .queued).length then
    log ++ [(box, .full)]
  else
    log.enqueue box allocated

def takeOldest : CmdLog α → CmdLog α
  | [] => []
  | (box, fate) :: rest =>
    if fate = .queued then
      (box, .taken) :: rest
    else
      (box, fate) :: takeOldest rest

def InOrder (log : CmdLog α) : Prop :=
  log.Pairwise fun earlier later => earlier.2 = .queued → later.2 ≠ .taken

/-- A queued command is followed by none of its code, unless the queue was full
when that one came. -/
def Recent (log : CmdLog α) : Prop :=
  log.Pairwise fun earlier later =>
    earlier.2 = .queued → later.1.cmdCode = earlier.1.cmdCode → later.2 = .full

/-- A command is superseded only by one of its code that came later. -/
def Replaced : CmdLog α → Prop
  | [] => True
  | entry :: rest =>
    (entry.2 = .superseded →
      ∃ later ∈ rest, later.1.cmdCode = entry.1.cmdCode ∧ later.2 ≠ .full) ∧
      Replaced rest

variable {log : CmdLog α} {box : CmdBox α}

theorem withFate_append (log more : CmdLog α) (fate : CmdFate) :
    withFate (log ++ more) fate = withFate log fate ++ withFate more fate := by
  rw [withFate, List.filter_append, List.map_append]
  rfl

theorem withFate_cons (entry : CmdBox α × CmdFate) (log : CmdLog α) (fate : CmdFate) :
    withFate (entry :: log) fate =
      if entry.2 = fate then
        entry.1 :: withFate log fate
      else
        withFate log fate := by
  rw [withFate, List.filter_cons]
  by_cases same : entry.2 = fate <;> simp [same, withFate]

theorem supersede_cons (entry : CmdBox α × CmdFate) (log : CmdLog α) (cmdCode : Nat) :
    supersede (entry :: log) cmdCode =
      (if entry.2 = .queued ∧ entry.1.cmdCode = cmdCode then
          (entry.1, .superseded)
        else
          entry) ::
        supersede log cmdCode :=
  rfl

theorem queued_supersede (cmdCode : Nat) :
    (log.supersede cmdCode).withFate .queued = withoutCode (log.withFate .queued) cmdCode := by
  induction log with
  | nil => rfl
  | cons entry rest ih =>
    rw [supersede_cons, withFate_cons, withFate_cons, ih]
    by_cases queued : entry.2 = .queued <;>
      by_cases code : entry.1.cmdCode = cmdCode <;>
        simp [queued, code, withoutCode]

theorem taken_supersede (cmdCode : Nat) :
    (log.supersede cmdCode).withFate .taken = log.withFate .taken := by
  induction log with
  | nil => rfl
  | cons entry rest ih =>
    rw [supersede_cons, withFate_cons, withFate_cons, ih]
    by_cases queued : entry.2 = .queued <;>
      by_cases code : entry.1.cmdCode = cmdCode <;> simp [queued, code]

theorem queued_takeOldest : (takeOldest log).withFate .queued = (log.withFate .queued).tail := by
  induction log with
  | nil => rfl
  | cons entry rest ih =>
    obtain ⟨box, fate⟩ := entry
    rw [takeOldest]
    by_cases queued : fate = .queued
    · subst queued
      rw [if_pos rfl, withFate_cons, withFate_cons]
      simp
    · rw [if_neg queued, withFate_cons, withFate_cons, ih]
      simp [queued]

theorem taken_takeOldest (inOrder : log.InOrder) :
    (takeOldest log).withFate .taken =
      log.withFate .taken ++ (log.withFate .queued).head?.toList := by
  induction log with
  | nil => rfl
  | cons entry rest ih =>
    obtain ⟨box, fate⟩ := entry
    obtain ⟨first, later⟩ := List.pairwise_cons.mp inOrder
    rw [takeOldest]
    by_cases queued : fate = .queued
    · subst queued
      have none_ : withFate rest .taken = [] := by
        rw [withFate, List.map_eq_nil_iff, List.filter_eq_nil_iff]
        intro other member taken
        exact first other member rfl (of_decide_eq_true taken)
      rw [if_pos rfl, withFate_cons, withFate_cons, withFate_cons, none_]
      simp
    · rw [if_neg queued, withFate_cons, withFate_cons, withFate_cons, ih later, if_neg queued]
      split <;> simp

theorem mem_queued (member : box ∈ log.withFate .queued) : (box, .queued) ∈ log := by
  obtain ⟨⟨other, fate⟩, inside, rfl⟩ := List.mem_map.mp member
  obtain ⟨present, queued⟩ := List.mem_filter.mp inside
  obtain rfl : fate = .queued := of_decide_eq_true queued
  exact present

theorem Recent.codesDiffer (recent : log.Recent) : CodesDiffer (log.withFate .queued) := by
  induction log with
  | nil => exact List.nodup_nil
  | cons entry rest ih =>
    obtain ⟨first, later⟩ := List.pairwise_cons.mp recent
    rw [withFate_cons]
    by_cases queued : entry.2 = .queued
    · rw [if_pos queued, CodesDiffer, List.map_cons, List.nodup_cons]
      refine ⟨fun member => ?_, ih later⟩
      obtain ⟨box, inside, code⟩ := List.mem_map.mp member
      have full := first (box, .queued) (mem_queued inside) queued code
      cases full
    · rw [if_neg queued]
      exact ih later

/-! ### A command comes -/

variable {fate : CmdFate}

theorem pairwise_concat {related : CmdBox α × CmdFate → CmdBox α × CmdFate → Prop}
    (pairs : log.Pairwise related) {last : CmdBox α × CmdFate}
    (all : ∀ entry ∈ log, related entry last) :
    (log ++ [last]).Pairwise related := by
  rw [List.pairwise_append]
  refine ⟨pairs, List.pairwise_singleton _ _, fun entry member other inside => ?_⟩
  obtain rfl := List.mem_singleton.mp inside
  exact all entry member

theorem InOrder.concat (inOrder : log.InOrder) (fresh : fate ≠ .taken) :
    InOrder (log ++ [(box, fate)]) :=
  pairwise_concat inOrder fun _ _ _ => fresh

theorem Recent.concat (recent : log.Recent)
    (codes : ∀ entry ∈ log, entry.2 = .queued → box.cmdCode = entry.1.cmdCode → fate = .full) :
    Recent (log ++ [(box, fate)]) :=
  pairwise_concat recent codes

theorem Replaced.concat (replaced : log.Replaced) (fresh : fate ≠ .superseded) :
    Replaced (log ++ [(box, fate)]) := by
  induction log with
  | nil => exact ⟨fun never => (fresh never).elim, trivial⟩
  | cons entry rest ih =>
    refine ⟨fun superseded => ?_, ih replaced.2⟩
    obtain ⟨later, member, holds⟩ := replaced.1 superseded
    exact ⟨later, List.mem_append_left _ member, holds⟩

theorem mem_supersede {cmdCode : Nat} {entry : CmdBox α × CmdFate}
    (member : entry ∈ log.supersede cmdCode) :
    (entry ∈ log ∧ ¬(entry.2 = .queued ∧ entry.1.cmdCode = cmdCode)) ∨ entry.2 = .superseded := by
  obtain ⟨before, inside, same⟩ := List.mem_map.mp member
  by_cases replaced : before.2 = .queued ∧ before.1.cmdCode = cmdCode
  · rw [if_pos replaced] at same
    exact .inr (same ▸ rfl)
  · rw [if_neg replaced] at same
    exact .inl (same ▸ ⟨inside, replaced⟩)

theorem InOrder.supersede (inOrder : log.InOrder) (cmdCode : Nat) :
    (log.supersede cmdCode).InOrder := by
  refine List.pairwise_map.mpr (inOrder.imp fun {earlier later} before => ?_)
  by_cases first : earlier.2 = .queued ∧ earlier.1.cmdCode = cmdCode
  · simp [first]
  · by_cases second : later.2 = .queued ∧ later.1.cmdCode = cmdCode
    · simp [first, second]
    · simpa [first, second] using before

theorem Recent.supersede (recent : log.Recent) (cmdCode : Nat) :
    (log.supersede cmdCode).Recent := by
  refine List.pairwise_map.mpr (recent.imp fun {earlier later} before => ?_)
  by_cases first : earlier.2 = .queued ∧ earlier.1.cmdCode = cmdCode
  · simp [first]
  · by_cases second : later.2 = .queued ∧ later.1.cmdCode = cmdCode
    · rw [if_neg first, if_pos second]
      intro queued code
      have full := before queued code
      rw [second.1] at full
      cases full
    · rw [if_neg first, if_neg second]
      exact before

theorem Replaced.supersede (replaced : log.Replaced) (fresh : fate ≠ .superseded)
    (stored : fate ≠ .full) :
    Replaced (log.supersede box.cmdCode ++ [(box, fate)]) := by
  induction log with
  | nil => exact ⟨fun never => (fresh never).elim, trivial⟩
  | cons entry rest ih =>
    rw [supersede_cons]
    refine ⟨fun superseded => ?_, ih replaced.2⟩
    by_cases now : entry.2 = .queued ∧ entry.1.cmdCode = box.cmdCode
    · rw [if_pos now]
      exact ⟨(box, fate), List.mem_append_right _ (List.mem_singleton_self _), now.2.symm, stored⟩
    · rw [if_neg now] at superseded ⊢
      obtain ⟨later, member, code, notFull⟩ := replaced.1 superseded
      by_cases too : later.2 = .queued ∧ later.1.cmdCode = box.cmdCode
      · refine ⟨(later.1, .superseded), List.mem_append_left _ ?_, code, by simp⟩
        exact List.mem_map.mpr ⟨later, member, if_pos too⟩
      · refine ⟨later, List.mem_append_left _ ?_, code, notFull⟩
        exact List.mem_map.mpr ⟨later, member, if_neg too⟩

/-! ### A command is taken -/

theorem InOrder.takeOldest (inOrder : log.InOrder) : (takeOldest log).InOrder := by
  induction log with
  | nil => exact inOrder
  | cons entry rest ih =>
    obtain ⟨box, fate⟩ := entry
    obtain ⟨-, later⟩ := List.pairwise_cons.mp inOrder
    rw [CmdLog.takeOldest]
    by_cases queued : fate = .queued
    · rw [if_pos queued]
      exact List.pairwise_cons.mpr ⟨fun _ _ never => by simp at never, later⟩
    · rw [if_neg queued]
      exact List.pairwise_cons.mpr ⟨fun _ _ never => (queued never).elim, ih later⟩

theorem Recent.takeOldest (recent : log.Recent) : (takeOldest log).Recent := by
  induction log with
  | nil => exact recent
  | cons entry rest ih =>
    obtain ⟨box, fate⟩ := entry
    obtain ⟨-, later⟩ := List.pairwise_cons.mp recent
    rw [CmdLog.takeOldest]
    by_cases queued : fate = .queued
    · rw [if_pos queued]
      exact List.pairwise_cons.mpr ⟨fun _ _ never => by simp at never, later⟩
    · rw [if_neg queued]
      exact List.pairwise_cons.mpr ⟨fun _ _ never => (queued never).elim, ih later⟩

theorem mem_takeOldest (member : (box, fate) ∈ log) (stored : fate ≠ .full) :
    ∃ now, (box, now) ∈ takeOldest log ∧ now ≠ .full := by
  induction log with
  | nil => exact absurd member List.not_mem_nil
  | cons entry rest ih =>
    obtain ⟨other, first⟩ := entry
    rw [takeOldest]
    rcases List.mem_cons.mp member with same | inside
    · obtain ⟨rfl, rfl⟩ := Prod.mk.inj same
      by_cases queued : fate = .queued
      · exact ⟨.taken, by simp [queued], by simp⟩
      · exact ⟨fate, by simp [queued], stored⟩
    · by_cases queued : first = .queued
      · exact ⟨fate, by simp [queued, inside], stored⟩
      · obtain ⟨now, found, notFull⟩ := ih inside
        exact ⟨now, by simp [queued, found], notFull⟩

theorem Replaced.takeOldest (replaced : log.Replaced) : (takeOldest log).Replaced := by
  induction log with
  | nil => exact replaced
  | cons entry rest ih =>
    obtain ⟨box, fate⟩ := entry
    rw [CmdLog.takeOldest]
    by_cases queued : fate = .queued
    · rw [if_pos queued]
      exact ⟨fun never => by simp at never, replaced.2⟩
    · rw [if_neg queued]
      refine ⟨fun superseded => ?_, ih replaced.2⟩
      obtain ⟨⟨later, laterFate⟩, member, code, stored⟩ := replaced.1 superseded
      obtain ⟨now, found, notFull⟩ := mem_takeOldest member stored
      exact ⟨(later, now), found, code, notFull⟩

/-! ### The operations on a log -/

structure Kept (log : CmdLog α) : Prop where
  inOrder : log.InOrder
  recent : log.Recent
  replaced : log.Replaced

theorem Kept.nil : Kept ([] : CmdLog α) := ⟨.nil, .nil, trivial⟩

theorem Kept.takeOldest (kept : log.Kept) : (takeOldest log).Kept where
  inOrder := kept.inOrder.takeOldest
  recent := kept.recent.takeOldest
  replaced := kept.replaced.takeOldest

theorem Kept.full (kept : log.Kept) : Kept (log ++ [(box, .full)]) where
  inOrder := kept.inOrder.concat (by simp)
  recent := kept.recent.concat fun _ _ _ _ => rfl
  replaced := kept.replaced.concat (by simp)

theorem Kept.enqueue (kept : log.Kept) (allocated : Bool) :
    Kept ((log.supersede box.cmdCode).enqueue box allocated) where
  inOrder := (kept.inOrder.supersede _).concat (by cases allocated <;> simp)
  recent := by
    refine (kept.recent.supersede _).concat fun entry member queued code => ?_
    rcases mem_supersede member with ⟨-, other⟩ | superseded
    · exact (other ⟨queued, code.symm⟩).elim
    · rw [queued] at superseded
      cases superseded
  replaced := kept.replaced.supersede (by cases allocated <;> simp) (by cases allocated <;> simp)

theorem Kept.receive (kept : log.Kept) (box : CmdBox α) (allocated : Bool) :
    (log.receive box allocated).Kept := by
  unfold CmdLog.receive
  split
  · exact kept.full
  · exact kept.enqueue allocated

theorem InOrder.post (inOrder : log.InOrder) (allocated : Bool) :
    (log.post box allocated).InOrder := by
  unfold CmdLog.post
  split
  · exact inOrder.concat (by simp)
  · exact inOrder.concat (by cases allocated <;> simp)

theorem queued_enqueue (allocated : Bool) :
    (log.enqueue box allocated).withFate .queued =
      log.withFate .queued ++ if allocated then [box] else [] := by
  rw [enqueue, withFate_append]
  cases allocated <;> simp [withFate]

theorem taken_enqueue (allocated : Bool) :
    (log.enqueue box allocated).withFate .taken = log.withFate .taken := by
  rw [enqueue, withFate_append]
  cases allocated <;> simp [withFate]

theorem taken_receive (allocated : Bool) :
    (log.receive box allocated).withFate .taken = log.withFate .taken := by
  unfold receive
  split
  · rw [withFate_append]
    simp [withFate]
  · rw [taken_enqueue, taken_supersede]

theorem taken_post (allocated : Bool) :
    (log.post box allocated).withFate .taken = log.withFate .taken := by
  unfold post
  split
  · rw [withFate_append]
    simp [withFate]
  · rw [taken_enqueue]

theorem queued_full : withFate (log ++ [(box, .full)]) .queued = log.withFate .queued := by
  rw [withFate_append]
  simp [withFate]

theorem queued_receive_full
    (full : tscamMaxQueueSize < (log.withFate .queued).length) (allocated : Bool) :
    (log.receive box allocated).withFate .queued = log.withFate .queued := by
  rw [receive, if_pos full, queued_full]

theorem queued_receive
    (notFull : ¬ tscamMaxQueueSize < (log.withFate .queued).length) (allocated : Bool) :
    (log.receive box allocated).withFate .queued =
      withoutCode (log.withFate .queued) box.cmdCode ++ if allocated then [box] else [] := by
  rw [receive, if_neg notFull, queued_enqueue, queued_supersede]

end CmdLog

/-! ## Runs -/

/-- `fetched` and `pulled` are the boxes that the calls returned, in this
order. -/
structure CmdRun (α : Type) where
  handle : TscmHandle α
  recvLog : CmdLog α
  transLog : CmdLog α
  fetched : List (CmdBox α)
  pulled : List (CmdBox α)

def CmdRun.start (α : Type) : CmdRun α := ⟨.init α, [], [], [], []⟩

/-- A call that allocates comes with what `malloc` returns. -/
inductive CmdEvent (α : Type)
  | received (malloc : BoxMalloc α) (box : CmdBox α)
  | fetch
  | post (malloc : BoxMalloc α) (box : CmdBox α)
  | generate

def cmdRunStep (fuel : Nat) (attr : Nat → Option (CmdSrvcAttr α))
    (run : CmdRun α) : CmdEvent α → Option (CmdRun α)
  | .received malloc box =>
    (recvCmd fuel run.handle malloc box).map fun (handle, result) =>
      { run with
        handle := handle
        recvLog :=
          run.recvLog.receive { box with priority := .appt }
            (result = .stored) }
  | .fetch =>
    (tscamCmdFetch fuel run.handle).map fun (handle, box) =>
      { run with
        handle := handle
        recvLog := run.recvLog.takeOldest
        fetched := run.fetched ++ box.toList }
  | .post malloc box =>
    some
      { run with
        handle := tscamCmdPost attr run.handle malloc box
        transLog :=
          match postedBox attr box with
          | none => run.transLog
          | some posted =>
            run.transLog.post posted (malloc.answer run.handle.boxes).isSome }
  | .generate =>
    (tscamStreamPull fuel run.handle).map fun (handle, box) =>
      { run with
        handle := handle
        transLog := run.transLog.takeOldest
        pulled := run.pulled ++ box.toList }

structure CmdRunSafe (run : CmdRun α) : Prop where
  holds :
    ∃ recvNodes transNodes,
      HandleHolds run.handle recvNodes transNodes
        (run.recvLog.withFate .queued) (run.transLog.withFate .queued)
  recvBound : (run.recvLog.withFate .queued).length ≤ tscamMaxQueueSize + 1
  transBound : (run.transLog.withFate .queued).length ≤ tscamMaxQueueSize + 1
  codes : CodesDiffer (run.recvLog.withFate .queued)
  kept : run.recvLog.Kept
  transOrder : run.transLog.InOrder
  fetched : run.fetched = run.recvLog.withFate .taken
  pulled : run.pulled = run.transLog.withFate .taken

theorem CmdRunSafe.start : CmdRunSafe (CmdRun.start α) where
  holds := ⟨[], [], .init⟩
  recvBound := Nat.zero_le _
  transBound := Nat.zero_le _
  codes := List.nodup_nil
  kept := .nil
  transOrder := .nil
  fetched := rfl
  pulled := rfl

/-! ### One call -/

variable {handle : TscmHandle α} {recvNodes transNodes : List Nat}
  {recvHeld transHeld : List (CmdBox α)} {malloc : BoxMalloc α} {box : CmdBox α}
  {fuel : Nat} {log : CmdLog α}

theorem queued_receive_heldAfter (box : CmdBox α) {result : RecvResult}
    (full : result = .full ↔ tscamMaxQueueSize < (log.withFate .queued).length) :
    (log.receive { box with priority := .appt } (result = .stored)).withFate .queued =
      heldAfter (log.withFate .queued) box result := by
  cases result with
  | full => exact CmdLog.queued_receive_full (full.mp rfl) _
  | noMemory | stored =>
    rw [CmdLog.queued_receive (by simpa using full)]
    simp [heldAfter]

theorem tscamStreamPull_swap (fuel : Nat) (handle : TscmHandle α) :
    tscamStreamPull fuel handle =
      (tscamCmdFetch fuel handle.swap).map fun result => (result.1.swap, result.2) := by
  rw [tscamStreamPull, tscamCmdFetch]
  simp only [TscmHandle.swap]
  cases queueTake fuel handle.links handle.trans with
  | none => rfl
  | some result =>
    obtain ⟨links, queue, taken⟩ := result
    cases taken with
    | none => rfl
    | some node => simp

theorem tscamStreamPull_spec (holds : HandleHolds handle recvNodes transNodes recvHeld transHeld)
    (enough : transHeld.length ≤ fuel) (small : transHeld.length < 2 ^ 32) :
    ∃ after nodes,
      tscamStreamPull fuel handle = some (after, transHeld.head?) ∧
        HandleHolds after recvNodes nodes recvHeld transHeld.tail := by
  obtain ⟨after, nodes, fetched, left⟩ := tscamCmdFetch_spec holds.swap enough small
  refine ⟨after.swap, nodes, ?_, left.swap⟩
  rw [tscamStreamPull_swap, fetched]
  rfl

theorem tscamCmdPost_spec (attr : Nat → Option (CmdSrvcAttr α)) (malloc : BoxMalloc α)
    {posted : CmdBox α} (known : postedBox attr box = some posted)
    (holds : HandleHolds handle recvNodes transNodes recvHeld (log.withFate .queued))
    (bound : (log.withFate .queued).length ≤ tscamMaxQueueSize + 1) :
    ∃ nodes,
      HandleHolds (tscamCmdPost attr handle malloc box) recvNodes nodes recvHeld
          ((log.post posted (malloc.answer handle.boxes).isSome).withFate .queued) ∧
        ((log.post posted (malloc.answer handle.boxes).isSome).withFate .queued).length ≤
          tscamMaxQueueSize + 1 := by
  have num : handle.trans.num = (log.withFate .queued).length :=
    holds.trans.queued.num.trans holds.trans.length
  unfold tscamCmdPost CmdLog.post
  rw [known, num]
  dsimp only
  by_cases full : tscamMaxQueueSize < (log.withFate .queued).length
  · rw [if_pos full, if_pos full, CmdLog.queued_full]
    exact ⟨transNodes, holds, bound⟩
  · rw [if_neg full, if_neg full, CmdLog.queued_enqueue]
    cases answered : malloc.answer handle.boxes with
    | none => exact ⟨transNodes, by simpa using holds, by simpa using bound⟩
    | some new =>
      have pushed :=
        holds.pushTrans (malloc.free _ _ answered)
          (by unfold tscamMaxQueueSize at full; omega) posted
      refine ⟨transNodes ++ [new], by simpa using pushed, ?_⟩
      simp
      omega

theorem cmdRunStep_safe {run : CmdRun α} (safe : CmdRunSafe run)
    (attr : Nat → Option (CmdSrvcAttr α)) (enough : tscamMaxQueueSize + 1 < fuel)
    (event : CmdEvent α) :
    ∃ after, cmdRunStep fuel attr run event = some after ∧ CmdRunSafe after := by
  obtain ⟨recvNodes, transNodes, holds⟩ := safe.holds
  have recvBound := safe.recvBound
  have transBound := safe.transBound
  cases event with
  | received malloc box =>
    obtain ⟨after, result, nodes, stored, left, bounded, full⟩ :=
      recvCmd_held malloc box holds ⟨safe.recvBound, safe.codes⟩ enough
    have kept := safe.kept.receive { box with priority := .appt } (result = .stored)
    rw [← queued_receive_heldAfter box full] at left bounded
    rw [cmdRunStep, stored]
    refine ⟨_, rfl, ⟨nodes, transNodes, left⟩, bounded.short, transBound,
      bounded.codes, kept, safe.transOrder, ?_, safe.pulled⟩
    rw [CmdLog.taken_receive]
    exact safe.fetched
  | fetch =>
    have shorter : (run.recvLog.withFate .queued).length ≤ fuel := by omega
    obtain ⟨after, nodes, taken, left⟩ :=
      tscamCmdFetch_spec holds shorter (by unfold tscamMaxQueueSize at recvBound; omega)
    have kept := safe.kept.takeOldest
    rw [cmdRunStep, taken]
    refine ⟨_, rfl, ⟨nodes, transNodes, ?_⟩, ?_, transBound,
      kept.recent.codesDiffer, kept, safe.transOrder, ?_, safe.pulled⟩
    · rw [CmdLog.queued_takeOldest]
      exact left
    · rw [CmdLog.queued_takeOldest, List.length_tail]
      omega
    · rw [CmdLog.taken_takeOldest safe.kept.inOrder, safe.fetched]
  | post malloc box =>
    rw [cmdRunStep]
    cases known : postedBox attr box with
    | none =>
      have same : tscamCmdPost attr run.handle malloc box = run.handle := by
        rw [tscamCmdPost, known]
      rw [same]
      exact ⟨_, rfl, safe⟩
    | some posted =>
      obtain ⟨nodes, left, bound⟩ := tscamCmdPost_spec attr malloc known holds safe.transBound
      refine ⟨_, rfl, ⟨recvNodes, nodes, left⟩, recvBound, bound,
        safe.codes, safe.kept, safe.transOrder.post _, safe.fetched, ?_⟩
      rw [CmdLog.taken_post]
      exact safe.pulled
  | generate =>
    have shorter : (run.transLog.withFate .queued).length ≤ fuel := by omega
    obtain ⟨after, nodes, taken, left⟩ :=
      tscamStreamPull_spec holds shorter (by unfold tscamMaxQueueSize at transBound; omega)
    rw [cmdRunStep, taken]
    refine ⟨_, rfl, ⟨recvNodes, nodes, ?_⟩, recvBound, ?_, safe.codes,
      safe.kept, safe.transOrder.takeOldest, safe.fetched, ?_⟩
    · rw [CmdLog.queued_takeOldest]
      exact left
    · rw [CmdLog.queued_takeOldest, List.length_tail]
      omega
    · rw [CmdLog.taken_takeOldest safe.transOrder, safe.pulled]

def boxOfCode (cmdCode content : Nat) : CmdBox Nat :=
  ⟨cmdCode, .appt, none, content, none, .ts, 0, 0⟩

/-- Six commands come, then the first of them with other content. -/
def staleRun : List (CmdEvent Nat) :=
  (List.range 6).map (fun code => .received (.of code) (boxOfCode code 0)) ++
    [.received (.of 6) (boxOfCode 0 1)]

end IteSdk.Tscam
