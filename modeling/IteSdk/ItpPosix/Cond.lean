import IteSdk.Lib.Threads
import IteSdk.Lib.Transition
import Mathlib.Data.List.Basic

/-!
# Condition variables

A condition is a count of the waiters and a counting semaphore.  Each critical
section, each operation on a semaphore and each operation on the mutex is a step of
the thread that makes it.
-/

namespace IteSdk.ItpPosix

section

inductive Errno
  | ok
  | eagain
  | einval
  | enomem
  | etimedout
  deriving DecidableEq

/-- A `pthread_cond_broadcast` under way: `count` when it began, how many signals had
been issued then, and how many steps its loop has made. -/
structure CondBroadcast where
  current : Int
  before : Nat
  steps : Nat
  deriving DecidableEq

/-- Where a thread is; `timed` tells `pthread_cond_timedwait` from
`pthread_cond_wait`. -/
inductive CondPc
  | running
  | wait (timed : Bool)
  | unlock (timed : Bool)
  | take (timed : Bool)
  | uncount (timed : Bool)
  | lock
  | signal
  | give
  | restore
  | broadcast
  | loop (broadcast : CondBroadcast)
  | giveAll (broadcast : CondBroadcast)
  | restoreAll (broadcast : CondBroadcast)
  deriving DecidableEq

/-- What a call has returned; a wait, with whether the caller then holds the mutex,
and a broadcast, with the signals issued from its beginning to its end. -/
inductive CondReturn
  | wait (result : Errno) (held : Bool)
  | signal (result : Errno)
  | broadcast (result : Errno) (current issued : Int)
  deriving DecidableEq

/-- `count` and `tokens` are `itpCondition`; `created` is that the condition is not
`PTHREAD_COND_INITIALIZER` any more.  `signals` are the signals that have found a
waiter, less those that were taken back, and `taken` the tokens that were taken. -/
structure CondState where
  created : Bool
  count : Int
  tokens : Nat
  mutex : Option Nat
  threads : List CondPc
  signals : Nat
  taken : Nat
  returns : List CondReturn

def CondState.init (threads : Nat) : CondState :=
  { created := false
    count := 0
    tokens := 0
    mutex := none
    threads := List.replicate threads .running
    signals := 0
    taken := 0
    returns := [] }

/-- What `xSemaphoreCreateCounting` is given in `pthread_cond_init`. -/
def condTokensMax : Nat := 32

/-- The first critical section of a call up to `c = (itpCondition*) *cond`; `ok` is
that `pthread_cond_init` gets its memory. -/
def condInit (state : CondState) (ok : Bool) : Option CondState :=
  if state.created then some state
  else if ok then some { state with created := true, count := 0, tokens := 0 }
  else none

/-- `xSemaphoreGive`, if the semaphore is not full. -/
def condGive (state : CondState) : Option CondState :=
  if state.tokens < condTokensMax then some { state with tokens := state.tokens + 1 }
  else none

def CondState.return (state : CondState) (returned : CondReturn) : CondState :=
  { state with returns := state.returns ++ [returned] }

/-- `pthread_cond_wait` and `pthread_cond_timedwait`; `elapsed` is that the time of
`xSemaphoreTake` is over. -/
def pthreadCondWait (state : CondState) (thread : Nat) (ok elapsed : Bool) :
    CondPc → CondState × CondPc
  | .wait timed =>
    match condInit state ok with
    | none => (state.return (.wait .enomem (state.mutex = some thread)), .running)
    | some state => ({ state with count := state.count + 1 }, .unlock timed)
  | .unlock timed => ({ state with mutex := none }, .take timed)
  | .take timed =>
    if 0 < state.tokens then
      ({ state with tokens := state.tokens - 1, taken := state.taken + 1 }, .lock)
    else if timed && elapsed then
      (state, .uncount timed)
    else
      (state, .take timed)
  | .uncount timed =>
    let state := { state with count := state.count - 1 }
    let result := if timed then .etimedout else .einval
    (state.return (.wait result (state.mutex = some thread)), .running)
  | .lock =>
    match state.mutex with
    | none => ({ state with mutex := some thread }.return (.wait .ok true), .running)
    | some _ => (state, .lock)
  | pc => (state, pc)

def pthreadCondSignal (state : CondState) (ok : Bool) : CondPc → CondState × CondPc
  | .signal =>
    match condInit state ok with
    | none => (state.return (.signal .enomem), .running)
    | some state =>
      if state.count = 0 then (state.return (.signal .ok), .running)
      else
        ({ state with count := state.count - 1, signals := state.signals + 1 }, .give)
  | .give =>
    match condGive state with
    | some state => (state.return (.signal .ok), .running)
    | none => (state, .restore)
  | .restore =>
    let state := { state with count := state.count + 1, signals := state.signals - 1 }
    (state.return (.signal .einval), .running)
  | pc => (state, pc)

def CondState.issued (state : CondState) (broadcast : CondBroadcast) : Int :=
  state.signals - broadcast.before

def pthreadCondBroadcast (state : CondState) (ok : Bool) : CondPc → CondState × CondPc
  | .broadcast =>
    match condInit state ok with
    | none => (state.return (.broadcast .enomem 0 0), .running)
    | some state => (state, .loop ⟨state.count, state.signals, 0⟩)
  | .loop broadcast =>
    if state.count = 0 then
      let issued := state.issued broadcast
      (state.return (.broadcast .ok broadcast.current issued), .running)
    else
      ({ state with count := state.count - 1, signals := state.signals + 1 },
        .giveAll { broadcast with steps := broadcast.steps + 1 })
  | .giveAll broadcast =>
    match condGive state with
    | some state => (state, .loop { broadcast with steps := broadcast.steps + 1 })
    | none => (state, .restoreAll broadcast)
  | .restoreAll broadcast =>
    let state := { state with count := state.count + 1, signals := state.signals - 1 }
    let issued := state.issued broadcast
    (state.return (.broadcast .einval broadcast.current issued), .running)
  | pc => (state, pc)

def condThread (state : CondState) (thread : Nat) (ok elapsed : Bool) (pc : CondPc) :
    CondState × CondPc :=
  match pc with
  | .running => (state, .running)
  | .wait _ | .unlock _ | .take _ | .uncount _ | .lock =>
    pthreadCondWait state thread ok elapsed pc
  | .signal | .give | .restore => pthreadCondSignal state ok pc
  | .broadcast | .loop _ | .giveAll _ | .restoreAll _ =>
    pthreadCondBroadcast state ok pc

/-- The calls of the threads, and the steps of the calls.  A thread calls a wait only
while it holds the mutex. -/
inductive CondEvent
  | lock (thread : Nat)
  | unlock (thread : Nat)
  | wait (thread : Nat) (timed : Bool)
  | signal (thread : Nat)
  | broadcast (thread : Nat)
  | step (thread : Nat) (ok elapsed : Bool)
  deriving DecidableEq

def CondState.call (state : CondState) (thread : Nat) (pc : CondPc) : CondState :=
  match state.threads[thread]? with
  | some .running => { state with threads := state.threads.set thread pc }
  | _ => state

def condStep (state : CondState) : CondEvent → CondState
  | .lock thread =>
    if state.threads[thread]? = some .running ∧ state.mutex = none then
      { state with mutex := some thread }
    else state
  | .unlock thread =>
    if state.threads[thread]? = some .running ∧ state.mutex = some thread then
      { state with mutex := none }
    else state
  | .wait thread timed =>
    if state.mutex = some thread then state.call thread (.wait timed) else state
  | .signal thread => state.call thread .signal
  | .broadcast thread => state.call thread .broadcast
  | .step thread ok elapsed =>
    match state.threads[thread]? with
    | some pc =>
      { (condThread state thread ok elapsed pc).1 with
        threads := state.threads.set thread (condThread state thread ok elapsed pc).2 }
    | none => state

end

/-!
# Runs of the condition variables

The count is the number of waiters less the signals on their way to them as long as
no `pthread_cond_timedwait` times out, the semaphore has room for every token, and
nobody begins to wait during a broadcast.
-/

section

open Lib

namespace CondPc

def waits : CondPc → Bool
  | .unlock _ | .take _ | .uncount _ => true
  | _ => false

/-- The thread has counted a waiter as signalled and has not given the token yet, or
has not been able to. -/
def gives : CondPc → Bool
  | .give | .restore | .giveAll _ | .restoreAll _ => true
  | _ => false

def broadcasting : CondPc → Option CondBroadcast
  | .loop progress | .giveAll progress | .restoreAll progress => some progress
  | _ => none

end CondPc

/-- A wait leaves the mutex with its caller, a signal does not fail, and a broadcast
signals as many waiters as there were when it began. -/
def CondReturn.Good : CondReturn → Prop
  | .wait _ held => held = true
  | .signal result => result ≠ .einval
  | .broadcast result current issued =>
    result ≠ .einval ∧ (result = .ok → issued = current)

namespace CondState

def waiting (state : CondState) : Nat := state.threads.countP CondPc.waits

def giving (state : CondState) : Nat := state.threads.countP CondPc.gives

/-- The count is the number of the waiters that were not signalled; each signal has
woken a waiter or has one that it will wake; and the loop of a broadcast ends. -/
structure Safe (state : CondState) : Prop where
  signalled : state.tokens + state.giving ≤ state.waiting
  count : state.count = state.waiting - (state.tokens + state.giving : Nat)
  woken : state.taken + state.tokens + state.giving = state.signals
  returns : ∀ returned ∈ state.returns, returned.Good
  broadcasts :
    ∀ pc ∈ state.threads, ∀ broadcast ∈ pc.broadcasting,
      (broadcast.steps : Int) ≤ 2 * broadcast.current

def StepAllowed (state : CondState) (elapsed : Bool) : CondPc → Prop
  | .wait _ => ∀ pc ∈ state.threads, pc.broadcasting = none
  | .take timed => timed = true → elapsed = true → 0 < state.tokens
  | .give | .giveAll _ => state.tokens < condTokensMax
  | _ => True

/-- No thread begins to wait while another broadcasts, no wait times out, and the
semaphore has room. -/
def Allowed (state : CondState) : CondEvent → Prop
  | .step thread _ elapsed =>
    ∀ pc ∈ state.threads[thread]?, state.StepAllowed elapsed pc
  | _ => True

instance StepAllowed.decidable (state : CondState) (elapsed : Bool) :
    ∀ pc, Decidable (state.StepAllowed elapsed pc)
  | .wait _ =>
    inferInstanceAs (Decidable (∀ pc ∈ state.threads, pc.broadcasting = none))
  | .take timed =>
    inferInstanceAs (Decidable (timed = true → elapsed = true → 0 < state.tokens))
  | .give | .giveAll _ => inferInstanceAs (Decidable (state.tokens < condTokensMax))
  | .running | .unlock _ | .uncount _ | .lock | .signal | .restore | .broadcast
  | .loop _ | .restoreAll _ => inferInstanceAs (Decidable True)

instance Allowed.decidable (state : CondState) : ∀ event, Decidable (state.Allowed event)
  | .step thread _ elapsed =>
    inferInstanceAs (Decidable (∀ pc ∈ state.threads[thread]?, state.StepAllowed elapsed pc))
  | .lock _ | .unlock _ | .wait _ _ | .signal _ | .broadcast _ =>
    inferInstanceAs (Decidable True)

/-! ## The invariant -/

/-- Since the broadcast began waiters have been signalled, and none has come. -/
def Began (state : CondState) (broadcast : CondBroadcast) : Prop :=
  broadcast.before ≤ state.signals ∧ state.count + state.issued broadcast = broadcast.current

def Placed (state : CondState) (thread : Nat) : CondPc → Prop
  | .wait _ | .unlock _ => state.mutex = some thread
  | .uncount _ | .restore | .restoreAll _ => False
  | .loop broadcast =>
    state.Began broadcast ∧ (broadcast.steps : Int) ≤ 2 * state.issued broadcast
  | .giveAll broadcast =>
    state.Began broadcast ∧ (broadcast.steps : Int) + 1 ≤ 2 * state.issued broadcast
  | _ => True

structure Balanced (count : Int) (tokens taken signals waiting giving : Nat) :
    Prop where
  signalled : tokens + giving ≤ waiting
  count : count = waiting - (tokens + giving : Nat)
  woken : taken + tokens + giving = signals

structure Inv (state : CondState) : Prop where
  balanced : Balanced state.count state.tokens state.taken state.signals state.waiting state.giving
  returns : ∀ returned ∈ state.returns, returned.Good
  fresh : state.created = false → state.count = 0 ∧ state.signals = 0
  threads : ∀ thread pc, state.threads[thread]? = some pc → state.Placed thread pc

variable {state after : CondState} {thread : Nat} {pc : CondPc}

theorem Began.carry {broadcast : CondBroadcast} (began : state.Began broadcast)
    (sum : after.count + after.signals = state.count + state.signals)
    (grows : state.signals ≤ after.signals) :
    after.Began broadcast ∧ state.issued broadcast ≤ after.issued broadcast := by
  obtain ⟨before, current⟩ := began
  simp only [Began, issued] at current ⊢
  omega

/-- What the others rely on stays when nobody takes the mutex from them, and waiters
are only signalled while there is a broadcast. -/
theorem Placed.carry (placed : state.Placed thread pc)
    (mutex : state.mutex = some thread → after.mutex = some thread)
    (sum : pc.broadcasting ≠ none → after.count + after.signals = state.count + state.signals)
    (grows : state.signals ≤ after.signals) :
    after.Placed thread pc := by
  cases pc with
  | wait timed | unlock timed => exact mutex placed
  | uncount timed | restore | restoreAll broadcast => exact placed
  | loop broadcast | giveAll broadcast =>
    obtain ⟨began, more⟩ := placed.1.carry (sum (by simp [CondPc.broadcasting])) grows
    exact ⟨began, Int.le_trans placed.2 (by omega)⟩
  | _ => trivial

theorem mem_returns_append {returns : List CondReturn} {last : CondReturn}
    (good : ∀ returned ∈ returns, returned.Good) (lastGood : last.Good) :
    ∀ returned ∈ returns ++ [last], returned.Good := by
  intro returned member
  rcases List.mem_append.mp member with old | new
  · exact good returned old
  · rw [List.mem_singleton.mp new]
    exact lastGood

theorem counts_set (here : state.threads[thread]? = some pc) (next : CondPc) :
    (state.threads.set thread next).countP CondPc.waits + (if pc.waits then 1 else 0) =
        state.waiting + (if next.waits then 1 else 0) ∧
      (state.threads.set thread next).countP CondPc.gives + (if pc.gives then 1 else 0) =
        state.giving + (if next.gives then 1 else 0) :=
  ⟨countP_set_add next here, countP_set_add next here⟩

namespace Balanced

variable {count : Int} {tokens taken signals waiting giving : Nat}

theorem wait (balanced : Balanced count tokens taken signals waiting giving) :
    Balanced (count + 1) tokens taken signals (waiting + 1) giving := by
  obtain ⟨signalled, counted, woken⟩ := balanced
  exact ⟨by omega, by omega, woken⟩

theorem take {before : Nat} (waits : before + 1 = waiting) (token : 0 < tokens)
    (balanced : Balanced count tokens taken signals waiting giving) :
    Balanced count (tokens - 1) (taken + 1) signals before giving := by
  obtain ⟨signalled, counted, woken⟩ := balanced
  exact ⟨by omega, by omega, by omega⟩

theorem signal (some_ : count ≠ 0) (balanced : Balanced count tokens taken signals waiting giving) :
    Balanced (count - 1) tokens taken (signals + 1) waiting (giving + 1) := by
  obtain ⟨signalled, counted, woken⟩ := balanced
  exact ⟨by omega, by omega, by omega⟩

theorem give {before : Nat} (gives : before + 1 = giving)
    (balanced : Balanced count tokens taken signals waiting giving) :
    Balanced count (tokens + 1) taken signals waiting before := by
  obtain ⟨signalled, counted, woken⟩ := balanced
  exact ⟨by omega, by omega, by omega⟩

end Balanced

/-! ## Steps -/

variable {returns : List CondReturn} {elapsed : Bool}

section

variable (inv : state.Inv)

include inv

theorem Inv.move (thread : Nat) (next : CondPc) {count : Int} {tokens : Nat} {mutex : Option Nat}
    {signals : Nat} {taken : Nat}
    (balanced :
      Balanced count tokens taken signals ((state.threads.set thread next).countP CondPc.waits)
        ((state.threads.set thread next).countP CondPc.gives))
    (good : ∀ returned ∈ returns, returned.Good)
    (fresh : state.created = false → count = 0 ∧ signals = 0)
    (mutexKept : ∀ other, other ≠ thread → state.mutex = some other → mutex = some other)
    (sum :
      count + signals = state.count + state.signals ∨
        ∀ pc ∈ state.threads, pc.broadcasting = none) (grows : state.signals ≤ signals)
    (own :
      Placed
        { state with
          count := count
          tokens := tokens
          mutex := mutex
          signals := signals
          taken := taken
          returns := returns }
        thread next) :
    Inv
      { state with
        count := count
        tokens := tokens
        mutex := mutex
        signals := signals
        taken := taken
        returns := returns
        threads := state.threads.set thread next } := by
  exact
    { balanced := balanced
      returns := good
      fresh := fresh
      threads := by
        refine forall_set ?_ fun other place differ found => ?_
        · exact own.carry id (fun _ => rfl) (Nat.le_refl _)
        · refine (inv.threads other place found).carry (mutexKept other differ) ?_ grows
          intro broadcasting
          rcases sum with same | never
          · exact same
          · exact absurd (never place (List.mem_of_getElem? found)) broadcasting }

theorem Inv.condInit {ok : Bool} {made : CondState} (initialised : condInit state ok = some made) :
    made = { state with created := true } := by
  simp only [ItpPosix.condInit] at initialised
  split at initialised
  · next created =>
    rw [← Option.some.inj initialised, ← created]
  · next fresh =>
    obtain ⟨count, signals⟩ := inv.fresh (by simpa using fresh)
    have woken := inv.balanced.woken
    have tokens : state.tokens = 0 := by omega
    split at initialised
    · rw [← Option.some.inj initialised, ← count, ← tokens]
    · cases initialised

theorem Inv.created : Inv { state with created := true } :=
  { inv with
    fresh := fun wrong => by cases wrong
    threads := fun thread pc found =>
      (inv.threads thread pc found).carry id (fun _ => rfl) (Nat.le_refl _) }

section

variable (here : state.threads[thread]? = some pc)

include here

theorem Inv.moveOn (next : CondPc) (waits : next.waits = pc.waits) (gives : next.gives = pc.gives)
    {mutex : Option Nat} (good : ∀ returned ∈ returns, returned.Good)
    (mutexKept : ∀ other, other ≠ thread → state.mutex = some other → mutex = some other)
    (own : Placed { state with mutex := mutex, returns := returns } thread next) :
    Inv
      { state with
        mutex := mutex
        returns := returns
        threads := state.threads.set thread next } := by
  refine inv.move thread next ?_ good inv.fresh mutexKept (.inl rfl) (Nat.le_refl _) own
  obtain ⟨sameWaiting, sameGiving⟩ := counts_set here next
  rw [waits] at sameWaiting
  rw [gives] at sameGiving
  rw [Nat.add_right_cancel sameWaiting, Nat.add_right_cancel sameGiving]
  exact inv.balanced

theorem Inv.moveReturn (waits : pc.waits = false) (gives : pc.gives = false)
    {returned : CondReturn} (good : returned.Good) :
    Inv { state.return returned with threads := state.threads.set thread .running } :=
  inv.moveOn here .running waits.symm gives.symm
    (mem_returns_append inv.returns good) (fun _ _ held => held) trivial

theorem Inv.pthreadCondWait (ok : Bool) (allowed : state.StepAllowed elapsed pc) :
    Inv
      { (pthreadCondWait state thread ok elapsed pc).1 with
        threads := state.threads.set thread (pthreadCondWait state thread ok elapsed pc).2 } := by
  have placed := inv.threads thread pc here
  cases pc with
  | wait timed =>
    simp only [ItpPosix.pthreadCondWait]
    cases initialised : ItpPosix.condInit state ok with
    | none => exact inv.moveReturn here rfl rfl (decide_eq_true placed)
    | some made =>
      obtain rfl := inv.condInit initialised
      have waits :
          (state.threads.set thread (.unlock timed)).countP CondPc.waits = state.waiting + 1 :=
        (counts_set here (.unlock timed)).1
      have gives :
          (state.threads.set thread (.unlock timed)).countP CondPc.gives = state.giving :=
        (counts_set here (.unlock timed)).2
      have balanced := inv.balanced.wait
      rw [← waits, ← gives] at balanced
      refine inv.created.move thread (.unlock timed) balanced inv.returns ?_
        (fun _ _ held => held) (.inr allowed) (Nat.le_refl _) placed
      intro wrong
      cases wrong
  | unlock timed =>
    refine inv.moveOn here (.take timed) rfl rfl inv.returns ?_ trivial
    intro other differ held
    exact absurd (Option.some.inj (held.symm.trans placed)) differ
  | take timed =>
    simp only [ItpPosix.pthreadCondWait]
    by_cases token : 0 < state.tokens
    · have gives :
          (state.threads.set thread .lock).countP CondPc.gives = state.giving :=
        (counts_set here .lock).2
      have balanced := inv.balanced.take (counts_set here .lock).1 token
      rw [← gives] at balanced
      rw [if_pos token]
      exact inv.move thread .lock balanced inv.returns inv.fresh
        (fun _ _ held => held) (.inl rfl) (Nat.le_refl _) trivial
    · have stays : (timed && elapsed) = false := by
        by_contra gaveUp
        have both : timed = true ∧ elapsed = true := by simpa using gaveUp
        exact token (allowed both.1 both.2)
      rw [if_neg token, stays]
      exact inv.moveOn here (.take timed) rfl rfl inv.returns (fun _ _ held => held) trivial
  | uncount timed => exact placed.elim
  | lock =>
    cases mutex : state.mutex with
    | none =>
      have locked :
          ItpPosix.pthreadCondWait state thread ok elapsed .lock =
            ({ state with mutex := some thread }.return (.wait .ok true), .running) := by
        simp only [ItpPosix.pthreadCondWait, mutex]
      rw [locked]
      refine inv.moveOn here .running rfl rfl (mem_returns_append inv.returns rfl) ?_ trivial
      intro other _ held
      rw [mutex] at held
      cases held
    | some holder =>
      have blocked :
          ItpPosix.pthreadCondWait state thread ok elapsed .lock = (state, .lock) := by
        simp only [ItpPosix.pthreadCondWait, mutex]
      rw [blocked]
      exact inv.moveOn here .lock rfl rfl inv.returns (fun _ _ held => held) trivial
  | _ => exact inv.moveOn here _ rfl rfl inv.returns (fun _ _ held => held) placed

theorem Inv.moveSignal (some_ : state.count ≠ 0) (next : CondPc) (waits : next.waits = pc.waits)
    (rests : pc.gives = false) (gives : next.gives = true)
    (own :
      Placed { state with count := state.count - 1, signals := state.signals + 1 } thread next) :
    Inv
      { state with
        count := state.count - 1
        signals := state.signals + 1
        threads := state.threads.set thread next } := by
  obtain ⟨sameWaiting, moreGiving⟩ := counts_set here next
  rw [waits] at sameWaiting
  rw [rests, gives] at moreGiving
  have balanced := inv.balanced.signal some_
  rw [← Nat.add_right_cancel sameWaiting,
    show state.giving + 1 = _ from moreGiving.symm] at balanced
  refine inv.move thread next balanced inv.returns ?_ (fun _ _ held => held) ?_ (Nat.le_succ _) own
  · intro fresh
    exact absurd (inv.fresh fresh).1 some_
  · exact .inl (by push_cast; omega)

theorem Inv.moveGive (next : CondPc) (waits : next.waits = pc.waits) (gives : pc.gives = true)
    (rests : next.gives = false) (good : ∀ returned ∈ returns, returned.Good)
    (own : state.Placed thread next) :
    Inv
      { state with
        tokens := state.tokens + 1
        returns := returns
        threads := state.threads.set thread next } := by
  obtain ⟨sameWaiting, lessGiving⟩ := counts_set here next
  rw [waits] at sameWaiting
  rw [rests, gives] at lessGiving
  have balanced := inv.balanced.give lessGiving
  rw [← Nat.add_right_cancel sameWaiting] at balanced
  exact inv.move thread next balanced good inv.fresh (fun _ _ held => held) (.inl rfl)
    (Nat.le_refl _) (own.carry id (fun _ => rfl) (Nat.le_refl _))

theorem Inv.pthreadCondSignal (ok : Bool) (allowed : state.StepAllowed elapsed pc) :
    Inv
      { (pthreadCondSignal state ok pc).1 with
        threads := state.threads.set thread (pthreadCondSignal state ok pc).2 } := by
  have placed := inv.threads thread pc here
  cases pc with
  | signal =>
    simp only [ItpPosix.pthreadCondSignal]
    cases initialised : ItpPosix.condInit state ok with
    | none => exact inv.moveReturn here rfl rfl (by simp [CondReturn.Good])
    | some made =>
      obtain rfl := inv.condInit initialised
      by_cases none_ : state.count = 0
      · simp only [if_pos none_]
        exact inv.created.moveReturn here rfl rfl (by simp [CondReturn.Good])
      · simp only [if_neg none_]
        exact inv.created.moveSignal here none_ .give rfl rfl rfl trivial
  | give =>
    have room : state.tokens < condTokensMax := allowed
    simp only [ItpPosix.pthreadCondSignal, condGive, if_pos room]
    exact inv.moveGive here .running rfl rfl rfl
      (mem_returns_append inv.returns (by simp [CondReturn.Good])) trivial
  | restore => exact placed.elim
  | _ => exact inv.moveOn here _ rfl rfl inv.returns (fun _ _ held => held) placed

theorem Inv.pthreadCondBroadcast (ok : Bool) (allowed : state.StepAllowed elapsed pc) :
    Inv
      { (pthreadCondBroadcast state ok pc).1 with
        threads := state.threads.set thread (pthreadCondBroadcast state ok pc).2 } := by
  have placed := inv.threads thread pc here
  cases pc with
  | broadcast =>
    simp only [ItpPosix.pthreadCondBroadcast]
    cases initialised : ItpPosix.condInit state ok with
    | none => exact inv.moveReturn here rfl rfl (by simp [CondReturn.Good])
    | some made =>
      obtain rfl := inv.condInit initialised
      have own :
          state.Placed thread (.loop ⟨state.count, state.signals, 0⟩) := by
        simp [Placed, Began, issued]
      exact inv.created.moveOn here (.loop ⟨state.count, state.signals, 0⟩) rfl rfl
        inv.returns (fun _ _ held => held) own
  | loop progress =>
    obtain ⟨⟨before, current⟩, steps⟩ := placed
    simp only [ItpPosix.pthreadCondBroadcast]
    by_cases none_ : state.count = 0
    · simp only [if_pos none_]
      refine inv.moveReturn here rfl rfl ⟨by simp, fun _ => ?_⟩
      rw [none_, Int.zero_add] at current
      exact current
    · simp only [if_neg none_]
      refine
        inv.moveSignal here none_
          (.giveAll { progress with steps := progress.steps + 1 }) rfl rfl rfl ⟨⟨?_, ?_⟩, ?_⟩
      · exact Nat.le_succ_of_le before
      · simp only [issued] at current ⊢
        push_cast
        omega
      · simp only [issued] at steps ⊢
        push_cast
        omega
  | giveAll progress =>
    have room : state.tokens < condTokensMax := allowed
    simp only [ItpPosix.pthreadCondBroadcast, condGive, if_pos room]
    refine inv.moveGive here (.loop { progress with steps := progress.steps + 1 }) rfl
      rfl rfl inv.returns ⟨placed.1, ?_⟩
    have steps := placed.2
    simp only [issued] at steps ⊢
    push_cast
    omega
  | restoreAll progress => exact placed.elim
  | _ => exact inv.moveOn here _ rfl rfl inv.returns (fun _ _ held => held) placed

end

/-! ## Runs -/

theorem Inv.call {next : CondPc} (waits : next.waits = false) (gives : next.gives = false)
    (own : state.Placed thread next) :
    (state.call thread next).Inv := by
  simp only [CondState.call]
  split
  · next here =>
    exact inv.moveOn here next waits gives inv.returns (fun _ _ held => held) own
  · exact inv

theorem Inv.step {event : CondEvent} (allowed : state.Allowed event) :
    (condStep state event).Inv := by
  cases event with
  | lock thread =>
    simp only [condStep]
    split
    · next both =>
      refine { inv with threads := fun other pc found => ?_ }
      refine (inv.threads other pc found).carry ?_ (fun _ => rfl) (Nat.le_refl _)
      intro held
      rw [both.2] at held
      cases held
    · exact inv
  | unlock thread =>
    simp only [condStep]
    split
    · next both =>
      refine { inv with threads := fun other pc found => ?_ }
      have placed := inv.threads other pc found
      by_cases same : other = thread
      · subst same
        rw [both.1] at found
        rw [← Option.some.inj found]
        trivial
      · refine placed.carry ?_ (fun _ => rfl) (Nat.le_refl _)
        intro held
        exact absurd (Option.some.inj (held.symm.trans both.2)) same
    · exact inv
  | wait thread timed =>
    simp only [condStep]
    split
    · next held => exact inv.call rfl rfl held
    · exact inv
  | signal thread | broadcast thread => exact inv.call rfl rfl trivial
  | step thread ok elapsed =>
    simp only [condStep]
    cases here : state.threads[thread]? with
    | none => exact inv
    | some pc =>
      have stepAllowed : state.StepAllowed elapsed pc := allowed pc here
      cases pc with
      | running =>
        exact inv.moveOn here .running rfl rfl inv.returns (fun _ _ held => held) trivial
      | wait timed | unlock timed | take timed | uncount timed | lock =>
        exact inv.pthreadCondWait here ok stepAllowed
      | signal | give | restore => exact inv.pthreadCondSignal here ok stepAllowed
      | broadcast | loop progress | giveAll progress | restoreAll progress =>
        exact inv.pthreadCondBroadcast here ok stepAllowed

theorem Inv.safe : state.Safe where
  signalled := inv.balanced.signalled
  count := inv.balanced.count
  woken := inv.balanced.woken
  returns := inv.returns
  broadcasts := by
    intro pc member progress here
    obtain ⟨thread, found⟩ := List.getElem?_of_mem member
    have placed := inv.threads thread pc found
    have counted := inv.balanced.count
    have signalled := inv.balanced.signalled
    cases pc with
    | loop other | giveAll other =>
      obtain rfl := Option.some.inj here
      obtain ⟨⟨before, current⟩, steps⟩ := placed
      omega
    | restoreAll other => exact placed.elim
    | _ => cases here

end

theorem Inv.init (threads : Nat) : Inv (.init threads) where
  balanced := by
    have none_ (at_ : CondPc → Bool) (rests : at_ .running = false) :
        (List.replicate threads CondPc.running).countP at_ = 0 := by
      simp [List.countP_eq_zero, rests]
    simp only [waiting, giving, CondState.init, none_ CondPc.waits rfl, none_ CondPc.gives rfl]
    exact ⟨Nat.le_refl _, rfl, rfl⟩
  returns := fun _ wrong => absurd wrong List.not_mem_nil
  fresh := fun _ => ⟨rfl, rfl⟩
  threads := fun thread pc found => by
    rw [List.eq_of_mem_replicate (List.mem_of_getElem? found)]
    trivial

end CondState

/-- In every run of any number of threads whose steps meet the condition, the count is
the number of waiters that were not signalled, every signal that finds one wakes one, no
token is left over, broadcasts end having signalled the waiters that there were, and
every wait returns with the mutex. -/
theorem cond_safe (threads : Nat) (events : List CondEvent)
    (allowed : AllowedAlong CondState.Allowed condStep (.init threads) events) :
    (events.foldl condStep (.init threads)).Safe := by
  refine (Run.invariant (CondState.Inv.init threads) ?_ (Run.guarded_foldl allowed)).safe
  intro before event after inv step
  rw [step.2]
  exact inv.step step.1

def waitEvents (thread : Nat) (timed : Bool) : List CondEvent :=
  .lock thread :: .wait thread timed :: List.replicate 2 (.step thread true false)

def wakeEvents (thread : Nat) : List CondEvent := List.replicate 2 (.step thread true false)

def signalEvents (thread : Nat) : List CondEvent :=
  .signal thread :: List.replicate 2 (.step thread true false)

theorem cond_safe_once :
    ((waitEvents 0 true ++ signalEvents 1 ++ wakeEvents 0).foldl condStep (.init 2)).Safe :=
  cond_safe 2 (waitEvents 0 true ++ signalEvents 1 ++ wakeEvents 0) (by decide)

def timedOutEvents : List CondEvent := waitEvents 0 true ++ List.replicate 2 (.step 0 true true)

/-- A wait times out when it has been counted as signalled, and its token is given
after that. -/
def crossedEvents : List CondEvent :=
  waitEvents 0 true ++ [.signal 1, .step 1 true false] ++ List.replicate 2 (.step 0 true true)

def joinedEvents : List CondEvent :=
  [.broadcast 1, .step 1 true false] ++ waitEvents 0 false ++ List.replicate 3 (.step 1 true false)

/-- The semaphore is full when the last of many waiters is signalled. -/
def fullEvents : List CondEvent :=
  (List.range 33).flatMap (fun thread => waitEvents thread false) ++
    (List.range 32).flatMap (fun _ => signalEvents 33) ++
    [.signal 33] ++ List.replicate 3 (.step 33 true false)

theorem cond_unsafe :
    ¬ (timedOutEvents.foldl condStep (.init 1)).Safe ∧
      (crossedEvents.foldl condStep (.init 2)).count = -1 ∧
      ¬ (crossedEvents.foldl condStep (.init 2)).Safe ∧
      ¬ (joinedEvents.foldl condStep (.init 2)).Safe ∧
      ¬ (fullEvents.foldl condStep (.init 34)).Safe := by
  refine ⟨?_, by decide +kernel, ?_, ?_, ?_⟩
  · intro safe
    have held := safe.returns (.wait .etimedout false) (by decide +kernel)
    cases held
  · intro safe
    have signalled := safe.signalled
    revert signalled
    decide +kernel
  · intro safe
    have ended := safe.returns (.broadcast .ok 0 1) (by decide +kernel)
    exact absurd (ended.2 rfl) (by decide)
  · intro safe
    have failed := safe.returns (.signal .einval) (by decide +kernel)
    exact failed rfl

end

end IteSdk.ItpPosix
