import IteSdk.Lib.Checked
import Mathlib.Logic.Function.Basic

/-!
# The action queues of a scene

`itu_action.c` and the end of `ituSceneUpdate`.  Widgets, functions and arrays of
actions are addresses.  What widgets and action functions do is up to an
environment: each of their runs is a list of calls that they make, with changes
of the memory in between.
-/

namespace IteSdk.Itu

open Lib

def ituActionsSize : Nat := 15

def ituActionQueueSize : Nat := 64

/-- `ITU_EVENT_DELAY0` to `ITU_EVENT_DELAY7` have a number, and so have the events
from `ITU_EVENT_CUSTOM` on. -/
inductive ITUEvent
  | timer
  | press
  | layout
  | language
  | keydown
  | keyup
  | mousedown
  | mouseup
  | mousedoubleclick
  | mousemove
  | touchslideleft
  | touchslideup
  | touchslideright
  | touchslidedown
  | load
  | release
  | enter
  | leave
  | select
  | delay
  | changed
  | mouselongpress
  | sync
  | mousedownOutside
  | mouseupOutside
  | delayed (number : Fin 8)
  | stopped
  | touchpinch
  | loadExternal
  | loadImage
  | dragging
  | custom (number : Nat)
  deriving DecidableEq

def ITUEvent.isCustom : ITUEvent → Bool
  | .custom _ => true
  | _ => false

inductive ITUActionType
  | none
  | show
  | hide
  | focus
  | prev
  | next
  | back
  | play
  | stop
  | goto
  | language
  | input
  | bind
  | clear
  | enable
  | disable
  | check
  | uncheck
  | function
  | reload
  | dodelay (number : Fin 8)
  | set (number : Fin 8)
  | loadExternal
  | releaseExternal
  | loadFont
  deriving DecidableEq

inductive ITUWidgetType
  | colorpicker
  | scrolllistbox
  | scrolliconlistbox
  | other
  deriving DecidableEq

abbrev CString := List UInt8

structure ITUAction (α : Type) where
  action : ITUActionType
  ev : ITUEvent
  target : CString
  param : CString
  cachedTarget : Option α

/-- `&actions[i]`. -/
abbrev ActionRef (α : Type) := α × Nat

structure ITUVariable (α : Type) where
  target : CString
  param : CString
  cachedTarget : Option α
  deriving DecidableEq

structure ITUActionExecution (α : Type) where
  widget : α
  action : ActionRef α
  delay : Int
  deriving DecidableEq

/-- What the queues read and write besides themselves: `visible` is
`ituWidgetIsVisible`, `string` the text at an argument that is an address. -/
structure ITUMemory (α : Type) where
  action : ActionRef α → ITUAction α
  type : α → ITUWidgetType
  dirty : α → Bool
  visible : α → Bool
  string : Int → CString
  findFunction : CString → Option α
  findWidget : CString → Option α
  /-- `variables`. -/
  variableArray : Int → ITUVariable α
  dragged : Option α

abbrev DelayQueue (α : Type) := Nat → ITUActionExecution α

/-- What happens to the delay queue: a request, the begin of a tick, and its coming
to a slot, with what is due then and whether the widget is visible. -/
inductive DelayEvent (α : Type)
  | request (widget : α) (action : ActionRef α) (delay : Int)
  | tick
  | visit (slot : Nat) (due : Option (α × ActionRef α × Bool))

/-- The scene.  The last five fields are not in the source: the events of the delay
queue, the numbers of the actions that are in the queue, how many have been
accepted, which of them were executed, and how often the queues were worked on. -/
structure ITUScene (α : Type) where
  memory : ITUMemory α
  actionQueueLen : Nat
  actionQueue : Nat → ITUActionExecution α
  delayQueue : DelayQueue α
  delayLog : List (DelayEvent α)
  serials : Nat → Nat
  accepted : Nat
  executed : List Nat
  updates : Nat

inductive ItuStop
  | delayOverrun
  | actionOverrun
  | fuel
  deriving DecidableEq

abbrev ItuProgram (α : Type) : Type → Type := Checked (ITUScene α) ItuStop

inductive ItuTask (α : Type)
  | update (ev : ITUEvent) (arg : Int)
  | commands
  | function (func widget : α) (param : CString)
  | setDirty (widget : α)
  | layout (widget : α)
  | onAction (target : α) (action : ITUActionType) (param : CString)

/-- What code outside may do.  A call of `ituSceneUpdate` is `sceneQueues` behind what
the widgets do before. -/
inductive ItuCall (α : Type)
  | memory (change : ITUMemory α → ITUMemory α)
  | execActions (widget actions : α) (ev : ITUEvent) (arg : Int)
  | sceneQueues (ev : ITUEvent)

abbrev ItuEnv (α : Type) := ITUScene α → ItuTask α → List (ItuCall α) × Bool

section

variable {α : Type}

def getScene {β : Type} (function : ITUScene α → β) : ItuProgram α β :=
  Checked.call fun scene => (function scene, scene)

def modifyScene (change : ITUScene α → ITUScene α) : ItuProgram α Unit :=
  Checked.call fun scene => ((), change scene)

def modifyMemory (change : ITUMemory α → ITUMemory α) : ItuProgram α Unit :=
  modifyScene fun scene => { scene with memory := change scene.memory }

def isDigit (char : UInt8) : Bool := 48 ≤ char && char ≤ 57

def atoiDigits : CString → Nat → Nat
  | [], value => value
  | char :: rest, value =>
    if isDigit char then
      atoiDigits rest (10 * value + (char.toNat - 48))
    else
      value

def atoi (text : CString) : Int :=
  match text.dropWhile fun char => char = 32 || 9 ≤ char && char ≤ 13 with
  | 45 :: digits => -(atoiDigits digits 0)
  | 43 :: digits => atoiDigits digits 0
  | digits => atoiDigits digits 0

/-- `sprintf` with `"%d"`. -/
def decimal (value : Int) : CString := (toString value).toList.map fun char => char.toNat.toUInt8

/-- `text[0] == '$'`. -/
def isVariable (text : CString) : Bool := text.head? = some 36

/-- `isdigit(text[1])`. -/
def isNumbered (text : CString) : Bool := text.tail.head?.any isDigit

end

section

variable {α : Type} [DecidableEq α]

def ITUMemory.setAction (memory : ITUMemory α) (ref : ActionRef α)
    (action : ITUAction α) : ITUMemory α :=
  { memory with action := Function.update memory.action ref action }

/-- The slot at which the loop that looks for one leaves it: the first that is free or
has the same action of the same widget.  Its condition is on `i`, not on `j`, and
always true; where there is no such slot it runs out of the queue. -/
def DelayQueue.slot (queue : DelayQueue α) (widget : α) (action : ActionRef α) : Option Nat :=
  (List.range ituActionQueueSize).find? fun j =>
    (queue j).delay = 0 || (queue j).widget = widget && (queue j).action = action

def DelayQueue.request (queue : DelayQueue α) (widget : α)
    (action : ActionRef α) (delay : Int) : Option (DelayQueue α) :=
  match queue.slot widget action with
  | none => none
  | some j =>
    if 0 < (queue j).delay then
      some queue
    else
      some (Function.update queue j ⟨widget, action, delay⟩)

def DelayQueue.visit (queue : DelayQueue α) (slot : Nat) : DelayQueue α :=
  if (queue slot).delay ≤ 0 then
    queue
  else
    Function.update queue slot { queue slot with delay := (queue slot).delay - 1 }

def DelayQueue.due (queue : DelayQueue α) (slot : Nat) : Option (α × ActionRef α) :=
  if (queue slot).delay = 1 then
    some ((queue slot).widget, (queue slot).action)
  else
    none

def delayRequest (widget : α) (action : ActionRef α) (delay : Int) : ItuProgram α Unit := do
  modifyScene fun scene =>
    { scene with
      delayLog := scene.delayLog ++ [.request widget action delay] }
  let found ← getScene fun scene => scene.delayQueue.request widget action delay
  match found with
  | none => throw .delayOverrun
  | some queue => modifyScene fun scene => { scene with delayQueue := queue }

def delayVisit (slot : Nat) : ItuProgram α (Option (α × ActionRef α)) := do
  let due ← getScene fun scene =>
    (scene.delayQueue.due slot).map fun entry => (entry.1, entry.2, scene.memory.visible entry.1)
  modifyScene fun scene =>
    { scene with
      delayQueue := scene.delayQueue.visit slot
      delayLog := scene.delayLog ++ [.visit slot due] }
  match due with
  | some (widget, action, true) => pure (some (widget, action))
  | _ => pure none

def ITUAction.isFor (action : ITUAction α) (ev : ITUEvent) : Bool :=
  if action.ev = .press then
    ev = .keydown || ev = .mousedown || ev = .press
  else
    action.ev = ev

/-- What the parameter of an action is set to by the argument of its event. -/
def ITUMemory.newParam (memory : ITUMemory α) (widget : α)
    (action : ITUAction α) (arg : Int) : Option CString :=
  match action.ev with
  | .select =>
    if action.action = .check ∨ memory.type widget = .colorpicker then
      some (decimal arg)
    else
      none
  | .changed => some (decimal arg)
  | .enter | .leave =>
    if arg ≠ 0 ∧ action.action = .function then
      some (memory.string arg)
    else
      none
  | .custom _ => if arg ≠ 0 then some (memory.string arg) else none
  | .load =>
    if action.action = .reload then
      some (if arg ≠ 0 then memory.string arg else [])
    else
      none
  | .sync => if arg ≠ 0 then some (memory.string arg) else none
  | .mouselongpress =>
    if (memory.type widget = .scrolllistbox ∨ memory.type widget = .scrolliconlistbox) ∧
        (action.action = .check ∨ action.action = .function) then
      some (decimal arg)
    else
      none
  | .keydown | .keyup => some (decimal arg)
  | _ => none

def ITUScene.isQueued (scene : ITUScene α) (widget : α) (action : ActionRef α) : Bool :=
  (List.range scene.actionQueueLen).any fun j =>
    (scene.actionQueue j).widget = widget && (scene.actionQueue j).action = action

def ITUScene.append (scene : ITUScene α) (widget : α) (action : ActionRef α) : ITUScene α :=
  { scene with
    actionQueue :=
      Function.update scene.actionQueue scene.actionQueueLen
        { scene.actionQueue scene.actionQueueLen with
          widget := widget, action := action }
    actionQueueLen := scene.actionQueueLen + 1
    serials := Function.update scene.serials scene.actionQueueLen scene.accepted
    accepted := scene.accepted + 1 }

/-- Put an action into the queue; `none` where the loop over the actions ends. -/
def queueAction (widget : α) (action : ActionRef α) (ev : ITUEvent) :
    ItuProgram α (Option Bool) := do
  let len ← getScene fun scene => scene.actionQueueLen
  if len < ituActionQueueSize then do
    let queued ← getScene fun scene => scene.isQueued widget action
    if queued = true then
      pure (some false)
    else do
      modifyScene fun scene => scene.append widget action
      if ev ≠ .timer ∧ ev ≠ .sync then do
        modifyMemory fun memory =>
          { memory with dirty := Function.update memory.dirty widget true }
        pure (some true)
      else
        pure (some false)
  else
    pure none

/-- One turn of the loop of `ituExecActions`. -/
def execAction (widget : α) (action : ActionRef α) (ev : ITUEvent)
    (arg : Int) : ItuProgram α (Option Bool) := do
  let it ← getScene fun scene => scene.memory.action action
  if it.action = .none then
    pure none
  else if it.isFor ev = false then
    pure (some false)
  else
    match it.ev with
    | .delayed _ => do
        delayRequest widget action arg
        pure (some false)
    | .delay => do
        delayRequest widget action (atoi it.param)
        pure (some false)
    | _ => do
        let param ← getScene fun scene => scene.memory.newParam widget it arg
        modifyMemory fun memory => memory.setAction action { it with param := param.getD it.param }
        queueAction widget action ev

def execActionsFrom (widget actions : α) (ev : ITUEvent) (arg : Int) :
    Nat → Nat → Bool → ItuProgram α Bool
  | 0, _, result => pure result
  | count + 1, i, result => do
      let turn ← execAction widget (actions, i) ev arg
      match turn with
      | none => pure result
      | some queued =>
        execActionsFrom widget actions ev arg count (i + 1) (result || queued)

def ituExecActions (widget actions : α) (ev : ITUEvent) (arg : Int) : ItuProgram α Bool :=
  execActionsFrom widget actions ev arg ituActionsSize 0 false

def runCall (queues : ITUEvent → ItuProgram α Bool) : ItuCall α → ItuProgram α Unit
  | .memory change => modifyMemory change
  | .execActions widget actions ev arg => do
      let _ ← ituExecActions widget actions ev arg
      pure ()
  | .sceneQueues ev =>
    Checked.provided (ev.isCustom = false) do
      let _ ← queues ev
      pure ()

def runCalls (queues : ITUEvent → ItuProgram α Bool) : List (ItuCall α) → ItuProgram α Unit
  | [] => pure ()
  | call :: rest => do
      runCall queues call
      runCalls queues rest

def perform (env : ItuEnv α) (queues : ITUEvent → ItuProgram α Bool)
    (task : ItuTask α) : ItuProgram α Bool := do
  let answer ← getScene fun scene => env scene task
  runCalls queues answer.1
  pure answer.2

/-- `ituSceneUpdate`, given what it does to the queues. -/
def sceneUpdate (env : ItuEnv α) (queues : ITUEvent → ItuProgram α Bool)
    (ev : ITUEvent) (arg : Int) : ItuProgram α Bool := do
  let dragged ← getScene fun scene => scene.memory.dragged
  if ev = .mouselongpress ∧ dragged.isSome = true then
    pure false
  else do
    let updated ← perform env queues (.update ev arg)
    let queued ←
      (if ev.isCustom = true then pure false else queues ev : ItuProgram α Bool)
    Checked.provided (ev = .mouseup) do
      modifyMemory fun memory => { memory with dragged := none }
    pure (updated || queued)

def cacheTarget (ref : ActionRef α) (target : α) : ItuProgram α Unit :=
  modifyMemory fun memory =>
    memory.setAction ref { memory.action ref with cachedTarget := some target }

/-- The target that an action has cached, or else the one that is found. -/
def cachedOr (find : ITUMemory α → CString → Option α) (ref : ActionRef α)
    (action : ITUAction α) : ItuProgram α (Option α) :=
  match action.cachedTarget with
  | some target => pure (some target)
  | none => do
      let found ← getScene fun scene => find scene.memory action.target
      match found with
      | none => pure none
      | some target => do
          cacheTarget ref target
          pure (some target)

def variableTarget (index : Int) : ItuProgram α (Option α) := do
  let var ← getScene fun scene => scene.memory.variableArray index
  match var.cachedTarget with
  | some target => pure (some target)
  | none =>
    if var.target = [] then
      pure none
    else do
      let found ← getScene fun scene => scene.memory.findWidget var.target
      match found with
      | none => pure none
      | some target => do
          modifyMemory fun memory =>
            { memory with
              variableArray :=
                Function.update memory.variableArray index
                  { var with cachedTarget := some target } }
          pure (some target)

def actionTarget (ref : ActionRef α) (action : ITUAction α) : ItuProgram α (Option α) :=
  if isVariable action.target then
    variableTarget (atoi action.target.tail)
  else if action.cachedTarget = none ∧ action.target = [] then
    pure none
  else
    cachedOr ITUMemory.findWidget ref action

def actionParam (action : ITUAction α) : ItuProgram α CString :=
  if isVariable action.param && isNumbered action.param then
    getScene fun scene => (scene.memory.variableArray (atoi action.param.tail)).param
  else
    pure action.param

def markExecuted (i : Nat) : ItuProgram α Unit :=
  modifyScene fun scene =>
    { scene with executed := scene.executed ++ [scene.serials i] }

/-- `actionExec->widget`, which is read again after each call. -/
def queuedWidget (i : Nat) : ItuProgram α α := getScene fun scene => (scene.actionQueue i).widget

/-- A call of an action function, and what follows it: the widget that is skipped from
now on, and the result. -/
def flushFunction (env : ItuEnv α) (queues : ITUEvent → ItuProgram α Bool)
    (i : Nat) (ref : ActionRef α) (action : ITUAction α) (func widget : α)
    (skipWidget : Option α) : ItuProgram α (Option α × Bool) := do
  let ret ← perform env queues (.function func widget action.param)
  let again ← queuedWidget i
  let ev ← getScene fun scene => (scene.memory.action ref).ev
  Checked.provided (ret = true) do
    let _ ← perform env queues (.setDirty again)
    pure ()
  let evNow ← getScene fun scene => (scene.memory.action ref).ev
  Checked.provided (evNow = .load) do
    let widgetNow ← queuedWidget i
    let _ ← perform env queues (.layout widgetNow)
    pure ()
  if ret = false ∧ ev ≠ .timer then
    pure (some again, ret)
  else
    pure (skipWidget, ret)

def setVariable (ref : ActionRef α) (number : Fin 8) : ItuProgram α Unit :=
  modifyMemory fun memory =>
    { memory with
      variableArray :=
        Function.update memory.variableArray (number : Int)
          { target := (memory.action ref).target
            param := (memory.action ref).param
            cachedTarget := (memory.action ref).cachedTarget } }

/-- One turn of the loop of `ituFlushActionQueue` for a widget that is not skipped. -/
def flushOne (env : ItuEnv α) (queues : ITUEvent → ItuProgram α Bool) (i : Nat)
    (skipWidget : Option α) : ItuProgram α (Option α × Bool) := do
  let exec ← getScene fun scene => scene.actionQueue i
  let action ← getScene fun scene => scene.memory.action exec.action
  if action.action = .language ∧ action.target = [] then do
    markExecuted i
    let _ ← sceneUpdate env queues .language (atoi action.param)
    pure (skipWidget, false)
  else
    match action.action with
    | .function => do
        let func ← cachedOr ITUMemory.findFunction exec.action action
        match func with
        | none => pure (skipWidget, false)
        | some func => do
            markExecuted i
            flushFunction env queues i exec.action action func exec.widget skipWidget
    | .set number => do
        let target ← cachedOr ITUMemory.findWidget exec.action action
        match target with
        | none => pure (skipWidget, false)
        | some _ => do
            markExecuted i
            setVariable exec.action number
            pure (skipWidget, false)
    | _ => do
        let target ← actionTarget exec.action action
        match target with
        | none => pure (skipWidget, false)
        | some target => do
            let param ← actionParam action
            markExecuted i
            let _ ← perform env queues (.onAction target action.action param)
            pure (skipWidget, false)

def endFlush (result : Bool) : ItuProgram α Bool := do
  modifyScene fun scene => { scene with actionQueueLen := 0 }
  pure result

/-- The loop, with as many turns left as the queue has slots behind the index. -/
def flushFrom (env : ItuEnv α) (queues : ITUEvent → ItuProgram α Bool) :
    Nat → Nat → Option α → Bool → ItuProgram α Bool
  | 0, i, _, result => do
      let len ← getScene fun scene => scene.actionQueueLen
      if i < len then throw .actionOverrun else endFlush result
  | turns + 1, i, skipWidget, result => do
      let len ← getScene fun scene => scene.actionQueueLen
      if i < len then do
        let widget ← queuedWidget i
        if skipWidget = some widget then
          flushFrom env queues turns (i + 1) skipWidget result
        else do
          let turn ← flushOne env queues i skipWidget
          flushFrom env queues turns (i + 1) turn.1 (result || turn.2)
      else
        endFlush result

def ituFlushActionQueue (env : ItuEnv α)
    (queues : ITUEvent → ItuProgram α Bool) : ItuProgram α Bool :=
  flushFrom env queues ituActionQueueSize 0 none false

def executeDelayed (env : ItuEnv α) (queues : ITUEvent → ItuProgram α Bool)
    (widget : α) (ref : ActionRef α) : ItuProgram α Unit := do
  let action ← getScene fun scene => scene.memory.action ref
  if action.action = .language ∧ action.target = [] then do
    let _ ← sceneUpdate env queues .language (atoi action.param)
    pure ()
  else if action.action = .function then do
    let func ← cachedOr ITUMemory.findFunction ref action
    match func with
    | none => pure ()
    | some func => do
        let _ ← perform env queues (.function func widget action.param)
        pure ()
  else do
    let target ← actionTarget ref action
    match target with
    | none => pure ()
    | some target => do
        let param ← actionParam action
        let _ ← perform env queues (.onAction target action.action param)
        pure ()

def executeDue (env : ItuEnv α) (queues : ITUEvent → ItuProgram α Bool) :
    Option (α × ActionRef α) → ItuProgram α Unit
  | none => pure ()
  | some (widget, ref) => executeDelayed env queues widget ref

def execDelayFrom (env : ItuEnv α) (queues : ITUEvent → ItuProgram α Bool) :
    Nat → Nat → ItuProgram α Unit
  | 0, _ => pure ()
  | turns + 1, i => do
      let due ← delayVisit i
      executeDue env queues due
      execDelayFrom env queues turns (i + 1)

def ituExecDelayQueue (env : ItuEnv α) (queues : ITUEvent → ItuProgram α Bool) :
    ItuProgram α Unit := do
  modifyScene fun scene => { scene with delayLog := scene.delayLog ++ [.tick] }
  execDelayFrom env queues ituActionQueueSize 0

/-- What `ituSceneUpdate` does to the queues on an event that is not a custom one. -/
def sceneQueues (env : ItuEnv α) : Nat → ITUEvent → ItuProgram α Bool
  | 0, _ => do
      modifyScene fun scene => { scene with updates := scene.updates + 1 }
      throw .fuel
  | fuel + 1, ev => do
      modifyScene fun scene => { scene with updates := scene.updates + 1 }
      let commands ←
        (if ev = .timer then do
          ituExecDelayQueue env (sceneQueues env fuel)
          perform env (sceneQueues env fuel) .commands
        else
          pure false : ItuProgram α Bool)
      let flushed ← ituFlushActionQueue env (sceneQueues env fuel)
      pure (commands || flushed)

def ituSceneUpdate (env : ItuEnv α) (fuel : Nat) (ev : ITUEvent) (arg : Int) : ItuProgram α Bool :=
  sceneUpdate env (sceneQueues env fuel) ev arg

end

end IteSdk.Itu
