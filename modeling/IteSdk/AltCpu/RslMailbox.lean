import IteSdk.Lib.Transition

/-!
# The command mailbox of the RSL master

`rslMasterProcessCommand` on the host and the main loop of the ALT CPU share two
16-bit registers.  Each access to a register is one step, and so is the work of a
command and each pass of `masterProcessSendDataOutCmd`, which touch neither
register.
-/

namespace IteSdk.AltCpu

section

/-- A command id; 0 in `REQUEST_CMD_REG` means that there is no command. -/
abbrev RslCmdId : Type := { cmdId : BitVec 16 // cmdId ≠ 0 }

/-- Where the host is: outside `rslMasterProcessCommand`, in its loop, or about to
clear one of the registers. -/
inductive RslMasterPc
  | idle
  | waiting (cmdId : RslCmdId)
  | clearRequest (cmdId : RslCmdId)
  | clearResponse (cmdId : RslCmdId)
  deriving DecidableEq

inductive RslAltPc
  | readRequest
  | readResponse (inputCmd : BitVec 16)
  | process (inputCmd : BitVec 16)
  | writeResponse (inputCmd : BitVec 16)
  | sendDataOut
  deriving DecidableEq

/-- `issued` are the commands of the calls so far, `executed` those that the
`switch` of the main loop was entered with. -/
structure RslMailbox where
  requestCmdReg : BitVec 16
  responseCmdReg : BitVec 16
  host : RslMasterPc
  alt : RslAltPc
  issued : List (BitVec 16)
  executed : List (BitVec 16)
  deriving DecidableEq

/-- After `ITP_IOCTL_INIT` has cleared both registers and fired the ALT CPU. -/
def RslMailbox.init : RslMailbox :=
  { requestCmdReg := 0
    responseCmdReg := 0
    host := .idle
    alt := .readRequest
    issued := []
    executed := [] }

/-- The first write of `rslMasterProcessCommand`. -/
def rslMasterCall (mailbox : RslMailbox) (cmdId : RslCmdId) : RslMailbox :=
  match mailbox.host with
  | .idle =>
    { mailbox with
      requestCmdReg := cmdId.val
      host := .waiting cmdId
      issued := mailbox.issued ++ [cmdId.val] }
  | _ => mailbox

/-- One step of the rest of `rslMasterProcessCommand`. -/
def rslMasterProcessCommand (mailbox : RslMailbox) : RslMailbox :=
  match mailbox.host with
  | .idle => mailbox
  | .waiting cmdId =>
    if mailbox.responseCmdReg ≠ cmdId.val then mailbox
    else { mailbox with host := .clearRequest cmdId }
  | .clearRequest cmdId =>
    { mailbox with requestCmdReg := 0, host := .clearResponse cmdId }
  | .clearResponse _ => { mailbox with responseCmdReg := 0, host := .idle }

def rslMasterMain (mailbox : RslMailbox) : RslMailbox :=
  match mailbox.alt with
  | .readRequest =>
    if mailbox.requestCmdReg ≠ 0 then
      { mailbox with alt := .readResponse mailbox.requestCmdReg }
    else { mailbox with alt := .sendDataOut }
  | .readResponse inputCmd =>
    if mailbox.responseCmdReg = 0 then { mailbox with alt := .process inputCmd }
    else { mailbox with alt := .sendDataOut }
  | .process inputCmd =>
    { mailbox with
      alt := .writeResponse inputCmd
      executed := mailbox.executed ++ [inputCmd] }
  | .writeResponse inputCmd =>
    { mailbox with responseCmdReg := inputCmd, alt := .sendDataOut }
  | .sendDataOut => { mailbox with alt := .readRequest }

inductive RslMailboxEvent
  | call (cmdId : RslCmdId)
  | host
  | alt
  deriving DecidableEq

def rslMailboxStep (mailbox : RslMailbox) : RslMailboxEvent → RslMailbox
  | .call cmdId => rslMasterCall mailbox cmdId
  | .host => rslMasterProcessCommand mailbox
  | .alt => rslMasterMain mailbox

end

/-!
# Runs of the command mailbox

Both sides write `RESPONSE_CMD_REG`.  The main loop reads the two registers one
after the other, and between these reads the host may clear both: it must not, as
the command that it has just been answered is then executed once more.
-/

section

open Lib

/-- In a run of any further steps that has enough steps of the ALT CPU, the host
reads the answer to the command that it waits for. -/
def RslMailbox.Answers (mailbox : RslMailbox) (cmdId : RslCmdId) : Prop :=
  ∀ later : List RslMailboxEvent,
    5 ≤ later.count .alt →
      ∃ done rest,
        later = done ++ rest ∧ (done.foldl rslMailboxStep mailbox).host = .waiting cmdId ∧
          (done.foldl rslMailboxStep mailbox).responseCmdReg = cmdId.val

/-- Each command is executed once and in order, an answer is the answer to the
command of the call, no call waits forever, and between the calls both registers
are 0. -/
structure RslMailboxSafe (mailbox : RslMailbox) : Prop where
  once :
    mailbox.executed = mailbox.issued ∨
      ∃ cmdId : RslCmdId,
        mailbox.host = .waiting cmdId ∧ mailbox.issued = mailbox.executed ++ [cmdId.val]
  answered :
    ∀ cmdId, mailbox.host = .waiting cmdId →
      mailbox.responseCmdReg ≠ 0 →
        mailbox.responseCmdReg = cmdId.val ∧ mailbox.executed = mailbox.issued
  ends : ∀ cmdId, mailbox.host = .waiting cmdId → mailbox.Answers cmdId
  cleared : mailbox.host = .idle → mailbox.requestCmdReg = 0 ∧ mailbox.responseCmdReg = 0

def RslMasterPc.clearsResponse : RslMasterPc → Bool
  | .clearResponse _ => true
  | _ => false

def RslAltPc.betweenReads : RslAltPc → Bool
  | .readResponse _ => true
  | _ => false

/-- The host does not clear `RESPONSE_CMD_REG` between the two reads of the main
loop. -/
def RslMailboxAllowed (mailbox : RslMailbox) : RslMailboxEvent → Prop
  | .host => mailbox.host.clearsResponse → ¬mailbox.alt.betweenReads
  | _ => True

instance RslMailboxAllowed.decidable (mailbox : RslMailbox) :
    ∀ event : RslMailboxEvent, Decidable (RslMailboxAllowed mailbox event)
  | .host => inferInstanceAs (Decidable (_ → _))
  | .call _ | .alt => inferInstanceAs (Decidable True)

/-! ## The invariant -/

namespace RslMailbox

def Pending (mailbox : RslMailbox) (cmdId : RslCmdId) : Prop :=
  mailbox.responseCmdReg = 0 ∧ mailbox.issued = mailbox.executed ++ [cmdId.val]

/-- The command of the call has been executed and answered. -/
def Answered (mailbox : RslMailbox) (cmdId : RslCmdId) : Prop :=
  mailbox.responseCmdReg = cmdId.val ∧ mailbox.executed = mailbox.issued

def Serves (mailbox : RslMailbox) (cmdId : RslCmdId) : Prop :=
  match mailbox.alt with
  | .readRequest | .sendDataOut =>
    mailbox.Pending cmdId ∨ mailbox.Answered cmdId
  | .readResponse inputCmd =>
    inputCmd = cmdId.val ∧ (mailbox.Pending cmdId ∨ mailbox.Answered cmdId)
  | .process inputCmd => inputCmd = cmdId.val ∧ mailbox.Pending cmdId
  | .writeResponse inputCmd =>
    inputCmd = cmdId.val ∧ mailbox.responseCmdReg = 0 ∧ mailbox.executed = mailbox.issued

def Served (mailbox : RslMailbox) (cmdId : RslCmdId) : Prop :=
  mailbox.Answered cmdId ∧ match mailbox.alt with
    | .readRequest | .sendDataOut => True
    | .readResponse inputCmd => inputCmd = cmdId.val
    | .process _ | .writeResponse _ => False

def Quiet (mailbox : RslMailbox) : Prop :=
  mailbox.responseCmdReg = 0 ∧ mailbox.executed = mailbox.issued ∧
    (mailbox.alt = .readRequest ∨ mailbox.alt = .sendDataOut)

def Inv (mailbox : RslMailbox) : Prop :=
  match mailbox.host with
  | .idle => mailbox.requestCmdReg = 0 ∧ mailbox.Quiet
  | .waiting cmdId =>
    mailbox.requestCmdReg = cmdId.val ∧ mailbox.Serves cmdId
  | .clearRequest cmdId =>
    mailbox.requestCmdReg = cmdId.val ∧ mailbox.Served cmdId
  | .clearResponse cmdId => mailbox.requestCmdReg = 0 ∧ mailbox.Served cmdId

variable {mailbox : RslMailbox} {cmdId : RslCmdId}

theorem Inv.init : Inv .init := ⟨rfl, rfl, rfl, .inl rfl⟩

theorem Inv.call (inv : mailbox.Inv) (cmdId : RslCmdId) : (rslMasterCall mailbox cmdId).Inv := by
  cases here : mailbox.host with
  | idle =>
    simp only [Inv, here, Quiet] at inv
    obtain ⟨-, response, done, resting⟩ := inv
    rcases resting with alt | alt <;>
      simp [rslMasterCall, Inv, here, Serves, Pending, alt, response, done]
  | waiting _ | clearRequest _ | clearResponse _ => simpa only [rslMasterCall, here] using inv

theorem Serves.leave (serves : mailbox.Serves cmdId) (answer : mailbox.responseCmdReg = cmdId.val) :
    mailbox.Served cmdId := by
  have answered : ¬mailbox.Pending cmdId := by
    rintro ⟨empty, -⟩
    exact cmdId.property (answer.symm.trans empty)
  cases alt : mailbox.alt with
  | readRequest | sendDataOut => simpa [Serves, Served, alt, answered] using serves
  | readResponse inputCmd =>
    simpa [Serves, Served, alt, answered, and_comm] using serves
  | process inputCmd => simp [Serves, alt, answered] at serves
  | writeResponse inputCmd =>
    simp only [Serves, alt] at serves
    exact absurd (answer.symm.trans serves.2.1) cmdId.property

theorem Inv.host (inv : mailbox.Inv) (allowed : RslMailboxAllowed mailbox .host) :
    (rslMasterProcessCommand mailbox).Inv := by
  cases here : mailbox.host with
  | idle => simpa only [rslMasterProcessCommand, here] using inv
  | waiting cmdId =>
    by_cases answer : mailbox.responseCmdReg = cmdId.val
    · simp only [Inv, here] at inv
      have left :
          rslMasterProcessCommand mailbox = { mailbox with host := .clearRequest cmdId } := by
        simp [rslMasterProcessCommand, here, answer]
      rw [left]
      exact ⟨inv.1, inv.2.leave answer⟩
    · simpa only [rslMasterProcessCommand, here, ne_eq, answer, not_false_eq_true,
        if_true] using inv
  | clearRequest cmdId =>
    simp only [Inv, here] at inv
    have left :
        rslMasterProcessCommand mailbox =
          { mailbox with requestCmdReg := 0, host := .clearResponse cmdId } := by
      simp [rslMasterProcessCommand, here]
    rw [left]
    exact ⟨rfl, inv.2⟩
  | clearResponse cmdId =>
    simp only [Inv, here] at inv
    simp only [RslMailboxAllowed, here, RslMasterPc.clearsResponse] at allowed
    obtain ⟨request, ⟨-, done⟩, place⟩ := inv
    cases alt : mailbox.alt <;>
      simp_all [rslMasterProcessCommand, Inv, Quiet, RslAltPc.betweenReads]

theorem Inv.alt (inv : mailbox.Inv) : (rslMasterMain mailbox).Inv := by
  obtain ⟨request, response, host, alt, issued, executed⟩ := mailbox
  cases host with
  | idle =>
    obtain ⟨rfl, rfl, done, rfl | rfl⟩ := inv
    · exact ⟨rfl, rfl, done, .inr rfl⟩
    · exact ⟨rfl, rfl, done, .inl rfl⟩
  | waiting cmdId =>
    obtain ⟨rfl, serves⟩ := inv
    cases alt with
    | readRequest =>
      simp only [rslMasterMain, ne_eq, cmdId.property, not_false_eq_true, if_true]
      exact ⟨rfl, rfl, serves⟩
    | sendDataOut => exact ⟨rfl, serves⟩
    | readResponse inputCmd =>
      obtain ⟨rfl, ⟨rfl, pending⟩ | ⟨rfl, done⟩⟩ := serves
      · exact ⟨rfl, rfl, rfl, pending⟩
      · simp only [rslMasterMain, cmdId.property, if_false]
        exact ⟨rfl, .inr ⟨rfl, done⟩⟩
    | process inputCmd =>
      obtain ⟨rfl, empty, pending⟩ := serves
      exact ⟨rfl, rfl, empty, pending.symm⟩
    | writeResponse inputCmd =>
      obtain ⟨rfl, -, done⟩ := serves
      exact ⟨rfl, .inr ⟨rfl, done⟩⟩
  | clearRequest cmdId =>
    obtain ⟨rfl, ⟨rfl, done⟩, place⟩ := inv
    cases alt with
    | readRequest =>
      simp only [rslMasterMain, ne_eq, cmdId.property, not_false_eq_true, if_true]
      exact ⟨rfl, ⟨rfl, done⟩, rfl⟩
    | sendDataOut => exact ⟨rfl, ⟨rfl, done⟩, trivial⟩
    | readResponse inputCmd =>
      simp only [rslMasterMain, cmdId.property, if_false]
      exact ⟨rfl, ⟨rfl, done⟩, trivial⟩
    | process inputCmd | writeResponse inputCmd => exact place.elim
  | clearResponse cmdId =>
    obtain ⟨rfl, ⟨rfl, done⟩, place⟩ := inv
    cases alt with
    | readRequest | sendDataOut => exact ⟨rfl, ⟨rfl, done⟩, trivial⟩
    | readResponse inputCmd =>
      simp only [rslMasterMain, cmdId.property, if_false]
      exact ⟨rfl, ⟨rfl, done⟩, trivial⟩
    | process inputCmd | writeResponse inputCmd => exact place.elim

theorem Inv.step (inv : mailbox.Inv) {event : RslMailboxEvent}
    (allowed : RslMailboxAllowed mailbox event) :
    (rslMailboxStep mailbox event).Inv := by
  cases event with
  | call cmdId => exact inv.call cmdId
  | host => exact inv.host allowed
  | alt => exact inv.alt

theorem Serves.once (serves : mailbox.Serves cmdId) :
    mailbox.executed = mailbox.issued ∨ mailbox.issued = mailbox.executed ++ [cmdId.val] := by
  have either :
      mailbox.Pending cmdId ∨ mailbox.Answered cmdId →
        mailbox.executed = mailbox.issued ∨ mailbox.issued = mailbox.executed ++ [cmdId.val] := by
    rintro (pending | answered)
    · exact .inr pending.2
    · exact .inl answered.2
  cases alt : mailbox.alt <;> simp only [Serves, alt] at serves
  · exact either serves
  · exact either serves.2
  · exact .inr serves.2.2
  · exact .inl serves.2.2
  · exact either serves

theorem Serves.answered (serves : mailbox.Serves cmdId)
    (answer : mailbox.responseCmdReg ≠ 0) : mailbox.Answered cmdId := by
  have answered :
      mailbox.Pending cmdId ∨ mailbox.Answered cmdId → mailbox.Answered cmdId :=
    Or.rec (fun pending => absurd pending.1 answer) id
  cases alt : mailbox.alt <;> simp only [Serves, alt] at serves
  · exact answered serves
  · exact answered serves.2
  · exact absurd serves.2.1 answer
  · exact absurd serves.2.1 answer
  · exact answered serves

/-! ## The answer comes -/

/-- How many steps of the ALT CPU are left before the answer. -/
def left (mailbox : RslMailbox) : Nat :=
  match mailbox.alt with
  | .writeResponse _ => 1
  | .process _ => 2
  | .readResponse _ => 3
  | .readRequest => 4
  | .sendDataOut => 5

theorem Inv.approaches (inv : mailbox.Inv) (here : mailbox.host = .waiting cmdId)
    (waits : mailbox.responseCmdReg ≠ cmdId.val) (event : RslMailboxEvent) :
    event ≠ .alt ∧ rslMailboxStep mailbox event = mailbox ∨
      event = .alt ∧ (rslMasterMain mailbox).host = .waiting cmdId ∧
        ((rslMasterMain mailbox).responseCmdReg = cmdId.val ∨
          (rslMasterMain mailbox).left < mailbox.left) := by
  cases event with
  | call other => simp [rslMailboxStep, rslMasterCall, here]
  | host => simp [rslMailboxStep, rslMasterProcessCommand, here, waits]
  | alt =>
    obtain ⟨request, response, host, alt, issued, executed⟩ := mailbox
    dsimp only at here waits
    subst here
    obtain ⟨rfl, serves⟩ := inv
    refine .inr ⟨rfl, ?_⟩
    cases alt with
    | readRequest =>
      simp only [rslMasterMain, ne_eq, cmdId.property, not_false_eq_true, if_true]
      exact ⟨trivial, .inr (by simp [left])⟩
    | sendDataOut | process inputCmd => simp [rslMasterMain, left]
    | readResponse inputCmd =>
      obtain ⟨rfl, ⟨rfl, pending⟩ | ⟨answer, -⟩⟩ := serves
      · simp [rslMasterMain, left]
      · exact absurd answer waits
    | writeResponse inputCmd =>
      obtain ⟨rfl, -⟩ := serves
      simp [rslMasterMain]

theorem left_pos (mailbox : RslMailbox) : 0 < mailbox.left := by
  cases alt : mailbox.alt <;> simp [left, alt]

theorem left_le (mailbox : RslMailbox) : mailbox.left ≤ 5 := by
  cases alt : mailbox.alt <;> simp [left, alt]

/-- By induction on the steps, with at least as many steps of the ALT CPU among
them as are left. -/
theorem Inv.answers (inv : mailbox.Inv) (here : mailbox.host = .waiting cmdId)
    (later : List RslMailboxEvent) (enough : mailbox.left ≤ later.count .alt) :
    ∃ done rest,
      later = done ++ rest ∧ (done.foldl rslMailboxStep mailbox).host = .waiting cmdId ∧
        (done.foldl rslMailboxStep mailbox).responseCmdReg = cmdId.val := by
  induction later generalizing mailbox with
  | nil => exact absurd enough (Nat.not_le_of_gt mailbox.left_pos)
  | cons event later ih =>
    by_cases answer : mailbox.responseCmdReg = cmdId.val
    · exact ⟨[], event :: later, rfl, here, answer⟩
    have continues :
        (∃ done rest,
          later = done ++ rest ∧
            (done.foldl rslMailboxStep (rslMailboxStep mailbox event)).host = .waiting cmdId ∧
            (done.foldl rslMailboxStep (rslMailboxStep mailbox event)).responseCmdReg = cmdId.val) →
          ∃ done rest,
            event :: later = done ++ rest ∧
              (done.foldl rslMailboxStep mailbox).host = .waiting cmdId ∧
              (done.foldl rslMailboxStep mailbox).responseCmdReg = cmdId.val := by
      intro ⟨done, rest, split, reached⟩
      exact ⟨event :: done, rest, congrArg (event :: ·) split, reached⟩
    apply continues
    rcases inv.approaches here answer event with
      ⟨other, same⟩ | ⟨rfl, waiting, answered | nearer⟩
    · rw [List.count_cons_of_ne other] at enough
      rw [same]
      exact ih inv here enough
    · exact ⟨[], later, rfl, waiting, answered⟩
    · rw [List.count_cons_self] at enough
      have fewer : (rslMasterMain mailbox).left ≤ later.count .alt := by omega
      exact ih inv.alt waiting fewer

theorem Inv.safe (inv : mailbox.Inv) : RslMailboxSafe mailbox where
  once := by
    cases here : mailbox.host with
    | idle =>
      simp only [Inv, here] at inv
      exact .inl inv.2.2.1
    | waiting cmdId =>
      simp only [Inv, here] at inv
      exact inv.2.once.imp_right fun pending => ⟨cmdId, rfl, pending⟩
    | clearRequest cmdId | clearResponse cmdId =>
      simp only [Inv, here] at inv
      exact .inl inv.2.1.2
  answered := by
    intro cmdId here answer
    simp only [Inv, here] at inv
    exact inv.2.answered answer
  ends := by
    intro cmdId here later enough
    exact inv.answers here later (Nat.le_trans mailbox.left_le enough)
  cleared := by
    intro here
    simp only [Inv, here] at inv
    exact ⟨inv.1, inv.2.1⟩

end RslMailbox

def rslMailboxRun (events : List RslMailboxEvent) : RslMailbox :=
  events.foldl rslMailboxStep .init

/-- The mailbox keeps its protocol in every run in which the host never clears
`RESPONSE_CMD_REG` between the two reads of the main loop. -/
theorem rslMailbox_safe
    (events : List RslMailboxEvent)
    (allowed : AllowedAlong RslMailboxAllowed rslMailboxStep .init events) :
    RslMailboxSafe (rslMailboxRun events) := by
  refine (Run.invariant RslMailbox.Inv.init ?_ (Run.guarded_foldl allowed)).safe
  intro before event after inv step
  rw [step.2]
  exact inv.step step.1

/-- A call of `READ_DATA_CMD_ID` that is executed and answered; the main loop has
read the request once more before the host clears it. -/
def readDataEvents : List RslMailboxEvent :=
  [.call ⟨2, by decide⟩, .alt, .alt, .alt, .alt, .alt, .alt, .host, .host]

theorem rslMailbox_safe_once :
    RslMailboxSafe (rslMailboxRun (readDataEvents ++ [.alt, .host])) :=
  rslMailbox_safe (readDataEvents ++ [.alt, .host]) (by decide)

/-- The call of `WRITE_DATA_CMD_ID` after it, with the host's last step taken
before the second read of the main loop. -/
def blockedEvents : List RslMailboxEvent :=
  readDataEvents ++ [.host, .alt, .alt, .alt, .call ⟨3, by decide⟩]

/-- The command is executed twice, and the host then waits forever. -/
theorem rslMailbox_unsafe :
    ¬ RslMailboxSafe (rslMailboxRun (readDataEvents ++ [.host, .alt, .alt])) ∧
      ¬ RslMailboxSafe (rslMailboxRun blockedEvents) ∧
      rslMailboxRun (blockedEvents ++ [.alt, .alt, .alt]) = rslMailboxRun blockedEvents ∧
      rslMasterProcessCommand (rslMailboxRun blockedEvents) = rslMailboxRun blockedEvents := by
  refine ⟨fun safe => ?_, fun safe => ?_, by decide, by decide⟩
  · rcases safe.once with same | ⟨cmdId, waiting, -⟩
    · revert same
      decide
    · cases waiting
  · have answer := safe.answered ⟨3, by decide⟩ (by decide) (by decide)
    revert answer
    decide

end

end IteSdk.AltCpu
