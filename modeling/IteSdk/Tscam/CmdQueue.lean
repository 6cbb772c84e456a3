import IteSdk.Lib.DoublyLinked

/-!
# The command queues of the camera

The received commands wait for `tscam_Cmd_Fetch`, the posted ones for
`tscam_Stream_Generate`.  A queue is known by its first and its last node and a
count, which are written separately.  A loop along the nodes is given fuel; that
it does not end is `none`, and so is an access to a node that was freed.
-/

namespace IteSdk.Tscam

section

open Lib

def tscamMaxQueueSize : Nat := 5

inductive TscmCmdPriority
  | appt
  | er
  deriving DecidableEq

inductive TscmStreamPktFmt
  | ts
  | rs232
  | unknown
  deriving DecidableEq

/-- `TSCM_CMD_BOX` without its pointers.  A handler and what is tunnelled to it
are known by their addresses. -/
structure CmdBox (α : Type) where
  cmdCode : Nat
  priority : TscmCmdPriority
  handler : Option Nat
  pCmdInfo : α
  pTunnelInfo : Option Nat
  streamPktFmt : TscmStreamPktFmt
  rxDevAddrId : Nat
  txDevAddrId : Nat
  deriving DecidableEq

/-- `head` is `pCmd_recv_head`, `tail` is `pCmd_recv_queue`, and `num` is a
`uint32_t`. -/
structure CmdQueue where
  head : Option Nat
  tail : Option Nat
  num : Nat
  deriving DecidableEq

def CmdQueue.empty : CmdQueue := ⟨none, none, 0⟩

/-- The allocated boxes, their pointers and the two queues. -/
structure TscmHandle (α : Type) where
  links : RingLinks Nat
  boxes : Nat → Option (CmdBox α)
  recv : CmdQueue
  trans : CmdQueue

def TscmHandle.init (α : Type) : TscmHandle α :=
  ⟨⟨fun _ => none, fun _ => none⟩, fun _ => none, .empty, .empty⟩

variable {α : Type}

/-- The answer of `malloc` for a box, by the boxes that are allocated; memory
that is in use is not returned. -/
structure BoxMalloc (α : Type) where
  answer : (Nat → Option (CmdBox α)) → Option Nat
  free : ∀ boxes new, answer boxes = some new → boxes new = none

/-- `malloc` returns this address, or nothing if it is in use. -/
def BoxMalloc.of (address : Nat) : BoxMalloc α where
  answer boxes := if boxes address = none then some address else none
  free boxes new answered := by
    obtain ⟨free, rfl⟩ : boxes address = none ∧ address = new := by simpa using answered
    exact free

def BoxMalloc.never : BoxMalloc α := ⟨fun _ => none, by simp⟩

def queueFind (handle : TscmHandle α) (cmdCode : Nat) : Nat → Option Nat → Option (Option Nat)
  | 0, _ => none
  | _ + 1, none => some none
  | fuel + 1, some node =>
    match handle.boxes node with
    | none => none
    | some box =>
      if box.cmdCode = cmdCode then
        some (some node)
      else
        queueFind handle cmdCode fuel (handle.links.next node)

def queueFindHead (fuel : Nat) (links : RingLinks Nat) : Option Nat → Option (Option Nat)
  | none => some none
  | some node => (seek links.prev Option.isNone fuel node).map some

def queueFindTail (fuel : Nat) (links : RingLinks Nat) : Option Nat → Option (Option Nat)
  | none => some none
  | some node => (seek links.next Option.isNone fuel node).map some

def queueDel (fuel : Nat) (links : RingLinks Nat) (node : Nat) :
    Option (RingLinks Nat × Option Nat) :=
  match (links.takeOut node).prev node with
  | some before =>
    (queueFindHead fuel (links.takeOut node) (some before)).map
      fun head => (links.takeOut node, head)
  | none =>
    (queueFindHead fuel (links.takeOut node) ((links.takeOut node).next node)).map
      fun head => (links.takeOut node, head)

/-- `num--`; the test for a negative number behind it never holds. -/
def decrementNum (num : Nat) : Nat := (num + (2 ^ 32 - 1)) % 2 ^ 32

/-- `QUEUE_INIT` and the new last node. -/
def queueAppend (links : RingLinks Nat) (queue : CmdQueue) (new : Nat) : RingLinks Nat × CmdQueue :=
  match queue.tail with
  | none =>
    ((links.setNext new none).setPrev new none, ⟨some new, some new, 1⟩)
  | some tail =>
    (((links.setNext new none).setPrev new none).addBehind tail new,
      ⟨queue.head, some new, (queue.num + 1) % 2 ^ 32⟩)

/-- The first node of a queue is taken, by `tscam_Cmd_Fetch` and by
`tscam_Stream_Generate`. -/
def queueTake (fuel : Nat) (links : RingLinks Nat) (queue : CmdQueue) :
    Option (RingLinks Nat × CmdQueue × Option Nat) :=
  match queue.head, queue.tail with
  | some node, some tail => do
      let (links, left) ← queueDel fuel links node
      let tail := left.map fun _ => tail
      let head ← queueFindHead fuel links tail
      some (links, ⟨head, tail, decrementNum queue.num⟩, some node)
  | _, _ => some (links, queue, none)

/-! ## The functions -/

/-- An older command with the same code is removed from the receive queue. -/
def supersedeCmd (fuel : Nat) (handle : TscmHandle α) (cmdCode : Nat) : Option (TscmHandle α) := do
  match ← queueFind handle cmdCode fuel handle.recv.head with
  | none => some handle
  | some node => do
      let (links, head) ← queueDel fuel handle.links node
      let tail ← queueFindTail fuel links head
      some
        { handle with
          links := links
          boxes := Function.update handle.boxes node none
          recv := ⟨head, tail, decrementNum handle.recv.num⟩ }

def TscmHandle.pushRecv (handle : TscmHandle α) (new : Nat) (box : CmdBox α) : TscmHandle α :=
  { handle with
    links := (queueAppend handle.links handle.recv new).1
    boxes := Function.update handle.boxes new (some box)
    recv := (queueAppend handle.links handle.recv new).2 }

def TscmHandle.pushTrans (handle : TscmHandle α) (new : Nat) (box : CmdBox α) : TscmHandle α :=
  { handle with
    links := (queueAppend handle.links handle.trans new).1
    boxes := Function.update handle.boxes new (some box)
    trans := (queueAppend handle.links handle.trans new).2 }

inductive RecvResult
  | full
  | noMemory
  | stored
  deriving DecidableEq

/-- What `_tscam_cmd_analyse` does with a command that is complete and has no
active handler. -/
def recvCmd (fuel : Nat) (handle : TscmHandle α) (malloc : BoxMalloc α)
    (box : CmdBox α) : Option (TscmHandle α × RecvResult) :=
  if handle.recv.num > tscamMaxQueueSize then
    some (handle, .full)
  else do
    let handle ← supersedeCmd fuel handle box.cmdCode
    match malloc.answer handle.boxes with
    | none => some (handle, .noMemory)
    | some new =>
      some (handle.pushRecv new { box with priority := .appt }, .stored)

def tscamCmdFetch (fuel : Nat) (handle : TscmHandle α) :
    Option (TscmHandle α × Option (CmdBox α)) := do
  let (links, queue, taken) ← queueTake fuel handle.links handle.recv
  match taken with
  | none => some ({ handle with links := links, recv := queue }, none)
  | some node => do
      let box ← handle.boxes node
      some
        ({ handle with
            links := links
            boxes := Function.update handle.boxes node none
            recv := queue },
          some box)

/-- What `tscam_Stream_Generate` takes from the transmit queue; the box is freed
when its packets are made. -/
def tscamStreamPull (fuel : Nat) (handle : TscmHandle α) :
    Option (TscmHandle α × Option (CmdBox α)) := do
  let (links, queue, taken) ← queueTake fuel handle.links handle.trans
  match taken with
  | none => some ({ handle with links := links, trans := queue }, none)
  | some node => do
      let box ← handle.boxes node
      some
        ({ handle with
            links := links
            boxes := Function.update handle.boxes node none
            trans := queue },
          some box)

structure CmdSrvcAttr (α : Type) where
  userHanlder : Option Nat
  cmdCtxtCreate : Option (α → α)

/-- The box that `tscam_Cmd_Post` makes of the one that it is given, unless the
packet format or the command is unknown. -/
def postedBox (attr : Nat → Option (CmdSrvcAttr α)) (box : CmdBox α) : Option (CmdBox α) :=
  if box.streamPktFmt = .unknown then
    none
  else
    match attr box.cmdCode with
    | none => none
    | some found =>
      match found.cmdCtxtCreate with
      | none => none
      | some create =>
        some
          { box with
            handler := if box.handler = none then found.userHanlder else box.handler
            priority := .appt
            pCmdInfo := create box.pCmdInfo }

def tscamCmdPost (attr : Nat → Option (CmdSrvcAttr α)) (handle : TscmHandle α)
    (malloc : BoxMalloc α) (box : CmdBox α) : TscmHandle α :=
  match postedBox attr box with
  | none => handle
  | some posted =>
    if handle.trans.num > tscamMaxQueueSize then
      handle
    else
      match malloc.answer handle.boxes with
      | none => handle
      | some new => handle.pushTrans new posted

end

/-!
# The command queues are lists

What a queue holds is a list of boxes, the oldest first: its nodes are a doubly
linked list, the two pointers lead to its ends and the count is its length.  Each
function of the queues is an operation on these lists, and leaves the other queue
alone.
-/

section

open Lib

variable {α : Type}

structure Queued (links : RingLinks Nat) (queue : CmdQueue) (nodes : List Nat) : Prop where
  line : links.Line nodes
  head : queue.head = nodes.head?
  tail : queue.tail = nodes.getLast?
  num : queue.num = nodes.length

variable {links : RingLinks Nat} {queue : CmdQueue} {nodes front rest : List Nat}
  {node new fuel : Nat}

theorem Queued.nil : Queued links .empty [] := ⟨.nil, rfl, rfl, rfl⟩

theorem Queued.congr {links' : RingLinks Nat} (queued : Queued links queue nodes)
    (same : ∀ m ∈ nodes, links'.next m = links.next m ∧ links'.prev m = links.prev m) :
    Queued links' queue nodes where
  line := queued.line.congr (fun m member => (same m member).1) fun m member => (same m member).2
  head := queued.head
  tail := queued.tail
  num := queued.num

/-! ## The queue template -/

theorem queueFindHead_eq (line : links.Line nodes) (enough : nodes.length < fuel) :
    queueFindHead fuel links nodes.head? = some nodes.head? ∧
      queueFindHead fuel links nodes.getLast? = some nodes.head? := by
  constructor
  · cases nodes with
    | nil => rfl
    | cons first rest =>
      have behindNone : links.Line ([] ++ first :: rest) := line
      have found := behindNone.seek_prev fuel (by simp at enough ⊢; omega)
      rw [List.head?_cons, queueFindHead]
      rw [List.nil_append, List.head?_cons] at found
      rw [found]
      rfl
  · rcases List.eq_nil_or_concat nodes with rfl | ⟨earlier, last, rfl⟩
    · rfl
    · rw [List.concat_eq_append] at line enough ⊢
      have found := line.seek_prev fuel (by simp at enough; omega)
      obtain ⟨first, others, shape⟩ := List.exists_cons_of_ne_nil (l := earlier ++ [last]) (by simp)
      rw [List.getLast?_concat, queueFindHead, found, shape]
      rfl

theorem queueFindTail_eq (line : links.Line nodes) (enough : nodes.length < fuel) :
    queueFindTail fuel links nodes.head? = some nodes.getLast? := by
  cases nodes with
  | nil => rfl
  | cons first rest =>
    have found := line.seek_next fuel (by simp at enough; omega)
    rw [List.head?_cons, queueFindTail, found,
      List.getLast?_eq_some_getLast (List.cons_ne_nil first rest)]
    rfl

theorem takeOut_self (line : links.Line (front ++ node :: rest)) :
    (links.takeOut node).next node = rest.head? ∧
      (links.takeOut node).prev node = front.getLast? := by
  have parts := List.nodup_append.mp line.nodup
  rw [RingLinks.takeOut_eq line.prev_ne, line.next_eq, line.prev_eq]
  constructor
  · cases shape : front.getLast? with
    | none => exact line.next_eq
    | some before =>
      have inside : before ∈ front := List.mem_of_getLast? shape
      have apart : node ≠ before := fun same =>
        parts.2.2 before inside node List.mem_cons_self same.symm
      exact (Function.update_of_ne apart _ _).trans line.next_eq
  · cases shape : rest.head? with
    | none => exact line.prev_eq
    | some behind =>
      have inside : behind ∈ rest := List.mem_of_head? shape
      have apart : node ≠ behind := by
        rintro rfl
        exact (List.nodup_cons.mp parts.2.1).1 inside
      exact (Function.update_of_ne apart _ _).trans line.prev_eq

theorem queueDel_eq (line : links.Line (front ++ node :: rest))
    (enough : (front ++ rest).length < fuel) :
    queueDel fuel links node = some (links.takeOut node, (front ++ rest).head?) := by
  have left := line.remove
  obtain ⟨next, prev⟩ := takeOut_self line
  rw [queueDel, prev]
  rcases List.eq_nil_or_concat front with rfl | ⟨earlier, before, rfl⟩
  · rw [List.nil_append] at left enough ⊢
    change Option.map _ (queueFindHead fuel (links.takeOut node)
      ((links.takeOut node).next node)) = _
    rw [next, (queueFindHead_eq left enough).1]
    rfl
  · rw [List.concat_eq_append] at left enough ⊢
    have found :
        queueFindHead fuel (links.takeOut node) (some before) =
          some (earlier ++ [before] ++ rest).head? := by
      rw [List.append_assoc, List.singleton_append] at left
      have sought := left.seek_prev fuel (by simp at enough; omega)
      obtain ⟨first, others, shape⟩ :=
        List.exists_cons_of_ne_nil (l := earlier ++ before :: rest) (by simp)
      rw [List.append_assoc, List.singleton_append, queueFindHead, sought, shape]
      rfl
    rw [List.getLast?_concat]
    dsimp only
    rw [found]
    rfl

theorem decrementNum_succ {count : Nat} (small : count < 2 ^ 32) :
    decrementNum (count + 1) = count := by
  unfold decrementNum
  omega

theorem Queued.takeOut (queued : Queued links queue (front ++ node :: rest))
    (small : (front ++ rest).length < 2 ^ 32) :
    Queued (links.takeOut node)
      ⟨(front ++ rest).head?, (front ++ rest).getLast?, decrementNum queue.num⟩
      (front ++ rest) where
  line := queued.line.remove
  head := rfl
  tail := rfl
  num := by
    have length : queue.num = (front ++ rest).length + 1 := by
      rw [queued.num]
      simp only [List.length_append, List.length_cons]
      omega
    rw [length]
    exact decrementNum_succ small

theorem queueTake_nil (queued : Queued links queue []) :
    queueTake fuel links queue = some (links, queue, none) := by
  rw [queueTake, queued.head]
  rfl

theorem queueTake_cons (queued : Queued links queue (node :: rest)) (enough : rest.length < fuel) :
    queueTake fuel links queue =
      some
        (links.takeOut node, ⟨rest.head?, rest.getLast?, decrementNum queue.num⟩, some node) := by
  have line : links.Line ([] ++ node :: rest) := queued.line
  have left := line.remove
  have deleted := queueDel_eq line enough
  rw [List.nil_append] at left deleted
  have tail :
      (rest.head?.map fun _ => (node :: rest).getLast (List.cons_ne_nil _ _)) = rest.getLast? := by
    cases rest with
    | nil => rfl
    | cons second others =>
      rw [List.getLast?_eq_some_getLast (List.cons_ne_nil second others)]
      rfl
  rw [queueTake, queued.head, queued.tail, List.head?_cons,
    List.getLast?_eq_some_getLast (List.cons_ne_nil node rest)]
  simp only [Option.bind_eq_bind, deleted, Option.bind_some, tail, (queueFindHead_eq left enough).2]

theorem Queued.append (queued : Queued links queue nodes) (fresh : new ∉ nodes)
    (small : nodes.length + 1 < 2 ^ 32) :
    Queued (queueAppend links queue new).1 (queueAppend links queue new).2 (nodes ++ [new]) := by
  have cleared :
      ((links.setNext new none).setPrev new none).Line nodes := by
    refine queued.line.congr (fun m member => ?_) fun m member => ?_
    · exact Function.update_of_ne (ne_of_mem_of_not_mem member fresh) _ _
    · exact Function.update_of_ne (ne_of_mem_of_not_mem member fresh) _ _
  rcases List.eq_nil_or_concat nodes with rfl | ⟨earlier, last, rfl⟩
  · rw [queueAppend, queued.tail]
    refine ⟨.single ?_ ?_, rfl, rfl, rfl⟩
    · exact Function.update_self _ _ _
    · exact Function.update_self _ _ _
  · rw [List.concat_eq_append] at cleared fresh small queued ⊢
    have num := queued.num
    rw [queueAppend, queued.tail, List.getLast?_concat]
    refine ⟨cleared.add fresh, ?_, ?_, ?_⟩
    · rw [List.head?_append_of_ne_nil _ (by simp)]
      exact queued.head
    · exact (List.getLast?_concat ..).symm
    · rw [List.length_append, List.length_singleton, ← num]
      exact Nat.mod_eq_of_lt (by omega)

theorem queueAppend_apart (queued : Queued links queue nodes)
    (fresh : new ∉ nodes) {m : Nat} (apart : m ∉ nodes) (other : m ≠ new) :
    (queueAppend links queue new).1.next m = links.next m ∧
      (queueAppend links queue new).1.prev m = links.prev m := by
  have cleared :
      ((links.setNext new none).setPrev new none).next m = links.next m ∧
        ((links.setNext new none).setPrev new none).prev m = links.prev m :=
    ⟨Function.update_of_ne other _ _, Function.update_of_ne other _ _⟩
  rcases List.eq_nil_or_concat nodes with rfl | ⟨earlier, last, rfl⟩
  · rw [queueAppend, queued.tail]
    exact cleared
  · rw [List.concat_eq_append] at queued fresh apart
    rw [queueAppend, queued.tail, List.getLast?_concat]
    have notLast : m ≠ last := by
      rintro rfl
      exact apart (List.mem_append_right _ (List.mem_singleton_self m))
    have ends : ((links.setNext new none).setPrev new none).next last = none := by
      have lastOld : last ≠ new := by
        rintro rfl
        exact fresh (List.mem_append_right _ (List.mem_singleton_self last))
      exact (Function.update_of_ne lastOld _ _).trans queued.line.next_eq
    have kept := RingLinks.addBehind_apart ends notLast other
    exact ⟨kept.1.trans cleared.1, kept.2.trans cleared.2⟩

/-! ## The boxes of the queues -/

structure HoldsBoxes (handle : TscmHandle α) (queue : CmdQueue)
    (nodes : List Nat) (held : List (CmdBox α)) : Prop where
  queued : Queued handle.links queue nodes
  boxes : nodes.map handle.boxes = held.map some

variable {handle after : TscmHandle α} {held : List (CmdBox α)}

section

variable (holds : HoldsBoxes handle queue nodes held)

include holds

theorem HoldsBoxes.length : nodes.length = held.length := by
  have lengths := congrArg List.length holds.boxes
  rwa [List.length_map, List.length_map] at lengths

theorem HoldsBoxes.box (member : node ∈ nodes) : ∃ box ∈ held, handle.boxes node = some box := by
  have inside : handle.boxes node ∈ held.map some := by
    rw [← holds.boxes]
    exact List.mem_map_of_mem member
  obtain ⟨box, present, same⟩ := List.mem_map.mp inside
  exact ⟨box, present, same.symm⟩

theorem HoldsBoxes.fresh (free : handle.boxes new = none) : new ∉ nodes := by
  intro member
  obtain ⟨box, -, present⟩ := holds.box member
  rw [free] at present
  cases present

theorem HoldsBoxes.frame
    (same :
      ∀ m ∈ nodes,
        after.links.next m = handle.links.next m ∧ after.links.prev m = handle.links.prev m)
    (boxes : ∀ m ∈ nodes, after.boxes m = handle.boxes m) :
    HoldsBoxes after queue nodes held where
  queued := holds.queued.congr same
  boxes := by rw [List.map_congr_left boxes, holds.boxes]

end

structure HandleHolds (handle : TscmHandle α) (recvNodes transNodes : List Nat)
    (recvHeld transHeld : List (CmdBox α)) : Prop where
  recv : HoldsBoxes handle handle.recv recvNodes recvHeld
  trans : HoldsBoxes handle handle.trans transNodes transHeld
  apart : recvNodes.Disjoint transNodes

theorem HandleHolds.init : HandleHolds (TscmHandle.init α) [] [] [] [] where
  recv := ⟨.nil, rfl⟩
  trans := ⟨.nil, rfl⟩
  apart := List.disjoint_nil_left []

variable {recvNodes transNodes : List Nat} {recvHeld transHeld : List (CmdBox α)}

def TscmHandle.swap (handle : TscmHandle α) : TscmHandle α :=
  { handle with recv := handle.trans, trans := handle.recv }

section

variable (holds : HandleHolds handle recvNodes transNodes recvHeld transHeld)

include holds

theorem HandleHolds.swap : HandleHolds handle.swap transNodes recvNodes transHeld recvHeld where
  recv := ⟨holds.trans.queued, holds.trans.boxes⟩
  trans := ⟨holds.recv.queued, holds.recv.boxes⟩
  apart := holds.apart.symm

theorem HandleHolds.pushRecv (free : handle.boxes new = none)
    (small : recvHeld.length + 1 < 2 ^ 32) (box : CmdBox α) :
    HandleHolds (handle.pushRecv new box) (recvNodes ++ [new]) transNodes
      (recvHeld ++ [box]) transHeld := by
  have fresh := holds.recv.fresh free
  have freshTrans := holds.trans.fresh free
  have others :
      ∀ nodes : List Nat, new ∉ nodes →
        nodes.map (Function.update handle.boxes new (some box)) = nodes.map handle.boxes := by
    intro nodes absent
    refine List.map_congr_left fun m member => ?_
    exact Function.update_of_ne (ne_of_mem_of_not_mem member absent) _ _
  refine ⟨⟨?_, ?_⟩, ?_, ?_⟩
  · exact holds.recv.queued.append fresh (by rw [holds.recv.length]; exact small)
  · change List.map (Function.update handle.boxes new (some box)) _ = _
    rw [List.map_append, List.map_append, others recvNodes fresh, holds.recv.boxes]
    simp
  · refine holds.trans.frame (fun m member => ?_) fun m member => ?_
    · exact queueAppend_apart holds.recv.queued fresh (fun inside => holds.apart inside member)
        (ne_of_mem_of_not_mem member freshTrans)
    · exact Function.update_of_ne (ne_of_mem_of_not_mem member freshTrans) _ _
  · rw [List.disjoint_append_left]
    exact ⟨holds.apart, List.singleton_disjoint.mpr freshTrans⟩

theorem HandleHolds.pushTrans (free : handle.boxes new = none)
    (small : transHeld.length + 1 < 2 ^ 32) (box : CmdBox α) :
    HandleHolds (handle.pushTrans new box) recvNodes (transNodes ++ [new])
      recvHeld (transHeld ++ [box]) :=
  (holds.swap.pushRecv free small box).swap

end

def TscmHandle.dropRecv (handle : TscmHandle α) (node : Nat) (left : List Nat) : TscmHandle α :=
  { handle with
    links := handle.links.takeOut node
    boxes := Function.update handle.boxes node none
    recv := ⟨left.head?, left.getLast?, decrementNum handle.recv.num⟩ }

theorem HandleHolds.dropRecv {heldFront heldRest : List (CmdBox α)} {box : CmdBox α}
    (holds :
      HandleHolds handle (front ++ node :: rest) transNodes
        (heldFront ++ box :: heldRest) transHeld)
    (aligned : front.length = heldFront.length) (small : (heldFront ++ heldRest).length < 2 ^ 32) :
    HandleHolds (handle.dropRecv node (front ++ rest)) (front ++ rest)
      transNodes (heldFront ++ heldRest) transHeld := by
  have length := holds.recv.length
  have parts := List.nodup_append.mp holds.recv.queued.line.nodup
  have absent : node ∉ front ++ rest := by
    intro inside
    rcases List.mem_append.mp inside with before | behind
    · exact parts.2.2 node before node List.mem_cons_self rfl
    · exact (List.nodup_cons.mp parts.2.1).1 behind
  have absentTrans : node ∉ transNodes := fun inside =>
    holds.apart (List.mem_append_right _ List.mem_cons_self) inside
  have boxes := holds.recv.boxes
  rw [List.map_append, List.map_append, List.map_cons, List.map_cons] at boxes
  obtain ⟨boxesFront, boxesRest⟩ :=
    List.append_inj boxes (by rw [List.length_map, List.length_map, aligned])
  refine ⟨⟨?_, ?_⟩, ?_, ?_⟩
  · refine holds.recv.queued.takeOut ?_
    simp only [List.length_append, List.length_cons] at length small ⊢
    omega
  · have kept :
        (front ++ rest).map (Function.update handle.boxes node none) =
          (front ++ rest).map handle.boxes := by
      refine List.map_congr_left fun m member => ?_
      exact Function.update_of_ne (ne_of_mem_of_not_mem member absent) _ _
    change List.map (Function.update handle.boxes node none) _ = _
    rw [kept, List.map_append, List.map_append, boxesFront, (List.cons.inj boxesRest).2]
  · refine holds.trans.frame (fun m member => ?_) fun m member => ?_
    · exact holds.recv.queued.line.takeOut_apart fun inside =>
        holds.apart inside member
    · exact Function.update_of_ne (ne_of_mem_of_not_mem member absentTrans) _ _
  · intro m inside
    refine fun member => holds.apart ?_ member
    rcases List.mem_append.mp inside with before | behind
    · exact List.mem_append_left _ before
    · exact List.mem_append_right _ (List.mem_cons_of_mem node behind)

/-! ## The functions -/

theorem queueFind_eq (holds : HoldsBoxes handle queue nodes held)
    (enough : nodes.length < fuel) (cmdCode : Nat) :
    (queueFind handle cmdCode fuel nodes.head? = some none ∧
        ∀ box ∈ held, box.cmdCode ≠ cmdCode) ∨
      ∃ front node rest heldFront box heldRest,
        queueFind handle cmdCode fuel nodes.head? = some (some node) ∧
          nodes = front ++ node :: rest ∧
            held = heldFront ++ box :: heldRest ∧
              front.length = heldFront.length ∧ box.cmdCode = cmdCode := by
  have chain := holds.queued.line.forward
  have boxes := holds.boxes
  clear holds
  generalize nodes.head? = start at chain ⊢
  induction nodes generalizing start held fuel with
  | nil =>
    obtain ⟨fuel, rfl⟩ : ∃ fewer, fuel = fewer + 1 := ⟨fuel - 1, by simp at enough; omega⟩
    obtain rfl : start = none := chain
    have empty : held = [] := by simpa using boxes.symm
    subst empty
    exact .inl ⟨rfl, fun box never => (List.not_mem_nil never).elim⟩
  | cons first rest ih =>
    obtain ⟨fuel, rfl⟩ : ∃ fewer, fuel = fewer + 1 := ⟨fuel - 1, by simp at enough; omega⟩
    rw [List.length_cons] at enough
    obtain ⟨rfl, later⟩ := chain
    cases held with
    | nil => simp at boxes
    | cons box others =>
      obtain ⟨here, boxesLater⟩ := List.cons.inj boxes
      rw [queueFind, here]
      dsimp only
      by_cases same : box.cmdCode = cmdCode
      · rw [if_pos same]
        exact .inr ⟨[], first, rest, [], box, others, rfl, rfl, rfl, rfl, same⟩
      · rw [if_neg same]
        have bound : rest.length < fuel := by omega
        rcases ih bound boxesLater _ later with
          ⟨none_, absent⟩ |
          ⟨front, node, behind, heldFront, found, heldRest, sought, split, heldSplit, aligned, code⟩
        · refine .inl ⟨none_, fun other member => ?_⟩
          rcases List.mem_cons.mp member with this_ | behind
          · exact this_ ▸ same
          · exact absent other behind
        · refine .inr ⟨first :: front, node, behind, box :: heldFront, found,
            heldRest, sought, ?_, ?_, ?_, code⟩
          · rw [split]
            rfl
          · rw [heldSplit]
            rfl
          · rw [List.length_cons, List.length_cons, aligned]

def CodesDiffer (held : List (CmdBox α)) : Prop := (held.map CmdBox.cmdCode).Nodup

def withoutCode (held : List (CmdBox α)) (cmdCode : Nat) : List (CmdBox α) :=
  held.filter fun box => box.cmdCode ≠ cmdCode

theorem supersedeCmd_spec (holds : HandleHolds handle recvNodes transNodes recvHeld transHeld)
    (differ : CodesDiffer recvHeld) (enough : recvHeld.length < fuel)
    (small : recvHeld.length < 2 ^ 32) (cmdCode : Nat) :
    ∃ after nodes, supersedeCmd fuel handle cmdCode = some after ∧
      (∀ m, handle.boxes m = none → after.boxes m = none) ∧
      HandleHolds after nodes transNodes (withoutCode recvHeld cmdCode) transHeld := by
  have length := holds.recv.length
  rcases queueFind_eq holds.recv (length ▸ enough) cmdCode with
    ⟨none_, absent⟩ |
    ⟨front, node, rest, heldFront, box, heldRest, sought, rfl, rfl, aligned, code⟩
  · refine ⟨handle, recvNodes, ?_, fun _ free => free, ?_⟩
    · rw [supersedeCmd, holds.recv.queued.head, none_]
      rfl
    · have all : withoutCode recvHeld cmdCode = recvHeld :=
        List.filter_eq_self.mpr fun box member => by simp [absent box member]
      rw [all]
      exact holds
  · simp only [List.length_append, List.length_cons] at enough small length
    have left := holds.dropRecv aligned (by rw [List.length_append]; omega)
    have line := left.recv.queued.line
    have deleted :
        queueDel fuel handle.links node = some (handle.links.takeOut node, (front ++ rest).head?) :=
      queueDel_eq holds.recv.queued.line (by rw [List.length_append]; omega)
    have tail :
        queueFindTail fuel (handle.links.takeOut node) (front ++ rest).head? =
          some (front ++ rest).getLast? :=
      queueFindTail_eq line (by rw [List.length_append]; omega)
    refine ⟨handle.dropRecv node (front ++ rest), front ++ rest, ?_, ?_, ?_⟩
    · rw [supersedeCmd, holds.recv.queued.head, sought]
      simp only [Option.bind_eq_bind, Option.bind_some, deleted]
      rw [tail]
      rfl
    · intro m free
      change Function.update handle.boxes node none m = none
      by_cases same : m = node
      · rw [same, Function.update_self]
      · rw [Function.update_of_ne same, free]
    · have others : withoutCode (heldFront ++ box :: heldRest) cmdCode =
          heldFront ++ heldRest := by
        rw [CodesDiffer, List.map_append, List.map_cons] at differ
        have parts := List.nodup_append.mp differ
        have before : ∀ other ∈ heldFront, other.cmdCode ≠ cmdCode := by
          intro other member same
          exact parts.2.2 _ (List.mem_map_of_mem member) _ List.mem_cons_self (same.trans code.symm)
        have behind : ∀ other ∈ heldRest, other.cmdCode ≠ cmdCode := by
          intro other member same
          refine (List.nodup_cons.mp parts.2.1).1 ?_
          rw [code, ← same]
          exact List.mem_map_of_mem member
        rw [withoutCode, List.filter_append, List.filter_cons_of_neg (by simp [code]),
          List.filter_eq_self.mpr fun other member => by simp [before other member],
          List.filter_eq_self.mpr fun other member => by simp [behind other member]]
      rw [others]
      exact left

theorem withoutCode_length (held : List (CmdBox α)) (cmdCode : Nat) :
    (withoutCode held cmdCode).length ≤ held.length :=
  List.length_filter_le _ _

theorem CodesDiffer.withoutCode (differ : CodesDiffer held) (cmdCode : Nat) :
    CodesDiffer (withoutCode held cmdCode) :=
  differ.sublist (List.filter_sublist.map _)

theorem CodesDiffer.concat (differ : CodesDiffer held) (box : CmdBox α) :
    CodesDiffer (Tscam.withoutCode held box.cmdCode ++ [box]) := by
  rw [CodesDiffer, List.map_append, List.nodup_append]
  refine ⟨differ.withoutCode _, List.nodup_singleton _, ?_⟩
  intro code member other last same
  obtain ⟨earlier, inside, rfl⟩ := List.mem_map.mp member
  obtain rfl : other = box.cmdCode := by simpa using last
  have apart : earlier.cmdCode ≠ box.cmdCode := by simpa using (List.mem_filter.mp inside).2
  exact apart same

def heldAfter (held : List (CmdBox α)) (box : CmdBox α) : RecvResult → List (CmdBox α)
  | .full => held
  | .noMemory => withoutCode held box.cmdCode
  | .stored => withoutCode held box.cmdCode ++ [{ box with priority := .appt }]

/-- The receive queue has at most six boxes, of different codes. -/
structure RecvBounded (held : List (CmdBox α)) : Prop where
  short : held.length ≤ tscamMaxQueueSize + 1
  codes : CodesDiffer held

theorem recvCmd_held (malloc : BoxMalloc α) (box : CmdBox α)
    (holds : HandleHolds handle recvNodes transNodes recvHeld transHeld)
    (bounded : RecvBounded recvHeld) (enough : tscamMaxQueueSize + 1 < fuel) :
    ∃ after result nodes,
      recvCmd fuel handle malloc box = some (after, result) ∧
        HandleHolds after nodes transNodes (heldAfter recvHeld box result) transHeld ∧
          RecvBounded (heldAfter recvHeld box result) ∧
            (result = .full ↔ tscamMaxQueueSize < recvHeld.length) := by
  have num : handle.recv.num = recvHeld.length := holds.recv.queued.num.trans holds.recv.length
  have short := bounded.short
  unfold recvCmd
  rw [num]
  by_cases full : tscamMaxQueueSize < recvHeld.length
  · rw [if_pos full]
    exact ⟨handle, .full, recvNodes, rfl, holds, bounded, by simp [full]⟩
  · have shorter : recvHeld.length < fuel := by omega
    have small : recvHeld.length + 1 < 2 ^ 32 := by
      unfold tscamMaxQueueSize at full
      omega
    obtain ⟨left, nodes, superseded, -, leftHolds⟩ :=
      supersedeCmd_spec holds bounded.codes shorter (Nat.lt_of_succ_lt small) box.cmdCode
    have fewer := withoutCode_length recvHeld box.cmdCode
    rw [if_neg full, superseded, Option.bind_eq_bind, Option.bind_some]
    cases answered : malloc.answer left.boxes with
    | none =>
      refine ⟨left, .noMemory, nodes, rfl, leftHolds, ?_, by simpa using full⟩
      exact ⟨by simp only [heldAfter]; omega, bounded.codes.withoutCode _⟩
    | some new =>
      have pushed :=
        leftHolds.pushRecv (malloc.free _ _ answered) (by omega)
          { box with priority := .appt }
      refine ⟨_, .stored, nodes ++ [new], rfl, pushed, ?_, by simpa using full⟩
      refine ⟨?_, bounded.codes.concat { box with priority := .appt }⟩
      simp only [heldAfter, List.length_append, List.length_singleton]
      omega

theorem tscamCmdFetch_spec (holds : HandleHolds handle recvNodes transNodes recvHeld transHeld)
    (enough : recvHeld.length ≤ fuel) (small : recvHeld.length < 2 ^ 32) :
    ∃ after nodes,
      tscamCmdFetch fuel handle = some (after, recvHeld.head?) ∧
        HandleHolds after nodes transNodes recvHeld.tail transHeld := by
  have length := holds.recv.length
  have boxes := holds.recv.boxes
  cases recvHeld with
  | nil =>
    obtain rfl : recvNodes = [] := List.length_eq_zero_iff.mp length
    refine ⟨handle, [], ?_, holds⟩
    simp [tscamCmdFetch, queueTake_nil holds.recv.queued]
  | cons box rest =>
    obtain ⟨node, others, rfl⟩ := List.exists_cons_of_length_eq_add_one length
    obtain ⟨here, -⟩ := List.cons.inj boxes
    simp only [List.length_cons] at length enough small
    have split :
        HandleHolds handle ([] ++ node :: others) transNodes ([] ++ box :: rest) transHeld := holds
    have dropped := split.dropRecv rfl (by simp; omega)
    have shorter : others.length < fuel := by omega
    refine ⟨handle.dropRecv node others, others, ?_, dropped⟩
    simp [tscamCmdFetch, queueTake_cons holds.recv.queued shorter, here, TscmHandle.dropRecv]

end

end IteSdk.Tscam
