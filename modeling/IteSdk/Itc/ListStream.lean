import Mathlib.Data.Int.Basic
import IteSdk.Itc.Stream

/-!
# The list stream

`itc_liststream.c`: a FIFO of bytes in a chain of nodes that grows at its end.
Pointers are the order in which `malloc` handed the nodes out; a function is
`none` where an assertion fails or a pointer is not one.
-/

namespace IteSdk.Itc

open Lib

/-- An `int` or `long` of 32 bits. -/
def int32 (value : Int) : Int := value.bmod (2 ^ 32)

structure ITCListNode where
  prev : Option Nat
  next : Option Nat
  data : List UInt8
  deriving DecidableEq

/-- `eof` and `size` are fields of the base stream; the root is the first
node. -/
structure ITCListStream where
  eof : Bool
  size : Int
  nodes : List ITCListNode
  datasize : Nat
  readnode : Nat
  readindex : Int
  readpos : Nat
  writenode : Nat
  writeindex : Int
  writepos : Nat
  deriving DecidableEq

/-- What `malloc` finds in the memory of the data of a node. -/
def freshData (fill : Nat → Nat → UInt8) (node datasize : Nat) : List UInt8 :=
  (List.range datasize).map (fill node)

def itcListStreamOpen (fill : Nat → Nat → UInt8) (datasize : Nat) : ITCListStream where
  eof := true
  size := 0
  nodes := [⟨none, none, freshData fill 0 datasize⟩]
  datasize := datasize
  readnode := 0
  readindex := 0
  readpos := 0
  writenode := 0
  writeindex := 0
  writepos := 0

namespace ITCListStream

/-- The bytes up to the end of the node or of the stream; the assertion is that
the read position has not passed the write position. -/
def availsize (ls : ITCListStream) : Option Nat :=
  if ls.readnode = ls.writenode then
    if ls.readpos ≤ ls.writepos then some (ls.writepos - ls.readpos) else none
  else
    some (ls.datasize - ls.readpos)

/-- Move the read position on, to the next node at the end of one. -/
def forward (ls : ITCListStream) (count : Nat) : Option ITCListStream :=
  let ls := { ls with readpos := ls.readpos + count }
  if ls.readnode ≠ ls.writenode ∧ ls.readpos = ls.datasize then do
    let node ← ls.nodes[ls.readnode]?
    let next ← node.next
    some
      { ls with
        readnode := next
        readindex := int32 (ls.readindex + 1)
        readpos := 0 }
  else
    some ls

/-- The loop of `ListStreamRead`.  The loop that `ListStreamSeek` goes forward
with is the same without the copying. -/
def readLoop : Nat → Nat → ITCListStream → Option (List UInt8 × ITCListStream)
  | 0, _, _ => none
  | fuel + 1, remainsize, ls =>
    if remainsize = 0 then
      some ([], ls)
    else do
      let availsize ← ls.availsize
      if ls.readnode = ls.writenode ∧ ls.readpos = ls.writepos then
        some ([], { ls with eof := true })
      else do
        let readsize := min remainsize availsize
        let node ← ls.nodes[ls.readnode]?
        let moved ← ls.forward readsize
        let rest ← readLoop fuel (remainsize - readsize) moved
        some (slice ls.readpos readsize node.data ++ rest.1, rest.2)

/-- The stream with a new node behind `node`, the last one. -/
def grown (fill : Nat → Nat → UInt8) (ls : ITCListStream) (node : ITCListNode) : ITCListStream :=
  let new := ls.nodes.length
  { ls with
    nodes :=
      ls.nodes.set ls.writenode { node with next := some new } ++
        [⟨some ls.writenode, none, freshData fill new ls.datasize⟩]
    writenode := new
    writeindex := int32 (ls.writeindex + 1)
    writepos := 0 }

/-- Go to a new node; the assertion is that the last one has no next one. -/
def grow (fill : Nat → Nat → UInt8) (ls : ITCListStream) : Option ITCListStream := do
  let node ← ls.nodes[ls.writenode]?
  if node.next = none then some (ls.grown fill node) else none

def room (fill : Nat → Nat → UInt8) (ls : ITCListStream) : Option ITCListStream :=
  if ls.writepos = ls.datasize then ls.grow fill else some ls

/-- The stream with bytes copied to the write position, which is in `node`. -/
def stored (ls : ITCListStream) (node : ITCListNode) (bytes : List UInt8) : ITCListStream :=
  { ls with
    nodes :=
      ls.nodes.set ls.writenode
        { node with data := overwrite ls.writepos bytes node.data }
    writepos := ls.writepos + bytes.length }

def store (ls : ITCListStream) (bytes : List UInt8) : Option ITCListStream := do
  let node ← ls.nodes[ls.writenode]?
  some (ls.stored node bytes)

def writeLoop (fill : Nat → Nat → UInt8) : Nat → List UInt8 → ITCListStream → Option ITCListStream
  | 0, _, _ => none
  | fuel + 1, buf, ls =>
    if buf = [] then
      some ls
    else do
      let ls ← ls.room fill
      let writesize := min buf.length (ls.datasize - ls.writepos)
      let ls ← ls.store (buf.take writesize)
      writeLoop fill fuel (buf.drop writesize) ls

/-- `node = node->next`, some number of times. -/
def walk (ls : ITCListStream) : Nat → Nat → Option Nat
  | 0, node => some node
  | count + 1, node => do
      let found ← ls.nodes[node]?
      let next ← found.next
      walk ls count next

/-- One step to the node before, from the start of a node that is not the
first. -/
def stepBack (ls : ITCListStream) : Option ITCListStream := do
  let node ← ls.nodes[ls.readnode]?
  match node.prev with
  | none => if ls.readindex = 0 then some ls else none
  | some prev =>
    if ls.readpos = 0 then
      if 0 < ls.readindex then
        some
          { ls with
            readnode := prev
            readindex := int32 (ls.readindex - 1)
            readpos := ls.datasize }
      else
        none
    else
      some ls

def backLoop : Nat → Nat → ITCListStream → Option ITCListStream
  | 0, _, _ => none
  | fuel + 1, remainsize, ls =>
    if remainsize = 0 then
      some ls
    else do
      let ls ← ls.stepBack
      if ls.readpos = 0 then
        some ls
      else
        let offsetsize := min remainsize ls.readpos
        backLoop fuel (remainsize - offsetsize) { ls with readpos := ls.readpos - offsetsize }

end ITCListStream

/-- `ListStreamRead`; a negative size is treated like zero. -/
def listStreamRead (ls : ITCListStream) (size : Int) : Option (List UInt8 × ITCListStream) :=
  if ls.eof = true then
    some ([], ls)
  else
    ls.readLoop (size.toNat + ls.nodes.length + 1) size.toNat

/-- `ListStreamWrite` when no allocation fails. -/
def listStreamWrite (fill : Nat → Nat → UInt8) (ls : ITCListStream)
    (buf : List UInt8) : Option ITCListStream := do
  let ls ← ITCListStream.writeLoop fill (buf.length + 1) buf ls
  if 0 < buf.length then
    some { ls with eof := false, size := int32 (ls.size + buf.length) }
  else
    some ls

def listStreamTell (ls : ITCListStream) : Int := int32 (ls.datasize * ls.readindex + ls.readpos)

def listStreamAvailable (ls : ITCListStream) : Int :=
  int32 (ls.datasize * ls.writeindex + ls.writepos - (ls.datasize * ls.readindex + ls.readpos))

/-- `SEEK_SET`. -/
def seekFromStart (ls : ITCListStream) (offset : Int) : Option (Int × ITCListStream) :=
  if 0 ≤ offset ∧ offset < ls.size then do
    let index := offset.toNat / ls.datasize
    let pos := offset.toNat % ls.datasize
    if (index : Int) ≤ ls.writeindex then
      let node ← ls.walk index 0
      let ls := { ls with readindex := index, readpos := pos, readnode := node }
      if ls.readnode = ls.writenode then
        if ls.readpos ≤ ls.writepos then
          some
            (0,
              { ls with
                eof := if ls.readpos = ls.writepos then true else ls.eof })
        else
          none
      else
        some (0, ls)
    else
      none
  else
    some (-1, ls)

/-- `SEEK_CUR`. -/
def seekFromHere (ls : ITCListStream) (offset : Int) : Option (Int × ITCListStream) :=
  let target := int32 (ls.readindex * ls.datasize + ls.readpos + offset)
  if 0 ≤ offset then
    if target < ls.size then do
      let moved ← ls.readLoop (offset.toNat + ls.nodes.length + 1) offset.toNat
      some (0, moved.2)
    else
      some (-1, ls)
  else if 0 ≤ target then do
    let moved ← ls.backLoop ((-offset).toNat + 1) (-offset).toNat
    some (0, moved)
  else
    some (-1, ls)

/-- `SEEK_END`. -/
def seekFromEnd (ls : ITCListStream) (offset : Int) : Option (Int × ITCListStream) :=
  if offset ≤ 0 ∧ 0 ≤ int32 (ls.size + offset) then do
    let start :=
      { ls with
        readnode := ls.writenode
        readindex := ls.writeindex
        readpos := ls.writepos }
    let moved ← start.backLoop ((-offset).toNat + 1) (-offset).toNat
    some (0, moved)
  else
    some (-1, ls)

/-- `ListStreamSeek`: the result and the stream. -/
def listStreamSeek (ls : ITCListStream) (offset : Int) : SeekOrigin → Option (Int × ITCListStream)
  | .seekSet => seekFromStart ls offset
  | .seekCur => seekFromHere ls offset
  | .seekEnd => seekFromEnd ls offset

end IteSdk.Itc
