import IteSdk.Itc.ListStream
import IteSdk.Lib.Blocks
import IteSdk.Lib.Transition

/-!
# The list stream as a FIFO

The bytes written so far are the blocks of the chain, the last one up to the
write position; the read position is a place in them.
-/

namespace IteSdk.Itc

open Lib

theorem int32_add_left (left right : Int) : int32 (int32 left + right) = int32 (left + right) :=
  Int.bmod_add_bmod

theorem int32_sub_left (left right : Int) : int32 (int32 left - right) = int32 (left - right) :=
  Int.bmod_sub_bmod

theorem int32_sub_right (left right : Int) : int32 (left - int32 right) = int32 (left - right) :=
  Int.sub_bmod_bmod

theorem int32_mul_right (left right : Int) : int32 (left * int32 right) = int32 (left * right) :=
  Int.mul_bmod_bmod

theorem int32_zero : int32 0 = 0 := Int.zero_bmod

theorem int32_of_fits {value : Int} (least : -2 ^ 31 ≤ value)
    (most : value < 2 ^ 31) : int32 value = value := by
  unfold int32
  rw [Int.bmod_eq_iff (by decide)]
  omega

theorem int32_natCast {value : Nat} (fits : value < 2 ^ 31) : int32 value = value :=
  int32_of_fits (by omega) (by omega)

/-- The pointers of the nodes, by the order in which they were put in. -/
structure Chained (nodes : List ITCListNode) : Prop where
  prev :
    ∀ index node, nodes[index]? = some node →
      node.prev = if index = 0 then none else some (index - 1)
  next :
    ∀ index node, nodes[index]? = some node →
      node.next = if index + 1 < nodes.length then some (index + 1) else none

namespace ITCListStream

def blocks (ls : ITCListStream) : List (List UInt8) := ls.nodes.map ITCListNode.data

def readOffset (ls : ITCListStream) : Nat := ls.readnode * ls.datasize + ls.readpos

/-- The chain holds the bytes that were written so far, and both positions are
places in it. -/
structure Linked (ls : ITCListStream) (written : List UInt8) : Prop where
  positive : 0 < ls.datasize
  uniform : Uniform ls.datasize ls.blocks
  chained : Chained ls.nodes
  last : ls.nodes.length = ls.writenode + 1
  writeInside : ls.writepos ≤ ls.datasize
  readInside : ls.readpos ≤ ls.datasize
  ordered : ls.readnode ≤ ls.writenode
  total : written.length = ls.writenode * ls.datasize + ls.writepos
  content : ls.blocks.flatten.take written.length = written
  behind : ls.readOffset ≤ written.length
  readindex : ls.readindex = int32 ls.readnode
  writeindex : ls.writeindex = int32 ls.writenode

structure Sound (ls : ITCListStream) (written : List UInt8) : Prop
    extends Linked ls written where
  size : ls.size = int32 written.length

theorem sound_open (fill : Nat → Nat → UInt8) {datasize : Nat}
    (positive : 0 < datasize) : Sound (itcListStreamOpen fill datasize) [] where
  positive := positive
  uniform := by
    intro block member
    simp only [itcListStreamOpen, blocks, List.map_cons, List.map_nil, List.mem_singleton] at member
    simp [member, freshData, itcListStreamOpen]
  chained := by
    constructor
    all_goals
      intro index node found
      cases index with
      | zero =>
        simp only [itcListStreamOpen, List.getElem?_cons_zero, Option.some.injEq] at found
        simp [← found, itcListStreamOpen]
      | succ index => simp [itcListStreamOpen] at found
  last := rfl
  writeInside := Nat.zero_le _
  readInside := Nat.zero_le _
  ordered := Nat.le_refl _
  total := by simp [itcListStreamOpen]
  content := rfl
  behind := by simp [itcListStreamOpen, readOffset]
  readindex := int32_zero.symm
  writeindex := int32_zero.symm
  size := int32_zero.symm

section Reading

variable {ls : ITCListStream} {written : List UInt8}

theorem Linked.next_start (linked : Linked ls written) (earlier : ls.readnode ≠ ls.writenode) :
    (ls.readnode + 1) * ls.datasize ≤ ls.writenode * ls.datasize :=
  Nat.mul_le_mul_right _ (Nat.lt_of_le_of_ne linked.ordered earlier)

theorem Linked.readpos_le (linked : Linked ls written)
    (same : ls.readnode = ls.writenode) : ls.readpos ≤ ls.writepos := by
  have behind := linked.behind
  rw [linked.total, readOffset, same] at behind
  omega

theorem Linked.node (linked : Linked ls written) {index : Nat}
    (inside : index ≤ ls.writenode) : ∃ node, ls.nodes[index]? = some node :=
  ⟨_, List.getElem?_eq_getElem (by rw [linked.last]; omega)⟩

theorem blocks_getElem? {index : Nat} {node : ITCListNode} (found : ls.nodes[index]? = some node) :
    ls.blocks[index]? = some node.data := by
  rw [blocks, List.getElem?_map, found, Option.map_some]

theorem Linked.slice_node (linked : Linked ls written)
    {index offset count : Nat} {node : ITCListNode} (found : ls.nodes[index]? = some node)
    (inside : offset + count ≤ ls.datasize)
    (within : index * ls.datasize + offset + count ≤ written.length) :
    slice offset count node.data = slice (index * ls.datasize + offset) count written := by
  rw [← slice_flatten linked.uniform (blocks_getElem? found) inside]
  conv =>
    rhs
    rw [← linked.content]
  rw [slice, slice, List.drop_take, List.take_take, Nat.min_eq_left (by omega)]

section

variable (sound : Sound ls written)

include sound

theorem Sound.move {node pos : Nat} {index : Int} (inside : pos ≤ ls.datasize)
    (ordered : node ≤ ls.writenode) (behind : node * ls.datasize + pos ≤ written.length)
    (counted : index = int32 node) :
    Sound { ls with readnode := node, readindex := index, readpos := pos } written :=
  { sound with
    readInside := inside
    ordered := ordered
    behind := behind
    readindex := counted }

theorem forward_spec {count : Nat} (inside : ls.readpos + count ≤ ls.datasize)
    (within : ls.readOffset + count ≤ written.length) :
    ∃ after, ls.forward count = some after ∧ Sound after written ∧
      after.readOffset = ls.readOffset + count ∧ after.eof = ls.eof ∧
        after.nodes = ls.nodes ∧
          after.readnode =
            if ls.readnode ≠ ls.writenode ∧ ls.readpos + count = ls.datasize then
              ls.readnode + 1
            else
              ls.readnode := by
  unfold readOffset at within ⊢
  by_cases crosses :
      ls.readnode ≠ ls.writenode ∧ ls.readpos + count = ls.datasize
  · obtain ⟨earlier, ends⟩ := crosses
    obtain ⟨node, found⟩ := sound.node sound.ordered
    have ordered := sound.ordered
    have start := sound.next_start earlier
    have next : node.next = some (ls.readnode + 1) := by
      rw [sound.chained.next _ _ found, if_pos (by rw [sound.last]; omega)]
    refine ⟨{ ls with
      readnode := ls.readnode + 1
      readindex := int32 (ls.readindex + 1)
      readpos := 0 }, ?_, sound.move (Nat.zero_le _) (by omega) ?_ ?_,
      ?_, rfl, rfl, ?_⟩
    · simp only [forward, ends, ne_eq, earlier, not_false_eq_true, and_self,
        if_true, found, next, Option.bind_eq_bind, Option.bind_some]
    · rw [sound.total]
      omega
    · rw [sound.readindex, int32_add_left, Nat.cast_succ]
    · dsimp only
      rw [Nat.succ_mul]
      omega
    · rw [if_pos ⟨earlier, ends⟩]
  · have behind :
        ls.readnode * ls.datasize + (ls.readpos + count) ≤ written.length := by
      omega
    refine ⟨{ ls with readpos := ls.readpos + count }, ?_,
      sound.move inside sound.ordered behind sound.readindex, ?_, rfl, rfl, ?_⟩
    · rw [forward, if_neg crosses]
    · exact (Nat.add_assoc _ _ _).symm
    · rw [if_neg crosses]

theorem availsize_spec :
    ∃ count, ls.availsize = some count ∧ ls.readpos + count ≤ ls.datasize ∧
      ls.readOffset + count ≤ written.length ∧
        (ls.readnode = ls.writenode → ls.readOffset + count = written.length) ∧
          (ls.readnode ≠ ls.writenode → ls.readpos + count = ls.datasize) := by
  have writeInside := sound.writeInside
  have readInside := sound.readInside
  by_cases last : ls.readnode = ls.writenode
  · have readpos := sound.readpos_le last
    refine ⟨ls.writepos - ls.readpos, ?_, by omega, ?_, fun _ => ?_,
      fun earlier => absurd last earlier⟩
    · rw [availsize, if_pos last, if_pos readpos]
    all_goals
      rw [readOffset, sound.total, last]
      omega
  · have start := sound.next_start last
    rw [Nat.succ_mul] at start
    refine ⟨ls.datasize - ls.readpos, ?_, by omega, ?_,
      fun same => absurd same last, fun _ => by omega⟩
    · rw [availsize, if_neg last]
    · rw [readOffset, sound.total]
      omega

theorem readLoop_spec {fuel remainsize : Nat}
    (enough : remainsize + (ls.nodes.length - ls.readnode) < fuel) :
    ∃ after,
      ls.readLoop fuel remainsize = some ((written.drop ls.readOffset).take remainsize, after) ∧
        Sound after written ∧
          after.readOffset = min (ls.readOffset + remainsize) written.length ∧
            after.eof = (ls.eof || decide (written.length < ls.readOffset + remainsize)) := by
  induction fuel generalizing ls remainsize with
  | zero => omega
  | succ fuel ih =>
    have behind := sound.behind
    by_cases none : remainsize = 0
    · refine ⟨ls, ?_, sound, ?_, ?_⟩
      · rw [readLoop, if_pos none, none, List.take_zero]
      · omega
      · rw [none, Nat.add_zero, decide_eq_false (by omega), Bool.or_false]
    obtain ⟨count, available, inside, within, atLast, atEarlier⟩ := availsize_spec sound
    by_cases drained : ls.readnode = ls.writenode ∧ ls.readpos = ls.writepos
    · obtain ⟨last, meets⟩ := drained
      have all : ls.readOffset = written.length := by rw [readOffset, sound.total, last, meets]
      refine ⟨{ ls with eof := true }, ?_, { sound with }, ?_, ?_⟩
      · rw [readLoop, if_neg none, available, all, List.drop_length, List.take_nil]
        simp only [Option.bind_eq_bind, Option.bind_some, last, meets, and_self, if_true]
      · change ls.readOffset = _
        omega
      · rw [decide_eq_true (by omega), Bool.or_true]
    · obtain ⟨node, found⟩ := sound.node sound.ordered
      have fits : ls.readpos + min remainsize count ≤ ls.datasize := by omega
      have reaches :
          ls.readOffset + min remainsize count ≤ written.length := by
        omega
      obtain ⟨moved, movedEq, movedSound, offset, eof, nodes, movedNode⟩ :=
        forward_spec sound fits reaches
      have progress :
          remainsize - min remainsize count + (moved.nodes.length - moved.readnode) < fuel := by
        have last := sound.last
        have ordered := sound.ordered
        rw [nodes, movedNode]
        by_cases empty : count = 0
        · have earlier : ls.readnode ≠ ls.writenode := by
            intro same
            have readpos := sound.readpos_le same
            have all := atLast same
            rw [readOffset, sound.total, same] at all
            exact drained ⟨same, by omega⟩
          rw [if_pos ⟨earlier, by have := atEarlier earlier; omega⟩, empty, Nat.min_zero]
          clear inside within atLast atEarlier
          omega
        · have some : 0 < min remainsize count :=
            Nat.lt_min.mpr ⟨Nat.pos_of_ne_zero none, Nat.pos_of_ne_zero empty⟩
          have less : remainsize - min remainsize count < remainsize :=
            Nat.sub_lt (Nat.pos_of_ne_zero none) some
          refine Nat.lt_of_lt_of_le (Nat.add_lt_add_of_lt_of_le less ?_) (Nat.le_of_lt_succ enough)
          split
          · exact Nat.sub_le_sub_left (Nat.le_succ _) _
          · exact Nat.le_refl _
      obtain ⟨after, rest, afterSound, afterOffset, afterEof⟩ := ih movedSound progress
      have first :
          slice ls.readpos (min remainsize count) node.data =
            slice ls.readOffset (min remainsize count) written :=
        sound.slice_node found fits reaches
      have least : min remainsize count ≤ remainsize := Nat.min_le_left _ _
      clear inside within atLast atEarlier progress fits behind enough
      refine ⟨after, ?_, afterSound, ?_, ?_⟩
      · rw [readLoop, if_neg none, available]
        simp only [Option.bind_eq_bind, Option.bind_some, if_neg drained,
          found, movedEq, rest, first, offset]
        rw [← slice, ← slice_add, Nat.add_sub_cancel' (Nat.min_le_left _ _), slice]
      · rw [afterOffset, offset]
        omega
      · have same :
            ls.readOffset + min remainsize count + (remainsize - min remainsize count) =
              ls.readOffset + remainsize := by
          omega
        rw [afterEof, eof, offset, same]

end

end Reading

/-! ## Writing -/

section Writing

variable {ls : ITCListStream} {written : List UInt8}

variable {α : Type}

theorem getElem?_set_cases {items : List α} {index other : Nat} {item found : α}
    (look : (items.set index item)[other]? = some found) :
    (other = index ∧ found = item) ∨ (other ≠ index ∧ items[other]? = some found) := by
  rw [List.getElem?_set] at look
  split at look
  case isTrue same =>
    split at look
    · exact Or.inl ⟨same.symm, (Option.some.inj look).symm⟩
    · exact nomatch look
  case isFalse different => exact Or.inr ⟨Ne.symm different, look⟩

variable {nodes : List ITCListNode}

theorem chained_set {node changed : ITCListNode} {index : Nat} (chained : Chained nodes)
    (found : nodes[index]? = some node) (prev : changed.prev = node.prev)
    (next : changed.next = node.next) :
    Chained (nodes.set index changed) where
  prev := by
    intro other otherNode look
    rcases getElem?_set_cases look with ⟨rfl, rfl⟩ | ⟨-, old⟩
    · rw [prev, chained.prev _ _ found]
    · exact chained.prev _ _ old
  next := by
    intro other otherNode look
    rw [List.length_set]
    rcases getElem?_set_cases look with ⟨rfl, rfl⟩ | ⟨-, old⟩
    · rw [next, chained.next _ _ found]
    · exact chained.next _ _ old

variable {node : ITCListNode}

theorem chained_append {index : Nat} (chained : Chained nodes) (found : nodes[index]? = some node)
    (last : nodes.length = index + 1) (data : List UInt8) :
    Chained
      (nodes.set index { node with next := some nodes.length } ++ [⟨some index, none, data⟩]) where
  prev := by
    intro other otherNode look
    rcases getElem?_concat_cases look with old | ⟨rfl, rfl⟩
    · rcases getElem?_set_cases old with ⟨rfl, rfl⟩ | ⟨-, older⟩
      · exact chained.prev other node found
      · exact chained.prev _ _ older
    · rw [List.length_set, last, if_neg (by omega), Nat.add_sub_cancel]
  next := by
    intro other otherNode look
    rw [List.length_append, List.length_set, List.length_singleton]
    rcases getElem?_concat_cases look with old | ⟨rfl, rfl⟩
    · rcases getElem?_set_cases old with ⟨rfl, rfl⟩ | ⟨different, older⟩
      · rw [last, if_pos (by omega)]
      · have inside := (List.getElem?_eq_some_iff.mp older).1
        rw [chained.next _ _ older, if_pos (by omega), if_pos (by omega)]
    · rw [List.length_set, if_neg (by omega)]

theorem length_flatten_blocks (linked : Linked ls written) :
    ls.blocks.flatten.length = (ls.writenode + 1) * ls.datasize := by
  rw [length_flatten_uniform linked.uniform, blocks, List.length_map, linked.last]

theorem blocks_grown (fill : Nat → Nat → UInt8) (found : ls.nodes[ls.writenode]? = some node) :
    (ls.grown fill node).blocks = ls.blocks ++ [freshData fill ls.nodes.length ls.datasize] := by
  have same : ls.blocks.set ls.writenode node.data = ls.blocks := by
    obtain ⟨inside, item⟩ := List.getElem?_eq_some_iff.mp (blocks_getElem? found)
    rw [← item, List.set_getElem_self]
  rw [blocks, grown, List.map_append, List.map_set, ← blocks, same]
  rfl

theorem grown_linked (fill : Nat → Nat → UInt8) (linked : Linked ls written)
    (full : ls.writepos = ls.datasize) (found : ls.nodes[ls.writenode]? = some node) :
    Linked (ls.grown fill node) written := by
  have capacity := length_flatten_blocks linked
  have total := linked.total
  rw [full, ← Nat.succ_mul, Nat.succ_eq_add_one] at total
  exact
    { positive := linked.positive
      uniform := by
        rw [blocks_grown fill found]
        intro block member
        rcases List.mem_append.mp member with old | new
        · exact linked.uniform block old
        · rw [List.mem_singleton.mp new, freshData, List.length_map, List.length_range]
          rfl
      chained := chained_append linked.chained found linked.last _
      last := by rw [grown, List.length_append, List.length_set, List.length_singleton]
      writeInside := Nat.zero_le _
      readInside := linked.readInside
      ordered := by
        have ordered := linked.ordered
        have last := linked.last
        dsimp only [grown]
        omega
      total := by
        dsimp only [grown]
        rw [total, linked.last]
        rfl
      content := by
        rw [blocks_grown fill found, List.flatten_append, List.take_append_of_le_length (by omega)]
        exact linked.content
      behind := linked.behind
      readindex := linked.readindex
      writeindex := by
        dsimp only [grown]
        rw [linked.writeindex, int32_add_left, linked.last, Nat.cast_succ] }

theorem grow_spec (fill : Nat → Nat → UInt8) (linked : Linked ls written)
    (full : ls.writepos = ls.datasize) :
    ∃ node, ls.grow fill = some (ls.grown fill node) ∧ Linked (ls.grown fill node) written := by
  obtain ⟨node, found⟩ := linked.node (Nat.le_refl _)
  have ends : node.next = none := by
    rw [linked.chained.next _ _ found, if_neg (by rw [linked.last]; omega)]
  refine ⟨node, ?_, grown_linked fill linked full found⟩
  rw [grow, found]
  exact if_pos ends

theorem take_overwrite_end {offset : Nat} {data memory : List α} (inside : offset ≤ memory.length) :
    (overwrite offset data memory).take (offset + data.length) = memory.take offset ++ data := by
  rw [overwrite]
  apply List.take_left'
  rw [List.length_append, List.length_take, Nat.min_eq_left inside]

theorem stored_linked (linked : Linked ls written) {bytes : List UInt8}
    (fits : ls.writepos + bytes.length ≤ ls.datasize)
    (found : ls.nodes[ls.writenode]? = some node) :
    Linked (ls.stored node bytes) (written ++ bytes) := by
  have block := blocks_getElem? found
  have capacity := length_flatten_blocks linked
  have total := linked.total
  rw [Nat.succ_mul] at capacity
  have storedBlocks :
      (ls.stored node bytes).blocks =
        ls.blocks.set ls.writenode (overwrite ls.writepos bytes node.data) := by
    rw [blocks, stored, List.map_set]
    rfl
  have nodeLength : node.data.length = ls.datasize := linked.uniform _ (List.mem_of_getElem? block)
  exact
    { positive := linked.positive
      uniform := by
        rw [storedBlocks]
        apply uniform_set linked.uniform
        rw [length_overwrite (by omega), nodeLength]
      chained := chained_set linked.chained found rfl rfl
      last := by
        rw [stored, List.length_set]
        exact linked.last
      writeInside := fits
      readInside := linked.readInside
      ordered := linked.ordered
      total := by
        dsimp only [stored]
        rw [List.length_append, total, Nat.add_assoc]
      content := by
        rw [storedBlocks, flatten_set linked.uniform block fits, ← total,
          List.length_append, take_overwrite_end (by omega), linked.content]
      behind := by
        rw [List.length_append]
        exact Nat.le_add_right_of_le linked.behind
      readindex := linked.readindex
      writeindex := linked.writeindex }

theorem room_spec (fill : Nat → Nat → UInt8) (linked : Linked ls written) :
    ∃ after, ls.room fill = some after ∧ Linked after written ∧
      after.writepos < after.datasize ∧ after.readOffset = ls.readOffset ∧
        after.eof = ls.eof ∧ after.size = ls.size := by
  by_cases full : ls.writepos = ls.datasize
  · obtain ⟨node, grown, grownLinked⟩ := grow_spec fill linked full
    refine ⟨ls.grown fill node, ?_, grownLinked, linked.positive, rfl, rfl, rfl⟩
    rw [room, if_pos full, grown]
  · refine ⟨ls, if_neg full, linked, ?_, rfl, rfl, rfl⟩
    exact Nat.lt_of_le_of_ne linked.writeInside full

theorem writeLoop_spec (fill : Nat → Nat → UInt8) (linked : Linked ls written)
    {fuel : Nat} {buf : List UInt8} (enough : buf.length < fuel) :
    ∃ after, writeLoop fill fuel buf ls = some after ∧
      Linked after (written ++ buf) ∧ after.readOffset = ls.readOffset ∧
        after.eof = ls.eof ∧ after.size = ls.size := by
  induction fuel generalizing ls written buf with
  | zero => omega
  | succ fuel ih =>
    by_cases none : buf = []
    · refine ⟨ls, ?_, ?_, rfl, rfl, rfl⟩
      · rw [writeLoop, if_pos none]
      · rw [none, List.append_nil]
        exact linked
    have some : 0 < buf.length := List.length_pos_iff.mpr none
    obtain ⟨room, roomEq, roomLinked, space, offset, eof, size⟩ := room_spec fill linked
    obtain ⟨node, found⟩ := roomLinked.node (Nat.le_refl _)
    let writesize := min buf.length (room.datasize - room.writepos)
    have taken : (buf.take writesize).length = writesize := by
      rw [List.length_take]
      exact Nat.min_eq_left (Nat.min_le_left _ _)
    have fits : room.writepos + (buf.take writesize).length ≤ room.datasize := by omega
    have shorter : (buf.drop writesize).length < fuel := by
      rw [List.length_drop]
      omega
    obtain ⟨after, rest, afterLinked, afterOffset, afterEof, afterSize⟩ :=
      ih (stored_linked roomLinked fits found) shorter
    refine ⟨after, ?_, ?_, afterOffset.trans offset, afterEof.trans eof, afterSize.trans size⟩
    · rw [writeLoop, if_neg none, roomEq]
      simp only [Option.bind_eq_bind, Option.bind_some, store, found]
      exact rest
    · rw [List.append_assoc, List.take_append_drop] at afterLinked
      exact afterLinked

end Writing

end ITCListStream

open ITCListStream

/-- The end-of-file flag is only set where everything was read. -/
def Honest (ls : ITCListStream) (written : List UInt8) : Prop :=
  ls.eof = true → ls.readOffset = written.length

section Calls

variable {ls : ITCListStream} {written : List UInt8}

theorem listStreamRead_spec (sound : Sound ls written) (honest : Honest ls written) (size : Int) :
    ∃ after,
      listStreamRead ls size = some ((written.drop ls.readOffset).take size.toNat, after) ∧
        Sound after written ∧ Honest after written ∧
          after.readOffset = min (ls.readOffset + size.toNat) written.length := by
  have behind := sound.behind
  cases eof : ls.eof with
  | true =>
    have drained := honest eof
    refine ⟨ls, ?_, sound, honest, by omega⟩
    rw [listStreamRead, if_pos eof, drained, List.drop_length, List.take_nil]
  | false =>
    obtain ⟨after, read, afterSound, offset, afterEof⟩ :=
      readLoop_spec sound (Nat.lt_succ_of_le (Nat.add_le_add_left (Nat.sub_le _ ls.readnode) _))
    refine ⟨after, ?_, afterSound, ?_, offset⟩
    · rw [listStreamRead, if_neg (by rw [eof]; decide), read]
    · intro set
      rw [set, eof, Bool.false_or] at afterEof
      have short := of_decide_eq_true afterEof.symm
      omega

theorem listStreamWrite_spec (fill : Nat → Nat → UInt8)
    (sound : Sound ls written) (buf : List UInt8) :
    ∃ after, listStreamWrite fill ls buf = some after ∧
      Sound after (written ++ buf) ∧
        (Honest ls written → Honest after (written ++ buf)) ∧ after.readOffset = ls.readOffset := by
  obtain ⟨after, loop, linked, offset, eof, size⟩ :=
    writeLoop_spec fill sound.toLinked (Nat.lt_succ_self buf.length)
  by_cases some : 0 < buf.length
  · refine ⟨{ after with eof := false, size := int32 (after.size + buf.length) },
      ?_, ⟨{ linked with }, ?_⟩, fun _ => nofun, offset⟩
    · rw [listStreamWrite, loop]
      exact if_pos some
    · dsimp only
      rw [size, sound.size, int32_add_left, List.length_append, Nat.cast_add]
  · have none : buf = [] := List.length_eq_zero_iff.mp (by omega)
    subst none
    rw [List.append_nil] at linked ⊢
    refine ⟨after, ?_, ⟨linked, ?_⟩, ?_, offset⟩
    · rw [listStreamWrite, loop]
      rfl
    · rw [size, sound.size]
    · intro honest set
      rw [offset]
      exact honest (eof.symm.trans set)

theorem int32_place (datasize node pos : Nat) :
    int32 (datasize * int32 node + pos) = int32 ((node * datasize + pos : Nat) : Int) := by
  rw [← int32_add_left, int32_mul_right, int32_add_left, Nat.cast_add,
    Nat.cast_mul, mul_comm (node : Int)]

theorem listStreamTell_eq (linked : Linked ls written) :
    listStreamTell ls = int32 ls.readOffset := by
  rw [listStreamTell, linked.readindex, int32_place, readOffset]

theorem listStreamAvailable_eq (linked : Linked ls written) :
    listStreamAvailable ls = int32 (written.length - ls.readOffset) := by
  rw [listStreamAvailable, linked.readindex, linked.writeindex,
    ← int32_sub_left, int32_place, ← int32_sub_right, int32_place,
    int32_sub_right, int32_sub_left, ← linked.total, readOffset]

end Calls

/-! ## Runs -/

inductive ListTransfer
  | read (size : Int)
  | write (buf : List UInt8)
  deriving DecidableEq

/-- A stream together with everything it has delivered and accepted. -/
structure ListHistory where
  stream : ITCListStream
  delivered : List UInt8
  written : List UInt8
  deriving DecidableEq

def ListHistory.opened (fill : Nat → Nat → UInt8) (datasize : Nat) : ListHistory :=
  ⟨itcListStreamOpen fill datasize, [], []⟩

def listTransfer (fill : Nat → Nat → UInt8) (history : ListHistory) :
    ListTransfer → Option ListHistory
  | .read size => do
      let got ← listStreamRead history.stream size
      some
        { history with
          stream := got.2
          delivered := history.delivered ++ got.1 }
  | .write buf => do
      let stream ← listStreamWrite fill history.stream buf
      some
        { history with
          stream := stream
          written := history.written ++ buf }

/-- The FIFO law: what was delivered is the beginning of what was written, the
cursors, the total size and the counts agree with that, and the next read goes
on where the last one ended. -/
structure ListFifo (history : ListHistory) : Prop where
  deliveredPrefix : history.delivered <+: history.written
  sound : history.stream.Sound history.written
  tell : listStreamTell history.stream = int32 history.delivered.length
  available :
    listStreamAvailable history.stream = int32 (history.written.length - history.delivered.length)
  eofAgrees : history.stream.eof = true → history.delivered = history.written
  nextRead :
    ∀ size : Int, ∃ after,
      listStreamRead history.stream size =
        some ((history.written.drop history.delivered.length).take size.toNat, after)

structure ListInvariant (history : ListHistory) : Prop where
  sound : history.stream.Sound history.written
  honest : Honest history.stream history.written
  delivered : history.delivered = history.written.take history.stream.readOffset

variable {history : ListHistory}

theorem ListInvariant.length_delivered (inv : ListInvariant history) :
    history.delivered.length = history.stream.readOffset := by
  rw [inv.delivered, List.length_take, Nat.min_eq_left inv.sound.behind]

theorem ListInvariant.fifo (inv : ListInvariant history) : ListFifo history where
  deliveredPrefix := by
    rw [inv.delivered]
    exact List.take_prefix _ _
  sound := inv.sound
  tell := by rw [listStreamTell_eq inv.sound.toLinked, inv.length_delivered]
  available := by rw [listStreamAvailable_eq inv.sound.toLinked, inv.length_delivered]
  eofAgrees := by
    intro eof
    rw [inv.delivered, inv.honest eof, List.take_length]
  nextRead := by
    intro size
    obtain ⟨after, read, -⟩ := listStreamRead_spec inv.sound inv.honest size
    rw [inv.length_delivered]
    exact ⟨after, read⟩

theorem listInvariant_opened (fill : Nat → Nat → UInt8) {datasize : Nat} (positive : 0 < datasize) :
    ListInvariant (ListHistory.opened fill datasize) where
  sound := sound_open fill positive
  honest := fun _ => by simp [ListHistory.opened, itcListStreamOpen, readOffset]
  delivered := by simp [ListHistory.opened]

theorem listInvariant_step (fill : Nat → Nat → UInt8)
    (history : ListHistory) (call : ListTransfer) (inv : ListInvariant history) :
    ∃ after, listTransfer fill history call = some after ∧ ListInvariant after := by
  cases call with
  | read size =>
    obtain ⟨after, read, sound, honest, offset⟩ := listStreamRead_spec inv.sound inv.honest size
    have delivered :
        history.delivered ++ (history.written.drop history.stream.readOffset).take size.toNat =
          history.written.take after.readOffset := by
      rw [inv.delivered, ← List.take_add, List.take_eq_take_iff, offset]
      omega
    refine ⟨⟨after, _, history.written⟩, ?_, ⟨sound, honest, delivered⟩⟩
    rw [listTransfer, read]
    rfl
  | write buf =>
    obtain ⟨after, written, sound, honest, offset⟩ := listStreamWrite_spec fill inv.sound buf
    have delivered :
        history.delivered = (history.written ++ buf).take after.readOffset := by
      rw [offset, List.take_append_of_le_length inv.sound.behind, inv.delivered]
    refine ⟨⟨after, history.delivered, history.written ++ buf⟩, ?_,
      ⟨sound, honest inv.honest, delivered⟩⟩
    rw [listTransfer, written]
    rfl

/-- Every order of reads and writes of any sizes is a FIFO. -/
theorem listStream_fifo (fill : Nat → Nat → UInt8) {datasize : Nat}
    (positive : 0 < datasize) (calls : List ListTransfer) :
    ∃ history,
      calls.foldlM (listTransfer fill) (ListHistory.opened fill datasize) = some history ∧
        ListFifo history := by
  obtain ⟨history, run, inv⟩ :=
    Run.foldlM_invariant (listInvariant_step fill) (listInvariant_opened fill positive) calls
  exact ⟨history, run, inv.fifo⟩

/-- Nodes of two bytes that are filled, read to their end and filled again. -/
theorem listStream_fifo_boundary :
    ∃ history,
      [ListTransfer.write [1, 2], .read 3, .write [3, 4, 5], .read 1].foldlM
            (listTransfer fun _ _ => 0) (ListHistory.opened (fun _ _ => 0) 2) =
          some history ∧
        ListFifo history :=
  listStream_fifo _ (by decide) _

end IteSdk.Itc
