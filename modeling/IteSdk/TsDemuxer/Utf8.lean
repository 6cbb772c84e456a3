import Mathlib.Data.BitVec
import Mathlib.Data.List.Basic

/-!
# UTF-8 to UTF-16

`utf8.c` converts a string in one of two loops: one stores the units, the other only
counts them.  `emitted` is the list of units that both follow; on the encoding of a list
of characters it is their UTF-16 encoding.
-/

namespace IteSdk.TsDemuxer.Utf8

def cUtf8Limits : List Nat := [0xC0, 0xE0, 0xF0, 0xF8, 0xFC, 0xFE]

/-- The string has ended: `inIdx >= length || pIn[inIdx] == '\0'`. -/
def atEnd (pIn : Nat → UInt8) (length inIdx : Nat) : Bool := length ≤ inIdx || pIn inIdx == 0

/-- `for (numAdds = 1; numAdds < 5; ++numAdds)` up to the first limit above `c`. -/
def findNumAdds (c : Nat) : Nat :=
  ([1, 2, 3, 4].find? fun numAdds => c < cUtf8Limits.getD numAdds 0).getD 5

/-- The inner loop: up to `numAdds` more bytes into the 32 bits of `value`.  A byte that
does not continue the sequence is taken all the same. -/
def addBytes (pIn : Nat → UInt8) (length : Nat) : Nat → Nat → Nat → Nat × Nat
  | 0, inIdx, value => (inIdx, value)
  | numAdds + 1, inIdx, value =>
    if atEnd pIn length inIdx then (inIdx, value)
    else
      let c2 := (pIn inIdx).toNat
      if c2 < 0x80 ∨ 0xC0 ≤ c2 then (inIdx + 1, value)
      else addBytes pIn length numAdds (inIdx + 1) (value <<< 6 % 2 ^ 32 ||| (c2 - 0x80))

/-- Index and value once the sequence led by the byte before `inIdx` is read. -/
def readSequence (pIn : Nat → UInt8) (length inIdx c : Nat) : Nat × Nat :=
  let numAdds := findNumAdds c
  addBytes pIn length numAdds inIdx (c - cUtf8Limits.getD (numAdds - 1) 0)

variable {pIn : Nat → UInt8}

theorem le_addBytes {length numAdds inIdx value : Nat} :
    inIdx ≤ (addBytes pIn length numAdds inIdx value).1 := by
  induction numAdds generalizing inIdx value with
  | zero => exact Nat.le_refl inIdx
  | succ numAdds continues =>
    rw [addBytes]
    split
    · exact Nat.le_refl inIdx
    · dsimp only
      split
      · exact Nat.le_succ inIdx
      · exact Nat.le_of_succ_le continues

theorem le_readSequence {length inIdx c : Nat} : inIdx ≤ (readSequence pIn length inIdx c).1 :=
  le_addBytes

theorem lt_of_not_atEnd {length inIdx : Nat} (more : ¬ atEnd pIn length inIdx = true) :
    inIdx < length := by
  rw [atEnd, Bool.or_eq_true, not_or, decide_eq_true_eq] at more
  exact Nat.lt_of_not_le more.1

/-- `pOut[outIdx] = unit`. -/
def store (pOut : Nat → BitVec 16) (outIdx unit : Nat) : Nat → BitVec 16 :=
  Function.update pOut outIdx (BitVec.ofNat 16 unit)

/-- The loop that writes: the number of units and the output buffer. -/
def convertLoop (pIn : Nat → UInt8) (length inIdx outIdx : Nat)
    (pOut : Nat → BitVec 16) : Nat × (Nat → BitVec 16) :=
  if more : atEnd pIn length inIdx = true then (outIdx, store pOut outIdx 0)
  else
    let c := (pIn inIdx).toNat
    if c < 0x80 then
      convertLoop pIn length (inIdx + 1) (outIdx + 1) (store pOut outIdx c)
    else if c < 0xC0 then (outIdx, store pOut outIdx 0)
    else
      let value := (readSequence pIn length (inIdx + 1) c).2
      if value < 0x10000 then
        convertLoop pIn length (readSequence pIn length (inIdx + 1) c).1 (outIdx + 1)
          (store pOut outIdx value)
      else if 0x100000 ≤ value - 0x10000 then (outIdx, store pOut outIdx 0)
      else
        convertLoop pIn length (readSequence pIn length (inIdx + 1) c).1 (outIdx + 2)
          (store (store pOut outIdx (0xD800 + (value - 0x10000) >>> 10)) (outIdx + 1)
            (0xDC00 + ((value - 0x10000) &&& 0x3FF)))
  termination_by length - inIdx
  decreasing_by
    all_goals
      have inside := lt_of_not_atEnd more
      have forward := @le_readSequence pIn length (inIdx + 1) (pIn inIdx).toNat
      omega

def countLoop (pIn : Nat → UInt8) (length inIdx outIdx : Nat) : Nat :=
  if more : atEnd pIn length inIdx = true then outIdx
  else
    let c := (pIn inIdx).toNat
    if c < 0x80 then countLoop pIn length (inIdx + 1) (outIdx + 1)
    else if c < 0xC0 then outIdx
    else
      let value := (readSequence pIn length (inIdx + 1) c).2
      if value < 0x10000 then
        countLoop pIn length (readSequence pIn length (inIdx + 1) c).1 (outIdx + 1)
      else if 0x100000 ≤ value - 0x10000 then outIdx
      else countLoop pIn length (readSequence pIn length (inIdx + 1) c).1 (outIdx + 2)
  termination_by length - inIdx
  decreasing_by
    all_goals
      have inside := lt_of_not_atEnd more
      have forward := @le_readSequence pIn length (inIdx + 1) (pIn inIdx).toNat
      omega

/-- `UTF8ToUTF16`; a null pointer is `none`. -/
def utf8ToUtf16 (pOut : Option (Nat → BitVec 16)) (pIn : Option (Nat → UInt8))
    (length : BitVec 32) : Nat × Option (Nat → BitVec 16) :=
  match pIn with
  | some input =>
    if 0 < length.toNat then
      match pOut with
      | some output =>
        let result := convertLoop input length.toNat 0 0 output
        (result.1, some result.2)
      | none => (countLoop input length.toNat 0 0, none)
    else (0, pOut.map fun output => store output 0 0)
  | none => (0, pOut.map fun output => store output 0 0)

/-! ## The units both loops follow -/

/-- The units from `inIdx` on, without the terminator. -/
def emitted (pIn : Nat → UInt8) (length inIdx : Nat) : List (BitVec 16) :=
  if more : atEnd pIn length inIdx = true then []
  else
    let c := (pIn inIdx).toNat
    if c < 0x80 then BitVec.ofNat 16 c :: emitted pIn length (inIdx + 1)
    else if c < 0xC0 then []
    else
      let value := (readSequence pIn length (inIdx + 1) c).2
      if value < 0x10000 then
        BitVec.ofNat 16 value :: emitted pIn length (readSequence pIn length (inIdx + 1) c).1
      else if 0x100000 ≤ value - 0x10000 then []
      else
        BitVec.ofNat 16 (0xD800 + (value - 0x10000) >>> 10) ::
          BitVec.ofNat 16 (0xDC00 + ((value - 0x10000) &&& 0x3FF)) ::
            emitted pIn length (readSequence pIn length (inIdx + 1) c).1
  termination_by length - inIdx
  decreasing_by
    all_goals
      have inside := lt_of_not_atEnd more
      have forward := @le_readSequence pIn length (inIdx + 1) (pIn inIdx).toNat
      omega

section Cases

variable {pIn : Nat → UInt8} {length inIdx : Nat}

theorem emitted_ended (ended : atEnd pIn length inIdx = true) : emitted pIn length inIdx = [] := by
  rw [emitted, dif_pos ended]

variable (more : ¬ atEnd pIn length inIdx = true)

include more

theorem emitted_ascii (ascii : (pIn inIdx).toNat < 0x80) :
    emitted pIn length inIdx =
      BitVec.ofNat 16 (pIn inIdx).toNat :: emitted pIn length (inIdx + 1) := by
  rw [emitted, dif_neg more]
  exact if_pos ascii

theorem emitted_stray (notAscii : ¬ (pIn inIdx).toNat < 0x80) (stray : (pIn inIdx).toNat < 0xC0) :
    emitted pIn length inIdx = [] := by
  rw [emitted, dif_neg more]
  dsimp only
  rw [if_neg notAscii, if_pos stray]

variable (notAscii : ¬ (pIn inIdx).toNat < 0x80) (leads : ¬ (pIn inIdx).toNat < 0xC0)

include notAscii leads

theorem emitted_single
    (single : (readSequence pIn length (inIdx + 1) (pIn inIdx).toNat).2 < 0x10000) :
    emitted pIn length inIdx =
      BitVec.ofNat 16 (readSequence pIn length (inIdx + 1) (pIn inIdx).toNat).2 ::
        emitted pIn length (readSequence pIn length (inIdx + 1) (pIn inIdx).toNat).1 := by
  rw [emitted, dif_neg more]
  dsimp only
  rw [if_neg notAscii, if_neg leads, if_pos single]

variable (notSingle : ¬ (readSequence pIn length (inIdx + 1) (pIn inIdx).toNat).2 < 0x10000)

include notSingle

theorem emitted_beyond
    (beyond : 0x100000 ≤ (readSequence pIn length (inIdx + 1) (pIn inIdx).toNat).2 - 0x10000) :
    emitted pIn length inIdx = [] := by
  rw [emitted, dif_neg more]
  dsimp only
  rw [if_neg notAscii, if_neg leads, if_neg notSingle, if_pos beyond]

theorem emitted_pair
    (notBeyond : ¬ 0x100000 ≤ (readSequence pIn length (inIdx + 1) (pIn inIdx).toNat).2 - 0x10000) :
    emitted pIn length inIdx =
      BitVec.ofNat 16 (0xD800 +
          ((readSequence pIn length (inIdx + 1) (pIn inIdx).toNat).2 - 0x10000) >>> 10) ::
        BitVec.ofNat 16 (0xDC00 +
          (((readSequence pIn length (inIdx + 1) (pIn inIdx).toNat).2 - 0x10000) &&& 0x3FF)) ::
        emitted pIn length (readSequence pIn length (inIdx + 1) (pIn inIdx).toNat).1 := by
  rw [emitted, dif_neg more]
  dsimp only
  rw [if_neg notAscii, if_neg leads, if_neg notSingle, if_neg notBeyond]

end Cases

/-- `pOut` with the units stored from `outIdx` on and nothing else changed. -/
def stored (pOut : Nat → BitVec 16) (outIdx : Nat) : List (BitVec 16) → Nat → BitVec 16
  | [] => pOut
  | unit :: units => stored (Function.update pOut outIdx unit) (outIdx + 1) units

theorem stored_apply
    {pOut : Nat → BitVec 16} {outIdx : Nat} (units : List (BitVec 16)) (place : Nat) :
    stored pOut outIdx units place =
      if outIdx ≤ place then units[place - outIdx]?.getD (pOut place)
      else pOut place := by
  induction units generalizing pOut outIdx with
  | nil => simp [stored]
  | cons unit units continues =>
    rw [stored, continues]
    rcases Nat.lt_trichotomy place outIdx with before | here | after
    · rw [if_neg (by omega), if_neg (by omega), Function.update_of_ne (by omega)]
    · subst here
      rw [if_neg (by omega), if_pos (Nat.le_refl place), Function.update_self, Nat.sub_self]
      rfl
    · have next : place - outIdx = place - (outIdx + 1) + 1 := by omega
      rw [if_pos (by omega), if_pos (by omega), Function.update_of_ne (by omega), next,
        List.getElem?_cons_succ]

theorem convertLoop_eq (pIn : Nat → UInt8) (length inIdx outIdx : Nat) (pOut : Nat → BitVec 16) :
    convertLoop pIn length inIdx outIdx pOut =
      (outIdx + (emitted pIn length inIdx).length,
        stored pOut outIdx (emitted pIn length inIdx ++ [0])) := by
  induction inIdx, outIdx, pOut using convertLoop.induct pIn length with
  | case1 inIdx outIdx pOut ended =>
    rw [convertLoop, dif_pos ended, emitted_ended ended]
    rfl
  | case2 inIdx outIdx pOut more c ascii continues =>
    rw [convertLoop, dif_neg more, emitted_ascii more ascii]
    refine (if_pos ascii).trans (continues.trans (Prod.ext ?_ rfl))
    exact Nat.succ_add_eq_add_succ outIdx _
  | case3 inIdx outIdx pOut more c notAscii stray =>
    rw [convertLoop, dif_neg more, emitted_stray more notAscii stray]
    exact (if_neg notAscii).trans (if_pos stray)
  | case4 inIdx outIdx pOut more c notAscii leads value single continues =>
    rw [convertLoop, dif_neg more, emitted_single more notAscii leads single]
    dsimp only
    rw [if_neg notAscii, if_neg leads, if_pos single]
    refine continues.trans (Prod.ext ?_ rfl)
    exact Nat.succ_add_eq_add_succ outIdx _
  | case5 inIdx outIdx pOut more c notAscii leads value notSingle beyond =>
    rw [convertLoop, dif_neg more, emitted_beyond more notAscii leads notSingle beyond]
    dsimp only
    rw [if_neg notAscii, if_neg leads, if_neg notSingle, if_pos beyond]
    rfl
  | case6 inIdx outIdx pOut more c notAscii leads value notSingle notBeyond continues =>
    rw [convertLoop, dif_neg more, emitted_pair more notAscii leads notSingle notBeyond]
    dsimp only
    rw [if_neg notAscii, if_neg leads, if_neg notSingle, if_neg notBeyond]
    refine continues.trans (Prod.ext ?_ rfl)
    exact (Nat.add_assoc outIdx 2 _).trans (congrArg (outIdx + ·) (Nat.add_comm 2 _))

theorem countLoop_eq (pIn : Nat → UInt8) (length inIdx outIdx : Nat) :
    countLoop pIn length inIdx outIdx = outIdx + (emitted pIn length inIdx).length := by
  induction inIdx, outIdx using countLoop.induct pIn length with
  | case1 inIdx outIdx ended =>
    rw [countLoop, dif_pos ended, emitted_ended ended]
    rfl
  | case2 inIdx outIdx more c ascii continues =>
    rw [countLoop, dif_neg more, emitted_ascii more ascii]
    refine (if_pos ascii).trans (continues.trans ?_)
    exact Nat.succ_add_eq_add_succ outIdx _
  | case3 inIdx outIdx more c notAscii stray =>
    rw [countLoop, dif_neg more, emitted_stray more notAscii stray]
    exact (if_neg notAscii).trans (if_pos stray)
  | case4 inIdx outIdx more c notAscii leads value single continues =>
    rw [countLoop, dif_neg more, emitted_single more notAscii leads single]
    dsimp only
    rw [if_neg notAscii, if_neg leads, if_pos single]
    exact continues.trans (Nat.succ_add_eq_add_succ outIdx _)
  | case5 inIdx outIdx more c notAscii leads value notSingle beyond =>
    rw [countLoop, dif_neg more, emitted_beyond more notAscii leads notSingle beyond]
    dsimp only
    rw [if_neg notAscii, if_neg leads, if_neg notSingle, if_pos beyond]
    rfl
  | case6 inIdx outIdx more c notAscii leads value notSingle notBeyond continues =>
    rw [countLoop, dif_neg more, emitted_pair more notAscii leads notSingle notBeyond]
    dsimp only
    rw [if_neg notAscii, if_neg leads, if_neg notSingle, if_neg notBeyond]
    refine continues.trans ?_
    exact (Nat.add_assoc outIdx 2 _).trans (congrArg (outIdx + ·) (Nat.add_comm 2 _))

/-- The bytes from `inIdx` up to `length` or the first zero. -/
def stringFrom (pIn : Nat → UInt8) (length inIdx : Nat) : List UInt8 :=
  ((List.range' inIdx (length - inIdx)).map pIn).takeWhile fun byte => byte != 0

/-- The UTF-16 encoding of a character: one unit, or a surrogate pair. -/
def utf16Encode (char : Char) : List (BitVec 16) :=
  if char.toNat < 0x10000 then [BitVec.ofNat 16 char.toNat]
  else
    [BitVec.ofNat 16 (0xD800 + (char.toNat - 0x10000) / 0x400),
      BitVec.ofNat 16 (0xDC00 + (char.toNat - 0x10000) % 0x400)]

section String

variable {pIn : Nat → UInt8} {length inIdx : Nat}

theorem stringFrom_atEnd (ended : atEnd pIn length inIdx = true) :
    stringFrom pIn length inIdx = [] := by
  rw [atEnd, Bool.or_eq_true, decide_eq_true_eq, beq_iff_eq] at ended
  rw [stringFrom]
  rcases ended with past | zero
  · rw [Nat.sub_eq_zero_of_le past]
    rfl
  · rcases Nat.eq_zero_or_pos (length - inIdx) with none_ | some_
    · rw [none_]
      rfl
    · rw [← Nat.sub_add_cancel some_, List.range'_succ, List.map_cons,
        List.takeWhile_cons_of_neg (by rw [zero]; decide)]

theorem stringFrom_more (more : ¬ atEnd pIn length inIdx = true) :
    stringFrom pIn length inIdx = pIn inIdx :: stringFrom pIn length (inIdx + 1) := by
  have inside := lt_of_not_atEnd more
  rw [atEnd, Bool.or_eq_true, not_or, beq_iff_eq] at more
  have count : length - inIdx = length - (inIdx + 1) + 1 := by omega
  rw [stringFrom, count, List.range'_succ, List.map_cons,
    List.takeWhile_cons_of_pos (p := fun byte => byte != 0) (bne_iff_ne.mpr more.2)]
  rfl

theorem of_stringFrom_eq_nil (empty : stringFrom pIn length inIdx = []) :
    atEnd pIn length inIdx = true := by
  by_contra more
  rw [stringFrom_more more] at empty
  exact List.cons_ne_nil _ _ empty

variable {rest : List UInt8}

theorem of_stringFrom_eq_cons {byte : UInt8} (string : stringFrom pIn length inIdx = byte :: rest) :
    ¬ atEnd pIn length inIdx = true ∧ pIn inIdx = byte ∧
      stringFrom pIn length (inIdx + 1) = rest := by
  have more : ¬ atEnd pIn length inIdx = true := by
    intro ended
    rw [stringFrom_atEnd ended] at string
    exact List.cons_ne_nil _ _ string.symm
  rw [stringFrom_more more, List.cons.injEq] at string
  exact ⟨more, string.1, string.2⟩

theorem addBytes_succ {numAdds value : Nat} {byte : UInt8} {bits : Nat}
    (string : stringFrom pIn length inIdx = byte :: rest)
    (continuation : byte.toNat = bits + 0x80) (sixBits : bits < 64) (room : value < 2 ^ 26) :
    addBytes pIn length (numAdds + 1) inIdx value =
      addBytes pIn length numAdds (inIdx + 1) (value * 64 + bits) := by
  obtain ⟨more, first, -⟩ := of_stringFrom_eq_cons string
  have inRange : ¬ ((pIn inIdx).toNat < 0x80 ∨ 0xC0 ≤ (pIn inIdx).toNat) := by
    rw [first]
    omega
  have joined :
      value <<< 6 % 2 ^ 32 ||| ((pIn inIdx).toNat - 0x80) = value * 64 + bits := by
    rw [first, continuation, Nat.add_sub_cancel,
      Nat.mod_eq_of_lt (by rw [Nat.shiftLeft_eq]; omega),
      ← Nat.shiftLeft_add_eq_or_of_lt sixBits, Nat.shiftLeft_eq]
  rw [addBytes, if_neg more]
  dsimp only
  rw [if_neg inRange, joined]

/-! ## One character -/

theorem readSequence_two {c : Nat} (two : c < 0xE0) :
    readSequence pIn length inIdx c = addBytes pIn length 1 inIdx (c - 0xC0) := by
  have adds : findNumAdds c = 1 := by simp [findNumAdds, cUtf8Limits, two]
  rw [readSequence, adds]
  rfl

theorem readSequence_three {c : Nat} (notTwo : ¬ c < 0xE0) (three : c < 0xF0) :
    readSequence pIn length inIdx c = addBytes pIn length 2 inIdx (c - 0xE0) := by
  have adds : findNumAdds c = 2 := by simp [findNumAdds, cUtf8Limits, notTwo, three]
  rw [readSequence, adds]
  rfl

theorem readSequence_four {c : Nat} (notThree : ¬ c < 0xF0) (four : c < 0xF8) :
    readSequence pIn length inIdx c = addBytes pIn length 3 inIdx (c - 0xF0) := by
  have notTwo : ¬ c < 0xE0 := by omega
  have adds : findNumAdds c = 3 := by simp [findNumAdds, cUtf8Limits, notTwo, notThree, four]
  rw [readSequence, adds]
  rfl

theorem toNat_ofNat_small {number : Nat} (small : number < 256) :
    (UInt8.ofNat number).toNat = number := by
  rw [UInt8.toNat_ofNat']
  exact Nat.mod_eq_of_lt small

theorem toNat_lt_scalar (char : Char) : char.toNat < 0x110000 := by
  have valid := char.valid
  simp only [UInt32.isValidChar, Nat.isValidChar] at valid
  change char.val.toNat < 0x110000
  omega

theorem readSequence_char {char : Char} {lead : UInt8} {others rest : List UInt8}
    (encoded : String.utf8EncodeChar char = lead :: others) (notAscii : ¬ char.toNat < 0x80)
    (string : stringFrom pIn length inIdx = others ++ rest) :
    0xC0 ≤ lead.toNat ∧ (readSequence pIn length inIdx lead.toNat).2 = char.toNat ∧
      stringFrom pIn length (readSequence pIn length inIdx lead.toNat).1 = rest := by
  have scalar := toNat_lt_scalar char
  have value : char.val.toNat = char.toNat := rfl
  rw [String.utf8EncodeChar, value, if_neg (by omega)] at encoded
  split at encoded
  · obtain ⟨rfl, rfl⟩ := List.cons.inj encoded
    obtain ⟨-, -, after⟩ := of_stringFrom_eq_cons string
    rw [toNat_ofNat_small (by omega), readSequence_two (by omega),
      addBytes_succ string (toNat_ofNat_small (by omega)) (by omega) (by omega), addBytes]
    exact ⟨by omega, by dsimp only; omega, after⟩
  · split at encoded
    · obtain ⟨rfl, rfl⟩ := List.cons.inj encoded
      obtain ⟨-, -, second⟩ := of_stringFrom_eq_cons string
      obtain ⟨-, -, after⟩ := of_stringFrom_eq_cons second
      rw [toNat_ofNat_small (by omega), readSequence_three (by omega) (by omega),
        addBytes_succ string (toNat_ofNat_small (by omega)) (by omega) (by omega),
        addBytes_succ second (toNat_ofNat_small (by omega)) (by omega) (by omega), addBytes]
      exact ⟨by omega, by dsimp only; omega, after⟩
    · obtain ⟨rfl, rfl⟩ := List.cons.inj encoded
      obtain ⟨-, -, second⟩ := of_stringFrom_eq_cons string
      obtain ⟨-, -, third⟩ := of_stringFrom_eq_cons second
      obtain ⟨-, -, after⟩ := of_stringFrom_eq_cons third
      rw [toNat_ofNat_small (by omega), readSequence_four (by omega) (by omega),
        addBytes_succ string (toNat_ofNat_small (by omega)) (by omega) (by omega),
        addBytes_succ second (toNat_ofNat_small (by omega)) (by omega) (by omega),
        addBytes_succ third (toNat_ofNat_small (by omega)) (by omega) (by omega), addBytes]
      exact ⟨by omega, by dsimp only; omega, after⟩

theorem emitted_char {char : Char}
    (string : stringFrom pIn length inIdx = String.utf8EncodeChar char ++ rest) :
    ∃ next, emitted pIn length inIdx = utf16Encode char ++ emitted pIn length next ∧
      stringFrom pIn length next = rest := by
  by_cases ascii : char.toNat < 0x80
  · have encoded : String.utf8EncodeChar char = [UInt8.ofNat char.toNat] :=
      if_pos (Nat.le_of_lt_succ ascii)
    rw [encoded] at string
    obtain ⟨more, first, after⟩ := of_stringFrom_eq_cons string
    have byte : (pIn inIdx).toNat = char.toNat := by rw [first, toNat_ofNat_small (by omega)]
    refine ⟨inIdx + 1, ?_, after⟩
    rw [emitted_ascii more (by omega), byte, utf16Encode, if_pos (by omega)]
    rfl
  · obtain ⟨lead, others, encoded⟩ :=
      List.exists_cons_of_ne_nil (String.utf8EncodeChar_ne_nil (c := char))
    rw [encoded] at string
    obtain ⟨more, first, after⟩ := of_stringFrom_eq_cons string
    obtain ⟨leads, value, further⟩ := readSequence_char encoded ascii after
    subst first
    refine ⟨_, ?_, further⟩
    have scalar := toNat_lt_scalar char
    by_cases single : char.toNat < 0x10000
    · rw [emitted_single more (by omega) (by omega) (by omega), value, utf16Encode, if_pos single]
      rfl
    · rw [emitted_pair more (by omega) (by omega) (by omega) (by omega), value,
        utf16Encode, if_neg single, Nat.shiftRight_eq_div_pow,
        Nat.and_two_pow_sub_one_eq_mod (char.toNat - 0x10000) 10]
      rfl

theorem emitted_chars {chars : List Char}
    (string : stringFrom pIn length inIdx = chars.flatMap String.utf8EncodeChar) :
    emitted pIn length inIdx = chars.flatMap utf16Encode := by
  induction chars generalizing inIdx with
  | nil => exact emitted_ended (of_stringFrom_eq_nil string)
  | cons char chars continues =>
    obtain ⟨next, units, rest⟩ := emitted_char string
    rw [units, continues rest]
    rfl

end String

/-- The string that `UTF8ToUTF16` is given. -/
def inputString (pIn : Option (Nat → UInt8)) (length : BitVec 32) : List UInt8 :=
  match pIn with
  | some input => stringFrom input length.toNat 0
  | none => []

/-- `pOut` with the units and the terminator stored at its beginning. -/
def withUnits (pOut : Nat → BitVec 16) (units : List (BitVec 16)) : Nat → BitVec 16 :=
  fun place => (units ++ [0])[place]?.getD (pOut place)

theorem stored_zero (pOut : Nat → BitVec 16) (units : List (BitVec 16)) :
    stored pOut 0 (units ++ [0]) = withUnits pOut units := by
  funext place
  rw [stored_apply, if_pos (Nat.zero_le place), Nat.sub_zero, withUnits]

theorem eq_nil_of_flatMap_eq_nil
    {chars : List Char} (empty : [] = chars.flatMap String.utf8EncodeChar) :
    chars = [] := by
  cases chars with
  | nil => rfl
  | cons char chars =>
    rw [List.flatMap_cons] at empty
    exact absurd (List.append_eq_nil_iff.mp empty.symm).1 String.utf8EncodeChar_ne_nil

theorem atEnd_of_not_pos {pIn : Nat → UInt8} {length : Nat} (notPositive : ¬ 0 < length) :
    atEnd pIn length 0 = true := by
  rw [atEnd, decide_eq_true (Nat.le_of_not_lt notPositive), Bool.true_or]

/-- For every input there is one list of units that the counting call counts and the
writing call stores with a terminator, and nothing else; for an encoded list of
characters it is their UTF-16 encoding. -/
theorem utf8ToUtf16_units
    (pIn : Option (Nat → UInt8)) (length : BitVec 32) :
    ∃ units : List (BitVec 16), utf8ToUtf16 none pIn length = (units.length, none) ∧
      (∀ pOut, utf8ToUtf16 (some pOut) pIn length = (units.length, some (withUnits pOut units))) ∧
      ∀ chars : List Char,
        inputString pIn length = chars.flatMap String.utf8EncodeChar →
          units = chars.flatMap utf16Encode := by
  have onlyTerminator (pOut : Nat → BitVec 16) : store pOut 0 0 = withUnits pOut [] :=
    stored_zero pOut []
  cases pIn with
  | none =>
    refine ⟨[], rfl, fun pOut => ?_, fun chars string => ?_⟩
    · rw [← onlyTerminator]
      rfl
    · rw [eq_nil_of_flatMap_eq_nil string]
      rfl
  | some input =>
    refine ⟨emitted input length.toNat 0, ?_, fun pOut => ?_, fun chars string => ?_⟩
    · by_cases positive : 0 < length.toNat
      · rw [utf8ToUtf16, if_pos positive]
        exact Prod.ext ((countLoop_eq input _ 0 0).trans (Nat.zero_add _)) rfl
      · rw [utf8ToUtf16, if_neg positive, emitted_ended (atEnd_of_not_pos positive)]
        rfl
    · by_cases positive : 0 < length.toNat
      · rw [utf8ToUtf16, if_pos positive]
        dsimp only
        rw [convertLoop_eq, Nat.zero_add, stored_zero]
      · rw [utf8ToUtf16, if_neg positive, emitted_ended (atEnd_of_not_pos positive), ← onlyTerminator]
        rfl
    · exact emitted_chars string

/-- The euro sign is one unit in both modes. -/
theorem utf8ToUtf16_units_euro :
    ∃ units : List (BitVec 16),
      utf8ToUtf16 none (some fun i => [0xE2, 0x82, 0xAC].getD i 0) 3#32 = (units.length, none) ∧
      (∀ pOut, utf8ToUtf16 (some pOut) (some fun i => [0xE2, 0x82, 0xAC].getD i 0) 3#32 =
        (units.length, some (withUnits pOut units))) ∧
      units = [0x20AC#16] := by
  obtain ⟨units, count, write, encoded⟩ :=
    utf8ToUtf16_units (some fun i => [0xE2, 0x82, 0xAC].getD i 0) 3#32
  have string :
      inputString (some fun i => [0xE2, 0x82, 0xAC].getD i 0) 3#32 =
        ['€'].flatMap String.utf8EncodeChar := by
    decide +kernel
  exact ⟨units, count, write, encoded ['€'] string⟩

end IteSdk.TsDemuxer.Utf8
