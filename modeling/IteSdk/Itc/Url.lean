import Mathlib.Data.List.Basic

/-!
# URL coding

`itc_url.c`.  A string is the bytes up to and including its terminator: a read behind
them and a write behind the allocated buffer are faults.  Memory is always available.
Whether `char` is signed depends on the target.
-/

namespace IteSdk.Itc

section

inductive UrlFault
  | read
  | write
  deriving DecidableEq

def ascii (c : Char) : BitVec 8 := BitVec.ofNat 8 c.toNat

/-- A `char` as an `int`. -/
def charToInt (signed : Bool) (c : BitVec 8) : BitVec 32 :=
  if signed then c.signExtend 32 else c.setWidth 32

def isdigit (c : BitVec 32) : Bool := decide (48 ≤ c.toInt ∧ c.toInt ≤ 57)

def isupper (c : BitVec 32) : Bool := decide (65 ≤ c.toInt ∧ c.toInt ≤ 90)

def islower (c : BitVec 32) : Bool := decide (97 ≤ c.toInt ∧ c.toInt ≤ 122)

def isalnum (c : BitVec 32) : Bool := isdigit c || isupper c || islower c

def tolower (c : BitVec 32) : BitVec 32 := if isupper c then c + 32 else c

def fromHex (signed : Bool) (ch : BitVec 8) : BitVec 8 :=
  if isdigit (charToInt signed ch) then
    (charToInt signed ch - charToInt signed (ascii '0')).setWidth 8
  else
    (tolower (charToInt signed ch) - charToInt signed (ascii 'a') + 10).setWidth 8

def hexDigits : List (BitVec 8) :=
  ['0', '1', '2', '3', '4', '5', '6', '7', '8', '9', 'a', 'b', 'c', 'd', 'e', 'f'].map ascii

def toHex (signed : Bool) (code : BitVec 8) : BitVec 8 :=
  hexDigits.getD (charToInt signed code &&& 15).toNat 0

/-- `*pstr` and `pstr[1]`. -/
def charAt (str : List (BitVec 8)) (pstr : Nat) : Except UrlFault (BitVec 8) :=
  match str[pstr]? with
  | some c => .ok c
  | none => .error .read

def strlen (str : List (BitVec 8)) : Except UrlFault Nat :=
  match str.findIdx? (· == 0) with
  | some length => .ok length
  | none => .error .read

/-- `*pbuf++ = c` in a buffer of `size` bytes, of which those in front of `pbuf` are
given. -/
def putChar (size : Nat) (buf : List (BitVec 8)) (c : BitVec 8) :
    Except UrlFault (List (BitVec 8)) :=
  if buf.length < size then .ok (buf ++ [c]) else .error .write

def keepsChar (signed : Bool) (c : BitVec 8) : Bool :=
  isalnum (charToInt signed c) || c == ascii '-' || c == ascii '_' || c == ascii '.' ||
    c == ascii '~'

/-- One turn of the loop of `itcUrlEncode`. -/
def encodeChar (signed : Bool) (size : Nat) (buf : List (BitVec 8)) (c : BitVec 8) :
    Except UrlFault (List (BitVec 8)) :=
  if keepsChar signed c then putChar size buf c
  else if c = ascii ' ' then putChar size buf (ascii '+')
  else do
    let buf ← putChar size buf (ascii '%')
    let buf ← putChar size buf (toHex signed (((charToInt signed c).sshiftRight 4).setWidth 8))
    putChar size buf (toHex signed ((charToInt signed c &&& 15).setWidth 8))

def encodeLoop (signed : Bool) (str : List (BitVec 8)) (size pstr : Nat)
    (buf : List (BitVec 8)) : Except UrlFault (List (BitVec 8)) :=
  match _found : str[pstr]? with
  | none => .error .read
  | some c =>
    if c = 0 then putChar size buf 0
    else do
      let buf ← encodeChar signed size buf c
      encodeLoop signed str size (pstr + 1) buf
termination_by str.length - pstr
decreasing_by
  have inside := (List.getElem?_eq_some_iff.mp _found).1
  omega

def itcUrlEncode (signed : Bool) (str : List (BitVec 8)) : Except UrlFault (List (BitVec 8)) := do
  let length ← strlen str
  encodeLoop signed str (length * 3 + 1) 0 []

/-- One turn of the loop of `itcUrlDecode`: the buffer, and what is added to `pstr`
before the `pstr++` of the turn. -/
def decodeChar (signed : Bool) (str : List (BitVec 8)) (size pstr : Nat)
    (buf : List (BitVec 8)) (c : BitVec 8) : Except UrlFault (List (BitVec 8) × Nat) :=
  if c = ascii '%' then do
    let high ← charAt str (pstr + 1)
    if high = 0 then pure (buf, 0)
    else
      let low ← charAt str (pstr + 2)
      if low = 0 then pure (buf, 0)
      else
        let buf ← putChar size buf (fromHex signed high <<< 4 ||| fromHex signed low)
        pure (buf, 2)
  else if c = ascii '+' then do
    let buf ← putChar size buf (ascii ' ')
    pure (buf, 0)
  else do
    let buf ← putChar size buf c
    pure (buf, 0)

def decodeLoop (signed : Bool) (str : List (BitVec 8)) (size pstr : Nat)
    (buf : List (BitVec 8)) : Except UrlFault (List (BitVec 8)) :=
  match _found : str[pstr]? with
  | none => .error .read
  | some c =>
    if c = 0 then putChar size buf 0
    else do
      let (buf, skipped) ← decodeChar signed str size pstr buf c
      decodeLoop signed str size (pstr + skipped + 1) buf
termination_by str.length - pstr
decreasing_by
  have inside := (List.getElem?_eq_some_iff.mp _found).1
  omega

/-- What the returned buffer holds up to its terminator, or behind it where an escape
gave a terminator. -/
def itcUrlDecode (signed : Bool) (str : List (BitVec 8)) : Except UrlFault (List (BitVec 8)) := do
  let length ← strlen str
  decodeLoop signed str (length + 1) 0 []

end

/-!
# Decoding what has been encoded

The two loops on any string, as functions of the characters that are left.
-/

section

structure UrlString where
  chars : List (BitVec 8)
  free : ∀ c ∈ chars, c ≠ 0

def UrlString.memory (str : UrlString) : List (BitVec 8) := str.chars ++ [0]

/-- The unreserved characters: letters, digits and four marks. -/
def Unreserved (c : BitVec 8) : Prop :=
  48 ≤ c.toNat ∧ c.toNat ≤ 57 ∨ 65 ≤ c.toNat ∧ c.toNat ≤ 90 ∨ 97 ≤ c.toNat ∧ c.toNat ≤ 122 ∨
    c ∈ [ascii '-', ascii '_', ascii '.', ascii '~']

/-- A text of unreserved characters, `+` and escapes. -/
inductive UrlCoded : List (BitVec 8) → Prop
  | nil : UrlCoded []
  | unreserved {c : BitVec 8} {rest : List (BitVec 8)} (unreserved : Unreserved c)
      (coded : UrlCoded rest) : UrlCoded (c :: rest)
  | plus {rest : List (BitVec 8)} (coded : UrlCoded rest) : UrlCoded (ascii '+' :: rest)
  | escape {high low : BitVec 8} {rest : List (BitVec 8)} (highDigit : high ∈ hexDigits)
      (lowDigit : low ∈ hexDigits) (coded : UrlCoded rest) :
      UrlCoded (ascii '%' :: high :: low :: rest)

variable {signed : Bool} {size : Nat} {buf front rest : List (BitVec 8)}

theorem charToInt_between (signed : Bool) (c : BitVec 8) (low high : Nat) (small : high < 128) :
    ((low : Int) ≤ (charToInt signed c).toInt ∧ (charToInt signed c).toInt ≤ high) ↔
      low ≤ c.toNat ∧ c.toNat ≤ high := by
  have byte : c.toNat < 256 := c.isLt
  cases signed with
  | true =>
    have same : (charToInt true c).toInt = c.toInt := BitVec.toInt_signExtend_of_le (by decide)
    rw [same, BitVec.toInt_eq_toNat_cond]
    split <;> omega
  | false =>
    have inside : (charToInt false c).toNat = c.toNat := by
      rw [charToInt, if_neg Bool.false_ne_true]
      exact BitVec.toNat_setWidth_of_le (by decide)
    have same : (charToInt false c).toInt = (c.toNat : Int) := by
      rw [BitVec.toInt_eq_toNat_of_lt (by omega), inside]
    rw [same]
    omega

theorem isalnum_iff (signed : Bool) (c : BitVec 8) :
    isalnum (charToInt signed c) = true ↔
      48 ≤ c.toNat ∧ c.toNat ≤ 57 ∨ 65 ≤ c.toNat ∧ c.toNat ≤ 90 ∨ 97 ≤ c.toNat ∧ c.toNat ≤ 122 := by
  rw [isalnum, isdigit, isupper, islower, Bool.or_eq_true, Bool.or_eq_true,
    decide_eq_true_eq, decide_eq_true_eq, decide_eq_true_eq, or_assoc]
  have digit := charToInt_between signed c 48 57 (by decide)
  have upper := charToInt_between signed c 65 90 (by decide)
  have lower := charToInt_between signed c 97 122 (by decide)
  exact or_congr digit (or_congr upper lower)

theorem keepsChar_iff (signed : Bool) (c : BitVec 8) :
    keepsChar signed c = true ↔ Unreserved c := by
  simp only [keepsChar, Bool.or_eq_true, isalnum_iff, beq_iff_eq, Unreserved,
    List.mem_cons, List.not_mem_nil, or_false, or_assoc]

theorem setWidth_charToInt (signed : Bool) (code : BitVec 8) :
    (charToInt signed code).setWidth 8 = code := by
  apply BitVec.eq_of_getLsbD_eq
  intro bit inside
  have wide : bit < 32 := by omega
  cases signed <;> simp [charToInt, BitVec.getElem_signExtend, inside, wide]

theorem charToInt_low (signed : Bool) (code : BitVec 8) :
    (charToInt signed code &&& 15).toNat < hexDigits.length :=
  Nat.lt_succ_of_le Nat.and_le_right

theorem toHex_mem (signed : Bool) (code : BitVec 8) : toHex signed code ∈ hexDigits := by
  rw [toHex, List.getD_eq_getElem?_getD, List.getElem?_eq_getElem (charToInt_low signed code)]
  exact List.getElem_mem _

theorem fromHex_digit (signed : Bool) (digit : Fin 16) :
    fromHex signed (hexDigits.getD digit 0) = BitVec.ofNat 8 digit := by
  revert signed digit
  decide

theorem fromHex_toHex (signed : Bool) (code : BitVec 8) :
    fromHex signed (toHex signed code) = code &&& 15 := by
  have low : BitVec.ofNat 8 (charToInt signed code &&& 15).toNat = code &&& 15 := by
    rw [BitVec.ofNat_toNat, BitVec.setWidth_and, setWidth_charToInt]
    rfl
  exact (fromHex_digit signed ⟨_, charToInt_low signed code⟩).trans low

theorem escape_value (signed : Bool) (c : BitVec 8) :
    fromHex signed (toHex signed (((charToInt signed c).sshiftRight 4).setWidth 8)) <<< 4
        ||| fromHex signed (toHex signed ((charToInt signed c &&& 15).setWidth 8)) =
      c := by
  rw [fromHex_toHex, fromHex_toHex]
  revert signed c
  decide

def encodedChar (signed : Bool) (c : BitVec 8) : List (BitVec 8) :=
  if keepsChar signed c then [c]
  else if c = ascii ' ' then [ascii '+']
  else
    [ascii '%', toHex signed (((charToInt signed c).sshiftRight 4).setWidth 8),
      toHex signed ((charToInt signed c &&& 15).setWidth 8)]

theorem length_encodedChar (signed : Bool) (c : BitVec 8) : (encodedChar signed c).length ≤ 3 := by
  unfold encodedChar
  split
  · simp
  · split <;> simp

variable {c : BitVec 8}

theorem putChar_ok (room : buf.length < size) : putChar size buf c = .ok (buf ++ [c]) :=
  if_pos room

theorem encodeChar_ok (room : buf.length + 3 ≤ size) :
    encodeChar signed size buf c = .ok (buf ++ encodedChar signed c) := by
  unfold encodeChar encodedChar
  split
  · exact putChar_ok (by omega)
  · split
    · exact putChar_ok (by omega)
    · rw [putChar_ok (by omega)]
      change (putChar size _ _ >>= _) = _
      rw [putChar_ok (by simp; omega)]
      change putChar size _ _ = _
      rw [putChar_ok (by simp; omega)]
      simp

theorem encodeLoop_eq {str : List (BitVec 8)} {pstr : Nat} (here : str[pstr]? = some c) :
    encodeLoop signed str size pstr buf = if c = 0 then putChar size buf 0
      else encodeChar signed size buf c >>= encodeLoop signed str size (pstr + 1) := by
  rw [encodeLoop]
  split
  · next missing =>
      rw [here] at missing
      cases missing
  · next found there =>
      rw [here, Option.some.injEq] at there
      rw [there]

theorem encodeLoop_ok (free : ∀ c ∈ rest, c ≠ 0) (room : buf.length + 3 * rest.length + 1 ≤ size) :
    encodeLoop signed (front ++ (rest ++ [0])) size front.length buf =
      .ok (buf ++ rest.flatMap (encodedChar signed) ++ [0]) := by
  induction rest generalizing front buf with
  | nil =>
    have here : (front ++ ([] ++ [0]))[front.length]? = some (0 : BitVec 8) := by simp
    rw [encodeLoop_eq here, if_pos rfl, putChar_ok (Nat.lt_of_succ_le room)]
    simp
  | cons c rest ih =>
    have here : (front ++ (c :: rest ++ [0]))[front.length]? = some c := by simp
    have short := length_encodedChar signed c
    rw [List.length_cons] at room
    have next :=
      @ih (buf ++ encodedChar signed c) (front ++ [c])
        (fun other inside => free other (List.mem_cons_of_mem c inside))
        (by rw [List.length_append]; omega)
    rw [List.append_assoc, List.singleton_append, List.length_append, List.length_singleton] at next
    rw [encodeLoop_eq here, if_neg (free c List.mem_cons_self),
      encodeChar_ok (by omega), List.flatMap_cons, ← List.append_assoc buf]
    exact next

theorem strlen_memory (str : UrlString) : strlen str.memory = .ok str.chars.length := by
  have found : str.memory.findIdx? (· == 0) = some str.chars.length := by
    rw [UrlString.memory, List.findIdx?_append]
    have none : str.chars.findIdx? (· == 0) = none := by
      rw [List.findIdx?_eq_none_iff]
      intro c inside
      exact beq_eq_false_iff_ne.mpr (str.free c inside)
    rw [none]
    simp
  rw [strlen, found]

/-- What the decoder makes of the characters that are left. -/
def decoded (signed : Bool) : List (BitVec 8) → List (BitVec 8)
  | [] => []
  | c :: rest =>
    if c = ascii '%' then
      match rest with
      | high :: low :: rest =>
        (fromHex signed high <<< 4 ||| fromHex signed low) :: decoded signed rest
      | rest => decoded signed rest
    else if c = ascii '+' then ascii ' ' :: decoded signed rest
    else c :: decoded signed rest

theorem length_decoded (signed : Bool) (chars : List (BitVec 8)) :
    (decoded signed chars).length ≤ chars.length := by
  fun_induction decoded signed chars <;> grind

theorem decodeLoop_eq {str : List (BitVec 8)} {pstr : Nat} (here : str[pstr]? = some c) :
    decodeLoop signed str size pstr buf = if c = 0 then putChar size buf 0
      else
        decodeChar signed str size pstr buf c >>= fun (buf, skipped) =>
          decodeLoop signed str size (pstr + skipped + 1) buf := by
  rw [decodeLoop]
  split
  · next missing =>
      rw [here] at missing
      cases missing
  · next found there =>
      rw [here, Option.some.injEq] at there
      rw [there]

theorem charAt_behind {k : Nat} (found : BitVec 8) (there : rest[k]? = some found) :
    charAt (front ++ rest) (front.length + k) = .ok found := by
  rw [charAt, List.getElem?_append_right (Nat.le_add_right _ _), Nat.add_sub_cancel_left, there]

theorem decodeLoop_next {result : List (BitVec 8)} (passed out : List (BitVec 8)) (notEnd : c ≠ 0)
    (turn :
      decodeChar signed (front ++ (c :: (passed ++ rest))) size front.length buf c =
        .ok (buf ++ out, passed.length))
    (next :
      decodeLoop signed (front ++ c :: passed ++ rest) size (front ++ c :: passed).length
          (buf ++ out) =
        .ok (buf ++ out ++ result ++ [0])) :
    decodeLoop signed (front ++ (c :: (passed ++ rest))) size front.length buf =
      .ok (buf ++ (out ++ result) ++ [0]) := by
  have here : (front ++ (c :: (passed ++ rest)))[front.length]? = some c := by simp
  rw [decodeLoop_eq here, if_neg notEnd, turn]
  rw [List.append_assoc front, List.cons_append, List.length_append,
    List.length_cons, ← Nat.add_assoc] at next
  rw [← List.append_assoc buf]
  exact next

theorem decodeLoop_ok (free : ∀ c ∈ rest, c ≠ 0) (room : buf.length + rest.length + 1 ≤ size) :
    decodeLoop signed (front ++ (rest ++ [0])) size front.length buf =
      .ok (buf ++ decoded signed rest ++ [0]) := by
  fun_induction decoded signed rest generalizing front buf with
  | case1 =>
    have here : (front ++ ([] ++ [0]))[front.length]? = some (0 : BitVec 8) := by simp
    rw [decodeLoop_eq here, if_pos rfl, putChar_ok (Nat.lt_of_succ_le room)]
    simp
  | case2 high low rest ih =>
    have highHere := free high (by simp)
    have lowHere := free low (by simp)
    refine decodeLoop_next [high, low] [_] (by decide) ?_
      (ih (fun c inside => free c (by simp [inside])) ?_)
    · rw [decodeChar, if_pos rfl, charAt_behind high rfl]
      change (if high = 0 then _ else _ : Except _ _) = _
      rw [if_neg highHere, charAt_behind low rfl]
      change (if low = 0 then _ else _ : Except _ _) = _
      rw [if_neg lowHere, putChar_ok (by simp at room; omega)]
      rfl
    · simp at room ⊢
      omega
  | case3 rest short ih =>
    -- The escape is cut short: the terminator is read, and nothing behind it.
    refine decodeLoop_next [] [] (by decide) ?_
      (ih (fun c inside => free c (List.mem_cons_of_mem _ inside)) ?_)
    · rw [decodeChar, if_pos rfl]
      cases rest with
      | nil =>
        rw [charAt_behind 0 rfl, List.append_nil]
        rfl
      | cons high rest =>
        cases rest with
        | nil =>
          rw [charAt_behind high rfl]
          change (if high = 0 then _ else _ : Except _ _) = _
          rw [if_neg (free high (by simp)), charAt_behind 0 rfl, List.append_nil]
          rfl
        | cons low rest => exact absurd rfl (short high low rest)
    · simp at room ⊢
      omega
  | case4 rest notEscape ih =>
    refine decodeLoop_next [] [ascii ' '] (by decide) ?_
      (ih (fun c inside => free c (List.mem_cons_of_mem _ inside)) ?_)
    · rw [decodeChar, if_neg notEscape, if_pos rfl, putChar_ok (by simp at room; omega)]
      rfl
    · simp at room ⊢
      omega
  | case5 c rest notEscape notPlus ih =>
    refine decodeLoop_next [] [c] (free c List.mem_cons_self) ?_
      (ih (fun c inside => free c (List.mem_cons_of_mem _ inside)) ?_)
    · rw [decodeChar, if_neg notEscape, if_neg notPlus, putChar_ok (by simp at room; omega)]
      rfl
    · simp at room ⊢
      omega

/-! ## The round trip -/

theorem Unreserved.plain (unreserved : Unreserved c) : c ≠ 0 ∧ c ≠ ascii '%' ∧ c ≠ ascii '+' := by
  refine ⟨?_, ?_, ?_⟩
  · rintro rfl
    revert unreserved
    simp [Unreserved, ascii]
  · rintro rfl
    revert unreserved
    simp [Unreserved, ascii]
  · rintro rfl
    revert unreserved
    simp [Unreserved, ascii]

theorem decoded_plain (notEscape : c ≠ ascii '%') (rest : List (BitVec 8)) :
    decoded signed (c :: rest) =
      (if c = ascii '+' then ascii ' ' else c) :: decoded signed rest := by
  rw [decoded.eq_def]
  simp only [if_neg notEscape]
  split <;> rfl

theorem decoded_encodedChar (signed : Bool) (c : BitVec 8) (rest : List (BitVec 8)) :
    decoded signed (encodedChar signed c ++ rest) = c :: decoded signed rest := by
  unfold encodedChar
  split
  · next kept =>
      obtain ⟨-, notEscape, notPlus⟩ := ((keepsChar_iff signed c).mp kept).plain
      rw [List.singleton_append, decoded_plain notEscape, if_neg notPlus]
  · split
    · next space =>
        rw [List.singleton_append, decoded_plain (by decide), if_pos rfl, space]
    · simp only [List.cons_append, List.nil_append]
      rw [decoded, if_pos rfl, escape_value]

theorem decoded_encoded (signed : Bool) (chars : List (BitVec 8)) :
    decoded signed (chars.flatMap (encodedChar signed)) = chars := by
  induction chars with
  | nil => rfl
  | cons c chars ih =>
    rw [List.flatMap_cons, decoded_encodedChar, ih]

theorem length_encoded (signed : Bool) (chars : List (BitVec 8)) :
    (chars.flatMap (encodedChar signed)).length ≤ 3 * chars.length := by
  induction chars with
  | nil => exact Nat.le_refl 0
  | cons c chars ih =>
    have short := length_encodedChar signed c
    rw [List.flatMap_cons, List.length_append, List.length_cons]
    omega

theorem urlCoded_encodedChar (coded : UrlCoded rest) : UrlCoded (encodedChar signed c ++ rest) := by
  unfold encodedChar
  split
  · next kept => exact .unreserved ((keepsChar_iff signed c).mp kept) coded
  · split
    · exact .plus coded
    · exact .escape (toHex_mem signed _) (toHex_mem signed _) coded

theorem urlCoded_encoded (signed : Bool) (chars : List (BitVec 8)) :
    UrlCoded (chars.flatMap (encodedChar signed)) := by
  induction chars with
  | nil => exact .nil
  | cons c chars ih =>
    rw [List.flatMap_cons]
    exact urlCoded_encodedChar ih

theorem hexDigits_free : ∀ digit ∈ hexDigits, digit ≠ 0 := by
  rintro _ member rfl
  revert member
  decide

theorem UrlCoded.free {chars : List (BitVec 8)} (coded : UrlCoded chars) : ∀ c ∈ chars, c ≠ 0 := by
  induction coded with
  | nil => simp
  | unreserved unreserved coded ih =>
    exact List.forall_mem_cons.mpr ⟨unreserved.plain.1, ih⟩
  | plus coded ih =>
    exact List.forall_mem_cons.mpr ⟨by decide, ih⟩
  | escape highDigit lowDigit coded ih =>
    simp only [List.forall_mem_cons]
    exact ⟨by decide, hexDigits_free _ highDigit, hexDigits_free _ lowDigit, ih⟩

def UrlString.encoded (signed : Bool) (str : UrlString) : UrlString where
  chars := str.chars.flatMap (encodedChar signed)
  free := (urlCoded_encoded signed str.chars).free

theorem itcUrlEncode_memory (signed : Bool) (str : UrlString) :
    itcUrlEncode signed str.memory = .ok (str.encoded signed).memory := by
  rw [itcUrlEncode, strlen_memory]
  have room :
      ([] : List (BitVec 8)).length + 3 * str.chars.length + 1 ≤ str.chars.length * 3 + 1 := by
    rw [List.length_nil]
    omega
  exact @encodeLoop_ok signed _ [] [] _ str.free room

theorem itcUrlDecode_memory (signed : Bool) (str : UrlString) :
    itcUrlDecode signed str.memory = .ok (decoded signed str.chars ++ [0]) := by
  rw [itcUrlDecode, strlen_memory]
  have room :
      ([] : List (BitVec 8)).length + str.chars.length + 1 ≤ str.chars.length + 1 := by
    rw [List.length_nil]
    omega
  exact @decodeLoop_ok signed _ [] [] _ str.free room

/-- Decoding gives back what has been encoded; the code has at most three characters
for each one, all of them characters of such a code.  Every string can be decoded
without a fault, what is behind its terminator is not read. -/
theorem itcUrl_roundTrip (signed : Bool) :
    (∀ str : UrlString, ∃ code : UrlString,
      itcUrlEncode signed str.memory = .ok code.memory ∧
        code.chars.length ≤ 3 * str.chars.length ∧
        UrlCoded code.chars ∧
        itcUrlDecode signed code.memory = .ok str.memory) ∧
    ∀ str : UrlString, ∃ result : List (BitVec 8),
      itcUrlDecode signed str.memory = .ok result ∧ result.length ≤ str.chars.length + 1 := by
  constructor
  · intro str
    refine
      ⟨str.encoded signed, itcUrlEncode_memory signed str,
        length_encoded signed str.chars, urlCoded_encoded signed str.chars, ?_⟩
    rw [itcUrlDecode_memory, UrlString.encoded, decoded_encoded]
    rfl
  · intro str
    have short := length_decoded signed str.chars
    refine ⟨_, itcUrlDecode_memory signed str, ?_⟩
    rw [List.length_append, List.length_singleton]
    omega

end

end IteSdk.Itc
