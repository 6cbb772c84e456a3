import IteSdk.Itu.ListBox
import IteSdk.Lib.Blocks

/-!
# The backspace of a text box

`ituTextBoxBack` walks over the characters of the text up to the cursor, with the start of
the character before and the length of the one it has just decoded.
-/

namespace IteSdk.Itu

open Lib

/-- The C string that starts at `ptr`, without its terminator. -/
def stringAt (memory : List UInt8) (ptr : Nat) : List UInt8 :=
  (memory.drop ptr).takeWhile fun byte => byte != 0

/-- The length of a UTF-8 sequence by its first byte, and the range of its second one. -/
def utf8Sequence (lead : UInt8) : Option (Nat × UInt8 × UInt8) :=
  if lead < 0x80 then some (1, 0x80, 0xBF)
  else if lead < 0xC2 then none
  else if lead < 0xE0 then some (2, 0x80, 0xBF)
  else if lead = 0xE0 then some (3, 0xA0, 0xBF)
  else if lead = 0xED then some (3, 0x80, 0x9F)
  else if lead < 0xF0 then some (3, 0x80, 0xBF)
  else if lead = 0xF0 then some (4, 0x90, 0xBF)
  else if lead < 0xF4 then some (4, 0x80, 0xBF)
  else if lead = 0xF4 then some (4, 0x80, 0x8F)
  else none

def utf8Tail (low high : UInt8) : List UInt8 → Bool
  | [] => true
  | second :: rest =>
    low ≤ second && second ≤ high && rest.all fun byte => 0x80 ≤ byte && byte ≤ 0xBF

/-- `mbtowc` in a UTF-8 locale: the length of the first character, 0 at the end of the
string and -1 where it is malformed. -/
def mbtowc : List UInt8 → Int
  | [] => 0
  | lead :: rest =>
    if lead = 0 then 0
    else
      match utf8Sequence lead with
      | some (count, low, high) =>
        if count ≤ rest.length + 1 ∧ utf8Tail low high (rest.take (count - 1)) then count else -1
      | none => -1

structure ItuTextBox where
  string : Option (List UInt8)
  cursorIndex : Int
  color : ItuColor
  defColor : ItuColor

/-- The walk to the cursor: where it stops, the start of the character before, and the
length that `mbtowc` returned last.  It is `none` out of the buffer or without fuel. -/
def backLoop (string : List UInt8) (cursorIndex : Int) :
    Nat → Int → Int → Int → Option (Nat × Nat × Int)
  | 0, _, _, _ => none
  | fuel + 1, ptr, ptr0, len =>
    if ptr < 0 then none
    else
      match string[ptr.toNat]? with
      | none => none
      | some byte =>
        if byte = 0 then some (ptr.toNat, ptr0.toNat, len)
        else
          let len := mbtowc (stringAt string ptr.toNat)
          if ptr = cursorIndex then some (ptr.toNat, ptr0.toNat, len)
          else backLoop string cursorIndex fuel (ptr + len) ptr len

def ituTextBoxBack (fuel : Nat) (textbox : ItuTextBox) : Option ItuTextBox :=
  match textbox.string with
  | none => some textbox
  | some string =>
    if textbox.cursorIndex = 0 then some textbox
    else
      (backLoop string textbox.cursorIndex fuel 0 0 0).map fun (ptr, ptr0, len) =>
        let string := overwrite ptr0 (stringAt string ptr ++ [0]) string
        let textbox :=
          { textbox with string := some string, cursorIndex := textbox.cursorIndex - len }
        if string.head? = some 0 then
          { textbox with string := none, color := textbox.defColor }
        else textbox

/-! ## Texts and their characters -/

/-- One well-formed UTF-8 character that is not the terminator. -/
def IsCharacter (bytes : List UInt8) : Prop :=
  bytes ≠ [] ∧ mbtowc bytes = bytes.length
deriving Decidable

def ItuTextBox.content (textbox : ItuTextBox) : List UInt8 :=
  (textbox.string.map fun string => stringAt string 0).getD []

/-- The text box holds the characters, with the cursor behind the first of them. -/
structure HoldsText (textbox : ItuTextBox) (before after : List (List UInt8)) : Prop where
  string : ∃ junk, textbox.string = some ((before ++ after).flatten ++ 0 :: junk)
  cursorIndex : textbox.cursorIndex = before.flatten.length

section Walk

variable {character rest string : List UInt8} {before after : List (List UInt8)}

theorem utf8Sequence_low {lead low high : UInt8} {count : Nat}
    (sequence : utf8Sequence lead = some (count, low, high)) : 0x80 ≤ low := by
  unfold utf8Sequence at sequence
  split_ifs at sequence
  all_goals
    simp only [Option.some.injEq, Prod.mk.injEq] at sequence
    rw [← sequence.2.1]
    decide

theorem IsCharacter.eq_cons (isCharacter : IsCharacter character) :
    ∃ lead tail, character = lead :: tail ∧ lead ≠ 0 ∧
      ∃ low high, utf8Sequence lead = some (tail.length + 1, low, high) ∧
        utf8Tail low high tail = true := by
  obtain ⟨some_, count⟩ := isCharacter
  obtain ⟨lead, tail, rfl⟩ := List.exists_cons_of_ne_nil some_
  rw [mbtowc] at count
  split at count
  · rw [List.length_cons] at count
    omega
  rename_i notZero
  refine ⟨lead, tail, rfl, notZero, ?_⟩
  split at count
  · rename_i length low high sequence
    split at count
    · rename_i whole
      have same : length = tail.length + 1 := Int.ofNat.inj count
      subst same
      rw [Nat.add_sub_cancel, List.take_length] at whole
      exact ⟨low, high, sequence, whole.2⟩
    · rw [List.length_cons] at count
      omega
  · rw [List.length_cons] at count
    omega

/-- `mbtowc` only looks at the first character. -/
theorem IsCharacter.mbtowc_append (isCharacter : IsCharacter character) (rest : List UInt8) :
    mbtowc (character ++ rest) = character.length := by
  obtain ⟨lead, tail, rfl, notZero, low, high, sequence, inRange⟩ := isCharacter.eq_cons
  rw [List.cons_append, mbtowc, if_neg notZero, sequence]
  dsimp only
  rw [Nat.add_sub_cancel, List.take_left, if_pos ⟨by simp, inRange⟩, List.length_cons]

theorem IsCharacter.nonzero (isCharacter : IsCharacter character) : ∀ byte ∈ character, byte ≠ 0 := by
  obtain ⟨lead, tail, rfl, notZero, low, high, sequence, inRange⟩ := isCharacter.eq_cons
  rw [List.forall_mem_cons]
  refine ⟨notZero, ?_⟩
  cases tail with
  | nil => exact fun _ member => absurd member List.not_mem_nil
  | cons second tail =>
    have positive := utf8Sequence_low sequence
    simp only [utf8Tail, Bool.and_eq_true, decide_eq_true_eq, List.all_eq_true] at inRange
    rw [List.forall_mem_cons]
    refine ⟨?_, fun byte member => ?_⟩
    · rintro rfl
      exact absurd (UInt8.le_trans positive inRange.1.1) (by decide)
    · rintro rfl
      exact absurd (inRange.2 0 member).1 (by decide)

theorem takeWhile_text (nonzero : ∀ byte ∈ string, byte ≠ 0) (junk : List UInt8) :
    (string ++ 0 :: junk).takeWhile (fun byte => byte != 0) = string := by
  rw [List.takeWhile_append_of_pos fun byte member => bne_iff_ne.mpr (nonzero byte member)]
  simp

theorem flatten_nonzero {characters : List (List UInt8)}
    (all : ∀ character ∈ characters, IsCharacter character) :
    ∀ byte ∈ characters.flatten, byte ≠ 0 := by
  intro byte member
  obtain ⟨character, inside, byteInside⟩ := List.mem_flatten.mp member
  exact (all character inside).nonzero byte byteInside

/-- The length that the walk ends with: that of the character at the cursor, or of the last
one at the end of the text. -/
def lengthAt (last : List UInt8) (after : List (List UInt8)) : Nat :=
  (after.head?.getD last).length

/-- One turn of the walk at a character that does not start at the cursor. -/
theorem backLoop_next {front junk : List UInt8} {cursorIndex ptr0 len : Int} {fuel : Nat}
    (isCharacter : IsCharacter character) (nonzero : ∀ byte ∈ rest, byte ≠ 0)
    (away : (front.length : Int) ≠ cursorIndex) :
    backLoop (front ++ (character ++ rest ++ 0 :: junk)) cursorIndex (fuel + 1) front.length ptr0
        len =
      backLoop (front ++ (character ++ rest ++ 0 :: junk)) cursorIndex fuel
        (front.length + character.length) front.length character.length := by
  have text : stringAt (front ++ (character ++ rest ++ 0 :: junk)) front.length =
      character ++ rest := by
    rw [stringAt, List.drop_left, takeWhile_text]
    exact List.forall_mem_append.mpr ⟨isCharacter.nonzero, nonzero⟩
  have decoded := isCharacter.mbtowc_append rest
  obtain ⟨lead, tail, rfl, notZero, -⟩ := isCharacter.eq_cons
  rw [backLoop, if_neg (by omega), Int.toNat_natCast, List.getElem?_append_right (Nat.le_refl _),
    Nat.sub_self]
  simp only [List.cons_append, List.getElem?_cons_zero, if_neg notZero, if_neg away]
  rw [← List.cons_append, ← List.cons_append, text, decoded]

/-- The walk stops at the cursor, behind the character that ends there. -/
theorem backLoop_cursor {last front junk : List UInt8} {ptr0 len : Int} {fuel : Nat}
    (all : ∀ character ∈ before ++ last :: after, IsCharacter character)
    (enough : before.length + 1 < fuel) :
    backLoop (front ++ ((before ++ last :: after).flatten ++ 0 :: junk))
        (front.length + (before.flatten.length + last.length)) fuel front.length ptr0 len =
      some (front.length + before.flatten.length + last.length,
        front.length + before.flatten.length, (lengthAt last after : Int)) := by
  induction before generalizing front ptr0 len fuel with
  | nil =>
    obtain ⟨lastIs, afterAre⟩ := List.forall_mem_cons.mp all
    have nonempty := List.length_pos_of_ne_nil lastIs.1
    obtain ⟨fuel, rfl⟩ := Nat.exists_eq_add_of_le' (enough : 2 ≤ fuel)
    simp only [List.nil_append, List.flatten_cons, List.flatten_nil, List.length_nil]
    rw [backLoop_next lastIs (flatten_nonzero afterAre) (by omega), ← List.append_assoc,
      ← List.append_assoc, List.append_assoc, backLoop, if_neg (by omega)]
    have place : ((front.length : Int) + last.length).toNat = (front ++ last).length := by
      rw [List.length_append]
      omega
    rw [place, List.getElem?_append_right (Nat.le_refl _), Nat.sub_self]
    cases after with
    | nil => simp [lengthAt]
    | cons character after =>
      obtain ⟨characterIs, restAre⟩ := List.forall_mem_cons.mp afterAre
      have decoded := characterIs.mbtowc_append after.flatten
      have text : stringAt (front ++ last ++ ((character :: after).flatten ++ 0 :: junk))
          (front ++ last).length = character ++ after.flatten := by
        rw [stringAt, List.drop_left, takeWhile_text (flatten_nonzero afterAre), List.flatten_cons]
      obtain ⟨lead, tail, rfl, notZero, -⟩ := characterIs.eq_cons
      rw [text, decoded]
      simp [notZero, lengthAt]
  | cons character before ih =>
    have characterIs := all character List.mem_cons_self
    have restAre : ∀ character ∈ before ++ last :: after, IsCharacter character :=
      (List.forall_mem_cons.mp all).2
    have nonempty := List.length_pos_of_ne_nil characterIs.1
    rw [List.length_cons] at enough
    obtain ⟨fuel, rfl⟩ := Nat.exists_eq_add_of_le' (by omega : 1 ≤ fuel)
    simp only [List.cons_append, List.flatten_cons, List.length_append]
    rw [backLoop_next characterIs (flatten_nonzero restAre) (by omega)]
    have along := @ih (front ++ character) front.length character.length fuel restAre (by omega)
    simp only [List.length_append, List.append_assoc, Nat.cast_add] at along ⊢
    simpa only [Nat.add_assoc, Int.add_assoc] using along

theorem stringAt_text {before : List UInt8} (nonzero : ∀ byte ∈ rest, byte ≠ 0)
    (junk : List UInt8) : stringAt (before ++ (rest ++ 0 :: junk)) before.length = rest := by
  rw [stringAt, List.drop_left, takeWhile_text nonzero]

/-- The rest of the text is copied over the character before the cursor. -/
theorem ituTextBoxBack_text {textbox : ItuTextBox} {last : List UInt8} {fuel : Nat}
    (all : ∀ character ∈ before ++ last :: after, IsCharacter character)
    (holdsText : HoldsText textbox (before ++ [last]) after) (enough : before.length + 1 < fuel) :
    ∃ result, ituTextBoxBack fuel textbox = some result ∧
      result.content = (before ++ after).flatten ∧
      result.cursorIndex = textbox.cursorIndex - lengthAt last after := by
  obtain ⟨⟨junk, string⟩, cursorIndex⟩ := holdsText
  obtain ⟨beforeAre, lastIs, afterAre⟩ := by
    simpa only [List.forall_mem_append, List.forall_mem_cons] using all
  have nonempty := List.length_pos_of_ne_nil lastIs.1
  rw [List.append_assoc, List.singleton_append] at string
  have walk := @backLoop_cursor before after last [] junk 0 0 fuel all enough
  simp only [List.length_nil, List.nil_append, Nat.zero_add, Nat.cast_zero, Int.zero_add] at walk
  have cursor : textbox.cursorIndex = before.flatten.length + last.length := by simp [cursorIndex]
  have place : before.flatten.length + last.length = (before.flatten ++ last).length :=
    List.length_append.symm
  have parts : (before ++ last :: after).flatten ++ 0 :: junk =
      before.flatten ++ last ++ (after.flatten ++ 0 :: junk) := by
    simp
  have nonzero : ∀ byte ∈ (before ++ after).flatten, byte ≠ 0 :=
    flatten_nonzero (List.forall_mem_append.mpr ⟨beforeAre, afterAre⟩)
  obtain ⟨left, moved⟩ : ∃ left,
      overwrite before.flatten.length (after.flatten ++ [0])
        ((before ++ last :: after).flatten ++ 0 :: junk) =
      (before ++ after).flatten ++ 0 :: left := by
    have behind := overwrite_append_right 0 (after.flatten ++ [0]) before.flatten
      (last ++ (after.flatten ++ 0 :: junk))
    rw [Nat.add_zero, overwrite_start, ← List.append_assoc, ← parts] at behind
    rw [behind, List.flatten_append, List.append_assoc, ← List.append_assoc]
    exact ⟨_, rfl⟩
  rw [ituTextBoxBack, string]
  dsimp only
  rw [if_neg (by omega), cursor, walk, Option.map_some]
  refine ⟨_, rfl, ?_⟩
  dsimp only
  rw [place, parts, stringAt_text (flatten_nonzero afterAre), ← parts, moved]
  have text := @stringAt_text _ [] nonzero left
  cases whole : (before ++ after).flatten with
  | nil => exact ⟨rfl, rfl⟩
  | cons byte bytes =>
    rw [whole] at text nonzero
    have headNonzero : (byte :: bytes ++ 0 :: left).head? ≠ some 0 := fun zero =>
      nonzero byte List.mem_cons_self (Option.some.inj zero)
    rw [if_neg headNonzero]
    exact ⟨text, rfl⟩

end Walk

/-- A step back takes out the character before the cursor, and leaves the cursor behind the
characters before it. -/
def StepsBack (textbox : ItuTextBox) (before : List (List UInt8)) (last : List UInt8)
    (after : List (List UInt8)) : Prop :=
  ∀ fuel > before.length + 1, ∃ result, ituTextBoxBack fuel textbox = some result ∧
    result.content = (before ++ after).flatten ∧
    result.cursorIndex = textbox.cursorIndex - last.length

/-- A step back is right exactly at the end of the text and before a character as long as
the one that it takes out. -/
theorem ituTextBoxBack_stepsBack_iff
    {textbox : ItuTextBox} {before after : List (List UInt8)} {last : List UInt8}
    (all : ∀ character ∈ before ++ last :: after, IsCharacter character)
    (holdsText : HoldsText textbox (before ++ [last]) after) :
    StepsBack textbox before last after ↔ ∀ next ∈ after.head?, next.length = last.length := by
  have same : (∀ next ∈ after.head?, next.length = last.length) ↔
      lengthAt last after = last.length := by
    cases after <;> simp [lengthAt]
  rw [same]
  constructor
  · intro stepsBack
    obtain ⟨result, back, -, cursorIndex⟩ := stepsBack _ (Nat.lt_succ_self _)
    obtain ⟨other, otherBack, -, otherIndex⟩ :=
      ituTextBoxBack_text all holdsText (Nat.lt_succ_self _)
    obtain rfl := Option.some.inj (back.symm.trans otherBack)
    omega
  · intro sameLength fuel enough
    have back := ituTextBoxBack_text all holdsText enough
    rwa [sameLength] at back

/-- The text box with a letter, an accented letter of two bytes and a cursor. -/
def accentedText (cursorIndex : Int) : ItuTextBox :=
  ⟨some [0x61, 0xC3, 0xA9, 0], cursorIndex, ⟨255, 0, 0, 0⟩, ⟨255, 128, 128, 128⟩⟩

theorem ituTextBoxBack_stepsBack_iff_atEnd :
    StepsBack (accentedText 3) [[0x61]] [0xC3, 0xA9] [] ↔
      ∀ next ∈ ([] : List (List UInt8)).head?, next.length = 2 :=
  ituTextBoxBack_stepsBack_iff (by decide) ⟨⟨[], rfl⟩, rfl⟩

/-- Behind the letter, a step back moves the cursor before the text. -/
theorem ituTextBoxBack_negative :
    ¬ ∀ (textbox : ItuTextBox) (before after : List (List UInt8)) (last : List UInt8),
        (∀ character ∈ before ++ last :: after, IsCharacter character) →
          HoldsText textbox (before ++ [last]) after → StepsBack textbox before last after := by
  intro stepsBack
  obtain ⟨result, back, -, cursorIndex⟩ :=
    stepsBack (accentedText 1) [] [[0xC3, 0xA9]] [0x61] (by decide) ⟨⟨[], rfl⟩, rfl⟩ 2 (by decide)
  obtain rfl := Option.some.inj back
  exact absurd cursorIndex (by decide)

end IteSdk.Itu
