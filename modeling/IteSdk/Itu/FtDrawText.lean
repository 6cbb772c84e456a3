import IteSdk.Itu.TextBox

/-!
# Arabic text in the glyph cache

`ituFtDrawText` and `ituFtGetTextDimension` go over a buffer of 512 wide characters, which
they convert for the Arabic style after its length was taken.
-/

namespace IteSdk.Itu

open Lib

/-- What the FreeType cache answers for a character code: an error, a glyph with its
advance, or a glyph of an unknown format. -/
inductive FtGlyph
  | failed
  | glyph (advance : Int)
  | invalid

/-- The fields of `ft` that the two functions read; `arabic` is the style bit. -/
structure FtState where
  hasFont : Bool
  arabic : Bool
  glyphOf : Nat → FtGlyph

def codePoint : List UInt8 → Nat
  | [] => 0
  | lead :: tail =>
    let bits :=
      if tail.length = 0 then lead.toNat
      else if tail.length = 1 then lead.toNat % 32
      else if tail.length = 2 then lead.toNat % 16
      else lead.toNat % 8
    tail.foldl (fun code byte => code * 64 + byte.toNat % 64) bits

/-- `mbstowcs`: the codes of at most `count` characters, or `none` for a malformed text. -/
def mbstowcs : Nat → List UInt8 → Option (List Nat)
  | 0, _ => some []
  | count + 1, text =>
    if mbtowc text = 0 then some []
    else if mbtowc text < 0 then none
    else
      (mbstowcs count (text.drop (mbtowc text).toNat)).map
        (codePoint (text.take (mbtowc text).toNat) :: ·)

/-- `wcscpy`, or a terminated copy, to the start of a buffer; `none` behind its end. -/
def wcscpy (buf codes : List Nat) : Option (List Nat) :=
  if codes.length < buf.length then some (overwrite 0 (codes ++ [0]) buf) else none

/-- The character codes that the loops of both functions go over: `buf[0]` to
`buf[len - 1]`, where `stack` is what was in `buf` before. -/
def ftCharcodes (convertArabic : List Nat → Option (List Nat)) (arabic : Bool) (stack : List Nat)
    (text : List UInt8) : Option (List Nat) :=
  match mbstowcs 512 text with
  | none => some []
  | some codes => do
    let buf ← if codes.length < 512 then wcscpy stack codes else some codes
    let buf ←
      if arabic then
        match convertArabic (buf.takeWhile (· != 0)) with
        | some converted => wcscpy buf converted
        | none => some buf
      else some buf
    some (buf.take codes.length)

/-- The loop of `ituFtDrawText`: the glyphs with their distances from the start. -/
def drawGlyphs (glyphOf : Nat → FtGlyph) : List Nat → Int → List (Nat × Int)
  | [], _ => []
  | charcode :: rest, xAdvance =>
    match glyphOf charcode with
    | .failed => drawGlyphs glyphOf rest xAdvance
    | .glyph advance => (charcode, xAdvance) :: drawGlyphs glyphOf rest (xAdvance + advance)
    | .invalid => []

/-- The loop of `ituFtGetTextDimension`: the width. -/
def measureGlyphs (glyphOf : Nat → FtGlyph) : List Nat → Int → Int
  | [], xAdvance => xAdvance
  | charcode :: rest, xAdvance =>
    match glyphOf charcode with
    | .glyph advance => measureGlyphs glyphOf rest (xAdvance + advance)
    | .failed | .invalid => measureGlyphs glyphOf rest xAdvance

def ituFtDrawText (convertArabic : List Nat → Option (List Nat)) (ft : FtState)
    (stack : List Nat) (text : List UInt8) : Option (List Nat × List (Nat × Int)) :=
  if ft.hasFont then
    (ftCharcodes convertArabic ft.arabic stack text).map fun codes =>
      (codes, drawGlyphs ft.glyphOf codes 0)
  else some ([], [])

def ituFtGetTextDimension (convertArabic : List Nat → Option (List Nat)) (ft : FtState)
    (stack : List Nat) (text : List UInt8) : Option (List Nat × Int) :=
  if ft.hasFont then
    (ftCharcodes convertArabic ft.arabic stack text).map fun codes =>
      (codes, measureGlyphs ft.glyphOf codes 0)
  else some ([], 0)

/-- Both functions go over the codes of the converted text and nothing else, whatever is
in the buffer before. -/
def DrawsConverted (convertArabic : List Nat → Option (List Nat)) (ft : FtState)
    (text : List UInt8) (converted : List Nat) : Prop :=
  ∀ stack : List Nat, stack.length = 512 →
    (ituFtDrawText convertArabic ft stack text).map Prod.fst = some converted ∧
      (ituFtGetTextDimension convertArabic ft stack text).map Prod.fst = some converted

theorem wcscpy_eq {buf codes : List Nat} (fits : codes.length < buf.length) :
    wcscpy buf codes = some (codes ++ 0 :: buf.drop (codes.length + 1)) := by
  rw [wcscpy, if_pos fits, overwrite_start, List.length_append, List.append_assoc]
  rfl

variable {convertArabic : List Nat → Option (List Nat)}

/-- The converted text, cut or filled up to the length that the text had before. -/
theorem ftCharcodes_arabic {stack codes converted : List Nat} {text : List UInt8}
    (wide : stack.length = 512) (wellFormed : mbstowcs 512 text = some codes)
    (short : codes.length < 512) (nonzero : ∀ code ∈ codes, code ≠ 0)
    (conversion : convertArabic codes = some converted) :
    ftCharcodes convertArabic true stack text =
      if converted.length < 512 then
        some ((converted ++ 0 :: (codes ++ 0 :: stack.drop (codes.length + 1)).drop
          (converted.length + 1)).take codes.length)
      else none := by
  have copied := wcscpy_eq (short.trans_le wide.ge)
  have whole : (codes ++ 0 :: stack.drop (codes.length + 1)).length = 512 := by
    simp only [List.length_append, List.length_cons, List.length_drop]
    omega
  have string : (codes ++ 0 :: stack.drop (codes.length + 1)).takeWhile (· != 0) = codes := by
    rw [List.takeWhile_append_of_pos fun code member => bne_iff_ne.mpr (nonzero code member)]
    simp
  simp only [ftCharcodes, wellFormed, if_pos short, copied, Option.bind_eq_bind, Option.bind_some,
    if_true, string, conversion]
  split
  · rename_i fits
    rw [wcscpy_eq (fits.trans_le whole.ge), Option.bind_some]
  · rename_i tooLong
    rw [wcscpy, whole, if_neg tooLong, Option.bind_none]

theorem ituFt_codes {ft : FtState} (hasFont : ft.hasFont = true) (arabic : ft.arabic = true)
    (stack : List Nat) (text : List UInt8) :
    (ituFtDrawText convertArabic ft stack text).map Prod.fst =
        ftCharcodes convertArabic true stack text ∧
      (ituFtGetTextDimension convertArabic ft stack text).map Prod.fst =
        ftCharcodes convertArabic true stack text := by
  rw [ituFtDrawText, ituFtGetTextDimension, if_pos hasFont, if_pos hasFont, arabic,
    Option.map_map, Option.map_map]
  exact ⟨congrFun Option.map_id _, congrFun Option.map_id _⟩

/-- The converted text is drawn and measured exactly if it is as long as the text. -/
theorem ituFtDrawText_converted_iff
    {convertArabic : List Nat → Option (List Nat)} {ft : FtState} {codes converted : List Nat}
    {text : List UInt8} (hasFont : ft.hasFont = true) (arabic : ft.arabic = true)
    (wellFormed : mbstowcs 512 text = some codes) (short : codes.length < 512)
    (nonzero : ∀ code ∈ codes, code ≠ 0) (conversion : convertArabic codes = some converted) :
    DrawsConverted convertArabic ft text converted ↔ converted.length = codes.length := by
  constructor
  · intro draws
    have wide : (List.replicate 512 0).length = 512 := List.length_replicate
    have same := (draws _ wide).1
    rw [(ituFt_codes hasFont arabic _ text).1, ftCharcodes_arabic wide wellFormed short nonzero conversion] at same
    split at same
    · rw [← Option.some.inj same, List.length_take]
      simp only [List.length_append, List.length_cons, List.length_drop]
      omega
    · cases same
  · intro sameLength stack wide
    obtain ⟨draw, measure⟩ := @ituFt_codes convertArabic ft hasFont arabic stack text
    rw [draw, measure, ftCharcodes_arabic wide wellFormed short nonzero conversion,
      if_pos (sameLength ▸ short), ← sameLength, List.take_left]
    exact ⟨rfl, rfl⟩

/-- A conversion that joins lam and alef, and leaves other texts as they are. -/
def joinLamAlef (codes : List Nat) : Option (List Nat) :=
  if codes = [0x644, 0x627] then some [0xFEFB] else some codes

def arabicFont : FtState := ⟨true, true, fun _ => .glyph 8⟩

theorem ituFtDrawText_converted_iff_alef :
    DrawsConverted joinLamAlef arabicFont [0xD8, 0xA7] [0x627] ↔ [0x627].length = [0x627].length :=
  ituFtDrawText_converted_iff rfl rfl (by decide) (by decide) (by decide) rfl

/-- Lam and alef are joined, and two more codes are drawn than the one of the result. -/
theorem ituFtDrawText_lamAlef :
    ¬ ∀ (convertArabic : List Nat → Option (List Nat)) (ft : FtState) (codes converted : List Nat)
        (text : List UInt8), ft.hasFont = true → ft.arabic = true →
          mbstowcs 512 text = some codes → codes.length < 512 → (∀ code ∈ codes, code ≠ 0) →
            convertArabic codes = some converted →
              DrawsConverted convertArabic ft text converted := by
  intro draws
  have wide : (List.replicate 512 7).length = 512 := List.length_replicate
  have drawn := (draws joinLamAlef arabicFont [0x644, 0x627] [0xFEFB] [0xD9, 0x84, 0xD8, 0xA7] rfl
    rfl (by decide) (by decide) (by decide) rfl (List.replicate 512 7) wide).1
  rw [(ituFt_codes rfl rfl _ _).1,
    @ftCharcodes_arabic joinLamAlef _ [0x644, 0x627] [0xFEFB] _ wide (by decide) (by decide)
      (by decide) rfl, if_pos (by decide)] at drawn
  have length := congrArg List.length (Option.some.inj drawn)
  simp only [List.length_take, List.length_append, List.length_cons, List.length_nil] at length
  omega

end IteSdk.Itu
