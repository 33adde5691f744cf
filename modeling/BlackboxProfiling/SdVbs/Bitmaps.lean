import BlackboxProfiling.SdVbs.ReadImage

/-!
BMP files and what `readImage` makes of them. The format fills each row up to a multiple
of four bytes; `readImage` takes the rows as they come.
-/

namespace BlackboxProfiling.SdVbs

open ByteStream

/-- What a BMP file holds besides its pixels, whose channels are grey alone, or blue,
green and red. -/
structure BitmapFormat where
  width : Nat
  height : Nat
  channels : Nat
  others : Field → Nat
  gap : List Byte
  widthPositive : 0 < width
  heightPositive : 0 < height
  known : channels = 1 ∨ channels = 3
  small : 8 + 4 * (height * width) < 2 ^ 32
  near : 54 + gap.length < 2 ^ 31

namespace BitmapFormat

variable (format : BitmapFormat)

def fields : Field → Nat
  | .signature => 0x4D42
  | .locOfBitmap => 54 + format.gap.length
  | .width => format.width
  | .height => format.height
  | .bitsPerPixel => 8 * format.channels
  | field => format.others field

def rowBytes : Nat := format.width * format.channels

def padding : Nat := (4 - format.rowBytes % 4) % 4

def encodeRow (content : Nat → Nat → Nat → Byte) (i : Nat) : List Byte :=
  (List.range format.rowBytes).map
    (fun place => content i (place / format.channels) (place % format.channels)) ++
      List.replicate format.padding 0

/-- The file: the rows stand behind the header and a gap, the last one first. -/
def encode (content : Nat → Nat → Nat → Byte) : List Byte :=
  encodeFields Field.size headerFields format.fields ++ (format.gap ++
    (List.range format.height).flatMap (fun row => format.encodeRow content (format.height - 1 - row)))

def green : Nat := if format.channels = 1 then 0 else 1

/-- The channel that `readImage` takes. -/
def shade (content : Nat → Nat → Nat → Byte) (i j : Nat) : Int := (content i j format.green).toNat

variable (content : Nat → Nat → Nat → Byte)

private theorem headerOf_encode (field : Field) (k : Nat) (inside : k < field.size) :
    headerOf (format.encode content) field k = BitVec.ofNat 8 (format.fields field / 256 ^ k) := by
  have written := encodeFields_get Field.size headerFields format.fields field
    (mem_headerFields field) k inside
  obtain ⟨within, _byte⟩ := List.getElem?_eq_some_iff.mp written
  rw [headerOf, List.getD_eq_getElem?_getD, encode, List.getElem?_append_left within, written,
    Option.getD_some]

private theorem signed_headerOf (field : Field) (fits : 2 * format.fields field < 256 ^ field.size) :
    signed field.size (headerOf (format.encode content) field) = format.fields field := by
  have value := number_encode (format.fields field) field.size _ (format.headerOf_encode content field)
  have bits : 2 ^ (8 * field.size) = 256 ^ field.size := Nat.pow_mul 2 8 field.size
  rw [Nat.mod_eq_of_lt (by omega)] at value
  have same : (BitVec.ofNat (8 * field.size) (format.fields field)).toNat = format.fields field := by
    rw [BitVec.toNat_ofNat, bits, Nat.mod_eq_of_lt (by omega)]
  rw [signed, value, BitVec.toInt_eq_toNat_of_lt (by rw [same, bits]; exact fits), same]

private theorem sides_small : format.width < 2 ^ 30 ∧ format.height < 2 ^ 30 := by
  have small := format.small
  have width := Nat.le_mul_of_pos_left format.width format.heightPositive
  have height := Nat.le_mul_of_pos_right format.height format.widthPositive
  omega

private theorem headerWidth_encode : headerWidth (format.encode content) = format.width := by
  have small := format.sides_small.1
  exact format.signed_headerOf content .width (by
    show 2 * format.width < 256 ^ 4
    omega)

private theorem headerHeight_encode : headerHeight (format.encode content) = format.height := by
  have small := format.sides_small.2
  exact format.signed_headerOf content .height (by
    show 2 * format.height < 256 ^ 4
    omega)

private theorem headerBits_encode : headerBits (format.encode content) =
    (8 * format.channels : Nat) := by
  have known := format.known
  exact format.signed_headerOf content .bitsPerPixel (by
    show 2 * (8 * format.channels) < 256 ^ 2
    omega)

private theorem bitmapStart_encode : bitmapStart (format.encode content) = 54 + format.gap.length := by
  have near := format.near
  have loc : signed 4 (headerOf (format.encode content) .locOfBitmap) = (54 + format.gap.length : Nat) :=
    format.signed_headerOf content .locOfBitmap (by
      show 2 * (54 + format.gap.length) < 256 ^ 4
      omega)
  rw [bitmapStart, loc, if_neg (Int.not_lt.mpr (Int.natCast_nonneg _)), Int.toNat_natCast]

private theorem acceptable_encode : Acceptable (format.encode content) := by
  have letterB : BitVec.ofNat 8 (format.fields .signature / 256 ^ 0) = 66 := by
    rw [fields]
    decide
  have letterM : BitVec.ofNat 8 (format.fields .signature / 256 ^ 1) = 77 := by
    rw [fields]
    decide
  have first := (format.headerOf_encode content .signature 0 (by decide)).trans letterB
  have second := (format.headerOf_encode content .signature 1 (by decide)).trans letterM
  refine ⟨?_, ?_, first, second, ?_⟩
  · rw [headerHeight_encode]
    exact Int.natCast_pos.mpr format.heightPositive
  · rw [headerWidth_encode]
    exact Int.natCast_pos.mpr format.widthPositive
  · rw [headerBits_encode]
    have known := format.known
    omega

private theorem pixelSize_encode : pixelSize
    (headerBits (format.encode content)) = format.channels := by
  rw [headerBits_encode, pixelSize]
  rcases format.known with grey | colors
  · rw [grey]
    rfl
  · rw [colors]
    rfl

private theorem greenPlace_encode : greenPlace (headerBits (format.encode content)) = format.green := by
  rw [headerBits_encode, greenPlace, green]
  rcases format.known with grey | colors
  · rw [grey]
    rfl
  · rw [colors]
    rfl

private theorem encodeRow_length (i : Nat) :
    (format.encodeRow content i).length = format.rowBytes + format.padding := by
  rw [encodeRow, List.length_append, List.length_map, List.length_range, List.length_replicate]

private theorem encodeRow_pixel (i place : Nat) (inside : place < format.rowBytes) :
    (format.encodeRow content i)[place]? =
      some (content i (place / format.channels) (place % format.channels)) := by
  rw [encodeRow, List.getElem?_append_left (by rwa [List.length_map, List.length_range]),
    List.getElem?_map, List.getElem?_range inside]
  rfl

private theorem encodeRow_padding (i place : Nat) (beyond : format.rowBytes ≤ place)
    (inside : place < format.rowBytes + format.padding) :
    (format.encodeRow content i)[place]? = some 0 := by
  rw [encodeRow, List.getElem?_append_right (by rwa [List.length_map, List.length_range]),
    List.length_map, List.length_range, List.getElem?_replicate, if_pos (by omega)]

private theorem encode_row (row place : Nat) (rowInside : row < format.height)
    (inside : place < format.rowBytes + format.padding) :
    (format.encode content)[54 + format.gap.length + (row * (format.rowBytes + format.padding) + place)]? =
      (format.encodeRow content (format.height - 1 - row))[place]? := by
  have header : (encodeFields Field.size headerFields format.fields).length = 54 := by
    rw [encodeFields_length]
    rfl
  rw [encode, Nat.add_assoc, List.getElem?_append_right (by rw [header]; exact Nat.le_add_right _ _),
    header, Nat.add_sub_cancel_left, List.getElem?_append_right (Nat.le_add_right _ _),
    Nat.add_sub_cancel_left]
  exact flatMap_get (fun row => format.encodeRow content (format.height - 1 - row))
    (format.rowBytes + format.padding) (List.range format.height)
    (fun row _member => format.encodeRow_length content _) row place row
    (List.getElem?_range rowInside) inside

theorem readImage_encode (malloc : Nat → Option (Nat → Int)) (unset : Locals) (data : Nat → Int)
    (granted : malloc (imageBytes format.height format.width) = some data) :
    ∃ image, readImage malloc unset (some (format.encode content)) = some (.read image) ∧
      image.width = format.width ∧ image.height = format.height ∧
      ∀ i < format.height, ∀ j < format.width, ∀ byte,
        (format.encode content)[54 + format.gap.length +
          ((format.height - 1 - i) * format.rowBytes + (j * format.channels + format.green))]? = some byte →
        image.subsref i j = byte.toNat := by
  have small := format.small
  have block : imageBytes format.height format.width = 8 + 4 * (format.height * format.width) := by
    rw [imageBytes_eq, Nat.mod_eq_of_lt small]
  have complete : 54 ≤ (format.encode content).length := by
    rw [encode, List.length_append, encodeFields_length]
    exact Nat.le_add_right _ _
  obtain ⟨overruns, reads⟩ := (readImage_reads malloc unset (format.encode content) complete data
    (by rw [headerHeight_encode, headerWidth_encode, granted])
    (by rw [headerHeight_encode, headerWidth_encode, block]; exact Nat.le_add_right _ _)).2
    (format.acceptable_encode content)
  rw [headerHeight_encode, headerWidth_encode] at overruns
  cases result : readImage malloc unset (some (format.encode content)) with
  | none =>
      have wraps := overruns.mp result
      omega
  | some reading =>
      obtain ⟨image, isImage, width, height, pixels⟩ := reads reading result
      rw [headerWidth_encode] at width
      rw [headerHeight_encode] at height
      have isWidth := Int.ofNat.inj width
      have isHeight := Int.ofNat.inj height
      rw [isImage]
      refine ⟨image, rfl, isWidth, isHeight, ?_⟩
      intro i inside j jInside byte there
      have here := pixels i (by rwa [isHeight]) j (by rwa [isWidth])
      have place : 54 + format.gap.length + ((format.height - 1 - i) * format.width + j) * format.channels +
          format.green = 54 + format.gap.length +
            ((format.height - 1 - i) * format.rowBytes + (j * format.channels + format.green)) := by
        rw [rowBytes, Nat.add_mul, ← Nat.mul_assoc]
        omega
      rw [isWidth, isHeight, heldByte, bitmapStart_encode, pixelSize_encode, greenPlace_encode, place,
        there, Option.getD_some] at here
      exact here

private theorem green_lt : format.green < format.channels := by
  have known := format.known
  rw [green]
  split <;> omega

private theorem column_lt (j k : Nat) (inside : j < format.width) (isChannel : k < format.channels) :
    j * format.channels + k < format.rowBytes := by
  have next := Nat.mul_le_mul_right format.channels (Nat.succ_le_of_lt inside)
  rw [Nat.succ_mul] at next
  rw [rowBytes]
  omega

private theorem encodeRow_channel (i j k : Nat) (inside : j < format.width)
    (isChannel : k < format.channels) :
    (format.encodeRow content i)[j * format.channels + k]? = some (content i j k) := by
  have column : (j * format.channels + k) / format.channels = j := by
    rw [Nat.add_comm, Nat.add_mul_div_right _ _ (by omega), Nat.div_eq_of_lt isChannel, Nat.zero_add]
  have channel : (j * format.channels + k) % format.channels = k := by
    rw [Nat.add_comm, Nat.add_mul_mod_self_right, Nat.mod_eq_of_lt isChannel]
  rw [encodeRow_pixel _ _ _ _ (format.column_lt j k inside isChannel), column, channel]

/-- Without padding in between every pixel is read at its place. -/
theorem readImage_aligned (malloc : Nat → Option (Nat → Int)) (unset : Locals) (data : Nat → Int)
    (granted : malloc (imageBytes format.height format.width) = some data)
    (simple : format.rowBytes % 4 = 0 ∨ format.height = 1) :
    ∃ image, readImage malloc unset (some (format.encode content)) = some (.read image) ∧
      image.width = format.width ∧ image.height = format.height ∧
      ∀ i < format.height, ∀ j < format.width,
        image.subsref i j = format.shade content i j := by
  have padding : format.padding = (4 - format.rowBytes % 4) % 4 := rfl
  obtain ⟨image, result, width, height, pixels⟩ :=
    format.readImage_encode content malloc unset data granted
  refine ⟨image, result, width, height, ?_⟩
  intro i inside j jInside
  have rowEnd : (format.height - 1 - i) * format.rowBytes =
      (format.height - 1 - i) * (format.rowBytes + format.padding) := by
    rcases simple with aligned | single
    · have none : format.padding = 0 := by omega
      rw [none, Nat.add_zero]
    · have first : format.height - 1 - i = 0 := by omega
      rw [first, Nat.zero_mul, Nat.zero_mul]
  have column := format.column_lt j format.green jInside format.green_lt
  have back : format.height - 1 - (format.height - 1 - i) = i := by omega
  apply pixels i inside j jInside
  rw [rowEnd, format.encode_row content _ _ (by omega) (by omega), back]
  exact format.encodeRow_channel content i j format.green jInside format.green_lt

end BitmapFormat

/-- `readImage` reads every BMP file of a format correctly exactly if its rows need no
padding, or there is but one. -/
theorem readImage_bitmap_iff (malloc : Nat → Option (Nat → Int)) (unset : Locals)
    (format : BitmapFormat) (data : Nat → Int)
    (granted : malloc (imageBytes format.height format.width) = some data) :
    (∀ content, ∃ image, readImage malloc unset (some (format.encode content)) = some (.read image) ∧
        image.width = format.width ∧ image.height = format.height ∧
        ∀ i < format.height, ∀ j < format.width,
          image.subsref i j = format.shade content i j) ↔
      format.width * format.channels % 4 = 0 ∨ format.height = 1 := by
  have green := format.green_lt
  have pixel := format.column_lt 0 format.green format.widthPositive green
  rw [Nat.zero_mul, Nat.zero_add] at pixel
  have padding : format.padding = (4 - format.rowBytes % 4) % 4 := rfl
  rw [← BitmapFormat.rowBytes]
  constructor
  · intro correct
    by_contra padded
    obtain ⟨unaligned, notOne⟩ := not_or.mp padded
    have several : 2 ≤ format.height := by
      have positive := format.heightPositive
      omega
    -- green is one everywhere, so no other byte passes for a green one
    obtain ⟨image, result, _width, _height, pixels⟩ :=
      correct (fun _i _j k => if k = format.green then 1 else 0)
    obtain ⟨other, otherResult, _otherWidth, _otherHeight, otherPixels⟩ :=
      format.readImage_encode (fun _i _j k => if k = format.green then 1 else 0) malloc unset data granted
    rw [result] at otherResult
    have same : image = other := Reading.read.inj (Option.some.inj otherResult)
    have above : format.height - 1 - (format.height - 2) = 1 := by omega
    have read := otherPixels (format.height - 2) (by omega) 0 format.widthPositive 0
    rw [above, Nat.one_mul, Nat.zero_mul, Nat.zero_add] at read
    have wrong : image.subsref (format.height - 2) 0 = 0 := by
      rw [same]
      apply read
      by_cases inPadding : format.green < format.padding
      · have place : format.rowBytes + format.green =
            0 * (format.rowBytes + format.padding) + (format.rowBytes + format.green) := by
          rw [Nat.zero_mul, Nat.zero_add]
        rw [place, format.encode_row _ 0 _ format.heightPositive (by omega)]
        exact format.encodeRow_padding _ _ _ (Nat.le_add_right _ _) (by omega)
      · -- one byte of padding, then the blue of the next row
        have atMost : format.green ≤ 1 := by
          rw [BitmapFormat.green]
          split
          · exact Nat.zero_le 1
          · exact Nat.le_refl 1
        have isOne : format.green = 1 ∧ format.padding = 1 := by omega
        have place : format.rowBytes + format.green =
            1 * (format.rowBytes + format.padding) + (0 * format.channels + 0) := by
          omega
        rw [place, format.encode_row _ 1 _ (by omega) (by omega),
          format.encodeRow_channel _ _ 0 0 format.widthPositive (by omega), isOne.1]
        rfl
    have right := pixels (format.height - 2) (by omega) 0 format.widthPositive
    rw [BitmapFormat.shade, if_pos rfl, wrong] at right
    exact absurd right (by decide)
  · intro simple content
    exact format.readImage_aligned content malloc unset data granted simple

def threeByTwo : BitmapFormat where
  width := 3
  height := 2
  channels := 1
  others := fun _field => 0
  gap := []
  widthPositive := Nat.zero_lt_succ 2
  heightPositive := Nat.zero_lt_succ 1
  known := Or.inl rfl
  small := by decide
  near := by decide

theorem readImage_bitmap_iff_sample :
    ¬ ∀ content, ∃ image,
      readImage (fun _size => some (fun _k => 0)) zeroLocals (some (threeByTwo.encode content)) =
        some (.read image) ∧ image.width = 3 ∧ image.height = 2 ∧
        ∀ i < 2, ∀ j < 3, image.subsref i j = (content i j 0).toNat := by
  intro correct
  have simple := (readImage_bitmap_iff (fun _size => some (fun _k => 0)) zeroLocals threeByTwo
    (fun _k => 0) rfl).mp correct
  exact absurd simple (by decide)

end BlackboxProfiling.SdVbs
