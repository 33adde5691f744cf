import BlackboxProfiling.ByteStream
import BlackboxProfiling.SdVbs.Images
import Mathlib.Algebra.Group.Int.Defs

/-!
`readImage.c`: a BMP file of bytes as an image. `size_t` has 32 bits.
-/

namespace BlackboxProfiling.SdVbs

open ByteStream

inductive Field where
  | signature
  | fileSize
  | reserved1
  | reserved2
  | locOfBitmap
  | sizeOfInfoheader
  | width
  | height
  | numberOfPlanes
  | bitsPerPixel
  | compressionMethod
  | bytesOfBitmap
  | horiReso
  | vertReso
  | noOfColors
  | noOfImpColors
  deriving DecidableEq

def Field.size : Field → Nat
  | .signature => 2
  | .reserved1 => 2
  | .reserved2 => 2
  | .numberOfPlanes => 2
  | .bitsPerPixel => 2
  | _ => 4

def headerFields : List Field :=
  [.signature, .fileSize, .reserved1, .reserved2, .locOfBitmap, .sizeOfInfoheader, .width, .height,
    .numberOfPlanes, .bitsPerPixel, .compressionMethod, .bytesOfBitmap, .horiReso, .vertReso,
    .noOfColors, .noOfImpColors]

/-- What the variables hold before anything is read into them. -/
structure Locals where
  header : Field → Nat → Byte
  tempb : Byte
  tempg : Byte
  tempr : Byte

def signed (size : Nat) (object : Nat → Byte) : Int :=
  (BitVec.ofNat (8 * size) (number object size)).toInt

def imageBytes (rows cols : Int) : Nat := ((8 + 4 * rows * cols) % 2 ^ 32).toNat

inductive Reading where
  | refused
  | read (image : I2D)

structure Scan where
  stream : Stream
  tempb : Byte
  tempg : Byte
  tempr : Byte
  data : Nat → Int

def readByte (old : Byte) (stream : Stream) : Byte × Stream :=
  let (object, rest) := fread 1 (fun _k => old) stream
  (object 0, rest)

/-- The bytes of one pixel: green alone, or blue, green and red. -/
def readPixel (bitsPerPixel : Int) (scan : Scan) : Scan :=
  if bitsPerPixel = 8 then
    let (tempg, stream) := readByte scan.tempg scan.stream
    { scan with stream := stream, tempg := tempg }
  else
    let (tempb, afterBlue) := readByte scan.tempb scan.stream
    let (tempg, afterGreen) := readByte scan.tempg afterBlue
    let (tempr, stream) := readByte scan.tempr afterGreen
    { scan with stream := stream, tempb := tempb, tempg := tempg, tempr := tempr }

/-- A store behind the block is no result. -/
def storePixel (room width nI nJ : Nat) (scan : Scan) : Option Scan :=
  if 8 + 4 * (nI * width + nJ + 1) ≤ room then
    some { scan with data := Function.update scan.data (nI * width + nJ) scan.tempg.toNat }
  else none

def readRow (bitsPerPixel : Int) (room width nI : Nat) : Nat → Scan → Option Scan
  | 0, scan => some scan
  | nJ + 1, scan => do
      let before ← readRow bitsPerPixel room width nI nJ scan
      storePixel room width nI nJ (readPixel bitsPerPixel before)

def readRows (bitsPerPixel : Int) (room width : Nat) : Nat → Scan → Option Scan
  | 0, scan => some scan
  | nI + 1, scan => do
      let below ← readRow bitsPerPixel room width nI width scan
      readRows bitsPerPixel room width nI below

/-- `readImage`, with what `malloc` finds for a size; no block, or one that is too small for
the dimensions, is no result. -/
def readImage (malloc : Nat → Option (Nat → Int)) (unset : Locals) (input : Option (List Byte)) :
    Option Reading :=
  match input with
  | none => some .refused
  | some bytes => do
      let (header, stream) := readFields Field.size headerFields unset.header ⟨bytes, 0⟩
      let width := signed 4 (header .width)
      let height := signed 4 (header .height)
      let bitsPerPixel := signed 2 (header .bitsPerPixel)
      let room := imageBytes height width
      let data ← malloc room
      if room < 8 then none
      else if height ≤ 0 ∨ width ≤ 0 ∨ header .signature 0 ≠ 66 ∨ header .signature 1 ≠ 77 ∨
          (bitsPerPixel ≠ 24 ∧ bitsPerPixel ≠ 8) then some .refused
      else do
        let scan ← readRows bitsPerPixel room width.toNat height.toNat
          ⟨fseek (signed 4 (header .locOfBitmap)) stream, unset.tempb, unset.tempg, unset.tempr, data⟩
        return .read ⟨width.toNat, height.toNat, scan.data⟩

def pixelSize (bitsPerPixel : Int) : Nat := if bitsPerPixel = 8 then 1 else 3

def greenPlace (bitsPerPixel : Int) : Nat := if bitsPerPixel = 8 then 0 else 1

/-- `tempg` after the first pixels, which lie one after the other: at the end of the file it
keeps its value. -/
def heldByte (bytes : List Byte) (start : Nat) (bitsPerPixel : Int) (unset : Byte) : Nat → Byte
  | 0 => unset
  | count + 1 =>
      (bytes[start + count * pixelSize bitsPerPixel + greenPlace bitsPerPixel]?).getD
        (heldByte bytes start bitsPerPixel unset count)

def ReadTo (bytes : List Byte) (place : Nat) (stream : Stream) : Prop :=
  stream.bytes = bytes ∧
    (stream.position = place ∨ bytes.length ≤ stream.position ∧ bytes.length ≤ place)

private theorem readByte_readTo (bytes : List Byte) (place : Nat) (stream : Stream) (old : Byte)
    (before : ReadTo bytes place stream) :
    (readByte old stream).1 = (bytes[place]?).getD old ∧
      ReadTo bytes (place + 1) (readByte old stream).2 := by
  obtain ⟨same, position⟩ := before
  have value : (readByte old stream).1 = (stream.bytes[stream.position]?).getD old := rfl
  have next : (readByte old stream).2.position =
      stream.position + min 1 (stream.bytes.length - stream.position) := rfl
  rw [same] at value next
  rw [value]
  rcases position with here | ⟨past, placePast⟩
  · rw [here] at next ⊢
    refine ⟨rfl, same, ?_⟩
    rw [next]
    omega
  · rw [List.getElem?_eq_none past, List.getElem?_eq_none placePast]
    refine ⟨rfl, same, Or.inr ?_⟩
    rw [next]
    omega

structure Scanned (bytes : List Byte) (start : Nat) (bitsPerPixel : Int) (unset : Byte) (count : Nat)
    (scan : Scan) : Prop where
  place : ReadTo bytes (start + count * pixelSize bitsPerPixel) scan.stream
  held : scan.tempg = heldByte bytes start bitsPerPixel unset count

section

variable {bytes : List Byte} {start : Nat} {bitsPerPixel : Int} {unset : Byte}

private theorem readPixel_scanned {count : Nat} {scan : Scan}
    (scanned : Scanned bytes start bitsPerPixel unset count scan) :
    Scanned bytes start bitsPerPixel unset (count + 1) (readPixel bitsPerPixel scan) ∧
      (readPixel bitsPerPixel scan).data = scan.data := by
  obtain ⟨place, held⟩ := scanned
  have pixels := Nat.succ_mul count (pixelSize bitsPerPixel)
  by_cases eight : bitsPerPixel = 8
  · have size : pixelSize bitsPerPixel = 1 := if_pos eight
    have green : greenPlace bitsPerPixel = 0 := if_pos eight
    obtain ⟨value, next⟩ := readByte_readTo bytes _ scan.stream scan.tempg place
    rw [readPixel, if_pos eight]
    refine ⟨⟨?_, ?_⟩, rfl⟩
    · rw [size] at next pixels ⊢
      rw [pixels, ← Nat.add_assoc]
      exact next
    · rw [heldByte, green, ← held]
      exact value
  · have size : pixelSize bitsPerPixel = 3 := if_neg eight
    have green : greenPlace bitsPerPixel = 1 := if_neg eight
    obtain ⟨_blue, afterBlue⟩ := readByte_readTo bytes _ scan.stream scan.tempb place
    obtain ⟨value, afterGreen⟩ := readByte_readTo bytes _ _ scan.tempg afterBlue
    obtain ⟨_red, next⟩ := readByte_readTo bytes _ _ scan.tempr afterGreen
    rw [readPixel, if_neg eight]
    refine ⟨⟨?_, ?_⟩, rfl⟩
    · rw [size] at next pixels ⊢
      rw [pixels, ← Nat.add_assoc]
      exact next
    · rw [heldByte, green, ← held]
      exact value

theorem readRow_stores (room width nI : Nat) {count : Nat} {scan : Scan}
    (scanned : Scanned bytes start bitsPerPixel unset count scan) (nJ : Nat)
    (within : 8 + 4 * (nI * width + nJ) ≤ room) :
    ∃ after, readRow bitsPerPixel room width nI nJ scan = some after ∧
      Scanned bytes start bitsPerPixel unset (count + nJ) after ∧
      (∀ j < nJ, after.data (nI * width + j) =
        (heldByte bytes start bitsPerPixel unset (count + j + 1)).toNat) ∧
      ∀ k, k < nI * width ∨ nI * width + nJ ≤ k → after.data k = scan.data k := by
  induction nJ with
  | zero =>
      exact ⟨scan, rfl, scanned, fun j none => absurd none (Nat.not_lt_zero j), fun k _outside => rfl⟩
  | succ nJ ih =>
      obtain ⟨before, ran, scannedBefore, stored, kept⟩ := ih (by omega)
      obtain ⟨next, sameData⟩ := readPixel_scanned scannedBefore
      rw [readRow, ran, Option.bind_eq_bind, Option.bind_some, storePixel, if_pos (by omega), sameData]
      refine ⟨_, rfl, ⟨next.place, next.held⟩, ?_, ?_⟩
      · intro j inside
        dsimp only
        by_cases last : j = nJ
        · rw [last, Function.update_self, next.held, Nat.add_assoc]
        · rw [Function.update_of_ne (by omega)]
          exact stored j (by omega)
      · intro k outside
        dsimp only
        rw [Function.update_of_ne (by omega)]
        exact kept k (by omega)

theorem readRows_stores (room width : Nat) (rows : Nat) {count : Nat} {scan : Scan}
    (scanned : Scanned bytes start bitsPerPixel unset count scan)
    (within : 8 + 4 * (rows * width) ≤ room) :
    ∃ after, readRows bitsPerPixel room width rows scan = some after ∧
      (∀ i < rows, ∀ j < width, after.data (i * width + j) =
        (heldByte bytes start bitsPerPixel unset (count + (rows - 1 - i) * width + j + 1)).toNat) ∧
      ∀ k, rows * width ≤ k → after.data k = scan.data k := by
  induction rows generalizing count scan with
  | zero =>
      exact ⟨scan, rfl, fun i none => absurd none (Nat.not_lt_zero i), fun k _outside => rfl⟩
  | succ nI ih =>
      rw [Nat.succ_mul nI width] at within
      obtain ⟨below, ran, scannedBelow, stored, kept⟩ :=
        readRow_stores room width nI scanned width within
      obtain ⟨after, ranRows, above, keptRows⟩ := ih scannedBelow (by omega)
      rw [readRows, ran, Option.bind_eq_bind, Option.bind_some, ranRows]
      refine ⟨after, rfl, ?_, ?_⟩
      · intro i inside j jInside
        rcases Nat.lt_or_eq_of_le (Nat.le_of_lt_succ inside) with earlier | last
        · have rowsBetween : nI + 1 - 1 - i = (nI - 1 - i) + 1 := by omega
          have place : count + (nI + 1 - 1 - i) * width + j + 1 =
              count + width + (nI - 1 - i) * width + j + 1 := by
            rw [rowsBetween, Nat.succ_mul]
            omega
          rw [above i earlier j jInside, place]
        · have place : count + (nI + 1 - 1 - nI) * width + j + 1 = count + j + 1 := by
            rw [Nat.add_sub_cancel, Nat.sub_self, Nat.zero_mul]
            rfl
          rw [last, keptRows _ (Nat.le_add_right _ _), stored j jInside, place]
      · intro k outside
        rw [Nat.succ_mul nI width] at outside
        rw [keptRows k (by omega), kept k (by omega)]

theorem readRow_overrun (room width nI : Nat) (scan : Scan) (positive : 0 < width)
    (beyond : room < 8 + 4 * (nI * width + width)) :
    readRow bitsPerPixel room width nI width scan = none := by
  obtain ⟨nJ, isWidth⟩ := Nat.exists_eq_succ_of_ne_zero (Nat.pos_iff_ne_zero.mp positive)
  have steps : readRow bitsPerPixel room width nI (nJ + 1) scan = none := by
    rw [readRow]
    cases readRow bitsPerPixel room width nI nJ scan with
    | none => rfl
    | some before => exact if_neg (by omega)
  rw [isWidth]
  rw [isWidth] at steps
  exact steps

private theorem readRows_overrun (room width rows : Nat) (scan : Scan) (positive : 0 < width)
    (nonempty : 0 < rows) (beyond : room < 8 + 4 * (rows * width)) :
    readRows bitsPerPixel room width rows scan = none := by
  obtain ⟨nI, rfl⟩ := Nat.exists_eq_succ_of_ne_zero (Nat.pos_iff_ne_zero.mp nonempty)
  rw [Nat.succ_mul nI width] at beyond
  rw [readRows, readRow_overrun room width nI scan positive beyond]
  rfl

end

def headerOf (bytes : List Byte) (field : Field) (k : Nat) : Byte :=
  bytes.getD (offset Field.size headerFields field + k) 0

def headerWidth (bytes : List Byte) : Int := signed 4 (headerOf bytes .width)

def headerHeight (bytes : List Byte) : Int := signed 4 (headerOf bytes .height)

def headerBits (bytes : List Byte) : Int := signed 2 (headerOf bytes .bitsPerPixel)

/-- Where the pixels start: a negative offset leaves the position behind the header. -/
def bitmapStart (bytes : List Byte) : Nat :=
  if signed 4 (headerOf bytes .locOfBitmap) < 0 then 54
  else (signed 4 (headerOf bytes .locOfBitmap)).toNat

def Acceptable (bytes : List Byte) : Prop :=
  0 < headerHeight bytes ∧ 0 < headerWidth bytes ∧ headerOf bytes .signature 0 = 66 ∧
    headerOf bytes .signature 1 = 77 ∧ (headerBits bytes = 24 ∨ headerBits bytes = 8)

private theorem signed_congr (size : Nat) (object other : Nat → Byte)
    (same : ∀ k < size, object k = other k) : signed size object = signed size other := by
  rw [signed, signed, number_congr object other size same]

theorem mem_headerFields (field : Field) : field ∈ headerFields := by
  cases field <;> decide

private theorem readHeader (unset : Field → Nat → Byte) (bytes : List Byte)
    (complete : 54 ≤ bytes.length) :
    (readFields Field.size headerFields unset ⟨bytes, 0⟩).2 = ⟨bytes, 54⟩ ∧
      ∀ field, ∀ k < field.size,
        (readFields Field.size headerFields unset ⟨bytes, 0⟩).1 field k = headerOf bytes field k := by
  obtain ⟨stream, each⟩ := readFields_complete Field.size headerFields (by decide) unset ⟨bytes, 0⟩
    complete
  refine ⟨stream, ?_⟩
  intro field k inside
  have here := each field (mem_headerFields field) k inside
  rw [Nat.zero_add] at here
  rw [headerOf, List.getD_eq_getElem?_getD, here, Option.getD_some]

theorem readImage_eq (malloc : Nat → Option (Nat → Int)) (unset : Locals) (bytes : List Byte)
    (complete : 54 ≤ bytes.length) (data : Nat → Int)
    (granted : malloc (imageBytes (headerHeight bytes) (headerWidth bytes)) = some data)
    (large : 8 ≤ imageBytes (headerHeight bytes) (headerWidth bytes)) :
    readImage malloc unset (some bytes) =
      if headerHeight bytes ≤ 0 ∨ headerWidth bytes ≤ 0 ∨ headerOf bytes .signature 0 ≠ 66 ∨
          headerOf bytes .signature 1 ≠ 77 ∨ (headerBits bytes ≠ 24 ∧ headerBits bytes ≠ 8) then
        some .refused
      else (readRows (headerBits bytes) (imageBytes (headerHeight bytes) (headerWidth bytes))
          (headerWidth bytes).toNat (headerHeight bytes).toNat
          ⟨⟨bytes, bitmapStart bytes⟩, unset.tempb, unset.tempg, unset.tempr, data⟩).map
            (fun scan => .read ⟨(headerWidth bytes).toNat, (headerHeight bytes).toNat, scan.data⟩) := by
  obtain ⟨stream, each⟩ := readHeader unset.header bytes complete
  have width := signed_congr 4 _ _ (each .width)
  have height := signed_congr 4 _ _ (each .height)
  have bits := signed_congr 2 _ _ (each .bitsPerPixel)
  have loc := signed_congr 4 _ _ (each .locOfBitmap)
  have first := each .signature 0 (by decide)
  have second := each .signature 1 (by decide)
  have start : fseek (signed 4 (headerOf bytes .locOfBitmap)) ⟨bytes, 54⟩ =
      ⟨bytes, bitmapStart bytes⟩ := by
    rw [fseek, bitmapStart]
    split <;> rfl
  rw [readImage]
  dsimp only
  rw [stream, width, height, bits, loc, first, second, start]
  rw [← headerWidth, ← headerHeight, ← headerBits, granted, Option.bind_eq_bind, Option.bind_some,
    if_neg (Nat.not_lt.mpr large)]
  cases readRows (headerBits bytes) (imageBytes (headerHeight bytes) (headerWidth bytes))
      (headerWidth bytes).toNat (headerHeight bytes).toNat
      ⟨⟨bytes, bitmapStart bytes⟩, unset.tempb, unset.tempg, unset.tempr, data⟩ <;> rfl

theorem imageBytes_eq (rows cols : Nat) :
    imageBytes rows cols = (8 + 4 * (rows * cols)) % 2 ^ 32 := by
  have cast : (8 + 4 * (rows : Int) * cols) % 2 ^ 32 = ((8 + 4 * (rows * cols)) % 2 ^ 32 : Nat) := by
    rw [Int.mul_assoc]
    rfl
  rw [imageBytes, cast, Int.toNat_natCast]

/-- The condition under which `readImage` refuses a file. -/
theorem refused_iff (bytes : List Byte) :
    (headerHeight bytes ≤ 0 ∨ headerWidth bytes ≤ 0 ∨ headerOf bytes .signature 0 ≠ 66 ∨
      headerOf bytes .signature 1 ≠ 77 ∨ (headerBits bytes ≠ 24 ∧ headerBits bytes ≠ 8)) ↔
      ¬ Acceptable bytes := by
  constructor
  · rintro refused ⟨height, width, first, second, bits⟩
    rcases refused with low | low | other | other | ⟨notColors, notGrey⟩
    · exact absurd height (Int.not_lt.mpr low)
    · exact absurd width (Int.not_lt.mpr low)
    · exact other first
    · exact other second
    · exact bits.elim notColors notGrey
  · intro unacceptable
    by_contra regular
    obtain ⟨height, behindHeight⟩ := not_or.mp regular
    obtain ⟨width, behindWidth⟩ := not_or.mp behindHeight
    obtain ⟨first, behindFirst⟩ := not_or.mp behindWidth
    obtain ⟨second, bits⟩ := not_or.mp behindFirst
    refine unacceptable ⟨Int.not_le.mp height, Int.not_le.mp width, not_not.mp first,
      not_not.mp second, ?_⟩
    by_contra other
    exact bits (not_or.mp other)

private theorem scanned_start (bytes : List Byte) (bitsPerPixel : Int) (unset : Locals)
    (data : Nat → Int) :
    Scanned bytes (bitmapStart bytes) bitsPerPixel unset.tempg 0
      ⟨⟨bytes, bitmapStart bytes⟩, unset.tempb, unset.tempg, unset.tempr, data⟩ where
  place := by
    rw [Nat.zero_mul, Nat.add_zero]
    exact ⟨rfl, Or.inl rfl⟩
  held := rfl

/-- A file with a whole header, for which `malloc` finds a block that holds the dimensions:
it is refused unless it looks like a BMP file. Otherwise the image overruns its block
exactly if the number of its bytes wraps around, and each pixel is the green byte of its
place in a file whose rows follow each other bottom up without a gap. -/
theorem readImage_reads (malloc : Nat → Option (Nat → Int)) (unset : Locals) (bytes : List Byte)
    (complete : 54 ≤ bytes.length) (data : Nat → Int)
    (granted : malloc (imageBytes (headerHeight bytes) (headerWidth bytes)) = some data)
    (large : 8 ≤ imageBytes (headerHeight bytes) (headerWidth bytes)) :
    (¬ Acceptable bytes → readImage malloc unset (some bytes) = some .refused) ∧
      (Acceptable bytes →
        (readImage malloc unset (some bytes) = none ↔
          2 ^ 32 ≤ 8 + 4 * (headerHeight bytes * headerWidth bytes)) ∧
        ∀ result, readImage malloc unset (some bytes) = some result →
          ∃ image, result = .read image ∧ image.width = headerWidth bytes ∧
            image.height = headerHeight bytes ∧
            ∀ i < image.height, ∀ j < image.width, image.subsref i j =
              (heldByte bytes (bitmapStart bytes) (headerBits bytes) unset.tempg
                ((image.height - 1 - i) * image.width + j + 1)).toNat) := by
  have runs := readImage_eq malloc unset bytes complete data granted large
  constructor
  · intro unacceptable
    rw [runs, if_pos ((refused_iff bytes).mpr unacceptable)]
  · intro acceptable
    rw [if_neg (fun refused => (refused_iff bytes).mp refused acceptable)] at runs
    obtain ⟨height, width, _letters⟩ := acceptable
    obtain ⟨rows, isRows⟩ := Int.eq_ofNat_of_zero_le (Int.le_of_lt height)
    obtain ⟨cols, isCols⟩ := Int.eq_ofNat_of_zero_le (Int.le_of_lt width)
    rw [isRows] at height
    rw [isCols] at width
    rw [isRows, isCols, imageBytes_eq, Int.toNat_natCast, Int.toNat_natCast] at runs
    rw [isRows, isCols]
    have scanned := scanned_start bytes (headerBits bytes) unset data
    have cast : (2 ^ 32 ≤ 8 + 4 * ((rows : Int) * cols)) ↔ 2 ^ 32 ≤ 8 + 4 * (rows * cols) := by
      rw [← Int.ofNat_le]
      rfl
    rw [cast]
    by_cases wraps : 2 ^ 32 ≤ 8 + 4 * (rows * cols)
    · have small : (8 + 4 * (rows * cols)) % 2 ^ 32 < 8 + 4 * (rows * cols) :=
        Nat.lt_of_lt_of_le (Nat.mod_lt _ (by decide)) wraps
      rw [readRows_overrun _ cols rows _ (Int.natCast_pos.mp width) (Int.natCast_pos.mp height)
        small] at runs
      rw [runs]
      refine ⟨iff_of_true rfl wraps, ?_⟩
      intro result none
      cases none
    · have whole : (8 + 4 * (rows * cols)) % 2 ^ 32 = 8 + 4 * (rows * cols) :=
        Nat.mod_eq_of_lt (Nat.not_le.mp wraps)
      obtain ⟨after, ran, stored, _kept⟩ := readRows_stores (8 + 4 * (rows * cols)) cols rows scanned
        (Nat.le_refl _)
      rw [whole, ran] at runs
      rw [runs]
      refine ⟨iff_of_false (Option.some_ne_none _) wraps, ?_⟩
      intro result isResult
      refine ⟨⟨cols, rows, after.data⟩, (Option.some.inj isResult).symm, rfl, rfl, ?_⟩
      intro i inside j jInside
      have here := stored i inside j jInside
      rw [Nat.zero_add] at here
      exact here

def twoPixels : List Byte :=
  encodeFields Field.size headerFields (fun
    | .signature => 0x4D42
    | .locOfBitmap => 54
    | .width => 2
    | .height => 1
    | .bitsPerPixel => 8
    | _ => 0) ++ [7, 9]

def zeroLocals : Locals := ⟨fun _field _k => 0, 0, 0, 0⟩

theorem readImage_reads_sample :
    ∃ image, readImage (fun _size => some (fun _k => 0)) zeroLocals (some twoPixels) =
        some (.read image) ∧
      image.subsref 0 1 = 9 := by
  have acceptable : Acceptable twoPixels := by
    unfold Acceptable
    decide
  obtain ⟨overruns, reads⟩ := (readImage_reads (fun _size => some (fun _k => 0)) zeroLocals twoPixels
    (by decide) (fun _k => 0) rfl (by decide)).2 acceptable
  cases result : readImage (fun _size => some (fun _k => 0)) zeroLocals (some twoPixels) with
  | none => exact absurd (overruns.mp result) (by decide)
  | some reading =>
      obtain ⟨image, isImage, width, height, pixels⟩ := reads reading result
      have isWidth : image.width = 2 := Int.ofNat.inj (width.trans (by decide))
      have isHeight : image.height = 1 := Int.ofNat.inj (height.trans (by decide))
      refine ⟨image, congrArg some isImage, ?_⟩
      rw [pixels 0 (by omega) 1 (by omega), isHeight, isWidth]
      decide

end BlackboxProfiling.SdVbs
