import BlackboxProfiling.SdVbs.Bitmaps
import BlackboxProfiling.SdVbs.MserResult

/-!
`script_mser.c`: the image is read twice, stored column by column in the second copy and
handed to `mser`.
-/

namespace BlackboxProfiling.SdVbs.Mser

open ByteStream

structure Copying where
  k : Nat
  data : Nat → Int

def fillColumn (I : I2D) (i : Nat) : Nat → Copying → Copying
  | 0, copying => copying
  | j + 1, copying =>
      let before := fillColumn I i j copying
      ⟨before.k + 1, Function.update before.data before.k (I.subsref j i)⟩

def fillColumns (I : I2D) (data : Nat → Int) : Nat → Copying
  | 0 => ⟨0, data⟩
  | i + 1 => fillColumn I i I.height (fillColumns I data i)

/-- The image that was read; `NULL` is dereferenced. -/
def readOrCrash (malloc : Nat → Option (Nat → Int)) (unset : Locals) (input : Option (List Byte)) :
    Option I2D := do
  match ← readImage malloc unset input with
  | .refused => none
  | .read image => some image

def script {V : Type} (floats : Floats V) (malloc malloc2 : Nat → Option (Nat → Int))
    (unset unset2 : Locals) (arrays : Unset) (input : Option (List Byte)) : Option Result := do
  let I ← readOrCrash malloc unset input
  let It ← readOrCrash malloc2 unset2 input
  mser floats { It with data := (fillColumns I It.data I.width).data } 2 arrays

private theorem fillColumn_spec (I : I2D) (i count : Nat) (copying : Copying) :
    (fillColumn I i count copying).k = copying.k + count ∧
      (∀ j < count, (fillColumn I i count copying).data (copying.k + j) = I.subsref j i) ∧
      ∀ k, k < copying.k → (fillColumn I i count copying).data k = copying.data k := by
  induction count with
  | zero => exact ⟨rfl, fun j none => absurd none (Nat.not_lt_zero j), fun k _before => rfl⟩
  | succ count ih =>
      obtain ⟨place, stored, kept⟩ := ih
      rw [fillColumn]
      dsimp only
      rw [place]
      refine ⟨rfl, ?_, ?_⟩
      · intro j inside
        by_cases last : j = count
        · rw [last, Function.update_self]
        · rw [Function.update_of_ne (by omega)]
          exact stored j (by omega)
      · intro k before
        rw [Function.update_of_ne (by omega)]
        exact kept k before

private theorem fillColumns_spec (I : I2D) (data : Nat → Int) (columns : Nat) :
    (fillColumns I data columns).k = columns * I.height ∧
      ∀ i < columns, ∀ j < I.height,
        (fillColumns I data columns).data (i * I.height + j) = I.subsref j i := by
  induction columns with
  | zero => exact ⟨(Nat.zero_mul _).symm, fun i none => absurd none (Nat.not_lt_zero i)⟩
  | succ columns ih =>
      obtain ⟨place, stored⟩ := ih
      obtain ⟨next, own, kept⟩ := fillColumn_spec I columns I.height (fillColumns I data columns)
      rw [place] at next own kept
      rw [fillColumns]
      refine ⟨by rw [next, Nat.succ_mul], ?_⟩
      intro i inside j jInside
      rcases Nat.lt_or_eq_of_le (Nat.le_of_lt_succ inside) with earlier | last
      · have within := Nat.mul_le_mul_right I.height (Nat.succ_le_of_lt earlier)
        rw [Nat.succ_mul] at within
        rw [kept _ (by omega)]
        exact stored i earlier j jInside
      · rw [last]
        exact own j jInside

section

variable (height width : Nat) (shade : Nat → Nat → Int)

def Spotted (spot : Nat × Nat) : Prop := spot.1 < height ∧ spot.2 < width

/-- Neighbouring spots of a picture, both no brighter than the level. -/
def ShadeEdge (level : Int) (left right : Nat × Nat) : Prop :=
  left ≠ right ∧ Spotted height width left ∧ Spotted height width right ∧
    ((left.1 : Int) - right.1).natAbs ≤ 1 ∧ ((left.2 : Int) - right.2).natAbs ≤ 1 ∧
    shade left.1 left.2 ≤ level ∧ shade right.1 right.2 ≤ level

def ShadeRegion (level : Int) (spot other : Nat × Nat) : Prop :=
  Relation.EqvGen (ShadeEdge height width shade level) spot other

def ShadeSize (level : Int) (spot : Nat × Nat) (size : Nat) : Prop :=
  ∃ spots : List (Nat × Nat), spots.Nodup ∧ size = spots.length ∧
    ∀ other, other ∈ spots ↔ ShadeRegion height width shade level spot other

/-- A single row or column whose last spot is the brightest and not alone in that. -/
def EndsOnSharedShade : Prop :=
  (height = 1 ∨ width = 1) ∧
    (∃ spot, Spotted height width spot ∧ spot ≠ (height - 1, width - 1) ∧
      shade spot.1 spot.2 = shade (height - 1) (width - 1)) ∧
    ∀ spot, Spotted height width spot → shade spot.1 spot.2 ≤ shade (height - 1) (width - 1)

/-- An image that holds the picture column by column. -/
structure Columns (image : I2D) : Prop where
  rows : image.height = height
  cols : image.width = width
  data : ∀ i < width, ∀ j < height, image.data (i * height + j) = shade j i

end

def spotOf (image : I2D) (pixel : Nat) : Nat × Nat := (pixel % image.height, pixel / image.height)

def pixelOf (image : I2D) (spot : Nat × Nat) : Nat := spot.2 * image.height + spot.1

private theorem pixelOf_spotOf (image : I2D) (pixel : Nat) : pixelOf image
    (spotOf image pixel) = pixel := by
  rw [pixelOf, spotOf, Nat.mul_comm]
  exact Nat.div_add_mod pixel image.height

section

variable {height width : Nat} {shade : Nat → Nat → Int} {image : I2D}

theorem Columns.nel (columns : Columns height width shade image) :
    nel image = height * width := by
  rw [Mser.nel, columns.rows, columns.cols]

private theorem Columns.spotOf_pixelOf (columns : Columns height width shade image) (spot : Nat × Nat)
    (inside : Spotted height width spot) : spotOf image (pixelOf image spot) = spot := by
  have row : spot.1 < image.height := by
    rw [columns.rows]
    exact inside.1
  have first : (spot.2 * image.height + spot.1) % image.height = spot.1 := by
    rw [Nat.mul_add_mod_self_right, Nat.mod_eq_of_lt row]
  have second : (spot.2 * image.height + spot.1) / image.height = spot.2 := by
    rw [Nat.add_comm, Nat.add_mul_div_right _ _ (Nat.zero_lt_of_lt row), Nat.div_eq_of_lt row, Nat.zero_add]
  rw [spotOf, pixelOf, first, second]

private theorem Columns.spotted (columns : Columns height width shade image) (pixel : Nat)
    (inside : pixel < Mser.nel image) : Spotted height width (spotOf image pixel) := by
  rw [columns.nel] at inside
  have positive : 0 < height := Nat.pos_of_mul_pos_right (Nat.zero_lt_of_lt inside)
  rw [Spotted, spotOf, columns.rows]
  exact ⟨Nat.mod_lt _ positive, Nat.div_lt_of_lt_mul inside⟩

theorem Columns.pixel_lt (columns : Columns height width shade image) (spot : Nat × Nat)
    (inside : Spotted height width spot) : pixelOf image spot < Mser.nel image := by
  have before := Nat.mul_le_mul_right height (Nat.succ_le_of_lt inside.2)
  rw [Nat.succ_mul] at before
  have row := inside.1
  rw [columns.nel, pixelOf, columns.rows, Nat.mul_comm height width]
  omega

private theorem Columns.data_pixelOf (columns : Columns height width shade image) (spot : Nat × Nat)
    (inside : Spotted height width spot) : image.data (pixelOf image spot) = shade spot.1 spot.2 := by
  rw [pixelOf, columns.rows]
  exact columns.data spot.2 inside.2 spot.1 inside.1

private theorem Columns.data_spotOf (columns : Columns height width shade image) (pixel : Nat)
    (inside : pixel < Mser.nel image) :
    image.data pixel = shade (spotOf image pixel).1 (spotOf image pixel).2 := by
  rw [← columns.data_pixelOf _ (columns.spotted pixel inside), pixelOf_spotOf]

theorem Columns.edge_iff (columns : Columns height width shade image) (level : Int)
    (left right : Nat) (leftInside : left < Mser.nel image) (rightInside : right < Mser.nel image) :
    LevelEdge image level left right ↔
      ShadeEdge height width shade level (spotOf image left) (spotOf image right) := by
  have same : left ≠ right ↔ spotOf image left ≠ spotOf image right := by
    refine not_congr ⟨congrArg _, ?_⟩
    intro equal
    rw [← pixelOf_spotOf image left, equal, pixelOf_spotOf]
  rw [LevelEdge, Touching, ShadeEdge, ← same, columns.data_spotOf left leftInside,
    columns.data_spotOf right rightInside]
  constructor
  · rintro ⟨⟨different, _left, _right, rows, cols⟩, low, alsoLow⟩
    exact ⟨different, columns.spotted left leftInside, columns.spotted right rightInside, rows, cols,
      low, alsoLow⟩
  · rintro ⟨different, _left, _right, rows, cols, low, alsoLow⟩
    exact ⟨⟨different, leftInside, rightInside, rows, cols⟩, low, alsoLow⟩

theorem Columns.region (columns : Columns height width shade image) {level : Int} {pixel other : Nat}
    (connected : InRegion image level pixel other) :
    ShadeRegion height width shade level (spotOf image pixel) (spotOf image other) := by
  induction connected with
  | rel left right edge =>
      exact Relation.EqvGen.rel _ _
        ((columns.edge_iff level left right edge.1.2.1 edge.1.2.2.1).mp edge)
  | refl pixel => exact Relation.EqvGen.refl _
  | symm left right _edge ih => exact Relation.EqvGen.symm _ _ ih
  | trans left middle right _first _second ih ih' => exact Relation.EqvGen.trans _ _ _ ih ih'

private theorem Columns.region_back (columns : Columns height width shade image) {level : Int}
    {spot other : Nat × Nat} (connected : ShadeRegion height width shade level spot other) :
    InRegion image level (pixelOf image spot) (pixelOf image other) := by
  induction connected with
  | rel left right edge =>
      apply Relation.EqvGen.rel
      rw [columns.edge_iff level _ _ (columns.pixel_lt left edge.2.1)
        (columns.pixel_lt right edge.2.2.1), columns.spotOf_pixelOf left edge.2.1,
        columns.spotOf_pixelOf right edge.2.2.1]
      exact edge
  | refl spot => exact Relation.EqvGen.refl _
  | symm left right _edge ih => exact Relation.EqvGen.symm _ _ ih
  | trans left middle right _first _second ih ih' => exact Relation.EqvGen.trans _ _ _ ih ih'

private theorem ShadeRegion.spotted {level : Int} {spot other : Nat × Nat}
    (connected : ShadeRegion height width shade level spot other) :
    Spotted height width spot ↔ Spotted height width other := by
  induction connected with
  | rel left right edge => exact iff_of_true edge.2.1 edge.2.2.1
  | refl spot => exact Iff.rfl
  | symm left right _edge ih => exact ih.symm
  | trans left middle right _first _second ih ih' => exact ih.trans ih'

theorem Columns.size (columns : Columns height width shade image) (level : Int) (pixel size : Nat)
    (inside : pixel < Mser.nel image) (sized : RegionSize image level pixel size) :
    ShadeSize height width shade level (spotOf image pixel) size := by
  obtain ⟨pixels, distinct, length, listed⟩ := sized
  refine ⟨pixels.map (spotOf image), ?_, by rw [List.length_map, length], ?_⟩
  · refine List.Nodup.map_on ?_ distinct
    intro one _member other _otherMember equal
    rw [← pixelOf_spotOf image one, equal, pixelOf_spotOf]
  · intro other
    rw [List.mem_map]
    constructor
    · rintro ⟨node, member, rfl⟩
      exact columns.region ((listed node).mp member)
    · intro connected
      have spotted := connected.spotted.mp (columns.spotted pixel inside)
      refine ⟨pixelOf image other, ?_, columns.spotOf_pixelOf other spotted⟩
      rw [listed]
      have back := columns.region_back connected
      rw [pixelOf_spotOf] at back
      exact back

theorem Columns.shared (columns : Columns height width shade image) (positive : 0 < Mser.nel image)
    (ends : EndsOnSharedMaximum image) : EndsOnSharedShade height width shade := by
  obtain ⟨line, ⟨pixel, inside, equal⟩, highest⟩ := ends
  have heightPositive : 0 < height := by
    rw [columns.nel] at positive
    exact Nat.pos_of_mul_pos_right positive
  have widthPositive : 0 < width := by
    rw [columns.nel] at positive
    exact Nat.pos_of_mul_pos_left positive
  have corner : Spotted height width (height - 1, width - 1) :=
    ⟨Nat.sub_lt heightPositive Nat.one_pos, Nat.sub_lt widthPositive Nat.one_pos⟩
  have isLast : pixelOf image (height - 1, width - 1) = Mser.nel image - 1 := by
    have rows : height * width = (width - 1) * height + height := by
      rw [← Nat.succ_mul, Nat.succ_eq_add_one, Nat.sub_add_cancel widthPositive, Nat.mul_comm]
    rw [columns.nel, pixelOf, columns.rows, rows]
    dsimp only
    omega
  have lastShade : image.data (Mser.nel image - 1) = shade (height - 1) (width - 1) := by
    rw [← isLast]
    exact columns.data_pixelOf _ corner
  rw [columns.rows, columns.cols] at line
  refine ⟨line, ⟨spotOf image pixel, columns.spotted pixel (by omega), ?_, ?_⟩, ?_⟩
  · intro same
    rw [← pixelOf_spotOf image pixel, same, isLast] at inside
    exact absurd inside (Nat.lt_irrefl _)
  · rw [← columns.data_spotOf pixel (by omega), equal, lastShade]
  · intro spot spotted
    rw [← columns.data_pixelOf spot spotted, ← lastShade]
    exact highest _ (columns.pixel_lt spot spotted)

theorem Columns.usable (columns : Columns height width shade image)
    (bytes : ∀ i j, 0 ≤ shade i j ∧ shade i j < 256) (heightPositive : 0 < height)
    (widthPositive : 0 < width) (narrow : height ≤ 46341 ∧ width ≤ 46341)
    (few : height * width < 2 ^ 31) (clear : ¬ EndsOnSharedShade height width shade) :
    Usable image := by
  have positive : 0 < Mser.nel image := by
    rw [columns.nel]
    exact Nat.mul_pos heightPositive widthPositive
  constructor
  case bytes =>
    intro pixel inside
    rw [columns.data_spotOf pixel inside]
    exact bytes _ _
  case nonempty => exact positive
  case whole =>
    intro ends
    exact clear (columns.shared positive ends)
  case narrow =>
    rw [Narrow, columns.rows, columns.cols]
    exact narrow
  case few =>
    rw [columns.nel]
    exact few

private theorem columns_filled (I It : I2D) (width : It.width = I.width)
    (height : It.height = I.height) :
    Columns I.height I.width I.subsref { It with data := (fillColumns I It.data I.width).data } where
  rows := height
  cols := width
  data := (fillColumns_spec I It.data I.width).2

private theorem readOrCrash_read (malloc : Nat → Option (Nat → Int)) (unset : Locals)
    (input : Option (List Byte)) (image : I2D) (read : readImage malloc unset input = some (.read image)) :
    readOrCrash malloc unset input = some image := by
  rw [readOrCrash, read]
  rfl

private theorem byte_range (byte : Byte) : 0 ≤ (byte.toNat : Int) ∧ (byte.toNat : Int) < 256 := by
  have small := byte.isLt
  omega

theorem script_columns {V : Type} (floats : Floats V)
    (malloc malloc2 : Nat → Option (Nat → Int)) (unset unset2 : Locals) (arrays : Unset)
    (format : BitmapFormat) (content : Nat → Nat → Nat → Byte) (data data2 : Nat → Int)
    (granted : malloc (imageBytes format.height format.width) = some data)
    (granted2 : malloc2 (imageBytes format.height format.width) = some data2)
    (simple : format.rowBytes % 4 = 0 ∨ format.height = 1) :
    ∃ image, Columns format.height format.width (format.shade content) image ∧
      script floats malloc malloc2 unset unset2 arrays (some (format.encode content)) =
        mser floats image 2 arrays := by
  obtain ⟨I, read, width, height, pixels⟩ :=
    format.readImage_aligned content malloc unset data granted simple
  obtain ⟨It, readAgain, againWidth, againHeight, _againPixels⟩ :=
    format.readImage_aligned content malloc2 unset2 data2 granted2 simple
  have filled := columns_filled I It (againWidth.trans width.symm) (againHeight.trans height.symm)
  refine ⟨{ It with data := (fillColumns I It.data I.width).data }, ?_, ?_⟩
  · constructor
    case rows => exact againHeight
    case cols => exact againWidth
    case data =>
      intro i inside j jInside
      rw [← height] at jInside ⊢
      rw [← width] at inside
      rw [filled.data i inside j jInside]
      rw [height] at jInside
      rw [width] at inside
      exact pixels j jInside i inside
  · rw [script, readOrCrash_read malloc unset _ I read,
      readOrCrash_read malloc2 unset2 _ It readAgain]
    rfl

def blockFormat : BitmapFormat where
  width := 12
  height := 10
  channels := 3
  others := fun _field => 0
  gap := []
  widthPositive := Nat.zero_lt_succ 11
  heightPositive := Nat.zero_lt_succ 9
  known := Or.inr rfl
  small := by decide
  near := threeByTwo.near

def blockContent (i j _k : Nat) : Byte := if i < 6 ∧ j < 5 then 10 else 200

end

end BlackboxProfiling.SdVbs.Mser
