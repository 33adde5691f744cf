import BlackboxProfiling.SdVbs.MserRegions

/-!
The whole tree loop: it stays within its arrays and saves every extremal region of
the image once, the image itself last.
-/

namespace BlackboxProfiling.SdVbs.Mser

open CountingSort (StableOrder Before)
open DisjointSets (Forest)

def Bytes (image : I2D) : Prop := ∀ i < nel image, 0 ≤ image.data i ∧ image.data i < 256

def pixelKey (image : I2D) (i : Nat) : Nat := (image.data i).toNat

abbrev PixelOrder (image : I2D) : Type := StableOrder (pixelKey image) (nel image)

section

variable {image : I2D}

private theorem pairs_order (bytes : Bytes image) (stable : PixelOrder image) (i : Nat)
    (inside : i < stable.order.length) :
    pairs image i = some ⟨image.data stable.order[i], stable.order[i]⟩ := by
  have small (index : Nat) (below : index < nel image) : pixelKey image index < 256 := by
    have byte := bytes index below
    unfold pixelKey
    omega
  have sorted := CountingSort.bucketSort_stable 256 (pixelKey image)
    (fun i : Nat => (⟨image.data i, i⟩ : Pair)) (nel image) small stable i
  rw [List.getElem?_eq_getElem inside] at sorted
  exact sorted

private theorem before_data (bytes : Bytes image) (left right : Nat) (leftInside : left < nel image)
    (rightInside : right < nel image) (before : Before (pixelKey image) left right) :
    image.data left < image.data right ∨ (image.data left = image.data right ∧ left < right) := by
  have leftByte := bytes left leftInside
  have rightByte := bytes right rightInside
  unfold Before pixelKey at before
  omega

private theorem PixelOrder.getElem_before (bytes : Bytes image) (stable : PixelOrder image) (i j : Nat)
    (less : i < j) (inside : j < stable.order.length) :
    image.data stable.order[i] < image.data stable.order[j] ∨
      (image.data stable.order[i] = image.data stable.order[j] ∧
        stable.order[i] < stable.order[j]) := by
  apply before_data bytes
  · exact (stable.mem_iff _).mp (List.getElem_mem _)
  · exact (stable.mem_iff _).mp (List.getElem_mem _)
  · exact List.pairwise_iff_getElem.mp stable.ordered i j (by omega) inside less

theorem PixelOrder.turn (bytes : Bytes image) (stable : PixelOrder image) (i : Nat)
    (inside : i < stable.order.length) :
    Turn image (stable.order.take i) stable.order[i] := by
  have distinct : stable.order.Nodup := stable.perm.nodup_iff.mpr List.nodup_range
  constructor
  case fresh =>
    intro again
    obtain ⟨j, below, same⟩ := List.mem_take_iff_getElem.mp again
    have place := (List.Nodup.getElem_inj_iff distinct).mp same
    omega
  case inside => exact (stable.mem_iff _).mp (List.getElem_mem inside)
  case lower =>
    intro node here
    obtain ⟨j, below, rfl⟩ := List.mem_take_iff_getElem.mp here
    have before := PixelOrder.getElem_before bytes stable j i (by omega) inside
    omega
  case complete =>
    intro node nodeInside less
    obtain ⟨j, below, rfl⟩ := List.mem_iff_getElem.mp ((stable.mem_iff node).mpr nodeInside)
    rw [List.mem_take_iff_getElem]
    rcases Nat.lt_trichotomy j i with earlier | same | later
    · exact ⟨j, by omega, rfl⟩
    · subst same
      exact absurd less (Int.lt_irrefl _)
    · have before := PixelOrder.getElem_before bytes stable i j later below
      omega

structure Built (image : I2D) (done : List Nat) (tree : Tree) (parents : Forest Nat) : Prop where
  grown : Grown image done (Scanned image done) tree parents
  recorded : Recorded image done tree parents

private theorem built_nil (unset : Nat → Node) :
    Built image [] ⟨voidForest unset, [], [], 0⟩ (Forest.separate Nat) := by
  have empty (left right : Nat) : ¬ Scanned image [] left right := by
    intro scanned
    cases scanned.2.1
  constructor
  case grown =>
    constructor
    case distinct => exact List.nodup_nil
    case void => exact fun _node _absent => ⟨rfl, rfl⟩
    case shortens =>
      refine ⟨Forest.separate Nat, ?_⟩
      constructor
      case outside => exact fun _node _absent => rfl
      case roots => exact fun _node => rfl
      all_goals
        intro node absent
        cases absent
    case represents => exact Forest.separate_represents _ empty
    case joinsDistinct => exact List.nodup_nil
    case joinsOrdered => exact List.Pairwise.nil
    case joined =>
      intro node
      exact iff_of_false List.not_mem_nil (fun both => List.not_mem_nil both.1)
    all_goals
      intro node absent
      cases absent
  case recorded =>
    constructor
    case order => exact List.Sublist.refl _
    case numbered =>
      intro number region absent
      cases absent
    case distinct => exact List.Pairwise.nil
    all_goals
      intro node absent
      cases absent

theorem treeAfter_succ (bytes : Bytes image) (stable : PixelOrder image) (unset : Nat → Node)
    (i : Nat) (inside : i < stable.order.length) (tree : Tree) (parents : Forest Nat)
    (ran : treeAfter image unset i = some tree) (built : Built image (stable.order.take i) tree parents) :
    ∃ next nextParents, treeAfter image unset (i + 1) = some next ∧
      Growing image (stable.order.take i) stable.order[i] neighborOffsets next nextParents ∧
      Built image (stable.order.take (i + 1)) next nextParents ∧
      Settles image (stable.order.take i) stable.order[i] [] neighborOffsets True
        (nextParents.link next.rindex = next.rindex) := by
  obtain ⟨next, nextParents, processed, growing, grown, settles⟩ :=
    processPixel_grown (PixelOrder.turn bytes stable i inside) built.grown built.recorded
  have more : stable.order.take (i + 1) = stable.order.take i ++ [stable.order[i]] :=
    (List.take_append_getElem inside).symm
  refine ⟨next, nextParents, ?_, growing, ?_, settles⟩
  · rw [treeAfter, ran, pairs_order bytes stable i inside]
    exact processed
  · rw [more]
    exact ⟨grown, growing.recorded⟩

private theorem treeAfter_built (bytes : Bytes image) (stable : PixelOrder image) (unset : Nat → Node)
    (i : Nat) (within : i ≤ stable.order.length) :
    ∃ tree parents, treeAfter image unset i = some tree ∧
      Built image (stable.order.take i) tree parents := by
  induction i with
  | zero => exact ⟨_, _, rfl, built_nil unset⟩
  | succ i ih =>
      obtain ⟨tree, parents, ran, built⟩ := ih (Nat.le_of_succ_le within)
      obtain ⟨next, nextParents, nextRan, _growing, nextBuilt, _settles⟩ :=
        treeAfter_succ bytes stable unset i within tree parents ran built
      exact ⟨next, nextParents, nextRan, nextBuilt⟩

structure LastPixel (image : I2D) (earlier : List Nat) (index : Nat) : Prop where
  turn : Turn image earlier index
  all : ∀ pixel, pixel ∈ earlier ++ [index] ↔ pixel < nel image
  last : ∀ pixel ∈ earlier, image.data pixel < image.data index ∨
    (image.data pixel = image.data index ∧ pixel < index)

private theorem treeAfter_all (bytes : Bytes image) (nonempty : 0 < nel image) (unset : Nat → Node) :
    ∃ earlier index tree parents, LastPixel image earlier index ∧
      treeAfter image unset (nel image) = some tree ∧
      Growing image earlier index neighborOffsets tree parents ∧
      Built image (earlier ++ [index]) tree parents ∧
      Settles image earlier index [] neighborOffsets True
        (parents.link tree.rindex = tree.rindex) := by
  obtain ⟨stable⟩ := CountingSort.stableOrder_exists (pixelKey image) (nel image)
  have length := stable.length
  have inside : nel image - 1 < stable.order.length := by omega
  obtain ⟨before, beforeParents, ran, built⟩ :=
    treeAfter_built bytes stable unset (nel image - 1) (Nat.le_of_lt inside)
  obtain ⟨tree, parents, ranAll, growing, builtAll, settles⟩ :=
    treeAfter_succ bytes stable unset _ inside before beforeParents ran built
  rw [Nat.sub_add_cancel nonempty] at ranAll builtAll
  have everything : stable.order.take (nel image - 1) ++ [stable.order[nel image - 1]] =
      stable.order := by
    rw [List.take_append_getElem inside, Nat.sub_add_cancel nonempty, List.take_of_length_le]
    omega
  refine ⟨_, _, tree, parents, ?_, ranAll, growing, ?_, settles⟩
  · constructor
    case turn => exact PixelOrder.turn bytes stable _ inside
    case all =>
      rw [everything]
      exact stable.mem_iff
    case last =>
      intro pixel here
      obtain ⟨j, below, rfl⟩ := List.mem_take_iff_getElem.mp here
      exact PixelOrder.getElem_before bytes stable j _ (by omega) inside
  · rw [everything]
    rw [List.take_of_length_le (by omega)] at builtAll
    exact builtAll

/-! ### Rows and columns -/

private theorem place_position (row column : Nat) (rowInside : row < image.height)
    (columnInside : column < image.width) :
    row + column * image.height < nel image ∧
      (row + column * image.height) % image.height = row ∧
      (row + column * image.height) / image.height = column := by
  have tall : 0 < image.height := Nat.zero_lt_of_lt rowInside
  rw [Nat.add_mul_mod_self_right, Nat.mod_eq_of_lt rowInside, Nat.add_mul_div_right _ _ tall,
    Nat.div_eq_of_lt rowInside, Nat.zero_add]
  refine ⟨?_, rfl, rfl⟩
  calc row + column * image.height < image.height + column * image.height :=
        Nat.add_lt_add_right rowInside _
    _ = (column + 1) * image.height := by rw [Nat.add_mul, Nat.one_mul, Nat.add_comm]
    _ ≤ image.width * image.height := Nat.mul_le_mul_right _ columnInside
    _ = nel image := Nat.mul_comm _ _

private theorem touching_place (pixel row column : Nat) (inside : pixel < nel image)
    (rowInside : row < image.height) (columnInside : column < image.width)
    (rowNear : row ≤ pixel % image.height + 1 ∧ pixel % image.height ≤ row + 1)
    (columnNear : column ≤ pixel / image.height + 1 ∧ pixel / image.height ≤ column + 1)
    (elsewhere : row ≠ pixel % image.height ∨ column ≠ pixel / image.height) :
    Touching image pixel (row + column * image.height) := by
  obtain ⟨placeInside, placeRow, placeColumn⟩ := place_position row column rowInside columnInside
  refine ⟨?_, inside, placeInside, ?_, ?_⟩
  · intro same
    rw [← same] at placeRow placeColumn
    rcases elsewhere with differs | differs
    · exact differs placeRow.symm
    · exact differs placeColumn.symm
  · rw [placeRow]
    omega
  · rw [placeColumn]
    omega

private theorem pixel_position (pixel : Nat) (inside : pixel < nel image) :
    pixel % image.height < image.height ∧ pixel / image.height < image.width ∧
      pixel % image.height + pixel / image.height * image.height = pixel :=
  ⟨Nat.mod_lt _ (Nat.pos_of_mul_pos_right (Nat.zero_lt_of_lt inside)), Nat.div_lt_of_lt_mul inside,
    Nat.mod_add_div' _ _⟩

private theorem touching_connected (pixel : Nat) (inside : pixel < nel image) :
    Relation.EqvGen (Touching image) pixel 0 := by
  induction pixel using Nat.strong_induction_on with
  | _ pixel ih =>
      obtain ⟨rowInside, columnInside, position⟩ := pixel_position pixel inside
      -- a step up the column, or at its top a step to the column before
      have step (row column : Nat) (touching : Touching image pixel (row + column * image.height))
          (smaller : row + column * image.height < pixel) :
          Relation.EqvGen (Touching image) pixel 0 :=
        Relation.EqvGen.trans _ _ _ (Relation.EqvGen.rel _ _ touching) (ih _ smaller touching.2.2.1)
      rcases Nat.eq_zero_or_pos (pixel % image.height) with top | lower
      · rcases Nat.eq_zero_or_pos (pixel / image.height) with first | later
        · rw [top, first, Nat.zero_mul] at position
          rw [← position]
          exact Relation.EqvGen.refl _
        · apply step (pixel % image.height) (pixel / image.height - 1)
          · exact touching_place _ _ _ inside rowInside (by omega) (by omega) (by omega) (by omega)
          · have less : (pixel / image.height - 1) * image.height <
                pixel / image.height * image.height :=
              Nat.mul_lt_mul_of_pos_right (by omega) (Nat.zero_lt_of_lt rowInside)
            omega
      · apply step (pixel % image.height - 1) (pixel / image.height)
        · exact touching_place _ _ _ inside (by omega) columnInside (by omega) (by omega) (by omega)
        · omega

/-- With two rows and two columns, two touching pixels have a common neighbour. -/
theorem touching_common (tall : 2 ≤ image.height) (wide : 2 ≤ image.width) (left right : Nat)
    (touching : Touching image left right) :
    ∃ common, Touching image left common ∧ Touching image right common := by
  obtain ⟨different, leftInside, rightInside, rows, columns⟩ := touching
  obtain ⟨leftRowInside, leftColumnInside, leftPosition⟩ := pixel_position left leftInside
  obtain ⟨rightRowInside, rightColumnInside, rightPosition⟩ := pixel_position right rightInside
  have both (row column : Nat) (rowInside : row < image.height) (columnInside : column < image.width)
      (rowNear : (row ≤ left % image.height + 1 ∧ left % image.height ≤ row + 1) ∧
        row ≤ right % image.height + 1 ∧ right % image.height ≤ row + 1)
      (columnNear : (column ≤ left / image.height + 1 ∧ left / image.height ≤ column + 1) ∧
        column ≤ right / image.height + 1 ∧ right / image.height ≤ column + 1)
      (elsewhere : (row ≠ left % image.height ∨ column ≠ left / image.height) ∧
        (row ≠ right % image.height ∨ column ≠ right / image.height)) :
      ∃ common, Touching image left common ∧ Touching image right common :=
    ⟨_, touching_place left row column leftInside rowInside columnInside rowNear.1 columnNear.1
        elsewhere.1,
      touching_place right row column rightInside rowInside columnInside rowNear.2 columnNear.2
        elsewhere.2⟩
  generalize left % image.height = leftRow at *
  generalize right % image.height = rightRow at *
  generalize left / image.height = leftColumn at *
  generalize right / image.height = rightColumn at *
  have beside (size middle : Nat) (room : 2 ≤ size) (within : middle < size) :
      ∃ next, next < size ∧ next ≠ middle ∧ next ≤ middle + 1 ∧ middle ≤ next + 1 := by
    by_cases first : middle = 0
    · exact ⟨1, by omega, by omega, by omega, by omega⟩
    · exact ⟨middle - 1, by omega, by omega, by omega, by omega⟩
  by_cases sameRow : leftRow = rightRow
  · obtain ⟨row, rowInside, differs, low, high⟩ := beside image.height leftRow tall leftRowInside
    exact both row leftColumn rowInside leftColumnInside (by omega) (by omega) (by omega)
  · by_cases sameColumn : leftColumn = rightColumn
    · obtain ⟨column, columnInside, differs, low, high⟩ :=
        beside image.width leftColumn wide leftColumnInside
      exact both leftRow column leftRowInside columnInside (by omega) (by omega) (by omega)
    · exact both rightRow leftColumn rightRowInside leftColumnInside (by omega) (by omega)
        (by omega)

/-- A single row or column whose last pixel has the highest value and shares it. -/
def EndsOnSharedMaximum (image : I2D) : Prop :=
  (image.height = 1 ∨ image.width = 1) ∧
    (∃ pixel < nel image - 1, image.data pixel = image.data (nel image - 1)) ∧
    ∀ pixel < nel image, image.data pixel ≤ image.data (nel image - 1)

instance : Decidable (EndsOnSharedMaximum image) :=
  inferInstanceAs (Decidable (_ ∧ _ ∧ _))

private theorem exists_last {β : Type} (items : List β) (holds : β → Prop) :
    (∀ item ∈ items, ¬ holds item) ∨ ∃ first item last, items = first ++ item :: last ∧
      holds item ∧ ∀ later ∈ last, ¬ holds later := by
  induction items with
  | nil =>
      refine Or.inl ?_
      intro item absent
      cases absent
  | cons item items ih =>
      rcases ih with none | ⟨first, found, last, split, here, quiet⟩
      · by_cases here : holds item
        · exact Or.inr ⟨[], item, items, rfl, here, none⟩
        · refine Or.inl ?_
          intro other member
          rcases List.mem_cons.mp member with same | later
          · rw [same]
            exact here
          · exact none other later
      · refine Or.inr ⟨item :: first, found, last, ?_, here, quiet⟩
        rw [split]
        rfl

private theorem neighborIndex_injective (index nindex : Nat) (offset other : Int × Int)
    (found : neighborIndex image index offset = some nindex)
    (otherFound : neighborIndex image index other = some nindex) : offset = other := by
  obtain ⟨_inside, row, column⟩ := (neighborIndex_eq_some _ _ _ _).mp found
  obtain ⟨_otherInside, otherRow, otherColumn⟩ := (neighborIndex_eq_some _ _ _ _).mp otherFound
  rw [row] at otherRow
  rw [column] at otherColumn
  exact Prod.ext (by omega) (by omega)

private theorem line_touching (line : image.height = 1 ∨ image.width = 1) (left right : Nat) :
    Touching image left right ↔
      left < nel image ∧ right < nel image ∧ (left + 1 = right ∨ right + 1 = left) := by
  unfold Touching
  constructor
  · intro touching
    obtain ⟨different, leftInside, rightInside, rows, columns⟩ := touching
    refine ⟨leftInside, rightInside, ?_⟩
    rcases line with single | single
    · rw [single, Nat.div_one, Nat.div_one] at columns
      omega
    · rw [nel, single, Nat.mul_one] at leftInside rightInside
      rw [Nat.mod_eq_of_lt leftInside, Nat.mod_eq_of_lt rightInside] at rows
      omega
  · intro both
    obtain ⟨leftInside, rightInside, beside⟩ := both
    refine ⟨by omega, leftInside, rightInside, ?_⟩
    rcases line with single | single
    · rw [single, Nat.mod_one, Nat.mod_one, Nat.div_one, Nat.div_one]
      omega
    · rw [nel, single, Nat.mul_one] at leftInside rightInside
      rw [Nat.mod_eq_of_lt leftInside, Nat.mod_eq_of_lt rightInside, Nat.div_eq_of_lt leftInside,
        Nat.div_eq_of_lt rightInside]
      omega

theorem line_offsets (line : image.height = 1 ∨ image.width = 1) (index : Nat)
    (behind : index + 1 < nel image) (before beyond : Int × Int)
    (toBefore : ∃ nindex, nindex + 1 = index ∧ neighborIndex image index before = some nindex)
    (toBeyond : neighborIndex image index beyond = some (index + 1)) :
    before.2 < beyond.2 ∨ (before.2 = beyond.2 ∧ before.1 < beyond.1) := by
  obtain ⟨nindex, rfl, found⟩ := toBefore
  obtain ⟨beforeInside, beforeRow, beforeColumn⟩ := (neighborIndex_eq_some _ _ _ _).mp found
  obtain ⟨beyondInside, beyondRow, beyondColumn⟩ := (neighborIndex_eq_some _ _ _ _).mp toBeyond
  rcases line with single | single
  · rw [single, Nat.div_one, Nat.div_one] at beforeColumn beyondColumn
    omega
  · rw [nel, single, Nat.mul_one] at behind
    rw [Nat.mod_eq_of_lt (by omega), Nat.mod_eq_of_lt (by omega)] at beforeRow beyondRow
    rw [Nat.div_eq_of_lt (by omega), Nat.div_eq_of_lt (by omega)] at beforeColumn beyondColumn
    omega

variable {earlier : List Nat} {index : Nat}

private theorem LastPixel.looked_iff (lastPixel : LastPixel image earlier index) (offset : Int × Int)
    (nindex : Nat) : Looked image earlier index offset nindex ↔
      Touching image index nindex ∧ neighborIndex image index offset = some nindex := by
  rw [Looked]
  apply and_congr_right
  intro touching
  apply and_iff_right
  rcases mem_concat_cases ((lastPixel.all nindex).mpr touching.2.2.1) with before | same
  · exact before
  · exact absurd same.symm touching.1

private theorem LastPixel.shares (lastPixel : LastPixel image earlier index) (pixel : Nat)
    (inside : pixel < nel image) (level : image.data pixel = image.data index) : pixel ≤ index := by
  rcases mem_concat_cases ((lastPixel.all pixel).mpr inside) with before | same
  · have order := lastPixel.last pixel before
    omega
  · exact Nat.le_of_eq same

/-- With two rows and two columns the last neighbour is in the pixel's tree already. -/
theorem wide_not_overtakes (tall : 2 ≤ image.height) (wide : 2 ≤ image.width)
    (lastPixel : LastPixel image earlier index) (first last : List (Int × Int))
    (offset : Int × Int) (nindex : Nat) (split : neighborOffsets = first ++ offset :: last)
    (looked : Looked image earlier index offset nindex)
    (quiet : ∀ later ∈ last, ∀ other, ¬ Looked image earlier index later other) :
    ¬ Overtakes image earlier index first nindex := by
  intro overtakes
  apply overtakes.1
  obtain ⟨common, toIndex, toNindex⟩ := touching_common tall wide index nindex looked.1
  obtain ⟨⟨between, listed, found⟩, _different⟩ :=
    (neighborIndex_touching image index common toIndex.2.1).mpr toIndex
  have lookedCommon := (lastPixel.looked_iff between common).mpr ⟨toIndex, found⟩
  have isFirst : between ∈ first := by
    rw [split, List.mem_append, List.mem_cons] at listed
    rcases listed with isFirst | same | isLast
    · exact isFirst
    · rw [same] at found
      have again := Option.some.inj (found.symm.trans looked.2.2)
      exact absurd again.symm toNindex.1
    · exact absurd lookedCommon (quiet between isLast common)
  apply Relation.EqvGen.trans _ common _
  · exact Relation.EqvGen.rel _ _
      (Or.inr ⟨rfl, toIndex, lookedCommon.2.1, between, isFirst, found⟩)
  · exact Relation.EqvGen.rel _ _ (Or.inl ⟨toNindex.symm, lookedCommon.2.1, looked.2.1⟩)

private theorem Seen.inside_iff (first : List (Int × Int)) (left right : Nat)
    (seen : Seen image earlier index first left right) :
    left < nel image ↔ right < nel image :=
  iff_of_true seen.touching.1.2.1 seen.touching.1.2.2.1

theorem line_sides (line : image.height = 1 ∨ image.width = 1)
    (lastPixel : LastPixel image earlier index) (first : List (Int × Int))
    (unlooked : ∀ offset ∈ first, neighborIndex image index offset ≠ some (index + 1))
    (left right : Nat) (linked : Relation.EqvGen (Seen image earlier index first) left right) :
    index < left ↔ index < right := by
  apply DisjointSets.generated_iff (fun pixel => index < pixel) _ left right linked
  intro one other seen
  have beside := ((line_touching line one other).mp seen.touching.1).2.2
  rcases seen with ⟨_touching, oneHere, otherHere⟩ | ⟨same, _touching, _here, offset, listed, found⟩
  · have oneElse : one ≠ index := fun same => lastPixel.turn.fresh (same ▸ oneHere)
    have otherElse : other ≠ index := fun same => lastPixel.turn.fresh (same ▸ otherHere)
    omega
  · have notBeyond : other ≠ index + 1 := by
      intro isBeyond
      rw [isBeyond] at found
      exact unlooked offset listed found
    omega

private theorem offsets_ordered : neighborOffsets.Pairwise (fun before beyond =>
    before.2 < beyond.2 ∨ (before.2 = beyond.2 ∧ before.1 < beyond.1)) := by
  decide

private theorem offset_not_earlier (first last : List (Int × Int)) (offset : Int × Int)
    (split : neighborOffsets = first ++ offset :: last) :
    ∀ other ∈ first, other.2 < offset.2 ∨ (other.2 = offset.2 ∧ other.1 < offset.1) := by
  have ordered := offsets_ordered
  rw [split, List.pairwise_append] at ordered
  intro other isFirst
  exact ordered.2.2 other isFirst offset List.mem_cons_self

theorem line_end (line : image.height = 1 ∨ image.width = 1)
    (lastPixel : LastPixel image earlier index) (first last : List (Int × Int))
    (offset : Int × Int) (nindex : Nat) (split : neighborOffsets = first ++ offset :: last)
    (found : neighborIndex image index offset = some nindex) (inside : index < nel image)
    (before : nindex + 1 = index)
    (quiet : ∀ later ∈ last, ∀ other, ¬ Looked image earlier index later other) :
    index = nel image - 1 := by
  by_contra notEnd
  have behind : index + 1 < nel image := by omega
  have toNext : Touching image index (index + 1) :=
    (line_touching line _ _).mpr ⟨inside, behind, Or.inl rfl⟩
  obtain ⟨⟨beyond, listed, toBeyond⟩, _different⟩ :=
    (neighborIndex_touching image index (index + 1) inside).mpr toNext
  have order := line_offsets line index behind offset beyond ⟨nindex, before, found⟩ toBeyond
  have lookedBeyond := (lastPixel.looked_iff beyond (index + 1)).mpr ⟨toNext, toBeyond⟩
  rw [split, List.mem_append, List.mem_cons] at listed
  rcases listed with isFirst | same | isLast
  · have earlierOrder := offset_not_earlier first last offset split beyond isFirst
    omega
  · rw [same] at order
    omega
  · exact quiet beyond isLast _ lookedBeyond

theorem line_chain (line : image.height = 1 ∨ image.width = 1)
    (lastPixel : LastPixel image earlier index) (first : List (Int × Int)) (nindex : Nat)
    (before : nindex < index) (inside : index < nel image) (steps : Nat) (short : steps ≤ nindex) :
    Relation.EqvGen (Seen image earlier index first) nindex (nindex - steps) := by
  have here (place : Nat) (below : place < index) : place ∈ earlier := by
    rcases mem_concat_cases ((lastPixel.all place).mpr (by omega)) with isEarlier | same
    · exact isEarlier
    · omega
  induction steps with
  | zero => exact Relation.EqvGen.refl _
  | succ steps ih =>
      apply Relation.EqvGen.trans _ _ _ (ih (Nat.le_of_succ_le short))
      refine Relation.EqvGen.rel _ _ (Or.inl ⟨(line_touching line _ _).mpr ?_, ?_, ?_⟩)
      · exact ⟨by omega, by omega, Or.inr (by omega)⟩
      · exact here _ (by omega)
      · exact here _ (by omega)

theorem line_alone (line : image.height = 1 ∨ image.width = 1)
    (lastPixel : LastPixel image earlier index) (first : List (Int × Int)) (nindex : Nat)
    (before : nindex + 1 = index) (isEnd : index = nel image - 1)
    (fresh : ∀ other ∈ first, neighborIndex image index other ≠ some nindex) :
    ¬ Relation.EqvGen (Seen image earlier index first) index nindex := by
  intro linked
  have stays (one other : Nat) (seen : Seen image earlier index first one other) :
      one = index ↔ other = index := by
    rcases seen with ⟨_touching, oneHere, otherHere⟩ | ⟨_same, toOther, _here, between, isFirst,
      toBetween⟩
    · exact iff_of_false (fun same => lastPixel.turn.fresh (same ▸ oneHere))
        (fun same => lastPixel.turn.fresh (same ▸ otherHere))
    · have place := (line_touching line index other).mp toOther
      have same : other = nindex := by omega
      rw [same] at toBetween
      exact absurd toBetween (fresh between isFirst)
  have alone := DisjointSets.generated_iff (fun pixel => pixel = index) stays index nindex linked
  have same := alone.mp rfl
  omega

private theorem line_overtakes_iff (line : image.height = 1 ∨ image.width = 1)
    (lastPixel : LastPixel image earlier index) (first last : List (Int × Int))
    (offset : Int × Int) (nindex : Nat) (split : neighborOffsets = first ++ offset :: last)
    (looked : Looked image earlier index offset nindex)
    (quiet : ∀ later ∈ last, ∀ other, ¬ Looked image earlier index later other) :
    Overtakes image earlier index first nindex ↔ EndsOnSharedMaximum image := by
  obtain ⟨touching, present, found⟩ := looked
  obtain ⟨inside, nindexInside, beside⟩ := (line_touching line index nindex).mp touching
  -- no difference before this one leads to the same pixel
  have fresh (other : Int × Int) (isFirst : other ∈ first) :
      neighborIndex image index other ≠ some nindex := by
    intro again
    have order := offset_not_earlier first last offset split other isFirst
    rw [neighborIndex_injective index nindex other offset again found] at order
    omega
  constructor
  · intro overtakes
    obtain ⟨apart, pixel, linked, level⟩ := overtakes
    have pixelInside : pixel < nel image :=
      (DisjointSets.generated_iff (fun pixel => pixel < nel image) (Seen.inside_iff first) nindex
        pixel linked).mp nindexInside
    have atMost := lastPixel.shares pixel pixelInside level
    rcases beside with beyond | before
    · rw [← beyond] at fresh linked
      have side := (line_sides line lastPixel first fresh _ _ linked).mp (Nat.lt_succ_self index)
      omega
    · have isEnd := line_end line lastPixel first last offset nindex split found inside before quiet
      have notIndex : pixel ≠ index := by
        intro same
        rw [same] at linked
        exact apart (Relation.EqvGen.symm _ _ linked)
      refine ⟨line, ⟨pixel, by omega, by rw [← isEnd, level]⟩, ?_⟩
      intro other otherInside
      rw [← isEnd]
      exact lastPixel.turn.atMost other ((lastPixel.all other).mpr otherInside)
  · intro ends
    obtain ⟨_line, ⟨pixel, pixelInside, level⟩, highest⟩ := ends
    have isEnd : index = nel image - 1 := by
      have endHere := (lastPixel.all (nel image - 1)).mpr (by omega)
      rcases mem_concat_cases endHere with before | same
      · have order := lastPixel.last _ before
        have high := highest index inside
        omega
      · exact same.symm
    have before : nindex + 1 = index := by omega
    refine ⟨line_alone line lastPixel first nindex before isEnd fresh, pixel, ?_, by rw [isEnd, level]⟩
    have there := line_chain line lastPixel first nindex (by omega) inside (nindex - pixel)
      (Nat.sub_le _ _)
    rwa [Nat.sub_sub_self (by omega)] at there

/-- The loop leaves the root of the tree in `rindex` but for a line that ends on a
maximum it shares. -/
theorem LastPixel.rooted_iff (lastPixel : LastPixel image earlier index) (rooted : Prop)
    (settles : Settles image earlier index [] neighborOffsets True rooted) :
    rooted ↔ ¬ EndsOnSharedMaximum image := by
  have inside := lastPixel.turn.inside
  rcases exists_last neighborOffsets (fun offset => ∃ nindex, Looked image earlier index offset nindex)
    with none | ⟨first, offset, last, split, ⟨nindex, looked⟩, quiet⟩
  · have alone : ¬ EndsOnSharedMaximum image := by
      intro ends
      obtain ⟨line, ⟨pixel, pixelInside, _level⟩, _highest⟩ := ends
      have neighbour : ∃ nindex, Touching image index nindex := by
        by_cases first : index = 0
        · exact ⟨index + 1, (line_touching line _ _).mpr ⟨inside, by omega, Or.inl rfl⟩⟩
        · exact ⟨index - 1, (line_touching line _ _).mpr ⟨inside, by omega, Or.inr (by omega)⟩⟩
      obtain ⟨nindex, touching⟩ := neighbour
      obtain ⟨⟨offset, listed, found⟩, _different⟩ :=
        (neighborIndex_touching image index nindex inside).mpr touching
      exact none offset listed ⟨nindex, (lastPixel.looked_iff offset nindex).mpr ⟨touching, found⟩⟩
    have settled := settles.unlooked
      (fun offset listed nindex looked => none offset listed ⟨nindex, looked⟩)
    rw [settled]
    exact iff_of_true trivial alone
  · have unlooked (later : Int × Int) (isLast : later ∈ last) (other : Nat) :
        ¬ Looked image earlier index later other := fun looks => quiet later isLast ⟨other, looks⟩
    rw [settles.looked first offset last nindex split looked unlooked, List.nil_append]
    by_cases line : image.height = 1 ∨ image.width = 1
    · rw [line_overtakes_iff line lastPixel first last offset nindex split looked unlooked]
    · have tall : 0 < image.height := Nat.pos_of_mul_pos_right (Nat.zero_lt_of_lt inside)
      have wide : 0 < image.width := Nat.pos_of_mul_pos_left (Nat.zero_lt_of_lt inside)
      apply iff_of_true
      · exact wide_not_overtakes (by omega) (by omega) lastPixel first last offset nindex split
          looked unlooked
      · exact fun ends => line ends.1

end

/-! ### The regions of the image -/

/-- The tree over all pixels, its root saved as the last region. -/
structure Extremals (image : I2D) (tree : Tree) (parents : Forest Nat) : Prop where
  link : ∀ node < nel image, (tree.forest node).parent = some (parents.link node)
  stays : ∀ node < nel image, parents.link node < nel image
  rises : ∀ node < nel image, image.data node ≤ image.data (parents.link node)
  oneTree : ∀ node < nel image, ∀ other < nel image, parents.root node = parents.root other
  joined : ∀ node, node ∈ tree.joins ↔ node < nel image ∧ parents.link node ≠ node
  joinsDistinct : tree.joins.Nodup
  joinsOrdered : tree.joins.Pairwise (fun earlier later => parents.link later ≠ earlier)
  order : ∃ top < nel image, parents.link top = top ∧
    (tree.regions.map Region.index).Sublist (tree.joins ++ [top])
  value : ∀ region ∈ tree.regions, region.value = image.data region.index ∧
    region.index < nel image
  steps : ∀ node < nel image, (∃ region ∈ tree.regions, region.index = node) ↔
    parents.link node = node ∨ image.data node < image.data (parents.link node)
  pixels : ∀ region ∈ tree.regions, ∃ pixels : List Nat, pixels.Nodup ∧
    region.area = pixels.length ∧ ∀ level, region.value ≤ level →
      (parents.link region.index = region.index ∨
        level < image.data (parents.link region.index)) →
      ∀ pixel, pixel ∈ pixels ↔ InRegion image level region.index pixel
  numbered : ∀ (number : Nat) (region : Region), tree.regions[number]? = some region →
    (tree.forest region.index).region = number ∧ region.parent = number ∧
      region.areaTop = nel image ∧ region.areaBot = 0
  connected : ∀ node < nel image,
    InRegion image (image.data (parents.link node)) node (parents.link node)
  distinct : tree.regions.Pairwise (fun earlier later =>
    ¬ (earlier.value = later.value ∧ InRegion image earlier.value earlier.index later.index))

section

variable {image : I2D} {done : List Nat} {tree : Tree} {parents : Forest Nat}

theorem InRegion.inside {level : Int} {pixel other : Nat}
    (connected : InRegion image level pixel other) : pixel < nel image ↔ other < nel image :=
  DisjointSets.generated_iff (fun pixel => pixel < nel image)
    (fun _left _right edge => iff_of_true edge.1.2.1 edge.1.2.2.1) pixel other connected

theorem InRegion.low {level : Int} {pixel other : Nat}
    (connected : InRegion image level pixel other) :
    image.data pixel ≤ level ↔ image.data other ≤ level :=
  DisjointSets.generated_iff (fun pixel => image.data pixel ≤ level)
    (fun _left _right edge => iff_of_true edge.2.1 edge.2.2) pixel other connected

theorem inRegion_all (level : Int) (highest : ∀ pixel < nel image, image.data pixel ≤ level)
    (pixel other : Nat) (inside : pixel < nel image) (otherInside : other < nel image) :
    InRegion image level pixel other := by
  have toFirst (node : Nat) (nodeInside : node < nel image) : InRegion image level node 0 := by
    apply Relation.EqvGen.mono _ _ _ (touching_connected node nodeInside)
    intro left right touching
    exact ⟨touching, highest left touching.2.1, highest right touching.2.2.1⟩
  exact Relation.EqvGen.trans _ _ _ (toFirst pixel inside)
    (Relation.EqvGen.symm _ _ (toFirst other otherInside))

private theorem Built.oneTree (built : Built image done tree parents)
    (all : ∀ pixel, pixel ∈ done ↔ pixel < nel image) (node other : Nat)
    (inside : node < nel image) (otherInside : other < nel image) :
    parents.root node = parents.root other := by
  have toFirst (pixel : Nat) (pixelInside : pixel < nel image) :
      parents.root pixel = parents.root 0 := by
    rw [built.grown.represents]
    apply Relation.EqvGen.mono _ _ _ (touching_connected pixel pixelInside)
    intro left right touching
    exact ⟨touching, (all left).mpr touching.2.1, (all right).mpr touching.2.2.1⟩
  rw [toFirst node inside, toFirst other otherInside]

theorem Built.highest (built : Built image done tree parents)
    (all : ∀ pixel, pixel ∈ done ↔ pixel < nel image) (top : Nat) (inside : top < nel image)
    (rooted : parents.link top = top) (pixel : Nat) (pixelInside : pixel < nel image) :
    image.data pixel ≤ image.data top := by
  have rises := (built.grown.root_above pixel ((all pixel).mpr pixelInside)).2
  rwa [built.oneTree all pixel top pixelInside inside, parents.root_self top rooted] at rises

private theorem Built.members_all (built : Built image done tree parents)
    (all : ∀ pixel, pixel ∈ done ↔ pixel < nel image) (top : Nat) (inside : top < nel image)
    (rooted : parents.link top = top) (pixel : Nat) :
    pixel ∈ parents.members done top ↔ pixel < nel image := by
  rw [parents.mem_members, all, and_iff_left_iff_imp]
  intro pixelInside
  rw [built.oneTree all pixel top pixelInside inside, parents.root_self top rooted]

private theorem Built.joined_iff (built : Built image done tree parents)
    (all : ∀ pixel, pixel ∈ done ↔ pixel < nel image) (node : Nat) :
    node ∈ tree.joins ↔ node < nel image ∧ parents.link node ≠ node := by
  rw [built.grown.joined, all]

theorem Built.older (built : Built image done tree parents)
    (all : ∀ pixel, pixel ∈ done ↔ pixel < nel image) (region : Region)
    (member : region ∈ tree.regions) :
    parents.link region.index ≠ region.index ∧ region.index < nel image ∧
      Extremal image region (image.data (parents.link region.index)) := by
  obtain ⟨isJoined, extremal⟩ := built.recorded.extremal region member
  obtain ⟨inside, passed⟩ := (built.joined_iff all _).mp isJoined
  exact ⟨passed, inside, extremal⟩

theorem Built.steps (built : Built image done tree parents)
    (all : ∀ pixel, pixel ∈ done ↔ pixel < nel image) (current : tree.rindex < nel image)
    (rooted : parents.link tree.rindex = tree.rindex) (node : Nat) (inside : node < nel image) :
    (∃ region ∈ (savedTree image tree tree.rindex).regions, region.index = node) ↔
      parents.link node = node ∨ image.data node < image.data (parents.link node) := by
  rw [savedTree]
  dsimp only
  constructor
  · rintro ⟨region, member, isNode⟩
    rw [← isNode]
    rcases List.mem_append.mp member with before | last
    · have extremal := (built.older all region before).2.2
      rw [← extremal.value]
      exact Or.inr extremal.below
    · rw [List.mem_singleton.mp last]
      exact Or.inl rooted
  · intro step
    by_cases isRoot : parents.link node = node
    · refine ⟨_, List.mem_append_right _ List.mem_cons_self, ?_⟩
      have same := built.oneTree all node tree.rindex inside current
      rw [parents.root_self node isRoot, parents.root_self _ rooted] at same
      exact same.symm
    · obtain ⟨region, member, isNode⟩ := built.recorded.steps node
        ((built.joined_iff all node).mpr ⟨inside, isRoot⟩) (step.resolve_left isRoot)
      exact ⟨region, List.mem_append_left _ member, isNode⟩

theorem Built.pixels (built : Built image done tree parents)
    (all : ∀ pixel, pixel ∈ done ↔ pixel < nel image) (current : tree.rindex < nel image)
    (rooted : parents.link tree.rindex = tree.rindex) (region : Region)
    (member : region ∈ (savedTree image tree tree.rindex).regions) :
    ∃ pixels : List Nat, pixels.Nodup ∧ region.area = pixels.length ∧
      ∀ level, region.value ≤ level →
        (parents.link region.index = region.index ∨
          level < image.data (parents.link region.index)) →
        ∀ pixel, pixel ∈ pixels ↔ InRegion image level region.index pixel := by
  rcases List.mem_append.mp member with before | last
  · obtain ⟨passed, _inside, extremal⟩ := built.older all region before
    obtain ⟨pixels, distinct, area, listed⟩ := extremal.pixels
    refine ⟨pixels, distinct, area, ?_⟩
    intro level above below
    exact listed level above (below.resolve_left passed)
  · rw [List.mem_singleton.mp last]
    refine ⟨parents.members done tree.rindex, built.grown.distinct.filter _, ?_, ?_⟩
    · exact built.grown.area tree.rindex ((all _).mpr current) rooted
    · intro level above _below pixel
      rw [built.members_all all tree.rindex current rooted]
      have highest (other : Nat) (inside : other < nel image) : image.data other ≤ level :=
        Int.le_trans (built.highest all tree.rindex current rooted other inside) above
      constructor
      · exact inRegion_all level highest tree.rindex pixel current
      · intro connected
        exact connected.inside.mp current

theorem Built.numbered (built : Built image done tree parents)
    (all : ∀ pixel, pixel ∈ done ↔ pixel < nel image)
    (rooted : parents.link tree.rindex = tree.rindex) (number : Nat) (region : Region)
    (found : (savedTree image tree tree.rindex).regions[number]? = some region) :
    ((savedTree image tree tree.rindex).forest region.index).region = number ∧
      region.parent = number ∧ region.areaTop = nel image ∧ region.areaBot = 0 := by
  rw [savedTree] at found ⊢
  dsimp only at found ⊢
  rcases Nat.lt_or_ge number tree.regions.length with before | behind
  · rw [List.getElem?_append_left before] at found
    have passed := (built.older all region (List.mem_of_getElem? found)).1
    have notTop : region.index ≠ tree.rindex := by
      intro same
      rw [same] at passed
      exact passed rooted
    rw [Function.update_of_ne notTop]
    exact built.recorded.numbered number region found
  · rw [List.getElem?_append_right behind, List.getElem?_singleton] at found
    split at found
    · rename_i isFirst
      have number_eq : number = tree.regions.length := by omega
      rw [← Option.some.inj found, regionAt, number_eq]
      dsimp only
      rw [Function.update_self]
      exact ⟨rfl, rfl, rfl, rfl⟩
    · cases found

theorem Built.extremals (built : Built image done tree parents)
    (all : ∀ pixel, pixel ∈ done ↔ pixel < nel image) (current : tree.rindex < nel image)
    (rooted : parents.link tree.rindex = tree.rindex) :
    Extremals image (savedTree image tree tree.rindex) parents := by
  have grown := built.grown
  have recorded := built.recorded
  have here (node : Nat) (inside : node < nel image) : node ∈ done := (all node).mpr inside
  have regions : (savedTree image tree tree.rindex).regions =
      tree.regions ++ [regionAt image tree.forest tree.regions.length tree.rindex] := rfl
  constructor
  case link =>
    intro node inside
    exact (grown.saved tree.rindex).link node (here node inside)
  case stays => exact fun node inside => (all _).mp (grown.stays node (here node inside))
  case rises => exact fun node inside => grown.rises node (here node inside)
  case oneTree => exact fun node inside other => built.oneTree all node other inside
  case joined => exact built.joined_iff all
  case joinsDistinct => exact grown.joinsDistinct
  case joinsOrdered => exact grown.joinsOrdered
  case order =>
    refine ⟨tree.rindex, current, rooted, ?_⟩
    rw [regions, List.map_append]
    exact recorded.order.append (List.Sublist.refl _)
  case value =>
    intro region member
    rw [regions] at member
    rcases List.mem_append.mp member with before | last
    · obtain ⟨_passed, inside, extremal⟩ := built.older all region before
      exact ⟨extremal.value, inside⟩
    · rw [List.mem_singleton.mp last]
      exact ⟨rfl, current⟩
  case steps => exact built.steps all current rooted
  case pixels => exact built.pixels all current rooted
  case numbered => exact built.numbered all rooted
  case connected => exact fun node inside => recorded.connected node (here node inside)
  case distinct =>
    rw [regions, List.pairwise_append]
    refine ⟨recorded.distinct, List.pairwise_singleton _ _, ?_⟩
    intro region member last isLast both
    rw [List.mem_singleton.mp isLast] at both
    obtain ⟨_passed, inside, extremal⟩ := built.older all region member
    have highest := built.highest all tree.rindex current rooted _
      ((all _).mp (grown.stays _ (here _ inside)))
    have below := extremal.below
    have sameValue : region.value = image.data tree.rindex := both.1
    omega

end

/-- What the comment at the head of `mser.c` says of a region: it is the connected
component of the level set of its value that contains its pixel. -/
structure IsComponent (image : I2D) (region : Region) : Prop where
  value : region.value = image.data region.index
  area : RegionSize image region.value region.index region.area

section

variable {image : I2D} {tree : Tree} {parents : Forest Nat}

/-- Up to the value of the root's parent the region is the component of the level set. -/
theorem Extremals.size (extremals : Extremals image tree parents) (region : Region)
    (member : region ∈ tree.regions) (level : Int) (above : region.value ≤ level)
    (below : parents.link region.index = region.index ∨
      level < image.data (parents.link region.index)) :
    RegionSize image level region.index region.area := by
  obtain ⟨pixels, distinct, area, listed⟩ := extremals.pixels region member
  exact ⟨pixels, distinct, area, listed level above below⟩

private theorem Extremals.isComponent (extremals : Extremals image tree parents) (region : Region)
    (member : region ∈ tree.regions) : IsComponent image region := by
  obtain ⟨value, inside⟩ := extremals.value region member
  refine ⟨value, extremals.size region member region.value (Int.le_refl _) ?_⟩
  rw [value]
  exact (extremals.steps region.index inside).mp ⟨region, member, rfl⟩

theorem Extremals.covered (extremals : Extremals image tree parents) (pixel : Nat)
    (inside : pixel < nel image) :
    ∃ region ∈ tree.regions, region.value = image.data pixel ∧
      InRegion image (image.data pixel) pixel region.index := by
  have saved (node : Nat) (nodeInside : node < nel image)
      (step : parents.link node = node ∨ image.data node < image.data (parents.link node)) :
      ∃ region ∈ tree.regions, region.value = image.data node ∧
        InRegion image (image.data node) node region.index := by
    obtain ⟨region, member, isNode⟩ := (extremals.steps node nodeInside).mpr step
    refine ⟨region, member, ?_, ?_⟩
    · rw [(extremals.value region member).1, isNode]
    · rw [isNode]
      exact Relation.EqvGen.refl _
  induction pixel using parents.link_induction with
  | rooted pixel rooted => exact saved pixel inside (Or.inl rooted)
  | step pixel passed ih =>
      rcases Int.lt_or_eq_of_le (extremals.rises pixel inside) with rises | level
      · exact saved pixel inside (Or.inr rises)
      · obtain ⟨region, member, value, connected⟩ := ih (extremals.stays pixel inside)
        have link := extremals.connected pixel inside
        rw [← level] at value connected link
        exact ⟨region, member, value, Relation.EqvGen.trans _ _ _ link connected⟩

theorem Extremals.unique (extremals : Extremals image tree parents) (region other : Region)
    (member : region ∈ tree.regions) (otherMember : other ∈ tree.regions)
    (level : region.value = other.value)
    (connected : InRegion image region.value region.index other.index) : region = other := by
  by_contra different
  obtain ⟨i, inside, rfl⟩ := List.mem_iff_getElem.mp member
  obtain ⟨j, otherInside, rfl⟩ := List.mem_iff_getElem.mp otherMember
  have distinct := List.pairwise_iff_getElem.mp extremals.distinct
  rcases Nat.lt_trichotomy i j with before | same | behind
  · exact distinct i j inside otherInside before ⟨level, connected⟩
  · subst same
    exact different rfl
  · apply distinct j i otherInside inside behind
    rw [level] at connected
    exact ⟨level.symm, Relation.EqvGen.symm _ _ connected⟩

theorem Extremals.nodup (extremals : Extremals image tree parents) : tree.regions.Nodup := by
  apply extremals.distinct.imp
  intro earlier later apart same
  rw [same] at apart
  exact apart ⟨rfl, Relation.EqvGen.refl _⟩

theorem Extremals.number_lt (extremals : Extremals image tree parents) (i j : Nat)
    (region around : Region) (found : tree.regions[i]? = some region)
    (aroundFound : tree.regions[j]? = some around)
    (below : parents.Below region.index around.index) : i ≤ j := by
  obtain ⟨top, topInside, rooted, order⟩ := extremals.order
  have ordered : (tree.joins ++ [top]).Pairwise (fun earlier later => parents.link later ≠ earlier) := by
    rw [List.pairwise_append]
    refine ⟨extremals.joinsOrdered, List.pairwise_singleton _ _, ?_⟩
    intro earlier joined last isTop
    rw [List.mem_singleton.mp isTop, rooted]
    intro same
    rw [← same] at joined
    exact ((extremals.joined top).mp joined).2 rooted
  have distinct : (tree.joins ++ [top]).Nodup := by
    refine List.Nodup.append extremals.joinsDistinct (List.nodup_singleton top) ?_
    intro node joined last
    rw [List.mem_singleton.mp last] at joined
    exact ((extremals.joined top).mp joined).2 rooted
  have all (node : Nat) (inside : node < nel image) : node ∈ tree.joins ++ [top] := by
    by_cases isRoot : parents.link node = node
    · have same := extremals.oneTree node inside top topInside
      rw [parents.root_self node isRoot, parents.root_self top rooted] at same
      exact List.mem_append_right _ (List.mem_singleton.mpr same)
    · exact List.mem_append_left _ ((extremals.joined node).mpr ⟨inside, isRoot⟩)
  have closed (node : Nat) (listed : node ∈ tree.joins ++ [top]) :
      parents.link node ∈ tree.joins ++ [top] := by
    apply all
    rcases mem_concat_cases listed with joined | isTop
    · exact extremals.stays node ((extremals.joined node).mp joined).1
    · rw [isTop, rooted]
      exact topInside
  have notBelow := (parents.pairwise_not_below _ distinct closed ordered).sublist order
  rw [List.pairwise_iff_getElem] at notBelow
  by_contra behind
  obtain ⟨iInside, rfl⟩ := List.getElem?_eq_some_iff.mp found
  obtain ⟨jInside, rfl⟩ := List.getElem?_eq_some_iff.mp aroundFound
  apply notBelow j i (by rwa [List.length_map]) (by rwa [List.length_map]) (by omega)
  rw [List.getElem_map, List.getElem_map]
  exact below

theorem Extremals.top_area (extremals : Extremals image tree parents) (region : Region)
    (member : region ∈ tree.regions) (rooted : parents.link region.index = region.index) :
    region.area = nel image := by
  obtain ⟨value, inside⟩ := extremals.value region member
  obtain ⟨pixels, distinct, area, listed⟩ := extremals.pixels region member
  have highest (pixel : Nat) (pixelInside : pixel < nel image) :
      image.data pixel ≤ region.value := by
    have rises := parents.path_inside
      (fun node => node < nel image ∧ image.data pixel ≤ image.data node)
      (fun node both => ⟨extremals.stays node both.1,
        Int.le_trans both.2 (extremals.rises node both.1)⟩) pixel ⟨pixelInside, Int.le_refl _⟩
    rw [value, ← parents.root_self _ rooted, ← extremals.oneTree pixel pixelInside _ inside]
    exact rises.2.2
  have all (pixel : Nat) : pixel ∈ pixels ↔ pixel ∈ List.range (nel image) := by
    rw [List.mem_range, listed region.value (Int.le_refl _) (Or.inl rooted)]
    constructor
    · intro connected
      exact connected.inside.mp inside
    · exact inRegion_all _ highest _ pixel inside
  rw [area, ((List.perm_ext_iff_of_nodup distinct List.nodup_range).mpr all).length_eq,
    List.length_range]

/-- The loop always returns; it saves the root unless the image is a line that ends on a
maximum it shares. -/
theorem extremalTree_cases (image : I2D) (unset : Nat → Node) (bytes : Bytes image)
    (nonempty : 0 < nel image) :
    ∃ tree parents, extremalTree image unset = some tree ∧
      (¬ EndsOnSharedMaximum image → Extremals image tree parents) ∧
      (EndsOnSharedMaximum image → ∀ region ∈ tree.regions, region.area < nel image) ∧
      ((tree.forest tree.rindex).parent = some tree.rindex ↔ ¬ EndsOnSharedMaximum image) := by
  obtain ⟨earlier, index, tree, parents, lastPixel, ran, growing, built, settles⟩ :=
    treeAfter_all bytes nonempty unset
  have grown := built.grown
  have rindexHere := growing.current
  have room : tree.regions.length < nel image := by
    have fewJoins := grown.joins_length _ rindexHere
    have fewPixels := grown.done_length
    have fewRegions := built.recorded.count
    omega
  have settled := lastPixel.rooted_iff _ settles
  refine ⟨savedTree image tree tree.rindex, parents, ?_, ?_, ?_, ?_⟩
  · rw [extremalTree, ran]
    exact recordRegion_room _ room
  · intro whole
    exact built.extremals lastPixel.all ((lastPixel.all _).mp rindexHere) (settled.mpr whole)
  · intro ends region member
    rcases List.mem_append.mp member with before | last
    · obtain ⟨isJoined, extremal⟩ := built.recorded.extremal region before
      obtain ⟨here, _passed⟩ := (grown.joined _).mp isJoined
      obtain ⟨pixels, distinct, area, listed⟩ := extremal.pixels
      have listedAt := listed region.value (Int.le_refl _) extremal.below
      have low : image.data region.index ≤ region.value := Int.le_of_eq extremal.value.symm
      -- the parent's value is too high for the region
      have missing : parents.link region.index ∉ pixels := by
        intro listedParent
        have parentLow := ((listedAt _).mp listedParent).low.mp low
        exact absurd extremal.below (Int.not_lt.mpr parentLow)
      have within : parents.link region.index :: pixels ⊆ List.range (nel image) := by
        intro pixel listedPixel
        rw [List.mem_range]
        rcases List.mem_cons.mp listedPixel with same | inRegion
        · rw [same]
          exact grown.inside _ (grown.stays _ here)
        · exact ((listedAt pixel).mp inRegion).inside.mp (grown.inside _ here)
      have bound := (List.subperm_of_subset (List.nodup_cons.mpr ⟨missing, distinct⟩)
        within).length_le
      rw [List.length_cons, List.length_range, ← area] at bound
      exact bound
    · rw [List.mem_singleton.mp last]
      exact growing.overtaken (fun rooted => settled.mp rooted ends)
  · have kept : (savedTree image tree tree.rindex).rindex = tree.rindex := rfl
    rw [← settled, kept, (grown.saved tree.rindex).link tree.rindex rindexHere,
      Option.some.injEq]

def smallImage : I2D := ⟨3, 2, fun i => [4, 1, 7, 4, 4, 1].getD i 0⟩

def emptyNodes (_index : Nat) : Node := ⟨none, 0, 0, 0⟩

theorem smallImage_bytes : Bytes smallImage := by
  unfold Bytes
  decide

end

/-- Two equal pixels: the root of the second is the first, and `rindex` is the second. -/
example : EndsOnSharedMaximum ⟨2, 1, fun _pixel => 9⟩ := by decide

end BlackboxProfiling.SdVbs.Mser
