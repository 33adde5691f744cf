import BlackboxProfiling.SdVbs.MserEllipses

/-!
The whole of `mser`: which regions it reports, how they differ from each other, and
what is fitted to them.
-/

namespace BlackboxProfiling.SdVbs.Mser

open DisjointSets (Forest)

structure Unset where
  nodes : Nat → Node
  regions : Nat → Region
  acc : Nat → BitVec 64

structure Result where
  table : RegionTable
  marks : Marks
  ell : Nat → BitVec 64
  out : List Nat

def mser {V : Type} (floats : Floats V) (image : I2D) (delta : Int) (unset : Unset) :
    Option Result := do
  let tree ← extremalTree image unset.nodes
  let regions ← regionParents image tree
  let table ← regionAreas delta (tableOf regions unset.regions)
  let stable ← stableRegions floats table (nel image)
  let marks := stable.numbered table.ner
  let ellipses ← fitEllipses image tree table marks unset.acc gdl
  let out ← saveRegions table marks table.ner
  return ⟨table, marks, ellipses.ell, out⟩

structure Usable (image : I2D) : Prop where
  bytes : Bytes image
  nonempty : 0 < nel image
  whole : ¬ EndsOnSharedMaximum image
  narrow : Narrow image
  few : nel image < 2 ^ 31

structure Finished {V : Type} (floats : Floats V) (image : I2D) (result : Result) (tree : Tree)
    (parents : Forest Nat) (before : RegionTable) (up : Forest Nat) : Prop where
  extremals : Extremals image tree parents
  family : Family image tree parents before up
  same : SameRegions before result.table
  counted : result.marks.Counted result.table.ner
  kept : ∀ k < result.table.ner, result.marks.maxstable k ≠ 0 ↔
    Kept floats result.table (nel image) up k
  number : ∀ k < result.table.ner, result.marks.maxstable k ≠ 0 →
    result.marks.maxstable k = (marked result.marks.maxstable k).length + 1
  fitted : Fitted image result.table result.marks gdl result.ell
  out : result.out = (marked result.marks.maxstable result.table.ner).map
    (fun k => (result.table.entry k).index + 1)

section

variable {V : Type} (floats : Floats V) {image : I2D}

theorem mser_finished (usable : Usable image) (delta : Int) (unset : Unset) :
    ∃ result tree parents before up, mser floats image delta unset = some result ∧
      measuredRegions image delta unset.nodes unset.regions = some result.table ∧
      Measuring delta up before.ner before result.table ∧
      Finished floats image result tree parents before up := by
  obtain ⟨tree, parents, ran, complete, _small⟩ :=
    extremalTree_cases image unset.nodes usable.bytes usable.nonempty
  have extremals := complete usable.whole
  obtain ⟨regions, passed, length, each⟩ := extremals.regionParents
  obtain ⟨up, family⟩ := extremals.family unset.regions length each usable.bytes
  obtain ⟨table, measured, measuring⟩ := areaLoop_measuring delta family.nested
    (tableOf regions unset.regions).ner (Nat.le_refl _)
  have same := measuring.same
  have nested := family.nested.same same
  obtain ⟨stable, chosen, counted, kept⟩ := stableRegions_kept floats nested
    (by
      intro k inside
      rw [same.ner] at inside
      exact family.order k inside) (nel image)
  have numberedCounted : (stable.numbered table.ner).Counted table.ner := by
    unfold Marks.Counted
    rw [← marked, stable.numbered_marked table.ner table.ner]
    exact counted
  obtain ⟨ellipses, fits, fitted⟩ := fitEllipses_fitted extremals usable.narrow usable.few
    counted.numbered
    (by
      intro k inside
      rw [same.ner] at inside
      obtain ⟨region, member, index, value, _rest⟩ := family.saved k inside
      rw [same.index, same.value]
      exact ⟨region, member, index, value⟩) unset.acc gdl (Nat.le_refl _)
  have saves := saveRegions_marked table (stable.numbered table.ner) numberedCounted table.ner
    (Nat.le_refl _)
  refine ⟨⟨table, stable.numbered table.ner, ellipses.ell,
    (marked (stable.numbered table.ner).maxstable table.ner).map
      (fun k => (table.entry k).index + 1)⟩, tree, parents, tableOf regions unset.regions, up, ?_, ?_,
    measuring, ?_⟩
  · rw [mser, ran]
    dsimp only [Option.bind_eq_bind, Option.bind_some]
    rw [passed]
    dsimp only [Option.bind_eq_bind, Option.bind_some]
    rw [regionAreas, measured]
    dsimp only [Option.bind_eq_bind, Option.bind_some]
    rw [chosen]
    dsimp only [Option.bind_eq_bind, Option.bind_some]
    rw [fits]
    dsimp only [Option.bind_eq_bind, Option.bind_some]
    rw [saves]
    rfl
  · rw [measuredRegions, ran]
    dsimp only [Option.bind_eq_bind, Option.bind_some]
    rw [passed]
    exact measured
  · constructor
    case extremals => exact extremals
    case family => exact family
    case same => exact same
    case counted => exact numberedCounted
    case kept =>
      intro k inside
      exact (stable.numbered_iff table.ner k).trans (kept k inside)
    case number =>
      intro k inside set
      have isSet := (stable.numbered_iff table.ner k).mp set
      dsimp only
      rw [stable.numbered_marked table.ner k, Marks.numbered]
      dsimp only
      rw [(enumerate_spec stable.maxstable table.ner).2 k, if_pos ⟨inside, isSet⟩]
    case fitted => exact fitted
    case out => rfl

variable {floats} {result : Result} {tree : Tree} {parents up : Forest Nat} {before : RegionTable}

private theorem Finished.marked_kept (finished : Finished floats image result tree parents before up) :
    marked result.marks.maxstable result.table.ner =
      (List.range result.table.ner).filter
        (fun k => decide (Kept floats result.table (nel image) up k)) :=
  List.filter_congr (fun k listed =>
    decide_eq_decide.mpr (finished.kept k (List.mem_range.mp listed)))

/-- A region as the areas pass leaves it, in terms of the image. -/
theorem Finished.component (finished : Finished floats image result tree parents before up) (k : Nat)
    (inside : k < result.table.ner) : IsComponent image (result.table.entry k) := by
  have same := finished.same
  rw [same.ner] at inside
  have own := finished.family.size finished.extremals k inside _ (Int.le_refl _)
    (finished.family.higher k inside)
  have value := finished.family.value finished.extremals k inside
  rw [← same.value, ← same.index] at own value
  rw [← same.area] at own
  exact ⟨value, own⟩

theorem Finished.reported (finished : Finished floats image result tree parents before up)
    (place pixel : Nat) (found : result.out[place]? = some (pixel + 1)) :
    ∃ k < result.table.ner, (result.table.entry k).index = pixel ∧
      Kept floats result.table (nel image) up k ∧ result.marks.maxstable k ≠ 0 ∧
      result.marks.maxstable k - 1 = place := by
  rw [finished.out, List.getElem?_map] at found
  obtain ⟨k, atPlace, index⟩ := Option.map_eq_some_iff.mp found
  obtain ⟨inside, set, count⟩ := marked_getElem _ _ _ _ atPlace
  refine ⟨k, inside, Nat.succ.inj index, (finished.kept k inside).mp set, set, ?_⟩
  rw [finished.number k inside set, count]
  rfl

theorem Finished.entry (finished : Finished floats image result tree parents before up) (entry : Nat)
    (member : entry ∈ result.out) :
    ∃ k < result.table.ner, entry = (result.table.entry k).index + 1 ∧
      Kept floats result.table (nel image) up k := by
  rw [finished.out, finished.marked_kept] at member
  obtain ⟨k, kept, isEntry⟩ := List.mem_map.mp member
  obtain ⟨listed, isKept⟩ := List.mem_filter.mp kept
  exact ⟨k, List.mem_range.mp listed, isEntry.symm, of_decide_eq_true isKept⟩

theorem Finished.distinct (finished : Finished floats image result tree parents before up) :
    result.out.Nodup := by
  have same := finished.same
  rw [finished.out]
  refine List.Nodup.map_on ?_ (List.nodup_range.filter _)
  intro k listed other otherListed equal
  have inside := List.mem_range.mp (List.mem_filter.mp listed).1
  have otherInside := List.mem_range.mp (List.mem_filter.mp otherListed).1
  have index := Nat.succ.inj equal
  have value : (result.table.entry k).value = (result.table.entry other).value := by
    rw [(finished.component k inside).value, (finished.component other otherInside).value, index]
  rw [same.ner] at inside otherInside
  rw [same.index, same.index] at index
  rw [same.value, same.value] at value
  exact finished.family.apart k inside other otherInside value (index ▸ Relation.EqvGen.refl _)

theorem Finished.middle (finished : Finished floats image result tree parents before up) (entry : Nat)
    (member : entry ∈ result.out) :
    ∃ pixel < nel image, entry = pixel + 1 ∧
      ∃ size, RegionSize image (image.data pixel) pixel size ∧ 25 ≤ size ∧ size ≤ nel image / 2 := by
  have same := finished.same
  obtain ⟨k, inside, isEntry, kept⟩ := finished.entry entry member
  obtain ⟨value, own⟩ := finished.component k inside
  obtain ⟨_stable, stays⟩ := kept
  rw [value] at own
  rw [same.ner] at inside
  obtain ⟨region, regionMember, index, _rest⟩ := finished.family.saved k inside
  refine ⟨(result.table.entry k).index, ?_, isEntry, _, own, ?_, ?_⟩
  · rw [same.index, index]
    exact (finished.extremals.value region regionMember).2
  · by_contra few
    exact stays (Or.inr (Or.inl (Nat.not_le.mp few)))
  · by_contra big
    exact stays (Or.inl (Nat.not_le.mp big))

/-- The next stable region around an inner region lies within any stable region that
contains it. -/
theorem Finished.next_inside (finished : Finished floats image result tree parents before up)
    (k j : Nat) (inside : k < result.table.ner) (otherInside : j < result.table.ner)
    (numbers : j ≠ k) (stable : MaximallyStable floats result.table k)
    (connected : InRegion image (result.table.entry k).value (result.table.entry k).index
      (result.table.entry j).index)
    (low : (result.table.entry j).value ≤ (result.table.entry k).value) :
    (result.table.entry (nextStable floats result.table up j)).area ≤ (result.table.entry k).area := by
  have same := finished.same
  have family := finished.family
  have isStable : decide (MaximallyStable floats result.table k) = true := decide_eq_true stable
  rw [same.ner] at inside otherInside
  rw [same.value, same.index, same.index] at connected
  rw [same.value, same.value] at low
  have below := family.below_of_contains finished.extremals j k otherInside inside low connected
  have above := Or.resolve_left (below_cases j k below) numbers.symm
  have nextBelow : up.Below (nextStable floats result.table up j) k :=
    up.first_below _ (up.link j) k isStable above
  have linkInside := family.nested.stays j otherInside
  have nextInside : nextStable floats result.table up j < before.ner :=
    (family.nested.below _ _ linkInside (up.below_first _ (up.link j))).1
  have smaller := family.area_le finished.extremals _ k nextInside nextBelow
  rw [← same.area, ← same.area] at smaller
  exact smaller

def fractions : Floats (Int × Int) where
  ratio number area := (number, area)
  less first second := decide (first.1 * second.2 < second.1 * first.2)
  belowHalf fraction := decide (2 * fraction.1 < fraction.2)

/-- A dark block with a slightly brighter edge on a bright ground. -/
def blockImage : I2D where
  height := 10
  width := 10
  data i := if i % 10 < 6 ∧ i / 10 < 5 then 10 else if i < 8 then 12 else 200

def emptyArrays : Unset := ⟨emptyNodes, fun _k => ⟨0, 0, 0, 0, 0, 0⟩, fun _index => 0⟩

private theorem blockImage_usable : Usable blockImage where
  bytes := by
    intro i _inside
    rw [blockImage]
    dsimp only
    split
    · omega
    · split <;> omega
  nonempty := by decide
  whole := by decide
  narrow := by decide
  few := by decide

/-- `mser` reports, in the order of the tree, the regions that are more stable than the
regions next to them, of middle size and not nearly the next stable region around. -/
theorem mser_reports (floats : Floats V) (image : I2D) (delta : Int) (unset : Unset)
    (usable : Usable image) (positive : 0 < delta) :
    ∃ result up, mser floats image delta unset = some result ∧ Nested result.table up ∧
      (∀ k < result.table.ner, IsComponent image (result.table.entry k) ∧
        RegionSize image ((result.table.entry k).value + delta) (result.table.entry k).index
          (result.table.entry k).areaTop ∧
        LargestBelow image (result.table.entry k) ((result.table.entry k).value - delta)
          (result.table.entry k).areaBot) ∧
      result.out = ((List.range result.table.ner).filter
        (fun k => decide (Kept floats result.table (nel image) up k))).map
          (fun k => (result.table.entry k).index + 1) ∧
      result.marks.nmer = result.out.length := by
  obtain ⟨result, tree, parents, before, up, ran, _measured, measuring, finished⟩ :=
    mser_finished floats usable delta unset
  have same := finished.same
  refine ⟨result, up, ran, finished.family.nested.same same, ?_, ?_, ?_⟩
  · intro k inside
    have component := finished.component k inside
    rw [same.ner] at inside
    have top := measuring.areaTop positive finished.family finished.extremals k inside
    obtain ⟨atLeast, attained⟩ :=
      measuring.areaBot positive finished.family finished.extremals k inside
    rw [← same.value, ← same.index] at top atLeast attained
    exact ⟨component, top, atLeast, attained⟩
  · rw [finished.out, finished.marked_kept]
  · have counted := finished.counted
    unfold Marks.Counted at counted
    rw [finished.out, List.length_map, marked]
    exact counted

theorem mser_reports_sample :
    ∃ result up, mser fractions blockImage 2 emptyArrays = some result ∧
      result.out = ((List.range result.table.ner).filter
        (fun k => decide (Kept fractions result.table 100 up k))).map
          (fun k => (result.table.entry k).index + 1) := by
  obtain ⟨result, up, ran, _nested, _measured, out, _nmer⟩ :=
    mser_reports fractions blockImage 2 emptyArrays blockImage_usable (by decide)
  exact ⟨result, up, ran, out⟩

/-- The reported pixels are distinct and their regions of middle size, and where one
reported region contains another of at most `2 ^ 24` pixels, their sizes differ by half of
the smaller one or more. Up to that many pixels a `float` tells a quotient below one half. -/
theorem mser_different (floats : Floats V) (image : I2D) (delta : Int) (unset : Unset)
    (usable : Usable image)
    (half : ∀ number area, 0 < area → area ≤ 2 ^ 24 → 2 * number < area →
      floats.belowHalf (floats.ratio number area) = true) :
    ∃ result, mser floats image delta unset = some result ∧ result.out.Nodup ∧
      (∀ entry ∈ result.out, ∃ pixel < nel image, entry = pixel + 1 ∧
        ∃ size, RegionSize image (image.data pixel) pixel size ∧ 25 ≤ size ∧
          size ≤ nel image / 2) ∧
      ∀ pixel other, pixel + 1 ∈ result.out → other + 1 ∈ result.out → pixel ≠ other →
        InRegion image (image.data pixel) pixel other →
        ∀ size inner, RegionSize image (image.data pixel) pixel size →
          RegionSize image (image.data other) other inner → inner ≤ 2 ^ 24 →
          inner ≤ 2 * ((size : Int) - inner) := by
  obtain ⟨result, tree, parents, before, up, ran, _measured, _measuring, finished⟩ :=
    mser_finished floats usable delta unset
  refine ⟨result, ran, finished.distinct, finished.middle, ?_⟩
  intro pixel other member otherMember different connected size inner sized innerSized exact
  obtain ⟨k, inside, isPixel, kept⟩ := finished.entry (pixel + 1) member
  obtain ⟨j, otherInside, isOther, otherKept⟩ := finished.entry (other + 1) otherMember
  obtain ⟨value, own⟩ := finished.component k inside
  obtain ⟨otherValue, otherOwn⟩ := finished.component j otherInside
  rw [Nat.succ.inj isPixel] at sized connected
  rw [Nat.succ.inj isOther] at innerSized connected
  have numbers : j ≠ k := by
    intro equal
    rw [equal] at isOther
    exact different (Nat.succ.inj (isPixel.trans isOther.symm))
  have low := connected.low.mp (Int.le_refl _)
  rw [← value] at sized connected low
  rw [← otherValue] at innerSized low
  have smaller := finished.next_inside k j inside otherInside numbers kept.1 connected low
  have positive := otherOwn.pos
  rw [← sized.unique own] at smaller
  have area := innerSized.unique otherOwn
  by_contra similar
  refine otherKept.2 (Or.inr (Or.inr ?_))
  exact half _ _ (Int.natCast_pos.mpr positive) (by omega) (by omega)

theorem mser_different_sample :
    ∃ result, mser fractions blockImage 2 emptyArrays = some result ∧ result.out.Nodup := by
  obtain ⟨result, ran, distinct, _sizes, _different⟩ :=
    mser_different fractions blockImage 2 emptyArrays blockImage_usable
      (fun _number _area _positive _exact below => decide_eq_true below)
  exact ⟨result, ran, distinct⟩

/-- Row `place` of `ell_pt` holds the sums of rows, columns and their products over the
region that entry `place` of `out` reports. -/
theorem mser_ellipses (floats : Floats V) (image : I2D) (delta : Int) (unset : Unset)
    (usable : Usable image) :
    ∃ result, mser floats image delta unset = some result ∧
      ∀ place pixel, result.out[place]? = some (pixel + 1) →
        ∀ pixels : List Nat, pixels.Nodup →
          (∀ other, other ∈ pixels ↔ InRegion image (image.data pixel) pixel other) →
          ∀ d < gdl, (result.ell (d + gdl * place)).toNat =
            (pixels.map (fun other => (moments image other).getD d 0)).sum := by
  obtain ⟨result, tree, parents, before, up, ran, _measured, _measuring, finished⟩ :=
    mser_finished floats usable delta unset
  refine ⟨result, ran, ?_⟩
  intro place pixel found pixels distinct listed d known
  obtain ⟨k, inside, index, _kept, set, isPlace⟩ := finished.reported place pixel found
  have value := (finished.component k inside).value
  rw [index] at value
  have region (other : Nat) : other ∈ pixels ↔
      InRegion image (result.table.entry k).value (result.table.entry k).index other := by
    rw [value, index]
    exact listed other
  rw [← isPlace]
  exact finished.fitted k inside set pixels distinct region d known

theorem mser_ellipses_sample :
    ∃ result, mser fractions blockImage 2 emptyArrays = some result ∧
      ∀ pixel, result.out[0]? = some (pixel + 1) →
        ∀ pixels : List Nat, pixels.Nodup →
          (∀ other, other ∈ pixels ↔ InRegion blockImage (blockImage.data pixel) pixel other) →
          (result.ell 1).toNat =
            (pixels.map (fun other => (moments blockImage other).getD 1 0)).sum := by
  obtain ⟨result, ran, fitted⟩ :=
    mser_ellipses fractions blockImage 2 emptyArrays blockImage_usable
  exact ⟨result, ran, fun pixel found pixels distinct listed =>
    fitted 0 pixel found pixels distinct listed 1 (by decide)⟩

end

end BlackboxProfiling.SdVbs.Mser
