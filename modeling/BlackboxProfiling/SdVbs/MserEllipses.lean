import BlackboxProfiling.ForestSums
import BlackboxProfiling.SdVbs.MserStability
import Mathlib.Algebra.BigOperators.Ring.Finset
import Mathlib.Algebra.Order.BigOperators.Group.Finset
import Mathlib.Data.BitVec

/-!
The pass of `mser.c` that fits ellipses: for each parameter it lays the values of the
pixels out in `acc_pt`, sums them up the tree along the recorded joins and saves the sums
of the regions that stay. Behind it the whole of `mser`.
-/

namespace BlackboxProfiling.SdVbs.Mser

open DisjointSets (Forest)

def ndims : Nat := 2

def dims (image : I2D) : List Nat := [image.height, image.width]

def gdl : Nat := ndims * (ndims + 1) / 2 + ndims

def adv : List Nat → List Nat → List Nat
  | dim :: dims, sub :: subs =>
      if sub + 1 < dim then (sub + 1) :: subs else 0 :: adv dims subs
  | _dims, subs => subs

def decodePair (i j : Nat) : Nat × Nat :=
  if j < i then decodePair (i - (j + 1)) (j + 1) else (i, j)
termination_by i

/-- Parameter `d` of a pixel. A product that is no `int` is no result. -/
def ellipseParameter (subs : List Nat) (d : Nat) : Option (BitVec 64) :=
  if d < ndims then (subs[d]?).map (BitVec.ofNat 64)
  else do
    let pair := decodePair (d - ndims) 0
    let first ← subs[pair.1]?
    let second ← subs[pair.2]?
    if first * second < 2 ^ 31 then some (BitVec.ofNat 64 (first * second)) else none

structure Filling where
  subs : List Nat
  acc : Nat → BitVec 64

def fillAccumulators (image : I2D) (d : Nat) (acc : Nat → BitVec 64) : Nat → Option Filling
  | 0 => some ⟨List.replicate ndims 0, acc⟩
  | index + 1 => do
      let before ← fillAccumulators image d acc index
      let value ← ellipseParameter before.subs d
      return ⟨adv (dims image) before.subs, Function.update before.acc index value⟩

/-- The joins in their order, each of which adds a pixel's sum to that of its parent. A
pixel without a parent within the image is no result. -/
def integrate (image : I2D) (forest : Nat → Node) :
    List Nat → (Nat → BitVec 64) → Option (Nat → BitVec 64)
  | [], acc => some acc
  | index :: joins, acc => do
      let parent ← (forest index).parent
      if index < nel image ∧ parent < nel image then
        integrate image forest joins (Function.update acc parent (acc parent + acc index))
      else none

/-- Saves parameter `d` of the numbered regions among the first. A store behind the
`gdl*nmer` entries of `ell_pt` is no result. -/
def saveEllipses (image : I2D) (table : RegionTable) (marks : Marks) (d : Nat)
    (acc ell : Nat → BitVec 64) : Nat → Option (Nat → BitVec 64)
  | 0 => some ell
  | i + 1 => do
      let before ← saveEllipses image table marks d acc ell i
      let number := marks.maxstable i
      if number = 0 then some before
      else
        let slot := d + gdl * (number - 1)
        if (slot : Int) < gdl * marks.nmer ∧ (table.entry i).index < nel image then
          some (Function.update before slot (acc (table.entry i).index))
        else none

structure Ellipses where
  acc : Nat → BitVec 64
  ell : Nat → BitVec 64

def ellipsePass (image : I2D) (tree : Tree) (table : RegionTable) (marks : Marks) (d : Nat)
    (before : Ellipses) : Option Ellipses := do
  let filled ← fillAccumulators image d before.acc (nel image)
  let acc ← integrate image tree.forest tree.joins filled.acc
  let ell ← saveEllipses image table marks d acc before.ell table.ner
  return ⟨acc, ell⟩

def fitEllipses (image : I2D) (tree : Tree) (table : RegionTable) (marks : Marks)
    (acc : Nat → BitVec 64) : Nat → Option Ellipses
  | 0 => some ⟨acc, fun _slot => 0⟩
  | d + 1 => do
      let before ← fitEllipses image tree table marks acc d
      ellipsePass image tree table marks d before

def subscripts : List Nat → Nat → List Nat
  | [], _index => []
  | dim :: dims, index => index % dim :: subscripts dims (index / dim)

private theorem adv_subscripts (dims : List Nat) (positive : ∀ dim ∈ dims, 0 < dim) (index : Nat) :
    adv dims (subscripts dims index) = subscripts dims (index + 1) := by
  induction dims generalizing index with
  | nil => rfl
  | cons dim dims ih =>
      have here := positive dim List.mem_cons_self
      have split := Nat.mod_add_div index dim
      have small := Nat.mod_lt index here
      rw [subscripts, subscripts, adv]
      by_cases carries : index % dim + 1 < dim
      · have next : (index + 1) / dim = index / dim ∧ (index + 1) % dim = index % dim + 1 := by
          rw [Nat.div_mod_unique here]
          exact ⟨by omega, carries⟩
        rw [if_pos carries, next.1, next.2]
      · have full : dim * (index / dim + 1) = dim + dim * (index / dim) := by
          rw [Nat.mul_succ, Nat.add_comm]
        have next : (index + 1) / dim = index / dim + 1 ∧ (index + 1) % dim = 0 := by
          rw [Nat.div_mod_unique here]
          exact ⟨by omega, here⟩
        rw [if_neg carries, next.1, next.2,
          ih (fun other member => positive other (List.mem_cons_of_mem _ member))]

def moments (image : I2D) (pixel : Nat) : List Nat :=
  let row := pixel % image.height
  let column := pixel / image.height
  [row, column, row * row, row * column, column * column]

/-- Subscripts whose products are `int` values. -/
def Narrow (image : I2D) : Prop := image.height ≤ 46341 ∧ image.width ≤ 46341

instance (image : I2D) : Decidable (Narrow image) := inferInstanceAs (Decidable (_ ∧ _))

section

variable {image : I2D}

private theorem pixel_subscripts (narrow : Narrow image) (pixel : Nat) (inside : pixel < nel image) :
    0 < image.height ∧ 0 < image.width ∧ pixel % image.height ≤ 46340 ∧
      pixel / image.height ≤ 46340 ∧
      subscripts (dims image) pixel = [pixel % image.height, pixel / image.height] := by
  have height : 0 < image.height := by
    by_contra none
    rw [nel, Nat.eq_zero_of_not_pos none, Nat.zero_mul] at inside
    exact absurd inside (Nat.not_lt_zero pixel)
  have row := Nat.mod_lt pixel height
  have column : pixel / image.height < image.width := Nat.div_lt_of_lt_mul inside
  obtain ⟨low, flat⟩ := narrow
  refine ⟨height, Nat.zero_lt_of_lt column, Nat.le_of_lt_succ (Nat.lt_of_lt_of_le row low),
    Nat.le_of_lt_succ (Nat.lt_of_lt_of_le column flat), ?_⟩
  rw [dims, subscripts, subscripts, subscripts, Nat.mod_eq_of_lt column]

private theorem product_lt (first second : Nat) (small : first ≤ 46340) (otherSmall : second ≤ 46340) :
    first * second < 2 ^ 31 :=
  Nat.lt_of_le_of_lt (Nat.mul_le_mul small otherSmall) (by decide)

private theorem moments_lt (narrow : Narrow image) (pixel : Nat) (inside : pixel < nel image)
    (d : Nat) :
    (moments image pixel).getD d 0 < 2 ^ 31 := by
  obtain ⟨_height, _width, row, column, _subs⟩ := pixel_subscripts narrow pixel inside
  have each : ∀ value ∈ moments image pixel, value < 2 ^ 31 := by
    intro value member
    simp only [moments, List.mem_cons, List.not_mem_nil, or_false] at member
    rcases member with rfl | rfl | rfl | rfl | rfl
    · omega
    · omega
    · exact product_lt _ _ row row
    · exact product_lt _ _ row column
    · exact product_lt _ _ column column
  rw [List.getD_eq_getElem?_getD]
  cases found : (moments image pixel)[d]? with
  | none => exact Nat.two_pow_pos 31
  | some value => exact each value (List.mem_of_getElem? found)

private theorem decodePair_done (i j : Nat) (done : ¬ j < i) : decodePair i j = (i, j) := by
  rw [decodePair, if_neg done]

private theorem decodePair_next (i j : Nat) (more : j < i) :
    decodePair i j = decodePair (i - (j + 1)) (j + 1) := by
  rw [decodePair, if_pos more]

private theorem ellipseParameter_moments (narrow : Narrow image) (pixel : Nat)
    (inside : pixel < nel image)
    (d : Nat) (known : d < gdl) :
    ellipseParameter (subscripts (dims image) pixel) d =
      some (BitVec.ofNat 64 ((moments image pixel).getD d 0)) := by
  obtain ⟨_height, _width, row, column, subs⟩ := pixel_subscripts narrow pixel inside
  have squares := product_lt _ _ row row
  have mixed := product_lt _ _ row column
  have columns := product_lt _ _ column column
  have first : decodePair 0 0 = (0, 0) := decodePair_done 0 0 (by decide)
  have second : decodePair 1 0 = (0, 1) :=
    (decodePair_next 1 0 (by decide)).trans (decodePair_done 0 1 (by decide))
  have third : decodePair 2 0 = (1, 1) :=
    (decodePair_next 2 0 (by decide)).trans (decodePair_done 1 1 (by decide))
  have five : d < 5 := known
  have cases : d = 0 ∨ d = 1 ∨ d = 2 ∨ d = 3 ∨ d = 4 := by omega
  rw [subs, ellipseParameter]
  rcases cases with rfl | rfl | rfl | rfl | rfl
  · rfl
  · rfl
  · rw [if_neg (by decide), show 2 - ndims = 0 from rfl, first]
    exact if_pos squares
  · rw [if_neg (by decide), show 3 - ndims = 1 from rfl, second]
    exact if_pos mixed
  · rw [if_neg (by decide), show 4 - ndims = 2 from rfl, third]
    exact if_pos columns

private theorem fillAccumulators_moments (narrow : Narrow image) (d : Nat) (known : d < gdl)
    (acc : Nat → BitVec 64) (turns : Nat) (within : turns ≤ nel image) :
    ∃ filled, fillAccumulators image d acc turns = some filled ∧
      (0 < nel image → filled.subs = subscripts (dims image) turns) ∧
      ∀ pixel < turns, filled.acc pixel = BitVec.ofNat 64 ((moments image pixel).getD d 0) := by
  induction turns with
  | zero =>
      refine ⟨_, rfl, ?_, fun pixel none => absurd none (Nat.not_lt_zero pixel)⟩
      intro _nonempty
      simp [dims, subscripts, ndims]
  | succ turns ih =>
      obtain ⟨before, ran, subs, filled⟩ := ih (Nat.le_of_succ_le within)
      have nonempty : 0 < nel image := Nat.lt_of_le_of_lt (Nat.zero_le turns) within
      obtain ⟨height, width, _rest⟩ := pixel_subscripts narrow turns within
      have positive : ∀ dim ∈ dims image, 0 < dim := by
        intro dim member
        simp only [dims, List.mem_cons, List.not_mem_nil, or_false] at member
        rcases member with rfl | rfl
        · exact height
        · exact width
      rw [fillAccumulators, ran]
      dsimp only [Option.bind_eq_bind, Option.bind_some]
      rw [subs nonempty, ellipseParameter_moments narrow turns within d known,
        adv_subscripts (dims image) positive turns]
      refine ⟨_, rfl, fun _nonempty => rfl, ?_⟩
      intro pixel before'
      dsimp only
      rcases Nat.lt_or_eq_of_le (Nat.le_of_lt_succ before') with earlier | last
      · rw [Function.update_of_ne (Nat.ne_of_lt earlier)]
        exact filled pixel earlier
      · rw [last, Function.update_self]

private theorem integrate_gather (parents : Forest Nat) (forest : Nat → Node) (joins : List Nat)
    (linked : ∀ index ∈ joins, index < nel image ∧ parents.link index < nel image ∧
      (forest index).parent = some (parents.link index)) (acc : Nat → BitVec 64) :
    integrate image forest joins acc = some (parents.gather joins acc) := by
  induction joins generalizing acc with
  | nil => rfl
  | cons index joins ih =>
      obtain ⟨inside, parentInside, parent⟩ := linked index List.mem_cons_self
      rw [integrate, parent, Forest.gather]
      dsimp only [Option.bind_eq_bind, Option.bind_some]
      rw [if_pos ⟨inside, parentInside⟩]
      exact ih (fun other member => linked other (List.mem_cons_of_mem _ member)) _

private theorem toNat_sum (pixels : Finset Nat) (value : Nat → Nat)
    (fits : ∑ pixel ∈ pixels, value pixel < 2 ^ 64) :
    (∑ pixel ∈ pixels, BitVec.ofNat 64 (value pixel)).toNat = ∑ pixel ∈ pixels, value pixel := by
  have cast : ∑ pixel ∈ pixels, BitVec.ofNat 64 (value pixel) =
      BitVec.ofNat 64 (∑ pixel ∈ pixels, value pixel) := by
    simp only [← BitVec.natCast_eq_ofNat]
    exact (Nat.cast_sum pixels value).symm
  rw [cast, BitVec.toNat_ofNat, Nat.mod_eq_of_lt fits]

private theorem sum_moments_lt (narrow : Narrow image) (few : nel image < 2 ^ 31) (pixels : Finset Nat)
    (within : ∀ pixel ∈ pixels, pixel < nel image) (d : Nat) :
    ∑ pixel ∈ pixels, (moments image pixel).getD d 0 < 2 ^ 64 := by
  have card : pixels.card ≤ nel image := by
    have subset := Finset.card_le_card
      (fun pixel member => Finset.mem_range.mpr (within pixel member) : pixels ⊆ Finset.range (nel image))
    rwa [Finset.card_range] at subset
  have bound := Finset.sum_le_card_nsmul pixels (fun pixel => (moments image pixel).getD d 0) (2 ^ 31)
    (fun pixel member => Nat.le_of_lt (moments_lt narrow pixel (within pixel member) d))
  calc ∑ pixel ∈ pixels, (moments image pixel).getD d 0
      ≤ pixels.card * 2 ^ 31 := bound
    _ ≤ 2 ^ 31 * 2 ^ 31 := Nat.mul_le_mul_right _ (Nat.le_trans card (Nat.le_of_lt few))
    _ < 2 ^ 64 := by decide

variable {tree : Tree} {parents : Forest Nat}

/-- The joins leave the root of each region with the sum over its pixels. -/
theorem Extremals.gather_region (extremals : Extremals image tree parents) (narrow : Narrow image)
    (few : nel image < 2 ^ 31) (d : Nat) (acc : Nat → BitVec 64)
    (filled : ∀ pixel < nel image, acc pixel = BitVec.ofNat 64 ((moments image pixel).getD d 0))
    (region : Region) (member : region ∈ tree.regions) (pixels : List Nat)
    (distinct : pixels.Nodup)
    (listed : ∀ pixel, pixel ∈ pixels ↔ InRegion image region.value region.index pixel) :
    (parents.gather tree.joins acc region.index).toNat =
      (pixels.map (fun pixel => (moments image pixel).getD d 0)).sum := by
  obtain ⟨_value, indexInside⟩ := extremals.value region member
  have within (pixel : Nat) (present : pixel ∈ pixels.toFinset) : pixel < nel image :=
    ((listed pixel).mp (List.mem_toFinset.mp present)).inside.mp indexInside
  have subtree (pixel : Nat) : pixel ∈ pixels.toFinset ↔
      pixel < nel image ∧ parents.Below pixel region.index := by
    constructor
    · intro present
      have inside := within pixel present
      exact ⟨inside, (extremals.below_iff region member pixel inside).mpr
        ((listed pixel).mp (List.mem_toFinset.mp present))⟩
    · intro both
      exact List.mem_toFinset.mpr ((listed pixel).mpr
        ((extremals.below_iff region member pixel both.1).mp both.2))
  rw [parents.gather_below tree.joins extremals.joinsDistinct (fun pixel => pixel < nel image)
      extremals.stays extremals.joined extremals.joinsOrdered acc region.index indexInside
      pixels.toFinset subtree,
    Finset.sum_congr rfl (fun pixel present => filled pixel (within pixel present)),
    toNat_sum _ _ (sum_moments_lt narrow few _ within d), List.sum_toFinset _ distinct]

structure Numbered (ner : Nat) (marks : Marks) : Prop where
  atMost : ∀ k < ner, marks.maxstable k ≠ 0 → (marks.maxstable k : Int) ≤ marks.nmer
  distinct : ∀ k < ner, ∀ other < ner, marks.maxstable k ≠ 0 →
    marks.maxstable k = marks.maxstable other → k = other

theorem Marks.Counted.numbered {marks : Marks} {ner : Nat} (counted : marks.Counted ner) :
    Numbered ner (marks.numbered ner) := by
  have number (k : Nat) (inside : k < ner) : (marks.numbered ner).maxstable k =
      if marks.maxstable k ≠ 0 then (marked marks.maxstable k).length + 1 else 0 := by
    have general := (enumerate_spec marks.maxstable ner).2 k
    rw [Marks.numbered]
    dsimp only
    rw [general]
    by_cases set : marks.maxstable k ≠ 0
    · rw [if_pos ⟨inside, set⟩, if_pos set]
    · rw [if_neg (fun both => set both.2), if_neg set]
      exact Decidable.not_not.mp set
  have set (k : Nat) (inside : k < ner) (numbered : (marks.numbered ner).maxstable k ≠ 0) :
      marks.maxstable k ≠ 0 := by
    intro unset
    rw [number k inside, if_neg (fun other => other unset)] at numbered
    exact numbered rfl
  constructor
  case atMost =>
    intro k inside numbered
    have below := marked_length_lt marks.maxstable k ner inside (set k inside numbered)
    rw [number k inside, if_pos (set k inside numbered), Marks.numbered]
    dsimp only
    unfold Marks.Counted at counted
    rw [← marked] at counted
    omega
  case distinct =>
    intro k inside other otherInside numbered same
    have otherNumbered := same ▸ numbered
    rw [number k inside, number other otherInside, if_pos (set k inside numbered),
      if_pos (set other otherInside otherNumbered)] at same
    by_contra different
    rcases Nat.lt_or_gt_of_ne different with before | behind
    · have less := marked_length_lt marks.maxstable k other before (set k inside numbered)
      omega
    · have less := marked_length_lt marks.maxstable other k behind
        (set other otherInside otherNumbered)
      omega

variable {table : RegionTable} {marks : Marks}

theorem saveEllipses_slots (numbered : Numbered table.ner marks)
    (indexInside : ∀ k < table.ner, (table.entry k).index < nel image) (d : Nat) (known : d < gdl)
    (acc ell : Nat → BitVec 64) (turns : Nat) (within : turns ≤ table.ner) :
    ∃ saved, saveEllipses image table marks d acc ell turns = some saved ∧
      (∀ k < turns, marks.maxstable k ≠ 0 →
        saved (d + gdl * (marks.maxstable k - 1)) = acc (table.entry k).index) ∧
      ∀ other < gdl, other ≠ d → ∀ place, saved (other + gdl * place) = ell (other + gdl * place) := by
  induction turns with
  | zero => exact ⟨ell, rfl, fun k none => absurd none (Nat.not_lt_zero k),
      fun _other _known _different _place => rfl⟩
  | succ turns ih =>
      obtain ⟨before, ran, slots, others⟩ := ih (Nat.le_of_succ_le within)
      rw [saveEllipses, ran]
      dsimp only [Option.bind_eq_bind, Option.bind_some]
      by_cases unset : marks.maxstable turns = 0
      · rw [if_pos unset]
        refine ⟨before, rfl, ?_, others⟩
        intro k before' set
        refine slots k (Nat.lt_of_le_of_ne (Nat.le_of_lt_succ before') ?_) set
        intro same
        rw [same] at set
        exact set unset
      · have atMost := numbered.atMost turns within unset
        have room : ((d + gdl * (marks.maxstable turns - 1) : Nat) : Int) < gdl * marks.nmer := by
          have five : gdl = 5 := rfl
          rw [five] at known ⊢
          omega
        rw [if_neg unset, if_pos ⟨room, indexInside turns within⟩]
        refine ⟨_, rfl, ?_, ?_⟩
        · intro k before' set
          rcases Nat.lt_or_eq_of_le (Nat.le_of_lt_succ before') with earlier | last
          · have different : marks.maxstable k ≠ marks.maxstable turns := by
              intro same
              exact absurd (numbered.distinct k (Nat.lt_trans earlier within) turns within set same)
                (Nat.ne_of_lt earlier)
            rw [Function.update_of_ne, slots k earlier set]
            have five : gdl = 5 := rfl
            rw [five]
            omega
          · rw [last, Function.update_self]
        · intro other otherKnown different place
          rw [Function.update_of_ne, others other otherKnown different place]
          have five : gdl = 5 := rfl
          rw [five] at known otherKnown ⊢
          omega

def Fitted (image : I2D) (table : RegionTable) (marks : Marks) (count : Nat)
    (ell : Nat → BitVec 64) : Prop :=
  ∀ k < table.ner, marks.maxstable k ≠ 0 → ∀ pixels : List Nat, pixels.Nodup →
    (∀ pixel, pixel ∈ pixels ↔
      InRegion image (table.entry k).value (table.entry k).index pixel) →
    ∀ d < count, (ell (d + gdl * (marks.maxstable k - 1))).toNat =
      (pixels.map (fun pixel => (moments image pixel).getD d 0)).sum

theorem fitEllipses_fitted (extremals : Extremals image tree parents) (narrow : Narrow image)
    (few : nel image < 2 ^ 31) (numbered : Numbered table.ner marks)
    (saved : ∀ k < table.ner, ∃ region ∈ tree.regions,
      (table.entry k).index = region.index ∧ (table.entry k).value = region.value)
    (acc : Nat → BitVec 64) (count : Nat) (known : count ≤ gdl) :
    ∃ ellipses, fitEllipses image tree table marks acc count = some ellipses ∧
      Fitted image table marks count ellipses.ell := by
  have indexInside (k : Nat) (inside : k < table.ner) : (table.entry k).index < nel image := by
    obtain ⟨region, member, index, _value⟩ := saved k inside
    rw [index]
    exact (extremals.value region member).2
  have linked (index : Nat) (member : index ∈ tree.joins) : index < nel image ∧
      parents.link index < nel image ∧ (tree.forest index).parent = some (parents.link index) := by
    have inside := ((extremals.joined index).mp member).1
    exact ⟨inside, extremals.stays index inside, extremals.link index inside⟩
  induction count with
  | zero => exact ⟨_, rfl, fun _k _inside _set _pixels _distinct _listed d none =>
      absurd none (Nat.not_lt_zero d)⟩
  | succ count ih =>
      obtain ⟨before, ran, fitted⟩ := ih (Nat.le_of_succ_le known)
      obtain ⟨filling, filled, _subs, values⟩ := fillAccumulators_moments narrow count known
        before.acc (nel image) (Nat.le_refl _)
      obtain ⟨ell, stored, slots, others⟩ := saveEllipses_slots numbered indexInside count known
        (parents.gather tree.joins filling.acc) before.ell table.ner (Nat.le_refl _)
      refine ⟨⟨parents.gather tree.joins filling.acc, ell⟩, ?_, ?_⟩
      · rw [fitEllipses, ran]
        dsimp only [Option.bind_eq_bind, Option.bind_some]
        rw [ellipsePass, filled]
        dsimp only [Option.bind_eq_bind, Option.bind_some]
        rw [integrate_gather parents tree.forest tree.joins linked]
        dsimp only [Option.bind_eq_bind, Option.bind_some]
        rw [stored]
        rfl
      · intro k inside set pixels distinct listed d before'
        dsimp only
        rcases Nat.lt_or_eq_of_le (Nat.le_of_lt_succ before') with earlier | last
        · rw [others d (Nat.lt_of_lt_of_le before' known) (Nat.ne_of_lt earlier)]
          exact fitted k inside set pixels distinct listed d earlier
        · obtain ⟨region, member, index, value⟩ := saved k inside
          rw [index, value] at listed
          rw [last, slots k inside set, index]
          exact extremals.gather_region narrow few count filling.acc values region member pixels
            distinct listed

end

end BlackboxProfiling.SdVbs.Mser
