import BlackboxProfiling.Elf.Elfie
import Mathlib.Algebra.Group.Nat.Defs

/-!
`compute_section_offset` against the true end of the section data. The loop keeps
the greatest offset and the size that came with the first section at that offset. It
finds the end where that section ends last, or where its size, wrapped around, happens
to reach what ends behind it.
-/

namespace BlackboxProfiling.Elfie

open Libelf ByteRanges

/-- A section table and the count in the ELF header, which is zero when the count is
kept in section zero. -/
structure SectionTable where
  eShnum : Nat
  scns : List Scn
  counted : eShnum = scns.length ∨
    eShnum = 0 ∧ scns[0]?.map (fun zero => zero.shdr.size) = some scns.length

/-- The loop with a `size_t` of `bits` bits; `last_sec_size` is unset before it. -/
def scanSections (bits : Nat) : List Scn → Nat → Option Nat → Nat × Option Nat
  | [], lastSecOff, lastSecSize => (lastSecOff, lastSecSize)
  | scn :: rest, lastSecOff, lastSecSize =>
      if lastSecOff < scn.shdr.offset then
        scanSections bits rest (scn.shdr.offset % 2 ^ bits) (some (scn.shdr.size % 2 ^ bits))
      else scanSections bits rest lastSecOff lastSecSize

/-- `compute_section_offset` for any width of `size_t`; `none` when the sum takes the
unset variable. -/
def sectionOffset (bits : Nat) (table : SectionTable) : Option Nat :=
  let last := scanSections bits (table.scns.take table.eShnum) 0 none
  last.2.map (fun lastSecSize => (last.1 + lastSecSize) % 2 ^ bits)

def scnRange (scn : Scn) : Range :=
  ⟨scn.shdr.offset, if scn.shdr.occupies then scn.shdr.size else 0⟩

def dataEnd (scns : List Scn) : Nat := lastStop (scns.map scnRange)

private theorem stop_le_dataEnd (scns : List Scn) (scn : Scn) (member : scn ∈ scns) :
    (scnRange scn).stop ≤ dataEnd scns :=
  stop_le_lastStop (scns.map scnRange) (scnRange scn) (List.mem_map_of_mem member)

private theorem dataEnd_attained (scns : List Scn) (positive : 0 < dataEnd scns) :
    ∃ scn ∈ scns, (scnRange scn).stop = dataEnd scns := by
  obtain ⟨range, listed, reached⟩ := lastStop_attained (scns.map scnRange) positive
  obtain ⟨scn, member, rfl⟩ := List.mem_map.mp listed
  exact ⟨scn, member, reached⟩

private theorem offset_le_stop (scn : Scn) : scn.shdr.offset ≤ (scnRange scn).stop :=
  Nat.le_add_right _ _

private theorem scanSections_stays (bits : Nat) (scns : List Scn) (lastSecOff : Nat)
    (lastSecSize : Option Nat) (below : ∀ scn ∈ scns, scn.shdr.offset ≤ lastSecOff) :
    scanSections bits scns lastSecOff lastSecSize = (lastSecOff, lastSecSize) := by
  induction scns with
  | nil => rfl
  | cons head rest ih =>
      rw [scanSections, if_neg (Nat.not_lt.mpr (below head List.mem_cons_self))]
      exact ih (fun scn member => below scn (List.mem_cons_of_mem _ member))

theorem scanSections_sets (bits : Nat) (scns : List Scn) (lastSecOff : Nat)
    (left right : Option Nat) (further : ∃ scn ∈ scns, lastSecOff < scn.shdr.offset) :
    scanSections bits scns lastSecOff left = scanSections bits scns lastSecOff right := by
  induction scns with
  | nil =>
      obtain ⟨scn, member, _behind⟩ := further
      cases member
  | cons head rest ih =>
      rw [scanSections, scanSections]
      by_cases headBehind : lastSecOff < head.shdr.offset
      · rw [if_pos headBehind, if_pos headBehind]
      · rw [if_neg headBehind, if_neg headBehind]
        obtain ⟨scn, member, behind⟩ := further
        apply ih
        rcases List.mem_cons.mp member with same | later
        · rw [same] at behind
          exact absurd behind headBehind
        · exact ⟨scn, later, behind⟩

/-- With the size set, both widths of the loop do the same as long as the offsets fit. -/
theorem scanSections_lastSection (bits : Nat) (scns : List Scn) (lastSecOff lastSecSize : Nat)
    (fits : ∀ scn ∈ scns, scn.shdr.offset < 2 ^ bits) :
    scanSections bits scns lastSecOff (some (lastSecSize % 2 ^ bits)) =
      ((lastSection scns lastSecOff lastSecSize).1,
        some ((lastSection scns lastSecOff lastSecSize).2 % 2 ^ bits)) := by
  induction scns generalizing lastSecOff lastSecSize with
  | nil => rfl
  | cons head rest ih =>
      have restFits : ∀ scn ∈ rest, scn.shdr.offset < 2 ^ bits :=
        fun scn member => fits scn (List.mem_cons_of_mem _ member)
      rw [scanSections, lastSection]
      split
      · rw [Nat.mod_eq_of_lt (fits head List.mem_cons_self)]
        exact ih head.shdr.offset head.shdr.size restFits
      · exact ih lastSecOff lastSecSize restFits

theorem sectionOffset_cases (bits : Nat) (table : SectionTable)
    (fits : ∀ scn ∈ table.scns, scn.shdr.offset < 2 ^ bits) :
    ((∀ scn ∈ table.scns.take table.eShnum, scn.shdr.offset = 0) ∧
      sectionOffset bits table = none) ∨
    ∃ ndx scn, IsLast (table.scns.take table.eShnum) ndx scn ∧ 0 < scn.shdr.offset ∧
      sectionOffset bits table = some ((scn.shdr.offset + scn.shdr.size) % 2 ^ bits) := by
  have taken : ∀ scn ∈ table.scns.take table.eShnum, scn.shdr.offset < 2 ^ bits :=
    fun scn member => fits scn (List.mem_of_mem_take member)
  rcases lastSection_cases (table.scns.take table.eShnum) 0 0 with ⟨below, _same⟩ |
    ⟨ndx, scn, last, behind, same⟩
  · refine Or.inl ⟨fun scn member => Nat.le_zero.mp (below scn member), ?_⟩
    rw [sectionOffset, scanSections_stays bits _ 0 none below]
    rfl
  · refine Or.inr ⟨ndx, scn, last, behind, ?_⟩
    have set : scanSections bits (table.scns.take table.eShnum) 0 none =
        (scn.shdr.offset, some (scn.shdr.size % 2 ^ bits)) := by
      rw [scanSections_sets bits _ 0 none (some (0 % 2 ^ bits))
          ⟨scn, List.mem_of_getElem? last.1, behind⟩,
        scanSections_lastSection bits _ 0 0 taken, same]
    rw [sectionOffset, set, Option.map_some, Nat.add_mod_mod]

/-- The 32-bit program is the one whose result a file gets. -/
theorem computeSectionOffset_eq (unset : Nat) (elf : Elf) (table : SectionTable)
    (same : table.scns = elf.scns) (fits : ∀ scn ∈ elf.scns, scn.shdr.offset < 2 ^ 32) :
    computeSectionOffset unset table.eShnum elf =
      (sectionOffset 32 table).getD (unset % 2 ^ 32) := by
  rw [← same] at fits
  rcases computeSectionOffset_cases unset table.eShnum elf with ⟨zero, result⟩ |
    ⟨ndx, scn, last, behind, result⟩
  · rw [← same] at zero
    have below : ∀ scn ∈ table.scns.take table.eShnum, scn.shdr.offset ≤ 0 :=
      fun scn member => Nat.le_zero.mpr (zero scn member)
    rw [result, sectionOffset, scanSections_stays 32 _ 0 none below]
    rfl
  · rw [← same] at last
    rcases sectionOffset_cases 32 table fits with ⟨zero, _offset⟩ |
      ⟨other, otherScn, otherLast, _otherBehind, offset⟩
    · have atZero := zero scn (List.mem_of_getElem? last.1)
      omega
    · obtain ⟨_sameNdx, sameScn⟩ := IsLast.unique _ other ndx otherScn scn otherLast last
      rw [result, offset, sameScn]
      rfl

def EndsLast (scns : List Scn) (scn : Scn) : Prop :=
  ∀ other ∈ scns, (scnRange other).stop ≤ (scnRange scn).stop

/-- A section without bytes in the file is taken for the bytes that another one has: the
section that ends last holds as many behind this one's offset as this one's size says. -/
def StandsIn (bits : Nat) (scns : List Scn) (scn : Scn) : Prop :=
  scn.shdr.occupies = false ∧ ∃ other ∈ scns, EndsLast scns other ∧
    (scnRange other).stop - scn.shdr.offset = scn.shdr.size % 2 ^ bits

/-- The header counts the sections and all end within a `size_t`. The first of those at the
greatest offset has bytes in the file, or no size, and is one that ends last; or it stands
in for one. -/
structure EndAtLast (bits : Nat) (table : SectionTable) (ndx : Nat) (scn : Scn) : Prop where
  last : IsLast (table.scns.take table.eShnum) ndx scn
  behind : 0 < scn.shdr.offset
  fits : ∀ other ∈ table.scns, (scnRange other).stop < 2 ^ bits
  measured : ((scn.shdr.occupies = true ∨ 2 ^ bits ∣ scn.shdr.size) ∧ EndsLast table.scns scn) ∨
    StandsIn bits table.scns scn

private theorem endsLast_iff (scns : List Scn) (scn : Scn) (member : scn ∈ scns) :
    EndsLast scns scn ↔ (scnRange scn).stop = dataEnd scns := by
  constructor
  · intro last
    rcases Nat.eq_zero_or_pos (dataEnd scns) with zero | positive
    · have below := stop_le_dataEnd scns scn member
      omega
    · obtain ⟨other, otherMember, reached⟩ := dataEnd_attained scns positive
      have atMost := last other otherMember
      have below := stop_le_dataEnd scns scn member
      omega
  · intro isEnd other otherMember
    rw [isEnd]
    exact stop_le_dataEnd scns other otherMember

theorem measured_iff (bits : Nat) (scns : List Scn) (scn : Scn) (member : scn ∈ scns)
    (fits : (scnRange scn).stop < 2 ^ bits) :
    (((scn.shdr.occupies = true ∨ 2 ^ bits ∣ scn.shdr.size) ∧ EndsLast scns scn) ∨
      StandsIn bits scns scn) ↔ dataEnd scns = scn.shdr.offset + scn.shdr.size % 2 ^ bits := by
  have below := stop_le_dataEnd scns scn member
  rw [endsLast_iff scns scn member, StandsIn]
  cases occupies : scn.shdr.occupies with
  | true =>
      have stop : (scnRange scn).stop = scn.shdr.offset + scn.shdr.size := by
        rw [scnRange, occupies]
        rfl
      have whole : scn.shdr.size % 2 ^ bits = scn.shdr.size := Nat.mod_eq_of_lt (by omega)
      rw [whole, stop]
      simp only [true_or, true_and, Bool.true_eq_false, false_and, or_false]
      exact eq_comm
  | false =>
      have stop : (scnRange scn).stop = scn.shdr.offset := by
        rw [scnRange, occupies]
        rfl
      rw [stop]
      simp only [Bool.false_eq_true, false_or, true_and]
      constructor
      · rintro (⟨empty, isEnd⟩ | ⟨other, otherMember, last, held⟩)
        · rw [Nat.mod_eq_zero_of_dvd empty, ← isEnd, Nat.add_zero]
        · rw [endsLast_iff scns other otherMember] at last
          omega
      · intro exactly
        rcases Nat.eq_zero_or_pos (scn.shdr.size % 2 ^ bits) with none | positive
        · exact Or.inl ⟨Nat.dvd_of_mod_eq_zero none, by omega⟩
        · obtain ⟨other, otherMember, reached⟩ := dataEnd_attained scns (by omega)
          exact Or.inr ⟨other, otherMember, (endsLast_iff scns other otherMember).mpr reached,
            by omega⟩

theorem sectionOffset_eq_dataEnd_iff (bits : Nat) (table : SectionTable) :
    sectionOffset bits table = some (dataEnd table.scns) ↔
      ∃ ndx scn, EndAtLast bits table ndx scn := by
  constructor
  · intro found
    have bounded : dataEnd table.scns < 2 ^ bits := by
      obtain ⟨size, _last, sum⟩ := Option.map_eq_some_iff.mp found
      rw [← sum]
      exact Nat.mod_lt _ (Nat.two_pow_pos bits)
    have fits : ∀ scn ∈ table.scns, (scnRange scn).stop < 2 ^ bits := fun scn member =>
      Nat.lt_of_le_of_lt (stop_le_dataEnd _ scn member) bounded
    have offsets : ∀ scn ∈ table.scns, scn.shdr.offset < 2 ^ bits := fun scn member =>
      Nat.lt_of_le_of_lt (offset_le_stop scn) (fits scn member)
    rcases sectionOffset_cases bits table offsets with ⟨_zero, unset⟩ |
      ⟨ndx, scn, last, behind, sum⟩
    · rw [found] at unset
      cases unset
    · have member := List.mem_of_mem_take (List.mem_of_getElem? last.1)
      have atLeast := Nat.le_trans (offset_le_stop scn) (stop_le_dataEnd table.scns scn member)
      have below := Nat.mod_lt scn.shdr.size (Nat.two_pow_pos bits)
      rw [found, ← Nat.add_mod_mod] at sum
      have exactly : dataEnd table.scns = scn.shdr.offset + scn.shdr.size % 2 ^ bits := by
        have same := Option.some.inj sum
        rcases Nat.lt_or_ge (scn.shdr.offset + scn.shdr.size % 2 ^ bits) (2 ^ bits) with
          inside | beyond
        · rw [same, Nat.mod_eq_of_lt inside]
        · -- a sum that wraps ends below the offset it started from
          rw [Nat.mod_eq_sub_mod beyond, Nat.mod_eq_of_lt (by omega)] at same
          omega
      exact ⟨ndx, scn, last, behind, fits,
        (measured_iff bits table.scns scn member (fits scn member)).mpr exactly⟩
  · intro condition
    obtain ⟨ndx, scn, last, behind, fits, measured⟩ := condition
    have member := List.mem_of_mem_take (List.mem_of_getElem? last.1)
    have exactly := (measured_iff bits table.scns scn member (fits scn member)).mp measured
    have offsets : ∀ scn ∈ table.scns, scn.shdr.offset < 2 ^ bits := fun scn member =>
      Nat.lt_of_le_of_lt (offset_le_stop scn) (fits scn member)
    have inside : dataEnd table.scns < 2 ^ bits := by
      obtain ⟨other, otherMember, reached⟩ := dataEnd_attained table.scns (by omega)
      rw [← reached]
      exact fits other otherMember
    rcases sectionOffset_cases bits table offsets with ⟨zero, _unset⟩ |
      ⟨_ndx, otherScn, otherLast, _behind, sum⟩
    · have atZero := zero scn (List.mem_of_getElem? last.1)
      omega
    · obtain ⟨_sameNdx, sameScn⟩ := IsLast.unique _ _ _ _ _ otherLast last
      rw [sum, sameScn, ← Nat.add_mod_mod, ← exactly, Nat.mod_eq_of_lt inside]

def heldScn (type offset size : Nat) : Scn :=
  { shdr := { emptyShdr with type := type, offset := offset, size := size }
    data := .null size, dirty := false }

def emptyBeforeLast : SectionTable :=
  { eShnum := 4
    scns := [heldScn shtNull 0 0, heldScn shtStrtab 52 20, heldScn shtProgbits 72 0,
      heldScn shtProgbits 72 8]
    counted := Or.inl rfl }

theorem sectionOffset_before_dataEnd :
    sectionOffset 32 emptyBeforeLast = some 72 ∧
      sectionOffset 32 emptyBeforeLast ≠ some (dataEnd emptyBeforeLast.scns) := by
  decide

end BlackboxProfiling.Elfie
