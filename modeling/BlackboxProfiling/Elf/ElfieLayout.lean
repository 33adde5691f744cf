import BlackboxProfiling.Elf.Elfie
import Mathlib.Tactic.IntervalCases

/-!
What `elfie` writes over. Each of its three steps takes bytes that it does not look
at first, so the parts of the new file are apart exactly where those bytes were
free.
-/

namespace BlackboxProfiling.Elfie

open Libelf ElfManipulator ByteRanges

def ElfImage.others (file : ElfImage) (shstrndx : Nat) : List Range :=
  file.elfHeader :: file.programHeaders :: (file.sections.map sectionRange).eraseIdx shstrndx

/-- What is added in front of a section behind the header table: the profile, nine bytes
of its name and one entry. -/
def ElfImage.added (file : ElfImage) (length : Nat) : Nat := length + 9 + file.shentsize

structure Furthest (file : ElfImage) (ndx : Nat) (sec : Section) : Prop where
  found : file.sections[ndx]? = some sec
  counted : ndx < eShnum file.toElfFile
  positive : 0 < sec.shdr.offset
  first : ∀ other otherSec, file.sections[other]? = some otherSec → other < eShnum file.toElfFile →
    otherSec.shdr.offset ≤ sec.shdr.offset ∧ (other < ndx → otherSec.shdr.offset < sec.shdr.offset)

/-- Where a section ends by its header, whatever its type. -/
def headerEnd (sec : Section) : Nat := sec.shdr.offset + sec.shdr.size

def nameBytes (shstrndx ndx : Nat) : Nat := if ndx = shstrndx then 9 else 0

/-- The section ends last, with as many bytes behind it as the profile has before the
program headers begin and before or behind the header table. -/
structure RoomBehind (file : ElfImage) (shstrndx : Nat) (table : Section) (length ndx : Nat)
    (sec : Section) : Prop where
  header : file.ehsize ≤ headerEnd sec
  sections : ∀ other otherSec, other ≠ shstrndx → file.sections[other]? = some otherSec →
    0 < (sectionRange otherSec).length → (sectionRange otherSec).stop ≤ headerEnd sec
  name : ndx ≠ shstrndx → (sectionRange table).stop + 9 ≤ headerEnd sec
  programs : 0 < file.programHeaders.length → headerEnd sec < file.programHeaders.stop →
    headerEnd sec + nameBytes shstrndx ndx + length ≤ file.programHeaders.start
  headers : file.eShoff + 9 < headerEnd sec + nameBytes shstrndx ndx →
    file.headerTable.stop + file.added length ≤ headerEnd sec + nameBytes shstrndx ndx

/-- The section's end does not fit in 32 bits, and what is left of it points to as many
free bytes as the profile has. -/
structure RoomWrapped (file : ElfImage) (shstrndx : Nat) (table : Section) (length place : Nat) :
    Prop where
  parts : ∀ part ∈ (sectionRange table).grow 9 :: file.others shstrndx,
    0 < part.length → place < part.stop → place + length ≤ part.start
  headers : file.eShoff + 9 < place → file.headerTable.stop + file.added length ≤ place

/-- What ends behind the name table begins nine bytes behind it or later. What ends behind
the place the header table moves to begins as far behind the table as is added in front of
it. And the profile is empty or the first section at the greatest offset ends last. -/
structure Room (file : ElfImage) (shstrndx : Nat) (table : Section) (length : Nat) : Prop where
  name : ∀ part ∈ file.others shstrndx, 0 < part.length → (sectionRange table).stop < part.stop →
    (sectionRange table).stop + 9 ≤ part.start
  headers : ∀ part ∈ file.others shstrndx, 0 < part.length →
    file.eShoff + (length + 9) < part.stop → file.headerTable.stop + file.added length ≤ part.start
  nameHeaders : file.eShoff + length < (sectionRange table).stop →
    file.headerTable.stop + file.added length ≤ (sectionRange table).start
  profile : length = 0 ∨ ∃ ndx sec, Furthest file ndx sec ∧
    ((headerEnd sec + nameBytes shstrndx ndx < 0x100000000 ∧
        RoomBehind file shstrndx table length ndx sec) ∨
      (0x100000000 ≤ headerEnd sec + nameBytes shstrndx ndx ∧
        RoomWrapped file shstrndx table length
          ((headerEnd sec + nameBytes shstrndx ndx) % 0x100000000)))

def ElfImage.movedTable (file : ElfImage) (length : Nat) : Range :=
  ⟨file.eShoff + (length + 9), file.shentsize * (file.sections.length + 1)⟩

private theorem movedTable_stop (file : ElfImage) (length : Nat) :
    (file.movedTable length).stop = file.headerTable.stop + file.added length := by
  rw [Range.stop, Range.stop, ElfImage.movedTable, ElfImage.headerTable, ElfImage.added]
  dsimp only
  rw [Nat.mul_add, Nat.mul_one]
  omega

private theorem movedTable_nonempty (file : ElfImage) (length : Nat) :
    0 < (file.movedTable length).length := Nat.mul_pos file.entries (Nat.succ_pos _)

theorem forall_parts (file : ElfImage) (shstrndx : Nat) (holds : Range → Prop) :
    (∀ part ∈ file.others shstrndx, holds part) ↔
      holds file.elfHeader ∧ holds file.programHeaders ∧
        ∀ other sec, other ≠ shstrndx → file.sections[other]? = some sec →
          holds (sectionRange sec) := by
  rw [ElfImage.others, List.forall_mem_cons, List.forall_mem_cons]
  apply and_congr_right'
  apply and_congr_right'
  simp only [List.mem_eraseIdx_iff_getElem?, List.getElem?_map, Option.map_eq_some_iff]
  constructor
  · intro each other sec elsewhere found
    exact each _ ⟨other, elsewhere, sec, found, rfl⟩
  · intro each part listed
    obtain ⟨other, elsewhere, sec, found, same⟩ := listed
    rw [← same]
    exact each other sec elsewhere found

private theorem storedSection_range (shdr : Shdr) (size : Nat) (bytes : List Byte)
    (occupies : shdr.occupies = true) :
    sectionRange (storedSection shdr size bytes) = ⟨shdr.offset, bytes.length⟩ := by
  rw [sectionRange, storedSection_shdr]
  change Range.mk shdr.offset (if shdr.occupies then
    (if shdr.occupies then bytes.length else size) else 0) = _
  rw [occupies]
  rfl

theorem grownTable_range (table : Section) (strtab : table.shdr.type = shtStrtab) :
    sectionRange (grownTable table) = (sectionRange table).grow 9 := by
  have occupies := strtab_occupies table strtab
  have stored : sectionRange (grownTable table) =
      ⟨table.shdr.offset, (grownShstrtab table).length⟩ :=
    storedSection_range _ _ _ occupies
  rw [stored, grownShstrtab_length, sectionRange, occupies, if_pos rfl, table.sized occupies]
  rfl

theorem profileSection_range (table : Section) (profile : List Byte) (sectionOffset : Nat) :
    sectionRange (profileSection table profile sectionOffset) = ⟨sectionOffset, profile.length⟩ :=
  storedSection_range _ _ _ rfl

private theorem parts_perm (file : ElfImage) (shstrndx : Nat) (table : Section)
    (found : file.sections[shstrndx]? = some table) :
    file.parts.Perm (file.headerTable :: sectionRange table :: file.others shstrndx) := by
  have atTable : (file.sections.map sectionRange)[shstrndx]? = some (sectionRange table) := by
    rw [List.getElem?_map, found, Option.map_some]
  exact (taken_perm [file.elfHeader, file.programHeaders] _ shstrndx _ atTable).cons file.headerTable

private theorem augmented_parts_perm (unset : Nat) (file : ElfImage) (profile : List Byte)
    (shstrndx : Nat) (table : Section) (succeeds : Succeeds file profile shstrndx table) :
    (augmented unset file profile shstrndx table).parts.Perm
      (file.movedTable profile.length ::
        ⟨computeSectionOffset unset (eShnum file.toElfFile) (namedElf file.toElfFile shstrndx table),
          profile.length⟩ ::
        (sectionRange table).grow 9 :: file.others shstrndx) := by
  have inside : shstrndx < (file.sections.map sectionRange).length := by
    rw [List.length_map]
    exact (List.getElem?_eq_some_iff.mp succeeds.found).1
  have permuted := changed_perm [file.elfHeader, file.programHeaders]
    (file.sections.map sectionRange) shstrndx inside ((sectionRange table).grow 9)
    ⟨computeSectionOffset unset (eShnum file.toElfFile) (namedElf file.toElfFile shstrndx table),
      profile.length⟩
  have ranges : (augmented unset file profile shstrndx table).sections.map sectionRange =
      (file.sections.map sectionRange).set shstrndx ((sectionRange table).grow 9) ++
        [⟨computeSectionOffset unset (eShnum file.toElfFile)
          (namedElf file.toElfFile shstrndx table), profile.length⟩] := by
    simp only [augmented, List.map_append, List.map_set, grownTable_range table succeeds.strtab,
      List.map_cons, List.map_nil, profileSection_range]
  have moved : (augmented unset file profile shstrndx table).headerTable =
      file.movedTable profile.length := by
    simp only [ElfImage.headerTable, augmented, List.length_append, List.length_set,
      List.length_singleton, ElfImage.movedTable]
  rw [ElfImage.parts, ranges, moved]
  exact permuted.cons (file.movedTable profile.length)

theorem ElfImage.PartsApart.kept {file : ElfImage} (apart : file.PartsApart) (shstrndx : Nat)
    (table : Section) (found : file.sections[shstrndx]? = some table) :
    (sectionRange table :: file.others shstrndx).Pairwise Apart := by
  rw [ElfImage.PartsApart, pairwise_perm_iff (parts_perm file shstrndx table found)] at apart
  exact (List.pairwise_cons.mp apart).2

/-- The new parts are apart exactly if the old ones but the header table were and the
bytes the new ones take were free. -/
theorem augmented_partsApart_iff (unset : Nat) (file : ElfImage) (profile : List Byte)
    (shstrndx : Nat) (table : Section) (succeeds : Succeeds file profile shstrndx table) :
    (augmented unset file profile shstrndx table).PartsApart ↔
      (sectionRange table :: file.others shstrndx).Pairwise Apart ∧
      (∀ part ∈ file.others shstrndx, Apart ((sectionRange table).behind 9) part) ∧
      (∀ part ∈ (sectionRange table).grow 9 :: file.others shstrndx,
        Apart (file.movedTable profile.length) part) ∧
      ∀ part ∈ file.movedTable profile.length :: (sectionRange table).grow 9 ::
          file.others shstrndx,
        Apart ⟨computeSectionOffset unset (eShnum file.toElfFile)
          (namedElf file.toElfFile shstrndx table), profile.length⟩ part := by
  rw [ElfImage.PartsApart,
    pairwise_perm_iff (augmented_parts_perm unset file profile shstrndx table succeeds),
    List.pairwise_cons, List.pairwise_cons, List.pairwise_cons, List.pairwise_cons]
  constructor
  · rintro ⟨movedApart, profileApart, grownApart, othersApart⟩
    refine ⟨⟨?_, othersApart⟩, ?_, ?_, ?_⟩
    · intro part member
      exact ((apart_grow_iff _ _ _).mp (grownApart part member)).1
    · intro part member
      exact ((apart_grow_iff _ _ _).mp (grownApart part member)).2
    · intro part member
      exact movedApart part (List.mem_cons_of_mem _ member)
    · intro part member
      rcases List.mem_cons.mp member with rfl | stays
      · exact Apart.symm _ _ (movedApart _ List.mem_cons_self)
      · exact profileApart part stays
  · rintro ⟨⟨ownApart, othersApart⟩, nameApart, movedApart, profileApart⟩
    refine ⟨?_, ?_, ?_, othersApart⟩
    · intro part member
      rcases List.mem_cons.mp member with rfl | stays
      · exact Apart.symm _ _ (profileApart _ List.mem_cons_self)
      · exact movedApart part stays
    · intro part member
      exact profileApart part (List.mem_cons_of_mem _ member)
    · intro part member
      exact (apart_grow_iff _ _ _).mpr ⟨ownApart part member, nameApart part member⟩

private theorem namedElf_scn (file : ElfFile) (shstrndx : Nat) (table : Section)
    (found : file.sections[shstrndx]? = some table) (strtab : table.shdr.type = shtStrtab)
    (ndx : Nat) (sec : Section) (atNdx : file.sections[ndx]? = some sec) :
    ∃ scn, (namedElf file shstrndx table).scns[ndx]? = some scn ∧
      scn.shdr.offset = sec.shdr.offset ∧
      scn.shdr.size = sec.shdr.size + nameBytes shstrndx ndx := by
  have inside : shstrndx < (elfBegin file).scns.length := by
    rw [elfBegin, List.length_map]
    exact (List.getElem?_eq_some_iff.mp found).1
  by_cases here : shstrndx = ndx
  · subst here
    rw [found] at atNdx
    cases atNdx
    refine ⟨_, List.getElem?_set_self inside, rfl, ?_⟩
    rw [nameBytes, if_pos rfl, table.sized (strtab_occupies table strtab)]
    exact grownShstrtab_length table
  · refine ⟨sec.scn, ?_, rfl, ?_⟩
    · rw [namedElf, List.getElem?_set_ne here, elfBegin_scn, atNdx]
      rfl
    · rw [nameBytes, if_neg (Ne.symm here)]
      rfl

private theorem furthest_of_isLast (file : ElfImage) (shstrndx : Nat) (table : Section)
    (found : file.sections[shstrndx]? = some table) (strtab : table.shdr.type = shtStrtab)
    (ndx : Nat) (scn : Scn)
    (last : IsLast ((namedElf file.toElfFile shstrndx table).scns.take (eShnum file.toElfFile)) ndx
      scn) (positive : 0 < scn.shdr.offset) :
    ∃ sec, Furthest file ndx sec ∧
      scn.shdr.offset + scn.shdr.size = headerEnd sec + nameBytes shstrndx ndx := by
  have named := namedElf_scn file.toElfFile shstrndx table found strtab
  have atNdx := last.1
  rw [List.getElem?_take] at atNdx
  split at atNdx
  · rename_i below
    have inside : ndx < file.sections.length := by
      have within := (List.getElem?_eq_some_iff.mp atNdx).1
      rw [namedElf, List.length_set, elfBegin, List.length_map] at within
      exact within
    obtain ⟨sameScn, atScn, offset, size⟩ := named ndx _ (List.getElem?_eq_getElem inside)
    rw [atNdx] at atScn
    cases atScn
    refine ⟨_, ⟨List.getElem?_eq_getElem inside, below, by rw [← offset]; exact positive, ?_⟩, ?_⟩
    · intro other otherSec atOther counted
      obtain ⟨otherScn, atOtherScn, otherOffset, _otherSize⟩ := named other otherSec atOther
      have taken : ((namedElf file.toElfFile shstrndx table).scns.take
          (eShnum file.toElfFile))[other]? = some otherScn := by
        rw [List.getElem?_take, if_pos counted]
        exact atOtherScn
      have bound := last.2 other otherScn taken
      rw [offset, otherOffset] at bound
      exact bound
    · rw [offset, size, headerEnd, Nat.add_assoc]
  · cases atNdx

theorem Furthest.unique (file : ElfImage) (left right : Nat) (leftSec rightSec : Section)
    (leftFurthest : Furthest file left leftSec) (rightFurthest : Furthest file right rightSec) :
    left = right ∧ leftSec = rightSec := by
  have leftRight := leftFurthest.first right rightSec rightFurthest.found rightFurthest.counted
  have rightLeft := rightFurthest.first left leftSec leftFurthest.found leftFurthest.counted
  have same : left = right := by omega
  have atLeft := leftFurthest.found
  rw [same, rightFurthest.found] at atLeft
  exact ⟨same, (Option.some.inj atLeft).symm⟩

/-- The program computes the end of the furthest section, or takes over the uninitialised
value when there is none. -/
theorem computeSectionOffset_furthest (file : ElfImage) (shstrndx : Nat) (table : Section)
    (found : file.sections[shstrndx]? = some table) (strtab : table.shdr.type = shtStrtab) :
    ((∀ ndx sec, ¬ Furthest file ndx sec) ∧
        ∀ unset, computeSectionOffset unset (eShnum file.toElfFile)
          (namedElf file.toElfFile shstrndx table) = unset % 0x100000000) ∨
      ∃ ndx sec, Furthest file ndx sec ∧
        ∀ unset, computeSectionOffset unset (eShnum file.toElfFile)
          (namedElf file.toElfFile shstrndx table) =
            (headerEnd sec + nameBytes shstrndx ndx) % 0x100000000 := by
  by_cases some : ∃ ndx scn,
      IsLast ((namedElf file.toElfFile shstrndx table).scns.take (eShnum file.toElfFile)) ndx scn ∧
        0 < scn.shdr.offset
  · obtain ⟨ndx, scn, last, positive⟩ := some
    obtain ⟨sec, furthest, ends⟩ :=
      furthest_of_isLast file shstrndx table found strtab ndx scn last positive
    refine Or.inr ⟨ndx, sec, furthest, ?_⟩
    intro unset
    rcases computeSectionOffset_cases unset (eShnum file.toElfFile)
        (namedElf file.toElfFile shstrndx table) with ⟨zero, _same⟩ |
      ⟨other, otherScn, otherLast, _otherPositive, same⟩
    · have atZero := zero scn (List.mem_of_getElem? last.1)
      omega
    · obtain ⟨_sameNdx, sameScn⟩ := IsLast.unique _ other ndx otherScn scn otherLast last
      rw [same, sameScn, ends]
  · left
    have cases (unset : Nat) := (computeSectionOffset_cases unset (eShnum file.toElfFile)
      (namedElf file.toElfFile shstrndx table)).resolve_right
        (fun ⟨ndx, scn, last, positive, _same⟩ => some ⟨ndx, scn, last, positive⟩)
    refine ⟨?_, fun unset => (cases unset).2⟩
    intro ndx sec furthest
    have positive := furthest.positive
    obtain ⟨scn, atScn, offset, _size⟩ :=
      namedElf_scn file.toElfFile shstrndx table found strtab ndx sec furthest.found
    have taken : ((namedElf file.toElfFile shstrndx table).scns.take
        (eShnum file.toElfFile))[ndx]? = Option.some scn := by
      rw [List.getElem?_take, if_pos furthest.counted]
      exact atScn
    have atZero := (cases 0).1 scn (List.mem_of_getElem? taken)
    omega

/-! ### The bytes that are taken -/

theorem Furthest.start_le {file : ElfImage} {ndx : Nat} {sec : Section}
    (furthest : Furthest file ndx sec) (other : Nat) (otherSec : Section)
    (atOther : file.sections[other]? = some otherSec) :
    (sectionRange otherSec).start ≤ headerEnd sec := by
  have inside := (List.getElem?_eq_some_iff.mp atOther).1
  have counted : other < eShnum file.toElfFile := by
    have some := furthest.counted
    unfold eShnum at some ⊢
    split
    · exact inside
    · rename_i few
      rw [if_neg few] at some
      cases some
  exact Nat.le_trans (furthest.first other otherSec atOther counted).1 (Nat.le_add_right _ _)

def Leaves (start length : Nat) (part : Range) : Prop :=
  0 < part.length → start < part.stop → start + length ≤ part.start

private theorem apart_iff_leaves (start length : Nat) (part : Range) (some : 0 < length) :
    Apart ⟨start, length⟩ part ↔ Leaves start length part :=
  apart_nonempty_iff ⟨start, length⟩ part some

private theorem movedTable_apart_iff (file : ElfImage) (length : Nat) (part : Range) :
    Apart (file.movedTable length) part ↔ (0 < part.length →
      file.eShoff + (length + 9) < part.stop →
        file.headerTable.stop + file.added length ≤ part.start) := by
  rw [apart_nonempty_iff _ _ (movedTable_nonempty file length), movedTable_stop]
  rfl

/-- Next to the moved header table, only its beginning is fixed by what is added. -/
theorem leaves_movedTable_iff (file : ElfImage) (start length : Nat) :
    Leaves start length (file.movedTable length) ↔
      (file.eShoff + 9 < start → file.headerTable.stop + file.added length ≤ start) := by
  have nonempty := movedTable_nonempty file length
  have begins : (file.movedTable length).start = file.eShoff + (length + 9) := rfl
  rw [Leaves, movedTable_stop, begins]
  omega

theorem profile_leaves_iff (file : ElfImage) (shstrndx : Nat) (table : Section) (length ndx : Nat)
    (sec : Section) (found : file.sections[shstrndx]? = some table)
    (strtab : table.shdr.type = shtStrtab) (furthest : Furthest file ndx sec) (some : 0 < length)
    (name : ∀ part ∈ file.others shstrndx, Leaves (sectionRange table).stop 9 part) :
    (∀ part ∈ file.movedTable length :: (sectionRange table).grow 9 :: file.others shstrndx,
        Leaves (headerEnd sec + nameBytes shstrndx ndx) length part) ↔
      RoomBehind file shstrndx table length ndx sec := by
  have headed := file.headed
  have tableStart := furthest.start_le shstrndx table found
  -- the name table is its own furthest section only with the end its header gives
  have own : (ndx = shstrndx ∧ headerEnd sec = (sectionRange table).stop ∧
      nameBytes shstrndx ndx = 9) ∨ (ndx ≠ shstrndx ∧ nameBytes shstrndx ndx = 0) := by
    by_cases here : ndx = shstrndx
    · have same := furthest.found
      rw [here, found] at same
      refine Or.inl ⟨here, ?_, if_pos here⟩
      rw [← Option.some.inj same, headerEnd, sectionRange, if_pos (strtab_occupies table strtab)]
      rfl
    · exact Or.inr ⟨here, if_neg here⟩
  have grown : ((sectionRange table).grow 9).stop = (sectionRange table).stop + 9 := rfl
  have grownStart : ((sectionRange table).grow 9).start = (sectionRange table).start := rfl
  have grownLength : ((sectionRange table).grow 9).length = (sectionRange table).length + 9 := rfl
  have header : file.elfHeader.stop = file.ehsize := Nat.zero_add _
  have headerStart : file.elfHeader.start = 0 := rfl
  have headerLength : file.elfHeader.length = file.ehsize := rfl
  have programs : file.programHeaders.stop =
      file.programHeaders.start + file.programHeaders.length := rfl
  rw [List.forall_mem_cons, List.forall_mem_cons, forall_parts, leaves_movedTable_iff]
  rw [forall_parts] at name
  obtain ⟨nameHeader, namePrograms, nameSections⟩ := name
  unfold Leaves at nameHeader namePrograms nameSections ⊢
  rw [grown, grownStart, grownLength, header, headerStart, headerLength]
  rw [header, headerStart, headerLength] at nameHeader
  constructor
  · rintro ⟨headers, table, elf, programHeaders, sections⟩
    constructor
    case header => omega
    case sections =>
      intro other otherSec elsewhere atOther nonempty
      have begins := furthest.start_le other otherSec atOther
      have leaves := sections other otherSec elsewhere atOther nonempty
      have nameLeaves := nameSections other otherSec elsewhere atOther nonempty
      omega
    case name => omega
    case programs => omega
    case headers => exact headers
  · intro room
    obtain ⟨elf, sections, nameTable, programHeaders, headers⟩ := room
    refine ⟨headers, by omega, by omega, by omega, ?_⟩
    intro other otherSec elsewhere atOther nonempty
    have atMost := sections other otherSec elsewhere atOther nonempty
    omega

private theorem room_iff (file : ElfImage) (shstrndx : Nat) (table : Section) (length : Nat)
    (found : file.sections[shstrndx]? = some table) (strtab : table.shdr.type = shtStrtab) :
    Room file shstrndx table length ↔
      (∀ part ∈ file.others shstrndx, Apart ((sectionRange table).behind 9) part) ∧
      (∀ part ∈ (sectionRange table).grow 9 :: file.others shstrndx,
        Apart (file.movedTable length) part) ∧
      (length = 0 ∨ ∃ ndx sec, Furthest file ndx sec ∧
        ∀ part ∈ file.movedTable length :: (sectionRange table).grow 9 :: file.others shstrndx,
          Apart ⟨(headerEnd sec + nameBytes shstrndx ndx) % 0x100000000, length⟩ part) := by
  have behind (part : Range) : Apart ((sectionRange table).behind 9) part ↔
      Leaves (sectionRange table).stop 9 part := apart_iff_leaves _ 9 part (by decide)
  have moved : Apart (file.movedTable length) ((sectionRange table).grow 9) ↔
      (file.eShoff + length < (sectionRange table).stop →
        file.headerTable.stop + file.added length ≤ (sectionRange table).start) := by
    have grown : ((sectionRange table).grow 9).stop = (sectionRange table).stop + 9 := rfl
    have grownStart : ((sectionRange table).grow 9).start = (sectionRange table).start := rfl
    have grownLength : ((sectionRange table).grow 9).length = (sectionRange table).length + 9 := rfl
    rw [movedTable_apart_iff, grown, grownStart, grownLength]
    omega
  rw [List.forall_mem_cons, moved]
  simp only [behind, movedTable_apart_iff]
  have profileRoom (name : ∀ part ∈ file.others shstrndx, Leaves (sectionRange table).stop 9 part)
      (some : 0 < length) (ndx : Nat) (sec : Section) (furthest : Furthest file ndx sec) :
      (∀ part ∈ file.movedTable length :: (sectionRange table).grow 9 :: file.others shstrndx,
        Apart ⟨(headerEnd sec + nameBytes shstrndx ndx) % 0x100000000, length⟩ part) ↔
      (headerEnd sec + nameBytes shstrndx ndx < 0x100000000 ∧
        RoomBehind file shstrndx table length ndx sec) ∨
      (0x100000000 ≤ headerEnd sec + nameBytes shstrndx ndx ∧
        RoomWrapped file shstrndx table length
          ((headerEnd sec + nameBytes shstrndx ndx) % 0x100000000)) := by
    simp only [apart_iff_leaves _ length _ some]
    rcases Nat.lt_or_ge (headerEnd sec + nameBytes shstrndx ndx) 0x100000000 with fits | wraps
    · rw [Nat.mod_eq_of_lt fits,
        profile_leaves_iff file shstrndx table length ndx sec found strtab furthest some name]
      constructor
      · exact fun room => Or.inl ⟨fits, room⟩
      · rintro (⟨_fits, room⟩ | ⟨wraps, _room⟩)
        · exact room
        · omega
    · rw [List.forall_mem_cons, leaves_movedTable_iff]
      constructor
      · exact fun both => Or.inr ⟨wraps, both.2, both.1⟩
      · rintro (⟨fits, _room⟩ | ⟨_wraps, parts, headers⟩)
        · omega
        · exact ⟨headers, parts⟩
  constructor
  · rintro ⟨name, headers, nameHeaders, profile⟩
    refine ⟨name, ⟨nameHeaders, headers⟩, ?_⟩
    rcases Nat.eq_zero_or_pos length with none | some
    · exact Or.inl none
    · obtain ⟨ndx, sec, furthest, room⟩ := profile.resolve_left (Nat.ne_of_gt some)
      exact Or.inr ⟨ndx, sec, furthest, (profileRoom name some ndx sec furthest).mpr room⟩
  · rintro ⟨name, ⟨nameHeaders, headers⟩, profile⟩
    refine ⟨name, headers, nameHeaders, ?_⟩
    rcases Nat.eq_zero_or_pos length with none | some
    · exact Or.inl none
    · obtain ⟨ndx, sec, furthest, apart⟩ := profile.resolve_left (Nat.ne_of_gt some)
      exact Or.inr ⟨ndx, sec, furthest, (profileRoom name some ndx sec furthest).mp apart⟩

/-- The new file has every old section in its old place, all but the table with its
old contents, and no two of its parts share a byte. -/
structure ContentKept (file after : ElfImage) (shstrndx : Nat) : Prop where
  apart : after.PartsApart
  old : ∀ ndx sec, file.sections[ndx]? = some sec → ∃ new, after.sections[ndx]? = some new ∧
    new.shdr.offset = sec.shdr.offset ∧ (ndx ≠ shstrndx → new = sec)

private theorem augmented_old (unset : Nat) (file : ElfImage) (profile : List Byte) (shstrndx : Nat)
    (table : Section) (found : file.sections[shstrndx]? = some table) (ndx : Nat) (sec : Section)
    (atNdx : file.sections[ndx]? = some sec) :
    ∃ new, (augmented unset file profile shstrndx table).sections[ndx]? = some new ∧
      new.shdr.offset = sec.shdr.offset ∧ (ndx ≠ shstrndx → new = sec) := by
  have inside := (List.getElem?_eq_some_iff.mp atNdx).1
  have tableInside := (List.getElem?_eq_some_iff.mp found).1
  simp only [augmented]
  rw [List.getElem?_append_left (by rw [List.length_set]; exact inside)]
  by_cases here : shstrndx = ndx
  · subst here
    rw [found] at atNdx
    cases atNdx
    refine ⟨_, List.getElem?_set_self tableInside, ?_, fun elsewhere => absurd rfl elsewhere⟩
    rw [grownTable, storedSection_shdr]
  · exact ⟨sec, by rw [List.getElem?_set_ne here, atNdx], rfl, fun _elsewhere => rfl⟩

/-- Whatever the uninitialised variable holds, there is room exactly if the bytes taken are
apart from the parts that stay. -/
theorem room_iff_always (file : ElfImage) (profile : List Byte) (shstrndx : Nat)
    (table : Section) (succeeds : Succeeds file profile shstrndx table) :
    Room file shstrndx table profile.length ↔
      (∀ part ∈ file.others shstrndx, Apart ((sectionRange table).behind 9) part) ∧
      (∀ part ∈ (sectionRange table).grow 9 :: file.others shstrndx,
        Apart (file.movedTable profile.length) part) ∧
      ∀ unset, ∀ part ∈ file.movedTable profile.length :: (sectionRange table).grow 9 ::
          file.others shstrndx,
        Apart ⟨computeSectionOffset unset (eShnum file.toElfFile)
          (namedElf file.toElfFile shstrndx table), profile.length⟩ part := by
  have offset := computeSectionOffset_furthest file shstrndx table succeeds.found succeeds.strtab
  rw [room_iff file shstrndx table profile.length succeeds.found succeeds.strtab]
  apply and_congr_right'
  apply and_congr_right'
  constructor
  · rintro (none | ⟨ndx, sec, furthest, apart⟩) unset part listed
    · rw [none]
      exact apart_empty _ part
    · rcases offset with ⟨unfound, _fromUnset⟩ | ⟨other, otherSec, otherFurthest, computed⟩
      · exact absurd furthest (unfound ndx sec)
      · obtain ⟨rfl, rfl⟩ := Furthest.unique file _ _ _ _ otherFurthest furthest
        rw [computed unset]
        exact apart part listed
  · intro always
    rcases Nat.eq_zero_or_pos profile.length with none | positive
    · exact Or.inl none
    · right
      rcases offset with ⟨_unfound, fromUnset⟩ | ⟨ndx, sec, furthest, computed⟩
      · -- the value zero puts the profile over the ELF header
        have atHeader := always 0 file.elfHeader
          (List.mem_cons_of_mem _ (List.mem_cons_of_mem _ List.mem_cons_self))
        rw [fromUnset 0, apart_iff] at atHeader
        have headed := file.headed
        simp only [ElfImage.elfHeader, Nat.zero_mod] at atHeader
        omega
      · refine ⟨ndx, sec, furthest, ?_⟩
        rw [← computed 0]
        exact always 0

/-- Whatever the uninitialised variable holds, the new parts are apart exactly if the
old ones that stay were and there is room for what is added. -/
theorem augmented_always_apart_iff (file : ElfImage) (profile : List Byte) (shstrndx : Nat)
    (table : Section) (succeeds : Succeeds file profile shstrndx table) :
    (∀ unset, (augmented unset file profile shstrndx table).PartsApart) ↔
      (sectionRange table :: file.others shstrndx).Pairwise Apart ∧
        Room file shstrndx table profile.length := by
  rw [room_iff_always file profile shstrndx table succeeds]
  simp only [augmented_partsApart_iff _ file profile shstrndx table succeeds, forall_and,
    forall_const]

/-- No old content is written over exactly if there is room for what is added. -/
theorem laidOut_contentKept_iff (file : ElfImage) (profile : List Byte) (shstrndx : Nat)
    (table : Section) (succeeds : Succeeds file profile shstrndx table)
    (apart : file.PartsApart) :
    (∀ unset, ∃ after, laidOut unset file profile = some after ∧
        ContentKept file after shstrndx) ↔
      Room file shstrndx table profile.length := by
  have always := augmented_always_apart_iff file profile shstrndx table succeeds
  constructor
  · intro kept
    apply (always.mp _).2
    intro unset
    obtain ⟨after, laid, content⟩ := kept unset
    rw [laidOut_eq unset file profile shstrndx table succeeds] at laid
    cases laid
    exact content.apart
  · intro room unset
    exact ⟨_, laidOut_eq unset file profile shstrndx table succeeds,
      always.mpr ⟨apart.kept shstrndx table succeeds.found, room⟩ unset,
      augmented_old unset file profile shstrndx table succeeds.found⟩

def sampleImage : ElfImage :=
  { sampleFile with ehsize := 52, phoff := 52, phentsize := 32, phnum := 0, shentsize := 40
                    headed := by decide, entries := by decide }

theorem sampleImage_succeeds : ∃ table, Succeeds sampleImage [1, 2, 3] 2 table ∧
    Room sampleImage 2 table 3 := by
  refine ⟨_, ⟨rfl, rfl, rfl, by decide, by decide, by decide⟩, ?_⟩
  rw [room_iff sampleImage 2 _ 3 rfl rfl]
  refine ⟨by decide, by decide, Or.inr ⟨2, _, ⟨rfl, by decide, by decide, ?_⟩, by decide⟩⟩
  intro other otherSec atOther counted
  have below : other < 3 := counted
  interval_cases other <;> cases atOther <;> decide

theorem laidOut_contentKept_iff_sample :
    ∃ after, laidOut 0 sampleImage [1, 2, 3] = some after ∧ ContentKept sampleImage after 2 := by
  obtain ⟨table, succeeds, room⟩ := sampleImage_succeeds
  exact (laidOut_contentKept_iff sampleImage [1, 2, 3] 2 table succeeds (by decide)).mpr room 0

def earlyTableImage : ElfImage :=
  { sampleImage with
    sections := sampleFile.sections ++
      [storedSection { emptyShdr with name := 1, type := shtProgbits, offset := 224, addralign := 1 }
        4 [5, 5, 5, 5]] }

theorem laidOut_writes_over_section :
    earlyTableImage.PartsApart ∧ ∃ after, laidOut 0 earlyTableImage [1] = some after ∧
      ¬ ContentKept earlyTableImage after 2 := by
  refine ⟨by decide, _, rfl, ?_⟩
  intro kept
  exact absurd kept.apart (by decide)

end BlackboxProfiling.Elfie
