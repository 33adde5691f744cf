import BlackboxProfiling.Elf.ElfieLayout
import BlackboxProfiling.Elf.UpdateProfile

/-!
What a reader finds after `elfie`. It adds a section without a look at the sections
that are there, and its name lands behind the old name table, where the header of an
old section may already point.
-/

namespace BlackboxProfiling.Elfie

open Libelf ElfManipulator ByteRanges NulTable

def HoldsOnly (file : ElfFile) (profile : List Byte) : Prop :=
  ∃ ndx sec, 0 < ndx ∧ file.sections[ndx]? = some sec ∧
    sectionName file ndx = some profileName ∧ sec.bytes = profile ∧
    ∀ other, 0 < other → sectionName file other = some profileName → other = ndx

def NameFree (file : ElfFile) (table : Section) : Prop :=
  ∀ ndx sec, 0 < ndx → file.sections[ndx]? = some sec →
    sectionName file ndx ≠ some profileName ∧ sec.shdr.name ≠ table.bytes.length

section Names

variable (unset : Nat) (file : ElfImage) (profile : List Byte) (shstrndx : Nat) (table : Section)
variable (succeeds : Succeeds file profile shstrndx table)

include succeeds

private theorem augmented_sections_old (ndx : Nat) (inside : ndx < file.sections.length) :
    (augmented unset file profile shstrndx table).sections[ndx]? =
      if shstrndx = ndx then some (grownTable table) else file.sections[ndx]? := by
  have tableInside := (List.getElem?_eq_some_iff.mp succeeds.found).1
  simp only [augmented]
  rw [List.getElem?_append_left (by rw [List.length_set]; exact inside), List.getElem?_set]
  split
  · rfl
  · rfl

omit succeeds in
private theorem augmented_sections_new :
    ∃ sectionOffset, (augmented unset file profile shstrndx table).sections[file.sections.length]? =
      some (profileSection table profile sectionOffset) := by
  refine ⟨computeSectionOffset unset (eShnum file.toElfFile)
    (namedElf file.toElfFile shstrndx table), ?_⟩
  simp only [augmented]
  rw [List.getElem?_append_right (by rw [List.length_set]), List.length_set, Nat.sub_self]
  rfl

private theorem augmented_indexed :
    elfGetshdrstrndx (elfBegin (augmented unset file profile shstrndx table).toElfFile) =
      some shstrndx := by
  have inside := (List.getElem?_eq_some_iff.mp succeeds.found).1
  rw [← succeeds.indexed]
  unfold elfGetshdrstrndx
  have sameIndex : (elfBegin (augmented unset file profile shstrndx table).toElfFile).eShstrndx =
      (elfBegin file.toElfFile).eShstrndx := rfl
  rw [sameIndex, elfBegin_scn, elfBegin_scn,
    augmented_sections_old unset file profile shstrndx table succeeds 0 (Nat.zero_lt_of_lt inside)]
  split
  · split
    · rename_i here
      rw [← here, succeeds.found]
      simp only [Option.map_some, Section.scn, grownTable, storedSection_shdr]
    · rfl
  · rfl

private theorem grownTable_read :
    (grownTable table).shdr.type = shtStrtab ∧ (grownTable table).bytes = grownShstrtab table := by
  have occupies := strtab_occupies table succeeds.strtab
  have sameKind :
      Shdr.occupies { table.shdr with size := (grownShstrtab table).length } = true := occupies
  constructor
  · rw [grownTable, storedSection_shdr]
    exact succeeds.strtab
  · rw [grownTable, storedSection_bytes, if_pos sameKind]

theorem augmented_sectionName (ndx : Nat) (sec : Section)
    (atNdx : (augmented unset file profile shstrndx table).sections[ndx]? = some sec) :
    sectionName (augmented unset file profile shstrndx table).toElfFile ndx =
      stringAt 0 (grownShstrtab table) sec.shdr.name := by
  have inside := (List.getElem?_eq_some_iff.mp succeeds.found).1
  obtain ⟨strtab, bytes⟩ := grownTable_read file profile shstrndx table succeeds
  rw [sectionName_eq _ shstrndx ndx (grownTable table) sec
    (augmented_indexed unset file profile shstrndx table succeeds) ?_ strtab atNdx, bytes]
  rw [augmented_sections_old unset file profile shstrndx table succeeds shstrndx inside, if_pos rfl]

/-- An old section is called `.profile` afterwards if it was before or its name
starts where the old table ends. -/
theorem augmented_named_iff (ndx : Nat) (sec : Section) (atNdx : file.sections[ndx]? = some sec) :
    sectionName (augmented unset file profile shstrndx table).toElfFile ndx = some profileName ↔
      sectionName file.toElfFile ndx = some profileName ∨ sec.shdr.name = table.bytes.length := by
  have inside := (List.getElem?_eq_some_iff.mp atNdx).1
  have before := sectionName_eq file.toElfFile shstrndx ndx table sec succeeds.indexed
    succeeds.found succeeds.strtab atNdx
  have sameName : ∃ new, (augmented unset file profile shstrndx table).sections[ndx]? = some new ∧
      new.shdr.name = sec.shdr.name := by
    rw [augmented_sections_old unset file profile shstrndx table succeeds ndx inside]
    by_cases here : shstrndx = ndx
    · subst here
      rw [succeeds.found] at atNdx
      cases atNdx
      refine ⟨_, if_pos rfl, ?_⟩
      rw [grownTable, storedSection_shdr]
    · exact ⟨sec, by rw [if_neg here, atNdx], rfl⟩
  obtain ⟨new, atNew, name⟩ := sameName
  rw [augmented_sectionName unset file profile shstrndx table succeeds ndx new atNew, name, before]
  exact stringAt_append_iff 0 table.bytes profileName sec.shdr.name (by decide)

private theorem augmented_profileNamed :
    sectionName (augmented unset file profile shstrndx table).toElfFile file.sections.length =
      some profileName := by
  obtain ⟨sectionOffset, atNew⟩ :=
    augmented_sections_new unset file profile shstrndx table
  rw [augmented_sectionName unset file profile shstrndx table succeeds _ _ atNew, profileSection,
    storedSection_shdr]
  exact stringAt_end 0 table.bytes profileName [] (by decide)

private theorem augmented_holdsOnly_iff :
    HoldsOnly (augmented unset file profile shstrndx table).toElfFile profile ↔
      NameFree file.toElfFile table := by
  have profileNamed := augmented_profileNamed unset file profile shstrndx table succeeds
  have positive : 0 < file.sections.length :=
    Nat.zero_lt_of_lt (List.getElem?_eq_some_iff.mp succeeds.found).1
  constructor
  · rintro ⟨_found, _sec, _foundPositive, _atFound, _named, _bytes, only⟩ ndx sec ndxPositive atNdx
    have last := only file.sections.length positive profileNamed
    have inside := (List.getElem?_eq_some_iff.mp atNdx).1
    have unnamed : sectionName (augmented unset file profile shstrndx table).toElfFile ndx ≠
        some profileName := by
      intro isProfile
      have here := only ndx ndxPositive isProfile
      omega
    rw [Ne, augmented_named_iff unset file profile shstrndx table succeeds ndx sec atNdx,
      not_or] at unnamed
    exact unnamed
  · intro free
    obtain ⟨sectionOffset, atNew⟩ :=
      augmented_sections_new unset file profile shstrndx table
    refine ⟨_, _, positive, atNew, profileNamed, ?_, ?_⟩
    · rw [profileSection, storedSection_bytes]
      exact if_pos rfl
    · intro other otherPositive isProfile
      rcases Nat.lt_trichotomy other file.sections.length with old | same | beyond
      · have atOther := List.getElem?_eq_getElem old
        rcases (augmented_named_iff unset file profile shstrndx table succeeds other _ atOther).mp
          isProfile with before | atEnd
        · exact absurd before (free other _ otherPositive atOther).1
        · exact absurd atEnd (free other _ otherPositive atOther).2
      · exact same
      · rw [sectionName_absent] at isProfile
        · cases isProfile
        · simp only [augmented, List.length_append, List.length_set, List.length_singleton]
          omega

end Names

/-- Where the other names resolve, the only section of the name is the one that
`is_profiled` finds. -/
theorem HoldsOnly.isProfiled {file : ElfFile} {profile : List Byte}
    (holds : HoldsOnly file profile)
    (resolve : ∀ ndx, 0 < ndx → ndx < file.sections.length →
      ∃ name, sectionName file ndx = some name) :
    ∃ ndx sec, isProfiled file = some ndx ∧ file.sections[ndx]? = some sec ∧
      sec.bytes = profile := by
  obtain ⟨ndx, sec, positive, atNdx, named, bytes, only⟩ := holds
  have inside := (List.getElem?_eq_some_iff.mp atNdx).1
  have indexed : ∃ shstrndx, elfGetshdrstrndx (elfBegin file) = some shstrndx := by
    unfold sectionName at named
    split at named
    · rename_i shstrndx _found here _atNdx
      exact ⟨shstrndx, here⟩
    · cases named
  obtain ⟨shstrndx, here⟩ := indexed
  refine ⟨ndx, sec, ?_, atNdx, bytes⟩
  apply isProfiled_first file shstrndx ndx sec here positive atNdx named
  intro other otherPositive before
  obtain ⟨name, resolved⟩ := resolve other otherPositive (Nat.lt_trans before inside)
  refine ⟨name, resolved, ?_⟩
  rintro rfl
  have same := only other otherPositive resolved
  omega

/-- The ELF header and the name table share no byte with each other, another section or the
program headers. -/
def HeadApart (file : ElfImage) (shstrndx : Nat) (table : Section) : Prop :=
  (∀ part ∈ file.others shstrndx, Apart (sectionRange table) part) ∧
  ∀ part ∈ file.programHeaders :: (file.sections.map sectionRange).eraseIdx shstrndx,
    Apart file.elfHeader part

/-- The parts that a reader of the profile needs share no byte with another part. -/
def Legible (asked : ElfImage) (shstrndx ndx : Nat) : Prop :=
  (Alone asked.parts 0 ∧ Alone asked.parts 1) ∧
    Alone asked.parts (shstrndx + 3) ∧ Alone asked.parts (ndx + 3)

theorem ElfImage.PartsApart.headApart {file : ElfImage} (apart : file.PartsApart) (shstrndx : Nat)
    (table : Section) (found : file.sections[shstrndx]? = some table) :
    HeadApart file shstrndx table := by
  obtain ⟨tableApart, othersApart⟩ := List.pairwise_cons.mp (apart.kept shstrndx table found)
  exact ⟨tableApart, (List.pairwise_cons.mp othersApart).1⟩

private theorem augmented_parts (unset : Nat) (file : ElfImage) (profile : List Byte) (shstrndx : Nat)
    (table : Section) (strtab : table.shdr.type = shtStrtab) :
    (augmented unset file profile shstrndx table).parts =
      file.movedTable profile.length :: file.elfHeader :: file.programHeaders ::
        ((file.sections.map sectionRange).set shstrndx ((sectionRange table).grow 9) ++
          [⟨computeSectionOffset unset (eShnum file.toElfFile)
            (namedElf file.toElfFile shstrndx table), profile.length⟩]) := by
  have moved : (augmented unset file profile shstrndx table).headerTable =
      file.movedTable profile.length := by
    simp only [ElfImage.headerTable, augmented, List.length_append, List.length_set,
      List.length_singleton, ElfImage.movedTable]
  rw [ElfImage.parts, moved]
  simp only [augmented, List.map_append, List.map_set, grownTable_range table strtab,
    List.map_cons, List.map_nil, profileSection_range, ElfImage.elfHeader, ElfImage.programHeaders]

private theorem augmented_legible_iff (unset : Nat) (file : ElfImage) (profile : List Byte)
    (shstrndx : Nat) (table : Section) (succeeds : Succeeds file profile shstrndx table) :
    Legible (augmented unset file profile shstrndx table) shstrndx file.sections.length ↔
      HeadApart file shstrndx table ∧
      (∀ part ∈ file.others shstrndx, Apart ((sectionRange table).behind 9) part) ∧
      (∀ part ∈ (sectionRange table).grow 9 :: file.others shstrndx,
        Apart (file.movedTable profile.length) part) ∧
      ∀ part ∈ file.movedTable profile.length :: (sectionRange table).grow 9 ::
          file.others shstrndx,
        Apart ⟨computeSectionOffset unset (eShnum file.toElfFile)
          (namedElf file.toElfFile shstrndx table), profile.length⟩ part := by
  have ranges : (file.sections.map sectionRange).length = file.sections.length := List.length_map _
  have inside : shstrndx < (file.sections.map sectionRange).length := by
    rw [ranges]
    exact (List.getElem?_eq_some_iff.mp succeeds.found).1
  have parts := augmented_parts unset file profile shstrndx table succeeds.strtab
  generalize Range.mk (computeSectionOffset unset (eShnum file.toElfFile)
    (namedElf file.toElfFile shstrndx table)) profile.length = added at parts ⊢
  have atTable := alone_changed_iff [file.movedTable profile.length, file.elfHeader,
    file.programHeaders] _ shstrndx inside ((sectionRange table).grow 9) added
  have atProfile := alone_added_iff [file.movedTable profile.length, file.elfHeader,
    file.programHeaders] _ shstrndx inside ((sectionRange table).grow 9) added
  have three (place : Nat) : [file.movedTable profile.length, file.elfHeader,
      file.programHeaders].length + place = place + 3 := Nat.add_comm 3 place
  rw [three, List.cons_append, List.cons_append, List.cons_append, List.nil_append, ← parts]
    at atTable atProfile
  rw [ranges] at atProfile
  rw [Legible, HeadApart, atTable, atProfile, parts, alone_iff _ 0 _ rfl, alone_iff _ 1 _ rfl]
  simp only [List.eraseIdx_cons_succ, List.eraseIdx_cons_zero, List.forall_mem_append,
    List.forall_mem_cons, forall_mem_set_iff _ shstrndx inside, ElfImage.others]
  -- each pair of parts stands there once from either side
  simp only [Apart.comm file.elfHeader (file.movedTable _),
    Apart.comm file.elfHeader ((sectionRange table).grow 9), Apart.comm file.elfHeader added,
    Apart.comm (file.movedTable _) added, Apart.comm ((sectionRange table).grow 9) added,
    Apart.comm ((sectionRange table).grow 9) (file.movedTable _), apart_grow_iff, forall_and,
    List.not_mem_nil, false_implies, implies_true, and_true]
  tauto

/-- The parts a reader needs are legible whatever was uninitialised exactly if the ELF header
and the table were apart from the rest and there is room for what is added. -/
theorem augmented_always_legible_iff (file : ElfImage) (profile : List Byte) (shstrndx : Nat)
    (table : Section) (succeeds : Succeeds file profile shstrndx table) :
    (∀ unset, Legible (augmented unset file profile shstrndx table) shstrndx
        file.sections.length) ↔
      HeadApart file shstrndx table ∧ Room file shstrndx table profile.length := by
  rw [room_iff_always file profile shstrndx table succeeds]
  simp only [augmented_legible_iff _ file profile shstrndx table succeeds, forall_and,
    forall_const]

private theorem elfGetshdrstrndx_congr (left right : ElfFile)
    (sameIndex : left.eShstrndx = right.eShstrndx)
    (sameHeaders : left.sections.map Section.shdr = right.sections.map Section.shdr) :
    elfGetshdrstrndx (elfBegin left) = elfGetshdrstrndx (elfBegin right) := by
  have zeros : (elfBegin left).scns[0]?.map (fun zero => zero.shdr.link) =
      (elfBegin right).scns[0]?.map (fun zero => zero.shdr.link) := by
    have links := congrArg (fun headers => headers[0]?.map Shdr.link) sameHeaders
    simp only [List.getElem?_map, Option.map_map] at links
    rw [elfBegin_scn, elfBegin_scn, Option.map_map, Option.map_map]
    exact links
  have begun : (elfBegin left).eShstrndx = (elfBegin right).eShstrndx := sameIndex
  unfold elfGetshdrstrndx
  rw [zeros, begun]

theorem sectionName_congr (left right : ElfFile) (shstrndx : Nat) (table : Section)
    (sameIndex : left.eShstrndx = right.eShstrndx)
    (sameHeaders : left.sections.map Section.shdr = right.sections.map Section.shdr)
    (indexed : elfGetshdrstrndx (elfBegin right) = some shstrndx)
    (atLeft : left.sections[shstrndx]? = some table)
    (atRight : right.sections[shstrndx]? = some table) (strtab : table.shdr.type = shtStrtab)
    (ndx : Nat) : sectionName left ndx = sectionName right ndx := by
  have indexedLeft := (elfGetshdrstrndx_congr left right sameIndex sameHeaders).trans indexed
  have header : left.sections[ndx]?.map Section.shdr = right.sections[ndx]?.map Section.shdr := by
    rw [← List.getElem?_map, ← List.getElem?_map, sameHeaders]
  cases atNdx : right.sections[ndx]? with
  | none =>
      rw [atNdx, Option.map_none, Option.map_eq_none_iff] at header
      rw [sectionName_absent left ndx (List.getElem?_eq_none_iff.mp header),
        sectionName_absent right ndx (List.getElem?_eq_none_iff.mp atNdx)]
  | some sec =>
      rw [atNdx, Option.map_some, Option.map_eq_some_iff] at header
      obtain ⟨leftSec, atLeftNdx, sameShdr⟩ := header
      rw [sectionName_eq left shstrndx ndx table leftSec indexedLeft atLeft strtab atLeftNdx,
        sectionName_eq right shstrndx ndx table sec indexed atRight strtab atNdx, sameShdr]

def Section.refill (sec : Section) (fill : Byte → Byte) : Section :=
  { sec with
    bytes := sec.bytes.map fill
    sized := fun full => (sec.sized full).trans (List.length_map fill).symm
    hollow := fun empty => List.map_eq_nil_iff.mpr (sec.hollow empty) }

/-- Parts that share bytes with others are left with other bytes than asked for, and no
section is found where the headers share bytes. -/
def scramble (fill : Byte → Byte) (asked : ElfImage) : ElfImage :=
  if Alone asked.parts 0 ∧ Alone asked.parts 1 then
    { asked with
      sections := asked.sections.mapIdx (fun ndx sec =>
        if Alone asked.parts (ndx + 3) then sec else Section.refill sec fill) }
  else { asked with sections := [] }

private theorem scramble_section (fill : Byte → Byte) (asked : ElfImage)
    (headed : Alone asked.parts 0 ∧ Alone asked.parts 1) (ndx : Nat) :
    (scramble fill asked).sections[ndx]? = asked.sections[ndx]?.map (fun sec =>
      if Alone asked.parts (ndx + 3) then sec else Section.refill sec fill) := by
  rw [scramble, if_pos headed]
  exact List.getElem?_mapIdx

private theorem scramble_headers (fill : Byte → Byte) (asked : ElfImage)
    (headed : Alone asked.parts 0 ∧ Alone asked.parts 1) :
    (scramble fill asked).eShstrndx = asked.eShstrndx ∧
      (scramble fill asked).sections.map Section.shdr = asked.sections.map Section.shdr := by
  constructor
  · rw [scramble, if_pos headed]
  · apply List.ext_getElem?
    intro ndx
    rw [List.getElem?_map, List.getElem?_map, scramble_section fill asked headed, Option.map_map]
    congr 1
    funext sec
    rw [Function.comp_apply]
    split
    · rfl
    · rfl

def scrambleUpdate (fill : Byte → Byte) : LayoutUpdate :=
  { write := fun _old asked => scramble fill asked
    headers := fun _old asked table header => scramble_headers fill asked ⟨table, header⟩
    faithful := fun _old asked table header ndx alone => by
      rw [scramble_section fill asked ⟨table, header⟩ ndx]
      simp only [if_pos alone, Option.map_id'] }

def keepAll : LayoutUpdate :=
  { write := fun _old asked => asked
    headers := fun _old _asked _table _header => ⟨rfl, rfl⟩
    faithful := fun _old _asked _table _header _ndx _alone => rfl }

private theorem stringAt_zeros (bytes : List Byte) (offset : Nat) :
    stringAt 0 (bytes.map (fun _byte => 0)) offset ≠ some profileName := by
  intro found
  obtain ⟨_clean, more, split⟩ := (stringAt_eq_some 0 _ offset profileName).mp found
  have listed : (46 : Byte) ∈ (bytes.map (fun _byte => (0 : Byte))).drop offset := by
    rw [split]
    exact List.mem_append_left _ List.mem_cons_self
  obtain ⟨_byte, _member, same⟩ := List.mem_map.mp (List.mem_of_mem_drop listed)
  exact absurd same (by decide)

section Written

variable (unset : Nat) (file : ElfImage) (profile : List Byte) (shstrndx : Nat) (table : Section)
variable (succeeds : Succeeds file profile shstrndx table)

include succeeds

private theorem written_sectionName (update : LayoutUpdate)
    (headerTable : Alone (augmented unset file profile shstrndx table).parts 0)
    (elfHeader : Alone (augmented unset file profile shstrndx table).parts 1)
    (tableAlone : Alone (augmented unset file profile shstrndx table).parts (shstrndx + 3))
    (ndx : Nat) :
    sectionName (update.write file (augmented unset file profile shstrndx table)).toElfFile ndx =
      sectionName (augmented unset file profile shstrndx table).toElfFile ndx := by
  have inside := (List.getElem?_eq_some_iff.mp succeeds.found).1
  have atTable := augmented_sections_old unset file profile shstrndx table succeeds shstrndx inside
  rw [if_pos rfl] at atTable
  obtain ⟨sameIndex, sameHeaders⟩ := update.headers file _ headerTable elfHeader
  exact sectionName_congr _ _ shstrndx (grownTable table) sameIndex sameHeaders
    (augmented_indexed unset file profile shstrndx table succeeds)
    ((update.faithful file _ headerTable elfHeader shstrndx tableAlone).trans atTable) atTable
    (grownTable_read file profile shstrndx table succeeds).1 ndx

theorem written_holdsOnly (update : LayoutUpdate)
    (legible : Legible (augmented unset file profile shstrndx table) shstrndx file.sections.length)
    (holds : HoldsOnly (augmented unset file profile shstrndx table).toElfFile profile) :
    HoldsOnly (update.write file (augmented unset file profile shstrndx table)).toElfFile
      profile := by
  obtain ⟨⟨headerTable, elfHeader⟩, tableAlone, profileAlone⟩ := legible
  have names := written_sectionName unset file profile shstrndx table succeeds update headerTable
    elfHeader tableAlone
  obtain ⟨ndx, sec, positive, atNdx, named, bytes, only⟩ := holds
  have last : file.sections.length = ndx := only file.sections.length
    (Nat.zero_lt_of_lt (List.getElem?_eq_some_iff.mp succeeds.found).1)
    (augmented_profileNamed unset file profile shstrndx table succeeds)
  rw [last] at profileAlone
  refine ⟨ndx, sec, positive, ?_, ?_, bytes, ?_⟩
  · rw [update.faithful file _ headerTable elfHeader ndx profileAlone]
    exact atNdx
  · rw [names]
    exact named
  · intro other otherPositive otherNamed
    rw [names] at otherNamed
    exact only other otherPositive otherNamed

private theorem scramble_zeros_unnamed
    (headed : Alone (augmented unset file profile shstrndx table).parts 0 ∧
      Alone (augmented unset file profile shstrndx table).parts 1)
    (shared : ¬ Alone (augmented unset file profile shstrndx table).parts (shstrndx + 3)) :
    ¬ HoldsOnly (scramble (fun _byte => 0)
      (augmented unset file profile shstrndx table)).toElfFile profile := by
  have inside := (List.getElem?_eq_some_iff.mp succeeds.found).1
  rintro ⟨ndx, sec, _positive, atNdx, named, _rest⟩
  obtain ⟨sameIndex, sameHeaders⟩ := scramble_headers (fun _byte => 0) _ headed
  have indexed := (elfGetshdrstrndx_congr _ _ sameIndex sameHeaders).trans
    (augmented_indexed unset file profile shstrndx table succeeds)
  have atTable := scramble_section (fun _byte => 0) _ headed shstrndx
  rw [augmented_sections_old unset file profile shstrndx table succeeds shstrndx inside,
    if_pos rfl, Option.map_some, if_neg shared] at atTable
  rw [sectionName_eq _ shstrndx ndx _ sec indexed atTable
    (grownTable_read file profile shstrndx table succeeds).1 atNdx] at named
  exact stringAt_zeros _ _ named

private theorem scramble_succ_differs
    (headed : Alone (augmented unset file profile shstrndx table).parts 0 ∧
      Alone (augmented unset file profile shstrndx table).parts 1)
    (tableAlone : Alone (augmented unset file profile shstrndx table).parts (shstrndx + 3))
    (shared : ¬ Alone (augmented unset file profile shstrndx table).parts
      (file.sections.length + 3)) :
    ¬ HoldsOnly (scramble (fun byte => byte + 1)
      (augmented unset file profile shstrndx table)).toElfFile profile := by
  have names := written_sectionName unset file profile shstrndx table succeeds
    (scrambleUpdate (fun byte => byte + 1)) headed.1 headed.2 tableAlone
  have profileNamed := augmented_profileNamed unset file profile shstrndx table succeeds
  have positive := Nat.zero_lt_of_lt (List.getElem?_eq_some_iff.mp succeeds.found).1
  rintro ⟨ndx, sec, _positive, atNdx, _named, bytes, only⟩
  have last : file.sections.length = ndx :=
    only file.sections.length positive ((names _).trans profileNamed)
  obtain ⟨sectionOffset, atNew⟩ := augmented_sections_new unset file profile shstrndx table
  have stored : (profileSection table profile sectionOffset).bytes = profile := by
    rw [profileSection, storedSection_bytes]
    exact if_pos rfl
  rw [scramble_section _ _ headed ndx, ← last, atNew, Option.map_some, if_neg shared] at atNdx
  rw [← Option.some.inj atNdx] at bytes
  have filled : (profileSection table profile sectionOffset).bytes.map (fun byte => byte + 1) =
      profile := bytes
  rw [stored] at filled
  cases profile with
  | nil =>
      -- an empty profile shares no byte
      apply shared
      intro own atOwn other _member
      have range : (augmented unset file [] shstrndx table).parts[file.sections.length + 3]? =
          some (sectionRange (profileSection table [] sectionOffset)) := by
        simp only [ElfImage.parts, List.getElem?_cons_succ, List.getElem?_map, atNew,
          Option.map_some]
      rw [range, profileSection_range] at atOwn
      rw [← Option.some.inj atOwn]
      exact apart_empty _ other
  | cons byte rest =>
      rw [List.map_cons] at filled
      have same : byte + 1 = byte := (List.cons.inj filled).1
      grind

/-- Where a part that a reader needs shares bytes, there is an `elf_update` after which
the reader does not find the profile. -/
theorem scramble_not_holdsOnly
    (illegible : ¬ Legible (augmented unset file profile shstrndx table) shstrndx
      file.sections.length) :
    ∃ fill, ¬ HoldsOnly (scramble fill (augmented unset file profile shstrndx table)).toElfFile
      profile := by
  by_cases headed : Alone (augmented unset file profile shstrndx table).parts 0 ∧
      Alone (augmented unset file profile shstrndx table).parts 1
  case neg =>
    refine ⟨id, ?_⟩
    rintro ⟨_ndx, _sec, _positive, atNdx, _rest⟩
    rw [scramble, if_neg headed] at atNdx
    cases atNdx
  by_cases tableAlone : Alone (augmented unset file profile shstrndx table).parts (shstrndx + 3)
  case neg =>
    -- no name can be read from a table of zeros
    exact ⟨_, scramble_zeros_unnamed unset file profile shstrndx table succeeds headed tableAlone⟩
  case pos =>
    refine ⟨_, scramble_succ_differs unset file profile shstrndx table succeeds headed tableAlone ?_⟩
    intro profileAlone
    exact illegible ⟨headed, tableAlone, profileAlone⟩

end Written

def profiledImage : ElfImage :=
  { sampleImage with
    sections :=
      [storedSection emptyShdr 0 [],
        storedSection
          { emptyShdr with name := 1, type := shtProgbits, offset := 52, addralign := 1 } 1 [9],
        storedSection
          { emptyShdr with name := 0, type := shtStrtab, offset := 53, addralign := 1 } 10
          (0 :: (profileName ++ [0]))] }

end BlackboxProfiling.Elfie
