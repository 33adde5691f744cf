import BlackboxProfiling.Elf.Elfie
import BlackboxProfiling.Elf.UpdateProfile

/-!
What a loader reads of an executable that `elf_manipulator` has worked on. The
layout is left to libelf, which packs the sections from the headers on and does not
look at the program headers, so a segment keeps what lies where it is packed to.
The fields of the ELF header that locate the section headers change in any case.
-/

namespace BlackboxProfiling.ElfManipulator

open Libelf

open ByteRanges

open Elfie (sectionRange eShnum)

variable (libelf : ElfUpdate)

structure Phdr where
  type : Nat
  offset : Nat
  filesz : Nat
  deriving DecidableEq, Repr

def ptLoad : Nat := 1

def Phdr.range (phdr : Phdr) : Range := ⟨phdr.offset, phdr.filesz⟩

def Inside (sec : Section) (phdr : Phdr) : Prop :=
  phdr.offset ≤ sec.shdr.offset ∧
    sec.shdr.offset + (sectionRange sec).length ≤ phdr.offset + phdr.filesz

def leByte (value place : Nat) : Byte := UInt8.ofNat (value >>> (8 * place))

/-- The fields `e_shoff`, `e_shnum` and `e_shstrndx` of the ELF header. -/
def sectionField (file : ElfFile) (place : Nat) : Option Byte :=
  if 32 ≤ place ∧ place < 36 then some (leByte file.eShoff (place - 32))
  else if 48 ≤ place ∧ place < 50 then some (leByte (eShnum file) (place - 48))
  else if 50 ≤ place ∧ place < 52 then some (leByte file.eShstrndx (place - 50))
  else none

structure Executable extends ElfFile where
  phdrs : List Phdr
  raw : List Byte
  headed : 52 ≤ headersEnd
  fields : ∀ place < headersEnd,
    sectionField toElfFile place = none ∨ sectionField toElfFile place = raw[place]?
  read : ∀ sec ∈ sections, (raw.drop sec.shdr.offset).take sec.bytes.length = sec.bytes
  zeroNull : ∀ zero ∈ sections.take 1, zero.shdr.type = shtNull

def sectionByte (sections : List Section) (place : Nat) : Option Byte :=
  sections.findSome? (fun sec =>
    if (sectionRange sec).Has place then sec.bytes[place - sec.shdr.offset]? else none)

def shdrWords (shdr : Shdr) : List Nat :=
  [shdr.name, shdr.type, shdr.flags, shdr.addr, shdr.offset, shdr.size, shdr.link, shdr.info,
    shdr.addralign, shdr.entsize]

def tableByte (file : ElfFile) (place : Nat) : Option Byte :=
  if place < file.eShoff then none
  else
    let entry := (place - file.eShoff) / 40
    let within := (place - file.eShoff) % 40
    file.sections[entry]?.map (fun sec =>
      leByte ((shdrWords sec.shdr).getD (within / 4) 0) (within % 4))

/-- What is written when everything is: gaps are filled with zeros. -/
def storedByte (exe : Executable) (after : ElfFile) (place : Nat) : Option Byte :=
  if place < after.headersEnd then
    match sectionField after place with
    | some byte => some byte
    | none => exe.raw[place]?
  else
    match sectionByte after.sections place with
    | some byte => some byte
    | none => if place < after.eShoff then some 0 else tableByte after place

/-- A file whose layout has not changed is not written, but for what is dirty. -/
def storedImage (exe : Executable) (after : ElfFile) (place : Nat) : Option Byte :=
  if after.placement = exe.placement then exe.raw[place]? else storedByte exe after place

structure LoadsSame (exe : Executable) (after : ElfFile) : Prop where
  bytes : ∀ phdr ∈ exe.phdrs, phdr.type = ptLoad → ∀ place, phdr.range.Has place →
    storedImage exe after place = exe.raw[place]?
  offsets : ∀ phdr ∈ exe.phdrs, ∀ (ndx : Nat) (sec : Section),
    exe.sections[ndx]? = some sec → Inside sec phdr → ∃ new : Section,
      after.sections[ndx]? = some new ∧ new.shdr.offset = sec.shdr.offset

/-! ### How libelf packs sections -/

def placeRanges (size : Nat) (extents : List (Nat × Nat)) : List Range :=
  List.zipWith Range.mk (placeExtents size extents) (extents.map Prod.snd)

def scnRanges (headersEnd : Nat) (scns : List Scn) : List Range :=
  List.zipWith Range.mk (layout headersEnd scns) (scns.map (fun scn => scn.extent.2))

private theorem roundUp_ge (size align : Nat) : size ≤ roundUp size align := by
  unfold roundUp
  split
  · exact Nat.le_refl size
  · have reached : size + align - 1 < (size + align - 1) / align * align + align :=
      Nat.lt_div_mul_add (by omega)
    omega

private theorem placeRanges_bounds (size : Nat) (extents : List (Nat × Nat)) :
    size ≤ placedEnd size extents ∧ ∀ range ∈ placeRanges size extents,
      size ≤ range.start ∧ range.start + range.length ≤ placedEnd size extents := by
  induction extents generalizing size with
  | nil => exact ⟨Nat.le_refl size, fun _range member => absurd member List.not_mem_nil⟩
  | cons extent rest ih =>
      obtain ⟨align, fileSize⟩ := extent
      have rounded := roundUp_ge size align
      obtain ⟨further, within⟩ := ih (roundUp size align + fileSize)
      refine ⟨by rw [placedEnd]; omega, ?_⟩
      intro range member
      rw [placedEnd]
      rcases List.mem_cons.mp member with rfl | later
      · exact ⟨rounded, further⟩
      · obtain ⟨above, below⟩ := within range later
        exact ⟨by omega, below⟩

private theorem placeRanges_pairwise (size : Nat) (extents : List (Nat × Nat)) :
    (placeRanges size extents).Pairwise Apart := by
  induction extents generalizing size with
  | nil => exact List.Pairwise.nil
  | cons extent rest ih =>
      obtain ⟨align, fileSize⟩ := extent
      refine List.Pairwise.cons ?_ (ih (roundUp size align + fileSize))
      intro range member
      have bounds := ((placeRanges_bounds _ rest).2 range member).1
      exact (apart_iff _ _).mpr (Or.inr (Or.inr (Or.inl bounds)))

private theorem placeRanges_append (size : Nat) (extents more : List (Nat × Nat)) :
    placeRanges size (extents ++ more) =
      placeRanges size extents ++ placeRanges (placedEnd size extents) more := by
  induction extents generalizing size with
  | nil => rfl
  | cons extent rest ih =>
      exact congrArg (List.cons _) (ih (roundUp size extent.1 + extent.2))

private theorem placedEnd_append (size : Nat) (extents more : List (Nat × Nat)) :
    placedEnd size (extents ++ more) = placedEnd (placedEnd size extents) more := by
  induction extents generalizing size with
  | nil => rfl
  | cons extent rest ih => exact ih (roundUp size extent.1 + extent.2)

private theorem scnRanges_cons (headersEnd : Nat) (zero : Scn) (rest : List Scn) :
    scnRanges headersEnd (zero :: rest) =
      ⟨zero.shdr.offset, zero.extent.2⟩ :: placeRanges headersEnd (rest.map Scn.extent) := by
  rw [placeRanges, List.map_map]
  rfl

theorem scnRanges_extends (headersEnd : Nat) (base scns : List Scn) (more : List (Nat × Nat))
    (nonempty : base ≠ [])
    (heads : scns.head?.map (fun scn => scn.shdr.offset) =
      base.head?.map (fun scn => scn.shdr.offset))
    (extents : scns.map Scn.extent = base.map Scn.extent ++ more) :
    let basedEnd := placedEnd headersEnd ((base.drop 1).map Scn.extent)
    scnRanges headersEnd scns =
        scnRanges headersEnd base ++ placeRanges basedEnd more ∧
      basedEnd ≤ layoutShoff headersEnd scns := by
  intro basedEnd
  cases base with
  | nil => exact absurd rfl nonempty
  | cons zero rest =>
      cases scns with
      | nil => cases extents
      | cons other others =>
          have offset : other.shdr.offset = zero.shdr.offset := Option.some.inj heads
          obtain ⟨first, later⟩ := List.cons.inj extents
          have grown : others.map Scn.extent = rest.map Scn.extent ++ more := later
          constructor
          · rw [scnRanges_cons, scnRanges_cons, offset, first, grown, placeRanges_append]
            rfl
          · have further := (placeRanges_bounds basedEnd more).1
            have rounded := roundUp_ge (placedEnd basedEnd more) 4
            have shoff : layoutShoff headersEnd (other :: others) =
                roundUp (placedEnd basedEnd more) 4 := by
              rw [layoutShoff, List.drop_one, List.tail_cons, grown, placedEnd_append]
              rfl
            omega

def packedElf (file : ElfFile) (profileScndx : Nat) (profile : List Byte) : Elf :=
  setData (elfBegin file) profileScndx (.buffer profile)

def packed (file : ElfFile) (profileScndx : Nat) (profile : List Byte) : List Range :=
  scnRanges file.headersEnd (packedElf file profileScndx profile).scns

def packedEnd (file : ElfFile) (profileScndx : Nat) (profile : List Byte) : Nat :=
  placedEnd file.headersEnd
    (((packedElf file profileScndx profile).scns.drop 1).map Scn.extent)

structure Repacked (file : ElfFile) (profileScndx : Nat) (profile : List Byte)
    (after : ElfFile) : Prop where
  headersEnd : after.headersEnd = file.headersEnd
  ranges : ∃ more, after.sections.map sectionRange =
    packed file profileScndx profile ++ placeRanges (packedEnd file profileScndx profile) more
  tableBehind : packedEnd file profileScndx profile ≤ after.eShoff
  bytes : ∀ ndx sec, ndx ≠ profileScndx → file.sections[ndx]? = some sec →
    ∃ new : Section, after.sections[ndx]? = some new ∧ new.bytes = sec.bytes

private theorem elfUpdate_ranges (file : ElfFile) (elf : Elf) (full : WrittenInFull libelf file elf) :
    (elfUpdate libelf file elf).sections.map sectionRange = scnRanges file.headersEnd elf.scns := by
  have lengths := layout_length file.headersEnd elf.scns
  apply List.ext_getElem?
  intro ndx
  rcases Nat.lt_or_ge ndx elf.scns.length with inside | outside
  · have found := List.getElem?_eq_getElem inside
    have place := List.getElem?_eq_getElem (lengths.symm ▸ inside)
    have extent := (storedSection_scn (placedShdr file elf ndx elf.scns[ndx].shdr)
      elf.scns[ndx].data.size (writtenBytes libelf file elf ndx elf.scns[ndx])
      (full ndx elf.scns[ndx] found)).1
    rw [Section.scn_size] at extent
    rw [List.getElem?_map, elfUpdate_section libelf file elf ndx _ found, Option.map_some, scnRanges,
      List.getElem?_zipWith, place, List.getElem?_map, found, Option.map_some]
    rw [sectionRange, extent, storedSection_shdr, placedShdr, place]
    rfl
  · rw [List.getElem?_eq_none (by rw [List.length_map, elfUpdate_length]; exact outside),
      List.getElem?_eq_none (by rw [scnRanges, List.length_zipWith, lengths, List.length_map]; omega)]

private theorem packedElf_shdrs (file : ElfFile) (profileScndx : Nat) (profile : List Byte) :
    (packedElf file profileScndx profile).scns.map Scn.shdr =
      file.sections.map Section.shdr := by
  have kept := map_modify_same (elfBegin file).scns profileScndx
    (fun scn => { scn with data := .buffer profile }) Scn.shdr (fun _scn _found => rfl)
  refine kept.trans ?_
  rw [elfBegin, List.map_map]
  rfl

private theorem packedElf_offsets (file : ElfFile) (profileScndx : Nat) (profile : List Byte) :
    (packedElf file profileScndx profile).scns.map (fun scn => scn.shdr.offset) =
      file.sections.map (fun sec => sec.shdr.offset) := by
  have kept := congrArg (List.map Shdr.offset) (packedElf_shdrs file profileScndx profile)
  rw [List.map_map, List.map_map] at kept
  exact kept

private theorem Repacked.of_extends (file : ElfFile) (profileScndx : Nat) (profile : List Byte)
    (elf : Elf) (more : List (Nat × Nat)) (nonempty : file.sections ≠ [])
    (full : WrittenInFull libelf file elf)
    (heads : elf.scns.head?.map (fun scn => scn.shdr.offset) =
      file.sections.head?.map (fun sec => sec.shdr.offset))
    (extents : elf.scns.map Scn.extent =
      (packedElf file profileScndx profile).scns.map Scn.extent ++ more)
    (bytes : ∀ ndx sec, ndx ≠ profileScndx → file.sections[ndx]? = some sec →
      ∃ new, (elfUpdate libelf file elf).sections[ndx]? = some new ∧ new.bytes = sec.bytes) :
    Repacked file profileScndx profile (elfUpdate libelf file elf) := by
  have offsets := packedElf_offsets file profileScndx profile
  have filled : (packedElf file profileScndx profile).scns ≠ [] := by
    intro empty
    rw [empty] at offsets
    exact nonempty (List.map_eq_nil_iff.mp offsets.symm)
  obtain ⟨ranges, behind⟩ := scnRanges_extends file.headersEnd
    (packedElf file profileScndx profile).scns elf.scns more filled
    (by rw [heads, ← List.head?_map, ← List.head?_map, offsets]) extents
  exact ⟨rfl, ⟨more, (elfUpdate_ranges libelf file elf full).trans ranges⟩, behind, bytes⟩

private theorem updateProfile_repacked (file : ElfFile) (profile : List Byte) (shstrndx ndx : Nat)
    (sec : Section) (indexed : elfGetshdrstrndx (elfBegin file) = some shstrndx)
    (found : file.sections[ndx]? = some sec) :
    ∃ after, updateProfile libelf file profile ndx = some after ∧ Repacked file ndx profile after := by
  have updated := updateProfile_updates libelf file profile shstrndx ndx sec indexed found
  rw [updateProfile_eq libelf file profile shstrndx ndx sec indexed found] at updated ⊢
  obtain ⟨_after, _new, same, others, _rest⟩ := updated
  cases same
  have packedScn : (packedElf file ndx profile).scns[ndx]? =
      some { sec.scn with data := .buffer profile } := by
    simp only [packedElf, setData, List.getElem?_modify_eq, elfBegin_scn, found]
    rfl
  have kept {α : Type} (measure : Scn → α)
      (same : measure (updatedScn profile sec) =
        measure { sec.scn with data := .buffer profile }) :
      (updatedElf file profile ndx sec).scns.map measure =
        (packedElf file ndx profile).scns.map measure := by
    apply map_modify_same
    intro scn atNdx
    cases packedScn.symm.trans atNdx
    exact same
  refine ⟨_, rfl, Repacked.of_extends libelf file ndx profile _ [] ?_
    (updatedElf_full libelf file profile ndx sec found) ?_ ?_ ?_⟩
  · intro empty
    rw [empty] at found
    cases found
  · rw [← List.head?_map, ← List.head?_map, kept (fun scn => scn.shdr.offset) rfl,
      packedElf_offsets]
  · rw [kept Scn.extent rfl, List.append_nil]
  · intro other old different atOther
    obtain ⟨new, atNew, _name, _type, bytes⟩ := others.kept other old atOther
    exact ⟨new, atNew, bytes different⟩

private theorem map_setshstrndx {α : Type} (elf after : Elf) (ndx : Nat)
    (set : setshstrndx elf ndx = some after) (measure : Scn → α)
    (free : ∀ scn link, measure { scn with shdr := { scn.shdr with link := link } } =
      measure scn) : after.scns.map measure = elf.scns.map measure := by
  obtain ⟨_reads, length, kept⟩ := setshstrndx_some elf after ndx set
  apply List.ext_getElem?
  intro other
  rw [List.getElem?_map, List.getElem?_map]
  cases found : elf.scns[other]? with
  | none =>
      rw [List.getElem?_eq_none_iff, ← length, ← List.getElem?_eq_none_iff] at found
      rw [found]
  | some scn =>
      obtain ⟨link, atAfter, _sameLink⟩ := kept other scn found
      rw [atAfter]
      exact congrArg some (free scn link)

private theorem addElfSections_repacked (file after : ElfFile) (profile : List Byte)
    (zeroNull : ∀ zero ∈ file.sections.take 1, zero.shdr.type = shtNull)
    (added : addElfSections libelf file profile = some after) :
    Repacked file 0 profile after := by
  obtain ⟨_shstrndx, _table, _indexed, _found, _fits, augmented⟩ :=
    addElfSections_augmented libelf file after profile added
  obtain ⟨shstrndx, table, elf, indexed, found, fits, set, rfl⟩ :=
    addElfSections_some libelf file after profile added
  have renamed {α : Type} (measure : Scn → α)
      (free : measure { table.scn with
        shdr := { table.shdr with name := oldShstrtabIdx table } } = measure table.scn) :
      ((elfBegin file).scns.modify shstrndx (fun scn =>
        { scn with shdr := { table.shdr with name := oldShstrtabIdx table } })).map measure =
        (elfBegin file).scns.map measure := by
    apply map_modify_same
    intro scn atTable
    rw [elfBegin_scn, found] at atTable
    cases atTable
    exact free
  have zeroExtent : (packedElf file 0 profile).scns.map Scn.extent =
      (elfBegin file).scns.map Scn.extent := by
    apply map_modify_same
    intro scn atZero
    rw [elfBegin_scn] at atZero
    obtain ⟨zero, here, rfl⟩ := Option.map_eq_some_iff.mp atZero
    have null := zeroNull zero (by
      apply List.mem_of_getElem? (i := 0)
      rw [List.getElem?_take_of_lt Nat.one_pos, here])
    have hollow : zero.scn.shdr.occupies = false := by
      unfold Shdr.occupies
      rw [show zero.scn.shdr.type = shtNull from null]
      rfl
    unfold Scn.extent
    dsimp only
    rw [hollow]
    rfl
  have extents := map_setshstrndx _ elf _ set Scn.extent (fun _scn _link => rfl)
  have offsets := map_setshstrndx _ elf _ set (fun scn => scn.shdr.offset) (fun _scn _link => rfl)
  refine Repacked.of_extends libelf file 0 profile elf
    [(1, profile.length), (1, (newShstrtab table).length)] ?_
    (augmentedElf_full libelf file profile shstrndx table elf found set) ?_ ?_ ?_
  · intro empty
    rw [empty] at found
    cases found
  · have nonempty : file.sections.map (fun sec => sec.shdr.offset) ≠ [] := by
      intro empty
      rw [List.map_eq_nil_iff.mp empty] at found
      cases found
    rw [← List.head?_map, ← List.head?_map, offsets, augmentedScns, List.append_assoc,
      List.map_append, renamed (fun scn => scn.shdr.offset) rfl, elfBegin, List.map_map]
    exact List.head?_append_of_ne_nil _ nonempty
  · rw [extents, augmentedScns, List.append_assoc, List.map_append, renamed Scn.extent rfl,
      zeroExtent]
    rfl
  · intro ndx sec _later atNdx
    obtain ⟨new, atNew, bytes, _rest⟩ := augmented.kept ndx sec atNdx
    exact ⟨new, atNew, bytes⟩

private theorem main_repacked (file after : ElfFile) (profile : List Byte) (profileScndx : Nat)
    (zeroNull : ∀ zero ∈ file.sections.take 1, zero.shdr.type = shtNull)
    (profiled : isProfiled file = some profileScndx) (ran : main libelf file profile = some after) :
    Repacked file profileScndx profile after := by
  cases indexed : elfGetshdrstrndx (elfBegin file) with
  | none =>
      simp only [isProfiled, preparation, indexed, Option.map_none] at profiled
      cases profiled
  | some shstrndx =>
      simp only [main, profiled] at ran
      by_cases absent : profileScndx = 0
      · subst absent
        exact addElfSections_repacked libelf file after profile zeroNull ran
      · obtain ⟨sec, found, _named⟩ :=
          isProfiled_positive file shstrndx profileScndx indexed profiled absent
        obtain ⟨other, updated, repacked⟩ :=
          updateProfile_repacked libelf file profile shstrndx profileScndx sec indexed found
        rw [if_pos absent, updated] at ran
        cases ran
        exact repacked

private theorem sectionByte_outside (sections : List Section) (place : Nat)
    (outside : ∀ range ∈ sections.map sectionRange, ¬ range.Has place) :
    sectionByte sections place = none := by
  apply List.findSome?_eq_none_iff.mpr
  intro sec member
  exact if_neg (outside (sectionRange sec) (List.mem_map_of_mem member))

private theorem sectionByte_inside (sections : List Section) (place ndx : Nat) (sec : Section)
    (apart : (sections.map sectionRange).Pairwise Apart) (found : sections[ndx]? = some sec)
    (inside : (sectionRange sec).Has place) :
    sectionByte sections place = sec.bytes[place - sec.shdr.offset]? := by
  induction sections generalizing ndx with
  | nil => cases found
  | cons head rest ih =>
      obtain ⟨headApart, restApart⟩ := List.pairwise_cons.mp apart
      cases ndx with
      | zero =>
          cases found
          have others : sectionByte rest place = none := by
            apply sectionByte_outside
            intro range member there
            exact headApart range member place ⟨inside, there⟩
          rw [sectionByte, List.findSome?_cons, if_pos inside]
          cases here : sec.bytes[place - sec.shdr.offset]? with
          | none => exact others
          | some byte => rfl
      | succ ndx =>
          have later : sectionRange sec ∈ rest.map sectionRange :=
            List.mem_map_of_mem (List.mem_of_getElem? found)
          have notHead : ¬ (sectionRange head).Has place :=
            fun there => headApart _ later place ⟨there, inside⟩
          rw [sectionByte, List.findSome?_cons, if_neg notHead]
          exact ih ndx restApart found

private theorem Executable.raw_section (exe : Executable) (sec : Section) (member : sec ∈ exe.sections)
    (place : Nat) (inside : (sectionRange sec).Has place) :
    ∃ byte, exe.raw[place]? = some byte ∧ sec.bytes[place - sec.shdr.offset]? = some byte := by
  simp only [Range.Has, sectionRange] at inside
  obtain ⟨above, below⟩ := inside
  have short : place - sec.shdr.offset < sec.bytes.length := by
    cases occupies : sec.shdr.occupies with
    | true =>
        rw [if_pos occupies, sec.sized occupies] at below
        omega
    | false =>
        rw [if_neg (by rw [occupies]; decide)] at below
        omega
  have same : ((exe.raw.drop sec.shdr.offset).take sec.bytes.length)[place - sec.shdr.offset]? =
      sec.bytes[place - sec.shdr.offset]? := by rw [exe.read sec member]
  rw [List.getElem?_take_of_lt short, List.getElem?_drop, Nat.add_sub_cancel' above] at same
  have read := List.getElem?_eq_getElem short
  exact ⟨_, same.trans read, read⟩

/-- Section zero takes nothing, and the others are packed behind the headers. -/
theorem packed_shape (file : ElfFile) (profileScndx : Nat) (profile : List Byte)
    (zeroNull : ∀ zero ∈ file.sections.take 1, zero.shdr.type = shtNull) :
    ∃ front, (∀ range ∈ front, range.length = 0) ∧
      packed file profileScndx profile = front ++ placeRanges file.headersEnd
        (((packedElf file profileScndx profile).scns.drop 1).map Scn.extent) := by
  have shdrs := packedElf_shdrs file profileScndx profile
  unfold packed
  cases scns : (packedElf file profileScndx profile).scns with
  | nil => exact ⟨[], fun _range member => absurd member List.not_mem_nil, rfl⟩
  | cons first others =>
      cases sections : file.sections with
      | nil =>
          rw [sections, scns] at shdrs
          cases shdrs
      | cons zero rest =>
          rw [sections, scns] at shdrs
          have same : first.shdr = zero.shdr := (List.cons.inj shdrs).1
          have null := zeroNull zero (by rw [sections]; exact List.mem_cons_self)
          have hollow : first.shdr.occupies = false := by
            unfold Shdr.occupies
            rw [same, null]
            rfl
          refine ⟨[⟨first.shdr.offset, first.extent.2⟩], ?_, scnRanges_cons _ first others⟩
          intro range member
          rw [List.mem_singleton.mp member, Scn.extent, hollow]
          rfl

private theorem pairwise_apart_empty (front ranges : List Range)
    (empty : ∀ range ∈ front, range.length = 0) (apart : ranges.Pairwise Apart) :
    (front ++ ranges).Pairwise Apart := by
  induction front with
  | nil => exact apart
  | cons range rest ih =>
      refine List.Pairwise.cons ?_ (ih (fun other later => empty other (List.mem_cons_of_mem _ later)))
      intro other _member
      exact (apart_iff _ _).mpr (Or.inl (empty range List.mem_cons_self))

theorem Repacked.apart {file after : ElfFile} {profileScndx : Nat} {profile : List Byte}
    (repacked : Repacked file profileScndx profile after)
    (zeroNull : ∀ zero ∈ file.sections.take 1, zero.shdr.type = shtNull) :
    (after.sections.map sectionRange).Pairwise Apart ∧
      ∀ range ∈ after.sections.map sectionRange, ∀ place, range.Has place →
        file.headersEnd ≤ place := by
  obtain ⟨front, empty, shape⟩ := packed_shape file profileScndx profile zeroNull
  obtain ⟨more, ranges⟩ := repacked.ranges
  rw [shape, List.append_assoc, packedEnd, ← placeRanges_append] at ranges
  rw [ranges]
  refine ⟨pairwise_apart_empty front _ empty (placeRanges_pairwise _ _), ?_⟩
  intro range member place has
  simp only [Range.Has] at has
  rcases List.mem_append.mp member with inFront | behind
  · have none_ := empty range inFront
    omega
  · have above := ((placeRanges_bounds _ _).2 range behind).1
    omega

theorem Repacked.found {file after : ElfFile} {profileScndx : Nat} {profile : List Byte}
    (repacked : Repacked file profileScndx profile after) (ndx : Nat) (range : Range)
    (packedAt : (packed file profileScndx profile)[ndx]? = some range) :
    ∃ new, after.sections[ndx]? = some new ∧ sectionRange new = range := by
  obtain ⟨more, ranges⟩ := repacked.ranges
  have inside := (List.getElem?_eq_some_iff.mp packedAt).1
  have here : (after.sections.map sectionRange)[ndx]? = some range := by
    rw [ranges, List.getElem?_append_left inside, packedAt]
  rw [List.getElem?_map] at here
  exact Option.map_eq_some_iff.mp here

/-! ### What a segment keeps -/

/-- A byte of the headers, of a section that is packed to where it is, or of a gap
filled with zeros that stays a gap. -/
inductive Settled (exe : Executable) (profileScndx : Nat) (profile : List Byte) (place : Nat) :
    Prop where
  | header (inHeaders : place < exe.headersEnd)
      (other : sectionField exe.toElfFile place = none)
  | content (ndx : Nat) (sec : Section) (different : ndx ≠ profileScndx)
      (found : exe.sections[ndx]? = some sec) (inside : (sectionRange sec).Has place)
      (unmoved : (packed exe.toElfFile profileScndx profile)[ndx]? = some (sectionRange sec))
  | gap (behindHeaders : exe.headersEnd ≤ place)
      (beforeEnd : place < packedEnd exe.toElfFile profileScndx profile)
      (outside : ∀ range ∈ packed exe.toElfFile profileScndx profile, ¬ range.Has place)
      (zero : exe.raw[place]? = some 0)

private theorem sectionField_none (file other : ElfFile) (place : Nat)
    (none_ : sectionField file place = none) : sectionField other place = none := by
  unfold sectionField at none_ ⊢
  split at none_
  · cases none_
  · split at none_
    · cases none_
    · split at none_
      · cases none_
      · rename_i shoff shnum shstrndx
        rw [if_neg shoff, if_neg shnum, if_neg shstrndx]

private theorem storedByte_settled (exe : Executable) (after : ElfFile) (profile : List Byte)
    (profileScndx place : Nat) (repacked : Repacked exe.toElfFile profileScndx profile after)
    (settled : Settled exe profileScndx profile place) :
    storedByte exe after place = exe.raw[place]? := by
  obtain ⟨apart, behind⟩ := repacked.apart exe.zeroNull
  obtain ⟨more, ranges⟩ := repacked.ranges
  have sameEnd := repacked.headersEnd
  unfold storedByte
  cases settled with
  | header inHeaders other =>
      rw [if_pos (by omega), sectionField_none _ after place other]
  | content ndx sec different found inside unmoved =>
      obtain ⟨new, atNew, placed⟩ := repacked.found ndx (sectionRange sec) unmoved
      obtain ⟨same, atSame, bytes⟩ := repacked.bytes ndx sec different found
      rw [atNew] at atSame
      cases atSame
      have place_ := behind _ (List.mem_map_of_mem (List.mem_of_getElem? atNew)) place
        (by rw [placed]; exact inside)
      rw [if_neg (by omega), sectionByte_inside after.sections place ndx new apart atNew
        (by rw [placed]; exact inside)]
      have sameOffset : new.shdr.offset = sec.shdr.offset := congrArg Range.start placed
      obtain ⟨byte, before, within⟩ :=
        exe.raw_section sec (List.mem_of_getElem? found) place inside
      rw [sameOffset, bytes, within, before]
  | gap behindHeaders beforeEnd outside zero =>
      have nowhere : sectionByte after.sections place = none := by
        apply sectionByte_outside
        intro range member has
        rw [ranges] at member
        rcases List.mem_append.mp member with old | new
        · exact outside range old has
        · have above := ((placeRanges_bounds _ more).2 range new).1
          simp only [Range.Has] at has
          omega
      have tableBehind := repacked.tableBehind
      rw [if_neg (by omega), nowhere, if_pos (by omega), zero]

/-- For the bytes of a segment that are settled and for the sections in it that are packed
to their own offset, nothing changes. -/
theorem main_keeps_settled (exe : Executable) (after : ElfFile) (profile : List Byte)
    (profileScndx : Nat) (profiled : isProfiled exe.toElfFile = some profileScndx)
    (ran : main libelf exe.toElfFile profile = some after) :
    (∀ phdr ∈ exe.phdrs, phdr.type = ptLoad → ∀ place, phdr.range.Has place →
      Settled exe profileScndx profile place →
        storedImage exe after place = exe.raw[place]?) ∧
      ∀ phdr ∈ exe.phdrs, ∀ (ndx : Nat) (sec : Section), exe.sections[ndx]? = some sec →
        Inside sec phdr →
          (packed exe.toElfFile profileScndx profile)[ndx]?.map Range.start =
            some sec.shdr.offset →
          ∃ new : Section, after.sections[ndx]? = some new ∧
            new.shdr.offset = sec.shdr.offset := by
  have repacked := main_repacked libelf exe.toElfFile after profile profileScndx exe.zeroNull profiled ran
  constructor
  · intro _phdr _listed _load place _has settled
    unfold storedImage
    split
    · rfl
    · exact storedByte_settled exe after profile profileScndx place repacked settled
  · intro _phdr _listed ndx sec found _inside unmoved
    obtain ⟨range, packedAt, start⟩ := Option.map_eq_some_iff.mp unmoved
    obtain ⟨new, atNdx, same⟩ := repacked.found ndx range packedAt
    refine ⟨new, atNdx, ?_⟩
    rw [← start, ← same]
    rfl

def word (value : Nat) : List Byte := (List.range 4).map (leByte value)

def sampleHeaders (eShoff filesz : Nat) : List Byte :=
  [127, 69, 76, 70, 1, 1, 1, 0, 0, 0, 0, 0, 0, 0, 0, 0, 2, 0, 40, 0] ++
    [1, 0x10054, 52, eShoff, 0x5000200].flatMap word ++ [52, 0, 32, 0, 1, 0, 40, 0, 3, 0, 2, 0] ++
    [ptLoad, 0, 0x10000, 0x10000, filesz, filesz, 5, 0x1000].flatMap word

def sampleSections (text : Nat) : List Section :=
  [storedSection emptyShdr 0 [],
    storedSection
      { emptyShdr with
        name := 1, type := shtProgbits, flags := 6, addr := 0x10000 + text, offset := text
        addralign := 4 } 4 [1, 2, 3, 4],
    storedSection { emptyShdr with name := 4, type := shtStrtab, offset := text + 4, addralign := 1 }
      7 [0, 46, 116, 0, 46, 115, 0]]

def sampleBytes (text : Nat) : List Byte :=
  sampleHeaders (text + 12) (text + 4) ++ List.replicate (text - 84) 0 ++
    (sampleSections text).flatMap Section.bytes ++ [0] ++
    (sampleSections text).flatMap (fun sec => (shdrWords sec.shdr).flatMap word)

def sampleElf (text : Nat) : ElfFile :=
  { eShstrndx := 2, headersEnd := 84, eShoff := text + 12, sections := sampleSections text }

def denseExecutable : Executable :=
  { sampleElf 84 with
    phdrs := [⟨ptLoad, 0, 88⟩]
    raw := sampleBytes 84
    headed := Nat.le_add_right 52 32
    fields := by decide
    read := by decide
    zeroNull := by decide }

def gapExecutable : Executable :=
  { sampleElf 128 with
    phdrs := [⟨ptLoad, 0, 132⟩]
    raw := sampleBytes 128
    headed := Nat.le_add_right 52 32
    fields := by decide
    read := by decide
    zeroNull := by decide }

theorem main_keeps_settled_dense :
    ∃ after, main sampleLibelf denseExecutable.toElfFile [9] = some after ∧
      storedImage denseExecutable after 84 = some 1 ∧
      ∃ new : Section, after.sections[1]? = some new ∧ new.shdr.offset = 84 := by
  refine ⟨_, rfl, ?_⟩
  obtain ⟨bytes, offsets⟩ := main_keeps_settled sampleLibelf denseExecutable _ [9] 0 (by decide) rfl
  constructor
  · exact bytes ⟨ptLoad, 0, 88⟩ (by decide) rfl 84 (by decide)
      (.content 1 _ (by decide) rfl (by decide) (by decide))
  · exact offsets ⟨ptLoad, 0, 88⟩ (by decide) 1 _ rfl ⟨by decide, by decide⟩ (by decide)

/-- A segment that covers the ELF header reads another number of sections, and a gap
between the headers and the sections is closed. -/
theorem main_not_loadsSame :
    (∃ after, main sampleLibelf denseExecutable.toElfFile [9] = some after ∧
      ¬ LoadsSame denseExecutable after) ∧
      ∃ after, main sampleLibelf gapExecutable.toElfFile [9] = some after ∧
        ¬ LoadsSame gapExecutable after := by
  refine ⟨⟨_, rfl, ?_⟩, _, rfl, ?_⟩
  · intro same
    exact absurd (same.bytes ⟨ptLoad, 0, 88⟩ (by decide) rfl 48 (by decide)) (by decide)
  · intro same
    obtain ⟨new, atText, offset⟩ :=
      same.offsets ⟨ptLoad, 0, 132⟩ (by decide) 1 _ rfl ⟨by decide, by decide⟩
    cases atText
    exact absurd offset (by decide)

end BlackboxProfiling.ElfManipulator
