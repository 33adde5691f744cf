import BlackboxProfiling.ByteRanges
import BlackboxProfiling.Elf.ElfManipulator

/-!
`elfie.c`: puts a profile into a new section `.profile` with the layout flagged as
its own business. The name table grows where it is, the new section goes behind
the section with the greatest offset and the header table moves up by what was
added, each without a look at what else is there.
-/

namespace BlackboxProfiling.Elfie

open Libelf ElfManipulator ByteRanges

/-- A file with the extents of its three header parts. -/
structure ElfImage extends ElfFile where
  ehsize : Nat
  phoff : Nat
  phentsize : Nat
  phnum : Nat
  shentsize : Nat
  headed : 0 < ehsize
  entries : 0 < shentsize

def sectionRange (sec : Section) : Range :=
  ⟨sec.shdr.offset, if sec.shdr.occupies then sec.shdr.size else 0⟩

def ElfImage.elfHeader (file : ElfImage) : Range := ⟨0, file.ehsize⟩

def ElfImage.programHeaders (file : ElfImage) : Range := ⟨file.phoff, file.phentsize * file.phnum⟩

def ElfImage.headerTable (file : ElfImage) : Range :=
  ⟨file.eShoff, file.shentsize * file.sections.length⟩

def ElfImage.parts (file : ElfImage) : List Range :=
  file.headerTable :: file.elfHeader :: file.programHeaders :: file.sections.map sectionRange

def ElfImage.PartsApart (file : ElfImage) : Prop := file.parts.Pairwise Apart

instance (file : ElfImage) : Decidable file.PartsApart :=
  inferInstanceAs (Decidable (List.Pairwise Apart file.parts))

def mallocMax : Nat := 0x7fffffff

/-- The count in the header, which is zero when it does not fit. -/
def eShnum (file : ElfFile) : Nat :=
  if file.sections.length < shnLoreserve then file.sections.length else 0

def readProfileFile (profile : List Byte) : Option (List Byte × Nat) :=
  if mallocMax < profile.length then none else some (profile, profile.length)

def flagData (elf : Elf) (ndx : Nat) : Elf :=
  { elf with scns := elf.scns.modify ndx (fun scn => { scn with dirty := true }) }

/-- A table without contents is copied from a null pointer. -/
def addSectionName (elf : Elf) (newSectionName : List Byte) : Option (Elf × Nat) :=
  match elfGetshdrstrndx elf with
  | none => none
  | some shstrndx =>
      match elfGetscn elf shstrndx with
      | none => none
      | some shstrtabScn =>
          let shstrtabData := shstrtabScn.data
          let nameOffset := shstrtabData.size
          let newShstrtabSize := shstrtabData.size + newSectionName.length + 1
          if mallocMax < newShstrtabSize then none
          else if shstrtabData.bytes.length < shstrtabData.size then none
          else
            let newShstrtabBuf := shstrtabData.bytes ++ (newSectionName ++ [0])
            let elf := flagData (setData elf shstrndx (.buffer newShstrtabBuf)) shstrndx
            let elf := gelfUpdateShdr elf shstrndx { shstrtabScn.shdr with size := newShstrtabSize }
            some (elf, nameOffset)

def lastSection : List Scn → Nat → Nat → Nat × Nat
  | [], lastSecOff, lastSecSize => (lastSecOff, lastSecSize)
  | scn :: rest, lastSecOff, lastSecSize =>
      if lastSecOff < scn.shdr.offset then lastSection rest scn.shdr.offset scn.shdr.size
      else lastSection rest lastSecOff lastSecSize

/-- `unset` is what `last_sec_size` holds before it is assigned; the sum is a
`size_t` of the 32-bit target. -/
def computeSectionOffset (unset shdrnum : Nat) (elf : Elf) : Nat :=
  let last := lastSection (elf.scns.take shdrnum) 0 unset
  (last.1 + last.2) % 0x100000000

def addSectionPayload (elf : Elf) (profileContent : List Byte) : Elf × Nat :=
  let ndx := elf.scns.length
  (setData (elfNewscn elf) ndx (.buffer profileContent), ndx)

def updateSectionHeader (elf : Elf) (ndx profileLength nameOffset sectionOffset : Nat) : Elf :=
  gelfUpdateShdr elf ndx
    { emptyShdr with
      type := shtProgbits, flags := 0, addr := 0, link := shnUndef, info := shnUndef, addralign := 1
      entsize := 0, size := profileLength, name := nameOffset, offset := sectionOffset }

/-- An offset that does not fit the header is refused. -/
def adjustSecTableOffset (eShoff extraOffset : Nat) : Option Nat :=
  let moved := eShoff + (extraOffset + profileName.length + 1)
  if 0x100000000 ≤ moved then none else some moved

def described (file : ElfImage) (elf : Elf) (eShoff : Nat) : ElfImage :=
  { file with
    eShoff := eShoff
    sections := elf.scns.map (fun scn => storedSection scn.shdr scn.data.size scn.data.bytes) }

/-- What `add_profile_section` has made of the descriptor before it commits it. -/
def laidOut (unset : Nat) (file : ElfImage) (profile : List Byte) : Option ElfImage :=
  match readProfileFile profile with
  | none => none
  | some (profileContent, profileLength) =>
      match addSectionName (elfBegin file.toElfFile) profileName with
      | none => none
      | some (elf, nameOffset) =>
          let sectionOffset := computeSectionOffset unset (eShnum file.toElfFile) elf
          let (elf, newSection) := addSectionPayload elf profileContent
          let elf := updateSectionHeader elf newSection profileLength nameOffset sectionOffset
          (adjustSecTableOffset file.eShoff profileLength).map (described file elf)

/-- `elf_update` under `ELF_F_LAYOUT`, by what a reader then finds. Every part is written
at its own place, so a section that shares no byte with another part is found as it was
asked for once the headers are; what is left of parts that share bytes depends on the
order of the writes, which is libelf's. -/
structure LayoutUpdate where
  write : ElfImage → ElfImage → ElfImage
  headers : ∀ old asked, Alone asked.parts 0 → Alone asked.parts 1 →
    (write old asked).eShstrndx = asked.eShstrndx ∧
      (write old asked).sections.map Section.shdr = asked.sections.map Section.shdr
  faithful : ∀ old asked, Alone asked.parts 0 → Alone asked.parts 1 →
    ∀ ndx, Alone asked.parts (ndx + 3) →
      (write old asked).sections[ndx]? = asked.sections[ndx]?

def addProfileSection (update : LayoutUpdate) (unset : Nat) (file : ElfImage)
    (profile : List Byte) : Option ElfImage :=
  (laidOut unset file profile).map (update.write file)

def IsLast (scns : List Scn) (ndx : Nat) (scn : Scn) : Prop :=
  scns[ndx]? = some scn ∧
  ∀ other otherScn, scns[other]? = some otherScn →
    otherScn.shdr.offset ≤ scn.shdr.offset ∧
      (other < ndx → otherScn.shdr.offset < scn.shdr.offset)

theorem lastSection_cases (scns : List Scn) (lastSecOff lastSecSize : Nat) :
    ((∀ scn ∈ scns, scn.shdr.offset ≤ lastSecOff) ∧
      lastSection scns lastSecOff lastSecSize = (lastSecOff, lastSecSize)) ∨
    ∃ ndx scn, IsLast scns ndx scn ∧ lastSecOff < scn.shdr.offset ∧
      lastSection scns lastSecOff lastSecSize = (scn.shdr.offset, scn.shdr.size) := by
  induction scns generalizing lastSecOff lastSecSize with
  | nil => exact Or.inl ⟨fun _scn member => absurd member List.not_mem_nil, rfl⟩
  | cons head rest ih =>
      simp only [lastSection]
      split
      · rename_i further
        right
        rcases ih head.shdr.offset head.shdr.size with ⟨below, same⟩ | ⟨ndx, scn, last, above, same⟩
        · refine ⟨0, head, ⟨rfl, ?_⟩, further, same⟩
          intro other otherScn atOther
          refine ⟨?_, fun before => absurd before (Nat.not_lt_zero other)⟩
          rcases List.mem_cons.mp (List.mem_of_getElem? atOther) with rfl | later
          · exact Nat.le_refl _
          · exact below otherScn later
        · refine ⟨ndx + 1, scn, ⟨last.1, ?_⟩, Nat.lt_trans further above, same⟩
          intro other otherScn atOther
          cases other with
          | zero =>
              cases atOther
              exact ⟨Nat.le_of_lt above, fun _before => above⟩
          | succ other =>
              obtain ⟨atMost, strictly⟩ := last.2 other otherScn atOther
              exact ⟨atMost, fun before => strictly (Nat.lt_of_succ_lt_succ before)⟩
      · rename_i notFurther
        rcases ih lastSecOff lastSecSize with ⟨below, same⟩ | ⟨ndx, scn, last, above, same⟩
        · refine Or.inl ⟨?_, same⟩
          intro scn member
          rcases List.mem_cons.mp member with rfl | later
          · omega
          · exact below scn later
        · refine Or.inr ⟨ndx + 1, scn, ⟨last.1, ?_⟩, above, same⟩
          intro other otherScn atOther
          cases other with
          | zero =>
              cases atOther
              omega
          | succ other =>
              obtain ⟨atMost, strictly⟩ := last.2 other otherScn atOther
              exact ⟨atMost, fun before => strictly (Nat.lt_of_succ_lt_succ before)⟩

theorem IsLast.unique (scns : List Scn) (left right : Nat) (leftScn rightScn : Scn)
    (leftLast : IsLast scns left leftScn) (rightLast : IsLast scns right rightScn) :
    left = right ∧ leftScn = rightScn := by
  have leftRight := leftLast.2 right rightScn rightLast.1
  have rightLeft := rightLast.2 left leftScn leftLast.1
  have same : left = right := by omega
  refine ⟨same, ?_⟩
  have atLeft := leftLast.1
  rw [same, rightLast.1] at atLeft
  exact (Option.some.inj atLeft).symm

/-- Either no section lies behind the start of the file and the uninitialised value
is taken, or the offset is the end of the last section. -/
theorem computeSectionOffset_cases (unset shdrnum : Nat) (elf : Elf) :
    ((∀ scn ∈ elf.scns.take shdrnum, scn.shdr.offset = 0) ∧
      computeSectionOffset unset shdrnum elf = unset % 0x100000000) ∨
    ∃ ndx scn, IsLast (elf.scns.take shdrnum) ndx scn ∧ 0 < scn.shdr.offset ∧
      computeSectionOffset unset shdrnum elf =
        (scn.shdr.offset + scn.shdr.size) % 0x100000000 := by
  rcases lastSection_cases (elf.scns.take shdrnum) 0 unset with ⟨below, same⟩ |
    ⟨ndx, scn, last, above, same⟩
  · refine Or.inl ⟨fun scn member => Nat.le_zero.mp (below scn member), ?_⟩
    simp only [computeSectionOffset, same, Nat.zero_add]
  · refine Or.inr ⟨ndx, scn, last, above, ?_⟩
    simp only [computeSectionOffset, same]

def grownShstrtab (table : Section) : List Byte := table.bytes ++ (profileName ++ [0])

theorem grownShstrtab_length (table : Section) :
    (grownShstrtab table).length = table.bytes.length + 9 := by
  simp only [grownShstrtab, List.length_append, List.length_singleton]
  rfl

def grownTable (table : Section) : Section :=
  storedSection { table.shdr with size := (grownShstrtab table).length } (grownShstrtab table).length
    (grownShstrtab table)

def profileShdr (table : Section) (profile : List Byte) (sectionOffset : Nat) : Shdr :=
  { emptyShdr with
    type := shtProgbits, addralign := 1, size := profile.length, name := table.bytes.length
    offset := sectionOffset }

def profileSection (table : Section) (profile : List Byte) (sectionOffset : Nat) : Section :=
  storedSection (profileShdr table profile sectionOffset) profile.length profile

def namedElf (file : ElfFile) (shstrndx : Nat) (table : Section) : Elf :=
  { eShstrndx := file.eShstrndx
    scns := (elfBegin file).scns.set shstrndx
      { shdr := { table.shdr with size := (grownShstrtab table).length }
        data := .buffer (grownShstrtab table)
        dirty := true } }

private theorem Section.eq_of (left right : Section) (shdr : left.shdr = right.shdr)
    (bytes : left.bytes = right.bytes) : left = right := by
  obtain ⟨leftShdr, leftBytes, _leftSized, _leftHollow⟩ := left
  obtain ⟨rightShdr, rightBytes, _rightSized, _rightHollow⟩ := right
  cases shdr
  cases bytes
  rfl

theorem storedSection_self (sec : Section) :
    storedSection sec.shdr sec.scn.data.size sec.scn.data.bytes = sec := by
  obtain ⟨shdr, bytes⟩ := storedSection_own sec sec.shdr rfl rfl
  exact Section.eq_of _ _ shdr bytes

private theorem addSectionName_eq (file : ElfFile) (shstrndx : Nat) (table : Section)
    (indexed : elfGetshdrstrndx (elfBegin file) = some shstrndx)
    (found : file.sections[shstrndx]? = some table) (strtab : table.shdr.type = shtStrtab)
    (fits : (grownShstrtab table).length ≤ mallocMax) :
    addSectionName (elfBegin file) profileName =
      some (namedElf file shstrndx table, table.bytes.length) := by
  have full := table.sized (strtab_occupies table strtab)
  have length := grownShstrtab_length table
  have nine : table.bytes.length + profileName.length + 1 = (grownShstrtab table).length := by
    rw [length]
    rfl
  simp only [addSectionName, indexed, elfGetscn, elfBegin_scn, found, Option.map_some,
    table.scn_bytes, table.scn_size, full, nine]
  rw [if_neg (by omega), if_neg (Nat.lt_irrefl _)]
  simp only [flagData, setData, gelfUpdateShdr, List.modify_modify_eq]
  congr 2
  rw [namedElf]
  congr 1
  rw [List.modify_eq_set_getElem?, elfBegin_scn, found]
  rfl

private theorem namedElf_sections (file : ElfFile) (shstrndx : Nat) (table : Section) :
    (namedElf file shstrndx table).scns.map
        (fun scn => storedSection scn.shdr scn.data.size scn.data.bytes) =
      file.sections.set shstrndx (grownTable table) := by
  have kept : (elfBegin file).scns.map
      (fun scn => storedSection scn.shdr scn.data.size scn.data.bytes) = file.sections := by
    rw [elfBegin, List.map_map]
    conv_rhs => rw [← List.map_id file.sections]
    exact List.map_congr_left (fun sec _member => storedSection_self sec)
  rw [namedElf, List.map_set, kept]
  rfl

def augmented (unset : Nat) (file : ElfImage) (profile : List Byte) (shstrndx : Nat)
    (table : Section) : ElfImage :=
  { file with
    eShoff := file.eShoff + (profile.length + 9)
    sections := file.sections.set shstrndx (grownTable table) ++
      [profileSection table profile
        (computeSectionOffset unset (eShnum file.toElfFile) (namedElf file.toElfFile shstrndx table))] }

structure Succeeds (file : ElfImage) (profile : List Byte) (shstrndx : Nat) (table : Section) :
    Prop where
  indexed : elfGetshdrstrndx (elfBegin file.toElfFile) = some shstrndx
  found : file.sections[shstrndx]? = some table
  strtab : table.shdr.type = shtStrtab
  readable : profile.length ≤ mallocMax
  fits : (grownShstrtab table).length ≤ mallocMax
  moved : file.eShoff + (profile.length + 9) < 0x100000000

theorem laidOut_eq (unset : Nat) (file : ElfImage) (profile : List Byte) (shstrndx : Nat)
    (table : Section) (succeeds : Succeeds file profile shstrndx table) :
    laidOut unset file profile = some (augmented unset file profile shstrndx table) := by
  have moved : adjustSecTableOffset file.eShoff profile.length =
      some (file.eShoff + (profile.length + 9)) :=
    if_neg (Nat.not_le.mpr succeeds.moved)
  have scns : (namedElf file.toElfFile shstrndx table).scns.length = file.sections.length := by
    rw [namedElf, List.length_set]
    exact List.length_map _
  simp only [laidOut, readProfileFile, if_neg (Nat.not_lt.mpr succeeds.readable),
    addSectionName_eq file.toElfFile shstrndx table succeeds.indexed succeeds.found succeeds.strtab
      succeeds.fits, moved, Option.map_some, addSectionPayload, updateSectionHeader, elfNewscn,
    setData, gelfUpdateShdr, modify_concat]
  congr 1
  simp only [described, augmented]
  congr 1
  rw [List.map_append, namedElf_sections]
  rfl

end BlackboxProfiling.Elfie
