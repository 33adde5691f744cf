import BlackboxProfiling.Elf.Libelf

/-!
`elf_manipulator.c`: `main` puts a profile into the section `.profile` of an ELF
file, which it adds behind the others when there is none. Adding it takes a new
name table with two more names. A run that exits or crashes has no result and
leaves the file alone; profile files are fully readable.
-/

namespace BlackboxProfiling.ElfManipulator

open Libelf NulTable

variable (libelf : ElfUpdate)

def profileName : List Byte := [46, 112, 114, 111, 102, 105, 108, 101]

def oldShstrtabName : List Byte :=
  [46, 111, 108, 100, 95, 115, 104, 115, 116, 114, 116, 97, 98]

def readFile (profile : List Byte) : List Byte × Nat := (profile, profile.length)

def preparation (file : ElfFile) : Option (Elf × Nat) :=
  (elfGetshdrstrndx (elfBegin file)).map (fun shstrndx => (elfBegin file, shstrndx))

/-- The loop over the sections; a name that does not resolve is dereferenced. -/
def isProfiledLoop (elf : Elf) (shstrndx : Nat) : Nat → List Scn → Option Nat
  | _ndx, [] => some 0
  | ndx, scn :: rest =>
      match elfStrptr elf shstrndx scn.shdr.name with
      | none => none
      | some name =>
          if name = profileName then some ndx else isProfiledLoop elf shstrndx (ndx + 1) rest

/-- The index of the first section named `.profile`, zero when there is none. It is read
from a descriptor that has been ended, which is taken to hold it still. -/
def isProfiled (file : ElfFile) : Option Nat :=
  match preparation file with
  | none => none
  | some (elf, shstrndx) => isProfiledLoop elf shstrndx 1 (elf.scns.drop 1)

def updateProfile (file : ElfFile) (profile : List Byte) (profileScndx : Nat) : Option ElfFile :=
  match preparation file with
  | none => none
  | some (elf, _shstrndx) =>
      match elfGetscn elf profileScndx with
      | none => none
      | some profileScn =>
          let (buf, bufsz) := readFile profile
          let elf := setData elf profileScndx (.buffer buf)
          let elf := gelfUpdateShdr elf profileScndx { profileScn.shdr with size := bufsz }
          some (elfUpdate libelf file elf)

/-- An index that does not fit the header goes to section zero. -/
def setshstrndx (elf : Elf) (ndx : Nat) : Option Elf :=
  if ndx < shnLoreserve then some { elf with eShstrndx := ndx }
  else
    match elfGetscn elf 0 with
    | none => none
    | some zscn =>
        some { gelfUpdateShdr elf 0 { zscn.shdr with link := ndx } with eShstrndx := shnXindex }

def newShdr (type name size : Nat) : Shdr :=
  { emptyShdr with
    type := type, flags := 0, addr := 0, link := shnUndef, info := shnUndef, addralign := 1
    entsize := 0, size := size, name := name }

def appendSection (elf : Elf) (type name : Nat) (buf : List Byte) (size : Nat) : Elf :=
  let ndx := elf.scns.length
  gelfUpdateShdr (setData (elfNewscn elf) ndx (.buffer buf)) ndx (newShdr type name size)

/-- A name table of 4 GiB or more does not fit the address space of the target. A
table without contents is copied from a null pointer. -/
def addElfSections (file : ElfFile) (profile : List Byte) : Option ElfFile :=
  match preparation file with
  | none => none
  | some (elf, shstrndx) =>
      match elfGetscn elf shstrndx with
      | none => none
      | some shstrtabScn =>
          let shstrtabData := shstrtabScn.data
          let newShstrtabSize :=
            shstrtabData.size + profileName.length + 1 + oldShstrtabName.length + 1
          if 0x100000000 ≤ newShstrtabSize then none
          else if shstrtabData.bytes.length < shstrtabData.size then none
          else
            let newShstrtabBuf :=
              shstrtabData.bytes ++ (profileName ++ 0 :: (oldShstrtabName ++ [0]))
            let extraIdx := shstrtabData.size
            let oldShstrtabIdx := extraIdx + profileName.length + 1
            let shstrtabIdx := shstrtabScn.shdr.name
            let elf :=
              gelfUpdateShdr elf shstrndx { shstrtabScn.shdr with name := oldShstrtabIdx }
            let (buf, secSize) := readFile profile
            let elf := appendSection elf shtProgbits extraIdx buf secSize
            let newShstrndx := elf.scns.length
            let elf := appendSection elf shtStrtab shstrtabIdx newShstrtabBuf newShstrtabSize
            (setshstrndx elf newShstrndx).map (elfUpdate libelf file)

def main (file : ElfFile) (profile : List Byte) : Option ElfFile :=
  match isProfiled file with
  | none => none
  | some profileScndx =>
      if profileScndx ≠ 0 then updateProfile libelf file profile profileScndx
      else addElfSections libelf file profile

def sectionName (file : ElfFile) (ndx : Nat) : Option (List Byte) :=
  match elfGetshdrstrndx (elfBegin file), file.sections[ndx]? with
  | some shstrndx, some sec => elfStrptr (elfBegin file) shstrndx sec.shdr.name
  | _, _ => none

theorem sectionName_eq (file : ElfFile) (shstrndx ndx : Nat) (table sec : Section)
    (indexed : elfGetshdrstrndx (elfBegin file) = some shstrndx)
    (found : file.sections[shstrndx]? = some table) (strtab : table.shdr.type = shtStrtab)
    (atNdx : file.sections[ndx]? = some sec) :
    sectionName file ndx = stringAt 0 table.bytes sec.shdr.name := by
  unfold sectionName
  rw [indexed, atNdx]
  dsimp only
  rw [elfStrptr_table file shstrndx sec.shdr.name table found, if_pos strtab]

theorem sectionName_absent (file : ElfFile) (ndx : Nat) (outside : file.sections.length ≤ ndx) :
    sectionName file ndx = none := by
  unfold sectionName
  rw [List.getElem?_eq_none outside]
  split
  · rename_i absurd_
    cases absurd_
  · rfl

def newShstrtab (table : Section) : List Byte :=
  table.bytes ++ (profileName ++ 0 :: (oldShstrtabName ++ [0]))

def oldShstrtabIdx (table : Section) : Nat := table.bytes.length + profileName.length + 1

private theorem newShstrtab_length (table : Section) :
    (newShstrtab table).length =
      table.bytes.length + profileName.length + 1 + oldShstrtabName.length + 1 := by
  simp only [newShstrtab, List.length_append, List.length_cons, List.length_nil]
  omega

theorem newShstrtab_profile (table : Section) :
    stringAt 0 (newShstrtab table) table.bytes.length = some profileName :=
  stringAt_end 0 table.bytes profileName (oldShstrtabName ++ [0]) (by decide)

private theorem newShstrtab_oldShstrtab (table : Section) :
    stringAt 0 (newShstrtab table) (oldShstrtabIdx table) = some oldShstrtabName := by
  have split : newShstrtab table =
      (table.bytes ++ profileName ++ [0]) ++ (oldShstrtabName ++ 0 :: []) := by
    simp only [newShstrtab, List.append_assoc, List.singleton_append]
  have here : oldShstrtabIdx table = (table.bytes ++ profileName ++ [0]).length := by
    simp only [oldShstrtabIdx, List.length_append, List.length_singleton]
  rw [split, here]
  exact stringAt_end 0 _ oldShstrtabName [] (by decide)

private theorem appendSection_eq (elf : Elf) (type name : Nat) (buf : List Byte) (size : Nat) :
    appendSection elf type name buf size =
      { elf with
        scns := elf.scns ++
          [{ shdr := newShdr type name size, data := .buffer buf, dirty := true }] } := by
  simp only [appendSection, elfNewscn, setData, gelfUpdateShdr, modify_concat]

def augmentedScns (file : ElfFile) (profile : List Byte) (shstrndx : Nat) (table : Section) :
    List Scn :=
  (elfBegin file).scns.modify shstrndx
      (fun scn => { scn with shdr := { table.shdr with name := oldShstrtabIdx table } }) ++
    [{ shdr := newShdr shtProgbits table.bytes.length profile.length
       data := .buffer profile
       dirty := true }] ++
    [{ shdr := newShdr shtStrtab table.shdr.name (newShstrtab table).length
       data := .buffer (newShstrtab table)
       dirty := true }]

private theorem addElfSections_eq (file : ElfFile) (profile : List Byte) (shstrndx : Nat)
    (table : Section) (indexed : elfGetshdrstrndx (elfBegin file) = some shstrndx)
    (found : file.sections[shstrndx]? = some table)
    (fits : (newShstrtab table).length < 0x100000000)
    (complete : table.shdr.size = table.bytes.length) :
    addElfSections libelf file profile =
      (setshstrndx ⟨file.eShstrndx, augmentedScns file profile shstrndx table⟩
        (file.sections.length + 1)).map (elfUpdate libelf file) := by
  have scns : (elfBegin file).scns.length = file.sections.length := List.length_map _
  have size := newShstrtab_length table
  simp only [addElfSections, preparation, indexed, Option.map_some, elfGetscn, elfBegin_scn, found,
    table.scn_bytes, table.scn_size, complete, appendSection_eq, gelfUpdateShdr, readFile]
  rw [if_neg (by omega), if_neg (Nat.lt_irrefl _), ← size, List.length_append, List.length_modify,
    scns, List.length_singleton]
  rfl

theorem addElfSections_some (file after : ElfFile) (profile : List Byte)
    (added : addElfSections libelf file profile = some after) :
    ∃ shstrndx table elf, elfGetshdrstrndx (elfBegin file) = some shstrndx ∧
      file.sections[shstrndx]? = some table ∧ (newShstrtab table).length < 0x100000000 ∧
      setshstrndx ⟨file.eShstrndx, augmentedScns file profile shstrndx table⟩
        (file.sections.length + 1) = some elf ∧
      after = elfUpdate libelf file elf := by
  cases indexed : elfGetshdrstrndx (elfBegin file) with
  | none =>
      simp only [addElfSections, preparation, indexed, Option.map_none] at added
      cases added
  | some shstrndx =>
      cases found : file.sections[shstrndx]? with
      | none =>
          simp only [addElfSections, preparation, indexed, Option.map_some, elfGetscn, elfBegin_scn,
            found, Option.map_none] at added
          cases added
      | some table =>
          have size := newShstrtab_length table
          have room : (newShstrtab table).length < 0x100000000 ∧
              table.shdr.size = table.bytes.length := by
            simp only [addElfSections, preparation, indexed, Option.map_some, elfGetscn, elfBegin_scn,
              found, table.scn_bytes, table.scn_size] at added
            split at added
            · cases added
            · split at added
              · cases added
              · rename_i fits complete
                cases occupies : table.shdr.occupies with
                | true =>
                    have sized := table.sized occupies
                    omega
                | false =>
                    have hollow := congrArg List.length (table.hollow occupies)
                    rw [List.length_nil] at hollow
                    omega
          rw [addElfSections_eq libelf file profile shstrndx table indexed found room.1 room.2] at added
          obtain ⟨elf, set, same⟩ := Option.map_eq_some_iff.mp added
          exact ⟨shstrndx, table, elf, rfl, found, room.1, set, same.symm⟩

/-- The index reads back, and of the sections only the link of section zero may change. -/
theorem setshstrndx_some (elf after : Elf) (ndx : Nat) (set : setshstrndx elf ndx = some after) :
    elfGetshdrstrndx after = some ndx ∧ after.scns.length = elf.scns.length ∧
      ∀ other scn, elf.scns[other]? = some scn →
        ∃ link, after.scns[other]? = some { scn with shdr := { scn.shdr with link := link } } ∧
          (0 < other → link = scn.shdr.link) := by
  unfold setshstrndx at set
  split at set
  · rename_i small
    cases set
    refine ⟨?_, rfl, fun other scn found => ⟨scn.shdr.link, found, fun _later => rfl⟩⟩
    have ordinary : ndx ≠ shnXindex := by
      simp only [shnLoreserve, shnXindex] at *
      omega
    exact if_neg ordinary
  · split at set
    · cases set
    · rename_i zscn zero
      cases set
      have atZero : elf.scns[0]? = some zscn := zero
      refine ⟨?_, List.length_modify _ _ _, ?_⟩
      · simp only [elfGetshdrstrndx, gelfUpdateShdr, if_true, List.getElem?_modify, atZero]
        rfl
      · intro other scn found
        by_cases first : other = 0
        · subst first
          rw [atZero] at found
          cases found
          refine ⟨ndx, ?_, fun later => absurd later (Nat.lt_irrefl 0)⟩
          simp only [gelfUpdateShdr, List.getElem?_modify, atZero]
          rfl
        · refine ⟨scn.shdr.link, ?_, fun _later => rfl⟩
          simp only [gelfUpdateShdr, List.getElem?_modify_ne _ _ (Ne.symm first), found]

private theorem setshstrndx_isSome (elf : Elf) (ndx : Nat) (scn : Scn)
    (zero : elf.scns[0]? = some scn) :
    ∃ after, setshstrndx elf ndx = some after := by
  unfold setshstrndx elfGetscn
  rw [zero]
  split
  · exact ⟨_, rfl⟩
  · exact ⟨_, rfl⟩

structure Augmented (file after : ElfFile) (profile : List Byte) (shstrndx : Nat)
    (table : Section) : Prop where
  length : after.sections.length = file.sections.length + 2
  indexed : elfGetshdrstrndx (elfBegin after) = some (file.sections.length + 1)
  canonical : after.canonical = true
  kept : ∀ ndx sec, file.sections[ndx]? = some sec → ∃ new, after.sections[ndx]? = some new ∧
    new.bytes = sec.bytes ∧
    new.shdr.name = (if ndx = shstrndx then oldShstrtabIdx table else sec.shdr.name) ∧
    (0 < ndx →
      new.shdr = { sec.shdr with name := new.shdr.name, offset := new.shdr.offset })
  profileAdded : ∃ new, after.sections[file.sections.length]? = some new ∧
    new.shdr.name = table.bytes.length ∧ new.shdr.type = shtProgbits ∧ new.bytes = profile
  tableAdded : ∃ new, after.sections[file.sections.length + 1]? = some new ∧
    new.shdr.name = table.shdr.name ∧ new.shdr.type = shtStrtab ∧ new.bytes = newShstrtab table

private theorem augmentedScns_length (file : ElfFile) (profile : List Byte) (shstrndx : Nat)
    (table : Section) :
    (augmentedScns file profile shstrndx table).length = file.sections.length + 2 := by
  simp only [augmentedScns, elfBegin, List.length_append, List.length_modify, List.length_map,
    List.length_singleton]

private theorem augmentedScns_old (file : ElfFile) (profile : List Byte) (shstrndx ndx : Nat)
    (table sec : Section) (found : file.sections[shstrndx]? = some table)
    (atNdx : file.sections[ndx]? = some sec) :
    (augmentedScns file profile shstrndx table)[ndx]? = some
      { sec.scn with
        shdr :=
          { sec.shdr with
            name := if ndx = shstrndx then oldShstrtabIdx table else sec.shdr.name } } := by
  have inside : ndx < file.sections.length := (List.getElem?_eq_some_iff.mp atNdx).1
  have scns : (elfBegin file).scns.length = file.sections.length := List.length_map _
  rw [augmentedScns, List.append_assoc,
    List.getElem?_append_left (by rw [List.length_modify, scns]; exact inside)]
  rw [List.getElem?_modify, elfBegin_scn, atNdx]
  by_cases here : ndx = shstrndx
  · subst here
    rw [found] at atNdx
    cases atNdx
    simp only [if_true]
    rfl
  · simp only [here, Ne.symm here, if_false]
    rfl

private theorem augmentedScns_new (file : ElfFile) (profile : List Byte) (shstrndx : Nat)
    (table : Section) :
    (augmentedScns file profile shstrndx table)[file.sections.length]? =
        some { shdr := newShdr shtProgbits table.bytes.length profile.length
               data := .buffer profile
               dirty := true } ∧
      (augmentedScns file profile shstrndx table)[file.sections.length + 1]? =
        some { shdr := newShdr shtStrtab table.shdr.name (newShstrtab table).length
               data := .buffer (newShstrtab table)
               dirty := true } := by
  have scns : ((elfBegin file).scns.modify shstrndx (fun scn =>
      { scn with shdr := { table.shdr with name := oldShstrtabIdx table } })).length =
        file.sections.length := by
    rw [List.length_modify]
    exact List.length_map _
  constructor
  · rw [augmentedScns, List.append_assoc, List.getElem?_append_right (Nat.le_of_eq scns), scns,
      Nat.sub_self]
    rfl
  · rw [augmentedScns, List.append_assoc,
      List.getElem?_append_right (by rw [scns]; exact Nat.le_succ _), scns, Nat.add_sub_cancel_left]
    rfl

private theorem augmentedScns_full (file : ElfFile) (profile : List Byte) (shstrndx ndx : Nat)
    (table : Section) (found : file.sections[shstrndx]? = some table) (scn : Scn)
    (atNdx : (augmentedScns file profile shstrndx table)[ndx]? = some scn)
    (occupies : scn.shdr.occupies = true) : scn.data.bytes.length = scn.data.size := by
  have inside := (List.getElem?_eq_some_iff.mp atNdx).1
  rw [augmentedScns_length] at inside
  obtain ⟨profileScn, tableScn⟩ := augmentedScns_new file profile shstrndx table
  rcases Nat.lt_or_ge ndx file.sections.length with old | new
  · have atOld := List.getElem?_eq_getElem old
    rw [augmentedScns_old file profile shstrndx ndx table _ found atOld] at atNdx
    cases atNdx
    dsimp only
    rw [Section.scn_bytes, Section.scn_size]
    exact (file.sections[ndx].sized occupies).symm
  · have last : ndx = file.sections.length ∨ ndx = file.sections.length + 1 := by omega
    rcases last with here | here
    · rw [here, profileScn] at atNdx
      cases atNdx
      rfl
    · rw [here, tableScn] at atNdx
      cases atNdx
      rfl

theorem augmentedElf_full (file : ElfFile) (profile : List Byte) (shstrndx : Nat)
    (table : Section) (elf : Elf) (found : file.sections[shstrndx]? = some table)
    (set : setshstrndx ⟨file.eShstrndx, augmentedScns file profile shstrndx table⟩
      (file.sections.length + 1) = some elf) : WrittenInFull libelf file elf := by
  obtain ⟨_reads, length, kept⟩ := setshstrndx_some _ elf _ set
  rw [augmentedScns_length] at length
  apply writtenInFull
  intro ndx scn atElf occupies
  have inside := (List.getElem?_eq_some_iff.mp atElf).1
  rw [length, ← augmentedScns_length file profile shstrndx table] at inside
  have source := List.getElem?_eq_getElem inside
  obtain ⟨link, fromSource, _sameLink⟩ := kept ndx _ source
  rw [atElf] at fromSource
  cases fromSource
  exact augmentedScns_full file profile shstrndx ndx table found
    (augmentedScns file profile shstrndx table)[ndx] source occupies

theorem writtenBytes_dirty (file : ElfFile) (elf : Elf) (ndx : Nat) (scn : Scn)
    (atElf : elf.scns[ndx]? = some scn) (dirty : scn.dirty = true) :
    writtenBytes libelf file elf ndx scn = scn.data.bytes := by
  rw [writtenBytes, libelf.writes_dirty file elf ndx scn atElf dirty, if_pos rfl]

private theorem newSection_stored (type name offset link : Nat) (buf : List Byte) (size : Nat)
    (full : (newShdr type name size).occupies = true) :
    let shdr : Shdr := { newShdr type name size with link := link, offset := offset }
    (storedSection shdr (ElfData.buffer buf).size buf).shdr.name = name ∧
      (storedSection shdr (ElfData.buffer buf).size buf).shdr.type = type ∧
      (storedSection shdr (ElfData.buffer buf).size buf).bytes = buf := by
  intro shdr
  have occupies : shdr.occupies = true := full
  rw [storedSection_shdr, storedSection_bytes]
  exact ⟨rfl, rfl, if_pos occupies⟩

theorem addElfSections_augmented (file after : ElfFile) (profile : List Byte)
    (added : addElfSections libelf file profile = some after) :
    ∃ shstrndx table, elfGetshdrstrndx (elfBegin file) = some shstrndx ∧
      file.sections[shstrndx]? = some table ∧ (newShstrtab table).length < 0x100000000 ∧
      Augmented file after profile shstrndx table := by
  obtain ⟨shstrndx, table, elf, indexed, found, fits, set, rfl⟩ :=
    addElfSections_some libelf file after profile added
  obtain ⟨reads, length, kept⟩ := setshstrndx_some _ elf _ set
  rw [augmentedScns_length] at length
  obtain ⟨profileScn, tableScn⟩ := augmentedScns_new file profile shstrndx table
  refine ⟨shstrndx, table, indexed, found, fits, ?_, ?_, ?_, ?_, ?_, ?_⟩
  · rw [elfUpdate_length, length]
  · rw [elfUpdate_getshdrstrndx, reads]
  · exact elfUpdate_canonical libelf file elf
      (augmentedElf_full libelf file profile shstrndx table elf found set)
  · intro ndx sec atNdx
    have old := augmentedScns_old file profile shstrndx ndx table sec found atNdx
    obtain ⟨link, atElf, sameLink⟩ := kept ndx _ old
    refine ⟨_, elfUpdate_untouched libelf file elf ndx sec _ atNdx atElf rfl rfl, ?_⟩
    obtain ⟨shdr, bytes⟩ := storedSection_own sec
      { sec.shdr with
        name := if ndx = shstrndx then oldShstrtabIdx table else sec.shdr.name
        link := link
        offset := ((layout file.headersEnd elf.scns)[ndx]?).getD 0 } rfl rfl
    unfold placedShdr
    refine ⟨bytes, by rw [shdr], ?_⟩
    intro later
    rw [shdr, sameLink later]
  · obtain ⟨link, atElf, _sameLink⟩ := kept _ _ profileScn
    refine ⟨_, elfUpdate_section libelf file elf _ _ atElf, ?_⟩
    rw [writtenBytes_dirty libelf file elf _ _ atElf rfl]
    exact newSection_stored _ _ _ _ _ _ rfl
  · obtain ⟨link, atElf, _sameLink⟩ := kept _ _ tableScn
    refine ⟨_, elfUpdate_section libelf file elf _ _ atElf, ?_⟩
    rw [writtenBytes_dirty libelf file elf _ _ atElf rfl]
    exact newSection_stored _ _ _ _ _ _ rfl

theorem strtab_occupies (sec : Section) (strtab : sec.shdr.type = shtStrtab) :
    sec.shdr.occupies = true := by
  unfold Shdr.occupies
  rw [strtab]
  decide

theorem addElfSections_isSome (file : ElfFile) (profile : List Byte) (shstrndx : Nat)
    (table : Section) (indexed : elfGetshdrstrndx (elfBegin file) = some shstrndx)
    (found : file.sections[shstrndx]? = some table) (strtab : table.shdr.type = shtStrtab)
    (fits : (newShstrtab table).length < 0x100000000) :
    ∃ after, addElfSections libelf file profile = some after := by
  have inside : shstrndx < file.sections.length := (List.getElem?_eq_some_iff.mp found).1
  have first := List.getElem?_eq_getElem (Nat.zero_lt_of_lt inside)
  obtain ⟨elf, set⟩ := setshstrndx_isSome
    ⟨file.eShstrndx, augmentedScns file profile shstrndx table⟩ (file.sections.length + 1) _
    (augmentedScns_old file profile shstrndx 0 table _ found first)
  rw [addElfSections_eq libelf file profile shstrndx table indexed found fits
    (table.sized (strtab_occupies table strtab)), set]
  exact ⟨_, rfl⟩

theorem Augmented.oldNamed {file after : ElfFile} {profile : List Byte} {shstrndx : Nat}
    {table : Section} (augmented : Augmented file after profile shstrndx table) (ndx : Nat)
    (sec : Section) (atNdx : file.sections[ndx]? = some sec) :
    sectionName after ndx =
      if ndx = shstrndx then some oldShstrtabName
      else stringAt 0 (newShstrtab table) sec.shdr.name := by
  obtain ⟨new, atNew, _bytes, name, _shdr⟩ := augmented.kept ndx sec atNdx
  obtain ⟨newTable, atTable, _name, strtab, bytes⟩ := augmented.tableAdded
  rw [sectionName_eq after _ ndx newTable new augmented.indexed atTable strtab atNew, bytes, name]
  split
  · exact newShstrtab_oldShstrtab table
  · rfl

theorem Augmented.profileNamed {file after : ElfFile} {profile : List Byte} {shstrndx : Nat}
    {table : Section} (augmented : Augmented file after profile shstrndx table) :
    sectionName after file.sections.length = some profileName := by
  obtain ⟨new, atNew, name, _type, _bytes⟩ := augmented.profileAdded
  obtain ⟨newTable, atTable, _name, strtab, bytes⟩ := augmented.tableAdded
  rw [sectionName_eq after _ _ newTable new augmented.indexed atTable strtab atNew, bytes, name]
  exact newShstrtab_profile table

theorem Augmented.tableNamed {file after : ElfFile} {profile : List Byte} {shstrndx : Nat}
    {table : Section} (augmented : Augmented file after profile shstrndx table) :
    sectionName after (file.sections.length + 1) =
      stringAt 0 (newShstrtab table) table.shdr.name := by
  obtain ⟨newTable, atTable, name, strtab, bytes⟩ := augmented.tableAdded
  rw [sectionName_eq after _ _ newTable newTable augmented.indexed atTable strtab atTable, bytes,
    name]

theorem newShstrtab_old (table : Section) (offset : Nat) (name : List Byte)
    (found : stringAt 0 table.bytes offset = some name) :
    stringAt 0 (newShstrtab table) offset = some name :=
  stringAt_append 0 table.bytes _ offset name found

/-- Adding the sections keeps every section and every name: the old table is renamed,
the profile and the new table follow under their names, and the index reads back.
Only a name table too large for the address space keeps them from being added. -/
theorem addElfSections_keeps (file : ElfFile) (profile : List Byte) (shstrndx : Nat)
    (table : Section) (indexed : elfGetshdrstrndx (elfBegin file) = some shstrndx)
    (found : file.sections[shstrndx]? = some table) (strtab : table.shdr.type = shtStrtab)
    (terminated : table.bytes.getLast? = some 0)
    (named : ∀ sec ∈ file.sections, sec.shdr.name < table.bytes.length) :
    ((newShstrtab table).length < 0x100000000 → ∃ after, addElfSections libelf file profile = some after) ∧
      ∀ after, addElfSections libelf file profile = some after →
        after.sections.length = file.sections.length + 2 ∧
        (∀ ndx sec, file.sections[ndx]? = some sec →
          ∃ new, after.sections[ndx]? = some new ∧
            (0 < ndx → new.bytes = sec.bytes ∧
              new.shdr = { sec.shdr with name := new.shdr.name, offset := new.shdr.offset }) ∧
            (sectionName file ndx).isSome = true ∧
            sectionName after ndx =
              if ndx = shstrndx then some oldShstrtabName else sectionName file ndx) ∧
        (∃ new, after.sections[file.sections.length]? = some new ∧ new.bytes = profile ∧
          sectionName after file.sections.length = some profileName) ∧
        sectionName after (file.sections.length + 1) = sectionName file shstrndx ∧
        elfGetshdrstrndx (elfBegin after) = some (file.sections.length + 1) := by
  refine ⟨addElfSections_isSome libelf file profile shstrndx table indexed found strtab, ?_⟩
  intro after added
  obtain ⟨otherNdx, otherTable, otherIndexed, otherFound, _fits, augmented⟩ :=
    addElfSections_augmented libelf file after profile added
  rw [indexed] at otherIndexed
  cases otherIndexed
  rw [found] at otherFound
  cases otherFound
  have resolves (ndx : Nat) (sec : Section) (atNdx : file.sections[ndx]? = some sec) :
      ∃ name, sectionName file ndx = some name ∧
        stringAt 0 (newShstrtab table) sec.shdr.name = some name := by
    have inside := named sec (List.mem_of_getElem? atNdx)
    obtain ⟨name, here⟩ :=
      Option.isSome_iff_exists.mp (stringAt_isSome 0 table.bytes sec.shdr.name terminated inside)
    refine ⟨name, ?_, newShstrtab_old table sec.shdr.name name here⟩
    rw [sectionName_eq file shstrndx ndx table sec indexed found strtab atNdx, here]
  refine ⟨augmented.length, ?_, ?_, ?_, augmented.indexed⟩
  · intro ndx sec atNdx
    obtain ⟨new, atNew, bytes, _name, shdr⟩ := augmented.kept ndx sec atNdx
    obtain ⟨name, before, later⟩ := resolves ndx sec atNdx
    refine ⟨new, atNew, fun positive => ⟨bytes, shdr positive⟩, ?_, ?_⟩
    · rw [before]
      rfl
    · rw [augmented.oldNamed ndx sec atNdx, later, before]
  · obtain ⟨new, atNew, _name, _type, bytes⟩ := augmented.profileAdded
    exact ⟨new, atNew, bytes, augmented.profileNamed⟩
  · obtain ⟨name, before, later⟩ := resolves shstrndx table found
    rw [augmented.tableNamed, later, before]

def sampleFile : ElfFile :=
  { eShstrndx := 2
    headersEnd := 52
    eShoff := 64
    sections :=
      [storedSection emptyShdr 0 [],
        storedSection
          { emptyShdr with name := 1, type := shtProgbits, offset := 52, addralign := 1 } 2 [7, 8],
        storedSection
          { emptyShdr with name := 3, type := shtStrtab, offset := 54, addralign := 1 } 7
          [0, 46, 116, 46, 115, 116, 0]] }

/-- A libelf that writes everything once the layout has changed. -/
def sampleLibelf : ElfUpdate := .rewriting (fun _file _elf => true)

theorem addElfSections_keeps_sample :
    ∃ after, addElfSections sampleLibelf sampleFile [1, 2, 3] = some after ∧ after.sections.length = 5 ∧
      elfGetshdrstrndx (elfBegin after) = some 4 := by
  have keeps := addElfSections_keeps sampleLibelf sampleFile [1, 2, 3] 2 _ rfl rfl rfl rfl (by decide)
  obtain ⟨after, added⟩ := keeps.1 (by decide)
  obtain ⟨length, _old, _profile, _table, indexed⟩ := keeps.2 after added
  exact ⟨after, added, length, indexed⟩

end BlackboxProfiling.ElfManipulator
