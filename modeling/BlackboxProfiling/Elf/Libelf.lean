import BlackboxProfiling.NulTable

/-!
ELF files and the part of libelf the tools use. A descriptor is opened from a file,
changed in memory and written back by `elf_update`, which lays the sections out in
index order. Which data it writes is a parameter: those of a section that is dirty or
has moved, and others only if the layout has changed.
-/

namespace BlackboxProfiling.Libelf

open NulTable

abbrev Byte := UInt8

def shtNull : Nat := 0

def shtProgbits : Nat := 1

def shtStrtab : Nat := 3

def shtNobits : Nat := 8

def shnUndef : Nat := 0

def shnLoreserve : Nat := 0xff00

def shnXindex : Nat := 0xffff

structure Shdr where
  name : Nat
  type : Nat
  flags : Nat
  addr : Nat
  offset : Nat
  size : Nat
  link : Nat
  info : Nat
  addralign : Nat
  entsize : Nat
  deriving DecidableEq, Repr

def Shdr.occupies (shdr : Shdr) : Bool :=
  decide (shdr.type ≠ shtNull) && decide (shdr.type ≠ shtNobits)

structure Section where
  shdr : Shdr
  bytes : List Byte
  sized : shdr.occupies = true → shdr.size = bytes.length
  hollow : shdr.occupies = false → bytes = []

/-- A file; its first section is section zero. `headersEnd` is the end of the ELF
header and the program headers. -/
structure ElfFile where
  eShstrndx : Nat
  headersEnd : Nat
  eShoff : Nat
  sections : List Section

inductive ElfData where
  | buffer (bytes : List Byte)
  | null (size : Nat)
  deriving DecidableEq, Repr

def ElfData.bytes : ElfData → List Byte
  | .buffer bytes => bytes
  | .null _size => []

def ElfData.size : ElfData → Nat
  | .buffer bytes => bytes.length
  | .null size => size

structure Scn where
  shdr : Shdr
  data : ElfData
  dirty : Bool
  deriving DecidableEq, Repr

structure Elf where
  eShstrndx : Nat
  scns : List Scn
  deriving DecidableEq, Repr

def Section.scn (sec : Section) : Scn :=
  { shdr := sec.shdr
    data := if sec.shdr.occupies then .buffer sec.bytes else .null sec.shdr.size
    dirty := false }

def elfBegin (file : ElfFile) : Elf :=
  { eShstrndx := file.eShstrndx, scns := file.sections.map Section.scn }

/-- The index of the name table, which may be kept in section zero. -/
def elfGetshdrstrndx (elf : Elf) : Option Nat :=
  if elf.eShstrndx = shnXindex then elf.scns[0]?.map (fun zero => zero.shdr.link)
  else some elf.eShstrndx

def elfGetscn (elf : Elf) (ndx : Nat) : Option Scn := elf.scns[ndx]?

def elfStrptr (elf : Elf) (ndx offset : Nat) : Option (List Byte) :=
  match elf.scns[ndx]? with
  | none => none
  | some scn => if scn.shdr.type = shtStrtab then stringAt 0 scn.data.bytes offset else none

/-- `gelf_update_shdr` flags the header only. -/
def gelfUpdateShdr (elf : Elf) (ndx : Nat) (shdr : Shdr) : Elf :=
  { elf with scns := elf.scns.modify ndx (fun scn => { scn with shdr := shdr }) }

def setData (elf : Elf) (ndx : Nat) (data : ElfData) : Elf :=
  { elf with scns := elf.scns.modify ndx (fun scn => { scn with data := data }) }

def emptyShdr : Shdr := ⟨0, 0, 0, 0, 0, 0, 0, 0, 0, 0⟩

def elfNewscn (elf : Elf) : Elf :=
  { elf with scns := elf.scns ++ [{ shdr := emptyShdr, data := .null 0, dirty := true }] }

def roundUp (size align : Nat) : Nat :=
  if align ≤ 1 then size else (size + align - 1) / align * align

def Scn.extent (scn : Scn) : Nat × Nat :=
  (scn.shdr.addralign, if scn.shdr.occupies then scn.data.size else 0)

def placeExtents (size : Nat) : List (Nat × Nat) → List Nat
  | [] => []
  | (align, fileSize) :: rest =>
      roundUp size align :: placeExtents (roundUp size align + fileSize) rest

def placedEnd (size : Nat) : List (Nat × Nat) → Nat
  | [] => size
  | (align, fileSize) :: rest => placedEnd (roundUp size align + fileSize) rest

def layout (headersEnd : Nat) : List Scn → List Nat
  | [] => []
  | zero :: rest => zero.shdr.offset :: placeExtents headersEnd (rest.map Scn.extent)

def layoutShoff (headersEnd : Nat) (scns : List Scn) : Nat :=
  roundUp (placedEnd headersEnd ((scns.drop 1).map Scn.extent)) 4

def Elf.placement (elf : Elf) (headersEnd : Nat) : List (Nat × Nat) × Nat :=
  (List.zip (layout headersEnd elf.scns) (elf.scns.map (fun scn => scn.data.size)),
    layoutShoff headersEnd elf.scns)

def ElfFile.placement (file : ElfFile) : List (Nat × Nat) × Nat :=
  (file.sections.map (fun sec => (sec.shdr.offset, sec.shdr.size)), file.eShoff)

def ElfFile.canonical (file : ElfFile) : Bool :=
  decide ((elfBegin file).placement file.headersEnd = file.placement)

def layoutChanged (file : ElfFile) (elf : Elf) : Bool :=
  decide (elf.placement file.headersEnd ≠ file.placement)

/-- What `elf_update` with `ELF_C_WRITE` does about the data of a section: whether it writes
them, and what stands at the place of the section when it does not. -/
structure ElfUpdate where
  writes : ElfFile → Elf → Nat → Bool
  left : ElfFile → Elf → Nat → List Byte
  writes_only : ∀ file elf ndx scn, elf.scns[ndx]? = some scn → writes file elf ndx = true →
    scn.dirty = true ∨ layoutChanged file elf = true
  writes_dirty : ∀ file elf ndx scn, elf.scns[ndx]? = some scn → scn.dirty = true →
    writes file elf ndx = true
  writes_moved : ∀ file elf ndx scn old, elf.scns[ndx]? = some scn → scn.shdr.occupies = true →
    file.sections[ndx]? = some old →
      (layout file.headersEnd elf.scns)[ndx]? ≠ some old.shdr.offset → writes file elf ndx = true
  left_length : ∀ file elf ndx scn, elf.scns[ndx]? = some scn →
    (left file elf ndx).length = scn.data.size
  left_stays : ∀ file elf ndx old, file.sections[ndx]? = some old → writes file elf ndx = false →
    (left file elf ndx).take old.bytes.length = old.bytes.take (left file elf ndx).length

def writtenBytes (libelf : ElfUpdate) (file : ElfFile) (elf : Elf) (ndx : Nat) (scn : Scn) :
    List Byte :=
  if libelf.writes file elf ndx then scn.data.bytes else libelf.left file elf ndx

/-- A section with the given bytes, or with none where its type has no contents. The
size is that of the bytes, `d_size` many. -/
def storedSection (shdr : Shdr) (size : Nat) (bytes : List Byte) : Section :=
  if occupies : shdr.occupies then
    { shdr := { shdr with size := bytes.length }
      bytes := bytes
      sized := fun _occupies => rfl
      hollow := fun empty => absurd (occupies.symm.trans empty) (by decide) }
  else
    { shdr := { shdr with size := size }
      bytes := []
      sized := fun full => absurd full occupies
      hollow := fun _empty => rfl }

def placedShdr (file : ElfFile) (elf : Elf) (ndx : Nat) (shdr : Shdr) : Shdr :=
  { shdr with offset := ((layout file.headersEnd elf.scns)[ndx]?).getD 0 }

def elfUpdate (libelf : ElfUpdate) (file : ElfFile) (elf : Elf) : ElfFile :=
  { eShstrndx := elf.eShstrndx
    headersEnd := file.headersEnd
    eShoff := layoutShoff file.headersEnd elf.scns
    sections := elf.scns.mapIdx (fun ndx scn =>
      storedSection (placedShdr file elf ndx scn.shdr) scn.data.size
        (writtenBytes libelf file elf ndx scn)) }

theorem Section.scn_bytes (sec : Section) : sec.scn.data.bytes = sec.bytes := by
  unfold Section.scn
  cases occupies : sec.shdr.occupies with
  | true => rfl
  | false => exact (sec.hollow occupies).symm

theorem Section.scn_size (sec : Section) : sec.scn.data.size = sec.shdr.size := by
  unfold Section.scn
  cases occupies : sec.shdr.occupies with
  | true => exact (sec.sized occupies).symm
  | false => rfl

theorem elfBegin_scn (file : ElfFile) (ndx : Nat) :
    (elfBegin file).scns[ndx]? = file.sections[ndx]?.map Section.scn :=
  List.getElem?_map

theorem elfStrptr_table (file : ElfFile) (shstrndx offset : Nat) (table : Section)
    (found : file.sections[shstrndx]? = some table) :
    elfStrptr (elfBegin file) shstrndx offset =
      if table.shdr.type = shtStrtab then stringAt 0 table.bytes offset else none := by
  unfold elfStrptr
  rw [elfBegin_scn, found, Option.map_some]
  dsimp only
  rw [table.scn_bytes]
  rfl

theorem modify_concat {α : Type} (front : List α) (last : α) (change : α → α) :
    (front ++ [last]).modify front.length change = front ++ [change last] := by
  induction front with
  | nil => rfl
  | cons head rest ih => exact congrArg (head :: ·) ih

theorem map_modify_same {α β : Type} (items : List α) (place : Nat) (change : α → α)
    (measure : α → β) (same : ∀ item, items[place]? = some item →
      measure (change item) = measure item) :
    (items.modify place change).map measure = items.map measure := by
  apply List.ext_getElem?
  intro other
  rw [List.getElem?_map, List.getElem?_map, List.getElem?_modify]
  cases found : items[other]? with
  | none => rfl
  | some item =>
      by_cases here : place = other
      · subst here
        simp only [if_true]
        exact congrArg some (same item found)
      · simp only [here, if_false]
        rfl

private theorem placeExtents_length (size : Nat) (extents : List (Nat × Nat)) :
    (placeExtents size extents).length = extents.length := by
  induction extents generalizing size with
  | nil => rfl
  | cons extent rest ih => rw [placeExtents, List.length_cons, List.length_cons, ih]

theorem layout_length (headersEnd : Nat) (scns : List Scn) :
    (layout headersEnd scns).length = scns.length := by
  cases scns with
  | nil => rfl
  | cons zero rest => rw [layout, List.length_cons, List.length_cons, placeExtents_length, List.length_map]

theorem layout_kept (file : ElfFile) (elf : Elf)
    (placed : elf.placement file.headersEnd = file.placement) (ndx : Nat) (scn : Scn)
    (sec : Section) (atElf : elf.scns[ndx]? = some scn) (atNdx : file.sections[ndx]? = some sec) :
    (layout file.headersEnd elf.scns)[ndx]? = some sec.shdr.offset ∧
      scn.data.size = sec.shdr.size := by
  have entry := congrArg (fun placement => placement.1[ndx]?) placed
  simp only [Elf.placement, ElfFile.placement, List.getElem?_map, atNdx, Option.map_some] at entry
  obtain ⟨place, size⟩ := List.getElem?_zip_eq_some.mp entry
  rw [List.getElem?_map, atElf] at size
  exact ⟨place, Option.some.inj size⟩

theorem storedSection_shdr (shdr : Shdr) (size : Nat) (bytes : List Byte) :
    (storedSection shdr size bytes).shdr =
      { shdr with size := if shdr.occupies then bytes.length else size } := by
  unfold storedSection
  split <;> rfl

theorem storedSection_bytes (shdr : Shdr) (size : Nat) (bytes : List Byte) :
    (storedSection shdr size bytes).bytes = if shdr.occupies then bytes else [] := by
  unfold storedSection
  split <;> rfl

section Update

variable (libelf : ElfUpdate)

theorem elfUpdate_length (file : ElfFile) (elf : Elf) :
    (elfUpdate libelf file elf).sections.length = elf.scns.length :=
  List.length_mapIdx

theorem elfUpdate_section (file : ElfFile) (elf : Elf) (ndx : Nat) (scn : Scn)
    (found : elf.scns[ndx]? = some scn) :
    (elfUpdate libelf file elf).sections[ndx]? = some (storedSection (placedShdr file elf ndx scn.shdr)
      scn.data.size (writtenBytes libelf file elf ndx scn)) := by
  dsimp only [elfUpdate]
  rw [List.getElem?_mapIdx, found]
  rfl

theorem storedSection_own (sec : Section) (shdr : Shdr) (sameType : shdr.type = sec.shdr.type)
    (sameSize : shdr.size = sec.shdr.size) :
    (storedSection shdr sec.scn.data.size sec.scn.data.bytes).shdr = shdr ∧
      (storedSection shdr sec.scn.data.size sec.scn.data.bytes).bytes = sec.bytes := by
  have sameKind : shdr.occupies = sec.shdr.occupies := by
    unfold Shdr.occupies
    rw [sameType]
  rw [storedSection_shdr, storedSection_bytes, sec.scn_bytes, sec.scn_size, sameKind]
  cases occupies : sec.shdr.occupies with
  | true =>
      rw [if_pos rfl, if_pos rfl, ← sec.sized occupies, ← sameSize]
      exact ⟨rfl, rfl⟩
  | false =>
      rw [if_neg (by decide), if_neg (by decide), ← sameSize, sec.hollow occupies]
      exact ⟨rfl, rfl⟩

theorem storedSection_congr (shdr : Shdr) (size : Nat) (left right : List Byte)
    (same : shdr.occupies = true → left = right) :
    storedSection shdr size left = storedSection shdr size right := by
  unfold storedSection
  split
  · rename_i occupies
    have equal := same occupies
    subst equal
    rfl
  · rfl

/-- An old section with its own data has them in the new file, written or not. -/
theorem elfUpdate_untouched (file : ElfFile) (elf : Elf) (ndx : Nat) (old : Section) (scn : Scn)
    (atNdx : file.sections[ndx]? = some old) (atElf : elf.scns[ndx]? = some scn)
    (sameData : scn.data = old.scn.data) (sameType : scn.shdr.type = old.shdr.type) :
    (elfUpdate libelf file elf).sections[ndx]? = some (storedSection
      (placedShdr file elf ndx scn.shdr) old.scn.data.size old.scn.data.bytes) := by
  rw [elfUpdate_section libelf file elf ndx scn atElf, sameData]
  congr 1
  apply storedSection_congr
  intro occupies
  have sameKind : (placedShdr file elf ndx scn.shdr).occupies = old.shdr.occupies := by
    unfold Shdr.occupies
    rw [← sameType]
    rfl
  rw [sameKind] at occupies
  unfold writtenBytes
  cases written : libelf.writes file elf ndx with
  | true => rw [if_pos rfl, sameData]
  | false =>
      have length := libelf.left_length file elf ndx scn atElf
      have stays := libelf.left_stays file elf ndx old atNdx written
      rw [sameData, old.scn_size, old.sized occupies] at length
      rw [← length, List.take_length, length, List.take_length] at stays
      rw [if_neg (by decide), stays, old.scn_bytes]

theorem elfUpdate_getshdrstrndx (file : ElfFile) (elf : Elf) :
    elfGetshdrstrndx (elfBegin (elfUpdate libelf file elf)) = elfGetshdrstrndx elf := by
  unfold elfGetshdrstrndx
  have same : (elfBegin (elfUpdate libelf file elf)).eShstrndx = elf.eShstrndx := rfl
  rw [same, elfBegin_scn]
  cases zero : elf.scns[0]? with
  | none =>
      have none_ : (elfUpdate libelf file elf).sections[0]? = none := by
        dsimp only [elfUpdate]
        rw [List.getElem?_mapIdx, zero]
        rfl
      rw [none_]
      rfl
  | some scn =>
      rw [elfUpdate_section libelf file elf 0 scn zero, Option.map_some, Option.map_some, Option.map_some]
      unfold Section.scn
      rw [storedSection_shdr]
      rfl

/-! ### Files in the layout of libelf -/

theorem placement_congr (headersEnd : Nat) (left right : Elf)
    (zeros : left.scns.head?.map (fun scn => scn.shdr.offset) =
      right.scns.head?.map (fun scn => scn.shdr.offset))
    (extents : left.scns.map Scn.extent = right.scns.map Scn.extent)
    (sizes : left.scns.map (fun scn => scn.data.size) =
      right.scns.map (fun scn => scn.data.size)) :
    left.placement headersEnd = right.placement headersEnd := by
  have places : layout headersEnd left.scns = layout headersEnd right.scns := by
    cases atLeft : left.scns with
    | nil =>
        rw [atLeft] at extents
        rw [List.map_eq_nil_iff.mp extents.symm]
    | cons leftZero leftRest =>
        cases atRight : right.scns with
        | nil =>
            rw [atLeft, atRight] at extents
            cases extents
        | cons rightZero rightRest =>
            rw [atLeft, atRight] at extents zeros
            have heads : leftZero.shdr.offset = rightZero.shdr.offset := Option.some.inj zeros
            rw [layout, layout, heads, (List.cons.inj extents).2]
  have shoffs : layoutShoff headersEnd left.scns = layoutShoff headersEnd right.scns := by
    rw [layoutShoff, layoutShoff, List.map_drop, List.map_drop, extents]
  rw [Elf.placement, Elf.placement, places, shoffs, sizes]

theorem storedSection_scn (shdr : Shdr) (size : Nat) (bytes : List Byte)
    (full : shdr.occupies = true → bytes.length = size) :
    (storedSection shdr size bytes).scn.data.size = size ∧
      (storedSection shdr size bytes).scn.extent =
        (shdr.addralign, if shdr.occupies then size else 0) := by
  have sizes : (if shdr.occupies then bytes.length else size) = size := by
    split
    · rename_i occupies
      exact full occupies
    · rfl
  have dataSize : (storedSection shdr size bytes).scn.data.size = size := by
    rw [Section.scn_size, storedSection_shdr]
    exact sizes
  refine ⟨dataSize, ?_⟩
  unfold Scn.extent
  rw [dataSize]
  unfold Section.scn
  dsimp only
  rw [storedSection_shdr]
  rfl

def WrittenInFull (file : ElfFile) (elf : Elf) : Prop :=
  ∀ ndx scn, elf.scns[ndx]? = some scn → scn.shdr.occupies = true →
    (writtenBytes libelf file elf ndx scn).length = scn.data.size

theorem writtenInFull (file : ElfFile) (elf : Elf)
    (buffers : ∀ (ndx : Nat) (scn : Scn), elf.scns[ndx]? = some scn → scn.shdr.occupies = true →
      scn.data.bytes.length = scn.data.size) : WrittenInFull libelf file elf := by
  intro ndx scn found occupies
  unfold writtenBytes
  split
  · exact buffers ndx scn found occupies
  · exact libelf.left_length file elf ndx scn found

theorem elfUpdate_placement (file : ElfFile) (elf : Elf) (full : WrittenInFull libelf file elf) :
    (elfUpdate libelf file elf).placement = elf.placement file.headersEnd := by
  have lengths := layout_length file.headersEnd elf.scns
  have entries : (elfUpdate libelf file elf).sections.map
        (fun sec => (sec.shdr.offset, sec.shdr.size)) =
      List.zip (layout file.headersEnd elf.scns) (elf.scns.map (fun scn => scn.data.size)) := by
    apply List.ext_getElem?
    intro ndx
    rcases Nat.lt_or_ge ndx elf.scns.length with inside | outside
    · have found := List.getElem?_eq_getElem inside
      have place := List.getElem?_eq_getElem (lengths.symm ▸ inside)
      have size := (storedSection_scn (placedShdr file elf ndx elf.scns[ndx].shdr)
        elf.scns[ndx].data.size (writtenBytes libelf file elf ndx elf.scns[ndx])
        (full ndx elf.scns[ndx] found)).1
      rw [Section.scn_size] at size
      rw [List.getElem?_map, elfUpdate_section libelf file elf ndx _ found, Option.map_some, size]
      apply Eq.symm
      apply List.getElem?_zip_eq_some.mpr
      rw [storedSection_shdr, placedShdr, place, List.getElem?_map, found]
      exact ⟨rfl, rfl⟩
    · rw [List.getElem?_eq_none (by rw [List.length_map, elfUpdate_length]; exact outside),
        List.getElem?_eq_none (by rw [List.length_zip, lengths, List.length_map]; omega)]
  rw [ElfFile.placement, Elf.placement, entries]
  rfl

private theorem elfBegin_elfUpdate (file : ElfFile) (elf : Elf) (full : WrittenInFull libelf file elf) :
    (elfBegin (elfUpdate libelf file elf)).placement file.headersEnd =
      elf.placement file.headersEnd := by
  have reopened (ndx : Nat) : (elfBegin (elfUpdate libelf file elf)).scns[ndx]? =
      elf.scns[ndx]?.map (fun scn => (storedSection (placedShdr file elf ndx scn.shdr)
        scn.data.size (writtenBytes libelf file elf ndx scn)).scn) := by
    dsimp only [elfBegin, elfUpdate]
    rw [List.getElem?_map, List.getElem?_mapIdx, Option.map_map]
    rfl
  apply placement_congr
  · rw [List.head?_eq_getElem?, List.head?_eq_getElem?, reopened, Option.map_map]
    cases scns : elf.scns with
    | nil => rfl
    | cons zero rest =>
        simp only [List.getElem?_cons_zero, Option.map_some, Function.comp, Section.scn,
          storedSection_shdr, placedShdr, scns, layout, Option.getD_some]
  · apply List.ext_getElem?
    intro ndx
    rw [List.getElem?_map, List.getElem?_map, reopened, Option.map_map]
    cases found : elf.scns[ndx]? with
    | none => rfl
    | some scn =>
        exact congrArg some (storedSection_scn (placedShdr file elf ndx scn.shdr) scn.data.size
          (writtenBytes libelf file elf ndx scn) (full ndx scn found)).2
  · apply List.ext_getElem?
    intro ndx
    rw [List.getElem?_map, List.getElem?_map, reopened, Option.map_map]
    cases found : elf.scns[ndx]? with
    | none => rfl
    | some scn =>
        exact congrArg some (storedSection_scn (placedShdr file elf ndx scn.shdr) scn.data.size
          (writtenBytes libelf file elf ndx scn) (full ndx scn found)).1

/-- A file that was written is in the layout of libelf. -/
theorem elfUpdate_canonical (file : ElfFile) (elf : Elf) (full : WrittenInFull libelf file elf) :
    (elfUpdate libelf file elf).canonical = true := by
  apply decide_eq_true
  rw [elfUpdate_placement libelf file elf full]
  exact elfBegin_elfUpdate libelf file elf full

end Update

def Elf.dirtyAt (elf : Elf) (ndx : Nat) : Bool := elf.scns[ndx]?.any Scn.dirty

def movedAt (file : ElfFile) (elf : Elf) (ndx : Nat) : Bool :=
  match file.sections[ndx]? with
  | none => false
  | some old => decide ((layout file.headersEnd elf.scns)[ndx]? ≠ some old.shdr.offset)

def leftAt (file : ElfFile) (elf : Elf) (ndx : Nat) : List Byte :=
  let size := (elf.scns[ndx]?.map (fun scn => scn.data.size)).getD 0
  ((file.sections[ndx]?.map Section.bytes).getD [] ++ List.replicate size 0).take size

private theorem rewriting_moved (all : ElfFile → Elf → Bool) (file : ElfFile) (elf : Elf) (ndx : Nat)
    (scn : Scn) (old : Section) (atElf : elf.scns[ndx]? = some scn)
    (_occupies : scn.shdr.occupies = true) (atNdx : file.sections[ndx]? = some old)
    (moved : (layout file.headersEnd elf.scns)[ndx]? ≠ some old.shdr.offset) :
    (elf.dirtyAt ndx || (movedAt file elf ndx || all file elf) && layoutChanged file elf) = true := by
  have changed : layoutChanged file elf = true := by
    apply decide_eq_true
    intro placed
    exact moved (layout_kept file elf placed ndx scn old atElf atNdx).1
  have here : movedAt file elf ndx = true := by
    rw [movedAt, atNdx]
    exact decide_eq_true moved
  rw [here, changed, Bool.true_or, Bool.and_self, Bool.or_true]

private theorem rewriting_only (all : ElfFile → Elf → Bool) (file : ElfFile) (elf : Elf) (ndx : Nat)
    (scn : Scn) (atElf : elf.scns[ndx]? = some scn)
    (written : (elf.dirtyAt ndx ||
      (movedAt file elf ndx || all file elf) && layoutChanged file elf) = true) :
    scn.dirty = true ∨ layoutChanged file elf = true := by
  rcases Bool.or_eq_true_iff.mp written with dirty | changed
  · rw [Elf.dirtyAt, atElf] at dirty
    exact Or.inl dirty
  · exact Or.inr (Bool.and_eq_true_iff.mp changed).2

private theorem rewriting_dirty (all : ElfFile → Elf → Bool) (file : ElfFile) (elf : Elf) (ndx : Nat)
    (scn : Scn) (atElf : elf.scns[ndx]? = some scn) (dirty : scn.dirty = true) :
    (elf.dirtyAt ndx || (movedAt file elf ndx || all file elf) && layoutChanged file elf) = true := by
  have here : elf.dirtyAt ndx = true := by
    rw [Elf.dirtyAt, atElf]
    exact dirty
  rw [here, Bool.true_or]

private theorem leftAt_length (file : ElfFile) (elf : Elf) (ndx : Nat) (scn : Scn)
    (atElf : elf.scns[ndx]? = some scn) : (leftAt file elf ndx).length = scn.data.size := by
  simp only [leftAt, atElf, Option.map_some, Option.getD_some, List.length_take, List.length_append,
    List.length_replicate]
  omega

private theorem leftAt_stays (file : ElfFile) (elf : Elf) (ndx : Nat) (old : Section)
    (atNdx : file.sections[ndx]? = some old) :
    (leftAt file elf ndx).take old.bytes.length =
      old.bytes.take (leftAt file elf ndx).length := by
  dsimp only [leftAt]
  rw [atNdx, Option.map_some, Option.getD_some]
  generalize (elf.scns[ndx]?.map (fun scn => scn.data.size)).getD 0 = size
  have length : ((old.bytes ++ List.replicate size 0).take size).length = size := by
    rw [List.length_take, List.length_append, List.length_replicate]
    omega
  rw [length, List.take_take,
    List.take_append_of_le_length (Nat.min_le_left old.bytes.length size), ← List.take_take]
  exact List.take_of_length_le (List.length_take_le' size old.bytes)

/-- Sections that are dirty or have moved are written; if the layout has changed, all are
where `all` says so. -/
def ElfUpdate.rewriting (all : ElfFile → Elf → Bool) : ElfUpdate where
  writes := fun file elf ndx =>
    elf.dirtyAt ndx || (movedAt file elf ndx || all file elf) && layoutChanged file elf
  left := leftAt
  writes_only := rewriting_only all
  writes_dirty := rewriting_dirty all
  writes_moved := rewriting_moved all
  left_length := leftAt_length
  left_stays := fun file elf ndx old atNdx _unwritten => leftAt_stays file elf ndx old atNdx

end BlackboxProfiling.Libelf
