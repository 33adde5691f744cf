import BlackboxProfiling.Elf.ElfManipulator

/-!
One run on a file that has a `.profile` already. `update_profile` gives the section
new data but does not flag them, so libelf may write them only if the layout changes,
which it does not when the file is laid out as libelf would have it and the new
profile is as long as the old one.
-/

namespace BlackboxProfiling.ElfManipulator

open Libelf NulTable

variable (libelf : ElfUpdate)

structure SameBut (ndx : Nat) (before after : ElfFile) : Prop where
  length : after.sections.length = before.sections.length
  indexed : elfGetshdrstrndx (elfBegin after) = elfGetshdrstrndx (elfBegin before)
  kept : ∀ other sec, before.sections[other]? = some sec →
    ∃ new, after.sections[other]? = some new ∧ new.shdr.name = sec.shdr.name ∧
      new.shdr.type = sec.shdr.type ∧ (other ≠ ndx → new.bytes = sec.bytes)

theorem SameBut.refl (ndx : Nat) (file : ElfFile) : SameBut ndx file file :=
  ⟨rfl, rfl, fun _other sec found => ⟨sec, found, rfl, rfl, fun _different => rfl⟩⟩

theorem SameBut.trans {ndx : Nat} {first second third : ElfFile}
    (earlier : SameBut ndx first second) (later : SameBut ndx second third) :
    SameBut ndx first third := by
  refine ⟨later.length.trans earlier.length, later.indexed.trans earlier.indexed, ?_⟩
  intro other sec found
  obtain ⟨middle, atMiddle, middleName, middleType, middleBytes⟩ := earlier.kept other sec found
  obtain ⟨new, atNew, name, type, bytes⟩ := later.kept other middle atMiddle
  refine ⟨new, atNew, name.trans middleName, type.trans middleType, ?_⟩
  intro different
  exact (bytes different).trans (middleBytes different)

theorem SameBut.none_after {ndx : Nat} {before after : ElfFile} (same : SameBut ndx before after)
    (other : Nat) (absent : before.sections[other]? = none) : after.sections[other]? = none := by
  rw [List.getElem?_eq_none_iff] at absent ⊢
  rw [same.length]
  exact absent

theorem SameBut.strptr {ndx : Nat} {before after : ElfFile} (same : SameBut ndx before after)
    (shstrndx : Nat) (apart : shstrndx ≠ ndx) (offset : Nat) :
    elfStrptr (elfBegin after) shstrndx offset = elfStrptr (elfBegin before) shstrndx offset := by
  cases found : before.sections[shstrndx]? with
  | none =>
      unfold elfStrptr
      rw [elfBegin_scn, elfBegin_scn, found, same.none_after shstrndx found]
  | some table =>
      obtain ⟨new, atNew, _name, type, bytes⟩ := same.kept shstrndx table found
      rw [elfStrptr_table before shstrndx offset table found,
        elfStrptr_table after shstrndx offset new atNew, type, bytes apart]

theorem SameBut.sectionName {ndx : Nat} {before after : ElfFile}
    (same : SameBut ndx before after) (shstrndx : Nat)
    (indexed : elfGetshdrstrndx (elfBegin before) = some shstrndx) (apart : shstrndx ≠ ndx)
    (other : Nat) : sectionName after other = sectionName before other := by
  unfold ElfManipulator.sectionName
  rw [same.indexed, indexed]
  cases found : before.sections[other]? with
  | none => rw [same.none_after other found]
  | some sec =>
      obtain ⟨new, atNew, name, _type, _bytes⟩ := same.kept other sec found
      rw [atNew]
      dsimp only
      rw [name, same.strptr shstrndx apart]

theorem isProfiledLoop_congr (left right : Elf) (shstrndx ndx : Nat) (leftScns rightScns : List Scn)
    (names : leftScns.map (fun scn => elfStrptr left shstrndx scn.shdr.name) =
      rightScns.map (fun scn => elfStrptr right shstrndx scn.shdr.name)) :
    isProfiledLoop left shstrndx ndx leftScns = isProfiledLoop right shstrndx ndx rightScns := by
  induction leftScns generalizing ndx rightScns with
  | nil =>
      rw [List.map_eq_nil_iff.mp names.symm]
      rfl
  | cons scn rest ih =>
      cases rightScns with
      | nil => cases names
      | cons other others =>
          obtain ⟨first, later⟩ := List.cons.inj names
          have sameName : elfStrptr left shstrndx scn.shdr.name =
              elfStrptr right shstrndx other.shdr.name := first
          dsimp only [isProfiledLoop]
          rw [sameName, ih (ndx + 1) others later]

theorem SameBut.isProfiled {ndx : Nat} {before after : ElfFile} (same : SameBut ndx before after)
    (shstrndx : Nat) (indexed : elfGetshdrstrndx (elfBegin before) = some shstrndx)
    (apart : shstrndx ≠ ndx) : isProfiled after = isProfiled before := by
  unfold ElfManipulator.isProfiled preparation
  rw [same.indexed, indexed]
  dsimp only [Option.map_some]
  apply isProfiledLoop_congr
  apply List.ext_getElem?
  intro place
  rw [List.getElem?_map, List.getElem?_map, List.getElem?_drop, List.getElem?_drop, elfBegin_scn,
    elfBegin_scn]
  cases found : before.sections[1 + place]? with
  | none =>
      rw [same.none_after _ found]
      rfl
  | some sec =>
      obtain ⟨new, atNew, name, _type, _bytes⟩ := same.kept _ sec found
      rw [atNew]
      have sameName : new.scn.shdr.name = sec.scn.shdr.name := name
      simp only [Option.map_some, sameName, same.strptr shstrndx apart]

private theorem isProfiledLoop_some (elf : Elf) (shstrndx ndx found : Nat) (scns : List Scn)
    (positive : 0 < ndx) (ran : isProfiledLoop elf shstrndx ndx scns = some found) :
    (found = 0 ∧ ∀ scn ∈ scns, ∃ name, elfStrptr elf shstrndx scn.shdr.name = some name ∧
        name ≠ profileName) ∨
      (0 < found ∧ ∃ place scn, scns[place]? = some scn ∧ found = ndx + place ∧
        elfStrptr elf shstrndx scn.shdr.name = some profileName) := by
  induction scns generalizing ndx with
  | nil =>
      cases ran
      exact Or.inl ⟨rfl, fun _scn member => by cases member⟩
  | cons scn rest ih =>
      simp only [isProfiledLoop] at ran
      split at ran
      · cases ran
      · rename_i name resolved
        split at ran
        · rename_i isProfile
          cases ran
          rw [isProfile] at resolved
          exact Or.inr ⟨positive, 0, scn, rfl, rfl, resolved⟩
        · rename_i different
          rcases ih (ndx + 1) (Nat.succ_pos ndx) ran with absent | present
          · refine Or.inl ⟨absent.1, ?_⟩
            intro other member
            rcases List.mem_cons.mp member with here | later
            · rw [here]
              exact ⟨name, resolved, different⟩
            · exact absent.2 other later
          · obtain ⟨foundPositive, place, other, atPlace, index, named⟩ := present
            exact Or.inr ⟨foundPositive, place + 1, other, atPlace, by omega, named⟩

theorem isProfiled_zero (file : ElfFile) (shstrndx : Nat)
    (indexed : elfGetshdrstrndx (elfBegin file) = some shstrndx)
    (absent : isProfiled file = some 0) (ndx : Nat) (positive : 0 < ndx) (sec : Section)
    (atNdx : file.sections[ndx]? = some sec) :
    ∃ name, elfStrptr (elfBegin file) shstrndx sec.shdr.name = some name ∧ name ≠ profileName := by
  simp only [isProfiled, preparation, indexed, Option.map_some] at absent
  rcases isProfiledLoop_some _ _ _ _ _ Nat.one_pos absent with none_ | some_
  · apply none_.2 sec.scn
    apply List.mem_of_getElem? (i := ndx - 1)
    rw [List.getElem?_drop, Nat.add_sub_cancel' positive, elfBegin_scn, atNdx]
    rfl
  · exact absurd some_.1 (Nat.lt_irrefl 0)

theorem isProfiled_positive (file : ElfFile) (shstrndx found : Nat)
    (indexed : elfGetshdrstrndx (elfBegin file) = some shstrndx)
    (present : isProfiled file = some found) (positive : found ≠ 0) :
    ∃ sec, file.sections[found]? = some sec ∧ sectionName file found = some profileName := by
  simp only [isProfiled, preparation, indexed, Option.map_some] at present
  rcases isProfiledLoop_some _ _ _ _ _ Nat.one_pos present with none_ | some_
  · exact absurd none_.1 positive
  · obtain ⟨_positive, place, scn, atPlace, index, named⟩ := some_
    rw [List.getElem?_drop, ← index, elfBegin_scn] at atPlace
    obtain ⟨sec, atFound, rfl⟩ := Option.map_eq_some_iff.mp atPlace
    refine ⟨sec, atFound, ?_⟩
    unfold sectionName
    rw [indexed, atFound]
    exact named

theorem isProfiledLoop_finds (elf : Elf) (shstrndx ndx place : Nat) (scns : List Scn) (scn : Scn)
    (earlier : ∀ other before, other < place → scns[other]? = some before →
      ∃ name, elfStrptr elf shstrndx before.shdr.name = some name ∧ name ≠ profileName)
    (atPlace : scns[place]? = some scn)
    (named : elfStrptr elf shstrndx scn.shdr.name = some profileName) :
    isProfiledLoop elf shstrndx ndx scns = some (ndx + place) := by
  induction scns generalizing ndx place with
  | nil => cases atPlace
  | cons head rest ih =>
      cases place with
      | zero =>
          cases atPlace
          simp only [isProfiledLoop, named, if_true, Nat.add_zero]
      | succ place =>
          obtain ⟨name, resolved, different⟩ := earlier 0 head (Nat.succ_pos place) rfl
          have later := ih (ndx + 1) place
            (fun other before inside => earlier (other + 1) before (Nat.succ_lt_succ inside)) atPlace
          simp only [isProfiledLoop, resolved, if_neg different, later]
          rw [Nat.add_right_comm, Nat.add_assoc]

theorem isProfiled_first (file : ElfFile) (shstrndx found : Nat) (sec : Section)
    (indexed : elfGetshdrstrndx (elfBegin file) = some shstrndx) (positive : 0 < found)
    (atFound : file.sections[found]? = some sec)
    (named : sectionName file found = some profileName)
    (earlier : ∀ other, 0 < other → other < found →
      ∃ name, sectionName file other = some name ∧ name ≠ profileName) :
    isProfiled file = some found := by
  have strptr (other : Nat) (scn : Scn)
      (atOther : ((elfBegin file).scns.drop 1)[other]? = some scn) :
      elfStrptr (elfBegin file) shstrndx scn.shdr.name = sectionName file (other + 1) := by
    rw [List.getElem?_drop, Nat.add_comm, elfBegin_scn] at atOther
    obtain ⟨old, atOld, rfl⟩ := Option.map_eq_some_iff.mp atOther
    unfold sectionName
    rw [indexed, atOld]
    rfl
  have place : found - 1 + 1 = found := Nat.sub_add_cancel positive
  have atPlace : ((elfBegin file).scns.drop 1)[found - 1]? = some sec.scn := by
    rw [List.getElem?_drop, Nat.add_comm, place, elfBegin_scn, atFound]
    rfl
  simp only [isProfiled, preparation, indexed, Option.map_some]
  rw [isProfiledLoop_finds (elfBegin file) shstrndx 1 (found - 1) _ sec.scn ?_ atPlace ?_]
  · rw [Nat.add_comm, place]
  · intro other before inside atOther
    rw [strptr other before atOther]
    exact earlier (other + 1) (Nat.succ_pos other) (by omega)
  · rw [strptr (found - 1) sec.scn atPlace, place]
    exact named

def updatedElf (file : ElfFile) (profile : List Byte) (ndx : Nat) (sec : Section) : Elf :=
  gelfUpdateShdr (setData (elfBegin file) ndx (.buffer profile)) ndx
    { sec.shdr with size := profile.length }

theorem updateProfile_eq (file : ElfFile) (profile : List Byte) (shstrndx ndx : Nat)
    (sec : Section) (indexed : elfGetshdrstrndx (elfBegin file) = some shstrndx)
    (found : file.sections[ndx]? = some sec) :
    updateProfile libelf file profile ndx =
      some (elfUpdate libelf file (updatedElf file profile ndx sec)) := by
  simp only [updateProfile, preparation, indexed, Option.map_some, elfGetscn, elfBegin_scn, found]
  rfl

def updatedScn (profile : List Byte) (sec : Section) : Scn :=
  { shdr := { sec.shdr with size := profile.length }, data := .buffer profile, dirty := false }

theorem updatedElf_self (file : ElfFile) (profile : List Byte) (ndx : Nat) (sec : Section)
    (found : file.sections[ndx]? = some sec) :
    (updatedElf file profile ndx sec).scns[ndx]? = some (updatedScn profile sec) := by
  simp only [updatedElf, gelfUpdateShdr, setData, List.getElem?_modify_eq, elfBegin_scn, found]
  rfl

theorem updatedElf_other (file : ElfFile) (profile : List Byte) (ndx other : Nat) (sec : Section)
    (different : other ≠ ndx) :
    (updatedElf file profile ndx sec).scns[other]? = file.sections[other]?.map Section.scn := by
  simp only [updatedElf, gelfUpdateShdr, setData, List.getElem?_modify_ne _ _ (Ne.symm different),
    elfBegin_scn]

theorem updatedElf_length (file : ElfFile) (profile : List Byte) (ndx : Nat) (sec : Section) :
    (updatedElf file profile ndx sec).scns.length = file.sections.length := by
  simp only [updatedElf, gelfUpdateShdr, setData, List.length_modify, elfBegin, List.length_map]

theorem updatedElf_placement (file : ElfFile) (profile : List Byte) (ndx : Nat) (sec : Section)
    (found : file.sections[ndx]? = some sec) (sameSize : profile.length = sec.shdr.size)
    (headersEnd : Nat) :
    (updatedElf file profile ndx sec).placement headersEnd =
      (elfBegin file).placement headersEnd := by
  have same {α : Type} (measure : Scn → α)
      (unchanged : measure (updatedScn profile sec) = measure sec.scn) :
      (updatedElf file profile ndx sec).scns.map measure =
        (elfBegin file).scns.map measure := by
    simp only [updatedElf, gelfUpdateShdr, setData, List.modify_modify_eq]
    apply map_modify_same
    intro scn atNdx
    rw [elfBegin_scn, found] at atNdx
    cases atNdx
    exact unchanged
  have sameData : (updatedScn profile sec).data.size = sec.scn.data.size := by
    rw [sec.scn_size, ← sameSize]
    rfl
  apply placement_congr
  · rw [← List.head?_map, ← List.head?_map]
    exact congrArg List.head? (same (fun scn => scn.shdr.offset) rfl)
  · apply same Scn.extent
    unfold Scn.extent
    rw [sameData]
    rfl
  · exact same (fun scn => scn.data.size) sameData

/-- The data are written exactly when the file is not in the layout of libelf or the
profile is not as long as the section. -/
theorem updatedElf_layoutChanged (file : ElfFile) (profile : List Byte) (ndx : Nat)
    (sec : Section) (found : file.sections[ndx]? = some sec) :
    layoutChanged file (updatedElf file profile ndx sec) = false ↔
      file.canonical = true ∧ profile.length = sec.shdr.size := by
  unfold layoutChanged ElfFile.canonical
  rw [decide_eq_false_iff_not, not_not, decide_eq_true_iff]
  constructor
  · intro placed
    have sizes := congrArg (fun placement => (placement.1[ndx]?).map Prod.snd) placed
    have entry : (List.zip (layout file.headersEnd (updatedElf file profile ndx sec).scns)
        ((updatedElf file profile ndx sec).scns.map (fun scn => scn.data.size)))[ndx]?.map
          Prod.snd = some profile.length := by
      rw [← List.getElem?_map, List.map_snd_zip (Nat.le_of_eq (by rw [layout_length, List.length_map])),
        List.getElem?_map, updatedElf_self file profile ndx sec found]
      rfl
    simp only [Elf.placement, ElfFile.placement, entry, List.getElem?_map, found,
      Option.map_some] at sizes
    have sameSize : profile.length = sec.shdr.size := Option.some.inj sizes
    rw [updatedElf_placement file profile ndx sec found sameSize] at placed
    exact ⟨placed, sameSize⟩
  · rintro ⟨canonical, sameSize⟩
    rw [updatedElf_placement file profile ndx sec found sameSize]
    exact canonical

def updatedBytes (file : ElfFile) (profile : List Byte) (ndx : Nat) (sec : Section) : List Byte :=
  if sec.shdr.occupies then
    if libelf.writes file (updatedElf file profile ndx sec) ndx then profile
    else libelf.left file (updatedElf file profile ndx sec) ndx
  else []

theorem updatedElf_unwritten (file : ElfFile) (profile : List Byte) (ndx : Nat) (sec : Section)
    (found : file.sections[ndx]? = some sec) (canonical : file.canonical = true)
    (sameSize : profile.length = sec.shdr.size) :
    libelf.writes file (updatedElf file profile ndx sec) ndx = false := by
  by_contra written
  have atNdx := updatedElf_self file profile ndx sec found
  rcases libelf.writes_only file _ ndx _ atNdx (Bool.not_eq_false _ ▸ written) with dirty | changed
  · cases dirty
  · rw [(updatedElf_layoutChanged file profile ndx sec found).mpr ⟨canonical, sameSize⟩] at changed
    cases changed

theorem updatedElf_left (file : ElfFile) (profile : List Byte) (ndx : Nat) (sec : Section)
    (found : file.sections[ndx]? = some sec) (sameSize : profile.length = sec.bytes.length)
    (unwritten : libelf.writes file (updatedElf file profile ndx sec) ndx = false) :
    libelf.left file (updatedElf file profile ndx sec) ndx = sec.bytes := by
  have length := libelf.left_length file _ ndx _ (updatedElf_self file profile ndx sec found)
  have stays := libelf.left_stays file _ ndx sec found unwritten
  have size : (updatedScn profile sec).data.size = profile.length := rfl
  rw [size, sameSize] at length
  rw [← length, List.take_length, length, List.take_length] at stays
  exact stays

theorem updatedBytes_kept (file : ElfFile) (profile : List Byte) (ndx : Nat) (sec : Section)
    (found : file.sections[ndx]? = some sec) (canonical : file.canonical = true)
    (sameSize : profile.length = sec.shdr.size) :
    updatedBytes libelf file profile ndx sec = sec.bytes := by
  have unwritten := updatedElf_unwritten libelf file profile ndx sec found canonical sameSize
  rw [updatedBytes, unwritten]
  cases occupies : sec.shdr.occupies with
  | true =>
      rw [sec.sized occupies] at sameSize
      exact updatedElf_left libelf file profile ndx sec found sameSize unwritten
  | false => exact (sec.hollow occupies).symm

theorem updatedElf_full (file : ElfFile) (profile : List Byte) (ndx : Nat) (sec : Section)
    (found : file.sections[ndx]? = some sec) :
    WrittenInFull libelf file (updatedElf file profile ndx sec) := by
  apply writtenInFull
  intro other scn atOther occupies
  by_cases here : other = ndx
  · subst here
    rw [updatedElf_self file profile other sec found] at atOther
    cases atOther
    rfl
  · rw [updatedElf_other file profile ndx other sec here] at atOther
    obtain ⟨old, _atOld, rfl⟩ := Option.map_eq_some_iff.mp atOther
    rw [old.scn_bytes, old.scn_size]
    exact (old.sized occupies).symm

/-- What one update leaves: the section with its new or its old bytes, in a file
laid out by libelf. -/
theorem updateProfile_updates (file : ElfFile) (profile : List Byte) (shstrndx ndx : Nat)
    (sec : Section) (indexed : elfGetshdrstrndx (elfBegin file) = some shstrndx)
    (found : file.sections[ndx]? = some sec) :
    ∃ after new, updateProfile libelf file profile ndx = some after ∧ SameBut ndx file after ∧
      after.canonical = true ∧ after.sections[ndx]? = some new ∧
      new.shdr.type = sec.shdr.type ∧ new.bytes = updatedBytes libelf file profile ndx sec := by
  have atNdx := updatedElf_self file profile ndx sec found
  have stored := elfUpdate_section libelf file (updatedElf file profile ndx sec) ndx _ atNdx
  have sameIndex : elfGetshdrstrndx (updatedElf file profile ndx sec) =
      elfGetshdrstrndx (elfBegin file) := by
    have zeroLink : (updatedElf file profile ndx sec).scns[0]?.map (fun zero => zero.shdr.link) =
        (elfBegin file).scns[0]?.map (fun zero => zero.shdr.link) := by
      by_cases here : 0 = ndx
      · rw [elfBegin_scn, here, found, atNdx]
        rfl
      · rw [updatedElf_other file profile ndx 0 sec here, elfBegin_scn]
    unfold elfGetshdrstrndx
    rw [zeroLink]
    rfl
  refine ⟨_, _, updateProfile_eq libelf file profile shstrndx ndx sec indexed found, ?_,
    elfUpdate_canonical libelf file _ (updatedElf_full libelf file profile ndx sec found), stored, ?_, ?_⟩
  · refine ⟨?_, ?_, ?_⟩
    · rw [elfUpdate_length, updatedElf_length]
    · rw [elfUpdate_getshdrstrndx, sameIndex]
    · intro other old atOld
      by_cases here : other = ndx
      · subst here
        rw [found] at atOld
        cases atOld
        refine ⟨_, stored, ?_, ?_, fun different => absurd rfl different⟩
        · rw [storedSection_shdr]
          rfl
        · rw [storedSection_shdr]
          rfl
      · have atOther := updatedElf_other file profile ndx other sec here
        rw [atOld, Option.map_some] at atOther
        refine ⟨_, elfUpdate_untouched libelf file _ other old _ atOld atOther rfl rfl, ?_, ?_, ?_⟩
        · rw [storedSection_shdr]
          rfl
        · rw [storedSection_shdr]
          rfl
        · intro _different
          exact (storedSection_own old (placedShdr file (updatedElf file profile ndx sec) other
            old.shdr) rfl rfl).2
  · rw [storedSection_shdr]
    rfl
  · rw [storedSection_bytes, writtenBytes]
    rfl

end BlackboxProfiling.ElfManipulator
