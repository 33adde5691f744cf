import BlackboxProfiling.Elf.Elfie
import BlackboxProfiling.Elf.Reprofile

/-!
What `read_file` and `read_profile_file` make of a profile file that cannot be
read. The first takes its size from a record that nothing has filled in, reads
from a stream that was not opened and hands on a buffer that was filled in part;
the second refuses in each case.
-/

namespace BlackboxProfiling.ElfManipulator

open Libelf

/-- The outcomes of the calls on the profile file. `unset` is what the record of
`stat` holds before it is filled in, a block comes with what lies in it, and `fopen`
with the bytes that `fread` can deliver. -/
structure ProfileCalls where
  unset : Nat
  stat : Option Nat
  malloc : Nat → Option (List Byte)
  sized : ∀ size block, malloc size = some block → block.length = size
  fopen : Option (List Byte)

inductive Reading where
  | refused
  | crashed
  | read (buf : List Byte)
  deriving DecidableEq, Repr

/-- The block after `fread`; what it could not deliver is left as it was. -/
def fread (block readable : List Byte) : List Byte :=
  readable.take block.length ++ block.drop readable.length

/-- A stream that was not opened is read and closed all the same. -/
def readFileOn (calls : ProfileCalls) : Reading :=
  let secSize := calls.stat.getD calls.unset
  match calls.malloc secSize with
  | none => .refused
  | some buf =>
      match calls.fopen with
      | none => .crashed
      | some readable => .read (fread buf readable)

def mainOn (libelf : ElfUpdate) (file : ElfFile) (calls : ProfileCalls) : Option ElfFile :=
  match readFileOn calls with
  | .refused | .crashed => none
  | .read buf => main libelf file buf

end BlackboxProfiling.ElfManipulator

namespace BlackboxProfiling.Elfie

open Libelf ElfManipulator

def readProfileFileOn (calls : ProfileCalls) : Reading :=
  match calls.stat with
  | none => .refused
  | some secSize =>
      match calls.malloc secSize with
      | none => .refused
      | some buf =>
          match calls.fopen with
          | none => .refused
          | some readable =>
              let bytesRead := min secSize readable.length
              if bytesRead ≠ secSize then .refused else .read (fread buf readable)

end BlackboxProfiling.Elfie

namespace BlackboxProfiling.ElfManipulator

open Libelf
open Elfie (readProfileFileOn storedSection_self)

variable (libelf : ElfUpdate)

private theorem fread_full (block readable : List Byte) (enough : block.length ≤ readable.length) :
    fread block readable = readable.take block.length := by
  rw [fread, List.drop_eq_nil_of_le enough, List.append_nil]

theorem readFileOn_full (calls : ProfileCalls) (size : Nat) (block readable : List Byte)
    (stated : calls.stat = some size) (allocated : calls.malloc size = some block)
    (opened : calls.fopen = some readable) (enough : size ≤ readable.length) :
    readFileOn calls = .read (readFile (readable.take size)).1 := by
  have length := calls.sized size block allocated
  simp only [readFileOn, stated, Option.getD_some, allocated, opened]
  rw [fread_full block readable (by omega), length]
  rfl

private theorem readFileOn_refused_iff (calls : ProfileCalls) :
    readFileOn calls = .refused ↔ calls.malloc (calls.stat.getD calls.unset) = none := by
  cases allocated : calls.malloc (calls.stat.getD calls.unset) with
  | none => simp only [readFileOn, allocated]
  | some block =>
      cases opened : calls.fopen with
      | none => simp only [readFileOn, allocated, opened, reduceCtorEq]
      | some readable => simp only [readFileOn, allocated, opened, reduceCtorEq]

private theorem readProfileFileOn_refused_iff (calls : ProfileCalls) :
    readProfileFileOn calls = .refused ↔
      ∀ size block readable, calls.stat = some size → calls.malloc size = some block →
        calls.fopen = some readable → readable.length < size := by
  cases stated : calls.stat with
  | none =>
      apply iff_of_true (by simp only [readProfileFileOn, stated])
      intro size block readable absent
      cases absent
  | some size =>
      cases allocated : calls.malloc size with
      | none =>
          apply iff_of_true (by simp only [readProfileFileOn, stated, allocated])
          intro other block readable same present
          cases same
          rw [allocated] at present
          cases present
      | some block =>
          cases opened : calls.fopen with
          | none =>
              apply iff_of_true (by simp only [readProfileFileOn, stated, allocated, opened])
              intro other otherBlock readable _same _allocated absent
              cases absent
          | some readable =>
              simp only [readProfileFileOn, stated, allocated, opened]
              constructor
              · intro refused other otherBlock otherReadable sameSize _allocated sameReadable
                cases sameSize
                cases sameReadable
                by_contra enough
                rw [if_neg (by omega)] at refused
                cases refused
              · intro short
                have fewer := short size block readable rfl allocated rfl
                rw [if_pos (by omega)]

private theorem storedSection_kept (sec : Section) (shdr : Shdr) (size : Nat) (bytes : List Byte)
    (sameShdr : shdr = sec.shdr) (sameSize : size = sec.shdr.size) (sameBytes : bytes = sec.bytes) :
    storedSection shdr size bytes = sec := by
  rw [sameShdr, sameSize, sameBytes, ← sec.scn_size, ← sec.scn_bytes]
  exact storedSection_self sec

/-- A profile as long as the old one leaves a file in the layout of libelf alone. -/
theorem elfUpdate_updatedElf_same (file : ElfFile) (profile : List Byte) (ndx : Nat)
    (sec : Section) (found : file.sections[ndx]? = some sec) (canonical : file.canonical = true)
    (sameSize : profile.length = sec.shdr.size) :
    elfUpdate libelf file (updatedElf file profile ndx sec) = file := by
  have placed : (updatedElf file profile ndx sec).placement file.headersEnd = file.placement := by
    rw [updatedElf_placement file profile ndx sec found sameSize]
    exact of_decide_eq_true canonical
  have shoff : layoutShoff file.headersEnd (updatedElf file profile ndx sec).scns = file.eShoff :=
    congrArg Prod.snd placed
  have sections : (elfUpdate libelf file (updatedElf file profile ndx sec)).sections = file.sections := by
    apply List.ext_getElem?
    intro other
    cases atOther : file.sections[other]? with
    | none =>
        rw [List.getElem?_eq_none_iff] at atOther ⊢
        rw [elfUpdate_length, updatedElf_length]
        exact atOther
    | some old =>
        by_cases here : other = ndx
        · subst here
          rw [found] at atOther
          cases atOther
          have atElf := updatedElf_self file profile other sec found
          obtain ⟨place, size⟩ := layout_kept file _ placed other _ sec atElf found
          have unwritten :=
            updatedElf_unwritten libelf file profile other sec found canonical sameSize
          rw [elfUpdate_section libelf file _ other _ atElf]
          congr 1
          rw [storedSection_congr _ _ _ sec.bytes]
          · apply storedSection_kept sec _ _ _ _ size rfl
            rw [placedShdr, place, updatedScn, sameSize]
            rfl
          · intro occupies
            rw [writtenBytes, unwritten]
            exact updatedElf_left libelf file profile other sec found
              (sameSize.trans (sec.sized occupies)) unwritten
        · have atElf := updatedElf_other file profile ndx other sec here
          rw [atOther, Option.map_some] at atElf
          obtain ⟨place, size⟩ := layout_kept file _ placed other _ old atElf atOther
          rw [elfUpdate_untouched libelf file _ other old _ atOther atElf rfl rfl]
          congr 1
          apply storedSection_kept old _ _ _ _ size old.scn_bytes
          rw [placedShdr, place]
          rfl
  calc elfUpdate libelf file (updatedElf file profile ndx sec)
      = { eShstrndx := file.eShstrndx
          headersEnd := file.headersEnd
          eShoff := layoutShoff file.headersEnd (updatedElf file profile ndx sec).scns
          sections := (elfUpdate libelf file (updatedElf file profile ndx sec)).sections } := rfl
    _ = file := by rw [shoff, sections]

def profileNdx (file : ElfFile) : Nat :=
  match isProfiled file with
  | some (ndx + 1) => ndx + 1
  | _ => file.sections.length

def StoresProfile (file after : ElfFile) (bytes : List Byte) : Prop :=
  ∃ sec, after.sections[profileNdx file]? = some sec ∧ sec.bytes = bytes

/-- A section found takes the bytes: it has contents, and libelf writes them or its place
holds them already; or there are none; or the file stays as it is. -/
def TakesContents (file : ElfFile) (bytes : List Byte) : Prop :=
  ∀ ndx sec, isProfiled file = some ndx → ndx ≠ 0 → file.sections[ndx]? = some sec →
    (sec.shdr.occupies = true ∧
      (libelf.writes file (updatedElf file bytes ndx sec) ndx = true ∨
        libelf.left file (updatedElf file bytes ndx sec) ndx = bytes)) ∨
      bytes = [] ∨ file.canonical = true ∧ bytes.length = sec.shdr.size

private theorem addElfSections_stores (file after : ElfFile) (bytes : List Byte)
    (absent : isProfiled file = some 0) (added : addElfSections libelf file bytes = some after) :
    StoresProfile file after bytes := by
  obtain ⟨_shstrndx, _table, _indexed, _found, _fits, augmented⟩ :=
    addElfSections_augmented libelf file after bytes added
  obtain ⟨new, atNew, _name, _type, same⟩ := augmented.profileAdded
  refine ⟨new, ?_, same⟩
  rw [profileNdx, absent]
  exact atNew

theorem updateProfile_unchanged (file : ElfFile) (bytes : List Byte) (shstrndx ndx : Nat)
    (sec : Section) (indexed : elfGetshdrstrndx (elfBegin file) = some shstrndx)
    (found : file.sections[ndx]? = some sec)
    (updated : updateProfile libelf file bytes ndx = some file) :
    bytes.length = sec.shdr.size := by
  have written := updateProfile_eq libelf file bytes shstrndx ndx sec indexed found
  have atElf := updatedElf_self file bytes ndx sec found
  have resized := elfUpdate_section libelf file _ ndx _ atElf
  have size := (storedSection_scn (placedShdr file (updatedElf file bytes ndx sec) ndx
    (updatedScn bytes sec).shdr) (updatedScn bytes sec).data.size _
    (updatedElf_full libelf file bytes ndx sec found ndx _ atElf)).1
  rw [updated] at written
  rw [← Option.some.inj written, found] at resized
  rw [← Option.some.inj resized, Section.scn_size] at size
  exact size.symm

theorem updatedBytes_iff (file : ElfFile) (bytes : List Byte) (ndx : Nat) (sec : Section)
    (found : file.sections[ndx]? = some sec) :
    updatedBytes libelf file bytes ndx sec = bytes ↔
      (sec.shdr.occupies = true ∧
        (libelf.writes file (updatedElf file bytes ndx sec) ndx = true ∨
          libelf.left file (updatedElf file bytes ndx sec) ndx = bytes)) ∨ bytes = [] := by
  have length := libelf.left_length file _ ndx _ (updatedElf_self file bytes ndx sec found)
  have size : (updatedScn bytes sec).data.size = bytes.length := rfl
  rw [size] at length
  rw [updatedBytes]
  cases occupies : sec.shdr.occupies with
  | true =>
      cases written : libelf.writes file (updatedElf file bytes ndx sec) ndx with
      | true => simp only [if_true, true_or, and_self]
      | false =>
          simp only [if_true, Bool.false_eq_true, if_false, false_or, true_and]
          constructor
          · intro left
            exact Or.inl left
          · rintro (left | none)
            · exact left
            · subst none
              exact List.eq_nil_of_length_eq_zero length
  | false =>
      simp only [Bool.false_eq_true, if_false, false_and, false_or]
      exact eq_comm

private theorem updateProfile_stores_iff (file : ElfFile) (bytes : List Byte) (ndx : Nat)
    (sec : Section)
    (profiled : isProfiled file = some (ndx + 1))
    (found : file.sections[ndx + 1]? = some sec) :
    (∀ after, updateProfile libelf file bytes (ndx + 1) = some after →
        after = file ∨ StoresProfile file after bytes) ↔
      (sec.shdr.occupies = true ∧
        (libelf.writes file (updatedElf file bytes (ndx + 1) sec) (ndx + 1) = true ∨
          libelf.left file (updatedElf file bytes (ndx + 1) sec) (ndx + 1) = bytes)) ∨
        bytes = [] ∨ file.canonical = true ∧ bytes.length = sec.shdr.size := by
  obtain ⟨shstrndx, indexed⟩ := isProfiled_indexed file (ndx + 1) profiled
  obtain ⟨after, new, updated, _same, canonical, atNew, _type, stored⟩ :=
    updateProfile_updates libelf file bytes shstrndx (ndx + 1) sec indexed found
  have here : profileNdx file = ndx + 1 := by
    rw [profileNdx, profiled]
  have stores : StoresProfile file after bytes ↔
      updatedBytes libelf file bytes (ndx + 1) sec = bytes := by
    rw [StoresProfile, here, atNew, ← stored]
    constructor
    · intro held
      obtain ⟨other, sameSec, sameBytes⟩ := held
      cases sameSec
      exact sameBytes
    · intro sameBytes
      exact ⟨new, rfl, sameBytes⟩
  rw [updatedBytes_iff libelf file bytes (ndx + 1) sec found] at stores
  rw [← or_assoc, ← stores]
  constructor
  · intro kept
    rcases kept after updated with unchanged | held
    · rw [unchanged] at canonical updated
      exact Or.inr ⟨canonical,
        updateProfile_unchanged libelf file bytes shstrndx _ sec indexed found updated⟩
    · exact Or.inl held
  · intro takes other ran
    rw [updated] at ran
    cases ran
    rcases takes with held | ⟨isCanonical, sameSize⟩
    · exact Or.inr held
    · left
      have written := updateProfile_eq libelf file bytes shstrndx (ndx + 1) sec indexed found
      rw [updated] at written
      rw [Option.some.inj written]
      exact elfUpdate_updatedElf_same libelf file bytes (ndx + 1) sec found isCanonical sameSize

/-- A profile that has been read is stored, or the file is as it was, exactly if the
section takes contents. -/
theorem main_stores_iff (file : ElfFile) (bytes : List Byte) :
    (∀ after, main libelf file bytes = some after → after = file ∨ StoresProfile file after bytes) ↔
      TakesContents libelf file bytes := by
  cases profiled : isProfiled file with
  | none =>
      apply iff_of_true
      · intro after ran
        rw [main, profiled] at ran
        cases ran
      · intro ndx sec present
        rw [profiled] at present
        cases present
  | some found =>
      cases found with
      | zero =>
          apply iff_of_true
          · intro after ran
            rw [main_add libelf file bytes profiled] at ran
            exact Or.inr (addElfSections_stores libelf file after bytes profiled ran)
          · intro ndx sec present positive
            rw [profiled] at present
            cases present
            exact absurd rfl positive
      | succ ndx =>
          obtain ⟨shstrndx, indexed⟩ := isProfiled_indexed file (ndx + 1) profiled
          obtain ⟨sec, atNdx, _named⟩ :=
            isProfiled_positive file shstrndx (ndx + 1) indexed profiled (Nat.succ_ne_zero ndx)
          rw [main_update libelf file bytes (ndx + 1) profiled (Nat.succ_ne_zero ndx),
            updateProfile_stores_iff libelf file bytes ndx sec profiled atNdx]
          constructor
          · intro takes other otherSec present _positive atOther
            rw [profiled] at present
            cases present
            rw [atNdx] at atOther
            cases atOther
            exact takes
          · intro takes
            exact takes (ndx + 1) sec profiled (Nat.succ_ne_zero ndx) atNdx

def bytesRead (calls : ProfileCalls) : List Byte :=
  (calls.fopen.getD []).take (calls.stat.getD calls.unset)

structure KeepsUnreadableOut (file : ElfFile) (calls : ProfileCalls) : Prop where
  stored : ∀ after, mainOn libelf file calls = some after →
    after = file ∨ StoresProfile file after (bytesRead calls)
  refuses : readFileOn calls = .refused ↔ readProfileFileOn calls = .refused

/-- The calls succeed and deliver the file to the end, into a section that takes it, or
`malloc` stops the program in time. -/
def ReadInFull (file : ElfFile) (calls : ProfileCalls) : Prop :=
  match calls.stat with
  | none => calls.malloc calls.unset = none
  | some size =>
      calls.malloc size = none ∨ ∃ readable, calls.fopen = some readable ∧
        size ≤ readable.length ∧ TakesContents libelf file (readable.take size)

private theorem keepsUnreadableOut_of_refused (file : ElfFile) (calls : ProfileCalls)
    (refused : readFileOn calls = .refused) (same : readProfileFileOn calls = .refused) :
    KeepsUnreadableOut libelf file calls := by
  constructor
  · intro after ran
    rw [mainOn, refused] at ran
    cases ran
  · exact iff_of_true refused same

def cutProfile : ProfileCalls :=
  { unset := 0
    stat := some 4
    malloc := fun size => some (List.replicate size 9)
    sized := fun _size _block allocated => by
      rw [← Option.some.inj allocated, List.length_replicate]
    fopen := some [1, 2] }

end BlackboxProfiling.ElfManipulator
