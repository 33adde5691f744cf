import BlackboxProfiling.Elf.UpdateProfile

/-!
Profiling the same file again and again. After the first run the file has exactly one
section `.profile`, which every later run finds and updates; what is in it in the end is
decided by the last run, and a profile as long as the one before it is lost.
-/

namespace BlackboxProfiling.ElfManipulator

open Libelf NulTable

variable (libelf : ElfUpdate)

def mainAll (file : ElfFile) : List (List Byte) → Option ElfFile
  | [] => some file
  | profile :: rest =>
      match main libelf file profile with
      | none => none
      | some after => mainAll after rest

private theorem mainAll_append (file : ElfFile) (front back : List (List Byte)) :
    mainAll libelf file (front ++ back) =
      (mainAll libelf file front).bind (fun after => mainAll libelf after back) := by
  induction front generalizing file with
  | nil => rfl
  | cons profile rest ih =>
      simp only [List.cons_append, mainAll]
      cases main libelf file profile with
      | none => rfl
      | some after => exact ih after

private theorem mainAll_singleton (file : ElfFile) (profile : List Byte) :
    mainAll libelf file [profile] = main libelf file profile := by
  simp only [mainAll]
  cases main libelf file profile with
  | none => rfl
  | some after => rfl

theorem main_update (file : ElfFile) (profile : List Byte) (ndx : Nat)
    (profiled : isProfiled file = some ndx) (positive : ndx ≠ 0) :
    main libelf file profile = updateProfile libelf file profile ndx := by
  unfold main
  rw [profiled]
  exact if_pos positive

private theorem main_updates (file : ElfFile) (profile : List Byte) (shstrndx ndx : Nat) (sec : Section)
    (indexed : elfGetshdrstrndx (elfBegin file) = some shstrndx) (positive : ndx ≠ 0)
    (profiled : isProfiled file = some ndx) (found : file.sections[ndx]? = some sec) :
    ∃ after new, main libelf file profile = some after ∧ SameBut ndx file after ∧
      after.canonical = true ∧ after.sections[ndx]? = some new ∧
      new.bytes = updatedBytes libelf file profile ndx sec := by
  obtain ⟨after, new, updated, same, canonical, atNew, _type, bytes⟩ :=
    updateProfile_updates libelf file profile shstrndx ndx sec indexed found
  exact ⟨after, new, (main_update libelf file profile ndx profiled positive).trans updated, same,
    canonical, atNew, bytes⟩

/-- Any number of runs updates the same section and leaves all else alone. -/
theorem mainAll_updates (file : ElfFile) (shstrndx ndx : Nat) (sec : Section)
    (indexed : elfGetshdrstrndx (elfBegin file) = some shstrndx) (apart : shstrndx ≠ ndx)
    (positive : ndx ≠ 0) (profiled : isProfiled file = some ndx)
    (found : file.sections[ndx]? = some sec) (canonical : file.canonical = true)
    (profiles : List (List Byte)) :
    ∃ final new, mainAll libelf file profiles = some final ∧ SameBut ndx file final ∧
      final.canonical = true ∧ final.sections[ndx]? = some new := by
  induction profiles generalizing file sec with
  | nil => exact ⟨file, sec, rfl, SameBut.refl ndx file, canonical, found⟩
  | cons profile rest ih =>
      obtain ⟨after, middle, ran, same, afterCanonical, atMiddle, _bytes⟩ :=
        main_updates libelf file profile shstrndx ndx sec indexed positive profiled found
      obtain ⟨final, new, ranRest, sameFinal, finalCanonical, atNew⟩ :=
        ih after middle (same.indexed.trans indexed)
          ((same.isProfiled shstrndx indexed apart).trans profiled) atMiddle afterCanonical
      refine ⟨final, new, ?_, same.trans sameFinal, finalCanonical, atNew⟩
      simp only [mainAll, ran, ranRest]

/-- After the last run there is exactly one section named `.profile`, with the bytes
of the last profile, and all else is as after the first run. -/
def LastWriteWins (first final : ElfFile) (last : List Byte) : Prop :=
  final.sections.length = first.sections.length ∧
    ∃ ndx sec, 0 < ndx ∧ final.sections[ndx]? = some sec ∧ sec.bytes = last ∧
      (∀ other, 0 < other → (sectionName final other = some profileName ↔ other = ndx)) ∧
      ∀ other, other ≠ ndx → sectionName final other = sectionName first other ∧
        (final.sections[other]?).map Section.bytes = (first.sections[other]?).map Section.bytes

private theorem lastWriteWins_iff (first final : ElfFile) (shstrndx ndx : Nat) (new : Section)
    (last : List Byte) (indexed : elfGetshdrstrndx (elfBegin first) = some shstrndx)
    (apart : shstrndx ≠ ndx) (positive : ndx ≠ 0) (same : SameBut ndx first final)
    (atNew : final.sections[ndx]? = some new)
    (onlyOne : ∀ other, 0 < other → (sectionName first other = some profileName ↔ other = ndx)) :
    LastWriteWins first final last ↔ new.bytes = last := by
  have names := same.sectionName shstrndx indexed apart
  constructor
  · rintro ⟨_length, other, sec, otherPositive, atOther, bytes, unique, _others⟩
    have here : ndx = other := by
      apply (unique ndx (Nat.pos_of_ne_zero positive)).mp
      rw [names]
      exact (onlyOne ndx (Nat.pos_of_ne_zero positive)).mpr rfl
    rw [← here, atNew] at atOther
    rw [Option.some.inj atOther]
    exact bytes
  · intro bytes
    refine ⟨same.length, ndx, new, Nat.pos_of_ne_zero positive, atNew, bytes, ?_, ?_⟩
    · intro other otherPositive
      rw [names]
      exact onlyOne other otherPositive
    · intro other different
      refine ⟨names other, ?_⟩
      cases found : first.sections[other]? with
      | none => rw [same.none_after other found]
      | some sec =>
          obtain ⟨kept, atKept, _name, _type, keptBytes⟩ := same.kept other sec found
          rw [atKept, Option.map_some, Option.map_some, keptBytes different]

private theorem oldShstrtabName_ne : oldShstrtabName ≠ profileName := by decide

theorem Augmented.otherNamed {file after : ElfFile} {profile : List Byte} {shstrndx : Nat}
    {table : Section} (augmented : Augmented file after profile shstrndx table)
    (indexed : elfGetshdrstrndx (elfBegin file) = some shstrndx) (positive : 0 < shstrndx)
    (found : file.sections[shstrndx]? = some table) (strtab : table.shdr.type = shtStrtab)
    (absent : isProfiled file = some 0) (other : Nat) (otherPositive : 0 < other)
    (different : other ≠ file.sections.length) (inside : other < file.sections.length + 2) :
    ∃ name, sectionName after other = some name ∧ name ≠ profileName := by
  have old (ndx : Nat) (sec : Section) (ndxPositive : 0 < ndx)
      (atNdx : file.sections[ndx]? = some sec) :
      ∃ name, stringAt 0 (newShstrtab table) sec.shdr.name = some name ∧ name ≠ profileName := by
    obtain ⟨name, resolved, apart⟩ := isProfiled_zero file shstrndx indexed absent ndx ndxPositive
      sec atNdx
    rw [elfStrptr_table file shstrndx sec.shdr.name table found, if_pos strtab] at resolved
    exact ⟨name, newShstrtab_old table sec.shdr.name name resolved, apart⟩
  rcases Nat.lt_or_ge other file.sections.length with before | behind
  · have atOther := List.getElem?_eq_getElem before
    rw [augmented.oldNamed other _ atOther]
    split
    · exact ⟨oldShstrtabName, rfl, oldShstrtabName_ne⟩
    · exact old other _ otherPositive atOther
  · have last : other = file.sections.length + 1 := by omega
    rw [last, augmented.tableNamed]
    exact old shstrndx table positive found

structure Profiled (first : ElfFile) (shstrndx ndx : Nat) (sec : Section) : Prop where
  indexed : elfGetshdrstrndx (elfBegin first) = some shstrndx
  apart : shstrndx ≠ ndx
  positive : ndx ≠ 0
  profiled : isProfiled first = some ndx
  found : first.sections[ndx]? = some sec
  canonical : first.canonical = true
  onlyOne : ∀ other, 0 < other → (sectionName first other = some profileName ↔ other = ndx)

private theorem Augmented.toProfiled {file after : ElfFile} {profile : List Byte} {shstrndx : Nat}
    {table : Section} (augmented : Augmented file after profile shstrndx table)
    (indexed : elfGetshdrstrndx (elfBegin file) = some shstrndx) (positive : 0 < shstrndx)
    (found : file.sections[shstrndx]? = some table) (strtab : table.shdr.type = shtStrtab)
    (absent : isProfiled file = some 0) :
    ∃ sec, Profiled after (file.sections.length + 1) file.sections.length sec ∧
      sec.shdr.occupies = true ∧ sec.bytes = profile := by
  obtain ⟨sec, atSec, _name, type, bytes⟩ := augmented.profileAdded
  have inside : shstrndx < file.sections.length := (List.getElem?_eq_some_iff.mp found).1
  have others := augmented.otherNamed indexed positive found strtab absent
  have occupies : sec.shdr.occupies = true := by
    unfold Shdr.occupies
    rw [type]
    decide
  refine ⟨sec, ⟨augmented.indexed, Nat.succ_ne_self _, by omega, ?_, atSec, augmented.canonical, ?_⟩,
    occupies, bytes⟩
  · apply isProfiled_first after _ _ sec augmented.indexed (by omega) atSec augmented.profileNamed
    intro other otherPositive before
    exact others other otherPositive (Nat.ne_of_lt before) (by omega)
  · intro other otherPositive
    constructor
    · intro named
      rcases Nat.lt_or_ge other (file.sections.length + 2) with present | outside
      · by_contra different
        obtain ⟨name, resolved, apart⟩ := others other otherPositive different present
        rw [named] at resolved
        exact apart (Option.some.inj resolved).symm
      · rw [sectionName_absent after other (by rw [augmented.length]; exact outside)] at named
        cases named
    · intro here
      rw [here]
      exact augmented.profileNamed

def AtMostOneProfile (file : ElfFile) : Prop :=
  ∀ left right, 0 < left → 0 < right → sectionName file left = some profileName →
    sectionName file right = some profileName → left = right

theorem SameBut.profiled {before after : ElfFile} {shstrndx ndx : Nat} {sec new : Section}
    (same : SameBut ndx before after) (ready : Profiled before shstrndx ndx sec)
    (canonical : after.canonical = true) (atNew : after.sections[ndx]? = some new) :
    Profiled after shstrndx ndx new where
  indexed := same.indexed.trans ready.indexed
  apart := ready.apart
  positive := ready.positive
  profiled := (same.isProfiled shstrndx ready.indexed ready.apart).trans ready.profiled
  found := atNew
  canonical := canonical
  onlyOne := by
    intro other otherPositive
    rw [same.sectionName shstrndx ready.indexed ready.apart]
    exact ready.onlyOne other otherPositive

theorem Profiled.update {file : ElfFile} {shstrndx ndx : Nat} {sec : Section}
    (ready : Profiled file shstrndx ndx sec) (profile : List Byte) :
    ∃ after new, main libelf file profile = some after ∧
      Profiled after shstrndx ndx new ∧ new.bytes = updatedBytes libelf file profile ndx sec := by
  obtain ⟨after, new, ran, same, canonical, atNew, bytes⟩ := main_updates libelf file profile
    shstrndx ndx sec ready.indexed ready.positive ready.profiled ready.found
  exact ⟨after, new, ran, same.profiled ready canonical atNew, bytes⟩

private theorem Profiled.updates {file : ElfFile} {shstrndx ndx : Nat} {sec : Section}
    (ready : Profiled file shstrndx ndx sec) (profiles : List (List Byte)) :
    ∃ final new, mainAll libelf file profiles = some final ∧ SameBut ndx file final ∧
      Profiled final shstrndx ndx new := by
  obtain ⟨final, new, ran, same, canonical, atNew⟩ := mainAll_updates libelf file shstrndx ndx sec
    ready.indexed ready.apart ready.positive ready.profiled ready.found ready.canonical profiles
  exact ⟨final, new, ran, same, same.profiled ready canonical atNew⟩

theorem profiled_of_updated {file after : ElfFile} {shstrndx ndx : Nat} {new : Section}
    (same : SameBut ndx file after)
    (indexed : elfGetshdrstrndx (elfBegin file) = some shstrndx) (apart : shstrndx ≠ ndx)
    (positive : ndx ≠ 0) (profiled : isProfiled file = some ndx)
    (canonical : after.canonical = true) (atNew : after.sections[ndx]? = some new)
    (atMostOne : AtMostOneProfile file) : Profiled after shstrndx ndx new := by
  obtain ⟨_sec, _found, named⟩ := isProfiled_positive file shstrndx ndx indexed profiled positive
  have names := same.sectionName shstrndx indexed apart
  refine ⟨same.indexed.trans indexed, apart, positive,
    (same.isProfiled shstrndx indexed apart).trans profiled, atNew, canonical, ?_⟩
  intro other otherPositive
  rw [names]
  constructor
  · intro otherNamed
    exact atMostOne other ndx otherPositive (Nat.pos_of_ne_zero positive) otherNamed named
  · intro here
    rw [here]
    exact named

def Reprofiles (file : ElfFile) (profile : List Byte) (rest : List (List Byte)) : Prop :=
  ∃ first final, main libelf file profile = some first ∧ mainAll libelf first rest = some final ∧
    LastWriteWins first final ((profile :: rest).getLast (List.cons_ne_nil profile rest))

def RoomForNames (file : ElfFile) : Prop :=
  ∃ shstrndx table, elfGetshdrstrndx (elfBegin file) = some shstrndx ∧ 0 < shstrndx ∧
    file.sections[shstrndx]? = some table ∧ (newShstrtab table).length < 0x100000000

def NullFirst (file : ElfFile) : Prop :=
  ∀ zero, file.sections[0]? = some zero → zero.shdr.type = shtNull ∧ zero.shdr.name = 0

/-- The file before a run takes the profile: there is room to add it, or libelf writes the
unflagged data of the section that is there, or that section's place holds them already. A
section without contents takes an empty profile only. -/
def TakesProfile (before : ElfFile) (profile : List Byte) : Prop :=
  match isProfiled before with
  | none => False
  | some 0 => RoomForNames before
  | some (ndx + 1) =>
      match before.sections[ndx + 1]? with
      | none => False
      | some sec =>
          if sec.shdr.occupies then
            libelf.writes before (updatedElf before profile (ndx + 1) sec) (ndx + 1) = true ∨
              libelf.left before (updatedElf before profile (ndx + 1) sec) (ndx + 1) = profile
          else profile = []

/-- The runs before the last one return, and what they leave takes the last profile. -/
def LastTaken (file : ElfFile) (profile : List Byte) (rest : List (List Byte)) : Prop :=
  ∃ before, mainAll libelf file (profile :: rest).dropLast = some before ∧
    TakesProfile libelf before ((profile :: rest).getLast (List.cons_ne_nil profile rest))

private theorem takesProfile_iff (before : ElfFile) (profile : List Byte) (ndx : Nat) (sec : Section)
    (profiled : isProfiled before = some ndx) (positive : ndx ≠ 0)
    (found : before.sections[ndx]? = some sec) :
    TakesProfile libelf before profile ↔ updatedBytes libelf before profile ndx sec = profile := by
  obtain ⟨place, rfl⟩ := Nat.exists_eq_succ_of_ne_zero positive
  simp only [TakesProfile, profiled, found, updatedBytes]
  cases occupies : sec.shdr.occupies with
  | true =>
      cases written : libelf.writes before (updatedElf before profile place.succ sec) place.succ with
      | true => simp only [if_true, true_or]
      | false => simp only [if_true, Bool.false_eq_true, false_or, if_false]
  | false =>
      simp only [Bool.false_eq_true, if_false]
      exact eq_comm

/-- A profile as long as the one that is there is lost, whatever libelf it is. -/
theorem Profiled.sameSize_lost {before : ElfFile} {shstrndx ndx : Nat} {sec : Section}
    (ready : Profiled before shstrndx ndx sec) (profile : List Byte)
    (sameSize : profile.length = sec.shdr.size) :
    TakesProfile libelf before profile ↔ sec.bytes = profile := by
  rw [takesProfile_iff libelf before profile ndx sec ready.profiled ready.positive ready.found,
    updatedBytes_kept libelf before profile ndx sec ready.found ready.canonical sameSize]

private theorem Profiled.reprofiles {file first : ElfFile} {profile : List Byte} {shstrndx ndx : Nat}
    {sec : Section} (ready : Profiled first shstrndx ndx sec)
    (ran : main libelf file profile = some first)
    (own : TakesProfile libelf file profile ↔ sec.bytes = profile) (rest : List (List Byte)) :
    Reprofiles libelf file profile rest ↔ LastTaken libelf file profile rest := by
  obtain ⟨final, new, ranAll, same, finalReady⟩ := ready.updates libelf rest
  have wins (last : List Byte) := lastWriteWins_iff first final shstrndx ndx new last ready.indexed
    ready.apart ready.positive same finalReady.found ready.onlyOne
  have reprofiles : Reprofiles libelf file profile rest ↔
      new.bytes = (profile :: rest).getLast (List.cons_ne_nil profile rest) := by
    rw [← wins]
    constructor
    · rintro ⟨otherFirst, otherFinal, otherRan, otherRanAll, otherWins⟩
      rw [ran] at otherRan
      cases otherRan
      rw [ranAll] at otherRanAll
      cases otherRanAll
      exact otherWins
    · intro won
      exact ⟨first, final, ran, ranAll, won⟩
  rw [reprofiles, LastTaken]
  rcases List.eq_nil_or_concat' rest with alone | ⟨front, last, more⟩
  · subst alone
    cases ranAll
    cases ready.found.symm.trans finalReady.found
    simp only [List.dropLast_singleton, List.getLast_singleton, mainAll, Option.some.injEq,
      exists_eq_left', own]
  · -- the last run starts from what the runs before it have left
    subst more
    obtain ⟨before, held, ranFront, _same, beforeReady⟩ := ready.updates libelf front
    obtain ⟨after, stored, ranLast, afterReady, bytes⟩ := beforeReady.update libelf last
    rw [mainAll_append, ranFront, Option.bind_some, mainAll_singleton, ranLast] at ranAll
    cases ranAll
    cases afterReady.found.symm.trans finalReady.found
    have earlier : mainAll libelf file (profile :: front) = some before := by
      simp only [mainAll, ran, ranFront]
    have front_ : (profile :: (front ++ [last])).dropLast = profile :: front := by
      rw [← List.cons_append, List.dropLast_concat]
    have last_ : (profile :: (front ++ [last])).getLast (List.cons_ne_nil _ _) = last :=
      List.getLast_append_singleton (profile :: front)
    rw [front_, last_, earlier, bytes]
    simp only [Option.some.injEq, exists_eq_left',
      takesProfile_iff libelf before last ndx held beforeReady.profiled beforeReady.positive
        beforeReady.found]

theorem isProfiled_indexed (file : ElfFile) (found : Nat) (ran : isProfiled file = some found) :
    ∃ shstrndx, elfGetshdrstrndx (elfBegin file) = some shstrndx := by
  cases indexed : elfGetshdrstrndx (elfBegin file) with
  | none =>
      simp only [isProfiled, preparation, indexed, Option.map_none] at ran
      cases ran
  | some shstrndx => exact ⟨shstrndx, rfl⟩

private theorem strtab_of_named (file : ElfFile) (shstrndx offset : Nat) (table : Section)
    (name : List Byte) (found : file.sections[shstrndx]? = some table)
    (resolved : elfStrptr (elfBegin file) shstrndx offset = some name) :
    table.shdr.type = shtStrtab := by
  rw [elfStrptr_table file shstrndx offset table found] at resolved
  split at resolved
  · rename_i strtab
    exact strtab
  · cases resolved

theorem main_add (file : ElfFile) (profile : List Byte) (absent : isProfiled file = some 0) :
    main libelf file profile = addElfSections libelf file profile := by
  unfold main
  rw [absent]
  rfl

/-- Without a name table, the new one takes the empty name of section zero, which there
reads `.profile`. -/
theorem not_reprofiles_nameless (file : ElfFile) (profile : List Byte) (rest : List (List Byte))
    (nullFirst : NullFirst file) (indexed : elfGetshdrstrndx (elfBegin file) = some 0)
    (absent : isProfiled file = some 0) : ¬ Reprofiles libelf file profile rest := by
  rintro ⟨first, final, ran, ranAll, wins⟩
  rw [main_add libelf file profile absent] at ran
  obtain ⟨shstrndx, zero, sameIndexed, found, _fits, augmented⟩ :=
    addElfSections_augmented libelf file first profile ran
  rw [indexed] at sameIndexed
  cases sameIndexed
  obtain ⟨null, nameless⟩ := nullFirst zero found
  have empty : zero.bytes = [] := by
    apply zero.hollow
    unfold Shdr.occupies
    rw [null]
    rfl
  have alone : file.sections.length = 1 := by
    have present : 0 < file.sections.length := (List.getElem?_eq_some_iff.mp found).1
    by_contra more
    have atOne := List.getElem?_eq_getElem (show 1 < file.sections.length by omega)
    obtain ⟨name, resolved, _different⟩ :=
      isProfiled_zero file 0 indexed absent 1 Nat.one_pos _ atOne
    have strtab := strtab_of_named file 0 _ zero name found resolved
    rw [null] at strtab
    cases strtab
  have profileNamed := augmented.profileNamed
  have tableNamed := augmented.tableNamed
  have atEmpty := newShstrtab_profile zero
  rw [empty, List.length_nil] at atEmpty
  rw [nameless, atEmpty] at tableNamed
  obtain ⟨sec, atSec, _name, _type, _bytes⟩ := augmented.profileAdded
  have sameIndex := augmented.indexed
  rw [alone] at profileNamed tableNamed atSec sameIndex
  have profiled : isProfiled first = some 1 := by
    apply isProfiled_first first 2 1 sec sameIndex Nat.one_pos atSec profileNamed
    intro other positive before
    omega
  obtain ⟨otherFinal, _new, otherRanAll, same, _canonical, _atNew⟩ :=
    mainAll_updates libelf first 2 1 sec sameIndex (by decide) (by decide) profiled atSec
      augmented.canonical rest
  rw [ranAll] at otherRanAll
  cases otherRanAll
  obtain ⟨_length, ndx, _sec, _positive, _atNdx, _last, unique, _others⟩ := wins
  have names := same.sectionName 2 sameIndex (by decide)
  have one := (unique 1 Nat.one_pos).mp ((names 1).trans profileNamed)
  have two := (unique 2 Nat.two_pos).mp ((names 2).trans tableNamed)
  omega

private theorem reprofiles_add (file : ElfFile) (profile : List Byte) (rest : List (List Byte))
    (nullFirst : NullFirst file) (absent : isProfiled file = some 0) :
    Reprofiles libelf file profile rest ↔ RoomForNames file ∧ LastTaken libelf file profile rest := by
  have strtab (shstrndx : Nat) (table : Section)
      (indexed : elfGetshdrstrndx (elfBegin file) = some shstrndx) (positive : 0 < shstrndx)
      (found : file.sections[shstrndx]? = some table) : table.shdr.type = shtStrtab := by
    obtain ⟨name, resolved, _different⟩ :=
      isProfiled_zero file shstrndx indexed absent shstrndx positive table found
    exact strtab_of_named file shstrndx _ table name found resolved
  have taken (first : ElfFile) (ran : addElfSections libelf file profile = some first)
      (shstrndx : Nat) (table : Section)
      (indexed : elfGetshdrstrndx (elfBegin file) = some shstrndx) (positive : 0 < shstrndx)
      (found : file.sections[shstrndx]? = some table) (room : RoomForNames file)
      (augmented : Augmented file first profile shstrndx table) :
      Reprofiles libelf file profile rest ↔ LastTaken libelf file profile rest := by
    obtain ⟨sec, ready, _occupies, bytes⟩ := augmented.toProfiled indexed positive found
      (strtab shstrndx table indexed positive found) absent
    apply ready.reprofiles libelf ((main_add libelf file profile absent).trans ran)
    apply iff_of_true _ bytes
    rw [TakesProfile, absent]
    exact room
  constructor
  · intro reprofiles
    have runs := reprofiles
    obtain ⟨first, _final, ran, _ranAll, _wins⟩ := runs
    rw [main_add libelf file profile absent] at ran
    obtain ⟨shstrndx, table, indexed, found, fits, augmented⟩ :=
      addElfSections_augmented libelf file first profile ran
    have positive : 0 < shstrndx := by
      apply Nat.pos_of_ne_zero
      intro zero
      rw [zero] at indexed
      exact not_reprofiles_nameless libelf file profile rest nullFirst indexed absent reprofiles
    have room : RoomForNames file := ⟨shstrndx, table, indexed, positive, found, fits⟩
    exact ⟨room,
      (taken first ran shstrndx table indexed positive found room augmented).mp reprofiles⟩
  · rintro ⟨room, last⟩
    obtain ⟨shstrndx, table, indexed, positive, found, fits⟩ := room
    obtain ⟨first, ran⟩ := addElfSections_isSome libelf file profile shstrndx table indexed found
      (strtab shstrndx table indexed positive found) fits
    obtain ⟨otherNdx, otherTable, otherIndexed, otherFound, _fits, augmented⟩ :=
      addElfSections_augmented libelf file first profile ran
    rw [indexed] at otherIndexed
    cases otherIndexed
    exact (taken first ran shstrndx otherTable indexed positive otherFound
      ⟨shstrndx, table, indexed, positive, found, fits⟩ augmented).mpr last

theorem sampleFile_unprofiled (ndx : Nat) : sectionName sampleFile ndx ≠ some profileName := by
  rcases Nat.lt_or_ge ndx 3 with inside | outside
  · have names : ∀ other < 3, sectionName sampleFile other ≠ some profileName := by decide
    exact names ndx inside
  · rw [sectionName_absent sampleFile ndx outside]
    intro named
    cases named

theorem sampleFile_nullFirst : NullFirst sampleFile := by
  intro zero first
  cases first
  exact ⟨rfl, rfl⟩

theorem sampleFile_atMostOne : AtMostOneProfile sampleFile :=
  fun left _right _leftPositive _rightPositive named _otherNamed =>
    absurd named (sampleFile_unprofiled left)

theorem sampleFile_room : RoomForNames sampleFile := ⟨2, _, rfl, by decide, rfl, by decide⟩

/-- A libelf that writes everything only if the table of section headers has moved. -/
def sparingLibelf : ElfUpdate :=
  .rewriting (fun file elf => decide (layoutShoff file.headersEnd elf.scns ≠ file.eShoff))

end BlackboxProfiling.ElfManipulator
