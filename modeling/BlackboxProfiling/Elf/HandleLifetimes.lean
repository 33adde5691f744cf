import BlackboxProfiling.HandleTrace
import BlackboxProfiling.Elf.Reprofile

/-!
The descriptors and libelf handles of `elf_manipulator.c` over a run that returns.
`is_profiled` says farewell only where it finds the section, and asks the section for
its index after that; each of the two other users opens and closes its own.
-/

namespace BlackboxProfiling.ElfManipulator

open Libelf HandleTrace

inductive LibelfCall where
  | getshdrstrndx
  | nextscn
  | getscn
  | newscn
  | ndxscn
  | getshdr
  | updateShdr
  | getehdr
  | updateEhdr
  | strptr
  | getdata
  | newdata
  | dataField
  | update
  deriving DecidableEq, Repr

/-- The descriptor of `is_profiled` has the number zero, the one opened after it the
number one. A use takes the handle itself or one of a section or its data. -/
inductive HandleEvent where
  | openFile (fd : Nat)
  | elfBegin (elf : Nat)
  | use (elf : Nat) (call : LibelfCall)
  | elfEnd (elf : Nat)
  | close (fd : Nat)
  | fopenProfile
  | fcloseProfile
  deriving DecidableEq, Repr

def HandleEvent.elf : HandleEvent → Option (Event Nat)
  | .elfBegin elf => some (.opened elf)
  | .use elf _call => some (.used elf)
  | .elfEnd elf => some (.closed elf)
  | _ => none

def HandleEvent.fd : HandleEvent → Option (Event Nat)
  | .openFile fd => some (.opened fd)
  | .close fd => some (.closed fd)
  | _ => none

def HandleEvent.profile : HandleEvent → Option (Event Unit)
  | .fopenProfile => some (.opened ())
  | .fcloseProfile => some (.closed ())
  | _ => none

def preparationEvents (opened : Nat) : List HandleEvent :=
  [.openFile opened, .elfBegin opened, .use opened .getshdrstrndx]

def farewellEvents (opened : Nat) : List HandleEvent := [.elfEnd opened, .close opened]

def visitEvents : List HandleEvent :=
  [.use 0 .nextscn, .use 0 .getshdr, .use 0 .strptr, .use 0 .ndxscn]

/-- `ended` is what `elf_ndxscn` reads from a section whose descriptor has been ended,
if it comes back at all. -/
def isProfiledLoopEvents (ended : Nat → Option Nat) (elf : Elf) (shstrndx : Nat) :
    Nat → List Scn → Option (Nat × List HandleEvent)
  | _ndx, [] => some (0, [.use 0 .nextscn])
  | ndx, scn :: rest =>
      match elfStrptr elf shstrndx scn.shdr.name with
      | none => none
      | some name =>
          if name = profileName then
            (ended ndx).map (fun scndx =>
              (scndx, visitEvents ++ (farewellEvents 0 ++ [.use 0 .ndxscn])))
          else
            (isProfiledLoopEvents ended elf shstrndx (ndx + 1) rest).map (fun left =>
              (left.1, visitEvents ++ left.2))

def isProfiledEvents (ended : Nat → Option Nat) (file : ElfFile) :
    Option (Nat × List HandleEvent) :=
  match preparation file with
  | none => none
  | some (elf, shstrndx) =>
      (isProfiledLoopEvents ended elf shstrndx 1 (elf.scns.drop 1)).map (fun left =>
        (left.1, preparationEvents 0 ++ left.2))

def readFileEvents : List HandleEvent := [.fopenProfile, .fcloseProfile]

def updateProfileEvents : List HandleEvent :=
  preparationEvents 1 ++ [.use 1 .getscn, .use 1 .getdata, .use 1 .getshdr] ++ readFileEvents ++
    [.use 1 .dataField, .use 1 .updateShdr, .use 1 .update] ++ farewellEvents 1

def setshstrndxEvents (ndx : Nat) : List HandleEvent :=
  if ndx < shnLoreserve then [.use 1 .getehdr, .use 1 .updateEhdr]
  else [.use 1 .getehdr, .use 1 .getscn, .use 1 .getshdr, .use 1 .updateShdr, .use 1 .updateEhdr]

def newSectionEvents : List HandleEvent :=
  [.use 1 .newscn, .use 1 .newdata, .use 1 .dataField, .use 1 .getshdr, .use 1 .updateShdr]

def addElfSectionsEvents (newShstrndx : Nat) : List HandleEvent :=
  preparationEvents 1 ++
    [.use 1 .getshdrstrndx, .use 1 .getscn, .use 1 .getdata, .use 1 .dataField, .use 1 .getshdr,
      .use 1 .updateShdr] ++
    readFileEvents ++ newSectionEvents ++ newSectionEvents ++ [.use 1 .ndxscn] ++
    setshstrndxEvents newShstrndx ++ [.use 1 .update] ++ farewellEvents 1

/-- The events of a run that returns; `none` when an argument is missing. The profile
is what `read_file` has put into its buffer. -/
def mainEvents (libelf : ElfUpdate) (ended : Nat → Option Nat) :
    Option (ElfFile × List Byte) → Option (List HandleEvent)
  | none => some []
  | some (file, profile) =>
      match isProfiledEvents ended file with
      | none => none
      | some (profileScndx, events) =>
          if profileScndx ≠ 0 then
            (updateProfile libelf file profile profileScndx).map (fun _after =>
              events ++ updateProfileEvents)
          else
            (addElfSections libelf file profile).map (fun _after =>
              events ++ addElfSectionsEvents (file.sections.length + 1))

private theorem isProfiledLoopEvents_result (elf : Elf) (shstrndx ndx : Nat) (scns : List Scn) :
    (isProfiledLoopEvents some elf shstrndx ndx scns).map Prod.fst =
      isProfiledLoop elf shstrndx ndx scns := by
  induction scns generalizing ndx with
  | nil => rfl
  | cons scn rest ih =>
      simp only [isProfiledLoopEvents, isProfiledLoop]
      cases elfStrptr elf shstrndx scn.shdr.name with
      | none => rfl
      | some name =>
          dsimp only
          split
          · rfl
          · rw [Option.map_map, ← ih (ndx + 1)]
            rfl

private theorem isProfiledEvents_result (file : ElfFile) :
    (isProfiledEvents some file).map Prod.fst = isProfiled file := by
  unfold isProfiledEvents isProfiled
  cases preparation file with
  | none => rfl
  | some opened =>
      dsimp only
      rw [Option.map_map, ← isProfiledLoopEvents_result]
      rfl

/-- Where an ended section keeps its index, the runs that return are those of `main`. -/
theorem mainEvents_isSome (libelf : ElfUpdate) (file : ElfFile) (profile : List Byte) :
    (mainEvents libelf some (some (file, profile))).isSome = (main libelf file profile).isSome := by
  have result := isProfiledEvents_result file
  unfold main
  rw [← result]
  simp only [mainEvents]
  cases isProfiledEvents some file with
  | none => rfl
  | some left =>
      obtain ⟨scndx, events⟩ := left
      dsimp only [Option.map_some]
      split
      · exact Option.isSome_map
      · exact Option.isSome_map

def elfTrace (events : List HandleEvent) : List (Event Nat) := events.filterMap HandleEvent.elf

def fdTrace (events : List HandleEvent) : List (Event Nat) := events.filterMap HandleEvent.fd

def profileTrace (events : List HandleEvent) : List (Event Unit) :=
  events.filterMap HandleEvent.profile

inductive FirstTrace : Bool → List HandleEvent → Prop where
  | ended (events : List HandleEvent) (uses : Nat)
      (elf : elfTrace events = session 0 uses ++ [.used 0]) (fd : fdTrace events = session 0 0)
      (profile : profileTrace events = []) : FirstTrace true events
  | leftOpen (events : List HandleEvent) (uses : Nat)
      (elf : elfTrace events = .opened 0 :: List.replicate uses (.used 0))
      (fd : fdTrace events = [.opened 0]) (profile : profileTrace events = []) :
      FirstTrace false events

structure SecondTrace (events : List HandleEvent) : Prop where
  elf : ∃ uses, elfTrace events = session 1 uses
  fd : fdTrace events = session 1 0
  profile : profileTrace events = session () 0

private theorem elfTrace_append (first second : List HandleEvent) :
    elfTrace (first ++ second) = elfTrace first ++ elfTrace second :=
  List.filterMap_append

private theorem fdTrace_append (first second : List HandleEvent) :
    fdTrace (first ++ second) = fdTrace first ++ fdTrace second :=
  List.filterMap_append

private theorem profileTrace_append (first second : List HandleEvent) :
    profileTrace (first ++ second) = profileTrace first ++ profileTrace second :=
  List.filterMap_append

private theorem updateProfileEvents_second : SecondTrace updateProfileEvents :=
  ⟨⟨7, rfl⟩, rfl, rfl⟩

private theorem addElfSectionsEvents_second (newShstrndx : Nat) :
    SecondTrace (addElfSectionsEvents newShstrndx) := by
  unfold addElfSectionsEvents setshstrndxEvents
  split
  · exact ⟨⟨21, rfl⟩, rfl, rfl⟩
  · exact ⟨⟨24, rfl⟩, rfl, rfl⟩

/-- The loop uses the open handle, and a last time after the end where it finds the
section. -/
theorem isProfiledLoopEvents_trace (ended : Nat → Option Nat) (elf : Elf)
    (shstrndx ndx scndx : Nat) (scns : List Scn) (events : List HandleEvent)
    (positive : 0 < ndx)
    (ran : isProfiledLoopEvents ended elf shstrndx ndx scns = some (scndx, events)) :
    profileTrace events = [] ∧ ∃ uses,
      (isProfiledLoop elf shstrndx ndx scns = some 0 ∧ scndx = 0 ∧
          elfTrace events = List.replicate uses (.used 0) ∧ fdTrace events = []) ∨
        ∃ found, 0 < found ∧ isProfiledLoop elf shstrndx ndx scns = some found ∧
          ended found = some scndx ∧
          elfTrace events = List.replicate uses (.used 0) ++ [.closed 0, .used 0] ∧
          fdTrace events = [.closed 0] := by
  induction scns generalizing ndx events with
  | nil =>
      cases ran
      exact ⟨rfl, 1, Or.inl ⟨rfl, rfl, rfl, rfl⟩⟩
  | cons scn rest ih =>
      simp only [isProfiledLoopEvents, isProfiledLoop] at ran ⊢
      cases resolved : elfStrptr elf shstrndx scn.shdr.name with
      | none =>
          rw [resolved] at ran
          cases ran
      | some name =>
          simp only [resolved] at ran ⊢
          by_cases isProfile : name = profileName
          · rw [if_pos isProfile] at ran ⊢
            obtain ⟨read, atEnded, same⟩ := Option.map_eq_some_iff.mp ran
            cases same
            exact ⟨rfl, 4, Or.inr ⟨ndx, positive, rfl, atEnded, rfl, rfl⟩⟩
          · rw [if_neg isProfile] at ran ⊢
            obtain ⟨left, later, same⟩ := Option.map_eq_some_iff.mp ran
            cases same
            obtain ⟨noProfile, uses, traces⟩ := ih (ndx + 1) left.2 (Nat.succ_pos ndx) later
            have four : elfTrace visitEvents = List.replicate 4 (.used 0) := rfl
            refine ⟨?_, 4 + uses, ?_⟩
            · rw [profileTrace_append, noProfile]
              rfl
            · rw [elfTrace_append, fdTrace_append, four, List.replicate_add]
              rcases traces with ⟨absent, zero, elfUses, noFd⟩ |
                ⟨found, foundPositive, present, read, elfUses, closed⟩
              · rw [elfUses, noFd]
                exact Or.inl ⟨absent, zero, rfl, rfl⟩
              · rw [elfUses, closed, List.append_assoc]
                exact Or.inr ⟨found, foundPositive, present, read, rfl, rfl⟩

private theorem isProfiledEvents_first (ended : Nat → Option Nat) (file : ElfFile) (scndx : Nat)
    (events : List HandleEvent) (ran : isProfiledEvents ended file = some (scndx, events)) :
    FirstTrace (decide (isProfiled file ≠ some 0)) events := by
  unfold isProfiledEvents at ran
  cases prepared : preparation file with
  | none =>
      rw [prepared] at ran
      cases ran
  | some opened =>
      obtain ⟨elf, shstrndx⟩ := opened
      rw [prepared] at ran
      obtain ⟨left, looped, same⟩ := Option.map_eq_some_iff.mp ran
      cases same
      have result : isProfiled file = isProfiledLoop elf shstrndx 1 (elf.scns.drop 1) := by
        rw [isProfiled, prepared]
      obtain ⟨noProfile, uses, traces⟩ :=
        isProfiledLoopEvents_trace ended elf shstrndx 1 left.1 _ left.2 Nat.one_pos looped
      have profile : profileTrace (preparationEvents 0 ++ left.2) = [] := by
        rw [profileTrace_append, noProfile]
        rfl
      rcases traces with ⟨absent, _zero, elfUses, noFd⟩ |
        ⟨found, positive, present, _read, elfUses, closed⟩
      · rw [result, absent]
        apply FirstTrace.leftOpen _ (uses + 1) _ _ profile
        · rw [elfTrace_append, elfUses]
          rfl
        · rw [fdTrace_append, noFd]
          rfl
      · have notZero : decide (isProfiled file ≠ some 0) = true := by
          rw [result, present, decide_eq_true_iff]
          intro same
          cases same
          exact absurd positive (Nat.lt_irrefl 0)
        rw [notZero]
        apply FirstTrace.ended _ (uses + 1) _ _ profile
        · rw [elfTrace_append, elfUses, session, List.cons_append, List.append_assoc]
          rfl
        · rw [fdTrace_append, closed]
          rfl

theorem mainEvents_parts (libelf : ElfUpdate) (ended : Nat → Option Nat) (file : ElfFile)
    (profile : List Byte)
    (events : List HandleEvent) (returned : mainEvents libelf ended (some (file, profile)) = some events) :
    ∃ first second, events = first ++ second ∧
      FirstTrace (decide (isProfiled file ≠ some 0)) first ∧ SecondTrace second := by
  simp only [mainEvents] at returned
  cases ran : isProfiledEvents ended file with
  | none =>
      rw [ran] at returned
      cases returned
  | some left =>
      obtain ⟨scndx, first⟩ := left
      have firstTrace := isProfiledEvents_first ended file scndx first ran
      simp only [ran] at returned
      split at returned
      · obtain ⟨_after, _updated, same⟩ := Option.map_eq_some_iff.mp returned
        exact ⟨first, _, same.symm, firstTrace, updateProfileEvents_second⟩
      · obtain ⟨_after, _added, same⟩ := Option.map_eq_some_iff.mp returned
        exact ⟨first, _, same.symm, firstTrace, addElfSectionsEvents_second _⟩

/-- Handles of a descriptor are used while it is open, every descriptor is ended once
and every file closed once, and the file is not opened again before that. -/
structure HandlesDisciplined (events : List HandleEvent) : Prop where
  uses : UsedWhileOpen (elfTrace events)
  ends : ClosedOnce (elfTrace events)
  closes : ClosedOnce (fdTrace events)
  profileCloses : ClosedOnce (profileTrace events)
  reopens : OneAtATime (fdTrace events)

private theorem disciplined_nil : HandlesDisciplined [] := by
  constructor
  · intro before handle after split
    cases before <;> cases split
  · intro handle opened
    cases opened
  · intro handle opened
    cases opened
  · intro handle opened
    cases opened
  · intro before handle after split
    cases before <;> cases split

theorem profileTrace_closedOnce (profiled : Bool) (first second : List HandleEvent)
    (firstTrace : FirstTrace profiled first) (secondTrace : SecondTrace second) :
    ClosedOnce (profileTrace (first ++ second)) := by
  have noProfile : profileTrace first = [] := by
    cases firstTrace with
    | ended _events uses elf fd profile => exact profile
    | leftOpen _events uses elf fd profile => exact profile
  rw [profileTrace_append, noProfile, secondTrace.profile]
  exact closedOnce_session () 0

/-- Where `.profile` is found, only the last use of its handle breaks a rule. -/
theorem ended_faults (first second : List HandleEvent) (firstTrace : FirstTrace true first)
    (secondTrace : SecondTrace second) :
    ¬ UsedWhileOpen (elfTrace (first ++ second)) ∧ ClosedOnce (elfTrace (first ++ second)) ∧
      ClosedOnce (fdTrace (first ++ second)) ∧ OneAtATime (fdTrace (first ++ second)) := by
  obtain ⟨later, secondElf⟩ := secondTrace.elf
  cases firstTrace with
  | ended _events uses elf fd profile =>
      rw [elfTrace_append, fdTrace_append, elf, fd, secondElf, secondTrace.fd]
      have different : (0 : Nat) ≠ 1 := Nat.zero_ne_one
      refine ⟨?_, ?_, ?_, ?_⟩
      · intro kept
        obtain ⟨_opened, open_⟩ := kept (session 0 uses) 0 (session 1 later)
          (by rw [List.append_assoc]; rfl)
        exact open_ (List.mem_cons_of_mem _ (List.mem_append_right _ List.mem_cons_self))
      · apply closedOnce_append
        · intro early earlyMember late lateMember same
          rw [mem_session 1 later late lateMember] at same
          rcases List.mem_append.mp earlyMember with inSession | last
          · rw [mem_session 0 uses early inSession] at same
            exact different same
          · rw [List.mem_singleton.mp last] at same
            exact different same
        · exact closedOnce_used _ 0 (closedOnce_session 0 uses)
        · exact closedOnce_session 1 later
      · exact closedOnce_append _ _ (session_apart 0 1 different 0 0) (closedOnce_session 0 0)
          (closedOnce_session 1 0)
      · exact oneAtATime_append _ _ (oneAtATime_session 0 0)
          (fun handle => allClosed_session 0 handle 0) (oneAtATime_session 1 0)

/-- Where it is not, every use is in time and the first descriptor stays open. -/
theorem leftOpen_faults (first second : List HandleEvent) (firstTrace : FirstTrace false first)
    (secondTrace : SecondTrace second) :
    UsedWhileOpen (elfTrace (first ++ second)) ∧ ¬ ClosedOnce (elfTrace (first ++ second)) ∧
      ¬ ClosedOnce (fdTrace (first ++ second)) ∧ ¬ OneAtATime (fdTrace (first ++ second)) := by
  obtain ⟨later, secondElf⟩ := secondTrace.elf
  cases firstTrace with
  | leftOpen _events uses elf fd profile =>
      rw [elfTrace_append, fdTrace_append, elf, fd, secondElf, secondTrace.fd]
      have notEnded : Event.closed 0 ∉
          (Event.opened 0 :: List.replicate uses (Event.used 0)) ++ session 1 later := by
        intro closed
        rcases List.mem_append.mp closed with early | late
        · rcases List.mem_cons.mp early with opened | use
          · cases opened
          · cases List.eq_of_mem_replicate use
        · have handle := mem_session 1 later (.closed 0) late
          cases handle
      refine ⟨?_, ?_, ?_, ?_⟩
      · apply usedWhileOpen_append
        · intro early earlyMember late lateMember same
          rw [mem_session 1 later late lateMember] at same
          rcases List.mem_cons.mp earlyMember with opened | use
          · rw [opened] at same
            cases same
          · rw [List.eq_of_mem_replicate use] at same
            cases same
        · have whole := usedWhileOpen_uses 0 uses [] (fun event member => by cases member)
          rw [List.append_nil] at whole
          exact whole
        · exact usedWhileOpen_session 1 later
      · intro kept
        have once := kept 0 List.mem_cons_self
        rw [List.count_eq_zero.mpr notEnded] at once
        cases once
      · intro kept
        exact absurd (kept 0 List.mem_cons_self) (by decide)
      · intro kept
        have closed := kept [.opened 0] 1 [.closed 1] rfl 0 List.mem_cons_self
        exact absurd closed (by decide)

/-- No run that opens the file and returns keeps all the rules. -/
theorem handlesDisciplined_iff (libelf : ElfUpdate) (ended : Nat → Option Nat)
    (arguments : Option (ElfFile × List Byte)) (events : List HandleEvent)
    (returned : mainEvents libelf ended arguments = some events) :
    HandlesDisciplined events ↔ arguments = none := by
  cases arguments with
  | none =>
      cases returned
      exact iff_of_true disciplined_nil rfl
  | some both =>
      obtain ⟨file, profile⟩ := both
      obtain ⟨first, second, same, firstTrace, secondTrace⟩ :=
        mainEvents_parts libelf ended file profile events returned
      apply iff_of_false
      · intro disciplined
        rw [same] at disciplined
        cases found : decide (isProfiled file ≠ some 0) with
        | true =>
            rw [found] at firstTrace
            exact (ended_faults first second firstTrace secondTrace).1 disciplined.uses
        | false =>
            rw [found] at firstTrace
            exact (leftOpen_faults first second firstTrace secondTrace).2.1 disciplined.ends
      · intro absent
        cases absent

theorem handlesDisciplined_iff_sample :
    ∃ events, mainEvents sampleLibelf some (some (sampleFile, [1])) = some events ∧
      ¬ HandlesDisciplined events := by
  refine ⟨_, rfl, ?_⟩
  rw [handlesDisciplined_iff sampleLibelf some (some (sampleFile, [1])) _ rfl]
  intro absent
  cases absent

def profiledFile : ElfFile :=
  { eShstrndx := 2
    headersEnd := 52
    eShoff := 64
    sections :=
      [storedSection emptyShdr 0 [],
        storedSection
          { emptyShdr with name := 1, type := shtProgbits, offset := 52, addralign := 1 } 2 [7, 8],
        storedSection
          { emptyShdr with name := 9, type := shtStrtab, offset := 54, addralign := 1 } 10
          (0 :: (profileName ++ [0]))] }

theorem profiled_used_after_end :
    ∃ events, mainEvents sampleLibelf some (some (profiledFile, [1])) = some events ∧
      ¬ HandlesDisciplined events := by
  refine ⟨_, rfl, ?_⟩
  intro disciplined
  have stillOpen := (disciplined.uses (session 0 5) 0 (session 1 7) rfl).2
  exact stillOpen (by decide)

end BlackboxProfiling.ElfManipulator
