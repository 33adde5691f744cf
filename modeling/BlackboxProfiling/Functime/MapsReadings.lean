import BlackboxProfiling.EventRun
import BlackboxProfiling.Functime.MapsText

/-!
Readings of maps files over the life of the tool: which lines come out right, and when
all of them do. The table is never emptied, so what one file used up is missing for the
next one.
-/

namespace BlackboxProfiling.Functime.MapsText

open TextScan

structure KernelLine.Entered (line : KernelLine) (vma : VmaStruct) : Prop where
  start : vma.start = line.start
  stop : vma.stop = line.stop
  len : vma.len = line.stop - line.start
  offset : vma.offset = line.offset
  inode : vma.inode = line.inode
  perms : vma.perms = permsText line.perms
  readable : vma.readable = line.perms.read
  writable : vma.writable = line.perms.write
  executable : vma.executable = line.perms.exec
  shared : vma.shared = line.perms.shared

/-- One new entry for each line, in order, and the pages of the last line whose path is
`[heap]`. -/
structure LinesRead (lines : List KernelLine) (before after : VmaTable) : Prop where
  entries : ∃ added, after.vmas = before.vmas ++ added ∧
    List.Forall₂ KernelLine.Entered lines added
  heapSize : after.heapSize = lastPages KernelLine.isHeap before.heapSize lines

/-- The reading comes back, with all lines in the table or with too many for it. -/
def ReadsLines (unset : Nat → ScanLocals) (before : VmaTable) (lines : List KernelLine) : Prop :=
  ∃ after, readProcMapsFile unset (mapsText lines) before = some after ∧
    (LinesRead lines before after ∨ maxNumVma < before.vmas.length + lines.length)

/-- Every line fits the buffer, its device and offset fit their variables, there are
entries for all lines, and the last line that is taken for the heap has that path, or as
many pages as the heap. -/
structure LinesFit (used heapSize : Nat) (lines : List KernelLine) : Prop where
  short : ∀ line, line ∈ lines → line.text.length ≤ bufRoom
  device : ∀ line, line ∈ lines → line.major < 0x100 ∧ line.minor < 0x100
  offset : ∀ line, line ∈ lines → line.offset < unsignedLongs
  room : used + lines.length ≤ maxNumVma
  heap : ∀ line, lines.findRev? KernelLine.labelled = some line →
    line.path = heapLabel ∨ line.pages = lastPages KernelLine.isHeap heapSize lines

private theorem device_length_iff (line : KernelLine) :
    line.device.length ≤ 5 ↔ line.major < 0x100 ∧ line.minor < 0x100 := by
  have two (value : Nat) : (Nat.toDigits 16 value).length ≤ 2 ↔ value < 0x100 :=
    Nat.length_toDigits_le_iff (by omega) (by omega)
  rw [KernelLine.device, List.length_append, List.length_cons, padded_length, padded_length,
    ← two line.major, ← two line.minor]
  omega

private theorem lineVma_entered_iff (nvma : Nat) (line : KernelLine) (defname : List Char) :
    line.Entered (lineVma nvma line defname) ↔ line.offset < unsignedLongs := by
  have exactly := unsignedValue_exact_iff unsignedLongs line.offset
  have positive : 0 < unsignedLongs := by decide
  constructor
  · intro entered
    rcases exactly.mp entered.offset with fits | zero
    · exact fits
    · omega
  · intro fits
    exact ⟨rfl, rfl, rfl, exactly.mpr (Or.inl fits), rfl, rfl, rfl, rfl, rfl, rfl⟩

private theorem lineVmas_entered_iff (nvma : Nat) (defname : List Char) (lines : List KernelLine) :
    List.Forall₂ KernelLine.Entered lines (lineVmas nvma defname lines) ↔
      ∀ line, line ∈ lines → line.offset < unsignedLongs := by
  induction lines generalizing nvma defname with
  | nil => exact iff_of_true List.Forall₂.nil (fun line absent => by cases absent)
  | cons line rest ih =>
      rw [lineVmas, List.forall₂_cons, lineVma_entered_iff, ih, List.forall_mem_cons]

private theorem seen_plain (line : KernelLine) (plain : nul ∉ line.path) : line.seen = line.named := by
  have whole : cString (line.named ++ ['\n']) = line.named ++ ['\n'] := by
    apply List.takeWhile_eq_self_iff.mpr
    intro letter member
    apply decide_eq_true
    intro same
    rw [same] at member
    rcases List.mem_append.mp member with name | newline
    · rcases List.mem_append.mp name with blank | letter
      · exact absurd (List.eq_of_mem_replicate blank) (by decide)
      · exact plain letter
    · exact absurd (List.mem_singleton.mp newline) (by decide)
  rw [KernelLine.seen, whole, List.dropLast_concat]

private theorem labelled_of_isHeap (line : KernelLine) (heap : line.isHeap = true) :
    line.labelled = true := by
  have path := of_decide_eq_true heap
  have seen := seen_plain line (by
    rw [path]
    decide)
  have first : firstWord line.named = heapLabel := by
    have blanks : ∀ letter, letter ∈ List.replicate line.pad ' ' → isBlank letter = true := by
      intro letter member
      rw [List.eq_of_mem_replicate member]
      decide
    rw [firstWord, KernelLine.named, path, List.dropWhile_append_of_pos blanks]
    decide
  apply decide_eq_true
  rw [scannedName, seen, first]
  decide

theorem findRev?_narrow (picked wider : KernelLine → Bool)
    (narrower : ∀ line, picked line = true → wider line = true) (lines : List KernelLine) :
    (lines.findRev? wider = none → lines.findRev? picked = none) ∧
      ∀ line, lines.findRev? wider = some line → picked line = true →
        lines.findRev? picked = some line := by
  induction lines with
  | nil =>
      constructor
      · intro none
        exact none
      · intro line absent
        cases absent
  | cons first rest ih =>
      obtain ⟨noneLater, sameLater⟩ := ih
      simp only [List.findRev?]
      cases later : rest.findRev? wider with
      | some last =>
          dsimp only
          constructor
          · intro none
            cases none
          · intro line same chosen
            cases same
            rw [sameLater last later chosen]
      | none =>
          rw [noneLater later]
          dsimp only
          cases here : wider first with
          | false =>
              have skipped : picked first = false := by
                cases chosen : picked first with
                | false => rfl
                | true => exact absurd ((narrower first chosen).symm.trans here) (by decide)
              rw [skipped]
              constructor
              · intro none
                exact none
              · intro line absent
                cases absent
          | true =>
              constructor
              · intro none
                cases none
              · intro line same chosen
                cases same
                rw [if_pos chosen]

private theorem lastPages_heap_iff (before : Nat) (lines : List KernelLine) :
    lastPages KernelLine.labelled before lines = lastPages KernelLine.isHeap before lines ↔
      ∀ line, lines.findRev? KernelLine.labelled = some line →
        line.path = heapLabel ∨ line.pages = lastPages KernelLine.isHeap before lines := by
  obtain ⟨noneLabelled, sameLine⟩ :=
    findRev?_narrow KernelLine.isHeap KernelLine.labelled labelled_of_isHeap lines
  cases found : lines.findRev? KernelLine.labelled with
  | none =>
      apply iff_of_true
      · simp only [lastPages, found, noneLabelled found]
      · intro line absent
        cases absent
  | some line =>
      have taken : lastPages KernelLine.labelled before lines = line.pages := by
        simp only [lastPages, found]
      rw [taken]
      constructor
      · intro same other here
        cases here
        exact Or.inr same
      · intro settled
        rcases settled line rfl with path | pages
        · have heap := sameLine line found (decide_eq_true path)
          simp only [lastPages, heap]
        · exact pages

private theorem readsLines_iff (unset : Nat → ScanLocals) (before : VmaTable)
    (lines : List KernelLine) :
    ReadsLines unset before lines ↔ LinesFit before.vmas.length before.heapSize lines := by
  constructor
  · intro reads
    obtain ⟨after, ran, outcome⟩ := reads
    obtain ⟨atLeast, exactly⟩ := fgetsCalls_mapsText_length lines
    have counted := readProcMapsLoop_length unset 0 _ _ before after ran
    have bounded := after.bounded
    rcases outcome with read | full
    · obtain ⟨added, entries, entered⟩ := read.entries
      have lengths := entered.length_eq
      rw [entries, List.length_append] at counted
      have short := exactly (by omega)
      rw [readProcMapsFile, fgetsCalls_mapsText lines short] at ran
      obtain ⟨devices, room, made, size⟩ :=
        (readProcMapsLoop_lines unset 0 _ lines before after).mp ran
      have same : added = lineVmas 0 ['u', 'n', 'k', 'n', 'o', 'w', 'n'] lines :=
        List.append_cancel_left (entries.symm.trans made)
      rw [same] at entered
      constructor
      · exact short
      · intro line member
        exact (device_length_iff line).mp (devices line member)
      · exact (lineVmas_entered_iff 0 _ lines).mp entered
      · exact room
      · exact (lastPages_heap_iff before.heapSize lines).mp (size.symm.trans read.heapSize)
    · omega
  · intro fit
    have room := fit.room
    have devices : ∀ line, line ∈ lines → line.device.length ≤ 5 := by
      intro line member
      exact (device_length_iff line).mpr (fit.device line member)
    let after : VmaTable :=
      { vmas := before.vmas ++ lineVmas 0 ['u', 'n', 'k', 'n', 'o', 'w', 'n'] lines
        heapSize := lastPages KernelLine.labelled before.heapSize lines
        bounded := by
          have entered := (lineVmas_entered_iff 0 ['u', 'n', 'k', 'n', 'o', 'w', 'n'] lines).mpr
            fit.offset
          rw [List.length_append, ← entered.length_eq]
          exact room }
    refine ⟨after, ?_, Or.inl ?_⟩
    · rw [readProcMapsFile, fgetsCalls_mapsText lines fit.short]
      exact (readProcMapsLoop_lines unset 0 _ lines before after).mpr
        ⟨devices, room, rfl, rfl⟩
    · constructor
      · exact ⟨_, rfl, (lineVmas_entered_iff 0 _ lines).mpr fit.offset⟩
      · exact (lastPages_heap_iff before.heapSize lines).mpr fit.heap

def emptyVmaTable : VmaTable := { vmas := [], heapSize := 0, bounded := Nat.zero_le _ }

def zeroLocals : ScanLocals := ⟨0, 0, [], 0, [], 0⟩

def longPathLine : KernelLine where
  start := 0x76e00000
  stop := 0x76f00000
  perms := ⟨true, false, true, false⟩
  offset := 0
  major := 0xb3
  minor := 2
  inode := 4711
  pad := 7
  path := '/' :: List.replicate 220 'a'
  ordered := by decide
  stopBounded := by decide
  inodeBounded := by decide
  separated _named := by decide
  oneLine := by decide

theorem longPath_entered_twice :
    (readProcMapsFile (fun _ => zeroLocals) (mapsText [longPathLine]) emptyVmaTable).map
        (fun after => after.vmas.length) = some 2 ∧
      ¬ ReadsLines (fun _ => zeroLocals) emptyVmaTable [longPathLine] := by
  have twice : (readProcMapsFile (fun _ => zeroLocals) (mapsText [longPathLine])
      emptyVmaTable).map (fun after => after.vmas.length) = some 2 := by decide +kernel
  refine ⟨twice, ?_⟩
  intro reads
  obtain ⟨after, ran, outcome⟩ := reads
  rw [ran, Option.map_some, Option.some.injEq] at twice
  rcases outcome with read | full
  · obtain ⟨added, entries, entered⟩ := read.entries
    have one := entered.length_eq
    rw [entries] at twice
    exact absurd (one.trans twice) (by decide)
  · exact absurd full (by decide)

def nextReading (unset : Nat → ScanLocals) (table : Option VmaTable) (lines : List KernelLine) :
    Option VmaTable :=
  table.bind (readProcMapsFile unset (mapsText lines))

def nextCount (count : Nat × Nat) (lines : List KernelLine) : Nat × Nat :=
  (count.1 + lines.length, lastPages KernelLine.isHeap count.2 lines)

def ReadingRight (unset : Nat → ScanLocals) (table : Option VmaTable)
    (lines : List KernelLine) : Prop :=
  ∃ before, table = some before ∧ ReadsLines unset before lines

/-- Every file is read right exactly when its lines fit, given what the files before it
have used up. -/
theorem readings_right_iff (unset : Nat → ScanLocals) (table : VmaTable)
    (files : List (List KernelLine)) :
    EventRun.EachStep (nextReading unset) (ReadingRight unset) (some table) files ↔
      EventRun.EachStep nextCount (fun count lines => LinesFit count.1 count.2 lines)
        (table.vmas.length, table.heapSize) files := by
  apply EventRun.eachStep_related _ _ _ _ (fun table (count : Nat × Nat) =>
    ∃ reached : VmaTable, table = some reached ∧ reached.vmas.length = count.1 ∧
      reached.heapSize = count.2)
  · intro state count lines related
    obtain ⟨reached, same, used, size⟩ := related
    rw [← used, ← size, ← readsLines_iff unset reached lines]
    constructor
    · intro right
      obtain ⟨before, other, reads⟩ := right
      rw [same] at other
      cases other
      exact reads
    · intro reads
      exact ⟨reached, same, reads⟩
  · intro state count lines related right
    obtain ⟨reached, same, used, size⟩ := related
    obtain ⟨before, other, reads⟩ := right
    rw [same] at other
    cases other
    have fit := (readsLines_iff unset reached lines).mp reads
    obtain ⟨after, ran, outcome⟩ := reads
    refine ⟨after, ?_, ?_, ?_⟩
    · rw [nextReading, same]
      exact ran
    · rcases outcome with read | full
      · obtain ⟨added, entries, entered⟩ := read.entries
        rw [entries, List.length_append, ← entered.length_eq, used]
        rfl
      · have room := fit.room
        omega
    · rcases outcome with read | full
      · rw [read.heapSize, size]
        rfl
      · have room := fit.room
        omega
  · exact ⟨table, rfl, rfl, rfl⟩

end BlackboxProfiling.Functime.MapsText
