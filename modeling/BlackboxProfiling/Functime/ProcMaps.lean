import BlackboxProfiling.Kernel.BothMultiple
import BlackboxProfiling.TextScan

/-!
How `functime` finds the heap: it reads `/proc/pid/maps` line by line, keeps one
table entry per line and takes `heap_size` from the line labelled `[heap]`. The
kernel module finds the heap by comparing boundaries instead. A line is taken as
`sscanf` delivers its fields; only the path is still text.
-/

namespace BlackboxProfiling.Functime

def maxNumVma : Nat := 1024

def mappedfileRoom : Nat := 32

def heapLabel : List Char := ['[', 'h', 'e', 'a', 'p', ']']

def stackLabel : List Char := ['[', 's', 't', 'a', 'c', 'k', ']']

structure Perms where
  read : Bool
  write : Bool
  exec : Bool
  shared : Bool
  deriving DecidableEq, Repr

structure MapsLine where
  start : Nat
  stop : Nat
  perms : Perms
  offset : Nat
  dev : List Char
  inode : Nat
  path : List Char
  deriving DecidableEq, Repr

structure MapsEntry where
  chunkId : Nat
  start : Nat
  stop : Nat
  len : Nat
  offset : Nat
  inode : Nat
  perms : Perms
  dev : List Char
  mappedfile : List Char
  fmapped : Bool
  stack : Bool
  heap : Bool
  deriving DecidableEq, Repr

structure MapsTable where
  vmas : List MapsEntry
  heapSize : Nat
  bounded : vmas.length ≤ maxNumVma

def scannedName (path : List Char) : List Char :=
  (TextScan.firstWord path).take mappedfileRoom

def lastComponent (path : List Char) : List Char :=
  (path.reverse.takeWhile (fun letter => letter ≠ '/')).reverse

def entryName (path defname : List Char) : List Char :=
  if scannedName path ≠ [] then
    if '/' ∈ path then (lastComponent path).take mappedfileRoom else scannedName path
  else ('[' :: defname ++ [']']).take mappedfileRoom

def scannedEntry (chunkId : Nat) (line : MapsLine) (defname : List Char) : MapsEntry :=
  { chunkId := chunkId
    start := line.start
    stop := line.stop
    len := line.stop - line.start
    offset := line.offset
    inode := line.inode
    perms := line.perms
    dev := line.dev
    mappedfile := entryName line.path defname
    fmapped := line.inode ≠ 0
    stack := scannedName line.path = stackLabel
    heap := scannedName line.path = heapLabel }

/-- `vma_alloc` fails when the table is full, and the failure is dereferenced. -/
def scanProcMapsLine (chunkId : Nat) (line : MapsLine) (defname : List Char)
    (table : MapsTable) : Option (MapsEntry × MapsTable) :=
  let entry := scannedEntry chunkId line defname
  if room : table.vmas.length < maxNumVma then
    some (entry,
      { vmas := table.vmas ++ [entry]
        heapSize :=
          if entry.heap then (entry.stop - entry.start) / pageSize else table.heapSize
        bounded := by
          rw [List.length_append]
          exact room })
  else none

def readProcMapsLoop (nvma : Nat) (defname : List Char) : List MapsLine → MapsTable → Option MapsTable
  | [], table => some table
  | line :: rest, table =>
      match scanProcMapsLine nvma line defname table with
      | none => none
      | some (entry, grown) => readProcMapsLoop (nvma + 1) entry.mappedfile rest grown

def readProcMapsFile (lines : List MapsLine) (table : MapsTable) : Option MapsTable :=
  readProcMapsLoop 0 ['u', 'n', 'k', 'n', 'o', 'w', 'n'] lines table

/-- The file as the kernel prints it: one line per area, labelled `[heap]` when no
file backs the area and it passes the heap test. -/
structure MapsFormat where
  line : Mm → Vma → MapsLine
  start_printed : ∀ mm vma, (line mm vma).start = vma.vmStart
  stop_printed : ∀ mm vma, (line mm vma).stop = vma.vmEnd
  label_printed : ∀ mm vma, scannedName (line mm vma).path = heapLabel ↔
    vma.vmFile = false ∧ heapTest mm vma = true

def MapsFormat.lines (format : MapsFormat) (mm : Mm) : List MapsLine := mm.mmap.map (format.line mm)

def MapsLine.isHeap (line : MapsLine) : Bool := decide (scannedName line.path = heapLabel)

def MapsLine.pages (line : MapsLine) : Nat := (line.stop - line.start) / pageSize

private theorem scanProcMapsLine_heapSize (chunkId : Nat) (line : MapsLine) (defname : List Char)
    (table grown : MapsTable) (entry : MapsEntry)
    (scanned : scanProcMapsLine chunkId line defname table = some (entry, grown)) :
    grown.heapSize = if line.isHeap then line.pages else table.heapSize := by
  dsimp only [scanProcMapsLine] at scanned
  split at scanned
  · cases scanned
    rfl
  · cases scanned

theorem readProcMapsLoop_heapSize (nvma : Nat) (defname : List Char) (lines : List MapsLine)
    (before after : MapsTable) (ran : readProcMapsLoop nvma defname lines before = some after) :
    after.heapSize =
      lines.foldl (fun size line => if line.isHeap then line.pages else size) before.heapSize := by
  induction lines generalizing nvma defname before with
  | nil =>
      cases ran
      rfl
  | cons line rest ih =>
      simp only [readProcMapsLoop] at ran
      split at ran
      · cases ran
      · rename_i entry grown scanned
        rw [ih (nvma + 1) entry.mappedfile grown ran, List.foldl_cons,
          scanProcMapsLine_heapSize nvma line defname before grown entry scanned]

private theorem foldl_only_heap (heap : Vma) (areas : List Vma) (size : Nat) :
    areas.foldl (fun size vma => if vma = heap then vma.pageCount else size) size =
      if heap ∈ areas then heap.pageCount else size := by
  induction areas generalizing size with
  | nil => rfl
  | cons vma rest ih =>
      rw [List.foldl_cons, ih]
      by_cases here : vma = heap
      · subst here
        simp only [if_true, ite_self, List.mem_cons_self]
      · simp only [here, if_false, List.mem_cons, Ne.symm here, false_or]

private theorem readProcMapsFile_heapSize (format : MapsFormat) (mm : Mm) (heap : Vma)
    (before after : MapsTable) (mapped : heap ∈ mm.mmap)
    (labelled : ∀ vma ∈ mm.mmap, (format.line mm vma).isHeap = true ↔ vma = heap)
    (ran : readProcMapsFile (format.lines mm) before = some after) :
    after.heapSize = heap.pageCount := by
  rw [readProcMapsLoop_heapSize _ _ _ before after ran, MapsFormat.lines, List.foldl_map]
  have sameStep (areas : List Vma) (inMap : ∀ vma ∈ areas, vma ∈ mm.mmap) (size : Nat) :
      areas.foldl (fun size vma =>
          if (format.line mm vma).isHeap then (format.line mm vma).pages else size) size =
        areas.foldl (fun size vma => if vma = heap then vma.pageCount else size) size := by
    apply List.foldl_ext
    intro left vma member
    simp only [labelled vma (inMap vma member), MapsLine.pages, format.start_printed,
      format.stop_printed, Vma.pageCount]
  rw [sameStep mm.mmap (fun _vma member => member), foldl_only_heap, if_pos mapped]

private theorem findHeap_eq_iff (mm : Mm) (heap : Vma) (mapped : heap ∈ mm.mmap)
    (passes : heapTest mm heap = true) :
    BothMultiple.findHeap mm = some heap ↔
      ∀ vma ∈ mm.mmap, vma.vmEnd ≤ heap.vmStart → heapTest mm vma = false := by
  constructor
  · intro found vma member below
    obtain ⟨_passes, front, back, split, failing⟩ := List.find?_eq_some_iff_append.mp found
    rw [split] at member
    rcases List.mem_append.mp member with earlier | later
    · exact Bool.not_eq_true' _ ▸ failing vma earlier
    · have nonempty := heap.nonempty
      have vmaNonempty := vma.nonempty
      have sorted := mm.sorted
      rw [split] at sorted
      rcases List.mem_cons.mp later with same | after
      · subst same
        omega
      · have ordered := List.rel_of_pairwise_cons (List.pairwise_append.mp sorted).2.1 after
        omega
  · intro failing
    obtain ⟨front, back, split⟩ := List.append_of_mem mapped
    apply List.find?_eq_some_iff_append.mpr
    refine ⟨passes, front, back, split, ?_⟩
    intro vma earlier
    have sorted := mm.sorted
    rw [split] at sorted
    have below := (List.pairwise_append.mp sorted).2.2 vma earlier heap List.mem_cons_self
    have member : vma ∈ mm.mmap := by
      rw [split]
      exact List.mem_append_left _ earlier
    rw [failing vma member below]
    rfl

/-- With one `[heap]` line the module changes the area of that line, the one whose
pages the tracer counts, exactly when no file-backed area below it reaches
`start_brk`. -/
theorem heap_selection_agrees_iff (format : MapsFormat) (mm : Mm) (heap : Vma)
    (before : MapsTable) (mapped : heap ∈ mm.mmap)
    (labelled : ∀ vma ∈ mm.mmap, (format.line mm vma).isHeap = true ↔ vma = heap) :
    (BothMultiple.findHeap mm = some heap ∧
        ∀ after, readProcMapsFile (format.lines mm) before = some after →
          after.heapSize = heap.pageCount) ↔
      ∀ vma ∈ mm.mmap, vma.vmFile = true → vma.vmEnd ≤ heap.vmStart → vma.vmEnd < mm.startBrk := by
  have labels (vma : Vma) (member : vma ∈ mm.mmap) :
      vma = heap ↔ vma.vmFile = false ∧ heapTest mm vma = true := by
    rw [← labelled vma member, ← format.label_printed mm vma]
    exact decide_eq_true_iff
  have heapPasses := ((labels heap mapped).mp rfl).2
  have heapBelowBrk : heap.vmStart ≤ mm.brk := by
    simp only [heapTest, Bool.and_eq_true, decide_eq_true_eq] at heapPasses
    exact heapPasses.1
  rw [findHeap_eq_iff mm heap mapped heapPasses]
  constructor
  · rintro ⟨failing, _size⟩ vma member _file below
    have fails := failing vma member below
    have nonempty := vma.nonempty
    simp only [heapTest, Bool.and_eq_false_iff, decide_eq_false_iff_not] at fails
    omega
  · intro apart
    refine ⟨?_, fun after ran =>
      readProcMapsFile_heapSize format mm heap before after mapped labelled ran⟩
    intro vma member below
    cases passes : heapTest mm vma with
    | false => rfl
    | true =>
        cases file : vma.vmFile with
        | false =>
            have same := (labels vma member).mpr ⟨file, passes⟩
            have nonempty := heap.nonempty
            subst same
            omega
        | true =>
            have away := apart vma member file below
            simp only [heapTest, Bool.and_eq_true, decide_eq_true_eq] at passes
            omega

def sampleFormat : MapsFormat where
  line mm vma :=
    { start := vma.vmStart
      stop := vma.vmEnd
      perms := ⟨vma.vmFlags.read, vma.vmFlags.write, vma.vmFlags.exec, vma.vmFlags.shared⟩
      offset := 0
      dev := ['0', '0', ':', '0', '0']
      inode := if vma.vmFile then 1 else 0
      path := if vma.vmFile then ['/', 'b', 'i', 'n'] else if heapTest mm vma then heapLabel else [] }
  start_printed _mm _vma := rfl
  stop_printed _mm _vma := rfl
  label_printed mm vma := by
    cases file : vma.vmFile <;> cases passes : heapTest mm vma <;> simp <;> decide

def emptyMapsTable : MapsTable := { vmas := [], heapSize := 0, bounded := Nat.zero_le _ }

theorem heap_selection_agrees_iff_sample :
    ∃ after, readProcMapsFile (sampleFormat.lines sampleMm) emptyMapsTable = some after ∧
      BothMultiple.findHeap sampleMm = some sampleHeap ∧
      after.heapSize = sampleHeap.pageCount := by
  obtain ⟨after, ran⟩ : ∃ after,
      readProcMapsFile (sampleFormat.lines sampleMm) emptyMapsTable = some after := ⟨_, rfl⟩
  have agree := (heap_selection_agrees_iff sampleFormat sampleMm sampleHeap emptyMapsTable
    List.mem_cons_self (by
      intro vma member
      rw [List.mem_singleton.mp member]
      exact iff_of_true (by decide) rfl)).mpr (by
      intro vma member file
      rw [List.mem_singleton.mp member] at file
      cases file)
  exact ⟨after, ran, agree.1, agree.2 after ran⟩

def sampleData : Vma :=
  { sampleHeap with
    vmStart := 0xe000
    vmEnd := 0x10000
    vmFile := true
    nonempty := by decide
    bounded := by decide
    startAligned := by decide
    endAligned := sampleHeap.startAligned }

def sampleDataMm : Mm :=
  { sampleMm with
    mmap := [sampleData, sampleHeap]
    sorted := List.pairwise_pair.mpr (by decide) }

theorem heap_selection_differs :
    (∀ vma ∈ sampleDataMm.mmap,
      (sampleFormat.line sampleDataMm vma).isHeap = true ↔ vma = sampleHeap) ∧
    (∃ after, readProcMapsFile (sampleFormat.lines sampleDataMm) emptyMapsTable = some after ∧
      after.heapSize = 3) ∧
    BothMultiple.findHeap sampleDataMm = some sampleData ∧
    BothMultiple.findHeap sampleDataMm ≠ some sampleHeap := by
  refine ⟨by decide, ⟨_, rfl, by decide⟩, by decide, by decide⟩

end BlackboxProfiling.Functime
