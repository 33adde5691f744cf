import BlackboxProfiling.Functime.ProcMaps

/-!
The maps file as text: what `read_proc_maps_file` makes of the characters that the kernel
prints. Lines come through a buffer of 256 characters, the last character of each piece
is cut off, and a scan that does not get to the inode is reported and used all the same.
`unsigned long` has 32 bits.
-/

namespace BlackboxProfiling.Functime.MapsText

open TextScan

def bufRoom : Nat := 255

def unsignedLongs : Nat := 0x100000000

def nul : Char := Char.ofNat 0

/-- `"%lx-%lx %s %lx %s %lu " mapped_file_fmt` -/
def mapsFormat : List Item :=
  [.number 16, .literal '-', .number 16, .blanks, .word none, .blanks, .number 16, .blanks,
    .word none, .blanks, .number 10, .blanks, .word (some mappedfileRoom)]

def cString (text : List Char) : List Char := text.takeWhile (fun letter => letter ≠ nul)

structure ScanLocals where
  start : Nat
  stop : Nat
  perms : List Char
  offset : Nat
  dev : List Char
  inode : Nat

structure VmaStruct where
  chunkId : Nat
  start : Nat
  stop : Nat
  len : Nat
  offset : Nat
  inode : Nat
  perms : List Char
  dev : List Char
  mappedfile : List Char
  readable : Bool
  writable : Bool
  executable : Bool
  shared : Bool
  fmapped : Bool
  stack : Bool
  heap : Bool
  deriving DecidableEq, Repr

@[ext]
structure VmaTable where
  vmas : List VmaStruct
  heapSize : Nat
  bounded : vmas.length ≤ maxNumVma

def assignedNumber (assigned : List Assigned) (place before : Nat) : Nat :=
  match assigned[place]? with
  | some (.number value) => value
  | _other => before

def assignedWord (assigned : List Assigned) (place : Nat) : Option (List Char) :=
  match assigned[place]? with
  | some (.word letters) => some letters
  | _other => none

def storedWord (assigned : List Assigned) (place : Nat) (before : List Char) : List Char :=
  match assignedWord assigned place with
  | some letters => letters ++ nul :: before.drop (letters.length + 1)
  | none => before

def wordFits (assigned : List Assigned) (place most : Nat) : Bool :=
  match assignedWord assigned place with
  | some letters => decide (letters.length ≤ most)
  | none => true

def scanLocals (assigned : List Assigned) (unset : ScanLocals) : ScanLocals :=
  { start := assignedNumber assigned 0 unset.start
    stop := assignedNumber assigned 1 unset.stop
    perms := storedWord assigned 2 unset.perms
    offset := assignedNumber assigned 3 unset.offset
    dev := storedWord assigned 4 unset.dev
    inode := assignedNumber assigned 5 unset.inode }

def mappedName (buf mappedfile defname : List Char) : List Char :=
  if mappedfile ≠ [] then
    if '/' ∈ buf then (lastComponent buf).take mappedfileRoom else mappedfile.take mappedfileRoom
  else ('[' :: defname ++ [']']).take mappedfileRoom

def filledVma (chunkId : Nat) (locals : ScanLocals) (buf mappedfile defname : List Char) :
    VmaStruct :=
  { chunkId := chunkId
    start := locals.start
    stop := locals.stop
    len := (locals.stop + unsignedLongs - locals.start) % unsignedLongs
    offset := locals.offset
    inode := locals.inode
    perms := (cString locals.perms).take 5
    dev := (cString locals.dev).take 6
    mappedfile := mappedName buf mappedfile defname
    readable := locals.perms[0]? = some 'r'
    writable := locals.perms[1]? = some 'w'
    executable := locals.perms[2]? = some 'x'
    shared := locals.perms[3]? = some 's'
    fmapped := locals.inode ≠ 0
    stack := mappedfile = stackLabel
    heap := mappedfile = heapLabel }

/-- The next entry of the table; the null pointer of a full table is written through. -/
def vmaAlloc (vma : VmaStruct) (table : VmaTable) : Option VmaTable :=
  if room : table.vmas.length < maxNumVma then
    some
      { vmas := table.vmas ++ [vma]
        heapSize := if vma.heap then vma.len / pageSize else table.heapSize
        bounded := by
          rw [List.length_append]
          exact room }
  else none

section Program

-- What the locals of a call hold before `sscanf`, by the number of calls before it.
variable (unset : Nat → ScanLocals)

/-- Nothing where a word runs over the end of `perms` or `dev`. -/
def scanProcMapsLine (chunkId : Nat) (buf defname : List Char) (table : VmaTable) :
    Option (VmaStruct × VmaTable) :=
  let assigned := scan unsignedLongs mapsFormat buf
  if wordFits assigned 2 4 && wordFits assigned 4 5 then
    let mappedfile := (assignedWord assigned 6).getD []
    let vma := filledVma chunkId (scanLocals assigned (unset table.vmas.length)) buf mappedfile
      defname
    (vmaAlloc vma table).map (fun grown => (vma, grown))
  else none

/-- `buf[strlen(buf)-1] = '\0'`; an empty string has no such place. -/
def strippedBuf (piece : List Char) : Option (List Char) :=
  if cString piece = [] then none else some (cString piece).dropLast

def readProcMapsLoop (nvma : Nat) (defname : List Char) :
    List (List Char) → VmaTable → Option VmaTable
  | [], table => some table
  | piece :: rest, table =>
      match strippedBuf piece with
      | none => none
      | some buf =>
          match scanProcMapsLine unset nvma buf defname table with
          | none => none
          | some (vma, grown) => readProcMapsLoop (nvma + 1) vma.mappedfile rest grown

def readProcMapsFile (text : List Char) (table : VmaTable) : Option VmaTable :=
  readProcMapsLoop unset 0 ['u', 'n', 'k', 'n', 'o', 'w', 'n'] (fgetsCalls bufRoom [] text) table

end Program

/-! ### The lines that the kernel prints -/

def permsText (perms : Perms) : List Char :=
  [if perms.read then 'r' else '-', if perms.write then 'w' else '-',
    if perms.exec then 'x' else '-', if perms.shared then 's' else 'p']

/-- An area as it is printed; `pad` blanks stand before the path, which may be missing. -/
structure KernelLine where
  start : Nat
  stop : Nat
  perms : Perms
  offset : Nat
  major : Nat
  minor : Nat
  inode : Nat
  pad : Nat
  path : List Char
  ordered : start ≤ stop
  stopBounded : stop < unsignedLongs
  inodeBounded : inode < unsignedLongs
  separated : path ≠ [] → 0 < pad
  oneLine : '\n' ∉ path

def KernelLine.device (line : KernelLine) : List Char :=
  padded 2 16 line.major ++ ':' :: padded 2 16 line.minor

/-- `%08lx-%08lx %c%c%c%c %08llx %02x:%02x %lu`, and what follows. -/
def KernelLine.fields (line : KernelLine) (tail : List Char) : List Char :=
  padded 8 16 line.start ++ '-' :: (padded 8 16 line.stop ++
    ' ' :: (permsText line.perms ++ ' ' :: (padded 8 16 line.offset ++
      ' ' :: (line.device ++ ' ' :: (Nat.toDigits 10 line.inode ++ tail)))))

def KernelLine.named (line : KernelLine) : List Char := List.replicate line.pad ' ' ++ line.path

def KernelLine.body (line : KernelLine) : List Char := line.fields line.named

def KernelLine.text (line : KernelLine) : List Char := line.body ++ ['\n']

def mapsText (lines : List KernelLine) : List Char := lines.flatMap KernelLine.text

def KernelLine.pages (line : KernelLine) : Nat := (line.stop - line.start) / pageSize

/-- What is left of the name once the text ends at a NUL and its last character is cut
off. -/
def KernelLine.seen (line : KernelLine) : List Char := (cString (line.named ++ ['\n'])).dropLast

def InFields (letter : Char) : Prop := letter ≠ nul ∧ letter ≠ '\n' ∧ letter ≠ '/'

instance (letter : Char) : Decidable (InFields letter) :=
  inferInstanceAs (Decidable (letter ≠ nul ∧ letter ≠ '\n' ∧ letter ≠ '/'))

private theorem digit_inFields (base : Nat) (letter : Char) (small : base ≤ 16)
    (digit : isDigitIn base letter = true) : InFields letter := by
  have range := isDigitIn_range base letter small digit
  refine ⟨?_, ?_, ?_⟩
  all_goals
    intro same
    subst same
    exact absurd range (by decide)

private theorem permsText_inFields (perms : Perms) (letter : Char) (member : letter ∈ permsText perms) :
    InFields letter ∧ isBlank letter = false := by
  have mark (flag : Bool) (set clear : Char) (same : letter = if flag then set else clear)
      (first : InFields set ∧ isBlank set = false)
      (second : InFields clear ∧ isBlank clear = false) :
      InFields letter ∧ isBlank letter = false := by
    rw [same]
    cases flag with
    | false => exact second
    | true => exact first
  simp only [permsText, List.mem_cons, List.not_mem_nil, or_false] at member
  rcases member with read | write | exec | shared
  · exact mark perms.read 'r' '-' read (by decide) (by decide)
  · exact mark perms.write 'w' '-' write (by decide) (by decide)
  · exact mark perms.exec 'x' '-' exec (by decide) (by decide)
  · exact mark perms.shared 's' 'p' shared (by decide) (by decide)

private theorem device_inFields (line : KernelLine) (letter : Char) (member : letter ∈ line.device) :
    InFields letter ∧ isBlank letter = false := by
  have digit (value : Nat) (here : letter ∈ padded 2 16 value) :
      InFields letter ∧ isBlank letter = false := by
    have isDigit := padded_isDigitIn 2 16 value (by omega) (by omega) letter here
    exact ⟨digit_inFields 16 letter (by omega) isDigit,
      isDigitIn_not_blank 16 letter (by omega) isDigit⟩
  rcases List.mem_append.mp member with major | later
  · exact digit line.major major
  · rcases List.mem_cons.mp later with colon | minor
    · rw [colon]
      decide
    · exact digit line.minor minor

private theorem fields_append (line : KernelLine) (tail : List Char) :
    line.fields tail = line.fields [] ++ tail := by
  simp only [KernelLine.fields, List.append_assoc, List.cons_append, List.append_nil]

private theorem fields_inFields (line : KernelLine) (letter : Char) (member : letter ∈ line.fields []) :
    InFields letter := by
  have hex (width value : Nat) (here : letter ∈ padded width 16 value) : InFields letter :=
    digit_inFields 16 letter (by omega)
      (padded_isDigitIn width 16 value (by omega) (by omega) letter here)
  have separator (mark : Char) (one : mark = '-' ∨ mark = ' ') (same : letter = mark) :
      InFields letter := by
    rw [same]
    rcases one with rfl | rfl
    · decide
    · decide
  rw [KernelLine.fields, List.mem_append, List.mem_cons, List.mem_append, List.mem_cons,
    List.mem_append, List.mem_cons, List.mem_append, List.mem_cons, List.mem_append,
    List.mem_cons, List.append_nil] at member
  rcases member with start | dash | stop | blank | perms | blank | offset | blank | device |
    blank | inode
  · exact hex 8 line.start start
  · exact separator '-' (Or.inl rfl) dash
  · exact hex 8 line.stop stop
  · exact separator ' ' (Or.inr rfl) blank
  · exact (permsText_inFields line.perms letter perms).1
  · exact separator ' ' (Or.inr rfl) blank
  · exact hex 8 line.offset offset
  · exact separator ' ' (Or.inr rfl) blank
  · exact (device_inFields line letter device).1
  · exact separator ' ' (Or.inr rfl) blank
  · exact digit_inFields 10 letter (by omega)
      (toDigits_isDigitIn 10 line.inode (by omega) (by omega) letter inode)

/-! ### What is scanned of a line -/

private theorem scan_padded (items : List Item) (width value : Nat) (rest : List Char)
    (stops : StopsAt (goesOn 16) rest) :
    scan unsignedLongs (.number 16 :: items) (padded width 16 value ++ rest) =
      .number (unsignedValue unsignedLongs value false) :: scan unsignedLongs items rest := by
  rw [scan_number unsignedLongs 16 items _ rest (by omega) (padded_ne_nil width 16 value)
    (padded_isDigitIn width 16 value (by omega) (by omega)) stops,
    valueOf_padded width 16 value (by omega) (by omega)]

private theorem padded_stopsAt (width base value : Nat) (rest : List Char) (large : 1 < base)
    (small : base ≤ 16) : StopsAt isBlank (padded width base value ++ rest) := by
  apply stopsAt_append isBlank _ rest (padded_ne_nil width base value)
  intro letter member
  exact isDigitIn_not_blank base letter small
    (padded_isDigitIn width base value large small letter member)

private theorem unsignedValue_fits (value : Nat) (fits : value < unsignedLongs) :
    unsignedValue unsignedLongs value false = value :=
  (unsignedValue_exact_iff unsignedLongs value).mpr (Or.inl fits)

def lineAssigned (line : KernelLine) : List Assigned :=
  [.number line.start, .number line.stop, .word (permsText line.perms),
    .number (unsignedValue unsignedLongs line.offset false), .word line.device,
    .number line.inode]

private theorem scan_fields (line : KernelLine) (tail : List Char) (stops : StopsAt (goesOn 10) tail) :
    scan unsignedLongs mapsFormat (line.fields tail) =
      lineAssigned line ++ scan unsignedLongs [.blanks, .word (some mappedfileRoom)] tail := by
  have startFits : line.start < unsignedLongs :=
    Nat.lt_of_le_of_lt line.ordered line.stopBounded
  have blank (rest : List Char) : StopsAt (goesOn 16) (' ' :: rest) :=
    stopsAt_cons (goesOn 16) ' ' rest (by decide)
  have wordEnd (rest : List Char) : StopsAt (fun letter => !isBlank letter) (' ' :: rest) :=
    stopsAt_cons _ ' ' rest (by decide)
  have permsSome : permsText line.perms ≠ [] := List.cons_ne_nil _ _
  have deviceSome : line.device ≠ [] := by
    intro empty
    exact padded_ne_nil 2 16 line.major (List.append_eq_nil_iff.mp empty).1
  have permsSolid (letter : Char) (member : letter ∈ permsText line.perms) :=
    (permsText_inFields line.perms letter member).2
  have deviceSolid (letter : Char) (member : letter ∈ line.device) :=
    (device_inFields line letter member).2
  have inodeDigits := toDigits_isDigitIn 10 line.inode (by omega) (by omega)
  rw [mapsFormat, KernelLine.fields,
    scan_padded _ 8 line.start _ (stopsAt_cons (goesOn 16) '-' _ (by decide)), scan_literal,
    scan_padded _ 8 line.stop _ (blank _),
    scan_blank _ _ _ (stopsAt_append isBlank _ _ permsSome permsSolid),
    scan_word _ _ _ _ permsSome permsSolid (wordEnd _),
    scan_blank _ _ _ (padded_stopsAt 8 16 line.offset _ (by omega) (by omega)),
    scan_padded _ 8 line.offset _ (blank _),
    scan_blank _ _ _ (stopsAt_append isBlank _ _ deviceSome deviceSolid),
    scan_word _ _ _ _ deviceSome deviceSolid (wordEnd _),
    scan_blank _ _ _ (stopsAt_append isBlank _ _ Nat.toDigits_ne_nil
      (fun letter member => isDigitIn_not_blank 10 letter (by omega) (inodeDigits letter member))),
    scan_number _ 10 _ _ _ (by omega) Nat.toDigits_ne_nil inodeDigits stops,
    valueOf_toDigits 10 line.inode (by omega) (by omega), unsignedValue_fits _ startFits,
    unsignedValue_fits _ line.stopBounded, unsignedValue_fits _ line.inodeBounded]
  rfl

theorem scannedName_assigned (tail : List Char) (first : List Assigned) :
    (assignedWord (first ++ scan unsignedLongs [.blanks, .word (some mappedfileRoom)] tail)
      first.length).getD [] = scannedName tail := by
  rw [scan_lastWord, scannedName, assignedWord, List.getElem?_append_right (Nat.le_refl _),
    Nat.sub_self]
  by_cases nothing : (firstWord tail).take mappedfileRoom = []
  · rw [if_pos nothing, nothing]
    rfl
  · rw [if_neg nothing]
    rfl

def lineVma (chunkId : Nat) (line : KernelLine) (defname : List Char) : VmaStruct :=
  { chunkId := chunkId
    start := line.start
    stop := line.stop
    len := line.stop - line.start
    offset := unsignedValue unsignedLongs line.offset false
    inode := line.inode
    perms := permsText line.perms
    dev := line.device
    mappedfile := mappedName (line.fields line.seen) (scannedName line.seen) defname
    readable := line.perms.read
    writable := line.perms.write
    executable := line.perms.exec
    shared := line.perms.shared
    fmapped := line.inode ≠ 0
    stack := scannedName line.seen = stackLabel
    heap := scannedName line.seen = heapLabel }

private theorem cString_append (letters rest : List Char)
    (plain : ∀ letter, letter ∈ letters → letter ≠ nul) :
    cString (letters ++ rest) = letters ++ cString rest :=
  List.takeWhile_append_of_pos (fun letter member => decide_eq_true (plain letter member))

private theorem cString_stored (letters rest : List Char)
    (plain : ∀ letter, letter ∈ letters → letter ≠ nul) :
    cString (letters ++ nul :: rest) = letters := by
  have ends : cString (nul :: rest) = [] := rfl
  rw [cString_append letters _ plain, ends, List.append_nil]

private theorem named_seen (line : KernelLine) :
    cString (line.named ++ ['\n']) ≠ [] ∧ StopsAt (goesOn 10) line.seen := by
  rw [KernelLine.seen, KernelLine.named]
  cases blanks : line.pad with
  | zero =>
      have unnamed : line.path = [] := by
        by_contra named
        have padded := line.separated named
        omega
      rw [unnamed]
      constructor
      · exact List.cons_ne_nil _ _
      · intro letter here
        cases here
  | succ more =>
      have blankFirst : cString (List.replicate (more + 1) ' ' ++ line.path ++ ['\n']) =
          ' ' :: cString (List.replicate more ' ' ++ line.path ++ ['\n']) := rfl
      rw [blankFirst]
      constructor
      · exact List.cons_ne_nil _ _
      · cases cString (List.replicate more ' ' ++ line.path ++ ['\n']) with
        | nil =>
            intro letter here
            cases here
        | cons second rest => exact stopsAt_cons (goesOn 10) ' ' _ (by decide)

private theorem strippedBuf_text (line : KernelLine) :
    strippedBuf line.text = some (line.fields line.seen) := by
  have whole : cString line.text = line.fields [] ++ cString (line.named ++ ['\n']) := by
    rw [KernelLine.text, KernelLine.body, fields_append, List.append_assoc]
    exact cString_append _ _ (fun letter member => (fields_inFields line letter member).1)
  have rest := (named_seen line).1
  have nonempty : cString line.text ≠ [] := by
    rw [whole]
    intro empty
    exact rest (List.append_eq_nil_iff.mp empty).2
  rw [strippedBuf, if_neg nonempty, whole, List.dropLast_append_of_ne_nil rest,
    fields_append line line.seen, KernelLine.seen]

private theorem permsText_flags (perms : Perms) (rest : List Char) :
    decide ((permsText perms ++ rest)[0]? = some 'r') = perms.read ∧
      decide ((permsText perms ++ rest)[1]? = some 'w') = perms.write ∧
      decide ((permsText perms ++ rest)[2]? = some 'x') = perms.exec ∧
      decide ((permsText perms ++ rest)[3]? = some 's') = perms.shared := by
  obtain ⟨read, write, exec, shared⟩ := perms
  refine ⟨?_, ?_, ?_, ?_⟩
  · cases read <;> rfl
  · cases write <;> rfl
  · cases exec <;> rfl
  · cases shared <;> rfl

private theorem filledVma_line (chunkId : Nat) (line : KernelLine) (defname : List Char)
    (before : ScanLocals) (last : List Assigned) (fits : line.device.length ≤ 5) :
    filledVma chunkId (scanLocals (lineAssigned line ++ last) before) (line.fields line.seen)
        (scannedName line.seen) defname = lineVma chunkId line defname := by
  have locals : scanLocals (lineAssigned line ++ last) before =
      { start := line.start
        stop := line.stop
        perms := permsText line.perms ++ nul :: before.perms.drop 5
        offset := unsignedValue unsignedLongs line.offset false
        dev := line.device ++ nul :: before.dev.drop (line.device.length + 1)
        inode := line.inode } := rfl
  obtain ⟨read, write, exec, shared⟩ :=
    permsText_flags line.perms (nul :: before.perms.drop 5)
  have len : (line.stop + unsignedLongs - line.start) % unsignedLongs =
      line.stop - line.start := by
    have ordered := line.ordered
    have bounded := line.stopBounded
    have positive : 0 < unsignedLongs := by decide
    rw [show line.stop + unsignedLongs - line.start =
        line.stop - line.start + unsignedLongs by omega, Nat.add_mod_right]
    exact Nat.mod_eq_of_lt (by omega)
  rw [locals, filledVma, lineVma]
  dsimp only
  rw [len, read, write, exec, shared,
    cString_stored _ _ (fun letter member => (permsText_inFields line.perms letter member).1.1),
    cString_stored _ _ (fun letter member => (device_inFields line letter member).1.1),
    List.take_of_length_le (Nat.le_trans fits (by omega)),
    List.take_of_length_le (Nat.le_succ 4 : (permsText line.perms).length ≤ 5)]

private theorem wordFits_line (line : KernelLine) (last : List Assigned) :
    wordFits (lineAssigned line ++ last) 2 4 = true ∧
      wordFits (lineAssigned line ++ last) 4 5 = decide (line.device.length ≤ 5) :=
  ⟨rfl, rfl⟩

private theorem scanProcMapsLine_line (unset : Nat → ScanLocals) (chunkId : Nat) (line : KernelLine)
    (defname : List Char) (table : VmaTable) :
    scanProcMapsLine unset chunkId (line.fields line.seen) defname table =
      if line.device.length ≤ 5 then
        (vmaAlloc (lineVma chunkId line defname) table).map
          (fun grown => (lineVma chunkId line defname, grown))
      else none := by
  have assigned := scan_fields line line.seen (named_seen line).2
  have name := scannedName_assigned line.seen (lineAssigned line)
  have six : (lineAssigned line).length = 6 := rfl
  rw [six] at name
  obtain ⟨permsFit, devFits⟩ := wordFits_line line
    (scan unsignedLongs [.blanks, .word (some mappedfileRoom)] line.seen)
  dsimp only [scanProcMapsLine]
  rw [assigned, name, permsFit, devFits, Bool.true_and]
  by_cases fits : line.device.length ≤ 5
  · rw [if_pos (decide_eq_true fits), if_pos fits, filledVma_line _ _ _ _ _ fits]
  · rw [if_neg fits, decide_eq_false fits]
    rfl

def KernelLine.isHeap (line : KernelLine) : Bool := decide (line.path = heapLabel)

def KernelLine.labelled (line : KernelLine) : Bool := decide (scannedName line.seen = heapLabel)

def lastPages (picked : KernelLine → Bool) (before : Nat) (lines : List KernelLine) : Nat :=
  match lines.findRev? picked with
  | some line => line.pages
  | none => before

def lineVmas (nvma : Nat) (defname : List Char) : List KernelLine → List VmaStruct
  | [] => []
  | line :: rest =>
      lineVma nvma line defname :: lineVmas (nvma + 1) (lineVma nvma line defname).mappedfile rest

private theorem lastPages_cons (picked : KernelLine → Bool) (before : Nat) (line : KernelLine)
    (rest : List KernelLine) :
    lastPages picked before (line :: rest) =
      lastPages picked (if picked line then line.pages else before) rest := by
  rw [lastPages, lastPages, List.findRev?]
  cases rest.findRev? picked with
  | some later => rfl
  | none =>
      dsimp only
      cases picked line <;> rfl

private theorem vmaAlloc_eq_some_iff (vma : VmaStruct) (table grown : VmaTable) :
    vmaAlloc vma table = some grown ↔
      table.vmas.length < maxNumVma ∧ grown.vmas = table.vmas ++ [vma] ∧
        grown.heapSize = if vma.heap then vma.len / pageSize else table.heapSize := by
  unfold vmaAlloc
  split
  · rename_i room
    rw [Option.some.injEq, VmaTable.ext_iff]
    dsimp only
    rw [eq_comm (b := grown.vmas), eq_comm (b := grown.heapSize)]
    exact (and_iff_right room).symm
  · rename_i full
    apply iff_of_false
    · intro some
      cases some
    · intro grows
      exact full grows.1

theorem readProcMapsLoop_length (unset : Nat → ScanLocals) (nvma : Nat) (defname : List Char)
    (pieces : List (List Char)) (table after : VmaTable)
    (ran : readProcMapsLoop unset nvma defname pieces table = some after) :
    after.vmas.length = table.vmas.length + pieces.length := by
  induction pieces generalizing nvma defname table with
  | nil =>
      cases ran
      rfl
  | cons piece rest ih =>
      simp only [readProcMapsLoop] at ran
      split at ran
      · cases ran
      · split at ran
        · cases ran
        · rename_i vma grown scanned
          have later := ih (nvma + 1) vma.mappedfile grown ran
          dsimp only [scanProcMapsLine] at scanned
          split at scanned
          · obtain ⟨allocated, alloc, same⟩ := Option.map_eq_some_iff.mp scanned
            cases same
            have grows := ((vmaAlloc_eq_some_iff _ _ _).mp alloc).2.1
            rw [later, grows, List.length_append, List.length_singleton, List.length_cons]
            omega
          · cases scanned

private theorem lineVma_pages (nvma : Nat) (line : KernelLine) (defname : List Char) (before : Nat) :
    (if (lineVma nvma line defname).heap then (lineVma nvma line defname).len / pageSize
      else before) = if line.labelled then line.pages else before := rfl

theorem readProcMapsLoop_lines (unset : Nat → ScanLocals) (nvma : Nat) (defname : List Char)
    (lines : List KernelLine) (table after : VmaTable) :
    readProcMapsLoop unset nvma defname (lines.map KernelLine.text) table = some after ↔
      (∀ line, line ∈ lines → line.device.length ≤ 5) ∧
        table.vmas.length + lines.length ≤ maxNumVma ∧
        after.vmas = table.vmas ++ lineVmas nvma defname lines ∧
        after.heapSize = lastPages KernelLine.labelled table.heapSize lines := by
  induction lines generalizing nvma defname table with
  | nil =>
      have bounded := table.bounded
      simp only [List.map_nil, readProcMapsLoop, Option.some.injEq, VmaTable.ext_iff,
        List.not_mem_nil, false_implies, implies_true, List.length_nil, Nat.add_zero, bounded,
        true_and, lineVmas, List.append_nil, lastPages, List.findRev?]
      rw [eq_comm (b := after.vmas), eq_comm (b := after.heapSize)]
  | cons line rest ih =>
      rw [List.map_cons, readProcMapsLoop, strippedBuf_text]
      dsimp only
      rw [scanProcMapsLine_line]
      by_cases fits : line.device.length ≤ 5
      · rw [if_pos fits]
        cases alloc : vmaAlloc (lineVma nvma line defname) table with
        | none =>
            apply iff_of_false
            · intro some
              cases some
            · intro read
              obtain ⟨_devices, room, _entries, _size⟩ := read
              rw [List.length_cons] at room
              have full : ¬ table.vmas.length < maxNumVma := by
                intro more
                rw [vmaAlloc, dif_pos more] at alloc
                cases alloc
              omega
        | some grown =>
            obtain ⟨room, entries, size⟩ := (vmaAlloc_eq_some_iff _ _ _).mp alloc
            have counted : grown.vmas.length = table.vmas.length + 1 := by
              rw [entries, List.length_append, List.length_singleton]
            dsimp only [Option.map_some]
            rw [ih (nvma + 1) (lineVma nvma line defname).mappedfile grown, counted, entries,
              List.append_assoc, size, lineVma_pages, ← lastPages_cons, List.forall_mem_cons,
              and_iff_right fits, List.length_cons, lineVmas, List.singleton_append,
              Nat.add_assoc, Nat.add_comm 1]
      · rw [if_neg fits]
        apply iff_of_false
        · intro some
          cases some
        · intro read
          exact fits (read.1 line List.mem_cons_self)

private theorem body_oneLine (line : KernelLine) : '\n' ∉ line.body := by
  intro member
  rw [KernelLine.body, fields_append, KernelLine.named] at member
  rcases List.mem_append.mp member with field | name
  · exact (fields_inFields line _ field).2.1 rfl
  · rcases List.mem_append.mp name with blank | letter
    · exact absurd (List.eq_of_mem_replicate blank) (by decide)
    · exact line.oneLine letter

theorem fgetsCalls_mapsText (lines : List KernelLine)
    (short : ∀ line, line ∈ lines → line.text.length ≤ bufRoom) :
    fgetsCalls bufRoom [] (mapsText lines) = lines.map KernelLine.text := by
  apply fgetsCalls_lines_short bufRoom KernelLine.body lines (fun line _member => body_oneLine line)
  intro line member
  have fits := short line member
  rw [KernelLine.text, List.length_append, List.length_singleton] at fits
  exact fits

theorem fgetsCalls_mapsText_length (lines : List KernelLine) :
    lines.length ≤ (fgetsCalls bufRoom [] (mapsText lines)).length ∧
      ((fgetsCalls bufRoom [] (mapsText lines)).length = lines.length →
        ∀ line, line ∈ lines → line.text.length ≤ bufRoom) := by
  obtain ⟨atLeast, exactly⟩ := fgetsCalls_lines_length bufRoom KernelLine.body lines (by decide)
  refine ⟨atLeast, ?_⟩
  intro same line member
  rw [KernelLine.text, List.length_append, List.length_singleton]
  exact exactly same line member

def VmaStruct.mapsEntry (vma : VmaStruct) : MapsEntry :=
  { chunkId := vma.chunkId
    start := vma.start
    stop := vma.stop
    len := vma.len
    offset := vma.offset
    inode := vma.inode
    perms := ⟨vma.readable, vma.writable, vma.executable, vma.shared⟩
    dev := vma.dev
    mappedfile := vma.mappedfile
    fmapped := vma.fmapped
    stack := vma.stack
    heap := vma.heap }

def VmaTable.mapsTable (table : VmaTable) : MapsTable :=
  { vmas := table.vmas.map VmaStruct.mapsEntry
    heapSize := table.heapSize
    bounded := by
      rw [List.length_map]
      exact table.bounded }

def KernelLine.mapsLine (line : KernelLine) : MapsLine :=
  { start := line.start
    stop := line.stop
    perms := line.perms
    offset := unsignedValue unsignedLongs line.offset false
    dev := line.device
    inode := line.inode
    path := line.seen }

private theorem lastComponent_append (first path : List Char) (slash : '/' ∈ path) :
    lastComponent (first ++ path) = lastComponent path := by
  have stops : ¬ (path.reverse.takeWhile (fun letter => letter ≠ '/')).length =
      path.reverse.length := by
    intro whole
    have all := (List.takeWhile_prefix _).eq_of_length whole
    have plain := List.takeWhile_eq_self_iff.mp all '/' (List.mem_reverse.mpr slash)
    exact absurd rfl (of_decide_eq_true plain)
  rw [lastComponent, List.reverse_append, List.takeWhile_append, if_neg stops, lastComponent]

private theorem mappedName_line (line : KernelLine) (defname : List Char) :
    mappedName (line.fields line.seen) (scannedName line.seen) defname =
      entryName line.seen defname := by
  have slash : '/' ∈ line.fields line.seen ↔ '/' ∈ line.seen := by
    rw [fields_append, List.mem_append]
    constructor
    · intro member
      rcases member with field | name
      · exact absurd rfl (fields_inFields line '/' field).2.2
      · exact name
    · exact Or.inr
  have short : (scannedName line.seen).take mappedfileRoom = scannedName line.seen := by
    rw [scannedName, List.take_take, Nat.min_self]
  rw [mappedName, entryName, short]
  by_cases path : '/' ∈ line.seen
  · rw [if_pos (slash.mpr path), if_pos path, fields_append, lastComponent_append _ _ path]
  · rw [if_neg (fun member => path (slash.mp member)), if_neg path]

private theorem lineVma_mapsEntry (chunkId : Nat) (line : KernelLine) (defname : List Char) :
    (lineVma chunkId line defname).mapsEntry = scannedEntry chunkId line.mapsLine defname := by
  rw [VmaStruct.mapsEntry, lineVma, mappedName_line]
  rfl

private theorem vmaAlloc_mapsTable (chunkId : Nat) (line : KernelLine) (defname : List Char)
    (table : VmaTable) :
    (vmaAlloc (lineVma chunkId line defname) table).map
        (fun grown => ((lineVma chunkId line defname).mapsEntry, grown.mapsTable)) =
      Functime.scanProcMapsLine chunkId line.mapsLine defname table.mapsTable := by
  have used : table.mapsTable.vmas.length = table.vmas.length := List.length_map _
  dsimp only [vmaAlloc, Functime.scanProcMapsLine]
  by_cases room : table.vmas.length < maxNumVma
  · have entries : (table.vmas ++ [lineVma chunkId line defname]).map VmaStruct.mapsEntry =
        table.mapsTable.vmas ++ [scannedEntry chunkId line.mapsLine defname] := by
      rw [List.map_append, List.map_singleton, lineVma_mapsEntry]
      rfl
    rw [dif_pos room, dif_pos (used ▸ room), Option.map_some, Option.some.injEq, Prod.mk.injEq]
    refine ⟨lineVma_mapsEntry chunkId line defname, ?_⟩
    rw [VmaTable.mapsTable, MapsTable.mk.injEq]
    exact ⟨entries, rfl⟩
  · rw [dif_neg room, dif_neg (used ▸ room)]
    rfl

theorem readProcMapsLoop_refines (unset : Nat → ScanLocals) (nvma : Nat) (defname : List Char)
    (lines : List KernelLine) (table : VmaTable)
    (devices : ∀ line, line ∈ lines → line.device.length ≤ 5) :
    (readProcMapsLoop unset nvma defname (lines.map KernelLine.text) table).map
        VmaTable.mapsTable =
      Functime.readProcMapsLoop nvma defname (lines.map KernelLine.mapsLine) table.mapsTable := by
  induction lines generalizing nvma defname table with
  | nil => rfl
  | cons line rest ih =>
      obtain ⟨here, later⟩ := List.forall_mem_cons.mp devices
      have scanned := vmaAlloc_mapsTable nvma line defname table
      rw [List.map_cons, List.map_cons, readProcMapsLoop, strippedBuf_text,
        Functime.readProcMapsLoop, ← scanned]
      dsimp only
      rw [scanProcMapsLine_line, if_pos here]
      cases vmaAlloc (lineVma nvma line defname) table with
      | none => rfl
      | some grown => exact ih (nvma + 1) _ grown later

/-- Where every line fits the buffer and its device the array, what is read of the text
is what is read of its fields. -/
theorem readProcMapsFile_refines (unset : Nat → ScanLocals) (lines : List KernelLine)
    (table : VmaTable) (short : ∀ line, line ∈ lines → line.text.length ≤ bufRoom)
    (devices : ∀ line, line ∈ lines → line.device.length ≤ 5) :
    (readProcMapsFile unset (mapsText lines) table).map VmaTable.mapsTable =
      Functime.readProcMapsFile (lines.map KernelLine.mapsLine) table.mapsTable := by
  rw [readProcMapsFile, fgetsCalls_mapsText lines short]
  exact readProcMapsLoop_refines unset 0 _ lines table devices

end BlackboxProfiling.Functime.MapsText
