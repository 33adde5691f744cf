import BlackboxProfiling.Functime.SampleMean
import BlackboxProfiling.Functime.SecondPhase
import BlackboxProfiling.Kernel.ModuleAgreement
import BlackboxProfiling.Kernel.WriteRuns

/-!
Both modes of `main` over the event handler and the write of `both_multiple.c`: a
round asks for pages, the tracee stops, the kernel changes its heap, and the ticks
until the return depend on what the kernel has left.
-/

namespace BlackboxProfiling.Functime.Experiment

open EventRun

/-- One run of the traced program: its three stops, the processes at the entry
breakpoint, and the ticks of the call by what the write has left of them. -/
structure Launch where
  pid : Nat
  exec : Arrival
  entry : Arrival
  exit : Arrival
  processes : TaskList
  ticks : TaskList → Nat

structure Machine where
  gup : GetUserPages
  progresses : gup.Progresses
  fuel : Nat
  launch : Nat → Launch

def Launch.exitAfter (launch : Launch) (after : TaskList) : Arrival :=
  { launch.exit with
    surroundings :=
      { launch.exit.surroundings with
        cycles := launch.entry.surroundings.cycles + BitVec.ofNat 32 (launch.ticks after) } }

def serveRequests (machine : Machine) (requests : List BothMultiple.Params)
    (processes : TaskList) : Option TaskList :=
  procWrites machine.gup machine.fuel (requests.map (ModuleWrite.bothMultiple ⟨true, true⟩))
    processes

def setPid (pid : Nat) (tracer : Tracer) : Tracer :=
  { tracer with tparams := { tracer.tparams with pid := pid } }

def reaped (tracer : Tracer) : Tracer := { exited tracer with done := false }

/-- `run_debuggee` and `handle_tracee_signals`. The kernel serves what the tracer has
written at the entry stop before the tracee goes on. -/
def runTracee (machine : Machine) (serial : Nat) (tracer : Tracer) : Option Tracer :=
  let launch := machine.launch serial
  match arrive serial (arrive serial (some (setPid launch.pid tracer)) launch.exec) launch.entry with
  | none => none
  | some started =>
      match serveRequests machine (started.requests.drop tracer.requests.length)
        launch.processes with
      | none => none
      | some after => (arrive serial (some started) (launch.exitAfter after)).map reaped

def setRequest (buff : List Int) (shouldSkip : Bool) (tracer : Tracer) : Tracer :=
  { tracer with
    samples := 0
    kernelParams := { tracer.kernelParams with buff := buff, shouldSkip := shouldSkip } }

def sampleRuns (machine : Machine) : Nat → Nat → Tracer → Option Tracer
  | 0, _serial, tracer => some tracer
  | left + 1, serial, tracer =>
      (runTracee machine serial tracer).bind (sampleRuns machine left (serial + 1))

structure Profiling where
  tracer : Tracer
  serial : Nat
  page : List PageStats

/-- The body of the do-while loop. It ends the model when it divides by zero or
stores behind the `heap_size` entries of `page`. -/
def profileRound (machine : Machine) (sampleSize : Int) (state : Profiling) : Option Profiling :=
  let count := state.page.length
  let asked := setRequest [(count : Int)] state.tracer.kernelParams.shouldSkip state.tracer
  match sampleRuns machine sampleSize.toNat state.serial asked with
  | none => none
  | some next =>
      if sampleSize = 0 then none
      else if count < next.maps.heapSize then
        some
          { tracer := next
            serial := state.serial + sampleSize.toNat
            page := state.page ++ [⟨pageCycles next.samples sampleSize, count⟩] }
      else none

private theorem scanHeap_kept (tracer : Tracer) (surroundings : Surroundings) (maps : MapsTable)
    (found : tracer.maps.heapSize ≠ 0) (scanned : scanHeap tracer surroundings = some maps) :
    maps = tracer.maps := by
  rw [scanHeap, if_neg found] at scanned
  exact (Option.some.inj scanned).symm

private theorem stopped_heapSize (tracer next : Tracer) (serial : Nat) (arrival : Arrival)
    (found : tracer.maps.heapSize ≠ 0)
    (survived : (stopped tracer serial arrival).tracer = some next) :
    next.maps = tracer.maps := by
  unfold stopped handleTraceEvent at survived
  cases stage : tracer.stage with
  | init =>
      rw [stage] at survived
      rw [resume_tracer _ _ _ _ survived]
  | entry =>
      rw [stage] at survived
      dsimp only [traceeEntry] at survived
      split at survived
      · cases survived
      · rename_i maps scanned
        split at survived
        · cases survived
        · rw [resume_tracer _ _ _ _ survived]
          exact scanHeap_kept tracer _ maps found scanned
  | exit =>
      rw [stage] at survived
      rw [traceeExit_some tracer next _ _ _ survived] at survived
      rw [resume_tracer _ _ _ _ survived]

private theorem arrive_maps (tracer next : Tracer) (serial : Nat) (arrival : Arrival)
    (found : tracer.maps.heapSize ≠ 0) (survived : arrive serial (some tracer) arrival = some next) :
    next.maps = tracer.maps :=
  stopped_heapSize tracer next serial arrival found survived

private theorem arrive_some (serial : Nat) (tracer : Option Tracer) (arrival : Arrival) (next : Tracer)
    (survived : arrive serial tracer arrival = some next) :
    ∃ current, tracer = some current ∧ arrive serial (some current) arrival = some next := by
  cases tracer with
  | none => cases survived
  | some current => exact ⟨current, rfl, survived⟩

theorem runTracee_some (machine : Machine) (serial : Nat) (tracer next : Tracer)
    (ran : runTracee machine serial tracer = some next) :
    ∃ armed started after last,
      arrive serial (some (setPid (machine.launch serial).pid tracer))
        (machine.launch serial).exec = some armed ∧
      arrive serial (some armed) (machine.launch serial).entry = some started ∧
      serveRequests machine (started.requests.drop tracer.requests.length)
        (machine.launch serial).processes = some after ∧
      arrive serial (some started) ((machine.launch serial).exitAfter after) = some last ∧
      next = reaped last := by
  dsimp only [runTracee] at ran
  split at ran
  · cases ran
  · rename_i started atEntry
    split at ran
    · cases ran
    · rename_i after served
      obtain ⟨last, atExit, same⟩ := Option.map_eq_some_iff.mp ran
      obtain ⟨armed, atExec, entered⟩ := arrive_some serial _ _ started atEntry
      exact ⟨armed, started, after, last, atExec, entered, served, atExit, same.symm⟩

private theorem runTracee_eq (machine : Machine) (serial : Nat) (tracer armed started last : Tracer)
    (after : TaskList)
    (atExec : arrive serial (some (setPid (machine.launch serial).pid tracer))
      (machine.launch serial).exec = some armed)
    (atEntry : arrive serial (some armed) (machine.launch serial).entry = some started)
    (served : serveRequests machine (started.requests.drop tracer.requests.length)
      (machine.launch serial).processes = some after)
    (atExit : arrive serial (some started) ((machine.launch serial).exitAfter after) = some last) :
    runTracee machine serial tracer = some (reaped last) := by
  simp only [runTracee, atExec, atEntry, served, atExit, Option.map_some]

private theorem runTracee_maps (machine : Machine) (serial : Nat) (tracer next : Tracer)
    (found : tracer.maps.heapSize ≠ 0) (ran : runTracee machine serial tracer = some next) :
    next.maps = tracer.maps := by
  obtain ⟨armed, started, after, last, atExec, atEntry, _served, atExit, rfl⟩ :=
    runTracee_some machine serial tracer next ran
  have first : armed.maps = tracer.maps :=
    arrive_maps (setPid (machine.launch serial).pid tracer) armed serial _ found atExec
  have second : started.maps = tracer.maps :=
    (arrive_maps armed started serial _ (by rw [first]; exact found) atEntry).trans first
  exact (arrive_maps started last serial _ (by rw [second]; exact found) atExit).trans second

private theorem sampleRuns_maps (machine : Machine) (left serial : Nat) (tracer next : Tracer)
    (found : tracer.maps.heapSize ≠ 0) (ran : sampleRuns machine left serial tracer = some next) :
    next.maps = tracer.maps := by
  induction left generalizing serial tracer with
  | zero =>
      rw [← Option.some.inj ran]
  | succ left ih =>
      obtain ⟨middle, first, rest⟩ := Option.bind_eq_some_iff.mp ran
      have kept := runTracee_maps machine serial tracer middle found first
      rw [ih (serial + 1) middle (by rw [kept]; exact found) rest, kept]

theorem profileRound_some (machine : Machine) (sampleSize : Int) (state next : Profiling)
    (ran : profileRound machine sampleSize state = some next) :
    ∃ last, sampleRuns machine sampleSize.toNat state.serial
        (setRequest [(state.page.length : Int)] state.tracer.kernelParams.shouldSkip state.tracer) =
          some last ∧
      next =
        { tracer := last
          serial := state.serial + sampleSize.toNat
          page := state.page ++ [⟨pageCycles last.samples sampleSize, state.page.length⟩] } := by
  dsimp only [profileRound] at ran
  split at ran
  · cases ran
  · rename_i last sampled
    split at ran
    · cases ran
    · split at ran
      · exact ⟨last, sampled, (Option.some.inj ran).symm⟩
      · cases ran

private theorem profileRound_measure (machine : Machine) (sampleSize : Int) (state next : Profiling)
    (goesOn : state.page.length < state.tracer.maps.heapSize)
    (ran : profileRound machine sampleSize state = some next) :
    next.tracer.maps.heapSize - next.page.length <
      state.tracer.maps.heapSize - state.page.length := by
  obtain ⟨last, sampled, rfl⟩ := profileRound_some machine sampleSize state next ran
  have found : (setRequest [(state.page.length : Int)] state.tracer.kernelParams.shouldSkip
      state.tracer).maps.heapSize ≠ 0 := Nat.ne_of_gt (Nat.zero_lt_of_lt goesOn)
  have kept := sampleRuns_maps machine _ _ _ last found sampled
  rw [kept, List.length_append]
  exact Nat.sub_lt_sub_left goesOn (Nat.lt_succ_self _)

def profileWhile (machine : Machine) (sampleSize : Int) (state : Profiling) : Option Profiling :=
  if _goesOn : state.page.length < state.tracer.maps.heapSize then
    match _ran : profileRound machine sampleSize state with
    | none => none
    | some next => profileWhile machine sampleSize next
  else some state
termination_by state.tracer.maps.heapSize - state.page.length
decreasing_by exact profileRound_measure machine sampleSize state next _goesOn _ran

def profilePages (machine : Machine) (sampleSize : Int) (tracer : Tracer) : Option Profiling :=
  (profileRound machine sampleSize ⟨tracer, 0, []⟩).bind (profileWhile machine sampleSize)

/-- The second mode; `rows` are the lines of `output.csv`, and `stray` is an index at
which the store to `output` missed the array. -/
structure Outcome where
  tracer : Tracer
  page : List PageStats
  rows : List (Nat × Int)
  stray : Option Nat

/-- The rounds left of the loop over `i`. What a store behind `output` does is not
defined, so the model ends with it. -/
def multiplePages (machine : Machine) (outputLength : Nat) : Nat → Nat → Outcome → Option Outcome
  | 0, _serial, state => some state
  | left + 1, serial, state =>
      let i := state.rows.length + 1
      match fillBuff state.page i with
      | none => none
      | some buff =>
          match runTracee machine serial (setRequest buff false state.tracer) with
          | none => none
          | some next =>
              if i < outputLength then
                multiplePages machine outputLength left (serial + 1)
                  { state with
                    tracer := next
                    rows := state.rows ++ [(i, pageCycles next.samples 1)] }
              else some { state with tracer := next, stray := some i }

/-- From behind `set_realtime` to the end; `heap_size` is not set in the second mode. -/
def bothModes (machine : Machine) (qsort : ComparisonSort.Sorter PageStats) (sampleSize : Int)
    (tracer : Tracer) : Option Outcome :=
  match profilePages machine sampleSize tracer with
  | none => none
  | some profiled =>
      let heapSize := profiled.tracer.maps.heapSize
      multiplePages machine heapSize heapSize profiled.serial
        { tracer := profiled.tracer
          page := qsort.run cmpfunc profiled.page
          rows := []
          stray := none }

private theorem resume_all (tracee : Tracee) (tracer : Tracer) :
    (resume .all tracee tracer).tracer = some tracer := rfl

theorem leaveBreakpoint_all (tracee : Tracee) (addr data : Saved) :
    (leaveBreakpoint .all tracee addr data).1 = true := rfl

private theorem arrive_exec (serial : Nat) (tracer : Tracer) (arrival : Arrival)
    (stage : tracer.stage = .init) (replies : arrival.replies = .all) :
    ∃ tparams, arrive serial (some tracer) arrival =
        some { tracer with stage := .entry, tparams := tparams } ∧
      tparams.pid = tracer.tparams.pid := by
  have ran : arrive serial (some tracer) arrival =
      (traceeInit tracer ⟨serial, arrival.text, arrival.regs, []⟩ .all).tracer := by
    simp only [arrive, stopped, handleTraceEvent, stage, replies]
  rw [ran]
  exact ⟨_, rfl, rfl⟩

theorem arrive_entry (serial : Nat) (tracer : Tracer) (arrival : Arrival) (maps : MapsTable)
    (stage : tracer.stage = .entry) (replies : arrival.replies = .all)
    (opens : arrival.surroundings.procOpens = true)
    (scanned : scanHeap tracer arrival.surroundings = some maps) :
    ∃ tparams, arrive serial (some tracer) arrival =
        some { tracer with
          stage := .exit
          tparams := tparams
          maps := maps
          kernelParams := { tracer.kernelParams with pid := tracer.tparams.pid }
          requests := tracer.requests ++ [{ tracer.kernelParams with pid := tracer.tparams.pid }] } ∧
      tparams.pid = tracer.tparams.pid ∧ tparams.tStart = arrival.surroundings.cycles := by
  have ran : ∃ left : Tracee, arrive serial (some tracer) arrival =
      (armReturn (writeRequest { tracer with maps := maps } arrival.surroundings) left .all
        arrival.surroundings).tracer := by
    simp only [arrive, stopped, handleTraceEvent, stage, replies, traceeEntry, scanned,
      leaveBreakpoint_all, Bool.true_eq_false, if_false]
    exact ⟨_, rfl⟩
  obtain ⟨left, same⟩ := ran
  rw [same]
  simp only [armReturn, resume_all, writeRequest, opens, if_true]
  exact ⟨_, rfl, rfl, rfl⟩

theorem arrive_exit (serial : Nat) (tracer : Tracer) (arrival : Arrival)
    (stage : tracer.stage = .exit) (replies : arrival.replies = .all) :
    ∃ tparams, arrive serial (some tracer) arrival =
      some { tracer with
        stage := .init
        tparams := tparams
        samples := tracer.samples + (arrival.surroundings.cycles - tracer.tparams.tStart) } := by
  simp only [arrive, stopped, handleTraceEvent, stage, replies, traceeExit, leaveBreakpoint_all,
    Bool.true_eq_false, if_false, resume_all]
  exact ⟨_, rfl⟩

def selectedPages (pages : Nat) (shouldSkip : Bool) (buff : List Int) : List Nat :=
  (List.range' 1 pages).filter (fun number => decide ((number : Int) ∈ buff) == shouldSkip)

def uncachedPages (heap : Vma) (mm : Mm) : List Nat :=
  (List.range' 1 heap.pageCount).filter
    (fun number => !(mm.pte (pageAddr heap.vmStart number)).cacheable)

private theorem listedAddrs_number (heap : Vma) (buff : List Int)
    (inRange : ∀ p ∈ buff, 0 ≤ p ∧ p ≤ heap.pageCount) (number : Nat) (positive : 1 ≤ number)
    (within : number ≤ heap.pageCount) :
    pageAddr heap.vmStart number ∈ listedAddrs buff heap ↔ (number : Int) ∈ buff := by
  have inside := pageAddr_mem heap number (by omega) (by omega)
  rw [mem_listedAddrs]
  constructor
  · intro listed
    obtain ⟨p, member, same⟩ := listed
    obtain ⟨low, high⟩ := inRange p member
    by_cases zero : p = 0
    · rw [zero] at same
      rw [← same] at inside
      exact absurd inside (pageAddr_zero_notMem heap)
    · rw [← pageAddr_injective heap p number (by omega) high (by omega) (by omega) same]
      exact member
  · intro member
    exact ⟨number, member, rfl⟩

private theorem changedMm_uncached (shouldSkip : Bool) (buff : List Int) (mm : Mm) (heap : Vma)
    (table : PageTable)
    (cacheable : ∀ address ∈ heap.pageAddrs, (table address).cacheable = true)
    (inRange : ∀ p ∈ buff, 0 ≤ p ∧ p ≤ heap.pageCount) :
    uncachedPages heap (changedMm shouldSkip buff mm heap table) =
      selectedPages heap.pageCount shouldSkip buff := by
  apply List.filter_congr
  intro number member
  obtain ⟨positive, below⟩ := List.mem_range'_1.mp member
  have inside := pageAddr_mem heap number (by omega) (by omega)
  have listed := listedAddrs_number heap buff inRange number positive (by omega)
  rw [changedMm, Mm.store_pte, modifiedTable_cacheable _ _ _ _ _ inside (cacheable _ inside),
    skipPage, searchSkip_eq]
  simp only [listed]
  cases shouldSkip <;> by_cases chosen : (number : Int) ∈ buff <;> simp [chosen]

/-- A run in which the tracee has a heap of the given number of pages at the entry
breakpoint, populating it leaves every page of it cacheable, every call succeeds, and
the ticks are a cost of the pages left noncacheable. -/
structure RegularLaunch (machine : Machine) (launch : Launch) (pages : Nat)
    (cost : List Nat → Nat) where
  target : Task
  mm : Mm
  heap : Vma
  maps : MapsTable
  member : target ∈ launch.processes.tasks
  named : target.pid = launch.pid
  atTarget : target.mm = some mm
  chosen : BothMultiple.findHeap mm = some heap
  counted : heap.pageCount = pages
  enough : pages < machine.fuel
  populated : ∀ ret table, mmPopulateMod machine.gup (heap.pageCount + 1) mm heap.vmStart
      (heap.vmEnd - heap.vmStart) true = some (ret, table) →
    ∀ address ∈ heap.pageAddrs, (table address).cacheable = true
  execReplies : launch.exec.replies = .all
  entryReplies : launch.entry.replies = .all
  exitReplies : launch.exit.replies = .all
  opens : launch.entry.surroundings.procOpens = true
  scanned : readProcMapsFile launch.entry.surroundings.mapsLines emptyMapsTable = some maps
  found : maps.heapSize = pages
  measured : ∀ (after : TaskList) (mm' : Mm), { target with mm := some mm' } ∈ after.tasks →
    launch.ticks after = cost (uncachedPages heap mm')

/-- The kernel serves the request of such a run, and leaves exactly the selected pages
noncacheable. -/
theorem RegularLaunch.served {machine : Machine} {launch : Launch} {pages : Nat}
    {cost : List Nat → Nat} (regular : RegularLaunch machine launch pages cost)
    (cp : BothMultiple.Params) (named : cp.pid = launch.pid)
    (inRange : ∀ p ∈ cp.buff, 0 ≤ p ∧ p ≤ pages) :
    ∃ after mm', serveRequests machine [cp] launch.processes = some after ∧
      { regular.target with mm := some mm' } ∈ after.tasks ∧
      uncachedPages regular.heap mm' = selectedPages pages cp.shouldSkip cp.buff := by
  have sameTarget := regular.named.trans named.symm
  obtain ⟨ret, table, populated, wrote⟩ := ModuleAgreement.bothMultiple_settles machine.gup
    machine.progresses cp launch.processes regular.target regular.mm regular.heap regular.member
    sameTarget regular.atTarget regular.chosen
  have written := wrote machine.fuel (by rw [regular.counted]; exact regular.enough)
  have inHeap : ∀ p ∈ cp.buff, 0 ≤ p ∧ p ≤ regular.heap.pageCount := by
    rw [regular.counted]
    exact inRange
  refine ⟨ModuleAgreement.requested cp.pid
    (changedMm cp.shouldSkip cp.buff regular.mm regular.heap table) launch.processes,
    changedMm cp.shouldSkip cp.buff regular.mm regular.heap table, ?_, ?_, ?_⟩
  · simp only [serveRequests, List.map_cons, List.map_nil, procWrites, ModuleWrite.procWrite,
      written]
  · apply List.mem_map.mpr
    refine ⟨regular.target, regular.member, ?_⟩
    simp only [sameTarget, if_true]
  · rw [changedMm_uncached cp.shouldSkip cp.buff regular.mm regular.heap table
      (regular.populated ret table populated) inHeap, regular.counted]

structure Ready (pages : Nat) (tracer : Tracer) : Prop where
  stage : tracer.stage = .init
  maps : tracer.maps = emptyMapsTable ∨ tracer.maps.heapSize = pages

structure AfterRuns (pages total : Nat) (pids : List Nat) (tracer next : Tracer) : Prop where
  stage : next.stage = .init
  found : pids ≠ [] → next.maps.heapSize = pages
  kept : pids = [] → next.maps = tracer.maps
  samples : next.samples = tracer.samples + BitVec.ofNat 32 total
  buff : next.kernelParams.buff = tracer.kernelParams.buff
  shouldSkip : next.kernelParams.shouldSkip = tracer.kernelParams.shouldSkip
  requests : next.requests = tracer.requests ++
    pids.map (BothMultiple.Params.mk tracer.kernelParams.buff tracer.kernelParams.shouldSkip)

theorem Ready.scan {pages : Nat} {tracer : Tracer} (ready : Ready pages tracer)
    (positive : 0 < pages) (surroundings : Surroundings) (maps : MapsTable)
    (scanned : readProcMapsFile surroundings.mapsLines emptyMapsTable = some maps)
    (found : maps.heapSize = pages) :
    ∃ left, scanHeap tracer surroundings = some left ∧ left.heapSize = pages := by
  rcases ready.maps with empty | known
  · refine ⟨maps, ?_, found⟩
    rw [scanHeap, empty]
    exact scanned
  · refine ⟨tracer.maps, ?_, known⟩
    rw [scanHeap, if_neg (by omega)]

private theorem runTracee_regular (machine : Machine) (serial pages : Nat) (positive : 0 < pages)
    (cost : List Nat → Nat) (regular : RegularLaunch machine (machine.launch serial) pages cost)
    (tracer : Tracer) (ready : Ready pages tracer)
    (inRange : ∀ p ∈ tracer.kernelParams.buff, 0 ≤ p ∧ p ≤ pages) :
    ∃ next, runTracee machine serial tracer = some next ∧
      AfterRuns pages
        (cost (selectedPages pages tracer.kernelParams.shouldSkip tracer.kernelParams.buff))
        [(machine.launch serial).pid] tracer next := by
  obtain ⟨armedParams, armed, armedPid⟩ := arrive_exec serial
    (setPid (machine.launch serial).pid tracer) (machine.launch serial).exec ready.stage
    regular.execReplies
  obtain ⟨maps, scanned, found⟩ := ready.scan positive
    (machine.launch serial).entry.surroundings regular.maps regular.scanned regular.found
  obtain ⟨startedParams, started, _startedPid, start⟩ := arrive_entry serial
    { setPid (machine.launch serial).pid tracer with stage := .entry, tparams := armedParams }
    (machine.launch serial).entry maps rfl regular.entryReplies regular.opens scanned
  -- the record written at the entry stop is the only one the kernel has not served
  obtain ⟨after, mm', served, left, uncached⟩ := regular.served
    { tracer.kernelParams with pid := (machine.launch serial).pid } rfl inRange
  have ticks := regular.measured after mm' left
  rw [uncached] at ticks
  obtain ⟨lastParams, last⟩ := arrive_exit serial
    { setPid (machine.launch serial).pid tracer with
      stage := .exit
      tparams := startedParams
      maps := maps
      kernelParams := { tracer.kernelParams with pid := (machine.launch serial).pid }
      requests := tracer.requests ++
        [{ tracer.kernelParams with pid := (machine.launch serial).pid }] }
    ((machine.launch serial).exitAfter after) rfl regular.exitReplies
  have pid : armedParams.pid = (machine.launch serial).pid := armedPid
  rw [pid] at started
  refine ⟨_, runTracee_eq machine serial tracer _ _ _ after armed started ?_ last, ?_⟩
  · dsimp only [setPid]
    rw [List.drop_left]
    exact served
  · constructor
    case stage => rfl
    case found =>
      intro _some
      exact found
    case kept =>
      intro none
      exact absurd none (List.cons_ne_nil _ _)
    case samples =>
      change tracer.samples + (((machine.launch serial).exitAfter after).surroundings.cycles -
        startedParams.tStart) = _
      rw [start, Launch.exitAfter, ticks,
        BitVec.add_comm (machine.launch serial).entry.surroundings.cycles, BitVec.add_sub_cancel]
    case buff => rfl
    case shouldSkip => rfl
    case requests => rfl

theorem AfterRuns.trans {pages earlier later : Nat} {earlierPids laterPids : List Nat}
    {first second third : Tracer} (one : AfterRuns pages earlier earlierPids first second)
    (two : AfterRuns pages later laterPids second third) :
    AfterRuns pages (earlier + later) (earlierPids ++ laterPids) first third := by
  constructor
  case stage => exact two.stage
  case found =>
    intro some
    by_cases none : laterPids = []
    · rw [none, List.append_nil] at some
      rw [two.kept none]
      exact one.found some
    · exact two.found none
  case kept =>
    intro none
    obtain ⟨noneEarlier, noneLater⟩ := List.append_eq_nil_iff.mp none
    rw [two.kept noneLater, one.kept noneEarlier]
  case samples => rw [two.samples, one.samples, BitVec.ofNat_add, BitVec.add_assoc]
  case buff => rw [two.buff, one.buff]
  case shouldSkip => rw [two.shouldSkip, one.shouldSkip]
  case requests =>
    rw [two.requests, one.requests, one.buff, one.shouldSkip, List.map_append, List.append_assoc]

theorem AfterRuns.nothing (pages : Nat) (tracer : Tracer) (stage : tracer.stage = .init) :
    AfterRuns pages 0 [] tracer tracer := by
  constructor
  case stage => exact stage
  case found =>
    intro some
    exact absurd rfl some
  case kept =>
    intro _none
    rfl
  case samples => exact (BitVec.add_zero _).symm
  case buff => rfl
  case shouldSkip => rfl
  case requests => rw [List.map_nil, List.append_nil]

theorem AfterRuns.ready {pages total : Nat} {pids : List Nat} {tracer next : Tracer}
    (after : AfterRuns pages total pids tracer next) (ready : Ready pages tracer) :
    Ready pages next := by
  refine ⟨after.stage, ?_⟩
  by_cases none : pids = []
  · rw [after.kept none]
    exact ready.maps
  · exact Or.inr (after.found none)

/-! ### Regular machines -/

/-- Every run finds a fresh heap of the same number of pages; `cost` is what run
number `n` takes with the given pages noncacheable. -/
structure Regular (machine : Machine) (pages : Nat) (cost : Nat → List Nat → Nat) where
  positive : 0 < pages
  launches : ∀ serial, RegularLaunch machine (machine.launch serial) pages (cost serial)

section Regular

variable {machine : Machine} {pages : Nat} {cost : Nat → List Nat → Nat}
variable (regular : Regular machine pages cost)

def launchPids (machine : Machine) (serial count : Nat) : List Nat :=
  (List.range' serial count).map (fun run => (machine.launch run).pid)

def totalCost (cost : Nat → List Nat → Nat) (uncached : List Nat) (serial count : Nat) : Nat :=
  ((List.range' serial count).map (fun run => cost run uncached)).sum

include regular

private theorem sampleRuns_regular (left serial : Nat) (tracer : Tracer) (ready : Ready pages tracer)
    (inRange : ∀ p ∈ tracer.kernelParams.buff, 0 ≤ p ∧ p ≤ pages) :
    ∃ next, sampleRuns machine left serial tracer = some next ∧
      AfterRuns pages
        (totalCost cost
          (selectedPages pages tracer.kernelParams.shouldSkip tracer.kernelParams.buff) serial left)
        (launchPids machine serial left) tracer next := by
  induction left generalizing serial tracer with
  | zero => exact ⟨tracer, rfl, AfterRuns.nothing pages tracer ready.stage⟩
  | succ left ih =>
      obtain ⟨middle, ran, first⟩ := runTracee_regular machine serial pages regular.positive
        (cost serial) (regular.launches serial) tracer ready inRange
      obtain ⟨next, ranRest, rest⟩ := ih (serial + 1) middle (first.ready ready)
        (by rw [first.buff]; exact inRange)
      refine ⟨next, ?_, ?_⟩
      · rw [sampleRuns, ran]
        exact ranRest
      · rw [first.buff, first.shouldSkip] at rest
        exact first.trans rest

end Regular

section Experiment

variable (machine : Machine) (pages : Nat) (cost : Nat → List Nat → Nat)
variable (sampleSize : Nat) (shouldSkip : Bool)

/-- Entry `count` of the profile: the mean over the runs that asked for that number. -/
def profileEntry (count : Nat) : PageStats :=
  { cycles := pageCycles
      (BitVec.ofNat 32 (totalCost cost (selectedPages pages shouldSkip [(count : Int)])
        (count * sampleSize) sampleSize)) sampleSize
    pageNumber := count }

def profile : List PageStats := (List.range pages).map (profileEntry pages cost sampleSize shouldSkip)

def profileRequests (count : Nat) : List BothMultiple.Params :=
  (launchPids machine (count * sampleSize) sampleSize).map
    (BothMultiple.Params.mk [(count : Int)] shouldSkip)

def sentNumbers (sorted : List PageStats) (i : Nat) : List Int :=
  (sorted.take i).map PageStats.pageNumber

/-- Line `i` of `output.csv`; it comes from the one run behind those of the profile
and of the lines before. -/
def outputRow (sorted : List PageStats) (i : Nat) : Nat × Int :=
  (i, pageCycles
    (BitVec.ofNat 32 (cost (pages * sampleSize + (i - 1))
      (selectedPages pages false (sentNumbers sorted i)))) 1)

def sentRequest (sorted : List PageStats) (i : Nat) : BothMultiple.Params :=
  { buff := sentNumbers sorted i
    shouldSkip := false
    pid := (machine.launch (pages * sampleSize + (i - 1))).pid }

/-! ### The first mode -/

structure Profiled (start : Tracer) (count : Nat) (state : Profiling) : Prop where
  page : state.page = (List.range count).map (profileEntry pages cost sampleSize shouldSkip)
  serial : state.serial = count * sampleSize
  ready : Ready pages state.tracer
  found : count ≠ 0 → state.tracer.maps.heapSize = pages
  flag : state.tracer.kernelParams.shouldSkip = shouldSkip
  requests : state.tracer.requests =
    start.requests ++ (List.range count).flatMap (profileRequests machine sampleSize shouldSkip)

variable {machine pages cost sampleSize shouldSkip}

private theorem profileRound_regular (regular : Regular machine pages cost) (positive : 0 < sampleSize)
    (start : Tracer) (count : Nat) (below : count < pages) (state : Profiling)
    (profiled : Profiled machine pages cost sampleSize shouldSkip start count state) :
    ∃ next, profileRound machine sampleSize state = some next ∧
      Profiled machine pages cost sampleSize shouldSkip start (count + 1) next := by
  have length : state.page.length = count := by
    rw [profiled.page, List.length_map, List.length_range]
  have askedReady : Ready pages (setRequest [(count : Int)] shouldSkip state.tracer) :=
    ⟨profiled.ready.stage, profiled.ready.maps⟩
  have askedRange : ∀ p ∈ (setRequest [(count : Int)] shouldSkip state.tracer).kernelParams.buff,
      0 ≤ p ∧ p ≤ pages := by
    intro p member
    rw [List.mem_singleton.mp member]
    omega
  obtain ⟨last, ran, after⟩ := sampleRuns_regular regular sampleSize state.serial
    (setRequest [(count : Int)] shouldSkip state.tracer) askedReady askedRange
  have found : last.maps.heapSize = pages := by
    apply after.found
    intro none
    have empty := congrArg List.length none
    simp only [launchPids, List.length_map, List.length_range', List.length_nil] at empty
    omega
  have samples : last.samples = BitVec.ofNat 32
      (totalCost cost (selectedPages pages shouldSkip [(count : Int)]) state.serial sampleSize) := by
    rw [after.samples]
    exact BitVec.zero_add _
  refine ⟨{ tracer := last
            serial := state.serial + sampleSize
            page := state.page ++ [⟨pageCycles last.samples sampleSize, count⟩] }, ?_, ?_⟩
  · have nonzero : ¬ (sampleSize : Int) = 0 := by omega
    dsimp only [profileRound]
    rw [length, profiled.flag, Int.toNat_natCast, ran]
    dsimp only
    rw [if_neg nonzero, if_pos (by rw [found]; exact below)]
  · constructor
    case page =>
      rw [profiled.page, List.range_succ, List.map_append, samples, profiled.serial]
      rfl
    case serial =>
      change state.serial + sampleSize = _
      rw [profiled.serial, Nat.succ_mul]
    case ready => exact after.ready askedReady
    case found =>
      intro _some
      exact found
    case flag => exact after.shouldSkip
    case requests =>
      change last.requests = _
      rw [after.requests, List.range_succ, List.flatMap_append, ← List.append_assoc,
        ← profiled.requests, profiled.serial]
      simp only [List.flatMap_cons, List.flatMap_nil, List.append_nil]
      rfl

private theorem profileWhile_regular (regular : Regular machine pages cost) (positive : 0 < sampleSize)
    (start : Tracer) (left count : Nat) (rounds : count + left = pages) (begun : count ≠ 0)
    (state : Profiling)
    (profiled : Profiled machine pages cost sampleSize shouldSkip start count state) :
    ∃ last, profileWhile machine sampleSize state = some last ∧
      Profiled machine pages cost sampleSize shouldSkip start pages last := by
  have length : state.page.length = count := by
    rw [profiled.page, List.length_map, List.length_range]
  induction left generalizing count state with
  | zero =>
      have finished : ¬ state.page.length < state.tracer.maps.heapSize := by
        rw [length, profiled.found begun]
        omega
      refine ⟨state, ?_, ?_⟩
      · rw [profileWhile, dif_neg finished]
      · have all : count = pages := rounds
        rw [all] at profiled
        exact profiled
  | succ left ih =>
      have goesOn : state.page.length < state.tracer.maps.heapSize := by
        rw [length, profiled.found begun]
        omega
      obtain ⟨next, ran, nextProfiled⟩ :=
        profileRound_regular regular positive start count (by omega) state profiled
      have nextLength : next.page.length = count + 1 := by
        rw [nextProfiled.page, List.length_map, List.length_range]
      obtain ⟨last, ranRest, done⟩ :=
        ih (count + 1) (by omega) (Nat.succ_ne_zero count) next nextProfiled nextLength
      refine ⟨last, ?_, done⟩
      rw [profileWhile, dif_pos goesOn]
      split
      · rename_i stuck
        rw [ran] at stuck
        cases stuck
      · rename_i other same
        rw [ran] at same
        rw [← Option.some.inj same]
        exact ranRest

private theorem profilePages_regular (regular : Regular machine pages cost) (positive : 0 < sampleSize)
    (start : Tracer) (ready : Ready pages start) (flag : start.kernelParams.shouldSkip = shouldSkip) :
    ∃ last, profilePages machine sampleSize start = some last ∧
      Profiled machine pages cost sampleSize shouldSkip start pages last := by
  have begin : Profiled machine pages cost sampleSize shouldSkip start 0 ⟨start, 0, []⟩ := by
    constructor
    case page => rfl
    case serial => rw [Nat.zero_mul]
    case ready => exact ready
    case found =>
      intro nonzero
      exact absurd rfl nonzero
    case flag => exact flag
    case requests => rw [List.range_zero, List.flatMap_nil, List.append_nil]
  obtain ⟨first, ran, profiled⟩ :=
    profileRound_regular regular positive start 0 regular.positive ⟨start, 0, []⟩ begin
  have pagesPositive := regular.positive
  obtain ⟨last, ranRest, done⟩ := profileWhile_regular regular positive start (pages - 1) (0 + 1)
    (by omega) (Nat.succ_ne_zero 0) first profiled
  refine ⟨last, ?_, done⟩
  rw [profilePages, ran]
  exact ranRest

/-! ### The second mode -/

structure Sent (machine : Machine) (pages : Nat) (cost : Nat → List Nat → Nat)
    (sampleSize : Nat) (sorted : List PageStats) (start : Tracer) (sent : Nat)
    (state : Outcome) : Prop where
  page : state.page = sorted
  rows : state.rows = (List.range' 1 sent).map (outputRow pages cost sampleSize sorted)
  stray : state.stray = none
  ready : Ready pages state.tracer
  requests : state.tracer.requests =
    start.requests ++ (List.range' 1 sent).map (sentRequest machine pages sampleSize sorted)

private theorem sentRun_regular (regular : Regular machine pages cost) (sorted : List PageStats)
    (length : sorted.length = pages)
    (numbers : ∀ entry ∈ sorted, 0 ≤ entry.pageNumber ∧ entry.pageNumber ≤ pages)
    (start : Tracer) (sent : Nat) (below : sent < pages) (state : Outcome)
    (soFar : Sent machine pages cost sampleSize sorted start sent state) :
    ∃ next, fillBuff state.page (sent + 1) = some (sentNumbers sorted (sent + 1)) ∧
      runTracee machine (pages * sampleSize + sent)
        (setRequest (sentNumbers sorted (sent + 1)) false state.tracer) = some next ∧
      Ready pages next ∧
      (sent + 1, pageCycles next.samples 1) = outputRow pages cost sampleSize sorted (sent + 1) ∧
      next.requests = start.requests ++
        (List.range' 1 (sent + 1)).map (sentRequest machine pages sampleSize sorted) := by
  have filled := fillBuff_eq state.page (sent + 1) (by rw [soFar.page, length]; exact below)
  rw [soFar.page] at filled
  have askedReady : Ready pages
      (setRequest (sentNumbers sorted (sent + 1)) false state.tracer) :=
    ⟨soFar.ready.stage, soFar.ready.maps⟩
  have askedRange : ∀ p ∈ (setRequest (sentNumbers sorted (sent + 1)) false
      state.tracer).kernelParams.buff, 0 ≤ p ∧ p ≤ pages := by
    intro p member
    obtain ⟨entry, taken, rfl⟩ := List.mem_map.mp member
    exact numbers entry (List.mem_of_mem_take taken)
  obtain ⟨next, ran, after⟩ := runTracee_regular machine (pages * sampleSize + sent) pages
    regular.positive (cost (pages * sampleSize + sent))
    (regular.launches (pages * sampleSize + sent))
    (setRequest (sentNumbers sorted (sent + 1)) false state.tracer) askedReady askedRange
  have samples : next.samples = BitVec.ofNat 32 (cost (pages * sampleSize + sent)
      (selectedPages pages false (sentNumbers sorted (sent + 1)))) := by
    rw [after.samples]
    exact BitVec.zero_add _
  refine ⟨next, by rw [soFar.page]; exact filled, ran, after.ready askedReady, ?_, ?_⟩
  · rw [samples]
    rfl
  · rw [after.requests]
    change state.tracer.requests ++ _ = _
    rw [soFar.requests, List.range'_1_concat, List.map_append, List.append_assoc]
    congr 2
    simp only [List.map_cons, List.map_nil, sentRequest, Nat.add_comm 1 sent]
    rfl

private theorem multiplePages_regular (regular : Regular machine pages cost) (sorted : List PageStats)
    (length : sorted.length = pages)
    (numbers : ∀ entry ∈ sorted, 0 ≤ entry.pageNumber ∧ entry.pageNumber ≤ pages)
    (start : Tracer) (left sent : Nat) (rounds : sent + (left + 1) = pages) (state : Outcome)
    (soFar : Sent machine pages cost sampleSize sorted start sent state) :
    ∃ last, multiplePages machine pages (left + 1) (pages * sampleSize + sent) state =
        some
          { tracer := last
            page := sorted
            rows := (List.range' 1 (pages - 1)).map (outputRow pages cost sampleSize sorted)
            stray := some pages } ∧
      last.requests = start.requests ++
        (List.range' 1 pages).map (sentRequest machine pages sampleSize sorted) := by
  have rowCount : state.rows.length = sent := by
    rw [soFar.rows, List.length_map, List.length_range']
  induction left generalizing sent state with
  | zero =>
      obtain ⟨next, filled, ran, _ready, _row, requests⟩ :=
        sentRun_regular regular sorted length numbers start sent (by omega) state soFar
      have finished : ¬ sent + 1 < pages := by omega
      have final : sent + 1 = pages := by omega
      refine ⟨next, ?_, ?_⟩
      · simp only [multiplePages, rowCount, filled, ran, if_neg finished]
        rw [soFar.page, soFar.rows, ← final, Nat.add_sub_cancel]
      · rw [← final] at requests ⊢
        exact requests
  | succ left ih =>
      obtain ⟨next, filled, ran, ready, row, requests⟩ :=
        sentRun_regular regular sorted length numbers start sent (by omega) state soFar
      have within : sent + 1 < pages := by omega
      have nextSoFar : Sent machine pages cost sampleSize sorted start (sent + 1)
          { state with
            tracer := next
            rows := state.rows ++ [(sent + 1, pageCycles next.samples 1)] } := by
        constructor
        case page => exact soFar.page
        case rows =>
          rw [row, soFar.rows, List.range'_1_concat, List.map_append, Nat.add_comm 1 sent]
          rfl
        case stray => exact soFar.stray
        case ready => exact ready
        case requests => exact requests
      obtain ⟨last, ranRest, sentAll⟩ := ih (sent + 1) (by omega) _ nextSoFar (by
        rw [List.length_append, rowCount]
        rfl)
      refine ⟨last, ?_, sentAll⟩
      rw [multiplePages]
      simp only [rowCount, filled, ran, if_pos within]
      exact ranRest

private theorem profile_numbers (pages : Nat) (cost : Nat → List Nat → Nat) (sampleSize : Nat)
    (shouldSkip : Bool) :
    (profile pages cost sampleSize shouldSkip).map PageStats.pageNumber =
      (List.range pages).map (fun count : Nat => (count : Int)) := by
  rw [profile, List.map_map]
  rfl

private theorem sorted_numbers (qsort : ComparisonSort.Sorter PageStats) (pages : Nat)
    (cost : Nat → List Nat → Nat) (sampleSize : Nat) (shouldSkip : Bool) (entry : PageStats)
    (member : entry ∈ qsort.run cmpfunc (profile pages cost sampleSize shouldSkip)) :
    0 ≤ entry.pageNumber ∧ entry.pageNumber < pages := by
  have before := (qsort.perm cmpfunc (profile pages cost sampleSize shouldSkip)).mem_iff.mp member
  have number := List.mem_map_of_mem (f := PageStats.pageNumber) before
  rw [profile_numbers] at number
  obtain ⟨count, inside, same⟩ := List.mem_map.mp number
  have below := List.mem_range.mp inside
  omega

/-- On a regular machine both modes come to their last store with the profile of the
heap, a line for every smaller prefix of it, and the requests of all runs. -/
theorem bothModes_regular (regular : Regular machine pages cost) (positive : 0 < sampleSize)
    (qsort : ComparisonSort.Sorter PageStats) (start : Tracer) (ready : Ready pages start) :
    ∃ last,
      bothModes machine qsort sampleSize start =
        some
          { tracer := last
            page := qsort.run cmpfunc
              (profile pages cost sampleSize start.kernelParams.shouldSkip)
            rows := (List.range' 1 (pages - 1)).map (outputRow pages cost sampleSize
              (qsort.run cmpfunc (profile pages cost sampleSize start.kernelParams.shouldSkip)))
            stray := some pages } ∧
      last.requests = start.requests ++
        (List.range pages).flatMap
          (profileRequests machine sampleSize start.kernelParams.shouldSkip) ++
        (List.range' 1 pages).map (sentRequest machine pages sampleSize
          (qsort.run cmpfunc (profile pages cost sampleSize start.kernelParams.shouldSkip))) := by
  obtain ⟨profiled, ran, done⟩ := profilePages_regular regular positive start ready rfl
  have pagesPositive := regular.positive
  have entries : profiled.page = profile pages cost sampleSize start.kernelParams.shouldSkip :=
    done.page
  have length : (qsort.run cmpfunc
      (profile pages cost sampleSize start.kernelParams.shouldSkip)).length = pages := by
    rw [(qsort.perm cmpfunc _).length_eq, profile, List.length_map, List.length_range]
  have begin : Sent machine pages cost sampleSize
      (qsort.run cmpfunc (profile pages cost sampleSize start.kernelParams.shouldSkip))
      profiled.tracer 0
      { tracer := profiled.tracer
        page := qsort.run cmpfunc (profile pages cost sampleSize start.kernelParams.shouldSkip)
        rows := []
        stray := none } := by
    constructor
    case page => rfl
    case rows => rfl
    case stray => rfl
    case ready => exact done.ready
    case requests => exact (List.append_nil _).symm
  obtain ⟨last, ranLoop, requests⟩ := multiplePages_regular regular _ length
    (fun entry member =>
      have bounds := sorted_numbers qsort pages cost sampleSize _ entry member
      ⟨bounds.1, Int.le_of_lt bounds.2⟩)
    profiled.tracer (pages - 1) 0 (by omega) _ begin
  refine ⟨last, ?_, ?_⟩
  · have sizes : pages - 1 + 1 = pages := by omega
    rw [sizes] at ranLoop
    simp only [bothModes, ran, done.found (Nat.ne_of_gt pagesPositive), entries, done.serial]
    exact ranLoop
  · rw [requests, done.requests]

/-! ### What the numbers mean -/

private theorem profileEntry_mean (count : Nat) (positive : 0 < sampleSize)
    (int : sampleSize < 0x80000000)
    (small : totalCost cost (selectedPages pages shouldSkip [(count : Int)]) (count * sampleSize)
      sampleSize < 0x80000000) :
    profileEntry pages cost sampleSize shouldSkip count =
      { cycles := (totalCost cost (selectedPages pages shouldSkip [(count : Int)])
          (count * sampleSize) sampleSize / sampleSize : Nat)
        pageNumber := count } := by
  rw [profileEntry, (pageCycles_iff _ sampleSize positive int).mpr small]

/-- Costs whose sums stay below `2^31` are stored as they are, so `qsort` orders the
pages by them. -/
theorem profile_ordered (qsort : ComparisonSort.Sorter PageStats) (positive : 0 < sampleSize)
    (int : sampleSize < 0x80000000)
    (small : ∀ count < pages, totalCost cost (selectedPages pages shouldSkip [(count : Int)])
      (count * sampleSize) sampleSize < 0x80000000) :
    (qsort.run cmpfunc (profile pages cost sampleSize shouldSkip)).Pairwise
      (fun left right => left.cycles ≤ right.cycles) := by
  have bounds (entry : PageStats) (member : entry ∈ profile pages cost sampleSize shouldSkip) :
      0 ≤ entry.cycles ∧ entry.cycles < 0x80000000 := by
    obtain ⟨count, inside, rfl⟩ := List.mem_map.mp member
    have total := small count (List.mem_range.mp inside)
    have mean := Nat.div_le_self (totalCost cost
      (selectedPages pages shouldSkip [(count : Int)]) (count * sampleSize) sampleSize) sampleSize
    rw [profileEntry_mean count positive int total]
    constructor
    · exact Int.natCast_nonneg _
    · exact Int.ofNat_lt.mpr (Nat.lt_of_le_of_lt mean total)
  obtain ⟨consistent, exact⟩ := cmpfunc_consistent (profile pages cost sampleSize shouldSkip) (by
    intro left leftMember right rightMember
    have leftBounds := bounds left leftMember
    have rightBounds := bounds right rightMember
    omega)
  have permuted := qsort.perm cmpfunc (profile pages cost sampleSize shouldSkip)
  apply (qsort.sorted cmpfunc _ consistent).imp_of_mem
  intro left right leftMember rightMember ordered
  rw [exact left (permuted.mem_iff.mp leftMember) right (permuted.mem_iff.mp rightMember)]
    at ordered
  omega

/-- The whole experiment: on a machine that is the same for every run the profile
holds the mean costs of the requested pages in increasing order, every line of the
output is the cost with all pages noncacheable but the numbers sent, and `functime`
asks for nothing else. The last round ends at a store behind `output`. -/
theorem bothModes_measure (regular : Regular machine pages cost) (positive : 0 < sampleSize)
    (int : sampleSize < 0x80000000) (qsort : ComparisonSort.Sorter PageStats) (start : Tracer)
    (ready : Ready pages start)
    (small : ∀ count < pages,
      totalCost cost (selectedPages pages start.kernelParams.shouldSkip [(count : Int)])
        (count * sampleSize) sampleSize < 0x80000000)
    (smallRun : ∀ run buff, cost run (selectedPages pages false buff) < 0x80000000) :
    ∃ outcome, bothModes machine qsort sampleSize start = some outcome ∧
      outcome.page.Perm ((List.range pages).map (fun count : Nat =>
        { cycles :=
            (totalCost cost (selectedPages pages start.kernelParams.shouldSkip [(count : Int)])
              (count * sampleSize) sampleSize / sampleSize : Nat)
          pageNumber := count })) ∧
      outcome.page.Pairwise (fun left right => left.cycles ≤ right.cycles) ∧
      outcome.rows = (List.range' 1 (pages - 1)).map (fun i =>
        (i, (cost (pages * sampleSize + (i - 1))
          (selectedPages pages false (sentNumbers outcome.page i)) : Int))) ∧
      outcome.stray = some pages ∧
      outcome.tracer.requests = start.requests ++
        (List.range pages).flatMap
          (profileRequests machine sampleSize start.kernelParams.shouldSkip) ++
        (List.range' 1 pages).map (sentRequest machine pages sampleSize outcome.page) := by
  obtain ⟨last, ran, requests⟩ := bothModes_regular regular positive qsort start ready
  refine ⟨_, ran, ?_, ?_, ?_, rfl, requests⟩
  · have means : profile pages cost sampleSize start.kernelParams.shouldSkip =
        (List.range pages).map (fun count : Nat =>
          { cycles :=
              (totalCost cost (selectedPages pages start.kernelParams.shouldSkip [(count : Int)])
                (count * sampleSize) sampleSize / sampleSize : Nat)
            pageNumber := count }) := by
      apply List.map_congr_left
      intro count inside
      exact profileEntry_mean count positive int (small count (List.mem_range.mp inside))
    rw [← means]
    exact qsort.perm cmpfunc _
  · exact profile_ordered qsort positive int small
  · apply List.map_congr_left
    intro i _inside
    have exactRow := (pageCycles_iff (cost (pages * sampleSize + (i - 1))
      (selectedPages pages false (sentNumbers (qsort.run cmpfunc
        (profile pages cost sampleSize start.kernelParams.shouldSkip)) i))) 1 Nat.one_pos
      (by decide)).mpr (smallRun _ _)
    rw [Nat.div_one] at exactRow
    rw [outputRow]
    exact congrArg (Prod.mk i) exactRow

private theorem mem_selectedPages (count number : Nat) (flag : Bool) (buff : List Int) :
    number ∈ selectedPages count flag buff ↔
      (1 ≤ number ∧ number ≤ count) ∧ ((number : Int) ∈ buff ↔ flag = true) := by
  rw [selectedPages, List.mem_filter, List.mem_range'_1, beq_iff_eq]
  apply and_congr
  · omega
  · cases flag <;> simp

theorem selectedPages_complement (count : Nat) (buff : List Int) :
    (selectedPages count true buff).length + (selectedPages count false buff).length = count := by
  have split := List.length_eq_length_filter_add (l := List.range' 1 count)
    (fun number : Nat => decide ((number : Int) ∈ buff))
  rw [List.length_range'] at split
  simp only [selectedPages, beq_true, beq_false]
  exact split.symm

theorem selectedPages_perm (count : Nat) (buff : List Int) (distinct : buff.Nodup)
    (inRange : ∀ p ∈ buff, 0 ≤ p ∧ p ≤ count) :
    ((selectedPages count true buff).map (fun number : Nat => (number : Int)) ++
      buff.filter (fun p => decide (p = 0))).Perm buff := by
  apply (List.perm_ext_iff_of_nodup _ distinct).mpr
  · intro p
    rw [List.mem_append, List.mem_map, List.mem_filter, decide_eq_true_eq]
    constructor
    · intro either
      rcases either with ⟨number, selected, rfl⟩ | zero
      · exact ((mem_selectedPages _ _ _ _).mp selected).2.mpr rfl
      · exact zero.1
    · intro member
      obtain ⟨low, high⟩ := inRange p member
      by_cases zero : p = 0
      · exact Or.inr ⟨member, zero⟩
      · refine Or.inl ⟨p.toNat, ?_, by omega⟩
        rw [mem_selectedPages, Int.toNat_of_nonneg low]
        exact ⟨by omega, iff_of_true member rfl⟩
  · apply List.nodup_append.mpr
    refine ⟨?_, distinct.filter _, ?_⟩
    · have numbers : (List.range' 1 count).Nodup := List.nodup_range' 1
      have each : (selectedPages count true buff).Nodup := numbers.filter _
      exact each.map (fun left right same => Int.ofNat_inj.mp same)
    · intro p selected other zero same
      obtain ⟨number, member, rfl⟩ := List.mem_map.mp selected
      have positive := ((mem_selectedPages _ _ _ _).mp member).1.1
      have isZero := of_decide_eq_true (List.mem_filter.mp zero).2
      omega

theorem selectedPages_length (count : Nat) (buff : List Int) (distinct : buff.Nodup)
    (inRange : ∀ p ∈ buff, 0 ≤ p ∧ p ≤ count) :
    (selectedPages count false buff).length + buff.length = count + buff.count 0 := by
  have listed := (selectedPages_perm count buff distinct inRange).length_eq
  have zeros : buff.count 0 = (buff.filter (fun p => decide (p = 0))).length := by
    rw [List.count_eq_length_filter]
    rfl
  have all := selectedPages_complement count buff
  rw [List.length_append, List.length_map] at listed
  omega

theorem sentNumbers_distinct (qsort : ComparisonSort.Sorter PageStats) (pages : Nat)
    (cost : Nat → List Nat → Nat) (sampleSize : Nat) (shouldSkip : Bool) (i : Nat) :
    (sentNumbers (qsort.run cmpfunc (profile pages cost sampleSize shouldSkip)) i).Nodup ∧
      ∀ p ∈ sentNumbers (qsort.run cmpfunc (profile pages cost sampleSize shouldSkip)) i,
        0 ≤ p ∧ p < pages := by
  constructor
  · have numbers := ((qsort.perm cmpfunc (profile pages cost sampleSize shouldSkip)).map
      PageStats.pageNumber).nodup_iff.mpr (by
        rw [profile_numbers]
        exact List.nodup_range.map (fun left right same => Int.ofNat_inj.mp same))
    exact numbers.sublist ((List.take_sublist i _).map PageStats.pageNumber)
  · intro p listed
    obtain ⟨entry, taken, rfl⟩ := List.mem_map.mp listed
    exact sorted_numbers qsort pages cost sampleSize shouldSkip entry (List.mem_of_mem_take taken)

theorem sentNumbers_length (qsort : ComparisonSort.Sorter PageStats) (pages : Nat)
    (cost : Nat → List Nat → Nat) (sampleSize : Nat) (shouldSkip : Bool) (i : Nat)
    (within : i ≤ pages) :
    (sentNumbers (qsort.run cmpfunc (profile pages cost sampleSize shouldSkip)) i).length = i := by
  rw [sentNumbers, List.length_map, List.length_take, (qsort.perm cmpfunc _).length_eq, profile,
    List.length_map, List.length_range, Nat.min_eq_left within]

/-- No run of the experiment asks for the last page of the heap. Round `i`, the one whose
store misses `output` too, runs with that page noncacheable and with `i` cacheable pages,
one fewer once number zero is among those sent. -/
theorem bothModes_shifted (regular : Regular machine pages cost) (positive : 0 < sampleSize)
    (qsort : ComparisonSort.Sorter PageStats) (start : Tracer) (ready : Ready pages start) :
    ∃ outcome, bothModes machine qsort sampleSize start = some outcome ∧
      (∀ request ∈ outcome.tracer.requests.drop start.requests.length,
        (pages : Int) ∉ request.buff) ∧
      outcome.rows.length + 1 = pages ∧ outcome.stray = some pages ∧
      ∀ i, 1 ≤ i → i ≤ pages →
        let run := pages * sampleSize + (i - 1)
        let uncached := selectedPages pages false (sentNumbers outcome.page i)
        sentRequest machine pages sampleSize outcome.page i ∈ outcome.tracer.requests ∧
        (∃ after mm', serveRequests machine [sentRequest machine pages sampleSize outcome.page i]
            (machine.launch run).processes = some after ∧
          { (regular.launches run).target with mm := some mm' } ∈ after.tasks ∧
          uncachedPages (regular.launches run).heap mm' = uncached) ∧
        pages ∈ uncached ∧
        uncached.length + i = pages + (sentNumbers outcome.page i).count 0 ∧
        (i < pages → outcome.rows[i - 1]? =
          some (i, pageCycles (BitVec.ofNat 32 (cost run uncached)) 1)) := by
  obtain ⟨last, ran, requests⟩ := bothModes_regular regular positive qsort start ready
  have pagesPositive := regular.positive
  refine ⟨_, ran, ?_, ?_, rfl, ?_⟩
  · intro request member
    rw [requests, List.append_assoc, List.drop_left] at member
    rcases List.mem_append.mp member with profiling | sending
    · obtain ⟨count, inside, asked⟩ := List.mem_flatMap.mp profiling
      obtain ⟨pid, _isLaunch, rfl⟩ := List.mem_map.mp asked
      have below := List.mem_range.mp inside
      intro listed
      have same := List.mem_singleton.mp listed
      omega
    · obtain ⟨i, _inside, rfl⟩ := List.mem_map.mp sending
      intro listed
      have bounds := (sentNumbers_distinct qsort pages cost sampleSize _ i).2 _ listed
      omega
  · rw [List.length_map, List.length_range']
    omega
  · intro i low high
    obtain ⟨distinct, range⟩ :=
      sentNumbers_distinct qsort pages cost sampleSize start.kernelParams.shouldSkip i
    refine ⟨?_, ?_, ?_, ?_, ?_⟩
    · rw [requests]
      refine List.mem_append_right _ (List.mem_map.mpr ⟨i, ?_, rfl⟩)
      exact List.mem_range'_1.mpr (by omega)
    · exact (regular.launches _).served _ rfl
        (fun p listed => ⟨(range p listed).1, Int.le_of_lt (range p listed).2⟩)
    · rw [mem_selectedPages]
      refine ⟨by omega, iff_of_false ?_ (by decide)⟩
      intro listed
      have below := (range _ listed).2
      omega
    · have counted := selectedPages_length pages _ distinct
        (fun p listed => ⟨(range p listed).1, Int.le_of_lt (range p listed).2⟩)
      rw [sentNumbers_length qsort pages cost sampleSize _ i high] at counted
      exact counted
    · intro below
      rw [List.getElem?_map, List.getElem?_range' (by omega)]
      have number : 1 + 1 * (i - 1) = i := by omega
      rw [number]
      rfl

end Experiment

def sampleTicks (after : TaskList) : Nat :=
  match after.tasks.find? (fun task => task.pid = 7) with
  | some ⟨_pid, _comm, some mm⟩ => 100 + 10 * (uncachedPages sampleHeap mm).length
  | _ => 0

def sampleCost (_run : Nat) (uncached : List Nat) : Nat := 100 + 10 * (uncached.length)

def sampleLaunch : Launch :=
  { pid := 7
    exec := sampleArrival
    entry := { sampleArrival with
               surroundings := { sampleArrival.surroundings with
                                 mapsLines := sampleFormat.lines sampleMm } }
    exit := sampleArrival
    processes := sampleProcesses
    ticks := sampleTicks }

def sampleMachine : Machine :=
  { gup := .faultIn id
    progresses := GetUserPages.faultIn_progresses id
    fuel := 8
    launch := fun _serial => sampleLaunch }

private theorem sampleTicks_measured (after : TaskList) (mm : Mm)
    (member : { sampleTask with mm := some mm } ∈ after.tasks) :
    sampleTicks after = 100 + 10 * (uncachedPages sampleHeap mm).length := by
  have found : after.tasks.find? (fun task => task.pid = 7) =
      some { sampleTask with mm := some mm } := by
    cases search : after.tasks.find? (fun task => task.pid = 7) with
    | none =>
        have misses := List.find?_eq_none.mp search _ member
        exact absurd rfl misses
    | some task =>
        have named : decide (task.pid = 7) = true :=
          List.find?_some (p := fun task : Task => decide (task.pid = 7)) search
        rw [after.unique task { sampleTask with mm := some mm } (List.mem_of_find?_eq_some search)
          member (of_decide_eq_true named)]
  rw [sampleTicks, found]

private theorem samplePopulated (ret : Int) (table : PageTable)
    (ran : mmPopulateMod sampleMachine.gup (sampleHeap.pageCount + 1) sampleMm sampleHeap.vmStart
      (sampleHeap.vmEnd - sampleHeap.vmStart) true = some (ret, table)) :
    ∀ address ∈ sampleHeap.pageAddrs, (table address).cacheable = true := by
  intro address _inside
  have kept := (mmPopulateMod_keeps sampleMachine.gup _ sampleMm sampleHeap List.mem_cons_self ret
    table ran address rfl).owned rfl
  rw [Pte.cacheable, kept.2.2]
  rfl

def sampleRegular : Regular sampleMachine 3 sampleCost :=
  { positive := by decide
    launches := fun serial =>
      { target := sampleTask
        mm := sampleMm
        heap := sampleHeap
        maps := (readProcMapsFile (sampleFormat.lines sampleMm) emptyMapsTable).getD emptyMapsTable
        member := List.mem_cons_self
        named := rfl
        atTarget := rfl
        chosen := by decide
        counted := by decide
        enough := by decide
        populated := samplePopulated
        execReplies := rfl
        entryReplies := rfl
        exitReplies := rfl
        opens := rfl
        scanned := rfl
        found := by decide
        measured := fun after mm' member => sampleTicks_measured after mm' member } }

theorem bothModes_measure_sample :
    ∃ outcome, bothModes sampleMachine
        (ComparisonSort.sorterElse id List.Perm.refl) 2 sampleTracer = some outcome ∧
      outcome.page.Pairwise (fun left right => left.cycles ≤ right.cycles) ∧
      outcome.stray = some 3 := by
  have small (run : Nat) (buff : List Int) :
      sampleCost run (selectedPages 3 false buff) < 0x80000000 := by
    have bound : (selectedPages 3 false buff).length ≤ 3 := List.length_filter_le _ _
    rw [sampleCost]
    omega
  obtain ⟨outcome, ran, _entries, ordered, _rows, stray, _requests⟩ :=
    bothModes_measure sampleRegular (show 0 < 2 by decide) (by decide)
      (ComparisonSort.sorterElse id List.Perm.refl) sampleTracer ⟨rfl, Or.inl rfl⟩ (by decide) small
  exact ⟨outcome, ran, ordered, stray⟩

theorem bothModes_shifted_sample :
    ∃ outcome, bothModes sampleMachine
        (ComparisonSort.sorterElse id List.Perm.refl) 2 sampleTracer = some outcome ∧
      (∀ request ∈ outcome.tracer.requests, (3 : Int) ∉ request.buff) ∧
      ∀ i, 1 ≤ i → i ≤ 3 → 3 ∈ selectedPages 3 false (sentNumbers outcome.page i) := by
  obtain ⟨outcome, ran, never, _rows, _stray, rounds⟩ := bothModes_shifted sampleRegular
    (show 0 < 2 by decide) (ComparisonSort.sorterElse id List.Perm.refl) sampleTracer ⟨rfl, Or.inl rfl⟩
  exact ⟨outcome, ran, never, fun i low high => (rounds i low high).2.2.1⟩

end BlackboxProfiling.Functime.Experiment
