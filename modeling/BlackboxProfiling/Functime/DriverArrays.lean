import BlackboxProfiling.EventRun

/-!
The arrays of `main` over both modes of `functime`. Their lengths come from
`heap_size`, which a handler sets during the first runs, and `output` is indexed from
one. What a run of the tracee brings about is a parameter.
-/

namespace BlackboxProfiling.Functime

open EventRun

inductive DriverArray where
  | page
  | buff
  | output
  deriving DecidableEq, Repr

inductive DriverEvent where
  | access (array : DriverArray) (index length : Nat)
  | divide (divisor : Int)
  deriving DecidableEq, Repr

/-- The index lies inside what was allocated; the divisor is not zero. -/
def DriverEvent.Safe : DriverEvent → Prop
  | .access _array index length => index < length
  | .divide divisor => divisor ≠ 0

instance : DecidablePred DriverEvent.Safe
  | .access _array index length => inferInstanceAs (Decidable (index < length))
  | .divide divisor => inferInstanceAs (Decidable (divisor ≠ 0))

/-- For each run of the tracee in turn, the pages of the heap its maps file shows when
it is scanned: zero when the breakpoint is not reached or there is no heap. No number
when `main` does not go on after the run: `fork` fails, a handler exits or the tracee
does not end. -/
abbrev Runs := Nat → Option Nat

structure Driver where
  heapSize : Nat
  pageLength : Nat
  serial : Nat
  deriving DecidableEq, Repr

def scanned (heapSize found : Nat) : Nat := if heapSize = 0 then found else heapSize

def runTracee (runs : Runs) (driver : Driver) : Option Driver :=
  (runs driver.serial).map (fun found =>
    { driver with heapSize := scanned driver.heapSize found, serial := driver.serial + 1 })

def sampleRuns (runs : Runs) : Nat → Driver → Option Driver
  | 0, driver => some driver
  | left + 1, driver => (runTracee runs driver).bind (sampleRuns runs left)

/-- The body of the do-while loop; `page` is allocated behind the first runs. -/
def profileRound (runs : Runs) (sampleSize : Int) (count : Nat) (driver : Driver) :
    Logged DriverEvent Driver :=
  match sampleRuns runs sampleSize.toNat driver with
  | none => ⟨[.access .buff 0 1], none⟩
  | some driver =>
      let driver := if count = 0 then { driver with pageLength := driver.heapSize } else driver
      let entry := DriverEvent.access .page count driver.pageLength
      if sampleSize = 0 then ⟨[.access .buff 0 1, .divide sampleSize], none⟩
      else ⟨[.access .buff 0 1, .divide sampleSize, entry, entry, entry, entry], some driver⟩

theorem runTracee_some (runs : Runs) (driver next : Driver)
    (ran : runTracee runs driver = some next) :
    runs driver.serial ≠ none ∧ next.serial = driver.serial + 1 ∧
      next.pageLength = driver.pageLength ∧
      next.heapSize = scanned driver.heapSize ((runs driver.serial).getD 0) := by
  obtain ⟨found, ended, same⟩ := Option.map_eq_some_iff.mp ran
  rw [← same, ended]
  exact ⟨by simp only [ne_eq, reduceCtorEq, not_false_eq_true], rfl, rfl, rfl⟩

private theorem scanned_kept (heapSize found : Nat) (positive : heapSize ≠ 0) :
    scanned heapSize found = heapSize :=
  if_neg positive

private theorem sampleRuns_heapSize (runs : Runs) (count : Nat) (driver next : Driver)
    (ran : sampleRuns runs count driver = some next) (positive : driver.heapSize ≠ 0) :
    next.heapSize = driver.heapSize := by
  induction count generalizing driver with
  | zero =>
      cases ran
      rfl
  | succ count ih =>
      obtain ⟨middle, first, rest⟩ := Option.bind_eq_some_iff.mp ran
      obtain ⟨_ended, _serial, _length, heap⟩ := runTracee_some runs driver middle first
      rw [scanned_kept _ _ positive] at heap
      rw [ih middle rest (by rw [heap]; exact positive), heap]

private theorem profileRound_heapSize (runs : Runs) (sampleSize : Int) (count : Nat)
    (driver next : Driver) (goesOn : (profileRound runs sampleSize count driver).left = some next)
    (positive : driver.heapSize ≠ 0) : next.heapSize = driver.heapSize := by
  unfold profileRound at goesOn
  cases ran : sampleRuns runs sampleSize.toNat driver with
  | none =>
      rw [ran] at goesOn
      cases goesOn
  | some middle =>
      have kept := sampleRuns_heapSize runs _ driver middle ran positive
      rw [ran] at goesOn
      dsimp only at goesOn
      split at goesOn
      · cases goesOn
      · cases goesOn
        split
        · exact kept
        · exact kept

/-- The loop goes on while `count` is below `heap_size`, which is not set twice. -/
def profileWhile (runs : Runs) (sampleSize : Int) (count : Nat) (driver : Driver) :
    Logged DriverEvent Driver :=
  if count < driver.heapSize then
    match _goesOn : (profileRound runs sampleSize count driver).left with
    | none => ⟨(profileRound runs sampleSize count driver).events, none⟩
    | some next =>
        let rest := profileWhile runs sampleSize (count + 1) next
        ⟨(profileRound runs sampleSize count driver).events ++ rest.events, rest.left⟩
  else ⟨[], some driver⟩
termination_by driver.heapSize - count
decreasing_by
  rw [profileRound_heapSize runs sampleSize count driver next _goesOn (by omega)]
  omega

private theorem profileWhile_eq (runs : Runs) (sampleSize : Int) (count : Nat) (driver : Driver) :
    profileWhile runs sampleSize count driver =
      if count < driver.heapSize then
        (profileRound runs sampleSize count driver).bind
          (profileWhile runs sampleSize (count + 1))
      else ⟨[], some driver⟩ := by
  rw [profileWhile]
  unfold Logged.bind
  split
  · split
    · rename_i ended
      rw [ended]
    · rename_i next goesOn
      rw [goesOn]
  · rfl

def secondRound (runs : Runs) (outputLength i : Nat) (driver : Driver) :
    Logged DriverEvent Driver :=
  let filled := (List.range i).flatMap (fun j =>
    [DriverEvent.access .page j driver.pageLength, .access .buff j i])
  match runTracee runs driver with
  | none => ⟨filled, none⟩
  | some driver =>
      ⟨filled ++ [.divide 1, .access .output i outputLength, .access .output i outputLength],
        some driver⟩

private theorem secondRound_left (runs : Runs) (outputLength i : Nat) (driver : Driver) :
    (secondRound runs outputLength i driver).left = runTracee runs driver := by
  unfold secondRound
  cases runTracee runs driver <;> rfl

private theorem runTracee_heapSize (runs : Runs) (driver next : Driver)
    (ran : runTracee runs driver = some next) (positive : driver.heapSize ≠ 0) :
    next.heapSize = driver.heapSize := by
  obtain ⟨_ended, _serial, _length, heap⟩ := runTracee_some runs driver next ran
  rw [heap, scanned_kept _ _ positive]

def secondWhile (runs : Runs) (outputLength sent : Nat) (driver : Driver) :
    Logged DriverEvent Driver :=
  if sent < driver.heapSize then
    match _goesOn : (secondRound runs outputLength (sent + 1) driver).left with
    | none => ⟨(secondRound runs outputLength (sent + 1) driver).events, none⟩
    | some next =>
        let rest := secondWhile runs outputLength (sent + 1) next
        ⟨(secondRound runs outputLength (sent + 1) driver).events ++ rest.events, rest.left⟩
  else ⟨[], some driver⟩
termination_by driver.heapSize - sent
decreasing_by
  rw [secondRound_left] at _goesOn
  rw [runTracee_heapSize runs driver next _goesOn (by omega)]
  omega

private theorem secondWhile_eq (runs : Runs) (outputLength sent : Nat) (driver : Driver) :
    secondWhile runs outputLength sent driver =
      if sent < driver.heapSize then
        (secondRound runs outputLength (sent + 1) driver).bind
          (secondWhile runs outputLength (sent + 1))
      else ⟨[], some driver⟩ := by
  rw [secondWhile]
  unfold Logged.bind
  split
  · split
    · rename_i ended
      rw [ended]
    · rename_i next goesOn
      rw [goesOn]
  · rfl

/-- `qsort` and the lines printed of it touch the entries of `page`; `output` is as long
as the heap has pages. -/
def secondMode (runs : Runs) (driver : Driver) : Logged DriverEvent Driver :=
  let sorted := (List.range driver.heapSize).map (fun i =>
    DriverEvent.access .page i driver.pageLength)
  let printed := (List.range driver.heapSize).flatMap (fun i =>
    [DriverEvent.access .page i driver.pageLength, .access .page i driver.pageLength])
  Logged.bind ⟨sorted ++ printed, some driver⟩ (secondWhile runs driver.heapSize 0)

def bothModes (runs : Runs) (sampleSize : Int) : Logged DriverEvent Driver :=
  (profileRound runs sampleSize 0 ⟨0, 0, 0⟩).bind (fun driver =>
    (profileWhile runs sampleSize 1 driver).bind (secondMode runs))

inductive DriverOption where
  | h
  | n (value : Int)
  | s
  | other
  | unknown
  deriving DecidableEq, Repr

structure DriverParams where
  sampleSize : Int
  symbol : Bool
  deriving DecidableEq, Repr

/-- No parameters when `main` returns while it reads them. -/
def parseOptions : DriverParams → List DriverOption → Option DriverParams
  | params, [] => some params
  | _params, .h :: _rest | _params, .unknown :: _rest => none
  | params, .n value :: rest => parseOptions { params with sampleSize := value } rest
  | params, .s :: rest => parseOptions { params with symbol := true } rest
  | params, .other :: rest => parseOptions params rest

/-- A command line and what else decides how far `main` comes. `unset` is what
`sample_size` holds before an option sets it. -/
structure Launch where
  unset : Int
  options : List DriverOption
  command : Bool
  outputOpened : Bool
  symbolResolved : Bool
  realtimeSet : Bool
  runs : Runs

def mainArrays (launch : Launch) : Logged DriverEvent Driver :=
  if launch.outputOpened = false then ⟨[], none⟩
  else
    match parseOptions ⟨launch.unset, false⟩ launch.options with
    | none => ⟨[], none⟩
    | some params =>
        if params.symbol = false then ⟨[], none⟩
        else if launch.command = false then ⟨[], none⟩
        else if launch.symbolResolved = false then ⟨[], none⟩
        else if launch.realtimeSet = false then ⟨[], none⟩
        else bothModes launch.runs params.sampleSize

def heapFound (runs : Runs) : Nat → Nat
  | 0 => 0
  | serial + 1 => scanned (heapFound runs serial) ((runs serial).getD 0)

def Clear (runs : Runs) (serial : Nat) : Prop := ∀ earlier < serial, runs earlier ≠ none

theorem Clear.succ {runs : Runs} {serial : Nat} (clear : Clear runs serial)
    (ended : runs serial ≠ none) : Clear runs (serial + 1) := by
  intro earlier before
  rcases Nat.lt_succ_iff_lt_or_eq.mp before with sooner | same
  · exact clear earlier sooner
  · rw [same]
    exact ended

private theorem sampleRuns_some (runs : Runs) (count : Nat) (driver next : Driver)
    (clear : Clear runs driver.serial) (found : driver.heapSize = heapFound runs driver.serial)
    (ran : sampleRuns runs count driver = some next) :
    next.serial = driver.serial + count ∧ next.pageLength = driver.pageLength ∧
      Clear runs next.serial ∧ next.heapSize = heapFound runs next.serial := by
  induction count generalizing driver with
  | zero =>
      cases ran
      exact ⟨rfl, rfl, clear, found⟩
  | succ count ih =>
      obtain ⟨middle, first, rest⟩ := Option.bind_eq_some_iff.mp ran
      obtain ⟨ended, serial, length, heap⟩ := runTracee_some runs driver middle first
      have middleClear : Clear runs middle.serial := by
        rw [serial]
        exact clear.succ ended
      have middleFound : middle.heapSize = heapFound runs middle.serial := by
        rw [heap, serial, found]
        rfl
      obtain ⟨nextSerial, nextLength, nextClear, nextFound⟩ := ih middle middleClear middleFound rest
      exact ⟨by omega, nextLength.trans length, nextClear, nextFound⟩

private theorem sampleRuns_none (runs : Runs) (count : Nat) (driver : Driver)
    (ran : sampleRuns runs count driver = none) :
    ∃ serial, runs serial = none ∧ serial < driver.serial + count := by
  induction count generalizing driver with
  | zero => cases ran
  | succ count ih =>
      cases first : runTracee runs driver with
      | none =>
          have ended := Option.map_eq_none_iff.mp first
          exact ⟨driver.serial, ended, by omega⟩
      | some middle =>
          obtain ⟨_ended, serial, _length, _heap⟩ := runTracee_some runs driver middle first
          have rest : sampleRuns runs count middle = none := by
            rw [sampleRuns, first] at ran
            exact ran
          obtain ⟨later, ended, below⟩ := ih middle rest
          exact ⟨later, ended, by omega⟩

/-! ### The first mode -/

private theorem profileRound_none (runs : Runs) (sampleSize : Int) (count : Nat) (driver : Driver)
    (ran : sampleRuns runs sampleSize.toNat driver = none) :
    (profileRound runs sampleSize count driver).left = none ∧
      (profileRound runs sampleSize count driver).All DriverEvent.Safe := by
  rw [profileRound, ran]
  refine ⟨rfl, ?_⟩
  intro event member
  rw [List.mem_singleton.mp member]
  exact Nat.one_pos

theorem profileRound_some (runs : Runs) (sampleSize : Int) (positive : 1 ≤ sampleSize)
    (count : Nat) (driver middle : Driver)
    (ran : sampleRuns runs sampleSize.toNat driver = some middle) :
    (profileRound runs sampleSize count driver).left =
        some { middle with
          pageLength := if count = 0 then middle.heapSize else middle.pageLength } ∧
      ((profileRound runs sampleSize count driver).All DriverEvent.Safe ↔
        count < if count = 0 then middle.heapSize else middle.pageLength) := by
  have divides : sampleSize ≠ 0 := by omega
  rw [profileRound, ran]
  dsimp only
  rw [if_neg divides]
  constructor
  · split <;> rfl
  · have length : (if count = 0 then { middle with pageLength := middle.heapSize }
        else middle).pageLength =
          if count = 0 then middle.heapSize else middle.pageLength := by
      split <;> rfl
    simp only [Logged.All, List.mem_cons, List.not_mem_nil, or_false, forall_eq_or_imp, forall_eq,
      DriverEvent.Safe, length]
    constructor
    · intro safe
      exact safe.2.2.1
    · intro inside
      exact ⟨Nat.one_pos, divides, inside, inside, inside, inside⟩

structure FirstMode (runs : Runs) (sampleSize : Int) (count : Nat) (driver : Driver) : Prop where
  sized : driver.pageLength = driver.heapSize
  serial : driver.serial = sampleSize.toNat * count
  clear : Clear runs driver.serial
  found : driver.heapSize = heapFound runs driver.serial

theorem profileWhile_safe (runs : Runs) (sampleSize : Int) (positive : 1 ≤ sampleSize)
    (rest count : Nat) (driver : Driver) (counted : 1 ≤ count)
    (within : driver.heapSize = count + rest) (mode : FirstMode runs sampleSize count driver) :
    (profileWhile runs sampleSize count driver).All DriverEvent.Safe ∧
      (((profileWhile runs sampleSize count driver).left = none ∧
          ∃ serial, runs serial = none ∧ serial < sampleSize.toNat * driver.heapSize) ∨
        ∃ next, (profileWhile runs sampleSize count driver).left = some next ∧
          next.heapSize = driver.heapSize ∧
          FirstMode runs sampleSize driver.heapSize next) := by
  induction rest generalizing count driver with
  | zero =>
      rw [profileWhile_eq, if_neg (by omega)]
      constructor
      · intro event member
        cases member
      · right
        refine ⟨driver, rfl, rfl, ?_⟩
        rw [within]
        exact mode
  | succ rest ih =>
      rw [profileWhile_eq, if_pos (by omega), Logged.all_bind, Logged.bind_left]
      have serial := mode.serial
      cases ran : sampleRuns runs sampleSize.toNat driver with
      | none =>
          obtain ⟨stopped, safe⟩ := profileRound_none runs sampleSize count driver ran
          obtain ⟨last, ended, below⟩ := sampleRuns_none runs _ driver ran
          rw [stopped]
          constructor
          · refine ⟨safe, ?_⟩
            intro next absent
            cases absent
          · left
            refine ⟨rfl, last, ended, ?_⟩
            calc last < sampleSize.toNat * count + sampleSize.toNat := by omega
              _ = sampleSize.toNat * (count + 1) := (Nat.mul_succ _ _).symm
              _ ≤ sampleSize.toNat * driver.heapSize := Nat.mul_le_mul_left _ (by omega)
      | some middle =>
          obtain ⟨goesOn, safe⟩ := profileRound_some runs sampleSize positive count driver middle ran
          obtain ⟨nextSerial, length, clear, found⟩ :=
            sampleRuns_some runs _ driver middle mode.clear mode.found ran
          have sameHeap := sampleRuns_heapSize runs _ driver middle ran (by omega)
          have later : count ≠ 0 := by omega
          rw [if_neg later] at goesOn safe
          have sized := mode.sized
          have nextMode : FirstMode runs sampleSize (count + 1) middle :=
            ⟨by omega, by rw [nextSerial, serial, Nat.mul_succ], clear, found⟩
          obtain ⟨restSafe, outcome⟩ := ih (count + 1) middle (by omega) (by omega) nextMode
          rw [goesOn]
          constructor
          · refine ⟨safe.mpr (by omega), ?_⟩
            intro next same
            cases same
            exact restSafe
          · rw [sameHeap] at outcome
            exact outcome

/-! ### The second mode -/

private theorem secondRound_none (runs : Runs) (outputLength i : Nat) (driver : Driver)
    (fits : i ≤ driver.pageLength) (ran : runTracee runs driver = none) :
    (secondRound runs outputLength i driver).All DriverEvent.Safe := by
  rw [secondRound, ran]
  intro event member
  obtain ⟨j, inside, filled⟩ := List.mem_flatMap.mp member
  have below := List.mem_range.mp inside
  rcases List.mem_cons.mp filled with entry | sent
  · rw [entry]
    exact Nat.lt_of_lt_of_le below fits
  · rw [List.mem_singleton.mp sent]
    exact below

private theorem secondRound_some (runs : Runs) (outputLength i : Nat) (driver next : Driver)
    (fits : i ≤ driver.pageLength) (ran : runTracee runs driver = some next) :
    (secondRound runs outputLength i driver).All DriverEvent.Safe ↔ i < outputLength := by
  rw [secondRound, ran]
  constructor
  · intro safe
    exact safe (.access .output i outputLength)
      (List.mem_append_right _ (List.mem_cons_of_mem _ List.mem_cons_self))
  · intro inside event member
    rcases List.mem_append.mp member with filled | ran
    · obtain ⟨j, member, stored⟩ := List.mem_flatMap.mp filled
      have below := List.mem_range.mp member
      rcases List.mem_cons.mp stored with entry | sent
      · rw [entry]
        exact Nat.lt_of_lt_of_le below fits
      · rw [List.mem_singleton.mp sent]
        exact below
    · simp only [List.mem_cons, List.not_mem_nil, or_false] at ran
      rcases ran with divided | written | printed
      · rw [divided]
        exact Int.one_ne_zero
      · rw [written]
        exact inside
      · rw [printed]
        exact inside

/-- The last round writes behind the end of `output`, unless a run stops `main`. -/
theorem secondWhile_safe_iff (runs : Runs) (rest sent : Nat) (driver : Driver)
    (within : driver.heapSize = sent + rest) (sized : driver.pageLength = driver.heapSize)
    (clear : Clear runs driver.serial) :
    (secondWhile runs driver.heapSize sent driver).All DriverEvent.Safe ↔
      rest = 0 ∨ ∃ serial, runs serial = none ∧ serial < driver.serial + rest := by
  induction rest generalizing sent driver with
  | zero =>
      rw [secondWhile_eq, if_neg (by omega)]
      apply iff_of_true
      · intro event member
        cases member
      · exact Or.inl rfl
  | succ rest ih =>
      rw [secondWhile_eq, if_pos (by omega), Logged.all_bind, secondRound_left]
      cases ran : runTracee runs driver with
      | none =>
          have ended := Option.map_eq_none_iff.mp ran
          apply iff_of_true
          · refine ⟨secondRound_none runs _ (sent + 1) driver (by omega) ran, ?_⟩
            intro next absent
            cases absent
          · exact Or.inr ⟨driver.serial, ended, by omega⟩
      | some next =>
          obtain ⟨ended, serial, length, _heap⟩ := runTracee_some runs driver next ran
          have sameHeap := runTracee_heapSize runs driver next ran (by omega)
          have nextClear : Clear runs next.serial := by
            rw [serial]
            exact clear.succ ended
          have later := ih (sent + 1) next (by omega) (by omega) nextClear
          rw [sameHeap, serial] at later
          rw [secondRound_some runs _ (sent + 1) driver next (by omega) ran]
          constructor
          · intro safe
            right
            rcases (later.mp (safe.2 next rfl)) with last | ⟨stopped, stops, below⟩
            · have inside := safe.1
              omega
            · exact ⟨stopped, stops, by omega⟩
          · intro stops
            rcases stops with none | ⟨stopped, stops, below⟩
            · omega
            · constructor
              · -- with no round left, the run that stops would lie among those before
                by_contra outside
                have early : stopped < driver.serial + 1 := by omega
                exact clear.succ ended stopped early stops
              · intro other same
                cases same
                exact later.mpr (Or.inr ⟨stopped, stops, by omega⟩)

private theorem secondMode_safe_iff (runs : Runs) (driver : Driver) (positive : 1 ≤ driver.heapSize)
    (sized : driver.pageLength = driver.heapSize) (clear : Clear runs driver.serial) :
    (secondMode runs driver).All DriverEvent.Safe ↔
      ∃ serial, runs serial = none ∧ serial < driver.serial + driver.heapSize := by
  have second := secondWhile_safe_iff runs driver.heapSize 0 driver (Nat.zero_add _).symm sized clear
  rw [secondMode, Logged.all_bind]
  constructor
  · intro safe
    exact (second.mp (safe.2 driver rfl)).resolve_left (by omega)
  · intro stops
    constructor
    · intro event member
      rcases List.mem_append.mp member with sorted | printed
      · obtain ⟨i, inside, same⟩ := List.mem_map.mp sorted
        have below := List.mem_range.mp inside
        rw [← same, sized]
        exact below
      · obtain ⟨i, inside, twice⟩ := List.mem_flatMap.mp printed
        have below := List.mem_range.mp inside
        simp only [List.mem_cons, List.not_mem_nil, or_false, or_self] at twice
        rw [twice, sized]
        exact below
    · intro other same
      cases same
      exact second.mpr (Or.inr stops)

/-- A run stops `main` before the last one of the second mode, and the first mode has at
least one run a round. -/
def StopsInTime (runs : Runs) (sampleSize : Int) : Prop :=
  1 ≤ sampleSize ∧ ∃ serial, runs serial = none ∧
    (serial < sampleSize.toNat ∨
      serial < (sampleSize.toNat + 1) * heapFound runs sampleSize.toNat)

/-- Without runs there is no heap when `page` is allocated. -/
theorem bothModes_unsampled (runs : Runs) (sampleSize : Int) (none_ : sampleSize ≤ 0) :
    ¬ (bothModes runs sampleSize).All DriverEvent.Safe := by
  intro safe
  have first := ((Logged.all_bind _ _ _).mp safe).1
  have noRuns : sampleRuns runs sampleSize.toNat ⟨0, 0, 0⟩ = some ⟨0, 0, 0⟩ := by
    rw [Int.toNat_of_nonpos none_]
    rfl
  rw [profileRound, noRuns] at first
  dsimp only at first
  by_cases zero : sampleSize = 0
  · rw [if_pos zero] at first
    exact first (.divide sampleSize) (List.mem_cons_of_mem _ List.mem_cons_self) zero
  · rw [if_neg zero] at first
    exact absurd (first (.access .page 0 0)
      (List.mem_cons_of_mem _ (List.mem_cons_of_mem _ List.mem_cons_self))) (Nat.lt_irrefl 0)

theorem laterRounds_safe_iff (runs : Runs) (sampleSize : Int) (positive : 1 ≤ sampleSize)
    (driver : Driver) (heap : 1 ≤ driver.heapSize) (mode : FirstMode runs sampleSize 1 driver) :
    ((profileWhile runs sampleSize 1 driver).bind (secondMode runs)).All DriverEvent.Safe ↔
      ∃ serial, runs serial = none ∧
        serial < sampleSize.toNat * driver.heapSize + driver.heapSize := by
  obtain ⟨firstSafe, outcome⟩ := profileWhile_safe runs sampleSize positive
    (driver.heapSize - 1) 1 driver (Nat.le_refl 1) (by omega) mode
  rw [Logged.all_bind, and_iff_right firstSafe]
  rcases outcome with stops | goesOn
  · obtain ⟨stopped, last, ended, below⟩ := stops
    apply iff_of_true
    · intro next left
      rw [stopped] at left
      cases left
    · exact ⟨last, ended, by omega⟩
  · obtain ⟨next, left, sameHeap, nextMode⟩ := goesOn
    have second := secondMode_safe_iff runs next (by omega) nextMode.sized nextMode.clear
    rw [nextMode.serial, sameHeap] at second
    rw [← second]
    constructor
    · intro later
      exact later next left
    · intro safe reached atReached
      rw [left] at atReached
      cases atReached
      exact safe

private theorem bothModes_safe_iff (runs : Runs) (sampleSize : Int) :
    (bothModes runs sampleSize).All DriverEvent.Safe ↔ StopsInTime runs sampleSize := by
  by_cases positive : 1 ≤ sampleSize
  · rw [StopsInTime, and_iff_right positive, bothModes, Logged.all_bind]
    cases ran : sampleRuns runs sampleSize.toNat ⟨0, 0, 0⟩ with
    | none =>
        obtain ⟨stopped, safe⟩ := profileRound_none runs sampleSize 0 _ ran
        obtain ⟨last, ended, below⟩ := sampleRuns_none runs _ _ ran
        apply iff_of_true
        · refine ⟨safe, ?_⟩
          intro next goesOn
          rw [stopped] at goesOn
          cases goesOn
        · dsimp only at below
          exact ⟨last, ended, Or.inl (by omega)⟩
    | some middle =>
        obtain ⟨goesOn, safe⟩ := profileRound_some runs sampleSize positive 0 _ middle ran
        obtain ⟨serial, _length, clear, found⟩ :=
          sampleRuns_some runs _ _ middle (fun earlier before => absurd before (Nat.not_lt_zero _))
            rfl ran
        rw [if_pos rfl] at goesOn safe
        dsimp only at serial
        have atSerial : middle.serial = sampleSize.toNat := by omega
        rw [atSerial] at found clear
        rw [safe, goesOn, ← found]
        rcases Nat.eq_zero_or_pos middle.heapSize with empty | heap
        · apply iff_of_false
          · intro both
            omega
          · intro stops
            obtain ⟨last, ended, early | late⟩ := stops
            · exact clear last early ended
            · rw [empty] at late
              omega
        · have mode : FirstMode runs sampleSize 1
              { middle with pageLength := middle.heapSize } :=
            ⟨rfl, by rw [Nat.mul_one]; exact atSerial, by rw [atSerial]; exact clear, by
              rw [atSerial]; exact found⟩
          have later := laterRounds_safe_iff runs sampleSize positive
            { middle with pageLength := middle.heapSize } heap mode
          dsimp only at later
          have total : (sampleSize.toNat + 1) * middle.heapSize =
              sampleSize.toNat * middle.heapSize + middle.heapSize := Nat.succ_mul _ _
          have enough : sampleSize.toNat ≤ sampleSize.toNat * middle.heapSize :=
            Nat.le_mul_of_pos_right _ heap
          rw [and_iff_right heap]
          constructor
          · intro rounds
            obtain ⟨last, ended, below⟩ := later.mp (rounds _ rfl)
            exact ⟨last, ended, Or.inr (by omega)⟩
          · intro stops other same
            cases same
            obtain ⟨last, ended, early | late⟩ := stops
            · exact later.mpr ⟨last, ended, by omega⟩
            · exact later.mpr ⟨last, ended, by omega⟩
  · apply iff_of_false
    · exact bothModes_unsampled runs sampleSize (by omega)
    · intro stops
      exact positive stops.1

structure Launch.Starts (launch : Launch) (params : DriverParams) : Prop where
  opened : launch.outputOpened = true
  parsed : parseOptions ⟨launch.unset, false⟩ launch.options = some params
  symbol : params.symbol = true
  command : launch.command = true
  resolved : launch.symbolResolved = true
  realtime : launch.realtimeSet = true

private theorem mainArrays_starts (launch : Launch) (params : DriverParams)
    (starts : launch.Starts params) :
    mainArrays launch = bothModes launch.runs params.sampleSize := by
  simp only [mainArrays, starts.opened, starts.parsed, starts.symbol, starts.command,
    starts.resolved, starts.realtime, Bool.true_eq_false, if_false]

private theorem mainArrays_stays (launch : Launch) (stays : ∀ params, ¬ launch.Starts params) :
    mainArrays launch = ⟨[], none⟩ := by
  unfold mainArrays
  by_cases opened : launch.outputOpened = false
  · exact if_pos opened
  · rw [if_neg opened]
    cases parsed : parseOptions ⟨launch.unset, false⟩ launch.options with
    | none => rfl
    | some params =>
        dsimp only
        by_cases symbol : params.symbol = false
        · exact if_pos symbol
        · rw [if_neg symbol]
          by_cases command : launch.command = false
          · exact if_pos command
          · rw [if_neg command]
            by_cases resolved : launch.symbolResolved = false
            · exact if_pos resolved
            · rw [if_neg resolved]
              by_cases realtime : launch.realtimeSet = false
              · exact if_pos realtime
              · simp only [Bool.not_eq_false] at opened symbol command resolved realtime
                exact absurd ⟨opened, parsed, symbol, command, resolved, realtime⟩ (stays params)

/-- `main` keeps inside its arrays and divides by no zero exactly if it does not come to
its modes or a run of the tracee stops it in time. -/
theorem mainArrays_safe_iff (launch : Launch) :
    (mainArrays launch).All DriverEvent.Safe ↔
      ∀ params, launch.Starts params → StopsInTime launch.runs params.sampleSize := by
  by_cases starts : ∃ params, launch.Starts params
  · obtain ⟨params, starting⟩ := starts
    rw [mainArrays_starts launch params starting, bothModes_safe_iff]
    constructor
    · intro stops other otherStarting
      have same := starting.parsed.symm.trans otherStarting.parsed
      rw [← Option.some.inj same]
      exact stops
    · intro stops
      exact stops params starting
  · have stays : ∀ params, ¬ launch.Starts params := fun params starting => starts ⟨params, starting⟩
    rw [mainArrays_stays launch stays]
    apply iff_of_true
    · intro event member
      cases member
    · intro params starting
      exact absurd starting (stays params)

def onePageLaunch : Launch :=
  { unset := 0
    options := [.n 1, .s]
    command := true
    outputOpened := true
    symbolResolved := true
    realtimeSet := true
    runs := fun _serial => some 1 }

theorem onePageLaunch_writes_behind_output :
    onePageLaunch.Starts ⟨1, true⟩ ∧ ¬ (mainArrays onePageLaunch).All DriverEvent.Safe := by
  have starts : onePageLaunch.Starts ⟨1, true⟩ := ⟨rfl, rfl, rfl, rfl, rfl, rfl⟩
  refine ⟨starts, ?_⟩
  rw [mainArrays_starts onePageLaunch _ starts, bothModes_safe_iff]
  intro stops
  obtain ⟨_positive, _last, ended, _below⟩ := stops
  cases ended

end BlackboxProfiling.Functime
