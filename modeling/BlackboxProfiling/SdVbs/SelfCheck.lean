import BlackboxProfiling.IntegerText
import BlackboxProfiling.SdVbs.Images

/-!
`writeMatrix.c` and `selfCheck.c`: the file of expected values, how it is written and how
a result is compared with it.
-/

namespace BlackboxProfiling.SdVbs

open TextScan

def writeRow (input : I2D) (i : Nat) : List Char :=
  (List.range input.width).flatMap (fun j => printInt (input.subsref i j) ++ ['\t']) ++ ['\n']

def writeMatrix (input : I2D) : List Char := (List.range input.height).flatMap (writeRow input)

structure Expected where
  input : Input
  count : Nat
  buffer : Nat → Int

/-- The loop up to the end of the file, for as many turns as given. A store behind the
`room` entries of `buffer` is no result. -/
def readExpected (room : Nat) : Nat → Expected → Option Expected
  | 0, _state => none
  | turns + 1, state =>
      if state.input.atEnd then some state
      else
        match fscanInt state.input with
        | (none, input) => readExpected room turns ⟨input, state.count + 1, state.buffer⟩
        | (some value, input) =>
            if state.count < room then
              readExpected room turns
                ⟨input, state.count + 1, Function.update state.buffer state.count value⟩
            else none

/-- `abs`, which has no result for the lowest `int`. -/
def absolute (value : Int) : Option Int := if value = -2 ^ 31 then none else some value.natAbs

def compareFrom (data buffer : Nat → Int) (tol : Int) : Nat → Nat → Option Int
  | 0, _i => some 1
  | left + 1, i => do
      let observed ← absolute (data i)
      let expected ← absolute (buffer i)
      if observed - expected > tol ∨ expected - observed > tol then some (-1)
      else compareFrom data buffer tol left (i + 1)

def selfCheck (turns : Nat) (unset : Nat → Int) (in1 : I2D) (file : Option (List Char)) (tol : Int) :
    Option Int :=
  match file with
  | none => some (-1)
  | some text => do
      let read ← readExpected (in1.height * in1.width) turns ⟨⟨text, false⟩, 0, unset⟩
      let count : Int := read.count - 1
      if count < (in1.height * in1.width : Nat) then some (-1)
      else compareFrom in1.data read.buffer tol (in1.height * in1.width) 0

def entries (input : I2D) (count : Nat) : List Int := (List.range count).map input.data

private theorem writeRow_prints (input : I2D) (rows : Nat) (values : List Int) (text : List Char)
    (later : Prints values text) :
    Prints (((List.range input.width).map (fun j => input.subsref rows j)) ++ values)
      (writeRow input rows ++ text) := by
  have newline := blank_singleton '\n' (by decide)
  have printed := (later.blank_append ['\n'] newline).values_append
    ((List.range input.width).map (fun j => input.subsref rows j))
  rw [List.flatMap_map] at printed
  rw [writeRow, List.append_assoc]
  exact printed

private theorem writeRows_prints (input : I2D) (rows : Nat) (values : List Int) (text : List Char)
    (later : Prints values text) :
    Prints (entries input (rows * input.width) ++ values)
      ((List.range rows).flatMap (writeRow input) ++ text) := by
  induction rows generalizing values text with
  | zero =>
      rw [Nat.zero_mul]
      exact later
  | succ rows ih =>
      have row : entries input ((rows + 1) * input.width) =
          entries input (rows * input.width) ++
            (List.range input.width).map (fun j => input.subsref rows j) := by
        rw [Nat.succ_mul, entries, List.range_add, List.map_append, List.map_map]
        rfl
      rw [row, List.range_succ, List.flatMap_append, List.flatMap_singleton, List.append_assoc,
        List.append_assoc]
      exact ih _ _ (writeRow_prints input rows values text later)

private theorem writeMatrix_prints (input : I2D) :
    Prints (entries input (input.height * input.width)) (writeMatrix input) := by
  have printed := writeRows_prints input input.height [] []
    (Prints.none [] (fun letter none => absurd none List.not_mem_nil))
  rw [List.append_nil, List.append_nil] at printed
  exact printed

def Fits (value : Int) : Prop := -2 ^ 31 < value ∧ value < 2 ^ 31

instance (value : Int) : Decidable (Fits value) := inferInstanceAs (Decidable (_ ∧ _))

theorem readExpected_blank (room turns count : Nat) (buffer : Nat → Int) (text : List Char)
    (blank : ∀ letter ∈ text, isBlank letter = true) :
    readExpected room (turns + 2) ⟨⟨text, false⟩, count, buffer⟩ =
      some ⟨⟨[], true⟩, count + 1, buffer⟩ := by
  rw [readExpected, if_neg Bool.false_ne_true, fscanInt_blank text blank]
  dsimp only
  rw [readExpected, if_pos rfl]

theorem readExpected_value (room turns count : Nat) (buffer : Nat → Int) (gap : List Char)
    (value : Int) (text : List Char) (blank : ∀ letter ∈ gap, isBlank letter = true)
    (fits : Fits value) :
    readExpected room (turns + 1)
        ⟨⟨gap ++ (printInt value ++ '\t' :: text), false⟩, count, buffer⟩ =
      if count < room then
        readExpected room turns
          ⟨⟨'\t' :: text, false⟩, count + 1, Function.update buffer count value⟩
      else none := by
  rw [readExpected, if_neg Bool.false_ne_true,
    fscanInt_prints gap value text blank ⟨Int.le_of_lt fits.1, fits.2⟩]

private theorem readExpected_prints (room : Nat) (values : List Int)
    (fits : ∀ value ∈ values, Fits value)
    (text : List Char) (prints : Prints values text) (turns : Nat) (enough : values.length + 2 ≤ turns)
    (count : Nat) (buffer : Nat → Int) (started : count ≤ room) :
    (count + values.length ≤ room → ∃ after,
      readExpected room turns ⟨⟨text, false⟩, count, buffer⟩ =
        some ⟨⟨[], true⟩, count + values.length + 1, after⟩ ∧
      (∀ k < values.length, values[k]? = some (after (count + k))) ∧
      ∀ k < count, after k = buffer k) ∧
    (room < count + values.length →
      readExpected room turns ⟨⟨text, false⟩, count, buffer⟩ = none) := by
  induction values generalizing text turns count buffer with
  | nil =>
      rw [List.length_nil] at enough
      obtain ⟨more, rfl⟩ : ∃ more, turns = more + 2 := ⟨turns - 2, by omega⟩
      cases prints with
      | none _gap blank =>
          constructor
          · intro _room
            refine ⟨buffer, ?_, fun k none => absurd none (Nat.not_lt_zero k), fun k _before => rfl⟩
            exact readExpected_blank room more count buffer text blank
          · intro overrun
            exact absurd started (Nat.not_le.mpr overrun)
  | cons value values ih =>
      obtain ⟨turns, rfl⟩ : ∃ more, turns = more + 1 := ⟨turns - 1, by omega⟩
      obtain ⟨here, later⟩ := List.forall_mem_cons.mp fits
      rw [List.length_cons] at enough
      cases prints with
      | more gap _value _values rest blank printed =>
          have tab := blank_singleton '\t' (by decide)
          rw [readExpected_value room turns count buffer gap value rest blank here]
          by_cases within : count < room
          · obtain ⟨reads, overruns⟩ := ih later ('\t' :: rest) (printed.blank_append ['\t'] tab) turns
              (by omega) (count + 1) (Function.update buffer count value) within
            rw [if_pos within]
            have length : count + 1 + values.length = count + (value :: values).length := by
              rw [List.length_cons]
              omega
            rw [length] at reads overruns
            refine ⟨?_, overruns⟩
            intro enoughRoom
            obtain ⟨after, ran, stored, kept⟩ := reads enoughRoom
            refine ⟨after, ran, ?_, ?_⟩
            · intro k inside
              cases k with
              | zero =>
                  rw [List.getElem?_cons_zero, Nat.add_zero, kept count (Nat.lt_succ_self count),
                    Function.update_self]
              | succ k =>
                  rw [List.getElem?_cons_succ, stored k (Nat.lt_of_succ_lt_succ inside), Nat.add_right_comm,
                    Nat.add_assoc]
            · intro k before
              rw [kept k (Nat.lt_succ_of_lt before), Function.update_of_ne (Nat.ne_of_lt before)]
          · rw [if_neg within]
            refine ⟨?_, fun _overrun => rfl⟩
            intro enoughRoom
            rw [List.length_cons] at enoughRoom
            omega

/-- What passes the comparison: signs do not matter. -/
def Close (tol one other : Int) : Prop := ((one.natAbs : Int) - other.natAbs).natAbs ≤ tol

instance (tol one other : Int) : Decidable (Close tol one other) :=
  inferInstanceAs (Decidable (_ ≤ _))

private theorem absolute_fits (value : Int) (fits : Fits value) : absolute value = some
    (value.natAbs : Int) := by
  rw [absolute, if_neg]
  have low := fits.1
  omega

private theorem compareFrom_close (data buffer : Nat → Int) (tol : Int) (left i : Nat)
    (dataFits : ∀ k < i + left, Fits (data k)) (bufferFits : ∀ k < i + left, Fits (buffer k)) :
    compareFrom data buffer tol left i =
      if ∀ k < left, Close tol (data (i + k)) (buffer (i + k)) then some 1 else some (-1) := by
  induction left generalizing i with
  | zero => exact (if_pos (fun k none => absurd none (Nat.not_lt_zero k))).symm
  | succ left ih =>
      have later := ih (i + 1) (fun k inside => dataFits k (by omega))
        (fun k inside => bufferFits k (by omega))
      rw [compareFrom, absolute_fits _ (dataFits i (by omega)), absolute_fits _ (bufferFits i (by omega))]
      dsimp only [Option.bind_eq_bind, Option.bind_some]
      have all : (∀ k < left + 1, Close tol (data (i + k)) (buffer (i + k))) ↔
          Close tol (data i) (buffer i) ∧ ∀ k < left, Close tol (data (i + 1 + k)) (buffer (i + 1 + k)) := by
        rw [Nat.forall_lt_succ_left]
        simp only [Nat.add_zero, Nat.add_assoc, Nat.add_comm 1]
      have apart : ((data i).natAbs : Int) - (buffer i).natAbs > tol ∨
          ((buffer i).natAbs : Int) - (data i).natAbs > tol ↔ ¬ Close tol (data i) (buffer i) := by
        rw [Close]
        omega
      by_cases close : Close tol (data i) (buffer i)
      · rw [if_neg (fun far => apart.mp far close), later]
        simp only [all, close, true_and]
      · rw [if_pos (apart.mpr close), if_neg (fun whole => close (all.mp whole).1)]

theorem readExpected_writeMatrix (expected : I2D) (room turns : Nat) (unset : Nat → Int)
    (enough : expected.height * expected.width + 2 ≤ turns)
    (fits : ∀ k < expected.height * expected.width, Fits (expected.data k)) :
    (expected.height * expected.width ≤ room → ∃ after,
      readExpected room turns ⟨⟨writeMatrix expected, false⟩, 0, unset⟩ =
        some ⟨⟨[], true⟩, expected.height * expected.width + 1, after⟩ ∧
      ∀ k < expected.height * expected.width, after k = expected.data k) ∧
    (room < expected.height * expected.width →
      readExpected room turns ⟨⟨writeMatrix expected, false⟩, 0, unset⟩ = none) := by
  have length : (entries expected (expected.height * expected.width)).length =
      expected.height * expected.width := by
    rw [entries, List.length_map, List.length_range]
  have allFit : ∀ value ∈ entries expected (expected.height * expected.width), Fits value := by
    intro value member
    obtain ⟨k, listed, isValue⟩ := List.mem_map.mp member
    rw [← isValue]
    exact fits k (List.mem_range.mp listed)
  obtain ⟨reads, overruns⟩ := readExpected_prints room _ allFit _ (writeMatrix_prints expected)
    turns (by rw [length]; exact enough) 0 unset (Nat.zero_le _)
  rw [length, Nat.zero_add] at reads overruns
  refine ⟨?_, overruns⟩
  intro within
  obtain ⟨after, ran, stored, _kept⟩ := reads within
  refine ⟨after, ran, ?_⟩
  intro k inside
  have here := stored k inside
  rw [Nat.zero_add, entries, List.getElem?_map, List.getElem?_range inside] at here
  exact (Option.some.inj here).symm

/-- A result is checked against the file of another matrix: entries behind those of the
result overrun the buffer, missing ones are an error, and otherwise the check succeeds
exactly if all absolute values are within the tolerance. -/
theorem selfCheck_writeMatrix (expected observed : I2D) (tol : Int) (unset : Nat → Int) (turns : Nat)
    (enough : expected.height * expected.width + 2 ≤ turns)
    (expectedFits : ∀ k < expected.height * expected.width, Fits (expected.data k))
    (observedFits : ∀ k < observed.height * observed.width, Fits (observed.data k)) :
    selfCheck turns unset observed (some (writeMatrix expected)) tol =
      if observed.height * observed.width < expected.height * expected.width then none
      else if expected.height * expected.width < observed.height * observed.width then some (-1)
      else if ∀ k < observed.height * observed.width, Close tol (observed.data k) (expected.data k) then
        some 1
      else some (-1) := by
  obtain ⟨reads, overruns⟩ := readExpected_writeMatrix expected (observed.height * observed.width)
    turns unset enough expectedFits
  rw [selfCheck]
  dsimp only
  by_cases beyond : observed.height * observed.width < expected.height * expected.width
  · rw [if_pos beyond, overruns beyond]
    rfl
  · obtain ⟨after, ran, buffer⟩ := reads (Nat.not_lt.mp beyond)
    rw [if_neg beyond, ran]
    dsimp only [Option.bind_eq_bind, Option.bind_some]
    have count : ((expected.height * expected.width + 1 : Nat) : Int) - 1 =
        (expected.height * expected.width : Nat) := by omega
    rw [count]
    by_cases missing : expected.height * expected.width < observed.height * observed.width
    · rw [if_pos (Int.ofNat_lt.mpr missing), if_pos missing]
    · have same : observed.height * observed.width = expected.height * expected.width := by omega
      rw [if_neg (mt Int.ofNat_lt.mp missing), if_neg missing, same]
      rw [same] at observedFits
      rw [compareFrom_close observed.data after tol _ 0
        (fun k inside => observedFits k (by rwa [Nat.zero_add] at inside))
        (fun k inside => by
          rw [Nat.zero_add] at inside
          rw [buffer k inside]
          exact expectedFits k inside)]
      have close : (∀ k < expected.height * expected.width, Close tol (observed.data (0 + k)) (after (0 + k))) ↔
          ∀ k < expected.height * expected.width, Close tol (observed.data k) (expected.data k) := by
        refine forall₂_congr (fun k inside => ?_)
        rw [Nat.zero_add, buffer k inside]
      simp only [close]

def written : I2D := ⟨2, 1, fun k => [3, -4].getD k 0⟩

def opposite : I2D := ⟨1, 2, fun k => [-3, 5].getD k 0⟩

/-- Another shape, other signs and a difference of one. -/
theorem selfCheck_writeMatrix_sample :
    selfCheck 4 (fun _k => 0) opposite (some (writeMatrix written)) 1 = some 1 := by
  rw [selfCheck_writeMatrix written opposite 1 (fun _k => 0) 4 (by decide) (by decide) (by decide)]
  decide

end BlackboxProfiling.SdVbs
