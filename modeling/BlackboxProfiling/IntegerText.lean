import BlackboxProfiling.TextScan
import Mathlib.Algebra.Group.Int.Defs
import Mathlib.Data.List.Basic

/-!
Whole numbers in text files: `printf` and `fscanf` with `%d`, and texts that hold a list
of numbers between blanks. `int` and `long` have 32 bits.
-/

namespace TextScan

def printInt (value : Int) : List Char :=
  if value < 0 then '-' :: Nat.toDigits 10 value.natAbs else Nat.toDigits 10 value.natAbs

structure Input where
  text : List Char
  atEnd : Bool

/-- What does not fit becomes the nearest number that does. -/
def intValue (value : Nat) (negative : Bool) : Int :=
  if negative then max (-(value : Int)) (-2 ^ 31) else min (value : Int) (2 ^ 31 - 1)

/-- `fscanf` with `%d`. The character behind a number is looked at and stays. -/
def fscanInt (input : Input) : Option Int × Input :=
  let signed := cutSign (input.text.dropWhile isBlank)
  let digits := signed.2.takeWhile (isDigitIn 10)
  let rest := signed.2.dropWhile (isDigitIn 10)
  (if digits = [] then none else some (intValue (valueOf 10 digits) signed.1),
    ⟨rest, decide (rest = [])⟩)

theorem fscanInt_blank (text : List Char) (blank : ∀ letter ∈ text, isBlank letter = true) :
    fscanInt ⟨text, false⟩ = (none, ⟨[], true⟩) := by
  have nothing : text.dropWhile isBlank = [] := List.dropWhile_eq_nil_iff.mpr blank
  rw [fscanInt]
  dsimp only
  rw [nothing]
  rfl

theorem printInt_scanned (value : Int) (rest : List Char) :
    StopsAt isBlank (printInt value ++ rest) ∧
      cutSign (printInt value ++ rest) =
        (decide (value < 0), Nat.toDigits 10 value.natAbs ++ rest) := by
  have digit := toDigits_isDigitIn 10 value.natAbs (by decide) (by decide)
  have nonempty : Nat.toDigits 10 value.natAbs ≠ [] := Nat.toDigits_ne_nil
  rw [printInt]
  by_cases negative : value < 0
  · rw [if_pos negative, List.cons_append]
    refine ⟨stopsAt_cons isBlank '-' _ (by decide), ?_⟩
    rw [cutSign, decide_eq_true negative]
  · rw [if_neg negative, decide_eq_false negative]
    refine ⟨stopsAt_append isBlank _ rest nonempty
      (fun letter member => isDigitIn_not_blank 10 letter (by decide) (digit letter member)), ?_⟩
    cases digits : Nat.toDigits 10 value.natAbs with
    | nil => exact absurd digits nonempty
    | cons first later =>
        rw [digits] at digit
        exact cutSign_digit 10 first (later ++ rest) (by decide) (digit first List.mem_cons_self)

/-- A printed number is read back, and what follows it is left. -/
theorem fscanInt_printInt (gap : List Char) (value : Int) (rest : List Char)
    (blank : ∀ letter ∈ gap, isBlank letter = true) (fits : -2 ^ 31 ≤ value ∧ value < 2 ^ 31)
    (nonempty : rest ≠ []) (stops : StopsAt (isDigitIn 10) rest) :
    fscanInt ⟨gap ++ (printInt value ++ rest), false⟩ = (some value, ⟨rest, false⟩) := by
  obtain ⟨notBlank, sign⟩ := printInt_scanned value rest
  have digit := toDigits_isDigitIn 10 value.natAbs (by decide) (by decide)
  have whole : intValue value.natAbs (decide (value < 0)) = value := by
    rw [intValue]
    split
    · rename_i negative
      have below := of_decide_eq_true negative
      omega
    · rename_i notNegative
      have notBelow := of_decide_eq_false (Bool.eq_false_iff.mpr notNegative)
      omega
  rw [fscanInt]
  dsimp only
  rw [dropWhile_stopsAt isBlank gap _ blank notBlank, sign]
  dsimp only
  rw [takeWhile_stopsAt _ _ rest digit stops, dropWhile_stopsAt _ _ rest digit stops,
    if_neg Nat.toDigits_ne_nil, valueOf_toDigits 10 value.natAbs (by decide) (by decide), whole,
    decide_eq_false nonempty]

/-- A text with exactly these numbers, a tabulator behind each and blanks anywhere else. -/
inductive Prints : List Int → List Char → Prop where
  | none (gap : List Char) (blank : ∀ letter ∈ gap, isBlank letter = true) : Prints [] gap
  | more (gap : List Char) (value : Int) (values : List Int) (text : List Char)
      (blank : ∀ letter ∈ gap, isBlank letter = true) (later : Prints values text) :
      Prints (value :: values) (gap ++ (printInt value ++ '\t' :: text))

theorem blank_singleton (letter : Char) (blank : isBlank letter = true) :
    ∀ other ∈ [letter], isBlank other = true := by
  intro other member
  rw [List.mem_singleton.mp member]
  exact blank

theorem Prints.blank_append {values : List Int} {text : List Char} (prints : Prints values text)
    (gap : List Char) (blank : ∀ letter ∈ gap, isBlank letter = true) :
    Prints values (gap ++ text) := by
  have both (other : List Char) (otherBlank : ∀ letter ∈ other, isBlank letter = true)
      (letter : Char) (member : letter ∈ gap ++ other) : isBlank letter = true := by
    rcases List.mem_append.mp member with first | second
    · exact blank letter first
    · exact otherBlank letter second
  cases prints with
  | none _other otherBlank => exact Prints.none _ (both _ otherBlank)
  | more other value values rest otherBlank later =>
      rw [← List.append_assoc]
      exact Prints.more _ value values rest (both other otherBlank) later

theorem Prints.values_append {values : List Int} {text : List Char} (prints : Prints values text)
    (first : List Int) :
    Prints (first ++ values) (first.flatMap (fun value => printInt value ++ ['\t']) ++ text) := by
  induction first with
  | nil => exact prints
  | cons value first ih =>
      have here := Prints.more [] value (first ++ values) _
        (fun letter none => absurd none List.not_mem_nil) ih
      rw [List.flatMap_cons, List.append_assoc, List.append_assoc, List.singleton_append]
      exact here

theorem fscanInt_prints (gap : List Char) (value : Int) (text : List Char)
    (blank : ∀ letter ∈ gap, isBlank letter = true) (fits : -2 ^ 31 ≤ value ∧ value < 2 ^ 31) :
    fscanInt ⟨gap ++ (printInt value ++ '\t' :: text), false⟩ = (some value, ⟨'\t' :: text, false⟩) :=
  fscanInt_printInt gap value ('\t' :: text) blank fits (List.cons_ne_nil _ _)
    (stopsAt_cons _ '\t' text (by decide))

end TextScan
