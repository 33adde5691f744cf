import Mathlib.Data.List.Basic

/-!
Tables of strings that each end at a terminator, read by offset. Two strings may
share a tail, so an offset may point into the middle of another string.
-/

namespace NulTable

variable {α : Type} [DecidableEq α]

def stringAt (terminator : α) (table : List α) (offset : Nat) : Option (List α) :=
  let rest := table.drop offset
  if terminator ∈ rest then some (rest.takeWhile (fun letter => letter ≠ terminator)) else none

private theorem takeWhile_terminated (terminator : α) (text more : List α) (clean : terminator ∉ text) :
    (text ++ terminator :: more).takeWhile (fun letter => letter ≠ terminator) = text := by
  have letters : ∀ letter ∈ text, decide (letter ≠ terminator) = true := by
    intro letter member
    apply decide_eq_true
    intro same
    rw [same] at member
    exact clean member
  rw [List.takeWhile_append_of_pos letters, List.takeWhile_cons_of_neg (by simp), List.append_nil]

theorem stringAt_eq_some (terminator : α) (table : List α) (offset : Nat) (text : List α) :
    stringAt terminator table offset = some text ↔
      terminator ∉ text ∧ ∃ more, table.drop offset = text ++ terminator :: more := by
  constructor
  · intro found
    simp only [stringAt] at found
    split at found
    · rename_i present
      obtain ⟨front, more, split, clean⟩ := List.eq_append_cons_of_mem present
      rw [split, takeWhile_terminated terminator front more clean] at found
      cases found
      exact ⟨clean, more, split⟩
    · cases found
  · rintro ⟨clean, more, split⟩
    simp only [stringAt, split]
    rw [if_pos (List.mem_append_right text List.mem_cons_self),
      takeWhile_terminated terminator text more clean]

theorem stringAt_append (terminator : α) (table more : List α) (offset : Nat) (text : List α)
    (found : stringAt terminator table offset = some text) :
    stringAt terminator (table ++ more) offset = some text := by
  obtain ⟨clean, rest, split⟩ := (stringAt_eq_some terminator table offset text).mp found
  have inside : offset ≤ table.length := by
    rcases Nat.le_total offset table.length with before | after
    · exact before
    · rw [List.drop_eq_nil_of_le after] at split
      exact absurd split.symm (List.append_ne_nil_of_right_ne_nil text (List.cons_ne_nil _ _))
  apply (stringAt_eq_some terminator (table ++ more) offset text).mpr
  refine ⟨clean, rest ++ more, ?_⟩
  rw [List.drop_append_of_le_length inside, split, List.append_assoc, List.cons_append]

theorem stringAt_end (terminator : α) (table text more : List α) (clean : terminator ∉ text) :
    stringAt terminator (table ++ (text ++ terminator :: more)) table.length = some text := by
  apply (stringAt_eq_some _ _ _ _).mpr
  exact ⟨clean, more, List.drop_left⟩

/-- A name put behind a table is read at its own offset, and elsewhere only where the
table already had it. -/
theorem stringAt_append_iff (terminator : α) (table text : List α) (offset : Nat)
    (clean : terminator ∉ text) :
    stringAt terminator (table ++ (text ++ [terminator])) offset = some text ↔
      stringAt terminator table offset = some text ∨ offset = table.length := by
  constructor
  · intro found
    rcases Nat.lt_trichotomy offset table.length with before | behind | beyond
    · left
      by_cases ended : terminator ∈ table.drop offset
      · have old : stringAt terminator table offset =
            some ((table.drop offset).takeWhile (fun letter => letter ≠ terminator)) := by
          simp only [stringAt, if_pos ended]
        rw [stringAt_append terminator table _ offset _ old] at found
        rw [old, found]
      · -- an unended rest of the table would be read together with the name
        have joined : stringAt terminator (table ++ (text ++ [terminator])) offset =
            some (table.drop offset ++ text) := by
          apply (stringAt_eq_some _ _ _ _).mpr
          refine ⟨fun member => (List.mem_append.mp member).elim ended clean, [], ?_⟩
          rw [List.drop_append_of_le_length (Nat.le_of_lt before), List.append_assoc]
        rw [joined] at found
        have lengths := congrArg List.length (Option.some.inj found)
        rw [List.length_append, List.length_drop] at lengths
        omega
    · exact Or.inr behind
    · obtain ⟨_clean, more, split⟩ := (stringAt_eq_some _ _ _ _).mp found
      have lengths := congrArg List.length split
      simp only [List.length_drop, List.length_append, List.length_cons, List.length_nil] at lengths
      omega
  · rintro (old | rfl)
    · exact stringAt_append terminator table _ offset text old
    · exact stringAt_end terminator table text [] clean

theorem stringAt_isSome (terminator : α) (table : List α) (offset : Nat)
    (ended : table.getLast? = some terminator) (inside : offset < table.length) :
    (stringAt terminator table offset).isSome = true := by
  have last : (table.drop offset).getLast? = some terminator := by
    rw [List.getLast?_drop, if_neg (by omega), ended]
  simp only [stringAt, if_pos (List.mem_of_getLast? last), Option.isSome_some]

end NulTable
