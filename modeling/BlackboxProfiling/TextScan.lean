import Mathlib.Data.List.DropRight

/-!
Text as the C library reads it. `fgets` delivers lines in pieces of a bounded length.
`sscanf` goes through the items of a format and stops at the first one that is not there;
what has been assigned by then stays assigned. A character stands for a byte, and the
blanks are those of the C locale.
-/

namespace TextScan

def isBlank (letter : Char) : Bool :=
  letter = ' ' || (decide (9 ≤ letter.toNat) && decide (letter.toNat ≤ 13))

/-- The value of a digit in any base up to sixteen; sixteen for other characters. -/
def digitOf (letter : Char) : Nat :=
  if 48 ≤ letter.toNat ∧ letter.toNat ≤ 57 then letter.toNat - 48
  else if 97 ≤ letter.toNat ∧ letter.toNat ≤ 102 then letter.toNat - 87
  else if 65 ≤ letter.toNat ∧ letter.toNat ≤ 70 then letter.toNat - 55
  else 16

def isDigitIn (base : Nat) (letter : Char) : Bool := decide (digitOf letter < base)

def valueOf (base : Nat) (digits : List Char) : Nat :=
  digits.foldl (fun value letter => value * base + digitOf letter) 0

inductive Item where
  | blanks
  | literal (letter : Char)
  | number (base : Nat)
  | word (width : Option Nat)
  deriving DecidableEq, Repr

inductive Assigned where
  | number (value : Nat)
  | word (letters : List Char)
  deriving DecidableEq, Repr

def cutSign : List Char → Bool × List Char
  | '-' :: rest => (true, rest)
  | '+' :: rest => (false, rest)
  | text => (false, text)

def cutPrefix (base : Nat) (text : List Char) : List Char :=
  if base = 16 then
    match text with
    | '0' :: 'x' :: rest => rest
    | '0' :: 'X' :: rest => rest
    | _plain => text
  else text

/-- `strtoul` in an unsigned type with `bound` values: what does not fit becomes the
largest one, whatever the sign. -/
def unsignedValue (bound value : Nat) (negative : Bool) : Nat :=
  if bound ≤ value then bound - 1
  else if negative then (bound - value) % bound
  else value

def scanNumber (bound base : Nat) (text : List Char) : Option (Nat × List Char) :=
  let signed := cutSign (text.dropWhile isBlank)
  let body := cutPrefix base signed.2
  let digits := body.takeWhile (isDigitIn base)
  if digits = [] then none
  else some (unsignedValue bound (valueOf base digits) signed.1, body.dropWhile (isDigitIn base))

def firstWord (text : List Char) : List Char :=
  (text.dropWhile isBlank).takeWhile (fun letter => !isBlank letter)

def scanWord (width : Option Nat) (text : List Char) : Option (List Char × List Char) :=
  let word := match width with
    | none => firstWord text
    | some most => (firstWord text).take most
  if word = [] then none else some (word, (text.dropWhile isBlank).drop word.length)

/-- The assignments made; their number is what `sscanf` returns, up to the end of the
text. -/
def scan (bound : Nat) : List Item → List Char → List Assigned
  | [], _text => []
  | .blanks :: items, text => scan bound items (text.dropWhile isBlank)
  | .literal letter :: items, text =>
      match text with
      | [] => []
      | head :: rest => if head = letter then scan bound items rest else []
  | .number base :: items, text =>
      match scanNumber bound base text with
      | none => []
      | some (value, rest) => .number value :: scan bound items rest
  | .word width :: items, text =>
      match scanWord width text with
      | none => []
      | some (letters, rest) => .word letters :: scan bound items rest

def padded (width base value : Nat) : List Char :=
  List.replicate (width - (Nat.toDigits base value).length) '0' ++ Nat.toDigits base value

theorem digitOf_digitChar (digit : Nat) (small : digit < 16) :
    digitOf (Nat.digitChar digit) = digit := by
  have all : ∀ digit, digit < 16 → digitOf (Nat.digitChar digit) = digit := by decide
  exact all digit small

theorem toDigits_isDigitIn (base value : Nat) (large : 1 < base) (small : base ≤ 16)
    (letter : Char) (member : letter ∈ Nat.toDigits base value) :
    isDigitIn base letter = true := by
  induction value using Nat.strongRecOn with
  | ind value ih =>
      rw [Nat.toDigits_eq_if large] at member
      split at member
      · rename_i single
        rw [List.mem_singleton.mp member, isDigitIn, digitOf_digitChar value (by omega)]
        exact decide_eq_true single
      · rename_i several
        rcases List.mem_append.mp member with earlier | last
        · exact ih (value / base) (Nat.div_lt_self (by omega) large) earlier
        · have below := Nat.mod_lt value (Nat.lt_trans Nat.zero_lt_one large)
          rw [List.mem_singleton.mp last, isDigitIn, digitOf_digitChar _ (by omega)]
          exact decide_eq_true below

theorem valueOf_toDigits (base value : Nat) (large : 1 < base) (small : base ≤ 16) :
    valueOf base (Nat.toDigits base value) = value := by
  induction value using Nat.strongRecOn with
  | ind value ih =>
      rw [Nat.toDigits_eq_if large]
      split
      · rename_i single
        simp only [valueOf, List.foldl_cons, List.foldl_nil, Nat.zero_mul, Nat.zero_add]
        exact digitOf_digitChar value (by omega)
      · rename_i several
        have shorter := ih (value / base) (Nat.div_lt_self (by omega) large)
        have below := Nat.mod_lt value (Nat.lt_trans Nat.zero_lt_one large)
        rw [valueOf] at shorter
        rw [valueOf, List.foldl_append, shorter, List.foldl_cons, List.foldl_nil,
          digitOf_digitChar _ (by omega), Nat.mul_comm]
        exact Nat.div_add_mod value base

theorem padded_isDigitIn (width base value : Nat) (large : 1 < base) (small : base ≤ 16)
    (letter : Char) (member : letter ∈ padded width base value) :
    isDigitIn base letter = true := by
  rcases List.mem_append.mp member with zero | digit
  · rw [List.eq_of_mem_replicate zero]
    exact decide_eq_true (Nat.lt_trans Nat.zero_lt_one large)
  · exact toDigits_isDigitIn base value large small letter digit

theorem valueOf_padded (width base value : Nat) (large : 1 < base) (small : base ≤ 16) :
    valueOf base (padded width base value) = value := by
  have zeros (count : Nat) :
      (List.replicate count '0').foldl (fun value letter => value * base + digitOf letter) 0 =
        0 := by
    induction count with
    | zero => rfl
    | succ count ih =>
        have zero : digitOf '0' = 0 := by decide
        rw [List.replicate_succ, List.foldl_cons, zero, Nat.zero_mul]
        exact ih
  rw [valueOf, padded, List.foldl_append, zeros]
  exact valueOf_toDigits base value large small

theorem padded_ne_nil (width base value : Nat) : padded width base value ≠ [] := by
  intro empty
  exact Nat.toDigits_ne_nil (List.append_eq_nil_iff.mp empty).2

theorem padded_length (width base value : Nat) :
    (padded width base value).length = max width (Nat.toDigits base value).length := by
  rw [padded, List.length_append, List.length_replicate]
  omega

theorem isDigitIn_range (base : Nat) (letter : Char) (small : base ≤ 16)
    (digit : isDigitIn base letter = true) :
    48 ≤ letter.toNat ∧ (letter.toNat ≤ 70 ∨ (97 ≤ letter.toNat ∧ letter.toNat ≤ 102)) := by
  have value := of_decide_eq_true digit
  unfold digitOf at value
  split at value
  · omega
  · split at value
    · omega
    · split at value
      · omega
      · omega

theorem isDigitIn_not_blank (base : Nat) (letter : Char) (small : base ≤ 16)
    (digit : isDigitIn base letter = true) : isBlank letter = false := by
  have range := isDigitIn_range base letter small digit
  have space : letter ≠ ' ' := by
    intro same
    subst same
    exact absurd range.1 (by decide)
  have above : ¬ letter.toNat ≤ 13 := by omega
  simp only [isBlank, space, above, decide_false, Bool.and_false, Bool.or_false]

theorem isDigitIn_other (base : Nat) (letter : Char) (small : base ≤ 16)
    (digit : isDigitIn base letter = true) :
    letter ≠ '-' ∧ letter ≠ '+' ∧ letter ≠ 'x' ∧ letter ≠ 'X' := by
  have range := isDigitIn_range base letter small digit
  refine ⟨?_, ?_, ?_, ?_⟩
  all_goals
    intro same
    subst same
    exact absurd range (by decide)

def StopsAt (kind : Char → Bool) (text : List Char) : Prop :=
  ∀ letter, text.head? = some letter → kind letter = false

theorem takeWhile_stopsAt (kind : Char → Bool) (body rest : List Char)
    (inside : ∀ letter, letter ∈ body → kind letter = true) (stops : StopsAt kind rest) :
    (body ++ rest).takeWhile kind = body := by
  have nothing : rest.takeWhile kind = [] := by
    cases rest with
    | nil => rfl
    | cons letter rest =>
        rw [List.takeWhile_cons, stops letter rfl]
        rfl
  rw [List.takeWhile_append_of_pos inside, nothing, List.append_nil]

theorem dropWhile_stopsAt (kind : Char → Bool) (body rest : List Char)
    (inside : ∀ letter, letter ∈ body → kind letter = true) (stops : StopsAt kind rest) :
    (body ++ rest).dropWhile kind = rest := by
  rw [List.dropWhile_append_of_pos inside]
  cases rest with
  | nil => rfl
  | cons letter rest =>
      rw [List.dropWhile_cons, stops letter rfl]
      rfl

theorem dropBlanks_stopsAt (text : List Char) (stops : StopsAt isBlank text) :
    text.dropWhile isBlank = text := by
  have nothing := dropWhile_stopsAt isBlank [] text (by
    intro letter absent
    cases absent) stops
  rwa [List.nil_append] at nothing

theorem stopsAt_cons (kind : Char → Bool) (letter : Char) (rest : List Char)
    (outside : kind letter = false) : StopsAt kind (letter :: rest) := by
  intro head here
  cases here
  exact outside

theorem stopsAt_append (kind : Char → Bool) (body rest : List Char) (nonempty : body ≠ [])
    (outside : ∀ letter, letter ∈ body → kind letter = false) : StopsAt kind (body ++ rest) := by
  cases body with
  | nil => exact absurd rfl nonempty
  | cons first body =>
      exact stopsAt_cons kind first (body ++ rest) (outside first List.mem_cons_self)

theorem scan_blank (bound : Nat) (items : List Item) (text : List Char)
    (stops : StopsAt isBlank text) :
    scan bound (.blanks :: items) (' ' :: text) = scan bound items text := by
  have skipped : (' ' :: text).dropWhile isBlank = text := by
    rw [List.dropWhile_cons, if_pos (by decide)]
    exact dropBlanks_stopsAt text stops
  rw [scan, skipped]

theorem scan_literal (bound : Nat) (items : List Item) (letter : Char) (text : List Char) :
    scan bound (.literal letter :: items) (letter :: text) = scan bound items text := by
  rw [scan, if_pos rfl]

theorem cutSign_digit (base : Nat) (letter : Char) (text : List Char) (small : base ≤ 16)
    (digit : isDigitIn base letter = true) : cutSign (letter :: text) = (false, letter :: text) := by
  obtain ⟨notMinus, notPlus, _rest⟩ := isDigitIn_other base letter small digit
  unfold cutSign
  split
  · rename_i same
    cases same
    exact absurd rfl notMinus
  · rename_i same
    cases same
    exact absurd rfl notPlus
  · rfl

def goesOn (base : Nat) (letter : Char) : Bool :=
  isDigitIn base letter || letter = 'x' || letter = 'X'

private theorem cutPrefix_plain (base : Nat) (text : List Char)
    (plain : ∀ first second rest, text = first :: second :: rest → second ≠ 'x' ∧ second ≠ 'X') :
    cutPrefix base text = text := by
  unfold cutPrefix
  split
  · split
    · rename_i rest
      exact absurd rfl (plain '0' 'x' rest rfl).1
    · rename_i rest
      exact absurd rfl (plain '0' 'X' rest rfl).2
    · rfl
  · rfl

private theorem cutPrefix_digits (base : Nat) (digits rest : List Char) (small : base ≤ 16)
    (nonempty : digits ≠ []) (inside : ∀ letter, letter ∈ digits → isDigitIn base letter = true)
    (stops : StopsAt (goesOn base) rest) :
    cutPrefix base (digits ++ rest) = digits ++ rest := by
  apply cutPrefix_plain
  intro first second tail same
  cases digits with
  | nil => exact absurd rfl nonempty
  | cons digit digits =>
      cases digits with
      | nil =>
          have next : rest = second :: tail := (List.cons.inj same).2
          have stopped := stops second (by rw [next]; rfl)
          simp only [goesOn, Bool.or_eq_false_iff, decide_eq_false_iff_not] at stopped
          exact ⟨stopped.1.2, stopped.2⟩
      | cons another digits =>
          have next : another = second := (List.cons.inj (List.cons.inj same).2).1
          have digit := inside another (List.mem_cons_of_mem _ List.mem_cons_self)
          rw [next] at digit
          exact (isDigitIn_other base second small digit).2.2

theorem scan_number (bound base : Nat) (items : List Item) (digits rest : List Char)
    (small : base ≤ 16) (nonempty : digits ≠ [])
    (inside : ∀ letter, letter ∈ digits → isDigitIn base letter = true)
    (stops : StopsAt (goesOn base) rest) :
    scan bound (.number base :: items) (digits ++ rest) =
      .number (unsignedValue bound (valueOf base digits) false) :: scan bound items rest := by
  have notBlank := stopsAt_append isBlank digits rest nonempty
    (fun letter member => isDigitIn_not_blank base letter small (inside letter member))
  have signed : cutSign (digits ++ rest) = (false, digits ++ rest) := by
    cases digits with
    | nil => exact absurd rfl nonempty
    | cons digit digits =>
        exact cutSign_digit base digit (digits ++ rest) small (inside digit List.mem_cons_self)
  have stopsDigits : StopsAt (isDigitIn base) rest := by
    intro letter here
    have stopped := stops letter here
    simp only [goesOn, Bool.or_eq_false_iff] at stopped
    exact stopped.1.1
  have read : scanNumber bound base (digits ++ rest) =
      some (unsignedValue bound (valueOf base digits) false, rest) := by
    rw [scanNumber, dropBlanks_stopsAt _ notBlank, signed]
    dsimp only
    rw [cutPrefix_digits base digits rest small nonempty inside stops,
      takeWhile_stopsAt _ digits rest inside stopsDigits,
      dropWhile_stopsAt _ digits rest inside stopsDigits, if_neg nonempty]
  rw [scan, read]

theorem scan_word (bound : Nat) (items : List Item) (letters rest : List Char)
    (nonempty : letters ≠ []) (solid : ∀ letter, letter ∈ letters → isBlank letter = false)
    (stops : StopsAt (fun letter => !isBlank letter) rest) :
    scan bound (.word none :: items) (letters ++ rest) =
      .word letters :: scan bound items rest := by
  have kept := dropBlanks_stopsAt _ (stopsAt_append isBlank letters rest nonempty solid)
  have first : firstWord (letters ++ rest) = letters := by
    rw [firstWord, kept]
    exact takeWhile_stopsAt _ letters rest
      (fun letter member => Bool.not_eq_true' _ ▸ solid letter member) stops
  have read : scanWord none (letters ++ rest) = some (letters, rest) := by
    simp only [scanWord, first, kept, List.drop_left', if_neg nonempty]
  rw [scan, read]

private theorem firstWord_dropBlanks (text : List Char) :
    firstWord (text.dropWhile isBlank) = firstWord text := by
  rw [firstWord, firstWord, List.dropWhile_idempotent]

theorem scan_lastWord (bound most : Nat) (text : List Char) :
    scan bound [.blanks, .word (some most)] text =
      if (firstWord text).take most = [] then [] else [.word ((firstWord text).take most)] := by
  rw [scan, scan, scanWord, firstWord_dropBlanks]
  split
  · rename_i unread
    split at unread
    · rename_i empty
      rw [if_pos empty]
    · cases unread
  · rename_i letters rest read
    split at read
    · cases read
    · rename_i nonempty
      cases read
      rw [if_neg nonempty, scan]

theorem unsignedValue_exact_iff (bound value : Nat) :
    unsignedValue bound value false = value ↔ value < bound ∨ bound = 0 ∧ value = 0 := by
  unfold unsignedValue
  split
  · omega
  · simp
    omega

/-- What the calls of `fgets` with room for `room` characters and the final NUL deliver
of the rest of a text, the characters read since the last call being `held`. -/
def fgetsCalls (room : Nat) (held : List Char) : List Char → List (List Char)
  | [] => if held = [] then [] else [held]
  | letter :: rest =>
      if letter = '\n' ∨ room ≤ held.length + 1 then
        (held ++ [letter]) :: fgetsCalls room [] rest
      else fgetsCalls room (held ++ [letter]) rest

theorem fgetsCalls_line (room : Nat) (held body rest : List Char) :
    fgetsCalls room held (body ++ '\n' :: rest) =
      fgetsCalls room held (body ++ ['\n']) ++ fgetsCalls room [] rest := by
  induction body generalizing held with
  | nil =>
      rw [List.nil_append, List.nil_append, fgetsCalls, fgetsCalls, if_pos (Or.inl rfl),
        if_pos (Or.inl rfl), fgetsCalls, if_pos rfl]
      rfl
  | cons letter body ih =>
      rw [List.cons_append, List.cons_append, fgetsCalls, fgetsCalls]
      split
      · rw [ih [], List.cons_append]
      · exact ih (held ++ [letter])

private theorem fgetsCalls_short (room : Nat) (held body : List Char) (oneLine : '\n' ∉ body)
    (short : held.length + body.length + 1 ≤ room) :
    fgetsCalls room held (body ++ ['\n']) = [held ++ body ++ ['\n']] := by
  induction body generalizing held with
  | nil =>
      rw [List.nil_append, fgetsCalls, if_pos (Or.inl rfl), fgetsCalls, if_pos rfl,
        List.append_nil]
  | cons letter body ih =>
      have different := List.ne_of_not_mem_cons oneLine
      have laterLine := List.not_mem_of_not_mem_cons oneLine
      rw [List.length_cons] at short
      have goesOn : ¬ (letter = '\n' ∨ room ≤ held.length + 1) := by
        intro ends
        rcases ends with newline | full
        · exact different newline.symm
        · omega
      rw [List.cons_append, fgetsCalls, if_neg goesOn, ih (held ++ [letter]) laterLine (by
        rw [List.length_append, List.length_singleton]
        omega)]
      simp only [List.append_assoc, List.cons_append, List.nil_append]

private theorem fgetsCalls_nonempty (room : Nat) (held text : List Char) (nonempty : text ≠ []) :
    1 ≤ (fgetsCalls room held text).length := by
  induction text generalizing held with
  | nil => exact absurd rfl nonempty
  | cons letter text ih =>
      rw [fgetsCalls]
      split
      · rw [List.length_cons]
        omega
      · cases text with
        | nil =>
            rw [fgetsCalls, if_neg (by simp)]
            exact Nat.le_refl 1
        | cons next text => exact ih (held ++ [letter]) (List.cons_ne_nil next text)

/-- A line that does not fit takes two calls at least. -/
theorem fgetsCalls_long (room : Nat) (held body : List Char) (positive : held.length < room)
    (long : room < held.length + body.length + 1) :
    2 ≤ (fgetsCalls room held (body ++ ['\n'])).length := by
  induction body generalizing held with
  | nil =>
      rw [List.length_nil] at long
      omega
  | cons letter body ih =>
      rw [List.length_cons] at long
      rw [List.cons_append, fgetsCalls]
      split
      · have later := fgetsCalls_nonempty room [] (body ++ ['\n']) (by simp)
        rw [List.length_cons]
        omega
      · rename_i goesOn
        have notFull : ¬ room ≤ held.length + 1 := fun full => goesOn (Or.inr full)
        apply ih
        · rw [List.length_append, List.length_singleton]
          omega
        · rw [List.length_append, List.length_singleton]
          omega

section Lines

variable {α : Type} (room : Nat) (body : α → List Char)

theorem fgetsCalls_lines_short (lines : List α)
    (oneLine : ∀ line, line ∈ lines → '\n' ∉ body line)
    (short : ∀ line, line ∈ lines → (body line).length + 1 ≤ room) :
    fgetsCalls room [] (lines.flatMap (fun line => body line ++ ['\n'])) =
      lines.map (fun line => body line ++ ['\n']) := by
  induction lines with
  | nil => rfl
  | cons line rest ih =>
      obtain ⟨oneHere, oneLater⟩ := List.forall_mem_cons.mp oneLine
      obtain ⟨shortHere, shortLater⟩ := List.forall_mem_cons.mp short
      rw [List.flatMap_cons, List.append_assoc, List.singleton_append, fgetsCalls_line,
        ih oneLater shortLater, List.map_cons]
      rw [fgetsCalls_short room [] (body line) oneHere (by
        rw [List.length_nil]
        omega)]
      rfl

theorem fgetsCalls_lines_length (lines : List α) (positive : 0 < room) :
    lines.length ≤ (fgetsCalls room [] (lines.flatMap (fun line => body line ++ ['\n']))).length ∧
      ((fgetsCalls room [] (lines.flatMap (fun line => body line ++ ['\n']))).length =
          lines.length →
        ∀ line, line ∈ lines → (body line).length + 1 ≤ room) := by
  induction lines with
  | nil =>
      constructor
      · exact Nat.zero_le _
      · intro _none line absent
        cases absent
  | cons line rest ih =>
      obtain ⟨atLeast, exactly⟩ := ih
      have here := fgetsCalls_nonempty room [] (body line ++ ['\n']) (by simp)
      rw [List.flatMap_cons, List.append_assoc, List.singleton_append, fgetsCalls_line,
        List.length_append, List.length_cons]
      constructor
      · omega
      · intro same other member
        rcases List.mem_cons.mp member with first | later
        · rw [first]
          by_contra long
          have twice := fgetsCalls_long room [] (body line) positive (by
            rw [List.length_nil]
            omega)
          omega
        · exact exactly (by omega) other later

end Lines

end TextScan
