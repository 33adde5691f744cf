import BlackboxProfiling.BlockMemory
import BlackboxProfiling.Kernel.Populate
import BlackboxProfiling.Kernel.Processes

/-!
What a write uses of the kernel besides the process list. `kmalloc` may find no room for
a size and `copy_from_user` may fail at any call; a copy that fails leaves something
behind.
-/

namespace BlackboxProfiling

open BlockMemory

/-- `found` tells the sizes for which `kmalloc` does not give a null pointer. -/
structure KernelEnv where
  gup : GetUserPages
  fuel : Nat
  found : Nat → Bool

structure Shared (params : Type) where
  cp : params
  memory : Memory
  processes : List Task

inductive Copy (rest : Type) where
  | whole
  | cut (left : rest)

def Copy.Fails {rest : Type} : Copy rest → Prop
  | .whole => False
  | .cut _left => True

def byteCount (size : Int) : Nat := (size * 4 % 0x100000000).toNat

def dataBytes : Nat := 8

/-- `copy_from_user` of a list; only user pointers can be read, and a copy of nothing
cannot fail. A copy that fails stores too, and what could not be read is filled with
zeros, so without a buffer to store to no copy returns. -/
def copyFromUser (copy : Copy (List Int)) (user : Nat → Nat → Int) (dst src : Ptr)
    (length : Nat) (memory : Memory) : Option (Bool × Memory) :=
  if length = 0 then some (true, memory)
  else
    match dst with
    | .null | .foreign _address => none
    | .block _number =>
        match copy, src with
        | .cut left, _ => some (false, fill dst (left.take length) memory)
        | .whole, .foreign address =>
            some (true, fill dst ((List.range length).map (user address)) memory)
        | .whole, _ => some (false, fill dst (List.replicate length 0) memory)

theorem Copy.whole_of_sound {rest : Type} (copy : Copy rest) (sound : ¬ copy.Fails) :
    copy = .whole := by
  cases copy with
  | whole => rfl
  | cut left => exact absurd trivial sound

theorem Copy.cut_of_fails {rest : Type} (copy : Copy rest) (fails : copy.Fails) :
    ∃ left, copy = .cut left := by
  cases copy with
  | whole => exact absurd fails id
  | cut left => exact ⟨left, rfl⟩

theorem byteCount_entries (size : Int) : byteCount size / 4 = 0 ↔ byteCount size = 0 := by
  unfold byteCount
  omega

section Copying

variable (copy : Copy (List Int)) (user : Nat → Nat → Int) (dst src : Ptr) (length : Nat)
variable (memory after : Memory) (copied : Bool)

/-- A copy that returns has nothing to do, or has a buffer and has filled it as far as it
got, with the list, or with zeros for a pointer that is not from user space. -/
theorem copyFromUser_cases
    (ran : copyFromUser copy user dst src length memory = some (copied, after)) :
    (length = 0 ∧ copied = true ∧ after = memory) ∨
    (∃ number, dst = .block number) ∧ ∃ left, after = fill dst left memory ∧
      ((copy.Fails ∧ copied = false) ∨
        (copied = true ∧ ∃ address, src = .foreign address ∧
          left = (List.range length).map (user address)) ∨
        ((∀ address, src ≠ .foreign address) ∧ copied = false)) := by
  unfold copyFromUser at ran
  split at ran
  · rename_i empty
    cases ran
    exact Or.inl ⟨empty, rfl, rfl⟩
  · right
    cases dst with
    | null => cases ran
    | foreign other => cases ran
    | block number =>
        refine ⟨⟨number, rfl⟩, ?_⟩
        cases copy with
        | cut left =>
            cases ran
            exact ⟨_, rfl, Or.inl ⟨trivial, rfl⟩⟩
        | whole =>
            cases src with
            | foreign address =>
                cases ran
                exact ⟨_, rfl, Or.inr (Or.inl ⟨rfl, address, rfl, rfl⟩)⟩
            | null | block _number =>
                cases ran
                refine ⟨_, rfl, Or.inr (Or.inr ⟨?_, rfl⟩)⟩
                intro address impossible
                cases impossible

theorem copyFromUser_balanced (live : List Ptr)
    (ran : copyFromUser copy user dst src length memory = some (copied, after))
    (balanced : Balanced memory live) : Balanced after live := by
  rcases copyFromUser_cases copy user dst src length memory after copied ran with
    ⟨_empty, _copied, rfl⟩ | ⟨_buffer, left, rfl, _outcome⟩
  · exact balanced
  · exact fill_balanced dst left memory live balanced

theorem copyFromUser_apart (live : List Ptr)
    (ran : copyFromUser copy user dst src length memory = some (copied, after))
    (balanced : Balanced memory (dst :: live)) (ptr : Ptr) (member : ptr ∈ live) (count : Nat) :
    readList user after ptr count = readList user memory ptr count := by
  rcases copyFromUser_cases copy user dst src length memory after copied ran with
    ⟨_empty, _copied, rfl⟩ | ⟨_buffer, left, rfl, _outcome⟩
  · rfl
  · exact readList_fill_apart user memory dst live balanced left ptr member count

theorem copyFromUser_copied (address : Nat) (own : dst.Own)
    (ran : copyFromUser copy user dst (.foreign address) length memory = some (true, after)) :
    readList user after dst length = some ((List.range length).map (user address)) := by
  rcases copyFromUser_cases copy user dst (.foreign address) length memory after true ran with
    ⟨empty, _copied, _same⟩ | ⟨⟨number, here⟩, left, rfl, ⟨_fails, impossible⟩ |
      ⟨_copied, _, same, isList⟩ | ⟨_refused, impossible⟩⟩
  · rw [empty]
    cases dst with
    | null => rfl
    | foreign other => exact absurd rfl (own other)
    | block number => rfl
  · cases impossible
  · cases same
    have read := readList_fill_self user memory dst left own
      (fun null => by
        rw [here] at null
        cases null)
    rw [isList] at read ⊢
    rw [List.length_map, List.length_range] at read
    exact read
  · cases impossible

theorem copyFromUser_succeeds (address : Nat)
    (ran : copyFromUser copy user dst (.foreign address) length memory = some (copied, after))
    (sound : copy.Fails → length = 0) : copied = true := by
  rcases copyFromUser_cases copy user dst (.foreign address) length memory after copied ran with
    ⟨_empty, succeeded, _same⟩ | ⟨_buffer, _left, _stored, ⟨fails, _copied⟩ |
      ⟨succeeded, _list⟩ | ⟨refused, _copied⟩⟩
  · exact succeeded
  · unfold copyFromUser at ran
    rw [if_pos (sound fails)] at ran
    cases ran
    rfl
  · exact succeeded
  · exact absurd rfl (refused address)

theorem copyFromUser_room
    (ran : copyFromUser copy user dst src length memory = some (copied, after)) :
    length = 0 ∨ dst ≠ .null := by
  rcases copyFromUser_cases copy user dst src length memory after copied ran with
    ⟨empty, _copied, _same⟩ | ⟨⟨number, here⟩, _left, _stored, _outcome⟩
  · exact Or.inl empty
  · right
    rw [here]
    intro null
    cases null

theorem copyFromUser_fails (fails : copy.Fails) (nonempty : length ≠ 0) (number : Nat)
    (here : dst = .block number) :
    ∃ left, copyFromUser copy user dst src length memory = some (false, fill dst left memory) := by
  obtain ⟨left, rfl⟩ := copy.cut_of_fails fails
  unfold copyFromUser
  rw [if_neg nonempty, here]
  exact ⟨left.take length, rfl⟩

end Copying

end BlackboxProfiling
