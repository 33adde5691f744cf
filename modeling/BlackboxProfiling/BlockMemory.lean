import Mathlib.Data.List.Count
import Mathlib.Logic.Function.Basic

/-!
Blocks that are given out and released, with a record of what was released and of
what was followed. A memory is balanced against a list of live pointers when every
block given out is either live or has been released exactly once.
-/

namespace BlockMemory

/-- A foreign pointer was not given out here. -/
inductive Ptr where
  | null
  | foreign (address : Nat)
  | block (number : Nat)
  deriving DecidableEq, Repr

/-- Blocks are numbered in the order in which they are given out; what a new block holds
is not known. -/
structure Memory where
  count : Nat
  cell : Nat → Nat → Int
  released : List Ptr
  followed : List Ptr

def emptyMemory (cell : Nat → Nat → Int) : Memory :=
  { count := 0, cell := cell, released := [], followed := [] }

def alloc : Bool → Memory → Ptr × Memory
  | true, memory => (.block memory.count, { memory with count := memory.count + 1 })
  | false, memory => (.null, memory)

def release (ptr : Ptr) (memory : Memory) : Memory :=
  { memory with released := ptr :: memory.released }

def follow (ptr : Ptr) (length : Nat) (memory : Memory) : Memory :=
  if length = 0 then memory else { memory with followed := ptr :: memory.followed }

def fill (ptr : Ptr) (values : List Int) (memory : Memory) : Memory :=
  match ptr with
  | .block number =>
      { memory with
        cell := Function.update memory.cell number
          (fun place => values.getD place (memory.cell number place)) }
  | .null | .foreign _address => memory

def readList (foreign : Nat → Nat → Int) (memory : Memory) (ptr : Ptr) (length : Nat) :
    Option (List Int) :=
  match ptr with
  | .block number => some ((List.range length).map (memory.cell number))
  | .foreign address => some ((List.range length).map (foreign address))
  | .null => if length = 0 then some [] else none

def readAt (foreign : Nat → Nat → Int) (memory : Memory) (ptr : Ptr) (place : Nat) : Option Int :=
  match ptr with
  | .block number => some (memory.cell number place)
  | .foreign address => some (foreign address place)
  | .null => none

/-- Every block given out is live once or has been released once, and no foreign pointer
has been released or followed. -/
structure Balanced (memory : Memory) (live : List Ptr) : Prop where
  once : ∀ number, number < memory.count →
    memory.released.count (.block number) + live.count (.block number) = 1
  never : ∀ number, memory.count ≤ number →
    memory.released.count (.block number) + live.count (.block number) = 0
  released : ∀ address, .foreign address ∉ memory.released
  followed : ∀ address, .foreign address ∉ memory.followed

def Ptr.Own (ptr : Ptr) : Prop := ∀ address, ptr ≠ .foreign address

theorem emptyMemory_balanced (cell : Nat → Nat → Int) : Balanced (emptyMemory cell) [] := by
  constructor
  · intro number given
    exact absurd given (Nat.not_lt_zero number)
  · intro number _beyond
    rfl
  · intro address member
    cases member
  · intro address member
    cases member

theorem alloc_own (found : Bool) (memory : Memory) : (alloc found memory).1.Own := by
  intro address same
  cases found with
  | true => cases same
  | false => cases same

theorem alloc_balanced (found : Bool) (memory : Memory) (live : List Ptr)
    (balanced : Balanced memory live) :
    Balanced (alloc found memory).2 ((alloc found memory).1 :: live) := by
  obtain ⟨once, never, released, followed⟩ := balanced
  cases found with
  | false =>
      have same (number : Nat) : (Ptr.null :: live).count (.block number) =
          live.count (.block number) :=
        List.count_cons_of_ne (fun impossible => by cases impossible)
      refine ⟨?_, ?_, released, followed⟩
      · intro number given
        exact (congrArg _ (same number)).trans (once number given)
      · intro number beyond
        exact (congrArg _ (same number)).trans (never number beyond)
  | true =>
      have counts (number : Nat) : (Ptr.block memory.count :: live).count (.block number) =
          live.count (.block number) + if memory.count = number then 1 else 0 := by
        rw [List.count_cons]
        simp only [beq_iff_eq, Ptr.block.injEq]
      have fresh := never memory.count (Nat.le_refl _)
      refine ⟨?_, ?_, released, followed⟩
      · intro number given
        have below : number < memory.count + 1 := given
        have here := counts number
        simp only [alloc]
        by_cases last : memory.count = number
        · rw [if_pos last] at here
          rw [last] at fresh
          omega
        · rw [if_neg last] at here
          have before := once number (by omega)
          omega
      · intro number beyond
        have above : memory.count + 1 ≤ number := beyond
        have here := counts number
        have before := never number (by omega)
        simp only [alloc]
        rw [if_neg (by omega)] at here
        omega

theorem release_balanced (ptr : Ptr) (memory : Memory) (live : List Ptr) (own : ptr.Own)
    (balanced : Balanced memory (ptr :: live)) : Balanced (release ptr memory) live := by
  obtain ⟨once, never, released, followed⟩ := balanced
  have moved (number : Nat) : (ptr :: memory.released).count (.block number) +
      live.count (.block number) =
        memory.released.count (.block number) + (ptr :: live).count (.block number) := by
    rw [List.count_cons, List.count_cons]
    omega
  refine ⟨?_, ?_, ?_, followed⟩
  · intro number given
    exact (moved number).trans (once number given)
  · intro number beyond
    exact (moved number).trans (never number beyond)
  · intro address member
    rcases List.mem_cons.mp member with here | earlier
    · exact own address here.symm
    · exact released address earlier

theorem follow_balanced (ptr : Ptr) (length : Nat) (memory : Memory) (live : List Ptr)
    (own : ptr.Own) (balanced : Balanced memory live) :
    Balanced (follow ptr length memory) live := by
  unfold follow
  split
  · exact balanced
  · obtain ⟨once, never, released, followed⟩ := balanced
    refine ⟨once, never, released, ?_⟩
    intro address member
    rcases List.mem_cons.mp member with here | earlier
    · exact own address here.symm
    · exact followed address earlier

theorem fill_balanced (ptr : Ptr) (values : List Int) (memory : Memory) (live : List Ptr)
    (balanced : Balanced memory live) : Balanced (fill ptr values memory) live := by
  obtain ⟨once, never, released, followed⟩ := balanced
  cases ptr with
  | null | foreign _address | block _number => exact ⟨once, never, released, followed⟩

theorem Balanced.perm {memory : Memory} {live reordered : List Ptr}
    (balanced : Balanced memory live) (same : live.Perm reordered) : Balanced memory reordered := by
  obtain ⟨once, never, released, followed⟩ := balanced
  refine ⟨?_, ?_, released, followed⟩
  · intro number given
    rw [← same.count_eq]
    exact once number given
  · intro number beyond
    rw [← same.count_eq]
    exact never number beyond

theorem Balanced.releasedOnce {memory : Memory} (balanced : Balanced memory []) (number : Nat)
    (given : number < memory.count) : memory.released.count (.block number) = 1 :=
  balanced.once number given

theorem Balanced.apart {memory : Memory} {first : Ptr} {live : List Ptr} {second : Ptr}
    (balanced : Balanced memory (first :: live)) (member : second ∈ live) (number : Nat)
    (here : second = .block number) : first ≠ second := by
  intro same
  have present : 0 < live.count (.block number) := List.count_pos_iff.mpr (here ▸ member)
  have twice : (first :: live).count (.block number) = live.count (.block number) + 1 := by
    rw [same, here, List.count_cons_self]
  rcases Nat.lt_or_ge number memory.count with given | beyond
  · have once := balanced.once number given
    omega
  · have never := balanced.never number beyond
    omega

theorem readList_fill_self (foreign : Nat → Nat → Int) (memory : Memory) (ptr : Ptr)
    (values : List Int) (own : ptr.Own) (reachable : ptr = .null → values = []) :
    readList foreign (fill ptr values memory) ptr values.length = some values := by
  cases ptr with
  | null =>
      rw [reachable rfl]
      rfl
  | foreign address => exact absurd rfl (own address)
  | block number =>
      simp only [readList, fill, Function.update_self]
      congr 1
      apply List.ext_getElem
      · rw [List.length_map, List.length_range]
      · intro place _left right
        rw [List.getElem_map, List.getElem_range, List.getD_eq_getElem?_getD,
          List.getElem?_eq_getElem right, Option.getD_some]

theorem readList_fill_other (foreign : Nat → Nat → Int) (memory : Memory) (ptr other : Ptr)
    (values : List Int) (length : Nat) (different : ∀ number, ptr = .block number → other ≠ ptr) :
    readList foreign (fill other values memory) ptr length = readList foreign memory ptr length := by
  cases ptr with
  | null =>
      cases other <;> rfl
  | foreign address =>
      cases other <;> rfl
  | block number =>
      cases other with
      | null => rfl
      | foreign address => rfl
      | block otherNumber =>
          have apart : number ≠ otherNumber := by
            intro same
            exact different number rfl (by rw [same])
          simp only [readList, fill, Function.update_of_ne apart]

theorem readList_follow (foreign : Nat → Nat → Int) (memory : Memory) (other ptr : Ptr)
    (count length : Nat) :
    readList foreign (follow other count memory) ptr length = readList foreign memory ptr length := by
  unfold follow
  split
  · rfl
  · cases ptr <;> rfl

theorem readList_release (foreign : Nat → Nat → Int) (memory : Memory) (other ptr : Ptr)
    (length : Nat) :
    readList foreign (release other memory) ptr length = readList foreign memory ptr length := by
  cases ptr <;> rfl

theorem readList_alloc (foreign : Nat → Nat → Int) (memory : Memory) (found : Bool) (ptr : Ptr)
    (length : Nat) :
    readList foreign (alloc found memory).2 ptr length = readList foreign memory ptr length := by
  cases found <;> cases ptr <;> rfl

theorem readAt_readList (foreign : Nat → Nat → Int) (memory : Memory) (ptr : Ptr)
    (length place : Nat) (values : List Int) (read : readList foreign memory ptr length = some values)
    (inside : place < length) : readAt foreign memory ptr place = values[place]? := by
  cases ptr with
  | null =>
      simp only [readList] at read
      split at read
      · omega
      · cases read
  | foreign address =>
      cases read
      rw [List.getElem?_map, List.getElem?_range inside]
      rfl
  | block number =>
      cases read
      rw [List.getElem?_map, List.getElem?_range inside]
      rfl

/-- What is live before is live afterwards and holds the same. -/
structure Keeps (foreign : Nat → Nat → Int) (live : List Ptr) (before after : Memory) : Prop where
  balanced : Balanced after live
  same : ∀ ptr ∈ live, ∀ length,
    readList foreign after ptr length = readList foreign before ptr length

theorem Keeps.refl {foreign : Nat → Nat → Int} {live : List Ptr} {memory : Memory}
    (balanced : Balanced memory live) : Keeps foreign live memory memory :=
  ⟨balanced, fun _ptr _member _length => rfl⟩

theorem Keeps.trans {foreign : Nat → Nat → Int} {live : List Ptr} {first second third : Memory}
    (earlier : Keeps foreign live first second) (later : Keeps foreign live second third) :
    Keeps foreign live first third :=
  ⟨later.balanced, fun ptr member length =>
    (later.same ptr member length).trans (earlier.same ptr member length)⟩

theorem Keeps.follow {foreign : Nat → Nat → Int} {live : List Ptr} {before after : Memory}
    (keeps : Keeps foreign live before after) (ptr : Ptr) (length : Nat) (own : ptr.Own) :
    Keeps foreign live before (follow ptr length after) :=
  ⟨follow_balanced ptr length after live own keeps.balanced, fun other member count =>
    (readList_follow _ _ _ _ _ _).trans (keeps.same other member count)⟩

theorem readList_fill_apart (foreign : Nat → Nat → Int) (memory : Memory) (filled : Ptr)
    (live : List Ptr) (balanced : Balanced memory (filled :: live)) (values : List Int) (ptr : Ptr)
    (member : ptr ∈ live) (length : Nat) :
    readList foreign (fill filled values memory) ptr length = readList foreign memory ptr length :=
  readList_fill_other _ _ _ _ _ _ (fun number here => balanced.apart member number here)

theorem Keeps.within {foreign : Nat → Nat → Int} {live : List Ptr} {before after : Memory}
    (found : Bool) (balanced : Balanced after ((alloc found before).1 :: live))
    (same : ∀ ptr ∈ live, ∀ length,
      readList foreign after ptr length = readList foreign (alloc found before).2 ptr length) :
    Keeps foreign live before (release (alloc found before).1 after) := by
  constructor
  · exact release_balanced _ _ _ (alloc_own found before) balanced
  · intro ptr member length
    rw [readList_release, same ptr member, readList_alloc]

end BlockMemory
