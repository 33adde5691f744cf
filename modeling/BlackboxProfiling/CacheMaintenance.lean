import Mathlib.Data.BitVec
import Mathlib.Data.List.Nodup
import Mathlib.Logic.Function.Basic

/-!
Cache maintenance by line, over two levels of cache, and a translation buffer.

A maintenance loop compares the running address with its end for inequality only;
it visits each line of the range once and stops, wherever in the address space the
end lies, also at zero. Cleaning and invalidating the first level and then the
second leaves no copy of a line above the memory and loses no store to it.
-/

namespace CacheMaintenance

section Loop

variable {w : Nat} {σ : Type}

/-- The body is run before the comparison. No result means the loop is running still. -/
def lineLoop (body : BitVec w → σ → σ) (stride : Nat) (stop : BitVec w) :
    Nat → BitVec w → σ → Option σ
  | 0, _line, _state => none
  | fuel + 1, line, state =>
      let next := line + BitVec.ofNat w stride
      if next = stop then some (body line state)
      else lineLoop body stride stop fuel next (body line state)

def lines (start : BitVec w) (stride count : Nat) : List (BitVec w) :=
  (List.range' 0 count stride).map (fun offset => start + BitVec.ofNat w offset)

theorem lines_succ (start : BitVec w) (stride count : Nat) :
    lines start stride (count + 1) =
      start :: lines (start + BitVec.ofNat w stride) stride count := by
  have later : List.range' (0 + stride) count stride =
      (List.range' 0 count stride).map (fun offset => stride + offset) := by
    rw [List.map_add_range', Nat.add_comm]
  simp only [lines, List.range'_succ, List.map_cons, later, List.map_map]
  congr 1
  · simp
  · apply List.map_congr_left
    intro offset _member
    simp only [Function.comp_apply, BitVec.add_assoc, BitVec.ofNat_add]

theorem lines_nodup (start : BitVec w) (stride count : Nat) (positive : 0 < stride)
    (fits : stride * count < 2 ^ w) : (lines start stride count).Nodup := by
  apply List.Nodup.map_on _ (List.nodup_range' stride positive)
  intro left leftMember right rightMember same
  obtain ⟨leftIndex, leftBelow, rfl⟩ := List.mem_range'.mp leftMember
  obtain ⟨rightIndex, rightBelow, rfl⟩ := List.mem_range'.mp rightMember
  have leftInside := Nat.mul_le_mul_left stride (Nat.le_of_lt leftBelow)
  have rightInside := Nat.mul_le_mul_left stride (Nat.le_of_lt rightBelow)
  have values := congrArg BitVec.toNat (BitVec.add_right_inj start |>.mp same)
  rw [BitVec.toNat_ofNat, BitVec.toNat_ofNat, Nat.mod_eq_of_lt (by omega),
    Nat.mod_eq_of_lt (by omega)] at values
  exact values

/-- The loop runs its body once on each line, in order, and stops. -/
theorem lineLoop_lines (body : BitVec w → σ → σ) (stride count : Nat) (positive : 0 < stride)
    (fits : stride * (count + 1) < 2 ^ w) (start : BitVec w) (state : σ) (fuel : Nat)
    (enough : count < fuel) :
    lineLoop body stride (start + BitVec.ofNat w (stride * (count + 1))) fuel start state =
      some ((lines start stride (count + 1)).foldl (fun reached line => body line reached)
        state) := by
  induction count generalizing start state fuel with
  | zero =>
      obtain ⟨fuel, rfl⟩ := Nat.exists_eq_add_of_lt enough
      simp [lineLoop, lines]
  | succ count ih =>
      obtain ⟨fuel, rfl⟩ : ∃ rest, fuel = rest + 1 := ⟨fuel - 1, by omega⟩
      have larger : stride * (count + 1 + 1) = stride + stride * (count + 1) := by
        rw [Nat.mul_succ, Nat.add_comm]
      have stopAfter : start + BitVec.ofNat w (stride * (count + 1 + 1)) =
          start + BitVec.ofNat w stride + BitVec.ofNat w (stride * (count + 1)) := by
        rw [larger, BitVec.ofNat_add, BitVec.add_assoc]
      have more : start + BitVec.ofNat w stride ≠
          start + BitVec.ofNat w (stride * (count + 1 + 1)) := by
        intro same
        have values := congrArg BitVec.toNat (BitVec.add_right_inj start |>.mp same)
        have rest : 0 < stride * (count + 1) := Nat.mul_pos positive (Nat.succ_pos count)
        rw [BitVec.toNat_ofNat, BitVec.toNat_ofNat, Nat.mod_eq_of_lt (by omega),
          Nat.mod_eq_of_lt fits] at values
        omega
      rw [lines_succ, List.foldl_cons]
      simp only [lineLoop, more, if_false]
      rw [stopAfter]
      exact ih (by omega) (start + BitVec.ofNat w stride) (body start state) fuel (by omega)

end Loop

structure CacheLine (δ : Type) where
  data : δ
  dirty : Bool

/-- A line is named by its first address, a translation by the page it is for. -/
structure Machine (w : Nat) (δ τ : Type) where
  icache : BitVec w → Option δ
  l1 : BitVec w → Option (CacheLine δ)
  l2 : BitVec w → Option (CacheLine δ)
  memory : BitVec w → δ
  tlb : BitVec w → Option τ

variable {w : Nat} {δ τ : Type}

/-- What a cache holds of a line that the level below may not have. -/
def unsaved : Option (CacheLine δ) → Option δ
  | some ⟨data, true⟩ => some data
  | some ⟨_data, false⟩ => none
  | none => none

@[simp] theorem unsaved_none : unsaved (none : Option (CacheLine δ)) = none := rfl

@[simp] theorem unsaved_dirty (data : δ) : unsaved (some ⟨data, true⟩) = some data := rfl

/-- What the last store to a line left: the topmost dirty copy, else the memory. -/
def Machine.latest (machine : Machine w δ τ) (line : BitVec w) : δ :=
  (unsaved (machine.l1 line)).getD ((unsaved (machine.l2 line)).getD (machine.memory line))

def Machine.invalidateInstruction (machine : Machine w δ τ) (line : BitVec w) : Machine w δ τ :=
  { machine with icache := Function.update machine.icache line none }

/-- A dirty line goes to the second level if that holds the line, else to the memory. -/
def Machine.cleanL1 (machine : Machine w δ τ) (line : BitVec w) : Machine w δ τ :=
  match unsaved (machine.l1 line), machine.l2 line with
  | none, _ => machine
  | some data, some _held =>
      { machine with l2 := Function.update machine.l2 line (some ⟨data, true⟩) }
  | some data, none => { machine with memory := Function.update machine.memory line data }

def Machine.cleanInvalidateL1 (machine : Machine w δ τ) (line : BitVec w) : Machine w δ τ :=
  { machine.cleanL1 line with l1 := Function.update machine.l1 line none }

def Machine.cleanL2 (machine : Machine w δ τ) (line : BitVec w) : Machine w δ τ :=
  match unsaved (machine.l2 line) with
  | none => machine
  | some data => { machine with memory := Function.update machine.memory line data }

def Machine.cleanInvalidateL2 (machine : Machine w δ τ) (line : BitVec w) : Machine w δ τ :=
  { machine.cleanL2 line with l2 := Function.update machine.l2 line none }

def Machine.flushTlb (machine : Machine w δ τ) (page : BitVec w) : Machine w δ τ :=
  { machine with tlb := Function.update machine.tlb page none }

structure Machine.Uncached (machine : Machine w δ τ) (line : BitVec w) : Prop where
  icache : machine.icache line = none
  l1 : machine.l1 line = none
  l2 : machine.l2 line = none

private theorem Machine.Uncached.memory_latest {machine : Machine w δ τ} {line : BitVec w}
    (uncached : machine.Uncached line) : machine.memory line = machine.latest line := by
  rw [latest, uncached.l1, uncached.l2]
  rfl

/-- A later machine keeps what was stored last, and flushed entries stay flushed. -/
structure Machine.Maintains (before after : Machine w δ τ) : Prop where
  latest : ∀ line, after.latest line = before.latest line
  icache : ∀ line, before.icache line = none → after.icache line = none
  l1 : ∀ line, before.l1 line = none → after.l1 line = none
  l2 : ∀ line, before.l2 line = none → after.l2 line = none
  tlb : ∀ page, before.tlb page = none → after.tlb page = none

theorem Machine.Maintains.refl (machine : Machine w δ τ) : machine.Maintains machine :=
  ⟨fun _line => rfl, fun _line empty => empty, fun _line empty => empty,
    fun _line empty => empty, fun _page empty => empty⟩

theorem Machine.Maintains.trans {first second third : Machine w δ τ}
    (earlier : first.Maintains second) (later : second.Maintains third) :
    first.Maintains third :=
  ⟨fun line => (later.latest line).trans (earlier.latest line),
    fun line empty => later.icache line (earlier.icache line empty),
    fun line empty => later.l1 line (earlier.l1 line empty),
    fun line empty => later.l2 line (earlier.l2 line empty),
    fun page empty => later.tlb page (earlier.tlb page empty)⟩

private theorem update_none {α : Type} (cache : BitVec w → Option α) (line other : BitVec w)
    (empty : cache other = none) : Function.update cache line none other = none := by
  by_cases same : other = line
  · rw [same, Function.update_self]
  · rw [Function.update_of_ne same, empty]

private theorem Machine.invalidateInstruction_maintains (machine : Machine w δ τ) (line : BitVec w) :
    machine.Maintains (machine.invalidateInstruction line) :=
  { Maintains.refl machine with icache := update_none machine.icache line }

theorem Machine.flushTlb_maintains (machine : Machine w δ τ) (page : BitVec w) :
    machine.Maintains (machine.flushTlb page) :=
  { Maintains.refl machine with tlb := update_none machine.tlb page }

@[simp] theorem Machine.flushTlb_tlb (machine : Machine w δ τ) (page : BitVec w) :
    (machine.flushTlb page).tlb page = none :=
  Function.update_self ..

private theorem Machine.cleanInvalidateL1_latest (machine : Machine w δ τ) (line other : BitVec w) :
    (machine.cleanInvalidateL1 line).latest other = machine.latest other := by
  by_cases same : other = line
  · subst same
    cases held : unsaved (machine.l1 other) with
    | none => simp [latest, cleanInvalidateL1, cleanL1, held]
    | some data =>
        cases below : machine.l2 other <;>
          simp [latest, cleanInvalidateL1, cleanL1, held, below]
  · cases held : unsaved (machine.l1 line) with
    | none => simp [latest, cleanInvalidateL1, cleanL1, held, same]
    | some data =>
        cases below : machine.l2 line <;>
          simp [latest, cleanInvalidateL1, cleanL1, held, below, same]

private theorem Machine.cleanInvalidateL2_latest (machine : Machine w δ τ) (line other : BitVec w) :
    (machine.cleanInvalidateL2 line).latest other = machine.latest other := by
  by_cases same : other = line
  · subst same
    cases held : unsaved (machine.l2 other) <;>
      cases above : unsaved (machine.l1 other) <;>
        simp [latest, cleanInvalidateL2, cleanL2, held, above]
  · cases held : unsaved (machine.l2 line) <;>
      simp [latest, cleanInvalidateL2, cleanL2, held, same]

private theorem Machine.cleanInvalidateL1_maintains (machine : Machine w δ τ) (line : BitVec w) :
    machine.Maintains (machine.cleanInvalidateL1 line) := by
  refine ⟨machine.cleanInvalidateL1_latest line, ?_, ?_, ?_, ?_⟩
  · intro other empty
    dsimp only [cleanInvalidateL1, cleanL1]
    split <;> exact empty
  · exact update_none machine.l1 line
  · intro other empty
    dsimp only [cleanInvalidateL1, cleanL1]
    split
    · exact empty
    · rename_i held below
      have elsewhere : other ≠ line := by
        rintro rfl
        rw [empty] at below
        cases below
      exact (Function.update_of_ne elsewhere ..).trans empty
    · exact empty
  · intro page empty
    dsimp only [cleanInvalidateL1, cleanL1]
    split <;> exact empty

private theorem Machine.cleanInvalidateL2_maintains (machine : Machine w δ τ) (line : BitVec w) :
    machine.Maintains (machine.cleanInvalidateL2 line) := by
  refine ⟨machine.cleanInvalidateL2_latest line, ?_, ?_, update_none machine.l2 line, ?_⟩
  all_goals
    intro other empty
    dsimp only [cleanInvalidateL2, cleanL2]
    split <;> exact empty

theorem foldl_maintains {α : Type} (body : Machine w δ τ → α → Machine w δ τ)
    (step : ∀ reached item, Machine.Maintains reached (body reached item)) (items : List α)
    (machine : Machine w δ τ) : machine.Maintains (items.foldl body machine) := by
  induction items generalizing machine with
  | nil => exact .refl machine
  | cons item rest ih => exact (step machine item).trans (ih (body machine item))

/-- What each call establishes of its own item holds of all of them in the end, if
later calls keep it. -/
theorem foldl_establishes {α : Type} (body : Machine w δ τ → α → Machine w δ τ)
    (step : ∀ reached item, Machine.Maintains reached (body reached item))
    (holds : Machine w δ τ → α → Prop) (here : ∀ machine item, holds (body machine item) item)
    (kept : ∀ before after item, before.Maintains after → holds before item → holds after item)
    (items : List α) (machine : Machine w δ τ) (item : α) (member : item ∈ items) :
    holds (items.foldl body machine) item := by
  induction items generalizing machine with
  | nil => cases member
  | cons head rest ih =>
      rcases List.mem_cons.mp member with rfl | later
      · exact kept _ _ item (foldl_maintains body step rest _) (here machine item)
      · exact ih (body machine head) later

/-- Both passes over the lines of a page, each line of the first level reached under
an address that translates to it: no cache holds a line of the page, and the memory
has what was stored last. -/
theorem bothPasses_uncached (translate : BitVec w → BitVec w) (virtual physical : List (BitVec w))
    (maps : virtual.map translate = physical) (machine : Machine w δ τ) :
    let first := virtual.foldl (fun reached line =>
      (reached.invalidateInstruction (translate line)).cleanInvalidateL1 (translate line)) machine
    let second := physical.foldl Machine.cleanInvalidateL2 first
    machine.Maintains second ∧ ∀ line ∈ physical,
      second.Uncached line ∧ second.memory line = machine.latest line := by
  intro first second
  have firstStep (reached : Machine w δ τ) (line : BitVec w) : reached.Maintains
      ((reached.invalidateInstruction (translate line)).cleanInvalidateL1 (translate line)) :=
    (reached.invalidateInstruction_maintains _).trans (Machine.cleanInvalidateL1_maintains _ _)
  have firstKept : machine.Maintains first := foldl_maintains _ firstStep virtual machine
  have secondKept : first.Maintains second :=
    foldl_maintains _ Machine.cleanInvalidateL2_maintains physical first
  refine ⟨firstKept.trans secondKept, ?_⟩
  intro line member
  have afterFirst : first.icache line = none ∧ first.l1 line = none := by
    obtain ⟨place, placed, rfl⟩ := List.mem_map.mp (maps ▸ member)
    refine foldl_establishes _ firstStep
      (fun reached item => reached.icache (translate item) = none ∧ reached.l1 (translate item) = none)
      ?_ ?_ virtual machine place placed
    · intro reached item
      exact ⟨(Machine.cleanInvalidateL1_maintains _ _).icache _ (Function.update_self ..),
        Function.update_self ..⟩
    · rintro before after item kept ⟨instruction, data⟩
      exact ⟨kept.icache _ instruction, kept.l1 _ data⟩
  have afterSecond : second.l2 line = none :=
    foldl_establishes _ Machine.cleanInvalidateL2_maintains
      (fun reached item => reached.l2 item = none)
      (fun _reached _item => Function.update_self ..)
      (fun _before _after item kept empty => kept.l2 item empty) physical first line member
  have uncached : second.Uncached line :=
    ⟨secondKept.icache _ afterFirst.1, secondKept.l1 _ afterFirst.2, afterSecond⟩
  refine ⟨uncached, ?_⟩
  rw [uncached.memory_latest, secondKept.latest, firstKept.latest]

end CacheMaintenance
