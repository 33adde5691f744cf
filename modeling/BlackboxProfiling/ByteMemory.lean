import Mathlib.Tactic.IntervalCases

/-!
Little-endian 32-bit words in a memory of bytes.

Writing a word and then writing the old word back at the same address leaves the
memory as it was, and a write is invisible outside its four bytes.
-/

namespace ByteMemory

variable {width : Nat}

abbrev Memory (width : Nat) := BitVec width → BitVec 8

def Inside (address place : BitVec width) : Prop := (place - address).toNat < 4

instance (address place : BitVec width) : Decidable (Inside address place) :=
  inferInstanceAs (Decidable (_ < _))

def readWord (memory : Memory width) (address : BitVec width) : BitVec 32 :=
  (memory (address + BitVec.ofNat width 0)).setWidth 32 |||
    (memory (address + BitVec.ofNat width 1)).setWidth 32 <<< 8 |||
    (memory (address + BitVec.ofNat width 2)).setWidth 32 <<< 16 |||
    (memory (address + BitVec.ofNat width 3)).setWidth 32 <<< 24

def writeWord (memory : Memory width) (address : BitVec width) (word : BitVec 32) :
    Memory width :=
  fun place =>
    if Inside address place then word.extractLsb' (8 * (place - address).toNat) 8
    else memory place

theorem readWord_byte (memory : Memory width) (address : BitVec width) (index : Nat)
    (inside : index < 4) :
    (readWord memory address).extractLsb' (8 * index) 8 =
      memory (address + BitVec.ofNat width index) := by
  ext bit within
  have high (byte : BitVec 8) (place : Nat) (above : 8 ≤ place) : byte.getLsbD place = false :=
    BitVec.getLsbD_of_ge byte place above
  rw [← BitVec.getLsbD_eq_getElem, ← BitVec.getLsbD_eq_getElem]
  simp only [readWord, BitVec.getLsbD_extractLsb', BitVec.getLsbD_or, BitVec.getLsbD_shiftLeft,
    BitVec.getLsbD_setWidth]
  interval_cases index <;> grind

theorem writeWord_inside (memory : Memory width) (address : BitVec width) (word : BitVec 32)
    (place : BitVec width) (inside : Inside address place) :
    writeWord memory address word place =
      word.extractLsb' (8 * (place - address).toNat) 8 :=
  if_pos inside

theorem writeWord_outside (memory : Memory width) (address : BitVec width) (word : BitVec 32)
    (place : BitVec width) (outside : ¬ Inside address place) :
    writeWord memory address word place = memory place :=
  if_neg outside

theorem writeWord_readWord (memory : Memory width) (address : BitVec width) :
    writeWord memory address (readWord memory address) = memory := by
  funext place
  by_cases inside : Inside address place
  · have back : address + BitVec.ofNat width (place - address).toNat = place := by
      rw [BitVec.ofNat_toNat, BitVec.setWidth_eq, BitVec.add_comm, BitVec.sub_add_cancel]
    rw [writeWord_inside memory address _ place inside,
      readWord_byte memory address (place - address).toNat inside, back]
  · exact writeWord_outside memory address _ place inside

theorem writeWord_writeWord (memory : Memory width) (address : BitVec width)
    (first second : BitVec 32) :
    writeWord (writeWord memory address first) address second =
      writeWord memory address second := by
  funext place
  by_cases inside : Inside address place
  · rw [writeWord_inside _ address second place inside,
      writeWord_inside memory address second place inside]
  · rw [writeWord_outside _ address second place inside,
      writeWord_outside memory address first place inside,
      writeWord_outside memory address second place inside]

theorem writeWord_restores (memory : Memory width) (address : BitVec width) (word : BitVec 32) :
    writeWord (writeWord memory address word) address (readWord memory address) = memory := by
  rw [writeWord_writeWord, writeWord_readWord]

end ByteMemory
