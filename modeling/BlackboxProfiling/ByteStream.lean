import Mathlib.Algebra.Group.Nat.Defs
import Mathlib.Data.List.Basic

/-!
Bytes read one object after the other: numbers with the low byte first, a file with a
position in it, and records whose fields follow each other without gaps.
-/

namespace ByteStream

abbrev Byte := BitVec 8

def number (object : Nat → Byte) : Nat → Nat
  | 0 => 0
  | size + 1 => number object size + 256 ^ size * (object size).toNat

/-- The bytes of a number, the low one first. -/
def encode : Nat → Nat → List Byte
  | 0, _value => []
  | size + 1, value => BitVec.ofNat 8 value :: encode size (value / 256)

theorem encode_length (size value : Nat) : (encode size value).length = size := by
  induction size generalizing value with
  | zero => rfl
  | succ size ih => rw [encode, List.length_cons, ih]

theorem encode_get (size value k : Nat) (inside : k < size) :
    (encode size value)[k]? = some (BitVec.ofNat 8 (value / 256 ^ k)) := by
  induction size generalizing value k with
  | zero => exact absurd inside (Nat.not_lt_zero k)
  | succ size ih =>
      cases k with
      | zero => rw [encode, List.getElem?_cons_zero, Nat.pow_zero, Nat.div_one]
      | succ k =>
          rw [encode, List.getElem?_cons_succ, ih (value / 256) k (Nat.lt_of_succ_lt_succ inside),
            Nat.div_div_eq_div_mul, Nat.pow_succ, Nat.mul_comm 256]

theorem number_congr (object other : Nat → Byte) (size : Nat)
    (same : ∀ k < size, object k = other k) : number object size = number other size := by
  induction size with
  | zero => rfl
  | succ size ih =>
      rw [number, number, ih (fun k inside => same k (Nat.lt_succ_of_lt inside)),
        same size (Nat.lt_succ_self size)]

theorem number_encode (value size : Nat) (object : Nat → Byte)
    (written : ∀ k < size, object k = BitVec.ofNat 8 (value / 256 ^ k)) :
    number object size = value % 256 ^ size := by
  induction size with
  | zero => rw [number, Nat.pow_zero, Nat.mod_one]
  | succ size ih =>
      rw [number, ih (fun k inside => written k (Nat.lt_succ_of_lt inside)),
        written size (Nat.lt_succ_self size), BitVec.toNat_ofNat, pow_succ 256 size, Nat.mod_mul]

theorem flatMap_get {Item : Type} (parts : Item → List Byte) (length : Nat) (items : List Item)
    (equal : ∀ item ∈ items, (parts item).length = length) (row place : Nat) (item : Item)
    (here : items[row]? = some item) (inside : place < length) :
    (items.flatMap parts)[row * length + place]? = (parts item)[place]? := by
  induction items generalizing row with
  | nil =>
      rw [List.getElem?_nil] at here
      cases here
  | cons first items ih =>
      have firstLength := equal first List.mem_cons_self
      rw [List.flatMap_cons]
      cases row with
      | zero =>
          rw [List.getElem?_cons_zero] at here
          rw [Nat.zero_mul, Nat.zero_add, ← Option.some.inj here,
            List.getElem?_append_left (by rwa [firstLength])]
      | succ row =>
          rw [List.getElem?_cons_succ] at here
          have split : (row + 1) * length + place = (parts first).length + (row * length + place) := by
            rw [Nat.succ_mul, firstLength]
            omega
          rw [split, List.getElem?_append_right (Nat.le_add_right _ _), Nat.add_sub_cancel_left]
          exact ih (fun other member => equal other (List.mem_cons_of_mem first member)) row here

structure Stream where
  bytes : List Byte
  position : Nat

/-- `fread` of one object of `size` bytes: what the file still has goes into it. -/
def fread (size : Nat) (object : Nat → Byte) (stream : Stream) : (Nat → Byte) × Stream :=
  (fun k => if k < size then (stream.bytes[stream.position + k]?).getD (object k) else object k,
    { stream with position := stream.position + min size (stream.bytes.length - stream.position) })

/-- `fseek` from the start, which refuses a negative offset. -/
def fseek (offset : Int) (stream : Stream) : Stream :=
  if offset < 0 then stream else { stream with position := offset.toNat }

theorem fread_complete (size : Nat) (object : Nat → Byte) (stream : Stream)
    (enough : stream.position + size ≤ stream.bytes.length) :
    (fread size object stream).2 = { stream with position := stream.position + size } ∧
      ∀ k < size, stream.bytes[stream.position + k]? = some ((fread size object stream).1 k) := by
  constructor
  · rw [fread, Nat.min_eq_left (by omega)]
  · intro k inside
    have within : stream.position + k < stream.bytes.length := by omega
    rw [fread]
    dsimp only
    rw [if_pos inside, List.getElem?_eq_getElem within, Option.getD_some]

section

variable {Field : Type} (size : Field → Nat)

def recordSize : List Field → Nat
  | [] => 0
  | field :: fields => size field + recordSize fields

def encodeFields (fields : List Field) (value : Field → Nat) : List Byte :=
  fields.flatMap (fun field => encode (size field) (value field))

theorem encodeFields_length (fields : List Field) (value : Field → Nat) :
    (encodeFields size fields value).length = recordSize size fields := by
  induction fields with
  | nil => rfl
  | cons first fields ih =>
      rw [encodeFields, List.flatMap_cons, List.length_append, encode_length, recordSize, ← ih]
      rfl

variable [DecidableEq Field]

def readFields : List Field → (Field → Nat → Byte) → Stream → (Field → Nat → Byte) × Stream
  | [], record, stream => (record, stream)
  | field :: fields, record, stream =>
      let (object, rest) := fread (size field) (record field) stream
      readFields fields (Function.update record field object) rest

def offset : List Field → Field → Nat
  | [], _field => 0
  | first :: fields, field => if first = field then 0 else size first + offset fields field

theorem offset_self (field : Field) (fields : List Field) :
    offset size (field :: fields) field = 0 := by
  rw [offset, if_pos rfl]

theorem offset_cons (first field : Field) (fields : List Field) (different : first ≠ field) :
    offset size (first :: fields) field = size first + offset size fields field := by
  rw [offset, if_neg different]

private theorem readFields_other (fields : List Field) (record : Field → Nat → Byte) (stream : Stream)
    (field : Field) (absent : field ∉ fields) :
    (readFields size fields record stream).1 field = record field := by
  induction fields generalizing record stream with
  | nil => rfl
  | cons first fields ih =>
      obtain ⟨different, later⟩ := not_or.mp (mt List.mem_cons.mpr absent)
      rw [readFields]
      dsimp only
      rw [ih _ _ later, Function.update_of_ne different]

theorem readFields_complete (fields : List Field) (distinct : fields.Nodup)
    (record : Field → Nat → Byte) (stream : Stream)
    (enough : stream.position + recordSize size fields ≤ stream.bytes.length) :
    (readFields size fields record stream).2 =
        { stream with position := stream.position + recordSize size fields } ∧
      ∀ field ∈ fields, ∀ k < size field,
        stream.bytes[stream.position + offset size fields field + k]? =
          some ((readFields size fields record stream).1 field k) := by
  induction fields generalizing record stream with
  | nil =>
      refine ⟨rfl, ?_⟩
      intro field member
      cases member
  | cons first fields ih =>
      obtain ⟨firstAbsent, restDistinct⟩ := List.nodup_cons.mp distinct
      rw [recordSize] at enough
      obtain ⟨moved, got⟩ := fread_complete (size first) (record first) stream (by omega)
      rw [readFields]
      dsimp only
      rw [moved]
      obtain ⟨finalStream, each⟩ := ih restDistinct
        (Function.update record first (fread (size first) (record first) stream).1)
        { stream with position := stream.position + size first } (by dsimp only; omega)
      constructor
      · rw [finalStream, recordSize, Nat.add_assoc]
      · intro field member k inside
        by_cases isFirst : field = first
        · rw [isFirst] at inside ⊢
          rw [offset_self, Nat.add_zero, readFields_other size fields _ _ first firstAbsent,
            Function.update_self]
          exact got k inside
        · have later := each field (List.mem_of_ne_of_mem isFirst member) k inside
          rw [offset_cons size first field fields (Ne.symm isFirst), ← Nat.add_assoc]
          exact later

theorem encodeFields_get (fields : List Field) (value : Field → Nat) (field : Field)
    (member : field ∈ fields) (k : Nat) (inside : k < size field) :
    (encodeFields size fields value)[offset size fields field + k]? =
      some (BitVec.ofNat 8 (value field / 256 ^ k)) := by
  induction fields with
  | nil => cases member
  | cons first fields ih =>
      rw [encodeFields, List.flatMap_cons]
      by_cases isFirst : field = first
      · rw [← isFirst, offset_self, Nat.zero_add,
          List.getElem?_append_left (by rw [encode_length]; exact inside)]
        exact encode_get _ _ k inside
      · rw [offset_cons size first field fields (Ne.symm isFirst), Nat.add_assoc,
          List.getElem?_append_right (by rw [encode_length]; exact Nat.le_add_right _ _),
          encode_length, Nat.add_sub_cancel_left]
        exact ih (List.mem_of_ne_of_mem isFirst member)

end

end ByteStream
