import BlackboxProfiling.TextScan
import Mathlib.Data.BitVec

/-!
The cycle counts of the benchmarks: `timingUtils.h` reads a counter as two words, the
`photon` functions take the difference and print it.
-/

namespace BlackboxProfiling.SdVbs

open TextScan

/-- `cycleLo` and `cycleHi`, which the callers keep as entries 0 and 1 of an array. -/
structure Cycles where
  cycleLo : BitVec 32
  cycleHi : BitVec 32

/-- `magic_timing_begin` on AArch64 when `cntvct_el0` has reached `counter`. The branches of
the header for other processors do not get through the preprocessor. -/
def magicTimingBegin (counter : BitVec 64) : Cycles := ⟨counter.setWidth 32, 0⟩

def joined (cycles : Cycles) : BitVec 64 :=
  (cycles.cycleLo.setWidth 64) <<< 32 ||| cycles.cycleHi.setWidth 64

structure Elapsed where
  first : BitVec 32
  second : BitVec 32

def photonReportTiming (startCycles endCycles : Cycles) : Elapsed :=
  let diff := joined endCycles - joined startCycles
  ⟨(diff >>> 32).setWidth 32, (diff &&& 0xffffffff).setWidth 32⟩

def elapsedDigits (elapsed : Elapsed) : List Char :=
  if elapsed.second = 0 then Nat.toDigits 10 elapsed.first.toNat
  else Nat.toDigits 10 elapsed.second.toNat ++ Nat.toDigits 10 elapsed.first.toNat

def photonPrintTiming (elapsed : Elapsed) : List Char :=
  "Cycles elapsed\t\t- ".toList ++ elapsedDigits elapsed ++ "\n\n".toList

private theorem joined_toNat (cycles : Cycles) :
    (joined cycles).toNat = cycles.cycleLo.toNat * 2 ^ 32 + cycles.cycleHi.toNat := by
  have low := cycles.cycleHi.isLt
  have high := cycles.cycleLo.isLt
  rw [joined, BitVec.toNat_or, BitVec.toNat_shiftLeft, BitVec.toNat_setWidth, BitVec.toNat_setWidth,
    Nat.mod_eq_of_lt (by omega), Nat.mod_eq_of_lt (by omega), Nat.shiftLeft_eq,
    Nat.mod_eq_of_lt (by omega), ← Nat.shiftLeft_eq, ← Nat.shiftLeft_add_eq_or_of_lt low]

private theorem photonReportTiming_toNat (startCycles endCycles : Cycles) :
    (photonReportTiming startCycles endCycles).first.toNat =
        (joined endCycles - joined startCycles).toNat / 2 ^ 32 ∧
      (photonReportTiming startCycles endCycles).second.toNat =
        (joined endCycles - joined startCycles).toNat % 2 ^ 32 := by
  have wide := (joined endCycles - joined startCycles).isLt
  rw [photonReportTiming]
  generalize joined endCycles - joined startCycles = diff at *
  constructor
  · rw [BitVec.toNat_setWidth, BitVec.toNat_ushiftRight, Nat.shiftRight_eq_div_pow,
      Nat.mod_eq_of_lt (by omega)]
  · have mask : (0xffffffff : BitVec 64).toNat = 2 ^ 32 - 1 := rfl
    rw [BitVec.toNat_setWidth, BitVec.toNat_and, mask, Nat.and_two_pow_sub_one_eq_mod, Nat.mod_mod]

theorem upper_difference (start finish : Nat) (startSmall : start < 2 ^ 32)
    (finishSmall : finish < 2 ^ 32) :
    (2 ^ 64 - start * 2 ^ 32 + finish * 2 ^ 32) % 2 ^ 64 =
      (finish + 2 ^ 32 - start) % 2 ^ 32 * 2 ^ 32 := by
  rcases Nat.lt_or_ge finish start with borrow | plain
  · have low : (finish + 2 ^ 32 - start) % 2 ^ 32 = finish + 2 ^ 32 - start :=
      Nat.mod_eq_of_lt (by omega)
    rw [low]
    omega
  · have low : (finish + 2 ^ 32 - start) % 2 ^ 32 = finish - start := by omega
    rw [low]
    omega

/-- The first entry of the difference has the cycles up to a wrap, the second is zero. -/
theorem reported (start finish : BitVec 64) (forward : start.toNat ≤ finish.toNat) :
    (photonReportTiming (magicTimingBegin start) (magicTimingBegin finish)).first.toNat =
      (finish.toNat - start.toNat) % 2 ^ 32 ∧
    (photonReportTiming (magicTimingBegin start) (magicTimingBegin finish)).second.toNat = 0 := by
  obtain ⟨first, second⟩ :=
    photonReportTiming_toNat (magicTimingBegin start) (magicTimingBegin finish)
  have low : (finish.toNat % 2 ^ 32 + 2 ^ 32 - start.toNat % 2 ^ 32) % 2 ^ 32 =
      (finish.toNat - start.toNat) % 2 ^ 32 := by omega
  have upper := upper_difference (start.toNat % 2 ^ 32) (finish.toNat % 2 ^ 32)
    (Nat.mod_lt _ (Nat.two_pow_pos 32)) (Nat.mod_lt _ (Nat.two_pow_pos 32))
  have zero : (0 : BitVec 32).toNat = 0 := rfl
  rw [low] at upper
  rw [first, second, BitVec.toNat_sub, joined_toNat, joined_toNat]
  simp only [magicTimingBegin, BitVec.toNat_setWidth, zero, Nat.add_zero]
  rw [upper]
  omega

private theorem elapsedDigits_timing (start finish : BitVec 64) (forward : start.toNat ≤ finish.toNat) :
    elapsedDigits (photonReportTiming (magicTimingBegin start) (magicTimingBegin finish)) =
      Nat.toDigits 10 ((finish.toNat - start.toNat) % 2 ^ 32) := by
  obtain ⟨first, second⟩ := reported start finish forward
  have isZero : (photonReportTiming (magicTimingBegin start) (magicTimingBegin finish)).second = 0 :=
    BitVec.eq_of_toNat_eq second
  rw [elapsedDigits, if_pos isZero, first]

/-- What is printed for a run is a number, and it is that of the cycles exactly if these fit
into a word. -/
theorem photonPrintTiming_exact_iff (start finish : BitVec 64) (forward : start.toNat ≤ finish.toNat) :
    ∃ digits, photonPrintTiming (photonReportTiming (magicTimingBegin start)
        (magicTimingBegin finish)) =
          "Cycles elapsed\t\t- ".toList ++ digits ++ "\n\n".toList ∧
      (∀ letter ∈ digits, isDigitIn 10 letter = true) ∧
      (valueOf 10 digits = finish.toNat - start.toNat ↔
        finish.toNat - start.toNat < 2 ^ 32) := by
  refine ⟨_, rfl, ?_, ?_⟩
  · rw [elapsedDigits_timing start finish forward]
    exact toDigits_isDigitIn 10 _ (by decide) (by decide)
  · rw [elapsedDigits_timing start finish forward, valueOf_toDigits 10 _ (by decide) (by decide)]
    exact Nat.mod_eq_iff_lt (Nat.two_pow_pos 32).ne'

theorem photonPrintTiming_exact_iff_sample :
    ∃ digits, photonPrintTiming (photonReportTiming (magicTimingBegin 0xfffffff0)
        (magicTimingBegin 0x100000010)) =
          "Cycles elapsed\t\t- ".toList ++ digits ++ "\n\n".toList ∧ valueOf 10 digits = 32 := by
  obtain ⟨digits, printed, _decimal, exact⟩ :=
    photonPrintTiming_exact_iff 0xfffffff0 0x100000010 (by decide)
  exact ⟨digits, printed, exact.mpr (by decide)⟩

end BlackboxProfiling.SdVbs
