import BlackboxProfiling.Functime.ProfilePhase
import BlackboxProfiling.Functime.TraceeSequence
import Mathlib.Algebra.Order.BigOperators.Group.List

/-!
The cost stored for a page. Each run of the tracee adds its elapsed ticks to one
32-bit total, which the loop divides as a signed number after the last run.
-/

namespace BlackboxProfiling.Functime

open EventRun

/-- One run of the tracee in a round, over its exec, entry and return stops; the
counter read at the last two may have wrapped around once in between. -/
structure SampleRun where
  pid : Nat
  exec : Arrival
  entry : Arrival
  exit : Arrival
  elapsed : Nat
  fits : elapsed < 0x100000000
  counted : exit.surroundings.cycles = entry.surroundings.cycles + BitVec.ofNat 32 elapsed

def SampleRun.tracee (kernelParams : BothMultiple.Params) (newRound : Bool) (sample : SampleRun) :
    TraceeRun :=
  { pid := sample.pid
    kernelParams := kernelParams
    newRound := newRound
    arrivals := [sample.exec, sample.entry, sample.exit] }

def roundRuns (kernelParams : BothMultiple.Params) : List SampleRun → List TraceeRun
  | [] => []
  | first :: rest =>
      first.tracee kernelParams true :: rest.map (SampleRun.tracee kernelParams false)

/-- `page[count].cycles`; both operands are signed. -/
def pageCycles (samples : Word) (sampleSize : Int) : Int := samples.toInt.tdiv sampleSize

theorem profileLoop_cycles (samples : Nat → Word) (sampleSize : Int) (heapSize count : Nat)
    (round : Round)
    (member : round ∈ profileLoop (fun page => (samples page).toInt) sampleSize heapSize count) :
    round.page.cycles = pageCycles (samples round.page.pageNumber.toNat) sampleSize := by
  induction count using
    profileLoop.induct (fun page => (samples page).toInt) sampleSize heapSize with
  | case1 count more ih =>
      rw [profileLoop, if_pos more] at member
      rcases List.mem_cons.mp member with rfl | later
      · rfl
      · exact ih later
  | case2 count more =>
      rw [profileLoop, if_neg more] at member
      rw [List.mem_singleton.mp member]
      rfl

private theorem traceeInit_some (tracer next : Tracer) (serial : Nat) (arrival : Arrival)
    (stage : tracer.stage = .init)
    (survived : (stopped tracer serial arrival).tracer = some next) :
    next.stage = .entry ∧ next.samples = tracer.samples := by
  unfold stopped handleTraceEvent at survived
  rw [stage] at survived
  rw [resume_tracer _ _ _ _ survived]
  exact ⟨rfl, rfl⟩

private theorem traceeEntry_times (tracer next : Tracer) (serial : Nat) (arrival : Arrival)
    (stage : tracer.stage = .entry)
    (survived : (stopped tracer serial arrival).tracer = some next) :
    next.stage = .exit ∧ next.samples = tracer.samples ∧
      next.tparams.tStart = arrival.surroundings.cycles := by
  unfold stopped handleTraceEvent at survived
  rw [stage] at survived
  obtain ⟨maps, same⟩ := traceeEntry_some tracer next _ _ _ survived
  rw [same] at survived
  rw [resume_tracer _ _ _ _ survived]
  exact ⟨rfl, rfl, rfl⟩

private theorem traceeExit_samples (tracer next : Tracer) (serial : Nat) (arrival : Arrival)
    (stage : tracer.stage = .exit)
    (survived : (stopped tracer serial arrival).tracer = some next) :
    next.stage = .init ∧
      next.samples = tracer.samples + (arrival.surroundings.cycles - tracer.tparams.tStart) := by
  unfold stopped handleTraceEvent at survived
  rw [stage] at survived
  rw [traceeExit_some tracer next _ _ _ survived] at survived
  rw [resume_tracer _ _ _ _ survived]
  exact ⟨rfl, rfl⟩

theorem run_samples (serial : Nat) (tracer next : Tracer) (sample : SampleRun)
    (stage : tracer.stage = .init)
    (survived : handleTraceeSignals serial tracer [sample.exec, sample.entry, sample.exit] =
      some next) :
    next.stage = .init ∧ next.samples = tracer.samples + BitVec.ofNat 32 sample.elapsed := by
  obtain ⟨last, ran, rfl⟩ := Option.map_eq_some_iff.mp survived
  change arrive serial (arrive serial (arrive serial (some tracer) sample.exec) sample.entry)
    sample.exit = some last at ran
  cases first : arrive serial (some tracer) sample.exec with
  | none =>
      rw [first] at ran
      cases ran
  | some armed =>
      cases second : arrive serial (some armed) sample.entry with
      | none =>
          rw [first, second] at ran
          cases ran
      | some started =>
          rw [first, second] at ran
          obtain ⟨armedStage, armedSamples⟩ := traceeInit_some tracer armed serial _ stage first
          obtain ⟨startedStage, startedSamples, start⟩ :=
            traceeEntry_times armed started serial _ armedStage second
          obtain ⟨lastStage, lastSamples⟩ :=
            traceeExit_samples started last serial _ startedStage ran
          refine ⟨lastStage, ?_⟩
          change last.samples = _
          rw [lastSamples, startedSamples, armedSamples, start, sample.counted,
            BitVec.add_comm sample.entry.surroundings.cycles, BitVec.add_sub_cancel]

private theorem laterRuns_samples (kernelParams : BothMultiple.Params) (serial : Nat)
    (tracer last : Tracer) (samples : List SampleRun) (stage : tracer.stage = .init)
    (survived : traceAll serial tracer (samples.map (SampleRun.tracee kernelParams false)) =
      some last) :
    last.samples = tracer.samples + BitVec.ofNat 32 (samples.map SampleRun.elapsed).sum := by
  induction samples generalizing serial tracer with
  | nil =>
      cases survived
      exact (BitVec.add_zero _).symm
  | cons sample rest ih =>
      simp only [List.map_cons, traceAll] at survived
      split at survived
      · cases survived
      · rename_i next handled
        obtain ⟨nextStage, nextSamples⟩ := run_samples serial
          (startTracee tracer (sample.tracee kernelParams false)) next sample stage handled
        have started : (startTracee tracer (sample.tracee kernelParams false)).samples =
          tracer.samples := rfl
        rw [ih (serial + 1) next nextStage survived, nextSamples, started, List.map_cons,
          List.sum_cons, BitVec.ofNat_add, BitVec.add_assoc]

private theorem round_samples (kernelParams : BothMultiple.Params) (serial : Nat) (tracer last : Tracer)
    (samples : List SampleRun) (nonempty : samples ≠ []) (stage : tracer.stage = .init)
    (survived : traceAll serial tracer (roundRuns kernelParams samples) = some last) :
    last.samples = BitVec.ofNat 32 (samples.map SampleRun.elapsed).sum := by
  cases samples with
  | nil => exact absurd rfl nonempty
  | cons first rest =>
      simp only [roundRuns, traceAll] at survived
      split at survived
      · cases survived
      · rename_i next handled
        obtain ⟨nextStage, nextSamples⟩ := run_samples serial
          (startTracee tracer (first.tracee kernelParams true)) next first stage handled
        have cleared : (startTracee tracer (first.tracee kernelParams true)).samples = 0 := rfl
        rw [laterRuns_samples kernelParams (serial + 1) next last rest nextStage survived,
          nextSamples, cleared, List.map_cons, List.sum_cons, BitVec.ofNat_add]
        congr 1
        exact BitVec.zero_add _

def totalElapsed (samples : List SampleRun) : Nat := (samples.map SampleRun.elapsed).sum

structure IsMean (samples : List SampleRun) (cycles : Int) : Prop where
  mean : cycles = (totalElapsed samples / samples.length : Nat)
  above : ∃ least ∈ samples, (least.elapsed : Int) ≤ cycles
  below : ∃ greatest ∈ samples, cycles ≤ greatest.elapsed

private theorem mean_between (samples : List SampleRun) (nonempty : samples ≠ []) :
    (∃ least ∈ samples, least.elapsed ≤ totalElapsed samples / samples.length) ∧
      ∃ greatest ∈ samples, totalElapsed samples / samples.length ≤ greatest.elapsed := by
  have count : 0 < samples.length := List.length_pos_of_ne_nil nonempty
  have constant (value : Nat) :
      (samples.map (fun _sample => value)).sum = samples.length * value := by
    rw [List.map_const', List.sum_replicate_nat]
  constructor
  · obtain ⟨least, member, less⟩ := List.exists_lt_of_sum_lt SampleRun.elapsed
      (fun _sample => totalElapsed samples / samples.length + 1)
      (by rw [constant]; exact Nat.lt_mul_div_succ (totalElapsed samples) count)
    exact ⟨least, member, Nat.lt_succ_iff.mp less⟩
  · exact List.exists_le_of_sum_le nonempty
      (fun _sample => totalElapsed samples / samples.length) SampleRun.elapsed
      (by rw [constant]; exact Nat.mul_div_le (totalElapsed samples) samples.length)

/-- The signed reading of a 32-bit total: the total itself below `2^31`, and less by
at least `2^32` from there on. -/
theorem toInt_total (total : Nat) :
    (total < 0x80000000 → (BitVec.ofNat 32 total).toInt = total) ∧
      (0x80000000 ≤ total → (BitVec.ofNat 32 total).toInt ≤ (total : Int) - 0x100000000) := by
  rw [BitVec.toInt_ofNat']
  constructor
  · intro small
    simp only [Int.bmod]
    omega
  · intro large
    simp only [Int.bmod]
    omega

theorem pageCycles_iff (total count : Nat) (positive : 0 < count) (int : count < 0x80000000) :
    pageCycles (BitVec.ofNat 32 total) count = (total / count : Nat) ↔ total < 0x80000000 := by
  obtain ⟨small, large⟩ := toInt_total total
  constructor
  · intro mean
    by_contra notSmall
    have less := large (Nat.not_lt.mp notSmall)
    rw [pageCycles] at mean
    generalize (BitVec.ofNat 32 total).toInt = samples at mean less
    rcases Int.lt_or_le samples 0 with negative | nonnegative
    · -- the quotient is not positive, and the mean of so large a total is
      have opposite : 0 ≤ (-samples).tdiv count :=
        Int.tdiv_nonneg (by omega) (Int.natCast_nonneg count)
      rw [Int.neg_tdiv] at opposite
      have some : 0 < total / count := Nat.div_pos (by omega) positive
      omega
    · -- the total lacks more than the divisor
      have enough : samples + 1 * count ≤ total := by omega
      have shifted := Int.ediv_le_ediv (Int.natCast_pos.mpr positive) enough
      rw [Int.add_mul_ediv_right samples 1 (Int.natCast_ne_zero.mpr (Nat.ne_of_gt positive))]
        at shifted
      rw [Int.tdiv_eq_ediv_of_nonneg nonnegative, Int.natCast_ediv] at mean
      omega
  · intro isSmall
    rw [pageCycles, small isSmall]
    rfl

/-- The cost stored after a round is the mean of its samples exactly when their sum
fits the signed total. -/
theorem stored_mean_iff (kernelParams : BothMultiple.Params) (serial : Nat)
    (tracer last : Tracer) (samples : List SampleRun) (nonempty : samples ≠ [])
    (int : samples.length < 0x80000000) (stage : tracer.stage = .init)
    (survived : traceAll serial tracer (roundRuns kernelParams samples) = some last) :
    IsMean samples (pageCycles last.samples samples.length) ↔
      totalElapsed samples < 0x80000000 := by
  have total : last.samples = BitVec.ofNat 32 (totalElapsed samples) :=
    round_samples kernelParams serial tracer last samples nonempty stage survived
  have quotient := pageCycles_iff (totalElapsed samples) samples.length
    (List.length_pos_of_ne_nil nonempty) int
  rw [total]
  constructor
  · intro isMean
    exact quotient.mp isMean.mean
  · intro fits
    obtain ⟨⟨least, leastMember, above⟩, greatest, greatestMember, below⟩ :=
      mean_between samples nonempty
    rw [quotient.mpr fits]
    exact ⟨rfl, ⟨least, leastMember, Int.ofNat_le.mpr above⟩,
      greatest, greatestMember, Int.ofNat_le.mpr below⟩

def sampleRun (elapsed : Nat) (fits : elapsed < 0x100000000) : SampleRun :=
  { pid := 7
    exec := sampleArrival
    entry := { sampleArrival with
               surroundings := { sampleArrival.surroundings with cycles := 0xfffffff0 } }
    exit := { sampleArrival with
              surroundings := { sampleArrival.surroundings with
                                cycles := 0xfffffff0 + BitVec.ofNat 32 elapsed } }
    elapsed := elapsed
    fits := fits
    counted := rfl }

theorem stored_mean_iff_sample :
    ∃ last, traceAll 0 sampleTracer (roundRuns sampleTracer.kernelParams
        [sampleRun 100 (by decide), sampleRun 201 (by decide)]) = some last ∧
      IsMean [sampleRun 100 (by decide), sampleRun 201 (by decide)]
        (pageCycles last.samples 2) := by
  obtain ⟨last, survived⟩ : ∃ last, traceAll 0 sampleTracer (roundRuns sampleTracer.kernelParams
      [sampleRun 100 (by decide), sampleRun 201 (by decide)]) = some last := ⟨_, rfl⟩
  exact ⟨last, survived, (stored_mean_iff sampleTracer.kernelParams 0 sampleTracer last
    [sampleRun 100 (by decide), sampleRun 201 (by decide)] (List.cons_ne_nil _ _) (by decide) rfl
    survived).mpr (by decide)⟩

/-- One sample of `2^31` ticks is stored as a negative cost. -/
theorem stored_mean_overflows :
    ∃ last, traceAll 0 sampleTracer (roundRuns sampleTracer.kernelParams
        [sampleRun 0x80000000 (by decide)]) = some last ∧
      pageCycles last.samples 1 = -0x80000000 ∧
      ¬ IsMean [sampleRun 0x80000000 (by decide)] (pageCycles last.samples 1) := by
  obtain ⟨last, survived⟩ : ∃ last, traceAll 0 sampleTracer (roundRuns sampleTracer.kernelParams
      [sampleRun 0x80000000 (by decide)]) = some last := ⟨_, rfl⟩
  have total := round_samples sampleTracer.kernelParams 0 sampleTracer last
    [sampleRun 0x80000000 (by decide)] (List.cons_ne_nil _ _) rfl survived
  have stored : pageCycles last.samples 1 = -0x80000000 := by
    rw [total]
    decide
  refine ⟨last, survived, stored, ?_⟩
  intro isMean
  obtain ⟨least, _member, above⟩ := isMean.above
  rw [stored] at above
  omega

end BlackboxProfiling.Functime
