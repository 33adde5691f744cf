import Mathlib.Data.List.Basic

/-!
Runs of a deterministic step function over a list of events.

A property of every state reached is traded for a condition on every step: when
one step keeps the property exactly if the step fits, a whole run keeps it
exactly if all its steps do.
-/

namespace EventRun

variable {σ ε : Type}

def run (step : σ → ε → σ) (state : σ) (events : List ε) : σ := events.foldl step state

def Always (step : σ → ε → σ) (holds : σ → Prop) : σ → List ε → Prop
  | state, [] => holds state
  | state, event :: rest => holds state ∧ Always step holds (step state event) rest

def EachStep (step : σ → ε → σ) (fits : σ → ε → Prop) : σ → List ε → Prop
  | _state, [] => True
  | state, event :: rest => fits state event ∧ EachStep step fits (step state event) rest

theorem Always.head {step : σ → ε → σ} {holds : σ → Prop} {state : σ} {events : List ε}
    (always : Always step holds state events) : holds state := by
  cases events with
  | nil => exact always
  | cons event rest => exact always.1

theorem Always.last {step : σ → ε → σ} {holds : σ → Prop} {state : σ} {events : List ε}
    (always : Always step holds state events) : holds (run step state events) := by
  induction events generalizing state with
  | nil => exact always
  | cons event rest ih => exact ih always.2

instance EachStep.decidable (step : σ → ε → σ) (fits : σ → ε → Prop)
    [∀ state event, Decidable (fits state event)] :
    ∀ state events, Decidable (EachStep step fits state events)
  | _state, [] => isTrue trivial
  | state, event :: rest =>
      have := EachStep.decidable step fits (step state event) rest
      inferInstanceAs (Decidable (fits state event ∧ EachStep step fits (step state event) rest))

theorem eachStep_congr (step : σ → ε → σ) (fits suits : σ → ε → Prop)
    (same : ∀ state event, fits state event ↔ suits state event) (state : σ) (events : List ε) :
    EachStep step fits state events ↔ EachStep step suits state events := by
  induction events generalizing state with
  | nil => exact Iff.rfl
  | cons event rest ih => exact and_congr (same state event) (ih (step state event))

/-- Two systems that read the same events: where what is asked of a step is the same in
related states, and such a step keeps them related, it is the same of whole runs. -/
theorem eachStep_related {τ : Type} (step : σ → ε → σ) (other : τ → ε → τ)
    (fits : σ → ε → Prop) (suits : τ → ε → Prop) (related : σ → τ → Prop)
    (same : ∀ state image event, related state image → (fits state event ↔ suits image event))
    (kept : ∀ state image event, related state image → fits state event →
      related (step state event) (other image event))
    (state : σ) (image : τ) (initial : related state image) (events : List ε) :
    EachStep step fits state events ↔ EachStep other suits image events := by
  induction events generalizing state image with
  | nil => exact Iff.rfl
  | cons event rest ih =>
      have here := same state image event initial
      constructor
      · intro each
        obtain ⟨fit, later⟩ := each
        exact ⟨here.mp fit, (ih _ _ (kept state image event initial fit)).mp later⟩
      · intro each
        obtain ⟨suit, later⟩ := each
        have fit := here.mpr suit
        exact ⟨fit, (ih _ _ (kept state image event initial fit)).mpr later⟩

theorem run_append (step : σ → ε → σ) (state : σ) (first second : List ε) :
    run step state (first ++ second) = run step (run step state first) second :=
  List.foldl_append

theorem eachStep_append (step : σ → ε → σ) (fits : σ → ε → Prop) (state : σ)
    (first second : List ε) :
    EachStep step fits state (first ++ second) ↔
      EachStep step fits state first ∧ EachStep step fits (run step state first) second := by
  induction first generalizing state with
  | nil => exact (iff_of_eq (true_and _)).symm
  | cons event rest ih => exact Iff.trans (and_congr_right (fun _here => ih _)) and_assoc.symm

/-- The run rule. The invariant carries what the exactness of one step relies on. -/
theorem always_iff_eachStep (step : σ → ε → σ) (holds invariant : σ → Prop)
    (fits : σ → ε → Prop)
    (kept : ∀ state event, invariant state → invariant (step state event))
    (exact : ∀ state event, invariant state → holds state →
      (holds (step state event) ↔ fits state event))
    (state : σ) (initial : invariant state) (events : List ε) :
    Always step holds state events ↔ holds state ∧ EachStep step fits state events := by
  induction events generalizing state with
  | nil => exact (and_iff_left trivial).symm
  | cons event rest ih =>
      have later := ih (step state event) (kept state event initial)
      constructor
      · rintro ⟨here, always⟩
        exact ⟨here, (exact state event initial here).mp always.head, (later.mp always).2⟩
      · rintro ⟨here, fit, fits⟩
        exact ⟨here, later.mpr ⟨(exact state event initial here).mpr fit, fits⟩⟩

theorem always_of_eachStep (step : σ → ε → σ) (holds invariant : σ → Prop) (fits : σ → ε → Prop)
    (kept : ∀ state event, invariant state → fits state event → invariant (step state event))
    (enough : ∀ state, invariant state → holds state) (state : σ) (initial : invariant state)
    (events : List ε) (each : EachStep step fits state events) :
    Always step holds state events := by
  induction events generalizing state with
  | nil => exact enough state initial
  | cons event rest ih =>
      obtain ⟨fit, later⟩ := each
      exact ⟨enough state initial, ih (step state event) (kept state event initial fit) later⟩

/-- The state in which round `n` starts; none once the loop has been left. -/
def loopAt (step : σ → ε → Option σ) (state : σ) (events : Nat → ε) : Nat → Option σ
  | 0 => some state
  | n + 1 => (loopAt step state events n).bind (fun reached => step reached (events n))

theorem loopAt_earlier (step : σ → ε → Option σ) (state : σ) (events : Nat → ε) (later : Nat)
    (reached : σ) (running : loopAt step state events later = some reached) (earlier : Nat)
    (before : earlier ≤ later) : ∃ passed, loopAt step state events earlier = some passed := by
  induction later generalizing reached with
  | zero =>
      rw [Nat.le_zero.mp before]
      exact ⟨reached, running⟩
  | succ later ih =>
      rcases Nat.le_succ_iff.mp before with sooner | same
      · obtain ⟨passed, ran, _stepped⟩ := Option.bind_eq_some_iff.mp running
        exact ih passed ran sooner
      · rw [same]
        exact ⟨reached, running⟩

theorem loopAt_left (step : σ → ε → Option σ) (state : σ) (events : Nat → ε) (earlier : Nat)
    (left : loopAt step state events earlier = none) (later : Nat) (after : earlier ≤ later) :
    loopAt step state events later = none := by
  rw [Option.eq_none_iff_forall_ne_some]
  intro reached running
  obtain ⟨passed, ran⟩ := loopAt_earlier step state events later reached running earlier after
  rw [left] at ran
  cases ran

theorem loopAt_lastRound (step : σ → ε → Option σ) (state : σ) (events : Nat → ε) (n : Nat)
    (left : loopAt step state events n = none) :
    ∃ last reached, loopAt step state events last = some reached ∧
      step reached (events last) = none := by
  induction n with
  | zero => cases left
  | succ n ih =>
      cases ran : loopAt step state events n with
      | none => exact ih ran
      | some reached =>
          refine ⟨n, reached, ran, ?_⟩
          rw [loopAt, ran] at left
          exact left

structure Logged (ε α : Type) where
  events : List ε
  left : Option α

variable {α β : Type}

def Logged.bind (first : Logged ε α) (next : α → Logged ε β) : Logged ε β :=
  match first.left with
  | none => ⟨first.events, none⟩
  | some value => ⟨first.events ++ (next value).events, (next value).left⟩

def Logged.All (holds : ε → Prop) (program : Logged ε α) : Prop :=
  ∀ event ∈ program.events, holds event

theorem Logged.all_bind (holds : ε → Prop) (first : Logged ε α) (next : α → Logged ε β) :
    (first.bind next).All holds ↔
      first.All holds ∧ ∀ value, first.left = some value → (next value).All holds := by
  unfold bind
  cases left : first.left with
  | none =>
      constructor
      · intro all
        refine ⟨all, ?_⟩
        intro value absent
        cases absent
      · intro all
        exact all.1
  | some value =>
      constructor
      · intro all
        constructor
        · intro event member
          exact all event (List.mem_append_left _ member)
        · intro other same event member
          cases same
          exact all event (List.mem_append_right _ member)
      · intro all event member
        rcases List.mem_append.mp member with early | late
        · exact all.1 event early
        · exact all.2 value rfl event late

theorem Logged.bind_left (first : Logged ε α) (next : α → Logged ε β) :
    (first.bind next).left = first.left.bind (fun value => (next value).left) := by
  unfold bind
  cases first.left <;> rfl

end EventRun
