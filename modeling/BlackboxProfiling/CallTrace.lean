import Mathlib.Data.List.Pairwise

/-!
Well-nested executions. A call carries the proof that control comes back to the place
its caller named, so an ill-nested execution cannot be built. The events of an
execution are numbered, and a return names the number of the entry it belongs to.
-/

namespace CallTrace

variable {μ α : Type} {place link : μ → α}

/-- What is left of an activation: the moments until it ends. -/
inductive Trace (place link : μ → α) : Type where
  | done
  | step (now : μ) (rest : Trace place link)
  | call (entered : μ) (body : Trace place link) (back : μ)
      (returns : place back = link entered) (rest : Trace place link)

inductive Kind where
  | step
  | enter
  | leave (opened : Nat)
  deriving DecidableEq, Repr

structure Occurrence (μ : Type) where
  kind : Kind
  now : μ

def Trace.events (offset : Nat) : Trace place link → List (Occurrence μ)
  | .done => []
  | .step now rest => ⟨.step, now⟩ :: rest.events (offset + 1)
  | .call entered body back _returns rest =>
      ⟨.enter, entered⟩ :: (body.events (offset + 1) ++
        ⟨.leave offset, back⟩ ::
          rest.events (offset + 1 + (body.events (offset + 1)).length + 1))

theorem Trace.exists_leave (trace : Trace place link) (offset start : Nat) (entered : μ)
    (enters : (trace.events offset)[start]? = some ⟨.enter, entered⟩) :
    ∃ close back, start < close ∧
      (trace.events offset)[close]? = some ⟨.leave (offset + start), back⟩ ∧
      place back = link entered := by
  induction trace generalizing offset start with
  | done => cases enters
  | step now rest ih =>
      cases start with
      | zero => cases enters
      | succ start =>
          obtain ⟨close, back, after, leaves, returns⟩ := ih (offset + 1) start enters
          refine ⟨close + 1, back, Nat.succ_lt_succ after, ?_, returns⟩
          rw [events, List.getElem?_cons_succ, leaves, Nat.add_right_comm, Nat.add_assoc]
  | call opening body landing returns rest bodyIh restIh =>
      rw [events] at enters ⊢
      generalize bodyLength : (body.events (offset + 1)).length = length at enters ⊢
      cases start with
      | zero =>
          cases enters
          refine ⟨length + 1, landing, Nat.succ_pos length, ?_, returns⟩
          rw [List.getElem?_cons_succ, List.getElem?_append_right (Nat.le_of_eq bodyLength),
            bodyLength, Nat.sub_self]
          rfl
      | succ start =>
          rw [List.getElem?_cons_succ] at enters
          by_cases inBody : start < length
          · rw [List.getElem?_append_left (by omega)] at enters
            obtain ⟨close, back, after, leaves, lands⟩ := bodyIh (offset + 1) start enters
            have inside : close < length := by
              rw [← bodyLength]
              exact (List.getElem?_eq_some_iff.mp leaves).1
            refine ⟨close + 1, back, Nat.succ_lt_succ after, ?_, lands⟩
            rw [List.getElem?_cons_succ, List.getElem?_append_left (by omega), leaves,
              Nat.add_right_comm, Nat.add_assoc]
          · rw [List.getElem?_append_right (by omega), bodyLength] at enters
            obtain ⟨past, rfl⟩ : ∃ past, start = length + past := ⟨start - length, by omega⟩
            rw [Nat.add_sub_cancel_left] at enters
            cases past with
            | zero => cases enters
            | succ past =>
                obtain ⟨close, back, after, leaves, lands⟩ := restIh _ past enters
                refine ⟨length + close + 2, back, by omega, ?_, lands⟩
                rw [List.getElem?_cons_succ, List.getElem?_append_right (by omega), bodyLength,
                  show length + close + 1 - length = close + 1 by omega, List.getElem?_cons_succ,
                  leaves]
                congr 3
                omega

theorem Trace.leave_bounds (trace : Trace place link) (offset : Nat) (event : Occurrence μ)
    (member : event ∈ trace.events offset) (opened : Nat) (leaves : event.kind = .leave opened) :
    offset ≤ opened ∧ opened < offset + (trace.events offset).length := by
  induction trace generalizing offset with
  | done => cases member
  | step now rest ih =>
      rw [events, List.length_cons]
      rcases List.mem_cons.mp member with rfl | later
      · cases leaves
      · have bounds := ih (offset + 1) later
        omega
  | call opening body landing returns rest bodyIh restIh =>
      rw [events, List.length_cons, List.length_append, List.length_cons]
      rcases List.mem_cons.mp member with rfl | later
      · cases leaves
      · rcases List.mem_append.mp later with inBody | behind
        · have bounds := bodyIh (offset + 1) inBody
          omega
        · rcases List.mem_cons.mp behind with rfl | after
          · cases leaves
            omega
          · have bounds := restIh _ after
            omega

/-- Two events are not returns from the same entry. -/
def Apart (left right : Occurrence μ) : Prop :=
  ∀ opened, left.kind = .leave opened → right.kind ≠ .leave opened

theorem Trace.events_apart (trace : Trace place link) (offset : Nat) :
    (trace.events offset).Pairwise Apart := by
  induction trace generalizing offset with
  | done => exact List.Pairwise.nil
  | step now rest ih =>
      apply List.Pairwise.cons _ (ih (offset + 1))
      intro event _member opened impossible
      cases impossible
  | call opening body landing returns rest bodyIh restIh =>
      apply List.Pairwise.cons
      · intro event _member opened impossible
        cases impossible
      · apply List.pairwise_append.mpr
        refine ⟨bodyIh (offset + 1), List.Pairwise.cons ?_ (restIh _), ?_⟩
        · intro event member opened leaves again
          cases leaves
          have bounds := rest.leave_bounds _ event member offset again
          omega
        · intro inside insideMember outside outsideMember opened leaves again
          have insideBounds := body.leave_bounds (offset + 1) inside insideMember opened leaves
          rcases List.mem_cons.mp outsideMember with rfl | after
          · cases again
            omega
          · have bounds := rest.leave_bounds _ outside after opened again
            omega

theorem Trace.leave_unique (trace : Trace place link) (offset opened : Nat) (left right : Nat)
    (leftBack rightBack : μ)
    (atLeft : (trace.events offset)[left]? = some ⟨.leave opened, leftBack⟩)
    (atRight : (trace.events offset)[right]? = some ⟨.leave opened, rightBack⟩) :
    left = right := by
  obtain ⟨leftInside, leftHere⟩ := List.getElem?_eq_some_iff.mp atLeft
  obtain ⟨rightInside, rightHere⟩ := List.getElem?_eq_some_iff.mp atRight
  have apart := List.pairwise_iff_getElem.mp (trace.events_apart offset)
  have kinds (index : Nat) (inside : index < (trace.events offset).length) (back : μ)
      (here : (trace.events offset)[index] = ⟨.leave opened, back⟩) :
      (trace.events offset)[index].kind = .leave opened := by rw [here]
  rcases Nat.lt_trichotomy left right with before | same | after
  · exact absurd (kinds right rightInside rightBack rightHere)
      (apart left right leftInside rightInside before opened
        (kinds left leftInside leftBack leftHere))
  · exact same
  · exact absurd (kinds left leftInside leftBack leftHere)
      (apart right left rightInside leftInside after opened
        (kinds right rightInside rightBack rightHere))

end CallTrace
