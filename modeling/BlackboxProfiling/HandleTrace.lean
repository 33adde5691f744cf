import Mathlib.Data.List.Basic

/-!
Traces of handles that are opened, used and closed. A session opens a handle, uses it
and closes it; sessions of different handles, one after the other, keep all the rules.
-/

namespace HandleTrace

variable {κ : Type}

inductive Event (κ : Type) where
  | opened (handle : κ)
  | used (handle : κ)
  | closed (handle : κ)
  deriving DecidableEq, Repr

def Event.handle : Event κ → κ
  | .opened handle | .used handle | .closed handle => handle

def UsedWhileOpen (trace : List (Event κ)) : Prop :=
  ∀ before handle after, trace = before ++ .used handle :: after →
    .opened handle ∈ before ∧ .closed handle ∉ before

def ClosedOnce [DecidableEq κ] (trace : List (Event κ)) : Prop :=
  ∀ handle, .opened handle ∈ trace → trace.count (.closed handle) = 1

def OneAtATime (trace : List (Event κ)) : Prop :=
  ∀ before handle after, trace = before ++ .opened handle :: after →
    ∀ earlier, .opened earlier ∈ before → .closed earlier ∈ before

def Apart (first second : List (Event κ)) : Prop :=
  ∀ early ∈ first, ∀ late ∈ second, early.handle ≠ late.handle

theorem append_split (first second before after : List (Event κ)) (event : Event κ)
    (split : first ++ second = before ++ event :: after) :
    (∃ rest, first = before ++ event :: rest) ∨
      ∃ front, before = first ++ front ∧ second = front ++ event :: after := by
  rcases List.append_eq_append_iff.mp split with ⟨front, inSecond, same⟩ | ⟨front, inFirst, same⟩
  · exact Or.inr ⟨front, inSecond, same⟩
  · cases front with
    | nil =>
        rw [List.append_nil] at inFirst
        exact Or.inr ⟨[], by rw [inFirst, List.append_nil], same.symm⟩
    | cons head rest =>
        obtain ⟨sameEvent, _sameRest⟩ := List.cons.inj same
        rw [← sameEvent] at inFirst
        exact Or.inl ⟨rest, inFirst⟩

def session (handle : κ) (uses : Nat) : List (Event κ) :=
  .opened handle :: (List.replicate uses (.used handle) ++ [.closed handle])

theorem mem_session (handle : κ) (uses : Nat) (event : Event κ)
    (member : event ∈ session handle uses) : event.handle = handle := by
  simp only [session, List.mem_cons, List.mem_append, List.mem_replicate, List.not_mem_nil,
    or_false] at member
  rcases member with same | same | same
  · rw [same]
    rfl
  · rw [same.2]
    rfl
  · rw [same]
    rfl

theorem usedWhileOpen_uses (handle : κ) (uses : Nat) (last : List (Event κ))
    (noUses : ∀ event ∈ last, ∀ other, event ≠ .used other) :
    UsedWhileOpen (.opened handle :: (List.replicate uses (.used handle) ++ last)) := by
  intro before used after split
  cases before with
  | nil => cases (List.cons.inj split).1
  | cons head front =>
      obtain ⟨sameHead, sameRest⟩ := List.cons.inj split
      rcases append_split _ _ _ _ _ sameRest with ⟨rest, inUses⟩ | ⟨other, _front, inLast⟩
      · have inFront (event : Event κ) (member : event ∈ front ++ Event.used used :: rest) :
            event = .used handle := by
          rw [← inUses] at member
          exact List.eq_of_mem_replicate member
        cases inFront (.used used) (List.mem_append_right _ List.mem_cons_self)
        constructor
        · rw [← sameHead]
          exact List.mem_cons_self
        · intro closed
          rcases List.mem_cons.mp closed with here | later
          · rw [← sameHead] at here
            cases here
          · cases inFront (.closed handle) (List.mem_append_left _ later)
      · have use : Event.used used ∈ last := by
          rw [inLast]
          exact List.mem_append_right _ List.mem_cons_self
        exact absurd rfl (noUses (.used used) use used)

theorem usedWhileOpen_session (handle : κ) (uses : Nat) : UsedWhileOpen (session handle uses) := by
  apply usedWhileOpen_uses
  intro event member other same
  rw [List.mem_singleton.mp member] at same
  cases same

theorem oneAtATime_session (handle : κ) (uses : Nat) : OneAtATime (session handle uses) := by
  intro before opened after split earlier early
  cases before with
  | nil => cases early
  | cons head front =>
      obtain ⟨_sameHead, sameRest⟩ := List.cons.inj split
      have member : Event.opened opened ∈ List.replicate uses (.used handle) ++ [.closed handle] := by
        rw [sameRest]
        exact List.mem_append_right _ List.mem_cons_self
      rcases List.mem_append.mp member with use | close
      · cases List.eq_of_mem_replicate use
      · cases List.mem_singleton.mp close

theorem allClosed_session (handle other : κ) (uses : Nat)
    (opened : .opened other ∈ session handle uses) : .closed other ∈ session handle uses := by
  have same : other = handle := mem_session handle uses _ opened
  rw [same]
  exact List.mem_cons_of_mem _ (List.mem_append_right _ List.mem_cons_self)

theorem session_apart (first second : κ) (different : first ≠ second) (early late : Nat) :
    Apart (session first early) (session second late) := by
  intro event member other otherMember same
  rw [mem_session first early event member, mem_session second late other otherMember] at same
  exact different same

theorem usedWhileOpen_append (first second : List (Event κ)) (apart : Apart first second)
    (firstKept : UsedWhileOpen first) (secondKept : UsedWhileOpen second) :
    UsedWhileOpen (first ++ second) := by
  intro before handle after split
  rcases append_split first second before after _ split with ⟨rest, inFirst⟩ |
    ⟨front, same, inSecond⟩
  · exact firstKept before handle rest inFirst
  · obtain ⟨opened, notClosed⟩ := secondKept front handle after inSecond
    rw [same]
    constructor
    · exact List.mem_append_right _ opened
    · intro closed
      rcases List.mem_append.mp closed with early | late
      · have used : Event.used handle ∈ second := by
          rw [inSecond]
          exact List.mem_append_right _ List.mem_cons_self
        exact apart _ early _ used rfl
      · exact notClosed late

theorem oneAtATime_append (first second : List (Event κ)) (firstKept : OneAtATime first)
    (allClosed : ∀ handle, .opened handle ∈ first → .closed handle ∈ first)
    (secondKept : OneAtATime second) : OneAtATime (first ++ second) := by
  intro before handle after split earlier early
  rcases append_split first second before after _ split with ⟨rest, inFirst⟩ |
    ⟨front, same, inSecond⟩
  · exact firstKept before handle rest inFirst earlier early
  · rw [same] at early ⊢
    rcases List.mem_append.mp early with inFirst | late
    · exact List.mem_append_left _ (allClosed earlier inFirst)
    · exact List.mem_append_right _ (secondKept front handle after inSecond earlier late)

section Count

variable [DecidableEq κ]

theorem closedOnce_session (handle : κ) (uses : Nat) : ClosedOnce (session handle uses) := by
  intro other opened
  have same : other = handle := mem_session handle uses _ opened
  subst same
  have none : (List.replicate uses (Event.used other)).count (.closed other) = 0 := by
    rw [List.count_eq_zero]
    intro member
    cases List.eq_of_mem_replicate member
  rw [session, List.count_cons_of_ne (by intro same; cases same), List.count_append, none,
    List.count_singleton_self]

theorem count_apart (trace : List (Event κ)) (event : Event κ)
    (apart : ∀ other ∈ trace, other.handle ≠ event.handle) : trace.count event = 0 := by
  rw [List.count_eq_zero]
  intro member
  exact apart event member rfl

theorem closedOnce_append (first second : List (Event κ)) (apart : Apart first second)
    (firstKept : ClosedOnce first) (secondKept : ClosedOnce second) :
    ClosedOnce (first ++ second) := by
  intro handle opened
  rw [List.count_append]
  rcases List.mem_append.mp opened with early | late
  · rw [firstKept handle early,
      count_apart second (.closed handle) (fun other member => (apart (.opened handle) early other member).symm)]
  · rw [secondKept handle late,
      count_apart first (.closed handle) (fun other member => apart other member (.opened handle) late)]

theorem closedOnce_used (trace : List (Event κ)) (handle : κ) (kept : ClosedOnce trace) :
    ClosedOnce (trace ++ [.used handle]) := by
  intro other opened
  have none : [Event.used handle].count (.closed other) = 0 := by
    rw [List.count_eq_zero]
    intro member
    cases List.mem_singleton.mp member
  rw [List.count_append, none]
  rcases List.mem_append.mp opened with early | last
  · exact kept other early
  · cases List.mem_singleton.mp last

end Count

end HandleTrace
