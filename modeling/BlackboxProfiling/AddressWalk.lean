import Mathlib.Logic.Function.Basic
import Mathlib.Data.List.Nodup

/-!
Walks over a finite list of addresses with a callback that may fail.

The selective walk rewrites one table entry for each selected address and folds
a shared value on the way. When the shared update is idempotent, the outcome at
an address depends on that address alone, not on the order of the walk.
-/

namespace AddressWalk

variable {α β γ σ ω : Type}

/-- Call the callback on each address in turn; a nonzero result ends the walk. -/
def walk (callback : α → σ → Int × σ) : List α → σ → Int × σ
  | [], state => (0, state)
  | address :: rest, state =>
      let result := callback address state
      if result.1 = 0 then walk callback rest result.2 else result

theorem walk_cons_of_zero (callback : α → σ → Int × σ) (address : α) (rest : List α)
    (state next : σ) (called : callback address state = (0, next)) :
    walk callback (address :: rest) state = walk callback rest next := by
  simp only [walk, called, if_true]

def logged (emit : α → σ → List ω) (callback : α → σ → Int × σ) (address : α)
    (state : σ × List ω) : Int × (σ × List ω) :=
  ((callback address state.1).1,
    ((callback address state.1).2, state.2 ++ emit address state.1))

def walkLog (emit : α → σ → List ω) (callback : α → σ → Int × σ) : List α → σ → List ω
  | [], _state => []
  | address :: rest, state =>
      let result := callback address state
      emit address state ++
        (if result.1 = 0 then walkLog emit callback rest result.2 else [])

theorem walk_logged (emit : α → σ → List ω) (callback : α → σ → Int × σ) (addresses : List α)
    (state : σ) (past : List ω) :
    walk (logged emit callback) addresses (state, past) =
      ((walk callback addresses state).1,
        ((walk callback addresses state).2, past ++ walkLog emit callback addresses state)) := by
  induction addresses generalizing state past with
  | nil => simp only [walk, walkLog, List.append_nil]
  | cons address rest ih =>
      by_cases called : (callback address state).1 = 0
      · simp only [walk, walkLog, logged, called, if_true, ih, List.append_assoc]
      · simp only [walk, walkLog, logged, called, if_false, List.append_nil]

variable [DecidableEq α]

def selectStep (selected : α → Bool) (share : γ → γ) (build : β → γ → β)
    (address : α) (state : (α → β) × γ) : Int × ((α → β) × γ) :=
  if selected address then
    (0, (Function.update state.1 address (build (state.1 address) (share state.2)),
      share state.2))
  else (0, state)

def selectTable (selected : α → Bool) (build : β → γ → β) (addresses : List α)
    (shared : γ) (table : α → β) : α → β :=
  fun address =>
    if address ∈ addresses ∧ selected address = true then build (table address) shared
    else table address

def selectShared (selected : α → Bool) (share : γ → γ) (addresses : List α)
    (shared : γ) : γ :=
  if addresses.any selected then share shared else shared

private theorem selectTable_cons_selected (selected : α → Bool) (build : β → γ → β)
    (address : α) (rest : List α) (shared : γ) (table : α → β)
    (fresh : address ∉ rest) (chosen : selected address = true) :
    selectTable selected build rest shared
        (Function.update table address (build (table address) shared)) =
      selectTable selected build (address :: rest) shared table := by
  funext other
  by_cases same : other = address
  · subst other
    simp only [selectTable, fresh, false_and, if_false, Function.update_self,
      List.mem_cons_self, chosen, and_self, if_true]
  · simp only [selectTable, Function.update_of_ne same, List.mem_cons, same, false_or]

private theorem selectTable_cons_skipped (selected : α → Bool) (build : β → γ → β)
    (address : α) (rest : List α) (shared : γ) (table : α → β)
    (skipped : selected address = false) :
    selectTable selected build rest shared table =
      selectTable selected build (address :: rest) shared table := by
  funext other
  by_cases same : other = address
  · subst other
    simp only [selectTable, skipped, Bool.false_eq_true, and_false, if_false]
  · simp only [selectTable, List.mem_cons, same, false_or]

/-- Outcome of a selective walk over distinct addresses: each selected entry is
built from its own old value and one and the same shared value. -/
theorem walk_selectStep (selected : α → Bool) (share : γ → γ) (build : β → γ → β)
    (idempotent : ∀ shared, share (share shared) = share shared)
    (addresses : List α) (distinct : addresses.Nodup) (table : α → β) (shared : γ) :
    walk (selectStep selected share build) addresses (table, shared) =
      (0, (selectTable selected build addresses (share shared) table,
        selectShared selected share addresses shared)) := by
  induction addresses generalizing table shared with
  | nil =>
      have unchanged : selectTable selected build [] (share shared) table = table := by
        funext address
        simp only [selectTable, List.not_mem_nil, false_and, if_false]
      rw [unchanged]
      rfl
  | cons address rest ih =>
      obtain ⟨fresh, restDistinct⟩ := List.nodup_cons.mp distinct
      cases chosen : selected address with
      | true =>
          have called : selectStep selected share build address (table, shared) =
              (0, (Function.update table address (build (table address) (share shared)),
                share shared)) := by
            simp only [selectStep, chosen, if_true]
          rw [walk_cons_of_zero _ _ _ _ _ called, ih restDistinct, idempotent,
            selectTable_cons_selected selected build address rest _ table fresh chosen]
          simp [selectShared, chosen, idempotent]
      | false =>
          have called : selectStep selected share build address (table, shared) =
              (0, (table, shared)) := by
            simp only [selectStep, chosen, Bool.false_eq_true, if_false]
          rw [walk_cons_of_zero _ _ _ _ _ called, ih restDistinct,
            selectTable_cons_skipped selected build address rest _ table chosen]
          simp [selectShared, chosen]

/-- In a selective walk over distinct addresses every callback finds its own entry
as it was before the walk, so the log is put together address by address. -/
theorem walkLog_selectStep (selected : α → Bool) (share : γ → γ) (build : β → γ → β)
    (idempotent : ∀ shared, share (share shared) = share shared)
    (emit : α → (α → β) × γ → List ω) (emitAt : α → β → γ → List ω)
    (localEmit : ∀ address table shared,
      emit address (table, shared) = emitAt address (table address) (share shared))
    (addresses : List α) (distinct : addresses.Nodup) (table : α → β) (shared : γ) :
    walkLog emit (selectStep selected share build) addresses (table, shared) =
      addresses.flatMap (fun address => emitAt address (table address) (share shared)) := by
  induction addresses generalizing table shared with
  | nil => rfl
  | cons address rest ih =>
      obtain ⟨fresh, restDistinct⟩ := List.nodup_cons.mp distinct
      rw [walkLog, localEmit, List.flatMap_cons]
      congr 1
      cases chosen : selected address with
      | true =>
          simp only [selectStep, chosen, if_true, ih restDistinct, idempotent]
          apply List.flatMap_congr
          intro other member
          have elsewhere : other ≠ address := by
            rintro rfl
            exact fresh member
          rw [Function.update_of_ne elsewhere]
      | false =>
          simp only [selectStep, chosen, Bool.false_eq_true, if_false, if_true, ih restDistinct]

end AddressWalk
