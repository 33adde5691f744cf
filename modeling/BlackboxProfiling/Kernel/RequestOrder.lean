import BlackboxProfiling.Kernel.FunctimeKernelModule

/-!
The requests of `vma_finder` against its cursor. The areas the modification is
applied to are recorded in order; the requests that are served are a sublist of
those made, and all of them only when the cursor never has to go back.
-/

namespace BlackboxProfiling.FunctimeKernelModule

def vmaFinderLoopTrace (gup : GetUserPages) (fuel : Nat) (cp : Params) :
    List Int → Nat → Mm → List Nat → Option (Mm × List Nat)
  | [], _count, mm, changed => some (mm, changed)
  | request :: rest, count, mm, changed =>
      match seekVma request (mm.mmap.length - count) count with
      | (none, next) => vmaFinderLoopTrace gup fuel cp rest next mm changed
      | (some index, next) =>
          match mm.mmap[index]? with
          | none => none
          | some vma =>
              match changeArea gup fuel (cacheabilityModifier cp) cp.pageAddr mm vma with
              | none => none
              | some after =>
                  vmaFinderLoopTrace gup fuel cp rest next after (changed ++ [index])

def vmaFinderTrace (gup : GetUserPages) (fuel : Nat) (cp : Params) (mm : Mm) :
    Option (Mm × List Nat) :=
  if mm.mmap = [] then none else vmaFinderLoopTrace gup fuel cp cp.vmaParam 0 mm []

private theorem vmaFinderLoopTrace_mm (gup : GetUserPages) (fuel : Nat) (cp : Params)
    (requests : List Int) (count : Nat) (mm : Mm) (changed : List Nat) :
    (vmaFinderLoopTrace gup fuel cp requests count mm changed).map Prod.fst =
      vmaFinderLoop gup fuel cp requests count mm := by
  induction requests generalizing count mm changed with
  | nil => rfl
  | cons request rest ih =>
      simp only [vmaFinderLoopTrace, vmaFinderLoop]
      rcases seekVma request (mm.mmap.length - count) count with ⟨_ | index, next⟩
      · exact ih next mm changed
      · dsimp only
        cases mm.mmap[index]? with
        | none => rfl
        | some vma =>
            dsimp only
            cases changeArea gup fuel (cacheabilityModifier cp) cp.pageAddr mm vma with
            | none => rfl
            | some after => exact ih next after (changed ++ [index])

theorem vmaFinderTrace_mm (gup : GetUserPages) (fuel : Nat) (cp : Params) (mm : Mm) :
    (vmaFinderTrace gup fuel cp mm).map Prod.fst = vmaFinder gup fuel cp mm := by
  unfold vmaFinderTrace vmaFinder
  split
  · rfl
  · exact vmaFinderLoopTrace_mm gup fuel cp cp.vmaParam 0 mm []

theorem changedMm_pageCounts (shouldSkip : Bool) (pages : List Int) (mm : Mm) (vma : Vma)
    (table : PageTable) (fuel : Nat) (enough : ∀ area ∈ mm.mmap, area.pageCount < fuel) :
    ∀ area ∈ (changedMm shouldSkip pages mm vma table).mmap, area.pageCount < fuel := by
  intro area member
  obtain ⟨before, present, rfl⟩ := List.mem_map.mp member
  rw [Vma.pageCount, Vma.protAt_vmStart, Vma.protAt_vmEnd]
  exact enough before present

theorem changedMm_length (shouldSkip : Bool) (pages : List Int) (mm : Mm) (vma : Vma)
    (table : PageTable) : (changedMm shouldSkip pages mm vma table).mmap.length = mm.mmap.length :=
  setProtAt_length vma.vmStart _ mm.mmap

theorem changeArea_served (gup : GetUserPages) (progresses : gup.Progresses) (fuel : Nat)
    (cp : Params) (mm : Mm) (enough : ∀ area ∈ mm.mmap, area.pageCount < fuel) (index : Nat)
    (inside : index < mm.mmap.length) :
    ∃ table, changeArea gup fuel (cacheabilityModifier cp) cp.pageAddr mm mm.mmap[index] =
      some (changedMm cp.shouldSkip cp.pageAddr mm mm.mmap[index] table) := by
  have member : mm.mmap[index] ∈ mm.mmap := List.getElem_mem inside
  obtain ⟨_ret, table, _populated, changed⟩ := changeArea_returns gup progresses fuel
    cp.shouldSkip cp.pageAddr mm mm.mmap[index] member (enough _ member)
  exact ⟨table, changed⟩

/-- Every request is looked for once; the loop returns, having changed the areas the
cursor stopped at. -/
theorem vmaFinderLoopTrace_served (gup : GetUserPages) (progresses : gup.Progresses) (fuel : Nat)
    (cp : Params) (requests : List Int) (count : Nat) (mm : Mm) (changed : List Nat)
    (enough : ∀ area ∈ mm.mmap, area.pageCount < fuel) :
    ∃ mm', vmaFinderLoopTrace gup fuel cp requests count mm changed =
      some (mm', changed ++ served mm.mmap.length requests count) := by
  induction requests generalizing count mm changed with
  | nil =>
      refine ⟨mm, ?_⟩
      simp only [vmaFinderLoopTrace, served, List.append_nil]
  | cons request rest ih =>
      cases sought : seekVma request (mm.mmap.length - count) count with
      | mk stop next =>
          cases stop with
          | none =>
              obtain ⟨mm', ran⟩ := ih next mm changed enough
              refine ⟨mm', ?_⟩
              simp only [vmaFinderLoopTrace, served, sought]
              exact ran
          | some index =>
              obtain ⟨_same, above, below, _next⟩ := seekVma_found request _ count index next sought
              have inside : index < mm.mmap.length := by omega
              have found : mm.mmap[index]? = some mm.mmap[index] := List.getElem?_eq_getElem inside
              obtain ⟨table, walked⟩ :=
                changeArea_served gup progresses fuel cp mm enough index inside
              obtain ⟨mm', ran⟩ := ih next
                (changedMm cp.shouldSkip cp.pageAddr mm mm.mmap[index] table) (changed ++ [index])
                (changedMm_pageCounts cp.shouldSkip cp.pageAddr mm _ table fuel enough)
              refine ⟨mm', ?_⟩
              simp only [vmaFinderLoopTrace, served, sought, found, walked]
              rw [ran, changedMm_length, List.append_assoc]
              rfl

private theorem served_sublist (mapCount : Nat) (requests : List Int) (count : Nat) :
    ((served mapCount requests count).map Int.ofNat).Sublist requests := by
  induction requests generalizing count with
  | nil => exact List.Sublist.refl []
  | cons request rest ih =>
      simp only [served]
      split
      · rename_i next _sought
        exact (ih next).cons request
      · rename_i index next sought
        obtain ⟨same, _above, _below, _next⟩ := seekVma_found request _ count index next sought
        rw [List.map_cons]
        change ((index : Int) :: _).Sublist _
        rw [same]
        exact (ih next).cons_cons request

private theorem served_increasing (mapCount : Nat) (requests : List Int) (count : Nat) :
    (served mapCount requests count).Pairwise (fun left right => left < right) := by
  induction requests generalizing count with
  | nil => exact List.Pairwise.nil
  | cons request rest ih =>
      simp only [served]
      split
      · rename_i next _sought
        exact ih next
      · rename_i index next sought
        obtain ⟨_same, _above, _below, rfl⟩ := seekVma_found request _ count index next sought
        apply List.Pairwise.cons _ (ih (index + 1))
        intro later member
        exact served_ge mapCount rest (index + 1) later member

private theorem served_all (mapCount : Nat) (requests : List Int) (count : Nat)
    (increasing : requests.Pairwise (fun left right => left < right))
    (inRange : ∀ request ∈ requests, (count : Int) ≤ request ∧ request < mapCount) :
    (served mapCount requests count).map Int.ofNat = requests := by
  induction requests generalizing count with
  | nil => rfl
  | cons request rest ih =>
      obtain ⟨first, restIncreasing⟩ := List.pairwise_cons.mp increasing
      obtain ⟨above, below⟩ := inRange request List.mem_cons_self
      obtain ⟨index, rfl⟩ : ∃ index : Nat, request = index := ⟨request.toNat, by omega⟩
      have sought := seekVma_hit index (mapCount - count) count (by omega) (by omega)
      have others : ∀ later ∈ rest, ((index + 1 : Nat) : Int) ≤ later ∧ later < mapCount := by
        intro later member
        have after := first later member
        exact ⟨by omega, (inRange later (List.mem_cons_of_mem _ member)).2⟩
      simp only [served, sought, List.map_cons, ih (index + 1) restIncreasing others]
      rfl

/-- All requests are served exactly when they are made in map order. -/
theorem served_perm_iff (mapCount : Nat) (requests : List Int)
    (inRange : ∀ request ∈ requests, 0 ≤ request ∧ request < mapCount) :
    ((served mapCount requests 0).map Int.ofNat).Perm requests ↔
      requests.Pairwise (fun left right => left < right) := by
  constructor
  · intro all
    have same := (served_sublist mapCount requests 0).eq_of_length all.length_eq
    rw [← same]
    apply (served_increasing mapCount requests 0).map
    intro left right before
    exact Int.ofNat_lt.mpr before
  · intro increasing
    rw [served_all mapCount requests 0 increasing inRange]

/-- The modification is applied to each requested area once and to no other. -/
def ServesRequests (gup : GetUserPages) (fuel : Nat) (cp : Params) (mm : Mm) : Prop :=
  ∃ mm' changed, vmaFinderTrace gup fuel cp mm = some (mm', changed) ∧
    (changed.map Int.ofNat).Perm cp.vmaParam

/-- Requests for areas the process has are all served exactly when the process has
an area and they are made in increasing order. -/
theorem servesRequests_iff (gup : GetUserPages) (progresses : gup.Progresses) (fuel : Nat)
    (cp : Params) (mm : Mm) (enough : ∀ area ∈ mm.mmap, area.pageCount < fuel)
    (inRange : ∀ request ∈ cp.vmaParam, 0 ≤ request ∧ request < mm.mmap.length) :
    ServesRequests gup fuel cp mm ↔
      mm.mmap ≠ [] ∧ cp.vmaParam.Pairwise (fun left right => left < right) := by
  obtain ⟨left, ran⟩ :=
    vmaFinderLoopTrace_served gup progresses fuel cp cp.vmaParam 0 mm [] enough
  constructor
  · rintro ⟨mm', changed, traced, all⟩
    unfold vmaFinderTrace at traced
    split at traced
    · cases traced
    · rename_i nonempty
      rw [ran] at traced
      cases traced
      exact ⟨nonempty, (served_perm_iff mm.mmap.length cp.vmaParam inRange).mp all⟩
  · rintro ⟨nonempty, increasing⟩
    refine ⟨left, served mm.mmap.length cp.vmaParam 0, ?_, ?_⟩
    · rw [vmaFinderTrace, if_neg nonempty, ran, List.nil_append]
    · exact (served_perm_iff mm.mmap.length cp.vmaParam inRange).mpr increasing

def sampleStack : Vma :=
  { vmStart := 0x20000
    vmEnd := 0x22000
    vmPageProt := sampleProt
    vmFlags := sampleHeap.vmFlags
    vmFile := false
    nonempty := Nat.lt_of_sub_eq_succ rfl
    bounded := Nat.lt_of_sub_eq_succ rfl
    startAligned := rfl
    endAligned := rfl }

def sampleAreas : Mm :=
  { sampleMm with
    mmap := [sampleHeap, sampleStack]
    sorted := List.pairwise_pair.mpr (Nat.le_of_ble_eq_true rfl) }

private theorem sampleAreas_pageCounts : ∀ area ∈ sampleAreas.mmap, area.pageCount < 8 := by
  decide

theorem servesRequests_iff_sample :
    ServesRequests (.faultIn id) 8 ⟨[0, 1], [2], true, 7⟩ sampleAreas :=
  (servesRequests_iff (.faultIn id) (GetUserPages.faultIn_progresses id) 8 ⟨[0, 1], [2], true, 7⟩
    sampleAreas sampleAreas_pageCounts (by decide)).mpr
    ⟨List.cons_ne_nil _ _, List.pairwise_pair.mpr (Int.zero_lt_one)⟩

theorem servesRequests_fails_backwards :
    ([1, 0] : List Int).Nodup ∧
      (∀ request ∈ ([1, 0] : List Int), 0 ≤ request ∧ request < sampleAreas.mmap.length) ∧
      served sampleAreas.mmap.length [1, 0] 0 = [1] ∧
      ¬ ServesRequests (.faultIn id) 8 ⟨[1, 0], [2], true, 7⟩ sampleAreas := by
  refine ⟨by decide, by decide, rfl, ?_⟩
  rintro ⟨mm', changed, traced, all⟩
  obtain ⟨left, ran⟩ := vmaFinderLoopTrace_served (.faultIn id)
    (GetUserPages.faultIn_progresses id) 8 ⟨[1, 0], [2], true, 7⟩ [1, 0] 0 sampleAreas []
    sampleAreas_pageCounts
  have nonempty : sampleAreas.mmap ≠ [] := List.cons_ne_nil _ _
  rw [vmaFinderTrace, if_neg nonempty] at traced
  have same : [] ++ served sampleAreas.mmap.length [1, 0] 0 = changed :=
    congrArg Prod.snd (Option.some.inj (ran.symm.trans traced))
  have length := all.length_eq
  rw [List.length_map, ← same] at length
  cases length

end BlackboxProfiling.FunctimeKernelModule
