import BlackboxProfiling.GreedySelection
import BlackboxProfiling.SdVbs.SortIndices

/-!
`getANMS.c` of the tracking and the stitch benchmark: adaptive non-maximal suppression of
feature points. Both run the same loop over the points; they differ in the order they
bring the points into.
-/

namespace BlackboxProfiling.SdVbs.Anms

structure Point (V : Type) where
  x : V
  y : V
  v : V

/-- The constants of one version and the operations on `float`. -/
structure Settings (V : Type) where
  zero : V
  add : V → V → V
  sub : V → V → V
  mul : V → V → V
  cRobust : V
  limit : V
  rSq : V

section

variable {V : Type} [LinearOrder V] (settings : Settings V)

/-- `t + t1` for a point against the one chosen last. -/
def suppression (chosen point : Point V) : V :=
  let near :=
    if point.v ≤ settings.mul settings.cRobust chosen.v then
      let t := settings.sub point.x chosen.x
      let t1 := settings.sub point.y chosen.y
      settings.add (settings.mul t t) (settings.mul t1 t1)
    else settings.zero
  let far :=
    if settings.mul settings.cRobust chosen.v < point.v then settings.limit else settings.zero
  settings.add near far

def suppress (chosen point : Point V) (radius : V) : V :=
  if suppression settings chosen point < radius then suppression settings chosen point else radius

def candidatesFrom (rSq : V) : Nat → List V → List Nat
  | _i, [] => []
  | i, radius :: radii =>
      if rSq < radius then i :: candidatesFrom rSq (i + 1) radii
      else candidatesFrom rSq (i + 1) radii

structure State (V : Type) where
  interest : List (Point V)
  srtdPnts : List (Point V)
  suppressR : List V
  supId : List Nat

/-- A round of the loop: the first candidate is chosen, and the others go on with their
radii. An index outside the arrays is no result. -/
def inspect (first : Nat) (rest : List Nat) (state : State V) : Option (State V) := do
  let chosen ← state.srtdPnts[first]?
  let points ← rest.mapM (fun i => state.srtdPnts[i]?)
  let radii ← rest.mapM (fun i => state.suppressR[i]?)
  let suppressed := List.zipWith (suppress settings chosen) points radii
  return {
    interest := state.interest ++ [chosen]
    srtdPnts := points
    suppressR := suppressed
    supId := candidatesFrom settings.rSq 0 suppressed }

def inspectLoop : Nat → State V → Option (List (Point V))
  | 0, _state => none
  | fuel + 1, state =>
      match state.supId with
      | [] => some state.interest
      | first :: rest => (inspect settings first rest state).bind (inspectLoop fuel)

/-- The loop over points in their order. Without a candidate stitch returns an `interestPnts`
that it never set, and tracking reads indices that it never wrote. -/
def inspectAll (points : List (Point V)) : Option (List (Point V)) :=
  let suppressR := List.replicate points.length settings.limit
  let supId := candidatesFrom settings.rSq 0 suppressR
  if supId = [] then none else inspectLoop settings (points.length + 1) ⟨[], points, suppressR, supId⟩

def Tracking.getANMS (points : List (Point V)) : Option (List (Point V)) :=
  inspectAll settings points

def strengths (points : List (Point V)) : F2D V where
  width := 1
  height := points.length
  data i := (points[i]?).elim settings.zero Point.v

/-- `getANMS` of stitch, which sorts them along dimension 1. -/
def Stitch.getANMS (points : List (Point V)) : Option (List (Point V)) := do
  let srtdVIdx := fSortIndices (fun first second => decide (first < second)) settings.zero
    (strengths settings points) 1
  let srtdPnts ← (List.range points.length).mapM (fun i => points[srtdVIdx i 0]?)
  inspectAll settings srtdPnts

def isAbove {β : Type} (rSq : V) (both : β × V) : Bool := decide (rSq < both.2)

theorem mapM_candidatesFrom {β : Type} (rSq : V) (before items : List β) (radii : List V)
    (length : items.length = radii.length) :
    (candidatesFrom rSq before.length radii).mapM (fun i => (before ++ items)[i]?) =
      some (((items.zip radii).filter (isAbove rSq)).map Prod.fst) := by
  induction radii generalizing before items with
  | nil =>
      rw [List.length_eq_zero_iff.mp length]
      rfl
  | cons radius radii ih =>
      obtain ⟨item, items, rfl⟩ := List.exists_cons_of_length_eq_add_one length
      have later := ih (before ++ [item]) items (Nat.succ.inj length)
      rw [List.length_append, List.length_singleton, List.append_assoc, List.singleton_append] at later
      rw [candidatesFrom, List.zip_cons_cons]
      by_cases above : rSq < radius
      · have here : (before ++ item :: items)[before.length]? = some item := by
          rw [List.getElem?_append_right (Nat.le_refl _), Nat.sub_self, List.getElem?_cons_zero]
        have kept : isAbove rSq (item, radius) = true := decide_eq_true above
        rw [if_pos above, List.filter_cons_of_pos kept, List.mapM_cons, here, later]
        rfl
      · have dropped : ¬ isAbove rSq (item, radius) = true := mt of_decide_eq_true above
        rw [if_neg above, List.filter_cons_of_neg dropped, later]

private theorem candidatesFrom_nil_iff (rSq : V) (i : Nat) (radii : List V) :
    candidatesFrom rSq i radii = [] ↔ ∀ radius ∈ radii, ¬ rSq < radius := by
  induction radii generalizing i with
  | nil => exact iff_of_true rfl (fun radius none => absurd none List.not_mem_nil)
  | cons radius radii ih =>
      rw [candidatesFrom, List.forall_mem_cons]
      by_cases above : rSq < radius
      · rw [if_pos above]
        exact iff_of_false (List.cons_ne_nil _ _) (fun both => both.1 above)
      · rw [if_neg above, ih, and_iff_right above]

def State.live (rSq : V) (state : State V) : List (Point V × V) :=
  (state.srtdPnts.zip state.suppressR).filter (isAbove rSq)

def spares (chosen point : Point V) : Bool := decide (settings.rSq < suppression settings chosen point)

theorem suppress_above (chosen point : Point V) (radius : V) (above : settings.rSq < radius) :
    settings.rSq < suppress settings chosen point radius ↔ spares settings chosen point = true := by
  rw [suppress, spares, decide_eq_true_eq]
  split
  · exact Iff.rfl
  · rename_i notBelow
    exact iff_of_true above (lt_of_lt_of_le above (not_lt.mp notBelow))

private theorem live_suppressed (chosen : Point V) (live : List (Point V × V))
    (above : ∀ both ∈ live, settings.rSq < both.2) :
    (((live.map Prod.fst).zip (List.zipWith (suppress settings chosen) (live.map Prod.fst)
      (live.map Prod.snd))).filter (isAbove settings.rSq)).map Prod.fst =
        (live.map Prod.fst).filter (spares settings chosen) := by
  induction live with
  | nil => rfl
  | cons both live ih =>
      have later := ih (fun other member => above other (List.mem_cons_of_mem both member))
      have stays := suppress_above settings chosen both.1 both.2 (above both List.mem_cons_self)
      have isStays : isAbove settings.rSq (both.1, suppress settings chosen both.1 both.2) = true ↔
          spares settings chosen both.1 = true := decide_eq_true_iff.trans stays
      rw [List.map_cons, List.map_cons, List.zipWith_cons_cons, List.zip_cons_cons]
      cases spared : spares settings chosen both.1 with
      | true =>
          rw [List.filter_cons_of_pos (isStays.mpr spared), List.filter_cons_of_pos spared,
            List.map_cons, later]
      | false =>
          have notSpared : ¬ spares settings chosen both.1 = true := Bool.eq_false_iff.mp spared
          rw [List.filter_cons_of_neg (mt isStays.mp notSpared), List.filter_cons_of_neg notSpared,
            later]

structure Ready (rSq : V) (state : State V) : Prop where
  length : state.srtdPnts.length = state.suppressR.length
  supId : state.supId = candidatesFrom rSq 0 state.suppressR

private theorem Ready.points {rSq : V} {state : State V} (ready : Ready rSq state) :
    state.supId.mapM (fun i => state.srtdPnts[i]?) = some ((state.live rSq).map Prod.fst) := by
  rw [ready.supId]
  exact mapM_candidatesFrom rSq [] state.srtdPnts state.suppressR ready.length

private theorem Ready.radii {rSq : V} {state : State V} (ready : Ready rSq state) :
    state.supId.mapM (fun i => state.suppressR[i]?) = some ((state.live rSq).map Prod.snd) := by
  have read := mapM_candidatesFrom rSq [] state.suppressR state.suppressR rfl
  have same (points : List (Point V)) (radii : List V) (length : points.length = radii.length) :
      ((radii.zip radii).filter (isAbove rSq)).map Prod.fst =
        ((points.zip radii).filter (isAbove rSq)).map Prod.snd := by
    induction radii generalizing points with
    | nil =>
        rw [List.length_eq_zero_iff.mp length]
        rfl
    | cons radius radii ih =>
        obtain ⟨point, points, rfl⟩ := List.exists_cons_of_length_eq_add_one length
        have later := ih points (Nat.succ.inj length)
        rw [List.zip_cons_cons, List.zip_cons_cons]
        by_cases above : rSq < radius
        · have pointKept : isAbove rSq (point, radius) = true := decide_eq_true above
          have radiusKept : isAbove rSq (radius, radius) = true := decide_eq_true above
          rw [List.filter_cons_of_pos radiusKept, List.filter_cons_of_pos pointKept, List.map_cons,
            List.map_cons, later]
        · have pointDropped : ¬ isAbove rSq (point, radius) = true := mt of_decide_eq_true above
          have radiusDropped : ¬ isAbove rSq (radius, radius) = true := mt of_decide_eq_true above
          rw [List.filter_cons_of_neg radiusDropped, List.filter_cons_of_neg pointDropped, later]
  rw [ready.supId, State.live, ← same _ _ ready.length]
  exact read

theorem inspect_live (state : State V) (ready : Ready settings.rSq state) (first : Nat)
    (rest : List Nat) (supId : state.supId = first :: rest) :
    ∃ chosen others after, (state.live settings.rSq).map Prod.fst = chosen :: others ∧
      inspect settings first rest state = some after ∧ Ready settings.rSq after ∧
      after.interest = state.interest ++ [chosen] ∧
      (after.live settings.rSq).map Prod.fst = others.filter (spares settings chosen) := by
  have points := ready.points
  have radii := ready.radii
  have above : ∀ both ∈ state.live settings.rSq, settings.rSq < both.2 := by
    intro both member
    exact of_decide_eq_true (List.mem_filter.mp member).2
  rw [supId, List.mapM_cons] at points radii
  cases live : state.live settings.rSq with
  | nil =>
      rw [live] at points
      cases atFirst : state.srtdPnts[first]? with
      | none =>
          rw [atFirst] at points
          cases points
      | some chosen =>
          rw [atFirst] at points
          cases atRest : rest.mapM (fun i => state.srtdPnts[i]?) with
          | none =>
              rw [atRest] at points
              cases points
          | some others =>
              rw [atRest] at points
              cases points
  | cons both live' =>
      rw [live] at points radii above
      obtain ⟨chosen, atFirst, points⟩ := Option.bind_eq_some_iff.mp points
      obtain ⟨others, atRest, points⟩ := Option.bind_eq_some_iff.mp points
      obtain ⟨radius, _radiusAt, radii⟩ := Option.bind_eq_some_iff.mp radii
      obtain ⟨rest', radiiAt, radii⟩ := Option.bind_eq_some_iff.mp radii
      obtain ⟨isChosen, isOthers⟩ := List.cons.inj (Option.some.inj points)
      obtain ⟨_isRadius, isRest⟩ := List.cons.inj (Option.some.inj radii)
      have suppressed := live_suppressed settings chosen live'
        (fun other member => above other (List.mem_cons_of_mem both member))
      rw [← isOthers, ← isRest] at suppressed
      refine ⟨chosen, others, _, ?_, by rw [inspect, atFirst, atRest, radiiAt]; rfl, ?_, rfl, ?_⟩
      · rw [List.map_cons, isChosen, isOthers]
      · constructor
        case length =>
          rw [List.length_zipWith, isOthers, isRest, List.length_map, List.length_map, Nat.min_self]
        case supId => rfl
      · rw [State.live]
        exact suppressed

private theorem inspectLoop_selects (fuel : Nat) (state : State V) (ready : Ready settings.rSq state)
    (enough : (state.live settings.rSq).length < fuel) :
    inspectLoop settings fuel state =
      some (state.interest ++
        GreedySelection.selected (spares settings) ((state.live settings.rSq).map Prod.fst)) := by
  induction fuel generalizing state with
  | zero => exact absurd enough (Nat.not_lt_zero _)
  | succ fuel ih =>
      cases supId : state.supId with
      | nil =>
          have none := ready.points
          rw [supId] at none
          have noPoints : [] = (state.live settings.rSq).map Prod.fst := Option.some.inj none
          rw [inspectLoop, supId, ← noPoints, GreedySelection.selected_nil, List.append_nil]
      | cons first rest =>
          obtain ⟨chosen, others, after, live, inspected, nextReady, interest, nextLive⟩ :=
            inspect_live settings state ready first rest supId
          have fewer : (after.live settings.rSq).length < fuel := by
            have short := List.length_filter_le (spares settings chosen) others
            have here := congrArg List.length live
            have next := congrArg List.length nextLive
            rw [List.length_map, List.length_cons] at here
            rw [List.length_map] at next
            omega
          rw [inspectLoop, supId]
          dsimp only
          rw [inspected, Option.bind_some, ih after nextReady fewer, interest, nextLive, live,
            GreedySelection.selected_cons, List.append_assoc, List.singleton_append]

/-- Each point in turn is chosen if all chosen before it spare it. -/
theorem inspectAll_selects (points : List (Point V)) (nonempty : points ≠ [])
    (within : settings.rSq < settings.limit) :
    inspectAll settings points = some (GreedySelection.selected (spares settings) points) := by
  have some' : candidatesFrom settings.rSq 0 (List.replicate points.length settings.limit) ≠ [] := by
    intro none
    rw [candidatesFrom_nil_iff] at none
    refine none settings.limit (List.mem_replicate.mpr ⟨?_, rfl⟩) within
    intro empty
    exact nonempty (List.length_eq_zero_iff.mp empty)
  have all : State.live settings.rSq ⟨[], points, List.replicate points.length settings.limit,
      candidatesFrom settings.rSq 0 (List.replicate points.length settings.limit)⟩ =
        points.zip (List.replicate points.length settings.limit) := by
    apply List.filter_eq_self.mpr
    intro both member
    have radius := (List.of_mem_zip member).2
    rw [isAbove, (List.mem_replicate.mp radius).2]
    exact decide_eq_true within
  have length : points.length = (List.replicate points.length settings.limit).length :=
    (List.length_replicate).symm
  rw [inspectAll, if_neg some', inspectLoop_selects settings (points.length + 1) _ ⟨length, rfl⟩ (by
    rw [all, List.length_zip, List.length_replicate, Nat.min_self]
    exact Nat.lt_succ_self _), all, List.nil_append, List.map_fst_zip (Nat.le_of_eq length)]

private theorem spares_iff (chosen point : Point V) :
    spares settings chosen point = true ↔ settings.rSq < suppression settings chosen point :=
  decide_eq_true_iff

private theorem not_spares_iff (chosen point : Point V) :
    spares settings chosen point = false ↔ suppression settings chosen point ≤ settings.rSq := by
  rw [← Bool.not_eq_true, spares_iff, not_lt]

/-- In tracking, a point is kept exactly when every point kept before it leaves its radius
above `r_sq`; those kept stand in their order and the first point is always among them. -/
theorem Tracking.getANMS_greedy (points : List (Point V)) (nonempty : points ≠ [])
    (within : settings.rSq < settings.limit) :
    ∃ kept, Tracking.getANMS settings points = some kept ∧ kept.head? = points.head? ∧
      kept.Pairwise (fun earlier later => settings.rSq < suppression settings earlier later) ∧
      ∀ before point after, points = before ++ point :: after →
        ∃ earlier later, kept = earlier ++ later ∧ earlier.Sublist before ∧
          ((∀ other ∈ earlier, settings.rSq < suppression settings other point) ∧
              (∃ rest, later = point :: rest ∧ rest.Sublist after) ∨
            (∃ other ∈ earlier, suppression settings other point ≤ settings.rSq) ∧
              later.Sublist after) := by
  refine ⟨_, inspectAll_selects settings points nonempty within, ?_, ?_, ?_⟩
  · cases points with
    | nil => exact absurd rfl nonempty
    | cons first points =>
        rw [GreedySelection.selected_cons]
        rfl
  · apply (GreedySelection.selected_pairwise (spares settings) points).imp
    intro earlier later spared
    exact (spares_iff settings earlier later).mp spared
  · intro before point after split
    rw [split]
    rcases GreedySelection.selected_split (spares settings) before point after with
      ⟨rest, kept, sublist, spared⟩ | ⟨rest, kept, sublist, other, member, dropped⟩
    · refine ⟨_, point :: rest, kept, GreedySelection.selected_sublist _ before, Or.inl ⟨?_, rest, rfl, sublist⟩⟩
      intro other member
      exact (spares_iff settings other point).mp (spared other member)
    · refine ⟨_, rest, kept, GreedySelection.selected_sublist _ before, Or.inr ⟨⟨other, member, ?_⟩, sublist⟩⟩
      exact (not_spares_iff settings other point).mp dropped

def wholeSettings : Settings Int where
  zero := 0
  add first second := first + second
  sub first second := first - second
  mul first second := first * second
  cRobust := 1
  limit := 100000
  rSq := 4

theorem Tracking.getANMS_greedy_sample :
    ∃ kept, Tracking.getANMS wholeSettings [⟨0, 0, 9⟩, ⟨1, 1, 5⟩, ⟨5, 5, 3⟩, ⟨1, 0, 12⟩] = some kept ∧
      kept.Pairwise (fun earlier later => 4 < suppression wholeSettings earlier later) := by
  have within : wholeSettings.rSq < wholeSettings.limit := by decide
  obtain ⟨kept, result, _first, apart, _each⟩ := Tracking.getANMS_greedy wholeSettings
    [⟨0, 0, 9⟩, ⟨1, 1, 5⟩, ⟨5, 5, 3⟩, ⟨1, 0, 12⟩] (List.cons_ne_nil _ _) within
  exact ⟨kept, result, apart⟩

private theorem strengths_index (points : List (Point V)) (i : Nat) :
    fSortIndices (fun first second => decide (first < second)) settings.zero
      (strengths settings points) 1 i 0 = 0 :=
  Nat.lt_one_iff.mp (fSortIndices_lt (fun first second => decide (first < second)) settings.zero
    (strengths settings points) i 0 Nat.zero_lt_one)

/-- In stitch the sorted column has one entry a row, so every row is the first point: the
others have no influence, and the first is kept as often as there are points, or once. -/
theorem Stitch.getANMS_first (first : Point V) (points : List (Point V))
    (within : settings.rSq < settings.limit) :
    Stitch.getANMS settings (first :: points) =
      some (if settings.rSq < suppression settings first first then
        List.replicate (points.length + 1) first else [first]) := by
  have read (count : Nat) : (List.range count).mapM (fun i => (first :: points)[
      fSortIndices (fun first second => decide (first < second)) settings.zero
        (strengths settings (first :: points)) 1 i 0]?) = some (List.replicate count first) := by
    induction count with
    | zero => rfl
    | succ count ih =>
        rw [List.range_succ, List.mapM_append, ih, List.mapM_cons, strengths_index,
          List.replicate_succ']
        rfl
  have nonempty : List.replicate (points.length + 1) first ≠ [] := List.cons_ne_nil _ _
  rw [Stitch.getANMS, read, Option.bind_eq_bind, Option.bind_some, List.length_cons,
    inspectAll_selects settings _ nonempty within, GreedySelection.selected_replicate]
  rcases lt_or_ge settings.rSq (suppression settings first first) with above | notAbove
  · rw [if_pos above, if_pos ((spares_iff settings first first).mpr above)]
  · rw [if_neg (not_lt.mpr notAbove), (not_spares_iff settings first first).mpr notAbove]
    rfl

/-- The settings of stitch over tenths: a strength is not above nine tenths of itself. -/
def tenthSettings : Settings Int where
  zero := 0
  add first second := first + second
  sub first second := first - second
  mul first second := first * second / 10
  cRobust := 9
  limit := 10000000
  rSq := 576

theorem Stitch.getANMS_first_sample :
    Stitch.getANMS tenthSettings [⟨0, 0, 50⟩, ⟨900, 700, 40⟩, ⟨20, 500, 30⟩] =
      some [⟨0, 0, 50⟩, ⟨0, 0, 50⟩, ⟨0, 0, 50⟩] := by
  have within : tenthSettings.rSq < tenthSettings.limit := by decide
  have above : tenthSettings.rSq < suppression tenthSettings ⟨0, 0, 50⟩ ⟨0, 0, 50⟩ := by decide
  rw [Stitch.getANMS_first tenthSettings ⟨0, 0, 50⟩ [⟨900, 700, 40⟩, ⟨20, 500, 30⟩] within,
    if_pos above]
  rfl

end

end BlackboxProfiling.SdVbs.Anms
