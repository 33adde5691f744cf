import BlackboxProfiling.Kernel.AddressSpace

/-!
Faulting in the pages of a range, as both multi-page modules do before they walk
it. `__get_user_pages` belongs to the kernel and is a parameter: it may return
any result and drop the lock, but it touches entries only inside the requested
range. With `FOLL_WRITE` it takes a write fault at an entry that is write-protected,
which gives a page that others still map a frame of its own. The loop of
`__mm_populate_mod` itself is translated with all its exits.
-/

namespace BlackboxProfiling

structure GupFlags where
  touch : Bool
  populate : Bool
  write : Bool
  force : Bool
  deriving DecidableEq, Repr

structure GupResult where
  ret : Int
  locked : Bool
  pte : PageTable

/-- `__get_user_pages`; the first argument counts the calls. `shared` are the frames that
other page tables map too. -/
structure GetUserPages where
  run : Nat → Vma → Nat → Nat → GupFlags → PageTable → GupResult
  shared : Nat → Bool
  present_kept : ∀ call vma start nrPages flags table address,
    (table address).present = true →
      flags.write = false ∨ (table address).prot.rdonly = false →
      (run call vma start nrPages flags table).pte address = table address
  owned_kept : ∀ call vma start nrPages flags table address,
    (table address).present = true → shared (table address).pfn = false →
      ((run call vma start nrPages flags table).pte address).present = true ∧
        ((run call vma start nrPages flags table).pte address).pfn = (table address).pfn ∧
        ((run call vma start nrPages flags table).pte address).prot.memType =
          (table address).prot.memType
  outside_kept : ∀ call vma start nrPages flags table address,
    address < start ∨ start + nrPages * pageSize ≤ address ∨ address % pageSize ≠ 0 →
      (run call vma start nrPages flags table).pte address = table address

def faultPte (shared : Nat → Bool) (frame : Nat) (vma : Vma) (write : Bool) (pte : Pte) : Pte :=
  let fresh := pfnPte frame
    { vma.vmPageProt with present := true, rdonly := vma.vmPageProt.rdonly && !write }
  if pte.present then
    if write && pte.prot.rdonly then
      if shared pte.pfn then fresh
      else { pte with prot := { pte.prot with rdonly := false, dirty := true } }
    else pte
  else fresh

def GetUserPages.serve (shared : Nat → Bool) (frame : Nat → Nat) : GetUserPages where
  run := fun _call vma start nrPages flags table =>
    { ret := nrPages
      locked := true
      pte := fun address =>
        if start ≤ address ∧ address < start + nrPages * pageSize ∧ address % pageSize = 0 then
          faultPte shared (frame address) vma flags.write (table address)
        else table address }
  shared := shared
  present_kept := by
    intro call vma start nrPages flags table address present unfaulted
    have settled : (flags.write && (table address).prot.rdonly) = false := by
      rw [Bool.and_eq_false_iff]
      exact unfaulted
    dsimp only
    split
    · simp only [faultPte, present, settled, if_true, Bool.false_eq_true, if_false]
    · rfl
  owned_kept := by
    intro call vma start nrPages flags table address present owned
    dsimp only
    split
    · simp only [faultPte, present, owned, if_true, Bool.false_eq_true, if_false]
      split
      · exact ⟨present, rfl, rfl⟩
      · exact ⟨present, rfl, rfl⟩
    · exact ⟨present, rfl, rfl⟩
  outside_kept := by
    intro call vma start nrPages flags table address outside
    exact if_neg (fun inside => by omega)

def GetUserPages.faultIn (frame : Nat → Nat) : GetUserPages :=
  .serve (fun _pfn => false) frame

def populateVmaPageRange (gup : GetUserPages) (call : Nat) (vma : Vma)
    (start stop : Nat) (table : PageTable) : GupResult :=
  let flags : GupFlags :=
    { touch := true
      populate := true
      write := vma.vmFlags.write && !vma.vmFlags.shared
      force := vma.vmFlags.read || vma.vmFlags.write || vma.vmFlags.exec }
  gup.run call vma start ((stop - start) / pageSize) flags table

def findVma (mm : Mm) (address : Nat) : Nat :=
  mm.mmap.findIdx (fun vma => decide (address < vma.vmEnd))

/-- The area an iteration works on: looked up afresh when the lock was dropped,
else the current one, or its successor once `nstart` has passed it. -/
def populateArea (mm : Mm) (nstart current : Nat) (locked : Bool) : Nat :=
  if locked = false then findVma mm nstart
  else match mm.mmap[current]? with
    | none => current
    | some vma => if vma.vmEnd ≤ nstart then current + 1 else current

/-- The loop of `__mm_populate_mod`. `current` is the index of `vma`; it is read
only while `locked` is set. No result means the loop is still running. -/
def mmPopulateLoop (gup : GetUserPages) (mm : Mm) (stop : Nat) (ignoreErrors : Bool) :
    Nat → Nat → Nat → Nat → Bool → PageTable → Option (Int × PageTable)
  | 0, _call, _nstart, _current, _locked, _table => none
  | fuel + 1, call, nstart, current, locked, table =>
      if nstart < stop then
        let index := populateArea mm nstart current locked
        match mm.mmap[index]? with
        | none => some (0, table)
        | some vma =>
            if stop ≤ vma.vmStart then some (0, table)
            else
              let nend := min stop vma.vmEnd
              if vma.vmFlags.io || vma.vmFlags.pfnmap then
                mmPopulateLoop gup mm stop ignoreErrors fuel (call + 1) nend index true table
              else
                let first := max nstart vma.vmStart
                let result := populateVmaPageRange gup call vma first nend table
                if result.ret < 0 then
                  if ignoreErrors then
                    mmPopulateLoop gup mm stop ignoreErrors fuel (call + 1) nend index
                      result.locked result.pte
                  else some (result.ret, result.pte)
                else
                  mmPopulateLoop gup mm stop ignoreErrors fuel (call + 1)
                    (first + result.ret.toNat * pageSize) index result.locked result.pte
      else some (0, table)

def mmPopulateMod (gup : GetUserPages) (fuel : Nat) (mm : Mm) (start len : Nat)
    (ignoreErrors : Bool) : Option (Int × PageTable) :=
  mmPopulateLoop gup mm (start + len) ignoreErrors fuel 0 start 0 false mm.pte

/-- A call pins at least one page and no more than it was asked for, or fails. -/
def GetUserPages.Progresses (gup : GetUserPages) : Prop :=
  ∀ call vma start nrPages flags table, 0 < nrPages →
    (gup.run call vma start nrPages flags table).ret ≠ 0 ∧
      (gup.run call vma start nrPages flags table).ret ≤ nrPages

theorem GetUserPages.faultIn_progresses (frame : Nat → Nat) :
    (GetUserPages.faultIn frame).Progresses := by
  intro call vma start nrPages flags table positive
  constructor
  · exact Int.natCast_ne_zero.mpr (Nat.ne_of_gt positive)
  · exact Int.le_refl _

private theorem findVma_inside (mm : Mm) (index : Nat) (vma : Vma) (found : mm.mmap[index]? = some vma)
    (address : Nat) (low : vma.vmStart ≤ address) (high : address < vma.vmEnd) :
    findVma mm address = index := by
  obtain ⟨inside, here⟩ := List.getElem?_eq_some_iff.mp found
  rw [findVma, List.findIdx_eq inside]
  constructor
  · rw [here]
    exact decide_eq_true high
  · intro earlier before
    have ordered := List.pairwise_iff_getElem.mp mm.sorted earlier index (by omega) inside before
    rw [here] at ordered
    exact decide_eq_false (by omega)

private theorem populateArea_inside (mm : Mm) (index : Nat) (vma : Vma)
    (found : mm.mmap[index]? = some vma) (nstart current : Nat) (locked : Bool)
    (low : vma.vmStart ≤ nstart) (high : nstart < vma.vmEnd)
    (holds : locked = true → current = index) :
    populateArea mm nstart current locked = index := by
  cases locked with
  | false => exact findVma_inside mm index vma found nstart low high
  | true =>
      rw [holds rfl]
      simp only [populateArea, Bool.true_eq_false, if_false, found]
      exact if_neg (by omega)

theorem mmPopulateLoop_past (gup : GetUserPages) (mm : Mm) (stop : Nat) (ignoreErrors : Bool)
    (fuel call nstart current : Nat) (locked : Bool) (table : PageTable) (positive : 0 < fuel)
    (past : stop ≤ nstart) :
    mmPopulateLoop gup mm stop ignoreErrors fuel call nstart current locked table =
      some (0, table) := by
  cases fuel with
  | zero => cases positive
  | succ fuel => rw [mmPopulateLoop, if_neg (Nat.not_lt.mpr past)]

theorem mmPopulateLoop_inside (gup : GetUserPages) (mm : Mm) (index : Nat) (vma : Vma)
    (found : mm.mmap[index]? = some vma) (fuel call nstart current : Nat) (locked : Bool)
    (table : PageTable) (low : vma.vmStart ≤ nstart) (within : nstart < vma.vmEnd)
    (holds : locked = true → current = index) :
    mmPopulateLoop gup mm vma.vmEnd true (fuel + 1) call nstart current locked table =
      if vma.vmFlags.io || vma.vmFlags.pfnmap then
        mmPopulateLoop gup mm vma.vmEnd true fuel (call + 1) vma.vmEnd index true table
      else
        let result := populateVmaPageRange gup call vma nstart vma.vmEnd table
        if result.ret < 0 then
          mmPopulateLoop gup mm vma.vmEnd true fuel (call + 1) vma.vmEnd index result.locked
            result.pte
        else
          mmPopulateLoop gup mm vma.vmEnd true fuel (call + 1)
            (nstart + result.ret.toNat * pageSize) index result.locked result.pte := by
  have reached : ¬ vma.vmEnd ≤ vma.vmStart := Nat.not_le.mpr vma.nonempty
  have first : max nstart vma.vmStart = nstart := Nat.max_eq_left low
  rw [mmPopulateLoop, if_pos within,
    populateArea_inside mm index vma found nstart current locked low within holds]
  simp only [found, reached, if_false, if_true, Nat.min_self, first]

/-- The round is skipped, an error ends the work on the area, or the loop goes on behind the
pages that were pinned. -/
theorem mmPopulateLoop_round (gup : GetUserPages) (mm : Mm) (index : Nat) (vma : Vma)
    (found : mm.mmap[index]? = some vma) (fuel call nstart current : Nat) (locked : Bool)
    (table : PageTable) (low : vma.vmStart ≤ nstart) (within : nstart < vma.vmEnd)
    (holds : locked = true → current = index) (more : 0 < fuel) :
    mmPopulateLoop gup mm vma.vmEnd true (fuel + 1) call nstart current locked table =
      if vma.vmFlags.io || vma.vmFlags.pfnmap then some (0, table)
      else
        let result := populateVmaPageRange gup call vma nstart vma.vmEnd table
        if result.ret < 0 then some (0, result.pte)
        else mmPopulateLoop gup mm vma.vmEnd true fuel (call + 1)
          (nstart + result.ret.toNat * pageSize) index result.locked result.pte := by
  have done (state : Bool) (left : PageTable) := mmPopulateLoop_past gup mm vma.vmEnd true fuel
    (call + 1) vma.vmEnd index state left more (Nat.le_refl vma.vmEnd)
  rw [mmPopulateLoop_inside gup mm index vma found fuel call nstart current locked table low within
    holds]
  simp only [done]

private theorem mmPopulateLoop_returns (gup : GetUserPages) (progresses : gup.Progresses) (mm : Mm)
    (index : Nat) (vma : Vma) (found : mm.mmap[index]? = some vma)
    (fuel pages call nstart current : Nat) (locked : Bool) (table : PageTable)
    (rest : nstart + pages * pageSize = vma.vmEnd) (low : vma.vmStart ≤ nstart)
    (holds : locked = true → current = index) (enough : pages < fuel) :
    ∃ result, mmPopulateLoop gup mm vma.vmEnd true fuel call nstart current locked table =
      some result := by
  induction fuel generalizing pages call nstart current locked table with
  | zero => omega
  | succ fuel ih =>
      by_cases within : nstart < vma.vmEnd
      case neg =>
        exact ⟨_, mmPopulateLoop_past gup mm vma.vmEnd true (fuel + 1) call nstart current locked
          table (Nat.succ_pos fuel) (Nat.not_lt.mp within)⟩
      case pos =>
        have positive : 0 < pages := by
          rcases Nat.eq_zero_or_pos pages with none | some
          · rw [none, Nat.zero_mul] at rest
            omega
          · exact some
        have wanted : (vma.vmEnd - nstart) / pageSize = pages := by
          simp only [pageSize] at *
          omega
        rw [mmPopulateLoop_round gup mm index vma found fuel call nstart current locked table low
          within holds (by omega)]
        split
        · exact ⟨_, rfl⟩
        · dsimp only
          split
          · exact ⟨_, rfl⟩
          · rename_i noError
            obtain ⟨some, notMore⟩ := progresses call vma nstart ((vma.vmEnd - nstart) / pageSize)
              { touch := true, populate := true
                write := vma.vmFlags.write && !vma.vmFlags.shared
                force := vma.vmFlags.read || vma.vmFlags.write || vma.vmFlags.exec } table
              (by rw [wanted]; exact positive)
            change (populateVmaPageRange gup call vma nstart vma.vmEnd table).ret ≠ 0 at some
            change (populateVmaPageRange gup call vma nstart vma.vmEnd table).ret ≤ _ at notMore
            rw [wanted] at notMore
            refine ih
              (pages - (populateVmaPageRange gup call vma nstart vma.vmEnd table).ret.toNat)
              _ _ index _ _ ?_ (by omega) (fun _ => rfl) (by omega)
            simp only [pageSize] at rest ⊢
            omega

theorem mmPopulateMod_returns (gup : GetUserPages) (progresses : gup.Progresses) (mm : Mm)
    (vma : Vma) (member : vma ∈ mm.mmap) (fuel : Nat) (enough : vma.pageCount < fuel) :
    ∃ ret table,
      mmPopulateMod gup fuel mm vma.vmStart (vma.vmEnd - vma.vmStart) true = some (ret, table) := by
  obtain ⟨index, found⟩ := List.getElem?_of_mem member
  have nonempty := vma.nonempty
  have size := vma.size_eq
  rw [mmPopulateMod, Nat.add_sub_cancel' (Nat.le_of_lt nonempty)]
  obtain ⟨result, ran⟩ := mmPopulateLoop_returns gup progresses mm index vma found fuel
    vma.pageCount 0 vma.vmStart 0 false mm.pte (by rw [Nat.mul_comm]; exact size.symm)
    (Nat.le_refl _) (fun impossible => by cases impossible) enough
  exact ⟨result.1, result.2, ran⟩

theorem mmPopulateLoop_more (gup : GetUserPages) (mm : Mm) (stop : Nat) (ignoreErrors : Bool)
    (fuel more call nstart current : Nat) (locked : Bool) (table : PageTable)
    (result : Int × PageTable) (atLeast : fuel ≤ more)
    (ran : mmPopulateLoop gup mm stop ignoreErrors fuel call nstart current locked table =
      some result) :
    mmPopulateLoop gup mm stop ignoreErrors more call nstart current locked table =
      some result := by
  induction fuel generalizing more call nstart current locked table with
  | zero => cases ran
  | succ fuel ih =>
      obtain ⟨more, rfl⟩ : ∃ left, more = left + 1 := ⟨more - 1, by omega⟩
      simp only [mmPopulateLoop] at ran ⊢
      split
      case isFalse outside =>
        rw [if_neg outside] at ran
        exact ran
      case isTrue within =>
        rw [if_pos within] at ran
        split at ran
        case h_1 => exact ran
        case h_2 vma _found =>
          split
          case isTrue beyond =>
            rw [if_pos beyond] at ran
            exact ran
          case isFalse reached =>
            rw [if_neg reached] at ran
            split
            case isTrue skipped =>
              rw [if_pos skipped] at ran
              exact ih more _ _ _ _ _ (by omega) ran
            case isFalse faulted =>
              rw [if_neg faulted] at ran
              split
              case isTrue failed =>
                rw [if_pos failed] at ran
                split
                case isTrue ignores =>
                  rw [if_pos ignores] at ran
                  exact ih more _ _ _ _ _ (by omega) ran
                case isFalse gives =>
                  rw [if_neg gives] at ran
                  exact ran
              case isFalse pinned =>
                rw [if_neg pinned] at ran
                exact ih more _ _ _ _ _ (by omega) ran

/-- What each call on the area preserves, the loop preserves. -/
theorem mmPopulateLoop_preserves (gup : GetUserPages) (mm : Mm) (index : Nat) (vma : Vma)
    (found : mm.mmap[index]? = some vma) (keeps : PageTable → Prop)
    (step : ∀ call nstart table, vma.vmStart ≤ nstart → nstart < vma.vmEnd → keeps table →
      keeps (populateVmaPageRange gup call vma nstart vma.vmEnd table).pte)
    (fuel call nstart current : Nat) (locked : Bool) (table table' : PageTable) (ret : Int)
    (low : vma.vmStart ≤ nstart) (holds : locked = true → current = index)
    (ran : mmPopulateLoop gup mm vma.vmEnd true fuel call nstart current locked table =
      some (ret, table'))
    (kept : keeps table) : keeps table' := by
  induction fuel generalizing call nstart current locked table with
  | zero => cases ran
  | succ fuel ih =>
      have nonempty := vma.nonempty
      by_cases within : nstart < vma.vmEnd
      case neg =>
        rw [mmPopulateLoop_past gup mm vma.vmEnd true (fuel + 1) call nstart current locked table
          (Nat.succ_pos fuel) (Nat.not_lt.mp within)] at ran
        cases ran
        exact kept
      case pos =>
        have called := step call nstart table low within kept
        rw [mmPopulateLoop_inside gup mm index vma found fuel call nstart current locked table low
          within holds] at ran
        dsimp only at ran
        split at ran
        · exact ih _ _ _ _ _ (by omega) (fun _ => rfl) ran kept
        · split at ran
          · exact ih _ _ _ _ _ (by omega) (fun _ => rfl) ran called
          · exact ih _ _ _ _ _ (by omega) (fun _ => rfl) ran called

private theorem mmPopulateMod_preserves (gup : GetUserPages) (fuel : Nat) (mm : Mm) (vma : Vma)
    (member : vma ∈ mm.mmap) (keeps : PageTable → Prop)
    (step : ∀ call nstart table, vma.vmStart ≤ nstart → nstart < vma.vmEnd → keeps table →
      keeps (populateVmaPageRange gup call vma nstart vma.vmEnd table).pte)
    (ret : Int) (table' : PageTable)
    (ran : mmPopulateMod gup fuel mm vma.vmStart (vma.vmEnd - vma.vmStart) true =
      some (ret, table'))
    (kept : keeps mm.pte) : keeps table' := by
  obtain ⟨index, found⟩ := List.getElem?_of_mem member
  rw [mmPopulateMod, Nat.add_sub_cancel' (Nat.le_of_lt vma.nonempty)] at ran
  exact mmPopulateLoop_preserves gup mm index vma found keeps step fuel 0 vma.vmStart 0 false mm.pte
    table' ret (Nat.le_refl _) (fun impossible => by cases impossible) ran kept

def Vma.writeFaults (vma : Vma) (pte : Pte) : Bool :=
  (vma.vmFlags.write && !vma.vmFlags.shared) && pte.prot.rdonly

structure GetUserPages.Keeps (gup : GetUserPages) (vma : Vma) (before after : Pte) : Prop where
  same : vma.writeFaults before = false → after = before
  owned : gup.shared before.pfn = false →
    after.present = true ∧ after.pfn = before.pfn ∧ after.prot.memType = before.prot.memType

/-- The write fault finds the page mapped by others too and gives it a frame of its own. -/
def GetUserPages.copies (gup : GetUserPages) (vma : Vma) (pte : Pte) : Bool :=
  vma.writeFaults pte && gup.shared pte.pfn

theorem GetUserPages.Keeps.uncopied {gup : GetUserPages} {vma : Vma} {before after : Pte}
    (keeps : gup.Keeps vma before after) (present : before.present = true)
    (uncopied : gup.copies vma before = false) :
    after.present = true ∧ after.pfn = before.pfn ∧
      after.prot.memType = before.prot.memType := by
  rcases Bool.and_eq_false_iff.mp uncopied with unfaulted | owned
  · rw [keeps.same unfaulted]
    exact ⟨present, rfl, rfl⟩
  · exact keeps.owned owned

private theorem populateVmaPageRange_keeps (gup : GetUserPages) (call : Nat) (vma : Vma)
    (start stop : Nat) (table : PageTable) (address : Nat) (before : Pte)
    (present : before.present = true) (kept : gup.Keeps vma before (table address)) :
    gup.Keeps vma before ((populateVmaPageRange gup call vma start stop table).pte address) := by
  constructor
  · intro unfaulted
    have same := kept.same unfaulted
    rw [← same]
    apply gup.present_kept
    · rw [same]
      exact present
    · rw [same]
      exact Bool.and_eq_false_iff.mp unfaulted
  · intro owned
    obtain ⟨stays, frame, memType⟩ := kept.owned owned
    obtain ⟨still, sameFrame, sameType⟩ := gup.owned_kept call vma start
      ((stop - start) / pageSize)
      { touch := true, populate := true
        write := vma.vmFlags.write && !vma.vmFlags.shared
        force := vma.vmFlags.read || vma.vmFlags.write || vma.vmFlags.exec } table address stays
      (by rw [frame]; exact owned)
    exact ⟨still, sameFrame.trans frame, sameType.trans memType⟩

theorem mmPopulateMod_keeps (gup : GetUserPages) (fuel : Nat) (mm : Mm) (vma : Vma)
    (member : vma ∈ mm.mmap) (ret : Int) (table' : PageTable)
    (ran : mmPopulateMod gup fuel mm vma.vmStart (vma.vmEnd - vma.vmStart) true =
      some (ret, table'))
    (address : Nat) (present : (mm.pte address).present = true) :
    gup.Keeps vma (mm.pte address) (table' address) := by
  apply mmPopulateMod_preserves gup fuel mm vma member
    (fun table => gup.Keeps vma (mm.pte address) (table address)) _ ret table' ran
  · exact ⟨fun _unfaulted => rfl, fun _owned => ⟨present, rfl, rfl⟩⟩
  · intro call nstart table _low _within kept
    exact populateVmaPageRange_keeps gup call vma nstart vma.vmEnd table address _ present kept

/-- An entry that a fault installs has the memory type of the area. -/
def GetUserPages.BuildsFromArea (gup : GetUserPages) : Prop :=
  ∀ call vma start nrPages flags table address,
    ((gup.run call vma start nrPages flags table).pte address).prot.memType =
        (table address).prot.memType ∨
      ((gup.run call vma start nrPages flags table).pte address).prot.memType =
        vma.vmPageProt.memType

theorem GetUserPages.serve_buildsFromArea (shared : Nat → Bool) (frame : Nat → Nat) :
    (GetUserPages.serve shared frame).BuildsFromArea := by
  intro call vma start nrPages flags table address
  simp only [serve, faultPte]
  repeat' split
  · exact Or.inr rfl
  · exact Or.inl rfl
  · exact Or.inl rfl
  · exact Or.inr rfl
  · exact Or.inl rfl

theorem mmPopulateMod_memType (gup : GetUserPages) (builds : gup.BuildsFromArea) (fuel : Nat)
    (mm : Mm) (vma : Vma) (member : vma ∈ mm.mmap) (ret : Int) (table' : PageTable)
    (ran : mmPopulateMod gup fuel mm vma.vmStart (vma.vmEnd - vma.vmStart) true =
      some (ret, table')) (address : Nat) :
    (table' address).prot.memType = (mm.pte address).prot.memType ∨
      (table' address).prot.memType = vma.vmPageProt.memType := by
  apply mmPopulateMod_preserves gup fuel mm vma member (fun table =>
    (table address).prot.memType = (mm.pte address).prot.memType ∨
      (table address).prot.memType = vma.vmPageProt.memType) _ ret table' ran (Or.inl rfl)
  intro call nstart table _low _within kept
  rcases builds call vma nstart ((vma.vmEnd - nstart) / pageSize)
    { touch := true, populate := true
      write := vma.vmFlags.write && !vma.vmFlags.shared
      force := vma.vmFlags.read || vma.vmFlags.write || vma.vmFlags.exec } table address
    with same | built
  · rcases kept with before | area
    · exact Or.inl (same.trans before)
    · exact Or.inr (same.trans area)
  · exact Or.inr built

theorem mmPopulateMod_outside (gup : GetUserPages) (fuel : Nat) (mm : Mm) (vma : Vma)
    (member : vma ∈ mm.mmap) (ret : Int) (table' : PageTable)
    (ran : mmPopulateMod gup fuel mm vma.vmStart (vma.vmEnd - vma.vmStart) true =
      some (ret, table'))
    (address : Nat) (outside : address ∉ vma.pageAddrs) : table' address = mm.pte address := by
  apply mmPopulateMod_preserves gup fuel mm vma member
    (fun table => table address = mm.pte address) _ ret table' ran rfl
  intro call nstart table low within kept
  rw [vma.mem_pageAddrs_iff] at outside
  have covered := Nat.div_mul_le_self (vma.vmEnd - nstart) pageSize
  rw [← kept]
  apply gup.outside_kept
  omega

end BlackboxProfiling
