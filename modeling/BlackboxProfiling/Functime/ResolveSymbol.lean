import BlackboxProfiling.Elf.Libelf
import BlackboxProfiling.Functime.Ptrace

/-!
`resolve_symbol`: the scan of the first symbol table for a name. It trusts the entry
size in the section header, takes every entry to have a name, and stops at the first
entry of the name, defined or not.
-/

namespace BlackboxProfiling.Functime

open Libelf

def shtSymtab : Nat := 2

structure Sym where
  name : Nat
  value : Nat
  shndx : Nat
  deriving DecidableEq, Repr

/-- The value is cut to an `unsigned long` before the mask. -/
def maskedAddress (value : Nat) : Addr := BitVec.ofNat 32 value &&& armIsaMask

section Program

-- What `elf_getdata` and `gelf_getsym` make of a section, in the class and byte order of
-- the file; nothing where the contents cannot be had. `unset` and `unset2` are what `sym`
-- and `sym2` hold when no entry is copied to them.
variable (symbols : Scn → Option (List Sym)) (unset unset2 : Nat → Sym)

def symtabEntries (scn : Scn) : List Sym := (symbols scn).getD []

def gelfGetsym (scn : Scn) (ii : Nat) (before : Sym) : Sym :=
  ((symtabEntries symbols scn)[ii]?).getD before

def findSymtab (elf : Elf) : Option Scn :=
  (elf.scns.drop 1).find? (fun scn => decide (scn.shdr.type = shtSymtab))

/-- The quotient goes to an `int`; there is none of a zero entry size. -/
def symbolCount (shdr : Shdr) : Option Int :=
  if shdr.entsize = 0 then none else some (((shdr.size / shdr.entsize : Nat) : Int).bmod 0x100000000)

/-- The loop, with the rounds left; the index of the entry found, if there is one. No
result where the name of an entry is a null pointer. -/
def scanSymbols (elf : Elf) (scn : Scn) (symbolToSearch : List Byte) :
    Nat → Nat → Option (Option Nat)
  | 0, _ii => some none
  | left + 1, ii =>
      match elfStrptr elf scn.shdr.link (gelfGetsym symbols scn ii (unset ii)).name with
      | none => none
      | some symbolName =>
          if symbolName = symbolToSearch then some (some ii)
          else scanSymbols elf scn symbolToSearch left (ii + 1)

/-- The pointer returned, with the index of the entry it comes from. The descriptor is
missing where `open` or `elf_begin` fails. -/
def resolveSymbol (symbolToSearch : List Byte) (elf : Option Elf) : Option (Option Nat × Addr) :=
  match elf with
  | none => some (none, failed)
  | some elf =>
      match findSymtab elf with
      | none => some (none, failed)
      | some scn =>
          match symbolCount scn.shdr with
          | none => none
          | some count =>
              match scanSymbols symbols unset elf scn symbolToSearch count.toNat 0 with
              | none => none
              | some none => some (none, failed)
              | some (some ii) =>
                  some (some ii, maskedAddress (gelfGetsym symbols scn ii (unset2 ii)).value)

end Program

section Loop

variable (symbols : Scn → Option (List Sym)) (unset : Nat → Sym) (elf : Elf) (scn : Scn)
variable (symbolToSearch : List Byte)

def PassedOver (ii : Nat) : Prop :=
  ∃ name, elfStrptr elf scn.shdr.link (gelfGetsym symbols scn ii (unset ii)).name = some name ∧
    name ≠ symbolToSearch

def nameAt (ii : Nat) : Option (List Byte) :=
  elfStrptr elf scn.shdr.link (gelfGetsym symbols scn ii (unset ii)).name

private theorem scanSymbols_passed (left ii : Nat)
    (passed : PassedOver symbols unset elf scn symbolToSearch ii) :
    scanSymbols symbols unset elf scn symbolToSearch (left + 1) ii =
      scanSymbols symbols unset elf scn symbolToSearch left (ii + 1) := by
  obtain ⟨name, named, different⟩ := passed
  simp only [scanSymbols, named, if_neg different]

private theorem scanSymbols_named (left ii : Nat)
    (named : nameAt symbols unset elf scn ii = some symbolToSearch) :
    scanSymbols symbols unset elf scn symbolToSearch (left + 1) ii = some (some ii) := by
  rw [nameAt] at named
  simp only [scanSymbols, named, if_true]

private theorem scanSymbols_nameless (left ii : Nat)
    (nameless : nameAt symbols unset elf scn ii = none) :
    scanSymbols symbols unset elf scn symbolToSearch (left + 1) ii = none := by
  rw [nameAt] at nameless
  simp only [scanSymbols, nameless]

private theorem round_cases (ii : Nat) :
    nameAt symbols unset elf scn ii = none ∨
      nameAt symbols unset elf scn ii = some symbolToSearch ∨
      PassedOver symbols unset elf scn symbolToSearch ii := by
  cases named : nameAt symbols unset elf scn ii with
  | none => exact Or.inl rfl
  | some name =>
      right
      by_cases same : name = symbolToSearch
      · rw [same]
        exact Or.inl rfl
      · exact Or.inr ⟨name, named, same⟩

theorem scanSymbols_skip (skipped left ii : Nat)
    (passed : ∀ other, ii ≤ other → other < ii + skipped →
      PassedOver symbols unset elf scn symbolToSearch other) :
    scanSymbols symbols unset elf scn symbolToSearch (skipped + left) ii =
      scanSymbols symbols unset elf scn symbolToSearch left (ii + skipped) := by
  induction skipped generalizing ii with
  | zero => rw [Nat.zero_add, Nat.add_zero]
  | succ skipped ih =>
      have here := passed ii (Nat.le_refl ii) (by omega)
      have later := ih (ii + 1) (fun other after before => passed other (by omega) (by omega))
      rw [Nat.succ_add, scanSymbols_passed symbols unset elf scn symbolToSearch _ ii here, later,
        Nat.add_assoc, Nat.add_comm 1]

theorem scanSymbols_outcome (left ii : Nat) (outcome : Option Nat)
    (ran : scanSymbols symbols unset elf scn symbolToSearch left ii = some outcome) :
    ∃ last, (∀ other, ii ≤ other → other < last →
        PassedOver symbols unset elf scn symbolToSearch other) ∧
      ((outcome = none ∧ last = ii + left) ∨
        (outcome = some last ∧ ii ≤ last ∧ last < ii + left ∧
          nameAt symbols unset elf scn last = some symbolToSearch)) := by
  induction left generalizing ii with
  | zero =>
      cases ran
      exact ⟨ii, fun other after before => by omega, Or.inl ⟨rfl, rfl⟩⟩
  | succ left ih =>
      rcases round_cases symbols unset elf scn symbolToSearch ii with nameless | named | here
      · rw [scanSymbols_nameless symbols unset elf scn symbolToSearch left ii nameless] at ran
        cases ran
      · rw [scanSymbols_named symbols unset elf scn symbolToSearch left ii named] at ran
        cases ran
        exact ⟨ii, fun other after before => by omega,
          Or.inr ⟨rfl, Nat.le_refl ii, by omega, named⟩⟩
      · rw [scanSymbols_passed symbols unset elf scn symbolToSearch left ii here] at ran
        obtain ⟨last, passed, ends⟩ := ih (ii + 1) ran
        refine ⟨last, ?_, ?_⟩
        · intro other after before
          rcases Nat.eq_or_lt_of_le after with same | further
          · rw [← same]
            exact here
          · exact passed other further before
        · rcases ends with absent | found
          · exact Or.inl ⟨absent.1, by omega⟩
          · obtain ⟨same, after, before, named⟩ := found
            exact Or.inr ⟨same, by omega, by omega, named⟩

private theorem scanSymbols_absent_iff (left : Nat) :
    scanSymbols symbols unset elf scn symbolToSearch left 0 = some none ↔
      ∀ other, other < left → PassedOver symbols unset elf scn symbolToSearch other := by
  constructor
  · intro ran other before
    obtain ⟨last, passed, ends⟩ := scanSymbols_outcome symbols unset elf scn symbolToSearch _ _ _ ran
    rcases ends with absent | found
    · exact passed other (Nat.zero_le other) (by omega)
    · cases found.1
  · intro passed
    have skipped := scanSymbols_skip symbols unset elf scn symbolToSearch left 0 0
      (fun other _after before => passed other (by omega))
    rw [Nat.add_zero] at skipped
    rw [skipped, scanSymbols]

private theorem scanSymbols_found_iff (left found : Nat) :
    scanSymbols symbols unset elf scn symbolToSearch left 0 = some (some found) ↔
      found < left ∧ nameAt symbols unset elf scn found = some symbolToSearch ∧
        ∀ other, other < found → PassedOver symbols unset elf scn symbolToSearch other := by
  constructor
  · intro ran
    obtain ⟨last, passed, ends⟩ := scanSymbols_outcome symbols unset elf scn symbolToSearch _ _ _ ran
    rcases ends with absent | present
    · cases absent.1
    · obtain ⟨same, _after, before, named⟩ := present
      cases same
      exact ⟨by omega, named, fun other earlier => passed other (Nat.zero_le other) earlier⟩
  · intro present
    obtain ⟨below, named, passed⟩ := present
    obtain ⟨rest, total⟩ : ∃ rest, left = found + (rest + 1) := ⟨left - found - 1, by omega⟩
    rw [total, scanSymbols_skip symbols unset elf scn symbolToSearch found (rest + 1) 0
      (fun other _after before => passed other (by omega)), Nat.zero_add]
    exact scanSymbols_named symbols unset elf scn symbolToSearch rest found named

end Loop

private theorem maskedAddress_toNat (value : Nat) :
    (maskedAddress value).toNat = value % 0x100000000 / 2 * 2 := by
  have shifted : maskedAddress value = (BitVec.ofNat 32 value >>> 1) <<< 1 := by
    apply BitVec.eq_of_getLsbD_eq
    intro bit below
    rw [maskedAddress, armIsaMask, BitVec.getLsbD_and, BitVec.getLsbD_not,
      BitVec.getLsbD_shiftLeft, BitVec.getLsbD_ushiftRight]
    have lowest : (1 : BitVec 32).getLsbD bit = decide (bit = 0) := by
      change (1#32).getLsbD bit = decide (bit = 0)
      rw [BitVec.getLsbD_one]
      simp
    rw [lowest]
    by_cases first : bit = 0
    · simp [first]
    · have later : 1 + (bit - 1) = bit := by omega
      rw [later]
      simp [below, first]
  rw [shifted]
  simp only [BitVec.toNat_shiftLeft, BitVec.toNat_ushiftRight, BitVec.toNat_ofNat,
    Nat.shiftRight_eq_div_pow, Nat.shiftLeft_eq]
  omega

/-- No address found can be taken for the failure. -/
theorem maskedAddress_ne_failed (value : Nat) : maskedAddress value ≠ failed := by
  intro same
  have numbers := congrArg BitVec.toNat same
  have odd : failed.toNat = 0xffffffff := by decide
  rw [maskedAddress_toNat, odd] at numbers
  omega

private theorem maskedAddress_exact_iff (value : Nat) :
    (maskedAddress value).toNat = value / 2 * 2 ↔ value < 0x100000000 := by
  rw [maskedAddress_toNat]
  omega

section Resolved

variable (symbols : Scn → Option (List Sym)) (unset unset2 : Nat → Sym) (elf : Elf)
variable (symbolToSearch : List Byte)

def definesName (scn : Scn) (sym : Sym) : Bool :=
  decide (sym.shndx ≠ shnUndef) &&
    decide (elfStrptr elf scn.shdr.link sym.name = some symbolToSearch)

def firstDefined : Option Sym :=
  match findSymtab elf with
  | none => none
  | some scn => (symtabEntries symbols scn).find? (definesName elf symbolToSearch scn)

/-- The run ends; it returns the address of the first defined symbol or the failure, and
takes no undefined entry for the symbol. -/
structure Resolved (found : Option Nat) (address : Addr) : Prop where
  defined : ∀ sym, firstDefined symbols elf symbolToSearch = some sym →
    address.toNat = sym.value / 2 * 2
  absent : firstDefined symbols elf symbolToSearch = none → address = failed
  notUndefined : ∀ scn index sym, findSymtab elf = some scn → found = some index →
    (symtabEntries symbols scn)[index]? = some sym → sym.shndx ≠ shnUndef

def ResolvesSymbol : Prop :=
  ∃ found address, resolveSymbol symbols unset unset2 symbolToSearch (some elf) =
      some (found, address) ∧
    Resolved symbols elf symbolToSearch found address

def MetFirst (scn : Scn) (count : Int) : Prop :=
  ∃ (index : Nat) (sym : Sym), (index : Int) < count ∧ (symtabEntries symbols scn)[index]? = some sym ∧
    definesName elf symbolToSearch scn sym = true ∧ sym.value < 0x100000000 ∧
    ∀ other : Nat, other < index → PassedOver symbols unset elf scn symbolToSearch other

def NoneMet (scn : Scn) (count : Int) : Prop :=
  (∀ sym, sym ∈ symtabEntries symbols scn → definesName elf symbolToSearch scn sym = false) ∧
    ∀ other : Nat, (other : Int) < count → PassedOver symbols unset elf scn symbolToSearch other

/-- The symbol table, if there is one, gives an entry size, and the scan reaches the
symbol or the end of the table. -/
def ScanGoesThrough : Prop :=
  ∀ scn, findSymtab elf = some scn →
    ∃ count, symbolCount scn.shdr = some count ∧
      (MetFirst symbols unset elf symbolToSearch scn count ∨
        NoneMet symbols unset elf symbolToSearch scn count)

private theorem gelfGetsym_entry (scn : Scn) (index : Nat) (sym before : Sym)
    (entry : (symtabEntries symbols scn)[index]? = some sym) :
    gelfGetsym symbols scn index before = sym := by
  rw [gelfGetsym, entry, Option.getD_some]

private theorem passedOver_defines (scn : Scn) (index : Nat) (sym : Sym)
    (entry : (symtabEntries symbols scn)[index]? = some sym)
    (passed : PassedOver symbols unset elf scn symbolToSearch index) :
    definesName elf symbolToSearch scn sym = false := by
  obtain ⟨name, named, different⟩ := passed
  rw [gelfGetsym_entry symbols scn index sym _ entry] at named
  simp only [definesName, named, Option.some.injEq, different, decide_false, Bool.and_false]

private theorem firstDefined_met (scn : Scn) (index : Nat) (sym : Sym)
    (table : findSymtab elf = some scn)
    (entry : (symtabEntries symbols scn)[index]? = some sym)
    (defines : definesName elf symbolToSearch scn sym = true)
    (passed : ∀ other, other < index → PassedOver symbols unset elf scn symbolToSearch other) :
    firstDefined symbols elf symbolToSearch = some sym := by
  simp only [firstDefined, table]
  apply List.find?_eq_some_iff_getElem.mpr
  obtain ⟨inside, same⟩ := List.getElem?_eq_some_iff.mp entry
  refine ⟨defines, index, inside, same, ?_⟩
  intro other before
  have passedEntry := passedOver_defines symbols unset elf symbolToSearch scn other _
    (List.getElem?_eq_getElem (Nat.lt_trans before inside)) (passed other before)
  rw [passedEntry]
  rfl

private theorem firstDefined_none_iff (scn : Scn) (table : findSymtab elf = some scn) :
    firstDefined symbols elf symbolToSearch = none ↔
      ∀ sym, sym ∈ symtabEntries symbols scn → definesName elf symbolToSearch scn sym = false := by
  simp only [firstDefined, table, List.find?_eq_none, Bool.not_eq_true]

private theorem resolveSymbol_cases (scn : Scn) (found : Option Nat) (address : Addr)
    (table : findSymtab elf = some scn) :
    resolveSymbol symbols unset unset2 symbolToSearch (some elf) = some (found, address) ↔
      ∃ count, symbolCount scn.shdr = some count ∧
        ((scanSymbols symbols unset elf scn symbolToSearch count.toNat 0 = some none ∧
            found = none ∧ address = failed) ∨
          ∃ index, scanSymbols symbols unset elf scn symbolToSearch count.toNat 0 =
              some (some index) ∧ found = some index ∧
            address = maskedAddress (gelfGetsym symbols scn index (unset2 index)).value) := by
  simp only [resolveSymbol, table]
  cases counted : symbolCount scn.shdr with
  | none => simp
  | some count =>
      cases scanned : scanSymbols symbols unset elf scn symbolToSearch count.toNat 0 with
      | none => simp [scanned]
      | some last =>
          cases last with
          | none => simp [scanned, eq_comm]
          | some index => simp [scanned, eq_comm]

theorem resolved_found (scn : Scn) (index : Nat) (address : Addr)
    (table : findSymtab elf = some scn)
    (named : elfStrptr elf scn.shdr.link (gelfGetsym symbols scn index (unset index)).name =
      some symbolToSearch)
    (passed : ∀ other, other < index → PassedOver symbols unset elf scn symbolToSearch other)
    (returned : address = maskedAddress (gelfGetsym symbols scn index (unset2 index)).value)
    (right : Resolved symbols elf symbolToSearch (some index) address) :
    ∃ sym, (symtabEntries symbols scn)[index]? = some sym ∧
      definesName elf symbolToSearch scn sym = true ∧ sym.value < 0x100000000 := by
  cases entry : (symtabEntries symbols scn)[index]? with
  | none =>
      -- Every entry there is has been passed over, so the failure was due.
      have short := List.getElem?_eq_none_iff.mp entry
      have absent := (firstDefined_none_iff symbols elf symbolToSearch scn table).mpr (by
        intro sym member
        obtain ⟨other, inside, same⟩ := List.getElem_of_mem member
        exact passedOver_defines symbols unset elf symbolToSearch scn other sym
          (List.getElem?_eq_some_iff.mpr ⟨inside, same⟩) (passed other (by omega)))
      rw [right.absent absent] at returned
      exact absurd returned.symm (maskedAddress_ne_failed _)
  | some sym =>
      have defined := right.notUndefined scn index sym table rfl entry
      rw [gelfGetsym_entry symbols scn index sym _ entry] at named returned
      have defines : definesName elf symbolToSearch scn sym = true := by
        simp only [definesName, named, defined, ne_eq, not_false_eq_true, decide_true,
          Bool.and_true]
      have first := firstDefined_met symbols unset elf symbolToSearch scn index sym table entry
        defines passed
      have exactly := right.defined sym first
      rw [returned] at exactly
      exact ⟨sym, rfl, defines, (maskedAddress_exact_iff sym.value).mp exactly⟩

private theorem resolved_failed (scn : Scn) (table : findSymtab elf = some scn)
    (right : Resolved symbols elf symbolToSearch none failed) :
    ∀ sym, sym ∈ symtabEntries symbols scn →
      definesName elf symbolToSearch scn sym = false := by
  apply (firstDefined_none_iff symbols elf symbolToSearch scn table).mp
  cases first : firstDefined symbols elf symbolToSearch with
  | none => rfl
  | some sym =>
      have even := right.defined sym first
      have odd : failed.toNat = 0xffffffff := by decide
      omega

private theorem resolvesSymbol_noTable (table : findSymtab elf = none) :
    ResolvesSymbol symbols unset unset2 elf symbolToSearch := by
  refine ⟨none, failed, by simp only [resolveSymbol, table], ?_⟩
  constructor
  · intro sym first
    simp only [firstDefined, table] at first
    cases first
  · intro _absent
    rfl
  · intro scn index sym other
    rw [table] at other
    cases other

private theorem resolvesSymbol_met (scn : Scn) (count : Int) (table : findSymtab elf = some scn)
    (counted : symbolCount scn.shdr = some count)
    (met : MetFirst symbols unset elf symbolToSearch scn count) :
    ResolvesSymbol symbols unset unset2 elf symbolToSearch := by
  obtain ⟨index, sym, inside, entry, defines, small, passed⟩ := met
  have defined : sym.shndx ≠ shnUndef ∧
      elfStrptr elf scn.shdr.link sym.name = some symbolToSearch := by
    simpa only [definesName, Bool.and_eq_true, decide_eq_true_eq] using defines
  have scanned : scanSymbols symbols unset elf scn symbolToSearch count.toNat 0 =
      some (some index) := by
    apply (scanSymbols_found_iff symbols unset elf scn symbolToSearch _ index).mpr
    rw [nameAt, gelfGetsym_entry symbols scn index sym _ entry]
    exact ⟨by omega, defined.2, passed⟩
  have first := firstDefined_met symbols unset elf symbolToSearch scn index sym table entry
    defines passed
  refine ⟨some index, maskedAddress sym.value, ?_, ?_⟩
  · apply (resolveSymbol_cases symbols unset unset2 elf symbolToSearch scn _ _ table).mpr
    rw [← gelfGetsym_entry symbols scn index sym (unset2 index) entry]
    exact ⟨count, counted, Or.inr ⟨index, scanned, rfl, rfl⟩⟩
  · constructor
    · intro other same
      rw [first] at same
      cases same
      exact (maskedAddress_exact_iff sym.value).mpr small
    · intro absent
      rw [first] at absent
      cases absent
    · intro other otherIndex otherSym same found otherEntry
      rw [table] at same
      cases same
      cases found
      rw [entry] at otherEntry
      cases otherEntry
      exact defined.1

private theorem resolvesSymbol_missed (scn : Scn) (count : Int) (table : findSymtab elf = some scn)
    (counted : symbolCount scn.shdr = some count)
    (missed : NoneMet symbols unset elf symbolToSearch scn count) :
    ResolvesSymbol symbols unset unset2 elf symbolToSearch := by
  obtain ⟨undefined, passed⟩ := missed
  have scanned : scanSymbols symbols unset elf scn symbolToSearch count.toNat 0 = some none := by
    apply (scanSymbols_absent_iff symbols unset elf scn symbolToSearch _).mpr
    intro other before
    exact passed other (by omega)
  have absent := (firstDefined_none_iff symbols elf symbolToSearch scn table).mpr undefined
  refine ⟨none, failed, ?_, ?_⟩
  · apply (resolveSymbol_cases symbols unset unset2 elf symbolToSearch scn _ _ table).mpr
    exact ⟨count, counted, Or.inl ⟨scanned, rfl, rfl⟩⟩
  · constructor
    · intro sym first
      rw [absent] at first
      cases first
    · intro _absent
      rfl
    · intro other index sym _same found
      cases found

private theorem scanGoesThrough_of_resolves
    (resolves : ResolvesSymbol symbols unset unset2 elf symbolToSearch) :
    ScanGoesThrough symbols unset elf symbolToSearch := by
  intro scn table
  obtain ⟨found, address, ran, right⟩ := resolves
  obtain ⟨count, counted, outcome⟩ :=
    (resolveSymbol_cases symbols unset unset2 elf symbolToSearch scn found address table).mp ran
  refine ⟨count, counted, ?_⟩
  rcases outcome with nothing | something
  · obtain ⟨scanned, rfl, rfl⟩ := nothing
    have passed := (scanSymbols_absent_iff symbols unset elf scn symbolToSearch _).mp scanned
    right
    refine ⟨resolved_failed symbols elf symbolToSearch scn table right, ?_⟩
    intro index inside
    exact passed index (by omega)
  · obtain ⟨index, scanned, rfl, returned⟩ := something
    obtain ⟨below, named, passed⟩ :=
      (scanSymbols_found_iff symbols unset elf scn symbolToSearch _ index).mp scanned
    obtain ⟨sym, entry, defines, small⟩ :=
      resolved_found symbols unset unset2 elf symbolToSearch scn index address table named
        passed returned right
    left
    exact ⟨index, sym, by omega, entry, defines, small, passed⟩

/-- The address is right exactly when the table states an entry size and the scan gets
past every entry before the symbol, and past all of them where there is none. -/
theorem resolvesSymbol_iff :
    ResolvesSymbol symbols unset unset2 elf symbolToSearch ↔
      ScanGoesThrough symbols unset elf symbolToSearch := by
  constructor
  · exact scanGoesThrough_of_resolves symbols unset unset2 elf symbolToSearch
  · intro goes
    cases table : findSymtab elf with
    | none => exact resolvesSymbol_noTable symbols unset unset2 elf symbolToSearch table
    | some scn =>
        obtain ⟨count, counted, outcome⟩ := goes scn table
        rcases outcome with met | missed
        · exact resolvesSymbol_met symbols unset unset2 elf symbolToSearch scn count table
            counted met
        · exact resolvesSymbol_missed symbols unset unset2 elf symbolToSearch scn count table
            counted missed

end Resolved

/-- `Elf32_Sym`: name, value, size, kind, visibility, section index. -/
def elf32Syms : List Byte → List Sym
  | n0 :: n1 :: n2 :: n3 :: v0 :: v1 :: v2 :: v3 :: _s0 :: _s1 :: _s2 :: _s3 :: _info ::
      _other :: x0 :: x1 :: rest =>
      { name := n0.toNat + 0x100 * (n1.toNat + 0x100 * (n2.toNat + 0x100 * n3.toNat))
        value := v0.toNat + 0x100 * (v1.toNat + 0x100 * (v2.toNat + 0x100 * v3.toNat))
        shndx := x0.toNat + 0x100 * x1.toNat } :: elf32Syms rest
  | _short => []

def elf32Symbols (scn : Scn) : Option (List Sym) :=
  match scn.data with
  | .buffer bytes => some (elf32Syms bytes)
  | .null _size => none

def importedSymtab : Scn :=
  { shdr := { emptyShdr with type := shtSymtab, size := 32, link := 2, entsize := 16 }
    data := .buffer (List.replicate 16 0 ++ (1 :: List.replicate 11 0 ++ [0x12, 0, 0, 0]))
    dirty := false }

def importedStrtab : Scn :=
  { shdr := { emptyShdr with type := shtStrtab, size := 3 }
    data := .buffer [0, 0x66, 0]
    dirty := false }

def importedElf : Elf :=
  { eShstrndx := 0
    scns := [⟨emptyShdr, .null 0, false⟩, importedSymtab, importedStrtab] }

theorem undefinedSymbol_returned :
    resolveSymbol elf32Symbols (fun _ => ⟨0, 0, 0⟩) (fun _ => ⟨0, 0, 0⟩) [0x66]
        (some importedElf) = some (some 1, 0) ∧
      firstDefined elf32Symbols importedElf [0x66] = none ∧
      ¬ ResolvesSymbol elf32Symbols (fun _ => ⟨0, 0, 0⟩) (fun _ => ⟨0, 0, 0⟩) importedElf
        [0x66] := by
  have ran : resolveSymbol elf32Symbols (fun _ => ⟨0, 0, 0⟩) (fun _ => ⟨0, 0, 0⟩) [0x66]
      (some importedElf) = some (some 1, 0) := by decide
  have absent : firstDefined elf32Symbols importedElf [0x66] = none := by decide
  refine ⟨ran, absent, ?_⟩
  intro resolves
  obtain ⟨found, address, returned, right⟩ := resolves
  rw [ran] at returned
  cases returned
  have sentinel := right.absent absent
  exact absurd sentinel (by decide)

end BlackboxProfiling.Functime
