import KernelPortfolio.Paging.WalkVa

/-!
# The raw walker of `kernel_module_raw/raw_pagewalk.c`

`walkRaw` is `walk_raw`. It returns a physical address or an error code in one 64-bit word; the
model keeps the two kinds of `return` apart (`RawExit`), and `RawExit.value` is the word. Its exits
are those of the tracing walker (`walkRaw_eq_ofReport`), except that the raw walker leaves a 1GB
page to its own error code. The codes are themselves possible physical addresses, and
`walkRaw_unambiguous_iff` says exactly when the word still tells the two apart.
-/

namespace KernelPortfolio

/-- The five outputs of `extract_indices_raw`. -/
structure RawIndices where
  pml4Idx : U64
  pdptIdx : U64
  pdIdx : U64
  ptIdx : U64
  offset : U64

/-- `extract_indices_raw`. -/
def extractIndicesRaw (vaddr : U64) : RawIndices where
  pml4Idx := (vaddr >>> 39) &&& 0x1ff
  pdptIdx := (vaddr >>> 30) &&& 0x1ff
  pdIdx := (vaddr >>> 21) &&& 0x1ff
  ptIdx := (vaddr >>> 12) &&& 0x1ff
  offset := vaddr &&& 0xfff

/-- `read_entry_raw`. -/
def readEntryRaw (m : Machine) (tablePhys index : U64) : U64 := m.index (m.va tablePhys) index

/-- `is_present_raw`. -/
def isPresentRaw (entry : U64) : Bool := if entry &&& 1 = 0 then false else true

/-- `extract_next_table_phys`. -/
def extractNextTablePhys (entry : U64) : U64 := entry &&& pteAddrMask

/-- The two kinds of `return` of `walk_raw`. -/
inductive RawExit where
  | error (code : U64)
  | translation (phys : U64)
  deriving DecidableEq, Repr

/-- The word that `walk_raw` returns. -/
def RawExit.value : RawExit → U64
  | error code => code
  | translation phys => phys

/-- `walk_raw`. -/
def walkRaw (m : Machine) (cr3 vaddr : U64) : RawExit :=
  let idx := extractIndicesRaw vaddr
  -- Level 4: PML4
  let tablePhys := cr3 &&& pteAddrMask
  let entry := readEntryRaw m tablePhys idx.pml4Idx
  if !isPresentRaw entry then .error 0xDEAD0001 else
  -- Level 3: PDPT, whose 1GB pages are left out
  let tablePhys := extractNextTablePhys entry
  let entry := readEntryRaw m tablePhys idx.pdptIdx
  if !isPresentRaw entry then .error 0xDEAD0002 else
  if (entry >>> 7) &&& 1 ≠ 0 then .error 0xDEAD1001 else
  -- Level 2: PD
  let tablePhys := extractNextTablePhys entry
  let entry := readEntryRaw m tablePhys idx.pdIdx
  if !isPresentRaw entry then .error 0xDEAD0003 else
  if (entry >>> 7) &&& 1 ≠ 0 then
    .translation ((entry &&& 0x000FFFFFFFE00000) ||| (vaddr &&& 0x1FFFFF)) else
  -- Level 1: PT
  let tablePhys := extractNextTablePhys entry
  let entry := readEntryRaw m tablePhys idx.ptIdx
  if !isPresentRaw entry then .error 0xDEAD0004 else
  .translation ((entry &&& pteAddrMask) ||| idx.offset)

/-- The error code for an absent entry. -/
def notPresentCode : PtLevel → U64
  | .pml4 => 0xDEAD0001
  | .pdpt => 0xDEAD0002
  | .pd => 0xDEAD0003
  | .pt => 0xDEAD0004

/-- The exit of `walk_raw` that stands for a report of the tracing walker. -/
def RawExit.ofReport : Report → RawExit
  | .notPresent l => .error (notPresentCode l)
  | .translated .pdpt _ => .error 0xDEAD1001
  | .translated _ phys => .translation phys

/-- The presence test is bit 0. -/
theorem isPresentRaw_eq (entry : U64) : isPresentRaw entry = entry.getLsbD 0 := by
  unfold isPresentRaw
  cases h : entry.getLsbD 0
  · rw [if_pos ((BitField.and_one_eq_zero_iff entry).2 h)]
  · rw [if_neg fun h0 => ?_]
    rw [(BitField.and_one_eq_zero_iff entry).1 h0] at h
    exact absurd h (by decide)

/-- `walk_raw` on the translation of the address: each stop of the walk has its own exit. -/
theorem walkRaw_of_hwReport (m : Machine) (cr3 va : U64) :
    (hwReport m (frame cr3) va).map RawExit.ofReport = some (walkRaw m cr3 va) := by
  simp only [walkRaw, extractIndicesRaw, readEntryRaw, extractNextTablePhys, isPresentRaw_eq,
    Machine.index_va, phys_pml4, phys_pdpt, phys_pd, phys_pt, BitField.and_one_eq_zero_iff,
    BitVec.getLsbD_ushiftRight, Nat.add_zero, ne_eq, Bool.not_eq_false, Bool.not_eq_true',
    huge2M_eq, page4K_eq, hwReport, hwWalk_eq]
  split_ifs <;> rfl

/-- `walk_raw` simulates `walk_va`: its exit is the one of the walker's report. -/
theorem walkRaw_eq_ofReport {m : Machine} {cr3 va : U64} {r : Report}
    (h : Report.ofLines (walkVa m cr3 va) = some r) : walkRaw m cr3 va = RawExit.ofReport r := by
  have hr := walkRaw_of_hwReport m cr3 va
  rw [← walkVa_report, h] at hr
  exact (Option.some.inj hr).symm

/-- The codes of the four levels differ from each other and from the code of a 1GB page. -/
theorem notPresentCode_inj (l l' : PtLevel) :
    (notPresentCode l = notPresentCode l' ↔ l = l') ∧ notPresentCode l ≠ 0xDEAD1001 := by
  cases l <;> cases l' <;> decide

/-- The two walkers agree, a 1GB page apart: the raw walker returns `p` as a translation exactly
when the tracing walker reports `p` for a 4KB or 2MB page. It leaves through its error return with
`0xDEAD1001` exactly when the tracing walker reports a 1GB page, and with the code of a level
exactly when that one stops at the level. -/
theorem walkRaw_agrees_walkVa (m : Machine) (cr3 va : U64) :
    (∀ p, walkRaw m cr3 va = .translation p ↔
      ∃ l, l ≠ .pdpt ∧ Report.ofLines (walkVa m cr3 va) = some (.translated l p)) ∧
    (walkRaw m cr3 va = .error 0xDEAD1001 ↔
      ∃ p, Report.ofLines (walkVa m cr3 va) = some (.translated .pdpt p)) ∧
    ∀ l, walkRaw m cr3 va = .error (notPresentCode l) ↔
      Report.ofLines (walkVa m cr3 va) = some (.notPresent l) := by
  obtain ⟨r, hr⟩ : ∃ r, Report.ofLines (walkVa m cr3 va) = some r := by
    have h := walkRaw_of_hwReport m cr3 va
    rw [← walkVa_report] at h
    obtain ⟨r, hr, -⟩ := Option.map_eq_some_iff.mp h
    exact ⟨r, hr⟩
  rw [walkRaw_eq_ofReport hr, hr]
  cases r with
  | notPresent l =>
    have hinj := notPresentCode_inj l
    refine ⟨?_, ?_, ?_⟩
    · simp [RawExit.ofReport]
    · simpa [RawExit.ofReport] using (hinj l).2
    · simpa [RawExit.ofReport] using fun l' => (hinj l').1
  | translated l phys =>
    cases l
    case pdpt =>
      refine ⟨?_, ?_, ?_⟩
      · simp [RawExit.ofReport]
      · simp [RawExit.ofReport]
      · simpa [RawExit.ofReport] using fun l => (notPresentCode_inj l l).2.symm
    all_goals simp [RawExit.ofReport]

/-- With a 1GB page at address 0 the tracing walker reports the physical address 0 and the raw
walker does not. -/
theorem walkRaw_not_agrees_walkVa :
    ¬ ∀ m cr3 va p, walkRaw m cr3 va = .translation p ↔
      ∃ l, Report.ofLines (walkVa m cr3 va) = some (.translated l p) := by
  intro h
  have h1G := (h (.ofEntries [(0, 0x1001), (0x1000, 0x83)]) 0 0 0).2 ⟨.pdpt, by decide⟩
  exact absurd h1G (by decide)

/-! ## Error codes among the addresses -/

/-- The error codes of `walk_raw`. -/
def rawErrorCodes : List U64 := [0xDEAD0001, 0xDEAD0002, 0xDEAD0003, 0xDEAD0004, 0xDEAD1001]

/-- A leaf entry and an address whose fields, glued together, spell an error code: for a 4KB page
the frame `0xDEAD0` with an offset from 1 to 4 or the frame `0xDEAD1` with the offset 1, and for a
2MB page the frame at `0xDEA00000` with the rest of the code as the offset. -/
def SpellsErrorCode : PtLevel → U64 → U64 → Prop
  | .pt, e, va =>
    (e.toNat / 2^12 % 2^40 = 0xDEAD0 ∧ va.toNat % 2^12 ∈ [1, 2, 3, 4]) ∨
      (e.toNat / 2^12 % 2^40 = 0xDEAD1 ∧ va.toNat % 2^12 = 1)
  | .pd, e, va =>
    e.toNat / 2^21 % 2^31 = 0x6F5 ∧
      va.toNat % 2^21 ∈ [0xD0001, 0xD0002, 0xD0003, 0xD0004, 0xD1001]
  | _, _, _ => False

/-- A leaf's address is one of the codes as numbers. -/
theorem ofNat_leafAddr_mem_iff (l : PtLevel) (e va : U64) :
    BitVec.ofNat 64 (leafAddr l e va) ∈ rawErrorCodes ↔
      leafAddr l e va ∈ [0xDEAD0001, 0xDEAD0002, 0xDEAD0003, 0xDEAD0004, 0xDEAD1001] := by
  have hlt := leafAddr_lt l e va
  generalize leafAddr l e va = n at hlt
  have hn : (BitVec.ofNat 64 n).toNat = n := by
    rw [BitVec.toNat_ofNat, Nat.mod_eq_of_lt (by omega)]
  simp [rawErrorCodes, ← BitVec.toNat_inj, hn]

/-- The address of a 4KB or 2MB page is an error code exactly when its fields spell one. -/
theorem leafAddr_mem_iff {l : PtLevel} (hl : l = .pt ∨ l = .pd) (e va : U64) :
    BitVec.ofNat 64 (leafAddr l e va) ∈ rawErrorCodes ↔ SpellsErrorCode l e va := by
  rw [ofNat_leafAddr_mem_iff]
  rcases hl with rfl | rfl
  · have ho : va.toNat % 2^12 < 2^12 := Nat.mod_lt _ (by decide)
    simp only [leafAddr, PtLevel.shift, SpellsErrorCode, List.mem_cons, List.not_mem_nil, or_false]
    omega
  · have ho : va.toNat % 2^21 < 2^21 := Nat.mod_lt _ (by decide)
    simp only [leafAddr, PtLevel.shift, SpellsErrorCode, List.mem_cons, List.not_mem_nil, or_false]
    omega

/-- `walk_raw` translates exactly at the 4KB and 2MB leaves of the walk. -/
theorem walkRaw_eq_translation_iff (m : Machine) (cr3 va p : U64) :
    walkRaw m cr3 va = .translation p ↔
      ∃ l e, hwWalk m (frame cr3) va = .leaf l e ∧ (l = .pt ∨ l = .pd) ∧
        p = BitVec.ofNat 64 (leafAddr l e va) := by
  have h := walkRaw_of_hwReport m cr3 va
  unfold hwReport at h
  cases hw : hwWalk m (frame cr3) va with
  | absent l e =>
    rw [hw] at h
    rw [← Option.some.inj h]
    simp [RawExit.ofReport]
  | leaf l e =>
    rw [hw] at h
    rw [← Option.some.inj h]
    cases l with
    | pml4 => exact absurd rfl (hwWalk_leaf_ne_pml4 hw)
    | pdpt => simp [RawExit.ofReport]
    | pd => simp [RawExit.ofReport, eq_comm]
    | pt => simp [RawExit.ofReport, eq_comm]
  | pending t =>
    rw [hw] at h
    simp at h

/-- `walk_raw` never returns a translation that is one of its error codes, and a returned code is
always the failure that it names, exactly when the walk does not end at a 4KB or 2MB leaf whose
address spells a code. -/
theorem walkRaw_unambiguous_iff (m : Machine) (cr3 va : U64) :
    ((∀ p, walkRaw m cr3 va = .translation p → p ∉ rawErrorCodes) ∧
      ∀ c ∈ rawErrorCodes, (walkRaw m cr3 va).value = c → walkRaw m cr3 va = .error c) ↔
    ¬ ∃ l e, hwWalk m (frame cr3) va = .leaf l e ∧ SpellsErrorCode l e va := by
  have hcodes : ∀ l e, SpellsErrorCode l e va → l = .pt ∨ l = .pd := by
    intro l e hs
    cases l <;> simp [SpellsErrorCode] at hs ⊢
  constructor
  · rintro ⟨hp, -⟩ ⟨l, e, hw, hs⟩
    have hl := hcodes l e hs
    exact hp _ ((walkRaw_eq_translation_iff m cr3 va _).2 ⟨l, e, hw, hl, rfl⟩)
      ((leafAddr_mem_iff hl e va).2 hs)
  · intro hno
    have hp : ∀ p, walkRaw m cr3 va = .translation p → p ∉ rawErrorCodes := by
      intro p hp hmem
      obtain ⟨l, e, hw, hl, rfl⟩ := (walkRaw_eq_translation_iff m cr3 va p).1 hp
      exact hno ⟨l, e, hw, (leafAddr_mem_iff hl e va).1 hmem⟩
    refine ⟨hp, fun c hc hv => ?_⟩
    cases hr : walkRaw m cr3 va with
    | error code =>
      rw [hr] at hv
      rw [← hv]
      rfl
    | translation p =>
      rw [hr] at hv
      exact absurd hc (hv ▸ hp p hr)

/-- A 4KB page at the frame `0xDEAD0000`: the address of its byte 1 is the code for an absent PML4
entry. -/
theorem walkRaw_ambiguous :
    ¬ ∀ m cr3 va p, walkRaw m cr3 va = .translation p → p ∉ rawErrorCodes := by
  intro h
  refine h (.ofEntries [(0, 0x1001), (0x1000, 0x2001), (0x2000, 0x3001), (0x3000, 0xDEAD0001)])
    0 1 0xDEAD0001 (by decide) (by decide)

end KernelPortfolio
