import KernelPortfolio.Headers.Pgtable

/-!
# The entry decoder of `demo_04_check_present/present_driver.c`

`decodeEntry` is `decode_entry`: the lines that it prints for a page-table entry. For an entry that
is not present it reads a swap type and a swap offset from fixed low bits. The kernel puts them
elsewhere (`toNat_swpEntry`), and `decodeEntry_swap_never` says what follows.
-/

namespace KernelPortfolio

/-- The flags that `decode_entry` prints for a present entry. -/
inductive EntryFlag where
  | rw
  | us
  | a
  | d
  | ps
  | nx
  deriving DecidableEq, Repr

/-- The lines that `decode_entry` prints. -/
inductive DecodeLine where
  | entry (e : U64)
  | flags (flags : U64)
  | notPresent
  | neverMapped
  | swap (type offset : U64)
  | present
  | flag (f : EntryFlag) (value : U64) (set : Bool)
  | phys (phys : U64)
  deriving DecidableEq, Repr

/-- `decode_entry`. -/
def decodeEntry (entry : U64) : List DecodeLine :=
  let flags := entry &&& 0xFFF
  let phys := entry &&& pteAddrMask
  .entry entry :: .flags flags ::
  -- the present bit comes first
  if entry &&& 1 = 0 then
    .notPresent ::
    if entry = 0 then [.neverMapped]
    else [.swap ((entry >>> 1) &&& 0x1F) (entry >>> 6)]
  else
    [.present, .flag .rw ((entry >>> 1) &&& 1) (entry &&& 2 != 0),
      .flag .us ((entry >>> 2) &&& 1) (entry &&& 4 != 0),
      .flag .a ((entry >>> 5) &&& 1) (entry &&& 0x20 != 0),
      .flag .d ((entry >>> 6) &&& 1) (entry &&& 0x40 != 0),
      .flag .ps ((entry >>> 7) &&& 1) (entry &&& 0x80 != 0),
      .flag .nx ((entry >>> 63) &&& 1) (entry >>> 63 != 0), .phys phys]

/-- A swap entry is reported for every entry that is neither present nor empty, with the type from
the bits 5 to 1 and the offset from bit 6. -/
theorem swap_mem_decodeEntry {type offset e : U64} :
    .swap type offset ∈ decodeEntry e ↔
      e.getLsbD 0 = false ∧ e ≠ 0 ∧ type = (e >>> 1) &&& 0x1F ∧ offset = e >>> 6 := by
  simp only [decodeEntry, BitField.and_one_eq_zero_iff]
  cases h0 : e.getLsbD 0 with
  | true => simp
  | false =>
    by_cases hzero : e = 0
    · simp [hzero]
    · rw [if_pos rfl, if_neg hzero]
      simp [show ¬ e = 0#64 from hzero]

/-- The reading of the offset from bit 6 is not the offset: it is eight times the inverted one. -/
theorem swpEntry_shift_ne {type offset : U64} (ht : type.toNat < 32) (ho : offset.toNat < 2^50) :
    swpEntry type offset >>> 6 ≠ offset := by
  intro h
  have hnat : (swpEntry type offset).toNat / 2^6 = offset.toNat := by
    rw [← Nat.shiftRight_eq_div_pow, ← BitVec.toNat_ushiftRight, h]
  rw [toNat_swpEntry ht ho] at hnat
  have hdiv : ((2^50 - 1 - offset.toNat) * 2^9 + type.toNat * 2^59) / 2^6 =
      (2^50 - 1 - offset.toNat) * 8 + type.toNat * 2^53 := by omega
  rw [hdiv] at hnat
  -- the type lies above the offset, and nine does not divide `8 * (2^50 - 1)`
  have htype : type.toNat = 0 := by omega
  rw [htype] at hnat
  omega

/-- `decode_entry` inverts the kernel's swap encoding for no type and no offset, and reports a swap
entry for every entry with the PROTNONE bit and without the Present bit, which maps a page. -/
theorem decodeEntry_swap_never (type offset e : U64) :
    (type.toNat < 32 → offset.toNat < 2^50 →
      .swap type offset ∉ decodeEntry (swpEntry type offset)) ∧
    (e.getLsbD 0 = false → e.getLsbD 8 = true →
      ptePresent e = true ∧ ∃ type' offset', .swap type' offset' ∈ decodeEntry e) := by
  constructor
  · intro ht ho hmem
    rw [swap_mem_decodeEntry] at hmem
    exact swpEntry_shift_ne ht ho hmem.2.2.2.symm
  · intro h0 h8
    have hne : e ≠ 0 := by
      rintro rfl
      exact absurd h8 (by decide)
    exact ⟨(ptePresent_iff e).mpr (.inr h8), _, _,
      swap_mem_decodeEntry.mpr ⟨h0, hne, rfl, rfl⟩⟩

/-- The theorem at the type 1 with the offset 5, and at an entry without access rights. -/
theorem decodeEntry_swap_never_five :
    .swap 1 5 ∉ decodeEntry (swpEntry 1 5) ∧
      ∃ type offset, .swap type offset ∈ decodeEntry 0x5100 :=
  ⟨(decodeEntry_swap_never 1 5 0x5100).1 (by decide) (by decide),
    ((decodeEntry_swap_never 1 5 0x5100).2 (by decide) (by decide)).2⟩

/-- The type 1 with the offset 5 is reported as the type 0 with another offset. -/
theorem decodeEntry_not_inverse :
    ¬ ∀ type offset : U64, type.toNat < 32 → offset.toNat < 2^50 →
      .swap type offset ∈ decodeEntry (swpEntry type offset) := by
  intro h
  exact absurd (h 1 5 (by decide) (by decide)) (by decide)

end KernelPortfolio
