import Mathlib.Data.Set.Lattice
import Mathlib.Data.Nat.Bitwise
import Mathlib.Order.CompletePartialOrder
import Mathlib.Order.Interval.Set.Basic
import Mathlib.Tactic.Common

/-!
# Sign-extended words and their slots

A `w`-bit word is sign-extended from bit `n` when its bits from `n` on are all equal. Such a word is
determined by its bits `n` to `0` (`SignExtended.ext`), and is in the lowest or in the highest `2^n`
words (`signExtended_iff_toNat`).

The digit `x / 2^k % 2^(n + 1 - k)` of a sign-extended word says in which slot of `2^k` words it is.
The slots of the lower half of the digits follow each other from 0 on, and those of the upper half
end at `2^w`. `mem_slot_iff` says that a slot holds the sign-extended words with its digit and
nothing else, so that the slots are a partition of them (`slot_disjoint`, `iUnion_slot`).
-/

namespace KernelPortfolio.SignExtend

variable {w : ℕ}

/-! ## Sign-extended words -/

/-- The bits of the word from bit `n` on are all equal. -/
def SignExtended (n : ℕ) (x : BitVec w) : Prop := ∀ i, n ≤ i → i < w → x.getLsbD i = x.getLsbD n

/-- What `signExtend` returns is sign-extended. -/
theorem signExtended_signExtend {n : ℕ} (hn : n < w) (x : BitVec (n + 1)) :
    SignExtended n (x.signExtend w) := by
  intro i hi hiw
  have hmsb : x.msb = x.getLsbD n := by rw [BitVec.msb_eq_getLsbD_last, Nat.add_sub_cancel]
  rw [BitVec.getLsbD_signExtend, BitVec.getLsbD_signExtend, decide_eq_true hiw, decide_eq_true hn,
    if_pos (Nat.lt_succ_self n), Bool.true_and, Bool.true_and]
  rcases Nat.eq_or_lt_of_le hi with rfl | hlt
  · rw [if_pos (Nat.lt_succ_self n)]
  · rw [if_neg (by omega), hmsb]

/-- Two sign-extended words are equal when their low bits are, the sign bit among them. -/
theorem SignExtended.ext {n : ℕ} {x y : BitVec w} (hx : SignExtended n x) (hy : SignExtended n y)
    (h : x.toNat % 2^(n + 1) = y.toNat % 2^(n + 1)) : x = y := by
  have hlow (i : ℕ) (hi : i < n + 1) : x.getLsbD i = y.getLsbD i := by
    have htest := congrArg (Nat.testBit · i) h
    simpa [Nat.testBit_mod_two_pow, hi, BitVec.testBit_toNat] using htest
  apply BitVec.eq_of_getLsbD_eq
  intro i hi
  by_cases hin : i < n + 1
  · exact hlow i hin
  · rw [hx i (by omega) hi, hy i (by omega) hi, hlow n (Nat.lt_succ_self n)]

/-- The complement of a sign-extended word is sign-extended. -/
theorem SignExtended.not {n : ℕ} {x : BitVec w} (hn : n < w) (h : SignExtended n x) :
    SignExtended n (~~~x) := by
  intro i hi hiw
  rw [BitVec.getLsbD_not, BitVec.getLsbD_not, h i hi hiw, decide_eq_true hiw, decide_eq_true hn]

/-- The words below `2^n` are the sign-extended words with the sign bit clear. -/
theorem toNat_lt_iff {n : ℕ} {x : BitVec w} :
    x.toNat < 2^n ↔ SignExtended n x ∧ x.getLsbD n = false := by
  constructor
  · intro h
    have hzero (i : ℕ) (hi : n ≤ i) : x.getLsbD i = false := by
      rw [← BitVec.testBit_toNat]
      exact Nat.testBit_lt_two_pow (lt_of_lt_of_le h (Nat.pow_le_pow_right (by omega) hi))
    exact ⟨fun i hi _ => by rw [hzero i hi, hzero n le_rfl], hzero n le_rfl⟩
  · rintro ⟨h, hsign⟩
    apply Nat.lt_pow_two_of_testBit
    intro i hi
    rw [BitVec.testBit_toNat]
    by_cases hiw : i < w
    · rw [h i hi hiw, hsign]
    · exact BitVec.getLsbD_of_ge x i (by omega)

/-- The sign-extended words are the lowest `2^n` words and the highest `2^n`. -/
theorem signExtended_iff_toNat {n : ℕ} {x : BitVec w} (hn : n < w) :
    SignExtended n x ↔ x.toNat < 2^n ∨ 2^w - 2^n ≤ x.toNat := by
  have hpow : 2^n < 2^w := Nat.pow_lt_pow_right (by omega) hn
  have hx := x.isLt
  -- the words of the upper half are the complements of those of the lower half
  have hupper : 2^w - 2^n ≤ x.toNat ↔ (~~~x).toNat < 2^n := by
    rw [BitVec.toNat_not]
    omega
  rw [hupper, toNat_lt_iff, toNat_lt_iff, BitVec.getLsbD_not, decide_eq_true hn,
    Bool.true_and]
  constructor
  · intro h
    cases hsign : x.getLsbD n with
    | false => exact .inl ⟨h, rfl⟩
    | true => exact .inr ⟨h.not hn, rfl⟩
  · rintro (⟨h, -⟩ | ⟨h, -⟩)
    · exact h
    · simpa using h.not hn

/-! ## Slots -/

/-- The number of the slot for the digit `i` among all the slots of `2^k` words: the upper half of
the digits has the last slots. -/
def slotNumber (w n k i : ℕ) : ℕ := if i < 2^(n - k) then i else 2^(w - k) - 2^(n + 1 - k) + i

/-- Where the slot for the digit `i` starts. -/
def slotStart (w n k i : ℕ) : ℕ := slotNumber w n k i * 2^k

/-- The words of the slot for the digit `i`, as numbers. -/
def slot (w n k i : ℕ) : Set ℕ := Set.Ico (slotStart w n k i) (slotStart w n k i + 2^k)

/-- A number is in a slot exactly when it is in the block of that number. -/
theorem mem_slot_iff_div {n k i a : ℕ} : a ∈ slot w n k i ↔ a / 2^k = slotNumber w n k i := by
  have hpos : 0 < 2^k := Nat.two_pow_pos k
  have hend : slotStart w n k i + 2^k = (slotNumber w n k i + 1) * 2^k := by
    rw [slotStart, Nat.add_one_mul]
  rw [slot, Set.mem_Ico, hend, slotStart, ← Nat.le_div_iff_mul_le hpos,
    ← Nat.div_lt_iff_lt_mul hpos]
  omega

/-- Among `c + 1` rounds of `2 h` numbers, a number is in the first half of the first round or in
the second half of the last one, with the remainder `i`, exactly when it is the one number there. -/
theorem eq_ite_iff {h c q i : ℕ} (hq : q < 2 * h * (c + 1)) (hi : i < 2 * h) :
    q = (if i < h then i else 2 * h * (c + 1) - 2 * h + i) ↔
      (q < h ∨ 2 * h * (c + 1) - h ≤ q) ∧ q % (2 * h) = i := by
  rw [Nat.mul_add_one] at hq ⊢
  rw [Nat.add_sub_cancel]
  constructor
  · intro h'
    split_ifs at h' with hih
    · subst h'
      exact ⟨.inl hih, Nat.mod_eq_of_lt hi⟩
    · subst h'
      exact ⟨.inr (by omega), by rw [Nat.mul_add_mod, Nat.mod_eq_of_lt hi]⟩
  · rintro ⟨hlow | hhigh, rfl⟩
    · rw [Nat.mod_eq_of_lt (show q < 2 * h by omega), if_pos hlow]
    · -- the number is in the last round, and its remainder in the upper half
      obtain ⟨r, rfl⟩ := Nat.exists_eq_add_of_le (show 2 * h * c ≤ q by omega)
      rw [Nat.mul_add_mod, Nat.mod_eq_of_lt (show r < 2 * h by omega), if_neg (by omega)]

section

variable {n k : ℕ} (hk : k ≤ n) (hn : n < w)

include hk hn

/-- The slot for a digit holds the sign-extended words with that digit. -/
theorem mem_slot_iff {i : ℕ} (hi : i < 2^(n + 1 - k)) (x : BitVec w) :
    x.toNat ∈ slot w n k i ↔ SignExtended n x ∧ x.toNat / 2^k % 2^(n + 1 - k) = i := by
  have hpos : 0 < 2^k := Nat.two_pow_pos k
  have hhalf : 2^n = 2^(n - k) * 2^k := (Nat.pow_sub_mul_pow 2 hk).symm
  have hdigits : 2^(n + 1 - k) = 2 * 2^(n - k) := by
    rw [Nat.sub_add_comm hk, pow_succ, Nat.mul_comm]
  have hwords : 2^w = 2^(w - k) * 2^k := (Nat.pow_sub_mul_pow 2 (hk.trans hn.le)).symm
  -- the number of slots is a multiple of the number of digits
  obtain ⟨c, hc⟩ : ∃ c, 2^(w - k) = 2 * 2^(n - k) * (c + 1) := by
    refine ⟨2^(w - (n + 1)) - 1, ?_⟩
    rw [Nat.sub_add_cancel Nat.one_le_two_pow, ← hdigits, ← pow_add]
    congr 1
    omega
  have hq : x.toNat / 2^k < 2 * 2^(n - k) * (c + 1) := by
    rw [← hc, Nat.div_lt_iff_lt_mul hpos, ← hwords]
    exact x.isLt
  have hsign : SignExtended n x ↔
      x.toNat / 2^k < 2^(n - k) ∨ 2 * 2^(n - k) * (c + 1) - 2^(n - k) ≤ x.toNat / 2^k := by
    rw [signExtended_iff_toNat hn, Nat.div_lt_iff_lt_mul hpos, Nat.le_div_iff_mul_le hpos,
      Nat.sub_mul, ← hc, ← hwords, ← hhalf]
  rw [hdigits] at hi ⊢
  rw [mem_slot_iff_div, slotNumber, hdigits, hc, hsign]
  exact eq_ite_iff hq hi

/-- The slots end at `2^w`. -/
theorem lt_of_mem_slot {i a : ℕ} (hi : i < 2^(n + 1 - k)) (ha : a ∈ slot w n k i) : a < 2^w := by
  have hpos : 0 < 2^k := Nat.two_pow_pos k
  have hle : 2^(n + 1 - k) ≤ 2^(w - k) := Nat.pow_le_pow_right (by omega) (by omega)
  have hwords : 2^w = 2^(w - k) * 2^k := (Nat.pow_sub_mul_pow 2 (hk.trans hn.le)).symm
  rw [hwords, ← Nat.div_lt_iff_lt_mul hpos, mem_slot_iff_div.mp ha, slotNumber]
  split_ifs <;> omega

/-- What is in a slot is a word. -/
theorem toNat_ofNat_of_mem_slot {i a : ℕ} (hi : i < 2^(n + 1 - k)) (ha : a ∈ slot w n k i) :
    (BitVec.ofNat w a).toNat = a := by
  rw [BitVec.toNat_ofNat, Nat.mod_eq_of_lt (lt_of_mem_slot hk hn hi ha)]

/-- The slots for two digits have no word in common. -/
theorem slot_disjoint {i j : ℕ} (hi : i < 2^(n + 1 - k)) (hj : j < 2^(n + 1 - k)) (hij : i ≠ j) :
    Disjoint (slot w n k i) (slot w n k j) := by
  rw [Set.disjoint_left]
  intro a hai haj
  have ha := toNat_ofNat_of_mem_slot hk hn hi hai
  rw [← ha, mem_slot_iff hk hn hi] at hai
  rw [← ha, mem_slot_iff hk hn hj] at haj
  exact hij (hai.2.symm.trans haj.2)

/-- A sign-extended word is in the slot for its digit. -/
theorem SignExtended.mem_slot {x : BitVec w} (hx : SignExtended n x) :
    x.toNat ∈ slot w n k (x.toNat / 2^k % 2^(n + 1 - k)) :=
  (mem_slot_iff hk hn (Nat.mod_lt _ (Nat.two_pow_pos _)) x).mpr ⟨hx, rfl⟩

/-- The slots hold the sign-extended words and nothing else. -/
theorem iUnion_slot :
    ⋃ i < 2^(n + 1 - k), slot w n k i = BitVec.toNat '' {x : BitVec w | SignExtended n x} := by
  ext a
  simp only [Set.mem_iUnion, Set.mem_image, Set.mem_ofPred_eq, exists_prop]
  constructor
  · rintro ⟨i, hi, ha⟩
    have hword := toNat_ofNat_of_mem_slot hk hn hi ha
    rw [← hword, mem_slot_iff hk hn hi] at ha
    exact ⟨BitVec.ofNat w a, ha.1, hword⟩
  · rintro ⟨x, hx, rfl⟩
    exact ⟨_, Nat.mod_lt _ (Nat.two_pow_pos _), hx.mem_slot hk hn⟩

end

end KernelPortfolio.SignExtend
