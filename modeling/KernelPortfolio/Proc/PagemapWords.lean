import KernelPortfolio.Paging.Hardware
import KernelPortfolio.Proc.PagemapRead
import KernelPortfolio.User.PagemapReaders

/-!
# What the words of the pagemap say

Every word that a read returns is of the documented form (`WordOk`), and hides the frame from a
reader without `CAP_SYS_ADMIN`, whatever the walk calls back and wherever the read is disturbed
(`wordOk_of_mem_pagemapRead`). Where nothing changes, the file is an array of the words of the pages
(`words_append`).

The programs read one word of it. With `CAP_SYS_ADMIN` they get the frame that the page tables of
the hardware translate the address to (`getPfn_translates`), but in a VMA with `VM_PFNMAP`, whose
pages the file calls not present (`getPfn_pfnmap`).
-/

namespace KernelPortfolio.PagemapRead

variable {k : PageFacts} {showPfn : Bool} {frame flags : U64}

/-! ## The form of a word -/

/-- The form of a word, as the comment at `pagemap_read` documents it. -/
structure WordOk (showPfn : Bool) (word : U64) : Prop where
  reserved : word.getLsbD 59 = false ∧ word.getLsbD 60 = false
  present_or_swap : word.getLsbD 63 = true → word.getLsbD 62 = false
  exclusive : word.getLsbD 56 = true → word.getLsbD 63 = true
  frame : showPfn = false ∨ (word.getLsbD 63 = false ∧ word.getLsbD 62 = false) →
    ∀ i < 55, word.getLsbD i = false

/-- The bits of a word. -/
theorem getLsbD_makePme (frame flags : U64) (i : ℕ) :
    (makePme frame flags).getLsbD i = (frame.getLsbD i && decide (i < 55) || flags.getLsbD i) := by
  unfold makePme pmPframeMask
  rw [BitVec.getLsbD_or, BitField.getLsbD_and_field, decide_eq_true (Nat.zero_le i), Bool.and_true]

/-- The flags of a word: above its frame, none of the reserved bits, and whether `PM_PRESENT`,
`PM_SWAP` and `PM_MMAP_EXCLUSIVE` are among them. -/
structure FlagsOk (present swap exclusive : Bool) (flags : U64) : Prop where
  low : ∀ i < 55, flags.getLsbD i = false
  reserved : flags.getLsbD 59 = false ∧ flags.getLsbD 60 = false
  present : flags.getLsbD 63 = present
  swap : flags.getLsbD 62 = swap
  exclusive : flags.getLsbD 56 = exclusive

/-- No flag. -/
theorem flagsOk_zero : FlagsOk false false false 0 :=
  ⟨fun _ _ => BitVec.getLsbD_zero, by decide, by decide, by decide, by decide⟩

/-- A flag alone. -/
theorem flagsOk_twoPow {n : ℕ} (h : 55 ≤ n) (h' : n ≠ 59) (h'' : n ≠ 60) :
    FlagsOk (n == 63) (n == 62) (n == 56) (.twoPow 64 n) := by
  have hbit (i : ℕ) (hi : i < 64) : (BitVec.twoPow 64 n).getLsbD i = (n == i) := by
    rw [BitVec.getLsbD_twoPow, Bool.eq_iff_iff, Bool.and_eq_true, decide_eq_true_iff,
      decide_eq_true_iff, beq_iff_eq]
    omega
  refine ⟨?_, ⟨?_, ?_⟩, hbit 63 (by decide), hbit 62 (by decide), hbit 56 (by decide)⟩
  · intro i hi
    rw [hbit i (by omega), beq_eq_false_iff_ne]
    omega
  · rw [hbit 59 (by decide), beq_eq_false_iff_ne]
    exact h'
  · rw [hbit 60 (by decide), beq_eq_false_iff_ne]
    exact h''

/-- A flag that may be there, and is none of those that are told apart. -/
theorem flagsOk_flagIf (b : Bool) {n : ℕ} (h : 55 ≤ n) (hn : n ∉ [56, 59, 60, 62, 63]) :
    FlagsOk false false false (flagIf b (.twoPow 64 n)) := by
  simp only [List.mem_cons, List.not_mem_nil, or_false, not_or] at hn
  obtain ⟨h56, h59, h60, h62, h63⟩ := hn
  cases b with
  | false => exact flagsOk_zero
  | true =>
    have hflag := flagsOk_twoPow h h59 h60
    rw [beq_eq_false_iff_ne.mpr h63, beq_eq_false_iff_ne.mpr h62, beq_eq_false_iff_ne.mpr h56]
      at hflag
    exact hflag

/-- `PM_MMAP_EXCLUSIVE`. -/
theorem flagsOk_exclusive (b : Bool) : FlagsOk false false b (flagIf b pmMmapExclusive) := by
  cases b with
  | false => exact flagsOk_zero
  | true => exact flagsOk_twoPow (n := 56) (by decide) (by decide) (by decide)

/-- `PM_PRESENT`. -/
theorem flagsOk_present : FlagsOk true false false pmPresent :=
  flagsOk_twoPow (n := 63) (by decide) (by decide) (by decide)

/-- `PM_SWAP`. -/
theorem flagsOk_swap : FlagsOk false true false pmSwap :=
  flagsOk_twoPow (n := 62) (by decide) (by decide) (by decide)

/-- Flags together. -/
theorem FlagsOk.or {p s e p' s' e' : Bool} {x y : U64} (hx : FlagsOk p s e x)
    (hy : FlagsOk p' s' e' y) : FlagsOk (p || p') (s || s') (e || e') (x ||| y) := by
  refine ⟨?_, ?_, ?_, ?_, ?_⟩
  · intro i hi
    rw [BitVec.getLsbD_or, hx.low i hi, hy.low i hi]
    rfl
  · rw [BitVec.getLsbD_or, BitVec.getLsbD_or, hx.reserved.1, hx.reserved.2, hy.reserved.1,
      hy.reserved.2]
    exact ⟨rfl, rfl⟩
  · rw [BitVec.getLsbD_or, hx.present, hy.present]
  · rw [BitVec.getLsbD_or, hx.swap, hy.swap]
  · rw [BitVec.getLsbD_or, hx.exclusive, hy.exclusive]

/-- The flag of a VMA. -/
theorem flagsOk_vmaFlags (vma : MapsVma) : FlagsOk false false false (vmaFlags vma) :=
  flagsOk_flagIf _ (by decide) (by decide)

/-- The flags of a folio: a page is exclusive only if it is present. -/
theorem flagsOk_folioFlags (k : PageFacts) (present : Bool) (page : Option U64) :
    ∃ e, FlagsOk false false (present && e) (folioFlags k present page) := by
  cases page with
  | none =>
    refine ⟨false, ?_⟩
    rw [Bool.and_false]
    exact flagsOk_zero
  | some page =>
    refine ⟨folioPageMappedExclusively k page, ?_⟩
    exact (flagsOk_flagIf (!k.folioTestAnon page) (by decide) (by decide)).or (flagsOk_exclusive _)

/-- A word is of the documented form if its flags are, and if its frame is 0 where it has to be. -/
theorem wordOk_makePme {p s e : Bool} (hflags : FlagsOk p s e flags) (hor : p = true → s = false)
    (hexclusive : e = true → p = true)
    (hframe : showPfn = false ∨ (p = false ∧ s = false) → frame = 0) :
    WordOk showPfn (makePme frame flags) := by
  have hhigh {i : ℕ} (hi : 55 ≤ i) : (makePme frame flags).getLsbD i = flags.getLsbD i := by
    rw [getLsbD_makePme, decide_eq_false (show ¬ i < 55 by omega), Bool.and_false, Bool.false_or]
  refine ⟨?_, ?_, ?_, ?_⟩
  · rw [hhigh (by decide), hhigh (by decide)]
    exact hflags.reserved
  · rw [hhigh (by decide), hhigh (by decide), hflags.present, hflags.swap]
    exact hor
  · rw [hhigh (by decide), hhigh (by decide), hflags.present, hflags.exclusive]
    exact hexclusive
  · rw [hhigh (by decide), hhigh (by decide), hflags.present, hflags.swap]
    intro h i hi
    rw [getLsbD_makePme, hframe h, hflags.low i hi,
      show (0 : U64).getLsbD i = false from BitVec.getLsbD_zero]
    rfl

/-- The word of a page without anything but the flag of its VMA. -/
theorem wordOk_vmaFlags (vma : MapsVma) : WordOk showPfn (makePme 0 (vmaFlags vma)) :=
  wordOk_makePme (flagsOk_vmaFlags vma) (fun _ => rfl) (fun h => h) fun _ => rfl

/-- The word of a page that is present: its frame, if the reader may see it, and `PM_PRESENT`. -/
def PresentWord (showPfn : Bool) (frame word : U64) : Prop :=
  ∃ flags e, word = makePme (if showPfn then frame else 0) flags ∧ FlagsOk true false e flags

/-- It is of the documented form. -/
theorem PresentWord.wordOk {word : U64} (h : PresentWord showPfn frame word) :
    WordOk showPfn word := by
  obtain ⟨flags, e, rfl, hflags⟩ := h
  refine wordOk_makePme hflags (fun _ => rfl) (fun _ => rfl) ?_
  intro hor
  rcases hor with rfl | ⟨hfalse, -⟩
  · rfl
  · exact absurd hfalse (by decide)

/-- The word of an entry of the last level that is present. -/
theorem presentWord_pte (vma : MapsVma) (page : ℕ) {pte : U64} (hnone : ¬ pteNone pte = true)
    (hpresent : ptePresent pte = true) :
    PresentWord showPfn (ptePfn pte) (pteToPagemapEntry k showPfn vma page pte) := by
  unfold pteToPagemapEntry
  rw [if_neg hnone, if_pos hpresent]
  obtain ⟨e, hfolio⟩ := flagsOk_folioFlags k true (k.vmNormalPage vma page pte)
  have hdirty := flagsOk_flagIf (n := 55) (pteSoftDirty pte) (by decide) (by decide)
  have huffd := flagsOk_flagIf (n := 57) (pteUffdWp pte) (by decide) (by decide)
  have hflags := (((flagsOk_present.or hdirty).or huffd).or hfolio).or (flagsOk_vmaFlags vma)
  exact ⟨_, _, rfl, hflags⟩

/-- The word of the page `i` of a huge page that is present. -/
theorem presentWord_thpOf (vma : MapsVma) {pmd : U64} (hnone : ¬ pmdNone pmd = true)
    (hpresent : pmdPresent pmd = true) (i : ℕ) :
    PresentWord showPfn (pmdPfn pmd + BitVec.ofNat 64 i) ((thpOf k showPfn vma pmd).word i) := by
  unfold thpOf
  rw [if_neg hnone, if_pos hpresent]
  obtain ⟨e, hfolio⟩ := flagsOk_folioFlags k true (some (pmdPfn pmd))
  have hdirty := flagsOk_flagIf (n := 55) (pmdSoftDirty pmd) (by decide) (by decide)
  have huffd := flagsOk_flagIf (n := 57) (pmdUffdWp pmd) (by decide) (by decide)
  have hflags := ((((flagsOk_vmaFlags vma).or flagsOk_present).or hdirty).or huffd).or hfolio
  exact ⟨_, _, rfl, hflags⟩

/-- The word of the page `i` of a `hugetlbfs` page that is present. -/
theorem presentWord_hugetlbOf (vma : MapsVma) {pte : U64} (shared : Bool)
    (hpresent : ptePresent pte = true) (i : ℕ) :
    PresentWord showPfn (ptePfn pte + BitVec.ofNat 64 i)
      ((hugetlbOf k showPfn vma pte shared).word i) := by
  unfold hugetlbOf
  rw [if_pos hpresent]
  have hfile := flagsOk_flagIf (n := 61) (!k.folioTestAnon (ptePfn pte)) (by decide) (by decide)
  have hexclusive := flagsOk_exclusive (!k.maybeMappedShared (ptePfn pte) && !shared)
  have huffd := flagsOk_flagIf (n := 57) (k.hugePteUffdWp pte) (by decide) (by decide)
  have hflags := ((((flagsOk_vmaFlags vma).or hfile).or hexclusive).or huffd).or flagsOk_present
  exact ⟨_, _, rfl, hflags⟩

/-- The word of an entry of the last level. -/
theorem wordOk_pteToPagemapEntry (vma : MapsVma) (page : ℕ) (pte : U64) :
    WordOk showPfn (pteToPagemapEntry k showPfn vma page pte) := by
  by_cases hnone : pteNone pte = true
  · unfold pteToPagemapEntry
    rw [if_pos hnone]
    exact wordOk_vmaFlags vma
  by_cases hpresent : ptePresent pte = true
  · exact (presentWord_pte vma page hnone hpresent).wordOk
  · unfold pteToPagemapEntry
    rw [if_neg hnone, if_neg hpresent]
    obtain ⟨e, hfolio⟩ := flagsOk_folioFlags k false (k.softleaf pte).pfn
    have hdirty := flagsOk_flagIf (n := 55) (pteSwpSoftDirty pte) (by decide) (by decide)
    have huffd := flagsOk_flagIf (n := 57) (pteSwpUffdWp pte) (by decide) (by decide)
    have hmarker := flagsOk_flagIf (n := 57) (k.softleaf pte).uffdWpMarker (by decide) (by decide)
    have hguard := flagsOk_flagIf (n := 58) (k.softleaf pte).guardMarker (by decide) (by decide)
    refine wordOk_makePme ((((((hdirty.or huffd).or flagsOk_swap).or hmarker).or hguard).or
      hfolio).or (flagsOk_vmaFlags vma)) ?_ ?_ ?_
    · simp
    · simp
    · simp +contextual

/-- The words of the pages of a huge page. -/
theorem wordOk_thpOf (vma : MapsVma) (pmd : U64) (i : ℕ) :
    WordOk showPfn ((thpOf k showPfn vma pmd).word i) := by
  by_cases hnone : pmdNone pmd = true
  · unfold thpOf
    rw [if_pos hnone]
    exact wordOk_vmaFlags vma
  by_cases hpresent : pmdPresent pmd = true
  · exact (presentWord_thpOf vma hnone hpresent i).wordOk
  unfold thpOf
  rw [if_neg hnone, if_neg hpresent]
  by_cases hmigration : k.thpMigrationSupported = true
  · rw [if_pos hmigration]
    obtain ⟨e, hfolio⟩ := flagsOk_folioFlags k false (k.softleaf pmd).pfn
    have hdirty := flagsOk_flagIf (n := 55) (pmdSwpSoftDirty pmd) (by decide) (by decide)
    have huffd := flagsOk_flagIf (n := 57) (pmdSwpUffdWp pmd) (by decide) (by decide)
    refine wordOk_makePme
      (((((flagsOk_vmaFlags vma).or flagsOk_swap).or hdirty).or huffd).or hfolio) ?_ ?_ ?_
    · simp
    · simp
    · simp +contextual
  · rw [if_neg hmigration]
    exact wordOk_vmaFlags vma

/-- The words of the pages of a `hugetlbfs` page. -/
theorem wordOk_hugetlbOf (vma : MapsVma) (pte : U64) (shared : Bool) (i : ℕ) :
    WordOk showPfn ((hugetlbOf k showPfn vma pte shared).word i) := by
  by_cases hpresent : ptePresent pte = true
  · exact (presentWord_hugetlbOf vma shared hpresent i).wordOk
  · unfold hugetlbOf
    rw [if_neg hpresent]
    have huffd := flagsOk_flagIf (n := 57) (k.pteSwpUffdWpAny pte) (by decide) (by decide)
    exact wordOk_makePme ((flagsOk_vmaFlags vma).or huffd) (by simp) (by simp) fun _ => rfl

/-- The word of every page is of the documented form. -/
theorem wordOk_entryOf (a : AddressSpace) (page : ℕ) :
    WordOk showPfn (entryOf k showPfn a page) := by
  have hzero : WordOk showPfn 0 := by
    have hword : WordOk showPfn (makePme 0 0) :=
      wordOk_makePme flagsOk_zero (by simp) (by simp) fun _ => rfl
    exact hword
  unfold entryOf
  cases a.vmaAt page with
  | none => exact hzero
  | some vma =>
    cases a.met page with
    | hole => exact wordOk_vmaFlags vma
    | pte pte => exact wordOk_pteToPagemapEntry vma page pte
    | thp pmd => exact wordOk_thpOf vma pmd _
    | hugetlb size pte shared => exact wordOk_hugetlbOf vma pte shared _

/-! ## The words of a read -/

/-- A piece begins where the one before it ended, and does not end behind the read. -/
theorem pieceBound_spec {start stop : U64} (h : start < stop) :
    start ≤ pieceBound start stop ∧ pieceBound start stop ≤ stop := by
  have hlt := BitVec.lt_def.mp h
  unfold pieceBound
  dsimp only
  split_ifs with hend
  · exact ⟨BitVec.le_def.mpr hlt.le, BitVec.le_refl _⟩
  · rw [not_or, BitVec.not_lt, BitVec.not_lt] at hend
    exact hend

/-- A place that the loop moves on to changes nothing of its words. -/
theorem words_setStart (s : ReadState) (startVaddr : U64) (err : ℤ) :
    ({ s with startVaddr := startVaddr }, err).1.words = s.words := rfl

/-- Whatever happens to the loop, the words that it copied are of the documented form. -/
theorem wordOk_of_mem_readPieces {stop : U64} (hstop : stop.toNat ≤ 4096 * 2^51)
    {pieces : ℕ → Piece} (rounds i : ℕ) (s : ReadState) (hs : ∀ w ∈ s.words, WordOk showPfn w) :
    ∀ w ∈ (readPieces k showPfn stop pieces rounds i s).1.words, WordOk showPfn w := by
  induction rounds generalizing i s with
  | zero => exact hs
  | succ rounds ih =>
    unfold readPieces
    by_cases hend : s.count = 0 ∨ stop ≤ s.startVaddr
    · rw [if_pos hend]
      exact hs
    · rw [if_neg hend]
      rw [not_or, BitVec.not_le] at hend
      obtain ⟨hle, hle'⟩ := pieceBound_spec hend.2
      generalize pieceBound s.startVaddr stop = bound at hle hle' ⊢
      rw [BitVec.le_def] at hle hle'
      have hpages : pageOf s.startVaddr.toNat ≤ pageOf bound.toNat := Nat.div_le_div_right hle
      have hhi : pageOf bound.toNat ≤ 2^51 := by
        unfold pageOf
        omega
      obtain ⟨-, hputs⟩ : _ ∧ Bounded.Puts pmLen
          (entries k showPfn (pieces i).view (pageOf s.startVaddr.toNat) (pageOf bound.toNat))
          (walkPageRange k showPfn (pieces i).view.toMmStruct
            ((pieces i).walk (pageOf s.startVaddr.toNat) (pageOf bound.toNat))) :=
        puts_walkPageRange hhi ((pieces i).walks _ _ hpages)
      have hbuffer := hputs.items_eq (by decide)
      dsimp only
      split_ifs
      · exact hs
      · rw [words_setStart]
        exact hs
      · apply ih
        intro w hw
        rcases List.mem_append.mp hw with hold | hnew
        · exact hs w hold
        · -- what is copied is from the buffer, which has words of pages
          have hmem := List.mem_of_mem_take hnew
          rw [hbuffer] at hmem
          have hentry := List.mem_of_mem_take hmem
          unfold entries at hentry
          obtain ⟨page, -, rfl⟩ := List.mem_map.mp hentry
          exact wordOk_entryOf _ _

/-- Every word that a read copies to its reader is of the documented form, and hides the frame from
one without `CAP_SYS_ADMIN`: for every position and count, whatever is mapped, and also where the
read fails on its way. -/
theorem wordOk_of_mem_pagemapRead (k : PageFacts) (f : PagemapFile) (t : Attempt) (pos : U64)
    (count : ℕ) : ∀ w ∈ (pagemapRead k f t pos count).words, WordOk f.sysAdmin w := by
  have hstop (svpfn : U64) : (readRange f svpfn count).2.toNat ≤ 4096 * 2^51 := by
    have htask := f.toNat_taskSize
    have hle := f.taskPages_le
    unfold readRange endVaddr
    dsimp only
    split_ifs with hsv hend
    · obtain ⟨-, hlt⟩ := hend
      rw [BitVec.lt_def] at hlt
      dsimp only
      omega
    · dsimp only
      omega
    · dsimp only
      omega
  have hloop := @wordOk_of_mem_readPieces k f.sysAdmin _ (hstop (pos / 8)) t.pieces
    (pageOf (readRange f (pos / 8) count).2.toNat - pageOf (readRange f (pos / 8) count).1.toNat) 0
    ⟨(readRange f (pos / 8) count).1, count, 0, []⟩ (by simp)
  unfold pagemapRead
  dsimp only
  split_ifs
  · simp
  · simp
  · simp
  · simp
  · simp
  · exact hloop
  · exact hloop

/-- `wordOk_of_mem_pagemapRead`, for the word of the page in the frame 5. -/
theorem wordOk_of_mem_pagemapRead_demo : WordOk true 0x8000000000000005 :=
  wordOk_of_mem_pagemapRead demoFacts demoPagemap demoAttempt 8 8 _ (by decide)

/-! ## The file as an array -/

variable {f : PagemapFile} {t : Attempt} {a : AddressSpace}

/-- The position of a page's word asks for the page. -/
theorem firstPage_ofNat {page : ℕ} (h : page ≤ f.taskPages) :
    f.firstPage (BitVec.ofNat 64 (8 * page)) = page := by
  have hle := f.taskPages_le
  have hpos : (BitVec.ofNat 64 (8 * page)).toNat = 8 * page := by
    rw [BitVec.toNat_ofNat, Nat.mod_eq_of_lt (by omega)]
  have haddr : (BitVec.ofNat 64 (8 * page) / 8) <<< 12 = BitVec.ofNat 64 (4096 * page) := by
    have hdiv : (BitVec.ofNat 64 (8 * page) / 8).toNat = page := by
      rw [BitVec.toNat_udiv, hpos]
      exact Nat.mul_div_cancel_left page (by decide)
    rw [← BitVec.toNat_inj, BitVec.toNat_shiftLeft, hdiv, BitVec.toNat_ofNat, Nat.shiftLeft_eq,
      Nat.mul_comm page]
  have htoNat : (BitVec.ofNat 64 (4096 * page)).toNat = 4096 * page := by
    rw [BitVec.toNat_ofNat, Nat.mod_eq_of_lt (by omega)]
  unfold PagemapFile.firstPage
  rw [hpos, Nat.mul_div_cancel_left page (by decide), if_pos (by omega), haddr, f.untag_user page h,
    htoNat]
  exact Nat.mul_div_cancel_left page (by decide)

/-- The read of `n` words from the word of a page on, where the address space does not change. -/
theorem pagemapRead_quiet (ht : t.Undisturbed) (hquiet : ∀ i, (t.pieces i).view = a) {page n : ℕ}
    (hpage : page ≤ f.taskPages) (hn : 8 * n ≤ 0x7ffff000) :
    pagemapRead k f t (BitVec.ofNat 64 (8 * page)) (8 * n) =
      ⟨8 * min n (f.taskPages - page),
        entries k f.sysAdmin a page (page + min n (f.taskPages - page)),
        BitVec.ofNat 64 (8 * (page + min n (f.taskPages - page)))⟩ := by
  have hle := f.taskPages_le
  have hpos : (BitVec.ofNat 64 (8 * page)).toNat = 8 * page := by
    rw [BitVec.toNat_ofNat, Nat.mod_eq_of_lt (by omega)]
  have hfew : f.wordsFrom (BitVec.ofNat 64 (8 * page)) (8 * n) = min n (f.taskPages - page) := by
    rw [PagemapFile.wordsFrom, firstPage_ofNat hpage, Nat.mul_div_cancel_left n (by decide)]
  have hwords (m : ℕ) : pieceWords k f.sysAdmin t.pieces 0 page (page + m) =
      entries k f.sysAdmin a page (page + m) := by
    unfold pieceWords entries
    apply List.map_congr_left
    intro q _
    rw [hquiet]
  have hdvd : 8 ∣ (BitVec.ofNat 64 (8 * page)).toNat := by
    rw [hpos]
    exact Nat.dvd_mul_right 8 page
  rw [pagemapRead_eq ht hdvd (Nat.dvd_mul_right 8 n) hn, hfew, firstPage_ofNat hpage, hwords,
    ← BitVec.ofNat_add, ← Nat.mul_add]

/-- What one read gets, two reads get, of which the second one begins where the first one ended. -/
theorem words_append (ht : t.Undisturbed) (hquiet : ∀ i, (t.pieces i).view = a) {page m n : ℕ}
    (hpage : page ≤ f.taskPages) (hmn : 8 * (m + n) ≤ 0x7ffff000) :
    let first := pagemapRead k f t (BitVec.ofNat 64 (8 * page)) (8 * m)
    (pagemapRead k f t (BitVec.ofNat 64 (8 * page)) (8 * (m + n))).words =
      first.words ++ (pagemapRead k f t first.pos (8 * n)).words := by
  intro first
  have hfirst := pagemapRead_quiet (k := k) ht hquiet hpage (show 8 * m ≤ 0x7ffff000 by omega)
  have hmid : page + min m (f.taskPages - page) ≤ f.taskPages := by omega
  have hsecond := pagemapRead_quiet (k := k) ht hquiet hmid (show 8 * n ≤ 0x7ffff000 by omega)
  have hend : page + min (m + n) (f.taskPages - page) =
      page + min m (f.taskPages - page) +
        min n (f.taskPages - (page + min m (f.taskPages - page))) := by omega
  rw [show first = _ from hfirst, hsecond, pagemapRead_quiet ht hquiet hpage hmn, hend]
  exact entries_append (by omega) (by omega)

/-- `words_append`, for one word and three. -/
theorem words_append_demo :
    let first := pagemapRead demoFacts demoPagemap demoAttempt (BitVec.ofNat 64 (8 * 1)) (8 * 1)
    (pagemapRead demoFacts demoPagemap demoAttempt (BitVec.ofNat 64 (8 * 1)) (8 * (1 + 3))).words =
      first.words ++ (pagemapRead demoFacts demoPagemap demoAttempt first.pos (8 * 3)).words :=
  words_append demoAttempt_undisturbed (fun _ => rfl) (by decide) (by decide)

/-! ## What the programs read -/

/-- The file, as the programs see it that read one word. -/
def ofFile (k : PageFacts) (f : PagemapFile) (t : Attempt) : Pagemap where
  opens := true
  seeks := true
  read offset :=
    match (pagemapRead k f t offset 8).words with
    | [word] => some word
    | _ => none

/-- The page of an address. -/
def pageOfVa (va : U64) : ℕ := pageOf va.toNat

/-- A program that reads the word of an address gets that of its page. -/
theorem ofFile_read (ht : t.Undisturbed) {va : U64} (hva : pageOfVa va < f.taskPages) :
    (ofFile k f t).read (entryOffset va) =
      some (entryOf k f.sysAdmin (t.pieces 0).view (pageOfVa va)) := by
  have hle := f.taskPages_le
  have hpos : (BitVec.ofNat 64 (8 * pageOfVa va)).toNat = 8 * pageOfVa va := by
    rw [BitVec.toNat_ofNat, Nat.mod_eq_of_lt (by omega)]
  have hoffset : entryOffset va = BitVec.ofNat 64 (8 * pageOfVa va) := by
    rw [← BitVec.toNat_inj, toNat_entryOffset, hpos]
    rfl
  have hdvd : 8 ∣ (BitVec.ofNat 64 (8 * pageOfVa va)).toNat := by
    rw [hpos]
    exact Nat.dvd_mul_right 8 _
  have hone : f.wordsFrom (BitVec.ofNat 64 (8 * pageOfVa va)) 8 = 1 := by
    rw [PagemapFile.wordsFrom, firstPage_ofNat hva.le]
    omega
  have hwords : (pagemapRead k f t (entryOffset va) 8).words =
      [entryOf k f.sysAdmin (t.pieces 0).view (pageOfVa va)] := by
    rw [hoffset, pagemapRead_eq ht hdvd (Nat.dvd_refl 8) (by decide), hone, firstPage_ofNat hva.le,
      pieceWords, Nat.add_sub_cancel_left, List.range'_one, List.map_singleton, Nat.sub_self]
  unfold ofFile
  dsimp only
  rw [hwords]

/-- How the kernel knows a page that the hardware translates through the entry `e` of the level `l`.
An entry of a huge page has no bits between its flags and its frame. -/
inductive MappedAs : PtLevel → U64 → Mapping → Prop
  | pt (e : U64) : MappedAs .pt e (.pte e)
  | thp (e : U64) : e.getLsbD 7 = true → MappedAs .pd e (.thp e)
  | hugePmd (e : U64) (shared : Bool) : e.toNat / 2^12 % 2^9 = 0 →
      MappedAs .pd e (.hugetlb 512 e shared)
  | hugePud (e : U64) (shared : Bool) : e.toNat / 2^12 % 2^18 = 0 →
      MappedAs .pdpt e (.hugetlb 262144 e shared)

/-- The frame of a page is the one that the hardware translates it to, and the word says so. -/
theorem presentWord_entryOf {l : PtLevel} {e va : U64} {vma : MapsVma} {m : Mapping}
    (hvma : a.vmaAt (pageOfVa va) = some vma) (hmet : a.met (pageOfVa va) = m)
    (hmapped : MappedAs l e m) (hpresent : e.getLsbD 0 = true) :
    ∃ frame, PresentWord showPfn frame (entryOf k showPfn a (pageOfVa va)) ∧
      frame.toNat = leafAddr l e va / 4096 := by
  have hnone : ¬ pteNone e = true := by
    rw [pteNone_eq_false hpresent]
    exact Bool.false_ne_true
  have hpte : ptePresent e = true := (ptePresent_iff e).mpr (.inl hpresent)
  have hpfn := toNat_ptePfn hpresent
  have hlt := va.isLt
  have hindex (size : ℕ) (hsize : size ≤ 262144) (hpos : 0 < size) :
      (BitVec.ofNat 64 (pageOfVa va % size)).toNat = va.toNat / 4096 % size := by
    have hmod : va.toNat / 4096 % size < size := Nat.mod_lt _ hpos
    rw [BitVec.toNat_ofNat, Nat.mod_eq_of_lt (by unfold pageOfVa pageOf; omega)]
    rfl
  unfold entryOf
  rw [hvma, hmet]
  cases hmapped with
  | pt =>
    refine ⟨ptePfn e, presentWord_pte vma _ hnone hpte, ?_⟩
    rw [hpfn]
    simp only [leafAddr, PtLevel.shift]
    omega
  | thp _ hpse =>
    obtain ⟨hpmd, hnone'⟩ := pmdPresent_of_present hpresent
    refine ⟨_, presentWord_thpOf vma (by rw [hnone']; exact Bool.false_ne_true) hpmd _, ?_⟩
    rw [BitVec.toNat_add, toNat_pmdPfn hpresent hpse, hindex 512 (by decide) (by decide)]
    simp only [leafAddr, PtLevel.shift]
    omega
  | hugePmd _ shared halign =>
    refine ⟨_, presentWord_hugetlbOf vma shared hpte _, ?_⟩
    rw [BitVec.toNat_add, hpfn, hindex 512 (by decide) (by decide)]
    simp only [leafAddr, PtLevel.shift]
    omega
  | hugePud _ shared halign =>
    refine ⟨_, presentWord_hugetlbOf vma shared hpte _, ?_⟩
    rw [BitVec.toNat_add, hpfn, hindex 262144 (by decide) (by decide)]
    simp only [leafAddr, PtLevel.shift]
    omega

/-- What the programs take out of the word of a page that is present. -/
theorem presentPfn_of_presentWord {word : U64} (h : PresentWord showPfn frame word)
    (hframe : frame.toNat < 2^55) : presentPfn word = if showPfn then frame else 0 := by
  obtain ⟨flags, e, rfl, hflags⟩ := h
  have hlow (x : U64) (hx : x.toNat < 2^55) : pfnField (makePme x flags) = x := by
    have hkeep : x &&& BitField.field 64 0 55 = x := by
      rw [← BitVec.toNat_inj, BitField.toNat_and_low, Nat.mod_eq_of_lt hx]
    unfold pfnField makePme pmPframeMask
    rw [hkeep]
    apply BitVec.eq_of_getLsbD_eq
    intro i hi
    rw [BitField.getLsbD_and_field, BitVec.getLsbD_or]
    by_cases hi' : i < 55
    · simp [hflags.low i hi', hi']
    · have hzero : x.getLsbD i = false := by
        rw [← hkeep, BitField.getLsbD_and_field, decide_eq_false hi', Bool.and_false]
      simp [hi', hzero]
  have hbit : (makePme (if showPfn then frame else 0) flags).getLsbD 63 = true := by
    rw [getLsbD_makePme, hflags.present, Bool.or_true]
  rw [presentPfn, hbit, if_pos rfl]
  cases showPfn with
  | false => exact hlow 0 (by decide)
  | true => exact hlow frame hframe

/-- `get_pfn` of both programs, on a file that can be opened and read. -/
theorem getPfn_of_read {pm : Pagemap} {va word : U64} (hopens : pm.opens = true)
    (hseeks : pm.seeks = true) (hread : pm.read (entryOffset va) = some word) :
    (MallocUser.getPfn pm va).2 = presentPfn word ∧
      (DirtyTraceV2.getPfn pm va).2 = presentPfn word := by
  have hmask : word &&& ((1 <<< 55) - 1) = pfnField word := rfl
  constructor
  · rw [mallocUser_getPfn_snd, MallocUser.entryRead, hopens, hseeks, hread]
    rfl
  · unfold DirtyTraceV2.getPfn
    rw [hopens, div_mul_eq_entryOffset]
    simp only [Bool.not_true, Bool.false_eq_true, if_false, hread, and_one_shiftLeft_63, hmask,
      presentPfn]
    cases word.getLsbD 63 <;> rfl

/-- The entry of a leaf has the Present bit. -/
theorem present_of_hwWalk_leaf {m : Machine} {root va e : U64} {l : PtLevel}
    (h : hwWalk m root va = .leaf l e) : e.getLsbD 0 = true := by
  rw [hwWalk_eq] at h
  split_ifs at h with h4 h3 h3' h2 h2' h1 <;> cases h
  · exact Bool.not_eq_false _ ▸ h3
  · exact Bool.not_eq_false _ ▸ h2
  · exact Bool.not_eq_false _ ▸ h1

/-- An address that the hardware translates, in a VMA without `VM_PFNMAP`. With `CAP_SYS_ADMIN` both
programs get the frame that the hardware translates it to. Without, both get 0, and `malloc_user`
says of the page that it is not present. -/
theorem getPfn_translates {m : Machine} {root va e : U64} {l : PtLevel} {vma : MapsVma}
    (ht : t.Undisturbed) (hva : pageOfVa va < f.taskPages) (hwalk : hwWalk m root va = .leaf l e)
    (hvma : (t.pieces 0).view.vmaAt (pageOfVa va) = some vma)
    (hpfnmap : vma.vmFlags &&& vmPfnmap = 0)
    (hmapped : MappedAs l e ((t.pieces 0).view.mapping (pageOfVa va))) (pid : CInt)
    (rss : ℕ → U64) (after : Pagemap) :
    let pm := ofFile k f t
    let pfn := (MallocUser.getPfn pm va).2
    (DirtyTraceV2.getPfn pm va).2 = pfn ∧
      if f.sysAdmin then pfn.toNat * 4096 + va.toNat % 4096 = leafAddr l e va
      else pfn = 0 ∧ .say .notPresent ∈ (MallocUser.main pid rss (some va) pm after).1 := by
  intro pm pfn
  obtain ⟨frame, hword, hframe⟩ : ∃ frame, PresentWord f.sysAdmin frame
      (entryOf k f.sysAdmin (t.pieces 0).view (pageOfVa va)) ∧
        frame.toNat = leafAddr l e va / 4096 :=
    presentWord_entryOf hvma (AddressSpace.met_of_vmaAt hvma hpfnmap) hmapped
      (present_of_hwWalk_leaf hwalk)
  have hlt := leafAddr_lt l e va
  obtain ⟨hmalloc, hdirty⟩ :=
    getPfn_of_read (show pm.opens = true from rfl) rfl (ofFile_read ht hva)
  rw [presentPfn_of_presentWord hword (by omega)] at hmalloc hdirty
  refine ⟨hdirty.trans hmalloc.symm, ?_⟩
  have hpfn : pfn = if f.sysAdmin then frame else 0 := hmalloc
  cases hcap : f.sysAdmin with
  | false =>
    rw [hcap] at hpfn
    refine ⟨hpfn, ?_⟩
    rw [notPresent_mem_main]
    exact ⟨va, rfl, hpfn⟩
  | true =>
    rw [hcap, if_pos rfl] at hpfn
    have hoffset : leafAddr l e va % 4096 = va.toNat % 4096 := by
      unfold leafAddr
      cases l with
      | pml4 => simp only [PtLevel.shift]; omega
      | pdpt => simp only [PtLevel.shift]; omega
      | pd => simp only [PtLevel.shift]; omega
      | pt => simp only [PtLevel.shift]; omega
    rw [if_pos rfl, hpfn, hframe, ← hoffset]
    omega

/-- Page tables that map the page at 0x1000 to the frame 5. -/
def demoTables : Machine :=
  .ofEntries [(0x8000, 0x9003), (0x9000, 0xA003), (0xA000, 0xB003), (0xB008, 0x5067)]

/-- `getPfn_translates`, for an address in that page. -/
theorem getPfn_translates_demo :
    let pm := ofFile demoFacts demoPagemap demoAttempt
    let pfn := (MallocUser.getPfn pm 0x1234).2
    (DirtyTraceV2.getPfn pm 0x1234).2 = pfn ∧
      if demoPagemap.sysAdmin then pfn.toNat * 4096 + (0x1234 : U64).toNat % 4096 =
        leafAddr .pt 0x5067 0x1234
      else pfn = 0 ∧ .say .notPresent ∈
        (MallocUser.main 7 (fun _ => 0) (some 0x1234) pm (.holding 0)).1 :=
  have hwalk : hwWalk demoTables 0x8000 0x1234 = .leaf .pt 0x5067 := rfl
  have hvma : demoSpace.vmaAt (pageOfVa 0x1234) = some (MapsSeq.demoVma 0x1000) := by decide
  getPfn_translates demoAttempt_undisturbed (by decide) hwalk hvma (by decide) (.pt 0x5067) 7
    (fun _ => 0) (.holding 0)

/-- The pages of a VMA with `VM_PFNMAP` are not present in the file, also where the hardware
translates them. -/
theorem getPfn_pfnmap {va : U64} {vma : MapsVma} (ht : t.Undisturbed)
    (hva : pageOfVa va < f.taskPages)
    (hvma : (t.pieces 0).view.vmaAt (pageOfVa va) = some vma)
    (hpfnmap : vma.vmFlags &&& vmPfnmap ≠ 0) :
    let pm := ofFile k f t
    (MallocUser.getPfn pm va).2 = 0 ∧ (DirtyTraceV2.getPfn pm va).2 = 0 := by
  intro pm
  -- the walk takes the whole VMA for a hole, so that the word is that of the VMA alone
  have hmet : (t.pieces 0).view.met (pageOfVa va) = .hole := by
    refine if_pos ?_
    rw [AddressSpace.pfnmapAt, hvma, Option.any_some]
    exact bne_iff_ne.mpr hpfnmap
  have hword : entryOf k f.sysAdmin (t.pieces 0).view (pageOfVa va) = makePme 0 (vmaFlags vma) := by
    rw [entryOf, hvma, hmet]
  have hpresent : presentPfn (makePme 0 (vmaFlags vma)) = 0 := by
    rw [presentPfn, getLsbD_makePme, (flagsOk_vmaFlags vma).present]
    rfl
  obtain ⟨hmalloc, hdirty⟩ :=
    getPfn_of_read (show pm.opens = true from rfl) rfl (ofFile_read ht hva)
  rw [hword, hpresent] at hmalloc hdirty
  exact ⟨hmalloc, hdirty⟩

end KernelPortfolio.PagemapRead
