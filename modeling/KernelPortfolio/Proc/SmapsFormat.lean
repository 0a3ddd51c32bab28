import KernelPortfolio.Proc.MapsFormat

/-!
# The blocks of `/proc/PID/smaps`

`show_smap` prints a block for a VMA: its line of `/proc/PID/maps`, and then its fields, each a
label and a short body. No field has a dash in it (`dash_not_mem_line`), and a text without a blank
and with a character that is not plain is found in a field only where it is in the label
(`strstr_line`).
-/

namespace KernelPortfolio

open Stdio

/-- The mnemonics of `show_smap_vma_flags`. -/
def mnemonics : List Text :=
  ["??", "rd", "wr", "ex", "sh", "mr", "mw", "me", "ms", "gd", "pf", "gu", "lo", "io", "sr", "rr",
    "dc", "de", "lf", "ac", "nr", "ht", "sf", "ar", "wf", "dd", "bt", "sd", "mm", "hg", "nh", "mg",
    "um", "uw", "mt", "ui", "ss", "dp", "sl"].map String.toList

/-- `struct mem_size_stats`, as far as `__show_smap` prints it. -/
structure MemSizeStats where
  resident : U64
  pss : U64
  pssDirty : U64
  sharedClean : U64
  sharedDirty : U64
  privateClean : U64
  privateDirty : U64
  referenced : U64
  anonymous : U64
  ksm : U64
  lazyfree : U64
  anonymousThp : U64
  shmemThp : U64
  fileThp : U64
  sharedHugetlb : U64
  privateHugetlb : U64
  swap : U64
  swapPss : U64
  pssLocked : U64

/-- What `show_smap` reads of a VMA. -/
structure SmapsVma where
  vma : MapsVma
  kernelPagesize : U64
  mmuPagesize : U64
  mss : MemSizeStats
  thpEligible : Bool
  /-- The key, where `arch_pkeys_enabled`. -/
  pkey : Option (BitVec 32)
  /-- The mnemonics of the flags that are set, at most one for a bit. -/
  vmFlags : List Text
  mem_mnemonics : ∀ m ∈ vmFlags, m ∈ mnemonics
  length_vmFlags : vmFlags.length ≤ 64

/-- A field: its label, and what stands behind it in its line. -/
structure SmapsField where
  label : Text
  body : Text

/-- The line of a field. -/
def SmapsField.line (f : SmapsField) : Text := f.label ++ f.body ++ ['\n']

/-- `SEQ_PUT_DEC`, with the ` kB\n` that the source has before the next label: a number of bytes in
kilobytes, in a field of at least `width` characters. -/
def seqPutDec (label : String) (val : U64) (width : ℕ) : SmapsField :=
  ⟨label.toList, seqPutDecimalUllWidth [] (val >>> 10).toNat width ++ " kB".toList⟩

/-- `__show_smap`. -/
def showSmapStats (mss : MemSizeStats) : List SmapsField :=
  [seqPutDec "Rss:            " mss.resident 8,
    seqPutDec "Pss:            " (mss.pss >>> 12) 8,
    seqPutDec "Pss_Dirty:      " (mss.pssDirty >>> 12) 8,
    seqPutDec "Shared_Clean:   " mss.sharedClean 8,
    seqPutDec "Shared_Dirty:   " mss.sharedDirty 8,
    seqPutDec "Private_Clean:  " mss.privateClean 8,
    seqPutDec "Private_Dirty:  " mss.privateDirty 8,
    seqPutDec "Referenced:     " mss.referenced 8,
    seqPutDec "Anonymous:      " mss.anonymous 8,
    seqPutDec "KSM:            " mss.ksm 8,
    seqPutDec "LazyFree:       " mss.lazyfree 8,
    seqPutDec "AnonHugePages:  " mss.anonymousThp 8,
    seqPutDec "ShmemPmdMapped: " mss.shmemThp 8,
    seqPutDec "FilePmdMapped:  " mss.fileThp 8,
    seqPutDec "Shared_Hugetlb: " mss.sharedHugetlb 8,
    seqPutDec "Private_Hugetlb: " mss.privateHugetlb 7,
    seqPutDec "Swap:           " mss.swap 8,
    seqPutDec "SwapPss:        " (mss.swapPss >>> 12) 8,
    seqPutDec "Locked:         " (mss.pssLocked >>> 12) 8]

/-- `show_smap_vma_flags`. -/
def showSmapVmaFlags (vmFlags : List Text) : SmapsField :=
  ⟨"VmFlags: ".toList, vmFlags.flatMap (· ++ [' '])⟩

/-- The fields of a VMA. -/
def smapFields (v : SmapsVma) : List SmapsField :=
  [seqPutDec "Size:           " (v.vma.vmEnd - v.vma.vmStart) 8,
    seqPutDec "KernelPageSize: " v.kernelPagesize 8,
    seqPutDec "MMUPageSize:    " v.mmuPagesize 8] ++
  showSmapStats v.mss ++
  [⟨"THPeligible:    ".toList, seqPutDecimalUllWidth [] v.thpEligible.toNat 8⟩] ++
  (v.pkey.toList.map fun key =>
    ⟨"ProtectionKey:  ".toList, seqPutDecimalUllWidth [] key.toNat 8⟩) ++
  [showSmapVmaFlags v.vmFlags]

/-- `show_smap`. -/
def showSmap (v : SmapsVma) : Text := showMapVma v.vma ++ (smapFields v).flatMap SmapsField.line

/-- `/proc/PID/smaps`. -/
def smapsText (vmas : List SmapsVma) : Text := vmas.flatMap showSmap

/-! ## The fields -/

/-- The labels of the fields. -/
def smapLabels : List Text :=
  ["Size:           ", "KernelPageSize: ", "MMUPageSize:    ", "Rss:            ",
    "Pss:            ", "Pss_Dirty:      ", "Shared_Clean:   ", "Shared_Dirty:   ",
    "Private_Clean:  ", "Private_Dirty:  ", "Referenced:     ", "Anonymous:      ",
    "KSM:            ", "LazyFree:       ", "AnonHugePages:  ", "ShmemPmdMapped: ",
    "FilePmdMapped:  ", "Shared_Hugetlb: ", "Private_Hugetlb: ", "Swap:           ",
    "SwapPss:        ", "Locked:         ", "THPeligible:    ", "ProtectionKey:  ",
    "VmFlags: "].map String.toList

/-- The characters of the bodies. -/
def plainChar (c : Char) : Bool := c.isDigit || c.isLower || c == ' ' || c == '?' || c == 'B'

/-- A body of plain characters, which is not long. -/
def Plain (body : Text) : Prop := (∀ c ∈ body, plainChar c = true) ∧ body.length ≤ 192

/-- A number is plain. -/
theorem plain_seqPutDecimalUllWidth {num width : ℕ} (hnum : num < 10^20) (hwidth : width ≤ 8) :
    (∀ c ∈ seqPutDecimalUllWidth [] num width, plainChar c = true) ∧
      (seqPutDecimalUllWidth [] num width).length ≤ 28 := by
  have hlen : (Nat.toDigits 10 num).length ≤ 20 :=
    (Nat.length_toDigits_le_iff (by decide) (by decide)).mpr hnum
  constructor
  · intro c hc
    simp only [seqPutDecimalUllWidth, List.nil_append, List.mem_append] at hc
    rcases hc with hblank | hdigit
    · rw [List.eq_of_mem_replicate hblank]
      rfl
    · have hisDigit := Nat.isDigit_of_mem_toDigits (by decide) le_rfl hdigit
      simp [plainChar, hisDigit]
  · rw [seqPutDecimalUllWidth, List.nil_append, List.length_append, List.length_replicate]
    omega

/-- The body of a number of kilobytes. -/
theorem plain_seqPutDec (label : String) (val : U64) {width : ℕ} (hwidth : width ≤ 8) :
    Plain (seqPutDec label val width).body := by
  have hval : (val >>> 10).toNat < 10^20 := (val >>> 10).isLt.trans (by decide)
  obtain ⟨hchars, hlen⟩ := plain_seqPutDecimalUllWidth hval hwidth
  refine ⟨?_, ?_⟩
  · intro c hc
    rcases List.mem_append.mp hc with hnumber | hunit
    · exact hchars c hnumber
    · have hall : ∀ c ∈ " kB".toList, plainChar c = true := by simp [plainChar]
      exact hall c hunit
  · rw [seqPutDec, List.length_append]
    calc (seqPutDecimalUllWidth [] (val >>> 10).toNat width).length + " kB".toList.length
        ≤ 28 + " kB".toList.length := Nat.add_le_add_right hlen _
      _ ≤ 192 := by decide

/-- A mnemonic has two characters, and they are plain. -/
theorem mnemonic_spec {m : Text} (hm : m ∈ mnemonics) :
    m.length = 2 ∧ ∀ c ∈ m, plainChar c = true := by
  have hall : (mnemonics.all fun m => m.length == 2 && m.all plainChar) = true := by
    simp [mnemonics, plainChar]
  have hspec := List.all_eq_true.mp hall m hm
  rwa [Bool.and_eq_true, beq_iff_eq, List.all_eq_true] at hspec

/-- The mnemonics take three characters each, with their blanks. -/
theorem length_flatMap_mnemonics {ms : List Text} (h : ∀ m ∈ ms, m ∈ mnemonics) :
    (ms.flatMap (· ++ [' '])).length = 3 * ms.length := by
  induction ms with
  | nil => rfl
  | cons m ms ih =>
    have hm := (mnemonic_spec (h m (List.mem_cons_self ..))).1
    have hrest := ih fun m' hm' => h m' (List.mem_cons_of_mem _ hm')
    rw [List.flatMap_cons, List.length_append, List.length_append, hrest, hm,
      List.length_singleton, List.length_cons, Nat.mul_succ, Nat.add_comm]

/-- The body of the flags. -/
theorem plain_showSmapVmaFlags (v : SmapsVma) : Plain (showSmapVmaFlags v.vmFlags).body := by
  refine ⟨?_, ?_⟩
  · intro c hc
    obtain ⟨m, hm, hmem⟩ := List.mem_flatMap.mp hc
    rcases List.mem_append.mp hmem with hin | hblank
    · exact (mnemonic_spec (v.mem_mnemonics m hm)).2 c hin
    · rw [List.mem_singleton.mp hblank]
      rfl
  · calc (v.vmFlags.flatMap (· ++ [' '])).length
        = 3 * v.vmFlags.length := length_flatMap_mnemonics v.mem_mnemonics
      _ ≤ 3 * 64 := Nat.mul_le_mul_left 3 v.length_vmFlags

/-- The labels of a block are those of the list, without that of the key where there is none. -/
theorem map_label_smapFields (v : SmapsVma) :
    (smapFields v).map SmapsField.label = smapLabels ∨
      (smapFields v).map SmapsField.label = smapLabels.eraseIdx 23 := by
  unfold smapFields
  cases v.pkey with
  | none => exact .inr rfl
  | some key => exact .inl rfl

/-- Every label is in the list. -/
theorem label_mem_smapLabels {v : SmapsVma} {f : SmapsField} (hf : f ∈ smapFields v) :
    f.label ∈ smapLabels := by
  have hmem : f.label ∈ (smapFields v).map SmapsField.label := List.mem_map_of_mem hf
  rcases map_label_smapFields v with hlabels | hlabels
  · rwa [hlabels] at hmem
  · rw [hlabels] at hmem
    exact List.mem_of_mem_eraseIdx hmem

/-- A label is short, ends with a blank, and has no dash and no newline. -/
theorem label_spec {label : Text} (hmem : label ∈ smapLabels) :
    label.length ≤ 17 ∧ label = label.dropLast ++ [' '] ∧ '-' ∉ label ∧ '\n' ∉ label := by
  have hall : (smapLabels.all fun label => label.length ≤ 17 &&
      label == label.dropLast ++ [' '] && label.all fun c => c != '-' && c != '\n') = true := by
    simp [smapLabels]
  have hspec := List.all_eq_true.mp hall label hmem
  simp only [Bool.and_eq_true, decide_eq_true_eq, beq_iff_eq, List.all_eq_true,
    bne_iff_ne] at hspec
  obtain ⟨⟨hlen, hblank⟩, hchars⟩ := hspec
  exact ⟨hlen, hblank, fun h => (hchars _ h).1 rfl, fun h => (hchars _ h).2 rfl⟩

/-- Every body is plain. -/
theorem plain_body {v : SmapsVma} {f : SmapsField} (hf : f ∈ smapFields v) : Plain f.body := by
  have hstats : ∀ f ∈ showSmapStats v.mss, Plain f.body := by
    simp [showSmapStats, plain_seqPutDec]
  have hnumber {n : ℕ} (hn : n < 10^20) : Plain (seqPutDecimalUllWidth [] n 8) :=
    have h := plain_seqPutDecimalUllWidth hn le_rfl
    ⟨h.1, h.2.trans (by decide)⟩
  simp only [smapFields, List.mem_append, List.mem_cons, List.not_mem_nil, or_false,
    List.mem_map] at hf
  rcases hf with ((((rfl | rfl | rfl) | hmem) | rfl) | ⟨key, -, rfl⟩) | rfl
  · exact plain_seqPutDec _ _ le_rfl
  · exact plain_seqPutDec _ _ le_rfl
  · exact plain_seqPutDec _ _ le_rfl
  · exact hstats f hmem
  · exact hnumber ((Bool.toNat_le _).trans_lt (by decide))
  · exact hnumber (key.isLt.trans (by decide))
  · exact plain_showSmapVmaFlags v

/-- A field has no dash. -/
theorem dash_not_mem_line {v : SmapsVma} {f : SmapsField} (hf : f ∈ smapFields v) :
    '-' ∉ f.line := by
  obtain ⟨-, -, hdash, -⟩ := label_spec (label_mem_smapLabels hf)
  intro hmem
  rcases List.mem_append.mp hmem with hin | hnewline
  · rcases List.mem_append.mp hin with hin | hin
    · exact hdash hin
    · exact absurd ((plain_body hf).1 '-' hin) (by decide)
  · exact absurd hnewline (by decide)

/-- A field is a line. -/
theorem isLine_line {v : SmapsVma} {f : SmapsField} (hf : f ∈ smapFields v) : IsLine f.line := by
  obtain ⟨-, -, -, hnewline⟩ := label_spec (label_mem_smapLabels hf)
  refine ⟨f.label ++ f.body, fun hmem => ?_, rfl⟩
  rcases List.mem_append.mp hmem with hin | hin
  · exact hnewline hin
  · exact absurd ((plain_body hf).1 '\n' hin) (by decide)

/-- The line of a field is short. -/
theorem length_line_le {v : SmapsVma} {f : SmapsField} (hf : f ∈ smapFields v) :
    f.line.length ≤ 210 := by
  obtain ⟨hlen, -⟩ := label_spec (label_mem_smapLabels hf)
  have hbody := (plain_body hf).2
  rw [SmapsField.line, List.length_append, List.length_append, List.length_singleton]
  omega

/-- A text without a blank that is not plain is found in a field where it is in the label. -/
theorem strstr_line {v : SmapsVma} {f : SmapsField} (hf : f ∈ smapFields v) {needle : Text}
    (hblank : ' ' ∉ needle) {c : Char} (hc : c ∈ needle)
    (hplain : plainChar c = false ∧ c ≠ '\n') :
    strstr f.line needle = strstr f.label needle := by
  obtain ⟨-, hf', -⟩ := label_spec (label_mem_smapLabels hf)
  -- the body is plain, and the blank at the end of the label is not in the text
  have hbody : ¬ needle <:+: f.body ++ ['\n'] := by
    intro hfound
    rcases List.mem_append.mp (hfound.subset hc) with hin | hnewline
    · exact absurd ((plain_body hf).1 c hin) (by simp [hplain.1])
    · exact hplain.2 (List.mem_singleton.mp hnewline)
  have hnil : ¬ needle <:+: [] := fun h => absurd (h.subset hc) List.not_mem_nil
  have hline : f.line = f.label.dropLast ++ ' ' :: (f.body ++ ['\n']) := by
    rw [SmapsField.line, List.append_assoc]
    nth_rewrite 1 [hf']
    rw [List.append_assoc, List.singleton_append]
  rw [Bool.eq_iff_iff, strstr_iff, strstr_iff, hline, infix_append_cons_iff hblank, hf',
    infix_append_cons_iff hblank]
  simp [hbody, hnil]

/-- There are at least ten fields. -/
theorem ten_le_length_smapFields (v : SmapsVma) : 10 ≤ (smapFields v).length := by
  have hlen : (smapFields v).length = 24 + v.pkey.toList.length := by
    simp only [smapFields, List.length_append, List.length_cons, List.length_nil, List.length_map,
      showSmapStats]
    omega
  omega

/-! ## The lines -/

/-- The lines of a block. -/
def smapLines (v : SmapsVma) : List Text :=
  showMapVma v.vma :: (smapFields v).map SmapsField.line

/-- They are lines. -/
theorem isLine_of_mem_smapLines {v : SmapsVma} {l : Text} (hl : l ∈ smapLines v) : IsLine l := by
  rcases List.mem_cons.mp hl with hheader | hmem
  · rw [hheader]
    exact isLine_showMapVma v.vma
  · obtain ⟨f, hf, rfl⟩ := List.mem_map.mp hmem
    exact isLine_line hf

/-- A block is its lines. -/
theorem showSmap_eq_flatten (v : SmapsVma) : showSmap v = (smapLines v).flatten := by
  rw [showSmap, smapLines, List.flatten_cons, List.flatMap_def]

/-- The text is its lines. -/
theorem smapsText_eq_flatten (vmas : List SmapsVma) :
    smapsText vmas = (vmas.flatMap smapLines).flatten := by
  have hassoc : (vmas.flatMap smapLines).flatten = vmas.flatMap fun v => (smapLines v).flatten := by
    rw [← List.flatMap_id, List.flatMap_assoc]
    simp only [List.flatMap_id]
  rw [hassoc, smapsText, List.flatMap_congr fun v _ => showSmap_eq_flatten v]

/-- The pieces of a block: those of its header, and its fields. -/
theorem pieces_showSmap {n : ℕ} (hn : 210 ≤ n) (v : SmapsVma) :
    pieces n (showSmap v) =
      pieces n (showMapVma v.vma) ++ (smapFields v).map SmapsField.line := by
  have hpos : 0 < n := Nat.lt_of_lt_of_le (by decide) hn
  have hfields : ∀ f ∈ smapFields v, pieces n f.line = [f.line] := fun f hf =>
    pieces_eq_singleton hpos (isLine_line hf) ((length_line_le hf).trans hn)
  rw [showSmap, pieces_append hpos (isLine_showMapVma v.vma),
    pieces_flatMap hpos fun f hf => isLine_line hf, List.flatMap_congr hfields,
    ← List.map_eq_flatMap]

/-- The pieces of a text are those of its blocks. -/
theorem pieces_smapsText {n : ℕ} (hn : 0 < n) (vmas : List SmapsVma) :
    pieces n (smapsText vmas) = vmas.flatMap fun v => pieces n (showSmap v) := by
  have hlines : ∀ l ∈ vmas.flatMap smapLines, IsLine l := by
    intro l hl
    obtain ⟨v, -, hmem⟩ := List.mem_flatMap.mp hl
    exact isLine_of_mem_smapLines hmem
  have hblock : ∀ v ∈ vmas, pieces n (showSmap v) = (smapLines v).flatMap (pieces n) := by
    intro v _
    rw [showSmap_eq_flatten, pieces_flatten hn fun l hl => isLine_of_mem_smapLines hl]
  rw [smapsText_eq_flatten, pieces_flatten hn hlines, List.flatMap_assoc,
    List.flatMap_congr hblock]

/-- The lines of a text, as `std::getline` reads them. -/
theorem getlines_smapsText (vmas : List SmapsVma) :
    getlines (smapsText vmas) = vmas.flatMap fun v => (smapLines v).map List.dropLast := by
  rw [smapsText_eq_flatten, getlines_flatten, List.map_flatMap]
  intro l hl
  obtain ⟨v, -, hmem⟩ := List.mem_flatMap.mp hl
  exact isLine_of_mem_smapLines hmem

end KernelPortfolio
