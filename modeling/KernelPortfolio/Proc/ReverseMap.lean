import KernelPortfolio.Lib.Align
import KernelPortfolio.Proc.LibcTrace

/-!
# From a page of libc to its addresses

For each line of libc in `/proc/self/maps`, `libc_map_trace_worksheet` computes which pages of the
file the VMA maps, and where it maps page 45, by the formula that `libc_map_trace` prints. For a
`FileVma` both are exact (`FileVma.reverseMap_exact`): the test passes for the pages whose bytes are
mapped, and the address is the one at which the page is. `page_mem_worksheet_iff` says which
addresses of page 45 the worksheet prints.
-/

namespace KernelPortfolio

open Stdio

/-! ## The block for a line -/

/-- The variables that `sscanf` stores, as far as they are used. -/
structure VmaVars where
  start : U64
  vmEnd : U64
  perms : Text
  offset : U64

namespace VmaVars

/-- `vm_pgoff`. -/
def vmPgoff (v : VmaVars) : U64 := v.offset / 4096

/-- `size_bytes`. -/
def sizeBytes (v : VmaVars) : U64 := v.vmEnd - v.start

/-- `vma_pages`. -/
def vmaPages (v : VmaVars) : U64 := v.sizeBytes / 4096

/-- The test that a page of the file is in the VMA. -/
def HasPage (v : VmaVars) (pageIndex : U64) : Prop :=
  v.vmPgoff ≤ pageIndex ∧ pageIndex < v.vmPgoff + v.vmaPages

instance (v : VmaVars) (pageIndex : U64) : Decidable (v.HasPage pageIndex) :=
  inferInstanceAs (Decidable (_ ∧ _))

/-- `vaddr`. -/
def vaddr (v : VmaVars) (pageIndex : U64) : U64 := v.start + (pageIndex - v.vmPgoff) * 4096

end VmaVars

/-- The lines that the worksheet prints. -/
inductive WorksheetLine where
  | perror (s : String)
  | inode (ino : U64)
  | size (bytes pages : U64)
  | processes (count : ℕ)
  | thisProcess
  | vma (start vmEnd : U64) (perms : Text) (vmPgoff pages : U64)
  | page (pageIndex vaddr : U64)
  deriving DecidableEq, Repr

/-- What is printed of a VMA. -/
def VmaVars.lines (v : VmaVars) : List WorksheetLine :=
  .vma v.start v.vmEnd v.perms v.vmPgoff v.vmaPages ::
    if v.HasPage 45 then
      let pageIndex := 45
      [.page pageIndex (v.vaddr pageIndex)]
    else []

/-- The block of a piece: where `sscanf` stores nothing, a variable holds what it held. -/
def VmaVars.scan (l : VmaVars) (line : Text) : VmaVars :=
  let vs := sscanf mapsFormat line
  { start := (numberAt vs 0).getD l.start
    vmEnd := (numberAt vs 1).getD l.vmEnd
    perms := (wordAt vs 2).getD l.perms
    offset := (numberAt vs 3).getD l.offset }

/-- The loop over the pieces of `/proc/self/maps`, up to where its behaviour is undefined: a word
that does not fit overwrites the stack. -/
def worksheetVmas : List Text → VmaVars → Option (List WorksheetLine)
  | [], _ => some []
  | line :: lines, l =>
    if strstr line "libc.so.6".toList then
      if TokensFit line then
        (worksheetVmas lines (l.scan line)).map fun outs => (l.scan line).lines ++ outs
      else none
    else worksheetVmas lines l

/-- `main` of `libc_map_trace_worksheet`, with what the stack holds, and what `stat`, `opendir` and
`fopen` give: its lines, and what it returns. -/
def libcMapTraceWorksheet (frame : VmaVars) (libcStat : Option Stat)
    (procDir : Option (List ProcEntry)) (selfMaps : Option (List MapsVma)) :
    Option (List WorksheetLine × ℕ) :=
  match libcStat with
  | none => some ([.perror "stat failed"], 1)
  | some st =>
    let head := [.inode st.stIno, .size st.stSize (st.stSize / 4096)]
    match procDir with
    | none => some (head ++ [.perror "opendir failed"], 1)
    | some entries =>
      (worksheetVmas (selfLines selfMaps) frame).map fun vmas =>
        (head ++ [.processes (libcMapTraceWorksheetCounted entries).length, .thisProcess] ++ vmas,
          0)

/-! ## The arithmetic -/

/-- A VMA of a file: it starts with a page, at a page of the file, and the bytes of the file that it
maps do not wrap. -/
structure FileVma extends VmaVars where
  start_lt : start < vmEnd
  start_aligned : 4096 ∣ start.toNat
  offset_aligned : 4096 ∣ offset.toNat
  fits : offset.toNat + (vmEnd.toNat - start.toNat) < 2^64

namespace FileVma

variable (v : FileVma)

/-- The bytes of the file that the VMA maps. -/
def fileBytes : Set ℕ :=
  Set.Ico v.offset.toNat (v.offset.toNat + (v.vmEnd.toNat - v.start.toNat))

/-- The byte of the file that the VMA maps at an address. -/
def fileByte (a : ℕ) : ℕ := v.offset.toNat + (a - v.start.toNat)

/-- The bytes of a page of the file. -/
def pageBytes (pageIndex : U64) : Set ℕ :=
  Set.Ico (pageIndex.toNat * 4096) (pageIndex.toNat * 4096 + 4096)

/-- `vm_pgoff` as a number. -/
theorem toNat_vmPgoff : v.vmPgoff.toNat = v.offset.toNat / 4096 := BitVec.toNat_udiv

/-- `vma_pages` as a number. -/
theorem toNat_vmaPages : v.vmaPages.toNat = (v.vmEnd.toNat - v.start.toNat) / 4096 := by
  have hsize : v.sizeBytes.toNat = v.vmEnd.toNat - v.start.toNat :=
    BitVec.toNat_sub_of_le (BitVec.le_of_lt v.start_lt)
  rw [VmaVars.vmaPages, BitVec.toNat_udiv, hsize]
  rfl

/-- The end of the VMA, as a page of the file. -/
theorem toNat_vmPgoff_add_vmaPages :
    (v.vmPgoff + v.vmaPages).toNat =
      v.offset.toNat / 4096 + (v.vmEnd.toNat - v.start.toNat) / 4096 := by
  have hoffset := v.offset.isLt
  have hend := v.vmEnd.isLt
  rw [BitVec.toNat_add, toNat_vmPgoff, toNat_vmaPages, Nat.mod_eq_of_lt (by omega)]

/-- The test passes for the pages whose bytes are mapped. -/
theorem hasPage_iff (pageIndex : U64) :
    v.HasPage pageIndex ↔ pageBytes pageIndex ⊆ v.fileBytes := by
  rw [pageBytes, fileBytes, Align.block_subset_iff (by decide) v.offset_aligned, VmaVars.HasPage,
    BitVec.le_def, BitVec.lt_def, toNat_vmPgoff, toNat_vmPgoff_add_vmaPages]

variable {v}

/-- A page that passes the test begins with a byte that is mapped, as far from the first one as the
page is from the first page. -/
theorem distance_lt {pageIndex : U64} (h : v.HasPage pageIndex) :
    v.offset.toNat / 4096 ≤ pageIndex.toNat ∧
      (pageIndex.toNat - v.offset.toNat / 4096) * 4096 < v.vmEnd.toNat - v.start.toNat := by
  rw [VmaVars.HasPage, BitVec.le_def, BitVec.lt_def, toNat_vmPgoff,
    toNat_vmPgoff_add_vmaPages] at h
  have hlt : v.start.toNat < v.vmEnd.toNat := v.start_lt
  omega

/-- The computation of `vaddr` does not wrap. -/
theorem toNat_vaddr {pageIndex : U64} (h : v.HasPage pageIndex) :
    (v.vaddr pageIndex).toNat =
      v.start.toNat + (pageIndex.toNat - v.vmPgoff.toNat) * 4096 := by
  obtain ⟨hle, hlt⟩ := distance_lt h
  have hend := v.vmEnd.isLt
  have hpage : (4096 : U64).toNat = 4096 := rfl
  have hsub : (pageIndex - v.vmPgoff).toNat = pageIndex.toNat - v.vmPgoff.toNat :=
    BitVec.toNat_sub_of_le h.1
  rw [← toNat_vmPgoff] at hlt
  have hmul : ((pageIndex - v.vmPgoff) * 4096).toNat =
      (pageIndex.toNat - v.vmPgoff.toNat) * 4096 := by
    rw [BitVec.toNat_mul, hsub, hpage, Nat.mod_eq_of_lt (by omega)]
  rw [VmaVars.vaddr, BitVec.toNat_add, hmul, Nat.mod_eq_of_lt (by omega)]

/-- `vaddr` is an address of the VMA. -/
theorem vaddr_mem_Ico {pageIndex : U64} (h : v.HasPage pageIndex) :
    (v.vaddr pageIndex).toNat ∈ Set.Ico v.start.toNat v.vmEnd.toNat := by
  obtain ⟨hle, hlt⟩ := distance_lt h
  rw [toNat_vaddr h, toNat_vmPgoff, Set.mem_Ico]
  omega

/-- `vaddr` is the address of a page. -/
theorem dvd_vaddr {pageIndex : U64} (h : v.HasPage pageIndex) :
    4096 ∣ (v.vaddr pageIndex).toNat := by
  rw [toNat_vaddr h]
  exact Nat.dvd_add v.start_aligned (Nat.dvd_mul_left _ _)

/-- `vaddr` leads back to the page. -/
theorem page_of_vaddr {pageIndex : U64} (h : v.HasPage pageIndex) :
    v.vmPgoff + (v.vaddr pageIndex - v.start) / 4096 = pageIndex := by
  have hpage : (4096 : U64).toNat = 4096 := rfl
  have hsub : (v.vaddr pageIndex - v.start).toNat =
      (pageIndex.toNat - v.vmPgoff.toNat) * 4096 := by
    rw [BitVec.toNat_sub_of_le (vaddr_mem_Ico h).1, toNat_vaddr h, Nat.add_sub_cancel_left]
  apply BitVec.eq_of_toNat_eq
  calc (v.vmPgoff + (v.vaddr pageIndex - v.start) / 4096).toNat
      = (v.vmPgoff.toNat + (pageIndex.toNat - v.vmPgoff.toNat)) % 2^64 := by
        rw [BitVec.toNat_add, BitVec.toNat_udiv, hsub, hpage, Nat.mul_div_cancel _ (by decide)]
    _ = pageIndex.toNat % 2^64 := by rw [Nat.add_sub_cancel' h.1]
    _ = pageIndex.toNat := Nat.mod_eq_of_lt pageIndex.isLt

/-- `vaddr` is the one address of the VMA at which the page begins. -/
theorem eq_vaddr_iff {pageIndex : U64} (h : v.HasPage pageIndex) (a : U64) :
    a = v.vaddr pageIndex ↔ a.toNat ∈ Set.Ico v.start.toNat v.vmEnd.toNat ∧
      v.fileByte a.toNat = pageIndex.toNat * 4096 := by
  obtain ⟨c, hc⟩ := v.offset_aligned
  obtain ⟨hle, hlt⟩ := distance_lt h
  have hvaddr := toNat_vaddr h
  rw [toNat_vmPgoff] at hvaddr
  rw [← BitVec.toNat_inj, hvaddr, fileByte, Set.mem_Ico]
  omega

/-- Two pages are at two addresses. -/
theorem vaddr_injOn : Set.InjOn v.vaddr {pageIndex | v.HasPage pageIndex} := by
  intro i hi j hj heq
  calc i = v.vmPgoff + (v.vaddr i - v.start) / 4096 := (page_of_vaddr hi).symm
    _ = v.vmPgoff + (v.vaddr j - v.start) / 4096 := by rw [heq]
    _ = j := page_of_vaddr hj

end FileVma

/-- The reverse mapping is exact. A page passes the test exactly when its bytes are mapped. Then the
address does not wrap, is in the VMA, is the address of a page, and leads back to the page; and
different pages are at different addresses. -/
theorem FileVma.reverseMap_exact (v : FileVma) :
    (∀ pageIndex, v.HasPage pageIndex ↔ pageBytes pageIndex ⊆ v.fileBytes) ∧
    (∀ pageIndex, v.HasPage pageIndex →
      (v.vaddr pageIndex).toNat =
        v.start.toNat + (pageIndex.toNat - v.vmPgoff.toNat) * 4096 ∧
      v.start ≤ v.vaddr pageIndex ∧ v.vaddr pageIndex < v.vmEnd ∧
      4096 ∣ (v.vaddr pageIndex).toNat ∧
      v.vmPgoff + (v.vaddr pageIndex - v.start) / 4096 = pageIndex) ∧
    ∀ i j, v.HasPage i → v.HasPage j → i ≠ j → v.vaddr i ≠ v.vaddr j := by
  refine ⟨v.hasPage_iff, fun pageIndex h => ?_, fun i j hi hj hij heq => ?_⟩
  · obtain ⟨hstart, hend⟩ := vaddr_mem_Ico h
    exact ⟨toNat_vaddr h, hstart, hend, dvd_vaddr h, page_of_vaddr h⟩
  · exact hij (vaddr_injOn hi hj heq)

/-- The text of libc, in the worksheet's example. -/
def libcTextVma : FileVma where
  start := 0x795df3828000
  vmEnd := 0x795df39b0000
  perms := "r-xp".toList
  offset := 0x28000
  start_lt := by decide
  start_aligned := by decide
  offset_aligned := by decide
  fits := by decide

/-- The worksheet's example: page 45 is 5 pages behind the first one, page 40. -/
example : libcTextVma.HasPage 45 ∧ libcTextVma.vaddr 45 = 0x795df382d000 := by decide

/-! ## What the worksheet prints of a process -/

/-- What `sscanf` stores of the line of a VMA. -/
def MapsVma.vars (v : MapsVma) : VmaVars := ⟨v.vmStart, v.vmEnd, permsText v.vmFlags, v.pgoff⟩

/-- The line of a VMA is read back. -/
theorem scan_showMapVma (l : VmaVars) (v : MapsVma) : l.scan (showMapVma v) = v.vars := by
  simp only [VmaVars.scan, showMapVma, sscanf_mapsFormat]
  rfl

/-- Where each line is read in one piece, and the names with `libc.so.6` fit, the worksheet prints
the VMAs with `libc.so.6` in their lines, whatever the stack held. -/
theorem worksheetVmas_eq {vmas : List MapsVma}
    (hline : ∀ v ∈ vmas, (showMapVma v).length ≤ lineSize)
    (hname : ∀ v ∈ vmas, strstr (showMapVma v) "libc.so.6".toList = true →
      (firstWord (lineTail v)).length < 256) (l : VmaVars) :
    worksheetVmas (pieces lineSize (mapsText vmas)) l =
      some ((vmas.filter fun v => strstr (showMapVma v) "libc.so.6".toList).flatMap
        fun v => v.vars.lines) := by
  have hpos : 0 < lineSize := by decide
  rw [pieces_mapsText hpos]
  induction vmas generalizing l with
  | nil => rfl
  | cons v vmas ih =>
    have hpiece : pieces lineSize (showMapVma v) = [showMapVma v] :=
      pieces_eq_singleton hpos (isLine_showMapVma v) (hline v (List.mem_cons_self ..))
    have hrest := ih (fun v' hv' => hline v' (List.mem_cons_of_mem _ hv'))
      fun v' hv' => hname v' (List.mem_cons_of_mem _ hv')
    rw [List.flatMap_cons, hpiece, List.singleton_append, worksheetVmas, List.filter_cons]
    by_cases hfound : strstr (showMapVma v) "libc.so.6".toList = true
    · have hfit : TokensFit (showMapVma v) :=
        (tokensFit_header v _).mpr (hname v (List.mem_cons_self ..) hfound)
      rw [if_pos hfound, if_pos hfit, if_pos hfound, scan_showMapVma, hrest, List.flatMap_cons]
      rfl
    · rw [if_neg hfound, if_neg hfound, hrest]

/-- A VMA has a line for page 45 exactly when the page passes the test, with its address. -/
theorem page_mem_lines_iff {v : VmaVars} {a : U64} :
    .page 45 a ∈ v.lines ↔ v.HasPage 45 ∧ a = v.vaddr 45 := by
  rw [VmaVars.lines, List.mem_cons, or_iff_right (by simp)]
  by_cases hpage : v.HasPage 45
  · rw [if_pos hpage, List.mem_singleton, WorksheetLine.page.injEq]
    exact ⟨fun h => ⟨hpage, h.2⟩, fun h => ⟨rfl, h.2⟩⟩
  · rw [if_neg hpage]
    exact iff_of_false List.not_mem_nil fun h => hpage h.1

/-- Where the lines of libc fit, the worksheet prints an address for page 45 exactly when a VMA with
`libc.so.6` in its line maps the page, and the page begins there. -/
theorem page_mem_worksheet_iff {vmas : List MapsVma}
    (hline : ∀ v ∈ vmas, (showMapVma v).length ≤ lineSize)
    (hname : ∀ v ∈ vmas, strstr (showMapVma v) "libc.so.6".toList = true →
      (firstWord (lineTail v)).length < 256)
    (hfile : ∀ v ∈ vmas, strstr (showMapVma v) "libc.so.6".toList = true →
      ∃ f : FileVma, f.toVmaVars = v.vars)
    (frame : VmaVars) (st : Stat) (entries : List ProcEntry) :
    ∃ outs, libcMapTraceWorksheet frame (some st) (some entries) (some vmas) = some (outs, 0) ∧
      ∀ a, .page 45 a ∈ outs ↔ ∃ v ∈ vmas, strstr (showMapVma v) "libc.so.6".toList = true ∧
        ∃ f : FileVma, f.toVmaVars = v.vars ∧ FileVma.pageBytes 45 ⊆ f.fileBytes ∧
          a.toNat ∈ Set.Ico f.start.toNat f.vmEnd.toNat ∧ f.fileByte a.toNat = 45 * 4096 := by
  have hrun := worksheetVmas_eq hline hname frame
  refine ⟨_, Option.map_eq_some_iff.mpr ⟨_, hrun, rfl⟩, fun a => ?_⟩
  rw [List.mem_append, or_iff_right (by simp), List.mem_flatMap]
  simp only [List.mem_filter, and_assoc, page_mem_lines_iff]
  constructor
  · rintro ⟨v, hv, hfound, hpage, hvaddr⟩
    obtain ⟨f, hf⟩ := hfile v hv hfound
    rw [← hf] at hpage hvaddr
    exact ⟨v, hv, hfound, f, hf, (f.hasPage_iff 45).mp hpage,
      (FileVma.eq_vaddr_iff hpage a).mp hvaddr⟩
  · rintro ⟨v, hv, hfound, f, hf, hbytes, haddr⟩
    have hpage : f.HasPage 45 := (f.hasPage_iff 45).mpr hbytes
    have hvaddr : a = f.vaddr 45 := (FileVma.eq_vaddr_iff hpage a).mpr haddr
    rw [hf] at hpage hvaddr
    exact ⟨v, hv, hfound, hpage, hvaddr⟩

end KernelPortfolio
