import KernelPortfolio.Proc.MapsReaders

/-!
# The programs that look for the code of libc

`got_proof`, its worksheet and `show_libc_mapping` of `mm_per_process_proof` stop at the first
piece of `/proc/self/maps` with `libc` and with `r-xp` in it. The first two take the start and the
offset of the VMA from it, to compute where a symbol of libc is mapped, and the third prints it.
`gotPrograms_useLibcText_iff` says when that piece is the line of a VMA of the code of libc: its
line has to fit, and no piece before it may have both texts, be they in a path or in two fields.
-/

namespace KernelPortfolio

open Stdio

/-- The test of the three programs. -/
def hasLibcText (line : Text) : Bool := strstr line "libc".toList && strstr line "r-xp".toList

/-- The loop of the three programs up to its `break`: how many pieces it has passed over, and the
piece that it has stopped at. -/
def breakAt : List Text → Option (ℕ × Text)
  | [] => none
  | line :: lines =>
    if hasLibcText line then some (0, line) else (breakAt lines).map fun r => (r.1 + 1, r.2)

/-- `libc_start` and `libc_offset` of `got_proof` and its worksheet, which are zero at first. -/
def scanLibc (lines : List Text) : U64 × U64 :=
  match breakAt lines with
  | none => (0, 0)
  | some (_, line) =>
    let vs := sscanf offsetFormat line
    ((numberAt vs 0).getD 0, (numberAt vs 1).getD 0)

/-- What `got_proof` expects of a symbol at an offset of the file of libc. -/
def gotProofExpected (lines : List Text) (printfOffset : U64) : U64 :=
  let libc := scanLibc lines
  let vmPgoffBytes := libc.2
  libc.1 + (printfOffset - vmPgoffBytes)

/-- What the worksheet expects. -/
def gotProofWorksheetExpected (lines : List Text) (symbolOffset : U64) : U64 :=
  let libc := scanLibc lines
  libc.1 + symbolOffset - libc.2

/-- An address that the dynamic linker gives, beside the expected one. -/
structure Verification where
  actual : U64
  expected : U64
  isMatch : Bool
  deriving DecidableEq, Repr

/-- `MATCH` or `MISMATCH`. -/
def verify (actual expected : U64) : Verification := ⟨actual, expected, actual == expected⟩

/-- `main` of `got_proof`: its verification of `printf`. -/
def gotProof (printfAddr : U64) (lines : List Text) : Verification :=
  verify printfAddr (gotProofExpected lines 0x60100)

/-- `main` of `got_proof_worksheet`: its verifications of `printf` and `scanf`. -/
def gotProofWorksheet (printfAddr scanfAddr : U64) (lines : List Text) :
    Verification × Verification :=
  (verify printfAddr (gotProofWorksheetExpected lines 0x60100),
    verify scanfAddr (gotProofWorksheetExpected lines 0x662a0))

/-- The line of `show_libc_mapping`. A number that `sscanf` has not stored is none. -/
structure LibcMapping where
  start : Option U64
  vmEnd : Option U64
  offset : Option U64
  inode : Option U64
  deriving DecidableEq, Repr

/-- `show_libc_mapping`: the line that it prints, if it stops at a piece. A word that does not fit
overwrites the stack, and there is no telling what it does then. -/
def showLibcMapping (lines : List Text) : Option (Option LibcMapping) :=
  match breakAt lines with
  | none => some none
  | some (_, line) =>
    let vs := sscanf mapsFormat line
    if TokensFit line then
      some (some ⟨numberAt vs 0, numberAt vs 1, numberAt vs 3, numberAt vs 5⟩)
    else none

/-- A VMA of the code of libc. -/
def MapsVma.mapsLibcText (v : MapsVma) : Bool :=
  v.mapsLibc && permsText v.vmFlags == "r-xp".toList

/-- The three programs stop at the line of a VMA of the code of libc, and use its numbers. -/
def UseLibcText (vmas : List MapsVma) : Prop :=
  let lines := pieces lineSize (mapsText vmas)
  ∃ pre v post, vmas = pre ++ v :: post ∧ v.mapsLibcText = true ∧
    breakAt lines = some ((pieces lineSize (mapsText pre)).length, showMapVma v) ∧
    (∀ f, gotProofExpected lines f = v.vmStart + (f - v.pgoff)) ∧
    (∀ f, gotProofWorksheetExpected lines f = v.vmStart + (f - v.pgoff)) ∧
    showLibcMapping lines =
      some (some ⟨some v.vmStart, some v.vmEnd, some v.pgoff, some v.ino⟩)

/-- The loop stops at the first piece that passes the test. -/
theorem breakAt_eq_some_iff {lines : List Text} {i : ℕ} {line : Text} :
    breakAt lines = some (i, line) ↔ ∃ pre post, lines = pre ++ line :: post ∧ pre.length = i ∧
      hasLibcText line = true ∧ ∀ l ∈ pre, hasLibcText l = false := by
  induction lines generalizing i with
  | nil => simp [breakAt]
  | cons l lines ih =>
    rw [breakAt]
    split_ifs with hl
    · -- the loop stops here
      constructor
      · intro h
        obtain ⟨rfl, rfl⟩ := Prod.mk.inj (Option.some.inj h)
        exact ⟨[], lines, rfl, rfl, hl, by simp⟩
      · rintro ⟨pre, post, heq, rfl, -, hpre⟩
        cases pre with
        | nil =>
          obtain ⟨rfl, -⟩ := List.cons.inj heq
          rfl
        | cons l' pre =>
          obtain ⟨rfl, -⟩ := List.cons.inj heq
          exact absurd hl (by simp [hpre])
    · -- it goes on, with one more piece behind it
      rw [Option.map_eq_some_iff]
      constructor
      · rintro ⟨⟨j, line'⟩, hj, heq⟩
        obtain ⟨rfl, rfl⟩ := Prod.mk.inj heq
        obtain ⟨pre, post, rfl, rfl, hline, hpre⟩ := ih.mp hj
        refine ⟨l :: pre, post, rfl, rfl, hline, ?_⟩
        intro l' hl'
        rcases List.mem_cons.mp hl' with rfl | hmem
        · exact Bool.eq_false_of_not_eq_true hl
        · exact hpre l' hmem
      · rintro ⟨pre, post, heq, rfl, hline, hpre⟩
        cases pre with
        | nil =>
          obtain ⟨rfl, -⟩ := List.cons.inj heq
          exact absurd hline hl
        | cons l' pre =>
          obtain ⟨rfl, rfl⟩ := List.cons.inj heq
          exact ⟨(pre.length, line), ih.mpr ⟨pre, post, rfl, rfl, hline,
            fun x hx => hpre x (List.mem_cons_of_mem _ hx)⟩, rfl⟩

/-- The line of a VMA of the code of libc passes the test. -/
theorem hasLibcText_showMapVma {v : MapsVma} (h : v.mapsLibcText = true) :
    hasLibcText (showMapVma v) = true := by
  obtain ⟨hlibc, hperms⟩ := Bool.and_eq_true_iff.mp h
  have hname : "libc".toList <:+: showMapVma v :=
    (show "libc".toList <:+: "libc.so.6".toList from ⟨[], ".so.6".toList, by decide⟩).trans
      (isInfix_of_mapsLibc hlibc)
  have htext : "r-xp".toList <:+: showMapVma v := by
    rw [← eq_of_beq hperms]
    exact isInfix_permsText v
  exact Bool.and_eq_true_iff.mpr ⟨strstr_iff.mpr hname, strstr_iff.mpr htext⟩

/-- The pieces of a maps text, around a line that fits. -/
theorem pieces_mapsText_append {n : ℕ} (hn : 0 < n) (pre post : List MapsVma) {v : MapsVma}
    (hlen : (showMapVma v).length ≤ n) :
    pieces n (mapsText (pre ++ v :: post)) =
      pieces n (mapsText pre) ++ showMapVma v :: pieces n (mapsText post) := by
  have hone : pieces n (showMapVma v) = [showMapVma v] :=
    pieces_eq_singleton hn (isLine_showMapVma v) hlen
  rw [pieces_mapsText hn, pieces_mapsText hn, pieces_mapsText hn, List.flatMap_append,
    List.flatMap_cons, hone, List.singleton_append]

/-- The first two programs use the numbers of the line that the loop stops at. -/
theorem gotProofExpected_of_breakAt {lines : List Text} {i : ℕ} {v : MapsVma}
    (h : breakAt lines = some (i, showMapVma v)) (f : U64) :
    gotProofExpected lines f = v.vmStart + (f - v.pgoff) ∧
      gotProofWorksheetExpected lines f = v.vmStart + (f - v.pgoff) := by
  have hlibc : scanLibc lines = (v.vmStart, v.pgoff) := by
    unfold scanLibc
    rw [h]
    simp only [showMapVma, sscanf_offsetFormat]
    rfl
  constructor
  · rw [gotProofExpected, hlibc]
  · rw [gotProofWorksheetExpected, hlibc]
    -- the worksheet adds before it subtracts
    calc v.vmStart + f - v.pgoff = v.vmStart + f + -v.pgoff := BitVec.sub_eq_add_neg ..
      _ = v.vmStart + (f + -v.pgoff) := BitVec.add_assoc ..
      _ = v.vmStart + (f - v.pgoff) := by rw [← BitVec.sub_eq_add_neg]

/-- `got_proof` and its worksheet say `MATCH` exactly when the symbols are where the line that the
loop stops at has their offsets in the file. -/
theorem gotProof_isMatch_iff {lines : List Text} {i : ℕ} {v : MapsVma}
    (h : breakAt lines = some (i, showMapVma v)) (printfAddr scanfAddr : U64) :
    ((gotProof printfAddr lines).isMatch = true ↔
        printfAddr = v.vmStart + (0x60100 - v.pgoff)) ∧
      ((gotProofWorksheet printfAddr scanfAddr lines).1.isMatch = true ↔
        printfAddr = v.vmStart + (0x60100 - v.pgoff)) ∧
      ((gotProofWorksheet printfAddr scanfAddr lines).2.isMatch = true ↔
        scanfAddr = v.vmStart + (0x662a0 - v.pgoff)) := by
  have hmatch (actual expected : U64) :
      (verify actual expected).isMatch = true ↔ actual = expected := beq_iff_eq
  unfold gotProof gotProofWorksheet
  rw [hmatch, hmatch, hmatch, (gotProofExpected_of_breakAt h _).1,
    (gotProofExpected_of_breakAt h _).2, (gotProofExpected_of_breakAt h _).2]
  exact ⟨Iff.rfl, Iff.rfl, Iff.rfl⟩

/-- The third program prints the line that the loop stops at, if the name fits. -/
theorem showLibcMapping_of_breakAt {lines : List Text} {i : ℕ} {v : MapsVma}
    (h : breakAt lines = some (i, showMapVma v)) :
    showLibcMapping lines = if (firstWord (lineTail v)).length < 256 then
      some (some ⟨some v.vmStart, some v.vmEnd, some v.pgoff, some v.ino⟩) else none := by
  have hfit : TokensFit (showMapVma v) ↔ (firstWord (lineTail v)).length < 256 :=
    tokensFit_header v (lineTail v)
  unfold showLibcMapping
  rw [h]
  simp only [hfit]
  split_ifs
  · rw [showMapVma, sscanf_mapsFormat]
    rfl
  · rfl

/-- The three programs use the code of libc exactly when the line of such a VMA fits, no piece of a
line before it has both texts, and the first word of its name is shorter than 256 characters. -/
theorem gotPrograms_useLibcText_iff (vmas : List MapsVma) :
    UseLibcText vmas ↔ ∃ pre v post, vmas = pre ++ v :: post ∧ v.mapsLibcText = true ∧
      (showMapVma v).length ≤ lineSize ∧
      (∀ u ∈ pre, ∀ piece ∈ pieces lineSize (showMapVma u), hasLibcText piece = false) ∧
      (firstWord (lineTail v)).length < 256 := by
  have hpre (pre : List MapsVma) (P : Text → Prop) : (∀ piece ∈ pieces lineSize (mapsText pre),
      P piece) ↔ ∀ u ∈ pre, ∀ piece ∈ pieces lineSize (showMapVma u), P piece := by
    rw [pieces_mapsText (by decide)]
    simp only [List.mem_flatMap]
    exact ⟨fun h u hu p hp => h p ⟨u, hu, hp⟩, fun h p ⟨u, hu, hp⟩ => h u hu p hp⟩
  constructor
  · rintro ⟨pre, v, post, rfl, hv, hbreak, -, -, hshow⟩
    obtain ⟨before, after, hlines, hlen, -, hbefore⟩ := breakAt_eq_some_iff.mp hbreak
    -- the line is a piece, so that it fits
    have hfit : (showMapVma v).length ≤ lineSize := by
      have hmem : showMapVma v ∈ pieces lineSize (mapsText (pre ++ v :: post)) := by
        rw [hlines]
        exact List.mem_append_right _ (List.mem_cons_self ..)
      obtain ⟨u, -, k, hk⟩ := (mem_pieces_mapsText (by decide)).mp hmem
      exact length_le_of_mem_pieces (by decide) (isLine_showMapVma u) (List.mem_of_getElem? hk)
    rw [pieces_mapsText_append (by decide) pre post hfit] at hlines
    obtain ⟨rfl, -⟩ := List.append_inj hlines hlen.symm
    rw [showLibcMapping_of_breakAt hbreak] at hshow
    refine ⟨pre, v, post, rfl, hv, hfit, (hpre pre _).mp hbefore, ?_⟩
    by_contra hlong
    rw [if_neg hlong] at hshow
    exact nomatch hshow
  · rintro ⟨pre, v, post, rfl, hv, hfit, hbefore, hname⟩
    have hbreak : breakAt (pieces lineSize (mapsText (pre ++ v :: post))) =
        some ((pieces lineSize (mapsText pre)).length, showMapVma v) :=
      breakAt_eq_some_iff.mpr ⟨_, _, pieces_mapsText_append (by decide) pre post hfit, rfl,
        hasLibcText_showMapVma hv, (hpre pre _).mpr hbefore⟩
    refine ⟨pre, v, post, rfl, hv, hbreak, fun f => (gotProofExpected_of_breakAt hbreak f).1,
      fun f => (gotProofExpected_of_breakAt hbreak f).2, ?_⟩
    rw [showLibcMapping_of_breakAt hbreak, if_pos hname]

/-- The code of another library, whose name has `libc` in it. -/
def libcryptoText : MapsVma where
  vmStart := 0x7f0000000000
  vmEnd := 0x7f0000300000
  vmFlags := 5
  pgoff := 0x0
  dev := 0x10300005
  ino := 5160901
  name := .file "/usr/lib/libcrypto.so.3".toList false

/-- The code of libc. -/
def libcText : MapsVma where
  vmStart := 0x7f0000428000
  vmEnd := 0x7f00005b0000
  vmFlags := 5
  pgoff := 0x28000
  dev := 0x10300005
  ino := 5160837
  name := .file "/usr/lib/libc.so.6".toList false

/-- In a process that maps both, the programs use the numbers of libcrypto. -/
theorem gotPrograms_not_useLibcText : libcText.mapsLibcText = true ∧
    ¬ UseLibcText [libcryptoText, libcText] := by
  refine ⟨by decide +kernel, ?_⟩
  rintro ⟨pre, v, post, heq, hv, hbreak, -⟩
  have hfit : (showMapVma libcryptoText).length ≤ lineSize := by decide +kernel
  -- the loop stops at the line before that of libc
  have hfirst : breakAt (pieces lineSize (mapsText [libcryptoText, libcText])) =
      some (0, showMapVma libcryptoText) :=
    breakAt_eq_some_iff.mpr ⟨[], _, pieces_mapsText_append (by decide) [] [libcText] hfit, rfl,
      by decide +kernel, by simp⟩
  rw [hfirst] at hbreak
  obtain ⟨-, hline⟩ := Prod.mk.inj (Option.some.inj hbreak)
  have hmem : v = libcryptoText ∨ v = libcText := by
    have hv : v ∈ [libcryptoText, libcText] := by rw [heq]; simp
    simpa using hv
  rcases hmem with rfl | rfl
  · exact absurd hv (by decide +kernel)
  · exact absurd hline (by decide +kernel)

end KernelPortfolio
