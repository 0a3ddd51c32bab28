import KernelPortfolio.Lib.Trace
import KernelPortfolio.Proc.SmapsFormat

/-!
# The programs that look an address up in smaps

`show_smaps_for_addr` reads `/proc/self/smaps` in pieces of 255 characters. A piece that begins like
a range sets a flag, and a piece read under the flag is printed for `AnonHugePages` and for `Size:`.
`smapsForAddr_reportsOne_iff` says when it reports the VMA of the address and no other one: a header
that does not fit goes on in later pieces, which may begin like another range.
`show_smaps_summary` reads whole lines, and looks only at headers with `rw` in them.
`showSmapsSummary_eq` says what it prints.
-/

namespace KernelPortfolio

open Stdio

/-- The VMA contains the address. -/
def MapsVma.contains (v : MapsVma) (addr : U64) : Bool := v.vmStart ≤ addr && addr < v.vmEnd

/-! ## `show_smaps_for_addr` -/

/-- `char line[256]` has room for a NUL and so many characters. -/
def smapsLineSize : ℕ := 255

/-- What `sscanf(line, "%lx-%lx", &start, &end) == 2` finds. -/
def rangeOf (line : Text) : Option (U64 × U64) :=
  match sscanf rangeFormat line with
  | [.number start, .number vmEnd] => some (start, vmEnd)
  | _ => none

/-- `target >= start && target < end`. -/
def inRange (r : U64 × U64) (target : U64) : Bool := r.1 ≤ target && target < r.2

/-- `found` behind a piece. -/
def nextFound (target : U64) (found : Bool) (line : Text) : Bool :=
  match rangeOf line with
  | some r => inRange r target
  | none => found

/-- What is printed of a piece. -/
def printPiece (found : Bool) (line : Text) : List Text :=
  (if found && strstr line "AnonHugePages".toList then ["  ".toList ++ line] else []) ++
    (if found && strstr line "Size:".toList then ["  ".toList ++ line] else [])

/-- The loop of `show_smaps_for_addr`: what it prints at each piece. -/
def showSmapsForAddr (target : U64) : Bool → List Text → List (List Text)
  | _, [] => []
  | found, line :: lines =>
    let found := nextFound target found line
    printPiece found line :: showSmapsForAddr target found lines

/-- What is printed at the pieces of the block of `v`, which stands behind those of `pre`. -/
def printedAt (target : U64) (vmas pre : List SmapsVma) (v : SmapsVma) : List (List Text) :=
  ((showSmapsForAddr target false (pieces smapsLineSize (smapsText vmas))).drop
    (pieces smapsLineSize (smapsText pre)).length).take (pieces smapsLineSize (showSmap v)).length

/-- Only the block of a VMA that contains the address is printed from, and of this one the `Size`
line and the `AnonHugePages` line once. -/
def ReportsOneVma (target : U64) (vmas : List SmapsVma) : Prop :=
  ∀ pre v post, vmas = pre ++ v :: post →
    (v.vma.contains target = false → ∀ printed ∈ printedAt target vmas pre v, printed = []) ∧
    (v.vma.contains target = true → ∀ (i : ℕ) f, (smapFields v)[i]? = some f →
      f.label = "Size:           ".toList ∨ f.label = "AnonHugePages:  ".toList →
        (printedAt target vmas pre v)[(pieces smapsLineSize (showMapVma v.vma)).length + i]? =
          some ["  ".toList ++ f.line])

/-- The range that the last piece begins with that begins with one. -/
def lastRange (lines : List Text) : Option (U64 × U64) := (lines.filterMap rangeOf).getLast?

/-- The header tells where its VMA is: of its pieces, the last one that begins with a range has the
address in that range when the VMA contains it; and if the VMA does not, no piece that follows a
range with the address in it, or begins with it, has one of the two texts. -/
def HeaderTells (target : U64) (v : SmapsVma) : Prop :=
  let header := pieces smapsLineSize (showMapVma v.vma)
  (∀ r ∈ lastRange header, inRange r target = v.vma.contains target) ∧
    (v.vma.contains target = false → Trace.Each (fun before piece =>
      (∃ r ∈ lastRange (before ++ [piece]), inRange r target = true) →
        strstr piece "AnonHugePages".toList = false ∧ strstr piece "Size:".toList = false) header)

/-- The flag behind some pieces. -/
def foundAfter (target : U64) (found : Bool) (lines : List Text) : Bool :=
  lines.foldl (nextFound target) found

/-- The flag is that of the last range. -/
theorem foundAfter_eq (target : U64) (found : Bool) (lines : List Text) :
    foundAfter target found lines =
      match lastRange lines with
      | some r => inRange r target
      | none => found := by
  induction lines using List.reverseRecOn with
  | nil => rfl
  | append_singleton lines line ih =>
    have hstep : foundAfter target found (lines ++ [line]) =
        nextFound target (foundAfter target found lines) line := by
      rw [foundAfter, List.foldl_append]
      rfl
    rw [hstep, ih, nextFound, lastRange, lastRange, List.filterMap_append]
    cases hrange : rangeOf line with
    | none => simp [hrange]
    | some r => simp [hrange]

/-- One list of pieces after another. -/
theorem showSmapsForAddr_append (target : U64) (found : Bool) (lines lines' : List Text) :
    showSmapsForAddr target found (lines ++ lines') =
      showSmapsForAddr target found lines ++
        showSmapsForAddr target (foundAfter target found lines) lines' := by
  induction lines generalizing found with
  | nil => rfl
  | cons line lines ih =>
    rw [List.cons_append, showSmapsForAddr, showSmapsForAddr, ih]
    rfl

/-- Something is printed at each piece, if only the empty list. -/
theorem length_showSmapsForAddr (target : U64) (found : Bool) (lines : List Text) :
    (showSmapsForAddr target found lines).length = lines.length := by
  induction lines generalizing found with
  | nil => rfl
  | cons line lines ih => rw [showSmapsForAddr, List.length_cons, ih, List.length_cons]

/-- The block of a VMA is printed as its pieces are, from the flag before it. -/
theorem printedAt_append (target : U64) (pre post : List SmapsVma) (v : SmapsVma) :
    printedAt target (pre ++ v :: post) pre v =
      showSmapsForAddr target
        (foundAfter target false (pieces smapsLineSize (smapsText pre)))
        (pieces smapsLineSize (showSmap v)) := by
  have hblocks (vmas : List SmapsVma) : pieces smapsLineSize (smapsText vmas) =
      vmas.flatMap fun v => pieces smapsLineSize (showSmap v) :=
    pieces_smapsText (by decide) vmas
  have hsplit : pieces smapsLineSize (smapsText (pre ++ v :: post)) =
      pieces smapsLineSize (smapsText pre) ++
        (pieces smapsLineSize (showSmap v) ++ pieces smapsLineSize (smapsText post)) := by
    simp only [hblocks, List.flatMap_append, List.flatMap_cons]
  rw [printedAt, hsplit, showSmapsForAddr_append, showSmapsForAddr_append,
    List.drop_left' (length_showSmapsForAddr ..), List.take_left' (length_showSmapsForAddr ..)]

/-- A piece without a dash begins with no range. -/
theorem rangeOf_eq_none {line : Text} (h : '-' ∉ line) : rangeOf line = none := by
  unfold rangeOf
  split
  · rename_i start vmEnd hscan
    -- for two numbers to be stored, the dash has to be read
    have hlen : 1 < (sscanf rangeFormat line).length := by
      rw [hscan]
      exact Nat.one_lt_two
    rw [rangeFormat, lt_length_sscanf_number] at hlen
    obtain ⟨r, hr, hdash⟩ := hlen
    obtain ⟨r', rfl, -⟩ := (lt_length_sscanf_lit ..).mp (Nat.lt_of_succ_le hdash)
    exact absurd ((suffix_of_mem_afterNumber hr).subset (List.mem_cons_self ..)) h
  · rfl

/-- A piece that begins with the prefix begins with the range of its VMA. -/
theorem rangeOf_header (v : MapsVma) (rest : Text) :
    rangeOf (showVmaHeaderPrefix v ++ rest) = some (v.vmStart, v.vmEnd) := by
  rw [rangeOf, sscanf_rangeFormat]

/-- The fields leave the flag alone. -/
theorem showSmapsForAddr_fields (target : U64) (found : Bool) (v : SmapsVma) :
    showSmapsForAddr target found ((smapFields v).map SmapsField.line) =
      (smapFields v).map fun f => printPiece found f.line := by
  have hfields : ∀ fs : List SmapsField, (∀ f ∈ fs, f ∈ smapFields v) →
      showSmapsForAddr target found (fs.map SmapsField.line) =
        fs.map fun f => printPiece found f.line := by
    intro fs hfs
    induction fs with
    | nil => rfl
    | cons f fs ih =>
      have hnone := rangeOf_eq_none (dash_not_mem_line (hfs f (List.mem_cons_self ..)))
      have hnext : nextFound target found f.line = found := by rw [nextFound, hnone]
      have hrest := ih fun f' hf' => hfs f' (List.mem_cons_of_mem _ hf')
      rw [List.map_cons, showSmapsForAddr, hnext, hrest, List.map_cons]
  exact hfields _ fun f hf => hf

/-- Nothing is printed of the pieces exactly when none of them has one of the texts under the
flag. -/
theorem showSmapsForAddr_nil_iff (target : U64) (found : Bool) (lines : List Text) :
    (∀ printed ∈ showSmapsForAddr target found lines, printed = []) ↔
      Trace.Each (fun before line =>
        printPiece (foundAfter target found (before ++ [line])) line = []) lines := by
  induction lines generalizing found with
  | nil => simp [showSmapsForAddr]
  | cons line lines ih =>
    rw [showSmapsForAddr, List.forall_mem_cons, ih, Trace.each_cons]
    rfl

/-- Nothing is printed of a piece exactly when it has neither text, or the flag is not set. -/
theorem printPiece_eq_nil_iff (found : Bool) (line : Text) :
    printPiece found line = [] ↔ (found = true →
      strstr line "AnonHugePages".toList = false ∧ strstr line "Size:".toList = false) := by
  cases found with
  | false => simp [printPiece]
  | true => simp [printPiece]

/-- The two lines are printed once each, under the flag. -/
theorem printPiece_of_label {v : SmapsVma} {f : SmapsField} (hf : f ∈ smapFields v)
    (hlabel : f.label = "Size:           ".toList ∨ f.label = "AnonHugePages:  ".toList) :
    printPiece true f.line = ["  ".toList ++ f.line] := by
  have hanon : strstr f.line "AnonHugePages".toList = strstr f.label "AnonHugePages".toList :=
    strstr_line hf (c := 'A') (by decide) (by decide) (by decide)
  have hsize : strstr f.line "Size:".toList = strstr f.label "Size:".toList :=
    strstr_line hf (c := 'S') (by decide) (by decide) (by decide)
  rw [printPiece, hanon, hsize]
  rcases hlabel with hlabel | hlabel
  · rw [hlabel]
    rfl
  · rw [hlabel]
    rfl

/-- The `Size` line is the first of the fields. -/
theorem getElem?_smapFields_zero (v : SmapsVma) :
    ∃ f, (smapFields v)[0]? = some f ∧ f.label = "Size:           ".toList :=
  ⟨_, rfl, rfl⟩

/-- Where a piece begins with a range, there is a last one. -/
theorem exists_lastRange {lines : List Text} {line : Text} (hmem : line ∈ lines) {r : U64 × U64}
    (h : rangeOf line = some r) : ∃ r', lastRange lines = some r' := by
  have hne : lines.filterMap rangeOf ≠ [] :=
    List.ne_nil_of_mem (List.mem_filterMap.mpr ⟨line, hmem, h⟩)
  exact ⟨_, List.getLast?_eq_some_getLast hne⟩

section Block

variable (target : U64) (found : Bool) (v : SmapsVma)

/-- Up to each of its pieces, a header has a range, which sets the flag. -/
theorem foundAfter_header {before post : List Text} {piece : Text}
    (h : pieces smapsLineSize (showMapVma v.vma) = before ++ piece :: post) :
    ∃ r, lastRange (before ++ [piece]) = some r ∧
      foundAfter target found (before ++ [piece]) = inRange r target := by
  obtain ⟨later, hheader⟩ := pieces_showMapVma (n := smapsLineSize) (by decide) v.vma
  -- the first piece is among them, and it has the range of the VMA
  have hfirst : showVmaHeaderPrefix v.vma ++ tailIn smapsLineSize v.vma ∈ before ++ [piece] := by
    rw [hheader] at h
    cases before with
    | nil =>
      obtain ⟨rfl, -⟩ := List.cons.inj h
      exact List.mem_cons_self ..
    | cons b before =>
      obtain ⟨rfl, -⟩ := List.cons.inj h
      exact List.mem_cons_self ..
  obtain ⟨r, hr⟩ := exists_lastRange hfirst (rangeOf_header ..)
  exact ⟨r, hr, by rw [foundAfter_eq, hr]⟩

/-- The flag behind the header is that of the last range. -/
theorem foundAfter_header_iff (b : Bool) :
    (∀ r ∈ lastRange (pieces smapsLineSize (showMapVma v.vma)), inRange r target = b) ↔
      foundAfter target found (pieces smapsLineSize (showMapVma v.vma)) = b := by
  obtain ⟨later, hheader⟩ := pieces_showMapVma (n := smapsLineSize) (by decide) v.vma
  have hmem : showVmaHeaderPrefix v.vma ++ tailIn smapsLineSize v.vma ∈
      pieces smapsLineSize (showMapVma v.vma) := by
    rw [hheader]
    exact List.mem_cons_self ..
  obtain ⟨r, hr⟩ := exists_lastRange hmem (rangeOf_header v.vma _)
  rw [foundAfter_eq, hr]
  simp

/-- Nothing is printed of the header exactly when none of its pieces that the flag is set for has
one of the texts. -/
theorem showSmapsForAddr_header_iff :
    (∀ p ∈ showSmapsForAddr target found (pieces smapsLineSize (showMapVma v.vma)), p = []) ↔
      Trace.Each (fun before piece =>
        (∃ r ∈ lastRange (before ++ [piece]), inRange r target = true) →
          strstr piece "AnonHugePages".toList = false ∧ strstr piece "Size:".toList = false)
        (pieces smapsLineSize (showMapVma v.vma)) := by
  rw [showSmapsForAddr_nil_iff]
  refine Trace.each_congr fun before piece post h => ?_
  obtain ⟨r, hr, hfound⟩ := foundAfter_header target found v h
  rw [printPiece_eq_nil_iff, hfound, hr]
  simp

/-- What is printed of a block: of its header, and of its fields under the flag behind it. -/
theorem showSmapsForAddr_block :
    showSmapsForAddr target found (pieces smapsLineSize (showSmap v)) =
      showSmapsForAddr target found (pieces smapsLineSize (showMapVma v.vma)) ++
        (smapFields v).map fun f => printPiece
          (foundAfter target found (pieces smapsLineSize (showMapVma v.vma))) f.line := by
  rw [pieces_showSmap (by decide), showSmapsForAddr_append, showSmapsForAddr_fields]

/-- Nothing is printed of the fields exactly when the flag is not set. -/
theorem printPiece_fields_nil_iff :
    (∀ f ∈ smapFields v, printPiece found f.line = []) ↔ found = false := by
  constructor
  · intro h
    obtain ⟨size, hsize, hlabel⟩ := getElem?_smapFields_zero v
    have hmem := List.mem_of_getElem? hsize
    rw [← Bool.not_eq_true]
    rintro rfl
    have hprinted := printPiece_of_label hmem (.inl hlabel)
    rw [h size hmem] at hprinted
    exact absurd hprinted (List.cons_ne_nil _ _).symm
  · rintro rfl f _
    rfl

/-- The two lines are printed once each exactly when the flag is set. -/
theorem printPiece_fields_once_iff :
    (∀ (i : ℕ) f, (smapFields v)[i]? = some f →
      f.label = "Size:           ".toList ∨ f.label = "AnonHugePages:  ".toList →
        printPiece found f.line = ["  ".toList ++ f.line]) ↔ found = true := by
  constructor
  · intro h
    obtain ⟨size, hsize, hlabel⟩ := getElem?_smapFields_zero v
    rw [← Bool.not_eq_false]
    rintro rfl
    exact absurd (h 0 size hsize (.inl hlabel)) (List.cons_ne_nil _ _).symm
  · rintro rfl i f hf hlabel
    exact printPiece_of_label (List.mem_of_getElem? hf) hlabel

/-- What is printed of a block is right exactly when its header tells where the VMA is. -/
theorem showSmapsForAddr_block_iff (printed : List (List Text))
    (h : printed = showSmapsForAddr target found (pieces smapsLineSize (showSmap v))) :
    ((v.vma.contains target = false → ∀ p ∈ printed, p = []) ∧
      (v.vma.contains target = true → ∀ (i : ℕ) f, (smapFields v)[i]? = some f →
        f.label = "Size:           ".toList ∨ f.label = "AnonHugePages:  ".toList →
          printed[(pieces smapsLineSize (showMapVma v.vma)).length + i]? =
            some ["  ".toList ++ f.line])) ↔ HeaderTells target v := by
  have hfield (i : ℕ) (f : SmapsField) (hf : (smapFields v)[i]? = some f) :
      printed[(pieces smapsLineSize (showMapVma v.vma)).length + i]? = some (printPiece
        (foundAfter target found (pieces smapsLineSize (showMapVma v.vma))) f.line) := by
    have hlen := length_showSmapsForAddr target found (pieces smapsLineSize (showMapVma v.vma))
    rw [h, showSmapsForAddr_block, List.getElem?_append_right (by omega), hlen,
      Nat.add_sub_cancel_left, List.getElem?_map, hf, Option.map_some]
  -- the flag behind the header is the one that the fields are printed under
  unfold HeaderTells
  simp only [foundAfter_header_iff target found v]
  cases v.vma.contains target with
  | false =>
    rw [h, showSmapsForAddr_block]
    simp only [forall_const, Bool.false_eq_true, false_implies, and_true, List.forall_mem_append,
      List.forall_mem_map, showSmapsForAddr_header_iff, printPiece_fields_nil_iff]
    exact and_comm
  | true =>
    simp only [Bool.true_eq_false, false_implies, true_and, forall_const, and_true]
    rw [← printPiece_fields_once_iff _ v]
    constructor
    · intro hall i f hf hlabel
      exact Option.some.inj ((hfield i f hf).symm.trans (hall i f hf hlabel))
    · intro hall i f hf hlabel
      rw [hfield i f hf, hall i f hf hlabel]

end Block

/-- The function reports the VMA of the address, and nothing else, exactly when every header tells
where its VMA is. -/
theorem smapsForAddr_reportsOne_iff (target : U64) (vmas : List SmapsVma) :
    ReportsOneVma target vmas ↔ ∀ v ∈ vmas, HeaderTells target v := by
  constructor
  · intro h v hv
    obtain ⟨pre, post, rfl⟩ := List.append_of_mem hv
    exact (showSmapsForAddr_block_iff target _ v _ (printedAt_append target pre post v)).mp
      (h pre v post rfl)
  · rintro h pre v post rfl
    exact (showSmapsForAddr_block_iff target _ v _ (printedAt_append target pre post v)).mpr
      (h v (by simp))

/-- A header that fits tells where its VMA is. -/
theorem headerTells_of_length_le {v : SmapsVma} (h : (showMapVma v.vma).length ≤ smapsLineSize)
    (target : U64) : HeaderTells target v := by
  have hone : pieces smapsLineSize (showMapVma v.vma) = [showMapVma v.vma] :=
    pieces_eq_singleton (by decide) (isLine_showMapVma v.vma) h
  have hlast : lastRange [showMapVma v.vma] = some (v.vma.vmStart, v.vma.vmEnd) := by
    rw [lastRange, showMapVma, List.filterMap_cons_some (rangeOf_header v.vma _)]
    rfl
  have hrange : inRange (v.vma.vmStart, v.vma.vmEnd) target = v.vma.contains target := rfl
  unfold HeaderTells
  simp only [hone]
  refine ⟨?_, fun hnot => ?_⟩
  · rw [hlast]
    rintro r hr
    rw [← Option.some.inj hr, hrange]
  · rw [Trace.each_cons, List.nil_append, hlast]
    refine ⟨?_, Trace.each_nil _⟩
    rintro ⟨r, hr, htrue⟩
    rw [← Option.some.inj hr, hrange, hnot] at htrue
    exact absurd htrue Bool.false_ne_true

/-- A VMA below the address, whose header goes on like that of a VMA around it: the second piece is
the end of the name of its file. -/
def longHeader : SmapsVma where
  vma :=
    { vmStart := 0x1000
      vmEnd := 0x2000
      vmFlags := 1
      pgoff := 0
      dev := 0x10300005
      ino := 5160837
      name := .file ("/".toList ++ List.replicate 181 'a' ++ "0-ffffffff".toList) false }
  kernelPagesize := 4096
  mmuPagesize := 4096
  mss :=
    { resident := 4096
      pss := 0
      pssDirty := 0
      sharedClean := 0
      sharedDirty := 0
      privateClean := 0
      privateDirty := 0
      referenced := 0
      anonymous := 0
      ksm := 0
      lazyfree := 0
      anonymousThp := 0
      shmemThp := 0
      fileThp := 0
      sharedHugetlb := 0
      privateHugetlb := 0
      swap := 0
      swapPss := 0
      pssLocked := 0 }
  thpEligible := false
  pkey := none
  vmFlags := []
  mem_mnemonics := by simp
  length_vmFlags := by simp

/-- Its `Size` lines are printed for an address that no VMA contains. -/
theorem smapsForAddr_not_reportsOne : longHeader.vma.contains 0x5000 = false ∧
    ¬ ReportsOneVma 0x5000 [longHeader] := by
  refine ⟨by decide, fun h => ?_⟩
  have htells := (showSmapsForAddr_block_iff 0x5000 _ longHeader _
    (printedAt_append 0x5000 [] [] longHeader)).mp (h [] longHeader [] rfl)
  have hlast : lastRange (pieces smapsLineSize (showMapVma longHeader.vma)) =
      some (0, 0xffffffff) := by decide +kernel
  exact absurd (htells.1 _ hlast) (by decide)

/-! ## `show_smaps_summary` -/

/-- `std::string::npos`. -/
def npos : U64 := BitVec.allOnes 64

/-- `line.find(c)`. -/
def find (line : Text) (c : Char) : U64 :=
  if c ∈ line then BitVec.ofNat 64 (line.idxOf c) else npos

/-- `line.substr(pos, count)`. -/
def substr (line : Text) (pos count : U64) : Except StdError Text :=
  if line.length < pos.toNat then .error .outOfRange
  else .ok ((line.drop pos.toNat).take count.toNat)

/-- The range of a header. -/
def parseRegion (line : Text) : Except StdError (U64 × U64) := do
  let start ← stoull 16 (← substr line 0 (find line '-'))
  let vmEnd ← stoull 16 (← substr line (find line '-' + 1) (find line ' ' - find line '-' - 1))
  return (start, vmEnd)

/-- The loop of `show_smaps_summary`, and the line behind it: what is printed. -/
def showSmapsSummary (addr : U64) : List Text → Except StdError (List Text)
  | [] => .ok ["Region not found in smaps".toList]
  | line :: lines =>
    -- `line.find('-') != npos && line.find("rw") != npos`
    if '-' ∈ line ∧ strstr line "rw".toList = true then do
      let r ← parseRegion line
      if inRange r addr then
        return ("Region: ".toList ++ line) :: (lines.take 10).map ("  ".toList ++ ·)
      else showSmapsSummary addr lines
    else showSmapsSummary addr lines

/-- The header of a VMA, as `std::getline` reads it. -/
def regionHeader (v : SmapsVma) : Text := (showMapVma v.vma).dropLast

/-- What is printed for a VMA: its header, and its first ten fields. -/
def regionReport (v : SmapsVma) : List Text :=
  ("Region: ".toList ++ regionHeader v) ::
    ((smapFields v).take 10).map fun f => "  ".toList ++ f.line.dropLast

/-- `find` behind a text without the character. -/
theorem find_append {s : Text} {c : Char} (h : c ∉ s) (t : Text) :
    find (s ++ c :: t) c = BitVec.ofNat 64 s.length := by
  rw [find, if_pos (by simp), List.idxOf_append_of_notMem h, List.idxOf_cons_self, Nat.add_zero]

/-- `substr` in the middle of a text. -/
theorem substr_append (s t rest : Text) {pos count : U64} (hpos : pos.toNat = s.length)
    (hcount : count.toNat = t.length) : substr (s ++ (t ++ rest)) pos count = .ok t := by
  have hle : ¬ (s ++ (t ++ rest)).length < pos.toNat := by
    rw [List.length_append]
    omega
  rw [substr, if_neg hle, hpos, hcount, List.drop_left, List.take_left]

/-- The range of a header is what stands before the first dash, and from there to the blank. -/
theorem parseRegion_append {s t : Text} (hdash : '-' ∉ s) (hs : ' ' ∉ s) (ht : ' ' ∉ t)
    (hslen : s.length ≤ 16) (htlen : t.length ≤ 16) (rest : Text) :
    parseRegion (s ++ '-' :: (t ++ ' ' :: rest)) = do
      let start ← stoull 16 s
      let vmEnd ← stoull 16 t
      return (start, vmEnd) := by
  have hfindDash := find_append hdash (t ++ ' ' :: rest)
  have hblank : ' ' ∉ s ++ '-' :: t := by simp [hs, ht]
  have hfindBlank := find_append hblank rest
  rw [List.append_assoc, List.cons_append, List.length_append, List.length_cons] at hfindBlank
  have hstart : substr (s ++ '-' :: (t ++ ' ' :: rest)) 0 (BitVec.ofNat 64 s.length) = .ok s :=
    substr_append [] s _ rfl (by rw [BitVec.toNat_ofNat]; omega)
  have hend : substr (s ++ '-' :: (t ++ ' ' :: rest)) (BitVec.ofNat 64 s.length + 1)
      (BitVec.ofNat 64 (s.length + (t.length + 1)) - BitVec.ofNat 64 s.length - 1) = .ok t := by
    have hsplit : s ++ '-' :: (t ++ ' ' :: rest) = (s ++ ['-']) ++ (t ++ ' ' :: rest) := by simp
    have hone : (1 : U64).toNat = 1 := rfl
    -- the dash before the second number is counted with the first one
    rw [hsplit]
    apply substr_append
    · rw [BitVec.toNat_add, BitVec.toNat_ofNat, hone, List.length_append, List.length_singleton]
      omega
    · rw [BitVec.toNat_sub, BitVec.toNat_sub, BitVec.toNat_ofNat, BitVec.toNat_ofNat, hone]
      omega
  rw [parseRegion, hfindDash, hfindBlank, hstart, hend]
  rfl

/-- A number of a header. -/
theorem stoull_hexDigits (n : U64) (width : ℕ) : stoull 16 (hexDigits n.toNat width) = .ok n := by
  rw [stoull_digits le_rfl (hexDigits_ne_nil _ _) (fun _ h => isDigitOf_of_mem_hexDigits h)
    (by rw [value_hexDigits]; exact n.isLt), value_hexDigits, BitVec.ofNat_toNat,
    BitVec.setWidth_eq]

/-- A header is its prefix, and the rest of the line without the newline. -/
theorem regionHeader_eq (v : SmapsVma) :
    regionHeader v = showVmaHeaderPrefix v.vma ++ (lineTail v.vma).dropLast := by
  have htail : lineTail v.vma ≠ [] := List.append_ne_nil_of_right_ne_nil _ (List.cons_ne_nil _ _)
  rw [regionHeader, showMapVma, List.dropLast_append_of_ne_nil htail]

/-- The range of a header is that of its VMA, and reading it does not throw. -/
theorem parseRegion_regionHeader (v : SmapsVma) :
    parseRegion (regionHeader v) = .ok (v.vma.vmStart, v.vma.vmEnd) := by
  have hchar {n : U64} {c : Char} (hc : isDigitOf 16 c = false) : c ∉ hexDigits n.toNat 8 := by
    intro hmem
    rw [isDigitOf_of_mem_hexDigits hmem] at hc
    exact absurd hc (by decide)
  have hlen (n : U64) : (hexDigits n.toNat 8).length ≤ 16 :=
    length_hexDigits_le (by decide) n.isLt (by decide)
  rw [regionHeader_eq, showVmaHeaderPrefix_append,
    parseRegion_append (hchar (by decide)) (hchar (by decide)) (hchar (by decide)) (hlen _)
      (hlen _), stoull_hexDigits, stoull_hexDigits]
  rfl

/-- A header has a dash. -/
theorem dash_mem_regionHeader (v : SmapsVma) : '-' ∈ regionHeader v := by
  rw [regionHeader_eq, showVmaHeaderPrefix_append]
  simp

/-- Lines without a dash are passed over. -/
theorem showSmapsSummary_append {lines : List Text} (h : ∀ l ∈ lines, '-' ∉ l) (addr : U64)
    (rest : List Text) : showSmapsSummary addr (lines ++ rest) = showSmapsSummary addr rest := by
  induction lines with
  | nil => rfl
  | cons l lines ih =>
    have hl : ¬('-' ∈ l ∧ strstr l "rw".toList = true) := fun hboth =>
      h l (List.mem_cons_self ..) hboth.1
    rw [List.cons_append, showSmapsSummary, if_neg hl,
      ih fun l' hl' => h l' (List.mem_cons_of_mem _ hl')]

/-- The fields of a block, as `std::getline` reads them, have no dash. -/
theorem dash_not_mem_fields (v : SmapsVma) :
    ∀ l ∈ (smapFields v).map fun f => f.line.dropLast, '-' ∉ l := by
  intro l hl hdash
  obtain ⟨f, hf, rfl⟩ := List.mem_map.mp hl
  exact dash_not_mem_line hf (List.mem_of_mem_dropLast hdash)

/-- The block of a VMA: it is reported if its header has `rw` and it contains the address. -/
theorem showSmapsSummary_block (addr : U64) (v : SmapsVma) (rest : List Text) :
    showSmapsSummary addr ((smapLines v).map List.dropLast ++ rest) =
      if (strstr (regionHeader v) "rw".toList && v.vma.contains addr) = true then
        .ok (regionReport v)
      else showSmapsSummary addr rest := by
  have hfields := showSmapsSummary_append (dash_not_mem_fields v) addr rest
  have hlines : (smapLines v).map List.dropLast ++ rest =
      regionHeader v :: (((smapFields v).map fun f => f.line.dropLast) ++ rest) := by
    rw [smapLines, List.map_cons, List.map_map]
    rfl
  have hten : (((smapFields v).map fun f => f.line.dropLast) ++ rest).take 10 =
      ((smapFields v).take 10).map fun f => f.line.dropLast := by
    rw [List.take_append_of_le_length (by rw [List.length_map]; exact ten_le_length_smapFields v),
      List.map_take]
  have hrange : inRange (v.vma.vmStart, v.vma.vmEnd) addr = v.vma.contains addr := rfl
  -- of the block, only the header is looked at
  rw [hlines, showSmapsSummary, parseRegion_regionHeader, hfields, hten]
  by_cases hrw : strstr (regionHeader v) "rw".toList = true
  · rw [if_pos ⟨dash_mem_regionHeader v, hrw⟩, hrw, Bool.true_and]
    change (if inRange (v.vma.vmStart, v.vma.vmEnd) addr = true then _ else _) = _
    rw [hrange, regionReport, List.map_map]
    rfl
  · rw [if_neg fun hboth => hrw hboth.2, Bool.eq_false_of_not_eq_true hrw]
    rfl

/-- The function reports the first VMA that contains the address and has `rw` in its header: its
header, and its first ten fields. It finds no region exactly when there is no such VMA, and it never
throws. -/
theorem showSmapsSummary_eq (addr : U64) (vmas : List SmapsVma) :
    showSmapsSummary addr (getlines (smapsText vmas)) =
      .ok (match vmas.find? fun v => strstr (regionHeader v) "rw".toList && v.vma.contains addr with
        | some v => regionReport v
        | none => ["Region not found in smaps".toList]) := by
  rw [getlines_smapsText]
  induction vmas with
  | nil => rfl
  | cons v vmas ih =>
    rw [List.flatMap_cons, showSmapsSummary_block, ih, List.find?_cons]
    by_cases h : (strstr (regionHeader v) "rw".toList && v.vma.contains addr) = true
    · rw [if_pos h, h]
    · rw [if_neg h, Bool.eq_false_of_not_eq_true h]

/-- A VMA of code, which cannot be written to. -/
def codeRegion : SmapsVma :=
  { longHeader with
    vma :=
      { vmStart := 0x555555556000
        vmEnd := 0x55555555a000
        vmFlags := 5
        pgoff := 0x2000
        dev := 0x10300005
        ino := 393351
        name := .file "/usr/bin/cat".toList false } }

/-- It is not found. -/
theorem showSmapsSummary_misses_codeRegion : codeRegion.vma.contains 0x555555557000 = true ∧
    showSmapsSummary 0x555555557000 (getlines (smapsText [codeRegion])) =
      .ok ["Region not found in smaps".toList] := by
  have hrw : strstr (regionHeader codeRegion) "rw".toList = false := by decide +kernel
  refine ⟨by decide, ?_⟩
  rw [getlines_smapsText, List.flatMap_singleton, ← List.append_nil (List.map _ _),
    showSmapsSummary_block, hrw]
  rfl

end KernelPortfolio
