import KernelPortfolio.Proc.MapsReaders

/-!
# The processes that map libc

`libc_map_trace` and its worksheet count the processes whose maps have a piece with a text in it:
`libc.so.6` in the one, `.so.6` in the other. `libcCounters_right_iff` says for which snapshots of
`/proc` both count the processes that map libc: `libc.so.6` has to be found in a process that maps
it, where the end of a piece may split it, and `.so.6` in no other process, where any path may have
it. `libc_map_trace` then prints the VMAs of its own libc. `libcMapTrace_printsWhatItReads_iff` says
when all that it prints comes from what it reads: `libc_stat` is printed even after a `stat` that
failed, and the fields of a line even where `sscanf` does not find them.
-/

namespace KernelPortfolio

open Stdio

/-! ## `/proc` -/

/-- An entry of `/proc`: the directory of a process, with its maps if they can be read, or another
one, whose name begins with no digit. -/
inductive ProcEntry where
  | process (pid : ℕ) (maps : Option (List MapsVma))
  | other (isDir : Bool) (name : Text) (h : ∀ c ∈ name.head?, c.isDigit = false)

/-- `entry->d_type == DT_DIR`. -/
def ProcEntry.isDir : ProcEntry → Bool
  | .process _ _ => true
  | .other isDir _ _ => isDir

/-- `entry->d_name`. -/
def ProcEntry.dName : ProcEntry → Text
  | .process pid _ => Nat.toDigits 10 pid
  | .other _ name _ => name

/-- What `fopen` of its `maps` gives to read. -/
def ProcEntry.fopenMaps : ProcEntry → Option Text
  | .process _ maps => maps.map mapsText
  | .other _ _ _ => none

/-- A process that can be read, and maps libc. -/
def ProcEntry.mapsLibc : ProcEntry → Bool
  | .process _ (some vmas) => vmas.any MapsVma.mapsLibc
  | _ => false

/-! ## The counters -/

/-- The body of the loop over `/proc`, with the entries at which `libc_process_count++` has run. -/
def countEntry (needle : Text) (counted : List ProcEntry) (entry : ProcEntry) : List ProcEntry :=
  if entry.isDir = false then counted
  else if (entry.dName.head?.any Char.isDigit) = false then counted
  else
    match entry.fopenMaps with
    | none => counted
    | some maps =>
      if (pieces lineSize maps).any (strstr · needle) then counted ++ [entry] else counted

/-- The loop over `/proc`. -/
def countProcesses (needle : Text) (entries : List ProcEntry) : List ProcEntry :=
  entries.foldl (countEntry needle) []

/-- The processes that `libc_map_trace` counts. -/
def libcMapTraceCounted : List ProcEntry → List ProcEntry := countProcesses "libc.so.6".toList

/-- The processes that `libc_map_trace_worksheet` counts. -/
def libcMapTraceWorksheetCounted : List ProcEntry → List ProcEntry :=
  countProcesses ".so.6".toList

/-- Both print the number of processes that map libc, and these are the ones that they count. -/
def CountersRight (entries : List ProcEntry) : Prop :=
  (libcMapTraceCounted entries).length = (entries.filter ProcEntry.mapsLibc).length ∧
    (libcMapTraceWorksheetCounted entries).length = (entries.filter ProcEntry.mapsLibc).length ∧
    libcMapTraceCounted entries = entries.filter ProcEntry.mapsLibc ∧
    libcMapTraceWorksheetCounted entries = entries.filter ProcEntry.mapsLibc

/-- The maps of an entry have the text in a piece. -/
def found (needle : Text) (entry : ProcEntry) : Bool :=
  entry.fopenMaps.any fun maps => (pieces lineSize maps).any (strstr · needle)

/-- The first character of the name of a process is a digit. -/
theorem isDigit_dName (pid : ℕ) (maps : Option (List MapsVma)) :
    ((ProcEntry.process pid maps).dName.head?.any Char.isDigit) = true := by
  obtain ⟨c, ds, hds⟩ := List.exists_cons_of_ne_nil (Nat.toDigits_ne_nil (n := pid) (b := 10))
  have hc : c ∈ Nat.toDigits 10 pid := by rw [hds]; exact List.mem_cons_self ..
  rw [ProcEntry.dName, hds]
  exact Nat.isDigit_of_mem_toDigits (by decide) le_rfl hc

/-- The body of the loop. -/
theorem countEntry_eq (needle : Text) (counted : List ProcEntry) (entry : ProcEntry) :
    countEntry needle counted entry =
      if found needle entry then counted ++ [entry] else counted := by
  unfold countEntry found
  cases entry with
  | process pid maps =>
    rw [isDigit_dName]
    cases maps with
    | none => simp [ProcEntry.fopenMaps]
    | some vmas => simp [ProcEntry.fopenMaps, ProcEntry.isDir]
  | other isDir name h =>
    simp [ProcEntry.fopenMaps]

/-- The loop counts each entry once, when its maps have the text. -/
theorem countProcesses_eq (needle : Text) (entries : List ProcEntry) :
    countProcesses needle entries = entries.filter (found needle) := by
  -- what has been counted before stays counted
  have hloop (es counted : List ProcEntry) :
      es.foldl (countEntry needle) counted = counted ++ es.filter (found needle) := by
    induction es generalizing counted with
    | nil => simp
    | cons e es ih =>
      rw [List.foldl_cons, countEntry_eq, ih, List.filter_cons]
      by_cases hfound : found needle e = true <;> simp [hfound]
  exact hloop entries []

/-- The text is found in a process when it stands unsplit in a line. -/
theorem found_process {needle : Text} (hneedle : needle ≠ []) (pid : ℕ) (vmas : List MapsVma) :
    found needle (.process pid (some vmas)) = true ↔
      ∃ v ∈ vmas, Unsplit lineSize needle (showMapVma v) := by
  have hline (v : MapsVma) : (∃ p ∈ pieces lineSize (showMapVma v), strstr p needle = true) ↔
      Unsplit lineSize needle (showMapVma v) :=
    exists_piece_iff (by decide) (isLine_showMapVma v) hneedle
  have hrun : found needle (.process pid (some vmas)) =
      vmas.any fun v => (pieces lineSize (showMapVma v)).any (strstr · needle) := by
    rw [found, ProcEntry.fopenMaps, Option.map_some, Option.any_some, pieces_mapsText (by decide),
      List.any_flatMap]
  rw [hrun, List.any_eq_true]
  refine exists_congr fun v => and_congr_right fun _ => ?_
  rw [List.any_eq_true]
  exact hline v

/-- Two filters keep the same when they agree on the elements. -/
theorem filter_eq_filter_iff {α : Type*} {p q : α → Bool} {xs : List α} :
    xs.filter p = xs.filter q ↔ ∀ x ∈ xs, p x = q x := by
  refine ⟨fun h x hx => ?_, List.filter_congr⟩
  have hmem : x ∈ xs.filter p ↔ x ∈ xs.filter q := by rw [h]
  rw [List.mem_filter, List.mem_filter, and_iff_right hx, and_iff_right hx] at hmem
  exact Bool.eq_iff_iff.mpr hmem

/-- Both counters are right about a process exactly when `libc.so.6` stands unsplit in a line, if
the process maps libc, and `.so.6` stands unsplit in no line, if it does not. -/
theorem found_eq_mapsLibc_iff (pid : ℕ) (vmas : List MapsVma) :
    (found "libc.so.6".toList (.process pid (some vmas)) = vmas.any MapsVma.mapsLibc ∧
      found ".so.6".toList (.process pid (some vmas)) = vmas.any MapsVma.mapsLibc) ↔
    if vmas.any MapsVma.mapsLibc then
      ∃ v ∈ vmas, Unsplit lineSize "libc.so.6".toList (showMapVma v)
    else ∀ v ∈ vmas, ¬ Unsplit lineSize ".so.6".toList (showMapVma v) := by
  have hlong : found "libc.so.6".toList (.process pid (some vmas)) = true ↔
      ∃ v ∈ vmas, Unsplit lineSize "libc.so.6".toList (showMapVma v) :=
    found_process (by decide) pid vmas
  have hshort : found ".so.6".toList (.process pid (some vmas)) = true ↔
      ∃ v ∈ vmas, Unsplit lineSize ".so.6".toList (showMapVma v) :=
    found_process (by decide) pid vmas
  -- `.so.6` is the end of `libc.so.6`
  have hend (v : MapsVma) (h : Unsplit lineSize "libc.so.6".toList (showMapVma v)) :
      Unsplit lineSize ".so.6".toList (showMapVma v) :=
    Unsplit.of_append (a := "libc".toList) (by decide) h
  split_ifs with hlibc
  · rw [hlibc, hlong, hshort]
    refine ⟨And.left, fun h => ⟨h, ?_⟩⟩
    obtain ⟨v, hv, hunsplit⟩ := h
    exact ⟨v, hv, hend v hunsplit⟩
  · rw [Bool.eq_false_of_not_eq_true hlibc, Bool.eq_false_iff, Bool.eq_false_iff, ne_eq, hlong,
      ne_eq, hshort]
    simp only [not_exists, not_and]
    exact ⟨And.right, fun h => ⟨fun v hv hunsplit => h v hv (hend v hunsplit), h⟩⟩

/-- Both counters are right exactly when `libc.so.6` stands unsplit in the maps of each process that
maps libc, and `.so.6` in those of no other process. -/
theorem libcCounters_right_iff (entries : List ProcEntry) :
    CountersRight entries ↔ ∀ pid vmas, ProcEntry.process pid (some vmas) ∈ entries →
      if vmas.any MapsVma.mapsLibc then
        ∃ v ∈ vmas, Unsplit lineSize "libc.so.6".toList (showMapVma v)
      else ∀ v ∈ vmas, ¬ Unsplit lineSize ".so.6".toList (showMapVma v) := by
  -- the numbers are right when the processes are
  have hsets : CountersRight entries ↔
      ∀ e ∈ entries, found "libc.so.6".toList e = e.mapsLibc ∧
        found ".so.6".toList e = e.mapsLibc := by
    simp only [CountersRight, libcMapTraceCounted, libcMapTraceWorksheetCounted, countProcesses_eq,
      filter_eq_filter_iff, forall_and]
    refine ⟨fun h => h.2.2, fun h => ⟨?_, ?_, h⟩⟩
    · rw [filter_eq_filter_iff.mpr h.1]
    · rw [filter_eq_filter_iff.mpr h.2]
  rw [hsets]
  constructor
  · intro h pid vmas hmem
    exact (found_eq_mapsLibc_iff pid vmas).mp (h _ hmem)
  · intro h e he
    cases e with
    | process pid maps =>
      cases maps with
      | none => exact ⟨rfl, rfl⟩
      | some vmas => exact (found_eq_mapsLibc_iff pid vmas).mpr (h pid vmas he)
    | other isDir name hname => exact ⟨rfl, rfl⟩

/-- A VMA of another library whose name ends like that of libc. -/
def libstdcxx : MapsVma where
  vmStart := 0x7f0000000000
  vmEnd := 0x7f0000200000
  vmFlags := 1
  pgoff := 0
  dev := 0x10300005
  ino := 5160900
  name := .file "/usr/lib/libstdc++.so.6".toList false

/-- The worksheet counts a process that maps `libstdc++.so.6` and no libc. -/
theorem libcCounters_not_right : ¬ CountersRight [.process 1 (some [libstdcxx])] := by
  intro h
  have hfound : Unsplit lineSize ".so.6".toList (showMapVma libstdcxx) :=
    unsplit_of_length_le (by decide) (strstr_iff.mp (by decide +kernel)) (by decide +kernel)
  have hcounted := h.2.2.2
  rw [libcMapTraceWorksheetCounted, countProcesses_eq, filter_eq_filter_iff] at hcounted
  have hright := hcounted _ (List.mem_singleton.mpr rfl)
  rw [(found_process (by decide) 1 [libstdcxx]).mpr ⟨_, List.mem_singleton.mpr rfl, hfound⟩]
    at hright
  exact absurd hright (by decide +kernel)

/-! ## `libc_map_trace` -/

/-- A variable: what it holds, and whether the program has assigned it. -/
structure Cell (α : Type) where
  val : α
  assigned : Bool
  deriving DecidableEq, Repr

/-- A variable that holds a value that the program gave it. -/
def Cell.of {α : Type} (x : α) : Cell α := ⟨x, true⟩

/-- A variable behind a conversion that stores into it, or does not. In the latter case it holds
what it held, which is not from this run of its block. -/
def Cell.scan {α : Type} (c : Cell α) : Option α → Cell α
  | some x => .of x
  | none => ⟨c.val, false⟩

/-- A number that is computed from variables. -/
def Cell.map₂ {α β γ : Type} (f : α → β → γ) (c : Cell α) (d : Cell β) : Cell γ :=
  ⟨f c.val d.val, c.assigned && d.assigned⟩

/-- What the stack holds when `main` begins, in the place of the variables that it prints. -/
structure Frame where
  stIno : U64
  start : U64
  vmEnd : U64
  offset : U64
  perms : Text

/-- `struct stat`. -/
structure Stat where
  stIno : U64
  stSize : U64
  stDev : U64
  deriving DecidableEq, Repr

/-- A line of the report. -/
inductive TraceLine where
  | fixed (s : String)
  | inode (ino : Cell U64)
  | size (bytes pages : Cell U64)
  | device (dev : Cell U64)
  | processes (count : ℕ)
  | entries (count : ℕ)
  | thisProcess (pid : ℕ)
  | vma (num : ℕ) (start vmEnd : Cell U64) (perms : Cell Text) (offset pages : Cell U64)
  | mapsBytes (offset upTo : Cell U64)
  | filePage (offset page : Cell U64)
  | reads (start offset : Cell U64)
  | pageIndex (page : Cell U64)
  | mapping (ino : Cell U64)
  | tree (count : ℕ)
  | unmaps (count : ℕ)
  | sharedBy (count : ℕ)
  | mapcount (count : ℕ)
  | proof (count : ℕ)
  deriving DecidableEq, Repr

/-- All that the line prints has been assigned. -/
def TraceLine.assigned : TraceLine → Bool
  | .inode ino | .device ino | .pageIndex ino | .mapping ino => ino.assigned
  | .size bytes pages => bytes.assigned && pages.assigned
  | .vma _ start vmEnd perms offset pages =>
    start.assigned && vmEnd.assigned && perms.assigned && offset.assigned && pages.assigned
  | .mapsBytes offset upTo => offset.assigned && upTo.assigned
  | .filePage offset page => offset.assigned && page.assigned
  | .reads start offset => start.assigned && offset.assigned
  | _ => true

/-- `first_vma_start`, `first_vma_end` and `first_offset`. -/
structure FirstVma where
  vmaStart : Cell U64
  vmaEnd : Cell U64
  offset : Cell U64

/-- The variables of the loop over `/proc/self/maps`: those of its block, and those of `main`. -/
structure Locals where
  start : Cell U64
  vmEnd : Cell U64
  perms : Cell Text
  offset : Cell U64
  first : FirstVma
  vmaNum : ℕ

/-- The variables before the loop. -/
def Frame.locals (frame : Frame) : Locals where
  start := ⟨frame.start, false⟩
  vmEnd := ⟨frame.vmEnd, false⟩
  perms := ⟨frame.perms, false⟩
  offset := ⟨frame.offset, false⟩
  first := ⟨.of 0, .of 0, .of 0⟩
  vmaNum := 0

/-- The block for a piece with `libc.so.6`. A word that does not fit overwrites the stack, and there
is no telling what the program does then. -/
def showVma (l : Locals) (line : Text) : Option (Locals × TraceLine) :=
  let vs := sscanf mapsFormat line
  if TokensFit line then
    let start := l.start.scan (numberAt vs 0)
    let vmEnd := l.vmEnd.scan (numberAt vs 1)
    let perms := l.perms.scan (wordAt vs 2)
    let offset := l.offset.scan (numberAt vs 3)
    let sizePages := vmEnd.map₂ (fun e s => (e - s) / 4096) start
    some
      ({ start, vmEnd, perms, offset
         first := if l.vmaNum = 0 then ⟨start, vmEnd, offset⟩ else l.first
         vmaNum := l.vmaNum + 1 },
        .vma l.vmaNum start vmEnd perms offset sizePages)
  else none

/-- The loop over the pieces of `/proc/self/maps`. -/
def showVmas : List Text → Locals → Option (Locals × List TraceLine)
  | [], l => some (l, [])
  | line :: lines, l =>
    if strstr line "libc.so.6".toList then
      (showVma l line).bind fun (l, out) => (showVmas lines l).map fun (l, outs) => (l, out :: outs)
    else showVmas lines l

/-- Steps 4 to 6, behind the loop. -/
def traceReport (first : FirstVma) (ino : Cell U64) (count : ℕ) : List TraceLine :=
  let upTo := first.offset.map₂ (· + ·) (first.vmaEnd.map₂ (· - ·) first.vmaStart)
  let page : Cell U64 := ⟨first.offset.val / 4096, first.offset.assigned⟩
  [.fixed "\n", .fixed "=== OFFSET EXPLANATION ===\n", .mapsBytes first.offset upTo,
    .filePage first.offset page, .reads first.vmaStart first.offset, .pageIndex page,
    .fixed "=== REVERSE LOOKUP TRACE ===\n",
    .fixed "11. Kernel needs to swap page 40 (offset 0x28000) of libc.so.6\n", .mapping ino,
    .fixed "13. page->index = 40 (page 40 of file)\n", .tree count,
    .fixed "15. Kernel walks tree: for each VMA where vm_pgoff <= 40 < vm_pgoff + vma_pages:\n",
    .fixed "    → vaddr = vm_start + (40 - vm_pgoff) × 4096\n",
    .fixed "    → walk VMA's mm->pgd to find PTE at vaddr\n", .fixed "    → unmap PTE\n",
    .unmaps count, .fixed "=== NUMERICAL EXAMPLE ===\n",
    .fixed "17. libc.so.6 r-xp VMA: offset=0x28000=163840 bytes\n",
    .fixed "18. 163840 / 4096 = 40 pages\n",
    .fixed "19. vm_pgoff = 40 (this VMA starts at page 40 of file)\n",
    .fixed "20. If process accesses vaddr = vm_start + 0x5000:\n",
    .fixed "    page_in_file = vm_pgoff + (0x5000 / 4096) = 40 + 5 = page 45\n", .sharedBy count,
    .mapcount count, .fixed "=== PROOF COMPLETE ===\n", .proof count,
    .fixed "address_space->i_mmap tree → O(log N) lookup of all VMAs\n",
    .fixed "Without tree → O(N) linear scan of all VMAs in system → system freeze\n"]

/-- The title, and step 1. -/
def traceHead (libcStat : Option Stat) : List TraceLine :=
  .fixed "=== LIBC.SO.6 MAPPING TRACE ===\n\n" ::
    match libcStat with
    | none => [.fixed "\n"]
    | some st => [.inode (.of st.stIno), .size (.of st.stSize) (.of (st.stSize.sdiv 4096)),
        .device (.of st.stDev), .fixed "\n"]

/-- What is printed in a run to the end. -/
def traceOutput (libcStat : Option Stat) (ino : Cell U64) (count pid : ℕ) (vmas : List TraceLine)
    (first : FirstVma) : List TraceLine :=
  traceHead libcStat ++ [.processes count, .entries count, .thisProcess pid] ++ vmas ++
    traceReport first ino count

/-- The pieces of `/proc/self/maps`, if it can be opened. -/
def selfLines (selfMaps : Option (List MapsVma)) : List Text :=
  (selfMaps.map fun vmas => pieces lineSize (mapsText vmas)).getD []

/-- `main` of `libc_map_trace`, with what `stat`, `opendir` and `fopen` give, up to where its
behaviour is undefined. -/
def libcMapTrace (frame : Frame) (libcStat : Option Stat) (procDir : Option (List ProcEntry))
    (pid : ℕ) (selfMaps : Option (List MapsVma)) : Option (List TraceLine) :=
  -- `libc_stat` is written by a `stat` that succeeds
  let ino : Cell U64 := (⟨frame.stIno, false⟩ : Cell U64).scan (libcStat.map (·.stIno))
  match procDir with
  | none => some (traceHead libcStat)
  | some entries =>
    (showVmas (selfLines selfMaps) frame.locals).map fun r =>
      traceOutput libcStat ino (libcMapTraceCounted entries).length pid r.2 r.1.first

/-- The output is the same whatever the stack held, and the program has assigned all that it
prints. -/
def PrintsWhatItReads (libcStat : Option Stat) (procDir : Option (List ProcEntry)) (pid : ℕ)
    (selfMaps : Option (List MapsVma)) : Prop :=
  ∃ out, (∀ frame, libcMapTrace frame libcStat procDir pid selfMaps = some out) ∧
    ∀ line ∈ out, line.assigned = true

/-- A piece is shown from what it holds: its words fit, and its first four fields are there. -/
def ShowsItself (line : Text) : Prop := TokensFit line ∧ BeginsLikeLine line

/-- A piece that is shown from what it holds. -/
theorem showVma_of_showsItself {line : Text} (h : ShowsItself line) :
    ∃ (start vmEnd offset : U64) (perms : Text), ∀ l : Locals, showVma l line = some
      ({ start := .of start, vmEnd := .of vmEnd, perms := .of perms, offset := .of offset
         first := if l.vmaNum = 0 then ⟨.of start, .of vmEnd, .of offset⟩ else l.first
         vmaNum := l.vmaNum + 1 },
        .vma l.vmaNum (.of start) (.of vmEnd) (.of perms) (.of offset)
          (.of ((vmEnd - start) / 4096))) := by
  obtain ⟨hfit, hbegins⟩ := h
  have hlen := (three_lt_length_sscanf_iff line).mpr hbegins
  obtain ⟨start, hstart⟩ : ∃ n, numberAt (sscanf mapsFormat line) 0 = some n :=
    Option.isSome_iff_exists.mp ((isSome_numberAt rfl).mpr (by omega))
  obtain ⟨vmEnd, hvmEnd⟩ : ∃ n, numberAt (sscanf mapsFormat line) 1 = some n :=
    Option.isSome_iff_exists.mp ((isSome_numberAt rfl).mpr (by omega))
  obtain ⟨perms, hperms⟩ : ∃ w, wordAt (sscanf mapsFormat line) 2 = some w :=
    Option.isSome_iff_exists.mp ((isSome_wordAt rfl).mpr (by omega))
  obtain ⟨offset, hoffset⟩ : ∃ n, numberAt (sscanf mapsFormat line) 3 = some n :=
    Option.isSome_iff_exists.mp ((isSome_numberAt rfl).mpr hlen)
  refine ⟨start, vmEnd, offset, perms, fun l => ?_⟩
  simp only [showVma, if_pos hfit, hstart, hvmEnd, hperms, hoffset, Cell.scan]
  rfl

/-- A piece that is not. -/
theorem not_assigned_of_showVma {line : Text} (h : ¬ ShowsItself line) {l l' : Locals}
    {out : TraceLine} (hshow : showVma l line = some (l', out)) : out.assigned = false := by
  by_cases hfit : TokensFit line
  swap
  · rw [showVma, if_neg hfit] at hshow
    exact nomatch hshow
  -- of the four fields that are printed, the offset is the last one to be stored
  have hlen : ¬ 3 < (sscanf mapsFormat line).length := fun hlen =>
    h ⟨hfit, (three_lt_length_sscanf_iff line).mp hlen⟩
  have hoffset : numberAt (sscanf mapsFormat line) 3 = none := by
    rw [← Option.not_isSome_iff_eq_none, isSome_numberAt rfl]
    exact hlen
  simp only [showVma, if_pos hfit] at hshow
  obtain ⟨-, rfl⟩ := Prod.mk.inj (Option.some.inj hshow)
  simp [TraceLine.assigned, hoffset, Cell.scan]

/-- The loop behind a piece with `libc.so.6`. -/
theorem showVmas_cons {line : Text} (hfound : strstr line "libc.so.6".toList = true)
    (lines : List Text) (l : Locals) :
    showVmas (line :: lines) l =
      (showVma l line).bind fun r => (showVmas lines r.1).map fun rs => (rs.1, r.2 :: rs.2) :=
  if_pos hfound

/-- The variables of the first VMA have been assigned. -/
def FirstVma.assigned (first : FirstVma) : Prop :=
  first.vmaStart.assigned = true ∧ first.vmaEnd.assigned = true ∧ first.offset.assigned = true

/-- The loop over pieces that are shown from what they hold does not depend on what its block
finds on the stack. -/
theorem showVmas_of_showsItself {lines : List Text}
    (h : ∀ line ∈ lines, strstr line "libc.so.6".toList = true → ShowsItself line) (num : ℕ)
    {first : FirstVma} (hfirst : first.assigned) :
    ∃ first' outs, (∀ l : Locals, l.vmaNum = num → l.first = first →
      ∃ l', showVmas lines l = some (l', outs) ∧ l'.first = first') ∧
      first'.assigned ∧ ∀ out ∈ outs, out.assigned = true := by
  induction lines generalizing num first with
  | nil => exact ⟨first, [], fun l _ hl => ⟨l, rfl, hl⟩, hfirst, by simp⟩
  | cons line lines ih =>
    have hrest : ∀ line' ∈ lines, strstr line' "libc.so.6".toList = true → ShowsItself line' :=
      fun line' hmem => h line' (List.mem_cons_of_mem _ hmem)
    by_cases hfound : strstr line "libc.so.6".toList = true
    · obtain ⟨start, vmEnd, offset, perms, hshow⟩ :=
        showVma_of_showsItself (h line (List.mem_cons_self ..) hfound)
      have hnext : (if num = 0 then ⟨.of start, .of vmEnd, .of offset⟩ else first :
          FirstVma).assigned := by
        split_ifs
        · exact ⟨rfl, rfl, rfl⟩
        · exact hfirst
      obtain ⟨first', outs, hrun, hassigned, houts⟩ := ih hrest (num + 1) hnext
      -- the block assigns its variables before it prints them
      refine ⟨first', .vma num (.of start) (.of vmEnd) (.of perms) (.of offset)
        (.of ((vmEnd - start) / 4096)) :: outs, fun l hnum hl => ?_, hassigned, ?_⟩
      · subst hnum hl
        rw [showVmas_cons hfound, hshow, Option.bind_some]
        obtain ⟨l', hl', hl'first⟩ := hrun ⟨.of start, .of vmEnd, .of perms, .of offset,
          if l.vmaNum = 0 then ⟨.of start, .of vmEnd, .of offset⟩ else l.first, _⟩ rfl rfl
        exact ⟨l', by rw [hl', Option.map_some], hl'first⟩
      · intro out hout
        rcases List.mem_cons.mp hout with rfl | hmem
        · rfl
        · exact houts out hmem
    · obtain ⟨first', outs, hrun, hassigned, houts⟩ := ih hrest num hfirst
      refine ⟨first', outs, fun l hnum hl => ?_, hassigned, houts⟩
      rw [showVmas, if_neg hfound]
      exact hrun l hnum hl

/-- A loop with another piece prints something that has not been assigned, unless it goes wrong. -/
theorem showVmas_of_not_showsItself {lines : List Text} {line : Text} (hmem : line ∈ lines)
    (hfound : strstr line "libc.so.6".toList = true) (h : ¬ ShowsItself line) {l l' : Locals}
    {outs : List TraceLine} (hrun : showVmas lines l = some (l', outs)) :
    ∃ out ∈ outs, out.assigned = false := by
  induction lines generalizing l l' outs with
  | nil => exact absurd hmem List.not_mem_nil
  | cons line' lines ih =>
    by_cases hfound' : strstr line' "libc.so.6".toList = true
    · rw [showVmas_cons hfound', Option.bind_eq_some_iff] at hrun
      obtain ⟨⟨l₁, out⟩, hshow, hrun⟩ := hrun
      obtain ⟨⟨l₂, outs'⟩, htail, heq⟩ := Option.map_eq_some_iff.mp hrun
      obtain ⟨-, rfl⟩ := Prod.mk.inj heq
      rcases List.mem_cons.mp hmem with rfl | hmem'
      · exact ⟨out, List.mem_cons_self .., not_assigned_of_showVma h hshow⟩
      · obtain ⟨out', hout', hassigned⟩ := ih hmem' htail
        exact ⟨out', List.mem_cons_of_mem _ hout', hassigned⟩
    · rw [showVmas, if_neg hfound'] at hrun
      rcases List.mem_cons.mp hmem with rfl | hmem'
      · exact absurd hfound hfound'
      · exact ih hmem' hrun

/-- All that the report prints has been assigned, if the variables of the first VMA and the inode
number have. -/
theorem assigned_of_mem_traceReport {first : FirstVma} (hfirst : first.assigned) {ino : Cell U64}
    (hino : ino.assigned = true) (count : ℕ) :
    ∀ line ∈ traceReport first ino count, line.assigned = true := by
  obtain ⟨hstart, hend, hoffset⟩ := hfirst
  simp [traceReport, TraceLine.assigned, Cell.map₂, hstart, hend, hoffset, hino]

/-- Step 1 prints what `stat` has found. -/
theorem assigned_of_mem_traceHead (libcStat : Option Stat) :
    ∀ line ∈ traceHead libcStat, line.assigned = true := by
  cases libcStat <;> simp [traceHead, TraceLine.assigned, Cell.of]

/-- All of a run to the end has been assigned when the lines of the loop have, and what the report
prints. -/
theorem assigned_of_mem_traceOutput (libcStat : Option Stat) {ino : Cell U64}
    {vmas : List TraceLine} {first : FirstVma} (hino : ino.assigned = true)
    (hfirst : first.assigned) (hvmas : ∀ line ∈ vmas, line.assigned = true) (count pid : ℕ) :
    ∀ line ∈ traceOutput libcStat ino count pid vmas first, line.assigned = true := by
  intro line hline
  simp only [traceOutput, List.mem_append, List.mem_cons, List.not_mem_nil, or_false] at hline
  rcases hline with ((hhead | rfl | rfl | rfl) | hmem) | hreport
  · exact assigned_of_mem_traceHead libcStat line hhead
  · rfl
  · rfl
  · rfl
  · exact hvmas line hmem
  · exact assigned_of_mem_traceReport hfirst hino count line hreport

/-- The report prints the inode number. -/
theorem mapping_mem_traceReport (first : FirstVma) (ino : Cell U64) (count : ℕ) :
    TraceLine.mapping ino ∈ traceReport first ino count := by
  simp [traceReport]

/-- Behind an `opendir` that succeeds, the output is a function of what is read exactly when `stat`
succeeds and each piece with `libc.so.6` is shown from what it holds. -/
theorem printsWhatItReads_some_iff (libcStat : Option Stat) (entries : List ProcEntry) (pid : ℕ)
    (selfMaps : Option (List MapsVma)) :
    PrintsWhatItReads libcStat (some entries) pid selfMaps ↔ libcStat.isSome = true ∧
      ∀ line ∈ selfLines selfMaps, strstr line "libc.so.6".toList = true → ShowsItself line := by
  constructor
  · rintro ⟨out, hrun, hassigned⟩
    obtain ⟨⟨l, vmas⟩, hloop, rfl⟩ := Option.map_eq_some_iff.mp (hrun ⟨0, 0, 0, 0, []⟩)
    constructor
    · -- the report prints the inode number again, whatever `stat` has returned
      by_contra hstat
      obtain rfl := Option.not_isSome_iff_eq_none.mp hstat
      have hmapping := hassigned _ (List.mem_append_right _ (mapping_mem_traceReport _ _ _))
      exact absurd hmapping Bool.false_ne_true
    · intro line hline hfound
      by_contra hbad
      obtain ⟨out, hout, hfalse⟩ := showVmas_of_not_showsItself hline hfound hbad hloop
      have htrue := hassigned out (List.mem_append_left _ (List.mem_append_right _ hout))
      rw [hfalse] at htrue
      exact absurd htrue Bool.false_ne_true
  · rintro ⟨hstat, hlines⟩
    obtain ⟨st, rfl⟩ := Option.isSome_iff_exists.mp hstat
    obtain ⟨first, outs, hloop, hfirst, houts⟩ :=
      showVmas_of_showsItself hlines 0 (show FirstVma.assigned ⟨.of 0, .of 0, .of 0⟩ from
        ⟨rfl, rfl, rfl⟩)
    let count := (libcMapTraceCounted entries).length
    refine ⟨traceOutput (some st) (.of st.stIno) count pid outs first, fun frame => ?_,
      assigned_of_mem_traceOutput _ rfl hfirst houts _ _⟩
    obtain ⟨l, hl, rfl⟩ := hloop frame.locals rfl rfl
    exact Option.map_eq_some_iff.mpr ⟨_, hl, rfl⟩

/-- What is read of libc's own lines is shown from itself exactly when each piece with `libc.so.6`
fits, and begins like a line where it is not the first one. -/
theorem selfLines_showItself_iff (selfMaps : Option (List MapsVma)) :
    (∀ line ∈ selfLines selfMaps, strstr line "libc.so.6".toList = true → ShowsItself line) ↔
      ∀ vmas ∈ selfMaps, ∀ v ∈ vmas, ∀ (k : ℕ) piece,
        (pieces lineSize (showMapVma v))[k]? = some piece →
          strstr piece "libc.so.6".toList = true →
            PieceFits v k piece ∧ (k ≠ 0 → BeginsLikeLine piece) := by
  have hpiece {v : MapsVma} {k : ℕ} {piece : Text}
      (h : (pieces lineSize (showMapVma v))[k]? = some piece) :
      ShowsItself piece ↔ PieceFits v k piece ∧ (k ≠ 0 → BeginsLikeLine piece) := by
    rw [ShowsItself, tokensFit_piece_iff h]
    refine and_congr_right fun _ => ⟨fun hbegins _ => hbegins, fun hbegins => ?_⟩
    rcases eq_or_ne k 0 with rfl | hk
    · exact beginsLikeLine_first_piece h
    · exact hbegins hk
  cases selfMaps with
  | none => simp [selfLines]
  | some vmas =>
    simp only [selfLines, Option.map_some, Option.getD_some, Option.mem_some_iff, forall_eq',
      mem_pieces_mapsText (show 0 < lineSize by decide)]
    constructor
    · intro h v hv k piece hk hfound
      exact (hpiece hk).mp (h piece ⟨v, hv, k, hk⟩ hfound)
    · rintro h piece ⟨v, hv, k, hk⟩ hfound
      exact (hpiece hk).mpr (h v hv k piece hk hfound)

/-- The output of `libc_map_trace` is a function of what it reads exactly when `opendir` fails, or
else `stat` succeeds and the pieces of its own maps with `libc.so.6` fit, and begin like lines. -/
theorem libcMapTrace_printsWhatItReads_iff (libcStat : Option Stat)
    (procDir : Option (List ProcEntry)) (pid : ℕ) (selfMaps : Option (List MapsVma)) :
    PrintsWhatItReads libcStat procDir pid selfMaps ↔ procDir = none ∨ libcStat.isSome = true ∧
      ∀ vmas ∈ selfMaps, ∀ v ∈ vmas, ∀ (k : ℕ) piece,
        (pieces lineSize (showMapVma v))[k]? = some piece →
          strstr piece "libc.so.6".toList = true →
            PieceFits v k piece ∧ (k ≠ 0 → BeginsLikeLine piece) := by
  rw [← selfLines_showItself_iff]
  cases procDir with
  | none => exact iff_of_true ⟨_, fun _ => rfl, assigned_of_mem_traceHead libcStat⟩ (.inl rfl)
  | some entries =>
    rw [printsWhatItReads_some_iff]
    simp only [reduceCtorEq, false_or]

/-- A VMA of libc, where another distribution keeps it. -/
def lib64Libc : MapsVma where
  vmStart := 0x7f0000028000
  vmEnd := 0x7f00001b0000
  vmFlags := 5
  pgoff := 0x28000
  dev := 0x10300005
  ino := 5160837
  name := .file "/usr/lib64/libc.so.6".toList false

/-- Where `stat` fails, the program prints the inode number that the stack held. -/
theorem libcMapTrace_not_printsWhatItReads :
    ¬ PrintsWhatItReads none (some [.process 1 (some [lib64Libc])]) 1 (some [lib64Libc]) := by
  intro h
  have hstat := ((printsWhatItReads_some_iff ..).mp h).1
  exact absurd hstat Bool.false_ne_true

end KernelPortfolio
