import KernelPortfolio.Lib.Stdio
import KernelPortfolio.Machine

/-!
# The lines of `/proc/PID/maps`

`show_map_vma` prints a line for a VMA: its range, its permissions, its place in its file, and a
name. Everything before the name is short (`length_showVmaHeaderPrefix_le`) and is read back by the
formats that the programs give to `sscanf` (`sscanf_mapsFormat`, `sscanf_offsetFormat`,
`sscanf_rangeFormat`), whatever follows it: the name is any text without a newline, of any length.
-/

namespace KernelPortfolio

open Stdio

/-! ## `seq_file` -/

/-- The digits of a number, filled up with zeros. -/
def hexDigits (v width : ℕ) : Text :=
  List.replicate (width - (Nat.toDigits 16 v).length) '0' ++ Nat.toDigits 16 v

/-- `seq_put_hex_ll`. -/
def seqPutHexLl (delimiter : Text) (v width : ℕ) : Text := delimiter ++ hexDigits v width

/-- `seq_put_decimal_ull_width`. -/
def seqPutDecimalUllWidth (delimiter : Text) (num width : ℕ) : Text :=
  delimiter ++ List.replicate (width - (Nat.toDigits 10 num).length) ' ' ++ Nat.toDigits 10 num

/-- `seq_put_decimal_ull`. -/
def seqPutDecimalUll (delimiter : Text) (num : ℕ) : Text := seqPutDecimalUllWidth delimiter num 0

/-- `seq_pad`, after `count` characters of a line that `seq_setwidth` has set a width for. -/
def seqPad (padUntil count : ℕ) : Text := List.replicate (padUntil - count) ' ' ++ [' ']

/-- `mangle_path`, which `seq_path` escapes newlines with. -/
def manglePath (path : Text) : Text :=
  path.flatMap fun c => if c = '\n' then "\\012".toList else [c]

/-! ## VMAs -/

/-- What `get_vma_name` finds for a VMA. -/
inductive VmaName where
  | unnamed
  /-- The path of its file, and whether the file is deleted. -/
  | file (path : Text) (deleted : Bool)
  /-- `[heap]` and the like, or a name that the process gave. -/
  | label (name : Text) (h : '\n' ∉ name)

/-- `VM_READ`. -/
def vmRead : U64 := .twoPow 64 0

/-- `VM_WRITE`. -/
def vmWrite : U64 := .twoPow 64 1

/-- `VM_EXEC`. -/
def vmExec : U64 := .twoPow 64 2

/-- `VM_MAYSHARE`. -/
def vmMayshare : U64 := .twoPow 64 7

/-- What `show_map_vma` reads of a VMA. -/
structure MapsVma where
  vmStart : U64
  vmEnd : U64
  vmFlags : U64
  pgoff : U64
  dev : BitVec 32
  ino : U64
  name : VmaName

/-- `MAJOR`. -/
def major (dev : BitVec 32) : ℕ := dev.toNat >>> 20

/-- `MINOR`. -/
def minor (dev : BitVec 32) : ℕ := dev.toNat % 2^20

/-- The permissions, from `VM_READ`, `VM_WRITE`, `VM_EXEC` and `VM_MAYSHARE`. -/
def permsText (flags : U64) : Text :=
  [if flags.getLsbD 0 then 'r' else '-', if flags.getLsbD 1 then 'w' else '-',
    if flags.getLsbD 2 then 'x' else '-', if flags.getLsbD 7 then 's' else 'p']

/-- The device, as the line has it. -/
def devText (dev : BitVec 32) : Text :=
  seqPutHexLl [] (major dev) 2 ++ seqPutHexLl [':'] (minor dev) 2

/-- `show_vma_header_prefix`. -/
def showVmaHeaderPrefix (v : MapsVma) : Text :=
  seqPutHexLl [] v.vmStart.toNat 8 ++ seqPutHexLl ['-'] v.vmEnd.toNat 8 ++
    [' '] ++ permsText v.vmFlags ++ seqPutHexLl [' '] v.pgoff.toNat 8 ++
    [' '] ++ devText v.dev ++ seqPutDecimalUll [' '] v.ino.toNat ++ [' ']

/-- What `show_map_vma` prints of a name. -/
def VmaName.text : VmaName → Option Text
  | .unnamed => none
  | .file path deleted => some (manglePath path ++ if deleted then " (deleted)".toList else [])
  | .label name _ => some name

/-- The line behind the prefix. -/
def lineTail (v : MapsVma) : Text :=
  (match v.name.text with
    | none => []
    | some name => seqPad 72 (showVmaHeaderPrefix v).length ++ name) ++ ['\n']

/-- `show_map_vma`. -/
def showMapVma (v : MapsVma) : Text := showVmaHeaderPrefix v ++ lineTail v

/-- `/proc/PID/maps`. -/
def mapsText (vmas : List MapsVma) : Text := vmas.flatMap showMapVma

/-- The name of a file in its directory. -/
def baseName (path : Text) : Text := path.rtakeWhile (· ≠ '/')

/-- The VMA maps a file of this name. -/
def MapsVma.mapsFile (v : MapsVma) (name : Text) : Bool :=
  match v.name with
  | .file path _ => baseName path = name
  | _ => false

/-- The VMA maps libc. -/
def MapsVma.mapsLibc (v : MapsVma) : Bool := v.mapsFile "libc.so.6".toList

/-! ## The line -/

/-- A name has no newline. -/
theorem newline_not_mem_of_text {n : VmaName} {t : Text} (h : n.text = some t) : '\n' ∉ t := by
  cases n with
  | unnamed => simp [VmaName.text] at h
  | file path deleted =>
    obtain rfl := Option.some.inj h
    have hpath : '\n' ∉ manglePath path := by
      simp only [manglePath, List.mem_flatMap, not_exists, not_and]
      intro c _
      split_ifs with hc
      · decide
      · exact fun hmem => hc (List.mem_singleton.mp hmem).symm
    have hdeleted : '\n' ∉ (if deleted then " (deleted)".toList else []) := by
      cases deleted <;> decide
    exact fun hmem => (List.mem_append.mp hmem).elim hpath hdeleted
  | label name hname =>
    obtain rfl := Option.some.inj h
    exact hname

/-- The digits are digits. -/
theorem isDigitOf_of_mem_hexDigits {v width : ℕ} {c : Char} (h : c ∈ hexDigits v width) :
    isDigitOf 16 c = true := by
  rcases List.mem_append.mp h with hzero | hdigit
  · rw [List.eq_of_mem_replicate hzero]
    rfl
  · exact isDigitOf_of_mem_toDigits (by decide) le_rfl hdigit

/-- There is a digit. -/
theorem hexDigits_ne_nil (v width : ℕ) : hexDigits v width ≠ [] :=
  List.append_ne_nil_of_right_ne_nil _ Nat.toDigits_ne_nil

/-- The digits denote the number. -/
theorem value_hexDigits (v width : ℕ) : value 16 (hexDigits v width) = v := by
  rw [hexDigits, value_replicate_zero_append, value_toDigits (by decide) le_rfl]

/-- A number of `k` digits takes no more room than `k`, and than the width. -/
theorem length_hexDigits_le {v width k : ℕ} (hk : 0 < k) (hv : v < 16^k) (hwidth : width ≤ k) :
    (hexDigits v width).length ≤ k := by
  have hlen := (Nat.length_toDigits_le_iff (by decide) hk).mpr hv
  rw [hexDigits, List.length_append, List.length_replicate]
  omega

/-- The permissions are a word. -/
theorem isSpace_of_mem_permsText {flags : U64} {c : Char} (h : c ∈ permsText flags) :
    isSpace c = false := by
  simp only [permsText, List.mem_cons, List.not_mem_nil, or_false] at h
  rcases h with rfl | rfl | rfl | rfl <;> split_ifs <;> decide

/-- The device is a word. -/
theorem isSpace_of_mem_devText {dev : BitVec 32} {c : Char} (h : c ∈ devText dev) :
    isSpace c = false := by
  simp only [devText, seqPutHexLl, List.nil_append, List.mem_append, List.mem_singleton] at h
  rcases h with hmajor | rfl | hminor
  · exact (not_isSpace_of_isDigitOf le_rfl (isDigitOf_of_mem_hexDigits hmajor)).1
  · rfl
  · exact (not_isSpace_of_isDigitOf le_rfl (isDigitOf_of_mem_hexDigits hminor)).1

/-- The fields of the prefix, and what follows them. -/
theorem showVmaHeaderPrefix_append (v : MapsVma) (rest : Text) :
    showVmaHeaderPrefix v ++ rest =
      hexDigits v.vmStart.toNat 8 ++ '-' :: (hexDigits v.vmEnd.toNat 8 ++ ' ' ::
        (permsText v.vmFlags ++ ' ' :: (hexDigits v.pgoff.toNat 8 ++ ' ' ::
          (devText v.dev ++ ' ' :: (Nat.toDigits 10 v.ino.toNat ++ ' ' :: rest))))) := by
  simp [showVmaHeaderPrefix, seqPutHexLl, seqPutDecimalUll, seqPutDecimalUllWidth]

/-- The prefix has no newline. -/
theorem newline_not_mem_showVmaHeaderPrefix (v : MapsVma) : '\n' ∉ showVmaHeaderPrefix v := by
  have hhex (n width : ℕ) : '\n' ∉ hexDigits n width := fun h =>
    absurd (isDigitOf_of_mem_hexDigits h) (by decide)
  have hino : '\n' ∉ Nat.toDigits 10 v.ino.toNat := fun h =>
    absurd (isDigitOf_of_mem_toDigits (by decide) (by decide) h) (by decide : ¬isDigitOf 10 '\n')
  have hperms : '\n' ∉ permsText v.vmFlags := fun h =>
    absurd (isSpace_of_mem_permsText h) (by decide)
  have hdev : '\n' ∉ devText v.dev := fun h => absurd (isSpace_of_mem_devText h) (by decide)
  rw [← List.append_nil (showVmaHeaderPrefix v), showVmaHeaderPrefix_append]
  simp [hhex, hino, hperms, hdev]

/-- What `show_map_vma` prints is a line. -/
theorem isLine_showMapVma (v : MapsVma) : IsLine (showMapVma v) := by
  refine ⟨showVmaHeaderPrefix v ++ (match v.name.text with
    | none => []
    | some name => seqPad 72 (showVmaHeaderPrefix v).length ++ name), ?_, ?_⟩
  · rw [List.mem_append]
    apply not_or_intro (newline_not_mem_showVmaHeaderPrefix v)
    split
    · simp
    · rename_i name hname
      simp [seqPad, newline_not_mem_of_text hname]
  · rw [showMapVma, lineTail, List.append_assoc]

/-- The pieces of a maps text are those of its lines. -/
theorem pieces_mapsText {n : ℕ} (hn : 0 < n) (vmas : List MapsVma) :
    pieces n (mapsText vmas) = vmas.flatMap fun v => pieces n (showMapVma v) :=
  pieces_flatMap hn fun v _ => isLine_showMapVma v

/-- The device is short. -/
theorem length_devText_le (dev : BitVec 32) : (devText dev).length ≤ 9 := by
  have hmajor : (hexDigits (major dev) 2).length ≤ 3 :=
    length_hexDigits_le (by decide) (by have := dev.isLt; simp only [major]; omega) (by decide)
  have hminor : (hexDigits (minor dev) 2).length ≤ 5 :=
    length_hexDigits_le (by decide) (Nat.mod_lt _ (by decide)) (by decide)
  simp only [devText, seqPutHexLl, List.length_append, List.length_singleton, List.length_nil]
  omega

/-- The prefix is short. -/
theorem length_showVmaHeaderPrefix_le (v : MapsVma) : (showVmaHeaderPrefix v).length ≤ 87 := by
  have hhex (n : U64) : (hexDigits n.toNat 8).length ≤ 16 :=
    length_hexDigits_le (by decide) n.isLt (by decide)
  have hino : (Nat.toDigits 10 v.ino.toNat).length ≤ 20 :=
    (Nat.length_toDigits_le_iff (by decide) (by decide)).mpr (v.ino.isLt.trans (by decide))
  have hdev := length_devText_le v.dev
  have hstart := hhex v.vmStart
  have hend := hhex v.vmEnd
  have hpgoff := hhex v.pgoff
  rw [← List.append_nil (showVmaHeaderPrefix v), showVmaHeaderPrefix_append]
  -- three numbers of 16 digits, the permissions, the device, the inode number, and what joins them
  simp only [permsText, List.length_append, List.length_cons, List.length_nil]
  omega

/-- What the first `n` characters of a line have behind the prefix. -/
def tailIn (n : ℕ) (v : MapsVma) : Text := (lineTail v).take (n - (showVmaHeaderPrefix v).length)

/-- The first piece of a line begins with the prefix. -/
theorem take_showMapVma {n : ℕ} (hn : 87 ≤ n) (v : MapsVma) :
    (showMapVma v).take n = showVmaHeaderPrefix v ++ tailIn n v := by
  have hlen := (length_showVmaHeaderPrefix_le v).trans hn
  rw [showMapVma, List.take_append, List.take_of_length_le hlen, tailIn]

/-- The first piece of a line is its prefix, and as much of the rest as there is room for. -/
theorem pieces_showMapVma {n : ℕ} (hn : 87 ≤ n) (v : MapsVma) :
    ∃ later, pieces n (showMapVma v) = (showVmaHeaderPrefix v ++ tailIn n v) :: later := by
  have hpos : 0 < n := Nat.lt_of_lt_of_le (by decide) hn
  have hline : 0 < (showMapVma v).length := by
    obtain ⟨body, -, hbody⟩ := isLine_showMapVma v
    simp [hbody]
  -- a line is not empty, so that there is a first piece
  have hfirst := getElem?_pieces hpos (isLine_showMapVma v) 0
  rw [Nat.mul_zero, if_pos hline, List.drop_zero, take_showMapVma hn] at hfirst
  obtain ⟨p, later, hp⟩ : ∃ p later, pieces n (showMapVma v) = p :: later :=
    List.exists_cons_of_ne_nil fun hnil => by simp [hnil] at hfirst
  rw [hp, List.getElem?_cons_zero] at hfirst
  exact ⟨later, by rw [hp, Option.some.inj hfirst]⟩

/-- The line of a VMA of a file has its name. -/
theorem isInfix_of_mapsFile {v : MapsVma} {name : Text} (h : v.mapsFile name = true)
    (hname : '\n' ∉ name) : name <:+: showMapVma v := by
  unfold MapsVma.mapsFile at h
  split at h
  · rename_i path deleted hv
    obtain ⟨dir, hdir⟩ : name <:+ path := by
      rw [← of_decide_eq_true h]
      exact List.rtakeWhile_suffix _ _
    -- a name without newlines is printed as it is
    have hmangle : manglePath path = manglePath dir ++ name := by
      have hkeep : manglePath name = name := by
        have hchar : ∀ c ∈ name, (if c = '\n' then "\\012".toList else [c]) = [c] := by
          intro c hc
          have hne : c ≠ '\n' := ne_of_mem_of_not_mem hc hname
          exact if_neg hne
        rw [manglePath, List.flatMap_congr hchar, List.flatMap_singleton']
      rw [← hdir, manglePath, List.flatMap_append]
      exact congrArg (manglePath dir ++ ·) hkeep
    simp only [showMapVma, lineTail, hv, VmaName.text, hmangle, List.append_assoc]
    refine ⟨showVmaHeaderPrefix v ++ (seqPad 72 (showVmaHeaderPrefix v).length ++ manglePath dir),
      (if deleted then " (deleted)".toList else []) ++ ['\n'], ?_⟩
    simp only [List.append_assoc]
  · exact absurd h (by decide)

/-- The line of a VMA of libc has `libc.so.6`. -/
theorem isInfix_of_mapsLibc {v : MapsVma} (h : v.mapsLibc = true) :
    "libc.so.6".toList <:+: showMapVma v := isInfix_of_mapsFile h (by decide)

/-- The permissions are in the line. -/
theorem isInfix_permsText (v : MapsVma) : permsText v.vmFlags <:+: showMapVma v := by
  rw [showMapVma, showVmaHeaderPrefix_append]
  -- they stand behind the dash, and the blank after the range
  have hbehind (c : Char) (s t : Text) : t <:+ s ++ c :: t :=
    (List.suffix_cons c t).trans (List.suffix_append s _)
  exact (List.prefix_append _ _).isInfix.trans ((hbehind ..).trans (hbehind ..)).isInfix

/-! ## `sscanf` -/

/-- `"%lx-%lx %s %lx %s %lu %s"`. -/
def mapsFormat : List Directive :=
  [.number 16 true, .lit '-', .number 16 true, .blank, .word true, .blank, .number 16 true,
    .blank, .word true, .blank, .number 10 true, .blank, .word true]

/-- `"%lx-%*lx %*s %lx"`. -/
def offsetFormat : List Directive :=
  [.number 16 true, .lit '-', .number 16 false, .blank, .word false, .blank, .number 16 true]

/-- `"%lx-%lx"`. -/
def rangeFormat : List Directive := [.number 16 true, .lit '-', .number 16 true]

/-- A number of the line, as it is read back. -/
theorem sscanf_hexDigits (assign : Bool) (ds : List Directive) (n : U64) (width : ℕ) {c : Char}
    (rest : Text) (hc : isDigitOf 16 c = false ∧ c ≠ 'x' ∧ c ≠ 'X') :
    sscanf (.number 16 assign :: ds) (hexDigits n.toNat width ++ c :: rest) =
      if assign then .number n :: sscanf ds (c :: rest) else sscanf ds (c :: rest) := by
  have hstop : Stops 16 (c :: rest) := by
    intro d hd
    obtain rfl := Option.some.inj hd
    exact hc
  rw [sscanf_number_append le_rfl assign ds (hexDigits_ne_nil _ _)
    (fun _ h => isDigitOf_of_mem_hexDigits h) (by rw [value_hexDigits]; exact n.isLt) hstop,
    value_hexDigits, BitVec.ofNat_toNat, BitVec.setWidth_eq]

/-- The inode number, as it is read back. -/
theorem sscanf_toDigits (ds : List Directive) (n : U64) (rest : Text) :
    sscanf (.number 10 true :: ds) (Nat.toDigits 10 n.toNat ++ ' ' :: rest) =
      .number n :: sscanf ds (' ' :: rest) := by
  have hstop : Stops 10 (' ' :: rest) := by
    intro d hd
    obtain rfl := Option.some.inj hd
    decide
  have hvalue : value 10 (Nat.toDigits 10 n.toNat) = n.toNat :=
    value_toDigits (by decide) (by decide) _
  rw [sscanf_number_append (by decide) true ds Nat.toDigits_ne_nil
    (fun _ h => isDigitOf_of_mem_toDigits (by decide) (by decide) h) (by rw [hvalue]; exact n.isLt)
    hstop, hvalue, BitVec.ofNat_toNat, BitVec.setWidth_eq]
  rfl

/-- The values of the prefix. -/
def headerValues (v : MapsVma) : List Value :=
  [.number v.vmStart, .number v.vmEnd, .word (permsText v.vmFlags), .number v.pgoff,
    .word (devText v.dev), .number v.ino]

section Scan

variable (v : MapsVma) (rest : Text)

/-- The range is read back. -/
theorem sscanf_range (ds : List Directive) (assign : Bool) :
    sscanf (.number 16 true :: .lit '-' :: .number 16 assign :: ds)
        (showVmaHeaderPrefix v ++ rest) =
      .number v.vmStart ::
        let after := ' ' ::
          (permsText v.vmFlags ++ ' ' :: (hexDigits v.pgoff.toNat 8 ++ ' ' ::
            (devText v.dev ++ ' ' :: (Nat.toDigits 10 v.ino.toNat ++ ' ' :: rest))))
        if assign then .number v.vmEnd :: sscanf ds after else sscanf ds after := by
  rw [showVmaHeaderPrefix_append, sscanf_hexDigits _ _ _ _ _ (by decide), if_pos rfl,
    sscanf_lit_cons, sscanf_hexDigits _ _ _ _ _ (by decide)]

/-- The range is read back. -/
theorem sscanf_rangeFormat :
    sscanf rangeFormat (showVmaHeaderPrefix v ++ rest) = [.number v.vmStart, .number v.vmEnd] :=
  sscanf_range v rest [] true

/-- The beginning and the offset are read back. -/
theorem sscanf_offsetFormat :
    sscanf offsetFormat (showVmaHeaderPrefix v ++ rest) = [.number v.vmStart, .number v.pgoff] := by
  have hperms : permsText v.vmFlags ≠ [] := List.cons_ne_nil _ _
  rw [offsetFormat, sscanf_range, if_neg (by decide), sscanf_blank_word, sscanf_word_blank,
    sscanf_word_append _ _ hperms (fun _ h => isSpace_of_mem_permsText h) rfl,
    if_neg (by decide), sscanf_blank_number, sscanf_number_blank,
    sscanf_hexDigits _ _ _ _ _ (by decide), if_pos rfl, sscanf]

/-- The fields of the prefix are read back, and the last one is the first word behind it. -/
theorem sscanf_mapsFormat :
    sscanf mapsFormat (showVmaHeaderPrefix v ++ rest) =
      headerValues v ++ sscanf [.word true] rest := by
  have hperms : permsText v.vmFlags ≠ [] := List.cons_ne_nil _ _
  have hdev : devText v.dev ≠ [] :=
    List.append_ne_nil_of_left_ne_nil (hexDigits_ne_nil _ _) _
  rw [mapsFormat, sscanf_range, if_pos rfl, sscanf_blank_word, sscanf_word_blank,
    sscanf_word_append _ _ hperms (fun _ h => isSpace_of_mem_permsText h) rfl,
    if_pos rfl, sscanf_blank_number, sscanf_number_blank,
    sscanf_hexDigits _ _ _ _ _ (by decide), if_pos rfl, sscanf_blank_word, sscanf_word_blank,
    sscanf_word_append _ _ hdev (fun _ h => isSpace_of_mem_devText h) rfl, if_pos rfl,
    sscanf_blank_number, sscanf_number_blank, sscanf_toDigits, sscanf_blank_word,
    sscanf_word_blank]
  rfl

end Scan

end KernelPortfolio
