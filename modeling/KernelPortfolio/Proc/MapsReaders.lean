import KernelPortfolio.Proc.MapsFormat

/-!
# The programs that parse the lines of libc

`libc_map_trace`, its worksheet and `mm_per_process_proof` read `/proc/self/maps` into a buffer of
512 characters, look for libc in it, and give what they find to `sscanf`, which stores words into
`perms[8]`, `dev[16]` and `path[256]`. `mapsReaders_fit_iff` says when they fit. In the first piece
of a line, the permissions and the device do, and the name does when its first word is shorter than
256 characters. A later piece is a part of a name, and what is stored depends on whether that looks
like the beginning of a line (`WordsFit`).
-/

namespace KernelPortfolio

open Stdio

/-- The programs. -/
inductive MapsReader where
  | libcMapTrace
  | libcMapTraceWorksheet
  | mmPerProcessProof
  deriving DecidableEq, Repr

/-- The test of a piece before it is parsed. -/
def MapsReader.passes : MapsReader → Text → Bool
  | .libcMapTrace, line => strstr line "libc.so.6".toList
  | .libcMapTraceWorksheet, line => strstr line "libc.so.6".toList
  | .mmPerProcessProof, line => strstr line "libc".toList && strstr line "r-xp".toList

/-- `char perms[8], dev[16], path[256]`. -/
def tokenSizes : List ℕ := [8, 16, 256]

/-- The words that `sscanf` stores of a piece fit into their arrays. -/
def TokensFit (line : Text) : Prop := Fits (words (sscanf mapsFormat line)) tokenSizes

instance (line : Text) : Decidable (TokensFit line) :=
  inferInstanceAs (Decidable (Fits _ _))

/-- The text behind two numbers that a dash joins, if it begins with them. -/
def afterRange (t : Text) : Option Text :=
  match afterNumber 16 t with
  | some ('-' :: r) => afterNumber 16 r
  | _ => none

/-- In a text that begins with a range, the next word is shorter than 8 characters; where a
hexadecimal number follows, the word behind it is shorter than 16; and where a decimal number
follows that, the word behind it is shorter than 256. -/
def WordsFit (t : Text) : Prop :=
  ∀ r ∈ afterRange t, (firstWord r).length < 8 ∧
    ∀ r' ∈ afterNumber 16 (afterWord r), (firstWord r').length < 16 ∧
      ∀ r'' ∈ afterNumber 10 (afterWord r'), (firstWord r'').length < 256

/-- The text begins like a line, up to the offset: with a range, a word and a hexadecimal number. -/
def BeginsLikeLine (t : Text) : Prop :=
  ∃ r ∈ afterRange t, (afterNumber 16 (afterWord r)).isSome = true

/-- The text behind a range. -/
theorem mem_afterRange {t r : Text} :
    r ∈ afterRange t ↔ ∃ r', '-' :: r' ∈ afterNumber 16 t ∧ r ∈ afterNumber 16 r' := by
  unfold afterRange
  split
  · rename_i r' h
    simp [h]
  · rename_i h
    refine iff_of_false (by simp) ?_
    rintro ⟨r', h', -⟩
    exact h r' h'

/-- What is stored fits. -/
theorem tokensFit_iff (t : Text) : TokensFit t ↔ WordsFit t := by
  -- behind a text without a word there is no number
  have hnone (base : ℕ) (r : Text) (P : Text → Prop) :
      (firstWord r ≠ [] → ∀ r' ∈ afterNumber base (afterWord r), P r') ↔
        ∀ r' ∈ afterNumber base (afterWord r), P r' := by
    refine ⟨fun h r' hr' => h (fun hnil => ?_) r' hr', fun h _ => h⟩
    rw [afterWord_of_firstWord_eq_nil hnil] at hr'
    exact absurd hr' (Option.not_mem_none _)
  have hend (r : Text) : (firstWord r ≠ [] → Fits (words (sscanf [] (afterWord r))) []) ↔ True := by
    simp [sscanf, words]
  unfold TokensFit WordsFit mapsFormat tokenSizes
  simp only [sscanf_blank_word, sscanf_blank_number, fits_sscanf_number, fits_sscanf_lit,
    fits_sscanf_word (n := 8) (by decide), fits_sscanf_word (n := 16) (by decide),
    fits_sscanf_word (n := 256) (by decide), hnone, hend, and_true, mem_afterRange]
  constructor
  · rintro h r ⟨r', hr', hr⟩
    exact h _ hr' r' rfl r hr
  · rintro h _ hr' r' rfl r hr
    exact h r ⟨r', hr', hr⟩

/-- The range, the permissions and the offset are stored. -/
theorem three_lt_length_sscanf_iff (t : Text) :
    3 < (sscanf mapsFormat t).length ↔ BeginsLikeLine t := by
  unfold mapsFormat BeginsLikeLine
  simp only [sscanf_blank_word, sscanf_blank_number, lt_length_sscanf_number, lt_length_sscanf_lit,
    Nat.succ_le_iff, lt_length_sscanf_word, Nat.zero_le, and_true, mem_afterRange,
    Option.isSome_iff_exists]
  constructor
  · rintro ⟨_, hr', r', rfl, r, hr, -, s, hs⟩
    exact ⟨r, ⟨r', hr', hr⟩, s, hs⟩
  · rintro ⟨r, ⟨r', hr', hr⟩, s, hs⟩
    -- a number follows the permissions, so that they are a word
    refine ⟨_, hr', r', rfl, r, hr, fun hnil => ?_, s, hs⟩
    rw [afterWord_of_firstWord_eq_nil hnil] at hs
    exact nomatch hs

/-- In a piece that begins with the prefix, the name has to fit. -/
theorem tokensFit_header (v : MapsVma) (rest : Text) :
    TokensFit (showVmaHeaderPrefix v ++ rest) ↔ (firstWord rest).length < 256 := by
  have hwords (vs : List Value) :
      words (headerValues v ++ vs) = permsText v.vmFlags :: devText v.dev :: words vs := rfl
  have hperms : (permsText v.vmFlags).length = 4 := rfl
  have hdev : (devText v.dev).length < 16 := (length_devText_le v.dev).trans_lt (by decide)
  have hend : (firstWord rest ≠ [] → Fits (words (sscanf [] (afterWord rest))) []) ↔ True := by
    simp [sscanf, words]
  rw [TokensFit, sscanf_mapsFormat, hwords, tokenSizes, fits_cons_cons, fits_cons_cons,
    fits_sscanf_word (by decide), hend]
  simp [hperms, hdev]

/-- `char line[512]` has room for a NUL and so many characters. -/
def lineSize : ℕ := 511

/-- When the words of piece `k` of a line fit: in the first piece the first word of the name has to
be shorter than 256 characters, and a later one is a part of the name. -/
def PieceFits (v : MapsVma) (k : ℕ) (piece : Text) : Prop :=
  if k = 0 then (firstWord (tailIn lineSize v)).length < 256 else WordsFit piece

/-- The first piece of a line is its prefix, and as much of the rest as there is room for. -/
theorem eq_of_first_piece {v : MapsVma} {piece : Text}
    (h : (pieces lineSize (showMapVma v))[0]? = some piece) :
    piece = showVmaHeaderPrefix v ++ tailIn lineSize v := by
  obtain ⟨later, hpieces⟩ := pieces_showMapVma (n := lineSize) (by decide) v
  rw [hpieces, List.getElem?_cons_zero] at h
  exact (Option.some.inj h).symm

/-- The first piece of a line begins like one. -/
theorem beginsLikeLine_first_piece {v : MapsVma} {piece : Text}
    (h : (pieces lineSize (showMapVma v))[0]? = some piece) : BeginsLikeLine piece := by
  rw [eq_of_first_piece h, ← three_lt_length_sscanf_iff, sscanf_mapsFormat, List.length_append]
  exact Nat.lt_add_right _ (by decide : 3 < 6)

/-- What is stored of a piece fits. -/
theorem tokensFit_piece_iff {v : MapsVma} {k : ℕ} {piece : Text}
    (h : (pieces lineSize (showMapVma v))[k]? = some piece) :
    TokensFit piece ↔ PieceFits v k piece := by
  unfold PieceFits
  split_ifs with hk
  · subst hk
    rw [eq_of_first_piece h]
    exact tokensFit_header v _
  · exact tokensFit_iff piece

/-- A piece of a maps text is a piece of a line. -/
theorem mem_pieces_mapsText {n : ℕ} (hn : 0 < n) {vmas : List MapsVma} {piece : Text} :
    piece ∈ pieces n (mapsText vmas) ↔
      ∃ v ∈ vmas, ∃ k : ℕ, (pieces n (showMapVma v))[k]? = some piece := by
  rw [pieces_mapsText hn, List.mem_flatMap]
  simp only [List.mem_iff_getElem?]

/-- Whatever a program parses fits exactly when the words of each piece do that passes its test. -/
theorem mapsReaders_fit_iff (r : MapsReader) (vmas : List MapsVma) :
    (∀ piece ∈ pieces lineSize (mapsText vmas), r.passes piece = true → TokensFit piece) ↔
      ∀ v ∈ vmas, ∀ (k : ℕ) piece, (pieces lineSize (showMapVma v))[k]? = some piece →
        r.passes piece = true → PieceFits v k piece := by
  constructor
  · intro h v hv k piece hpiece hpass
    have hmem := (mem_pieces_mapsText (by decide)).mpr ⟨v, hv, k, hpiece⟩
    exact (tokensFit_piece_iff hpiece).mp (h piece hmem hpass)
  · intro h piece hmem hpass
    obtain ⟨v, hv, k, hpiece⟩ := (mem_pieces_mapsText (by decide)).mp hmem
    exact (tokensFit_piece_iff hpiece).mpr (h v hv k piece hpiece hpass)

/-- A VMA of a libc in a directory with a long name. -/
def deepLibc : MapsVma where
  vmStart := 0x7f0000028000
  vmEnd := 0x7f00001b0000
  vmFlags := 5
  pgoff := 0x28000
  dev := 0x10300005
  ino := 5160837
  name := .file ("/".toList ++ List.replicate 255 'a' ++ "/libc.so.6".toList) false

/-- Its path does not fit, whichever program reads it. -/
theorem mapsReaders_not_fit : ¬ ∀ r : MapsReader, ∀ piece ∈ pieces lineSize (mapsText [deepLibc]),
    r.passes piece = true → TokensFit piece := by
  intro h
  -- the line is read in one piece, with the whole path
  have hlen : (showMapVma deepLibc).length ≤ lineSize := by decide +kernel
  have hpieces : pieces lineSize (mapsText [deepLibc]) = [showMapVma deepLibc] := by
    rw [pieces_mapsText (by decide), List.flatMap_singleton,
      pieces_eq_singleton (by decide) (isLine_showMapVma deepLibc) hlen]
  have hfit := h .libcMapTrace (showMapVma deepLibc) (by rw [hpieces]; simp)
    (strstr_iff.mpr (isInfix_of_mapsLibc (by decide +kernel)))
  have hname := (tokensFit_header deepLibc (lineTail deepLibc)).mp hfit
  exact absurd hname (by decide +kernel)

end KernelPortfolio
