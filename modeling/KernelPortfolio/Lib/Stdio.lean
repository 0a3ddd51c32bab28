import Mathlib.Data.BitVec
import Mathlib.Data.List.DropRight
import Mathlib.Data.List.Infix
import Mathlib.Tactic.Common

/-!
# Texts as the C library reads them

A text is a list of characters, none of them NUL. `fgets` reads it in pieces of a bounded length,
each at most to the end of a line, and `pieces` are those that a loop over it gets. The pieces of a
text of lines are the pieces of its lines (`pieces_append`), those of a line are its chunks
(`getElem?_pieces`), and a line that fits is one piece (`pieces_of_length_le`). `strstr` looks for
a text in another one, and `exists_piece_iff` says when it is found in a piece of a line.

`sscanf` converts the fields of a text. `scanNumber_append` and `sscanf_word_append` are its rules
for a field that is followed by more text.
-/

namespace KernelPortfolio.Stdio

/-- A text of C. -/
abbrev Text := List Char

/-! ## `fgets` -/

/-- `fgets` into a buffer of `n + 1` characters: what it reads, and the rest of the text. -/
def fgets : ℕ → Text → Text × Text
  | 0, t => ([], t)
  | _ + 1, [] => ([], [])
  | n + 1, c :: t =>
    if c = '\n' then ([c], t) else
    let (p, r) := fgets n t
    (c :: p, r)

/-- The first pieces that a loop over `fgets` reads, as many as there is fuel for. -/
def readPieces (n : ℕ) : ℕ → Text → List Text
  | 0, _ => []
  | k + 1, t => if t = [] then [] else (fgets n t).1 :: readPieces n k (fgets n t).2

/-- What `while (fgets(line, n + 1, f))` reads, piece after piece. -/
def pieces (n : ℕ) (t : Text) : List Text := readPieces n t.length t

/-- The text is a line, with its newline. -/
def IsLine (t : Text) : Prop := ∃ body, '\n' ∉ body ∧ t = body ++ ['\n']

/-- A line that fits is read with its newline. -/
theorem fgets_of_lt {n : ℕ} {body : Text} (h : '\n' ∉ body) (hlen : body.length < n) (rest : Text) :
    fgets n (body ++ '\n' :: rest) = (body ++ ['\n'], rest) := by
  induction body generalizing n with
  | nil =>
    obtain ⟨m, rfl⟩ := Nat.exists_eq_add_of_lt hlen
    rfl
  | cons c body ih =>
    rw [List.length_cons] at hlen
    obtain ⟨m, rfl⟩ : ∃ m, n = m + 1 := ⟨n - 1, by omega⟩
    have hread := ih (List.not_mem_of_not_mem_cons h) (show body.length < m by omega)
    have hc : ¬c = '\n' := fun hc => h (hc ▸ List.mem_cons_self ..)
    simp only [List.cons_append, fgets, if_neg hc, hread]

/-- Of a longer line, as much is read as fits. -/
theorem fgets_of_le {n : ℕ} {body : Text} (h : '\n' ∉ body) (hlen : n ≤ body.length) (rest : Text) :
    fgets n (body ++ rest) = (body.take n, body.drop n ++ rest) := by
  induction n generalizing body with
  | zero => simp [fgets]
  | succ n ih =>
    cases body with
    | nil => simp at hlen
    | cons c body =>
      have hread := ih (List.not_mem_of_not_mem_cons h) (Nat.le_of_succ_le_succ hlen)
      have hc : ¬c = '\n' := fun hc => h (hc ▸ List.mem_cons_self ..)
      simp only [List.cons_append, fgets, if_neg hc, hread, List.take_succ_cons,
        List.drop_succ_cons]

/-- A call of `fgets` reads something, unless the text is at its end. -/
theorem length_fgets_lt {n : ℕ} (hn : 0 < n) {t : Text} (ht : t ≠ []) :
    (fgets n t).2.length < t.length := by
  have hle : ∀ (m : ℕ) (s : Text), (fgets m s).2.length ≤ s.length := by
    intro m
    induction m with
    | zero => exact fun s => le_rfl
    | succ m ih =>
      intro s
      cases s with
      | nil => exact le_rfl
      | cons c s =>
        simp only [fgets]
        split_ifs
        · simp
        · exact (ih s).trans (by simp)
  obtain ⟨m, rfl⟩ := Nat.exists_eq_add_of_lt hn
  cases t with
  | nil => exact absurd rfl ht
  | cons c t =>
    simp only [Nat.zero_add, fgets, List.length_cons]
    split_ifs
    · simp
    · exact Nat.lt_succ_of_le (hle m t)

/-- The pieces do not depend on the fuel, if there is enough of it. -/
theorem readPieces_eq {n : ℕ} (hn : 0 < n) {k l : ℕ} {t : Text} (hk : t.length ≤ k)
    (hl : t.length ≤ l) : readPieces n k t = readPieces n l t := by
  induction k generalizing l t with
  | zero =>
    obtain rfl := List.length_eq_zero_iff.mp (Nat.le_zero.mp hk)
    cases l <;> simp [readPieces]
  | succ k ih =>
    rcases eq_or_ne t [] with rfl | ht
    · cases l <;> simp [readPieces]
    · have hlt := length_fgets_lt hn ht
      have hpos := List.length_pos_iff.mpr ht
      obtain ⟨m, rfl⟩ : ∃ m, l = m + 1 := ⟨l - 1, by omega⟩
      simp only [readPieces, if_neg ht, ih (t := (fgets n t).2) (l := m) (by omega) (by omega)]

/-- The first piece, and the others. -/
theorem pieces_eq_cons {n : ℕ} (hn : 0 < n) {t : Text} (ht : t ≠ []) :
    pieces n t = (fgets n t).1 :: pieces n (fgets n t).2 := by
  have hlt := length_fgets_lt hn ht
  obtain ⟨m, hm⟩ : ∃ m, t.length = m + 1 := ⟨t.length - 1, by omega⟩
  unfold pieces
  rw [hm, readPieces, if_neg ht, readPieces_eq hn (k := m) (by omega) le_rfl]

@[simp]
theorem pieces_nil (n : ℕ) : pieces n [] = [] := rfl

section Line

variable {n : ℕ} (hn : 0 < n) {line : Text} (hline : IsLine line)

include hn hline

/-- A line that fits into the buffer is one piece. -/
theorem pieces_of_length_le (hlen : line.length ≤ n) (rest : Text) :
    pieces n (line ++ rest) = line :: pieces n rest := by
  obtain ⟨body, hbody, rfl⟩ := hline
  rw [List.length_append, List.length_singleton] at hlen
  have hread := fgets_of_lt hbody hlen rest
  rw [List.append_assoc, List.singleton_append, pieces_eq_cons hn (by simp), hread]

/-- Alone, it is its only piece. -/
theorem pieces_eq_singleton (hlen : line.length ≤ n) : pieces n line = [line] := by
  have hpieces := pieces_of_length_le hn hline hlen []
  rwa [List.append_nil, pieces_nil] at hpieces

/-- Of a longer line, the first piece fills the buffer, and the rest is a line. -/
theorem pieces_of_lt_length (hlen : n < line.length) (rest : Text) :
    IsLine (line.drop n) ∧
      pieces n (line ++ rest) = line.take n :: pieces n (line.drop n ++ rest) := by
  obtain ⟨body, hbody, rfl⟩ := hline
  rw [List.length_append, List.length_singleton] at hlen
  have hle : n ≤ body.length := Nat.le_of_lt_succ hlen
  have hread := fgets_of_le hbody hle ('\n' :: rest)
  refine ⟨⟨body.drop n, fun h => hbody (List.mem_of_mem_drop h),
    List.drop_append_of_le_length hle⟩, ?_⟩
  rw [List.append_assoc, List.singleton_append, pieces_eq_cons hn (by simp), hread,
    List.take_append_of_le_length hle, List.drop_append_of_le_length hle, List.append_assoc]
  rfl

/-- Alone, it goes on with the pieces of the rest. -/
theorem pieces_eq_take_cons (hlen : n < line.length) :
    pieces n line = line.take n :: pieces n (line.drop n) := by
  have hpieces := (pieces_of_lt_length hn hline hlen []).2
  rwa [List.append_nil, List.append_nil] at hpieces

/-- The pieces of a text that begins with a line are those of the line, and those of the rest. -/
theorem pieces_append (rest : Text) : pieces n (line ++ rest) = pieces n line ++ pieces n rest := by
  induction hlen : line.length using Nat.strong_induction_on generalizing line with
  | h len ih =>
    rcases Nat.lt_or_ge n line.length with hlt | hle
    · -- the rest of the line is shorter, because the buffer is not empty
      obtain ⟨hdrop, hpieces⟩ := pieces_of_lt_length hn hline hlt rest
      have hrest := ih _ (by rw [List.length_drop]; omega) hdrop rfl
      rw [hpieces, pieces_eq_take_cons hn hline hlt, hrest]
      rfl
    · rw [pieces_of_length_le hn hline hle rest, pieces_eq_singleton hn hline hle]
      rfl

/-- Piece number `k` of a line begins after `n * k` characters. -/
theorem getElem?_pieces (k : ℕ) :
    (pieces n line)[k]? =
      if n * k < line.length then some ((line.drop (n * k)).take n) else none := by
  induction k generalizing line with
  | zero =>
    have hpos : 0 < line.length := by
      obtain ⟨body, -, rfl⟩ := hline
      simp
    rw [Nat.mul_zero, if_pos hpos, List.drop_zero]
    rcases Nat.lt_or_ge n line.length with hlt | hle
    · rw [pieces_eq_take_cons hn hline hlt]
      rfl
    · rw [pieces_eq_singleton hn hline hle, List.take_of_length_le hle]
      rfl
  | succ k ih =>
    rcases Nat.lt_or_ge n line.length with hlt | hle
    · obtain ⟨hdrop, -⟩ := pieces_of_lt_length hn hline hlt []
      rw [pieces_eq_take_cons hn hline hlt, List.getElem?_cons_succ, ih hdrop, List.drop_drop,
        List.length_drop, Nat.mul_succ, Nat.add_comm n]
      exact if_congr (by omega) rfl rfl
    · have hge : line.length ≤ n * (k + 1) := hle.trans (Nat.le_mul_of_pos_right n k.succ_pos)
      rw [pieces_eq_singleton hn hline hle, if_neg (by omega)]
      rfl

/-- The pieces of a line. -/
theorem mem_pieces {p : Text} :
    p ∈ pieces n line ↔ ∃ k, n * k < line.length ∧ p = (line.drop (n * k)).take n := by
  simp only [List.mem_iff_getElem?, getElem?_pieces hn hline, Option.ite_none_right_eq_some,
    Option.some.injEq, eq_comm (a := p)]

/-- The pieces of a line fit into the buffer. -/
theorem length_le_of_mem_pieces {p : Text} (hp : p ∈ pieces n line) : p.length ≤ n := by
  obtain ⟨k, -, rfl⟩ := (mem_pieces hn hline).mp hp
  exact List.length_take_le n _

end Line

/-- The pieces of a text of lines. -/
theorem pieces_flatMap {α : Type*} {n : ℕ} (hn : 0 < n) {line : α → Text} {xs : List α}
    (hline : ∀ x ∈ xs, IsLine (line x)) :
    pieces n (xs.flatMap line) = xs.flatMap fun x => pieces n (line x) := by
  induction xs with
  | nil => rfl
  | cons x xs ih =>
    rw [List.flatMap_cons, List.flatMap_cons, pieces_append hn (hline x (by simp)),
      ih fun y hy => hline y (by simp [hy])]

/-- The pieces of a list of lines. -/
theorem pieces_flatten {n : ℕ} (hn : 0 < n) {ls : List Text} (h : ∀ l ∈ ls, IsLine l) :
    pieces n ls.flatten = ls.flatMap (pieces n) := by
  have hpieces : pieces n (ls.flatMap id) = ls.flatMap fun l => pieces n (id l) :=
    pieces_flatMap hn h
  rwa [List.flatMap_id] at hpieces

/-! ## `strstr` -/

/-- `strstr(hay, needle)` is not NULL. -/
def strstr (hay needle : Text) : Bool := hay.tails.any fun t => needle.isPrefixOf t

/-- `strstr` finds a text that is in the other one. -/
theorem strstr_iff {hay needle : Text} : strstr hay needle = true ↔ needle <:+: hay := by
  unfold strstr
  rw [List.any_eq_true, List.infix_iff_prefix_suffix]
  simp only [List.mem_tails, List.isPrefixOf_iff_prefix, and_comm]

/-- A text is found before or behind a character that it does not have. -/
theorem infix_append_cons_iff {needle s t : Text} {c : Char} (h : c ∉ needle) :
    needle <:+: s ++ c :: t ↔ needle <:+: s ∨ needle <:+: t := by
  have hcut (s : Text) (hpre : needle <+: s ++ c :: t) : needle <+: s := by
    rcases Nat.lt_or_ge s.length needle.length with hlt | hle
    · have hlong : s ++ [c] <+: needle := by
        refine List.prefix_of_prefix_length_le ⟨t, ?_⟩ hpre (by simpa using Nat.succ_le_of_lt hlt)
        rw [List.append_assoc, List.singleton_append]
      exact absurd (hlong.subset (by simp)) h
    · exact List.prefix_of_prefix_length_le hpre (List.prefix_append ..) hle
  constructor
  · intro hfound
    induction s with
    | nil =>
      rcases List.infix_cons_iff.mp hfound with hpre | hrest
      · exact .inl (hcut [] hpre).isInfix
      · exact .inr hrest
    | cons a s ih =>
      rcases List.infix_cons_iff.mp hfound with hpre | hrest
      · exact .inl (hcut (a :: s) hpre).isInfix
      · exact (ih hrest).imp_left fun hs => hs.trans (List.suffix_cons a s).isInfix
  · rintro (hs | ht)
    · exact hs.trans (List.prefix_append ..).isInfix
    · exact ht.trans ((List.suffix_cons c t).trans (List.suffix_append ..)).isInfix

/-- The text stands in the line at a place where no piece of `n` characters ends. -/
def Unsplit (n : ℕ) (needle line : Text) : Prop :=
  ∃ i, needle <+: line.drop i ∧ i / n = (i + needle.length - 1) / n

/-- The end of a text stands unsplit where the text does. -/
theorem Unsplit.of_append {n : ℕ} {a b line : Text} (hb : b ≠ []) (h : Unsplit n (a ++ b) line) :
    Unsplit n b line := by
  obtain ⟨i, ⟨rest, hrest⟩, hi⟩ := h
  have hpos := List.length_pos_iff.mpr hb
  rw [List.length_append] at hi
  refine ⟨i + a.length, ⟨rest, ?_⟩, ?_⟩
  · rw [← List.drop_drop, ← hrest, List.append_assoc, List.drop_left]
  · have hlow : i / n ≤ (i + a.length) / n := Nat.div_le_div_right (Nat.le_add_right _ _)
    have hhigh : (i + a.length) / n ≤ (i + (a.length + b.length) - 1) / n :=
      Nat.div_le_div_right (by omega)
    rw [Nat.add_assoc]
    omega

/-- In a line that fits, every text stands unsplit. -/
theorem unsplit_of_length_le {n : ℕ} {needle line : Text} (hneedle : needle ≠ [])
    (h : needle <:+: line) (hlen : line.length ≤ n) : Unsplit n needle line := by
  obtain ⟨s, t, rfl⟩ := h
  have hpos := List.length_pos_iff.mpr hneedle
  simp only [List.length_append] at hlen
  refine ⟨s.length, ⟨t, ?_⟩, ?_⟩
  · rw [List.append_assoc, List.drop_left]
  · rw [Nat.div_eq_of_lt (by omega), Nat.div_eq_of_lt (by omega)]

/-- A text is found in a piece of a line when it stands there unsplit. -/
theorem exists_piece_iff {n : ℕ} (hn : 0 < n) {line needle : Text} (hline : IsLine line)
    (hneedle : needle ≠ []) :
    (∃ p ∈ pieces n line, strstr p needle = true) ↔ Unsplit n needle line := by
  have hpos := List.length_pos_iff.mpr hneedle
  simp only [mem_pieces hn hline, strstr_iff]
  constructor
  · rintro ⟨p, ⟨k, -, rfl⟩, s, t, heq⟩
    have hlen := congrArg List.length heq
    simp only [List.length_append, List.length_take] at hlen
    -- behind the piece the line goes on, with what the next calls read
    obtain ⟨rest, hrest⟩ : ∃ rest, line.drop (n * k) = s ++ (needle ++ (t ++ rest)) :=
      ⟨(line.drop (n * k)).drop n, by
        rw [← List.append_assoc, ← List.append_assoc, heq, List.take_append_drop]⟩
    refine ⟨n * k + s.length, ⟨t ++ rest, ?_⟩, ?_⟩
    · rw [← List.drop_drop, hrest, List.drop_left]
    · rw [Nat.mul_add_div hn, Nat.add_assoc, Nat.add_sub_assoc (by omega), Nat.mul_add_div hn,
        Nat.div_eq_of_lt (by omega), Nat.div_eq_of_lt (by omega)]
  · rintro ⟨i, ⟨t, ht⟩, hi⟩
    have hdiv := Nat.div_add_mod i n
    have hmod := Nat.mod_lt i hn
    have hdiv' := Nat.div_add_mod (i + needle.length - 1) n
    have hmod' := Nat.mod_lt (i + needle.length - 1) hn
    rw [← hi] at hdiv'
    have hlen := congrArg List.length ht
    simp only [List.length_append, List.length_drop] at hlen
    -- the piece that the text begins in also has its last character
    refine ⟨_, ⟨i / n, by omega, rfl⟩, ?_⟩
    have hdrop : line.drop i = (line.drop (n * (i / n))).drop (i % n) := by
      rw [List.drop_drop, hdiv]
    have hfit : needle <+: ((line.drop (n * (i / n))).take n).drop (i % n) := by
      rw [List.drop_take, ← hdrop, ← ht]
      exact List.prefix_take_iff.mpr ⟨List.prefix_append .., by omega⟩
    exact hfit.isInfix.trans (List.drop_suffix _ _).isInfix

/-! ## Numbers -/

/-- `isspace`: a blank, or one of the characters from tab to carriage return. -/
def isSpace (c : Char) : Bool := c.toNat = 32 || (9 ≤ c.toNat && c.toNat ≤ 13)

/-- The value of a character as a digit; 36 where it is a digit of no base. -/
def digitVal (c : Char) : ℕ :=
  let n := c.toNat
  if 48 ≤ n ∧ n ≤ 57 then n - 48
  else if 97 ≤ n ∧ n ≤ 122 then n - 87
  else if 65 ≤ n ∧ n ≤ 90 then n - 55
  else 36

/-- The character is a digit of the base. -/
def isDigitOf (base : ℕ) (c : Char) : Bool := digitVal c < base

/-- The number that a list of digits denotes. -/
def value (base : ℕ) (ds : Text) : ℕ := ds.foldl (fun n c => base * n + digitVal c) 0

/-- A sign, and the rest of the text. -/
def sign : Text → Bool × Text
  | '-' :: t => (true, t)
  | '+' :: t => (false, t)
  | t => (false, t)

/-- The text begins with `0x`, which a hexadecimal number may. -/
def hasHexPrefix (base : ℕ) : Text → Bool
  | '0' :: x :: _ => base = 16 && (x = 'x' || x = 'X')
  | _ => false

/-- A number as an `unsigned long`: the largest one for a number that is too large, and the negative
one behind a minus sign. -/
def toULong (neg : Bool) (n : ℕ) : BitVec 64 :=
  if 2^64 ≤ n then BitVec.allOnes 64 else if neg then -BitVec.ofNat 64 n else BitVec.ofNat 64 n

/-- A number at the beginning of a text, as `sscanf` converts it, and the rest of the text. It takes
a `0x` in any case: without a digit behind it that is a zero. -/
def scanNumber (base : ℕ) (t : Text) : Option (BitVec 64 × Text) :=
  let (neg, t) := sign t
  let hex := hasHexPrefix base t
  let t := if hex then t.drop 2 else t
  let ds := t.takeWhile (isDigitOf base)
  if ds = [] ∧ hex = false then none
  else some (toULong neg (value base ds), t.dropWhile (isDigitOf base))

/-- The text behind its leading space. -/
def skipSpace (t : Text) : Text := t.dropWhile isSpace

/-- A text that begins with no space. -/
theorem skipSpace_cons {c : Char} (h : isSpace c = false) (t : Text) :
    skipSpace (c :: t) = c :: t := by
  simp [skipSpace, h]

/-- What `std::stoull` throws. -/
inductive StdError where
  | invalidArgument
  | outOfRange
  deriving DecidableEq, Repr

/-- `std::stoull`, which reads as `strtoull` does: of a `0x` without a digit behind it it takes the
zero only. -/
def stoull (base : ℕ) (s : Text) : Except StdError (BitVec 64) :=
  let (neg, t) := sign (skipSpace s)
  let t := if hasHexPrefix base t && (t.drop 2).head?.any (isDigitOf base) then t.drop 2 else t
  let ds := t.takeWhile (isDigitOf base)
  if ds = [] then .error .invalidArgument
  else if 2^64 ≤ value base ds then .error .outOfRange
  else .ok (if neg then -BitVec.ofNat 64 (value base ds) else BitVec.ofNat 64 (value base ds))

/-- A number ends before the text: it begins with no digit, and not with the `x` of `0x`. -/
def Stops (base : ℕ) (t : Text) : Prop :=
  ∀ c ∈ t.head?, isDigitOf base c = false ∧ c ≠ 'x' ∧ c ≠ 'X'

/-- A digit is no space, no sign and no `x`. -/
theorem not_isSpace_of_isDigitOf {base : ℕ} (hbase : base ≤ 16) {c : Char}
    (h : isDigitOf base c = true) :
    isSpace c = false ∧ c ≠ '-' ∧ c ≠ '+' ∧ c ≠ 'x' ∧ c ≠ 'X' := by
  have hlt : digitVal c < 16 := (of_decide_eq_true h).trans_le hbase
  refine ⟨?_, ?_, ?_, ?_, ?_⟩
  · simp only [digitVal] at hlt
    simp only [isSpace, Bool.or_eq_false_iff, decide_eq_false_iff_not, Bool.and_eq_false_iff]
    split_ifs at hlt <;> omega
  all_goals
    rintro rfl
    exact absurd hlt (by decide)

section Digits

variable {base : ℕ} (hbase : base ≤ 16) {ds rest : Text} (hne : ds ≠ [])
  (hds : ∀ c ∈ ds, isDigitOf base c = true)

include hbase hne hds

/-- A list of digits has no sign. -/
theorem sign_append : sign (ds ++ rest) = (false, ds ++ rest) := by
  obtain ⟨d, ds', rfl⟩ := List.exists_cons_of_ne_nil hne
  obtain ⟨-, hminus, hplus, -⟩ := not_isSpace_of_isDigitOf hbase (hds d (by simp))
  rw [List.cons_append]
  unfold sign
  split
  · exact absurd (by simp_all) hminus
  · exact absurd (by simp_all) hplus
  · rfl

/-- Nor is there an `x` behind its first digit. -/
theorem hasHexPrefix_append (hstop : Stops base rest) : hasHexPrefix base (ds ++ rest) = false := by
  obtain ⟨d, ds', rfl⟩ := List.exists_cons_of_ne_nil hne
  -- a second digit is no `x`, and the text behind the digits begins with none
  have hx : ∀ x ∈ (ds' ++ rest).head?, x ≠ 'x' ∧ x ≠ 'X' := by
    intro x hx
    cases ds' with
    | nil => exact (hstop x hx).2
    | cons d' ds' =>
      obtain rfl : d' = x := Option.some.inj hx
      exact (not_isSpace_of_isDigitOf hbase (hds d' (by simp))).2.2.2
  rw [List.cons_append]
  unfold hasHexPrefix
  split
  · rename_i heq
    obtain ⟨-, heq⟩ := List.cons.inj heq
    obtain ⟨hlow, hup⟩ := hx _ (by rw [heq]; rfl)
    simp [hlow, hup]
  · rfl

omit hbase hne in
/-- The digits are taken, and the rest is left. -/
theorem takeWhile_append_of_stops (hstop : Stops base rest) :
    (ds ++ rest).takeWhile (isDigitOf base) = ds ∧
      (ds ++ rest).dropWhile (isDigitOf base) = rest := by
  rw [List.takeWhile_append_of_pos hds, List.dropWhile_append_of_pos hds]
  cases rest with
  | nil => simp
  | cons c rest => simp [(hstop c rfl).1]

/-- A list of digits at the beginning of a text is a number. -/
theorem scanNumber_append (hlt : value base ds < 2^64) (hstop : Stops base rest) :
    scanNumber base (ds ++ rest) = some (BitVec.ofNat 64 (value base ds), rest) := by
  obtain ⟨htake, hdrop⟩ := takeWhile_append_of_stops hds hstop
  simp only [scanNumber, sign_append hbase hne hds, hasHexPrefix_append hbase hne hds hstop,
    Bool.false_eq_true, if_false, htake, hdrop, hne, false_and, toULong,
    if_neg (Nat.not_le_of_lt hlt)]

/-- A list of digits is read by `std::stoull`. -/
theorem stoull_digits (hlt : value base ds < 2^64) :
    stoull base ds = .ok (BitVec.ofNat 64 (value base ds)) := by
  have hstop : Stops base [] := by simp [Stops]
  have hsign : sign (ds ++ []) = (false, ds ++ []) := sign_append hbase hne hds
  have hhex := hasHexPrefix_append hbase hne hds hstop
  obtain ⟨htake, -⟩ := takeWhile_append_of_stops hds hstop
  rw [List.append_nil] at hsign hhex htake
  obtain ⟨d, ds', rfl⟩ := List.exists_cons_of_ne_nil hne
  have hskip : skipSpace (d :: ds') = d :: ds' :=
    skipSpace_cons (not_isSpace_of_isDigitOf hbase (hds d (by simp))).1 _
  simp only [stoull, hskip, hsign, hhex, Bool.false_and, Bool.false_eq_true, if_false, htake,
    reduceCtorEq, if_neg (Nat.not_le_of_lt hlt)]

end Digits

/-- Leading zeros do not count. -/
theorem value_replicate_zero_append (base k : ℕ) (ds : Text) :
    value base (List.replicate k '0' ++ ds) = value base ds := by
  induction k with
  | zero => rfl
  | succ k ih =>
    rw [← ih]
    rfl

/-- The digits of a number denote it. -/
theorem value_toDigits {base : ℕ} (hlo : 1 < base) (hhi : base ≤ 16) (n : ℕ) :
    value base (Nat.toDigits base n) = n := by
  have hchar : ∀ d < 16, digitVal d.digitChar = d := by decide
  induction n using Nat.strong_induction_on with
  | h n ih =>
    rcases Nat.lt_or_ge n base with hlt | hge
    · rw [Nat.toDigits_of_lt_base hlt]
      simp [value, hchar n (hlt.trans_le hhi)]
    · have hmod := Nat.mod_lt n (Nat.zero_lt_of_lt hlo)
      have hdiv := ih (n / base) (Nat.div_lt_self (by omega) hlo)
      unfold value at hdiv ⊢
      rw [Nat.toDigits_of_base_le hlo hge, List.foldl_append, hdiv, List.foldl_cons,
        List.foldl_nil, hchar _ (hmod.trans_le hhi)]
      exact Nat.div_add_mod n base

/-- The digits of a number are digits. -/
theorem isDigitOf_of_mem_toDigits {base : ℕ} (hlo : 1 < base) (hhi : base ≤ 16) {n : ℕ} {c : Char}
    (hc : c ∈ Nat.toDigits base n) : isDigitOf base c = true := by
  have hchar : ∀ d < 16, digitVal d.digitChar = d := by decide
  induction n using Nat.strong_induction_on with
  | h n ih =>
    rcases Nat.lt_or_ge n base with hlt | hge
    · rw [Nat.toDigits_of_lt_base hlt, List.mem_singleton] at hc
      rw [hc, isDigitOf, hchar n (hlt.trans_le hhi)]
      exact decide_eq_true hlt
    · have hmod := Nat.mod_lt n (Nat.zero_lt_of_lt hlo)
      rw [Nat.toDigits_of_base_le hlo hge, List.mem_append, List.mem_singleton] at hc
      rcases hc with hc | rfl
      · exact ih _ (Nat.div_lt_self (by omega) hlo) hc
      · rw [isDigitOf, hchar _ (hmod.trans_le hhi)]
        exact decide_eq_true hmod

/-! ## `sscanf` -/

/-- A directive of a format. A conversion with `assign` false is one with `*`. -/
inductive Directive where
  | blank
  | lit (c : Char)
  /-- `%lx` for the base 16, `%lu` for the base 10. -/
  | number (base : ℕ) (assign : Bool)
  /-- `%s`. -/
  | word (assign : Bool)
  deriving DecidableEq, Repr

/-- What a conversion stores. -/
inductive Value where
  | number (n : BitVec 64)
  | word (w : Text)
  deriving DecidableEq, Repr

/-- The first word of a text. -/
def firstWord (t : Text) : Text := (skipSpace t).takeWhile (!isSpace ·)

/-- The text behind its first word. -/
def afterWord (t : Text) : Text := (skipSpace t).dropWhile (!isSpace ·)

/-- `sscanf`: the values that it stores, in order, up to the first directive that fails. -/
def sscanf : List Directive → Text → List Value
  | [], _ => []
  | .blank :: ds, t => sscanf ds (skipSpace t)
  | .lit _ :: _, [] => []
  | .lit c :: ds, c' :: t => if c' = c then sscanf ds t else []
  | .number base assign :: ds, t =>
    match scanNumber base (skipSpace t) with
    | none => []
    | some (v, rest) => if assign then .number v :: sscanf ds rest else sscanf ds rest
  | .word assign :: ds, t =>
    if firstWord t = [] then [] else
    if assign then .word (firstWord t) :: sscanf ds (afterWord t) else sscanf ds (afterWord t)

section Directives

variable (base : ℕ) (assign : Bool) (c d : Char) (ds : List Directive) (t : Text)

/-- Space in the format skips the space of the text. -/
theorem sscanf_blank : sscanf (.blank :: ds) t = sscanf ds (skipSpace t) := rfl

/-- A character that is not there. -/
theorem sscanf_lit_nil : sscanf (.lit c :: ds) [] = [] := rfl

/-- A character is compared. -/
theorem sscanf_lit : sscanf (.lit c :: ds) (d :: t) = if d = c then sscanf ds t else [] := rfl

/-- A number is converted. -/
theorem sscanf_number : sscanf (.number base assign :: ds) t =
    match scanNumber base (skipSpace t) with
    | none => []
    | some (v, rest) => if assign then .number v :: sscanf ds rest else sscanf ds rest := rfl

/-- A word is converted. -/
theorem sscanf_word : sscanf (.word assign :: ds) t =
    if firstWord t = [] then [] else
    if assign then .word (firstWord t) :: sscanf ds (afterWord t) else sscanf ds (afterWord t) :=
  rfl

end Directives

/-- The words among the values. -/
def words (vs : List Value) : List Text :=
  vs.filterMap fun
    | .number _ => none
    | .word w => some w

/-- Each word has room for itself and its NUL. -/
def Fits (words : List Text) (sizes : List ℕ) : Prop := ∀ x ∈ words.zip sizes, x.1.length < x.2

instance (words : List Text) (sizes : List ℕ) : Decidable (Fits words sizes) :=
  inferInstanceAs (Decidable (∀ x ∈ words.zip sizes, _))

/-- The conversion stores a number, or a word. -/
def Directive.storesNumber : Directive → Option Bool
  | .number _ true => some true
  | .word true => some false
  | _ => none

/-- The value is a number. -/
def Value.isNumber : Value → Bool
  | .number _ => true
  | .word _ => false

/-- The text behind a number, if it begins with one. -/
def afterNumber (base : ℕ) (t : Text) : Option Text :=
  (scanNumber base (skipSpace t)).map (·.2)

/-- The number that a conversion stores, if it does. -/
def numberAt (vs : List Value) (i : ℕ) : Option (BitVec 64) :=
  vs[i]?.bind fun
    | .number n => some n
    | .word _ => none

/-- The word that a conversion stores, if it does. -/
def wordAt (vs : List Value) (i : ℕ) : Option Text :=
  vs[i]?.bind fun
    | .number _ => none
    | .word w => some w

/-- What stands behind a number is the end of the text. -/
theorem suffix_of_mem_afterNumber {base : ℕ} {t r : Text} (h : r ∈ afterNumber base t) :
    r <:+ t := by
  have hsign (t : Text) : (sign t).2 <:+ t := by
    unfold sign
    split
    · exact List.suffix_cons ..
    · exact List.suffix_cons ..
    · exact List.suffix_rfl
  obtain ⟨⟨v, r'⟩, hscan, rfl⟩ := Option.map_eq_some_iff.mp h
  simp only [scanNumber] at hscan
  split_ifs at hscan with hhex
  · obtain ⟨-, rfl⟩ := Prod.mk.inj (Option.some.inj hscan)
    exact (List.dropWhile_suffix _).trans ((List.drop_suffix _ _).trans
      ((hsign _).trans (List.dropWhile_suffix _)))
  · obtain ⟨-, rfl⟩ := Prod.mk.inj (Option.some.inj hscan)
    exact (List.dropWhile_suffix _).trans ((hsign _).trans (List.dropWhile_suffix _))

/-- Space is skipped once. -/
@[simp]
theorem skipSpace_skipSpace (t : Text) : skipSpace (skipSpace t) = skipSpace t :=
  List.dropWhile_idempotent ..

/-- A blank before the text. -/
@[simp]
theorem skipSpace_blank (t : Text) : skipSpace (' ' :: t) = skipSpace t := rfl

@[simp]
theorem firstWord_skipSpace (t : Text) : firstWord (skipSpace t) = firstWord t := by
  simp [firstWord]

@[simp]
theorem afterWord_skipSpace (t : Text) : afterWord (skipSpace t) = afterWord t := by
  simp [afterWord]

/-- A blank before a number, or before a word, changes nothing. -/
theorem sscanf_blank_number (base : ℕ) (assign : Bool) (ds : List Directive) (t : Text) :
    sscanf (.blank :: .number base assign :: ds) t = sscanf (.number base assign :: ds) t := by
  simp only [sscanf_blank, sscanf_number, skipSpace_skipSpace]

/-- A blank before a word changes nothing. -/
theorem sscanf_blank_word (assign : Bool) (ds : List Directive) (t : Text) :
    sscanf (.blank :: .word assign :: ds) t = sscanf (.word assign :: ds) t := by
  simp only [sscanf_blank, sscanf_word, firstWord_skipSpace, afterWord_skipSpace]

/-- Nor does a blank of the text before a number. -/
theorem sscanf_number_blank (base : ℕ) (assign : Bool) (ds : List Directive) (t : Text) :
    sscanf (.number base assign :: ds) (' ' :: t) = sscanf (.number base assign :: ds) t := by
  simp only [sscanf_number, skipSpace_blank]

/-- Nor does a blank of the text before a word. -/
theorem sscanf_word_blank (assign : Bool) (ds : List Directive) (t : Text) :
    sscanf (.word assign :: ds) (' ' :: t) = sscanf (.word assign :: ds) t := by
  have hfirst : firstWord (' ' :: t) = firstWord t := rfl
  have hafter : afterWord (' ' :: t) = afterWord t := rfl
  rw [sscanf_word, sscanf_word, hfirst, hafter]

/-- A text without a word has nothing behind it. -/
theorem afterWord_of_firstWord_eq_nil {t : Text} (h : firstWord t = []) : afterWord t = [] := by
  unfold firstWord at h
  unfold afterWord
  cases hskip : skipSpace t with
  | nil => rfl
  | cons c r =>
    -- the first character behind the space is none
    have hc : isSpace c = false := by
      unfold skipSpace at hskip
      have hne : t.dropWhile isSpace ≠ [] := by
        rw [hskip]
        exact List.cons_ne_nil _ _
      have hhead := List.head_dropWhile_not isSpace hne
      simpa only [hskip, List.head_cons] using hhead
    rw [hskip, List.takeWhile_cons_of_pos (by rw [hc]; rfl)] at h
    exact absurd h (List.cons_ne_nil _ _)

@[simp]
theorem fits_nil (sizes : List ℕ) : Fits [] sizes := by
  simp [Fits]

@[simp]
theorem fits_cons_cons (w : Text) (ws : List Text) (n : ℕ) (ns : List ℕ) :
    Fits (w :: ws) (n :: ns) ↔ w.length < n ∧ Fits ws ns := by
  simp [Fits]

/-- What a format stores fits when what it stores behind a number does. -/
theorem fits_sscanf_number (base : ℕ) (assign : Bool) (ds : List Directive) (t : Text)
    (sizes : List ℕ) :
    Fits (words (sscanf (.number base assign :: ds) t)) sizes ↔
      ∀ r ∈ afterNumber base t, Fits (words (sscanf ds r)) sizes := by
  unfold afterNumber
  rw [sscanf_number]
  cases scanNumber base (skipSpace t) with
  | none => simp [words]
  | some r =>
    have hwords (n : BitVec 64) (vs : List Value) : words (.number n :: vs) = words vs := rfl
    cases assign <;> simp [hwords]

/-- What a format stores fits when what it stores behind a character does. -/
theorem fits_sscanf_lit (c : Char) (ds : List Directive) (t : Text) (sizes : List ℕ) :
    Fits (words (sscanf (.lit c :: ds) t)) sizes ↔
      ∀ r, t = c :: r → Fits (words (sscanf ds r)) sizes := by
  cases t with
  | nil => simp [sscanf_lit_nil, words]
  | cons d t =>
    rw [sscanf_lit]
    split_ifs with hd
    · simp [hd]
    · simp [hd, words]

/-- What a format stores fits when a word does, and what is stored behind it. -/
theorem fits_sscanf_word {n : ℕ} (hn : 0 < n) (ds : List Directive) (t : Text) (sizes : List ℕ) :
    Fits (words (sscanf (.word true :: ds) t)) (n :: sizes) ↔
      (firstWord t).length < n ∧
        (firstWord t ≠ [] → Fits (words (sscanf ds (afterWord t))) sizes) := by
  have hwords (w : Text) (vs : List Value) : words (.word w :: vs) = w :: words vs := rfl
  rw [sscanf_word]
  by_cases h : firstWord t = []
  · simp [h, hn, words]
  · simp [h, hwords]

/-- More is stored than what is stored behind a number. -/
theorem lt_length_sscanf_number (base : ℕ) (ds : List Directive) (t : Text) (k : ℕ) :
    k < (sscanf (.number base true :: ds) t).length ↔
      ∃ r ∈ afterNumber base t, k ≤ (sscanf ds r).length := by
  unfold afterNumber
  rw [sscanf_number]
  cases scanNumber base (skipSpace t) with
  | none => simp
  | some r =>
    show k < (.number r.1 :: sscanf ds r.2).length ↔ _
    rw [List.length_cons, Nat.lt_succ_iff]
    simp

/-- Something is stored behind a character when that stands there. -/
theorem lt_length_sscanf_lit (c : Char) (ds : List Directive) (t : Text) (k : ℕ) :
    k < (sscanf (.lit c :: ds) t).length ↔ ∃ r, t = c :: r ∧ k < (sscanf ds r).length := by
  cases t with
  | nil => simp [sscanf_lit_nil]
  | cons d t =>
    rw [sscanf_lit]
    split_ifs with hd
    · simp [hd]
    · simp [hd]

/-- More is stored than what is stored behind a word. -/
theorem lt_length_sscanf_word (ds : List Directive) (t : Text) (k : ℕ) :
    k < (sscanf (.word true :: ds) t).length ↔
      firstWord t ≠ [] ∧ k ≤ (sscanf ds (afterWord t)).length := by
  rw [sscanf_word]
  by_cases h : firstWord t = []
  · simp [h]
  · rw [if_neg h, if_pos rfl, List.length_cons, Nat.lt_succ_iff]
    exact (and_iff_right h).symm

/-- The values are numbers and words as the format says. -/
theorem isNumber_sscanf (ds : List Directive) (t : Text) :
    (sscanf ds t).map Value.isNumber <+: ds.filterMap Directive.storesNumber := by
  induction ds generalizing t with
  | nil => exact List.prefix_rfl
  | cons d ds ih =>
    cases d with
    | blank => exact ih _
    | lit c =>
      cases t with
      | nil => exact List.nil_prefix
      | cons d t =>
        rw [sscanf_lit]
        split_ifs
        · exact ih t
        · exact List.nil_prefix
    | number base assign =>
      rw [sscanf_number]
      cases scanNumber base (skipSpace t) with
      | none => exact List.nil_prefix
      | some r =>
        cases assign with
        | false => exact ih r.2
        | true => exact List.cons_prefix_cons.mpr ⟨rfl, ih r.2⟩
    | word assign =>
      rw [sscanf_word]
      split_ifs with hnil hassign
      · exact List.nil_prefix
      · subst hassign
        exact List.cons_prefix_cons.mpr ⟨rfl, ih (afterWord t)⟩
      · rw [Bool.eq_false_of_not_eq_true hassign]
        exact ih (afterWord t)

section At

variable {ds : List Directive} {t : Text} {i : ℕ}

/-- A value that is stored is what the format says. -/
theorem isNumber_of_sscanf {v : Value} {b : Bool} (h : (sscanf ds t)[i]? = some v)
    (hkind : (ds.filterMap Directive.storesNumber)[i]? = some b) : v.isNumber = b := by
  obtain ⟨s, hs⟩ := isNumber_sscanf ds t
  obtain ⟨hlt, -⟩ := List.getElem?_eq_some_iff.mp h
  rw [← hs, List.getElem?_append_left (by rwa [List.length_map]), List.getElem?_map, h] at hkind
  exact Option.some.inj hkind

/-- A number is assigned when so many values are stored. -/
theorem isSome_numberAt (hkind : (ds.filterMap Directive.storesNumber)[i]? = some true) :
    (numberAt (sscanf ds t) i).isSome = true ↔ i < (sscanf ds t).length := by
  unfold numberAt
  rcases hv : (sscanf ds t)[i]? with _ | v
  · simpa using List.getElem?_eq_none_iff.mp hv
  · have hnumber := isNumber_of_sscanf hv hkind
    obtain ⟨hlt, -⟩ := List.getElem?_eq_some_iff.mp hv
    cases v with
    | number n => simpa using hlt
    | word w => exact absurd hnumber Bool.false_ne_true

/-- A word is assigned when so many values are stored. -/
theorem isSome_wordAt (hkind : (ds.filterMap Directive.storesNumber)[i]? = some false) :
    (wordAt (sscanf ds t) i).isSome = true ↔ i < (sscanf ds t).length := by
  unfold wordAt
  rcases hv : (sscanf ds t)[i]? with _ | v
  · simpa using List.getElem?_eq_none_iff.mp hv
  · have hnumber := isNumber_of_sscanf hv hkind
    obtain ⟨hlt, -⟩ := List.getElem?_eq_some_iff.mp hv
    cases v with
    | number n => exact absurd hnumber.symm Bool.false_ne_true
    | word w => simpa using hlt

end At

/-- A character that stands where the format has it. -/
theorem sscanf_lit_cons (c : Char) (ds : List Directive) (t : Text) :
    sscanf (.lit c :: ds) (c :: t) = sscanf ds t := by
  rw [sscanf_lit, if_pos rfl]

/-- A number that more text follows. -/
theorem sscanf_number_append {base : ℕ} (hbase : base ≤ 16) (assign : Bool) (ds : List Directive)
    {digits rest : Text} (hne : digits ≠ []) (hdigits : ∀ c ∈ digits, isDigitOf base c = true)
    (hlt : value base digits < 2^64) (hstop : Stops base rest) :
    sscanf (.number base assign :: ds) (digits ++ rest) =
      if assign then .number (BitVec.ofNat 64 (value base digits)) :: sscanf ds rest
      else sscanf ds rest := by
  obtain ⟨d, digits', rfl⟩ := List.exists_cons_of_ne_nil hne
  have hskip : skipSpace (d :: digits' ++ rest) = d :: digits' ++ rest :=
    skipSpace_cons (not_isSpace_of_isDigitOf hbase (hdigits d (by simp))).1 _
  rw [sscanf_number, hskip, scanNumber_append hbase hne hdigits hlt hstop]

/-- A word that a space follows is the first word. -/
theorem firstWord_append {w rest : Text} {c : Char} (hne : w ≠ [])
    (hw : ∀ x ∈ w, isSpace x = false) (hc : isSpace c = true) :
    firstWord (w ++ c :: rest) = w ∧ afterWord (w ++ c :: rest) = c :: rest := by
  obtain ⟨x, w', rfl⟩ := List.exists_cons_of_ne_nil hne
  have hskip : skipSpace (x :: w' ++ c :: rest) = x :: w' ++ c :: rest :=
    skipSpace_cons (hw x (by simp)) _
  have hpos : ∀ y ∈ x :: w', (!isSpace y) = true := fun y hy => by rw [hw y hy]; rfl
  unfold firstWord afterWord
  rw [hskip, List.takeWhile_append_of_pos hpos, List.dropWhile_append_of_pos hpos]
  simp [hc]

/-- A word that a space follows. -/
theorem sscanf_word_append (assign : Bool) (ds : List Directive) {w rest : Text} {c : Char}
    (hne : w ≠ []) (hw : ∀ x ∈ w, isSpace x = false) (hc : isSpace c = true) :
    sscanf (.word assign :: ds) (w ++ c :: rest) =
      if assign then .word w :: sscanf ds (c :: rest) else sscanf ds (c :: rest) := by
  have hword : firstWord (w ++ c :: rest) = w ∧ afterWord (w ++ c :: rest) = c :: rest :=
    firstWord_append hne hw hc
  rw [sscanf_word, hword.1, hword.2, if_neg hne]

/-! ## `std::getline` -/

/-- What `while (std::getline(s, line))` reads: the lines without their newlines. -/
def getlines : Text → List Text
  | [] => []
  | c :: t =>
    if c = '\n' then [] :: getlines t else
    match getlines t with
    | [] => [[c]]
    | l :: ls => (c :: l) :: ls

/-- A line, and the lines behind it. -/
theorem getlines_append {body : Text} (h : '\n' ∉ body) (rest : Text) :
    getlines (body ++ '\n' :: rest) = body :: getlines rest := by
  induction body with
  | nil => rfl
  | cons c body ih =>
    have hc : ¬c = '\n' := fun hc => h (hc ▸ List.mem_cons_self ..)
    rw [List.cons_append, getlines, if_neg hc, ih (List.not_mem_of_not_mem_cons h)]

/-- The lines of a text of lines. -/
theorem getlines_flatten {ls : List Text} (h : ∀ l ∈ ls, IsLine l) :
    getlines ls.flatten = ls.map List.dropLast := by
  induction ls with
  | nil => rfl
  | cons l ls ih =>
    obtain ⟨body, hbody, rfl⟩ := h l (List.mem_cons_self ..)
    have hrest := ih fun l' hl' => h l' (List.mem_cons_of_mem _ hl')
    rw [List.flatten_cons, List.append_assoc, List.singleton_append, getlines_append hbody, hrest,
      List.map_cons, List.dropLast_concat]

end KernelPortfolio.Stdio
