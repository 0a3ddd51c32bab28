import KernelPortfolio.Inspect.StructPage

/-!
# The two inspectors of `page->mapping`

`inspectMapping` is `inspect_mapping` of `mapping_field_decode/mapping_hw.c`, and `inspectPage` is
`inspect_page` of `anon_page_cache_metadata/anon_file_hw.c`. The word `page->mapping` is a pointer
with a tag in its two low bits, except in a tail page, and the first of them looks at both bits and
at the word that tells a tail page, the second at one bit. `inspectors_decodeAlike_iff` says when
they agree.
-/

namespace KernelPortfolio

/-! ## The inspectors -/

/-- The lines that `mapping_hw` prints. -/
inductive MappingLine where
  | usage
  | init (pid : CInt) (va : U64)
  | failed
  | pageStruct (page : U64)
  | raw (raw : U64)
  | flags (flags hi lo : U64)
  | cleanPointer (ptr : U64)
  | tailDetected
  | compoundHead (w : U64)
  | headPage (page : U64)
  | tailConfirmed
  | tailUnexpected (raw tailMapping : U64)
  | aligned
  | anonymous
  | movable
  | ksm
  deriving DecidableEq, Repr

/-- `inspect_mapping`. `tailMapping` is `TAIL_MAPPING`. -/
def inspectMapping (tailMapping : U64) (page : StructPage) : List (PinEvent MappingLine) :=
  let rawMapping := page.mapping
  let flags := rawMapping &&& 0x3
  let cleanPtr := rawMapping &&& ~~~0x3
  let headVal := page.word1
  [.look page.addr .mapping, .say (.pageStruct page.addr), .say (.raw rawMapping),
    .say (.flags flags ((flags >>> 1) &&& 1) (flags &&& 1)), .say (.cleanPointer cleanPtr),
    .look page.addr .word1] ++
  if headVal &&& 1 ≠ 0 then
    [.say .tailDetected, .say (.compoundHead headVal), .say (.headPage (headVal - 1)),
      if rawMapping = tailMapping then .say .tailConfirmed
      else .say (.tailUnexpected rawMapping tailMapping)]
  -- a normal page
  else if flags = 0 then [.say .aligned, .say (.cleanPointer cleanPtr)]
  else if flags = 1 then [.say .anonymous, .say (.cleanPointer cleanPtr)]
  else if flags = 2 then [.say .movable, .say (.cleanPointer cleanPtr)]
  else if flags = 3 then [.say .ksm, .say (.cleanPointer cleanPtr)]
  else []

/-- The lines that `anon_file_hw` prints. -/
inductive MetaLine where
  | init (pid : CInt)
  | inspecting (label : String)
  | pagePtr (page : U64)
  | raw (raw : U64)
  | bit0 (bit : U64)
  | cleanPointer (ptr : U64)
  | index (index : U64)
  | lruPrev (ptr : U64)
  | lruNext (ptr : U64)
  deriving DecidableEq, Repr

/-- `inspect_page`, which puts the page at its end. -/
def inspectPage (page : Option StructPage) (label : String) : List (PinEvent MetaLine) :=
  match page with
  | none => []
  | some page =>
    let rawMapping := page.mapping
    [.say (.inspecting label), .say (.pagePtr page.addr), .look page.addr .mapping] ++
    (if rawMapping = 0 then [.look page.addr .mapping] else []) ++
    [.say (.raw rawMapping), .say (.bit0 (rawMapping &&& 1)),
      .say (.cleanPointer (rawMapping &&& ~~~3)), .look page.addr .index, .say (.index page.index),
      .look page.addr .lruPrev, .look page.addr .word1, .say (.lruPrev page.lruPrev),
      .say (.lruNext page.word1), .ref (.drop (.page page.addr))]

/-! ## Tags -/

/-- What the two low bits of a mapping say that the pointer above them points to. -/
inductive MappingTag where
  | file
  | anon
  | movable
  | ksm
  deriving DecidableEq, Repr

/-- The two bits. -/
def MappingTag.bits : MappingTag → U64
  | file => 0
  | anon => 1
  | movable => 2
  | ksm => 3

/-- The line with which `inspect_mapping` reports the class. -/
def MappingTag.line : MappingTag → MappingLine
  | file => .aligned
  | anon => .anonymous
  | movable => .movable
  | ksm => .ksm

/-- The two masks of a mapping split it. -/
theorem cleanPointer_or_flags (w : U64) : (w &&& ~~~3) ||| (w &&& 3) = w := by
  have hmask : (~~~3 ||| 3 : U64) = BitVec.allOnes 64 := by decide
  rw [← BitVec.and_or_distrib_left, hmask, BitVec.and_allOnes]

/-- An aligned pointer is its own clean pointer. -/
theorem and_not_three_of_aligned {p : U64} (hp : p &&& 3 = 0) : p &&& ~~~3 = p := by
  have hsplit := cleanPointer_or_flags p
  rw [hp] at hsplit
  exact BitVec.or_zero.symm.trans hsplit

/-- An aligned pointer has no low bits. -/
theorem aligned_and {p m : U64} (hp : p &&& 3 = 0) (hm : m &&& 3 = m) : p &&& m = 0 := by
  rw [← hm, BitVec.and_comm m, ← BitVec.and_assoc, hp]
  exact BitVec.zero_and

/-- The low bits of a tagged pointer are those of the tag. -/
theorem tagged_and {p m : U64} (hp : p &&& 3 = 0) (hm : m &&& 3 = m) (f : MappingTag) :
    (p ||| f.bits) &&& m = f.bits &&& m := by
  rw [BitVec.and_or_distrib_right, aligned_and hp hm]
  exact BitVec.zero_or

/-- The clean pointer of a tagged pointer is the pointer. -/
theorem tagged_and_not_three {p : U64} (hp : p &&& 3 = 0) (f : MappingTag) :
    (p ||| f.bits) &&& ~~~3 = p := by
  have hbits : f.bits &&& ~~~3 = 0 := by cases f <;> decide
  rw [BitVec.and_or_distrib_right, hbits, and_not_three_of_aligned hp]
  exact BitVec.or_zero

/-! ## What the inspectors decode -/

/-- A line that says what the mapping is decoded to. -/
def MetaLine.verdict? : PinEvent MetaLine → Option MetaLine
  | .say (.bit0 bit) => some (.bit0 bit)
  | .say (.cleanPointer ptr) => some (.cleanPointer ptr)
  | _ => none

/-- What `inspect_page` says that the mapping is decoded to. -/
def verdict (t : List (PinEvent MetaLine)) : List MetaLine := t.filterMap MetaLine.verdict?

/-- `inspect_page` decodes the mapping whatever the page is. -/
theorem verdict_inspectPage (page : StructPage) (label : String) :
    verdict (inspectPage (some page) label) =
      [.bit0 (page.mapping &&& 1), .cleanPointer (page.mapping &&& ~~~3)] := by
  simp only [inspectPage]
  split_ifs <;> rfl

/-- A clean pointer is printed exactly as part of what the mapping is decoded to. -/
theorem cleanPointer_mem_verdict {t : List (PinEvent MetaLine)} {ptr : U64} :
    .cleanPointer ptr ∈ verdict t ↔ .say (.cleanPointer ptr) ∈ t := by
  unfold verdict
  rw [List.mem_filterMap]
  constructor
  · rintro ⟨ev, hev, hverdict⟩
    unfold MetaLine.verdict? at hverdict
    split at hverdict <;> cases hverdict
    exact hev
  · exact fun h => ⟨_, h, rfl⟩

section

variable (tailMapping : U64) {page : StructPage} {p : U64} {f : MappingTag}

/-- For a page that is no tail page, `inspect_mapping` ends with the class and the clean pointer of
the mapping, and reports no other class. -/
theorem inspectMapping_class (hp : p &&& 3 = 0) (hmapping : page.mapping = p ||| f.bits)
    (hnormal : page.word1.getLsbD 0 = false) :
    [.say f.line, .say (.cleanPointer p)] <:+ inspectMapping tailMapping page ∧
      ∀ g : MappingTag, .say g.line ∈ inspectMapping tailMapping page → g = f := by
  have hflags : page.mapping &&& 3 = f.bits := by
    rw [hmapping, tagged_and hp rfl]
    cases f <;> decide
  have hclean : page.mapping &&& ~~~3 = p := by rw [hmapping, tagged_and_not_three hp]
  have hhead : page.word1 &&& 1 = 0 := (BitField.and_one_eq_zero_iff _).mpr hnormal
  simp only [inspectMapping, hflags, hclean, hhead]
  constructor
  · cases f <;> exact List.suffix_append _ _
  · intro g hg
    cases f <;> cases g <;> simp [MappingTag.bits, MappingTag.line] at hg ⊢

/-- For a tail page, `inspect_mapping` reports the head page and no class. -/
theorem inspectMapping_tail (htail : page.word1.getLsbD 0 = true) :
    [.say .tailDetected, .say (.compoundHead page.word1), .say (.headPage (page.word1 - 1))] <:+:
        inspectMapping tailMapping page ∧
      ∀ g : MappingTag, .say g.line ∉ inspectMapping tailMapping page := by
  have hhead : page.word1 &&& 1 ≠ 0 := by
    rw [ne_eq, BitField.and_one_eq_zero_iff, htail]
    decide
  simp only [inspectMapping, if_pos hhead]
  constructor
  · exact ⟨_, [_], List.append_assoc _ _ _⟩
  · intro g
    cases g <;> split_ifs <;> simp [MappingTag.line]

/-- The clean pointer and the flags that `inspect_mapping` prints are the two parts of the mapping.
-/
theorem inspectMapping_rejoins {c fl hi lo : U64}
    (hc : .say (.cleanPointer c) ∈ inspectMapping tailMapping page)
    (hfl : .say (.flags fl hi lo) ∈ inspectMapping tailMapping page) : c ||| fl = page.mapping := by
  have hc' : c = page.mapping &&& ~~~3 := by
    simp only [inspectMapping] at hc
    split_ifs at hc <;> simpa using hc
  have hfl' : fl = page.mapping &&& 3 := by
    simp only [inspectMapping] at hfl
    split_ifs at hfl <;> exact (by simpa using hfl : fl = _ ∧ _).1
  rw [hc', hfl', cleanPointer_or_flags]

end

/-- The two inspectors decode the mapping alike, a pointer `p` with the tag `f`. For a normal page
`inspect_mapping` reports the class of the tag with the clean pointer, and for a tail page the head
page and no class. Its clean pointer and its flags make up the mapping, whatever that is.
`inspect_page` reports the same pointer and an Anon bit for anonymous and KSM pages only, no pointer
for a tail page, and not of a movable page what it reports of a file page. -/
structure DecodeAlike (tailMapping : U64) (page : StructPage) (label : String) (p : U64)
    (f : MappingTag) : Prop where
  mapping_class : page.word1.getLsbD 0 = false →
    [.say f.line, .say (.cleanPointer p)] <:+ inspectMapping tailMapping page ∧
      ∀ g : MappingTag, .say g.line ∈ inspectMapping tailMapping page → g = f
  mapping_tail : page.word1.getLsbD 0 = true →
    [.say .tailDetected, .say (.compoundHead page.word1), .say (.headPage (page.word1 - 1))] <:+:
        inspectMapping tailMapping page ∧
      ∀ g : MappingTag, .say g.line ∉ inspectMapping tailMapping page
  mapping_rejoins : ∀ raw c fl hi lo,
    .say (.cleanPointer c) ∈ inspectMapping tailMapping { page with mapping := raw } →
      .say (.flags fl hi lo) ∈ inspectMapping tailMapping { page with mapping := raw } →
        c ||| fl = raw
  page_class : page.word1.getLsbD 0 = false →
    verdict (inspectPage (some page) label) =
      [.bit0 (if f = .anon ∨ f = .ksm then 1 else 0), .cleanPointer p]
  page_tail : page.word1.getLsbD 0 = true →
    ∀ ptr, .say (.cleanPointer ptr) ∉ inspectPage (some page) label
  page_movable : f = .movable →
    verdict (inspectPage (some page) label) ≠
      verdict (inspectPage (some { page with mapping := p }) label)

/-- The two inspectors decode the mapping of a page alike exactly when the page is neither a tail
page nor movable: `inspect_page` looks at one bit of the tag, and at no other word. -/
theorem inspectors_decodeAlike_iff (tailMapping : U64) (page : StructPage) (label : String)
    (p : U64) (f : MappingTag) (hp : p &&& 3 = 0) (hmapping : page.mapping = p ||| f.bits) :
    DecodeAlike tailMapping page label p f ↔ page.word1.getLsbD 0 = false ∧ f ≠ .movable := by
  have hverdict : verdict (inspectPage (some page) label) =
      [.bit0 (f.bits &&& 1), .cleanPointer p] := by
    rw [verdict_inspectPage, hmapping, tagged_and hp rfl, tagged_and_not_three hp]
  constructor
  · intro h
    constructor
    · -- a tail page has no clean pointer
      by_contra htail
      have hmem : .cleanPointer p ∈ verdict (inspectPage (some page) label) := by
        rw [hverdict]
        simp
      exact h.page_tail (Bool.not_eq_false _ ▸ htail) p (cleanPointer_mem_verdict.mp hmem)
    · rintro rfl
      refine h.page_movable rfl ?_
      rw [hverdict, verdict_inspectPage, aligned_and hp rfl, and_not_three_of_aligned hp]
      rfl
  · rintro ⟨hnormal, hf⟩
    have hcontra : ¬ page.word1.getLsbD 0 = true := by
      rw [hnormal]
      decide
    exact {
      mapping_class := inspectMapping_class tailMapping hp hmapping
      mapping_tail := inspectMapping_tail tailMapping
      mapping_rejoins := fun raw c fl hi lo hc hfl => inspectMapping_rejoins tailMapping hc hfl
      page_class := fun _ => by
        rw [hverdict]
        cases f <;> rfl
      page_tail := fun htail => absurd htail hcontra
      page_movable := fun hmovable => absurd hmovable hf }

/-- A page of the page cache, at `0xFFFF888000001000`. -/
def StructPage.sample : StructPage where
  addr := 0xFFFFEA0000000040
  flags := 0
  word1 := 0xFFFFEA0000000088
  lruPrev := 0xFFFFEA0000000108
  mapping := 0xFFFF888000001000
  index := 0

/-- The theorem at an anonymous page. -/
theorem inspectors_decodeAlike_anon :
    DecodeAlike 0x400 { StructPage.sample with mapping := 0xFFFF888000001001 } "ANONYMOUS"
      0xFFFF888000001000 .anon :=
  (inspectors_decodeAlike_iff 0x400 _ _ _ .anon (by decide) (by decide)).mpr
    ⟨by decide, by decide⟩

/-- They decode neither the tail page of an anonymous large page alike, nor a movable page. -/
theorem inspectors_not_decodeAlike :
    ¬ DecodeAlike 0x400 { StructPage.sample with word1 := 0xFFFFEA0000000001, mapping := 0x400 }
        "ANONYMOUS" 0x400 .file ∧
      ¬ DecodeAlike 0x400 { StructPage.sample with mapping := 0xFFFF888000001002 } "FILE-BACKED"
        0xFFFF888000001000 .movable := by
  constructor
  · exact fun h => absurd (h.page_tail (by decide) 0x400) (by decide)
  · exact fun h => absurd (h.page_movable rfl) (by decide)

end KernelPortfolio
