import KernelPortfolio.Proc.PagemapScan

/-!
# The regions of a scan

Without write-protection, a scan of an address space reports the runs of the categories of its pages
(`doPagemapScan_eq`), whatever the size of the buffer, of the caller's vector and of the parts in
which the walk calls back. `Good` is the invariant on the way, and `Stopped` is what it becomes
where the scan stops; a full buffer that is flushed makes the one into the other
(`Stopped.good_of_flush`).
-/

namespace KernelPortfolio

open Runs (Run push runsOf)

namespace PagemapScan

open PagemapRead (Call AddressSpace)

/-! ## The invariant -/

variable {k : ScanFacts} {arg : ScanArg} {f : ℕ → Option U64} {start vecLen lo mid hi addr stop : ℕ}
  {s₀ s s' : Scan} {c : U64}

/-- A scan on its way: it has come from `start` to `addr`, and what it found are the runs of the
labels that `f` has there. At the beginning of the round it was `s₀`. -/
structure Good (arg : ScanArg) (f : ℕ → Option U64) (start vecLen : ℕ) (s₀ s : Scan) (addr : ℕ) :
    Prop where
  start_le : start ≤ addr
  buf : s.vecBuf = true
  runs : s.vec ++ s.live = runsOf f start (addr - start)
  found : s.foundPages = Runs.size (s.vec ++ s.live)
  found_le : s.foundPages ≤ arg.maxPages
  room : s.full.length < s.vecBufLen
  len_le : s.vecBufLen ≤ s.vecLen
  len_add : s.vec.length + s.vecLen = vecLen
  cur : (s.cur.lo = 0 ∧ s.cur.hi = 0 ∧ s.full = []) ∨ s.cur.lo < s.cur.hi
  /-- A region that the caller has already does not go on where the scan is. -/
  seam : s.live = [] → ∀ r ∈ s.vec.getLast?, ¬ (r.hi = addr ∧ f addr = some r.label)
  same : s.vec = s₀.vec ∧ s.vecBufLen = s₀.vecBufLen ∧ s.walkEnd = s₀.walkEnd

/-- A scan that has stopped at a page that is to be reported: it has found enough, or the buffer is
full and the page makes its last region no longer. -/
structure Stopped (arg : ScanArg) (f : ℕ → Option U64) (start vecLen : ℕ) (s₀ s : Scan) (addr : ℕ) :
    Prop where
  start_le : start ≤ addr
  buf : s.vecBuf = true
  runs : s.vec ++ s.live = runsOf f start (addr - start)
  found : s.foundPages = Runs.size (s.vec ++ s.live)
  found_le : s.foundPages ≤ arg.maxPages
  live_le : s.live.length ≤ s.vecBufLen
  len_le : s.vecBufLen ≤ s.vecLen
  len_add : s.vec.length + s.vecLen = vecLen
  walkEnd : s.walkEnd = addr
  next : (f addr).isSome = true
  why : s.foundPages = arg.maxPages ∨ s.live ≠ [] ∧ s.live.length = s.vecBufLen ∧
    ∀ r ∈ s.live.getLast?, ¬ (r.hi = addr ∧ f addr = some r.label)
  same : s.vec = s₀.vec ∧ s.vecBufLen = s₀.vecBufLen

/-! ## A range -/

/-- The region at the index, if it is not empty, is the last one of the buffer. -/
theorem live_of_lt (h : s.cur.lo < s.cur.hi) : s.live = s.full ++ [s.cur] := by
  rw [Scan.live, if_neg h.ne]

/-- A buffer without a region. -/
theorem live_of_empty (h : s.cur.lo = 0 ∧ s.cur.hi = 0 ∧ s.full = []) : s.live = [] := by
  rw [Scan.live, h.1, h.2.1, h.2.2]
  rfl

/-- Two scans that differ in the regions of their buffers only. -/
def SameBut (s s' : Scan) : Prop := s' = { s with full := s'.full, cur := s'.cur }

/-- What they have in common. -/
theorem SameBut.fields (h : SameBut s s') :
    s'.vecBuf = s.vecBuf ∧ s'.vecLen = s.vecLen ∧ s'.vecBufLen = s.vecBufLen ∧
      s'.foundPages = s.foundPages ∧ s'.vec = s.vec ∧ s'.walkEnd = s.walkEnd := by
  rw [h]
  exact ⟨rfl, rfl, rfl, rfl, rfl, rfl⟩

/-- `pagemap_scan_push_range`, for a range that is not empty: it makes the last region longer, or
there is a new one, or the buffer is full. -/
theorem pushRange_spec (hroom : s.full.length < s.vecBufLen)
    (hcur : (s.cur.lo = 0 ∧ s.cur.hi = 0 ∧ s.full = []) ∨ s.cur.lo < s.cur.hi) (hlt : addr < stop) :
    match pushRange c s addr stop with
    | some s' => s'.live = push s.live addr stop c ∧ s'.full.length < s.vecBufLen ∧
        s'.cur.lo < s'.cur.hi ∧ SameBut s s'
    | none => s.live ≠ [] ∧ s.live.length = s.vecBufLen ∧
        ∀ r ∈ s.live.getLast?, ¬ (r.hi = addr ∧ r.label = c) := by
  unfold pushRange
  by_cases hmerge : addr = s.cur.hi ∧ c = s.cur.label
  · rw [if_pos hmerge]
    obtain ⟨haddr, hlabel⟩ := hmerge
    rcases hcur with hempty | hcur
    · have hlo : s.cur.lo < stop := by omega
      refine ⟨?_, hroom, hlo, rfl⟩
      rw [live_of_empty hempty, live_of_lt (by exact hlo), Runs.push_nil]
      simp only [hempty.2.2, List.nil_append, List.cons.injEq, Run.mk.injEq, and_true]
      exact ⟨by rw [hempty.1, haddr, hempty.2.1], trivial, hlabel.symm⟩
    · have hlo : s.cur.lo < stop := by omega
      refine ⟨?_, hroom, hlo, rfl⟩
      rw [live_of_lt hcur, live_of_lt (by exact hlo), Runs.push_concat,
        if_pos ⟨haddr.symm, hlabel.symm⟩, hlabel]
  · rw [if_neg hmerge]
    have hnot : ¬ (s.cur.hi = addr ∧ s.cur.label = c) := fun h => hmerge ⟨h.1.symm, h.2.symm⟩
    rcases hcur with hempty | hcur
    · rw [if_neg (by rw [hempty.2.1]; exact not_not.mpr rfl)]
      refine ⟨?_, hroom, hlt, rfl⟩
      rw [live_of_empty hempty, live_of_lt (by exact hlt), hempty.2.2]
      rfl
    · rw [if_pos (by omega)]
      by_cases hfull : s.vecBufLen - 1 ≤ s.full.length
      · rw [if_pos hfull]
        simp only
        rw [live_of_lt hcur]
        refine ⟨by simp, ?_, ?_⟩
        · rw [List.length_append, List.length_singleton]
          omega
        · intro r hr
          rw [List.getLast?_append, List.getLast?_singleton] at hr
          simp only [Option.some_or, Option.mem_def, Option.some.injEq] at hr
          subst hr
          exact hnot
      · rw [if_neg hfull]
        refine ⟨?_, ?_, hlt, rfl⟩
        · rw [live_of_lt hcur, live_of_lt (by exact hlt), Runs.push_concat, if_neg hnot]
        · simp only [List.length_append, List.length_singleton]
          omega

/-- A buffer has no more regions than it has room for. -/
theorem live_length_le (h : s.full.length < s.vecBufLen) : s.live.length ≤ s.vecBufLen := by
  unfold Scan.live
  rw [List.length_append]
  split_ifs
  · simp only [List.length_nil]
    omega
  · simp only [List.length_singleton]
    omega

/-- An empty range leaves the regions as they are, if there is room for it. -/
theorem pushRange_empty (hcur : (s.cur.lo = 0 ∧ s.cur.hi = 0 ∧ s.full = []) ∨ s.cur.lo < s.cur.hi) :
    ∀ s', pushRange c s addr addr = some s' → s'.live = s.live ∧ SameBut s s' := by
  intro s' hs'
  unfold pushRange at hs'
  by_cases hmerge : addr = s.cur.hi ∧ c = s.cur.label
  · rw [if_pos hmerge, hmerge.1] at hs'
    obtain rfl := Option.some.inj hs'
    exact ⟨rfl, rfl⟩
  · rw [if_neg hmerge] at hs'
    rcases hcur with hempty | hcur
    · rw [if_neg (by rw [hempty.2.1]; exact not_not.mpr rfl)] at hs'
      obtain rfl := Option.some.inj hs'
      refine ⟨?_, rfl⟩
      rw [live_of_empty hempty, Scan.live, if_pos rfl, List.append_nil]
      exact hempty.2.2
    · rw [if_pos (by omega)] at hs'
      split_ifs at hs'
      obtain rfl := Option.some.inj hs'
      refine ⟨?_, rfl⟩
      rw [live_of_lt hcur, Scan.live, if_pos rfl, List.append_nil]

/-- What a scan has found, where it goes on with a range of one label. -/
theorem Good.runs_push (h : Good arg f start vecLen s₀ s addr) (hlt : addr < stop)
    (hf : ∀ page, addr ≤ page → page < stop → f page = some c) :
    s.vec ++ push s.live addr stop c = runsOf f start (stop - start) := by
  have hstart := h.start_le
  have hadd : runsOf f start (addr - start + (stop - addr)) =
      push (runsOf f start (addr - start)) (start + (addr - start))
        (start + (addr - start) + (stop - addr)) c :=
    Runs.runsOf_add_some (by omega) fun page h1 h2 => hf page (by omega) (by omega)
  rw [show addr - start + (stop - addr) = stop - start by omega,
    show start + (addr - start) = addr by omega, show addr + (stop - addr) = stop by omega,
    ← h.runs] at hadd
  rw [hadd]
  by_cases hlive : s.live = []
  · rw [hlive, Runs.push_nil, List.append_nil, Runs.push_of_not]
    have hseam := h.seam hlive
    rw [hf addr le_rfl hlt] at hseam
    intro r hr hand
    exact hseam r hr ⟨hand.1, congrArg some hand.2.symm⟩
  · rw [Runs.push_append _ hlive]

/-- The pages of the regions are counted. -/
theorem Good.size_push (h : Good arg f start vecLen s₀ s addr) (hlt : addr < stop)
    (hf : ∀ page, addr ≤ page → page < stop → f page = some c) :
    Runs.size (s.vec ++ push s.live addr stop c) = s.foundPages + (stop - addr) := by
  have hstart := h.start_le
  have hadd : runsOf f start (addr - start + (stop - addr)) =
      push (runsOf f start (addr - start)) (start + (addr - start))
        (start + (addr - start) + (stop - addr)) c :=
    Runs.runsOf_add_some (by omega) fun page h1 h2 => hf page (by omega) (by omega)
  rw [h.runs_push hlt hf, h.found, h.runs,
    show stop - start = addr - start + (stop - addr) by omega, hadd, Runs.size_push]
  · omega
  · intro r hr
    exact ((Runs.within_runsOf f start _).bounds r hr).2.1.le
  · omega

/-- A scan that stops where the buffer is full. -/
theorem Good.stopped_of_full (h : Good arg f start vecLen s₀ s addr) (hnext : f addr = some c)
    (hlive : s.live ≠ []) (hlen : s.live.length = s.vecBufLen)
    (hnot : ∀ r ∈ s.live.getLast?, ¬ (r.hi = addr ∧ r.label = c)) :
    Stopped arg f start vecLen s₀ { s with walkEnd := addr } addr where
  start_le := h.start_le
  buf := h.buf
  runs := h.runs
  found := h.found
  found_le := h.found_le
  live_le := hlen.le
  len_le := h.len_le
  len_add := h.len_add
  walkEnd := rfl
  next := by rw [hnext]; rfl
  why := by
    refine .inr ⟨hlive, hlen, ?_⟩
    intro r hr hand
    rw [hnext] at hand
    exact hnot r hr ⟨hand.1, (Option.some.inj hand.2).symm⟩
  same := ⟨h.same.1, h.same.2.1⟩

/-- The scan goes on behind a range that it took. -/
theorem Good.good_of_push (h : Good arg f start vecLen s₀ s addr) (hlt : addr < stop)
    (hf : ∀ page, addr ≤ page → page < stop → f page = some c)
    (hle : s.foundPages + (stop - addr) ≤ arg.maxPages) (hsame : SameBut s s')
    (hlive : s'.live = push s.live addr stop c) (hroom : s'.full.length < s.vecBufLen)
    (hcur : s'.cur.lo < s'.cur.hi) :
    Good arg f start vecLen s₀ { s' with foundPages := s'.foundPages + (stop - addr) } stop := by
  obtain ⟨hbuf, hvecLen, hbufLen, hpages, hvec, hwalkEnd⟩ := hsame.fields
  have hstart := h.start_le
  have hlen := h.len_le
  have hadd := h.len_add
  have hlive' : Scan.live { s' with foundPages := s'.foundPages + (stop - addr) } = s'.live := rfl
  exact {
    start_le := by omega
    buf := hbuf.trans h.buf
    runs := by rw [hlive', hlive, ← h.runs_push hlt hf, ← hvec]
    found := by rw [hlive', hlive, hvec, h.size_push hlt hf, ← hpages]
    found_le := by simp only [hpages]; exact hle
    room := by simp only [hbufLen]; exact hroom
    len_le := by simp only [hbufLen, hvecLen]; exact hlen
    len_add := by simp only [hvec, hvecLen]; exact hadd
    cur := .inr hcur
    seam := by
      intro hnone
      rw [hlive', live_of_lt hcur] at hnone
      simp at hnone
    same := ⟨hvec.trans h.same.1, hbufLen.trans h.same.2.1, hwalkEnd.trans h.same.2.2⟩ }

/-- The scan stops behind a range that it took, since there are enough pages now. -/
theorem Good.stopped_of_push (h : Good arg f start vecLen s₀ s addr) (hlt : addr < stop)
    (hf : ∀ page, addr ≤ page → page < stop → f page = some c) (hnext : (f stop).isSome = true)
    (hmax : s.foundPages + (stop - addr) = arg.maxPages) (hsame : SameBut s s')
    (hlive : s'.live = push s.live addr stop c) (hroom : s'.full.length < s.vecBufLen)
    (hcur : s'.cur.lo < s'.cur.hi) :
    Stopped arg f start vecLen s₀
      { s' with foundPages := s'.foundPages + (stop - addr), walkEnd := stop } stop := by
  have hgood := h.good_of_push hlt hf hmax.le hsame hlive hroom hcur
  exact {
    start_le := hgood.start_le
    buf := hgood.buf
    runs := hgood.runs
    found := hgood.found
    found_le := hgood.found_le
    live_le := live_length_le hgood.room
    len_le := hgood.len_le
    len_add := hgood.len_add
    walkEnd := rfl
    next := hnext
    why := .inl (by simp only [hsame.fields.2.2.2.1]; exact hmax)
    same := ⟨hgood.same.1, hgood.same.2.1⟩ }

/-- The scan stops before a range, since there are enough pages already. -/
theorem Good.stopped_of_max (h : Good arg f start vecLen s₀ s addr) (hnext : (f addr).isSome = true)
    (hmax : s.foundPages = arg.maxPages) (hsame : SameBut s s') (hlive : s'.live = s.live) :
    Stopped arg f start vecLen s₀ { s' with walkEnd := addr } addr := by
  obtain ⟨hbuf, hvecLen, hbufLen, hpages, hvec, hwalkEnd⟩ := hsame.fields
  have hlen := live_length_le h.room
  have hlive' : Scan.live { s' with walkEnd := addr } = s.live := hlive
  exact {
    start_le := h.start_le
    buf := hbuf.trans h.buf
    runs := by rw [hlive', ← h.runs, ← hvec]
    found := by rw [hlive', hvec, ← h.found, ← hpages]
    found_le := by simp only [hpages]; exact h.found_le
    live_le := by rw [hlive']; simp only [hbufLen]; exact hlen
    len_le := by simp only [hbufLen, hvecLen]; exact h.len_le
    len_add := by simp only [hvec, hvecLen]; exact h.len_add
    walkEnd := rfl
    next := hnext
    why := .inl (by simp only [hpages]; exact hmax)
    same := ⟨hvec.trans h.same.1, hbufLen.trans h.same.2.1⟩ }

/-! ## The callbacks -/

/-- A callback's end: the scan came to `hi`, or it stopped on the way from `lo`. -/
def Came (arg : ScanArg) (f : ℕ → Option U64) (start vecLen : ℕ) (s₀ : Scan) (lo hi : ℕ) :
    Option Err × Scan → Prop
  | (none, s) => Good arg f start vecLen s₀ s hi
  | (some err, s) =>
    err = .enospc ∧ ∃ stop, lo ≤ stop ∧ stop < hi ∧ Stopped arg f start vecLen s₀ s stop

/-- `pagemap_scan_output`, where `pagemap_scan_push_range` finds no room. -/
theorem output_of_none {lo hi tooMuch : ℕ} (hbuf : s.vecBuf = true)
    (htoo : tooMuch = s.foundPages + (hi - lo) - arg.maxPages)
    (hpush : pushRange (c &&& arg.returnMask) s lo (hi - tooMuch) = none) :
    output arg c s lo hi = ⟨some .enospc, lo, { s with walkEnd := lo }⟩ := by
  unfold output
  rw [hbuf, ← htoo]
  simp only [Bool.not_true, Bool.false_eq_true, if_false, hpush]

/-- `pagemap_scan_output`, where `pagemap_scan_push_range` takes what is not too much. -/
theorem output_of_some {lo hi tooMuch : ℕ} {s' : Scan} (hbuf : s.vecBuf = true)
    (htoo : tooMuch = s.foundPages + (hi - lo) - arg.maxPages)
    (hpush : pushRange (c &&& arg.returnMask) s lo (hi - tooMuch) = some s') :
    output arg c s lo hi =
      if tooMuch = 0 then
        ⟨none, hi - tooMuch, { s' with foundPages := s'.foundPages + (hi - tooMuch - lo) }⟩
      else ⟨some .enospc, hi - tooMuch,
        { s' with foundPages := s'.foundPages + (hi - tooMuch - lo),
                  walkEnd := hi - tooMuch }⟩ := by
  unfold output
  rw [hbuf, ← htoo]
  simp only [Bool.not_true, Bool.false_eq_true, if_false, hpush]

/-- `pagemap_scan_output`, for a range that is reported with one label. It returns 0 if it takes the
whole range, and of a range of one page it takes all or nothing. -/
theorem came_output (h : Good arg f start vecLen s₀ s addr) (hlt : addr < stop)
    (hf : ∀ page, addr ≤ page → page < stop → f page = some (c &&& arg.returnMask)) :
    let done := output arg c s addr stop
    Came arg f start vecLen s₀ addr stop (done.ret, done.scan) ∧
      (done.ret = none ∧ done.stop = stop ∨
        done.ret ≠ none ∧ (stop = addr + 1 → done.stop = addr)) := by
  intro done
  have hfound := h.found_le
  obtain ⟨tooMuch, htoo⟩ :
      ∃ tooMuch, tooMuch = s.foundPages + (stop - addr) - arg.maxPages := ⟨_, rfl⟩
  have hnext : f addr = some (c &&& arg.returnMask) := hf addr le_rfl hlt
  have hisSome {page : ℕ} (h1 : addr ≤ page) (h2 : page < stop) : (f page).isSome = true := by
    rw [hf page h1 h2]
    rfl
  rcases Nat.lt_or_ge addr (stop - tooMuch) with hsome | hnone
  · have hspec := pushRange_spec (c := c &&& arg.returnMask) h.room h.cur hsome
    have hf' : ∀ page, addr ≤ page → page < stop - tooMuch →
        f page = some (c &&& arg.returnMask) :=
      fun page h1 h2 => hf page h1 (by omega)
    cases hpush : pushRange (c &&& arg.returnMask) s addr (stop - tooMuch) with
    | none =>
      rw [hpush] at hspec
      obtain ⟨hlive, hlen, hnot⟩ := hspec
      have hdone : done = _ := output_of_none h.buf htoo hpush
      rw [hdone]
      exact ⟨⟨rfl, addr, le_rfl, hlt, h.stopped_of_full hnext hlive hlen hnot⟩,
        .inr ⟨by simp, fun _ => rfl⟩⟩
    | some s' =>
      rw [hpush] at hspec
      obtain ⟨hlive, hroom, hcur, hsame⟩ := hspec
      have hdone : done = _ := output_of_some h.buf htoo hpush
      by_cases hzero : tooMuch = 0
      · simp only [if_pos hzero] at hdone
        rw [hdone]
        have hgood := h.good_of_push hsome hf' (by omega) hsame hlive hroom hcur
        rw [hzero, Nat.sub_zero] at hgood ⊢
        exact ⟨hgood, .inl ⟨rfl, rfl⟩⟩
      · simp only [if_neg hzero] at hdone
        rw [hdone]
        have hstopped := h.stopped_of_push hsome hf' (hisSome hsome.le (by omega)) (by omega) hsame
          hlive hroom hcur
        exact ⟨⟨rfl, stop - tooMuch, hsome.le, by omega, hstopped⟩, .inr ⟨by simp, by omega⟩⟩
  · -- there are enough pages already
    have hmax : s.foundPages = arg.maxPages := by omega
    have hstop : stop - tooMuch = addr := by omega
    have hpos : tooMuch ≠ 0 := by omega
    cases hpush : pushRange (c &&& arg.returnMask) s addr (stop - tooMuch) with
    | none =>
      have hdone : done = _ := output_of_none h.buf htoo hpush
      rw [hdone]
      exact ⟨⟨rfl, addr, le_rfl, hlt, h.stopped_of_max (hisSome le_rfl hlt) hmax rfl rfl⟩,
        .inr ⟨by simp, fun _ => rfl⟩⟩
    | some s' =>
      have hdone : done = _ := output_of_some h.buf htoo hpush
      rw [hstop] at hdone hpush
      simp only [if_neg hpos, Nat.sub_self, Nat.add_zero] at hdone
      obtain ⟨hlive, hsame⟩ := pushRange_empty h.cur s' hpush
      rw [hdone]
      exact ⟨⟨rfl, addr, le_rfl, hlt, h.stopped_of_max (hisSome le_rfl hlt) hmax hsame hlive⟩,
        .inr ⟨by simp, fun _ => rfl⟩⟩

/-- A scan goes on over pages that are not reported. -/
theorem Good.skip (h : Good arg f start vecLen s₀ s addr) (hle : addr ≤ stop)
    (hf : ∀ page, addr ≤ page → page < stop → f page = none) :
    Good arg f start vecLen s₀ s stop := by
  rcases Nat.eq_or_lt_of_le hle with rfl | hlt
  · exact h
  have hstart := h.start_le
  have hruns : s.vec ++ s.live = runsOf f start (stop - start) := by
    rw [h.runs, show stop - start = addr - start + (stop - addr) by omega, Runs.runsOf_add_none]
    intro page hpage hpage'
    exact hf page (by omega) (by omega)
  refine { h with start_le := by omega, runs := hruns, seam := ?_ }
  intro hlive r hr hand
  -- the regions that there are end where the scan was, or before
  have hmem : r ∈ s.vec ++ s.live := by
    rw [hlive, List.append_nil]
    exact List.mem_of_mem_getLast? hr
  rw [h.runs] at hmem
  have hend := ((Runs.within_runsOf f start _).bounds r hmem).2.2
  omega

/-- A callback's end, for a range that begins earlier. -/
theorem Came.mono {r : Option Err × Scan} (h : Came arg f start vecLen s₀ mid hi r)
    (hle : lo ≤ mid) :
    Came arg f start vecLen s₀ lo hi r := by
  obtain ⟨err, s⟩ := r
  cases err with
  | none => exact h
  | some err =>
    obtain ⟨herr, stop, hstop, hlt, hstopped⟩ := h
    exact ⟨herr, stop, hle.trans hstop, hlt, hstopped⟩

/-- One call after another. -/
theorem came_untilError_cons {α : Type} {call : α → Scan → Option Err × Scan} {x : α} {xs : List α}
    (hle : lo ≤ mid) (hle' : mid ≤ hi) (h : Came arg f start vecLen s₀ lo mid (call x s))
    (hrest : ∀ s, Good arg f start vecLen s₀ s mid →
      Came arg f start vecLen s₀ mid hi (untilError call xs s)) :
    Came arg f start vecLen s₀ lo hi (untilError call (x :: xs) s) := by
  unfold untilError
  rcases hcall : call x s with ⟨err, s'⟩
  rw [hcall] at h
  cases err with
  | none => exact (hrest s' h).mono hle
  | some err =>
    obtain ⟨herr, stop, hstop, hlt, hstopped⟩ := h
    exact ⟨herr, stop, hstop, hlt.trans_le hle', hstopped⟩

/-- The loop over a page table: it reports the pages that have an offer. -/
theorem came_reportLoop (offer : ℕ → Option U64) (hwp : arg.wpMatching = false) (n page : ℕ)
    (h : Good arg f start vecLen s₀ s page)
    (hf : ∀ i, page ≤ i → i < page + n → f i = (offer i).map (· &&& arg.returnMask)) :
    Came arg f start vecLen s₀ page (page + n) (reportLoop arg offer n page none s) := by
  -- on the pages: one without an offer is skipped, and the loop may stop behind one with
  induction n generalizing page s with
  | zero => exact h
  | succ n ih =>
    have hpage := hf page le_rfl (by omega)
    have hrest : ∀ i, page + 1 ≤ i → i < page + 1 + n →
        f i = (offer i).map (· &&& arg.returnMask) := fun i h1 h2 => hf i (by omega) (by omega)
    have hone {i : ℕ} (h1 : page ≤ i) (h2 : i < page + 1) : i = page := by omega
    rw [show page + (n + 1) = page + 1 + n by omega]
    unfold reportLoop
    cases hoffer : offer page with
    | none =>
      rw [hoffer] at hpage
      refine (ih (page + 1) (h.skip (Nat.le_succ page) ?_) hrest).mono (Nat.le_succ page)
      intro i h1 h2
      rw [hone h1 h2]
      exact hpage
    | some categories =>
      rw [hoffer] at hpage
      obtain ⟨hcame, hret⟩ := came_output h (Nat.lt_add_one page)
        (c := categories) (by
          intro i h1 h2
          rw [hone h1 h2]
          exact hpage)
      simp only [hwp, Bool.false_and, Bool.false_eq_true, if_false]
      rcases hret with ⟨hnone, hstop⟩ | ⟨hne, hstop⟩
      · rw [hnone] at hcame ⊢
        rw [if_neg (by omega)]
        exact (ih (page + 1) hcame hrest).mono (Nat.le_succ page)
      · rw [if_pos (hstop rfl)]
        rcases hend : (output arg categories s page (page + 1)).ret with _ | err
        · rw [hend] at hcame
          exact absurd hend hne
        · rw [hend] at hcame
          obtain ⟨herr, at', h1, h2, hstopped⟩ := hcame
          exact ⟨herr, at', h1, by omega, hstopped⟩

/-- A range that is reported with one category, or not at all. -/
theorem came_whole (h : Good arg f start vecLen s₀ s lo) (hlt : lo < hi)
    (hf : ∀ page, lo ≤ page → page < hi → f page =
      (if isInterestingPage arg c then some c else none).map
        (· &&& arg.returnMask)) :
    Came arg f start vecLen s₀ lo hi
      (if !isInterestingPage arg c then (none, s)
      else ((output arg c s lo hi).ret, (output arg c s lo hi).scan)) := by
  cases hcat : isInterestingPage arg c with
  | false =>
    rw [hcat] at hf
    exact h.skip hlt.le hf
  | true =>
    rw [hcat] at hf
    exact (came_output h hlt hf).1

variable {a : AddressSpace} {vma : MapsVma} {category : U64}

/-- What is reported of a page of a VMA that is walked. -/
theorem reported_of_vmaAt {page : ℕ} (hvma : a.vmaAt page = some vma)
    (htest : testWalk k arg vma = .walk category) :
    reported k arg a page = (pageOffer k arg a category vma page).map (· &&& arg.returnMask) := by
  unfold reported
  rw [hvma]
  simp only
  rw [htest]

/-- A VMA that is walked is none with `VM_PFNMAP`. -/
theorem not_pfnmap_of_testWalk (htest : testWalk k arg vma = .walk category) :
    vma.vmFlags &&& vmPfnmap = 0 := by
  by_contra hpfnmap
  unfold testWalk at htest
  rw [if_pos hpfnmap] at htest
  split_ifs at htest

/-- The calls for a VMA that is walked. -/
theorem came_calls {calls : List Call} (hwp : arg.wpMatching = false)
    (htest : testWalk k arg vma = .walk category) (hwalks : PagemapRead.Walks a hi lo calls)
    (hvma : ∀ page, lo ≤ page → page < hi → a.vmaAt page = some vma) :
    lo ≤ hi ∧ ∀ s, Good arg (reported k arg a) start vecLen s₀ s lo →
      Came arg (reported k arg a) start vecLen s₀ lo hi
        (untilError (fun call s => callback k arg category s call) calls s) := by
  have hmet {page : ℕ} (hpage : a.vmaAt page = some vma) : a.met page = a.mapping page :=
    AddressSpace.met_of_vmaAt hpage (not_pfnmap_of_testWalk htest)
  induction hwalks with
  | done => exact ⟨le_rfl, fun s h => h⟩
  | again _ ih => exact ih hvma
  | @hole lo mid calls hlt hle hmapping _ ih =>
    obtain ⟨-, hrest⟩ := ih fun page h1 h2 => hvma page (by omega) h2
    refine ⟨by omega, fun s h => came_untilError_cons hlt.le hle ?_ hrest⟩
    have hcame := came_whole (c := category) h hlt (by
      intro page h1 h2
      have hpage := hvma page h1 (by omega)
      rw [reported_of_vmaAt hpage htest, pageOffer, ← hmet hpage, hmapping page h1 h2])
    simpa only [callback, pteHole, hwp, or_true, if_true] using hcame
  | @table lo mid calls vma' ptes hlt hle hmaps _ ih =>
    obtain ⟨-, hrest⟩ := ih fun page h1 h2 => hvma page (by omega) h2
    refine ⟨by omega, fun s h => came_untilError_cons hlt.le hle ?_ hrest⟩
    have hcame := came_reportLoop (f := reported k arg a)
      (fun page => pteOffer k arg category vma' page (ptes page)) hwp (mid - lo) lo h (by
        intro page h1 h2
        have hpage := hvma page h1 (by omega)
        obtain ⟨hvma', hmap⟩ := hmaps page h1 (by omega)
        have heq : vma' = vma := Option.some.inj (hvma'.symm.trans hpage)
        rw [reported_of_vmaAt hpage htest, pageOffer, ← hmet hpage, hmap, heq])
    rw [show lo + (mid - lo) = mid by omega] at hcame
    simpa only [callback, tableEntry, hwp, Bool.false_and, Bool.false_eq_true, if_false] using hcame
  | @thp lo mid calls vma' pmd hlt hle _ hmaps _ ih =>
    obtain ⟨-, hrest⟩ := ih fun page h1 h2 => hvma page (by omega) h2
    refine ⟨by omega, fun s h => came_untilError_cons hlt.le hle ?_ hrest⟩
    have heq : vma' = vma :=
      Option.some.inj ((hmaps lo le_rfl hlt).1.symm.trans (hvma lo le_rfl (by omega)))
    have hcame := came_whole (c := category ||| pagemapThpCategory k arg vma' pmd) h hlt (by
      intro page h1 h2
      have hpage := hvma page h1 (by omega)
      rw [reported_of_vmaAt hpage htest, pageOffer, ← hmet hpage, (hmaps page h1 h2).2, heq])
    simpa only [callback, thpEntry, hwp, true_or, or_true, if_true] using hcame
  | @hugetlb lo mid size calls vma' pte shared hlt hle _ hmaps _ ih =>
    obtain ⟨-, hrest⟩ := ih fun page h1 h2 => hvma page (by omega) h2
    refine ⟨by omega, fun s h => came_untilError_cons hlt.le hle ?_ hrest⟩
    have hcame := came_whole (c := category ||| pagemapHugetlbCategory k pte) h hlt (by
      intro page h1 h2
      have hpage := hvma page h1 (by omega)
      rw [reported_of_vmaAt hpage htest, pageOffer, ← hmet hpage, (hmaps page h1 h2).2])
    simpa only [callback, hugetlbEntry, hwp, true_or, if_true] using hcame

/-- A VMA that is not walked has nothing to report. -/
theorem reported_of_skip {page : ℕ} (hvma : a.vmaAt page = some vma)
    (htest : testWalk k arg vma = .skip) : reported k arg a page = none := by
  unfold reported
  rw [hvma]
  simp only
  rw [htest]

/-- A walk over a range, where `PM_SCAN_CHECK_WPASYNC` finds nothing wrong. -/
theorem came_walkPageRange {areas : List Area} (hwp : arg.wpMatching = false)
    (hperm : ∀ vma, testWalk k arg vma ≠ .eperm) (hareas : Areas a hi lo areas) :
    lo ≤ hi ∧ ∀ s, Good arg (reported k arg a) start vecLen s₀ s lo →
      Came arg (reported k arg a) start vecLen s₀ lo hi (walkPageRange k arg areas s) := by
  unfold walkPageRange
  induction hareas with
  | done => exact ⟨le_rfl, fun s h => h⟩
  | @gap lo mid areas hle hle' hnone _ ih =>
    refine ⟨hle.trans hle', fun s h => came_untilError_cons hle hle' ?_ ih.2⟩
    show Good arg (reported k arg a) start vecLen s₀ s mid
    refine h.skip hle fun page h1 h2 => ?_
    rw [reported, hnone page h1 h2]
  | @vma lo mid areas vma calls hle hle' hvma hwalks _ ih =>
    refine ⟨hle.trans hle', fun s h => came_untilError_cons hle hle' ?_ ih.2⟩
    unfold walkArea
    simp only
    cases htest : testWalk k arg vma with
    | eperm => exact absurd htest (hperm vma)
    | skip =>
      exact h.skip hle fun page h1 h2 => reported_of_skip (hvma page h1 h2) htest
    | walk category => exact (came_calls hwp htest hwalks hvma).2 s h

/-! ## The rounds -/

/-- `pagemap_scan_flush_buffer`, where the caller's memory can be written. -/
theorem flushBuffer_spec (hbuf : s.vecBuf = true) : ∃ s',
    flushBuffer true s = some (s.live.length, s') ∧ s'.vec = s.vec ++ s.live ∧
      s'.vecLen = s.vecLen - s.live.length ∧
    s'.foundPages = s.foundPages ∧ s'.walkEnd = s.walkEnd ∧ s'.vecBuf = true ∧
    s'.wped = s.wped ∧ (s.live = [] → s' = s) ∧
    (s.live ≠ [] → s'.full = [] ∧ s'.cur.lo = 0 ∧ s'.cur.hi = 0 ∧
      s'.vecBufLen = min s.vecBufLen (s.vecLen - s.live.length)) := by
  by_cases hlive : s.live = []
  · refine ⟨s, ?_, ?_, ?_, rfl, rfl, hbuf, rfl, fun _ => rfl, fun h => absurd hlive h⟩
    · simp [flushBuffer, hbuf, hlive]
    · rw [hlive, List.append_nil]
    · rw [hlive]
      rfl
  · have hlen : (s.live.length == 0) = false := by simpa using hlive
    refine ⟨{ s with
      vecLen := s.vecLen - s.live.length
      vec := s.vec ++ s.live
      full := []
      vecBufLen := min s.vecBufLen (s.vecLen - s.live.length)
      cur := ⟨0, 0, (s.full.headD s.cur).label⟩ }, ?_, rfl, rfl, rfl, rfl, hbuf,
      rfl, fun h => absurd h hlive, fun _ => ⟨rfl, rfl, rfl, rfl⟩⟩
    simp [flushBuffer, hbuf, hlen]

/-- A scan that has stopped has found something. -/
theorem Stopped.start_lt (h : Stopped arg f start vecLen s₀ s addr) : start < addr := by
  refine lt_of_le_of_ne h.start_le fun heq => ?_
  have hnil : s.vec ++ s.live = [] := by
    rw [h.runs, heq, Nat.sub_self]
    rfl
  rcases h.why with hmax | ⟨hlive, -⟩
  · rw [h.found, hnil] at hmax
    exact arg.maxPages_pos.ne hmax
  · exact hlive (List.append_eq_nil_iff.mp hnil).2

/-- With what a full buffer leaves, there are more regions than it had room for. -/
theorem Stopped.length_lt (h : Stopped arg f start vecLen s₀ s addr)
    (hmax : s.foundPages ≠ arg.maxPages) :
    s.vec.length + s.vecBufLen < (runsOf f start (addr + 1 - start)).length := by
  obtain ⟨hlive, hlen, hnot⟩ := h.why.resolve_left hmax
  obtain ⟨c, hc⟩ := Option.isSome_iff_exists.mp h.next
  have hstart := h.start_le
  have hadd : start + (addr - start) = addr := by omega
  rw [show addr + 1 - start = addr - start + 1 by omega,
    Runs.runsOf_succ_some (by rw [hadd]; exact hc), ← h.runs, hadd, Runs.push_of_not]
  · rw [List.length_append, List.length_append, hlen, List.length_singleton]
    exact Nat.lt_succ_self _
  · intro r hr hand
    rw [List.getLast?_append_of_ne_nil _ hlive] at hr
    exact hnot r hr ⟨hand.1, by rw [hand.2]; exact hc⟩

/-- Where there is room for more, and more is wanted, the scan goes on where it stopped. -/
theorem Stopped.good_of_flush (h : Stopped arg f start vecLen s₀ s addr)
    (hmax : s.foundPages ≠ arg.maxPages) (hleft : s.vecLen - s.live.length ≠ 0)
    (hvec : s'.vec = s.vec ++ s.live) (hvecLen : s'.vecLen = s.vecLen - s.live.length)
    (hpages : s'.foundPages = s.foundPages) (hbuf : s'.vecBuf = true) (hfull : s'.full = [])
    (hlo : s'.cur.lo = 0) (hhi : s'.cur.hi = 0)
    (hbufLen : s'.vecBufLen = min s.vecBufLen (s.vecLen - s.live.length)) :
    Good arg f start vecLen s' s' addr := by
  obtain ⟨hlive, hlen, hnot⟩ := h.why.resolve_left hmax
  have hpos : 0 < s.vecBufLen := by
    rw [← hlen]
    exact List.length_pos_iff.mpr hlive
  have hlive' : s'.live = [] := live_of_empty ⟨hlo, hhi, hfull⟩
  have hle := h.live_le
  have hle' := h.len_le
  have hadd := h.len_add
  exact {
    start_le := h.start_le
    buf := hbuf
    runs := by rw [hlive', List.append_nil, hvec, h.runs]
    found := by rw [hlive', List.append_nil, hvec, hpages, h.found]
    found_le := by rw [hpages]; exact h.found_le
    room := by rw [hfull, hbufLen, List.length_nil]; omega
    len_le := by omega
    len_add := by rw [hvec, List.length_append]; omega
    cur := .inl ⟨hlo, hhi, hfull⟩
    seam := by
      intro _ r hr hand
      rw [hvec, List.getLast?_append_of_ne_nil _ hlive] at hr
      exact hnot r hr hand
    same := ⟨rfl, rfl, rfl⟩ }

/-- How the rounds end: the caller has the regions up to `reached`. The scan has found enough there,
or the caller's vector is full, or it is the end; and then `walk_end` is 0, unless the regions were
too many for one round. -/
structure Finished (arg : ScanArg) (f : ℕ → Option U64) (start stop vecLen : ℕ) (ret : ℤ) (nOut : ℕ)
    (s : Scan) (reached : ℕ) : Prop where
  start_le : start ≤ reached
  le_stop : reached ≤ stop
  vec : s.vec = runsOf f start (reached - start)
  nOut_eq : nOut = s.vec.length
  length_le : s.vec.length ≤ vecLen
  size_le : Runs.size s.vec ≤ arg.maxPages
  why : (ret = -28 ∧ start < reached ∧ reached < stop ∧ s.walkEnd = reached ∧
      (f reached).isSome = true ∧ (Runs.size s.vec = arg.maxPages ∨ s.vec.length = vecLen)) ∨
    (ret = 0 ∧ reached = stop ∧ (s.walkEnd = 0 ∧ s.vec.length ≤ min 512 vecLen ∨
      0 < s.walkEnd ∧ s.walkEnd < stop ∧ min 512 vecLen < s.vec.length))

/-- Before a round: it is the first one, or a full buffer has made it necessary. -/
def Before (f : ℕ → Option U64) (start vecLen : ℕ) (s : Scan) (walkStart : ℕ) : Prop :=
  s.walkEnd = 0 ∧ s.vec = [] ∧ s.vecBufLen = min 512 vecLen ∨
    0 < s.walkEnd ∧ s.walkEnd ≤ walkStart ∧
      min 512 vecLen < (runsOf f start (walkStart + 1 - start)).length

/-- Nothing disturbs the rounds, and they find the address space. -/
structure Undisturbed (a : AddressSpace) (stop : ℕ) (r : Round) : Prop where
  signal : r.signal = false
  locked : r.locked = true
  copied : r.copied = true
  walk : ∀ lo, lo ≤ stop → Areas a stop lo (r.walk lo stop)

/-- The rounds of a scan of an address space. -/
theorem finished_scanLoop {rounds : ℕ → Round} (hwp : arg.wpMatching = false)
    (hperm : ∀ vma, testWalk k arg vma ≠ .eperm) (hrounds : ∀ i, Undisturbed a stop (rounds i))
    (n i walkStart : ℕ) (ret : ℤ) (nOut : ℕ) (s : Scan)
    (h : Good arg (reported k arg a) start vecLen s s walkStart) (hempty : s.live = [])
    (hlt : walkStart < stop) (hn : stop - walkStart ≤ n) (hout : nOut = s.vec.length)
    (hbefore : Before (reported k arg a) start vecLen s walkStart) :
    let done := scanLoop k arg stop rounds n i walkStart ret nOut s
    ∃ reached,
      Finished arg (reported k arg a) start stop vecLen done.1 done.2.1 done.2.2 reached := by
  -- on the rounds: each begins where the last one stopped, with an empty buffer
  induction n generalizing i walkStart ret nOut s with
  | zero => omega
  | succ n ih =>
    have hround := hrounds i
    unfold scanLoop
    rw [if_neg (by omega), hround.signal, hround.locked, hround.copied]
    simp only [Bool.false_eq_true, if_false, Bool.not_true]
    have hcame := (came_walkPageRange hwp hperm (hround.walk walkStart hlt.le)).2 s h
    rcases hwalk : walkPageRange k arg ((rounds i).walk walkStart stop) s with ⟨err, s₁⟩
    rw [hwalk] at hcame
    cases err with
    | none =>
      -- the end of the range
      have hgood : Good arg (reported k arg a) start vecLen s s₁ stop := hcame
      obtain ⟨s₂, hflush, hvec, -, -, hwalkEnd, -, -, -, -⟩ := flushBuffer_spec hgood.buf
      simp only [hflush]
      have hlive := live_length_le hgood.room
      have hlen := hgood.len_le
      have hadd := hgood.len_add
      obtain ⟨hvec₀, hbufLen₀, hwalkEnd₀⟩ := hgood.same
      have hcount : s₂.vec.length = s.vec.length + s₁.live.length := by
        rw [hvec, List.length_append, hvec₀]
      refine ⟨stop, hgood.start_le, le_rfl, by rw [hvec, hgood.runs], by omega, ?_, ?_,
        .inr ⟨rfl, rfl, ?_⟩⟩
      · rw [hvec₀] at hadd
        omega
      · rw [hvec, ← hgood.found]
        exact hgood.found_le
      · rw [hwalkEnd, hwalkEnd₀]
        rcases hbefore with ⟨hzero, hnone, hfirst⟩ | ⟨hpos, hle, hmany⟩
        · rw [hnone, List.length_nil] at hcount
          exact .inl ⟨hzero, by omega⟩
        · refine .inr ⟨hpos, by omega, hmany.trans_le ?_⟩
          rw [hvec, hgood.runs]
          exact Runs.length_runsOf_mono (by omega)
    | some err =>
      -- the round stopped at `addr`: for good, or since the buffer was full
      obtain ⟨rfl, addr, hle, hlt', hstopped⟩ := hcame
      obtain ⟨s₂, hflush, hvec, hvecLen, hpages, hwalkEnd, hbuf, -, -, hnext⟩ :=
        flushBuffer_spec hstopped.buf
      simp only [hflush]
      have hlive := hstopped.live_le
      have hlen := hstopped.len_le
      have hadd := hstopped.len_add
      have hstart := hstopped.start_lt
      obtain ⟨hvec₀, hbufLen₀⟩ := hstopped.same
      have hcount : s₂.vec.length = s.vec.length + s₁.live.length := by
        rw [hvec, List.length_append, hvec₀]
      rw [hvec₀] at hadd
      by_cases hdone : s₂.vecLen = 0 ∨ s₂.foundPages = arg.maxPages
      · rw [if_pos hdone]
        have hout' : nOut + s₁.live.length = s₂.vec.length := by omega
        have hlen' : s₂.vec.length ≤ vecLen := by omega
        refine ⟨addr, hstart.le, hlt'.le, by rw [hvec, hstopped.runs], hout', hlen', ?_,
          .inl ⟨rfl, hstart, hlt', by rw [hwalkEnd, hstopped.walkEnd], hstopped.next, ?_⟩⟩
        · rw [hvec, ← hstopped.found]
          exact hstopped.found_le
        · rcases hdone with hnoroom | hmax
          · have hfull : s₂.vec.length = vecLen := by omega
            exact .inr hfull
          · exact .inl (by rw [hvec, ← hstopped.found, ← hpages, hmax])
      · rw [if_neg hdone]
        obtain ⟨hroom, hmore⟩ := not_or.mp hdone
        rw [hvecLen] at hroom
        rw [hpages] at hmore
        obtain ⟨hlive', -, -⟩ := hstopped.why.resolve_left hmore
        obtain ⟨hfull, hlo, hhi, hbufLen⟩ := hnext hlive'
        have hgood :=
          hstopped.good_of_flush hmore hroom hvec hvecLen hpages hbuf hfull hlo hhi hbufLen
        have hmany := hstopped.length_lt hmore
        -- the round took the scan further
        have hfurther : walkStart < addr := by
          refine lt_of_le_of_ne hle fun heq => ?_
          have hruns := hstopped.runs
          rw [hvec₀, ← heq, ← h.runs, hempty, List.append_nil, List.append_right_eq_self] at hruns
          exact hlive' hruns
        have hend : s₂.walkEnd = addr := hwalkEnd.trans hstopped.walkEnd
        rw [hend]
        refine ih (i + 1) addr (-28) _ s₂ hgood (live_of_empty ⟨hlo, hhi, hfull⟩) hlt' (by omega)
          (by omega) (.inr ⟨by omega, hend.le, ?_⟩)
        rcases hbefore with ⟨-, hnone, hfirst⟩ | ⟨-, -, hbefore⟩
        · rw [hvec₀, hnone, List.length_nil, hbufLen₀, hfirst] at hmany
          omega
        · exact hbefore.trans_le (Runs.length_runsOf_mono (by omega))

/-- The scan before its first round. -/
theorem good_start (label : U64) (hvecLen : 0 < vecLen) :
    Good arg f start vecLen (Scan.start vecLen label) (Scan.start vecLen label) start where
  start_le := le_rfl
  buf := by simpa [Scan.start] using hvecLen.ne'
  runs := by rw [Nat.sub_self]; rfl
  found := rfl
  found_le := Nat.zero_le _
  room := by show 0 < min 512 vecLen; omega
  len_le := min_le_right _ _
  len_add := Nat.zero_add _
  cur := .inl ⟨rfl, rfl, rfl⟩
  seam := by intro _ r hr; simp [Scan.start] at hr
  same := ⟨rfl, rfl, rfl⟩

/-- A scan that nothing disturbs comes to an end. -/
theorem finished_doPagemapScan {rounds : ℕ → Round} (hwp : arg.wpMatching = false)
    (hperm : ∀ vma, testWalk k arg vma ≠ .eperm) (hrounds : ∀ i, Undisturbed a stop (rounds i))
    (hvecLen : 0 < vecLen) (hle : start ≤ stop) (label : U64) :
    let done := scanLoop k arg stop rounds (stop - start) 0 start 0 0 (Scan.start vecLen label)
    ∃ reached,
      Finished arg (reported k arg a) start stop vecLen done.1 done.2.1 done.2.2 reached := by
  rcases Nat.eq_or_lt_of_le hle with rfl | hlt
  · -- there is nothing to walk
    rw [Nat.sub_self]
    exact ⟨start, le_rfl, le_rfl, by rw [Nat.sub_self]; rfl, rfl, Nat.zero_le _, Nat.zero_le _,
      .inr ⟨rfl, rfl, .inl ⟨rfl, Nat.zero_le _⟩⟩⟩
  · exact finished_scanLoop hwp hperm hrounds (stop - start) 0 start 0 0 (Scan.start vecLen label)
      (good_start label hvecLen) rfl hlt le_rfl rfl (.inl ⟨rfl, rfl, rfl⟩)

/-- The scan for the caller: it gets the regions of the pages up to `reached`, as long as they can
be. That is the end of the range, unless the caller's vector is full or as many pages are found as
it wants; then `walk_end` is there, where there is more to report. At the end of the range
`walk_end` is the end if one buffer was enough for the regions, and lies before it if not. -/
theorem doPagemapScan_eq {rounds : ℕ → Round} (hwp : arg.wpMatching = false)
    (hperm : ∀ vma, testWalk k arg vma ≠ .eperm) (hrounds : ∀ i, Undisturbed a stop (rounds i))
    (hvecLen : 0 < vecLen) (hle : start ≤ stop) (label : U64) :
    let r := doPagemapScan k arg start stop vecLen label rounds
    ∃ reached, start ≤ reached ∧ reached ≤ stop ∧
      r.vec = runsOf (reported k arg a) start (reached - start) ∧
      r.ret = (BitVec.ofNat 32 r.vec.length).toInt ∧ r.vec.length ≤ vecLen ∧
      Runs.size r.vec ≤ arg.maxPages ∧
      (reached < stop → r.walkEnd = reached ∧ (reported k arg a reached).isSome = true ∧
        (Runs.size r.vec = arg.maxPages ∨ r.vec.length = vecLen)) ∧
      (reached = stop → r.walkEnd ≤ stop ∧ (r.walkEnd = stop ↔ r.vec.length ≤ min 512 vecLen)) := by
  intro r
  obtain ⟨reached, hfin⟩ := finished_doPagemapScan hwp hperm hrounds hvecLen hle label
  have hr : r = ScanResult.ofLoop stop
      (scanLoop k arg stop rounds (stop - start) 0 start 0 0 (Scan.start vecLen label)) := rfl
  rcases hloop : scanLoop k arg stop rounds (stop - start) 0 start 0 0 (Scan.start vecLen label)
    with ⟨ret, nOut, s⟩
  rw [hloop] at hfin hr
  simp only [ScanResult.ofLoop] at hfin hr
  rw [hr]
  refine ⟨reached, hfin.start_le, hfin.le_stop, hfin.vec, ?_, hfin.length_le, hfin.size_le, ?_, ?_⟩
  · simp only
    rw [if_pos, hfin.nOut_eq]
    rcases hfin.why with ⟨hret, -⟩ | ⟨hret, -⟩
    · exact .inr hret
    · exact .inl hret
  · intro hbefore
    obtain ⟨-, hpos, -, hwalkEnd, hnext, henough⟩ := hfin.why.resolve_right fun h => by
      have := h.2.1
      omega
    refine ⟨?_, hnext, henough⟩
    simp only
    rw [if_neg (by omega), hwalkEnd]
  · intro hend
    obtain ⟨-, -, hcases⟩ := hfin.why.resolve_left fun h => by
      have := h.2.2.1
      omega
    simp only
    rcases hcases with ⟨hzero, hfew⟩ | ⟨hpos, hlt', hmany⟩
    · rw [if_pos hzero]
      exact ⟨le_rfl, fun _ => hfew, fun _ => rfl⟩
    · rw [if_neg (by omega)]
      exact ⟨hlt'.le, fun h => by omega, fun h => by omega⟩

/-- What a scan reports, page by page: each page up to `reached` that is to be reported, once and in
order; and no region goes on where the next one begins. -/
theorem points_doPagemapScan {rounds : ℕ → Round} (hwp : arg.wpMatching = false)
    (hperm : ∀ vma, testWalk k arg vma ≠ .eperm) (hrounds : ∀ i, Undisturbed a stop (rounds i))
    (hvecLen : 0 < vecLen) (hle : start ≤ stop) (label : U64) :
    let r := doPagemapScan k arg start stop vecLen label rounds
    ∃ reached, Runs.Within start reached r.vec ∧ Runs.Maximal r.vec ∧
      Runs.points r.vec = (List.range' start (reached - start)).filterMap fun page =>
        (reported k arg a page).map fun categories => (page, categories) := by
  intro r
  obtain ⟨reached, hfin⟩ := finished_doPagemapScan hwp hperm hrounds hvecLen hle label
  have hvec : r.vec = runsOf (reported k arg a) start (reached - start) := hfin.vec
  rw [hvec]
  refine ⟨reached, ?_, Runs.maximal_runsOf _ _ _, Runs.points_runsOf _ _ _⟩
  have hwithin := Runs.within_runsOf (reported k arg a) start (reached - start)
  rwa [Nat.add_sub_cancel' hfin.start_le] at hwithin

/-! ## A walk that calls back page by page -/

/-- The area of a page. -/
def areaOf (a : AddressSpace) (page : ℕ) : Area where
  vma := a.vmaAt page
  calls := if (a.vmaAt page).isSome then [PagemapRead.callOf a page] else []

/-- Where only pages of VMAs are mapped, the areas page by page are those of a walk. -/
theorem areas_areaOf (hmapped : ∀ page, a.vmaAt page = none → a.mapping page = .hole) {lo hi : ℕ}
    (h : lo ≤ hi) : Areas a hi lo ((List.range' lo (hi - lo)).map (areaOf a)) := by
  obtain ⟨n, rfl⟩ := Nat.exists_eq_add_of_le h
  rw [Nat.add_sub_cancel_left]
  induction n generalizing lo with
  | zero => exact .done
  | succ n ih =>
    have hrest := @ih (lo + 1) (Nat.le_add_right _ _)
    rw [show lo + 1 + n = lo + (n + 1) by omega] at hrest
    have hone {page : ℕ} (h1 : lo ≤ page) (h2 : page < lo + 1) : page = lo := by omega
    rw [List.range'_succ, List.map_cons]
    unfold areaOf
    cases hvma : a.vmaAt lo with
    | none =>
      refine .gap (by omega) (by omega) ?_ hrest
      intro page h1 h2
      rw [hone h1 h2, hvma]
    | some vma =>
      refine .vma (by omega) (by omega) ?_ ?_ hrest
      · intro page h1 h2
        rw [hone h1 h2, hvma]
      · have hwalks := PagemapRead.walks_callOf hmapped (Nat.le_succ lo)
        rwa [Nat.succ_sub (le_refl lo), Nat.sub_self] at hwalks

/-- `PAGEMAP_SCAN` looks into every VMA, where it does not check for asynchronous write-protection.
-/
theorem testWalk_ne_eperm (h : arg.checkWpasync = false) (vma : MapsVma) :
    testWalk k arg vma ≠ .eperm := by
  unfold testWalk
  simp only [h, Bool.and_false, Bool.false_eq_true, if_false]
  split_ifs <;> nofun

/-- A round in the address space with two pages. -/
def demoRound : Round where
  signal := false
  locked := true
  walk lo hi := (List.range' lo (hi - lo)).map (areaOf PagemapRead.demoSpace)
  copied := true

/-- Nothing disturbs it. -/
theorem demoRound_undisturbed (stop : ℕ) : Undisturbed PagemapRead.demoSpace stop demoRound where
  signal := rfl
  locked := rfl
  copied := rfl
  walk _ h := areas_areaOf PagemapRead.demoSpace_mapped h

/-- Pages of which nothing is known. -/
def demoFacts : ScanFacts where
  toPageFacts := PagemapRead.demoFacts
  vmNormalPagePmd _ _ := none
  isZeroPfn _ := false
  isHugeZeroPmd _ := false
  wpAllowed _ := true
  splitHugePmd _ _ := 0
  uffdWpRange _ _ := true

/-- A scan for pages that are present or swapped. -/
def demoArg : ScanArg where
  wpMatching := false
  checkWpasync := false
  categoryInverted := 0
  categoryMask := 0
  categoryAnyofMask := pageIsPresent ||| pageIsSwapped
  returnMask := pageIsPresent ||| pageIsSwapped
  maxPages := 4
  maxPages_pos := by decide

/-- `doPagemapScan_eq`, for the first 16 pages. -/
theorem doPagemapScan_eq_demo :
    let r := doPagemapScan demoFacts demoArg 0 16 2 0 fun _ => demoRound
    ∃ reached, 0 ≤ reached ∧ reached ≤ 16 ∧
      r.vec = runsOf (reported demoFacts demoArg PagemapRead.demoSpace) 0 (reached - 0) ∧
      r.ret = (BitVec.ofNat 32 r.vec.length).toInt ∧ r.vec.length ≤ 2 ∧
      Runs.size r.vec ≤ demoArg.maxPages ∧
      (reached < 16 → r.walkEnd = reached ∧
        (reported demoFacts demoArg PagemapRead.demoSpace reached).isSome = true ∧
        (Runs.size r.vec = demoArg.maxPages ∨ r.vec.length = 2)) ∧
      (reached = 16 → r.walkEnd ≤ 16 ∧ (r.walkEnd = 16 ↔ r.vec.length ≤ min 512 2)) :=
  doPagemapScan_eq rfl (testWalk_ne_eperm rfl) (fun _ => demoRound_undisturbed 16) (by decide)
    (by decide) 0

end PagemapScan

end KernelPortfolio
