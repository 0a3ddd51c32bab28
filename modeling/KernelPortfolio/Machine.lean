import KernelPortfolio.Lib.BitField

/-!
# The machine that the modules run on

`unsigned long` is a 64-bit word, and physical memory is a word for every 8-byte-aligned physical
address. The kernel reads it through the direct map: `__va` adds `page_offset_base`, and a load
through such a pointer takes it away again (`Machine.index_va`).
-/

namespace KernelPortfolio

/-- `unsigned long`. -/
abbrev U64 := BitVec 64

/-- `int`. -/
abbrev CInt := BitVec 32

/-- What a module reads of the machine. -/
structure Machine where
  /-- `page_offset_base`, where the direct map starts. -/
  pageOffsetBase : U64
  /-- The word at an 8-byte-aligned physical address. -/
  phys : U64 → U64

/-- `__va`: the direct-map address of a physical address. -/
def Machine.va (m : Machine) (x : U64) : U64 := x + m.pageOffsetBase

/-- `*ptr`, for a pointer to `unsigned long` into the direct map. -/
def Machine.load (m : Machine) (ptr : U64) : U64 := m.phys (ptr - m.pageOffsetBase)

/-- `table[i]`, for a pointer to `unsigned long` into the direct map. -/
def Machine.index (m : Machine) (table i : U64) : U64 := m.load (table + 8 * i)

/-- An entry read through the direct map is the word of physical memory. -/
@[simp]
theorem Machine.index_va (m : Machine) (x i : U64) : m.index (m.va x) i = m.phys (x + 8 * i) := by
  unfold Machine.index Machine.load Machine.va
  congr 1
  rw [BitVec.add_assoc, BitVec.add_comm m.pageOffsetBase, ← BitVec.add_assoc,
    BitVec.add_sub_cancel]

/-- The byte at a physical address, in the machine's little-endian order. -/
def Machine.byte (m : Machine) (x : U64) : BitVec 8 :=
  (m.phys (x &&& ~~~7) >>> (8 * (x &&& 7).toNat)).setWidth 8

/-- The byte behind a pointer into the direct map. -/
def Machine.loadByte (m : Machine) (ptr : U64) : BitVec 8 := m.byte (ptr - m.pageOffsetBase)

/-- A machine whose memory holds the listed words, each at its physical address, and zeros. -/
def Machine.ofEntries (entries : List (U64 × U64)) : Machine where
  pageOffsetBase := 0xFFFF888000000000
  phys a := (entries.lookup a).getD 0

end KernelPortfolio
