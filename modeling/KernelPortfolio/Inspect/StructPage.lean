import KernelPortfolio.Inspect.Kernel

/-!
# What the page inspectors see and do

These inspectors pin one page of a process with `get_user_pages_remote` and print words of its
`struct page`. What they do is a list of `PinEvent`s.
-/

namespace KernelPortfolio

/-- The words of a `struct page` that the inspectors read, and where it is. -/
structure StructPage where
  addr : U64
  flags : U64
  /-- `compound_head`, which is `lru.next` as well. -/
  word1 : U64
  /-- `lru.prev`, whose low half is `mlock_count` as well. -/
  lruPrev : U64
  mapping : U64
  index : U64
  deriving DecidableEq, Repr

/-- A word of a `struct page`. -/
inductive PageField where
  | flags
  | word1
  | lruPrev
  | mapping
  | index
  deriving DecidableEq, Repr

/-- What such an inspector holds: a reference to a `struct pid`, a read lock of an mm, or a pinned
page. -/
inductive PinResource where
  | pid (addr : U64)
  | mmapLock (addr : U64)
  | page (addr : U64)
  deriving DecidableEq, Repr

/-- What such an inspector does; it prints lines of the type `α`. -/
inductive PinEvent (α : Type) where
  /-- It takes or drops a resource. -/
  | ref (op : Ledger.Op PinResource)
  /-- It calls `get_user_pages_remote` for the page at an address of the mm, or with a NULL mm. -/
  | gup (mm : Option Mm) (addr : U64)
  /-- It reads a word of the `struct page` at an address. -/
  | look (page : U64) (f : PageField)
  /-- It prints a line. -/
  | say (line : α)
  deriving DecidableEq, Repr

variable {α : Type}

/-- The operation on a resource that an event is. -/
def PinEvent.ref? : PinEvent α → Option (Ledger.Op PinResource)
  | ref op => some op
  | _ => none

/-- The operations of a list of events on resources. -/
def pinRefs (t : List (PinEvent α)) : List (Ledger.Op PinResource) := t.filterMap PinEvent.ref?

/-- The operations of two lists of events. -/
@[simp]
theorem pinRefs_append (s t : List (PinEvent α)) : pinRefs (s ++ t) = pinRefs s ++ pinRefs t :=
  List.filterMap_append

@[simp]
theorem pinRefs_nil : pinRefs ([] : List (PinEvent α)) = [] := rfl

@[simp]
theorem pinRefs_ref (op : Ledger.Op PinResource) (t : List (PinEvent α)) :
    pinRefs (.ref op :: t) = op :: pinRefs t := rfl

@[simp]
theorem pinRefs_gup (mm : Option Mm) (addr : U64) (t : List (PinEvent α)) :
    pinRefs (.gup mm addr :: t) = pinRefs t := rfl

@[simp]
theorem pinRefs_look (page : U64) (f : PageField) (t : List (PinEvent α)) :
    pinRefs (.look page f :: t) = pinRefs t := rfl

@[simp]
theorem pinRefs_say (line : α) (t : List (PinEvent α)) : pinRefs (.say line :: t) = pinRefs t := rfl

/-- Events that are operations on resources only. -/
theorem pinRefs_map_ref (ops : List (Ledger.Op PinResource)) :
    pinRefs (ops.map (.ref : _ → PinEvent α)) = ops := by
  unfold pinRefs
  rw [List.filterMap_map]
  exact List.filterMap_some

end KernelPortfolio
