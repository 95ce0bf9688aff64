import Mathlib.Algebra.Group.Nat.Defs

/-! The allocator of device memory (`hal/include/allocator.h`).  Addresses and sizes have 64 bits. -/

namespace ConstructionKit.Hal

structure Block where
  addr : UInt64
  isFree : Bool
deriving DecidableEq, Repr

/-- The set of blocks is a list that is ordered by address. -/
structure Allocator where
  addrLo : UInt64
  addrHi : UInt64
  blocks : List Block
deriving DecidableEq, Repr

/-! ### The ordered set -/

/-- `std::set::insert`: a block of the same address stays. -/
def insertBlock (block : Block) : List Block → List Block
  | [] => [block]
  | b :: blocks =>
    if block.addr < b.addr then block :: b :: blocks
    else if b.addr < block.addr then b :: insertBlock block blocks
    else b :: blocks

def eraseBlock (addr : UInt64) (blocks : List Block) : List Block :=
  blocks.eraseP (·.addr = addr)

/-- A block ends where the next one starts. -/
def blockEnd (addrHi : UInt64) : List Block → UInt64
  | [] => addrHi
  | next :: _ => next.addr

namespace Allocator

def reset (a : Allocator) : Allocator := { a with blocks := [⟨a.addrLo, true⟩] }

/-- The constructor. -/
def create (base size : UInt64) : Allocator := reset ⟨base, base + size, []⟩

/-- The loop of `alloc`: the start of the allocation and the block that it is taken from.  Allocations
are made at the end of a block. -/
def findSpace (addrHi size alignment : UInt64) : List Block → Option (UInt64 × Block)
  | [] => none
  | block :: next =>
    if !block.isFree then findSpace addrHi size alignment next
    else
      let stop := blockEnd addrHi next
      let underflow := stop < size
      let start := (stop - size) &&& ~~~(alignment - 1)
      if start < block.addr ∨ underflow then findSpace addrHi size alignment next
      else some (start, block)

/-- The address 0 is a failure. -/
def alloc (a : Allocator) (size alignment : UInt64) : UInt64 × Allocator :=
  let size := if size = 0 then 1 else size
  match findSpace a.addrHi size alignment a.blocks with
  | none => (0, a)
  | some (start, block) =>
    let blocks := if start = block.addr then eraseBlock block.addr a.blocks else a.blocks
    (start, { a with blocks := insertBlock ⟨start, false⟩ blocks })

/-- The loop of `consolidate` from a block on. -/
def consolidateFrom (block : Block) : List Block → List Block
  | [] => [block]
  | next :: blocks =>
    if !block.isFree || !next.isFree then block :: consolidateFrom next blocks
    else consolidateFrom block blocks

def consolidate : List Block → List Block
  | [] => []
  | block :: blocks => consolidateFrom block blocks

def free (a : Allocator) (ptr : UInt64) : Allocator :=
  if ptr = 0 then a
  else
    match a.blocks.find? (·.addr = ptr) with
    | none => a
    | some _ =>
      { a with blocks := consolidate (insertBlock ⟨ptr, true⟩ (eraseBlock ptr a.blocks)) }

def availableFrom (addrHi : UInt64) : List Block → UInt64 → UInt64
  | [], sum => sum
  | block :: next, sum =>
    availableFrom addrHi next
      (if block.isFree then sum + (blockEnd addrHi next - block.addr) else sum)

def available (a : Allocator) : UInt64 := availableFrom a.addrHi a.blocks 0

end Allocator

/-! ### Histories -/

/-- What was asked for, and where it is. -/
structure Allocation where
  ptr : UInt64
  size : UInt64
  alignment : UInt64
deriving DecidableEq, Repr

/-- An allocator and the allocations that were made and not freed. -/
structure Session where
  allocator : Allocator
  live : List Allocation
deriving DecidableEq, Repr

inductive Op where
  | alloc (size alignment : UInt64)
  | free (ptr : UInt64)
deriving DecidableEq, Repr

def Session.create (base size : UInt64) : Session := ⟨.create base size, []⟩

def Session.step (s : Session) : Op → Option Session
  | .alloc size alignment =>
    let (ptr, allocator) := s.allocator.alloc size alignment
    some ⟨allocator, if ptr = 0 then s.live else ⟨ptr, size, alignment⟩ :: s.live⟩
  | .free ptr => some ⟨s.allocator.free ptr, s.live.filter (·.ptr ≠ ptr)⟩

def IsPowerOfTwo (alignment : UInt64) : Prop := ∃ k < 64, alignment.toNat = 2 ^ k

/-- Alignments are powers of two, and what is freed is live. -/
def Session.Allowed (s : Session) : Op → Prop
  | .alloc _ alignment => IsPowerOfTwo alignment
  | .free ptr => ptr ∈ s.live.map (·.ptr)

instance (alignment : UInt64) : Decidable (IsPowerOfTwo alignment) :=
  inferInstanceAs (Decidable (∃ k < 64, alignment.toNat = 2 ^ k))

instance (s : Session) : (op : Op) → Decidable (s.Allowed op)
  | .alloc _ alignment => inferInstanceAs (Decidable (IsPowerOfTwo alignment))
  | .free ptr => inferInstanceAs (Decidable (ptr ∈ s.live.map (·.ptr)))

end ConstructionKit.Hal
