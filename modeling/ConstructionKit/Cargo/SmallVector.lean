import ConstructionKit.ProofKit.Blocks

/-! The vector with embedded storage of cargo (`cargo/include/cargo/small_vector.h`), many of them at
once in one memory.  The elements are values: to assign to raw storage is to construct there, and an
element that was moved from or destroyed leaves a cell without a value.  Allocations succeed. -/

namespace ConstructionKit.Cargo

open ProofKit

/-- Where storage is: embedded in a vector, on the heap, or a local array. -/
inductive Block where
  | embedded (v : Nat)
  | heap (b : Nat)
  | localArray
deriving DecidableEq, Repr

/-- `Capacity`, `Begin`, and the distance of `End` from it. -/
structure Vec where
  capacity : UInt64
  start : Block
  size : Nat
deriving DecidableEq, Repr

/-- The memory, how many heap blocks were allocated, and the vectors that live. -/
structure State (T : Type) where
  mem : Blocks Block (Option T)
  allocated : Nat
  vectors : Nat → Option Vec

variable {T : Type}

namespace State

variable (s : State T)

def setVec (v : Nat) (vec : Option Vec) : State T :=
  { s with vectors := Function.update s.vectors v vec }

def setBlock (block : Block) (cells : Option (List (Option T))) : State T :=
  { s with mem := s.mem.set block cells }

/-- `Allocator.alloc` -/
def alloc (count : UInt64) : State T × Block :=
  let block := .heap s.allocated
  ({ s.setBlock block (some (.replicate count.toNat none)) with allocated := s.allocated + 1 }, block)

/-- `Allocator.free`, which is undefined for what is not a live heap block. -/
def free (block : Block) : Option (State T) :=
  match block, s.mem block with
  | .heap _, some _ => some (s.setBlock block none)
  | _, _ => none

def store (block : Block) (offset : Nat) (xs : List (Option T)) : Option (State T) := do
  return { s with mem := ← s.mem.store block offset xs }

/-- The destructors of a range of elements. -/
def destroy (block : Block) (offset n : Nat) : Option (State T) :=
  s.store block offset (.replicate n none)

/-- A copy of a range of elements, or a move of it, which leaves no values behind.  The ranges may
overlap in the way that the algorithm allows. -/
def transfer (keep : Bool) (src : Block) (srcOffset n : Nat) (dest : Block)
    (destOffset : Nat) : Option (State T) := do
  let xs ← s.mem.load src srcOffset n
  let s ← (if keep then some s else s.destroy src srcOffset n)
  s.store dest destOffset xs

def copy : (src : Block) → (srcOffset n : Nat) → (dest : Block) →
    (destOffset : Nat) → Option (State T) := s.transfer true

def move : (src : Block) → (srcOffset n : Nat) → (dest : Block) →
    (destOffset : Nat) → Option (State T) := s.transfer false

/-- `std::swap_ranges` from the first elements of two blocks on. -/
def swapRanges (left : Block) (n : Nat) (right : Block) : Option (State T) := do
  let xs ← s.mem.load left 0 n
  let ys ← s.mem.load right 0 n
  (← s.store left 0 ys).store right 0 xs

end State

section Members

variable (N : UInt64) (s : State T) (v : Nat)

/-- Storage that is not embedded is freed. -/
def freeHeap (vec : Vec) : Option (State T) :=
  if N < vec.capacity then s.free vec.start else some s

/-! ### Construction -/

/-- The embedded storage of a vector that comes to life. -/
def addStorage : State T := s.setBlock (.embedded v) (some (.replicate N.toNat none))

def construct : State T := (addStorage N s v).setVec v (some ⟨N, .embedded v, 0⟩)

def moveConstruct (other : Nat) : Option (State T) := do
  let o ← s.vectors other
  let s := addStorage N s v
  if o.capacity ≤ N then
    let s ← s.move o.start 0 o.size (.embedded v) 0
    let s ← s.destroy o.start 0 o.size
    let s := s.setVec v (some ⟨o.capacity, .embedded v, o.size⟩)
    return s.setVec other (some ⟨o.capacity, .embedded other, 0⟩)
  else
    let s := s.setVec v (some ⟨o.capacity, o.start, o.size⟩)
    return s.setVec other (some ⟨N, .embedded other, 0⟩)

def clear : Option (State T) := do
  let vec ← s.vectors v
  let s ← s.destroy vec.start 0 vec.size
  return s.setVec v (some { vec with size := 0 })

/-- The destructor, after which the vector and its embedded storage are gone. -/
def destruct : Option (State T) := do
  let vec ← s.vectors v
  let s ← clear s v
  let s ← freeHeap N s vec
  return (s.setVec v none).setBlock (.embedded v) none

def moveAssign (other : Nat) : Option (State T) := do
  if v = other then return s
  let vec ← s.vectors v
  let o ← s.vectors other
  let s ← s.destroy vec.start 0 vec.size
  let capacity := if N < vec.capacity then o.capacity else vec.capacity
  let s ← freeHeap N s vec
  if o.capacity ≤ N then
    let s ← s.move o.start 0 o.size vec.start 0
    let s ← s.destroy o.start 0 o.size
    let s := s.setVec v (some ⟨capacity, vec.start, o.size⟩)
    return s.setVec other (some ⟨o.capacity, .embedded other, 0⟩)
  else
    let s := s.setVec v (some ⟨o.capacity, o.start, o.size⟩)
    return s.setVec other (some ⟨N, .embedded other, 0⟩)

/-! ### Capacity -/

def reserve (size : UInt64) : Option (State T) := do
  let vec ← s.vectors v
  if size ≤ vec.capacity then return s
  let (s, block) := s.alloc size
  let s ← s.move vec.start 0 vec.size block 0
  let s ← freeHeap N s vec
  return s.setVec v (some ⟨size, block, vec.size⟩)

def extend (count : UInt64) : Option (State T) := do
  let vec ← s.vectors v
  let count := count + UInt64.ofNat vec.size
  if count ≤ vec.capacity then return s
  reserve N s v (count * 2)

def shrinkToFit : Option (State T) := do
  let vec ← s.vectors v
  if vec.size ≤ N.toNat ∧ N < vec.capacity then
    let s ← s.move vec.start 0 vec.size (.embedded v) 0
    let s ← s.free vec.start
    return s.setVec v (some ⟨N, .embedded v, vec.size⟩)
  else return s

/-! ### Elements -/

/-- What the overloads of `insert` and `emplace` have in common: the elements behind the position are
copied or moved back, and the new ones are constructed.  An invalid position aborts. -/
def insertValues (keep : Bool) (pos : Nat) (values : List T) : Option (State T) := do
  let vec ← s.vectors v
  if vec.size < pos then none
  let count := UInt64.ofNat values.length
  let s ← extend N s v count
  let vec ← s.vectors v
  let s ← s.transfer keep vec.start pos (vec.size - pos) vec.start (pos + count.toNat)
  let s ← s.store vec.start pos (values.map some)
  return s.setVec v (some { vec with size := vec.size + count.toNat })

/-- The arguments that `insert` and `assign` share: copies of a value, a range, or a list. -/
inductive Filling (T : Type) where
  | count (n : UInt64) (x : T)
  | range (xs : List T)
  | list (xs : List T)

def Filling.values : Filling T → List T
  | .count n x => .replicate n.toNat x
  | .range xs => xs
  | .list xs => xs

/-- Copies of a value move the old elements by copying them. -/
def Filling.keeps : Filling T → Bool
  | .count _ _ => true
  | _ => false

/-- The overloads of `insert`, and `emplace`. -/
inductive Insertion (T : Type) where
  | copy (x : T)
  | move (x : T)
  | emplace (x : T)
  | fill (filling : Filling T)

def Insertion.values : Insertion T → List T
  | .copy x => [x]
  | .move x => [x]
  | .emplace x => [x]
  | .fill filling => filling.values

def Insertion.keeps : Insertion T → Bool
  | .copy _ => true
  | .fill filling => filling.keeps
  | _ => false

def insert (pos : Nat) (insertion : Insertion T) : Option (State T) :=
  insertValues N s v insertion.keeps pos insertion.values

def erase (pos : Nat) : Option (State T) := do
  let vec ← s.vectors v
  if vec.size ≤ pos then none
  let s ← s.move vec.start (pos + 1) (vec.size - (pos + 1)) vec.start pos
  let s ← s.destroy vec.start (vec.size - 1) 1
  return s.setVec v (some { vec with size := vec.size - 1 })

def eraseRange (first last : Nat) : Option (State T) := do
  let vec ← s.vectors v
  if vec.size < last then none
  let tailSize := vec.size - last
  let s ← s.move vec.start last tailSize vec.start first
  let s ← s.destroy vec.start (first + tailSize) (vec.size - (first + tailSize))
  return s.setVec v (some { vec with size := first + tailSize })

def assign (filling : Filling T) : Option (State T) := do
  let vec ← s.vectors v
  let s ← eraseRange s v 0 vec.size
  insertValues N s v filling.keeps 0 filling.values

/-- Both overloads of `push_back`, and `emplace_back`. -/
def pushBack (x : T) : Option (State T) := do
  let s ← extend N s v 1
  let vec ← s.vectors v
  let s ← s.store vec.start vec.size [some x]
  return s.setVec v (some { vec with size := vec.size + 1 })

def popBack : Option (State T) := do
  let vec ← s.vectors v
  if vec.size = 0 then none
  let s ← s.destroy vec.start (vec.size - 1) 1
  return s.setVec v (some { vec with size := vec.size - 1 })

/-- Both overloads of `resize`: without a value the new elements are `value_type()`. -/
def resize (count : UInt64) (x : T) : Option (State T) := do
  let s ← reserve N s v count
  let vec ← s.vectors v
  let s ← s.destroy vec.start count.toNat (vec.size - count.toNat)
  let s ← s.store vec.start vec.size (.replicate (count.toNat - vec.size) (some x))
  return s.setVec v (some { vec with size := count.toNat })

/-! ### Two vectors -/

def swap (other : Nat) : Option (State T) := do
  let vec ← s.vectors v
  let o ← s.vectors other
  if N = vec.capacity then
    let s := s.setBlock .localArray (some (.replicate N.toNat none))
    let s ← s.swapRanges vec.start vec.size .localArray
    let s ← s.swapRanges o.start o.size vec.start
    let s ← s.swapRanges .localArray vec.size o.start
    let s := s.setBlock .localArray none
    let s := s.setVec v (some { vec with size := o.size })
    return s.setVec other (some { o with size := vec.size })
  else
    let s := s.setVec v (some ⟨o.capacity, o.start, o.size⟩)
    return s.setVec other (some ⟨vec.capacity, vec.start, vec.size⟩)

/-- The clone is a new vector; it is moved to the caller. -/
def clone (other : Nat) : Option (State T) := do
  let vec ← s.vectors v
  let s := construct N s other
  let s ← (if N < vec.capacity then reserve N s other vec.capacity else some s)
  let o ← s.vectors other
  let s ← s.copy vec.start 0 vec.size o.start 0
  return s.setVec other (some { o with size := vec.size })

end Members

/-! ### Sequences of operations -/

inductive Op (T : Type) where
  | construct (v : Nat)
  | moveConstruct (v other : Nat)
  | destruct (v : Nat)
  | moveAssign (v other : Nat)
  | assign (v : Nat) (filling : Filling T)
  | reserve (v : Nat) (size : UInt64)
  | shrinkToFit (v : Nat)
  | clear (v : Nat)
  | insert (v pos : Nat) (insertion : Insertion T)
  | erase (v pos : Nat)
  | eraseRange (v first last : Nat)
  | pushBack (v : Nat) (x : T)
  | popBack (v : Nat)
  | resize (v : Nat) (count : UInt64) (x : T)
  | swap (v other : Nat)
  | clone (v other : Nat)

def step (N : UInt64) (s : State T) : Op T → Option (State T)
  | .construct v => some (construct N s v)
  | .moveConstruct v other => moveConstruct N s v other
  | .destruct v => destruct N s v
  | .moveAssign v other => moveAssign N s v other
  | .assign v filling => assign N s v filling
  | .reserve v size => reserve N s v size
  | .shrinkToFit v => shrinkToFit N s v
  | .clear v => clear s v
  | .insert v pos insertion => insert N s v pos insertion
  | .erase v pos => erase s v pos
  | .eraseRange v first last => eraseRange s v first last
  | .pushBack v x => pushBack N s v x
  | .popBack v => popBack s v
  | .resize v count x => resize N s v count x
  | .swap v other => swap N s v other
  | .clone v other => clone N s v other

def State.init : State T := ⟨fun _ => none, 0, fun _ => none⟩

end ConstructionKit.Cargo
