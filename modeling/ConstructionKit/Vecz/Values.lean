import Mathlib.Algebra.Group.Int.Units

/-! The integers and pointers that the vectorizer's stride analysis looks at, and their values in the
lanes of a vector. -/

namespace ConstructionKit.Vecz

/-! ### Expressions -/

/-- What a value is, besides its width. -/
inductive Class where
  | int
  | ptr
deriving DecidableEq, Repr

/-- The opcodes of `BinaryOperator` for integers. -/
inductive BinaryOp where
  | add
  | sub
  | mul
  | shl
  | ashr
  | and
  | or
  | xor
  | lshr
  | udiv
  | sdiv
  | urem
  | srem
deriving DecidableEq, Repr

/-- `TypeSize` -/
inductive TypeSize where
  | fixed (bytes : Nat)
  | scalable (bytes : Nat)
deriving DecidableEq, Repr

mutual

/-- Values of a width; pointers have `p` bits. -/
inductive Expr (p : Nat) : Class → Nat → Type where
  | const {w : Nat} (value : BitVec w) : Expr p .int w
  | argument (w name : Nat) : Expr p .int w
  /-- An instruction such as a load or a call, of which the operands are uniform. -/
  | uniform (w name : Nat) : Expr p .int w
  /-- An argument, a global variable or an instruction with uniform operands. -/
  | pointer (name : Nat) : Expr p .ptr p
  | globalId (w : Nat) : Expr p .int w
  | localId (w : Nat) : Expr p .int w
  | binary {w : Nat} (op : BinaryOp) (nuw : Bool) (lhs rhs : Expr p .int w) : Expr p .int w
  | trunc {v : Nat} (w : Nat) (h : w < v) (src : Expr p .int v) : Expr p .int w
  | zext {v : Nat} (w : Nat) (h : v < w) (src : Expr p .int v) : Expr p .int w
  | sext {v : Nat} (w : Nat) (h : v < w) (src : Expr p .int v) : Expr p .int w
  | ptrToInt (w : Nat) (src : Expr p .ptr p) : Expr p .int w
  | intToPtr {v : Nat} (src : Expr p .int v) : Expr p .ptr p
  /-- `BitCastInst` and `AddrSpaceCastInst`, which keep the address. -/
  | ptrCast (src : Expr p .ptr p) : Expr p .ptr p
  | select {k : Class} {w : Nat} (cond : Expr p .int 1) (lhs rhs : Expr p k w) : Expr p k w
  | gep (base : Expr p .ptr p) (indices : Indices p) : Expr p .ptr p

/-- The indices of a `GetElementPtrInst`: of an element, with the size of its type, or of a member of a
struct, which is constant. -/
inductive Indices (p : Nat) : Type where
  | nil : Indices p
  | element {w : Nat} (index : Expr p .int w) (size : TypeSize) (rest : Indices p) : Indices p
  | member (offset : Nat) (rest : Indices p) : Indices p

end

variable {p : Nat} {k : Class} {w : Nat} {localSize : BitVec 64}

mutual

/-- `UniformValueResult::isVarying`: the value depends on a work-item id. -/
def Expr.isVarying {k : Class} {w : Nat} : Expr p k w → Bool
  | .const _ | .argument .. | .uniform .. | .pointer _ => false
  | .globalId _ | .localId _ => true
  | .binary _ _ lhs rhs => lhs.isVarying || rhs.isVarying
  | .trunc _ _ src | .zext _ _ src | .sext _ _ src => src.isVarying
  | .ptrToInt _ src | .ptrCast src => src.isVarying
  | .intToPtr src => src.isVarying
  | .select cond lhs rhs => cond.isVarying || lhs.isVarying || rhs.isVarying
  | .gep base indices => base.isVarying || indices.isVarying

def Indices.isVarying : Indices p → Bool
  | .nil => false
  | .element index _ rest => index.isVarying || rest.isVarying
  | .member _ rest => rest.isVarying

end

mutual

/-- The predicate holds for all values that the expression has. -/
def Expr.Everywhere (P : {k : Class} → {w : Nat} → Expr p k w → Prop) {k : Class} {w : Nat} : Expr p k w → Prop
  | .const value => P (.const value)
  | .argument w name => P (.argument w name)
  | .uniform w name => P (.uniform w name)
  | .pointer name => P (.pointer name)
  | .globalId w => P (.globalId w)
  | .localId w => P (.localId w)
  | .binary op nuw lhs rhs => P (.binary op nuw lhs rhs) ∧ lhs.Everywhere P ∧ rhs.Everywhere P
  | .trunc w h src => P (.trunc w h src) ∧ src.Everywhere P
  | .zext w h src => P (.zext w h src) ∧ src.Everywhere P
  | .sext w h src => P (.sext w h src) ∧ src.Everywhere P
  | .ptrToInt w src => P (.ptrToInt w src) ∧ src.Everywhere P
  | .intToPtr src => P (.intToPtr src) ∧ src.Everywhere P
  | .ptrCast src => P (.ptrCast src) ∧ src.Everywhere P
  | .select cond lhs rhs =>
    P (.select cond lhs rhs) ∧ cond.Everywhere P ∧ lhs.Everywhere P ∧ rhs.Everywhere P
  | .gep base indices => P (.gep base indices) ∧ base.Everywhere P ∧ indices.Everywhere P

def Indices.Everywhere (P : {k : Class} → {w : Nat} → Expr p k w → Prop) : Indices p → Prop
  | .nil => True
  | .element index _ rest => index.Everywhere P ∧ rest.Everywhere P
  | .member _ rest => rest.Everywhere P

end

variable {F P Q : {k : Class} → {w : Nat} → Expr p k w → Prop}

/-- The predicate holds for all values below the top of an expression. -/
def Expr.Below (P : {k : Class} → {w : Nat} → Expr p k w → Prop) {k : Class} {w : Nat} : Expr p k w → Prop
  | .const _ | .argument .. | .uniform .. | .pointer _ | .globalId _ | .localId _ => True
  | .binary _ _ lhs rhs => lhs.Everywhere P ∧ rhs.Everywhere P
  | .trunc _ _ src | .zext _ _ src | .sext _ _ src => src.Everywhere P
  | .ptrToInt _ src | .ptrCast src => src.Everywhere P
  | .intToPtr src => src.Everywhere P
  | .select cond lhs rhs => cond.Everywhere P ∧ lhs.Everywhere P ∧ rhs.Everywhere P
  | .gep base indices => base.Everywhere P ∧ indices.Everywhere P

theorem Expr.everywhere_iff (e : Expr p k w) : e.Everywhere P ↔ P e ∧ e.Below P := by
  cases e with
  | const | argument | uniform | pointer | globalId | localId => exact (and_iff_left trivial).symm
  | binary | trunc | zext | sext | ptrToInt | intToPtr | ptrCast | select | gep => exact Iff.rfl

theorem Expr.Everywhere.self {e : Expr p k w} (h : e.Everywhere P) : P e := (e.everywhere_iff.1 h).1

theorem Expr.everywhere_congr_of_below
    (h : ∀ {k : Class} {w : Nat} (e : Expr p k w), e.Everywhere F → e.Below P → (P e ↔ Q e))
    (e : Expr p k w) (hF : e.Everywhere F) (hbelow : e.Below P ↔ e.Below Q) :
    e.Everywhere P ↔ e.Everywhere Q := by
  rw [e.everywhere_iff, e.everywhere_iff]
  constructor
  · rintro ⟨hP, hb⟩
    exact ⟨(h e hF hb).1 hP, hbelow.1 hb⟩
  · rintro ⟨hQ, hb⟩
    exact ⟨(h e hF (hbelow.2 hb)).2 hQ, hbelow.2 hb⟩

mutual

/-- Two predicates agree on all values of an expression if they do wherever the first one holds below. -/
theorem Expr.everywhere_congr
    (h : ∀ {k : Class} {w : Nat} (e : Expr p k w), e.Everywhere F → e.Below P → (P e ↔ Q e))
    {k : Class} {w : Nat} : ∀ e : Expr p k w, e.Everywhere F → (e.Everywhere P ↔ e.Everywhere Q)
  | .const _, hF | .argument .., hF | .uniform .., hF | .pointer _, hF | .globalId _, hF
  | .localId _, hF => Expr.everywhere_congr_of_below h _ hF Iff.rfl
  | .binary _ _ lhs rhs, hF =>
    Expr.everywhere_congr_of_below h _ hF
      (and_congr (Expr.everywhere_congr h lhs hF.2.1) (Expr.everywhere_congr h rhs hF.2.2))
  | .trunc _ _ src, hF | .zext _ _ src, hF | .sext _ _ src, hF | .ptrToInt _ src, hF
  | .intToPtr src, hF | .ptrCast src, hF =>
    Expr.everywhere_congr_of_below h _ hF (Expr.everywhere_congr h src hF.2)
  | .select cond lhs rhs, hF =>
    Expr.everywhere_congr_of_below h _ hF (and_congr (Expr.everywhere_congr h cond hF.2.1)
      (and_congr (Expr.everywhere_congr h lhs hF.2.2.1) (Expr.everywhere_congr h rhs hF.2.2.2)))
  | .gep base indices, hF =>
    Expr.everywhere_congr_of_below h _ hF
      (and_congr (Expr.everywhere_congr h base hF.2.1) (Indices.everywhere_congr h indices hF.2.2))

theorem Indices.everywhere_congr
    (h : ∀ {k : Class} {w : Nat} (e : Expr p k w), e.Everywhere F → e.Below P → (P e ↔ Q e)) :
    ∀ indices : Indices p, indices.Everywhere F → (indices.Everywhere P ↔ indices.Everywhere Q)
  | .nil, _ => Iff.rfl
  | .element index _ rest, hF =>
    and_congr (Expr.everywhere_congr h index hF.1) (Indices.everywhere_congr h rest hF.2)
  | .member _ rest, hF => Indices.everywhere_congr h rest hF

end

section Decidable

variable (dec : {k : Class} → {w : Nat} → (e : Expr p k w) → Decidable (P e))

mutual

def Expr.decidableEverywhere {k : Class} {w : Nat} : (e : Expr p k w) → Decidable (e.Everywhere P)
  | .const value => dec (.const value)
  | .argument w name => dec (.argument w name)
  | .uniform w name => dec (.uniform w name)
  | .pointer name => dec (.pointer name)
  | .globalId w => dec (.globalId w)
  | .localId w => dec (.localId w)
  | .binary _ _ lhs rhs =>
    @instDecidableAnd _ _ (dec _) (@instDecidableAnd _ _ lhs.decidableEverywhere rhs.decidableEverywhere)
  | .trunc _ _ src => @instDecidableAnd _ _ (dec _) src.decidableEverywhere
  | .zext _ _ src => @instDecidableAnd _ _ (dec _) src.decidableEverywhere
  | .sext _ _ src => @instDecidableAnd _ _ (dec _) src.decidableEverywhere
  | .ptrToInt _ src => @instDecidableAnd _ _ (dec _) src.decidableEverywhere
  | .intToPtr src => @instDecidableAnd _ _ (dec _) src.decidableEverywhere
  | .ptrCast src => @instDecidableAnd _ _ (dec _) src.decidableEverywhere
  | .select cond lhs rhs =>
    @instDecidableAnd _ _ (dec _) (@instDecidableAnd _ _ cond.decidableEverywhere
      (@instDecidableAnd _ _ lhs.decidableEverywhere rhs.decidableEverywhere))
  | .gep base indices =>
    @instDecidableAnd _ _ (dec _) (@instDecidableAnd _ _ base.decidableEverywhere indices.decidableEverywhere)

def Indices.decidableEverywhere : (indices : Indices p) → Decidable (indices.Everywhere P)
  | .nil => .isTrue trivial
  | .element index _ rest => @instDecidableAnd _ _ index.decidableEverywhere rest.decidableEverywhere
  | .member _ rest => rest.decidableEverywhere

end

end Decidable

/-! ### Lanes -/

/-- A vector of work-items: how many lanes it has, the ids in its first lane, and the uniform values.
The local size is zero if it is not known. -/
structure Run (p : Nat) (localSize : BitVec 64) where
  lanes : Nat
  argument : (w : Nat) → Nat → BitVec w
  uniform : (w : Nat) → Nat → BitVec w
  pointer : Nat → BitVec p
  globalId : Nat
  localId : Nat
  vscale : Nat
  localId_le : localSize ≠ 0#64 → localId + lanes ≤ localSize.toNat

def TypeSize.bytes (vscale : Nat) : TypeSize → Nat
  | .fixed bytes => bytes
  | .scalable bytes => vscale * bytes

def BinaryOp.eval (x y : BitVec w) : BinaryOp → BitVec w
  | .add => x + y
  | .sub => x - y
  | .mul => x * y
  | .shl => x <<< y.toNat
  | .ashr => x.sshiftRight y.toNat
  | .and => x &&& y
  | .or => x ||| y
  | .xor => x ^^^ y
  | .lshr => x >>> y.toNat
  | .udiv => x.udiv y
  | .sdiv => x.sdiv y
  | .urem => x.umod y
  | .srem => x.srem y

mutual

/-- The value in a lane. -/
def Expr.eval (run : Run p localSize) (lane : Nat) {k : Class} {w : Nat} : Expr p k w → BitVec w
  | .const value => value
  | .argument w name => run.argument w name
  | .uniform w name => run.uniform w name
  | .pointer name => run.pointer name
  | .globalId w => .ofNat w (run.globalId + lane)
  | .localId w => .ofNat w (run.localId + lane)
  | .binary op _ lhs rhs => op.eval (lhs.eval run lane) (rhs.eval run lane)
  | .trunc w _ src => (src.eval run lane).setWidth w
  | .zext w _ src => (src.eval run lane).setWidth w
  | .sext w _ src => (src.eval run lane).signExtend w
  | .ptrToInt w src => (src.eval run lane).setWidth w
  | .intToPtr src => (src.eval run lane).setWidth p
  | .ptrCast src => src.eval run lane
  | .select cond lhs rhs => if cond.eval run lane = 1#1 then lhs.eval run lane else rhs.eval run lane
  | .gep base indices => base.eval run lane + indices.offset run lane

/-- The bytes that indices add to an address. -/
def Indices.offset (run : Run p localSize) (lane : Nat) : Indices p → BitVec p
  | .nil => 0#p
  | .element index size rest =>
    .ofInt p ((index.eval run lane).toInt * size.bytes run.vscale) + rest.offset run lane
  | .member offset rest => .ofNat p offset + rest.offset run lane

end

/-! ### Overflow -/

/-- An operation is exact on signed integers, and on unsigned ones if it says so. -/
def BinaryOp.Exact (nuw : Bool) (x y : BitVec w) : BinaryOp → Prop
  | .add => (x + y).toInt = x.toInt + y.toInt ∧ (nuw → (x + y).toNat = x.toNat + y.toNat)
  | .sub => (x - y).toInt = x.toInt - y.toInt ∧ (nuw → (x - y).toNat + y.toNat = x.toNat)
  | .mul => (x * y).toInt = x.toInt * y.toInt ∧ (nuw → (x * y).toNat = x.toNat * y.toNat)
  | .shl => y.toNat < w ∧ (x <<< y.toNat).toInt = x.toInt * 2 ^ y.toNat ∧
      (nuw → (x <<< y.toNat).toNat = x.toNat * 2 ^ y.toNat)
  | .ashr | .lshr => y.toNat < w
  | _ => True

/-- Nothing overflows at the top of an expression: the ids of the lanes follow each other, operations are
exact, and no bits that matter are truncated. -/
def Expr.Fits (run : Run p localSize) {k : Class} {w : Nat} : Expr p k w → Prop
  | .globalId w => ∀ lane < run.lanes,
    (BitVec.ofNat w (run.globalId + lane)).toInt = (BitVec.ofNat w run.globalId).toInt + lane
  | .localId w => ∀ lane < run.lanes,
    (BitVec.ofNat w (run.localId + lane)).toInt = (BitVec.ofNat w run.localId).toInt + lane
  | .binary op nuw lhs rhs => ∀ lane < run.lanes, op.Exact nuw (lhs.eval run lane) (rhs.eval run lane)
  | .trunc w _ src => ∀ lane < run.lanes,
    ((src.eval run lane).setWidth w).toInt = (src.eval run lane).toInt
  | _ => True

instance {nuw : Bool} {x y : BitVec w} : ∀ op : BinaryOp, Decidable (op.Exact nuw x y)
  | .add | .sub | .mul | .shl => inferInstanceAs (Decidable (_ ∧ _))
  | .ashr | .lshr => inferInstanceAs (Decidable (_ < _))
  | .and | .or | .xor | .udiv | .sdiv | .urem | .srem => .isTrue trivial

instance {run : Run p localSize} : ∀ e : Expr p k w, Decidable (e.Fits run)
  | .globalId _ | .localId _ | .binary .. | .trunc .. => inferInstanceAs (Decidable (∀ lane < _, _))
  | .const _ | .argument .. | .uniform .. | .pointer _ | .zext .. | .sext .. | .ptrToInt .. => .isTrue trivial
  | .intToPtr _ | .ptrCast _ | .select .. | .gep .. => .isTrue trivial

/-- No operation of an expression overflows in any lane. -/
def Expr.NoOverflow (run : Run p localSize) (e : Expr p k w) : Prop := e.Everywhere (Expr.Fits run)

instance {run : Run p localSize} (e : Expr p k w) : Decidable (e.NoOverflow run) :=
  e.decidableEverywhere inferInstance

mutual

/-- A value that does not depend on an id is the same in all lanes. -/
theorem Expr.eval_eq (run : Run p localSize) (i j : Nat) {k : Class} {w : Nat} : ∀ e : Expr p k w,
    e.isVarying = false → e.eval run i = e.eval run j
  | .const _, _ | .argument .., _ | .uniform .., _ | .pointer _, _ => rfl
  | .binary _ _ lhs rhs, h => by
    rw [Expr.isVarying, Bool.or_eq_false_iff] at h
    rw [Expr.eval, Expr.eval, Expr.eval_eq run i j lhs h.1, Expr.eval_eq run i j rhs h.2]
  | .trunc _ _ src, h | .zext _ _ src, h | .sext _ _ src, h | .ptrToInt _ src, h
  | .intToPtr src, h | .ptrCast src, h => by
    rw [Expr.eval, Expr.eval, Expr.eval_eq run i j src h]
  | .select cond lhs rhs, h => by
    rw [Expr.isVarying, Bool.or_eq_false_iff, Bool.or_eq_false_iff] at h
    rw [Expr.eval, Expr.eval, Expr.eval_eq run i j cond h.1.1, Expr.eval_eq run i j lhs h.1.2, Expr.eval_eq run i j rhs h.2]
  | .gep base indices, h => by
    rw [Expr.isVarying, Bool.or_eq_false_iff] at h
    rw [Expr.eval, Expr.eval, Expr.eval_eq run i j base h.1, Indices.offset_eq run i j indices h.2]

theorem Indices.offset_eq (run : Run p localSize) (i j : Nat) : ∀ indices : Indices p,
    indices.isVarying = false → indices.offset run i = indices.offset run j
  | .nil, _ => rfl
  | .element index _ rest, h => by
    rw [Indices.isVarying, Bool.or_eq_false_iff] at h
    rw [Indices.offset, Indices.offset, Expr.eval_eq run i j index h.1, Indices.offset_eq run i j rest h.2]
  | .member _ rest, h => by rw [Indices.offset, Indices.offset, Indices.offset_eq run i j rest h]

end

end ConstructionKit.Vecz
