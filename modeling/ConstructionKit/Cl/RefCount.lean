import Mathlib.Logic.Function.Basic

/-! The reference counts of OpenCL objects (`cl/include/cl/base.h`): two atomic counters, each changed
by retry loops.  A client's step is one load or one compare-exchange.  What a client holds is not in
the source: it is what its successful calls gave it. -/

namespace ConstructionKit.Cl

/-- `cl::ref_count_type` -/
inductive RefCountType where
  | internal
  | external
deriving DecidableEq, Repr

/-- `CL_SUCCESS`, `CL_OUT_OF_RESOURCES`, and `invalid<object_type>()`. -/
inductive Result where
  | success
  | outOfResources
  | invalidObject
deriving DecidableEq, Repr

/-- The members of `cl::base`.  Within `releaseExternal`, `releaseInternal` is for the reference that
all external references have in common. -/
inductive Member where
  | retainExternal
  | releaseExternal
  | retainInternal
  | releaseInternal (shared : Bool)
deriving DecidableEq, Repr

def Member.counter : Member → RefCountType
  | .retainExternal => .external
  | .releaseExternal => .external
  | .retainInternal => .internal
  | .releaseInternal _ => .internal

/-- The body of the retry loop: the count to exchange for the last one, or the result to return. -/
def Member.next (last : UInt32) : Member → Except Result UInt32
  | .retainExternal =>
    if last = 0 then .error .invalidObject
    else if last + 1 < last then .error .outOfResources
    else .ok (last + 1)
  | .releaseExternal => if last = 0 then .error .invalidObject else .ok (last - 1)
  | .retainInternal => if last + 1 < last then .error .outOfResources else .ok (last + 1)
  | .releaseInternal _ => .ok (last - 1)

/-- Where a client is: before the load, before the compare-exchange, or before `delete object`. -/
inductive Pc where
  | idle
  | load (member : Member)
  | exchange (member : Member) (last next : UInt32)
  | delete
deriving DecidableEq, Repr

/-- A client, the references it holds, and what its last call returned. -/
structure Client where
  external : Nat
  internal : Nat
  pc : Pc
  result : Option Result
deriving DecidableEq, Repr

def Client.lose (c : Client) : RefCountType → Client
  | .external => { c with external := c.external - 1 }
  | .internal => { c with internal := c.internal - 1 }

def Client.gain (c : Client) : RefCountType → Client
  | .external => { c with external := c.external + 1 }
  | .internal => { c with internal := c.internal + 1 }

/-- The object: both counts, and the clients that deleted it. -/
structure Object (ι : Type) where
  refCountExternal : UInt32
  refCountInternal : UInt32
  clients : ι → Client
  deletedBy : List ι

/-- The steps of clients; an exchange may fail without a reason.  References may also be handed on. -/
inductive Action (ι : Type) where
  | call (i : ι) (member : Member)
  | load (i : ι)
  | exchange (i : ι) (spurious : Bool)
  | delete (i : ι)
  | give (i j : ι) (type : RefCountType)
deriving DecidableEq, Repr

variable {ι : Type} [DecidableEq ι]

namespace Object

variable (s : Object ι)

def setClient (i : ι) (c : Client) : Object ι :=
  { s with clients := Function.update s.clients i c }

@[simp] theorem setClient_self (i : ι) (c : Client) :
    (s.setClient i c).clients i = c := Function.update_self ..

theorem setClient_of_ne {i j : ι} (c : Client) (h : j ≠ i) :
    (s.setClient i c).clients j = s.clients j := Function.update_of_ne h ..

def count : RefCountType → UInt32
  | .external => s.refCountExternal
  | .internal => s.refCountInternal

def setCount (n : UInt32) : RefCountType → Object ι
  | .external => { s with refCountExternal := n }
  | .internal => { s with refCountInternal := n }

/-- The checks of the loop after the count was read. -/
def enter (i : ι) (member : Member) : Object ι :=
  let last := s.count member.counter
  let c := s.clients i
  match member.next last with
  | .error result => s.setClient i { c with pc := .idle, result := some result }
  | .ok next => s.setClient i { c with pc := .exchange member last next }

/-- What follows the exchange of the count. -/
def leave (c : Client) (next : UInt32) : Member → Client
  | .retainExternal => { c with external := c.external + 1, pc := .idle, result := some .success }
  | .releaseExternal =>
    if next = 0 then { c with external := c.external - 1, pc := .load (.releaseInternal true) }
    else { c with external := c.external - 1, pc := .idle, result := some .success }
  | .retainInternal => { c with internal := c.internal + 1, pc := .idle, result := some .success }
  | .releaseInternal shared =>
    let internal := if shared then c.internal else c.internal - 1
    if next = 0 then { c with internal, pc := .delete }
    else { c with internal, pc := .idle, result := some .success }

def give (i j : ι) (type : RefCountType) : Object ι :=
  let s := s.setClient i ((s.clients i).lose type)
  s.setClient j ((s.clients j).gain type)

def step : Action ι → Option (Object ι)
  | .call i member =>
    if (s.clients i).pc = .idle then
      some (s.setClient i { s.clients i with pc := .load member, result := none })
    else none
  | .load i =>
    match (s.clients i).pc with
    | .load member => some (s.enter i member)
    | _ => none
  | .exchange i spurious =>
    match (s.clients i).pc with
    | .exchange member last next =>
      if s.count member.counter = last ∧ spurious = false then
        some ((s.setCount next member.counter).setClient i (leave (s.clients i) next member))
      else some (s.enter i member)
    | _ => none
  | .delete i =>
    match (s.clients i).pc with
    | .delete =>
      some { s.setClient i { s.clients i with pc := .idle, result := some .success } with
        deletedBy := s.deletedBy ++ [i] }
    | _ => none
  | .give i j type => some (s.give i j type)

/-- The constructor `base(type)`; whoever made the object has its reference. -/
def create (type : RefCountType) (owner : ι) : Object ι where
  refCountExternal := if type = .external then 1 else 0
  refCountInternal := if type = .internal ∨ type = .external then 1 else 0
  clients i := if i = owner then .gain ⟨0, 0, .idle, none⟩ type else ⟨0, 0, .idle, none⟩
  deletedBy := []

end Object

end ConstructionKit.Cl
