/-! Types of `compiler/module.h` that the runtime reads: kinds of kernel arguments. -/

namespace ConstructionKit.Compiler

/-- `enum class ArgumentKind : uint32_t`.  A cast from an integer may produce any 32-bit value, so
the type is the underlying word. -/
structure ArgumentKind where
  value : UInt32
deriving DecidableEq, Repr

/-- The kind of an argument that has not been set. -/
def ArgumentKind.unknown : ArgumentKind := ⟨0⟩

def ArgumentKind.pointer : ArgumentKind := ⟨1⟩

end ConstructionKit.Compiler
