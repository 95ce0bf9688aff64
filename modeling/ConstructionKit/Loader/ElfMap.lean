import ConstructionKit.ProofKit.Bytes

/-! ELF files that are mapped to memory (`loader/include/loader/elf.h`, `loader/source/elf.cpp`) on a
64-bit host.  Pointers of the host are words. -/

namespace ConstructionKit.Loader

open ProofKit

/-- `ElfMap::Mapping`: a section in the memory of the host and of the target. -/
structure Mapping where
  sectionIndex : UInt32
  writableAddress : UInt64
  stubAddress : UInt64
  writableEnd : UInt64
  targetAddress : UInt64
deriving DecidableEq, Repr

structure Callback where
  name : List UInt8
  targetAddress : UInt64
deriving DecidableEq, Repr

/-- A symbol of the file. -/
structure Symbol where
  name : Option (List UInt8)
  sectionIndex : UInt16
  value : UInt64
deriving DecidableEq, Repr

namespace SymbolSpecialSection

def undefined : UInt16 := 0x00
def absolute : UInt16 := 0xfff1

def isSpecial (sidx : UInt16) : Bool := sidx == undefined || sidx ≥ 0xff00

end SymbolSpecialSection

structure ElfMap where
  symbols : List Symbol
  sectionMappings : List Mapping
  callbacks : List Callback
deriving DecidableEq, Repr

namespace ElfMap

variable (map : ElfMap)

/-- The mapping of a section: the first one with its index. -/
def mapping (index : UInt32) : Option Mapping :=
  map.sectionMappings.find? (·.sectionIndex = index)

def addSectionMapping (sectionIndex : UInt32)
    (size writableAddress writableEnd targetAddress : UInt64) : ElfMap :=
  { map with sectionMappings := map.sectionMappings ++
      [⟨sectionIndex, writableAddress, writableAddress + size, writableEnd, targetAddress⟩] }

def getSectionTargetAddress (index : UInt32) : Option UInt64 :=
  (map.mapping index).map (·.targetAddress)

def getSectionWritableAddress (index : UInt32) : Option UInt64 :=
  (map.mapping index).map (·.writableAddress)

/-- The start and the end of the space for stubs. -/
def getRemainingStubSpace (sectionIndex : UInt32) : Option (UInt64 × UInt64) :=
  (map.mapping sectionIndex).map fun m => (m.stubAddress, m.writableEnd)

def getStubTargetAddress (sectionIndex : UInt32) : Option UInt64 :=
  (map.mapping sectionIndex).map fun m => m.targetAddress + (m.stubAddress - m.writableAddress)

/-- The first mapping of the section is changed. -/
def shrinkRemainingStubSpace (sectionIndex : UInt32) (bytes : UInt64) : ElfMap :=
  { map with sectionMappings :=
      match map.sectionMappings.findIdx? (·.sectionIndex = sectionIndex) with
      | some i => map.sectionMappings.modify i fun m => { m with stubAddress := m.stubAddress + bytes }
      | none => map.sectionMappings }

/-- Callbacks come before the symbols of the file.  An index behind the table of symbols is not to be
used; here it has no address. -/
def getSymbolTargetAddress (index : UInt32) : Option UInt64 :=
  match map.symbols[index.toNat]? with
  | none => none
  | some sym =>
    match map.callbacks.find? fun c => some c.name = sym.name with
    | some cb => some cb.targetAddress
    | none =>
      if sym.sectionIndex = SymbolSpecialSection.absolute then some sym.value
      else if SymbolSpecialSection.isSpecial sym.sectionIndex then none
      else (map.getSectionTargetAddress sym.sectionIndex.toUInt32).map (· + sym.value)

end ElfMap

/-- The memory of the host and the map that is being relocated. -/
structure State where
  memory : Memory
  map : ElfMap

/-- `cargo::read_little_endian` and `write_little_endian` at a pointer of the host. -/
def State.readWord (s : State) (address : UInt64) : UInt32 := s.memory.readWord address.toNat

def State.write (s : State) (address : UInt64) (width value : Nat) : State :=
  { s with memory := s.memory.write address.toNat (leBytes width value) }

def State.writeWord (s : State) (address : UInt64) (value : UInt32) : State :=
  { s with memory := s.memory.writeWord address.toNat value }

end ConstructionKit.Loader
