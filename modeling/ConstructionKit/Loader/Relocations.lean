import ConstructionKit.Loader.ElfMap

/-! Relocations (`loader/source/relocations.cpp`). -/

namespace ConstructionKit.Loader

open ProofKit

structure Relocation where
  type : UInt32
  symbolIndex : UInt32
  offset : UInt64
  addend : Int64
  sectionIndex : UInt32
deriving DecidableEq, Repr

/-- `Relocation::StubMap`.  Nothing is ever added to it. -/
structure StubEntry where
  value : UInt64
  target : UInt64
deriving DecidableEq, Repr

abbrev StubMap := List StubEntry

def StubMap.getTarget (stubs : StubMap) (value : UInt64) : Option UInt64 :=
  (stubs.find? (·.value = value)).map (·.target)

/-- The `int` that `(1 << size) - 1` is. -/
def lowMask (size : UInt32) : UInt32 := (1 <<< size) - 1

def getBitRange (value : UInt64) (first : UInt64) (size : UInt32) : UInt64 :=
  (value >>> first) &&& (lowMask size).toUInt64

def getBitRange32 (value first size : UInt32) : UInt32 := (value >>> first) &&& lowMask size

def setBitRange (value subvalue first size : UInt32) : UInt32 :=
  let mask := lowMask size <<< first
  (value &&& ~~~mask) ||| ((subvalue <<< first) &&& mask)

/-! ### Where a relocation is made -/

/-- The address of the symbol with the addend, the place of the relocation in the memory of the host,
and its address on the target. -/
structure Site (α : Type) where
  symbolTargetAddress : α
  relocationAddress : UInt64
  relocationTargetAddress : α
deriving DecidableEq, Repr

/-- `none` is a failure.  Zero addresses count as missing. -/
def Relocation.site (r : Relocation) (map : ElfMap) (offset : UInt64) : Option (Site UInt64) :=
  let symbolTargetAddress := (map.getSymbolTargetAddress r.symbolIndex).getD 0
  let relocatedSectionBase := (map.getSectionTargetAddress r.sectionIndex).getD 0
  let relocatedSectionBegin := (map.getSectionWritableAddress r.sectionIndex).getD 0
  if symbolTargetAddress = 0 ∨ relocatedSectionBase = 0 ∨ relocatedSectionBegin = 0 then none
  else some ⟨symbolTargetAddress + r.addend.toUInt64, relocatedSectionBegin + offset,
    relocatedSectionBase + offset⟩

/-- Addresses are cut to 32 bits before they are compared to zero. -/
def Relocation.site32 (r : Relocation) (map : ElfMap) : Option (Site UInt32) :=
  let relocationOffset := r.offset.toUInt32
  let symbolTargetAddress := ((map.getSymbolTargetAddress r.symbolIndex).getD 0).toUInt32
  let relocatedSectionBase := ((map.getSectionTargetAddress r.sectionIndex).getD 0).toUInt32
  let relocatedSectionBegin := (map.getSectionWritableAddress r.sectionIndex).getD 0
  if symbolTargetAddress = 0 ∨ relocatedSectionBase = 0 ∨ relocatedSectionBegin = 0 then none
  else some ⟨symbolTargetAddress + r.addend.toInt32.toUInt32,
    relocatedSectionBegin + relocationOffset.toUInt64, relocatedSectionBase + relocationOffset⟩

/-! ### Stubs -/

/-- The words of a stub are written one after the other. -/
def State.writeWords (s : State) (address : UInt64) : List UInt32 → State
  | [] => s
  | word :: words => (s.writeWord address word).writeWords (address + 4) words

/-- `ldr pc, [pc, #-4]` and the address. -/
def armStub (target : UInt32) : List UInt32 := [0xe51ff004, target]

/-- Four moves to `ip0` and a branch to it. -/
def aarch64Stub (target : UInt64) : List UInt32 :=
  [setBitRange 0xd2e00010 (getBitRange target 48 16).toUInt32 5 16,
    setBitRange 0xf2c00010 (getBitRange target 32 16).toUInt32 5 16,
    setBitRange 0xf2a00010 (getBitRange target 16 16).toUInt32 5 16,
    setBitRange 0xf2800010 (target &&& 0xffff).toUInt32 5 16,
    0xd61f0200]

/-- The space that `getOrCreateStub` writes a new stub to.  It asks for 4 bytes. -/
def ElfMap.stubSpace (map : ElfMap) (sectionIndex : UInt32) : Option UInt64 :=
  match map.getRemainingStubSpace sectionIndex with
  | none => none
  | some (start, stop) => if stop - start < 4 then none else some start

/-- What is common to both machines: the address of a stub that is known, or the one of a new stub of
some words, some bytes behind its start, or `none`. -/
def getOrCreateStub (r : Relocation) (stubs : StubMap) (target : UInt64) (words : List UInt32)
    (entry : UInt64) (s : State) : Option UInt64 × State :=
  match stubs.getTarget target with
  | some found => (some found, s)
  | none =>
    match s.map.stubSpace r.sectionIndex with
    | none => (none, s)
    | some start =>
      let bytes := UInt64.ofNat (4 * words.length)
      ((s.map.getStubTargetAddress r.sectionIndex).map (· + entry),
        { s.writeWords start words with map := s.map.shrinkRemainingStubSpace r.sectionIndex bytes })

/-! ### Results -/

/-- The result of a relocation, and the state behind it. -/
abbrev Resolved := Bool × State

/-- A field is written if its value survived the cut to the width of the field. -/
def writeIf (s : State) (fits : Bool) (address : UInt64) (width value : Nat) : Resolved :=
  if fits then (true, s.write address width value) else (false, s)

/-- The value has to be the sign extension of what is left of it. -/
def writeSigned8 (s : State) (address realValue : UInt64) : Resolved :=
  let truncValue := realValue.toUInt8
  writeIf s (truncValue.toInt8.toInt64 = realValue.toInt64) address 1 truncValue.toNat

def writeSigned16 (s : State) (address realValue : UInt64) : Resolved :=
  let truncValue := realValue.toUInt16
  writeIf s (truncValue.toInt16.toInt64 = realValue.toInt64) address 2 truncValue.toNat

def writeSigned32 (s : State) (address realValue : UInt64) : Resolved :=
  let truncValue := realValue.toUInt32
  writeIf s (truncValue.toInt32.toInt64 = realValue.toInt64) address 4 truncValue.toNat

/-! ### X86 -/

inductive X86_32Type where
  | none | abs32 | pc32 | pc16 | pc8
deriving DecidableEq, Repr

def X86_32Type.ofCode (code : UInt32) : Option X86_32Type :=
  [(0, none), (1, abs32), (2, pc32), (21, pc16), (23, pc8)].lookup code

def resolveX86_32 (r : Relocation) (s : State) : Resolved :=
  match r.site32 s.map with
  | none => (false, s)
  | some site =>
    let address := site.relocationAddress
    let realValue := site.symbolTargetAddress - site.relocationTargetAddress
    match X86_32Type.ofCode r.type with
    | none => (false, s)
    | some .none => (true, s)
    | some .abs32 => (true, s.writeWord address (site.symbolTargetAddress + s.readWord address))
    -- The addend in the memory is one byte, the value that replaces it has four.
    | some .pc32 =>
      let implicitAddend := s.memory address.toNat
      (true, s.writeWord address (realValue + implicitAddend.toInt8.toInt32.toUInt32))
    | some .pc16 =>
      let truncValue := realValue.toUInt16
      writeIf s (realValue.toInt32 = truncValue.toInt16.toInt32) address 2 truncValue.toNat
    | some .pc8 =>
      let truncValue := realValue.toUInt8
      writeIf s (realValue.toInt32 = truncValue.toInt8.toInt32) address 1 truncValue.toNat

inductive X86_64Type where
  | none | abs64 | pc32 | abs32 | abs32s | pc16 | pc8 | pc64
deriving DecidableEq, Repr

def X86_64Type.ofCode (code : UInt32) : Option X86_64Type :=
  [(0, none), (1, abs64), (2, pc32), (10, abs32), (11, abs32s), (13, pc16), (15, pc8),
    (24, pc64)].lookup code

/-- Offsets are cut to 32 bits. -/
def resolveX86_64 (r : Relocation) (s : State) : Resolved :=
  match r.site s.map (r.offset &&& 0xffffffff) with
  | none => (false, s)
  | some site =>
    let address := site.relocationAddress
    let symbol := site.symbolTargetAddress
    let relative := symbol - site.relocationTargetAddress
    match X86_64Type.ofCode r.type with
    | none => (false, s)
    | some .none => (true, s)
    | some .abs64 => (true, s.write address 8 symbol.toNat)
    | some .pc64 => (true, s.write address 8 relative.toNat)
    | some .abs32 =>
      writeIf s (symbol = symbol.toUInt32.toUInt64) address 4 symbol.toUInt32.toNat
    | some .abs32s => writeSigned32 s address symbol
    | some .pc32 => writeSigned32 s address relative
    | some .pc16 => writeSigned16 s address relative
    | some .pc8 => writeSigned8 s address relative

/-! ### Arm -/

inductive ArmType where
  | none | pc24 | abs32 | call | jump24 | target1 | prel31 | movwAbsNc | movtAbs
deriving DecidableEq, Repr

def ArmType.ofCode (code : UInt32) : Option ArmType :=
  [(0x00, none), (0x01, pc24), (0x02, abs32), (0x1c, call), (0x1d, jump24), (0x26, target1),
    (0x2a, prel31), (0x2b, movwAbsNc), (0x2c, movtAbs)].lookup code

/-- No stub is the address 0, and a branch is patched all the same. -/
def resolveArmBranch (r : Relocation) (stubs : StubMap) (site : Site UInt32) (value : UInt32)
    (s : State) : Resolved :=
  let (stub, s) := getOrCreateStub r stubs site.symbolTargetAddress.toUInt64
    (armStub site.symbolTargetAddress) 0 s
  let stubTarget := (stub.getD 0).toUInt32
  let relativeValue := stubTarget - site.relocationTargetAddress - 8
  let relativeValue := (relativeValue &&& 0x03fffffc) >>> 2
  if value &&& 0xffffff ≠ 0xfffffe then (false, s)
  else (true, s.writeWord site.relocationAddress (setBitRange value relativeValue 0 24))

def resolveArm (r : Relocation) (stubs : StubMap) (s : State) : Resolved :=
  match r.site32 s.map with
  | none => (false, s)
  | some site =>
    let value := s.readWord site.relocationAddress
    match ArmType.ofCode r.type with
    | none => (false, s)
    | some .none => (true, s)
    | some .prel31 => (true, s.writeWord site.relocationAddress
        (setBitRange value (site.symbolTargetAddress - site.relocationTargetAddress) 0 31))
    | some .target1 | some .abs32 =>
      (true, s.writeWord site.relocationAddress (site.symbolTargetAddress + value))
    | some .movwAbsNc =>
      let bits := getBitRange32 site.symbolTargetAddress 0 16
      (true, s.writeWord site.relocationAddress
        (setBitRange (setBitRange value (bits >>> 12) 16 4) bits 0 12))
    | some .movtAbs =>
      let bits := getBitRange32 site.symbolTargetAddress 16 16
      (true, s.writeWord site.relocationAddress
        (setBitRange (setBitRange value (bits >>> 12) 16 4) bits 0 12))
    | some .pc24 | some .call | some .jump24 => resolveArmBranch r stubs site value s

/-! ### AArch64 -/

inductive AArch64Type where
  | none | abs64 | abs32 | abs16 | prel64 | prel32 | prel16 | movwUabsG0Nc | movwUabsG1Nc
  | movwUabsG2Nc | movwUabsG3 | adrPrelPgHi21 | addAbsLo12Nc | ldst8AbsLo12Nc | jump26 | call26
  | ldst16AbsLo12Nc | ldst32AbsLo12Nc | ldst64AbsLo12Nc | ldst128AbsLo12Nc
deriving DecidableEq, Repr

def AArch64Type.ofCode (code : UInt32) : Option AArch64Type :=
  [(0, none), (0x101, abs64), (0x102, abs32), (0x103, abs16), (0x104, prel64), (0x105, prel32),
    (0x106, prel16), (0x108, movwUabsG0Nc), (0x10a, movwUabsG1Nc), (0x10c, movwUabsG2Nc),
    (0x10d, movwUabsG3), (0x113, adrPrelPgHi21), (0x115, addAbsLo12Nc), (0x116, ldst8AbsLo12Nc),
    (0x11a, jump26), (0x11b, call26), (0x11c, ldst16AbsLo12Nc), (0x11d, ldst32AbsLo12Nc),
    (0x11e, ldst64AbsLo12Nc), (0x12b, ldst128AbsLo12Nc)].lookup code

/-- A branch instruction reaches 128 MiB in both directions. -/
def inReach (relativeValue : UInt64) : Bool :=
  relativeValue.toInt64 ≥ -0x8000000 ∧ relativeValue.toInt64 < 0x8000000

def imm26 (relativeValue : UInt64) : UInt32 := ((relativeValue >>> 2) &&& 0x03ffffff).toUInt32

/-- `CALL26` and `JUMP26`: a short branch, or one to a stub. -/
def resolveBranch26 (r : Relocation) (stubs : StubMap) (site : Site UInt64) (value32 : UInt32)
    (s : State) : Resolved :=
  let relativeValue := site.symbolTargetAddress - site.relocationTargetAddress
  if inReach relativeValue then
    (true, s.writeWord site.relocationAddress (value32 ||| imm26 relativeValue))
  else
    let (stub, s) := getOrCreateStub r stubs site.symbolTargetAddress
      (aarch64Stub site.symbolTargetAddress) 4 s
    let stubTarget := stub.getD 0
    let relativeValue := stubTarget - site.relocationTargetAddress
    if stubTarget = 0 then (false, s)
    else if !inReach relativeValue then (false, s)
    else (true, s.writeWord site.relocationAddress (value32 ||| imm26 relativeValue))

/-- The four moves of 16 bits. -/
def resolveMovw (site : Site UInt64) (value32 : UInt32) (bits : UInt32) (s : State) : Resolved :=
  (true, s.writeWord site.relocationAddress (setBitRange value32 bits 5 16))

/-- The immediate of an addition, a load or a store. -/
def resolveLo12 (site : Site UInt64) (value32 : UInt32) (first : UInt64) (size : UInt32)
    (s : State) : Resolved :=
  (true, s.writeWord site.relocationAddress
    (setBitRange value32 (getBitRange site.symbolTargetAddress first size).toUInt32 10 12))

def resolveAdrp (site : Site UInt64) (value32 : UInt32) (s : State) : Resolved :=
  let pageDifference := (site.symbolTargetAddress &&& ~~~0xfff) -
    (site.relocationTargetAddress &&& ~~~0xfff)
  if pageDifference.toInt64 ≥ 0x100000000 ∨ pageDifference.toInt64 < -0x100000000 then (false, s)
  else
    let pageDifference := (pageDifference >>> 12).toUInt32
    let value32 := setBitRange value32 (getBitRange32 pageDifference 0 2) 29 2
    let value32 := setBitRange value32 (getBitRange32 pageDifference 2 19) 3 19
    (true, s.writeWord site.relocationAddress value32)

def resolveAArch64 (r : Relocation) (stubs : StubMap) (s : State) : Resolved :=
  match r.site s.map r.offset with
  | none => (false, s)
  | some site =>
    let value32 := s.readWord site.relocationAddress
    let symbol := site.symbolTargetAddress
    let relative := symbol - site.relocationTargetAddress
    match AArch64Type.ofCode r.type with
    | none => (false, s)
    | some .none => (true, s)
    | some .abs16 => writeSigned16 s site.relocationAddress symbol
    | some .abs32 => writeSigned32 s site.relocationAddress symbol
    | some .abs64 => (true, s.write site.relocationAddress 8 symbol.toNat)
    | some .prel64 => (true, s.write site.relocationAddress 8 relative.toNat)
    | some .prel32 => writeSigned32 s site.relocationAddress relative
    | some .prel16 => writeSigned16 s site.relocationAddress relative
    | some .call26 | some .jump26 => resolveBranch26 r stubs site value32 s
    | some .movwUabsG0Nc => resolveMovw site value32 symbol.toUInt32 s
    | some .movwUabsG1Nc => resolveMovw site value32 (getBitRange symbol 16 16).toUInt32 s
    | some .movwUabsG2Nc => resolveMovw site value32 (getBitRange symbol 32 16).toUInt32 s
    | some .movwUabsG3 => resolveMovw site value32 (getBitRange symbol 48 16).toUInt32 s
    | some .adrPrelPgHi21 => resolveAdrp site value32 s
    | some .addAbsLo12Nc | some .ldst8AbsLo12Nc => resolveLo12 site value32 0 12 s
    | some .ldst16AbsLo12Nc => resolveLo12 site value32 1 11 s
    | some .ldst32AbsLo12Nc => resolveLo12 site value32 2 10 s
    | some .ldst64AbsLo12Nc => resolveLo12 site value32 3 9 s
    | some .ldst128AbsLo12Nc => resolveLo12 site value32 4 8 s

/-! ### Files -/

inductive Machine where
  | x86 | x86_64 | arm | aarch64 | other
deriving DecidableEq, Repr

def Relocation.resolve (r : Relocation) (machine : Machine) (stubs : StubMap) (s : State) :
    Resolved :=
  match machine with
  | .x86 => resolveX86_32 r s
  | .x86_64 => resolveX86_64 r s
  | .arm => resolveArm r stubs s
  | .aarch64 => resolveAArch64 r stubs s
  | .other => (false, s)

/-- A section header. -/
structure Section where
  name : List UInt8
  type : UInt32
  fileOffset : UInt64
  size : UInt64
  entrySize : UInt64
deriving DecidableEq, Repr

namespace SectionType

def rela : UInt32 := 0x04
def rel : UInt32 := 0x09

end SectionType

structure ElfFile where
  machine : Machine
  is32Bit : Bool
  littleEndian : Bool
  sections : List Section
  bytes : List UInt8
deriving DecidableEq, Repr

/-- An integer of the file. -/
def ElfFile.field (file : ElfFile) (bytes : List UInt8) : Nat :=
  leNat (if file.littleEndian then bytes else bytes.reverse)

/-- The index of the first section of a name. -/
def ElfFile.sectionIndex (file : ElfFile) (name : List UInt8) : Option UInt32 :=
  (file.sections.findIdx? (·.name = name)).map UInt32.ofNat

/-- `sizeToAlloc`: 2 KiB are added for stubs where the machine needs them. -/
def Section.sizeToAlloc (sec : Section) (machine : Machine) : UInt64 :=
  if machine = .x86 ∨ machine = .x86_64 then sec.size else sec.size + 2048

inductive EntryType where
  | elf32Rel | elf32RelA | elf64Rel | elf64RelA
deriving DecidableEq, Repr

/-- The size of the structure that an entry is read as, whatever the size the file gives. -/
def EntryType.size : EntryType → Nat
  | elf32Rel => 8
  | elf32RelA => 12
  | elf64Rel => 16
  | elf64RelA => 24

def Relocation.fromElfEntry (kind : EntryType) (file : ElfFile) (sectionId : UInt32)
    (raw : List UInt8) : Relocation :=
  let field32 (offset : Nat) := UInt32.ofNat (file.field ((raw.drop offset).take 4))
  let field64 (offset : Nat) := UInt64.ofNat (file.field ((raw.drop offset).take 8))
  match kind with
  | .elf32Rel =>
    ⟨field32 4 &&& 0xff, field32 4 >>> 8, (field32 0).toUInt64, 0, sectionId⟩
  | .elf32RelA =>
    ⟨field32 4 &&& 0xff, field32 4 >>> 8, (field32 0).toUInt64, (field32 8).toInt32.toInt64,
      sectionId⟩
  | .elf64Rel =>
    ⟨(field64 8).toUInt32, (field64 8 >>> 32).toUInt32, field64 0, 0, sectionId⟩
  | .elf64RelA =>
    ⟨(field64 8).toUInt32, (field64 8 >>> 32).toUInt32, field64 0, (field64 16).toInt64, sectionId⟩

/-- The bytes of an entry, or `none` where they are not all in the file. -/
def Section.entry (sec : Section) (file : ElfFile) (position size : Nat) :
    Option (List UInt8) :=
  let start := sec.fileOffset.toNat + position
  if start + size ≤ file.bytes.length then some ((file.bytes.drop start).take size) else none

/-- The loop over the entries.  It ends where the position is the size, so it can pass the end of the
section; `none` is a read outside of the file. -/
def resolveEntries (file : ElfFile) (sec : Section) (kind : EntryType) (sectionId : UInt32)
    (stubs : StubMap) : Nat → Nat → State → Option Resolved
  | 0, _, _ => none
  | fuel + 1, position, s =>
    if position = sec.size.toNat then some (true, s)
    else
      match sec.entry file position kind.size with
      | none => none
      | some raw =>
        let r := Relocation.fromElfEntry kind file sectionId raw
        let (resolved, s) := r.resolve file.machine stubs s
        if resolved then
          resolveEntries file sec kind sectionId stubs fuel
            (position + sec.entrySize.toNat) s
        else some (false, s)

/-- Sections that do not belong to a mapped section are skipped.  Every turn of the loop reads at a
later position of the file, so its length bounds the turns. -/
def resolveFor (file : ElfFile) (sec : Section) (relSection : List UInt8) (kind : EntryType)
    (s : State) : Option Resolved :=
  match file.sectionIndex relSection with
  | none => some (true, s)
  | some relSectionId =>
    if (s.map.getSectionTargetAddress relSectionId).isNone then some (true, s)
    else resolveEntries file sec kind relSectionId [] (file.bytes.length + 1) 0 s

/-- `.rel` and `.rela`. -/
def relName : List UInt8 := [0x2e, 0x72, 0x65, 0x6c]
def relaName : List UInt8 := relName ++ [0x61]

def resolveSection (file : ElfFile) (sec : Section) (s : State) : Option Resolved :=
  if sec.entrySize = 0 then some (true, s)
  else if relaName.isPrefixOf sec.name ∧ sec.type = SectionType.rela then
    resolveFor file sec (sec.name.drop 5)
      (if file.is32Bit then .elf32RelA else .elf64RelA) s
  else if relName.isPrefixOf sec.name ∧ sec.type = SectionType.rel then
    resolveFor file sec (sec.name.drop 4) (if file.is32Bit then .elf32Rel else .elf64Rel) s
  else some (true, s)

def resolveSections (file : ElfFile) : List Section → State → Option Resolved
  | [], s => some (true, s)
  | sec :: sections, s =>
    match resolveSection file sec s with
    | none => none
    | some (false, s) => some (false, s)
    | some (true, s) => resolveSections file sections s

def resolveRelocations (file : ElfFile) (s : State) : Option Resolved :=
  resolveSections file file.sections s

end ConstructionKit.Loader
