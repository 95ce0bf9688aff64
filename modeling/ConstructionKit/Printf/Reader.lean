import ConstructionKit.Printf.System

/-! `print` reads back the records that lie one behind the other in a chunk. -/

namespace ConstructionKit.Printf

open ProofKit List

variable {doubleSupport : Bool} {read : UInt32} {type : ArgType} {data : Memory} {maxLength : Nat}

theorem ArgType.printfType_of_text {text : String} (h : type.text = some text) :
    type.printfType doubleSupport = .string := by
  cases type with
  | constantString => rfl
  | _ => cases h

theorem ArgType.printfType_ne_string (h : type.text = none) :
    type.printfType doubleSupport ≠ .string := by
  cases type with
  | constantString => cases h
  | _ => cases doubleSupport <;> exact nofun

theorem readValues_cons {strings : List String}
    {type : PrintfType} {types : List PrintfType} {stringIndex : Nat}
    (hne : type ≠ .string) :
    readValues maxLength data strings (type :: types) read stringIndex = (do
      let bytes ← copyFrom maxLength data read type.size
      let (values, read) ← readValues maxLength data strings types
        (read + UInt32.ofNat type.size) stringIndex
      return (.bytes type bytes :: values, read)) := by
  cases type with
  | string => exact absurd rfl hne
  | _ => rfl

/-- The records of `calls` lie one behind the other from `start` on. -/
def Laid (data : Memory) (start : Nat) : List (Call doubleSupport) → Prop
  | [] => True
  | call :: calls =>
    data.read start call.offset = call.bytes ∧ Laid data (start + call.offset) calls

theorem laid_append {start : Nat} {calls calls' : List (Call doubleSupport)} :
    Laid data start (calls ++ calls') ↔
      Laid data start calls ∧ Laid data (start + (calls.map Call.offset).sum) calls' := by
  induction calls generalizing start with
  | nil => simp [Laid]
  | cons call calls ih =>
    simp only [cons_append, Laid, ih, map_cons, sum_cons, Nat.add_assoc, and_assoc]

theorem Call.four_le_offset (call : Call doubleSupport) : 4 ≤ call.offset := Nat.le_add_right ..

theorem length_le_sum_offset (calls : List (Call doubleSupport)) :
    calls.length ≤ (calls.map Call.offset).sum := by
  induction calls with
  | nil => simp
  | cons call =>
    have := call.four_le_offset
    simp only [length_cons, map_cons, sum_cons]
    omega

section Read

variable (hmax : maxLength < 2 ^ 32) {printfCalls : List Descriptor} {records : List Printed}
  {size : UInt32} {fuel : Nat}

include hmax

/-- The arguments of a record are read back with their own bytes and texts. -/
theorem readValues_args (strings : List String) (read : UInt32) (stringIndex : Nat)
    (args : List (Arg doubleSupport))
    (hmem : data.read read.toNat (args.flatMap fun arg => arg.bytes).length =
      args.flatMap fun arg => arg.bytes)
    (hle : read.toNat + (args.flatMap fun arg => arg.bytes).length ≤ maxLength)
    (hstrings : strings.drop stringIndex = args.filterMap fun arg => arg.type.text) :
    readValues maxLength data strings (args.map fun arg => arg.type.printfType doubleSupport) read
        stringIndex =
      some (args.map Arg.value,
        read + UInt32.ofNat (args.flatMap fun arg => arg.bytes).length) := by
  induction args generalizing read stringIndex with
  | nil => simp [readValues]
  | cons arg args ih =>
    rw [flatMap_cons, length_append] at hmem hle
    rw [Memory.read_add] at hmem
    obtain ⟨hhead, htail⟩ := append_inj hmem (by simp)
    have hread := toNat_add_ofNat read arg.bytes.length (by omega)
    rw [map_cons, map_cons, flatMap_cons, length_append]
    cases htext : arg.type.text with
    | some text =>
      have hnil : arg.bytes = [] := by
        apply Arg.bytes_eq_nil
        cases htype : arg.type with
        | constantString => rfl
        | _ => rw [htype] at htext; cases htext
      simp only [filterMap_cons, htext] at hstrings
      have hget : strings[stringIndex]? = some text := by
        rw [← head?_drop, hstrings, head?_cons]
      have hdrop : strings.drop (stringIndex + 1) = args.filterMap fun arg => arg.type.text := by
        rw [← tail_drop, hstrings, tail_cons]
      rw [hnil] at htail hle ⊢
      rw [ArgType.printfType_of_text htext, readValues, hget, Arg.value, htext]
      simp only [length_nil, Nat.zero_add] at htail hle ⊢
      simp [ih read (stringIndex + 1) htail hle hdrop]
    | none =>
      simp only [filterMap_cons, htext] at hstrings
      have hsize : (arg.type.printfType doubleSupport).size = arg.bytes.length := by
        rw [arg.length_bytes, ArgType.storeSize_eq]
      have hcopy : copyFrom maxLength data read arg.bytes.length = some arg.bytes := by
        rw [copyFrom, if_pos (by omega), hhead]
      rw [← Nat.cast_add, ← hread] at htail
      rw [readValues_cons (ArgType.printfType_ne_string htext), hsize, hcopy, Arg.value, htext]
      rw [ih _ stringIndex htail (by omega) hstrings, UInt32.ofNat_add, UInt32.add_assoc]
      rfl

theorem printLoop_record {call : Call doubleSupport}
    (hmem : data.read read.toNat call.offset = call.bytes)
    (hdesc : printfCalls[call.id.toNat]? = some call.descriptor)
    (hle : read.toNat + call.offset ≤ size.toNat) (hsize : size.toNat ≤ maxLength) :
    printLoop printfCalls maxLength data size (fuel + 1) read records =
      printLoop printfCalls maxLength data size fuel (read + UInt32.ofNat call.offset)
        (records ++ [call.printed]) := by
  have hoffset : call.offset = 4 + (call.args.flatMap fun arg => arg.bytes).length := by
    rw [length_flatMap_bytes, Call.offset]
  have hlt : read < size := UInt32.lt_iff_toNat_lt.mpr (by omega)
  rw [hoffset, Memory.read_add] at hmem
  obtain ⟨hid, hargs⟩ := append_inj hmem (by simp)
  have hcopy : copyFrom maxLength data read 4 = some (wordBytes call.id) := by
    rw [copyFrom, if_pos (by omega), hid]
  have hread : (read + 4).toNat = read.toNat + 4 :=
    toNat_add_ofNat read 4 (by omega)
  have hvalues := readValues_args hmax call.descriptor.strings (read + 4) 0 call.args
    (by rw [hread]; exact hargs) (by omega) rfl
  rw [printLoop, if_pos hlt, hcopy]
  simp only [wordOfBytes_wordBytes, hdesc]
  rw [show call.descriptor.types = call.args.map fun arg => arg.type.printfType doubleSupport
    from rfl, hvalues, hoffset, UInt32.ofNat_add, ← UInt32.add_assoc]
  rfl

/-- The loop reads all records up to `size`, and ends there. -/
theorem printLoop_laid (calls : List (Call doubleSupport)) (hlaid : Laid data read.toNat calls)
    (hdesc : ∀ call ∈ calls, printfCalls[call.id.toNat]? = some call.descriptor)
    (hend : size.toNat = read.toNat + (calls.map Call.offset).sum)
    (hsize : size.toNat ≤ maxLength) (hfuel : calls.length < fuel) :
    printLoop printfCalls maxLength data size fuel read records =
      .finished (records ++ calls.map Call.printed) size := by
  induction calls generalizing read fuel records with
  | nil =>
    obtain ⟨fuel, rfl⟩ := Nat.exists_eq_add_of_lt hfuel
    have heq : read = size := UInt32.toNat_inj.mp (by simpa using hend.symm)
    rw [printLoop, if_neg (by rw [heq]; exact UInt32.lt_irrefl _), map_nil, append_nil,
      heq]
  | cons call calls ih =>
    rcases fuel with _ | fuel
    · omega
    obtain ⟨hmem, hrest⟩ := hlaid
    rw [map_cons, sum_cons] at hend
    have hread := toNat_add_ofNat read call.offset (by omega)
    rw [printLoop_record hmax hmem (hdesc call mem_cons_self) (by omega) hsize,
      ih (by rw [hread]; exact hrest) (fun c hc => hdesc c (mem_cons_of_mem _ hc)) (by omega)
        (by simpa using hfuel), map_cons, append_assoc, singleton_append]

/-- With the length `length` and the overflow `overflow` in its header, and the records of `calls`
from the saved offset up to `length - overflow`, a chunk is printed completely. -/
theorem printGroup_laid (printfCalls : List Descriptor) (groupOffset : UInt32)
    (calls : List (Call doubleSupport))
    (hlaid : Laid data (if groupOffset = 0 then 8 else groupOffset).toNat calls)
    (hdesc : ∀ call ∈ calls, printfCalls[call.id.toNat]? = some call.descriptor)
    (hend : (data.readWord 0).toNat = (if groupOffset = 0 then 8 else groupOffset).toNat +
      (calls.map Call.offset).sum + (data.readWord 4).toNat)
    (hsize : (data.readWord 0).toNat - (data.readWord 4).toNat ≤ maxLength)
    (hheader : 8 ≤ maxLength) :
    printGroup printfCalls maxLength data groupOffset =
      .finished (calls.map Call.printed) (data.readWord 0 - data.readWord 4) := by
  have hle : data.readWord 4 ≤ data.readWord 0 := UInt32.le_iff_toNat_le.mpr (by omega)
  have hsub : (data.readWord 0 - data.readWord 4).toNat =
      (data.readWord 0).toNat - (data.readWord 4).toNat := UInt32.toNat_sub_of_le _ _ hle
  have hlength := length_le_sum_offset calls
  have h0 : copyFrom maxLength data 0 4 = some (data.read 0 4) := if_pos (by simp; omega)
  have h4 : copyFrom maxLength data 4 4 = some (data.read 4 4) := if_pos (by simp; omega)
  have hword (start : Int) : wordOfBytes (data.read start 4) = data.readWord start := rfl
  rw [printGroup, h0, h4]
  simp only [hword, UInt32.not_lt.mpr hle, if_false, hsub, Nat.not_lt.mpr hsize]
  rw [printLoop_laid hmax calls hlaid hdesc (by omega) (by omega) (by omega), nil_append]

end Read

end ConstructionKit.Printf
