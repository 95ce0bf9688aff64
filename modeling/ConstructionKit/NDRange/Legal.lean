import ConstructionKit.NDRange.Enqueue
import Mathlib.Data.Fin.VecNotation
import Mathlib.Tactic.FinCases

/-! Which launches the checks of `clEnqueueNDRangeKernel` let through.  The default local size is
always legal.  A size that is given or required is legal exactly when the required size is 1 in
the unused dimensions, at which `checkReqdWorkGroupSize` does not look, and the product that
`checkWorkSizes` computes does not wrap. -/

namespace ConstructionKit.NDRange

/-- The product of the sizes in the dimensions `is`, over the natural numbers. -/
def volume (size : Dim3) (is : List (Fin 3)) : Nat := (is.map fun i => (size i).toNat).prod

/-- What a work-group size must satisfy: no empty dimension, whole work-groups, the limit of the
device, and the required size of the kernel. -/
structure Legal (device : Device) (kernel : Kernel) (launch : Launch) : Prop where
  positive : ∀ i, 1 ≤ (launch.localSize i).toNat
  divides : ∀ i, (launch.localSize i).toNat ∣ (launch.globalSize i).toNat
  bounded : volume launch.localSize [0, 1, 2] ≤ device.maxWorkGroupSize.toNat
  required : ∀ reqd, kernel.reqdWorkGroupSize = some reqd → launch.localSize = reqd

/-! ### The checks -/

@[simp] theorem oclCheck_ok_iff {fails : Prop} [Decidable fails] {code : Error} {u : Unit} :
    oclCheck fails code = .ok u ↔ ¬fails := by
  by_cases h : fails <;> simp [oclCheck]

@[simp] theorem oclCheck_bind_ok_iff {α : Type} {fails : Prop} [Decidable fails] {code : Error}
    {rest : Unit → Except Error α} {a : α} :
    (oclCheck fails code >>= rest) = .ok a ↔ ¬fails ∧ rest () = .ok a := by
  by_cases h : fails <;> simp [oclCheck, h, bind, Except.bind]

theorem checkAll_ok_iff {check : Fin 3 → Except Error Unit} {is : List (Fin 3)} :
    checkAll check is = .ok () ↔ ∀ i ∈ is, check i = .ok () := by
  induction is with
  | nil => simp [checkAll]
  | cons i is ih =>
    cases h : check i with
    | ok => simp [checkAll, h, ih]
    | error => simp [checkAll, h]

variable {workDim : UInt32} {globalSize : Dim3} {version21 : Bool} {device : Device} {kernel : Kernel}
  {req : Request} {launch : Launch} {given result : Option Dim3} {i : Fin 3}

theorem mem_dims : i ∈ dims workDim ↔ i.val < workDim.toNat := by
  generalize hn : workDim.toNat = n
  rw [dims, hn]
  match n with
  | 0 | 1 | 2 | n + 3 => fin_cases i <;> simp

theorem checkReqdWorkGroupSize_none (h : kernel.reqdWorkGroupSize = none) :
    checkReqdWorkGroupSize kernel workDim given = .ok given := by
  simp [checkReqdWorkGroupSize, h]

/-- With a required size, the checks go on with the given size or, without one, the required one,
and the two agree in the first `work_dim` dimensions only. -/
theorem checkReqdWorkGroupSize_some {reqd : Dim3} (hr : kernel.reqdWorkGroupSize = some reqd)
    (h : checkReqdWorkGroupSize kernel workDim given = .ok result) :
    result = some (given.getD reqd) ∧ ∀ i ∈ dims workDim, given.getD reqd i = reqd i := by
  simp only [checkReqdWorkGroupSize, hr] at h
  split at h
  · rename_i hall
    rw [checkAll_ok_iff] at hall
    exact ⟨(Except.ok.inj h).symm, fun i hi => by simpa using hall i hi⟩
  · cases h

theorem checkWorkSizes_some {offset : Option Dim3} {localSize : Dim3}
    (h : checkWorkSizes version21 device workDim offset (some globalSize) (some localSize) =
      .ok ()) :
    (∀ i ∈ dims workDim, localSize i ≠ 0 ∧ globalSize i % localSize i = 0) ∧
      totalWorkGroupSize (some localSize) (dims workDim) ≤ device.maxWorkGroupSize := by
  rw [checkWorkSizes] at h
  split at h
  · rename_i hall
    rw [checkAll_ok_iff] at hall
    refine ⟨fun i hi => ?_, by simpa using h⟩
    have hi := hall i hi
    simp only [checkWorkSize, oclCheck_bind_ok_iff, Option.mem_some_iff,
      exists_eq_left', not_not] at hi
    exact ⟨hi.2.1, hi.2.2.1⟩
  · cases h

/-! ### The product of the sizes -/

theorem foldl_mul_toNat (size : Dim3) (is : List (Fin 3)) (total : UInt64) :
    (is.foldl (fun total i => total * size i) total).toNat =
      total.toNat * volume size is % 2 ^ 64 := by
  induction is generalizing total with
  | nil => simp [volume]
  | cons i is ih =>
    rw [List.foldl_cons, ih, UInt64.toNat_mul, Nat.mod_mul_mod]
    simp only [volume, List.map_cons, List.prod_cons, Nat.mul_assoc]

/-- The accumulated product is the product of the sizes modulo `2^64`. -/
theorem totalWorkGroupSize_toNat (size : Dim3) (is : List (Fin 3)) :
    (totalWorkGroupSize (some size) is).toNat = volume size is % 2 ^ 64 := by
  rw [totalWorkGroupSize, foldl_mul_toNat]
  simp

theorem volume_mono {a b : Dim3} (h : ∀ i, (a i).toNat ≤ (b i).toNat) (is : List (Fin 3)) :
    volume a is ≤ volume b is := by
  induction is with
  | nil => rfl
  | cons i is ih =>
    exact Nat.mul_le_mul (h i) ih

theorem volume_copyN (size : Dim3) (workDim : UInt32) :
    volume (copyN size workDim 1) [0, 1, 2] = volume size (dims workDim) := by
  generalize hn : workDim.toNat = n
  rw [dims]
  match n with
  | 0 | 1 | 2 | n + 3 => simp [volume, copyN, hn]

/-! ### The default local size -/

/-- Halving `alternative`, at least 1 and below `2^fuel`, ends within `fuel` tests at a divisor of
the global size: 1 divides everything. -/
theorem halvePreferredSize_spec {fuel : Nat} (globalSize alternative : UInt64)
    (hpos : 1 ≤ alternative.toNat) (hfuel : alternative.toNat < 2 ^ fuel) :
    ∃ size, halvePreferredSize fuel globalSize alternative = some size ∧ 1 ≤ size.toNat ∧
      size.toNat ∣ globalSize.toNat ∧ size.toNat ≤ alternative.toNat := by
  induction fuel generalizing alternative with
  | zero => simp at hfuel; omega
  | succ fuel ih =>
    by_cases hdvd : globalSize % alternative = 0
    · refine ⟨alternative, by simp [halvePreferredSize, hdvd], hpos, ?_, le_rfl⟩
      apply Nat.dvd_of_mod_eq_zero
      simpa using congrArg UInt64.toNat hdvd
    · have htwo : 2 ≤ alternative.toNat := by
        by_contra hlt
        have hone : alternative = 1 := UInt64.toNat_inj.mp (by simp; omega)
        exact hdvd (UInt64.toNat_inj.mp (by simp [hone]))
      have hhalf : (alternative / 2).toNat = alternative.toNat / 2 := by simp
      obtain ⟨size, hsize, h1, hd, hle⟩ := ih (alternative / 2) (by omega)
        (by rw [pow_succ] at hfuel; omega)
      exact ⟨size, by simp [halvePreferredSize, hdvd, hsize], h1, hd, by omega⟩

/-- The default of one dimension divides the global size and is at most the preferred size. -/
theorem defaultLocalSize_spec (globalSize : Dim3) (hpos : 1 ≤ (kernel.preferredLocalSize i).toNat) :
    ∃ size, defaultLocalSize kernel globalSize i = some size ∧ 1 ≤ size.toNat ∧
      size.toNat ∣ (globalSize i).toNat ∧ size.toNat ≤ (kernel.preferredLocalSize i).toNat := by
  rw [defaultLocalSize]
  split
  · rename_i hdvd
    refine ⟨_, rfl, hpos, ?_, le_rfl⟩
    apply Nat.dvd_of_mod_eq_zero
    simpa using congrArg UInt64.toNat hdvd
  · exact halvePreferredSize_spec _ _ hpos (UInt64.toNat_lt _)

theorem defaultLocalSizes_spec (globalSize : Dim3)
    (hpos : ∀ i, 1 ≤ (kernel.preferredLocalSize i).toNat) (is : List (Fin 3)) (sizes : Dim3) :
    ∃ result, defaultLocalSizes kernel globalSize is sizes = .ok result ∧
      (∀ i ∉ is, result i = sizes i) ∧
      ∀ i ∈ is, 1 ≤ (result i).toNat ∧ (result i).toNat ∣ (globalSize i).toNat ∧
        (result i).toNat ≤ (kernel.preferredLocalSize i).toNat := by
  induction is generalizing sizes with
  | nil => exact ⟨sizes, rfl, by simp, by simp⟩
  | cons i is ih =>
    obtain ⟨size, hsize, hgood⟩ := defaultLocalSize_spec globalSize (hpos i)
    obtain ⟨result, hresult, hkeep, hall⟩ := ih (Function.update sizes i size)
    refine ⟨result, by simp [defaultLocalSizes, hsize, hresult], fun j hj => ?_, fun j hj => ?_⟩
    · rw [List.mem_cons, not_or] at hj
      rw [hkeep j hj.2, Function.update_of_ne hj.1]
    · by_cases hj' : j ∈ is
      · exact hall j hj'
      · obtain rfl : j = i := by simpa [hj'] using hj
        rw [hkeep j hj', Function.update_self]
        exact hgood

/-- The default local size exists, has no empty dimension, divides the global size in every
dimension and is at most the preferred size. -/
theorem getDefaultLocalSize_spec (globalSize : Dim3) (workDim : UInt32)
    (hpos : ∀ i, 1 ≤ (kernel.preferredLocalSize i).toNat) :
    ∃ result, getDefaultLocalSize kernel (some globalSize) workDim = .ok result ∧
      ∀ i, 1 ≤ (result i).toNat ∧ (result i).toNat ∣ (copyN globalSize workDim 1 i).toNat ∧
        (result i).toNat ≤ (kernel.preferredLocalSize i).toNat := by
  obtain ⟨result, hresult, hkeep, hall⟩ :=
    defaultLocalSizes_spec globalSize hpos (dims workDim) fun _ => 1
  refine ⟨result, hresult, fun i => ?_⟩
  by_cases hi : i ∈ dims workDim
  · simpa [copyN, mem_dims.mp hi] using hall i hi
  · simp [hkeep i hi, hpos i]

/-! ### Accepted launches -/

theorem Outcome.bind_eq_ok {α β : Type} {x : Outcome α} {f : α → Outcome β} {b : β}
    (h : x.bind f = .ok b) : ∃ a, x = .ok a ∧ f a = .ok b := by
  cases x with
  | ok a => exact ⟨a, rfl, h⟩
  | error => cases h
  | diverges => cases h

theorem Outcome.ofExcept_eq_ok {α : Type} {x : Except Error α} {a : α}
    (h : Outcome.ofExcept x = .ok a) : x = .ok a := by
  cases x with
  | ok => cases h; rfl
  | error => cases h

theorem enqueueNDRangeKernel_ok
    (h : enqueueNDRangeKernel version21 device kernel req = .ok launch) :
    ∃ globalSize given, launch.globalSize = copyN globalSize req.workDim 1 ∧
      checkReqdWorkGroupSize kernel req.workDim req.localWorkSize = .ok given ∧
      checkWorkSizes version21 device req.workDim req.globalWorkOffset (some globalSize) given =
        .ok () ∧
      finalLocalSize kernel globalSize req.workDim given = .ok launch.localSize := by
  rw [enqueueNDRangeKernel] at h
  split at h
  · cases h
  split at h
  · cases h
  rename_i globalSize _
  obtain ⟨given, hgiven, h⟩ := Outcome.bind_eq_ok h
  obtain ⟨_, hsizes, h⟩ := Outcome.bind_eq_ok h
  obtain ⟨localSize, hlocal, h⟩ := Outcome.bind_eq_ok h
  obtain ⟨_, _, h⟩ := Outcome.bind_eq_ok h
  obtain ⟨_, _, h⟩ := Outcome.bind_eq_ok h
  cases h
  exact ⟨globalSize, given, rfl, Outcome.ofExcept_eq_ok hgiven, Outcome.ofExcept_eq_ok hsizes,
    hlocal⟩

/-- The checks go on with the size that the user gives or, without one, the required size. -/
theorem checkReqdWorkGroupSize_eq (h : checkReqdWorkGroupSize kernel workDim given = .ok result) :
    result = given.or kernel.reqdWorkGroupSize := by
  cases hr : kernel.reqdWorkGroupSize with
  | none => rw [checkReqdWorkGroupSize_none hr] at h; cases h; simp
  | some => rw [(checkReqdWorkGroupSize_some hr h).1]; cases given <;> simp

/-- The inputs on which the checks see everything: the required size is 1 in the dimensions that
the call does not use, and the product of the size given or required fits in a `size_t`. -/
structure Covered (kernel : Kernel) (req : Request) : Prop where
  unused : ∀ reqd, kernel.reqdWorkGroupSize = some reqd →
    ∀ i : Fin 3, req.workDim.toNat ≤ i.val → reqd i = 1
  noWrap : ∀ size, req.localWorkSize.or kernel.reqdWorkGroupSize = some size →
    volume size (dims req.workDim) < 2 ^ 64

section Accepted

variable {size : Dim3}

theorem legal_of_default (hpos : ∀ i, 1 ≤ (kernel.preferredLocalSize i).toNat)
    (hprod : volume kernel.preferredLocalSize [0, 1, 2] ≤ device.maxWorkGroupSize.toNat)
    (hglobal : launch.globalSize = copyN globalSize req.workDim 1)
    (hreqd : kernel.reqdWorkGroupSize = none)
    (hlocal : getDefaultLocalSize kernel (some globalSize) req.workDim = .ok launch.localSize) :
    Legal device kernel launch := by
  obtain ⟨result, hresult, hgood⟩ := getDefaultLocalSize_spec globalSize req.workDim hpos
  obtain rfl : result = launch.localSize := by
    rw [hresult] at hlocal
    exact Outcome.ok.inj hlocal
  exact ⟨fun i => (hgood i).1, fun i => hglobal ▸ (hgood i).2.1,
    (volume_mono (fun i => (hgood i).2.2) _).trans hprod, by simp [hreqd]⟩

/-- A launch with the size given or required is legal when the input is covered. -/
theorem legal_of_covered (hcov : Covered kernel req)
    (hglobal : launch.globalSize = copyN globalSize req.workDim 1)
    (hreqd : checkReqdWorkGroupSize kernel req.workDim req.localWorkSize = .ok (some size))
    (hsizes : checkWorkSizes version21 device req.workDim req.globalWorkOffset (some globalSize)
      (some size) = .ok ())
    (hlocal : launch.localSize = copyN size req.workDim 1) : Legal device kernel launch := by
  obtain ⟨hdims, htotal⟩ := checkWorkSizes_some hsizes
  have hsize := checkReqdWorkGroupSize_eq hreqd
  constructor
  · intro i
    rw [hlocal, copyN]
    split
    · rename_i hi
      have hne := (hdims i (mem_dims.mpr hi)).1
      exact Nat.one_le_iff_ne_zero.mpr fun h => hne (UInt64.toNat_inj.mp (by simpa using h))
    · simp
  · intro i
    rw [hlocal, hglobal, copyN, copyN]
    split
    · rename_i hi
      apply Nat.dvd_of_mod_eq_zero
      simpa using congrArg UInt64.toNat (hdims i (mem_dims.mpr hi)).2
    · exact one_dvd _
  · rw [hlocal, volume_copyN, ← Nat.mod_eq_of_lt (hcov.noWrap size hsize.symm),
      ← totalWorkGroupSize_toNat]
    exact UInt64.le_iff_toNat_le.mp htotal
  · intro reqd hr
    obtain ⟨hgiven, hagree⟩ := checkReqdWorkGroupSize_some hr hreqd
    funext i
    rw [hlocal, copyN]
    split
    · rename_i hi
      rw [Option.some.inj hgiven]
      exact hagree i (mem_dims.mpr hi)
    · exact (hcov.unused reqd hr i (by omega)).symm

/-- The converse: what the checks do not see makes the launch illegal. -/
theorem covered_of_legal (hlegal : Legal device kernel launch)
    (hreqd : checkReqdWorkGroupSize kernel req.workDim req.localWorkSize = .ok (some size))
    (hlocal : launch.localSize = copyN size req.workDim 1) : Covered kernel req := by
  constructor
  · intro reqd hr i hi
    rw [← hlegal.required reqd hr, hlocal, copyN, if_neg (by omega)]
  · intro given hgiven
    rw [← checkReqdWorkGroupSize_eq hreqd] at hgiven
    cases hgiven
    have hb := hlegal.bounded
    rw [hlocal, volume_copyN] at hb
    exact hb.trans_lt device.maxWorkGroupSize.toNat_lt

theorem enqueueNDRangeKernel_returns (hpos : ∀ i, 1 ≤ (kernel.preferredLocalSize i).toNat) :
    enqueueNDRangeKernel version21 device kernel req ≠ .diverges := by
  have hexcept : ∀ {α β : Type} {x : Except Error α} {f : α → Outcome β},
      (∀ a, x = .ok a → f a ≠ .diverges) → (Outcome.ofExcept x).bind f ≠ .diverges := by
    intro α β x f h
    cases x with
    | ok a => exact h a rfl
    | error => exact nofun
  rw [enqueueNDRangeKernel]
  split
  · exact nofun
  split
  · exact nofun
  rename_i globalSize _
  refine hexcept fun given _ => hexcept fun _ _ => ?_
  have hlocal : ∃ size, finalLocalSize kernel globalSize req.workDim given = .ok size := by
    cases given with
    | some => exact ⟨_, rfl⟩
    | none => exact (getDefaultLocalSize_spec _ _ hpos).imp fun _ h => h.1
  obtain ⟨size, hsize⟩ := hlocal
  rw [hsize]
  exact hexcept fun _ _ => hexcept fun _ _ => nofun

/-- With preferred sizes that are legal themselves, every call returns, and an accepted launch is
legal exactly when the checks cover its inputs. -/
theorem enqueueNDRangeKernel_legal_iff (version21 : Bool) (req : Request)
    (hpos : ∀ i, 1 ≤ (kernel.preferredLocalSize i).toNat)
    (hprod : volume kernel.preferredLocalSize [0, 1, 2] ≤ device.maxWorkGroupSize.toNat) :
    enqueueNDRangeKernel version21 device kernel req ≠ .diverges ∧
      ∀ launch, enqueueNDRangeKernel version21 device kernel req = .ok launch →
        (Legal device kernel launch ↔ Covered kernel req) := by
  refine ⟨enqueueNDRangeKernel_returns hpos, fun launch h => ?_⟩
  obtain ⟨globalSize, given, hglobal, hreqd, hsizes, hlocal⟩ := enqueueNDRangeKernel_ok h
  cases given with
  | some size =>
    have hlocal : launch.localSize = copyN size req.workDim 1 := (Outcome.ok.inj hlocal).symm
    exact ⟨fun hlegal => covered_of_legal hlegal hreqd hlocal,
      fun hcov => legal_of_covered hcov hglobal hreqd hsizes hlocal⟩
  | none =>
    obtain ⟨hgiven, hnone⟩ := Option.or_eq_none_iff.mp (checkReqdWorkGroupSize_eq hreqd).symm
    refine ⟨fun _ => ⟨by simp [hnone], by simp [hgiven, hnone]⟩, fun _ => ?_⟩
    exact legal_of_default hpos hprod hglobal hnone hlocal

end Accepted

/-- A device with a limit of `2^22` work-items in a group and in every dimension. -/
def wideDevice : Device := ⟨3, 2 ^ 22, fun _ => 2 ^ 22⟩

/-- A kernel with `reqd_work_group_size(4, 2, 1)`. -/
def flatKernel : Kernel := ⟨some ![4, 2, 1], ![64, 1, 1], []⟩

/-- A launch of 8 work-items in groups of 4 in the first dimension and, where it uses them, of 2
work-items in groups of 2 in the second and 1 in the third. -/
def flatRequest (workDim : UInt32) : Request :=
  ⟨workDim, none, some ![8, 2, 1], some ![4, 2, 1], .ok ()⟩

theorem flatKernel_preferred : (∀ i, 1 ≤ (flatKernel.preferredLocalSize i).toNat) ∧
    volume flatKernel.preferredLocalSize [0, 1, 2] ≤ wideDevice.maxWorkGroupSize.toNat := by
  decide

theorem enqueueNDRangeKernel_flat : ∃ launch,
    enqueueNDRangeKernel true wideDevice flatKernel (flatRequest 2) = .ok launch ∧
      Legal wideDevice flatKernel launch := by
  refine ⟨_, rfl, ((enqueueNDRangeKernel_legal_iff true (flatRequest 2) flatKernel_preferred.1
    flatKernel_preferred.2).2 _ rfl).mpr ⟨?_, ?_⟩⟩
  · rintro reqd hr i hi
    cases hr
    fin_cases i <;> revert hi <;> decide
  · rintro size hs
    cases hs
    decide

/-- A kernel without a required size, and a launch of one group of `2^66` work-items. -/
def freeKernel : Kernel := ⟨none, ![64, 1, 1], []⟩

def cubeRequest : Request := ⟨3, none, some fun _ => 2 ^ 22, some fun _ => 2 ^ 22, .ok ()⟩

/-- Two accepted launches that are not legal: one dimension of a kernel that requires two, and a
group whose size wraps to 0. -/
theorem enqueueNDRangeKernel_illegal :
    (∃ launch, enqueueNDRangeKernel true wideDevice flatKernel (flatRequest 1) = .ok launch ∧
      ¬Legal wideDevice flatKernel launch) ∧
    ∃ launch, enqueueNDRangeKernel true wideDevice freeKernel cubeRequest = .ok launch ∧
      ¬Legal wideDevice freeKernel launch := by
  refine ⟨⟨_, rfl, fun h => ?_⟩, ⟨_, rfl, fun h => ?_⟩⟩
  · have hlocal := congrFun (h.required _ rfl) 1
    exact absurd hlocal (by decide)
  · exact absurd h.bounded (by decide)

end ConstructionKit.NDRange
