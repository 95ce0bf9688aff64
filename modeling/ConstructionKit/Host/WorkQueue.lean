import ConstructionKit.Host.ThreadPool
import ConstructionKit.ProofKit.Runs
import Mathlib.Data.Fintype.BigOperators

/-! The work queue loses and duplicates nothing, and the counts of its users are right. -/

namespace ConstructionKit.Host.ThreadPool

open ProofKit Function Option List

variable {T : Type} [Fintype T] (items : List WorkItem)

/-! ### Items that are about to be enqueued -/

/-- Whether a call has counted an item for a user that it has not written yet. -/
def about (call : Option Call) (count : Pointer) : Nat :=
  match call with
  | some ⟨item :: _, true⟩ => if item.count = count then 1 else 0
  | _ => 0

def Pool.aboutTo (s : Pool T) (count : Pointer) : Nat := ∑ thread, about (s.calls thread) count

theorem aboutTo_setCall [DecidableEq T] (s : Pool T) (thread : T) (call : Option Call) (count : Pointer) :
    (s.setCall thread call).aboutTo count + about (s.calls thread) count =
      s.aboutTo count + about call count := by
  have hsplit (f : T → Nat) : ∑ t, f t = f thread + ∑ t ∈ Finset.univ.erase thread, f t :=
    (Finset.add_sum_erase _ _ (Finset.mem_univ thread)).symm
  have hothers : ∑ t ∈ Finset.univ.erase thread, about ((s.setCall thread call).calls t) count =
      ∑ t ∈ Finset.univ.erase thread, about (s.calls t) count := by
    refine Finset.sum_congr rfl fun t ht => ?_
    show about (Function.update s.calls thread call t) count = about (s.calls t) count
    rw [update_of_ne (Finset.ne_of_mem_erase ht)]
  rw [Pool.aboutTo, Pool.aboutTo, hsplit, hsplit fun t => about (s.calls t) count, show (s.setCall thread call).calls thread = call from update_self ..]
  omega

theorem about_uncounted (count : Pointer) :
    about (some ⟨items, false⟩) count = 0 := by
  cases items <;> rfl

/-! ### What the steps do -/

/-- What a step can do.  Only writes and takes touch the queue. -/
inductive Effect (h : History T) : History T → Prop
  | quiet {pool : Pool T} (counted : Pointer → Nat) (hqueue : pool.queue = h.pool.queue)
      (hread : pool.queueReadIndex = h.pool.queueReadIndex)
      (hwrite : pool.queueWriteIndex = h.pool.queueWriteIndex)
      (hrunning : pool.running = h.pool.running)
      (hcounts : ∀ c, pool.counts c = h.pool.counts c + UInt32.ofNat (counted c))
      (hcalls : ∀ c, pool.aboutTo c = h.pool.aboutTo c + counted c) : Effect h (h.setPool pool)
  | write {pool : Pool T} (item : WorkItem) (hroom : h.pool.queueReadIndex ≠ h.pool.nextWriteIndex)
      (hqueue : pool.queue = Function.update h.pool.queue h.pool.queueWriteIndex item)
      (hread : pool.queueReadIndex = h.pool.queueReadIndex)
      (hwrite : pool.queueWriteIndex = h.pool.nextWriteIndex)
      (hrunning : pool.running = h.pool.running) (hcounts : pool.counts = h.pool.counts)
      (hcalls : ∀ c, pool.aboutTo c + (if item.count = c then 1 else 0) = h.pool.aboutTo c) :
      Effect h { h with pool, enqueued := h.enqueued ++ [item] }
  | take (hsome : h.pool.queueReadIndex ≠ h.pool.queueWriteIndex) :
      Effect h (h.hand h.pool.take)
  | complete {pool : Pool T} (item : WorkItem) (hitem : item ∈ h.pool.running)
      (hpool : h.pool.complete item = some pool) :
      Effect h { h with pool, completed := h.completed ++ [item] }

theorem quiet_of_same {h : History T} {pool : Pool T} (hqueue : pool.queue = h.pool.queue)
    (hread : pool.queueReadIndex = h.pool.queueReadIndex)
    (hwrite : pool.queueWriteIndex = h.pool.queueWriteIndex)
    (hrunning : pool.running = h.pool.running) (hcounts : pool.counts = h.pool.counts)
    (hcalls : ∀ c, pool.aboutTo c = h.pool.aboutTo c) : Effect h (h.setPool pool) :=
  .quiet (fun _ => 0) hqueue hread hwrite hrunning
    (fun c => by rw [hcounts]; exact (UInt32.add_zero _).symm) hcalls

theorem quiet_countItem [DecidableEq T] (h : History T) (thread : T) (item : WorkItem) (items : List WorkItem)
    (hcall : ∀ c, about (h.pool.calls thread) c = 0) :
    Effect h (h.setPool
      ((h.pool.countItem item).setCall thread (some ⟨item :: items, true⟩))) := by
  refine .quiet (fun c => if item.count = c then 1 else 0) rfl rfl rfl rfl (fun c => ?_) fun c => ?_
  · simp only [Pool.setCall, Pool.countItem, update_apply]
    by_cases hc : c = item.count
    · rw [if_pos hc, if_pos hc.symm, hc]
      rfl
    · rw [if_neg hc, if_neg (Ne.symm hc)]
      exact (UInt32.add_zero _).symm
  · have hcalls := aboutTo_setCall (h.pool.countItem item) thread (some ⟨item :: items, true⟩) c
    rw [show about ((h.pool.countItem item).calls thread) c = 0 from hcall c] at hcalls
    exact hcalls

theorem step_effect [DecidableEq T] {h h' : History T} {event : Event T} (hstep : h.step event = some h') :
    Effect h h' := by
  cases event with
  | enqueue thread item =>
    obtain ⟨pool, hpool, rfl⟩ := map_eq_some_iff.1 hstep
    unfold Pool.enqueue at hpool
    split at hpool
    · cases hpool
    · rename_i hcall
      cases hpool
      exact quiet_countItem h thread item [] fun c => by rw [hcall]; rfl
  | enqueueRange thread function userData userData2 signals count slices =>
    obtain ⟨pool, hpool, rfl⟩ := map_eq_some_iff.1 hstep
    unfold Pool.enqueueRange at hpool
    split at hpool
    · cases hpool
    · rename_i hcall
      cases hpool
      refine quiet_of_same rfl rfl rfl rfl rfl fun c => ?_
      have hcalls := aboutTo_setCall h.pool thread (some ⟨Pool.rangeItems function userData userData2
        signals count slices, false⟩) c
      rw [hcall, about_uncounted] at hcalls
      exact hcalls
  | lock =>
    obtain ⟨pool, hpool, rfl⟩ := map_eq_some_iff.1 hstep
    unfold Pool.lock at hpool
    split at hpool
    · cases hpool
      exact quiet_of_same rfl rfl rfl rfl rfl fun _ => rfl
    · cases hpool
  | countFirst thread =>
    obtain ⟨pool, hpool, rfl⟩ := map_eq_some_iff.1 hstep
    unfold Pool.countFirst at hpool
    split at hpool
    · rename_i item items hcall
      split at hpool
      · cases hpool
        exact quiet_countItem h thread item items fun c => by rw [hcall]; rfl
      · cases hpool
    · cases hpool
  | wait =>
    obtain ⟨pool, hpool, rfl⟩ := map_eq_some_iff.1 hstep
    unfold Pool.wait at hpool
    split at hpool
    · split at hpool
      · cases hpool
        exact quiet_of_same rfl rfl rfl rfl rfl fun _ => rfl
      · cases hpool
    · cases hpool
  | write thread =>
    obtain ⟨⟨item, pool⟩, hpool, rfl⟩ := map_eq_some_iff.1 hstep
    unfold Pool.write at hpool
    split at hpool
    · rename_i item' items hcall
      split at hpool
      · rename_i hroom
        obtain ⟨rfl, rfl⟩ := Prod.mk.inj (Option.some.inj hpool)
        refine .write item' hroom.2 rfl rfl rfl rfl rfl fun c => ?_
        have hcalls := aboutTo_setCall h.pool thread (some ⟨items, false⟩) c
        rw [hcall, about_uncounted] at hcalls
        exact hcalls
      · cases hpool
    · cases hpool
  | unlock thread =>
    obtain ⟨pool, hpool, rfl⟩ := map_eq_some_iff.1 hstep
    unfold Pool.unlock at hpool
    split at hpool
    · rename_i counted hcall
      split at hpool
      · cases hpool
        refine quiet_of_same rfl rfl rfl rfl rfl fun c => ?_
        have hcalls := aboutTo_setCall h.pool thread none c
        rw [hcall] at hcalls
        exact hcalls
      · cases hpool
    · cases hpool
  | getWork =>
    obtain ⟨result, hresult, rfl⟩ := map_eq_some_iff.1 hstep
    unfold Pool.getWork at hresult
    split at hresult
    · cases hresult
    · split at hresult
      · cases hresult
        exact quiet_of_same rfl rfl rfl rfl rfl fun _ => rfl
      · split at hresult
        · rename_i hsome
          cases hresult
          exact .take hsome
        · cases hresult
  | tryGetWork =>
    obtain ⟨result, hresult, rfl⟩ := map_eq_some_iff.1 hstep
    unfold Pool.tryGetWork at hresult
    split at hresult
    · cases hresult
    · split at hresult
      · cases hresult
        exact quiet_of_same rfl rfl rfl rfl rfl fun _ => rfl
      · rename_i hsome
        cases hresult
        exact .take hsome
  | complete item =>
    obtain ⟨pool, hpool, rfl⟩ := map_eq_some_iff.1 hstep
    refine .complete item ?_ hpool
    unfold Pool.complete at hpool
    split at hpool
    · assumption
    · cases hpool
  | kill =>
    obtain ⟨pool, hpool, rfl⟩ := map_eq_some_iff.1 hstep
    unfold Pool.kill at hpool
    split at hpool
    · cases hpool
    · cases hpool
      exact quiet_of_same rfl rfl rfl rfl rfl fun _ => rfl

/-! ### The invariant -/

/-- The items of a user in a list. -/
def itemsOf (items : List WorkItem) (count : Pointer) : Nat := items.countP (·.count = count)

namespace History

variable {h h' : History T}

structure Inv (h : History T) : Prop where
  readIndex : h.pool.queueReadIndex < queueMax
  writeIndex : h.pool.queueWriteIndex < queueMax
  order : h.handed ++ h.pool.unread = h.enqueued
  once : h.handed.Perm (h.completed ++ h.pool.running)
  counts : ∀ c, h.pool.counts c + UInt32.ofNat (itemsOf h.completed c) =
    UInt32.ofNat (itemsOf h.enqueued c + h.pool.aboutTo c)

theorem inv_create (queue : Nat → WorkItem) : (create queue : History T).Inv := by
  have hmax : 0 < queueMax := by decide
  refine ⟨hmax, hmax, ?_, List.Perm.refl _, fun c => ?_⟩
  · simp only [create, Pool.create, Pool.unread, Pool.unreadSlots]
    rfl
  · simp [create, Pool.create, Pool.aboutTo, about]

theorem itemsOf_append (item : WorkItem) (c : Pointer) :
    itemsOf (items ++ [item]) c = itemsOf items c + if item.count = c then 1 else 0 := by
  simp [itemsOf]

theorem Inv.effect (hinv : h.Inv) (heffect : Effect h h') : h'.Inv := by
  obtain ⟨hread, hwrite, horder, honce, hcounts⟩ := hinv
  cases heffect with
  | @quiet pool counted hqueue' hread' hwrite' hrunning hcounts' hcalls =>
    have hunread : pool.unread = h.pool.unread := by
      rw [Pool.unread, Pool.unread, Pool.unreadSlots, Pool.unreadSlots, hqueue', hread', hwrite']
    refine ⟨hread'.symm ▸ hread, hwrite'.symm ▸ hwrite, ?_, ?_, fun c => ?_⟩
    · simpa only [setPool, hunread] using horder
    · simpa only [setPool, hrunning] using honce
    · simp only [setPool, hcounts', hcalls, ← Nat.add_assoc]
      rw [UInt32.ofNat_add (_ + _), ← hcounts c, UInt32.add_assoc, UInt32.add_comm (UInt32.ofNat _),
        ← UInt32.add_assoc]
  | @write pool item hroom hqueue' hread' hwrite' hrunning hcounts' hcalls =>
    have hslots : pool.unreadSlots = h.pool.unreadSlots ++ [h.pool.queueWriteIndex] := by
      rw [Pool.unreadSlots, hread', hwrite']
      exact unreadSlots_push hread hwrite hroom
    have hunread : pool.unread = h.pool.unread ++ [item] := by
      rw [Pool.unread, hslots, map_append, map_singleton, hqueue', update_self]
      congr 1
      refine map_congr_left fun i hi => update_of_ne ?_ _ _
      rintro rfl
      exact not_mem_unreadSlots hread hwrite hi
    refine ⟨hread'.symm ▸ hread, ?_, ?_, ?_, fun c => ?_⟩
    · simp only [hwrite']
      exact Nat.mod_lt _ (by decide)
    · simp only [hunread, ← append_assoc, horder]
    · simpa only [hrunning] using honce
    · simp only [hcounts', itemsOf_append, hcounts c, ← hcalls c]
      congr 1
      omega
  | take hsome =>
    have hslots := unreadSlots_pop hread hwrite hsome
    refine ⟨Nat.mod_lt _ (by decide), hwrite, ?_, ?_, hcounts⟩
    · rw [Pool.unread, Pool.unreadSlots, hslots] at horder
      simp only [hand, Pool.take, append_assoc]
      exact horder
    · simp only [hand, Pool.take, ← append_assoc]
      exact honce.append_right _
  | @complete pool item hitem hpool =>
    rw [Pool.complete, if_pos hitem] at hpool
    cases hpool
    refine ⟨hread, hwrite, horder, ?_, fun c => ?_⟩
    · rw [append_assoc]
      exact honce.trans ((perm_cons_erase hitem).append_left _)
    · rw [itemsOf_append]
      simp only [update_apply]
      have hc := hcounts c
      by_cases heq : c = item.count
      · subst heq
        rw [if_pos rfl, if_pos rfl, UInt32.ofNat_add, UInt32.add_comm (UInt32.ofNat _),
          ← UInt32.add_assoc, show UInt32.ofNat 1 = 1 from rfl, UInt32.sub_add_cancel]
        exact hc
      · rw [if_neg heq, if_neg (Ne.symm heq)]
        exact hc

/-- A slot that is not read is not overwritten. -/
theorem queue_of_effect (hinv : h.Inv) (heffect : Effect h h') {slot : Nat}
    (hslot : slot ∈ h.pool.unreadSlots) : h'.pool.queue slot = h.pool.queue slot := by
  cases heffect with
  | quiet _ hqueue => exact congrFun hqueue slot
  | write item _ hqueue =>
    refine (congrFun hqueue slot).trans (update_of_ne ?_ _ _)
    rintro rfl
    exact not_mem_unreadSlots hinv.readIndex hinv.writeIndex hslot
  | take => rfl
  | @complete pool item hitem hpool =>
    rw [Pool.complete, if_pos hitem] at hpool
    cases hpool
    rfl

/-- The items of a user that are written, or counted to be written, and not complete. -/
def outstanding (h : History T) (count : Pointer) : Nat :=
  itemsOf h.enqueued count + h.pool.aboutTo count - itemsOf h.completed count

/-- The items that workers have got are those that were enqueued, but for the ones that are still to be
read, in the same order; they are complete or run; and a count is the number of items of its user
that are not complete, as far as its 32 bits go. -/
structure Sound (h : History T) : Prop where
  order : h.handed ++ h.pool.unread = h.enqueued
  once : h.handed.Perm (h.completed ++ h.pool.running)
  counts : ∀ c, (h.pool.counts c).toNat = h.outstanding c % 2 ^ 32

theorem Inv.sound (hinv : h.Inv) : h.Sound := by
  refine ⟨hinv.order, hinv.once, fun c => ?_⟩
  have hcompleted : itemsOf h.completed c ≤ itemsOf h.enqueued c := by
    have honce := hinv.once.countP_eq fun item => decide (item.count = c)
    rw [countP_append] at honce
    simp only [itemsOf, ← hinv.order, countP_append]
    omega
  have hsum : itemsOf h.enqueued c + h.pool.aboutTo c =
      h.outstanding c + itemsOf h.completed c := by
    rw [outstanding]
    omega
  have hcounts := hinv.counts c
  rw [hsum, UInt32.ofNat_add, UInt32.add_left_inj] at hcounts
  rw [hcounts, UInt32.toNat_ofNat']

end History

/-- In every run the work queue hands out the items that were enqueued, each once and in that order,
overwrites none that has not been read, and keeps the counts of its users. -/
theorem workQueue_sound [DecidableEq T] {queue : Nat → WorkItem} {h : History T}
    (hrun : Runs History.step (fun _ _ => True) (.create queue) h) :
    h.Sound ∧ ∀ event h', h.step event = some h' →
      ∀ slot ∈ h.pool.unreadSlots, h'.pool.queue slot = h.pool.queue slot := by
  have hinv : h.Inv := by
    apply hrun.invariant
    · intro s t event _ hstep hs
      exact hs.effect (step_effect hstep)
    · exact History.inv_create queue
  exact ⟨hinv.sound, fun event h' hstep slot hslot =>
    History.queue_of_effect hinv (step_effect hstep) hslot⟩

def oneItem : WorkItem := ⟨1, 2, 3, 4, 0, some 5, 6⟩

/-- One item from the call to the worker. -/
theorem workQueue_sound_oneItem : ∃ h : History Unit,
    Runs History.step (fun _ _ => True) (.create fun _ => oneItem) h ∧ h.handed = [oneItem] ∧
      h.pool.counts 6 = 1 ∧ h.Sound := by
  have hrun := Runs.follow_getD History.step (fun _ _ => True)
    (.create fun _ => oneItem : History Unit)
    [.enqueue () oneItem, .lock (), .write (), .unlock (), .getWork] (.create fun _ => oneItem) rfl
  exact ⟨_, hrun, rfl, rfl, (workQueue_sound hrun).1⟩

/-! ### More items than a count can hold -/

/-- Any number of threads can be in a call before one of them writes its item. -/
theorem exists_pending (n : Nat) {k : Nat} (hk : k ≤ n) :
    ∃ h : History (Fin n), Runs History.step (fun _ _ => True) (.create fun _ => oneItem) h ∧
      h.outstanding 6 = k ∧ h.enqueued = [] ∧ h.completed = [] ∧
      ∀ t : Fin n, k ≤ t.val → h.pool.calls t = none := by
  induction k with
  | zero =>
    refine ⟨_, .refl, ?_, rfl, rfl, fun _ _ => rfl⟩
    simp [History.outstanding, History.create, Pool.create, Pool.aboutTo, about]
  | succ k ih =>
    obtain ⟨h, hrun, hk', henqueued, hcompleted, hcalls⟩ := ih (by omega)
    let thread : Fin n := ⟨k, hk⟩
    let pool := (h.pool.countItem oneItem).setCall thread (some ⟨[oneItem], true⟩)
    have hstep : h.step (.enqueue thread oneItem) = some (h.setPool pool) := by
      rw [History.step, Pool.enqueue, hcalls thread (Nat.le_refl k)]
      rfl
    refine ⟨h.setPool pool, hrun.tail trivial hstep, ?_, henqueued, hcompleted, fun t ht => ?_⟩
    · have habout := aboutTo_setCall (h.pool.countItem oneItem) thread (some ⟨[oneItem], true⟩) 6
      rw [show (h.pool.countItem oneItem).calls thread = none from hcalls thread (Nat.le_refl k)]
        at habout
      simp only [History.outstanding, History.setPool, henqueued, hcompleted,
        Nat.add_sub_cancel_left] at hk' ⊢
      exact habout.trans (congrArg (· + 1) hk')
    · have hne : t ≠ thread := by
        rintro rfl
        exact absurd ht (Nat.not_succ_le_self k)
      exact (update_of_ne hne _ _).trans (hcalls t (by omega))

/-- A count is back at zero when 2^32 threads are in a call. -/
theorem workQueue_count_wraps : ∃ h : History (Fin (2 ^ 32)),
    Runs History.step (fun _ _ => True) (.create fun _ => oneItem) h ∧
      (h.pool.counts 6).toNat ≠ h.outstanding 6 := by
  obtain ⟨h, hrun, houtstanding, -⟩ := exists_pending (2 ^ 32) (Nat.le_refl _)
  refine ⟨h, hrun, ?_⟩
  have hlt := (h.pool.counts 6).toNat_lt
  omega

end ConstructionKit.Host.ThreadPool
