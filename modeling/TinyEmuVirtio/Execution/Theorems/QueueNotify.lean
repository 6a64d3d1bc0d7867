import TinyEmuVirtio.Execution.Chain

namespace Virtio

variable {σ α β : Type}

/-! `queue_notify` as a count of the entries made available -/

-- The loop of `queue_notify` as the driver reads it: from `L`, the `last_avail_idx` it starts
-- from, the entries `k` of the available ring in order, `r` of them. Each visit reads the head in
-- slot `((L + k) mod 2^16) & (num - 1)` and hands a chain that `get_desc_rw_size` accepts to
-- `device_recv`; a negative result stops the loop before the entry is counted, and otherwise
-- `last_avail_idx` becomes `(L + k + 1) mod 2^16`.
def queueNotifySpec.visit (recv : DeviceRecv σ) (fuel : Nat) (q : Fin maxQueue) (L : BitVec 16) :
    Nat → Nat → VirtioM σ Unit
  | _, 0 => pure ()
  | k, r + 1 => do
    let qs ← getQueue q
    let descIdx ← virtioRead16 q .avail
      (qs.availAddr + 4 + ((BitVec.ofNat 32 ((L.toNat + k) % 2 ^ 16) &&& (qs.num - 1)) * 2).setWidth 64)
    if let some (readSize, writeSize) ← getDescRwSize fuel q descIdx then
      if (← recv fuel q descIdx readSize writeSize) < 0 then return
    modifyDev (·.updateQueue q ({ · with lastAvailIdx := BitVec.ofNat 16 (L.toNat + k + 1) }))
    visit recv fuel q L (k + 1) r

-- `queue_notify` with its `while` loop read as `(A - L) mod 2^16` visits, where `A` is the
-- `avail.idx` it reads.
def queueNotifySpec (recv : DeviceRecv σ) (fuel : Nat) (q : Fin maxQueue) : VirtioM σ Unit := do
  let qs ← getQueue q
  let availIdx ← virtioRead16 q .avail (qs.availAddr + 2)
  modifyDev (·.updateQueue q ({ · with availIdx }))
  if qs.manualRecv then return
  queueNotifySpec.visit recv fuel q qs.lastAvailIdx 0 (availIdx - qs.lastAvailIdx).toNat

-- One turn of the loop of `queue_notify` past its test against `avail_idx`: the head in the slot
-- of `last_avail_idx` goes to `device_recv` where `get_desc_rw_size` accepts its chain. `false`
-- where `device_recv` refuses it and the loop returns; otherwise `last_avail_idx` moves past it.
def queueNotifyEntry (recv : DeviceRecv σ) (fuel : Nat) (q : Fin maxQueue) : VirtioM σ Bool := do
  let descIdx ← nextAvailDesc q
  if let some (readSize, writeSize) ← getDescRwSize fuel q descIdx then
    if (← recv fuel q descIdx readSize writeSize) < 0 then return false
  incLastAvailIdx q
  return true

-- The loop of `queue_notify` takes the entries made available one by one.
theorem queueNotify_loop_succ (recv : DeviceRecv σ) (fuel : Nat) (q : Fin maxQueue)
    (A : BitVec 16) (n : Nat) :
    queueNotify.loop recv fuel q A (n + 1) = (do
      if (← getQueue q).lastAvailIdx = A then return
      if ← queueNotifyEntry recv fuel q then queueNotify.loop recv fuel q A n) := by
  funext m
  show (queueNotify.loop recv fuel q A (n + 1)).run m = (_ : VirtioM σ Unit).run m
  rw [queueNotify.loop, getQueue_bind_run, getQueue_bind_run]
  dsimp only
  split
  · rfl
  simp only [queueNotifyEntry, pure_bind, bind_assoc]
  rw [nextAvailDesc_bind_run, virtioRead16_bind_run]
  congr 1
  congr 1
  funext o
  rcases o with _ | ⟨r, w⟩
  · simp [incLastAvailIdx]
  · simp only [bind_assoc]
    congr 1
    funext i
    split <;> simp [incLastAvailIdx]

-- Two runs that agree after a step keeping `P` agree.
theorem Keeps.bind_run_congr {P : Machine σ → Prop} {x : VirtioM σ β} {f g : β → VirtioM σ α}
    {m : Machine σ} (hx : Keeps P x) (hm : P m) (h : ∀ b m', P m' → (f b).run m' = (g b).run m') :
    (x >>= f).run m = (x >>= g).run m := by
  rw [StateT.run_bind, StateT.run_bind]
  rcases hx' : x.run m with e | ⟨b, m'⟩
  · rfl
  · exact h b m' (hx.run m b m' hx' hm)

theorem Triple.and {P P' : Machine σ → Prop} {x : VirtioM σ α} {Q Q' : α → Machine σ → Prop}
    (h : Triple P x Q) (h' : Triple P' x Q') :
    Triple (fun m => P m ∧ P' m) x fun a m => Q a m ∧ Q' a m :=
  ⟨fun m a m' hx hm => ⟨h.run m a m' hx hm.1, h'.run m a m' hx hm.2⟩⟩

section
variable {recv : DeviceRecv σ} {fuel : Nat} {q : Fin maxQueue} {L A : BitVec 16}
  (hr : ∀ d r w v, Preserves (fun s => (s.queue q).lastAvailIdx = v) (recv fuel q d r w))
include hr

-- The `while` loop, from `last_avail_idx = L + k` with `r` entries left and fuel for more, is
-- the `r` remaining visits.
theorem loop_eq_visit : ∀ r k n (m : Machine σ), k + r = (A - L).toNat → r < n →
      (m.dev.queue q).lastAvailIdx = BitVec.ofNat 16 (L.toNat + k) →
      (queueNotify.loop recv fuel q A n).run m = (queueNotifySpec.visit recv fuel q L k r).run m
  | 0, k, n + 1, m, hk, _, hl => by
    have : (m.dev.queue q).lastAvailIdx = A := by
      rw [hl]; apply BitVec.eq_of_toNat_eq; simp only [BitVec.toNat_ofNat, BitVec.toNat_sub] at hk ⊢; omega
    rw [queueNotify.loop, getQueue_bind_run]
    dsimp only
    rw [if_pos this]
    rfl
  | r + 1, k, n + 1, m, hk, hn, hl => by
    have hne : (m.dev.queue q).lastAvailIdx ≠ A := by
      rw [hl]; intro h; have := congrArg BitVec.toNat h
      simp only [BitVec.toNat_ofNat, BitVec.toNat_sub] at hk this; omega
    have hslot : (m.dev.queue q).lastAvailIdx.setWidth 32 = BitVec.ofNat 32 ((L.toNat + k) % 2 ^ 16) := by
      rw [hl]; apply BitVec.eq_of_toNat_eq; simp
    have hinc : BitVec.ofNat 16 (L.toNat + k) + 1 = BitVec.ofNat 16 (L.toNat + k + 1) := by
      apply BitVec.eq_of_toNat_eq; simp only [BitVec.toNat_add, BitVec.toNat_ofNat]; bv_omega
    rw [queueNotify.loop, queueNotifySpec.visit, getQueue_bind_run, getQueue_bind_run]
    dsimp only
    rw [if_neg hne, pure_bind, hslot, virtioRead16_bind_run, virtioRead16_bind_run]
    refine Keeps.bind_run_congr (Preserves.getDescRwSize (I := fun s => (s.queue q).lastAvailIdx = _) _ _ _) hl fun o m' hm' => ?_
    have tail : ∀ m'' : Machine σ, (m''.dev.queue q).lastAvailIdx = BitVec.ofNat 16 (L.toNat + k) →
        (getQueue q >>= fun qs => modifyDev (·.updateQueue q ({ · with lastAvailIdx := qs.lastAvailIdx + 1 })) >>= fun _ => queueNotify.loop recv fuel q A n).run m'' =
        (modifyDev (·.updateQueue q ({ · with lastAvailIdx := BitVec.ofNat 16 (L.toNat + k + 1) })) >>= fun _ => queueNotifySpec.visit recv fuel q L (k + 1) r).run m'' := by
      intro m'' h''
      rw [getQueue_bind_run, h'', hinc, modifyDev_bind_run, modifyDev_bind_run]
      exact loop_eq_visit r (k + 1) n _ (by omega) (by omega) (by simp [Nat.add_assoc])
    rcases o with _ | ⟨rs, ws⟩
    · exact tail m' hm'
    · refine Keeps.bind_run_congr (hr _ _ _ _) hm' fun i m'' hm'' => ?_
      split
      · rfl
      · exact tail m'' hm''
theorem queueNotify_eq_spec {m : Machine σ}
    (hfuel : (availIdxAt m.ram (m.dev.queue q) - (m.dev.queue q).lastAvailIdx).toNat < fuel) :
    (queueNotify recv fuel q).run m = (queueNotifySpec recv fuel q).run m := by
  rw [queueNotify, queueNotifySpec, getQueue_bind_run, getQueue_bind_run, virtioRead16_bind_run,
    virtioRead16_bind_run, modifyDev_bind_run, modifyDev_bind_run]
  dsimp only
  split
  · rfl
  · exact loop_eq_visit hr _ 0 fuel _ (by simp) hfuel (by simp)

section
variable (hpos : ∀ d r w, Triple (fun _ => True) (recv fuel q d r w) fun i _ => 0 ≤ i)
include hpos

-- Where `device_recv` never refuses an entry, every visit counts its entry.
theorem visit_counts_all : ∀ r k, Triple
    (fun m => (m.dev.queue q).lastAvailIdx = BitVec.ofNat 16 (L.toNat + k))
    (queueNotifySpec.visit recv fuel q L k r)
    fun _ m => (m.dev.queue q).lastAvailIdx = BitVec.ofNat 16 (L.toNat + k + r)
  | 0, _ => Triple.pure fun _ h => h
  | r + 1, k => by
    have tail : Triple (fun m => (m.dev.queue q).lastAvailIdx = BitVec.ofNat 16 (L.toNat + k))
        (modifyDev (·.updateQueue q ({ · with lastAvailIdx := BitVec.ofNat 16 (L.toNat + k + 1) }))
          >>= fun _ => queueNotifySpec.visit recv fuel q L (k + 1) r)
        fun _ m => (m.dev.queue q).lastAvailIdx = BitVec.ofNat 16 (L.toNat + k + (r + 1)) :=
      Triple.bind ((Triple.modifyDev _).mono (fun _ _ => by simp [Nat.add_assoc]) fun _ _ h => h)
        fun _ => (visit_counts_all r (k + 1)).mono (fun _ h => h) fun _ _ h => by
          rw [h]; congr 1; omega
    have hP := ReadFrame.dev (σ := σ) fun s => (s.queue q).lastAvailIdx = BitVec.ofNat 16 (L.toNat + k)
    rw [queueNotifySpec.visit]
    refine Triple.bindK (Keeps.getQueue q) fun _ => Triple.bindK (Keeps.virtioRead16 hP _ _ _)
      fun d => Triple.bindK (Keeps.getDescRwSize hP _ _ _) fun o => ?_
    dsimp only
    rcases o with _ | ⟨rs, ws⟩
    · exact Triple.bind (Triple.pure fun _ h => h) fun _ => tail
    · refine Triple.bind (((hr d rs ws _).and (hpos d rs ws)).mono (fun _ h => ⟨h, trivial⟩)
        fun _ _ h => h) fun i => ?_
      split
      · exact Triple.pure fun _ h => absurd h.2 (by omega)
      · exact Triple.bind (Triple.pure fun _ h => h.1) fun _ => tail

-- So a `queue_notify` of a queue that is not `manual_recv` returns with `last_avail_idx` caught
-- up with the `avail.idx` it read.
theorem queueNotify_catches_up {m m' : Machine σ}
    (hfuel : (availIdxAt m.ram (m.dev.queue q) - (m.dev.queue q).lastAvailIdx).toNat < fuel)
    (hm : (m.dev.queue q).manualRecv = false) (h : (queueNotify recv fuel q).run m = .ok ((), m')) :
    (m'.dev.queue q).lastAvailIdx = availIdxAt m.ram (m.dev.queue q) := by
  rw [queueNotify_eq_spec hr hfuel, queueNotifySpec, getQueue_bind_run, virtioRead16_bind_run,
    modifyDev_bind_run] at h
  simp only [hm, Bool.false_eq_true, if_false] at h
  rw [(visit_counts_all hr hpos _ 0).run _ _ _ h (by simp)]
  apply BitVec.eq_of_toNat_eq
  simp only [availIdxAt, BitVec.toNat_ofNat, BitVec.toNat_sub, Nat.add_zero]
  omega

end

-- `queue_notify` visits the `(A - L) mod 2^16` entries made available in order, across the
-- 16-bit wrap, as `queueNotifySpec` reads them; and where no call refuses an entry, it returns
-- with `last_avail_idx = A`.
theorem queueNotify_visits_available_entries {m : Machine σ}
    (hfuel : (availIdxAt m.ram (m.dev.queue q) - (m.dev.queue q).lastAvailIdx).toNat < fuel) :
    (queueNotify recv fuel q).run m = (queueNotifySpec recv fuel q).run m ∧
      ((∀ d r w, Triple (fun _ => True) (recv fuel q d r w) fun i _ => 0 ≤ i) →
        (m.dev.queue q).manualRecv = false → ∀ m', (queueNotify recv fuel q).run m = .ok ((), m') →
          (m'.dev.queue q).lastAvailIdx = availIdxAt m.ram (m.dev.queue q)) :=
  ⟨queueNotify_eq_spec hr hfuel, fun hpos hm _ h => queueNotify_catches_up hr hpos hfuel hm h⟩

end

-- Two entries made available across the wrap, from `last_avail_idx = 0xffff` to `avail.idx = 1`,
-- with a `device_recv` that takes every entry.
theorem queueNotify_visits_across_wrap :
    (availIdxAt (writeRam (fun _ => 0) 2 [1, 0])
        ((virtioEntropyInit.updateQueue 0 ({ · with lastAvailIdx := 0xffff })).queue 0) -
      ((virtioEntropyInit.updateQueue 0 ({ · with lastAvailIdx := 0xffff })).queue 0).lastAvailIdx).toNat
      < 3 ∧
    (queueNotify (σ := Unit) (fun _ _ _ _ _ => pure 0) 3 0).run
        ⟨virtioEntropyInit.updateQueue 0 ({ · with lastAvailIdx := 0xffff }),
          writeRam (fun _ => 0) 2 [1, 0], [], ()⟩ =
      (queueNotifySpec (fun _ _ _ _ _ => pure 0) 3 0).run
        ⟨virtioEntropyInit.updateQueue 0 ({ · with lastAvailIdx := 0xffff }),
          writeRam (fun _ => 0) 2 [1, 0], [], ()⟩ :=
  ⟨by decide, (queueNotify_visits_available_entries (fun _ _ _ _ => Preserves.pure 0) (by decide)).1⟩

end Virtio
