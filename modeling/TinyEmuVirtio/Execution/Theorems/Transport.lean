import TinyEmuVirtio.Execution.Devices

namespace Virtio

/-! Ring arithmetic: `idx & (num - 1)` for a power of two `num`. -/

theorem testBit_of_two_pow_le {x k : Nat} (h1 : 2 ^ k ≤ x) (h2 : x < 2 ^ (k + 1)) :
    x.testBit k = true := by
  have : x / 2 ^ k = 1 :=
    Nat.div_eq_of_lt_le (by rw [Nat.one_mul]; exact h1) (by rw [Nat.pow_succ] at h2; omega)
  rw [Nat.testBit_to_div_mod, decide_eq_true_eq, this]

-- A positive `n` with `n & (n - 1) = 0` is a power of two: otherwise its top bit is set in
-- `n - 1` too.
theorem isPowerOfTwo_of_and_sub_one {n : Nat} (h : n &&& (n - 1) = 0) (hn : 0 < n) :
    n.isPowerOfTwo := by
  refine ⟨n.log2, ?_⟩
  have h1 : 2 ^ n.log2 ≤ n := Nat.log2_self_le (by omega)
  have h2 : n < 2 ^ (n.log2 + 1) := Nat.lt_log2_self
  by_contra hne
  have h3 : 2 ^ n.log2 ≤ n - 1 := by omega
  have := congrArg (·.testBit n.log2) h
  simp only [Nat.testBit_and, testBit_of_two_pow_le h1 h2, testBit_of_two_pow_le h3 (by omega),
    Nat.zero_testBit, Bool.and_self, Bool.true_eq_false] at this

theorem toNat_sub_one {v : BitVec 32} (h : 0 < v.toNat) : (v - 1).toNat = v.toNat - 1 := by
  rw [BitVec.toNat_sub, show (1 : BitVec 32).toNat = 1 from rfl]
  omega

theorem isPow2_isPowerOfTwo {v : BitVec 32} (h : isPow2 v) : v.toNat.isPowerOfTwo := by
  simp only [isPow2, decide_eq_true_eq] at h
  have hv : 0 < v.toNat := h.2
  apply isPowerOfTwo_of_and_sub_one _ hv
  rw [← toNat_sub_one hv, ← BitVec.toNat_and, h.1]
  rfl

theorem and_sub_one_toNat {num : BitVec 32} (h : num.toNat.isPowerOfTwo) (idx : BitVec 32) :
    (idx &&& (num - 1)).toNat = idx.toNat % num.toNat := by
  obtain ⟨k, hk⟩ := h
  rw [BitVec.toNat_and, toNat_sub_one (hk ▸ Nat.pos_pow_of_pos k (by decide)), hk,
    Nat.and_pow_two_sub_one_eq_mod]

/-! The transport's invariant -/

-- What the transport keeps of its registers along every run: the queue selector and the
-- notification bits stay below `MAX_QUEUE`, and each queue's `num` is a power of two and its
-- `ready` 0 or 1.
structure TransportInv (t : TransportRegs) : Prop where
  queueSel_lt : t.queueSel.toNat < maxQueue
  num_pow2 : ∀ q, (t.queue q).num.toNat.isPowerOfTwo
  ready_le : ∀ q, (t.queue q).ready.toNat ≤ 1
  pending_lt : t.pendingQueueNotify.toNat < 2 ^ maxQueue

theorem updateQueue_queue (s : VirtioDevice) (q i : Fin maxQueue) (f : QueueState → QueueState) :
    (s.updateQueue q f).queue i = if i = q then f (s.queue q) else s.queue i :=
  Function.update_apply ..

namespace TransportInv

variable {s : VirtioDevice}

-- An update of one queue that keeps its `num` a power of two and its `ready` at most 1.
theorem updateQueue (hs : TransportInv s.transport) (q : Fin maxQueue) {f : QueueState → QueueState}
    (hnum : ∀ x : QueueState, x.num.toNat.isPowerOfTwo → (f x).num.toNat.isPowerOfTwo)
    (hready : ∀ x : QueueState, x.ready.toNat ≤ 1 → (f x).ready.toNat ≤ 1) :
    TransportInv (s.updateQueue q f).transport := by
  refine ⟨hs.queueSel_lt, fun i => ?_, fun i => ?_, hs.pending_lt⟩ <;>
    simp only [VirtioDevice.transport, QueueState.regs, updateQueue_queue] <;> split
  · subst_vars; exact hnum _ (hs.num_pow2 _)
  · exact hs.num_pow2 i
  · subst_vars; exact hready _ (hs.ready_le _)
  · exact hs.ready_le i

end TransportInv

theorem transportInv_invariant : Invariant (fun s => TransportInv s.transport) where
  internal s s' h hs := by
    cases h with
    | consume => exact ⟨hs.1, hs.2, hs.3, hs.4⟩
    | availIdx q | lastAvailIdx q => exact hs.updateQueue q (fun _ => id) (fun _ => id)
    | exchange => exact ⟨hs.1, hs.2, hs.3, Nat.two_pow_pos _⟩
    | configChange => exact ⟨hs.1, hs.2, hs.3, hs.4⟩
  regWrite s s' h hs := by
    cases h with
    | unchanged | config | deviceFeaturesSel | driverFeaturesSel | driverFeatures | status
    | isrRead => exact ⟨hs.1, hs.2, hs.3, hs.4⟩
    | queueSel v hv => exact ⟨hv, hs.2, hs.3, hs.4⟩
    | num q v hv => exact hs.updateQueue q (fun _ _ => isPow2_isPowerOfTwo hv) (fun _ => id)
    | descAddr q | availAddr q | usedAddr q => exact hs.updateQueue q (fun _ => id) (fun _ => id)
    | ready q v =>
      exact hs.updateQueue q (fun _ => id) fun _ _ => by
        rw [BitVec.toNat_and]; exact Nat.le_trans Nat.and_le_right (by decide)
    | reset => exact ⟨Nat.zero_lt_succ _, fun _ => ⟨4, rfl⟩, fun _ => Nat.zero_le _, hs.4⟩
    | notify v hv =>
      refine ⟨hs.1, hs.2, hs.3, ?_⟩
      simp only [VirtioDevice.transport, VirtioDevice.asyncQueueNotify, BitVec.toNat_or,
        BitVec.toNat_shiftLeft]
      refine Nat.or_lt_two_pow hs.4 (Nat.lt_of_le_of_lt (Nat.mod_le _ _) ?_)
      show 1 <<< v.toNat < 2 ^ maxQueue
      rw [Nat.one_shiftLeft]
      exact Nat.pow_lt_pow_of_lt (by decide) hv
    | interruptAck v =>
      unfold interruptAck
      dsimp only
      split <;> exact ⟨hs.1, hs.2, hs.3, hs.4⟩

theorem transportInv_init : TransportInv (virtioInit 0 0).transport :=
  ⟨Nat.zero_lt_succ _, fun _ => ⟨4, rfl⟩, fun _ => Nat.zero_le _, Nat.two_pow_pos _⟩

theorem reachableDev_transportInv {s : VirtioDevice} (h : ReachableDev s) :
    TransportInv s.transport ∧ (∃ q, s.selQueue = .ok q) ∧
      (∀ j, s.pendingQueueNotify.getLsbD j → j < maxQueue) ∧
      ∀ q (idx : BitVec 32),
        (idx &&& ((s.queue q).num - 1)).toNat = idx.toNat % (s.queue q).num.toNat := by
  have hs := h.preserves transportInv_invariant (fun _ _ ht hs => ht ▸ hs) transportInv_init
  refine ⟨hs, ⟨_, VirtioDevice.selQueue_eq_ok hs.queueSel_lt⟩, fun j hj => ?_,
    fun q => and_sub_one_toNat (hs.num_pow2 q)⟩
  refine Nat.lt_of_not_le fun hle => ?_
  have := Nat.testBit_lt_two_pow (Nat.lt_of_lt_of_le hs.pending_lt (Nat.pow_le_pow_right (by decide) hle))
  simp_all [BitVec.getLsbD, VirtioDevice.transport]

theorem entropy_init_transportInv :
    ReachableDev virtioEntropyInit ∧ TransportInv virtioEntropyInit.transport ∧
      (∃ q, virtioEntropyInit.selQueue = .ok q) ∧
      (∀ j, virtioEntropyInit.pendingQueueNotify.getLsbD j → j < maxQueue) ∧
      ∀ q (idx : BitVec 32), (idx &&& ((virtioEntropyInit.queue q).num - 1)).toNat =
        idx.toNat % (virtioEntropyInit.queue q).num.toNat :=
  have h : ReachableDev virtioEntropyInit :=
    ReachableDev.entropy (Reachable.init (D := entropyModel fun _ _ => (0, [])) fun _ => 0)
  ⟨h, reachableDev_transportInv h⟩

/-! The interrupt line -/

-- `int_status` holds only its two bits, and the level last driven on the line is high iff one is
-- set.
structure IrqInv (t : TransportRegs) : Prop where
  intStatus_lt : t.intStatus.toNat < 4
  irq_iff : t.irq = true ↔ t.intStatus ≠ 0

theorem or_ne_zero_of_getLsbD {a b : BitVec 32} {i : Nat} (hb : b.getLsbD i) : a ||| b ≠ 0 := by
  intro h
  have := congrArg (·.getLsbD i) h
  simp only [BitVec.getLsbD_or, hb, Bool.or_true] at this
  exact Bool.noConfusion (this.trans (Nat.zero_testBit i))

theorem and_ne_zero_left {a b : BitVec 32} (h : a &&& b ≠ 0) : a ≠ 0 := by
  rintro rfl
  exact h (by simp)

namespace IrqInv

variable {s : VirtioDevice}

-- A new interrupt cause: bit `i` (0 or 1) is set and the line raised.
theorem raise (hs : IrqInv s.transport) (b : BitVec 32) (hb : b.toNat < 4) {i : Nat}
    (hbi : b.getLsbD i) :
    IrqInv (({ s with intStatus := s.intStatus ||| b }).setIrq true).transport where
  intStatus_lt := by
    show (s.intStatus ||| b).toNat < 2 ^ 2
    rw [BitVec.toNat_or]
    exact Nat.or_lt_two_pow hs.1 hb
  irq_iff := iff_of_true rfl (or_ne_zero_of_getLsbD hbi)

theorem of_zero {t : TransportRegs} (h0 : t.intStatus = 0) (hirq : t.irq = false) : IrqInv t :=
  ⟨h0 ▸ Nat.zero_lt_succ _, iff_of_false (hirq ▸ Bool.false_ne_true) (not_not.mpr h0)⟩

end IrqInv

theorem irqInv_invariant : Invariant (fun s => IrqInv s.transport) where
  internal s s' h hs := by
    cases h with
    | consume => exact hs.raise 1 (by decide) (i := 0) (by decide)
    | configChange cs =>
      exact IrqInv.raise (s := { s with configSpace := cs }) hs 2 (by decide) (i := 1) (by decide)
    | availIdx | lastAvailIdx | exchange => exact ⟨hs.1, hs.2⟩
  regWrite s s' h hs := by
    cases h with
    | reset | isrRead => exact .of_zero rfl rfl
    | interruptAck v =>
      unfold interruptAck
      dsimp only
      split
      · exact .of_zero ‹_› rfl
      · refine ⟨Nat.lt_of_le_of_lt ?_ hs.1, iff_of_true ?_ ‹_›⟩
        · show (s.intStatus &&& ~~~v).toNat ≤ s.intStatus.toNat
          rw [BitVec.toNat_and]
          exact Nat.and_le_left
        · exact hs.2.mpr (and_ne_zero_left ‹_›)
    | _ => exact ⟨hs.1, hs.2⟩

theorem irqInv_init : IrqInv (virtioInit 0 0).transport :=
  .of_zero rfl rfl

theorem reachableDev_irqInv {s : VirtioDevice} (h : ReachableDev s) :
    s.intStatus.toNat < 4 ∧ (s.irq = true ↔ s.intStatus ≠ 0) :=
  let hs := h.preserves irqInv_invariant (fun _ _ ht hs => ht ▸ hs) irqInv_init
  ⟨hs.1, hs.2⟩

theorem console_init_irqInv :
    ReachableDev virtioConsoleInit ∧ virtioConsoleInit.intStatus.toNat < 4 ∧
      (virtioConsoleInit.irq = true ↔ virtioConsoleInit.intStatus ≠ 0) :=
  have h : ReachableDev virtioConsoleInit := ReachableDev.console (.init fun _ => 0)
  ⟨h, reachableDev_irqInv h⟩

end Virtio
