import TinyEmuVirtio.Objects.Transport

namespace Virtio

-- The transport's part of a queue: every field of `QueueState` but `manual_recv`, which only the
-- device's `*_init` sets.
structure QueueRegs where
  ready : BitVec 32
  num : BitVec 32
  availIdx : BitVec 16
  lastAvailIdx : BitVec 16
  descAddr : BitVec 64
  availAddr : BitVec 64
  usedAddr : BitVec 64

-- The transport's part of a device: its registers, the queues' registers, the notification bits
-- and the level of its interrupt line. The rest (identity, features offered, configuration space)
-- is the device's own.
structure TransportRegs where
  status : BitVec 32
  queueSel : BitVec 32
  deviceFeaturesSel : BitVec 32
  driverFeaturesSel : BitVec 32
  intStatus : BitVec 32
  driverFeatures : BitVec 64
  negotiatedFeatures : BitVec 64
  pendingQueueNotify : BitVec 32
  queue : Fin maxQueue → QueueRegs
  irq : Bool

def QueueState.regs (qs : QueueState) : QueueRegs :=
  ⟨qs.ready, qs.num, qs.availIdx, qs.lastAvailIdx, qs.descAddr, qs.availAddr, qs.usedAddr⟩

def VirtioDevice.transport (s : VirtioDevice) : TransportRegs :=
  ⟨s.status, s.queueSel, s.deviceFeaturesSel, s.driverFeaturesSel, s.intStatus, s.driverFeatures,
    s.negotiatedFeatures, s.pendingQueueNotify, fun q => (s.queue q).regs, s.irq⟩

-- What one register access of either transport can do to the device: each handler of
-- `virtio_mmio_write`, `virtio_pci_write` and the ISR read of `virtio_pci_read`.
inductive RegWrite (s : VirtioDevice) : VirtioDevice → Prop
  | unchanged : RegWrite s s
  | config (cs : ConfigSpace) : RegWrite s { s with configSpace := cs }
  | deviceFeaturesSel (v : BitVec 32) : RegWrite s { s with deviceFeaturesSel := v }
  | driverFeaturesSel (v : BitVec 32) : RegWrite s { s with driverFeaturesSel := v }
  | driverFeatures (v : BitVec 64) : RegWrite s { s with driverFeatures := v }
  | queueSel (v : BitVec 32) : v.toNat < maxQueue → RegWrite s { s with queueSel := v }
  | num (q : Fin maxQueue) (v : BitVec 32) :
    isPow2 v → RegWrite s (s.updateQueue q ({ · with num := v }))
  | descAddr (q : Fin maxQueue) (a : BitVec 64) :
    RegWrite s (s.updateQueue q ({ · with descAddr := a }))
  | availAddr (q : Fin maxQueue) (a : BitVec 64) :
    RegWrite s (s.updateQueue q ({ · with availAddr := a }))
  | usedAddr (q : Fin maxQueue) (a : BitVec 64) :
    RegWrite s (s.updateQueue q ({ · with usedAddr := a }))
  | ready (q : Fin maxQueue) (v : BitVec 32) :
    RegWrite s (s.updateQueue q ({ · with ready := v &&& 1 }))
  | status (v : BitVec 32) (n : BitVec 64) :
    RegWrite s { s with negotiatedFeatures := n, status := v }
  | reset : RegWrite s (virtioReset (s.setIrq false))
  | notify (v : BitVec 32) : v.toNat < maxQueue → RegWrite s (s.asyncQueueNotify v)
  | interruptAck (v : BitVec 32) : RegWrite s (interruptAck s v)
  | isrRead : RegWrite s (({ s with intStatus := 0 }).setIrq false)

namespace RegWrite

variable {s s' : VirtioDevice}

theorem updateSelQueue {f : QueueState → QueueState} (h : s.updateSelQueue f = .ok s')
    (hf : ∀ q, RegWrite s (s.updateQueue q f)) : RegWrite s s' := by
  unfold VirtioDevice.updateSelQueue VirtioDevice.selQueue at h
  split at h
  · cases h
    exact hf _
  · cases h

theorem configWriteAt {offset val : BitVec 32} {n : Nat}
    (h : Virtio.configWriteAt s offset val n = .ok s') : RegWrite s s' := by
  unfold Virtio.configWriteAt at h
  split at h
  · unfold VirtioDevice.configPut at h
    split at h
    · cases h
      unfold VirtioDevice.callConfigWrite
      split <;> exact .config _
    · cases h
  · cases h
    exact .unchanged

theorem virtioConfigWrite {offset val : BitVec 32} {n : Nat}
    (h : Virtio.virtioConfigWrite s offset val n = .ok s') : RegWrite s s' := by
  unfold Virtio.virtioConfigWrite at h
  split at h <;> first | exact configWriteAt h | cases h; exact .unchanged

end RegWrite

theorem mmioWriteStatus_regWrite (s : VirtioDevice) (val : BitVec 32) :
    RegWrite s (mmioWriteStatus s val) := by
  unfold mmioWriteStatus
  dsimp only
  split
  · exact .reset
  · exact .status _ _

variable {s s' : VirtioDevice} {offset val : BitVec 32} {n : Nat}

theorem writeQueueSel_regWrite (s : VirtioDevice) (val : BitVec 32) :
    RegWrite s (writeQueueSel s val) := by
  unfold writeQueueSel
  split
  · exact .queueSel _ ‹_›
  · exact .unchanged

theorem writeQueueNum_regWrite (h : writeQueueNum s val = .ok s') : RegWrite s s' := by
  unfold writeQueueNum at h
  split at h
  · exact RegWrite.updateSelQueue h fun q => .num q _ ‹_›
  · cases h
    exact .unchanged

theorem writeQueueNotify_regWrite (s : VirtioDevice) (val : BitVec 32) :
    RegWrite s (writeQueueNotify s val) := by
  unfold writeQueueNotify
  split
  · exact .notify _ ‹_›
  · exact .unchanged

theorem virtioMmioWrite_regWrite (h : virtioMmioWrite s offset val n = .ok s') :
    RegWrite s s' := by
  unfold virtioMmioWrite at h
  split at h
  · exact .virtioConfigWrite h
  split at h
  · split at h
    all_goals first
      | exact RegWrite.updateSelQueue h fun q => .descAddr q _
      | exact RegWrite.updateSelQueue h fun q => .availAddr q _
      | exact RegWrite.updateSelQueue h fun q => .usedAddr q _
      | exact RegWrite.updateSelQueue h fun q => .ready q _
      | exact writeQueueNum_regWrite h
      | (cases h; exact mmioWriteStatus_regWrite _ _)
      | (cases h; exact writeQueueSel_regWrite _ _)
      | (cases h; exact writeQueueNotify_regWrite _ _)
      | (cases h; unfold mmioWriteDriverFeatures; split <;> constructor)
      | (cases h; constructor)
  · cases h
    exact .unchanged

theorem virtioPciWrite_regWrite (h : virtioPciWrite s offset val n = .ok s') : RegWrite s s' := by
  unfold virtioPciWrite at h
  split at h
  · dsimp only at h
    split at h
    all_goals first
      | exact RegWrite.updateSelQueue h fun q => .descAddr q _
      | exact RegWrite.updateSelQueue h fun q => .availAddr q _
      | exact RegWrite.updateSelQueue h fun q => .usedAddr q _
      | exact RegWrite.updateSelQueue h fun q => .ready q _
      | exact writeQueueNum_regWrite h
      | (cases h; exact writeQueueSel_regWrite _ _)
      | (cases h; unfold pciWriteStatus; dsimp only; split
         · exact .reset
         · exact .status _ s.negotiatedFeatures)
      | (cases h; constructor)
  · exact .virtioConfigWrite h
  · cases h
    exact writeQueueNotify_regWrite _ _
  · cases h
    exact .unchanged

theorem virtioPciRead_regWrite {v : BitVec 32} (h : virtioPciRead s offset n = .ok (v, s')) :
    RegWrite s s' := by
  unfold virtioPciRead at h
  dsimp only at h
  split at h
  · split at h
    all_goals first
      | (cases h; exact .unchanged)
      | (simp only [bind, Except.bind] at h
         split at h
         · cases h
         · cases h; exact .unchanged)
  · split at h <;> cases h
    · exact .isrRead
    · exact .unchanged
  · simp only [bind, Except.bind] at h
    split at h
    · cases h
    · cases h; exact .unchanged
  · cases h
    exact .unchanged

end Virtio
