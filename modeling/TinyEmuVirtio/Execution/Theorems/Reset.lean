import TinyEmuVirtio.Execution.Chain

namespace Virtio

/-! What a reset leaves of the transport -/

-- `virtio_reset` clears every register and queue field of the transport but two: the cached
-- `avail_idx` of each queue and the pending notification bits.
theorem virtioReset_transport (s : VirtioDevice) :
    (virtioReset (s.setIrq false)).transport =
      { (virtioInit 0 0).transport with
        queue := fun q => { ((virtioInit 0 0).queue q).regs with availIdx := (s.queue q).availIdx }
        pendingQueueNotify := s.pendingQueueNotify } :=
  rfl

-- A write of 0 to `STATUS` never asks for `FEATURES_OK`, so it commits 0 and resets.
theorem mmioWriteStatus_zero (s : VirtioDevice) :
    mmioWriteStatus s 0 = virtioReset ({ s with status := 0 }.setIrq false) := by
  have h : negotiate s 0 = (s.negotiatedFeatures, 0) := by simp [negotiate]
  simp only [mmioWriteStatus, h, if_true]

theorem mmioWrite_status_zero_transport (s : VirtioDevice) :
    ∃ s', virtioMmioWrite s 0x70 0 2 = .ok s' ∧
      s'.transport = { (virtioInit 0 0).transport with
        queue := fun q => { ((virtioInit 0 0).queue q).regs with availIdx := (s.queue q).availIdx }
        pendingQueueNotify := s.pendingQueueNotify } :=
  ⟨_, rfl, by rw [mmioWriteStatus_zero, virtioReset_transport]⟩

theorem pciWrite_status_zero_transport (s : VirtioDevice) :
    ∃ s', virtioPciWrite s 0x14 0 0 = .ok s' ∧
      s'.transport = { (virtioInit 0 0).transport with
        queue := fun q => { ((virtioInit 0 0).queue q).regs with availIdx := (s.queue q).availIdx }
        pendingQueueNotify := s.pendingQueueNotify } :=
  ⟨_, rfl, virtioReset_transport _⟩

-- The driver publishes one buffer on the receive queue of a net device (rings at address 0,
-- `avail.idx` = 1) and notifies the queue twice; the worker drains the first notification.
theorem net_status_reset_keeps_avail_idx :
    ∃ m s, Reachable (netModel []) m ∧ virtioMmioWrite m.dev 0x70 0 2 = .ok s ∧
      (s.queue 0).availIdx = 1 ∧ s.pendingQueueNotify = 1 ∧
      ((virtioNetInit []).queue 0).availIdx = 0 ∧ (virtioNetInit []).pendingQueueNotify = 0 := by
  have h : Reachable (netModel []) ⟨{ (virtioNetInit []).updateQueue 0 ({ · with availIdx := 1 }) with
      pendingQueueNotify := 1 }, writeRam (fun _ => 0) 2 [1, 0], [.read 0 .avail 2 2], .init⟩ :=
    ((((Reachable.init (D := netModel []) fun _ => 0).step (.guest _ 2 [1, 0])).step
      (.mmioWrite 0x50 0 2 rfl)).step (.drain 1 rfl)).step (.mmioWrite 0x50 0 2 rfl)
  obtain ⟨s, hs, ht⟩ := mmioWrite_status_zero_transport
    { (virtioNetInit []).updateQueue 0 ({ · with availIdx := 1 }) with pendingQueueNotify := 1 }
  exact ⟨_, s, h, hs, congrArg (fun t => (t.queue 0).availIdx) ht,
    congrArg TransportRegs.pendingQueueNotify ht, rfl, rfl⟩

/-! A receive queue after a reset -/

-- After a reset and `QUEUE_READY := 1`, the net device takes a receive buffer from the ring as
-- soon as the `avail_idx` cached before the reset is not 0, before the driver has made anything
-- available.
theorem canWritePacket_after_reset (s : VirtioDevice) :
    virtioNetCanWritePacket ((mmioWriteStatus s 0).updateQueue 0 ({ · with ready := 1 })) = true ↔
      (s.queue 0).availIdx ≠ 0 := by
  simp only [virtioNetCanWritePacket, mmioWriteStatus_zero, VirtioDevice.updateQueue_queue_self,
    virtioReset_queue, VirtioDevice.setIrq, decide_eq_true_eq]
  exact ⟨fun h => Ne.symm h.2, fun h => ⟨by decide, Ne.symm h⟩⟩

-- The rings at address 0 hold one available device-writable buffer of 16 bytes, which the worker
-- has seen. After the reset the driver zeroes `avail.idx` and enables the queue again; the host
-- then hands the device an empty packet.
set_option smartUnfolding false in
theorem net_rx_takes_buffer_not_made_available :
    ∃ (m : Machine NetState) (s₁ s₂ : VirtioDevice) (m' : Machine NetState),
      Reachable (netModel []) m ∧ virtioMmioWrite m.dev 0x70 0 2 = .ok s₁ ∧
      (s₁.queue 0).availIdx = 1 ∧ virtioMmioWrite s₁ 0x44 1 2 = .ok s₂ ∧
      (virtioNetWritePacket 2 [] 0).run { m with dev := s₂, ram := writeRam m.ram 2 [0, 0] } =
        .ok ((), m') ∧
      m'.trace = [.consume 0 0 12, .write 0 .used 2 [1, 0], .write 0 .used 8 [12, 0, 0, 0],
        .write 0 .used 4 [0, 0, 0, 0], .read 0 .used 2 2, .write 0 .buffer 0 (List.replicate 12 0),
        .read 0 .desc 0 16, .read 0 .desc 0 16, .read 0 .avail 4 2] ++ m.trace := by
  have h : Reachable (netModel []) ⟨(virtioNetInit []).updateQueue 0 ({ · with availIdx := 1 }),
      writeRam (writeRam (fun _ => 0) 2 [1, 0]) 8 [16, 0, 0, 0, 2, 0], [.read 0 .avail 2 2], .init⟩ :=
    ((((Reachable.init (D := netModel []) fun _ => 0).step (.guest _ 2 [1, 0])).step
      (.guest _ 8 [16, 0, 0, 0, 2, 0])).step (.mmioWrite 0x50 0 2 rfl)).step (.drain 1 rfl)
  -- the reset keeps `avail_idx` = 1, so the packet passes both tests of `write_packet`
  have hc := (canWritePacket_after_reset
    ((virtioNetInit []).updateQueue 0 ({ · with availIdx := 1 }))).2 (by decide)
  simp only [virtioNetCanWritePacket, decide_eq_true_eq] at hc
  exact ⟨_, mmioWriteStatus ((virtioNetInit []).updateQueue 0 ({ · with availIdx := 1 })) 0,
    (mmioWriteStatus ((virtioNetInit []).updateQueue 0 ({ · with availIdx := 1 })) 0).updateQueue 0
      ({ · with ready := 1 }), _, h, rfl, rfl, rfl,
    by rw [virtioNetWritePacket, getQueue_bind_run]; dsimp only; rw [if_neg hc.1, if_neg hc.2]; rfl,
    by rfl⟩

end Virtio
