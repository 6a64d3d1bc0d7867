import TinyEmuVirtio.Execution.Theorems.Reset
import TinyEmuVirtio.Execution.Notify

namespace Virtio

variable {σ : Type}

/-! The rings of a queue that is not ready -/

-- `queue_notify` reads `avail.idx` of the queue whatever its `ready` bit; when the driver has
-- made nothing new available, that read is all it does.
theorem queueNotify_caught_up {recv : DeviceRecv σ} {fuel : Nat} {q : Fin maxQueue}
    {m : Machine σ} (hfuel : 0 < fuel)
    (h : BitVec.ofNat 16 (fromLe (readRam m.ram ((m.dev.queue q).availAddr + 2) 2)) =
      (m.dev.queue q).lastAvailIdx) :
    (queueNotify recv fuel q).run m =
      .ok ((), { m with
        dev := m.dev.updateQueue q ({ · with availIdx := (m.dev.queue q).lastAvailIdx })
        trace := .read q .avail ((m.dev.queue q).availAddr + 2) 2 :: m.trace }) := by
  obtain ⟨n, rfl⟩ : ∃ n, fuel = n + 1 := ⟨fuel - 1, by omega⟩
  simp only [queueNotify, queueNotify.loop, getQueue, virtioRead16, virtioMemcpyFromRam, logAccess,
    modifyDev, StateT.run, bind, StateT.bind, pure, StateT.pure, Except.bind, Except.pure, h]
  split <;> simp [h, StateT.pure, StateT.bind, pure, Except.pure, bind, Except.bind, getQueue]

-- A drain whose pending bits name queue `q` alone, on a queue whose `avail.idx` is
-- `last_avail_idx`, clears the bits, reads `avail.idx` and does nothing else, whatever `ready`.
theorem pendingNotifyDrain_caught_up {recv : DeviceRecv σ} {fuel : Nat} {q : Fin maxQueue}
    {m : Machine σ} (hfuel : 0 < fuel)
    (hp : Notify.notifyOrder (List.range 32) m.dev.pendingQueueNotify = [q.val])
    (h : BitVec.ofNat 16 (fromLe (readRam m.ram ((m.dev.queue q).availAddr + 2) 2)) =
      (m.dev.queue q).lastAvailIdx) :
    (pendingNotifyDrain recv fuel).run m =
      .ok ((), { m with
        dev := { m.dev with pendingQueueNotify := 0 }.updateQueue q
          ({ · with availIdx := (m.dev.queue q).lastAvailIdx })
        trace := .read q .avail ((m.dev.queue q).availAddr + 2) 2 :: m.trace }) := by
  have hx : ∀ f : BitVec 32 → VirtioM σ Unit, (exchangePendingQueueNotify >>= f).run m =
      (f m.dev.pendingQueueNotify).run { m with dev := { m.dev with pendingQueueNotify := 0 } } :=
    fun _ => rfl
  rw [Notify.pendingNotifyDrain_eq, hx, hp]
  simp only [List.forM, dif_pos q.isLt]
  exact bind_run_ok (queueNotify_caught_up hfuel h)

-- A notification of the transmit queue (1) of a console right after its init.
theorem console_notify_reads_ring_of_disabled_queue :
    ∃ m m' : Machine ConsoleState, Reachable consoleModel m ∧ (m.dev.queue 1).ready = 0 ∧
      m.dev.pendingQueueNotify = 2 ∧
      (pendingNotifyDrain virtioConsoleRecvRequest 1).run m = .ok ((), m') ∧
      (m'.dev.queue 1).ready = 0 ∧ m'.trace = [.read 1 .avail 2 2] ++ m.trace :=
  ⟨_, _, (Reachable.init (D := consoleModel) fun _ => 0).step (.mmioWrite 0x50 1 2 rfl), rfl,
    rfl, pendingNotifyDrain_caught_up (q := 1) Nat.one_pos (by decide) rfl, rfl, rfl⟩

/-! The length a request is completed with -/

-- `memcpy_to_queue` into a chain whose head is device-readable and last stores nothing and
-- returns -1, whatever `count`.
theorem memcpyToQueue_no_writable {fuel : Nat} {q : Fin maxQueue} {d : BitVec 16}
    {offset count : BitVec 32} {buf : List (BitVec 8)} {m m' : Machine σ} {desc : VirtioDesc}
    (hfuel : 0 < fuel) (hc : count ≠ 0) (hd : (getDesc q d).run m = .ok (desc, m'))
    (hw : desc.isWrite = false) (hn : desc.hasNext = false) :
    (memcpyToQueue fuel q d offset buf count).run m = .ok (-1, m') := by
  obtain ⟨n, rfl⟩ : ∃ n, fuel = n + 1 := ⟨fuel - 1, by omega⟩
  simp only [memcpyToQueue, memcpyToFromQueue, memcpyToFromQueue.findWrite, StateT.run, bind,
    StateT.bind, pure, StateT.pure, Except.bind, Except.pure, hc, if_false]
  rw [show getDesc q d m = _ from hd]
  simp [hw, hn, StateT.pure, StateT.bind, pure, Except.pure, bind, Except.bind]

-- `virtio_input_queue_event` on a ready queue whose next available head `d` is device-readable
-- and last: `memcpy_to_queue` stores nothing, yet `d` is completed with length 8.
theorem virtioInputQueueEvent_no_writable {fuel : Nat} {type code : BitVec 16} {value : BitVec 32}
    {m : Machine InputState} {d : BitVec 16} (hfuel : 0 < fuel) (hready : (m.dev.queue 0).ready ≠ 0)
    (hidx : (m.dev.queue 0).lastAvailIdx ≠ (m.dev.queue 0).availIdx)
    (hd : availHeadAt m.ram (m.dev.queue 0) (m.dev.queue 0).lastAvailIdx = d)
    (hw : (descAt m.ram (m.dev.queue 0).descAddr d).isWrite = false)
    (hn : (descAt m.ram (m.dev.queue 0).descAddr d).hasNext = false) :
    (virtioInputQueueEvent fuel type code value).run m =
      (do virtioConsumeDesc 0 d 8; incLastAvailIdx 0; return 0).run { m with
        trace := .read 0 .desc ((m.dev.queue 0).descAddr + d.setWidth 64 * 16) 16 ::
          .read 0 .avail (availSlotAddr (m.dev.queue 0) (m.dev.queue 0).lastAvailIdx) 2 :: m.trace } := by
  rw [virtioInputQueueEvent, getQueue_bind_run]
  dsimp only
  rw [if_neg hready, if_neg hidx]
  simp only [pure_bind]
  rw [nextAvailDesc_bind_run, hd]
  exact bind_run_ok (memcpyToQueue_no_writable hfuel (by decide) rfl hw hn)

-- A keyboard whose event queue (rings at address 0) holds one available buffer, device-readable
-- and of length 0, which the worker has seen; then a key is pressed.
set_option smartUnfolding false in
theorem input_event_completes_unwritten_bytes :
    ∃ m m' : Machine InputState, Reachable (inputModel .keyboard 0) m ∧
      (getDescRwSize 1 0 0).run' m = .ok (some (0, 0)) ∧
      (virtioInputSendKeyEvent 1 true 30).run m = .ok (-1, m') ∧
      m'.trace = [.consume 0 0 8, .write 0 .used 2 [2, 0], .write 0 .used 16 [8, 0, 0, 0],
        .write 0 .used 12 [0, 0, 0, 0], .read 0 .used 2 2, .read 0 .desc 0 16,
        .read 0 .avail 4 2] ++ m.trace := by
  have h := ((((Reachable.init (D := inputModel .keyboard 0) fun _ => 0).step
    (.guest _ 2 [1, 0])).step (.mmioWrite 0x44 1 2 rfl)).step (.mmioWrite 0x50 0 2 rfl)).step
    (.drain 1 rfl)
  dsimp only at h
  -- the key's event goes nowhere, its buffer is completed with length 8, and the `SYN` that
  -- follows finds no buffer
  exact ⟨_, _, h, rfl, by
    rw [virtioInputSendKeyEvent, getExt_bind_run]
    dsimp only
    rw [if_neg (by decide), pure_bind,
      bind_run_congr (virtioInputQueueEvent_no_writable Nat.one_pos ?_ ?_ rfl ?_ ?_)]
    all_goals first | rfl | decide, by rfl⟩

end Virtio
