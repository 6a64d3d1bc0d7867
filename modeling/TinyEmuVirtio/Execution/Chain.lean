import TinyEmuVirtio.Execution.Internal
import TinyEmuVirtio.Execution.Devices

namespace Virtio

variable {σ α β : Type}

/-! Descriptor chains as guest memory holds them -/

-- The descriptor `i` of the table at `descAddr`, as `get_desc` reads it from `ram`.
def descAt (ram : Ram) (descAddr : BitVec 64) (i : BitVec 16) : VirtioDesc :=
  .ofBytes (readRam ram (descAddr + i.setWidth 64 * 16) 16)

theorem getDesc_bind_run (q : Fin maxQueue) (i : BitVec 16) (f : VirtioDesc → VirtioM σ α)
    (m : Machine σ) :
    (getDesc q i >>= f).run m = (f (descAt m.ram (m.dev.queue q).descAddr i)).run
      { m with trace := .read q .desc ((m.dev.queue q).descAddr + i.setWidth 64 * 16) 16 :: m.trace } :=
  rfl

theorem getQueue_bind_run (q : Fin maxQueue) (f : QueueState → VirtioM σ α) (m : Machine σ) :
    (getQueue q >>= f).run m = (f (m.dev.queue q)).run m :=
  rfl

theorem virtioRead16_bind_run (q : Fin maxQueue) (r : Region) (addr : BitVec 64)
    (f : BitVec 16 → VirtioM σ α) (m : Machine σ) :
    (virtioRead16 q r addr >>= f).run m = (f (BitVec.ofNat 16 (fromLe (readRam m.ram addr 2)))).run
      { m with trace := .read q r addr 2 :: m.trace } :=
  rfl

theorem modifyDev_bind_run (g : VirtioDevice → VirtioDevice) (f : Unit → VirtioM σ α)
    (m : Machine σ) : (modifyDev g >>= f).run m = (f ()).run { m with dev := g m.dev } :=
  rfl

theorem bind_run_error {x : VirtioM σ β} {f : β → VirtioM σ α} {m : Machine σ} {e : Fault}
    (h : x.run m = .error e) : (x >>= f).run m = .error e := by
  rw [StateT.run_bind, h]
  rfl

theorem bind_run_ok {x : VirtioM σ β} {f : β → VirtioM σ α} {m m' : Machine σ} {b : β}
    (h : x.run m = .ok (b, m')) : (x >>= f).run m = (f b).run m' := by
  rw [StateT.run_bind, h]
  rfl

theorem bind_run_congr {x y : VirtioM σ β} {f : β → VirtioM σ α} {m m' : Machine σ}
    (h : x.run m = y.run m') : (x >>= f).run m = (y >>= f).run m' := by
  rw [StateT.run_bind, StateT.run_bind, h]

theorem virtioMemcpyFromRam_bind_run (q : Fin maxQueue) (r : Region) (addr : BitVec 64) (n : Nat)
    (f : List (BitVec 8) → VirtioM σ α) (m : Machine σ) :
    (virtioMemcpyFromRam q r addr n >>= f).run m =
      (f (readRam m.ram addr n)).run { m with trace := .read q r addr n :: m.trace } :=
  rfl

theorem virtioMemcpyToRam_bind_run (q : Fin maxQueue) (r : Region) (addr : BitVec 64)
    (bs : List (BitVec 8)) (f : Unit → VirtioM σ α) (m : Machine σ) :
    (virtioMemcpyToRam q r addr bs >>= f).run m =
      (f ()).run { m with ram := writeRam m.ram addr bs, trace := .write q r addr bs :: m.trace } :=
  rfl

/-! The available ring -/

-- `avail.idx` of a queue, as `queue_notify` reads it.
def availIdxAt (ram : Ram) (qs : QueueState) : BitVec 16 :=
  BitVec.ofNat 16 (fromLe (readRam ram (qs.availAddr + 2) 2))

-- The address of the available-ring slot of `idx`.
def availSlotAddr (qs : QueueState) (idx : BitVec 16) : BitVec 64 :=
  qs.availAddr + 4 + ((idx.setWidth 32 &&& (qs.num - 1)) * 2).setWidth 64

-- The head stored in the available-ring slot of `idx`.
def availHeadAt (ram : Ram) (qs : QueueState) (idx : BitVec 16) : BitVec 16 :=
  BitVec.ofNat 16 (fromLe (readRam ram (availSlotAddr qs idx) 2))

theorem nextAvailDesc_bind_run (q : Fin maxQueue) (f : BitVec 16 → VirtioM σ α) (m : Machine σ) :
    (nextAvailDesc q >>= f).run m =
      (f (availHeadAt m.ram (m.dev.queue q) (m.dev.queue q).lastAvailIdx)).run
        { m with trace := .read q .avail (availSlotAddr (m.dev.queue q) (m.dev.queue q).lastAvailIdx) 2 ::
          m.trace } :=
  rfl

/-! A cycle of `NEXT` links -/

section Cycle

variable {ram : Ram} {a : BitVec 64} {q : Fin maxQueue} {S : BitVec 16 → Prop}

-- The descriptors `S` of the table at `a` all have the `WRITE` flag `w`, and each links with
-- `NEXT` to one of `S`: a chain that enters `S` never ends.
def Cycle (ram : Ram) (a : BitVec 64) (w : Bool) (S : BitVec 16 → Prop) : Prop :=
  ∀ i, S i → (descAt ram a i).isWrite = w ∧ (descAt ram a i).hasNext = true ∧ S (descAt ram a i).next

-- The walks of `get_desc_rw_size` run out of every fuel on a cycle.
theorem writable_cycle (hS : Cycle ram a true S) :
    ∀ n i ws (m : Machine σ), m.ram = ram → (m.dev.queue q).descAddr = a → S i →
      (getDescRwSize.writable q n (descAt ram a i) ws).run m = .error .outOfFuel
  | 0, _, _, _, _, _, _ => rfl
  | n + 1, i, ws, m, hr, ha, hi => by
    obtain ⟨hw, hn, hi'⟩ := hS i hi
    simp only [getDescRwSize.writable, hw, hn, Bool.not_true, Bool.false_eq_true, if_false, pure_bind]
    rw [getDesc_bind_run, hr, ha]
    exact writable_cycle hS n _ _ _ rfl ha hi'

theorem readable_cycle (hS : Cycle ram a false S) :
    ∀ n i rs (m : Machine σ), m.ram = ram → (m.dev.queue q).descAddr = a → S i →
      (getDescRwSize.readable q n (descAt ram a i) rs).run m = .error .outOfFuel
  | 0, _, _, _, _, _, _ => rfl
  | n + 1, i, rs, m, hr, ha, hi => by
    obtain ⟨hw, hn, hi'⟩ := hS i hi
    simp only [getDescRwSize.readable, hw, hn, Bool.not_true, Bool.false_eq_true, if_false, pure_bind]
    rw [getDesc_bind_run, hr, ha]
    exact readable_cycle hS n _ _ _ rfl ha hi'

theorem getDescRwSize_cycle {w : Bool} (hS : Cycle ram a w S) (fuel : Nat) (i : BitVec 16)
    (m : Machine σ) (hr : m.ram = ram) (ha : (m.dev.queue q).descAddr = a) (hi : S i) :
    (getDescRwSize fuel q i).run m = .error .outOfFuel := by
  rw [getDescRwSize, getDesc_bind_run, hr, ha]
  cases w
  · exact readable_cycle hS fuel _ _ _ rfl ha hi
  · cases fuel with
    | zero => rfl
    | succ n =>
      simp only [getDescRwSize.readable, (hS i hi).1, if_true]
      rw [StateT.run_bind, writable_cycle hS n _ _ { m with ram := ram, trace := _ } rfl ha hi]
      rfl

end Cycle

-- `queue_notify` that meets an entry whose chain enters a cycle runs out of every fuel: the
-- worker never returns from it.
theorem queueNotify_cycle {recv : DeviceRecv σ} {w : Bool} {S : BitVec 16 → Prop} {m : Machine σ}
    {q : Fin maxQueue} (hS : Cycle m.ram (m.dev.queue q).descAddr w S)
    (hm : (m.dev.queue q).manualRecv = false)
    (hA : (m.dev.queue q).lastAvailIdx ≠ availIdxAt m.ram (m.dev.queue q))
    (hd : S (availHeadAt m.ram (m.dev.queue q) (m.dev.queue q).lastAvailIdx)) (fuel : Nat) :
    (queueNotify recv fuel q).run m = .error .outOfFuel := by
  rw [queueNotify, getQueue_bind_run, virtioRead16_bind_run, modifyDev_bind_run]
  simp only [hm, Bool.false_eq_true, if_false]
  cases fuel with
  | zero => rfl
  | succ n =>
    unfold availIdxAt at hA
    rw [pure_bind, queueNotify.loop, getQueue_bind_run]
    simp only [VirtioDevice.updateQueue_queue_self, hA, if_false, pure_bind]
    rw [virtioRead16_bind_run]
    exact bind_run_error (getDescRwSize_cycle hS _ _ _ rfl (by simp) hd)

-- The console's transmit queue (1), rings at address 0. The driver makes available the
-- descriptor 0, which has `NEXT` set and links to itself: `queue_notify` never returns.
theorem console_self_linked_descriptor_hangs_notify :
    ∃ m, Reachable consoleModel m ∧
      ∀ fuel, (queueNotify virtioConsoleRecvRequest fuel 1).run m = .error .outOfFuel := by
  have h := ((Reachable.init (D := consoleModel) fun _ => 0).step (.guest _ 2 [1, 0])).step
    (.guest _ 12 [1, 0])
  dsimp only at h
  refine ⟨_, h, queueNotify_cycle (w := false) (S := (· = 0)) ?_ rfl (by decide) rfl⟩
  rintro _ rfl
  exact ⟨rfl, rfl, rfl⟩

end Virtio
