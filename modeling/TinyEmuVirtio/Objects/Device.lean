import Mathlib

namespace Virtio

-- The limits of `virtio.c`. `maxQueue` and `maxConfigSpaceSize` size the arrays `queue` and
-- `config_space` of `VIRTIODevice`.
def maxQueue : Nat := 8
def maxConfigSpaceSize : Nat := 256
def maxQueueNum : BitVec 32 := 16

instance : NeZero maxQueue := ⟨by decide⟩

def virtioStatFeaturesOk : BitVec 32 := 8
def virtioFVersion1 : BitVec 64 := 1 <<< 32

-- The little-endian value of a list of bytes: `get_le16`, `get_le32`, `get_le64`.
def fromLe : List (BitVec 8) → Nat
  | [] => 0
  | b :: bs => b.toNat + 256 * fromLe bs

-- The `n` low bytes of `v`, least significant first: `put_le16`, `put_le32`, `put_le64`.
def toLe (v : Nat) : Nat → List (BitVec 8)
  | 0 => []
  | n + 1 => BitVec.ofNat 8 v :: toLe (v / 256) n

-- `f` with `bs` stored from `offset` on (a `memcpy` into a byte array).
def putBytes (f : Nat → BitVec 8) (offset : Nat) (bs : List (BitVec 8)) : Nat → BitVec 8 :=
  fun i => if offset ≤ i then bs.getD (i - offset) (f i) else f i

-- How a run of the source can end without a result: undefined behaviour of C (an index past an
-- array), `abort()` or a failed `assert`, or a loop that did not finish within the fuel given.
inductive Fault where
  | undefined
  | abort
  | outOfFuel
  deriving DecidableEq, Repr

structure QueueState where
  ready : BitVec 32
  num : BitVec 32
  availIdx : BitVec 16
  lastAvailIdx : BitVec 16
  descAddr : BitVec 64
  availAddr : BitVec 64
  usedAddr : BitVec 64
  manualRecv : Bool
  deriving DecidableEq, Repr

-- A `QueueState` as `memset(s, 0, sizeof(*s))` leaves it.
def QueueState.zero : QueueState := ⟨0, 0, 0, 0, 0, 0, 0, false⟩

-- `config_space` is a 256-byte array; its accessors treat an index past it as undefined.
abbrev ConfigSpace := Nat → BitVec 8

-- `VIRTIODevice`. The pointers to the memory map and the bus are left out; `irq` is the level
-- last driven on the device's interrupt line through `set_irq(s->irq, ·)`.
structure VirtioDevice where
  intStatus : BitVec 32
  status : BitVec 32
  deviceFeaturesSel : BitVec 32
  driverFeaturesSel : BitVec 32
  queueSel : BitVec 32
  queue : Fin maxQueue → QueueState
  deviceId : BitVec 32
  vendorId : BitVec 32
  deviceFeatures : BitVec 64
  configWrite : Option (ConfigSpace → ConfigSpace)
  configSpaceSize : BitVec 32
  configSpace : ConfigSpace
  pendingQueueNotify : BitVec 32
  driverFeatures : BitVec 64
  negotiatedFeatures : BitVec 64
  irq : Bool

namespace VirtioDevice

def setIrq (s : VirtioDevice) (level : Bool) : VirtioDevice :=
  { s with irq := level }

-- `s->queue[s->queue_sel]`, which C leaves undefined when `queue_sel` is out of range.
def selQueue (s : VirtioDevice) : Except Fault (Fin maxQueue) :=
  if h : s.queueSel.toNat < maxQueue then .ok ⟨_, h⟩ else .error .undefined

def updateQueue (s : VirtioDevice) (i : Fin maxQueue) (f : QueueState → QueueState) :
    VirtioDevice :=
  { s with queue := Function.update s.queue i (f (s.queue i)) }

-- Assigns to a field of `s->queue[s->queue_sel]`.
def updateSelQueue (s : VirtioDevice) (f : QueueState → QueueState) : Except Fault VirtioDevice :=
  return s.updateQueue (← s.selQueue) f

-- `async_queue_notify` as the device sees it: the atomic fetch-or of the queue's bit. Waking the
-- worker is modelled with the worker, in `Execution.Notify`.
def asyncQueueNotify (s : VirtioDevice) (queueIdx : BitVec 32) : VirtioDevice :=
  { s with pendingQueueNotify := s.pendingQueueNotify ||| (1 <<< queueIdx.toNat) }

end VirtioDevice

def virtioReset (s : VirtioDevice) : VirtioDevice :=
  { s with
    status := 0
    queueSel := 0
    deviceFeaturesSel := 0
    driverFeaturesSel := 0
    intStatus := 0
    queue := fun i =>
      { s.queue i with
        ready := 0, num := maxQueueNum, descAddr := 0, availAddr := 0, usedAddr := 0,
        lastAvailIdx := 0 }
    driverFeatures := 0
    negotiatedFeatures := 0 }

-- `virtio_init` on a zeroed device. The interrupt line starts low (the FPGA's `irq_state(0)`).
def virtioInit (deviceId configSpaceSize : BitVec 32) : VirtioDevice :=
  virtioReset
    { intStatus := 0, status := 0, deviceFeaturesSel := 0, driverFeaturesSel := 0, queueSel := 0
      queue := fun _ => .zero, deviceId, vendorId := 0xffff, deviceFeatures := 0
      configWrite := none, configSpaceSize, configSpace := fun _ => 0, pendingQueueNotify := 0
      driverFeatures := 0, negotiatedFeatures := 0, irq := false }

namespace VirtioDevice

variable {s : VirtioDevice}

@[simp] theorem updateQueue_queue_self (i : Fin maxQueue) (f : QueueState → QueueState) :
    (s.updateQueue i f).queue i = f (s.queue i) := by
  simp [updateQueue]

theorem updateQueue_queue_ne {i j : Fin maxQueue} (f : QueueState → QueueState) (h : j ≠ i) :
    (s.updateQueue i f).queue j = s.queue j := by
  simp [updateQueue, Function.update_noteq h]

theorem selQueue_eq_ok (h : s.queueSel.toNat < maxQueue) : s.selQueue = .ok ⟨_, h⟩ := by
  simp [selQueue, h]

end VirtioDevice

@[simp] theorem virtioReset_queue (s : VirtioDevice) (i : Fin maxQueue) :
    (virtioReset s).queue i =
      { s.queue i with
        ready := 0, num := maxQueueNum, descAddr := 0, availAddr := 0, usedAddr := 0,
        lastAvailIdx := 0 } := rfl

end Virtio
