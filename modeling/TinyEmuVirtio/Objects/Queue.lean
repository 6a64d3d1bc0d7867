import TinyEmuVirtio.Objects.Machine

namespace Virtio

def vringDescFNext : BitVec 16 := 1
def vringDescFWrite : BitVec 16 := 2

-- `VIRTIODesc`, decoded from the 16 little-endian bytes `get_desc` copies.
structure VirtioDesc where
  addr : BitVec 64
  len : BitVec 32
  flags : BitVec 16
  next : BitVec 16
  deriving DecidableEq, Repr

namespace VirtioDesc

def ofBytes (bs : List (BitVec 8)) : VirtioDesc where
  addr := BitVec.ofNat 64 (fromLe (bs.take 8))
  len := BitVec.ofNat 32 (fromLe ((bs.drop 8).take 4))
  flags := BitVec.ofNat 16 (fromLe ((bs.drop 12).take 2))
  next := BitVec.ofNat 16 (fromLe ((bs.drop 14).take 2))

def isWrite (d : VirtioDesc) : Bool := d.flags &&& vringDescFWrite ≠ 0

def hasNext (d : VirtioDesc) : Bool := d.flags &&& vringDescFNext ≠ 0

end VirtioDesc

variable {σ : Type}

def getDesc (q : Fin maxQueue) (descIdx : BitVec 16) : VirtioM σ VirtioDesc := do
  let qs ← getQueue q
  return .ofBytes (← virtioMemcpyFromRam q .desc (qs.descAddr + descIdx.setWidth 64 * 16) 16)

-- The second loop of `get_desc_rw_size`: the device-writable descriptors, each of which must
-- have `VRING_DESC_F_WRITE`.
def getDescRwSize.writable (q : Fin maxQueue) :
    Nat → VirtioDesc → BitVec 32 → VirtioM σ (Option (BitVec 32))
  | 0, _, _ => fail .outOfFuel
  | n + 1, desc, writeSize => do
    if !desc.isWrite then return none
    let writeSize := writeSize + desc.len
    if !desc.hasNext then return some writeSize
    writable q n (← getDesc q desc.next) writeSize

-- The first loop: the device-readable descriptors, up to the first device-writable one.
def getDescRwSize.readable (q : Fin maxQueue) :
    Nat → VirtioDesc → BitVec 32 → VirtioM σ (Option (BitVec 32 × BitVec 32))
  | 0, _, _ => fail .outOfFuel
  | n + 1, desc, readSize => do
    if desc.isWrite then return (← writable q n desc 0).map (readSize, ·)
    let readSize := readSize + desc.len
    if !desc.hasNext then return some (readSize, 0)
    readable q n (← getDesc q desc.next) readSize

-- `get_desc_rw_size`: `none` where the source returns -1. The sizes are `int`s accumulated from
-- `uint32_t` lengths, so they wrap.
def getDescRwSize (fuel : Nat) (q : Fin maxQueue) (descIdx : BitVec 16) :
    VirtioM σ (Option (BitVec 32 × BitVec 32)) := do
  getDescRwSize.readable q fuel (← getDesc q descIdx) 0

-- `min_int` on two `int`s.
def minInt (a b : BitVec 32) : BitVec 32 := if a.slt b then a else b

namespace memcpyToFromQueue

-- The first loop: to the first device-writable descriptor (only when copying to the queue).
def findWrite (q : Fin maxQueue) : Nat → VirtioDesc → VirtioM σ (Option VirtioDesc)
  | 0, _ => fail .outOfFuel
  | n + 1, desc => do
    if desc.isWrite then return some desc
    if !desc.hasNext then return none
    findWrite q n (← getDesc q desc.next)

-- The second loop: to the descriptor that holds byte `offset` of the part copied. The test
-- `offset < desc.len` compares an `int` with a `uint32_t`, so it is unsigned.
def findOffset (q : Fin maxQueue) (writeFlag : Bool) :
    Nat → VirtioDesc → BitVec 32 → VirtioM σ (Option (VirtioDesc × BitVec 32))
  | 0, _, _ => fail .outOfFuel
  | n + 1, desc, offset => do
    if desc.isWrite ≠ writeFlag then return none
    if offset < desc.len then return some (desc, offset)
    if !desc.hasNext then return none
    findOffset q writeFlag n (← getDesc q desc.next) (offset - desc.len)

-- The third loop: copies `count` bytes, from `buf` to the queue or from the queue to the end of
-- `acc`, and returns the source's result with the bytes read from the queue.
def copy (q : Fin maxQueue) (writeFlag toQueue : Bool) :
    Nat → VirtioDesc → BitVec 32 → BitVec 32 → List (BitVec 8) → List (BitVec 8) →
      VirtioM σ (Int × List (BitVec 8))
  | 0, _, _, _, _, _ => fail .outOfFuel
  | n + 1, desc, offset, count, buf, acc => do
    let l := minInt count (desc.len - offset)
    if l.toInt < 0 then fail .undefined
    let addr := desc.addr + offset.signExtend 64
    let acc ← if toQueue then do virtioMemcpyToRam q .buffer addr (buf.take l.toNat); pure acc
      else do pure (acc ++ (← virtioMemcpyFromRam q .buffer addr l.toNat))
    let count := count - l
    if count = 0 then return (0, acc)
    let offset := offset + l
    let buf := buf.drop l.toNat
    if offset = desc.len then
      if !desc.hasNext then return (-1, acc)
      let desc ← getDesc q desc.next
      if desc.isWrite ≠ writeFlag then return (-1, acc)
      copy q writeFlag toQueue n desc 0 count buf acc
    else copy q writeFlag toQueue n desc offset count buf acc

end memcpyToFromQueue

open memcpyToFromQueue in
def memcpyToFromQueue (fuel : Nat) (buf : List (BitVec 8)) (q : Fin maxQueue)
    (descIdx : BitVec 16) (offset count : BitVec 32) (toQueue : Bool) :
    VirtioM σ (Int × List (BitVec 8)) := do
  if count = 0 then return (0, [])
  let desc ← getDesc q descIdx
  let some desc ← if toQueue then findWrite q fuel desc else pure (some desc)
    | return (-1, [])
  let some (desc, offset) ← findOffset q toQueue fuel desc offset | return (-1, [])
  copy q toQueue toQueue fuel desc offset count buf []

def memcpyFromQueue (fuel : Nat) (q : Fin maxQueue) (descIdx : BitVec 16)
    (offset count : BitVec 32) : VirtioM σ (Int × List (BitVec 8)) :=
  memcpyToFromQueue fuel [] q descIdx offset count false

def memcpyToQueue (fuel : Nat) (q : Fin maxQueue) (descIdx : BitVec 16) (offset : BitVec 32)
    (buf : List (BitVec 8)) (count : BitVec 32) : VirtioM σ Int := do
  return (← memcpyToFromQueue fuel buf q descIdx offset count true).1

def virtioConsumeDesc (q : Fin maxQueue) (descIdx : BitVec 16) (descLen : BitVec 32) :
    VirtioM σ Unit := do
  let qs ← getQueue q
  let usedIdxAddr := qs.usedAddr + 2
  let usedIdx := (← virtioRead16 q .used usedIdxAddr).setWidth 32
  let usedElemAddr := qs.usedAddr + 4 + ((usedIdx &&& (qs.num - 1)) * 8).setWidth 64
  virtioWrite32 q .used usedElemAddr (descIdx.setWidth 32)
  virtioWrite32 q .used (usedElemAddr + 4) descLen
  virtioWrite16 q .used usedIdxAddr ((usedIdx + 1).setWidth 16)
  modifyDev fun s => ({ s with intStatus := s.intStatus ||| 1 }).setIrq true
  logAccess (.consume q descIdx descLen)

-- `VIRTIODeviceRecvFunc`, with the fuel its copies may use.
abbrev DeviceRecv (σ : Type) :=
  Nat → Fin maxQueue → BitVec 16 → BitVec 32 → BitVec 32 → VirtioM σ Int

-- The loop of `queue_notify`, while `last_avail_idx` differs from the `avail_idx` just read.
def queueNotify.loop (recv : DeviceRecv σ) (fuel : Nat) (q : Fin maxQueue)
    (availIdx : BitVec 16) : Nat → VirtioM σ Unit
  | 0 => fail .outOfFuel
  | n + 1 => do
    let qs ← getQueue q
    if qs.lastAvailIdx = availIdx then return
    let descIdx ← virtioRead16 q .avail
      (qs.availAddr + 4 + ((qs.lastAvailIdx.setWidth 32 &&& (qs.num - 1)) * 2).setWidth 64)
    if let some (readSize, writeSize) ← getDescRwSize fuel q descIdx then
      if (← recv fuel q descIdx readSize writeSize) < 0 then return
    let qs ← getQueue q
    modifyDev (·.updateQueue q ({ · with lastAvailIdx := qs.lastAvailIdx + 1 }))
    loop recv fuel q availIdx n

def queueNotify (recv : DeviceRecv σ) (fuel : Nat) (q : Fin maxQueue) : VirtioM σ Unit := do
  let qs ← getQueue q
  let availIdx ← virtioRead16 q .avail (qs.availAddr + 2)
  modifyDev (·.updateQueue q ({ · with availIdx }))
  if qs.manualRecv then return
  queueNotify.loop recv fuel q availIdx fuel

-- The avail-ring entry at `last_avail_idx`: the head of the next chain a manual-receive queue
-- takes, as `virtio_net_write_packet`, `virtio_console_write_data` and
-- `virtio_input_queue_event` read it.
def nextAvailDesc (q : Fin maxQueue) : VirtioM σ (BitVec 16) := do
  let qs ← getQueue q
  virtioRead16 q .avail
    (qs.availAddr + 4 + ((qs.lastAvailIdx.setWidth 32 &&& (qs.num - 1)) * 2).setWidth 64)

-- `qs->last_avail_idx++`
def incLastAvailIdx (q : Fin maxQueue) : VirtioM σ Unit := do
  let qs ← getQueue q
  modifyDev (·.updateQueue q ({ · with lastAvailIdx := qs.lastAvailIdx + 1 }))

-- `atomic_exchange_explicit(&s->pending_queue_notify, 0, ...)`.
def exchangePendingQueueNotify : VirtioM σ (BitVec 32) := do
  let s ← getDev
  modifyDev ({ · with pendingQueueNotify := 0 })
  return s.pendingQueueNotify

-- The inner loop of `pending_notify_worker` over the bits `j < 32` of `notify`.
def notifyBits (recv : DeviceRecv σ) (fuel : Nat) : List Nat → BitVec 32 → VirtioM σ Unit
  | [], _ => pure ()
  | j :: js, notify => do
    if notify = 0 then return
    if notify.getLsbD j then
      if h : j < maxQueue then queueNotify recv fuel ⟨j, h⟩ else fail .undefined
      notifyBits recv fuel js (notify &&& ~~~((1 : BitVec 32) <<< j))
    else notifyBits recv fuel js notify

-- What `pending_notify_worker` does for one device once it has woken up.
def pendingNotifyDrain (recv : DeviceRecv σ) (fuel : Nat) : VirtioM σ Unit := do
  notifyBits recv fuel (List.range 32) (← exchangePendingQueueNotify)

end Virtio
