import TinyEmuVirtio.Objects.Queue

namespace Virtio

def virtioConsoleFSize : BitVec 64 := 1

-- The console's backend `CharacterDevice`, kept as the data handed to its `write_data`.
structure ConsoleState where
  written : List (List (BitVec 8))

def virtioConsoleRecvRequest : DeviceRecv ConsoleState := fun fuel queueIdx descIdx readSize _ =>
  do
  if queueIdx.val = 1 then
    let buf ← liftExcept (calloc (readSize + 1))
    let (_, data) ← memcpyFromQueue fuel queueIdx descIdx 0 readSize
    modifyExt fun s1 => { s1 with written := (fillBuf buf data).take readSize.toNat :: s1.written }
    virtioConsumeDesc queueIdx descIdx 0
  return 0

def virtioConsoleCanWriteData (s : VirtioDevice) : Bool :=
  (s.queue 0).ready ≠ 0 ∧ (s.queue 0).lastAvailIdx ≠ (s.queue 0).availIdx

def virtioConsoleGetWriteLen (fuel : Nat) : VirtioM ConsoleState (BitVec 32) := do
  let qs ← getQueue 0
  if qs.ready = 0 then return 0
  if qs.lastAvailIdx = qs.availIdx then return 0
  let descIdx ← nextAvailDesc 0
  let some (_, writeSize) ← getDescRwSize fuel 0 descIdx | return 0
  return writeSize

def virtioConsoleWriteData (fuel : Nat) (buf : List (BitVec 8)) (bufLen : BitVec 32) :
    VirtioM ConsoleState (BitVec 32) := do
  let qs ← getQueue 0
  if qs.ready = 0 then return 0
  if qs.lastAvailIdx = qs.availIdx then return 0
  let descIdx ← nextAvailDesc 0
  let _ ← memcpyToQueue fuel 0 descIdx 0 buf bufLen
  virtioConsumeDesc 0 descIdx bufLen
  incLastAvailIdx 0
  return bufLen

def virtioConsoleResizeEvent (width height : BitVec 16) : VirtioM ConsoleState Unit :=
  modifyDev fun s =>
    virtioConfigChangeNotify
      { s with
        configSpace :=
          putBytes (putBytes s.configSpace 0 (toLe width.toNat 2)) 2 (toLe height.toNat 2) }

def virtioConsoleInit : VirtioDevice :=
  let s := virtioInit 3 4
  { s with
    deviceFeatures := virtioFVersion1 ||| virtioConsoleFSize
    queue := Function.update s.queue 0 { s.queue 0 with manualRecv := true } }

-- The host's `getrandom`, by its answer to the `k`-th call for `n` bytes: the return value and
-- the bytes.
structure EntropyState where
  getrandom : Nat → BitVec 32 → Int × List (BitVec 8)
  calls : Nat

-- The loop of `virtio_entropy_recv_request`, while `offset < write_size`.
def virtioEntropyRecvRequest.fill (queueIdx : Fin maxQueue) (descIdx : BitVec 16)
    (writeSize : BitVec 32) (fuel : Nat) : Nat → BitVec 32 → VirtioM EntropyState Unit
  | 0, _ => fail .outOfFuel
  | n + 1, offset => do
    if ¬offset.slt writeSize then return
    let blockSize := if (writeSize - offset).slt 256 then writeSize - offset else 256
    let s1 ← getExt
    setExt { s1 with calls := s1.calls + 1 }
    let (ret, buf) := s1.getrandom s1.calls blockSize
    if ret ≤ 0 then fail .abort
    let ret := BitVec.ofInt 32 ret
    let _ ← memcpyToQueue fuel queueIdx descIdx offset buf ret
    fill queueIdx descIdx writeSize fuel n (offset + ret)

def virtioEntropyRecvRequest : DeviceRecv EntropyState := fun fuel queueIdx descIdx _ writeSize =>
  do
  if queueIdx.val = 0 then
    virtioEntropyRecvRequest.fill queueIdx descIdx writeSize fuel fuel 0
    virtioConsumeDesc queueIdx descIdx writeSize
  return 0

def virtioEntropyInit : VirtioDevice :=
  virtioInit 4 0

end Virtio
