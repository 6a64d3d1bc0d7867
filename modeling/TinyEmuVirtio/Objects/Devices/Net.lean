import TinyEmuVirtio.Objects.Queue

namespace Virtio

def virtioNetFMac : BitVec 64 := 1 <<< 5

-- The fields of `VIRTIONetDevice` after `common`. The backend `EthernetDevice` is kept as the
-- packets handed to its `write_packet`, newest first.
structure NetState where
  headerSize : BitVec 32
  sent : List (List (BitVec 8))

def virtioNetRecvRequest : DeviceRecv NetState := fun fuel queueIdx descIdx readSize _ => do
  if queueIdx.val = 1 then
    let s1 ← getExt
    let (r, _) ← memcpyFromQueue fuel queueIdx descIdx 0 s1.headerSize
    if r < 0 then return 0
    let len := readSize - s1.headerSize
    -- `buf = malloc(len)`, which the copy fills before `write_packet` gets it
    let _ ← liftExcept (mallocSize len)
    let (_, buf) ← memcpyFromQueue fuel queueIdx descIdx s1.headerSize len
    setExt { s1 with sent := buf :: s1.sent }
    virtioConsumeDesc queueIdx descIdx 0
  return 0

def virtioNetCanWritePacket (s : VirtioDevice) : Bool :=
  (s.queue 0).ready ≠ 0 ∧ (s.queue 0).lastAvailIdx ≠ (s.queue 0).availIdx

def virtioNetWritePacket (fuel : Nat) (buf : List (BitVec 8)) (bufLen : BitVec 32) :
    VirtioM NetState Unit := do
  let qs ← getQueue 0
  if qs.ready = 0 then return
  if qs.lastAvailIdx = qs.availIdx then return
  let descIdx ← nextAvailDesc 0
  let some (_, writeSize) ← getDescRwSize fuel 0 descIdx | return
  let headerSize := (← getExt).headerSize
  let len := headerSize + bufLen
  if writeSize.slt len then return
  let _ ← memcpyToQueue fuel 0 descIdx 0 (List.replicate headerSize.toNat 0) headerSize
  let _ ← memcpyToQueue fuel 0 descIdx headerSize buf bufLen
  virtioConsumeDesc 0 descIdx len
  incLastAvailIdx 0

def virtioNetSetCarrier (carrierState : Bool) : VirtioM NetState Unit := do
  let s ← getDev
  if (s.configSpace 6 &&& 1 ≠ 0) ≠ carrierState then
    modifyDev fun s =>
      virtioConfigChangeNotify
        { s with configSpace := putBytes s.configSpace 6 [if carrierState then 1 else 0] }

def virtioNetInit (macAddr : List (BitVec 8)) : VirtioDevice :=
  let s := virtioInit 1 (6 + 2)
  { s with
    deviceFeatures := virtioFVersion1 ||| virtioNetFMac
    queue := Function.update s.queue 0 { s.queue 0 with manualRecv := true }
    configSpace := putBytes s.configSpace 0 (macAddr.take 6 ++ [0, 0]) }

def NetState.init : NetState := ⟨12, []⟩

end Virtio
