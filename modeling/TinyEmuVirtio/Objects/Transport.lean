import TinyEmuVirtio.Objects.Device

namespace Virtio

def virtioMmioConfig : BitVec 32 := 0x100

namespace VirtioDevice

-- `n` bytes of `config_space` from `offset`; past the array this is undefined behaviour.
def configGet (s : VirtioDevice) (offset : BitVec 32) (n : Nat) : Except Fault (BitVec 32) :=
  if offset.toNat + n ≤ maxConfigSpaceSize then
    .ok (BitVec.ofNat 32 (fromLe ((List.range n).map fun i => s.configSpace (offset.toNat + i))))
  else .error .undefined

def configPut (s : VirtioDevice) (offset : BitVec 32) (n : Nat) (val : BitVec 32) :
    Except Fault VirtioDevice :=
  if offset.toNat + n ≤ maxConfigSpaceSize then
    .ok { s with configSpace := putBytes s.configSpace offset.toNat (toLe val.toNat n) }
  else .error .undefined

-- The `config_write` callback, when the device has one.
def callConfigWrite (s : VirtioDevice) : VirtioDevice :=
  match s.configWrite with
  | some f => { s with configSpace := f s.configSpace }
  | none => s

end VirtioDevice

open VirtioDevice

-- The guard of each case of `virtio_config_read` and `virtio_config_write`: an access of `n`
-- bytes at `offset` is made iff `offset < config_space_size - (n - 1)`, in `uint32_t`.
def configFits (s : VirtioDevice) (offset : BitVec 32) (n : Nat) : Bool :=
  offset < s.configSpaceSize - BitVec.ofNat 32 (n - 1)

def configReadAt (s : VirtioDevice) (offset : BitVec 32) (n : Nat) : Except Fault (BitVec 32) :=
  if configFits s offset n then s.configGet offset n else pure 0

def configWriteAt (s : VirtioDevice) (offset val : BitVec 32) (n : Nat) :
    Except Fault VirtioDevice :=
  if configFits s offset n then return callConfigWrite (← s.configPut offset n val) else pure s

def virtioConfigRead (s : VirtioDevice) (offset : BitVec 32) (sizeLog2 : Nat) :
    Except Fault (BitVec 32) :=
  match sizeLog2 with
  | 0 => configReadAt s offset 1
  | 1 => configReadAt s offset 2
  | 2 => configReadAt s offset 4
  | _ => throw .abort

def virtioConfigWrite (s : VirtioDevice) (offset val : BitVec 32) (sizeLog2 : Nat) :
    Except Fault VirtioDevice :=
  match sizeLog2 with
  | 0 => configWriteAt s offset val 1
  | 1 => configWriteAt s offset val 2
  | 2 => configWriteAt s offset val 4
  | _ => pure s

def virtioConfigChangeNotify (s : VirtioDevice) : VirtioDevice :=
  ({ s with intStatus := s.intStatus ||| 2 }).setIrq true

def setLow32 (paddr : BitVec 64) (val : BitVec 32) : BitVec 64 :=
  (paddr &&& ~~~0xffffffff) ||| val.setWidth 64

def setHigh32 (paddr : BitVec 64) (val : BitVec 32) : BitVec 64 :=
  (paddr &&& 0xffffffff) ||| (val.setWidth 64 <<< 32)

-- The registers of the MMIO transport below `VIRTIO_MMIO_CONFIG`, as the `case` labels of
-- `virtio_mmio_read` and `virtio_mmio_write` name them.
inductive MmioReg where
  | magicValue | version | deviceId | vendorId | deviceFeatures | deviceFeaturesSel
  | driverFeatures | driverFeaturesSel | queueSel | queueNumMax | queueNum | queueReady
  | queueNotify | interruptStatus | interruptAck | status | queueDescLow | queueDescHigh
  | queueAvailLow | queueAvailHigh | queueUsedLow | queueUsedHigh | configGeneration | other
  deriving DecidableEq, Repr

def MmioReg.ofOffset (offset : BitVec 32) : MmioReg :=
  match offset.toNat with
  | 0x000 => .magicValue
  | 0x004 => .version
  | 0x008 => .deviceId
  | 0x00c => .vendorId
  | 0x010 => .deviceFeatures
  | 0x014 => .deviceFeaturesSel
  | 0x020 => .driverFeatures
  | 0x024 => .driverFeaturesSel
  | 0x030 => .queueSel
  | 0x034 => .queueNumMax
  | 0x038 => .queueNum
  | 0x044 => .queueReady
  | 0x050 => .queueNotify
  | 0x060 => .interruptStatus
  | 0x064 => .interruptAck
  | 0x070 => .status
  | 0x080 => .queueDescLow
  | 0x084 => .queueDescHigh
  | 0x090 => .queueAvailLow
  | 0x094 => .queueAvailHigh
  | 0x0a0 => .queueUsedLow
  | 0x0a4 => .queueUsedHigh
  | 0x0fc => .configGeneration
  | _ => .other

-- The feature negotiation of the `VIRTIO_MMIO_STATUS` case of `virtio_mmio_write`, on a request
-- for `FEATURES_OK`: the value of `negotiated_features` after it, and the value committed to
-- `status` (without `FEATURES_OK` when the negotiation fails).
def negotiate (s : VirtioDevice) (val : BitVec 32) : BitVec 64 × BitVec 32 :=
  if s.status &&& virtioStatFeaturesOk = 0 ∧ val &&& virtioStatFeaturesOk ≠ 0 then
    let negotiatedFeatures := s.driverFeatures &&& s.deviceFeatures
    if negotiatedFeatures = s.driverFeatures ∧ negotiatedFeatures &&& virtioFVersion1 ≠ 0 then
      (negotiatedFeatures, val)
    else (s.negotiatedFeatures, val ^^^ virtioStatFeaturesOk)
  else (s.negotiatedFeatures, val)

-- The `VIRTIO_MMIO_STATUS` case: the negotiation, the commit, and a reset when the committed value
-- is 0.
def mmioWriteStatus (s : VirtioDevice) (val : BitVec 32) : VirtioDevice :=
  let s := { s with negotiatedFeatures := (negotiate s val).1, status := (negotiate s val).2 }
  if s.status = 0 then virtioReset (s.setIrq false) else s

def mmioWriteDriverFeatures (s : VirtioDevice) (val : BitVec 32) : VirtioDevice :=
  match s.driverFeaturesSel.toNat with
  | 0 => { s with driverFeatures := s.driverFeatures ||| val.setWidth 64 }
  | 1 => { s with driverFeatures := s.driverFeatures ||| (val.setWidth 64 <<< 32) }
  | _ => s

def interruptAck (s : VirtioDevice) (val : BitVec 32) : VirtioDevice :=
  let s := { s with intStatus := s.intStatus &&& ~~~val }
  if s.intStatus = 0 then s.setIrq false else s

-- `(val & (val - 1)) == 0 && val > 0`
def isPow2 (val : BitVec 32) : Bool :=
  val &&& (val - 1) = 0 ∧ 0 < val

-- The handlers the two transports share: `QUEUE_SEL`, `QUEUE_NUM` (PCI: `QUEUE_SIZE`), which
-- takes only a power of two, and `QUEUE_NOTIFY` (PCI: the notify region).
def writeQueueSel (s : VirtioDevice) (val : BitVec 32) : VirtioDevice :=
  if val.toNat < maxQueue then { s with queueSel := val } else s

def writeQueueNum (s : VirtioDevice) (val : BitVec 32) : Except Fault VirtioDevice :=
  if isPow2 val then s.updateSelQueue ({ · with num := val }) else pure s

def writeQueueNotify (s : VirtioDevice) (val : BitVec 32) : VirtioDevice :=
  if val.toNat < maxQueue then s.asyncQueueNotify val else s

def virtioMmioWrite (s : VirtioDevice) (offset val : BitVec 32) (sizeLog2 : Nat) :
    Except Fault VirtioDevice :=
  if virtioMmioConfig ≤ offset then virtioConfigWrite s (offset - virtioMmioConfig) val sizeLog2
  else if sizeLog2 = 2 then
    match MmioReg.ofOffset offset with
    | .deviceFeaturesSel => pure { s with deviceFeaturesSel := val }
    | .driverFeaturesSel => pure { s with driverFeaturesSel := val }
    | .driverFeatures => pure (mmioWriteDriverFeatures s val)
    | .queueSel => pure (writeQueueSel s val)
    | .queueNum => writeQueueNum s val
    | .queueDescLow => s.updateSelQueue fun qs => { qs with descAddr := setLow32 qs.descAddr val }
    | .queueAvailLow =>
      s.updateSelQueue fun qs => { qs with availAddr := setLow32 qs.availAddr val }
    | .queueUsedLow => s.updateSelQueue fun qs => { qs with usedAddr := setLow32 qs.usedAddr val }
    | .queueDescHigh =>
      s.updateSelQueue fun qs => { qs with descAddr := setHigh32 qs.descAddr val }
    | .queueAvailHigh =>
      s.updateSelQueue fun qs => { qs with availAddr := setHigh32 qs.availAddr val }
    | .queueUsedHigh =>
      s.updateSelQueue fun qs => { qs with usedAddr := setHigh32 qs.usedAddr val }
    | .status => pure (mmioWriteStatus s val)
    | .queueReady => s.updateSelQueue ({ · with ready := val &&& 1 })
    | .queueNotify => pure (writeQueueNotify s val)
    | .interruptAck => pure (interruptAck s val)
    | _ => pure s
  else pure s

def virtioMmioRead (s : VirtioDevice) (offset : BitVec 32) (sizeLog2 : Nat) :
    Except Fault (BitVec 32) :=
  if virtioMmioConfig ≤ offset then virtioConfigRead s (offset - virtioMmioConfig) sizeLog2
  else if sizeLog2 = 2 then
    match MmioReg.ofOffset offset with
    | .magicValue => pure 0x74726976
    | .version => pure 2
    | .deviceId => pure s.deviceId
    | .vendorId => pure s.vendorId
    | .deviceFeatures =>
      pure <| match s.deviceFeaturesSel.toNat with
        | 0 => s.deviceFeatures.setWidth 32
        | 1 => (s.deviceFeatures >>> 32).setWidth 32
        | _ => 0
    | .deviceFeaturesSel => pure s.deviceFeaturesSel
    | .queueSel => pure s.queueSel
    | .queueNumMax => pure maxQueueNum
    | .queueNum => return (s.queue (← s.selQueue)).num
    | .queueDescLow => return (s.queue (← s.selQueue)).descAddr.setWidth 32
    | .queueAvailLow => return (s.queue (← s.selQueue)).availAddr.setWidth 32
    | .queueUsedLow => return (s.queue (← s.selQueue)).usedAddr.setWidth 32
    | .queueDescHigh => return ((s.queue (← s.selQueue)).descAddr >>> 32).setWidth 32
    | .queueAvailHigh => return ((s.queue (← s.selQueue)).availAddr >>> 32).setWidth 32
    | .queueUsedHigh => return ((s.queue (← s.selQueue)).usedAddr >>> 32).setWidth 32
    | .queueReady => return (s.queue (← s.selQueue)).ready
    | .interruptStatus => pure s.intStatus
    | .status => pure s.status
    | .configGeneration => pure 0
    | _ => pure 0
  else pure 0

-- The common-configuration registers of the PCI transport, as the `case` labels of
-- `virtio_pci_read` and `virtio_pci_write` name them.
inductive PciReg where
  | deviceFeatureSel | deviceFeature | numQueues | deviceStatus | queueSel | queueSize
  | queueEnable | queueNotifyOff | queueDescLow | queueDescHigh | queueAvailLow | queueAvailHigh
  | queueUsedLow | queueUsedHigh | other
  deriving DecidableEq, Repr

def PciReg.ofOffset (offset : BitVec 32) : PciReg :=
  match offset.toNat with
  | 0x000 => .deviceFeatureSel
  | 0x004 => .deviceFeature
  | 0x012 => .numQueues
  | 0x014 => .deviceStatus
  | 0x016 => .queueSel
  | 0x018 => .queueSize
  | 0x01c => .queueEnable
  | 0x01e => .queueNotifyOff
  | 0x020 => .queueDescLow
  | 0x024 => .queueDescHigh
  | 0x028 => .queueAvailLow
  | 0x02c => .queueAvailHigh
  | 0x030 => .queueUsedLow
  | 0x034 => .queueUsedHigh
  | _ => .other

-- `virtio_pci_read` returns the value and the device, since reading the ISR clears it.
def virtioPciRead (s : VirtioDevice) (offset1 : BitVec 32) (sizeLog2 : Nat) :
    Except Fault (BitVec 32 × VirtioDevice) :=
  let offset := offset1 &&& 0xfff
  match (offset1 >>> 12).toNat with
  | 0 =>
    match sizeLog2, PciReg.ofOffset offset with
    | 2, .deviceFeature =>
      pure (match s.deviceFeaturesSel.toNat with
        | 0 => s.deviceFeatures.setWidth 32
        | 1 => 1
        | _ => 0, s)
    | 2, .deviceFeatureSel => pure (s.deviceFeaturesSel, s)
    | 2, .queueDescLow => return ((s.queue (← s.selQueue)).descAddr.setWidth 32, s)
    | 2, .queueAvailLow => return ((s.queue (← s.selQueue)).availAddr.setWidth 32, s)
    | 2, .queueUsedLow => return ((s.queue (← s.selQueue)).usedAddr.setWidth 32, s)
    | 2, .queueDescHigh => return (((s.queue (← s.selQueue)).descAddr >>> 32).setWidth 32, s)
    | 2, .queueAvailHigh => return (((s.queue (← s.selQueue)).availAddr >>> 32).setWidth 32, s)
    | 2, .queueUsedHigh => return (((s.queue (← s.selQueue)).usedAddr >>> 32).setWidth 32, s)
    | 1, .numQueues => pure (maxQueueNum, s)
    | 1, .queueSel => pure (s.queueSel, s)
    | 1, .queueSize => return ((s.queue (← s.selQueue)).num, s)
    | 1, .queueEnable => return ((s.queue (← s.selQueue)).ready, s)
    | 1, .queueNotifyOff => pure (0, s)
    | 0, .deviceStatus => pure (s.status, s)
    | _, _ => pure (0, s)
  | 1 =>
    if offset = 0 ∧ sizeLog2 = 0 then pure (s.intStatus, ({ s with intStatus := 0 }).setIrq false)
    else pure (0, s)
  | 2 => return (← virtioConfigRead s offset sizeLog2, s)
  | _ => pure (0, s)

-- The `VIRTIO_PCI_DEVICE_STATUS` case of `virtio_pci_write`: no feature negotiation.
def pciWriteStatus (s : VirtioDevice) (val : BitVec 32) : VirtioDevice :=
  let s := { s with status := val }
  if val = 0 then virtioReset (s.setIrq false) else s

def virtioPciWrite (s : VirtioDevice) (offset1 val : BitVec 32) (sizeLog2 : Nat) :
    Except Fault VirtioDevice :=
  let offset := offset1 &&& 0xfff
  match (offset1 >>> 12).toNat with
  | 0 =>
    match sizeLog2, PciReg.ofOffset offset with
    | 2, .deviceFeatureSel => pure { s with deviceFeaturesSel := val }
    | 2, .queueDescLow => s.updateSelQueue fun qs => { qs with descAddr := setLow32 qs.descAddr val }
    | 2, .queueAvailLow =>
      s.updateSelQueue fun qs => { qs with availAddr := setLow32 qs.availAddr val }
    | 2, .queueUsedLow => s.updateSelQueue fun qs => { qs with usedAddr := setLow32 qs.usedAddr val }
    | 2, .queueDescHigh =>
      s.updateSelQueue fun qs => { qs with descAddr := setHigh32 qs.descAddr val }
    | 2, .queueAvailHigh =>
      s.updateSelQueue fun qs => { qs with availAddr := setHigh32 qs.availAddr val }
    | 2, .queueUsedHigh =>
      s.updateSelQueue fun qs => { qs with usedAddr := setHigh32 qs.usedAddr val }
    | 1, .queueSel => pure (writeQueueSel s val)
    | 1, .queueSize => writeQueueNum s val
    | 1, .queueEnable => s.updateSelQueue ({ · with ready := val &&& 1 })
    | 0, .deviceStatus => pure (pciWriteStatus s val)
    | _, _ => pure s
  | 2 => virtioConfigWrite s offset val sizeLog2
  | 3 => pure (writeQueueNotify s val)
  | _ => pure s

end Virtio
