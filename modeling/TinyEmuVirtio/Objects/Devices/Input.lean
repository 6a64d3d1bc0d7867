import TinyEmuVirtio.Objects.Queue

namespace Virtio

-- `VirtioInputTypeEnum`, declared in `virtio.h`.
inductive VirtioInputType where
  | keyboard | mouse | tablet
  deriving DecidableEq, Repr

def virtioInputEvSyn : BitVec 16 := 0x00
def virtioInputEvKey : BitVec 16 := 0x01
def virtioInputEvRel : BitVec 16 := 0x02
def virtioInputEvAbs : BitVec 16 := 0x03

def btnLeft : BitVec 16 := 0x110
def btnRight : BitVec 16 := 0x111
def btnMiddle : BitVec 16 := 0x112

def relX : BitVec 16 := 0x00
def relY : BitVec 16 := 0x01
def relWheel : BitVec 16 := 0x08

def absX : BitVec 16 := 0x00
def absY : BitVec 16 := 0x01

def buttonsList : List (BitVec 16) := [btnLeft, btnRight, btnMiddle]

-- The fields of `VIRTIOInputDevice` after `common`.
structure InputState where
  type : VirtioInputType
  buttonsState : BitVec 32

def virtioInputRecvRequest : DeviceRecv InputState := fun _ queueIdx descIdx _ _ => do
  if queueIdx.val = 1 then virtioConsumeDesc queueIdx descIdx 0
  return 0

def virtioInputQueueEvent (fuel : Nat) (type code : BitVec 16) (value : BitVec 32) :
    VirtioM InputState Int := do
  let qs ← getQueue 0
  if qs.ready = 0 then return -1
  let buf := toLe type.toNat 2 ++ toLe code.toNat 2 ++ toLe value.toNat 4
  if qs.lastAvailIdx = qs.availIdx then return -1
  let descIdx ← nextAvailDesc 0
  let _ ← memcpyToQueue fuel 0 descIdx 0 buf 8
  virtioConsumeDesc 0 descIdx 8
  incLastAvailIdx 0
  return 0

def virtioInputSendKeyEvent (fuel : Nat) (isDown : Bool) (keyCode : BitVec 16) :
    VirtioM InputState Int := do
  if (← getExt).type ≠ .keyboard then return -1
  let ret ← virtioInputQueueEvent fuel virtioInputEvKey keyCode (if isDown then 1 else 0)
  if ret ≠ 0 then return ret
  virtioInputQueueEvent fuel virtioInputEvSyn 0 0

-- The loop of `virtio_input_send_mouse_event` over `buttons_list`.
def virtioInputSendMouseEvent.loop (fuel : Nat) (buttons last : BitVec 32) :
    List (BitVec 16) → Nat → VirtioM InputState Int
  | [], _ => return 0
  | code :: codes, i => do
    let b := (buttons >>> i) &&& 1
    if b ≠ (last >>> i) &&& 1 then
      let ret ← virtioInputQueueEvent fuel virtioInputEvKey code b
      if ret ≠ 0 then return ret
    loop fuel buttons last codes (i + 1)

def virtioInputSendMouseEvent (fuel : Nat) (dx dy dz buttons : BitVec 32) :
    VirtioM InputState Int := do
  let s1 ← getExt
  if s1.type ≠ .mouse ∧ s1.type ≠ .tablet then return -1
  let (ev, x, y) := if s1.type = .mouse then (virtioInputEvRel, relX, relY)
    else (virtioInputEvAbs, absX, absY)
  let ret ← virtioInputQueueEvent fuel ev x dx
  if ret ≠ 0 then return ret
  let ret ← virtioInputQueueEvent fuel ev y dy
  if ret ≠ 0 then return ret
  if dz ≠ 0 then
    let ret ← virtioInputQueueEvent fuel virtioInputEvRel relWheel dz
    if ret ≠ 0 then return ret
  if buttons ≠ s1.buttonsState then
    let ret ← virtioInputSendMouseEvent.loop fuel buttons s1.buttonsState buttonsList 0
    if ret ≠ 0 then return ret
    modifyExt ({ · with buttonsState := buttons })
  virtioInputQueueEvent fuel virtioInputEvSyn 0 0

-- `set_bit(config + 8, k)`.
def setBit (config : ConfigSpace) (k : Nat) : ConfigSpace :=
  Function.update config (8 + k / 8) (config (8 + k / 8) ||| 1 <<< (k % 8))

def VirtioInputType.name : VirtioInputType → String
  | .keyboard => "virtio_keyboard"
  | .mouse => "virtio_mouse"
  | .tablet => "virtio_tablet"

-- `virtio_input_config_write`, for a device of type `type`. `absScale` is
-- `VIRTIO_INPUT_ABS_SCALE`, defined in `virtio.h`.
def virtioInputConfigWrite (type : VirtioInputType) (absScale : BitVec 32) (config : ConfigSpace) :
    ConfigSpace :=
  let set2 (c : ConfigSpace) (v : BitVec 8) := Function.update c 2 v
  match (config 0).toNat with
  | 0x00 => config
  | 0x01 =>
    let name := cBytes type.name
    putBytes (set2 config (BitVec.ofNat 8 name.length)) 8 name
  | 0x11 =>
    let config := set2 config 0
    match type, (config 1).toNat with
    | .keyboard, 0x01 => putBytes (set2 config (128 / 8)) 8 (List.replicate (128 / 8) 0xff)
    | .keyboard, 0x14 => set2 config 1
    | .mouse, 0x01 | .tablet, 0x01 =>
      buttonsList.foldl (fun c b => setBit c b.toNat)
        (putBytes (set2 config (512 / 8)) 8 (List.replicate (512 / 8) 0))
    | .mouse, 0x02 =>
      [relX, relY, relWheel].foldl (fun c b => setBit c b.toNat)
        (putBytes (set2 config 2) 8 [0, 0])
    | .tablet, 0x02 => setBit (putBytes (set2 config 2) 8 [0, 0]) relWheel.toNat
    | .tablet, 0x03 => setBit (setBit (putBytes (set2 config 1) 8 [0]) absX.toNat) absY.toNat
    | _, _ => config
  | 0x12 =>
    if type = .tablet ∧ (config 1).toNat ≤ 1 then
      putBytes (set2 config (5 * 4)) 8
        (toLe 0 4 ++ toLe (absScale - 1).toNat 4 ++ toLe 0 4 ++ toLe 0 4 ++ toLe 0 4)
    else config
  | _ => set2 config 0

def virtioInputInit (type : VirtioInputType) (absScale : BitVec 32) : VirtioDevice :=
  let s := virtioInit 18 256
  { s with
    queue := Function.update s.queue 0 { s.queue 0 with manualRecv := true }
    deviceFeatures := virtioFVersion1
    configWrite := some (virtioInputConfigWrite type absScale) }

def InputState.init (type : VirtioInputType) : InputState := ⟨type, 0⟩

end Virtio
