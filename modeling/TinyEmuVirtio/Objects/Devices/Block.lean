import TinyEmuVirtio.Objects.Queue

namespace Virtio

def virtioBlkSOk : BitVec 8 := 0
def virtioBlkSIoerr : BitVec 8 := 1
def virtioBlkSUnsupp : BitVec 8 := 2
def sectorSize : BitVec 32 := 512

def virtioBlkFSegMax : BitVec 64 := 0x0004

-- `BlockRequestHeader`, decoded from the 16 bytes at the head of a request.
structure BlockRequestHeader where
  type : BitVec 32
  reserved : BitVec 32
  sectorNum : BitVec 64

def BlockRequestHeader.ofBytes (bs : List (BitVec 8)) : BlockRequestHeader where
  type := BitVec.ofNat 32 (fromLe (bs.take 4))
  reserved := BitVec.ofNat 32 (fromLe ((bs.drop 4).take 4))
  sectorNum := BitVec.ofNat 64 (fromLe ((bs.drop 8).take 8))

structure BlockRequest where
  type : BitVec 32
  buf : List (BitVec 8)
  writeSize : BitVec 32
  queueIdx : Fin maxQueue
  descIdx : BitVec 16

def BlockRequest.zero : BlockRequest := ⟨0, [], 0, 0, 0⟩

-- The block device's environment. The backend `BlockDevice`, by its answers: to the `k`-th call of
-- `read_async` (the return value and the bytes it stores into the buffer) and of `write_async`.
-- And `malloc`, by the contents of the `k`-th buffer it returns, which C leaves indeterminate.
structure BlockBackend where
  readAsync : Nat → BitVec 64 → BitVec 32 → Int × List (BitVec 8)
  writeAsync : Nat → BitVec 64 → List (BitVec 8) → BitVec 32 → Int
  heap : Nat → Nat → BitVec 8
  deriving Inhabited

-- The fields of `VIRTIOBlockDevice` after `common`, with the environment's own state: how many
-- calls the backend has answered, whether it still owes `virtio_block_req_cb` a call, and how many
-- buffers `malloc` has returned.
structure BlockState where
  bs : BlockBackend
  reqInProgress : Bool
  req : BlockRequest
  calls : Nat
  outstanding : Bool
  allocs : Nat

def readAsync (sectorNum : BitVec 64) (n : BitVec 32) : VirtioM BlockState (Int × List (BitVec 8)) :=
  do
  let s1 ← getExt
  setExt { s1 with calls := s1.calls + 1 }
  return s1.bs.readAsync s1.calls sectorNum n

def writeAsync (sectorNum : BitVec 64) (buf : List (BitVec 8)) (n : BitVec 32) :
    VirtioM BlockState Int := do
  let s1 ← getExt
  setExt { s1 with calls := s1.calls + 1 }
  return s1.bs.writeAsync s1.calls sectorNum buf n

-- `malloc(n)` in the block device: the next buffer of its environment.
def blockMalloc (n : BitVec 32) : VirtioM BlockState (List (BitVec 8)) := do
  let s1 ← getExt
  let buf ← liftExcept (malloc (s1.bs.heap s1.allocs) n)
  setExt { s1 with allocs := s1.allocs + 1 }
  return buf

def blockStatus (ret : Int) : BitVec 8 := if ret < 0 then virtioBlkSIoerr else virtioBlkSOk

-- The `VIRTIO_BLK_T_IN` case of `virtio_block_req_end`, whose code the shared `FLUSH`,
-- `FLUSH_OUT` and `GET_ID` case repeats: the status byte goes last in `req.buf`, and the whole
-- buffer is copied to the queue and consumed.
def blockReqEndBuf (fuel : Nat) (ret : Int) : VirtioM BlockState Unit := do
  let req := (← getExt).req
  let buf ← liftExcept (setByte req.buf (req.writeSize - 1) (blockStatus ret))
  let _ ← memcpyToQueue fuel req.queueIdx req.descIdx 0 buf req.writeSize
  virtioConsumeDesc req.queueIdx req.descIdx req.writeSize

def virtioBlockReqEnd (fuel : Nat) (ret : Int) : VirtioM BlockState Unit := do
  let req := (← getExt).req
  match req.type.toNat with
  | 0 => blockReqEndBuf fuel ret
  | 1 =>
    let _ ← memcpyToQueue fuel req.queueIdx req.descIdx 0 [blockStatus ret] 1
    virtioConsumeDesc req.queueIdx req.descIdx 1
  | 4 | 5 | 8 => blockReqEndBuf fuel ret
  | _ => fail .abort

-- Marks the request asynchronous, or ends it at once.
def blockAfterBackend (fuel : Nat) (ret : Int) : VirtioM BlockState Unit :=
  if ret > 0 then modifyExt ({ · with reqInProgress := true, outstanding := true })
  else virtioBlockReqEnd fuel ret

def virtioBlockRecvRequest : DeviceRecv BlockState := fun fuel queueIdx descIdx readSize writeSize =>
  do
  let s1 ← getExt
  if s1.reqInProgress then return -1
  let (r, hdr) ← memcpyFromQueue fuel queueIdx descIdx 0 16
  if r < 0 then return 0
  logAccess (.take queueIdx descIdx)
  let h := BlockRequestHeader.ofBytes hdr
  setExt { s1 with req := { s1.req with type := h.type, queueIdx, descIdx } }
  match h.type.toNat with
  | 0 =>
    let buf ← blockMalloc writeSize
    let (ret, data) ← readAsync h.sectorNum ((writeSize - 1).sdiv sectorSize)
    let buf := if ret > 0 then buf else fillBuf buf data
    modifyExt fun s1 => { s1 with req := { s1.req with buf, writeSize } }
    blockAfterBackend fuel ret
  | 1 =>
    if ¬(1 : BitVec 32).sle writeSize then fail .abort
    let len := readSize - 16
    -- `buf = malloc(len)`, which the copy fills before `write_async` gets it
    let _ ← liftExcept (mallocSize len)
    let (_, buf) ← memcpyFromQueue fuel queueIdx descIdx 16 len
    let ret ← writeAsync h.sectorNum buf (len.sdiv sectorSize)
    blockAfterBackend fuel ret
  | 4 | 5 =>
    if h.sectorNum ≠ 0 then fail .abort
    if ¬(1 : BitVec 32).sle writeSize then fail .abort
    let buf ← blockMalloc writeSize
    modifyExt fun s1 => { s1 with req := { s1.req with buf, writeSize } }
    virtioBlockReqEnd fuel 0
  | 8 =>
    if ¬(21 : BitVec 32).sle writeSize then fail .abort
    let buf ← liftExcept (calloc writeSize)
    let buf := fillBuf buf (cBytes "tinyemu-virtio-blk" ++ [0, 0])
    modifyExt fun s1 => { s1 with req := { s1.req with buf, writeSize } }
    virtioBlockReqEnd fuel 0
  | _ =>
    let _ ← memcpyToQueue fuel queueIdx descIdx 0 [virtioBlkSUnsupp] 1
    virtioConsumeDesc queueIdx descIdx 1
  return 0

def virtioBlockReqCb (fuel : Nat) (ret : Int) : VirtioM BlockState Unit := do
  virtioBlockReqEnd fuel ret
  modifyExt ({ · with reqInProgress := false })
  queueNotify virtioBlockRecvRequest fuel (← getExt).req.queueIdx

-- The backend finishes its outstanding operation: a read first stores its bytes into the
-- request's buffer, then the callback runs.
def blockComplete (fuel : Nat) (ret : Int) (data : List (BitVec 8)) : VirtioM BlockState Unit := do
  let s1 ← getExt
  if ¬s1.outstanding then fail .undefined
  let buf := if s1.req.type = 0 then fillBuf s1.req.buf data else s1.req.buf
  setExt { s1 with outstanding := false, req := { s1.req with buf } }
  virtioBlockReqCb fuel ret

def virtioBlockInit (nbSectors : BitVec 64) : VirtioDevice :=
  let s := virtioInit 2 16
  { s with
    configSpace := putBytes s.configSpace 0
      (toLe nbSectors.toNat 4 ++ toLe (nbSectors >>> 32).toNat 4 ++ toLe 0 4 ++ toLe 64 4)
    deviceFeatures := virtioFVersion1 ||| virtioBlkFSegMax }

def BlockState.init (bs : BlockBackend) : BlockState :=
  ⟨bs, false, .zero, 0, false, 0⟩

end Virtio
