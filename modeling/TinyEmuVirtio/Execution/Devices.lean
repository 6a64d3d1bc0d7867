import TinyEmuVirtio.Execution.Step

namespace Virtio

/-! The six devices of the source, with the calls their host side makes. -/

-- The block device over a backend that reports `nbSectors` sectors. The host completes the
-- outstanding request.
def blockModel (nbSectors : BitVec 64) (bs : BlockBackend) : DeviceModel BlockState where
  dev := virtioBlockInit nbSectors
  ext := .init bs
  recv := virtioBlockRecvRequest
  Host := Int × List (BitVec 8)
  host c fuel := blockComplete fuel c.1 c.2

inductive NetHost where
  | writePacket (buf : List (BitVec 8)) (bufLen : BitVec 32)
  | setCarrier (carrierState : Bool)

def netModel (macAddr : List (BitVec 8)) : DeviceModel NetState where
  dev := virtioNetInit macAddr
  ext := .init
  recv := virtioNetRecvRequest
  Host := NetHost
  host
    | .writePacket buf bufLen, fuel => virtioNetWritePacket fuel buf bufLen
    | .setCarrier c, _ => virtioNetSetCarrier c

inductive ConsoleHost where
  | getWriteLen
  | writeData (buf : List (BitVec 8)) (bufLen : BitVec 32)
  | resizeEvent (width height : BitVec 16)

def consoleModel : DeviceModel ConsoleState where
  dev := virtioConsoleInit
  ext := ⟨[]⟩
  recv := virtioConsoleRecvRequest
  Host := ConsoleHost
  host
    | .getWriteLen, fuel => do let _ ← virtioConsoleGetWriteLen fuel
    | .writeData buf bufLen, fuel => do let _ ← virtioConsoleWriteData fuel buf bufLen
    | .resizeEvent w h, _ => virtioConsoleResizeEvent w h

def entropyModel (getrandom : Nat → BitVec 32 → Int × List (BitVec 8)) :
    DeviceModel EntropyState where
  dev := virtioEntropyInit
  ext := ⟨getrandom, 0⟩
  recv := virtioEntropyRecvRequest
  Host := Empty
  host c := c.elim

inductive InputHost where
  | keyEvent (isDown : Bool) (keyCode : BitVec 16)
  | mouseEvent (dx dy dz buttons : BitVec 32)

def inputModel (type : VirtioInputType) (absScale : BitVec 32) : DeviceModel InputState where
  dev := virtioInputInit type absScale
  ext := .init type
  recv := virtioInputRecvRequest
  Host := InputHost
  host
    | .keyEvent d k, fuel => do let _ ← virtioInputSendKeyEvent fuel d k
    | .mouseEvent dx dy dz b, fuel => do let _ ← virtioInputSendMouseEvent fuel dx dy dz b

-- The 9P device `virtio_9p_init` built as `dev`. The host answers the outstanding `lopen`.
def ninePModel (dev : VirtioDevice) (fs : FsDevice) : DeviceModel NinePState where
  dev := dev
  ext := .init fs
  recv := virtio9pRecvRequest
  Host := FsQid × Int
  host c fuel := virtio9pOpenCb fuel c.1 c.2

-- The devices the source's `*_init` functions build.
inductive DeviceInit : VirtioDevice → Prop
  | block (nbSectors : BitVec 64) : DeviceInit (virtioBlockInit nbSectors)
  | net (macAddr : List (BitVec 8)) : DeviceInit (virtioNetInit macAddr)
  | console : DeviceInit virtioConsoleInit
  | entropy : DeviceInit virtioEntropyInit
  | input (type : VirtioInputType) (absScale : BitVec 32) : DeviceInit (virtioInputInit type absScale)
  | ninep {mountTag : CString} {dev : VirtioDevice} : virtio9pInit mountTag = .ok dev → DeviceInit dev

-- The states of the devices the source builds, along every run.
inductive ReachableDev : VirtioDevice → Prop
  | block {nbSectors bs m} : Reachable (blockModel nbSectors bs) m → ReachableDev m.dev
  | net {macAddr m} : Reachable (netModel macAddr) m → ReachableDev m.dev
  | console {m} : Reachable consoleModel m → ReachableDev m.dev
  | entropy {getrandom m} : Reachable (entropyModel getrandom) m → ReachableDev m.dev
  | input {type absScale m} : Reachable (inputModel type absScale) m → ReachableDev m.dev
  | ninep {mountTag dev fs m} :
    virtio9pInit mountTag = .ok dev → Reachable (ninePModel dev fs) m → ReachableDev m.dev

/-! The 9P device's operations, for every property they keep -/

-- A property that guest memory, the log of DMA accesses and the 9P backend's state apart from
-- `req_in_progress` and the outstanding `lopen` do not decide.
structure NineFrame (P : Machine NinePState → Prop) extends ReadFrame P : Prop where
  ext : ∀ m e, e.reqInProgress = m.ext.reqInProgress → e.outstanding = m.ext.outstanding → P m →
    P { m with ext := e }

theorem NineFrame.dev (I : VirtioDevice → Prop) : NineFrame fun m : Machine NinePState => I m.dev :=
  ⟨.dev I, fun _ _ _ _ h => h⟩

-- What an operation leaves: `P` and its reply, or, for an `lopen` left to its callback, `P` of
-- the state before `oi` was made the outstanding request.
def OpPost (P : Machine NinePState → Prop) (oi : P9OpenInfo) : P9Result → Machine NinePState → Prop
  | .pending, m => ∃ e, P { m with ext := e } ∧
      m.ext = { e with reqInProgress := true, outstanding := some oi }
  | _, m => P m

namespace Keeps

variable {P : Machine NinePState → Prop} (hP : NineFrame P)
include hP

theorem fsCall {α : Type} (f : FsDevice → Nat → α) : Keeps P (Virtio.fsCall f) :=
  Triple.getExt_bind fun _ => Triple.bind ((Triple.setExt _).mono
    (fun _ ⟨h, he⟩ => by subst he; exact hP.ext _ _ rfl rfl h) fun _ _ h => h) fun _ => pure _

theorem fsDelete (fd : FsFile) : Keeps P (Virtio.fsDelete fd) :=
  modifyExt fun _ h => hP.ext _ _ rfl rfl h

theorem fidSet (fid : BitVec 32) (fd : FsFile) : Keeps P (Virtio.fidSet fid fd) := by
  unfold Virtio.fidSet
  with_reducible repeat' (first
    | intro _ | apply getExt | apply fsDelete hP | exact modifyExt fun _ h => hP.ext _ _ rfl rfl h
    | apply bind | split)

theorem fidDelete (fid : BitVec 32) : Keeps P (Virtio.fidDelete fid) := by
  unfold Virtio.fidDelete
  with_reducible repeat' (first
    | intro _ | apply getExt | apply fsDelete hP | exact modifyExt fun _ h => hP.ext _ _ rfl rfl h
    | apply bind | apply pure | split)

theorem unmarshall (fuel : Nat) (q : Fin maxQueue) (d : BitVec 16) (offset : BitVec 32)
    (fmt : List Char) : Keeps P (Virtio.unmarshall fuel q d offset fmt) := by
  have hf : ∀ o c, Keeps P (unmarshallField fuel q d o c) := by
    intro o c
    unfold unmarshallField
    with_reducible repeat' (first
      | intro _ | apply memcpyFromQueue hP.toReadFrame | apply bind | apply ite | apply pure
      | apply fail | dsimp only | split)
  induction fmt generalizing offset with
  | nil => exact pure _
  | cons c cs ih =>
    unfold Virtio.unmarshall
    with_reducible repeat' (first
      | intro _ | apply hf | apply ih | apply bind | apply pure | dsimp only | split)

theorem p9WalkNames (fuel : Nat) (q : Fin maxQueue) (d : BitVec 16) :
    ∀ n o, Keeps P (p9Walk.names fuel q d n o)
  | 0, _ => pure _
  | n + 1, o => by
    unfold p9Walk.names
    with_reducible repeat' (first
      | intro _ | apply unmarshall hP | apply p9WalkNames | apply bind | apply pure | dsimp only
      | split)

end Keeps

namespace OpPost

variable {P : Machine NinePState → Prop} (oi : P9OpenInfo)

theorem reply_pure (buf : List (BitVec 8)) : Triple P (Pure.pure (P9Result.reply buf)) (OpPost P oi) :=
  Triple.pure fun _ h => h

theorem error_pure (err : Int) : Triple P (Pure.pure (P9Result.error err)) (OpPost P oi) :=
  Triple.pure fun _ h => h

theorem reply (args : List P9Value) : Triple P (Virtio.reply args) (OpPost P oi) :=
  Triple.bindK (Keeps.liftExcept _) fun _ => reply_pure oi _

theorem protocolError : Triple P Virtio.protocolError (OpPost P oi) :=
  Triple.bindK Keeps.getExt fun _ => error_pure oi _

theorem replyUnless (isErr : Bool) (err : Int) (args : List P9Value) :
    Triple P (Virtio.replyUnless isErr err args) (OpPost P oi) :=
  Triple.ite (fun _ => error_pure oi _) fun _ => reply oi args

theorem virtio9pOpenReply (qid : FsQid) (err : Int) :
    Triple P (Virtio.virtio9pOpenReply qid err) (OpPost P oi) := by
  unfold Virtio.virtio9pOpenReply
  with_reducible repeat' (first
    | intro _ | split | apply error_pure | apply reply_pure | apply Triple.bindK (Keeps.pure _)
    | apply Triple.bindK Keeps.getExt | apply Triple.bindK (Keeps.liftExcept _))

-- `lopen` leaves the request to its callback.
theorem pending :
    Triple P (Virtio.modifyExt ({ · with reqInProgress := true, outstanding := some oi }) >>=
      fun _ => Pure.pure P9Result.pending) (OpPost P oi) :=
  Triple.bind ((Triple.modifyExt _).mono (fun m h => ⟨m.ext, h, rfl⟩) fun _ _ h => h) fun _ =>
    Triple.pure fun _ h => h

-- Every operation but `lopen` keeps `P` and replies; `lopen` may instead leave its request
-- outstanding.
theorem p9Op (hP : NineFrame P) (fuel : Nat) (q : Fin maxQueue) (d tag : BitVec 16)
    (offset : BitVec 32) (id : BitVec 8) :
    Triple P (Virtio.p9Op fuel q d tag offset id) (OpPost P ⟨q, d, tag⟩) := by
  unfold Virtio.p9Op p9Statfs p9Lopen p9Lcreate p9Symlink p9Mknod p9Readlink p9Getattr p9Setattr
    p9ReadInto p9Fsync p9Lock p9Getlock p9Link p9Mkdir p9Renameat p9Unlinkat p9Version p9Attach
    p9Flush p9Walk p9Write p9Clunk
  with_reducible repeat' (first
    | intro _ | dsimp only | split
    | apply pending | apply protocolError | apply reply | apply replyUnless
    | apply virtio9pOpenReply | apply reply_pure | apply error_pure | apply Triple.fail
    | apply Triple.bindK Keeps.getExt | apply Triple.bindK (Keeps.liftExcept _)
    | apply Triple.bindK (Keeps.unmarshall hP ..)
    | apply Triple.bindK (Keeps.memcpyFromQueue hP.toReadFrame ..)
    | apply Triple.bindK (Keeps.fsCall hP _) | apply Triple.bindK (Keeps.fidSet hP ..)
    | apply Triple.bindK (Keeps.fidDelete hP _) | apply Triple.bindK (Keeps.p9WalkNames hP ..)
    | apply Triple.bindK (Keeps.modifyExt fun _ h => hP.ext _ _ rfl rfl h)
    | apply Triple.bindK (Keeps.fail _) | apply Triple.bindK
    | apply Keeps.bind | apply Keeps.pure)

theorem preserves {I : VirtioDevice → Prop} {x : NineM P9Result}
    (h : Triple (fun m => I m.dev) x (OpPost (fun m => I m.dev) oi)) : Preserves I x :=
  h.mono (fun _ h => h) fun r _ h => by
    cases r with
    | pending => exact h.elim fun _ h => h.1
    | _ => exact h

end OpPost

/-! Each device changes its transport state only by internal changes. -/

namespace Preserves

variable {σ : Type} {I : VirtioDevice → Prop}

theorem protocolError : Preserves I Virtio.protocolError :=
  OpPost.preserves ⟨0, 0, 0⟩ (OpPost.protocolError _)

theorem virtio9pOpenReply (qid : FsQid) (err : Int) :
    Preserves I (Virtio.virtio9pOpenReply qid err) :=
  OpPost.preserves ⟨0, 0, 0⟩ (OpPost.virtio9pOpenReply _ qid err)

theorem p9Op (fuel : Nat) (q : Fin maxQueue) (d tag : BitVec 16) (offset : BitVec 32)
    (id : BitVec 8) : Preserves I (Virtio.p9Op fuel q d tag offset id) :=
  OpPost.preserves _ (OpPost.p9Op (.dev I) ..)

section Request

-- The handlers of a request complete it and change the transport no other way.
variable (hc : Internal.ConsumeClosed I)
include hc

theorem virtioBlockReqEnd (fuel : Nat) (ret : Int) :
    Preserves I (Virtio.virtioBlockReqEnd fuel ret) := by
  unfold Virtio.virtioBlockReqEnd blockReqEndBuf
  with_reducible repeat' (first
    | intro _ | apply getExt | apply liftExcept | apply memcpyToQueue | apply virtioConsumeDesc hc
    | apply bind | apply ite | apply pure | apply fail | dsimp only | split)

theorem virtioBlockRecvRequest (fuel : Nat) (q : Fin maxQueue) (d : BitVec 16) (r w : BitVec 32) :
    Preserves I (Virtio.virtioBlockRecvRequest fuel q d r w) := by
  unfold Virtio.virtioBlockRecvRequest blockAfterBackend readAsync writeAsync blockMalloc
  with_reducible repeat' (first
    | intro _ | apply getExt | apply setExt | apply modifyExt | apply liftExcept | apply logAccess
    | apply memcpyFromQueue | apply memcpyToQueue | apply virtioConsumeDesc hc
    | apply virtioBlockReqEnd hc | apply bind | apply ite | apply pure | apply fail | dsimp only
    | split)

theorem virtio9pFinish (fuel : Nat) (q : Fin maxQueue) (d : BitVec 16) (id : BitVec 8)
    (tag : BitVec 16) (r : P9Result) : Preserves I (Virtio.virtio9pFinish fuel q d id tag r) := by
  unfold Virtio.virtio9pFinish virtio9pSendError virtio9pSendReply
  with_reducible repeat' (first
    | intro _ | apply liftExcept | apply memcpyToQueue | apply virtioConsumeDesc hc | apply bind
    | apply pure | dsimp only | split)

theorem virtio9pRecvRequest (fuel : Nat) (q : Fin maxQueue) (d : BitVec 16) (r w : BitVec 32) :
    Preserves I (Virtio.virtio9pRecvRequest fuel q d r w) := by
  unfold Virtio.virtio9pRecvRequest
  with_reducible repeat' (first
    | intro _ | apply getExt | apply logAccess | apply memcpyFromQueue | apply p9Op | apply protocolError
    | apply virtio9pFinish hc | apply bind | apply ite | apply pure)

end Request

variable (hI : Internal.Closed I)
include hI

theorem blockComplete (fuel : Nat) (ret : Int) (data : List (BitVec 8)) :
    Preserves I (Virtio.blockComplete fuel ret data) := by
  unfold Virtio.blockComplete virtioBlockReqCb
  with_reducible repeat' (first
    | intro _ | apply getExt | apply setExt | apply modifyExt | apply virtioBlockReqEnd hI.consume
    | apply queueNotify hI (virtioBlockRecvRequest hI.consume) | apply bind | apply ite | apply pure
    | apply fail)

theorem virtioNetRecvRequest (fuel : Nat) (q : Fin maxQueue) (d : BitVec 16) (r w : BitVec 32) :
    Preserves I (Virtio.virtioNetRecvRequest fuel q d r w) := by
  unfold Virtio.virtioNetRecvRequest
  with_reducible repeat' (first
    | intro _ | apply getExt | apply setExt | apply liftExcept | apply memcpyFromQueue
    | apply virtioConsumeDesc hI.consume | apply bind | apply ite | apply pure)

theorem virtioNetWritePacket (fuel : Nat) (buf : List (BitVec 8)) (bufLen : BitVec 32) :
    Preserves I (Virtio.virtioNetWritePacket fuel buf bufLen) := by
  unfold Virtio.virtioNetWritePacket
  with_reducible repeat' (first
    | intro _ | apply getQueue | apply getExt | apply nextAvailDesc | apply getDescRwSize
    | apply memcpyToQueue | apply virtioConsumeDesc hI.consume | apply incLastAvailIdx hI | apply bind
    | apply ite | apply pure | dsimp only | split)

theorem virtioNetSetCarrier (c : Bool) : Preserves I (Virtio.virtioNetSetCarrier c) :=
  bind getDev fun _ => ite (configChange hI _) (pure _)

theorem virtioConsoleRecvRequest (fuel : Nat) (q : Fin maxQueue) (d : BitVec 16)
    (r w : BitVec 32) : Preserves I (Virtio.virtioConsoleRecvRequest fuel q d r w) := by
  unfold Virtio.virtioConsoleRecvRequest
  with_reducible repeat' (first
    | intro _ | apply modifyExt | apply liftExcept | apply memcpyFromQueue
    | apply virtioConsumeDesc hI.consume | apply bind | apply ite | apply pure)

theorem consoleHost (c : ConsoleHost) (fuel : Nat) : Preserves I (consoleModel.host c fuel) := by
  cases c <;>
  simp only [consoleModel, virtioConsoleGetWriteLen, virtioConsoleWriteData,
    virtioConsoleResizeEvent] <;>
  with_reducible repeat' (first
    | intro _ | apply getQueue | apply nextAvailDesc | apply getDescRwSize | apply memcpyToQueue
    | apply virtioConsumeDesc hI.consume | apply incLastAvailIdx hI | apply configChange hI | apply bind
    | apply ite | apply pure | dsimp only | split)

theorem virtioEntropyRecvRequest (fuel : Nat) (q : Fin maxQueue) (d : BitVec 16)
    (r w : BitVec 32) : Preserves I (Virtio.virtioEntropyRecvRequest fuel q d r w) := by
  have hf : ∀ n o, Preserves I (virtioEntropyRecvRequest.fill q d w fuel n o) := by
    intro n
    induction n with
    | zero => exact fun _ => fail _
    | succ n ih =>
      intro o
      unfold virtioEntropyRecvRequest.fill
      with_reducible repeat' (first
        | intro _ | apply getExt | apply setExt | apply memcpyToQueue | apply ih | apply bind
        | apply ite | apply pure | apply fail)
  unfold Virtio.virtioEntropyRecvRequest
  with_reducible repeat' (first
    | intro _ | apply hf | apply virtioConsumeDesc hI.consume | apply bind | apply ite | apply pure)

theorem virtioInputRecvRequest (fuel : Nat) (q : Fin maxQueue) (d : BitVec 16) (r w : BitVec 32) :
    Preserves I (Virtio.virtioInputRecvRequest fuel q d r w) := by
  unfold Virtio.virtioInputRecvRequest
  with_reducible repeat' (first
    | intro _ | apply virtioConsumeDesc hI.consume | apply bind | apply ite | apply pure)

theorem virtioInputQueueEvent (fuel : Nat) (type code : BitVec 16) (value : BitVec 32) :
    Preserves I (Virtio.virtioInputQueueEvent fuel type code value) := by
  unfold Virtio.virtioInputQueueEvent
  with_reducible repeat' (first
    | intro _ | apply getQueue | apply nextAvailDesc | apply memcpyToQueue
    | apply virtioConsumeDesc hI.consume | apply incLastAvailIdx hI | apply bind | apply ite
    | apply pure)

theorem inputHost (type : VirtioInputType) (absScale : BitVec 32) (c : InputHost) (fuel : Nat) :
    Preserves I ((inputModel type absScale).host c fuel) := by
  have hl : ∀ b l codes i,
      Preserves I (virtioInputSendMouseEvent.loop fuel b l codes i) := by
    intro b l codes
    induction codes with
    | nil => exact fun _ => pure _
    | cons c cs ih =>
      intro i
      unfold virtioInputSendMouseEvent.loop
      with_reducible repeat' (first
        | intro _ | apply virtioInputQueueEvent hI | apply ih | apply bind | apply ite
        | apply pure)
  cases c <;> simp only [inputModel, virtioInputSendKeyEvent, virtioInputSendMouseEvent] <;>
  with_reducible repeat' (first
    | intro _ | apply getExt | apply modifyExt | apply virtioInputQueueEvent hI | apply hl
    | apply bind | apply ite | apply pure)

theorem virtio9pOpenCb (fuel : Nat) (qid : FsQid) (err : Int) :
    Preserves I (Virtio.virtio9pOpenCb fuel qid err) := by
  unfold Virtio.virtio9pOpenCb
  with_reducible repeat' (first
    | intro _ | apply getExt | apply modifyExt | apply virtio9pOpenReply | apply virtio9pFinish hI.consume
    | apply queueNotify hI (virtio9pRecvRequest hI.consume) | apply bind | apply ite | apply pure
    | apply fail | split)

end Preserves

theorem blockModel_sound (nbSectors : BitVec 64) (bs : BlockBackend) :
    (blockModel nbSectors bs).Sound :=
  ⟨fun _ hI => Preserves.virtioBlockRecvRequest hI.consume, fun _ hI c fuel => Preserves.blockComplete hI fuel c.1 c.2⟩

theorem netModel_sound (macAddr : List (BitVec 8)) : (netModel macAddr).Sound := by
  refine ⟨fun _ hI => Preserves.virtioNetRecvRequest hI, fun _ hI c fuel => ?_⟩
  cases c
  · exact Preserves.virtioNetWritePacket hI ..
  · exact Preserves.virtioNetSetCarrier hI _

theorem consoleModel_sound : consoleModel.Sound :=
  ⟨fun _ hI => Preserves.virtioConsoleRecvRequest hI, fun _ hI => Preserves.consoleHost hI⟩

theorem entropyModel_sound (getrandom : Nat → BitVec 32 → Int × List (BitVec 8)) :
    (entropyModel getrandom).Sound :=
  ⟨fun _ hI => Preserves.virtioEntropyRecvRequest hI, fun _ _ c => c.elim⟩

theorem inputModel_sound (type : VirtioInputType) (absScale : BitVec 32) :
    (inputModel type absScale).Sound :=
  ⟨fun _ hI => Preserves.virtioInputRecvRequest hI, fun _ hI => Preserves.inputHost hI type absScale⟩

theorem ninePModel_sound (dev : VirtioDevice) (fs : FsDevice) : (ninePModel dev fs).Sound :=
  ⟨fun _ hI => Preserves.virtio9pRecvRequest hI.consume, fun _ hI c fuel => Preserves.virtio9pOpenCb hI fuel c.1 c.2⟩

/-! The six devices start with the transport of `virtio_init`. -/

theorem transport_manualRecv (s : VirtioDevice) (q : Fin maxQueue) (b : Bool) :
    { s with queue := Function.update s.queue q { s.queue q with manualRecv := b } }.transport =
      s.transport := by
  simp only [VirtioDevice.transport, TransportRegs.mk.injEq, true_and, and_true]
  funext i
  by_cases h : i = q
  · subst h
    simp [QueueState.regs]
  · simp [Function.update_noteq h]

theorem virtio9pInit_transport {mountTag : CString} {dev : VirtioDevice}
    (h : virtio9pInit mountTag = .ok dev) : dev.transport = (virtioInit 0 0).transport := by
  unfold virtio9pInit at h
  dsimp only at h
  split at h <;> cases h
  rfl

theorem DeviceInit.transport {s : VirtioDevice} (h : DeviceInit s) :
    s.transport = (virtioInit 0 0).transport := by
  cases h with
  | block | entropy => rfl
  | net => exact transport_manualRecv (virtioInit 1 8) 0 true
  | console => exact transport_manualRecv (virtioInit 3 4) 0 true
  | input => exact transport_manualRecv (virtioInit 18 256) 0 true
  | ninep h => exact virtio9pInit_transport h

theorem ReachableDev.preserves {I : VirtioDevice → Prop} (hI : Invariant I)
    (ht : ∀ s s', s.transport = s'.transport → I s → I s') (h0 : I (virtioInit 0 0))
    {s : VirtioDevice} (h : ReachableDev s) : I s := by
  have hinit : ∀ {s}, DeviceInit s → I s := fun h => ht _ _ h.transport.symm h0
  cases h with
  | block h => exact h.preserves (blockModel_sound ..) hI (hinit (.block _))
  | net h => exact h.preserves (netModel_sound _) hI (hinit (.net _))
  | console h => exact h.preserves consoleModel_sound hI (hinit .console)
  | entropy h => exact h.preserves (entropyModel_sound _) hI (hinit .entropy)
  | input h => exact h.preserves (inputModel_sound ..) hI (hinit (.input _ _))
  | ninep hinit' h => exact h.preserves (ninePModel_sound ..) hI (hinit (.ninep hinit'))

end Virtio
