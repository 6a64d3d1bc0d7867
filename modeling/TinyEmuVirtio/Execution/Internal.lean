import TinyEmuVirtio.Objects.Devices.Block
import TinyEmuVirtio.Objects.Devices.Net
import TinyEmuVirtio.Objects.Devices.Console
import TinyEmuVirtio.Objects.Devices.Input
import TinyEmuVirtio.Objects.Devices.NineP

namespace Virtio

-- The changes a device makes to its own transport state while it serves its queues, apart from
-- its registers: a completion (`virtio_consume_desc`), a read of `avail.idx`, a step of
-- `last_avail_idx`, the worker's exchange of `pending_queue_notify`, and a change of the
-- configuration space announced by `virtio_config_change_notify`.
inductive Internal : VirtioDevice → VirtioDevice → Prop
  | consume (s : VirtioDevice) : Internal s (({ s with intStatus := s.intStatus ||| 1 }).setIrq true)
  | availIdx (s : VirtioDevice) (q : Fin maxQueue) (v : BitVec 16) :
    Internal s (s.updateQueue q ({ · with availIdx := v }))
  | lastAvailIdx (s : VirtioDevice) (q : Fin maxQueue) (v : BitVec 16) :
    Internal s (s.updateQueue q ({ · with lastAvailIdx := v }))
  | exchange (s : VirtioDevice) : Internal s { s with pendingQueueNotify := 0 }
  | configChange (s : VirtioDevice) (cs : ConfigSpace) :
    Internal s (virtioConfigChangeNotify { s with configSpace := cs })

namespace Internal

-- An invariant that every internal change keeps.
abbrev Closed (I : VirtioDevice → Prop) : Prop := ∀ s s', Internal s s' → I s → I s'

-- An invariant that a completion keeps: all a request's handler changes of the transport.
abbrev ConsumeClosed (I : VirtioDevice → Prop) : Prop :=
  ∀ s, I s → I (({ s with intStatus := s.intStatus ||| 1 }).setIrq true)

theorem Closed.consume {I : VirtioDevice → Prop} (hI : Closed I) : ConsumeClosed I :=
  fun s => hI _ _ (.consume s)

end Internal

/-! Reading descriptors and copying buffers touch guest memory only; reading it only logs. -/

namespace Keeps

variable {σ α β : Type} {P : Machine σ → Prop}

section
variable (hP : ReadFrame P)
include hP

theorem getDesc (q : Fin maxQueue) (d : BitVec 16) : Keeps P (Virtio.getDesc q d) :=
  bind (getQueue q) fun _ => bind (virtioMemcpyFromRam hP ..) fun _ => pure _

theorem getDescRwSize (fuel : Nat) (q : Fin maxQueue) (d : BitVec 16) :
    Keeps P (Virtio.getDescRwSize fuel q d) := by
  have hw : ∀ n desc w, Keeps P (getDescRwSize.writable q n desc w) := by
    intro n
    induction n with
    | zero => exact fun _ _ => fail _
    | succ n ih =>
      intro desc w
      unfold getDescRwSize.writable
      with_reducible repeat' (first
        | intro _ | apply getDesc hP | apply ih | apply bind | apply ite | apply pure)
  have hr : ∀ n desc r, Keeps P (getDescRwSize.readable q n desc r) := by
    intro n
    induction n with
    | zero => exact fun _ _ => fail _
    | succ n ih =>
      intro desc r
      unfold getDescRwSize.readable
      with_reducible repeat' (first
        | intro _ | apply getDesc hP | apply ih | apply hw | apply bind | apply ite | apply pure)
  exact bind (getDesc hP q d) fun _ => hr _ _ _

-- A copy writes guest memory only when it copies to the queue.
theorem memcpyToFromQueue {toQueue : Bool} (hw : toQueue = true → DmaFrame P) (fuel : Nat)
    (buf : List (BitVec 8)) (q : Fin maxQueue) (d : BitVec 16) (offset count : BitVec 32) :
    Keeps P (Virtio.memcpyToFromQueue fuel buf q d offset count toQueue) := by
  have hw' : ∀ n desc, Keeps P (memcpyToFromQueue.findWrite q n desc) := by
    intro n
    induction n with
    | zero => exact fun _ => fail _
    | succ n ih =>
      intro desc
      unfold memcpyToFromQueue.findWrite
      with_reducible repeat' (first
        | intro _ | apply getDesc hP | apply ih | apply bind | apply ite | apply pure)
  have ho : ∀ n desc o, Keeps P (memcpyToFromQueue.findOffset q toQueue n desc o) := by
    intro n
    induction n with
    | zero => exact fun _ _ => fail _
    | succ n ih =>
      intro desc o
      unfold memcpyToFromQueue.findOffset
      with_reducible repeat' (first
        | intro _ | apply getDesc hP | apply ih | apply bind | apply ite | apply pure)
  have hc : ∀ n desc o c b acc, Keeps P (memcpyToFromQueue.copy q toQueue toQueue n desc o c b acc) := by
    intro n
    induction n with
    | zero => exact fun _ _ _ _ _ => fail _
    | succ n ih =>
      intro desc o c b acc
      unfold memcpyToFromQueue.copy
      with_reducible repeat' (first
        | intro _ | apply getDesc hP | apply virtioMemcpyToRam (hw ‹_›)
        | apply virtioMemcpyFromRam hP | apply ih | apply bind | apply ite_of | apply pure
        | apply fail)
  unfold Virtio.memcpyToFromQueue
  with_reducible repeat' (first
    | intro _ | apply getDesc hP | apply hw' | apply ho | apply hc | apply bind | apply ite
    | apply pure | dsimp only | split)

theorem memcpyFromQueue (fuel : Nat) (q : Fin maxQueue) (d : BitVec 16) (offset count : BitVec 32) :
    Keeps P (Virtio.memcpyFromQueue fuel q d offset count) :=
  memcpyToFromQueue hP (nofun : false = true → _) ..

theorem nextAvailDesc (q : Fin maxQueue) : Keeps P (Virtio.nextAvailDesc q) :=
  bind (getQueue q) fun _ => virtioRead16 hP ..

end

variable (hP : DmaFrame P)
include hP

theorem memcpyToQueue (fuel : Nat) (q : Fin maxQueue) (d : BitVec 16) (offset : BitVec 32)
    (buf : List (BitVec 8)) (count : BitVec 32) :
    Keeps P (Virtio.memcpyToQueue fuel q d offset buf count) :=
  bind (memcpyToFromQueue hP.toReadFrame (fun _ => hP) ..) fun _ => pure _

/-! `queue_notify` and the worker's pass change the device by internal changes only. -/

variable (hd : ∀ m s, Internal m.dev s → P m → P { m with dev := s })
include hd

variable {recv : DeviceRecv σ} (hr : ∀ fuel q d r w, Keeps P (recv fuel q d r w))
include hr

theorem queueNotify (fuel : Nat) (q : Fin maxQueue) : Keeps P (Virtio.queueNotify recv fuel q) := by
  have hl : ∀ a n, Keeps P (queueNotify.loop recv fuel q a n) := by
    intro a n
    induction n with
    | zero => exact fail _
    | succ n ih =>
      unfold queueNotify.loop
      with_reducible repeat' (first
        | intro _ | apply getQueue | apply virtioRead16 hP.toReadFrame
        | apply getDescRwSize hP.toReadFrame | apply hr
        | apply ih | exact modifyDev fun m => hd m _ (.lastAvailIdx m.dev q _) | apply bind
        | apply ite | apply pure | dsimp only | split)
  unfold Virtio.queueNotify
  with_reducible repeat' (first
    | intro _ | apply getQueue | apply virtioRead16 hP.toReadFrame | apply hl
    | exact modifyDev fun m => hd m _ (.availIdx m.dev q _) | apply bind | apply ite | apply pure)

theorem pendingNotifyDrain (fuel : Nat) : Keeps P (Virtio.pendingNotifyDrain recv fuel) := by
  have hb : ∀ js v, Keeps P (notifyBits recv fuel js v) := by
    intro js
    induction js with
    | nil => exact fun _ => pure _
    | cons j js ih =>
      intro v
      unfold notifyBits
      with_reducible repeat' (first
        | intro _ | apply queueNotify hP hd hr | apply ih | apply bind | apply ite | apply dite
        | apply pure | apply fail)
  exact bind (bind getDev fun _ => bind (modifyDev fun m => hd m _ (.exchange m.dev)) fun _ => pure _)
    fun _ => hb _ _

end Keeps

namespace Preserves

variable {σ α β : Type} {I : VirtioDevice → Prop}

theorem dite {c : Prop} [Decidable c] {t : c → VirtioM σ α} {e : ¬c → VirtioM σ α}
    (ht : ∀ h, Preserves I (t h)) (he : ∀ h, Preserves I (e h)) :
    Preserves I (if h : c then t h else e h) :=
  Keeps.dite ht he

theorem getDesc (q : Fin maxQueue) (d : BitVec 16) : Preserves (σ := σ) I (Virtio.getDesc q d) :=
  Keeps.getDesc (.dev I) q d

theorem getDescRwSize (fuel : Nat) (q : Fin maxQueue) (d : BitVec 16) :
    Preserves (σ := σ) I (Virtio.getDescRwSize fuel q d) :=
  Keeps.getDescRwSize (.dev I) fuel q d

theorem memcpyFromQueue (fuel : Nat) (q : Fin maxQueue) (d : BitVec 16) (offset count : BitVec 32) :
    Preserves (σ := σ) I (Virtio.memcpyFromQueue fuel q d offset count) :=
  Keeps.memcpyFromQueue (.dev I) ..

theorem memcpyToQueue (fuel : Nat) (q : Fin maxQueue) (d : BitVec 16) (offset : BitVec 32)
    (buf : List (BitVec 8)) (count : BitVec 32) :
    Preserves (σ := σ) I (Virtio.memcpyToQueue fuel q d offset buf count) :=
  Keeps.memcpyToQueue (.dev I) ..

theorem nextAvailDesc (q : Fin maxQueue) : Preserves (σ := σ) I (Virtio.nextAvailDesc q) :=
  Keeps.nextAvailDesc (.dev I) q

/-! What changes the device's state is an internal change. -/

theorem virtioConsumeDesc (hc : Internal.ConsumeClosed I) (q : Fin maxQueue) (d : BitVec 16)
    (len : BitVec 32) : Preserves (σ := σ) I (Virtio.virtioConsumeDesc q d len) := by
  unfold Virtio.virtioConsumeDesc
  with_reducible repeat' (first
    | intro _ | apply getQueue | apply virtioRead16 | apply virtioWrite32 | apply virtioWrite16
    | apply logAccess | exact modifyDev hc | apply bind)

section
variable (hI : Internal.Closed I)
include hI

theorem incLastAvailIdx (q : Fin maxQueue) : Preserves (σ := σ) I (Virtio.incLastAvailIdx q) :=
  bind (getQueue q) fun _ => modifyDev fun s => hI _ _ (.lastAvailIdx s q _)

theorem configChange (f : VirtioDevice → ConfigSpace) :
    Preserves (σ := σ) I
      (Virtio.modifyDev fun s => virtioConfigChangeNotify { s with configSpace := f s }) :=
  modifyDev fun s => hI _ _ (.configChange s _)

variable {recv : DeviceRecv σ} (hr : ∀ fuel q d r w, Preserves I (recv fuel q d r w))
include hr

theorem queueNotify (fuel : Nat) (q : Fin maxQueue) :
    Preserves I (Virtio.queueNotify recv fuel q) :=
  Keeps.queueNotify (.dev I) (fun _ _ h => hI _ _ h) hr fuel q

theorem pendingNotifyDrain (fuel : Nat) : Preserves I (Virtio.pendingNotifyDrain recv fuel) :=
  Keeps.pendingNotifyDrain (.dev I) (fun _ _ h => hI _ _ h) hr fuel

end

end Preserves

end Virtio
