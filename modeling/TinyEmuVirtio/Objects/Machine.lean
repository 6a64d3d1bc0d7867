import TinyEmuVirtio.Objects.Transport

namespace Virtio

-- Guest physical memory, as `virtio_dma_read` and `virtio_dma_write` reach it.
abbrev Ram := BitVec 64 → BitVec 8

def readRam (ram : Ram) (addr : BitVec 64) (n : Nat) : List (BitVec 8) :=
  (List.range n).map fun i => ram (addr + BitVec.ofNat 64 i)

def writeRam (ram : Ram) (addr : BitVec 64) (bs : List (BitVec 8)) : Ram :=
  fun a => bs.getD (a - addr).toNat (ram a)

-- The part of a queue's guest memory a DMA access is for.
inductive Region where
  | desc | avail | used | buffer
  deriving DecidableEq, Repr

-- What a device does to guest memory, and each call of `virtio_consume_desc`. The queue and the
-- region are not arguments of the source's DMA functions: they record the call site. A `take` is
-- no call of the source: it marks where the block and 9P devices accept the request at `head`,
-- which they then answer.
inductive Access where
  | read (q : Fin maxQueue) (r : Region) (addr : BitVec 64) (n : Nat)
  | write (q : Fin maxQueue) (r : Region) (addr : BitVec 64) (bs : List (BitVec 8))
  | consume (q : Fin maxQueue) (head : BitVec 16) (len : BitVec 32)
  | take (q : Fin maxQueue) (head : BitVec 16)
  deriving DecidableEq, Repr

-- A device with its guest memory, the accesses made so far (newest first), and the state of its
-- backend (`σ`: the fields of `VIRTIOBlockDevice` and its siblings after `common`).
structure Machine (σ : Type) where
  dev : VirtioDevice
  ram : Ram
  trace : List Access
  ext : σ

abbrev VirtioM (σ α : Type) := StateT (Machine σ) (Except Fault) α

variable {σ α β : Type}

def fail (e : Fault) : VirtioM σ α := fun _ => .error e

def getDev : VirtioM σ VirtioDevice := fun m => .ok (m.dev, m)

def modifyDev (f : VirtioDevice → VirtioDevice) : VirtioM σ Unit :=
  fun m => .ok ((), { m with dev := f m.dev })

def getQueue (q : Fin maxQueue) : VirtioM σ QueueState := fun m => .ok (m.dev.queue q, m)

def getExt : VirtioM σ σ := fun m => .ok (m.ext, m)

def setExt (e : σ) : VirtioM σ Unit := fun m => .ok ((), { m with ext := e })

def modifyExt (f : σ → σ) : VirtioM σ Unit := fun m => .ok ((), { m with ext := f m.ext })

-- A computation of the source that cannot touch the device or guest memory, such as an index
-- into a buffer of its own.
def liftExcept (x : Except Fault α) : VirtioM σ α := fun m => x.map (·, m)

-- The size test of `malloc(n)` for an `int` size. A negative size converts to a huge `size_t`,
-- `malloc` fails and the request then writes through a null pointer.
def mallocSize (n : BitVec 32) : Except Fault Nat :=
  if n.toInt < 0 then .error .undefined else .ok n.toNat

-- `malloc(n)`. The contents of a fresh buffer are indeterminate: its byte `i` is `junk i`, for the
-- `junk` the caller's environment gives.
def malloc (junk : Nat → BitVec 8) (n : BitVec 32) : Except Fault (List (BitVec 8)) :=
  return (List.range (← mallocSize n)).map junk

-- `calloc(n, 1)`, and `malloc(n)` followed by `memset(buf, 0, n)`.
def calloc (n : BitVec 32) : Except Fault (List (BitVec 8)) :=
  return List.replicate (← mallocSize n) 0

-- `buf[i] = v` for an `int` index, undefined outside the buffer.
def setByte (buf : List (BitVec 8)) (i : BitVec 32) (v : BitVec 8) : Except Fault (List (BitVec 8)) :=
  if 0 ≤ i.toInt ∧ i.toInt < buf.length then .ok (buf.set i.toNat v) else .error .undefined

-- `data` stored at the start of `buf`, as a copy into a buffer does.
def fillBuf (buf data : List (BitVec 8)) : List (BitVec 8) :=
  (data ++ buf.drop data.length).take buf.length

-- The bytes of a C string literal.
def cBytes (str : String) : List (BitVec 8) :=
  str.toUTF8.toList.map fun b => BitVec.ofNat 8 b.toNat

def logAccess (a : Access) : VirtioM σ Unit := fun m => .ok ((), { m with trace := a :: m.trace })

theorem getExt_bind_run (f : σ → VirtioM σ α) (m : Machine σ) :
    (getExt >>= f).run m = (f m.ext).run m :=
  rfl

def virtioMemcpyFromRam (q : Fin maxQueue) (r : Region) (addr : BitVec 64) (count : Nat) :
    VirtioM σ (List (BitVec 8)) := do
  logAccess (.read q r addr count)
  return readRam (← fun m => .ok (m.ram, m)) addr count

def virtioMemcpyToRam (q : Fin maxQueue) (r : Region) (addr : BitVec 64) (bs : List (BitVec 8)) :
    VirtioM σ Unit := do
  logAccess (.write q r addr bs)
  fun m => .ok ((), { m with ram := writeRam m.ram addr bs })

def virtioRead16 (q : Fin maxQueue) (r : Region) (addr : BitVec 64) : VirtioM σ (BitVec 16) :=
  return BitVec.ofNat 16 (fromLe (← virtioMemcpyFromRam q r addr 2))

def virtioWrite16 (q : Fin maxQueue) (r : Region) (addr : BitVec 64) (val : BitVec 16) :
    VirtioM σ Unit :=
  virtioMemcpyToRam q r addr (toLe val.toNat 2)

def virtioWrite32 (q : Fin maxQueue) (r : Region) (addr : BitVec 64) (val : BitVec 32) :
    VirtioM σ Unit :=
  virtioMemcpyToRam q r addr (toLe val.toNat 4)

-- From a machine where `P` holds, a successful run of `x` ends in one where `Q` of its result
-- holds.
structure Triple (P : Machine σ → Prop) (x : VirtioM σ α) (Q : α → Machine σ → Prop) : Prop where
  run : ∀ m a m', x.run m = .ok (a, m') → P m → Q a m'

-- `x` keeps the property `P` of the machine.
def Keeps (P : Machine σ → Prop) (x : VirtioM σ α) : Prop := Triple P x fun _ => P

-- `x` keeps every invariant `I` of the device: the rules below take it through the source's
-- sequencing and branching, so an invariant is proved once per primitive.
def Preserves (I : VirtioDevice → Prop) (x : VirtioM σ α) : Prop := Keeps (fun m => I m.dev) x

namespace Triple

variable {P P' : Machine σ → Prop} {Q Q' : α → Machine σ → Prop} {R : β → Machine σ → Prop}

theorem mono {x : VirtioM σ α} (h : Triple P x Q) (hp : ∀ m, P' m → P m)
    (hq : ∀ a m, Q a m → Q' a m) : Triple P' x Q' :=
  ⟨fun m a m' hx hm => hq a m' (h.run m a m' hx (hp m hm))⟩

theorem pure {a : α} (h : ∀ m, P m → Q a m) : Triple P (Pure.pure a) Q :=
  ⟨fun m _ _ hx hm => by cases hx; exact h m hm⟩

theorem bind {x : VirtioM σ α} {f : α → VirtioM σ β} (hx : Triple P x Q)
    (hf : ∀ a, Triple (Q a) (f a) R) : Triple P (x >>= f) R := by
  refine ⟨fun m b m' h hm => ?_⟩
  simp only [StateT.run_bind] at h
  rcases hx' : x.run m with e | ⟨a, m₁⟩ <;> simp only [hx'] at h
  · cases h
  · exact (hf a).run m₁ b m' h (hx.run m a m₁ hx' hm)

theorem ite {c : Prop} [Decidable c] {t e : VirtioM σ α} (ht : c → Triple P t Q)
    (he : ¬c → Triple P e Q) : Triple P (if c then t else e) Q := by
  split
  · exact ht ‹_›
  · exact he ‹_›

theorem dite {c : Prop} [Decidable c] {t : c → VirtioM σ α} {e : ¬c → VirtioM σ α}
    (ht : ∀ h, Triple P (t h) Q) (he : ∀ h, Triple P (e h) Q) :
    Triple P (if h : c then t h else e h) Q := by
  split
  · exact ht ‹_›
  · exact he ‹_›

theorem fail (e : Fault) : Triple P (Virtio.fail e : VirtioM σ α) Q := ⟨fun _ _ _ h => by cases h⟩

theorem getDev : Triple P Virtio.getDev fun s m => P m ∧ s = m.dev :=
  ⟨fun _ _ _ h hm => by cases h; exact ⟨hm, rfl⟩⟩

theorem getQueue (q : Fin maxQueue) :
    Triple P (Virtio.getQueue q) fun qs m => P m ∧ qs = m.dev.queue q :=
  ⟨fun _ _ _ h hm => by cases h; exact ⟨hm, rfl⟩⟩

theorem getExt : Triple P Virtio.getExt fun e m => P m ∧ e = m.ext :=
  ⟨fun _ _ _ h hm => by cases h; exact ⟨hm, rfl⟩⟩

theorem setExt (e : σ) : Triple (fun m => P { m with ext := e }) (Virtio.setExt e) fun _ => P :=
  ⟨fun _ _ _ h hm => by cases h; exact hm⟩

theorem modifyExt (f : σ → σ) :
    Triple (fun m => P { m with ext := f m.ext }) (Virtio.modifyExt f) fun _ => P :=
  ⟨fun _ _ _ h hm => by cases h; exact hm⟩

theorem modifyDev (f : VirtioDevice → VirtioDevice) :
    Triple (fun m => P { m with dev := f m.dev }) (Virtio.modifyDev f) fun _ => P :=
  ⟨fun _ _ _ h hm => by cases h; exact hm⟩

theorem logAccess (a : Access) :
    Triple (fun m => P { m with trace := a :: m.trace }) (Virtio.logAccess a) fun _ => P :=
  ⟨fun _ _ _ h hm => by cases h; exact hm⟩

theorem liftExcept (x : Except Fault α) :
    Triple P (Virtio.liftExcept x) fun a m => P m ∧ x = .ok a := by
  refine ⟨fun m a m' h hm => ?_⟩
  cases x <;> cases h
  exact ⟨hm, rfl⟩

-- Reading the backend's state: what follows may use that it is the current one.
theorem getExt_bind {f : σ → VirtioM σ α} (h : ∀ e, Triple (fun m => P m ∧ e = m.ext) (f e) Q) :
    Triple P (Virtio.getExt >>= f) Q :=
  bind getExt h

-- A first step that keeps the precondition.
theorem bindK {x : VirtioM σ β} {f : β → VirtioM σ α} (hx : Keeps P x)
    (hf : ∀ b, Triple P (f b) Q) : Triple P (x >>= f) Q :=
  bind hx hf

theorem fail_bind (e : Fault) (f : β → VirtioM σ α) : Triple P (Virtio.fail e >>= f) Q :=
  bind (Q := fun _ _ => False) (fail e) fun _ => ⟨fun _ _ _ _ h => h.elim⟩

end Triple

namespace Keeps

variable {P : Machine σ → Prop}

theorem pure (a : α) : Keeps P (Pure.pure a : VirtioM σ α) := Triple.pure fun _ h => h

theorem bind {x : VirtioM σ β} {f : β → VirtioM σ α} (hx : Keeps P x) (hf : ∀ b, Keeps P (f b)) :
    Keeps P (x >>= f) :=
  Triple.bind hx hf

theorem ite {c : Prop} [Decidable c] {t e : VirtioM σ α} (ht : Keeps P t) (he : Keeps P e) :
    Keeps P (if c then t else e) :=
  Triple.ite (fun _ => ht) (fun _ => he)

theorem dite {c : Prop} [Decidable c] {t : c → VirtioM σ α} {e : ¬c → VirtioM σ α}
    (ht : ∀ h, Keeps P (t h)) (he : ∀ h, Keeps P (e h)) : Keeps P (if h : c then t h else e h) :=
  Triple.dite ht he

-- Branches that need their condition.
theorem ite_of {c : Prop} [Decidable c] {t e : VirtioM σ α} (ht : c → Keeps P t)
    (he : ¬c → Keeps P e) : Keeps P (if c then t else e) :=
  Triple.ite ht he

theorem fail (e : Fault) : Keeps P (Virtio.fail e : VirtioM σ α) := Triple.fail e

theorem getDev : Keeps P Virtio.getDev := Triple.getDev.mono (fun _ h => h) fun _ _ h => h.1

theorem getQueue (q : Fin maxQueue) : Keeps P (Virtio.getQueue q) :=
  (Triple.getQueue q).mono (fun _ h => h) fun _ _ h => h.1

theorem getExt : Keeps P Virtio.getExt := Triple.getExt.mono (fun _ h => h) fun _ _ h => h.1

theorem setExt {e : σ} (h : ∀ m, P m → P { m with ext := e }) : Keeps P (Virtio.setExt e) :=
  (Triple.setExt e).mono h fun _ _ h => h

theorem modifyExt {f : σ → σ} (h : ∀ m, P m → P { m with ext := f m.ext }) :
    Keeps P (Virtio.modifyExt f) :=
  (Triple.modifyExt f).mono h fun _ _ h => h

theorem modifyDev {f : VirtioDevice → VirtioDevice} (h : ∀ m, P m → P { m with dev := f m.dev }) :
    Keeps P (Virtio.modifyDev f) :=
  (Triple.modifyDev f).mono h fun _ _ h => h

theorem logAccess {a : Access} (h : ∀ m, P m → P { m with trace := a :: m.trace }) :
    Keeps P (Virtio.logAccess a) :=
  (Triple.logAccess a).mono h fun _ _ h => h

theorem liftExcept (x : Except Fault α) : Keeps P (Virtio.liftExcept x) :=
  (Triple.liftExcept x).mono (fun _ h => h) fun _ _ h => h.1

end Keeps

-- A property of the machine that a logged read of guest memory keeps.
structure ReadFrame (P : Machine σ → Prop) : Prop where
  read : ∀ m q r addr n, P m → P { m with trace := .read q r addr n :: m.trace }

-- A property of the machine that neither guest memory nor the log of DMA accesses decides.
structure DmaFrame (P : Machine σ → Prop) extends ReadFrame P : Prop where
  ram : ∀ m r, P m → P { m with ram := r }
  write : ∀ m q r addr bs, P m → P { m with trace := .write q r addr bs :: m.trace }

theorem ReadFrame.dev (I : VirtioDevice → Prop) : ReadFrame (σ := σ) fun m => I m.dev :=
  ⟨fun _ _ _ _ _ h => h⟩

theorem DmaFrame.dev (I : VirtioDevice → Prop) : DmaFrame (σ := σ) fun m => I m.dev :=
  ⟨.dev I, fun _ _ h => h, fun _ _ _ _ _ h => h⟩

namespace Keeps

variable {P : Machine σ → Prop}

theorem virtioMemcpyFromRam (hP : ReadFrame P) (q : Fin maxQueue) (r : Region) (addr : BitVec 64)
    (n : Nat) : Keeps P (Virtio.virtioMemcpyFromRam q r addr n) :=
  bind (logAccess (hP.read · _ _ _ _)) fun _ => bind ⟨fun _ _ _ h hm => by cases h; exact hm⟩
    fun _ => pure _

theorem virtioRead16 (hP : ReadFrame P) (q : Fin maxQueue) (r : Region) (addr : BitVec 64) :
    Keeps P (Virtio.virtioRead16 q r addr) :=
  bind (virtioMemcpyFromRam hP ..) fun _ => pure _

variable (hP : DmaFrame P)
include hP

theorem virtioMemcpyToRam (q : Fin maxQueue) (r : Region) (addr : BitVec 64)
    (bs : List (BitVec 8)) : Keeps P (Virtio.virtioMemcpyToRam q r addr bs) :=
  bind (logAccess (hP.write · _ _ _ _)) fun _ => ⟨fun _ _ _ h hm => by cases h; exact hP.ram _ _ hm⟩

theorem virtioWrite16 (q : Fin maxQueue) (r : Region) (addr : BitVec 64) (v : BitVec 16) :
    Keeps P (Virtio.virtioWrite16 q r addr v) :=
  virtioMemcpyToRam hP q r addr _

theorem virtioWrite32 (q : Fin maxQueue) (r : Region) (addr : BitVec 64) (v : BitVec 32) :
    Keeps P (Virtio.virtioWrite32 q r addr v) :=
  virtioMemcpyToRam hP q r addr _

end Keeps

namespace Preserves

variable {I : VirtioDevice → Prop}

theorem pure (a : α) : Preserves (σ := σ) I (Pure.pure a) := Keeps.pure a

theorem bind {x : VirtioM σ β} {f : β → VirtioM σ α} (hx : Preserves I x)
    (hf : ∀ b, Preserves I (f b)) : Preserves I (x >>= f) :=
  Keeps.bind hx hf

theorem ite {c : Prop} [Decidable c] {t e : VirtioM σ α} (ht : Preserves I t)
    (he : Preserves I e) : Preserves I (if c then t else e) :=
  Keeps.ite ht he

theorem fail (e : Fault) : Preserves (σ := σ) (α := α) I (Virtio.fail e) := Keeps.fail e

theorem getDev : Preserves (σ := σ) I Virtio.getDev := Keeps.getDev

theorem getQueue (q : Fin maxQueue) : Preserves (σ := σ) I (Virtio.getQueue q) := Keeps.getQueue q

theorem getExt : Preserves (σ := σ) I Virtio.getExt := Keeps.getExt

theorem setExt (e : σ) : Preserves I (Virtio.setExt e) := Keeps.setExt fun _ h => h

theorem modifyExt (f : σ → σ) : Preserves I (Virtio.modifyExt f) := Keeps.modifyExt fun _ h => h

theorem liftExcept (x : Except Fault α) : Preserves (σ := σ) I (Virtio.liftExcept x) :=
  Keeps.liftExcept x

theorem logAccess (a : Access) : Preserves (σ := σ) I (Virtio.logAccess a) :=
  Keeps.logAccess fun _ h => h

theorem modifyDev {f : VirtioDevice → VirtioDevice} (hf : ∀ s, I s → I (f s)) :
    Preserves (σ := σ) I (Virtio.modifyDev f) :=
  Keeps.modifyDev fun _ h => hf _ h

theorem virtioMemcpyFromRam (q : Fin maxQueue) (r : Region) (addr : BitVec 64) (n : Nat) :
    Preserves (σ := σ) I (Virtio.virtioMemcpyFromRam q r addr n) :=
  Keeps.virtioMemcpyFromRam (.dev I) ..

theorem virtioMemcpyToRam (q : Fin maxQueue) (r : Region) (addr : BitVec 64)
    (bs : List (BitVec 8)) : Preserves (σ := σ) I (Virtio.virtioMemcpyToRam q r addr bs) :=
  Keeps.virtioMemcpyToRam (.dev I) ..

theorem virtioRead16 (q : Fin maxQueue) (r : Region) (addr : BitVec 64) :
    Preserves (σ := σ) I (Virtio.virtioRead16 q r addr) :=
  Keeps.virtioRead16 (.dev I) ..

theorem virtioWrite16 (q : Fin maxQueue) (r : Region) (addr : BitVec 64) (v : BitVec 16) :
    Preserves (σ := σ) I (Virtio.virtioWrite16 q r addr v) :=
  Keeps.virtioWrite16 (.dev I) ..

theorem virtioWrite32 (q : Fin maxQueue) (r : Region) (addr : BitVec 64) (v : BitVec 32) :
    Preserves (σ := σ) I (Virtio.virtioWrite32 q r addr v) :=
  Keeps.virtioWrite32 (.dev I) ..

end Preserves

end Virtio
