import TinyEmuVirtio.Execution.Internal
import TinyEmuVirtio.Execution.Registers

namespace Virtio

-- A device of the source: its state after its `*_init` function with its backend's, its receive
-- function, and the calls the host side makes on it (the backend's completions and the data it
-- injects).
structure DeviceModel (σ : Type) where
  dev : VirtioDevice
  ext : σ
  recv : DeviceRecv σ
  Host : Type
  host : Host → Nat → VirtioM σ Unit

namespace DeviceModel

variable {σ : Type} (D : DeviceModel σ)

-- The device changes its own transport state only by internal changes.
structure Sound : Prop where
  recv : ∀ I, Internal.Closed I → ∀ fuel q d r w, Preserves I (D.recv fuel q d r w)
  host : ∀ I, Internal.Closed I → ∀ h fuel, Preserves I (D.host h fuel)

end DeviceModel

variable {σ : Type} {D : DeviceModel σ}

-- One step of the sequential model: a register access of either transport (the reads of the MMIO
-- transport change nothing), a drain by the worker, a call from the host side, or a write of the
-- guest to its memory. A call that faults or runs out of fuel is no step.
inductive Step (D : DeviceModel σ) : Machine σ → Machine σ → Prop
  | mmioWrite {m : Machine σ} {s : VirtioDevice} (offset val : BitVec 32) (sizeLog2 : Nat) :
    virtioMmioWrite m.dev offset val sizeLog2 = .ok s → Step D m { m with dev := s }
  | pciWrite {m : Machine σ} {s : VirtioDevice} (offset val : BitVec 32) (sizeLog2 : Nat) :
    virtioPciWrite m.dev offset val sizeLog2 = .ok s → Step D m { m with dev := s }
  | pciRead {m : Machine σ} {s : VirtioDevice} {v : BitVec 32} (offset : BitVec 32)
    (sizeLog2 : Nat) : virtioPciRead m.dev offset sizeLog2 = .ok (v, s) → Step D m { m with dev := s }
  | drain {m m' : Machine σ} (fuel : Nat) :
    (pendingNotifyDrain D.recv fuel).run m = .ok ((), m') → Step D m m'
  | host {m m' : Machine σ} (h : D.Host) (fuel : Nat) :
    (D.host h fuel).run m = .ok ((), m') → Step D m m'
  | guest (m : Machine σ) (addr : BitVec 64) (bs : List (BitVec 8)) :
    Step D m { m with ram := writeRam m.ram addr bs }

-- The machines a run from the device's initial state reaches, for any initial guest memory.
inductive Reachable (D : DeviceModel σ) : Machine σ → Prop
  | init (ram : Ram) : Reachable D ⟨D.dev, ram, [], D.ext⟩
  | step {m m' : Machine σ} : Reachable D m → Step D m m' → Reachable D m'

/-! The steps as a function, so that a run of the model can be evaluated on a given input. -/

-- The label of a step: the access, the call or the guest's write it makes.
inductive Op (Host : Type) where
  | mmioWrite (offset val : BitVec 32) (sizeLog2 : Nat)
  | pciWrite (offset val : BitVec 32) (sizeLog2 : Nat)
  | pciRead (offset : BitVec 32) (sizeLog2 : Nat)
  | drain (fuel : Nat)
  | host (h : Host) (fuel : Nat)
  | guest (addr : BitVec 64) (bs : List (BitVec 8))

namespace DeviceModel

variable (D : DeviceModel σ)

def exec (m : Machine σ) : Op D.Host → Except Fault (Machine σ)
  | .mmioWrite offset val n => (virtioMmioWrite m.dev offset val n).map ({ m with dev := · })
  | .pciWrite offset val n => (virtioPciWrite m.dev offset val n).map ({ m with dev := · })
  | .pciRead offset n => (virtioPciRead m.dev offset n).map ({ m with dev := ·.2 })
  | .drain fuel => ((pendingNotifyDrain D.recv fuel).run m).map Prod.snd
  | .host h fuel => ((D.host h fuel).run m).map Prod.snd
  | .guest addr bs => .ok { m with ram := writeRam m.ram addr bs }

end DeviceModel

theorem map_eq_ok {α β : Type} {f : α → β} {x : Except Fault α} {b : β} (h : x.map f = .ok b) :
    ∃ a, x = .ok a ∧ f a = b := by
  cases x with
  | error => cases h
  | ok a => cases h; exact ⟨a, rfl, rfl⟩

-- The step relation is the function `exec`: a run of the model is a run of the code.
theorem step_iff_exec {m m' : Machine σ} : Step D m m' ↔ ∃ op, D.exec m op = .ok m' := by
  constructor
  · intro h
    cases h with
    | mmioWrite o v n h => exact ⟨.mmioWrite o v n, by simp only [DeviceModel.exec, h]; rfl⟩
    | pciWrite o v n h => exact ⟨.pciWrite o v n, by simp only [DeviceModel.exec, h]; rfl⟩
    | pciRead o n h => exact ⟨.pciRead o n, by simp only [DeviceModel.exec, h]; rfl⟩
    | drain fuel h => exact ⟨.drain fuel, by simp only [DeviceModel.exec, h]; rfl⟩
    | host c fuel h => exact ⟨.host c fuel, by simp only [DeviceModel.exec, h]; rfl⟩
    | guest => exact ⟨.guest _ _, rfl⟩
  · rintro ⟨op, h⟩
    cases op with
    | mmioWrite o v n => obtain ⟨s, hs, rfl⟩ := map_eq_ok h; exact .mmioWrite o v n hs
    | pciWrite o v n => obtain ⟨s, hs, rfl⟩ := map_eq_ok h; exact .pciWrite o v n hs
    | pciRead o n => obtain ⟨⟨_, s⟩, hs, rfl⟩ := map_eq_ok h; exact .pciRead o n hs
    | drain fuel => obtain ⟨⟨_, m'⟩, hs, rfl⟩ := map_eq_ok h; exact .drain fuel hs
    | host c fuel => obtain ⟨⟨_, m'⟩, hs, rfl⟩ := map_eq_ok h; exact .host c fuel hs
    | guest a bs => cases h; exact .guest _ _ _

-- A property of the device's state that its registers' handlers and every internal change keep.
structure Invariant (I : VirtioDevice → Prop) : Prop where
  internal : Internal.Closed I
  regWrite : ∀ s s', RegWrite s s' → I s → I s'

theorem Step.preserves {I : VirtioDevice → Prop} {m m' : Machine σ} (hD : D.Sound)
    (hI : Invariant I) (h : Step D m m') (hm : I m.dev) : I m'.dev := by
  cases h with
  | mmioWrite _ _ _ h => exact hI.regWrite _ _ (virtioMmioWrite_regWrite h) hm
  | pciWrite _ _ _ h => exact hI.regWrite _ _ (virtioPciWrite_regWrite h) hm
  | pciRead _ _ h => exact hI.regWrite _ _ (virtioPciRead_regWrite h) hm
  | drain fuel h =>
    exact (Preserves.pendingNotifyDrain hI.internal (hD.recv I hI.internal) fuel).run _ _ _ h hm
  | host c fuel h => exact (hD.host I hI.internal c fuel).run _ _ _ h hm
  | guest => exact hm

theorem Reachable.preserves {I : VirtioDevice → Prop} {m : Machine σ} (hD : D.Sound)
    (hI : Invariant I) (h0 : I D.dev) (h : Reachable D m) : I m.dev := by
  induction h with
  | init => exact h0
  | step _ hs ih => exact hs.preserves hD hI ih

end Virtio
