import TinyEmuVirtio.Objects.Dispatcher
import TinyEmuVirtio.Execution.Step

namespace Virtio

/-! The dispatcher with the devices behind it: the bus read by address, what one request can
change, and the runs of the FPGA side, where the dispatcher's requests interleave with the
devices' own steps and with the pushes of the stdin pump. -/

variable {β : Type}

namespace PhysMemoryRange

theorem Apart.not_contains {p q : PhysMemoryRange β} {a : BitVec 64} (h : p.Apart q)
    (hp : p.Contains a) (hq : q.Contains a) : False := by
  simp only [Apart, Contains, BitVec.le_def, BitVec.lt_def] at h hp hq
  omega

end PhysMemoryRange

namespace GuestMemoryBus

theorem find?_contains {rs : List (PhysMemoryRange β)} (hrs : rs.Pairwise PhysMemoryRange.Apart)
    {pr : PhysMemoryRange β} {a : BitVec 64} (hpr : pr ∈ rs) (ha : pr.Contains a) :
    rs.find? (fun p => decide (p.Contains a)) = some pr := by
  induction rs with
  | nil => cases hpr
  | cons p rs ih =>
    rw [List.pairwise_cons] at hrs
    by_cases hp : p.Contains a
    · rw [List.find?_cons, decide_eq_true hp]
      rcases List.mem_cons.1 hpr with rfl | hpr
      · rfl
      · exact ((hrs.1 pr hpr).not_contains hp ha).elim
    · rw [List.find?_cons, decide_eq_false hp]
      exact ih hrs.2 ((List.mem_cons.1 hpr).resolve_left (by rintro rfl; exact hp ha))

-- The ranges do not overlap, so the range found is the one that holds the address, wherever it
-- stands in the list.
theorem getPhysMemRange_eq_some_iff (bus : GuestMemoryBus β) {a : BitVec 64}
    {pr : PhysMemoryRange β} :
    bus.getPhysMemRange a = some pr ↔ pr ∈ bus.ranges ∧ pr.Contains a :=
  ⟨fun h => ⟨List.mem_of_find?_eq_some h, of_decide_eq_true (List.find?_some h :)⟩,
    fun h => find?_contains bus.apart h.1 h.2⟩

theorem getPhysMemRange_eq_none_iff (bus : GuestMemoryBus β) {a : BitVec 64} :
    bus.getPhysMemRange a = none ↔ ∀ pr ∈ bus.ranges, ¬pr.Contains a := by
  simp [getPhysMemRange, List.find?_eq_none]

end GuestMemoryBus

namespace Fpga

variable {f : Fpga β}

/-! What each branch changes. -/

@[simp] theorem htifTohost_devices (wdata : BitVec 64) :
    (f.htifTohost wdata).devices = f.devices := by
  unfold htifTohost; dsimp only; split_ifs <;> rfl
@[simp] theorem htifTohost_stdinQueue (wdata : BitVec 64) :
    (f.htifTohost wdata).stdinQueue = f.stdinQueue := by
  unfold htifTohost; dsimp only; split_ifs <;> rfl
@[simp] theorem sifiveTest_devices (c : BitVec 32) (wdata : BitVec 64) :
    (f.sifiveTest c wdata).devices = f.devices := by
  unfold sifiveTest; dsimp only; split_ifs <;> rfl
@[simp] theorem sifiveTest_stdinQueue (c : BitVec 32) (wdata : BitVec 64) :
    (f.sifiveTest c wdata).stdinQueue = f.stdinQueue := by
  unfold sifiveTest; dsimp only; split_ifs <;> rfl
-- The console-input packet of a byte.
abbrev stdinPacket (ch : BitVec 8) : BitVec 64 :=
  (1 <<< 56 : BitVec 64) ||| (0 <<< 48 : BitVec 64) ||| ch.setWidth 64

theorem fromhost_cases (f : Fpga β) :
    (f.htifEnabled = true ∧ ∃ ch rest, f.stdinQueue = ch :: rest ∧
      f.fromhost = ({ f with stdinQueue := rest }, stdinPacket ch)) ∨
    ((f.htifEnabled = false ∨ f.stdinQueue = []) ∧ f.fromhost = (f, 0)) := by
  unfold fromhost dequeueStdin
  cases hh : f.htifEnabled
  · exact .inr ⟨.inl rfl, rfl⟩
  · cases hq : f.stdinQueue with
    | nil => exact .inr ⟨.inr rfl, rfl⟩
    | cons ch rest => exact .inl ⟨rfl, ch, rest, rfl, rfl⟩

@[simp] theorem fromhost_devices : f.fromhost.1.devices = f.devices := by
  rcases fromhost_cases f with ⟨-, _, _, -, he⟩ | ⟨-, he⟩ <;> rw [he]

-- What no request changes: the bus, the ROM, the three addresses and the HTIF switch.
structure SameWiring (f f' : Fpga β) : Prop where
  bus : f'.bus = f.bus
  rom : f'.rom = f.rom
  tohostAddr : f'.tohostAddr = f.tohostAddr
  fromhostAddr : f'.fromhostAddr = f.fromhostAddr
  sifiveTestAddr : f'.sifiveTestAddr = f.sifiveTestAddr
  htifEnabled : f'.htifEnabled = f.htifEnabled

theorem SameWiring.refl (f : Fpga β) : SameWiring f f := ⟨rfl, rfl, rfl, rfl, rfl, rfl⟩

theorem SameWiring.trans {f₁ f₂ : Fpga β} (h : SameWiring f f₁) (h' : SameWiring f₁ f₂) :
    SameWiring f f₂ :=
  ⟨h'.1.trans h.1, h'.2.trans h.2, h'.3.trans h.3, h'.4.trans h.4, h'.5.trans h.5,
    h'.6.trans h.6⟩

theorem htifTohost_wiring (wdata : BitVec 64) : SameWiring f (f.htifTohost wdata) := by
  unfold htifTohost; dsimp only; split_ifs <;> exact ⟨rfl, rfl, rfl, rfl, rfl, rfl⟩
theorem sifiveTest_wiring (c : BitVec 32) (wdata : BitVec 64) :
    SameWiring f (f.sifiveTest c wdata) := by
  unfold sifiveTest; dsimp only; split_ifs <;> exact ⟨rfl, rfl, rfl, rfl, rfl, rfl⟩
theorem fromhost_wiring : SameWiring f f.fromhost.1 := by
  rcases fromhost_cases f with ⟨-, _, _, -, he⟩ | ⟨-, he⟩ <;> rw [he] <;>
    exact ⟨rfl, rfl, rfl, rfl, rfl, rfl⟩

-- A read that the fromhost branch answers: no range and not the ROM holds the address.
def ServesFromhost (f : Fpga β) (araddr : BitVec 32) : Prop :=
  (f.bus.getPhysMemRange (araddr.setWidth 64)).isNone ∧
    ¬(f.rom.base ≤ araddr.setWidth 64 ∧ araddr.setWidth 64 < f.rom.limit) ∧
    araddr.setWidth 64 = f.fromhostAddr

instance (f : Fpga β) (araddr : BitVec 32) : Decidable (f.ServesFromhost araddr) :=
  inferInstanceAs (Decidable (_ ∧ _))

theorem SameWiring.servesFromhost {f' : Fpga β} (h : SameWiring f f') (araddr : BitVec 32) :
    f'.ServesFromhost araddr ↔ f.ServesFromhost araddr := by
  rw [ServesFromhost, ServesFromhost, h.bus, h.rom, h.fromhostAddr]

end Fpga

open Fpga

variable {exitCodeReset : BitVec 32} {f f' : Fpga β} {req : MmioRequest} {r : Option (BitVec 64)}

theorem except_bind_eq_ok {α γ : Type} {x : Except Fault α} {g : α → Except Fault γ} {c : γ}
    (h : x >>= g = .ok c) : ∃ a, x = .ok a ∧ g a = .ok c := by
  cases x with
  | error => cases h
  | ok a => exact ⟨a, rfl, h⟩

-- What a request can do: a write through a range changes the devices by the range's write
-- function; a write to `tohost` or to the test finisher acts on its command; a read of `fromhost`
-- takes its answer from the stdin queue; anything else changes nothing.
theorem emulatedMmioRespond_cases (h : emulatedMmioRespond exitCodeReset f req = .ok (f', r)) :
    (∃ pr ∈ f.bus.ranges, ∃ offset v b, pr.writeFunc f.devices offset v 2 = .ok b ∧
      f' = { f with devices := b }) ∨
    (∃ wdata, f' = f.htifTohost wdata) ∨ (∃ wdata, f' = f.sifiveTest exitCodeReset wdata) ∨
    (∃ araddr, req = .read araddr ∧ f.ServesFromhost araddr ∧
      (f', r) = (f.fromhost.1, some f.fromhost.2)) ∨
    f' = f := by
  cases req with
  | write waddr wdata =>
    simp only [emulatedMmioRespond] at h
    split at h
    · next pr hpr =>
      obtain ⟨b, hb, hok⟩ := except_bind_eq_ok h
      cases hok
      exact .inl ⟨pr, ((f.bus.getPhysMemRange_eq_some_iff).1 hpr).1, _, _, _, hb, rfl⟩
    · split_ifs at h <;> cases h
      · exact .inr (.inl ⟨_, rfl⟩)
      · exact .inr (.inr (.inr (.inr rfl)))
      · exact .inr (.inr (.inl ⟨_, rfl⟩))
      · exact .inr (.inr (.inr (.inr rfl)))
  | read araddr =>
    simp only [emulatedMmioRespond] at h
    split at h
    · next pr hpr =>
      obtain ⟨v, -, hok⟩ := except_bind_eq_ok h
      cases hok
      exact .inr (.inr (.inr (.inr rfl)))
    · next hnone =>
      split_ifs at h with hrom hfrom
      · obtain ⟨w, -, hok⟩ := except_bind_eq_ok h
        cases hok
        exact .inr (.inr (.inr (.inr rfl)))
      · cases h
        exact .inr (.inr (.inr (.inl
          ⟨araddr, rfl, ⟨Option.isNone_iff_eq_none.2 hnone, hrom, hfrom⟩, rfl⟩)))
      · cases h
        exact .inr (.inr (.inr (.inr rfl)))
      · cases h
        exact .inr (.inr (.inr (.inr rfl)))

theorem emulatedMmioRespond_wiring (h : emulatedMmioRespond exitCodeReset f req = .ok (f', r)) :
    SameWiring f f' := by
  rcases emulatedMmioRespond_cases h with
    ⟨-, -, -, -, -, -, rfl⟩ | ⟨_, rfl⟩ | ⟨_, rfl⟩ | ⟨_, -, -, he⟩ | rfl
  · exact ⟨rfl, rfl, rfl, rfl, rfl, rfl⟩
  · exact htifTohost_wiring _
  · exact sifiveTest_wiring _ _
  · cases he; exact fromhost_wiring
  · exact SameWiring.refl _

/-! Each branch, from the address. -/

theorem emulatedMmioRespond_write_range {pr : PhysMemoryRange β} {waddr : BitVec 32}
    (hpr : pr ∈ f.bus.ranges) (ha : pr.Contains (waddr.setWidth 64)) (wdata : BitVec 64) :
    emulatedMmioRespond exitCodeReset f (.write waddr wdata) =
      (pr.writeFunc f.devices ((waddr.setWidth 64 - pr.addr).setWidth 32)
        ((if waddr &&& 4 ≠ 0 then (wdata >>> 32) &&& 0xFFFFFFFF else wdata).setWidth 32) 2).map
        fun b => ({ f with devices := b }, none) := by
  rw [emulatedMmioRespond, (f.bus.getPhysMemRange_eq_some_iff).2 ⟨hpr, ha⟩]
  dsimp only
  cases pr.writeFunc _ _ _ 2 <;> rfl

theorem emulatedMmioRespond_read_range {pr : PhysMemoryRange β} {araddr : BitVec 32}
    (hpr : pr ∈ f.bus.ranges) (ha : pr.Contains (araddr.setWidth 64)) :
    emulatedMmioRespond exitCodeReset f (.read araddr) =
      (pr.readFunc f.devices ((araddr.setWidth 64 - pr.addr).setWidth 32) 2).map fun v : BitVec 32 =>
        (f, some (if (araddr.setWidth 64 - pr.addr).setWidth 32 % 8 = 4 then v.setWidth 64 <<< 32
          else v.setWidth 64)) := by
  rw [emulatedMmioRespond, (f.bus.getPhysMemRange_eq_some_iff).2 ⟨hpr, ha⟩]
  dsimp only
  cases pr.readFunc _ _ 2 <;> rfl

theorem emulatedMmioRespond_tohost {waddr : BitVec 32}
    (hn : ∀ pr ∈ f.bus.ranges, ¬pr.Contains (waddr.setWidth 64))
    (ht : waddr.setWidth 64 = f.tohostAddr) (wdata : BitVec 64) :
    emulatedMmioRespond exitCodeReset f (.write waddr wdata) = .ok (f.htifTohost wdata, none) := by
  rw [emulatedMmioRespond, (f.bus.getPhysMemRange_eq_none_iff).2 hn]
  simp only [if_pos ht]
  rfl

theorem emulatedMmioRespond_sifiveTest {waddr : BitVec 32}
    (hn : ∀ pr ∈ f.bus.ranges, ¬pr.Contains (waddr.setWidth 64))
    (hs : waddr.setWidth 64 = f.sifiveTestAddr) (ht : waddr.setWidth 64 ≠ f.tohostAddr)
    (hf : waddr.setWidth 64 ≠ f.fromhostAddr) (wdata : BitVec 64) :
    emulatedMmioRespond exitCodeReset f (.write waddr wdata) =
      .ok (f.sifiveTest exitCodeReset wdata, none) := by
  rw [emulatedMmioRespond, (f.bus.getPhysMemRange_eq_none_iff).2 hn]
  simp only [if_neg ht, if_neg hf, if_pos hs]
  rfl

theorem emulatedMmioRespond_fromhost {araddr : BitVec 32} (ha : f.ServesFromhost araddr) :
    emulatedMmioRespond exitCodeReset f (.read araddr) = .ok (f.fromhost.1, some f.fromhost.2) := by
  obtain ⟨hn, hrom, hfrom⟩ := ha
  simp only [emulatedMmioRespond, Option.isNone_iff_eq_none.1 hn, if_neg hrom, if_pos hfrom]
  rfl

-- A request takes from the stdin queue only the byte that a read of `fromhost` answers with, and
-- answers 0 there only when HTIF is off or the queue is empty.
theorem emulatedMmioRespond_stdin (h : emulatedMmioRespond exitCodeReset f req = .ok (f', r)) :
    (∃ araddr ch, req = .read araddr ∧ f.ServesFromhost araddr ∧ f.htifEnabled = true ∧
      f.stdinQueue = ch :: f'.stdinQueue ∧ r = some (stdinPacket ch)) ∨
    (f'.stdinQueue = f.stdinQueue ∧ ∀ araddr, req = .read araddr → f.ServesFromhost araddr →
      r = some 0 ∧ (f.htifEnabled = false ∨ f.stdinQueue = [])) := by
  by_cases hs : ∃ araddr, req = .read araddr ∧ f.ServesFromhost araddr
  · obtain ⟨a, rfl, ha⟩ := hs
    rw [emulatedMmioRespond_fromhost ha] at h
    cases h
    rcases fromhost_cases f with ⟨hh, ch, rest, hq, hf⟩ | ⟨hq, hf⟩ <;> rw [hf]
    · exact .inl ⟨a, ch, rfl, ha, hh, hq, rfl⟩
    · exact .inr ⟨rfl, fun _ hr _ => by cases hr; exact ⟨rfl, hq⟩⟩
  · refine .inr ⟨?_, fun a hr ha => (hs ⟨a, hr, ha⟩).elim⟩
    rcases emulatedMmioRespond_cases h with
      ⟨-, -, -, -, -, -, rfl⟩ | ⟨_, rfl⟩ | ⟨_, rfl⟩ | ⟨a, hr, ha, -⟩ | rfl
    · rfl
    · exact htifTohost_stdinQueue _
    · exact sifiveTest_stdinQueue _ _
    · exact (hs ⟨a, hr, ha⟩).elim
    · rfl

/-! Runs of the FPGA side. -/

-- What happens on the FPGA side, one thing at a time: the dispatcher answers a request, a device
-- takes a step of its own (its worker, its backend, a write of the guest to its memory), or the
-- stdin pump pushes bytes.
inductive FpgaEvent where
  | respond (req : MmioRequest) (resp : Option (BitVec 64))
  | device
  | stdin (buf : List (BitVec 8))

inductive FpgaStep (exitCodeReset : BitVec 32) (DevStep : β → β → Prop) :
    Fpga β → FpgaEvent → Fpga β → Prop
  | respond {f f' : Fpga β} {req : MmioRequest} {resp : Option (BitVec 64)} :
    emulatedMmioRespond exitCodeReset f req = .ok (f', resp) →
      FpgaStep exitCodeReset DevStep f (.respond req resp) f'
  | device {f : Fpga β} {b : β} :
    DevStep f.devices b → FpgaStep exitCodeReset DevStep f .device { f with devices := b }
  | stdin (f : Fpga β) (buf : List (BitVec 8)) :
    FpgaStep exitCodeReset DevStep f (.stdin buf) (f.pushStdin buf)

inductive FpgaRun (exitCodeReset : BitVec 32) (DevStep : β → β → Prop) :
    Fpga β → List FpgaEvent → Fpga β → Prop
  | nil (f : Fpga β) : FpgaRun exitCodeReset DevStep f [] f
  | cons {f f₁ f₂ : Fpga β} {e : FpgaEvent} {es : List FpgaEvent} :
    FpgaStep exitCodeReset DevStep f e f₁ → FpgaRun exitCodeReset DevStep f₁ es f₂ →
      FpgaRun exitCodeReset DevStep f (e :: es) f₂

-- The byte the guest receives in an event: the answer to a read that the fromhost branch serves,
-- when it is not 0.
def Fpga.takenBy (f : Fpga β) : FpgaEvent → List (BitVec 8)
  | .respond (.read araddr) (some v) =>
    if f.ServesFromhost araddr ∧ v ≠ 0 then [v.setWidth 8] else []
  | _ => []

def FpgaEvent.pushed : FpgaEvent → List (BitVec 8)
  | .stdin buf => buf
  | _ => []

theorem stdinPacket_toNat (ch : BitVec 8) : (stdinPacket ch).toNat = 2 ^ 56 + ch.toNat := by
  have h := ch.isLt
  simp only [stdinPacket, BitVec.toNat_or, BitVec.toNat_setWidth,
    Nat.mod_eq_of_lt (show ch.toNat < 2 ^ 64 by omega)]
  rw [show (1 <<< 56 : BitVec 64).toNat = 2 ^ 56 * 1 from rfl,
    show (0 <<< 48 : BitVec 64).toNat = 0 from rfl, Nat.or_zero,
    ← Nat.mul_add_lt_is_or (by omega),
    Nat.mul_one]

theorem stdinPacket_ne_zero (ch : BitVec 8) : stdinPacket ch ≠ 0 := by
  intro h0
  have := stdinPacket_toNat ch
  rw [h0] at this
  simp at this
  omega

theorem stdinPacket_setWidth (ch : BitVec 8) : (stdinPacket ch).setWidth 8 = ch := by
  apply BitVec.eq_of_toNat_eq
  rw [BitVec.toNat_setWidth, stdinPacket_toNat]
  omega

-- An answer that is not a byte of the stdin queue.
theorem takenBy_eq_nil
    (hz : ∀ araddr, req = .read araddr → f.ServesFromhost araddr → r = some 0) :
    f.takenBy (.respond req r) = [] := by
  cases req with
  | write => rfl
  | read a =>
    by_cases ha : f.ServesFromhost a
    · rw [hz a rfl ha]; simp [takenBy]
    · cases r with
      | none => rfl
      | some v => simp [takenBy, ha]

namespace FpgaStep

variable {DevStep : β → β → Prop} {e : FpgaEvent}

theorem wiring (h : FpgaStep exitCodeReset DevStep f e f') : SameWiring f f' := by
  cases h with
  | respond h => exact emulatedMmioRespond_wiring h
  | device => exact ⟨rfl, rfl, rfl, rfl, rfl, rfl⟩
  | stdin => exact ⟨rfl, rfl, rfl, rfl, rfl, rfl⟩

-- An event moves bytes of the stdin queue only from the pump to the guest.
theorem takenBy_append (h : FpgaStep exitCodeReset DevStep f e f') :
    f.takenBy e ++ f'.stdinQueue = f.stdinQueue ++ e.pushed := by
  cases h with
  | respond h =>
    rcases emulatedMmioRespond_stdin h with ⟨a, ch, rfl, ha, -, hq, rfl⟩ | ⟨hq, hz⟩
    · rw [takenBy, if_pos ⟨ha, stdinPacket_ne_zero ch⟩, stdinPacket_setWidth, hq]
      simp [FpgaEvent.pushed]
    · rw [takenBy_eq_nil fun a hr ha => (hz a hr ha).1, hq]
      simp [FpgaEvent.pushed]
  | device => simp [takenBy, FpgaEvent.pushed]
  | stdin => simp [takenBy, FpgaEvent.pushed, pushStdin]

end FpgaStep

theorem FpgaRun.wiring {DevStep : β → β → Prop} {es : List FpgaEvent}
    (h : FpgaRun exitCodeReset DevStep f es f') : SameWiring f f' := by
  induction h with
  | nil f => exact .refl f
  | cons hs _ ih => exact hs.wiring.trans ih

theorem Fpga.SameWiring.takenBy_eq (h : SameWiring f f') : f'.takenBy = f.takenBy := by
  funext e
  cases e with
  | respond req resp => cases req <;> cases resp <;> simp only [Fpga.takenBy, h.servesFromhost]
  | device => rfl
  | stdin => rfl

/-! The devices of the bus are a bank of virtio devices on the MMIO transport. -/

section Bank

variable {k : Nat} {σs : Fin k → Type} (Ds : (i : Fin k) → DeviceModel (σs i))

-- A step of one device of the bank in its own model; the others do not change.
def BankStep (ms ms' : Bank σs) : Prop :=
  ∃ i m, Step (Ds i) (ms i) m ∧ ms' = Function.update ms i m

-- Every range of the bus is the MMIO range of a device of the bank.
def VirtioBus (bus : GuestMemoryBus (Bank σs)) : Prop :=
  ∀ pr ∈ bus.ranges, ∃ i addr size, pr = virtioMmioRange i addr size

variable {Ds}

theorem virtioMmioRange_bankStep {i : Fin k} {addr size : BitVec 64} {ms ms' : Bank σs}
    {offset val : BitVec 32} {n : Nat}
    (h : (virtioMmioRange i addr size).writeFunc ms offset val n = .ok ms') :
    BankStep Ds ms ms' := by
  obtain ⟨s, hs, rfl⟩ := map_eq_ok h
  exact ⟨i, _, .mmioWrite offset val n hs, rfl⟩

theorem BankStep.reachable {ms ms' : Bank σs} (h : BankStep Ds ms ms')
    (hm : ∀ i, Reachable (Ds i) (ms i)) (j : Fin k) : Reachable (Ds j) (ms' j) := by
  obtain ⟨i, m, hs, rfl⟩ := h
  by_cases hj : j = i
  · subst hj
    rw [Function.update_same]
    exact (hm j).step hs
  · rw [Function.update_noteq hj]
    exact hm j

-- A request changes the devices, if at all, by a step of one of them.
theorem emulatedMmioRespond_bankStep {f f' : Fpga (Bank σs)} (hbus : VirtioBus f.bus)
    (h : emulatedMmioRespond exitCodeReset f req = .ok (f', r)) :
    f'.devices = f.devices ∨ BankStep Ds f.devices f'.devices := by
  rcases emulatedMmioRespond_cases h with
    ⟨pr, hpr, _, _, _, hw, rfl⟩ | ⟨_, rfl⟩ | ⟨_, rfl⟩ | ⟨_, -, -, he⟩ | rfl
  · obtain ⟨i, a, s, rfl⟩ := hbus pr hpr
    exact .inr (virtioMmioRange_bankStep hw)
  · exact .inl (htifTohost_devices _)
  · exact .inl (sifiveTest_devices _ _)
  · cases he
    exact .inl fromhost_devices
  · exact .inl rfl

theorem FpgaStep.reachable {f f' : Fpga (Bank σs)} {e : FpgaEvent} (hbus : VirtioBus f.bus)
    (h : FpgaStep exitCodeReset (BankStep Ds) f e f') (hm : ∀ i, Reachable (Ds i) (f.devices i)) :
    ∀ i, Reachable (Ds i) (f'.devices i) := by
  cases h with
  | respond h =>
    rcases emulatedMmioRespond_bankStep hbus h with he | hs
    · rwa [he]
    · exact hs.reachable hm
  | device hs => exact hs.reachable hm
  | stdin => exact hm

end Bank

end Virtio
