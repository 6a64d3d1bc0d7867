import TinyEmuVirtio.Objects.Machine

namespace Virtio

/-! The FPGA side of the emulator: the guest bus, the boot ROM, the HTIF mailbox and the SiFive
test finisher, and `FPGA_io::emulated_mmio_respond`, which answers each access of the guest that
the virtual device captures. -/

-- A range that `cpu_register_device` puts on the guest bus: its base and size, and the access
-- functions of the device behind it. The device state that the `opaque` pointer reaches is `β`,
-- so the write function returns it changed.
structure PhysMemoryRange (β : Type) where
  addr : BitVec 64
  size : BitVec 64
  readFunc : β → BitVec 32 → Nat → Except Fault (BitVec 32)
  writeFunc : β → BitVec 32 → BitVec 32 → Nat → Except Fault β

namespace PhysMemoryRange

variable {β : Type}

def Contains (pr : PhysMemoryRange β) (a : BitVec 64) : Prop :=
  pr.addr ≤ a ∧ a < pr.addr + pr.size

instance (pr : PhysMemoryRange β) (a : BitVec 64) : Decidable (pr.Contains a) :=
  inferInstanceAs (Decidable (_ ∧ _))

-- Neither range holds an address the other holds.
def Apart (p q : PhysMemoryRange β) : Prop :=
  p.addr + p.size ≤ q.addr ∨ q.addr + q.size ≤ p.addr

instance (p q : PhysMemoryRange β) : Decidable (p.Apart q) :=
  inferInstanceAs (Decidable (_ ∨ _))

end PhysMemoryRange

-- The devices of `virtio_devices`, each with its machine.
abbrev Bank {k : Nat} (σs : Fin k → Type) := (i : Fin k) → Machine (σs i)

-- The range `virtio_init` registers for device `i` on the MMIO transport: its registers from
-- `addr`, `size` (`VIRTIO_PAGE_SIZE`) bytes long, read by `virtio_mmio_read` and written by
-- `virtio_mmio_write`.
def virtioMmioRange {k : Nat} {σs : Fin k → Type} (i : Fin k) (addr size : BitVec 64) :
    PhysMemoryRange (Bank σs) where
  addr := addr
  size := size
  readFunc ms offset sizeLog2 := virtioMmioRead (ms i).dev offset sizeLog2
  writeFunc ms offset val sizeLog2 := (virtioMmioWrite (ms i).dev offset val sizeLog2).map
    fun s => Function.update ms i { ms i with dev := s }

-- The ranges of `virtio_devices`. The bus's code is not in the source; its description gives each
-- range a base below its limit and no two ranges overlapping.
structure GuestMemoryBus (β : Type) where
  ranges : List (PhysMemoryRange β)
  base_lt_limit : ∀ pr ∈ ranges, pr.addr < pr.addr + pr.size
  apart : ranges.Pairwise PhysMemoryRange.Apart

-- `get_phys_mem_range`, as the description of the bus has it: the first registered range that
-- holds the address.
def GuestMemoryBus.getPhysMemRange {β : Type} (bus : GuestMemoryBus β) (a : BitVec 64) :
    Option (PhysMemoryRange β) :=
  bus.ranges.find? fun pr => decide (pr.Contains a)

-- The boot ROM: little-endian 64-bit words from `base`, answered for addresses below `limit`.
structure Rom where
  base : BitVec 64
  limit : BitVec 64
  data : List (BitVec 64)

-- The fields of `FPGA` that the dispatcher reads or writes. `devices` is the state of the devices
-- behind the ranges of `bus`; `stdinQueue` is `stdin_queue`, front first; `stdout` is what
-- `console_putchar` has written; `exitCode` is `exit_code`, set by `stop_io` and none before.
structure Fpga (β : Type) where
  devices : β
  bus : GuestMemoryBus β
  rom : Rom
  tohostAddr : BitVec 64
  fromhostAddr : BitVec 64
  sifiveTestAddr : BitVec 64
  htifEnabled : Bool
  stdinQueue : List (BitVec 8)
  stdout : List (BitVec 8)
  exitCode : Option (BitVec 32)

-- One access of the guest as the virtual device reports it: a write (`VD_WRITE_ADDR`,
-- `VD_WRITE_DATA`) or a read (`VD_READ_ADDR`). The byte enables and the request id are read
-- only for messages.
inductive MmioRequest where
  | write (waddr : BitVec 32) (wdata : BitVec 64)
  | read (araddr : BitVec 32)
  deriving DecidableEq, Repr

def tohostOffset : BitVec 64 := 0
def fromhostOffset : BitVec 64 := 8

namespace Fpga

variable {β : Type}

def setHtifBaseAddr (f : Fpga β) (baseaddr : BitVec 64) : Fpga β :=
  { f with tohostAddr := baseaddr + tohostOffset, fromhostAddr := baseaddr + fromhostOffset }

-- `FPGA::FPGA`: the SiFive test finisher at 0x50000000, HTIF off, and the HTIF mailbox at
-- 0x10001000 (the constructor leaves both mailbox addresses unset until `set_htif_base_addr`).
def init (devices : β) (bus : GuestMemoryBus β) (rom : Rom) : Fpga β :=
  setHtifBaseAddr
    { devices := devices, bus := bus, rom := rom, tohostAddr := 0, fromhostAddr := 0
      sifiveTestAddr := 0x50000000, htifEnabled := false, stdinQueue := [], stdout := []
      exitCode := none } 0x10001000

-- `fputc` writes the low byte of its argument.
def consolePutchar (f : Fpga β) (wdata : BitVec 64) : Fpga β :=
  { f with stdout := f.stdout ++ [wdata.setWidth 8] }

-- The code `join_io` returns. The byte that stops the stdin pump and the stop of the devices'
-- threads are not modelled.
def stopIo (f : Fpga β) (code : BitVec 32) : Fpga β :=
  { f with exitCode := some code }

def dequeueStdin (f : Fpga β) : Option (BitVec 8 × Fpga β) :=
  match f.stdinQueue with
  | [] => none
  | ch :: rest => some (ch, { f with stdinQueue := rest })

-- The producer of `stdin_queue`: the push loop of `FPGA::enqueue_stdin` when there is no virtio
-- console. The terminal pump that feeds it is not modelled.
def pushStdin (f : Fpga β) (buf : List (BitVec 8)) : Fpga β :=
  { f with stdinQueue := f.stdinQueue ++ buf }

-- The branches of `emulated_mmio_respond` that serve no range. A write to `tohost` is an HTIF
-- command: `dev` 1 `cmd` 1 prints the payload's byte, `dev` 0 `cmd` 0 ends the run.
def htifTohost (f : Fpga β) (wdata : BitVec 64) : Fpga β :=
  let dev : BitVec 8 := ((wdata >>> 56) &&& 0xFF).setWidth 8
  let cmd : BitVec 8 := ((wdata >>> 48) &&& 0xFF).setWidth 8
  let payload := wdata &&& 0x0000FFFFFFFFFFFF
  if dev = 1 ∧ cmd = 1 then f.consolePutchar payload
  else if dev = 0 ∧ cmd = 0 then f.stopIo (if payload = 1 then 0 else (payload >>> 1).setWidth 32)
  else f

-- A write to the SiFive test finisher: its low 16 bits say fail (with the code above them), pass
-- or reset.
def sifiveTest (exitCodeReset : BitVec 32) (f : Fpga β) (wdata : BitVec 64) : Fpga β :=
  let status : BitVec 32 := (wdata &&& 0xFFFF).setWidth 32
  if status = 0x3333 then f.stopIo (((wdata >>> 16) &&& 0xFFFF).setWidth 32)
  else if status = 0x5555 then f.stopIo 0
  else if status = 0x7777 then f.stopIo exitCodeReset
  else f

-- A read of `fromhost`: with HTIF on, one byte of the stdin queue as a console-input packet.
def fromhost (f : Fpga β) : Fpga β × BitVec 64 :=
  if f.htifEnabled then
    match f.dequeueStdin with
    | some (ch, f') => (f', (1 <<< 56 : BitVec 64) ||| (0 <<< 48 : BitVec 64) ||| ch.setWidth 64)
    | none => (f, 0)
  else (f, 0)

-- A read of the ROM: the word the address falls in. An index past `data` is undefined.
def romRead (rom : Rom) (araddr : BitVec 64) : Except Fault (BitVec 64) :=
  match rom.data[((araddr - rom.base) / 8).toNat]? with
  | some w => pure w
  | none => throw .undefined

end Fpga

open Fpga in
-- One call of `FPGA_io::emulated_mmio_respond`: the new state, and the data of `VD_READ_DATA` for
-- a read. The guest's bus is 64 bits wide: a 32-bit write to an address with bit 2 set comes in
-- the upper half of `wdata`, and a read at an offset 4 past a multiple of 8 is answered there. The
-- read length is the constant 0, so its error branch is never taken.
def emulatedMmioRespond {β : Type} (exitCodeReset : BitVec 32) (f : Fpga β) :
    MmioRequest → Except Fault (Fpga β × Option (BitVec 64))
  | .write waddr wdata =>
    match f.bus.getPhysMemRange (waddr.setWidth 64) with
    | some pr => do
      let offset : BitVec 32 := (waddr.setWidth 64 - pr.addr).setWidth 32
      let wdata := if waddr &&& 4 ≠ 0 then (wdata >>> 32) &&& 0xFFFFFFFF else wdata
      let devices ← pr.writeFunc f.devices offset (wdata.setWidth 32) 2
      return ({ f with devices }, none)
    | none =>
      if waddr.setWidth 64 = f.tohostAddr then return (f.htifTohost wdata, none)
      else if waddr.setWidth 64 = f.fromhostAddr then return (f, none)
      else if waddr.setWidth 64 = f.sifiveTestAddr then
        return (f.sifiveTest exitCodeReset wdata, none)
      else return (f, none)
  | .read araddr =>
    match f.bus.getPhysMemRange (araddr.setWidth 64) with
    | some pr => do
      let offset : BitVec 32 := (araddr.setWidth 64 - pr.addr).setWidth 32
      let val : BitVec 64 := (← pr.readFunc f.devices offset 2).setWidth 64
      return (f, some (if offset % 8 = 4 then val <<< 32 else val))
    | none =>
      if f.rom.base ≤ araddr.setWidth 64 ∧ araddr.setWidth 64 < f.rom.limit then
        return (f, some (← romRead f.rom (araddr.setWidth 64)))
      else if araddr.setWidth 64 = f.fromhostAddr then
        let (f', v) := f.fromhost
        return (f', some v)
      else if araddr.setWidth 64 = f.sifiveTestAddr then return (f, some 0)
      else return (f, some 0)

end Virtio
