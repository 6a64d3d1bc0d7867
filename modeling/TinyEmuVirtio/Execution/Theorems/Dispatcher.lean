import TinyEmuVirtio.Execution.Dispatcher
import TinyEmuVirtio.Execution.Devices

namespace Virtio

/-! What the dispatcher guarantees: each 32-bit access of the guest reaches its device in the
lane the 64-bit bus carries it in, the HTIF and test-finisher commands end the run with the code
the guest encodes, the guest reads the bytes of the stdin pump in order, none lost and none
twice, and the devices behind the bus change only by steps of their own models. -/

variable {β : Type} {exitCodeReset : BitVec 32} {f : Fpga β}

/-! ## Lanes -/

theorem toNat_append_32 (v x : BitVec 32) : (v ++ x).toNat = v.toNat * 2 ^ 32 + x.toNat := by
  rw [BitVec.toNat_append, Nat.shiftLeft_eq, Nat.mul_comm, Nat.mul_add_lt_is_or x.isLt]

theorem upper_lane (v x : BitVec 32) : (((v ++ x) >>> 32) &&& 0xFFFFFFFF).setWidth 32 = v := by
  apply BitVec.eq_of_toNat_eq
  have hv := v.isLt
  simp only [BitVec.toNat_setWidth, BitVec.toNat_and, BitVec.toNat_ushiftRight, toNat_append_32,
    Nat.shiftRight_eq_div_pow]
  rw [show (0xFFFFFFFF : BitVec 64).toNat = 2 ^ 32 - 1 from rfl, Nat.and_pow_two_sub_one_eq_mod]
  have hx := x.isLt
  omega

theorem lower_lane (v x : BitVec 32) : (x ++ v).setWidth 32 = v := by
  apply BitVec.eq_of_toNat_eq
  have hv := v.isLt
  simp only [BitVec.toNat_setWidth, toNat_append_32]
  omega

theorem and_four_eq_zero_iff (a : BitVec 32) : a &&& 4 = 0 ↔ a.toNat % 8 < 4 := by
  rw [BitVec.toNat_eq, BitVec.toNat_and, show (4 : BitVec 32).toNat = 4 from rfl,
    show (0 : BitVec 32).toNat = 0 from rfl]
  have key : a.toNat &&& 4 = a.toNat % 8 &&& 4 := by
    rw [show a.toNat % 8 = a.toNat % 2 ^ 3 from rfl, ← Nat.and_pow_two_sub_one_eq_mod,
      Nat.land_assoc]
    rfl
  have hr : a.toNat % 8 < 8 := Nat.mod_lt _ (by decide)
  rw [key]
  generalize a.toNat % 8 = r at hr ⊢
  interval_cases r <;> decide

-- The offset into a range that holds the address.
theorem offset_toNat {pr : PhysMemoryRange β} {a : BitVec 32} (ha : pr.Contains (a.setWidth 64)) :
    ((a.setWidth 64 - pr.addr).setWidth 32).toNat = a.toNat - pr.addr.toNat := by
  have hle := BitVec.le_def.1 ha.1
  have hlt := a.isLt
  rw [BitVec.toNat_setWidth] at hle
  rw [BitVec.toNat_setWidth, BitVec.toNat_sub, BitVec.toNat_setWidth]
  omega

theorem offset_lane {pr : PhysMemoryRange β} {a : BitVec 32} (ha : pr.Contains (a.setWidth 64)) :
    ((a.setWidth 64 - pr.addr).setWidth 32 % 8 = 4 ↔ (a.toNat - pr.addr.toNat) % 8 = 4) := by
  rw [BitVec.toNat_eq, BitVec.toNat_umod, offset_toNat ha]
  rfl

theorem shiftLeft_32_eq_append (v : BitVec 32) : v.setWidth 64 <<< 32 = v ++ (0 : BitVec 32) := by
  apply BitVec.eq_of_toNat_eq
  have hv := v.isLt
  simp only [BitVec.toNat_shiftLeft, BitVec.toNat_setWidth, Nat.shiftLeft_eq, toNat_append_32,
    show (0 : BitVec 32).toNat = 0 from rfl]
  omega

theorem setWidth_64_eq_append (v : BitVec 32) : v.setWidth 64 = (0 : BitVec 32) ++ v := by
  apply BitVec.eq_of_toNat_eq
  have hv := v.isLt
  simp only [BitVec.toNat_setWidth, toNat_append_32, show (0 : BitVec 32).toNat = 0 from rfl]
  omega

-- The guest's bus is 64 bits wide, and a 32-bit access at an address with bit 2 set travels in
-- the upper half. Whatever the other half holds, a write reaches the range's write function with
-- the guest's value at the offset of the address. A read is answered in the guest's lane, the
-- other half 0, when the range's base is a multiple of 8; on a base 4 past one the read's lanes
-- are the other way round, while the write's are not.
theorem dispatcher_guest_lanes {pr : PhysMemoryRange β} (hpr : pr ∈ f.bus.ranges) :
    (∀ (waddr v x : BitVec 32), pr.Contains (waddr.setWidth 64) →
      emulatedMmioRespond exitCodeReset f
        (.write waddr (if waddr &&& 4 ≠ 0 then v ++ x else x ++ v)) =
        (pr.writeFunc f.devices ((waddr.setWidth 64 - pr.addr).setWidth 32) v 2).map
          fun b => ({ f with devices := b }, none)) ∧
    (pr.addr.toNat % 8 = 0 → ∀ araddr : BitVec 32, pr.Contains (araddr.setWidth 64) →
      araddr.toNat % 4 = 0 →
      emulatedMmioRespond exitCodeReset f (.read araddr) =
        (pr.readFunc f.devices ((araddr.setWidth 64 - pr.addr).setWidth 32) 2).map fun v =>
          (f, some (if araddr &&& 4 ≠ 0 then v ++ (0 : BitVec 32) else (0 : BitVec 32) ++ v))) ∧
    (pr.addr.toNat % 8 = 4 → ∀ araddr : BitVec 32, pr.Contains (araddr.setWidth 64) →
      araddr.toNat % 4 = 0 →
      emulatedMmioRespond exitCodeReset f (.read araddr) =
        (pr.readFunc f.devices ((araddr.setWidth 64 - pr.addr).setWidth 32) 2).map fun v =>
          (f, some (if araddr &&& 4 ≠ 0 then (0 : BitVec 32) ++ v
            else v ++ (0 : BitVec 32)))) := by
  refine ⟨fun waddr v x ha => ?_, fun h8 araddr ha h4 => ?_, fun h8 araddr ha h4 => ?_⟩
  · rw [emulatedMmioRespond_write_range hpr ha]
    by_cases hw : waddr &&& 4 ≠ 0
    · rw [if_pos hw, if_pos hw, upper_lane]
    · rw [if_neg hw, if_neg hw, lower_lane]
  all_goals
    have hle := BitVec.le_def.1 ha.1
    have hlt := araddr.isLt
    rw [BitVec.toNat_setWidth, Nat.mod_eq_of_lt (by omega)] at hle
    rw [emulatedMmioRespond_read_range hpr ha]
    refine congrArg (fun g => Except.map g _) (funext fun v => ?_)
    simp only [offset_lane ha, ne_eq, and_four_eq_zero_iff, shiftLeft_32_eq_append]
  · simp only [show (araddr.toNat - pr.addr.toNat) % 8 = 4 ↔ ¬araddr.toNat % 8 < 4 by omega]
    by_cases hw : araddr.toNat % 8 < 4 <;>
      simp only [hw, not_true, not_false_eq_true, if_true, if_false, setWidth_64_eq_append]
  · simp only [show (araddr.toNat - pr.addr.toNat) % 8 = 4 ↔ araddr.toNat % 8 < 4 by omega]
    by_cases hw : araddr.toNat % 8 < 4 <;>
      simp only [hw, not_true, not_false_eq_true, if_true, if_false, setWidth_64_eq_append]

theorem console_lanes_on_two_ranges :
    let pr₀ : PhysMemoryRange (Bank fun _ : Fin 2 => ConsoleState) :=
      virtioMmioRange 0 0x40010000 0x1000
    let pr₁ : PhysMemoryRange (Bank fun _ : Fin 2 => ConsoleState) :=
      virtioMmioRange 1 0x40011004 0x1000
    let f := Fpga.init (fun _ => ⟨consoleModel.dev, fun _ => 0, [], consoleModel.ext⟩)
      ⟨[pr₀, pr₁], by decide, by decide⟩ ⟨0x1000, 0x2000, []⟩
    emulatedMmioRespond 0 f (.write 0x40010034
        (if (0x40010034 : BitVec 32) &&& 4 ≠ 0 then (5 : BitVec 32) ++ (9 : BitVec 32)
          else (9 : BitVec 32) ++ (5 : BitVec 32))) =
        (pr₀.writeFunc f.devices (((0x40010034 : BitVec 32).setWidth 64 - pr₀.addr).setWidth 32) 5
          2).map
          (fun b => ({ f with devices := b }, none)) ∧
      emulatedMmioRespond 0 f (.read 0x40010074) =
        (pr₀.readFunc f.devices (((0x40010074 : BitVec 32).setWidth 64 - pr₀.addr).setWidth 32)
          2).map
          (fun v => (f, some (if (0x40010074 : BitVec 32) &&& 4 ≠ 0 then v ++ (0 : BitVec 32)
            else (0 : BitVec 32) ++ v))) ∧
      emulatedMmioRespond 0 f (.read 0x40011074) =
        (pr₁.readFunc f.devices (((0x40011074 : BitVec 32).setWidth 64 - pr₁.addr).setWidth 32)
          2).map
          (fun v => (f, some (if (0x40011074 : BitVec 32) &&& 4 ≠ 0 then (0 : BitVec 32) ++ v
            else v ++ (0 : BitVec 32)))) :=
  ⟨(dispatcher_guest_lanes (List.mem_cons_self _ _)).1 _ _ _ (by decide),
    (dispatcher_guest_lanes (List.mem_cons_self _ _)).2.1 (by decide) _ (by decide) (by decide),
    (dispatcher_guest_lanes (List.mem_cons_of_mem _ (List.mem_singleton_self _))).2.2 (by decide) _
      (by decide) (by decide)⟩

/-! ## HTIF and the test finisher -/

theorem toNat_and_mask (x m : BitVec 64) (n : Nat) (hm : m.toNat = 2 ^ n - 1) :
    (x &&& m).toNat = x.toNat % 2 ^ n := by
  rw [BitVec.toNat_and, hm, Nat.and_pow_two_sub_one_eq_mod]

-- A field of a 64-bit word as the dispatcher cuts it out: shifted down, masked and narrowed.
theorem toNat_field (w m : BitVec 64) (n j k : Nat) (hm : m.toNat = 2 ^ j - 1) :
    (((w >>> n) &&& m).setWidth k).toNat = w.toNat / 2 ^ n % 2 ^ j % 2 ^ k := by
  rw [BitVec.toNat_setWidth, toNat_and_mask _ m j hm, BitVec.toNat_ushiftRight,
    Nat.shiftRight_eq_div_pow]

theorem toNat_shiftLeft_or {x b : BitVec 64} {n : Nat} (hx : x.toNat * 2 ^ n < 2 ^ 64)
    (hb : b.toNat < 2 ^ n) : (x <<< n ||| b).toNat = x.toNat * 2 ^ n + b.toNat := by
  rw [BitVec.toNat_or, BitVec.toNat_shiftLeft, Nat.shiftLeft_eq, Nat.mod_eq_of_lt hx, Nat.mul_comm,
    Nat.mul_add_lt_is_or hb]

-- A word below 2^48 is a command of device 0: the end of the run.
theorem htifTohost_of_lt {wdata : BitVec 64} (h : wdata.toNat < 2 ^ 48) :
    f.htifTohost wdata = f.stopIo (if wdata = 1 then 0 else (wdata >>> 1).setWidth 32) := by
  have hp : wdata &&& 0x0000FFFFFFFFFFFF = wdata :=
    BitVec.eq_of_toNat_eq (by rw [toNat_and_mask _ 0x0000FFFFFFFFFFFF 48 rfl]; omega)
  have hd : ∀ n, 48 ≤ n → ((wdata >>> n) &&& 0xFF).setWidth 8 = 0 := fun n hn =>
    BitVec.eq_of_toNat_eq (by
      rw [toNat_field _ 0xFF n 8 8 rfl, Nat.div_eq_of_lt (lt_of_lt_of_le h (Nat.pow_le_pow_right
        (by decide) hn))]
      rfl)
  unfold Fpga.htifTohost
  simp only [hp, hd 56 (by decide), hd 48 (by decide), show ¬((0 : BitVec 8) = 1) by decide,
    false_and, and_self, if_false, if_true]

theorem htifTohost_exit (code : BitVec 32) :
    f.htifTohost ((code.setWidth 64 <<< 1) ||| 1) = f.stopIo code := by
  have hc := code.isLt
  have hw : ((code.setWidth 64 <<< 1) ||| 1).toNat = code.toNat * 2 ^ 1 + 1 := by
    rw [toNat_shiftLeft_or (by rw [BitVec.toNat_setWidth]; omega) (by decide),
      BitVec.toNat_setWidth, Nat.mod_eq_of_lt (by omega)]
    rfl
  rw [htifTohost_of_lt (by omega)]
  congr
  split_ifs with h1
  · have := congrArg BitVec.toNat h1
    rw [hw] at this
    exact (BitVec.eq_of_toNat_eq (by simp at this ⊢; omega)).symm
  · apply BitVec.eq_of_toNat_eq
    rw [BitVec.toNat_setWidth, BitVec.toNat_ushiftRight, hw, Nat.shiftRight_eq_div_pow]
    omega

theorem htifTohost_putchar (ch : BitVec 8) :
    f.htifTohost ((1 <<< 56 : BitVec 64) ||| (1 <<< 48 : BitVec 64) ||| ch.setWidth 64) =
      { f with stdout := f.stdout ++ [ch] } := by
  have hc := ch.isLt
  have hw : ((1 <<< 56 : BitVec 64) ||| (1 <<< 48 : BitVec 64) ||| ch.setWidth 64).toNat =
      2 ^ 48 * 257 + ch.toNat := by
    rw [BitVec.toNat_or,
      show ((1 <<< 56 : BitVec 64) ||| (1 <<< 48 : BitVec 64)).toNat = 2 ^ 48 * 257 from rfl,
      BitVec.toNat_setWidth, Nat.mod_eq_of_lt (by omega), Nat.mul_add_lt_is_or (by omega)]
  have hf : ∀ n, n = 48 ∨ n = 56 → (((1 <<< 56 : BitVec 64) ||| (1 <<< 48 : BitVec 64) |||
      ch.setWidth 64) >>> n &&& 0xFF).setWidth 8 = 1 := by
    rintro n (rfl | rfl) <;>
      exact BitVec.eq_of_toNat_eq (by rw [toNat_field _ 0xFF _ 8 8 rfl, hw]; simp; omega)
  have hp : (((1 <<< 56 : BitVec 64) ||| (1 <<< 48 : BitVec 64) ||| ch.setWidth 64) &&&
      0x0000FFFFFFFFFFFF).setWidth 8 = ch := by
    apply BitVec.eq_of_toNat_eq
    rw [BitVec.toNat_setWidth, toNat_and_mask _ 0x0000FFFFFFFFFFFF 48 rfl, hw]
    omega
  unfold Fpga.htifTohost Fpga.consolePutchar
  simp only [hf 56 (.inr rfl), hf 48 (.inl rfl), and_self, if_true, hp]

theorem sifiveTest_fail (code : BitVec 16) :
    f.sifiveTest exitCodeReset ((code.setWidth 64 <<< 16) ||| 0x3333) =
      f.stopIo (code.setWidth 32) := by
  have hc := code.isLt
  have hw : ((code.setWidth 64 <<< 16) ||| 0x3333).toNat = code.toNat * 2 ^ 16 + 0x3333 := by
    rw [toNat_shiftLeft_or (by rw [BitVec.toNat_setWidth]; omega) (by decide),
      BitVec.toNat_setWidth, Nat.mod_eq_of_lt (by omega)]
    rfl
  have hs : (((code.setWidth 64 <<< 16) ||| 0x3333) &&& 0xFFFF).setWidth 32 = 0x3333 := by
    apply BitVec.eq_of_toNat_eq
    rw [BitVec.toNat_setWidth, toNat_and_mask _ 0xFFFF 16 rfl, hw]
    simp
    omega
  have hcode : ((((code.setWidth 64 <<< 16) ||| 0x3333) >>> 16) &&& 0xFFFF).setWidth 32 =
      code.setWidth 32 :=
    BitVec.eq_of_toNat_eq (by
      rw [toNat_field _ 0xFFFF 16 16 32 rfl, hw, BitVec.toNat_setWidth]
      omega)
  unfold Fpga.sifiveTest
  simp only [hs, hcode, if_true]

theorem sifiveTest_pass : f.sifiveTest exitCodeReset 0x5555 = f.stopIo 0 := rfl

theorem sifiveTest_reset : f.sifiveTest exitCodeReset 0x7777 = f.stopIo exitCodeReset := rfl

-- At an address no range holds, the guest's commands do what their encodings say. To `tohost`,
-- `(code << 1) | 1` ends the run with `code` (a failure with code 0 ends it as a pass does) and
-- `(1 << 56) | (1 << 48) | ch` prints `ch`. To the test finisher, `(code << 16) | 0x3333` ends
-- the run with `code`, `0x5555` with 0 and `0x7777` with `EXIT_CODE_RESET`.
theorem htif_and_test_finisher_commands {waddr : BitVec 32}
    (hn : ∀ pr ∈ f.bus.ranges, ¬pr.Contains (waddr.setWidth 64)) :
    (waddr.setWidth 64 = f.tohostAddr →
      (∀ code : BitVec 32, emulatedMmioRespond exitCodeReset f
        (.write waddr ((code.setWidth 64 <<< 1) ||| 1)) = .ok (f.stopIo code, none)) ∧
      ∀ ch : BitVec 8, emulatedMmioRespond exitCodeReset f
        (.write waddr ((1 <<< 56 : BitVec 64) ||| (1 <<< 48 : BitVec 64) ||| ch.setWidth 64)) =
          .ok ({ f with stdout := f.stdout ++ [ch] }, none)) ∧
    (waddr.setWidth 64 = f.sifiveTestAddr → waddr.setWidth 64 ≠ f.tohostAddr →
      waddr.setWidth 64 ≠ f.fromhostAddr →
      (∀ code : BitVec 16, emulatedMmioRespond exitCodeReset f
        (.write waddr ((code.setWidth 64 <<< 16) ||| 0x3333)) =
          .ok (f.stopIo (code.setWidth 32), none)) ∧
      emulatedMmioRespond exitCodeReset f (.write waddr 0x5555) = .ok (f.stopIo 0, none) ∧
      emulatedMmioRespond exitCodeReset f (.write waddr 0x7777) =
        .ok (f.stopIo exitCodeReset, none)) :=
  ⟨fun ht => ⟨fun code => by rw [emulatedMmioRespond_tohost hn ht, htifTohost_exit],
      fun ch => by rw [emulatedMmioRespond_tohost hn ht, htifTohost_putchar]⟩,
    fun hs ht hf =>
      ⟨fun code => by rw [emulatedMmioRespond_sifiveTest hn hs ht hf, sifiveTest_fail],
      by rw [emulatedMmioRespond_sifiveTest hn hs ht hf, sifiveTest_pass],
      by rw [emulatedMmioRespond_sifiveTest hn hs ht hf, sifiveTest_reset]⟩⟩

theorem htif_exit_and_test_pass_on_default_addresses :
    let f : Fpga Unit := Fpga.init () ⟨[], by decide, .nil⟩ ⟨0x1000, 0x2000, []⟩
    emulatedMmioRespond 0 f (.write 0x10001000 (((3 : BitVec 32).setWidth 64 <<< 1) ||| 1)) =
        .ok (f.stopIo 3, none) ∧
      emulatedMmioRespond 0 f (.write 0x10001000
        ((1 <<< 56 : BitVec 64) ||| (1 <<< 48 : BitVec 64) ||| (0x41 : BitVec 8).setWidth 64)) =
        .ok ({ f with stdout := f.stdout ++ [0x41] }, none) ∧
      emulatedMmioRespond 0 f
        (.write 0x50000000 (((7 : BitVec 16).setWidth 64 <<< 16) ||| 0x3333)) =
        .ok (f.stopIo ((7 : BitVec 16).setWidth 32), none) ∧
      emulatedMmioRespond 0 f (.write 0x50000000 0x5555) = .ok (f.stopIo 0, none) :=
  ⟨((htif_and_test_finisher_commands fun _ h => absurd h (List.not_mem_nil _)).1
      (by decide)).1 3,
    ((htif_and_test_finisher_commands fun _ h => absurd h (List.not_mem_nil _)).1
      (by decide)).2 0x41,
    ((htif_and_test_finisher_commands fun _ h => absurd h (List.not_mem_nil _)).2
      (by decide) (by decide) (by decide)).1 7,
    ((htif_and_test_finisher_commands fun _ h => absurd h (List.not_mem_nil _)).2
      (by decide) (by decide) (by decide)).2.1⟩

/-! ## Runs -/

-- Over any run of the FPGA side, whatever the order of the dispatcher's requests, the devices'
-- steps and the pump's pushes, the bytes the guest receives from `fromhost` reads, followed by
-- the queue left, are the queue at the start followed by every byte pushed: none is lost, none
-- read twice, none out of order. A read of `fromhost` with HTIF on answers 0 only when the queue
-- is empty.
theorem stdin_bytes_reach_guest_in_order :
    (∀ (DevStep : β → β → Prop) (f f' : Fpga β) (es : List FpgaEvent),
      FpgaRun exitCodeReset DevStep f es f' →
      es.flatMap f.takenBy ++ f'.stdinQueue = f.stdinQueue ++ es.flatMap FpgaEvent.pushed) ∧
    (∀ (f f' : Fpga β) (araddr : BitVec 32) (r : Option (BitVec 64)), f.ServesFromhost araddr →
      f.htifEnabled = true → f.stdinQueue ≠ [] →
      emulatedMmioRespond exitCodeReset f (.read araddr) = .ok (f', r) →
      ∃ ch, f.stdinQueue = ch :: f'.stdinQueue ∧ r = some (Fpga.stdinPacket ch)) := by
  refine ⟨fun _ f f' es h => ?_, fun f f' araddr r ha hh hq h => ?_⟩
  · induction h with
    | nil f => simp
    | @cons f f₁ f₂ e es hs _ ih =>
      rw [List.flatMap_cons, List.flatMap_cons, ← hs.wiring.takenBy_eq]
      calc f₁.takenBy e ++ es.flatMap f₁.takenBy ++ f₂.stdinQueue
          = f₁.takenBy e ++ (f₁.stdinQueue ++ es.flatMap FpgaEvent.pushed) := by
            rw [List.append_assoc, ih]
        _ = f.stdinQueue ++ (e.pushed ++ es.flatMap FpgaEvent.pushed) := by
            rw [hs.wiring.takenBy_eq, ← List.append_assoc, hs.takenBy_append, List.append_assoc]
  · rcases emulatedMmioRespond_stdin h with ⟨_, ch, hr, -, -, hq', hr'⟩ | ⟨-, hz⟩
    · cases hr
      exact ⟨ch, hq', hr'⟩
    · exact ((hz araddr rfl ha).2.elim (fun h' => by simp [hh] at h') hq).elim

theorem stdin_byte_read_by_guest :
    let f : Fpga Unit :=
      { Fpga.init () ⟨[], by decide, .nil⟩ ⟨0x1000, 0x2000, []⟩ with htifEnabled := true }
    ∃ f', FpgaRun 0 (fun _ _ => False) f
        [.stdin [0x41], .respond (.read 0x10001008) (some (Fpga.stdinPacket 0x41))] f' ∧
      [FpgaEvent.stdin [0x41], .respond (.read 0x10001008) (some (Fpga.stdinPacket 0x41))].flatMap
          f.takenBy ++ f'.stdinQueue = f.stdinQueue ++
        [FpgaEvent.stdin [0x41], .respond (.read 0x10001008) (some (Fpga.stdinPacket 0x41))].flatMap
          FpgaEvent.pushed ∧
      ((f.pushStdin [0x41]).ServesFromhost 0x10001008 ∧ (f.pushStdin [0x41]).htifEnabled = true ∧
        (f.pushStdin [0x41]).stdinQueue ≠ [] ∧
        emulatedMmioRespond 0 (f.pushStdin [0x41]) (.read 0x10001008) =
          .ok (f', some (Fpga.stdinPacket 0x41)) ∧
        ∃ ch, (f.pushStdin [0x41]).stdinQueue = ch :: f'.stdinQueue ∧
          some (Fpga.stdinPacket 0x41) = some (Fpga.stdinPacket ch)) := by
  intro f
  have hr : emulatedMmioRespond 0 (f.pushStdin [0x41]) (.read 0x10001008) =
      .ok ({ f with stdinQueue := [] }, some (Fpga.stdinPacket 0x41)) := rfl
  have hrun : FpgaRun 0 (fun _ _ => False) f
      [.stdin [0x41], .respond (.read 0x10001008) (some (Fpga.stdinPacket 0x41))]
      { f with stdinQueue := [] } := .cons (.stdin f [0x41]) (.cons (.respond hr) (.nil _))
  have hs : (f.pushStdin [0x41]).ServesFromhost 0x10001008 := by decide
  exact ⟨_, hrun, stdin_bytes_reach_guest_in_order.1 _ _ _ _ hrun, hs, rfl, by decide, hr,
    stdin_bytes_reach_guest_in_order.2 _ _ _ _ hs rfl (by decide) hr⟩

-- The devices behind a bus of virtio MMIO ranges stay, over any run of the FPGA side, machines
-- their own models reach: what is proved of every reachable machine of a device holds of the
-- device the guest drives through the dispatcher.
theorem dispatcher_devices_stay_reachable {k : Nat} {σs : Fin k → Type}
    (Ds : (i : Fin k) → DeviceModel (σs i)) (f f' : Fpga (Bank σs)) (es : List FpgaEvent)
    (hbus : VirtioBus f.bus) (h : FpgaRun exitCodeReset (BankStep Ds) f es f')
    (hm : ∀ i, Reachable (Ds i) (f.devices i)) : ∀ i, Reachable (Ds i) (f'.devices i) := by
  induction h with
  | nil => exact hm
  | cons hs _ ih => exact ih (hs.wiring.bus ▸ hbus) (hs.reachable hbus hm)

theorem console_behind_dispatcher_reachable :
    let f : Fpga (Bank fun _ : Fin 1 => ConsoleState) :=
      Fpga.init (fun _ => ⟨consoleModel.dev, fun _ => 0, [], consoleModel.ext⟩)
        ⟨[virtioMmioRange 0 0x40010000 0x1000], by decide, List.pairwise_singleton _ _⟩
        ⟨0x1000, 0x2000, []⟩
    ∃ f', FpgaRun 0 (BankStep fun _ => consoleModel) f [.respond (.write 0x40010030 1) none] f' ∧
      ∀ i, Reachable consoleModel (f'.devices i) := by
  intro f
  have hr : ∃ f', emulatedMmioRespond 0 f (.write 0x40010030 1) = .ok (f', none) := ⟨_, rfl⟩
  obtain ⟨f', hr⟩ := hr
  have hrun : FpgaRun 0 (BankStep fun _ => consoleModel) f [.respond (.write 0x40010030 1) none] f' :=
    .cons (.respond hr) (.nil _)
  exact ⟨f', hrun, dispatcher_devices_stay_reachable _ f f' _
    (fun _ hpr => ⟨0, 0x40010000, 0x1000, List.mem_singleton.1 hpr⟩) hrun fun _ => .init _⟩

end Virtio
