import TinyEmuVirtio.Execution.Buffers
import TinyEmuVirtio.Objects.Devices.Console

namespace Virtio

/-! What a driver programs through the MMIO registers -/

-- The mask of the low half, as `setHigh32` writes it and as `setLow32` complements it.
theorem natCast_mask32 : ((0xffffffff : Nat) : BitVec 64) = 0xffffffff := rfl

theorem getLsbD_mask32 (j : Nat) : (0xffffffff : BitVec 64).getLsbD j = decide (j < 32) := by
  rw [show (0xffffffff : BitVec 64) = BitVec.ofNat 64 (2 ^ 32 - 1) from rfl, BitVec.getLsbD_ofNat,
    Nat.testBit_two_pow_sub_one]
  by_cases h : j < 32 <;> simp [h]; omega

theorem setHigh32_setLow32 (a d : BitVec 64) :
    setHigh32 (setLow32 a (d.setWidth 32)) ((d >>> 32).setWidth 32) = d := by
  ext i
  simp only [setHigh32, setLow32, BitVec.getLsbD_or, BitVec.getLsbD_and, BitVec.getLsbD_not,
    BitVec.getLsbD_setWidth, BitVec.getLsbD_shiftLeft, BitVec.getLsbD_ushiftRight, natCast_mask32,
    getLsbD_mask32]
  by_cases h : (i : Nat) < 32
  · simp [h]
  · have h1 : (i : Nat) - 32 < 32 := by omega
    have h2 : 32 + ((i : Nat) - 32) = i := by omega
    simp [h, h1, h2, Nat.lt_of_lt_of_le h1 (by decide : 32 ≤ 64)]

-- Word-sized writes to the MMIO registers, one after another.
def mmioWrites (s : VirtioDevice) : List (BitVec 32 × BitVec 32) → Except Fault VirtioDevice
  | [] => .ok s
  | (offset, val) :: ws => do mmioWrites (← virtioMmioWrite s offset val 2) ws

-- How a driver sets up queue `q`: it selects it, writes its size, the low and then the high half
-- of each of its three addresses, and makes it ready.
def mmioQueueSetup (q : Fin maxQueue) (num : BitVec 32) (desc avail used : BitVec 64) :
    List (BitVec 32 × BitVec 32) :=
  [(0x030, BitVec.ofNat 32 q), (0x038, num),
   (0x080, desc.setWidth 32), (0x084, (desc >>> 32).setWidth 32),
   (0x090, avail.setWidth 32), (0x094, (avail >>> 32).setWidth 32),
   (0x0a0, used.setWidth 32), (0x0a4, (used >>> 32).setWidth 32), (0x044, 1)]

theorem mmioWrites_cons {s s' : VirtioDevice} {o v : BitVec 32}
    (ws : List (BitVec 32 × BitVec 32)) (h : virtioMmioWrite s o v 2 = .ok s') :
    mmioWrites s ((o, v) :: ws) = mmioWrites s' ws := by
  rw [mmioWrites, h]
  rfl

theorem toNat_ofNat_fin (q : Fin maxQueue) : (BitVec.ofNat 32 q.val).toNat = q := by
  have := q.isLt
  rw [BitVec.toNat_ofNat, Nat.mod_eq_of_lt (by simp only [maxQueue] at this; omega)]

namespace VirtioDevice

theorem updateQueue_updateQueue (s : VirtioDevice) (i : Fin maxQueue)
    (f g : QueueState → QueueState) :
    (s.updateQueue i f).updateQueue i g = s.updateQueue i (g ∘ f) := by
  simp [updateQueue]

theorem updateQueue_id (s : VirtioDevice) (i : Fin maxQueue) :
    s.updateQueue i (fun qs => qs) = s := by
  simp [updateQueue]

theorem updateSelQueue_of_queueSel {s : VirtioDevice} {q : Fin maxQueue}
    (h : s.queueSel = BitVec.ofNat 32 q) (f : QueueState → QueueState) :
    s.updateSelQueue f = .ok (s.updateQueue q f) := by
  simp only [updateSelQueue, selQueue, h, toNat_ofNat_fin, q.isLt, dif_pos]
  rfl

end VirtioDevice

open VirtioDevice

-- A write to a register of the selected queue, with queue `q` selected.
theorem mmioWrites_selQueue {t : VirtioDevice} {q : Fin maxQueue} {o v : BitVec 32}
    {f : QueueState → QueueState} (h : t.queueSel = BitVec.ofNat 32 q)
    (hw : virtioMmioWrite t o v 2 = t.updateSelQueue f) (ws : List (BitVec 32 × BitVec 32)) :
    mmioWrites t ((o, v) :: ws) = mmioWrites (t.updateQueue q f) ws :=
  mmioWrites_cons ws (hw.trans (updateSelQueue_of_queueSel h f))

-- From any state of the device, the setup sequence selects `q` and programs exactly its size (where
-- a power of two), its three addresses and `ready`: every other queue and register keeps its value.
theorem mmioWrites_queueSetup (s : VirtioDevice) (q : Fin maxQueue) (num : BitVec 32)
    (desc avail used : BitVec 64) :
    mmioWrites s (mmioQueueSetup q num desc avail used) =
      .ok (({ s with queueSel := BitVec.ofNat 32 q }).updateQueue q fun qs =>
        { qs with num := if isPow2 num then num else qs.num, descAddr := desc,
                  availAddr := avail, usedAddr := used, ready := 1 }) := by
  have hsel : virtioMmioWrite s 0x030 (BitVec.ofNat 32 q) 2 =
      .ok { s with queueSel := BitVec.ofNat 32 q } := by
    show Except.ok (writeQueueSel s _) = _
    rw [writeQueueSel, if_pos (by rw [toNat_ofNat_fin]; exact q.isLt)]
  have hnum : virtioMmioWrite { s with queueSel := BitVec.ofNat 32 q } 0x038 num 2 =
      .ok (({ s with queueSel := BitVec.ofNat 32 q }).updateQueue q
        fun qs => { qs with num := if isPow2 num then num else qs.num }) := by
    show writeQueueNum _ num = _
    by_cases hp : isPow2 num
    · simp only [writeQueueNum, hp, if_true]
      exact updateSelQueue_of_queueSel rfl _
    · simp only [writeQueueNum, hp, Bool.false_eq_true, if_false, updateQueue_id]
      rfl
  rw [mmioQueueSetup, mmioWrites_cons _ hsel, mmioWrites_cons _ hnum]
  iterate 7
    apply Eq.trans (mmioWrites_selQueue (q := q) rfl ?_ _)
    on_goal 3 => rfl
  rw [mmioWrites]
  simp only [updateQueue_updateQueue]
  congr 2
  funext qs
  simp only [Function.comp_apply, setHigh32_setLow32]
  rfl

/-! The configuration space through the MMIO window -/

-- Bytes stored at `o` read back from `o` on.
theorem map_range_putBytes (f : Nat → BitVec 8) (o : Nat) (bs : List (BitVec 8)) :
    (List.range bs.length).map (fun i => putBytes f o bs (o + i)) = bs := by
  apply List.ext_getElem (by simp)
  intro i h1 h2
  simp [putBytes, List.getD_eq_getElem?_getD, List.getElem?_eq_getElem h2]

theorem virtioConfigWrite_eq {s : VirtioDevice} {o val : BitVec 32} {k : Nat} (hk : k ≤ 2) :
    virtioConfigWrite s o val k = configWriteAt s o val (2 ^ k) := by
  obtain rfl | rfl | rfl : k = 0 ∨ k = 1 ∨ k = 2 := by omega
  all_goals rfl

theorem virtioConfigRead_eq {s : VirtioDevice} {o : BitVec 32} {k : Nat} (hk : k ≤ 2) :
    virtioConfigRead s o k = configReadAt s o (2 ^ k) := by
  obtain rfl | rfl | rfl : k = 0 ∨ k = 1 ∨ k = 2 := by omega
  all_goals rfl

theorem configFits_iff_toNat {s : VirtioDevice} {offset : BitVec 32} {n : Nat} (hn : n - 1 < 2 ^ 32) :
    configFits s offset n = true ↔
      offset.toNat < (2 ^ 32 - (n - 1) + s.configSpaceSize.toNat) % 2 ^ 32 := by
  simp only [configFits, decide_eq_true_eq, BitVec.lt_def, BitVec.toNat_sub, BitVec.toNat_ofNat,
    Nat.mod_eq_of_lt hn]

-- Where the size is at least `n - 1` the test is the one intended: the access lies inside the
-- configuration space.
theorem configFits_iff {s : VirtioDevice} {offset : BitVec 32} {n : Nat} (hn : 0 < n)
    (hs : n - 1 ≤ s.configSpaceSize.toNat) :
    configFits s offset n = true ↔ offset.toNat + n ≤ s.configSpaceSize.toNat := by
  have := s.configSpaceSize.isLt
  rw [configFits_iff_toNat (by omega)]
  omega

-- Below that, `config_space_size - (n - 1)` wraps, and every offset below nearly 2^32 passes.
theorem configFits_of_lt {s : VirtioDevice} {offset : BitVec 32} {n : Nat} (hn : n ≤ 4)
    (hs : s.configSpaceSize.toNat < n - 1) :
    configFits s offset n = true ↔ offset.toNat < 2 ^ 32 - (n - 1) + s.configSpaceSize.toNat := by
  rw [configFits_iff_toNat (by omega)]
  omega

-- The size test of `virtio_config_read` and `virtio_config_write` for an access of `n` bytes, at
-- most 4: where `config_space_size` is at least `n - 1` it lets through exactly the accesses inside
-- the configuration space; below that it lets through every offset below
-- `2^32 - (n - 1) + config_space_size`.
theorem configFits_exact_or_wraps (s : VirtioDevice) (offset : BitVec 32) (n : Nat) (hn : 0 < n)
    (hn4 : n ≤ 4) :
    (n - 1 ≤ s.configSpaceSize.toNat →
      (configFits s offset n = true ↔ offset.toNat + n ≤ s.configSpaceSize.toNat)) ∧
    (s.configSpaceSize.toNat < n - 1 →
      (configFits s offset n = true ↔ offset.toNat < 2 ^ 32 - (n - 1) + s.configSpaceSize.toNat)) :=
  ⟨configFits_iff hn, configFits_of_lt hn4⟩

-- The 9P device with an empty mount tag has a configuration space of 2 bytes; a word at offset
-- 0x100, far past it, passes the test.
theorem ninep_empty_tag_word_passes :
    ∃ s, virtio9pInit [] = .ok s ∧ configFits s 0x100 4 = true :=
  ⟨_, rfl, ((configFits_exact_or_wraps _ 0x100 4 (by decide) (by decide)).2 (by decide)).2
    (by decide)⟩

section Config

variable {s : VirtioDevice} {o val : BitVec 32} {n : Nat}

theorem configWriteAt_put (hcw : s.configWrite = none) (hfit : configFits s o n = true)
    (hmax : o.toNat + n ≤ maxConfigSpaceSize) :
    configWriteAt s o val n =
      .ok { s with configSpace := putBytes s.configSpace o.toNat (toLe val.toNat n) } := by
  simp only [configWriteAt, hfit, if_true, VirtioDevice.configPut, hmax]
  simp [VirtioDevice.callConfigWrite, hcw]

theorem configReadAt_get (hfit : configFits s o n = true)
    (hmax : o.toNat + n ≤ maxConfigSpaceSize) :
    configReadAt { s with configSpace := putBytes s.configSpace o.toNat (toLe val.toNat n) } o n =
      .ok (BitVec.ofNat 32 (val.toNat % 256 ^ n)) := by
  have h := map_range_putBytes s.configSpace o.toNat (toLe val.toNat n)
  rw [length_toLe] at h
  simp only [configReadAt, configFits] at hfit ⊢
  simp only [hfit, if_true, VirtioDevice.configGet, hmax, h, fromLe_toLe]

end Config

-- A byte, half word or word written to the configuration space through the MMIO window of a device
-- with no `config_write` callback changes those bytes only, and reads back at the same offset and
-- size, cut to its size.
theorem mmioConfig_round_trip (s : VirtioDevice) (hcw : s.configWrite = none) (o val : BitVec 32)
    (k : Nat) (hk : k ≤ 2) (hfit : configFits s o (2 ^ k) = true)
    (hmax : o.toNat + 2 ^ k ≤ maxConfigSpaceSize) :
    let s' := { s with configSpace := putBytes s.configSpace o.toNat (toLe val.toNat (2 ^ k)) }
    virtioMmioWrite s (0x100 + o) val k = .ok s' ∧
      virtioMmioRead s' (0x100 + o) k = .ok (BitVec.ofNat 32 (val.toNat % 256 ^ 2 ^ k)) := by
  intro s'
  have ho : o.toNat < 256 := by
    have := Nat.one_le_two_pow (n := k); simp only [maxConfigSpaceSize] at hmax; omega
  have hle : virtioMmioConfig ≤ 0x100 + o := by unfold virtioMmioConfig; bv_omega
  have hsub : 0x100 + o - virtioMmioConfig = o := by
    unfold virtioMmioConfig; rw [BitVec.add_comm, BitVec.add_sub_cancel]
  simp only [virtioMmioWrite, virtioMmioRead, if_pos hle, hsub, virtioConfigWrite_eq hk,
    virtioConfigRead_eq hk]
  exact ⟨configWriteAt_put hcw hfit hmax, configReadAt_get hfit hmax⟩

-- The console's configuration space: a half word written at offset 2 reads back.
theorem console_config_rows_read_back :
    let s' := { virtioConsoleInit with
      configSpace := putBytes virtioConsoleInit.configSpace 2 (toLe 0x1234 2) }
    virtioMmioWrite virtioConsoleInit 0x102 0x1234 1 = .ok s' ∧
      virtioMmioRead s' 0x102 1 = .ok 0x1234 :=
  mmioConfig_round_trip virtioConsoleInit rfl 2 0x1234 1 (by decide) (by decide) (by decide)

-- The entropy device has no configuration space: `config_space_size - 1` wraps to 0xffffffff, and
-- a half word at offset 0 is stored and read back.
theorem entropy_config_write_past_size :
    virtioEntropyInit.configSpaceSize = 0 ∧
      ∃ s, virtioMmioWrite virtioEntropyInit 0x100 0xffff 1 = .ok s ∧
        virtioMmioRead s 0x100 1 = .ok 0xffff := by
  have hfit : configFits virtioEntropyInit 0 2 = true :=
    (configFits_of_lt (by decide) (by decide)).2 (by decide)
  exact ⟨rfl, _, configWriteAt_put rfl hfit (by decide), configReadAt_get hfit (by decide)⟩

end Virtio
