import TinyEmuVirtio.Execution.Transfer
import TinyEmuVirtio.Objects.Devices.Net
import TinyEmuVirtio.Objects.Devices.Console

namespace Virtio

variable {fuel : Nat} {ds : List VirtioDesc} {i : BitVec 16}

/-! The network device -/

section Net

variable {buf : List (BitVec 8)} {len : BitVec 32}

-- `virtio_net_write_packet` on the next available chain of the receive queue: where the chain
-- is accepted and its writable part has room for the header and the packet, it stores a zero
-- header and the packet there, completes the chain with their length and moves on; otherwise it
-- drops the packet.
theorem virtioNetWritePacket_chain (m : Machine NetState) (hready : (m.dev.queue 0).ready ≠ 0)
    (havail : (m.dev.queue 0).lastAvailIdx ≠ (m.dev.queue 0).availIdx)
    (h : IsChain m.ram (m.dev.queue 0).descAddr
      (availHeadAt m.ram (m.dev.queue 0) (m.dev.queue 0).lastAvailIdx) ds)
    (hfuel : ds.length < fuel) (hlen : ∀ d ∈ ds, d.len.toNat < 2 ^ 31) (htot : bufLen ds < 2 ^ 31)
    (hsep : Separated (m.dev.queue 0).descAddr
      (availHeadAt m.ram (m.dev.queue 0) (m.dev.queue 0).lastAvailIdx) ds (afterSegment false ds))
    (hsize : m.ext.headerSize.toNat + len.toNat < 2 ^ 31) (hb : len.toNat ≤ buf.length) :
    ∃ tr, (virtioNetWritePacket fuel buf len).run m =
      if (afterSegment false ds).all (·.isWrite) ∧
          m.ext.headerSize.toNat + len.toNat ≤ bufLen (afterSegment false ds) then
        (virtioConsumeDesc 0 (availHeadAt m.ram (m.dev.queue 0) (m.dev.queue 0).lastAvailIdx)
          (m.ext.headerSize + len) >>= fun _ => incLastAvailIdx 0).run { m with
            ram := storeBytes (bufAddr (afterSegment false ds)) 0
              (List.replicate m.ext.headerSize.toNat 0 ++ buf.take len.toNat) m.ram
            trace := tr }
      else .ok ((), { m with trace := tr }) := by
  have hsplit := congrArg bufLen (segment_append_afterSegment false ds)
  rw [bufLen_append] at hsplit
  obtain ⟨tr1, hrw⟩ := getDescRwSize_chain
    { m with trace := .read 0 .avail (availSlotAddr (m.dev.queue 0) (m.dev.queue 0).lastAvailIdx) 2 ::
      m.trace } h hfuel
  simp only [virtioNetWritePacket]
  rw [getQueue_bind_run, if_neg hready, if_neg havail]
  simp only [pure_bind]
  rw [nextAvailDesc_bind_run, bind_run_ok hrw]
  by_cases hall : (afterSegment false ds).all (·.isWrite)
  swap
  · exact ⟨tr1, by simp only [hall, if_false, false_and, Bool.false_eq_true]; rfl⟩
  rw [if_pos hall]
  dsimp only
  rw [getExt_bind_run]
  have hW : (BitVec.ofNat 32 (bufLen (afterSegment false ds))).toNat = bufLen (afterSegment false ds) := by
    simp only [BitVec.toNat_ofNat]; omega
  have hL : (m.ext.headerSize + len).toNat = m.ext.headerSize.toNat + len.toNat := by
    rw [BitVec.toNat_add]; omega
  rw [slt_eq_decide (by rw [hW]; omega) (by rw [hL]; omega), hW, hL]
  by_cases hfit : m.ext.headerSize.toNat + len.toNat ≤ bufLen (afterSegment false ds)
  swap
  · exact ⟨tr1, by rw [if_pos (decide_eq_true (Nat.lt_of_not_le hfit)), if_neg fun h' => hfit h'.2]; rfl⟩
  -- the zero header, then the packet after it
  obtain ⟨tr2, h1⟩ := @memcpyToQueue_store _ fuel 0 _ _ 0 m.ext.headerSize
    (List.replicate m.ext.headerSize.toNat 0) { m with trace := tr1 } h hfuel hlen hall hsep
    (by omega) (by simp) (by simp; omega)
  obtain ⟨tr3, h2⟩ := @memcpyToQueue_store _ fuel 0 _ _ m.ext.headerSize len buf
    { m with ram := (storeBytes (bufAddr (afterSegment false ds)) 0
      (List.replicate m.ext.headerSize.toNat 0) m.ram), trace := tr2 }
    (h.storeBytes hsep (by simp; omega)) hfuel hlen hall hsep (by omega) hb hfit
  simp only [show (0 : BitVec 32).toNat = 0 from rfl, List.take_replicate, min_self] at h1
  refine ⟨tr3, ?_⟩
  rw [if_pos (And.intro hall hfit), if_neg (by simpa using hfit)]
  dsimp only
  rw [bind_run_ok h1, bind_run_ok h2, storeBytes_append, List.length_replicate, Nat.zero_add]

-- Receive queue 0 with its table at 0 and one chain posted: descriptor 0, writable, of 14 bytes at
-- 0x300. A packet of 2 bytes fills it with the 12-byte header.
theorem net_rx_fills_writable_chain :
    let m : Machine NetState := ⟨(virtioNetInit [1, 2, 3, 4, 5, 6]).updateQueue 0
        ({ · with ready := 1, num := 4, availAddr := 0x100, usedAddr := 0x200, availIdx := 1 }),
      writeRam (fun _ => 0) 0 [0, 3, 0, 0, 0, 0, 0, 0, 14, 0, 0, 0, 2, 0, 0, 0], [], NetState.init⟩
    ∃ tr, (virtioNetWritePacket 2 [7, 9] 2).run m =
      (virtioConsumeDesc 0 0 14 >>= fun _ => incLastAvailIdx 0).run { m with
        ram := storeBytes (bufAddr [⟨0x300, 14, 2, 0⟩]) 0 (List.replicate 12 0 ++ [7, 9]) m.ram
        trace := tr } := by
  intro m
  have hhead : availHeadAt m.ram (m.dev.queue 0) (m.dev.queue 0).lastAvailIdx = 0 := by decide
  have hchain : IsChain m.ram (m.dev.queue 0).descAddr
      (availHeadAt m.ram (m.dev.queue 0) (m.dev.queue 0).lastAvailIdx) [⟨0x300, 14, 2, 0⟩] := by
    rw [hhead]; exact .single (by decide) rfl
  have hsep : Separated (m.dev.queue 0).descAddr
      (availHeadAt m.ram (m.dev.queue 0) (m.dev.queue 0).lastAvailIdx) [⟨0x300, 14, 2, 0⟩]
      (afterSegment false [⟨0x300, 14, 2, 0⟩]) := by
    rw [hhead]; unfold Separated; decide
  obtain ⟨tr, h⟩ := @virtioNetWritePacket_chain 2 _ [7, 9] 2 m (by decide) (by decide) hchain
    (by decide) (by decide) (by decide) hsep (by decide) (by decide)
  rw [if_pos (by decide), hhead, show m.ext.headerSize + 2 = 14 from rfl,
    show afterSegment false [⟨0x300, 14, 2, 0⟩] = [⟨0x300, 14, 2, 0⟩] from rfl] at h
  exact ⟨tr, h⟩

-- `virtio_net_recv_request` on a chain of the transmit queue 1, with the read size
-- `get_desc_rw_size` gives it: where the readable part holds the header, the backend is handed
-- the bytes after it and the chain is completed with length 0; where it does not, nothing is
-- sent and the chain is never completed.
theorem virtioNetRecvRequest_chain {ws : BitVec 32} (m : Machine NetState)
    (h : IsChain m.ram (m.dev.queue 1).descAddr i ds) (hfuel : ds.length < fuel)
    (hlen : ∀ d ∈ ds, d.len.toNat < 2 ^ 31) (htot : bufLen ds < 2 ^ 31)
    (hh : m.ext.headerSize.toNat < 2 ^ 31) :
    ∃ tr, (virtioNetRecvRequest fuel 1 i (BitVec.ofNat 32 (bufLen (segment false ds))) ws).run m =
      if m.ext.headerSize.toNat ≤ bufLen (segment false ds) then
        (virtioConsumeDesc 1 i 0 >>= fun _ => pure 0).run { m with
          ext := { m.ext with
            sent := (bufBytes m.ram (segment false ds)).drop m.ext.headerSize.toNat :: m.ext.sent }
          trace := tr }
      else .ok (0, { m with trace := tr }) := by
  have hsplit := congrArg bufLen (segment_append_afterSegment false ds)
  rw [bufLen_append] at hsplit
  simp only [virtioNetRecvRequest]
  rw [if_pos (show (1 : Fin maxQueue).val = 1 from rfl), getExt_bind_run]
  have hR : (BitVec.ofNat 32 (bufLen (segment false ds))).toNat = bufLen (segment false ds) := by
    simp only [BitVec.toNat_ofNat]; omega
  by_cases hfit : m.ext.headerSize.toNat ≤ bufLen (segment false ds)
  · obtain ⟨tr1, h1⟩ := @memcpyFromQueue_read _ fuel 1 i ds 0 m.ext.headerSize m h hfuel hlen hh
      (by simpa using hfit)
    have hL : (BitVec.ofNat 32 (bufLen (segment false ds)) - m.ext.headerSize).toNat =
        bufLen (segment false ds) - m.ext.headerSize.toNat := by
      rw [BitVec.toNat_sub_of_le (by rw [BitVec.le_def, hR]; exact hfit), hR]
    obtain ⟨tr2, h2⟩ := @memcpyFromQueue_read _ fuel 1 i ds m.ext.headerSize
      (BitVec.ofNat 32 (bufLen (segment false ds)) - m.ext.headerSize) { m with trace := tr1 } h
      hfuel hlen (by omega) (by omega)
    refine ⟨tr2, ?_⟩
    rw [bind_run_ok h1]
    simp only [lt_irrefl, if_false, pure_bind]
    rw [mallocSize_of_lt (by omega), liftExcept_ok_bind_run, bind_run_ok h2, if_pos hfit]
    have hd : ((bufBytes m.ram (segment false ds)).drop m.ext.headerSize.toNat).take
        (bufLen (segment false ds) - m.ext.headerSize.toNat) =
        (bufBytes m.ram (segment false ds)).drop m.ext.headerSize.toNat :=
      List.take_of_length_le (by rw [List.length_drop, length_bufBytes])
    dsimp only
    rw [hL, hd]
    rfl
  · obtain ⟨bs, tr1, h1⟩ := @memcpyFromQueue_short _ fuel 1 i ds 0 m.ext.headerSize m h hfuel hlen
      (by omega) hh (by simpa using hfit)
    refine ⟨tr1, ?_⟩
    rw [bind_run_ok h1, if_neg hfit]
    rfl

-- Transmit queue 1 with its table at 0: descriptor 0, readable, of 14 bytes at 0x300, the last two
-- 0xab and 0xcd. The backend is handed these two.
theorem net_tx_sends_bytes_after_header :
    let m : Machine NetState := ⟨virtioNetInit [1, 2, 3, 4, 5, 6],
      writeRam (writeRam (fun _ => 0) 0 [0, 3, 0, 0, 0, 0, 0, 0, 14, 0, 0, 0, 0, 0, 0, 0]) 0x30c
        [0xab, 0xcd], [], NetState.init⟩
    ∃ tr, (virtioNetRecvRequest 2 1 0 14 0).run m =
      (virtioConsumeDesc 1 0 0 >>= fun _ => pure 0).run { m with
        ext := ⟨12, [[0xab, 0xcd]]⟩
        trace := tr } := by
  intro m
  obtain ⟨tr, h⟩ := @virtioNetRecvRequest_chain 2 [⟨0x300, 14, 0, 0⟩] 0 0 m
    (.single (by decide) rfl) (by decide) (by decide) (by decide) (by decide)
  rw [if_pos (by decide)] at h
  exact ⟨tr, h⟩

end Net

/-! The console -/

section Console

-- `virtio_console_recv_request` on a chain of the transmit queue 1 hands the backend the first
-- `read_size` bytes of its readable part, and completes the chain with length 0.
theorem virtioConsoleRecvRequest_chain {rs ws : BitVec 32} (m : Machine ConsoleState)
    (h : IsChain m.ram (m.dev.queue 1).descAddr i ds) (hfuel : ds.length < fuel)
    (hlen : ∀ d ∈ ds, d.len.toNat < 2 ^ 31) (hrs : rs.toNat ≤ bufLen (segment false ds))
    (hrs' : rs.toNat + 1 < 2 ^ 31) :
    ∃ tr, (virtioConsoleRecvRequest fuel 1 i rs ws).run m =
      (virtioConsumeDesc 1 i 0 >>= fun _ => pure 0).run { m with
        ext := ⟨(bufBytes m.ram (segment false ds)).take rs.toNat :: m.ext.written⟩
        trace := tr } := by
  obtain ⟨tr, h1⟩ := @memcpyFromQueue_read _ fuel 1 i ds 0 rs m h hfuel hlen (by omega) (by simpa using hrs)
  have hrs1 : (rs + 1).toNat = rs.toNat + 1 := by rw [BitVec.toNat_add]; simp; omega
  simp only [virtioConsoleRecvRequest]
  rw [if_pos (show (1 : Fin maxQueue).val = 1 from rfl), calloc_of_lt (by omega), liftExcept_ok_bind_run,
    bind_run_ok h1]
  refine ⟨tr, ?_⟩
  have hl : ((bufBytes m.ram (segment false ds)).take rs.toNat).length = rs.toNat := by
    simp [length_bufBytes]; omega
  simp only [hrs1, show (0 : BitVec 32).toNat = 0 from rfl, List.drop_zero, fillBuf, hl]
  rw [List.length_replicate, List.take_take, min_eq_left (Nat.le_succ _), List.take_left' hl]
  rfl

-- Transmit queue 1 of the console with its table at 0: descriptor 0, readable, of 2 bytes at 0x300
-- holding "hi". The backend is handed both.
theorem console_tx_writes_readable_bytes :
    let m : Machine ConsoleState := ⟨virtioConsoleInit,
      writeRam (writeRam (fun _ => 0) 0 [0, 3, 0, 0, 0, 0, 0, 0, 2, 0, 0, 0, 0, 0, 0, 0]) 0x300
        [0x68, 0x69], [], ⟨[]⟩⟩
    ∃ tr, (virtioConsoleRecvRequest 2 1 0 2 0).run m =
      (virtioConsumeDesc 1 0 0 >>= fun _ => pure 0).run { m with
        ext := ⟨[[0x68, 0x69]]⟩
        trace := tr } := by
  intro m
  obtain ⟨tr, h⟩ := @virtioConsoleRecvRequest_chain 2 [⟨0x300, 2, 0, 0⟩] 0 2 0 m
    (.single (by decide) rfl) (by decide) (by decide) (by decide) (by decide)
  exact ⟨tr, h⟩

-- `virtio_console_write_data` on the next available chain of the receive queue completes the chain
-- with `buf_len` and moves on, also where the writable part is shorter; where it has room, the
-- writable part gets the first `buf_len` bytes of `buf`.
theorem virtioConsoleWriteData_chain {buf : List (BitVec 8)} {len : BitVec 32}
    (m : Machine ConsoleState) (hready : (m.dev.queue 0).ready ≠ 0)
    (havail : (m.dev.queue 0).lastAvailIdx ≠ (m.dev.queue 0).availIdx)
    (h : IsChain m.ram (m.dev.queue 0).descAddr
      (availHeadAt m.ram (m.dev.queue 0) (m.dev.queue 0).lastAvailIdx) ds)
    (hfuel : ds.length < fuel) (hlen : ∀ d ∈ ds, d.len.toNat < 2 ^ 31)
    (hall : (afterSegment false ds).all (·.isWrite))
    (hsep : Separated (m.dev.queue 0).descAddr
      (availHeadAt m.ram (m.dev.queue 0) (m.dev.queue 0).lastAvailIdx) ds (afterSegment false ds))
    (hc : len.toNat < 2 ^ 31) (hb : len.toNat ≤ buf.length) :
    ∃ m', (virtioConsoleWriteData fuel buf len).run m =
        (do virtioConsumeDesc 0 (availHeadAt m.ram (m.dev.queue 0) (m.dev.queue 0).lastAvailIdx) len
            incLastAvailIdx 0
            pure len).run m' ∧
      m'.dev = m.dev ∧ m'.ext = m.ext ∧
      (len.toNat ≤ bufLen (afterSegment false ds) →
        m'.ram = storeBytes (bufAddr (afterSegment false ds)) 0 (buf.take len.toNat) m.ram) := by
  obtain ⟨r, m', hrun, hdev, hext, hfit⟩ := @memcpyToQueue_chain _ fuel 0 _ ds 0 len buf
    { m with trace := .read 0 .avail (availSlotAddr (m.dev.queue 0) (m.dev.queue 0).lastAvailIdx) 2 ::
      m.trace } h hfuel hlen hall hsep hc hb
  simp only [virtioConsoleWriteData]
  rw [getQueue_bind_run, if_neg hready, if_neg havail]
  simp only [pure_bind]
  rw [nextAvailDesc_bind_run, bind_run_ok hrun]
  exact ⟨m', rfl, hdev, hext, fun h' => (hfit (by simpa using h')).2⟩

-- Receive queue 0 of the console with its table at 0 and one chain posted: descriptor 0,
-- writable, of 4 bytes at 0x300. Three bytes go to 0x300 to 0x302.
theorem console_rx_fills_writable_chain :
    let m : Machine ConsoleState := ⟨virtioConsoleInit.updateQueue 0
        ({ · with ready := 1, num := 4, availAddr := 0x100, usedAddr := 0x200, availIdx := 1 }),
      writeRam (fun _ => 0) 0 [0, 3, 0, 0, 0, 0, 0, 0, 4, 0, 0, 0, 2, 0, 0, 0], [], ⟨[]⟩⟩
    ∃ m', (virtioConsoleWriteData 2 [1, 2, 3] 3).run m =
        (do virtioConsumeDesc 0 0 3; incLastAvailIdx 0; pure 3).run m' ∧
      m'.ram = storeBytes (bufAddr [⟨0x300, 4, 2, 0⟩]) 0 [1, 2, 3] m.ram := by
  intro m
  have hhead : availHeadAt m.ram (m.dev.queue 0) (m.dev.queue 0).lastAvailIdx = 0 := by decide
  have hchain : IsChain m.ram (m.dev.queue 0).descAddr
      (availHeadAt m.ram (m.dev.queue 0) (m.dev.queue 0).lastAvailIdx) [⟨0x300, 4, 2, 0⟩] := by
    rw [hhead]; exact .single (by decide) rfl
  have hsep : Separated (m.dev.queue 0).descAddr
      (availHeadAt m.ram (m.dev.queue 0) (m.dev.queue 0).lastAvailIdx) [⟨0x300, 4, 2, 0⟩]
      (afterSegment false [⟨0x300, 4, 2, 0⟩]) := by
    rw [hhead]; unfold Separated; decide
  obtain ⟨m', h, -, -, hram⟩ := @virtioConsoleWriteData_chain 2 _ [1, 2, 3] 3 m (by decide)
    (by decide) hchain (by decide) (by decide) (by decide) hsep (by decide) (by decide)
  rw [hhead] at h
  exact ⟨m', h, hram (by decide)⟩

end Console

/-! The entropy device -/

-- The bytes the loop of `virtio_entropy_recv_request` takes from the host's `getrandom` `g` while
-- bytes `o` to `ws` of the writable part are left to fill, from call `k` on, with the number of
-- calls made after them; `n` bounds the calls, as the loop's fuel does.
def randomFill (g : Nat → BitVec 32 → Int × List (BitVec 8)) (ws : Nat) :
    Nat → Nat → Nat → List (BitVec 8) × Nat
  | 0, _, k => ([], k)
  | n + 1, o, k =>
    if ws ≤ o then ([], k) else
      let b := BitVec.ofNat 32 (min (ws - o) 256)
      let r := (g k b).1.toNat
      let rest := randomFill g ws n (o + r) (k + 1)
      ((g k b).2.take r ++ rest.1, rest.2)

section Entropy

variable {g : Nat → BitVec 32 → Int × List (BitVec 8)}

-- `getrandom` for at most 256 bytes returns some of them, and hands over as many as it returns.
def GetrandomAnswers (g : Nat → BitVec 32 → Int × List (BitVec 8)) : Prop :=
  ∀ k (b : BitVec 32), 0 < b.toNat → b.toNat ≤ 256 →
    0 < (g k b).1 ∧ (g k b).1 ≤ b.toNat ∧ (g k b).1.toNat ≤ (g k b).2.length

theorem length_randomFill (hg : GetrandomAnswers g) {ws : Nat} :
    ∀ n o k, ws - o < n → (randomFill g ws n o k).1.length = ws - o := by
  intro n
  induction n with
  | zero => intro _ _ h; omega
  | succ n ih =>
    intro o k hn
    simp only [randomFill]
    split
    · simp; omega
    · have hb : (BitVec.ofNat 32 (min (ws - o) 256)).toNat = min (ws - o) 256 := by
        simp only [BitVec.toNat_ofNat]; omega
      obtain ⟨h1, h2, h3⟩ := hg k (BitVec.ofNat 32 (min (ws - o) 256)) (by omega) (by omega)
      rw [List.length_append, ih _ _ (by omega), List.length_take, min_eq_left h3]
      omega

variable {q : Fin maxQueue}

-- The size of the block the loop asks for, with fewer than 2^31 bytes to fill.
theorem blockSize_eq {ws o : BitVec 32} (hws : ws.toNat < 2 ^ 31) (ho : o.toNat < ws.toNat) :
    (if (ws - o).slt 256 then ws - o else 256) = BitVec.ofNat 32 (min (ws.toNat - o.toNat) 256) := by
  have hsub : (ws - o).toNat = ws.toNat - o.toNat := by
    rw [BitVec.toNat_sub_of_le (by rw [BitVec.le_def]; omega)]
  apply BitVec.eq_of_toNat_eq
  rw [slt_eq_decide (by omega) (by decide), BitVec.toNat_ofNat]
  split <;> simp_all
  omega

theorem fill_chain (hg : GetrandomAnswers g) (hfuel : ds.length < fuel)
    (hlen : ∀ d ∈ ds, d.len.toNat < 2 ^ 31) (hall : (afterSegment false ds).all (·.isWrite))
    (hW : bufLen (afterSegment false ds) < 2 ^ 31) :
    ∀ n o (m : Machine EntropyState), m.ext.getrandom = g →
      IsChain m.ram (m.dev.queue q).descAddr i ds →
      Separated (m.dev.queue q).descAddr i ds (afterSegment false ds) →
      o ≤ bufLen (afterSegment false ds) → bufLen (afterSegment false ds) - o < n →
      ∃ tr, (virtioEntropyRecvRequest.fill q i (BitVec.ofNat 32 (bufLen (afterSegment false ds))) fuel n
          (BitVec.ofNat 32 o)).run m = .ok ((), { m with
        ram := storeBytes (bufAddr (afterSegment false ds)) o
          (randomFill g (bufLen (afterSegment false ds)) n o m.ext.calls).1 m.ram
        ext := { m.ext with calls := (randomFill g (bufLen (afterSegment false ds)) n o m.ext.calls).2 }
        trace := tr }) := by
  intro n
  induction n with
  | zero => intro _ _ _ _ _ _ h; omega
  | succ n ih =>
    rintro o ⟨dev, ram, tr0, ⟨g', k⟩⟩ (hg' : g' = g) h hsep ho hn
    subst g'
    have hoN : (BitVec.ofNat 32 o).toNat = o := by simp only [BitVec.toNat_ofNat]; omega
    have hWN : (BitVec.ofNat 32 (bufLen (afterSegment false ds))).toNat =
        bufLen (afterSegment false ds) := by simp only [BitVec.toNat_ofNat]; omega
    simp only [virtioEntropyRecvRequest.fill, randomFill]
    rw [slt_eq_decide (by omega) (by omega), hoN, hWN]
    by_cases hlt : o < bufLen (afterSegment false ds)
    swap
    · rw [if_pos (by simpa using hlt), if_pos (Nat.le_of_not_lt hlt)]
      exact ⟨tr0, rfl⟩
    rw [if_neg (by simpa using hlt), if_neg (Nat.not_le_of_lt hlt)]
    simp only [pure_bind]
    rw [getExt_bind_run, setExt_bind_run, blockSize_eq (by omega) (by omega), hoN, hWN]
    dsimp only
    obtain ⟨h1, h2, h3⟩ := hg k (BitVec.ofNat 32 (min (bufLen (afterSegment false ds) - o) 256))
      (by simp only [BitVec.toNat_ofNat]; omega) (by simp only [BitVec.toNat_ofNat]; omega)
    rw [if_neg (not_le.2 h1)]
    generalize hb : BitVec.ofNat 32 (min (bufLen (afterSegment false ds) - o) 256) = b at h1 h2 h3
    have hbN : b.toNat = min (bufLen (afterSegment false ds) - o) 256 := by
      rw [← hb, BitVec.toNat_ofNat]; omega
    have hrN : (BitVec.ofInt 32 (g k b).1).toNat = (g k b).1.toNat := by
      rw [BitVec.toNat_ofInt]; omega
    obtain ⟨tr1, hs⟩ := @memcpyToQueue_store EntropyState fuel q i ds (BitVec.ofNat 32 o)
      (BitVec.ofInt 32 (g k b).1) (g k b).2 ⟨dev, ram, tr0, ⟨g, k + 1⟩⟩ h hfuel hlen hall hsep
      (by omega) (by omega) (by omega)
    have hoff : BitVec.ofNat 32 o + BitVec.ofInt 32 (g k b).1 = BitVec.ofNat 32 (o + (g k b).1.toNat) :=
      BitVec.eq_of_toNat_eq (by rw [BitVec.toNat_add, hrN, hoN, BitVec.toNat_ofNat])
    rw [hrN, hoN] at hs
    rw [bind_run_ok hs, hoff]
    obtain ⟨tr2, hrest⟩ := ih (o + (g k b).1.toNat)
      ⟨dev, storeBytes (bufAddr (afterSegment false ds)) o ((g k b).2.take (g k b).1.toNat) ram, tr1,
        ⟨g, k + 1⟩⟩ rfl (h.storeBytes hsep (by simp; omega)) hsep (by omega) (by omega)
    refine ⟨tr2, hrest.trans ?_⟩
    rw [storeBytes_append, List.length_take, min_eq_left h3]

-- `virtio_entropy_recv_request` on a chain of queue 0 fills its whole writable part with what
-- `getrandom` hands over, call after call, and completes the chain with the length of that part.
theorem virtioEntropyRecvRequest_chain {rs : BitVec 32} (m : Machine EntropyState)
    (h : IsChain m.ram (m.dev.queue 0).descAddr i ds) (hfuel : ds.length < fuel)
    (hlen : ∀ d ∈ ds, d.len.toNat < 2 ^ 31) (htot : bufLen ds < 2 ^ 31)
    (hall : (afterSegment false ds).all (·.isWrite))
    (hsep : Separated (m.dev.queue 0).descAddr i ds (afterSegment false ds))
    (hws : bufLen (afterSegment false ds) < fuel) (hg : GetrandomAnswers m.ext.getrandom) :
    ∃ tr, (virtioEntropyRecvRequest fuel 0 i rs
          (BitVec.ofNat 32 (bufLen (afterSegment false ds)))).run m =
        (virtioConsumeDesc 0 i (BitVec.ofNat 32 (bufLen (afterSegment false ds))) >>= fun _ =>
          pure 0).run { m with
          ram := storeBytes (bufAddr (afterSegment false ds)) 0
            (randomFill m.ext.getrandom (bufLen (afterSegment false ds)) fuel 0 m.ext.calls).1 m.ram
          ext := { m.ext with
            calls := (randomFill m.ext.getrandom (bufLen (afterSegment false ds)) fuel 0 m.ext.calls).2 }
          trace := tr } ∧
      (randomFill m.ext.getrandom (bufLen (afterSegment false ds)) fuel 0 m.ext.calls).1.length =
        bufLen (afterSegment false ds) := by
  have hsplit := congrArg bufLen (segment_append_afterSegment false ds)
  rw [bufLen_append] at hsplit
  obtain ⟨tr, hfill⟩ := fill_chain (q := 0) hg hfuel hlen hall (by omega) fuel 0 m rfl h hsep
    (Nat.zero_le _) (by omega)
  refine ⟨tr, ?_, length_randomFill hg fuel 0 _ (by omega)⟩
  simp only [virtioEntropyRecvRequest]
  rw [show BitVec.ofNat 32 0 = 0 from rfl] at hfill
  rw [if_pos (show (0 : Fin maxQueue).val = 0 from rfl), bind_run_ok hfill]

-- Queue 0 of the entropy device with its table at 0: descriptor 0, writable, of 3 bytes at 0x300,
-- over a `getrandom` that answers its `k`-th call with bytes `k + 7`. The buffer gets three 7s
-- from one call.
theorem entropy_fills_writable_chain :
    let m : Machine EntropyState := ⟨virtioEntropyInit,
      writeRam (fun _ => 0) 0 [0, 3, 0, 0, 0, 0, 0, 0, 3, 0, 0, 0, 2, 0, 0, 0], [],
      ⟨fun k b => (b.toNat, List.replicate b.toNat (BitVec.ofNat 8 (k + 7))), 0⟩⟩
    ∃ tr, (virtioEntropyRecvRequest 4 0 0 0 3).run m =
      (virtioConsumeDesc 0 0 3 >>= fun _ => pure 0).run { m with
        ram := storeBytes (bufAddr [⟨0x300, 3, 2, 0⟩]) 0 [7, 7, 7] m.ram
        ext := { m.ext with calls := 1 }
        trace := tr } := by
  intro m
  have hg : GetrandomAnswers m.ext.getrandom := fun k b h0 _ => by
    simp only [m, List.length_replicate]; omega
  obtain ⟨tr, h, -⟩ := @virtioEntropyRecvRequest_chain 4 [⟨0x300, 3, 2, 0⟩] 0 0 m
    (.single (by decide) rfl) (by decide) (by decide) (by decide) (by decide)
    (by unfold Separated; decide) (by decide) hg
  rw [show randomFill m.ext.getrandom (bufLen (afterSegment false [⟨0x300, 3, 2, 0⟩])) 4 0
    m.ext.calls = ([7, 7, 7], 1) by decide] at h
  exact ⟨tr, h⟩

end Entropy

end Virtio
