import TinyEmuVirtio.Execution.Transfer
import TinyEmuVirtio.Execution.Devices
import TinyEmuVirtio.Objects.Devices.Block

namespace Virtio

/-! The data of block requests -/

variable {fuel : Nat} {q : Fin maxQueue} {i : BitVec 16} {ds : List VirtioDesc}

-- `int` division by `SECTOR_SIZE` of a size that is not negative.
theorem sdiv_sectorSize {x : BitVec 32} (h : x.toNat < 2 ^ 31) :
    x.sdiv sectorSize = BitVec.ofNat 32 (x.toNat / 512) := by
  have hx : x.msb = false := by rw [BitVec.msb_eq_false_iff_two_mul_lt]; omega
  rw [BitVec.sdiv, hx, show sectorSize.msb = false from rfl]
  apply BitVec.eq_of_toNat_eq
  show (x / sectorSize).toNat = _
  rw [BitVec.toNat_udiv, BitVec.toNat_ofNat, show sectorSize.toNat = 512 from rfl]
  omega

-- The backend's answers, counted as they are asked for.
theorem readAsync_bind_run {α : Type} (sectorNum : BitVec 64) (n : BitVec 32)
    (f : Int × List (BitVec 8) → VirtioM BlockState α) (m : Machine BlockState) :
    (readAsync sectorNum n >>= f).run m =
      (f (m.ext.bs.readAsync m.ext.calls sectorNum n)).run
        { m with ext := { m.ext with calls := m.ext.calls + 1 } } :=
  rfl

-- `malloc` of an `int` size that is not negative: the next buffer of the environment.
theorem blockMalloc_bind_run {α : Type} {n : BitVec 32} (hn : n.toNat < 2 ^ 31)
    (f : List (BitVec 8) → VirtioM BlockState α) (m : Machine BlockState) :
    (blockMalloc n >>= f).run m =
      (f ((List.range n.toNat).map (m.ext.bs.heap m.ext.allocs))).run
        { m with ext := { m.ext with allocs := m.ext.allocs + 1 } } := by
  simp only [blockMalloc, bind_assoc, getExt_bind_run, malloc_of_lt hn, liftExcept_ok_bind_run,
    setExt_bind_run, pure_bind]

-- The buffer of a read request as `virtio_block_req_end` hands it over: what the backend read,
-- then the buffer's own bytes from there on, cut to all but the last byte, then the status.
theorem fillBuf_set_last (buf data : List (BitVec 8)) (s : BitVec 8) (hn : 0 < buf.length) :
    (fillBuf buf data).set (buf.length - 1) s =
      (data ++ buf.drop data.length).take (buf.length - 1) ++ [s] := by
  have hl : (fillBuf buf data).length = buf.length := by simp [fillBuf]; omega
  rw [List.set_eq_take_append_cons_drop, if_pos (by omega),
    List.drop_eq_nil_of_le (by omega : (fillBuf buf data).length ≤ buf.length - 1 + 1), fillBuf,
    List.take_take, min_eq_left (Nat.sub_le _ 1)]

theorem writeAsync_bind_run {α : Type} (sectorNum : BitVec 64) (buf : List (BitVec 8))
    (n : BitVec 32) (f : Int → VirtioM BlockState α) (m : Machine BlockState) :
    (writeAsync sectorNum buf n >>= f).run m =
      (f (m.ext.bs.writeAsync m.ext.calls sectorNum buf n)).run
        { m with ext := { m.ext with calls := m.ext.calls + 1 } } :=
  rfl

section ReqEnd

variable (ret : Int) (m : Machine BlockState)
  (h : IsChain m.ram (m.dev.queue m.ext.req.queueIdx).descAddr m.ext.req.descIdx ds)
  (hfuel : ds.length < fuel) (hlen : ∀ d ∈ ds, d.len.toNat < 2 ^ 31)
  (hall : (afterSegment false ds).all (·.isWrite))
  (hsep : Separated (m.dev.queue m.ext.req.queueIdx).descAddr m.ext.req.descIdx ds
    (afterSegment false ds))
include h hfuel hlen hall hsep

-- `virtio_block_req_end` of a `VIRTIO_BLK_T_OUT` request: the status goes to the first writable
-- byte of the request's chain, which is completed with length 1.
theorem virtioBlockReqEnd_out (htype : m.ext.req.type = 1) (hW : 1 ≤ bufLen (afterSegment false ds)) :
    ∃ tr, (virtioBlockReqEnd fuel ret).run m =
      (virtioConsumeDesc m.ext.req.queueIdx m.ext.req.descIdx 1).run { m with
        ram := storeBytes (bufAddr (afterSegment false ds)) 0 [blockStatus ret] m.ram
        trace := tr } := by
  obtain ⟨tr, h1⟩ := @memcpyToQueue_store _ fuel _ _ ds 0 1 [blockStatus ret] m h hfuel hlen hall
    hsep (by decide) (by simp) (by simpa using hW)
  refine ⟨tr, ?_⟩
  rw [virtioBlockReqEnd, getExt_bind_run]
  simp only [htype, show (1 : BitVec 32).toNat = 1 from rfl]
  exact bind_run_ok h1

-- Its buffer case, for a buffer of `write_size` bytes that the writable part holds: the buffer with
-- the status as its last byte goes there, and the chain is completed with `write_size`.
theorem blockReqEndBuf_chain (hbuf : m.ext.req.buf.length = m.ext.req.writeSize.toNat)
    (hW : 1 ≤ m.ext.req.writeSize.toNat) (hW' : m.ext.req.writeSize.toNat < 2 ^ 31)
    (hfit : m.ext.req.writeSize.toNat ≤ bufLen (afterSegment false ds)) :
    ∃ tr, (blockReqEndBuf fuel ret).run m =
      (virtioConsumeDesc m.ext.req.queueIdx m.ext.req.descIdx m.ext.req.writeSize).run { m with
        ram := storeBytes (bufAddr (afterSegment false ds)) 0
          (m.ext.req.buf.set (m.ext.req.writeSize.toNat - 1) (blockStatus ret)) m.ram
        trace := tr } := by
  have hW1 : (m.ext.req.writeSize - 1).toNat = m.ext.req.writeSize.toNat - 1 := by
    rw [BitVec.toNat_sub_of_le (by rw [BitVec.le_def]; exact hW)]; rfl
  obtain ⟨tr, h1⟩ := @memcpyToQueue_store _ fuel _ _ ds 0 m.ext.req.writeSize
    (m.ext.req.buf.set (m.ext.req.writeSize.toNat - 1) (blockStatus ret)) m h hfuel hlen hall hsep
    hW' (by simp [hbuf]) (by simpa using hfit)
  refine ⟨tr, ?_⟩
  rw [blockReqEndBuf, getExt_bind_run]
  dsimp only
  rw [setByte, if_pos (by rw [toInt_of_lt (by omega), hW1]; omega), hW1, liftExcept_ok_bind_run,
    bind_run_ok h1, List.take_of_length_le (by simp [hbuf])]
  rfl

end ReqEnd

-- `virtio_block_recv_request` on a chain whose first 16 readable bytes are a `VIRTIO_BLK_T_OUT`
-- header, with the sizes `get_desc_rw_size` gives it: the backend is asked to write the readable
-- bytes after the header, as many whole sectors as they hold, from the header's sector. An
-- asynchronous answer leaves the request in progress; otherwise the status of the answer goes to the
-- first writable byte and the chain is completed with length 1.
theorem virtioBlockRecvRequest_out (m : Machine BlockState)
    (h : IsChain m.ram (m.dev.queue q).descAddr i ds) (hfuel : ds.length < fuel)
    (hlen : ∀ d ∈ ds, d.len.toNat < 2 ^ 31) (htot : bufLen ds < 2 ^ 31)
    (hall : (afterSegment false ds).all (·.isWrite))
    (hsep : Separated (m.dev.queue q).descAddr i ds (afterSegment false ds))
    (hidle : m.ext.reqInProgress = false) (hR : 16 ≤ bufLen (segment false ds))
    (hW : 1 ≤ bufLen (afterSegment false ds))
    (htype : (BlockRequestHeader.ofBytes ((bufBytes m.ram (segment false ds)).take 16)).type = 1) :
    ∃ tr, (virtioBlockRecvRequest fuel q i (BitVec.ofNat 32 (bufLen (segment false ds)))
        (BitVec.ofNat 32 (bufLen (afterSegment false ds)))).run m =
      let ret := m.ext.bs.writeAsync m.ext.calls
        (BlockRequestHeader.ofBytes ((bufBytes m.ram (segment false ds)).take 16)).sectorNum
        ((bufBytes m.ram (segment false ds)).drop 16)
        (BitVec.ofNat 32 ((bufLen (segment false ds) - 16) / 512))
      let e := { m.ext with
        req := { m.ext.req with type := 1, queueIdx := q, descIdx := i }
        calls := m.ext.calls + 1 }
      if ret > 0 then .ok (0, { m with ext := { e with reqInProgress := true, outstanding := true }, trace := tr })
      else (virtioConsumeDesc q i 1 >>= fun _ => pure 0).run { m with
        ram := storeBytes (bufAddr (afterSegment false ds)) 0 [blockStatus ret] m.ram
        ext := e
        trace := tr } := by
  have hsplit := congrArg bufLen (segment_append_afterSegment false ds)
  rw [bufLen_append] at hsplit
  have hR' : (BitVec.ofNat 32 (bufLen (segment false ds))).toNat = bufLen (segment false ds) := by
    simp only [BitVec.toNat_ofNat]; omega
  have hW' : (BitVec.ofNat 32 (bufLen (afterSegment false ds))).toNat =
      bufLen (afterSegment false ds) := by
    simp only [BitVec.toNat_ofNat]; omega
  have hL : (BitVec.ofNat 32 (bufLen (segment false ds)) - 16).toNat = bufLen (segment false ds) - 16 := by
    rw [BitVec.toNat_sub_of_le (by rw [BitVec.le_def, hR']; exact hR), hR']; rfl
  obtain ⟨tr1, h1⟩ := @memcpyFromQueue_read _ fuel q i ds 0 16 m h hfuel hlen (by decide)
    (by simpa using hR)
  obtain ⟨tr2, h2⟩ := @memcpyFromQueue_read _ fuel q i ds 16
    (BitVec.ofNat 32 (bufLen (segment false ds)) - 16)
    ⟨m.dev, m.ram, .take q i :: tr1, { m.ext with req := { m.ext.req with type := 1, queueIdx := q, descIdx := i } }⟩
    h hfuel hlen (by omega) (by rw [hL]; simp; omega)
  simp only [virtioBlockRecvRequest]
  rw [getExt_bind_run, if_neg (by simp [hidle])]
  simp only [pure_bind]
  rw [bind_run_ok h1]
  simp only [lt_irrefl, if_false, pure_bind, show (0 : BitVec 32).toNat = 0 from rfl, List.drop_zero,
    show (16 : BitVec 32).toNat = 16 from rfl, htype, show (1 : BitVec 32).toNat = 1 from rfl]
  rw [logAccess_bind_run, setExt_bind_run, sle_eq_decide (by decide) (by omega), hW',
    show (1 : BitVec 32).toNat = 1 from rfl, if_neg (by simp only [decide_eq_true_eq, not_not]; exact hW), mallocSize_of_lt (by omega),
    liftExcept_ok_bind_run]
  dsimp only
  rw [bind_run_ok h2, writeAsync_bind_run, hL, sdiv_sectorSize (by omega), hL]
  dsimp only
  rw [show (16 : BitVec 32).toNat = 16 from rfl,
    List.take_of_length_le (l := (bufBytes m.ram (segment false ds)).drop 16)
      (by simp [length_bufBytes])]
  generalize m.ext.bs.writeAsync m.ext.calls _ _ _ = ret
  by_cases hret : ret > 0
  · exact ⟨tr2, by rw [if_pos hret]; simp only [blockAfterBackend, if_pos hret]; rfl⟩
  obtain ⟨tr3, h3⟩ := @virtioBlockReqEnd_out fuel ds ret
    ⟨m.dev, m.ram, tr2, { m.ext with
      req := { m.ext.req with type := 1, queueIdx := q, descIdx := i }, calls := m.ext.calls + 1 }⟩
    h hfuel hlen hall hsep rfl hW
  refine ⟨tr3, ?_⟩
  rw [if_neg hret]
  simp only [blockAfterBackend, if_neg hret]
  exact bind_run_congr h3

-- Queue 0 with its table at 0: descriptor 0, readable, of 18 bytes at 0x100 holding a write header
-- for sector 5 and the bytes 0xaa 0xbb, linked to descriptor 1, writable, of 1 byte at 0x300. Over
-- a backend that succeeds only on a write of exactly those bytes at sector 5, the status is OK.
theorem block_write_hands_data_to_backend :
    let bs : BlockBackend := ⟨fun _ _ _ => (0, []),
      fun _ s buf _ => if s = 5 ∧ buf = [0xaa, 0xbb] then 0 else -1, default⟩
    let m : Machine BlockState := ⟨virtioBlockInit 8,
      writeRam (writeRam (fun _ => 0) 0 [0, 1, 0, 0, 0, 0, 0, 0, 18, 0, 0, 0, 1, 0, 1, 0,
        0, 3, 0, 0, 0, 0, 0, 0, 1, 0, 0, 0, 2, 0, 0, 0]) 0x100
        [1, 0, 0, 0, 0, 0, 0, 0, 5, 0, 0, 0, 0, 0, 0, 0, 0xaa, 0xbb], [], BlockState.init bs⟩
    ∃ tr, (virtioBlockRecvRequest 3 0 0 18 1).run m =
      (virtioConsumeDesc 0 0 1 >>= fun _ => pure 0).run { m with
        ram := storeBytes (bufAddr [⟨0x300, 1, 2, 0⟩]) 0 [virtioBlkSOk] m.ram
        ext := { m.ext with req := { m.ext.req with type := 1, queueIdx := 0, descIdx := 0 }, calls := 1 }
        trace := tr } := by
  intro bs m
  obtain ⟨tr, h⟩ := @virtioBlockRecvRequest_out 3 0 0 [⟨0x100, 18, 1, 1⟩, ⟨0x300, 1, 2, 0⟩] m
    (.link (by decide) rfl (.single (by decide) rfl)) (by decide) (by decide) (by decide) (by decide)
    (by unfold Separated; decide) rfl (by decide) (by decide) (by decide)
  dsimp only at h
  rw [if_neg (by decide)] at h
  exact ⟨tr, h⟩

-- ... and on a `VIRTIO_BLK_T_IN` header: the backend is asked to read as many whole sectors as the
-- writable part holds before its status byte, into a fresh buffer of `write_size` bytes whose
-- contents `malloc` leaves indeterminate. Unless it answers asynchronously, the writable part gets
-- the bytes the backend read, then the buffer's own bytes past them up to its last byte, then the
-- status, and the chain is completed with the whole length.
theorem virtioBlockRecvRequest_in (m : Machine BlockState)
    (h : IsChain m.ram (m.dev.queue q).descAddr i ds) (hfuel : ds.length < fuel)
    (hlen : ∀ d ∈ ds, d.len.toNat < 2 ^ 31) (htot : bufLen ds < 2 ^ 31)
    (hall : (afterSegment false ds).all (·.isWrite))
    (hsep : Separated (m.dev.queue q).descAddr i ds (afterSegment false ds))
    (hidle : m.ext.reqInProgress = false) (hR : 16 ≤ bufLen (segment false ds))
    (hW : 1 ≤ bufLen (afterSegment false ds))
    (htype : (BlockRequestHeader.ofBytes ((bufBytes m.ram (segment false ds)).take 16)).type = 0) :
    ∃ tr, (virtioBlockRecvRequest fuel q i (BitVec.ofNat 32 (bufLen (segment false ds)))
        (BitVec.ofNat 32 (bufLen (afterSegment false ds)))).run m =
      let junk := (List.range (bufLen (afterSegment false ds))).map (m.ext.bs.heap m.ext.allocs)
      let ans := m.ext.bs.readAsync m.ext.calls
        (BlockRequestHeader.ofBytes ((bufBytes m.ram (segment false ds)).take 16)).sectorNum
        (BitVec.ofNat 32 ((bufLen (afterSegment false ds) - 1) / 512))
      let e := { m.ext with
        req := {
          type := 0
          buf := if ans.1 > 0 then junk else fillBuf junk ans.2
          writeSize := BitVec.ofNat 32 (bufLen (afterSegment false ds))
          queueIdx := q
          descIdx := i }
        calls := m.ext.calls + 1
        allocs := m.ext.allocs + 1 }
      if ans.1 > 0 then .ok (0, { m with ext := { e with reqInProgress := true, outstanding := true }, trace := tr })
      else (virtioConsumeDesc q i (BitVec.ofNat 32 (bufLen (afterSegment false ds))) >>= fun _ =>
        pure 0).run { m with
          ram := storeBytes (bufAddr (afterSegment false ds)) 0
            ((ans.2 ++ junk.drop ans.2.length).take (bufLen (afterSegment false ds) - 1) ++
              [blockStatus ans.1]) m.ram
          ext := e
          trace := tr } := by
  have hsplit := congrArg bufLen (segment_append_afterSegment false ds)
  rw [bufLen_append] at hsplit
  have hW' : (BitVec.ofNat 32 (bufLen (afterSegment false ds))).toNat =
      bufLen (afterSegment false ds) := by
    simp only [BitVec.toNat_ofNat]; omega
  have hW1 : (BitVec.ofNat 32 (bufLen (afterSegment false ds)) - 1).toNat =
      bufLen (afterSegment false ds) - 1 := by
    rw [BitVec.toNat_sub_of_le (by rw [BitVec.le_def, hW']; exact hW), hW']; rfl
  obtain ⟨tr1, h1⟩ := @memcpyFromQueue_read _ fuel q i ds 0 16 m h hfuel hlen (by decide)
    (by simpa using hR)
  simp only [virtioBlockRecvRequest]
  rw [getExt_bind_run, if_neg (by simp [hidle])]
  simp only [pure_bind]
  rw [bind_run_ok h1]
  simp only [lt_irrefl, if_false, pure_bind, show (0 : BitVec 32).toNat = 0 from rfl, List.drop_zero,
    show (16 : BitVec 32).toNat = 16 from rfl, htype]
  rw [logAccess_bind_run, setExt_bind_run, blockMalloc_bind_run (by omega), readAsync_bind_run,
    sdiv_sectorSize (by omega), hW1, hW']
  dsimp only
  generalize m.ext.bs.readAsync m.ext.calls _ _ = ans
  obtain ⟨ret, data⟩ := ans
  rw [modifyExt_bind_run]
  dsimp only
  by_cases hret : ret > 0
  · exact ⟨.take q i :: tr1, by rw [if_pos hret]; simp only [blockAfterBackend, if_pos hret]; rfl⟩
  have hl : (fillBuf ((List.range (bufLen (afterSegment false ds))).map
      (m.ext.bs.heap m.ext.allocs)) data).length = bufLen (afterSegment false ds) := by
    simp [fillBuf]; omega
  obtain ⟨tr2, h2⟩ := @blockReqEndBuf_chain fuel ds ret
    ⟨m.dev, m.ram, .take q i :: tr1, { m.ext with
      req := {
        type := 0
        buf := fillBuf ((List.range (bufLen (afterSegment false ds))).map
          (m.ext.bs.heap m.ext.allocs)) data
        writeSize := BitVec.ofNat 32 (bufLen (afterSegment false ds))
        queueIdx := q
        descIdx := i }
      calls := m.ext.calls + 1
      allocs := m.ext.allocs + 1 }⟩
    h hfuel hlen hall hsep (by dsimp only; omega) (by dsimp only; omega) (by dsimp only; omega)
    (by dsimp only; omega)
  refine ⟨tr2, ?_⟩
  rw [if_neg hret]
  simp only [blockAfterBackend, if_neg hret, virtioBlockReqEnd, bind_assoc]
  rw [getExt_bind_run]
  simp only [show (0 : BitVec 32).toNat = 0 from rfl]
  rw [bind_run_congr h2]
  dsimp only
  have hj := fillBuf_set_last ((List.range (bufLen (afterSegment false ds))).map
    (m.ext.bs.heap m.ext.allocs)) data (blockStatus ret) (by simp; omega)
  rw [List.length_map, List.length_range] at hj
  rw [hW', hj]

-- A read header for sector 5 and a writable descriptor of 4 bytes at 0x300, over a backend that
-- reads 0x11 0x22 there at once into a buffer `malloc` fills with 0xa0, 0xa1, ...: the guest gets
-- both bytes, then the third byte of the buffer as `malloc` left it, then the status.
theorem block_read_passes_unfilled_bytes :
    let bs : BlockBackend := ⟨fun _ s _ => if s = 5 then (0, [0x11, 0x22]) else (-1, []),
      fun _ _ _ _ => 0, fun _ j => 0xa0 + BitVec.ofNat 8 j⟩
    let m : Machine BlockState := ⟨virtioBlockInit 8,
      writeRam (writeRam (fun _ => 0) 0 [0, 1, 0, 0, 0, 0, 0, 0, 16, 0, 0, 0, 1, 0, 1, 0,
        0, 3, 0, 0, 0, 0, 0, 0, 4, 0, 0, 0, 2, 0, 0, 0]) 0x100
        [0, 0, 0, 0, 0, 0, 0, 0, 5, 0, 0, 0, 0, 0, 0, 0], [], BlockState.init bs⟩
    ∃ tr, (virtioBlockRecvRequest 3 0 0 16 4).run m =
      (virtioConsumeDesc 0 0 4 >>= fun _ => pure 0).run { m with
        ram := storeBytes (bufAddr [⟨0x300, 4, 2, 0⟩]) 0 [0x11, 0x22, 0xa2, virtioBlkSOk] m.ram
        ext := { m.ext with req := ⟨0, [0x11, 0x22, 0xa2, 0xa3], 4, 0, 0⟩, calls := 1, allocs := 1 }
        trace := tr } := by
  intro bs m
  obtain ⟨tr, h⟩ := @virtioBlockRecvRequest_in 3 0 0 [⟨0x100, 16, 1, 1⟩, ⟨0x300, 4, 2, 0⟩] m
    (.link (by decide) rfl (.single (by decide) rfl)) (by decide) (by decide) (by decide) (by decide)
    (by unfold Separated; decide) rfl (by decide) (by decide) (by decide)
  dsimp only at h
  rw [if_neg (by decide)] at h
  exact ⟨tr, h⟩

-- A block device of no sectors, rings at address 0; the guest makes available the descriptor 0,
-- device-readable and of length 16. Its address is 0x10000, read from the bytes of `avail.idx`,
-- and the header there is an `IN` request. Its `write_size` is 0, and storing the status byte at
-- `write_size - 1` leaves the buffer. Once the guest writes a `FLUSH` header for sector 1 there
-- instead, `assert(sector_num == 0)` fires.
set_option smartUnfolding false in
theorem block_guest_request_fails_assert :
    ∃ m m', Reachable (blockModel 0 default) m ∧
      (queueNotify virtioBlockRecvRequest 2 0).run m = .error .undefined ∧
      Reachable (blockModel 0 default) m' ∧
      (queueNotify virtioBlockRecvRequest 2 0).run m' = .error .abort := by
  have h := ((Reachable.init (D := blockModel 0 default) fun _ => 0).step (.guest _ 2 [1, 0])).step
    (.guest _ 8 [16])
  dsimp only at h
  exact ⟨_, _, h, rfl, h.step (.guest _ 0x10000 [4, 0, 0, 0, 0, 0, 0, 0, 1]), rfl⟩

end Virtio
