import TinyEmuVirtio.Execution.Copy
import TinyEmuVirtio.Execution.Devices

namespace Virtio

variable {σ : Type}

/-! Copies between a host buffer and a descriptor chain -/

-- Over a chain that `get_desc_rw_size` accepts, with every length and their total below 2^31, and
-- a positive `int` count: `memcpy_from_queue` reads bytes `offset` to `offset + count` of the
-- readable buffers, one after the other, and `memcpy_to_queue` stores `buf` at those bytes of the
-- writable buffers, as long as no byte of them is a byte of a descriptor entry that a `NEXT` link
-- of the chain leads to. Each returns 0 exactly when the bytes are there.
theorem memcpy_queue_copies_chain_bytes {fuel : Nat} {q : Fin maxQueue} {i : BitVec 16}
    {ds : List VirtioDesc} {rs ws offset count : BitVec 32} (buf : List (BitVec 8)) (m : Machine σ)
    (h : IsChain m.ram (m.dev.queue q).descAddr i ds) (hfuel : ds.length < fuel)
    (hlen : ∀ d ∈ ds, d.len.toNat < 2 ^ 31) (htot : bufLen ds < 2 ^ 31)
    (hrw : ((getDescRwSize fuel q i).run m).map Prod.fst = .ok (some (rs, ws)))
    (hc : 0 < count.toInt) :
    (∃ r m', (memcpyFromQueue fuel q i offset count).run m = .ok (r, m') ∧ m'.ram = m.ram ∧
      m'.dev = m.dev ∧ (r.1 = 0 ↔ offset.toNat + count.toNat ≤ rs.toNat) ∧
      (r.1 = 0 → r.2 =
        ((bufBytes m.ram (ds.filter fun d => !d.isWrite)).drop offset.toNat).take count.toNat)) ∧
    ((∀ d ∈ ds, d.hasNext = true → ∀ j < ws.toNat, ∀ t < 16, bufAddr (ds.filter (·.isWrite)) j ≠
        (m.dev.queue q).descAddr + d.next.setWidth 64 * 16 + BitVec.ofNat 64 t) →
      count.toNat ≤ buf.length →
      ∃ r m', (memcpyToQueue fuel q i offset buf count).run m = .ok (r, m') ∧ m'.dev = m.dev ∧
        (r = 0 ↔ offset.toNat + count.toNat ≤ ws.toNat) ∧
        (r = 0 → m'.ram =
          storeBytes (bufAddr (ds.filter (·.isWrite))) offset.toNat (buf.take count.toNat) m.ram)) := by
  obtain ⟨tr, hrun⟩ := getDescRwSize_chain m h hfuel
  rw [hrun] at hrw
  cases hall : (afterSegment false ds).all (·.isWrite)
  · simp [hall, Except.map] at hrw
  simp only [hall, if_true, Except.map, Except.ok.injEq, Option.some.injEq, Prod.mk.injEq] at hrw
  obtain ⟨rfl, rfl⟩ := hrw
  obtain ⟨hR, hW⟩ := filter_of_afterSegment_all hall
  have hsplit := congrArg bufLen (segment_append_afterSegment false ds)
  rw [bufLen_append] at hsplit
  have hrs : (BitVec.ofNat 32 (bufLen (segment false ds))).toNat = bufLen (segment false ds) := by
    simp; omega
  have hws : (BitVec.ofNat 32 (bufLen (afterSegment false ds))).toNat =
      bufLen (afterSegment false ds) := by
    simp; omega
  have hc' : 0 < count.toNat ∧ count.toNat < 2 ^ 31 := by
    rw [BitVec.toInt_eq_toNat_cond] at hc; split at hc <;> omega
  rw [hR, hW, hrs, hws]
  refine ⟨?_, fun hsep hb => ?_⟩
  · obtain ⟨r, tr, hrun, h1, h2⟩ := memcpyFromQueue_chain m h hfuel hlen hc'.1 hc'.2
    exact ⟨r, _, hrun, rfl, rfl, h1, h2⟩
  · obtain ⟨r, m', hrun, hdev, h1, h2⟩ :=
      memcpyToFromQueue_to_chain m h hfuel hlen hall hsep hc'.1 hc'.2 hb
    exact ⟨r.1, m', by rw [memcpyToQueue, bind_run_ok hrun]; rfl, hdev, h1, h2⟩

-- A chain of a readable buffer of 2 bytes at 0x100, an empty readable one and a writable one of 4
-- bytes at 0x300: the first two bytes of the readable part are those at 0x100, and the first two
-- of the writable part are at 0x300 and 0x301.
theorem memcpy_split_chain_copies :
    let m : Machine Unit := ⟨virtioEntropyInit,
      writeRam (writeRam (fun _ => 0) 0 [0, 1, 0, 0, 0, 0, 0, 0, 2, 0, 0, 0, 1, 0, 1, 0,
        0, 2, 0, 0, 0, 0, 0, 0, 0, 0, 0, 0, 1, 0, 2, 0, 0, 3, 0, 0, 0, 0, 0, 0, 4, 0, 0, 0, 2, 0, 0, 0])
        0x100 [7, 8], [], ()⟩
    (∃ r m', (memcpyFromQueue 4 0 0 0 2).run m = .ok (r, m') ∧ r = (0, [7, 8])) ∧
    ∃ r m', (memcpyToQueue 4 0 0 0 [5, 6] 2).run m = .ok (r, m') ∧ r = 0 ∧ m'.ram 0x300 = 5 ∧
      m'.ram 0x301 = 6 := by
  intro m
  have hchain : IsChain m.ram (m.dev.queue 0).descAddr 0
      [⟨0x100, 2, 1, 1⟩, ⟨0x200, 0, 1, 2⟩, ⟨0x300, 4, 2, 0⟩] := by
    simp only [m]; exact .cons rfl (.cons rfl (.last rfl))
  have hrw : ((getDescRwSize 4 0 0).run m).map Prod.fst = .ok (some (2, 4)) := by simp only [m]; rfl
  obtain ⟨⟨r, m', hr, -, -, h1, h2⟩, hto⟩ := @memcpy_queue_copies_chain_bytes _ 4 0 0 _ 2 4 0 2
    [5, 6] m hchain (by decide) (by decide) (by decide) hrw (by decide)
  have hW : ([⟨0x100, 2, 1, 1⟩, ⟨0x200, 0, 1, 2⟩, ⟨0x300, 4, 2, 0⟩] : List VirtioDesc).filter
      (·.isWrite) = [⟨0x300, 4, 2, 0⟩] := by decide
  obtain ⟨r', m'', hr', -, h1', h2'⟩ := hto (fun d hd _ j hj t ht => by
    rw [hW, show (m.dev.queue 0).descAddr = 0 by simp only [m]; rfl]
    have hj' : j < 4 := hj
    simp only [List.mem_cons, List.mem_singleton, List.not_mem_nil, or_false] at hd
    rcases hd with rfl | rfl | rfl <;> simp [bufAddr, hj'] <;> bv_omega) (by decide)
  have h0 : r.1 = 0 := h1.2 (by decide)
  have h0' : r' = 0 := h1'.2 (by decide)
  refine ⟨⟨r, m', hr, Prod.ext h0 (by rw [h2 h0]; simp only [m]; rfl)⟩, r', m'', hr', h0', ?_⟩
  rw [h2' h0', hW]
  simp only [m]
  exact ⟨rfl, rfl⟩

-- The console's receive queue 0, table at address 0. The guest makes descriptor 0 writable, of
-- length 16 and linked to descriptor 1, with its buffer at 16, where the entry of descriptor 1
-- lies; descriptor 1 is writable and of length 16. `get_desc_rw_size` gives the chain 32 writable
-- bytes, but `memcpy_to_queue` of 32 zero bytes first overwrites the entry of descriptor 1: the
-- flags it then reads there have no `WRITE`, and it returns -1.
theorem memcpy_to_queue_overwrites_next_descriptor :
    ∃ m, Reachable consoleModel m ∧
      IsChain m.ram (m.dev.queue 0).descAddr 0 [⟨16, 16, 3, 1⟩, ⟨0x100, 16, 2, 0⟩] ∧
      ((getDescRwSize 3 0 0).run m).map Prod.fst = .ok (some (0, 32)) ∧
      ((memcpyToQueue 3 0 0 0 (List.replicate 32 0) 32).run m).map Prod.fst = .ok (-1) := by
  have h := (Reachable.init (D := consoleModel) fun _ => 0).step (.guest _ 0
    [16, 0, 0, 0, 0, 0, 0, 0, 16, 0, 0, 0, 3, 0, 1, 0, 0, 1, 0, 0, 0, 0, 0, 0, 16, 0, 0, 0, 2, 0, 0, 0])
  dsimp only at h
  exact ⟨_, h, .cons rfl (.last rfl), rfl, rfl⟩

end Virtio
