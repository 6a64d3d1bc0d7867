import TinyEmuVirtio.Execution.Buffers

namespace Virtio

variable {σ : Type}

/-! The arithmetic of the copy loop, on `int`s below 2^31 -/

theorem signExtend_of_lt {o : BitVec 32} (h : o.toNat < 2 ^ 31) :
    o.signExtend 64 = BitVec.ofNat 64 o.toNat := by
  have hm : o.msb = false := by
    rw [BitVec.msb_eq_decide]; simp only [decide_eq_false_iff_not, Nat.not_le]; omega
  rw [BitVec.signExtend_eq_not_setWidth_not_of_msb_false hm]
  apply BitVec.eq_of_toNat_eq
  simp only [BitVec.toNat_setWidth, BitVec.toNat_ofNat]

theorem toInt_of_lt {x : BitVec 32} (h : x.toNat < 2 ^ 31) : x.toInt = x.toNat := by
  rw [BitVec.toInt_eq_toNat_cond]; simp only [show 2 * x.toNat < 2 ^ 32 by omega, if_true]

theorem minInt_toNat {x y : BitVec 32} (hx : x.toNat < 2 ^ 31) (hy : y.toNat < 2 ^ 31) :
    (minInt x y).toNat = min x.toNat y.toNat := by
  unfold minInt
  have : x.slt y = decide (x.toNat < y.toNat) := by
    rw [BitVec.slt, toInt_of_lt hx, toInt_of_lt hy]; simp
  split <;> simp_all
  omega

-- What is left of `count` once the bytes of a descriptor from `o` on are copied.
theorem toNat_sub_sub (c : BitVec 32) {l o : BitVec 32} (ho : o.toNat ≤ l.toNat)
    (hc : l.toNat - o.toNat ≤ c.toNat) : (c - (l - o)).toNat = c.toNat - (l.toNat - o.toNat) := by
  have hsub : (l - o).toNat = l.toNat - o.toNat := BitVec.toNat_sub_of_le (by rw [BitVec.le_def]; omega)
  rw [BitVec.toNat_sub_of_le (by rw [BitVec.le_def, hsub]; omega), hsub]

section Walk
variable {ram : Ram} {a : BitVec 64} {q : Fin maxQueue}

-- The second loop of `memcpy_to_from_queue` is `seek`.
theorem findOffset_chain (w : Bool) {i : BitVec 16} {ds : List VirtioDesc} (h : IsChain ram a i ds) :
    ∀ (n : Nat) (o : BitVec 32) (m : Machine σ), m.ram = ram → (m.dev.queue q).descAddr = a →
      ds.length ≤ n → ∃ tr, (memcpyToFromQueue.findOffset q w n (descAt ram a i) o).run m =
        .ok ((seek w ds o.toNat).map fun p => (p.1, BitVec.ofNat 32 p.2.2), { m with trace := tr }) := by
  induction h with
  | @last i hn =>
    intro n o m hr ha hl
    obtain ⟨n, rfl⟩ : ∃ k, n = k + 1 := ⟨n - 1, by simp at hl; omega⟩
    by_cases hw : (descAt ram a i).isWrite = w
    · by_cases ho : o.toNat < (descAt ram a i).len.toNat
      · exact ⟨m.trace, by simp [memcpyToFromQueue.findOffset, seek, hw, ho, BitVec.lt_def]; rfl⟩
      · exact ⟨m.trace, by simp [memcpyToFromQueue.findOffset, seek, hw, ho, hn, BitVec.lt_def]; rfl⟩
    · exact ⟨m.trace, by simp [memcpyToFromQueue.findOffset, seek, hw]; rfl⟩
  | @cons i ds hn _ ih =>
    intro n o m hr ha hl
    obtain ⟨n, rfl⟩ : ∃ k, n = k + 1 := ⟨n - 1, by simp at hl; omega⟩
    by_cases hw : (descAt ram a i).isWrite = w
    · by_cases ho : o.toNat < (descAt ram a i).len.toNat
      · exact ⟨m.trace, by simp [memcpyToFromQueue.findOffset, seek, hw, ho, BitVec.lt_def]; rfl⟩
      · simp only [memcpyToFromQueue.findOffset, seek, hw, ho, hn, BitVec.lt_def, ne_eq,
          not_true_eq_false, if_false, Bool.not_true, Bool.false_eq_true, pure_bind]
        rw [getDesc_bind_run, hr, ha]
        have hsub : (o - (descAt ram a i).len).toNat = o.toNat - (descAt ram a i).len.toNat :=
          BitVec.toNat_sub_of_le (by rw [BitVec.le_def]; omega)
        obtain ⟨tr, h⟩ := ih n (o - (descAt ram a i).len) { m with ram := ram, trace := _ } rfl ha
          (by simp at hl; omega)
        rw [hsub] at h
        exact ⟨tr, h⟩
    · exact ⟨m.trace, by simp [memcpyToFromQueue.findOffset, seek, hw]; rfl⟩

-- One turn of the third loop from byte `o` of `d`, with the `int` arithmetic of `min_int` and the
-- tests on `count` and `offset` worked out: the turn moves `min count (len - o)` bytes.
theorem copy_succ_eq {w t : Bool} {d : VirtioDesc} {n : Nat} {o c : BitVec 32}
    {buf acc : List (BitVec 8)} (hd : d.len.toNat < 2 ^ 31) (ho : o.toNat ≤ d.len.toNat)
    (hc : c.toNat < 2 ^ 31) :
    memcpyToFromQueue.copy (σ := σ) q w t (n + 1) d o c buf acc = (do
      let k := min c.toNat (d.len.toNat - o.toNat)
      let addr := d.addr + BitVec.ofNat 64 o.toNat
      let acc ← if t then do virtioMemcpyToRam q .buffer addr (buf.take k); pure acc
        else do pure (acc ++ (← virtioMemcpyFromRam q .buffer addr k))
      if c.toNat ≤ d.len.toNat - o.toNat then return (0, acc)
      if !d.hasNext then return (-1, acc)
      let d' ← getDesc q d.next
      if d'.isWrite ≠ w then return (-1, acc)
      memcpyToFromQueue.copy q w t n d' 0 (c - (d.len - o)) (buf.drop (d.len.toNat - o.toNat)) acc) := by
  have hsub : (d.len - o).toNat = d.len.toNat - o.toNat :=
    BitVec.toNat_sub_of_le (by rw [BitVec.le_def]; omega)
  have hl := minInt_toNat (x := c) (y := d.len - o) hc (by omega)
  have hneg : ¬(minInt c (d.len - o)).toInt < 0 := by rw [toInt_of_lt (by omega)]; omega
  simp only [memcpyToFromQueue.copy, hneg, if_false, pure_bind, hl, hsub, signExtend_of_lt (by omega : o.toNat < 2 ^ 31)]
  by_cases hfit : c.toNat ≤ d.len.toNat - o.toNat
  · have hz : c - minInt c (d.len - o) = 0 := by
      apply BitVec.eq_of_toNat_eq; rw [BitVec.toNat_sub_of_le (by rw [BitVec.le_def]; omega)]; simp; omega
    simp only [hz, hfit, if_true]
  · have hm : minInt c (d.len - o) = d.len - o := by
      apply BitVec.eq_of_toNat_eq; rw [hl, hsub]; omega
    have hz : c - (d.len - o) ≠ 0 := by
      rw [ne_eq, BitVec.toNat_eq, toNat_sub_sub c ho (by omega)]; simp; omega
    have hend : o + (d.len - o) = d.len := by
      apply BitVec.eq_of_toNat_eq; rw [BitVec.toNat_add, hsub]; omega
    simp only [hm, hz, hend, hfit, if_true, if_false, eq_self_iff_true, Nat.min_eq_right (Nat.le_of_not_le hfit)]

-- The third loop, copying out of the queue from byte `o` of the first descriptor of a chain:
-- `c` bytes of the segment for `w` from there, or -1 where the segment ends first.
theorem copy_from_chain (w : Bool) {i : BitVec 16} {ds : List VirtioDesc} (h : IsChain ram a i ds)
    (hlen : ∀ d ∈ ds, d.len.toNat < 2 ^ 31) :
    ∀ (n : Nat) (o c : BitVec 32) (buf acc : List (BitVec 8)) (m : Machine σ), m.ram = ram →
      (m.dev.queue q).descAddr = a → ds.length ≤ n → (descAt ram a i).isWrite = w →
      o.toNat ≤ (descAt ram a i).len.toNat → 0 < c.toNat → c.toNat < 2 ^ 31 →
      ∃ r tr, (memcpyToFromQueue.copy q w false n (descAt ram a i) o c buf acc).run m =
          .ok (r, { m with trace := tr }) ∧
        (r.1 = 0 ↔ o.toNat + c.toNat ≤ bufLen (segment w ds)) ∧
        (r.1 = 0 → r.2 = acc ++ ((bufBytes ram (segment w ds)).drop o.toNat).take c.toNat) := by
  induction h with
  | @last i hn =>
    intro n o c buf acc m hr ha hl hw ho hc hc'
    obtain ⟨n, rfl⟩ : ∃ k, n = k + 1 := ⟨n - 1, by simp at hl; omega⟩
    have hseg : segment w [descAt ram a i] = [descAt ram a i] := segment_cons_of [] hw
    rw [copy_succ_eq (hlen _ (List.mem_singleton_self _)) ho hc']
    simp only [Bool.false_eq_true, if_false, bind_assoc, pure_bind]
    rw [virtioMemcpyFromRam_bind_run, hr]
    by_cases hfit : c.toNat ≤ (descAt ram a i).len.toNat - o.toNat
    · simp only [hfit, if_true, Nat.min_eq_left hfit]
      refine ⟨_, _, rfl, by simp [hseg]; omega, fun _ => ?_⟩
      rw [hseg, bufBytes_drop_take_head _ _ (by omega)]
    · simp only [hfit, hn, if_false, if_true, Bool.not_false, Nat.min_eq_right (Nat.le_of_not_le hfit)]
      exact ⟨_, _, rfl, by simp [hseg]; omega, by simp⟩
  | @cons i ds hn hch ih =>
    intro n o c buf acc m hr ha hl hw ho hc hc'
    obtain ⟨n, rfl⟩ : ∃ k, n = k + 1 := ⟨n - 1, by simp at hl; omega⟩
    have hd := hlen _ (List.mem_cons_self _ _)
    have hseg : segment w (descAt ram a i :: ds) = descAt ram a i :: segment w ds :=
      segment_cons_of ds hw
    rw [copy_succ_eq hd ho hc']
    simp only [Bool.false_eq_true, if_false, bind_assoc, pure_bind]
    rw [virtioMemcpyFromRam_bind_run, hr]
    by_cases hfit : c.toNat ≤ (descAt ram a i).len.toNat - o.toNat
    · simp only [hfit, if_true, Nat.min_eq_left hfit]
      refine ⟨_, _, rfl, by simp [hseg]; omega, fun _ => ?_⟩
      rw [hseg, bufBytes_drop_take_head _ _ (by omega)]
    · simp only [hfit, hn, if_false, Bool.not_true, Bool.false_eq_true, Nat.min_eq_right (Nat.le_of_not_le hfit)]
      rw [getDesc_bind_run]
      dsimp only
      rw [ha]
      obtain ⟨ds', rfl⟩ := hch.head
      have hc2 := toNat_sub_sub c ho (by omega)
      by_cases hw' : (descAt ram a (descAt ram a i).next).isWrite = w
      · rw [if_neg (by simp [hw'])]
        obtain ⟨r, tr, hrun, h1, h2⟩ := ih (fun d hd => hlen d (List.mem_cons_of_mem _ hd)) n 0
          (c - ((descAt ram a i).len - o)) (buf.drop ((descAt ram a i).len.toNat - o.toNat))
          (acc ++ readRam ram ((descAt ram a i).addr + BitVec.ofNat 64 o.toNat)
            ((descAt ram a i).len.toNat - o.toNat))
          { m with ram := ram, trace := _ } rfl ha (by simp at hl ⊢; omega) hw' (by simp)
          (by omega) (by omega)
        refine ⟨r, tr, hrun, ?_, fun h0 => ?_⟩
        · rw [h1, hseg, bufLen_cons, hc2]; simp; omega
        · rw [h2 h0, hseg, bufBytes_cons, drop_take_append (by simp; omega), if_neg (by simp; omega),
            hc2, length_readRam, readRam_drop _ _ _ _ ho]
          simp
      · rw [if_pos (by simpa using hw')]
        refine ⟨_, _, rfl, ?_, by simp⟩
        rw [hseg, segment_cons_of_ne _ hw']
        simp; omega

-- The second loop of `get_desc_rw_size`: the wrapped sum of the lengths, if every descriptor
-- left is device-writable.
theorem writable_chain {i : BitVec 16} {ds : List VirtioDesc} (h : IsChain ram a i ds) :
    ∀ (n : Nat) (ws : BitVec 32) (m : Machine σ), m.ram = ram → (m.dev.queue q).descAddr = a →
      ds.length ≤ n → ∃ tr, (getDescRwSize.writable q n (descAt ram a i) ws).run m =
        .ok (if ds.all (·.isWrite) then some (ws + BitVec.ofNat 32 (bufLen ds)) else none,
          { m with trace := tr }) := by
  induction h with
  | @last i hn =>
    intro n ws m _ _ hl
    obtain ⟨n, rfl⟩ : ∃ k, n = k + 1 := ⟨n - 1, by simp at hl; omega⟩
    by_cases hw : (descAt ram a i).isWrite
    · exact ⟨m.trace, by simp [getDescRwSize.writable, hw, hn]; rfl⟩
    · exact ⟨m.trace, by simp [getDescRwSize.writable, hw]; rfl⟩
  | @cons i ds hn _ ih =>
    intro n ws m hr ha hl
    obtain ⟨n, rfl⟩ : ∃ k, n = k + 1 := ⟨n - 1, by simp at hl; omega⟩
    by_cases hw : (descAt ram a i).isWrite
    · simp only [getDescRwSize.writable, hw, hn, Bool.not_true, Bool.false_eq_true, if_false, pure_bind]
      rw [getDesc_bind_run, hr, ha]
      obtain ⟨tr, h⟩ := ih n (ws + (descAt ram a i).len) { m with ram := ram, trace := _ } rfl ha
        (by simp at hl; omega)
      refine ⟨tr, h.trans ?_⟩
      simp [hw, BitVec.ofNat_add, BitVec.add_assoc]
    · exact ⟨m.trace, by simp [getDescRwSize.writable, hw]; rfl⟩

-- A chain that starts device-writable has an empty readable segment: the first loop hands it
-- whole to the second.
theorem readable_chain_of_isWrite {i : BitVec 16} {ds : List VirtioDesc} (h : IsChain ram a i ds)
    (hw : (descAt ram a i).isWrite) {n : Nat} (rs : BitVec 32) (m : Machine σ) (hr : m.ram = ram)
    (ha : (m.dev.queue q).descAddr = a) (hl : ds.length ≤ n) :
    ∃ tr, (getDescRwSize.readable q (n + 1) (descAt ram a i) rs).run m =
      .ok (if (afterSegment false ds).all (·.isWrite) then
          some (rs + BitVec.ofNat 32 (bufLen (segment false ds)),
            BitVec.ofNat 32 (bufLen (afterSegment false ds)))
        else none, { m with trace := tr }) := by
  obtain ⟨tr, hrun⟩ := writable_chain h n 0 m hr ha hl
  simp only [getDescRwSize.readable, hw, if_true, bind_pure_comp]
  rw [StateT.run_map, hrun]
  refine ⟨tr, ?_⟩
  obtain ⟨ds', rfl⟩ := h.head
  have hw' : (descAt ram a i).isWrite ≠ false := by simp [hw]
  simp only [segment_cons_of_ne _ hw', afterSegment_cons_of_ne _ hw', bufLen_nil]
  split
  · simp only [BitVec.ofNat_eq_ofNat, BitVec.zero_add, BitVec.add_zero]; rfl
  · rfl

-- The first loop: the readable segment's lengths summed into `rs`, then the second loop over the
-- rest of the chain.
theorem readable_chain {i : BitVec 16} {ds : List VirtioDesc} (h : IsChain ram a i ds) :
    ∀ (n : Nat) (rs : BitVec 32) (m : Machine σ), m.ram = ram → (m.dev.queue q).descAddr = a →
      ds.length < n → ∃ tr, (getDescRwSize.readable q n (descAt ram a i) rs).run m =
        .ok (if (afterSegment false ds).all (·.isWrite) then
            some (rs + BitVec.ofNat 32 (bufLen (segment false ds)),
              BitVec.ofNat 32 (bufLen (afterSegment false ds)))
          else none, { m with trace := tr }) := by
  induction h with
  | @last i hn =>
    intro n rs m hr ha hl
    obtain ⟨n, rfl⟩ : ∃ k, n = k + 1 := ⟨n - 1, by omega⟩
    by_cases hw : (descAt ram a i).isWrite
    · exact readable_chain_of_isWrite (.last hn) hw rs m hr ha (by simpa using hl)
    · exact ⟨m.trace, by simp [getDescRwSize.readable, hw, hn, segment, afterSegment]; rfl⟩
  | @cons i ds hn hch ih =>
    intro n rs m hr ha hl
    obtain ⟨n, rfl⟩ : ∃ k, n = k + 1 := ⟨n - 1, by omega⟩
    by_cases hw : (descAt ram a i).isWrite
    · exact readable_chain_of_isWrite (.cons hn hch) hw rs m hr ha (by simpa using hl)
    · simp only [getDescRwSize.readable, hw, hn, Bool.not_true, Bool.false_eq_true, if_false, pure_bind]
      rw [getDesc_bind_run, hr, ha]
      obtain ⟨tr, h⟩ := ih n (rs + (descAt ram a i).len) { m with ram := ram, trace := _ } rfl ha
        (by simp at hl; omega)
      refine ⟨tr, h.trans ?_⟩
      have hw' : (descAt ram a i).isWrite = false := by simpa using hw
      simp [segment_cons_of _ hw', afterSegment_cons_of _ hw', BitVec.ofNat_add, BitVec.add_assoc]

-- The first loop of `memcpy_to_from_queue` stops at the first descriptor after the readable
-- segment.
theorem findWrite_chain {i : BitVec 16} {ds : List VirtioDesc} (h : IsChain ram a i ds) :
    ∀ (n : Nat) (m : Machine σ), m.ram = ram → (m.dev.queue q).descAddr = a → ds.length ≤ n →
      ∃ tr, (memcpyToFromQueue.findWrite q n (descAt ram a i)).run m =
        .ok ((afterSegment false ds).head?, { m with trace := tr }) := by
  induction h with
  | @last i hn =>
    intro n m _ _ hl
    obtain ⟨n, rfl⟩ : ∃ k, n = k + 1 := ⟨n - 1, by simp at hl; omega⟩
    by_cases hw : (descAt ram a i).isWrite
    · exact ⟨m.trace, by simp [memcpyToFromQueue.findWrite, hw, afterSegment]; rfl⟩
    · exact ⟨m.trace, by simp [memcpyToFromQueue.findWrite, hw, hn, afterSegment]; rfl⟩
  | @cons i ds hn _ ih =>
    intro n m hr ha hl
    obtain ⟨n, rfl⟩ : ∃ k, n = k + 1 := ⟨n - 1, by simp at hl; omega⟩
    by_cases hw : (descAt ram a i).isWrite
    · exact ⟨m.trace, by simp [memcpyToFromQueue.findWrite, hw, afterSegment]; rfl⟩
    · simp only [memcpyToFromQueue.findWrite, hw, hn, Bool.not_true, Bool.false_eq_true, if_false,
        pure_bind]
      rw [getDesc_bind_run, hr, ha, afterSegment_cons_of _ (by simpa using hw)]
      exact ih n _ rfl ha (by simp at hl; omega)

-- `get_desc_rw_size` on a chain: the wrapped sums of the lengths of the readable segment and of
-- the rest, if the rest is all device-writable.
theorem getDescRwSize_chain {fuel : Nat} {i : BitVec 16} {ds : List VirtioDesc} (m : Machine σ)
    (h : IsChain m.ram (m.dev.queue q).descAddr i ds) (hfuel : ds.length < fuel) :
    ∃ tr, (getDescRwSize fuel q i).run m =
      .ok (if (afterSegment false ds).all (·.isWrite) then
          some (BitVec.ofNat 32 (bufLen (segment false ds)),
            BitVec.ofNat 32 (bufLen (afterSegment false ds)))
        else none, { m with trace := tr }) := by
  rw [getDescRwSize, getDesc_bind_run]
  obtain ⟨tr, h'⟩ := readable_chain h fuel 0
    { m with trace := .read q .desc ((m.dev.queue q).descAddr + i.setWidth 64 * 16) 16 :: m.trace }
    rfl rfl hfuel
  exact ⟨tr, by simpa only [BitVec.ofNat_eq_ofNat, BitVec.zero_add] using h'⟩

-- The console's transmit queue (1), rings at address 0. The driver makes available the
-- descriptor 0, device-readable and of length 2^31: `get_desc_rw_size` returns a `read_size`
-- that is negative as an `int`.
theorem console_read_size_wraps_negative :
    ∃ m, Reachable consoleModel m ∧
      ((getDescRwSize 1 1 0).run m).map Prod.fst = .ok (some (0x80000000, 0)) ∧
      (0x80000000 : BitVec 32).toInt = -2 ^ 31 := by
  have h := ((Reachable.init (D := consoleModel) fun _ => 0).step (.guest _ 2 [1, 0])).step
    (.guest _ 8 [0, 0, 0, 0x80])
  dsimp only at h
  exact ⟨_, h, rfl, by decide⟩

-- `memcpy_from_queue` copies bytes `offset` to `offset + count` of the readable segment, or
-- returns -1 where the segment is shorter.
theorem memcpyFromQueue_chain {fuel : Nat} {i : BitVec 16} {ds : List VirtioDesc}
    {offset count : BitVec 32} (m : Machine σ) (h : IsChain m.ram (m.dev.queue q).descAddr i ds)
    (hfuel : ds.length < fuel) (hlen : ∀ d ∈ ds, d.len.toNat < 2 ^ 31)
    (hc : 0 < count.toNat) (hc' : count.toNat < 2 ^ 31) :
    ∃ r tr, (memcpyFromQueue fuel q i offset count).run m = .ok (r, { m with trace := tr }) ∧
      (r.1 = 0 ↔ offset.toNat + count.toNat ≤ bufLen (segment false ds)) ∧
      (r.1 = 0 → r.2 = ((bufBytes m.ram (segment false ds)).drop offset.toNat).take count.toNat) := by
  have hc0 : count ≠ 0 := by rintro rfl; simp at hc
  simp only [memcpyFromQueue, memcpyToFromQueue, hc0, if_false, Bool.false_eq_true, pure_bind]
  rw [getDesc_bind_run]
  obtain ⟨tr, hf⟩ := findOffset_chain false h fuel offset
    { m with trace := .read q .desc ((m.dev.queue q).descAddr + i.setWidth 64 * 16) 16 :: m.trace }
    rfl rfl (Nat.le_of_lt hfuel)
  rw [StateT.run_bind, hf]
  rcases hs : seek false ds offset.toNat with _ | ⟨d, rest, o'⟩
  · have := seek_eq_none hs
    exact ⟨_, _, rfl, by simp; omega, by simp⟩
  · obtain ⟨P, rfl, hseg, hoff, hw, hlt⟩ := seek_eq_some hs
    obtain ⟨j, hj⟩ := h.suffix rfl (List.cons_ne_nil _ _)
    obtain ⟨rest', he⟩ := hj.head
    obtain ⟨rfl, rfl⟩ := List.cons.inj he
    have hd := hlen _ (List.mem_append_right _ (List.mem_cons_self _ _))
    have ho' : (BitVec.ofNat 32 o').toNat = o' := by simp; omega
    obtain ⟨r, tr', hrun, h1, h2⟩ := copy_from_chain false hj
      (fun x hx => hlen x (List.mem_append_right _ hx)) fuel (BitVec.ofNat 32 o') count [] []
      { m with trace := tr } rfl rfl (by simp at hfuel ⊢; omega) hw (by omega) hc hc'
    rw [ho'] at h1 h2
    refine ⟨r, tr', hrun, ?_, fun h0 => ?_⟩
    · rw [h1, hseg, bufLen_append, hoff]; omega
    · rw [h2 h0, hseg, bufBytes_append, hoff, ← length_bufBytes m.ram P, List.drop_append,
        List.nil_append]

-- The third loop, copying into the queue from byte `o` of the first descriptor of a chain: the
-- bytes of `buf` stored at bytes `o` to `o + c` of the writable segment, or -1 where it ends
-- first. Guest memory changes as the loop goes, and the descriptors it reads stay as they were as
-- long as no buffer byte is a byte of one of their entries.
theorem copy_to_chain {i : BitVec 16} {ds : List VirtioDesc} (h : IsChain ram a i ds)
    (hlen : ∀ d ∈ ds, d.len.toNat < 2 ^ 31)
    (hsep : ∀ d ∈ ds, d.hasNext = true → ∀ j < bufLen (segment true ds), ∀ t < 16,
      bufAddr (segment true ds) j ≠ a + d.next.setWidth 64 * 16 + BitVec.ofNat 64 t) :
    ∀ (n : Nat) (o c : BitVec 32) (buf acc : List (BitVec 8)) (m : Machine σ),
      (∀ d ∈ ds, d.hasNext = true → descAt m.ram a d.next = descAt ram a d.next) →
      (m.dev.queue q).descAddr = a → ds.length ≤ n → (descAt ram a i).isWrite = true →
      o.toNat ≤ (descAt ram a i).len.toNat → 0 < c.toNat → c.toNat < 2 ^ 31 → c.toNat ≤ buf.length →
      ∃ r m', (memcpyToFromQueue.copy q true true n (descAt ram a i) o c buf acc).run m = .ok (r, m') ∧
        m'.dev = m.dev ∧ (r.1 = 0 ↔ o.toNat + c.toNat ≤ bufLen (segment true ds)) ∧
        (r.1 = 0 → m'.ram = storeBytes (bufAddr (segment true ds)) o.toNat (buf.take c.toNat) m.ram) := by
  induction h with
  | @last i hn =>
    intro n o c buf acc m _ _ hl hw ho hc hc' hb
    obtain ⟨n, rfl⟩ : ∃ k, n = k + 1 := ⟨n - 1, by simp at hl; omega⟩
    have hseg : segment true [descAt ram a i] = [descAt ram a i] := segment_cons_of [] hw
    rw [copy_succ_eq (hlen _ (List.mem_singleton_self _)) ho hc']
    simp only [if_true, bind_assoc, pure_bind]
    rw [virtioMemcpyToRam_bind_run]
    by_cases hfit : c.toNat ≤ (descAt ram a i).len.toNat - o.toNat
    · simp only [hfit, if_true, Nat.min_eq_left hfit]
      refine ⟨_, _, rfl, rfl, by simp [hseg]; omega, fun _ => ?_⟩
      rw [hseg]
      exact writeRam_eq_storeBytes_bufAddr _ _ (by simp; omega)
    · simp only [hfit, hn, if_false, if_true, Bool.not_false]
      exact ⟨_, _, rfl, rfl, by simp [hseg]; omega, by simp⟩
  | @cons i ds hn hch ih =>
    intro n o c buf acc m hm ha hl hw ho hc hc' hb
    obtain ⟨n, rfl⟩ : ∃ k, n = k + 1 := ⟨n - 1, by simp at hl; omega⟩
    have hd := hlen _ (List.mem_cons_self _ _)
    have hseg : segment true (descAt ram a i :: ds) = descAt ram a i :: segment true ds :=
      segment_cons_of ds hw
    rw [copy_succ_eq hd ho hc']
    simp only [if_true, bind_assoc, pure_bind]
    rw [virtioMemcpyToRam_bind_run]
    by_cases hfit : c.toNat ≤ (descAt ram a i).len.toNat - o.toNat
    · simp only [hfit, if_true, Nat.min_eq_left hfit]
      refine ⟨_, _, rfl, rfl, by simp [hseg]; omega, fun _ => ?_⟩
      rw [hseg]
      exact writeRam_eq_storeBytes_bufAddr _ _ (by simp; omega)
    · simp only [hfit, hn, if_false, Bool.not_true, Bool.false_eq_true,
        Nat.min_eq_right (Nat.le_of_not_le hfit)]
      rw [getDesc_bind_run]
      dsimp only
      rw [ha]
      have hstore := writeRam_eq_storeBytes_bufAddr m.ram (segment true ds)
        (show o.toNat + (buf.take ((descAt ram a i).len.toNat - o.toNat)).length ≤
          (descAt ram a i).len.toNat by simp; omega)
      rw [← hseg] at hstore
      -- the stores leave every descriptor entry of the chain as it was
      have hfr : ∀ d ∈ descAt ram a i :: ds, d.hasNext = true →
          descAt (writeRam m.ram ((descAt ram a i).addr + BitVec.ofNat 64 o.toNat)
            (buf.take ((descAt ram a i).len.toNat - o.toNat))) a d.next = descAt ram a d.next := by
        intro d hd' hdn
        rw [hstore, descAt_storeBytes, hm d hd' hdn]
        intro k hk t ht
        exact hsep d hd' hdn _ (by rw [hseg, bufLen_cons]; simp at hk; omega) t ht
      rw [hfr _ (List.mem_cons_self _ _) hn]
      obtain ⟨ds', rfl⟩ := hch.head
      have hc2 := toNat_sub_sub c ho (by omega)
      by_cases hw' : (descAt ram a (descAt ram a i).next).isWrite = true
      · rw [if_neg (by simp [hw'])]
        obtain ⟨r, m', hrun, hdev, h1, h2⟩ := ih (fun d hd => hlen d (List.mem_cons_of_mem _ hd))
          (fun d hd hdn j hj t ht => by
            have := hsep d (List.mem_cons_of_mem _ hd) hdn ((descAt ram a i).len.toNat + j)
              (by rw [hseg, bufLen_cons]; omega) t ht
            rwa [hseg, bufAddr_cons_add] at this)
          n 0 (c - ((descAt ram a i).len - o)) (buf.drop ((descAt ram a i).len.toNat - o.toNat)) acc
          ⟨m.dev, writeRam m.ram ((descAt ram a i).addr + BitVec.ofNat 64 o.toNat)
              (buf.take ((descAt ram a i).len.toNat - o.toNat)),
            .read q .desc (a + (descAt ram a i).next.setWidth 64 * 16) 16 ::
              .write q .buffer ((descAt ram a i).addr + BitVec.ofNat 64 o.toNat)
                (buf.take ((descAt ram a i).len.toNat - o.toNat)) :: m.trace, m.ext⟩
          (fun d hd hdn => hfr d (List.mem_cons_of_mem _ hd) hdn) ha (by simp at hl ⊢; omega) hw'
          (by simp) (by omega) (by omega) (by simp; omega)
        refine ⟨r, m', hrun, hdev, ?_, fun h0 => ?_⟩
        · rw [h1, hseg, bufLen_cons, hc2]; simp; omega
        · have htake : buf.take c.toNat = buf.take ((descAt ram a i).len.toNat - o.toNat) ++
              (buf.drop ((descAt ram a i).len.toNat - o.toNat)).take
                (c.toNat - ((descAt ram a i).len.toNat - o.toNat)) := by
            rw [← List.take_add, Nat.add_sub_cancel' (by omega)]
          rw [h2 h0, hc2, hstore, htake, storeBytes_append, List.length_take,
            Nat.min_eq_left (by omega : (descAt ram a i).len.toNat - o.toNat ≤ buf.length), hseg]
          exact storeBytes_congr _ _ _ _ fun k _ => by
            rw [show (0 : BitVec 32).toNat = 0 from rfl, Nat.zero_add,
              show o.toNat + ((descAt ram a i).len.toNat - o.toNat) + k = (descAt ram a i).len.toNat + k by omega,
              bufAddr_cons_add]
      · rw [if_pos (by simpa using hw')]
        refine ⟨_, _, rfl, rfl, ?_, by simp⟩
        rw [hseg, segment_cons_of_ne _ (by simpa using hw')]
        simp; omega

-- `memcpy_to_queue`'s walk stores `buf` at bytes `offset` to `offset + count` of the descriptors
-- after the readable segment, when they are all device-writable and no byte of their buffers is a
-- byte of a descriptor entry the walk reads; or returns -1 where they are shorter.
theorem memcpyToFromQueue_to_chain {fuel : Nat} {i : BitVec 16} {ds : List VirtioDesc}
    {offset count : BitVec 32} {buf : List (BitVec 8)} (m : Machine σ)
    (h : IsChain m.ram (m.dev.queue q).descAddr i ds) (hfuel : ds.length < fuel)
    (hlen : ∀ d ∈ ds, d.len.toNat < 2 ^ 31) (hall : (afterSegment false ds).all (·.isWrite))
    (hsep : ∀ d ∈ ds, d.hasNext = true → ∀ j < bufLen (afterSegment false ds), ∀ t < 16,
      bufAddr (afterSegment false ds) j ≠
        (m.dev.queue q).descAddr + d.next.setWidth 64 * 16 + BitVec.ofNat 64 t)
    (hc : 0 < count.toNat) (hc' : count.toNat < 2 ^ 31) (hb : count.toNat ≤ buf.length) :
    ∃ r m', (memcpyToFromQueue fuel buf q i offset count true).run m = .ok (r, m') ∧
      m'.dev = m.dev ∧ (r.1 = 0 ↔ offset.toNat + count.toNat ≤ bufLen (afterSegment false ds)) ∧
      (r.1 = 0 → m'.ram =
        storeBytes (bufAddr (afterSegment false ds)) offset.toNat (buf.take count.toNat) m.ram) := by
  have hc0 : count ≠ 0 := by rintro rfl; simp at hc
  simp only [memcpyToFromQueue, hc0, if_false, if_true, pure_bind]
  rw [getDesc_bind_run]
  obtain ⟨tr, hf⟩ := findWrite_chain h fuel
    { m with trace := .read q .desc ((m.dev.queue q).descAddr + i.setWidth 64 * 16) 16 :: m.trace }
    rfl rfl (Nat.le_of_lt hfuel)
  rw [bind_run_ok hf]
  rcases hW : afterSegment false ds with _ | ⟨d, W⟩
  · exact ⟨_, _, rfl, rfl, by simp; omega, by simp⟩
  · have hW' : ds = segment false ds ++ d :: W := by rw [← hW, segment_append_afterSegment]
    obtain ⟨j, hj⟩ := h.suffix hW' (List.cons_ne_nil _ _)
    obtain ⟨W'', he⟩ := hj.head
    obtain ⟨rfl, rfl⟩ := List.cons.inj he
    obtain ⟨tr2, hf2⟩ := findOffset_chain true hj fuel offset { m with trace := tr } rfl rfl
      (by rw [hW'] at hfuel; simp at hfuel ⊢; omega)
    simp only [List.head?_cons]
    rw [bind_run_ok hf2]
    rw [hW] at hall hsep
    have hsegW := segment_of_all hall
    rcases hs : seek true (descAt m.ram (m.dev.queue q).descAddr j :: W) offset.toNat with _ | ⟨d', rest, o'⟩
    · have := seek_eq_none hs
      rw [hsegW] at this
      exact ⟨_, _, rfl, rfl, by simp at this ⊢; omega, by simp⟩
    · obtain ⟨P, hPW, hseg, hoff, hw, hlt⟩ := seek_eq_some hs
      obtain ⟨j', hj'⟩ := hj.suffix hPW (List.cons_ne_nil _ _)
      obtain ⟨rest', he'⟩ := hj'.head
      obtain ⟨rfl, rfl⟩ := List.cons.inj he'
      have hmem : ∀ x ∈ descAt m.ram (m.dev.queue q).descAddr j' :: rest, x ∈ ds := fun x hx => by
        rw [hW', hPW]; simp [hx]
      have ho' : (BitVec.ofNat 32 o').toNat = o' := by
        have := hlen _ (hmem _ (List.mem_cons_self _ _)); simp; omega
      obtain ⟨r, m', hrun, hdev, h1, h2⟩ := copy_to_chain hj' (fun x hx => hlen x (hmem x hx))
        (fun x hx hxn jj hjj t ht => by
          have := hsep x (hmem x hx) hxn (bufLen P + jj)
            (by rw [← hsegW, hseg, bufLen_append]; omega) t ht
          rwa [← hsegW, hseg, bufAddr_append] at this)
        fuel (BitVec.ofNat 32 o') count buf [] { m with trace := tr2 } (fun _ _ _ => rfl) rfl
        (by rw [hW', hPW] at hfuel; simp at hfuel ⊢; omega) hw (by omega) hc hc' hb
      rw [ho'] at h1 h2
      refine ⟨r, m', hrun, hdev, ?_, fun h0 => ?_⟩
      · rw [h1, ← hsegW, hseg, bufLen_append, hoff]; omega
      · rw [h2 h0, ← hsegW, hseg, hoff]
        exact storeBytes_congr _ _ _ _ fun k _ => by rw [Nat.add_assoc, bufAddr_append]

end Walk

end Virtio
