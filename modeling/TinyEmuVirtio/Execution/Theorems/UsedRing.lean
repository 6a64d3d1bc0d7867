import TinyEmuVirtio.Execution.Buffers
import TinyEmuVirtio.Execution.Theorems.Transport

namespace Virtio

/-! The used ring, as the driver reads it -/

-- `used.idx` of a queue.
def usedIdxAt (ram : Ram) (qs : QueueState) : BitVec 16 :=
  BitVec.ofNat 16 (fromLe (readRam ram (qs.usedAddr + 2) 2))

-- The address of the used-ring element for `idx`.
def usedElemAddr (qs : QueueState) (idx : BitVec 16) : BitVec 64 :=
  qs.usedAddr + 4 + ((idx.setWidth 32 &&& (qs.num - 1)) * 8).setWidth 64

-- The element `(id, len)` of the used ring for `idx`.
def usedElemAt (ram : Ram) (qs : QueueState) (idx : BitVec 16) : BitVec 32 × BitVec 32 :=
  (BitVec.ofNat 32 (fromLe (readRam ram (usedElemAddr qs idx) 4)),
    BitVec.ofNat 32 (fromLe (readRam ram (usedElemAddr qs idx + 4) 4)))

variable {σ : Type}

-- `virtio_consume_desc` stores the element for `used.idx`, then the next `used.idx`.
theorem virtioConsumeDesc_run (q : Fin maxQueue) (d : BitVec 16) (len : BitVec 32) (m : Machine σ) :
    ∃ tr, (virtioConsumeDesc q d len).run m = .ok ((), { m with
      dev := ({ m.dev with intStatus := m.dev.intStatus ||| 1 }).setIrq true
      ram := writeRam (writeRam (writeRam m.ram
          (usedElemAddr (m.dev.queue q) (usedIdxAt m.ram (m.dev.queue q))) (toLe d.toNat 4))
          (usedElemAddr (m.dev.queue q) (usedIdxAt m.ram (m.dev.queue q)) + 4) (toLe len.toNat 4))
        ((m.dev.queue q).usedAddr + 2) (toLe (usedIdxAt m.ram (m.dev.queue q) + 1).toNat 2)
      trace := tr }) := by
  have h1 : ((usedIdxAt m.ram (m.dev.queue q)).setWidth 32 + 1).setWidth 16 =
      usedIdxAt m.ram (m.dev.queue q) + 1 := by
    bv_omega
  have h2 : (d.setWidth 32).toNat = d.toNat := by simp only [BitVec.toNat_setWidth]; omega
  exact ⟨_, by rw [← h1, ← h2]; rfl⟩

section Ring

variable {qs : QueueState}

-- The slot of `idx` in a ring of a power of two entries is `idx` modulo `num`.
theorem usedSlot_toNat (hpow : isPow2 qs.num) (idx : BitVec 16) :
    (idx.setWidth 32 &&& (qs.num - 1)).toNat = idx.toNat % qs.num.toNat := by
  have := idx.isLt
  rw [and_sub_one_toNat (isPow2_isPowerOfTwo hpow), BitVec.toNat_setWidth,
    Nat.mod_eq_of_lt (show idx.toNat < 2 ^ 32 by omega)]

theorem num_pos (hpow : isPow2 qs.num) : 0 < qs.num.toNat := by
  obtain ⟨k, hk⟩ := isPow2_isPowerOfTwo hpow
  exact hk ▸ Nat.two_pow_pos k

theorem usedElemAddr_toNat (hpow : isPow2 qs.num)
    (hfit : qs.usedAddr.toNat + 4 + 8 * qs.num.toNat ≤ 2 ^ 64) (idx : BitVec 16) :
    (usedElemAddr qs idx).toNat = qs.usedAddr.toNat + 4 + 8 * (idx.toNat % qs.num.toNat) := by
  have hs := Nat.mod_lt idx.toNat (num_pos hpow)
  have hs' := Nat.mod_le idx.toNat qs.num.toNat
  have hi := idx.isLt
  simp only [usedElemAddr, BitVec.toNat_add, BitVec.toNat_setWidth, BitVec.toNat_mul,
    usedSlot_toNat hpow]
  simp only [BitVec.ofNat_eq_ofNat, BitVec.toNat_ofNat]
  omega

-- The bytes of the element for `idx` lie after `used.idx`.
theorem usedElemAddr_sub_idx (hpow : isPow2 qs.num)
    (hfit : qs.usedAddr.toNat + 4 + 8 * qs.num.toNat ≤ 2 ^ 64) (idx : BitVec 16) {t : Nat}
    (ht : t < 8) :
    (usedElemAddr qs idx + BitVec.ofNat 64 t - (qs.usedAddr + 2)).toNat =
      2 + 8 * (idx.toNat % qs.num.toNat) + t := by
  have hE := usedElemAddr_toNat hpow hfit idx
  have hs := Nat.mod_lt idx.toNat (num_pos hpow)
  generalize idx.toNat % qs.num.toNat = s at hE hs ⊢
  generalize usedElemAddr qs idx = E at hE
  bv_omega

-- The bytes of the elements in two distinct slots are apart.
theorem usedElemAddr_sub_ne (hpow : isPow2 qs.num)
    (hfit : qs.usedAddr.toNat + 4 + 8 * qs.num.toNat ≤ 2 ^ 64) {x y : BitVec 16}
    (hxy : x.toNat % qs.num.toNat ≠ y.toNat % qs.num.toNat) {t : Nat} (ht : t < 8) :
    8 ≤ (usedElemAddr qs x + BitVec.ofNat 64 t - usedElemAddr qs y).toNat := by
  have hx := usedElemAddr_toNat hpow hfit x
  have hy := usedElemAddr_toNat hpow hfit y
  have hsx := Nat.mod_lt x.toNat (num_pos hpow)
  have hsy := Nat.mod_lt y.toNat (num_pos hpow)
  generalize x.toNat % qs.num.toNat = sx at hx hsx hxy
  generalize y.toNat % qs.num.toNat = sy at hy hsy hxy
  generalize usedElemAddr qs x = Ex at hx
  generalize usedElemAddr qs y = Ey at hy
  bv_omega

-- An element reads the same where its eight bytes do.
theorem usedElemAt_congr {ram ram' : Ram} {idx : BitVec 16}
    (h : ∀ t < 8, ram' (usedElemAddr qs idx + BitVec.ofNat 64 t) =
      ram (usedElemAddr qs idx + BitVec.ofNat 64 t)) :
    usedElemAt ram' qs idx = usedElemAt ram qs idx := by
  simp only [usedElemAt, readRam]
  congr 3 <;> refine List.map_congr_left fun i hi => ?_ <;> simp only [List.mem_range] at hi
  · exact h i (by omega)
  · rw [BitVec.add_assoc, show (4 : BitVec 64) + BitVec.ofNat 64 i = BitVec.ofNat 64 (4 + i) by
      rw [BitVec.ofNat_add]; rfl]
    exact h _ (by omega)

theorem add_one_add_ofNat (u : BitVec 16) (j : Nat) :
    u + 1 + BitVec.ofNat 16 j = u + BitVec.ofNat 16 (j + 1) := by
  rw [BitVec.add_assoc, BitVec.ofNat_add, BitVec.add_comm 1]; rfl

-- Less than one revolution from `u`, distinct indices have distinct slots.
theorem usedSlot_ne (hpow : isPow2 qs.num) (u : BitVec 16) {n a b : Nat} (hn : n ≤ qs.num.toNat)
    (hn' : n ≤ 2 ^ 16) (ha : a < n) (hb : b < n) (hne : a ≠ b) :
    (u + BitVec.ofNat 16 a).toNat % qs.num.toNat ≠ (u + BitVec.ofNat 16 b).toNat % qs.num.toNat := by
  obtain ⟨k, hk⟩ := isPow2_isPowerOfTwo hpow
  have hadd : ∀ j, (u + BitVec.ofNat 16 j).toNat = (u.toNat + j) % 2 ^ 16 := fun j => by
    rw [BitVec.toNat_add, BitVec.toNat_ofNat, Nat.add_mod_mod]
  -- both slots are residues modulo the smaller of `num` and `2^16`, which is at least `n`
  obtain ⟨M, hM, hnM⟩ : ∃ M, (∀ x, x % 2 ^ 16 % 2 ^ k = x % M) ∧ n ≤ M := by
    rcases Nat.le_total k 16 with hk16 | hk16
    · exact ⟨2 ^ k, fun x => Nat.mod_mod_of_dvd x (Nat.pow_dvd_pow 2 hk16), hk ▸ hn⟩
    · exact ⟨2 ^ 16, fun x => Nat.mod_eq_of_lt (lt_of_lt_of_le (Nat.mod_lt _ (by norm_num))
        (Nat.pow_le_pow_right (by norm_num) hk16)), hn'⟩
  rw [hadd, hadd, hk, hM, hM]
  intro h
  have := Nat.ModEq.add_left_cancel' u.toNat h
  rw [Nat.ModEq, Nat.mod_eq_of_lt (by omega), Nat.mod_eq_of_lt (by omega)] at this
  exact hne this

variable {q : Fin maxQueue}

-- One `virtio_consume_desc`: `used.idx` moves on by one, the element for the old one holds
-- `(id, len)`, and no other byte of guest memory changes.
theorem virtioConsumeDesc_used (d : BitVec 16) (len : BitVec 32) (m : Machine σ)
    (hpow : isPow2 (m.dev.queue q).num)
    (hfit : (m.dev.queue q).usedAddr.toNat + 4 + 8 * (m.dev.queue q).num.toNat ≤ 2 ^ 64) :
    ∃ m', (virtioConsumeDesc q d len).run m = .ok ((), m') ∧
      m'.dev = ({ m.dev with intStatus := m.dev.intStatus ||| 1 }).setIrq true ∧
      usedIdxAt m'.ram (m.dev.queue q) = usedIdxAt m.ram (m.dev.queue q) + 1 ∧
      usedElemAt m'.ram (m.dev.queue q) (usedIdxAt m.ram (m.dev.queue q)) = (d.setWidth 32, len) ∧
      ∀ a, 2 ≤ (a - ((m.dev.queue q).usedAddr + 2)).toNat →
        8 ≤ (a - usedElemAddr (m.dev.queue q) (usedIdxAt m.ram (m.dev.queue q))).toNat →
        m'.ram a = m.ram a := by
  obtain ⟨tr, h⟩ := virtioConsumeDesc_run q d len m
  have hidx : ∀ t < 8, 2 ≤ (usedElemAddr (m.dev.queue q) (usedIdxAt m.ram (m.dev.queue q)) +
      BitVec.ofNat 64 t - ((m.dev.queue q).usedAddr + 2)).toNat := fun t ht => by
    rw [usedElemAddr_sub_idx hpow hfit _ ht]; omega
  refine ⟨_, h, rfl, ?_, ?_, fun a h1 h2 => ?_⟩ <;> dsimp only <;> clear h
  · simp only [usedIdxAt]
    rw [readRam_writeRam_self _ _ (length_toLe _ _) (by norm_num), fromLe_toLe]
    apply BitVec.eq_of_toNat_eq
    simp only [BitVec.toNat_ofNat]
    omega
  · simp only [usedElemAt]
    rw [readRam_writeRam_of_le fun i hi => ?_, readRam_writeRam_of_le fun i hi => ?_,
      readRam_writeRam_self _ _ (length_toLe _ _) (by norm_num), readRam_writeRam_of_le fun i hi => ?_,
      readRam_writeRam_self _ _ (length_toLe _ _) (by norm_num), fromLe_toLe, fromLe_toLe]
    · refine Prod.ext (BitVec.eq_of_toNat_eq ?_) (BitVec.eq_of_toNat_eq ?_) <;>
        simp only [BitVec.toNat_ofNat, BitVec.toNat_setWidth] <;> omega
    · rw [length_toLe, BitVec.add_assoc, show (4 : BitVec 64) + BitVec.ofNat 64 i = BitVec.ofNat 64 (4 + i) by
        rw [BitVec.ofNat_add]; rfl]
      exact hidx _ (by omega)
    · rw [length_toLe, add_sub_add_left_eq_sub]
      clear * - hi
      bv_omega
    · exact (length_toLe _ _).trans_le (hidx _ (by omega))
  · rw [writeRam_apply_of_le (by simpa using h1), writeRam_apply_of_le (by simp; bv_omega),
      writeRam_apply_of_le (by simp; bv_omega)]
-- Any run of at most `num` completions publishes them to the used ring in order: `used.idx`
-- moves on by their number, the elements from the old `used.idx` on hold them, and no other
-- byte of guest memory changes.
theorem virtioConsumeDesc_forM_used : ∀ (cs : List (BitVec 16 × BitVec 32)) (m : Machine σ),
    isPow2 (m.dev.queue q).num →
    (m.dev.queue q).usedAddr.toNat + 4 + 8 * (m.dev.queue q).num.toNat ≤ 2 ^ 64 →
    cs.length ≤ (m.dev.queue q).num.toNat → cs.length ≤ 2 ^ 16 →
    ∃ m', (cs.forM fun c => virtioConsumeDesc q c.1 c.2).run m = .ok ((), m') ∧
      m'.dev = (if cs = [] then m.dev else ({ m.dev with intStatus := m.dev.intStatus ||| 1 }).setIrq true) ∧
      usedIdxAt m'.ram (m.dev.queue q) = usedIdxAt m.ram (m.dev.queue q) + BitVec.ofNat 16 cs.length ∧
      (∀ j (hj : j < cs.length), usedElemAt m'.ram (m.dev.queue q)
        (usedIdxAt m.ram (m.dev.queue q) + BitVec.ofNat 16 j) = (cs[j].1.setWidth 32, cs[j].2)) ∧
      ∀ a, 2 ≤ (a - ((m.dev.queue q).usedAddr + 2)).toNat →
        (∀ j < cs.length, 8 ≤ (a - usedElemAddr (m.dev.queue q)
          (usedIdxAt m.ram (m.dev.queue q) + BitVec.ofNat 16 j)).toNat) →
        m'.ram a = m.ram a
  | [], m, _, _, _, _ => ⟨m, rfl, rfl, by simp, fun j hj => absurd hj (by simp), fun _ _ _ => rfl⟩
  | c :: cs, m, hpow, hfit, hl, hl' => by
    obtain ⟨m1, h1, hd1, hi1, he1, hf1⟩ := virtioConsumeDesc_used c.1 c.2 m hpow hfit
    have hq : m1.dev.queue q = m.dev.queue q := by rw [hd1]; rfl
    simp only [List.length_cons] at hl hl'
    obtain ⟨m2, h2, hd2, hi2, he2, hf2⟩ :=
      virtioConsumeDesc_forM_used cs m1 (hq ▸ hpow) (hq ▸ hfit) (by rw [hq]; omega) (by omega)
    simp only [hq, hi1, add_one_add_ofNat] at hi2 he2 hf2
    -- the element of `used.idx` itself, which the later completions leave alone
    have hsep : ∀ j < cs.length, ∀ t < 8, 8 ≤ (usedElemAddr (m.dev.queue q) (usedIdxAt m.ram (m.dev.queue q)) +
        BitVec.ofNat 64 t - usedElemAddr (m.dev.queue q)
          (usedIdxAt m.ram (m.dev.queue q) + BitVec.ofNat 16 (j + 1))).toNat := fun j hj t ht => by
      refine usedElemAddr_sub_ne hpow hfit ?_ ht
      simpa using usedSlot_ne hpow (usedIdxAt m.ram (m.dev.queue q)) (n := cs.length + 1) (by omega)
        (by omega) (a := 0) (b := j + 1) (by omega) (by omega) (by omega)
    refine ⟨m2, ?_, ?_, ?_, fun j hj => ?_, fun a ha hall => ?_⟩
    · show (virtioConsumeDesc q c.1 c.2 >>= fun _ => cs.forM _).run m = _
      rw [bind_run_ok h1]
      exact h2
    · rw [hd2, hd1, if_neg (List.cons_ne_nil _ _)]
      split <;> simp [VirtioDevice.setIrq, BitVec.or_assoc]
    · rw [hi2, List.length_cons]
    · cases j with
      | zero =>
        rw [show ∀ u : BitVec 16, u + BitVec.ofNat 16 0 = u from BitVec.add_zero,
          List.getElem_cons_zero, ← he1]
        exact usedElemAt_congr fun t ht =>
          hf2 _ (by rw [usedElemAddr_sub_idx hpow hfit _ ht]; omega) fun j hj => hsep j hj t ht
      | succ j => exact he2 j (by simpa using hj)
    · rw [hf2 a ha fun j hj => hall (j + 1) (by simpa using hj),
        hf1 a ha (by simpa using hall 0 (by simp))]

end Ring

-- A ring of four elements at 0x100 with `used.idx` 0: completing the heads 3 and 5 fills the
-- elements 0 and 1 and moves `used.idx` to 2.
theorem used_ring_takes_two_completions :
    let m : Machine Unit :=
      ⟨(virtioInit 4 0).updateQueue 0 ({ · with num := 4, usedAddr := 0x100 }), fun _ => 0, [], ()⟩
    ∃ m', ([((3 : BitVec 16), (10 : BitVec 32)), (5, 0)].forM fun c =>
        virtioConsumeDesc 0 c.1 c.2).run m = .ok ((), m') ∧
      usedIdxAt m'.ram (m.dev.queue 0) = 2 ∧ usedElemAt m'.ram (m.dev.queue 0) 0 = (3, 10) ∧
      usedElemAt m'.ram (m.dev.queue 0) 1 = (5, 0) := by
  intro m
  obtain ⟨m', h, -, hi, he, -⟩ := virtioConsumeDesc_forM_used (q := 0) [(3, 10), (5, 0)] m (by decide)
    (by decide) (by decide) (by decide)
  exact ⟨m', h, hi, he 0 (by decide), he 1 (by decide)⟩

end Virtio
