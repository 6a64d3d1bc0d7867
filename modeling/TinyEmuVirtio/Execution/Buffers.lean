import TinyEmuVirtio.Execution.Chain

namespace Virtio

/-! Guest memory read byte by byte -/

theorem readRam_add (ram : Ram) (a : BitVec 64) (n k : Nat) :
    readRam ram a (n + k) = readRam ram a n ++ readRam ram (a + BitVec.ofNat 64 n) k := by
  simp only [readRam, List.range_add, List.map_append, List.map_map]
  congr 1
  apply List.map_congr_left
  intro i _
  simp only [Function.comp_apply, BitVec.ofNat_add, BitVec.add_assoc]

theorem readRam_drop_take (ram : Ram) (a : BitVec 64) (n o c : Nat) (h : o + c ≤ n) :
    ((readRam ram a n).drop o).take c = readRam ram (a + BitVec.ofNat 64 o) c := by
  obtain ⟨k, rfl⟩ : ∃ k, n = o + c + k := ⟨n - (o + c), by omega⟩
  rw [readRam_add, readRam_add, List.append_assoc, List.drop_left' (by simp [readRam]),
    List.take_left' (by simp [readRam])]

theorem readRam_drop (ram : Ram) (a : BitVec 64) (n o : Nat) (h : o ≤ n) :
    (readRam ram a n).drop o = readRam ram (a + BitVec.ofNat 64 o) (n - o) := by
  obtain ⟨k, rfl⟩ : ∃ k, n = o + k := ⟨n - o, by omega⟩
  rw [readRam_add, List.drop_left' (by simp [readRam]), Nat.add_sub_cancel_left]

@[simp] theorem length_readRam (ram : Ram) (a : BitVec 64) (n : Nat) : (readRam ram a n).length = n := by
  simp [readRam]

@[simp] theorem length_toLe (v n : Nat) : (toLe v n).length = n := by
  induction n generalizing v <;> simp_all [toLe]

theorem fromLe_toLe (v n : Nat) : fromLe (toLe v n) = v % 256 ^ n := by
  induction n generalizing v with
  | zero => simp [toLe, fromLe, Nat.mod_one]
  | succ n ih =>
    rw [toLe, fromLe, ih, BitVec.toNat_ofNat, show (2 : Nat) ^ 8 = 256 from rfl, pow_succ', Nat.mod_mul]

theorem fromLe_lt : ∀ bs : List (BitVec 8), fromLe bs < 256 ^ bs.length
  | [] => by decide
  | b :: bs => by
    have := fromLe_lt bs
    have : b.toNat < 256 := b.isLt
    rw [fromLe, List.length_cons, pow_succ']
    omega

-- Bytes read as a number and put back are the bytes read.
theorem toLe_fromLe : ∀ bs : List (BitVec 8), toLe (fromLe bs) bs.length = bs
  | [] => rfl
  | b :: bs => by
    have hb : b.toNat < 256 := b.isLt
    rw [fromLe, List.length_cons, toLe, show (b.toNat + 256 * fromLe bs) / 256 = fromLe bs by omega,
      toLe_fromLe bs]
    congr 1
    apply BitVec.eq_of_toNat_eq
    rw [BitVec.toNat_ofNat]
    omega

-- A store leaves the bytes outside it alone, and reads back as what it stored.
theorem writeRam_apply_of_le {ram : Ram} {x a : BitVec 64} {bs : List (BitVec 8)}
    (h : bs.length ≤ (a - x).toNat) : writeRam ram x bs a = ram a := by
  simp only [writeRam, List.getD_eq_getElem?_getD, List.getElem?_eq_none h, Option.getD_none]

theorem readRam_writeRam_of_le {ram : Ram} {x y : BitVec 64} {bs : List (BitVec 8)} {n : Nat}
    (h : ∀ i < n, bs.length ≤ (y + BitVec.ofNat 64 i - x).toNat) :
    readRam (writeRam ram x bs) y n = readRam ram y n :=
  List.map_congr_left fun i hi => writeRam_apply_of_le (h i (List.mem_range.1 hi))

theorem readRam_writeRam_self (ram : Ram) (x : BitVec 64) {bs : List (BitVec 8)} {n : Nat}
    (hn : bs.length = n) (h : n < 2 ^ 64) : readRam (writeRam ram x bs) x n = bs := by
  subst hn
  apply List.ext_getElem (by simp)
  intro i h1 h2
  simp only [readRam, List.getElem_map, List.getElem_range, writeRam, add_sub_cancel_left,
    BitVec.toNat_ofNat, Nat.mod_eq_of_lt (show i < 2 ^ 64 by simp at h1; omega),
    List.getD_eq_getElem?_getD, List.getElem?_eq_getElem h2, Option.getD_some]

-- Guest memory after `bs[k]` is stored at `addrOf (o + k)`, for each `k` in turn.
def storeBytes (addrOf : Nat → BitVec 64) (o : Nat) : List (BitVec 8) → Ram → Ram
  | [], ram => ram
  | b :: bs, ram => storeBytes addrOf (o + 1) bs (writeRam ram (addrOf o) [b])

theorem storeBytes_append (f : Nat → BitVec 64) :
    ∀ (xs ys : List (BitVec 8)) (o : Nat) (ram : Ram),
      storeBytes f o (xs ++ ys) ram = storeBytes f (o + xs.length) ys (storeBytes f o xs ram)
  | [], _, _, _ => rfl
  | x :: xs, ys, o, ram => by
    rw [List.cons_append, storeBytes, storeBytes_append f xs, storeBytes, List.length_cons,
      Nat.add_assoc, Nat.add_comm 1]

theorem storeBytes_congr {f g : Nat → BitVec 64} :
    ∀ (bs : List (BitVec 8)) (o o' : Nat) (ram : Ram), (∀ k < bs.length, f (o + k) = g (o' + k)) →
      storeBytes f o bs ram = storeBytes g o' bs ram
  | [], _, _, _, _ => rfl
  | b :: bs, o, o', ram, h => by
    have h0 : f o = g o' := h 0 (by simp)
    rw [storeBytes, storeBytes, h0]
    exact storeBytes_congr bs _ _ _ fun k hk => by
      simpa [Nat.add_assoc, Nat.add_comm 1] using h (k + 1) (by simp; omega)

-- `[b].getD k` past its one element.
theorem getD_singleton_of_ne {b d : BitVec 8} {k : Nat} (h : k ≠ 0) : [b].getD k d = d := by
  rw [List.getD_eq_getElem?_getD, List.getElem?_eq_none (by simp; omega), Option.getD_none]

-- A byte no store reaches keeps its value.
theorem storeBytes_apply_of_ne {f : Nat → BitVec 64} {x : BitVec 64} :
    ∀ (bs : List (BitVec 8)) (o : Nat) (ram : Ram), (∀ k < bs.length, f (o + k) ≠ x) →
      storeBytes f o bs ram x = ram x
  | [], _, _, _ => rfl
  | b :: bs, o, ram, h => by
    rw [storeBytes, storeBytes_apply_of_ne bs _ _ fun k hk => by
      simpa [Nat.add_assoc, Nat.add_comm 1] using h (k + 1) (by simp; omega)]
    have h0 : f o ≠ x := by simpa using h 0 (by simp)
    exact getD_singleton_of_ne fun h' => h0 (by bv_omega)

-- `writeRam` of `b :: bs` stores `b`, then `bs` from the next address.
theorem writeRam_cons (ram : Ram) (x : BitVec 64) (b : BitVec 8) (bs : List (BitVec 8))
    (h : bs.length + 1 < 2 ^ 64) :
    writeRam ram x (b :: bs) = writeRam (writeRam ram x [b]) (x + 1) bs := by
  funext y
  simp only [writeRam]
  by_cases hy : y = x
  · subst hy
    rw [show (y - y).toNat = 0 by simp, List.getD_cons_zero, List.getD_eq_getElem?_getD,
      List.getElem?_eq_none (by bv_omega), Option.getD_none, List.getD_cons_zero]
  · have h1 : (y - x).toNat ≠ 0 := fun h' => hy (by bv_omega)
    obtain ⟨k, hk⟩ : ∃ k, (y - x).toNat = k + 1 := ⟨_, (Nat.succ_pred_eq_of_ne_zero h1).symm⟩
    have hk' : (y - (x + 1)).toNat = k := by bv_omega
    rw [hk, hk', List.getD_cons_succ, getD_singleton_of_ne (Nat.succ_ne_zero k)]

theorem writeRam_eq_storeBytes (x : BitVec 64) :
    ∀ (bs : List (BitVec 8)) (o : Nat) (ram : Ram), o + bs.length < 2 ^ 64 →
      writeRam ram (x + BitVec.ofNat 64 o) bs = storeBytes (fun j => x + BitVec.ofNat 64 j) o bs ram
  | [], _, _, _ => by funext y; simp [writeRam, storeBytes]
  | b :: bs, o, ram, h => by
    have hx : x + BitVec.ofNat 64 o + 1 = x + BitVec.ofNat 64 (o + 1) := by
      rw [BitVec.ofNat_add, BitVec.add_assoc]; rfl
    rw [writeRam_cons _ _ _ _ (by simp at h; omega), storeBytes, hx,
      writeRam_eq_storeBytes x bs _ _ (by simp at h; omega)]

/-! Descriptor chains as lists -/

-- The chain from `i`: the descriptors `NEXT` leads through from `i`, to the first without it.
inductive IsChain (ram : Ram) (a : BitVec 64) : BitVec 16 → List VirtioDesc → Prop
  | last {i} : (descAt ram a i).hasNext = false → IsChain ram a i [descAt ram a i]
  | cons {i ds} : (descAt ram a i).hasNext = true → IsChain ram a (descAt ram a i).next ds →
      IsChain ram a i (descAt ram a i :: ds)

theorem IsChain.head {ram : Ram} {a : BitVec 64} {i : BitVec 16} {ds : List VirtioDesc}
    (h : IsChain ram a i ds) : ∃ ds', ds = descAt ram a i :: ds' := by
  cases h <;> exact ⟨_, rfl⟩

theorem IsChain.suffix {ram : Ram} {a : BitVec 64} {i : BitVec 16} {ds : List VirtioDesc}
    (h : IsChain ram a i ds) :
    ∀ {P Q : List VirtioDesc}, ds = P ++ Q → Q ≠ [] → ∃ j, IsChain ram a j Q := by
  induction h with
  | @last i hn =>
    intro P Q he hQ
    rcases List.cons_eq_append_iff.1 he with ⟨rfl, rfl⟩ | ⟨P', rfl, he'⟩
    · exact ⟨i, .last hn⟩
    · exact absurd (List.append_eq_nil.1 he'.symm).2 hQ
  | @cons i ds hn hch ih =>
    intro P Q he hQ
    rcases List.cons_eq_append_iff.1 he with ⟨rfl, rfl⟩ | ⟨P', rfl, he'⟩
    · exact ⟨i, .cons hn hch⟩
    · exact ih he' hQ

-- The bytes of the buffers of `ds`, one after the other.
def bufBytes (ram : Ram) (ds : List VirtioDesc) : List (BitVec 8) :=
  ds.flatMap fun d => readRam ram d.addr d.len.toNat

def bufLen (ds : List VirtioDesc) : Nat := (ds.map fun d => d.len.toNat).sum

@[simp] theorem bufBytes_nil (ram : Ram) : bufBytes ram [] = [] := rfl
@[simp] theorem bufBytes_cons (ram : Ram) (d : VirtioDesc) (ds : List VirtioDesc) :
    bufBytes ram (d :: ds) = readRam ram d.addr d.len.toNat ++ bufBytes ram ds := rfl
@[simp] theorem bufLen_nil : bufLen [] = 0 := rfl
@[simp] theorem bufLen_cons (d : VirtioDesc) (ds : List VirtioDesc) :
    bufLen (d :: ds) = d.len.toNat + bufLen ds := rfl

@[simp] theorem bufBytes_append (ram : Ram) (ds ds' : List VirtioDesc) :
    bufBytes ram (ds ++ ds') = bufBytes ram ds ++ bufBytes ram ds' := List.flatMap_append ..
@[simp] theorem bufLen_append (ds ds' : List VirtioDesc) : bufLen (ds ++ ds') = bufLen ds + bufLen ds' := by
  induction ds <;> simp_all [Nat.add_assoc]

theorem length_bufBytes (ram : Ram) (ds : List VirtioDesc) : (bufBytes ram ds).length = bufLen ds := by
  induction ds <;> simp_all

-- The guest address of byte `j` of the buffers of `ds`, one after the other.
def bufAddr : List VirtioDesc → Nat → BitVec 64
  | [], _ => 0
  | d :: ds, j => if j < d.len.toNat then d.addr + BitVec.ofNat 64 j else bufAddr ds (j - d.len.toNat)

@[simp] theorem bufAddr_cons_add (d : VirtioDesc) (ds : List VirtioDesc) (j : Nat) :
    bufAddr (d :: ds) (d.len.toNat + j) = bufAddr ds j := by
  rw [bufAddr, if_neg (by omega), Nat.add_sub_cancel_left]

theorem bufAddr_append (P Q : List VirtioDesc) (j : Nat) : bufAddr (P ++ Q) (bufLen P + j) = bufAddr Q j := by
  induction P with
  | nil => simp
  | cons d P ih => rw [List.cons_append, bufLen_cons, Nat.add_assoc, bufAddr_cons_add, ih]

-- A store of `bs` from byte `o` of a buffer it fits in is a store at the bytes `o + k` of the
-- buffers `d :: ds`.
theorem writeRam_eq_storeBytes_bufAddr (ram : Ram) {d : VirtioDesc} (ds : List VirtioDesc) {o : Nat}
    {bs : List (BitVec 8)} (h : o + bs.length ≤ d.len.toNat) :
    writeRam ram (d.addr + BitVec.ofNat 64 o) bs = storeBytes (bufAddr (d :: ds)) o bs ram := by
  rw [writeRam_eq_storeBytes _ _ _ _ (by have := d.len.isLt; omega)]
  exact storeBytes_congr _ _ _ _ fun k hk => by simp [bufAddr, show o + k < d.len.toNat by omega]

theorem descAt_storeBytes {ram : Ram} {a : BitVec 64} {f : Nat → BitVec 64} {o : Nat}
    {bs : List (BitVec 8)} {x : BitVec 16}
    (h : ∀ k < bs.length, ∀ t < 16, f (o + k) ≠ a + x.setWidth 64 * 16 + BitVec.ofNat 64 t) :
    descAt (storeBytes f o bs ram) a x = descAt ram a x := by
  unfold descAt readRam
  congr 1
  exact List.map_congr_left fun t ht =>
    storeBytes_apply_of_ne _ _ _ fun k hk => h k hk t (List.mem_range.1 ht)

-- The descriptors of `ds` the walk for flag `w` goes through: those up to the first with the
-- other flag.
def segment (w : Bool) (ds : List VirtioDesc) : List VirtioDesc := ds.takeWhile (·.isWrite = w)

-- The descriptors of `ds` after its segment for `w`.
def afterSegment (w : Bool) (ds : List VirtioDesc) : List VirtioDesc := ds.dropWhile (·.isWrite = w)

-- The descriptor of the segment for `w` that holds its byte `o`, the rest of the chain after it,
-- and the offset of the byte in it.
def seek (w : Bool) : List VirtioDesc → Nat → Option (VirtioDesc × List VirtioDesc × Nat)
  | [], _ => none
  | d :: ds, o => if d.isWrite ≠ w then none else if o < d.len.toNat then some (d, ds, o)
      else seek w ds (o - d.len.toNat)

theorem segment_cons_of {w : Bool} {d : VirtioDesc} (ds : List VirtioDesc) (h : d.isWrite = w) :
    segment w (d :: ds) = d :: segment w ds := by
  simp [segment, List.takeWhile_cons, h]

theorem segment_cons_of_ne {w : Bool} {d : VirtioDesc} (ds : List VirtioDesc) (h : d.isWrite ≠ w) :
    segment w (d :: ds) = [] := by
  simp [segment, List.takeWhile_cons, h]

theorem afterSegment_cons_of {w : Bool} {d : VirtioDesc} (ds : List VirtioDesc) (h : d.isWrite = w) :
    afterSegment w (d :: ds) = afterSegment w ds := by
  simp [afterSegment, List.dropWhile_cons, h]

theorem afterSegment_cons_of_ne {w : Bool} {d : VirtioDesc} (ds : List VirtioDesc)
    (h : d.isWrite ≠ w) : afterSegment w (d :: ds) = d :: ds := by
  simp [afterSegment, List.dropWhile_cons, h]

theorem segment_append_afterSegment (w : Bool) (ds : List VirtioDesc) :
    segment w ds ++ afterSegment w ds = ds :=
  List.takeWhile_append_dropWhile _ _

theorem segment_of_all {ds : List VirtioDesc} (h : ds.all (·.isWrite)) : segment true ds = ds := by
  induction ds with
  | nil => rfl
  | cons d ds ih =>
    simp only [List.all_cons, Bool.and_eq_true] at h
    rw [segment_cons_of _ h.1, ih h.2]

-- When every descriptor after the readable segment is device-writable, the segment is the chain's
-- readable descriptors and the rest its writable ones.
theorem filter_of_afterSegment_all {ds : List VirtioDesc}
    (hall : (afterSegment false ds).all (·.isWrite)) :
    ds.filter (fun d => !d.isWrite) = segment false ds ∧
      ds.filter (·.isWrite) = afterSegment false ds := by
  have hr := List.all_eq_true.1 (List.all_takeWhile (l := ds) (p := (·.isWrite = false)))
  have hw := List.all_eq_true.1 hall
  rw [← segment_append_afterSegment false ds, List.filter_append, List.filter_append,
    List.filter_eq_self.2 fun d hd => by simpa using hr d hd,
    List.filter_eq_nil_iff.2 fun d hd => by simpa using hw d hd,
    List.filter_eq_nil_iff.2 fun d hd => by simpa using hr d hd,
    List.filter_eq_self.2 fun d hd => by simpa using hw d hd]
  simp [segment_append_afterSegment]

-- Bytes `o` to `o + c` of a buffer followed by more.
theorem drop_take_append {A B : List (BitVec 8)} {o c : Nat} (ho : o ≤ A.length) :
    ((A ++ B).drop o).take c =
      if o + c ≤ A.length then (A.drop o).take c else A.drop o ++ B.take (c - (A.length - o)) := by
  rw [List.drop_append_of_le_length ho, List.take_append_eq_append_take]
  split
  · simp [show c - (A.length - o) = 0 by omega]
  · rw [List.take_of_length_le (by simp; omega)]; simp

-- Bytes `o` to `o + c` of the buffers `d :: ds`, when they lie in the first one.
theorem bufBytes_drop_take_head (ram : Ram) {d : VirtioDesc} (ds : List VirtioDesc) {o c : Nat}
    (h : o + c ≤ d.len.toNat) :
    ((bufBytes ram (d :: ds)).drop o).take c = readRam ram (d.addr + BitVec.ofNat 64 o) c := by
  rw [bufBytes_cons, drop_take_append (by simp; omega), if_pos (by simp; omega),
    readRam_drop_take _ _ _ _ _ h]

-- `seek` stops in the segment: the descriptors before the one it returns are a part `P` of the
-- segment, and the offset it returns is what is left of `o` after them.
theorem seek_eq_some {w : Bool} : ∀ {ds rest : List VirtioDesc} {o o' : Nat} {d : VirtioDesc},
    seek w ds o = some (d, rest, o') → ∃ P, ds = P ++ d :: rest ∧
      segment w ds = P ++ segment w (d :: rest) ∧ o = bufLen P + o' ∧ d.isWrite = w ∧
      o' < d.len.toNat
  | [], _, _, _, _, h => nomatch h
  | x :: xs, rest, o, o', d, h => by
    simp only [seek] at h
    split at h
    · cases h
    · rename_i hw
      have hx : x.isWrite = w := by simpa using hw
      split at h
      · obtain ⟨rfl, rfl, rfl⟩ := by simpa using h
        exact ⟨[], rfl, rfl, by simp, hx, ‹_›⟩
      · obtain ⟨P, rfl, hs, ho, hd, hl⟩ := seek_eq_some h
        refine ⟨x :: P, rfl, ?_, ?_, hd, hl⟩
        · rw [List.cons_append, segment_cons_of _ hx, hs]
        · simp only [bufLen_cons]; omega

theorem seek_eq_none {w : Bool} : ∀ {ds : List VirtioDesc} {o : Nat},
    seek w ds o = none → bufLen (segment w ds) ≤ o
  | [], _, _ => by simp [segment]
  | x :: xs, o, h => by
    simp only [seek] at h
    by_cases hx : x.isWrite = w
    · rw [segment_cons_of _ hx, bufLen_cons]
      simp only [hx, ne_eq, not_true_eq_false, if_false] at h
      split at h
      · cases h
      · have := seek_eq_none h; omega
    · simp [segment_cons_of_ne _ hx]

end Virtio
