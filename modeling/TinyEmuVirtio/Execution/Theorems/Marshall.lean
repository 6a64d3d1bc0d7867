import TinyEmuVirtio.Execution.Copy
import TinyEmuVirtio.Execution.Devices

namespace Virtio

/-! C strings -/

theorem cStr_of_not_mem {str : CString} (h : 0 ∉ str) : cStr str = str :=
  List.takeWhile_eq_self_iff.2 fun x hx => by simpa using ne_of_mem_of_not_mem hx h

namespace P9Value

-- The character of `marshall`'s and `unmarshall`'s format strings for a value.
def fmt : P9Value → Char
  | b _ => 'b' | h _ => 'h' | w _ => 'w' | d _ => 'd' | s _ => 's' | q _ => 'Q'

-- A value of a format over `b`, `h`, `w`, `d` and `s`, a string having no zero byte and at most
-- 65535 bytes.
def Readable : P9Value → Prop
  | s str => 0 ∉ str ∧ str.length ≤ 65535
  | q _ => False
  | _ => True

instance (v : P9Value) : Decidable v.Readable :=
  match v with
  | s str => inferInstanceAs (Decidable (0 ∉ str ∧ str.length ≤ 65535))
  | q _ => isFalse id
  | b _ | h _ | w _ | d _ => isTrue trivial

@[simp] theorem length_bytes (v : P9Value) : v.bytes.length = v.size := by
  cases v <;> simp [bytes, size]

theorem size_lt {v : P9Value} (hv : v.Readable) : v.size < 2 ^ 31 := by
  cases v <;> simp_all [size, Readable]
  omega

theorem tooLong_eq_false {v : P9Value} (hv : v.Readable) : v.tooLong = false := by
  cases v <;> simp_all [tooLong, Readable]

-- An integer field is read back from its bytes.
theorem ofField_fmt {v : P9Value} (hv : v.Readable) (hs : v.fmt ≠ 's') :
    ∃ n mk, ofField v.fmt = some (n, mk) ∧ n.toNat = v.size ∧ mk (fromLe v.bytes) = v := by
  cases v with
  | b x => exact ⟨1, _, rfl, rfl, by simp [bytes, fromLe]⟩
  | h x => exact ⟨2, _, rfl, rfl, by simp [bytes, fromLe_toLe, Nat.mod_eq_of_lt x.isLt]⟩
  | w x => exact ⟨4, _, rfl, rfl, by simp [bytes, fromLe_toLe, Nat.mod_eq_of_lt x.isLt]⟩
  | d x => exact ⟨8, _, rfl, rfl, by simp [bytes, fromLe_toLe, Nat.mod_eq_of_lt x.isLt]⟩
  | s str => exact absurd rfl hs
  | q qid => exact hv.elim

end P9Value

-- `marshall` writes the values' bytes one after the other when they fit in `maxLen`, and its
-- `assert`s abort otherwise.
theorem marshall_eq (maxLen : Nat) (vs : List P9Value) (hv : ∀ v ∈ vs, v.tooLong = false) :
    marshall maxLen vs =
      if (vs.map P9Value.size).sum ≤ maxLen then .ok (vs.flatMap P9Value.bytes) else .error .abort := by
  induction vs generalizing maxLen with
  | nil => simp [marshall]
  | cons v vs ih =>
    rw [marshall, hv v (List.mem_cons_self _ _), ih _ fun x hx => hv x (List.mem_cons_of_mem _ hx)]
    by_cases hv' : v.size ≤ maxLen
    · by_cases hs : (vs.map P9Value.size).sum ≤ maxLen - v.size
      · simp [hv', hs, show v.size + (vs.map P9Value.size).sum ≤ maxLen by omega]
      · simp [hv', hs, show ¬v.size + (vs.map P9Value.size).sum ≤ maxLen by omega]
    · simp [Nat.lt_of_not_le hv', show ¬v.size + (vs.map P9Value.size).sum ≤ maxLen by omega]; rfl

/-! `unmarshall` over a chain -/

section Read

variable {σ : Type} {fuel : Nat} {q : Fin maxQueue} {i : BitVec 16} {ds : List VirtioDesc}

-- Reading `bs.length` bytes at `offset`, where the readable segment holds `bs` from there.
theorem memcpyFromQueue_prefix {offset : BitVec 32} {bs rest : List (BitVec 8)} (m : Machine σ)
    (h : IsChain m.ram (m.dev.queue q).descAddr i ds) (hfuel : ds.length < fuel)
    (hlen : ∀ d ∈ ds, d.len.toNat < 2 ^ 31) (hc : bs.length < 2 ^ 31)
    (hb : (bufBytes m.ram (segment false ds)).drop offset.toNat = bs ++ rest) :
    ∃ tr, (memcpyFromQueue fuel q i offset (BitVec.ofNat 32 bs.length)).run m =
      .ok ((0, bs), { m with trace := tr }) := by
  rcases Nat.eq_zero_or_pos bs.length with h0 | h0
  · rw [List.length_eq_zero.1 h0]
    exact ⟨m.trace, rfl⟩
  have hn : (BitVec.ofNat 32 bs.length).toNat = bs.length := by simp; omega
  have hfit := congrArg List.length hb
  simp only [List.length_drop, length_bufBytes, List.length_append] at hfit
  obtain ⟨r, tr, hrun, h1, h2⟩ := @memcpyFromQueue_chain _ q fuel i ds offset
    (BitVec.ofNat 32 bs.length) m h hfuel hlen (by omega) (by omega)
  have h0 : r.1 = 0 := h1.2 (by omega)
  rw [hn, hb, List.take_left] at h2
  have hr : r = (0, bs) := Prod.ext h0 (h2 h0)
  exact ⟨tr, hr ▸ hrun⟩

-- One field of `unmarshall` reads back a value whose bytes the readable segment holds at `offset`.
theorem unmarshallField_bytes {offset : BitVec 32} {v : P9Value} {rest : List (BitVec 8)}
    (m : Machine NinePState) (h : IsChain m.ram (m.dev.queue q).descAddr i ds)
    (hfuel : ds.length < fuel) (hlen : ∀ d ∈ ds, d.len.toNat < 2 ^ 31) (hv : v.Readable)
    (hb : (bufBytes m.ram (segment false ds)).drop offset.toNat = v.bytes ++ rest)
    (hoff : offset.toNat + v.size < 2 ^ 32) :
    ∃ tr, (unmarshallField fuel q i offset v.fmt).run m =
      .ok (some (v, offset + BitVec.ofNat 32 v.size), { m with trace := tr }) := by
  by_cases hs : v.fmt = 's'
  · obtain ⟨str, rfl⟩ : ∃ str, v = .s str := by cases v <;> simp_all [P9Value.fmt]
    obtain ⟨hz, hl⟩ := hv
    rw [P9Value.bytes, List.append_assoc] at hb
    obtain ⟨tr, h1⟩ := memcpyFromQueue_prefix m h hfuel hlen (by simp) hb
    simp only [P9Value.fmt, unmarshallField]
    rw [bind_run_ok (show (memcpyFromQueue fuel q i offset 2).run m = _ from h1)]
    simp only [ne_eq, not_true_eq_false, if_false, pure_bind, fromLe_toLe,
      Nat.mod_eq_of_lt (show str.length < 256 ^ 2 by omega)]
    simp only [P9Value.size] at hoff
    have h2o : (offset + 2).toNat = offset.toNat + 2 := by bv_omega
    have hb2 : (bufBytes m.ram (segment false ds)).drop (offset + 2).toNat = str ++ rest := by
      rw [h2o, ← List.drop_drop, hb, List.drop_left' (length_toLe _ _)]
    obtain ⟨tr2, h2⟩ := memcpyFromQueue_prefix { m with trace := tr } h hfuel hlen (by omega) hb2
    rw [bind_run_ok h2]
    refine ⟨tr2, ?_⟩
    simp only [ne_eq, not_true_eq_false, if_false, cStr_of_not_mem hz, P9Value.size, BitVec.ofNat_add,
      BitVec.add_assoc]
    rfl
  · obtain ⟨n, mk, hf, hn, hmk⟩ := P9Value.ofField_fmt hv hs
    obtain ⟨tr, h1⟩ := memcpyFromQueue_prefix m h hfuel hlen (by simpa using P9Value.size_lt hv) hb
    have hn' : n = BitVec.ofNat 32 v.bytes.length := by
      rw [P9Value.length_bytes, ← hn, BitVec.ofNat_toNat, BitVec.setWidth_eq]
    rw [unmarshallField.eq_2 _ _ _ _ _ hs, hf]
    simp only
    rw [hn', bind_run_ok h1]
    refine ⟨tr, ?_⟩
    simp only [ne_eq, not_true_eq_false, if_false, hmk, P9Value.length_bytes]
    rfl

-- `unmarshall` with the format of `vs` reads back `vs` where the readable segment holds their bytes
-- from `offset` on.
theorem unmarshall_bytes (hfuel : ds.length < fuel) (hlen : ∀ d ∈ ds, d.len.toNat < 2 ^ 31) :
    ∀ (vs : List P9Value) (offset : BitVec 32) (rest : List (BitVec 8)) (m : Machine NinePState),
      IsChain m.ram (m.dev.queue q).descAddr i ds → (∀ v ∈ vs, v.Readable) →
      (bufBytes m.ram (segment false ds)).drop offset.toNat = vs.flatMap P9Value.bytes ++ rest →
      offset.toNat + (vs.map P9Value.size).sum < 2 ^ 32 →
      ∃ tr, (unmarshall fuel q i offset (vs.map P9Value.fmt)).run m =
        .ok (some (vs, offset + BitVec.ofNat 32 (vs.map P9Value.size).sum), { m with trace := tr })
  | [], offset, _, m, _, _, _, _ => ⟨m.trace, by simp [unmarshall]; rfl⟩
  | v :: vs, offset, rest, m, h, hv, hb, hoff => by
    rw [List.flatMap_cons, List.append_assoc] at hb
    simp only [List.map_cons, List.sum_cons] at hoff
    obtain ⟨tr, h1⟩ :=
      unmarshallField_bytes m h hfuel hlen (hv v (List.mem_cons_self _ _)) hb (by omega)
    have ho : (offset + BitVec.ofNat 32 v.size).toNat = offset.toNat + v.size := by
      rw [BitVec.toNat_add, BitVec.toNat_ofNat, Nat.mod_eq_of_lt (by omega : v.size < 2 ^ 32),
        Nat.mod_eq_of_lt (by omega)]
    have hb' : (bufBytes m.ram (segment false ds)).drop (offset + BitVec.ofNat 32 v.size).toNat =
        vs.flatMap P9Value.bytes ++ rest := by
      rw [ho, ← List.drop_drop, hb, List.drop_left' (P9Value.length_bytes v)]
    obtain ⟨tr2, h2⟩ := unmarshall_bytes hfuel hlen vs _ rest { m with trace := tr } h
      (fun x hx => hv x (List.mem_cons_of_mem _ hx)) hb' (by omega)
    simp only [List.map_cons, unmarshall]
    rw [bind_run_ok h1]
    simp only
    rw [bind_run_ok h2]
    refine ⟨tr2, ?_⟩
    simp only [List.sum_cons, BitVec.ofNat_add, BitVec.add_assoc]
    rfl

end Read

/-! `marshall` and `unmarshall` agree -/

-- For values of a format over `b`, `h`, `w`, `d` and `s`: `marshall` returns exactly when the
-- fields fit in `maxLen`, and then returns as many bytes as their widths add up to. Where the
-- readable segment of a chain, with lengths and their total below 2^31, holds those bytes from
-- `offset` on, `unmarshall` with the same format reads the values back and moves the offset past
-- the bytes.
theorem marshall_unmarshall_round_trip {fuel maxLen : Nat} {q : Fin maxQueue} {i : BitVec 16}
    {ds : List VirtioDesc} (vs : List P9Value) (hv : ∀ v ∈ vs, v.Readable) :
    ((∃ bs, marshall maxLen vs = .ok bs) ↔ (vs.map P9Value.size).sum ≤ maxLen) ∧
    ∀ bs, marshall maxLen vs = .ok bs → bs.length = (vs.map P9Value.size).sum ∧
      ∀ (m : Machine NinePState) (offset : BitVec 32) (rest : List (BitVec 8)),
        IsChain m.ram (m.dev.queue q).descAddr i ds → ds.length < fuel →
        (∀ d ∈ ds, d.len.toNat < 2 ^ 31) → bufLen ds < 2 ^ 31 →
        (bufBytes m.ram (segment false ds)).drop offset.toNat = bs ++ rest →
        ∃ m', (unmarshall fuel q i offset (vs.map P9Value.fmt)).run m =
            .ok (some (vs, offset + BitVec.ofNat 32 bs.length), m') ∧
          m'.dev = m.dev ∧ m'.ram = m.ram ∧ m'.ext = m.ext := by
  have hm := marshall_eq maxLen vs fun v hv' => P9Value.tooLong_eq_false (hv v hv')
  refine ⟨⟨fun ⟨bs, h⟩ => ?_, fun h => ⟨_, by rw [hm, if_pos h]⟩⟩, fun bs h => ?_⟩
  · by_contra hn
    rw [hm, if_neg hn] at h
    cases h
  rw [hm] at h
  split at h
  · cases h
    have hbs : (vs.flatMap P9Value.bytes).length = (vs.map P9Value.size).sum := by
      rw [List.length_flatMap]
      congr 1
      exact List.map_congr_left fun v _ => P9Value.length_bytes v
    refine ⟨hbs, fun m offset rest hc hfuel hl htot hb => ?_⟩
    have hfit := congrArg List.length hb
    have hseg := congrArg bufLen (segment_append_afterSegment false ds)
    simp only [List.length_drop, length_bufBytes, List.length_append, bufLen_append] at hfit hseg
    obtain ⟨tr, hr⟩ := unmarshall_bytes hfuel hl vs offset rest m hc hv hb (by omega)
    exact ⟨{ m with trace := tr }, hr.trans (by rw [hbs]), rfl, rfl, rfl⟩
  · cases h

-- A reply of an `h` field and an `s` field, split over two readable descriptors of 3 bytes.
theorem unmarshall_reads_split_fields :
    let m : Machine NinePState := ⟨virtioInit 9 6, writeRam (writeRam (writeRam (fun _ => 0) 0
      [0, 1, 0, 0, 0, 0, 0, 0, 3, 0, 0, 0, 1, 0, 1, 0, 0, 2, 0, 0, 0, 0, 0, 0, 3, 0, 0, 0, 0, 0, 0, 0])
      0x100 [7, 0, 2]) 0x200 [0, 0x61, 0x62], [], .init default⟩
    marshall 16 [.h 7, .s [0x61, 0x62]] = .ok [7, 0, 2, 0, 0x61, 0x62] ∧
      ∃ m', (unmarshall 3 0 0 0 ['h', 's']).run m = .ok (some ([.h 7, .s [0x61, 0x62]], 6), m') := by
  intro m
  have hchain : IsChain m.ram (m.dev.queue 0).descAddr 0 [⟨0x100, 3, 1, 1⟩, ⟨0x200, 3, 0, 0⟩] := by
    simp only [m]; exact .cons rfl (.last rfl)
  have hbytes : (bufBytes m.ram (segment false [⟨0x100, 3, 1, 1⟩, ⟨0x200, 3, 0, 0⟩])).drop
      (0 : BitVec 32).toNat = [7, 0, 2, 0, 0x61, 0x62] ++ [] := by simp only [m]; rfl
  obtain ⟨-, h⟩ := @marshall_unmarshall_round_trip 3 16 0 0 [⟨0x100, 3, 1, 1⟩, ⟨0x200, 3, 0, 0⟩]
    [.h 7, .s [0x61, 0x62]] (by decide)
  obtain ⟨-, h⟩ := h _ rfl
  obtain ⟨m', hr, -⟩ := h m 0 [] hchain (by decide) (by decide) (by decide) hbytes
  exact ⟨rfl, m', hr⟩

-- A 9P device whose queue 0 has its table at address 0 and the descriptor 0 readable, of length
-- 2^31 + 2, with the two bytes `marshall` writes for the field `h` 1 at its start. `unmarshall` of
-- "h" at offset 0 takes `min_int(2, len - 0)` of a length that is negative as an `int`, and copies
-- a negative number of bytes.
theorem unmarshall_long_descriptor_undefined :
    ∃ m : Machine NinePState, IsChain m.ram (m.dev.queue 0).descAddr 0 [⟨0x100, 0x80000002, 0, 0⟩] ∧
      marshall 1024 [.h 1] = .ok [1, 0] ∧ readRam m.ram 0x100 2 = [1, 0] ∧
      (unmarshall 3 0 0 0 ['h']).run m = .error .undefined :=
  ⟨⟨virtioInit 9 6, writeRam (writeRam (fun _ => 0) 0 [0, 1, 0, 0, 0, 0, 0, 0, 2, 0, 0, 0x80])
    0x100 [1, 0], [], .init default⟩, .last rfl, rfl, rfl, rfl⟩

end Virtio
