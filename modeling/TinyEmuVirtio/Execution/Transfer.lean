import TinyEmuVirtio.Execution.Copy

namespace Virtio

variable {σ : Type}

/-! Buffers that leave the descriptor table alone -/

-- The chain from `i` is read from the entries of `i` and of the `NEXT` links of its descriptors,
-- so it stays the same chain while these entries do.
theorem IsChain.congr {ram ram' : Ram} {a : BitVec 64} {i : BitVec 16} {ds : List VirtioDesc}
    (h : IsChain ram a i ds) (he : descAt ram' a i = descAt ram a i)
    (hn : ∀ d ∈ ds, d.hasNext = true → descAt ram' a d.next = descAt ram a d.next) :
    IsChain ram' a i ds := by
  induction h with
  | @last i h0 =>
    rw [← he]
    exact .last (by rw [he]; exact h0)
  | @cons i ds h0 _ ih =>
    have hnext := hn _ (List.mem_cons_self _ _) h0
    rw [← he]
    exact .cons (by rw [he]; exact h0)
      (by rw [he]; exact ih hnext fun d hd => hn d (List.mem_cons_of_mem _ hd))

-- A descriptor with no `NEXT` link is a chain of its own.
theorem IsChain.single {ram : Ram} {a : BitVec 64} {i : BitVec 16} {d : VirtioDesc}
    (hd : descAt ram a i = d) (hn : d.hasNext = false) : IsChain ram a i [d] :=
  hd ▸ .last (hd ▸ hn)

theorem IsChain.link {ram : Ram} {a : BitVec 64} {i : BitVec 16} {d : VirtioDesc}
    {ds : List VirtioDesc} (hd : descAt ram a i = d) (hn : d.hasNext = true)
    (h : IsChain ram a d.next ds) : IsChain ram a i (d :: ds) :=
  hd ▸ .cons (hd ▸ hn) (hd ▸ h)

-- No byte of the buffers `W` lies in the entry of the head `i` or of a `NEXT` link of `ds`.
def Separated (a : BitVec 64) (i : BitVec 16) (ds W : List VirtioDesc) : Prop :=
  ∀ j < bufLen W, ∀ t < 16, bufAddr W j ≠ a + i.setWidth 64 * 16 + BitVec.ofNat 64 t ∧
    ∀ d ∈ ds, d.hasNext = true → bufAddr W j ≠ a + d.next.setWidth 64 * 16 + BitVec.ofNat 64 t

theorem IsChain.storeBytes {ram : Ram} {a : BitVec 64} {i : BitVec 16} {ds W : List VirtioDesc}
    {o : Nat} {bs : List (BitVec 8)} (h : IsChain ram a i ds) (hs : Separated a i ds W)
    (hb : o + bs.length ≤ bufLen W) : IsChain (Virtio.storeBytes (bufAddr W) o bs ram) a i ds :=
  h.congr (descAt_storeBytes fun _ hk t ht => (hs _ (by omega) t ht).1)
    fun d hd hn => descAt_storeBytes fun _ hk t ht => (hs _ (by omega) t ht).2 d hd hn

/-! Whole copies between a host buffer and a chain -/

-- The signed comparison of two `int`s below 2^31.
theorem slt_eq_decide {x y : BitVec 32} (hx : x.toNat < 2 ^ 31) (hy : y.toNat < 2 ^ 31) :
    x.slt y = decide (x.toNat < y.toNat) := by
  rw [BitVec.slt, toInt_of_lt hx, toInt_of_lt hy]
  simp

theorem sle_eq_decide {x y : BitVec 32} (hx : x.toNat < 2 ^ 31) (hy : y.toNat < 2 ^ 31) :
    x.sle y = decide (x.toNat ≤ y.toNat) := by
  rw [BitVec.sle, toInt_of_lt hx, toInt_of_lt hy]
  simp

section Alloc

variable {n : BitVec 32} (h : n.toNat < 2 ^ 31)
include h

-- `malloc` of an `int` size that is not negative.
theorem mallocSize_of_lt : mallocSize n = .ok n.toNat := by
  rw [mallocSize, if_neg (by rw [toInt_of_lt h]; omega)]

theorem malloc_of_lt (junk : Nat → BitVec 8) :
    malloc junk n = .ok ((List.range n.toNat).map junk) := by
  rw [malloc, mallocSize_of_lt h]; rfl

theorem calloc_of_lt : calloc n = .ok (List.replicate n.toNat 0) := by
  rw [calloc, mallocSize_of_lt h]; rfl

end Alloc

theorem liftExcept_ok_bind_run {α β : Type} (a : α) (f : α → VirtioM σ β) (m : Machine σ) :
    (liftExcept (.ok a) >>= f).run m = (f a).run m :=
  rfl

theorem setExt_bind_run {α : Type} (e : σ) (f : Unit → VirtioM σ α) (m : Machine σ) :
    (setExt e >>= f).run m = (f ()).run { m with ext := e } :=
  rfl

theorem modifyExt_bind_run {α : Type} (g : σ → σ) (f : Unit → VirtioM σ α) (m : Machine σ) :
    (modifyExt g >>= f).run m = (f ()).run { m with ext := g m.ext } :=
  rfl

theorem logAccess_bind_run {α : Type} (a : Access) (f : Unit → VirtioM σ α) (m : Machine σ) :
    (logAccess a >>= f).run m = (f ()).run { m with trace := a :: m.trace } :=
  rfl

-- `memcpy_to_from_queue` returns 0 or -1.
theorem memcpyToFromQueue_result (fuel : Nat) (buf : List (BitVec 8)) (q : Fin maxQueue)
    (d : BitVec 16) (offset count : BitVec 32) (toQueue : Bool) :
    Triple (σ := σ) (fun _ => True) (memcpyToFromQueue fuel buf q d offset count toQueue)
      fun r _ => r.1 = 0 ∨ r.1 = -1 := by
  have hk : ∀ {β : Type} (x : VirtioM σ β), Keeps (fun _ => True) x :=
    fun _ => ⟨fun _ _ _ _ _ => trivial⟩
  have hc : ∀ n desc o c b acc, Triple (fun _ => True)
      (memcpyToFromQueue.copy q toQueue toQueue n desc o c b acc)
      fun r (_ : Machine σ) => r.1 = 0 ∨ r.1 = -1 := by
    intro n
    induction n with
    | zero => exact fun _ _ _ _ _ => .fail _
    | succ n ih =>
      intro desc o c b acc
      unfold memcpyToFromQueue.copy
      with_reducible repeat' (first
        | intro _ | apply ih | apply Triple.fail | apply Triple.ite | apply Triple.bindK (hk _)
        | exact Triple.pure fun _ _ => .inl rfl | exact Triple.pure fun _ _ => .inr rfl)
  unfold memcpyToFromQueue
  with_reducible repeat' (first
    | intro _ | apply hc | apply Triple.ite | apply Triple.bindK (hk _)
    | exact Triple.pure fun _ _ => .inl rfl | exact Triple.pure fun _ _ => .inr rfl | dsimp only
    | split)

section Transfer

variable {fuel : Nat} {q : Fin maxQueue} {i : BitVec 16} {ds : List VirtioDesc}
  {offset count : BitVec 32}

-- `memcpy_from_queue` of bytes the readable segment holds, also none.
theorem memcpyFromQueue_read (m : Machine σ) (h : IsChain m.ram (m.dev.queue q).descAddr i ds)
    (hfuel : ds.length < fuel) (hlen : ∀ d ∈ ds, d.len.toNat < 2 ^ 31) (hc : count.toNat < 2 ^ 31)
    (hfit : offset.toNat + count.toNat ≤ bufLen (segment false ds)) :
    ∃ tr, (memcpyFromQueue fuel q i offset count).run m =
      .ok ((0, ((bufBytes m.ram (segment false ds)).drop offset.toNat).take count.toNat),
        { m with trace := tr }) := by
  rcases Nat.eq_zero_or_pos count.toNat with h0 | h0
  · obtain rfl : count = 0 := BitVec.eq_of_toNat_eq h0
    exact ⟨m.trace, by simp [memcpyFromQueue, memcpyToFromQueue]; rfl⟩
  obtain ⟨r, tr, hrun, h1, h2⟩ := memcpyFromQueue_chain m h hfuel hlen h0 hc
  have hr : r = (0, _) := Prod.ext (h1.2 hfit) (h2 (h1.2 hfit))
  exact ⟨tr, hr ▸ hrun⟩

-- ... and -1 where the readable segment ends before them.
theorem memcpyFromQueue_short (m : Machine σ) (h : IsChain m.ram (m.dev.queue q).descAddr i ds)
    (hfuel : ds.length < fuel) (hlen : ∀ d ∈ ds, d.len.toNat < 2 ^ 31) (hc : 0 < count.toNat)
    (hc' : count.toNat < 2 ^ 31) (hshort : bufLen (segment false ds) < offset.toNat + count.toNat) :
    ∃ bs tr, (memcpyFromQueue fuel q i offset count).run m = .ok ((-1, bs), { m with trace := tr }) := by
  obtain ⟨r, tr, hrun, h1, -⟩ :=
    @memcpyFromQueue_chain _ _ fuel i ds offset count m h hfuel hlen hc hc'
  have hr : r.1 = -1 :=
    ((memcpyToFromQueue_result ..).run m r _ hrun trivial).resolve_left fun h0 => by
      have := h1.1 h0; omega
  exact ⟨r.2, tr, by rw [hrun, ← hr]⟩

-- `memcpy_to_queue` into the writable part of a chain separated from its entries leaves the
-- device and the backend as they were; where the bytes fit, guest memory gets them and it returns 0.
theorem memcpyToQueue_chain {buf : List (BitVec 8)} (m : Machine σ)
    (h : IsChain m.ram (m.dev.queue q).descAddr i ds) (hfuel : ds.length < fuel)
    (hlen : ∀ d ∈ ds, d.len.toNat < 2 ^ 31) (hall : (afterSegment false ds).all (·.isWrite))
    (hsep : Separated (m.dev.queue q).descAddr i ds (afterSegment false ds))
    (hc : count.toNat < 2 ^ 31) (hb : count.toNat ≤ buf.length) :
    ∃ r m', (memcpyToQueue fuel q i offset buf count).run m = .ok (r, m') ∧ m'.dev = m.dev ∧
      m'.ext = m.ext ∧ (offset.toNat + count.toNat ≤ bufLen (afterSegment false ds) → r = 0 ∧
        m'.ram = storeBytes (bufAddr (afterSegment false ds)) offset.toNat (buf.take count.toNat) m.ram) := by
  rcases Nat.eq_zero_or_pos count.toNat with h0 | h0
  · obtain rfl : count = 0 := BitVec.eq_of_toNat_eq h0
    exact ⟨0, m, by simp [memcpyToQueue, memcpyToFromQueue]; rfl, rfl, rfl, fun _ => ⟨rfl, rfl⟩⟩
  obtain ⟨r, m', hrun, hdev, h1, h2⟩ := memcpyToFromQueue_to_chain m h hfuel hlen hall
    (fun d hd hn j hj t ht => (hsep j hj t ht).2 d hd hn) h0 hc hb
  have hd : DmaFrame fun m' : Machine σ => m'.ext = m.ext :=
    ⟨⟨fun _ _ _ _ _ h => h⟩, fun _ _ h => h, fun _ _ _ _ _ h => h⟩
  have hext : m'.ext = m.ext :=
    (Keeps.memcpyToFromQueue hd.toReadFrame (fun _ => hd) ..).run m _ m' hrun rfl
  exact ⟨r.1, m', by rw [memcpyToQueue, bind_run_ok hrun]; rfl, hdev, hext,
    fun hfit => ⟨h1.2 hfit, h2 (h1.2 hfit)⟩⟩

-- ... so that, where they fit, only guest memory and the trace change.
theorem memcpyToQueue_store {buf : List (BitVec 8)} (m : Machine σ)
    (h : IsChain m.ram (m.dev.queue q).descAddr i ds) (hfuel : ds.length < fuel)
    (hlen : ∀ d ∈ ds, d.len.toNat < 2 ^ 31) (hall : (afterSegment false ds).all (·.isWrite))
    (hsep : Separated (m.dev.queue q).descAddr i ds (afterSegment false ds))
    (hc : count.toNat < 2 ^ 31) (hb : count.toNat ≤ buf.length)
    (hfit : offset.toNat + count.toNat ≤ bufLen (afterSegment false ds)) :
    ∃ tr, (memcpyToQueue fuel q i offset buf count).run m = .ok (0, { m with
      ram := storeBytes (bufAddr (afterSegment false ds)) offset.toNat (buf.take count.toNat) m.ram
      trace := tr }) := by
  obtain ⟨r, m', hrun, hdev, hext, hfit'⟩ := @memcpyToQueue_chain _ fuel q i ds offset count buf m h
    hfuel hlen hall hsep hc hb
  obtain ⟨rfl, hram⟩ := hfit' hfit
  exact ⟨m'.trace, by rw [hrun, ← hdev, ← hext, ← hram]⟩

end Transfer

end Virtio
