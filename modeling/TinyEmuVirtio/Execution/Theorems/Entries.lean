import TinyEmuVirtio.Execution.Theorems.Requests
import TinyEmuVirtio.Execution.Theorems.QueueNotify
import TinyEmuVirtio.Execution.Transfer

namespace Virtio

variable {σ α : Type}

/-! One turn of the loop of `queue_notify` -/

-- The head in the slot of `last_avail_idx` of queue `q`, which `queue_notify` reads next.
def nextHead (m : Machine σ) (q : Fin maxQueue) : BitVec 16 :=
  availHeadAt m.ram (m.dev.queue q) (m.dev.queue q).lastAvailIdx

-- `m` is `m₀` with reads added to its log.
structure ReadSince (m₀ m : Machine σ) : Prop where
  dev : m.dev = m₀.dev
  ram : m.ram = m₀.ram
  ext : m.ext = m₀.ext
  takes_eq : takes m.trace = takes m₀.trace
  completions_eq : completions m.trace = completions m₀.trace

theorem ReadSince.refl (m : Machine σ) : ReadSince m m := ⟨rfl, rfl, rfl, rfl, rfl⟩

theorem ReadSince.frame (m₀ : Machine σ) : ReadFrame (ReadSince m₀) :=
  ⟨fun _ _ _ _ _ h => ⟨h.dev, h.ram, h.ext, h.takes_eq, h.completions_eq⟩⟩

-- `get_desc_rw_size` walks the chain `ds` of the head `d` within its fuel and accepts it: no
-- device-readable descriptor follows a device-writable one.
def Accepts (fuel : Nat) (q : Fin maxQueue) (m : Machine σ) (d : BitVec 16)
    (ds : List VirtioDesc) : Prop :=
  IsChain m.ram (m.dev.queue q).descAddr d ds ∧ ds.length < fuel ∧
    (afterSegment false ds).all (·.isWrite)

-- The chain of the head `d` has `n` device-readable bytes, and `memcpy_from_queue` walks it
-- within its fuel with lengths that fit an `int`.
def HeaderFits (fuel : Nat) (q : Fin maxQueue) (n : Nat) (m : Machine σ) (d : BitVec 16) : Prop :=
  ∃ ds, IsChain m.ram (m.dev.queue q).descAddr d ds ∧ ds.length < fuel ∧
    (∀ x ∈ ds, x.len.toNat < 2 ^ 31) ∧ n ≤ bufLen (segment false ds)

-- The requests the log has taken are `ts`.
abbrev TakenAre (ts : List QueueHead) : Machine σ → Prop := Ledger fun ts' _ _ => ts' = ts

theorem TakenAre.ext {ts : List QueueHead} {m : Machine σ} {e : σ} (h : TakenAre ts m) :
    TakenAre ts { m with ext := e } :=
  h

theorem TakenAre.virtioConsumeDesc (ts : List QueueHead) (q : Fin maxQueue) (d : BitVec 16)
    (len : BitVec 32) : Keeps (TakenAre (σ := σ) ts) (virtioConsumeDesc q d len) :=
  Ledger.virtioConsumeDesc (L := fun ts' _ _ => ts' = ts) q d len

-- How `device_recv` answers the entry with head `d` of queue `q` from `m₀`, for a device with one
-- request slot `S` that takes the entry wherever `Takes m₀ d`: it refuses it while a request is in
-- progress and changes nothing; or it accepts it, never while a request of a queue it serves is
-- in progress, and takes it or, only where `Takes m₀ d` fails, leaves it.
def RecvOutcome (S : Slot σ) (Takes : Machine σ → BitVec 16 → Prop) (q : Fin maxQueue)
    (d : BitVec 16) (m₀ : Machine σ) (i : Int) (m : Machine σ) : Prop :=
  i < 0 ∧ S.busy m₀.ext = true ∧ ¬Takes m₀ d ∧ m = m₀ ∨
  0 ≤ i ∧ (S.serves q = true → S.busy m₀.ext = false) ∧
    (¬Takes m₀ d ∧ takes m.trace = takes m₀.trace ∨ takes m.trace = (q, d) :: takes m₀.trace)

namespace RecvOutcome

variable {S : Slot σ} {Takes : Machine σ → BitVec 16 → Prop} {q : Fin maxQueue} {d : BitVec 16}
  {m₀ m : Machine σ}

theorem refused (hb : S.busy m₀.ext = true) (ht : ¬Takes m₀ d) : RecvOutcome S Takes q d m₀ (-1) m₀ :=
  Or.inl ⟨by decide, hb, ht, rfl⟩

theorem left (hidle : S.serves q = true → S.busy m₀.ext = false) (ht : ¬Takes m₀ d)
    (h : takes m.trace = takes m₀.trace) : RecvOutcome S Takes q d m₀ 0 m :=
  Or.inr ⟨le_rfl, hidle, .inl ⟨ht, h⟩⟩

theorem taken (hidle : S.serves q = true → S.busy m₀.ext = false)
    (h : TakenAre ((q, d) :: takes m₀.trace) m) : RecvOutcome S Takes q d m₀ 0 m :=
  Or.inr ⟨le_rfl, hidle, .inr h⟩

end RecvOutcome

-- What the loop of `queue_notify` relies on in the `device_recv` of a device with one request
-- slot `S`, on queue `q`.
structure Serves (S : Slot σ) (Takes : Machine σ → BitVec 16 → Prop) (recv : DeviceRecv σ)
    (fuel : Nat) (q : Fin maxQueue) : Prop where
  answered : ∀ d r w, Keeps (Ledger S.Answered) (recv fuel q d r w)
  lastAvailIdx : ∀ d r w v, Keeps (fun m => (m.dev.queue q).lastAvailIdx = v) (recv fuel q d r w)
  outcome : ∀ d r w m₀, Triple (· = m₀) (recv fuel q d r w) (RecvOutcome S Takes q d m₀)
  busy : ∀ d r w m, S.serves q = true → S.busy m.ext = true →
    (recv fuel q d r w).run m = .ok (-1, m)
  frame : ∀ m₀ m d, ReadSince m₀ m → Takes m₀ d → Takes m d

-- One turn of the loop of `queue_notify` from `m`, with result `b`, ending in `m'`. Every request
-- taken is still answered. The only request it can take is the head in the slot of
-- `last_avail_idx`, and it takes it wherever `get_desc_rw_size` accepts its chain and the device's
-- `Takes` holds. `true` moves `last_avail_idx` past the entry; `false` refuses it while a request
-- is in progress and adds nothing but reads to the log.
structure EntryStep (S : Slot σ) (Takes : Machine σ → BitVec 16 → Prop) (fuel : Nat)
    (q : Fin maxQueue) (m : Machine σ) (b : Bool) (m' : Machine σ) : Prop where
  answered : Ledger S.Answered m'
  takes_eq : takes m'.trace = takes m.trace ∨ takes m'.trace = (q, nextHead m q) :: takes m.trace
  take : ∀ ds, Accepts fuel q m (nextHead m q) ds → Takes m (nextHead m q) →
    b = true ∧ takes m'.trace = (q, nextHead m q) :: takes m.trace
  advance : b = true → (m'.dev.queue q).lastAvailIdx = (m.dev.queue q).lastAvailIdx + 1
  refuse : b = false → S.busy m.ext = true ∧ ReadSince m m'

section Entry

variable {S : Slot σ} {Takes : Machine σ → BitVec 16 → Prop} {recv : DeviceRecv σ} {fuel : Nat}
  {q : Fin maxQueue} {P : Machine σ → Prop} {x : VirtioM σ α} {Q : α → Machine σ → Prop}

-- A fact the precondition carries may be used for the rest.
theorem Triple.of_fact {c : Prop} (h : c → Triple P x Q) : Triple (fun m => c ∧ P m) x Q :=
  ⟨fun m a m' hx hm => (h hm.1).run m a m' hx hm.2⟩

-- A triple may start from the state it runs in.
theorem Triple.of_state (h : ∀ m₀, P m₀ → Triple (· = m₀) x Q) : Triple P x Q :=
  ⟨fun m a m' hx hm => (h m hm).run m a m' hx rfl⟩

theorem Keeps.incLastAvailIdx (h : ∀ m s, P m → P { m with dev := s }) :
    Keeps P (incLastAvailIdx q) :=
  Keeps.bind (Keeps.getQueue q) fun _ => Keeps.modifyDev fun m => h m _

theorem incLastAvailIdx_advance (v : BitVec 16) :
    Triple (σ := σ) (fun m => (m.dev.queue q).lastAvailIdx = v) (incLastAvailIdx q)
      fun _ m => (m.dev.queue q).lastAvailIdx = v + 1 :=
  Triple.bind (Triple.getQueue q) fun _ =>
    (Triple.modifyDev _).mono (fun _ ⟨h, hq⟩ => by simp [hq, h]) fun _ _ h => h

-- `queue_notify` reads the head in the slot of `last_avail_idx`.
theorem nextAvailDesc_head (m₀ : Machine σ) :
    Triple (· = m₀) (nextAvailDesc q) fun d m => d = nextHead m₀ q ∧ ReadSince m₀ m :=
  ⟨fun m d m' h hm => by subst hm; cases h; exact ⟨rfl, ⟨rfl, rfl, rfl, rfl, rfl⟩⟩⟩

-- `get_desc_rw_size` only reads, and returns sizes wherever it accepts the chain.
theorem getDescRwSize_accepts (m₀ : Machine σ) (d : BitVec 16) :
    Triple (ReadSince m₀) (getDescRwSize fuel q d) fun o m =>
      ReadSince m₀ m ∧ ∀ ds, Accepts fuel q m₀ d ds → o.isSome := by
  refine ⟨fun m o m' h hm => ⟨(Keeps.getDescRwSize (ReadSince.frame m₀) fuel q d).run m o m' h hm,
    fun ds ⟨hc, hf, ha⟩ => ?_⟩⟩
  rw [← hm.ram, ← hm.dev] at hc
  obtain ⟨tr, h'⟩ := getDescRwSize_chain m hc hf
  rw [h', if_pos ha] at h
  cases h
  rfl

-- `memcpy_from_queue` only reads, and copies the first `n` bytes wherever they are there.
theorem memcpyFromQueue_fits (m₀ : Machine σ) (d : BitVec 16) (n : BitVec 32)
    (hn : n.toNat < 2 ^ 31) :
    Triple (ReadSince m₀) (memcpyFromQueue fuel q d 0 n) fun x m =>
      ReadSince m₀ m ∧ (HeaderFits fuel q n.toNat m₀ d → x.1 = 0) := by
  refine ⟨fun m x m' h hm => ⟨(Keeps.memcpyFromQueue (ReadSince.frame m₀) ..).run m x m' h hm,
    fun ⟨ds, hc, hf, hl, hb⟩ => ?_⟩⟩
  rw [← hm.ram, ← hm.dev] at hc
  have hb' : (0 : BitVec 32).toNat + n.toNat ≤ bufLen (segment false ds) := by simpa using hb
  obtain ⟨tr, h'⟩ := memcpyFromQueue_read m hc hf hl hn hb'
  rw [h'] at h
  cases h
  rfl

namespace Serves

variable (hS : Serves S Takes recv fuel q)
include hS

theorem entry_answered : Keeps (Ledger S.Answered) (queueNotifyEntry recv fuel q) := by
  unfold queueNotifyEntry
  with_reducible repeat' (first
    | intro _ | dsimp only | split
    | apply Keeps.nextAvailDesc (Ledger.dmaFrame _).toReadFrame
    | apply Keeps.getDescRwSize (Ledger.dmaFrame _).toReadFrame | apply hS.answered
    | apply Keeps.incLastAvailIdx fun _ _ h => h
    | apply Keeps.bind | apply Keeps.ite | apply Keeps.pure)

theorem entry_advance (v : BitVec 16) :
    Triple (fun m => (m.dev.queue q).lastAvailIdx = v) (queueNotifyEntry recv fuel q)
      fun b m => b = true → (m.dev.queue q).lastAvailIdx = v + 1 := by
  have hR := ReadFrame.dev (σ := σ) fun s => (s.queue q).lastAvailIdx = v
  unfold queueNotifyEntry
  with_reducible repeat' (first
    | intro _ | dsimp only | split
    | apply Triple.bind (incLastAvailIdx_advance v)
    | apply Triple.bindK (Keeps.pure _)
    | apply Triple.bindK (Keeps.nextAvailDesc hR _)
    | apply Triple.bindK (Keeps.getDescRwSize hR ..)
    | apply Triple.bindK (hS.lastAvailIdx ..)
    | exact Triple.pure fun _ h _ => h
    | exact Triple.pure fun _ _ h => absurd h Bool.false_ne_true)

-- What the entry does to the requests taken, from `m₀`.
theorem entry_takes (m₀ : Machine σ) :
    Triple (· = m₀) (queueNotifyEntry recv fuel q) fun b m =>
      (takes m.trace = takes m₀.trace ∨ takes m.trace = (q, nextHead m₀ q) :: takes m₀.trace) ∧
      (∀ ds, Accepts fuel q m₀ (nextHead m₀ q) ds → Takes m₀ (nextHead m₀ q) →
        b = true ∧ takes m.trace = (q, nextHead m₀ q) :: takes m₀.trace) ∧
      (b = false → S.busy m₀.ext = true ∧ ReadSince m₀ m) := by
  unfold queueNotifyEntry
  refine Triple.bind (nextAvailDesc_head m₀) fun d => Triple.of_fact fun hd => ?_
  subst hd
  refine Triple.bind (getDescRwSize_accepts m₀ _) fun o => ?_
  dsimp only
  rcases o with _ | ⟨r, w⟩ <;> dsimp only
  · -- a chain `get_desc_rw_size` refuses: `last_avail_idx` moves past it
    refine Triple.bindK (Keeps.pure _) fun _ => Triple.bind (Q := fun _ m =>
        takes m.trace = takes m₀.trace ∧ ∀ ds, ¬Accepts fuel q m₀ (nextHead m₀ q) ds)
      ((Keeps.incLastAvailIdx fun _ _ h => h).mono
        (fun m ⟨hr, ha⟩ => ⟨hr.takes_eq, fun ds hd => absurd (ha ds hd) Bool.false_ne_true⟩)
        fun _ _ h => h) fun _ => ?_
    exact Triple.pure fun _ ⟨ht, ha⟩ => ⟨.inl ht, fun ds hd _ => absurd hd (ha ds), nofun⟩
  refine Triple.of_state fun m₂ ⟨hr, _⟩ => Triple.bind (hS.outcome _ _ _ m₂) fun i => ?_
  refine Triple.ite (fun hi => Triple.pure fun m ho => ?_) fun hi => ?_
  · -- refused
    obtain ⟨-, hb, hnt, rfl⟩ := ho.resolve_right fun h => absurd h.1 (not_le.2 hi)
    exact ⟨.inl hr.takes_eq, fun _ _ ht => absurd (hS.frame _ _ _ hr ht) hnt,
      fun _ => ⟨hr.ext ▸ hb, hr⟩⟩
  -- accepted, taken or left: `last_avail_idx` moves past it
  refine Triple.bindK (Keeps.pure _) fun _ => Triple.bind (Q := fun _ m =>
      ¬Takes m₀ (nextHead m₀ q) ∧ takes m.trace = takes m₀.trace ∨
        takes m.trace = (q, nextHead m₀ q) :: takes m₀.trace)
    ((Keeps.incLastAvailIdx fun _ _ h => h).mono (fun m ho => ?_) fun _ _ h => h) fun _ => ?_
  · obtain ⟨-, -, ht⟩ := ho.resolve_left fun h => hi h.1
    rw [hr.takes_eq] at ht
    exact ht.imp_left fun h => ⟨fun ht => h.1 (hS.frame _ _ _ hr ht), h.2⟩
  exact Triple.pure fun _ ht =>
    ⟨ht.imp_left And.right, fun _ _ hT => ⟨rfl, ht.resolve_left fun h => h.1 hT⟩, nofun⟩

-- One turn of the loop of `queue_notify`, from a machine whose ledger answers every request.
theorem entryStep {m m' : Machine σ} {b : Bool} (ha : Ledger S.Answered m)
    (h : (queueNotifyEntry recv fuel q).run m = .ok (b, m')) : EntryStep S Takes fuel q m b m' := by
  obtain ⟨h1, h2, h3⟩ := (hS.entry_takes m).run m b m' h rfl
  exact ⟨hS.entry_answered.run m b m' h ha, h1, h2, (hS.entry_advance _).run m b m' h rfl, h3⟩

-- While a request of a queue the device serves is in progress, the entry is refused: the turn
-- returns `false` having only read.
theorem entry_refused {m : Machine σ} {ds : List VirtioDesc}
    (hacc : Accepts fuel q m (nextHead m q) ds) (hs : S.serves q = true) (hb : S.busy m.ext = true) :
    ∃ m', (queueNotifyEntry recv fuel q).run m = .ok (false, m') ∧ ReadSince m m' := by
  obtain ⟨hc, hf, ha⟩ := hacc
  unfold nextHead at hc
  obtain ⟨tr, hg⟩ := getDescRwSize_chain
    { m with trace := .read q .avail (availSlotAddr (m.dev.queue q) (m.dev.queue q).lastAvailIdx) 2 ::
      m.trace } hc hf
  have hrun : (queueNotifyEntry recv fuel q).run m = .ok (false, { m with trace := tr }) := by
    rw [queueNotifyEntry, nextAvailDesc_bind_run, bind_run_ok hg, if_pos ha]
    dsimp only
    rw [bind_run_ok (hS.busy _ _ _ { m with trace := tr } hs hb)]
    rfl
  exact ⟨_, hrun, (((hS.entry_takes m).run m _ _ hrun rfl).2.2 rfl).2⟩

end Serves

end Entry

/-! The block device -/

section Block

variable {ts : List QueueHead}

-- `virtio_block_recv_request` takes the request when none is in progress and
-- `memcpy_from_queue` can read its 16-byte header.
def BlockTakes (fuel : Nat) (q : Fin maxQueue) (m : Machine BlockState) (d : BitVec 16) : Prop :=
  m.ext.reqInProgress = false ∧ HeaderFits fuel q 16 m d

theorem blockMalloc_takes (n : BitVec 32) : Keeps (TakenAre ts) (blockMalloc n) :=
  Keeps.bind Keeps.getExt fun _ => Keeps.bind (Keeps.liftExcept _) fun _ =>
    Keeps.bind (Keeps.setExt fun _ h => TakenAre.ext h) fun _ => Keeps.pure _

theorem readAsync_takes (sectorNum : BitVec 64) (n : BitVec 32) :
    Keeps (TakenAre ts) (readAsync sectorNum n) :=
  Keeps.bind Keeps.getExt fun _ => Keeps.bind (Keeps.setExt fun _ h => TakenAre.ext h) fun _ =>
    Keeps.pure _

theorem writeAsync_takes (sectorNum : BitVec 64) (buf : List (BitVec 8)) (n : BitVec 32) :
    Keeps (TakenAre ts) (writeAsync sectorNum buf n) :=
  Keeps.bind Keeps.getExt fun _ => Keeps.bind (Keeps.setExt fun _ h => TakenAre.ext h) fun _ =>
    Keeps.pure _

theorem virtioBlockReqEnd_takes (fuel : Nat) (ret : Int) :
    Keeps (TakenAre ts) (virtioBlockReqEnd fuel ret) :=
  virtioBlockReqEnd_ledger (fun ts' _ _ => ts' = ts) fuel ret

theorem blockAfterBackend_takes (fuel : Nat) (ret : Int) :
    Keeps (TakenAre ts) (blockAfterBackend fuel ret) :=
  Keeps.ite (Keeps.modifyExt fun _ h => TakenAre.ext h) (virtioBlockReqEnd_takes fuel ret)

theorem virtioBlockRecvRequest_outcome (fuel : Nat) (q : Fin maxQueue) (d : BitVec 16)
    (r w : BitVec 32) (m₀ : Machine BlockState) :
    Triple (· = m₀) (virtioBlockRecvRequest fuel q d r w)
      (RecvOutcome blockSlot (BlockTakes fuel q) q d m₀) := by
  unfold virtioBlockRecvRequest
  refine Triple.getExt_bind fun s1 => Triple.of_state fun m ⟨hm, he⟩ => ?_
  subst hm he
  refine Triple.ite (fun hb => Triple.pure fun _ hm => by
    subst hm; exact .refused hb fun ⟨hi, _⟩ => by simp [hi] at hb) fun hb => ?_
  have hidle : blockSlot.serves q = true → blockSlot.busy m.ext = false :=
    fun _ => Bool.eq_false_iff.2 hb
  refine Triple.bindK (Keeps.pure _) fun _ => ?_
  refine Triple.bind ((memcpyFromQueue_fits m d 16 (by decide)).mono
    (fun _ hm => hm ▸ .refl _) fun _ _ h => h) fun x => ?_
  obtain ⟨r', hdr⟩ := x
  dsimp only
  split
  · -- the header cannot be read
    exact Triple.pure fun _ ⟨hr, hfit⟩ =>
      .left hidle (fun (ht : BlockTakes fuel q m d) => absurd (hfit ht.2) (by omega)) hr.takes_eq
  refine Triple.bindK (Keeps.pure _) fun _ => ?_
  -- the take; nothing after it takes or returns less than 0
  refine Triple.bind (Q := fun _ => TakenAre ((q, d) :: takes m.trace))
    ((Triple.logAccess _).mono (fun _ ⟨hr, _⟩ => by
      show takes (_ :: _) = _; rw [takes_take, hr.takes_eq]) fun _ _ h => h) fun _ => ?_
  refine Triple.bindK (Keeps.setExt fun _ h => TakenAre.ext h) fun _ => ?_
  split
  all_goals
    with_reducible repeat' (first
      | intro _ | dsimp only | split
      | apply Triple.bindK (blockAfterBackend_takes ..)
      | apply Triple.bindK (virtioBlockReqEnd_takes ..)
      | apply Triple.bindK (TakenAre.virtioConsumeDesc ..)
      | apply Triple.bindK (blockMalloc_takes _) | apply Triple.bindK (readAsync_takes ..)
      | apply Triple.bindK (writeAsync_takes ..)
      | apply Triple.bindK (Keeps.liftExcept _)
      | apply Triple.bindK (Keeps.memcpyFromQueue (Ledger.dmaFrame _).toReadFrame ..)
      | apply Triple.bindK (Keeps.memcpyToQueue (Ledger.dmaFrame _) ..)
      | apply Triple.bindK (Keeps.modifyExt fun _ h => TakenAre.ext h)
      | apply Triple.bindK (Keeps.pure _) | apply Triple.bindK (Keeps.fail _)
      | exact Triple.pure fun _ => RecvOutcome.taken hidle)

theorem blockServes (fuel : Nat) (q : Fin maxQueue) :
    Serves blockSlot (BlockTakes fuel q) virtioBlockRecvRequest fuel q where
  answered := virtioBlockRecvRequest_answered fuel q
  lastAvailIdx _ _ _ v :=
    Preserves.virtioBlockRecvRequest (I := fun s => (s.queue q).lastAvailIdx = v) (fun _ h => h) ..
  outcome := virtioBlockRecvRequest_outcome fuel q
  busy d r w _ _ hb := virtioBlockRecvRequest_busy fuel q d r w hb
  frame _ _ _ h := fun ⟨hi, ds, hc, hf⟩ => ⟨h.ext ▸ hi, ds, by rw [h.ram, h.dev]; exact hc, hf⟩

end Block

/-! The 9P device -/

section NineP

variable {ts : List QueueHead} {q : Fin maxQueue} {d : BitVec 16}

-- `virtio_9p_recv_request` takes the requests of queue 0 when none is in progress.
def NinePTakes (q : Fin maxQueue) (m : Machine NinePState) (_ : BitVec 16) : Prop :=
  q.val = 0 ∧ m.ext.reqInProgress = false

theorem TakenAre.nineFrame : NineFrame (TakenAre ts) :=
  ⟨(Ledger.dmaFrame _).toReadFrame, fun _ _ _ _ h => h⟩

theorem virtio9pFinish_takes (oi : P9OpenInfo) (fuel : Nat) (id : BitVec 8) (tag : BitVec 16)
    (r : P9Result) :
    Triple (OpPost (TakenAre ts) oi r) (virtio9pFinish fuel q d id tag r) fun _ => TakenAre ts := by
  cases r with
  | pending => exact Triple.pure fun _ ⟨_, h, _⟩ => h
  | reply buf =>
    exact (virtio9pFinish_ledger (fun ts' _ _ => ts' = ts) ..).mono (fun _ h => ⟨h, nofun⟩) fun _ _ h => h
  | error err =>
    exact (virtio9pFinish_ledger (fun ts' _ _ => ts' = ts) ..).mono (fun _ h => ⟨h, nofun⟩) fun _ _ h => h

theorem virtio9pRecvRequest_outcome (fuel : Nat) (q : Fin maxQueue) (d : BitVec 16)
    (r w : BitVec 32) (m₀ : Machine NinePState) :
    Triple (· = m₀) (virtio9pRecvRequest fuel q d r w)
      (RecvOutcome ninePSlot (NinePTakes q) q d m₀) := by
  unfold virtio9pRecvRequest
  refine Triple.ite (fun hq => Triple.pure fun _ hm => .left (fun hs => absurd (beq_iff_eq.1 hs) hq)
    (fun ht => hq ht.1) (by rw [hm])) fun hq => ?_
  refine Triple.bindK (Keeps.pure _) fun _ => ?_
  dsimp only
  refine Triple.getExt_bind fun s1 => Triple.of_state fun m ⟨hm, he⟩ => ?_
  subst hm he
  refine Triple.ite (fun hb => Triple.pure fun _ hm => by
    subst hm; exact .refused hb fun ⟨_, hi⟩ => by simp [hi] at hb) fun hb => ?_
  have hidle : ninePSlot.serves q = true → ninePSlot.busy m.ext = false :=
    fun _ => Bool.eq_false_iff.2 hb
  refine Triple.bindK (Keeps.pure _) fun _ => ?_
  -- the take; nothing after it takes or returns less than 0
  refine Triple.bind (Q := fun _ => TakenAre ((q, d) :: takes m.trace))
    ((Triple.logAccess _).mono (fun _ hm => by subst hm; rfl) fun _ _ h => h) fun _ => ?_
  with_reducible repeat' (first
    | intro _ | dsimp only | split
    | apply Triple.bindK (Keeps.memcpyFromQueue (Ledger.dmaFrame _).toReadFrame ..)
    | apply Triple.bindK (Keeps.pure _)
    | apply Triple.bind (OpPost.protocolError ⟨q, d, 0⟩)
    | apply Triple.bind (OpPost.p9Op TakenAre.nineFrame ..)
    | apply Triple.bind (virtio9pFinish_takes ..)
    | exact Triple.pure fun _ => RecvOutcome.taken hidle)

theorem ninePServes (fuel : Nat) (q : Fin maxQueue) :
    Serves ninePSlot (NinePTakes q) virtio9pRecvRequest fuel q where
  answered := virtio9pRecvRequest_answered fuel q
  lastAvailIdx _ _ _ v :=
    Preserves.virtio9pRecvRequest (I := fun s => (s.queue q).lastAvailIdx = v) (fun _ h => h) ..
  outcome := virtio9pRecvRequest_outcome fuel q
  busy d r w _ hs hb := virtio9pRecvRequest_busy fuel q d r w (Fin.ext (beq_iff_eq.1 hs)) hb
  frame _ _ _ h := fun ⟨hq, hi⟩ => ⟨hq, h.ext ▸ hi⟩

end NineP

/-! Every request taken is completed once, in ring order -/

end Virtio
