import TinyEmuVirtio.Execution.Ledger

namespace Virtio

variable {σ α : Type}

/-! The block device -/

-- `req_in_progress`, and the request `req` while `virtio_block_req_cb` is owed.
def blockSlot : Slot BlockState where
  serves _ := true
  busy s1 := s1.reqInProgress
  waiting s1 := if s1.outstanding then some (s1.req.queueIdx, s1.req.descIdx) else none

-- Serving `h`, the request that `req` records.
def BlockServing (h : QueueHead) : Machine BlockState → Prop :=
  Ledger fun ts cs s1 => blockSlot.Serving h ts cs s1 ∧ (s1.req.queueIdx, s1.req.descIdx) = h

section Block

variable {h : QueueHead}

theorem BlockServing.frame {m : Machine BlockState} {e : BlockState} (hs : BlockServing h m)
    (h1 : e.reqInProgress = m.ext.reqInProgress) (h2 : e.outstanding = m.ext.outstanding)
    (h3 : e.req.queueIdx = m.ext.req.queueIdx) (h4 : e.req.descIdx = m.ext.req.descIdx) :
    BlockServing h { m with ext := e } := by
  obtain ⟨hs, hq⟩ := hs
  refine ⟨hs.frame h1 ?_, by rw [← hq, h3, h4]⟩
  simp only [blockSlot, h2, h3, h4]

-- A call of the backend counts the call and leaves the rest of the state alone.
theorem countCall_serving (f : BlockState → BlockState) (hf : ∀ s1, f s1 = { s1 with calls := s1.calls + 1 })
    (g : BlockState → α) : Keeps (BlockServing h) do
      let s1 ← Virtio.getExt
      Virtio.setExt (f s1)
      return g s1 := by
  refine Triple.getExt_bind fun e => Triple.bind ?_ fun _ => Keeps.pure _
  exact (Triple.setExt _).mono (fun m ⟨hs, he⟩ => by subst he; rw [hf]; exact hs.frame rfl rfl rfl rfl)
    fun _ _ h => h

-- `malloc` hands out the next buffer and leaves the rest of the state alone.
theorem blockMalloc_serving (n : BitVec 32) : Keeps (BlockServing h) (blockMalloc n) := by
  refine Triple.getExt_bind fun e => Triple.bindK (Keeps.liftExcept _) fun _ => Triple.bind ?_
    fun _ => Keeps.pure _
  exact (Triple.setExt _).mono (fun m ⟨hs, he⟩ => by subst he; exact hs.frame rfl rfl rfl rfl)
    fun _ _ h => h

theorem readAsync_serving (sectorNum : BitVec 64) (n : BitVec 32) :
    Keeps (BlockServing h) (readAsync sectorNum n) :=
  countCall_serving _ (fun _ => rfl) _

theorem writeAsync_serving (sectorNum : BitVec 64) (buf : List (BitVec 8)) (n : BitVec 32) :
    Keeps (BlockServing h) (writeAsync sectorNum buf n) :=
  countCall_serving _ (fun _ => rfl) _

-- `virtio_block_req_end` completes `req` and changes nothing else the ledger sees.
theorem virtioBlockReqEnd_ledger (L : List QueueHead → List QueueHead → BlockState → Prop) (fuel : Nat)
    (ret : Int) :
    Triple (Ledger fun ts cs s1 => L ts ((s1.req.queueIdx, s1.req.descIdx) :: cs) s1)
      (virtioBlockReqEnd fuel ret) fun _ => Ledger L := by
  have hP : ∀ e, DmaFrame fun m => Ledger (fun ts cs s1 => L ts ((s1.req.queueIdx, s1.req.descIdx) :: cs) s1) m ∧ e = m.ext :=
    fun e => Ledger.dmaFrame_ext _ e
  have hc : ∀ e len, Triple (fun m => Ledger (fun ts cs s1 => L ts ((s1.req.queueIdx, s1.req.descIdx) :: cs) s1) m ∧ e = m.ext)
      (virtioConsumeDesc e.req.queueIdx e.req.descIdx len) fun _ => Ledger L :=
    fun e len => (Ledger.virtioConsumeDesc _ _ _).mono (fun m ⟨hs, he⟩ => by subst he; exact hs)
      fun _ _ h => h
  have hbuf : ∀ e, Triple (fun m => Ledger (fun ts cs s1 => L ts ((s1.req.queueIdx, s1.req.descIdx) :: cs) s1) m ∧ e = m.ext)
      (blockReqEndBuf fuel ret) fun _ => Ledger L := by
    intro e
    unfold blockReqEndBuf
    refine Triple.getExt_bind fun e' => ?_
    refine Triple.bind ((Keeps.liftExcept (P := fun m => Ledger _ m ∧ e' = m.ext) _).mono
      (fun _ h => ⟨h.1.1, h.2⟩) fun _ _ h => h) fun _ => ?_
    exact Triple.bind (Keeps.memcpyToQueue (hP e') ..) fun _ => hc e' _
  unfold virtioBlockReqEnd
  refine Triple.getExt_bind fun e => ?_
  dsimp only
  split
  · exact hbuf e
  · exact Triple.bind (Keeps.memcpyToQueue (hP e) ..) fun _ => hc e _
  · exact hbuf e
  · exact hbuf e
  · exact hbuf e
  · exact Triple.fail _

theorem virtioBlockReqEnd_answered (fuel : Nat) (ret : Int) :
    Triple (BlockServing h) (virtioBlockReqEnd fuel ret) fun _ => Ledger blockSlot.Answered :=
  (virtioBlockReqEnd_ledger _ fuel ret).mono (fun m ⟨hs, hq⟩ => by
    simp only [Ledger] at hq ⊢; rw [hq]; exact hs.complete) fun _ _ h => h

-- Then `req` waits for its callback, or `virtio_block_req_end` completes it at once.
theorem blockAfterBackend_answered (fuel : Nat) (ret : Int) :
    Triple (BlockServing h) (blockAfterBackend fuel ret) fun _ => Ledger blockSlot.Answered := by
  unfold blockAfterBackend
  refine Triple.ite (fun _ => (Triple.modifyExt _).mono (fun m ⟨hs, hq⟩ => ?_) fun _ _ h => h)
    fun _ => virtioBlockReqEnd_answered fuel ret
  exact hs.outstanding rfl (by simp only [blockSlot, if_true]; exact congrArg some hq)

theorem blockConsume_answered {q : Fin maxQueue} {d : BitVec 16} (len : BitVec 32) :
    Triple (BlockServing (q, d)) (virtioConsumeDesc q d len) fun _ => Ledger blockSlot.Answered :=
  (Slot.virtioConsumeDesc _ _ _).mono (fun _ h => h.1) fun _ _ h => h

theorem BlockServing.dmaFrame : DmaFrame (BlockServing h) := Ledger.dmaFrame _

theorem blockSlot_outstanding {ts cs : List QueueHead} {s1 : BlockState}
    (hs : blockSlot.Serving h ts cs s1) : s1.outstanding = false := by
  have := hs.none
  simp only [blockSlot] at this
  split at this
  · cases this
  · exact Bool.eq_false_iff.2 ‹_›

-- `virtio_block_recv_request` takes the request unless one is in progress or its header cannot be
-- read, and completes it or leaves it to the backend.
theorem virtioBlockRecvRequest_answered (fuel : Nat) (q : Fin maxQueue) (d : BitVec 16)
    (r w : BitVec 32) : Keeps (Ledger blockSlot.Answered) (virtioBlockRecvRequest fuel q d r w) := by
  unfold virtioBlockRecvRequest
  refine Triple.getExt_bind fun s1 => Triple.ite (fun _ => Triple.pure fun _ h => h.1) fun hb => ?_
  refine Triple.bindK (Keeps.pure _) fun _ => ?_
  refine Triple.bindK (Keeps.memcpyFromQueue (Ledger.dmaFrame_ext _ s1).toReadFrame ..) fun x => ?_
  obtain ⟨r', hdr⟩ := x
  dsimp only
  split
  · exact Triple.bindK (Keeps.pure _) fun _ => Triple.pure fun _ h => h.1
  refine Triple.bindK (Keeps.pure _) fun _ => ?_
  -- the take, then `req` records the request
  refine Triple.bind (Q := fun _ m => Ledger (blockSlot.Serving (q, d)) m ∧ s1 = m.ext)
    ((Triple.logAccess _).mono (fun m ⟨ha, he⟩ => ⟨ha.take (he ▸ Bool.eq_false_iff.2 hb) rfl, he⟩)
      fun _ _ h => h) fun _ => ?_
  refine Triple.bind (Q := fun _ => BlockServing (q, d))
    ((Triple.setExt _).mono (fun m ⟨hs, he⟩ => by
      subst he; exact ⟨hs.frame rfl (by simp [blockSlot, blockSlot_outstanding hs]), rfl⟩)
      fun _ _ h => h) fun _ => ?_
  -- the cases of the request's type
  split
  all_goals
    with_reducible repeat' (first
      | intro _ | dsimp only | split
      | apply Triple.bind (blockAfterBackend_answered ..)
      | apply Triple.bind (virtioBlockReqEnd_answered ..)
      | apply Triple.bind (blockConsume_answered _)
      | exact Triple.pure fun _ h => h
      | apply Triple.bindK (Keeps.liftExcept _) | apply Triple.bindK (readAsync_serving ..)
      | apply Triple.bindK (blockMalloc_serving _)
      | apply Triple.bindK (writeAsync_serving ..)
      | apply Triple.bindK (Keeps.memcpyFromQueue BlockServing.dmaFrame.toReadFrame ..)
      | apply Triple.bindK (Keeps.memcpyToQueue BlockServing.dmaFrame ..)
      | apply Triple.bindK (Keeps.modifyExt fun _ hs => BlockServing.frame hs rfl rfl rfl rfl)
      | apply Triple.bindK (Keeps.pure _) | apply Triple.bindK (Keeps.fail _))

theorem queueNotify_answered (fuel : Nat) (q : Fin maxQueue) :
    Keeps (Ledger blockSlot.Answered) (queueNotify virtioBlockRecvRequest fuel q) :=
  Keeps.queueNotify (Ledger.dmaFrame _) (fun _ _ _ h => h) virtioBlockRecvRequest_answered fuel q

-- The backend's completion: `virtio_block_req_cb` completes the outstanding request, clears
-- `req_in_progress`, and serves the queue again.
theorem blockComplete_answered (fuel : Nat) (ret : Int) (data : List (BitVec 8)) :
    Keeps (Ledger blockSlot.Answered) (blockComplete fuel ret data) := by
  unfold blockComplete virtioBlockReqCb
  refine Triple.getExt_bind fun s1 => ?_
  dsimp only
  split
  · exact Triple.fail_bind _ _
  rename_i ho
  refine Triple.bindK (Keeps.pure _) fun _ => ?_
  -- the request is no longer outstanding, and `virtio_block_req_end` completes it
  refine Triple.bind (Q := fun _ => Ledger fun ts cs e =>
      blockSlot.Answered ts ((e.req.queueIdx, e.req.descIdx) :: cs) { e with reqInProgress := false })
    ?_ fun _ => Triple.bind (virtioBlockReqEnd_ledger (fun ts cs e =>
      blockSlot.Answered ts cs { e with reqInProgress := false }) fuel ret) fun _ => ?_
  · refine (Triple.setExt _).mono (fun m ⟨ha, he⟩ => ?_) fun _ _ h => h
    subst he
    refine ⟨rfl, ?_, ha.served⟩
    rw [ha.takes_eq]
    have ho : m.ext.outstanding = true := by simpa using ho
    simp [blockSlot, ho]
  refine Triple.bind ((Triple.modifyExt (P := Ledger blockSlot.Answered) _).mono (fun _ h => h)
    fun _ _ h => h) fun _ => ?_
  exact Triple.getExt_bind fun _ => (queueNotify_answered ..).mono (fun _ h => h.1) fun _ _ h => h

-- Every state of a run of the block device.
theorem blockModel_answered {nbSectors : BitVec 64} {bs : BlockBackend} {m : Machine BlockState}
    (h : Reachable (blockModel nbSectors bs) m) : Ledger blockSlot.Answered m :=
  Reachable.ledger (D := blockModel nbSectors bs) virtioBlockRecvRequest_answered
    (fun c fuel => blockComplete_answered fuel c.1 c.2) ⟨rfl, rfl, nofun⟩ h

end Block

/-! The 9P device -/

-- Queue 0 only; `req_in_progress`, and the `lopen` whose callback is owed.
def ninePSlot : Slot NinePState where
  serves q := q.val == 0
  busy s1 := s1.reqInProgress
  waiting s1 := s1.outstanding.map fun oi => (oi.queueIdx, oi.descIdx)

section NineP

variable {q : Fin maxQueue} {d : BitVec 16}

theorem ninePServing_frame : NineFrame (Ledger (ninePSlot.Serving (q, d))) :=
  ⟨(Ledger.dmaFrame _).toReadFrame, fun _ _ h1 h2 hs => hs.frame h1 (congrArg (Option.map _) h2)⟩

-- `virtio_9p_open_reply` replies.
theorem virtio9pOpenReply_replies {P : Machine NinePState → Prop} (qid : FsQid) (err : Int) :
    Triple P (virtio9pOpenReply qid err) fun r m => P m ∧ r ≠ .pending := by
  unfold virtio9pOpenReply
  exact Triple.ite (fun _ => Triple.pure fun _ h => ⟨h, nofun⟩) fun _ =>
    Triple.bindK (Keeps.pure _) fun _ => Triple.bindK Keeps.getExt fun _ =>
      Triple.bindK (Keeps.liftExcept _) fun _ => Triple.pure fun _ h => ⟨h, nofun⟩

-- A reply or an error completes the request and changes nothing else the ledger sees.
theorem virtio9pFinish_ledger (L : List QueueHead → List QueueHead → NinePState → Prop) (fuel : Nat)
    (id : BitVec 8) (tag : BitVec 16) (r : P9Result) :
    Triple (fun m => Ledger (fun ts cs e => L ts ((q, d) :: cs) e) m ∧ r ≠ .pending)
      (virtio9pFinish fuel q d id tag r) fun _ => Ledger L := by
  have hs : ∀ id tag buf, Triple (Ledger fun ts cs e => L ts ((q, d) :: cs) e)
      (virtio9pSendReply fuel q d id tag buf) fun _ => Ledger L := fun _ _ _ =>
    Triple.bindK (Keeps.memcpyToQueue (Ledger.dmaFrame _) ..) fun _ => Ledger.virtioConsumeDesc ..
  cases r with
  | reply buf => exact (hs id tag buf).mono (fun _ h => h.1) fun _ _ h => h
  | error err =>
    exact Triple.bindK (Keeps.liftExcept _) fun _ => (hs 6 tag _).mono (fun _ h => h.1) fun _ _ h => h
  | pending => exact Triple.pure fun _ h => (h.2 rfl).elim

-- `virtio_9p_finish` completes the request served, or leaves it outstanding to its callback.
theorem virtio9pFinish_answered (fuel : Nat) (id : BitVec 8) (tag : BitVec 16) (r : P9Result) :
    Triple (OpPost (Ledger (ninePSlot.Serving (q, d))) ⟨q, d, tag⟩ r) (virtio9pFinish fuel q d id tag r)
      fun _ => Ledger ninePSlot.Answered := by
  cases r with
  | pending =>
    refine Triple.pure fun _ h => ?_
    obtain ⟨_, hs, he⟩ := h
    exact hs.outstanding (by rw [he]; rfl) (by rw [he]; rfl)
  | _ => exact (virtio9pFinish_ledger _ ..).mono (fun _ hs => ⟨hs.complete, nofun⟩) fun _ _ h => h

-- `virtio_9p_recv_request` serves queue 0 only; it takes the request unless one is in progress,
-- and answers it or leaves an `lopen` to its callback.
theorem virtio9pRecvRequest_answered (fuel : Nat) (q : Fin maxQueue) (d : BitVec 16)
    (r w : BitVec 32) : Keeps (Ledger ninePSlot.Answered) (virtio9pRecvRequest fuel q d r w) := by
  unfold virtio9pRecvRequest
  refine Triple.ite (fun _ => Keeps.pure _) fun hq => Triple.bindK (Keeps.pure _) fun _ => ?_
  dsimp only
  refine Triple.getExt_bind fun s1 => Triple.ite (fun _ => Triple.pure fun _ h => h.1) fun hb => ?_
  refine Triple.bindK (Keeps.pure _) fun _ => ?_
  -- the take
  refine Triple.bind (Q := fun _ => Ledger (ninePSlot.Serving (q, d)))
    ((Triple.logAccess _).mono (fun m ⟨ha, he⟩ =>
      ha.take (he ▸ Bool.eq_false_iff.2 hb) (beq_iff_eq.2 (not_not.1 hq)))
      fun _ _ h => h) fun _ => ?_
  -- then a reply, an error, or an `lopen` left outstanding
  with_reducible repeat' (first
    | intro _ | dsimp only | split
    | apply Triple.bindK (Keeps.memcpyFromQueue (Ledger.dmaFrame _).toReadFrame ..)
    | apply Triple.bindK (Keeps.pure _)
    | apply Triple.bind (OpPost.protocolError ⟨q, d, 0⟩)
    | apply Triple.bind (OpPost.p9Op ninePServing_frame ..)
    | apply Triple.bind (virtio9pFinish_answered ..) | exact Triple.pure fun _ h => h)

theorem queueNotify_answered9 (fuel : Nat) (q : Fin maxQueue) :
    Keeps (Ledger ninePSlot.Answered) (queueNotify virtio9pRecvRequest fuel q) :=
  Keeps.queueNotify (Ledger.dmaFrame _) (fun _ _ _ h => h) virtio9pRecvRequest_answered fuel q

-- `virtio_9p_open_cb` answers the outstanding `lopen`, clears `req_in_progress`, and serves the
-- queue again.
theorem virtio9pOpenCb_answered (fuel : Nat) (qid : FsQid) (err : Int) :
    Keeps (Ledger ninePSlot.Answered) (virtio9pOpenCb fuel qid err) := by
  unfold virtio9pOpenCb
  refine Triple.getExt_bind fun s1 => ?_
  split
  case h_2 => exact Triple.fail _
  rename_i oi ho
  -- the request is no longer outstanding; `req_in_progress` stays set until it is answered
  refine Triple.bind (Q := fun _ => Ledger fun ts cs e =>
      ninePSlot.Serving (oi.queueIdx, oi.descIdx) ts cs { e with reqInProgress := false })
    ((Triple.modifyExt _).mono (fun m h => ?_) fun _ _ h => h) fun _ => ?_
  · obtain ⟨ha, rfl⟩ := h
    exact ⟨rfl, rfl, by rw [ha.takes_eq]; simp [ninePSlot, ho], ha.served⟩
  refine Triple.bind (virtio9pOpenReply_replies ..) fun r => ?_
  refine Triple.bind ((virtio9pFinish_ledger (fun ts cs e =>
      ninePSlot.Answered ts cs { e with reqInProgress := false }) ..).mono
    (fun _ ⟨hs, hr⟩ => ⟨hs.complete, hr⟩) fun _ _ h => h) fun _ => ?_
  refine Triple.bind ((Triple.modifyExt (P := Ledger ninePSlot.Answered) _).mono (fun _ h => h)
    fun _ _ h => h) fun _ => ?_
  exact queueNotify_answered9 ..

-- Every state of a run of the 9P device.
theorem ninePModel_answered {dev : VirtioDevice} {fs : FsDevice} {m : Machine NinePState}
    (h : Reachable (ninePModel dev fs) m) : Ledger ninePSlot.Answered m :=
  Reachable.ledger (D := ninePModel dev fs) virtio9pRecvRequest_answered
    (fun c fuel => virtio9pOpenCb_answered fuel c.1 c.2) ⟨rfl, rfl, nofun⟩ h

-- While a request is in progress the receive functions refuse the next one and change nothing,
-- so `queue_notify` stops before it.
theorem virtioBlockRecvRequest_busy (fuel : Nat) (q : Fin maxQueue) (d : BitVec 16) (r w : BitVec 32)
    {m : Machine BlockState} (hb : m.ext.reqInProgress = true) :
    (virtioBlockRecvRequest fuel q d r w).run m = .ok (-1, m) := by
  rw [virtioBlockRecvRequest, getExt_bind_run, if_pos hb]
  rfl

theorem virtio9pRecvRequest_busy (fuel : Nat) (q : Fin maxQueue) (d : BitVec 16) (r w : BitVec 32)
    {m : Machine NinePState} (hq : q = 0) (hb : m.ext.reqInProgress = true) :
    (virtio9pRecvRequest fuel q d r w).run m = .ok (-1, m) := by
  rw [virtio9pRecvRequest, if_neg (show ¬(q.val ≠ 0) from fun h => h (by rw [hq]; rfl)), pure_bind,
    getExt_bind_run, if_pos hb]
  rfl

end NineP

end Virtio
