import TinyEmuVirtio.Execution.Transfer
import TinyEmuVirtio.Execution.Devices

namespace Virtio

/-! What a 9P request gets back -/

-- The message that ends a request whose operation answered `res`, as the 9P protocol lays it
-- out: its size, the reply's id, the request's tag and the reply, or for an error `Rlerror` (7)
-- and the error code. An `lopen` left to its callback gets none yet.
def p9Message (id : BitVec 8) (tag : List (BitVec 8)) : P9Result → Option (List (BitVec 8))
  | .reply buf => some (toLe (buf.length + 7) 4 ++ [id + 1] ++ tag ++ buf)
  | .error err => some (toLe 11 4 ++ [7] ++ tag ++ toLe (-BitVec.ofInt 32 err).toNat 4)
  | .pending => none

-- The tag is read from two bytes and put back as two.
theorem toLe_tag {bs : List (BitVec 8)} (h : bs.length = 2) :
    toLe (BitVec.ofNat 16 (fromLe bs)).toNat 2 = bs := by
  have := fromLe_lt bs
  rw [BitVec.toNat_ofNat, Nat.mod_eq_of_lt (by rw [h] at this; omega), ← h, toLe_fromLe]

-- An operation keeps what guest memory and the transport are, also where it is left outstanding.
theorem OpPost.ram_dev {R : Ram} {D : VirtioDevice} {oi : P9OpenInfo} {res : P9Result}
    {m : Machine NinePState} (h : OpPost (fun x => x.ram = R ∧ x.dev = D) oi res m) :
    m.ram = R ∧ m.dev = D := by
  cases res
  all_goals first | exact h | exact h.elim fun _ h => h.1

-- An operation left to its callback is recorded as the outstanding one.
theorem OpPost.outstanding {P : Machine NinePState → Prop} {oi : P9OpenInfo}
    {m : Machine NinePState} (h : OpPost P oi .pending m) : m.ext.outstanding = some oi :=
  h.elim fun _ h => by rw [h.2]

section Reply

variable {fuel : Nat} {q : Fin maxQueue} {i : BitVec 16} {ds : List VirtioDesc}

-- `virtio_9p_send_reply` with room in the writable part: the header and the reply go to its start
-- and the chain is completed with their length.
theorem virtio9pSendReply_chain {id : BitVec 8} {tag : BitVec 16} {buf : List (BitVec 8)}
    (m : Machine NinePState) (h : IsChain m.ram (m.dev.queue q).descAddr i ds)
    (hfuel : ds.length < fuel) (hlen : ∀ d ∈ ds, d.len.toNat < 2 ^ 31)
    (hall : (afterSegment false ds).all (·.isWrite))
    (hsep : Separated (m.dev.queue q).descAddr i ds (afterSegment false ds))
    (hc : buf.length + 7 < 2 ^ 31) (hfit : buf.length + 7 ≤ bufLen (afterSegment false ds)) :
    ∃ tr, (virtio9pSendReply fuel q i id tag buf).run m =
      (virtioConsumeDesc q i (BitVec.ofNat 32 (buf.length + 7))).run { m with
        ram := storeBytes (bufAddr (afterSegment false ds)) 0
          (toLe (buf.length + 7) 4 ++ [id + 1] ++ toLe tag.toNat 2 ++ buf) m.ram
        trace := tr } := by
  have hn : (BitVec.ofNat 32 (buf.length + 7)).toNat = buf.length + 7 := by
    rw [BitVec.toNat_ofNat]; omega
  have hl : (toLe (buf.length + 7) 4 ++ [id + 1] ++ toLe tag.toNat 2 ++ buf).length =
      buf.length + 7 := by
    simp only [List.length_append, length_toLe, List.length_singleton]; omega
  obtain ⟨tr, hrun⟩ := @memcpyToQueue_store _ fuel q i ds 0 (BitVec.ofNat 32 (buf.length + 7))
    (toLe (buf.length + 7) 4 ++ [id + 1] ++ toLe tag.toNat 2 ++ buf) m h hfuel hlen hall hsep
    (by rw [hn]; exact hc) (by rw [hn, hl]) (by simpa [hn] using hfit)
  refine ⟨tr, ?_⟩
  simp only [virtio9pSendReply]
  rw [hn, bind_run_ok hrun, hn, List.take_of_length_le hl.le]
  rfl

-- `virtio_9p_finish` of an answer with room for its message: the message goes to the start of the
-- writable part and the chain is completed with its length.
theorem virtio9pFinish_chain {id : BitVec 8} {tag : BitVec 16} {res : P9Result}
    {msg : List (BitVec 8)} (m : Machine NinePState)
    (h : IsChain m.ram (m.dev.queue q).descAddr i ds)
    (hfuel : ds.length < fuel) (hlen : ∀ d ∈ ds, d.len.toNat < 2 ^ 31)
    (hall : (afterSegment false ds).all (·.isWrite))
    (hsep : Separated (m.dev.queue q).descAddr i ds (afterSegment false ds))
    (hmsg : p9Message id (toLe tag.toNat 2) res = some msg) (hc : msg.length < 2 ^ 31)
    (hfit : msg.length ≤ bufLen (afterSegment false ds)) :
    ∃ tr, (virtio9pFinish fuel q i id tag res).run m =
      (virtioConsumeDesc q i (BitVec.ofNat 32 msg.length)).run { m with
        ram := storeBytes (bufAddr (afterSegment false ds)) 0 msg m.ram, trace := tr } := by
  cases res with
  | reply buf =>
    cases hmsg
    have hl : (toLe (buf.length + 7) 4 ++ [id + 1] ++ toLe tag.toNat 2 ++ buf).length =
        buf.length + 7 := by
      simp only [List.length_append, length_toLe, List.length_singleton]; omega
    rw [hl] at hc hfit ⊢
    exact virtio9pSendReply_chain m h hfuel hlen hall hsep hc hfit
  | error err =>
    cases hmsg
    obtain ⟨tr, hrun⟩ := @virtio9pSendReply_chain fuel q i ds 6 tag
      (toLe (-BitVec.ofInt 32 err).toNat 4) m h hfuel hlen hall hsep (by simp) (by simpa using hfit)
    exact ⟨tr, hrun⟩
  | pending => cases hmsg

-- A 9P request on the request queue of a device serving none, with its header in the readable
-- part: whatever its operation answers, the operation writes no guest memory and leaves the
-- transport alone, and the request ends with the message of the answer, which carries the reply
-- id and the two tag bytes of the header, at the start of the writable part; an `lopen` left to
-- its callback completes nothing and is recorded with its queue, descriptor and tag.
theorem virtio9pRecvRequest_reply (m : Machine NinePState) (hbusy : m.ext.reqInProgress = false)
    (h : IsChain m.ram (m.dev.queue 0).descAddr i ds) (hfuel : ds.length < fuel)
    (hlen : ∀ d ∈ ds, d.len.toNat < 2 ^ 31) (hall : (afterSegment false ds).all (·.isWrite))
    (hsep : Separated (m.dev.queue 0).descAddr i ds (afterSegment false ds))
    (hhdr : 7 ≤ bufLen (segment false ds)) :
    let req := bufBytes m.ram (segment false ds)
    ∃ tr, ∀ res m', (p9Op fuel 0 i (BitVec.ofNat 16 (fromLe ((req.drop 5).take 2))) 7
        (req.getD 4 0)).run { m with trace := tr } = .ok (res, m') →
      m'.ram = m.ram ∧ m'.dev = m.dev ∧
      (res = .pending → (virtio9pRecvRequest fuel 0 i 0 0).run m = .ok (0, m') ∧
        m'.ext.outstanding = some ⟨0, i, BitVec.ofNat 16 (fromLe ((req.drop 5).take 2))⟩) ∧
      ∀ msg, p9Message (req.getD 4 0) ((req.drop 5).take 2) res = some msg →
        msg.length < 2 ^ 31 → msg.length ≤ bufLen (afterSegment false ds) →
        ∃ tr', (virtio9pRecvRequest fuel 0 i 0 0).run m =
          (virtioConsumeDesc 0 i (BitVec.ofNat 32 msg.length) >>= fun _ => pure 0).run
            { m' with
              ram := storeBytes (bufAddr (afterSegment false ds)) 0 msg m.ram
              trace := tr' } := by
  intro req
  obtain ⟨tr, hhd⟩ := @memcpyFromQueue_read _ fuel 0 i ds 0 7
    { m with trace := .take 0 i :: m.trace } h hfuel hlen (by decide) (by simpa using hhdr)
  replace hhd : (memcpyFromQueue fuel 0 i 0 7).run { m with trace := .take 0 i :: m.trace } =
      .ok ((0, req.take 7), { m with trace := tr }) := hhd
  refine ⟨tr, fun res m' hop => ?_⟩
  have hP : NineFrame fun x : Machine NinePState => x.ram = m.ram ∧ x.dev = m.dev :=
    ⟨⟨fun _ _ _ _ _ h => h⟩, fun _ _ _ _ h => h⟩
  have hpost := (OpPost.p9Op hP ..).run _ _ _ hop ⟨rfl, rfl⟩
  obtain ⟨hram, hdev⟩ := OpPost.ram_dev hpost
  have htag : ((req.take 7).drop 5).take 2 = (req.drop 5).take 2 := by
    simp [List.drop_take, List.take_take]
  have hid : (req.take 7).getD 4 0 = req.getD 4 0 := by
    simp [List.getD_eq_getElem?_getD, List.getElem?_take]
  have hrun : (virtio9pRecvRequest fuel 0 i 0 0).run m =
      (virtio9pFinish fuel 0 i (req.getD 4 0) (BitVec.ofNat 16 (fromLe ((req.drop 5).take 2)))
        res >>= fun _ => pure 0).run m' := by
    simp only [virtio9pRecvRequest]
    rw [if_neg (fun h => h rfl), pure_bind, getExt_bind_run, hbusy]
    simp only [Bool.false_eq_true, if_false, pure_bind]
    rw [logAccess_bind_run, bind_run_ok hhd]
    simp only [ne_eq, not_true_eq_false, if_false, pure_bind]
    rw [hid, htag, bind_run_ok hop]
  refine ⟨hram, hdev, fun hp => ?_, fun msg hmsg hc hfit => ?_⟩
  · subst hp
    exact ⟨hrun, OpPost.outstanding hpost⟩
  · have h' : IsChain m'.ram (m'.dev.queue 0).descAddr i ds := hram ▸ hdev ▸ h
    have hsep' : Separated (m'.dev.queue 0).descAddr i ds (afterSegment false ds) := hdev ▸ hsep
    have hlen2 : ((req.drop 5).take 2).length = 2 := by
      simp only [List.length_take, List.length_drop, req, length_bufBytes]; omega
    obtain ⟨tr', h2⟩ := virtio9pFinish_chain m' h' hfuel hlen hall hsep'
      (by rw [toLe_tag hlen2]; exact hmsg) hc hfit
    exact ⟨tr', by rw [hrun, bind_run_congr h2, hram]⟩

-- Request queue 0 with its table at 0: descriptor 0, readable, of 7 bytes at 0x300 holding the
-- header of a `TXATTRWALK` (30) with tag 0x1234, and descriptor 1, writable, of 16 bytes at 0x400.
-- The backend does not support it: the guest gets `Rlerror` with the tag and `P9_ENOTSUP`.
theorem ninep_unsupported_request_gets_tagged_error :
    let m : Machine NinePState := ⟨virtioInit 9 6,
      writeRam (writeRam (fun _ => 0) 0 [0, 3, 0, 0, 0, 0, 0, 0, 7, 0, 0, 0, 1, 0, 1, 0,
        0, 4, 0, 0, 0, 0, 0, 0, 16, 0, 0, 0, 2, 0, 0, 0]) 0x300 [7, 0, 0, 0, 30, 0x34, 0x12], [],
      .init { (default : FsDevice) with enotsup := 95 }⟩
    ∃ tr, (virtio9pRecvRequest 3 0 0 0 0).run m =
      (virtioConsumeDesc 0 0 11 >>= fun _ => pure 0).run { m with
        ram := storeBytes (bufAddr [⟨0x400, 16, 2, 0⟩]) 0 [11, 0, 0, 0, 7, 0x34, 0x12, 95, 0, 0, 0]
          m.ram
        trace := tr } := by
  intro m
  have hc : IsChain m.ram (m.dev.queue 0).descAddr 0 [⟨0x300, 7, 1, 1⟩, ⟨0x400, 16, 2, 0⟩] :=
    .link (by decide) rfl (.single (by decide) rfl)
  have hs : Separated (m.dev.queue 0).descAddr 0 [⟨0x300, 7, 1, 1⟩, ⟨0x400, 16, 2, 0⟩]
      (afterSegment false [⟨0x300, 7, 1, 1⟩, ⟨0x400, 16, 2, 0⟩]) := by
    unfold Separated; decide
  obtain ⟨tr, hw⟩ := @virtio9pRecvRequest_reply 3 0 [⟨0x300, 7, 1, 1⟩, ⟨0x400, 16, 2, 0⟩] m rfl
    hc (by decide) (by decide) (by decide) hs (by decide)
  have hid :
      (bufBytes m.ram (segment false [⟨0x300, 7, 1, 1⟩, ⟨0x400, 16, 2, 0⟩])).getD 4 0 = 30 := by
    decide
  rw [hid] at hw
  have hop : (p9Op 3 0 0 (BitVec.ofNat 16 (fromLe (((bufBytes m.ram (segment false
      [⟨0x300, 7, 1, 1⟩, ⟨0x400, 16, 2, 0⟩])).drop 5).take 2))) 7 30).run { m with trace := tr } =
      .ok (.error (-95), { m with trace := tr }) := rfl
  obtain ⟨-, -, -, hmsg⟩ := hw _ _ hop
  have htag :
      ((bufBytes m.ram (segment false [⟨0x300, 7, 1, 1⟩, ⟨0x400, 16, 2, 0⟩])).drop 5).take 2 =
        [0x34, 0x12] := by
    decide
  rw [htag] at hmsg
  have h1 : p9Message 30 [0x34, 0x12] (.error (-95)) =
      some [11, 0, 0, 0, 7, 0x34, 0x12, 95, 0, 0, 0] := by
    decide
  obtain ⟨tr', h⟩ := hmsg _ h1 (by decide) (by decide)
  rw [show afterSegment false [⟨0x300, 7, 1, 1⟩, ⟨0x400, 16, 2, 0⟩] = [⟨0x400, 16, 2, 0⟩] from rfl]
    at h
  exact ⟨tr', h⟩

-- A 9P device with mount tag "root" and a backend that answers every call with 0. Queue 0 has its
-- table at 0x1000, its rings at 0x4000 and 0x5000, and two entries available: a `Tattach` of fid 0
-- at 0x2000 and a `Tread` of fid 0 at 0x3000 for `count` 0xffffffff. The buffer of `count + 4`
-- bytes is of 3 bytes, and the 4 bytes of the reply's count leave it. With `count` 16 instead, the
-- same two requests are answered.
set_option smartUnfolding false in
theorem ninep_read_count_wraps_buffer :
    ∃ dev m, virtio9pInit [0x72, 0x6f, 0x6f, 0x74] = .ok dev ∧
      Reachable (ninePModel dev default) m ∧
      (queueNotify virtio9pRecvRequest 3 0).run m = .error .undefined ∧
      Reachable (ninePModel dev default) { m with ram := writeRam m.ram 0x3013 [16, 0, 0, 0] } ∧
      ∃ m', (queueNotify virtio9pRecvRequest 3 0).run
        { m with ram := writeRam m.ram 0x3013 [16, 0, 0, 0] } = .ok ((), m') := by
  have h := (((((((Reachable.init (D := ninePModel { virtioInit 9 6 with
      deviceFeatures := virtioFVersion1 ||| 1
      configSpace := putBytes (virtioInit 9 6).configSpace 0 [4, 0, 0x72, 0x6f, 0x6f, 0x74] } default)
      fun _ => 0).step
    (.guest _ 0x1000 [0, 0x20, 0, 0, 0, 0, 0, 0, 23, 0, 0, 0, 0, 0, 0, 0,
      0, 0x30, 0, 0, 0, 0, 0, 0, 23, 0, 0, 0, 0, 0, 0, 0])).step
    (.guest _ 0x2000 [23, 0, 0, 0, 104, 0, 0, 0, 0, 0, 0, 0, 0, 0, 0, 0, 0, 0, 0, 0, 0, 0, 0])).step
    (.guest _ 0x3000
      [23, 0, 0, 0, 116, 0, 0, 0, 0, 0, 0, 0, 0, 0, 0, 0, 0, 0, 0, 0xff, 0xff, 0xff, 0xff])).step
    (.guest _ 0x4000 [0, 0, 2, 0, 0, 0, 1, 0])).step (.mmioWrite 0x80 0x1000 2 rfl)).step
    (.mmioWrite 0x90 0x4000 2 rfl)).step (.mmioWrite 0xa0 0x5000 2 rfl)
  exact ⟨_, _, rfl, h, rfl, h.step (.guest _ 0x3013 [16, 0, 0, 0]), _, rfl⟩

-- The same device and queue, with a backend whose `fs_readlink` returns a target of 1023 bytes,
-- which with its NUL fills the 1024-byte buffer of the source. The second entry is a `Treadlink`
-- of fid 0 at 0x3000: its reply needs 2 + 1023 bytes, and `marshall` aborts.
set_option smartUnfolding false in
set_option maxRecDepth 8000 in
theorem ninep_readlink_reply_overflows :
    ∃ dev m, virtio9pInit [0x72, 0x6f, 0x6f, 0x74] = .ok dev ∧
      Reachable (ninePModel dev
        { (default : FsDevice) with readlink := fun _ _ => (0, List.replicate 1023 0x61) }) m ∧
      (queueNotify virtio9pRecvRequest 3 0).run m = .error .abort := by
  have h := (((((((Reachable.init (D := ninePModel { virtioInit 9 6 with
      deviceFeatures := virtioFVersion1 ||| 1
      configSpace := putBytes (virtioInit 9 6).configSpace 0 [4, 0, 0x72, 0x6f, 0x6f, 0x74] }
        { (default : FsDevice) with readlink := fun _ _ => (0, List.replicate 1023 0x61) })
      fun _ => 0).step
    (.guest _ 0x1000 [0, 0x20, 0, 0, 0, 0, 0, 0, 23, 0, 0, 0, 0, 0, 0, 0,
      0, 0x30, 0, 0, 0, 0, 0, 0, 11, 0, 0, 0, 0, 0, 0, 0])).step
    (.guest _ 0x2000 [23, 0, 0, 0, 104, 0, 0, 0, 0, 0, 0, 0, 0, 0, 0, 0, 0, 0, 0, 0, 0, 0, 0])).step
    (.guest _ 0x3000 [11, 0, 0, 0, 22, 0, 0, 0, 0, 0, 0])).step
    (.guest _ 0x4000 [0, 0, 2, 0, 0, 0, 1, 0])).step (.mmioWrite 0x80 0x1000 2 rfl)).step
    (.mmioWrite 0x90 0x4000 2 rfl)).step (.mmioWrite 0xa0 0x5000 2 rfl)
  exact ⟨_, _, rfl, h, rfl⟩

-- `virtio_9p_open_cb` with room in the writable part of the outstanding request's chain: the
-- `lopen` ends with `Rlopen` (13), the qid and the `iounit`, or with `Rlerror`, under the tag
-- recorded when it was taken; then `req_in_progress` is cleared and its queue served again.
theorem virtio9pOpenCb_reply {qid : FsQid} {err : Int} {oi : P9OpenInfo} (m : Machine NinePState)
    (ho : m.ext.outstanding = some oi)
    (h : IsChain m.ram (m.dev.queue oi.queueIdx).descAddr oi.descIdx ds) (hfuel : ds.length < fuel)
    (hlen : ∀ d ∈ ds, d.len.toNat < 2 ^ 31) (hall : (afterSegment false ds).all (·.isWrite))
    (hsep : Separated (m.dev.queue oi.queueIdx).descAddr oi.descIdx ds (afterSegment false ds))
    (hfit : 24 ≤ bufLen (afterSegment false ds)) :
    ∃ msg tr, p9Message 12 (toLe oi.tag.toNat 2) (if err < 0 then .error err
        else .reply ((P9Value.q qid).bytes ++ toLe (m.ext.msize - 24).toNat 4)) = some msg ∧
      (virtio9pOpenCb fuel qid err).run m =
        (do virtioConsumeDesc oi.queueIdx oi.descIdx (BitVec.ofNat 32 msg.length)
            modifyExt fun s : NinePState => { s with reqInProgress := false }
            queueNotify virtio9pRecvRequest fuel oi.queueIdx).run { m with
          ram := storeBytes (bufAddr (afterSegment false ds)) 0 msg m.ram
          ext := { m.ext with outstanding := none }
          trace := tr } := by
  have hreply :
      (virtio9pOpenReply qid err).run { m with ext := { m.ext with outstanding := none } } =
      .ok (if err < 0 then .error err
        else .reply ((P9Value.q qid).bytes ++ toLe (m.ext.msize - 24).toNat 4),
        { m with ext := { m.ext with outstanding := none } }) := by
    unfold virtio9pOpenReply
    split <;> rfl
  obtain ⟨msg, hmsg, hl⟩ : ∃ msg, p9Message 12 (toLe oi.tag.toNat 2) (if err < 0 then .error err
      else .reply ((P9Value.q qid).bytes ++ toLe (m.ext.msize - 24).toNat 4)) = some msg ∧
      msg.length ≤ 24 := by
    split
    · exact ⟨_, rfl, by simp⟩
    · exact ⟨_, rfl, by simp [P9Value.bytes]⟩
  obtain ⟨tr, h2⟩ := virtio9pFinish_chain { m with ext := { m.ext with outstanding := none } } h
    hfuel hlen hall hsep hmsg (by omega) (by omega)
  refine ⟨msg, tr, hmsg, ?_⟩
  simp only [virtio9pOpenCb]
  rw [getExt_bind_run, ho]
  dsimp only
  rw [modifyExt_bind_run, bind_run_ok hreply]
  exact bind_run_congr h2

-- The `lopen` of descriptor 0 of queue 0 with tag 0x1234 is outstanding, and the chain is one
-- writable descriptor of 32 bytes at 0x400. The backend fails it with `ENOENT` (2): the guest gets
-- `Rlerror` under the tag.
theorem ninep_open_callback_replies_under_saved_tag :
    let m : Machine NinePState := ⟨virtioInit 9 6,
      writeRam (fun _ => 0) 0 [0, 4, 0, 0, 0, 0, 0, 0, 32, 0, 0, 0, 2, 0, 0, 0], [],
      { NinePState.init default with reqInProgress := true, outstanding := some ⟨0, 0, 0x1234⟩ }⟩
    ∃ tr, (virtio9pOpenCb 2 ⟨0, 0, 0⟩ (-2)).run m =
      (do virtioConsumeDesc 0 0 11
          modifyExt fun s : NinePState => { s with reqInProgress := false }
          queueNotify virtio9pRecvRequest 2 0).run { m with
        ram := storeBytes (bufAddr [⟨0x400, 32, 2, 0⟩]) 0 [11, 0, 0, 0, 7, 0x34, 0x12, 2, 0, 0, 0]
          m.ram
        ext := { m.ext with outstanding := none }
        trace := tr } := by
  intro m
  obtain ⟨msg, tr, hmsg, h⟩ := @virtio9pOpenCb_reply 2 [⟨0x400, 32, 2, 0⟩] ⟨0, 0, 0⟩ (-2)
    ⟨0, 0, 0x1234⟩ m rfl (.single (by decide) rfl) (by decide) (by decide) (by decide)
    (by unfold Separated; decide) (by decide)
  obtain rfl : msg = [11, 0, 0, 0, 7, 0x34, 0x12, 2, 0, 0, 0] :=
    Option.some.inj (hmsg.symm.trans (by decide))
  exact ⟨tr, h⟩

end Reply

end Virtio
