import TinyEmuVirtio.Execution.Transfer
import TinyEmuVirtio.Execution.Devices
import TinyEmuVirtio.Objects.Devices.Input

namespace Virtio

/-! The events a report of the host makes -/

-- An event of the input device: its type, code and value.
abbrev InputEvent := BitVec 16 × BitVec 16 × BitVec 32

-- `virtio_input_queue_event` of each event in turn, up to the first that fails.
def sendEvents (fuel : Nat) : List InputEvent → VirtioM InputState Int
  | [] => return 0
  | (type, code, value) :: es => do
    let ret ← virtioInputQueueEvent fuel type code value
    if ret ≠ 0 then return ret
    sendEvents fuel es

-- A key event for each button, numbered from `i`, whose state in `buttons` differs from the one in
-- `last`, with its new state.
def buttonEvents (buttons last : BitVec 32) (i : Nat) (codes : List (BitVec 16)) : List InputEvent :=
  (codes.enumFrom i).filterMap fun (j, code) =>
    if buttons.getLsbD j = last.getLsbD j then none
    else some (virtioInputEvKey, code, if buttons.getLsbD j then 1 else 0)

section Events

variable (fuel : Nat) (k : VirtioM InputState Int)

-- Sending events, then going on only where all were queued.
theorem sendEvents_nil_bind :
    (sendEvents fuel [] >>= fun ret => if ret ≠ 0 then pure ret else k) = k := by
  simp [sendEvents]

theorem sendEvents_cons_bind (type code : BitVec 16) (value : BitVec 32) (es : List InputEvent) :
    (sendEvents fuel ((type, code, value) :: es) >>= fun ret => if ret ≠ 0 then pure ret else k) =
      (virtioInputQueueEvent fuel type code value >>= fun ret => if ret ≠ 0 then pure ret else
        sendEvents fuel es >>= fun ret => if ret ≠ 0 then pure ret else k) := by
  simp only [sendEvents, bind_assoc]
  congr 1
  funext ret
  by_cases h : ret = 0 <;> simp [h]

theorem sendEvents_append_bind (l₁ l₂ : List InputEvent) :
    (sendEvents fuel (l₁ ++ l₂) >>= fun ret => if ret ≠ 0 then pure ret else k) =
      (sendEvents fuel l₁ >>= fun ret => if ret ≠ 0 then pure ret else
        sendEvents fuel l₂ >>= fun ret => if ret ≠ 0 then pure ret else k) := by
  induction l₁ with
  | nil => rw [List.nil_append, sendEvents_nil_bind]
  | cons e l₁ ih =>
    obtain ⟨type, code, value⟩ := e
    rw [List.cons_append, sendEvents_cons_bind, sendEvents_cons_bind, ih]

end Events

-- Bit `i` of `x`, as the loop takes it.
theorem ushiftRight_and_one (x : BitVec 32) (i : Nat) :
    (x >>> i) &&& 1 = if x.getLsbD i then 1 else 0 := by
  ext j
  by_cases h : x.getLsbD i <;> by_cases hj : (j : Nat) = 0 <;> simp [h, hj, BitVec.getLsbD_one]

theorem loop_eq_sendEvents (fuel : Nat) (buttons last : BitVec 32) :
    ∀ codes i, virtioInputSendMouseEvent.loop fuel buttons last codes i =
      sendEvents fuel (buttonEvents buttons last i codes)
  | [], _ => rfl
  | code :: codes, i => by
    have ih := loop_eq_sendEvents fuel buttons last codes (i + 1)
    simp only [virtioInputSendMouseEvent.loop, buttonEvents, List.enumFrom_cons, List.filterMap_cons,
      ushiftRight_and_one]
    cases hb : buttons.getLsbD i <;> cases hl : last.getLsbD i <;> simp [sendEvents, ih, buttonEvents]

theorem buttonEvents_self (b : BitVec 32) (i : Nat) (codes : List (BitVec 16)) :
    buttonEvents b b i codes = [] := by
  simp [buttonEvents]

-- The events of a report of a mouse or a tablet: the two axes, relative for a mouse and absolute
-- for a tablet, the wheel where it moved, and a key event for each button whose state changed.
def mouseEvents (type : VirtioInputType) (dx dy dz buttons last : BitVec 32) : List InputEvent :=
  (if type = .mouse then [(virtioInputEvRel, relX, dx), (virtioInputEvRel, relY, dy)]
    else [(virtioInputEvAbs, absX, dx), (virtioInputEvAbs, absY, dy)]) ++
  (if dz ≠ 0 then [(virtioInputEvRel, relWheel, dz)] else []) ++
  buttonEvents buttons last 0 buttonsList

theorem virtioInputSendMouseEvent_events (fuel : Nat) (dx dy dz buttons : BitVec 32) :
    virtioInputSendMouseEvent fuel dx dy dz buttons = (do
      let s1 ← getExt
      if s1.type ≠ .mouse ∧ s1.type ≠ .tablet then return -1
      let ret ← sendEvents fuel (mouseEvents s1.type dx dy dz buttons s1.buttonsState)
      if ret ≠ 0 then return ret
      if buttons ≠ s1.buttonsState then modifyExt ({ · with buttonsState := buttons })
      virtioInputQueueEvent fuel virtioInputEvSyn 0 0) := by
  unfold virtioInputSendMouseEvent
  congr 1
  funext s1
  by_cases ht : s1.type ≠ .mouse ∧ s1.type ≠ .tablet
  · rw [if_pos ht, if_pos ht]
  rw [if_neg ht, if_neg ht]
  simp only [mouseEvents, pure_bind, sendEvents_append_bind, loop_eq_sendEvents]
  have htype : s1.type = .mouse ∨ s1.type = .tablet := by
    cases h : s1.type <;> simp_all
  rcases htype with h | h <;> by_cases hz : dz = 0 <;> by_cases hb : buttons = s1.buttonsState <;>
    simp only [h, hz, hb, buttonEvents_self, if_true, if_false, ne_eq, not_true_eq_false,
      not_false_eq_true, reduceCtorEq, sendEvents_cons_bind, sendEvents_nil_bind]

-- A mouse whose event queue (rings at address 0) has three buffers available, the third one the
-- descriptor 8 with its buffer at 0x3000. The host reports buttons 3 (left and right pressed):
-- the events for the motion take two buffers, the press of `BTN_LEFT` the third, and the press of
-- `BTN_RIGHT` finds none. The call fails with `buttons_state` still 0, though the guest has been
-- given the press of `BTN_LEFT`.
set_option smartUnfolding false in
theorem mouse_failed_report_leaves_buttons_stale :
    ∃ m m' : Machine InputState, Reachable (inputModel .mouse 0) m ∧
      (virtioInputSendMouseEvent 1 0 0 0 3).run m = .ok (-1, m') ∧ m'.ext.buttonsState = 0 ∧
      readRam m'.ram 0x3000 8 = [1, 0, 0x10, 1, 1, 0, 0, 0] ∧
      m'.trace.head? = some (.consume 0 8 8) := by
  have h := (((((Reachable.init (D := inputModel .mouse 0) fun _ => 0).step
    (.guest _ 2 [3, 0])).step (.guest _ 8 [8, 0, 0, 0, 2, 0])).step
    (.guest _ 128 [0, 0x30, 0, 0, 0, 0, 0, 0, 8, 0, 0, 0, 2, 0])).step
    (.mmioWrite 0x44 1 2 rfl)).step (.mmioWrite 0x50 0 2 rfl)
  -- the drain reads `avail.idx` into the cached `avail_idx`
  have h : Reachable (inputModel .mouse 0)
      ⟨((virtioInputInit .mouse 0).updateQueue 0 ({ · with ready := 1 })).updateQueue 0
        ({ · with availIdx := 3 }),
        writeRam (writeRam (writeRam (fun _ => 0) 2 [3, 0]) 8 [8, 0, 0, 0, 2, 0]) 128
          [0, 0x30, 0, 0, 0, 0, 0, 0, 8, 0, 0, 0, 2, 0], [.read 0 .avail 2 2], .init .mouse⟩ :=
    h.step (.drain 1 rfl)
  exact ⟨_, _, h, rfl, rfl, rfl, rfl⟩

section Queue

variable {fuel : Nat} {ds : List VirtioDesc}

-- The eight bytes of an event as `virtio_input_queue_event` lays them out.
def eventBytes (type code : BitVec 16) (value : BitVec 32) : List (BitVec 8) :=
  toLe type.toNat 2 ++ toLe code.toNat 2 ++ toLe value.toNat 4

-- `virtio_input_queue_event` on a ready event queue with a chain available whose writable part
-- holds eight bytes: the event goes to the start of the writable part, the chain is completed with
-- 8 and the queue moves on.
theorem virtioInputQueueEvent_chain {type code : BitVec 16} {value : BitVec 32}
    (m : Machine InputState) (hready : (m.dev.queue 0).ready ≠ 0)
    (havail : (m.dev.queue 0).lastAvailIdx ≠ (m.dev.queue 0).availIdx)
    (h : IsChain m.ram (m.dev.queue 0).descAddr
      (availHeadAt m.ram (m.dev.queue 0) (m.dev.queue 0).lastAvailIdx) ds)
    (hfuel : ds.length < fuel) (hlen : ∀ d ∈ ds, d.len.toNat < 2 ^ 31)
    (hall : (afterSegment false ds).all (·.isWrite))
    (hsep : Separated (m.dev.queue 0).descAddr
      (availHeadAt m.ram (m.dev.queue 0) (m.dev.queue 0).lastAvailIdx) ds (afterSegment false ds))
    (hfit : 8 ≤ bufLen (afterSegment false ds)) :
    ∃ tr, (virtioInputQueueEvent fuel type code value).run m =
      (do virtioConsumeDesc 0 (availHeadAt m.ram (m.dev.queue 0) (m.dev.queue 0).lastAvailIdx) 8
          incLastAvailIdx 0
          pure 0).run { m with
        ram := storeBytes (bufAddr (afterSegment false ds)) 0 (eventBytes type code value) m.ram
        trace := tr } := by
  have hl : (eventBytes type code value).length = 8 := by simp [eventBytes]
  obtain ⟨tr, hrun⟩ := @memcpyToQueue_store _ fuel 0 _ ds 0 8 (eventBytes type code value)
    { m with trace := .read 0 .avail (availSlotAddr (m.dev.queue 0) (m.dev.queue 0).lastAvailIdx) 2 ::
      m.trace } h hfuel hlen hall hsep (by decide) (by rw [hl]; decide) (by simpa using hfit)
  refine ⟨tr, ?_⟩
  simp only [virtioInputQueueEvent]
  rw [getQueue_bind_run, if_neg hready]
  simp only [pure_bind]
  rw [if_neg havail, nextAvailDesc_bind_run,
    show toLe type.toNat 2 ++ toLe code.toNat 2 ++ toLe value.toNat 4 = eventBytes type code value
      from rfl, bind_run_ok hrun, List.take_of_length_le (by rw [hl]; decide)]
  rfl

-- The event queue of a keyboard with its table at 0 and one chain posted: descriptor 0, writable,
-- of 8 bytes at 0x300. A press of key 30 lands there as type 1, code 30, value 1.
theorem keyboard_press_lands_in_event_chain :
    let m : Machine InputState := ⟨(virtioInputInit .keyboard 0).updateQueue 0
        ({ · with ready := 1, num := 4, availAddr := 0x100, usedAddr := 0x200, availIdx := 1 }),
      writeRam (fun _ => 0) 0 [0, 3, 0, 0, 0, 0, 0, 0, 8, 0, 0, 0, 2, 0, 0, 0], [],
      InputState.init .keyboard⟩
    ∃ tr, (virtioInputQueueEvent 2 virtioInputEvKey 30 1).run m =
      (do virtioConsumeDesc 0 0 8; incLastAvailIdx 0; pure 0).run { m with
        ram := storeBytes (bufAddr [⟨0x300, 8, 2, 0⟩]) 0 [1, 0, 30, 0, 1, 0, 0, 0] m.ram
        trace := tr } := by
  intro m
  have hhead : availHeadAt m.ram (m.dev.queue 0) (m.dev.queue 0).lastAvailIdx = 0 := by decide
  have hchain : IsChain m.ram (m.dev.queue 0).descAddr
      (availHeadAt m.ram (m.dev.queue 0) (m.dev.queue 0).lastAvailIdx) [⟨0x300, 8, 2, 0⟩] := by
    rw [hhead]; exact .single (by decide) rfl
  have hsep : Separated (m.dev.queue 0).descAddr
      (availHeadAt m.ram (m.dev.queue 0) (m.dev.queue 0).lastAvailIdx) [⟨0x300, 8, 2, 0⟩]
      (afterSegment false [⟨0x300, 8, 2, 0⟩]) := by
    rw [hhead]; unfold Separated; decide
  obtain ⟨tr, h⟩ := @virtioInputQueueEvent_chain 2 _ virtioInputEvKey 30 1 m (by decide)
    (by decide) hchain (by decide) (by decide) (by decide) hsep (by decide)
  rw [hhead, show afterSegment false [⟨0x300, 8, 2, 0⟩] = [⟨0x300, 8, 2, 0⟩] from rfl] at h
  exact ⟨tr, h⟩

end Queue

end Virtio
