import TinyEmuVirtio.Execution.Devices

namespace Virtio

/-! The requests a device takes and completes

A device takes a request where its receive function accepts the descriptor chain at the head of
an available-ring entry (the trace's `take`), and completes it by `virtio_consume_desc` (the
trace's `consume`). The block and 9P devices serve one request at a time: a request whose backend
operation is asynchronous stays outstanding until the backend's callback completes it. -/

-- A request, by its queue and the head of its descriptor chain.
abbrev QueueHead := Fin maxQueue × BitVec 16

-- The requests a trace takes, newest first.
def takes : List Access → List QueueHead
  | [] => []
  | .take q d :: as => (q, d) :: takes as
  | _ :: as => takes as

-- The requests a trace completes, newest first.
def completions : List Access → List QueueHead
  | [] => []
  | .consume q d _ :: as => (q, d) :: completions as
  | _ :: as => completions as

@[simp] theorem takes_read (q : Fin maxQueue) (r : Region) (a : BitVec 64) (n : Nat) (as : List Access) :
    takes (.read q r a n :: as) = takes as := rfl
@[simp] theorem takes_write (q : Fin maxQueue) (r : Region) (a : BitVec 64) (bs : List (BitVec 8))
    (as : List Access) : takes (.write q r a bs :: as) = takes as := rfl
@[simp] theorem takes_consume (q : Fin maxQueue) (d : BitVec 16) (l : BitVec 32) (as : List Access) :
    takes (.consume q d l :: as) = takes as := rfl
@[simp] theorem takes_take (q : Fin maxQueue) (d : BitVec 16) (as : List Access) :
    takes (.take q d :: as) = (q, d) :: takes as := rfl
@[simp] theorem completions_consume (q : Fin maxQueue) (d : BitVec 16) (l : BitVec 32)
    (as : List Access) : completions (.consume q d l :: as) = (q, d) :: completions as := rfl
@[simp] theorem completions_take (q : Fin maxQueue) (d : BitVec 16) (as : List Access) :
    completions (.take q d :: as) = completions as := rfl

variable {σ α : Type}

-- A property of the requests taken, the requests completed and the backend's state.
def Ledger (L : List QueueHead → List QueueHead → σ → Prop) (m : Machine σ) : Prop :=
  L (takes m.trace) (completions m.trace) m.ext

namespace Ledger

variable {L : List QueueHead → List QueueHead → σ → Prop}

theorem dmaFrame (L : List QueueHead → List QueueHead → σ → Prop) : DmaFrame (Ledger L) :=
  ⟨⟨fun _ _ _ _ _ h => h⟩, fun _ _ h => h, fun _ _ _ _ _ h => h⟩

-- With the backend's state as some `e`: what a step that reads it can carry along.
theorem dmaFrame_ext (L : List QueueHead → List QueueHead → σ → Prop) (e : σ) :
    DmaFrame fun m => Ledger L m ∧ e = m.ext :=
  ⟨⟨fun _ _ _ _ _ h => h⟩, fun _ _ h => h, fun _ _ _ _ _ h => h⟩

-- `virtio_consume_desc (q, d)` completes the request `(q, d)` and changes nothing else the
-- ledger sees.
theorem virtioConsumeDesc (q : Fin maxQueue) (d : BitVec 16) (len : BitVec 32) :
    Triple (Ledger fun ts cs e => L ts ((q, d) :: cs) e) (Virtio.virtioConsumeDesc q d len)
      fun _ => Ledger L := by
  have hP := dmaFrame fun ts cs e => L ts ((q, d) :: cs) e
  unfold Virtio.virtioConsumeDesc
  refine Triple.bind (Keeps.getQueue q) fun qs => Triple.bind (Keeps.virtioRead16 hP.toReadFrame ..) fun _ => ?_
  refine Triple.bind (Keeps.virtioWrite32 hP ..) fun _ => Triple.bind (Keeps.virtioWrite32 hP ..) fun _ => ?_
  refine Triple.bind (Keeps.virtioWrite16 hP ..) fun _ => Triple.bind (Keeps.modifyDev fun _ h => h) fun _ => ?_
  exact (Triple.logAccess (P := Ledger L) (.consume q d len)).mono (fun _ h => h) fun _ _ h => h

end Ledger

/-! The whole runs -/

variable {D : DeviceModel σ} {L : List QueueHead → List QueueHead → σ → Prop}

-- A ledger property that holds of the backend's initial state and that the device's receive
-- function and host calls keep holds along every run: the registers and guest memory do not
-- enter it, and the worker's passes only call the receive function.
theorem Reachable.ledger (hr : ∀ fuel q d r w, Keeps (Ledger L) (D.recv fuel q d r w))
    (hh : ∀ c fuel, Keeps (Ledger L) (D.host c fuel)) (h0 : L [] [] D.ext) {m : Machine σ}
    (h : Reachable D m) : Ledger L m := by
  induction h with
  | init => exact h0
  | step _ hs ih =>
    cases hs with
    | mmioWrite | pciWrite | pciRead | guest => exact ih
    | drain fuel h =>
      exact (Keeps.pendingNotifyDrain (Ledger.dmaFrame L) (fun _ _ _ h => h) hr fuel).run _ _ _ h ih
    | host c fuel h => exact (hh c fuel).run _ _ _ h ih

/-! A device with one request slot -/

-- `serves` are the queues whose requests the device takes; `busy` is its `req_in_progress`;
-- `waiting` the request whose backend operation is outstanding.
structure Slot (σ : Type) where
  serves : Fin maxQueue → Bool
  busy : σ → Bool
  waiting : σ → Option QueueHead

namespace Slot

variable (S : Slot σ)

-- Every request taken is completed once, in the order taken, but for the one whose backend
-- operation is outstanding; `busy` is set exactly while one is.
structure Answered (ts cs : List QueueHead) (e : σ) : Prop where
  busy_eq : S.busy e = (S.waiting e).isSome
  takes_eq : ts = (S.waiting e).toList ++ cs
  served : ∀ h ∈ ts, S.serves h.1 = true

-- Between taking the request `h` and completing it or leaving it to the backend.
structure Serving (h : QueueHead) (ts cs : List QueueHead) (e : σ) : Prop where
  idle : S.busy e = false
  none : S.waiting e = none
  takes_eq : ts = h :: cs
  served : ∀ h ∈ ts, S.serves h.1 = true

variable {S} {ts cs : List QueueHead} {e e' : σ} {h : QueueHead}

theorem Answered.take (ha : S.Answered ts cs e) (hb : S.busy e = false) (hq : S.serves h.1 = true) :
    S.Serving h (h :: ts) cs e := by
  have hw : S.waiting e = none := by
    cases hw : S.waiting e
    · rfl
    · have := ha.busy_eq; rw [hb, hw] at this; cases this
  exact ⟨hb, hw, by rw [ha.takes_eq, hw]; rfl, List.forall_mem_cons.2 ⟨hq, ha.served⟩⟩

theorem Serving.complete (hs : S.Serving h ts cs e) : S.Answered ts (h :: cs) e :=
  ⟨by rw [hs.idle, hs.none]; rfl, by rw [hs.takes_eq, hs.none]; rfl, hs.served⟩

theorem Serving.outstanding (hs : S.Serving h ts cs e) (hb : S.busy e' = true)
    (hw : S.waiting e' = some h) : S.Answered ts cs e' :=
  ⟨by rw [hb, hw]; rfl, by rw [hs.takes_eq, hw]; rfl, hs.served⟩

-- The backend's state changes where the slot does not see it.
theorem Serving.frame (hs : S.Serving h ts cs e) (hb : S.busy e' = S.busy e)
    (hw : S.waiting e' = S.waiting e) : S.Serving h ts cs e' :=
  ⟨hb.trans hs.idle, hw.trans hs.none, hs.takes_eq, hs.served⟩

theorem Answered.frame (ha : S.Answered ts cs e) (hb : S.busy e' = S.busy e)
    (hw : S.waiting e' = S.waiting e) : S.Answered ts cs e' :=
  ⟨by rw [hb, hw, ha.busy_eq], by rw [hw, ha.takes_eq], ha.served⟩

-- Only requests taken are completed, so only requests of the queues served.
theorem Answered.completions_served (ha : S.Answered ts cs e) : ∀ h ∈ cs, S.serves h.1 = true :=
  fun h hh => ha.served h (ha.takes_eq ▸ List.mem_append_right _ hh)

end Slot

-- `virtio_consume_desc` completes the request being served.
theorem Slot.virtioConsumeDesc {S : Slot σ} (q : Fin maxQueue) (d : BitVec 16) (len : BitVec 32) :
    Triple (Ledger (S.Serving (q, d))) (Virtio.virtioConsumeDesc q d len) fun _ => Ledger S.Answered :=
  (Ledger.virtioConsumeDesc q d len).mono (fun _ => Slot.Serving.complete) fun _ _ h => h

end Virtio
