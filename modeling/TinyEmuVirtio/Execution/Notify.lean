import TinyEmuVirtio.Execution.Devices

namespace Virtio
namespace Notify

/-! The notification thread

`async_queue_notify`, `pending_notify_worker` and `virtio_stop_pending_notify_thread` as a
transition system over their atomic steps, for a worker started over `n` devices. A section under
`pending_notify_lock` is one step, and so is each atomic operation on a `pending_queue_notify`
and each `queue_notify` call. The device model of `Execution.Step` takes one device's pass of the
worker (`pendingNotifyDrain`) as one step; `pendingNotifyDrain_eq` below relates the two. -/

-- Where `pending_notify_worker` is.
inductive WorkerPc (n : Nat) where
  -- At the test of `while (!pending_notify)` under the lock: at the top of the loop, or back from
  -- `pthread_cond_wait`.
  | lock
  -- Blocked in `pthread_cond_wait`.
  | waiting
  -- Before the exchange of `ps[i]->pending_queue_notify`; past the last device, at the top.
  | exchange (i : Nat)
  -- In the loop over the bits `js` of `notify`, which it took from `ps[i]`.
  | bits (i : Fin n) (js : List Nat) (notify : BitVec 32)
  | exited
  deriving DecidableEq, Repr

-- The worker's exchanges and `queue_notify` calls.
inductive Event (n : Nat) where
  | exchange (i : Fin n) (notify : BitVec 32)
  | queueNotify (i : Fin n) (j : Nat)
  deriving DecidableEq, Repr

structure NotifyState (n : Nat) where
  -- `ps[i]->pending_queue_notify`
  pending : Fin n → BitVec 32
  pendingNotify : Bool
  pendingNotifyStop : Bool
  worker : WorkerPc n
  -- The calls `async_queue_notify (ps[i], q)` that did their fetch-or and not yet their update of
  -- `pending_notify`, as `(i, q)`.
  inFlight : List (Fin n × Nat)
  -- The worker's events, newest first.
  trace : List (Event n)

-- The worker starts at the top of its loop, over devices as their init functions made them.
def initial (ps : Fin n → VirtioDevice) : NotifyState n where
  pending i := (ps i).pendingQueueNotify
  pendingNotify := false
  pendingNotifyStop := false
  worker := .lock
  inFlight := []
  trace := []

inductive Action (n : Nat) where
  -- A new call `async_queue_notify (ps[i], q)` does its fetch-or.
  | fetchOr (i : Fin n) (q : Fin maxQueue)
  -- The `k`-th call in flight sets `pending_notify` and signals.
  | signal (k : Nat)
  | stop
  | worker
  deriving DecidableEq, Repr

namespace WorkerPc

variable {n : Nat}

-- `pthread_cond_signal` wakes the worker if it waits.
def signal : WorkerPc n → WorkerPc n
  | .waiting => .lock
  | w => w

-- The worker has yet to exchange the bits of `ps[d]` in its current pass.
def before : WorkerPc n → Fin n → Prop
  | .exchange i, d => i ≤ d.val
  | .bits i _ _, d => i < d
  | _, _ => False

-- The worker took bit `j` from `ps[d]` and has not made its `queue_notify (ps[d], j)` call yet.
def owes : WorkerPc n → Fin n → Nat → Prop
  | .bits i js notify, d, j => i = d ∧ j ∈ js ∧ notify.getLsbD j = true
  | _, _, _ => False

theorem owes_iff {w : WorkerPc n} {d : Fin n} {j : Nat} :
    w.owes d j ↔ ∃ js v, w = .bits d js v ∧ j ∈ js ∧ v.getLsbD j = true := by
  cases w
  case bits =>
    constructor
    · rintro ⟨rfl, h⟩; exact ⟨_, _, rfl, h⟩
    · rintro ⟨_, _, h, h'⟩; cases h; exact ⟨rfl, h'⟩
  all_goals simp [owes]

@[simp] theorem before_signal (w : WorkerPc n) (d : Fin n) : w.signal.before d ↔ w.before d := by
  cases w <;> rfl

@[simp] theorem owes_signal (w : WorkerPc n) (d : Fin n) (j : Nat) : w.signal.owes d j ↔ w.owes d j := by
  cases w <;> rfl

theorem signal_ne_waiting (w : WorkerPc n) : w.signal ≠ .waiting := by
  cases w <;> simp [signal]

end WorkerPc

namespace NotifyState

variable {n : Nat} (st : NotifyState n)

-- The fetch-or of `async_queue_notify`.
def fetchOr (i : Fin n) (q : Fin maxQueue) : NotifyState n :=
  { st with
    pending := Function.update st.pending i (st.pending i ||| 1 <<< q.val)
    inFlight := (i, q.val) :: st.inFlight }

-- The rest of `async_queue_notify`, under the lock, for the `k`-th call in flight.
def signal (k : Nat) : Option (NotifyState n) :=
  if k < st.inFlight.length then
    some { st with inFlight := st.inFlight.eraseIdx k, pendingNotify := true, worker := st.worker.signal }
  else none

def virtioStopPendingNotifyThread : NotifyState n :=
  { st with pendingNotify := true, pendingNotifyStop := true, worker := st.worker.signal }

-- One step of `pending_notify_worker`. A wakeup from `pthread_cond_wait` may come without a
-- signal, as POSIX allows.
def pendingNotifyWorker : Option (NotifyState n) :=
  match st.worker with
  | .lock =>
    if !st.pendingNotify then some { st with worker := .waiting }
    else if st.pendingNotifyStop then some { st with pendingNotifyStop := false, worker := .exited }
    else some { st with pendingNotify := false, worker := .exchange 0 }
  | .waiting => some { st with worker := .lock }
  | .exchange i =>
    if h : i < n then
      some { st with
        pending := Function.update st.pending ⟨i, h⟩ 0
        worker := .bits ⟨i, h⟩ (List.range 32) (st.pending ⟨i, h⟩)
        trace := .exchange ⟨i, h⟩ (st.pending ⟨i, h⟩) :: st.trace }
    else some { st with worker := .lock }
  | .bits i [] _ => some { st with worker := .exchange (i.val + 1) }
  | .bits i (j :: js) notify =>
    if notify = 0 then some { st with worker := .exchange (i.val + 1) }
    else if notify.getLsbD j then
      some { st with
        worker := .bits i js (notify &&& ~~~((1 : BitVec 32) <<< j))
        trace := .queueNotify i j :: st.trace }
    else some { st with worker := .bits i js notify }
  | .exited => none

def exec : Action n → Option (NotifyState n)
  | .fetchOr i q => some (st.fetchOr i q)
  | .signal k => st.signal k
  | .stop => some st.virtioStopPendingNotifyThread
  | .worker => st.pendingNotifyWorker

end NotifyState

variable {n : Nat}

inductive Reachable : NotifyState n → Prop
  | init {ps : Fin n → VirtioDevice} : (∀ i, DeviceInit (ps i)) → Reachable (initial ps)
  | step {st st' : NotifyState n} (a : Action n) : Reachable st → st.exec a = some st' → Reachable st'

-- Every interleaving of steps from `st` to `st'`.
inductive Steps : NotifyState n → NotifyState n → Prop
  | refl {st : NotifyState n} : Steps st st
  | step {st st' st'' : NotifyState n} (a : Action n) : st.exec a = some st' → Steps st' st'' →
      Steps st st''

theorem Reachable.steps {st st' : NotifyState n} (hr : Reachable st) (hs : Steps st st') :
    Reachable st' := by
  induction hs with
  | refl => exact hr
  | step a h _ ih => exact ih (hr.step a h)

-- The loop over the bits `js` of `notify` calls `queue_notify` for these queues, in this order.
def notifyOrder : List Nat → BitVec 32 → List Nat
  | [], _ => []
  | j :: js, notify =>
    if notify = 0 then []
    else if notify.getLsbD j then j :: notifyOrder js (notify &&& ~~~((1 : BitVec 32) <<< j))
    else notifyOrder js notify

/-! What one step does -/

section Step

variable {st st' : NotifyState n} {a : Action n}

-- Bits the loop clears stay clear, other bits keep their value.
theorem getLsbD_clear (v : BitVec 32) (j j' : Nat) :
    (v &&& ~~~((1 : BitVec 32) <<< j)).getLsbD j' = (v.getLsbD j' && j' ≠ j) := by
  by_cases hj' : j' < 32
  · simp only [BitVec.getLsbD_and, BitVec.getLsbD_not, BitVec.getLsbD_shiftLeft, BitVec.getLsbD_one]
    by_cases h : j' = j <;> simp [h, hj']
    omega
  · simp [BitVec.getLsbD_ge _ _ (Nat.le_of_not_lt hj')]

theorem getLsbD_bit (q j : Nat) (h : ((1 : BitVec 32) <<< q).getLsbD j = true) : j = q := by
  rw [show (1 : BitVec 32) <<< q = BitVec.twoPow 32 q from rfl, BitVec.getLsbD_twoPow] at h
  simp only [Bool.and_eq_true, decide_eq_true_eq] at h
  exact h.2.symm

-- The worker's events are the only change of the trace.
theorem exec_trace (h : st.exec a = some st') : ∃ es, st'.trace = es ++ st.trace := by
  cases a with
  | fetchOr | stop => cases h; exact ⟨[], rfl⟩
  | signal k =>
    simp only [NotifyState.exec, NotifyState.signal] at h
    split at h <;> cases h; exact ⟨[], rfl⟩
  | worker =>
    simp only [NotifyState.exec, NotifyState.pendingNotifyWorker] at h
    split at h <;> (try split at h) <;> (try split at h) <;> cases h <;>
      first | exact ⟨[], rfl⟩ | exact ⟨[_], rfl⟩

-- A set bit of `pending_queue_notify` is cleared only by the worker's exchange, which hands it
-- to the loop over the bits.
theorem exec_pending (h : st.exec a = some st') {i : Fin n} {j : Nat}
    (hj : (st.pending i).getLsbD j = true) :
    (st'.pending i).getLsbD j = true ∨
      st.worker = .exchange i.val ∧ st'.worker = .bits i (List.range 32) (st.pending i) ∧
        st'.trace = .exchange i (st.pending i) :: st.trace := by
  cases a with
  | fetchOr d q =>
    cases h
    left
    by_cases hd : i = d
    · subst hd; simp [NotifyState.fetchOr, hj]
    · simpa [NotifyState.fetchOr, hd] using hj
  | stop => cases h; exact .inl hj
  | signal k =>
    simp only [NotifyState.exec, NotifyState.signal] at h
    split at h <;> cases h; exact .inl hj
  | worker =>
    simp only [NotifyState.exec, NotifyState.pendingNotifyWorker] at h
    split at h
    case h_3 k hw =>
      split at h
      case isTrue hk =>
        cases h
        by_cases hd : i = ⟨k, hk⟩
        · subst hd; exact .inr ⟨hw, rfl, rfl⟩
        · left; simpa [hd] using hj
      case isFalse => cases h; exact .inl hj
    all_goals (try split at h) <;> (try split at h) <;> cases h <;> exact .inl hj

-- An owed `queue_notify` call stays owed until the worker makes it.
theorem exec_owes (h : st.exec a = some st') {i : Fin n} {j : Nat} (ho : st.worker.owes i j) :
    st'.worker.owes i j ∨ st'.trace = .queueNotify i j :: st.trace := by
  cases a with
  | fetchOr | stop => cases h; exact .inl (by simpa [NotifyState.fetchOr,
      NotifyState.virtioStopPendingNotifyThread] using ho)
  | signal k =>
    simp only [NotifyState.exec, NotifyState.signal] at h
    split at h <;> cases h; exact .inl (by simpa using ho)
  | worker =>
    simp only [NotifyState.exec, NotifyState.pendingNotifyWorker] at h
    split at h
    case h_4 hw | h_1 hw | h_2 hw | h_3 hw => simp [hw, WorkerPc.owes] at ho
    case h_5 d j' js v hw =>
      obtain ⟨rfl, hj, hv⟩ : d = i ∧ j ∈ j' :: js ∧ v.getLsbD j = true := by simpa [hw, WorkerPc.owes] using ho
      split at h
      case isTrue hv0 => subst hv0; simp at hv
      case isFalse =>
        split at h <;> cases h
        case isTrue =>
          by_cases hjj : j = j'
          · subst hjj; exact .inr rfl
          · exact .inl ⟨rfl, (List.mem_cons.mp hj).resolve_left hjj, by rw [getLsbD_clear, hv]; simpa using hjj⟩
        case isFalse hj' =>
          refine .inl ⟨rfl, (List.mem_cons.mp hj).resolve_left ?_, hv⟩
          rintro rfl; exact hj' hv
    case h_6 hw => simp [hw, WorkerPc.owes] at ho

theorem Steps.trace {st st' : NotifyState n} (hs : Steps st st') : ∃ es, st'.trace = es ++ st.trace := by
  induction hs with
  | refl => exact ⟨[], rfl⟩
  | step a h _ ih =>
    obtain ⟨es, hes⟩ := exec_trace h
    obtain ⟨es', hes'⟩ := ih
    exact ⟨es' ++ es, by rw [hes', hes, List.append_assoc]⟩

end Step

/-! The invariant of the worker's wait -/

-- Every set bit of a `pending_queue_notify` belongs to a call of `async_queue_notify` that has
-- not yet set `pending_notify`, or `pending_notify` is set, or the worker has yet to exchange
-- the device's bits in its current pass.
structure NotifyInv (st : NotifyState n) : Prop where
  waiting : st.worker = .waiting → st.pendingNotify = false
  pending : ∀ d j, (st.pending d).getLsbD j = true →
    (d, j) ∈ st.inFlight ∨ st.pendingNotify = true ∨ st.worker.before d

namespace NotifyInv

variable {st st' : NotifyState n}

theorem initial {ps : Fin n → VirtioDevice} (h : ∀ i, DeviceInit (ps i)) : NotifyInv (initial ps) where
  waiting := nofun
  pending d j hj := by
    have hz : (ps d).pendingQueueNotify = 0 := congrArg TransportRegs.pendingQueueNotify (h d).transport
    simp [Notify.initial, hz] at hj

theorem fetchOr (hi : NotifyInv st) (i : Fin n) (q : Fin maxQueue) : NotifyInv (st.fetchOr i q) where
  waiting := hi.waiting
  pending d j hj := by
    by_cases hd : d = i
    · subst hd
      simp only [NotifyState.fetchOr, Function.update_same, BitVec.getLsbD_or, Bool.or_eq_true] at hj
      rcases hj with hj | hj
      · rcases hi.pending d j hj with h | h | h
        · exact .inl (List.mem_cons_of_mem _ h)
        · exact .inr (.inl h)
        · exact .inr (.inr h)
      · exact .inl (getLsbD_bit _ _ hj ▸ List.mem_cons_self _ _)
    · simp only [NotifyState.fetchOr, Function.update_noteq hd] at hj
      rcases hi.pending d j hj with h | h | h
      · exact .inl (List.mem_cons_of_mem _ h)
      · exact .inr (.inl h)
      · exact .inr (.inr h)

-- After a section under the lock that sets `pending_notify` and signals.
theorem notified (h : st.pendingNotify = true) (hw : st.worker ≠ .waiting) : NotifyInv st where
  waiting hw' := absurd hw' hw
  pending _ _ _ := .inr (.inl h)

-- A worker step that leaves the shared state alone and moves the worker on in its pass.
theorem advance (hi : NotifyInv st) (hp : st'.pending = st.pending)
    (hn : st'.pendingNotify = st.pendingNotify) (hf : st'.inFlight = st.inFlight)
    (hw : st'.worker ≠ .waiting) (hb : ∀ d, st.worker.before d → st'.worker.before d) :
    NotifyInv st' where
  waiting h := absurd h hw
  pending d j hj := by
    rw [hp] at hj
    rw [hn, hf]
    exact (hi.pending d j hj).imp_right (Or.imp_right (hb d))

theorem worker (hi : NotifyInv st) (h : st.pendingNotifyWorker = some st') : NotifyInv st' := by
  simp only [NotifyState.pendingNotifyWorker] at h
  split at h
  case h_1 hw =>
    have hl : ∀ d, ¬st.worker.before d := by simp [hw, WorkerPc.before]
    split at h
    case isTrue hp =>
      -- it waits: no bit can rely on `pending_notify` or on the pass
      cases h
      have hp : st.pendingNotify = false := by simpa using hp
      exact ⟨fun _ => hp, fun d j hj => .inl (by simpa [hp, hl] using hi.pending d j hj)⟩
    case isFalse hp =>
      have hp : st.pendingNotify = true := by simpa using hp
      split at h <;> cases h
      · exact .notified hp nofun
      · -- it clears `pending_notify` and starts a pass over every device
        exact ⟨nofun, fun d j hj => (hi.pending d j hj).imp_right fun _ => .inr (Nat.zero_le _)⟩
  case h_2 hw =>
    cases h
    exact hi.advance rfl rfl rfl nofun (by simp [hw, WorkerPc.before])
  case h_3 i hw =>
    split at h <;> cases h
    case isTrue hn =>
      -- the exchange clears the device's bits and moves the pass past it
      refine ⟨nofun, fun d j hj => ?_⟩
      by_cases hd : d = ⟨i, hn⟩
      · subst hd; simp at hj
      · simp only [Function.update_noteq hd] at hj
        have : i ≠ d.val := fun e => hd (Fin.ext e.symm)
        refine (hi.pending d j hj).imp_right (Or.imp_right fun h => ?_)
        simp only [hw, WorkerPc.before] at h
        exact show i < d.val by omega
    case isFalse hn =>
      exact hi.advance rfl rfl rfl nofun fun d hd => by
        simp only [hw, WorkerPc.before] at hd; omega
  case h_4 hw =>
    cases h
    exact hi.advance rfl rfl rfl nofun fun d hd => by
      simp only [hw, WorkerPc.before] at hd ⊢; omega
  case h_5 hw =>
    split at h <;> (try split at h) <;> cases h <;>
      exact hi.advance rfl rfl rfl nofun fun d hd => by
        simp only [hw, WorkerPc.before] at hd ⊢; omega
  case h_6 => cases h

theorem exec (hi : NotifyInv st) {a : Action n} (h : st.exec a = some st') : NotifyInv st' := by
  cases a with
  | fetchOr i q => cases h; exact hi.fetchOr i q
  | stop => cases h; exact .notified rfl (WorkerPc.signal_ne_waiting _)
  | signal k =>
    simp only [NotifyState.exec, NotifyState.signal] at h
    split at h <;> cases h; exact .notified rfl (WorkerPc.signal_ne_waiting _)
  | worker => exact hi.worker h

end NotifyInv

theorem Reachable.inv {st : NotifyState n} (hr : Reachable st) : NotifyInv st := by
  induction hr with
  | init h => exact .initial h
  | step a _ h ih => exact ih.exec h

-- While the worker waits, only producers in flight have bits set.
theorem NotifyInv.pending_of_waiting {st : NotifyState n} (hi : NotifyInv st)
    (hw : st.worker = .waiting) {d : Fin n} {j : Nat} (hj : (st.pending d).getLsbD j = true) :
    (d, j) ∈ st.inFlight := by
  rcases hi.pending d j hj with h | h | h
  · exact h
  · simp [hi.waiting hw] at h
  · simp [hw, WorkerPc.before] at h

/-! What becomes of a set bit -/

section Tracked

variable {st₀ st st' : NotifyState n} {i : Fin n} {j : Nat}

-- Bit `j` of `ps[i]`, set at `st₀`, at a later `st`: still set, or taken by an exchange after
-- which the worker owes the call `queue_notify (ps[i], j)` or has made it.
def Tracked (st₀ st : NotifyState n) (i : Fin n) (j : Nat) : Prop :=
  (st.pending i).getLsbD j = true ∨
    ∃ v pre post, v.getLsbD j = true ∧ st.trace = post ++ .exchange i v :: pre ++ st₀.trace ∧
      (st.worker.owes i j ∨ ∃ mid post', post = post' ++ .queueNotify i j :: mid)

theorem Tracked.exec (ht : Tracked st₀ st i j) (hp : ∃ pre, st.trace = pre ++ st₀.trace)
    {a : Action n} (h : st.exec a = some st') : Tracked st₀ st' i j := by
  rcases ht with hj | ⟨v, pre, post, hv, htr, hrest⟩
  · rcases exec_pending h hj with hj' | ⟨-, hw, htr'⟩
    · exact .inl hj'
    · obtain ⟨pre, hpre⟩ := hp
      refine .inr ⟨st.pending i, pre, [], hj, by rw [htr', hpre]; rfl, .inl ?_⟩
      rw [hw]
      exact ⟨rfl, List.mem_range.2 (BitVec.lt_of_getLsbD hj), hj⟩
  · obtain ⟨es, hes⟩ := exec_trace h
    refine .inr ⟨v, pre, es ++ post, hv, by simp only [hes, htr, List.append_assoc], ?_⟩
    rcases hrest with ho | ⟨mid, post', rfl⟩
    · rcases exec_owes h ho with ho' | htr'
      · exact .inl ho'
      · have hes' : es = [.queueNotify i j] := List.append_cancel_right (hes.symm.trans htr')
        exact .inr ⟨post, [], by rw [hes']; rfl⟩
    · exact .inr ⟨mid, es ++ post', by rw [List.append_assoc]⟩

theorem Steps.tracked (hs : Steps st st') (ht : Tracked st₀ st i j)
    (hp : ∃ pre, st.trace = pre ++ st₀.trace) : Tracked st₀ st' i j := by
  induction hs with
  | refl => exact ht
  | step a h _ ih =>
    obtain ⟨pre, hpre⟩ := hp
    obtain ⟨es, hes⟩ := exec_trace h
    exact ih (ht.exec ⟨pre, hpre⟩ h) ⟨es ++ pre, by rw [hes, hpre, List.append_assoc]⟩

end Tracked

/-! The loop over the bits -/

theorem mem_notifyOrder {js : List Nat} {v : BitVec 32} {j : Nat} :
    j ∈ notifyOrder js v ↔ j ∈ js ∧ v.getLsbD j = true := by
  induction js generalizing v with
  | nil => simp [notifyOrder]
  | cons j' js ih =>
    by_cases hv : v = 0
    · simp only [notifyOrder, hv, if_true]; simp
    by_cases hj' : v.getLsbD j' = true
    · simp only [notifyOrder, hv, hj', if_false, if_true, List.mem_cons, ih, getLsbD_clear]
      by_cases hjj : j = j' <;> simp [hjj, hj']
    · simp only [notifyOrder, hv, hj', if_false, ih, List.mem_cons]
      by_cases hjj : j = j' <;> simp_all

-- Left alone in its loop over the bits of `ps[i]`, the worker makes the calls `notifyOrder`
-- lists and goes on to the next device.
theorem bits_steps (st : NotifyState n) {i : Fin n} {js : List Nat} {v : BitVec 32}
    (hw : st.worker = .bits i js v) :
    Steps st { st with
      worker := .exchange (i.val + 1)
      trace := ((notifyOrder js v).map (.queueNotify i)).reverse ++ st.trace } := by
  induction js generalizing st v with
  | nil => exact .step .worker (by simp [NotifyState.exec, NotifyState.pendingNotifyWorker, hw,
      notifyOrder]) .refl
  | cons j js ih =>
    by_cases hv : v = 0
    · exact .step .worker (by simp only [NotifyState.exec, NotifyState.pendingNotifyWorker, hw, hv,
        notifyOrder, if_true]; rfl) .refl
    by_cases hj : v.getLsbD j = true
    · refine .step .worker (by simp only [NotifyState.exec, NotifyState.pendingNotifyWorker, hw, hv,
        hj, if_true, if_false]; rfl) ?_
      simpa only [notifyOrder, hv, hj, if_true, if_false, List.map_cons, List.reverse_cons,
        List.append_assoc, List.singleton_append] using ih _ rfl
    · refine .step .worker (by simp only [NotifyState.exec, NotifyState.pendingNotifyWorker, hw, hv,
        hj, Bool.false_eq_true, if_false]; rfl) ?_
      simpa only [notifyOrder, hv, hj, Bool.false_eq_true, if_false] using ih _ rfl

/-! The worker's pass over one device, against the device model's -/

section Drain

variable {σ : Type} (recv : DeviceRecv σ) (fuel : Nat)

-- The device model's loop over the bits makes the calls `notifyOrder` lists.
theorem notifyBits_eq (js : List Nat) (v : BitVec 32) :
    notifyBits recv fuel js v = (notifyOrder js v).forM fun j =>
      if h : j < maxQueue then queueNotify recv fuel ⟨j, h⟩ else fail .undefined := by
  induction js generalizing v with
  | nil => rfl
  | cons j js ih =>
    by_cases hv : v = 0
    · simp only [notifyBits, notifyOrder, hv, if_true]; rfl
    by_cases hj : v.getLsbD j = true
    · simp only [notifyBits, notifyOrder, hv, hj, if_true, if_false, List.forM, ih, pure_bind]
      split <;> rfl
    · simp only [notifyBits, notifyOrder, hv, hj, Bool.false_eq_true, if_false, ih, pure_bind]

-- So `pendingNotifyDrain`, the device model's step for one device's pass of the worker, is the
-- exchange followed by the calls that `bits_steps` makes.
theorem pendingNotifyDrain_eq :
    pendingNotifyDrain recv fuel = exchangePendingQueueNotify >>= fun notify =>
      (notifyOrder (List.range 32) notify).forM fun j =>
        if h : j < maxQueue then queueNotify recv fuel ⟨j, h⟩ else fail .undefined := by
  simp only [pendingNotifyDrain, notifyBits_eq]

end Drain

/-! No notification is lost -/

-- For every interleaving of producers, the worker and stop requests from a reachable state:
-- while the worker waits, every set bit belongs to a producer that has not yet set
-- `pending_notify`; a set bit is cleared only by an exchange of the worker, after which the
-- worker owes its `queue_notify` call or has made it; and an owed call is made by the worker's
-- own steps before it moves to the next device.
theorem pendingNotifyWorker_no_lost_notify {st st' : NotifyState n} (hr : Reachable st)
    (hs : Steps st st') :
    (st'.worker = .waiting → ∀ i j, (st'.pending i).getLsbD j = true → (i, j) ∈ st'.inFlight) ∧
    (∀ i j, (st.pending i).getLsbD j = true →
      (st'.pending i).getLsbD j = true ∨
        ∃ v pre post, v.getLsbD j = true ∧ st'.trace = post ++ .exchange i v :: pre ++ st.trace ∧
          (st'.worker.owes i j ∨ ∃ mid post', post = post' ++ .queueNotify i j :: mid)) ∧
    (∀ i j, st'.worker.owes i j → ∃ es, .queueNotify i j ∈ es ∧
      Steps st' { st' with worker := .exchange (i.val + 1), trace := es ++ st'.trace }) := by
  refine ⟨fun hw _ _ hj => (hr.steps hs).inv.pending_of_waiting hw hj,
    fun _ _ hj => hs.tracked (.inl hj) ⟨[], rfl⟩, fun i j ho => ?_⟩
  obtain ⟨js, v, hw, hj, hv⟩ := WorkerPc.owes_iff.1 ho
  exact ⟨_, by simpa using mem_notifyOrder.2 ⟨hj, hv⟩, bits_steps st' hw⟩

-- One entropy device: a producer has done its fetch-or for queue 0, and the worker then waits.
theorem producer_in_flight_while_worker_waits :
    ∃ st', Steps (initial fun _ : Fin 1 => virtioEntropyInit) st' ∧ st'.worker = .waiting ∧
      (st'.pending 0).getLsbD 0 = true ∧ (0, 0) ∈ st'.inFlight := by
  have hs : Steps (initial fun _ : Fin 1 => virtioEntropyInit) _ :=
    .step (.fetchOr 0 0) rfl (.step .worker rfl .refl)
  exact ⟨_, hs, rfl, rfl,
    (pendingNotifyWorker_no_lost_notify (.init fun _ => .entropy) hs).1 rfl 0 0 rfl⟩

end Notify
end Virtio
