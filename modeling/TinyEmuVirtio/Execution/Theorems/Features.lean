import TinyEmuVirtio.Execution.Devices

namespace Virtio

/-! Runs of MMIO writes -/

-- One call of `virtio_mmio_write` in a run: the device before it, its arguments, and the device
-- after it.
structure MmioWriteEvent where
  before : VirtioDevice
  offset : BitVec 32
  val : BitVec 32
  sizeLog2 : Nat
  after : VirtioDevice

-- The runs of a device that the driver's MMIO writes alone drive, with their calls, newest first.
inductive MmioRun (s₀ : VirtioDevice) : VirtioDevice → List MmioWriteEvent → Prop
  | nil : MmioRun s₀ s₀ []
  | write {s s' : VirtioDevice} {evs : List MmioWriteEvent} (offset val : BitVec 32)
    (sizeLog2 : Nat) : MmioRun s₀ s evs → virtioMmioWrite s offset val sizeLog2 = .ok s' →
    MmioRun s₀ s' (⟨s, offset, val, sizeLog2, s'⟩ :: evs)

theorem MmioRun.mem_write {s₀ s : VirtioDevice} {evs : List MmioWriteEvent}
    (h : MmioRun s₀ s evs) {e : MmioWriteEvent} (he : e ∈ evs) :
    virtioMmioWrite e.before e.offset e.val e.sizeLog2 = .ok e.after := by
  induction h with
  | nil => cases he
  | write _ _ _ _ hw ih =>
    rcases List.mem_cons.1 he with rfl | he
    · exact hw
    · exact ih he

/-! The negotiation as the driver sees it: what it asked for since the last reset -/

namespace MmioWriteEvent

variable (e : MmioWriteEvent)

-- A write of the 4-byte register `STATUS` (0x070) or `DriverFeatures` (0x020).
def isStatus : Bool := e.offset = 0x70 ∧ e.sizeLog2 = 2

def isDriverFeatures : Bool := e.offset = 0x20 ∧ e.sizeLog2 = 2

-- A reset: a write to `STATUS` that leaves it 0.
def isReset : Bool := e.isStatus ∧ e.after.status = 0

-- What a `DriverFeatures` write asks for: `val << (32 * sel)` for the selector `sel` at the
-- write when it is 0 or 1, and nothing for another selector.
def requested : BitVec 64 :=
  if e.before.driverFeaturesSel.toNat < 2 then
    e.val.setWidth 64 <<< (32 * e.before.driverFeaturesSel.toNat)
  else 0

-- A `STATUS` write that asks for `FEATURES_OK` while status lacks it, and one that obtains it.
def requestsFeaturesOk : Bool :=
  e.isStatus ∧ e.before.status &&& virtioStatFeaturesOk = 0 ∧ e.val &&& virtioStatFeaturesOk ≠ 0

def grantsFeaturesOk : Bool :=
  e.requestsFeaturesOk ∧ e.after.status &&& virtioStatFeaturesOk ≠ 0

end MmioWriteEvent

-- The writes of a run since its last reset.
def sinceReset (evs : List MmioWriteEvent) : List MmioWriteEvent :=
  evs.takeWhile (!·.isReset)

-- The OR of what the `DriverFeatures` writes since the last reset asked for.
def writtenFeatures (evs : List MmioWriteEvent) : BitVec 64 :=
  ((sinceReset evs).filter (·.isDriverFeatures)).foldr (fun e acc => e.requested ||| acc) 0

def grantedSinceReset (evs : List MmioWriteEvent) : Bool :=
  (sinceReset evs).any (·.grantsFeaturesOk)

section
variable {e : MmioWriteEvent} {evs : List MmioWriteEvent}

theorem sinceReset_reset (h : e.isReset = true) : sinceReset (e :: evs) = [] := by
  simp [sinceReset, List.takeWhile, h]

theorem sinceReset_cons (h : e.isReset = false) : sinceReset (e :: evs) = e :: sinceReset evs := by
  simp [sinceReset, List.takeWhile, h]

theorem writtenFeatures_reset (h : e.isReset = true) : writtenFeatures (e :: evs) = 0 := by
  simp [writtenFeatures, sinceReset_reset h]

theorem grantedSinceReset_reset (h : e.isReset = true) : grantedSinceReset (e :: evs) = false := by
  simp [grantedSinceReset, sinceReset_reset h]

theorem writtenFeatures_cons (h : e.isReset = false) :
    writtenFeatures (e :: evs) =
      if e.isDriverFeatures then e.requested ||| writtenFeatures evs else writtenFeatures evs := by
  simp only [writtenFeatures, sinceReset_cons h, List.filter_cons]
  split <;> rfl

theorem grantedSinceReset_cons (h : e.isReset = false) :
    grantedSinceReset (e :: evs) = (e.grantsFeaturesOk || grantedSinceReset evs) := by
  simp [grantedSinceReset, sinceReset_cons h]

end

/-! What one write does to the feature registers -/

-- The registers of the negotiation.
structure FeatureRegs where
  status : BitVec 32
  deviceFeatures : BitVec 64
  driverFeatures : BitVec 64
  negotiatedFeatures : BitVec 64

def VirtioDevice.featureRegs (s : VirtioDevice) : FeatureRegs :=
  ⟨s.status, s.deviceFeatures, s.driverFeatures, s.negotiatedFeatures⟩

theorem MmioReg.ofOffset_status {o : BitVec 32} (h : MmioReg.ofOffset o = .status) : o = 0x70 := by
  unfold MmioReg.ofOffset at h
  split at h <;> first | exact BitVec.eq_of_toNat_eq ‹_› | cases h

theorem MmioReg.ofOffset_driverFeatures {o : BitVec 32} (h : MmioReg.ofOffset o = .driverFeatures) :
    o = 0x20 := by
  unfold MmioReg.ofOffset at h
  split at h <;> first | exact BitVec.eq_of_toNat_eq ‹_› | cases h

section
variable {s s' : VirtioDevice} {offset val : BitVec 32} {n : Nat}

theorem updateSelQueue_featureRegs {f : QueueState → QueueState} (h : s.updateSelQueue f = .ok s') :
    s'.featureRegs = s.featureRegs := by
  unfold VirtioDevice.updateSelQueue VirtioDevice.selQueue at h
  split at h <;> cases h
  rfl

theorem configWriteAt_featureRegs (h : configWriteAt s offset val n = .ok s') :
    s'.featureRegs = s.featureRegs := by
  unfold configWriteAt VirtioDevice.configPut at h
  split at h
  · split at h <;> cases h
    unfold VirtioDevice.callConfigWrite
    split <;> rfl
  · cases h
    rfl

theorem virtioConfigWrite_featureRegs (h : virtioConfigWrite s offset val n = .ok s') :
    s'.featureRegs = s.featureRegs := by
  unfold virtioConfigWrite at h
  split at h <;> first | exact configWriteAt_featureRegs h | (cases h; rfl)

-- A write changes the negotiation's registers only through `STATUS` and `DriverFeatures`.
theorem mmioWrite_featureRegs (h : virtioMmioWrite s offset val n = .ok s') :
    s'.featureRegs =
      if offset = 0x70 ∧ n = 2 then (mmioWriteStatus s val).featureRegs
      else if offset = 0x20 ∧ n = 2 then (mmioWriteDriverFeatures s val).featureRegs
      else s.featureRegs := by
  by_cases hs : offset = 0x70 ∧ n = 2
  · obtain ⟨rfl, rfl⟩ := hs
    cases h
    rfl
  by_cases hd : offset = 0x20 ∧ n = 2
  · obtain ⟨rfl, rfl⟩ := hd
    cases h
    rfl
  rw [if_neg hs, if_neg hd]
  unfold virtioMmioWrite at h
  split at h
  · exact virtioConfigWrite_featureRegs h
  split at h
  · split at h
    all_goals first
      | exact absurd ⟨MmioReg.ofOffset_status ‹_›, ‹_›⟩ hs
      | exact absurd ⟨MmioReg.ofOffset_driverFeatures ‹_›, ‹_›⟩ hd
      | exact updateSelQueue_featureRegs h
      | (cases h; rfl)
      | (cases h; unfold writeQueueSel; split <;> rfl)
      | (cases h; unfold writeQueueNotify; split <;> rfl)
      | (cases h; unfold interruptAck; dsimp only; split <;> rfl)
      | (unfold writeQueueNum at h; split at h
         · exact updateSelQueue_featureRegs h
         · cases h; rfl)
  · cases h
    rfl

end

/-! The invariant of the negotiation -/

theorem and_featuresOk (v : BitVec 32) :
    v &&& virtioStatFeaturesOk = if v.getLsbD 3 then virtioStatFeaturesOk else 0 :=
  BitVec.and_twoPow v 3

theorem featuresOk_ne_zero {v : BitVec 32} :
    v &&& virtioStatFeaturesOk ≠ 0 ↔ v.getLsbD 3 = true := by
  rw [and_featuresOk]
  by_cases h : v.getLsbD 3 <;> simp [h, virtioStatFeaturesOk]

theorem mmioWriteStatus_featureRegs (s : VirtioDevice) (val : BitVec 32) :
    (mmioWriteStatus s val).featureRegs =
      if (negotiate s val).2 = 0 then ⟨0, s.deviceFeatures, 0, 0⟩
      else ⟨(negotiate s val).2, s.deviceFeatures, s.driverFeatures, (negotiate s val).1⟩ := by
  unfold mmioWriteStatus
  by_cases h : (negotiate s val).2 = 0 <;> simp only [h, if_true, if_false] <;> rfl

-- A request for `FEATURES_OK` while status lacks it commits it iff the driver asked only for
-- offered features, `VERSION_1` among them; the negotiated features are then what it asked for.
theorem negotiate_request {s : VirtioDevice} {val : BitVec 32}
    (hs : s.status &&& virtioStatFeaturesOk = 0) (hv : val &&& virtioStatFeaturesOk ≠ 0) :
    negotiate s val =
      if s.driverFeatures &&& s.deviceFeatures = s.driverFeatures ∧
          s.driverFeatures &&& virtioFVersion1 ≠ 0 then (s.driverFeatures, val)
      else (s.negotiatedFeatures, val ^^^ virtioStatFeaturesOk) := by
  unfold negotiate
  rw [if_pos ⟨hs, hv⟩]
  by_cases hc : s.driverFeatures &&& s.deviceFeatures = s.driverFeatures ∧
    s.driverFeatures &&& virtioFVersion1 ≠ 0
  · simp only [hc.1, if_pos hc, if_pos (And.intro rfl hc.2)]
  · have hc' : ¬(s.driverFeatures &&& s.deviceFeatures = s.driverFeatures ∧
        s.driverFeatures &&& s.deviceFeatures &&& virtioFVersion1 ≠ 0) :=
      fun h => hc ⟨h.1, h.1 ▸ h.2⟩
    rw [if_neg hc, if_neg hc']

theorem xor_featuresOk_clears {v : BitVec 32} (h : v &&& virtioStatFeaturesOk ≠ 0) :
    (v ^^^ virtioStatFeaturesOk) &&& virtioStatFeaturesOk = 0 := by
  have hv := featuresOk_ne_zero.1 h
  rw [and_featuresOk, BitVec.getLsbD_xor, hv]
  rfl

theorem mmioWriteDriverFeatures_featureRegs (s : VirtioDevice) (val : BitVec 32) :
    (mmioWriteDriverFeatures s val).featureRegs =
      ⟨s.status, s.deviceFeatures,
        s.driverFeatures ||| if s.driverFeaturesSel.toNat < 2 then
          val.setWidth 64 <<< (32 * s.driverFeaturesSel.toNat) else 0,
        s.negotiatedFeatures⟩ := by
  unfold mmioWriteDriverFeatures
  split
  · simp [*, VirtioDevice.featureRegs]
  · simp [*, VirtioDevice.featureRegs]
  · have : ¬s.driverFeaturesSel.toNat < 2 := by
      simp only [imp_false] at *
      omega
    simp [this, VirtioDevice.featureRegs]

theorem negotiate_of_not_request {s : VirtioDevice} {val : BitVec 32}
    (h : ¬(s.status &&& virtioStatFeaturesOk = 0 ∧ val &&& virtioStatFeaturesOk ≠ 0)) :
    negotiate s val = (s.negotiatedFeatures, val) := by
  simp only [negotiate, if_neg h]

-- What a run keeps of the negotiation: the driver's features are what it asked for since the last
-- reset, features negotiated under `FEATURES_OK` are offered ones with `VERSION_1`, and none are
-- negotiated until `FEATURES_OK` is granted.
structure FeatureInv (t : FeatureRegs) (evs : List MmioWriteEvent) : Prop where
  driverFeatures_eq : t.driverFeatures = writtenFeatures evs
  negotiated_ok : t.status &&& virtioStatFeaturesOk ≠ 0 →
    t.negotiatedFeatures &&& t.deviceFeatures = t.negotiatedFeatures ∧
      t.negotiatedFeatures &&& virtioFVersion1 ≠ 0
  negotiated_zero : grantedSinceReset evs = false → t.negotiatedFeatures = 0

namespace FeatureInv

variable {s s' : VirtioDevice} {evs : List MmioWriteEvent} {offset val : BitVec 32} {n : Nat}

-- A write that is neither to `STATUS` nor to `DriverFeatures`.
theorem other (hs : FeatureInv s.featureRegs evs) (hns : ¬(offset = 0x70 ∧ n = 2))
    (hnd : ¬(offset = 0x20 ∧ n = 2)) (hf : s'.featureRegs = s.featureRegs) :
    FeatureInv s'.featureRegs (⟨s, offset, val, n, s'⟩ :: evs) := by
  have hr : (⟨s, offset, val, n, s'⟩ : MmioWriteEvent).isReset = false := by
    simp only [MmioWriteEvent.isReset, MmioWriteEvent.isStatus, hns, decide_False,
      Bool.false_eq_true, false_and]
  rw [hf]
  refine ⟨?_, hs.negotiated_ok, fun h => hs.negotiated_zero ?_⟩
  · simp only [writtenFeatures_cons hr, MmioWriteEvent.isDriverFeatures, hnd, decide_False,
      Bool.false_eq_true, if_false]
    exact hs.driverFeatures_eq
  · simpa only [grantedSinceReset_cons hr, MmioWriteEvent.grantsFeaturesOk,
      MmioWriteEvent.requestsFeaturesOk, MmioWriteEvent.isStatus, hns, decide_False,
      Bool.false_eq_true, false_and, Bool.false_or] using h

theorem driverFeatures (hs : FeatureInv s.featureRegs evs) (hd : offset = 0x20 ∧ n = 2)
    (hf : s'.featureRegs = (mmioWriteDriverFeatures s val).featureRegs) :
    FeatureInv s'.featureRegs (⟨s, offset, val, n, s'⟩ :: evs) := by
  obtain ⟨rfl, rfl⟩ := hd
  have hr : (⟨s, 0x20, val, 2, s'⟩ : MmioWriteEvent).isReset = false := rfl
  rw [hf, mmioWriteDriverFeatures_featureRegs]
  refine ⟨?_, hs.negotiated_ok, fun h => hs.negotiated_zero ?_⟩
  · have hdf : (⟨s, 0x20, val, 2, s'⟩ : MmioWriteEvent).isDriverFeatures = true := rfl
    have hd : s.driverFeatures = writtenFeatures evs := hs.driverFeatures_eq
    rw [writtenFeatures_cons hr, if_pos hdf, ← hd]
    exact BitVec.or_comm _ _
  · rwa [grantedSinceReset_cons hr] at h

theorem grantsFeaturesOk_status (s s' : VirtioDevice) (val : BitVec 32) :
    (⟨s, 0x70, val, 2, s'⟩ : MmioWriteEvent).grantsFeaturesOk = true ↔
      (s.status &&& virtioStatFeaturesOk = 0 ∧ val &&& virtioStatFeaturesOk ≠ 0) ∧
        s'.status &&& virtioStatFeaturesOk ≠ 0 := by
  simp [MmioWriteEvent.grantsFeaturesOk, MmioWriteEvent.requestsFeaturesOk,
    MmioWriteEvent.isStatus, and_assoc]

-- A `STATUS` write: a reset, a granted or refused request for `FEATURES_OK`, or another value.
theorem status (hs : FeatureInv s.featureRegs evs) (hst : offset = 0x70 ∧ n = 2)
    (hf : s'.featureRegs = (mmioWriteStatus s val).featureRegs) :
    FeatureInv s'.featureRegs (⟨s, offset, val, n, s'⟩ :: evs) := by
  obtain ⟨rfl, rfl⟩ := hst
  rw [mmioWriteStatus_featureRegs] at hf
  by_cases hz : (negotiate s val).2 = 0
  · rw [if_pos hz] at hf
    have hst : s'.status = 0 := congrArg FeatureRegs.status hf
    have hr : (⟨s, 0x70, val, 2, s'⟩ : MmioWriteEvent).isReset = true := by
      simp [MmioWriteEvent.isReset, MmioWriteEvent.isStatus, hst]
    rw [hf]
    exact ⟨(writtenFeatures_reset hr).symm, fun h => absurd BitVec.zero_and h, fun _ => rfl⟩
  rw [if_neg hz] at hf
  have hst : s'.status = (negotiate s val).2 := congrArg FeatureRegs.status hf
  have hr : (⟨s, 0x70, val, 2, s'⟩ : MmioWriteEvent).isReset = false := by
    simpa [MmioWriteEvent.isReset, MmioWriteEvent.isStatus, hst] using hz
  have hw : writtenFeatures (⟨s, 0x70, val, 2, s'⟩ :: evs) = writtenFeatures evs := by
    rw [writtenFeatures_cons hr]
    rfl
  have hg : grantedSinceReset (_ :: evs) = _ := grantedSinceReset_cons hr
  have hgr := grantsFeaturesOk_status s s' val
  rw [hst] at hgr
  rw [hf]
  have hd := hs.driverFeatures_eq.trans hw.symm
  by_cases hreq : s.status &&& virtioStatFeaturesOk = 0 ∧ val &&& virtioStatFeaturesOk ≠ 0
  · rw [negotiate_request hreq.1 hreq.2] at hgr ⊢
    by_cases hc : s.driverFeatures &&& s.deviceFeatures = s.driverFeatures ∧
      s.driverFeatures &&& virtioFVersion1 ≠ 0
    · rw [if_pos hc] at hgr ⊢
      refine ⟨hd, fun _ => hc, fun h => ?_⟩
      rw [hg, hgr.2 ⟨hreq, hreq.2⟩] at h
      cases h
    · rw [if_neg hc] at hgr ⊢
      refine ⟨hd, fun h => absurd (xor_featuresOk_clears hreq.2) h,
        fun h => hs.negotiated_zero ?_⟩
      rwa [hg, show (⟨s, 0x70, val, 2, s'⟩ : MmioWriteEvent).grantsFeaturesOk = false from
        Bool.eq_false_iff.2 fun h' => hgr.1 h' |>.2 (xor_featuresOk_clears hreq.2)] at h
  · rw [negotiate_of_not_request hreq] at hgr ⊢
    refine ⟨hd, fun h => hs.negotiated_ok ?_, fun h => hs.negotiated_zero ?_⟩
    · exact fun h0 => hreq ⟨h0, h⟩
    · rwa [hg, show (⟨s, 0x70, val, 2, s'⟩ : MmioWriteEvent).grantsFeaturesOk = false from
        Bool.eq_false_iff.2 fun h' => hreq (hgr.1 h').1] at h

theorem write (hs : FeatureInv s.featureRegs evs) (h : virtioMmioWrite s offset val n = .ok s') :
    FeatureInv s'.featureRegs (⟨s, offset, val, n, s'⟩ :: evs) := by
  have hf := mmioWrite_featureRegs h
  split at hf
  · exact hs.status ‹_› hf
  · split at hf
    · exact hs.driverFeatures ‹_› hf
    · exact hs.other ‹_› ‹_› hf

theorem init {s : VirtioDevice} (h : DeviceInit s) : FeatureInv s.featureRegs [] := by
  have ht := h.transport
  have hst : s.status = 0 := congrArg TransportRegs.status ht
  refine ⟨congrArg TransportRegs.driverFeatures ht, fun h => absurd ?_ h,
    fun _ => congrArg TransportRegs.negotiatedFeatures ht⟩
  show s.status &&& virtioStatFeaturesOk = 0
  rw [hst]
  exact BitVec.zero_and

end FeatureInv

theorem MmioRun.featureInv {s₀ s : VirtioDevice} {evs : List MmioWriteEvent} (h0 : DeviceInit s₀)
    (h : MmioRun s₀ s evs) : FeatureInv s.featureRegs evs := by
  induction h with
  | nil => exact .init h0
  | write _ _ _ _ hw ih => exact ih.write hw

-- One request for `FEATURES_OK` while status lacks it, from any state.
theorem mmioWrite_requestFeaturesOk {s s' : VirtioDevice} {val : BitVec 32}
    (h : virtioMmioWrite s 0x70 val 2 = .ok s') (hs : s.status &&& virtioStatFeaturesOk = 0)
    (hv : val &&& virtioStatFeaturesOk ≠ 0) :
    (s'.status &&& virtioStatFeaturesOk ≠ 0 ↔
      s.driverFeatures &&& s.deviceFeatures = s.driverFeatures ∧
        s.driverFeatures &&& virtioFVersion1 ≠ 0) ∧
    (s'.status &&& virtioStatFeaturesOk ≠ 0 → s'.negotiatedFeatures = s.driverFeatures) := by
  have hf := mmioWrite_featureRegs h
  rw [if_pos ⟨rfl, rfl⟩, mmioWriteStatus_featureRegs, negotiate_request hs hv] at hf
  by_cases hc : s.driverFeatures &&& s.deviceFeatures = s.driverFeatures ∧
      s.driverFeatures &&& virtioFVersion1 ≠ 0
  · have hv0 : val ≠ 0 := fun h0 => hv (by rw [h0]; exact BitVec.zero_and)
    rw [if_pos hc, if_neg hv0] at hf
    have hst : s'.status = val := congrArg FeatureRegs.status hf
    exact ⟨iff_of_true (hst ▸ hv) hc, fun _ => congrArg FeatureRegs.negotiatedFeatures hf⟩
  · rw [if_neg hc] at hf
    have hoff : s'.status &&& virtioStatFeaturesOk = 0 := by
      split at hf
      · rw [show s'.status = 0 from congrArg FeatureRegs.status hf]
        exact BitVec.zero_and
      · rw [show s'.status = _ from congrArg FeatureRegs.status hf]
        exact xor_featuresOk_clears hv
    exact ⟨iff_of_false (not_not.2 hoff) hc, fun h => absurd hoff h⟩

-- The negotiation over every run of MMIO writes from a device's init: the driver's features are
-- the OR of what it asked for since the last reset; a request for `FEATURES_OK` is granted iff it
-- asked only for offered features with `VERSION_1`, which are then negotiated; under
-- `FEATURES_OK` the negotiated features are offered ones with `VERSION_1`; and none are
-- negotiated until `FEATURES_OK` is granted.
theorem mmioRun_featureNegotiation {s₀ s : VirtioDevice} {evs : List MmioWriteEvent}
    (h0 : DeviceInit s₀) (h : MmioRun s₀ s evs) :
    s.driverFeatures = writtenFeatures evs ∧
    (∀ e ∈ evs, e.requestsFeaturesOk = true →
      (e.after.status &&& virtioStatFeaturesOk ≠ 0 ↔
        e.before.driverFeatures &&& e.before.deviceFeatures = e.before.driverFeatures ∧
          e.before.driverFeatures &&& virtioFVersion1 ≠ 0) ∧
      (e.after.status &&& virtioStatFeaturesOk ≠ 0 →
        e.after.negotiatedFeatures = e.before.driverFeatures)) ∧
    (s.status &&& virtioStatFeaturesOk ≠ 0 →
      s.negotiatedFeatures &&& s.deviceFeatures = s.negotiatedFeatures ∧
        s.negotiatedFeatures &&& virtioFVersion1 ≠ 0) ∧
    (grantedSinceReset evs = false → s.negotiatedFeatures = 0) := by
  have hi := h.featureInv h0
  refine ⟨hi.driverFeatures_eq, fun e he hr => ?_, hi.negotiated_ok, hi.negotiated_zero⟩
  obtain ⟨before, offset, val, n, after⟩ := e
  simp only [MmioWriteEvent.requestsFeaturesOk, MmioWriteEvent.isStatus, decide_eq_true_eq]
    at hr
  obtain ⟨⟨rfl, rfl⟩, hs, hv⟩ := hr
  exact mmioWrite_requestFeaturesOk (h.mem_write he) hs hv

-- The driver of a block device asks for `VERSION_1` (bit 32: selector 1, value 1) and then for
-- `FEATURES_OK`.
theorem block_negotiates_version1 :
    ∃ s evs, MmioRun (virtioBlockInit 0) s evs ∧ s.status = 8 ∧
      s.driverFeatures = writtenFeatures evs ∧
      s.negotiatedFeatures &&& s.deviceFeatures = s.negotiatedFeatures ∧
      s.negotiatedFeatures &&& virtioFVersion1 ≠ 0 := by
  have h := (((.nil : MmioRun (virtioBlockInit 0) _ []).write 0x24 1 2 rfl).write 0x20 1 2 rfl).write
    0x70 8 2 rfl
  have hc := mmioRun_featureNegotiation (.block 0) h
  exact ⟨_, _, h, rfl, hc.1, hc.2.2.1 (by decide)⟩

end Virtio
