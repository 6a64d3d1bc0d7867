import TinyEmuVirtio.Objects.Devices.NineP

namespace Virtio

/-! The list `fid_list` as a map -/

section
variable {l : List (BitVec 32 × FsFile)} {fid x : BitVec 32} {fd old : FsFile}

theorem fidFind_cons (k : BitVec 32) (v : FsFile) (l : List (BitVec 32 × FsFile)) :
    fidFind ((k, v) :: l) fid = if k = fid then some v else fidFind l fid := by
  by_cases h : k = fid <;> simp [fidFind, List.find?, h]

theorem fidFind_eq_none : fidFind l fid = none ↔ fid ∉ l.map Prod.fst := by
  induction l with
  | nil => simp [fidFind]
  | cons p l ih => obtain ⟨k, v⟩ := p; by_cases h : k = fid <;> simp_all [fidFind_cons, eq_comm]

-- `fid_set` of a bound fid: the entry found is rebound in place.
theorem fidFind_replace (h : fidFind l fid = some old) :
    (l.replace (fid, old) (fid, fd)).map Prod.fst = l.map Prod.fst ∧
      fidFind (l.replace (fid, old) (fid, fd)) x = if x = fid then some fd else fidFind l x := by
  induction l with
  | nil => simp [fidFind] at h
  | cons p l ih =>
    obtain ⟨k, v⟩ := p
    rw [fidFind_cons] at h
    by_cases hk : k = fid
    · obtain ⟨rfl, rfl⟩ : k = fid ∧ v = old := ⟨hk, by simpa [hk] using h⟩
      by_cases hx : k = x <;> simp [List.replace_cons, fidFind_cons, hx, Ne.symm]
    · rw [List.replace_cons, show ((fid, old) == (k, v)) = false by simp [Ne.symm hk]]
      obtain ⟨ih1, ih2⟩ := ih (by simpa [hk] using h)
      by_cases hx : k = x <;> simp_all [fidFind_cons]

-- `fid_delete` of a bound fid: its one entry leaves the list.
theorem fidFind_eraseP (hl : (l.map Prod.fst).Nodup) :
    ((l.eraseP (·.1 = fid)).map Prod.fst).Nodup ∧
      fidFind (l.eraseP (·.1 = fid)) x = if x = fid then none else fidFind l x := by
  induction l with
  | nil => simp [fidFind]
  | cons p l ih =>
    obtain ⟨k, v⟩ := p
    simp only [List.map_cons, List.nodup_cons] at hl
    by_cases hk : k = fid
    · subst hk
      have : fidFind l k = none := fidFind_eq_none.2 hl.1
      by_cases hx : k = x
      · subst hx; simp [List.eraseP_cons, this, hl.2]
      · simp [List.eraseP_cons, fidFind_cons, hx, Ne.symm hx, hl.2]
    · obtain ⟨ih1, ih2⟩ := ih hl.2
      refine ⟨?_, ?_⟩
      · simp only [List.eraseP_cons, hk, decide_False, cond_false, List.map_cons, List.nodup_cons]
        exact ⟨fun h => hl.1 ((List.eraseP_sublist l).map Prod.fst |>.subset h), ih1⟩
      · by_cases hx : k = x <;> simp_all [List.eraseP_cons, fidFind_cons]

end

/-! The FID table the driver sees -/

-- What `fid_list` stands for: the file bound to each fid, and the files handed to `fs_delete`,
-- the latest first.
structure FidTable where
  map : BitVec 32 → Option FsFile
  deleted : List FsFile

namespace FidTable

-- `fid_set`: `fid` is bound to `fd`, and the file it was bound to goes to `fs_delete`.
def set (t : FidTable) (fid : BitVec 32) (fd : FsFile) : FidTable :=
  ⟨Function.update t.map fid (some fd), (t.map fid).toList ++ t.deleted⟩

-- `fid_delete`: `fid` is unbound, and its file goes to `fs_delete`.
def delete (t : FidTable) (fid : BitVec 32) : FidTable :=
  ⟨Function.update t.map fid none, (t.map fid).toList ++ t.deleted⟩

end FidTable

-- The table a `VIRTIO9PDevice` holds.
def NinePState.fidTable (s : NinePState) : FidTable := ⟨fidFind s.fids, s.deleted⟩

section
variable {fid : BitVec 32} {fd : FsFile}

-- `fid_set` keeps the fids of `fid_list` distinct and does to the table what `FidTable.set` does.
theorem fidSet_run (m : Machine NinePState) (hk : (m.ext.fids.map Prod.fst).Nodup) :
    ∃ e, (fidSet fid fd).run m = .ok ((), { m with ext := e }) ∧ (e.fids.map Prod.fst).Nodup ∧
      e.fidTable = m.ext.fidTable.set fid fd := by
  unfold fidSet
  rw [getExt_bind_run]
  rcases ho : fidFind m.ext.fids fid with _ | old
  · refine ⟨_, rfl, ?_, ?_⟩
    · exact List.nodup_cons.2 ⟨fidFind_eq_none.1 ho, hk⟩
    · simp only [NinePState.fidTable, FidTable.set, ho, Option.toList_none, List.nil_append,
        FidTable.mk.injEq, and_true]
      funext x
      by_cases hx : fid = x
      · subst hx; simp [fidFind_cons]
      · simp [fidFind_cons, hx, Function.update_noteq (Ne.symm hx)]
  · refine ⟨_, rfl, ?_, ?_⟩
    · simpa only [(fidFind_replace (x := fid) ho).1] using hk
    · simp only [NinePState.fidTable, FidTable.set, ho, Option.toList_some, List.singleton_append,
        FidTable.mk.injEq, and_true]
      funext x
      rw [(fidFind_replace ho).2, Function.update_apply]

theorem fidDelete_run (m : Machine NinePState) (hk : (m.ext.fids.map Prod.fst).Nodup) :
    ∃ e, (fidDelete fid).run m = .ok ((), { m with ext := e }) ∧ (e.fids.map Prod.fst).Nodup ∧
      e.fidTable = m.ext.fidTable.delete fid := by
  unfold fidDelete
  rw [getExt_bind_run]
  rcases ho : fidFind m.ext.fids fid with _ | old
  · refine ⟨_, rfl, hk, ?_⟩
    simp only [NinePState.fidTable, FidTable.delete, ho, Option.toList_none, List.nil_append,
      FidTable.mk.injEq, and_true]
    funext x
    by_cases hx : x = fid
    · subst hx; simp [ho]
    · simp [hx]
  · refine ⟨_, rfl, (fidFind_eraseP (x := fid) hk).1, ?_⟩
    simp only [NinePState.fidTable, FidTable.delete, ho, Option.toList_some, List.singleton_append,
      FidTable.mk.injEq, and_true]
    funext x
    rw [(fidFind_eraseP hk).2, Function.update_apply]

end

/-! Every file bound is deleted once, and only once unbound -/

namespace FidTable

-- `B` lists the files ever bound. Each is bound to at most one fid, and the files handed to
-- `fs_delete` are those of `B` bound to none, each once.
structure Accounted (t : FidTable) (B : List FsFile) : Prop where
  deleted_nodup : t.deleted.Nodup
  deleted : ∀ f, f ∈ t.deleted ↔ f ∈ B ∧ ∀ x, t.map x ≠ some f
  bound : ∀ x f, t.map x = some f → f ∈ B
  inj : ∀ x y f, t.map x = some f → t.map y = some f → x = y

variable {t : FidTable} {B : List FsFile} {fid : BitVec 32} {fd : FsFile}

theorem Accounted.set (h : t.Accounted B) (hfd : fd ∉ B) : (t.set fid fd).Accounted (B ++ [fd]) where
  deleted_nodup := by
    rcases ho : t.map fid with _ | old
    · simpa [FidTable.set, ho] using h.deleted_nodup
    · simpa [FidTable.set, ho, h.deleted, h.deleted_nodup] using fun _ => ⟨fid, ho⟩
  deleted f := by
    simp only [FidTable.set, List.mem_append, List.mem_singleton, h.deleted]
    constructor
    · rintro (hf | ⟨hB, hn⟩)
      · have hf' : t.map fid = some f := by simpa using hf
        refine ⟨.inl (h.bound _ _ hf'), fun x => ?_⟩
        rw [Function.update_apply]
        split_ifs with hx
        · intro e; cases e; exact hfd (h.bound _ _ hf')
        · exact fun e => hx (h.inj _ _ _ e hf')
      · refine ⟨.inl hB, fun x => ?_⟩
        rw [Function.update_apply]
        split_ifs
        · intro e; cases e; exact hfd hB
        · exact hn x
    · rintro ⟨hB | rfl, hn⟩
      · by_cases hf : t.map fid = some f
        · exact .inl (by simpa using hf)
        · refine .inr ⟨hB, fun x hx => ?_⟩
          by_cases hxf : x = fid
          · subst hxf; exact hf hx
          · exact hn x (by rwa [Function.update_noteq hxf])
      · exact absurd (by simp) (hn fid)
  bound x f hx := by
    by_cases hx' : x = fid
    · subst hx'; simp_all [FidTable.set]
    · simp only [FidTable.set, Function.update_noteq hx'] at hx
      exact List.mem_append_left _ (h.bound x f hx)
  inj x y f hx hy := by
    simp only [FidTable.set, Function.update_apply] at hx hy
    split_ifs at hx hy with h1 h2 h2
    · exact h1.trans h2.symm
    · cases hx; exact absurd (h.bound y _ hy) hfd
    · cases hy; exact absurd (h.bound x _ hx) hfd
    · exact h.inj x y f hx hy

theorem Accounted.delete (h : t.Accounted B) : (t.delete fid).Accounted B where
  deleted_nodup := by
    rcases ho : t.map fid with _ | old
    · simpa [FidTable.delete, ho] using h.deleted_nodup
    · simpa [FidTable.delete, ho, h.deleted, h.deleted_nodup] using fun _ => ⟨fid, ho⟩
  deleted f := by
    simp only [FidTable.delete, List.mem_append, h.deleted]
    constructor
    · rintro (hf | ⟨hB, hn⟩)
      · have hf' : t.map fid = some f := by simpa using hf
        refine ⟨h.bound _ _ hf', fun x => ?_⟩
        rw [Function.update_apply]
        split_ifs with hx
        · simp
        · exact fun e => hx (h.inj _ _ _ e hf')
      · refine ⟨hB, fun x => ?_⟩
        rw [Function.update_apply]
        split_ifs
        · simp
        · exact hn x
    · rintro ⟨hB, hn⟩
      by_cases hf : t.map fid = some f
      · exact .inl (by simpa using hf)
      · refine .inr ⟨hB, fun x hx => ?_⟩
        by_cases hxf : x = fid
        · subst hxf; exact hf hx
        · exact hn x (by rwa [Function.update_noteq hxf])
  bound x f hx := by
    by_cases hx' : x = fid
    · subst hx'; simp [FidTable.delete] at hx
    · simp only [FidTable.delete, Function.update_noteq hx'] at hx
      exact h.bound x f hx
  inj x y f hx hy := by
    simp only [FidTable.delete, Function.update_apply] at hx hy
    split_ifs at hx hy
    exact h.inj x y f hx hy

end FidTable

/-! Runs of `fid_set` and `fid_delete` -/

-- The calls on the table that `Tattach`, `Twalk` and `Tclunk` make.
inductive FidOp where
  | set (fid : BitVec 32) (fd : FsFile)
  | delete (fid : BitVec 32)

namespace FidOp

def exec : FidOp → NineM Unit
  | set fid fd => fidSet fid fd
  | delete fid => fidDelete fid

def apply (t : FidTable) : FidOp → FidTable
  | set fid fd => t.set fid fd
  | delete fid => t.delete fid

-- The file a call binds.
def bound : FidOp → Option FsFile
  | set _ fd => some fd
  | delete _ => none

end FidOp

theorem fidRun : ∀ (ops : List FidOp) (m : Machine NinePState), (m.ext.fids.map Prod.fst).Nodup →
    ∃ e, (ops.forM FidOp.exec).run m = .ok ((), { m with ext := e }) ∧
      (e.fids.map Prod.fst).Nodup ∧ e.fidTable = ops.foldl FidOp.apply m.ext.fidTable
  | [], m, hk => ⟨m.ext, rfl, hk, rfl⟩
  | op :: ops, m, hk => by
    obtain ⟨e, hr, hk', ht⟩ : ∃ e, (op.exec).run m = .ok ((), { m with ext := e }) ∧
        (e.fids.map Prod.fst).Nodup ∧ e.fidTable = FidOp.apply m.ext.fidTable op := by
      cases op with
      | set fid fd => exact fidSet_run m hk
      | delete fid => exact fidDelete_run m hk
    obtain ⟨e', hr', hk'', ht'⟩ := fidRun ops { m with ext := e } hk'
    refine ⟨e', ?_, hk'', ?_⟩
    · rw [show (op :: ops).forM FidOp.exec = (op.exec >>= fun _ => ops.forM FidOp.exec) from rfl,
        StateT.run_bind, hr]
      exact hr'
    · rw [ht', List.foldl_cons, ← ht]

theorem FidTable.accounted_foldl : ∀ (ops : List FidOp) (t : FidTable) (B : List FsFile),
    t.Accounted B → (B ++ ops.filterMap FidOp.bound).Nodup →
      (ops.foldl FidOp.apply t).Accounted (B ++ ops.filterMap FidOp.bound)
  | [], t, B, h, _ => by simpa using h
  | .delete _ :: ops, t, B, h, hn => accounted_foldl ops _ B h.delete (by simpa [FidOp.bound] using hn)
  | .set _ fd :: ops, t, B, h, hn => by
    have hn' : (B ++ fd :: ops.filterMap FidOp.bound).Nodup := by simpa [FidOp.bound] using hn
    have hfd : fd ∉ B := fun hB => (List.pairwise_append.1 hn').2.2 fd hB fd (List.mem_cons_self _ _) rfl
    simpa [FidOp.bound] using accounted_foldl ops _ _ (h.set hfd) (by simpa using hn')

-- From the empty table, over any run of `fid_set` and `fid_delete` that binds fresh files:
-- `fid_list` holds each fid once, `fid_find` returns the file last bound and not removed since,
-- and the files handed to `fs_delete` are those unbound, each once.
theorem fid_table_binds_and_deletes_once (ops : List FidOp)
    (hfresh : (ops.filterMap FidOp.bound).Nodup) (m : Machine NinePState) (hf : m.ext.fids = [])
    (hd : m.ext.deleted = []) :
    ∃ m', (ops.forM FidOp.exec).run m = .ok ((), m') ∧ (m'.ext.fids.map Prod.fst).Nodup ∧
      (∀ fid, fidFind m'.ext.fids fid = (ops.foldl FidOp.apply ⟨fun _ => none, []⟩).map fid) ∧
      m'.ext.deleted.Nodup ∧
      ∀ f, f ∈ m'.ext.deleted ↔ f ∈ ops.filterMap FidOp.bound ∧ ∀ fid, fidFind m'.ext.fids fid ≠ some f := by
  obtain ⟨e, hr, hk, ht⟩ := fidRun ops m (by simp [hf])
  have h0 : m.ext.fidTable = ⟨fun _ => none, []⟩ := by
    simp [NinePState.fidTable, hf, hd, fidFind]; rfl
  have ha := FidTable.accounted_foldl ops ⟨fun _ => none, []⟩ []
    ⟨List.nodup_nil, by simp, by simp, by simp⟩ (by simpa using hfresh)
  rw [← h0, ← ht] at ha
  rw [← h0, ← ht]
  exact ⟨_, hr, hk, fun _ => rfl, ha.deleted_nodup, fun f => by simpa using ha.deleted f⟩

-- A fid bound, rebound and clunked: the first file goes to `fs_delete` at the rebinding, the
-- second at the clunk.
theorem fid_rebind_then_clunk :
    ∃ m' : Machine NinePState, ([FidOp.set 0 1, .set 0 2, .delete 0].forM FidOp.exec).run
        ⟨virtioInit 9 6, fun _ => 0, [], .init default⟩ = .ok ((), m') ∧
      (m'.ext.fids.map Prod.fst).Nodup ∧ m'.ext.deleted.Nodup :=
  let ⟨m', h, hk, _, hd, _⟩ := fid_table_binds_and_deletes_once [.set 0 1, .set 0 2, .delete 0]
    (by decide) ⟨virtioInit 9 6, fun _ => 0, [], .init default⟩ rfl rfl
  ⟨m', h, hk, hd⟩

end Virtio
