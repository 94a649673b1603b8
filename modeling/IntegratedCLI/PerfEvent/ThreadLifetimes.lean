import IntegratedCLI.Lib.Naming
import IntegratedCLI.Lib.Run
import IntegratedCLI.PerfEvent.PerThreadStats

/-!
# Thread lifetimes and virtual ids

Every CPU has its own buffer of records, and the buffers are drained one after the
other.  A thread may be forked on one CPU, run on others and exit on yet another, and
its thread id may be used again, so the records reach the table in an order in which
they did not happen.

`Tracked` is the table and the generators with the records that are still to be
handled, `pending`, in the order in which they happened.  A turn of a CPU handles the
oldest of its records.  Which lifetime was given which virtual id is written down, and
which lifetime was seen last for a thread id: this is the naming of thread ids of
`Lib.Naming`.

`Tracked.safe_iff` says when a run is safe.  It has to hand every thread id over from
one lifetime to the next, so that the last of the old one's records to be handled is its
exit; and the virtual ids must not run out.  A run that does neither fails an assertion, or
gives one virtual id to two lifetimes.
-/

namespace IntegratedCLI
namespace PerfEvent

open Tagstack (kInvalidTimeStamp)

/-! ## What the table keeps -/

namespace PerThreadStats

/-- The virtual id that a thread is given. -/
def vidOf (s : PerThreadStats) (tid : Pid) : ℕ := (s.activeTids tid).getD s.nextVid

/-- When the thread was forked, as far as the table knows. -/
def forkOf (s : PerThreadStats) (tid : Pid) : ℕ :=
  ((s.info (s.vidOf tid)).map ThreadInfo.forkTimestamp).getD kInvalidTimeStamp

/-- A virtual id is left, if one is needed. -/
def Ready (s : PerThreadStats) (tid : Pid) : Prop :=
  (s.selectNextVid tid).2 = true → s.nextVid + 1 ≠ maxVid

instance (s : PerThreadStats) (tid : Pid) : Decidable (s.Ready tid) :=
  inferInstanceAs (Decidable (_ → _))

/-- Every active thread id is mapped to information on it that has not ended. -/
def ActiveOpen (s : PerThreadStats) : Prop :=
  ∀ tid vid, s.activeTids tid = some vid → ∃ tinfo, s.info vid = some tinfo ∧
    tinfo.vid = vid ∧ tinfo.tid = tid ∧ tinfo.endTimestamp = kInvalidTimeStamp

/-- What the table keeps. -/
structure Table (s : PerThreadStats) : Prop where
  active : s.ActiveOpen
  unused : ∀ vid, s.nextVid ≤ vid → s.info vid = none
  left : s.nextVid < maxVid

/-- A thread was met: it has a virtual id, whose information says when it was forked,
and that is active unless the thread ends. -/
structure Met (s s' : PerThreadStats) (tid : Pid) (fork : ℕ) (ends : Bool) : Prop where
  nextVid : s'.nextVid = if s.activeTids tid = none then s.nextVid + 1 else s.nextVid
  active : s'.activeTids
    = Function.update s.activeTids tid (if ends then none else some (s.vidOf tid))
  info : ∃ tinfo, s'.info = Function.update s.info (s.vidOf tid) (some tinfo) ∧
    tinfo.vid = s.vidOf tid ∧ tinfo.tid = tid ∧ tinfo.forkTimestamp = fork ∧
    (ends = false → tinfo.endTimestamp = kInvalidTimeStamp)

variable {s s' : PerThreadStats} {tid : Pid} {fork : ℕ}

theorem table_init : Table init where
  active := by
    intro tid vid h
    exact absurd h (Option.some_ne_none vid).symm
  unused := by
    intro vid _
    rfl
  left := by decide

theorem vidOf_of_active {vid : ℕ} (h : s.activeTids tid = some vid) : s.vidOf tid = vid := by
  rw [vidOf, h, Option.getD_some]

theorem vidOf_of_none (h : s.activeTids tid = none) : s.vidOf tid = s.nextVid := by
  rw [vidOf, h, Option.getD_none]

theorem selectNextVid_eq (ht : tid ≠ 0) :
    s.selectNextVid tid = (s.vidOf tid, (s.activeTids tid).isNone) := by
  rw [selectNextVid, if_neg ht, vidOf]
  cases s.activeTids tid <;> rfl

theorem selectNextVid_zero : s.selectNextVid 0 = (0, false) := if_pos rfl

theorem forkOf_of_none (h : Table s) (ha : s.activeTids tid = none) :
    s.forkOf tid = kInvalidTimeStamp := by
  rw [forkOf, vidOf_of_none ha, h.unused _ (le_refl _)]
  rfl

theorem forkOf_of_info {tinfo : ThreadInfo} (h : s.info (s.vidOf tid) = some tinfo) :
    s.forkOf tid = tinfo.forkTimestamp := by
  rw [forkOf, h]
  rfl

/-- What was met is in the table as it should be. -/
theorem Table.met (h : Table s) (ht : tid ≠ 0) (hr : s.Ready tid) {ends : Bool}
    (hm : Met s s' tid fork ends) : Table s' := by
  obtain ⟨hnext, hactive, tinfo, hinfo, hvid, htid, -, hend⟩ := hm
  have hother : ∀ tid' vid, s.activeTids tid' = some vid → tid' ≠ tid → vid ≠ s.vidOf tid := by
    intro tid' vid hv hne heq
    obtain ⟨tinfo', hi', -, ht', -⟩ := h.active tid' vid hv
    cases ha : s.activeTids tid with
    | none =>
      rw [heq, vidOf_of_none ha, h.unused _ (le_refl _)] at hi'
      exact Option.some_ne_none _ hi'.symm
    | some v =>
      obtain ⟨tinfo'', hi'', -, ht'', -⟩ := h.active tid v ha
      rw [heq, vidOf_of_active ha, hi''] at hi'
      rw [← ht', ← ht'', Option.some.inj hi'] at hne
      exact hne rfl
  have hlt : s.vidOf tid < s'.nextVid := by
    rw [hnext]
    cases ha : s.activeTids tid with
    | none =>
      rw [if_pos rfl, vidOf_of_none ha]
      exact Nat.lt_succ_self _
    | some v =>
      rw [if_neg (Option.some_ne_none v), vidOf_of_active ha]
      by_contra hge
      obtain ⟨tinfo', hi', -⟩ := h.active tid v ha
      rw [h.unused v (not_lt.mp hge)] at hi'
      exact Option.some_ne_none _ hi'.symm
  have hle : s.nextVid ≤ s'.nextVid := by
    rw [hnext]
    split_ifs <;> omega
  constructor
  · intro tid' vid hv
    rw [hactive] at hv
    by_cases heq : tid' = tid
    · subst heq
      rw [Function.update_self] at hv
      cases ends with
      | true => exact absurd hv (Option.some_ne_none vid).symm
      | false =>
        have hv : s.vidOf tid' = vid := Option.some.inj hv
        refine ⟨tinfo, ?_, hvid.trans hv, htid, hend rfl⟩
        rw [hinfo, hv, Function.update_self]
    · rw [Function.update_of_ne heq] at hv
      obtain ⟨tinfo', hi', hrest⟩ := h.active tid' vid hv
      refine ⟨tinfo', ?_, hrest⟩
      rw [hinfo, Function.update_of_ne (hother tid' vid hv heq), hi']
  · intro vid hv
    rw [hinfo, Function.update_of_ne (by omega), h.unused vid (by omega)]
  · have hready := hr
    rw [Ready, selectNextVid_eq ht] at hready
    have hleft := h.left
    rw [hnext]
    cases ha : s.activeTids tid with
    | none =>
      rw [ha] at hready
      have hne := hready rfl
      rw [if_pos rfl]
      omega
    | some v =>
      rw [if_neg (Option.some_ne_none v)]
      exact hleft

/-! ## The operations of the table -/

section Operations

variable {s₁ : PerThreadStats} {procFs : ProcFs} {ppid ptid pid : Pid} {ts : ℕ}

theorem infoAt_eq {vid : ℕ} {tinfo : ThreadInfo} (h : s.info vid = some tinfo) :
    s.infoAt vid = .ok tinfo := by
  rw [infoAt, h]
  rfl

/-- A thread that is active is met. -/
theorem met_active (h : Table s) {vid : ℕ} (ha : s.activeTids tid = some vid) :
    Met s s tid (s.forkOf tid) false := by
  obtain ⟨tinfo, hinfo, hvid, htid, hend⟩ := h.active tid vid ha
  have hv := vidOf_of_active ha
  constructor
  · rw [if_neg (by rw [ha]; exact Option.some_ne_none vid)]
  · rw [if_neg Bool.false_ne_true, hv, ← ha, Function.update_eq_self]
  · refine ⟨tinfo, ?_, hvid.trans hv.symm, htid, ?_, fun _ => hend⟩
    · rw [hv, ← hinfo, Function.update_eq_self]
    · rw [forkOf_of_info (hv.symm ▸ hinfo)]

/-- A thread that is not active is given the next virtual id. -/
theorem createThreadInfo_met (h : Table s) (ha : s.activeTids tid = none)
    (hr : s.nextVid + 1 ≠ maxVid) :
    ∃ s₁, s.createThreadInfo procFs ppid ptid pid tid = .ok s₁ ∧
      Met s s₁ tid (s.forkOf tid) false := by
  have hleft := h.left
  have hmod : (s.nextVid + 1) % 2 ^ 32 = s.nextVid + 1 := Nat.mod_eq_of_lt (by
    rw [maxVid] at hleft
    omega)
  have hmax : (s.nextVid + 1 == maxVid) = false := beq_eq_false_iff_ne.mpr hr
  rw [createThreadInfo, h.unused _ (Nat.le_refl _), hmod, hmax]
  refine ⟨_, rfl, ?_⟩
  have hv := vidOf_of_none ha
  constructor
  · rw [if_pos ha]
  · rw [if_neg Bool.false_ne_true, hv]
  · exact ⟨_, by rw [hv], hv.symm, rfl, (forkOf_of_none h ha).symm, fun _ => rfl⟩

theorem createThreadInfo_full (h : Table s) (hr : s.nextVid + 1 = maxVid) :
    s.createThreadInfo procFs ppid ptid pid tid = .error .aboutToOverflow := by
  have hmod : (s.nextVid + 1) % 2 ^ 32 = s.nextVid + 1 := Nat.mod_eq_of_lt (by
    rw [hr, maxVid]
    omega)
  rw [createThreadInfo, h.unused _ (Nat.le_refl _), hmod, hr]
  rfl

/-- Other information on the thread that was met. -/
theorem Met.setInfo (hm : Met s s₁ tid fork false) {fork' : ℕ} {tinfo : ThreadInfo}
    (hvid : tinfo.vid = s.vidOf tid) (htid : tinfo.tid = tid)
    (hfork : tinfo.forkTimestamp = fork') (hend : tinfo.endTimestamp = kInvalidTimeStamp) :
    Met s (s₁.setInfo (s.vidOf tid) tinfo) tid fork' false := by
  obtain ⟨hnext, hactive, tinfo', hinfo, -⟩ := hm
  refine ⟨hnext, hactive, tinfo, ?_, hvid, htid, hfork, fun _ => hend⟩
  rw [PerThreadStats.setInfo, hinfo, Function.update_idem]

theorem Met.info_eq {ends : Bool} (hm : Met s s₁ tid fork ends) :
    ∃ tinfo, s₁.info (s.vidOf tid) = some tinfo ∧ tinfo.vid = s.vidOf tid ∧ tinfo.tid = tid ∧
      tinfo.forkTimestamp = fork ∧ (ends = false → tinfo.endTimestamp = kInvalidTimeStamp) := by
  obtain ⟨-, -, tinfo, hinfo, hrest⟩ := hm
  exact ⟨tinfo, by rw [hinfo, Function.update_self], hrest⟩

theorem addName_met (hm : Met s s₁ tid fork false) (ts : ℕ) (name : ThreadNameChange) :
    ∃ s₂, s₁.addName ts (s.vidOf tid) name = .ok s₂ ∧ Met s s₂ tid fork false := by
  obtain ⟨tinfo, hinfo, hvid, htid, hfork, hend⟩ := hm.info_eq
  rw [addName, infoAt_eq hinfo]
  exact ⟨_, rfl, hm.setInfo hvid htid hfork (hend rfl)⟩

theorem addProcFsComm_met (hm : Met s s₁ tid fork false) (procFs : ProcFs) (ts : ℕ)
    (isExec : Bool) :
    ∃ s₂, s₁.addProcFsComm procFs ts (s.vidOf tid) isExec = .ok s₂ ∧ Met s s₂ tid fork false := by
  obtain ⟨tinfo, hinfo, -⟩ := hm.info_eq
  rw [addProcFsComm, infoAt_eq hinfo, Fallible.bind_ok]
  cases procFs.comm tinfo.tid with
  | some comm => exact addName_met hm ts ⟨comm, isExec⟩
  | none => exact ⟨s₁, rfl, hm⟩

theorem registerFork_met (h : Table s) (ha : s.activeTids tid = none)
    (hr : s.nextVid + 1 ≠ maxVid) :
    ∃ s₁, s.registerFork procFs ts ppid ptid pid tid = .ok s₁ ∧ Met s s₁ tid ts false := by
  obtain ⟨s₁, hcreate, hm⟩ := createThreadInfo_met h ha hr
  obtain ⟨tinfo, hinfo, hvid, htid, -, hend⟩ := hm.info_eq
  have hm' : Met s (s₁.setInfo (s.vidOf tid) { tinfo with forkTimestamp := ts }) tid ts false :=
    hm.setInfo hvid htid rfl (hend rfl)
  obtain ⟨s₂, hcomm, hm₂⟩ := addProcFsComm_met hm' procFs ts false
  refine ⟨s₂, ?_, hm₂⟩
  rw [vidOf_of_none ha] at hinfo hcomm
  rw [registerFork, hcreate]
  show (do
    let tinfo ← s₁.infoAt s.nextVid
    (s₁.setInfo s.nextVid { tinfo with forkTimestamp := ts }).addProcFsComm procFs ts s.nextVid
      false) = _
  rw [infoAt_eq hinfo]
  exact hcomm

theorem registerExit_met (hm : Met s s₁ tid fork false)
    (hf : fork = kInvalidTimeStamp ∨ fork < ts) :
    ∃ s₂, s₁.registerExit ts (s.vidOf tid) tid = .ok s₂ ∧ Met s s₂ tid fork true := by
  obtain ⟨tinfo, hinfo, hvid, htid, hfork, hend⟩ := hm.info_eq
  have hopen : (tinfo.endTimestamp != kInvalidTimeStamp) = false := by
    rw [hend rfl]
    exact bne_self_eq_false' _
  have hlate : (tinfo.forkTimestamp != kInvalidTimeStamp && decide (ts ≤ tinfo.forkTimestamp))
      = false := by
    rw [hfork]
    rcases hf with hf | hf
    · simp [hf]
    · simp [not_le.mpr hf]
  rw [registerExit, infoAt_eq hinfo]
  show ∃ s₂, (do
    throwAssertIf (tinfo.endTimestamp != kInvalidTimeStamp) .alreadyEnded
    throwAssertIf (tinfo.forkTimestamp != kInvalidTimeStamp && ts ≤ tinfo.forkTimestamp)
      .endsBeforeFork
    let s := s₁.setInfo (s.vidOf tid) { tinfo with endTimestamp := ts }
    return { s with activeTids := Function.update s.activeTids tid none }) = .ok s₂ ∧ _
  rw [hopen, hlate]
  refine ⟨_, rfl, ?_⟩
  obtain ⟨hnext, hactive, tinfo', hinfo', -⟩ := hm
  refine ⟨hnext, ?_, { tinfo with endTimestamp := ts }, ?_, hvid, htid, hfork, ?_⟩
  · show Function.update s₁.activeTids tid none = _
    rw [hactive, Function.update_idem, if_pos rfl]
  · show Function.update s₁.info _ _ = _
    rw [hinfo', Function.update_idem]
  · intro he
    exact absurd he.symm Bool.false_ne_true

end Operations

end PerThreadStats

/-! ## The handlers -/

namespace Record

def tid : Record → Pid
  | .lost _ => 0
  | .comm r => r.tid
  | .exit r => r.tid
  | .fork r => r.tid
  | .switch r => r.tid

def tstamp : Record → ℕ
  | .lost tstamp => tstamp
  | .comm r => r.tstamp
  | .exit r => r.time
  | .fork r => r.time
  | .switch r => r.tstamp

def isLost : Record → Bool
  | .lost _ => true
  | _ => false

def isExit : Record → Bool
  | .exit _ => true
  | _ => false

def isFork : Record → Bool
  | .fork _ => true
  | _ => false

def isSwitch : Record → Bool
  | .switch _ => true
  | _ => false

def isComm : Record → Bool
  | .comm _ => true
  | _ => false

/-- The handler looks for the virtual id of a thread. -/
def meets : Record → Bool
  | .lost _ => false
  | .switch r => !r.isSwitchOut && r.tid ≠ 0
  | r => r.tid ≠ 0

/-- The handler does not have to be called again for the record.  A name is not
written to the output. -/
def handledWith (env : Env) : Record → Bool
  | .comm _ => true
  | _ => 0 ≤ env.ret

/-- The record is not from before the fork, as far as the table knows of the fork. -/
def InTime (fork : ℕ) : Record → Prop
  | .lost _ => True
  | .comm r => fork = kInvalidTimeStamp ∨ fork < r.tstamp
  | .exit r => fork = kInvalidTimeStamp ∨ fork < r.time
  | .fork _ => fork = kInvalidTimeStamp
  | .switch _ => True

theorem inTime_of {fork : ℕ} {r : Record}
    (h : fork = kInvalidTimeStamp ∨ r.isFork = false ∧ fork < r.tstamp) : r.InTime fork := by
  cases r with
  | lost _ => trivial
  | comm r => exact h.imp_right And.right
  | exit r => exact h.imp_right And.right
  | fork r => exact h.resolve_right fun h => Bool.false_ne_true h.1.symm
  | switch r => trivial

/-- When the thread was forked, as far as the table knows when the record was handled. -/
def forkAfter (fork : ℕ) : Record → ℕ
  | .fork r => r.time
  | _ => fork

theorem forkAfter_fork {fork : ℕ} {r : Record} (h : r.isFork = true) :
    r.forkAfter fork = r.tstamp := by
  cases r with
  | fork r => rfl
  | _ => exact absurd h Bool.false_ne_true

theorem forkAfter_of_not_fork {fork : ℕ} {r : Record} (h : r.isFork = false) :
    r.forkAfter fork = fork := by
  cases r with
  | fork r => exact absurd h.symm Bool.false_ne_true
  | _ => rfl

end Record

section Handlers

open Fallible PerThreadStats CpuThreadSwitchGenerator

variable {s : PerThreadStats} {g : CpuThreadSwitchGenerator} {env : Env}

theorem pendingRecordLost_eq (hg : g.inWriteErrors = false) (tstamp : ℕ) :
    g.pendingRecordLost env tstamp = (0, g) := by
  rw [pendingRecordLost, if_neg (by rw [hg]; exact Bool.false_ne_true)]

theorem inWriteErrors_write (ret : ℤ) (ev : Tagstack.Event) :
    (g.write ret ev).inWriteErrors = g.inWriteErrors := by
  rw [write]
  split_ifs <;> rfl

/-- What a handler does that meets a thread. -/
def Meets (s : PerThreadStats) (tid : Pid) (fork : ℕ) (ends : Bool)
    (r : Except Failure Handled) : Prop :=
  ∃ h : Handled, r = .ok h ∧ 0 ≤ h.ret ∧ h.gen.inWriteErrors = false ∧
    Met s h.stats tid fork ends

theorem late_eq_false {fork ts : ℕ} (hf : fork = kInvalidTimeStamp ∨ fork < ts) :
    (fork != kInvalidTimeStamp && decide (ts ≤ fork)) = false := by
  rcases hf with hf | hf
  · simp [hf]
  · simp [not_le.mpr hf]

theorem open_eq_false {ts : ℕ} (h : ts = kInvalidTimeStamp) :
    (ts != kInvalidTimeStamp) = false := by
  rw [h]
  exact bne_self_eq_false' _

theorem ready_of_none {tid : Pid} (ht : tid ≠ 0) (hr : s.Ready tid)
    (ha : s.activeTids tid = none) : s.nextVid + 1 ≠ maxVid := by
  rw [Ready, selectNextVid_eq ht, ha] at hr
  exact hr rfl

theorem handleRecordComm_meets (h : Table s) (hg : g.inWriteErrors = false) {r : Comm}
    (ht : r.tid ≠ 0) (hr : s.Ready r.tid)
    (hf : s.forkOf r.tid = kInvalidTimeStamp ∨ s.forkOf r.tid < r.tstamp) :
    Meets s r.tid (s.forkOf r.tid) false (handleRecordComm s g env r) := by
  have hnamed : ∀ s₁, Met s s₁ r.tid (s.forkOf r.tid) false →
      Meets s r.tid (s.forkOf r.tid) false (do
        let s₂ ← s₁.addName r.tstamp (s.vidOf r.tid)
          ⟨r.comm, r.misc ||| PERF_RECORD_MISC_COMM_EXEC ≠ 0⟩
        let tinfo ← s₂.infoAt (s.vidOf r.tid)
        throwAssertIf (tinfo.forkTimestamp != kInvalidTimeStamp && r.tstamp ≤ tinfo.forkTimestamp)
          .namedBeforeFork
        throwAssertIf (tinfo.endTimestamp != kInvalidTimeStamp) .namedAfterEnd
        return ⟨0, s₂, { g with lastTstamp := r.tstamp }⟩) := by
    intro s₁ hm
    obtain ⟨s₂, hname, hm₂⟩ := addName_met hm r.tstamp
      ⟨r.comm, r.misc ||| PERF_RECORD_MISC_COMM_EXEC ≠ 0⟩
    obtain ⟨tinfo, hinfo, -, -, hfork, hend⟩ := hm₂.info_eq
    refine ⟨⟨0, s₂, { g with lastTstamp := r.tstamp }⟩, ?_, le_refl _, hg, hm₂⟩
    refine bind_eq_ok.mpr ⟨s₂, hname, bind_eq_ok.mpr ⟨tinfo, infoAt_eq hinfo, ?_⟩⟩
    rw [late_eq_false (hfork ▸ hf), open_eq_false (hend rfl)]
    rfl
  rw [handleRecordComm, pendingRecordLost_eq hg, selectNextVid_eq ht]
  show Meets s _ _ _ (ite ((0 : ℤ) < 0) _ _)
  rw [if_neg (lt_irrefl 0)]
  cases ha : s.activeTids r.tid with
  | none =>
    obtain ⟨s₁, hcreate, hm⟩ := createThreadInfo_met h ha (ready_of_none ht hr ha)
    rw [hcreate]
    exact hnamed s₁ hm
  | some vid => exact hnamed s (met_active h ha)

theorem handleRecordExit_meets (h : Table s) (hg : g.inWriteErrors = false) {r : Exit}
    (ht : r.tid ≠ 0) (hr : s.Ready r.tid) (hret : 0 ≤ env.ret)
    (hf : s.forkOf r.tid = kInvalidTimeStamp ∨ s.forkOf r.tid < r.time) :
    Meets s r.tid (s.forkOf r.tid) true (handleRecordExit s g env r) := by
  rw [handleRecordExit, pendingRecordLost_eq hg, selectNextVid_eq ht]
  show Meets s _ _ _ (ite ((0 : ℤ) < 0) _ (ite (0 ≤ env.ret) _ _))
  rw [if_neg (lt_irrefl 0), if_pos hret]
  cases ha : s.activeTids r.tid with
  | none =>
    obtain ⟨s₁, hcreate, hm₁⟩ := createThreadInfo_met h ha (ready_of_none ht hr ha)
    obtain ⟨s₂, hcomm, hm₂⟩ := addProcFsComm_met hm₁ env.procFs r.time false
    obtain ⟨s₃, hexit, hm₃⟩ := registerExit_met hm₂ hf
    exact ⟨_, bind_eq_ok.mpr ⟨s₁, hcreate, bind_eq_ok.mpr ⟨s₂, hcomm,
        bind_eq_ok.mpr ⟨s₃, hexit, rfl⟩⟩⟩,
      hret, (inWriteErrors_write _ _).trans hg, hm₃⟩
  | some vid =>
    obtain ⟨s₂, hexit, hm₂⟩ := registerExit_met (met_active h ha) hf
    exact ⟨_, bind_eq_ok.mpr ⟨s, rfl, bind_eq_ok.mpr ⟨s₂, hexit, rfl⟩⟩, hret,
      (inWriteErrors_write _ _).trans hg, hm₂⟩

theorem handleRecordFork_meets (h : Table s) (hg : g.inWriteErrors = false) {r : Exit}
    (ht : r.tid ≠ 0) (hr : s.Ready r.tid) (hret : 0 ≤ env.ret)
    (hf : s.forkOf r.tid = kInvalidTimeStamp) :
    Meets s r.tid r.time false (handleRecordFork s g env r) := by
  rw [handleRecordFork, pendingRecordLost_eq hg, selectNextVid_eq ht]
  show Meets s _ _ _ (ite ((0 : ℤ) < 0) _ (ite (0 ≤ env.ret) _ _))
  rw [if_neg (lt_irrefl 0), if_pos hret]
  cases ha : s.activeTids r.tid with
  | none =>
    obtain ⟨s₁, hfork, hm⟩ := registerFork_met h ha (ready_of_none ht hr ha)
    exact ⟨_, bind_eq_ok.mpr ⟨s₁, hfork, rfl⟩, hret,
      (inWriteErrors_write _ _).trans hg, hm⟩
  | some vid =>
    have hm := met_active h ha
    obtain ⟨tinfo, hinfo, hvid, htid, hfork, hend⟩ := hm.info_eq
    have hnot : throwAssertIf (tinfo.forkTimestamp != kInvalidTimeStamp) .alreadyForked = .ok ⟨⟩ := by
      rw [open_eq_false (hfork.trans hf)]
      rfl
    exact ⟨_, bind_eq_ok.mpr ⟨tinfo, infoAt_eq hinfo, bind_eq_ok.mpr ⟨⟨⟩, hnot, rfl⟩⟩, hret,
      (inWriteErrors_write _ _).trans hg, hm.setInfo hvid htid rfl (hend rfl)⟩

theorem handleRecordSwitchCpuWide_meets (h : Table s) (hg : g.inWriteErrors = false)
    {r : SwitchCpuWide} (ht : r.tid ≠ 0) (hr : s.Ready r.tid) (hret : 0 ≤ env.ret)
    (hin : r.isSwitchOut = false) :
    Meets s r.tid (s.forkOf r.tid) false (handleRecordSwitchCpuWide s g env r) := by
  rw [handleRecordSwitchCpuWide, pendingRecordLost_eq hg, selectNextVid_eq ht, hin]
  show Meets s _ _ _ (ite ((0 : ℤ) < 0) _ (ite (false = true) _ _))
  rw [if_neg (lt_irrefl 0), if_neg Bool.false_ne_true]
  have hgen : (if 0 ≤ env.ret then
      { g.write env.ret ⟨r.tstamp, .switchIn, g.tidLevel, g.compUnitId, s.vidOf r.tid⟩ with
        lastTstamp := r.tstamp }
      else g.write env.ret ⟨r.tstamp, .switchIn, g.tidLevel, g.compUnitId, s.vidOf r.tid⟩
      : CpuThreadSwitchGenerator).inWriteErrors = false := by
    rw [if_pos hret]
    exact (inWriteErrors_write _ _).trans hg
  cases ha : s.activeTids r.tid with
  | none =>
    obtain ⟨s₁, hcreate, hm₁⟩ := createThreadInfo_met h ha (ready_of_none ht hr ha)
    obtain ⟨s₂, hcomm, hm₂⟩ := addProcFsComm_met hm₁ env.procFs r.tstamp false
    rw [decide_eq_true hret]
    exact ⟨_, bind_eq_ok.mpr ⟨s₁, hcreate, bind_eq_ok.mpr ⟨s₂, hcomm, rfl⟩⟩, hret, hgen, hm₂⟩
  | some vid => exact ⟨_, rfl, hret, hgen, met_active h ha⟩

/-- **What the handlers do that meet a thread.** -/
theorem handleRecord_meets (h : Table s) (hg : g.inWriteErrors = false) {r : Record}
    (hmeets : r.meets = true) (hw : r.handledWith env = true) (hr : s.Ready r.tid)
    (hf : r.InTime (s.forkOf r.tid)) :
    Meets s r.tid (r.forkAfter (s.forkOf r.tid)) r.isExit (handleRecord s g env r) := by
  cases r with
  | lost tstamp => exact absurd hmeets Bool.false_ne_true
  | comm r => exact handleRecordComm_meets h hg (of_decide_eq_true hmeets) hr hf
  | exit r =>
    exact handleRecordExit_meets h hg (of_decide_eq_true hmeets) hr (of_decide_eq_true hw) hf
  | fork r =>
    exact handleRecordFork_meets h hg (of_decide_eq_true hmeets) hr (of_decide_eq_true hw) hf
  | switch r =>
    obtain ⟨hin, ht⟩ := Bool.and_eq_true_iff.mp hmeets
    exact handleRecordSwitchCpuWide_meets h hg (of_decide_eq_true ht) hr (of_decide_eq_true hw)
      (Bool.not_eq_eq_eq_not.mp hin)

/-- A thread that would take the last virtual id ends the program. -/
theorem handleRecord_full (h : Table s) (hg : g.inWriteErrors = false) {r : Record}
    (hmeets : r.meets = true) (hw : r.handledWith env = true) (hr : ¬ s.Ready r.tid) :
    handleRecord s g env r = .error .aboutToOverflow := by
  have hselect : ∀ {tid : Pid}, tid ≠ 0 → ¬ s.Ready tid →
      s.activeTids tid = none ∧ s.nextVid + 1 = maxVid := by
    intro tid ht hr
    rw [Ready, selectNextVid_eq ht, Classical.not_imp, not_not] at hr
    exact ⟨Option.isNone_iff_eq_none.mp hr.1, hr.2⟩
  cases r with
  | lost tstamp => exact absurd hmeets Bool.false_ne_true
  | comm r =>
    have ht : r.tid ≠ 0 := of_decide_eq_true hmeets
    obtain ⟨ha, hn⟩ := hselect ht hr
    show handleRecordComm s g env r = _
    rw [handleRecordComm, pendingRecordLost_eq hg, selectNextVid_eq ht, ha,
      createThreadInfo_full h hn]
    rfl
  | exit r =>
    have ht : r.tid ≠ 0 := of_decide_eq_true hmeets
    obtain ⟨ha, hn⟩ := hselect ht hr
    show handleRecordExit s g env r = _
    rw [handleRecordExit, pendingRecordLost_eq hg, selectNextVid_eq ht, ha,
      createThreadInfo_full h hn]
    show ite ((0 : ℤ) < 0) _ (ite (0 ≤ env.ret) _ _) = _
    rw [if_neg (lt_irrefl 0), if_pos (of_decide_eq_true hw)]
    rfl
  | fork r =>
    have ht : r.tid ≠ 0 := of_decide_eq_true hmeets
    obtain ⟨ha, hn⟩ := hselect ht hr
    show handleRecordFork s g env r = _
    rw [handleRecordFork, pendingRecordLost_eq hg, selectNextVid_eq ht, ha, registerFork,
      createThreadInfo_full h hn]
    show ite ((0 : ℤ) < 0) _ (ite (0 ≤ env.ret) _ _) = _
    rw [if_neg (lt_irrefl 0), if_pos (of_decide_eq_true hw)]
    rfl
  | switch r =>
    obtain ⟨hin, ht⟩ := Bool.and_eq_true_iff.mp hmeets
    have ht : r.tid ≠ 0 := of_decide_eq_true ht
    obtain ⟨ha, hn⟩ := hselect ht hr
    show handleRecordSwitchCpuWide s g env r = _
    have hret : decide (0 ≤ env.ret) = true := hw
    rw [handleRecordSwitchCpuWide, pendingRecordLost_eq hg, selectNextVid_eq ht,
      Bool.not_eq_eq_eq_not.mp hin, ha, createThreadInfo_full h hn, hret]
    rfl

/-- A handler that meets no thread, or whose output has no room, leaves the table as it
is, and returns whether there was room. -/
theorem handleRecord_keeps (hg : g.inWriteErrors = false) {r : Record} (hlost : r.isLost = false)
    (hidle : r.tid = 0 → r.isSwitch = true)
    (hnot : r.meets = false ∨ r.handledWith env = false) :
    ∃ h : Handled, handleRecord s g env r = .ok h ∧ h.stats = s ∧ h.gen.inWriteErrors = false ∧
      (0 ≤ h.ret ↔ r.handledWith env = true) := by
  have hnone : ∀ {tid : Pid}, (tid = 0 → false = true) → decide (tid ≠ 0) = true := by
    intro tid h
    exact decide_eq_true fun h0 => Bool.false_ne_true (h h0)
  cases r with
  | lost tstamp => exact absurd hlost (Ne.symm Bool.false_ne_true)
  | comm r =>
    have hmeets : (Record.comm r).meets = true := hnone hidle
    rcases hnot with h | h
    · exact absurd (h.symm.trans hmeets) Bool.false_ne_true
    · exact absurd h.symm Bool.false_ne_true
  | exit r =>
    have hret : ¬ 0 ≤ env.ret := by
      rcases hnot with h | h
      · exact absurd (h.symm.trans (hnone hidle)) Bool.false_ne_true
      · exact of_decide_eq_false h
    show ∃ h : Handled, handleRecordExit s g env r = _ ∧ _
    rw [handleRecordExit, pendingRecordLost_eq hg]
    show ∃ h : Handled, ite ((0 : ℤ) < 0) _ (ite (0 ≤ env.ret) _ _) = _ ∧ _
    rw [if_neg (lt_irrefl 0), if_neg hret]
    exact ⟨_, rfl, rfl, (inWriteErrors_write _ _).trans hg, decide_eq_true_iff.symm⟩
  | fork r =>
    have hret : ¬ 0 ≤ env.ret := by
      rcases hnot with h | h
      · exact absurd (h.symm.trans (hnone hidle)) Bool.false_ne_true
      · exact of_decide_eq_false h
    show ∃ h : Handled, handleRecordFork s g env r = _ ∧ _
    rw [handleRecordFork, pendingRecordLost_eq hg]
    show ∃ h : Handled, ite ((0 : ℤ) < 0) _ (ite (0 ≤ env.ret) _ _) = _ ∧ _
    rw [if_neg (lt_irrefl 0), if_neg hret]
    exact ⟨_, rfl, rfl, (inWriteErrors_write _ _).trans hg, decide_eq_true_iff.symm⟩
  | switch r =>
    have hgen : ∀ g' : CpuThreadSwitchGenerator, g'.inWriteErrors = false →
        (if 0 ≤ env.ret then { g' with lastTstamp := r.tstamp } else g').inWriteErrors = false := by
      intro g' hg'
      split_ifs <;> exact hg'
    show ∃ h : Handled, handleRecordSwitchCpuWide s g env r = _ ∧ _
    rw [handleRecordSwitchCpuWide, pendingRecordLost_eq hg]
    show ∃ h : Handled, ite ((0 : ℤ) < 0) _ (ite (r.isSwitchOut = true) _ _) = _ ∧ _
    rw [if_neg (lt_irrefl 0)]
    cases hout : r.isSwitchOut with
    | true =>
      exact ⟨_, rfl, rfl, hgen _ ((inWriteErrors_write _ _).trans hg), decide_eq_true_iff.symm⟩
    | false =>
      have hsame : ((s.selectNextVid r.tid).2 && decide (0 ≤ env.ret)) = false := by
        rcases hnot with h | h
        · have ht : r.tid = 0 := by
            have h : (!r.isSwitchOut && decide (r.tid ≠ 0)) = false := h
            rw [hout, Bool.not_false, Bool.true_and, decide_eq_false_iff_not, not_not] at h
            exact h
          rw [ht, selectNextVid_zero]
          rfl
        · have h : decide (0 ≤ env.ret) = false := h
          rw [h, Bool.and_false]
      show ∃ h : Handled, ite (((s.selectNextVid r.tid).2 && decide (0 ≤ env.ret)) = true) _ _ = _ ∧ _
      rw [hsame]
      exact ⟨_, rfl, rfl, hgen _ ((inWriteErrors_write _ _).trans hg), decide_eq_true_iff.symm⟩

/-- What is returned is not an error. -/
def Returns (r : Except Failure Handled) : Prop := ∀ h, r = .ok h → 0 ≤ h.ret

theorem returns_pure {h : Handled} (hret : 0 ≤ h.ret) : Returns (.ok h) := by
  intro h' he
  rw [← Except.ok.inj he]
  exact hret

theorem returns_bind {α : Type} {x : Except Failure α} {f : α → Except Failure Handled}
    (hf : ∀ a, Returns (f a)) : Returns (x >>= f) := by
  intro h he
  obtain ⟨a, -, ha⟩ := bind_eq_ok.mp he
  exact hf a h ha

/-- A handler whose output has room returns no error. -/
theorem handleRecord_returns (hg : g.inWriteErrors = false) {r : Record}
    (hmeets : r.meets = true) (hw : r.handledWith env = true) :
    Returns (handleRecord s g env r) := by
  cases r with
  | lost tstamp => exact absurd hmeets Bool.false_ne_true
  | comm r =>
    have hname : ∀ s₁ : PerThreadStats, Returns (do
        let s₂ ← s₁.addName r.tstamp (s.selectNextVid r.tid).1
          ⟨r.comm, r.misc ||| PERF_RECORD_MISC_COMM_EXEC ≠ 0⟩
        let tinfo ← s₂.infoAt (s.selectNextVid r.tid).1
        throwAssertIf (tinfo.forkTimestamp != kInvalidTimeStamp && r.tstamp ≤ tinfo.forkTimestamp)
          .namedBeforeFork
        throwAssertIf (tinfo.endTimestamp != kInvalidTimeStamp) .namedAfterEnd
        return ⟨0, s₂, { g with lastTstamp := r.tstamp }⟩) := fun s₁ =>
      returns_bind fun s₂ => returns_bind fun _ => returns_bind fun _ => returns_bind fun _ =>
        returns_pure (le_refl _)
    show Returns (handleRecordComm s g env r)
    rw [handleRecordComm, pendingRecordLost_eq hg]
    show Returns (ite ((0 : ℤ) < 0) _ (ite ((s.selectNextVid r.tid).2 = true) _ _))
    rw [if_neg (lt_irrefl 0)]
    split_ifs
    · exact returns_bind hname
    · exact hname s
  | exit r =>
    have hret : 0 ≤ env.ret := of_decide_eq_true hw
    show Returns (handleRecordExit s g env r)
    rw [handleRecordExit, pendingRecordLost_eq hg]
    show Returns (ite ((0 : ℤ) < 0) _ (ite (0 ≤ env.ret) (ite ((s.selectNextVid r.tid).2 = true) _ _) _))
    rw [if_neg (lt_irrefl 0), if_pos hret]
    split_ifs
    · exact returns_bind fun _ => returns_bind fun _ => returns_bind fun _ => returns_pure hret
    · exact returns_bind fun _ => returns_bind fun _ => returns_pure hret
  | fork r =>
    have hret : 0 ≤ env.ret := of_decide_eq_true hw
    show Returns (handleRecordFork s g env r)
    rw [handleRecordFork, pendingRecordLost_eq hg]
    show Returns (ite ((0 : ℤ) < 0) _
      (ite (0 ≤ env.ret) (ite ((!(s.selectNextVid r.tid).2) = true) _ _) _))
    rw [if_neg (lt_irrefl 0), if_pos hret]
    split_ifs
    · exact returns_bind fun _ => returns_bind fun _ => returns_bind fun _ => returns_pure hret
    · exact returns_bind fun _ => returns_pure hret
  | switch r =>
    have hret : 0 ≤ env.ret := of_decide_eq_true hw
    show Returns (handleRecordSwitchCpuWide s g env r)
    rw [handleRecordSwitchCpuWide, pendingRecordLost_eq hg]
    show Returns (ite ((0 : ℤ) < 0) _ (ite (r.isSwitchOut = true) _
      (ite (((s.selectNextVid r.tid).2 && decide (0 ≤ env.ret)) = true) _ _)))
    rw [if_neg (lt_irrefl 0)]
    by_cases hout : r.isSwitchOut = true
    · rw [if_pos hout]
      exact returns_pure (by exact hret)
    · rw [if_neg hout]
      by_cases hnew : ((s.selectNextVid r.tid).2 && decide (0 ≤ env.ret)) = true
      · rw [if_pos hnew]
        exact returns_bind fun _ => returns_bind fun _ => returns_pure (by exact hret)
      · rw [if_neg hnew]
        exact returns_bind fun _ => returns_pure (by exact hret)

end Handlers

/-! ## Histories and runs -/

/-- A lifetime of a thread id: the id, and how many lifetimes it has had before. -/
structure Lifetime where
  tid : Pid
  generation : ℕ
  deriving DecidableEq, Repr

/-- A record, with the CPU on which it happened and the lifetime it is about. -/
structure Entry where
  cpu : ℕ
  generation : ℕ
  record : Record
  deriving DecidableEq, Repr

def Entry.lifetime (e : Entry) : Lifetime := ⟨e.record.tid, e.generation⟩

/-- A history of thread lifetimes, in the order in which things happened.  No record is
lost; the idle threads are only switched.  A lifetime goes forward in time, it begins
with the fork, if that was seen, and ends with the exit.  The lifetimes of a thread id
come one after the other. -/
structure Real (history : List Entry) : Prop where
  noneLost : ∀ e ∈ history, e.record.isLost = false
  idle : ∀ e ∈ history, e.record.tid = 0 → e.record.isSwitch = true
  ordered : history.Pairwise fun a b => a.record.tstamp ≤ b.record.tstamp
  lifetimes : history.Pairwise fun a b => a.lifetime = b.lifetime →
    a.record.tstamp < b.record.tstamp ∧ a.record.isExit = false ∧ b.record.isFork = false
  reuse : history.Pairwise fun a b =>
    a.record.tid = b.record.tid → a.record.tid ≠ 0 → a.generation ≤ b.generation

/-- A turn of a CPU, and what the handler that it calls depends on. -/
structure Turn where
  cpu : ℕ
  env : Env

/-- The table, the generators and the records that are still to be handled.  `given`
and `last` say who was given which virtual id, and who was seen last for a thread id
and whether to exit. -/
structure Tracked where
  stats : PerThreadStats
  gens : ℕ → CpuThreadSwitchGenerator
  pending : List Entry
  failure : Option Failure
  given : List (ℕ × Lifetime)
  last : Pid → Option (Lifetime × Bool)

namespace Tracked

def init (tidLevel : ℕ) (history : List Entry) : Tracked where
  stats := .init
  gens := fun cpu => ⟨tidLevel, cpu, 0, false, []⟩
  pending := history
  failure := none
  given := []
  last := fun _ => none

/-- The oldest record of a CPU that is still to be handled. -/
def nextOf (t : Tracked) (cpu : ℕ) : Option Entry := t.pending.find? (·.cpu == cpu)

/-- What is left of the records if the oldest of a CPU is handled. -/
def rest (t : Tracked) (cpu : ℕ) : List Entry := t.pending.eraseP (·.cpu == cpu)

/-- A virtual id was given. -/
def give (t : Tracked) (vid : ℕ) (e : Entry) : Tracked :=
  { t with
    given := (vid, e.lifetime) :: t.given
    last := Function.update t.last e.record.tid (some (e.lifetime, e.record.isExit)) }

/-- The record that a CPU handles, if the program runs and the CPU has one. -/
def step (t : Tracked) (turn : Turn) : Tracked :=
  match t.failure, t.nextOf turn.cpu with
  | none, some e =>
    match CpuThreadSwitchGenerator.handleRecord t.stats (t.gens turn.cpu) turn.env e.record with
    | .error failure => { t with failure := some failure }
    | .ok h =>
      let t' := { t with stats := h.stats, gens := Function.update t.gens turn.cpu h.gen }
      -- `consume` goes on after a name, whatever is returned for it
      if 0 ≤ h.ret ∨ e.record.isComm = true then
        let t' := { t' with pending := t.rest turn.cpu }
        if e.record.meets = true ∧ 0 ≤ h.ret then t'.give (t.stats.selectNextVid e.record.tid).1 e else t'
      else t'
  | _, _ => t

/-- The names that the table gives to lifetimes. -/
def naming (t : Tracked) : Naming Pid Lifetime :=
  ⟨t.stats.nextVid, t.stats.activeTids, t.given, t.last⟩

/-- No assertion has failed, the active thread ids are mapped to what has not ended, and
no virtual id was given to two lifetimes. -/
structure Safe (t : Tracked) : Prop where
  running : t.failure = none
  active : t.stats.ActiveOpen
  unshared : Naming.Unshared t.given

/-- Whoever was seen last for the thread id of the record that is handled is the lifetime
of the record, or was seen to exit; and a virtual id is left if one is needed. -/
def HandsOver (t : Tracked) (turn : Turn) : Prop :=
  ∀ e, t.nextOf turn.cpu = some e → e.record.meets = true →
    e.record.handledWith turn.env = true →
      t.naming.Handover e.record.tid e.lifetime ∧ t.stats.Ready e.record.tid

instance (t : Tracked) (turn : Turn) : Decidable (t.HandsOver turn) :=
  match h : t.nextOf turn.cpu with
  | none => isTrue (by
      intro e he
      exact absurd (he.symm.trans h) (Option.some_ne_none e))
  | some e => decidable_of_iff
      (e.record.meets = true → e.record.handledWith turn.env = true →
        t.naming.Handover e.record.tid e.lifetime ∧ t.stats.Ready e.record.tid) (by
      constructor
      · intro h' e' he'
        rw [← Option.some.inj (h.symm.trans he')]
        exact h'
      · intro h'
        exact h' e h)

/-- What holds in a run that hands over. -/
structure Inv (t : Tracked) : Prop where
  running : t.failure = none
  table : t.stats.Table
  noErrors : ∀ cpu, (t.gens cpu).inWriteErrors = false
  noneLost : ∀ e ∈ t.pending, e.record.isLost = false
  idle : ∀ e ∈ t.pending, e.record.tid = 0 → e.record.isSwitch = true
  lifetimes : t.pending.Pairwise fun a b => a.lifetime = b.lifetime →
    a.record.tstamp < b.record.tstamp ∧ a.record.isExit = false ∧ b.record.isFork = false
  kept : t.naming.Kept
  -- what a lifetime still has to come is after its fork
  forked : ∀ vid w, (vid, w) ∈ t.given → ∀ tinfo, t.stats.info vid = some tinfo →
    tinfo.forkTimestamp ≠ kInvalidTimeStamp → ∀ e ∈ t.pending, e.lifetime = w →
      e.record.isFork = false ∧ tinfo.forkTimestamp < e.record.tstamp

/-! ### One step -/

section Step

variable {t : Tracked} {turn : Turn} {e : Entry}

theorem nextOf_spec (h : t.nextOf turn.cpu = some e) :
    ∃ l₁ l₂, t.pending = l₁ ++ e :: l₂ ∧ t.rest turn.cpu = l₁ ++ l₂ := by
  obtain ⟨he, l₁, l₂, hpending, hl₁⟩ := List.find?_eq_some_iff_append.mp h
  refine ⟨l₁, l₂, hpending, ?_⟩
  have hnot : ∀ a ∈ l₁, ¬ (a.cpu == turn.cpu) = true := by
    intro a ha
    have := hl₁ a ha
    rwa [Bool.not_eq_eq_eq_not, Bool.not_true, ← Bool.not_eq_true] at this
  rw [rest, hpending, List.eraseP_append_right _ hnot]
  exact congrArg (l₁ ++ ·) (List.eraseP_cons_of_pos he)

theorem mem_pending_of_nextOf (h : t.nextOf turn.cpu = some e) : e ∈ t.pending :=
  List.mem_of_find?_eq_some h

theorem rest_subset (turn : Turn) : ∀ e' ∈ t.rest turn.cpu, e' ∈ t.pending :=
  fun _ h => List.mem_of_mem_eraseP h

/-- The other records of a lifetime are after its fork. -/
theorem Inv.after_fork (h : Inv t) (hn : t.nextOf turn.cpu = some e)
    (hfork : e.record.isFork = true) : ∀ e' ∈ t.rest turn.cpu, e'.lifetime = e.lifetime →
      e'.record.isFork = false ∧ e.record.tstamp < e'.record.tstamp := by
  obtain ⟨l₁, l₂, hpending, hrest⟩ := nextOf_spec hn
  have hpair := h.lifetimes
  rw [hpending, List.pairwise_append] at hpair
  obtain ⟨-, htail, hcross⟩ := hpair
  intro e' he' hlife
  rw [hrest] at he'
  rcases List.mem_append.mp he' with he' | he'
  · obtain ⟨-, -, hnot⟩ := hcross e' he' e List.mem_cons_self hlife
    exact absurd (hnot.symm.trans hfork) Bool.false_ne_true
  · obtain ⟨hlt, -, hnot⟩ := (List.pairwise_cons.mp htail).1 e' he' hlife.symm
    exact ⟨hnot, hlt⟩

/-- What the table knows of the fork of an active thread is about the lifetime that the
thread id is handed over to. -/
theorem Inv.fork_before (h : Inv t) (hover : t.naming.Handover e.record.tid e.lifetime)
    (hf : t.stats.forkOf e.record.tid ≠ kInvalidTimeStamp) :
    ∀ e' ∈ t.pending, e'.lifetime = e.lifetime →
      e'.record.isFork = false ∧ t.stats.forkOf e.record.tid < e'.record.tstamp := by
  cases ha : t.stats.activeTids e.record.tid with
  | none => exact absurd (PerThreadStats.forkOf_of_none h.table ha) hf
  | some vid =>
    obtain ⟨w, hlast, hgiven⟩ := h.kept.held e.record.tid vid ha
    obtain ⟨tinfo, hinfo, -⟩ := h.table.active e.record.tid vid ha
    have hfork : t.stats.forkOf e.record.tid = tinfo.forkTimestamp :=
      PerThreadStats.forkOf_of_info ((PerThreadStats.vidOf_of_active ha).symm ▸ hinfo)
    rw [hfork] at hf ⊢
    intro e' he' hlife
    exact h.forked vid w hgiven tinfo hinfo hf e' he' (hlife.trans (hover w hlast).symm)

theorem Inv.inTime (h : Inv t) (hn : t.nextOf turn.cpu = some e)
    (hover : t.naming.Handover e.record.tid e.lifetime) :
    e.record.InTime (t.stats.forkOf e.record.tid) := by
  refine Record.inTime_of ?_
  by_cases hf : t.stats.forkOf e.record.tid = kInvalidTimeStamp
  · exact .inl hf
  · exact .inr (h.fork_before hover hf e (mem_pending_of_nextOf hn) rfl)

/-- The state after a record that met a thread. -/
def met (t : Tracked) (turn : Turn) (e : Entry) (h : Handled) : Tracked :=
  { t with
    stats := h.stats
    gens := Function.update t.gens turn.cpu h.gen
    pending := t.rest turn.cpu }.give (t.stats.vidOf e.record.tid) e

/-- **A record that is handed over keeps the invariant.** -/
theorem Inv.met (h : Inv t) (hn : t.nextOf turn.cpu = some e) (ht : e.record.tid ≠ 0)
    (hover : t.naming.Handover e.record.tid e.lifetime) (hr : t.stats.Ready e.record.tid)
    {r : Handled} (hg : r.gen.inWriteErrors = false)
    (hm : t.stats.Met r.stats e.record.tid (e.record.forkAfter (t.stats.forkOf e.record.tid))
      e.record.isExit) : Inv (t.met turn e r) where
  running := h.running
  table := h.table.met ht hr hm
  noErrors := by
    intro cpu
    show (Function.update t.gens turn.cpu r.gen cpu).inWriteErrors = false
    by_cases hc : cpu = turn.cpu
    · rw [hc, Function.update_self, hg]
    · rw [Function.update_of_ne hc, h.noErrors]
  noneLost := fun e' he' => h.noneLost e' (rest_subset turn e' he')
  idle := fun e' he' => h.idle e' (rest_subset turn e' he')
  lifetimes := h.lifetimes.sublist List.eraseP_sublist
  kept := by
    have hname : (t.met turn e r).naming
        = t.naming.meet e.record.tid e.lifetime e.record.isExit := by
      have hnext := hm.nextVid
      have hactive := hm.active
      show Naming.mk r.stats.nextVid r.stats.activeTids _ _ = Naming.mk _ _ _ _
      rw [hnext, hactive]
      rfl
    rw [hname]
    exact h.kept.meet hover
  forked := by
    intro vid w hgiven tinfo hinfo hf e' he' hlife
    obtain ⟨tinfo', hinfo', -, -, hfork', -⟩ := hm.info
    have hinfo : r.stats.info vid = some tinfo := hinfo
    have he : e' ∈ t.pending := rest_subset turn e' he'
    rw [hinfo'] at hinfo
    by_cases hv : vid = t.stats.vidOf e.record.tid
    · have hw : w = e.lifetime := by
        rcases List.mem_cons.mp hgiven with hg' | hg'
        · exact (Prod.mk.inj hg').2
        · rw [hv] at hg'
          exact h.kept.eq_of_given hover hg'
      rw [hv, Function.update_self] at hinfo
      rw [← Option.some.inj hinfo, hfork'] at hf ⊢
      rw [hw] at hlife
      cases hrec : e.record.isFork with
      | true =>
        have hafter : e.record.forkAfter (t.stats.forkOf e.record.tid) = e.record.tstamp :=
          Record.forkAfter_fork hrec
        rw [hafter]
        exact h.after_fork hn hrec e' he' hlife
      | false =>
        have hafter : e.record.forkAfter (t.stats.forkOf e.record.tid)
            = t.stats.forkOf e.record.tid := Record.forkAfter_of_not_fork hrec
        rw [hafter] at hf ⊢
        exact h.fork_before hover hf e' he hlife
    · rw [Function.update_of_ne hv] at hinfo
      rcases List.mem_cons.mp hgiven with hg' | hg'
      · exact absurd (Prod.mk.inj hg').1 hv
      · exact h.forked vid w hg' tinfo hinfo hf e' he hlife

/-- A record that leaves the table as it is keeps the invariant. -/
theorem Inv.kept_table (h : Inv t) {r : Handled} (hs : r.stats = t.stats)
    (hg : r.gen.inWriteErrors = false) {pending : List Entry} (hp : pending.Sublist t.pending) :
    Inv { t with
      stats := r.stats, gens := Function.update t.gens turn.cpu r.gen, pending := pending } where
  running := h.running
  table := hs ▸ h.table
  noErrors := by
    intro cpu
    show (Function.update t.gens turn.cpu r.gen cpu).inWriteErrors = false
    by_cases hc : cpu = turn.cpu
    · rw [hc, Function.update_self, hg]
    · rw [Function.update_of_ne hc, h.noErrors]
  noneLost := fun e' he' => h.noneLost e' (hp.subset he')
  idle := fun e' he' => h.idle e' (hp.subset he')
  lifetimes := h.lifetimes.sublist hp
  kept := by
    show (Naming.mk r.stats.nextVid r.stats.activeTids t.given t.last).Kept
    rw [hs]
    exact h.kept
  forked := by
    intro vid w hgiven tinfo hinfo hf e' he'
    have hinfo : r.stats.info vid = some tinfo := hinfo
    rw [hs] at hinfo
    exact h.forked vid w hgiven tinfo hinfo hf e' (hp.subset he')

theorem Inv.safe (h : Inv t) : Safe t := ⟨h.running, h.table.active, h.kept.unshared⟩

theorem meets_tid {r : Record} (h : r.meets = true) : r.tid ≠ 0 := by
  cases r with
  | lost _ => exact absurd h Bool.false_ne_true
  | comm r => exact of_decide_eq_true h
  | exit r => exact of_decide_eq_true h
  | fork r => exact of_decide_eq_true h
  | switch r => exact of_decide_eq_true (Bool.and_eq_true_iff.mp h).2

/-- The state after a record for which the handler returns. -/
theorem step_of_ok (hrun : t.failure = none) (hn : t.nextOf turn.cpu = some e) {h : Handled}
    (hh : CpuThreadSwitchGenerator.handleRecord t.stats (t.gens turn.cpu) turn.env e.record
      = .ok h) :
    t.step turn
      = if 0 ≤ h.ret ∨ e.record.isComm = true then
          if e.record.meets = true ∧ 0 ≤ h.ret then t.met turn e h
          else { t with
            stats := h.stats
            gens := Function.update t.gens turn.cpu h.gen
            pending := t.rest turn.cpu }
        else { t with stats := h.stats, gens := Function.update t.gens turn.cpu h.gen } := by
  rw [step, hrun, hn]
  dsimp only
  rw [hh]
  dsimp only
  split_ifs with h₁ h₂
  · rw [PerThreadStats.selectNextVid_eq (meets_tid h₂.1)]
    rw [← hrun]
    rfl
  · rw [← hrun]
  · rw [← hrun]

/-- **A step that hands over keeps the invariant.** -/
theorem Inv.step (h : Inv t) (hover : t.HandsOver turn) : Inv (t.step turn) := by
  cases hn : t.nextOf turn.cpu with
  | none =>
    rw [Tracked.step, hn]
    cases t.failure <;> exact h
  | some e =>
    have hpending := mem_pending_of_nextOf hn
    by_cases hmeets : e.record.meets = true ∧ e.record.handledWith turn.env = true
    · obtain ⟨hname, hr⟩ := hover e hn hmeets.1 hmeets.2
      obtain ⟨r, hok, hret, hg, hm⟩ := handleRecord_meets h.table (h.noErrors turn.cpu) hmeets.1
        hmeets.2 hr (h.inTime hn hname)
      rw [step_of_ok h.running hn hok, if_pos (.inl hret), if_pos ⟨hmeets.1, hret⟩]
      exact h.met hn (meets_tid hmeets.1) hname hr hg hm
    · have hnot : e.record.meets = false ∨ e.record.handledWith turn.env = false := by
        rw [not_and_or, Bool.not_eq_true, Bool.not_eq_true] at hmeets
        exact hmeets
      obtain ⟨r, hok, hs, hg, hret⟩ := handleRecord_keeps (h.noErrors turn.cpu)
        (h.noneLost e hpending) (h.idle e hpending) hnot
      rw [step_of_ok h.running hn hok]
      have hnone : ¬ (e.record.meets = true ∧ 0 ≤ r.ret) := fun hc => hmeets ⟨hc.1, hret.mp hc.2⟩
      rw [if_neg hnone]
      split_ifs
      · exact h.kept_table hs hg List.eraseP_sublist
      · exact h.kept_table hs hg (List.Sublist.refl _)

/-- **A step that does not hand over is not safe.** -/
theorem Inv.not_safe_step (h : Inv t) (hover : ¬ t.HandsOver turn) : ¬ Safe (t.step turn) := by
  intro hsafe
  refine hover fun e hn hmeets hw => ?_
  by_contra hnot
  by_cases hr : t.stats.Ready e.record.tid
  · have hname : ¬ t.naming.Handover e.record.tid e.lifetime := fun hname => hnot ⟨hname, hr⟩
    cases hh : CpuThreadSwitchGenerator.handleRecord t.stats (t.gens turn.cpu) turn.env
        e.record with
    | error failure =>
      have hrun := hsafe.running
      rw [Tracked.step, h.running, hn] at hrun
      dsimp only at hrun
      rw [hh] at hrun
      exact Option.some_ne_none _ hrun
    | ok r =>
      have hret := handleRecord_returns (h.noErrors turn.cpu) hmeets hw r hh
      have hshared := hsafe.unshared
      rw [step_of_ok h.running hn hh, if_pos (.inl hret), if_pos ⟨hmeets, hret⟩] at hshared
      exact h.kept.shared hname e.record.isExit hshared
  · have hrun := hsafe.running
    rw [Tracked.step, h.running, hn] at hrun
    dsimp only at hrun
    rw [handleRecord_full h.table (h.noErrors turn.cpu) hmeets hw hr] at hrun
    exact Option.some_ne_none _ hrun

end Step

/-! ### Runs -/

theorem inv_init {history : List Entry} (h : Real history) (tidLevel : ℕ) :
    Inv (init tidLevel history) where
  running := rfl
  table := PerThreadStats.table_init
  noErrors := fun _ => rfl
  noneLost := h.noneLost
  idle := h.idle
  lifetimes := h.lifetimes
  kept := Naming.kept_init 1
  forked := by
    intro vid w hgiven
    exact absurd hgiven List.not_mem_nil

/-- **When a run is safe.**  For every history of thread lifetimes and every order in
which the CPUs take their turns, no assertion fails, the active thread ids are mapped
to what has not ended and no two lifetimes are given the same virtual id, if and only if
every thread id is handed over from one lifetime to the next, and the virtual ids do not
run out. -/
theorem safe_iff {history : List Entry} (h : Real history) (tidLevel : ℕ) (turns : List Turn) :
    Run.Throughout step Safe (init tidLevel history) turns
      ↔ Run.Along step HandsOver (init tidLevel history) turns :=
  Run.throughout_iff_along_of_inv (fun _ _ => Inv.step) (fun _ => Inv.safe)
    (fun _ _ => Inv.not_safe_step) (inv_init h tidLevel)

/-- Thread 5 is forked on CPU 0 and runs and exits on CPU 1, and its thread id is used
again on CPU 0. -/
def reusedTid : List Entry :=
  [⟨0, 0, .fork ⟨5, 1, 5, 1, 10⟩⟩, ⟨1, 0, .switch ⟨0, 5, 5, 20⟩⟩, ⟨1, 0, .comm ⟨0, 5, 5, "a", 25⟩⟩,
    ⟨1, 0, .exit ⟨5, 1, 5, 1, 30⟩⟩, ⟨0, 1, .fork ⟨5, 1, 5, 1, 40⟩⟩]

theorem real_reusedTid : Real reusedTid := ⟨by decide, by decide, by decide, by decide, by decide⟩

def turn (cpu : ℕ) : Turn := ⟨cpu, ⟨fun _ => none, fun _ => none⟩, 0, 0⟩

/-- The buffers are drained in the order of time. -/
theorem safe_inTurns : Run.Throughout step Safe (init 1 reusedTid) ([0, 1, 1, 1, 0].map turn) :=
  (safe_iff real_reusedTid 1 _).mpr (by decide)

/-- The buffer of CPU 1 is drained first.  The fork then makes an entry for a thread that
has exited, which is still there when the thread id is used again. -/
theorem not_safe_exitFirst : Real reusedTid ∧
    ¬ Run.Throughout step Safe (init 1 reusedTid) ([1, 1, 1, 0, 0].map turn) := by
  refine ⟨real_reusedTid, fun h => ?_⟩
  have hrun := h.last.running
  revert hrun
  decide

end Tracked

end PerfEvent
end IntegratedCLI
