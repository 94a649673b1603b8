import IntegratedCLI.Lib.Run
import IntegratedCLI.Mon.StateAgreement

/-!
# Readers of shared groups of events

With `HBT_ENABLE_BPERF` the monitor also has readers of counters that share groups of
events.  A group belongs to the readers that use it.  The monitor keeps pointers to the
groups in two maps: how many readers use a group, with the mux group it was first used
in, and which group is multiplexed for a mux group.  The pointers are to be good as long
as they are stored.

`Right` says so: what is stored is counted, the count of a group is the number of its
readers, and a group is dropped exactly with its last reader.  `Inv` says in addition that
the two maps are inverse to each other.  Two calls break it.  A group that is in use is
emplaced in a mux group without one: it is now multiplexed for two mux groups, and
only the first of them is cleared with the last reader.  A reader is erased from a mux
group that it is not in: it is counted out, and stays.  `noneDangling` is about
runs without them, and `not_noneDangling_twoMuxGroups` has both.

The methods are added to those of the `Monitor`, whose mux groups and queues they use.
What `sync_` does to the groups is left out, as it changes none of the maps.  Whether the
reader can be enabled is an argument of the call.
-/

namespace IntegratedCLI
namespace Mon

structure ManagedBPerfEventInfo (MuxGroupId : Type) where
  muxId : MuxGroupId
  refCount : ℕ
  deriving DecidableEq, Repr

inductive BPerfFailure where
  | alreadyThere
  | noGroup
  | otherMuxGroup
  | missing
  | monitor (failure : Failure)
  deriving DecidableEq, Repr

/-- A monitor with its readers, each given by the group that it uses. -/
structure BPerfMonitor (PmuType MuxGroupId ElemId BPerfEventsGroup : Type) where
  monitor : Monitor PmuType MuxGroupId ElemId
  bperfCountReaders : List (ElemId × BPerfEventsGroup)
  managedBPerfEvents : BPerfEventsGroup → Option (ManagedBPerfEventInfo MuxGroupId)
  muxBPerfEventMap : MuxGroupId → Option BPerfEventsGroup

namespace BPerfMonitor

variable {PmuType MuxGroupId ElemId BPerfEventsGroup : Type} [DecidableEq PmuType]
  [DecidableEq MuxGroupId] [DecidableEq ElemId] [DecidableEq BPerfEventsGroup]

def init (muxQueuePerPmuType : Bool) : BPerfMonitor PmuType MuxGroupId ElemId BPerfEventsGroup :=
  ⟨.init muxQueuePerPmuType, [], fun _ => none, fun _ => none⟩

section Methods

variable (s : BPerfMonitor PmuType MuxGroupId ElemId BPerfEventsGroup)

/-- The group is counted once more, and multiplexed for the mux group. -/
def retain (g : MuxGroupId) (eg : BPerfEventsGroup) :
    BPerfMonitor PmuType MuxGroupId ElemId BPerfEventsGroup :=
  let info := (s.managedBPerfEvents eg).getD ⟨g, 0⟩
  { s with
    managedBPerfEvents :=
      Function.update s.managedBPerfEvents eg (some { info with refCount := info.refCount + 1 })
    muxBPerfEventMap := Function.update s.muxBPerfEventMap g (some eg) }

/-- The group is counted once less, and dropped when that leaves none. -/
def release (eg : BPerfEventsGroup) (info : ManagedBPerfEventInfo MuxGroupId) :
    BPerfMonitor PmuType MuxGroupId ElemId BPerfEventsGroup :=
  let info := { info with refCount := info.refCount - 1 }
  if info.refCount = 0 then
    { s with
      muxBPerfEventMap := Function.update s.muxBPerfEventMap info.muxId none
      managedBPerfEvents := Function.update s.managedBPerfEvents eg none }
  else { s with managedBPerfEvents := Function.update s.managedBPerfEvents eg (some info) }

/-- The reader is not returned if it cannot be enabled. -/
def emplaceBPerfCountReader (g : MuxGroupId) (k : ElemId) (bperfEg : Option BPerfEventsGroup)
    (enables : Bool) :
    Except BPerfFailure (Bool × BPerfMonitor PmuType MuxGroupId ElemId BPerfEventsGroup) :=
  if (Dict.get? s.bperfCountReaders k).isSome then throw .alreadyThere
  else
    match bperfEg with
    | none => throw .noGroup
    | some eg =>
      if ¬ (s.muxBPerfEventMap g = none ∨ s.muxBPerfEventMap g = some eg) then
        throw .otherMuxGroup
      else if ¬ enables then return (false, s)
      else do
        let m ← (s.monitor.addMuxEntry g k none).mapError .monitor
        let s := { s with
          monitor := m
          bperfCountReaders := s.bperfCountReaders ++ [(k, eg)] }.retain g eg
        let m ← (s.monitor.sync false false).mapError .monitor
        return (true, { s with monitor := m })

def eraseBPerfCountReader (g : MuxGroupId) (k : ElemId) :
    Except BPerfFailure (Bool × BPerfMonitor PmuType MuxGroupId ElemId BPerfEventsGroup) :=
  match Dict.get? s.bperfCountReaders k with
  | none => return (false, s)
  | some eg =>
    match s.managedBPerfEvents eg with
    | none => throw .missing
    | some info => do
      let s := s.release eg info
      match ← (s.monitor.removeMuxEntry g k).mapError .monitor with
      | none => return (false, s)
      | some m =>
        let m ← (m.sync false false).mapError .monitor
        return (true, { s with
          monitor := m
          bperfCountReaders := Dict.drop s.bperfCountReaders k })

end Methods

/-! ## Calls -/

inductive Call (MuxGroupId ElemId BPerfEventsGroup : Type) where
  | emplace (g : MuxGroupId) (k : ElemId) (bperfEg : Option BPerfEventsGroup) (enables : Bool)
  | erase (g : MuxGroupId) (k : ElemId)

def perform (s : BPerfMonitor PmuType MuxGroupId ElemId BPerfEventsGroup) :
    Call MuxGroupId ElemId BPerfEventsGroup →
      Except BPerfFailure (Bool × BPerfMonitor PmuType MuxGroupId ElemId BPerfEventsGroup)
  | .emplace g k bperfEg enables => s.emplaceBPerfCountReader g k bperfEg enables
  | .erase g k => s.eraseBPerfCountReader g k

/-- The monitor after a call; a call that is refused changes nothing. -/
def step (s : BPerfMonitor PmuType MuxGroupId ElemId BPerfEventsGroup)
    (call : Call MuxGroupId ElemId BPerfEventsGroup) :
    BPerfMonitor PmuType MuxGroupId ElemId BPerfEventsGroup :=
  match s.perform call with
  | .ok r => r.2
  | .error _ => s

/-- How many readers use a group. -/
def users (s : BPerfMonitor PmuType MuxGroupId ElemId BPerfEventsGroup) (eg : BPerfEventsGroup) :
    ℕ := s.bperfCountReaders.countP fun e => e.2 = eg

/-- The pointers that are stored are good. -/
structure Right (s : BPerfMonitor PmuType MuxGroupId ElemId BPerfEventsGroup) : Prop where
  stored : ∀ g eg, s.muxBPerfEventMap g = some eg → (s.managedBPerfEvents eg).isSome = true
  counted : ∀ eg info, s.managedBPerfEvents eg = some info → info.refCount = s.users eg
  dropped : ∀ eg, s.managedBPerfEvents eg = none ↔ s.users eg = 0

/-- A new reader uses a group in the mux group where it is in use, and a reader is erased
from a mux group that it is in. -/
def Fitting (s : BPerfMonitor PmuType MuxGroupId ElemId BPerfEventsGroup) :
    Call MuxGroupId ElemId BPerfEventsGroup → Prop
  | .emplace g k bperfEg enables =>
    Dict.get? s.bperfCountReaders k = none → enables = true → s.muxBPerfEventMap g = none →
      ∀ eg ∈ bperfEg, s.managedBPerfEvents eg = none
  | .erase g k =>
    (Dict.get? s.bperfCountReaders k).isSome = true → ∃ ids ∈ s.monitor.muxGroups g, k ∈ ids

/-! ## What a call does -/

variable {s : BPerfMonitor PmuType MuxGroupId ElemId BPerfEventsGroup} {g : MuxGroupId}
  {k : ElemId} {eg : BPerfEventsGroup} {info : ManagedBPerfEventInfo MuxGroupId}
  {call : Call MuxGroupId ElemId BPerfEventsGroup}

theorem mapError_ok {ε ε' α : Type} {x : Except ε α} {a : α} (h : x = .ok a) (f : ε → ε') :
    x.mapError f = .ok a := by
  rw [h]
  rfl

omit [DecidableEq PmuType] [DecidableEq MuxGroupId] in
theorem sync_returns {m : Monitor PmuType MuxGroupId ElemId} (hm : m.Inv) :
    ∃ m', m.sync false false = .ok m' ∧ m'.Inv := by
  obtain ⟨m', hm', -, hq, ha⟩ := Monitor.sync_spec hm.queued hm.agrees.allUniform false false
  exact ⟨m', hm', hq, ha⟩

/-- A new reader of a group is registered, or nothing is changed. -/
theorem step_emplace (hm : s.monitor.Inv) (g : MuxGroupId) (k : ElemId)
    (bperfEg : Option BPerfEventsGroup) (enables : Bool) :
    s.step (.emplace g k bperfEg enables) = s
      ∨ ∃ eg ∈ bperfEg, Dict.get? s.bperfCountReaders k = none ∧ enables = true
        ∧ (s.muxBPerfEventMap g = none ∨ s.muxBPerfEventMap g = some eg)
        ∧ ∃ m : Monitor PmuType MuxGroupId ElemId, m.Inv
          ∧ s.step (.emplace g k bperfEg enables)
            = { s.retain g eg with
                monitor := m
                bperfCountReaders := s.bperfCountReaders ++ [(k, eg)] } := by
  rw [step, perform]
  by_cases hnew : (Dict.get? s.bperfCountReaders k).isSome = true
  · left
    cases bperfEg <;> rw [emplaceBPerfCountReader, if_pos hnew] <;> rfl
  · cases bperfEg with
    | none =>
      rw [emplaceBPerfCountReader, if_neg hnew]
      exact .inl rfl
    | some eg =>
      rw [emplaceBPerfCountReader, if_neg hnew]
      dsimp only
      by_cases hmux : s.muxBPerfEventMap g = none ∨ s.muxBPerfEventMap g = some eg
      · rw [if_neg (not_not.mpr hmux)]
        by_cases henables : enables = true
        · obtain ⟨m, hadd, hinv, -⟩ := Monitor.addMuxEntry_spec hm g k none
          obtain ⟨m', hsync, hinv'⟩ := sync_returns hinv
          refine .inr ⟨eg, rfl, Option.not_isSome_iff_eq_none.mp hnew, henables, hmux, m', hinv', ?_⟩
          rw [if_neg (not_not.mpr henables), mapError_ok hadd]
          show (match (((m.sync false false).mapError BPerfFailure.monitor >>= _) :
              Except BPerfFailure (Bool × BPerfMonitor PmuType MuxGroupId ElemId BPerfEventsGroup)) with
            | .ok r => r.2
            | .error _ => s) = _
          rw [mapError_ok hsync]
          rfl
        · rw [if_pos henables]
          exact .inl rfl
      · rw [if_pos hmux]
        exact .inl rfl

omit [DecidableEq PmuType] in
theorem removeMuxEntry_of_mem {m : Monitor PmuType MuxGroupId ElemId} (hm : m.Inv)
    (hk : ∃ ids ∈ m.muxGroups g, k ∈ ids) :
    ∃ m', m.removeMuxEntry g k = .ok (some m') ∧ m'.Inv := by
  rcases Monitor.removeMuxEntry_spec hm g k with hnone | ⟨m', hm', hinv, -⟩
  · obtain ⟨ids, hids, hmem⟩ := hk
    rw [Monitor.removeMuxEntry, Option.mem_def.mp hids] at hnone
    dsimp only at hnone
    rw [if_neg (not_not.mpr hmem)] at hnone
    have hsome : ∀ x : Except Failure (Monitor PmuType MuxGroupId ElemId),
        (x >>= fun m => m.sync false false >>= fun m => pure (some m)) ≠ .ok none := by
      intro x h
      obtain ⟨m₁, -, h⟩ := Fallible.bind_eq_ok.mp h
      obtain ⟨m₂, -, h⟩ := Fallible.bind_eq_ok.mp h
      cases h
    split_ifs at hnone <;> exact absurd hnone (hsome _)
  · exact ⟨m', hm', hinv⟩

/-- A reader is erased from a mux group that it is in. -/
theorem step_erase (hm : s.monitor.Inv) (heg : Dict.get? s.bperfCountReaders k = some eg)
    (hinfo : s.managedBPerfEvents eg = some info)
    (hk : ∃ ids ∈ s.monitor.muxGroups g, k ∈ ids) :
    ∃ m : Monitor PmuType MuxGroupId ElemId, m.Inv
      ∧ s.step (.erase g k)
        = { s.release eg info with
            monitor := m
            bperfCountReaders := Dict.drop s.bperfCountReaders k } := by
  obtain ⟨m, hremove, hinv⟩ := removeMuxEntry_of_mem hm hk
  obtain ⟨m', hsync, hinv'⟩ := sync_returns hinv
  refine ⟨m', hinv', ?_⟩
  have hmonitor : (s.release eg info).monitor = s.monitor := by
    rw [release]
    split <;> rfl
  have hreaders : (s.release eg info).bperfCountReaders = s.bperfCountReaders := by
    rw [release]
    split <;> rfl
  rw [step, perform, eraseBPerfCountReader, heg]
  dsimp only
  rw [hinfo]
  dsimp only
  rw [hmonitor, hreaders, mapError_ok hremove]
  show (match (((m.sync false false).mapError BPerfFailure.monitor >>= _) :
      Except BPerfFailure (Bool × BPerfMonitor PmuType MuxGroupId ElemId BPerfEventsGroup)) with
    | .ok r => r.2
    | .error _ => s) = _
  rw [mapError_ok hsync]
  rfl

/-! ## The maps -/

/-- The counts are those of the readers, and the two maps are inverse to each other. -/
structure Inv (s : BPerfMonitor PmuType MuxGroupId ElemId BPerfEventsGroup) : Prop where
  monitor : s.monitor.Inv
  keys : (s.bperfCountReaders.map Prod.fst).Nodup
  counted : ∀ eg, ((s.managedBPerfEvents eg).map ManagedBPerfEventInfo.refCount).getD 0 = s.users eg
  positive : ∀ eg info, s.managedBPerfEvents eg = some info → info.refCount ≠ 0
  paired : ∀ g eg, s.muxBPerfEventMap g = some eg
    ↔ ∃ info, s.managedBPerfEvents eg = some info ∧ info.muxId = g

section

omit [DecidableEq PmuType] [DecidableEq MuxGroupId] [DecidableEq ElemId]

theorem inv_init (muxQueuePerPmuType : Bool) :
    Inv (init muxQueuePerPmuType : BPerfMonitor PmuType MuxGroupId ElemId BPerfEventsGroup) where
  monitor := Monitor.inv_init muxQueuePerPmuType
  keys := List.nodup_nil
  counted _ := rfl
  positive _ _ h := nomatch h
  paired _ _ := ⟨nofun, fun ⟨_, h, _⟩ => nomatch h⟩

theorem Inv.count_eq (h : Inv s) (hinfo : s.managedBPerfEvents eg = some info) :
    info.refCount = s.users eg := by
  rw [← h.counted eg, hinfo]
  rfl

theorem Inv.right (h : Inv s) : Right s where
  stored g eg hmux := by
    obtain ⟨info, hinfo, -⟩ := (h.paired g eg).mp hmux
    rw [hinfo]
    rfl
  counted _ _ hinfo := h.count_eq hinfo
  dropped eg := by
    cases hinfo : s.managedBPerfEvents eg with
    | none =>
      refine iff_of_true rfl ?_
      rw [← h.counted eg, hinfo]
      rfl
    | some info =>
      refine iff_of_false nofun fun hzero => h.positive eg info hinfo ?_
      rw [h.count_eq hinfo, hzero]

/-- A group that is multiplexed for a mux group is the only one that is counted there. -/
theorem Inv.eq_of_muxId (h : Inv s) (hmux : s.muxBPerfEventMap g = some eg)
    {eg' : BPerfEventsGroup} (hinfo : s.managedBPerfEvents eg' = some info)
    (hid : info.muxId = g) : eg' = eg :=
  Option.some.inj (((h.paired g eg').mpr ⟨info, hinfo, hid⟩).symm.trans hmux)

end

omit [DecidableEq PmuType] [DecidableEq MuxGroupId] [DecidableEq ElemId] in
/-- The count of one group is written, and the users of the other groups are the same. -/
theorem Inv.recount (h : Inv s)
    {s' : BPerfMonitor PmuType MuxGroupId ElemId BPerfEventsGroup} (hm : s'.monitor.Inv)
    (hkeys : (s'.bperfCountReaders.map Prod.fst).Nodup) {eg : BPerfEventsGroup}
    {v : Option (ManagedBPerfEventInfo MuxGroupId)}
    (hmanaged : s'.managedBPerfEvents = Function.update s.managedBPerfEvents eg v)
    (hcount : (v.map ManagedBPerfEventInfo.refCount).getD 0 = s'.users eg)
    (hothers : ∀ eg', eg' ≠ eg → s.users eg' = s'.users eg')
    (hpositive : ∀ info, v = some info → info.refCount ≠ 0)
    (hpaired : ∀ g eg', s'.muxBPerfEventMap g = some eg'
      ↔ ∃ info, Function.update s.managedBPerfEvents eg v eg' = some info ∧ info.muxId = g) :
    Inv s' := by
  refine ⟨hm, hkeys, fun eg' => ?_, fun eg' info' hinfo' => ?_, hmanaged ▸ hpaired⟩
  · rw [hmanaged]
    by_cases heq : eg' = eg
    · rw [heq, Function.update_self]
      exact hcount
    · rw [Function.update_of_ne heq, h.counted eg']
      exact hothers eg' heq
  · rw [hmanaged] at hinfo'
    by_cases heq : eg' = eg
    · rw [heq, Function.update_self] at hinfo'
      exact hpositive info' hinfo'
    · rw [Function.update_of_ne heq] at hinfo'
      exact h.positive eg' info' hinfo'

omit [DecidableEq PmuType] in
/-- A reader more, in the mux group of its group. -/
theorem Inv.retain (h : Inv s) {m : Monitor PmuType MuxGroupId ElemId} (hm : m.Inv)
    (hnew : Dict.get? s.bperfCountReaders k = none)
    (hmux : s.muxBPerfEventMap g = none ∧ s.managedBPerfEvents eg = none
      ∨ s.muxBPerfEventMap g = some eg) :
    Inv { s.retain g eg with
      monitor := m
      bperfCountReaders := s.bperfCountReaders ++ [(k, eg)] } := by
  have hid : ((s.managedBPerfEvents eg).getD ⟨g, 0⟩).muxId = g := by
    rcases hmux with ⟨-, hnone⟩ | hmux
    · rw [hnone]
      rfl
    · obtain ⟨info, hinfo, hid⟩ := (h.paired g eg).mp hmux
      rw [hinfo]
      exact hid
  have hcount : ((s.managedBPerfEvents eg).getD ⟨g, 0⟩).refCount = s.users eg := by
    rw [← h.counted eg]
    cases s.managedBPerfEvents eg <;> rfl
  have husers : ∀ eg', (s.bperfCountReaders ++ [(k, eg)]).countP (fun e => e.2 = eg') =
      s.users eg' + if eg = eg' then 1 else 0 := by
    intro eg'
    rw [List.countP_append, List.countP_singleton]
    simp only [decide_eq_true_eq]
    rfl
  refine h.recount hm ?_ rfl ?_ (fun eg' hne => ?_) (fun info' hinfo' => ?_) fun g' eg' => ?_
  · show ((s.bperfCountReaders ++ [(k, eg)]).map Prod.fst).Nodup
    rw [List.map_append, List.map_singleton, ← List.concat_eq_append, List.nodup_concat]
    refine ⟨fun hmem => ?_, h.keys⟩
    obtain ⟨e, he, heq⟩ := List.mem_map.mp hmem
    obtain rfl : e.1 = k := heq
    rw [Dict.get?, Dict.lookup_of_mem h.keys he] at hnew
    cases hnew
  · refine Eq.trans ?_ (husers eg).symm
    rw [if_pos rfl]
    exact congrArg (· + 1) hcount
  · refine Eq.trans ?_ (husers eg').symm
    rw [if_neg hne.symm, Nat.add_zero]
  · rw [← Option.some.inj hinfo']
    exact Nat.succ_ne_zero _
  · show Function.update s.muxBPerfEventMap g (some eg) g' = some eg' ↔ _
    by_cases heq : eg' = eg
    · subst heq
      rw [Function.update_self]
      by_cases hg : g' = g
      · subst hg
        rw [Function.update_self]
        exact iff_of_true rfl ⟨_, rfl, hid⟩
      · rw [Function.update_of_ne hg]
        refine iff_of_false (fun hmux' => ?_) ?_
        · obtain ⟨info', hinfo', hid'⟩ := (h.paired g' eg').mp hmux'
          rw [hinfo'] at hid
          exact hg (hid'.symm.trans hid)
        · rintro ⟨info', hinfo', hid'⟩
          rw [← Option.some.inj hinfo'] at hid'
          exact hg (hid'.symm.trans hid)
    · rw [Function.update_of_ne heq]
      by_cases hg : g' = g
      · subst hg
        rw [Function.update_self]
        refine iff_of_false (fun hsome => heq (Option.some.inj hsome).symm) ?_
        rintro ⟨info', hinfo', hid'⟩
        rcases hmux with ⟨hnone, -⟩ | hmux
        · have hsome := (h.paired g' eg').mpr ⟨info', hinfo', hid'⟩
          rw [hnone] at hsome
          cases hsome
        · exact heq (h.eq_of_muxId hmux hinfo' hid')
      · rw [Function.update_of_ne hg]
        exact h.paired g' eg'

omit [DecidableEq PmuType] [DecidableEq MuxGroupId] in
theorem Inv.users_drop (h : Inv s) (heg : Dict.get? s.bperfCountReaders k = some eg)
    (eg' : BPerfEventsGroup) :
    s.users eg' = (Dict.drop s.bperfCountReaders k).countP (fun e => e.2 = eg')
      + if eg = eg' then 1 else 0 := by
  rw [users, (Dict.perm_drop h.keys (Dict.mem_of_lookup heg)).countP_eq, List.countP_cons]
  simp only [decide_eq_true_eq]

omit [DecidableEq PmuType] [DecidableEq ElemId] in
/-- The mux group of a group that is dropped is free again. -/
theorem Inv.paired_none (h : Inv s) (hinfo : s.managedBPerfEvents eg = some info)
    (g' : MuxGroupId) (eg' : BPerfEventsGroup) :
    Function.update s.muxBPerfEventMap info.muxId none g' = some eg'
      ↔ ∃ info', Function.update s.managedBPerfEvents eg none eg' = some info' ∧ info'.muxId = g' := by
  have hmux := (h.paired info.muxId eg).mpr ⟨info, hinfo, rfl⟩
  by_cases heq : eg' = eg
  · subst heq
    rw [Function.update_self]
    refine iff_of_false (fun hmux' => ?_) fun ⟨_, hnone, _⟩ => nomatch hnone
    by_cases hg : g' = info.muxId
    · rw [hg, Function.update_self] at hmux'
      cases hmux'
    · rw [Function.update_of_ne hg] at hmux'
      obtain ⟨info', hinfo', hid'⟩ := (h.paired g' eg').mp hmux'
      rw [hinfo] at hinfo'
      exact hg (hid'.symm.trans (congrArg _ (Option.some.inj hinfo').symm))
  · rw [Function.update_of_ne heq]
    by_cases hg : g' = info.muxId
    · subst hg
      rw [Function.update_self]
      refine iff_of_false nofun ?_
      rintro ⟨info', hinfo', hid'⟩
      exact heq (h.eq_of_muxId hmux hinfo' hid')
    · rw [Function.update_of_ne hg]
      exact h.paired g' eg'

omit [DecidableEq PmuType] in
/-- A reader less. -/
theorem Inv.release (h : Inv s) {m : Monitor PmuType MuxGroupId ElemId} (hm : m.Inv)
    (heg : Dict.get? s.bperfCountReaders k = some eg)
    (hinfo : s.managedBPerfEvents eg = some info) :
    Inv { s.release eg info with
      monitor := m
      bperfCountReaders := Dict.drop s.bperfCountReaders k } := by
  have hkeys : ((Dict.drop s.bperfCountReaders k).map Prod.fst).Nodup :=
    (List.filter_sublist.map Prod.fst).nodup h.keys
  have hcount := h.count_eq hinfo
  have hmine := h.users_drop heg eg
  rw [if_pos rfl] at hmine
  have hother : ∀ eg', eg' ≠ eg →
      s.users eg' = (Dict.drop s.bperfCountReaders k).countP fun e => e.2 = eg' := by
    intro eg' hne
    rw [h.users_drop heg eg', if_neg hne.symm]
    rfl
  rw [BPerfMonitor.release]
  dsimp only
  split
  · rename_i hlast
    refine h.recount (v := none) hm hkeys rfl ?_ hother nofun (h.paired_none hinfo)
    show 0 = (Dict.drop s.bperfCountReaders k).countP _
    omega
  · rename_i hmore
    refine h.recount hm hkeys rfl ?_ hother (fun info' hinfo' => ?_) fun g' eg' => ?_
    · show info.refCount - 1 = (Dict.drop s.bperfCountReaders k).countP _
      omega
    · rw [← Option.some.inj hinfo']
      exact hmore
    · show s.muxBPerfEventMap g' = some eg' ↔ _
      rw [h.paired g' eg']
      by_cases heq : eg' = eg
      · subst heq
        rw [Function.update_self, hinfo]
        constructor
        · rintro ⟨info', hinfo', hid'⟩
          exact ⟨_, rfl, (congrArg _ (Option.some.inj hinfo')).trans hid'⟩
        · rintro ⟨info', hinfo', hid'⟩
          rw [← Option.some.inj hinfo'] at hid'
          exact ⟨info, rfl, hid'⟩
      · rw [Function.update_of_ne heq]

theorem Inv.step (h : Inv s) (hcall : s.Fitting call) : Inv (s.step call) := by
  cases call with
  | emplace g k bperfEg enables =>
    rcases step_emplace h.monitor g k bperfEg enables with
      hsame | ⟨eg, heg, hnew, henables, hmux, m, hm, hstep⟩
    · rw [hsame]
      exact h
    · rw [hstep]
      refine h.retain hm hnew (hmux.imp_left fun hnone => ⟨hnone, ?_⟩)
      exact hcall hnew henables hnone eg heg
  | erase g k =>
    cases heg : Dict.get? s.bperfCountReaders k with
    | none =>
      have hsame : s.step (.erase g k) = s := by
        rw [BPerfMonitor.step, perform, eraseBPerfCountReader, heg]
        rfl
      rw [hsame]
      exact h
    | some eg =>
      have hused : 0 < s.users eg :=
        List.countP_pos_iff.mpr ⟨(k, eg), Dict.mem_of_lookup heg, decide_eq_true rfl⟩
      obtain ⟨info, hinfo⟩ : ∃ info, s.managedBPerfEvents eg = some info :=
        Option.ne_none_iff_exists'.mp fun hnone => hused.ne' ((h.right.dropped eg).mp hnone)
      obtain ⟨m, hm, hstep⟩ := step_erase h.monitor heg hinfo (hcall (by rw [heg]; rfl))
      rw [hstep]
      exact h.release hm heg hinfo

/-- **No pointer dangles** throughout every run of calls that fit. -/
theorem noneDangling (muxQueuePerPmuType : Bool) (calls : List (Call MuxGroupId ElemId BPerfEventsGroup))
    (hcalls : Run.Along step Fitting
      (init muxQueuePerPmuType : BPerfMonitor PmuType MuxGroupId ElemId BPerfEventsGroup) calls) :
    Run.Throughout step Right
      (init muxQueuePerPmuType : BPerfMonitor PmuType MuxGroupId ElemId BPerfEventsGroup) calls :=
  (Run.throughout_of_along (fun _ _ h hcall => h.step hcall) (inv_init muxQueuePerPmuType)
    hcalls).mono fun _ h => h.right

/-- Two readers share a group and its mux group, and are erased from it. -/
def shared : List (Call ℕ ℕ ℕ) :=
  [.emplace 0 10 (some 7) true, .emplace 0 11 (some 7) true, .erase 0 10, .erase 0 11]

theorem noneDangling_shared :
    Run.Throughout step Right (init false : BPerfMonitor ℕ ℕ ℕ ℕ) shared := by
  refine noneDangling false shared ⟨?_, ?_, ?_, ?_, trivial⟩
  · rintro - - - eg -
    rfl
  · rintro - - hnone
    exact absurd hnone (by decide)
  · exact fun _ => ⟨[10, 11], by decide, by decide⟩
  · exact fun _ => ⟨[11], by decide, by decide⟩

/-- Two readers use a group in different mux groups. -/
def twoMuxGroups : List (Call ℕ ℕ ℕ) :=
  [.emplace 0 10 (some 7) true, .emplace 1 11 (some 7) true, .erase 0 10, .erase 1 11]

/-- A reader is erased from another mux group. -/
def otherMuxGroup : List (Call ℕ ℕ ℕ) := [.emplace 0 10 (some 7) true, .erase 1 10]

/-- All calls are accepted, and with all readers gone the group is still multiplexed.  And a
reader that is not erased is counted out. -/
theorem not_noneDangling_twoMuxGroups :
    (Run.Along step (fun s call => (s.perform call).toOption.any (·.1) = true)
        (init false : BPerfMonitor ℕ ℕ ℕ ℕ) twoMuxGroups
      ∧ ¬ Run.Throughout step Right (init false : BPerfMonitor ℕ ℕ ℕ ℕ) twoMuxGroups)
      ∧ ¬ Run.Throughout step Right (init false : BPerfMonitor ℕ ℕ ℕ ℕ) otherMuxGroup := by
  refine ⟨⟨by decide, fun h => ?_⟩, fun h => ?_⟩
  · have hstored := h.last.stored 1 7 (by decide)
    exact absurd hstored (by decide)
  · have hdropped := (h.last.dropped 7).mp (by decide)
    exact absurd hdropped (by decide)

end BPerfMonitor

end Mon
end IntegratedCLI
