import IntegratedCLI.Lib.Effect
import IntegratedCLI.Mon.BPerf

/-!
# Changes of readers that fail

A reader is emplaced or erased in several writes, to its mux group, to the queue of the
group, to a map of readers and, for a reader of `bperf`, to the two maps of groups of
events.  Between the writes the call can fail, and what was written stays written.  The
methods are here as computations with a state that survives an exception, in the order of
the source.

What a call meets outside the monitor is an argument: whether the reader can be made and
enabled, and whether `sync_` goes through, the first time for the mux entry and the second
time at the end.  What `sync_` does to the elements changes none of the maps and is left
out.

`FailsEarly` says that a call does not fail after its first write, or that the write was of
what was there.  A call that fails leaves the monitor as it was exactly then
(`unchanged_iff`).  Two failures come late in a sound monitor: a reader that cannot be made
leaves its mux entry, and a reader of `bperf` that is erased from a wrong mux group is
counted out (`not_unchanged`).
-/

namespace IntegratedCLI
namespace Mon
namespace Raising

open Effect

inductive ChangeFailure where
  | refused (failure : Failure)
  | bperf (failure : BPerfFailure)
  /-- The reader cannot be made. -/
  | construction
  /-- An element cannot be brought in line. -/
  | sync
  deriving DecidableEq, Repr

/-- What a call meets outside the monitor. -/
structure Surroundings where
  constructs : Bool
  enables : Bool
  syncsEntry : Bool
  syncs : Bool
  deriving DecidableEq, Repr

variable {PmuType MuxGroupId ElemId BPerfEventsGroup : Type} [DecidableEq PmuType]
  [DecidableEq MuxGroupId] [DecidableEq ElemId]

/-! ## The methods -/

section Methods

/-- A method of the monitor. -/
abbrev Method (PmuType MuxGroupId ElemId BPerfEventsGroup : Type) :=
  EStateM ChangeFailure (BPerfMonitor PmuType MuxGroupId ElemId BPerfEventsGroup)

/-- A step that the surroundings let through. -/
def pass (goes : Bool) (failure : ChangeFailure) :
    Method PmuType MuxGroupId ElemId BPerfEventsGroup Unit :=
  if goes then pure () else throw failure

/-- The ids of a group; a group that is not there has none. -/
def members (s : BPerfMonitor PmuType MuxGroupId ElemId BPerfEventsGroup) (g : MuxGroupId) :
    List ElemId :=
  (s.monitor.muxGroups g).getD []

/-- The monitor with an element in a group. -/
def withEntry (s : BPerfMonitor PmuType MuxGroupId ElemId BPerfEventsGroup) (g : MuxGroupId)
    (k : ElemId) (p : Option PmuType) : BPerfMonitor PmuType MuxGroupId ElemId BPerfEventsGroup :=
  let ids := members s g
  { s with monitor := { s.monitor with
      muxQueue := if ids = [] then s.monitor.pushGroup p g else s.monitor.muxQueue
      muxGroups := Function.update s.monitor.muxGroups g
        (some (if k ∈ ids then ids else ids ++ [k])) } }

def addMuxEntry (g : MuxGroupId) (k : ElemId) (p : Option PmuType) (syncs : Bool) :
    Method PmuType MuxGroupId ElemId BPerfEventsGroup Unit := do
  modify fun s => withEntry s g k p
  pass syncs .sync

/-- The monitor with a group of other ids, or without it. -/
def withGroup (s : BPerfMonitor PmuType MuxGroupId ElemId BPerfEventsGroup) (g : MuxGroupId)
    (ids : Option (List ElemId)) : BPerfMonitor PmuType MuxGroupId ElemId BPerfEventsGroup :=
  { s with monitor := { s.monitor with muxGroups := Function.update s.monitor.muxGroups g ids } }

/-- The monitor with a group in no queue. -/
def withoutQueued (s : BPerfMonitor PmuType MuxGroupId ElemId BPerfEventsGroup)
    (g : MuxGroupId) : BPerfMonitor PmuType MuxGroupId ElemId BPerfEventsGroup :=
  { s with monitor := { s.monitor with
      muxQueue := s.monitor.muxQueue.map fun q => (q.1, q.2.erase g) } }

/-- Whether a group is in a queue. -/
def isQueued (s : BPerfMonitor PmuType MuxGroupId ElemId BPerfEventsGroup) (g : MuxGroupId) :
    Bool :=
  s.monitor.muxQueue.any fun q => g ∈ q.2

def removeMuxEntry (g : MuxGroupId) (k : ElemId) (syncs : Bool) :
    Method PmuType MuxGroupId ElemId BPerfEventsGroup Bool := do
  let ids := members (← get) g
  if k ∉ ids then return false
  modify fun s => withGroup s g (some (ids.erase k))
  if ids.erase k = [] then
    modify fun s => withGroup s g none
    let removed := isQueued (← get) g
    modify fun s => withoutQueued s g
    pass removed (.refused .notInMuxQueue)
  pass syncs .sync
  return true

/-- The monitor with a container of other elements. -/
def withElems (s : BPerfMonitor PmuType MuxGroupId ElemId BPerfEventsGroup) (kind : Kind)
    (d : Container ElemId) : BPerfMonitor PmuType MuxGroupId ElemId BPerfEventsGroup :=
  { s with monitor := { s.monitor with elems := Function.update s.monitor.elems kind d } }

/-- Emplace an element in a container, and in a group. -/
def emplace (kind : Kind) (g : MuxGroupId) (k : ElemId)
    (pmuType : Monitor PmuType MuxGroupId ElemId → Except Failure (Option PmuType))
    (elem : Element) (b : Surroundings) :
    Method PmuType MuxGroupId ElemId BPerfEventsGroup Bool := do
  let s ← get
  if (Dict.get? (s.monitor.elems kind) k).isSome then throw (.refused .alreadyThere)
  let p ← lift ((pmuType s.monitor).mapError .refused)
  addMuxEntry g k p b.syncsEntry
  pass b.constructs .construction
  modify fun s => withElems s kind (Dict.put (s.monitor.elems kind) k elem)
  pass b.syncs .sync
  return true

def emplaceCpuCountReader (g : MuxGroupId) (k : ElemId) (pmuTypes : List PmuType)
    (elem : Element) (b : Surroundings) :
    Method PmuType MuxGroupId ElemId BPerfEventsGroup Bool :=
  emplace .cpuCountReaders g k (fun m => m.getPmuTypeOfMetric pmuTypes) elem b

/-- An exception is caught, and no reader is returned. -/
def emplaceUncoreCountReader (g : MuxGroupId) (k : ElemId) (pmuTypes : List PmuType)
    (elem : Element) (b : Surroundings) :
    Method PmuType MuxGroupId ElemId BPerfEventsGroup Bool :=
  tryCatch (emplace .uncoreCountReaders g k (fun m => m.getPmuTypeOfMetric pmuTypes) elem b)
    fun _ => pure false

def emplaceIptMonitor (g : MuxGroupId) (k : ElemId) (elem : Element) (b : Surroundings) :
    Method PmuType MuxGroupId ElemId BPerfEventsGroup Bool :=
  emplace .iptMonitors g k (fun _ => pure none) elem b

/-- Erase an element from its group and its container. -/
def erase (kind : Kind) (g : MuxGroupId) (k : ElemId) (b : Surroundings) :
    Method PmuType MuxGroupId ElemId BPerfEventsGroup Bool := do
  let s ← get
  if (Dict.get? (s.monitor.elems kind) k).isNone then return false
  if !(← removeMuxEntry g k b.syncsEntry) then return false
  modify fun s => withElems s kind (Dict.drop (s.monitor.elems kind) k)
  pass b.syncs .sync
  return true

def eraseCpuCountReader (g : MuxGroupId) (k : ElemId) (b : Surroundings) :
    Method PmuType MuxGroupId ElemId BPerfEventsGroup Bool :=
  erase .cpuCountReaders g k b

def eraseUncoreCountReader (g : MuxGroupId) (k : ElemId) (b : Surroundings) :
    Method PmuType MuxGroupId ElemId BPerfEventsGroup Bool :=
  erase .uncoreCountReaders g k b

/-- The monitor with other readers of groups. -/
def withReaders (s : BPerfMonitor PmuType MuxGroupId ElemId BPerfEventsGroup)
    (d : List (ElemId × BPerfEventsGroup)) :
    BPerfMonitor PmuType MuxGroupId ElemId BPerfEventsGroup :=
  { s with bperfCountReaders := d }

variable [DecidableEq BPerfEventsGroup]

def emplaceBPerfCountReader (g : MuxGroupId) (k : ElemId) (bperfEg : Option BPerfEventsGroup)
    (b : Surroundings) : Method PmuType MuxGroupId ElemId BPerfEventsGroup Bool := do
  let s ← get
  if (Dict.get? s.bperfCountReaders k).isSome then throw (.bperf .alreadyThere)
  match bperfEg with
  | none => throw (.bperf .noGroup)
  | some eg =>
    if ¬ (s.muxBPerfEventMap g = none ∨ s.muxBPerfEventMap g = some eg) then
      throw (.bperf .otherMuxGroup)
    pass b.constructs .construction
    if !b.enables then return false
    addMuxEntry g k none b.syncsEntry
    modify fun s => withReaders s (s.bperfCountReaders ++ [(k, eg)])
    modify fun s => s.retain g eg
    pass b.syncs .sync
    return true

def eraseBPerfCountReader (g : MuxGroupId) (k : ElemId) (b : Surroundings) :
    Method PmuType MuxGroupId ElemId BPerfEventsGroup Bool := do
  let s ← get
  match Dict.get? s.bperfCountReaders k with
  | none => return false
  | some eg =>
    match s.managedBPerfEvents eg with
    | none => throw (.bperf .missing)
    | some info =>
      modify fun s => s.release eg info
      if !(← removeMuxEntry g k b.syncsEntry) then return false
      modify fun s => withReaders s (Dict.drop s.bperfCountReaders k)
      pass b.syncs .sync
      return true

end Methods

/-! ## Calls -/

/-- A call that emplaces or erases a reader. -/
inductive Change (PmuType MuxGroupId ElemId BPerfEventsGroup : Type) where
  | emplaceCpuCountReader (g : MuxGroupId) (k : ElemId) (pmuTypes : List PmuType)
      (elem : Element) (b : Surroundings)
  | eraseCpuCountReader (g : MuxGroupId) (k : ElemId) (b : Surroundings)
  | emplaceUncoreCountReader (g : MuxGroupId) (k : ElemId) (pmuTypes : List PmuType)
      (elem : Element) (b : Surroundings)
  | eraseUncoreCountReader (g : MuxGroupId) (k : ElemId) (b : Surroundings)
  | emplaceIptMonitor (g : MuxGroupId) (k : ElemId) (elem : Element) (b : Surroundings)
  | emplaceBPerfCountReader (g : MuxGroupId) (k : ElemId) (bperfEg : Option BPerfEventsGroup)
      (b : Surroundings)
  | eraseBPerfCountReader (g : MuxGroupId) (k : ElemId) (b : Surroundings)

/-- The method that a call runs. -/
def perform [DecidableEq BPerfEventsGroup] : Change PmuType MuxGroupId ElemId BPerfEventsGroup →
    Method PmuType MuxGroupId ElemId BPerfEventsGroup Bool
  | .emplaceCpuCountReader g k pmuTypes elem b => emplaceCpuCountReader g k pmuTypes elem b
  | .eraseCpuCountReader g k b => eraseCpuCountReader g k b
  | .emplaceUncoreCountReader g k pmuTypes elem b => emplaceUncoreCountReader g k pmuTypes elem b
  | .eraseUncoreCountReader g k b => eraseUncoreCountReader g k b
  | .emplaceIptMonitor g k elem b => emplaceIptMonitor g k elem b
  | .emplaceBPerfCountReader g k bperfEg b => emplaceBPerfCountReader g k bperfEg b
  | .eraseBPerfCountReader g k b => eraseBPerfCountReader g k b

/-- A call throws, or reports that nothing was done. -/
def Fails : Except ChangeFailure Bool → Prop
  | .ok done => done = false
  | .error _ => True

/-- A call that fails leaves the monitor as it was. -/
def Untouched (m : Method PmuType MuxGroupId ElemId BPerfEventsGroup Bool)
    (s : BPerfMonitor PmuType MuxGroupId ElemId BPerfEventsGroup) : Prop :=
  Fails (result m s) → after m s = s

variable {s : BPerfMonitor PmuType MuxGroupId ElemId BPerfEventsGroup} {g : MuxGroupId}
  {k : ElemId} {p : Option PmuType} {b : Surroundings}

/-! ## When nothing fails after the first write -/

/-- An element that is put in the group goes through to the end, or it was in the group. -/
def EntryGoes (s : BPerfMonitor PmuType MuxGroupId ElemId BPerfEventsGroup) (g : MuxGroupId)
    (k : ElemId) (made syncs : Bool) : Prop :=
  if made then syncs = true else k ∈ members s g

/-- A group that is left empty is in a queue. -/
def Dequeues (s : BPerfMonitor PmuType MuxGroupId ElemId BPerfEventsGroup) (g : MuxGroupId)
    (k : ElemId) : Prop := (members s g).erase k = [] → isQueued s g = true

instance (s : BPerfMonitor PmuType MuxGroupId ElemId BPerfEventsGroup) (g : MuxGroupId)
    (k : ElemId) : Decidable (Dequeues s g k) := inferInstanceAs (Decidable (_ → _))

/-- An element that is taken from its group goes through to the end. -/
def ExitGoes (s : BPerfMonitor PmuType MuxGroupId ElemId BPerfEventsGroup) (g : MuxGroupId)
    (k : ElemId) (b : Surroundings) : Prop :=
  Dequeues s g k ∧ b.syncsEntry = true ∧ b.syncs = true

/-- If the call gets to its first write, then it goes through to the end, or it has written
only what was there. -/
def FailsEarly (s : BPerfMonitor PmuType MuxGroupId ElemId BPerfEventsGroup) :
    Change PmuType MuxGroupId ElemId BPerfEventsGroup → Prop
  | .emplaceCpuCountReader g k pmuTypes _ b =>
    Dict.get? (s.monitor.elems .cpuCountReaders) k = none →
      (∃ p, s.monitor.getPmuTypeOfMetric pmuTypes = .ok p) →
        EntryGoes s g k (b.syncsEntry && b.constructs) b.syncs
  | .emplaceUncoreCountReader g k pmuTypes _ b =>
    Dict.get? (s.monitor.elems .uncoreCountReaders) k = none →
      (∃ p, s.monitor.getPmuTypeOfMetric pmuTypes = .ok p) →
        EntryGoes s g k (b.syncsEntry && b.constructs) b.syncs
  | .emplaceIptMonitor g k _ b =>
    Dict.get? (s.monitor.elems .iptMonitors) k = none →
      EntryGoes s g k (b.syncsEntry && b.constructs) b.syncs
  | .eraseCpuCountReader g k b =>
    (Dict.get? (s.monitor.elems .cpuCountReaders) k).isSome → k ∈ members s g → ExitGoes s g k b
  | .eraseUncoreCountReader g k b =>
    (Dict.get? (s.monitor.elems .uncoreCountReaders) k).isSome → k ∈ members s g →
      ExitGoes s g k b
  | .emplaceBPerfCountReader g k bperfEg b =>
    Dict.get? s.bperfCountReaders k = none →
      (∃ eg ∈ bperfEg, s.muxBPerfEventMap g = none ∨ s.muxBPerfEventMap g = some eg) →
        b.constructs = true → b.enables = true → EntryGoes s g k b.syncsEntry b.syncs
  | .eraseBPerfCountReader g k b =>
    (∃ eg, Dict.get? s.bperfCountReaders k = some eg
        ∧ (s.managedBPerfEvents eg).isSome = true) →
      k ∈ members s g ∧ ExitGoes s g k b

/-! ## The writes of the mux entries -/

section Writes

omit [DecidableEq PmuType] [DecidableEq MuxGroupId] [DecidableEq ElemId] in
@[simp] theorem outcome_pass {goes : Bool} {failure : ChangeFailure}
    {Q : Unit → BPerfMonitor PmuType MuxGroupId ElemId BPerfEventsGroup → Prop}
    {E : ChangeFailure → BPerfMonitor PmuType MuxGroupId ElemId BPerfEventsGroup → Prop} :
    Outcome (pass goes failure) Q E s ↔ if goes then Q () s else E failure s := by
  cases goes with
  | true => exact Iff.rfl
  | false => exact Iff.rfl

omit [DecidableEq PmuType] [DecidableEq MuxGroupId] [DecidableEq ElemId] in
theorem untouched_iff {m : Method PmuType MuxGroupId ElemId BPerfEventsGroup Bool} :
    Untouched m s ↔ Outcome m (fun done s' => done = false → s' = s) (fun _ s' => s' = s) s := by
  have h := outcome_result (m := m) (s := s) (P := fun r s' => Fails r → s' = s)
  refine h.symm.trans ⟨fun h => ?_, fun h => ?_⟩
  · exact h.mono (fun _ _ h => h) (fun _ _ h => h trivial)
  · exact h.mono (fun _ _ h => h) (fun _ _ h _ => h)

theorem members_withEntry :
    members (withEntry s g k p) g
      = if k ∈ members s g then members s g else members s g ++ [k] := by
  simp only [members, withEntry, Function.update_self, Option.getD_some]

/-- An element that is added changes the monitor unless it was in the group. -/
theorem withEntry_eq_iff : withEntry s g k p = s ↔ k ∈ members s g := by
  constructor
  · intro h
    by_contra hk
    have hg := members_withEntry (s := s) (g := g) (k := k) (p := p)
    rw [h, if_neg hk] at hg
    simpa using congrArg List.length hg
  · intro hk
    have hne : members s g ≠ [] := List.ne_nil_of_mem hk
    have hs : s.monitor.muxGroups g = some (members s g) := by
      unfold members at hne ⊢
      cases hg : s.monitor.muxGroups g with
      | none => simp [hg] at hne
      | some ids => rfl
    simp only [withEntry, if_pos hk, if_neg hne, ← hs, Function.update_eq_self]

theorem outcome_addMuxEntry {syncs : Bool}
    {Q : Unit → BPerfMonitor PmuType MuxGroupId ElemId BPerfEventsGroup → Prop}
    {E : ChangeFailure → BPerfMonitor PmuType MuxGroupId ElemId BPerfEventsGroup → Prop} :
    Outcome (addMuxEntry g k p syncs) Q E s
      ↔ if syncs then Q () (withEntry s g k p) else E .sync (withEntry s g k p) := by
  rw [addMuxEntry, outcome_bind, outcome_modify, outcome_pass]

/-- The monitor with an element out of its group. -/
def taken (s : BPerfMonitor PmuType MuxGroupId ElemId BPerfEventsGroup) (g : MuxGroupId)
    (k : ElemId) : BPerfMonitor PmuType MuxGroupId ElemId BPerfEventsGroup :=
  let left := withGroup s g (some ((members s g).erase k))
  if (members s g).erase k = [] then withoutQueued (withGroup left g none) g else left

omit [DecidableEq PmuType] in
theorem members_taken : members (taken s g k) g = (members s g).erase k := by
  by_cases h : (members s g).erase k = []
  · rw [taken, if_pos h, h]
    simp [members, withoutQueued, withGroup]
  · rw [taken, if_neg h]
    simp [members, withGroup]

omit [DecidableEq PmuType] in
theorem members_taken_ne (hk : k ∈ members s g) : members (taken s g k) g ≠ members s g := by
  intro h
  rw [members_taken] at h
  have hlen := congrArg List.length h
  rw [List.length_erase_of_mem hk] at hlen
  have := List.length_pos_of_mem hk
  omega

omit [DecidableEq PmuType] in
theorem outcome_removeMuxEntry {syncs : Bool}
    {Q : Bool → BPerfMonitor PmuType MuxGroupId ElemId BPerfEventsGroup → Prop}
    {E : ChangeFailure → BPerfMonitor PmuType MuxGroupId ElemId BPerfEventsGroup → Prop} :
    Outcome (removeMuxEntry g k syncs) Q E s
      ↔ if k ∈ members s g then
          if Dequeues s g k then
            if syncs then Q true (taken s g k) else E .sync (taken s g k)
          else E (.refused .notInMuxQueue) (taken s g k)
        else Q false s := by
  rw [removeMuxEntry, outcome_bind, outcome_get]
  dsimp only
  by_cases hk : k ∈ members s g
  · rw [if_neg (not_not.mpr hk), if_pos hk]
    by_cases hempty : (members s g).erase k = []
    · have hqueued : isQueued (withGroup (withGroup s g (some [])) g none) g = isQueued s g := rfl
      have hleaves : Dequeues s g k ↔ isQueued s g = true := by simp [Dequeues, hempty]
      rw [taken, if_pos hempty]
      simp only [hempty, if_true, outcome_bind, outcome_modify, outcome_get, outcome_pass,
        outcome_pure, hqueued, hleaves]
    · rw [taken, if_neg hempty]
      simp [hempty, Dequeues]
  · rw [if_pos hk, if_neg hk]
    exact Iff.rfl

end Writes

/-! ## Each method -/

section Each

variable {kind : Kind} {elem : Element} {bperfEg : Option BPerfEventsGroup}

/-- A new element changes its container. -/
theorem withElems_put_ne (g : MuxGroupId) (p : Option PmuType) (elem : Element)
    (h : Dict.get? (s.monitor.elems kind) k = none) :
    withElems (withEntry s g k p) kind
        (Dict.put ((withEntry s g k p).monitor.elems kind) k elem) ≠ s := by
  intro hs
  have hget := congrArg (fun s => (s.monitor.elems kind).lookup k) hs
  simp only [withElems, Function.update_self, Dict.lookup_put_self] at hget
  rw [show (s.monitor.elems kind).lookup k = none from h] at hget
  cases hget

theorem untouched_emplace
    (pmuType : Monitor PmuType MuxGroupId ElemId → Except Failure (Option PmuType)) :
    Untouched (emplace kind g k pmuType elem b) s
    ↔ (Dict.get? (s.monitor.elems kind) k = none → (∃ p, pmuType s.monitor = .ok p) →
        EntryGoes s g k (b.syncsEntry && b.constructs) b.syncs) := by
  rw [untouched_iff, emplace, outcome_bind, outcome_get]
  cases hdup : Dict.get? (s.monitor.elems kind) k with
  | some e => simp
  | none =>
    rw [if_neg (by simp)]
    cases hp : pmuType s.monitor with
    | error e => simp [Except.mapError]
    | ok p =>
      have hne := withElems_put_ne g p elem hdup
      cases b.syncsEntry with
      | false => simp [Except.mapError, outcome_addMuxEntry, EntryGoes, withEntry_eq_iff]
      | true =>
        cases b.constructs <;>
          simp [Except.mapError, outcome_addMuxEntry, EntryGoes, withEntry_eq_iff, hne]

/-- The exception is caught after what it leaves is written. -/
theorem untouched_emplaceUncoreCountReader {pmuTypes : List PmuType} :
    Untouched (emplaceUncoreCountReader g k pmuTypes elem b) s
      ↔ Untouched (emplace .uncoreCountReaders g k (fun m => m.getPmuTypeOfMetric pmuTypes) elem b)
          s := by
  rw [untouched_iff, untouched_iff, emplaceUncoreCountReader, outcome_tryCatch]
  simp only [outcome_pure, true_implies]

omit [DecidableEq PmuType] in
theorem untouched_erase : Untouched (erase kind g k b) s
    ↔ ((Dict.get? (s.monitor.elems kind) k).isSome → k ∈ members s g → ExitGoes s g k b) := by
  rw [untouched_iff, erase, outcome_bind, outcome_get]
  cases hget : Dict.get? (s.monitor.elems kind) k with
  | none => simp
  | some e =>
    rw [if_neg (by simp), outcome_bind, outcome_removeMuxEntry]
    by_cases hk : k ∈ members s g
    · have hleft : ∀ s', members s' g = members (taken s g k) g → s' ≠ s :=
        fun s' h hs => members_taken_ne hk (h ▸ hs ▸ rfl)
      have htaken : taken s g k ≠ s := hleft _ rfl
      have helems : ∀ d, withElems (taken s g k) kind d ≠ s := fun d => hleft _ rfl
      by_cases hqueued : Dequeues s g k
      · cases hentry : b.syncsEntry <;> simp [ExitGoes, hk, hqueued, hentry, htaken, helems]
      · simp [ExitGoes, hk, hqueued, htaken]
    · simp [hk]

variable [DecidableEq BPerfEventsGroup]

theorem untouched_emplaceBPerfCountReader : Untouched (emplaceBPerfCountReader g k bperfEg b) s
    ↔ (Dict.get? s.bperfCountReaders k = none →
        (∃ eg ∈ bperfEg, s.muxBPerfEventMap g = none ∨ s.muxBPerfEventMap g = some eg) →
          b.constructs = true → b.enables = true → EntryGoes s g k b.syncsEntry b.syncs) := by
  rw [untouched_iff, emplaceBPerfCountReader, outcome_bind, outcome_get]
  cases hdup : Dict.get? s.bperfCountReaders k with
  | some eg => simp
  | none =>
    rw [if_neg (by simp)]
    cases bperfEg with
    | none => simp
    | some eg =>
      have hne : ∀ s' : BPerfMonitor PmuType MuxGroupId ElemId BPerfEventsGroup,
          s'.bperfCountReaders = s.bperfCountReaders ++ [(k, eg)] → s' ≠ s := by
        intro s' h hs
        rw [hs] at h
        simpa using congrArg List.length h
      have hretain : (withReaders (withEntry s g k none)
          ((withEntry s g k none).bperfCountReaders ++ [(k, eg)])).retain g eg ≠ s := hne _ rfl
      by_cases hmux : s.muxBPerfEventMap g = none ∨ s.muxBPerfEventMap g = some eg
      · cases b.constructs <;> cases b.enables <;> cases b.syncsEntry <;>
          simp [hmux, outcome_addMuxEntry, EntryGoes, withEntry_eq_iff, hretain]
      · simp [hmux]

omit [DecidableEq PmuType] [DecidableEq ElemId] in
/-- A group that is counted once less is not as it was. -/
theorem release_ne {eg : BPerfEventsGroup} {info : ManagedBPerfEventInfo MuxGroupId}
    (h : s.managedBPerfEvents eg = some info) :
    (s.release eg info).managedBPerfEvents ≠ s.managedBPerfEvents := by
  intro hs
  have hat := congrFun hs eg
  rw [h] at hat
  simp only [BPerfMonitor.release] at hat
  split at hat
  · simp at hat
  · rename_i hcount
    simp only [Function.update_self, Option.some_inj] at hat
    have := congrArg ManagedBPerfEventInfo.refCount hat
    dsimp only at this hcount
    omega

omit [DecidableEq PmuType] in
theorem untouched_eraseBPerfCountReader : Untouched (eraseBPerfCountReader g k b) s
    ↔ ((∃ eg, Dict.get? s.bperfCountReaders k = some eg
          ∧ (s.managedBPerfEvents eg).isSome = true) →
        k ∈ members s g ∧ ExitGoes s g k b) := by
  rw [untouched_iff, eraseBPerfCountReader, outcome_bind, outcome_get]
  cases hget : Dict.get? s.bperfCountReaders k with
  | none => simp
  | some eg =>
    cases hinfo : s.managedBPerfEvents eg with
    | none => simp [hinfo]
    | some info =>
      have hkept : (s.release eg info).monitor = s.monitor := by
        rw [BPerfMonitor.release]
        split <;> rfl
      have hmembers : members (s.release eg info) g = members s g := by
        rw [members, members, hkept]
      have hdequeues : Dequeues (s.release eg info) g k ↔ Dequeues s g k := by
        rw [Dequeues, Dequeues, hmembers, isQueued, isQueued, hkept]
      have hleft : ∀ s' : BPerfMonitor PmuType MuxGroupId ElemId BPerfEventsGroup,
          s'.managedBPerfEvents = (s.release eg info).managedBPerfEvents → s' ≠ s :=
        fun s' h hs => release_ne hinfo (h ▸ hs ▸ rfl)
      have hmanaged : (taken (s.release eg info) g k).managedBPerfEvents
          = (s.release eg info).managedBPerfEvents := by
        rw [taken]
        split <;> rfl
      have hreleased : s.release eg info ≠ s := hleft _ rfl
      have htaken : taken (s.release eg info) g k ≠ s := hleft _ hmanaged
      have hdropped : withReaders (taken (s.release eg info) g k)
          (Dict.drop (taken (s.release eg info) g k).bperfCountReaders k) ≠ s := hleft _ hmanaged
      by_cases hk : k ∈ members s g
      · by_cases hqueued : Dequeues s g k
        · cases hentry : b.syncsEntry <;>
            simp [hinfo, outcome_removeMuxEntry, hmembers, hdequeues, hk, hqueued, htaken,
              hdropped, ExitGoes, hentry]
        · simp [hinfo, outcome_removeMuxEntry, hmembers, hdequeues, hk, hqueued, htaken, ExitGoes]
      · simp [hinfo, outcome_removeMuxEntry, hmembers, hk, hreleased]

end Each

/-! ## Every call -/

/-- A call that fails leaves the monitor as it was if and only if it fails early. -/
theorem unchanged_iff [DecidableEq BPerfEventsGroup]
    (s : BPerfMonitor PmuType MuxGroupId ElemId BPerfEventsGroup)
    (call : Change PmuType MuxGroupId ElemId BPerfEventsGroup) :
    (Fails (result (perform call) s) → after (perform call) s = s) ↔ FailsEarly s call := by
  cases call with
  | emplaceCpuCountReader g k pmuTypes elem b =>
    exact untouched_emplace fun m => m.getPmuTypeOfMetric pmuTypes
  | eraseCpuCountReader g k b => exact untouched_erase
  | emplaceUncoreCountReader g k pmuTypes elem b =>
    exact untouched_emplaceUncoreCountReader.trans
      (untouched_emplace fun m => m.getPmuTypeOfMetric pmuTypes)
  | eraseUncoreCountReader g k b => exact untouched_erase
  | emplaceIptMonitor g k elem b =>
    refine (untouched_emplace fun _ => pure none).trans ⟨fun h hnew => ?_, fun h hnew _ => ?_⟩
    · exact h hnew ⟨none, rfl⟩
    · exact h hnew
  | emplaceBPerfCountReader g k bperfEg b => exact untouched_emplaceBPerfCountReader
  | eraseBPerfCountReader g k b => exact untouched_eraseBPerfCountReader

/-- A reader that cannot be made leaves its entry in a new monitor, and the only reader of
`bperf`, erased from a mux group that it is not in, is counted out. -/
theorem not_unchanged :
    let s : BPerfMonitor ℕ ℕ ℕ ℕ := .init false
    let fine : Surroundings := ⟨true, true, true, true⟩
    let elem : Element := ⟨⟨0, .closed⟩, []⟩
    let call := Change.emplaceCpuCountReader 0 7 [] elem { fine with constructs := false }
    let s' := after (perform (.emplaceBPerfCountReader 0 7 (some 5) fine)) s
    let call' := Change.eraseBPerfCountReader 1 7 fine
    (Fails (result (perform call) s) ∧ after (perform call) s ≠ s)
      ∧ Fails (result (perform call') s') ∧ after (perform call') s' ≠ s' := by
  refine ⟨⟨trivial, fun h => ?_⟩, rfl, fun h => ?_⟩
  · have hgroup := congrArg (fun s => s.monitor.muxGroups 0) h
    revert hgroup
    decide
  · have hcount := congrArg (fun s => s.managedBPerfEvents 5) h
    revert hcount
    decide

end Raising
end Mon
end IntegratedCLI
