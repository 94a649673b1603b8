import IntegratedCLI.Lib.Run
import IntegratedCLI.Dynolog.CPUTimeMonitor

/-!
# Reading past the idle counters

A tick decides before it takes the lock whether it reads the counters of the single
cores, and uses the allotments that are there once it has the lock.  Registrations may
come in between, and a registration is itself two steps: the check under the shared lock
and the insertion.

`Interleaved` is a monitor with a tick that has read and not computed yet, if there is
one, and with the registrations that have passed the check.  `InRange` says of a step that
no counter is read that is not there.

`Covered` is the condition.  `inRange_iff` says that it is exact, step by step, in every
interleaving of calls that name cores of the machine.
-/

namespace IntegratedCLI
namespace Dynolog

section

variable {α β : Type} {f : β → α → Option β} {P : α → Prop}

/-- A fold is there when each of its rounds is, whatever the accumulator is. -/
theorem isSome_foldlM (hf : ∀ b a, (f b a).isSome = true ↔ P a) (as : List α) (b : β) :
    (as.foldlM f b).isSome = true ↔ ∀ a ∈ as, P a := by
  induction as generalizing b with
  | nil => exact iff_of_true rfl fun a ha => nomatch ha
  | cons a as ih =>
    rw [List.foldlM_cons, List.forall_mem_cons, ← hf b a]
    cases hb : f b a with
    | none => simp
    | some b' => simpa using ih b'

end

namespace CPUTimeMonitor

variable {m m' : CPUTimeMonitor} {idleTime : List UInt64} {gran : Granularity}
  {lo hi : TimePoint} {mask : TMask}

/-- The indices of the counters that an allotment needs. -/
def indices (cpuSet : List ℤ) : List ℤ := if cpuSet = [] then [0] else cpuSet.map (· + 1)

/-- The counters of an allotment are there. -/
def Readable (idleTime : List UInt64) (cpuSet : List ℤ) : Prop :=
  ∀ idx ∈ indices cpuSet, 0 ≤ idx ∧ idx < idleTime.length

theorem isSome_idleAt {idx : ℤ} :
    (idleAt idleTime idx).isSome = true ↔ 0 ≤ idx ∧ idx < idleTime.length := by
  rw [idleAt]
  split
  · rw [isSome_getElem?]
    omega
  · exact iff_of_false nofun (by omega)

theorem isSome_readAllotment (cpuSet : List ℤ) :
    (m.readAllotment idleTime cpuSet).isSome = true ↔ Readable idleTime cpuSet := by
  rw [readAllotment, Readable, indices]
  split
  · rw [Option.isSome_map, isSome_idleAt, List.forall_mem_singleton]
  · rw [Option.isSome_map, List.forall_mem_map]
    exact isSome_foldlM (fun newVal cpu => by rw [Option.isSome_map, isSome_idleAt]) _ _

theorem isSome_makeCoresUsage :
    (m.makeCoresUsage idleTime lo hi gran).isSome = true
      ↔ ∀ e ∈ m.allotmentToCpuSet.entries, Readable idleTime e.2 := by
  rw [makeCoresUsage, Option.isSome_map, usageLine]
  refine isSome_foldlM (fun acc e => ?_) _ _
  rw [visitAllotment, Option.isSome_map]
  exact isSome_readAllotment e.2

theorem allotments_of_makeCoresUsage (h : m.makeCoresUsage idleTime lo hi gran = some m') :
    m'.allotmentToCpuSet = m.allotmentToCpuSet
      ∧ m'.allotmentsNeedPerCore = m.allotmentsNeedPerCore ∧ m'.coreCount = m.coreCount := by
  obtain ⟨acc, -, rfl⟩ := Option.map_eq_some_iff.mp h
  exact ⟨rfl, rfl, rfl⟩

theorem allotments_of_foldlM {grans : List Granularity}
    (h : grans.foldlM (fun m gran => makeCoresUsage m idleTime lo hi gran) m = some m') :
    m'.allotmentToCpuSet = m.allotmentToCpuSet
      ∧ m'.allotmentsNeedPerCore = m.allotmentsNeedPerCore ∧ m'.coreCount = m.coreCount := by
  induction grans generalizing m with
  | nil =>
    cases h
    exact ⟨rfl, rfl, rfl⟩
  | cons gran grans ih =>
    obtain ⟨m₁, hm₁, h⟩ := Option.bind_eq_some_iff.mp h
    obtain ⟨h₁, h₂, h₃⟩ := allotments_of_makeCoresUsage hm₁
    obtain ⟨h₁', h₂', h₃'⟩ := ih h
    exact ⟨h₁'.trans h₁, h₂'.trans h₂, h₃'.trans h₃⟩

theorem isSome_levels (h : ∀ e ∈ m.allotmentToCpuSet.entries, Readable idleTime e.2)
    (grans : List Granularity) :
    (grans.foldlM (fun m gran => makeCoresUsage m idleTime lo hi gran) m).isSome = true := by
  induction grans generalizing m with
  | nil => rfl
  | cons gran grans ih =>
    obtain ⟨m₁, hm₁⟩ := Option.isSome_iff_exists.mp
      ((@isSome_makeCoresUsage m idleTime gran lo hi).mpr h)
    rw [List.foldlM_cons, hm₁]
    exact ih ((allotments_of_makeCoresUsage hm₁).1 ▸ h)

/-- **What is computed under the lock reads the counters of every allotment**, if there are
counters and a level is due. -/
theorem isSome_computeUsage :
    (m.computeUsage mask idleTime lo hi).isSome = true
      ↔ idleTime = [] ∨ dueLevels mask = []
        ∨ ∀ e ∈ m.allotmentToCpuSet.entries, Readable idleTime e.2 := by
  rw [computeUsage]
  split
  · rename_i h
    exact iff_of_true rfl (.inl h)
  · rename_i h
    cases dueLevels mask with
    | nil => exact iff_of_true rfl (.inr (.inl rfl))
    | cons gran grans =>
      rw [List.foldlM_cons]
      constructor
      · intro hsome
        refine .inr (.inr ((@isSome_makeCoresUsage m idleTime gran lo hi).mp ?_))
        cases hm : m.makeCoresUsage idleTime lo hi gran with
        | none =>
          rw [hm] at hsome
          cases hsome
        | some m₁ => rfl
      · rintro (h' | h' | hall)
        · exact absurd h' h
        · cases h'
        · exact isSome_levels hall (gran :: grans)

theorem allotments_of_computeUsage (h : m.computeUsage mask idleTime lo hi = some m') :
    m'.allotmentToCpuSet = m.allotmentToCpuSet
      ∧ m'.allotmentsNeedPerCore = m.allotmentsNeedPerCore ∧ m'.coreCount = m.coreCount := by
  rw [computeUsage] at h
  split at h
  · cases h
    exact ⟨rfl, rfl, rfl⟩
  · exact allotments_of_foldlM h

/-! ### The counters that were read -/

theorem length_readPerCore {n : ℕ} {lines : List (Option UInt64)} {counters : List UInt64}
    (h : readPerCore n lines = some counters) : counters.length = n := by
  induction n generalizing lines counters with
  | zero =>
    cases h
    rfl
  | succ n ih =>
    cases lines with
    | nil => cases h
    | cons line lines =>
      cases line with
      | none => cases h
      | some idle =>
        obtain ⟨rest, hrest, rfl⟩ := Option.map_eq_some_iff.mp h
        rw [List.length_cons, ih hrest]

/-- The first line of the file could be parsed. -/
def firstParsed (procStat : ProcStat) : Bool := (procStat.bind (·.head?)).join.isSome

/-- The core is among those whose counters were read. -/
def CoreRead (coreCount : UInt64) (procStat : ProcStat) (perCore : Bool) (cpu : ℤ) : Prop :=
  perCore = true ∧ (firstParsed procStat = true ∨ cpu + 1 < coreCount.toNat)

theorem readable_readProcStat {coreCount : UInt64} {procStat : ProcStat} {perCore : Bool}
    {cpuSet : List ℤ} (hne : readProcStat coreCount procStat perCore ≠ [])
    (hcpus : ∀ cpu ∈ cpuSet, 0 ≤ cpu ∧ cpu < coreCount.toNat) :
    Readable (readProcStat coreCount procStat perCore) cpuSet
      ↔ ∀ cpu ∈ cpuSet, CoreRead coreCount procStat perCore cpu := by
  have hpos : 0 < (readProcStat coreCount procStat perCore).length :=
    List.length_pos_iff.mpr hne
  have hindices : Readable (readProcStat coreCount procStat perCore) cpuSet
      ↔ ∀ cpu ∈ cpuSet, cpu + 1 < (readProcStat coreCount procStat perCore).length := by
    rw [Readable, indices]
    split
    · rename_i h
      rw [h]
      refine iff_of_true (fun idx hidx => ?_) fun cpu hcpu => nomatch hcpu
      rw [List.mem_singleton.mp hidx]
      omega
    · rw [List.forall_mem_map]
      refine forall₂_congr fun cpu hcpu => ?_
      have := hcpus cpu hcpu
      omega
  rw [hindices]
  refine forall₂_congr fun cpu hcpu => ?_
  have hcpu := hcpus cpu hcpu
  cases procStat with
  | none => exact absurd rfl hne
  | some lines =>
    have hfirst : lines.head?.join.toList.length = if firstParsed (some lines) then 1 else 0 := by
      rw [firstParsed, Option.bind_some]
      cases lines.head?.join <;> rfl
    rw [CoreRead]
    rw [readProcStat] at hne ⊢
    split
    · rename_i hper
      rw [if_pos hper] at hne
      cases hread : readPerCore coreCount.toNat lines.tail with
      | none =>
        rw [hread] at hne
        exact absurd rfl hne
      | some counters =>
        show cpu + 1 < (lines.head?.join.toList ++ counters).length ↔ _
        rw [List.length_append, hfirst, length_readPerCore hread]
        by_cases h : firstParsed (some lines) = true
        · rw [if_pos h]
          exact iff_of_true (by omega) ⟨hper, .inl h⟩
        · rw [if_neg h, Nat.zero_add]
          exact ⟨fun hlt => ⟨hper, .inr hlt⟩, fun hread => hread.2.resolve_left h⟩
    · rename_i hper
      rw [hfirst]
      refine iff_of_false ?_ fun h => hper h.1
      split <;> omega

end CPUTimeMonitor

/-! ## Interleavings -/

/-- What a tick has read. -/
structure Reading where
  procStat : CPUTimeMonitor.ProcStat
  perCore : Bool
  lo : TimePoint
  hi : TimePoint
  deriving DecidableEq

/-- A monitor with a tick that has read, and with registrations that have passed the check. -/
structure Interleaved where
  monitor : CPUTimeMonitor
  reading : Option Reading
  registering : List (String × List ℤ)

namespace Interleaved

open CPUTimeMonitor

/-- The steps: the two of a tick, the two of a registration, and a deregistration. -/
inductive Step where
  | readCounters (procStat : ProcStat) (lo hi : TimePoint)
  | compute (mask : TMask)
  | checkRegister (allotmentId : String) (cpuSet : List ℤ)
  | insertRegistered (i : ℕ)
  | deRegister (allotmentId : String)

def init (coreCount : UInt64) (isUnitTest : Bool) : Interleaved :=
  ⟨.make coreCount isUnitTest, none, []⟩

/-- The counters that were read. -/
def idleTime (s : Interleaved) (r : Reading) : List UInt64 :=
  readProcStat s.monitor.coreCount r.procStat r.perCore

def step (s : Interleaved) : Step → Interleaved
  | .readCounters procStat lo hi =>
    match s.reading with
    | some _ => s
    | none =>
      { s with reading := some ⟨procStat, decide (s.monitor.allotmentsNeedPerCore ≠ ∅), lo, hi⟩ }
  | .compute mask =>
    match s.reading with
    | none => s
    | some r =>
      { s with
        monitor := (s.monitor.computeUsage mask (s.idleTime r) r.lo r.hi).getD s.monitor
        reading := none }
  | .checkRegister allotmentId cpuSet =>
    if s.monitor.canRegister allotmentId then
      { s with registering := s.registering ++ [(allotmentId, cpuSet)] }
    else s
  | .insertRegistered i =>
    match s.registering[i]? with
    | none => s
    | some (allotmentId, cpuSet) =>
      { s with
        monitor := s.monitor.insertAllotment allotmentId cpuSet
        registering := s.registering.eraseIdx i }
  | .deRegister allotmentId => { s with monitor := s.monitor.deRegisterAllotment allotmentId }

/-- A registration names cores of the machine. -/
def Step.Valid (coreCount : UInt64) : Step → Prop
  | .checkRegister _ cpuSet => ∀ cpu ∈ cpuSet, 0 ≤ cpu ∧ cpu < coreCount.toNat
  | _ => True

/-- No counter is read that is not there. -/
def Step.InRange (s : Interleaved) : Step → Prop
  | .compute mask => ∀ r ∈ s.reading,
    (s.monitor.computeUsage mask (s.idleTime r) r.lo r.hi).isSome = true
  | _ => True

/-- Where counters were read and a level is due, they were read for the cores of all
allotments that are registered by now. -/
def Step.Covered (s : Interleaved) : Step → Prop
  | .compute mask => ∀ r ∈ s.reading, s.idleTime r = [] ∨ dueLevels mask = []
    ∨ ∀ e ∈ s.monitor.allotmentToCpuSet.entries, ∀ cpu ∈ e.2,
        CoreRead s.monitor.coreCount r.procStat r.perCore cpu
  | _ => True

/-- The allotments have cores of the machine. -/
structure ValidCores (coreCount : UInt64) (s : Interleaved) : Prop where
  count : s.monitor.coreCount = coreCount
  registered : ∀ e ∈ s.monitor.allotmentToCpuSet.entries,
    ∀ cpu ∈ e.2, 0 ≤ cpu ∧ cpu < coreCount.toNat
  registering : ∀ e ∈ s.registering, ∀ cpu ∈ e.2, 0 ≤ cpu ∧ cpu < coreCount.toNat

variable {coreCount : UInt64} {s : Interleaved} {op : Step}

theorem validCores_init (isUnitTest : Bool) : ValidCores coreCount (init coreCount isUnitTest) := by
  refine ⟨rfl, fun e he cpu hcpu => ?_, fun e he => nomatch he⟩
  rw [List.mem_singleton.mp (show e ∈ [("host", [])] from he)] at hcpu
  cases hcpu

theorem ValidCores.step (h : ValidCores coreCount s) (hop : op.Valid coreCount) :
    ValidCores coreCount (s.step op) := by
  obtain ⟨hcount, hregistered, hregistering⟩ := h
  cases op with
  | readCounters procStat lo hi =>
    rw [Interleaved.step]
    split <;> exact ⟨hcount, hregistered, hregistering⟩
  | compute mask =>
    rw [Interleaved.step]
    split
    · exact ⟨hcount, hregistered, hregistering⟩
    · rename_i r _
      cases hm : s.monitor.computeUsage mask (s.idleTime r) r.lo r.hi with
      | none => exact ⟨hcount, hregistered, hregistering⟩
      | some m =>
        obtain ⟨hsets, -, hcores⟩ := allotments_of_computeUsage hm
        exact ⟨hcores.trans hcount, hsets ▸ hregistered, hregistering⟩
  | checkRegister allotmentId cpuSet =>
    rw [Interleaved.step]
    split
    · refine ⟨hcount, hregistered, fun e he => ?_⟩
      rcases List.mem_append.mp he with he | he
      · exact hregistering e he
      · rw [List.mem_singleton.mp he]
        exact hop
    · exact ⟨hcount, hregistered, hregistering⟩
  | insertRegistered i =>
    rw [Interleaved.step]
    split
    · exact ⟨hcount, hregistered, hregistering⟩
    · rename_i allotmentId cpuSet hi
      refine ⟨hcount, fun e he => ?_, fun e he => hregistering e (List.mem_of_mem_eraseIdx he)⟩
      have hget : (s.monitor.allotmentToCpuSet.put allotmentId cpuSet).get? e.1 = some e.2 :=
        OrderedMap.mem_entries.mp he
      rw [OrderedMap.get?_put] at hget
      split at hget
      · rw [← Option.some.inj hget]
        exact hregistering _ (List.mem_of_getElem? hi)
      · exact hregistered e (OrderedMap.mem_entries.mpr hget)
  | deRegister allotmentId =>
    exact ⟨hcount, fun e he => hregistered e (List.mem_filter.mp he).1, hregistering⟩

theorem inRange_iff_covered (h : ValidCores coreCount s) : op.InRange s ↔ op.Covered s := by
  cases op with
  | compute mask =>
    refine forall₂_congr fun r _ => ?_
    rw [isSome_computeUsage]
    by_cases hidle : s.idleTime r = []
    · exact iff_of_true (.inl hidle) (.inl hidle)
    · refine or_congr Iff.rfl (or_congr Iff.rfl (forall₂_congr fun e he => ?_))
      exact readable_readProcStat hidle (h.count ▸ h.registered e he)
  | readCounters procStat lo hi => exact Iff.rfl
  | checkRegister allotmentId cpuSet => exact Iff.rfl
  | insertRegistered i => exact Iff.rfl
  | deRegister allotmentId => exact Iff.rfl

/-- **A tick reads no counter that is not there**, in every interleaving, exactly where it has
read those of all cores that it needs. -/
theorem inRange_iff (coreCount : UInt64) (isUnitTest : Bool) (ops : List Step)
    (hops : ∀ op ∈ ops, op.Valid coreCount) :
    Run.Along step (fun s op => op.InRange s) (init coreCount isUnitTest) ops
      ↔ Run.Along step (fun s op => op.Covered s) (init coreCount isUnitTest) ops :=
  Run.along_congr_of_inv (J := ValidCores coreCount) (E := Step.Valid coreCount)
    (fun _ _ h hop => h.step hop) (fun _ _ h _ => inRange_iff_covered h)
    (validCores_init isUnitTest) hops

/-- An allotment with a core is registered before the counters are read. -/
theorem inRange_registeredFirst :
    Run.Along step (fun s op => op.InRange s) (init 1 false)
      [.checkRegister "a" [0], .insertRegistered 0, .readCounters (some [some 5, some 5]) 0 0,
        .compute 1] := by
  have hvalid : ∀ op ∈ [Step.checkRegister "a" [0], .insertRegistered 0,
      .readCounters (some [some 5, some 5]) 0 0, .compute 1], op.Valid 1 := by
    simp only [List.forall_mem_cons, Step.Valid]
    exact ⟨⟨by decide, nofun⟩, trivial, trivial, trivial, nofun⟩
  refine (inRange_iff 1 false _ hvalid).mpr
    ⟨trivial, trivial, trivial, fun r hr => .inr (.inr ?_), trivial⟩
  have hreading : (([.checkRegister "a" [0], .insertRegistered 0,
      .readCounters (some [some 5, some 5]) 0 0] : List Step).foldl step (init 1 false)).reading
        = some ⟨some [some 5, some 5], true, 0, 0⟩ := by decide +kernel
  obtain rfl := Option.some.inj (hreading.symm.trans hr)
  intro e he cpu hcpu
  exact ⟨rfl, .inl rfl⟩

/-- An allotment with a core is registered between the reading and the computation. -/
theorem not_inRange_registeredBetween :
    ¬ Run.Along step (fun s op => op.InRange s) (init 1 false)
      [.readCounters (some [some 5, some 5]) 0 0, .checkRegister "a" [0], .insertRegistered 0,
        .compute 1] := by
  rintro ⟨-, -, -, h, -⟩
  have hnone := h ⟨some [some 5, some 5], false, 0, 0⟩ rfl
  revert hnone
  decide +kernel

end Interleaved


end Dynolog
end IntegratedCLI
