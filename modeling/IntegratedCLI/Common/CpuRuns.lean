import IntegratedCLI.Common.CpuLists
import IntegratedCLI.Lib.IntegerRuns

/-!
# A set of CPUs as a text

`CpuSet::cpusStr` of `System.cpp` goes through the CPUs of a set with `cpu_set_next`, and prints
a run when the next CPU does not follow it.  The last run is printed after the loop.

The text has the maximal runs of the set (`cpusStr_eq`), and the parser reads the set from it
(`cpusStr_round_trip`).
-/

namespace IntegratedCLI
namespace Common

open IntegerRuns

structure CpuSet where
  cpuSet : CpuSetT
  maxCpuId : ℕ

namespace CpuSet

/-- The loop of `cpu_set_next`, over so many CPUs from `cpu` on. -/
def nextFrom (s : CpuSet) : ℕ → ℕ → ℕ
  | 0, cpu => cpu
  | n + 1, cpu => if s.cpuSet.isset cpu then cpu else nextFrom s n (cpu + 1)

def cpu_set_next (s : CpuSet) (cpu : ℕ) : ℕ := s.nextFrom (s.maxCpuId + 1 - (cpu + 1)) (cpu + 1)

def cpu_first_set (s : CpuSet) : ℕ := if s.cpuSet.isset 0 then 0 else s.cpu_set_next 0

/-- What a stream prints for an unsigned number. -/
def printCpu (cpu : ℕ) : List Char := Nat.toDigits 10 cpu

def printRun (first last : ℕ) : List Char :=
  if first = last then printCpu first else printCpu first ++ '-' :: printCpu last

theorem le_nextFrom (s : CpuSet) (n cpu : ℕ) : cpu ≤ s.nextFrom n cpu := by
  induction n generalizing cpu with
  | zero => exact Nat.le_refl cpu
  | succ n ih =>
    rw [nextFrom]
    split
    · exact Nat.le_refl cpu
    · exact Nat.le_of_succ_le (ih (cpu + 1))

theorem lt_cpu_set_next (s : CpuSet) (cpu : ℕ) : cpu < s.cpu_set_next cpu := s.le_nextFrom _ _

/-- The loop of `cpusStr`: the run that is not printed yet, and what is printed. -/
def printRuns (s : CpuSet) (cpu first last : ℕ) (oss : List Char) : ℕ × ℕ × List Char :=
  if cpu ≤ s.maxCpuId then
    if cpu = last + 1 then printRuns s (s.cpu_set_next cpu) first cpu oss
    else printRuns s (s.cpu_set_next cpu) cpu cpu (oss ++ (printRun first last ++ [',']))
  else (first, last, oss)
termination_by s.maxCpuId + 1 - cpu
decreasing_by all_goals
  have hlt := s.lt_cpu_set_next cpu
  omega

def cpusStr (s : CpuSet) : List Char :=
  let first := s.cpu_first_set
  let (first, last, oss) := s.printRuns (s.cpu_set_next first) first first []
  oss ++ printRun first last

/-! ## The CPUs that are gone through -/

/-- The CPUs of the set from `cpu` on. -/
def cpusFrom (s : CpuSet) (cpu : ℕ) : List ℕ :=
  (List.range' cpu (s.maxCpuId + 1 - cpu)).filter s.cpuSet.isset

variable {s : CpuSet} {cpu first last n : ℕ}

theorem mem_cpusFrom : n ∈ s.cpusFrom cpu ↔ (cpu ≤ n ∧ n ≤ s.maxCpuId) ∧ n ∈ s.cpuSet.cpus := by
  rw [cpusFrom, List.mem_filter, List.mem_range'_1, CpuSetT.isset, decide_eq_true_iff]
  refine and_congr_left fun _ => ?_
  omega

theorem pairwise_cpusFrom : (s.cpusFrom cpu).Pairwise (· < ·) :=
  List.Pairwise.filter _ List.pairwise_lt_range'

theorem cpusFrom_of_lt (h : s.maxCpuId < cpu) : s.cpusFrom cpu = [] := by
  rw [cpusFrom, show s.maxCpuId + 1 - cpu = 0 by omega]
  rfl

theorem cpusFrom_of_le (h : cpu ≤ s.maxCpuId) :
    s.cpusFrom cpu =
      if s.cpuSet.isset cpu then cpu :: s.cpusFrom (cpu + 1) else s.cpusFrom (cpu + 1) := by
  rw [cpusFrom, show s.maxCpuId + 1 - cpu = (s.maxCpuId + 1 - (cpu + 1)) + 1 by omega,
    List.range'_succ, List.filter_cons]
  rfl

/-- What is passed over is not in the set. -/
theorem cpusFrom_nextFrom (h : cpu + n = s.maxCpuId + 1) :
    s.cpusFrom (s.nextFrom n cpu) = s.cpusFrom cpu := by
  induction n generalizing cpu with
  | zero => rfl
  | succ n ih =>
    rw [nextFrom]
    split
    · rfl
    · rename_i hset
      have hskip : s.cpusFrom cpu = s.cpusFrom (cpu + 1) := by
        rw [cpusFrom_of_le (by omega), if_neg hset]
      rw [ih (by omega), hskip]

theorem isset_nextFrom (h : s.nextFrom n cpu < cpu + n) :
    s.cpuSet.isset (s.nextFrom n cpu) = true := by
  induction n generalizing cpu with
  | zero => exact absurd h (Nat.lt_irrefl cpu)
  | succ n ih =>
    rw [nextFrom] at h ⊢
    split
    · assumption
    · rename_i hset
      rw [if_neg hset] at h
      exact ih (by omega)

theorem cpusFrom_cpu_set_next : s.cpusFrom (s.cpu_set_next cpu) = s.cpusFrom (cpu + 1) := by
  by_cases h : cpu ≤ s.maxCpuId
  · exact cpusFrom_nextFrom (by omega)
  · rw [cpusFrom_of_lt (by have := s.lt_cpu_set_next cpu; omega), cpusFrom_of_lt (by omega)]

theorem isset_cpu_set_next (h : s.cpu_set_next cpu ≤ s.maxCpuId) :
    s.cpuSet.isset (s.cpu_set_next cpu) = true := by
  have hlt := s.lt_cpu_set_next cpu
  refine isset_nextFrom ?_
  show s.cpu_set_next cpu < cpu + 1 + (s.maxCpuId + 1 - (cpu + 1))
  omega

/-- The next CPU is the first of those after `cpu`. -/
theorem cpusFrom_succ (h : s.cpu_set_next cpu ≤ s.maxCpuId) :
    s.cpusFrom (cpu + 1) = s.cpu_set_next cpu :: s.cpusFrom (s.cpu_set_next cpu + 1) := by
  rw [← cpusFrom_cpu_set_next, cpusFrom_of_le h, if_pos (isset_cpu_set_next h)]

/-! ## The runs that are printed -/

/-- The runs with commas between them. -/
def printList (runs : List (ℕ × ℕ)) : List Char :=
  [','].intercalate (runs.map fun r => printRun r.1 r.2)

theorem printList_singleton (r : ℕ × ℕ) : printList [r] = printRun r.1 r.2 := by
  rw [printList, List.map_singleton, List.intercalate_singleton]

theorem printList_cons {r : ℕ × ℕ} {runs : List (ℕ × ℕ)} (h : runs ≠ []) :
    printList (r :: runs) = printRun r.1 r.2 ++ ',' :: printList runs := by
  have hne : (runs.map fun r => printRun r.1 r.2) ≠ [] := fun hnil => h (List.map_eq_nil_iff.mp hnil)
  rw [printList, List.map_cons, List.intercalate_cons_of_ne_nil hne, List.append_assoc]
  rfl

theorem runsFrom_ne_nil (first last : ℕ) (ns : List ℕ) : runsFrom first last ns ≠ [] := by
  induction ns generalizing first last with
  | nil => exact List.cons_ne_nil _ _
  | cons n ns ih =>
    rw [runsFrom]
    split
    · exact ih first n
    · exact List.cons_ne_nil _ _

/-- **The loop prints the runs** from a CPU of the set on, the last one after it. -/
theorem printRuns_eq (s : CpuSet) (cpu first last : ℕ) (oss : List Char)
    (hset : cpu ≤ s.maxCpuId → s.cpuSet.isset cpu = true) :
    (s.printRuns cpu first last oss).2.2 ++
        printRun (s.printRuns cpu first last oss).1 (s.printRuns cpu first last oss).2.1 =
      oss ++ printList (runsFrom first last (s.cpusFrom cpu)) := by
  induction cpu, first, last, oss using printRuns.induct s with
  | case1 first last oss hle ih =>
    rw [printRuns, if_pos hle, if_pos rfl, ih isset_cpu_set_next, cpusFrom_of_le hle,
      if_pos (hset hle), cpusFrom_cpu_set_next, runsFrom, if_pos rfl]
  | case2 cpu first last oss hle hne ih =>
    rw [printRuns, if_pos hle, if_neg hne, ih isset_cpu_set_next, cpusFrom_of_le hle,
      if_pos (hset hle), cpusFrom_cpu_set_next, runsFrom, if_neg hne,
      printList_cons (runsFrom_ne_nil _ _ _)]
    simp only [List.append_assoc, List.singleton_append]
  | case3 cpu first last oss hgt =>
    rw [printRuns, if_neg hgt, cpusFrom_of_lt (Nat.lt_of_not_le hgt), runsFrom, printList_singleton]

/-- The first CPU, and those after it, are the CPUs of the set. -/
theorem cpusFrom_zero (hmax : s.maxCpuId ∈ s.cpuSet.cpus) :
    s.cpusFrom 0 = s.cpu_first_set :: s.cpusFrom (s.cpu_first_set + 1) := by
  rw [cpu_first_set]
  split
  · rename_i hset
    rw [cpusFrom_of_le (Nat.zero_le _), if_pos hset]
  · rename_i hset
    have hzero : s.cpusFrom 0 = s.cpusFrom (0 + 1) := by
      rw [cpusFrom_of_le (Nat.zero_le _), if_neg hset]
    have hle : s.cpu_set_next 0 ≤ s.maxCpuId := by
      by_contra hgt
      have hnil := cpusFrom_of_lt (Nat.lt_of_not_le hgt)
      rw [cpusFrom_cpu_set_next, ← hzero] at hnil
      have hmem : s.maxCpuId ∈ s.cpusFrom 0 :=
        mem_cpusFrom.mpr ⟨⟨Nat.zero_le _, Nat.le_refl _⟩, hmax⟩
      rw [hnil] at hmem
      cases hmem
    rw [hzero, cpusFrom_succ hle]

/-- The text has the runs of the set. -/
theorem cpusStr_eq (hmax : s.maxCpuId ∈ s.cpuSet.cpus)
    (hle : ∀ c ∈ s.cpuSet.cpus, c ≤ s.maxCpuId) :
    ∃ runs, runs ≠ [] ∧ s.cpusStr = printList runs ∧ Runs (· ∈ s.cpuSet.cpus) runs := by
  have hzero := cpusFrom_zero hmax
  refine ⟨runsFrom s.cpu_first_set s.cpu_first_set (s.cpusFrom (s.cpu_first_set + 1)),
    runsFrom_ne_nil _ _ _, ?_, ?_⟩
  · have hprint := printRuns_eq s (s.cpu_set_next s.cpu_first_set) s.cpu_first_set s.cpu_first_set []
      isset_cpu_set_next
    rw [cpusFrom_cpu_set_next, List.nil_append] at hprint
    exact hprint
  · have hsorted : (s.cpu_first_set :: s.cpusFrom (s.cpu_first_set + 1)).Pairwise (· < ·) := by
      rw [← hzero]
      exact pairwise_cpusFrom
    have hruns := runs_runsFrom (Nat.le_refl _) hsorted
    have hS : (fun n => (s.cpu_first_set ≤ n ∧ n ≤ s.cpu_first_set) ∨
        n ∈ s.cpusFrom (s.cpu_first_set + 1)) = (· ∈ s.cpuSet.cpus) := by
      funext n
      have hmem : n ∈ s.cpusFrom 0 ↔ n ∈ s.cpuSet.cpus := by
        rw [mem_cpusFrom]
        exact and_iff_right_of_imp fun hn => ⟨Nat.zero_le n, hle n hn⟩
      rw [← hmem, hzero, List.mem_cons]
      refine propext (or_congr_left ?_)
      omega
    rw [← hS]
    exact hruns

/-! ## Reading the text -/

theorem unsigned_printCpu (cpu : ℕ) : Unsigned (printCpu cpu) cpu where
  ne_nil := Nat.toDigits_ne_nil
  digits d hd := Nat.isDigit_of_mem_toDigits (by decide) (by decide) hd
  value_eq := Nat.ofDigitChars_ten_toDigits

theorem cpuRange_printRun (hle : first ≤ last) (hlt : last < CPU_SETSIZE) :
    CpuRange (printRun first last) (Finset.Icc first last) := by
  rw [printRun]
  split
  · rename_i heq
    rw [← heq, Finset.Icc_self]
    exact .single (unsigned_printCpu first) (by omega)
  · exact .range (unsigned_printCpu first) (unsigned_printCpu last) (by omega) hlt

/-- **What is printed is in the grammar.** -/
theorem cpuList_printList {runs : List (ℕ × ℕ)} (hne : runs ≠ [])
    (hruns : ∀ r ∈ runs, r.1 ≤ r.2 ∧ r.2 < CPU_SETSIZE) :
    ∃ cpus, CpuList (printList runs) cpus ∧ ∀ n, n ∈ cpus ↔ ∃ r ∈ runs, r.1 ≤ n ∧ n ≤ r.2 := by
  induction runs with
  | nil => exact absurd rfl hne
  | cons r runs ih =>
    obtain ⟨⟨hle, hlt⟩, hrest⟩ := List.forall_mem_cons.mp hruns
    have hrange := cpuRange_printRun hle hlt
    by_cases hnil : runs = []
    · refine ⟨Finset.Icc r.1 r.2, ?_, fun n => ?_⟩
      · rw [hnil, printList_singleton]
        exact .last hrange
      · rw [hnil, Finset.mem_Icc]
        simp only [List.mem_singleton, exists_eq_left]
    · obtain ⟨cpus, hlist, hmem⟩ := ih hnil hrest
      refine ⟨Finset.Icc r.1 r.2 ∪ cpus, ?_, fun n => ?_⟩
      · rw [printList_cons hnil]
        exact .cons hrange hlist
      · rw [Finset.mem_union, Finset.mem_Icc, hmem]
        simp only [List.mem_cons, exists_eq_or_imp]

theorem solid_of_cpuList {t : List Char} {cpus : Finset ℕ} (h : CpuList t cpus) : Solid t := by
  induction h with
  | last h => exact h.chars.1
  | cons h _ ih =>
    intro d hd
    rcases List.mem_append.mp hd with hd | hd
    · exact h.chars.1 d hd
    · rcases List.mem_cons.mp hd with rfl | hd
      · decide
      · exact ih d hd

/-- **The text of a set is read as the set.** -/
theorem cpusStr_round_trip (s : CpuSet) (hmax : s.maxCpuId ∈ s.cpuSet.cpus)
    (hle : ∀ c ∈ s.cpuSet.cpus, c ≤ s.maxCpuId) :
    (∃ runs, s.cpusStr = printList runs ∧ Runs (· ∈ s.cpuSet.cpus) runs) ∧
      ∀ fuel, 2 ^ 64 ≤ fuel → parseCpusList fuel s.cpusStr = .ok s.cpuSet := by
  obtain ⟨runs, hne, hprint, hruns⟩ := cpusStr_eq hmax hle
  refine ⟨⟨runs, hprint, hruns⟩, ?_⟩
  have hfits : ∀ r ∈ runs, r.1 ≤ r.2 ∧ r.2 < CPU_SETSIZE := by
    intro r hr
    have hrun := hruns.maximal r hr
    exact ⟨hrun.le, s.cpuSet.lt r.2 (hrun.mem r.2 hrun.le (Nat.le_refl _))⟩
  obtain ⟨cpus, hlist, hmem⟩ := cpuList_printList hne hfits
  rw [← hprint] at hlist
  have hblanks : removeBlanks s.cpusStr = s.cpusStr := removeBlanks_eq (solid_of_cpuList hlist)
  obtain ⟨r, hr, hparse⟩ := CpuList.parseCpusList (hblanks.symm ▸ hlist)
  have hsame : r = s.cpuSet := by
    refine CpuSetT.ext (hr.trans (Finset.ext fun n => ?_))
    rw [hmem]
    exact (Runs.iff hruns).symm
  rw [← hsame]
  exact hparse

/-- CPU 1 up to 3, and CPU 7. -/
def sampleCpus : CpuSet := ⟨⟨{1, 2, 3, 7}, by decide⟩, 7⟩

theorem cpusStr_round_trip_sample :
    (∃ runs, sampleCpus.cpusStr = printList runs ∧ Runs (· ∈ sampleCpus.cpuSet.cpus) runs) ∧
      ∀ fuel, 2 ^ 64 ≤ fuel → parseCpusList fuel sampleCpus.cpusStr = .ok sampleCpus.cpuSet :=
  cpusStr_round_trip sampleCpus (by decide) (by decide)

example : sampleCpus.cpusStr = ['1', '-', '3', ',', '7'] := by decide +kernel

end CpuSet

end Common
end IntegratedCLI
