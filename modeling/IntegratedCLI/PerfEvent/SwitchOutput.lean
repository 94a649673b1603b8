import Mathlib.Data.List.Induction
import Mathlib.Order.Nat
import IntegratedCLI.Lib.Run
import IntegratedCLI.PerfEvent.ThreadLifetimes

/-!
# The order of the output of thread switches

A `CpuThreadSwitchGenerator` writes an event for a switch of threads and for a thread
that starts or ends.  A record that says that records were lost opens a window of write
errors, which the next record closes: the generator writes a start of write errors, and
then an end before anything else.

The time of a lost record is that at which it was written, and records with earlier times
may follow it.  Therefore the start of a window is put right after the last known time,
and the end at the time of the record that closes it.

The last known time need not be before the next record.  Times may be equal, and after a
lost record it is that of the lost record itself.

## What is modelled how

* The generator shares its table of threads with others, so the table is an input of every
  delivery.  So is what the writes return.
* A record whose handler returns an error is presented again.
* `emit` is what a handler writes, whatever becomes of the table.

## Main results

* `handleRecord_eq_emit` : what a handler returns and writes, where it returns.
* `wellOrdered_iff` : in every run, the times of the output do not decrease and windows of
  write errors open and close in turn, with nothing else in them, exactly if no window is
  closed by a record from before its start.
-/

namespace IntegratedCLI
namespace PerfEvent

open Run Fallible
open Tagstack (Event kInvalidTimeStamp)

/-! ## What is written -/

namespace CpuThreadSwitchGenerator

variable (s : PerThreadStats) (g : CpuThreadSwitchGenerator) (env : Env)

/-- The event for a record. -/
def eventOf : Record → Option Event
  | .lost _ =>
    some ⟨g.lastTstamp + 1, .writeErrorsStart, kInvalidLevel, g.compUnitId, Tagstack.kNA⟩
  | .comm _ => none
  | .exit r =>
    some ⟨r.time, .threadDestruction, g.tidLevel, g.compUnitId, (s.selectNextVid r.tid).1⟩
  | .fork r =>
    some ⟨r.time, .threadCreation, g.tidLevel, g.compUnitId, (s.selectNextVid r.tid).1⟩
  | .switch r =>
    if r.isSwitchOut then
      some ⟨r.tstamp, if r.isSwitchOutPreempt then .switchOutPreempt else .switchOutYield,
        g.tidLevel, g.compUnitId, Tagstack.kNA⟩
    else some ⟨r.tstamp, .switchIn, g.tidLevel, g.compUnitId, (s.selectNextVid r.tid).1⟩

/-- What a handler returns and writes. -/
def emit (r : Record) : ℤ × CpuThreadSwitchGenerator :=
  let p := g.pendingRecordLost env r.tstamp
  if p.1 < 0 then p
  else match eventOf s p.2 r with
    | none => (0, { p.2 with lastTstamp := r.tstamp })
    | some ev =>
      if 0 ≤ env.ret then
        (env.ret, { p.2 with
          output := p.2.output ++ [ev]
          lastTstamp := r.tstamp
          inWriteErrors := p.2.inWriteErrors || r.isLost })
      else (env.ret, p.2)

variable {s g env} {r : Record} {h : Handled}

theorem write_of_nonneg {ret : ℤ} {ev : Event} (hret : 0 ≤ ret) :
    g.write ret ev = { g with output := g.output ++ [ev] } := if_pos hret

theorem write_of_neg {ret : ℤ} {ev : Event} (hret : ¬ 0 ≤ ret) : g.write ret ev = g :=
  if_neg hret

theorem emit_refused (hp : (g.pendingRecordLost env r.tstamp).1 < 0) :
    emit s g env r = g.pendingRecordLost env r.tstamp := if_pos hp

theorem emit_of_none (hp : ¬ (g.pendingRecordLost env r.tstamp).1 < 0)
    (hev : eventOf s (g.pendingRecordLost env r.tstamp).2 r = none) :
    emit s g env r =
      (0, { (g.pendingRecordLost env r.tstamp).2 with lastTstamp := r.tstamp }) := by
  simp only [emit, if_neg hp, hev]

theorem emit_of_some {ev : Event} (hp : ¬ (g.pendingRecordLost env r.tstamp).1 < 0)
    (hev : eventOf s (g.pendingRecordLost env r.tstamp).2 r = some ev) :
    emit s g env r =
      if 0 ≤ env.ret then
        (env.ret, { (g.pendingRecordLost env r.tstamp).2 with
          output := (g.pendingRecordLost env r.tstamp).2.output ++ [ev]
          lastTstamp := r.tstamp
          inWriteErrors := (g.pendingRecordLost env r.tstamp).2.inWriteErrors || r.isLost })
      else (env.ret, (g.pendingRecordLost env r.tstamp).2) := by
  simp only [emit, if_neg hp, hev]

theorem handleRecordLost_eq_emit {t : ℕ} (hh : handleRecordLost s g env t = .ok h) :
    emit s g env (.lost t) = (h.ret, h.gen) := by
  unfold handleRecordLost at hh
  by_cases hp : (g.pendingRecordLost env t).1 < 0
  · rw [if_pos hp] at hh
    cases hh
    exact emit_refused hp
  · rw [if_neg hp] at hh
    have hev : eventOf s (g.pendingRecordLost env t).2 (.lost t) = some
        ⟨(g.pendingRecordLost env t).2.lastTstamp + 1, .writeErrorsStart, kInvalidLevel,
          (g.pendingRecordLost env t).2.compUnitId, Tagstack.kNA⟩ := rfl
    rw [emit_of_some (r := .lost t) hp hev]
    by_cases hret : 0 ≤ env.ret
    · rw [if_pos hret, write_of_nonneg hret] at hh
      cases hh
      rw [if_pos hret, show (Record.lost t).isLost = true from rfl, Bool.or_true]
      rfl
    · rw [if_neg hret, write_of_neg hret] at hh
      cases hh
      exact if_neg hret

theorem handleRecordComm_eq_emit {c : Comm} (hh : handleRecordComm s g env c = .ok h) :
    emit s g env (.comm c) = (h.ret, h.gen) := by
  unfold handleRecordComm at hh
  by_cases hp : (g.pendingRecordLost env c.tstamp).1 < 0
  · rw [if_pos hp] at hh
    cases hh
    exact emit_refused hp
  · rw [if_neg hp] at hh
    rw [emit_of_none (r := .comm c) hp rfl]
    generalize s.selectNextVid c.tid = sel at hh
    obtain ⟨vid, isNewVid⟩ := sel
    dsimp only at hh
    split at hh
    · obtain ⟨s₁, -, hh⟩ := bind_eq_ok.mp hh
      obtain ⟨s₂, -, hh⟩ := bind_eq_ok.mp hh
      obtain ⟨tinfo, -, hh⟩ := bind_eq_ok.mp hh
      obtain ⟨-, -, hh⟩ := bind_eq_ok.mp hh
      obtain ⟨-, -, hh⟩ := bind_eq_ok.mp hh
      cases hh
      rfl
    · obtain ⟨s₁, -, hh⟩ := bind_eq_ok.mp hh
      obtain ⟨s₂, -, hh⟩ := bind_eq_ok.mp hh
      obtain ⟨tinfo, -, hh⟩ := bind_eq_ok.mp hh
      obtain ⟨-, -, hh⟩ := bind_eq_ok.mp hh
      obtain ⟨-, -, hh⟩ := bind_eq_ok.mp hh
      cases hh
      rfl

theorem handleRecordExit_eq_emit {x : Exit} (hh : handleRecordExit s g env x = .ok h) :
    emit s g env (.exit x) = (h.ret, h.gen) := by
  unfold handleRecordExit at hh
  by_cases hp : (g.pendingRecordLost env x.time).1 < 0
  · rw [if_pos hp] at hh
    cases hh
    exact emit_refused hp
  · rw [if_neg hp] at hh
    have hev : eventOf s (g.pendingRecordLost env x.time).2 (.exit x) = some
        ⟨x.time, .threadDestruction, (g.pendingRecordLost env x.time).2.tidLevel,
          (g.pendingRecordLost env x.time).2.compUnitId, (s.selectNextVid x.tid).1⟩ := rfl
    rw [emit_of_some (r := .exit x) hp hev]
    generalize s.selectNextVid x.tid = sel at hh ⊢
    obtain ⟨vid, isNewVid⟩ := sel
    dsimp only at hh ⊢
    by_cases hret : 0 ≤ env.ret
    · rw [if_pos hret, write_of_nonneg hret] at hh
      rw [if_pos hret, show (Record.exit x).isLost = false from rfl, Bool.or_false]
      split at hh
      · obtain ⟨s₁, -, hh⟩ := bind_eq_ok.mp hh
        obtain ⟨s₂, -, hh⟩ := bind_eq_ok.mp hh
        obtain ⟨s₃, -, hh⟩ := bind_eq_ok.mp hh
        cases hh
        rfl
      · obtain ⟨s₁, -, hh⟩ := bind_eq_ok.mp hh
        obtain ⟨s₂, -, hh⟩ := bind_eq_ok.mp hh
        cases hh
        rfl
    · rw [if_neg hret, write_of_neg hret] at hh
      cases hh
      exact if_neg hret

theorem handleRecordFork_eq_emit {x : Exit} (hh : handleRecordFork s g env x = .ok h) :
    emit s g env (.fork x) = (h.ret, h.gen) := by
  unfold handleRecordFork at hh
  by_cases hp : (g.pendingRecordLost env x.time).1 < 0
  · rw [if_pos hp] at hh
    cases hh
    exact emit_refused hp
  · rw [if_neg hp] at hh
    have hev : eventOf s (g.pendingRecordLost env x.time).2 (.fork x) = some
        ⟨x.time, .threadCreation, (g.pendingRecordLost env x.time).2.tidLevel,
          (g.pendingRecordLost env x.time).2.compUnitId, (s.selectNextVid x.tid).1⟩ := rfl
    rw [emit_of_some (r := .fork x) hp hev]
    generalize s.selectNextVid x.tid = sel at hh ⊢
    obtain ⟨vid, isNewVid⟩ := sel
    dsimp only at hh ⊢
    by_cases hret : 0 ≤ env.ret
    · rw [if_pos hret, write_of_nonneg hret] at hh
      rw [if_pos hret, show (Record.fork x).isLost = false from rfl, Bool.or_false]
      split at hh
      · obtain ⟨tinfo, -, hh⟩ := bind_eq_ok.mp hh
        obtain ⟨-, -, hh⟩ := bind_eq_ok.mp hh
        obtain ⟨s₁, -, hh⟩ := bind_eq_ok.mp hh
        cases hh
        rfl
      · obtain ⟨s₁, -, hh⟩ := bind_eq_ok.mp hh
        cases hh
        rfl
    · rw [if_neg hret, write_of_neg hret] at hh
      cases hh
      exact if_neg hret

theorem handleRecordSwitchCpuWide_eq_emit {x : SwitchCpuWide}
    (hh : handleRecordSwitchCpuWide s g env x = .ok h) :
    emit s g env (.switch x) = (h.ret, h.gen) := by
  unfold handleRecordSwitchCpuWide at hh
  by_cases hp : (g.pendingRecordLost env x.tstamp).1 < 0
  · rw [if_pos hp] at hh
    cases hh
    exact emit_refused hp
  · rw [if_neg hp] at hh
    by_cases hout : x.isSwitchOut = true
    · rw [if_pos hout] at hh
      have hev : eventOf s (g.pendingRecordLost env x.tstamp).2 (.switch x) = some
          ⟨x.tstamp, if x.isSwitchOutPreempt then .switchOutPreempt else .switchOutYield,
            (g.pendingRecordLost env x.tstamp).2.tidLevel,
            (g.pendingRecordLost env x.tstamp).2.compUnitId, Tagstack.kNA⟩ := if_pos hout
      rw [emit_of_some (r := .switch x) hp hev]
      dsimp only at hh
      by_cases hret : 0 ≤ env.ret
      · rw [if_pos hret, write_of_nonneg hret] at hh
        rw [if_pos hret, show (Record.switch x).isLost = false from rfl, Bool.or_false]
        cases hh
        rfl
      · rw [if_neg hret, write_of_neg hret] at hh
        cases hh
        exact if_neg hret
    · rw [if_neg hout] at hh
      have hev : eventOf s (g.pendingRecordLost env x.tstamp).2 (.switch x) = some
          ⟨x.tstamp, .switchIn, (g.pendingRecordLost env x.tstamp).2.tidLevel,
            (g.pendingRecordLost env x.tstamp).2.compUnitId, (s.selectNextVid x.tid).1⟩ :=
        if_neg hout
      rw [emit_of_some (r := .switch x) hp hev]
      generalize s.selectNextVid x.tid = sel at hh ⊢
      obtain ⟨vid, isNewVid⟩ := sel
      dsimp only at hh ⊢
      by_cases hret : 0 ≤ env.ret
      · rw [if_pos hret, show (Record.switch x).isLost = false from rfl, Bool.or_false]
        rw [write_of_nonneg hret] at hh
        simp only [if_pos hret] at hh
        split at hh
        · obtain ⟨s₁, -, hh⟩ := bind_eq_ok.mp hh
          obtain ⟨s₂, -, hh⟩ := bind_eq_ok.mp hh
          cases hh
          rfl
        · obtain ⟨s₁, -, hh⟩ := bind_eq_ok.mp hh
          cases hh
          rfl
      · rw [write_of_neg hret] at hh
        simp only [if_neg hret] at hh
        split at hh
        · rename_i hnew
          exact absurd (of_decide_eq_true (Bool.and_eq_true_iff.mp hnew).2) hret
        · obtain ⟨s₁, -, hh⟩ := bind_eq_ok.mp hh
          cases hh
          exact if_neg hret

/-- A handler returns and writes what `emit` says, if it returns. -/
theorem handleRecord_eq_emit (hh : handleRecord s g env r = .ok h) :
    emit s g env r = (h.ret, h.gen) := by
  cases r with
  | lost t => exact handleRecordLost_eq_emit hh
  | comm c => exact handleRecordComm_eq_emit hh
  | exit x => exact handleRecordExit_eq_emit hh
  | fork x => exact handleRecordFork_eq_emit hh
  | switch x => exact handleRecordSwitchCpuWide_eq_emit hh

end CpuThreadSwitchGenerator

/-! ## Windows of write errors -/

/-- Whether a window is open after some events, if windows open and close in turn and
nothing else is in them. -/
def window : Bool → List Event → Option Bool
  | opened, [] => some opened
  | false, ev :: evs => match ev.type with
    | .writeErrorsStart => window true evs
    | .writeErrorsEnd => none
    | _ => window false evs
  | true, ev :: evs => match ev.type with
    | .writeErrorsEnd => window false evs
    | _ => none

/-- The times do not decrease, and windows of write errors open and close in turn, with
nothing else in them. -/
structure WellOrdered (output : List Event) : Prop where
  sorted : output.Pairwise fun a b => a.tstamp ≤ b.tstamp
  windows : (window false output).isSome = true

section Windows

variable {output : List Event} {opened : Bool} {ev : Event}

theorem window_concat (evs : List Event) :
    window opened (evs ++ [ev]) = (window opened evs).bind fun o => window o [ev] := by
  induction evs generalizing opened with
  | nil => rfl
  | cons e evs ih =>
    cases opened with
    | false =>
      rw [List.cons_append, window, window]
      split
      · exact ih
      · rfl
      · exact ih
    | true =>
      rw [List.cons_append, window, window]
      split
      · exact ih
      · rfl

/-- An event that is not before the last one. -/
theorem sorted_concat (h : output.Pairwise fun a b => a.tstamp ≤ b.tstamp)
    (hle : ∀ e ∈ output, e.tstamp ≤ ev.tstamp) :
    (output ++ [ev]).Pairwise fun a b => a.tstamp ≤ b.tstamp := by
  refine List.pairwise_append.mpr ⟨h, List.pairwise_singleton _ _, ?_⟩
  intro a ha b hb
  rw [List.mem_singleton.mp hb]
  exact hle a ha

/-- All events are before what the last one is before. -/
theorem le_of_getLast? (h : output.Pairwise fun a b => a.tstamp ≤ b.tstamp) {t : ℕ}
    (hlast : ∀ e ∈ output.getLast?, e.tstamp ≤ t) : ∀ e ∈ output, e.tstamp ≤ t := by
  induction output using List.reverseRecOn with
  | nil => exact List.forall_mem_nil _
  | append_singleton evs last _ =>
    rw [List.getLast?_append, List.getLast?_singleton, Option.some_or] at hlast
    have hle := hlast last rfl
    intro e he
    rcases List.mem_append.mp he with he | he
    · exact le_trans ((List.pairwise_append.mp h).2.2 e he last List.mem_cons_self) hle
    · rw [List.mem_singleton.mp he]
      exact hle

end Windows

/-! ## Runs -/

/-- What a generator is given: a record, with the table and what the writes return. -/
structure Delivery where
  stats : PerThreadStats
  env : Env
  record : Record

/-- A generator, with the record that its handler refused, if it refused the last one, and
the times of the records it was given: the last time of those that are not lost records,
and the largest time of all. -/
structure World where
  gen : CpuThreadSwitchGenerator
  terminated : Bool
  refused : Option Record
  lastStamp : ℕ
  maxStamp : ℕ

namespace World

def init (tidLevel compUnitId : ℕ) : World := ⟨⟨tidLevel, compUnitId, 0, false, []⟩, false, none, 0, 0⟩

/-- A handler that ends the program does so after it has written. -/
def step (w : World) (t : Delivery) : World :=
  if w.terminated then w
  else match w.gen.handleRecord t.stats t.env t.record with
    | .error _ => { w with gen := (w.gen.emit t.stats t.env t.record).2, terminated := true }
    | .ok h =>
      { gen := h.gen
        terminated := false
        refused := if h.ret < 0 then some t.record else none
        lastStamp := if t.record.isLost then w.lastStamp else t.record.tstamp
        maxStamp := max w.maxStamp t.record.tstamp }

/-- A record that was refused is presented again.  Times of records do not decrease, but
for lost records, whose times are not before those of the records before them. -/
structure Presents (w : World) (t : Delivery) : Prop where
  again : ∀ r ∈ w.refused, t.record = r
  le_of_lost : t.record.isLost = true → w.maxStamp ≤ t.record.tstamp
  le_of_not_lost : t.record.isLost = false → w.lastStamp ≤ t.record.tstamp
  tstamp_lt : t.record.tstamp < kInvalidTimeStamp

/-- An open window, which starts with the last event, is not closed by a record from
before its start. -/
def ClosesAfterStart (w : World) (t : Delivery) : Prop :=
  w.terminated = false → w.gen.inWriteErrors = true → 0 ≤ t.env.endRet →
    ∀ start ∈ w.gen.output.getLast?, start.tstamp ≤ t.record.tstamp

/-- What holds in every run in which windows are closed after their start. -/
structure Inv (w : World) : Prop where
  sorted : w.gen.output.Pairwise fun a b => a.tstamp ≤ b.tstamp
  windows : window false w.gen.output = some w.gen.inWriteErrors
  le_last : w.gen.inWriteErrors = false → ∀ e ∈ w.gen.output, e.tstamp ≤ w.gen.lastTstamp
  last_le : w.terminated = false → w.gen.inWriteErrors = false → w.refused = none →
    w.gen.lastTstamp ≤ w.lastStamp
  last_le_refused : w.terminated = false → w.gen.inWriteErrors = false → ∀ r ∈ w.refused,
    w.gen.lastTstamp ≤ r.tstamp
  lastStamp_le : w.lastStamp ≤ w.maxStamp

end World

section Steps

variable {s : PerThreadStats} {g : CpuThreadSwitchGenerator} {env : Env} {r : Record}
  {ev : Event} {w : World} {t : Delivery}

namespace CpuThreadSwitchGenerator

/-- The event for a lost record starts a window after the last time. -/
theorem eventOf_lost (h : r.isLost = true) :
    eventOf s g r = some
      ⟨g.lastTstamp + 1, .writeErrorsStart, kInvalidLevel, g.compUnitId, Tagstack.kNA⟩ := by
  cases r with
  | lost tstamp => rfl
  | comm c => cases h
  | exit x => cases h
  | fork x => cases h
  | switch x => cases h

/-- The event for another record has its time, and is outside of all windows. -/
theorem eventOf_not_lost (h : r.isLost = false) (hev : eventOf s g r = some ev) :
    ev.tstamp = r.tstamp ∧ window false [ev] = some false := by
  cases r with
  | lost tstamp => cases h
  | comm c => cases hev
  | exit x =>
    cases hev
    exact ⟨rfl, rfl⟩
  | fork x =>
    cases hev
    exact ⟨rfl, rfl⟩
  | switch x =>
    rw [eventOf] at hev
    split at hev
    · cases hev
      refine ⟨rfl, ?_⟩
      split <;> rfl
    · cases hev
      exact ⟨rfl, rfl⟩

/-- A window that is not closed stays as it is. -/
theorem pendingRecordLost_refused {tstamp : ℕ} (hp : (g.pendingRecordLost env tstamp).1 < 0) :
    g.inWriteErrors = true ∧ g.pendingRecordLost env tstamp = (env.endRet, g) := by
  unfold pendingRecordLost at hp ⊢
  split
  · rename_i he
    rw [if_pos he] at hp
    split at hp
    · rename_i hret
      exact absurd hp (not_lt.mpr hret)
    · rename_i hret
      rw [if_neg hret, write_of_neg hret]
      exact ⟨he, rfl⟩
  · rename_i he
    rw [if_neg he] at hp
    exact absurd hp (lt_irrefl _)

/-- Otherwise there is no window, or it is closed. -/
theorem pendingRecordLost_closed {tstamp : ℕ} (hp : ¬ (g.pendingRecordLost env tstamp).1 < 0) :
    (g.inWriteErrors = false ∧ (g.pendingRecordLost env tstamp).2 = g) ∨
      (g.inWriteErrors = true ∧ 0 ≤ env.endRet ∧ (g.pendingRecordLost env tstamp).2 =
        { g with
          output := g.output ++
            [⟨tstamp, .writeErrorsEnd, kInvalidLevel, g.compUnitId, Tagstack.kNA⟩]
          lastTstamp := tstamp
          inWriteErrors := false }) := by
  unfold pendingRecordLost at hp ⊢
  split
  · rename_i he
    rw [if_pos he] at hp
    split at hp
    · rename_i hret
      rw [if_pos hret, write_of_nonneg hret]
      exact Or.inr ⟨he, hret, rfl⟩
    · rename_i hret
      exact absurd (not_le.mp hret) hp
  · rename_i he
    exact Or.inl ⟨Bool.eq_false_iff.mpr he, rfl⟩

/-- There is no window, and what was written is from before a time. -/
structure Closed (g : CpuThreadSwitchGenerator) (tstamp : ℕ) : Prop where
  closed : g.inWriteErrors = false
  sorted : g.output.Pairwise fun a b => a.tstamp ≤ b.tstamp
  windows : window false g.output = some false
  le_last : ∀ e ∈ g.output, e.tstamp ≤ g.lastTstamp
  last_le : g.lastTstamp ≤ tstamp

/-- What a generator has written for a record, and what it returns. -/
structure Emitted (r : Record) (p : ℤ × CpuThreadSwitchGenerator) : Prop where
  sorted : p.2.output.Pairwise fun a b => a.tstamp ≤ b.tstamp
  windows : window false p.2.output = some p.2.inWriteErrors
  le_last : p.2.inWriteErrors = false → ∀ e ∈ p.2.output, e.tstamp ≤ p.2.lastTstamp
  last_le : p.2.inWriteErrors = false → p.2.lastTstamp ≤ r.tstamp
  not_lost : p.2.inWriteErrors = false → 0 ≤ p.1 → r.isLost = false

/-- Nothing but the end of a window was written. -/
theorem Closed.emitted (h : g.Closed r.tstamp) {ret : ℤ} (hret : ret < 0) :
    Emitted r (ret, g) := by
  refine ⟨h.sorted, ?_, fun _ => h.le_last, fun _ => h.last_le, fun _ hpos => ?_⟩
  · rw [h.closed]
    exact h.windows
  · exact absurd hret (not_lt.mpr hpos)

/-- The event of a record was written. -/
theorem Closed.emitted_event (h : g.Closed r.tstamp) (hev : eventOf s g r = some ev) {ret : ℤ} :
    Emitted r (ret, { g with
      output := g.output ++ [ev]
      lastTstamp := r.tstamp
      inWriteErrors := g.inWriteErrors || r.isLost }) := by
  have hclosed : (g.inWriteErrors || r.isLost) = r.isLost := by rw [h.closed, Bool.false_or]
  rw [hclosed]
  cases hlost : r.isLost with
  | true =>
    rw [eventOf_lost hlost] at hev
    cases hev
    refine ⟨sorted_concat h.sorted fun e he => le_trans (h.le_last e he) (Nat.le_succ _), ?_, ?_,
      ?_, ?_⟩
    · rw [window_concat, h.windows]
      rfl
    · exact fun hf => nomatch hf
    · exact fun hf => nomatch hf
    · exact fun hf => nomatch hf
  | false =>
    obtain ⟨htstamp, hwindow⟩ := eventOf_not_lost hlost hev
    have hle : ∀ e ∈ g.output, e.tstamp ≤ ev.tstamp := by
      intro e he
      rw [htstamp]
      exact le_trans (h.le_last e he) h.last_le
    refine ⟨sorted_concat h.sorted hle, ?_, fun _ e he => ?_, fun _ => le_refl _, fun _ _ => hlost⟩
    · rw [window_concat, h.windows]
      exact hwindow
    · rcases List.mem_append.mp he with he | he
      · exact le_trans (h.le_last e he) h.last_le
      · rw [List.mem_singleton.mp he, htstamp]

/-- A record without an event was handled. -/
theorem Closed.emitted_none (h : g.Closed r.tstamp) (hev : eventOf s g r = none) :
    Emitted r (0, { g with lastTstamp := r.tstamp }) := by
  refine ⟨h.sorted, ?_, fun _ e he => le_trans (h.le_last e he) h.last_le, fun _ => le_refl _,
    fun _ _ => ?_⟩
  · exact h.windows.trans (congrArg some h.closed.symm)
  · by_contra hlost
    rw [eventOf_lost (Bool.not_eq_false _ ▸ hlost)] at hev
    cases hev

end CpuThreadSwitchGenerator

namespace World

open CpuThreadSwitchGenerator

/-- After a window was closed, or where there is none, all that was written is from before
the record. -/
theorem Inv.closed (h : Inv w) (hv : w.Presents t) (hc : w.ClosesAfterStart t)
    (hlive : w.terminated = false)
    (hp : ¬ (w.gen.pendingRecordLost t.env t.record.tstamp).1 < 0) :
    (w.gen.pendingRecordLost t.env t.record.tstamp).2.Closed t.record.tstamp := by
  rcases pendingRecordLost_closed hp with ⟨he, heq⟩ | ⟨he, hret, heq⟩
  · rw [heq]
    refine ⟨he, h.sorted, he ▸ h.windows, h.le_last he, ?_⟩
    cases href : w.refused with
    | some r =>
      rw [hv.again r href]
      exact h.last_le_refused hlive he r href
    | none =>
      refine le_trans (h.last_le hlive he href) ?_
      cases hlost : t.record.isLost with
      | true => exact le_trans h.lastStamp_le (hv.le_of_lost hlost)
      | false => exact hv.le_of_not_lost hlost
  · rw [heq]
    have hle : ∀ e ∈ w.gen.output, e.tstamp ≤ t.record.tstamp :=
      le_of_getLast? h.sorted (hc hlive he hret)
    refine ⟨rfl, sorted_concat h.sorted hle, ?_, ?_, le_refl _⟩
    · rw [window_concat, h.windows, he]
      rfl
    · intro e hmem
      rcases List.mem_append.mp hmem with hmem | hmem
      · exact hle e hmem
      · rw [List.mem_singleton.mp hmem]

/-- What is written for a record, where a window is closed after its start. -/
theorem Inv.emitted (h : Inv w) (hv : w.Presents t) (hc : w.ClosesAfterStart t)
    (hlive : w.terminated = false) :
    Emitted t.record (w.gen.emit t.stats t.env t.record) := by
  by_cases hp : (w.gen.pendingRecordLost t.env t.record.tstamp).1 < 0
  · obtain ⟨he, heq⟩ := pendingRecordLost_refused hp
    rw [emit_refused hp, heq]
    have hopen : w.gen.inWriteErrors ≠ false := by
      rw [he]
      decide
    exact ⟨h.sorted, h.windows, fun hf => absurd hf hopen, fun hf => absurd hf hopen,
      fun hf => absurd hf hopen⟩
  · have hclosed := h.closed hv hc hlive hp
    cases hev : eventOf t.stats (w.gen.pendingRecordLost t.env t.record.tstamp).2 t.record with
    | none =>
      rw [emit_of_none hp hev]
      exact hclosed.emitted_none hev
    | some ev =>
      rw [emit_of_some hp hev]
      split
      · exact hclosed.emitted_event hev
      · rename_i hret
        exact hclosed.emitted (not_le.mp hret)

/-- **One step.**  The invariant is kept where a window is closed after its start. -/
theorem Inv.step (h : Inv w) (hv : w.Presents t) (hc : w.ClosesAfterStart t) :
    Inv (w.step t) := by
  unfold World.step
  split
  · exact h
  · rename_i hlive
    rw [Bool.not_eq_true] at hlive
    have hemit := h.emitted hv hc hlive
    split
    · exact ⟨hemit.sorted, hemit.windows, hemit.le_last, (fun ht => nomatch ht),
        (fun ht => nomatch ht), h.lastStamp_le⟩
    · rename_i hd hh
      rw [handleRecord_eq_emit hh] at hemit
      refine ⟨hemit.sorted, hemit.windows, hemit.le_last, ?_, ?_, ?_⟩
      · intro _ hclosed href
        dsimp only at hclosed href ⊢
        have hpos : 0 ≤ hd.ret := by
          by_contra hneg
          rw [if_pos (not_le.mp hneg)] at href
          cases href
        rw [hemit.not_lost hclosed hpos]
        exact hemit.last_le hclosed
      · intro _ hclosed r href
        dsimp only at hclosed href ⊢
        split at href
        · cases href
          exact hemit.last_le hclosed
        · cases href
      · dsimp only
        split
        · exact le_trans h.lastStamp_le (le_max_left _ _)
        · exact le_max_right _ _

theorem Inv.wellOrdered (h : Inv w) : WellOrdered w.gen.output :=
  ⟨h.sorted, by rw [h.windows]; rfl⟩

/-- The output after a step is what was written for the record. -/
theorem step_output (hlive : w.terminated = false) :
    (w.step t).gen.output = (w.gen.emit t.stats t.env t.record).2.output := by
  rw [World.step, if_neg (by rw [hlive]; decide)]
  split
  · rfl
  · rename_i hh
    rw [handleRecord_eq_emit hh]

/-- What is written after the end of a window stands after it. -/
theorem emit_output_extends (hp : ¬ (g.pendingRecordLost env r.tstamp).1 < 0) :
    (g.pendingRecordLost env r.tstamp).2.output <+: (g.emit s env r).2.output := by
  cases hev : eventOf s (g.pendingRecordLost env r.tstamp).2 r with
  | none =>
    simp only [emit_of_none hp hev, List.prefix_rfl]
  | some ev =>
    rw [emit_of_some hp hev]
    split
    · exact List.prefix_append _ _
    · exact List.prefix_rfl

/-- A window that is closed by a record from before its start is out of order. -/
theorem not_wellOrdered_of_not_closesAfterStart (hc : ¬ w.ClosesAfterStart t) :
    ¬ WellOrdered (w.step t).gen.output := by
  simp only [ClosesAfterStart, not_forall] at hc
  obtain ⟨hlive, he, hret, start, hstart, hlt⟩ := hc
  intro h
  rw [step_output hlive] at h
  have hpending : w.gen.pendingRecordLost t.env t.record.tstamp = (t.env.endRet,
      { w.gen with
        output := w.gen.output ++
          [⟨t.record.tstamp, .writeErrorsEnd, kInvalidLevel, w.gen.compUnitId, Tagstack.kNA⟩]
        lastTstamp := t.record.tstamp
        inWriteErrors := false }) := by
    rw [pendingRecordLost, if_pos he, if_pos hret, write_of_nonneg hret]
  have hp : ¬ (w.gen.pendingRecordLost t.env t.record.tstamp).1 < 0 := by
    rw [hpending]
    exact not_lt.mpr hret
  have hsorted := h.sorted.sublist (emit_output_extends hp).sublist
  rw [hpending] at hsorted
  exact hlt ((List.pairwise_append.mp hsorted).2.2 start (List.mem_of_getLast? hstart) _
    List.mem_cons_self)

theorem inv_init (tidLevel compUnitId : ℕ) : Inv (init tidLevel compUnitId) := by
  constructor
  · exact List.Pairwise.nil
  · rfl
  · exact fun _ => List.forall_mem_nil _
  · exact fun _ _ _ => le_refl _
  · rintro _ _ r ⟨⟩
  · exact le_refl _

end World

end Steps

/-- **The order of the output.**  In every run of a generator, whatever its table and the
writes do, the times of the output do not decrease and windows of write errors open and
close in turn, with nothing else in them, exactly if no window is closed by a record from
before its start. -/
theorem wellOrdered_iff (tidLevel compUnitId : ℕ) (deliveries : List Delivery)
    (hpresents : Along World.step World.Presents (World.init tidLevel compUnitId) deliveries) :
    Throughout World.step (fun w => WellOrdered w.gen.output) (World.init tidLevel compUnitId)
        deliveries ↔
      Along World.step World.ClosesAfterStart (World.init tidLevel compUnitId) deliveries :=
  throughout_iff_along_of_valid (fun _ _ h hv hc => h.step hv hc) (fun _ h => h.wellOrdered)
    (fun _ _ _ _ hc => World.not_wellOrdered_of_not_closesAfterStart hc)
    (World.inv_init tidLevel compUnitId) hpresents

/-- A delivery where all writes succeed, and nothing is known of any thread. -/
def Delivery.ofRecord (r : Record) : Delivery := ⟨.init, ⟨⟨fun _ => none, fun _ => none⟩, 16, 16⟩, r⟩

/-- Two switches to the idle thread, with a lost record in between. -/
def lostBetween (lost second : ℕ) : List Delivery :=
  [.ofRecord (.switch ⟨0, 0, 0, 10⟩), .ofRecord (.lost lost), .ofRecord (.switch ⟨0, 0, 0, second⟩)]

theorem wellOrdered_lostBetween :
    Throughout World.step (fun w => WellOrdered w.gen.output) (World.init 0 0)
      (lostBetween 20 15) := by
  refine (wellOrdered_iff 0 0 _ ?_).mpr ?_
  · refine ⟨⟨?_, by decide, by decide, by decide⟩, ⟨?_, by decide, by decide, by decide⟩,
      ⟨?_, by decide, by decide, by decide⟩, trivial⟩
    · rintro r ⟨⟩
    · rintro r ⟨⟩
    · rintro r ⟨⟩
  · refine ⟨?_, ?_, ?_, trivial⟩
    · rintro _ ⟨⟩
    · rintro _ ⟨⟩
    · rintro _ _ _ start ⟨⟩
      decide

/-- The second switch is at the time of the first one, and the window it closes starts
after it. -/
theorem not_wellOrdered_lostBetween :
    Along World.step World.Presents (World.init 0 0) (lostBetween 20 10) ∧
      ¬ WellOrdered ((lostBetween 20 10).foldl World.step (World.init 0 0)).gen.output := by
  constructor
  · refine ⟨⟨?_, by decide, by decide, by decide⟩, ⟨?_, by decide, by decide, by decide⟩,
      ⟨?_, by decide, by decide, by decide⟩, trivial⟩
    · rintro r ⟨⟩
    · rintro r ⟨⟩
    · rintro r ⟨⟩
  · intro h
    have hsorted := h.sorted
    revert hsorted
    decide

end PerfEvent
end IntegratedCLI
