import Mathlib.Data.List.Pairwise
import Mathlib.Tactic.Common
import IntegratedCLI.Lib.Run
import IntegratedCLI.Tagstack.Event

/-!
# Conversion of time stamps in front of a consumer

`TscConverterStream` reads events from a ring buffer, converts their time stamps
and hands them on.  It holds one converted event back, in `aux_`, while the ring
buffer stream below it holds a cursor of its own.

* `RingBufferStream` is the stream of `Stream.h`, over a ring that is a list of
  events with its tail at the head of the list.
* `TscConverterStream` is the adaptor.  The conversion is an arbitrary function.
* `World` puts the adaptor between a producer that offers events and a consumer
  that polls: `prepareNext`, and `complete` exactly when it returned an event.

## What goes wrong

`prepareNext` returns the event it holds only if that event is due.  If it is
not, the code falls through to the read and puts the next event of the ring over
the one it holds.  So an event is kept exactly when the ring gives nothing while
an event is held that is not due (`KeepsPending`), and this is the condition
under which the stream is the adaptor it is meant to be.
-/

namespace IntegratedCLI
namespace Tagstack

/-! ## The ring buffer stream -/

/-- A consumer of a ring of events.  `nextEvent` is the event of the read
transaction that is open, if one is. -/
structure RingBufferStream where
  ring : List Event
  nextEvent : Option Event
  deriving DecidableEq, Repr

namespace RingBufferStream

/-- The attempts at a read transaction, `left` of which remain after this one.
An attempt that does not open finds the ring busy or has to be tried again. -/
def readRetry (ring : List Event) (opens : ℕ → Bool) : ℕ → Option Event
  | 0 => if opens 0 then ring.head? else none
  | left + 1 => if opens (left + 1) then ring.head? else readRetry ring opens left

def maxNumRetries : ℕ := 2

/-- The next event that is due at `stopTs`.  `opens` says which attempts at a
read transaction succeed. -/
def prepareNext (rb : RingBufferStream) (opens : ℕ → Bool) (stopTs : ℕ) :
    Option Event × RingBufferStream :=
  match rb.nextEvent with
  | some ev => (if ev.tstamp ≤ stopTs then some ev else none, rb)
  | none =>
    match readRetry rb.ring opens maxNumRetries with
    | none => (none, rb)
    | some ev =>
      (if ev.tstamp ≤ stopTs then some ev else none, { rb with nextEvent := some ev })

/-- Commit the read transaction. -/
def complete (rb : RingBufferStream) : RingBufferStream :=
  { ring := rb.ring.drop 1, nextEvent := none }

/-- Whether a call made now, with no transaction open, gives an event. -/
def yields (rb : RingBufferStream) (opens : ℕ → Bool) : Bool :=
  (readRetry rb.ring opens maxNumRetries).isSome

theorem readRetry_eq (ring : List Event) (opens : ℕ → Bool) (left : ℕ) :
    readRetry ring opens left = none ∨ readRetry ring opens left = ring.head? := by
  induction left with
  | zero => unfold readRetry; split <;> simp
  | succ left ih =>
    unfold readRetry
    split
    · exact Or.inr rfl
    · exact ih

end RingBufferStream

/-! ## The adaptor -/

/-- The adaptor and the converted event it holds back.  No event is held when
`aux.tstamp` is `kInvalidTimeStamp`. -/
structure TscConverterStream where
  rbStream : RingBufferStream
  aux : Event
  deriving DecidableEq, Repr

namespace TscConverterStream

variable (kernelTimeFromTsc : ℕ → ℕ)

/-- The next event whose converted time stamp is due at `stopTs`. -/
def prepareNext (s : TscConverterStream) (opens : ℕ → Bool) (stopTs : ℕ) :
    Option Event × TscConverterStream :=
  if s.aux.tstamp ≠ kInvalidTimeStamp ∧ s.aux.tstamp ≤ stopTs then (some s.aux, s)
  else
    match s.rbStream.prepareNext opens kMaxTimeStamp with
    | (none, rb) => (none, { s with rbStream := rb })
    | (some ev, rb) =>
      let aux := { ev with tstamp := kernelTimeFromTsc ev.tstamp }
      (if aux.tstamp ≤ stopTs then some aux else none, ⟨rb.complete, aux⟩)

def complete (s : TscConverterStream) : TscConverterStream :=
  { s with aux := { s.aux with tstamp := kInvalidTimeStamp } }

/-- The adaptor over an empty ring. -/
def init : TscConverterStream := ⟨⟨[], none⟩, ⟨kInvalidTimeStamp, .start, 0, 0, 0⟩⟩

end TscConverterStream

/-! ## The producer and the consumer -/

/-- What happens at the two ends: an event is offered to the ring, or the
consumer polls once up to `stopTs`. -/
inductive StreamOp where
  | offer (ev : Event)
  | poll (opens : ℕ → Bool) (stopTs : ℕ)

/-- The adaptor, the events offered to the ring so far and the events the
consumer has received so far, oldest first. -/
structure World where
  stream : TscConverterStream
  offered : List Event
  received : List Event
  deriving DecidableEq

namespace World

variable (kernelTimeFromTsc : ℕ → ℕ)

def init : World := ⟨TscConverterStream.init, [], []⟩

def offer (w : World) (ev : Event) : World :=
  { w with
    stream := { w.stream with
      rbStream := { w.stream.rbStream with ring := w.stream.rbStream.ring ++ [ev] } }
    offered := w.offered ++ [ev] }

/-- The consumer polls: it takes the event it is given and completes it. -/
def poll (w : World) (opens : ℕ → Bool) (stopTs : ℕ) : World :=
  match w.stream.prepareNext kernelTimeFromTsc opens stopTs with
  | (none, s) => { w with stream := s }
  | (some ev, s) => { w with stream := s.complete, received := w.received ++ [ev] }

def step (w : World) : StreamOp → World
  | .offer ev => w.offer ev
  | .poll opens stopTs => w.poll kernelTimeFromTsc opens stopTs

/-- An event as the consumer is meant to see it. -/
def convert (ev : Event) : Event := { ev with tstamp := kernelTimeFromTsc ev.tstamp }

/-- The event held back, if one is. -/
def pending (w : World) : List Event :=
  if w.stream.aux.isValid then [w.stream.aux] else []

/-- Every event offered has been received, is held back or is still in the ring,
once and in the order it was offered in. -/
def NoneLost (w : World) : Prop :=
  w.received ++ w.pending ++ w.stream.rbStream.ring.map (convert kernelTimeFromTsc) =
    w.offered.map (convert kernelTimeFromTsc)

instance (w : World) : Decidable (NoneLost kernelTimeFromTsc w) :=
  inferInstanceAs (Decidable (_ = _))

/-- No poll finds an event held back that is not due while the ring has another
one to give. -/
def KeepsPending (w : World) : StreamOp → Prop
  | .offer _ => True
  | .poll opens stopTs =>
    w.stream.aux.isValid = true → stopTs < w.stream.aux.tstamp →
      w.stream.rbStream.yields opens = false

/-- The events a producer can offer: their time stamp is one, and so is what it
converts to. -/
def Offerable : StreamOp → Prop
  | .offer ev => ev.tstamp ≤ kMaxTimeStamp ∧ kernelTimeFromTsc ev.tstamp < kInvalidTimeStamp
  | .poll _ _ => True

/-- What holds between any two operations: no read transaction is left open, and
the events in the ring are ones that were offered. -/
structure Quiet (w : World) : Prop where
  nextEvent : w.stream.rbStream.nextEvent = none
  ring : ∀ ev ∈ w.stream.rbStream.ring, Offerable kernelTimeFromTsc (.offer ev)

variable {kernelTimeFromTsc}

/-- Everything a poll can do: deliver the event held back; find nothing to read;
or read the event at the tail of the ring, and deliver it or hold it back. -/
theorem poll_cases {w : World} (hw : w.Quiet kernelTimeFromTsc) (opens : ℕ → Bool) (stopTs : ℕ) :
    (w.stream.aux.isValid = true ∧ w.stream.aux.tstamp ≤ stopTs ∧
      w.poll kernelTimeFromTsc opens stopTs =
        { w with stream := w.stream.complete, received := w.received ++ [w.stream.aux] }) ∨
    (¬ (w.stream.aux.isValid = true ∧ w.stream.aux.tstamp ≤ stopTs) ∧
      w.stream.rbStream.yields opens = false ∧ w.poll kernelTimeFromTsc opens stopTs = w) ∨
    (¬ (w.stream.aux.isValid = true ∧ w.stream.aux.tstamp ≤ stopTs) ∧
      w.stream.rbStream.yields opens = true ∧
      ∃ ev ring, w.stream.rbStream.ring = ev :: ring ∧
        ((kernelTimeFromTsc ev.tstamp ≤ stopTs ∧
            w.poll kernelTimeFromTsc opens stopTs =
              { w with
                stream := (⟨⟨ring, none⟩, convert kernelTimeFromTsc ev⟩ :
                  TscConverterStream).complete
                received := w.received ++ [convert kernelTimeFromTsc ev] }) ∨
          (stopTs < kernelTimeFromTsc ev.tstamp ∧
            w.poll kernelTimeFromTsc opens stopTs =
              { w with stream := ⟨⟨ring, none⟩, convert kernelTimeFromTsc ev⟩ }))) := by
  obtain ⟨⟨⟨ring, nextEvent⟩, aux⟩, offered, received⟩ := w
  have hnext : nextEvent = none := hw.nextEvent
  subst hnext
  by_cases hdue : aux.isValid = true ∧ aux.tstamp ≤ stopTs
  · left
    refine ⟨hdue.1, hdue.2, ?_⟩
    have hvalid : aux.tstamp ≠ kInvalidTimeStamp := by simpa [Event.isValid] using hdue.1
    simp [poll, TscConverterStream.prepareNext, hvalid, hdue.2]
  · right
    have hdue' : ¬ (aux.tstamp ≠ kInvalidTimeStamp ∧ aux.tstamp ≤ stopTs) := by
      simpa [Event.isValid] using hdue
    rcases RingBufferStream.readRetry_eq ring opens RingBufferStream.maxNumRetries with
      hread | hread
    · left
      refine ⟨hdue, by simp [RingBufferStream.yields, hread], ?_⟩
      simp [poll, TscConverterStream.prepareNext, RingBufferStream.prepareNext, hdue', hread]
    · cases ring with
      | nil =>
        left
        refine ⟨hdue, by simp [RingBufferStream.yields, hread], ?_⟩
        simp [poll, TscConverterStream.prepareNext, RingBufferStream.prepareNext, hdue', hread]
      | cons ev ring =>
        right
        have hev : ev.tstamp ≤ kMaxTimeStamp := (hw.ring ev (by simp)).1
        refine ⟨hdue, by simp [RingBufferStream.yields, hread], ev, ring, rfl, ?_⟩
        by_cases hstop : kernelTimeFromTsc ev.tstamp ≤ stopTs
        · refine Or.inl ⟨hstop, ?_⟩
          simp [poll, TscConverterStream.prepareNext, RingBufferStream.prepareNext, hdue', hread,
            hev, hstop, convert, RingBufferStream.complete]
        · refine Or.inr ⟨Nat.lt_of_not_le hstop, ?_⟩
          simp [poll, TscConverterStream.prepareNext, RingBufferStream.prepareNext, hdue', hread,
            hev, hstop, convert, RingBufferStream.complete]

theorem quiet_init : init.Quiet kernelTimeFromTsc :=
  ⟨rfl, by simp [init, TscConverterStream.init]⟩

theorem quiet_step (w : World) (op : StreamOp) (hw : w.Quiet kernelTimeFromTsc)
    (hop : Offerable kernelTimeFromTsc op) : (w.step kernelTimeFromTsc op).Quiet kernelTimeFromTsc := by
  cases op with
  | offer ev =>
    refine ⟨hw.nextEvent, ?_⟩
    intro e he
    rcases List.mem_append.mp he with he | he
    · exact hw.ring e he
    · rw [List.mem_singleton.mp he]
      exact hop
  | poll opens stopTs =>
    rcases poll_cases hw opens stopTs with ⟨-, -, h⟩ | ⟨-, -, h⟩ | ⟨-, -, ev, ring, hring, h⟩
    · rw [step, h]
      exact ⟨hw.nextEvent, hw.ring⟩
    · rw [step, h]
      exact hw
    · have hsub : ∀ e ∈ ring, Offerable kernelTimeFromTsc (.offer e) := by
        intro e he
        exact hw.ring e (by rw [hring]; exact List.mem_cons_of_mem _ he)
      rcases h with ⟨-, h⟩ | ⟨-, h⟩
      · rw [step, h]
        exact ⟨rfl, hsub⟩
      · rw [step, h]
        exact ⟨rfl, hsub⟩

theorem isValid_convert {ev : Event} (h : Offerable kernelTimeFromTsc (.offer ev)) :
    (convert kernelTimeFromTsc ev).isValid = true := by
  have hne : kernelTimeFromTsc ev.tstamp ≠ kInvalidTimeStamp := Nat.ne_of_lt h.2
  simpa [Event.isValid, convert] using hne

theorem pending_of_isValid {w : World} (h : w.stream.aux.isValid = true) :
    w.pending = [w.stream.aux] := by
  rw [pending, if_pos h]

theorem pending_of_not_isValid {w : World} (h : ¬ w.stream.aux.isValid = true) :
    w.pending = [] := by
  rw [pending, if_neg h]

theorem not_isValid_complete (s : TscConverterStream) : ¬ s.complete.aux.isValid = true := by
  simp [TscConverterStream.complete, Event.isValid]

/-- A step keeps every event exactly when it keeps the one held back. -/
theorem noneLost_step_iff (w : World) (op : StreamOp) (hw : w.Quiet kernelTimeFromTsc)
    (hop : Offerable kernelTimeFromTsc op) (hlost : w.NoneLost kernelTimeFromTsc) :
    (w.step kernelTimeFromTsc op).NoneLost kernelTimeFromTsc ↔ w.KeepsPending op := by
  unfold NoneLost at hlost ⊢
  cases op with
  | offer ev =>
    have hpending : (w.step kernelTimeFromTsc (.offer ev)).pending = w.pending := rfl
    rw [hpending]
    simp only [step, offer, KeepsPending, List.map_append, ← hlost, List.append_assoc]
  | poll opens stopTs =>
    rcases poll_cases hw opens stopTs with
      ⟨hvalid, hdue, h⟩ | ⟨-, hyields, h⟩ | ⟨hdue, hyields, ev, ring, hring, h⟩
    · have hkeeps : w.KeepsPending (.poll opens stopTs) :=
        fun _ hlate => absurd hdue (Nat.not_le.mpr hlate)
      rw [iff_true_right hkeeps, step, h, pending_of_not_isValid (not_isValid_complete _)]
      rw [pending_of_isValid hvalid] at hlost
      simpa [TscConverterStream.complete] using hlost
    · have hkeeps : w.KeepsPending (.poll opens stopTs) := fun _ _ => hyields
      rw [iff_true_right hkeeps, step, h]
      exact hlost
    · have hev : Offerable kernelTimeFromTsc (.offer ev) := hw.ring ev (by rw [hring]; simp)
      -- either way the event read takes the place of the one held back
      have hafter : (w.step kernelTimeFromTsc (.poll opens stopTs)).received ++
            (w.step kernelTimeFromTsc (.poll opens stopTs)).pending ++
            (w.step kernelTimeFromTsc (.poll opens stopTs)).stream.rbStream.ring.map
              (convert kernelTimeFromTsc) =
          w.received ++ w.stream.rbStream.ring.map (convert kernelTimeFromTsc) ∧
          (w.step kernelTimeFromTsc (.poll opens stopTs)).offered = w.offered := by
        rcases h with ⟨-, h⟩ | ⟨-, h⟩
        · rw [step, h, pending_of_not_isValid (not_isValid_complete _), hring]
          simp [TscConverterStream.complete]
        · rw [step, h, pending_of_isValid (isValid_convert hev), hring]
          simp
      rw [hafter.1, hafter.2]
      by_cases hvalid : w.stream.aux.isValid = true
      · have hlate : stopTs < w.stream.aux.tstamp :=
          Nat.lt_of_not_le fun hle => hdue ⟨hvalid, hle⟩
        have hkeeps : ¬ w.KeepsPending (.poll opens stopTs) := by
          intro hkeeps
          have hnone := hkeeps hvalid hlate
          rw [hyields] at hnone
          exact Bool.noConfusion hnone
        rw [iff_false_right hkeeps]
        intro heq
        rw [pending_of_isValid hvalid] at hlost
        have hlen := congrArg List.length (heq.trans hlost.symm)
        simp at hlen
      · have hkeeps : w.KeepsPending (.poll opens stopTs) := fun hv => absurd hv hvalid
        rw [iff_true_right hkeeps]
        rw [pending_of_not_isValid hvalid, List.append_nil] at hlost
        exact hlost

/-! ## A consumer that has caught up -/

/-- The stop times of the polls, in order. -/
def stopTimes (ops : List StreamOp) : List ℕ :=
  ops.filterMap fun
    | .offer _ => none
    | .poll _ stopTs => some stopTs

/-- Nothing that was received lies after `stopTs`. -/
def ReceivedBy (stopTs : ℕ) (w : World) : Prop := ∀ ev ∈ w.received, ev.tstamp ≤ stopTs

theorem receivedBy_step {stopTs : ℕ} (w : World) (op : StreamOp)
    (hw : w.Quiet kernelTimeFromTsc ∧ w.ReceivedBy stopTs)
    (hop : Offerable kernelTimeFromTsc op ∧ ∀ t ∈ stopTimes [op], t ≤ stopTs) :
    (w.step kernelTimeFromTsc op).Quiet kernelTimeFromTsc ∧
      (w.step kernelTimeFromTsc op).ReceivedBy stopTs := by
  refine ⟨quiet_step w op hw.1 hop.1, ?_⟩
  cases op with
  | offer ev => exact hw.2
  | poll opens t =>
    have ht : t ≤ stopTs := hop.2 t (by simp [stopTimes])
    have hadd : ∀ ev, ev.tstamp ≤ t → ∀ e ∈ w.received ++ [ev], e.tstamp ≤ stopTs := by
      intro ev hev e he
      rcases List.mem_append.mp he with he | he
      · exact hw.2 e he
      · rw [List.mem_singleton.mp he]
        exact Nat.le_trans hev ht
    rcases poll_cases hw.1 opens t with
      ⟨-, hdue, h⟩ | ⟨-, -, h⟩ | ⟨-, -, ev, ring, -, ⟨hdue, h⟩ | ⟨-, h⟩⟩
    · rw [step, h]
      exact hadd _ hdue
    · rw [step, h]
      exact hw.2
    · rw [step, h]
      exact hadd _ hdue
    · rw [step, h]
      exact hw.2

/-- When a poll that gets at the ring gives nothing, whatever has not been
received lies after the stop time. -/
theorem late_of_poll_none {w : World} {opens : ℕ → Bool} {stopTs : ℕ}
    (hw : w.Quiet kernelTimeFromTsc) (hkeeps : w.KeepsPending (.poll opens stopTs))
    (hopens : opens RingBufferStream.maxNumRetries = true)
    (hnone : (w.stream.prepareNext kernelTimeFromTsc opens stopTs).1 = none)
    (hlost : w.NoneLost kernelTimeFromTsc)
    (hsorted : (w.offered.map (convert kernelTimeFromTsc)).Pairwise
      fun a b => a.tstamp ≤ b.tstamp) :
    ∀ ev ∈ w.pending ++ w.stream.rbStream.ring.map (convert kernelTimeFromTsc),
      stopTs < ev.tstamp := by
  have hreceived : (w.poll kernelTimeFromTsc opens stopTs).received = w.received := by
    unfold poll
    split
    · rfl
    · rename_i ev s heq
      simp [heq] at hnone
  have hread : ∀ rb : RingBufferStream, rb.yields opens = rb.ring.head?.isSome := by
    intro rb
    have hfirst : RingBufferStream.readRetry rb.ring opens RingBufferStream.maxNumRetries =
        rb.ring.head? := if_pos hopens
    rw [RingBufferStream.yields, hfirst]
  rcases poll_cases hw opens stopTs with
    ⟨-, -, h⟩ | ⟨hdue, hyields, -⟩ | ⟨hdue, hyields, ev, ring, hring, ⟨-, h⟩ | ⟨hlate, -⟩⟩
  · rw [h] at hreceived
    simp at hreceived
  · have hempty : w.stream.rbStream.ring = [] := by
      rw [hread] at hyields
      simpa using hyields
    intro ev hev
    rw [hempty, List.map_nil, List.append_nil] at hev
    by_cases hvalid : w.stream.aux.isValid = true
    · rw [pending_of_isValid hvalid, List.mem_singleton] at hev
      rw [hev]
      exact Nat.lt_of_not_le fun hle => hdue ⟨hvalid, hle⟩
    · rw [pending_of_not_isValid hvalid] at hev
      simp at hev
  · rw [h] at hreceived
    simp at hreceived
  · have hvalid : ¬ w.stream.aux.isValid = true := by
      intro hvalid
      have := hkeeps hvalid (Nat.lt_of_not_le fun hle => hdue ⟨hvalid, hle⟩)
      rw [hyields] at this
      exact Bool.noConfusion this
    rw [pending_of_not_isValid hvalid, hring, List.nil_append]
    rw [NoneLost, pending_of_not_isValid hvalid, hring, List.append_nil] at hlost
    rw [← hlost, List.map_cons] at hsorted
    have hrest := (List.pairwise_append.mp hsorted).2.1
    intro e he
    rcases List.mem_cons.mp he with rfl | he
    · exact hlate
    · exact Nat.lt_of_lt_of_le hlate ((List.pairwise_cons.mp hrest).1 e he)

/-- **Which runs lose no event.**  No event is lost, delivered twice or moved in
any state of a run exactly when no poll of it reads over an event held back.  In
such a run, a consumer with nondecreasing stop times that has polled until it was
given nothing has received every event up to its last stop time, once and in
order. -/
theorem noneLost_iff_keepsPending (kernelTimeFromTsc : ℕ → ℕ) (ops : List StreamOp)
    (hops : ∀ op ∈ ops, Offerable kernelTimeFromTsc op) :
    (Run.Throughout (step kernelTimeFromTsc) (NoneLost kernelTimeFromTsc) init ops ↔
      Run.Along (step kernelTimeFromTsc) KeepsPending init ops) ∧
    ∀ (opens : ℕ → Bool) (stopTs : ℕ) (w : World),
      ops.foldl (step kernelTimeFromTsc) init = w →
      Run.Along (step kernelTimeFromTsc) KeepsPending init (ops ++ [.poll opens stopTs]) →
      (stopTimes (ops ++ [.poll opens stopTs])).Pairwise (· ≤ ·) →
      (w.offered.map (convert kernelTimeFromTsc)).Pairwise (fun a b => a.tstamp ≤ b.tstamp) →
      opens RingBufferStream.maxNumRetries = true →
      (w.stream.prepareNext kernelTimeFromTsc opens stopTs).1 = none →
      w.received =
        (w.offered.map (convert kernelTimeFromTsc)).filter fun ev => ev.tstamp ≤ stopTs := by
  have hlost : ∀ {ops : List StreamOp}, (∀ op ∈ ops, Offerable kernelTimeFromTsc op) →
      (Run.Throughout (step kernelTimeFromTsc) (NoneLost kernelTimeFromTsc) init ops ↔
        Run.Along (step kernelTimeFromTsc) KeepsPending init ops) := by
    intro ops hops
    exact Run.throughout_iff_along quiet_step noneLost_step_iff quiet_init hops rfl
  refine ⟨hlost hops, ?_⟩
  rintro opens stopTs w rfl hkeeps hstops hsorted hopens hnone
  obtain ⟨hkeeps, hlast, -⟩ := Run.along_append.mp hkeeps
  have hlost' := ((hlost hops).mpr hkeeps).last
  have hall : ∀ op ∈ ops, Offerable kernelTimeFromTsc op ∧ ∀ t ∈ stopTimes [op], t ≤ stopTs := by
    intro op hop
    refine ⟨hops op hop, fun t ht => ?_⟩
    have hmem : t ∈ stopTimes ops := by
      simp only [stopTimes, List.mem_filterMap, List.mem_singleton] at ht ⊢
      obtain ⟨op', rfl, h⟩ := ht
      exact ⟨op', hop, h⟩
    have happ : stopTimes (ops ++ [.poll opens stopTs]) = stopTimes ops ++ [stopTs] := by
      simp [stopTimes]
    rw [happ] at hstops
    exact (List.pairwise_append.mp hstops).2.2 t hmem stopTs (by simp)
  obtain ⟨hquiet, hby⟩ := Run.invariant_of_along (fun w op => receivedBy_step w op)
    ⟨quiet_init, by simp [ReceivedBy, init]⟩ (Run.along_const.mpr hall)
  have hlate := late_of_poll_none hquiet hlast hopens hnone hlost' hsorted
  rw [← hlost', List.append_assoc, List.filter_append]
  have hkept : (ops.foldl (step kernelTimeFromTsc) init).received.filter
      (fun ev => ev.tstamp ≤ stopTs) = (ops.foldl (step kernelTimeFromTsc) init).received :=
    List.filter_eq_self.mpr fun ev hev => by simpa using hby ev hev
  have hdropped : ((ops.foldl (step kernelTimeFromTsc) init).pending ++
      (ops.foldl (step kernelTimeFromTsc) init).stream.rbStream.ring.map
        (convert kernelTimeFromTsc)).filter (fun ev => ev.tstamp ≤ stopTs) = [] :=
    List.filter_eq_nil_iff.mpr fun ev hev => by simpa using hlate ev hev
  rw [hkept, hdropped, List.append_nil]

/-- An event at `tstamp`, alone on its compute unit. -/
def sampleEvent (tstamp : ℕ) : Event := ⟨tstamp, .switchIn, 0, 0, 1⟩

/-- Two events polled for in time: the first with a stop time that has come, the
second after a stop time that had not. -/
theorem noneLost_iff_keepsPending_two :
    Run.Throughout (step id) (NoneLost id) init
        [.offer (sampleEvent 10), .poll (fun _ => true) 5, .offer (sampleEvent 12),
          .poll (fun _ => true) 20] ∧
      ([.offer (sampleEvent 10), .poll (fun _ => true) 11, .offer (sampleEvent 12)].foldl
          (step id) init).received = [sampleEvent 10] := by
  constructor
  · refine (noneLost_iff_keepsPending id _ ?_).1.mpr ?_
    · simp [Offerable, sampleEvent, kMaxTimeStamp, kInvalidTimeStamp]
    · refine ⟨trivial, ?_, trivial, ?_, trivial⟩ <;> intro h <;> revert h <;> decide
  · refine (noneLost_iff_keepsPending id _ ?_).2 (fun _ => true) 11 _ rfl ?_ ?_ ?_ rfl ?_
    · simp [Offerable, sampleEvent, kMaxTimeStamp, kInvalidTimeStamp]
    · refine ⟨trivial, ?_, trivial, ?_, trivial⟩ <;> intro h <;> revert h <;> decide
    · decide
    · decide
    · decide

/-- **An event is lost.**  The stop times 5 and 7 come before the events at 10
and 12; the poll at 7 reads the second event over the first, and a consumer that
has then caught up at 20 has received only the second. -/
theorem pending_event_lost :
    let ops := [.offer (sampleEvent 10), .offer (sampleEvent 12), .poll (fun _ => true) 5,
      .poll (fun _ => true) 7, .poll (fun _ => true) 20]
    let w := ops.foldl (step id) init
    (stopTimes ops).Pairwise (· ≤ ·) ∧
      (w.stream.prepareNext id (fun _ => true) 20).1 = none ∧
      w.offered = [sampleEvent 10, sampleEvent 12] ∧ w.received = [sampleEvent 12] ∧
      ¬ w.NoneLost id := by
  decide

end World

end Tagstack
end IntegratedCLI
