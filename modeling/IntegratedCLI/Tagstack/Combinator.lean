import Mathlib.Data.List.Pairwise
import Mathlib.Tactic.Common
import IntegratedCLI.Lib.Interleaving
import IntegratedCLI.Lib.Run
import IntegratedCLI.Tagstack.TscConverterStream

/-!
# The binary tree of combinators

`Combinator` of `Stream.h` merges two streams of events by `happenedBefore`, and
`makeBinaryTree` puts combinators over a vector of input streams, two by two and
level by level, until one is left.

A `Stream` is such a tree.  Its leaves are ring buffer streams (`Input`): the
events that are in the ring, and the ones that are still to be written to it.  A
combinator takes its two children's next events into slots of its own, remembers
up to which time stamp a child has been found empty, and hands out the earlier
one of the two events.

## What a tree holds

`contents` is the list of the events that a tree will give out if it is asked for
long enough: at a leaf the events in their order, at a combinator the merge of
what the two sides have left.  Everything follows from one statement,
`prepareNext_spec`: a call returns the first event of `contents` if that event is
due, and none otherwise, and leaves `contents` as it was; `complete` then takes
that event off.  The statement is proved by induction on the tree, with the
invariant `Ready`.

A stream of events is sorted and its events have time stamps (`EventStream`): an
event with `kInvalidTimeStamp` stands for the absence of one.
-/

namespace IntegratedCLI
namespace Tagstack

/-! ## The streams -/

/-- A leaf: the ring buffer stream, and the events that are not in the ring yet. -/
structure Input where
  stream : RingBufferStream
  future : List Event

/-- A slot of a combinator for one child: the event that was taken from it, and
the largest `stop_ts` up to which it was found empty. -/
structure Slot where
  lastEvent : Event
  lastEmptyTs : ℕ

/-- Both slots and which of them was chosen: `true` for the first one. -/
structure CombinatorState where
  slotA : Slot
  slotB : Slot
  lastChosen : Option Bool

/-- A tree of combinators.  The second child of a combinator may be missing. -/
inductive Stream where
  | null
  | input (s : Input)
  | combinator (a b : Stream) (c : CombinatorState)

namespace Slot

/-- `{.tstamp = kInvalidTimeStamp}`, and no time up to which the child is empty. -/
def init : Slot := ⟨⟨kInvalidTimeStamp, .start, 0, 0, 0⟩, 0⟩

/-- The event in the slot, if there is one. -/
def pending (s : Slot) : List Event := if s.lastEvent.isValid then [s.lastEvent] else []

/-- Make the event of the slot one that is after every valid event. -/
def clear (s : Slot) : Slot :=
  { s with lastEvent :=
      { s.lastEvent with tstamp := kInvalidTimeStamp, compUnitId := 2 ^ 16 - 1 } }

end Slot

namespace CombinatorState

def init : CombinatorState := ⟨.init, .init, none⟩

def lastEvent (c : CombinatorState) (side : Bool) : Event :=
  if side then c.slotA.lastEvent else c.slotB.lastEvent

def clear (c : CombinatorState) (side : Bool) : CombinatorState :=
  if side then { c with slotA := c.slotA.clear, lastChosen := none }
  else { c with slotB := c.slotB.clear, lastChosen := none }

/-- The side of the earlier event, if there is an event. -/
def choose (c : CombinatorState) : Option Bool :=
  if c.slotA.lastEvent.isValid || c.slotB.lastEvent.isValid then
    some (c.slotA.lastEvent.happenedBefore c.slotB.lastEvent)
  else none

end CombinatorState

namespace Stream

/-- Release the event that `prepareNext` returned. -/
def complete : Stream → Stream
  | null => null
  | input s => input { s with stream := s.stream.complete }
  | combinator a b c =>
    match c.lastChosen with
    | none => combinator a b c
    | some side => combinator a b (c.clear side)

def isNull : Stream → Bool
  | null => true
  | _ => false

/-- Fill the slot from the child, whose next event is `next`.  A child that was
found empty up to `stopTs` is not asked again. -/
def fill (child : Stream) (next : Option Event × Stream) (slot : Slot) (stopTs : ℕ) :
    Stream × Slot :=
  if !child.isNull && !slot.lastEvent.isValid && decide (slot.lastEmptyTs < stopTs) then
    match next with
    | (some ev, child) => (child.complete, { slot with lastEvent := ev })
    | (none, child) => (child, { slot with lastEmptyTs := stopTs })
  else (child, slot)

/-- The next event of the stream that is due at `stopTs`. -/
def prepareNext (stopTs : ℕ) : Stream → Option Event × Stream
  | null => (none, null)
  | input s =>
    let (ev, stream) := s.stream.prepareNext (fun _ => true) stopTs
    (ev, input { s with stream := stream })
  | combinator a b c =>
    match c.lastChosen with
    | some side => (some (c.lastEvent side), combinator a b c)
    | none =>
      let (a, slotA) := fill a (prepareNext stopTs a) c.slotA stopTs
      let (b, slotB) := fill b (prepareNext stopTs b) c.slotB stopTs
      let c := { c with slotA := slotA, slotB := slotB }
      let chosen := c.choose
      (chosen.map c.lastEvent, combinator a b { c with lastChosen := chosen })

/-! ## Building the tree -/

/-- Why `makeBinaryTree` throws. -/
inductive TreeError where
  | noStreams
  | moreStreamsThanLeafNodes
  deriving DecidableEq, Repr

/-- One level: a combinator over every two streams, and one over a last stream that
is left. -/
def pairUp : List Stream → List Stream
  | [] => []
  | [a] => [combinator a null .init]
  | a :: b :: rest => combinator a b .init :: pairUp rest

/-- The tree over the streams.  The type of its root has `depth` combinators
nested in the outermost one. -/
def makeBinaryTree : ℕ → List Stream → Except TreeError Stream
  | depth, streams =>
    if streams = [] then throw .noStreams
    else
      match depth, pairUp streams with
      | 0, [root] => return root
      | 0, _ => throw .moreStreamsThanLeafNodes
      | depth + 1, nodes => makeBinaryTree depth nodes

end Stream

/-! ## The order of the events -/

theorem Event.happenedBefore_iff {x y : Event} :
    x.happenedBefore y = true ↔
      x.tstamp < y.tstamp ∨ x.tstamp = y.tstamp ∧ x.compUnitId < y.compUnitId := by
  unfold Event.happenedBefore
  split
  · rename_i h
    constructor
    · intro h'
      cases h'
    · omega
  · rename_i h
    rw [Bool.or_eq_true, decide_eq_true_eq, decide_eq_true_eq]
    omega

theorem Event.not_happenedBefore_iff {x y : Event} :
    x.happenedBefore y = false ↔
      y.tstamp < x.tstamp ∨ x.tstamp = y.tstamp ∧ y.compUnitId ≤ x.compUnitId := by
  rw [← Bool.not_eq_true, Event.happenedBefore_iff]
  omega

theorem Event.isValid_iff {e : Event} : e.isValid = true ↔ e.tstamp ≠ kInvalidTimeStamp := by
  simp [Event.isValid]

/-- No event of the list happened before one that is earlier in the list. -/
def Sorted (l : List Event) : Prop := l.Pairwise fun x y => y.happenedBefore x = false

/-- The events of a stream: in order, and with time stamps. -/
structure Orderly (l : List Event) : Prop where
  sorted : Sorted l
  valid : ∀ e ∈ l, e.tstamp < kInvalidTimeStamp

theorem Orderly.nil : Orderly [] := ⟨List.Pairwise.nil, by simp⟩

theorem Orderly.tail {e : Event} {l : List Event} (h : Orderly (e :: l)) : Orderly l :=
  ⟨(List.pairwise_cons.mp h.sorted).2, fun x hx => h.valid x (by simp [hx])⟩

/-- The time stamps of a sorted list do not go back. -/
theorem Sorted.le_of_mem {e x : Event} {l : List Event} (h : Sorted (e :: l)) (hx : x ∈ l) :
    e.tstamp ≤ x.tstamp := by
  have := (List.pairwise_cons.mp h).1 x hx
  rw [Event.not_happenedBefore_iff] at this
  omega

/-- The merge of two streams, which takes from the second one where neither event
happened before the other. -/
def mergeEvents (as bs : List Event) : List Event :=
  List.merge bs as fun b a => !a.happenedBefore b

theorem mem_mergeEvents {e : Event} {as bs : List Event} :
    e ∈ mergeEvents as bs ↔ e ∈ as ∨ e ∈ bs := by
  unfold mergeEvents
  rw [List.mem_merge]
  exact or_comm

@[simp] theorem mergeEvents_nil (as : List Event) : mergeEvents as [] = as := List.nil_merge _

theorem mergeEvents_left {x : Event} {l m : List Event}
    (h : ∀ y ∈ m.head?, x.happenedBefore y = true) :
    mergeEvents (x :: l) m = x :: mergeEvents l m := by
  cases m with
  | nil => simp
  | cons y m =>
    unfold mergeEvents
    rw [List.cons_merge_cons_neg]
    rw [h y rfl]
    decide

theorem mergeEvents_right {y : Event} {l m : List Event}
    (h : ∀ x ∈ l.head?, x.happenedBefore y = false) :
    mergeEvents l (y :: m) = y :: mergeEvents l m := by
  unfold mergeEvents
  cases l with
  | nil => simp
  | cons x l =>
    rw [List.cons_merge_cons_pos]
    rw [h x rfl]
    rfl

theorem Orderly.merge {as bs : List Event} (ha : Orderly as) (hb : Orderly bs) :
    Orderly (mergeEvents as bs) := by
  refine ⟨?_, ?_⟩
  · have htrans : ∀ x y z : Event, (!y.happenedBefore x) = true → (!z.happenedBefore y) = true →
        (!z.happenedBefore x) = true := by
      intro x y z
      simp only [Bool.not_eq_true', Event.not_happenedBefore_iff]
      omega
    have htotal : ∀ x y : Event, ((!y.happenedBefore x) || !x.happenedBefore y) = true := by
      intro x y
      simp only [Bool.or_eq_true, Bool.not_eq_true', Event.not_happenedBefore_iff]
      omega
    have h := List.pairwise_merge htrans htotal bs as
      (hb.sorted.imp fun h => by rw [h]; rfl) (ha.sorted.imp fun h => by rw [h]; rfl)
    exact h.imp fun h => by simpa using h
  · intro e he
    rcases mem_mergeEvents.mp he with h | h
    · exact ha.valid e h
    · exact hb.valid e h

/-! ## What a tree holds -/

namespace Slot

theorem pending_valid {s : Slot} (h : s.lastEvent.isValid = true) : s.pending = [s.lastEvent] := by
  unfold pending
  rw [if_pos h]

theorem pending_invalid {s : Slot} (h : s.lastEvent.isValid = false) : s.pending = [] := by
  unfold pending
  rw [if_neg (by simp [h])]

@[simp] theorem pending_init : init.pending = [] := by simp [pending, init, Event.isValid]

@[simp] theorem pending_clear (s : Slot) : s.clear.pending = [] := by
  simp [pending, clear, Event.isValid]

/-- What a slot knows about the events that its child has left. -/
structure Ready (ts : ℕ) (s : Slot) (left : List Event) : Prop where
  orderly : Orderly (s.pending ++ left)
  due : s.lastEvent.isValid = true → s.lastEvent.tstamp ≤ ts
  emptyTs : s.lastEmptyTs ≤ ts
  later : s.lastEmptyTs = 0 ∨ ∀ e ∈ s.pending ++ left, s.lastEmptyTs < e.tstamp

/-- The slot has the next event of its child, or the child has none that is due. -/
def Filled (ts : ℕ) (s : Slot) (left : List Event) : Prop :=
  s.lastEvent.isValid = true ∨ s.lastEvent.isValid = false ∧ ∀ e ∈ left, ts < e.tstamp

theorem Ready.mono {ts ts' : ℕ} {s : Slot} {left : List Event} (h : s.Ready ts left)
    (hts : ts ≤ ts') : s.Ready ts' left :=
  ⟨h.orderly, fun hv => Nat.le_trans (h.due hv) hts, Nat.le_trans h.emptyTs hts, h.later⟩

theorem Ready.clear {ts : ℕ} {s : Slot} {left : List Event} (h : s.Ready ts left) :
    s.clear.Ready ts left := by
  have hmem : ∀ e ∈ left, e ∈ s.pending ++ left := fun e he => List.mem_append_right _ he
  have hinvalid : s.clear.lastEvent.isValid = false := by simp [Slot.clear, Event.isValid]
  refine ⟨?_, fun hv => absurd hv (by rw [hinvalid]; decide), h.emptyTs, ?_⟩
  · rw [pending_clear, List.nil_append]
    exact ⟨(List.pairwise_append.mp h.orderly.sorted).2.1, fun e he => h.orderly.valid e (hmem e he)⟩
  · rw [pending_clear, List.nil_append]
    exact h.later.imp id fun h e he => h e (hmem e he)

end Slot

namespace Stream

/-- The events that the tree will give out, in the order in which it does. -/
def contents : Stream → List Event
  | null => []
  | input s => s.stream.ring ++ s.future
  | combinator a b c => mergeEvents (c.slotA.pending ++ a.contents) (c.slotB.pending ++ b.contents)

theorem contents_combinator (a b : Stream) (c : CombinatorState) :
    (combinator a b c).contents =
      mergeEvents (c.slotA.pending ++ a.contents) (c.slotB.pending ++ b.contents) := rfl

/-- The events at the leaves, leaf by leaf. -/
def leaves : Stream → List (List Event)
  | null => []
  | input s => [s.stream.ring ++ s.future]
  | combinator a b _ => a.leaves ++ b.leaves

/-- The events that are still to be written to the leaves. -/
def futures : Stream → List (List Event)
  | null => []
  | input s => [s.future]
  | combinator a b _ => a.futures ++ b.futures

/-- Every event up to `ts` is available in its stream. -/
def Available (ts : ℕ) (t : Stream) : Prop := ∀ l ∈ t.futures, ∀ e ∈ l, ts < e.tstamp

instance (ts : ℕ) (t : Stream) : Decidable (t.Available ts) :=
  inferInstanceAs (Decidable (∀ l ∈ t.futures, ∀ e ∈ l, ts < e.tstamp))

/-- The invariant of a tree that was last called with a `stop_ts` of at most `ts`. -/
def Ready (ts : ℕ) : Stream → Prop
  | null => True
  | input s => Orderly (s.stream.ring ++ s.future) ∧
      ∀ ev, s.stream.nextEvent = some ev → s.stream.ring.head? = some ev
  | combinator a b c => a.Ready ts ∧ b.Ready ts ∧
      c.slotA.Ready ts a.contents ∧ c.slotB.Ready ts b.contents ∧
      ∀ side, c.lastChosen = some side →
        (c.lastEvent side).tstamp ≤ ts ∧
        (combinator a b c).contents = c.lastEvent side :: (combinator a b (c.clear side)).contents

theorem Ready.mono {ts ts' : ℕ} (hts : ts ≤ ts') {t : Stream} (h : t.Ready ts) : t.Ready ts' := by
  induction t with
  | null => trivial
  | input s => exact h
  | combinator a b c iha ihb =>
    obtain ⟨ha, hb, hsa, hsb, hc⟩ := h
    exact ⟨iha ha, ihb hb, hsa.mono hts, hsb.mono hts,
      fun side hside => ⟨Nat.le_trans (hc side hside).1 hts, (hc side hside).2⟩⟩

/-- What a call of `prepareNext` comes to: the first event is returned if it is due,
and `complete` takes it off. -/
def Prepared (ts : ℕ) (t : Stream) (r : Option Event × Stream) : Prop :=
  r.2.contents = t.contents ∧ r.2.Ready ts ∧ r.2.futures = t.futures ∧
    (r.1 = none ∧ (∀ e ∈ t.contents, ts < e.tstamp) ∨
      ∃ e rest, r.1 = some e ∧ t.contents = e :: rest ∧ e.tstamp ≤ ts ∧
        r.2.complete.contents = rest ∧ r.2.complete.Ready ts)

theorem futures_complete (t : Stream) : t.complete.futures = t.futures := by
  cases t with
  | null => rfl
  | input s => rfl
  | combinator a b c =>
    unfold complete
    dsimp only
    split <;> rfl

theorem Available.null {ts : ℕ} : Available ts null := by simp [Available, futures]

theorem Available.of_combinator {ts : ℕ} {a b : Stream} {c : CombinatorState}
    (h : Available ts (combinator a b c)) : Available ts a ∧ Available ts b :=
  ⟨fun l hl => h l (List.mem_append_left _ hl), fun l hl => h l (List.mem_append_right _ hl)⟩

/-! ## One call -/

theorem prepared_input {ts : ℕ} {s : Input} (h : (input s).Ready ts)
    (hav : Available ts (input s)) : Prepared ts (input s) (prepareNext ts (input s)) := by
  obtain ⟨⟨ring, nextEvent⟩, future⟩ := s
  obtain ⟨hord, hnext⟩ := h
  have hfuture : ∀ e ∈ future, ts < e.tstamp := hav future (by simp [futures])
  have hread : RingBufferStream.readRetry ring (fun _ => true) RingBufferStream.maxNumRetries =
      ring.head? := rfl
  -- what is said of the head of the ring, whether the transaction was open or is opened now
  have hhead : ∀ ev tail, ring = ev :: tail →
      Prepared ts (input ⟨⟨ring, nextEvent⟩, future⟩)
        (if ev.tstamp ≤ ts then some ev else none, input ⟨⟨ring, some ev⟩, future⟩) := by
    rintro ev tail rfl
    refine ⟨rfl, ⟨hord, fun _ h => by cases h; rfl⟩, rfl, ?_⟩
    split
    · rename_i hle
      exact .inr ⟨ev, tail ++ future, rfl, rfl, hle, rfl, hord.tail, by simp [RingBufferStream.complete]⟩
    · rename_i hlt
      refine .inl ⟨rfl, fun e he => ?_⟩
      rcases List.mem_cons.mp he with rfl | he
      · omega
      · have := hord.sorted.le_of_mem he
        omega
  unfold prepareNext RingBufferStream.prepareNext
  cases nextEvent with
  | some ev =>
    have hring := hnext ev rfl
    obtain ⟨tail, htail⟩ := List.head?_eq_some_iff.mp hring
    exact hhead ev tail htail
  | none =>
    dsimp only
    rw [hread]
    cases ring with
    | nil => exact ⟨rfl, ⟨hord, by simp⟩, rfl, .inl ⟨rfl, hfuture⟩⟩
    | cons ev tail => exact hhead ev tail rfl

/-- **Filling a slot** moves the next event of the child into it, if there is room
and the event is due. -/
theorem fill_spec {ts : ℕ} {child : Stream} {slot : Slot} (hts : 0 < ts) (hchild : child.Ready ts)
    (hslot : slot.Ready ts child.contents) {next : Option Event × Stream}
    (hnext : Prepared ts child next) {child' : Stream} {slot' : Slot}
    (hfill : fill child next slot ts = (child', slot')) :
    child'.Ready ts ∧ child'.futures = child.futures ∧ slot'.Ready ts child'.contents ∧
      slot'.Filled ts child'.contents ∧
      slot'.pending ++ child'.contents = slot.pending ++ child.contents := by
  obtain ⟨res, t⟩ := next
  obtain ⟨hcontents, hready, hfutures, hres⟩ := hnext
  have hord := hslot.orderly
  have hlater := hslot.later
  unfold fill at hfill
  split at hfill
  · rename_i hcond
    simp only [Bool.and_eq_true, Bool.not_eq_true', decide_eq_true_eq] at hcond
    obtain ⟨⟨_, hinvalid⟩, hempty⟩ := hcond
    rw [Slot.pending_invalid hinvalid, List.nil_append] at hord hlater ⊢
    rcases hres with ⟨hnone, hall⟩ | ⟨e, rest, hsome, heq, hle, hrest, hready'⟩
    · dsimp only at hnone hcontents hready hfutures
      subst hnone
      obtain ⟨rfl, rfl⟩ := Prod.mk.inj hfill
      have hpending : ({ slot with lastEmptyTs := ts } : Slot).pending ++ t.contents =
          child.contents := by
        have : ({ slot with lastEmptyTs := ts } : Slot).pending = [] := Slot.pending_invalid hinvalid
        rw [this, List.nil_append, hcontents]
      refine ⟨hready, hfutures, ⟨hpending ▸ hord, fun hv => ?_, Nat.le_refl _, .inr (hpending ▸ hall)⟩,
        .inr ⟨hinvalid, hcontents ▸ hall⟩, hpending⟩
      exact absurd hv (by rw [hinvalid]; decide)
    · dsimp only at hsome hrest hready' hfutures
      subst hsome
      obtain ⟨rfl, rfl⟩ := Prod.mk.inj hfill
      have hvalid : e.isValid = true := by
        rw [Event.isValid_iff]
        exact Nat.ne_of_lt (hord.valid e (by rw [heq]; simp))
      have hpending : ({ slot with lastEvent := e } : Slot).pending ++ t.complete.contents =
          child.contents := by
        rw [Slot.pending_valid hvalid, hrest, heq]
        rfl
      refine ⟨hready', ?_, ⟨hpending ▸ hord, fun _ => hle, hslot.emptyTs, hpending ▸ hlater⟩,
        .inl hvalid, hpending⟩
      rw [futures_complete]
      exact hfutures
  · rename_i hcond
    obtain ⟨rfl, rfl⟩ := Prod.mk.inj hfill
    refine ⟨hchild, rfl, hslot, ?_, rfl⟩
    -- nothing was asked for: there is an event, or the child was found empty before
    cases hv : slot.lastEvent.isValid with
    | true => exact .inl hv
    | false =>
      refine .inr ⟨hv, fun e he => ?_⟩
      rw [Slot.pending_invalid hv, List.nil_append] at hlater
      cases hnull : child.isNull with
      | true =>
        cases child with
        | null => cases he
        | input s => cases hnull
        | combinator a b c => cases hnull
      | false =>
        rw [hnull, hv, Bool.not_false, Bool.true_and, Bool.true_and, decide_eq_true_eq] at hcond
        rcases hlater with h | h
        · omega
        · have := h e he
          omega

/-- The checks on an event that is taken into an empty slot hold: it is not before a
time up to which the child was found empty, and not after the one that is asked for. -/
theorem fill_checks {ts : ℕ} {child : Stream} {slot : Slot} (hslot : slot.Ready ts child.contents)
    {next : Option Event × Stream} (hnext : Prepared ts child next) {ev : Event}
    (hev : next.1 = some ev) : slot.lastEmptyTs ≤ ev.tstamp ∧ ev.tstamp ≤ ts := by
  obtain ⟨_, _, _, ⟨hnone, _⟩ | ⟨e, rest, hsome, heq, hle, _⟩⟩ := hnext
  · rw [hnone] at hev
    cases hev
  · rw [hsome, Option.some_inj] at hev
    subst hev
    refine ⟨?_, hle⟩
    rcases hslot.later with h | h
    · omega
    · exact Nat.le_of_lt (h e (by rw [heq]; simp))

/-- The choice between two filled slots is the first event of the merge. -/
theorem choose_spec {ts : ℕ} {a b : Stream} {c : CombinatorState}
    (hsa : c.slotA.Ready ts a.contents) (hsb : c.slotB.Ready ts b.contents)
    (hfa : c.slotA.Filled ts a.contents) (hfb : c.slotB.Filled ts b.contents) :
    c.choose = none ∧ (∀ e ∈ (combinator a b c).contents, ts < e.tstamp) ∨
      ∃ side, c.choose = some side ∧ (c.lastEvent side).tstamp ≤ ts ∧
        (combinator a b c).contents =
          c.lastEvent side :: (combinator a b (c.clear side)).contents := by
  have htrue : (combinator a b (c.clear true)).contents =
      mergeEvents a.contents (c.slotB.pending ++ b.contents) := by
    simp [contents, CombinatorState.clear]
  have hfalse : (combinator a b (c.clear false)).contents =
      mergeEvents (c.slotA.pending ++ a.contents) b.contents := by
    simp [contents, CombinatorState.clear]
  have hinvalid : ∀ {s : Slot}, s.lastEvent.isValid = false →
      s.lastEvent.tstamp = kInvalidTimeStamp := by
    intro s h
    simpa [Event.isValid] using h
  have hlt : ∀ {s : Slot} {l : List Event}, s.Ready ts l → s.lastEvent.isValid = true →
      s.lastEvent.tstamp < kInvalidTimeStamp := by
    intro s l h hv
    exact h.orderly.valid _ (by rw [Slot.pending_valid hv]; simp)
  unfold CombinatorState.choose
  rcases hfa with hva | ⟨hva, halla⟩ <;> rcases hfb with hvb | ⟨hvb, hallb⟩
  · -- both children have a next event
    rw [hva, Bool.true_or, if_pos rfl]
    refine .inr ⟨_, rfl, ?_, ?_⟩
    · cases c.slotA.lastEvent.happenedBefore c.slotB.lastEvent
      · exact hsb.due hvb
      · exact hsa.due hva
    · cases hab : c.slotA.lastEvent.happenedBefore c.slotB.lastEvent with
      | true =>
        rw [htrue, contents_combinator, Slot.pending_valid hva, Slot.pending_valid hvb]
        refine mergeEvents_left (m := [c.slotB.lastEvent] ++ b.contents) fun y hy => ?_
        cases hy
        exact hab
      | false =>
        rw [hfalse, contents_combinator, Slot.pending_valid hva, Slot.pending_valid hvb]
        refine mergeEvents_right (l := [c.slotA.lastEvent] ++ a.contents) fun x hx => ?_
        cases hx
        exact hab
  · -- what is left in the second child is later
    have hab : c.slotA.lastEvent.happenedBefore c.slotB.lastEvent = true := by
      rw [Event.happenedBefore_iff, hinvalid hvb]
      exact .inl (hlt hsa hva)
    rw [hva, Bool.true_or, if_pos rfl, hab]
    refine .inr ⟨true, rfl, hsa.due hva, ?_⟩
    rw [htrue, contents_combinator, Slot.pending_valid hva, Slot.pending_invalid hvb]
    refine mergeEvents_left fun y hy => Event.happenedBefore_iff.mpr (.inl ?_)
    exact Nat.lt_of_le_of_lt (hsa.due hva) (hallb y (List.mem_of_mem_head? hy))
  · -- what is left in the first child is later
    have hab : c.slotA.lastEvent.happenedBefore c.slotB.lastEvent = false := by
      rw [Event.not_happenedBefore_iff, hinvalid hva]
      exact .inl (hlt hsb hvb)
    rw [hva, hvb, Bool.false_or, if_pos rfl, hab]
    refine .inr ⟨false, rfl, hsb.due hvb, ?_⟩
    rw [hfalse, contents_combinator, Slot.pending_invalid hva, Slot.pending_valid hvb]
    refine mergeEvents_right fun x hx => Event.not_happenedBefore_iff.mpr (.inl ?_)
    exact Nat.lt_of_le_of_lt (hsb.due hvb) (halla x (List.mem_of_mem_head? hx))
  · rw [hva, hvb, Bool.or_false, if_neg (by decide)]
    refine .inl ⟨rfl, fun e he => ?_⟩
    rw [contents_combinator, Slot.pending_invalid hva, Slot.pending_invalid hvb] at he
    rcases mem_mergeEvents.mp he with he | he
    · exact halla e he
    · exact hallb e he

/-- Taking the chosen event off keeps the invariant. -/
theorem Ready.clear {ts : ℕ} {a b : Stream} {c : CombinatorState} (h : (combinator a b c).Ready ts)
    (side : Bool) : (combinator a b (c.clear side)).Ready ts := by
  obtain ⟨ha, hb, hsa, hsb, _⟩ := h
  cases side with
  | true => exact ⟨ha, hb, hsa.clear, hsb, by simp [CombinatorState.clear]⟩
  | false => exact ⟨ha, hb, hsa, hsb.clear, by simp [CombinatorState.clear]⟩

/-- **A call of `prepareNext`** returns the first event that the tree holds if it is
due.  The induction is on the tree. -/
theorem prepareNext_spec {ts : ℕ} (hts : 0 < ts) {t : Stream} (h : t.Ready ts)
    (hav : Available ts t) : Prepared ts t (prepareNext ts t) := by
  induction t with
  | null => exact ⟨rfl, trivial, rfl, .inl ⟨rfl, by simp [contents]⟩⟩
  | input s => exact prepared_input h hav
  | combinator a b c iha ihb =>
    have hcomplete : ∀ {c : CombinatorState} {side : Bool}, c.lastChosen = some side →
        (combinator a b c).complete = combinator a b (c.clear side) := by
      intro c side hside
      simp only [complete, hside]
    have hready := h
    obtain ⟨ha, hb, hsa, hsb, hchosen⟩ := h
    obtain ⟨hava, havb⟩ := hav.of_combinator
    unfold prepareNext
    dsimp only
    split
    · rename_i side hside
      obtain ⟨hle, heq⟩ := hchosen side hside
      refine ⟨rfl, hready, rfl, .inr ⟨_, _, rfl, heq, hle, ?_, ?_⟩⟩
      · rw [hcomplete hside]
      · rw [hcomplete hside]
        exact hready.clear side
    · rcases hfa : fill a (prepareNext ts a) c.slotA ts with ⟨a', slotA⟩
      rcases hfb : fill b (prepareNext ts b) c.slotB ts with ⟨b', slotB⟩
      obtain ⟨ha', hfua, hsa', hfilla, hpa⟩ := fill_spec hts ha hsa (iha ha hava) hfa
      obtain ⟨hb', hfub, hsb', hfillb, hpb⟩ := fill_spec hts hb hsb (ihb hb havb) hfb
      dsimp only
      have hcontents : ∀ chosen, (combinator a' b' ⟨slotA, slotB, chosen⟩).contents =
          (combinator a b c).contents := by
        intro chosen
        unfold contents
        rw [hpa, hpb]
      have hfutures : ∀ c', (combinator a' b' c').futures = (combinator a b c).futures := by
        intro c'
        unfold futures
        rw [hfua, hfub]
      rcases choose_spec (c := ⟨slotA, slotB, c.lastChosen⟩) hsa' hsb' hfilla hfillb with
        ⟨hnone, hall⟩ | ⟨side, hsome, hle, heq⟩
      · rw [hnone]
        refine ⟨hcontents _, ⟨ha', hb', hsa', hsb', by simp⟩, hfutures _, .inl ⟨rfl, ?_⟩⟩
        rw [hcontents] at hall
        exact hall
      · rw [hsome]
        have hr : (combinator a' b' ⟨slotA, slotB, some side⟩).Ready ts := by
          refine ⟨ha', hb', hsa', hsb', fun side' hside' => ?_⟩
          cases hside'
          exact ⟨hle, heq⟩
        refine ⟨hcontents _, hr, hfutures _, .inr ⟨_, _, rfl, ?_, hle, rfl, ?_⟩⟩
        · rw [← hcontents c.lastChosen]
          exact heq
        · exact hr.clear side

/-! ## The tree that is built -/

/-- A tree whose slots are empty: what it holds interleaves what its leaves hold. -/
structure Fresh (t : Stream) : Prop where
  ready : t.Ready 0
  orderly : Orderly t.contents
  interleaves : Interleaves t.leaves t.contents

theorem Fresh.null : Fresh null := ⟨trivial, .nil, .nil⟩

theorem Fresh.node {a b : Stream} (ha : Fresh a) (hb : Fresh b) :
    Fresh (combinator a b .init) := by
  have hslot : ∀ {t : Stream}, Fresh t → Slot.init.Ready 0 t.contents := by
    intro t ht
    refine ⟨?_, fun hv => ?_, Nat.le_refl 0, .inl rfl⟩
    · rw [Slot.pending_init, List.nil_append]
      exact ht.orderly
    · simp [Slot.init, Event.isValid] at hv
  have hcontents : (combinator a b .init).contents = mergeEvents a.contents b.contents := by
    rw [contents_combinator]
    simp [CombinatorState.init]
  refine ⟨⟨ha.ready, hb.ready, hslot ha, hslot hb, by simp [CombinatorState.init]⟩, ?_, ?_⟩
  · rw [hcontents]
    exact ha.orderly.merge hb.orderly
  · rw [hcontents]
    exact .append (interleaves_merge _ _ _).swap ha.interleaves hb.interleaves

theorem pairUp_fresh {ts : List Stream} (h : ∀ t ∈ ts, Fresh t) :
    (∀ t ∈ pairUp ts, Fresh t) ∧ (pairUp ts).flatMap leaves = ts.flatMap leaves := by
  induction ts using pairUp.induct with
  | case1 => simp [pairUp]
  | case2 a =>
    simp only [pairUp, List.mem_singleton, forall_eq, List.flatMap_singleton]
    exact ⟨Fresh.node (h a (by simp)) .null, by simp [leaves]⟩
  | case3 a b rest ih =>
    obtain ⟨hrest, hleaves⟩ := ih fun t ht => h t (by simp [ht])
    simp only [pairUp, List.mem_cons, forall_eq_or_imp, List.flatMap_cons]
    refine ⟨⟨Fresh.node (h a (by simp)) (h b (by simp)), hrest⟩, ?_⟩
    rw [hleaves, leaves, List.append_assoc]

/-- **The tree** that `makeBinaryTree` returns holds the events of all its streams. -/
theorem makeBinaryTree_fresh {depth : ℕ} {ts : List Stream} {root : Stream}
    (h : ∀ t ∈ ts, Fresh t) (hroot : makeBinaryTree depth ts = .ok root) :
    Fresh root ∧ root.leaves = ts.flatMap leaves := by
  induction depth generalizing ts with
  | zero =>
    obtain ⟨hfresh, hleaves⟩ := pairUp_fresh h
    unfold makeBinaryTree at hroot
    split at hroot
    · cases hroot
    · split at hroot
      · rename_i t heq
        cases hroot
        rw [heq] at hfresh hleaves
        rw [List.flatMap_singleton] at hleaves
        exact ⟨hfresh _ (by simp), hleaves⟩
      · cases hroot
      · rename_i hdepth
        exact absurd hdepth (Nat.succ_ne_zero _).symm
  | succ depth ih =>
    obtain ⟨hfresh, hleaves⟩ := pairUp_fresh h
    unfold makeBinaryTree at hroot
    split at hroot
    · cases hroot
    · dsimp only at hroot
      obtain ⟨hf, hl⟩ := ih hfresh hroot
      exact ⟨hf, hl.trans hleaves⟩

/-! ## Arrivals -/

def numLeaves : Stream → ℕ
  | null => 0
  | input _ => 1
  | combinator a b _ => a.numLeaves + b.numLeaves

/-- The next `n` events of the leaf `i` are written to its ring. -/
def arrive (i n : ℕ) : Stream → Stream
  | null => null
  | input s =>
    if i = 0 then
      input ⟨{ s.stream with ring := s.stream.ring ++ s.future.take n }, s.future.drop n⟩
    else input s
  | combinator a b c =>
    if i < a.numLeaves then combinator (a.arrive i n) b c
    else combinator a (b.arrive (i - a.numLeaves) n) c

@[simp] theorem contents_arrive (i n : ℕ) (t : Stream) : (t.arrive i n).contents = t.contents := by
  induction t generalizing i with
  | null => rfl
  | input s =>
    unfold arrive
    split
    · simp [contents]
    · rfl
  | combinator a b c iha ihb =>
    unfold arrive
    split
    · simp only [contents_combinator, iha]
    · simp only [contents_combinator, ihb]

theorem Ready.arrive {ts : ℕ} {t : Stream} (h : t.Ready ts) (i n : ℕ) : (t.arrive i n).Ready ts := by
  induction t generalizing i with
  | null => exact h
  | input s =>
    unfold Stream.arrive
    split
    · obtain ⟨hord, hnext⟩ := h
      refine ⟨?_, fun ev hev => ?_⟩
      · rw [List.append_assoc, List.take_append_drop]
        exact hord
      · rw [List.head?_append, hnext ev hev]
        rfl
    · exact h
  | combinator a b c iha ihb =>
    obtain ⟨ha, hb, hsa, hsb, hc⟩ := h
    unfold Stream.arrive
    split
    · refine ⟨iha ha i, hb, ?_, hsb, ?_⟩
      · rw [contents_arrive]
        exact hsa
      · simpa only [contents_combinator, contents_arrive] using hc
    · refine ⟨ha, ihb hb _, hsa, ?_, ?_⟩
      · rw [contents_arrive]
        exact hsb
      · simpa only [contents_combinator, contents_arrive] using hc

end Stream

/-! ## A run -/

/-- The events of one input stream. -/
structure EventStream where
  events : List Event
  orderly : Orderly events

/-- The input stream before any of its events is written. -/
def EventStream.input (s : EventStream) : Stream := .input ⟨⟨[], none⟩, s.events⟩

theorem EventStream.fresh (s : EventStream) : s.input.Fresh := by
  have hcontents : s.input.contents = s.events := rfl
  refine ⟨⟨s.orderly, fun _ h => by cases h⟩, ?_, ?_⟩
  · rw [hcontents]
    exact s.orderly
  · rw [hcontents]
    exact .single s.events

/-- What happens at the two ends of a tree: events are written to a leaf, or the
consumer polls once. -/
inductive TreeOp where
  | arrive (leaf n : ℕ)
  | poll (stopTs : ℕ)

/-- The tree, the events the consumer has received, and the largest `stop_ts` that
it has asked for. -/
structure Merger where
  tree : Stream
  received : List Event
  lastStopTs : ℕ

namespace Merger

def init (tree : Stream) : Merger := ⟨tree, [], 0⟩

/-- The consumer polls: it takes the event it is given and completes it. -/
def poll (stopTs : ℕ) (m : Merger) : Merger :=
  match m.tree.prepareNext stopTs with
  | (none, tree) => ⟨tree, m.received, stopTs⟩
  | (some ev, tree) => ⟨tree.complete, m.received ++ [ev], stopTs⟩

def step (m : Merger) : TreeOp → Merger
  | .arrive leaf n => { m with tree := m.tree.arrive leaf n }
  | .poll stopTs => m.poll stopTs

/-- The `stop_ts` of the polls are positive and do not go back, and every event up to
the `stop_ts` of a poll is available in its stream. -/
def Due (m : Merger) : TreeOp → Prop
  | .arrive _ _ => True
  | .poll stopTs => 0 < stopTs ∧ m.lastStopTs ≤ stopTs ∧ m.tree.Available stopTs

instance (m : Merger) : ∀ op, Decidable (m.Due op)
  | .arrive _ _ => isTrue trivial
  | .poll stopTs =>
    inferInstanceAs (Decidable (0 < stopTs ∧ m.lastStopTs ≤ stopTs ∧ m.tree.Available stopTs))

/-- What a run keeps: the events received and those still in the tree are all the
events, and the ones received are due. -/
structure Merging (all : List Event) (m : Merger) : Prop where
  ready : m.tree.Ready m.lastStopTs
  whole : m.received ++ m.tree.contents = all
  due : ∀ e ∈ m.received, e.tstamp ≤ m.lastStopTs

/-- **A poll** delivers the next event if it is due; if it is not, then no event is. -/
theorem poll_spec {all : List Event} {m : Merger} (h : m.Merging all) {stopTs : ℕ}
    (hdue : m.Due (.poll stopTs)) :
    (m.poll stopTs).Merging all ∧ (m.poll stopTs).tree.Available stopTs ∧
      ((m.tree.prepareNext stopTs).1 = none ∧
          (∀ e ∈ (m.poll stopTs).tree.contents, stopTs < e.tstamp) ∨
        (m.tree.prepareNext stopTs).1.isSome = true ∧
          (m.poll stopTs).tree.contents.length + 1 = m.tree.contents.length) := by
  obtain ⟨hpos, hlast, hav⟩ := hdue
  obtain ⟨hcontents, hready, hfutures, hres⟩ :=
    Stream.prepareNext_spec hpos (h.ready.mono hlast) hav
  have hdue' : ∀ e ∈ m.received, e.tstamp ≤ stopTs := fun e he => Nat.le_trans (h.due e he) hlast
  unfold poll
  rcases hp : m.tree.prepareNext stopTs with ⟨res, tree⟩
  rw [hp] at hcontents hready hfutures hres
  have hav' : tree.Available stopTs := by
    unfold Stream.Available
    rw [hfutures]
    exact hav
  rcases hres with ⟨hnone, hall⟩ | ⟨e, rest, hsome, heq, hle, hrest, hready'⟩
  · dsimp only at hnone hcontents hready
    subst hnone
    refine ⟨⟨hready, ?_, hdue'⟩, hav', .inl ⟨rfl, ?_⟩⟩
    · rw [hcontents]
      exact h.whole
    · rw [hcontents]
      exact hall
  · dsimp only at hsome hrest hready'
    subst hsome
    refine ⟨⟨hready', ?_, ?_⟩, ?_, .inr ⟨rfl, ?_⟩⟩
    · rw [hrest, List.append_assoc, List.singleton_append, ← heq]
      exact h.whole
    · intro x hx
      rcases List.mem_append.mp hx with hx | hx
      · exact hdue' x hx
      · rw [List.mem_singleton.mp hx]
        exact hle
    · unfold Stream.Available
      rw [Stream.futures_complete]
      exact hav'
    · rw [hrest, heq]
      rfl

theorem step_merging {all : List Event} {m : Merger} {op : TreeOp} (h : m.Merging all)
    (hdue : m.Due op) : (m.step op).Merging all := by
  cases op with
  | arrive leaf n =>
    refine ⟨h.ready.arrive leaf n, ?_, h.due⟩
    show m.received ++ (m.tree.arrive leaf n).contents = all
    rw [Stream.contents_arrive]
    exact h.whole
  | poll stopTs => exact (poll_spec h hdue).1

/-- The consumer polls until it is given nothing, at most `n` times. -/
def drain (stopTs : ℕ) : ℕ → Merger → Merger
  | 0, m => m
  | n + 1, m =>
    if (m.tree.prepareNext stopTs).1.isSome then drain stopTs n (m.poll stopTs) else m.poll stopTs

/-- **Draining** ends, and leaves no event in the tree that is due. -/
theorem drain_spec {all : List Event} {stopTs n : ℕ} {m : Merger} (h : m.Merging all)
    (hdue : m.Due (.poll stopTs)) (hn : m.tree.contents.length < n) :
    (m.drain stopTs n).Merging all ∧ (m.drain stopTs n).Due (.poll stopTs) ∧
      (m.drain stopTs n).lastStopTs = stopTs ∧
      ∀ e ∈ (m.drain stopTs n).tree.contents, stopTs < e.tstamp := by
  induction n generalizing m with
  | zero => exact absurd hn (Nat.not_lt_zero _)
  | succ n ih =>
    obtain ⟨hm, hav, hres⟩ := poll_spec h hdue
    have hlast : (m.poll stopTs).lastStopTs = stopTs := by
      unfold poll
      split <;> rfl
    have hdue' : (m.poll stopTs).Due (.poll stopTs) := ⟨hdue.1, Nat.le_of_eq hlast, hav⟩
    unfold drain
    split
    · rename_i hsome
      rcases hres with ⟨hnone, _⟩ | ⟨_, hlen⟩
      · rw [hnone] at hsome
        cases hsome
      · exact ih hm hdue' (by omega)
    · rename_i hnone
      refine ⟨hm, hdue', hlast, ?_⟩
      rcases hres with ⟨_, hall⟩ | ⟨hsome, _⟩
      · exact hall
      · exact absurd hsome hnone

/-- **The merge of all streams.**  After any run in which the `stop_ts` do not go back
and the events up to them are available, a consumer that drains the tree has received
exactly the events up to `stopTs` of all streams, each once, in the order of
`happenedBefore` and those of one stream in their order. -/
theorem drain_received {depth : ℕ} {streams : List EventStream} {root : Stream}
    (hroot : Stream.makeBinaryTree depth (streams.map EventStream.input) = .ok root)
    {ops : List TreeOp} (hops : Run.Along step Due (init root) ops) {stopTs n : ℕ}
    (hdue : (ops.foldl step (init root)).Due (.poll stopTs))
    (hn : (streams.map EventStream.events).flatten.length < n) :
    let m := (ops.foldl step (init root)).drain stopTs n
    (m.tree.prepareNext stopTs).1 = none ∧ Sorted m.received ∧
      Interleaves (streams.map fun s => s.events.filter (·.tstamp ≤ stopTs)) m.received := by
  intro m
  have hfresh : ∀ t ∈ streams.map EventStream.input, t.Fresh := by
    intro t ht
    obtain ⟨s, _, rfl⟩ := List.mem_map.mp ht
    exact s.fresh
  obtain ⟨hf, hleaves⟩ := Stream.makeBinaryTree_fresh hfresh hroot
  have hinter : Interleaves (streams.map EventStream.events) root.contents := by
    have hevents : (streams.map EventStream.input).flatMap Stream.leaves =
        streams.map EventStream.events := by
      rw [List.flatMap_map, List.map_eq_flatMap]
      rfl
    rw [← hevents, ← hleaves]
    exact hf.interleaves
  have hinit : (init root).Merging root.contents := ⟨hf.ready, rfl, by simp [init]⟩
  have hrun : (ops.foldl step (init root)).Merging root.contents :=
    Run.invariant_of_along (fun _ _ => step_merging) hinit hops
  have hlen : (ops.foldl step (init root)).tree.contents.length < n := by
    have hw := congrArg List.length hrun.whole
    rw [List.length_append, hinter.length_eq] at hw
    omega
  obtain ⟨hm, hdue', hlast, hall⟩ := drain_spec hrun hdue hlen
  refine ⟨?_, ?_, ?_⟩
  · obtain ⟨hpos, hle, hav⟩ := hdue'
    obtain ⟨_, _, _, ⟨hnone, _⟩ | ⟨e, rest, _, heq, hdue, _⟩⟩ :=
      Stream.prepareNext_spec hpos (hm.ready.mono hle) hav
    · exact hnone
    · have := hall e (by rw [heq]; simp)
      omega
  · have hsorted := hf.orderly.sorted
    rw [← hm.whole] at hsorted
    exact (List.pairwise_append.mp hsorted).1
  · have hfilter := hinter.filter fun e => decide (e.tstamp ≤ stopTs)
    rw [List.map_map, ← hm.whole, List.filter_append] at hfilter
    have hreceived : m.received.filter (fun e => decide (e.tstamp ≤ stopTs)) = m.received :=
      List.filter_eq_self.mpr fun e he => decide_eq_true (hlast ▸ hm.due e he)
    have hleft : m.tree.contents.filter (fun e => decide (e.tstamp ≤ stopTs)) = [] :=
      List.filter_eq_nil_iff.mpr fun e he => by simpa using hall e he
    rw [hreceived, hleft, List.append_nil] at hfilter
    exact hfilter

/-- Three streams, two of which have an event at the same time. -/
def sampleStreams : List EventStream :=
  [⟨[⟨2, .start, 0, 0, 1⟩, ⟨7, .end, 0, 0, 1⟩], ⟨by unfold Sorted; decide, by decide⟩⟩,
   ⟨[⟨2, .start, 0, 1, 1⟩], ⟨by unfold Sorted; decide, by decide⟩⟩,
   ⟨[⟨5, .start, 0, 2, 1⟩], ⟨by unfold Sorted; decide, by decide⟩⟩]

theorem drain_received_sample :
    ∃ root, Stream.makeBinaryTree 1 (sampleStreams.map EventStream.input) = .ok root ∧
      let ops : List TreeOp := [.arrive 0 2, .arrive 1 1, .poll 4, .arrive 2 1]
      let m := (ops.foldl step (init root)).drain 9 5
      Sorted m.received ∧
        Interleaves (sampleStreams.map fun s => s.events.filter (·.tstamp ≤ 9)) m.received := by
  refine ⟨_, rfl, ?_⟩
  exact (@drain_received 1 sampleStreams _ rfl _ (by decide) 9 5 (by decide) (by decide)).2

end Merger

end Tagstack
end IntegratedCLI
