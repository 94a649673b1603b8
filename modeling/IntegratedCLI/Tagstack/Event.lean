import Mathlib.Algebra.Group.Nat.Defs
import Mathlib.Data.List.Basic

/-!
# Events, tags and stacks

The vocabulary of `hbt/src/tagstack`: the events a compute unit emits, and the
`Stack` of tags an event pushes to or pops from.

* `Event` is the sixteen byte record of `Event.h`, with its accessors and the
  order `happenedBefore` the streams are merged by.
* `Stack` is the record of `TagStack.h`: an array of `kMaxNumLevels` tags of
  which only the first `numSetTags` have been set.

## Unset tags

`copyTruncated` and `copyFillUpTo` build their array without initializing it and
then copy a prefix into it, so the tags past the prefix are whatever the memory
held.  Both take that memory as an argument here, `junk`, and a caller that
wants a statement about the code quantifies over it.
-/

namespace IntegratedCLI
namespace Tagstack

/-- The largest value of the 64 bit `TimeStamp`, which marks the absence of one. -/
def kInvalidTimeStamp : ℕ := 2 ^ 64 - 1

/-- The largest time stamp an event can carry. -/
def kMaxTimeStamp : ℕ := 2 ^ 64 - 2

/-- The tag of a level whose value is not known: the largest 32 bit value. -/
def kNA : ℕ := 2 ^ 32 - 1

/-! ## Events -/

/-- What an event reports. -/
inductive EventType where
  | start
  | «end»
  | threadCreation
  | threadDestruction
  | switchIn
  | switchOutPreempt
  | switchOutYield
  | writeErrorsStart
  | writeErrorsEnd
  deriving DecidableEq, Repr

/-- One record of an event stream. -/
structure Event where
  tstamp : ℕ
  type : EventType
  level : ℕ
  compUnitId : ℕ
  tag : ℕ
  deriving DecidableEq, Repr

namespace Event

def isValid (e : Event) : Bool := e.tstamp != kInvalidTimeStamp

def isThreadLifetime (e : Event) : Bool :=
  e.type == .threadCreation || e.type == .threadDestruction

def isSwitchOut (e : Event) : Bool :=
  e.type == .switchOutPreempt || e.type == .switchOutYield

def isSwitch (e : Event) : Bool := e.type == .switchIn || e.isSwitchOut

def isPhase (e : Event) : Bool := e.type == .start || e.type == .end

def isOut (e : Event) : Bool := e.isSwitchOut || e.type == .end

def isIn (e : Event) : Bool := e.type == .switchIn || e.type == .start

/-- The order of the merged streams: by time stamp, then by compute unit. -/
def happenedBefore (e other : Event) : Bool :=
  if e.tstamp > other.tstamp then false
  else e.tstamp < other.tstamp || e.compUnitId < other.compUnitId

end Event

/-! ## Stacks -/

/-- The number of levels a stack has room for. -/
def kMaxNumLevels : ℕ := 6

/-- The array of tags of a stack.  It has `kMaxNumLevels` entries. -/
abbrev Tags := List ℕ

/-- The array every stack starts from. -/
def makeNaTags : Tags := List.replicate kMaxNumLevels kNA

/-- A stack of tags.  Tags at or above `numSetTags` have no meaning. -/
structure Stack where
  tags : Tags
  numSetTags : ℕ
  knownNumLevels : Bool
  deriving DecidableEq, Repr

namespace Stack

/-- A stack whose `n` set tags are all unknown. -/
def ofLevels (n : ℕ) (known : Bool) : Stack := ⟨makeNaTags, n, known⟩

/-- The lowest `n` tags of a stack, in an array that holds `junk` above them. -/
def copyTruncated (s : Stack) (n : ℕ) (known : Bool) (junk : Tags) : Stack :=
  ⟨s.tags.take n ++ junk.drop n, n, known⟩

/-- The lowest `idx` tags of a stack with `tag` put on top of them. -/
def copyFillUpTo (s : Stack) (idx tag : ℕ) (known : Bool) (junk : Tags) : Stack :=
  ⟨s.tags.take idx ++ tag :: junk.drop (idx + 1), idx + 1, known⟩

/-- The tag at a level of the array. -/
def tagAt (s : Stack) (l : ℕ) : ℕ := s.tags.getD l kNA

/-- Whether this stack could be `s` with more tags on top of it. -/
def contains (self s : Stack) (numLevels : ℕ) : Bool :=
  if self.knownNumLevels != s.knownNumLevels then false
  else if numLevels = 0 then self.numSetTags == 0
  else if self.numSetTags < numLevels then false
  else s.tags.take numLevels == self.tags.take numLevels

/-- The equality the states are keyed by: only the set tags count. -/
def eqv (s other : Stack) : Bool :=
  s.knownNumLevels == other.knownNumLevels && s.numSetTags == other.numSetTags &&
    s.tags.take s.numSetTags == other.tags.take s.numSetTags

def numNAs (s : Stack) : ℕ := (s.tags.take s.numSetTags).count kNA

def hasNAs (s : Stack) : Bool := 0 < s.numNAs

theorem eqv_iff {s t : Stack} :
    s.eqv t = true ↔ s.knownNumLevels = t.knownNumLevels ∧ s.numSetTags = t.numSetTags ∧
      s.tags.take s.numSetTags = t.tags.take s.numSetTags := by
  simp [eqv, and_assoc]

@[simp] theorem eqv_refl (s : Stack) : s.eqv s = true := by
  simp [eqv]

theorem eqv_symm {s t : Stack} (h : s.eqv t = true) : t.eqv s = true := by
  rw [eqv_iff] at h ⊢
  exact ⟨h.1.symm, h.2.1.symm, by rw [← h.2.1, h.2.2]⟩

end Stack

end Tagstack
end IntegratedCLI
