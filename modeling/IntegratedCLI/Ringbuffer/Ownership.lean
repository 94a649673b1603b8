import IntegratedCLI.Lib.Simulation
import IntegratedCLI.Lib.Tenancy
import IntegratedCLI.Ringbuffer.RingBuffer

/-!
# Several producers and consumers of one ring buffer

Any number of producers and consumers are attached to one ring buffer.  The flags
that say that a transaction is open are in the header, and the size of the
transaction is in each object.  `commitTx`, `cancelTx` and the destructor of a
consumer look at the flag only, so they take an open transaction for their own.

`Tracked` adds to the state who has opened the transactions, and how many bytes it
has written or read itself.  `Tracked.owned` says that as long as the calls for an
open transaction are made by the object that opened it, a transaction is ended by
that object only, and the head and the tail are advanced by what it has written and
read itself, or by bytes that are dropped.
-/

namespace IntegratedCLI
namespace Ringbuffer

open Effect Tenancy

/-! ## What one call does -/

/-- The counters are advanced modulo `2 ^ 64`. -/
def advance (counter n : ℕ) : ℕ := u64 (counter + n)

def writeSeat (v : View) : Seat := ⟨v.rb.inWriteTx, v.rb.head, v.txSize⟩

def readSeat (v : View) : Seat := ⟨v.rb.inReadTx, v.rb.tail, v.txSize⟩

/-- The calls for an open write transaction. -/
def Producer.Call.inTx : Producer.Call → Bool
  | .writeInTx _ | .writeInTxWithSize _ _ | .writeInTxSizedChunk _ _ | .commitTx | .cancelTx => true
  | .startTx _ | .write _ _ | .writeSizedChunk _ _ _ | .dropN _ _ => false

/-- The calls for an open read transaction that do something to it. -/
def Consumer.Call.inTx : Consumer.Call → Bool
  | .readInTx _ | .readInTxWithSize _ | .copyInTx _ | .readInTxChunk _ | .commitTx | .cancelTx
  | .dropInTx | .seekInTx _ | .relSeekInTx _ | .destroy => true
  | .startTx _ | .findInBufferInTx _ | .drop _ | .dropN _ _ | .copy _ _ | .startReadTx _ _
  | .read _ _ | .readSizedChunk _ _ | .readChunk _ _ => false

/-- The calls of a consumer that drop bytes. -/
def Consumer.Call.drops : Consumer.Call → Bool
  | .dropInTx | .drop _ | .dropN _ _ => true
  | _ => false

/-- How much a call says that it moved. -/
def amount (x : Except Errno Reply) : Label :=
  match x with
  | .ok r => .amount r.size
  | .error _ => .plain

/-- The header is as it was. -/
structure SameHeader (v v' : View) : Prop where
  head : v'.rb.head = v.rb.head
  tail : v'.rb.tail = v.rb.tail
  inWriteTx : v'.rb.inWriteTx = v.rb.inWriteTx
  inReadTx : v'.rb.inReadTx = v.rb.inReadTx

theorem SameHeader.refl (v : View) : SameHeader v v := ⟨rfl, rfl, rfl, rfl⟩

theorem SameHeader.trans {v v' v'' : View} (h : SameHeader v v') (h' : SameHeader v' v'') :
    SameHeader v v'' :=
  ⟨h'.head.trans h.head, h'.tail.trans h.tail, h'.inWriteTx.trans h.inWriteTx,
    h'.inReadTx.trans h.inReadTx⟩

/-- The transaction is longer by `n` bytes. -/
structure Copied (n : ℕ) (v v' : View) : Prop extends SameHeader v v' where
  txSize : u64 v'.txSize = u64 (v.txSize + n)

theorem Copied.trans {m n : ℕ} {v v' v'' : View} (h : Copied m v v') (h' : Copied n v' v'') :
    Copied (m + n) v v'' := by
  refine ⟨h.toSameHeader.trans h'.toSameHeader, ?_⟩
  have h₁ := h.txSize
  have h₂ := h'.txSize
  unfold u64 at *
  omega

/-- What a commit advances a counter by. -/
theorem Copied.advance {n counter : ℕ} {v v' : View} (h : Copied n v v') :
    u64 (counter + v'.txSize) = advance counter (v.txSize + n) := by
  have h₁ := h.txSize
  unfold Ringbuffer.advance u64 at *
  omega

section Producer

variable {v : View}

end Producer

/-! ### Consumers -/

section Consumer

variable {v : View}

end Consumer

/-! ### What a call does to the other side -/

section Producer

end Producer

section Consumer

end Consumer

/-! ## All objects -/

/-- A ring buffer with its producers and consumers, of which there are the sizes of
their transactions.  Every number stands for an object; one that is destroyed has no
size any more. -/
structure Shared where
  rb : RingBuffer
  producers : ℕ → Option ℕ
  consumers : ℕ → Option ℕ

/-- A call of an object, or its destruction.  The destructor of a consumer is a call. -/
inductive Deed where
  | producer (i : ℕ) (c : Producer.Call)
  | consumer (i : ℕ) (c : Consumer.Call)
  | destroyProducer (i : ℕ)
  deriving DecidableEq, Repr

/-- The objects, with who has opened the transactions and how many bytes it has
written and read itself. -/
structure Tracked extends Shared where
  writer : Option (ℕ × ℕ)
  reader : Option (ℕ × ℕ)

namespace Tracked

/-- Nothing was done yet. -/
def init (logSize : ℕ) (h : logSize ≤ 62) (data : Memory) : Tracked where
  rb := RingBuffer.init logSize h data
  producers _ := some 0
  consumers _ := some 0
  writer := none
  reader := none

variable (t : Tracked)

/-- The producers, with the transaction they share. -/
def writeHouse : House := ⟨t.rb.inWriteTx, t.rb.head, t.producers, t.writer⟩

/-- The consumers, with the transaction they share. -/
def readHouse : House := ⟨t.rb.inReadTx, t.rb.tail, t.consumers, t.reader⟩

/-- What an object does.  An object that is destroyed does nothing. -/
def step : Deed → Tracked
  | .producer i c =>
    match t.producers i with
    | none => t
    | some o =>
      let v := after (Producer.perform c) ⟨t.rb, o⟩
      { t with
        rb := v.rb
        producers := Function.update t.producers i (some v.txSize)
        writer := t.writeHouse.tenantAfter i o (writeSeat v) }
  | .consumer i c =>
    match t.consumers i with
    | none => t
    | some o =>
      let v := after (Consumer.perform c) ⟨t.rb, o⟩
      { t with
        rb := v.rb
        consumers := Function.update t.consumers i (if c = .destroy then none else some v.txSize)
        reader := t.readHouse.tenantAfter i o (readSeat v) }
  | .destroyProducer i => { t with producers := Function.update t.producers i none }

/-- A call for an open transaction is made by the object that opened it. -/
def Proper : Deed → Prop
  | .producer i c => t.producers i ≠ none → t.writeHouse.Proper i c.inTx
  | .consumer i c => t.consumers i ≠ none → t.readHouse.Proper i c.inTx
  | .destroyProducer _ => True

instance : DecidablePred t.Proper
  | .producer _ _ => inferInstanceAs (Decidable (_ → _))
  | .consumer _ _ => inferInstanceAs (Decidable (_ → _))
  | .destroyProducer _ => isTrue trivial

/-- The sizes of the transactions are what the objects wrote and read in them. -/
structure Clean : Prop where
  write : t.writeHouse.Clean
  read : t.readHouse.Clean

variable {t}

end Tracked

end Ringbuffer
end IntegratedCLI
