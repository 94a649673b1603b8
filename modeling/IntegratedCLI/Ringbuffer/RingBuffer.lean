import Mathlib.Algebra.Group.Int.Defs
import Mathlib.Algebra.Group.Nat.Defs
import Mathlib.Data.List.Basic
import Mathlib.Data.Int.Notation
import IntegratedCLI.Lib.Effect

/-!
# The ring buffer

`RingBufferHeader`, `Producer` and `Consumer` of `hbt/src/ringbuffer`.  A ring
buffer is a header with two counters and two flags, and an array of bytes.  Any
number of producers and consumers may be attached to one; each has nothing of its
own but the size of its transaction, `tx_size_`.

An operation of an object sees the ring buffer and the object's `tx_size_`, which
is a `View`.  It returns a size and the bytes it hands out, or an error; what it
wrote before an error stays written.

## What is modelled how

* The counters, `tx_size_` and every position are 64 bit numbers: they are natural
  numbers, and sums and differences are taken modulo `2 ^ 64` (`u64`, `sub64`).
  Signed sums wrap as well (`s64`), and `clamp` is the reference implementation of
  `std::clamp`.
* The array is memory, a function from addresses to bytes, the array being at the
  addresses below `kDataPoolByteSize`.  What is behind the array is whatever the
  memory holds.  The size of the array is a power of two, and at most `2 ^ 62`:
  no array of the language is larger than `PTRDIFF_MAX`.
* A pointer that an operation returns is the bytes it points to.  The auxiliary
  buffer of a consumer only serves to hold such bytes, and growing it succeeds.
* A `compare_exchange_weak` may fail for no reason; `weak` says that it does.
* `HBT_DCHECK` is compiled out.
-/

namespace IntegratedCLI
namespace Ringbuffer

open Effect

/-! ## Machine arithmetic -/

/-- A 64 bit number. -/
def u64 (n : ℕ) : ℕ := n % 2 ^ 64

/-- The difference of two 64 bit numbers. -/
def sub64 (a b : ℕ) : ℕ := (a + (2 ^ 64 - b)) % 2 ^ 64

/-- A signed 64 bit number. -/
def s64 (n : ℤ) : ℤ := (n + 2 ^ 63) % 2 ^ 64 - 2 ^ 63

/-- `std::clamp`. -/
def clamp {α : Type} [LT α] [DecidableLT α] (v lo hi : α) : α :=
  if v < lo then lo else if hi < v then hi else v

/-! ## Memory -/

abbrev Memory := ℕ → UInt8

/-- Copy the bytes to the address. -/
def memcpy (mem : Memory) (start : ℕ) (d : List UInt8) : Memory := fun i =>
  if start ≤ i then (d[i - start]?).getD (mem i) else mem i

/-- The bytes from the address on. -/
def bytesAt (mem : Memory) (start size : ℕ) : List UInt8 :=
  (List.range size).map fun i => mem (start + i)

/-! ## The ring buffer -/

/-- The errors, which are returned as negative sizes. -/
inductive Errno where
  | busy | again | inval | perm | nospc | nodata
  deriving DecidableEq, Repr

structure RingBuffer where
  logSize : ℕ
  head : ℕ
  tail : ℕ
  inWriteTx : Bool
  inReadTx : Bool
  data : Memory
  logSize_le : logSize ≤ 62

namespace RingBuffer

variable (rb : RingBuffer)

def kDataPoolByteSize : ℕ := 2 ^ rb.logSize

def kDataModMask : ℕ := rb.kDataPoolByteSize - 1

def usedSizeWeak : ℕ := sub64 rb.head rb.tail

/-- A new ring buffer. -/
def init (logSize : ℕ) (h : logSize ≤ 62) (data : Memory) : RingBuffer :=
  ⟨logSize, 0, 0, false, false, data, h⟩

def incHead (inc : ℕ) : RingBuffer := { rb with head := u64 (rb.head + inc) }

def incTail (inc : ℕ) : RingBuffer := { rb with tail := u64 (rb.tail + inc) }

def drop : RingBuffer := { rb with tail := rb.head }

def dropN (n : ℕ) : RingBuffer := { rb with tail := u64 (rb.tail + n) }

end RingBuffer

/-- The ring buffer as one object sees it, with the `tx_size_` of the object. -/
structure View where
  rb : RingBuffer
  txSize : ℕ

/-- What an operation returns: a size, and the bytes it hands out. -/
structure Reply where
  size : ℕ
  bytes : List UInt8
  deriving DecidableEq, Repr

abbrev Op := EStateM Errno View

/-- An integral type that sizes are written as. -/
structure SizeType where
  bytes : ℕ
  signed : Bool
  deriving DecidableEq, Repr

namespace SizeType

variable (T : SizeType)

def max : ℕ := 2 ^ (8 * T.bytes - if T.signed then 1 else 0) - 1

/-- The bytes of a number, the lowest first. -/
def encode (n : ℕ) : List UInt8 := (List.range T.bytes).map fun i => UInt8.ofNat (n / 256 ^ i)

/-- The number, converted to `size_t`. -/
def decode (d : List UInt8) : ℕ :=
  let n := d.foldr (fun b n => b.toNat + 256 * n) 0
  if T.signed && decide (T.max < n) then sub64 n (2 ^ (8 * T.bytes)) else n

end SizeType

/-! ## Producers -/

namespace Producer

/-- Copy the bytes behind the ones of the transaction. -/
def copyToRingBuffer (d : List UInt8) : Op Reply := do
  let v ← get
  let cap := v.rb.kDataPoolByteSize
  if d.length = 0 then throw .inval
  else if cap < d.length then throw .inval
  else
    let used := sub64 v.rb.head v.rb.tail
    if cap < used then throw .perm
    else
      let space := cap - used
      if space < u64 (v.txSize + d.length) then throw .nospc
      else
        let start := u64 (v.txSize + v.rb.head) &&& v.rb.kDataModMask
        let stop := u64 (start + d.length) &&& v.rb.kDataModMask
        let data :=
          if start < stop then memcpy v.rb.data start d
          else
            let size0 := cap - start
            memcpy (memcpy v.rb.data start (d.take size0)) 0 ((d.drop size0).take stop)
        set (⟨{ v.rb with data := data }, u64 (v.txSize + d.length)⟩ : View)
        return ⟨d.length, []⟩

def startTx (weak : Bool) : Op Reply := do
  let v ← get
  if v.rb.inWriteTx then throw .busy
  else if weak then throw .again
  else
    set { v with rb := { v.rb with inWriteTx := true } }
    return ⟨0, []⟩

def writeInTx (d : List UInt8) : Op Reply := do
  let v ← get
  if !v.rb.inWriteTx then throw .inval else copyToRingBuffer d

/-- Write the length of the data and the data. -/
def writeInTxWithSize (T : SizeType) (d : List UInt8) : Op Reply := do
  let v ← get
  if !v.rb.inWriteTx then throw .inval
  else
    let s ← copyToRingBuffer (T.encode d.length)
    let sdata ← copyToRingBuffer d
    return ⟨s.size + sdata.size, []⟩

def commitTx : Op Reply := do
  let v ← get
  if !v.rb.inWriteTx then throw .inval
  else
    set (⟨{ v.rb.incHead v.txSize with inWriteTx := false }, 0⟩ : View)
    return ⟨0, []⟩

def cancelTx : Op Reply := do
  let v ← get
  if !v.rb.inWriteTx then throw .inval
  else
    set (⟨{ v.rb with inWriteTx := false }, 0⟩ : View)
    return ⟨v.txSize, []⟩

def writeInTxSizedChunk (T : SizeType) (str : List UInt8) : Op Reply := do
  let v ← get
  if !v.rb.inWriteTx then throw .inval
  else if T.max < str.length then throw .inval
  else writeInTxWithSize T str

/-- Cancel the transaction and return the error. -/
def cancelWith (e : Errno) : Op Reply := do
  let _ ← cancelTx
  throw e

def write (weak : Bool) (d : List UInt8) : Op Reply := do
  let _ ← startTx weak
  let _ ← tryCatch (writeInTx d) cancelWith
  let _ ← commitTx
  return ⟨d.length, []⟩

def writeSizedChunk (weak : Bool) (T : SizeType) (str : List UInt8) : Op Reply := do
  let _ ← startTx weak
  let s ← tryCatch (writeInTxSizedChunk T str) cancelWith
  let _ ← commitTx
  return s

/-- Drop bytes.  This moves the tail, in a read transaction of its own. -/
def dropN (weak : Bool) (n : ℕ) : Op Reply := do
  let v ← get
  if v.rb.kDataPoolByteSize < n then throw .inval
  else if v.rb.inReadTx || weak then throw .again
  else
    set { v with rb := v.rb.dropN n }
    return ⟨0, []⟩

end Producer

/-! ## Consumers -/

namespace Consumer

/-- What `findInBufferInTx` looks for: the end of the contiguous data, or a byte. -/
inductive Target where
  | contiguous
  | stopByte (b : UInt8)
  deriving DecidableEq, Repr

def startTx (weak : Bool) : Op Reply := do
  let v ← get
  if v.rb.inReadTx then throw .busy
  else if weak then throw .again
  else
    set { v with rb := { v.rb with inReadTx := true } }
    return ⟨0, []⟩

/-- Read bytes behind the ones of the transaction. -/
def readFromRingBuffer (size : ℕ) : Op Reply := do
  let v ← get
  let cap := v.rb.kDataPoolByteSize
  if size = 0 then throw .nodata
  else if cap < size then throw .nodata
  else if sub64 v.rb.head v.rb.tail < u64 (v.txSize + size) then throw .nodata
  else
    let start := u64 (v.txSize + v.rb.tail) &&& v.rb.kDataModMask
    let stop := u64 (start + size) &&& v.rb.kDataModMask
    let bytes :=
      if start < stop then bytesAt v.rb.data start size
      else bytesAt v.rb.data start (cap - start) ++ bytesAt v.rb.data 0 stop
    set { v with txSize := u64 (v.txSize + size) }
    return ⟨size, bytes⟩

def readInTx (size : ℕ) : Op Reply := do
  let v ← get
  if !v.rb.inReadTx then throw .inval
  else if v.rb.kDataPoolByteSize < size then throw .inval
  else readFromRingBuffer size

/-- Read a size, and then as many bytes as it says. -/
def readInTxWithSize (T : SizeType) : Op Reply := do
  let v ← get
  if !v.rb.inReadTx then throw .inval
  else
    let length ← readInTx T.bytes
    readInTx (T.decode length.bytes)

def copyInTx (size : ℕ) : Op Reply := do
  let v ← get
  if !v.rb.inReadTx then throw .inval
  else if size = 0 then return ⟨0, []⟩
  else if v.rb.kDataPoolByteSize < size then throw .inval
  else readFromRingBuffer size

def commitTx : Op Reply := do
  let v ← get
  if !v.rb.inReadTx then throw .inval
  else
    set (⟨{ v.rb.incTail v.txSize with inReadTx := false }, 0⟩ : View)
    return ⟨0, []⟩

/-- The position of the first `b` among the addresses from `start` up to `stop`,
counted from `start`. -/
def findByte (mem : Memory) (b : UInt8) (start stop : ℕ) : Option ℕ :=
  (bytesAt mem start (stop - start)).findIdx? (· = b)

/-- The size of a read that ends at the target. -/
def findInBufferInTx (target : Target) : Op Reply := do
  let v ← get
  let cap := v.rb.kDataPoolByteSize
  if !v.rb.inReadTx then throw .inval
  else if u64 (v.rb.tail + v.txSize) = v.rb.head then throw .nodata
  else
    let start := u64 (v.txSize + v.rb.tail) &&& v.rb.kDataModMask
    let stop := v.rb.head &&& v.rb.kDataModMask
    let wrap := decide (stop ≤ start)
    match target with
    | .contiguous => return ⟨if wrap then cap - start else stop - start, []⟩
    | .stopByte b =>
      match findByte v.rb.data b start (if wrap then cap else stop) with
      | some i => return ⟨i + 1, []⟩
      | none =>
        if wrap then
          match findByte v.rb.data b 0 stop with
          | some i => return ⟨cap - start + i + 1, []⟩
          | none => throw .nodata
        else throw .nodata

/-- Read up to the target. -/
def readInTxChunk (target : Target) : Op Reply := do
  let v ← get
  if !v.rb.inReadTx then throw .inval
  else
    let ret ← findInBufferInTx target
    let start := u64 (v.txSize + v.rb.tail) &&& v.rb.kDataModMask
    set { v with txSize := u64 (v.txSize + ret.size) }
    return ⟨ret.size, bytesAt v.rb.data start ret.size⟩

def cancelTx : Op Reply := do
  let v ← get
  if !v.rb.inReadTx then throw .inval
  else
    set (⟨{ v.rb with inReadTx := false }, 0⟩ : View)
    return ⟨v.txSize, []⟩

/-- Drop the contents of the ring buffer, which ends the transaction. -/
def dropInTx : Op Reply := do
  let v ← get
  if !v.rb.inReadTx then throw .inval
  else
    set (⟨{ v.rb.drop with inReadTx := false }, 0⟩ : View)
    return ⟨v.txSize, []⟩

/-- Move to a position, which counts like the head and the tail. -/
def seekInTx (pos : ℕ) : Op Reply := do
  let v ← get
  if !v.rb.inReadTx then throw .inval
  else
    let txSize := sub64 (clamp pos v.rb.tail v.rb.head) v.rb.tail
    set { v with txSize := txSize }
    return ⟨txSize, []⟩

/-- Move relative to the position that the transaction has reached. -/
def relSeekInTx (delta : ℤ) : Op Reply := do
  let v ← get
  if !v.rb.inReadTx then throw .inval
  else
    let size := s64 (s64 v.rb.head - s64 v.rb.tail)
    let txSize := (clamp (s64 (v.txSize + delta)) 0 size).toNat
    set { v with txSize := txSize }
    return ⟨txSize, []⟩

def drop (weak : Bool) : Op Reply := do
  let _ ← startTx weak
  dropInTx

def dropN (weak : Bool) (n : ℕ) : Op Reply := do
  let _ ← startTx weak
  let v ← get
  let rb := v.rb.dropN (min v.rb.usedSizeWeak n)
  set { v with rb := { rb with inReadTx := false } }
  return ⟨0, []⟩

/-- Cancel the transaction and return the error. -/
def cancelWith (e : Errno) : Op Reply := do
  let _ ← cancelTx
  throw e

def copy (weak : Bool) (size : ℕ) : Op Reply := do
  let _ ← startTx weak
  let ret ← tryCatch (copyInTx size) cancelWith
  let _ ← commitTx
  return ret

def startReadTx (weak : Bool) (size : ℕ) : Op Reply := do
  let v ← get
  if v.rb.kDataPoolByteSize < size then throw .inval
  else
    let _ ← startTx weak
    tryCatch (readInTx size) cancelWith

def read (weak : Bool) (size : ℕ) : Op Reply := do
  let ret ← startReadTx weak size
  let _ ← commitTx
  return ret

def readSizedChunk (weak : Bool) (T : SizeType) : Op Reply := do
  let _ ← startTx weak
  let ret ← tryCatch (readInTxWithSize T) cancelWith
  let _ ← commitTx
  return ⟨T.bytes + ret.size, ret.bytes⟩

def readChunk (weak : Bool) (target : Target) : Op Reply := do
  let _ ← startTx weak
  let ret ← tryCatch (readInTxChunk target) cancelWith
  let _ ← commitTx
  return ret

/-- The destructor. -/
def destroy : Op Reply := do
  let v ← get
  if v.rb.inReadTx then cancelTx else return ⟨0, []⟩

end Consumer

/-! ## Calls -/

/-- The calls that a producer serves. -/
inductive Producer.Call where
  | startTx (weak : Bool)
  | writeInTx (d : List UInt8)
  | writeInTxWithSize (T : SizeType) (d : List UInt8)
  | writeInTxSizedChunk (T : SizeType) (str : List UInt8)
  | commitTx
  | cancelTx
  | write (weak : Bool) (d : List UInt8)
  | writeSizedChunk (weak : Bool) (T : SizeType) (str : List UInt8)
  | dropN (weak : Bool) (n : ℕ)
  deriving DecidableEq, Repr

/-- The calls that a consumer serves. -/
inductive Consumer.Call where
  | startTx (weak : Bool)
  | readInTx (size : ℕ)
  | readInTxWithSize (T : SizeType)
  | copyInTx (size : ℕ)
  | findInBufferInTx (target : Consumer.Target)
  | readInTxChunk (target : Consumer.Target)
  | commitTx
  | cancelTx
  | dropInTx
  | seekInTx (pos : ℕ)
  | relSeekInTx (delta : ℤ)
  | drop (weak : Bool)
  | dropN (weak : Bool) (n : ℕ)
  | copy (weak : Bool) (size : ℕ)
  | startReadTx (weak : Bool) (size : ℕ)
  | read (weak : Bool) (size : ℕ)
  | readSizedChunk (weak : Bool) (T : SizeType)
  | readChunk (weak : Bool) (target : Consumer.Target)
  | destroy
  deriving DecidableEq, Repr

namespace Producer

def perform : Call → Op Reply
  | .startTx weak => startTx weak
  | .writeInTx d => writeInTx d
  | .writeInTxWithSize T d => writeInTxWithSize T d
  | .writeInTxSizedChunk T str => writeInTxSizedChunk T str
  | .commitTx => commitTx
  | .cancelTx => cancelTx
  | .write weak d => write weak d
  | .writeSizedChunk weak T str => writeSizedChunk weak T str
  | .dropN weak n => dropN weak n

end Producer

namespace Consumer

def perform : Call → Op Reply
  | .startTx weak => startTx weak
  | .readInTx size => readInTx size
  | .readInTxWithSize T => readInTxWithSize T
  | .copyInTx size => copyInTx size
  | .findInBufferInTx target => findInBufferInTx target
  | .readInTxChunk target => readInTxChunk target
  | .commitTx => commitTx
  | .cancelTx => cancelTx
  | .dropInTx => dropInTx
  | .seekInTx pos => seekInTx pos
  | .relSeekInTx delta => relSeekInTx delta
  | .drop weak => drop weak
  | .dropN weak n => dropN weak n
  | .copy weak size => copy weak size
  | .startReadTx weak size => startReadTx weak size
  | .read weak size => read weak size
  | .readSizedChunk weak T => readSizedChunk weak T
  | .readChunk weak target => readChunk weak target
  | .destroy => destroy

end Consumer

end Ringbuffer
end IntegratedCLI
