import Mathlib.Order.Basic
import IntegratedCLI.Lib.Simulation
import IntegratedCLI.Ringbuffer.RingBuffer

/-!
# The byte log

What a ring buffer with one producer and one consumer is for: a bounded queue of
bytes.  The queue is given by the list of all bytes that were ever committed,
`sent`, to which bytes are only appended, and by the number of bytes that were
removed from its front, `tail`.  Nothing wraps around here, and no byte is ever
overwritten.

* The bytes of an open write transaction are `pending`.  A commit appends them to
  `sent`, a cancel forgets them.
* An open read transaction has reached a position, `cursor` bytes behind the tail.
  A read returns the bytes of `sent` behind that position.  A commit moves the tail
  there; a cancel forgets the position, so the same bytes are read again.
* `taken` are the bytes that the open read transaction has handed out, and
  `received` those of the read transactions that were committed.  A seek makes the
  transaction that of the bytes up to the position it moves to.

The operations have the names of those of `Producer` and `Consumer`, and return
what those are to return.
-/

namespace IntegratedCLI
namespace Ringbuffer

open Effect

/-! ## The arithmetic of 64 bit counters -/

theorem u64_of_lt {n : ℕ} (h : n < 2 ^ 64) : u64 n = n := Nat.mod_eq_of_lt h

theorem u64_lt (n : ℕ) : u64 n < 2 ^ 64 := Nat.mod_lt n (Nat.two_pow_pos 64)

theorem u64_add_u64 (m n : ℕ) : u64 (m + u64 n) = u64 (m + n) := by
  unfold u64
  omega

theorem u64_u64_add (m n : ℕ) : u64 (u64 m + n) = u64 (m + n) := by
  unfold u64
  omega

/-- The difference of two counters is the number of bytes between them. -/
theorem sub64_u64 {m n : ℕ} (h : n ≤ m) (hb : m < n + 2 ^ 64) : sub64 (u64 m) (u64 n) = m - n := by
  unfold sub64 u64
  omega

/-- What a seek sets never lies behind the head. -/
theorem sub64_clamp_le {m n : ℕ} (pos : ℕ) (h : n ≤ m) (hb : m < n + 2 ^ 64) :
    sub64 (clamp pos (u64 n) (u64 m)) (u64 n) ≤ m - n := by
  unfold clamp sub64 u64
  split_ifs <;> omega

/-! ## The log -/

structure ByteLog where
  cap : ℕ
  sent : List UInt8
  tail : ℕ
  pending : List UInt8
  cursor : ℕ
  writing : Bool
  reading : Bool
  taken : List UInt8
  received : List UInt8
  cap_le : cap ≤ 2 ^ 62
  reached_le : tail + cursor ≤ sent.length
  fits : sent.length + pending.length ≤ tail + cap

namespace ByteLog

abbrev Op := EStateM Errno ByteLog

/-- The number of bytes in the queue. -/
def size (l : ByteLog) : ℕ := l.sent.length - l.tail

/-- The bytes that the read transaction has not reached. -/
def unread (l : ByteLog) : List UInt8 := l.sent.drop (l.tail + l.cursor)

/-- A new log. -/
def empty (cap : ℕ) (h : cap ≤ 2 ^ 62) : ByteLog where
  cap := cap
  sent := []
  tail := 0
  pending := []
  cursor := 0
  writing := false
  reading := false
  taken := []
  received := []
  cap_le := h
  reached_le := Nat.le_refl 0
  fits := Nat.zero_le _

theorem size_le (l : ByteLog) : l.size ≤ l.cap := by
  have h := l.fits
  unfold size
  omega

theorem cursor_le (l : ByteLog) : l.cursor ≤ l.size := by
  have h := l.reached_le
  unfold size
  omega

theorem length_unread (l : ByteLog) : l.unread.length = l.size - l.cursor := by
  rw [unread, List.length_drop, size]
  omega

/-- The read transaction moves to a position in the queue. -/
def moveTo (l : ByteLog) (cursor : ℕ) (h : cursor ≤ l.size) (taken : List UInt8) : ByteLog :=
  { l with
    cursor := cursor
    taken := taken
    reached_le := by
      have h' := l.reached_le
      unfold size at h
      omega }

/-- The read transaction moves to a position, over bytes that it does not hand out. -/
def seekTo (l : ByteLog) (cursor : ℕ) (h : cursor ≤ l.size) : ByteLog :=
  l.moveTo cursor h ((l.sent.drop l.tail).take cursor)

/-- The bytes of the write transaction are sent. -/
def publish (l : ByteLog) : ByteLog :=
  { l with
    sent := l.sent ++ l.pending
    pending := []
    writing := false
    reached_le := by
      have h := l.reached_le
      rw [List.length_append]
      omega
    fits := by
      have h := l.fits
      rw [List.length_append, List.length_nil]
      omega }

/-- The write transaction is forgotten. -/
def unwrite (l : ByteLog) : ByteLog :=
  { l with
    pending := []
    writing := false
    fits := by
      have h := l.fits
      rw [List.length_nil]
      omega }

/-- Bytes leave the queue, and the read transaction ends. -/
def remove (l : ByteLog) (n : ℕ) (h : n ≤ l.size) (received : List UInt8) : ByteLog :=
  { l with
    tail := l.tail + n
    cursor := 0
    reading := false
    taken := []
    received := received
    reached_le := by
      have h' := l.reached_le
      unfold size at h
      omega
    fits := by
      have h' := l.fits
      omega }

/-! ## Producers -/

namespace Producer

/-- Append the bytes to the write transaction. -/
def copyToRingBuffer (d : List UInt8) : Op Reply := do
  let l ← get
  if d.length = 0 then throw .inval
  else if l.cap < d.length then throw .inval
  else if h : l.sent.length + (l.pending ++ d).length ≤ l.tail + l.cap then
    set { l with pending := l.pending ++ d, fits := h }
    return ⟨d.length, []⟩
  else throw .nospc

def startTx (weak : Bool) : Op Reply := do
  let l ← get
  if l.writing then throw .busy
  else if weak then throw .again
  else
    set { l with writing := true }
    return ⟨0, []⟩

def writeInTx (d : List UInt8) : Op Reply := do
  let l ← get
  if !l.writing then throw .inval else copyToRingBuffer d

def writeInTxWithSize (T : SizeType) (d : List UInt8) : Op Reply := do
  let l ← get
  if !l.writing then throw .inval
  else
    let s ← copyToRingBuffer (T.encode d.length)
    let sdata ← copyToRingBuffer d
    return ⟨s.size + sdata.size, []⟩

def commitTx : Op Reply := do
  let l ← get
  if !l.writing then throw .inval
  else
    set l.publish
    return ⟨0, []⟩

def cancelTx : Op Reply := do
  let l ← get
  if !l.writing then throw .inval
  else
    set l.unwrite
    return ⟨l.pending.length, []⟩

def writeInTxSizedChunk (T : SizeType) (str : List UInt8) : Op Reply := do
  let l ← get
  if !l.writing then throw .inval
  else if T.max < str.length then throw .inval
  else writeInTxWithSize T str

def cancelWith (e : Errno) : Op Reply := do
  let _ ← cancelTx
  throw e

def write (weak : Bool) (d : List UInt8) : Op Reply := do
  let _ ← startTx weak
  let _ ← tryCatch (writeInTx d) cancelWith
  let _ ← commitTx
  return ⟨d.length, []⟩

def writeSizedChunk (weak : Bool) (T : SizeType) (str : List UInt8) : Op Reply := do
  let _ ← startTx weak
  let s ← tryCatch (writeInTxSizedChunk T str) cancelWith
  let _ ← commitTx
  return s

/-- Drop bytes, or all of them if there are fewer. -/
def dropN (weak : Bool) (n : ℕ) : Op Reply := do
  let l ← get
  if l.cap < n then throw .inval
  else if l.reading || weak then throw .again
  else
    set (l.remove (min l.size n) (Nat.min_le_left _ _) l.received)
    return ⟨0, []⟩

def perform : Producer.Call → Op Reply
  | .startTx weak => startTx weak
  | .writeInTx d => writeInTx d
  | .writeInTxWithSize T d => writeInTxWithSize T d
  | .writeInTxSizedChunk T str => writeInTxSizedChunk T str
  | .commitTx => commitTx
  | .cancelTx => cancelTx
  | .write weak d => write weak d
  | .writeSizedChunk weak T str => writeSizedChunk weak T str
  | .dropN weak n => dropN weak n

end Producer

/-! ## Consumers -/

namespace Consumer

def startTx (weak : Bool) : Op Reply := do
  let l ← get
  if l.reading then throw .busy
  else if weak then throw .again
  else
    set { l with reading := true }
    return ⟨0, []⟩

/-- Hand out the next bytes. -/
def readFromRingBuffer (size : ℕ) : Op Reply := do
  let l ← get
  if size = 0 then throw .nodata
  else if l.cap < size then throw .nodata
  else if h : l.cursor + size ≤ l.size then
    set (l.moveTo (l.cursor + size) h (l.taken ++ l.unread.take size))
    return ⟨size, l.unread.take size⟩
  else throw .nodata

def readInTx (size : ℕ) : Op Reply := do
  let l ← get
  if !l.reading then throw .inval
  else if l.cap < size then throw .inval
  else readFromRingBuffer size

def readInTxWithSize (T : SizeType) : Op Reply := do
  let l ← get
  if !l.reading then throw .inval
  else
    let length ← readInTx T.bytes
    readInTx (T.decode length.bytes)

def copyInTx (size : ℕ) : Op Reply := do
  let l ← get
  if !l.reading then throw .inval
  else if size = 0 then return ⟨0, []⟩
  else if l.cap < size then throw .inval
  else readFromRingBuffer size

def commitTx : Op Reply := do
  let l ← get
  if !l.reading then throw .inval
  else
    set (l.remove l.cursor l.cursor_le (l.received ++ l.taken))
    return ⟨0, []⟩

/-- The size of a read that ends at the target, if the target is in the queue. -/
def chunkSize (l : ByteLog) : Consumer.Target → Option ℕ
  | .contiguous => some (min l.unread.length (l.cap - (l.tail + l.cursor) % l.cap))
  | .stopByte b => (l.unread.findIdx? (· = b)).map (· + 1)

theorem chunkSize_le {l : ByteLog} {target : Consumer.Target} {n : ℕ}
    (h : chunkSize l target = some n) : l.cursor + n ≤ l.size := by
  have hu := l.length_unread
  have hc := l.cursor_le
  cases target with
  | contiguous =>
    have hn := Option.some.inj h
    omega
  | stopByte b =>
    obtain ⟨i, hi, rfl⟩ := Option.map_eq_some_iff.mp h
    have hlt := (List.findIdx?_eq_some_iff_getElem.mp hi).1
    omega

def findInBufferInTx (target : Consumer.Target) : Op Reply := do
  let l ← get
  if !l.reading then throw .inval
  else if l.unread = [] then throw .nodata
  else
    match chunkSize l target with
    | some n => return ⟨n, []⟩
    | none => throw .nodata

/-- Hand out the bytes up to the target. -/
def readInTxChunk (target : Consumer.Target) : Op Reply := do
  let l ← get
  if !l.reading then throw .inval
  else if l.unread = [] then throw .nodata
  else
    match h : chunkSize l target with
    | some n =>
      set (l.moveTo (l.cursor + n) (chunkSize_le h) (l.taken ++ l.unread.take n))
      return ⟨n, l.unread.take n⟩
    | none => throw .nodata

def cancelTx : Op Reply := do
  let l ← get
  if !l.reading then throw .inval
  else
    set (l.remove 0 (Nat.zero_le _) l.received)
    return ⟨l.cursor, []⟩

def dropInTx : Op Reply := do
  let l ← get
  if !l.reading then throw .inval
  else
    set (l.remove l.size (Nat.le_refl _) l.received)
    return ⟨l.cursor, []⟩

/-- Move to a position.  Positions are 64 bit numbers, so they start again at
zero. -/
def seekInTx (pos : ℕ) : Op Reply := do
  let l ← get
  if !l.reading then throw .inval
  else
    let cursor := sub64 (clamp pos (u64 l.tail) (u64 l.sent.length)) (u64 l.tail)
    have h : cursor ≤ l.size :=
      sub64_clamp_le pos (by have := l.reached_le; omega)
        (by have := l.fits; have := l.cap_le; omega)
    set (l.seekTo cursor h)
    return ⟨cursor, []⟩

/-- Move relative to the position that the transaction has reached. -/
def relSeekInTx (delta : ℤ) : Op Reply := do
  let l ← get
  if !l.reading then throw .inval
  else
    let cursor := (clamp (s64 (l.cursor + delta)) 0 (l.size : ℤ)).toNat
    have h : cursor ≤ l.size := by
      unfold cursor clamp
      split_ifs <;> omega
    set (l.seekTo cursor h)
    return ⟨cursor, []⟩

def drop (weak : Bool) : Op Reply := do
  let _ ← startTx weak
  dropInTx

/-- Drop bytes, or all of them if there are fewer. -/
def dropN (weak : Bool) (n : ℕ) : Op Reply := do
  let _ ← startTx weak
  let l ← get
  set (l.remove (min l.size n) (Nat.min_le_left _ _) l.received)
  return ⟨0, []⟩

def cancelWith (e : Errno) : Op Reply := do
  let _ ← cancelTx
  throw e

def copy (weak : Bool) (size : ℕ) : Op Reply := do
  let _ ← startTx weak
  let ret ← tryCatch (copyInTx size) cancelWith
  let _ ← commitTx
  return ret

def startReadTx (weak : Bool) (size : ℕ) : Op Reply := do
  let l ← get
  if l.cap < size then throw .inval
  else
    let _ ← startTx weak
    tryCatch (readInTx size) cancelWith

def read (weak : Bool) (size : ℕ) : Op Reply := do
  let ret ← startReadTx weak size
  let _ ← commitTx
  return ret

def readSizedChunk (weak : Bool) (T : SizeType) : Op Reply := do
  let _ ← startTx weak
  let ret ← tryCatch (readInTxWithSize T) cancelWith
  let _ ← commitTx
  return ⟨T.bytes + ret.size, ret.bytes⟩

def readChunk (weak : Bool) (target : Consumer.Target) : Op Reply := do
  let _ ← startTx weak
  let ret ← tryCatch (readInTxChunk target) cancelWith
  let _ ← commitTx
  return ret

def destroy : Op Reply := do
  let l ← get
  if l.reading then cancelTx else return ⟨0, []⟩

def perform : Consumer.Call → Op Reply
  | .startTx weak => startTx weak
  | .readInTx size => readInTx size
  | .readInTxWithSize T => readInTxWithSize T
  | .copyInTx size => copyInTx size
  | .findInBufferInTx target => findInBufferInTx target
  | .readInTxChunk target => readInTxChunk target
  | .commitTx => commitTx
  | .cancelTx => cancelTx
  | .dropInTx => dropInTx
  | .seekInTx pos => seekInTx pos
  | .relSeekInTx delta => relSeekInTx delta
  | .drop weak => drop weak
  | .dropN weak n => dropN weak n
  | .copy weak size => copy weak size
  | .startReadTx weak size => startReadTx weak size
  | .read weak size => read weak size
  | .readSizedChunk weak T => readSizedChunk weak T
  | .readChunk weak target => readChunk weak target
  | .destroy => destroy

end Consumer

/-! ## What a consumer receives -/

/-- What was handed out are the bytes up to the positions that were reached: those
of the transaction are `taken`, and those of the committed transactions
`received`. -/
structure InOrder (l : ByteLog) : Prop where
  taken : l.taken = (l.sent.drop l.tail).take l.cursor
  received : l.received = l.sent.take l.tail

theorem inOrder_empty (cap : ℕ) (h : cap ≤ 2 ^ 62) : (empty cap h).InOrder := ⟨rfl, rfl⟩

section InOrder

variable {l : ByteLog}

theorem InOrder.publish (h : l.InOrder) : l.publish.InOrder := by
  have hr := l.reached_le
  constructor
  · show l.taken = ((l.sent ++ l.pending).drop l.tail).take l.cursor
    rw [List.drop_append_of_le_length (by omega),
      List.take_append_of_le_length (by rw [List.length_drop]; omega)]
    exact h.taken
  · show l.received = (l.sent ++ l.pending).take l.tail
    rw [List.take_append_of_le_length (by omega)]
    exact h.received

theorem InOrder.unwrite (h : l.InOrder) : l.unwrite.InOrder := ⟨h.taken, h.received⟩

theorem InOrder.take (h : l.InOrder) {n : ℕ} (hn : l.cursor + n ≤ l.size) :
    (l.moveTo (l.cursor + n) hn (l.taken ++ l.unread.take n)).InOrder := by
  refine ⟨?_, h.received⟩
  show l.taken ++ (l.sent.drop (l.tail + l.cursor)).take n
    = (l.sent.drop l.tail).take (l.cursor + n)
  rw [List.take_add, List.drop_drop, ← h.taken]

theorem InOrder.seekTo (h : l.InOrder) {cursor : ℕ} (hc : cursor ≤ l.size) :
    (l.seekTo cursor hc).InOrder := ⟨rfl, h.received⟩

theorem InOrder.commit (h : l.InOrder) :
    (l.remove l.cursor l.cursor_le (l.received ++ l.taken)).InOrder := by
  refine ⟨rfl, ?_⟩
  show l.received ++ l.taken = l.sent.take (l.tail + l.cursor)
  rw [List.take_add, h.received, h.taken]

theorem InOrder.cancel (h : l.InOrder) :
    (l.remove 0 (Nat.zero_le _) l.received).InOrder := ⟨rfl, h.received⟩

end InOrder

namespace Producer

/-- The calls that drop bytes. -/
def Drops : Producer.Call → Prop
  | .dropN _ _ => True
  | _ => False

theorem copyToRingBuffer_inOrder (d : List UInt8) :
    Moves (Preserves InOrder) (copyToRingBuffer d) := by
  refine moves_iff.mpr fun l => ?_
  simp only [copyToRingBuffer, outcome_bind, outcome_get]
  split_ifs with h₁ h₂ h₃
  · exact id
  · exact id
  · exact fun h => ⟨h.taken, h.received⟩
  · exact id

theorem startTx_inOrder (weak : Bool) : Moves (Preserves InOrder) (startTx weak) := by
  refine moves_iff.mpr fun l => ?_
  simp only [startTx, outcome_bind, outcome_get]
  split_ifs
  · exact id
  · exact id
  · exact fun h => ⟨h.taken, h.received⟩

theorem commitTx_inOrder : Moves (Preserves InOrder) commitTx := by
  refine moves_iff.mpr fun l => ?_
  simp only [commitTx, outcome_bind, outcome_get]
  split_ifs
  · exact id
  · exact InOrder.publish

theorem cancelTx_inOrder : Moves (Preserves InOrder) cancelTx := by
  refine moves_iff.mpr fun l => ?_
  simp only [cancelTx, outcome_bind, outcome_get]
  split_ifs
  · exact id
  · exact InOrder.unwrite

theorem cancelWith_inOrder (e : Errno) : Moves (Preserves InOrder) (cancelWith e) :=
  moves_bind cancelTx_inOrder fun _ => moves_throw e

theorem writeInTx_inOrder (d : List UInt8) : Moves (Preserves InOrder) (writeInTx d) := by
  refine moves_bind moves_get fun l => ?_
  split_ifs
  · exact moves_throw _
  · exact copyToRingBuffer_inOrder d

theorem writeInTxWithSize_inOrder (T : SizeType) (d : List UInt8) :
    Moves (Preserves InOrder) (writeInTxWithSize T d) := by
  refine moves_bind moves_get fun l => ?_
  split_ifs
  · exact moves_throw _
  · exact moves_bind (copyToRingBuffer_inOrder _) fun _ =>
      moves_bind (copyToRingBuffer_inOrder d) fun _ => moves_pure _

theorem writeInTxSizedChunk_inOrder (T : SizeType) (str : List UInt8) :
    Moves (Preserves InOrder) (writeInTxSizedChunk T str) := by
  refine moves_bind moves_get fun l => ?_
  split_ifs
  · exact moves_throw _
  · exact moves_throw _
  · exact writeInTxWithSize_inOrder T str

theorem perform_inOrder {c : Producer.Call} (hc : ¬ Drops c) :
    Moves (Preserves InOrder) (perform c) := by
  cases c with
  | startTx weak => exact startTx_inOrder weak
  | writeInTx d => exact writeInTx_inOrder d
  | writeInTxWithSize T d => exact writeInTxWithSize_inOrder T d
  | writeInTxSizedChunk T str => exact writeInTxSizedChunk_inOrder T str
  | commitTx => exact commitTx_inOrder
  | cancelTx => exact cancelTx_inOrder
  | write weak d =>
    exact moves_bind (startTx_inOrder weak) fun _ =>
      moves_bind (moves_tryCatch (writeInTx_inOrder d) cancelWith_inOrder) fun _ =>
        moves_bind commitTx_inOrder fun _ => moves_pure _
  | writeSizedChunk weak T str =>
    exact moves_bind (startTx_inOrder weak) fun _ =>
      moves_bind (moves_tryCatch (writeInTxSizedChunk_inOrder T str) cancelWith_inOrder) fun _ =>
        moves_bind commitTx_inOrder fun _ => moves_pure _
  | dropN weak n => exact absurd trivial hc

end Producer

namespace Consumer

/-- The calls that drop bytes. -/
def Drops : Consumer.Call → Prop
  | .dropInTx | .drop _ | .dropN _ _ => True
  | _ => False

theorem startTx_inOrder (weak : Bool) : Moves (Preserves InOrder) (startTx weak) := by
  refine moves_iff.mpr fun l => ?_
  simp only [startTx, outcome_bind, outcome_get]
  split_ifs
  · exact id
  · exact id
  · exact fun h => ⟨h.taken, h.received⟩

theorem readFromRingBuffer_inOrder (size : ℕ) :
    Moves (Preserves InOrder) (readFromRingBuffer size) := by
  refine moves_iff.mpr fun l => ?_
  simp only [readFromRingBuffer, outcome_bind, outcome_get]
  split_ifs with h₁ h₂ h₃
  · exact id
  · exact id
  · exact fun h => h.take h₃
  · exact id

theorem readInTx_inOrder (size : ℕ) : Moves (Preserves InOrder) (readInTx size) := by
  refine moves_bind moves_get fun l => ?_
  split_ifs
  · exact moves_throw _
  · exact moves_throw _
  · exact readFromRingBuffer_inOrder size

theorem readInTxWithSize_inOrder (T : SizeType) :
    Moves (Preserves InOrder) (readInTxWithSize T) := by
  refine moves_bind moves_get fun l => ?_
  split_ifs
  · exact moves_throw _
  · exact moves_bind (readInTx_inOrder _) fun _ => readInTx_inOrder _

theorem copyInTx_inOrder (size : ℕ) : Moves (Preserves InOrder) (copyInTx size) := by
  refine moves_bind moves_get fun l => ?_
  split_ifs
  · exact moves_throw _
  · exact moves_pure _
  · exact moves_throw _
  · exact readFromRingBuffer_inOrder size

theorem findInBufferInTx_inOrder (target : Consumer.Target) :
    Moves (Preserves InOrder) (findInBufferInTx target) := by
  refine moves_bind moves_get fun l => ?_
  split_ifs
  · exact moves_throw _
  · exact moves_throw _
  · split
    · exact moves_pure _
    · exact moves_throw _

theorem readInTxChunk_inOrder (target : Consumer.Target) :
    Moves (Preserves InOrder) (readInTxChunk target) := by
  refine moves_iff.mpr fun l => ?_
  simp only [readInTxChunk, outcome_bind, outcome_get]
  split_ifs
  · exact id
  · exact id
  · split
    · next n hn => exact fun h => h.take (chunkSize_le hn)
    · exact id

theorem commitTx_inOrder : Moves (Preserves InOrder) commitTx := by
  refine moves_iff.mpr fun l => ?_
  simp only [commitTx, outcome_bind, outcome_get]
  split_ifs
  · exact id
  · exact InOrder.commit

theorem cancelTx_inOrder : Moves (Preserves InOrder) cancelTx := by
  refine moves_iff.mpr fun l => ?_
  simp only [cancelTx, outcome_bind, outcome_get]
  split_ifs
  · exact id
  · exact InOrder.cancel

theorem seekInTx_inOrder (pos : ℕ) : Moves (Preserves InOrder) (seekInTx pos) := by
  refine moves_iff.mpr fun l => ?_
  simp only [seekInTx, outcome_bind, outcome_get]
  split_ifs
  · exact id
  · exact fun h => h.seekTo _

theorem relSeekInTx_inOrder (delta : ℤ) : Moves (Preserves InOrder) (relSeekInTx delta) := by
  refine moves_iff.mpr fun l => ?_
  simp only [relSeekInTx, outcome_bind, outcome_get]
  split_ifs
  · exact id
  · exact fun h => h.seekTo _

theorem cancelWith_inOrder (e : Errno) : Moves (Preserves InOrder) (cancelWith e) :=
  moves_bind cancelTx_inOrder fun _ => moves_throw e

/-- A transaction around an operation. -/
theorem transaction_inOrder {m : Op Reply} (weak : Bool) (f : Reply → Reply)
    (hm : Moves (Preserves InOrder) m) :
    Moves (Preserves InOrder) (do
      let _ ← startTx weak
      let ret ← tryCatch m cancelWith
      let _ ← commitTx
      return f ret) :=
  moves_bind (startTx_inOrder weak) fun _ =>
    moves_bind (moves_tryCatch hm cancelWith_inOrder) fun _ =>
      moves_bind commitTx_inOrder fun _ => moves_pure _

theorem startReadTx_inOrder (weak : Bool) (size : ℕ) :
    Moves (Preserves InOrder) (startReadTx weak size) := by
  refine moves_bind moves_get fun l => ?_
  split_ifs
  · exact moves_throw _
  · exact moves_bind (startTx_inOrder weak) fun _ =>
      moves_tryCatch (readInTx_inOrder size) cancelWith_inOrder

theorem perform_inOrder {c : Consumer.Call} (hc : ¬ Drops c) :
    Moves (Preserves InOrder) (perform c) := by
  cases c with
  | startTx weak => exact startTx_inOrder weak
  | readInTx size => exact readInTx_inOrder size
  | readInTxWithSize T => exact readInTxWithSize_inOrder T
  | copyInTx size => exact copyInTx_inOrder size
  | findInBufferInTx target => exact findInBufferInTx_inOrder target
  | readInTxChunk target => exact readInTxChunk_inOrder target
  | commitTx => exact commitTx_inOrder
  | cancelTx => exact cancelTx_inOrder
  | dropInTx => exact absurd trivial hc
  | seekInTx pos => exact seekInTx_inOrder pos
  | relSeekInTx delta => exact relSeekInTx_inOrder delta
  | drop weak => exact absurd trivial hc
  | dropN weak n => exact absurd trivial hc
  | copy weak size => exact transaction_inOrder weak id (copyInTx_inOrder size)
  | startReadTx weak size => exact startReadTx_inOrder weak size
  | read weak size =>
    exact moves_bind (startReadTx_inOrder weak size) fun _ =>
      moves_bind commitTx_inOrder fun _ => moves_pure _
  | readSizedChunk weak T =>
    exact transaction_inOrder weak (fun ret => ⟨T.bytes + ret.size, ret.bytes⟩)
      (readInTxWithSize_inOrder T)
  | readChunk weak target => exact transaction_inOrder weak id (readInTxChunk_inOrder target)
  | destroy =>
    refine moves_bind moves_get fun l => ?_
    split_ifs
    · exact cancelTx_inOrder
    · exact moves_pure _

end Consumer

end ByteLog

end Ringbuffer
end IntegratedCLI
