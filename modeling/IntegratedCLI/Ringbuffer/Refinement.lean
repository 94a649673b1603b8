import Mathlib.Tactic.SplitIfs
import IntegratedCLI.Lib.RingMemory
import IntegratedCLI.Ringbuffer.ByteLog

/-!
# The ring buffer refines the byte log

`Stores w l` says that a ring buffer with one producer and one consumer is in the
state of a log: the counters are the numbers of bytes sent and removed, modulo
`2 ^ 64`, the sizes of the transactions are those of the log, and the byte with
number `i` is in the array at `i` modulo its size.

Every operation matches that of the log, with one exception: the bytes that a read
up to a stop byte hands out are those of the log only where it does not find the
stop byte behind the end of the array (`StopByteWraps`).  Then the size is still
that of the log, but the bytes are those behind the array.  A producer that drops
bytes must not drop more than there are.
-/

namespace IntegratedCLI
namespace Ringbuffer

open Effect RingMemory

/-! ## One producer and one consumer -/

/-- A ring buffer with one producer and one consumer, of which there are the sizes
of their transactions. -/
structure World where
  rb : RingBuffer
  producer : ℕ
  consumer : ℕ

/-- The ring buffer stores the log. -/
structure Stores (w : World) (l : ByteLog) : Prop where
  cap : w.rb.kDataPoolByteSize = l.cap
  head : w.rb.head = u64 l.sent.length
  tail : w.rb.tail = u64 l.tail
  writing : w.rb.inWriteTx = l.writing
  reading : w.rb.inReadTx = l.reading
  producer : w.producer = l.pending.length
  consumer : w.consumer = l.cursor
  pending_nil : l.writing = false → l.pending = []
  cursor_zero : l.reading = false → l.cursor = 0
  data : Holds w.rb.data l.cap l.tail (l.sent ++ l.pending)

/-- The producer's view of a ring buffer that stores the log. -/
def ProducerSees (consumer : ℕ) (v : View) (l : ByteLog) : Prop :=
  Stores ⟨v.rb, v.txSize, consumer⟩ l

/-- The consumer's view of a ring buffer that stores the log. -/
def ConsumerSees (producer : ℕ) (v : View) (l : ByteLog) : Prop :=
  Stores ⟨v.rb, producer, v.txSize⟩ l

/-- The next stop byte is behind the point where the bytes that are not read yet
wrap around. -/
def StopByteWraps (w : World) (b : UInt8) : Prop :=
  let start := u64 (w.consumer + w.rb.tail) &&& w.rb.kDataModMask
  let stop := w.rb.head &&& w.rb.kDataModMask
  u64 (w.rb.tail + w.consumer) ≠ w.rb.head ∧ stop ≤ start ∧
    b ∉ bytesAt w.rb.data start (w.rb.kDataPoolByteSize - start) ∧ b ∈ bytesAt w.rb.data 0 stop

/-- Two replies of the same size, and with the same bytes if `q` holds. -/
def Agrees (q : Prop) (x y : Reply) : Prop := x.size = y.size ∧ (q → x.bytes = y.bytes)

theorem agrees_of_eq {q : Prop} {x y : Reply} (h : x = y) : Agrees q x y := by
  rw [h]
  exact ⟨rfl, fun _ => rfl⟩

theorem Agrees.eq {q : Prop} {x y : Reply} (h : Agrees q x y) (hq : q) : x = y := by
  cases x
  cases y
  exact congrArg₂ Reply.mk h.1 (h.2 hq)

namespace Stores

variable {w : World} {l : ByteLog}

theorem cap_pos (h : Stores w l) : 0 < l.cap := by
  rw [← h.cap]
  exact Nat.two_pow_pos _

theorem dvd (h : Stores w l) : l.cap ∣ 2 ^ 64 := by
  rw [← h.cap]
  exact Nat.pow_dvd_pow 2 (Nat.le_trans w.rb.logSize_le (by omega))

theorem used (h : Stores w l) : sub64 w.rb.head w.rb.tail = l.size := by
  have h₁ := l.reached_le
  have h₂ := l.fits
  have h₃ := l.cap_le
  rw [h.head, h.tail, sub64_u64 (by omega) (by omega)]
  rfl

/-- A position in the array is a position modulo its size. -/
theorem mask (h : Stores w l) (n : ℕ) : u64 n &&& w.rb.kDataModMask = n % l.cap := by
  have hc : w.rb.kDataModMask = 2 ^ w.rb.logSize - 1 := rfl
  have hl : 2 ^ w.rb.logSize = l.cap := h.cap
  rw [hc, Nat.and_two_pow_sub_one_eq_mod, u64, hl]
  exact Nat.mod_mod_of_dvd n h.dvd

end Stores

/-! ## Writing into the array -/

/-- Where the cell `a` of the array gets a byte, and which. -/
theorem memcpy_apply (mem : Memory) (start a : ℕ) (d : List UInt8) :
    memcpy mem start d a = if start ≤ a then (d[a - start]?).getD (mem a) else mem a := rfl

/-- What `copyToRingBuffer` does to a cell of the array, in one piece or in two. -/
theorem copied_apply {mem : Memory} {cap n a : ℕ} {d : List UInt8} (hd : 0 < d.length)
    (hcap : d.length ≤ cap) (ha : a < cap) :
    (if n % cap < (n % cap + d.length) % cap then memcpy mem (n % cap) d
      else memcpy (memcpy mem (n % cap) (d.take (cap - n % cap))) 0
        ((d.drop (cap - n % cap)).take ((n % cap + d.length) % cap))) a
      = (d[offset cap n a]?).getD (mem a) := by
  have hn : n % cap < cap := Nat.mod_lt _ (by omega)
  unfold offset
  generalize n % cap = start at hn ⊢
  by_cases hw : start + d.length < cap
  · rw [Nat.mod_eq_of_lt hw, if_pos (by omega), memcpy_apply]
    split_ifs with h
    · rfl
    · rw [List.getElem?_eq_none (by omega), Option.getD_none]
  · have hstop : (start + d.length) % cap = start + d.length - cap := by
      rw [Nat.mod_eq_sub_mod (by omega), Nat.mod_eq_of_lt (by omega)]
    rw [hstop, if_neg (by omega), memcpy_apply, if_pos (Nat.zero_le a), Nat.sub_zero,
      List.take_of_length_le (by rw [List.length_drop]; omega), List.getElem?_drop, memcpy_apply]
    by_cases h : start ≤ a
    · rw [if_pos h, if_pos h, List.getElem?_eq_none (by omega), Option.getD_none,
        List.getElem?_take_of_lt (by omega)]
    · rw [if_neg h, if_neg h]
      congr 2
      omega

/-! ## Producers -/

section Producer

variable {c : ℕ} {v : View} {l : ByteLog}

theorem producer_startTx (h : ProducerSees c v l) (weak : Bool) :
    Matches (ProducerSees c) Eq (Producer.startTx weak) (ByteLog.Producer.startTx weak) v l := by
  unfold Producer.startTx ByteLog.Producer.startTx
  refine matches_get.mpr (matches_ite (by rw [h.writing]) (fun _ => matches_throw _ h) ?_)
  intro hw
  refine matches_ite Iff.rfl (fun _ => matches_throw _ h) fun _ => ?_
  refine matches_set_bind.mpr (matches_pure ?_ rfl)
  exact { h with
    writing := rfl
    pending_nil := fun h' => by simp at h' }

theorem producer_copyToRingBuffer (h : ProducerSees c v l) (hw : l.writing = true)
    (d : List UInt8) :
    Matches (fun v l => ProducerSees c v l ∧ l.writing = true) Eq
      (Producer.copyToRingBuffer d) (ByteLog.Producer.copyToRingBuffer d) v l := by
  unfold Producer.copyToRingBuffer ByteLog.Producer.copyToRingBuffer
  refine matches_get.mpr (matches_ite Iff.rfl (fun _ => matches_throw _ ⟨h, hw⟩) fun hd => ?_)
  refine matches_ite (by rw [h.cap]) (fun _ => matches_throw _ ⟨h, hw⟩) fun hcap => ?_
  have hu : sub64 v.rb.head v.rb.tail = l.size := h.used
  have hc : v.rb.kDataPoolByteSize = l.cap := h.cap
  have htx : v.txSize = l.pending.length := h.producer
  have hsz := l.size_le
  have hcl := l.cap_le
  have hfits := l.fits
  have hlen : (l.pending ++ d).length = l.pending.length + d.length := List.length_append
  have hle : l.tail + l.size = l.sent.length := by
    have := l.reached_le
    unfold ByteLog.size
    omega
  have hadd : u64 (v.txSize + d.length) = (l.pending ++ d).length := by
    rw [htx, hlen]
    exact u64_of_lt (by omega)
  dsimp only
  rw [hu, hc, hadd, if_neg (by omega)]
  by_cases hf : l.sent.length + (l.pending ++ d).length ≤ l.tail + l.cap
  · rw [dif_pos hf, if_neg (by omega)]
    refine matches_set_bind.mpr (matches_pure ⟨?_, hw⟩ rfl)
    have hstart : u64 (v.txSize + v.rb.head) &&& v.rb.kDataModMask
        = (l.sent ++ l.pending).length % l.cap := by
      rw [htx, h.head, u64_add_u64, h.mask, List.length_append, Nat.add_comm]
    rw [hstart, h.mask]
    exact { h with
      producer := rfl
      pending_nil := fun h' => absurd (hw.symm.trans h') (by decide)
      data := by
        rw [← List.append_assoc]
        refine h.data.append ?_ ?_ fun a ha => ?_
        · rw [List.length_append]
          omega
        · rw [List.append_assoc, List.length_append]
          exact hf
        · exact copied_apply (by omega) (by omega) ha }
  · rw [dif_neg hf, if_pos (by omega)]
    exact matches_throw _ ⟨h, hw⟩

theorem producer_writeInTx (h : ProducerSees c v l) (d : List UInt8) :
    Matches (ProducerSees c) Eq (Producer.writeInTx d) (ByteLog.Producer.writeInTx d) v l := by
  unfold Producer.writeInTx ByteLog.Producer.writeInTx
  refine matches_get.mpr (matches_ite (by rw [h.writing]) (fun _ => matches_throw _ h) ?_)
  intro hw
  exact (producer_copyToRingBuffer h (by simpa using hw) d).mono (fun _ _ h => h.1) fun _ _ h => h

theorem producer_writeInTxWithSize (h : ProducerSees c v l) (T : SizeType) (d : List UInt8) :
    Matches (ProducerSees c) Eq (Producer.writeInTxWithSize T d)
      (ByteLog.Producer.writeInTxWithSize T d) v l := by
  unfold Producer.writeInTxWithSize ByteLog.Producer.writeInTxWithSize
  refine matches_get.mpr (matches_ite (by rw [h.writing]) (fun _ => matches_throw _ h) ?_)
  intro hw
  refine Matches.mono (R := fun v l => ProducerSees c v l ∧ l.writing = true) ?_
    (fun _ _ h => h.1) fun _ _ h => h
  refine matches_bind (producer_copyToRingBuffer h (by simpa using hw) _) ?_
  rintro s _ v' l' rfl ⟨h', hw'⟩
  refine matches_bind (producer_copyToRingBuffer h' hw' d) ?_
  rintro sdata _ v'' l'' rfl h''
  exact matches_pure h'' rfl

theorem producer_writeInTxSizedChunk (h : ProducerSees c v l) (T : SizeType) (str : List UInt8) :
    Matches (ProducerSees c) Eq (Producer.writeInTxSizedChunk T str)
      (ByteLog.Producer.writeInTxSizedChunk T str) v l := by
  unfold Producer.writeInTxSizedChunk ByteLog.Producer.writeInTxSizedChunk
  refine matches_get.mpr (matches_ite (by rw [h.writing]) (fun _ => matches_throw _ h) fun _ => ?_)
  exact matches_ite Iff.rfl (fun _ => matches_throw _ h) fun _ => producer_writeInTxWithSize h T str

theorem producer_commitTx (h : ProducerSees c v l) :
    Matches (ProducerSees c) Eq Producer.commitTx ByteLog.Producer.commitTx v l := by
  unfold Producer.commitTx ByteLog.Producer.commitTx
  refine matches_get.mpr (matches_ite (by rw [h.writing]) (fun _ => matches_throw _ h) fun _ => ?_)
  refine matches_set_bind.mpr (matches_pure ?_ rfl)
  have htx : v.txSize = l.pending.length := h.producer
  exact { h with
    head := by
      show u64 (v.rb.head + v.txSize) = u64 (l.sent ++ l.pending).length
      rw [h.head, htx, u64_u64_add, List.length_append]
    writing := rfl
    producer := rfl
    pending_nil := fun _ => rfl
    data := by
      show Holds v.rb.data l.cap l.tail ((l.sent ++ l.pending) ++ [])
      rw [List.append_nil]
      exact h.data }

theorem producer_cancelTx (h : ProducerSees c v l) :
    Matches (ProducerSees c) Eq Producer.cancelTx ByteLog.Producer.cancelTx v l := by
  unfold Producer.cancelTx ByteLog.Producer.cancelTx
  refine matches_get.mpr (matches_ite (by rw [h.writing]) (fun _ => matches_throw _ h) fun _ => ?_)
  have htx : v.txSize = l.pending.length := h.producer
  refine matches_set_bind.mpr (matches_pure ?_ (by rw [htx]))
  exact { h with
    writing := rfl
    producer := rfl
    pending_nil := fun _ => rfl
    data := by
      show Holds v.rb.data l.cap l.tail (l.sent ++ [])
      rw [List.append_nil]
      exact h.data.of_append }

theorem producer_cancelWith (h : ProducerSees c v l) (e : Errno) :
    Matches (ProducerSees c) Eq (Producer.cancelWith e) (ByteLog.Producer.cancelWith e) v l :=
  matches_bind (producer_cancelTx h) fun _ _ _ _ _ h' => matches_throw e h'

theorem producer_write (h : ProducerSees c v l) (weak : Bool) (d : List UInt8) :
    Matches (ProducerSees c) Eq (Producer.write weak d) (ByteLog.Producer.write weak d) v l := by
  refine matches_bind (producer_startTx h weak) fun _ _ v₁ l₁ _ h₁ => ?_
  refine matches_bind (matches_tryCatch (producer_writeInTx h₁ d)
    fun e _ _ h' => producer_cancelWith h' e) fun _ _ v₂ l₂ _ h₂ => ?_
  exact matches_bind (producer_commitTx h₂) fun _ _ _ _ _ h₃ => matches_pure h₃ rfl

theorem producer_writeSizedChunk (h : ProducerSees c v l) (weak : Bool) (T : SizeType)
    (str : List UInt8) :
    Matches (ProducerSees c) Eq (Producer.writeSizedChunk weak T str)
      (ByteLog.Producer.writeSizedChunk weak T str) v l := by
  refine matches_bind (producer_startTx h weak) fun _ _ v₁ l₁ _ h₁ => ?_
  refine matches_bind (matches_tryCatch (producer_writeInTxSizedChunk h₁ T str)
    fun e _ _ h' => producer_cancelWith h' e) fun _ _ v₂ l₂ hs h₂ => ?_
  exact matches_bind (producer_commitTx h₂) fun _ _ _ _ _ h₃ => matches_pure h₃ hs

/-- Dropping no more than there is. -/
theorem producer_dropN (h : ProducerSees c v l) (weak : Bool) {n : ℕ}
    (hn : n ≤ l.cap → l.reading = false → weak = false → n ≤ l.size) :
    Matches (ProducerSees c) Eq (Producer.dropN weak n) (ByteLog.Producer.dropN weak n) v l := by
  unfold Producer.dropN ByteLog.Producer.dropN
  refine matches_get.mpr (matches_ite (by rw [h.cap]) (fun _ => matches_throw _ h) fun hcap => ?_)
  refine matches_ite (by rw [h.reading]) (fun _ => matches_throw _ h) fun hr => ?_
  obtain ⟨hreading, hw⟩ : l.reading = false ∧ weak = false := by simpa using hr
  refine matches_set_bind.mpr (matches_pure ?_ rfl)
  have hmin : min l.size n = n := Nat.min_eq_right (hn (by omega) hreading hw)
  have hc : c = l.cursor := h.consumer
  exact { h with
    tail := by
      show u64 (v.rb.tail + n) = u64 (l.tail + min l.size n)
      rw [h.tail, u64_u64_add, hmin]
    reading := by
      show v.rb.inReadTx = false
      rw [h.reading, hreading]
    consumer := hc.trans (h.cursor_zero hreading)
    cursor_zero := fun _ => rfl
    data := h.data.mono (Nat.le_add_right _ _) }

end Producer

/-! ## Consumers -/

section Consumer

variable {p : ℕ} {v : View} {l : ByteLog}

/-- Starting a transaction changes nothing but the flag. -/
theorem consumer_startTx_flag (h : ConsumerSees p v l) (weak : Bool) :
    Matches (fun v' l' => ConsumerSees p v' l' ∧
        ∃ f, v' = { v with rb := { v.rb with inReadTx := f } })
      (fun x y => x = y ∧ v.rb.inReadTx = false ∧ weak = false)
      (Consumer.startTx weak) (ByteLog.Consumer.startTx weak) v l := by
  have hself : ∃ f, v = { v with rb := { v.rb with inReadTx := f } } := ⟨v.rb.inReadTx, rfl⟩
  unfold Consumer.startTx ByteLog.Consumer.startTx
  refine matches_get.mpr (matches_ite (by rw [h.reading]) (fun _ => matches_throw _ ⟨h, hself⟩) ?_)
  intro hr
  refine matches_ite Iff.rfl (fun _ => matches_throw _ ⟨h, hself⟩) fun hw => ?_
  refine matches_set_bind.mpr (matches_pure ⟨?_, true, rfl⟩ ⟨rfl, ?_, by simpa using hw⟩)
  · exact { h with
      reading := rfl
      cursor_zero := fun h' => by simp at h' }
  · rw [h.reading]
    simpa using hr

theorem consumer_startTx (h : ConsumerSees p v l) (weak : Bool) :
    Matches (ConsumerSees p) Eq (Consumer.startTx weak) (ByteLog.Consumer.startTx weak) v l :=
  (consumer_startTx_flag h weak).mono (fun _ _ h => h.1) fun _ _ h => h.1

/-! ### Reading -/

/-- What `readFromRingBuffer` reads, in one piece or in two. -/
theorem read_eq_window {mem : Memory} {cap n size : ℕ} (hs : 0 < size) (hcap : size ≤ cap) :
    (if n % cap < (n % cap + size) % cap then bytesAt mem (n % cap) size
      else bytesAt mem (n % cap) (cap - n % cap) ++ bytesAt mem 0 ((n % cap + size) % cap))
      = window mem cap n size := by
  have hn : n % cap < cap := Nat.mod_lt _ (by omega)
  by_cases hw : n % cap + size < cap
  · rw [Nat.mod_eq_of_lt hw, if_pos (by omega), window_eq_map (by omega)]
    rfl
  · have hstop : (n % cap + size) % cap = n % cap + size - cap := by
      rw [Nat.mod_eq_sub_mod (by omega), Nat.mod_eq_of_lt (by omega)]
    rw [hstop, if_neg (by omega), window_eq_append (by omega) (by omega) hcap]
    simp only [bytesAt, Nat.zero_add]

theorem Stores.unread_take {w : World} (h : Stores w l) {size : ℕ}
    (hs : l.cursor + size ≤ l.size) :
    window w.rb.data l.cap (l.tail + l.cursor) size = l.unread.take size := by
  unfold ByteLog.size at hs
  have hr := l.reached_le
  exact h.data.of_append.window_eq (by omega) (by omega)

/-- The transaction moves to a position in the queue. -/
theorem Stores.moveTo (h : ConsumerSees p v l) {cursor : ℕ} (hc : cursor ≤ l.size)
    (hr : l.reading = true) (taken : List UInt8) :
    ConsumerSees p { v with txSize := cursor } (l.moveTo cursor hc taken) :=
  { h with
    consumer := rfl
    cursor_zero := fun h' => absurd (hr.symm.trans h') (by decide) }

theorem consumer_readFromRingBuffer (h : ConsumerSees p v l) (hr : l.reading = true) (size : ℕ) :
    Matches (ConsumerSees p) Eq (Consumer.readFromRingBuffer size)
      (ByteLog.Consumer.readFromRingBuffer size) v l := by
  unfold Consumer.readFromRingBuffer ByteLog.Consumer.readFromRingBuffer
  refine matches_get.mpr (matches_ite Iff.rfl (fun _ => matches_throw _ h) fun hs => ?_)
  refine matches_ite (by rw [h.cap]) (fun _ => matches_throw _ h) fun hcap => ?_
  have hu : sub64 v.rb.head v.rb.tail = l.size := h.used
  have hc : v.rb.kDataPoolByteSize = l.cap := h.cap
  have htx : v.txSize = l.cursor := h.consumer
  have hsz := l.size_le
  have hcl := l.cap_le
  have hcur := l.cursor_le
  have hadd : u64 (v.txSize + size) = l.cursor + size := by
    rw [htx]
    exact u64_of_lt (by omega)
  have hstart : u64 (v.txSize + v.rb.tail) &&& v.rb.kDataModMask = (l.tail + l.cursor) % l.cap := by
    rw [htx, h.tail, u64_add_u64, h.mask, Nat.add_comm]
  dsimp only
  rw [hu, hc, hadd, hstart, h.mask, read_eq_window (by omega) (by omega)]
  by_cases hf : l.cursor + size ≤ l.size
  · rw [dif_pos hf, if_neg (by omega), h.unread_take hf]
    exact matches_set_bind.mpr (matches_pure (Stores.moveTo h hf hr _) rfl)
  · rw [dif_neg hf, if_pos (by omega)]
    exact matches_throw _ h

theorem consumer_readInTx (h : ConsumerSees p v l) (size : ℕ) :
    Matches (ConsumerSees p) Eq (Consumer.readInTx size) (ByteLog.Consumer.readInTx size) v l := by
  unfold Consumer.readInTx ByteLog.Consumer.readInTx
  refine matches_get.mpr (matches_ite (by rw [h.reading]) (fun _ => matches_throw _ h) fun hr => ?_)
  refine matches_ite (by rw [h.cap]) (fun _ => matches_throw _ h) fun _ => ?_
  exact consumer_readFromRingBuffer h (by simpa using hr) size

theorem consumer_readInTxWithSize (h : ConsumerSees p v l) (T : SizeType) :
    Matches (ConsumerSees p) Eq (Consumer.readInTxWithSize T)
      (ByteLog.Consumer.readInTxWithSize T) v l := by
  unfold Consumer.readInTxWithSize ByteLog.Consumer.readInTxWithSize
  refine matches_get.mpr (matches_ite (by rw [h.reading]) (fun _ => matches_throw _ h) fun _ => ?_)
  refine matches_bind (consumer_readInTx h T.bytes) ?_
  rintro length _ v' l' rfl h'
  exact consumer_readInTx h' _

theorem consumer_copyInTx (h : ConsumerSees p v l) (size : ℕ) :
    Matches (ConsumerSees p) Eq (Consumer.copyInTx size) (ByteLog.Consumer.copyInTx size) v l := by
  unfold Consumer.copyInTx ByteLog.Consumer.copyInTx
  refine matches_get.mpr (matches_ite (by rw [h.reading]) (fun _ => matches_throw _ h) fun hr => ?_)
  refine matches_ite Iff.rfl (fun _ => matches_pure h rfl) fun _ => ?_
  refine matches_ite (by rw [h.cap]) (fun _ => matches_throw _ h) fun _ => ?_
  exact consumer_readFromRingBuffer h (by simpa using hr) size

/-! ### Chunks -/

/-- The position behind the last of the items, which are at least one and at most
as many as there are cells. -/
theorem stop_eq {cap n u : ℕ} (hu : 0 < u) (hcap : u ≤ cap) :
    (n + u) % cap = if n % cap + u < cap then n % cap + u else n % cap + u - cap := by
  have hn : n % cap < cap := Nat.mod_lt _ (by omega)
  rcases Nat.lt_or_eq_of_le hcap with hlt | rfl
  · exact add_mod_eq hlt
  · rw [Nat.add_mod_right, if_neg (by omega)]
    omega

/-- The bytes that are not read yet, in the array. -/
theorem Stores.unread_eq {w : World} (h : Stores w l) :
    l.unread = window w.rb.data l.cap (l.tail + l.cursor) l.unread.length := by
  have hu := l.length_unread
  have hc := l.cursor_le
  rw [h.unread_take (by omega), List.take_length]

/-- The bytes that are not read yet, before the end of the array and from its
beginning on. -/
theorem Stores.unread_split {w : World} (h : Stores w l)
    (hw : l.cap ≤ (l.tail + l.cursor) % l.cap + l.unread.length) :
    l.unread = bytesAt w.rb.data ((l.tail + l.cursor) % l.cap)
          (l.cap - (l.tail + l.cursor) % l.cap)
        ++ bytesAt w.rb.data 0 ((l.tail + l.cursor) % l.cap + l.unread.length - l.cap) := by
  have hu := l.length_unread
  have hs := l.size_le
  conv_lhs => rw [h.unread_eq, window_eq_append h.cap_pos hw (by omega)]
  simp only [bytesAt, Nat.zero_add]

/-- What `findInBufferInTx` finds in the bytes before the end of the array, and
else in those from its beginning on. -/
theorem findIdx?_bytesAt_append (xs ys : List UInt8) (q : UInt8 → Bool) :
    ((xs ++ ys).findIdx? q).map (· + 1)
      = match xs.findIdx? q with
        | some i => some (i + 1)
        | none => (ys.findIdx? q).map fun i => xs.length + i + 1 := by
  rw [List.findIdx?_append]
  cases xs.findIdx? q with
  | some i => rfl
  | none =>
    rw [Option.none_or, Option.map_map]
    congr 1
    funext i
    show i + xs.length + 1 = xs.length + i + 1
    omega

theorem length_bytesAt (mem : Memory) (start size : ℕ) : (bytesAt mem start size).length = size := by
  rw [bytesAt, List.length_map, List.length_range]

/-- What `findInBufferInTx` does in a transaction. -/
theorem findInBufferInTx_run (h : ConsumerSees p v l) (hr : l.reading = true)
    (target : Consumer.Target) :
    Consumer.findInBufferInTx target v
      = if l.unread = [] then .error .nodata v
        else match ByteLog.Consumer.chunkSize l target with
          | some n => .ok ⟨n, []⟩ v
          | none => .error .nodata v := by
  have hc : v.rb.kDataPoolByteSize = l.cap := h.cap
  have htx : v.txSize = l.cursor := h.consumer
  have hpos : 0 < l.cap := Stores.cap_pos h
  have hsz := l.size_le
  have hcl := l.cap_le
  have hul := l.length_unread
  have hrl := l.reached_le
  have hcur := l.cursor_le
  have hstart : u64 (v.txSize + v.rb.tail) &&& v.rb.kDataModMask = (l.tail + l.cursor) % l.cap := by
    rw [htx, h.tail, u64_add_u64, h.mask, Nat.add_comm]
  have hstop : v.rb.head &&& v.rb.kDataModMask = l.sent.length % l.cap := by
    rw [h.head, h.mask]
  have hsent : l.sent.length = l.tail + l.cursor + l.unread.length := by
    rw [ByteLog.size] at hul hsz
    omega
  have hend : u64 (v.rb.tail + v.txSize) = v.rb.head ↔ l.unread = [] := by
    rw [h.tail, h.head, htx, u64_u64_add, ← List.length_eq_zero_iff]
    unfold u64
    omega
  have hreading : (!v.rb.inReadTx) = false := by rw [h.reading, hr]; rfl
  unfold Consumer.findInBufferInTx
  rw [run_get]
  simp only [hreading, hc, hstart, hstop, Bool.false_eq_true, if_false]
  by_cases hu : l.unread = []
  · rw [if_pos (hend.mpr hu), if_pos hu]
    rfl
  rw [if_neg (fun h' => hu (hend.mp h')), if_neg hu]
  have hupos : 0 < l.unread.length := List.length_pos_iff.mpr hu
  have hmod : (l.tail + l.cursor) % l.cap < l.cap := Nat.mod_lt _ hpos
  rw [hsent, stop_eq hupos (by omega)]
  by_cases hw : (l.tail + l.cursor) % l.cap + l.unread.length < l.cap
  · rw [if_pos hw, decide_eq_false (by omega)]
    simp only [Bool.false_eq_true, if_false]
    cases target with
    | contiguous =>
      have hn : ByteLog.Consumer.chunkSize l .contiguous = some l.unread.length :=
        congrArg some (Nat.min_eq_left (by omega))
      rw [hn, Nat.add_sub_cancel_left]
      rfl
    | stopByte b =>
      have hfind : Consumer.findByte v.rb.data b ((l.tail + l.cursor) % l.cap)
          ((l.tail + l.cursor) % l.cap + l.unread.length) = l.unread.findIdx? (· = b) := by
        rw [Consumer.findByte, Nat.add_sub_cancel_left]
        conv_rhs => rw [h.unread_eq, window_eq_map (by omega)]
        rfl
      simp only [hfind, ByteLog.Consumer.chunkSize]
      cases l.unread.findIdx? (· = b) <;> rfl
  · rw [if_neg hw, decide_eq_true (by omega)]
    simp only [if_true]
    cases target with
    | contiguous =>
      have hn : ByteLog.Consumer.chunkSize l .contiguous
          = some (l.cap - (l.tail + l.cursor) % l.cap) :=
        congrArg some (Nat.min_eq_right (by omega))
      rw [hn]
      rfl
    | stopByte b =>
      have hsize : ByteLog.Consumer.chunkSize l (.stopByte b) = _ :=
        congrArg (fun xs : List UInt8 => (xs.findIdx? (· = b)).map (· + 1))
          (h.unread_split (by omega))
      rw [hsize, findIdx?_bytesAt_append, length_bytesAt]
      simp only [Consumer.findByte, Nat.sub_zero]
      cases (bytesAt v.rb.data ((l.tail + l.cursor) % l.cap)
        (l.cap - (l.tail + l.cursor) % l.cap)).findIdx? (· = b) with
      | some i => rfl
      | none =>
        cases (bytesAt v.rb.data 0
          ((l.tail + l.cursor) % l.cap + l.unread.length - l.cap)).findIdx? (· = b) <;> rfl

theorem consumer_findInBufferInTx (h : ConsumerSees p v l) (target : Consumer.Target) :
    Matches (ConsumerSees p) Eq (Consumer.findInBufferInTx target)
      (ByteLog.Consumer.findInBufferInTx target) v l := by
  cases hr : l.reading with
  | false =>
    unfold Consumer.findInBufferInTx ByteLog.Consumer.findInBufferInTx
    refine matches_get.mpr (matches_ite (by rw [h.reading]) (fun _ => matches_throw _ h) ?_)
    intro hr'
    exact absurd (by rw [hr]; rfl) hr'
  | true =>
    have hrun := findInBufferInTx_run h hr target
    have hlog : ByteLog.Consumer.findInBufferInTx target l
        = if l.unread = [] then .error .nodata l
          else match ByteLog.Consumer.chunkSize l target with
            | some n => .ok ⟨n, []⟩ l
            | none => .error .nodata l := by
      unfold ByteLog.Consumer.findInBufferInTx
      rw [run_get]
      simp only [hr, Bool.not_true, Bool.false_eq_true, if_false]
      split_ifs with hu
      · rfl
      · cases ByteLog.Consumer.chunkSize l target <;> rfl
    unfold Matches
    rw [hrun, hlog]
    split_ifs with hu
    · exact ⟨rfl, h⟩
    · cases ByteLog.Consumer.chunkSize l target with
      | some n => exact ⟨rfl, h⟩
      | none => exact ⟨rfl, h⟩

/-- A chunk ends before the end of the array, unless its stop byte is behind it. -/
theorem Stores.chunk_within {w : World} (h : Stores w l) (hu : l.unread ≠ [])
    {target : Consumer.Target} {n : ℕ} (hn : ByteLog.Consumer.chunkSize l target = some n)
    (ht : ∀ b, target = .stopByte b → ¬ StopByteWraps w b) :
    (l.tail + l.cursor) % l.cap + n ≤ l.cap := by
  have hcap := h.cap_pos
  have hmod : (l.tail + l.cursor) % l.cap < l.cap := Nat.mod_lt _ hcap
  have hle := ByteLog.Consumer.chunkSize_le hn
  have hul := l.length_unread
  cases target with
  | contiguous =>
    have hmin : min l.unread.length (l.cap - (l.tail + l.cursor) % l.cap) = n := Option.some.inj hn
    omega
  | stopByte b =>
    by_contra hover
    refine ht b rfl ?_
    have hsz := l.size_le
    have hcl := l.cap_le
    have hrl := l.reached_le
    have hsent : l.sent.length = l.tail + l.cursor + l.unread.length := by
      rw [ByteLog.size] at hul hsz
      omega
    have hupos : 0 < l.unread.length := List.length_pos_iff.mpr hu
    have hw : l.cap ≤ (l.tail + l.cursor) % l.cap + l.unread.length := by omega
    have hstart : u64 (w.consumer + w.rb.tail) &&& w.rb.kDataModMask
        = (l.tail + l.cursor) % l.cap := by
      rw [h.consumer, h.tail, u64_add_u64, h.mask, Nat.add_comm]
    have hstop : w.rb.head &&& w.rb.kDataModMask
        = (l.tail + l.cursor) % l.cap + l.unread.length - l.cap := by
      rw [h.head, h.mask, hsent, stop_eq hupos (by omega), if_neg (by omega)]
    -- the stop byte is not found before the end of the array, and so behind it
    have hsize : _ = some n :=
      (congrArg (fun xs : List UInt8 => (xs.findIdx? (· = b)).map (· + 1))
        (h.unread_split hw)).symm.trans hn
    rw [findIdx?_bytesAt_append, length_bytesAt] at hsize
    unfold StopByteWraps
    dsimp only
    rw [hstart, hstop, h.cap, h.tail, h.head, h.consumer, u64_u64_add]
    refine ⟨?_, by omega, ?_⟩
    · rw [hsent]
      unfold u64
      omega
    · cases hf : (bytesAt w.rb.data ((l.tail + l.cursor) % l.cap)
          (l.cap - (l.tail + l.cursor) % l.cap)).findIdx? (· = b) with
      | some i =>
        rw [hf] at hsize
        have hi : i + 1 = n := Option.some.inj hsize
        have hlt := (List.findIdx?_eq_some_iff_getElem.mp hf).1
        rw [length_bytesAt] at hlt
        omega
      | none =>
        rw [hf] at hsize
        obtain ⟨i, hi, -⟩ := Option.map_eq_some_iff.mp hsize
        obtain ⟨hlt, heq, -⟩ := List.findIdx?_eq_some_iff_getElem.mp hi
        constructor
        · intro hmem
          simpa using List.findIdx?_eq_none_iff.mp hf b hmem
        · rw [← of_decide_eq_true heq]
          exact List.getElem_mem _

theorem consumer_readInTxChunk (h : ConsumerSees p v l) (target : Consumer.Target) :
    Matches (ConsumerSees p)
      (Agrees (∀ b, target = .stopByte b → ¬ StopByteWraps ⟨v.rb, p, v.txSize⟩ b))
      (Consumer.readInTxChunk target) (ByteLog.Consumer.readInTxChunk target) v l := by
  unfold Consumer.readInTxChunk ByteLog.Consumer.readInTxChunk
  refine matches_get.mpr (matches_ite (by rw [h.reading]) (fun _ => matches_throw _ h) fun hr => ?_)
  have hreading : l.reading = true := by simpa using hr
  have hrun := findInBufferInTx_run h hreading target
  by_cases hu : l.unread = []
  · rw [if_pos hu] at hrun
    rw [if_pos hu]
    exact matches_of_run_error hrun h
  rw [if_neg hu] at hrun
  rw [if_neg hu]
  split
  · next n hn =>
    rw [hn] at hrun
    refine matches_of_run hrun ?_
    have hle := ByteLog.Consumer.chunkSize_le hn
    have hsz := l.size_le
    have hcl := l.cap_le
    have htx : v.txSize = l.cursor := h.consumer
    have hadd : u64 (v.txSize + n) = l.cursor + n := by
      rw [htx]
      exact u64_of_lt (by omega)
    have hstart : u64 (v.txSize + v.rb.tail) &&& v.rb.kDataModMask
        = (l.tail + l.cursor) % l.cap := by
      rw [htx, h.tail, u64_add_u64, h.mask, Nat.add_comm]
    dsimp only
    rw [hadd, hstart]
    refine matches_set_bind.mpr (matches_pure (Stores.moveTo h hle hreading _) ⟨rfl, fun hq => ?_⟩)
    have hin := Stores.chunk_within h hu hn hq
    show bytesAt v.rb.data ((l.tail + l.cursor) % l.cap) n = l.unread.take n
    rw [← h.unread_take hle, window_eq_map hin]
    rfl
  · next hn =>
    rw [hn] at hrun
    exact matches_of_run_error hrun h

/-! ### The end of a transaction -/

/-- Bytes leave the queue, and the transaction ends. -/
theorem Stores.remove (h : ConsumerSees p v l) {n : ℕ} (hn : n ≤ l.size) (received : List UInt8) :
    ConsumerSees p ⟨{ v.rb with tail := u64 (l.tail + n), inReadTx := false }, 0⟩
      (l.remove n hn received) :=
  { h with
    tail := rfl
    reading := rfl
    consumer := rfl
    cursor_zero := fun _ => rfl
    data := h.data.mono (Nat.le_add_right _ _) }

theorem consumer_commitTx (h : ConsumerSees p v l) :
    Matches (ConsumerSees p) Eq Consumer.commitTx ByteLog.Consumer.commitTx v l := by
  unfold Consumer.commitTx ByteLog.Consumer.commitTx
  refine matches_get.mpr (matches_ite (by rw [h.reading]) (fun _ => matches_throw _ h) fun _ => ?_)
  have htx : v.txSize = l.cursor := h.consumer
  have htail : u64 (v.rb.tail + v.txSize) = u64 (l.tail + l.cursor) := by
    rw [h.tail, htx, u64_u64_add]
  unfold RingBuffer.incTail
  rw [htail]
  exact matches_set_bind.mpr (matches_pure (Stores.remove h _ _) rfl)

theorem consumer_cancelTx (h : ConsumerSees p v l) :
    Matches (ConsumerSees p) Eq Consumer.cancelTx ByteLog.Consumer.cancelTx v l := by
  unfold Consumer.cancelTx ByteLog.Consumer.cancelTx
  refine matches_get.mpr (matches_ite (by rw [h.reading]) (fun _ => matches_throw _ h) fun _ => ?_)
  have htx : v.txSize = l.cursor := h.consumer
  refine matches_set_bind.mpr (matches_pure ?_ (by rw [htx]))
  have hr := Stores.remove h (Nat.zero_le l.size) l.received
  exact { hr with tail := h.tail }

theorem consumer_dropInTx (h : ConsumerSees p v l) :
    Matches (ConsumerSees p) Eq Consumer.dropInTx ByteLog.Consumer.dropInTx v l := by
  unfold Consumer.dropInTx ByteLog.Consumer.dropInTx
  refine matches_get.mpr (matches_ite (by rw [h.reading]) (fun _ => matches_throw _ h) fun _ => ?_)
  have htx : v.txSize = l.cursor := h.consumer
  have htail : v.rb.head = u64 (l.tail + l.size) := by
    have hr := l.reached_le
    rw [h.head, ByteLog.size]
    congr 1
    omega
  refine matches_set_bind.mpr (matches_pure ?_ (by rw [htx]))
  have hr := Stores.remove h (Nat.le_refl _) l.received
  exact { hr with tail := htail }

theorem consumer_cancelWith (h : ConsumerSees p v l) (e : Errno) :
    Matches (ConsumerSees p) Eq (Consumer.cancelWith e) (ByteLog.Consumer.cancelWith e) v l :=
  matches_bind (consumer_cancelTx h) fun _ _ _ _ _ h' => matches_throw e h'

theorem consumer_seekInTx (h : ConsumerSees p v l) (pos : ℕ) :
    Matches (ConsumerSees p) Eq (Consumer.seekInTx pos) (ByteLog.Consumer.seekInTx pos) v l := by
  unfold Consumer.seekInTx ByteLog.Consumer.seekInTx
  refine matches_get.mpr (matches_ite (by rw [h.reading]) (fun _ => matches_throw _ h) fun hr => ?_)
  dsimp only
  rw [h.tail, h.head]
  exact matches_set_bind.mpr (matches_pure (Stores.moveTo h _ (by simpa using hr) _) rfl)

/-- The signed difference of two counters is the number of bytes between them. -/
theorem s64_sub {m n : ℕ} (h : n ≤ m) (hb : m < n + 2 ^ 63) :
    s64 (s64 (u64 m) - s64 (u64 n)) = (m : ℤ) - n := by
  unfold s64 u64
  omega

theorem consumer_relSeekInTx (h : ConsumerSees p v l) (delta : ℤ) :
    Matches (ConsumerSees p) Eq (Consumer.relSeekInTx delta)
      (ByteLog.Consumer.relSeekInTx delta) v l := by
  unfold Consumer.relSeekInTx ByteLog.Consumer.relSeekInTx
  refine matches_get.mpr (matches_ite (by rw [h.reading]) (fun _ => matches_throw _ h) fun hr => ?_)
  have hrl := l.reached_le
  have hfits := l.fits
  have hcl := l.cap_le
  have htx : v.txSize = l.cursor := h.consumer
  have hsize : s64 (s64 v.rb.head - s64 v.rb.tail) = (l.size : ℤ) := by
    rw [h.head, h.tail, s64_sub (by omega) (by omega), ByteLog.size]
    omega
  dsimp only
  rw [hsize, htx]
  exact matches_set_bind.mpr (matches_pure (Stores.moveTo h _ (by simpa using hr) _) rfl)

/-! ### Operations that are a transaction of their own -/

theorem consumer_drop (h : ConsumerSees p v l) (weak : Bool) :
    Matches (ConsumerSees p) Eq (Consumer.drop weak) (ByteLog.Consumer.drop weak) v l :=
  matches_bind (consumer_startTx h weak) fun _ _ _ _ _ h' => consumer_dropInTx h'

theorem consumer_dropN (h : ConsumerSees p v l) (weak : Bool) (n : ℕ) :
    Matches (ConsumerSees p) Eq (Consumer.dropN weak n) (ByteLog.Consumer.dropN weak n) v l := by
  refine matches_bind_of (consumer_startTx_flag h weak) (fun _ _ h => h.1) ?_
  rintro _ _ v' l' ⟨-, hr, -⟩ ⟨h', f, hv'⟩
  refine matches_get.mpr (matches_set_bind.mpr (matches_pure ?_ rfl))
  have htx : v'.txSize = 0 := by
    rw [hv']
    exact h.consumer.trans (h.cursor_zero (h.reading.symm.trans hr))
  have hrem := Stores.remove h' (Nat.min_le_left l'.size n) l'.received
  exact { hrem with
    tail := by
      show u64 (v'.rb.tail + min (sub64 v'.rb.head v'.rb.tail) n) = u64 (l'.tail + min l'.size n)
      rw [h'.used, h'.tail, u64_u64_add]
    consumer := htx }

/-- An operation in a transaction of its own. -/
theorem consumer_transaction {m : Op Reply} {n : ByteLog.Op Reply} {q : Prop}
    (h : ConsumerSees p v l) (weak : Bool) (f : Reply → Reply)
    (hf : ∀ x y, Agrees q x y → Agrees q (f x) (f y))
    (hm : ∀ v' l', ConsumerSees p v' l' → v.rb.inReadTx = false → weak = false →
      (∃ f, v' = { v with rb := { v.rb with inReadTx := f } }) →
      Matches (ConsumerSees p) (Agrees q) m n v' l') :
    Matches (ConsumerSees p) (Agrees q)
      (do
        let _ ← Consumer.startTx weak
        let ret ← tryCatch m Consumer.cancelWith
        let _ ← Consumer.commitTx
        return f ret)
      (do
        let _ ← ByteLog.Consumer.startTx weak
        let ret ← tryCatch n ByteLog.Consumer.cancelWith
        let _ ← ByteLog.Consumer.commitTx
        return f ret) v l := by
  refine matches_bind_of (consumer_startTx_flag h weak) (fun _ _ h => h.1) ?_
  rintro _ _ v₁ l₁ ⟨-, hr, hw⟩ ⟨h₁, hv₁⟩
  refine matches_bind (matches_tryCatch (hm v₁ l₁ h₁ hr hw hv₁) fun e _ _ h' =>
    (consumer_cancelWith h' e).mono (fun _ _ h => h) fun _ _ => agrees_of_eq) ?_
  intro x y v₂ l₂ hxy h₂
  exact matches_bind (consumer_commitTx h₂) fun _ _ _ _ _ h₃ => matches_pure h₃ (hf x y hxy)

theorem consumer_startReadTx (h : ConsumerSees p v l) (weak : Bool) (size : ℕ) :
    Matches (ConsumerSees p) Eq (Consumer.startReadTx weak size)
      (ByteLog.Consumer.startReadTx weak size) v l := by
  unfold Consumer.startReadTx ByteLog.Consumer.startReadTx
  refine matches_get.mpr (matches_ite (by rw [h.cap]) (fun _ => matches_throw _ h) fun _ => ?_)
  refine matches_bind (consumer_startTx h weak) fun _ _ _ _ _ h' => ?_
  exact matches_tryCatch (consumer_readInTx h' size) fun e _ _ h'' => consumer_cancelWith h'' e

theorem consumer_read (h : ConsumerSees p v l) (weak : Bool) (size : ℕ) :
    Matches (ConsumerSees p) Eq (Consumer.read weak size)
      (ByteLog.Consumer.read weak size) v l := by
  refine matches_bind (consumer_startReadTx h weak size) fun _ _ _ _ hxy h' => ?_
  exact matches_bind (consumer_commitTx h') fun _ _ _ _ _ h'' => matches_pure h'' hxy

theorem consumer_destroy (h : ConsumerSees p v l) :
    Matches (ConsumerSees p) Eq Consumer.destroy ByteLog.Consumer.destroy v l := by
  unfold Consumer.destroy ByteLog.Consumer.destroy
  refine matches_get.mpr (matches_ite (by rw [h.reading]) (fun _ => consumer_cancelTx h) fun _ => ?_)
  exact matches_pure h rfl

end Consumer

/-! ## Calls -/

inductive Call where
  | producer (c : Producer.Call)
  | consumer (c : Consumer.Call)
  deriving DecidableEq, Repr

namespace World

def perform : Call → EStateM Errno World Reply
  | .producer c =>
    zoom (fun w => ⟨w.rb, w.producer⟩) (fun v w => { w with rb := v.rb, producer := v.txSize })
      (Producer.perform c)
  | .consumer c =>
    zoom (fun w => ⟨w.rb, w.consumer⟩) (fun v w => { w with rb := v.rb, consumer := v.txSize })
      (Consumer.perform c)

/-- A read up to a stop byte that is behind the end of the array. -/
def Overruns (w : World) : Call → Prop
  | .consumer (.readInTxChunk (.stopByte b)) => w.rb.inReadTx = true ∧ StopByteWraps w b
  | .consumer (.readChunk weak (.stopByte b)) =>
    w.rb.inReadTx = false ∧ weak = false ∧ StopByteWraps w b
  | _ => False

/-- The producer drops more bytes than there are. -/
def OverDrops (w : World) : Call → Prop
  | .producer (.dropN weak n) =>
    n ≤ w.rb.kDataPoolByteSize ∧ w.rb.inReadTx = false ∧ weak = false ∧ w.rb.usedSizeWeak < n
  | _ => False

instance (w : World) (b : UInt8) : Decidable (StopByteWraps w b) :=
  inferInstanceAs (Decidable (_ ∧ _ ∧ _ ∧ _))

instance (w : World) : DecidablePred w.Overruns
  | .producer _ => isFalse id
  | .consumer c => by
    cases c with
    | readInTxChunk target =>
      cases target with
      | contiguous => exact isFalse id
      | stopByte b => exact inferInstanceAs (Decidable (_ ∧ _))
    | readChunk weak target =>
      cases target with
      | contiguous => exact isFalse id
      | stopByte b => exact inferInstanceAs (Decidable (_ ∧ _ ∧ _))
    | _ => exact isFalse id

instance (w : World) : DecidablePred w.OverDrops
  | .consumer _ => isFalse id
  | .producer c => by
    cases c with
    | dropN weak n => exact inferInstanceAs (Decidable (_ ∧ _ ∧ _ ∧ _))
    | _ => exact isFalse id

end World

def ByteLog.perform : Call → ByteLog.Op Reply
  | .producer c => ByteLog.Producer.perform c
  | .consumer c => ByteLog.Consumer.perform c

section Calls

variable {w : World} {l : ByteLog}

theorem producer_perform (h : Stores w l) {c : Producer.Call}
    (hd : ¬ w.OverDrops (.producer c)) :
    Matches (ProducerSees w.consumer) Eq (Producer.perform c) (ByteLog.Producer.perform c)
      ⟨w.rb, w.producer⟩ l := by
  have hp : ProducerSees w.consumer ⟨w.rb, w.producer⟩ l := h
  cases c with
  | startTx weak => exact producer_startTx hp weak
  | writeInTx d => exact producer_writeInTx hp d
  | writeInTxWithSize T d => exact producer_writeInTxWithSize hp T d
  | writeInTxSizedChunk T str => exact producer_writeInTxSizedChunk hp T str
  | commitTx => exact producer_commitTx hp
  | cancelTx => exact producer_cancelTx hp
  | write weak d => exact producer_write hp weak d
  | writeSizedChunk weak T str => exact producer_writeSizedChunk hp weak T str
  | dropN weak n =>
    refine producer_dropN hp weak fun hn hr hw => ?_
    by_contra hlt
    have hu : w.rb.usedSizeWeak = l.size := h.used
    exact hd ⟨by rw [h.cap]; exact hn, h.reading.trans hr, hw, by omega⟩

theorem consumer_perform (h : Stores w l) (c : Consumer.Call) :
    Matches (ConsumerSees w.producer) (Agrees (¬ w.Overruns (.consumer c)))
      (Consumer.perform c) (ByteLog.Consumer.perform c) ⟨w.rb, w.consumer⟩ l := by
  have hc : ConsumerSees w.producer ⟨w.rb, w.consumer⟩ l := h
  have heq : ∀ {m : Op Reply} {n : ByteLog.Op Reply} {q : Prop},
      Matches (ConsumerSees w.producer) Eq m n ⟨w.rb, w.consumer⟩ l →
      Matches (ConsumerSees w.producer) (Agrees q) m n ⟨w.rb, w.consumer⟩ l :=
    fun hm => hm.mono (fun _ _ h => h) fun _ _ => agrees_of_eq
  cases c with
  | startTx weak => exact heq (consumer_startTx hc weak)
  | readInTx size => exact heq (consumer_readInTx hc size)
  | readInTxWithSize T => exact heq (consumer_readInTxWithSize hc T)
  | copyInTx size => exact heq (consumer_copyInTx hc size)
  | findInBufferInTx target => exact heq (consumer_findInBufferInTx hc target)
  | readInTxChunk target =>
    cases hr : w.rb.inReadTx with
    | true =>
      refine (consumer_readInTxChunk hc target).mono (fun _ _ h => h) fun x y hxy => ?_
      refine ⟨hxy.1, fun ho => hxy.2 fun b hb hwraps => ho ?_⟩
      rw [hb]
      exact ⟨hr, hwraps⟩
    | false =>
      have hl : l.reading = false := h.reading.symm.trans hr
      show Matches _ _ (Consumer.readInTxChunk target) (ByteLog.Consumer.readInTxChunk target) _ _
      unfold Consumer.readInTxChunk ByteLog.Consumer.readInTxChunk
      refine matches_get.mpr (matches_ite (by rw [h.reading]) (fun _ => matches_throw _ hc) ?_)
      intro hr'
      exact absurd (by rw [hl]; rfl) hr'
  | commitTx => exact heq (consumer_commitTx hc)
  | cancelTx => exact heq (consumer_cancelTx hc)
  | dropInTx => exact heq (consumer_dropInTx hc)
  | seekInTx pos => exact heq (consumer_seekInTx hc pos)
  | relSeekInTx delta => exact heq (consumer_relSeekInTx hc delta)
  | drop weak => exact heq (consumer_drop hc weak)
  | dropN weak n => exact heq (consumer_dropN hc weak n)
  | copy weak size =>
    refine consumer_transaction hc weak id (fun _ _ h => h) fun v' l' h' _ _ _ => ?_
    exact (consumer_copyInTx h' size).mono (fun _ _ h => h) fun _ _ => agrees_of_eq
  | startReadTx weak size => exact heq (consumer_startReadTx hc weak size)
  | read weak size => exact heq (consumer_read hc weak size)
  | readSizedChunk weak T =>
    refine consumer_transaction hc weak (fun ret => ⟨T.bytes + ret.size, ret.bytes⟩)
      (fun x y hxy => ⟨by rw [hxy.1], hxy.2⟩) fun v' l' h' _ _ _ => ?_
    exact (consumer_readInTxWithSize h' T).mono (fun _ _ h => h) fun _ _ => agrees_of_eq
  | readChunk weak target =>
    refine consumer_transaction hc weak id (fun _ _ h => h) fun v' l' h' hr hw hf => ?_
    obtain ⟨f, rfl⟩ := hf
    refine (consumer_readInTxChunk h' target).mono (fun _ _ h => h) fun x y hxy => ?_
    refine ⟨hxy.1, fun ho => hxy.2 fun b hb hwraps => ho ?_⟩
    rw [hb]
    exact ⟨hr, hw, hwraps⟩
  | destroy => exact heq (consumer_destroy hc)

/-- **Every call matches that of the log.** -/
theorem World.perform_matches (h : Stores w l) {c : Call} (hd : ¬ w.OverDrops c) :
    Matches Stores (Agrees (¬ w.Overruns c)) (World.perform c) (ByteLog.perform c) w l := by
  cases c with
  | producer c =>
    refine matches_zoom ((producer_perform h hd).mono (fun _ _ h => h) fun _ _ => agrees_of_eq) ?_
    exact fun v l' h' => h'
  | consumer c => exact matches_zoom (consumer_perform h c) fun v l' h' => h'

end Calls

end Ringbuffer
end IntegratedCLI
