import Mathlib.Data.List.Flatten
import IntegratedCLI.Lib.LittleEndian
import IntegratedCLI.Ringbuffer.ByteQueue

/-!
# Sized chunks

A sized chunk is a string behind its length, which is written as a `TSize`.
`writeSizedChunk` and `readSizedChunk` write and read one in a transaction of their
own.

A run is a list of these calls with one `TSize`, on a ring buffer that is empty at
first and whose counters may stand anywhere.  Along it we keep the strings that were
written and those that were read.  `Chunks.roundTrip` says that every call answers as
a bounded queue of strings would, and that a call that fails leaves the ring buffer
as it was.

A call fails as well where the `compare_exchange_weak` of its `startTx` does, which it
may for no reason.
-/

namespace IntegratedCLI
namespace Ringbuffer

open Effect RingMemory

/-! ## Sizes -/

namespace SizeType

variable {T : SizeType} {n : ℕ}

@[simp] theorem length_encode (T : SizeType) (n : ℕ) : (T.encode n).length = T.bytes := by
  rw [encode, List.length_map, List.length_range]

theorem max_lt (T : SizeType) : T.max < 256 ^ T.bytes := by
  have h : (2 : ℕ) ^ (8 * T.bytes - if T.signed then 1 else 0) ≤ 256 ^ T.bytes := by
    rw [show (256 : ℕ) = 2 ^ 8 from rfl, ← Nat.pow_mul]
    exact Nat.pow_le_pow_right (by omega) (Nat.sub_le _ _)
  have hpos : 0 < (256 : ℕ) ^ T.bytes := Nat.pow_pos (by omega)
  rw [max]
  omega

/-- **A size that fits its type is read as it was written.** -/
theorem decode_encode (h : n ≤ T.max) : T.decode (T.encode n) = n := by
  have hn : n % 256 ^ T.bytes = n := Nat.mod_eq_of_lt (Nat.lt_of_le_of_lt h T.max_lt)
  have hbytes : (T.encode n).foldr (fun b n => b.toNat + 256 * n) 0 = n % 256 ^ T.bytes :=
    LittleEndian.ofBytes_toBytes T.bytes n
  rw [decode]
  simp only [hbytes, hn]
  rw [if_neg]
  simp only [Bool.and_eq_true, decide_eq_true_eq, not_and]
  omega

/-- The bytes of a string behind its length. -/
def chunk (T : SizeType) (str : List UInt8) : List UInt8 := T.encode str.length ++ str

theorem length_chunk (T : SizeType) (str : List UInt8) :
    (T.chunk str).length = T.bytes + str.length := by
  rw [chunk, List.length_append, length_encode]

end SizeType

/-! ## Chunks in the log -/

namespace ByteLog

/-- What there is in a log but the bytes that were handed out. -/
structure Snapshot where
  cap : ℕ
  sent : List UInt8
  tail : ℕ
  pending : List UInt8
  cursor : ℕ
  writing : Bool
  reading : Bool

def snapshot (l : ByteLog) : Snapshot :=
  ⟨l.cap, l.sent, l.tail, l.pending, l.cursor, l.writing, l.reading⟩

/-- The log is outside of transactions. -/
structure Idle (l : ByteLog) : Prop where
  pending : l.pending = []
  cursor : l.cursor = 0
  writing : l.writing = false
  reading : l.reading = false

theorem Idle.of_snapshot {l l' : ByteLog} (h : l.Idle) (hs : l'.snapshot = l.snapshot) :
    l'.Idle where
  pending := (congrArg Snapshot.pending hs).trans h.pending
  cursor := (congrArg Snapshot.cursor hs).trans h.cursor
  writing := (congrArg Snapshot.writing hs).trans h.writing
  reading := (congrArg Snapshot.reading hs).trans h.reading

theorem Idle.snapshot_eq {l : ByteLog} (h : l.Idle) :
    l.snapshot = ⟨l.cap, l.sent, l.tail, [], 0, false, false⟩ := by
  rw [snapshot, h.pending, h.cursor, h.writing, h.reading]

/-! ### Writing one -/

namespace Producer

variable {l : ByteLog}

theorem startTx_outcome (hw : l.writing = false) (weak : Bool) :
    Outcome (startTx weak)
      (fun _ l' => weak = false ∧ l'.snapshot = { l.snapshot with writing := true })
      (fun _ l' => weak = true ∧ l' = l) l := by
  simp only [startTx, outcome_bind, outcome_get, hw, Bool.false_eq_true, if_false]
  split_ifs with hweak
  · exact ⟨hweak, rfl⟩
  · exact ⟨by simpa using hweak, rfl⟩

/-- The bytes are appended if they fit. -/
theorem copyToRingBuffer_outcome {d : List UInt8} (hd : d ≠ []) :
    Outcome (copyToRingBuffer d)
      (fun r l' => l.sent.length + (l.pending.length + d.length) ≤ l.tail + l.cap ∧
        r = ⟨d.length, []⟩ ∧ l'.snapshot = { l.snapshot with pending := l.pending ++ d })
      (fun _ l' => l.tail + l.cap < l.sent.length + (l.pending.length + d.length) ∧ l' = l) l := by
  have hlen : d.length ≠ 0 := fun h => hd (List.length_eq_zero_iff.mp h)
  have hr := l.reached_le
  simp only [copyToRingBuffer, outcome_bind, outcome_get, if_neg hlen, List.length_append]
  split_ifs with hcap hfit
  · exact ⟨by omega, rfl⟩
  · exact ⟨hfit, rfl, rfl⟩
  · exact ⟨by omega, rfl⟩

theorem commitTx_outcome (hw : l.writing = true) :
    Outcome commitTx
      (fun _ l' => l'.snapshot
        = { l.snapshot with sent := l.sent ++ l.pending, pending := [], writing := false })
      (fun _ _ => False) l := by
  simp only [commitTx, outcome_bind, outcome_get, hw]
  rfl

theorem cancelWith_outcome (hw : l.writing = true) (e : Errno) :
    Outcome (cancelWith e) (fun _ _ => False)
      (fun _ l' => l'.snapshot = { l.snapshot with pending := [], writing := false }) l := by
  simp only [cancelWith, cancelTx, outcome_bind, outcome_get, hw]
  rfl

/-- The length and the string, of which the length may be written although the string
does not fit. -/
theorem writeInTxSizedChunk_outcome {T : SizeType} {str : List UInt8} (hw : l.writing = true)
    (hp : l.pending = []) (hT : 0 < T.bytes) (hs : str ≠ []) (hfit : str.length ≤ T.max) :
    Outcome (writeInTxSizedChunk T str)
      (fun r l' => l.sent.length + (T.bytes + str.length) ≤ l.tail + l.cap ∧
        r = ⟨T.bytes + str.length, []⟩ ∧ l'.snapshot = { l.snapshot with pending := T.chunk str })
      (fun _ l' => l.tail + l.cap < l.sent.length + (T.bytes + str.length) ∧
        ∃ p, l'.snapshot = { l.snapshot with pending := p }) l := by
  have hlen : (T.encode str.length).length = T.bytes := T.length_encode _
  have hne : T.encode str.length ≠ [] := fun h => by
    rw [h, List.length_nil] at hlen
    omega
  have hin : (!l.writing) = false := by rw [hw]; rfl
  simp only [writeInTxSizedChunk, writeInTxWithSize, outcome_bind, outcome_get, hin,
    Bool.false_eq_true, if_false, if_neg (Nat.not_lt.mpr hfit)]
  refine (copyToRingBuffer_outcome hne).mono ?_ ?_
  · rintro s l₁ ⟨hfit₁, rfl, h₁⟩
    have hsent : l₁.sent = l.sent := congrArg Snapshot.sent h₁
    have htail : l₁.tail = l.tail := congrArg Snapshot.tail h₁
    have hcap : l₁.cap = l.cap := congrArg Snapshot.cap h₁
    have hpend : l₁.pending = T.encode str.length :=
      (congrArg Snapshot.pending h₁).trans (by rw [hp, List.nil_append])
    refine (copyToRingBuffer_outcome hs).mono ?_ ?_
    · rintro s' l₂ ⟨hfit₂, rfl, h₂⟩
      rw [hsent, htail, hcap, hpend, hlen] at hfit₂
      refine ⟨hfit₂, by rw [hlen], ?_⟩
      rw [h₂, h₁, hpend]
      rfl
    · rintro _ l₂ ⟨hnot, rfl⟩
      rw [hsent, htail, hcap, hpend, hlen] at hnot
      exact ⟨hnot, _, h₁⟩
  · rintro _ l₁ ⟨hnot, rfl⟩
    rw [hp, List.length_nil, hlen] at hnot
    exact ⟨by omega, _, rfl⟩

/-- **A chunk is written whole or not at all.** -/
theorem writeSizedChunk_outcome {T : SizeType} {str : List UInt8} (h : l.Idle)
    (hT : 0 < T.bytes) (hs : str ≠ []) (hfit : str.length ≤ T.max) (weak : Bool) :
    Outcome (writeSizedChunk weak T str)
      (fun r l' => weak = false ∧ l.sent.length + (T.bytes + str.length) ≤ l.tail + l.cap ∧
        r = ⟨T.bytes + str.length, []⟩ ∧
        l'.snapshot = { l.snapshot with sent := l.sent ++ T.chunk str })
      (fun _ l' => (weak = true ∨ l.tail + l.cap < l.sent.length + (T.bytes + str.length)) ∧
        l'.snapshot = l.snapshot) l := by
  rw [writeSizedChunk, outcome_bind]
  refine (startTx_outcome h.writing weak).mono ?_ ?_
  · rintro _ l₁ ⟨hweak, h₁⟩
    have hw₁ : l₁.writing = true := congrArg Snapshot.writing h₁
    have hp₁ : l₁.pending = [] := (congrArg Snapshot.pending h₁).trans h.pending
    have hsent : l₁.sent = l.sent := congrArg Snapshot.sent h₁
    have htail : l₁.tail = l.tail := congrArg Snapshot.tail h₁
    have hcap : l₁.cap = l.cap := congrArg Snapshot.cap h₁
    rw [outcome_bind, outcome_tryCatch]
    refine (writeInTxSizedChunk_outcome hw₁ hp₁ hT hs hfit).mono ?_ ?_
    · rintro r l₂ ⟨hfits, rfl, h₂⟩
      rw [hsent, htail, hcap] at hfits
      have hw₂ : l₂.writing = true := (congrArg Snapshot.writing h₂).trans hw₁
      rw [outcome_bind]
      refine (commitTx_outcome hw₂).mono ?_ fun _ _ => False.elim
      rintro _ l₃ h₃
      have hsent₂ : l₂.sent = l.sent := (congrArg Snapshot.sent h₂).trans hsent
      have hpend₂ : l₂.pending = T.chunk str := congrArg Snapshot.pending h₂
      refine ⟨hweak, hfits, rfl, ?_⟩
      rw [h₃, hsent₂, hpend₂, h₂, h₁, h.snapshot_eq]
    · rintro e l₂ ⟨hnot, p, h₂⟩
      rw [hsent, htail, hcap] at hnot
      have hw₂ : l₂.writing = true := (congrArg Snapshot.writing h₂).trans hw₁
      refine (cancelWith_outcome hw₂ e).mono (fun _ _ => False.elim) fun _ l₃ h₃ => ?_
      refine ⟨Or.inr hnot, ?_⟩
      rw [h₃, h₂, h₁, h.snapshot_eq]
  · rintro _ l₁ ⟨hweak, rfl⟩
    exact ⟨Or.inl hweak, rfl⟩

end Producer

/-! ### Reading one -/

namespace Consumer

variable {l : ByteLog}

theorem startTx_outcome (hr : l.reading = false) (weak : Bool) :
    Outcome (startTx weak)
      (fun _ l' => weak = false ∧ l'.snapshot = { l.snapshot with reading := true })
      (fun _ l' => weak = true ∧ l' = l) l := by
  simp only [startTx, outcome_bind, outcome_get, hr, Bool.false_eq_true, if_false]
  split_ifs with hweak
  · exact ⟨hweak, rfl⟩
  · exact ⟨by simpa using hweak, rfl⟩

/-- The next bytes are handed out if there are as many. -/
theorem readInTx_outcome (hr : l.reading = true) {size : ℕ} (hs : 0 < size) :
    Outcome (readInTx size)
      (fun r l' => l.cursor + size ≤ l.size ∧ r = ⟨size, l.unread.take size⟩ ∧
        l'.snapshot = { l.snapshot with cursor := l.cursor + size })
      (fun _ l' => l.size < l.cursor + size ∧ l' = l) l := by
  have hin : (!l.reading) = false := by rw [hr]; rfl
  have hle := l.size_le
  simp only [readInTx, readFromRingBuffer, outcome_bind, outcome_get, hin, Bool.false_eq_true,
    if_false, if_neg (Nat.ne_of_gt hs)]
  by_cases hcap : l.cap < size
  · rw [if_pos hcap]
    exact ⟨by omega, rfl⟩
  · rw [if_neg hcap, outcome_bind, outcome_get, if_neg hcap]
    split_ifs with hfit
    · exact ⟨hfit, rfl, rfl⟩
    · exact ⟨by omega, rfl⟩

theorem commitTx_outcome (hr : l.reading = true) :
    Outcome commitTx
      (fun _ l' => l'.snapshot
        = { l.snapshot with tail := l.tail + l.cursor, cursor := 0, reading := false })
      (fun _ _ => False) l := by
  simp only [commitTx, outcome_bind, outcome_get, hr]
  rfl

theorem cancelWith_outcome (hr : l.reading = true) (e : Errno) :
    Outcome (cancelWith e) (fun _ _ => False)
      (fun _ l' => l'.snapshot = { l.snapshot with cursor := 0, reading := false }) l := by
  simp only [cancelWith, cancelTx, outcome_bind, outcome_get, hr]
  rfl

/-- In a log of chunks the length is that of the string behind it. -/
theorem readInTxWithSize_outcome {T : SizeType} {str rest : List UInt8} (hr : l.reading = true)
    (hc : l.cursor = 0) (hT : 0 < T.bytes) (hs : str ≠ []) (hfit : str.length ≤ T.max)
    (hq : l.sent.drop l.tail = T.chunk str ++ rest) :
    Outcome (readInTxWithSize T)
      (fun r l' => r = ⟨str.length, str⟩ ∧
        l'.snapshot = { l.snapshot with cursor := T.bytes + str.length })
      (fun _ _ => False) l := by
  have hin : (!l.reading) = false := by rw [hr]; rfl
  have hlen : (T.encode str.length).length = T.bytes := T.length_encode _
  have hsize : l.size = T.bytes + str.length + rest.length := by
    rw [size, ← List.length_drop, hq, List.length_append, T.length_chunk]
  have hunread : l.unread = T.encode str.length ++ (str ++ rest) := by
    rw [unread, hc, Nat.add_zero, hq, SizeType.chunk, List.append_assoc]
  simp only [readInTxWithSize, outcome_bind, outcome_get, hin, Bool.false_eq_true, if_false]
  refine (readInTx_outcome hr hT).mono ?_ ?_
  · rintro r l₁ ⟨-, rfl, h₁⟩
    have hr₁ : l₁.reading = true := (congrArg Snapshot.reading h₁).trans hr
    have hc₁ : l₁.cursor = T.bytes :=
      (congrArg Snapshot.cursor h₁).trans (by rw [hc]; exact Nat.zero_add _)
    have hsent₁ : l₁.sent = l.sent := congrArg Snapshot.sent h₁
    have htail₁ : l₁.tail = l.tail := congrArg Snapshot.tail h₁
    have hdec : T.decode (l.unread.take T.bytes) = str.length := by
      rw [hunread, List.take_left' hlen, SizeType.decode_encode hfit]
    have hunread₁ : l₁.unread = str ++ rest := by
      rw [unread, hc₁, hsent₁, htail₁, ← List.drop_drop, hq, SizeType.chunk, List.append_assoc,
        List.drop_left' hlen]
    have hsize₁ : l₁.size = l.size := by rw [size, hsent₁, htail₁, size]
    dsimp only
    rw [hdec]
    refine (readInTx_outcome hr₁ (List.length_pos_iff.mpr hs)).mono ?_ ?_
    · rintro r l₂ ⟨-, rfl, h₂⟩
      refine ⟨by rw [hunread₁, List.take_left], ?_⟩
      rw [h₂, h₁, hc₁]
    · rintro _ _ ⟨hnot, -⟩
      omega
  · rintro _ _ ⟨hnot, -⟩
    omega

/-- In an empty log there is no length. -/
theorem readInTxWithSize_empty {T : SizeType} (hr : l.reading = true) (hT : 0 < T.bytes)
    (hq : l.sent.drop l.tail = []) :
    Outcome (readInTxWithSize T) (fun _ _ => False) (fun _ l' => l' = l) l := by
  have hin : (!l.reading) = false := by rw [hr]; rfl
  have hsize : l.size = 0 := by rw [size, ← List.length_drop, hq, List.length_nil]
  simp only [readInTxWithSize, outcome_bind, outcome_get, hin, Bool.false_eq_true, if_false]
  refine (readInTx_outcome hr hT).mono ?_ fun _ _ h => h.2
  rintro _ _ ⟨hle, -⟩
  omega

/-- **A chunk is read whole.** -/
theorem readSizedChunk_outcome {T : SizeType} {str rest : List UInt8} (h : l.Idle)
    (hT : 0 < T.bytes) (hs : str ≠ []) (hfit : str.length ≤ T.max)
    (hq : l.sent.drop l.tail = T.chunk str ++ rest) (weak : Bool) :
    Outcome (readSizedChunk weak T)
      (fun r l' => weak = false ∧ r = ⟨T.bytes + str.length, str⟩ ∧
        l'.snapshot = { l.snapshot with tail := l.tail + (T.bytes + str.length) })
      (fun _ l' => weak = true ∧ l'.snapshot = l.snapshot) l := by
  rw [readSizedChunk, outcome_bind]
  refine (startTx_outcome h.reading weak).mono ?_ ?_
  · rintro _ l₁ ⟨hweak, h₁⟩
    have hr₁ : l₁.reading = true := congrArg Snapshot.reading h₁
    have hc₁ : l₁.cursor = 0 := (congrArg Snapshot.cursor h₁).trans h.cursor
    have hsent₁ : l₁.sent = l.sent := congrArg Snapshot.sent h₁
    have htail₁ : l₁.tail = l.tail := congrArg Snapshot.tail h₁
    rw [← hsent₁, ← htail₁] at hq
    rw [outcome_bind, outcome_tryCatch]
    refine (readInTxWithSize_outcome hr₁ hc₁ hT hs hfit hq).mono ?_ fun _ _ => False.elim
    rintro r l₂ ⟨rfl, h₂⟩
    have hr₂ : l₂.reading = true := (congrArg Snapshot.reading h₂).trans hr₁
    have hc₂ : l₂.cursor = T.bytes + str.length := congrArg Snapshot.cursor h₂
    have htail₂ : l₂.tail = l.tail := (congrArg Snapshot.tail h₂).trans htail₁
    rw [outcome_bind]
    refine (commitTx_outcome hr₂).mono ?_ fun _ _ => False.elim
    rintro _ l₃ h₃
    refine ⟨hweak, rfl, ?_⟩
    rw [h₃, hc₂, htail₂, h₂, h₁, h.snapshot_eq]
  · rintro _ l₁ ⟨hweak, rfl⟩
    exact ⟨hweak, rfl⟩

/-- Nothing is read from an empty log. -/
theorem readSizedChunk_empty {T : SizeType} (h : l.Idle) (hT : 0 < T.bytes)
    (hq : l.sent.drop l.tail = []) (weak : Bool) :
    Outcome (readSizedChunk weak T) (fun _ _ => False)
      (fun _ l' => l'.snapshot = l.snapshot) l := by
  rw [readSizedChunk, outcome_bind]
  refine (startTx_outcome h.reading weak).mono ?_ ?_
  · rintro _ l₁ ⟨-, h₁⟩
    have hr₁ : l₁.reading = true := congrArg Snapshot.reading h₁
    have hsent₁ : l₁.sent = l.sent := congrArg Snapshot.sent h₁
    have htail₁ : l₁.tail = l.tail := congrArg Snapshot.tail h₁
    rw [← hsent₁, ← htail₁] at hq
    rw [outcome_bind, outcome_tryCatch]
    refine (readInTxWithSize_empty hr₁ hT hq).mono (fun _ _ => False.elim) ?_
    rintro e l₂ rfl
    refine (cancelWith_outcome hr₁ e).mono (fun _ _ => False.elim) fun _ l₃ h₃ => ?_
    rw [h₃, h₁, h.snapshot_eq]
  · rintro _ l₁ ⟨-, rfl⟩
    rfl

end Consumer

end ByteLog

/-! ## The ring buffer outside of transactions -/

namespace World

/-- A ring buffer that is empty, with its counters at the position. -/
def clear (logSize : ℕ) (h : logSize ≤ 62) (data : Memory) (pos : ℕ) : World :=
  ⟨⟨logSize, u64 pos, u64 pos, false, false, data, h⟩, 0, 0⟩

/-- The free space. -/
def free (w : World) : ℕ := w.rb.kDataPoolByteSize - w.rb.usedSizeWeak

/-- The bytes between the tail and the head. -/
def contents (w : World) : List UInt8 :=
  (List.range w.rb.usedSizeWeak).map fun k =>
    w.rb.data ((w.rb.tail + k) % w.rb.kDataPoolByteSize)

/-- The two are the same but for the bytes of the array that are free. -/
structure SameBuffer (w w' : World) : Prop where
  cap : w'.rb.kDataPoolByteSize = w.rb.kDataPoolByteSize
  head : w'.rb.head = w.rb.head
  tail : w'.rb.tail = w.rb.tail
  inWriteTx : w'.rb.inWriteTx = w.rb.inWriteTx
  inReadTx : w'.rb.inReadTx = w.rb.inReadTx
  producer : w'.producer = w.producer
  consumer : w'.consumer = w.consumer
  contents : w'.contents = w.contents

end World

section Stores

variable {w w' : World} {l l' : ByteLog}

theorem Stores.contents (h : Stores w l) : w.contents = l.sent.drop l.tail := by
  have hr := l.reached_le
  have hsize : l.size = l.sent.length - l.tail := rfl
  have hused : w.rb.usedSizeWeak = l.size := h.used
  have hwindow : window w.rb.data l.cap l.tail l.size = l.sent.drop l.tail := by
    rw [h.data.of_append.window_eq (Nat.le_refl _) (by omega), List.take_of_length_le]
    rw [List.length_drop]
    omega
  rw [← hwindow, World.contents, window, hused, h.cap, h.tail]
  refine List.map_congr_left fun k _ => ?_
  rw [← Nat.mod_add_mod, u64, Nat.mod_mod_of_dvd _ h.dvd, Nat.mod_add_mod]

theorem Stores.free (h : Stores w l) : w.free = l.cap - l.size := by
  have hused : w.rb.usedSizeWeak = l.size := h.used
  rw [World.free, hused, h.cap]

theorem Stores.sameBuffer (h : Stores w l) (h' : Stores w' l') (hs : l'.snapshot = l.snapshot) :
    w.SameBuffer w' := by
  have hsent : l'.sent = l.sent := congrArg ByteLog.Snapshot.sent hs
  have htail : l'.tail = l.tail := congrArg ByteLog.Snapshot.tail hs
  constructor
  · rw [h.cap, h'.cap]
    exact congrArg ByteLog.Snapshot.cap hs
  · rw [h.head, h'.head, hsent]
  · rw [h.tail, h'.tail, htail]
  · rw [h.writing, h'.writing]
    exact congrArg ByteLog.Snapshot.writing hs
  · rw [h.reading, h'.reading]
    exact congrArg ByteLog.Snapshot.reading hs
  · rw [h.producer, h'.producer]
    exact congrArg (fun v => v.pending.length) hs
  · rw [h.consumer, h'.consumer]
    exact congrArg ByteLog.Snapshot.cursor hs
  · rw [h.contents, h'.contents, hsent, htail]

theorem Stores.writeSizedChunk (h : Stores w l) (weak : Bool) (T : SizeType) (str : List UInt8) :
    Matches Stores Eq (World.perform (.producer (.writeSizedChunk weak T str)))
      (ByteLog.Producer.writeSizedChunk weak T str) w l :=
  Matches.mono (World.perform_matches h id) (fun _ _ h => h) fun _ _ h => h.eq id

theorem Stores.readSizedChunk (h : Stores w l) (weak : Bool) (T : SizeType) :
    Matches Stores Eq (World.perform (.consumer (.readSizedChunk weak T)))
      (ByteLog.Consumer.readSizedChunk weak T) w l :=
  Matches.mono (World.perform_matches h id) (fun _ _ h => h) fun _ _ h => h.eq id

/-- The log of a ring buffer that is empty. -/
def ByteLog.clear (logSize : ℕ) (h : logSize ≤ 62) (pos : ℕ) : ByteLog where
  cap := 2 ^ logSize
  sent := List.replicate pos 0
  tail := pos
  pending := []
  cursor := 0
  writing := false
  reading := false
  taken := []
  received := []
  cap_le := ByteLog.two_pow_le h
  reached_le := by rw [List.length_replicate]; exact Nat.le_refl _
  fits := by rw [List.length_replicate]; exact Nat.le_add_right _ _

theorem stores_clear (logSize : ℕ) (h : logSize ≤ 62) (data : Memory) (pos : ℕ) :
    Stores (World.clear logSize h data pos) (ByteLog.clear logSize h pos) where
  cap := rfl
  head := by
    show u64 pos = u64 (List.replicate pos 0).length
    rw [List.length_replicate]
  tail := rfl
  writing := rfl
  reading := rfl
  producer := rfl
  consumer := rfl
  pending_nil _ := rfl
  cursor_zero _ := rfl
  data i hi hl := by
    have hlen : (List.replicate pos (0 : UInt8) ++ []).length = pos := by
      rw [List.append_nil, List.length_replicate]
    exact absurd (Nat.lt_of_lt_of_eq hi hlen) (Nat.not_lt.mpr hl)

end Stores

/-! ## Runs -/

/-- The calls for sized chunks. -/
inductive ChunkCall where
  | write (weak : Bool) (str : List UInt8)
  | read (weak : Bool)
  deriving DecidableEq, Repr

namespace ChunkCall

def call (T : SizeType) : ChunkCall → Call
  | .write weak str => .producer (.writeSizedChunk weak T str)
  | .read weak => .consumer (.readSizedChunk weak T)

/-- The string is not empty, and its length fits the type. -/
def Fits (T : SizeType) : ChunkCall → Prop
  | .write _ str => str ≠ [] ∧ str.length ≤ T.max
  | .read _ => True

instance (T : SizeType) : DecidablePred (Fits T)
  | .write _ _ => inferInstanceAs (Decidable (_ ∧ _))
  | .read _ => isTrue trivial

end ChunkCall

/-- A ring buffer with the strings that were written and those that were read. -/
structure Chunks where
  world : World
  written : List (List UInt8)
  read : List (List UInt8)

namespace Chunks

variable {T : SizeType} {s : Chunks} {c : ChunkCall}

/-- Nothing was written yet. -/
def start (logSize : ℕ) (h : logSize ≤ 62) (data : Memory) (pos : ℕ) : Chunks :=
  ⟨World.clear logSize h data pos, [], []⟩

/-- The strings that are stored. -/
def stored (s : Chunks) : List (List UInt8) := s.written.drop s.read.length

def step (T : SizeType) (s : Chunks) (c : ChunkCall) : Chunks :=
  match World.perform (c.call T) s.world, c with
  | .ok _ w, .write _ str => { s with world := w, written := s.written ++ [str] }
  | .ok r w, .read _ => { s with world := w, read := s.read ++ [r.bytes] }
  | .error _ w, _ => { s with world := w }

/-- A write returns the size of the chunk, and succeeds exactly if the chunk fits the
free space.  A read returns the size of the chunk and the next string, and succeeds
exactly if there is one.  A call that fails leaves the buffer as it was. -/
def Answers (T : SizeType) (s : Chunks) (c : ChunkCall) : Prop :=
  match c with
  | .write weak str =>
    Outcome (World.perform (c.call T))
      (fun r _ => (weak = false ∧ T.bytes + str.length ≤ s.world.free) ∧
        r.size = T.bytes + str.length)
      (fun _ w => ¬ (weak = false ∧ T.bytes + str.length ≤ s.world.free) ∧ s.world.SameBuffer w)
      s.world
  | .read weak =>
    Outcome (World.perform (c.call T))
      (fun r _ => weak = false ∧ ∃ str rest, s.stored = str :: rest ∧
        r = ⟨T.bytes + str.length, str⟩)
      (fun _ w => ¬ (weak = false ∧ s.stored ≠ []) ∧ s.world.SameBuffer w) s.world

/-- What was read are the first of the strings that were written, and the ring buffer
holds the chunks of the others. -/
structure Queued (T : SizeType) (s : Chunks) : Prop where
  inOrder : s.read <+: s.written
  contents : s.world.contents = s.stored.flatMap T.chunk

/-- The invariant of a run. -/
structure Inv (T : SizeType) (s : Chunks) : Prop where
  log : ∃ l, Stores s.world l ∧ l.Idle ∧ l.sent.drop l.tail = s.stored.flatMap T.chunk
  inOrder : s.read <+: s.written
  fits : ∀ str ∈ s.written, str ≠ [] ∧ str.length ≤ T.max

theorem Inv.queued (h : s.Inv T) : s.Queued T := by
  obtain ⟨l, hst, -, hq⟩ := h.log
  exact ⟨h.inOrder, hst.contents.trans hq⟩

theorem inv_start (T : SizeType) (logSize : ℕ) (h : logSize ≤ 62) (data : Memory) (pos : ℕ) :
    (start logSize h data pos).Inv T where
  log := by
    refine ⟨ByteLog.clear logSize h pos, stores_clear logSize h data pos, ⟨rfl, rfl, rfl, rfl⟩, ?_⟩
    show (List.replicate pos 0).drop pos = []
    exact List.drop_eq_nil_of_le (by rw [List.length_replicate])
  inOrder := List.prefix_rfl
  fits str hstr := by cases hstr

/-- What was read, and what is stored. -/
theorem Inv.written_eq (h : s.Inv T) : s.read ++ s.stored = s.written := by
  obtain ⟨t, ht⟩ := h.inOrder
  rw [stored, ← ht, List.drop_left]

/-- A call that fails. -/
theorem Inv.unchanged (h : s.Inv T) {w : World} {l' : ByteLog} (hst : Stores w l')
    (hs : ∃ l, Stores s.world l ∧ l.Idle ∧ l.sent.drop l.tail = s.stored.flatMap T.chunk ∧
      l'.snapshot = l.snapshot) :
    s.world.SameBuffer w ∧ Inv T { s with world := w } := by
  obtain ⟨l, hst₀, hidle, hq, hsnap⟩ := hs
  refine ⟨hst₀.sameBuffer hst hsnap, ⟨⟨l', hst, hidle.of_snapshot hsnap, ?_⟩, h.inOrder, h.fits⟩⟩
  have hsent : l'.sent = l.sent := congrArg ByteLog.Snapshot.sent hsnap
  have htail : l'.tail = l.tail := congrArg ByteLog.Snapshot.tail hsnap
  rw [hsent, htail]
  exact hq

/-- A write, as a step lemma. -/
theorem Inv.write (h : s.Inv T) (hT : 0 < T.bytes) {str : List UInt8} (hs : str ≠ [])
    (hfit : str.length ≤ T.max) (weak : Bool) :
    Outcome (World.perform (.producer (.writeSizedChunk weak T str)))
      (fun r w => ((weak = false ∧ T.bytes + str.length ≤ s.world.free) ∧
        r.size = T.bytes + str.length) ∧
        Inv T { s with world := w, written := s.written ++ [str] })
      (fun _ w => (¬ (weak = false ∧ T.bytes + str.length ≤ s.world.free) ∧
        s.world.SameBuffer w) ∧ Inv T { s with world := w }) s.world := by
  obtain ⟨l, hst, hidle, hq⟩ := h.log
  have hr := l.reached_le
  have hle := l.size_le
  have hsize : l.size = l.sent.length - l.tail := rfl
  have hspec := ByteLog.Producer.writeSizedChunk_outcome hidle hT hs hfit weak
  refine ((hst.writeSizedChunk weak T str).outcome hspec).mono ?_ ?_
  · rintro _ w ⟨_, l', rfl, hst', hweak, hroom, rfl, hsnap⟩
    have hsent : l'.sent = l.sent ++ T.chunk str := congrArg ByteLog.Snapshot.sent hsnap
    have htail : l'.tail = l.tail := congrArg ByteLog.Snapshot.tail hsnap
    refine ⟨⟨⟨hweak, by rw [hst.free]; omega⟩, rfl⟩, ⟨l', hst', ?_, ?_⟩, ?_, ?_⟩
    · exact ⟨(congrArg ByteLog.Snapshot.pending hsnap).trans hidle.pending,
        (congrArg ByteLog.Snapshot.cursor hsnap).trans hidle.cursor,
        (congrArg ByteLog.Snapshot.writing hsnap).trans hidle.writing,
        (congrArg ByteLog.Snapshot.reading hsnap).trans hidle.reading⟩
    · have hlen : s.read.length ≤ s.written.length := h.inOrder.length_le
      show l'.sent.drop l'.tail = ((s.written ++ [str]).drop s.read.length).flatMap T.chunk
      rw [hsent, htail, List.drop_append_of_le_length (by omega), hq,
        List.drop_append_of_le_length hlen, List.flatMap_append, List.flatMap_singleton]
      rfl
    · exact h.inOrder.trans (List.prefix_append _ _)
    · intro t ht
      rcases List.mem_append.mp ht with ht | ht
      · exact h.fits t ht
      · rw [List.mem_singleton.mp ht]
        exact ⟨hs, hfit⟩
  · rintro _ w ⟨l', hst', hnot, hsnap⟩
    obtain ⟨hsame, hinv⟩ := h.unchanged hst' ⟨l, hst, hidle, hq, hsnap⟩
    refine ⟨⟨?_, hsame⟩, hinv⟩
    rintro ⟨rfl, hroom⟩
    rw [hst.free] at hroom
    rcases hnot with hweak | hnot
    · cases hweak
    · omega

/-- A read, as a step lemma. -/
theorem Inv.readChunk (h : s.Inv T) (hT : 0 < T.bytes) (weak : Bool) :
    Outcome (World.perform (.consumer (.readSizedChunk weak T)))
      (fun r w => (weak = false ∧ ∃ str rest, s.stored = str :: rest ∧
        r = ⟨T.bytes + str.length, str⟩) ∧
        Inv T { s with world := w, read := s.read ++ [r.bytes] })
      (fun _ w => (¬ (weak = false ∧ s.stored ≠ []) ∧ s.world.SameBuffer w) ∧
        Inv T { s with world := w }) s.world := by
  obtain ⟨l, hst, hidle, hq⟩ := h.log
  cases hstored : s.stored with
  | nil =>
    rw [hstored, List.flatMap_nil] at hq
    have hspec := ByteLog.Consumer.readSizedChunk_empty hidle hT hq weak
    refine ((hst.readSizedChunk weak T).outcome hspec).mono ?_ ?_
    · rintro r w ⟨_, l', _, _, hfalse⟩
      exact hfalse.elim
    · rintro _ w ⟨l', hst', hsnap⟩
      obtain ⟨hsame, hinv⟩ := h.unchanged hst'
        ⟨l, hst, hidle, by rw [hstored, List.flatMap_nil]; exact hq, hsnap⟩
      exact ⟨⟨fun hne => hne.2 rfl, hsame⟩, hinv⟩
  | cons str rest =>
    have hwritten : s.read ++ str :: rest = s.written := by rw [← hstored, h.written_eq]
    obtain ⟨hs, hfit⟩ := h.fits str (by rw [← hwritten]; simp)
    have hq' := hq
    rw [hstored, List.flatMap_cons] at hq'
    have hspec := ByteLog.Consumer.readSizedChunk_outcome hidle hT hs hfit hq' weak
    refine ((hst.readSizedChunk weak T).outcome hspec).mono ?_ ?_
    · rintro _ w ⟨_, l', rfl, hst', hweak, rfl, hsnap⟩
      have hsent : l'.sent = l.sent := congrArg ByteLog.Snapshot.sent hsnap
      have htail : l'.tail = l.tail + (T.bytes + str.length) :=
        congrArg ByteLog.Snapshot.tail hsnap
      have hread : (s.read ++ [str]) ++ rest = s.written := by
        rw [List.append_assoc, List.singleton_append, hwritten]
      refine ⟨⟨hweak, str, rest, rfl, rfl⟩, ⟨l', hst', ?_, ?_⟩, ⟨rest, hread⟩, h.fits⟩
      · exact ⟨(congrArg ByteLog.Snapshot.pending hsnap).trans hidle.pending,
          (congrArg ByteLog.Snapshot.cursor hsnap).trans hidle.cursor,
          (congrArg ByteLog.Snapshot.writing hsnap).trans hidle.writing,
          (congrArg ByteLog.Snapshot.reading hsnap).trans hidle.reading⟩
      · show l'.sent.drop l'.tail
          = (s.written.drop (s.read ++ [str]).length).flatMap T.chunk
        rw [hsent, htail, ← List.drop_drop, hq', List.drop_left' (T.length_chunk str), ← hread,
          List.drop_left]
    · rintro _ w ⟨l', hst', hweak, hsnap⟩
      obtain ⟨hsame, hinv⟩ := h.unchanged hst' ⟨l, hst, hidle, hq, hsnap⟩
      refine ⟨⟨?_, hsame⟩, hinv⟩
      rintro ⟨rfl, -⟩
      cases hweak

theorem Inv.answers (h : s.Inv T) (hT : 0 < T.bytes) (hc : c.Fits T) : s.Answers T c := by
  cases c with
  | write weak str =>
    exact (h.write hT hc.1 hc.2 weak).mono (fun _ _ h => h.1) fun _ _ h => h.1
  | read weak => exact (h.readChunk hT weak).mono (fun _ _ h => h.1) fun _ _ h => h.1

theorem Inv.step (h : s.Inv T) (hT : 0 < T.bytes) (hc : c.Fits T) : (s.step T c).Inv T := by
  cases c with
  | write weak str =>
    have hout := h.write hT hc.1 hc.2 weak
    unfold Outcome at hout
    simp only [Chunks.step, ChunkCall.call]
    split at hout
    · next hm => rw [hm]; exact hout.2
    · next hm => rw [hm]; exact hout.2
  | read weak =>
    have hout := h.readChunk hT weak
    unfold Outcome at hout
    simp only [Chunks.step, ChunkCall.call]
    split at hout
    · next hm => rw [hm]; exact hout.2
    · next hm => rw [hm]; exact hout.2

/-- **Sized chunks round-trip.**  In every run of writes and reads with one size type, on
a ring buffer of any size whose counters start anywhere, every call answers as a bounded
queue of strings would, and the ring buffer holds the chunks of the strings that were
written and not yet read. -/
theorem roundTrip (T : SizeType) (hT : 0 < T.bytes) (logSize : ℕ) (h : logSize ≤ 62)
    (data : Memory) (pos : ℕ) (calls : List ChunkCall) (hc : ∀ c ∈ calls, c.Fits T) :
    Run.Along (Chunks.step T) (Answers T) (start logSize h data pos) calls ∧
      Run.Throughout (Chunks.step T) (Queued T) (start logSize h data pos) calls := by
  have hinv := inv_start T logSize h data pos
  generalize start logSize h data pos = s at hinv
  induction calls generalizing s with
  | nil => exact ⟨trivial, hinv.queued⟩
  | cons c calls ih =>
    have hfit : c.Fits T := hc c (by simp)
    obtain ⟨halong, hthrough⟩ := ih (fun c' hc' => hc c' (by simp [hc'])) _ (hinv.step hT hfit)
    exact ⟨⟨hinv.answers hT hfit, halong⟩, hinv.queued, hthrough⟩

/-- A run in which both chunks wrap around, a third does not fit, and the head passes
`2 ^ 64`. -/
def wrappingRun : List ChunkCall :=
  [.write false [1, 2, 3], .read false, .write false [4, 5, 6, 7, 8, 9], .write false [10],
    .write true [11], .read false, .read false]

theorem roundTrip_wrappingRun :
    Run.Along (Chunks.step ⟨2, false⟩) (Answers ⟨2, false⟩)
        (start 3 (by decide) (fun _ => 0) (2 ^ 64 - 3)) wrappingRun ∧
      Run.Throughout (Chunks.step ⟨2, false⟩) (Queued ⟨2, false⟩)
        (start 3 (by decide) (fun _ => 0) (2 ^ 64 - 3)) wrappingRun :=
  roundTrip ⟨2, false⟩ (by decide) 3 (by decide) (fun _ => 0) (2 ^ 64 - 3) wrappingRun (by decide)

/-- A write of a chunk that fits fails, a read of a chunk that is stored fails, and a
write that fails has left the length in the free part of the array. -/
theorem fails_for_no_reason :
    let T : SizeType := ⟨1, false⟩
    let w := World.clear 3 (by decide) (fun _ => 0) 0
    let w' := w.step ((ChunkCall.write false [7]).call T)
    let w'' := w.step ((ChunkCall.write false [1, 2, 3, 4, 5, 6, 7, 8]).call T)
    (result (World.perform ((ChunkCall.write true [7]).call T)) w = .error .again ∧
        T.bytes + [7].length ≤ w.free) ∧
      (result (World.perform ((ChunkCall.read true).call T)) w' = .error .again ∧
        w'.contents = T.chunk [7]) ∧
      w.rb.data 0 = 0 ∧ w''.rb.data 0 = 8 := by
  decide

end Chunks

end Ringbuffer
end IntegratedCLI
