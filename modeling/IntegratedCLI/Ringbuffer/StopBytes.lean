import IntegratedCLI.Lib.RingMemory
import IntegratedCLI.Ringbuffer.Refinement

/-!
# Reading up to a stop byte

`Consumer::readChunk` with a stop byte finds the byte wherever it is, and then hands
out what is at the address of the first unread byte.  `readChunk_run` says what a call
does on a ring buffer at rest: the size is that of the bytes up to the stop byte, and
the tail moves behind them.  The bytes are the ones that lie in memory behind the first
unread byte, so they are the unread bytes just as long as those do not wrap around.

What is behind the array is not the ring buffer's, and `View.withBehind` puts other
bytes there.  `readsLine_iff` says when a call is right whatever is there.
-/

namespace IntegratedCLI
namespace Ringbuffer

open RingMemory Effect

/-- A ring buffer that no transaction is open on, as one object sees it. -/
structure Resting (v : View) : Prop where
  inReadTx : v.rb.inReadTx = false
  txSize : v.txSize = 0
  head_lt : v.rb.head < 2 ^ 64
  tail_lt : v.rb.tail < 2 ^ 64
  used_le : v.rb.usedSizeWeak ≤ v.rb.kDataPoolByteSize

namespace View

/-- The bytes from the tail to the head. -/
def unread (v : View) : List UInt8 :=
  window v.rb.data v.rb.kDataPoolByteSize v.rb.tail v.rb.usedSizeWeak

/-- The same ring buffer, with other bytes behind its array. -/
def withBehind (v : View) (behind : Memory) : View :=
  { v with rb := { v.rb with
    data := fun a => if a < v.rb.kDataPoolByteSize then v.rb.data a else behind a } }

end View

/-- The bytes up to the first `b`, and this one. -/
def lineOf (b : UInt8) (bytes : List UInt8) : Option (List UInt8) :=
  (bytes.findIdx? (· = b)).map fun i => bytes.take (i + 1)

/-- What a call is to do: hand out the bytes up to the stop byte and advance the tail, or
report that there is none. -/
def ReadsLine (b : UInt8) (v : View) : Prop :=
  Consumer.readChunk false (.stopByte b) v =
    match lineOf b v.unread with
    | some line => .ok ⟨line.length, line⟩ { v with rb := v.rb.incTail line.length }
    | none => .error .nodata v

variable {v : View} {b : UInt8} {line : List UInt8}

theorem pow_dvd_of_le {k : ℕ} (hk : k ≤ 62) : 2 ^ k ∣ 2 ^ 64 := Nat.pow_dvd_pow 2 (by omega)

theorem and_kDataModMask (rb : RingBuffer) (n : ℕ) :
    n &&& rb.kDataModMask = n % rb.kDataPoolByteSize :=
  Nat.and_two_pow_sub_one_eq_mod n rb.logSize

/-- The head is as many bytes behind the tail as are used. -/
theorem Resting.head_eq (h : Resting v) : v.rb.head = u64 (v.rb.tail + v.rb.usedSizeWeak) := by
  have hhead := h.head_lt
  have htail := h.tail_lt
  unfold RingBuffer.usedSizeWeak sub64 u64
  omega

theorem Resting.head_mod (h : Resting v) : v.rb.head % v.rb.kDataPoolByteSize =
    (v.rb.tail + v.rb.usedSizeWeak) % v.rb.kDataPoolByteSize := by
  rw [h.head_eq, u64]
  exact Nat.mod_mod_of_dvd _ (pow_dvd_of_le v.rb.logSize_le)

theorem length_unread (v : View) : v.unread.length = v.rb.usedSizeWeak := length_window

/-- Where the bytes do not wrap around they lie behind the first one. -/
theorem unread_eq_bytesAt
    (hin : v.rb.tail % v.rb.kDataPoolByteSize + v.rb.usedSizeWeak ≤ v.rb.kDataPoolByteSize) :
    v.unread = bytesAt v.rb.data (v.rb.tail % v.rb.kDataPoolByteSize) v.rb.usedSizeWeak :=
  window_eq_map hin

theorem unread_eq_append (h : Resting v)
    (hover : v.rb.kDataPoolByteSize ≤ v.rb.tail % v.rb.kDataPoolByteSize + v.rb.usedSizeWeak) :
    v.unread = bytesAt v.rb.data (v.rb.tail % v.rb.kDataPoolByteSize)
        (v.rb.kDataPoolByteSize - v.rb.tail % v.rb.kDataPoolByteSize) ++
      bytesAt v.rb.data 0
        (v.rb.tail % v.rb.kDataPoolByteSize + v.rb.usedSizeWeak - v.rb.kDataPoolByteSize) := by
  have hpos : 0 < v.rb.kDataPoolByteSize := Nat.two_pow_pos _
  rw [View.unread, window_eq_append hpos hover h.used_le]
  simp [bytesAt]

/-- The transaction that a call opens. -/
def View.opened (v : View) : View := { v with rb := { v.rb with inReadTx := true } }

/-- The size of a line, which ends either before the end of the array or in what wraps
around to its beginning. -/
theorem length_lineOf_append (xs ys : List UInt8) :
    (lineOf b (xs ++ ys)).map List.length =
      match xs.findIdx? (· = b) with
      | some i => some (i + 1)
      | none => (ys.findIdx? (· = b)).map fun i => xs.length + i + 1 := by
  refine Eq.trans ?_ (findIdx?_bytesAt_append xs ys (· = b))
  rw [lineOf, Option.map_map]
  refine Option.map_congr fun i hi => ?_
  obtain ⟨hlt, -⟩ := List.findIdx?_eq_some_iff_getElem.mp hi
  simpa using Nat.succ_le_of_lt hlt

theorem length_lineOf (xs : List UInt8) :
    (lineOf b xs).map List.length = (xs.findIdx? (· = b)).map (· + 1) := by
  rw [← List.append_nil xs, length_lineOf_append, List.append_nil]
  cases xs.findIdx? (· = b) <;> rfl

/-- The search finds the stop byte wherever it is. -/
theorem findInBufferInTx_opened (h : Resting v) :
    Consumer.findInBufferInTx (.stopByte b) v.opened =
      match (lineOf b v.unread).map List.length with
      | some n => .ok ⟨n, []⟩ v.opened
      | none => .error .nodata v.opened := by
  have hused := h.used_le
  have hlen := length_unread v
  have hpos : 0 < v.rb.kDataPoolByteSize := Nat.two_pow_pos _
  have hmod : v.rb.tail % v.rb.kDataPoolByteSize < v.rb.kDataPoolByteSize := Nat.mod_lt _ hpos
  have hempty : u64 (v.opened.rb.tail + v.opened.txSize) = v.opened.rb.head ↔
      v.rb.usedSizeWeak = 0 := by
    show u64 (v.rb.tail + v.txSize) = v.rb.head ↔ _
    have hhead := h.head_lt
    have htail := h.tail_lt
    have htx := h.txSize
    unfold RingBuffer.usedSizeWeak sub64 u64
    omega
  have hstart : u64 (v.opened.txSize + v.opened.rb.tail) &&& v.opened.rb.kDataModMask =
      v.rb.tail % v.rb.kDataPoolByteSize := by
    show u64 (v.txSize + v.rb.tail) &&& v.rb.kDataModMask = _
    rw [h.txSize, Nat.zero_add, and_kDataModMask, u64, Nat.mod_eq_of_lt h.tail_lt]
  have hstop : v.opened.rb.head &&& v.opened.rb.kDataModMask =
      (v.rb.tail + v.rb.usedSizeWeak) % v.rb.kDataPoolByteSize := by
    show v.rb.head &&& v.rb.kDataModMask = _
    rw [and_kDataModMask, h.head_mod]
  have hcap : v.opened.rb.kDataPoolByteSize = v.rb.kDataPoolByteSize := rfl
  have hdata : v.opened.rb.data = v.rb.data := rfl
  have hreading : (!v.opened.rb.inReadTx) = false := rfl
  unfold Consumer.findInBufferInTx
  rw [run_get]
  simp only [hreading, hcap, hdata, hstart, hstop, Bool.false_eq_true, if_false]
  by_cases hu : v.rb.usedSizeWeak = 0
  · have hnil : v.unread = [] := List.length_eq_zero_iff.mp (hlen.trans hu)
    rw [if_pos (hempty.mpr hu), hnil]
    rfl
  rw [if_neg (fun h' => hu (hempty.mp h')), stop_eq (by omega) hused]
  by_cases hin : v.rb.tail % v.rb.kDataPoolByteSize + v.rb.usedSizeWeak < v.rb.kDataPoolByteSize
  · rw [if_pos hin, decide_eq_false (by omega), length_lineOf,
      unread_eq_bytesAt (by omega)]
    simp only [Consumer.findByte, Nat.add_sub_cancel_left, Bool.false_eq_true, if_false]
    cases (bytesAt v.rb.data (v.rb.tail % v.rb.kDataPoolByteSize)
      v.rb.usedSizeWeak).findIdx? (· = b) <;> rfl
  · rw [if_neg hin, decide_eq_true (by omega), unread_eq_append h (by omega),
      length_lineOf_append, length_bytesAt]
    simp only [Consumer.findByte, Nat.sub_zero, if_true]
    cases (bytesAt v.rb.data (v.rb.tail % v.rb.kDataPoolByteSize)
      (v.rb.kDataPoolByteSize - v.rb.tail % v.rb.kDataPoolByteSize)).findIdx? (· = b) with
    | some i => rfl
    | none =>
      cases (bytesAt v.rb.data 0 (v.rb.tail % v.rb.kDataPoolByteSize + v.rb.usedSizeWeak -
        v.rb.kDataPoolByteSize)).findIdx? (· = b) <;> rfl

/-- Without the transaction the ring buffer is at rest. -/
theorem Resting.closed (h : Resting v) :
    (⟨{ v.opened.rb with inReadTx := false }, 0⟩ : View) = v := by
  obtain ⟨⟨logSize, head, tail, inWriteTx, inReadTx, data, hl⟩, txSize⟩ := v
  simp [View.opened, ← h.inReadTx, ← h.txSize]

/-- What a call hands out: as many bytes as the line has, from the address of the first
unread byte on. -/
theorem readChunk_run (h : Resting v) :
    Consumer.readChunk false (.stopByte b) v =
      match lineOf b v.unread with
      | some line => .ok ⟨line.length,
          bytesAt v.rb.data (v.rb.tail % v.rb.kDataPoolByteSize) line.length⟩
          { v with rb := v.rb.incTail line.length }
      | none => .error .nodata v := by
  have hstart : Consumer.startTx false v = .ok ⟨0, []⟩ v.opened := by
    unfold Consumer.startTx
    rw [run_get, h.inReadTx]
    rfl
  have hfind := findInBufferInTx_opened (b := b) h
  unfold Consumer.readChunk
  rw [run_bind_ok hstart]
  cases hline : lineOf b v.unread with
  | none =>
    rw [hline] at hfind
    have hchunk : Consumer.readInTxChunk (.stopByte b) v.opened = .error .nodata v.opened := by
      unfold Consumer.readInTxChunk
      rw [run_get]
      exact run_bind_error hfind
    have hcancel : Consumer.cancelWith .nodata v.opened = .error .nodata v := by
      conv_rhs => rw [← h.closed]
      rfl
    exact run_bind_error ((run_tryCatch_error hchunk).trans hcancel)
  | some line =>
    rw [hline] at hfind
    have haddr : u64 (v.txSize + v.rb.tail) &&& v.rb.kDataModMask =
        v.rb.tail % v.rb.kDataPoolByteSize := by
      rw [h.txSize, Nat.zero_add, and_kDataModMask, u64, Nat.mod_eq_of_lt h.tail_lt]
    have hchunk : Consumer.readInTxChunk (.stopByte b) v.opened =
        .ok ⟨line.length, bytesAt v.rb.data (v.rb.tail % v.rb.kDataPoolByteSize) line.length⟩
          { v.opened with txSize := u64 (v.txSize + line.length) } := by
      rw [← haddr]
      unfold Consumer.readInTxChunk
      rw [run_get]
      exact run_bind_ok hfind
    rw [run_bind_ok (run_tryCatch_ok hchunk)]
    have hinc : u64 (v.rb.tail + u64 (v.txSize + line.length)) = u64 (v.rb.tail + line.length) := by
      rw [h.txSize, Nat.zero_add, u64_add_u64]
    show EStateM.Result.ok _ (⟨{ v.rb with
      tail := u64 (v.rb.tail + u64 (v.txSize + line.length)), inReadTx := false }, 0⟩ : View) = _
    rw [hinc, ← h.inReadTx, ← h.txSize]
    rfl

/-! ## The bytes that a call hands out -/

theorem Resting.withBehind (h : Resting v) (behind : Memory) : Resting (v.withBehind behind) :=
  ⟨h.inReadTx, h.txSize, h.head_lt, h.tail_lt, h.used_le⟩

/-- What is behind the array is no part of the contents. -/
theorem unread_withBehind (v : View) (behind : Memory) : (v.withBehind behind).unread = v.unread := by
  refine List.map_congr_left fun k _ => ?_
  exact if_pos (Nat.mod_lt _ (Nat.two_pow_pos _))

theorem lineOf_eq_take {bytes : List UInt8} (h : lineOf b bytes = some line) :
    line = bytes.take line.length ∧ line.length ≤ bytes.length := by
  obtain ⟨i, hi, rfl⟩ := Option.map_eq_some_iff.mp h
  obtain ⟨hlt, -⟩ := List.findIdx?_eq_some_iff_getElem.mp hi
  simp [Nat.succ_le_of_lt hlt]

/-- The last byte of a line is the stop byte. -/
theorem exists_length_lineOf {bytes bs : List UInt8} (h : lineOf b bytes = some bs) :
    ∃ i, bs.length = i + 1 ∧ bs[i]? = some b := by
  obtain ⟨i, hi, rfl⟩ := Option.map_eq_some_iff.mp h
  obtain ⟨hlt, hb, -⟩ := List.findIdx?_eq_some_iff_getElem.mp hi
  have hlen : (bytes.take (i + 1)).length = i + 1 := by simpa using Nat.succ_le_of_lt hlt
  refine ⟨i, hlen, ?_⟩
  simpa [hlt] using hb

/-- Up to the end of the array the bytes behind the first one are the unread ones. -/
theorem bytesAt_eq_take {n : ℕ} (hn : n ≤ v.rb.usedSizeWeak)
    (hin : v.rb.tail % v.rb.kDataPoolByteSize + n ≤ v.rb.kDataPoolByteSize) :
    bytesAt v.rb.data (v.rb.tail % v.rb.kDataPoolByteSize) n = v.unread.take n := by
  have htake : v.unread.take n = window v.rb.data v.rb.kDataPoolByteSize v.rb.tail n := by
    simp [View.unread, window, ← List.map_take, List.take_range, Nat.min_eq_left hn]
  rw [htake, window_eq_map hin]
  rfl

/-- **A call with a stop byte does what it is to do exactly when the bytes up to the stop
byte do not wrap around**, or when there is none. -/
theorem readsLine_iff (h : Resting v) :
    (∀ behind, ReadsLine b (v.withBehind behind)) ↔
      ∀ line, lineOf b v.unread = some line →
        v.rb.tail % v.rb.kDataPoolByteSize + line.length ≤ v.rb.kDataPoolByteSize := by
  constructor
  · intro hreads line hline
    by_contra hover
    obtain ⟨i, hi, hlast⟩ := exists_length_lineOf hline
    have hread := hreads fun _ => b + 1
    unfold ReadsLine at hread
    rw [readChunk_run (h.withBehind _), unread_withBehind, hline] at hread
    simp only [EStateM.Result.ok.injEq, Reply.mk.injEq, true_and, and_true] at hread
    -- The stop byte is at an address behind the array, where `b + 1` is.
    have hat : (bytesAt (v.withBehind fun _ => b + 1).rb.data
        (v.rb.tail % v.rb.kDataPoolByteSize) line.length)[i]? = some (b + 1) := by
      have hbehind : ¬ v.rb.tail % v.rb.kDataPoolByteSize + i < v.rb.kDataPoolByteSize := by omega
      simp [bytesAt, hi, View.withBehind, hbehind]
    have hb : some (b + 1) = some b := hat.symm.trans ((congrArg (·[i]?) hread).trans hlast)
    simp at hb
  · intro hin behind
    unfold ReadsLine
    rw [readChunk_run (h.withBehind behind), unread_withBehind]
    cases hline : lineOf b v.unread with
    | none => rfl
    | some line =>
      obtain ⟨htake, hle⟩ := lineOf_eq_take hline
      have hbytes := bytesAt_eq_take (v := v.withBehind behind) (n := line.length)
        (hle.trans_eq (length_unread v)) (hin line hline)
      rw [unread_withBehind, ← htake] at hbytes
      simp only [hbytes]

/-- A ring buffer of eight bytes that hold a line of four. -/
def lineAt (tail : ℕ) : View where
  rb :=
    { logSize := 3, head := tail + 5, tail := tail, inWriteTx := false, inReadTx := false
      data := fun a => ([7, 8, 9, 0, 1].getD ((a + 8 - tail % 8) % 8) 2)
      logSize_le := by decide }
  txSize := 0

theorem resting_lineAt {tail : ℕ} (h : tail < 2 ^ 63) : Resting (lineAt tail) := by
  refine ⟨rfl, rfl, ?_, ?_, ?_⟩
  · show tail + 5 < 2 ^ 64
    omega
  · show tail < 2 ^ 64
    omega
  · show sub64 (tail + 5) tail ≤ 8
    unfold sub64
    omega

theorem readsLine_lineAt : ReadsLine 0 ((lineAt 12).withBehind fun _ => 3) :=
  (readsLine_iff (resting_lineAt (by decide))).mpr (by
    have hline : lineOf 0 (lineAt 12).unread = some [7, 8, 9, 0] := by decide
    rintro line h
    rw [hline] at h
    cases h
    decide) fun _ => 3

/-- Of a line that begins in the last two bytes of the array the rest is what is behind
the array, though its size is right and the tail moves behind it. -/
theorem line_overrun :
    lineOf 0 (lineAt 14).unread = some [7, 8, 9, 0] ∧
      Consumer.readChunk false (.stopByte 0) ((lineAt 14).withBehind fun _ => 3) =
        .ok ⟨4, [7, 8, 3, 3]⟩
          { (lineAt 14).withBehind (fun _ => 3) with
            rb := ((lineAt 14).withBehind fun _ => 3).rb.incTail 4 } ∧
      ¬ ReadsLine 0 ((lineAt 14).withBehind fun _ => 3) := by
  have hline : lineOf 0 ((lineAt 14).withBehind fun _ => 3).unread = some [7, 8, 9, 0] := by decide
  have hread := readChunk_run (b := 0) ((resting_lineAt (by decide : 14 < 2 ^ 63)).withBehind
    fun _ => 3)
  rw [hline] at hread
  refine ⟨by decide, hread, fun h => ?_⟩
  unfold ReadsLine at h
  rw [hread, hline] at h
  simp only [EStateM.Result.ok.injEq, Reply.mk.injEq, true_and, and_true] at h
  revert h
  decide

end Ringbuffer
end IntegratedCLI
