import IntegratedCLI.Ringbuffer.Refinement

/-!
# Runs of one producer and one consumer

A run is a list of calls of a producer and a consumer of one ring buffer, in any
order.  `World.replies_eq` says that a run gives the replies of a run of the byte
log, and `World.occupied_iff` when the ring buffer is never fuller than it can be.

Two kinds of calls go wrong.

* A read up to a stop byte that is behind the end of the array (`Overruns`): it
  hands out the bytes behind the array.  `readInTxChunk` takes the size that
  `findInBufferInTx` finds for the size of a contiguous chunk.
* A producer that drops more bytes than there are (`OverDrops`): the tail gets ahead
  of the head.  `Producer::dropN` says that it then drops all bytes, as
  `Consumer::dropN` does.
-/

namespace IntegratedCLI
namespace Ringbuffer

open Effect RingMemory

namespace World

/-- A new ring buffer with one producer and one consumer. -/
def init (logSize : ℕ) (h : logSize ≤ 62) (data : Memory) : World :=
  ⟨RingBuffer.init logSize h data, 0, 0⟩

def step (w : World) (c : Call) : World := after (perform c) w

/-- The ring buffer is not fuller than it can be. -/
def Occupied (w : World) : Prop := w.rb.usedSizeWeak ≤ w.rb.kDataPoolByteSize

/-- A `dropN` that succeeds removes as many bytes as it says, or all of them. -/
def DropsMin (w : World) : Call → Prop
  | .producer (.dropN weak n) =>
    Outcome (perform (.producer (.dropN weak n)))
      (fun _ w' => w'.rb.head = w.rb.head ∧
        w'.rb.tail = u64 (w.rb.tail + min n w.rb.usedSizeWeak)) (fun _ w' => w' = w) w
  | .consumer (.dropN weak n) =>
    Outcome (perform (.consumer (.dropN weak n)))
      (fun _ w' => w'.rb.head = w.rb.head ∧
        w'.rb.tail = u64 (w.rb.tail + min n w.rb.usedSizeWeak)) (fun _ w' => w' = w) w
  | _ => True

end World

namespace ByteLog

def step (l : ByteLog) (c : Call) : ByteLog := after (perform c) l

theorem two_pow_le {logSize : ℕ} (h : logSize ≤ 62) : 2 ^ logSize ≤ 2 ^ 62 :=
  Nat.pow_le_pow_right Nat.two_pos h

/-- The log of a new ring buffer. -/
def init (logSize : ℕ) (h : logSize ≤ 62) : ByteLog := empty (2 ^ logSize) (two_pow_le h)

end ByteLog

/-- The calls that drop bytes. -/
def Call.Drops : Call → Prop
  | .producer c => ByteLog.Producer.Drops c
  | .consumer c => ByteLog.Consumer.Drops c

section Runs

variable {w : World} {l : ByteLog} {calls : List Call}

theorem stores_init (logSize : ℕ) (h : logSize ≤ 62) (data : Memory) :
    Stores (World.init logSize h data) (ByteLog.init logSize h) where
  cap := rfl
  head := rfl
  tail := rfl
  writing := rfl
  reading := rfl
  producer := rfl
  consumer := rfl
  pending_nil _ := rfl
  cursor_zero _ := rfl
  data _ hi _ := absurd hi (Nat.not_lt_zero _)

theorem Stores.step (h : Stores w l) {c : Call} (hd : ¬ w.OverDrops c) :
    Stores (w.step c) (l.step c) := (World.perform_matches h hd).after

theorem Stores.run (h : Stores w l)
    (hd : Run.Along World.step (fun w c => ¬ w.OverDrops c) w calls) :
    Stores (calls.foldl World.step w) (calls.foldl ByteLog.step l) := by
  induction calls generalizing w l with
  | nil => exact h
  | cons c calls ih => exact ih (h.step hd.1) hd.2

theorem Stores.occupied (h : Stores w l) : w.Occupied := by
  have hu : w.rb.usedSizeWeak = l.size := h.used
  unfold World.Occupied
  rw [hu, h.cap]
  exact l.size_le

theorem ByteLog.inOrder_run (h : l.InOrder) (hc : ∀ c ∈ calls, ¬ c.Drops) :
    (calls.foldl ByteLog.step l).InOrder := by
  induction calls generalizing l with
  | nil => exact h
  | cons c calls ih =>
    refine ih ?_ fun c' hc' => hc c' (by simp [hc'])
    have hcd := hc c (by simp)
    cases c with
    | producer c => exact Producer.perform_inOrder hcd l h
    | consumer c => exact Consumer.perform_inOrder hcd l h

/-! ## The queue of bytes -/

/-- **The ring buffer is a bounded queue of bytes.**  A run without a read that
overruns the array gives the replies of the log, and the ring buffer is never fuller
than it can be.  If the run drops nothing, then what the committed read transactions
handed out are the bytes of the committed write transactions, in order, up to the
tail. -/
theorem World.replies_eq (logSize : ℕ) (h : logSize ≤ 62) (data : Memory) (calls : List Call)
    (hc : Run.Along World.step (fun w c => ¬ w.Overruns c ∧ ¬ w.OverDrops c)
      (World.init logSize h data) calls) :
    replies World.perform (World.init logSize h data) calls
        = replies ByteLog.perform (ByteLog.init logSize h) calls ∧
      Run.Throughout World.step World.Occupied (World.init logSize h data) calls ∧
      ((∀ c ∈ calls, ¬ c.Drops) →
        let l := calls.foldl ByteLog.step (ByteLog.init logSize h)
        l.received = l.sent.take l.tail) := by
  refine ⟨?_, ?_, fun hd => ?_⟩
  · refine replies_eq_of_matches (fun w l c hs hwc => ?_) (stores_init logSize h data) hc
    exact (World.perform_matches hs hwc.2).mono (fun _ _ h => h) fun x y hxy => hxy.eq hwc.1
  · have hs := stores_init logSize h data
    generalize World.init logSize h data = w at hc hs
    generalize ByteLog.init logSize h = l at hs
    induction calls generalizing w l with
    | nil => exact hs.occupied
    | cons c calls ih => exact ⟨hs.occupied, ih _ hc.2 _ (hs.step hc.1.2)⟩
  · exact (ByteLog.inOrder_run (ByteLog.inOrder_empty _ _) hd).received

/-- A run that wraps around twice, and reads the wrapped bytes up to a zero. -/
def linesRun : List Call :=
  [.producer (.write false [1, 2, 3, 4, 5, 6]), .consumer (.read false 6),
    .producer (.startTx false), .producer (.writeInTx [7, 0]), .producer .commitTx,
    .consumer (.readChunk false (.stopByte 0)), .producer (.write false [8, 9, 0]),
    .consumer (.startTx false), .consumer (.readInTx 2), .consumer .cancelTx,
    .consumer (.readChunk false (.stopByte 0))]

theorem World.replies_eq_linesRun :
    replies World.perform (World.init 3 (by decide) fun _ => 0xFF) linesRun
        = replies ByteLog.perform (ByteLog.init 3 (by decide)) linesRun ∧
      Run.Throughout World.step World.Occupied (World.init 3 (by decide) fun _ => 0xFF) linesRun ∧
      ((∀ c ∈ linesRun, ¬ c.Drops) →
        let l := linesRun.foldl ByteLog.step (ByteLog.init 3 (by decide))
        l.received = l.sent.take l.tail) :=
  World.replies_eq 3 (by decide) (fun _ => 0xFF) linesRun (by decide)

/-- A run that reads up to a zero behind the end of the array. -/
def overrun : List Call :=
  [.producer (.write false [1, 2, 3, 4, 5, 6]), .consumer (.read false 6),
    .producer (.write false [7, 8, 9, 0]), .consumer (.readChunk false (.stopByte 0))]

/-- The read hands out two of the four bytes, and two from behind the array. -/
theorem World.replies_overrun :
    replies World.perform (World.init 3 (by decide) fun _ => 0xFF) overrun
        = [.ok ⟨6, []⟩, .ok ⟨6, [1, 2, 3, 4, 5, 6]⟩, .ok ⟨4, []⟩, .ok ⟨4, [7, 8, 0xFF, 0xFF]⟩] ∧
      replies ByteLog.perform (ByteLog.init 3 (by decide)) overrun
        = [.ok ⟨6, []⟩, .ok ⟨6, [1, 2, 3, 4, 5, 6]⟩, .ok ⟨4, []⟩, .ok ⟨4, [7, 8, 9, 0]⟩] := by
  decide

/-! ## Occupancy -/

/-- Until `2 ^ 64` bytes were sent the counters are the numbers of bytes. -/
theorem Stores.tail_le_head (h : Stores w l) (hs : l.sent.length < 2 ^ 64) :
    w.rb.tail ≤ w.rb.head ∧ w.rb.head ≤ w.rb.tail + w.rb.kDataPoolByteSize := by
  have hr := l.reached_le
  have hf := l.fits
  rw [h.head, h.tail, h.cap, u64_of_lt hs, u64_of_lt (by omega)]
  omega

theorem World.step_producer_dropN {n : ℕ} (hn : n ≤ w.rb.kDataPoolByteSize)
    (hr : w.rb.inReadTx = false) :
    w.step (.producer (.dropN false n)) = { w with rb := w.rb.dropN n } := by
  have hrun : Producer.dropN false n ⟨w.rb, w.producer⟩
      = .ok ⟨0, []⟩ ⟨w.rb.dropN n, w.producer⟩ := by
    unfold Producer.dropN
    rw [run_get, if_neg (Nat.not_lt.mpr hn), if_neg (by rw [hr]; decide)]
    rfl
  unfold World.step World.perform Producer.perform after zoom
  dsimp only
  rw [hrun]

/-- Dropping more than there is takes the tail past the head. -/
theorem Stores.not_occupied (h : Stores w l) {c : Call} (hd : w.OverDrops c) :
    ¬ (w.step c).Occupied := by
  match c, hd with
  | .producer (.dropN weak n), ⟨hn, hr, hw, hu⟩ =>
    subst hw
    have hcl := l.cap_le
    have hrl := l.reached_le
    have hf := l.fits
    rw [show w.rb.usedSizeWeak = l.size from h.used] at hu
    rw [h.cap] at hn
    unfold ByteLog.size at hu
    rw [World.step_producer_dropN (by rw [h.cap]; exact hn) hr]
    show ¬ sub64 w.rb.head (u64 (w.rb.tail + n)) ≤ w.rb.kDataPoolByteSize
    rw [h.head, h.tail, h.cap, u64_u64_add]
    unfold sub64 u64
    omega

theorem World.dropsMin {c : Call} (hd : ¬ w.OverDrops c) : w.DropsMin c := by
  match c with
  | .producer (.dropN weak n) =>
    simp only [World.DropsMin, World.perform, Producer.perform, Producer.dropN, outcome_zoom,
      outcome_bind, outcome_get]
    split_ifs with hn hr
    · rfl
    · rfl
    · obtain ⟨hr, hw⟩ : w.rb.inReadTx = false ∧ weak = false := by simpa using hr
      have hle : n ≤ w.rb.usedSizeWeak := by
        by_contra hlt
        exact hd ⟨by omega, hr, hw, by omega⟩
      refine ⟨rfl, ?_⟩
      show u64 (w.rb.tail + n) = _
      rw [Nat.min_eq_left hle]
  | .consumer (.dropN weak n) =>
    simp only [World.DropsMin, World.perform, Consumer.perform, Consumer.dropN, Consumer.startTx,
      outcome_zoom, outcome_bind, outcome_get]
    split_ifs
    · rfl
    · rfl
    · refine ⟨rfl, ?_⟩
      show u64 (w.rb.tail + min w.rb.usedSizeWeak n) = _
      rw [Nat.min_comm]
  | .producer (.startTx _) | .producer (.writeInTx _) | .producer (.writeInTxWithSize _ _)
  | .producer (.writeInTxSizedChunk _ _) | .producer .commitTx | .producer .cancelTx
  | .producer (.write _ _) | .producer (.writeSizedChunk _ _ _)
  | .consumer (.startTx _) | .consumer (.readInTx _) | .consumer (.readInTxWithSize _)
  | .consumer (.copyInTx _) | .consumer (.findInBufferInTx _) | .consumer (.readInTxChunk _)
  | .consumer .commitTx | .consumer .cancelTx | .consumer .dropInTx | .consumer (.seekInTx _)
  | .consumer (.relSeekInTx _) | .consumer (.drop _) | .consumer (.copy _ _)
  | .consumer (.startReadTx _ _) | .consumer (.read _ _) | .consumer (.readSizedChunk _ _)
  | .consumer (.readChunk _ _) | .consumer .destroy => trivial

theorem Stores.occupied_run (h : Stores w l) :
    (Run.Throughout World.step World.Occupied w calls ∧
        Run.Along World.step World.DropsMin w calls) ↔
      Run.Along World.step (fun w c => ¬ w.OverDrops c) w calls := by
  induction calls generalizing w l with
  | nil => exact ⟨fun _ => trivial, fun _ => ⟨h.occupied, trivial⟩⟩
  | cons c calls ih =>
    constructor
    · rintro ⟨⟨-, ho⟩, -, hm⟩
      have hd : ¬ w.OverDrops c := fun hd => h.not_occupied hd ho.first
      exact ⟨hd, (ih (h.step hd)).mp ⟨ho, hm⟩⟩
    · rintro ⟨hd, hc⟩
      obtain ⟨ho, hm⟩ := (ih (h.step hd)).mpr hc
      exact ⟨⟨h.occupied, ho⟩, World.dropsMin hd, hm⟩

/-- **The ring buffer is never fuller than it can be, and `dropN` removes what it
says, in exactly the runs in which the producer drops no more than there is.**  Then
the tail is not ahead of the head, and the head not further ahead of the tail than
the size of the array, until the counters have counted `2 ^ 64` bytes. -/
theorem World.occupied_iff (logSize : ℕ) (h : logSize ≤ 62) (data : Memory) (calls : List Call) :
    ((Run.Throughout World.step World.Occupied (World.init logSize h data) calls ∧
        Run.Along World.step World.DropsMin (World.init logSize h data) calls) ↔
      Run.Along World.step (fun w c => ¬ w.OverDrops c) (World.init logSize h data) calls) ∧
    (Run.Along World.step (fun w c => ¬ w.OverDrops c) (World.init logSize h data) calls →
      (calls.foldl ByteLog.step (ByteLog.init logSize h)).sent.length < 2 ^ 64 →
      let w := calls.foldl World.step (World.init logSize h data)
      w.rb.tail ≤ w.rb.head ∧ w.rb.head ≤ w.rb.tail + w.rb.kDataPoolByteSize) :=
  ⟨(stores_init logSize h data).occupied_run,
    fun hc hs => ((stores_init logSize h data).run hc).tail_le_head hs⟩

/-- Bytes are dropped by both sides. -/
def dropsRun : List Call :=
  [.producer (.write false [1, 2, 3, 4, 5]), .producer (.dropN false 2),
    .consumer (.dropN false 7), .producer (.dropN false 0), .producer (.write false [6, 7, 8]),
    .consumer (.startTx false), .consumer (.relSeekInTx 2), .consumer .commitTx]

theorem World.occupied_dropsRun :
    (Run.Throughout World.step World.Occupied (World.init 3 (by decide) fun _ => 0) dropsRun ∧
      Run.Along World.step World.DropsMin (World.init 3 (by decide) fun _ => 0) dropsRun) ∧
    let w := dropsRun.foldl World.step (World.init 3 (by decide) fun _ => 0)
    w.rb.tail ≤ w.rb.head ∧ w.rb.head ≤ w.rb.tail + w.rb.kDataPoolByteSize :=
  ⟨(World.occupied_iff 3 (by decide) (fun _ => 0) dropsRun).1.mpr (by decide),
    (World.occupied_iff 3 (by decide) (fun _ => 0) dropsRun).2 (by decide) (by decide)⟩

/-- The producer drops eight bytes where there are four, which takes the tail ahead
of the head; the ring buffer then seems to use nearly `2 ^ 64` bytes. -/
theorem World.tail_ahead :
    let w := [Call.producer (.write false [1, 2, 3, 4]), .producer (.dropN false 8)].foldl
      World.step (World.init 3 (by decide) fun _ => 0)
    ¬ w.rb.tail ≤ w.rb.head ∧ ¬ w.Occupied ∧ w.rb.usedSizeWeak = 2 ^ 64 - 4 ∧
      w.rb.tail ≠ u64 (0 + min 8 4) := by
  unfold World.Occupied
  decide

end Runs

end Ringbuffer
end IntegratedCLI
