import IntegratedCLI.Lib.RingMemory
import IntegratedCLI.PerfEvent.PerfEventsGroup
import IntegratedCLI.Ringbuffer.Refinement

/-!
# Reading the data area without parsing it

`PerfEventsGroup::onCpuDataBufferRead` shows what the kernel wrote, and the process did
not consume yet, as one slice of the data area, or as two if it wraps around.

Here `data_head` and `data_tail` are 64 bit numbers that wrap, and the data area is of
any power of two.  The group is open, and its CPU is the one it was opened for.

`coversUnread_iff` says when the slices are the unread bytes.  The second slice is as
long as what the first one leaves of the *area*, not of the unread bytes, and a full
area whose first byte is not at offset zero is taken for one that does not wrap around.
-/

namespace IntegratedCLI
namespace PerfEvent

open RingMemory Ringbuffer

/-! ## The code -/

/-- A slice of the data area: the offset of its first byte and its size. -/
structure DataSlice where
  ptr : ℕ
  size : ℕ
  deriving DecidableEq, Repr

/-- The second slice is there when the ring buffer has wrapped. -/
structure RbDataSlices where
  first : DataSlice
  second : Option DataSlice
  deriving DecidableEq, Repr

/-- An open group with the data area that it shares with the kernel. -/
structure RbGroup where
  cpu : ℕ
  logSize : ℕ
  data : Pointer
  dataHead : ℕ
  dataTail : ℕ
  logSize_lt : logSize < 64
  dataHead_lt : dataHead < 2 ^ 64
  dataTail_lt : dataTail < 2 ^ 64

namespace RbGroup

variable (g : RbGroup)

def dataSize : ℕ := 2 ^ g.logSize

def dataOffsetMask : ℕ := g.dataSize - 1

/-- The bytes between the tail and the head. -/
def rbNumBytes : ℕ := sub64 g.dataHead g.dataTail

def writeDataTail (dataTail : ℕ) (h : dataTail < 2 ^ 64) : RbGroup :=
  { g with dataTail := dataTail, dataTail_lt := h }

/-- What the callback is called with, and the group then. -/
def onCpuDataBufferRead (consume : Bool) : (ℕ × RbDataSlices) × RbGroup :=
  let beginPtr := g.dataTail &&& g.dataOffsetMask
  let endPtr := g.dataHead &&& g.dataOffsetMask
  let sentinel := g.dataSize
  let len := min g.rbNumBytes (sentinel - beginPtr)
  let slices : RbDataSlices :=
    if endPtr < beginPtr then ⟨⟨beginPtr, len⟩, some ⟨0, sub64 g.dataSize len⟩⟩
    else ⟨⟨beginPtr, len⟩, none⟩
  ((g.cpu, slices), if consume then g.writeDataTail g.dataHead g.dataHead_lt else g)

end RbGroup

/-! ## What a call shows -/

/-- The bytes of a slice. -/
def DataSlice.bytes (data : Pointer) (s : DataSlice) : List UInt8 := bytesAt data s.ptr s.size

/-- The bytes of the slices, one behind the other. -/
def RbDataSlices.bytes (data : Pointer) (s : RbDataSlices) : List UInt8 :=
  s.first.bytes data ++ s.second.elim [] (DataSlice.bytes data)

namespace RbGroup

/-- The bytes at the ring positions from the tail to the head. -/
def unread (g : RbGroup) : List UInt8 := window g.data g.dataSize g.dataTail g.rbNumBytes

/-- What a call is to do: show the unread bytes, and when it consumes them advance the tail
by their number. -/
def CoversUnread (g : RbGroup) (consume : Bool) : Prop :=
  let r := g.onCpuDataBufferRead consume
  r.1.2.bytes g.data = g.unread ∧
    r.2.dataTail = if consume then u64 (g.dataTail + g.unread.length) else g.dataTail

variable {g : RbGroup}

theorem dataSize_pos (g : RbGroup) : 0 < g.dataSize := Nat.two_pow_pos _

theorem dataSize_le (g : RbGroup) : g.dataSize ≤ 2 ^ 63 :=
  Nat.pow_le_pow_right (by decide) (Nat.le_of_lt_succ g.logSize_lt)

theorem and_dataOffsetMask (g : RbGroup) (n : ℕ) : n &&& g.dataOffsetMask = n % g.dataSize :=
  Nat.and_two_pow_sub_one_eq_mod n g.logSize

theorem length_unread (g : RbGroup) : g.unread.length = g.rbNumBytes := length_window

theorem dataHead_eq (g : RbGroup) : g.dataHead = u64 (g.dataTail + g.rbNumBytes) := by
  have hhead := g.dataHead_lt
  have htail := g.dataTail_lt
  unfold rbNumBytes sub64 u64
  omega

/-- Where the head is in the data area. -/
theorem dataHead_mod (hused : g.rbNumBytes ≤ g.dataSize) : g.dataHead % g.dataSize =
    if g.dataTail % g.dataSize + g.rbNumBytes < g.dataSize
    then g.dataTail % g.dataSize + g.rbNumBytes
    else g.dataTail % g.dataSize + g.rbNumBytes - g.dataSize := by
  have hmod : g.dataHead % g.dataSize = (g.dataTail + g.rbNumBytes) % g.dataSize := by
    rw [g.dataHead_eq, u64]
    exact Nat.mod_mod_of_dvd _ (Nat.pow_dvd_pow 2 g.logSize_lt.le)
  rw [hmod]
  have htail : g.dataTail % g.dataSize < g.dataSize := Nat.mod_lt _ g.dataSize_pos
  rcases Nat.eq_zero_or_pos g.rbNumBytes with h | h
  · rw [h, Nat.add_zero, Nat.add_zero, if_pos htail]
  · exact stop_eq h hused

/-- The slices of a call: from the first unread byte on, and from the beginning of the
area on if the head is at a smaller offset than the tail. -/
theorem slices_eq (hused : g.rbNumBytes ≤ g.dataSize) (consume : Bool) :
    (g.onCpuDataBufferRead consume).1.2 =
      let start := g.dataTail % g.dataSize
      if start + g.rbNumBytes < g.dataSize ∨ g.rbNumBytes = g.dataSize then
        ⟨⟨start, min g.rbNumBytes (g.dataSize - start)⟩, none⟩
      else ⟨⟨start, g.dataSize - start⟩, some ⟨0, start⟩⟩ := by
  have htail : g.dataTail % g.dataSize < g.dataSize := Nat.mod_lt _ g.dataSize_pos
  have hsize := g.dataSize_le
  unfold onCpuDataBufferRead
  simp only [and_dataOffsetMask, dataHead_mod hused]
  by_cases hwrap : g.dataTail % g.dataSize + g.rbNumBytes < g.dataSize ∨ g.rbNumBytes = g.dataSize
  · rw [if_pos hwrap, if_neg (by split_ifs <;> omega)]
  · obtain ⟨hover, hfull⟩ := not_or.mp hwrap
    have hlen : min g.rbNumBytes (g.dataSize - g.dataTail % g.dataSize) =
        g.dataSize - g.dataTail % g.dataSize := by omega
    have hrest : sub64 g.dataSize (g.dataSize - g.dataTail % g.dataSize) =
        g.dataTail % g.dataSize := by
      unfold sub64
      omega
    rw [if_neg hwrap, if_neg hover, if_pos (by omega), hlen, hrest]

theorem length_bytes (data : Pointer) (s : RbDataSlices) :
    (s.bytes data).length = s.first.size + s.second.elim 0 DataSlice.size := by
  unfold RbDataSlices.bytes DataSlice.bytes
  cases s.second <;> simp [length_bytesAt]

theorem dataTail_read (g : RbGroup) (consume : Bool) :
    (g.onCpuDataBufferRead consume).2.dataTail =
      if consume then u64 (g.dataTail + g.unread.length) else g.dataTail := by
  rw [length_unread, ← g.dataHead_eq]
  cases consume <;> rfl

/-- **A call shows exactly the unread bytes when these end before the end of the area, or
begin at its beginning**, and in no other case. -/
theorem coversUnread_iff (consume : Bool) (hused : g.rbNumBytes ≤ g.dataSize) :
    g.CoversUnread consume ↔
      g.dataTail % g.dataSize = 0 ∨ g.dataTail % g.dataSize + g.rbNumBytes < g.dataSize := by
  have htail : g.dataTail % g.dataSize < g.dataSize := Nat.mod_lt _ g.dataSize_pos
  constructor
  · rintro ⟨hbytes, -⟩
    have hlen := congrArg List.length hbytes
    rw [length_bytes, length_unread, slices_eq hused] at hlen
    by_contra hcond
    dsimp only at hlen
    split_ifs at hlen with hwrap
    · -- A full area that is shown up to its end only.
      simp only [Option.elim_none] at hlen
      omega
    · -- The two slices are as long as the area, which is not full.
      simp only [Option.elim_some] at hlen
      omega
  · intro hcond
    refine ⟨?_, g.dataTail_read consume⟩
    have hin : g.dataTail % g.dataSize + g.rbNumBytes ≤ g.dataSize := by omega
    have hlen : min g.rbNumBytes (g.dataSize - g.dataTail % g.dataSize) = g.rbNumBytes := by omega
    rw [slices_eq hused, unread, window_eq_map hin]
    simp only [hlen]
    rw [if_pos (by omega)]
    exact List.append_nil _

/-- An area of eight bytes, of which as many are not read yet. -/
def ofBytes (dataTail used : ℕ) : RbGroup where
  cpu := 0
  logSize := 3
  data := UInt8.ofNat
  dataHead := u64 (dataTail + used)
  dataTail := u64 dataTail
  logSize_lt := by decide
  dataHead_lt := Nat.mod_lt _ (by decide)
  dataTail_lt := Nat.mod_lt _ (by decide)

theorem coversUnread_ofBytes : (ofBytes (2 ^ 64 - 6) 5).CoversUnread true :=
  (coversUnread_iff true (by decide)).mpr (by decide)

/-- Four bytes that wrap around are shown as eight, and eight as two. -/
theorem slices_overrun :
    (ofBytes 6 4).rbNumBytes = 4 ∧
      ((ofBytes 6 4).onCpuDataBufferRead true).1.2 = ⟨⟨6, 2⟩, some ⟨0, 6⟩⟩ ∧
      ¬ (ofBytes 6 4).CoversUnread true ∧
    (ofBytes 6 8).rbNumBytes = 8 ∧
      ((ofBytes 6 8).onCpuDataBufferRead true).1.2 = ⟨⟨6, 2⟩, none⟩ ∧
      ¬ (ofBytes 6 8).CoversUnread true := by
  unfold CoversUnread
  decide +kernel

end RbGroup

end PerfEvent
end IntegratedCLI
