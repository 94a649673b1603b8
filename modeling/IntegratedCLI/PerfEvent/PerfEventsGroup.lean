import Mathlib.Data.List.Infix
import IntegratedCLI.Lib.RingMemory

/-!
# The records of the kernel

`PerfEventsGroup::consume` of `hbt/src/perf_event`, for the mode of context switches.
The kernel writes records into a data area that it shares with the process, and
`consume` shows each record to the handler for its type.  The area is a ring: the kernel
moves `data_head` behind what it wrote, and the process `data_tail` behind what it is
done with.

## What is modelled how

* A pointer is a function from offsets to bytes.  Numbers in memory have their lowest
  byte first.
* `data_head` and `data_tail` are natural numbers: the kernel counts the bytes it has
  written, and this number does not wrap.
* A handler changes the state of the generator and returns a number, which is negative
  if it refuses the record.  It is given the bytes of the record; the length of a name
  and the place of a `sample_id` follow from how many these are.
* The records of samples, reads, aux areas and instruction traces do not exist in this
  mode, so their branches are empty, like the one for an unknown type.
* `HBT_DCHECK` is compiled out, and what is logged is left out.
-/

namespace IntegratedCLI
namespace PerfEvent

/-! ## Memory -/

abbrev Pointer := ℕ → UInt8

/-- A number of as many bytes. -/
def leAt (p : Pointer) (i : ℕ) : ℕ → ℕ
  | 0 => 0
  | n + 1 => (p i).toNat + 256 * leAt p (i + 1) n

/-- `perf_event_header`, of which `misc` is not read here. -/
structure EventHeader where
  type : ℕ
  size : ℕ
  deriving DecidableEq, Repr

def EventHeader.ofPointer (p : Pointer) : EventHeader := ⟨leAt p 0 4, leAt p 6 2⟩

/-- The page that is shared with the kernel, with the data area behind it. -/
structure MmapPage where
  logSize : ℕ
  data : Pointer
  dataHead : ℕ
  dataTail : ℕ
  logSize_ge : 3 ≤ logSize

namespace MmapPage

variable (m : MmapPage)

def dataSize : ℕ := 2 ^ m.logSize

def dataOffsetMask : ℕ := m.dataSize - 1

/-- Where the header of the record at the tail can be read, which is a copy of the record
if it wraps around. -/
def eventHeader (dataTail : ℕ) : Pointer :=
  let recordBegin := dataTail &&& m.dataOffsetMask
  -- the header is eight bytes and does not wrap around
  let header : Pointer := fun i => m.data (recordBegin + i)
  let size := (EventHeader.ofPointer header).size
  let recordEnd := (dataTail + size) &&& m.dataOffsetMask
  if recordEnd < recordBegin then
    let len := m.dataSize - recordBegin
    let buffer := (List.range len).map (fun i => m.data (recordBegin + i))
      ++ (List.range (size - len)).map m.data
    fun i => buffer.getD i 0
  else header

/-- The kernel writes a record. -/
def put (record : List UInt8) : MmapPage :=
  { m with
    data := fun a =>
      if a < m.dataSize then
        (record[RingMemory.offset m.dataSize m.dataHead a]?).getD (m.data a)
      else m.data a
    dataHead := m.dataHead + record.length }

end MmapPage

/-! ## Types of records -/

inductive RecordType where
  | lost | comm | exit | throttle | unthrottle | fork | switchCpuWide | other
  deriving DecidableEq, Repr

def RecordType.ofCode : ℕ → RecordType
  | 2 => .lost
  | 3 => .comm
  | 4 => .exit
  | 5 => .throttle
  | 6 => .unthrottle
  | 7 => .fork
  | 15 => .switchCpuWide
  | _ => .other

/-- There is a handler for the type. -/
def RecordType.handled : RecordType → Bool
  | .lost | .comm | .exit | .fork | .switchCpuWide => true
  | _ => false

/-- How many records of each type were consumed. -/
structure RecordCounts where
  lost : ℕ
  comm : ℕ
  exit : ℕ
  throttle : ℕ
  unthrottle : ℕ
  fork : ℕ
  switchCpuWide : ℕ
  deriving DecidableEq, Repr

/-! ## Consuming -/

section Consume

variable {σ : Type}

/-- The handlers: what the generator returns for a record, and its state then. -/
abbrev Handlers (σ : Type) := σ → RecordType → List UInt8 → ℤ × σ

/-- A record that was looked at, with the answer of its handler if there is one. -/
structure Visit where
  record : List UInt8
  answer : Option ℤ
  deriving DecidableEq, Repr

/-- The local variables of `consume`, with the generator and the counts.  What was looked
at is written down in `visits`. -/
structure Loop (σ : Type) where
  err : ℤ
  numRecords : ℕ
  dataTail : ℕ
  gen : σ
  counts : RecordCounts
  visits : List Visit

variable (handle : Handlers σ)

/-- The bytes of the record behind its header. -/
def recordAt (p : Pointer) : List UInt8 := (List.range (EventHeader.ofPointer p).size).map p

/-- Call the handler for the type. -/
def callHandler (type : RecordType) (p : Pointer) (l : Loop σ) : Loop σ :=
  let (err, gen) := handle l.gen type (recordAt p)
  { l with err := err, gen := gen, visits := l.visits ++ [⟨recordAt p, some err⟩] }

/-- A record without a handler. -/
def pass (p : Pointer) (l : Loop σ) : Loop σ :=
  { l with visits := l.visits ++ [⟨recordAt p, none⟩] }

/-- Count a record. -/
def Loop.count (l : Loop σ) (f : RecordCounts → RecordCounts) : Loop σ :=
  { l with counts := f l.counts }

/-- Call the handler, and leave the loop if it refuses the record. -/
def handleOrExit (type : RecordType) (f : RecordCounts → RecordCounts) (p : Pointer)
    (l : Loop σ) : Loop σ × Bool :=
  let l := callHandler handle type p l
  if l.err < 0 then (l, true) else (l.count f, false)

/-- The switch over the type of a record.  It says whether the loop is left. -/
def dispatch (p : Pointer) (l : Loop σ) : Loop σ × Bool :=
  match RecordType.ofCode (EventHeader.ofPointer p).type with
  | .lost =>
    handleOrExit handle .lost (fun c => { c with lost := (c.lost + leAt p 16 8) % 2 ^ 64 }) p l
  | .comm =>
    -- what the handler returns is not looked at
    ((callHandler handle .comm p l).count fun c => { c with comm := (c.comm + 1) % 2 ^ 64 }, false)
  | .exit => handleOrExit handle .exit (fun c => { c with exit := (c.exit + 1) % 2 ^ 64 }) p l
  | .throttle => ((pass p l).count fun c => { c with throttle := (c.throttle + 1) % 2 ^ 64 }, false)
  | .unthrottle =>
    ((pass p l).count fun c => { c with unthrottle := (c.unthrottle + 1) % 2 ^ 64 }, false)
  | .fork => handleOrExit handle .fork (fun c => { c with fork := (c.fork + 1) % 2 ^ 64 }) p l
  | .switchCpuWide =>
    handleOrExit handle .switchCpuWide
      (fun c => { c with switchCpuWide := (c.switchCpuWide + 1) % 2 ^ 64 }) p l
  | .other => (pass p l, false)

/-- The loop, which goes around at most as often as the number says. -/
def consumeLoop (m : MmapPage) : ℕ → Loop σ → Loop σ × Bool
  | 0, l => (l, false)
  | n + 1, l =>
    if l.dataTail < m.dataHead then
      let p := m.eventHeader l.dataTail
      match dispatch handle p l with
      | (l, true) => (l, true)
      | (l, false) =>
        consumeLoop m n
          { l with
            numRecords := l.numRecords + 1
            dataTail := l.dataTail + (EventHeader.ofPointer p).size }
    else (l, false)

end Consume

def ENODATA : ℤ := 61

structure PerfEventsGroup (σ : Type) where
  mmap : MmapPage
  gen : σ
  counts : RecordCounts

namespace PerfEventsGroup

variable {σ : Type} (handle : Handlers σ) (g : PerfEventsGroup σ)

/-- The loop of a call. -/
def loop (maxNumRecords : ℕ) : Loop σ × Bool :=
  consumeLoop handle g.mmap maxNumRecords ⟨0, 0, g.mmap.dataTail, g.gen, g.counts, []⟩

/-- What a call returns, and the group after it.  The data area is never of size zero,
where it would return at once. -/
def consume (maxNumRecords : ℕ) : ℤ × PerfEventsGroup σ :=
  let (l, exited) := g.loop handle maxNumRecords
  let err :=
    if exited then l.err
    else if l.dataTail = g.mmap.dataHead ∧ l.numRecords < maxNumRecords then -ENODATA
    else l.err
  (if 0 ≤ err then l.numRecords else err,
    ⟨{ g.mmap with dataTail := l.dataTail }, l.gen, l.counts⟩)

end PerfEventsGroup

end PerfEvent
end IntegratedCLI
