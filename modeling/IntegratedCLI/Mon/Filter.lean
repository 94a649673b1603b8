import IntegratedCLI.Lib.Dict
import IntegratedCLI.Lib.Fallible
import IntegratedCLI.Lib.Masks
import IntegratedCLI.Ringbuffer.RingBuffer
import IntegratedCLI.Tagstack.Slicer

/-!
# Filters of monitored data

`MonData` and `FilterChain` of `hbt/src/mon`.  The data of a compute unit is a table of
counts, with a row for each interval, and the slices of each interval.  A filter step
turns a selection, which has a flag for every row and every slice, into another, and a
chain of steps starts with everything selected and ends with the data that is left.

## What is modelled how

* The table of counts is a list of rows.  The code keeps the rows one after the other in
  one list of numbers.
* An `unordered_map` is a list of entries.  The order of the entries of a result is that
  of the entries of the data.  `metadata` is a value, and `clone` copies it.
* A step is called through a virtual method, so the kinds of steps are one inductive.
  The constructor of `BinaryOp` asks for two operands or more.
* `HBT_DCHECK` is compiled out.  Where the code then goes on to read what is not there,
  the result is `undefined`.
* A loop whose end depends on its body has fuel.
-/

namespace IntegratedCLI
namespace Mon

open Ringbuffer Tagstack Masks

/-! ## Data -/

structure CountRow where
  tstamp : ℕ
  duration : ℕ
  counts : List ℕ
  deriving DecidableEq, Repr

def CountRow.tstampEnd (r : CountRow) : ℕ := u64 (r.tstamp + r.duration)

/-- A row has a count for each event. -/
structure CountData where
  eventNames : List String
  rows : List CountRow
  counts_length : ∀ r ∈ rows, r.counts.length = eventNames.length
  deriving DecidableEq

/-- The slices of each interval. -/
abbrev PerIntervalSlices := List (List Slice)

/-- The data of a compute unit.  The constructor means to check that there are as many
intervals of slices as rows, but it asks the parameters, which it has moved from, and so it
never does. -/
structure CuMonData where
  countData : Option CountData
  perIntervalSlices : Option PerIntervalSlices
  deriving DecidableEq

/-- The data of the compute units, with what describes it. -/
structure MonData (τ μ : Type) where
  shortDesc : String
  longDesc : String
  tsConverter : τ
  partitionSourceKey : String
  perCuMonData : List (ℕ × CuMonData)
  metadata : Option μ
  partitionSourceKey_ne : partitionSourceKey ≠ ""
  nodup : (perCuMonData.map Prod.fst).Nodup

/-- What a filter raises, or that it has no result. -/
inductive FilterFailure where
  | invalidArgument
  | assertion
  | outOfRange
  | undefined
  | outOfFuel
  deriving DecidableEq, Repr

/-- The value of an optional, which is read without a check. -/
def deref {α : Type} : Option α → Except FilterFailure α
  | some a => pure a
  | none => throw .undefined

namespace CountData

def numIntervals (d : CountData) : ℕ := d.rows.length

def getTimeStampRange (d : CountData) : Option (ℕ × ℕ) :=
  match d.rows.head?, d.rows.getLast? with
  | some first, some last => some (first.tstamp, last.tstampEnd)
  | _, _ => none

def findCountAt (d : CountData) (tstamp : ℕ) : Option ℕ :=
  d.rows.findIdx? fun r => r.tstamp ≤ tstamp && tstamp < r.tstampEnd

theorem keep_counts_length (d : CountData) (sel : List Bool) :
    ∀ r ∈ keep sel d.rows, r.counts.length = d.eventNames.length :=
  fun r hr => d.counts_length r ((keep_sublist sel d.rows).subset hr)

/-- The flag of every row is read. -/
def filter (d : CountData) (sel : List Bool) : Except FilterFailure CountData :=
  if sel.length < d.rows.length then throw .undefined
  else pure ⟨d.eventNames, keep sel d.rows, d.keep_counts_length sel⟩

end CountData

namespace PerIntervalSlices

def numIntervals (p : PerIntervalSlices) : ℕ := p.length

/-- From the start of the first slice to the end of the last one. -/
def getTimeStampRange (p : PerIntervalSlices) : Option (ℕ × ℕ) :=
  match p.flatten.head?, p.flatten.getLast? with
  | some first, some last => some (first.tstamp, u64 last.tstampEnd)
  | _, _ => none

/-- The slice of every flag is read. -/
def filter (p : PerIntervalSlices) (sel : List (List Bool)) :
    Except FilterFailure PerIntervalSlices :=
  if sel.length ≠ p.length then throw .invalidArgument
  else if List.Forall₂ (fun v slices => (v : List Bool).length ≤ (slices : List Slice).length)
      sel p then
    pure (List.zipWith keep sel p)
  else throw .undefined

end PerIntervalSlices

namespace CuMonData

def getCountDataTimeStampRange (d : CuMonData) : Option (ℕ × ℕ) :=
  d.countData.bind CountData.getTimeStampRange

def getPerIntervalSlicesTimeStampRange (d : CuMonData) : Option (ℕ × ℕ) :=
  d.perIntervalSlices.bind PerIntervalSlices.getTimeStampRange

def findCountAt (d : CuMonData) (tstamp : ℕ) : Option ℕ :=
  d.countData.bind fun c => c.findCountAt tstamp

/-- Whether the slices of an interval, of which there are some, reach from before a time
stamp to after it. -/
def covers (tstamp : ℕ) (slices : List Slice) : Bool :=
  match slices.head?, slices.getLast? with
  | some first, some last => first.tstamp ≤ tstamp && tstamp < u64 last.tstampEnd
  | _, _ => false

def findSliceIntervalAt (d : CuMonData) (tstamp : ℕ) : Option ℕ :=
  d.perIntervalSlices.bind fun p => p.findIdx? (covers tstamp)

end CuMonData

/-! ## Selections -/

/-- The selection of a compute unit: a flag for each row, and for each slice of each
interval. -/
structure CuSel where
  selCounts : Option (List Bool)
  selSlices : Option (List (List Bool))
  deriving DecidableEq, Repr

/-- All is selected. -/
def CuSel.ofCuMonData (d : CuMonData) : CuSel :=
  ⟨d.countData.map fun c => c.rows.map fun _ => true,
    d.perIntervalSlices.map fun p => p.map fun slices => slices.map fun _ => true⟩

/-- The check of the constructor of `CuSel`: where both are there, there are as many
intervals of slices as rows. -/
def CuMonData.isConsistent (d : CuMonData) : Bool :=
  match d.countData, d.perIntervalSlices with
  | some c, some p => c.rows.length = p.length
  | _, _ => true

/-- A selection for each compute unit. -/
abbrev Sel := List (ℕ × CuSel)

/-! ## Steps -/

/-- The elements that overlap with the time from `start` to `end`, up to a number. -/
structure ByTimeStamp where
  start : ℕ
  «end» : ℕ
  maxNumElems : ℕ
  filterCountIntervals : Bool
  filterSliceIntervals : Bool
  deriving DecidableEq, Repr

/-- The fields as they are where nothing sets them. -/
def ByTimeStamp.default : ByTimeStamp :=
  ⟨kInvalidTimeStamp, kInvalidTimeStamp, 2 ^ 64 - 1, true, true⟩

inductive BinaryOpType where
  | or
  | and
  | xor
  deriving DecidableEq, Repr

def BinaryOpType.eval : BinaryOpType → Bool → Bool → Bool
  | .or, x, y => x || y
  | .and, x, y => x && y
  | .xor, x, y => x ^^ y

/-- The CPUs a step is restricted to. -/
abbrev CpuSet := List ℕ

/-- `CPU_ISSET`, for sets of `CPU_SETSIZE` CPUs. -/
def CpuSet.isSet (s : CpuSet) (cu : ℕ) : Bool := cu < 1024 && s.contains cu

/-- The steps.  A `BinaryOp` has a first and a second operand, and any number more. -/
inductive Step where
  | byTimeStamp (cpus : Option CpuSet) (f : ByTimeStamp)
  | trimSlices (cpus : Option CpuSet)
  | hasTagStackId (cpus : Option CpuSet) (toKeep : List ℕ) (keepInterval : Bool)
  | notOp (cpus : Option CpuSet) (operand : Step)
  | binaryOp (cpus : Option CpuSet) (op : BinaryOpType) (first second : Step)
      (rest : List Step)

def Step.cpus : Step → Option CpuSet
  | .byTimeStamp cpus _ => cpus
  | .trimSlices cpus => cpus
  | .hasTagStackId cpus _ _ => cpus
  | .notOp cpus _ => cpus
  | .binaryOp cpus _ _ _ _ => cpus

namespace ByTimeStamp

variable (f : ByTimeStamp)

/-- The position of the first of `num` elements to keep. -/
def startIdx (range : ℕ × ℕ) (num : ℕ) (findAt : ℕ → Option ℕ) : Except FilterFailure ℕ :=
  if f.start = kInvalidTimeStamp then pure 0
  else if range.2 ≤ f.start then pure num
  else deref (findAt f.start)

/-- The position of the last of `num` elements to keep. -/
def endIdx (range : ℕ × ℕ) (num : ℕ) (findAt : ℕ → Option ℕ) : Except FilterFailure ℕ :=
  if f.end = kInvalidTimeStamp then pure (sub64 num 1)
  else if f.end ≤ range.1 then pure 0
  else deref (findAt f.end)

/-- The inclusive positions of what is kept, of `num` elements that cover `range`.
They are 64 bit numbers, and the difference of the positions wraps around where the end
comes before the start. -/
def bounds (range : ℕ × ℕ) (num : ℕ) (findAt : ℕ → Option ℕ) :
    Except FilterFailure (ℕ × ℕ) := do
  let startIdx ← f.startIdx range num findAt
  let endIdx ← f.endIdx range num findAt
  -- The last position then counts from the first element, not from `startIdx`.
  pure (startIdx, if f.maxNumElems < u64 (sub64 endIdx startIdx + 1) then sub64 f.maxNumElems 1
    else endIdx)

def filterCounts (sel : CuSel) (d : CuMonData) : Except FilterFailure CuSel :=
  if sel.selCounts.isSome ≠ d.countData.isSome then throw .assertion
  else match sel.selCounts with
    | none => throw .invalidArgument
    | some counts => match d.getCountDataTimeStampRange with
      | none => pure sel
      | some range => do
        let (startIdx, endIdx) ← f.bounds range counts.length d.findCountAt
        if counts.length < startIdx ∨ counts.length < u64 (endIdx + 1) then throw .undefined
        else pure { sel with
          selCounts := some (fillFrom (u64 (endIdx + 1)) (fillBefore startIdx counts)) }

/-- Clear the flags of the intervals before a position. -/
def clearBefore : ℕ → List (List Bool) → List (List Bool)
  | n + 1, v :: sels => (v.map fun _ => false) :: clearBefore n sels
  | _, sels => sels

/-- Clear the flags of the intervals from a position on. -/
def clearFrom : ℕ → List (List Bool) → List (List Bool)
  | n + 1, v :: sels => v :: clearFrom n sels
  | _, sels => sels.map fun v => v.map fun _ => false

def filterSlices (sel : CuSel) (d : CuMonData) : Except FilterFailure CuSel :=
  if sel.selSlices.isSome ≠ d.perIntervalSlices.isSome then throw .assertion
  else match sel.selSlices with
    | none => throw .invalidArgument
    | some sels => match d.getPerIntervalSlicesTimeStampRange with
      | none => pure sel
      | some range => do
        let (startIdx, endIdx) ← f.bounds range sels.length d.findSliceIntervalAt
        if sels.length < startIdx then throw .undefined
        else pure { sel with
          selSlices := some (clearFrom (u64 (endIdx + 1)) (clearBefore startIdx sels)) }

def applyCu (sel : CuSel) (d : CuMonData) : Except FilterFailure CuSel :=
  (if f.filterCountIntervals then f.filterCounts sel d else pure sel) >>= fun newSel =>
    if f.filterSliceIntervals then f.filterSlices newSel d else pure newSel

end ByTimeStamp

/-- Clear the flags of the slices of intervals whose row is not selected. -/
def TrimSlices.applyCu (sel : CuSel) (d : CuMonData) : Except FilterFailure CuSel :=
  if sel.selCounts.isSome ≠ d.countData.isSome then throw .assertion
  else match sel.selCounts with
    | none => throw .invalidArgument
    | some selc =>
      if sel.selSlices.isSome ≠ d.perIntervalSlices.isSome then throw .assertion
      else match sel.selSlices with
        | none => throw .invalidArgument
        | some sels =>
          if selc.length ≠ sels.length then throw .assertion
          else pure { sel with
            selSlices := some (List.zipWith
              (fun c v => if c then v else v.map fun _ => false) selc sels) }

namespace HasTagStackId

variable (toKeep : List ℕ)

/-- Whether the stack of a slice is one to keep. -/
def kept (s : Slice) : Bool := toKeep.contains s.stackId

/-- Every flag of an interval is set if one of its slices is to be kept, and is cleared
otherwise. -/
def keepIntervals : PerIntervalSlices → List (List Bool) →
    Except FilterFailure (List (List Bool))
  | [], sels => pure sels
  | slices :: p, v :: sels => do
    let rest ← keepIntervals p sels
    pure ((v.map fun _ => slices.any (kept toKeep)) :: rest)
  | _ :: _, [] => throw .outOfRange

/-- The flags of the slices that are not to be kept are cleared. -/
def keepSlices : List Slice → List Bool → Except FilterFailure (List Bool)
  | [], v => pure v
  | s :: slices, b :: v => do
    let rest ← keepSlices slices v
    pure ((if kept toKeep s then b else false) :: rest)
  | s :: slices, [] => if kept toKeep s then keepSlices slices [] else throw .undefined

/-- An interval without a selection is looked up only if a slice of it is to go. -/
def keepAllSlices : PerIntervalSlices → List (List Bool) →
    Except FilterFailure (List (List Bool))
  | [], sels => pure sels
  | slices :: p, v :: sels => do
    let v' ← keepSlices toKeep slices v
    let rest ← keepAllSlices p sels
    pure (v' :: rest)
  | slices :: p, [] =>
    if slices.all (kept toKeep) then keepAllSlices p [] else throw .outOfRange

def applyCu (keepInterval : Bool) (sel : CuSel) (d : CuMonData) :
    Except FilterFailure CuSel :=
  match sel.selSlices with
  | none => throw .invalidArgument
  | some sels => match d.perIntervalSlices with
    | none => throw .assertion
    | some p => do
      let sels' ← if keepInterval then keepIntervals toKeep p sels
        else keepAllSlices toKeep p sels
      pure { sel with selSlices := some sels' }

end HasTagStackId

/-- Negate all flags. -/
def NotOp.flip (sel : CuSel) : CuSel :=
  ⟨sel.selCounts.map (List.map not), sel.selSlices.map (List.map (List.map not))⟩

namespace BinaryOp

variable (op : BinaryOpType)

/-- The loop over the flags of the rows.  The loop reads and writes at its iterators and
advances neither. -/
def combineCounts : ℕ → ℕ → ℕ → List Bool → List Bool → Except FilterFailure (List Bool)
  | 0, _, _, _, _ => throw .outOfFuel
  | fuel + 1, newIt, bIt, new, b =>
    if newIt = new.length then pure new
    else match new[newIt]?, b[bIt]? with
      | some x, some y => combineCounts fuel newIt bIt (new.set newIt (op.eval x y)) b
      | _, _ => throw .undefined

/-- The loop over the flags of the slices of one interval. -/
def combineSlices : List Bool → List Bool → Except FilterFailure (List Bool)
  | new, [] => pure new
  | x :: new, y :: b => do
    let rest ← combineSlices new b
    pure (op.eval x y :: rest)
  | [], _ :: _ => throw .undefined

/-- The loop over the intervals. -/
def combineIntervals : List (List Bool) → List (List Bool) →
    Except FilterFailure (List (List Bool))
  | new, [] => pure new
  | v :: new, w :: b => do
    let v' ← combineSlices op v w
    let rest ← combineIntervals new b
    pure (v' :: rest)
  | [], _ :: _ => throw .outOfRange

/-- A selection has counts and slices if the initial one has. -/
def checkPresent (sel newSel : CuSel) : Except FilterFailure Unit :=
  if sel.selCounts.isSome ≠ newSel.selCounts.isSome then throw .assertion
  else if sel.selSlices.isSome ≠ newSel.selSlices.isSome then throw .assertion
  else pure ()

/-- Combine where the operand has a selection. -/
def combineBoth {α : Type} (f : α → α → Except FilterFailure α) :
    Option α → Option α → Except FilterFailure (Option α)
  | some new, some b => some <$> f new b
  | none, some _ => throw .undefined
  | new, none => pure new

/-- Combine what is selected so far with the selection of the next operand. -/
def combine (fuel : ℕ) (sel newSel bSel : CuSel) : Except FilterFailure CuSel := do
  checkPresent sel bSel
  let counts ← combineBoth (combineCounts op fuel 0 0) newSel.selCounts bSel.selCounts
  let slices ← combineBoth (combineIntervals op) newSel.selSlices bSel.selSlices
  pure ⟨counts, slices⟩

end BinaryOp

mutual

/-- The selection of a step for a compute unit. -/
def Step.applyCu (fuel : ℕ) : Step → CuSel → CuMonData → Except FilterFailure CuSel
  | .byTimeStamp _ f, sel, d => f.applyCu sel d
  | .trimSlices _, sel, d => TrimSlices.applyCu sel d
  | .hasTagStackId _ toKeep keepInterval, sel, d =>
    HasTagStackId.applyCu toKeep keepInterval sel d
  | .notOp _ operand, sel, d => NotOp.flip <$> operand.applyCu fuel sel d
  | .binaryOp _ op first second rest, sel, d => do
    let newSel ← first.applyCu fuel sel d
    BinaryOp.checkPresent sel newSel
    let bSel ← second.applyCu fuel sel d
    let newSel ← BinaryOp.combine op fuel sel newSel bSel
    Step.applyRest fuel op sel d rest newSel

/-- The operands from the third one on. -/
def Step.applyRest (fuel : ℕ) (op : BinaryOpType) (sel : CuSel) (d : CuMonData) :
    List Step → CuSel → Except FilterFailure CuSel
  | [], newSel => pure newSel
  | o :: rest, newSel => do
    let bSel ← o.applyCu fuel sel d
    let newSel ← BinaryOp.combine op fuel sel newSel bSel
    Step.applyRest fuel op sel d rest newSel

end

/-! ## Chains of steps -/

/-- Whether the step is restricted to CPUs that do not include this one. -/
def Step.skips (step : Step) (cu : ℕ) : Bool :=
  match step.cpus with
  | none => false
  | some cpus => !cpus.isSet cu

/-- Apply a step to the data of one compute unit. -/
def Step.applyEntry (fuel : ℕ) (step : Step) (sel : Sel) (e : ℕ × CuMonData) :
    Except FilterFailure Sel :=
  if step.skips e.1 then pure sel
  else match Dict.get? sel e.1 with
    | none => throw .outOfRange
    | some s => do
      let s' ← step.applyCu fuel s e.2
      pure (Dict.put sel e.1 s')

section Chains

variable {τ μ : Type}

/-- Apply a step to the data of all compute units. -/
def Step.apply (fuel : ℕ) (step : Step) (initialSel : Sel) (md : MonData τ μ) :
    Except FilterFailure Sel :=
  md.perCuMonData.foldlM (step.applyEntry fuel) initialSel

/-- Apply the steps one after the other. -/
def applySteps (fuel : ℕ) (md : MonData τ μ) (steps : List Step) (sel : Sel) :
    Except FilterFailure Sel :=
  steps.foldlM (fun sel step => step.apply fuel sel md) sel

/-- The data with a data of a compute unit put in. -/
def MonData.putCu (md : MonData τ μ) (cu : ℕ) (d : CuMonData) : MonData τ μ :=
  { md with
    perCuMonData := Dict.put md.perCuMonData cu d
    nodup := Dict.nodup_put md.nodup }

/-- The data that describes a chain, and no data of a compute unit. -/
def MonData.bare (md : MonData τ μ) : MonData τ μ :=
  { md with perCuMonData := [], nodup := List.nodup_nil }

/-- The rows that are selected, if there are rows. -/
def CuMonData.selectRows (d : CuMonData) (sel : CuSel) : Except FilterFailure (Option CountData) :=
  match d.countData with
  | none => pure none
  | some c => do
    let counts ← deref sel.selCounts
    some <$> c.filter counts

/-- The slices that are selected, if there are slices. -/
def CuMonData.selectSlices (d : CuMonData) (sel : CuSel) :
    Except FilterFailure (Option PerIntervalSlices) :=
  match d.perIntervalSlices with
  | none => pure none
  | some p => do
    let sels ← deref sel.selSlices
    some <$> PerIntervalSlices.filter p sels

/-- The selected data of a compute unit. -/
def makeCuMonData (md : MonData τ μ) (cu : ℕ) (sel : CuSel) :
    Except FilterFailure CuMonData := do
  let d ← deref (Dict.get? md.perCuMonData cu)
  let cd ← d.selectRows sel
  let pislices ← d.selectSlices sel
  return ⟨cd, pislices⟩

def makeMonData (md : MonData τ μ) (sel : Sel) : Except FilterFailure (MonData τ μ) :=
  sel.foldlM
    (fun out e => do
      let d ← makeCuMonData md e.1 e.2
      pure (out.putCu e.1 d))
    md.bare

/-- All is selected. -/
def MonData.selectAll (md : MonData τ μ) : Sel :=
  md.perCuMonData.map fun e => (e.1, CuSel.ofCuMonData e.2)

/-- The data that a chain of steps leaves. -/
def FilterChain.apply (fuel : ℕ) (md : MonData τ μ) (steps : List Step) :
    Except FilterFailure (MonData τ μ) := do
  if !(md.perCuMonData.all fun e => e.2.isConsistent) then throw .invalidArgument
  let sel ← applySteps fuel md steps md.selectAll
  makeMonData md sel

end Chains

end Mon
end IntegratedCLI
