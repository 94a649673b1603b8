import Mathlib.Data.List.GetD
import IntegratedCLI.Lib.Run
import IntegratedCLI.Lib.Serving
import IntegratedCLI.PerfEvent.PerfEventsGroup

/-!
# Backpressure

A handler that refuses a record holds up the data area: `consume` is to stop before the
record, so that the kernel keeps it and the next call shows it again.  We run the kernel
and `consume` in any order, and keep the records that were written and those that were
looked at.

`Consumed.noneLost_iff` says in which runs no record is lost.  `consume` does not look
at what the handler for a name returns, and goes on behind the record: so these are the
runs in which no handler refuses a name.
-/

namespace IntegratedCLI
namespace PerfEvent

open RingMemory Serving

/-! ## Records as bytes -/

/-- The bytes of a record, and nothing behind them. -/
def pointerTo (record : List UInt8) : Pointer := fun i => record.getD i 0

/-- The header says how long the record is, and the kernel writes in words of eight
bytes. -/
structure WellFormed (record : List UInt8) : Prop where
  words : 8 ∣ record.length
  header : 8 ≤ record.length
  size : (EventHeader.ofPointer (pointerTo record)).size = record.length

instance : DecidablePred WellFormed := fun record =>
  decidable_of_iff (8 ∣ record.length ∧ 8 ≤ record.length ∧
      (EventHeader.ofPointer (pointerTo record)).size = record.length)
    ⟨fun ⟨hw, hh, hs⟩ => ⟨hw, hh, hs⟩, fun ⟨hw, hh, hs⟩ => ⟨hw, hh, hs⟩⟩

def typeOf (record : List UInt8) : RecordType :=
  RecordType.ofCode (EventHeader.ofPointer (pointerTo record)).type

theorem leAt_congr {p q : Pointer} {i n : ℕ} (h : ∀ j, i ≤ j → j < i + n → p j = q j) :
    leAt p i n = leAt q i n := by
  induction n generalizing i with
  | zero => rfl
  | succ n ih =>
    rw [leAt, leAt, h i (Nat.le_refl _) (by omega), ih fun j hj hj' => h j (by omega) (by omega)]

/-- The header is what the first eight bytes say. -/
theorem header_congr {p q : Pointer} (h : ∀ i < 8, p i = q i) :
    EventHeader.ofPointer p = EventHeader.ofPointer q := by
  rw [EventHeader.ofPointer, EventHeader.ofPointer,
    leAt_congr fun j _ hj => h j (by omega), leAt_congr fun j _ hj => h j (by omega)]

/-- The pointer is to the record. -/
def PointsTo (p : Pointer) (record : List UInt8) : Prop :=
  ∀ i < record.length, p i = pointerTo record i

section PointsTo

variable {p : Pointer} {r : List UInt8}

theorem PointsTo.header (h : PointsTo p r) (hr : WellFormed r) :
    EventHeader.ofPointer p = EventHeader.ofPointer (pointerTo r) :=
  header_congr fun i hi => h i (Nat.lt_of_lt_of_le hi hr.header)

theorem PointsTo.size (h : PointsTo p r) (hr : WellFormed r) :
    (EventHeader.ofPointer p).size = r.length := by
  rw [h.header hr, hr.size]

theorem PointsTo.recordAt (h : PointsTo p r) (hr : WellFormed r) : recordAt p = r := by
  rw [PerfEvent.recordAt, h.size hr]
  refine List.ext_getElem (by rw [List.length_map, List.length_range]) fun i hi hi' => ?_
  rw [List.getElem_map, List.getElem_range, h i hi', pointerTo, List.getD_eq_getElem _ _ hi']

end PointsTo

/-! ## Records in the data area -/

/-- The data area holds the records from the position to the head. -/
def Stored (m : MmapPage) : ℕ → List (List UInt8) → Prop
  | t, [] => t = m.dataHead
  | t, r :: rs =>
    WellFormed r ∧ 8 ∣ t ∧ r.length < m.dataSize ∧
      (∀ i < r.length, m.data ((t + i) % m.dataSize) = pointerTo r i) ∧ Stored m (t + r.length) rs

section Stored

variable {m : MmapPage} {t : ℕ} {r : List UInt8} {rs : List (List UInt8)}

theorem MmapPage.dvd_dataSize (m : MmapPage) : 8 ∣ m.dataSize :=
  Nat.pow_dvd_pow 2 m.logSize_ge

theorem MmapPage.dataSize_pos (m : MmapPage) : 0 < m.dataSize := Nat.two_pow_pos _

theorem MmapPage.mask (m : MmapPage) (n : ℕ) : n &&& m.dataOffsetMask = n % m.dataSize :=
  Nat.and_two_pow_sub_one_eq_mod n m.logSize

theorem Stored.head (h : Stored m t rs) : t + rs.flatten.length = m.dataHead := by
  induction rs generalizing t with
  | nil => exact h
  | cons r rs ih =>
    rw [List.flatten_cons, List.length_append, ← Nat.add_assoc]
    exact ih h.2.2.2.2

/-- **The record at the tail is found whole**, whether it wraps around or not. -/
theorem Stored.eventHeader (h : Stored m t (r :: rs)) : PointsTo (m.eventHeader t) r := by
  obtain ⟨hr, ht, hlen, hbytes, -⟩ := h
  have hpos := m.dataSize_pos
  have hdvd := m.dvd_dataSize
  have hbegin : t % m.dataSize < m.dataSize := Nat.mod_lt _ hpos
  have haligned : t % m.dataSize + 8 ≤ m.dataSize := by
    have h8 : 8 ∣ t % m.dataSize := (Nat.dvd_mod_iff hdvd).mpr ht
    omega
  have hheader := hr.header
  have hdirect : ∀ i < r.length, t % m.dataSize + i < m.dataSize →
      m.data (t % m.dataSize + i) = pointerTo r i := by
    intro i hi hin
    rw [← hbytes i hi, add_mod_eq (by omega), if_pos hin]
  have hfirst : (EventHeader.ofPointer fun i => m.data (t % m.dataSize + i)).size = r.length := by
    rw [header_congr (q := pointerTo r) fun i hi => hdirect i (by omega) (by omega), hr.size]
  intro i hi
  simp only [MmapPage.eventHeader, m.mask, hfirst]
  rw [add_mod_eq hlen]
  by_cases hw : t % m.dataSize + r.length < m.dataSize
  · rw [if_pos hw, if_neg (by omega)]
    exact hdirect i hi (by omega)
  · rw [if_neg hw, if_pos (by omega), List.getD_eq_getElem?_getD]
    by_cases hi' : i < m.dataSize - t % m.dataSize
    · rw [List.getElem?_append_left (by rw [List.length_map, List.length_range]; exact hi'),
        List.getElem?_map, List.getElem?_range hi']
      exact hdirect i hi (by omega)
    · rw [List.getElem?_append_right (by rw [List.length_map, List.length_range]; omega),
        List.length_map, List.length_range, List.getElem?_map, List.getElem?_range (by omega),
        ← hbytes i hi, add_mod_eq (by omega), if_neg (by omega)]
      show m.data _ = m.data _
      congr 1
      omega

/-- Records that are in their cells of the ring are stored. -/
theorem stored_of_holds {pre : List UInt8} {lo : ℕ}
    (h : Holds m.data m.dataSize lo (pre ++ rs.flatten)) (hlo : lo ≤ pre.length)
    (hpre : 8 ∣ pre.length) (hhead : m.dataHead = (pre ++ rs.flatten).length)
    (hroom : rs.flatten.length < m.dataSize) (hrs : ∀ r ∈ rs, WellFormed r) :
    Stored m pre.length rs := by
  induction rs generalizing pre with
  | nil =>
    rw [Stored, hhead, List.flatten_nil, List.append_nil]
  | cons r rs ih =>
    rw [List.flatten_cons, ← List.append_assoc] at h hhead
    rw [List.flatten_cons, List.length_append] at hroom
    have hr := hrs r (by simp)
    refine ⟨hr, hpre, by omega, fun i hi => ?_, ?_⟩
    · have hlt : pre.length + i < (pre ++ r ++ rs.flatten).length := by
        simp only [List.length_append]
        omega
      rw [h (pre.length + i) hlt (by omega),
        List.getElem_append_left (by rw [List.length_append]; omega),
        List.getElem_append_right (Nat.le_add_right _ _), pointerTo, List.getD_eq_getElem _ _ hi]
      simp only [Nat.add_sub_cancel_left]
    · rw [← List.length_append]
      refine ih h (by rw [List.length_append]; omega) ?_ hhead (by omega)
        fun r' hr' => hrs r' (by simp [hr'])
      rw [List.length_append]
      exact Nat.dvd_add hpre hr.words

end Stored

/-! ## What a call looks at -/

namespace Visit

/-- The handler refused the record. -/
def refused (v : Visit) : Bool :=
  match v.answer with
  | some a => a < 0
  | none => false

/-- `consume` is left at the record. -/
def exits (v : Visit) : Bool := v.refused && typeOf v.record ≠ .comm

end Visit

section Loop

variable {σ : Type} {handle : Handlers σ} {m : MmapPage} {l : Loop σ} {p : Pointer}
  {r : List UInt8} {rs : List (List UInt8)} {t n : ℕ}

/-- What becomes of a record that is looked at. -/
def ask (handle : Handlers σ) (gen : σ) (record : List UInt8) : Visit × σ :=
  if (typeOf record).handled then
    (⟨record, some (handle gen (typeOf record) record).1⟩, (handle gen (typeOf record) record).2)
  else (⟨record, none⟩, gen)

theorem ask_record (gen : σ) (record : List UInt8) : (ask handle gen record).1.record = record := by
  rw [ask]
  split_ifs <;> rfl

/-- What a round of the loop does to its variables. -/
structure Asked (handle : Handlers σ) (l : Loop σ) (r : List UInt8) (l' : Loop σ × Bool) :
    Prop where
  visits : l'.1.visits = l.visits ++ [(ask handle l.gen r).1]
  gen : l'.1.gen = (ask handle l.gen r).2
  dataTail : l'.1.dataTail = l.dataTail
  exits : l'.2 = (ask handle l.gen r).1.exits

theorem ask_refused {type : RecordType} (ht : typeOf r = type) (hh : type.handled = true) :
    (ask handle l.gen r).1.refused = decide ((handle l.gen type r).1 < 0) := by
  subst ht
  rw [ask, if_pos hh]
  rfl

section Asked

variable (h : PointsTo p r) (hr : WellFormed r)

include h hr

theorem callHandler_eq {type : RecordType} (ht : typeOf r = type) (hh : type.handled = true) :
    callHandler handle type p l
      = { l with
          err := (handle l.gen type r).1
          gen := (ask handle l.gen r).2
          visits := l.visits ++ [(ask handle l.gen r).1] } := by
  subst ht
  rw [callHandler, h.recordAt hr, ask, if_pos hh]

theorem handleOrExit_asked {type : RecordType} (ht : typeOf r = type) (hh : type.handled = true)
    (hc : type ≠ .comm) (f : RecordCounts → RecordCounts) :
    Asked handle l r (handleOrExit handle type f p l) := by
  have hexits : (ask handle l.gen r).1.exits = decide ((handle l.gen type r).1 < 0) := by
    rw [Visit.exits, ask_refused ht hh, ask_record, ht, decide_eq_true hc, Bool.and_true]
  rw [handleOrExit, callHandler_eq h hr ht hh]
  dsimp only
  split_ifs with herr
  · exact ⟨rfl, rfl, rfl, by rw [hexits, decide_eq_true herr]⟩
  · exact ⟨rfl, rfl, rfl, by rw [hexits, decide_eq_false herr]⟩

theorem pass_asked (hh : (typeOf r).handled = false) (f : RecordCounts → RecordCounts) :
    Asked handle l r ((pass p l).count f, false) := by
  have hask : ask handle l.gen r = (⟨r, none⟩, l.gen) := by
    rw [ask, if_neg (by rw [hh]; exact Bool.false_ne_true)]
  constructor
  · rw [hask]
    show l.visits ++ [⟨recordAt p, none⟩] = _
    rw [h.recordAt hr]
  · rw [hask]
    rfl
  · rfl
  · rw [hask]
    rfl

/-- **The loop is left at a record that is refused, unless it is a name.** -/
theorem dispatch_asked : Asked handle l r (dispatch handle p l) := by
  have htype : RecordType.ofCode (EventHeader.ofPointer p).type = typeOf r := by
    rw [h.header hr, typeOf]
  rw [dispatch, htype]
  cases ht : typeOf r with
  | lost => exact handleOrExit_asked h hr ht rfl (by decide) _
  | comm =>
    have hexits : (ask handle l.gen r).1.exits = false := by
      rw [Visit.exits, ask_record, ht]
      exact Bool.and_false _
    dsimp only
    rw [callHandler_eq h hr ht rfl]
    exact ⟨rfl, rfl, rfl, hexits.symm⟩
  | exit => exact handleOrExit_asked h hr ht rfl (by decide) _
  | throttle => exact pass_asked h hr (by rw [ht]; rfl) _
  | unthrottle => exact pass_asked h hr (by rw [ht]; rfl) _
  | fork => exact handleOrExit_asked h hr ht rfl (by decide) _
  | switchCpuWide => exact handleOrExit_asked h hr ht rfl (by decide) _
  | other => exact pass_asked h hr (by rw [ht]; rfl) id

end Asked

/-- What the loop does to its variables. -/
structure Looped (handle : Handlers σ) (l : Loop σ) (rs : List (List UInt8)) (l' : Loop σ) :
    Prop where
  visits : l'.visits = l.visits ++ (serve (ask handle) Visit.exits l.gen rs).1
  gen : l'.gen = (serve (ask handle) Visit.exits l.gen rs).2
  dataTail : l'.dataTail = l.dataTail
    + ((passed Visit.exits (serve (ask handle) Visit.exits l.gen rs).1).map
        Visit.record).flatten.length

/-- **The loop looks at one record after the other**, until it is left or has looked at
as many as it may. -/
theorem consumeLoop_looped (h : Stored m l.dataTail rs) :
    Looped handle l (rs.take n) (consumeLoop handle m n l).1 := by
  induction n generalizing l rs with
  | zero =>
    rw [List.take_zero]
    exact ⟨(List.append_nil _).symm, rfl, rfl⟩
  | succ n ih =>
    cases rs with
    | nil =>
      rw [consumeLoop, if_neg (Nat.not_lt.mpr (Nat.le_of_eq h.symm))]
      exact ⟨(List.append_nil _).symm, rfl, rfl⟩
    | cons r rs =>
      have hr : WellFormed r := h.1
      have hhead := h.head
      rw [List.flatten_cons, List.length_append] at hhead
      have hlt : l.dataTail < m.dataHead := by
        have := hr.header
        omega
      have hp := h.eventHeader
      obtain ⟨hvisits, hgen, htail, hexits⟩ : Asked handle l r
        (dispatch handle (m.eventHeader l.dataTail) l) := dispatch_asked hp hr
      rw [consumeLoop, if_pos hlt, List.take_succ_cons]
      dsimp only
      rw [hp.size hr]
      cases hd : dispatch handle (m.eventHeader l.dataTail) l with
      | mk l' b =>
        rw [hd] at hvisits hgen htail hexits
        cases b with
        | true =>
          have hs := hexits.symm
          refine ⟨?_, ?_, ?_⟩
          · rw [serve_cons_of_stops hs]
            exact hvisits
          · rw [serve_cons_of_stops hs]
            exact hgen
          · rw [serve_cons_of_stops hs, passed, List.filter_singleton, hs]
            exact htail
        | false =>
          have hs := hexits.symm
          have hstored : Stored m (l'.dataTail + r.length) rs := by
            rw [show l'.dataTail = l.dataTail from htail]
            exact h.2.2.2.2
          obtain ⟨hv, hg, ht⟩ := @ih { l' with
            numRecords := l'.numRecords + 1
            dataTail := l'.dataTail + r.length } rs hstored
          dsimp only at hv hg ht hvisits hgen htail
          refine ⟨?_, ?_, ?_⟩
          · rw [serve_cons_of_not_stops hs, ← hgen]
            refine hv.trans ?_
            rw [hvisits, List.append_assoc]
            rfl
          · rw [serve_cons_of_not_stops hs, ← hgen]
            exact hg
          · rw [serve_cons_of_not_stops hs, ← hgen, passed,
              List.filter_cons_of_pos (by rw [hs]; rfl), List.map_cons, List.flatten_cons,
              List.length_append, ask_record, ← Nat.add_assoc, ← htail]
            exact ht

end Loop

/-! ## Runs -/

/-- A group with the records that the kernel wrote, and what `consume` looked at. -/
structure Consumed (σ : Type) where
  group : PerfEventsGroup σ
  written : List (List UInt8)
  visits : List Visit

/-- What happens to a group. -/
inductive Activity where
  | write (record : List UInt8)
  | consume (maxNumRecords : ℕ)
  deriving DecidableEq, Repr

namespace Consumed

variable {σ : Type}

/-- A group whose data area is empty, with its counters at a position, which is counted in
words. -/
def start (logSize : ℕ) (h : 3 ≤ logSize) (data : Pointer) (pos : ℕ) (gen : σ) : Consumed σ :=
  ⟨⟨⟨logSize, data, 8 * pos, 8 * pos, h⟩, gen, ⟨0, 0, 0, 0, 0, 0, 0⟩⟩, [], []⟩

variable (handle : Handlers σ)

/-- What a call looks at. -/
def looksAt (c : Consumed σ) (maxNumRecords : ℕ) : List Visit :=
  (c.group.loop handle maxNumRecords).1.visits

def step (c : Consumed σ) : Activity → Consumed σ
  | .write record =>
    { c with
      group := { c.group with mmap := c.group.mmap.put record }
      written := c.written ++ [record] }
  | .consume maxNumRecords =>
    { c with
      group := (c.group.consume handle maxNumRecords).2
      visits := c.visits ++ c.looksAt handle maxNumRecords }

/-- The kernel writes a record if there is more room than it takes. -/
def Fits (c : Consumed σ) : Activity → Prop
  | .write record =>
    WellFormed record ∧
      c.group.mmap.dataHead + record.length < c.group.mmap.dataTail + c.group.mmap.dataSize
  | .consume _ => True

/-- The records that were looked at and not refused. -/
def accepted (c : Consumed σ) : List (List UInt8) :=
  (passed Visit.refused c.visits).map Visit.record

/-- The records that were written and not accepted. -/
def pending (c : Consumed σ) : List (List UInt8) := c.written.drop c.accepted.length

/-- The records that were accepted are the first that were written, and the tail is behind
the last of them. -/
structure NoneLost (pos : ℕ) (c : Consumed σ) : Prop where
  inOrder : c.accepted <+: c.written
  tail : c.group.mmap.dataTail = 8 * pos + c.accepted.flatten.length

/-- A call shows the handlers the records that are pending, in order and with their bytes,
until one is refused. -/
def InTurn (c : Consumed σ) : Activity → Prop
  | .write _ => True
  | .consume n =>
    c.looksAt handle n = (serve (ask handle) Visit.refused c.group.gen (c.pending.take n)).1

/-- The first of the pending records that is refused, if a call gets to it, is not a
name. -/
def NoNameRefused (c : Consumed σ) : Activity → Prop
  | .write _ => True
  | .consume n =>
    ∀ v ∈ (serve (ask handle) Visit.refused c.group.gen (c.pending.take n)).1,
      v.refused = true → typeOf v.record ≠ .comm

instance (c : Consumed σ) : DecidablePred c.Fits
  | .write _ => inferInstanceAs (Decidable (_ ∧ _))
  | .consume _ => isTrue trivial

instance (pos : ℕ) (c : Consumed σ) : Decidable (c.NoneLost pos) :=
  decidable_of_iff (c.accepted <+: c.written ∧
      c.group.mmap.dataTail = 8 * pos + c.accepted.flatten.length)
    ⟨fun ⟨hi, ht⟩ => ⟨hi, ht⟩, fun ⟨hi, ht⟩ => ⟨hi, ht⟩⟩

instance (c : Consumed σ) : DecidablePred (c.NoNameRefused handle)
  | .write _ => isTrue trivial
  | .consume n =>
    inferInstanceAs (Decidable (∀ v ∈
      (serve (ask handle) Visit.refused c.group.gen (c.pending.take n)).1,
        v.refused = true → typeOf v.record ≠ .comm))

/-- The records that `consume` is done with. -/
def done (c : Consumed σ) : List (List UInt8) := (passed Visit.exits c.visits).map Visit.record

/-- What holds in every run. -/
structure Buffered (pos : ℕ) (c : Consumed σ) : Prop where
  wellFormed : ∀ r ∈ c.written, WellFormed r
  head : c.group.mmap.dataHead = 8 * pos + c.written.flatten.length
  holds : Holds c.group.mmap.data c.group.mmap.dataSize c.group.mmap.dataTail
    (List.replicate (8 * pos) 0 ++ c.written.flatten)
  done : c.done <+: c.written
  tail : c.group.mmap.dataTail = 8 * pos + c.done.flatten.length
  room : c.group.mmap.dataHead < c.group.mmap.dataTail + c.group.mmap.dataSize

theorem dvd_length_flatten {rs : List (List UInt8)} (h : ∀ r ∈ rs, 8 ∣ r.length) :
    8 ∣ rs.flatten.length := by
  induction rs with
  | nil => exact Nat.dvd_zero 8
  | cons r rs ih =>
    rw [List.flatten_cons, List.length_append]
    exact Nat.dvd_add (h r (by simp)) (ih fun r' hr' => h r' (by simp [hr']))

section Buffered

variable {handle : Handlers σ} {pos : ℕ} {c : Consumed σ}

/-- The records that `consume` has not looked at, or is not done with. -/
def rest (c : Consumed σ) : List (List UInt8) := c.written.drop c.done.length

theorem Buffered.written_eq (h : c.Buffered pos) : c.done ++ c.rest = c.written := by
  obtain ⟨t, ht⟩ := h.done
  rw [rest, ← ht, List.drop_left]

theorem Buffered.flatten_eq (h : c.Buffered pos) :
    c.written.flatten.length = c.done.flatten.length + c.rest.flatten.length := by
  rw [← h.written_eq, List.flatten_append, List.length_append]

theorem buffered_start (logSize : ℕ) (hl : 3 ≤ logSize) (data : Pointer) (pos : ℕ) (gen : σ) :
    (start logSize hl data pos gen).Buffered pos where
  wellFormed r hr := by cases hr
  head := rfl
  holds i hi hlo := by
    have hlen : (List.replicate (8 * pos) (0 : UInt8) ++ List.flatten []).length = 8 * pos := by
      rw [List.flatten_nil, List.append_nil, List.length_replicate]
    exact absurd (Nat.lt_of_lt_of_eq hi hlen) (Nat.not_lt.mpr hlo)
  done := List.prefix_rfl
  tail := rfl
  room := Nat.lt_add_of_pos_right (Nat.two_pow_pos _)

theorem Buffered.stored (h : c.Buffered pos) :
    Stored c.group.mmap c.group.mmap.dataTail c.rest := by
  have hpre : (List.replicate (8 * pos) (0 : UInt8) ++ c.done.flatten).length
      = c.group.mmap.dataTail := by
    rw [List.length_append, List.length_replicate, h.tail]
  have hdone : 8 ∣ c.done.flatten.length :=
    dvd_length_flatten fun r hr => (h.wellFormed r (h.done.subset hr)).words
  have hroom := h.room
  have hflat := h.flatten_eq
  have hhead := h.head
  have htail := h.tail
  have hholds := h.holds
  rw [← h.written_eq, List.flatten_append, ← List.append_assoc] at hholds
  rw [← hpre]
  refine stored_of_holds hholds (Nat.le_of_eq hpre.symm) ?_ ?_ (by omega) fun r hr => ?_
  · rw [List.length_append, List.length_replicate]
    exact Nat.dvd_add ⟨pos, rfl⟩ hdone
  · rw [List.length_append, List.length_append, List.length_replicate]
    omega
  · exact h.wellFormed r (List.mem_of_mem_drop hr)

/-- What a call does. -/
theorem Buffered.looped (h : c.Buffered pos) (n : ℕ) :
    Looped handle ⟨0, 0, c.group.mmap.dataTail, c.group.gen, c.group.counts, []⟩ (c.rest.take n)
      (c.group.loop handle n).1 :=
  consumeLoop_looped h.stored

theorem Buffered.looksAt_eq (h : c.Buffered pos) (n : ℕ) :
    c.looksAt handle n = (serve (ask handle) Visit.exits c.group.gen (c.rest.take n)).1 :=
  (h.looped n).visits.trans (List.nil_append _)

theorem done_consume (n : ℕ) :
    (c.step handle (.consume n)).done
      = c.done ++ (passed Visit.exits (c.looksAt handle n)).map Visit.record := by
  show (passed Visit.exits (c.visits ++ c.looksAt handle n)).map Visit.record = _
  rw [passed, List.filter_append, List.map_append]
  rfl

theorem Buffered.write (h : c.Buffered pos) {r : List UInt8} (hf : c.Fits (.write r)) :
    (c.step handle (.write r)).Buffered pos := by
  obtain ⟨hr, hroom⟩ := hf
  have hhead := h.head
  have htail := h.tail
  have hflat := h.flatten_eq
  have hlen : (List.replicate (8 * pos) (0 : UInt8) ++ c.written.flatten).length
      = c.group.mmap.dataHead := by
    rw [List.length_append, List.length_replicate, hhead]
  have hwritten : (c.written ++ [r]).flatten = c.written.flatten ++ r := by
    rw [List.flatten_append, List.flatten_singleton]
  constructor
  · intro r' hr'
    rcases List.mem_append.mp hr' with hr' | hr'
    · exact h.wellFormed r' hr'
    · rw [List.mem_singleton.mp hr']
      exact hr
  · show c.group.mmap.dataHead + r.length = 8 * pos + (c.written ++ [r]).flatten.length
    rw [hwritten, List.length_append]
    omega
  · show Holds _ c.group.mmap.dataSize c.group.mmap.dataTail
      (List.replicate (8 * pos) 0 ++ (c.written ++ [r]).flatten)
    rw [hwritten, ← List.append_assoc]
    refine h.holds.append (by omega) (by rw [List.length_append]; omega) fun a ha => ?_
    show (if a < c.group.mmap.dataSize then _ else _) = _
    rw [if_pos ha, hlen]
  · exact h.done.trans (List.prefix_append _ _)
  · exact htail
  · show c.group.mmap.dataHead + r.length < _
    exact hroom

theorem Buffered.consume (h : c.Buffered pos) (n : ℕ) :
    (c.step handle (.consume n)).Buffered pos := by
  have hnew : (passed Visit.exits (c.looksAt handle n)).map Visit.record <+: c.rest := by
    rw [h.looksAt_eq]
    exact (serve_passed ask_record).trans (List.take_prefix _ _)
  have hdone : (c.step handle (.consume n)).done <+: c.written := by
    rw [done_consume, ← h.written_eq]
    exact (List.prefix_append_right_inj _).mpr hnew
  have htail : (c.step handle (.consume n)).group.mmap.dataTail
      = 8 * pos + (c.step handle (.consume n)).done.flatten.length := by
    have hloop := (@looped _ handle _ _ h n).dataTail
    rw [← h.looksAt_eq] at hloop
    rw [done_consume, List.flatten_append, List.length_append, ← Nat.add_assoc, ← h.tail]
    exact hloop
  have hle : c.group.mmap.dataTail ≤ (c.step handle (.consume n)).group.mmap.dataTail := by
    rw [htail, done_consume, List.flatten_append, List.length_append, h.tail]
    omega
  exact
    { wellFormed := h.wellFormed
      head := h.head
      holds := h.holds.mono hle
      done := hdone
      tail := htail
      room := Nat.lt_of_lt_of_le h.room (Nat.add_le_add_right hle _) }

/-- **The step lemma.**  The data area holds what is written and not done with. -/
theorem Buffered.step (h : c.Buffered pos) {a : Activity} (hf : c.Fits a) :
    (c.step handle a).Buffered pos := by
  cases a with
  | write r => exact h.write hf
  | consume n => exact h.consume n

end Buffered

/-! ## Names that are refused -/

section Names

variable {handle : Handlers σ} {pos : ℕ} {c : Consumed σ}

/-- No name that was looked at was refused. -/
def NamesAccepted (c : Consumed σ) : Prop := ∀ v ∈ c.visits, v.exits = v.refused

theorem exits_eq_refused {v : Visit} :
    v.exits = v.refused ↔ (v.refused = true → typeOf v.record ≠ .comm) := by
  rw [Visit.exits]
  cases v.refused <;> simp

/-- Then `consume` is done with a record exactly if it was accepted. -/
theorem NamesAccepted.accepted_eq (h : c.NamesAccepted) : c.accepted = c.done := by
  rw [accepted, done, passed, passed]
  congr 1
  exact List.filter_congr fun v hv => by rw [h v hv]

/-- Of two parts of a list of records that are as long in bytes the one is the other. -/
theorem eq_of_length_flatten {xs ys zs : List (List UInt8)} (hz : ∀ r ∈ zs, WellFormed r)
    (hx : xs <+: zs) (hy : ys <+: zs) (hlen : xs.flatten.length = ys.flatten.length) :
    xs = ys := by
  have key : ∀ {us vs : List (List UInt8)}, vs <+: zs → us <+: vs →
      us.flatten.length = vs.flatten.length → us = vs := by
    intro us vs hv huv hlen
    obtain ⟨t, rfl⟩ := huv
    cases t with
    | nil => rw [List.append_nil]
    | cons r t =>
      have hr := (hz r (hv.subset (by simp))).header
      simp only [List.flatten_append, List.flatten_cons, List.length_append] at hlen
      omega
  rcases List.prefix_or_prefix_of_prefix hx hy with h | h
  · exact key hy h hlen
  · exact (key hx h hlen.symm).symm

/-- If no record is lost, then no name was refused. -/
theorem Buffered.namesAccepted (h : c.Buffered pos) (hn : c.NoneLost pos) : c.NamesAccepted := by
  have htail := hn.tail
  rw [h.tail] at htail
  have heq : c.accepted = c.done :=
    eq_of_length_flatten h.wellFormed hn.inOrder h.done (by omega)
  have hsub : passed Visit.refused c.visits
      = (passed Visit.exits c.visits).filter fun v => !v.refused := by
    rw [passed, passed, List.filter_filter]
    refine List.filter_congr fun v _ => ?_
    rw [Visit.exits]
    cases v.refused <;> rfl
  have hlen := congrArg List.length heq
  rw [accepted, Consumed.done, List.length_map, List.length_map, hsub] at hlen
  have hall := List.length_filter_eq_length_iff.mp hlen
  intro v hv
  refine exits_eq_refused.mpr fun hr hc => ?_
  have hexits : v.exits = false := by
    rw [Visit.exits, hc]
    exact Bool.and_false _
  have := hall v (List.mem_filter.mpr ⟨hv, by rw [hexits]; rfl⟩)
  rw [hr] at this
  exact Bool.false_ne_true this

theorem Buffered.noneLost (h : c.Buffered pos) (hn : c.NamesAccepted) : c.NoneLost pos := by
  constructor
  · rw [hn.accepted_eq]
    exact h.done
  · rw [hn.accepted_eq]
    exact h.tail

/-- A call looks at the records up to the first that is refused, if this is not a name. -/
theorem Buffered.inTurn (h : c.Buffered pos) (hn : c.NamesAccepted) {a : Activity}
    (hc : c.NoNameRefused handle a) : c.InTurn handle a := by
  cases a with
  | write r => trivial
  | consume n =>
    show c.looksAt handle n = _
    rw [h.looksAt_eq, pending, hn.accepted_eq]
    have hcongr := hc
    rw [NoNameRefused, pending, hn.accepted_eq] at hcongr
    exact congrArg Prod.fst (serve_congr fun v hv => exits_eq_refused.mpr (hcongr v hv))

theorem Buffered.namesAccepted_step (h : c.Buffered pos) (hn : c.NamesAccepted) (a : Activity) :
    (c.step handle a).NamesAccepted ↔ c.NoNameRefused handle a := by
  cases a with
  | write r => exact ⟨fun _ => trivial, fun _ => hn⟩
  | consume n =>
    constructor
    · intro hs
      have hnew : ∀ v ∈ c.looksAt handle n, v.refused = v.exits := fun v hv =>
        (hs v (List.mem_append_right _ hv)).symm
      rw [h.looksAt_eq] at hnew
      rw [NoNameRefused, pending, hn.accepted_eq]
      show ∀ v ∈ (serve (ask handle) Visit.refused c.group.gen (c.rest.take n)).1, _
      rw [serve_congr hnew]
      exact fun v hv => exits_eq_refused.mp (hnew v hv).symm
    · intro hc v hv
      rcases List.mem_append.mp hv with hv | hv
      · exact hn v hv
      · rw [h.inTurn hn hc] at hv
        exact exits_eq_refused.mpr (hc v hv)

/-- **No record is lost in exactly the runs in which no name is refused.**  In these runs
the handlers see the records in order, a record that is refused is the first that the
next call shows, and the tail is behind the last record that was accepted. -/
theorem noneLost_iff (handle : Handlers σ) (logSize : ℕ) (hl : 3 ≤ logSize) (data : Pointer)
    (pos : ℕ) (gen : σ) (run : List Activity)
    (hf : Run.Along (step handle) Fits (start logSize hl data pos gen) run) :
    (Run.Throughout (step handle) (NoneLost pos) (start logSize hl data pos gen) run ∧
        Run.Along (step handle) (InTurn handle) (start logSize hl data pos gen) run) ↔
      Run.Along (step handle) (NoNameRefused handle) (start logSize hl data pos gen) run := by
  have hstart := buffered_start logSize hl data pos gen
  have hnone : (start logSize hl data pos gen).NamesAccepted := fun v hv => by cases hv
  have hiff := @Run.throughout_iff_along_of_valid _ _ (step handle) (NoNameRefused handle)
    (NoneLost pos) (start logSize hl data pos gen) run
    (fun c => c.Buffered pos ∧ c.NamesAccepted) Fits
    (fun c a h hfit hc => ⟨h.1.step hfit, (h.1.namesAccepted_step h.2 a).mpr hc⟩)
    (fun c h => h.1.noneLost h.2)
    (fun c a h hfit hc hn => hc ((h.1.namesAccepted_step h.2 a).mp
      ((h.1.step hfit).namesAccepted hn)))
    ⟨hstart, hnone⟩ hf
  refine ⟨fun h => hiff.mp h.1, fun h => ⟨hiff.mpr h, ?_⟩⟩
  exact Run.along_of_inv
    (fun c a (hc : c.Buffered pos ∧ c.NamesAccepted) ha =>
      ⟨hc.1.step ha.1, (hc.1.namesAccepted_step hc.2 a).mpr ha.2⟩)
    (fun c a hc ha => hc.1.inTurn hc.2 ha.2) ⟨hstart, hnone⟩ (hf.and h)

/-- Handlers that answer with the numbers of a list. -/
def scripted : Handlers (List ℤ) := fun answers _ _ => (answers.headD 0, answers.tail)

/-- A record of the type and size, with zeros behind its header. -/
def recordOf (type size : UInt8) : List UInt8 :=
  [type, 0, 0, 0, 0, 0, size, 0] ++ List.replicate (size.toNat - 8) 0

/-- A name that wraps around, a fork that is refused once, and a throttling. -/
def wrappedRun : List Activity :=
  [.write (recordOf 3 40), .consume 2, .write (recordOf 7 48), .consume 2, .consume 2,
    .write (recordOf 5 32), .write (recordOf 15 24), .consume 1, .consume 1]

theorem noneLost_wrappedRun :
    Run.Throughout (step scripted) (NoneLost 5)
        (start 6 (by decide) (fun _ => 0) 5 [0, -28, 0, 0]) wrappedRun ∧
      Run.Along (step scripted) (InTurn scripted)
        (start 6 (by decide) (fun _ => 0) 5 [0, -28, 0, 0]) wrappedRun :=
  (noneLost_iff scripted 6 (by decide) (fun _ => 0) 5 [0, -28, 0, 0] wrappedRun
    (by decide +kernel)).mpr (by decide +kernel)

/-- A name that is refused is passed over, although the call returns the error: the next
call shows the record behind it. -/
theorem name_passed_over :
    let c := start 7 (by decide) (fun _ => 0) 0 [-28, 0]
    let run := [Activity.write (recordOf 3 40), .write (recordOf 15 32), .consume 1, .consume 1]
    let c₁ := (run.take 2).foldl (step scripted) c
    let c₂ := (run.take 3).foldl (step scripted) c
    Run.Along (step scripted) Fits c run ∧ (c₁.group.consume scripted 1).1 = -28 ∧
      c₂.accepted = [] ∧ c₂.group.mmap.dataTail = 40 ∧ ¬ c₂.NoneLost 0 ∧
      c₂.looksAt scripted 1 = [⟨recordOf 15 32, some 0⟩] := by
  decide +kernel

end Names

end Consumed

end PerfEvent
end IntegratedCLI
