import Mathlib.Data.List.Flatten
import IntegratedCLI.Lib.LittleEndian
import IntegratedCLI.Lib.Widths

/-!
# Messages on a socket

`ClientSocketWrapper` of `dynolog/src/rpc` reads a message, and writes a response, behind
its length: an `int32_t` as it lies in memory, the lowest byte first.  A `read` returns
some of the bytes that were asked for, and a `write` takes some of those that it is given.

`get_message` and `send_response` go on reading and writing the body until it is complete.
The length they read and write once.  `framing_iff` says that the body survives every way
of splitting, and the length only where the first call takes all of it: of a length that
is cut, the bytes that are missing stay those of `-1`, so that it is negative, and the
bytes that were not written are left out.
-/

namespace IntegratedCLI
namespace Dynolog

open LittleEndian Widths

/-- What a read finds. -/
inductive Arrival where
  | bytes (chunk : List UInt8)
  | error
  deriving DecidableEq, Repr

/-- How many bytes a write takes. -/
inductive Room where
  | upTo (n : ℕ)
  | error
  deriving DecidableEq, Repr

/-- The two directions of a connection: what the next reads find, what the next writes
take, and what was written.  After the last arrival the connection is closed, and once
nothing more is said about writes they take everything. -/
structure ClientSocketWrapper where
  arrivals : List Arrival
  room : List Room
  written : List UInt8
  deriving DecidableEq, Repr

namespace ClientSocketWrapper

/-- `::read` of so many bytes: what it returns, and the bytes. -/
def read (s : ClientSocketWrapper) (size : ℕ) : ℤ × List UInt8 × ClientSocketWrapper :=
  match s.arrivals with
  | [] => (0, [], s)
  | .error :: rest => (-1, [], { s with arrivals := rest })
  | .bytes chunk :: rest =>
    ((chunk.take size).length, chunk.take size,
      { s with arrivals := if chunk.length ≤ size then rest else .bytes (chunk.drop size) :: rest })

/-- `::write` of some bytes. -/
def write (s : ClientSocketWrapper) (buf : List UInt8) : ℤ × ClientSocketWrapper :=
  match s.room with
  | [] => (buf.length, { s with written := s.written ++ buf })
  | .error :: rest => (-1, { s with room := rest })
  | .upTo n :: rest =>
    ((buf.take n).length, { s with room := rest, written := s.written ++ buf.take n })

theorem read_lt {s : ClientSocketWrapper} {size : ℕ} (h : 0 < (s.read size).1) :
    0 < (s.read size).2.1.length := by
  rw [read] at h ⊢
  split at h
  · exact absurd h (Int.lt_irrefl 0)
  · exact absurd h (show ¬ (0 : ℤ) < -1 by decide)
  · exact Int.natCast_pos.mp h

/-! ## Messages -/

/-- The bytes of `msg_size` once the read has filled in some of them. -/
def sizeBytes (got : List UInt8) : List UInt8 := got ++ (List.replicate 4 255).drop got.length

/-- The loop that reads the body: the bytes that were received, and what the last read
returned. -/
def readBody (s : ClientSocketWrapper) (msgSize : ℕ) (message : List UInt8) (ret : ℤ) :
    List UInt8 × ClientSocketWrapper :=
  if _h : message.length < msgSize ∧ 0 < ret then
    let r := s.read (msgSize - message.length)
    readBody r.2.2 msgSize (message ++ r.2.1) r.1
  else (message, s)
termination_by 2 * (msgSize - message.length) + if 0 < ret then 1 else 0
decreasing_by
  have hlt := @read_lt s (msgSize - message.length)
  rw [List.length_append, if_pos _h.2]
  split
  · have := hlt ‹_›
    omega
  · omega

def getMessage (s : ClientSocketWrapper) : List UInt8 × ClientSocketWrapper :=
  let r := s.read 4
  let msgSize := signed 32 (ofBytes (sizeBytes r.2.1))
  if r.1 = 0 ∨ msgSize ≤ 0 then ([], r.2.2)
  else
    let body := readBody r.2.2 msgSize.toNat [] 1
    if (body.1.length : ℤ) ≠ msgSize then ([], body.2) else body

/-- The loop that writes the body: how many bytes were sent, and what the last write
returned. -/
def writeBody (s : ClientSocketWrapper) (response : List UInt8) (size : ℤ) (sent : ℕ) (ret : ℤ) :
    ℕ × ℤ × ClientSocketWrapper :=
  if _h : (sent : ℤ) < size ∧ 0 < ret then
    let r := s.write ((response.drop sent).take (size.toNat - sent))
    if r.1 = -1 then (sent, r.1, r.2) else writeBody r.2 response size (sent + r.1.toNat) r.1
  else (sent, ret, s)
termination_by 2 * (size.toNat - sent) + if 0 < ret then 1 else 0
decreasing_by
  rw [if_pos _h.2]
  split <;> omega

def sendResponse (s : ClientSocketWrapper) (response : List UInt8) : Bool × ClientSocketWrapper :=
  let size := signed 32 response.length
  let r := s.write (toBytes 4 response.length)
  let body := writeBody r.2 response size 0 r.1
  (if body.1 < response.length then false else 0 < body.2.1, body.2.2)

/-! ## Reading in chunks -/

section Read

variable {chunks : List (List UInt8)} {room : List Room} {written message : List UInt8}
  {msgSize : ℕ} {ret : ℤ}

theorem read_within {c : List UInt8} {size : ℕ} {rest : List Arrival} (h : c.length ≤ size) :
    read ⟨.bytes c :: rest, room, written⟩ size
      = ((c.length : ℤ), c, ⟨rest, room, written⟩) := by
  rw [read]
  simp only [if_pos h, List.take_of_length_le h]

theorem read_beyond {c : List UInt8} {size : ℕ} {rest : List Arrival} (h : size < c.length) :
    read ⟨.bytes c :: rest, room, written⟩ size
      = ((size : ℤ), c.take size, ⟨.bytes (c.drop size) :: rest, room, written⟩) := by
  rw [read]
  simp only [if_neg (not_le.mpr h), List.length_take, Nat.min_eq_left h.le]

/-- **The body is read whole**, however it arrives. -/
theorem readBody_chunks (hne : ∀ c ∈ chunks, c ≠ []) (hret : 0 < ret)
    (hle : message.length ≤ msgSize) (henough : msgSize ≤ message.length + chunks.flatten.length) :
    (readBody ⟨chunks.map .bytes, room, written⟩ msgSize message ret).1
      = message ++ chunks.flatten.take (msgSize - message.length) := by
  induction chunks generalizing message ret with
  | nil =>
    rw [List.flatten_nil, List.length_nil, Nat.add_zero] at henough
    rw [readBody, dif_neg (fun h => by omega), List.flatten_nil, List.take_nil, List.append_nil]
  | cons c cs ih =>
    rw [List.flatten_cons, List.length_append] at henough
    have hc : 0 < c.length := List.length_pos_of_ne_nil (hne c List.mem_cons_self)
    by_cases hmore : message.length < msgSize
    · rw [readBody, dif_pos ⟨hmore, hret⟩, List.map_cons, List.flatten_cons]
      by_cases hall : c.length ≤ msgSize - message.length
      · -- the chunk is taken whole, and more is read
        rw [read_within hall]
        dsimp only
        rw [ih (fun c' hc' => hne c' (List.mem_cons_of_mem _ hc')) (Int.natCast_pos.mpr hc)
            (by rw [List.length_append]; omega) (by rw [List.length_append]; omega),
          List.take_append, List.take_of_length_le hall, List.append_assoc, List.length_append,
          Nat.sub_sub]
      · -- the chunk has the rest of the body
        have hlen : (message ++ c.take (msgSize - message.length)).length = msgSize := by
          rw [List.length_append, List.length_take]
          omega
        rw [read_beyond (not_le.mp hall), readBody,
          dif_neg (fun h => absurd h.1 (by rw [hlen]; exact Nat.lt_irrefl _)),
          List.take_append_of_le_length (by omega)]
    · have hzero : msgSize - message.length = 0 := by omega
      rw [readBody, dif_neg (fun h => hmore h.1), hzero, List.take_zero, List.append_nil]

theorem signed_ofBytes_toBytes {n : ℕ} (h : n < 2 ^ 31) :
    signed 32 (ofBytes (toBytes 4 n)) = n := by
  have hmod : n % 256 ^ 4 = n := Nat.mod_eq_of_lt (by omega)
  rw [ofBytes_toBytes, hmod]
  exact signed_eq (by omega) (by omega)

theorem sizeBytes_of_length {got : List UInt8} (h : got.length = 4) : sizeBytes got = got := by
  rw [sizeBytes, h]
  exact List.append_nil got

/-- What is left of `-1` makes the length negative. -/
theorem signed_sizeBytes_neg {got : List UInt8} (h : got.length < 4) :
    signed 32 (ofBytes (sizeBytes got)) ≤ 0 := by
  have hlast : sizeBytes got = (got ++ List.replicate (3 - got.length) 255) ++ [255] := by
    rw [sizeBytes, List.drop_replicate, List.append_assoc, ← List.replicate_succ',
      show 4 - got.length = 3 - got.length + 1 by omega]
  have hlen : (got ++ List.replicate (3 - got.length) (255 : UInt8)).length = 3 := by
    rw [List.length_append, List.length_replicate]
    omega
  have hlow := @ofBytes_lt (got ++ List.replicate (3 - got.length) 255)
  rw [hlen] at hlow
  have htop : ofBytes [255] = 255 := rfl
  rw [hlast, ofBytes_append, hlen, htop, signed_eq_sub (w := 31) (by omega) (by omega)]
  omega

/-- A length that arrives in one piece. -/
theorem getMessage_whole {c payload rest : List UInt8} {cs : List (List UInt8)}
    (hpos : 0 < payload.length) (hlt : payload.length < 2 ^ 31) (hne : ∀ c' ∈ cs, c' ≠ [])
    (hbytes : (c :: cs).flatten = toBytes 4 payload.length ++ payload ++ rest)
    (hc : 4 ≤ c.length) :
    (getMessage ⟨(c :: cs).map .bytes, room, written⟩).1 = payload := by
  have hlen : (toBytes 4 payload.length).length = 4 := length_toBytes
  have hhead : c.take 4 = toBytes 4 payload.length := by
    have htake := congrArg (List.take 4) hbytes
    rwa [List.flatten_cons, List.take_append_of_le_length hc, List.append_assoc,
      List.take_append_of_le_length hlen.ge, List.take_of_length_le hlen.le] at htake
  have htail : c.drop 4 ++ cs.flatten = payload ++ rest := by
    have hdrop := congrArg (List.drop 4) hbytes
    rwa [List.flatten_cons, List.drop_append_of_le_length hc, List.append_assoc,
      List.drop_left' hlen] at hdrop
  -- the first read takes the length, and leaves chunks that hold the body
  obtain ⟨cs', hcs', hflat, hread⟩ : ∃ cs' : List (List UInt8), (∀ c' ∈ cs', c' ≠ [])
      ∧ cs'.flatten = payload ++ rest
      ∧ read ⟨(c :: cs).map .bytes, room, written⟩ 4
        = (((4 : ℕ) : ℤ), toBytes 4 payload.length, ⟨cs'.map .bytes, room, written⟩) := by
    rcases Nat.eq_or_lt_of_le hc with heq | hmore
    · refine ⟨cs, hne, ?_, ?_⟩
      · rw [← htail, List.drop_of_length_le heq.ge, List.nil_append]
      · rw [List.map_cons, read_within heq.ge, ← heq, ← hhead, List.take_of_length_le heq.ge]
    · refine ⟨c.drop 4 :: cs, List.forall_mem_cons.mpr ⟨?_, hne⟩, htail, ?_⟩
      · exact List.ne_nil_of_length_pos (by rw [List.length_drop]; omega)
      · rw [List.map_cons, read_beyond hmore, hhead, List.map_cons]
  have hsize := signed_ofBytes_toBytes hlt
  have hbody := @readBody_chunks cs' room written [] payload.length 1 hcs' Int.one_pos
    (Nat.zero_le _) (by rw [hflat, List.length_append]; omega)
  rw [hflat, List.nil_append, List.length_nil, Nat.sub_zero, List.take_left] at hbody
  rw [getMessage, hread, sizeBytes_of_length hlen, hsize, if_neg (by omega), Int.toNat_natCast]
  dsimp only
  rw [hbody, if_neg (not_not.mpr rfl), hbody]

/-- A length that is cut. -/
theorem getMessage_cut {c : List UInt8} {cs : List (List UInt8)} (hc : c.length < 4) :
    (getMessage ⟨(c :: cs).map .bytes, room, written⟩).1 = [] := by
  rw [List.map_cons, getMessage, read_within (by omega), if_pos (.inr (signed_sizeBytes_neg hc))]

end Read

/-! ## Writing in chunks -/

section Write

variable {arrivals : List Arrival} {caps : List ℕ} {written response : List UInt8}

/-- A write of some bytes takes some of them. -/
theorem write_some {buf : List UInt8} (hcaps : ∀ n ∈ caps, 0 < n) (hbuf : buf ≠ []) :
    ∃ (k : ℕ) (caps' : List ℕ), 0 < k ∧ k ≤ buf.length ∧ (∀ n ∈ caps', 0 < n)
      ∧ write ⟨arrivals, caps.map .upTo, written⟩ buf
        = ((k : ℤ), ⟨arrivals, caps'.map .upTo, written ++ buf.take k⟩)
      ∧ k = ((caps.head?).elim buf.length fun n => min n buf.length) := by
  have hpos : 0 < buf.length := List.length_pos_of_ne_nil hbuf
  cases caps with
  | nil => exact ⟨buf.length, [], hpos, Nat.le_refl _, hcaps, by rw [List.take_length]; rfl, rfl⟩
  | cons n caps =>
    have hn := hcaps n List.mem_cons_self
    have htake : (buf.take n).length = min n buf.length := List.length_take
    refine ⟨min n buf.length, caps, by omega, Nat.min_le_right _ _,
      fun n' hn' => hcaps n' (List.mem_cons_of_mem _ hn'), ?_, rfl⟩
    rw [List.map_cons, write]
    simp only [htake]
    rw [← List.take_take, List.take_length]

/-- **The body is written whole**, however much is taken at a time. -/
theorem writeBody_chunks {sent : ℕ} {ret : ℤ} (hcaps : ∀ n ∈ caps, 0 < n)
    (hsent : sent ≤ response.length) (hret : 0 < ret) :
    ∃ (ret' : ℤ) (room : List Room), 0 < ret'
      ∧ writeBody ⟨arrivals, caps.map .upTo, written⟩ response response.length sent ret
        = (response.length, ret', ⟨arrivals, room, written ++ response.drop sent⟩) := by
  induction hmissing : response.length - sent using Nat.strong_induction_on
    generalizing caps written sent ret with
  | _ missing ih =>
    rcases Nat.eq_or_lt_of_le hsent with rfl | hlt
    · refine ⟨ret, caps.map .upTo, hret, ?_⟩
      rw [writeBody, dif_neg (fun h => absurd h.1 (Int.lt_irrefl _)),
        List.drop_length, List.append_nil]
    · have hbuf : (response.drop sent).take ((response.length : ℤ).toNat - sent)
          = response.drop sent := by
        rw [Int.toNat_natCast, List.take_of_length_le]
        exact (List.length_drop).le
      have hrest : response.drop sent ≠ [] :=
        List.ne_nil_of_length_pos (by rw [List.length_drop]; omega)
      obtain ⟨k, caps', hk, hkle, hcaps', hwrite, -⟩ :=
        @write_some arrivals caps written _ hcaps hrest
      rw [List.length_drop] at hkle
      obtain ⟨ret', room, hret', hwritten⟩ := ih (response.length - (sent + k)) (by omega) hcaps'
        (by omega) (Int.natCast_pos.mpr hk) rfl
      refine ⟨ret', room, hret', ?_⟩
      rw [writeBody, dif_pos ⟨Int.ofNat_lt.mpr hlt, hret⟩, hbuf, hwrite]
      dsimp only
      rw [if_neg (by omega), Int.toNat_natCast, hwritten, List.append_assoc, ← List.drop_drop,
        List.take_append_drop]

/-- **The response is written behind what the first write took of its length.** -/
theorem sendResponse_chunks (hcaps : ∀ n ∈ caps, 0 < n) (hlt : response.length < 2 ^ 31) :
    (sendResponse ⟨arrivals, caps.map .upTo, written⟩ response).1 = true
      ∧ (sendResponse ⟨arrivals, caps.map .upTo, written⟩ response).2.written
        = written ++ (toBytes 4 response.length).take ((caps.head?).elim 4 fun n => min n 4)
          ++ response := by
  have hlen : (toBytes 4 response.length).length = 4 := length_toBytes
  have hsize : signed 32 response.length = response.length := signed_eq (by omega) (by omega)
  obtain ⟨k, caps', hk, -, hcaps', hwrite, heq⟩ := @write_some arrivals caps written
    (toBytes 4 response.length) hcaps (List.ne_nil_of_length_pos (by omega))
  obtain ⟨ret, room, hret, hbody⟩ := @writeBody_chunks arrivals caps'
    (written ++ (toBytes 4 response.length).take k) response 0 k hcaps' (Nat.zero_le _)
    (Int.natCast_pos.mpr hk)
  rw [hlen] at heq
  rw [sendResponse, hsize, hwrite]
  dsimp only
  rw [hbody, ← heq, List.drop_zero, if_neg (Nat.lt_irrefl _)]
  exact ⟨decide_eq_true hret, rfl⟩

end Write

/-! ## Frames -/

/-- **A frame survives** just when the first call takes the length whole. -/
theorem framing_iff {payload response rest : List UInt8} {chunks : List (List UInt8)}
    {caps : List ℕ} (hpayload : 0 < payload.length ∧ payload.length < 2 ^ 31)
    (hresponse : 0 < response.length ∧ response.length < 2 ^ 31)
    (hchunks : ∀ c ∈ chunks, c ≠ []) (hcaps : ∀ n ∈ caps, 0 < n)
    (hbytes : chunks.flatten = toBytes 4 payload.length ++ payload ++ rest)
    (s : ClientSocketWrapper) (harrivals : s.arrivals = chunks.map .bytes)
    (hroom : s.room = caps.map .upTo) :
    ((getMessage s).1 = payload ↔ ∀ c ∈ chunks.head?, 4 ≤ c.length)
      ∧ ((sendResponse s response).1 = true
          ∧ (sendResponse s response).2.written
            = s.written ++ toBytes 4 response.length ++ response
        ↔ ∀ n ∈ caps.head?, 4 ≤ n) := by
  obtain ⟨arrivals, room, written⟩ := s
  obtain rfl : arrivals = chunks.map .bytes := harrivals
  obtain rfl : room = caps.map .upTo := hroom
  have hpayload' : payload ≠ [] := List.ne_nil_of_length_pos hpayload.1
  constructor
  · cases chunks with
    | nil =>
      have hlen := congrArg List.length hbytes
      rw [List.flatten_nil, List.length_nil, List.length_append, List.length_append] at hlen
      omega
    | cons c cs =>
      have hne : ∀ c' ∈ cs, c' ≠ [] := fun c' hc' => hchunks c' (List.mem_cons_of_mem _ hc')
      rw [List.head?_cons]
      constructor
      · rintro heq c' ⟨⟩
        by_contra hcut
        rw [getMessage_cut (not_le.mp hcut)] at heq
        exact hpayload' heq.symm
      · exact fun h => getMessage_whole hpayload.1 hpayload.2 hne hbytes (h c rfl)
  · have hlen : (toBytes 4 response.length).length = 4 := length_toBytes
    obtain ⟨htrue, hwritten⟩ := @sendResponse_chunks (chunks.map .bytes) caps written response
      hcaps hresponse.2
    rw [hwritten]
    constructor
    · rintro ⟨-, heq⟩ n hn
      have hcut := congrArg List.length heq
      rw [Option.mem_def.mp hn] at hcut
      simp only [List.length_append, List.length_take, hlen, Option.elim_some] at hcut
      omega
    · intro hwhole
      refine ⟨htrue, ?_⟩
      congr 2
      refine List.take_of_length_le ?_
      rw [hlen]
      cases hhead : caps.head? with
      | none => exact Nat.le_refl 4
      | some n =>
        have := hwhole n hhead
        rw [Option.elim_some]
        omega

/-- A message and a response of two bytes, split behind their lengths and inside them. -/
theorem framing_twoBytes :
    (getMessage ⟨[.bytes [2, 0, 0, 0], .bytes [123], .bytes [125]], [.upTo 4, .upTo 1], []⟩).1
        = [123, 125]
      ∧ (sendResponse ⟨[.bytes [2, 0, 0, 0], .bytes [123], .bytes [125]], [.upTo 4, .upTo 1], []⟩
          [123, 125]).2.written = [2, 0, 0, 0, 123, 125] := by
  have h := @framing_iff [123, 125] [123, 125] [] [[2, 0, 0, 0], [123], [125]] [4, 1]
    (by decide) (by decide) (by decide) (by decide) (by decide)
    ⟨[.bytes [2, 0, 0, 0], .bytes [123], .bytes [125]], [.upTo 4, .upTo 1], []⟩ rfl rfl
  exact ⟨h.1.mpr (by rintro c ⟨⟩; decide), (h.2.mpr (by rintro n ⟨⟩; decide)).2⟩

/-- Of the length of a message two bytes arrive first, and of that of a response two bytes
are taken: no message is read, and half of the length is left out. -/
theorem framing_cut :
    (getMessage ⟨[.bytes [2, 0], .bytes [0, 0, 123, 125]], [.upTo 2], []⟩).1 = []
      ∧ (sendResponse ⟨[], [.upTo 2], []⟩ [123, 125]).1 = true
      ∧ (sendResponse ⟨[], [.upTo 2], []⟩ [123, 125]).2.written = [2, 0, 123, 125] := by
  have hsend := @sendResponse_chunks [] [2] [] [123, 125] (by decide) (by decide)
  exact ⟨@getMessage_cut [.upTo 2] [] [2, 0] [[0, 0, 123, 125]] (by decide), hsend.1, hsend.2⟩

end ClientSocketWrapper

end Dynolog
end IntegratedCLI
