import IntegratedCLI.Lib.Widths
import Mathlib.Data.Nat.Find

/-!
# Sending over the IPC fabric

`FabricManager::sync_send` hands a message to `EndPoint::trySendMsg` until it is taken,
and no more than `num_retries` times again.  Each time that it has to wait it waits twice
as long as before.

What it returns is read off the counter of the retries, not off the last attempt.
`sync_send_eq` says which attempt the loop ends with and what is then returned:
`sync_send_truthful_iff` is what follows, that the answer is wrong exactly where the last
attempt of those allowed is the first that succeeds.

The address that `setAddress_` writes and the message itself are left out: `sendmsg k` is
what the system answers to the attempt number `k`.
-/

namespace IntegratedCLI
namespace Dynolog
namespace ipcfabric

open Widths

/-- The values of `errno` that `trySendMsg` looks at. -/
inductive Errno where
  | EAGAIN
  | EWOULDBLOCK
  | ECONNREFUSED
  | other (code : ℕ)
  deriving DecidableEq, Repr

inductive Exception where
  | invalid_argument (what : String)
  | runtime_error (errno : Errno)
  deriving DecidableEq, Repr

/-- What `sendmsg` returns, and the `errno` it leaves. -/
structure SendResult where
  ret : ℤ
  errno : Errno
  deriving DecidableEq, Repr

/-- The messages that the call has handed over. -/
def SendResult.messages (r : SendResult) : ℕ := if 0 < r.ret then 1 else 0

/-- Two fewer than the path of a socket has room for. -/
def kMaxNameLen : ℕ := 108 - 2

/-- The check of `setAddress_`, and the name that it goes on with. -/
def setAddress_ (src : String) : Except Exception String :=
  if kMaxNameLen < src.utf8ByteSize then
    .error (.invalid_argument "Abstract UNIX Socket path cannot be larger than kMaxNameLen - 2")
  else .ok src

/-- `buildSendCtxt`, for a message that passes no descriptors. -/
def buildSendCtxt (dest_name : String) : Except Exception String :=
  if dest_name.utf8ByteSize = 0 then
    .error (.invalid_argument "Cannot send to empty socket name")
  else setAddress_ dest_name

def trySendMsg (r : SendResult) (retryOnConnRefused : Bool) : Except Exception Bool :=
  if 0 < r.ret then .ok true
  else if r.ret = -1 ∧ (r.errno = .EAGAIN ∨ r.errno = .EWOULDBLOCK) then .ok false
  else if r.ret = -1 ∧ retryOnConnRefused = true ∧ r.errno = .ECONNREFUSED then .ok false
  else .error (.runtime_error r.errno)

/-- The type of `num_retries` and of `sleep_time_us`. -/
def int : IntegerType := ⟨true, 32, by decide, by decide⟩

/-- The loop of `sync_send`: the counter it ends with, or what was thrown, and how many
messages were handed over.  Nothing where `sleep_time_us *= 2` leaves its type: the program
has no meaning from there on. -/
def sendLoop (sendmsg : ℕ → SendResult) (num_retries : ℤ) (i : ℕ) (sleep_time_us : ℤ)
    (sent : ℕ) : Option (Except Exception ℕ × ℕ) :=
  match trySendMsg (sendmsg i) true with
  | .error e => some (.error e, sent + (sendmsg i).messages)
  | .ok true => some (.ok i, sent + (sendmsg i).messages)
  | .ok false =>
    if i < num_retries then
      if int.Fits (sleep_time_us * 2) then
        sendLoop sendmsg num_retries (i + 1) (sleep_time_us * 2) (sent + (sendmsg i).messages)
      else none
    else some (.ok i, sent + (sendmsg i).messages)
termination_by (num_retries - i).toNat

/-- What is returned after the loop. -/
def answer (num_retries : ℤ) : Option (Except Exception ℕ × ℕ) → Option (Bool × ℕ)
  | none => none
  | some (.error _, sent) => some (false, sent)
  | some (.ok i, sent) => some (decide (i < num_retries), sent)

/-- What is returned, and how many messages were handed over. -/
def sync_send (sendmsg : ℕ → SendResult) (dest_name : String) (num_retries : ℤ)
    (sleep_time_us : ℤ) : Option (Bool × ℕ) :=
  if dest_name.utf8ByteSize = 0 then some (false, 0)
  else
    match buildSendCtxt dest_name with
    | .error _ => some (false, 0)
    | .ok _ =>
      answer num_retries (sendLoop sendmsg num_retries 0 sleep_time_us 0)

/-! ## One attempt -/

/-- The attempt is to be made again. -/
def Blocks (r : SendResult) : Prop := trySendMsg r true = .ok false

/-- The attempt hands the message over. -/
def Sends (r : SendResult) : Prop := trySendMsg r true = .ok true

instance (r : SendResult) : Decidable (Blocks r) := inferInstanceAs (Decidable (_ = _))

instance (r : SendResult) : Decidable (Sends r) := inferInstanceAs (Decidable (_ = _))

variable {r : SendResult}

theorem sends_iff : Sends r ↔ 0 < r.ret := by
  refine ⟨fun h => ?_, fun h => if_pos h⟩
  by_contra hret
  rw [Sends, trySendMsg, if_neg hret] at h
  split at h
  · cases h
  · split at h <;> cases h

theorem messages_of_sends (h : Sends r) : r.messages = 1 := if_pos (sends_iff.mp h)

theorem messages_of_not_sends (h : ¬ Sends r) : r.messages = 0 := if_neg (mt sends_iff.mpr h)

theorem Blocks.not_sends (h : Blocks r) : ¬ Sends r := fun hs => by
  rw [Blocks, show trySendMsg r true = .ok true from hs] at h
  cases h

/-! ## The loop -/

variable {sendmsg : ℕ → SendResult} {num_retries sleep_time_us : ℤ} {i k sent : ℕ}

/-- A blocked attempt before the last is followed by the next. -/
theorem sendLoop_blocked (h : Blocks (sendmsg i)) (hi : i < num_retries) :
    sendLoop sendmsg num_retries i sleep_time_us sent
      = if int.Fits (sleep_time_us * 2) then
          sendLoop sendmsg num_retries (i + 1) (sleep_time_us * 2) sent
        else none := by
  rw [sendLoop, show trySendMsg (sendmsg i) true = .ok false from h]
  simp only [if_pos hi, messages_of_not_sends h.not_sends, Nat.add_zero]

/-- The times that the first `k` waits leave behind all fit. -/
def WaitsFit (sleep_time_us : ℤ) (k : ℕ) : Prop := ∀ j < k, int.Fits (sleep_time_us * 2 ^ (j + 1))

/-- As long as the attempts block and the times fit, the loop goes on. -/
theorem sendLoop_goes_on (hk : k ≤ num_retries.toNat) (hblocks : ∀ j < k, Blocks (sendmsg j))
    (hfit : WaitsFit sleep_time_us k) :
    sendLoop sendmsg num_retries 0 sleep_time_us 0
      = sendLoop sendmsg num_retries k (sleep_time_us * 2 ^ k) 0 := by
  induction k with
  | zero => rw [Int.pow_zero, Int.mul_one]
  | succ k ih =>
    have hlt : (k : ℤ) < num_retries := Int.lt_toNat.mp hk
    have htwice : sleep_time_us * 2 ^ k * 2 = sleep_time_us * 2 ^ (k + 1) := by
      rw [Int.pow_succ, Int.mul_assoc]
    rw [ih (Nat.le_of_succ_le hk) (fun j hj => hblocks j (Nat.lt_succ_of_lt hj))
        (fun j hj => hfit j (Nat.lt_succ_of_lt hj)),
      sendLoop_blocked (hblocks k k.lt_succ_self) hlt, htwice, if_pos (hfit k k.lt_succ_self)]

/-- A wait whose doubled time does not fit ends it. -/
theorem sendLoop_none (hk : k < num_retries.toNat) (hblocks : ∀ j ≤ k, Blocks (sendmsg j))
    (hfit : ¬ int.Fits (sleep_time_us * 2 ^ (k + 1))) :
    sendLoop sendmsg num_retries 0 sleep_time_us 0 = none := by
  classical
  have hex : ∃ j, ¬ int.Fits (sleep_time_us * 2 ^ (j + 1)) := ⟨k, hfit⟩
  -- the first such wait, so that those before it are no obstacle
  have hfirst : Nat.find hex ≤ k := Nat.find_le hfit
  have htwice : sleep_time_us * 2 ^ Nat.find hex * 2
      = sleep_time_us * 2 ^ (Nat.find hex + 1) := by
    rw [Int.pow_succ, Int.mul_assoc]
  rw [sendLoop_goes_on (k := Nat.find hex) (by omega) (fun j hj => hblocks j (by omega))
      (fun j hj => not_not.mp (Nat.find_min hex hj)),
    sendLoop_blocked (hblocks _ hfirst) (by omega), htwice, if_neg (Nat.find_spec hex)]

/-- **What the loop returns at the attempt that it ends with.** -/
theorem sendLoop_ends (hk : ¬ Blocks (sendmsg k) ∨ num_retries.toNat ≤ k) :
    (Sends (sendmsg k) ∧
        sendLoop sendmsg num_retries k sleep_time_us 0 = some (.ok k, 1)) ∨
      (¬ Sends (sendmsg k) ∧ ((num_retries.toNat ≤ k ∧
          sendLoop sendmsg num_retries k sleep_time_us 0 = some (.ok k, 0)) ∨
        ∃ e, sendLoop sendmsg num_retries k sleep_time_us 0 = some (.error e, 0))) := by
  rw [sendLoop]
  rcases h : trySendMsg (sendmsg k) true with e | _ | _
  · have hnot : ¬ Sends (sendmsg k) := fun hs => by
      rw [Sends, h] at hs
      cases hs
    exact .inr ⟨hnot, .inr ⟨e, by rw [messages_of_not_sends hnot]⟩⟩
  · have hle : num_retries.toNat ≤ k := hk.resolve_left (not_not.mpr h)
    have hnot : ¬ Sends (sendmsg k) := Blocks.not_sends h
    refine .inr ⟨hnot, .inl ⟨hle, ?_⟩⟩
    simp only [messages_of_not_sends hnot, if_neg (show ¬ ((k : ℤ) < num_retries) by omega)]
  · exact .inl ⟨h, by rw [messages_of_sends h]⟩

/-- There is one that it ends with. -/
theorem exists_ends (sendmsg : ℕ → SendResult) (n : ℕ) :
    ∃ k ≤ n, (∀ j < k, Blocks (sendmsg j)) ∧ (¬ Blocks (sendmsg k) ∨ n ≤ k) := by
  classical
  have hex : ∃ k, ¬ Blocks (sendmsg k) ∨ n ≤ k := ⟨n, .inr n.le_refl⟩
  refine ⟨Nat.find hex, Nat.find_le (.inr n.le_refl), fun j hj => ?_, Nat.find_spec hex⟩
  exact not_not.mp fun h => Nat.find_min hex hj (.inl h)

/-! ## The answer -/

/-- The call returns, and says `true` exactly if it handed the message over, once. -/
def Truthful (result : Option (Bool × ℕ)) : Prop :=
  ∃ ret sent, result = some (ret, sent) ∧ sent ≤ 1 ∧ (ret = true ↔ sent = 1)

/-- All attempts but the last of those allowed block, and the last does not. -/
def SentLast (sendmsg : ℕ → SendResult) (num_retries : ℤ) : Prop :=
  (∀ j < num_retries.toNat, Blocks (sendmsg j)) ∧ Sends (sendmsg num_retries.toNat)

/-- No wait doubles the time beyond its type. -/
def NoOverflow (sendmsg : ℕ → SendResult) (num_retries sleep_time_us : ℤ) : Prop :=
  ∀ k < num_retries.toNat, (∀ j ≤ k, Blocks (sendmsg j)) →
    int.Fits (sleep_time_us * 2 ^ (k + 1))

theorem not_truthful_none : ¬ Truthful none := fun ⟨_, _, h, _⟩ => nomatch h

theorem truthful_some_iff {ret : Bool} {sent : ℕ} :
    Truthful (some (ret, sent)) ↔ sent ≤ 1 ∧ (ret = true ↔ sent = 1) := by
  refine ⟨?_, fun h => ⟨ret, sent, rfl, h⟩⟩
  rintro ⟨_, _, h, hsent⟩
  cases h
  exact hsent

/-- The answer after the loop is right exactly if the time always fits and the message was
not taken at the last attempt. -/
theorem truthful_answer_iff :
    Truthful (answer num_retries (sendLoop sendmsg num_retries 0 sleep_time_us 0))
      ↔ NoOverflow sendmsg num_retries sleep_time_us ∧ ¬ SentLast sendmsg num_retries := by
  by_cases hfit : NoOverflow sendmsg num_retries sleep_time_us
  · obtain ⟨k, hk, hblocks, hends⟩ := exists_ends sendmsg num_retries.toNat
    rw [sendLoop_goes_on hk hblocks
      fun j hj => hfit j (by omega) fun j' hj' => hblocks j' (by omega)]
    have hlast : SentLast sendmsg num_retries ↔ Sends (sendmsg k) ∧ num_retries.toNat ≤ k := by
      refine ⟨fun h => ?_, fun ⟨hsends, hle⟩ => ?_⟩
      · have hle : num_retries.toNat ≤ k := by
          by_contra hlt
          exact hends.elim (fun hb => hb (h.1 k (by omega))) hlt
        exact ⟨Nat.le_antisymm hk hle ▸ h.2, hle⟩
      · rw [Nat.le_antisymm hk hle] at hblocks hsends
        exact ⟨hblocks, hsends⟩
    rw [hlast]
    rcases @sendLoop_ends _ _ (sleep_time_us * 2 ^ k) _ hends with
      ⟨hsends, h⟩ | ⟨hsends, ⟨hle, h⟩ | ⟨e, h⟩⟩
    · rw [h, answer, truthful_some_iff]
      simp only [hfit, hsends, decide_eq_true_eq, true_and, iff_true, Int.lt_toNat.symm]
      exact ⟨fun hlt => by omega, fun hle => ⟨by omega, by omega⟩⟩
    · rw [h, answer, truthful_some_iff]
      simp [hfit, hsends]
      omega
    · rw [h, answer, truthful_some_iff]
      simp [hfit, hsends]
  · rw [NoOverflow] at hfit
    push Not at hfit
    obtain ⟨k, hk, hblocks, hnot⟩ := hfit
    rw [sendLoop_none hk hblocks hnot]
    refine iff_of_false not_truthful_none fun h => hnot (h.1 k hk hblocks)

/-- **A send is reported truthfully exactly in these cases.**  Where nothing is sent because
the name is of no use; and else where no wait overflows and it is not the last attempt of
those allowed that hands the message over. -/
theorem sync_send_truthful_iff (sendmsg : ℕ → SendResult) (dest_name : String)
    (num_retries sleep_time_us : ℤ) :
    Truthful (sync_send sendmsg dest_name num_retries sleep_time_us)
      ↔ (dest_name.utf8ByteSize = 0 ∨ kMaxNameLen < dest_name.utf8ByteSize)
        ∨ NoOverflow sendmsg num_retries sleep_time_us ∧ ¬ SentLast sendmsg num_retries := by
  have hnothing : Truthful (some (false, 0)) := truthful_some_iff.mpr (by decide)
  rw [sync_send]
  by_cases hempty : dest_name.utf8ByteSize = 0
  · rw [if_pos hempty]
    exact iff_of_true hnothing (.inl (.inl hempty))
  · rw [if_neg hempty, buildSendCtxt, if_neg hempty, setAddress_]
    by_cases hlong : kMaxNameLen < dest_name.utf8ByteSize
    · rw [if_pos hlong]
      exact iff_of_true hnothing (.inl (.inr hlong))
    · rw [if_neg hlong]
      simp only [hempty, hlong, or_self, false_or]
      exact truthful_answer_iff

/-- The message is taken by the second of the two retries, and reported as not sent. -/
theorem sync_send_lastAttempt :
    sync_send (fun k => if k < 2 then ⟨-1, .EAGAIN⟩ else ⟨40, .other 0⟩) "dynolog" 2 10000
        = some (false, 1)
      ∧ ¬ Truthful (some (false, 1)) := by
  refine ⟨?_, fun h => ?_⟩
  · have hname : buildSendCtxt "dynolog" = .ok "dynolog" := by decide
    have hsize : ¬ "dynolog".utf8ByteSize = 0 := by decide
    have hfits : int.Fits 20000 ∧ int.Fits 40000 := by decide
    rw [sync_send, if_neg hsize, hname]
    simp [sendLoop, trySendMsg, hfits, SendResult.messages, answer]
  · exact absurd (truthful_some_iff.mp h).2 (by decide)

end ipcfabric
end Dynolog
end IntegratedCLI
