import IntegratedCLI.Dynolog.FabricManager
import IntegratedCLI.Dynolog.TrackedJobs
import IntegratedCLI.Lib.LittleEndian

/-!
# The processes and the daemon

The processes that are profiled talk to the daemon over a datagram socket.  `IPCMonitor::loop` takes
one message off it at a time, `FabricManager::recv`: it looks at the metadata first, makes room for
as many bytes as the metadata says, and takes the message then.  It asks the config manager, and
sends what it is told back to the endpoint that the message came from.  Meanwhile other threads call
the config manager, and more messages arrive.

`Service` is what this amounts to: a queue of requests that are answered in order.  `served` says
that the daemon is such a service, as long as the messages are those that processes construct.  A
datagram that is not may stop it for good: `blocked` is about one that is never taken off the socket.

Only this thread reads the socket, and an iteration of its loop asks the config manager once, under
the lock of the manager, so that the iterations are steps.  What of the memory of a message no bytes
arrived for is not initialized, and where the program would read beyond what arrived the model has
no result.
-/

namespace IntegratedCLI
namespace Dynolog
namespace ipcfabric

open LittleEndian Widths

/-! ## Messages -/

/-- What a socket has received, and the name of the endpoint that sent it. -/
structure Datagram where
  bytes : List UInt8
  src : String
  deriving DecidableEq

def TYPE_SIZE : ℕ := 32

structure Metadata where
  size : ℕ
  type : List UInt8
  deriving DecidableEq

/-- `buf` is as much of the buffer as was filled. -/
structure Message where
  metadata : Metadata
  buf : List UInt8
  src : String
  deriving DecidableEq

namespace Metadata

/-- The size of the metadata. -/
def sizeOf : ℕ := 8 + TYPE_SIZE

def bytes (m : Metadata) : List UInt8 := toBytes 8 m.size ++ m.type

/-- The metadata that the bytes are read into, which was zero before. -/
def fill (bytes : List UInt8) : Metadata :=
  let filled := bytes.take sizeOf ++ List.replicate (sizeOf - bytes.length) 0
  ⟨ofBytes (filled.take 8), filled.drop 8⟩

end Metadata

def Message.bytes (m : Message) : List UInt8 := m.metadata.bytes ++ m.buf

/-- The field of a message for a type, which is shorter. -/
def typeField (type : List UInt8) : List UInt8 :=
  type ++ List.replicate (TYPE_SIZE - type.length) 0

def constructMessage (data type : List UInt8) : Message :=
  ⟨⟨data.length, typeField type⟩, data, ""⟩

/-- `req`. -/
def kLibkinetoRequest : List UInt8 := [114, 101, 113]

/-- `ctxt`. -/
def kLibkinetoContext : List UInt8 := [99, 116, 120, 116]

/-! ## Receiving -/

/-- Look at the first bytes of the next message.  Nothing is seen where there are none. -/
def tryPeekMsg (len : ℕ) : List Datagram → Option (List UInt8 × String)
  | [] => none
  | d :: _ => if d.bytes.take len = [] then none else some (d.bytes.take len, d.src)

/-- Take the next message off the socket. -/
def tryRcvMsg (len : ℕ) : List Datagram → Option (List UInt8) × List Datagram
  | [] => (none, [])
  | d :: socket => (if d.bytes.take len = [] then none else some (d.bytes.take len), socket)

structure FabricManager where
  socket : List Datagram
  message_deque_ : List Message

namespace FabricManager

/-- Receive a message.  `alloc` says for which sizes memory is found; where it is not, that is
caught. -/
def recv (alloc : ℕ → Bool) (f : FabricManager) : Bool × FabricManager :=
  match tryPeekMsg Metadata.sizeOf f.socket with
  | none => (false, f)
  | some (peeked, src) =>
    let size := (Metadata.fill peeked).size
    if alloc size then
      match tryRcvMsg (Metadata.sizeOf + size) f.socket with
      | (none, socket) => (false, { f with socket := socket })
      | (some bytes, socket) =>
        (true, ⟨socket, f.message_deque_ ++
          [⟨Metadata.fill bytes, bytes.drop Metadata.sizeOf, src⟩]⟩)
    else (false, f)

def retrieve_msg (f : FabricManager) : Option Message × FabricManager :=
  match f.message_deque_ with
  | [] => (none, f)
  | msg :: deque => (some msg, { f with message_deque_ := deque })

end FabricManager

/-! ## The daemon -/

/-- The state of the daemon, and what it has handed over to which endpoint. -/
structure IPCMonitor where
  ipc_manager_ : FabricManager
  manager : LibkinetoConfigManager
  sent : List (String × List UInt8)

namespace IPCMonitor

def init : IPCMonitor := ⟨⟨[], []⟩, .init, []⟩

/-- The call of `sync_send`, with the defaults.  Whether it fails is only logged. -/
def send (sendmsg : ℕ → SendResult) (msg : Message) (dest_name : String) (s : IPCMonitor) :
    Option IPCMonitor :=
  (sync_send sendmsg dest_name 10 10000).map fun r =>
    { s with sent := s.sent ++ List.replicate r.2 (dest_name, msg.bytes) }

/-- A negative number of pids raises an exception that nothing catches. -/
def getLibkinetoOnDemandRequest (msg : Message) (now : ℤ) (sendmsg : ℕ → SendResult)
    (s : IPCMonitor) : Option IPCMonitor := do
  let type ← intAt 4 0 msg.buf
  let n ← intAt 4 4 msg.buf
  if n = 0 then return s
  else if n < 0 then none
  else
    let jobid ← intAt 8 8 msg.buf
    match ← intsAt 4 msg.buf 16 n.toNat with
    | [] => none
    | pid :: ancestors =>
      let call := Call.obtain (toString jobid) pid ancestors (BitVec.ofInt 32 type) now
      let ret := (obtainOnDemandConfig s.manager.jobs (toString jobid) pid ancestors
        (BitVec.ofInt 32 type) now).1
      send sendmsg (constructMessage ret.toUTF8.toList kLibkinetoRequest) msg.src
        { s with manager := s.manager.step (.call call) }

def registerLibkinetoContext (msg : Message) (sendmsg : ℕ → SendResult) (s : IPCMonitor) :
    Option IPCMonitor := do
  let gpu ← intAt 4 0 msg.buf
  let pid ← intAt 4 4 msg.buf
  let jobid ← intAt 8 8 msg.buf
  let size := (s.manager.registerLibkinetoContext (toString jobid) pid gpu).1
  send sendmsg (constructMessage (intBytes 4 size) kLibkinetoContext) msg.src
    { s with manager := s.manager.step (.registerLibkinetoContext (toString jobid) pid gpu) }

/-- Other types are only logged. -/
def processMsg (msg : Message) (now : ℤ) (sendmsg : ℕ → SendResult) (s : IPCMonitor) :
    Option IPCMonitor :=
  if msg.metadata.type.take 4 = kLibkinetoContext then registerLibkinetoContext msg sendmsg s
  else if msg.metadata.type.take 3 = kLibkinetoRequest then
    getLibkinetoOnDemandRequest msg now sendmsg s
  else some s

/-- One iteration of `loop`. -/
def iterate (alloc : ℕ → Bool) (now : ℤ) (sendmsg : ℕ → SendResult) (s : IPCMonitor) :
    Option IPCMonitor :=
  let r := s.ipc_manager_.recv alloc
  if r.1 then
    match r.2.retrieve_msg with
    | (none, _) => none
    | (some msg, f) => processMsg msg now sendmsg { s with ipc_manager_ := f }
  else some { s with ipc_manager_ := r.2 }

end IPCMonitor

/-- What happens: a datagram arrives, the daemon does an iteration, or another thread calls the
config manager. -/
inductive FabricEvent where
  | arrive (d : Datagram)
  | iterate (now : ℤ) (sendmsg : ℕ → SendResult)
  | call (c : ManagerCall)

/-- What arrives. -/
def FabricEvent.arrives : FabricEvent → List Datagram
  | arrive d => [d]
  | _ => []

def IPCMonitor.step (alloc : ℕ → Bool) (s : IPCMonitor) : FabricEvent → Option IPCMonitor
  | .arrive d =>
    some { s with ipc_manager_ :=
      { s.ipc_manager_ with socket := s.ipc_manager_.socket ++ [d] } }
  | .iterate now sendmsg => s.iterate alloc now sendmsg
  | .call c => some { s with manager := s.manager.step c }

def IPCMonitor.run (alloc : ℕ → Bool) (s : IPCMonitor) (events : List FabricEvent) :
    Option IPCMonitor := events.foldlM (step alloc) s

/-! ## The service -/

/-- What a process sends. -/
inductive ClientMessage where
  | request (configType : BitVec 32) (jobid pid : ℤ) (ancestors : List ℤ)
  | context (gpu pid jobid : ℤ)
  deriving DecidableEq

inductive Reply where
  | config (ret : String)
  | instances (size : ℕ)
  deriving DecidableEq

namespace ClientMessage

/-- `LibkinetoRequest` and `LibkinetoContext`, as they are in memory. -/
def data : ClientMessage → List UInt8
  | request configType jobid pid ancestors =>
    intBytes 4 configType.toInt ++ (intBytes 4 (ancestors.length + 1 : ℕ) ++ (intBytes 8 jobid ++
      (pid :: ancestors).flatMap (intBytes 4)))
  | context gpu pid jobid => intBytes 4 gpu ++ (intBytes 4 pid ++ (intBytes 8 jobid ++ []))

def message : ClientMessage → Message
  | m@(request _ _ _ _) => constructMessage m.data kLibkinetoRequest
  | m@(context _ _ _) => constructMessage m.data kLibkinetoContext

/-- The numbers fit their fields, and memory is found for the message. -/
def Proper (alloc : ℕ → Bool) (m : ClientMessage) : Prop :=
  alloc m.data.length = true ∧ match m with
    | request _ jobid pid ancestors => FitsIn 63 jobid ∧ (∀ i ∈ pid :: ancestors, FitsIn 31 i) ∧
        ancestors.length + 1 < 2 ^ 31
    | context gpu pid jobid => FitsIn 31 gpu ∧ FitsIn 31 pid ∧ FitsIn 63 jobid

/-- The call that the message stands for. -/
def call (now : ℤ) : ClientMessage → ManagerCall
  | request configType jobid pid ancestors =>
    .call (.obtain (toString jobid) pid ancestors configType now)
  | context gpu pid jobid => .registerLibkinetoContext (toString jobid) pid gpu

/-- What the config manager says to it. -/
def reply (manager : LibkinetoConfigManager) (now : ℤ) : ClientMessage → Reply
  | request configType jobid pid ancestors =>
    .config (obtainOnDemandConfig manager.jobs (toString jobid) pid ancestors configType now).1
  | context gpu pid jobid =>
    .instances (manager.registerLibkinetoContext (toString jobid) pid gpu).1

end ClientMessage

def Reply.message : Reply → Message
  | .config ret => constructMessage ret.toUTF8.toList kLibkinetoRequest
  | .instances size => constructMessage (intBytes 4 size) kLibkinetoContext

/-- The message is handed over at one of the eleven attempts. -/
def Arrives (sendmsg : ℕ → SendResult) (dest_name : String) : Prop :=
  (dest_name.utf8ByteSize ≠ 0 ∧ dest_name.utf8ByteSize ≤ kMaxNameLen) ∧
    ∃ k < 11, (∀ j < k, Blocks (sendmsg j)) ∧ Sends (sendmsg k)

instance (sendmsg : ℕ → SendResult) (dest_name : String) : Decidable (Arrives sendmsg dest_name) :=
  inferInstanceAs (Decidable (_ ∧ ∃ k < 11, _))

/-- A queue of messages, those that were answered with the answers, and the answers that reached
their processes. -/
structure Service where
  waiting : List (String × ClientMessage)
  answered : List (String × ClientMessage × Reply)
  manager : LibkinetoConfigManager
  inbox : List (String × Reply)

/-- A process sends a message, the first message is answered, or the config manager is called. -/
inductive ServiceEvent where
  | send (src : String) (m : ClientMessage)
  | turn (now : ℤ) (sendmsg : ℕ → SendResult)
  | call (c : ManagerCall)

namespace Service

def init : Service := ⟨[], [], .init, []⟩

def answer (v : Service) (now : ℤ) (sendmsg : ℕ → SendResult) (src : String) (m : ClientMessage)
    (waiting : List (String × ClientMessage)) : Service where
  waiting := waiting
  answered := v.answered ++ [(src, m, m.reply v.manager now)]
  manager := v.manager.step (m.call now)
  inbox :=
    if Arrives sendmsg src then v.inbox ++ [(src, m.reply v.manager now)] else v.inbox

def step (v : Service) : ServiceEvent → Service
  | .send src m => { v with waiting := v.waiting ++ [(src, m)] }
  | .turn now sendmsg =>
    match v.waiting with
    | [] => v
    | (src, m) :: waiting => v.answer now sendmsg src m waiting
  | .call c => { v with manager := v.manager.step c }

end Service

namespace ServiceEvent

/-- What the daemon sees of it. -/
def event : ServiceEvent → FabricEvent
  | send src m => .arrive ⟨m.message.bytes, src⟩
  | turn now sendmsg => .iterate now sendmsg
  | call c => .call c

def Proper (alloc : ℕ → Bool) : ServiceEvent → Prop
  | send _ m => m.Proper alloc
  | _ => True

/-- The message that is sent. -/
def sends : ServiceEvent → List (String × ClientMessage)
  | send src m => [(src, m)]
  | _ => []

end ServiceEvent

/-- The daemon is in a state of the service. -/
structure Represents (v : Service) (s : IPCMonitor) : Prop where
  socket : s.ipc_manager_.socket = v.waiting.map fun w => ⟨w.2.message.bytes, w.1⟩
  deque : s.ipc_manager_.message_deque_ = []
  manager : s.manager = v.manager
  sent : s.sent = v.inbox.map fun r => (r.1, r.2.message.bytes)

/-! ## Sending -/

/-- With the defaults no wait overflows. -/
theorem sync_send_defaults (sendmsg : ℕ → SendResult) (dest_name : String) :
    ∃ ret, sync_send sendmsg dest_name 10 10000 =
      some (ret, if Arrives sendmsg dest_name then 1 else 0) := by
  rw [sync_send]
  by_cases hempty : dest_name.utf8ByteSize = 0
  · rw [if_pos hempty, if_neg fun h => h.1.1 hempty]
    exact ⟨false, rfl⟩
  · rw [if_neg hempty, buildSendCtxt, if_neg hempty, setAddress_]
    by_cases hlong : kMaxNameLen < dest_name.utf8ByteSize
    · rw [if_pos hlong, if_neg fun h => absurd hlong (not_lt.mpr h.1.2)]
      exact ⟨false, rfl⟩
    · rw [if_neg hlong]
      dsimp only
      obtain ⟨k, hk, hblocks, hends⟩ := exists_ends sendmsg 10
      have hall : ∀ j < 10, int.Fits (10000 * 2 ^ (j + 1)) := by decide
      have hfits : WaitsFit 10000 k := fun j hj => hall j (by omega)
      have hloop : sendLoop sendmsg 10 0 10000 0 = sendLoop sendmsg 10 k (10000 * 2 ^ k) 0 :=
        sendLoop_goes_on hk hblocks hfits
      have hfirst : Arrives sendmsg dest_name ↔ Sends (sendmsg k) := by
        refine ⟨?_, fun h => ⟨⟨hempty, not_lt.mp hlong⟩, k, by omega, hblocks, h⟩⟩
        rintro ⟨-, k', hk', hblocks', hsends⟩
        have hle : k ≤ k' := not_lt.mp fun hlt => (hblocks k' hlt).not_sends hsends
        have hge : k' ≤ k := by
          by_contra hlt
          refine hends.elim (fun h => h (hblocks' k (by omega))) fun h => ?_
          omega
        rwa [Nat.le_antisymm hle hge]
      rw [hloop]
      obtain ⟨hsends, h⟩ | ⟨hsends, ⟨-, h⟩ | ⟨e, h⟩⟩ :=
        @sendLoop_ends sendmsg 10 (10000 * 2 ^ k) k hends
      · rw [h, if_pos (hfirst.mpr hsends)]
        exact ⟨_, rfl⟩
      · rw [h, if_neg (mt hfirst.mp hsends)]
        exact ⟨_, rfl⟩
      · rw [h, if_neg (mt hfirst.mp hsends)]
        exact ⟨_, rfl⟩

/-! ## Receiving what was constructed -/

theorem length_typeField {type : List UInt8} (h : type.length ≤ TYPE_SIZE) :
    (typeField type).length = TYPE_SIZE := by
  rw [typeField, List.length_append, List.length_replicate]
  omega

theorem Metadata.length_bytes {m : Metadata} (h : m.type.length = TYPE_SIZE) :
    m.bytes.length = Metadata.sizeOf := by
  rw [bytes, List.length_append, length_toBytes, h, sizeOf]

/-- The metadata is read back, whatever follows. -/
theorem Metadata.fill_bytes {m : Metadata} (htype : m.type.length = TYPE_SIZE)
    (hsize : m.size < 2 ^ 64) (rest : List UInt8) : Metadata.fill (m.bytes ++ rest) = m := by
  have hlen := m.length_bytes htype
  have htake : (m.bytes ++ rest).take Metadata.sizeOf = m.bytes := List.take_left' hlen
  have hnone : Metadata.sizeOf - (m.bytes ++ rest).length = 0 := by
    rw [List.length_append, hlen]
    omega
  rw [fill, htake, hnone, List.replicate_zero, List.append_nil]
  have hfirst : m.bytes.take 8 = toBytes 8 m.size := List.take_left' length_toBytes
  have hrest : m.bytes.drop 8 = m.type := List.drop_left' length_toBytes
  rw [hfirst, hrest, ofBytes_toBytes, Nat.mod_eq_of_lt (by omega)]

/-- **A message is received** as it was constructed, and taken off the socket. -/
theorem recv_constructed {alloc : ℕ → Bool} {data type : List UInt8} {src : String}
    {socket : List Datagram} {deque : List Message} (htype : type.length ≤ TYPE_SIZE)
    (hsize : data.length < 2 ^ 64) (halloc : alloc data.length = true) :
    FabricManager.recv alloc ⟨⟨(constructMessage data type).bytes, src⟩ :: socket, deque⟩ =
      (true, ⟨socket, deque ++ [⟨⟨data.length, typeField type⟩, data, src⟩]⟩) := by
  have hlen : (Metadata.bytes ⟨data.length, typeField type⟩).length = Metadata.sizeOf :=
    Metadata.length_bytes (length_typeField htype)
  have hfill : ∀ rest, Metadata.fill (Metadata.bytes ⟨data.length, typeField type⟩ ++ rest) =
      ⟨data.length, typeField type⟩ :=
    Metadata.fill_bytes (length_typeField htype) hsize
  have hbytes : (constructMessage data type).bytes =
      Metadata.bytes ⟨data.length, typeField type⟩ ++ data := rfl
  have hne : Metadata.bytes ⟨data.length, typeField type⟩ ≠ [] := by
    rw [← List.length_pos_iff, hlen]
    decide
  have hpeek : ((constructMessage data type).bytes).take Metadata.sizeOf =
      Metadata.bytes ⟨data.length, typeField type⟩ := List.take_left' hlen
  have hall : ((constructMessage data type).bytes).take (Metadata.sizeOf + data.length) =
      Metadata.bytes ⟨data.length, typeField type⟩ ++ data := by
    rw [hbytes, ← hlen, ← List.length_append, List.take_length]
  have hfilled := hfill []
  rw [List.append_nil] at hfilled
  have hdrop : (Metadata.bytes ⟨data.length, typeField type⟩ ++ data).drop Metadata.sizeOf = data :=
    List.drop_left' hlen
  rw [FabricManager.recv, tryPeekMsg, hpeek, if_neg hne]
  dsimp only
  rw [hfilled, if_pos halloc, tryRcvMsg, hall,
    if_neg (List.append_ne_nil_of_left_ne_nil hne data)]
  dsimp only
  rw [hfill, hdrop]

/-! ## One message -/

section Message

variable {alloc : ℕ → Bool} {src : String} {now : ℤ} {sendmsg : ℕ → SendResult} {s : IPCMonitor}

theorem send_eq (msg : Message) : s.send sendmsg msg src =
    some { s with
      sent := if Arrives sendmsg src then s.sent ++ [(src, msg.bytes)] else s.sent } := by
  obtain ⟨ret, h⟩ := sync_send_defaults sendmsg src
  rw [IPCMonitor.send, h, Option.map_some]
  by_cases hsends : Arrives sendmsg src
  · rw [if_pos hsends, if_pos hsends]
    rfl
  · rw [if_neg hsends, if_neg hsends]
    simp

theorem processMsg_request {msg : Message}
    (h : msg.metadata.type = typeField kLibkinetoRequest) :
    IPCMonitor.processMsg msg now sendmsg s =
      IPCMonitor.getLibkinetoOnDemandRequest msg now sendmsg s := by
  rw [IPCMonitor.processMsg, h, if_neg (by decide), if_pos (by decide)]

theorem processMsg_context {msg : Message}
    (h : msg.metadata.type = typeField kLibkinetoContext) :
    IPCMonitor.processMsg msg now sendmsg s =
      IPCMonitor.registerLibkinetoContext msg sendmsg s := by
  rw [IPCMonitor.processMsg, h, if_pos (by decide)]

/-- A request that is read asks the config manager. -/
theorem getLibkinetoOnDemandRequest_eq {msg : Message} {configType : BitVec 32} {jobid pid : ℤ}
    {ancestors : List ℤ} {n : ℕ} (hn : n = ancestors.length + 1)
    (h₁ : intAt 4 0 msg.buf = some configType.toInt) (h₂ : intAt 4 4 msg.buf = some (n : ℤ))
    (h₃ : intAt 8 8 msg.buf = some jobid)
    (h₄ : intsAt 4 msg.buf 16 n = some (pid :: ancestors)) :
    IPCMonitor.getLibkinetoOnDemandRequest msg now sendmsg s =
      IPCMonitor.send sendmsg (constructMessage (obtainOnDemandConfig s.manager.jobs
        (toString jobid) pid ancestors configType now).1.toUTF8.toList kLibkinetoRequest) msg.src
        { s with
          manager := s.manager.step (.call (.obtain (toString jobid) pid ancestors configType now)) } := by
  have hzero : ¬ (n : ℤ) = 0 := by omega
  have hneg : ¬ (n : ℤ) < 0 := by omega
  rw [IPCMonitor.getLibkinetoOnDemandRequest, h₁, h₂]
  simp only [Option.bind_eq_bind, Option.bind_some, if_neg hzero, if_neg hneg, h₃,
    Int.toNat_natCast, h₄, BitVec.ofInt_toInt]

/-- An instance that is read is registered. -/
theorem registerLibkinetoContext_eq {msg : Message} {gpu pid jobid : ℤ}
    (h₁ : intAt 4 0 msg.buf = some gpu) (h₂ : intAt 4 4 msg.buf = some pid)
    (h₃ : intAt 8 8 msg.buf = some jobid) :
    IPCMonitor.registerLibkinetoContext msg sendmsg s =
      IPCMonitor.send sendmsg (constructMessage (intBytes 4
        (s.manager.registerLibkinetoContext (toString jobid) pid gpu).1) kLibkinetoContext) msg.src
        { s with
          manager := s.manager.step (.registerLibkinetoContext (toString jobid) pid gpu) } := by
  rw [IPCMonitor.registerLibkinetoContext, h₁, h₂, h₃]
  rfl

theorem processMsg_eq {m : ClientMessage} (hm : m.Proper alloc) :
    IPCMonitor.processMsg { m.message with src := src } now sendmsg s =
      IPCMonitor.send sendmsg (m.reply s.manager now).message src
        { s with manager := s.manager.step (m.call now) } := by
  cases m with
  | request configType jobid pid ancestors =>
    obtain ⟨-, hjobid, hpids, hlen⟩ := hm
    have h₁ := @intAt_append 4 31 0 configType.toInt []
      (intBytes 4 (ancestors.length + 1 : ℕ) ++ (intBytes 8 jobid ++
        (pid :: ancestors).flatMap (intBytes 4))) rfl (fitsIn_toInt configType) rfl
    have h₂ := @intAt_append 4 31 4 (ancestors.length + 1 : ℕ) (intBytes 4 configType.toInt)
      (intBytes 8 jobid ++ (pid :: ancestors).flatMap (intBytes 4)) rfl
      (fitsIn_natCast hlen) length_intBytes
    have h₃ := @intAt_append 8 63 8 jobid
      (intBytes 4 configType.toInt ++ intBytes 4 (ancestors.length + 1 : ℕ))
      ((pid :: ancestors).flatMap (intBytes 4)) rfl hjobid (by simp)
    have h₄ := @intsAt_append 4 31 16 (pid :: ancestors) (intBytes 4 configType.toInt ++
      (intBytes 4 (ancestors.length + 1 : ℕ) ++ intBytes 8 jobid)) rfl hpids (by simp)
    simp only [List.append_assoc] at h₃ h₄
    rw [processMsg_request rfl]
    exact getLibkinetoOnDemandRequest_eq rfl h₁ h₂ h₃ h₄
  | context gpu pid jobid =>
    obtain ⟨-, hgpu, hpid, hjobid⟩ := hm
    have h₁ := @intAt_append 4 31 0 gpu [] (intBytes 4 pid ++ (intBytes 8 jobid ++ [])) rfl hgpu rfl
    have h₂ := @intAt_append 4 31 4 pid (intBytes 4 gpu) (intBytes 8 jobid ++ []) rfl hpid
      length_intBytes
    have h₃ := @intAt_append 8 63 8 jobid (intBytes 4 gpu ++ intBytes 4 pid) [] rfl hjobid (by simp)
    rw [List.append_assoc] at h₃
    rw [processMsg_context rfl]
    exact registerLibkinetoContext_eq h₁ h₂ h₃

/-- A message of a process is taken off the socket and answered. -/
theorem iterate_eq {m : ClientMessage} (hm : m.Proper alloc) {socket : List Datagram}
    {manager : LibkinetoConfigManager} {sent : List (String × List UInt8)} :
    IPCMonitor.iterate alloc now sendmsg ⟨⟨⟨m.message.bytes, src⟩ :: socket, []⟩, manager, sent⟩ =
      some ⟨⟨socket, []⟩, manager.step (m.call now), if Arrives sendmsg src then
        sent ++ [(src, (m.reply manager now).message.bytes)] else sent⟩ := by
  have hrecv : FabricManager.recv alloc ⟨⟨m.message.bytes, src⟩ :: socket, []⟩ =
      (true, ⟨socket, [{ m.message with src := src }]⟩) := by
    cases m with
    | request configType jobid pid ancestors =>
      refine recv_constructed (by decide) ?_ hm.1
      have hdata : (ClientMessage.request configType jobid pid ancestors).data.length =
          16 + 4 * (ancestors.length + 1) := by
        simp [ClientMessage.data, List.length_flatMap]
        omega
      rw [hdata]
      have := hm.2.2.2
      omega
    | context gpu pid jobid =>
      refine recv_constructed (by decide) ?_ hm.1
      simp [ClientMessage.data]
  rw [IPCMonitor.iterate]
  dsimp only
  rw [hrecv, if_pos rfl, FabricManager.retrieve_msg]
  dsimp only
  rw [processMsg_eq hm, send_eq]

end Message

/-! ## The daemon is the service -/

section Served

variable {alloc : ℕ → Bool} {v : Service} {s : IPCMonitor}

/-- What is in the sockets and the deque of a daemon that represents the service. -/
theorem Represents.eq (h : Represents v s) :
    s = ⟨⟨v.waiting.map fun w => ⟨w.2.message.bytes, w.1⟩, []⟩, v.manager,
      v.inbox.map fun r => (r.1, r.2.message.bytes)⟩ := by
  obtain ⟨⟨socket, deque⟩, manager, sent⟩ := s
  obtain ⟨rfl, rfl, rfl, rfl⟩ := h
  rfl

/-- An event of the service is one of the daemon. -/
theorem Represents.step (h : Represents v s) {e : ServiceEvent} (he : e.Proper alloc)
    (hv : ∀ w ∈ v.waiting, w.2.Proper alloc) :
    ∃ s', IPCMonitor.step alloc s e.event = some s' ∧ Represents (v.step e) s' := by
  cases e with
  | send src m =>
    refine ⟨_, rfl, ⟨?_, h.deque, h.manager, h.sent⟩⟩
    show s.ipc_manager_.socket ++ _ = _
    rw [h.socket, Service.step, List.map_append]
    rfl
  | call c =>
    refine ⟨_, rfl, ⟨h.socket, h.deque, ?_, h.sent⟩⟩
    show s.manager.step c = v.manager.step c
    rw [h.manager]
  | turn now sendmsg =>
    obtain ⟨waiting, answered, manager, inbox⟩ := v
    show ∃ s', IPCMonitor.iterate alloc now sendmsg s = some s' ∧ _
    cases waiting with
    | nil =>
      rw [h.eq]
      exact ⟨_, rfl, ⟨rfl, rfl, rfl, rfl⟩⟩
    | cons w waiting =>
      obtain ⟨src, m⟩ := w
      have hm : m.Proper alloc := hv (src, m) List.mem_cons_self
      rw [h.eq, List.map_cons, iterate_eq hm]
      refine ⟨_, rfl, ⟨rfl, rfl, rfl, ?_⟩⟩
      show (if Arrives sendmsg src then _ else _) = List.map _ (if Arrives sendmsg src then _ else _)
      by_cases hsends : Arrives sendmsg src
      · rw [if_pos hsends, if_pos hsends, List.map_append]
        rfl
      · rw [if_neg hsends, if_neg hsends]

namespace Service

/-- The messages, in the order that they were sent in, are first those that were answered. -/
def messages (v : Service) : List (String × ClientMessage) :=
  v.answered.map (fun a => (a.1, a.2.1)) ++ v.waiting

/-- An event adds to the messages what is sent in it. -/
theorem messages_step (v : Service) (e : ServiceEvent) :
    (v.step e).messages = v.messages ++ e.sends := by
  cases e with
  | send src m => exact (List.append_assoc _ _ _).symm
  | call c => exact (List.append_nil _).symm
  | turn now sendmsg =>
    refine Eq.trans ?_ (List.append_nil _).symm
    obtain ⟨waiting, answered, manager, inbox⟩ := v
    cases waiting with
    | nil => rfl
    | cons w waiting =>
      show (answered ++ [_]).map _ ++ waiting = answered.map _ ++ w :: waiting
      rw [List.map_append, List.append_assoc]
      rfl

theorem mem_waiting_step {w : String × ClientMessage} {e : ServiceEvent}
    (h : w ∈ (v.step e).waiting) : w ∈ v.waiting ∨ w ∈ e.sends := by
  cases e with
  | send src m => exact List.mem_append.mp h
  | call c => exact Or.inl h
  | turn now sendmsg =>
    obtain ⟨waiting, answered, manager, inbox⟩ := v
    cases waiting with
    | nil => exact Or.inl h
    | cons w' waiting => exact Or.inl (List.mem_cons_of_mem w' h)

/-- No answer reaches a process twice or before an earlier one. -/
theorem inbox_step (v : Service) (e : ServiceEvent)
    (h : v.inbox.Sublist (v.answered.map fun a => (a.1, a.2.2))) :
    (v.step e).inbox.Sublist ((v.step e).answered.map fun a => (a.1, a.2.2)) := by
  cases e with
  | send src m => exact h
  | call c => exact h
  | turn now sendmsg =>
    obtain ⟨waiting, answered, manager, inbox⟩ := v
    cases waiting with
    | nil => exact h
    | cons w waiting =>
      show (if Arrives sendmsg w.1 then inbox ++ [(w.1, w.2.reply manager now)] else inbox).Sublist
        ((answered ++ [(w.1, w.2, w.2.reply manager now)]).map _)
      rw [List.map_append]
      split
      · exact h.append (List.Sublist.refl _)
      · exact h.trans (List.sublist_append_left _ _)

theorem messages_run (v : Service) (events : List ServiceEvent) :
    (events.foldl step v).messages = v.messages ++ events.flatMap ServiceEvent.sends := by
  induction events generalizing v with
  | nil => exact (List.append_nil _).symm
  | cons e events ih =>
    rw [List.foldl_cons, ih, v.messages_step, List.flatMap_cons, List.append_assoc]

theorem inbox_run (v : Service) (events : List ServiceEvent)
    (h : v.inbox.Sublist (v.answered.map fun a => (a.1, a.2.2))) :
    (events.foldl step v).inbox.Sublist
      ((events.foldl step v).answered.map fun a => (a.1, a.2.2)) := by
  induction events generalizing v with
  | nil => exact h
  | cons e events ih => exact ih _ (v.inbox_step e h)

/-- As many iterations as messages are waiting leave none, if no more are sent. -/
theorem waiting_of_turns (v : Service) (turns : List (ℤ × (ℕ → SendResult))) :
    ((turns.map fun t => ServiceEvent.turn t.1 t.2).foldl step v).waiting =
      v.waiting.drop turns.length := by
  induction turns generalizing v with
  | nil => rfl
  | cons t turns ih =>
    rw [List.map_cons, List.foldl_cons, ih, List.length_cons]
    obtain ⟨waiting, answered, manager, inbox⟩ := v
    cases waiting with
    | nil => simp [step]
    | cons w waiting => rfl

end Service

theorem run_cons (e : FabricEvent) (events : List FabricEvent) :
    IPCMonitor.run alloc s (e :: events) =
      (IPCMonitor.step alloc s e).bind fun s' => IPCMonitor.run alloc s' events := rfl

/-- From any state of the service. -/
theorem Represents.run (h : Represents v s) (hv : ∀ w ∈ v.waiting, w.2.Proper alloc)
    (events : List ServiceEvent) (hevents : ∀ e ∈ events, e.Proper alloc) :
    ∃ s', IPCMonitor.run alloc s (events.map ServiceEvent.event) = some s' ∧
      Represents (events.foldl Service.step v) s' := by
  induction events generalizing v s with
  | nil => exact ⟨s, rfl, h⟩
  | cons e events ih =>
    have he : e.Proper alloc := hevents e List.mem_cons_self
    obtain ⟨s', hs', hnext⟩ := h.step he hv
    have hwaiting : ∀ w ∈ (v.step e).waiting, w.2.Proper alloc := by
      intro w hw
      rcases Service.mem_waiting_step hw with hold | hsent
      · exact hv w hold
      · cases e with
        | send src m =>
          rw [List.mem_singleton.mp hsent]
          exact he
        | turn now sendmsg => cases hsent
        | call c => cases hsent
    obtain ⟨s'', hs'', hlast⟩ := ih hnext hwaiting fun e' he' =>
      hevents e' (List.mem_cons_of_mem e he')
    refine ⟨s'', ?_, hlast⟩
    rw [List.map_cons, run_cons, hs', Option.bind_some]
    exact hs''

/-- **The daemon answers every message once**, in the order that they arrive in, whatever calls the
threads make in between: it is a service that has neither lost nor answered twice what was sent, and
of its answers no process has received one twice or out of order. -/
theorem served (events : List ServiceEvent) (hevents : ∀ e ∈ events, e.Proper alloc) :
    ∃ s', IPCMonitor.run alloc .init (events.map ServiceEvent.event) = some s' ∧
      Represents (events.foldl Service.step .init) s' ∧
      (events.foldl Service.step .init).messages = events.flatMap ServiceEvent.sends ∧
      (events.foldl Service.step .init).inbox.Sublist
        ((events.foldl Service.step .init).answered.map fun a => (a.1, a.2.2)) := by
  have hinit : Represents .init .init := ⟨rfl, rfl, rfl, rfl⟩
  have hnone : ∀ w ∈ Service.init.waiting, w.2.Proper alloc := by
    intro w hw
    cases hw
  obtain ⟨s', hrun, hrep⟩ := hinit.run hnone events hevents
  exact ⟨s', hrun, hrep, Service.init.messages_run events,
    Service.init.inbox_run events (List.Sublist.refl [])⟩

/-- Two processes, of which one cannot be reached. -/
def twoProcesses : List ServiceEvent :=
  [.send "kineto" (.context 0 7 3), .send "" (.request 1 3 9 [8]), .turn 10 fun _ => ⟨68, .other 0⟩,
    .call (.refreshBaseConfig "ACTIVITIES_DURATION_MSECS=500"), .turn 20 fun _ => ⟨68, .other 0⟩]

theorem served_twoProcesses :
    (twoProcesses.foldl Service.step .init).messages =
      [("kineto", .context 0 7 3), ("", .request 1 3 9 [8])] := by
  obtain ⟨_, -, -, hmessages, -⟩ := @served (fun size => size < 2 ^ 20) twoProcesses
    (by simp [twoProcesses, ServiceEvent.Proper, ClientMessage.Proper, ClientMessage.data, FitsIn])
  exact hmessages

end Served

/-! ## A datagram that is never taken -/

section Blocked

variable {alloc : ℕ → Bool} {d : Datagram}

/-- There is nothing to look at, or no memory for what the datagram says it is. -/
def Unreadable (alloc : ℕ → Bool) (d : Datagram) : Prop :=
  d.bytes = [] ∨ alloc (Metadata.fill (d.bytes.take Metadata.sizeOf)).size = false

theorem recv_unreadable (hd : Unreadable alloc d) (socket : List Datagram) (deque : List Message) :
    FabricManager.recv alloc ⟨d :: socket, deque⟩ = (false, ⟨d :: socket, deque⟩) := by
  rw [FabricManager.recv, tryPeekMsg]
  dsimp only
  by_cases hempty : d.bytes.take Metadata.sizeOf = []
  · rw [if_pos hempty]
  · rw [if_neg hempty]
    dsimp only
    rcases hd with hd | hd
    · rw [hd] at hempty
      exact absurd rfl hempty
    · rw [if_neg (by rw [hd]; decide)]

/-- **A datagram that is not readable is never taken off the socket**, and nothing after it: the
daemon goes on, without an answer to any process. -/
theorem blocked (hd : Unreadable alloc d) (events : List FabricEvent) (socket : List Datagram)
    (s : IPCMonitor) (hs : s.ipc_manager_.socket = d :: socket) :
    ∃ s', IPCMonitor.run alloc s events = some s' ∧
      s'.ipc_manager_.socket = d :: socket ++ events.flatMap FabricEvent.arrives ∧
      s'.sent = s.sent := by
  induction events generalizing s socket with
  | nil => exact ⟨s, rfl, by rw [hs, List.flatMap_nil, List.append_nil], rfl⟩
  | cons e events ih =>
    have hstep : ∃ s', IPCMonitor.step alloc s e = some s' ∧
        s'.ipc_manager_.socket = d :: (socket ++ e.arrives) ∧ s'.sent = s.sent := by
      cases e with
      | arrive d' => exact ⟨_, rfl, congrArg (· ++ [d']) hs, rfl⟩
      | call c => exact ⟨_, rfl, hs.trans (List.append_nil _).symm, rfl⟩
      | iterate now sendmsg =>
        obtain ⟨⟨socket', deque⟩, manager, sent⟩ := s
        obtain rfl : socket' = d :: socket := hs
        refine ⟨⟨⟨d :: socket, deque⟩, manager, sent⟩, ?_, (List.append_nil _).symm, rfl⟩
        show IPCMonitor.iterate alloc now sendmsg _ = _
        rw [IPCMonitor.iterate]
        dsimp only
        rw [recv_unreadable hd, if_neg Bool.false_ne_true]
    obtain ⟨s', hs', hsocket, hsent⟩ := hstep
    obtain ⟨s'', hs'', hsocket', hsent'⟩ := ih _ s' hsocket
    refine ⟨s'', ?_, ?_, hsent'.trans hsent⟩
    · rw [run_cons, hs', Option.bind_some]
      exact hs''
    · rw [hsocket', List.flatMap_cons, List.cons_append, List.cons_append, List.append_assoc]

/-- An empty datagram is in front of the message of a process. -/
theorem blocked_empty :
    ∃ s', IPCMonitor.run (fun _ => true)
        ⟨⟨[⟨[], "kineto"⟩], []⟩, .init, []⟩
        [.arrive ⟨(ClientMessage.context 0 7 3).message.bytes, "kineto"⟩,
          .iterate 10 fun _ => ⟨68, .other 0⟩] = some s' ∧ s'.sent = [] :=
  (blocked (Or.inl rfl) _ [] _ rfl).imp fun _ h => ⟨h.1, h.2.2⟩

end Blocked

end ipcfabric
end Dynolog
end IntegratedCLI
