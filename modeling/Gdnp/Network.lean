import Gdnp.DiscoveryAnswer
import Gdnp.Lib.Medium
import Gdnp.Reuse

/-!
# Clients and servers on a network

Any number of clients and servers exchange datagrams that may be lost, repeated, delayed and
reordered, while their other threads go on.  A datagram is justified when it is a DISCOVERY_MSG, or
the answer of a server to one that was sent before (`Genuine`); a server sends no other
(`ServerMaster.step_responded`).
-/

open CMem EventMachine

namespace Gdnp

/-! ### The network -/

inductive Node (κ ν : Type*) where
  | client (k : κ)
  | server (n : ν)
  deriving DecidableEq

namespace Node

variable {κ ν : Type*}

def State : Node κ ν → Type
  | client _ => ApiClient
  | server _ => ServerMaster

def Act : Node κ ν → Type
  | client _ => ApiAct
  | server _ => MasterAct

def Event : Node κ ν → Type
  | client _ => ApiEvent
  | server _ => MasterEvent

end Node

/-- The datagram that is received after a `select`. -/
def SelectEnv.datagram? : SelectEnv → Option Msg
  | ready pdu => pdu
  | timeout | fail => none

def ApiAct.datagram? : ApiAct → Option Msg
  | discoverStep env => env.select.datagram?
  | _ => none

def MasterAct.datagram? : MasterAct → Option Msg
  | iterate env => env.datagram
  | _ => none

/-- The datagram that a step sends. -/
def ApiEvent.sentMsg? : ApiEvent → Option Msg
  | discovery e => e.sentMsg?
  | _ => none

/-- What follows a block that is read as a text is as `follows` says. -/
def Node.Follows {κ ν : Type*} (follows : CString → Prop) : ∀ i : Node κ ν, i.Act → Prop
  | client _, .discoverStep env => follows env.behind
  | _, _ => True

theorem Node.follows_true {κ ν : Type*} (i : Node κ ν) (a : i.Act) :
    i.Follows (fun _ => True) a := by
  cases i with
  | client k => cases a <;> trivial
  | server n => trivial

abbrev DiscoveryNet (κ ν : Type*) := Medium (Node.State : Node κ ν → Type) Msg

namespace DiscoveryNet

variable {κ ν : Type*}

def client (s : DiscoveryNet κ ν) (k : κ) : ApiClient := s.party (.client k)

def server (s : DiscoveryNet κ ν) (n : ν) : ServerMaster := s.party (.server n)

/-- Clients and servers before any datagram. -/
def start (clients : κ → ApiClient) (servers : ν → ServerMaster) : DiscoveryNet κ ν where
  party
    | .client k => clients k
    | .server n => servers n
  sent := []

variable (o : ByteOrder) (inetPton : CString → Option (BitVec 128))
  (inetNtop : BitVec 128 → CString)

def nodes : ∀ i : Node κ ν, Party i.State i.Act i.Event Msg
  | .client _ =>
    ⟨ApiClient.machine o inetPton inetNtop, ApiAct.datagram?, ApiEvent.sentMsg?⟩
  | .server _ => ⟨ServerMaster.machine o, MasterAct.datagram?, MasterEvent.responded?⟩

/-- The network as a machine. -/
def machine [DecidableEq κ] [DecidableEq ν] :
    EventMachine (DiscoveryNet κ ν) (Σ i : Node κ ν, i.Act) (Σ i : Node κ ν, i.Event) :=
  network (nodes o inetPton inetNtop)

/-- The network, where datagrams may be lost for good. -/
def lossyMachine [DecidableEq κ] [DecidableEq ν] :
    EventMachine (DiscoveryNet κ ν) (LossyAct (Σ i : Node κ ν, i.Act) Msg)
      (Σ i : Node κ ν, i.Event) :=
  lossy (nodes o inetPton inetNtop)

end DiscoveryNet

/-- A client has asked in the given session. -/
def Asked (sent : List Msg) (sessionId : UInt32) : Prop :=
  ∃ msg ∈ sent, ∃ d, decode (some msg) = .ok d ∧ d.type = .discoveryMsg ∧ d.sessionId = sessionId

theorem Asked.sessionId_le {sent : List Msg} {sessionId : UInt32} (h : Asked sent sessionId) :
    sessionId.toNat ≤ maxSessionId := by
  obtain ⟨msg, -, d, hd, -, rfl⟩ := h
  obtain ⟨hcode, hid, -, -⟩ := decode_eq_ok_iff.1 hd
  rw [hid]
  exact (header_join hcode).1

variable {κ ν : Type*}

/-- A DISCOVERY_MSG, or the answer to one with the name of a server. -/
inductive Genuine (o : ByteOrder) (name : ν → CString) (sent : List Msg) (msg : Msg) : Prop
  | discovery {d} (h : decode (some msg) = .ok d) (type : d.type = .discoveryMsg)
  | answer {sessionId} (n : ν) (asked : Asked sent sessionId)
    (h : decode (some msg) =
      .ok ⟨.responseMsg, sessionId, locatorData o (name n), maxStringLength + 1⟩)

/-- The address in the name of a server, as it is read with what follows it. -/
def LocatedAt (inetPton : CString → Option (BitVec 128)) (follows : CString → Prop)
    (name : ν → CString) (addr : BitVec 128) : Prop :=
  ∃ n behind, follows behind ∧ inetPton (textAt (name n).bytes behind) = some addr

variable {o : ByteOrder} {inetPton : CString → Option (BitVec 128)}
  {inetNtop : BitVec 128 → CString} {name : ν → CString} {follows : CString → Prop}
  {sent sent' : List Msg} {msg : Msg}

theorem Asked.mono {sessionId : UInt32} (hsent : sent <+: sent') (h : Asked sent sessionId) :
    Asked sent' sessionId := by
  obtain ⟨msg, hmsg, hd⟩ := h
  exact ⟨msg, hsent.subset hmsg, hd⟩

theorem recvPdu_eq_ok {sock : ℤ} {pdu : Option Msg} {d : Decoded} (h : recvPdu sock pdu = .ok d) :
    0 ≤ sock ∧ ∃ msg, pdu = some msg ∧ decode (some msg) = .ok d := by
  unfold recvPdu at h
  split_ifs at h with hsock
  cases pdu with
  | none => cases h
  | some msg => exact ⟨not_lt.1 hsock, msg, rfl, h⟩

theorem genuine_persistent : Persistent (Genuine o name) := by
  intro sent sent' msg hsent h
  cases h with
  | discovery h type => exact .discovery h type
  | answer n asked h => exact .answer n (asked.mono hsent) h

/-! ### Servers -/

namespace ServerMaster

variable {sm sm' : ServerMaster} {env : LoopEnv} {a : MasterAct} {es : List MasterEvent}

theorem dispatch_localInterfaces :
    (sm.dispatch o env).1.localInterfaces = sm.localInterfaces := by
  unfold dispatch
  split_ifs
  · rfl
  · unfold acceptClient
    split_ifs <;> rfl
  · obtain ⟨ssMap, h⟩ := readClient_eq sm.unlock env
    rw [h]
    rfl
  · rfl

/-- The list of interfaces stays what the constructor made it. -/
theorem step_localInterfaces (h : sm.step o a = some (sm', es)) :
    sm'.localInterfaces = sm.localInterfaces := by
  cases a with
  | iterate env =>
    obtain ⟨-, ready, -, -, heq⟩ | ⟨-, -, flags, rfl⟩ := iterate_inv h
    · have hsm' := congrArg (·.1.localInterfaces) heq
      exact hsm'.symm.trans dispatch_localInterfaces
    · rfl
  | listen sock =>
    cases h
    rfl
  | session sessionId b =>
    obtain ⟨ss, -, h⟩ := Option.bind_eq_some_iff.1 (step_session h)
    obtain ⟨r, -, h⟩ := Option.map_eq_some_iff.1 h
    split_ifs at h <;> cases h <;> rfl

/-- A server sends nothing but its answers to DISCOVERY_MSGs. -/
theorem step_responded (h : sm.step o a = some (sm', es))
    (hmsg : msg ∈ es.filterMap MasterEvent.responded?) :
    ∃ env d, a = .iterate env ∧ recvPdu sm.udpSock env.datagram = .ok d ∧
      d.type = .discoveryMsg ∧ decode (some msg) = .ok ⟨.responseMsg, d.sessionId,
        locatorData o (sm.localInterfaces[1]?.getD env.outside), maxStringLength + 1⟩ := by
  cases a with
  | iterate env =>
    refine ⟨env, ?_⟩
    obtain ⟨-, ready, -, -, heq⟩ | ⟨-, rfl, -⟩ := iterate_inv h
    · unfold dispatch at heq
      split_ifs at heq with hudp hlisten htcp
      · cases heq
        cases hrecv : recvPdu sm.udpSock env.datagram with
        | error e =>
          have hnone : recvPdu (sm.testing ready).unlock.udpSock env.datagram = .error e := hrecv
          simp [recvDiscovery, hnone, MasterEvent.responded?] at hmsg
        | ok d =>
          by_cases htype : d.type = .discoveryMsg
          · rw [(@responded_recvDiscovery o (sm.testing ready).unlock env d hrecv htype).2,
              Option.mem_toList] at hmsg
            exact ⟨d, rfl, rfl, htype, decode_locator hmsg⟩
          · have hsome : recvPdu (sm.testing ready).unlock.udpSock env.datagram = .ok d := hrecv
            simp [recvDiscovery, hsome, htype, MasterEvent.responded?] at hmsg
      · unfold acceptClient at heq
        split_ifs at heq <;> cases heq <;> simp [MasterEvent.responded?] at hmsg
      · unfold readClient at heq
        dsimp only at heq
        split at heq <;> cases heq
        · simp [MasterEvent.responded?] at hmsg
        · unfold distribute at hmsg
          split at hmsg <;> split_ifs at hmsg <;> simp [MasterEvent.responded?] at hmsg
      · cases heq
        simp at hmsg
    · simp at hmsg
  | listen sock =>
    cases h
    simp at hmsg
  | session sessionId b =>
    obtain ⟨rfl, -, -⟩ | ⟨ss, s', ds, -, -, -, rfl⟩ := sessionStep_cases (step_session h)
    · simp [MasterEvent.responded?] at hmsg
    · rw [List.filterMap_map] at hmsg
      simp [MasterEvent.responded?, Function.comp_def] at hmsg

/-- A server that is not blocked can answer a DISCOVERY_MSG. -/
theorem answers {t : CString} {d : Decoded} (hd : decode (some msg) = .ok d)
    (htype : d.type = .discoveryMsg) (ht : sm.localInterfaces[1]? = some t)
    (hlen : t.bytes.length < ipStrLen) (hsock : 0 ≤ sm.udpSock) (hlock : sm.fdsetLock = false) :
    ∃ env sm' es answer, env.datagram = some msg ∧ sm.iterate o env = some (sm', es) ∧
      es.filterMap MasterEvent.responded? = [answer] ∧ decode (some answer) =
        .ok ⟨.responseMsg, d.sessionId, locatorData o t, maxStringLength + 1⟩ := by
  let env : LoopEnv := { datagramEnv (some msg) with ready := some [sm.udpSock.toNat] }
  have hrecv : recvPdu sm.udpSock (some msg) = .ok d := by
    rw [recvPdu, if_neg (not_lt.2 hsock)]
    exact hd
  have hflagged : sm.udpSock ∈ sm.flagged [sm.udpSock.toNat] := by
    simp [flagged, watched, Int.toNat_of_nonneg hsock]
  have htesting : (sm.testing [sm.udpSock.toNat]).udpSock ∈
      (sm.testing [sm.udpSock.toNat]).readFlags := hflagged
  obtain ⟨answer, hanswer⟩ := Option.isSome_iff_exists.1 (writePdu_isSome_iff.2
    ((@writePdu_success_iff _ .responseMsg _ env.send).2
      ⟨writable_locator (o := o) hlen (sessionId_le_of_recvPdu hrecv), rfl⟩))
  obtain ⟨-, ready, hready, -, heq⟩ | ⟨hnone, -⟩ := iterate_cases o env hlock
  · cases hready
    rw [dispatch, if_pos htesting] at heq
    refine ⟨env, _, _, answer, rfl, heq, ?_, decode_locator hanswer⟩
    have hresponded := (@responded_recvDiscovery o sm env d hrecv htype).2
    rw [ht, Option.getD_some, hanswer] at hresponded
    exact hresponded
  · have hempty := hnone (by omega) _ rfl
    rw [hempty] at hflagged
    cases hflagged

end ServerMaster

end Gdnp
