import Mathlib.Data.Set.Function
import RaftCpp.Cluster
import RaftCpp.Library.Machine
import RaftCpp.Library.InputStream

/-! # From the configuration file to the nodes

A line of the file is a host and a port, and reading stops at the first line
that is not. `main` makes an id out of each line; ThreadMain makes the endpoint
it binds out of the same two parts, in another place. The host may have colons
of its own, but the last colon of an id is the one before the port.
-/

namespace RaftCpp

open UnorderedMap Machine InputStream

def intMin : Int := -2147483648

def intMax : Int := 2147483647

/-- What a line of the file can hold. -/
structure Address where
  addr : String
  port : Int
  addr_ne : addr ≠ ""
  no_space : ∀ c ∈ addr.toList, isSpace c = false
  port_fits : Fits intMin intMax port
  deriving DecidableEq

def buildRPCAddr (addr : String) (port : Int) : String := "tcp://" ++ addr ++ ":" ++ toString port

/-- `iss >> addr >> port`; the rest of the line is not looked at. -/
def readLine (line : String) : Option Address :=
  match hWord : word line.toList with
  | none => none
  | some (addr, rest) =>
    match hPort : number intMin intMax rest with
    | none => none
    | some port =>
      some ⟨addr, port, (word_wellFormed hWord).1, (word_wellFormed hWord).2, number_fits hPort⟩

def readConfig : List String → List Address
  | [] => []
  | line :: lines =>
    match readLine line with
    | some address => address :: readConfig lines
    | none => []

namespace Address

def id (a : Address) : String := buildRPCAddr a.addr a.port

def line (a : Address) : String := a.addr ++ " " ++ toString a.port

theorem readLine_line (a : Address) : readLine a.line = some a := by
  have hLine : a.line.toList = a.addr.toList ++ ' ' :: (toString a.port).toList := by
    simp [line, String.toList_append]
  have hWord := word_append a.addr_ne a.no_space (toString a.port).toList
  rw [← hLine] at hWord
  have hPort := number_toString a.port_fits
  unfold readLine
  split
  · rename_i hNone
    rw [hWord] at hNone
    cases hNone
  · rename_i hWord'
    rw [hWord] at hWord'
    cases hWord'
    split
    · rename_i hNone
      rw [hPort] at hNone
      cases hNone
    · rename_i hPort'
      rw [hPort] at hPort'
      cases hPort'
      rfl

end Address

theorem colon_not_mem_toString (port : Int) : ':' ∉ (toString port).toList := by
  intro hColon
  cases mem_toString hColon with
  | inl hMinus => exact absurd hMinus (by decide)
  | inr hDigit => exact absurd hDigit (by decide)

theorem toList_buildRPCAddr (addr : String) (port : Int) : (buildRPCAddr addr port).toList =
    ("tcp://" ++ addr).toList ++ ':' :: (toString port).toList := by
  simp [buildRPCAddr, String.toList_append]

theorem buildRPCAddr_inj {addr addr' : String} {port port' : Int} (hFits : Fits intMin intMax port)
    (hFits' : Fits intMin intMax port') (h : buildRPCAddr addr port = buildRPCAddr addr' port') :
    addr = addr' ∧ port = port' := by
  have hList := congrArg String.toList h
  rw [toList_buildRPCAddr, toList_buildRPCAddr] at hList
  -- whatever the hosts are, no colon follows the one before the port
  obtain ⟨hAddr, hPort⟩ := separator_inj (colon_not_mem_toString port)
    (colon_not_mem_toString port') hList
  constructor
  · rw [String.toList_append, String.toList_append] at hAddr
    exact String.toList_inj.mp (List.append_cancel_left hAddr)
  · exact toString_inj hFits hFits' (String.toList_inj.mp hPort)

theorem Address.id_injective : Function.Injective Address.id := by
  intro a b h
  obtain ⟨hAddr, hPort⟩ := buildRPCAddr_inj a.port_fits b.port_fits h
  cases a
  cases b
  cases hAddr
  cases hPort
  rfl

theorem Address.id_ne (a : Address) : a.id ≠ "" := by
  simp [id, buildRPCAddr, ← String.toList_inj]

def service (addresses : List Address) : List String := addresses.map Address.id

theorem service_nodup {addresses : List Address} (h : addresses.Nodup) :
    (service addresses).Nodup :=
  h.map Address.id_injective

/-- The endpoint that ThreadMain binds. -/
def Raft.threadMain (r : Raft) : String :=
  "tcp://" ++ r.rpcAddr ++ ":" ++ toString r.rpcPort

def peer (addresses : List Address) (i : Fin addresses.length) (now : Int)
    (commitIndex lastApplied : UInt64) : Node :=
  let a := addresses.get i
  Node.new ⟨a.addr, a.port, now, commitIndex, lastApplied⟩ (service addresses)
    (i.cast (List.length_map _).symm)

/-- A history of the node that `main` makes out of the line `i`, whenever it starts. -/
def Runs (addresses : List Address) (i : Fin addresses.length) (h : List (Entry Input Output))
    (n : Node) : Prop :=
  ∃ now commitIndex lastApplied, Plays Node.step (peer addresses i now commitIndex lastApplied) h n

def KeepsPeers (h : List (Entry Input Output)) : Prop := ∀ e ∈ h, ∀ id, e.output ≠ .evicts id

namespace Node

variable {n m : Node} {h : List (Entry Input Output)}

theorem threadMain_plays (hPlays : Plays step n h m) : m.raft.threadMain = n.raft.threadMain := by
  induction hPlays with
  | nil => rfl
  | cons hStep _ ih =>
    have hTurn := turn_of_step hStep
    rw [ih]
    cases hTurn <;> rfl

theorem peers_plays (hPlays : Plays step n h m) (hKeep : KeepsPeers h) :
    m.raft.peers = n.raft.peers := by
  induction hPlays with
  | nil => rfl
  | cons hStep _ ih =>
    obtain ⟨hFirst, hRest⟩ := List.forall_mem_cons.mp hKeep
    rw [ih hRest]
    exact peers_eq_of_turn (turn_of_step hStep) hFirst

theorem reachable_plays {peersAddrs : List String} {peerId : Fin peersAddrs.length}
    (hn : (system peersAddrs peerId).Reachable n) (hPlays : Plays step n h m) :
    (system peersAddrs peerId).Reachable m := by
  induction hPlays with
  | nil => exact hn
  | cons hStep _ ih => exact ih (reachable_step hn hStep)

end Node

section Runs

variable {addresses : List Address} {i : Fin addresses.length} {h : List (Entry Input Output)}
  {n : Node} (hRuns : Runs addresses i h n)

include hRuns

theorem Runs.reachable :
    (Node.system (service addresses) (i.cast (List.length_map _).symm)).Reachable n := by
  obtain ⟨now, commitIndex, lastApplied, hPlays⟩ := hRuns
  exact Node.reachable_plays (.start ⟨_, rfl⟩) hPlays

theorem Runs.selfId : n.raft.selfId = (addresses.get i).id := by
  rw [Node.selfId_of_reachable hRuns.reachable]
  simp [service]

theorem Runs.threadMain : n.raft.threadMain = (addresses.get i).id := by
  obtain ⟨now, commitIndex, lastApplied, hPlays⟩ := hRuns
  rw [Node.threadMain_plays hPlays]
  rfl

theorem Runs.peers (hKeep : KeepsPeers h) : n.raft.peers = (service addresses).toFinset := by
  obtain ⟨now, commitIndex, lastApplied, hPlays⟩ := hRuns
  rw [Node.peers_plays hPlays hKeep]
  rfl

theorem Runs.channels (hKeep : KeepsPeers h) (hDemon : n.demon ≠ .sleeping) (id : String) :
    n.channels id = if id ∈ service addresses ∧ id ≠ (addresses.get i).id then some (some ⟨id⟩)
      else none := by
  rw [(Node.linked_of_reachable hRuns.reachable).channels hDemon, Raft.openChannels,
    hRuns.peers hKeep, hRuns.selfId]
  simp only [List.mem_toFinset]

end Runs

theorem mem_service {addresses : List Address} {id : String} :
    id ∈ service addresses ↔ ∃ j : Fin addresses.length, (addresses.get j).id = id := by
  constructor
  · intro hId
    obtain ⟨a, ha, rfl⟩ := List.mem_map.mp hId
    obtain ⟨j, rfl⟩ := List.get_of_mem ha
    exact ⟨j, rfl⟩
  · rintro ⟨j, rfl⟩
    exact List.mem_map_of_mem (List.get_mem _ _)

theorem id_get_injective {addresses : List Address} (hNodup : addresses.Nodup) :
    Function.Injective fun j => (addresses.get j).id :=
  Address.id_injective.comp (List.nodup_iff_injective_get.mp hNodup)

section Channels

variable {addresses : List Address} {i : Fin addresses.length} {h : List (Entry Input Output)}
  {n : Node} (hNodup : addresses.Nodup) (hRuns : Runs addresses i h n) (hKeep : KeepsPeers h)

include hNodup hRuns hKeep

theorem Runs.card_peers : n.raft.peers.card = addresses.length := by
  rw [hRuns.peers hKeep, List.toFinset_card_of_nodup (service_nodup hNodup)]
  exact List.length_map _

theorem Runs.channel_to (hDemon : n.demon ≠ .sleeping) {j : Fin addresses.length} (hj : j ≠ i) :
    n.channels (addresses.get j).id = some (some ⟨(addresses.get j).id⟩) := by
  have hOther : (addresses.get j).id ≠ (addresses.get i).id :=
    fun hEq => hj (id_get_injective hNodup hEq)
  rw [hRuns.channels hKeep hDemon, if_pos ⟨mem_service.mpr ⟨j, rfl⟩, hOther⟩]

theorem Runs.bijOn_channels (hDemon : n.demon ≠ .sleeping) :
    Set.BijOn (fun j => (addresses.get j).id) {j | j ≠ i} {id | HasKey n.channels id} := by
  refine ⟨?_, (id_get_injective hNodup).injOn, ?_⟩
  · intro j hj
    show (n.channels (addresses.get j).id).isSome
    rw [Runs.channel_to hNodup hRuns hKeep hDemon hj]
    rfl
  · intro id hKey
    have hKey' : (n.channels id).isSome := hKey
    rw [hRuns.channels hKeep hDemon] at hKey'
    split at hKey'
    · rename_i hId
      obtain ⟨j, rfl⟩ := mem_service.mp hId.1
      exact ⟨j, fun hj => hId.2 (by rw [hj]), rfl⟩
    · cases hKey'

end Channels

/-- Distinct lines make distinct ids. So every node counts all of them as peers, itself
included, has one channel to each of the others, and connects each one to the endpoint
that the node at its other end binds. -/
theorem ids_are_unambiguous {addresses : List Address} (hNodup : addresses.Nodup) :
    (service addresses).Nodup ∧
    ∀ i h n, Runs addresses i h n →
      n.raft.selfId = (addresses.get i).id ∧ n.raft.threadMain = (addresses.get i).id ∧
      (KeepsPeers h →
        n.raft.peers.card = addresses.length ∧ n.raft.selfId ∈ n.raft.peers ∧
        (n.demon ≠ .sleeping →
          Set.BijOn (fun j => (addresses.get j).id) {j | j ≠ i} {id | HasKey n.channels id} ∧
          ∀ j ≠ i, n.channels (addresses.get j).id = some (some ⟨(addresses.get j).id⟩))) := by
  refine ⟨service_nodup hNodup, ?_⟩
  intro i h n hRuns
  refine ⟨hRuns.selfId, hRuns.threadMain, ?_⟩
  intro hKeep
  refine ⟨Runs.card_peers hNodup hRuns hKeep, ?_, ?_⟩
  · rw [hRuns.selfId, hRuns.peers hKeep]
    exact List.mem_toFinset.mpr (mem_service.mpr ⟨i, rfl⟩)
  · intro hDemon
    constructor
    · exact Runs.bijOn_channels hNodup hRuns hKeep hDemon
    · intro j hj
      exact Runs.channel_to hNodup hRuns hKeep hDemon hj

/-- The first id, with a colon and the port after it, is the second. -/
def colonAddresses : List Address :=
  [⟨"::1", 5555, by decide, by simp [isSpace], by decide⟩,
    ⟨"::1:5555", 5555, by decide, by simp [isSpace], by decide⟩]

theorem ids_are_unambiguous_colons :
    (service colonAddresses).Nodup ∧
    ∃ n, Runs colonAddresses ⟨0, by decide⟩ [⟨.launch, .silent⟩] n ∧
      n.raft.threadMain = "tcp://::1:5555" ∧ n.raft.peers.card = 2 ∧
      n.channels "tcp://::1:5555:5555" = some (some ⟨"tcp://::1:5555:5555"⟩) := by
  have hNodup : colonAddresses.Nodup := by decide
  obtain ⟨hIds, hNodes⟩ := ids_are_unambiguous hNodup
  obtain ⟨n, hLaunch⟩ : ∃ n, (peer colonAddresses ⟨0, by decide⟩ 0 0 0).step .launch =
      some (n, .silent) ∧ n.demon = .unlocked := ⟨_, rfl, rfl⟩
  have hRuns : Runs colonAddresses ⟨0, by decide⟩ [⟨.launch, .silent⟩] n :=
    ⟨0, 0, 0, .cons hLaunch.1 (.nil n)⟩
  obtain ⟨-, hBound, hKeep⟩ := hNodes _ _ _ hRuns
  obtain ⟨hCard, -, hChannels⟩ := hKeep (by simp [KeepsPeers])
  obtain ⟨-, hOther⟩ := hChannels (by rw [hLaunch.2]; exact Demon.noConfusion)
  exact ⟨hIds, n, hRuns, hBound, hCard, hOther ⟨1, by decide⟩ (by decide)⟩

def config (addresses : List Address) (hNodup : addresses.Nodup) (hNe : addresses ≠ []) :
    Config where
  addrs := service addresses
  nodup := service_nodup hNodup
  ne_nil h := hNe (List.map_eq_nil_iff.mp h)
  addr_ne id hId := by
    obtain ⟨j, rfl⟩ := mem_service.mp hId
    exact Address.id_ne _

/-- The nodes that `main` makes, with nothing sent yet, are a cluster in its initial state. -/
theorem initial_of_peers {addresses : List Address} (hNodup : addresses.Nodup)
    (hNe : addresses ≠ []) {s : Cluster} (hNet : s.net = .empty) (hJournal : s.journal = [])
    (hNodes : ∀ i, ∃ now commitIndex lastApplied,
      s.nodes (addresses.get i).id = peer addresses i now commitIndex lastApplied) :
    (Cluster.system (config addresses hNodup hNe)).initial s := by
  refine ⟨hNet, hJournal, ?_⟩
  intro peerId
  obtain ⟨now, commitIndex, lastApplied, hEq⟩ := hNodes (peerId.cast (List.length_map _))
  have hId : (config addresses hNodup hNe).addrs.get peerId =
      (addresses.get (peerId.cast (List.length_map _))).id :=
    List.getElem_map _
  rw [hId]
  exact ⟨_, hEq⟩

end RaftCpp
