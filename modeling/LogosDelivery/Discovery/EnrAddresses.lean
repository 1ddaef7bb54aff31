import LogosDelivery.Discovery.EnrMultiaddrs

/-! # The node's own addresses in its record

`node/enr_addresses.nim`.  `updateEnrAddresses` builds the record anew: the scalars, the fields that
are no addresses, and as many addresses as fit.

Three libraries are parameters: the addresses (`Libp2p`), the node's key (`NodeKeys`), and the
records, with their size limit (`EnrLibrary`). -/

namespace LogosDelivery.Discovery

open Lib
open StoreSync (Byte Defect)

/-! ### Addresses -/

abbrev Port := UInt16

inductive IpAddress where
  | ipv4 (address : Vector Byte 4)
  | ipv6 (address : Vector Byte 16)
deriving DecidableEq

/-- What is asked of an address.  An empty binary form is no address. -/
structure Libp2p (A : Type) extends MultiAddresses A where
  isCircuitRelayMA : A → Bool
  part : A → String → Option A
  protoArgument : A → Option (List Byte)
  protocols : A → Option (List String)
  contains : A → String → Bool
  getIp : A → Option IpAddress
  initTAddress : A → Option Port
  init_nil : init [] = none

section Addresses

variable {A : Type} (P : Libp2p A)

def transportPort (ma : A) : Option Port :=
  ["tcp", "udp"].findSome? (fun code =>
    (P.part ma code).bind (fun part =>
      (P.protoArgument part).bind (fun portBytes =>
        if portBytes.length = 2 then some (fromBytesBE portBytes) else none)))

def hasZeroPort (ma : A) : Bool :=
  match transportPort P ma with
  | none => false
  | some port => port = 0

/-- `0.0.0.0`, `::` and `::ffff:0.0.0.0`. -/
def Wildcards : List IpAddress :=
  [.ipv4 #v[0, 0, 0, 0], .ipv6 #v[0, 0, 0, 0, 0, 0, 0, 0, 0, 0, 0, 0, 0, 0, 0, 0],
    .ipv6 #v[0, 0, 0, 0, 0, 0, 0, 0, 0, 0, 255, 255, 0, 0, 0, 0]]

def IpAddress.isWildcard (ip : IpAddress) : Bool := decide (ip ∈ Wildcards)

def isConcreteEndpoint (ma : A) : Bool :=
  if P.isCircuitRelayMA ma then true
  else if hasZeroPort P ma then false
  else
    match P.getIp ma with
    | none => true
    | some ip => !ip.isWildcard

def isWsAddress (ma : A) : Bool :=
  let isWs := P.contains ma "ws"
  let isWss := P.contains ma "wss"
  isWs || isWss

def hasProtocol (ma : A) (proto : String) : Bool :=
  match P.protocols ma with
  | none => false
  | some protos => protos.any (fun it => decide (it = proto))

def isP2pTcpAddress (ma : A) : Bool := hasProtocol P ma "tcp" && !isWsAddress P ma

structure TcpEndpoint where
  ip : IpAddress
  tcp : Port

/-- The IPv4 endpoints. -/
def tcpEndpoints (addrs : List A) : List TcpEndpoint :=
  addrs.filterMap (fun ma =>
    if P.isCircuitRelayMA ma || !isP2pTcpAddress P ma || !isConcreteEndpoint P ma then none
    else
      match P.getIp ma with
      | some (.ipv4 address) => (P.initTAddress ma).map (fun port => ⟨.ipv4 address, port⟩)
      | _ => none)

end Addresses

/-! ### Records -/

structure EnrRecord (PublicKey Field : Type) where
  seqNum : UInt64
  publicKey : PublicKey
  pairs : List (String × Field)

structure Scalars where
  ip : Option IpAddress
  tcp : Option Port
  udp : Option Port

/-- The fields that the library writes and reads. -/
structure EnrFields (Key PublicKey Field : Type) where
  toPublicKey : Key → PublicKey
  idField : Field
  keyField : PublicKey → Field
  ipField : IpAddress → Field
  portField : Port → Field
  bytesField : List Byte → Field
  readString : Field → Option String
  readPort : Field → Option Port
  readBytes : Field → Option (List Byte)

def IpAddress.key : IpAddress → String
  | .ipv4 _ => "ip"
  | .ipv6 _ => "ip6"

/-- What a record holds that is made of a key, scalars and more fields. -/
def EnrFields.content {Key PublicKey Field : Type} (E : EnrFields Key PublicKey Field) (pk : Key)
    (scalars : Scalars) (fields : List (String × Field)) : List (String × Field) :=
  [("id", E.idField), ("secp256k1", E.keyField (E.toPublicKey pk))] ++
    (scalars.ip.map (fun ip => (ip.key, E.ipField ip))).toList ++
    (scalars.tcp.map (fun port => ("tcp", E.portField port))).toList ++
    (scalars.udp.map (fun port => ("udp", E.portField port))).toList ++ fields

/-- In bytes. -/
def maxEnrSize : ℕ := 300

/-- A record is made when it is not too large, and the pairs are brought in order.  The size is that
of the record as it is sent. -/
structure EnrLibrary (Key PublicKey Field : Type) extends EnrFields Key PublicKey Field where
  size : UInt64 → List (String × Field) → ℕ
  init : UInt64 → Key → Scalars → List (String × Field) →
    Except String (EnrRecord PublicKey Field)
  readString_id : readString idField = some "v4"
  readPort_port : ∀ port, readPort (portField port) = some port
  readBytes_bytes : ∀ bytes, readBytes (bytesField bytes) = some bytes
  size_perm : ∀ {seqNum : UInt64} {pairs pairs' : List (String × Field)},
    pairs.Perm pairs' → size seqNum pairs = size seqNum pairs'
  size_mono : ∀ {seqNum seqNum' : UInt64} (pairs : List (String × Field)),
    seqNum ≤ seqNum' → size seqNum pairs ≤ size seqNum' pairs
  length_le_size : ∀ {key : String} {bytes : List Byte} (seqNum : UInt64)
    {pairs : List (String × Field)},
    (key, bytesField bytes) ∈ pairs → bytes.length ≤ size seqNum pairs
  init_isOk : ∀ seqNum pk scalars fields, (∃ record, init seqNum pk scalars fields = .ok record) ↔
    size seqNum (toEnrFields.content pk scalars fields) ≤ maxEnrSize
  init_ok : ∀ {seqNum pk scalars fields record}, init seqNum pk scalars fields = .ok record →
    record.seqNum = seqNum ∧ record.publicKey = toPublicKey pk ∧
      record.pairs.Perm (toEnrFields.content pk scalars fields)

/-- The node's private key. -/
structure NodeKeys (NodeKey Key : Type) where
  getRawBytes : NodeKey → Except String (List Byte)
  fromRaw : List Byte → Except String Key

/-! ### The update -/

def ScalarKeys : List String := ["id", "secp256k1", "ip", "ip6", "tcp", "tcp6", "udp", "udp6"]

def MultiaddrEnrField : String := "multiaddrs"

structure EnrBaseline where
  ip : Option IpAddress
  tcp : Option Port

structure DiscoveryEndpoint where
  ip : IpAddress
  udp : Port

section Update

variable {A NodeKey Key PublicKey Field : Type} [DecidableEq PublicKey]
  (P : Libp2p A) (K : NodeKeys NodeKey Key) (E : EnrLibrary Key PublicKey Field)

def toEnrKey (key : NodeKey) : Except String Key :=
  match K.getRawBytes key with
  | .error e => .error ("failed to read the node key: " ++ e)
  | .ok bytes =>
      match K.fromRaw bytes with
      | .error e => .error ("failed to parse the node key: " ++ e)
      | .ok pk => .ok pk

def EnrRecord.tryGet (record : EnrRecord PublicKey Field) (field : String) : Option Field :=
  (record.pairs.find? (fun it => decide (it.1 = field))).map Prod.snd

/-- Whether the record can be read: it must name its identity scheme. -/
def toTyped (record : EnrRecord PublicKey Field) : Except String Unit :=
  match (record.tryGet "id").bind E.readString with
  | none => .error "missing id scheme field"
  | some id => if id = "v4" then .ok () else .error "unknown identity scheme"

def EnrRecord.udp (record : EnrRecord PublicKey Field) : Option Port :=
  (record.tryGet "udp").bind E.readPort

def EnrRecord.multiaddrs (record : EnrRecord PublicKey Field) : Option (List A) :=
  ((record.tryGet MultiaddrEnrField).bind E.readBytes).bind (fun field =>
    (decodeMultiaddrs P.toMultiAddresses field).toOption)

/-- The pairs that a rebuilt record takes over. -/
def EnrRecord.kept (record : EnrRecord PublicKey Field) (replaced : List String) :
    List (String × Field) :=
  record.pairs.filter (fun it => decide (it.1 ∉ ScalarKeys) && decide (it.1 ∉ replaced))

def rebuild (record : EnrRecord PublicKey Field) (pk : Key) (scalars : Scalars)
    (fields : List (String × Field)) : Except String Unit × EnrRecord PublicKey Field :=
  if record.publicKey ≠ E.toPublicKey pk then
    (.error "the node key does not match the record", record)
  else if record.seqNum = UInt64.ofNat (2 ^ 64 - 1) then
    (.error "maximum ENR sequence number reached", record)
  else
    let replaced := fields.map Prod.fst
    let kept := record.kept replaced
    match E.init (record.seqNum + 1) pk scalars (kept ++ fields) with
    | .error e => (.error ("failed to rebuild the record: " ++ e), record)
    | .ok rebuilt => (.ok (), rebuilt)

/-- The scalars of the new record. -/
def chosenScalars (record : EnrRecord PublicKey Field) (endpoints : List TcpEndpoint)
    (baseline : EnrBaseline) (learned : Option DiscoveryEndpoint) : Scalars :=
  let udp := record.udp E
  match learned with
  | some endpoint =>
      let onHost := endpoints.filter (fun it => decide (it.ip = endpoint.ip))
      let tcp :=
        match onHost with
        | [] => baseline.tcp
        | it :: _ => some it.tcp
      ⟨some endpoint.ip, tcp, some endpoint.udp⟩
  | none =>
      match endpoints with
      | it :: _ => ⟨some it.ip, some it.tcp, udp⟩
      | [] => ⟨baseline.ip, baseline.tcp, udp⟩

/-- `countdown(n, 0)`. -/
def countdown : ℕ → List ℕ
  | 0 => [0]
  | n + 1 => (n + 1) :: countdown n

/-- The loop over the lengths of the prefixes. -/
def updatePrefixes (pk : Key) (scalars : Scalars) (sorted : List A) :
    EnrRecord PublicKey Field → List ℕ → Except String Unit × EnrRecord PublicKey Field
  | record, [] => (.error "failed to update ENR addresses at every prefix", record)
  | record, retained :: lengths =>
      let fields := [(MultiaddrEnrField,
        E.bytesField (encodeMultiaddrs P.toMultiAddresses (sorted.take retained)))]
      match rebuild E record pk scalars fields with
      | (.ok (), record) => (.ok (), record)
      | (.error _, record) => updatePrefixes pk scalars sorted record lengths

/-- Circuit-relay addresses first. -/
def sortedAddrs (usable : List A) : List A :=
  usable.filter P.isCircuitRelayMA ++ usable.filter (fun it => !P.isCircuitRelayMA it)

def updateEnrAddresses (record : EnrRecord PublicKey Field) (key : NodeKey) (addrs : List A)
    (baseline : EnrBaseline) (learned : Option DiscoveryEndpoint) :
    Except String Unit × EnrRecord PublicKey Field :=
  match toEnrKey K key with
  | .error e => (.error e, record)
  | .ok pk =>
      match toTyped E record with
      | .error e => (.error ("failed to read the record: " ++ e), record)
      | .ok () =>
          let usable := addrs.filter (isConcreteEndpoint P)
          let endpoints := tcpEndpoints P usable
          let scalars := chosenScalars E record endpoints baseline learned
          let sorted := sortedAddrs P usable
          updatePrefixes P E pk scalars sorted record (countdown sorted.length)

end Update

end LogosDelivery.Discovery
