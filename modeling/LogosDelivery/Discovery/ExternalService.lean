import LogosDelivery.Lib.Runs
import LogosDelivery.Lib.Table

/-! # External service discovery

`discovery/external_service_discovery.nim`: the adverts and interests that the node wants, the verbs
that change them, and the announce loop, which hands them to a plugin.  The plugin serves requests
one at a time, in the order they are made; each succeeds, but for the start of a key that it holds.
The loop is suspended from each of its requests until it has been served and the loop runs again;
everything between two awaits is one step.

The addresses of the node are numbered by their changes, and a record carries the number at its
signing.  Beside the fields of the source an entry carries the number of its creation. -/

namespace LogosDelivery.Discovery.ExternalService

open Lib

def ServiceKeyPrefix : String := "service:"

/-- The record of a service, signed at the given addresses. -/
structure Record where
  serviceId : String
  data : List UInt8
  addresses : ℕ
deriving DecidableEq

structure Advert where
  data : List UInt8
  taken : Bool := false
  resign : Bool := false
  version : ℕ := 0
  created : ℕ
deriving DecidableEq

structure Interest where
  taken : Bool := false
  created : ℕ

/-! ### The plugin -/

structure Held where
  data : List UInt8
  record : Record
deriving DecidableEq

structure Plugin where
  adverts : String → Option Held
  interests : String → Bool

inductive Request where
  | startAdvertising (key : String) (data : List UInt8) (record : Record)
  | stopAdvertising (key : String)
  | registerInterest (key : String)
  | unregisterInterest (key : String)

def AlreadyAdvertised : String := "already advertised"

def Plugin.serve (plugin : Plugin) : Request → Plugin × Except String Unit
  | .startAdvertising key data record =>
      if (plugin.adverts key).isSome then (plugin, .error AlreadyAdvertised)
      else
        ({ plugin with adverts := Function.update plugin.adverts key (some ⟨data, record⟩) }, .ok ())
  | .stopAdvertising key =>
      ({ plugin with adverts := Function.update plugin.adverts key none }, .ok ())
  | .registerInterest key =>
      ({ plugin with interests := Function.update plugin.interests key true }, .ok ())
  | .unregisterInterest key =>
      ({ plugin with interests := Function.update plugin.interests key false }, .ok ())

/-! ### The node -/

/-- Where the announce loop is: it waits for the stop or the start of an advert that it sends, for
an interest that it registers, or for a change, for a while only if not all was taken.  `todo` are
the keys that are left of the pass. -/
inductive LoopPhase where
  | notStarted
  | stopping (key : String) (advert : Advert) (record : Record) (todo : List String)
      (allTaken : Bool) (reply : Option (Except String Unit))
  | starting (key : String) (advert : Advert) (record : Record) (todo : List String)
      (allTaken : Bool) (reply : Option (Except String Unit))
  | registering (key : String) (created : ℕ) (todo : List String) (allTaken : Bool)
      (reply : Option (Except String Unit))
  | waiting (allTaken : Bool)

def LoopPhase.parked : LoopPhase → Bool
  | .waiting _ => true
  | _ => false

/-- The loop gets the reply to its request. -/
def LoopPhase.deliver (result : Except String Unit) : LoopPhase → LoopPhase
  | .stopping key advert record todo allTaken _ =>
      .stopping key advert record todo allTaken (some result)
  | .starting key advert record todo allTaken _ =>
      .starting key advert record todo allTaken (some result)
  | .registering key created todo allTaken _ =>
      .registering key created todo allTaken (some result)
  | phase => phase

/-- The node and the plugin; `requests` are not served yet, the oldest first, each with a mark if the
announce loop waits for it. -/
structure ExternalServiceDiscovery where
  running : Bool
  adverts : Table String Advert
  interests : Table String Interest
  announceWanted : Bool
  announceLoop : LoopPhase
  addresses : ℕ
  created : ℕ
  requests : List (Request × Bool)
  plugin : Plugin

namespace ExternalServiceDiscovery

def new : ExternalServiceDiscovery where
  running := false
  adverts := ∅
  interests := ∅
  announceWanted := false
  announceLoop := .notStarted
  addresses := 0
  created := 0
  requests := []
  plugin := ⟨fun _ => none, fun _ => false⟩

variable (s : ExternalServiceDiscovery)

/-- Adverts and interests that the plugin has not taken yet. -/
def pendingAnnouncements : ℕ :=
  s.adverts.entries.countP (fun e => !e.2.taken) + s.interests.entries.countP (fun e => !e.2.taken)

def request (r : Request) (loop : Bool) : ExternalServiceDiscovery :=
  { s with requests := s.requests ++ [(r, loop)] }

/-- The record that the node signs for a key now; `signs` tells whether it can. -/
def signRecord (signs : Bool) (key : String) (data : List UInt8) : Except String Record :=
  if signs then
    .ok ⟨String.ofList (key.toList.drop ServiceKeyPrefix.length), data, s.addresses⟩
  else .error "no identity to sign with"

def resignAll : ExternalServiceDiscovery :=
  { s with
    adverts := s.adverts.mapValues (fun _ advert =>
      { advert with taken := false, resign := true, version := advert.version + 1 })
    announceWanted := true }

/-- The observer of the node's addresses. -/
def changeAddresses : ExternalServiceDiscovery :=
  let s := { s with addresses := s.addresses + 1 }
  if s.running ∧ 0 < s.adverts.len then s.resignAll else s

/-! ### The announce loop -/

/-- The second half of `announcePending`, up to its next await. -/
def announceInterests (s : ExternalServiceDiscovery) (allTaken : Bool) :
    List String → ExternalServiceDiscovery
  | [] => { s with announceLoop := .waiting allTaken }
  | key :: todo =>
      match s.interests.lookup key with
      | none => s.announceInterests allTaken todo
      | some interest =>
          if interest.taken then s.announceInterests allTaken todo
          else
            { s.request (.registerInterest key) true with
              announceLoop := .registering key interest.created todo allTaken none }

/-- The first half, with the beginning of `sendAdvert`; `order` is the order of the tables. -/
def announceAdverts (order : IterationOrder String) (signs : Bool) (s : ExternalServiceDiscovery)
    (allTaken : Bool) : List String → ExternalServiceDiscovery
  | [] => s.announceInterests allTaken (order.visit s.interests.keys)
  | key :: todo =>
      match s.adverts.lookup key with
      | none => announceAdverts order signs s allTaken todo
      | some advert =>
          if advert.taken then announceAdverts order signs s allTaken todo
          else
            match s.signRecord signs key advert.data with
            | .error _ => announceAdverts order signs s false todo
            | .ok record =>
                if advert.resign then
                  { s.request (.stopAdvertising key) true with
                    announceLoop := .stopping key advert record todo allTaken none }
                else
                  { s.request (.startAdvertising key advert.data record) true with
                    announceLoop := .starting key advert record todo allTaken none }

def announcePending (order : IterationOrder String) (signs : Bool) : ExternalServiceDiscovery :=
  let s := { s with announceWanted := false }
  announceAdverts order signs s true (order.visit s.adverts.keys)

/-- What `sendAdvert` makes of the plugin's reply to the start. -/
def startResult (advert : Advert) (reply : Except String Unit) : Except String Unit :=
  match reply with
  | .ok () => .ok ()
  | .error e =>
      if !advert.resign && decide (1 < (e.splitOn AlreadyAdvertised).length) then .ok ()
      else .error e

/-- The reply to a send of an advert; the second component tells whether it was refused. -/
def advertReply (key : String) (advert : Advert) (result : Except String Unit) :
    ExternalServiceDiscovery × Bool :=
  match s.adverts.lookup key with
  | none => (s, false)
  | some cur =>
      if cur.version = advert.version then
        match result with
        | .ok () =>
            ({ s with adverts := s.adverts.insert key { cur with taken := true, resign := false } },
              false)
        | .error _ => (s, true)
      else (s, false)

/-- The reply to a registration. -/
def interestReply (key : String) (result : Except String Unit) : ExternalServiceDiscovery × Bool :=
  match s.interests.lookup key with
  | none => (s, false)
  | some interest =>
      match result with
      | .ok () =>
          ({ s with interests := s.interests.insert key { interest with taken := true } }, false)
      | .error _ => (s, true)

/-- The announce loop goes on, if it can. -/
def resumeLoop (order : IterationOrder String) (signs : Bool) : ExternalServiceDiscovery :=
  match s.announceLoop with
  | .stopping key advert record todo allTaken (some _) =>
      -- a stop that failed is not fatal
      { s.request (.startAdvertising key advert.data record) true with
        announceLoop := .starting key advert record todo allTaken none }
  | .starting key advert _ todo allTaken (some reply) =>
      let answered := s.advertReply key advert (startResult advert reply)
      announceAdverts order signs answered.1 (allTaken && !answered.2) todo
  | .registering key _ todo allTaken (some reply) =>
      let answered := s.interestReply key reply
      answered.1.announceInterests (allTaken && !answered.2) todo
  | .waiting allTaken =>
      if s.announceWanted ∨ allTaken = false then s.announcePending order signs else s
  | _ => s

/-! ### The verbs -/

def startDiscovery (order : IterationOrder String) (signs : Bool) : ExternalServiceDiscovery :=
  if s.running then s
  else
    let s := { s with
      running := true
      interests := s.interests.mapValues (fun _ interest => { interest with taken := false }) }
    let s := s.resignAll
    match s.announceLoop with
    | .notStarted => s.announcePending order signs
    | _ => s

def startAdvertising (signs : Bool) (key : String) (data : List UInt8) :
    ExternalServiceDiscovery × Except String Unit :=
  if !ServiceKeyPrefix.toList.isPrefixOf key.toList then
    (s, .error "external backend: only service: keys can be advertised")
  else
    match s.signRecord signs key data with
    | .error e => (s, .error ("external backend: cannot sign advert for: " ++ key ++ ": " ++ e))
    | .ok _ =>
        let s :=
          match s.adverts.lookup key with
          | some advert =>
              if advert.data ≠ data then
                let changed := { advert with
                  data := data, taken := false, resign := true, version := advert.version + 1 }
                { s with adverts := s.adverts.insert key changed }
              else s
          | none =>
              { s with
                adverts := s.adverts.insert key { data := data, created := s.created }
                created := s.created + 1 }
        ({ s with announceWanted := true }, .ok ())

def stopAdvertising (key : String) : ExternalServiceDiscovery :=
  let s := { s with adverts := s.adverts.erase key }
  if s.running then s.request (.stopAdvertising key) false else s

def registerInterest (key : String) : ExternalServiceDiscovery :=
  if key ∈ s.interests then s
  else
    { s with
      interests := s.interests.insert key { created := s.created }
      created := s.created + 1
      announceWanted := true }

def unregisterInterest (key : String) : ExternalServiceDiscovery :=
  let s := { s with interests := s.interests.erase key }
  if s.running then s.request (.unregisterInterest key) false else s

/-- The plugin serves the oldest request. -/
def serve : ExternalServiceDiscovery :=
  match s.requests with
  | [] => s
  | (r, loop) :: rest =>
      let served := s.plugin.serve r
      { s with
        plugin := served.1
        requests := rest
        announceLoop := if loop then s.announceLoop.deliver served.2 else s.announceLoop }

inductive Action where
  | startDiscovery (signs : Bool)
  | startAdvertising (signs : Bool) (key : String) (data : List UInt8)
  | stopAdvertising (key : String)
  | registerInterest (key : String)
  | unregisterInterest (key : String)
  | changeAddresses
  | serve
  | resumeLoop (signs : Bool)

def step (order : IterationOrder String) (s : ExternalServiceDiscovery) :
    Action → ExternalServiceDiscovery
  | .startDiscovery signs => s.startDiscovery order signs
  | .startAdvertising signs key data => (s.startAdvertising signs key data).1
  | .stopAdvertising key => s.stopAdvertising key
  | .registerInterest key => s.registerInterest key
  | .unregisterInterest key => s.unregisterInterest key
  | .changeAddresses => s.changeAddresses
  | .serve => s.serve
  | .resumeLoop signs => s.resumeLoop order signs

/-- The state after the actions, of a node whose plugin holds nothing at first. -/
def after (order : IterationOrder String) (actions : List Action) : ExternalServiceDiscovery :=
  run (step order) new actions

end ExternalServiceDiscovery

end LogosDelivery.Discovery.ExternalService
