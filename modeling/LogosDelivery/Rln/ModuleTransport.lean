import LogosDelivery.Lib.Runs

/-! # The transport to the external RLN module

`rln_lez/transport.nim`: the requests of the four plugin calls and of `rlnMixCall`, the responses of
the host, and the installation and removal of the callbacks, each section under `gLock` as one step.
A waiting call is woken by the signal of its request and then reads, outside the lock, whether the
request is completed and after that its response; its `defer` unlinks the request in a step of its
own.  Calls time out and are cancelled at any time.

Beside its fields a request records the responses that were accepted for it, and whether it was
cleared, with and without a response before. -/

namespace LogosDelivery.Rln.ModuleTransport

open Lib

inductive RlnFunction where
  | getMembershipState
  | getEpochQuota
  | generateProof
  | validateProof
deriving DecidableEq

/-- Which callbacks are set; none is, if no plugin is installed. -/
structure LogosDeliveryRlnPlugin where
  getMembershipState : Bool := false
  getEpochQuota : Bool := false
  generateProof : Bool := false
  validateProof : Bool := false

def LogosDeliveryRlnPlugin.callback (plugin : LogosDeliveryRlnPlugin) : RlnFunction → Bool
  | .getMembershipState => plugin.getMembershipState
  | .getEpochQuota => plugin.getEpochQuota
  | .generateProof => plugin.generateProof
  | .validateProof => plugin.validateProof

/-- A call waits for its signal, found its request completed and is about to read the response, or
has its result and is about to unlink its request; an abandoned one timed out or was cancelled. -/
inductive Waiter where
  | waiting
  | reading
  | leaving (result : Except String String) (abandoned : Bool)

/-- A linked request, the `request`-th one. -/
structure Pending where
  request : ℕ
  reqId : UInt64
  fired : Bool
  resultBuf : Option String
  completed : Bool
  mixRequest : Bool
  waiter : Waiter
  accepted : List String
  cleared : Bool
  clearedUnanswered : Bool

/-- A call that returned. -/
structure Finished where
  mixRequest : Bool
  result : Except String String
  abandoned : Bool
  accepted : List String
  clearedUnanswered : Bool

/-- What the caller makes of a response: `rlnMixCall` parses it. -/
def replyTo {J : Type} (parseJson : String → Except String J) (mixRequest : Bool) (raw : String) :
    Except String (String ⊕ J) :=
  if mixRequest then
    match parseJson raw with
    | .ok json => .ok (.inr json)
    | .error msg => .error ("Invalid Mix RLN reply: " ++ msg)
  else .ok (.inl raw)

/-- What the caller gets. -/
def Finished.reply {J : Type} (parseJson : String → Except String J) (f : Finished) :
    Except String (String ⊕ J) :=
  match f.result with
  | .error e => .error e
  | .ok raw => replyTo parseJson f.mixRequest raw

structure Transport where
  gPlugin : LogosDeliveryRlnPlugin
  gMixCall : Bool
  gPending : List Pending
  gNextReqId : UInt64
  gRegistered : Bool
  linked : ℕ
  finished : List Finished

namespace Pending

def new (request : ℕ) (reqId : UInt64) (mixRequest : Bool) : Pending where
  request := request
  reqId := reqId
  fired := false
  resultBuf := none
  completed := false
  mixRequest := mixRequest
  waiter := .waiting
  accepted := []
  cleared := false
  clearedUnanswered := false

/-- A response is taken. -/
def answer (p : Pending) (resultJson : String) : Pending :=
  { p with
    resultBuf := some resultJson
    completed := true
    fired := true
    accepted := p.accepted ++ [resultJson] }

/-- The callback of the request is removed. -/
def clear (p : Pending) : Pending :=
  { p with
    completed := false
    fired := true
    cleared := true
    clearedUnanswered := p.clearedUnanswered || decide (p.accepted = []) }

/-- `awaitResult` behind its wait. -/
def wake (p : Pending) : Pending :=
  match p.waiter with
  | .waiting =>
      if !p.fired then p
      else if !p.completed then
        { p with
          waiter := .leaving (.error "RLN module unregistered while awaiting response") false }
      else { p with waiter := .reading }
  | _ => p

def read (p : Pending) : Pending :=
  match p.waiter with
  | .reading => { p with waiter := .leaving (.ok (p.resultBuf.getD "")) false }
  | _ => p

/-- The call is given up. -/
def abandon (p : Pending) (cause : String) : Pending :=
  match p.waiter with
  | .waiting => { p with waiter := .leaving (.error cause) true }
  | _ => p

end Pending

namespace Transport

def new : Transport where
  gPlugin := {}
  gMixCall := false
  gPending := []
  gNextReqId := 0
  gRegistered := false
  linked := 0
  finished := []

/-- A call that returns an error without a request. -/
def refuse (s : Transport) (mixRequest : Bool) (e : String) : Transport :=
  { s with finished := s.finished ++ [⟨mixRequest, .error e, false, [], false⟩] }

def linkPending (s : Transport) (mixRequest : Bool) : Transport :=
  { s with
    gPending := Pending.new s.linked s.gNextReqId mixRequest :: s.gPending
    gNextReqId := s.gNextReqId + 1
    linked := s.linked + 1 }

/-- The calls of the plugin, `rlnGetMembershipState` and the others, up to their wait; `allocated`
tells whether there is a signal for the request. -/
def rlnCall (s : Transport) (fn : RlnFunction) (allocated : Bool) : Transport :=
  if !allocated then s.refuse false "failed to allocate RLN request"
  else if !s.gPlugin.callback fn then s.refuse false "RLN module not registered"
  else s.linkPending false

def rlnMixCall (s : Transport) (allocated : Bool) : Transport :=
  if !allocated then s.refuse true "failed to allocate Mix RLN request"
  else if !s.gMixCall then s.refuse true "Mix RLN module callback not installed"
  else if s.gPending.countP (fun p => p.mixRequest) ≥ 64 then
    s.refuse true "Too many pending Mix RLN requests"
  else s.linkPending true

/-- Requests of one kind are cleared. -/
def clearPending (s : Transport) (mixRequest : Bool) : Transport :=
  { s with
    gPending := s.gPending.map (fun p => if p.mixRequest = mixRequest then p.clear else p) }

def logosdelivery_mix_rln_set_callback (s : Transport) (callback : Bool) : Transport :=
  let s := { s with gMixCall := callback }
  if !callback then s.clearPending true else s

def logosdelivery_rln_set_plugin (s : Transport) : Option LogosDeliveryRlnPlugin → Transport
  | none =>
      let s := { s with gPlugin := {}, gRegistered := false }
      s.clearPending false
  | some plugin => { s with gPlugin := plugin, gRegistered := true }

/-- The search for the request of a response, and the answer to the host. -/
def respond (reqId : UInt64) (resultJson : String) : List Pending → List Pending × ℤ
  | [] => ([], 1)
  | p :: ps =>
      if p.reqId = reqId then
        if p.completed then (p :: ps, 1) else (p.answer resultJson :: ps, 0)
      else
        let rest := respond reqId resultJson ps
        (p :: rest.1, rest.2)

def logosdelivery_rln_response (s : Transport) (reqId : UInt64) (resultJson : String) :
    Transport × ℤ :=
  let answered := respond reqId resultJson s.gPending
  ({ s with gPending := answered.1 }, answered.2)

/-- The waiter of one request goes on. -/
def atRequest (s : Transport) (request : ℕ) (f : Pending → Pending) : Transport :=
  { s with gPending := s.gPending.map (fun p => if p.request = request then f p else p) }

/-- The `defer` of `awaitResult`. -/
def unlinkPending (s : Transport) (request : ℕ) : Transport :=
  match s.gPending.find? (fun p => decide (p.request = request)) with
  | none => s
  | some p =>
      match p.waiter with
      | .waiting | .reading => s
      | .leaving result abandoned =>
          { s with
            gPending := s.gPending.filter (fun p => decide (p.request ≠ request))
            finished := s.finished ++
              [⟨p.mixRequest, result, abandoned, p.accepted, p.clearedUnanswered⟩] }

inductive Action where
  | rlnCall (fn : RlnFunction) (allocated : Bool)
  | rlnMixCall (allocated : Bool)
  | response (reqId : UInt64) (resultJson : String)
  | setPlugin (plugin : Option LogosDeliveryRlnPlugin)
  | setMixCallback (callback : Bool)
  | wake (request : ℕ)
  | read (request : ℕ)
  | timeout (request : ℕ)
  | cancel (request : ℕ)
  | unlink (request : ℕ)

def step (s : Transport) : Action → Transport
  | .rlnCall fn allocated => s.rlnCall fn allocated
  | .rlnMixCall allocated => s.rlnMixCall allocated
  | .response reqId resultJson => (s.logosdelivery_rln_response reqId resultJson).1
  | .setPlugin plugin => s.logosdelivery_rln_set_plugin plugin
  | .setMixCallback callback => s.logosdelivery_mix_rln_set_callback callback
  | .wake request => s.atRequest request Pending.wake
  | .read request => s.atRequest request Pending.read
  | .timeout request => s.atRequest request (fun p => p.abandon "timeout")
  | .cancel request => s.atRequest request (fun p => p.abandon "cancelled")
  | .unlink request => s.unlinkPending request

/-- The state after the actions. -/
def after (actions : List Action) : Transport := run step new actions

end Transport

end LogosDelivery.Rln.ModuleTransport
