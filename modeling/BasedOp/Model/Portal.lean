import BasedOp.Model.Registry

/-!
# The portal

The portal passes the calls of op-node on to the gateways (bin/portal/src/server.rs). Its calls
and its background task run at the same time and share `current_gateway` and `gateways`. A step
of the model is one access to one of these, with whatever precedes it since the last one: the
answer of the registry or of the fallback, which may be any. What the other methods and the
answers of the gateways do is left out, as they change neither.
-/

set_option autoImplicit false

namespace BasedOp.Model.Portal

open Gateway
open Registry (Url)

/-- A gateway; its client is made from its url and its secret.
SRCLINE: portal/src/server.rs:35-39 -/
structure Gateway where
  id : Url
  jwt : Hash
deriving DecidableEq

/-- The head, the safe and the finalized block. -/
structure ForkchoiceState where
  headBlockHash : Hash
  safeBlockHash : Hash
  finalizedBlockHash : Hash
deriving DecidableEq

abbrev PayloadId := BitVec 64

/-- What the calls and the background task share.
SRCLINE: portal/src/server.rs:47-55 -/
structure PortalServer where
  currentGateway : Gateway
  gateways : List Gateway
deriving DecidableEq

section

variable (builds : Url → Bool)

/-- `builds` are the urls that a client can be made for.
SRCLINE: portal/src/server.rs:556-560 -/
def createGatewayClient (url : Url) (jwt : Hash) : Option Gateway :=
  if builds url then some { id := url, jwt } else none

def createGatewayClients (answer : List (Url × Address × Hash)) : Option (List Gateway) :=
  answer.mapM fun (gatewayUrl, _, jwtAsB256) => createGatewayClient builds gatewayUrl jwtAsB256

namespace PortalServer

/-- The portal starts with what the registry answers, and with a gateway of no use if it does
not answer.
SRCLINE: portal/src/server.rs:58-95 -/
def new (current : Option (UInt64 × Url × Address × Hash))
    (registered : Option (List (Url × Address × Hash))) : Option PortalServer := do
  let (_, gatewayUrl, _, jwtAsB256) := current.getD (0, "http://default.net", 0, 0)
  let currentGateway ← createGatewayClient builds gatewayUrl jwtAsB256
  let gateways ← createGatewayClients builds (registered.getD [])
  return { currentGateway, gateways }

/-- SRCLINE: portal/src/server.rs:136-138 -/
def gatewaysInitialized (server : PortalServer) : Bool := server.gateways.length != 0

end PortalServer

/-! ## Refreshing -/

/-- Where `refresh` is: it waits for the current gateway, or for the list of gateways, or it is
about to write `current_gateway`. -/
inductive Refresh where
  | current
  | registered (gatewayUrl : Url) (jwtAsB256 : Hash)
  | writing (gatewayUrl : Url) (jwtAsB256 : Hash)
deriving DecidableEq

/-- What `refresh` goes on with; `none` is an error of the registry. -/
inductive RefreshInput where
  | currentGateway (answer : Option (UInt64 × Url × Address × Hash))
  | registeredGateways (answer : Option (List (Url × Address × Hash)))
  | write
deriving DecidableEq

/-- What `refresh` has come to. -/
inductive RefreshOutcome where
  | goesOn (refresh : Refresh)
  | failed
  | refreshed (gateway : Gateway)
deriving DecidableEq

/-- SRCLINE: portal/src/server.rs:144-168 -/
def Refresh.step (server : PortalServer) :
    Refresh → RefreshInput → Option (PortalServer × RefreshOutcome)
  | .current, .currentGateway none => some (server, .failed)
  | .current, .currentGateway (some (_, gatewayUrl, _, jwtAsB256)) =>
    if server.gatewaysInitialized then some (server, .goesOn (.writing gatewayUrl jwtAsB256))
    else some (server, .goesOn (.registered gatewayUrl jwtAsB256))
  | .registered _ _, .registeredGateways none => some (server, .failed)
  | .registered gatewayUrl jwtAsB256, .registeredGateways (some answer) =>
    match createGatewayClients builds answer with
    | none => some (server, .failed)
    | some gateways => some ({ server with gateways }, .goesOn (.writing gatewayUrl jwtAsB256))
  | .writing gatewayUrl jwtAsB256, .write =>
    match createGatewayClient builds gatewayUrl jwtAsB256 with
    | none => some (server, .failed)
    | some gateway => some ({ server with currentGateway := gateway }, .refreshed gateway)
  | _, _ => none

end

/-! ## The calls -/

/-- Where a call of `fork_choice_updated_v3` is: it waits for the fallback, refreshes, is about to
read `current_gateway` or `gateways`, or has returned. Only a call with attributes refreshes. -/
inductive FcuPhase where
  | fallback (payloadAttributes : Option OpPayloadAttributes)
  | refreshing (payloadAttributes : OpPayloadAttributes) (refresh : Refresh)
  | sending (payloadAttributes : OpPayloadAttributes)
  | sendingToAll
  | returned

structure FcuCall where
  forkChoiceState : ForkchoiceState
  phase : FcuPhase

inductive Event where
  /-- A call comes in. -/
  | forkChoiceUpdatedV3 (forkChoiceState : ForkchoiceState)
      (payloadAttributes : Option OpPayloadAttributes)
  /-- The fallback has answered a call, or failed. -/
  | fallback (call : ℕ) (ok : Bool)
  /-- A call refreshes. -/
  | refresh (call : ℕ) (input : RefreshInput)
  /-- A call sends to the current gateway or to all. -/
  | send (call : ℕ)
  /-- The background task refreshes. -/
  | background (input : RefreshInput)
  /-- A payload is asked for. -/
  | getPayloadV3 (payloadId : PayloadId)

/-- What a step does to `current_gateway`, or asks of a gateway. -/
inductive Effect where
  | refreshed (gateway : Gateway)
  | sentFcu (gateway : Gateway) (forkChoiceState : ForkchoiceState)
      (payloadAttributes : Option OpPayloadAttributes)
  | askedPayload (gateway : Gateway) (payloadId : PayloadId)
deriving DecidableEq

/-- The portal with its background task and the calls that it has got. -/
structure System where
  server : PortalServer
  background : Refresh
  calls : List FcuCall

namespace System

/-- The portal before its first call. -/
def start (server : PortalServer) : System where
  server := server
  background := .current
  calls := []

/-- A call moves on. -/
def setPhase (portal : System) (call : ℕ) (phase : FcuPhase) : System :=
  { portal with calls := portal.calls.modify call fun c => { c with phase } }

/-- Where a call goes on when the fallback has answered it.
SRCLINE: portal/src/server.rs:401-408, 423-424 -/
def afterFallback (server : PortalServer) (payloadAttributes : Option OpPayloadAttributes)
    (ok : Bool) : FcuPhase :=
  if !ok then .returned
  else if !server.gatewaysInitialized then .returned
  else
    match payloadAttributes with
    | some payloadAttributes => .refreshing payloadAttributes .current
    | none => .sendingToAll

/-- SRCLINE: portal/src/server.rs:418-428 -/
def stepSend (portal : System) (call : ℕ) (c : FcuCall) : Option (System × List Effect) :=
  match c.phase with
  | .sending payloadAttributes =>
    some (portal.setPhase call .returned,
      [.sentFcu portal.server.currentGateway c.forkChoiceState (some payloadAttributes)])
  | .sendingToAll =>
    some (portal.setPhase call .returned,
      portal.server.gateways.map fun gateway => .sentFcu gateway c.forkChoiceState none)
  | _ => none

variable (builds : Url → Bool)

/-- A call refreshes until it succeeds.
SRCLINE: portal/src/server.rs:408-416 -/
def stepRefresh (portal : System) (call : ℕ) (payloadAttributes : OpPayloadAttributes)
    (refresh : Refresh) (input : RefreshInput) : Option (System × List Effect) :=
  match refresh.step builds portal.server input with
  | none => none
  | some (server, .goesOn refresh) =>
    some ({ portal with server }.setPhase call (.refreshing payloadAttributes refresh), [])
  | some (server, .failed) =>
    some ({ portal with server }.setPhase call (.refreshing payloadAttributes .current), [])
  | some (server, .refreshed gateway) =>
    some ({ portal with server }.setPhase call (.sending payloadAttributes), [.refreshed gateway])

/-- SRCLINE: portal/src/server.rs:115-120 -/
def stepBackground (portal : System) (input : RefreshInput) : Option (System × List Effect) :=
  match portal.background.step builds portal.server input with
  | none => none
  | some (server, .goesOn refresh) => some ({ portal with server, background := refresh }, [])
  | some (server, .failed) => some ({ portal with server, background := .current }, [])
  | some (server, .refreshed gateway) =>
    some ({ portal with server, background := .current }, [.refreshed gateway])

/-- `none` is a step that the portal cannot take.
SRCLINE: portal/src/server.rs:115-120, 386-431, 478-495 -/
def step (portal : System) : Event → Option (System × List Effect)
  | .forkChoiceUpdatedV3 forkChoiceState payloadAttributes =>
    some ({ portal with
      calls := portal.calls ++ [{ forkChoiceState, phase := .fallback payloadAttributes }] }, [])
  | .fallback call ok =>
    match portal.calls[call]? with
    | some { phase := .fallback payloadAttributes, .. } =>
      some (portal.setPhase call (afterFallback portal.server payloadAttributes ok), [])
    | _ => none
  | .refresh call input =>
    match portal.calls[call]? with
    | some { phase := .refreshing payloadAttributes refresh, .. } =>
      portal.stepRefresh builds call payloadAttributes refresh input
    | _ => none
  | .send call =>
    match portal.calls[call]? with
    | some c => portal.stepSend call c
    | none => none
  | .background input => portal.stepBackground builds input
  | .getPayloadV3 payloadId => some (portal, [.askedPayload portal.server.currentGateway payloadId])

end System

end BasedOp.Model.Portal
