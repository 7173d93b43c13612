import BasedOp.Model.GatewayTypes

/-!
# The registry of gateways and its client

The registry says which gateway builds a block: the gateways take turns of
`gateway_update_blocks` blocks each (bin/gateway_registry/src/main.rs). op-node asks it for the
gateways of the next blocks, one request after the other, and keeps the answers by their block
numbers (op-service/sources/registry_client.go). A request is answered for the head that the
registry sees when it gets it.
-/

set_option autoImplicit false

namespace BasedOp.Model.Registry

open Gateway

abbrev Url := String

/-! ## The registry -/

/-- SRCLINE: gateway_registry/src/main.rs:89-95 -/
structure RegistryServer where
  gatewayClients : List (Url × Address × Hash)
  gatewayUpdateBlocks : UInt64

/-- What is answered if the head is `curblock`. `none` is an error or a panic, which is one for
an update interval of zero and for an empty list of gateways.
SRCLINE: gateway_registry/src/main.rs:154-165 -/
def RegistryServer.getFutureGateway (registry : RegistryServer) (curblock : U256)
    (nBlocksIntoTheFuture : UInt64) : Option (UInt64 × Url × Address × Hash) :=
  let next := (curblock + 1).toNat
  if next < 2 ^ 64 ∧ registry.gatewayUpdateBlocks ≠ 0 then
    let targetBlock := UInt64.ofNat next + nBlocksIntoTheFuture
    let id := (targetBlock / registry.gatewayUpdateBlocks).toNat
    (registry.gatewayClients[id % registry.gatewayClients.length]?).map
      fun (url, address, jwtInB256) => (targetBlock, url, address, jwtInB256)
  else none

/-! ## Requests -/

/-- SRCLINE: sources/types.go:345-352 -/
structure RegistryResponse where
  blockNumber : UInt64
  url : Url
  gatewayAddress : Address
  jwtSecret : Hash
deriving DecidableEq

/-- The double-precision number nearest to an integer: 53 bits are kept, and of two that are
as near the even one is taken. -/
def toFloat64 (n : ℕ) : ℕ :=
  let unit := 2 ^ (n.log2 - 52)
  if 2 * (n % unit) < unit ∨ 2 * (n % unit) = unit ∧ n / unit % 2 = 0 then n / unit * unit
  else (n / unit + 1) * unit

/-- The conversion of a double-precision integer, as amd64 does it if it is out of range. -/
def uint64OfFloat64 (n : ℕ) : UInt64 := if n < 2 ^ 64 then UInt64.ofNat n else 2 ^ 63

/-- A number of a JSON tuple is read as a `float64`.
SRCLINE: sources/types.go:354-388 -/
def registryResponseFromTuple (tuple : UInt64 × Url × Address × Hash) : RegistryResponse where
  blockNumber := uint64OfFloat64 (toFloat64 tuple.1.toNat)
  url := tuple.2.1
  gatewayAddress := tuple.2.2.1
  jwtSecret := tuple.2.2.2

/-- When a request is made: the head and the registry as they are then, whether an answer comes
back, and the text of the error if none does. -/
structure Moment where
  head : U256
  registry : RegistryServer
  reachable : Bool
  err : String

/-- `FutureGateway`, and `CurrentGateway` for `n = 0`.
SRCLINE: eth_client.go:389-409, common/src/api.rs:115-119 -/
def futureGateway (m : Moment) (nIntoFuture : UInt64) : Except String RegistryResponse :=
  match m.registry.getFutureGateway m.head nIntoFuture with
  | none => .error m.err
  | some tuple => if m.reachable then .ok (registryResponseFromTuple tuple) else .error m.err

/-! ## The client -/

/-- SRCLINE: registry_client.go:18-25 -/
structure RegistryClient where
  gateways : HashMap UInt64 RegistryResponse
  latestFetchedBlock : UInt64

namespace RegistryClient

/-- SRCLINE: registry_client.go:54-66 -/
def new : RegistryClient where
  gateways := ∅
  latestFetchedBlock := 0

/-- SRCLINE: registry_client.go:69-79 -/
def gatewayForBlock (r : RegistryClient) (blockNumber : UInt64) : Except String Address :=
  match r.gateways.lookup blockNumber with
  | none =>
    let latest := r.latestFetchedBlock
    .error s!"gateway not cached for block number {blockNumber}. Latest cached block number: {latest}"
  | some gateway => .ok gateway.gatewayAddress

/-- One iteration of `updateGatewayInfo`. -/
def put (r : RegistryClient) (result : RegistryResponse) : RegistryClient where
  gateways := r.gateways.insert result.blockNumber result
  latestFetchedBlock :=
    if result.blockNumber > r.latestFetchedBlock then result.blockNumber else r.latestFetchedBlock

/-- SRCLINE: registry_client.go:149-162 -/
def updateGatewayInfo (r : RegistryClient) (results : List RegistryResponse) : RegistryClient :=
  results.foldl put r

/-- SRCLINE: registry_client.go:129-147 -/
def cleanupOldGateways (r : RegistryClient) (maxSize targetSize : ℕ) : RegistryClient :=
  if r.gateways.keys.length ≤ maxSize then r
  else
    let blockNumbers := r.gateways.keys.mergeSort fun a b => decide (a ≤ b)
    let oldest := blockNumbers.take (blockNumbers.length - targetSize)
    { r with gateways := oldest.foldl (fun gateways num => gateways.erase num) r.gateways }

/-! ## Fetching -/

/-- The requests for `count` gateways from the `i`-th on, of which the first one is made at the
moment `j`; a failure has the moment after it. -/
def requestGateways (moments : ℕ → Moment) :
    ℕ → UInt64 → ℕ → Except (ℕ × String) (List RegistryResponse)
  | _, _, 0 => .ok []
  | j, i, count + 1 =>
    match futureGateway (moments j) i with
    | .error err => .error (j + 1, err)
    | .ok gateway =>
      match requestGateways moments (j + 1) (i + 1) count with
      | .error failure => .error failure
      | .ok gateways => .ok (gateway :: gateways)

/-- `none` is a panic: if `n + 1` wraps around there is no place for the first answer.
SRCLINE: registry_client.go:100-125 -/
def fetchNextNGatewaysSingle (r : RegistryClient) (moments : ℕ → Moment) (j : ℕ) (n : UInt64) :
    Option (Except (ℕ × String) RegistryClient) :=
  match futureGateway (moments j) 0 with
  | .error err => some (.error (j + 1, err))
  | .ok current =>
    if n + 1 = 0 then none
    else
      match requestGateways moments (j + 1) 1 n.toNat with
      | .error failure => some (.error failure)
      | .ok gateways =>
        some (.ok ((r.updateGatewayInfo (current :: gateways)).cleanupOldGateways 100 50))

/-- The attempts after the first `attempt` ones, of which `left` may fail. -/
def retry (r : RegistryClient) (moments : ℕ → Moment) (n : UInt64) :
    ℕ → ℕ → ℕ → Option (Except String RegistryClient)
  | attempt, left, j =>
    match r.fetchNextNGatewaysSingle moments j n with
    | none => none
    | some (.ok r') => some (.ok r')
    | some (.error (j', err)) =>
      match left with
      | 0 =>
        let attempts := attempt + 1
        let latest := r.latestFetchedBlock
        some (.error s!"failed to fetch gateways after {attempts} attempts. Latest cached block number: {latest}: {err}")
      | left + 1 => r.retry moments n (attempt + 1) left j'

/-- SRCLINE: registry_client.go:83-97 -/
def fetchNextNGateways (r : RegistryClient) (moments : ℕ → Moment) (n maxRetries : UInt64) :
    Option (Except String RegistryClient) :=
  r.retry moments n 0 maxRetries.toNat 0

end RegistryClient

end BasedOp.Model.Registry
