import BasedOp.Model.GatewayTypes

/-!
# The block fetcher

The actor that fetches the blocks the sequencer asks for
(crates/sequencer/src/block_sync/block_fetcher.rs) and sends them to it, in batches. The
requests that have arrived are merged into one range, from the next block to fetch up to the
last one that is wanted.
-/

set_option autoImplicit false

namespace BasedOp.Model.Gateway

/-- SRCLINE: messages.rs:384-387 -/
inductive BlockFetch where
  | fromTo (start stop : UInt64)

/-- SRCLINE: block_fetcher.rs:12-19 -/
structure BlockFetcher where
  nextBlock : UInt64
  syncUntil : UInt64
  batchSize : UInt64
deriving DecidableEq

/-- What the provider answers when it is asked for a block by its number.
SRCLINE: fetch_blocks.rs:41-63 -/
abbrev BlockProvider := UInt64 → BlockWithSenders

/-- The numbers from one to another, both included. -/
def rangeInclusive (first last : UInt64) : List UInt64 :=
  (List.range (last.toNat + 1 - first.toNat)).map fun i => first + UInt64.ofNat i

/-- The blocks that are sent.
SRCLINE: fetch_blocks.rs:24-39 -/
def asyncFetchBlocksAndSendSequentially (currBlock endBlock : UInt64) (provider : BlockProvider) :
    List BlockWithSenders :=
  (rangeInclusive currBlock endBlock).map provider

/-- A round of the loop: what the provider answers in it, and the requests that arrive. -/
structure FetchRound where
  provider : BlockProvider
  requests : List BlockFetch

namespace BlockFetcher

/-- SRCLINE: block_fetcher.rs:21-31 -/
def new (dbBlock : UInt64) : BlockFetcher where
  nextBlock := dbBlock + 1
  syncUntil := dbBlock + 1
  batchSize := 20

/-- SRCLINE: block_fetcher.rs:33-40 -/
def handleFetch (f : BlockFetcher) : BlockFetch → BlockFetcher
  | .fromTo start stop =>
    { f with nextBlock := min start f.nextBlock, syncUntil := max stop f.syncUntil }

/-- SRCLINE: block_fetcher.rs:44-50 -/
def onInit (f : BlockFetcher) (headBlockNumber : UInt64) : BlockFetcher :=
  { f with syncUntil := headBlockNumber }

/-- Fetch the next batch, if there is one.
SRCLINE: block_fetcher.rs:53-62 -/
def fetchBatch (f : BlockFetcher) (provider : BlockProvider) :
    List BlockWithSenders × BlockFetcher :=
  if f.nextBlock < f.syncUntil then
    let stop := min (f.nextBlock + f.batchSize) f.syncUntil
    (asyncFetchBlocksAndSendSequentially f.nextBlock stop provider,
      { f with nextBlock := stop + 1 })
  else ([], f)

/-- SRCLINE: block_fetcher.rs:52-67 -/
def loopBody (f : BlockFetcher) (round : FetchRound) : List BlockWithSenders × BlockFetcher :=
  let (sent, f) := f.fetchBatch round.provider
  (sent, round.requests.foldl handleFetch f)

end BlockFetcher

end BasedOp.Model.Gateway
