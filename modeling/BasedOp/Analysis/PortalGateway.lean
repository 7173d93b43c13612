import BasedOp.Computation.SharedCell
import BasedOp.Model.Portal

/-!
# Where the portal asks for a payload

`current_gateway` is a cell that every refresh writes, in a call or in the background. A fork
choice with attributes is sent to the gateway that is read from it, and so is the question for
the payload: both go to the same gateway exactly if no other one was written last in between.
-/

set_option autoImplicit false

namespace BasedOp.Analysis.PortalGateway

open BasedOp.Computation Model Model.Gateway Model.Portal
open Model.Registry (Url)

/-- Who reads `current_gateway`. -/
inductive Reader where
  | forkChoiceUpdated
  | getPayload
deriving DecidableEq

/-- The effects that are accesses to `current_gateway`; a fork choice without attributes goes to
all gateways and does not read it. -/
def access : Effect → Option (Access Reader Portal.Gateway)
  | .refreshed gateway => some (.write gateway)
  | .sentFcu gateway _ (some _) => some (.read .forkChoiceUpdated gateway)
  | .sentFcu _ _ none => none
  | .askedPayload gateway _ => some (.read .getPayload gateway)

/-- The gateway that the most recent fork choice with attributes was sent to. -/
def lastSent (past : List Effect) : Option Portal.Gateway :=
  Access.lastRead (· = .forkChoiceUpdated) (past.filterMap access)

/-- The gateway that the last refresh since then has written, if there was one. -/
def refreshedSince (past : List Effect) : Option Portal.Gateway :=
  Access.writtenSince (· = .forkChoiceUpdated) (past.filterMap access)

variable {input : RefreshInput} {refresh : Refresh}

section

variable {builds : Url → Bool}

/-- What a refresh does to `current_gateway`. -/
def effectsOf : RefreshOutcome → List Effect
  | .refreshed gateway => [.refreshed gateway]
  | _ => []

/-- A refresh writes `current_gateway` when it succeeds, and only then. -/
theorem follows_refreshStep {server server' : PortalServer} {outcome : RefreshOutcome}
    (h : refresh.step builds server input = some (server', outcome)) :
    Access.Follows server.currentGateway ((effectsOf outcome).filterMap access)
      server'.currentGateway := by
  unfold Refresh.step at h
  split at h
  · cases h
    exact Access.follows_nil _
  · -- the registry has answered, and nothing is written yet
    split at h
    · cases h
      exact Access.follows_nil _
    · cases h
      exact Access.follows_nil _
  · cases h
    exact Access.follows_nil _
  · -- only `gateways` is written
    split at h
    · cases h
      exact Access.follows_nil _
    · cases h
      exact Access.follows_nil _
  · split at h
    · cases h
      exact Access.follows_nil _
    · cases h
      exact Access.follows_write _ _
  · cases h

variable {portal portal' : System} {effects : List Effect}

/-- A refresh writes what it reports. -/
theorem follows_stepRefresh {call : ℕ} {attributes : OpPayloadAttributes}
    (h : portal.stepRefresh builds call attributes refresh input = some (portal', effects)) :
    Access.Follows portal.server.currentGateway (effects.filterMap access)
      portal'.server.currentGateway := by
  unfold System.stepRefresh at h
  split at h
  · cases h
  all_goals
    rename_i hstep
    cases h
    exact follows_refreshStep hstep

/-- So does one in the background. -/
theorem follows_stepBackground (h : portal.stepBackground builds input = some (portal', effects)) :
    Access.Follows portal.server.currentGateway (effects.filterMap access)
      portal'.server.currentGateway := by
  unfold System.stepBackground at h
  split at h
  · cases h
  all_goals
    rename_i hstep
    cases h
    exact follows_refreshStep hstep

/-- What is sent to all gateways is no access. -/
theorem filterMap_sentToAll (gateways : List Portal.Gateway) (state : ForkchoiceState) :
    (gateways.map fun gateway => Effect.sentFcu gateway state none).filterMap access = [] := by
  induction gateways with
  | nil => rfl
  | cons gateway gateways ih =>
    rw [List.map_cons, List.filterMap_cons_none rfl]
    exact ih

/-- Sending reads the gateway. -/
theorem follows_stepSend {call : ℕ} {c : FcuCall}
    (h : portal.stepSend call c = some (portal', effects)) :
    Access.Follows portal.server.currentGateway (effects.filterMap access)
      portal'.server.currentGateway := by
  unfold System.stepSend at h
  split at h
  · cases h
    exact Access.follows_read _ _
  · cases h
    rw [filterMap_sentToAll]
    exact Access.follows_nil _
  · cases h

/-- What one step does to `current_gateway`. -/
theorem follows_step {e : Event} (h : portal.step builds e = some (portal', effects)) :
    Access.Follows portal.server.currentGateway (effects.filterMap access)
      portal'.server.currentGateway := by
  unfold System.step at h
  split at h
  · cases h
    exact Access.follows_nil _
  · split at h
    · cases h
      exact Access.follows_nil _
    · cases h
  · split at h
    · exact follows_stepRefresh h
    · cases h
  · split at h
    · exact follows_stepSend h
    · cases h
  · exact follows_stepBackground h
  · cases h
    exact Access.follows_read _ _

/-- In every run, a payload is asked of the gateway that the most recent fork choice with attributes
was sent to exactly if the last refresh since then, if there was one, has written this gateway.
SRCLINE: portal/src/server.rs:115-168, 386-431, 478-495 -/
theorem asked_eq_sent_iff {events : List Event} {past future : List Effect}
    {sent asked : Portal.Gateway} {payloadId : PayloadId}
    (hrun : runEffects (System.step builds) portal events = some (portal', effects))
    (heffects : effects = past ++ .askedPayload asked payloadId :: future)
    (hsent : lastSent past = some sent) :
    asked = sent ↔ ∀ gateway, refreshedSince past = some gateway → gateway = sent := by
  have hfollows : Access.Follows portal.server.currentGateway (effects.filterMap access)
      portal'.server.currentGateway :=
    follows_runEffects (fun _ _ _ _ hstep => follows_step hstep) hrun
  have hasked : access (.askedPayload asked payloadId) = some (.read .getPayload asked) := rfl
  have hconsistent := hfollows.consistent
  rw [heffects, List.filterMap_append, List.filterMap_cons_some hasked] at hconsistent
  exact Access.eq_iff_writtenSince _ hconsistent hsent

end

/-! ## Two gateways -/

def gatewayA : Portal.Gateway := ⟨"http://a", 1⟩

def gatewayB : Portal.Gateway := ⟨"http://b", 2⟩

/-- A portal that knows both gateways. -/
def plainPortal : System := .start { currentGateway := gatewayA, gateways := [gatewayA, gatewayB] }

def plainState : ForkchoiceState := ⟨1, 0, 0⟩

def plainAttributes : OpPayloadAttributes where
  timestamp := 1
  prevRandao := 0
  suggestedFeeRecipient := 0
  parentBeaconBlockRoot := some 0
  transactions := none
  noTxPool := none
  gasLimit := none
  eip1559Params := none

/-- A call with attributes for which the registry answers with the first gateway. -/
def plainCall : List Event :=
  [.forkChoiceUpdatedV3 plainState (some plainAttributes), .fallback 0 true,
    .refresh 0 (.currentGateway (some (1, "http://a", 0, 1))), .refresh 0 .write, .send 0]

/-- What such a call does. -/
def plainEffects : List Effect :=
  [.refreshed gatewayA, .sentFcu gatewayA plainState (some plainAttributes)]

/-- A call that is followed by its payload. -/
theorem asked_eq_sent_plain :
    ∃ portal', runEffects (System.step fun _ => true) plainPortal
        (plainCall ++ [.getPayloadV3 7]) =
          some (portal', plainEffects ++ [.askedPayload gatewayA 7]) ∧
      lastSent plainEffects = some gatewayA ∧
      ∀ gateway, refreshedSince plainEffects = some gateway → gateway = gatewayA := by
  obtain ⟨portal', hrun⟩ : ∃ portal', runEffects (System.step fun _ => true) plainPortal
      (plainCall ++ [.getPayloadV3 7]) =
        some (portal', plainEffects ++ [.askedPayload gatewayA 7]) := ⟨_, rfl⟩
  exact ⟨portal', hrun, rfl, (asked_eq_sent_iff hrun rfl rfl).mp rfl⟩

/-- The background task refreshes between the two calls.
SRCLINE: portal/src/server.rs:115-120, 484-490 -/
theorem asked_ne_sent :
    ∃ portal', runEffects (System.step fun _ => true) plainPortal
        (plainCall ++ [.background (.currentGateway (some (2, "http://b", 0, 2))),
          .background .write, .getPayloadV3 7]) =
          some (portal', plainEffects ++ [.refreshed gatewayB, .askedPayload gatewayB 7]) ∧
      lastSent (plainEffects ++ [.refreshed gatewayB]) = some gatewayA ∧ gatewayB ≠ gatewayA :=
  ⟨_, rfl, rfl, by decide⟩

end BasedOp.Analysis.PortalGateway
