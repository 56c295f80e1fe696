import AlgoTrade.Funding.Reconciliation
import AlgoTrade.Lifecycle.Workers
import AlgoTrade.Live.OrderPlan

/-! # The live guard

A live strategy owns one leg or both legs of its instrument in an account; before its thread
is started, no other strategy that is to run may own them.

* `strategyLiveLockKey`: the account, the instrument and the leg.
* `findLiveStrategyConflict`: another strategy that is to run there.
* `preflightLiveStrategy`: what the executor checks before it starts a strategy. -/

namespace AlgoTrade.LiveGuard

open Lifecycle (DesiredStatus)
open OrderPlan (DirectionMode normalizeDirectionMode)

/-- `str(value).strip().lower()`. -/
def lowered (s : String) : String := String.ofList ((Text.strip s).toList.map Char.toLower)

/-- `x or y`. -/
def orText (x y : String) : String := if x = "" then y else x

inductive Leg
  | long | short
  deriving DecidableEq, Repr

structure ExchangeConfig where
  exchangeId : String := ""
  marketType : String := ""
  credentialId : ℤ := 0
  deriving DecidableEq, Repr

/-- A row of `qd_strategies_trading`, with what its configurations say. -/
structure LiveStrategy where
  id : ℕ
  userId : ℤ
  executionMode : String := "live"
  marketType : String := ""
  symbol : String := ""
  configMarketType : String := ""
  configSymbol : String := ""
  /-- What the row and its configuration say of the direction, in the order it is looked up. -/
  directionValues : List String := []
  /-- What its code says of it. -/
  codeDirection : Option DirectionMode := none
  botType : String := ""
  gridDirection : String := ""
  exchangeConfig : ExchangeConfig := {}
  /-- `resolve_exchange_config` of it. -/
  resolvedExchange : ExchangeConfig := {}
  deriving DecidableEq, Repr

/-! ## Directions -/

/-- `resolve_strategy_direction_mode`; `none` for the empty answer. -/
def resolveStrategyDirectionMode (s : LiveStrategy) : Option DirectionMode :=
  if lowered (orText s.configMarketType (orText s.marketType "swap")) = "spot" then some .longOnly
  else match s.directionValues.findSome? normalizeDirectionMode with
    | some mode => some mode
    | none => s.codeDirection

/-- `direction_mode_position_side`. -/
def directionModePositionSide : Option DirectionMode → String
  | some .longOnly => "long"
  | some .shortOnly => "short"
  | some .both | some .neutral => "neutral"
  | none => ""

/-- `direction_mode_owned_legs`. -/
def directionModeOwnedLegs : Option DirectionMode → List Leg
  | some .longOnly => [.long]
  | some .shortOnly => [.short]
  | _ => [.long, .short]

def LiveStrategy.ownedLegs (s : LiveStrategy) : List Leg :=
  directionModeOwnedLegs (resolveStrategyDirectionMode s)

/-! ## Conflicts -/

/-- The key without the leg. -/
structure Instrument where
  userId : ℤ
  credential : ℤ ⊕ String
  exchangeId : String
  marketType : String
  symbol : List Char
  deriving DecidableEq, Repr

def swapMarket (marketType : String) : String :=
  if marketType ∈ ["futures", "future", "perp", "perpetual"] then "swap" else marketType

def LiveStrategy.isLive (s : LiveStrategy) : Bool :=
  lowered (orText s.executionMode "signal") = "live"

/-- `strategy_live_lock_key`. -/
def strategyLiveLockKey (s : LiveStrategy) (userId : ℤ) : Option (Instrument × String) :=
  if !s.isLive then none
  else
    let exchangeId := lowered (orText s.resolvedExchange.exchangeId s.exchangeConfig.exchangeId)
    if exchangeId = "" then none
    else
      let credentialId :=
        if s.resolvedExchange.credentialId = 0 then s.exchangeConfig.credentialId
        else s.resolvedExchange.credentialId
      let symbol := Funding.upper (Funding.normalizeStrategySymbol
        (Funding.strip (orText s.symbol s.configSymbol).toList))
      if symbol = [] then none
      else some
        ({ userId := if userId = 0 then s.userId else userId
           credential :=
             if 0 < credentialId then .inl credentialId else .inr ("inline:" ++ exchangeId)
           exchangeId
           marketType := swapMarket (lowered (orText s.configMarketType
             (orText s.marketType (orText s.resolvedExchange.marketType "swap"))))
           symbol },
          orText (directionModePositionSide (resolveStrategyDirectionMode s)) "unknown")

structure LiveConflict where
  strategyId : ℕ
  instrument : Instrument
  positionSide : String
  deriving DecidableEq, Repr

/-- Whether the other strategy owns the instrument, or a leg of it. -/
def contends (s : LiveStrategy) (userId : ℤ) (allowOppositeLeg : Bool) (instrument : Instrument)
    (other : LiveStrategy) : Bool :=
  match strategyLiveLockKey other userId with
  | none => false
  | some otherKey =>
    otherKey.1 = instrument && (!allowOppositeLeg || s.ownedLegs.any (· ∈ other.ownedLegs))

/-- `find_live_strategy_conflict`. -/
def findLiveStrategyConflict (rows : List LiveStrategy) (status : ℕ → DesiredStatus)
    (s : LiveStrategy) (userId : ℤ) (allowOppositeLeg : Bool) : Option LiveConflict :=
  match strategyLiveLockKey s userId with
  | none => none
  | some (instrument, positionSide) =>
    let running := rows.filter fun other => other.userId = userId ∧ status other.id = .running ∧
      other.executionMode = "live" ∧ other.id ≠ s.id
    (running.find? (contends s userId allowOppositeLeg instrument)).map fun other =>
      ⟨other.id, instrument, positionSide⟩

def liveConflictMessage (conflict : LiveConflict) : String :=
  "strategyV2.liveLegConflict:" ++ toString conflict.strategyId

/-! ## The preflight -/

/-- The position mode of an account, where the exchange tells it. -/
structure HedgeMode where
  isHedge : Option Bool
  label : String
  deriving DecidableEq, Repr

/-- The market the preflight takes the strategy to be on. -/
def LiveStrategy.preflightMarket (s : LiveStrategy) : String :=
  swapMarket (lowered (orText s.marketType (orText s.configMarketType "spot")))

def LiveStrategy.ownsBothLegs (s : LiveStrategy) : Bool :=
  resolveStrategyDirectionMode s ∈ [some .both, some .neutral] ∨
    (s.botType = "grid" ∧ lowered s.gridDirection = "neutral")

/-- What `find_live_strategy_conflict` is called with. -/
def LiveStrategy.allowOppositeLeg (s : LiveStrategy) (isHedge : Option Bool) : Bool :=
  s.preflightMarket ≠ "swap" ∨ (isHedge = some true ∧ ¬ s.ownsBothLegs)

/-- `_preflight_live_strategy`, with what `detect_hedge_position_mode` answers. -/
def preflightLiveStrategy (rows : List LiveStrategy) (status : ℕ → DesiredStatus)
    (strategyId : ℕ) (mode : HedgeMode) : Except String Unit :=
  match rows.find? (·.id = strategyId) with
  | none => .error "strategyV2.strategyNotFound"
  | some s =>
    if !s.isLive then .ok ()
    else
      let noConflict := match findLiveStrategyConflict rows status s s.userId
          (s.allowOppositeLeg mode.isHedge) with
        | some conflict => Except.error (liveConflictMessage conflict)
        | none => .ok ()
      if s.preflightMarket ≠ "swap" then noConflict
      else if resolveStrategyDirectionMode s = none then .error "strategyV2.directionModeRequired"
      else if s.ownsBothLegs ∧ mode.isHedge ≠ some true then
        .error ("strategyV2.dualDirectionHedgeModeRequired:" ++ mode.label)
      else if mode.isHedge = none then .error ("strategyV2.hedgeModeUnknown:" ++ mode.label)
      else noConflict

/-! ## What it makes sure of -/

section
variable {rows : List LiveStrategy} {status : ℕ → DesiredStatus} {s other : LiveStrategy}
  {userId : ℤ} {allowOppositeLeg : Bool} {instrument : Instrument} {positionSide : String}

theorem userId_of_lockKey (h : strategyLiveLockKey s s.userId = some (instrument, positionSide)) :
    instrument.userId = s.userId := by
  unfold strategyLiveLockKey at h
  split at h
  · cases h
  · dsimp only at h
    split at h
    · cases h
    · split at h
      · cases h
      · obtain rfl := (Prod.mk.inj (Option.some.inj h)).1
        exact ite_self _

/-- Where no conflict is found, who is to run on the instrument runs on other legs. -/
theorem apart_of_noConflict
    (h : findLiveStrategyConflict rows status s userId allowOppositeLeg = none)
    (hkey : strategyLiveLockKey s userId = some (instrument, positionSide)) (hother : other ∈ rows)
    (huser : other.userId = userId) (hrunning : status other.id = .running)
    (hlive : other.executionMode = "live") (hne : other.id ≠ s.id) {otherSide : String}
    (hotherKey : strategyLiveLockKey other userId = some (instrument, otherSide)) :
    allowOppositeLeg = true ∧ ∀ leg ∈ s.ownedLegs, leg ∉ other.ownedLegs := by
  unfold findLiveStrategyConflict at h
  rw [hkey] at h
  have hnone := List.find?_eq_none.mp (Option.map_eq_none_iff.mp h) other
    (List.mem_filter.mpr ⟨hother, decide_eq_true ⟨huser, hrunning, hlive, hne⟩⟩)
  unfold contends at hnone
  rw [hotherKey] at hnone
  simp only [decide_true, Bool.true_and, Bool.or_eq_true, not_or, Bool.not_eq_true',
    Bool.not_eq_false, List.any_eq_true, decide_eq_true_iff, not_exists, not_and] at hnone
  exact hnone

end

/-- **What a passed preflight makes sure of.** -/
theorem apart_of_preflight {rows : List LiveStrategy} {status : ℕ → DesiredStatus}
    {mode : HedgeMode} {s other : LiveStrategy} {instrument : Instrument} {side otherSide : String}
    (h : preflightLiveStrategy rows status s.id mode = .ok ())
    (hs : rows.find? (·.id = s.id) = some s)
    (hkey : strategyLiveLockKey s s.userId = some (instrument, side)) (hother : other ∈ rows)
    (hrunning : status other.id = .running) (hlive : other.executionMode = "live")
    (hne : other.id ≠ s.id)
    (hotherKey : strategyLiveLockKey other other.userId = some (instrument, otherSide)) :
    s.allowOppositeLeg mode.isHedge = true ∧ ∀ leg ∈ s.ownedLegs, leg ∉ other.ownedLegs := by
  have huser : other.userId = s.userId :=
    (userId_of_lockKey hotherKey).symm.trans (userId_of_lockKey hkey)
  unfold preflightLiveStrategy at h
  rw [hs] at h
  dsimp only at h
  have hisLive : s.isLive = true := by
    by_contra hnot
    unfold strategyLiveLockKey at hkey
    rw [if_pos (by simpa using hnot)] at hkey
    cases hkey
  rw [hisLive, Bool.not_true, if_neg Bool.false_ne_true] at h
  have hnone : findLiveStrategyConflict rows status s s.userId (s.allowOppositeLeg mode.isHedge) =
      none := by
    cases hfound : findLiveStrategyConflict rows status s s.userId
        (s.allowOppositeLeg mode.isHedge) with
    | none => rfl
    | some conflict =>
      rw [hfound] at h
      dsimp only at h
      -- on every path that ends well the search is the last thing done
      repeat' split at h
      all_goals cases h
  exact apart_of_noConflict hnone hkey hother huser hrunning hlive hne (huser ▸ hotherKey)

end AlgoTrade.LiveGuard
