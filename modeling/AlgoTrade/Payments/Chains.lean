import Mathlib.Data.Rat.Floor
import Mathlib.Algebra.Order.Field.Rat

/-! # USDT receiving chains and their watchers

A watcher reads the incoming transfers a source lists for the receiving address
and answers the first one it accepts for an order.

* `buildAmountWithSuffix`: the amount that identifies an order.
* `Source.accepts`: what each source's scan skips (`wrong_amount`,
  `before_order`, the block window of the RPC scan).
* `findIncoming`: the first accepted transfer. -/

namespace AlgoTrade

/-! ## Chains -/

inductive UsdtChain
  | trc20 | bep20 | erc20 | sol
  deriving DecidableEq, Repr

namespace UsdtChain

/-- USDT decimals of `CHAIN_SPECS`. -/
def decimals : UsdtChain → ℕ
  | trc20 => 6
  | bep20 => 18
  | erc20 => 6
  | sol => 6

/-- `_AVG_BLOCK_TIME_SEC` with its default. -/
def avgBlockTimeSec : UsdtChain → ℚ
  | bep20 => 3 / 4
  | erc20 => 12
  | _ => 3

/-- `_MAX_BLOCK_LOOKBACK` with its default. -/
def maxBlockLookback : UsdtChain → ℤ
  | bep20 => 4800
  | erc20 => 600
  | _ => 1500

end UsdtChain

/-! ## Amounts -/

/-- `USDT_AMOUNT_SUFFIX_DECIMALS` clamped to 4..8. -/
def suffixDecimals (setting : ℤ) : ℕ := (max 4 (min 8 setting)).toNat

/-- Quantize a positive amount to so many decimals, half up. -/
def quantizeHalfUp (decimals : ℕ) (x : ℚ) : ℚ :=
  ⌊x * 10 ^ decimals + 1 / 2⌋ / 10 ^ decimals

/-- The suffix of a slot drawn below `space`, and the final amount. -/
def buildAmountWithSuffix (decimals : ℕ) (baseAmount : ℚ) (digest : ℕ) : ℚ × ℚ :=
  let space := max 100 (10 ^ (decimals - 2))
  let slot := digest % space
  let suffix := quantizeHalfUp decimals (((slot + 1 : ℕ) : ℚ) / 10 ^ decimals)
  (quantizeHalfUp decimals (baseAmount + suffix), suffix)

/-- `Decimal.to_integral_value`: half to even. -/
def toIntegralValue (x : ℚ) : ℤ :=
  let lower := ⌊x⌋
  if x - lower < 1 / 2 then lower
  else if 1 / 2 < x - lower then lower + 1
  else if lower % 2 = 0 then lower else lower + 1

/-- The amount in the chain's smallest unit that the watchers look for. -/
def UsdtChain.target (chain : UsdtChain) (amount : ℚ) : ℤ :=
  toIntegralValue (amount * 10 ^ chain.decimals)

/-! ## Watchers -/

/-- An incoming transfer on a chain.  `timeMs` is the block time, 0 when the
source does not know it; `value` is in the chain's smallest unit. -/
structure Transfer where
  chain : UsdtChain
  txHash : String
  value : ℤ
  timeMs : ℤ
  block : ℤ
  deriving DecidableEq, Repr

/-- What a watcher answers. -/
structure IncomingTransfer where
  txHash : String
  blockTimestampMs : ℤ
  valueSmallestUnit : ℤ
  deriving DecidableEq, Repr

/-- TronGrid, an Etherscan-style explorer, `eth_getLogs` with the node's latest
block, the Solana RPC. -/
inductive Source
  | tron
  | explorer
  | rpc (latestBlock : ℤ)
  | solana
  deriving DecidableEq, Repr

namespace Source

/-- The registered watcher of the chain may answer from this source. -/
def serves : Source → UsdtChain → Bool
  | tron, .trc20 => true
  | explorer, .bep20 | explorer, .erc20 => true
  | rpc _, .bep20 | rpc _, .erc20 => true
  | solana, .sol => true
  | _, _ => false

end Source

/-- First block of the RPC scan; times in microseconds. -/
def floorBlock (chain : UsdtChain) (createdAt now latestBlock : ℤ) : ℤ :=
  let secs : ℚ := max 0 (((now - createdAt : ℤ) : ℚ) / 1000000 + 60)
  let chunkSize := chain.maxBlockLookback
  let desired := ⌊secs / chain.avgBlockTimeSec⌋ + 20
  let totalLookback := max chunkSize (min desired (chunkSize * 4))
  max 0 (latestBlock - totalLookback)

/-- The scan does not skip the value. -/
def withinOneUnit (target value : ℤ) : Bool := ¬ (value < target - 1 ∨ target + 1 < value)

namespace Source

/-- The scan of an order of that amount and creation time accepts the transfer. -/
def accepts (source : Source) (chain : UsdtChain) (amount : ℚ) (createdAt now : ℤ)
    (t : Transfer) : Bool :=
  withinOneUnit (chain.target amount) t.value &&
    match source with
    | tron =>
      let minTs := createdAt / 1000 - 60000
      ¬ (minTs ≠ 0 ∧ t.timeMs < minTs)
    | explorer => ¬ t.timeMs / 1000 < createdAt / 1000000 - 60
    -- the logs carry no time: only the block range bounds them
    | rpc latestBlock => floorBlock chain createdAt now latestBlock ≤ t.block ∧
        t.block ≤ latestBlock
    | solana =>
      let blockTime := t.timeMs / 1000
      ¬ (blockTime ≠ 0 ∧ blockTime < createdAt / 1000000 - 60)

/-- The block time the answer carries. -/
def blockTimestampMs (source : Source) (t : Transfer) : ℤ :=
  match source with
  | tron => t.timeMs
  | explorer => t.timeMs / 1000 * 1000
  | rpc _ => 0
  | solana => t.timeMs / 1000 * 1000

def incoming (source : Source) (t : Transfer) : IncomingTransfer where
  txHash := t.txHash
  blockTimestampMs := source.blockTimestampMs t
  valueSmallestUnit := t.value

end Source

/-- The first transfer of the source's list that the scan accepts. -/
def findIncoming (source : Source) (chain : UsdtChain) (amount : ℚ) (createdAt now : ℤ)
    (items : List Transfer) : Option IncomingTransfer :=
  (items.find? (source.accepts chain amount createdAt now)).map source.incoming

end AlgoTrade
