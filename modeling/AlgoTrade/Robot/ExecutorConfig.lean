import AlgoTrade.Lib.Text
import Mathlib.Algebra.Order.Floor.Ring
import Mathlib.Data.Rat.Floor

/-! # Executor payloads

What the previews of the built-in executors read from a payload.

* `Raw`, `Payload`: a payload's values, and the values of its keys.
* `toFloat`, `toInt`, `toBool`, `ratio`, `ratioList`: the readers `_float`, `_int`,
  `_bool`, `_ratio`, `_ratio_list`.
* `TrailingTakeProfit`, `EquityRisk`: the two risk sections, with their warnings.
* `ExecutorLevel`, `ExecutorPreview`: what a preview is made of. -/

namespace AlgoTrade.Executors

/-! ## Values -/

/-- What `float` and `int` read from a text. -/
structure Numerals where
  float : String → Option ℚ
  int : String → Option ℤ

/-- The reading of payloads whose texts are no numbers. -/
def Numerals.none : Numerals := ⟨fun _ => Option.none, fun _ => Option.none⟩

inductive Raw
  | none
  | bool (b : Bool)
  | number (x : ℚ)
  | text (s : String)
  | list (items : List Raw)
  | other

def Raw.truthy : Raw → Bool
  | .none => false
  | .bool b => b
  | .number x => x ≠ 0
  | .text s => s ≠ ""
  | .list items => ¬ items.isEmpty
  | .other => true

/-- The value of each key that the payload has. -/
abbrev Payload := String → Option Raw

namespace Payload

/-- `cfg.get(key)`. -/
def get (cfg : Payload) (key : String) : Raw := (cfg key).getD .none

/-- `cfg.get(key) or cfg.get(camel)`. -/
def either (cfg : Payload) (key camel : String) : Raw :=
  if (cfg.get key).truthy then cfg.get key else cfg.get camel

/-- `cfg.get(key) if key in cfg else cfg.get(camel)`. -/
def present (cfg : Payload) (key camel : String) : Raw :=
  if (cfg key).isSome then cfg.get key else cfg.get camel

/-- A payload with these keys. -/
def of (entries : List (String × Raw)) : Payload := fun key =>
  (entries.find? fun entry => entry.1 = key).map Prod.snd

end Payload

/-- A float without its fraction. -/
def truncated (x : ℚ) : ℤ := if 0 ≤ x then ⌊x⌋ else ⌈x⌉

section
variable (py : Numerals)

/-- `_float`. -/
def toFloat (value : Raw) (default : ℚ) : ℚ :=
  match value with
  | .bool b => if b then 1 else 0
  | .number x => x
  | .text s => (py.float s).getD default
  | _ => default

/-- `_int`. -/
def toInt (value : Raw) (default : ℤ) : ℤ :=
  match value with
  | .bool b => if b then 1 else 0
  | .number x => truncated x
  | .text s => (py.int s).getD default
  | _ => default

def lowered (s : String) : String := (Text.strip s).toLower

/-- `_bool`. -/
def toBool (value : Raw) (default : Bool) : Bool :=
  match value with
  | .none => default
  | .bool b => b
  | .number x => x ≠ 0
  | .text s => lowered s ∈ ["1", "true", "yes", "on"]
  | _ => false

/-- `_ratio`. -/
def ratio (value : Raw) (default : ℚ) : ℚ :=
  let out := toFloat py value default
  if 1 < |out| then out / 100 else out

/-- The values of `_ratio_list`: a list, or the parts of a text between its commas. -/
def rawValues : Raw → List Raw
  | .list items => items
  | .text s =>
    ((s.splitOn ",").map Text.strip).filterMap fun part =>
      if part = "" then none else some (.text part)
  | _ => []

/-- `_ratio_list`. -/
def ratioList (value : Raw) (defaults : List ℚ) (expected : ℕ) : List ℚ :=
  let read := (rawValues value).map fun item => ratio py item 0
  let out := if read = [] then defaults else read
  let fitted :=
    if 0 < expected then
      let out := if out = [] then [0] else out
      (out ++ List.replicate (expected - out.length) (out.getLastD 0)).take expected
    else out
  fitted.map fun item => max 0 item

end

/-! ## Sections -/

inductive Side
  | long | short | neutral
  deriving DecidableEq, Repr

/-- `_side`. -/
def side (value : Raw) (allowNeutral : Bool := false) : Side :=
  match value with
  | .text s =>
    if allowNeutral ∧ lowered s = "neutral" then .neutral
    else if lowered s = "short" then .short
    else .long
  | _ => .long

structure TrailingTakeProfit where
  enabled : Bool
  activation : ℚ
  callback : ℚ
  deriving DecidableEq, Repr

structure EquityRisk where
  takeProfit : ℚ
  stopLoss : ℚ
  trailingEnabled : Bool
  trailingActivation : ℚ
  trailingCallback : ℚ
  deriving DecidableEq, Repr

section
variable (py : Numerals) (cfg : Payload)

/-- `_trailing_take_profit_config`. -/
def trailingTakeProfit (defaultActivation : ℚ) : TrailingTakeProfit :=
  { enabled := toBool (cfg.present "trailing_take_profit_enabled" "trailingTakeProfitEnabled") true
    activation :=
      max 0 (ratio py (cfg.present "trailing_activation_pct" "trailingActivationPct")
        defaultActivation)
    callback :=
      max 0 (ratio py (cfg.present "trailing_callback_pct" "trailingCallbackPct") (2 / 1000)) }

def Raw.isNone : Raw → Bool
  | .none => true
  | _ => false

/-- `_equity_risk_config`. -/
def equityRisk (legacyGridFields : Bool := false) : EquityRisk :=
  let takeProfitRaw := cfg.present "equity_take_profit_pct" "equityTakeProfitPct"
  let stopLossRaw := cfg.present "equity_stop_loss_pct" "equityStopLossPct"
  let takeProfitRaw :=
    if legacyGridFields ∧ takeProfitRaw.isNone then cfg.present "take_profit_pct" "takeProfitPct"
    else takeProfitRaw
  let stopLossRaw :=
    if legacyGridFields ∧ stopLossRaw.isNone then cfg.present "hard_stop_pct" "hardStopPct"
    else stopLossRaw
  { takeProfit := max 0 (ratio py takeProfitRaw (10 / 100))
    stopLoss := max 0 (ratio py stopLossRaw (6 / 100))
    trailingEnabled := toBool (cfg.present "equity_trailing_enabled" "equityTrailingEnabled") true
    trailingActivation :=
      max 0 (ratio py (cfg.present "equity_trailing_activation_pct" "equityTrailingActivationPct")
        (5 / 100))
    trailingCallback :=
      max 0 (ratio py (cfg.present "equity_trailing_callback_pct" "equityTrailingCallbackPct")
        (3 / 100)) }

end

/-- A trailing exit whose callback does not lie below its activation. -/
def trailingInvalid (enabled : Bool) (activation callback : ℚ) : Bool :=
  enabled ∧ (activation ≤ 0 ∨ callback ≤ 0 ∨ activation ≤ callback)

/-! ## Previews -/

structure ExecutorLevel where
  level : ℕ
  action : String
  side : Side
  price : ℚ
  amountQuote : ℚ
  takeProfitPrice : ℚ := 0
  triggerPct : ℚ := 0
  layerIndex : ℕ := 0
  orderIndex : ℕ := 0
  deriving DecidableEq, Repr

/-- `b` lies on the losing side of `a`. -/
def Loses (side : Side) (a b : ℚ) : Prop := if side = .long then b < a else a < b

instance (side : Side) (a b : ℚ) : Decidable (Loses side a b) :=
  inferInstanceAs (Decidable (if side = .long then b < a else a < b))

structure ExecutorPreview where
  levels : List ExecutorLevel
  warnings : List String
  deriving DecidableEq, Repr

def blockingPreviewWarnings : List String :=
  ["invalid_price_bounds", "neutral_grid_anchor_outside_bounds", "missing_dca_budget",
    "missing_entry_price", "missing_base_order_size", "invalid_trailing_take_profit",
    "invalid_equity_trailing_take_profit"]

/-- `build_executor_strategy_payload` takes the preview. -/
def ExecutorPreview.Unblocked (preview : ExecutorPreview) : Prop :=
  ∀ warning ∈ preview.warnings, warning ∉ blockingPreviewWarnings

instance (preview : ExecutorPreview) : Decidable preview.Unblocked :=
  inferInstanceAs (Decidable (∀ _ ∈ _, _))

end AlgoTrade.Executors
