import AlgoTrade.Lib.Series

/-! # Frames and parameters of the factors

A frame is a list of bars of finite numbers, a parameter is whatever a caller passes: what
Python's conversions make of it is all that is kept of it. -/

namespace AlgoTrade

open scoped Series

/-- `FactorError`, by its code. -/
inductive FactorError
  | noData
  | missingFields
  | computeFailed
  | insufficientHistory
  | invalidParameter
  deriving DecidableEq, Repr

def FactorError.code : FactorError → String
  | noData => "factor.noData"
  | missingFields => "factor.missingFields"
  | computeFailed => "factor.computeFailed"
  | insufficientHistory => "factor.insufficientHistory"
  | invalidParameter => "factor.invalidParameter"

namespace Factors

/-! ## Bars -/

section
variable (K : Type) [Field K] [LinearOrder K]

/-- A bar of a price frame. -/
structure Bar where
  openPrice : K
  high : K
  low : K
  close : K
  volume : K
  open_pos : 0 < openPrice
  high_pos : 0 < high
  low_pos : 0 < low
  close_pos : 0 < close
  volume_nonneg : 0 ≤ volume

abbrev Frame := List (Bar K)

/-- The functions of `math` and `numpy` that a factor calls. -/
structure Analysis where
  sqrt : K → K
  log : K → K
  log10 : K → K

end

/-! ## Results -/

section
variable {ε α β : Type} {x : Except ε α} {b : β}

@[simp] theorem ok_bind {a : α} {f : α → Except ε β} : (Except.ok a >>= f) = f a := rfl

@[simp] theorem error_bind {e : ε} {f : α → Except ε β} :
    ((Except.error e : Except ε α) >>= f) = .error e := rfl

@[simp] theorem map_ok {a : α} {f : α → β} : f <$> (Except.ok a : Except ε α) = .ok (f a) := rfl

@[simp] theorem map_error {e : ε} {f : α → β} :
    f <$> (Except.error e : Except ε α) = .error e := rfl

@[simp] theorem pure_eq {a : β} : (pure a : Except ε β) = .ok a := rfl

theorem bind_eq_ok {f : α → Except ε β} : (x >>= f) = .ok b ↔ ∃ a, x = .ok a ∧ f a = .ok b := by
  cases x <;> simp [bind, Except.bind]

theorem map_eq_ok {f : α → β} : f <$> x = .ok b ↔ ∃ a, x = .ok a ∧ f a = b := by
  cases x <;> simp [Functor.map, Except.map]

theorem pure_eq_ok {a : β} : (pure a : Except ε β) = .ok b ↔ a = b :=
  ⟨Except.ok.inj, congrArg _⟩

end

/-! ## Parameters -/

/-- What a conversion can raise: `TypeError` and `ValueError` are caught on the spot. -/
inductive Raised
  | caught
  | other
  deriving DecidableEq

/-- A parameter: whether it is true, what `int` and `float` make of it (nothing for a float that
is not finite), and its text without blanks around it and in small letters. -/
structure Value where
  truthy : Bool
  toInt : Except Raised ℤ
  toFloat : Except Raised (Option ℚ)
  word : String

def Value.int (n : ℤ) : Value := ⟨n ≠ 0, .ok n, .ok (some n), toString n⟩

def Value.float (q : ℚ) (word : String) : Value :=
  ⟨q ≠ 0, .ok (q.num.tdiv q.den), .ok (some q), word⟩

/-- A word that is no number. -/
def Value.text (word : String) : Value := ⟨word ≠ "", .error .caught, .error .caught, word⟩

abbrev Params := String → Option Value

/-- `{**default_params, **params}`. -/
def Params.over (given defaults : Params) : Params := fun key => (given key).or (defaults key)

def Raised.toError : Raised → FactorError
  | caught => .invalidParameter
  | other => .computeFailed

/-- A parameter that is there and true: `params.get(key)` before its `or`. -/
def given (params : Params) (key : String) : Option Value := (params key).filter (·.truthy)

/-- `int(params.get(key) or default)`. -/
def intOr (params : Params) (key : String) (default : ℤ) : Except Raised ℤ :=
  match given params key with
  | none => .ok default
  | some v => v.toInt

/-- `_period`. -/
def intParam (params : Params) (key : String) (minimum : ℤ) : Except FactorError ℕ := do
  let value ← (intOr params key minimum).mapError Raised.toError
  if value < minimum ∨ 5000 < value then .error .invalidParameter else .ok value.toNat

def period (params : Params) : Except FactorError ℕ := intParam params "period" 2

theorem intParam_eq_ok {params : Params} {key : String} {minimum : ℤ} {n : ℕ} :
    intParam params key minimum = .ok n ↔
      ∃ value, intOr params key minimum = .ok value ∧ minimum ≤ value ∧ value ≤ 5000 ∧
        value.toNat = n := by
  unfold intParam
  cases hvalue : intOr params key minimum with
  | error e => simp [Except.mapError, bind, Except.bind]
  | ok value =>
    simp only [Except.mapError, bind, Except.bind, Except.ok.injEq, exists_eq_left']
    split
    next h => simp only [reduceCtorEq, false_iff]; omega
    next h => simp only [Except.ok.injEq]; omega

theorem le_intParam {params : Params} {key : String} {m n : ℕ}
    (h : intParam params key m = .ok n) : m ≤ n := by
  obtain ⟨value, -, hmin, -, rfl⟩ := intParam_eq_ok.mp h
  omega

theorem two_le_period {params : Params} {n : ℕ} (h : period params = .ok n) : 2 ≤ n :=
  le_intParam h

/-- `_positive_float`. -/
def positiveFloat (params : Params) (key : String) (default : ℚ) : Except FactorError ℚ := do
  let value ← match params key with
    | none => .ok (some default)
    | some v => v.toFloat.mapError Raised.toError
  match value with
  | none => .error .invalidParameter
  | some q => if q ≤ 0 then .error .invalidParameter else .ok q

/-- The outputs that some factor offers. -/
inductive Output
  | value | slope | adx | plusDi | minusDi | up | down | oscillator | upper | middle | lower
  | bandwidth | position | bull | bear | k | d | j | line | signal | histogram | direction
  | distance | plus | minus
  deriving DecidableEq

def Output.text : Output → String
  | value => "value"
  | slope => "slope"
  | adx => "adx"
  | plusDi => "plus_di"
  | minusDi => "minus_di"
  | up => "up"
  | down => "down"
  | oscillator => "oscillator"
  | upper => "upper"
  | middle => "middle"
  | lower => "lower"
  | bandwidth => "bandwidth"
  | position => "position"
  | bull => "bull"
  | bear => "bear"
  | k => "k"
  | d => "d"
  | j => "j"
  | line => "line"
  | signal => "signal"
  | histogram => "histogram"
  | direction => "direction"
  | distance => "distance"
  | plus => "plus"
  | minus => "minus"

/-- `_choice` of the parameter `output`. -/
def choice (params : Params) (allowed : List Output) (default : Output) :
    Except FactorError Output :=
  let word := match given params "output" with
    | none => default.text
    | some v => v.word
  match allowed.find? (·.text = word) with
  | none => .error .invalidParameter
  | some output => .ok output

theorem choice_mem {params : Params} {allowed : List Output} {default output : Output}
    (h : choice params allowed default = .ok output) : output ∈ allowed := by
  unfold choice at h
  dsimp only at h
  split at h
  next => cases h
  next hfind => exact Except.ok.inj h ▸ List.mem_of_find?_eq_some hfind

/-! ## Values -/

section
variable {K : Type}

/-- `_require`. -/
def require (values : List K) (count : ℕ) : Except FactorError (List K) :=
  if values.length < count then .error .insufficientHistory else .ok values

theorem require_eq_ok {values clean : List K} {count : ℕ} :
    require values count = .ok clean ↔ count ≤ values.length ∧ values = clean := by
  unfold require
  split
  next h => simp only [reduceCtorEq, false_iff]; omega
  next h => simp only [Except.ok.injEq]; exact ⟨fun hv => ⟨by omega, hv⟩, fun hv => hv.2⟩

theorem require_of_le {values : List K} {count : ℕ} (h : count ≤ values.length) :
    require values count = .ok values := if_neg (not_lt.mpr h)

variable [Field K]

/-- `values.iloc[-back - 1]`, of a series that is long enough. -/
def fromEnd (values : List K) (back : ℕ) : K := values.reverse.getD back 0

/-- `_ema_values` without the places before the first average. -/
def emaValues (values : List K) (period : ℕ) : Except FactorError (List K) :=
  if values.length < period then .error .insufficientHistory else .ok (Series.ema period values)

/-- `_ema_values(values, period).iloc[-1]`. -/
def emaLast (values : List K) (period : ℕ) : Except FactorError K :=
  (fromEnd · 0) <$> emaValues values period

/-- `_wilder_last`. -/
def wilderLast (values : List K) (period : ℕ) : Except FactorError K :=
  Series.wilder period <$> require values period

/-- The numbers over the ones before them, less one: `pct_change().dropna()`. -/
def returns (values : List K) : List K :=
  values.tail.zipWith (fun x before => x / before - 1) values

@[simp] theorem length_returns (values : List K) :
    (returns values).length = values.length - 1 := by
  rw [returns, List.length_zipWith, List.length_tail]
  omega

theorem fromEnd_mem {values : List K} {back : ℕ} (h : back < values.length) :
    fromEnd values back ∈ values := by
  have hlen : back < values.reverse.length := by rwa [List.length_reverse]
  rw [fromEnd, List.getD_eq_getElem?_getD, List.getElem?_eq_getElem hlen, Option.getD_some]
  exact List.mem_reverse.mp (List.getElem_mem hlen)

theorem fromEnd_rtake {values : List K} {back n : ℕ} (h : back < n) :
    fromEnd (values.rtake n) back = fromEnd values back := by
  rw [fromEnd, fromEnd, List.rtake_eq_reverse_take_reverse, List.reverse_reverse,
    List.getD_eq_getElem?_getD, List.getD_eq_getElem?_getD, List.getElem?_take_of_lt h]

theorem emaValues_of_le {values : List K} {period : ℕ} (h : period ≤ values.length) :
    emaValues values period = .ok (Series.ema period values) := if_neg (not_lt.mpr h)

theorem emaValues_of_lt {values : List K} {period : ℕ} (h : values.length < period) :
    emaValues values period = .error .insufficientHistory := if_pos h

theorem emaLast_of_le {values : List K} {period : ℕ} (h : period ≤ values.length) :
    emaLast values period = .ok (fromEnd (Series.ema period values) 0) := by
  rw [emaLast, emaValues_of_le h, map_ok]

/-- The bounds of a series hold at every place. -/
theorem abs_fromEnd_le [LinearOrder K] [IsStrictOrderedRing K] {l m : List K}
    (h : List.Forall₂ (fun x y => |x| ≤ y) l m) (back : ℕ) : |fromEnd l back| ≤ fromEnd m back := by
  have hrev := List.rel_reverse h
  rw [fromEnd, fromEnd, List.getD_eq_getElem?_getD, List.getD_eq_getElem?_getD]
  rcases lt_or_ge back l.reverse.length with hlt | hle
  · rw [List.getElem?_eq_getElem hlt, List.getElem?_eq_getElem (hrev.length_eq ▸ hlt)]
    exact hrev.get hlt (hrev.length_eq ▸ hlt)
  · rw [List.getElem?_eq_none hle, List.getElem?_eq_none (hrev.length_eq ▸ hle)]
    simp

theorem mem_of_getLastD {α : Type*} {l : List (Option α)} {a : α}
    (h : l.getLastD none = some a) : some a ∈ l := by
  rcases List.eq_nil_or_concat' l with rfl | ⟨l, x, rfl⟩
  · cases h
  · rw [List.getLastD_concat] at h
    exact h ▸ List.mem_append_right l List.mem_cons_self

theorem exists_getLastD {α : Type*} {l : List (Option α)} (hl : l ≠ []) (h : ∀ x ∈ l, x.isSome) :
    ∃ a, l.getLastD none = some a := by
  rcases List.eq_nil_or_concat' l with rfl | ⟨l, x, rfl⟩
  · exact absurd rfl hl
  · rw [List.getLastD_concat]
    exact Option.isSome_iff_exists.mp (h x (List.mem_append_right l List.mem_cons_self))

theorem emaValues_eq_ok {values averages : List K} {period : ℕ} :
    emaValues values period = .ok averages ↔
      period ≤ values.length ∧ Series.ema period values = averages := by
  unfold emaValues
  split
  next h => simp only [reduceCtorEq, false_iff]; omega
  next h => simp only [Except.ok.injEq]; exact ⟨fun hv => ⟨by omega, hv⟩, fun hv => hv.2⟩

theorem emaLast_eq_ok {values : List K} {period : ℕ} {e : K} :
    emaLast values period = .ok e ↔
      period ≤ values.length ∧ fromEnd (Series.ema period values) 0 = e := by
  simp only [emaLast, map_eq_ok, emaValues_eq_ok, and_assoc, exists_and_left, exists_eq_left']

theorem wilderLast_eq_ok {values : List K} {period : ℕ} {r : K} :
    wilderLast values period = .ok r ↔
      period ≤ values.length ∧ Series.wilder period values = r := by
  simp only [wilderLast, map_eq_ok, require_eq_ok, and_assoc, exists_and_left, exists_eq_left']

end

/-! ## Columns -/

section
variable {K : Type} [Field K] [LinearOrder K]

/-- `if len(frame) < count: raise`. -/
def requireRows (frame : Frame K) (count : ℕ) : Except FactorError Unit :=
  if frame.length < count then .error .insufficientHistory else .ok ()

/-- A quotient that is NaN over zero. -/
def overNonzero (a b : K) : Option K := if b = 0 then none else some (a / b)

def closes (frame : Frame K) : List K := frame.map (·.close)

def highs (frame : Frame K) : List K := frame.map (·.high)

def lows (frame : Frame K) : List K := frame.map (·.low)

def volumes (frame : Frame K) : List K := frame.map (·.volume)

def typical (b : Bar K) : K := (b.high + b.low + b.close) / 3

/-- A column over each bar and the one before it. -/
def overPrevious {α : Type*} (first : Bar K → α) (later : Bar K → Bar K → α) : Frame K → List α
  | [] => []
  | b :: bs => first b :: (b :: bs).zipWith later bs

/-- `_true_range`. -/
def trueRange (frame : Frame K) : List K :=
  overPrevious (fun b => b.high - b.low)
    (fun prev b => max (max (b.high - b.low) |b.high - prev.close|) |b.low - prev.close|) frame

@[simp] theorem length_closes (frame : Frame K) : (closes frame).length = frame.length :=
  List.length_map ..

@[simp] theorem length_highs (frame : Frame K) : (highs frame).length = frame.length :=
  List.length_map ..

@[simp] theorem length_lows (frame : Frame K) : (lows frame).length = frame.length :=
  List.length_map ..

@[simp] theorem length_volumes (frame : Frame K) : (volumes frame).length = frame.length :=
  List.length_map ..

@[simp] theorem length_overPrevious {α : Type*} (first : Bar K → α) (later : Bar K → Bar K → α)
    (frame : Frame K) : (overPrevious first later frame).length = frame.length := by
  cases frame with
  | nil => rfl
  | cons b bs => simp [overPrevious]

@[simp] theorem length_trueRange (frame : Frame K) :
    (trueRange frame).length = frame.length := length_overPrevious ..

theorem requireRows_eq_ok {frame : Frame K} {count : ℕ} {u : Unit} :
    requireRows frame count = .ok u ↔ count ≤ frame.length := by
  unfold requireRows
  split
  next h => simp only [reduceCtorEq, false_iff]; omega
  next h => simp only [true_iff]; omega

theorem requireRows_of_le {frame : Frame K} {count : ℕ} (h : count ≤ frame.length) :
    requireRows frame count = .ok () := if_neg (not_lt.mpr h)

theorem requireRows_of_lt {frame : Frame K} {count : ℕ} (h : frame.length < count) :
    requireRows frame count = .error .insufficientHistory := if_pos h

theorem require_closes_of_le {frame : Frame K} {count : ℕ} (h : count ≤ frame.length) :
    require (closes frame) count = .ok (closes frame) :=
  require_of_le (h.trans_eq (length_closes frame).symm)

theorem require_closes_of_lt {frame : Frame K} {count : ℕ} (h : frame.length < count) :
    require (closes frame) count = .error .insufficientHistory :=
  if_pos ((length_closes frame).trans_lt h)

theorem forall_mem_overPrevious {α : Type*} {first : Bar K → α} {later : Bar K → Bar K → α}
    {frame : Frame K} {Q : α → Prop} (hfirst : ∀ b ∈ frame, Q (first b))
    (hlater : ∀ prev ∈ frame, ∀ b ∈ frame, Q (later prev b)) :
    ∀ x ∈ overPrevious first later frame, Q x := by
  cases frame with
  | nil => exact fun x hx => by cases hx
  | cons b bs =>
    intro x hx
    rcases List.mem_cons.mp hx with rfl | hx
    · exact hfirst b List.mem_cons_self
    · exact Series.forall_mem_zipWith (fun prev hprev c hc => hlater prev hprev c
        (List.mem_cons_of_mem b hc)) x hx

end

end Factors

end AlgoTrade
