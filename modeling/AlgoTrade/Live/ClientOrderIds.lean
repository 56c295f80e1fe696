import AlgoTrade.Grid.MarketOrder
import AlgoTrade.Grid.RestingOrder
import AlgoTrade.Lib.Digits
import AlgoTrade.Lib.Text
import Mathlib.Data.List.TakeWhile

/-! # Client order ids

The texts under which the queue and the grid send their orders to an exchange.

* `Identifies`: the orders of the queue get different ids at an exchange.
* `Clash`: when two orders of a grid get one id.
* `clientOrderIds_iff`: only OKX ids run together; grid ids differ up to a clash. -/

namespace AlgoTrade.ClientOrderIds

open Digits GridMarket

/-! ## Orders of the queue -/

/-- The arguments of `make_client_order_id`, the exchange apart. -/
structure OrderRef where
  strategyId : ℕ
  orderId : ℕ
  phase : String
  deriving DecidableEq, Repr

/-- `str.lower` of a character; the Kelvin sign is a capital `k`. -/
def lowerChar (c : Char) : Char := if c = '\u212a' then 'k' else c.toLower

/-- `str(s or "").strip().lower()`. -/
def normalized (s : String) : String := String.ofList ((Text.strip s).toList.map lowerChar)

def makeClientOrderId (exchangeId : String) (r : OrderRef) : String :=
  let ph := normalized r.phase
  if normalized exchangeId = "okx" then
    let base := "qd" ++ r.strategyId.repr ++ r.orderId.repr ++ ph
    let base := String.ofList (base.toList.filter Char.isAlphanum)
    let base := if base = "" then "qd" ++ r.strategyId.repr ++ r.orderId.repr else base
    clip base
  else "qd_" ++ r.strategyId.repr ++ "_" ++ r.orderId.repr ++ if ph = "" then "" else "_" ++ ph

/-! ## Orders of a grid -/

/-- A placement and the clock at which its id is built. -/
structure GridPlacement where
  strategyId : ℕ
  cellIndex : ℕ
  purpose : GridPurpose
  /-- `time.time()` -/
  clock : ℚ
  deriving DecidableEq, Repr

/-- `purpose`: e/x/s/c. -/
def purposeLetter : GridPurpose → Char
  | .longEntry => 'e'
  | .longExit => 'x'
  | .shortEntry => 's'
  | .shortExit => 'c'

def makeGridClientOrderId (g : GridPlacement) : String :=
  let ts := ⌊g.clock⌋₊ % 1000000
  clip ("g" ++ padded 4 (g.strategyId % 10000) ++ "c" ++ padded 3 g.cellIndex ++
    String.singleton (purposeLetter g.purpose) ++ padded 5 (ts % 99999))

/-! ## Statement -/

/-- The phase is made of small letters and digits. -/
def OrderRef.Plain (r : OrderRef) : Prop :=
  ∀ c ∈ r.phase.toList, c.isDigit = true ∨ c.isLower = true

instance (r : OrderRef) : Decidable r.Plain :=
  List.decidableBAll (fun c : Char => c.isDigit = true ∨ c.isLower = true) r.phase.toList

/-- Different orders of the queue get different ids at the exchange. -/
def Identifies (exchangeId : String) : Prop :=
  ∀ a b : OrderRef, a.Plain → b.Plain → a ≠ b →
    makeClientOrderId exchangeId a ≠ makeClientOrderId exchangeId b

/-- The numbers and the phase one after another. -/
def OrderRef.written (r : OrderRef) : List Char :=
  Nat.toDigits 10 r.strategyId ++ Nat.toDigits 10 r.orderId ++ r.phase.toList

/-- What is left of the clock. -/
def GridPlacement.tick (g : GridPlacement) : ℕ := ⌊g.clock⌋₊ % 1000000 % 99999

/-- The number of digits of the cell. -/
def GridPlacement.cellWidth (g : GridPlacement) : ℕ := (Nat.toDigits 10 g.cellIndex).length

/-- Two orders of a grid whose texts agree up to the cut. -/
def Clash (a b : GridPlacement) : Prop :=
  a.strategyId % 10000 = b.strategyId % 10000 ∧
    (a.cellIndex = b.cellIndex ∧ a.cellIndex < 10 ^ 25 ∧ a.purpose = b.purpose ∧
        a.tick / 10 ^ (a.cellWidth - 20) = b.tick / 10 ^ (a.cellWidth - 20) ∨
      10 ^ 25 ≤ a.cellIndex ∧ 10 ^ 25 ≤ b.cellIndex ∧
        a.cellIndex / 10 ^ (a.cellWidth - 26) = b.cellIndex / 10 ^ (b.cellWidth - 26))

/-! ## Ids of the queue -/

section
variable {c : Char}

theorem val_of_plain (h : c.isDigit = true ∨ c.isLower = true) :
    48 ≤ c.val.toNat ∧ c.val.toNat ≤ 57 ∨ 97 ≤ c.val.toNat ∧ c.val.toNat ≤ 122 := by
  have hlower : c.isLower = (decide (97 ≤ c.val) && decide (c.val ≤ 122)) := rfl
  simpa [Char.isDigit, hlower, UInt32.le_iff_toNat_le] using h

theorem isWhitespace_of_plain (h : c.isDigit = true ∨ c.isLower = true) :
    ¬ c.isWhitespace = true := by
  have hval := val_of_plain h
  unfold Char.isWhitespace
  simp only [Bool.or_eq_true, decide_eq_true_eq]
  rintro (((rfl | rfl) | rfl) | rfl) <;> revert hval <;> decide

theorem lowerChar_of_plain (h : c.isDigit = true ∨ c.isLower = true) : lowerChar c = c := by
  have hval := val_of_plain h
  have hkelvin : c ≠ '\u212a' := by
    rintro rfl
    revert hval
    decide
  unfold lowerChar Char.toLower
  rw [if_neg hkelvin, dif_neg]
  rintro ⟨hA, hZ⟩
  have hA : 65 ≤ c.val.toNat := UInt32.le_iff_toNat_le.mp hA
  have hZ : c.val.toNat ≤ 90 := UInt32.le_iff_toNat_le.mp hZ
  omega

theorem isAlphanum_of_plain (h : c.isDigit = true ∨ c.isLower = true) : c.isAlphanum = true := by
  unfold Char.isAlphanum Char.isAlpha
  rcases h with h | h <;> simp [h]

end

section
variable {exchangeId : String} {r a b : OrderRef}

theorem normalized_phase (h : r.Plain) : normalized r.phase = r.phase := by
  have hstrip : Text.strip r.phase = r.phase :=
    Text.strip_eq_self fun c hc => isWhitespace_of_plain (h c hc)
  have hlower : r.phase.toList.map lowerChar = r.phase.toList :=
    (List.map_congr_left fun c hc => lowerChar_of_plain (h c hc)).trans (List.map_id' _)
  unfold normalized
  rw [hstrip, hlower, String.ofList_toList]

theorem toList_clip (s : String) : (clip s).toList = s.toList.take 32 := String.toList_ofList

theorem toList_okx (h : r.Plain) (hokx : normalized exchangeId = "okx") :
    (makeClientOrderId exchangeId r).toList = 'q' :: 'd' :: r.written.take 30 := by
  have hbase : ("qd" ++ r.strategyId.repr ++ r.orderId.repr ++ r.phase).toList =
      'q' :: 'd' :: r.written := by
    simp [OrderRef.written]
  have hkept : ('q' :: 'd' :: r.written).filter Char.isAlphanum = 'q' :: 'd' :: r.written := by
    refine List.filter_eq_self.mpr fun c hc => isAlphanum_of_plain ?_
    simp only [OrderRef.written, List.mem_cons, List.mem_append] at hc
    rcases hc with rfl | rfl | (hc | hc) | hc
    · exact .inr rfl
    · exact .inr rfl
    · exact .inl (isDigit_of_mem_toDigits hc)
    · exact .inl (isDigit_of_mem_toDigits hc)
    · exact h c hc
  have hne : String.ofList ('q' :: 'd' :: r.written) ≠ "" := fun heq => by
    have := congrArg String.toList heq
    simp at this
  unfold makeClientOrderId
  rw [normalized_phase h, if_pos hokx]
  dsimp only
  rw [hbase, hkept, if_neg hne, toList_clip, String.toList_ofList]
  rfl

theorem toList_other (h : r.Plain) (hother : normalized exchangeId ≠ "okx") :
    (makeClientOrderId exchangeId r).toList =
      'q' :: 'd' :: '_' :: (Nat.toDigits 10 r.strategyId ++ '_' :: (Nat.toDigits 10 r.orderId ++
        if r.phase = "" then [] else '_' :: r.phase.toList)) := by
  unfold makeClientOrderId
  rw [normalized_phase h]
  dsimp only
  rw [if_neg hother]
  by_cases hphase : r.phase = ""
  · simp [hphase]
  · simp [hphase]

/-- The separators tell the numbers and the phase apart. -/
theorem makeClientOrderId_inj (ha : a.Plain) (hb : b.Plain) (hother : normalized exchangeId ≠ "okx")
    (heq : makeClientOrderId exchangeId a = makeClientOrderId exchangeId b) : a = b := by
  have hlist := congrArg String.toList heq
  rw [toList_other ha hother, toList_other hb hother, List.cons_inj_right, List.cons_inj_right,
    List.cons_inj_right, append_separator_inj Nat.underscore_not_in_toDigits
      Nat.underscore_not_in_toDigits, toDigits_inj] at hlist
  obtain ⟨hstrategy, hrest⟩ := hlist
  have hnil : ∀ {n m : ℕ} {z : List Char}, Nat.toDigits 10 n ++ [] ≠ Nat.toDigits 10 m ++ '_' :: z :=
    fun {n m z} heq => Nat.underscore_not_in_toDigits (n := n) (by
      rw [List.append_nil] at heq
      exact heq ▸ List.mem_append_right _ List.mem_cons_self)
  obtain ⟨s, o, ph⟩ := a
  obtain ⟨s', o', ph'⟩ := b
  dsimp only at hstrategy hrest
  have hpair : o = o' ∧ ph = ph' := by
    by_cases hph : ph = "" <;> by_cases hph' : ph' = ""
    · rw [if_pos hph, if_pos hph', List.append_nil, List.append_nil, toDigits_inj] at hrest
      exact ⟨hrest, hph.trans hph'.symm⟩
    · rw [if_pos hph, if_neg hph'] at hrest
      exact absurd hrest hnil
    · rw [if_neg hph, if_pos hph'] at hrest
      exact absurd hrest.symm hnil
    · rw [if_neg hph, if_neg hph', append_separator_inj Nat.underscore_not_in_toDigits
        Nat.underscore_not_in_toDigits, toDigits_inj, String.toList_inj] at hrest
      exact hrest
  rw [hstrategy, hpair.1, hpair.2]

/-- Ids at OKX differ when what is written in them does. -/
theorem makeClientOrderId_okx_iff (ha : a.Plain) (hb : b.Plain)
    (hokx : normalized exchangeId = "okx") :
    makeClientOrderId exchangeId a = makeClientOrderId exchangeId b ↔
      a.written.take 30 = b.written.take 30 := by
  rw [← String.toList_inj, toList_okx ha hokx, toList_okx hb hokx, List.cons_inj_right,
    List.cons_inj_right]

/-- Two orders at OKX: strategy 1 with order 23, and strategy 12 with order 3. -/
theorem identifies_iff : Identifies exchangeId ↔ normalized exchangeId ≠ "okx" := by
  constructor
  · intro h hokx
    refine h ⟨1, 23, ""⟩ ⟨12, 3, ""⟩ (by decide) (by decide) (by decide) ?_
    exact (makeClientOrderId_okx_iff (by decide) (by decide) hokx).mpr (by decide)
  · exact fun hother a b ha hb hne heq => hne (makeClientOrderId_inj ha hb hother heq)

end

/-! ## Ids of a grid -/

section
variable {a b g : GridPlacement}

theorem purposeLetter_inj {p q : GridPurpose} : purposeLetter p = purposeLetter q ↔ p = q := by
  cases p <;> cases q <;> decide

theorem isDigit_purposeLetter (p : GridPurpose) : (purposeLetter p).isDigit = false := by
  cases p <;> rfl

/-- What follows the strategy in the id, up to the cut. -/
def GridPlacement.tail (g : GridPlacement) : List Char :=
  (pad 3 g.cellIndex ++ purposeLetter g.purpose :: pad 5 g.tick).take 26

theorem toList_grid : (makeGridClientOrderId g).toList =
    'g' :: (pad 4 (g.strategyId % 10000) ++ 'c' :: g.tail) := by
  have hlength : (pad 4 (g.strategyId % 10000)).length = 4 :=
    length_pad_of_lt (by decide) (Nat.mod_lt _ (by decide))
  have htext : ("g" ++ padded 4 (g.strategyId % 10000) ++ "c" ++ padded 3 g.cellIndex ++
      String.singleton (purposeLetter g.purpose) ++ padded 5 g.tick).toList =
        'g' :: (pad 4 (g.strategyId % 10000) ++ 'c' :: (pad 3 g.cellIndex ++
          purposeLetter g.purpose :: pad 5 g.tick)) := by
    simp [padded, pad]
  unfold makeGridClientOrderId
  dsimp only
  rw [toList_clip]
  refine (congrArg (List.take 32) htext).trans ?_
  rw [List.take_succ_cons, List.take_append, hlength, List.take_of_length_le (by omega),
    List.take_succ_cons]
  rfl

theorem makeGridClientOrderId_eq_iff : makeGridClientOrderId a = makeGridClientOrderId b ↔
    a.strategyId % 10000 = b.strategyId % 10000 ∧ a.tail = b.tail := by
  rw [← String.toList_inj, toList_grid, toList_grid, List.cons_inj_right,
    append_separator_inj (notMem_pad rfl) (notMem_pad rfl), pad_inj]

theorem tick_lt (g : GridPlacement) : g.tick < 10 ^ 5 :=
  (Nat.mod_lt _ (by decide)).trans (by decide)

theorem lt_of_cellWidth {k : ℕ} (hk : 0 < k) : g.cellIndex < 10 ^ k ↔ g.cellWidth ≤ k :=
  (Nat.length_toDigits_le_iff (by decide) hk).symm

/-- The cell fits into the id, and what remains of the tick after it. -/
theorem tail_of_lt (h : g.cellIndex < 10 ^ 25) : g.tail = pad 3 g.cellIndex ++
    purposeLetter g.purpose ::
      (pad (5 - (g.cellWidth - 20) + (g.cellWidth - 20)) g.tick).take (5 - (g.cellWidth - 20)) := by
  have hwidth := (lt_of_cellWidth (by decide)).mp h
  have hcell : (pad 3 g.cellIndex).length = max 3 g.cellWidth := length_pad
  have htick : (pad 5 g.tick).length = 5 := length_pad_of_lt (by decide) (tick_lt g)
  have hfive : 5 - (g.cellWidth - 20) + (g.cellWidth - 20) = 5 := by omega
  unfold GridPlacement.tail
  rw [hfive, List.take_append, List.take_of_length_le (by omega), hcell,
    show 26 - max 3 g.cellWidth = (25 - max 3 g.cellWidth) + 1 by omega, List.take_succ_cons]
  rcases Nat.le_total g.cellWidth 20 with hle | hle
  · rw [List.take_of_length_le (by omega), List.take_of_length_le (by omega)]
  · rw [show 25 - max 3 g.cellWidth = 5 - (g.cellWidth - 20) by omega]

/-- The cell alone fills the id. -/
theorem tail_of_ge (h : 10 ^ 25 ≤ g.cellIndex) :
    g.tail = (pad (26 + (g.cellWidth - 26)) g.cellIndex).take 26 := by
  have hwidth : 25 < g.cellWidth := by
    by_contra hle
    exact absurd ((lt_of_cellWidth (by decide)).mpr (Nat.le_of_not_lt hle)) (Nat.not_lt.mpr h)
  have hcell : g.cellWidth = (Nat.toDigits 10 g.cellIndex).length := rfl
  have hshort : pad 3 g.cellIndex = Nat.toDigits 10 g.cellIndex := pad_eq_toDigits (by omega)
  have hlong : pad (26 + (g.cellWidth - 26)) g.cellIndex = Nat.toDigits 10 g.cellIndex :=
    pad_eq_toDigits (by omega)
  unfold GridPlacement.tail
  rw [hshort, hlong, List.take_append_of_le_length (by omega)]

theorem tail_ne (ha : a.cellIndex < 10 ^ 25) (hb : 10 ^ 25 ≤ b.cellIndex) : a.tail ≠ b.tail := by
  intro h
  have hmem : purposeLetter a.purpose ∈ a.tail := by
    rw [tail_of_lt ha]
    exact List.mem_append_right _ List.mem_cons_self
  rw [h, tail_of_ge hb] at hmem
  exact notMem_pad (isDigit_purposeLetter _) (List.mem_of_mem_take hmem)

theorem tail_eq_iff_of_lt (ha : a.cellIndex < 10 ^ 25) (hb : b.cellIndex < 10 ^ 25) :
    a.tail = b.tail ↔ a.cellIndex = b.cellIndex ∧ a.purpose = b.purpose ∧
      a.tick / 10 ^ (a.cellWidth - 20) = b.tick / 10 ^ (a.cellWidth - 20) := by
  have hletter : purposeLetter b.purpose ∉ pad 3 a.cellIndex :=
    notMem_pad (isDigit_purposeLetter _)
  have htick : purposeLetter b.purpose ∉
      (pad (5 - (a.cellWidth - 20) + (a.cellWidth - 20)) a.tick).take (5 - (a.cellWidth - 20)) :=
    fun hmem => notMem_pad (isDigit_purposeLetter _) (List.mem_of_mem_take hmem)
  rw [tail_of_lt ha, tail_of_lt hb, List.append_cons_inj_of_notMem hletter htick, pad_inj,
    purposeLetter_inj]
  refine and_congr_right fun hcell => and_congr_right fun _ => ?_
  have hwidth : b.cellWidth = a.cellWidth := by
    unfold GridPlacement.cellWidth
    rw [hcell]
  have hle := (lt_of_cellWidth (by decide)).mp ha
  have hfive : 5 - (a.cellWidth - 20) + (a.cellWidth - 20) = 5 := by omega
  rw [hwidth]
  exact take_pad_inj (hfive.symm ▸ tick_lt a) (hfive.symm ▸ tick_lt b)

theorem tail_eq_iff_of_ge (ha : 10 ^ 25 ≤ a.cellIndex) (hb : 10 ^ 25 ≤ b.cellIndex) :
    a.tail = b.tail ↔
      a.cellIndex / 10 ^ (a.cellWidth - 26) = b.cellIndex / 10 ^ (b.cellWidth - 26) := by
  have hlt : ∀ g : GridPlacement, g.cellIndex < 10 ^ (26 + (g.cellWidth - 26)) := fun g =>
    (lt_of_cellWidth (by omega)).mpr (by omega)
  rw [tail_of_ge ha, tail_of_ge hb, take_pad_inj (hlt a) (hlt b)]

/-- **Two orders of a grid** get one id exactly when they clash. -/
theorem makeGridClientOrderId_eq_iff_clash :
    makeGridClientOrderId a = makeGridClientOrderId b ↔ Clash a b := by
  rw [makeGridClientOrderId_eq_iff]
  refine and_congr_right fun _ => ?_
  rcases Nat.lt_or_ge a.cellIndex (10 ^ 25) with ha | ha <;>
    rcases Nat.lt_or_ge b.cellIndex (10 ^ 25) with hb | hb
  · rw [tail_eq_iff_of_lt ha hb]
    simp only [ha, Nat.not_le.mpr ha, true_and, false_and, or_false]
  · refine iff_of_false (tail_ne ha hb) ?_
    rintro (⟨heq, -⟩ | ⟨hge, -⟩)
    · omega
    · omega
  · refine iff_of_false (tail_ne hb ha).symm ?_
    rintro (⟨heq, hlt, -⟩ | ⟨-, hge, -⟩)
    · omega
    · omega
  · rw [tail_eq_iff_of_ge ha hb]
    simp only [ha, hb, Nat.not_lt.mpr ha, true_and, false_and, and_false, false_or]

end

/-! ## Main result -/

/-- **Client order ids** of the queue identify its orders everywhere but at OKX, where
what is written one after another has to differ; those of grid orders do up to a clash. -/
theorem clientOrderIds_iff (exchangeId : String) (a b : OrderRef) (g h : GridPlacement) :
    (Identifies exchangeId ↔ normalized exchangeId ≠ "okx") ∧
      (normalized exchangeId = "okx" → a.Plain → b.Plain →
        (makeClientOrderId exchangeId a ≠ makeClientOrderId exchangeId b ↔
          a.written.take 30 ≠ b.written.take 30)) ∧
      (makeGridClientOrderId g ≠ makeGridClientOrderId h ↔ ¬ Clash g h) :=
  ⟨identifies_iff, fun hokx ha hb => not_congr (makeClientOrderId_okx_iff ha hb hokx),
    not_congr makeGridClientOrderId_eq_iff_clash⟩

theorem clientOrderIds_differ :
    makeClientOrderId " OKX" ⟨1, 23, "mkt"⟩ ≠ makeClientOrderId " OKX" ⟨1, 24, "mkt"⟩ :=
  ((clientOrderIds_iff " OKX" ⟨1, 23, "mkt"⟩ ⟨1, 24, "mkt"⟩ ⟨1, 4, .longEntry, 0⟩
    ⟨1, 4, .longEntry, 0⟩).2.1 (by decide +kernel) (by decide) (by decide)).mpr (by decide)

/-- Order 23 of strategy 1 and order 3 of strategy 12; the entry of a cell for two
strategies; and the same entry again in the same second, and after 99999 seconds. -/
theorem sharedClientOrderIds :
    makeClientOrderId "okx" ⟨1, 23, "mkt"⟩ = makeClientOrderId "okx" ⟨12, 3, "mkt"⟩ ∧
      makeGridClientOrderId ⟨1, 4, .longEntry, 1700000000⟩ =
        makeGridClientOrderId ⟨10001, 4, .longEntry, 1700000000⟩ ∧
      makeGridClientOrderId ⟨1, 4, .longEntry, 1700000000⟩ =
        makeGridClientOrderId ⟨1, 4, .longEntry, 1700000000 + 1 / 2⟩ ∧
      makeGridClientOrderId ⟨1, 4, .longEntry, 1700000000⟩ =
        makeGridClientOrderId ⟨1, 4, .longEntry, 1700099999⟩ := by
  decide +kernel

end AlgoTrade.ClientOrderIds
