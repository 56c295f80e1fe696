import AlgoTrade.Lib.Casing

/-! # Instrument keys

`parse_instrument` of a strategy's texts, and the key it writes for what it read.

* `parseInstrument`, `InstrumentSpec.key`: the parser and the key.
* `Canonical`: a key that is read back as it was.
* `canonical_iff`: the key of a stock whose symbol holds an `@` is not. -/

namespace AlgoTrade.Instruments

open Casing

/-! ## Markets -/

inductive Market
  | cnStock | usStock | hkStock | crypto | forex | futures | moex
  deriving DecidableEq, Repr

namespace Market

/-- The values of `_MARKETS`. -/
def name : Market → List Char
  | cnStock => "CNStock".toList
  | usStock => "USStock".toList
  | hkStock => "HKStock".toList
  | crypto => "Crypto".toList
  | forex => "Forex".toList
  | futures => "Futures".toList
  | moex => "MOEX".toList

/-- Its keys. -/
def lowered : Market → List Char
  | cnStock => "cnstock".toList
  | usStock => "usstock".toList
  | hkStock => "hkstock".toList
  | crypto => "crypto".toList
  | forex => "forex".toList
  | futures => "futures".toList
  | moex => "moex".toList

def all : List Market := [cnStock, usStock, hkStock, crypto, forex, futures, moex]

end Market

/-- `_CRYPTO_MARKET_TYPES` -/
inductive CryptoType
  | spot | swap
  deriving DecidableEq, Repr

def CryptoType.name : CryptoType → List Char
  | spot => "spot".toList
  | swap => "swap".toList

/-- `_normalize_market`. -/
def normalizeMarket (py : Casing) (value : List Char) : Option Market :=
  let raw := py.strip value
  if raw = [] then none
  else
    (Market.all.find? fun m => m.lowered = py.lower raw).or (Market.all.find? fun m => m.name = raw)

/-! ## Symbols -/

/-- Replaces the first of the endings that a text has. -/
def replaceSuffix : List (List Char × List Char) → List Char → List Char
  | [], raw => raw
  | (old, new) :: replacements, raw =>
    if old <:+ raw then raw.take (raw.length - old.length) ++ new
    else replaceSuffix replacements raw

def replacements : List (List Char × List Char) :=
  [(".XSHG".toList, ".SH".toList), (".XSHE".toList, ".SZ".toList),
    (".XBJS".toList, ".BJ".toList), (".XHKG".toList, ".HK".toList)]

/-- `_normalize_symbol`. -/
def normalizeSymbol (py : Casing) (value : List Char) : List Char :=
  replaceSuffix replacements (py.upper (py.strip value))

def slashed (c : Char) : Char := if c = '-' ∨ c = '_' then '/' else c

def quotes : List (List Char) :=
  ["USDT".toList, "USDC".toList, "USD".toList, "BTC".toList, "ETH".toList]

/-- `_normalize_crypto_symbol`. -/
def normalizeCryptoSymbol (py : Casing) (value : List Char) : List Char :=
  let raw := (py.upper (py.strip value)).map slashed
  if '/' ∈ raw then raw
  else
    match quotes.find? fun quote => quote <:+ raw ∧ quote.length < raw.length with
    | some quote => raw.take (raw.length - quote.length) ++ '/' :: quote
    | none => raw

/-- `[A-Z][A-Z0-9.\-]{0,14}` -/
def isTicker : List Char → Bool
  | [] => false
  | c :: cs =>
    c.isUpper && decide (cs.length ≤ 14) &&
      cs.all fun c => c.isUpper || c.isDigit || c = '.' || c = '-'

def inferMarket (py : Casing) (symbol : List Char) : Option Market :=
  let value := py.upper (py.strip symbol)
  let ends (suffixes : List String) : Bool := suffixes.any fun s => s.toList <:+ value
  if value = [] then none
  else if '/' ∈ value ∨ ends ["USDT", "USDC"] then some .crypto
  else if ends [".HK", ".XHKG"] then some .hkStock
  else if ends [".SH", ".SZ", ".BJ", ".XSHG", ".XSHE", ".XBJS"] then some .cnStock
  else if value.length = 6 ∧ value.all py.isDigit then some .cnStock
  else if isTicker value then some .usStock
  else none

/-! ## The parser -/

structure InstrumentSpec where
  market : Market
  symbol : List Char
  exchangeId : List Char := []
  /-- Of crypto instruments only. -/
  marketType : Option CryptoType := none
  instrumentId : List Char
  deriving DecidableEq, Repr

def InstrumentSpec.key (i : InstrumentSpec) : List Char :=
  let marketType := (i.marketType.map CryptoType.name).getD []
  let suffix :=
    if i.exchangeId ≠ [] then
      '@' :: i.exchangeId ++ if marketType ≠ [] then ':' :: marketType else []
    else if marketType ≠ [] then '@' :: marketType
    else []
  i.market.name ++ ':' :: (i.symbol ++ suffix)

inductive InstrumentParseError
  | instrumentRequired
  | marketUnknown (raw : List Char)
  deriving DecidableEq, Repr

def InstrumentParseError.text : InstrumentParseError → List Char
  | instrumentRequired => "strategyV2.instrumentRequired".toList
  | marketUnknown raw => "strategyV2.marketUnknown:".toList ++ raw

/-- The market a text names, and the rest of it. -/
def splitMarket (py : Casing) (defaultMarket raw : List Char) : Option Market × List Char :=
  if ':' ∈ raw then
    match normalizeMarket py (splitFirst ':' raw).1 with
    | some market => (some market, (splitFirst ':' raw).2)
    | none => (normalizeMarket py defaultMarket, raw)
  else (normalizeMarket py defaultMarket, raw)

/-- A body, the exchange after its `@`, and the market type. -/
structure Venue where
  body : List Char
  exchangeId : List Char := []
  marketType : List Char := []

def splitVenue (py : Casing) (body : List Char) : Venue :=
  if '@' ∈ body then
    let venue := (splitLast '@' body).2
    if py.lower (py.strip venue) = CryptoType.spot.name ∨
        py.lower (py.strip venue) = CryptoType.swap.name then
      { body := (splitLast '@' body).1, marketType := py.lower (py.strip venue) }
    else if ':' ∈ venue then
      { body := (splitLast '@' body).1
        exchangeId := py.lower (py.strip (splitFirst ':' venue).1)
        marketType := py.lower (py.strip (splitFirst ':' venue).2) }
    else { body := (splitLast '@' body).1, exchangeId := py.lower (py.strip venue) }
  else { body }

/-- The market of a text: named, or that of its symbol. -/
def marketOf (py : Casing) (defaultMarket raw : List Char) : Option Market :=
  let named := splitMarket py defaultMarket raw
  named.1.or (inferMarket py (normalizeSymbol py (splitVenue py named.2).body))

def parseInstrument (py : Casing) (defaultMarket value : List Char) :
    Except InstrumentParseError InstrumentSpec :=
  let raw := py.strip value
  if raw = [] then .error .instrumentRequired
  else
    let venue := splitVenue py (splitMarket py defaultMarket raw).2
    let symbol := normalizeSymbol py venue.body
    match marketOf py defaultMarket raw with
    | none => .error (.marketUnknown raw)
    | some .crypto =>
      .ok
        { market := .crypto
          symbol := normalizeCryptoSymbol py symbol
          exchangeId := venue.exchangeId
          marketType := some (if venue.marketType = CryptoType.swap.name then .swap else .spot)
          instrumentId := raw }
    | some market => .ok { market, symbol, instrumentId := raw }

/-! ## Canonical keys -/

/-- The same market, symbol, venue and type. -/
def SameFields (i j : InstrumentSpec) : Prop :=
  i.market = j.market ∧ i.symbol = j.symbol ∧ i.exchangeId = j.exchangeId ∧
    i.marketType = j.marketType

/-- The key is read back, whatever the default market, and every spelling gets it. -/
structure Canonical (py : Casing) (i : InstrumentSpec) : Prop where
  readBack : ∀ defaultMarket, ∃ again, parseInstrument py defaultMarket i.key = .ok again ∧
    again.key = i.key ∧ SameFields again i
  oneKey : ∀ defaultMarket value other, parseInstrument py defaultMarket value = .ok other →
    SameFields other i → other.key = i.key

/-! ## Lemmas on symbols -/

section
variable {py : Casing} {s : List Char} {c : Char}

theorem replaceSuffix_cases (table : List (List Char × List Char)) (s : List Char) :
    (∃ e ∈ table, ∃ a, s = a ++ e.1 ∧ replaceSuffix table s = a ++ e.2) ∨
      (∀ e ∈ table, ¬ e.1 <:+ s) ∧ replaceSuffix table s = s := by
  induction table with
  | nil => exact .inr ⟨fun _ he => (List.not_mem_nil he).elim, rfl⟩
  | cons e table ih =>
    by_cases h : e.1 <:+ s
    · obtain ⟨a, rfl⟩ := h
      refine .inl ⟨e, List.mem_cons_self, a, rfl, ?_⟩
      rw [replaceSuffix, if_pos (List.suffix_append a e.1), List.length_append, Nat.add_sub_cancel,
        List.take_left]
    · rw [replaceSuffix, if_neg h]
      rcases ih with ⟨e', he', hrest⟩ | ⟨hnone, hsame⟩
      · exact .inl ⟨e', List.mem_cons_of_mem e he', hrest⟩
      · exact .inr ⟨List.forall_mem_cons.mpr ⟨h, hnone⟩, hsame⟩

theorem replaceSuffix_eq_self {table : List (List Char × List Char)}
    (h : ∀ e ∈ table, ¬ e.1 <:+ s) : replaceSuffix table s = s := by
  induction table with
  | nil => rfl
  | cons e table ih =>
    obtain ⟨he, hrest⟩ := List.forall_mem_cons.mp h
    rw [replaceSuffix, if_neg he, ih hrest]

/-- No new ending is an old one. -/
theorem not_suffix_replacements {e f : List Char × List Char} (he : e ∈ replacements)
    (hf : f ∈ replacements) (a : List Char) : ¬ f.1 <:+ a ++ e.2 := by
  have hlast : ∀ e ∈ replacements, ∀ f ∈ replacements, e.2 ≠ [] ∧ f.1.getLast? ≠ e.2.getLast? := by
    decide
  obtain ⟨hne, hdiff⟩ := hlast e he f hf
  rintro ⟨b, hb⟩
  have hf1 : f.1 ≠ [] := by
    intro hnil
    have hall : ∀ f ∈ replacements, f.1 ≠ [] := by decide
    exact hall f hf hnil
  have hends := congrArg List.getLast? hb
  rw [List.getLast?_append_of_ne_nil _ hf1, List.getLast?_append_of_ne_nil _ hne] at hends
  exact hdiff hends

/-- A symbol has none of the endings that are replaced. -/
theorem not_suffix_normalizeSymbol {f : List Char × List Char} (hf : f ∈ replacements) :
    ¬ f.1 <:+ normalizeSymbol py s := by
  unfold normalizeSymbol
  rcases replaceSuffix_cases replacements (py.upper (py.strip s)) with
    ⟨e, he, a, -, hnew⟩ | ⟨hnone, hsame⟩
  · rw [hnew]
    exact not_suffix_replacements he hf a
  · rw [hsame]
    exact hnone f hf

/-- What holds of capitals and of the new endings holds of a symbol. -/
theorem forall_mem_normalizeSymbol {P : Char → Prop}
    (hupper : ∀ c ∈ py.upper (py.strip s), P c) (hnew : ∀ e ∈ replacements, ∀ c ∈ e.2, P c) :
    ∀ c ∈ normalizeSymbol py s, P c := by
  unfold normalizeSymbol
  rcases replaceSuffix_cases replacements (py.upper (py.strip s)) with
    ⟨e, he, a, hs, heq⟩ | ⟨-, hsame⟩
  · rw [hs] at hupper
    rw [heq]
    intro c hc
    rcases List.mem_append.mp hc with hc | hc
    · exact hupper c (List.mem_append_left _ hc)
    · exact hnew e he c hc
  · rwa [hsame]

theorem ascii_replacements : ∀ e ∈ replacements, ∀ c ∈ e.1 ++ e.2,
    c.toNat < 128 ∧ c.isLower = false ∧ 32 < c.toNat ∧ c ≠ '@' ∧ c ≠ '/' := by
  have hall : (replacements.all fun e => (e.1 ++ e.2).all fun c => decide (c.toNat < 128 ∧
      c.isLower = false ∧ 32 < c.toNat ∧ c ≠ '@' ∧ c ≠ '/')) = true := by decide
  simpa only [List.all_eq_true, decide_eq_true_eq] using hall

theorem upperChar_new {e : List Char × List Char} (he : e ∈ replacements) (hc : c ∈ e.2) :
    py.upperChar c = [c] := by
  obtain ⟨hsmall, hlower, -⟩ := ascii_replacements e he c (List.mem_append_right _ hc)
  rw [py.upperChar_ascii c hsmall, Char.toUpper_eq_of_not_isLower (Bool.eq_false_iff.mp hlower)]

theorem isSpace_eq_false (hsmall : c.toNat < 128) (hlow : 32 < c.toNat) : py.isSpace c = false :=
  Bool.eq_false_iff.mpr fun h => Nat.not_le.mpr hlow (py.isSpace_ascii c h hsmall)

/-- A symbol is in capitals. -/
theorem upperChar_normalizeSymbol : ∀ c ∈ normalizeSymbol py s, py.upperChar c = [c] :=
  forall_mem_normalizeSymbol (fun _ => upperChar_of_mem_upper) fun _ he _ hc => upperChar_new he hc

theorem strip_normalizeSymbol : py.strip (normalizeSymbol py s) = normalizeSymbol py s := by
  unfold normalizeSymbol
  rcases replaceSuffix_cases replacements (py.upper (py.strip s)) with
    ⟨e, he, a, hs, heq⟩ | ⟨-, hsame⟩
  · have hstrip := @strip_upper_strip py s
    have hnew : ∀ c ∈ e.2, py.isSpace c = false := fun c hc =>
      have h := ascii_replacements e he c (List.mem_append_right _ hc)
      isSpace_eq_false h.1 h.2.2.1
    have hne : e.2 ≠ [] := by
      have hall : ∀ e ∈ replacements, e.2 ≠ [] := by decide
      exact hall e he
    rw [heq]
    refine strip_eq_self (fun c hc => ?_) fun c hc => ?_
    · cases a with
      | nil => exact hnew c (List.mem_of_mem_head? hc)
      | cons d a =>
        refine isSpace_head_strip (s := py.upper (py.strip s)) ?_
        rw [hstrip, hs]
        exact hc
    · rw [List.getLast?_append_of_ne_nil _ hne] at hc
      exact hnew c (List.mem_of_mem_getLast? hc)
  · rw [hsame]
    exact strip_upper_strip

/-- **A symbol** is its own symbol. -/
theorem normalizeSymbol_eq_self (hstrip : py.strip s = s) (hupper : ∀ c ∈ s, py.upperChar c = [c])
    (hends : ∀ f ∈ replacements, ¬ f.1 <:+ s) : normalizeSymbol py s = s := by
  rw [normalizeSymbol, hstrip, upper_eq_self hupper, replaceSuffix_eq_self hends]

@[simp] theorem normalizeSymbol_normalizeSymbol :
    normalizeSymbol py (normalizeSymbol py s) = normalizeSymbol py s :=
  normalizeSymbol_eq_self strip_normalizeSymbol upperChar_normalizeSymbol fun _ hf =>
    not_suffix_normalizeSymbol hf

theorem at_mem_normalizeSymbol : '@' ∈ normalizeSymbol py s ↔ '@' ∈ s := by
  have hat : '@' ∈ py.upper (py.strip s) ↔ '@' ∈ s := by
    rw [mem_upper_iff (by decide) (by decide), mem_strip_iff (isSpace_eq_false (by decide) (by decide))]
  rw [← hat, normalizeSymbol]
  rcases replaceSuffix_cases replacements (py.upper (py.strip s)) with
    ⟨e, he, a, hs, heq⟩ | ⟨-, hsame⟩
  · have hnot : ∀ c ∈ e.1 ++ e.2, c ≠ '@' := fun c hc => (ascii_replacements e he c hc).2.2.2.1
    rw [heq, hs, List.mem_append, List.mem_append,
      or_iff_left fun h => hnot _ (List.mem_append_right _ h) rfl,
      or_iff_left fun h => hnot _ (List.mem_append_left _ h) rfl]
  · rw [hsame]

/-- The symbol of a text already in capitals is no longer. -/
theorem length_normalizeSymbol_le (hupper : ∀ c ∈ s, py.upperChar c = [c]) :
    (normalizeSymbol py s).length ≤ s.length := by
  have hsame : py.upper (py.strip s) = py.strip s :=
    upper_eq_self fun c hc => hupper c (strip_sublist.mem hc)
  have hshorter : ∀ e ∈ replacements, e.2.length ≤ e.1.length := by decide
  refine le_trans ?_ (@strip_sublist py _).length_le
  rw [normalizeSymbol, hsame]
  rcases replaceSuffix_cases replacements (py.strip s) with ⟨e, he, a, hs, heq⟩ | ⟨-, hself⟩
  · rw [heq, hs, List.length_append, List.length_append]
    exact Nat.add_le_add_left (hshorter e he) _
  · rw [hself]

/-! ## Lemmas on crypto symbols -/

theorem slashed_cases (c : Char) : slashed c = '/' ∨ slashed c = c := by
  unfold slashed
  split
  · exact .inl rfl
  · exact .inr rfl

theorem slashed_slashed (c : Char) : slashed (slashed c) = slashed c := by
  rcases slashed_cases c with h | h
  · rw [h]
    rfl
  · rw [h, h]

theorem map_slashed_map_slashed : (s.map slashed).map slashed = s.map slashed := by
  rw [List.map_map]
  exact List.map_congr_left fun c _ => slashed_slashed c

/-- A text without a slash is itself where dashes become slashes. -/
theorem suffix_of_suffix_map {old : List Char} (hold : '/' ∉ old) (h : old <:+ s.map slashed) :
    old <:+ s := by
  obtain ⟨a, ha⟩ := h
  obtain ⟨s₁, s₂, rfl, -, hmap⟩ := List.map_eq_append_iff.mp ha.symm
  have hsame : s₂.map slashed = s₂ := by
    refine (List.map_congr_left fun c hc => ?_).trans (List.map_id s₂)
    refine (slashed_cases c).resolve_left fun hslash => hold ?_
    rw [← hmap, ← hslash]
    exact List.mem_map_of_mem hc
  rw [← hmap, hsame]
  exact List.suffix_append s₁ s₂

theorem quotes_spec : ∀ quote ∈ quotes, quote ≠ [] ∧
    (∀ f ∈ replacements, f.1.getLast? ≠ quote.getLast?) ∧
    ∀ c ∈ quote, c.toNat < 128 ∧ 32 < c.toNat ∧ slashed c = c := by
  have hends : ∀ quote ∈ quotes, quote ≠ [] ∧
      ∀ f ∈ replacements, f.1.getLast? ≠ quote.getLast? := by decide
  have hchars : (quotes.all fun quote => quote.all fun c => decide (c.toNat < 128 ∧
      32 < c.toNat ∧ slashed c = c)) = true := by decide
  simp only [List.all_eq_true, decide_eq_true_eq] at hchars
  exact fun quote hquote => ⟨(hends quote hquote).1, (hends quote hquote).2, hchars quote hquote⟩

/-- What is done to a symbol in capitals. -/
theorem normalizeCryptoSymbol_cases (hstrip : py.strip s = s)
    (hupper : ∀ c ∈ s, py.upperChar c = [c]) :
    (normalizeCryptoSymbol py s = s.map slashed ∧ ('/' ∈ s.map slashed ∨
      ∀ quote ∈ quotes, quote <:+ s.map slashed → (s.map slashed).length ≤ quote.length)) ∨
    ∃ quote ∈ quotes, ∃ a, a ≠ [] ∧ s.map slashed = a ++ quote ∧
      normalizeCryptoSymbol py s = a ++ '/' :: quote := by
  unfold normalizeCryptoSymbol
  rw [hstrip, upper_eq_self hupper]
  dsimp only
  split
  next hslash => exact .inl ⟨rfl, .inl hslash⟩
  next =>
    split
    next quote hfind =>
      have hfound := List.find?_some hfind
      rw [decide_eq_true_eq] at hfound
      obtain ⟨⟨a, ha⟩, hlt⟩ := hfound
      refine .inr ⟨quote, List.mem_of_find?_eq_some hfind, a, ?_, ha.symm, ?_⟩
      · rintro rfl
        rw [← ha] at hlt
        exact Nat.lt_irrefl _ hlt
      · rw [← ha, List.length_append, Nat.add_sub_cancel, List.take_left]
    next hnone =>
      refine .inl ⟨rfl, .inr fun quote hquote hends => ?_⟩
      by_contra hlt
      exact List.find?_eq_none.mp hnone quote hquote
        (decide_eq_true ⟨hends, Nat.lt_of_not_le hlt⟩)

theorem upperChar_slashed (h : py.upperChar c = [c]) : py.upperChar (slashed c) = [slashed c] := by
  rcases slashed_cases c with hslash | hsame
  · rw [hslash, py.upperChar_ascii '/' (by decide)]
    rfl
  · rw [hsame, h]

theorem isSpace_slashed (h : py.isSpace c = false) : py.isSpace (slashed c) = false := by
  rcases slashed_cases c with hslash | hsame
  · rw [hslash]
    exact isSpace_eq_false (by decide) (by decide)
  · rw [hsame, h]

/-- A crypto symbol is a symbol. -/
theorem normalizeSymbol_normalizeCryptoSymbol :
    normalizeSymbol py (normalizeCryptoSymbol py (normalizeSymbol py s)) =
      normalizeCryptoSymbol py (normalizeSymbol py s) := by
  have hstrip := @strip_normalizeSymbol py s
  have hupper := @upperChar_normalizeSymbol py s
  have hends := @not_suffix_normalizeSymbol py s
  generalize normalizeSymbol py s = t at *
  have hmap : ∀ c ∈ t.map slashed, py.upperChar c = [c] := by
    intro c hc
    obtain ⟨d, hd, rfl⟩ := List.mem_map.mp hc
    exact upperChar_slashed (hupper d hd)
  have hhead : ∀ c ∈ (t.map slashed).head?, py.isSpace c = false := by
    intro c hc
    rw [List.head?_map] at hc
    obtain ⟨d, hd, rfl⟩ := Option.mem_map.mp hc
    exact isSpace_slashed (isSpace_head_strip (s := t) (by rwa [hstrip]))
  have hlast : ∀ c ∈ (t.map slashed).getLast?, py.isSpace c = false := by
    intro c hc
    rw [List.getLast?_map] at hc
    obtain ⟨d, hd, rfl⟩ := Option.mem_map.mp hc
    exact isSpace_slashed (isSpace_last_strip (s := t) (by rwa [hstrip]))
  rcases normalizeCryptoSymbol_cases hstrip hupper with ⟨heq, -⟩ | ⟨quote, hquote, a, ha, hs, heq⟩
  · rw [heq]
    refine normalizeSymbol_eq_self (strip_eq_self hhead hlast) hmap fun f hf hsuffix => ?_
    refine hends hf (suffix_of_suffix_map (fun hslash => ?_) hsuffix)
    exact (ascii_replacements f hf _ (List.mem_append_left _ hslash)).2.2.2.2 rfl
  · obtain ⟨hne, hdiff, hchars⟩ := quotes_spec quote hquote
    rw [heq]
    rw [hs] at hmap hhead
    refine normalizeSymbol_eq_self (strip_eq_self ?_ ?_) ?_ fun f hf hsuffix => ?_
    · rwa [List.head?_append_of_ne_nil _ ha] at hhead ⊢
    · intro c hc
      rw [List.getLast?_append_of_ne_nil _ (List.cons_ne_nil _ _), List.getLast?_cons_of_ne_nil hne]
        at hc
      obtain ⟨hsmall, hlow, -⟩ := hchars c (List.mem_of_mem_getLast? hc)
      exact isSpace_eq_false hsmall hlow
    · intro c hc
      rcases List.mem_append.mp hc with hc | hc
      · exact hmap c (List.mem_append_left _ hc)
      · rcases List.mem_cons.mp hc with rfl | hc
        · exact py.upperChar_ascii '/' (by decide)
        · exact hmap c (List.mem_append_right _ hc)
    · obtain ⟨b, hb⟩ := hsuffix
      have hf1 : f.1 ≠ [] := by
        have hall : ∀ f ∈ replacements, f.1 ≠ [] := by decide
        exact hall f hf
      have hlasts := congrArg List.getLast? hb
      rw [List.getLast?_append_of_ne_nil _ hf1, List.getLast?_append_of_ne_nil _ (List.cons_ne_nil _ _),
        List.getLast?_cons_of_ne_nil hne] at hlasts
      exact hdiff f hf hlasts

theorem normalizeCryptoSymbol_eq_self (hstrip : py.strip s = s)
    (hupper : ∀ c ∈ s, py.upperChar c = [c]) (hslashed : s.map slashed = s)
    (h : '/' ∈ s ∨ ∀ quote ∈ quotes, quote <:+ s → s.length ≤ quote.length) :
    normalizeCryptoSymbol py s = s := by
  unfold normalizeCryptoSymbol
  rw [hstrip, upper_eq_self hupper, hslashed]
  dsimp only
  split
  · rfl
  next hnot =>
    have hnone : (quotes.find? fun quote => quote <:+ s ∧ quote.length < s.length) = none := by
      refine List.find?_eq_none.mpr fun quote hquote hfound => ?_
      rw [decide_eq_true_eq] at hfound
      exact Nat.not_le.mpr hfound.2 (h.resolve_left hnot quote hquote hfound.1)
    rw [hnone]

/-- **A crypto symbol** is its own. -/
theorem normalizeCryptoSymbol_normalizeCryptoSymbol :
    normalizeCryptoSymbol py (normalizeCryptoSymbol py (normalizeSymbol py s)) =
      normalizeCryptoSymbol py (normalizeSymbol py s) := by
  have hsymbol := @normalizeSymbol_normalizeCryptoSymbol py s
  have hstrip : py.strip (normalizeCryptoSymbol py (normalizeSymbol py s)) = _ :=
    hsymbol ▸ strip_normalizeSymbol
  have hupper : ∀ c ∈ normalizeCryptoSymbol py (normalizeSymbol py s), py.upperChar c = [c] :=
    hsymbol ▸ upperChar_normalizeSymbol
  refine normalizeCryptoSymbol_eq_self hstrip hupper ?_ ?_
  all_goals
    rcases normalizeCryptoSymbol_cases (@strip_normalizeSymbol py s)
      upperChar_normalizeSymbol with ⟨heq, hdone⟩ | ⟨quote, hquote, a, -, hs, heq⟩
  · rw [heq]
    exact map_slashed_map_slashed
  · have hquoted : quote.map slashed = quote :=
      (List.map_congr_left fun c hc => ((quotes_spec quote hquote).2.2 c hc).2.2).trans
        (List.map_id quote)
    have hbase : a.map slashed = a := by
      have hall := congrArg (List.map slashed) hs
      rw [map_slashed_map_slashed, hs, List.map_append, hquoted] at hall
      exact (List.append_cancel_right hall).symm
    rw [heq, List.map_append, List.map_cons, hbase, hquoted]
    rfl
  · rwa [heq]
  · rw [heq]
    exact .inl (List.mem_append_right _ List.mem_cons_self)

/-! ## Lemmas on keys -/

theorem ascii_name (m : Market) : ∀ c ∈ m.name, c.toNat < 128 ∧ 32 < c.toNat := by
  have hall : (m.name.all fun c => decide (c.toNat < 128 ∧ 32 < c.toNat)) = true := by
    cases m <;> decide
  simpa only [List.all_eq_true, decide_eq_true_eq] using hall

theorem normalizeMarket_name (m : Market) : normalizeMarket py m.name = some m := by
  have hsmall := ascii_name m
  have hspace : ∀ c ∈ m.name, py.isSpace c = false := fun c hc =>
    isSpace_eq_false (hsmall c hc).1 (hsmall c hc).2
  have hstrip : py.strip m.name = m.name :=
    strip_eq_self (fun c hc => hspace c (List.mem_of_mem_head? hc)) fun c hc =>
      hspace c (List.mem_of_mem_getLast? hc)
  have hlower : py.lower m.name = m.lowered := by
    rw [py.lower_ascii _ fun c hc => (hsmall c hc).1]
    cases m <;> decide
  have hne : m.name ≠ [] := by cases m <;> decide
  have hfind : (Market.all.find? fun k => k.lowered = m.lowered) = some m := by
    cases m <;> decide
  rw [normalizeMarket, hstrip, if_neg hne, hlower, hfind]
  rfl

/-- The market of a key is read first. -/
theorem splitMarket_name (defaultMarket : List Char) (m : Market) (rest : List Char) :
    splitMarket py defaultMarket (m.name ++ ':' :: rest) = (some m, rest) := by
  have hcolon : ':' ∉ m.name := by cases m <;> decide
  rw [splitMarket, if_pos (List.mem_append_right _ List.mem_cons_self), splitFirst_append hcolon,
    normalizeMarket_name]

/-- What is written after the `@` of a key. -/
structure Exchange (py : Casing) (e : List Char) : Prop where
  strip : py.strip e = e
  lower : py.lower e = e
  colon : ':' ∉ e
  at_sign : '@' ∉ e

theorem exchange_lower {e : List Char} (hcolon : ':' ∉ e) (hat : '@' ∉ e) :
    Exchange py (py.lower (py.strip e)) where
  strip := strip_lower_strip
  lower := py.lower_idem _
  colon := by
    rw [py.mem_lower _ _ (by decide) (by decide),
      mem_strip_iff (isSpace_eq_false (by decide) (by decide))]
    exact hcolon
  at_sign := by
    rw [py.mem_lower _ _ (by decide) (by decide),
      mem_strip_iff (isSpace_eq_false (by decide) (by decide))]
    exact hat

theorem splitVenue_exchange (body : List Char) : Exchange py (splitVenue py body).exchangeId := by
  have hnil : Exchange py [] :=
    { strip := rfl
      lower := py.lower_ascii [] fun c hc => (List.not_mem_nil hc).elim
      colon := List.not_mem_nil
      at_sign := List.not_mem_nil }
  unfold splitVenue
  split
  next hat =>
    have hvenue := (splitLast_spec hat).2
    dsimp only
    split
    · exact hnil
    · split
      next hcolon =>
        obtain ⟨hs, hfirst⟩ := splitFirst_spec hcolon
        exact exchange_lower hfirst fun h => hvenue (by rw [hs]; exact List.mem_append_left _ h)
      next hcolon => exact exchange_lower hcolon hvenue
  · exact hnil

theorem ascii_type (t : CryptoType) : ∀ c ∈ t.name, c.toNat < 128 ∧ 32 < c.toNat := by
  have hall : (t.name.all fun c => decide (c.toNat < 128 ∧ 32 < c.toNat)) = true := by
    cases t <;> decide
  simpa only [List.all_eq_true, decide_eq_true_eq] using hall

theorem lower_strip_type (t : CryptoType) : py.lower (py.strip t.name) = t.name := by
  have hspace : ∀ c ∈ t.name, py.isSpace c = false := fun c hc =>
    isSpace_eq_false (ascii_type t c hc).1 (ascii_type t c hc).2
  have hstrip : py.strip t.name = t.name :=
    strip_eq_self (fun c hc => hspace c (List.mem_of_mem_head? hc)) fun c hc =>
      hspace c (List.mem_of_mem_getLast? hc)
  rw [hstrip, py.lower_ascii _ fun c hc => (ascii_type t c hc).1]
  cases t <;> decide

theorem splitVenue_type (sym : List Char) (t : CryptoType) :
    splitVenue py (sym ++ '@' :: t.name) = { body := sym, marketType := t.name } := by
  have hat : '@' ∉ t.name := by cases t <;> decide
  have htype : t.name = CryptoType.spot.name ∨ t.name = CryptoType.swap.name := by
    cases t
    · exact .inl rfl
    · exact .inr rfl
  rw [splitVenue, if_pos (List.mem_append_right _ List.mem_cons_self), splitLast_append hat]
  dsimp only
  rw [lower_strip_type, if_pos htype]

theorem splitVenue_exchange_type {e : List Char} (he : Exchange py e) (sym : List Char)
    (t : CryptoType) : splitVenue py (sym ++ '@' :: (e ++ ':' :: t.name)) =
      { body := sym, exchangeId := e, marketType := t.name } := by
  have hname : ∀ t : CryptoType, ':' ∉ t.name ∧ '@' ∉ t.name := fun t => by
    cases t <;> decide
  have hat : '@' ∉ e ++ ':' :: t.name := by
    rw [List.mem_append, List.mem_cons]
    rintro (h | h | h)
    · exact he.at_sign h
    · revert h
      decide
    · exact (hname t).2 h
  have hcolon : ':' ∈ e ++ ':' :: t.name := List.mem_append_right _ List.mem_cons_self
  have hkept : ':' ∈ py.lower (py.strip (e ++ ':' :: t.name)) := by
    rwa [py.mem_lower _ _ (by decide) (by decide),
      mem_strip_iff (isSpace_eq_false (by decide) (by decide))]
  have htype : ¬ (py.lower (py.strip (e ++ ':' :: t.name)) = CryptoType.spot.name ∨
      py.lower (py.strip (e ++ ':' :: t.name)) = CryptoType.swap.name) := by
    rintro (h | h)
    · exact (hname .spot).1 (h ▸ hkept)
    · exact (hname .swap).1 (h ▸ hkept)
  rw [splitVenue, if_pos (List.mem_append_right _ List.mem_cons_self), splitLast_append hat]
  dsimp only
  rw [if_neg htype, if_pos hcolon, splitFirst_append he.colon]
  dsimp only
  rw [lower_strip_type, he.strip, he.lower]

/-! ## Lemmas on the parser -/

variable {defaultMarket value : List Char} {i : InstrumentSpec}

/-- What a text is read as. -/
theorem parseInstrument_cases (h : parseInstrument py defaultMarket value = .ok i) :
    ∃ venue, venue = splitVenue py (splitMarket py defaultMarket (py.strip value)).2 ∧
      marketOf py defaultMarket (py.strip value) = some i.market ∧
      if i.market = .crypto then
        i.symbol = normalizeCryptoSymbol py (normalizeSymbol py venue.body) ∧
          i.exchangeId = venue.exchangeId ∧ i.marketType.isSome = true
      else
        i.symbol = normalizeSymbol py venue.body ∧ i.exchangeId = [] ∧ i.marketType = none := by
  refine ⟨_, rfl, ?_⟩
  unfold parseInstrument at h
  dsimp only at h
  split at h
  · cases h
  · split at h
    · cases h
    next hmarket =>
      obtain rfl := Except.ok.inj h
      dsimp only
      rw [if_pos rfl]
      exact ⟨hmarket, rfl, rfl, rfl⟩
    next market hmarket hne =>
      obtain rfl := Except.ok.inj h
      dsimp only
      rw [if_neg fun heq => hmarket heq]
      exact ⟨hne, rfl, rfl, rfl⟩

theorem key_stock (he : i.exchangeId = []) (ht : i.marketType = none) :
    i.key = i.market.name ++ ':' :: i.symbol := by
  rw [InstrumentSpec.key, he, ht]
  exact congrArg (fun s => i.market.name ++ ':' :: s) (List.append_nil i.symbol)

theorem key_type {t : CryptoType} (he : i.exchangeId = []) (ht : i.marketType = some t) :
    i.key = i.market.name ++ ':' :: (i.symbol ++ '@' :: t.name) := by
  have hne : t.name ≠ [] := by cases t <;> decide
  rw [InstrumentSpec.key, he, ht]
  dsimp only [Option.map_some, Option.getD_some]
  rw [if_neg (not_not.mpr rfl), if_pos hne]

theorem key_exchange {t : CryptoType} (he : i.exchangeId ≠ []) (ht : i.marketType = some t) :
    i.key = i.market.name ++ ':' :: (i.symbol ++ '@' :: (i.exchangeId ++ ':' :: t.name)) := by
  have hne : t.name ≠ [] := by cases t <;> decide
  rw [InstrumentSpec.key, ht]
  dsimp only [Option.map_some, Option.getD_some]
  rw [if_pos he, if_pos hne]
  rfl

/-- A key is not stripped. -/
theorem strip_name_append {m : Market} {rest : List Char}
    (hlast : ∀ c ∈ (':' :: rest).getLast?, py.isSpace c = false) :
    py.strip (m.name ++ ':' :: rest) = m.name ++ ':' :: rest := by
  have hne : m.name ≠ [] := by cases m <;> decide
  refine strip_eq_self (fun c hc => ?_) fun c hc => ?_
  · rw [List.head?_append_of_ne_nil _ hne] at hc
    obtain ⟨hsmall, hlow⟩ := ascii_name m c (List.mem_of_mem_head? hc)
    exact isSpace_eq_false hsmall hlow
  · rw [List.getLast?_append_of_ne_nil _ (List.cons_ne_nil _ _)] at hc
    exact hlast c hc

theorem isSpace_last_type {sym : List Char} {t : CryptoType} {c : Char}
    (hc : c ∈ (sym ++ t.name).getLast?) : py.isSpace c = false := by
  have hne : t.name ≠ [] := by cases t <;> decide
  rw [List.getLast?_append_of_ne_nil _ hne] at hc
  obtain ⟨hsmall, hlow⟩ := ascii_type t c (List.mem_of_mem_getLast? hc)
  exact isSpace_eq_false hsmall hlow

/-- Reading a text that names its market. -/
theorem parseInstrument_name {m : Market} {rest : List Char} {venue : Venue}
    (hstrip : py.strip (m.name ++ ':' :: rest) = m.name ++ ':' :: rest)
    (hvenue : splitVenue py rest = venue) (defaultMarket : List Char) :
    parseInstrument py defaultMarket (m.name ++ ':' :: rest) =
      if m = .crypto then
        .ok
          { market := .crypto
            symbol := normalizeCryptoSymbol py (normalizeSymbol py venue.body)
            exchangeId := venue.exchangeId
            marketType := some (if venue.marketType = CryptoType.swap.name then .swap else .spot)
            instrumentId := m.name ++ ':' :: rest }
      else
        .ok
          { market := m
            symbol := normalizeSymbol py venue.body
            instrumentId := m.name ++ ':' :: rest } := by
  have hne : m.name ++ ':' :: rest ≠ [] := List.append_ne_nil_of_right_ne_nil _ (List.cons_ne_nil _ _)
  have hmarket : marketOf py defaultMarket (m.name ++ ':' :: rest) = some m := by
    rw [marketOf, splitMarket_name]
    rfl
  unfold parseInstrument
  rw [hstrip, if_neg hne, splitMarket_name, hvenue, hmarket]
  cases m <;> rfl

theorem SameFields.key {j : InstrumentSpec} (h : SameFields i j) : i.key = j.key := by
  obtain ⟨hmarket, hsymbol, hexchange, htype⟩ := h
  rw [InstrumentSpec.key, InstrumentSpec.key, hmarket, hsymbol, hexchange, htype]

theorem readBack_crypto (h : parseInstrument py defaultMarket value = .ok i)
    (hcrypto : i.market = .crypto) (d : List Char) :
    ∃ again, parseInstrument py d i.key = .ok again ∧ SameFields again i := by
  obtain ⟨venue, rfl, -, hfields⟩ := parseInstrument_cases h
  rw [if_pos hcrypto] at hfields
  obtain ⟨hsymbol, hexchange, htype⟩ := hfields
  obtain ⟨t, ht⟩ := Option.isSome_iff_exists.mp htype
  have hread : (if t.name = CryptoType.swap.name then CryptoType.swap else .spot) = t := by
    cases t <;> decide
  have hspec := @splitVenue_exchange py
    (splitMarket py defaultMarket (py.strip value)).2
  rw [← hexchange] at hspec
  have hsame : normalizeCryptoSymbol py (normalizeSymbol py i.symbol) = i.symbol := by
    rw [hsymbol, normalizeSymbol_normalizeCryptoSymbol, normalizeCryptoSymbol_normalizeCryptoSymbol]
  by_cases he : i.exchangeId = []
  · have hstrip := @strip_name_append py i.market (i.symbol ++ '@' :: t.name) fun c hc =>
      @isSpace_last_type py (':' :: (i.symbol ++ ['@'])) t c (by simpa using hc)
    rw [key_type he ht, parseInstrument_name hstrip (splitVenue_type i.symbol t), if_pos hcrypto]
    refine ⟨_, rfl, ?_⟩
    dsimp only [SameFields]
    rw [hcrypto, hsame, he, ht, hread]
    exact ⟨rfl, rfl, rfl, rfl⟩
  · have hstrip := @strip_name_append py i.market
      (i.symbol ++ '@' :: (i.exchangeId ++ ':' :: t.name)) fun c hc =>
      @isSpace_last_type py (':' :: (i.symbol ++ '@' :: (i.exchangeId ++ [':']))) t c
        (by simpa using hc)
    rw [key_exchange he ht,
      parseInstrument_name hstrip (splitVenue_exchange_type hspec i.symbol t), if_pos hcrypto]
    refine ⟨_, rfl, ?_⟩
    dsimp only [SameFields]
    rw [hcrypto, hsame, ht, hread]
    exact ⟨rfl, rfl, rfl, rfl⟩

/-- The key of a stock, read back. -/
theorem parseInstrument_stock (h : parseInstrument py defaultMarket value = .ok i)
    (hstock : i.market ≠ .crypto) (d : List Char) :
    parseInstrument py d i.key = .ok
      { market := i.market
        symbol := normalizeSymbol py (splitVenue py i.symbol).body
        instrumentId := i.key } := by
  obtain ⟨venue, rfl, -, hfields⟩ := parseInstrument_cases h
  rw [if_neg hstock] at hfields
  obtain ⟨hsymbol, hexchange, htype⟩ := hfields
  have hstripped : py.strip i.symbol = i.symbol := by
    rw [hsymbol]
    exact strip_normalizeSymbol
  have hlast : ∀ c ∈ (':' :: i.symbol).getLast?, py.isSpace c = false := by
    intro c hc
    by_cases hnil : i.symbol = []
    · rw [hnil, List.getLast?_singleton] at hc
      obtain rfl := Option.some.inj hc
      exact isSpace_eq_false (by decide) (by decide)
    · rw [List.getLast?_cons_of_ne_nil hnil] at hc
      exact isSpace_last_strip (s := i.symbol) (by rwa [hstripped])
  rw [key_stock hexchange htype, parseInstrument_name (strip_name_append hlast) rfl, if_neg hstock]

theorem body_splitVenue (h : '@' ∈ s) : (splitVenue py s).body = (splitLast '@' s).1 := by
  rw [splitVenue, if_pos h]
  dsimp only
  split
  · rfl
  · split
    · rfl
    · rfl

theorem readBack_stock (h : parseInstrument py defaultMarket value = .ok i)
    (hstock : i.market ≠ .crypto) (d : List Char) :
    (∃ again, parseInstrument py d i.key = .ok again ∧ SameFields again i) ↔ '@' ∉ i.symbol := by
  rw [parseInstrument_stock h hstock]
  obtain ⟨venue, rfl, -, hfields⟩ := parseInstrument_cases h
  rw [if_neg hstock] at hfields
  obtain ⟨hsymbol, hexchange, htype⟩ := hfields
  constructor
  · rintro ⟨again, hagain, -, hkept, -⟩ hat
    obtain rfl := Except.ok.inj hagain
    obtain ⟨hsplit, -⟩ := splitLast_spec hat
    have hbody := @body_splitVenue py _ hat
    have hupper : ∀ c ∈ (splitLast '@' i.symbol).1, py.upperChar c = [c] := fun c hc => by
      have hmem : c ∈ i.symbol := by
        rw [hsplit]
        exact List.mem_append_left _ hc
      rw [hsymbol] at hmem
      exact upperChar_normalizeSymbol c hmem
    have hshort := length_normalizeSymbol_le hupper
    have hlength := congrArg List.length hsplit
    have hsame := congrArg List.length hkept
    dsimp only at hsame
    rw [hbody] at hsame
    rw [List.length_append, List.length_cons] at hlength
    omega
  · intro hat
    have hbody : (splitVenue py i.symbol).body = i.symbol := by
      rw [splitVenue, if_neg hat]
    refine ⟨_, rfl, rfl, ?_, hexchange.symm, htype.symm⟩
    show normalizeSymbol py (splitVenue py i.symbol).body = i.symbol
    rw [hbody, hsymbol, normalizeSymbol_normalizeSymbol]

theorem at_not_mem_of_normalizeMarket {m : Market} (h : normalizeMarket py s = some m) :
    '@' ∉ s := by
  intro hat
  have hstrip : '@' ∈ py.strip s :=
    (mem_strip_iff (isSpace_eq_false (by decide) (by decide))).mpr hat
  have hlower : '@' ∈ py.lower (py.strip s) :=
    (py.mem_lower _ _ (by decide) (by decide)).mpr hstrip
  have hnames : ∀ m ∈ Market.all, '@' ∉ m.lowered ∧ '@' ∉ m.name := by decide
  unfold normalizeMarket at h
  dsimp only at h
  split at h
  · cases h
  · rcases Option.or_eq_some_iff.mp h with hfind | ⟨-, hfind⟩
    · have hname := List.find?_some hfind
      rw [decide_eq_true_eq] at hname
      exact (hnames m (List.mem_of_find?_eq_some hfind)).1 (hname ▸ hlower)
    · have hname := List.find?_some hfind
      rw [decide_eq_true_eq] at hname
      exact (hnames m (List.mem_of_find?_eq_some hfind)).2 (hname ▸ hstrip)

/-- The body of a text has the text's `@`s. -/
theorem count_splitMarket (raw : List Char) :
    (splitMarket py defaultMarket raw).2.count '@' = raw.count '@' := by
  unfold splitMarket
  split
  next hcolon =>
    split
    next market hmarket =>
      obtain ⟨hsplit, -⟩ := splitFirst_spec hcolon
      have hnone := at_not_mem_of_normalizeMarket hmarket
      conv_rhs => rw [hsplit]
      rw [List.count_append, List.count_eq_zero_of_not_mem hnone, List.count_cons_of_ne (by decide),
        Nat.zero_add]
    · rfl
  · rfl

/-- The last `@` of a body is none of its symbol's. -/
theorem at_mem_splitVenue (body : List Char) :
    '@' ∈ (splitVenue py body).body ↔ 2 ≤ body.count '@' := by
  by_cases hat : '@' ∈ body
  · obtain ⟨hsplit, hlast⟩ := splitLast_spec hat
    have hcount := congrArg (List.count '@') hsplit
    rw [List.count_append, List.count_cons_self, List.count_eq_zero_of_not_mem hlast] at hcount
    rw [body_splitVenue hat, ← List.count_pos_iff]
    omega
  · have hbody : (splitVenue py body).body = body := by rw [splitVenue, if_neg hat]
    rw [hbody, List.count_eq_zero_of_not_mem hat]
    exact ⟨fun h => absurd h hat, fun h => absurd h (by decide)⟩

/-! ## The results -/

/-- **A key is canonical** but for a stock whose text holds two `@`s. -/
theorem canonical_iff (h : parseInstrument py defaultMarket value = .ok i) :
    Canonical py i ↔ marketOf py defaultMarket (py.strip value) = some .crypto ∨
      (py.strip value).count '@' ≤ 1 := by
  have hone : ∀ d v other, parseInstrument py d v = .ok other → SameFields other i →
      other.key = i.key := fun _ _ _ _ hsame => hsame.key
  obtain ⟨venue, hvenue, hmarket, hfields⟩ := parseInstrument_cases h
  have hback : Canonical py i ↔ ∀ d, ∃ again, parseInstrument py d i.key = .ok again ∧
      SameFields again i := by
    constructor
    · rintro ⟨hread, -⟩ d
      obtain ⟨again, hagain, -, hsame⟩ := hread d
      exact ⟨again, hagain, hsame⟩
    · intro hread
      refine ⟨fun d => ?_, hone⟩
      obtain ⟨again, hagain, hsame⟩ := hread d
      exact ⟨again, hagain, hsame.key, hsame⟩
  rw [hback, hmarket, Option.some.injEq]
  by_cases hcrypto : i.market = .crypto
  · exact iff_of_true (readBack_crypto h hcrypto) (.inl hcrypto)
  · rw [if_neg hcrypto] at hfields
    have hat : '@' ∈ i.symbol ↔ 2 ≤ (py.strip value).count '@' := by
      rw [hfields.1, at_mem_normalizeSymbol, hvenue, at_mem_splitVenue, count_splitMarket]
    have hfew : (py.strip value).count '@' ≤ 1 ↔ '@' ∉ i.symbol := by
      rw [hat]
      omega
    rw [or_iff_right hcrypto, hfew]
    constructor
    · intro hread
      exact (readBack_stock h hcrypto defaultMarket).mp (hread defaultMarket)
    · exact fun hnot d => (readBack_stock h hcrypto d).mpr hnot

theorem canonical_tencent : ∃ i, parseInstrument .ascii [] "700.xhkg@sehk".toList = .ok i ∧
    i.key = "HKStock:700.HK".toList ∧ Canonical .ascii i :=
  ⟨{ market := .hkStock, symbol := "700.HK".toList, instrumentId := "700.xhkg@sehk".toList },
    by decide, by decide,
    (@canonical_iff .ascii [] "700.xhkg@sehk".toList _ (by decide)).mpr (.inr (by decide))⟩

/-- The key `USStock:A@B` of `USStock:A@B@X` is read as the instrument `A` at `B`. -/
theorem key_misread : ∃ i, parseInstrument .ascii [] "USStock:A@B@X".toList = .ok i ∧
    ¬ Canonical .ascii i := by
  refine ⟨{ market := .usStock, symbol := "A@B".toList, instrumentId := "USStock:A@B@X".toList },
    by decide, fun h => ?_⟩
  obtain ⟨again, hagain, -, -, hsymbol, -⟩ := h.readBack []
  have hread : parseInstrument .ascii [] "USStock:A@B".toList = .ok
      { market := .usStock, symbol := "A".toList, instrumentId := "USStock:A@B".toList } := by
    decide
  obtain rfl := Except.ok.inj (hread.symm.trans hagain)
  revert hsymbol
  decide

end

end AlgoTrade.Instruments
