import AlgoTrade.Ledger.FillRecords
import AlgoTrade.Lib.Casing
import AlgoTrade.Lib.Dict
import AlgoTrade.Lib.Json

/-! # The public price feed

The ticker messages of six venues, what `_parse` reads off them, the prices that
`_update` keeps, and the snapshot of them.

* `Payload.documented`: the last and mark prices a message carries, by the venue's
  own description of its fields.
* `published_of_clear`: when no message has another field in the place of a price,
  each streamed price is one of the latest message for its symbol.
* `binance_spot_change`: on the spot market of Binance the price change is published. -/

namespace AlgoTrade.PriceFeed

open Json (Scalar)

abbrev Text := List Char

/-! ## Messages -/

/-- A 24-hour ticker, or a mark price update. -/
structure BinanceTicker where
  s : Text
  p : Scalar := .absent
  c : Scalar := .absent

structure OkxTicker where
  instId : Text
  last : Scalar := .absent
  markPx : Scalar := .absent

structure BybitTicker where
  symbol : Text
  markPrice : Scalar := .absent
  lastPrice : Scalar := .absent

structure BitgetTicker where
  instId : Text
  markPrice : Scalar := .absent
  lastPr : Scalar := .absent

structure GateTicker where
  contract : Text := []
  currencyPair : Text := []
  markPrice : Scalar := .absent
  last : Scalar := .absent

structure HtxTick where
  close : Scalar := .absent
  price : Scalar := .absent

/-- The members of a message that are read; a single row is a list of one. -/
inductive Payload : Venue → Type
  | binance (data : BinanceTicker) : Payload .binance
  | okx (data : List OkxTicker) : Payload .okx
  | bybit (rows : List BybitTicker) : Payload .bybit
  | bitget (data : List BitgetTicker) : Payload .bitget
  | gate (rows : List GateTicker) : Payload .gate
  | htx (ch : Text) (tick : HtxTick) : Payload .htx

/-- `str(a or b or "")`. -/
def textOr (a b : Text) : Text := if a = [] then b else a

/-- `channel.split(".")[1] if channel.count(".") >= 2 else ""`. -/
def channelSymbol (channel : Text) : Text :=
  if 2 ≤ channel.count '.' then ((channel.splitOn '.')[1]?).getD [] else []

/-- `_parse`. -/
def Payload.parse {v : Venue} : Payload v → List (Text × ℚ)
  | binance data => [(data.s, (data.p.or data.c).asFloat)]
  | okx data => data.map fun item => (item.instId, (item.last.or item.markPx).asFloat)
  | bybit rows => rows.map fun item => (item.symbol, (item.markPrice.or item.lastPrice).asFloat)
  | bitget data => data.map fun item => (item.instId, (item.markPrice.or item.lastPr).asFloat)
  | gate rows => rows.map fun item =>
    (textOr item.contract item.currencyPair, (item.markPrice.or item.last).asFloat)
  | htx ch tick => [(channelSymbol ch, (tick.close.or tick.price).asFloat)]

/-- A message of the stream; a ping is answered and carries nothing. -/
inductive Message (v : Venue)
  | ping
  | ticker (payload : Payload v)

/-! ## The feed -/

structure FeedInstrument where
  key : Text
  symbol : Text

/-- What the feed is made with. -/
structure Config (v : Venue) where
  marketType : MarketType
  instruments : List FeedInstrument
  /-- `upper` and `isalnum` of a text. -/
  py : Casing
  isAlnum : Char → Bool

structure Feed where
  /-- The price of a key, and when it was seen. -/
  prices : Dict Text (ℚ × ℚ) := {}
  connected : Bool := false

namespace Config

variable {v : Venue} (cfg : Config v)

/-- `_normalized_symbol`. -/
def normalizedSymbol (value : Text) : Text := (cfg.py.upper value).filter cfg.isAlnum

/-- `symbol.replace("/", new)`. -/
def replaceSlash (new symbol : Text) : Text := symbol.flatMap fun c => if c = '/' then new else [c]

def swapSuffix : Text := match cfg.marketType with
  | .spot => []
  | .swap => "-SWAP".toList

/-- The aliases of an instrument. -/
def aliasesOf (item : FeedInstrument) : List Text :=
  let base := cfg.py.upper (replaceSlash ['-'] item.symbol)
  [cfg.normalizedSymbol item.symbol, cfg.normalizedSymbol base,
    cfg.normalizedSymbol (base ++ cfg.swapSuffix)].filter (· ≠ [])

/-- `_aliases`: a later instrument takes an alias over. -/
def aliases : Dict Text Text :=
  Dict.empty.update ⟨cfg.instruments.flatMap fun item => (cfg.aliasesOf item).map (·, item.key)⟩

/-- The key of the symbol of a message; an empty one is no key. -/
def keyOf (symbol : Text) : Option Text :=
  (cfg.aliases.get? (cfg.normalizedSymbol symbol)).filter (· ≠ [])

/-- `_update`. -/
def update (now : ℚ) (feed : Feed) (row : Text × ℚ) : Feed :=
  match cfg.keyOf row.1 with
  | none => feed
  | some key =>
    if row.2 ≤ 0 then feed else { feed with prices := feed.prices.set key (row.2, now) }

/-- `on_message` at a time. -/
def onMessage (feed : Feed) (received : ℚ × Message v) : Feed :=
  match received.2 with
  | .ping => feed
  | .ticker payload => payload.parse.foldl (cfg.update received.1) feed

def run (feed : Feed) (messages : List (ℚ × Message v)) : Feed := messages.foldl cfg.onMessage feed

end Config

/-! ## The snapshot -/

inductive PriceSource
  | publicWebsocketAndRestFallback | publicWebsocket | restFallback | unavailable
  deriving DecidableEq

structure PriceFeedSnapshot where
  prices : Dict Text ℚ
  source : PriceSource
  ageMs : ℤ
  connected : Bool

/-- The prices that are not too old. -/
def Feed.streamPrices (feed : Feed) (now maxAgeSeconds : ℚ) : Dict Text ℚ :=
  let maxAge := max (1 / 2) maxAgeSeconds
  feed.prices.filterMapValues fun p =>
    if 0 < p.1 ∧ now - p.2 ≤ maxAge then some p.1 else none

/-- `snapshot`; `rest` is what the fallback returns, nothing when it raises. -/
def Config.snapshot {v : Venue} (cfg : Config v) (feed : Feed) (now maxAgeSeconds : ℚ)
    (rest : Option (Dict Text Scalar)) : PriceFeedSnapshot :=
  let streamPrices := feed.streamPrices now maxAgeSeconds
  let ages := feed.prices.entries.filterMap fun e =>
    (streamPrices.get? e.1).map fun _ => now - e.2.2
  let missing := (cfg.instruments.map FeedInstrument.key).filter fun key =>
    (streamPrices.get? key).isNone
  let fallback : Dict Text ℚ :=
    if missing = [] then {}
    else ⟨((rest.getD {}).entries.filter fun e => missing.contains e.1 ∧ 0 < e.2.asFloat).map fun e =>
      (e.1, e.2.asFloat)⟩
  { prices := fallback.update streamPrices
    source :=
      if streamPrices.entries ≠ [] ∧ fallback.entries ≠ [] then .publicWebsocketAndRestFallback
      else if streamPrices.entries ≠ [] then .publicWebsocket
      else if fallback.entries ≠ [] then .restFallback
      else .unavailable
    ageMs := ⌊ages.foldl max 0 * 1000⌋
    connected := feed.connected }

/-! ## What the venues say of their messages -/

/-- A row of a message: its symbol as it is read, the name it was subscribed under,
and the last and mark prices it carries. -/
structure Quoted where
  symbol : Text
  topic : Text
  prices : List ℚ

def priced (fields : List Scalar) : List ℚ := (fields.map Scalar.asFloat).filter (0 < ·)

/-- The documented rows of a message. -/
def Payload.documented {v : Venue} (m : MarketType) : Payload v → List Quoted
  | binance data =>
    [⟨data.s, data.s, priced [match m with | .spot => data.c | .swap => data.p]⟩]
  | okx data => data.map fun item => ⟨item.instId, item.instId, priced [item.last, item.markPx]⟩
  | bybit rows => rows.map fun item =>
    ⟨item.symbol, item.symbol, priced [item.markPrice, item.lastPrice]⟩
  | bitget data => data.map fun item =>
    ⟨item.instId, item.instId, priced [item.markPrice, item.lastPr]⟩
  | gate rows => rows.map fun item =>
    ⟨textOr item.contract item.currencyPair,
      match m with | .spot => item.currencyPair | .swap => item.contract,
      priced [item.markPrice, item.last]⟩
  | htx ch tick => [⟨channelSymbol ch, ch, priced [tick.close]⟩]

def Message.documented {v : Venue} (m : MarketType) : Message v → List Quoted
  | .ping => []
  | .ticker payload => payload.documented m

namespace Config

variable {v : Venue} (cfg : Config v)

/-- The name an instrument is subscribed under; Binance answers in capitals. -/
def topic (item : FeedInstrument) : Text := match v with
  | .binance | .bybit | .bitget => cfg.normalizedSymbol item.symbol
  | .okx => cfg.py.upper (replaceSlash ['-'] item.symbol) ++ cfg.swapSuffix
  | .gate => cfg.py.upper (replaceSlash ['_'] item.symbol)
  | .htx => "market.".toList ++ cfg.py.lower (replaceSlash [] item.symbol) ++ ".detail".toList

/-- The rows of an instrument that carry a price. -/
def carrying (item : FeedInstrument) (rows : List Quoted) : List Quoted :=
  rows.filter fun q => q.topic = cfg.topic item ∧ q.prices ≠ []

/-- Each streamed price is in the snapshot, and is a last or mark price of the latest
row of its instrument that carried one. -/
def Shows (feed : Feed) (rows : List Quoted) : Prop :=
  ∀ now maxAgeSeconds rest key price, (feed.streamPrices now maxAgeSeconds).get? key = some price →
    (cfg.snapshot feed now maxAgeSeconds rest).prices.get? key = some price ∧
      ∃ item ∈ cfg.instruments, item.key = key ∧
        ∃ q, (cfg.carrying item rows).getLast? = some q ∧ price ∈ q.prices

end Config

/-! ## Clear messages -/

/-- Of two prices the first is read when it is there. -/
def BothPrices (first second : Scalar) : Prop :=
  first.truthy = true → 0 < first.asFloat ∨ second.asFloat ≤ 0

/-- Only the first is a price. -/
def FirstPrice (first second : Scalar) : Prop := first.truthy = false → second.asFloat ≤ 0

/-- Only the second is a price. -/
def SecondPrice (first second : Scalar) : Prop :=
  first.truthy = true →
    first.asFloat = second.asFloat ∨ first.asFloat ≤ 0 ∧ second.asFloat ≤ 0

instance (first second : Scalar) : Decidable (BothPrices first second) :=
  inferInstanceAs (Decidable (_ → _))

instance (first second : Scalar) : Decidable (FirstPrice first second) :=
  inferInstanceAs (Decidable (_ → _))

instance (first second : Scalar) : Decidable (SecondPrice first second) :=
  inferInstanceAs (Decidable (_ → _))

/-- No other field stands in the place of a price. -/
def Payload.Clear {v : Venue} (m : MarketType) : Payload v → Prop
  | binance data => match m with
    | .spot => SecondPrice data.p data.c
    | .swap => FirstPrice data.p data.c
  | okx data => ∀ item ∈ data, BothPrices item.last item.markPx
  | bybit rows => ∀ item ∈ rows, BothPrices item.markPrice item.lastPrice
  | bitget data => ∀ item ∈ data, BothPrices item.markPrice item.lastPr
  | gate rows => ∀ item ∈ rows, BothPrices item.markPrice item.last
  | htx _ tick => FirstPrice tick.close tick.price

instance decidableClear {v : Venue} (m : MarketType) : ∀ payload : Payload v, Decidable (payload.Clear m)
  | .binance data => match m with
    | .spot => inferInstanceAs (Decidable (SecondPrice data.p data.c))
    | .swap => inferInstanceAs (Decidable (FirstPrice data.p data.c))
  | .okx data => inferInstanceAs (Decidable (∀ item ∈ data, BothPrices item.last item.markPx))
  | .bybit rows => inferInstanceAs (Decidable (∀ item ∈ rows, BothPrices item.markPrice item.lastPrice))
  | .bitget data => inferInstanceAs (Decidable (∀ item ∈ data, BothPrices item.markPrice item.lastPr))
  | .gate rows => inferInstanceAs (Decidable (∀ item ∈ rows, BothPrices item.markPrice item.last))
  | .htx _ tick => inferInstanceAs (Decidable (FirstPrice tick.close tick.price))

/-- A symbol is matched with the instruments that it is the name of. -/
def Config.Named {v : Venue} (cfg : Config v) (q : Quoted) : Prop :=
  ∀ item ∈ cfg.instruments,
    cfg.aliases.get? (cfg.normalizedSymbol q.symbol) = some item.key ↔ q.topic = cfg.topic item

def Config.Clear {v : Venue} (cfg : Config v) : Message v → Prop
  | .ping => True
  | .ticker payload =>
    payload.Clear cfg.marketType ∧ ∀ q ∈ payload.documented cfg.marketType, cfg.Named q

/-- What is read of a row is what it carries. -/
structure Agrees (x : Text × ℚ) (q : Quoted) : Prop where
  symbol : x.1 = q.symbol
  price : 0 < x.2 → x.2 ∈ q.prices
  none : x.2 ≤ 0 → q.prices = []

theorem mem_priced {fields : List Scalar} {price : ℚ} :
    price ∈ priced fields ↔ 0 < price ∧ ∃ field ∈ fields, field.asFloat = price := by
  unfold priced
  rw [List.mem_filter, List.mem_map, decide_eq_true_eq, and_comm]

theorem priced_eq_nil {fields : List Scalar} :
    priced fields = [] ↔ ∀ field ∈ fields, field.asFloat ≤ 0 := by
  rw [List.eq_nil_iff_forall_not_mem]
  refine ⟨fun h field hfield => ?_, fun h price hprice => ?_⟩
  · by_contra hpos
    exact h _ (mem_priced.mpr ⟨not_le.mp hpos, field, hfield, rfl⟩)
  · obtain ⟨hpos, field, hfield, rfl⟩ := mem_priced.mp hprice
    exact absurd hpos (not_lt.mpr (h field hfield))

section
variable {a b : Scalar} {symbol topic : Text}

theorem agrees_bothPrices :
    Agrees (symbol, (a.or b).asFloat) ⟨symbol, topic, priced [a, b]⟩ ↔ BothPrices a b := by
  cases ha : a.truthy with
  | true =>
    rw [Scalar.or_of_truthy ha]
    refine ⟨fun h _ => ?_, fun h => ⟨rfl, fun hpos => ?_, fun hle => ?_⟩⟩
    · refine or_iff_not_imp_left.mpr fun hle => ?_
      exact priced_eq_nil.mp (h.none (not_lt.mp hle)) b (by simp)
    · exact mem_priced.mpr ⟨hpos, a, by simp, rfl⟩
    · have hb := (h ha).resolve_left (not_lt.mpr hle)
      exact priced_eq_nil.mpr (by simpa using ⟨hle, hb⟩)
  | false =>
    have hzero := Scalar.asFloat_eq_zero_of_not_truthy ha
    rw [Scalar.or_of_not_truthy ha]
    refine iff_of_true ⟨rfl, fun hpos => ?_, fun hle => ?_⟩ fun htrue => ?_
    · exact mem_priced.mpr ⟨hpos, b, by simp, rfl⟩
    · exact priced_eq_nil.mpr (by simpa using ⟨hzero.le, hle⟩)
    · exact nomatch ha.symm.trans htrue

theorem agrees_firstPrice :
    Agrees (symbol, (a.or b).asFloat) ⟨symbol, topic, priced [a]⟩ ↔ FirstPrice a b := by
  cases ha : a.truthy with
  | true =>
    rw [Scalar.or_of_truthy ha]
    refine iff_of_true ⟨rfl, fun hpos => ?_, fun hle => ?_⟩ fun hfalse => ?_
    · exact mem_priced.mpr ⟨hpos, a, by simp, rfl⟩
    · exact priced_eq_nil.mpr (by simpa using hle)
    · exact nomatch ha.symm.trans hfalse
  | false =>
    have hzero := Scalar.asFloat_eq_zero_of_not_truthy ha
    have hnone : priced [a] = [] := priced_eq_nil.mpr (by simpa using hzero.le)
    rw [Scalar.or_of_not_truthy ha]
    refine ⟨fun h _ => ?_, fun h => ⟨rfl, fun hpos => ?_, fun _ => hnone⟩⟩
    · by_contra hpos
      have hmem := h.price (not_le.mp hpos)
      rw [hnone] at hmem
      exact List.not_mem_nil hmem
    · exact absurd hpos (not_lt.mpr (h ha))

theorem agrees_secondPrice :
    Agrees (symbol, (a.or b).asFloat) ⟨symbol, topic, priced [b]⟩ ↔ SecondPrice a b := by
  cases ha : a.truthy with
  | true =>
    rw [Scalar.or_of_truthy ha]
    refine ⟨fun h _ => ?_, fun h => ⟨rfl, fun hpos => ?_, fun hle => ?_⟩⟩
    · rcases lt_or_ge 0 a.asFloat with hpos | hle
      · obtain ⟨-, field, hfield, heq⟩ := mem_priced.mp (h.price hpos)
        obtain rfl := List.mem_singleton.mp hfield
        exact .inl heq.symm
      · exact .inr ⟨hle, priced_eq_nil.mp (h.none hle) b (by simp)⟩
    · rcases h ha with heq | ⟨hle, -⟩
      · exact mem_priced.mpr ⟨hpos, b, by simp, heq.symm⟩
      · exact absurd hpos (not_lt.mpr hle)
    · have hb : b.asFloat ≤ 0 := (h ha).elim (fun heq => heq ▸ hle) And.right
      exact priced_eq_nil.mpr (by simpa using hb)
  | false =>
    rw [Scalar.or_of_not_truthy ha]
    refine iff_of_true ⟨rfl, fun hpos => ?_, fun hle => ?_⟩ fun htrue => ?_
    · exact mem_priced.mpr ⟨hpos, b, by simp, rfl⟩
    · exact priced_eq_nil.mpr (by simpa using hle)
    · exact nomatch ha.symm.trans htrue

end

/-- **A clear message** is one that is read as the venue describes it. -/
theorem Payload.clear_iff {v : Venue} (m : MarketType) (payload : Payload v) :
    payload.Clear m ↔ List.Forall₂ Agrees payload.parse (payload.documented m) := by
  have hone : ∀ {x : Text × ℚ} {q : Quoted}, List.Forall₂ Agrees [x] [q] ↔ Agrees x q := by
    intro x q
    rw [List.forall₂_cons, and_iff_left List.Forall₂.nil]
  have hmany : ∀ {α : Type} {f : α → Text × ℚ} {g : α → Quoted} {p : α → Prop} {rows : List α},
      (∀ item, Agrees (f item) (g item) ↔ p item) →
        ((∀ item ∈ rows, p item) ↔ List.Forall₂ Agrees (rows.map f) (rows.map g)) := by
    intro α f g p rows h
    rw [List.forall₂_map_left_iff, List.forall₂_map_right_iff, List.forall₂_same]
    exact forall₂_congr fun item _ => (h item).symm
  cases payload with
  | binance data =>
    refine Iff.trans ?_ hone.symm
    cases m with
    | spot => exact agrees_secondPrice.symm
    | swap => exact agrees_firstPrice.symm
  | okx data => exact hmany fun _ => agrees_bothPrices
  | bybit rows => exact hmany fun _ => agrees_bothPrices
  | bitget data => exact hmany fun _ => agrees_bothPrices
  | gate rows => exact hmany fun _ => agrees_bothPrices
  | htx ch tick => exact agrees_firstPrice.symm.trans hone.symm

/-! ## Published prices -/

namespace Config

variable {v : Venue} {cfg : Config v}

/-- An alias is of an instrument. -/
theorem exists_of_aliases {a key : Text} (h : cfg.aliases.get? a = some key) :
    ∃ item ∈ cfg.instruments, item.key = key := by
  rcases Dict.mem_of_get?_update h with hmem | hempty
  · obtain ⟨item, hitem, hmem⟩ := List.mem_flatMap.mp hmem
    obtain ⟨b, -, heq⟩ := List.mem_map.mp hmem
    exact ⟨item, hitem, congrArg Prod.snd heq⟩
  · cases hempty

/-- What the feed knows after some rows. -/
structure Knows (cfg : Config v) (feed : Feed) (rows : List Quoted) : Prop where
  nodup : feed.prices.keys.Nodup
  latest : ∀ key p, feed.prices.get? key = some p → key ≠ [] ∧ 0 < p.1 ∧
    ∃ item ∈ cfg.instruments, item.key = key ∧
      ∃ q, (cfg.carrying item rows).getLast? = some q ∧ p.1 ∈ q.prices

theorem Knows.shows {feed : Feed} {rows : List Quoted} (h : Knows cfg feed rows) :
    cfg.Shows feed rows := by
  intro now maxAgeSeconds rest key price hprice
  have hnodup : (feed.streamPrices now maxAgeSeconds).keys.Nodup :=
    Dict.nodup_keys_filterMapValues h.nodup _
  have hkept := hprice
  unfold Feed.streamPrices at hkept
  rw [Dict.get?_filterMapValues h.nodup] at hkept
  obtain ⟨p, hp, hfresh⟩ := Option.bind_eq_some_iff.mp hkept
  split at hfresh
  next =>
    obtain rfl := Option.some.inj hfresh
    refine ⟨?_, (h.latest key p hp).2.2⟩
    unfold snapshot
    dsimp only
    rw [Dict.get?_update hnodup, hprice]
    rfl
  next => cases hfresh

theorem carrying_append_of_not {item : FeedInstrument} {rows : List Quoted} {q : Quoted}
    (h : ¬ (q.topic = cfg.topic item ∧ q.prices ≠ [])) :
    cfg.carrying item (rows ++ [q]) = cfg.carrying item rows := by
  unfold carrying
  rw [List.filter_append, List.filter_cons_of_neg (by simpa using h), List.filter_nil,
    List.append_nil]

theorem getLast?_carrying_append {item : FeedInstrument} {rows : List Quoted} {q : Quoted}
    (htopic : q.topic = cfg.topic item) (hprices : q.prices ≠ []) :
    (cfg.carrying item (rows ++ [q])).getLast? = some q := by
  unfold carrying
  rw [List.filter_append, List.filter_cons_of_pos (by simpa using ⟨htopic, hprices⟩),
    List.filter_nil]
  exact List.getLast?_concat ..

/-- **One row**: it is about the instruments with the key of its symbol, and of these
it is the latest. -/
theorem Knows.update {feed : Feed} {rows : List Quoted} (h : Knows cfg feed rows) {now : ℚ}
    {x : Text × ℚ} {q : Quoted} (hagrees : Agrees x q) (hnamed : cfg.Named q) :
    Knows cfg (cfg.update now feed x) (rows ++ [q]) := by
  have hkey : ∀ key : Text, cfg.keyOf x.1 = some key →
      key ≠ [] ∧ cfg.aliases.get? (cfg.normalizedSymbol q.symbol) = some key := by
    intro key hkey
    obtain ⟨halias, hne⟩ := Option.filter_eq_some_iff.mp hkey
    exact ⟨of_decide_eq_true hne, hagrees.symbol ▸ halias⟩
  -- a row that is not published leaves the latest row of an instrument alone
  have hother : ∀ {key : Text} {p : ℚ × ℚ}, feed.prices.get? key = some p →
      (cfg.keyOf x.1 = some key → q.prices = []) → key ≠ [] ∧ 0 < p.1 ∧
        ∃ item ∈ cfg.instruments, item.key = key ∧
          ∃ q', (cfg.carrying item (rows ++ [q])).getLast? = some q' ∧ p.1 ∈ q'.prices := by
    intro key p hp hnone
    obtain ⟨hne, hpos, item, hitem, hitemkey, hlatest⟩ := h.latest key p hp
    refine ⟨hne, hpos, item, hitem, hitemkey, ?_⟩
    rwa [carrying_append_of_not]
    rintro ⟨htopic, hprices⟩
    refine hprices (hnone ?_)
    rw [keyOf, hagrees.symbol, (hnamed item hitem).mpr htopic, hitemkey]
    exact Option.filter_eq_some_iff.mpr ⟨rfl, decide_eq_true hne⟩
  unfold Config.update
  cases hown : cfg.keyOf x.1 with
  | none => exact ⟨h.nodup, fun key p hp => hother hp fun heq => nomatch hown.symm.trans heq⟩
  | some own =>
    dsimp only
    split
    next hle => exact ⟨h.nodup, fun key p hp => hother hp fun _ => hagrees.none hle⟩
    next hpos =>
      refine ⟨Dict.nodup_keys_set h.nodup .., fun key p hp => ?_⟩
      rw [Dict.get?_set] at hp
      split at hp
      next heq =>
        subst heq
        obtain rfl := Option.some.inj hp
        obtain ⟨hne, halias⟩ := hkey own hown
        obtain ⟨item, hitem, rfl⟩ := exists_of_aliases halias
        have hprice := hagrees.price (not_le.mp hpos)
        exact ⟨hne, not_le.mp hpos, item, hitem, rfl, q, getLast?_carrying_append
          ((hnamed item hitem).mp halias) (List.ne_nil_of_mem hprice), hprice⟩
      next hne =>
        exact hother hp fun heq => absurd (Option.some.inj (hown.symm.trans heq)) hne

theorem Knows.updates {feed : Feed} {rows : List Quoted} (h : Knows cfg feed rows) {now : ℚ}
    {xs : List (Text × ℚ)} {qs : List Quoted} (hagrees : List.Forall₂ Agrees xs qs)
    (hnamed : ∀ q ∈ qs, cfg.Named q) : Knows cfg (xs.foldl (cfg.update now) feed) (rows ++ qs) := by
  induction hagrees generalizing feed rows with
  | nil => rwa [List.append_nil]
  | @cons x q xs qs hagree hagrees ih =>
    rw [List.foldl_cons, ← List.singleton_append, ← List.append_assoc]
    exact ih (h.update hagree (hnamed q List.mem_cons_self)) fun r hr =>
      hnamed r (List.mem_cons_of_mem q hr)

/-- **One message.** -/
theorem Knows.onMessage {feed : Feed} {rows : List Quoted} (h : Knows cfg feed rows)
    {received : ℚ × Message v} (hclear : cfg.Clear received.2) :
    Knows cfg (cfg.onMessage feed received) (rows ++ received.2.documented cfg.marketType) := by
  obtain ⟨now, message⟩ := received
  cases message with
  | ping =>
    show Knows cfg feed (rows ++ [])
    rwa [List.append_nil]
  | ticker payload =>
    exact h.updates ((payload.clear_iff cfg.marketType).mp hclear.1) hclear.2

theorem Knows.run {feed : Feed} {rows : List Quoted} (h : Knows cfg feed rows)
    {messages : List (ℚ × Message v)} (hclear : ∀ received ∈ messages, cfg.Clear received.2) :
    Knows cfg (cfg.run feed messages)
      (rows ++ messages.flatMap fun received => received.2.documented cfg.marketType) := by
  induction messages generalizing feed rows with
  | nil => rwa [List.flatMap_nil, List.append_nil]
  | cons received messages ih =>
    rw [List.flatMap_cons, ← List.append_assoc]
    exact ih (h.onMessage (hclear received List.mem_cons_self)) fun later hlater =>
      hclear later (List.mem_cons_of_mem received hlater)

theorem knows_start (cfg : Config v) : Knows cfg {} [] where
  nodup := List.nodup_nil
  latest _ _ h := nomatch h

/-- **The feed publishes the venue's price**, whatever messages come in whatever order,
when all of them are clear. -/
theorem published_of_clear (cfg : Config v) (messages : List (ℚ × Message v))
    (hclear : ∀ received ∈ messages, cfg.Clear received.2) :
    cfg.Shows (cfg.run {} messages)
      (messages.flatMap fun received => received.2.documented cfg.marketType) :=
  ((knows_start cfg).run hclear).shows

/-- A swap feed of Binance after two mark prices. -/
theorem published_marks :
    let cfg : Config .binance :=
      { marketType := .swap, py := .ascii, isAlnum := Char.isAlphanum
        instruments := [⟨"Crypto:BTC/USDT@binance:swap".toList, "BTC/USDT".toList⟩] }
    let messages : List (ℚ × Message .binance) :=
      [(1, .ticker (.binance { s := "BTCUSDT".toList, p := .text 60000 })),
        (2, .ticker (.binance { s := "BTCUSDT".toList, p := .text (120001 / 2) }))]
    ((cfg.run {} messages).streamPrices 3 10).entries =
        [("Crypto:BTC/USDT@binance:swap".toList, 120001 / 2)] ∧
      cfg.Shows (cfg.run {} messages)
        (messages.flatMap fun received => received.2.documented cfg.marketType) := by
  refine ⟨by decide +kernel, published_of_clear _ _ fun received hreceived => ?_⟩
  simp only [List.mem_cons, List.not_mem_nil, or_false] at hreceived
  rcases hreceived with rfl | rfl
  all_goals
    refine ⟨by decide +kernel, fun q hq item hitem => ?_⟩
    obtain rfl := List.mem_singleton.mp hq
    obtain rfl := List.mem_singleton.mp hitem
    decide +kernel

/-- On the spot market of Binance the price change is published: 12.5 and not 60000. -/
theorem binance_spot_change :
    let cfg : Config .binance :=
      { marketType := .spot, py := .ascii, isAlnum := Char.isAlphanum
        instruments := [⟨"Crypto:BTC/USDT@binance:spot".toList, "BTC/USDT".toList⟩] }
    let messages : List (ℚ × Message .binance) :=
      [(1, .ticker (.binance { s := "BTCUSDT".toList, p := .text (25 / 2), c := .text 60000 }))]
    ¬ cfg.Shows (cfg.run {} messages)
      (messages.flatMap fun received => received.2.documented cfg.marketType) := by
  intro cfg messages hshows
  obtain ⟨-, item, hitem, -, q, hq, hprice⟩ :=
    hshows 2 10 none "Crypto:BTC/USDT@binance:spot".toList (25 / 2) (by decide +kernel)
  obtain rfl := List.mem_singleton.mp hitem
  have hlatest : q.prices = [60000] := by
    have hprices : (cfg.carrying ⟨"Crypto:BTC/USDT@binance:spot".toList, "BTC/USDT".toList⟩
        (messages.flatMap fun received => received.2.documented cfg.marketType)).getLast?.map
          Quoted.prices = some [60000] := by decide +kernel
    rw [hq] at hprices
    exact Option.some.inj hprices
  rw [hlatest, List.mem_singleton] at hprice
  norm_num at hprice

end Config

end AlgoTrade.PriceFeed
