import AlgoTrade.Lib.Values

/-! # The state values of a strategy in a snapshot

`_snapshot_state_value` tags timestamps and makes tuples lists and keys texts;
`_restore_state_value` undoes the tags.

* `Plain`: the values that come back as they were, from the snapshot itself or from
  its JSON text.
* `restore_snapshot`: they do. -/

namespace AlgoTrade.Live.StateValue

open Script Script.Value

/-- `pd.Timestamp`: the text of a timestamp, and what is made of a value; `none` when it
raises. -/
structure Timestamps where
  isoformat : ℤ → String
  parse : Option Value → Option Value
  parse_isoformat : ∀ t, parse (some (.text (isoformat t))) = some (.timestamp t)

def tag : Key := .text "__strategy_v2_type__"

section
variable (pd : Timestamps)

mutual
/-- `_snapshot_state_value`. -/
def snapshot : Value → Value
  | .timestamp t => .dict [(tag, .text "timestamp"), (.text "value", .text (pd.isoformat t))]
  | .dict entries => packed (snapshotEntries entries)
  | .list items => .list (snapshotAll items)
  | .tuple items => .list (snapshotAll items)
  | v => v

def snapshotAll : List Value → List Value
  | [] => []
  | v :: vs => snapshot v :: snapshotAll vs

def snapshotEntries : List (Key × Value) → List (Key × Value)
  | [] => []
  | (k, v) :: es => (.text k.str, snapshot v) :: snapshotEntries es
end

mutual
/-- `_restore_state_value`; `none` when it raises. -/
def restore : Value → Option Value
  | .dict entries =>
    if isText "timestamp" (member entries tag) then pd.parse (member entries (.text "value"))
    else (restoreEntries entries).map packed
  | .list items => (restoreAll items).map .list
  | v => some v

def restoreAll : List Value → Option (List Value)
  | [] => some []
  | v :: vs => (restore v).bind fun v' => (restoreAll vs).map (v' :: ·)

def restoreEntries : List (Key × Value) → Option (List (Key × Value))
  | [] => some []
  | (k, v) :: es =>
    (restore v).bind fun v' => (restoreEntries es).map ((.text k.str, v') :: ·)
end

end

/-- What arrives: the value as it is, or through the JSON text of a store. -/
def carried (stored : Bool) (str : Value → String) (v : Value) : Value :=
  if stored then v.json str else v

/-! ## Plain values -/

section
variable (stored : Bool)

mutual
/-- Scalars, timestamps, lists and dicts with text keys and no tag; sets and dates as
long as nothing is stored. -/
def Plain : Value → Prop
  | .null | .bool _ | .num _ | .text _ | .timestamp _ => True
  | .date _ | .set _ => stored = false
  | .tuple _ => False
  | .list items => AllPlain items
  | .dict entries => EntriesPlain entries ∧ (entries.map Prod.fst).Nodup ∧
      isText "timestamp" (member entries tag) = false

def AllPlain : List Value → Prop
  | [] => True
  | v :: vs => Plain v ∧ AllPlain vs

def EntriesPlain : List (Key × Value) → Prop
  | [] => True
  | (k, v) :: es => k = .text k.str ∧ Plain v ∧ EntriesPlain es
end

mutual
def decidePlain : ∀ v, Decidable (Plain stored v)
  | .null | .bool _ | .num _ | .text _ | .timestamp _ => inferInstanceAs (Decidable True)
  | .date _ | .set _ => inferInstanceAs (Decidable (stored = false))
  | .tuple _ => inferInstanceAs (Decidable False)
  | .list items => decideAllPlain items
  | .dict entries =>
    have := decideEntriesPlain entries
    inferInstanceAs (Decidable (_ ∧ _ ∧ _))

def decideAllPlain : ∀ vs, Decidable (AllPlain stored vs)
  | [] => inferInstanceAs (Decidable True)
  | v :: vs =>
    have := decidePlain v
    have := decideAllPlain vs
    inferInstanceAs (Decidable (_ ∧ _))

def decideEntriesPlain : ∀ es, Decidable (EntriesPlain stored es)
  | [] => inferInstanceAs (Decidable True)
  | (k, v) :: es =>
    have := decidePlain v
    have := decideEntriesPlain es
    inferInstanceAs (Decidable (k = .text k.str ∧ _ ∧ _))
end

instance (v : Value) : Decidable (Plain stored v) := decidePlain stored v

end

section
variable {pd : Timestamps} {stored : Bool} {str : Value → String}

theorem carried_list (vs : List Value) :
    carried stored str (.list vs) = .list (vs.map (carried stored str)) := by
  cases stored with
  | false => rw [show carried false str = id from rfl, List.map_id]; rfl
  | true => exact congrArg Value.list (jsonAll_eq str vs)

/-- A dict with text keys. -/
theorem carried_dict {es : List (Key × Value)} (hnodup : (es.map Prod.fst).Nodup)
    (hkeys : ∀ e ∈ es, e.1 = .text e.1.str) :
    carried stored str (.dict es) = .dict (es.map fun e => (e.1, carried stored str e.2)) := by
  cases stored with
  | false =>
    rw [show (fun e : Key × Value => (e.1, carried false str e.2)) = id from rfl, List.map_id]
    rfl
  | true =>
    have hsame : jsonEntries str es = es.map fun e => (e.1, e.2.json str) := by
      rw [jsonEntries_eq]
      refine List.map_congr_left fun e he => ?_
      rw [← hkeys e he]
    show packed (jsonEntries str es) = _
    rw [hsame, packed_of_nodup]
    · rfl
    · rw [List.map_map]
      exact hnodup

theorem snapshotEntries_eq (es : List (Key × Value)) :
    snapshotEntries pd es = es.map fun e => (.text e.1.str, snapshot pd e.2) := by
  induction es with
  | nil => rfl
  | cons e es ih => rw [snapshotEntries, ih, List.map_cons]

theorem snapshotAll_eq (vs : List Value) : snapshotAll pd vs = vs.map (snapshot pd) := by
  induction vs with
  | nil => rfl
  | cons v vs ih => rw [snapshotAll, ih, List.map_cons]

theorem EntriesPlain.keys {es : List (Key × Value)} (h : EntriesPlain stored es) :
    ∀ e ∈ es, e.1 = .text e.1.str := by
  induction es with
  | nil => intro e he; cases he
  | cons e es ih =>
    obtain ⟨hkey, -, hrest⟩ := h
    intro e' he'
    rcases List.mem_cons.mp he' with rfl | he'
    · exact hkey
    · exact ih hrest e' he'

theorem EntriesPlain.values {es : List (Key × Value)} (h : EntriesPlain stored es) :
    ∀ e ∈ es, Plain stored e.2 := by
  induction es with
  | nil => intro e he; cases he
  | cons e es ih =>
    obtain ⟨-, hplain, hrest⟩ := h
    intro e' he'
    rcases List.mem_cons.mp he' with rfl | he'
    · exact hplain
    · exact ih hrest e' he'

/-- What arrives of the snapshot of a plain value. -/
def sent (pd : Timestamps) (stored : Bool) (str : Value → String) (v : Value) : Value :=
  carried stored str (snapshot pd v)

/-- A dict with text keys keeps them. -/
theorem sent_dict {es : List (Key × Value)} (h : EntriesPlain stored es)
    (hnodup : (es.map Prod.fst).Nodup) :
    sent pd stored str (.dict es) = .dict (es.map fun e => (e.1, sent pd stored str e.2)) := by
  have hsame : snapshotEntries pd es = es.map fun e => (e.1, snapshot pd e.2) := by
    rw [snapshotEntries_eq]
    refine List.map_congr_left fun e he => ?_
    rw [← h.keys e he]
  have hkeys : ((snapshotEntries pd es).map Prod.fst) = es.map Prod.fst := by
    rw [hsame, List.map_map]
    rfl
  have hpacked : snapshot pd (.dict es) = .dict (snapshotEntries pd es) := by
    rw [snapshot, packed_of_nodup (by rw [hkeys]; exact hnodup)]
  unfold sent
  rw [hpacked, carried_dict (by rw [hkeys]; exact hnodup), hsame, List.map_map]
  · rfl
  · intro e he
    rw [snapshotEntries_eq] at he
    obtain ⟨e', -, rfl⟩ := List.mem_map.mp he
    rfl

/-- No other plain value arrives as a text. -/
theorem isText_sent {s : String} {v : Value} (h : Plain stored v) :
    isText s (some (sent pd stored str v)) = isText s (some v) := by
  cases v with
  | null | bool | num | text => cases stored <;> rfl
  | date | set =>
    obtain rfl := h
    rfl
  | timestamp => cases stored <;> rfl
  | tuple => exact h.elim
  | list items =>
    unfold sent snapshot
    rw [carried_list]
    rfl
  | dict es =>
    rw [sent_dict h.1 h.2.1]
    rfl

theorem member_sent {es : List (Key × Value)} (k : Key) :
    member (es.map fun e => (e.1, sent pd stored str e.2)) k =
      (member es k).map (sent pd stored str) :=
  Dict.get?_mapValues (⟨es⟩ : Dict Key Value) (sent pd stored str) k

theorem sent_timestamp (t : ℤ) :
    sent pd stored str (.timestamp t) =
      .dict [(tag, .text "timestamp"), (.text "value", .text (pd.isoformat t))] := by
  cases stored with
  | false => rfl
  | true => rfl

mutual
/-- **Plain values come back** as they were. -/
theorem restore_sent : ∀ {v : Value}, Plain stored v → restore pd (sent pd stored str v) = some v
  | .null, _ | .bool _, _ | .num _, _ | .text _, _ => by cases stored <;> rfl
  | .date _, h | .set _, h => by
    obtain rfl := h
    rfl
  | .timestamp t, _ => by
    rw [sent_timestamp]
    exact pd.parse_isoformat t
  | .list items, h => by
    have hitems := restoreAll_sent items h
    unfold sent snapshot
    rw [carried_list, snapshotAll_eq, List.map_map, restore]
    exact (congrArg (Option.map Value.list) hitems).trans rfl
  | .dict es, ⟨hentries, hnodup, htag⟩ => by
    have hes := restoreEntries_sent es hentries
    have htext : isText "timestamp" (member (es.map fun e => (e.1, sent pd stored str e.2)) tag) =
        false := by
      rw [member_sent]
      cases hmember : member es tag with
      | none => rfl
      | some v =>
        rw [hmember] at htag
        obtain ⟨e, he, rfl⟩ := Option.map_eq_some_iff.mp hmember
        rw [Option.map_some, isText_sent (hentries.values e (List.mem_of_find?_eq_some he))]
        exact htag
    rw [sent_dict hentries hnodup, restore, if_neg (by rw [htext]; exact Bool.false_ne_true), hes,
      Option.map_some, packed_of_nodup hnodup]

theorem restoreAll_sent : ∀ vs : List Value, AllPlain stored vs →
    restoreAll pd (vs.map (sent pd stored str)) = some vs
  | [], _ => rfl
  | v :: vs, ⟨hv, hvs⟩ => by
    rw [List.map_cons, restoreAll, restore_sent hv, restoreAll_sent vs hvs]
    rfl

theorem restoreEntries_sent : ∀ es : List (Key × Value), EntriesPlain stored es →
    restoreEntries pd (es.map fun e => (e.1, sent pd stored str e.2)) = some es
  | [], _ => rfl
  | (k, v) :: es, ⟨hk, hv, hes⟩ => by
    rw [List.map_cons, restoreEntries, restore_sent hv, restoreEntries_sent es hes, ← hk]
    rfl
end

end

end AlgoTrade.Live.StateValue
