import AlgoTrade.Lib.Dict
import Mathlib.Data.Rat.Defs

/-! # Values of a script, and JSON

The values a Python script keeps: scalars, lists, tuples, sets, dicts, dates.

* `json`: what a value becomes as a JSON text that is read again.
* `packed_of_nodup`: a dict made of the members of a dict is that dict. -/

namespace Script

/-- A key of a dict; one that is no text with what `str` makes of it. -/
inductive Key
  | text (s : String)
  | other (str : String)
  deriving DecidableEq, Repr

def Key.str : Key → String
  | text s => s
  | other str => str

inductive Value
  | null
  | bool (b : Bool)
  | num (q : ℚ)
  | text (s : String)
  | timestamp (t : ℤ)
  | date (day : ℤ)
  | list (items : List Value)
  | tuple (items : List Value)
  | set (items : List Value)
  | dict (entries : List (Key × Value))

namespace Value

/-! ## Dicts -/

/-- `value.get(key)`. -/
def member (entries : List (Key × Value)) (key : Key) : Option Value :=
  (⟨entries⟩ : Dict Key Value).get? key

/-- The dict that gets these members, one after the other. -/
def packed (entries : List (Key × Value)) : Value :=
  .dict (Dict.empty.update ⟨entries⟩ : Dict Key Value).entries

theorem packed_of_nodup {entries : List (Key × Value)} (h : (entries.map Prod.fst).Nodup) :
    packed entries = .dict entries :=
  congrArg Value.dict (congrArg Dict.entries (Dict.empty_update (e := ⟨entries⟩) h))

/-- Whether a member is the text. -/
def isText (s : String) : Option Value → Bool
  | some (.text s') => s' = s
  | _ => false

/-! ## JSON -/

section
variable (str : Value → String)

mutual
/-- `json.loads(json.dumps(value, default=str))`. -/
def json : Value → Value
  | .list items => .list (jsonAll items)
  | .tuple items => .list (jsonAll items)
  | .dict entries => packed (jsonEntries entries)
  | .timestamp t => .text (str (.timestamp t))
  | .date day => .text (str (.date day))
  | .set items => .text (str (.set items))
  | v => v

def jsonAll : List Value → List Value
  | [] => []
  | v :: vs => v.json :: jsonAll vs

def jsonEntries : List (Key × Value) → List (Key × Value)
  | [] => []
  | (k, v) :: es => (.text k.str, v.json) :: jsonEntries es
end

theorem jsonAll_eq (vs : List Value) : jsonAll str vs = vs.map (json str) := by
  induction vs with
  | nil => rfl
  | cons v vs ih => rw [jsonAll, ih, List.map_cons]

theorem jsonEntries_eq (es : List (Key × Value)) :
    jsonEntries str es = es.map fun e => (.text e.1.str, e.2.json str) := by
  induction es with
  | nil => rfl
  | cons e es ih => rw [jsonEntries, ih, List.map_cons]

end

end Value

end Script
