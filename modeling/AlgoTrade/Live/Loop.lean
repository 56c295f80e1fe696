import AlgoTrade.Lib.Runs
import AlgoTrade.Live.Snapshot

/-! # The live loop

The cycle of the executor around a live session, act by act: what it reads, what it
evaluates, and the intents it submits one after the other.

* `Loop.step`: one act; the intents of an evaluation are submitted before the next
  one.
* The position table, the failures of accepted orders and restarts go their own way
  in between. -/

namespace AlgoTrade.Live

open Backtest Script

/-! ## State -/

/-- The evaluation an intent comes from. -/
inductive Source
  | equityRisk | protection | strategy
  deriving DecidableEq, Repr

/-- What `_execute_strategy_v2_intent` answers. -/
inductive Outcome
  | accepted | rejected | raised
  deriving DecidableEq, Repr

structure LoopConfig where
  prog : Program Vars
  persist : Bool
  pd : StateValue.Timestamps
  str : Value → String
  portal : Portal
  initialCapital : ℚ

/-- The loop.  `covered` is no part of it: the legs whose closing intent was accepted
since their position was opened, and has not failed since. -/
structure Loop where
  session : Session Vars
  /-- The strategy's positions, and what the loop has last read of them. -/
  table : List Session.PositionRow := []
  read : List Session.PositionRow := []
  outstanding : List (Source × OrderIntent) := []
  saved : Option Snapshot := none
  covered : List PositionKey := []

inductive LoopAct
  | updateStatuses (statuses : Dict ClientRef OrderStatus)
  | readPositions
  | synchronize (now : Time) (totalValue : Option ℚ)
  | equityRisk (timestamp : Time)
  | releaseEquityRisk
  | protections (prices : Dict PositionKey ℚ) (timestamp : Time)
  | process (frames : Frames) (clock : Time)
  /-- The first of the outstanding intents. -/
  | submit (outcome : Outcome)
  | save
  | restart
  /-- The positions change. -/
  | trade (table : List Session.PositionRow)
  /-- An accepted closing order of the leg fails. -/
  | fail (key : PositionKey)

/-! ## Positions -/

namespace Session

/-- The positions that rows stand for. -/
def positionsOf (rows : List PositionRow) : Dict PositionKey Position :=
  rows.foldl (fun d row => d.set row.key row.position) Dict.empty

end Session

/-- A zero target, as `_capture_protection_intents` looks for it. -/
def Closes (intent : OrderIntent) (key : PositionKey) : Prop :=
  intent.positionKey = key ∧ intent.kind.isTarget ∧ |intent.value| ≤ amountEpsilon

instance (intent : OrderIntent) (key : PositionKey) : Decidable (Closes intent key) :=
  inferInstanceAs (Decidable (_ ∧ _ ∧ _))

def IsOpen (rows : List Session.PositionRow) (key : PositionKey) : Prop :=
  ∃ position ∈ (Session.positionsOf rows).get? key, amountEpsilon < |position.amount|

instance (rows : List Session.PositionRow) (key : PositionKey) : Decidable (IsOpen rows key) :=
  match h : (Session.positionsOf rows).get? key with
  | none => .isFalse (by simp [IsOpen, h])
  | some position =>
    decidable_of_iff (amountEpsilon < |position.amount|) (by simp [IsOpen, h])

/-- The side of a leg. -/
def IsLong (rows : List Session.PositionRow) (key : PositionKey) : Prop :=
  ∃ position ∈ (Session.positionsOf rows).get? key, 0 < position.amount

instance (rows : List Session.PositionRow) (key : PositionKey) : Decidable (IsLong rows key) :=
  match h : (Session.positionsOf rows).get? key with
  | none => .isFalse (by simp [IsLong, h])
  | some position => decidable_of_iff (0 < position.amount) (by simp [IsLong, h])

/-- The leg's position is a new one. -/
def Opens (before after : List Session.PositionRow) (key : PositionKey) : Prop :=
  IsOpen after key ∧ ¬ (IsOpen before key ∧ (IsLong before key ↔ IsLong after key))

instance (before after : List Session.PositionRow) (key : PositionKey) :
    Decidable (Opens before after key) := inferInstanceAs (Decidable (_ ∧ _))

/-! ## Acts -/

namespace Loop

def start (cfg : LoopConfig) : Loop where
  session := .start cfg.prog cfg.portal cfg.initialCapital

/-- The amount an equity exit finds, under the key of its leg or else of its symbol. -/
def heldAmount (l : Loop) (intent : OrderIntent) : ℚ :=
  ((((Session.positionsOf l.read).get? intent.positionKey).or
    ((Session.positionsOf l.read).get? ⟨intent.symbol, none⟩)).map Position.amount).getD 0

/-- Whether the loop counts an intent as submitted: an equity exit of a flat leg is. -/
def submitted (l : Loop) (source : Source) (intent : OrderIntent) (outcome : Outcome) : Bool :=
  outcome = .accepted ∨ source = .equityRisk ∧ Closes intent intent.positionKey ∧
    |l.heldAmount intent| ≤ amountEpsilon

/-- The status an intent gets. -/
def report (s : Session Vars) (intent : OrderIntent) (submitted : Bool) : Session Vars :=
  match intent.clientOrderId with
  | none => s
  | some reference =>
    s.updateOrderStatuses ⟨[(reference, { status := .live (if submitted then "submitted"
      else "rejected") })]⟩

/-- The submission of an intent, the rest of them being still outstanding. -/
def submit (l : Loop) (source : Source) (intent : OrderIntent) (rest : List (Source × OrderIntent)) :
    Outcome → Loop
  | .raised => { l with outstanding := [] }
  | .accepted =>
    { l with
      session := report l.session intent true
      outstanding := rest
      covered := if Closes intent intent.positionKey then l.covered.insert intent.positionKey
        else l.covered }
  | .rejected =>
    let session := if source = .protection then l.session.releaseProtectionExit intent.positionKey
      else l.session
    { l with
      session := report session intent (l.submitted source intent .rejected)
      outstanding := rest }

/-- What an evaluation leaves to submit. -/
def evaluated (l : Loop) (source : Source) (session : Session Vars) (intents : List OrderIntent) :
    Loop :=
  { l with session := session, outstanding := intents.map (source, ·) }

/-- The session of a restart: a new one, with what was saved. -/
def restarted (cfg : LoopConfig) (saved : Option Snapshot) : Option (Session Vars) :=
  let session := Session.start cfg.prog cfg.portal cfg.initialCapital
  match saved with
  | none => some session
  | some snapshot =>
    session.restoreSessionSnapshot cfg.pd cfg.persist (snapshot.carried true cfg.str)

/-- An act of the loop with nothing outstanding. -/
def idle (cfg : LoopConfig) (l : Loop) : LoopAct → Option Loop
  | .updateStatuses statuses => some { l with session := l.session.updateOrderStatuses statuses }
  | .readPositions => some { l with read := l.table }
  | .synchronize now totalValue =>
    some { l with session := l.session.synchronizePositions now l.read none totalValue }
  | .equityRisk timestamp =>
    let called := l.session.evaluateEquityRisk cfg.prog timestamp
    some (l.evaluated .equityRisk called.1 (called.2.intents.getD []))
  | .releaseEquityRisk => some { l with session := l.session.releaseEquityRiskExit cfg.prog }
  | .protections prices timestamp =>
    let called := l.session.evaluateProtections prices timestamp
    some (l.evaluated .protection called.1 called.2)
  | .process frames clock =>
    let called := l.session.process cfg.prog frames clock
    -- the intents of legs with an exit under way are dropped
    some (l.evaluated .strategy called.1 ((called.2.intents.getD []).filter fun intent =>
      intent.positionKey ∉ l.session.exitPending))
  | .save => some { l with saved := some (l.session.sessionSnapshot cfg.pd cfg.persist) }
  | _ => none

def step (cfg : LoopConfig) (l : Loop) : LoopAct → Option Loop
  | .submit outcome =>
    match l.outstanding with
    | [] => none
    | (source, intent) :: rest => some (l.submit source intent rest outcome)
  | .restart =>
    (restarted cfg l.saved).map fun session =>
      { l with session := session, read := [], outstanding := [] }
  | .trade table =>
    some { l with table := table, covered := l.covered.filter fun key => ¬ Opens l.table table key }
  | .fail key => some { l with covered := l.covered.filter (· ≠ key) }
  | act => if l.outstanding = [] then l.idle cfg act else none

end Loop

end AlgoTrade.Live
