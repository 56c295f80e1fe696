import AlgoTrade.Lib.Lockout
import AlgoTrade.Lib.Runs
import Mathlib.Algebra.Order.Field.Rat
import Mathlib.Data.Rat.Floor
import Mathlib.Tactic.Linarith

/-! # The login lockout

`SecurityService` and the login requests that go through it, several at a time.

* `isBlocked`, `recordLoginAttempt`, `clearLoginAttempts`: the service.
* `step`: one database call of one request.
* `locked`: what is recorded of an identifier is a lockout of the general kind.
* `failures_bounded`: how many failed logins of one identifier fit in a window. -/

namespace AlgoTrade.Security

/-! ## The service -/

inductive IdentifierType
  | ip | account
  deriving DecidableEq, Repr

/-- A row of `qd_login_attempts`. -/
structure LoginAttempt where
  identifier : String
  identifierType : IdentifierType
  success : Bool
  attemptTime : ℚ
  deriving DecidableEq, Repr

/-- The limits `_load_config` reads. -/
structure SecurityConfig where
  ipMaxAttempts : ℤ := 10
  ipWindowMinutes : ℤ := 5
  ipBlockMinutes : ℤ := 15
  accountMaxAttempts : ℤ := 5
  accountWindowMinutes : ℤ := 60
  accountBlockMinutes : ℤ := 30
  deriving DecidableEq, Repr

namespace SecurityConfig

variable (cfg : SecurityConfig)

def maxAttempts : IdentifierType → ℤ
  | .ip => cfg.ipMaxAttempts
  | .account => cfg.accountMaxAttempts

def windowMinutes : IdentifierType → ℤ
  | .ip => cfg.ipWindowMinutes
  | .account => cfg.accountWindowMinutes

def blockMinutes : IdentifierType → ℤ
  | .ip => cfg.ipBlockMinutes
  | .account => cfg.accountBlockMinutes

end SecurityConfig

/-- `timedelta(minutes=...)`, in seconds. -/
def minutes (n : ℤ) : ℚ := n * 60

/-- `int(...)` of a number of seconds. -/
def truncated (x : ℚ) : ℤ := if x < 0 then -⌊-x⌋ else ⌊x⌋

/-- The three clock readings of `is_blocked`. -/
structure Readings where
  window : ℚ
  block : ℚ
  remaining : ℚ
  deriving DecidableEq, Repr

def Readings.Ordered (r : Readings) : Prop := r.window ≤ r.block ∧ r.block ≤ r.remaining

instance (r : Readings) : Decidable r.Ordered := inferInstanceAs (Decidable (_ ∧ _))

/-- The failed logins of an identifier. -/
def failedTimes (attempts : List LoginAttempt) (identifier : String) (type : IdentifierType) :
    List ℚ :=
  (attempts.filter fun a =>
    a.identifier = identifier ∧ a.identifierType = type ∧ a.success = false).map
      LoginAttempt.attemptTime

/-- `is_blocked`. -/
def isBlocked (cfg : SecurityConfig) (attempts : List LoginAttempt) (identifier : String)
    (type : IdentifierType) (now : Readings) : Bool × ℤ :=
  let windowStart := now.window - minutes (cfg.windowMinutes type)
  let failed := (failedTimes attempts identifier type).filter (windowStart < ·)
  if cfg.maxAttempts type ≤ failed.length then
    match failed.max? with
    | some lastAttempt =>
      let blockUntil := lastAttempt + minutes (cfg.blockMinutes type)
      if now.block < blockUntil then (true, truncated (blockUntil - now.remaining)) else (false, 0)
    | none => (false, 0)
  else (false, 0)

/-- The columns hold 100 and 45 characters; a longer text is not inserted. -/
def recordLoginAttempt (attempts : List LoginAttempt) (identifier : String)
    (type : IdentifierType) (success : Bool) (ipAddress : String) (now : ℚ) : List LoginAttempt :=
  if identifier.length ≤ 100 ∧ ipAddress.length ≤ 45 then
    attempts ++ [⟨identifier, type, success, now⟩]
  else attempts

def clearLoginAttempts (attempts : List LoginAttempt) (identifier : String)
    (type : IdentifierType) : List LoginAttempt :=
  attempts.filter fun a => ¬ (a.identifier = identifier ∧ a.identifierType = type)

/-! ## Login requests -/

/-- A database call a request still makes. -/
inductive Call
  | record (type : IdentifierType) (success : Bool)
  | clear (type : IdentifierType)
  deriving DecidableEq, Repr

inductive Stage
  | ipChecked
  | authenticating
  | answering (calls : List Call)
  deriving DecidableEq, Repr

/-- A login request under way. -/
structure Login where
  username : String
  ipAddress : String
  stage : Stage
  deriving DecidableEq, Repr

def Login.identifier (l : Login) : IdentifierType → String
  | .ip => l.ipAddress
  | .account => l.username

/-- How the authentication ends: a wrong or missing password; a right one with a disabled or
pending account, or without a token; a login, or its second factor. -/
inductive Verdict
  | invalid
  | refused
  | passed
  deriving DecidableEq, Repr

def Verdict.calls : Verdict → List Call
  | invalid => [.record .ip false, .record .account false]
  | refused => []
  | passed => [.record .ip true, .record .account true, .clear .ip, .clear .account]

structure Service where
  clock : ℚ
  attempts : List LoginAttempt := []
  logins : List Login := []
  deriving DecidableEq, Repr

inductive Event
  | arrive (username ipAddress : String) (now : Readings)
  | checkAccount (login : Login) (now : Readings)
  | authenticate (login : Login) (verdict : Verdict)
  | call (login : Login) (now : ℚ)
  | resetPassword (username : String) (now : ℚ)
  deriving DecidableEq, Repr

namespace Service

/-- A request goes on to its next stage. -/
def moveOn (s : Service) (login : Login) (stage : Stage) : Service :=
  { s with logins := { login with stage } :: s.logins.erase login }

/-- One call of one request, or of a password reset; `none` when it cannot be the next. -/
def step (cfg : SecurityConfig) (workers : ℕ) (s : Service) : Event → Option Service
  | .arrive username ipAddress now =>
    if now.Ordered ∧ s.clock ≤ now.window ∧ s.logins.length < workers then
      let s' := { s with clock := now.remaining }
      if (isBlocked cfg s.attempts ipAddress .ip now).1 then some s'
      else some { s' with logins := ⟨username, ipAddress, .ipChecked⟩ :: s.logins }
    else none
  | .checkAccount login now =>
    if now.Ordered ∧ s.clock ≤ now.window ∧ login ∈ s.logins ∧ login.stage = .ipChecked then
      let s' := { s with clock := now.remaining }
      if (isBlocked cfg s.attempts login.username .account now).1 then
        some { s' with logins := s.logins.erase login }
      else some (s'.moveOn login .authenticating)
    else none
  | .authenticate login verdict =>
    if login ∈ s.logins ∧ login.stage = .authenticating then
      some (s.moveOn login (.answering verdict.calls))
    else none
  | .call login now =>
    if login ∈ s.logins ∧ s.clock ≤ now then
      let s' := { s with clock := now }
      match login.stage with
      | .answering [] => some { s' with logins := s.logins.erase login }
      | .answering (.record type success :: calls) =>
        some { s'.moveOn login (.answering calls) with
          attempts := recordLoginAttempt s.attempts (login.identifier type) type success
            login.ipAddress now }
      | .answering (.clear type :: calls) =>
        some { s'.moveOn login (.answering calls) with
          attempts := clearLoginAttempts s.attempts (login.identifier type) type }
      | _ => none
    else none
  | .resetPassword username now =>
    if s.clock ≤ now then
      some { s with clock := now, attempts := clearLoginAttempts s.attempts username .account }
    else none

end Service

/-! ## As a lockout -/

/-- Without a failure nothing is blocked, however low the limit is. -/
def SecurityConfig.policy (cfg : SecurityConfig) (type : IdentifierType) : Lockout.Policy ℚ where
  limit := max 1 (cfg.maxAttempts type).toNat
  window := minutes (cfg.windowMinutes type)
  block := minutes (cfg.blockMinutes type)

theorem isBlocked_iff (cfg : SecurityConfig) (attempts : List LoginAttempt) (identifier : String)
    (type : IdentifierType) (now : Readings) :
    (isBlocked cfg attempts identifier type now).1 = true ↔
      (cfg.policy type).Blocks (failedTimes attempts identifier type) now.window now.block := by
  unfold isBlocked Lockout.Policy.Blocks SecurityConfig.policy
  dsimp only
  generalize now.window - minutes (cfg.windowMinutes type) = windowStart
  have hmem : ∀ t, t ∈ (failedTimes attempts identifier type).filter (windowStart < ·) ↔
      t ∈ failedTimes attempts identifier type ∧ windowStart < t := fun t => by
    rw [List.mem_filter, decide_eq_true_iff]
  rw [List.countP_eq_length_filter]
  generalize (failedTimes attempts identifier type).filter (windowStart < ·) = failed at hmem ⊢
  cases hmax : failed.max? with
  | none =>
    rw [List.max?_eq_none_iff] at hmax
    subst hmax
    constructor
    · intro h
      split at h
      · cases h
      · cases h
    · rintro ⟨-, t, ht, hwindow, -⟩
      exact absurd ((hmem t).mpr ⟨ht, hwindow⟩) List.not_mem_nil
  | some lastAttempt =>
    obtain ⟨hlast, hle⟩ := List.max?_eq_some_iff.mp hmax
    have hpos := List.length_pos_of_mem hlast
    dsimp only
    constructor
    · intro h
      split at h
      next hmany =>
        split at h
        next hblock =>
          refine ⟨?_, lastAttempt, ((hmem _).mp hlast).1, ((hmem _).mp hlast).2, hblock⟩
          exact max_le hpos (Int.toNat_le.mpr hmany)
        next => cases h
      next => cases h
    · rintro ⟨hmany, t, ht, hwindow, hblock⟩
      have hfailed := (hmem t).mpr ⟨ht, hwindow⟩
      rw [if_pos (Int.toNat_le.mp ((le_max_right ..).trans hmany)), if_pos]
      exact hblock.trans_le (by
        have := hle t hfailed
        linarith)

theorem failedTimes_clear (attempts : List LoginAttempt) (identifier identifier' : String)
    (type type' : IdentifierType) :
    failedTimes (clearLoginAttempts attempts identifier' type') identifier type =
      if identifier' = identifier ∧ type' = type then []
      else failedTimes attempts identifier type := by
  unfold failedTimes clearLoginAttempts
  rw [List.filter_filter]
  split
  next h =>
    obtain ⟨rfl, rfl⟩ := h
    rw [List.map_eq_nil_iff, List.filter_eq_nil_iff]
    intro a _ ha
    rw [Bool.and_eq_true, decide_eq_true_iff, decide_eq_true_iff] at ha
    exact ha.2 ⟨ha.1.1, ha.1.2.1⟩
  next h =>
    congr 1
    refine List.filter_congr fun a _ => ?_
    rw [Bool.and_eq_left_iff_imp, decide_eq_true_iff, decide_eq_true_iff]
    rintro ⟨rfl, rfl, -⟩ ⟨rfl, rfl⟩
    exact h ⟨rfl, rfl⟩

theorem failedTimes_record (attempts : List LoginAttempt)
    (identifier identifier' ipAddress : String) (type type' : IdentifierType) (success : Bool)
    (now : ℚ) :
    failedTimes (recordLoginAttempt attempts identifier' type' success ipAddress now) identifier
        type = failedTimes attempts identifier type ++
      if (identifier' = identifier ∧ type' = type ∧ success = false) ∧
        identifier'.length ≤ 100 ∧ ipAddress.length ≤ 45 then [now] else [] := by
  unfold failedTimes recordLoginAttempt
  by_cases hfits : identifier'.length ≤ 100 ∧ ipAddress.length ≤ 45
  · rw [if_pos hfits, List.filter_append, List.map_append]
    congr 1
    rw [List.filter_singleton]
    dsimp only
    by_cases h : identifier' = identifier ∧ type' = type ∧ success = false
    · rw [if_pos ⟨h, hfits⟩, decide_eq_true h]
      rfl
    · rw [if_neg fun hall => h hall.1, decide_eq_false h]
      rfl
  · rw [if_neg hfits, if_neg fun hall => hfits hall.2, List.append_nil]

/-! ## One identifier -/

/-- The request has passed the check of this type, and may still record a failure. -/
def Login.underway (l : Login) (type : IdentifierType) : Bool := match l.stage with
  | .ipChecked => type = .ip
  | .authenticating => true
  | .answering calls => .record type false ∈ calls

/-- The request may still record a failure of the identifier. -/
def Login.mayFail (identifier : String) (type : IdentifierType) (l : Login) : Bool :=
  l.identifier type = identifier ∧ l.underway type = true

def Service.underway (s : Service) (identifier : String) (type : IdentifierType) : ℕ :=
  s.logins.countP (Login.mayFail identifier type)

/-- What is recorded of the identifier is a lockout with these failures and as many tries
under way. -/
def Locked (cfg : SecurityConfig) (workers : ℕ) (identifier : String) (type : IdentifierType)
    (s : Service) : Prop :=
  ∃ g : Lockout.State ℚ, Lockout.Kept (cfg.policy type) workers g ∧ g.clock = s.clock ∧
    g.failures.map Lockout.Failure.time = failedTimes s.attempts identifier type ∧
    g.underway.length = s.underway identifier type

section
variable {cfg : SecurityConfig} {workers : ℕ} {identifier : String} {type : IdentifierType}
  {s s' : Service}

theorem Locked.wait (h : Locked cfg workers identifier type s) (hclock : s.clock ≤ s'.clock)
    (hfailed : failedTimes s'.attempts identifier type = failedTimes s.attempts identifier type)
    (hcount : s'.underway identifier type = s.underway identifier type) :
    Locked cfg workers identifier type s' := by
  obtain ⟨g, hg, hgclock, hgfailed, hgcount⟩ := h
  exact ⟨_, hg.wait (hgclock.trans_le hclock), rfl, hgfailed.trans hfailed.symm,
    hgcount.trans hcount.symm⟩

theorem Locked.enter {now : Readings} (h : Locked cfg workers identifier type s)
    (hnow : now.Ordered) (hclock : s.clock ≤ now.window) (hclock' : s'.clock = now.remaining)
    (hfree : ¬ (isBlocked cfg s.attempts identifier type now).1 = true)
    (hroom : s.underway identifier type < workers)
    (hfailed : failedTimes s'.attempts identifier type = failedTimes s.attempts identifier type)
    (hcount : s'.underway identifier type = s.underway identifier type + 1) :
    Locked cfg workers identifier type s' := by
  obtain ⟨g, hg, hgclock, hgfailed, hgcount⟩ := h
  rw [isBlocked_iff, ← hgfailed] at hfree
  have henter := hg.enter (hgclock.trans_le hclock) hnow.1 hfree (hgcount.trans_lt hroom)
  refine ⟨_, henter.wait hnow.2, hclock'.symm, hgfailed.trans hfailed.symm, ?_⟩
  rw [hcount, ← hgcount]
  rfl

theorem Locked.leave (h : Locked cfg workers identifier type s) (hclock : s.clock ≤ s'.clock)
    (hfailed : failedTimes s'.attempts identifier type = failedTimes s.attempts identifier type)
    (hcount : s'.underway identifier type + 1 = s.underway identifier type) :
    Locked cfg workers identifier type s' := by
  obtain ⟨g, hg, hgclock, hgfailed, hgcount⟩ := h
  obtain ⟨seen, hseen⟩ := List.exists_mem_of_length_pos (l := g.underway) (by omega)
  refine ⟨_, hg.leave seen (hgclock.trans_le hclock), rfl, hgfailed.trans hfailed.symm, ?_⟩
  have hlength := List.length_erase_of_mem hseen
  dsimp only
  omega

theorem Locked.fail (h : Locked cfg workers identifier type s) (hclock : s.clock ≤ s'.clock)
    (hfailed : failedTimes s'.attempts identifier type =
      failedTimes s.attempts identifier type ++ [s'.clock])
    (hcount : s'.underway identifier type + 1 = s.underway identifier type) :
    Locked cfg workers identifier type s' := by
  obtain ⟨g, hg, hgclock, hgfailed, hgcount⟩ := h
  obtain ⟨seen, hseen⟩ := List.exists_mem_of_length_pos (l := g.underway) (by omega)
  refine ⟨_, hg.fail hseen (hgclock.trans_le hclock), rfl, ?_, ?_⟩
  · rw [hfailed, ← hgfailed, List.map_append]
    rfl
  · have hlength := List.length_erase_of_mem hseen
    dsimp only
    omega

theorem Locked.clear (h : Locked cfg workers identifier type s)
    (hfailed : failedTimes s'.attempts identifier type = [])
    (hcount : s'.underway identifier type = s.underway identifier type) :
    Locked cfg workers identifier type s' := by
  obtain ⟨g, hg, hgclock, hgfailed, hgcount⟩ := h
  refine ⟨_, hg.clear (t := s'.clock), rfl, hfailed.symm, ?_⟩
  rw [hcount, ← hgcount, List.length_map]

/-! ## Each call -/

variable (identifier type) in
theorem underway_erase {login : Login} (hmem : login ∈ s.logins)
    (hlogins : s'.logins = s.logins.erase login) :
    s'.underway identifier type + (if login.mayFail identifier type = true then 1 else 0) =
      s.underway identifier type := by
  unfold Service.underway
  rw [hlogins, Lockout.countP_erase_add hmem]

variable (identifier type) in
theorem underway_moveOn {login next : Login} (hmem : login ∈ s.logins)
    (hlogins : s'.logins = next :: s.logins.erase login) :
    s'.underway identifier type + (if login.mayFail identifier type = true then 1 else 0) =
      s.underway identifier type + (if next.mayFail identifier type = true then 1 else 0) := by
  unfold Service.underway
  rw [hlogins, List.countP_cons, ← Lockout.countP_erase_add hmem (Login.mayFail identifier type)]
  omega

theorem mayFail_iff {l : Login} : l.mayFail identifier type = true ↔
    l.identifier type = identifier ∧ l.underway type = true := decide_eq_true_iff

/-- The requests under way have a worker each, and no call to make twice. -/
structure Sound (workers : ℕ) (s : Service) : Prop where
  room : s.logins.length ≤ workers
  calls : ∀ l ∈ s.logins, ∀ calls, l.stage = .answering calls → calls.Nodup

theorem Sound.erase (h : Sound workers s) {login : Login}
    (hlogins : s'.logins = s.logins.erase login) : Sound workers s' where
  room := by
    rw [hlogins]
    exact List.erase_sublist.length_le.trans h.room
  calls l hl := by
    rw [hlogins] at hl
    exact h.calls l (List.mem_of_mem_erase hl)

theorem Sound.moveOn (h : Sound workers s) {login next : Login} (hmem : login ∈ s.logins)
    (hlogins : s'.logins = next :: s.logins.erase login)
    (hnext : ∀ calls, next.stage = .answering calls → calls.Nodup) : Sound workers s' where
  room := by
    have hlength := List.length_erase_of_mem hmem
    have hpos := List.length_pos_of_mem hmem
    have hroom := h.room
    rw [hlogins, List.length_cons]
    omega
  calls l hl := by
    rw [hlogins] at hl
    rcases List.mem_cons.mp hl with rfl | hl
    · exact hnext
    · exact h.calls l (List.mem_of_mem_erase hl)

theorem Sound.step {e : Event} (h : Sound workers s) (hstep : s.step cfg workers e = some s') :
    Sound workers s' := by
  cases e with
  | arrive username ipAddress now =>
    obtain ⟨⟨-, -, hroom⟩, hstep⟩ := Option.ite_none_right_eq_some.mp hstep
    dsimp only at hstep
    split at hstep
    · obtain rfl := Option.some.inj hstep
      exact ⟨h.room, h.calls⟩
    · obtain rfl := Option.some.inj hstep
      refine ⟨hroom, fun l hl => ?_⟩
      rcases List.mem_cons.mp hl with rfl | hl
      · intro calls hcalls
        cases hcalls
      · exact h.calls l hl
  | checkAccount login now =>
    obtain ⟨⟨-, -, hmem, -⟩, hstep⟩ := Option.ite_none_right_eq_some.mp hstep
    dsimp only at hstep
    split at hstep
    · obtain rfl := Option.some.inj hstep
      exact h.erase rfl
    · obtain rfl := Option.some.inj hstep
      exact h.moveOn hmem rfl fun calls hcalls => by cases hcalls
  | authenticate login verdict =>
    obtain ⟨⟨hmem, -⟩, hstep⟩ := Option.ite_none_right_eq_some.mp hstep
    obtain rfl := Option.some.inj hstep
    refine h.moveOn hmem rfl fun calls hcalls => ?_
    obtain rfl := Stage.answering.inj hcalls
    cases verdict with
    | invalid => decide
    | refused => decide
    | passed => decide
  | call login now =>
    obtain ⟨⟨hmem, -⟩, hstep⟩ := Option.ite_none_right_eq_some.mp hstep
    dsimp only at hstep
    split at hstep
    · obtain rfl := Option.some.inj hstep
      exact h.erase rfl
    next type success calls hstage =>
      obtain rfl := Option.some.inj hstep
      refine h.moveOn hmem rfl fun calls' hcalls => ?_
      obtain rfl := Stage.answering.inj hcalls
      exact (List.nodup_cons.mp (h.calls login hmem _ hstage)).2
    next type calls hstage =>
      obtain rfl := Option.some.inj hstep
      refine h.moveOn hmem rfl fun calls' hcalls => ?_
      obtain rfl := Stage.answering.inj hcalls
      exact (List.nodup_cons.mp (h.calls login hmem _ hstage)).2
    · cases hstep
  | resetPassword username now =>
    obtain ⟨-, hstep⟩ := Option.ite_none_right_eq_some.mp hstep
    obtain rfl := Option.some.inj hstep
    exact ⟨h.room, h.calls⟩

theorem Locked.arrive {username ipAddress : String} {now : Readings}
    (h : Locked cfg workers identifier type s)
    (hstep : s.step cfg workers (.arrive username ipAddress now) = some s') :
    Locked cfg workers identifier type s' := by
  obtain ⟨⟨hnow, hclock, hroom⟩, hstep⟩ := Option.ite_none_right_eq_some.mp hstep
  have hlater : s.clock ≤ now.remaining := hclock.trans (hnow.1.trans hnow.2)
  dsimp only at hstep
  split at hstep
  · obtain rfl := Option.some.inj hstep
    exact h.wait hlater rfl rfl
  next hfree =>
    obtain rfl := Option.some.inj hstep
    by_cases hown : ipAddress = identifier ∧ type = .ip
    · obtain ⟨rfl, rfl⟩ := hown
      refine h.enter hnow hclock rfl hfree ?_ rfl ?_
      · exact List.countP_le_length.trans_lt hroom
      · exact List.countP_cons_of_pos (mayFail_iff.mpr ⟨rfl, rfl⟩)
    · refine h.wait hlater rfl (List.countP_cons_of_neg fun hmay => hown ?_)
      obtain ⟨hidentifier, hunderway⟩ := mayFail_iff.mp hmay
      have htype : type = .ip := of_decide_eq_true hunderway
      subst htype
      exact ⟨hidentifier, rfl⟩

theorem Locked.checkAccount {login : Login} {now : Readings}
    (h : Locked cfg workers identifier type s) (hs : Sound workers s)
    (hstep : s.step cfg workers (.checkAccount login now) = some s') :
    Locked cfg workers identifier type s' := by
  obtain ⟨⟨hnow, hclock, hmem, hstage⟩, hstep⟩ := Option.ite_none_right_eq_some.mp hstep
  have hlater : s.clock ≤ now.remaining := hclock.trans (hnow.1.trans hnow.2)
  have hchecked : login.underway type = decide (type = .ip) := by
    unfold Login.underway
    rw [hstage]
  dsimp only at hstep
  split at hstep
  · obtain rfl := Option.some.inj hstep
    have hcount := underway_erase identifier type hmem
      (rfl : ({ s with clock := now.remaining, logins := s.logins.erase login } :
        Service).logins = _)
    by_cases hmay : login.mayFail identifier type = true
    · rw [if_pos hmay] at hcount
      exact h.leave hlater rfl hcount
    · rw [if_neg hmay] at hcount
      exact h.wait hlater rfl hcount
  next hfree =>
    obtain rfl := Option.some.inj hstep
    have hcount := underway_moveOn identifier type hmem
      (rfl : ({ s with clock := now.remaining }.moveOn login .authenticating).logins = _)
    cases type with
    | ip =>
      have hsame : Login.mayFail identifier .ip { login with stage := .authenticating } =
          login.mayFail identifier .ip := by
        rw [Bool.eq_iff_iff, mayFail_iff, mayFail_iff, hchecked]
        exact Iff.rfl
      rw [hsame] at hcount
      exact h.wait hlater rfl (Nat.add_right_cancel hcount)
    | account =>
      have hbefore : ¬ login.mayFail identifier .account = true := by
        rw [mayFail_iff, hchecked]
        exact fun hmay => absurd hmay.2 (by decide)
      rw [if_neg hbefore, Nat.add_zero] at hcount
      have hafter : Login.mayFail identifier .account { login with stage := .authenticating } =
          true ↔ login.username = identifier := mayFail_iff.trans (and_iff_left rfl)
      by_cases hown : login.username = identifier
      · rw [if_pos (hafter.mpr hown)] at hcount
        refine h.enter hnow hclock rfl (hown ▸ hfree) ?_ rfl hcount
        have hlt := Lockout.countP_erase_add hmem (Login.mayFail identifier .account)
        have hle := List.countP_le_length (p := Login.mayFail identifier .account)
          (l := s.logins.erase login)
        have hlength := List.length_erase_of_mem hmem
        have hpos := List.length_pos_of_mem hmem
        have hroom := hs.room
        rw [if_neg hbefore] at hlt
        unfold Service.underway
        omega
      · rw [if_neg fun hmay => hown (hafter.mp hmay), Nat.add_zero] at hcount
        exact h.wait hlater rfl hcount

theorem Locked.authenticate {login : Login} {verdict : Verdict}
    (h : Locked cfg workers identifier type s)
    (hstep : s.step cfg workers (.authenticate login verdict) = some s') :
    Locked cfg workers identifier type s' := by
  obtain ⟨⟨hmem, hstage⟩, hstep⟩ := Option.ite_none_right_eq_some.mp hstep
  obtain rfl := Option.some.inj hstep
  have hcount := underway_moveOn identifier type hmem
    (rfl : (s.moveOn login (.answering verdict.calls)).logins = _)
  have hbefore : login.mayFail identifier type = true ↔ login.identifier type = identifier := by
    rw [mayFail_iff]
    unfold Login.underway
    rw [hstage]
    exact and_iff_left rfl
  have hafter : Login.mayFail identifier type { login with stage := .answering verdict.calls } =
      true ↔ login.identifier type = identifier ∧ .record type false ∈ verdict.calls := by
    rw [mayFail_iff]
    exact and_congr_right fun _ => decide_eq_true_iff
  by_cases hown : login.identifier type = identifier
  · rw [if_pos (hbefore.mpr hown)] at hcount
    by_cases hrecord : .record type false ∈ verdict.calls
    · rw [if_pos (hafter.mpr ⟨hown, hrecord⟩)] at hcount
      exact h.wait le_rfl rfl (Nat.add_right_cancel hcount)
    · rw [if_neg fun hmay => hrecord (hafter.mp hmay).2] at hcount
      exact h.leave le_rfl rfl hcount
  · rw [if_neg fun hmay => hown (hbefore.mp hmay), if_neg fun hmay => hown (hafter.mp hmay).1]
      at hcount
    exact h.wait le_rfl rfl hcount

/-- A request that may not fail any more goes. -/
theorem Locked.finish {login : Login} {now : ℚ} (h : Locked cfg workers identifier type s)
    (hmem : login ∈ s.logins) (hclock : s.clock ≤ now) (hstage : login.stage = .answering []) :
    Locked cfg workers identifier type
      { s with clock := now, logins := s.logins.erase login } := by
  have hcount := underway_erase identifier type hmem
    (rfl : ({ s with clock := now, logins := s.logins.erase login } : Service).logins = _)
  rw [if_neg fun hmay => ?_] at hcount
  · exact h.wait hclock rfl hcount
  · have hunderway := (mayFail_iff.mp hmay).2
    unfold Login.underway at hunderway
    rw [hstage] at hunderway
    exact absurd (of_decide_eq_true hunderway) List.not_mem_nil

variable (identifier type) in
/-- A call is made, and the request goes on to the rest. -/
theorem underway_call {login : Login} {first : Call} {calls : List Call}
    (hmem : login ∈ s.logins) (hstage : login.stage = .answering (first :: calls))
    (hnodup : (first :: calls).Nodup) (hlogins : s'.logins =
      { login with stage := .answering calls } :: s.logins.erase login) :
    s'.underway identifier type +
        (if login.identifier type = identifier ∧ first = .record type false then 1 else 0) =
      s.underway identifier type := by
  have hcount := underway_moveOn identifier type hmem hlogins
  have hbefore : login.mayFail identifier type = true ↔
      login.identifier type = identifier ∧ .record type false ∈ first :: calls := by
    rw [mayFail_iff]
    unfold Login.underway
    rw [hstage]
    exact and_congr_right fun _ => decide_eq_true_iff
  have hafter : Login.mayFail identifier type { login with stage := .answering calls } = true ↔
      login.identifier type = identifier ∧ .record type false ∈ calls := by
    rw [mayFail_iff]
    exact and_congr_right fun _ => decide_eq_true_iff
  by_cases hown : login.identifier type = identifier
  · by_cases hfirst : first = .record type false
    · subst hfirst
      rw [if_pos (hbefore.mpr ⟨hown, List.mem_cons_self⟩),
        if_neg fun hmay => (List.nodup_cons.mp hnodup).1 (hafter.mp hmay).2] at hcount
      rw [if_pos ⟨hown, rfl⟩]
      exact hcount
    · have hsame : (login.mayFail identifier type = true) =
          (Login.mayFail identifier type { login with stage := .answering calls } = true) := by
        rw [eq_iff_iff, hbefore, hafter, List.mem_cons, or_iff_right fun h => hfirst h.symm]
      simp only [hsame] at hcount
      rw [if_neg fun hboth => hfirst hboth.2]
      exact Nat.add_right_cancel hcount
  · rw [if_neg fun hmay => hown (hbefore.mp hmay).1, if_neg fun hmay => hown (hafter.mp hmay).1]
      at hcount
    rw [if_neg fun hboth => hown hboth.1]
    exact hcount

theorem Locked.record {login : Login} {now : ℚ} {type' : IdentifierType} {success : Bool}
    {calls : List Call} (h : Locked cfg workers identifier type s) (hs : Sound workers s)
    (hmem : login ∈ s.logins) (hclock : s.clock ≤ now)
    (hstage : login.stage = .answering (.record type' success :: calls)) :
    Locked cfg workers identifier type
      { { s with clock := now }.moveOn login (.answering calls) with
        attempts := recordLoginAttempt s.attempts (login.identifier type') type' success
          login.ipAddress now } := by
  have hcount := underway_call identifier type hmem hstage
    (hs.calls login hmem _ hstage)
    (rfl : ({ { s with clock := now }.moveOn login (.answering calls) with
        attempts := recordLoginAttempt s.attempts (login.identifier type') type' success
          login.ipAddress now } : Service).logins = _)
  have hfailed := failedTimes_record s.attempts identifier (login.identifier type')
    login.ipAddress type type' success now
  by_cases hown : login.identifier type' = identifier ∧ type' = type ∧ success = false
  · obtain ⟨rfl, rfl, rfl⟩ := hown
    rw [if_pos ⟨rfl, rfl⟩] at hcount
    by_cases hfits : (login.identifier type').length ≤ 100 ∧ login.ipAddress.length ≤ 45
    · rw [if_pos ⟨⟨rfl, rfl, rfl⟩, hfits⟩] at hfailed
      exact h.fail hclock hfailed hcount
    · rw [if_neg fun hall => hfits hall.2, List.append_nil] at hfailed
      exact h.leave hclock hfailed hcount
  · rw [if_neg fun hall => hown hall.1, List.append_nil] at hfailed
    rw [if_neg fun hboth => hown ?_] at hcount
    · exact h.wait hclock hfailed hcount
    · obtain ⟨htype, hsuccess⟩ := Call.record.inj hboth.2
      exact ⟨htype ▸ hboth.1, htype, hsuccess⟩

theorem Locked.clearCall {login : Login} {now : ℚ} {type' : IdentifierType} {calls : List Call}
    (h : Locked cfg workers identifier type s) (hs : Sound workers s)
    (hmem : login ∈ s.logins) (hclock : s.clock ≤ now)
    (hstage : login.stage = .answering (.clear type' :: calls)) :
    Locked cfg workers identifier type
      { { s with clock := now }.moveOn login (.answering calls) with
        attempts := clearLoginAttempts s.attempts (login.identifier type') type' } := by
  have hcount := underway_call identifier type hmem hstage
    (hs.calls login hmem _ hstage)
    (rfl : ({ { s with clock := now }.moveOn login (.answering calls) with
        attempts := clearLoginAttempts s.attempts (login.identifier type') type' } :
          Service).logins = _)
  rw [if_neg fun hboth => by cases hboth.2] at hcount
  have hfailed := failedTimes_clear s.attempts identifier (login.identifier type') type type'
  split at hfailed
  · exact h.clear hfailed hcount
  · exact h.wait hclock hfailed hcount

/-- **Each call** keeps the lockout of every identifier. -/
theorem Locked.step {e : Event} (h : Locked cfg workers identifier type s) (hs : Sound workers s)
    (hstep : s.step cfg workers e = some s') : Locked cfg workers identifier type s' := by
  cases e with
  | arrive username ipAddress now => exact h.arrive hstep
  | checkAccount login now => exact h.checkAccount hs hstep
  | authenticate login verdict => exact h.authenticate hstep
  | call login now =>
    obtain ⟨⟨hmem, hclock⟩, hstep⟩ := Option.ite_none_right_eq_some.mp hstep
    dsimp only at hstep
    split at hstep
    next hstage =>
      obtain rfl := Option.some.inj hstep
      exact h.finish hmem hclock hstage
    next type' success calls hstage =>
      obtain rfl := Option.some.inj hstep
      exact h.record hs hmem hclock hstage
    next type' calls hstage =>
      obtain rfl := Option.some.inj hstep
      exact h.clearCall hs hmem hclock hstage
    · cases hstep
  | resetPassword username now =>
    obtain ⟨hclock, hstep⟩ := Option.ite_none_right_eq_some.mp hstep
    obtain rfl := Option.some.inj hstep
    have hfailed := failedTimes_clear s.attempts identifier username type .account
    split at hfailed
    · exact h.clear hfailed rfl
    · exact h.wait hclock hfailed rfl

end

/-- **The lockout.**  Whatever requests run side by side, the failed logins recorded of an
identifier in any window are fewer than the limit, or those beyond it take a block for every
as many as there are workers. -/
theorem failures_bounded {cfg : SecurityConfig} {workers : ℕ} {clock : ℚ} {events : List Event}
    {s : Service} (hrun : Runs.run (Service.step cfg workers) { clock } events = some s)
    (identifier : String) (type : IdentifierType) (start : ℚ) :
    let policy := cfg.policy type
    let failures := (failedTimes s.attempts identifier type).countP fun t =>
      start < t ∧ t ≤ start + policy.window
    failures < policy.limit ∨
      ((failures - policy.limit) / workers) • policy.block < policy.window := by
  have hstep : ∀ (s : Service) (e : Event) (s' : Service),
      Sound workers s ∧ Locked cfg workers identifier type s →
        s.step cfg workers e = some s' → Sound workers s' ∧ Locked cfg workers identifier type s' :=
    fun _ _ _ hs hstep => ⟨hs.1.step hstep, hs.2.step hs.1 hstep⟩
  have hstart : Sound workers { clock } ∧ Locked cfg workers identifier type { clock } :=
    ⟨⟨Nat.zero_le _, fun l hl => absurd hl List.not_mem_nil⟩,
      _, .start _ workers clock, rfl, rfl, rfl⟩
  obtain ⟨-, g, hg, -, hfailed, -⟩ := Runs.run_invariant hstep hstart hrun
  have hbounded := hg.bounded (Nat.lt_of_lt_of_le Nat.zero_lt_one (le_max_left ..)) start
  dsimp only
  rw [← hfailed, List.countP_map]
  exact hbounded

/-! ## Five wrong passwords -/

def readAt (t : ℚ) : Readings := ⟨t, t, t⟩

/-- A login with a wrong password. -/
def wrongPassword (t : ℚ) : List Event :=
  let login (stage : Stage) : Login := ⟨"trader", "10.0.0.1", stage⟩
  [.arrive "trader" "10.0.0.1" (readAt t), .checkAccount (login .ipChecked) (readAt t),
    .authenticate (login .authenticating) .invalid,
    .call (login (.answering [.record .ip false, .record .account false])) t,
    .call (login (.answering [.record .account false])) t, .call (login (.answering [])) t]

/-- The sixth login is not let in. -/
def sixLogins : List Event :=
  [1, 2, 3, 4, 5].flatMap wrongPassword ++ (wrongPassword 6).take 2

theorem failures_bounded_sixLogins :
    ∃ s, Runs.run (Service.step {} 4) { clock := 0 } sixLogins = some s ∧ s.logins = [] ∧
      (failedTimes s.attempts "trader" .account = [1, 2, 3, 4, 5]) ∧
      let failures := (failedTimes s.attempts "trader" .account).countP fun t =>
        0 < t ∧ t ≤ 0 + 3600
      failures < 5 ∨ ((failures - 5) / 4) • (1800 : ℚ) < 3600 := by
  obtain ⟨s, hs, hlogins, htimes⟩ := Runs.exists_of_any
    (p := fun s : Service => s.logins = [] ∧
      failedTimes s.attempts "trader" .account = [1, 2, 3, 4, 5])
    (show (Runs.run (Service.step {} 4) { clock := 0 } sixLogins).any _ = true by decide +kernel)
  have hpolicy : SecurityConfig.policy {} .account = ⟨5, 3600, 1800⟩ := by
    simp only [SecurityConfig.policy, SecurityConfig.maxAttempts, SecurityConfig.windowMinutes,
      SecurityConfig.blockMinutes, minutes]
    norm_num
    rfl
  have hbounded := failures_bounded hs "trader" .account 0
  rw [hpolicy] at hbounded
  exact ⟨s, hs, hlogins, htimes, hbounded⟩

end AlgoTrade.Security
