import AlgoTrade.Lib.Runs
import Mathlib.Data.List.Nodup
import Mathlib.Data.List.Basic

/-! # The progress stream of a job

One job's publisher, its row in `qd_agent_jobs`, and one subscriber that runs
`stream_progress` from the start.

* `step`: an event is appended to the ring and then saved on the row, the status
  becomes final before the last event, the subscriber reads the ring and polls
  the row in turn.
* `Inv`: the ring holds the records in order, the row the last saved event.
* `faithful_iff_pollSound`: the subscriber has a prefix of what was published, all
  of it at the end, exactly when each poll meets the saved event it can use. -/

namespace AlgoTrade.ProgressStream

/-! ## What is published -/

/-- `_PROGRESS_RING_SIZE`. -/
def progressRingSize : ℕ := 200

structure Record (Data : Type*) where
  seq : ℕ
  data : Data
  terminal : Bool
  deriving DecidableEq, Repr

/-- What a subscriber tells of a record. -/
def Record.content {Data : Type*} (r : Record Data) : Data × Bool := (r.data, r.terminal)

/-- The events of a job.  `empty` is the falsy snapshot; `statusOnly` is what a poll
makes up for a final job, while the last event carries its time. -/
structure Publication (Data : Type*) where
  events : List Data
  empty : Data
  statusOnly : Data
  nodup : events.Nodup
  length_pos : 0 < events.length
  length_lt : events.length < progressRingSize
  getLast?_ne : events.getLast? ≠ some statusOnly

namespace Publication

variable {Data : Type*} (P : Publication Data)

def length : ℕ := P.events.length

/-- The `n`-th event, from 1. -/
def eventAt : ℕ → Option Data
  | 0 => none
  | n + 1 => P.events[n]?

def records : List (Record Data) :=
  P.events.mapIdx fun i e => ⟨i + 1, e, i + 1 = P.events.length⟩

/-- What every subscriber has to get. -/
def published : List (Data × Bool) := P.records.map Record.content

end Publication

/-! ## States and steps -/

/-- What the subscriber does next. -/
inductive Place
  | ring | poll | returned
  deriving DecidableEq, Repr

/-- The ring, the row's `progress` and whether its status is final; the publisher,
with the event it has still to save; the subscriber. -/
structure State (Data : Type*) where
  buffer : List (Record Data) := []
  progress : Option Data := none
  final : Bool := false
  appended : ℕ := 0
  unsaved : Option Data := none
  lastSeq : ℕ := 0
  lastPersisted : Option Data := none
  place : Place := .ring
  received : List (Record Data) := []
  deriving DecidableEq, Repr

inductive Act
  | append | persist | setFinal | readRing | poll | pollFails
  deriving DecidableEq, Repr

namespace State

variable {Data : Type*}

/-- How many events the row has seen. -/
def saved (s : State Data) : ℕ := if s.unsaved.isSome then s.appended - 1 else s.appended

def emit (s : State Data) (r : Record Data) : State Data :=
  { s with received := s.received ++ [r], lastSeq := r.seq }

/-- `_gc_job_state`, and the stream ends. -/
def gc (s : State Data) : State Data := { s with buffer := [], place := .returned }

/-- The records of the ring, up to a terminal one. -/
def deliver : State Data → List (Record Data) → State Data
  | s, [] => { s with place := .poll }
  | s, r :: rs =>
    let s := { s.emit r with lastPersisted := some r.data }
    if r.terminal then s.gc else s.deliver rs

variable [DecidableEq Data]

/-- The snapshot, unless it is falsy or the last one that was delivered. -/
def unseen (P : Publication Data) (s : State Data) : Option Data :=
  s.progress.filter fun snapshot => snapshot ≠ P.empty ∧ some snapshot ≠ s.lastPersisted

def pollRow (P : Publication Data) (s : State Data) : State Data :=
  match s.unseen P with
  | some snapshot =>
    let s' := { s.emit ⟨s.lastSeq + 1, snapshot, s.final⟩ with lastPersisted := some snapshot }
    if s.final then s'.gc else { s' with place := .ring }
  | none =>
    if s.final then (s.emit ⟨s.lastSeq + 1, P.statusOnly, true⟩).gc else { s with place := .ring }

end State

variable {Data : Type*}

/-- The first half of `_publish_progress`. -/
def append (P : Publication Data) (s : State Data) : Option (State Data) :=
  let terminal : Bool := s.appended + 1 = P.length
  if s.unsaved.isSome ∨ (terminal ∧ ¬ s.final) then none
  else
    P.events[s.appended]?.map fun e =>
      let seq := (s.buffer.getLast?.map fun r => r.seq + 1).getD 1
      let buffer := s.buffer ++ [⟨seq, e, terminal⟩]
      { s with
        buffer := buffer.drop (buffer.length - progressRingSize)
        appended := s.appended + 1
        unsaved := some e }

def step [DecidableEq Data] (P : Publication Data) (s : State Data) : Act → Option (State Data)
  | .append => append P s
  | .persist => s.unsaved.map fun e => { s with progress := some e, unsaved := none }
  | .setFinal =>
    if s.unsaved.isNone ∧ s.appended + 1 = P.length ∧ ¬ s.final then some { s with final := true }
    else none
  | .readRing =>
    if s.place = .ring then
      some (s.deliver (s.buffer.filter fun r => s.lastSeq < r.seq))
    else none
  | .poll => if s.place = .poll then some (s.pollRow P) else none
  | .pollFails => if s.place = .poll then some { s with place := .ring } else none

/-! ## The law -/

/-- What has been received is a prefix of what is published, and all of it once the
stream has ended. -/
def Faithful (P : Publication Data) (s : State Data) : Prop :=
  s.received.map Record.content <+: P.published ∧
    (s.place = .returned → s.received.map Record.content = P.published)

/-- A poll of a job that is not final finds nothing, or the last event that was
received, or the next one; of a final job, the last event and only that to come. -/
def PollSound (P : Publication Data) (s : State Data) : Act → Prop
  | .poll =>
    if s.final then
      s.saved = P.length ∧ s.received.length + 1 = P.length ∧ P.eventAt P.length ≠ some P.empty
    else
      s.saved = 0 ∨ P.eventAt s.saved = some P.empty ∨ s.saved = s.received.length ∨
        s.saved = s.received.length + 1
  | _ => True

/-- The ring and the row follow the publisher; the subscriber has the first records. -/
structure Inv (P : Publication Data) (s : State Data) : Prop where
  appended_le : s.appended ≤ P.length
  buffer : s.place ≠ .returned → s.buffer = P.records.take s.appended
  unsaved : ∀ e, s.unsaved = some e → 0 < s.appended ∧ P.eventAt s.appended = some e
  progress : s.progress = P.eventAt s.saved
  final : s.final = true → P.length ≤ s.saved + 1
  last_final : s.appended = P.length → s.final = true
  received : s.received <+: P.records
  received_le : s.received.length ≤ s.appended
  lastSeq : s.place ≠ .returned → s.lastSeq = s.received.length
  lastPersisted : s.place ≠ .returned → s.lastPersisted = P.eventAt s.received.length
  running : s.place ≠ .returned → s.received.length < P.length
  returned : s.place = .returned → s.received.length = P.length

/-! ## Events and records -/

namespace Publication

variable (P : Publication Data)

theorem length_records : P.records.length = P.length := List.length_mapIdx

theorem records_getElem? {n : ℕ} {e : Data} (h : P.eventAt (n + 1) = some e) :
    P.records[n]? = some ⟨n + 1, e, n + 1 = P.length⟩ := by
  unfold records
  rw [List.getElem?_mapIdx, show P.events[n]? = some e from h]
  rfl

theorem eventAt_lt {n : ℕ} (h : n < P.length) : ∃ e, P.eventAt (n + 1) = some e :=
  ⟨P.events[n], List.getElem?_eq_getElem h⟩

theorem le_of_eventAt {n : ℕ} {e : Data} (h : P.eventAt n = some e) : 0 < n ∧ n ≤ P.length := by
  cases n with
  | zero => cases h
  | succ n => exact ⟨n.succ_pos, (List.getElem?_eq_some_iff.mp h).1⟩

/-- Each datum is published once. -/
theorem eventAt_inj {m n : ℕ} {e : Data} (hm : P.eventAt m = some e) (hn : P.eventAt n = some e) :
    m = n := by
  cases m with
  | zero => cases hm
  | succ m =>
    cases n with
    | zero => cases hn
    | succ n =>
      obtain ⟨hlt, hget⟩ := List.getElem?_eq_some_iff.mp hm
      obtain ⟨hlt', hget'⟩ := List.getElem?_eq_some_iff.mp hn
      exact congrArg (· + 1) ((P.nodup.getElem_inj_iff).mp (hget.trans hget'.symm))

theorem eventAt_length_ne : P.eventAt P.length ≠ some P.statusOnly := by
  intro h
  refine P.getLast?_ne ?_
  obtain ⟨n, hn⟩ : ∃ n, P.length = n + 1 := Nat.exists_eq_succ_of_ne_zero (Nat.ne_of_gt P.length_pos)
  rw [List.getLast?_eq_getElem?]
  rw [hn] at h
  rw [show P.events.length = n + 1 from hn]
  exact h

/-- A prefix of the published contents that goes on with `c` has the event after it. -/
theorem published_of_append {l : List (Record Data)} {r : Record Data}
    (h : (l ++ [r]).map Record.content <+: P.published) :
    P.eventAt (l.length + 1) = some r.data ∧ r.terminal = decide (l.length + 1 = P.length) := by
  have hget : P.published[l.length]? = some r.content := by
    obtain ⟨rest, hrest⟩ := h
    rw [← hrest, List.map_append, List.append_assoc,
      List.getElem?_append_right (by simp)]
    simp
  have hlt : l.length < P.length := by
    have := (List.getElem?_eq_some_iff.mp hget).1
    rwa [published, List.length_map, length_records] at this
  obtain ⟨e, he⟩ := P.eventAt_lt hlt
  rw [published, List.getElem?_map, P.records_getElem? he] at hget
  have hcontent := Option.some.inj hget
  exact ⟨he.trans (congrArg some (congrArg Prod.fst hcontent)), (congrArg Prod.snd hcontent).symm⟩

theorem prefix_append_record {l : List (Record Data)} (hl : l <+: P.records) {e : Data}
    (he : P.eventAt (l.length + 1) = some e) :
    l ++ [⟨l.length + 1, e, l.length + 1 = P.length⟩] <+: P.records := by
  obtain ⟨rest, hrest⟩ := hl
  have hget := P.records_getElem? he
  rw [← hrest, List.getElem?_append_right (Nat.le_refl _), Nat.sub_self] at hget
  cases rest with
  | nil => cases hget
  | cons r rest =>
    obtain rfl := Option.some.inj hget
    exact ⟨rest, by rw [← hrest, List.append_assoc]; rfl⟩

theorem take_records_succ {n : ℕ} {e : Data} (h : P.eventAt (n + 1) = some e) :
    P.records.take (n + 1) = P.records.take n ++ [⟨n + 1, e, n + 1 = P.length⟩] := by
  rw [List.take_add_one, P.records_getElem? h]
  rfl

/-- The number a publisher gives to the record after the first `n`. -/
theorem seq_take_records {n : ℕ} (h : n ≤ P.length) :
    ((P.records.take n).getLast?.map fun r => r.seq + 1).getD 1 = n + 1 := by
  cases n with
  | zero => rfl
  | succ n =>
    obtain ⟨e, he⟩ := P.eventAt_lt h
    rw [P.take_records_succ he, List.getLast?_append]
    rfl

end Publication

/-! ## The publisher -/

variable {P : Publication Data} {s s' : State Data}

theorem Inv.start (P : Publication Data) : Inv P {} where
  appended_le := Nat.zero_le _
  buffer _ := rfl
  unsaved _ h := by cases h
  progress := rfl
  final h := by cases h
  last_final h := absurd h (Nat.ne_of_lt P.length_pos)
  received := List.nil_prefix
  received_le := Nat.le_refl _
  lastSeq _ := rfl
  lastPersisted _ := rfl
  running _ := P.length_pos
  returned h := by cases h

theorem saved_le (s : State Data) : s.saved ≤ s.appended := by
  unfold State.saved
  split
  · omega
  · omega

theorem Inv.append (h : Inv P s) (hs : append P s = some s') : Inv P s' := by
  unfold ProgressStream.append at hs
  dsimp only at hs
  split at hs
  · cases hs
  next hguard =>
    obtain ⟨e, he, rfl⟩ := Option.map_eq_some_iff.mp hs
    have hsaved : s.unsaved = none := by
      by_contra hne
      exact hguard (.inl (Option.isSome_iff_ne_none.mpr hne))
    have hlast : s.appended + 1 = P.length → s.final = true := fun heq => by
      by_contra hfinal
      exact hguard (.inr ⟨by simpa using heq, by simpa using hfinal⟩)
    have hlt : s.appended < P.length := (List.getElem?_eq_some_iff.mp he).1
    have hevent : P.eventAt (s.appended + 1) = some e := he
    refine ⟨hlt, fun hplace => ?_, fun e' he' => ?_, ?_, fun hfinal => ?_, hlast, h.received,
      Nat.le_succ_of_le h.received_le, h.lastSeq, h.lastPersisted, h.running, h.returned⟩
    · have hbuffer := h.buffer hplace
      have hlength : s.buffer.length = s.appended := by
        rw [hbuffer, List.length_take, P.length_records, Nat.min_eq_left h.appended_le]
      have hfits : s.buffer.length + 1 - progressRingSize = 0 :=
        Nat.sub_eq_zero_of_le (hlength ▸ Nat.le_trans hlt (Nat.le_of_lt P.length_lt))
      dsimp only
      rw [List.length_append, List.length_singleton, hfits, List.drop_zero, hbuffer,
        P.take_records_succ hevent, P.seq_take_records h.appended_le]
    · obtain rfl := Option.some.inj he'
      exact ⟨Nat.succ_pos _, hevent⟩
    · show s.progress = P.eventAt s.appended
      have := h.progress
      rwa [State.saved, hsaved] at this
    · have := h.final hfinal
      rwa [State.saved, hsaved] at this

theorem Inv.persist (h : Inv P s) {e : Data} (he : s.unsaved = some e) :
    Inv P { s with progress := some e, unsaved := none } := by
  obtain ⟨hpos, hevent⟩ := h.unsaved e he
  refine ⟨h.appended_le, h.buffer, fun _ he' => (nomatch he'), hevent.symm, fun hfinal => ?_,
    h.last_final, h.received, h.received_le, h.lastSeq, h.lastPersisted, h.running, h.returned⟩
  have := h.final hfinal
  rw [State.saved, he, Option.isSome_some, if_pos rfl] at this
  show P.length ≤ s.appended + 1
  omega

theorem Inv.setFinal (h : Inv P s) (hsaved : s.unsaved = none) (hlast : s.appended + 1 = P.length) :
    Inv P { s with final := true } := by
  refine ⟨h.appended_le, h.buffer, h.unsaved, h.progress, fun _ => ?_, fun _ => rfl, h.received,
    h.received_le, h.lastSeq, h.lastPersisted, h.running, h.returned⟩
  show P.length ≤ s.saved + 1
  rw [State.saved, hsaved, Option.isSome_none, if_neg Bool.false_ne_true]
  exact Nat.le_of_eq hlast.symm

/-! ## The subscriber -/

/-- What the subscriber does next leaves the rest as it is. -/
theorem Inv.atPlace (h : Inv P s) (hplace : s.place ≠ .returned) {place : Place}
    (hplace' : place ≠ .returned) : Inv P { s with place := place } :=
  ⟨h.appended_le, fun _ => h.buffer hplace, h.unsaved, h.progress, h.final, h.last_final, h.received,
    h.received_le, fun _ => h.lastSeq hplace, fun _ => h.lastPersisted hplace,
    fun _ => h.running hplace, fun heq => absurd heq hplace'⟩

/-- The next event is delivered; the last one ends the stream. -/
theorem Inv.deliverNext (h : Inv P s) (hplace : s.place ≠ .returned) {e : Data}
    (hle : s.received.length < s.appended) (he : P.eventAt (s.received.length + 1) = some e) :
    let s' := { s.emit ⟨s.received.length + 1, e, s.received.length + 1 = P.length⟩ with
      lastPersisted := some e }
    if s.received.length + 1 = P.length then Inv P s'.gc else Inv P s' := by
  dsimp only
  have hreceived := P.prefix_append_record h.received he
  have hlength : (s.received ++ [(⟨s.received.length + 1, e,
      decide (s.received.length + 1 = P.length)⟩ : Record Data)]).length =
      s.received.length + 1 := by simp
  split
  next hlast =>
    exact ⟨h.appended_le, fun hne => absurd rfl hne, h.unsaved, h.progress, h.final, h.last_final,
      hreceived, Nat.le_trans (Nat.le_of_eq hlength) hle, fun hne => absurd rfl hne,
      fun hne => absurd rfl hne,
      fun hne => absurd rfl hne, fun _ => hlength.trans hlast⟩
  next hmore =>
    refine ⟨h.appended_le, h.buffer, h.unsaved, h.progress, h.final, h.last_final, hreceived,
      Nat.le_trans (Nat.le_of_eq hlength) hle, fun _ => hlength.symm, fun _ => ?_, fun _ => ?_, fun heq => absurd heq hplace⟩
    · dsimp only [State.emit]
      rw [hlength, he]
    · dsimp only [State.emit]
      rw [hlength]
      exact Nat.lt_of_le_of_ne (h.running hplace) hmore

theorem filter_take_records {n m : ℕ} (hm : m ≤ P.length) :
    (P.records.take m).filter (fun r => n < r.seq) = (P.records.take m).drop n := by
  induction m with
  | zero => simp
  | succ m ih =>
    obtain ⟨e, he⟩ := P.eventAt_lt hm
    have hlength : (P.records.take m).length = m := by
      rw [List.length_take, P.length_records]
      omega
    rw [P.take_records_succ he, List.filter_append, ih (by omega)]
    rcases Nat.lt_or_ge m n with hlt | hge
    · rw [List.drop_of_length_le (by simp; omega), List.drop_of_length_le (by simp; omega)]
      simp
      omega
    · rw [List.drop_append_of_le_length (by omega)]
      simp
      omega

/-- The records that are pending are delivered in turn, as far as the last event. -/
theorem Inv.deliver (k : ℕ) : ∀ {s : State Data}, Inv P s → s.place ≠ .returned →
    s.appended = s.received.length + k →
    Inv P (s.deliver ((P.records.take s.appended).drop s.received.length)) ∧
      (s.appended = P.length →
        (s.deliver ((P.records.take s.appended).drop s.received.length)).place = .returned) := by
  induction k with
  | zero =>
    intro s h hplace hk
    rw [List.drop_of_length_le (by simp; omega)]
    exact ⟨h.atPlace hplace (by decide), fun heq => absurd (h.running hplace) (by omega)⟩
  | succ k ih =>
    intro s h hplace hk
    obtain ⟨e, he⟩ := P.eventAt_lt (h.running hplace)
    have hcons : (P.records.take s.appended).drop s.received.length =
        ⟨s.received.length + 1, e, s.received.length + 1 = P.length⟩ ::
          (P.records.take s.appended).drop (s.received.length + 1) := by
      have hlt : s.received.length < (P.records.take s.appended).length := by
        rw [List.length_take, P.length_records]
        have := h.running hplace
        omega
      have hget := P.records_getElem? he
      rw [List.drop_eq_getElem_cons hlt, List.getElem_take]
      rw [List.getElem?_eq_some_iff] at hget
      rw [hget.2]
    have hnext := h.deliverNext hplace (by omega) he
    rw [hcons, State.deliver]
    dsimp only at hnext ⊢
    split
    next hlast =>
      rw [if_pos (of_decide_eq_true hlast)] at hnext
      exact ⟨hnext, fun _ => rfl⟩
    next hmore =>
      rw [if_neg fun heq => hmore (decide_eq_true heq)] at hnext
      have hrest := ih hnext hplace (by simp [State.emit]; omega)
      simpa [State.emit] using hrest

theorem Inv.faithful (h : Inv P s) : Faithful P s := by
  refine ⟨h.received.map Record.content, fun hplace => ?_⟩
  rw [Publication.published, h.received.eq_of_length
    ((h.returned hplace).trans P.length_records.symm)]

/-! ## The poll -/

variable [DecidableEq Data]

theorem unseen_eq_some {e : Data} : s.unseen P = some e ↔
    s.progress = some e ∧ e ≠ P.empty ∧ some e ≠ s.lastPersisted := by
  unfold State.unseen
  rw [Option.filter_eq_some_iff]
  simp

theorem unseen_eq_none (h : s.unseen P = none) :
    s.progress = none ∨ s.progress = some P.empty ∨ s.progress = s.lastPersisted := by
  cases hprogress : s.progress with
  | none => exact .inl rfl
  | some e =>
    right
    by_contra hne
    rw [not_or] at hne
    have := unseen_eq_some.mpr ⟨hprogress, fun heq => hne.1 (congrArg some heq), hne.2⟩
    rw [h] at this
    cases this

/-- **A sound poll** delivers the next event or nothing. -/
theorem Inv.pollRow (h : Inv P s) (hplace : s.place = .poll) (hsound : PollSound P s .poll) :
    Inv P (s.pollRow P) := by
  have hne : s.place ≠ .returned := by rw [hplace]; decide
  have hseq := h.lastSeq hne
  have hpersisted := h.lastPersisted hne
  dsimp only [PollSound] at hsound
  unfold State.pollRow
  by_cases hfinal : s.final = true
  · rw [if_pos hfinal] at hsound
    obtain ⟨hsaved, hlast, hevent⟩ := hsound
    obtain ⟨e, he⟩ := P.eventAt_lt (n := s.received.length) (by omega)
    have hprogress : s.progress = some e := by
      rw [h.progress, hsaved, ← hlast, he]
    have hunseen : s.unseen P = some e := by
      refine unseen_eq_some.mpr ⟨hprogress, fun heq => hevent ?_, fun heq => ?_⟩
      · rw [← hlast, he, heq]
      · have := P.eventAt_inj he (hpersisted.symm.trans heq.symm)
        omega
    have hnext := h.deliverNext hne (by have := saved_le s; omega) he
    dsimp only at hnext
    rw [if_pos hlast] at hnext
    rw [hunseen]
    dsimp only
    rw [if_pos hfinal, hseq, hfinal]
    rwa [decide_eq_true hlast] at hnext
  · rw [if_neg hfinal] at hsound
    split
    next e hunseen =>
      obtain ⟨hprogress, hempty, hnew⟩ := unseen_eq_some.mp hunseen
      rw [h.progress] at hprogress
      have hsaved : s.saved = s.received.length + 1 := by
        rcases hsound with hzero | hfalsy | hsame | hnext
        · rw [hzero] at hprogress
          cases hprogress
        · rw [hprogress] at hfalsy
          exact absurd (Option.some.inj hfalsy) hempty
        · rw [hsame, ← hpersisted] at hprogress
          exact absurd hprogress.symm hnew
        · exact hnext
      have hle := saved_le s
      have hmore : s.received.length + 1 ≠ P.length := fun heq => by
        have := h.appended_le
        exact hfinal (h.last_final (by omega))
      have hnext := h.deliverNext hne (by omega) (hsaved ▸ hprogress)
      dsimp only at hnext ⊢
      rw [if_neg hmore, decide_eq_false hmore] at hnext
      rw [if_neg hfinal, hseq, (Bool.not_eq_true _).mp hfinal]
      exact hnext.atPlace hne (by decide)
    next =>
      rw [if_neg hfinal]
      exact h.atPlace hne (by decide)

/-- A poll that is not sound delivers something else. -/
theorem pollSound_of_faithful (h : Inv P s) (hplace : s.place = .poll)
    (hfaithful : Faithful P (s.pollRow P)) : PollSound P s .poll := by
  have hne : s.place ≠ .returned := by rw [hplace]; decide
  have hpersisted := h.lastPersisted hne
  dsimp only [PollSound]
  unfold State.pollRow at hfaithful
  cases hunseen : s.unseen P with
  | some e =>
    rw [hunseen] at hfaithful
    obtain ⟨hprogress, hempty, -⟩ := unseen_eq_some.mp hunseen
    rw [h.progress] at hprogress
    have hprefix : (s.received ++ [(⟨s.lastSeq + 1, e, s.final⟩ : Record Data)]).map
        Record.content <+: P.published := by
      dsimp only at hfaithful
      split at hfaithful
      · exact hfaithful.1
      · exact hfaithful.1
    obtain ⟨hevent, hterminal⟩ := P.published_of_append hprefix
    have hsaved := P.eventAt_inj hprogress hevent
    split
    next hfinal =>
      have hlast : s.received.length + 1 = P.length :=
        of_decide_eq_true (hterminal.symm.trans hfinal)
      refine ⟨hsaved.trans hlast, hlast, fun heq => hempty ?_⟩
      rw [← hlast, hevent] at heq
      exact Option.some.inj heq
    · exact .inr (.inr (.inr hsaved))
  | none =>
    rw [hunseen] at hfaithful
    split
    next hfinal =>
      dsimp only at hfaithful
      rw [if_pos hfinal] at hfaithful
      obtain ⟨hevent, hterminal⟩ := P.published_of_append hfaithful.1
      rw [of_decide_eq_true hterminal.symm] at hevent
      exact absurd hevent P.eventAt_length_ne
    next =>
      have hle := Nat.le_trans (saved_le s) h.appended_le
      rcases unseen_eq_none hunseen with hnone | hempty | hsame
      · left
        by_contra hzero
        obtain ⟨n, hn⟩ := Nat.exists_eq_succ_of_ne_zero hzero
        obtain ⟨e, he⟩ := P.eventAt_lt (n := n) (by omega)
        rw [h.progress, hn, he] at hnone
        cases hnone
      · exact .inr (.inl (h.progress.symm.trans hempty))
      · rw [h.progress, hpersisted] at hsame
        cases hevent : P.eventAt s.saved with
        | none =>
          left
          by_contra hzero
          obtain ⟨n, hn⟩ := Nat.exists_eq_succ_of_ne_zero hzero
          obtain ⟨e, he⟩ := P.eventAt_lt (n := n) (by omega)
          rw [hn, he] at hevent
          cases hevent
        | some e =>
          exact .inr (.inr (.inl (P.eventAt_inj hevent (hsame.symm.trans hevent))))

/-! ## Runs -/

/-- **A step** keeps the invariant when its poll is sound. -/
theorem Inv.step (h : Inv P s) {a : Act} (hsound : PollSound P s a) (hs : step P s a = some s') :
    Inv P s' := by
  cases a with
  | append => exact h.append hs
  | persist =>
    obtain ⟨e, he, rfl⟩ := Option.map_eq_some_iff.mp hs
    exact h.persist he
  | setFinal =>
    obtain ⟨⟨hsaved, hlast, -⟩, hs⟩ := Option.ite_none_right_eq_some.mp hs
    obtain rfl := Option.some.inj hs
    exact h.setFinal (Option.isNone_iff_eq_none.mp hsaved) hlast
  | readRing =>
    obtain ⟨hplace, hs⟩ := Option.ite_none_right_eq_some.mp hs
    obtain rfl := Option.some.inj hs
    have hne : s.place ≠ .returned := by rw [hplace]; decide
    rw [h.buffer hne, h.lastSeq hne, filter_take_records h.appended_le]
    exact (h.deliver (s.appended - s.received.length) hne (by have := h.received_le; omega)).1
  | poll =>
    obtain ⟨hplace, hs⟩ := Option.ite_none_right_eq_some.mp hs
    obtain rfl := Option.some.inj hs
    exact h.pollRow hplace hsound
  | pollFails =>
    obtain ⟨hplace, hs⟩ := Option.ite_none_right_eq_some.mp hs
    obtain rfl := Option.some.inj hs
    exact h.atPlace (by rw [hplace]; decide) (by decide)

theorem pollSound_of_step (h : Inv P s) {a : Act} (hs : ProgressStream.step P s a = some s')
    (hfaithful : Faithful P s') : PollSound P s a := by
  cases a with
  | poll =>
    obtain ⟨hplace, hs⟩ := Option.ite_none_right_eq_some.mp hs
    obtain rfl := Option.some.inj hs
    exact pollSound_of_faithful h hplace hfaithful
  | _ => trivial

/-- **Every event once**: the stream is faithful in every state of a run exactly when
all its polls are sound, and then a read of the ring after the last event ends it
with everything that was published. -/
theorem faithful_iff_pollSound {acts : List Act} {t : State Data}
    (hrun : Runs.run (ProgressStream.step P) {} acts = some t) :
    ((∀ as, as <+: acts → ∀ u, Runs.run (ProgressStream.step P) {} as = some u → Faithful P u) ↔
      Runs.AllSteps (ProgressStream.step P) (PollSound P) {} acts) ∧
    (Runs.AllSteps (ProgressStream.step P) (PollSound P) {} acts → t.appended = P.length →
      ∀ u, ProgressStream.step P t .readRing = some u →
        u.place = .returned ∧ u.received.map Record.content = P.published) := by
  have hfaithful : ∀ s, Inv P s → Faithful P s := fun _ h => h.faithful
  refine ⟨Runs.forall_prefix_iff_allSteps_of_invariant hfaithful
    (fun _ _ _ h hsound hs => h.step hsound hs)
    (fun _ _ _ h hs hfaithful => pollSound_of_step h hs hfaithful) (Inv.start P) hrun, ?_⟩
  intro hsound hall u hu
  have h : Inv P t := Runs.run_invariant_of_allSteps (fun _ _ _ h hok hs => Inv.step h hok hs)
    (Inv.start P) hsound hrun
  have hnext := h.step (a := .readRing) trivial hu
  obtain ⟨hplace, hu⟩ := Option.ite_none_right_eq_some.mp hu
  obtain rfl := Option.some.inj hu
  have hne : t.place ≠ .returned := by rw [hplace]; decide
  rw [h.buffer hne, h.lastSeq hne, filter_take_records h.appended_le] at hnext ⊢
  have hreturned := (h.deliver (t.appended - t.received.length) hne
    (by have := h.received_le; omega)).2 hall
  exact ⟨hreturned, hnext.faithful.2 hreturned⟩

/-! ## A job of four events -/

/-- The events are 1 to 4; 0 is the empty snapshot and 5 the bare status. -/
def fourEvents : Publication ℕ where
  events := [1, 2, 3, 4]
  empty := 0
  statusOnly := 5
  nodup := by decide
  length_pos := by decide
  length_lt := by decide
  getLast?_ne := by decide

instance (s : State ℕ) : Decidable (Faithful fourEvents s) :=
  inferInstanceAs (Decidable (_ ∧ (_ → _)))

instance (s : State ℕ) : DecidablePred (PollSound fourEvents s)
  | .poll => inferInstanceAs (Decidable (if s.final = true then _ else _))
  | .append | .persist | .setFinal | .readRing | .pollFails => inferInstanceAs (Decidable True)

/-- The subscriber polls once the first event is saved, and then reads the others. -/
theorem faithful_iff_pollSound_fourEvents :
    ∃ t, Runs.run (step fourEvents) {} [.append, .readRing, .persist, .poll, .append, .persist,
        .append, .persist, .setFinal, .append] = some t ∧
      ∀ u, step fourEvents t .readRing = some u → u.place = .returned ∧
        u.received.map Record.content = [(1, false), (2, false), (3, false), (4, true)] := by
  obtain ⟨t, ht, hlength⟩ := Runs.exists_of_any (p := fun t => t.appended = fourEvents.length)
    (show (Runs.run (step fourEvents) {} [.append, .readRing, .persist, .poll, .append, .persist,
      .append, .persist, .setFinal, .append]).any _ = true by decide +kernel)
  exact ⟨t, ht, (faithful_iff_pollSound ht).2 (by decide +kernel) hlength⟩

/-- A poll between an append and its save delivers the event before once more, and
the number it makes up hides the third event. -/
theorem staleSnapshot_repeated :
    ∃ t, Runs.run (step fourEvents) {} [.append, .persist, .append, .readRing, .poll, .persist,
        .append, .persist, .setFinal, .append, .readRing] = some t ∧
      t.place = .returned ∧ ¬ Faithful fourEvents t ∧
      t.received.map Record.content = [(1, false), (2, false), (1, false), (4, true)] :=
  Runs.exists_of_any (show (Runs.run (step fourEvents) {} [.append, .persist, .append, .readRing,
    .poll, .persist, .append, .persist, .setFinal, .append, .readRing]).any _ = true by
      decide +kernel)

end AlgoTrade.ProgressStream
