import AlgoTrade.Lib.Runs
import AlgoTrade.Lib.Dict
import Mathlib.Logic.Function.Basic

/-! # The subscriptions of the websocket proxy

Clients of several users share one index of subscriptions; each user has a broker
adapter, whose calls succeed.

* `Server`: the mapping of clients to users, their subscriptions, the index, and
  what each adapter has been told.
* `releaseAll`: what the three ways out have in common, a client leaves the index
  and the last one in it tells the adapter.
* `agrees_iff_releasesSole`: adapters and clients agree in every state of a run
  exactly when no client that leaves is the last of its user while another user
  has the same subscription. -/

namespace AlgoTrade.Proxy

/-! ## The server -/

abbrev ClientId := ℕ

abbrev UserId := String

/-- A key of `subscription_index`. -/
structure SubKey where
  symbol : String
  exchange : String
  mode : ℕ
  deriving DecidableEq, Repr

/-- An element of `subscriptions[client_id]`. -/
structure Subscription where
  key : SubKey
  depthLevel : ℕ
  broker : String
  deriving DecidableEq, Repr

/-- `adapters` holds what each adapter has been told to subscribe, and not since to
unsubscribe. -/
structure Server where
  userMapping : Dict ClientId UserId := {}
  subscriptions : ClientId → List Subscription := fun _ => []
  subscriptionIndex : SubKey → List ClientId := fun _ => []
  adapters : UserId → Option (List SubKey) := fun _ => none

/-- The broker of each user, and whether its adapter stays connected without clients. -/
structure Brokers where
  brokerName : UserId → String
  hasUnsubscribeAll : UserId → Bool

def Brokers.keepsConnection (bs : Brokers) (user : UserId) : Bool :=
  (bs.brokerName user = "flattrade" ∨ bs.brokerName user = "shoonya") ∧ bs.hasUnsubscribeAll user

/-- `symbol` and `exchange` are given. -/
def SubKey.isGiven (key : SubKey) : Bool := key.symbol ≠ "" ∧ key.exchange ≠ ""

namespace Server

/-- A call to the user's adapter, when there is one. -/
def tell (s : Server) (user : UserId) (f : List SubKey → List SubKey) : Server :=
  { s with adapters := Function.update s.adapters user ((s.adapters user).map f) }

/-- `adapter.subscribe`. -/
def tellSubscribe (s : Server) (user : UserId) (key : SubKey) : Server := s.tell user (key :: ·)

/-- `adapter.unsubscribe`. -/
def tellUnsubscribe (s : Server) (user : UserId) (key : SubKey) : Server :=
  s.tell user (·.filter (· ≠ key))

/-! ## Coming in -/

/-- One symbol of a subscribe request. -/
def subscribeOne (bs : Brokers) (s : Server) (client : ClientId) (user : UserId) (depthLevel : ℕ)
    (key : SubKey) : Server :=
  if key.isGiven then
    let s := s.tellSubscribe user key
    { s with
      subscriptions := Function.update s.subscriptions client
        (List.insert ⟨key, depthLevel, bs.brokerName user⟩ (s.subscriptions client))
      subscriptionIndex := Function.update s.subscriptionIndex key
        (List.insert client (s.subscriptionIndex key)) }
  else s

/-- A client that authenticates: it is mapped to its user, who has an adapter. -/
def authenticateClient (s : Server) (client : ClientId) (user : UserId) : Server :=
  { s with
    userMapping := s.userMapping.set client user
    adapters := Function.update s.adapters user (some ((s.adapters user).getD [])) }

def subscribeClient (bs : Brokers) (s : Server) (client : ClientId) (depthLevel : ℕ)
    (symbols : List SubKey) : Server :=
  match s.userMapping.get? client with
  | none => s
  | some user =>
    if (s.adapters user).isNone then s
    else symbols.foldl (fun s key => s.subscribeOne bs client user depthLevel key) s

/-! ## Going out -/

/-- A client leaves a key of the index; when it was the last one in it, the user's
adapter is told. -/
def release (s : Server) (user : UserId) (client : ClientId) (key : SubKey) : Server :=
  let rest := (s.subscriptionIndex key).filter (· ≠ client)
  let s' := { s with subscriptionIndex := Function.update s.subscriptionIndex key rest }
  if s.subscriptionIndex key ≠ [] ∧ rest = [] then s'.tellUnsubscribe user key else s'

def releaseAll (s : Server) (user : UserId) (client : ClientId) (keys : List SubKey) : Server :=
  keys.foldl (fun s key => s.release user client key) s

/-- The stored subscriptions of a client that satisfy `p` stay. -/
def keep (s : Server) (client : ClientId) (p : Subscription → Bool) : Server :=
  { s with subscriptions :=
      Function.update s.subscriptions client ((s.subscriptions client).filter p) }

/-- `unsubscribe_client` with symbols. -/
def unsubscribeClient (s : Server) (client : ClientId) (symbols : List SubKey) : Server :=
  match s.userMapping.get? client with
  | none => s
  | some user =>
    if (s.adapters user).isNone then s
    else
      symbols.foldl (fun s key =>
        if key.isGiven then (s.release user client key).keep client (·.key ≠ key) else s) s

/-- `unsubscribe_client` with `unsubscribe_all`. -/
def unsubscribeAllClient (s : Server) (client : ClientId) : Server :=
  match s.userMapping.get? client with
  | none => s
  | some user =>
    if (s.adapters user).isNone then s
    else
      (s.releaseAll user client (((s.subscriptions client).map Subscription.key).filter
        SubKey.isGiven)).keep client fun _ => false

/-- No other client of the user is connected. -/
def isLastClient (s : Server) (client : ClientId) (user : UserId) : Bool :=
  ¬ ∃ e ∈ s.userMapping.entries, e.1 ≠ client ∧ e.2 = user

/-- `cleanup_client`. -/
def cleanupClient (bs : Brokers) (s : Server) (client : ClientId) : Server :=
  match s.userMapping.get? client with
  | none => s
  | some user =>
    let s' := (s.releaseAll user client ((s.subscriptions client).map Subscription.key)).keep client
      fun _ => false
    let s' :=
      if s.isLastClient client user then
        if bs.keepsConnection user then s'.tell user fun _ => []
        else { s' with adapters := Function.update s'.adapters user none }
      else s'
    { s' with userMapping := s'.userMapping.pop client }

end Server

/-! ## Steps -/

inductive Act
  | authenticate (client : ClientId) (user : UserId)
  | subscribe (client : ClientId) (depthLevel : ℕ) (symbols : List SubKey)
  | unsubscribe (client : ClientId) (symbols : List SubKey)
  | unsubscribeAll (client : ClientId)
  | disconnect (client : ClientId)
  deriving DecidableEq, Repr

/-- A client authenticates once. -/
def step (bs : Brokers) (s : Server) : Act → Option Server
  | .authenticate client user =>
    if (s.userMapping.get? client).isSome then none else some (s.authenticateClient client user)
  | .subscribe client depthLevel symbols => some (s.subscribeClient bs client depthLevel symbols)
  | .unsubscribe client symbols => some (s.unsubscribeClient client symbols)
  | .unsubscribeAll client => some (s.unsubscribeAllClient client)
  | .disconnect client => some (s.cleanupClient bs client)

/-! ## The law -/

namespace Server

/-- The user's adapter has been told to subscribe to the key. -/
def Told (s : Server) (user : UserId) (key : SubKey) : Prop := ∃ keys ∈ s.adapters user, key ∈ keys

def Subscribed (s : Server) (client : ClientId) (key : SubKey) : Prop :=
  key ∈ (s.subscriptions client).map Subscription.key

/-- A connected client of the user is subscribed to the key. -/
def Wanted (s : Server) (user : UserId) (key : SubKey) : Prop :=
  ∃ client, s.userMapping.get? client = some user ∧ s.Subscribed client key

/-- **Subscriptions follow the clients.** -/
def Agrees (s : Server) : Prop := ∀ user key, s.Told user key ↔ s.Wanted user key

/-- The client is the last of its user on the key while another user's client has it. -/
def LeavesOther (s : Server) (client : ClientId) (key : SubKey) : Prop :=
  s.Subscribed client key ∧
    (∀ other, other ≠ client → s.userMapping.get? other = s.userMapping.get? client →
      ¬ s.Subscribed other key) ∧
    ∃ other, other ≠ client ∧ s.Subscribed other key

end Server

def Act.client : Act → ClientId
  | .authenticate client _ => client
  | .subscribe client _ _ => client
  | .unsubscribe client _ => client
  | .unsubscribeAll client => client
  | .disconnect client => client

/-- What an act takes away from its client; with a user's last client everything
goes. -/
def releasedKeys (s : Server) : Act → List SubKey
  | .unsubscribe _ symbols => symbols
  | .unsubscribeAll client => (s.subscriptions client).map Subscription.key
  | .disconnect client =>
    if ∃ user ∈ s.userMapping.get? client, s.isLastClient client user then []
    else (s.subscriptions client).map Subscription.key
  | .authenticate _ _ | .subscribe _ _ _ => []

/-- No key that is released leaves another user behind. -/
def ReleasesSole (s : Server) (a : Act) : Prop :=
  ∀ key ∈ releasedKeys s a, ¬ s.LeavesOther a.client key

/-- The index lists the subscribers, who are mapped to users with adapters. -/
structure Inv (s : Server) : Prop where
  nodup : s.userMapping.keys.Nodup
  index : ∀ key client, client ∈ s.subscriptionIndex key ↔ s.Subscribed client key
  mapped : ∀ client key, s.Subscribed client key → ∃ user, s.userMapping.get? client = some user
  adapter : ∀ client user, s.userMapping.get? client = some user → (s.adapters user).isSome
  given : ∀ client key, s.Subscribed client key → key.isGiven = true
  agrees : s.Agrees

/-! ## Adapters -/

section
variable {s s' : Server} {user user' : UserId} {client client' : ClientId} {key key' : SubKey}
  {keys : List SubKey}

theorem told_tell {f : List SubKey → List SubKey} : (s.tell user f).Told user' key ↔
    if user' = user then ∃ keys ∈ s.adapters user, key ∈ f keys else s.Told user' key := by
  unfold Server.Told Server.tell
  dsimp only
  split
  next h =>
    rw [h, Function.update_self]
    simp
  next h => rw [Function.update_of_ne h]

theorem told_tellUnsubscribe : (s.tellUnsubscribe user key).Told user' key' ↔
    s.Told user' key' ∧ ¬ (user' = user ∧ key' = key) := by
  rw [Server.tellUnsubscribe, told_tell]
  split
  next h =>
    subst h
    simp only [List.mem_filter, true_and, decide_eq_true_eq]
    exact ⟨fun ⟨keys, hkeys, hmem, hne⟩ => ⟨⟨keys, hkeys, hmem⟩, hne⟩,
      fun ⟨⟨keys, hkeys, hmem⟩, hne⟩ => ⟨keys, hkeys, hmem, hne⟩⟩
  next h => simp [h]

theorem isSome_tell {f : List SubKey → List SubKey} :
    ((s.tell user f).adapters user').isSome = (s.adapters user').isSome := by
  show (Function.update s.adapters user ((s.adapters user).map f) user').isSome = _
  by_cases h : user' = user
  · subst h
    rw [Function.update_self, Option.isSome_map]
  · rw [Function.update_of_ne h]

/-! ## Going out -/

/-- Nobody else is in the index under the key. -/
def Sole (s : Server) (client : ClientId) (key : SubKey) : Prop :=
  s.subscriptionIndex key ≠ [] ∧ ∀ other ∈ s.subscriptionIndex key, other = client

/-- What releasing keys changes: the index, and what the adapter has been told. -/
structure Freed (s s' : Server) (user : UserId) (client : ClientId) (keys : List SubKey) :
    Prop where
  userMapping : s'.userMapping = s.userMapping
  subscriptions : s'.subscriptions = s.subscriptions
  index : ∀ key, s'.subscriptionIndex key =
    if key ∈ keys then (s.subscriptionIndex key).filter (· ≠ client) else s.subscriptionIndex key
  adapter : ∀ user, (s'.adapters user).isSome = (s.adapters user).isSome
  told : ∀ user' key, s'.Told user' key ↔
    s.Told user' key ∧ ¬ (user' = user ∧ key ∈ keys ∧ Sole s client key)

theorem release_freed (s : Server) (user : UserId) (client : ClientId) (key : SubKey) :
    Freed s (s.release user client key) user client [key] := by
  have hsole : (s.subscriptionIndex key ≠ [] ∧
      (s.subscriptionIndex key).filter (· ≠ client) = []) ↔ Sole s client key := by
    unfold Sole
    rw [List.filter_eq_nil_iff]
    simp
  have hindex : ∀ key', Function.update s.subscriptionIndex key
      ((s.subscriptionIndex key).filter (· ≠ client)) key' =
      if key' ∈ [key] then (s.subscriptionIndex key').filter (· ≠ client)
      else s.subscriptionIndex key' := by
    intro key'
    rw [Function.update_apply]
    by_cases h : key' = key
    · simp [h]
    · simp [h]
  unfold Server.release
  dsimp only
  split
  next h =>
    refine ⟨rfl, rfl, hindex, fun _ => isSome_tell, fun user' key' => ?_⟩
    rw [told_tellUnsubscribe, List.mem_singleton]
    have hkey : key' = key → Sole s client key' := fun heq => heq ▸ hsole.mp h
    exact and_congr_right fun _ => not_congr
      ⟨fun hand => ⟨hand.1, hand.2, hkey hand.2⟩, fun hand => ⟨hand.1, hand.2.1⟩⟩
  next h =>
    refine ⟨rfl, rfl, hindex, fun _ => rfl, fun user' key' => ?_⟩
    rw [List.mem_singleton]
    refine (and_iff_left ?_).symm
    rintro ⟨-, rfl, hsole'⟩
    exact h (hsole.mpr hsole')

theorem releaseAll_freed (s : Server) (user : UserId) (client : ClientId) (keys : List SubKey) :
    Freed s (s.releaseAll user client keys) user client keys := by
  induction keys generalizing s with
  | nil => exact ⟨rfl, rfl, fun _ => rfl, fun _ => rfl, fun _ _ => by simp [Server.releaseAll]⟩
  | cons key keys ih =>
    have hfirst := release_freed s user client key
    have hrest := ih (s.release user client key)
    refine ⟨hrest.userMapping.trans hfirst.userMapping,
      hrest.subscriptions.trans hfirst.subscriptions, fun key' => ?_,
      fun user' => (hrest.adapter user').trans (hfirst.adapter user'), fun user' key' => ?_⟩
    · refine (hrest.index key').trans ?_
      rw [hfirst.index key']
      by_cases hhead : key' = key
      · subst hhead
        simp [List.filter_filter]
      · simp [hhead]
    · refine (hrest.told user' key').trans ?_
      rw [hfirst.told user' key']
      have hsole : key' ≠ key → (Sole (s.release user client key) client key' ↔
          Sole s client key') := fun hne => by
        unfold Sole
        rw [hfirst.index key', if_neg (by simpa using hne)]
      have hnot : ¬ Sole (s.release user client key) client key := by
        rintro ⟨hne, hall⟩
        rw [hfirst.index key, if_pos (by simp)] at hne hall
        obtain ⟨other, hother⟩ := List.exists_mem_of_ne_nil _ hne
        exact of_decide_eq_true (List.mem_filter.mp hother).2 (hall other hother)
      by_cases hhead : key' = key
      · subst hhead
        simp [hnot]
      · simp [hhead, hsole hhead]

theorem subscribed_keep {p : Subscription → Bool} : (s.keep client p).Subscribed client' key ↔
    if client' = client then ∃ sub ∈ s.subscriptions client, p sub ∧ sub.key = key
    else s.Subscribed client' key := by
  unfold Server.Subscribed Server.keep
  dsimp only
  split
  next h =>
    rw [h, Function.update_self]
    simp [and_assoc]
  next h => rw [Function.update_of_ne h]

/-- A client has left keys: they are gone from its subscriptions as well. -/
structure Left (s s' : Server) (user : UserId) (client : ClientId) (keys : List SubKey) :
    Prop where
  userMapping : s'.userMapping = s.userMapping
  subscribed : ∀ client' key, s'.Subscribed client' key ↔
    s.Subscribed client' key ∧ ¬ (client' = client ∧ key ∈ keys)
  index : ∀ key, s'.subscriptionIndex key =
    if key ∈ keys then (s.subscriptionIndex key).filter (· ≠ client) else s.subscriptionIndex key
  adapter : ∀ user, (s'.adapters user).isSome = (s.adapters user).isSome
  told : ∀ user' key, s'.Told user' key ↔
    s.Told user' key ∧ ¬ (user' = user ∧ key ∈ keys ∧ Sole s client key)

theorem Freed.left (h : Freed s s' user client keys) {p : Subscription → Bool}
    (hp : ∀ sub ∈ s.subscriptions client, p sub = true ↔ sub.key ∉ keys) :
    Left s (s'.keep client p) user client keys := by
  refine ⟨h.userMapping, fun client' key => ?_, h.index, h.adapter, h.told⟩
  rw [subscribed_keep, Server.Subscribed, Server.Subscribed, h.subscriptions]
  split
  next heq =>
    subst heq
    simp only [List.mem_map, true_and]
    constructor
    · rintro ⟨sub, hsub, hkept, rfl⟩
      exact ⟨⟨sub, hsub, rfl⟩, (hp sub hsub).mp hkept⟩
    · rintro ⟨⟨sub, hsub, rfl⟩, hout⟩
      exact ⟨sub, hsub, (hp sub hsub).mpr hout, rfl⟩
  next hne => simp [hne]

theorem keep_keep (p q : Subscription → Bool) :
    (s.keep client p).keep client q = s.keep client fun sub => p sub && q sub := by
  unfold Server.keep
  dsimp only
  rw [Function.update_self, Function.update_idem, List.filter_filter]
  congr 2
  refine List.filter_congr fun sub _ => ?_
  rw [Bool.and_comm]

theorem release_keep (p : Subscription → Bool) :
    (s.keep client p).release user client key = (s.release user client key).keep client p := by
  unfold Server.release Server.keep
  dsimp only
  split
  · rfl
  · rfl

theorem releaseAll_keep (p : Subscription → Bool) : (s.keep client p).releaseAll user client keys =
    (s.releaseAll user client keys).keep client p := by
  induction keys generalizing s with
  | nil => rfl
  | cons key keys ih =>
    show ((s.keep client p).release user client key).releaseAll user client keys = _
    rw [release_keep, ih]
    rfl

/-- Leaving symbol by symbol is leaving the given ones together. -/
theorem foldl_release : keys.foldl (fun s key =>
      if key.isGiven then (s.release user client key).keep client (·.key ≠ key) else s) s =
    (s.releaseAll user client (keys.filter SubKey.isGiven)).keep client
      fun sub => sub.key ∉ keys.filter SubKey.isGiven := by
  induction keys generalizing s with
  | nil =>
    unfold Server.keep Server.releaseAll
    simp
  | cons key keys ih =>
    rw [List.foldl_cons, ih]
    by_cases hgiven : key.isGiven
    · rw [if_pos hgiven, List.filter_cons_of_pos hgiven, releaseAll_keep, keep_keep]
      show (Server.releaseAll _ _ _ _).keep _ _ = (Server.releaseAll _ _ _ _).keep _ _
      congr 1
      funext sub
      simp
    · rw [if_neg hgiven, List.filter_cons_of_neg hgiven]

theorem Inv.sole_iff (h : Inv s) : Sole s client key ↔
    (∃ other, s.Subscribed other key) ∧ ∀ other, s.Subscribed other key → other = client := by
  unfold Sole
  constructor
  · rintro ⟨hne, hall⟩
    obtain ⟨other, hother⟩ := List.exists_mem_of_ne_nil _ hne
    exact ⟨⟨other, (h.index key other).mp hother⟩,
      fun other hother => hall other ((h.index key other).mpr hother)⟩
  · rintro ⟨⟨other, hother⟩, hall⟩
    exact ⟨List.ne_nil_of_mem ((h.index key other).mpr hother),
      fun other hother => hall other ((h.index key other).mp hother)⟩

theorem Left.index_iff (hleft : Left s s' user client keys) (h : Inv s) :
    client' ∈ s'.subscriptionIndex key ↔ s'.Subscribed client' key := by
  rw [hleft.index, hleft.subscribed, ← h.index]
  split
  next hmem => simp [hmem]
  next hmem => simp [hmem]

/-- **Leaving** keeps the agreement when no other user is left behind. -/
theorem Left.inv (hleft : Left s s' user client keys) (h : Inv s)
    (hclient : s.userMapping.get? client = some user)
    (hsole : ∀ key ∈ keys, ¬ s.LeavesOther client key) : Inv s' := by
  refine ⟨hleft.userMapping ▸ h.nodup, fun key client' => hleft.index_iff h, ?_, ?_, ?_, ?_⟩
  · intro client' key hsubscribed
    rw [hleft.userMapping]
    exact h.mapped client' key ((hleft.subscribed ..).mp hsubscribed).1
  · intro client' user' hmapped
    rw [hleft.userMapping] at hmapped
    rw [hleft.adapter]
    exact h.adapter client' user' hmapped
  · exact fun client' key hsubscribed =>
      h.given client' key ((hleft.subscribed ..).mp hsubscribed).1
  · intro user' key
    rw [hleft.told, h.agrees user' key]
    unfold Server.Wanted
    rw [hleft.userMapping]
    simp only [hleft.subscribed]
    constructor
    · rintro ⟨⟨client', hmapped, hsubscribed⟩, hnot⟩
      by_cases hout : client' = client ∧ key ∈ keys
      · obtain ⟨rfl, hkey⟩ := hout
        rw [hclient] at hmapped
        obtain rfl := Option.some.inj hmapped
        -- the last of its user would be alone under the key
        by_contra hnone
        refine hsole key hkey ⟨hsubscribed, fun other hne hsame hother => hnone
          ⟨other, hsame.trans hclient, hother, fun hand => hne hand.1⟩, ?_⟩
        by_contra hothers
        refine hnot ⟨rfl, hkey, h.sole_iff.mpr ⟨⟨client', hsubscribed⟩, fun other hother => ?_⟩⟩
        by_contra hne
        exact hothers ⟨other, hne, hother⟩
      · exact ⟨client', hmapped, hsubscribed, hout⟩
    · rintro ⟨client', hmapped, hsubscribed, hout⟩
      refine ⟨⟨client', hmapped, hsubscribed⟩, fun ⟨_, hkey, hsole'⟩ => hout ⟨?_, hkey⟩⟩
      exact (h.sole_iff.mp hsole').2 client' hsubscribed

/-- A client that leaves another user behind leaves its own adapter subscribed. -/
theorem Left.releasesSole (hleft : Left s s' user client keys) (h : Inv s)
    (hclient : s.userMapping.get? client = some user) (hagrees : s'.Agrees) :
    ∀ key ∈ keys, ¬ s.LeavesOther client key := by
  rintro key hkey ⟨hsubscribed, hnone, other, hne, hother⟩
  have htold : s'.Told user key := by
    rw [hleft.told]
    refine ⟨(h.agrees user key).mpr ⟨client, hclient, hsubscribed⟩, fun ⟨_, _, hsole⟩ => ?_⟩
    exact hne ((h.sole_iff.mp hsole).2 other hother)
  obtain ⟨client', hmapped, hsubscribed'⟩ := (hagrees user key).mp htold
  rw [hleft.userMapping] at hmapped
  obtain ⟨hbefore, hout⟩ := (hleft.subscribed ..).mp hsubscribed'
  exact hnone client' (fun heq => hout ⟨heq, hkey⟩) (hmapped.trans hclient.symm) hbefore

/-! ## Disconnecting -/

theorem isLastClient_iff (h : Inv s) : s.isLastClient client user = true ↔
    ∀ other, other ≠ client → s.userMapping.get? other ≠ some user := by
  unfold Server.isLastClient
  rw [decide_eq_true_eq]
  constructor
  · intro hnone other hne hother
    exact hnone ⟨(other, user), Dict.mem_entries_of_get? hother, hne, rfl⟩
  · rintro hall ⟨e, he, hne, rfl⟩
    exact hall e.1 hne (Dict.get?_of_mem h.nodup he)

/-- A client without subscriptions can be forgotten. -/
theorem Inv.pop (h : Inv s) (hnone : ∀ key, ¬ s.Subscribed client key) :
    Inv { s with userMapping := s.userMapping.pop client } := by
  refine ⟨Dict.nodup_keys_pop h.nodup client, h.index, fun other key hsubscribed => ?_,
    fun other user hmapped => ?_, h.given, fun user key => ?_⟩
  · obtain ⟨user, huser⟩ := h.mapped other key hsubscribed
    have hne : other ≠ client := fun heq => hnone key (heq ▸ hsubscribed)
    exact ⟨user, by rw [Dict.get?_pop, if_neg hne.symm, huser]⟩
  · rw [Dict.get?_pop] at hmapped
    split at hmapped
    · cases hmapped
    · exact h.adapter other user hmapped
  · refine (h.agrees user key).trans ⟨fun ⟨other, hmapped, hsubscribed⟩ => ?_,
      fun ⟨other, hmapped, hsubscribed⟩ => ?_⟩
    · have hne : other ≠ client := fun heq => hnone key (heq ▸ hsubscribed)
      exact ⟨other, by rw [Dict.get?_pop, if_neg hne.symm, hmapped], hsubscribed⟩
    · rw [Dict.get?_pop] at hmapped
      split at hmapped
      · cases hmapped
      · exact ⟨other, hmapped, hsubscribed⟩

/-- The user's last client takes the adapter's subscriptions with it. -/
theorem Left.inv_last (hleft : Left s s' user client keys) (h : Inv s)
    (hclient : s.userMapping.get? client = some user)
    (hlast : ∀ other, other ≠ client → s.userMapping.get? other ≠ some user)
    (hnone : ∀ key, ¬ s'.Subscribed client key) {adapter : Option (List SubKey)}
    (hadapter : ∀ keys ∈ adapter, keys = []) :
    Inv { s' with
      userMapping := s'.userMapping.pop client
      adapters := Function.update s'.adapters user adapter } := by
  have hget : ∀ other user', (s'.userMapping.pop client).get? other = some user' ↔
      other ≠ client ∧ s.userMapping.get? other = some user' := fun other user' => by
    rw [Dict.get?_pop, hleft.userMapping]
    split
    next heq => simp [heq]
    next hne => simp [Ne.symm hne]
  have hother : ∀ other user', other ≠ client → s.userMapping.get? other = some user' →
      user' ≠ user := fun other user' hne hmapped heq => hlast other hne (heq ▸ hmapped)
  refine ⟨?_, fun key client' => hleft.index_iff h, fun other key hsubscribed => ?_,
    fun other user' hmapped => ?_, fun other key hsubscribed => ?_, fun user' key => ?_⟩
  · refine Dict.nodup_keys_pop ?_ client
    rw [hleft.userMapping]
    exact h.nodup
  · obtain ⟨user', huser'⟩ := h.mapped other key ((hleft.subscribed ..).mp hsubscribed).1
    exact ⟨user', (hget ..).mpr ⟨fun heq => hnone key (heq ▸ hsubscribed), huser'⟩⟩
  · obtain ⟨hne, hmapped⟩ := (hget ..).mp hmapped
    show (Function.update s'.adapters user adapter user').isSome
    rw [Function.update_of_ne (hother other user' hne hmapped), hleft.adapter]
    exact h.adapter other user' hmapped
  · exact h.given other key ((hleft.subscribed ..).mp hsubscribed).1
  · by_cases heq : user' = user
    · subst heq
      constructor
      · rintro ⟨keys, hkeys, hmem⟩
        have hadapter' : Function.update s'.adapters user' adapter user' = some keys := hkeys
        rw [Function.update_self] at hadapter'
        rw [hadapter keys hadapter'] at hmem
        cases hmem
      · rintro ⟨other, hmapped, -⟩
        obtain ⟨hne, hmapped⟩ := (hget ..).mp hmapped
        exact absurd hmapped (hlast other hne)
    · have htold : Server.Told { s' with
          userMapping := s'.userMapping.pop client
          adapters := Function.update s'.adapters user adapter } user' key ↔ s.Told user' key := by
        refine Iff.trans ?_ ((hleft.told user' key).trans (and_iff_left fun hand => heq hand.1))
        unfold Server.Told
        dsimp only
        rw [Function.update_of_ne heq]
      refine htold.trans ((h.agrees user' key).trans ⟨fun ⟨other, hmapped, hsubscribed⟩ => ?_,
        fun ⟨other, hmapped, hsubscribed⟩ => ?_⟩)
      · have hne : other ≠ client := fun hcase => by
          rw [hcase, hclient] at hmapped
          exact heq (Option.some.inj hmapped).symm
        exact ⟨other, (hget ..).mpr ⟨hne, hmapped⟩,
          (hleft.subscribed ..).mpr ⟨hsubscribed, fun hand => hne hand.1⟩⟩
      · exact ⟨other, ((hget ..).mp hmapped).2, ((hleft.subscribed ..).mp hsubscribed).1⟩

/-! ## Coming in -/

theorem Inv.subscribeOne {bs : Brokers} {depthLevel : ℕ} (h : Inv s)
    (hclient : s.userMapping.get? client = some user) :
    Inv (s.subscribeOne bs client user depthLevel key) ∧
      (s.subscribeOne bs client user depthLevel key).userMapping = s.userMapping := by
  unfold Server.subscribeOne
  split
  next hgiven =>
    refine ⟨?_, rfl⟩
    dsimp only
    generalize hs' : Server.mk _ _ _ _ = s'
    have hmapping : s'.userMapping = s.userMapping := by rw [← hs']; rfl
    have hsubscribed : ∀ client' key', s'.Subscribed client' key' ↔
        s.Subscribed client' key' ∨ (client' = client ∧ key' = key) := by
      intro client' key'
      rw [← hs']
      unfold Server.Subscribed
      dsimp only [Server.tellSubscribe, Server.tell]
      by_cases heq : client' = client
      · subst heq
        rw [Function.update_self]
        simp only [List.mem_map, List.mem_insert_iff, true_and]
        constructor
        · rintro ⟨sub, rfl | hsub, rfl⟩
          · exact .inr rfl
          · exact .inl ⟨sub, hsub, rfl⟩
        · rintro (⟨sub, hsub, rfl⟩ | rfl)
          · exact ⟨sub, .inr hsub, rfl⟩
          · exact ⟨_, .inl rfl, rfl⟩
      · rw [Function.update_of_ne heq]
        simp [heq]
    have hindex : ∀ client' key', client' ∈ s'.subscriptionIndex key' ↔
        client' ∈ s.subscriptionIndex key' ∨ (client' = client ∧ key' = key) := by
      intro client' key'
      rw [← hs']
      dsimp only [Server.tellSubscribe, Server.tell]
      by_cases heq : key' = key
      · subst heq
        rw [Function.update_self, List.mem_insert_iff]
        simp [or_comm]
      · rw [Function.update_of_ne heq]
        simp [heq]
    have hadapters : s'.adapters = (s.tellSubscribe user key).adapters := by rw [← hs']
    have htold : ∀ user' key', s'.Told user' key' ↔
        s.Told user' key' ∨ (user' = user ∧ key' = key) := by
      intro user' key'
      have htell : s'.Told user' key' ↔ (s.tellSubscribe user key).Told user' key' := by
        rw [Server.Told, Server.Told, hadapters]
      rw [htell, Server.tellSubscribe, told_tell]
      split
      next heq =>
        subst heq
        obtain ⟨keys, hkeys⟩ := Option.isSome_iff_exists.mp (h.adapter client user' hclient)
        simp [Server.Told, hkeys, or_comm]
      next hne => simp [hne]
    refine ⟨hmapping ▸ h.nodup, fun key' client' => ?_, fun client' key' hsub => ?_,
      fun client' user' hmapped => ?_, fun client' key' hsub => ?_, fun user' key' => ?_⟩
    · rw [hindex, hsubscribed, h.index]
    · rw [hmapping]
      rcases (hsubscribed ..).mp hsub with hsub | ⟨rfl, rfl⟩
      · exact h.mapped client' key' hsub
      · exact ⟨user, hclient⟩
    · rw [hmapping] at hmapped
      rw [hadapters, Server.tellSubscribe, isSome_tell]
      exact h.adapter client' user' hmapped
    · rcases (hsubscribed ..).mp hsub with hsub | ⟨rfl, rfl⟩
      · exact h.given client' key' hsub
      · exact hgiven
    · rw [htold, h.agrees user' key', Server.Wanted, Server.Wanted, hmapping]
      simp only [hsubscribed]
      constructor
      · rintro (⟨client', hmapped, hsub⟩ | ⟨rfl, rfl⟩)
        · exact ⟨client', hmapped, .inl hsub⟩
        · exact ⟨client, hclient, .inr ⟨rfl, rfl⟩⟩
      · rintro ⟨client', hmapped, hsub | ⟨rfl, rfl⟩⟩
        · exact .inl ⟨client', hmapped, hsub⟩
        · rw [hclient] at hmapped
          exact .inr ⟨(Option.some.inj hmapped).symm, rfl⟩
  next => exact ⟨h, rfl⟩

theorem Inv.subscribeAll {bs : Brokers} {depthLevel : ℕ} (h : Inv s)
    (hclient : s.userMapping.get? client = some user) :
    Inv (keys.foldl (fun s key => s.subscribeOne bs client user depthLevel key) s) := by
  induction keys generalizing s with
  | nil => exact h
  | cons key keys ih =>
    obtain ⟨hnext, hmapping⟩ : Inv (s.subscribeOne bs client user depthLevel key) ∧ _ :=
      h.subscribeOne hclient
    exact ih hnext (hmapping ▸ hclient)

theorem Inv.authenticate (h : Inv s) (hclient : s.userMapping.get? client = none) :
    Inv (s.authenticateClient client user) := by
  have hget : ∀ other user', (s.userMapping.set client user).get? other = some user' ↔
      (other = client ∧ user' = user) ∨ s.userMapping.get? other = some user' := by
    intro other user'
    rw [Dict.get?_set]
    split
    next heq =>
      subst heq
      simp [hclient, eq_comm]
    next hne => simp [Ne.symm hne]
  have hnone : ∀ key, ¬ s.Subscribed client key := fun key hsubscribed => by
    obtain ⟨user', huser'⟩ := h.mapped client key hsubscribed
    rw [hclient] at huser'
    cases huser'
  have hadapter : ∀ user', Server.adapters (s.authenticateClient client user) user' =
      if user' = user then some ((s.adapters user).getD []) else s.adapters user' :=
    fun user' => Function.update_apply ..
  have htold : ∀ user' key, (s.authenticateClient client user).Told user' key ↔
      s.Told user' key := by
    intro user' key
    unfold Server.Told
    rw [hadapter]
    split
    next heq =>
      subst heq
      cases s.adapters user' with
      | none => simp
      | some keys => simp
    next => rfl
  refine ⟨Dict.nodup_keys_set h.nodup client user, h.index, fun other key hsubscribed => ?_,
    fun other user' hmapped => ?_, h.given, fun user' key => ?_⟩
  · obtain ⟨user', huser'⟩ := h.mapped other key hsubscribed
    exact ⟨user', (hget ..).mpr (.inr huser')⟩
  · rw [hadapter]
    split
    · rfl
    next hne =>
      rcases (hget ..).mp hmapped with ⟨-, heq⟩ | hmapped
      · exact absurd heq hne
      · exact h.adapter other user' hmapped
  · rw [htold, h.agrees user' key]
    constructor
    · rintro ⟨other, hmapped, hsubscribed⟩
      exact ⟨other, (hget ..).mpr (.inr hmapped), hsubscribed⟩
    · rintro ⟨other, hmapped, hsubscribed⟩
      rcases (hget ..).mp hmapped with ⟨rfl, -⟩ | hmapped
      · exact absurd hsubscribed (hnone key)
      · exact ⟨other, hmapped, hsubscribed⟩

end

/-! ## Steps -/

section
variable {bs : Brokers} {s s' : Server} {user : UserId} {client : ClientId} {keys : List SubKey}

theorem Inv.not_leavesOther (h : Inv s) (hclient : s.userMapping.get? client = none)
    (key : SubKey) : ¬ s.LeavesOther client key := fun hleaves => by
  obtain ⟨user, huser⟩ := h.mapped client key hleaves.1
  rw [hclient] at huser
  cases huser

theorem Inv.unsubscribe (h : Inv s) :
    ((∀ key ∈ keys, ¬ s.LeavesOther client key) → Inv (s.unsubscribeClient client keys)) ∧
      ((s.unsubscribeClient client keys).Agrees → ∀ key ∈ keys, ¬ s.LeavesOther client key) := by
  unfold Server.unsubscribeClient
  cases hclient : s.userMapping.get? client with
  | none => exact ⟨fun _ => h, fun _ key _ => h.not_leavesOther hclient key⟩
  | some user =>
    have hadapter := h.adapter client user hclient
    dsimp only
    rw [if_neg (by simpa using Option.isSome_iff_ne_none.mp hadapter), foldl_release]
    have hleft := (releaseAll_freed s user client (keys.filter SubKey.isGiven)).left
      (p := fun sub => sub.key ∉ keys.filter SubKey.isGiven) fun sub _ => decide_eq_true_iff
    refine ⟨fun hsole => hleft.inv h hclient fun key hkey => hsole key (List.mem_of_mem_filter hkey),
      fun hagrees key hkey hleaves => hleft.releasesSole h hclient hagrees key ?_ hleaves⟩
    exact List.mem_filter.mpr ⟨hkey, h.given client key hleaves.1⟩

theorem Inv.unsubscribeAll (h : Inv s) :
    ((∀ key ∈ (s.subscriptions client).map Subscription.key, ¬ s.LeavesOther client key) →
        Inv (s.unsubscribeAllClient client)) ∧
      ((s.unsubscribeAllClient client).Agrees →
        ∀ key ∈ (s.subscriptions client).map Subscription.key, ¬ s.LeavesOther client key) := by
  unfold Server.unsubscribeAllClient
  cases hclient : s.userMapping.get? client with
  | none => exact ⟨fun _ => h, fun _ key _ => h.not_leavesOther hclient key⟩
  | some user =>
    have hadapter := h.adapter client user hclient
    have hgiven : ((s.subscriptions client).map Subscription.key).filter SubKey.isGiven =
        (s.subscriptions client).map Subscription.key :=
      List.filter_eq_self.mpr fun key hkey => h.given client key hkey
    dsimp only
    rw [if_neg (by simpa using Option.isSome_iff_ne_none.mp hadapter), hgiven]
    have hleft := (releaseAll_freed s user client ((s.subscriptions client).map
      Subscription.key)).left (p := fun _ => false) fun sub hsub =>
        ⟨fun hfalse => absurd hfalse Bool.false_ne_true,
          fun hout => absurd (List.mem_map_of_mem hsub) hout⟩
    exact ⟨fun hsole => hleft.inv h hclient hsole,
      fun hagrees => hleft.releasesSole h hclient hagrees⟩

theorem Inv.disconnect (h : Inv s) :
    (ReleasesSole s (.disconnect client) → Inv (s.cleanupClient bs client)) ∧
      ((s.cleanupClient bs client).Agrees → ReleasesSole s (.disconnect client)) := by
  unfold Server.cleanupClient ReleasesSole
  dsimp only [releasedKeys, Act.client]
  cases hclient : s.userMapping.get? client with
  | none => exact ⟨fun _ => h, fun _ key _ => h.not_leavesOther hclient key⟩
  | some user =>
    have hleft := (releaseAll_freed s user client ((s.subscriptions client).map
      Subscription.key)).left (p := fun _ => false) fun sub hsub =>
        ⟨fun hfalse => absurd hfalse Bool.false_ne_true,
          fun hout => absurd (List.mem_map_of_mem hsub) hout⟩
    dsimp only
    generalize ((s.releaseAll user client ((s.subscriptions client).map Subscription.key)).keep
      client fun _ => false) = t at hleft ⊢
    have hnone : ∀ key, ¬ t.Subscribed client key := fun key hsubscribed =>
      ((hleft.subscribed ..).mp hsubscribed).2 ⟨rfl, ((hleft.subscribed ..).mp hsubscribed).1⟩
    by_cases hlast : s.isLastClient client user
    · have hothers := (isLastClient_iff h).mp hlast
      rw [if_pos ⟨user, rfl, hlast⟩, if_pos hlast]
      refine ⟨fun _ => ?_, fun _ key hkey => by cases hkey⟩
      split
      · refine hleft.inv_last h hclient hothers hnone fun keys hkeys => ?_
        obtain ⟨_, -, rfl⟩ := Option.map_eq_some_iff.mp hkeys
        rfl
      · exact hleft.inv_last h hclient hothers hnone fun keys hkeys => by cases hkeys
    · have hmore : ¬ ∃ user' ∈ some user, s.isLastClient client user' := by
        rintro ⟨user', huser', hlast'⟩
        obtain rfl := Option.some.inj huser'
        exact hlast hlast'
      rw [if_neg hmore, if_neg hlast]
      refine ⟨fun hsole => (hleft.inv h hclient hsole).pop hnone, fun hagrees => ?_⟩
      refine hleft.releasesSole h hclient fun user' key => (hagrees user' key).trans ?_
      constructor
      · rintro ⟨other, hmapped, hsubscribed⟩
        rw [Dict.get?_pop] at hmapped
        split at hmapped
        · cases hmapped
        · exact ⟨other, hmapped, hsubscribed⟩
      · rintro ⟨other, hmapped, hsubscribed⟩
        have hne : other ≠ client := fun heq => hnone key (heq ▸ hsubscribed)
        exact ⟨other, by rw [Dict.get?_pop, if_neg hne.symm, hmapped], hsubscribed⟩

/-- **A step** keeps the agreement exactly when it leaves no other user behind. -/
theorem Inv.step {a : Act} (h : Inv s) (hs : step bs s a = some s') :
    (ReleasesSole s a → Inv s') ∧ (s'.Agrees → ReleasesSole s a) := by
  cases a with
  | authenticate client user =>
    unfold Proxy.step at hs
    dsimp only at hs
    split at hs
    · cases hs
    next hclient =>
      obtain rfl := Option.some.inj hs
      refine ⟨fun _ => h.authenticate ?_, fun _ key hkey => by cases hkey⟩
      exact Option.not_isSome_iff_eq_none.mp hclient
  | subscribe client depthLevel symbols =>
    obtain rfl := Option.some.inj hs
    refine ⟨fun _ => ?_, fun _ key hkey => by cases hkey⟩
    unfold Server.subscribeClient
    split
    · exact h
    next user hclient =>
      split
      · exact h
      · exact h.subscribeAll hclient
  | unsubscribe client symbols =>
    obtain rfl := Option.some.inj hs
    exact h.unsubscribe
  | unsubscribeAll client =>
    obtain rfl := Option.some.inj hs
    exact h.unsubscribeAll
  | disconnect client =>
    obtain rfl := Option.some.inj hs
    exact h.disconnect

theorem Inv.start : Inv {} where
  nodup := List.nodup_nil
  index _ _ := ⟨fun h => (nomatch h), fun h => (nomatch h)⟩
  mapped _ _ h := nomatch h
  adapter _ _ h := nomatch h
  given _ _ h := nomatch h
  agrees _ _ := ⟨fun ⟨_, h, _⟩ => (nomatch h), fun ⟨_, h, _⟩ => (nomatch h)⟩

/-- **Adapters follow the clients** in every state of a run exactly when no client
leaves a key as the last of its user while another user's client has it. -/
theorem agrees_iff_releasesSole {acts : List Act} {t : Server}
    (hrun : Runs.run (Proxy.step bs) {} acts = some t) :
    (∀ as, as <+: acts → ∀ u, Runs.run (Proxy.step bs) {} as = some u → u.Agrees) ↔
      Runs.AllSteps (Proxy.step bs) ReleasesSole {} acts :=
  have hagrees : ∀ s, Inv s → s.Agrees := fun _ h => h.agrees
  Runs.forall_prefix_iff_allSteps_of_invariant hagrees
    (fun _ _ _ h hsole hs => (h.step hs).1 hsole) (fun _ _ _ h hs => (h.step hs).2) .start hrun

end

/-! ## Two users of one symbol -/

namespace TwoUsers

def brokers : Brokers where
  brokerName _ := "zerodha"
  hasUnsubscribeAll _ := false

def key : SubKey := ⟨"INFY", "NSE", 2⟩

end TwoUsers

open TwoUsers in
/-- Alone on its symbol, a client comes and goes. -/
theorem agrees_iff_releasesSole_oneUser :
    ∃ t, Runs.run (step brokers) {} [.authenticate 1 "ann", .subscribe 1 5 [key],
        .unsubscribe 1 [key]] = some t ∧ t.Agrees := by
  refine ⟨_, rfl, (agrees_iff_releasesSole (show Runs.run (step brokers) {} [.authenticate 1 "ann",
    .subscribe 1 5 [key], .unsubscribe 1 [key]] = some _ from rfl)).mpr ?_ _ (List.prefix_refl _) _ rfl⟩
  refine ⟨fun _ h => (nomatch h), fun _ h => (nomatch h), fun k _ hleaves => ?_, trivial⟩
  obtain ⟨other, hne, hother⟩ := hleaves.2.2
  have hempty : Function.update (fun _ => []) 1 [(⟨key, 5, "zerodha"⟩ : Subscription)] other = [] :=
    Function.update_of_ne hne _ _
  have hmem : k ∈ (Function.update (fun _ => []) 1
    [(⟨key, 5, "zerodha"⟩ : Subscription)] other).map Subscription.key := hother
  rw [hempty] at hmem
  cases hmem

open TwoUsers in
/-- Bob still has the symbol, so Ann's adapter is not told that she has left it. -/
theorem leftBehind_subscribed :
    ∃ t, Runs.run (step brokers) {} [.authenticate 1 "ann", .authenticate 2 "bob",
        .subscribe 1 5 [key], .subscribe 2 5 [key], .unsubscribe 1 [key]] = some t ∧
      t.adapters "ann" = some [key] ∧ ¬ t.Agrees := by
  refine ⟨_, rfl, by decide, fun hagrees => ?_⟩
  obtain ⟨client, hmapped, hsubscribed⟩ := (hagrees "ann" key).mp ⟨[key], by decide, by simp⟩
  have hmem := Dict.mem_entries_of_get? hmapped
  have hann : client = 1 := by
    rcases List.mem_cons.mp hmem with heq | hmem
    · exact congrArg Prod.fst heq
    · have hbob : "ann" = "bob" := congrArg Prod.snd (List.mem_singleton.mp hmem)
      exact absurd hbob (by decide)
  subst hann
  unfold Server.Subscribed at hsubscribed
  exact absurd hsubscribed (by decide)

end AlgoTrade.Proxy
