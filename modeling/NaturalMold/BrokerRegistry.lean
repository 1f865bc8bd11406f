import NaturalMold.OrderedDictionaries
import NaturalMold.StepRuns

/-! # The registry of event brokers -/

namespace NaturalMold.BrokerRegistry

/-- What the registry reads of a broker; a broker is closed once it has a time of closing. -/
structure Broker where
  conversationId : Option String
  createdAt : ℤ
  closedAt : Option ℤ := none
  deriving DecidableEq

def Broker.isClosed (broker : Broker) : Bool :=
  broker.closedAt.isSome

def Broker.close (now : ℤ) (broker : Broker) : Broker :=
  if broker.isClosed then broker else { broker with closedAt := some now }

structure Limits where
  maxBrokers : ℕ := 256
  maxLiveAgeSeconds : ℤ := 1800
  positive : 0 < maxBrokers := by decide

abbrev Brokers :=
  OrderedDict String Broker

/-- A live broker that is closed to make room, with the registry of that moment. -/
structure ForcedClose where
  runId : String
  brokers : Brokers

/-- The loop of `_enforce_capacity` over the run ids. -/
def makeRoom (target : ℕ) : List String → Brokers → List ForcedClose × Brokers
  | [], brokers => ([], brokers)
  | runId :: runIds, brokers =>
      if brokers.entries.length ≤ target then ([], brokers)
      else
        let (forced, left) := makeRoom target runIds (brokers.erase runId)
        if (brokers.get? runId).any fun broker => !broker.isClosed then
          (⟨runId, brokers⟩ :: forced, left)
        else (forced, left)

def enforceCapacity (limits : Limits) (brokers : Brokers) : List ForcedClose × Brokers :=
  if brokers.entries.length < limits.maxBrokers then ([], brokers)
  else makeRoom (limits.maxBrokers - 1) brokers.keys brokers

def getOrCreate (limits : Limits) (now : ℤ) (runId : String) (conversationId : Option String)
    (brokers : Brokers) : List ForcedClose × Brokers :=
  if (brokers.get? runId).any fun broker => !broker.isClosed then ([], brokers)
  else
    let (forced, left) := enforceCapacity limits (brokers.erase runId)
    (forced, left.set runId { conversationId := conversationId, createdAt := now })

/-- `broker.close()` of a registered broker. -/
def closeBroker (now : ℤ) (runId : String) (brokers : Brokers) : Brokers :=
  match brokers.get? runId with
  | some broker => brokers.set runId (broker.close now)
  | none => brokers

/-- Close the live brokers that are too old, and drop those that were closed long ago. -/
def evictExpired (limits : Limits) (now ttlSeconds : ℤ) (brokers : Brokers) : Brokers :=
  let expired := (brokers.entries.filter fun entry =>
    entry.2.closedAt.any fun closedAt => closedAt ≤ now - ttlSeconds).map Prod.fst
  let closed := brokers.mapValues fun broker =>
    if broker.createdAt ≤ now - limits.maxLiveAgeSeconds then broker.close now else broker
  expired.foldl OrderedDict.erase closed

def closeForConversation (now : ℤ) (conversationId : String) (brokers : Brokers) : Brokers :=
  brokers.mapValues fun broker =>
    if broker.conversationId = some conversationId then broker.close now else broker

inductive Action
  | getOrCreate (now : ℤ) (runId : String) (conversationId : Option String)
  | close (now : ℤ) (runId : String)
  | evictExpired (now ttlSeconds : ℤ)
  | closeForConversation (now : ℤ) (conversationId : String)

def step (limits : Limits) (brokers : Brokers) : Action → Brokers
  | .getOrCreate now runId conversationId => (getOrCreate limits now runId conversationId brokers).2
  | .close now runId => closeBroker now runId brokers
  | .evictExpired now ttlSeconds => evictExpired limits now ttlSeconds brokers
  | .closeForConversation now conversationId => closeForConversation now conversationId brokers

/-- A live broker is closed to make room only if no closed one is left, and there is room
afterwards. -/
def PrefersFinished (limits : Limits) (brokers : Brokers) : Action → Prop
  | .getOrCreate now runId conversationId =>
      (∀ forced ∈ (getOrCreate limits now runId conversationId brokers).1,
        ∀ entry ∈ forced.brokers.entries, entry.2.isClosed = false) ∧
      (getOrCreate limits now runId conversationId brokers).2.entries.length ≤ limits.maxBrokers
  | _ => True

instance (limits : Limits) (brokers : Brokers) (action : Action) :
    Decidable (PrefersFinished limits brokers action) :=
  match action with
  | .getOrCreate _ _ _ => inferInstanceAs (Decidable (_ ∧ _))
  | .close _ _ | .evictExpired _ _ | .closeForConversation _ _ => inferInstanceAs (Decidable True)

def OldestFinished (limits : Limits) (brokers : Brokers) : Action → Prop
  | .getOrCreate _ runId _ =>
      runId ∈ brokers.keys ∨ brokers.entries.length < limits.maxBrokers ∨
        (∀ oldest ∈ brokers.entries.head?, oldest.2.isClosed = true) ∨
        ∀ entry ∈ brokers.entries, entry.2.isClosed = false
  | _ => True

variable {limits : Limits} {brokers : Brokers}

/-- A registry within its limits never drops more than its oldest broker. -/
theorem enforceCapacity_of_full (bounded : brokers.entries.length ≤ limits.maxBrokers)
    {oldest : String × Broker} {rest : List (String × Broker)}
    (whole : brokers.entries = oldest :: rest)
    (full : ¬brokers.entries.length < limits.maxBrokers) :
    enforceCapacity limits brokers =
      (if oldest.2.isClosed then [] else [⟨oldest.1, brokers⟩], brokers.erase oldest.1) := by
  have keysEq : brokers.keys = oldest.1 :: rest.map Prod.fst := by
    rw [OrderedDict.keys, whole, List.map_cons]
  have length : brokers.entries.length = rest.length + 1 := by
    rw [whole, List.length_cons]
  have roomy : (brokers.erase oldest.1).entries.length ≤ limits.maxBrokers - 1 := by
    rw [OrderedDict.entries_erase_of_cons whole]
    omega
  have stored : brokers.get? oldest.1 = some oldest.2 := by
    rw [OrderedDict.get?_eq_some_iff, whole]
    exact List.mem_cons_self
  have done : makeRoom (limits.maxBrokers - 1) (rest.map Prod.fst) (brokers.erase oldest.1) =
      ([], brokers.erase oldest.1) := by
    cases rest.map Prod.fst with
    | nil => rfl
    | cons runId runIds => rw [makeRoom, if_pos roomy]
  have positive := limits.positive
  rw [enforceCapacity, if_neg full, keysEq, makeRoom, if_neg (by omega), done, stored,
    Option.any_some]
  cases oldest.2.isClosed <;> rfl

theorem exists_oldest (full : ¬brokers.entries.length < limits.maxBrokers) :
    ∃ oldest rest, brokers.entries = oldest :: rest := by
  have positive := limits.positive
  cases whole : brokers.entries with
  | nil =>
      rw [whole] at full
      exact absurd positive full
  | cons oldest rest => exact ⟨oldest, rest, rfl⟩

theorem length_enforceCapacity (bounded : brokers.entries.length ≤ limits.maxBrokers) :
    (enforceCapacity limits brokers).2.entries.length + 1 ≤ limits.maxBrokers := by
  by_cases room : brokers.entries.length < limits.maxBrokers
  · rw [enforceCapacity, if_pos room]
    exact room
  · obtain ⟨oldest, rest, whole⟩ := exists_oldest room
    rw [enforceCapacity_of_full bounded whole room, OrderedDict.entries_erase_of_cons whole]
    rwa [whole] at bounded

theorem length_getOrCreate (bounded : brokers.entries.length ≤ limits.maxBrokers) (now : ℤ)
    (runId : String) (conversationId : Option String) :
    (getOrCreate limits now runId conversationId brokers).2.entries.length ≤
      limits.maxBrokers := by
  rw [getOrCreate]
  split
  · exact bounded
  · have erased := (OrderedDict.length_erase_le brokers runId).trans bounded
    exact (OrderedDict.length_set_le _ _ _).trans (length_enforceCapacity erased)

/-- No step takes the registry beyond its limit. -/
theorem length_step (action : Action) (bounded : brokers.entries.length ≤ limits.maxBrokers) :
    (step limits brokers action).entries.length ≤ limits.maxBrokers := by
  cases action with
  | getOrCreate now runId conversationId =>
      exact length_getOrCreate bounded now runId conversationId
  | close now runId =>
      rw [step, closeBroker]
      split
      · next found =>
          rwa [OrderedDict.length_set_of_mem _ (OrderedDict.mem_keys_of_get? found)]
      · exact bounded
  | evictExpired now ttlSeconds =>
      have shrinks : ∀ (runIds : List String) (left : Brokers),
          (runIds.foldl OrderedDict.erase left).entries.length ≤ left.entries.length := by
        intro runIds
        induction runIds with
        | nil => exact fun left => le_rfl
        | cons runId runIds ih =>
            exact fun left => (ih _).trans (OrderedDict.length_erase_le left runId)
      rw [step, evictExpired]
      exact (shrinks _ _).trans (by rwa [OrderedDict.length_mapValues])
  | closeForConversation now conversationId =>
      rwa [step, closeForConversation, OrderedDict.length_mapValues]

theorem prefersFinished_iff (action : Action)
    (bounded : brokers.entries.length ≤ limits.maxBrokers) :
    PrefersFinished limits brokers action ↔ OldestFinished limits brokers action := by
  cases action with
  | close | evictExpired | closeForConversation => exact Iff.rfl
  | getOrCreate now runId conversationId =>
      rw [PrefersFinished, OldestFinished, and_iff_left (length_getOrCreate bounded _ _ _),
        getOrCreate]
      by_cases present : runId ∈ brokers.keys
      · refine iff_of_true ?_ (Or.inl present)
        have shorter := OrderedDict.length_erase_lt present
        split
        · exact List.forall_mem_nil _
        · rw [enforceCapacity, if_pos (by omega)]
          exact List.forall_mem_nil _
      · have absent : brokers.get? runId = none := OrderedDict.get?_eq_none_iff.mpr present
        rw [absent, if_neg (by simp), OrderedDict.erase_of_notMem present]
        by_cases room : brokers.entries.length < limits.maxBrokers
        · refine iff_of_true ?_ (Or.inr (Or.inl room))
          rw [enforceCapacity, if_pos room]
          exact List.forall_mem_nil _
        · obtain ⟨oldest, rest, whole⟩ := exists_oldest room
          rw [enforceCapacity_of_full bounded whole room, or_iff_right present, or_iff_right room]
          cases closed : oldest.2.isClosed with
          | true =>
              refine iff_of_true (List.forall_mem_nil _) (Or.inl ?_)
              rw [whole]
              simpa using closed
          | false =>
              have live : ¬∀ first ∈ brokers.entries.head?, first.2.isClosed = true := by
                rw [whole]
                simp [closed]
              rw [or_iff_right live]
              simp

/-- In a run from the empty registry, every registration prefers finished brokers exactly if each
one meets a registry with room, or whose oldest broker is finished, or without a finished one. -/
theorem everyStep_prefersFinished_iff (limits : Limits) (actions : List Action) :
    StepRuns.EveryStep (step limits) (PrefersFinished limits) OrderedDict.empty actions ↔
      StepRuns.EveryStep (step limits) (OldestFinished limits) OrderedDict.empty actions :=
  StepRuns.everyStep_iff_of_invariant (fun brokers => brokers.entries.length ≤ limits.maxBrokers)
    (fun _ action bounded => length_step action bounded)
    (fun _ action bounded => prefersFinished_iff action bounded) (Nat.zero_le _) actions

/-- Two brokers; the second one is closed before a third one is registered. -/
def liveThenFinished : List Action :=
  [.getOrCreate 0 "first" none, .getOrCreate 1 "second" none, .close 2 "second",
    .getOrCreate 3 "third" none]

/-- The live broker is closed although a finished one is registered. -/
theorem not_prefersFinished_liveThenFinished :
    ¬StepRuns.EveryStep (step { maxBrokers := 2 }) (PrefersFinished { maxBrokers := 2 })
      OrderedDict.empty liveThenFinished := by
  decide

end NaturalMold.BrokerRegistry
