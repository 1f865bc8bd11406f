import Mathlib.Algebra.BigOperators.Group.List.Basic
import Mathlib.Algebra.GroupWithZero.Nat
import NaturalMold.FallibleSteps
import NaturalMold.GuardrailDetection

/-! # Requests to the model service -/

namespace NaturalMold.Guardrails

section Partition

variable {texts : List Text} {index : ℕ} {text : Text}

def requestBytes (texts : List Text) (batch : List ℕ) : ℕ :=
  (batch.map fun index => encodedSize (texts.getD index [])).sum

/-- A batch within both limits. -/
def Fits (texts : List Text) (batch : List ℕ) : Prop :=
  batch.length ≤ maxTextsPerRequest ∧ requestBytes texts batch ≤ maxRequestBytes

structure Batching.Good (texts : List Text) (batching : Batching) : Prop where
  closed : ∀ batch ∈ batching.batches, batch ≠ [] ∧ Fits texts batch
  current : Fits texts batching.current
  size : batching.size = requestBytes texts batching.current

theorem requestBytes_singleton (listed : texts[index]? = some text) :
    requestBytes texts [index] = encodedSize text := by
  simp [requestBytes, List.getD_eq_getElem?_getD, listed]

theorem requestBytes_concat (batch : List ℕ) (listed : texts[index]? = some text) :
    requestBytes texts (batch ++ [index]) = requestBytes texts batch + encodedSize text := by
  rw [← requestBytes_singleton listed, requestBytes, List.map_append, List.sum_append]
  rfl

/-- One more text leaves every batch within the limits. -/
theorem Batching.Good.add {batching : Batching} (good : batching.Good texts)
    (listed : texts[index]? = some text) : (batching.add index text).Good texts := by
  rw [Batching.add]
  by_cases large : encodedSize text > maxRequestBytes
  · rw [if_pos large]
    exact good
  rw [if_neg large]
  split
  case isTrue full =>
      constructor
      case closed =>
          intro batch member
          rcases List.mem_append.mp member with old | new
          · exact good.closed batch old
          · rw [List.mem_singleton.mp new]
            exact ⟨full.1, good.current⟩
      case current =>
          constructor
          · simp [maxTextsPerRequest]
          · rw [requestBytes_singleton listed]
            omega
      case size => exact (requestBytes_singleton listed).symm
  case isFalse room =>
  constructor
  case closed => exact good.closed
  case current =>
      constructor
      · have short := good.current.1
        rw [List.length_append, List.length_singleton]
        by_cases empty : batching.current = []
        · simp [empty, maxTextsPerRequest]
        · have few : batching.current.length ≠ maxTextsPerRequest :=
            fun full => room ⟨empty, Or.inl full⟩
          omega
      · rw [requestBytes_concat _ listed, ← good.size]
        by_cases empty : batching.current = []
        · have size := good.size
          rw [empty, requestBytes, List.map_nil, List.sum_nil] at size
          omega
        · have small : ¬batching.size + encodedSize text > maxRequestBytes :=
            fun full => room ⟨empty, Or.inr full⟩
          omega
  case size =>
      rw [requestBytes_concat _ listed, good.size]

end Partition

/-- What the service makes of each request of a round. -/
abbrev Service := ℕ → List Text → Option (List (List ServiceItem))

namespace Detector

def textsOf (texts : List Text) (batch : List ℕ) : List Text :=
  batch.map fun index => texts.getD index []

/-- The loop of `_model_findings`; the first request that is not answered ends it. -/
def askInTurn (service : Service) (texts : List Text) :
    ℕ → OrderedDict ℕ (List Finding) → List (List ℕ) → OrderedDict ℕ (List Finding)
  | _, answered, [] => answered
  | request, answered, batch :: rest =>
      match askService (service request) (textsOf texts batch) with
      | none => answered
      | some results =>
          askInTurn service texts (request + 1)
            ((batch.zip results).foldl (fun dict entry => dict.set entry.1 entry.2) answered) rest

theorem askInTurn_const (ask : List Text → Option (List (List ServiceItem))) (texts : List Text)
    (request : ℕ) (answered : OrderedDict ℕ (List Finding)) (groups : List (List ℕ)) :
    askInTurn (fun _ => ask) texts request answered groups =
      askBatches ask texts answered groups := by
  induction groups generalizing request answered with
  | nil => rfl
  | cons batch rest ih =>
      rw [askInTurn, askBatches, textsOf]
      cases askService ask (batch.map fun index => texts.getD index []) with
      | none => rfl
      | some results => exact ih _ _

variable (detector : Detector) (service : Option Service) (texts : List Text)
  (packs : List String)

def findingsBy : OrderedDict ℕ (List Finding) :=
  service.elim OrderedDict.empty fun service =>
    askInTurn service texts 0 OrderedDict.empty (batches texts)

/-- `detect_texts`, with a service that may answer equal requests differently. -/
def detectTextsBy : List (List Finding) :=
  let rulePacks := packs.filter fun name => name ≠ modelPack
  if modelPack ∉ packs then texts.map fun text => detector.detect text rulePacks
  else
    let model := findingsBy service texts
    texts.zipIdx.map fun entry =>
      let extra :=
        match model.get? entry.2 with
        | some answer => answer ++ detector.rrnFallback entry.1
        | none => detector.detect entry.1 ["kr"]
      merge (detector.detect entry.1 rulePacks ++ extra)

theorem detectTextsBy_const :
    detector.detectTextsBy (detector.service.map fun ask _ => ask) texts packs =
      detector.detectTexts texts packs := by
  have same : findingsBy (detector.service.map fun ask _ => ask) texts =
      detector.modelFindings texts := by
    rw [findingsBy, modelFindings]
    cases detector.service with
    | none => rfl
    | some ask => exact askInTurn_const ask texts 0 _ _
  unfold detectTextsBy
  rw [same]
  rfl

inductive Replied (service : Service) (texts : List Text) :
    ℕ → List (List ℕ) → ℕ → List Finding → Prop
  | here {request : ℕ} {batch : List ℕ} {rest : List (List ℕ)} {results : List (List Finding)}
      {place index : ℕ} {reply : List Finding}
      (asked : askService (service request) (textsOf texts batch) = some results)
      (listed : batch[place]? = some index) (replied : results[place]? = some reply) :
      Replied service texts request (batch :: rest) index reply
  | later {request : ℕ} {batch : List ℕ} {rest : List (List ℕ)} {results : List (List Finding)}
      {index : ℕ} {reply : List Finding}
      (asked : askService (service request) (textsOf texts batch) = some results)
      (replied : Replied service texts (request + 1) rest index reply) :
      Replied service texts request (batch :: rest) index reply

variable {service} {texts} {packs}

theorem Replied.listed {service : Service} {request index : ℕ} {groups : List (List ℕ)}
    {reply : List Finding} (replied : Replied service texts request groups index reply) :
    index ∈ groups.flatten := by
  induction replied with
  | here _ listed _ => exact List.mem_append_left _ (List.mem_of_getElem? listed)
  | later _ _ ih => exact List.mem_append_right _ ih

def Answers (service : Option Service) (texts : List Text) (index : ℕ) (reply : List Finding) :
    Prop :=
  ∃ asked, service = some asked ∧ Replied asked texts 0 (batches texts) index reply

end Detector

end NaturalMold.Guardrails
