import Activation.Error
import Activation.Host
import Activation.Metadata

namespace Activation

inductive Condition where
  | onType
  | onInstance
  | onEnvironment
deriving DecidableEq

namespace Condition

def all : List Condition := [.onType, .onInstance, .onEnvironment]

def name : Condition → String
  | .onType => "on-type"
  | .onInstance => "on-instance"
  | .onEnvironment => "on-environment"

def subject : Condition → String
  | .onType => "type resolver"
  | .onInstance => "instance registry"
  | .onEnvironment => "environment kind"

-- The decision on hints, if what it takes was handed over.
def decision? (condition : Condition) (granted : Granted) : Option (Hints → Bool) :=
  match condition with
  | .onType => granted.types?.map fun isKnown hints => hints.onTypes.all isKnown
  | .onInstance =>
    granted.instances?.map fun isRegistered hints => hints.onInstances.all isRegistered
  | .onEnvironment =>
    granted.environment?.map fun environment hints =>
      match hints.onEnvironment with
      | some requirement => requirement.isMetBy environment
      | none => true

-- The verdict on one slot: only a module with hints can fail.
def verdict (decide : Hints → Bool) (metadata : Metadata) (slot : Option String) : Bool :=
  match slot.bind metadata.get? with
  | some hints => decide hints
  | none => true

def verdicts (condition : Condition) (granted : Granted) (slots : List (Option String))
    (metadata : Metadata) : Except String (List Bool) :=
  match condition.decision? granted with
  | some decide => .ok (slots.map (verdict decide metadata))
  | none =>
    .error s!"{condition.name} condition evaluated without an injected {condition.subject}"

end Condition

abbrev Slots : Type := List (Option String)

-- How a filter judges: by a condition on hints, or in a way of its host's own, which may read and
-- change a state of the host.
inductive Judge (σ : Type) where
  | condition (condition : Condition)
  | custom (name : String)
      (verdicts : Granted → Slots → Metadata → σ → Except String (List Bool) × σ)

structure Filter (σ : Type) where
  judge : Judge σ
  granted : Granted := []

namespace Filter

variable {σ : Type}

def ofCondition (condition : Condition) : Filter σ := ⟨.condition condition, []⟩

def builtins : List (Filter σ) := Condition.all.map ofCondition

def name (filter : Filter σ) : String :=
  match filter.judge with
  | .condition condition => condition.name
  | .custom name _ => name

def inject (host : Host) (filter : Filter σ) : Filter σ :=
  { filter with granted := filter.granted.inject host }

def answer (filter : Filter σ) (slots : Slots) (metadata : Metadata) (state : σ) :
    Except String (List Bool) × σ :=
  match filter.judge with
  | .condition condition => (condition.verdicts filter.granted slots metadata, state)
  | .custom _ verdicts => verdicts filter.granted slots metadata state

def verdicts (filter : Filter σ) (slots : Slots) (metadata : Metadata) (state : σ) :
    Except Error (List Bool) × σ :=
  match filter.answer slots metadata state with
  | (.error reason, state) => (.error (.extension s!"filter '{filter.name}'" reason), state)
  | (.ok verdicts, state) =>
    if verdicts.length = slots.length then (.ok verdicts, state)
    else (.error (.verdictCount filter.name slots.length verdicts.length), state)

def mask (slots : Slots) (verdicts : List Bool) : Slots :=
  slots.zipWith (fun slot verdict => if verdict then slot else none) verdicts

def screenSlots : List (Filter σ) → Slots → Metadata → σ → Except Error Slots × σ
  | [], slots, _, state => (.ok slots, state)
  | filter :: others, slots, metadata, state =>
    match filter.verdicts slots metadata state with
    | (.error error, state) => (.error error, state)
    | (.ok verdicts, state) => screenSlots others (mask slots verdicts) metadata state

def screen (filters : List (Filter σ)) (candidates : List String) (metadata : Metadata)
    (state : σ) : Except Error (List String) × σ :=
  let (screened, state) := screenSlots filters (candidates.map some) metadata state
  (screened.map fun slots => slots.filterMap id, state)

end Filter

end Activation
