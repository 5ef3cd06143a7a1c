import Activation.Error
import Activation.Host

namespace Activation

structure Event where
  configurations : List String
  exclusions : NameSet
deriving DecidableEq

structure Record (σ : Type) where
  report : List Event
  outside : σ

-- What receives an event: the report, or something of the host's own, which may read and change a
-- state of the host.
inductive Receiver (σ : Type) where
  | report
  | custom (name : String) (receive : Granted → Event → σ → Except String Unit × σ)

structure Listener (σ : Type) where
  receiver : Receiver σ
  granted : Granted := []

namespace Listener

variable {σ : Type}

def report : Listener σ := ⟨.report, []⟩

def name (listener : Listener σ) : String :=
  match listener.receiver with
  | .report => "import-report"
  | .custom name _ => name

def inject (host : Host) (listener : Listener σ) : Listener σ :=
  { listener with granted := listener.granted.inject host }

def receive (listener : Listener σ) (event : Event) (record : Record σ) :
    Except String Unit × Record σ :=
  match listener.receiver with
  | .report => (.ok (), { record with report := record.report ++ [event] })
  | .custom _ receive =>
    let (outcome, outside) := receive listener.granted event record.outside
    (outcome, { record with outside })

-- Tell the listeners of an event. What those before a failing one did stays done.
def notify : List (Listener σ) → Event → Record σ → Except Error Unit × Record σ
  | [], _, record => (.ok (), record)
  | listener :: others, event, record =>
    match listener.receive event record with
    | (.error reason, record) =>
      (.error (.extension s!"listener '{listener.name}'" reason), record)
    | (.ok (), record) => notify others event record

end Listener

end Activation
