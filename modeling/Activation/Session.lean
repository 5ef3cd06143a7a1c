import Activation.Assembly
import Activation.Metadata

namespace Activation

structure Session where
  engine : Engine := {}
  environment : Environment := .standalone
  types : List String := []
  instances : List String := []
  properties : Toml.Entries := []
  sites : List Site := []

namespace Session

open Toml in
def ofFields (fields : Fields) : Except Fault Session := do
  let names := asList asString
  return {
    engine := ← fields.withDefault "engine" 0 Engine.decode {}
    environment := ← fields.withDefault "environment" 1 Environment.decode .standalone
    types := ← fields.withDefault "types" 2 names []
    instances := ← fields.withDefault "instances" 3 names []
    properties := ← anyEntries (← fields.withDefault "properties" 4 asEntries [])
    sites := ← fields.withDefault "sites" 5 (asList Site.decode) [] }

def parse (content : String) : Except Toml.Fault Session := do
  ofFields (.named (← Toml.parse content))

-- The properties of a session: the variables of the environment, and below them the document.
def sources (session : Session) (settings : List (String × String)) : PropertySource :=
  .layers [.ofVariables settings, .document session.properties]

def host (session : Session) (settings : List (String × String)) : Host :=
  .ofNames session.types session.instances (session.sources settings) session.environment

inductive Fault where
  | unreadable (path : String) (fault : ReadFault)
  | invalid (path : String) (fault : Toml.Fault)
deriving DecidableEq

def invalidLead : String := "Invalid session: "

def Fault.message : Fault → String
  | .unreadable path fault => s!"Cannot read session file {path}: " ++ fault.message
  | .invalid path fault => path ++ ": " ++ invalidLead ++ fault.message

def ofFile (files : Snapshot) (path : String) : Except Fault Session :=
  match (files path).read with
  | .error fault => .error (.unreadable path fault)
  | .ok content =>
    match parse content with
    | .error fault => .error (.invalid path fault)
    | .ok session => .ok session

structure Resolution where
  imports : List Import
  events : List Event

-- Resolve sites one by one into a batch, up to the first that fails.
def processAll {σ : Type} (resolver : Resolver σ) (files : Snapshot) :
    List Site → Batch → Resolver.Step σ Batch
  | [], batch, progress => (.ok batch, progress)
  | site :: sites, batch, progress =>
    match resolver.process files batch site progress with
    | ((.ok (), batch), progress) => processAll resolver files sites batch progress
    | ((.error error, _), progress) => (.error error, progress)

def resolver (session : Session) (settings : List (String × String)) : Resolver Unit :=
  (Assembly.ofChoices [.engine session.engine, .host (session.host settings),
    .listener .report]).build

def resolveSites (session : Session) (settings : List (String × String)) (files : Snapshot) :
    Resolver.Step Unit (List Import) :=
  let resolver := session.resolver settings
  .bind (resolver.batch files) fun batch =>
  .bind (processAll resolver files session.sites batch) fun batch =>
  .ofResult batch.finalize

def resolve (session : Session) (roots : List String) (settings : List (String × String))
    (files : Snapshot) : Except Error Resolution :=
  match session.resolveSites settings files ⟨.ofRoots roots, [], ()⟩ with
  | (.ok imports, progress) => .ok ⟨imports, progress.report⟩
  | (.error error, _) => .error error

inductive Failure where
  | session (fault : Fault)
  | resolution (error : Error)
deriving DecidableEq

def Failure.message : Failure → String
  | .session fault => fault.message
  | .resolution error => error.message

def rootsFor (path : String) (roots : List String) : List String :=
  if roots.isEmpty then [Path.directoryOf path] else roots

def resolveFile (files : Snapshot) (path : String) (roots : List String)
    (settings : List (String × String)) : Except Failure Resolution := do
  let session ← (ofFile files path).mapError .session
  (session.resolve (rootsFor path roots) settings files).mapError .resolution

end Session

def listCandidates (files : Snapshot) (roots : List String) (point : String) :
    Except StoreFault (List String) :=
  ((Stores.ofRoots roots).loadCandidates files point).1.map Name.distinct

end Activation
