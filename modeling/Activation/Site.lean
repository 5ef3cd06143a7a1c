import Activation.Catalog
import Activation.Error
import Activation.Name
import Activation.Property
import Activation.Toml.Document

namespace Activation

structure Engine where
  namespaceName : String := "autoconf"
  point : String := Catalog.defaultPoint
deriving DecidableEq, Inhabited

namespace Engine

def excludeProperty (engine : Engine) : String :=
  engine.namespaceName ++ ".autoconfigure.exclude"

def enabledProperty (engine : Engine) : String :=
  engine.namespaceName ++ ".enableautoconfiguration"

open Toml

def ofFields (fields : Fields) : Except Fault Engine := do
  let standard : Engine := {}
  return {
    namespaceName := ← fields.withDefault "namespace" 0 asString standard.namespaceName
    point := ← fields.withDefault "extension_point" 1 asString standard.point }

def decode : Decoder Engine := fun value => do
  ofFields (← asFields value)

def parse (content : String) : Except Fault Engine := do
  ofFields (.named (← Toml.parse content))

end Engine

structure Site where
  -- What asks; imports are traced back to it.
  origin : String
  -- A switch of the site's own, which wins over the property.
  enabled : Option Bool := none
  -- Modules to leave out, and further ones that may be known by name only.
  exclude : List String := []
  excludeName : List String := []
deriving DecidableEq, Inhabited

namespace Site

open Toml

def ofFields (fields : Fields) : Except Fault Site := do
  let names := asList asString
  return {
    origin := ← fields.required "origin" 0 asString
    enabled := ← fields.optional "enabled" 1 asBool
    exclude := ← fields.withDefault "exclude" 2 names []
    excludeName := ← fields.withDefault "exclude_name" 3 names [] }

def decode : Decoder Site := fun value => do
  ofFields (← asFields value)

def parse (content : String) : Except Fault Site := do
  ofFields (.named (← Toml.parse content))

end Site

end Activation

namespace Activation.Exclusion

def ofProperty (engine : Engine) (properties : PropertySource) : List String :=
  (properties.getList? engine.excludeProperty).getD []

def resolve (engine : Engine) (site : Site) (properties : PropertySource) : List String :=
  Name.distinct (site.exclude ++ site.excludeName ++ ofProperty engine properties)

-- The exclusions that are known types and no candidates, and so cannot have been meant.
def invalid (candidates exclusions : List String) (isType : String → Bool) : List String :=
  exclusions.filter fun name => isType name && decide (name ∉ candidates)

def validate (candidates exclusions : List String) (isType : String → Bool) :
    Except Error Unit :=
  match invalid candidates exclusions isType with
  | [] => .ok ()
  | names => .error (.invalidExclusions names)

end Activation.Exclusion
