import Retrace.Decimal.Reading
import Retrace.Keyed
import Retrace.Text.Quoted

/-!
# Configurations

A configuration is the flat description of one component: its name, its class and its properties by
key.  A property is a text, a list or a map of texts, or it refers to other components by their
names; numbers stand in a configuration as text and are read when they are asked for.

Main results:

- Theorem `property_set`: a property that was set is found, and the others stay.
-/

namespace Retrace

/-- One value of a configuration. -/
inductive Property where
  | value (text : String)
  | list (items : List String)
  | map (entries : List (String × String))
  | component (name : String)
  | componentList (names : List String)
deriving DecidableEq, Repr

/-- A property as diagnostics show it. -/
def Property.render : Property → String
  | .value s => "Value(" ++ Text.quote s ++ ")"
  | .list items => "List(" ++ Text.quoteList items ++ ")"
  | .map entries => "Map(" ++ Text.quoteMap entries ++ ")"
  | .component name => "Component(" ++ Text.quote name ++ ")"
  | .componentList names => "ComponentList(" ++ Text.quoteList names ++ ")"

/-- Why a property is not what was asked for. -/
inductive PropertyFault where
  | notValue (found : Property)
  | notReference (found : Property)
  | missing
  | unreadable (text : String) (fault : Decimal.NumberFault)
deriving DecidableEq, Repr

/-- The sentence about a property. -/
def PropertyFault.message : PropertyFault → String
  | .notValue found => "expected a value, found " ++ found.render
  | .notReference found => "expected a component reference, found " ++ found.render
  | .missing => "missing required property"
  | .unreadable text fault => "cannot parse '" ++ text ++ "': " ++ fault.message

/-- The description of one component. -/
structure Configuration where
  name : String
  className : String
  properties : List (String × Property)
deriving DecidableEq, Repr

namespace Configuration

/-- The property under a key. -/
def property? (c : Configuration) (key : String) : Option Property :=
  Keyed.lookup key c.properties

/-- The configuration with a property set. -/
def set (c : Configuration) (key : String) (value : Property) : Configuration :=
  { c with properties := Keyed.insert key value c.properties }

/-- The text under a key, if there is one. -/
def text? (c : Configuration) (key : String) : Except PropertyFault (Option String) :=
  match c.property? key with
  | none => .ok none
  | some (.value s) => .ok (some s)
  | some found => .error (.notValue found)

/-- The text under a key that must be there. -/
def text (c : Configuration) (key : String) : Except PropertyFault String :=
  match c.text? key with
  | .error fault => .error fault
  | .ok none => .error .missing
  | .ok (some s) => .ok s

/-- The text under a key, read by a reader. -/
def read? {β : Type} (reader : List Char → Except Decimal.NumberFault β) (c : Configuration)
    (key : String) : Except PropertyFault (Option β) :=
  match c.text? key with
  | .error fault => .error fault
  | .ok none => .ok none
  | .ok (some s) =>
      match reader s.toList with
      | .ok value => .ok (some value)
      | .error fault => .error (.unreadable s fault)

/-- The double under a key. -/
def float? : Configuration → String → Except PropertyFault (Option Float) :=
  read? Decimal.readFloat

/-- The unsigned 64-bit number under a key. -/
def word? : Configuration → String → Except PropertyFault (Option UInt64) :=
  read? Decimal.readUInt64

/-- The unsigned 32-bit number under a key. -/
def smallWord? : Configuration → String → Except PropertyFault (Option UInt32) :=
  read? Decimal.readUInt32

/-- The signed 64-bit number under a key. -/
def long? : Configuration → String → Except PropertyFault (Option Int64) :=
  read? Decimal.readInt64

/-- The truth value under a key. -/
def boolean? : Configuration → String → Except PropertyFault (Option Bool) :=
  read? Decimal.readBool

/-- The name of the component that a key refers to. -/
def reference? (c : Configuration) (key : String) : Except PropertyFault (Option String) :=
  match c.property? key with
  | none => .ok none
  | some (.component name) => .ok (some name)
  | some found => .error (.notReference found)

/-! ## Laws -/

/-- A property that was set is found, and the others stay. -/
theorem property_set (c : Configuration) (key other : String) (value : Property) :
    (c.set key value).property? other = if other = key then some value else c.property? other :=
  Keyed.lookup_insert key other value c.properties

@[simp] theorem name_set (c : Configuration) (key : String) (value : Property) :
    (c.set key value).name = c.name := rfl

@[simp] theorem className_set (c : Configuration) (key : String) (value : Property) :
    (c.set key value).className = c.className := rfl

end Configuration
end Retrace
