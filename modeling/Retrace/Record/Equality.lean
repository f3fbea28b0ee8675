import Retrace.Record.Basic

/-!
# Equality of records

Two records are alike if they have the same kind, class and configurable mark and if their
configured fields and their recorded fields hold alike values by key.  The order of the fields does
not matter, and of fields with one key only the last counts.  Doubles are compared as numbers, so a
value that is no number is alike to nothing, itself included.
-/

namespace Retrace

/-- Whether two primitives are alike. -/
def Primitive.alike : Primitive → Primitive → Bool
  | .text s, .text t => s == t
  | .long m, .long n => m == n
  | .double x, .double y => x == y
  | .boolean b, .boolean c => b == c
  | _, _ => false

namespace Node

/-- Whether every key of some fields is a key of others. -/
def keysWithin (fields others : Fields) : Bool :=
  fields.all fun e => Keyed.hasKey e.1 others

mutual

/-- Whether two nodes are alike. -/
def alike : Node → Node → Bool
  | .primitive x, .primitive y => x.alike y
  | .list xs, .list ys => alikeItems xs ys
  | .map es, .map fs => alikeFields es fs && keysWithin fs es
  | .object kind className configurable configured recorded,
      .object kind' className' configurable' configured' recorded' =>
      kind == kind' && className == className' && configurable == configurable' &&
        (alikeFields configured configured' && keysWithin configured' configured) &&
        (alikeFields recorded recorded' && keysWithin recorded' recorded)
  | _, _ => false

/-- Whether two lists have alike items. -/
def alikeItems : List Node → List Node → Bool
  | [], [] => true
  | x :: xs, y :: ys => x.alike y && alikeItems xs ys
  | _, _ => false

/-- Whether every field that no later field of its key replaces has an alike value among others. -/
def alikeFields : List (String × Node) → List (String × Node) → Bool
  | [], _ => true
  | (key, n) :: rest, others =>
      (Keyed.hasKey key rest ||
          match Keyed.lookupLast key others with
          | some m => n.alike m
          | none => false) &&
        alikeFields rest others

end

end Node

/-- Whether two records are alike. -/
def Record.alike (r s : Record) : Bool :=
  r.node.alike s.node

end Retrace
