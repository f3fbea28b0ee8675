import Retrace.Decimal.Layout
import Retrace.Record.Basic
import Retrace.SparseVector

/-!
# Kernels

A kernel measures how alike two sparse vectors are: by their inner product, by the exponential of
their negative squared distance, or by a power of their shifted inner product.  Inner product and
squared distance merge the entries of the two vectors by index.  A vector that lacks a value where
its indices promise one has no distance to others.

Main results:

- Theorem `dot_comm`: over a commutative scalar the inner product is symmetric.
-/

namespace Retrace

namespace SparseVector

variable {α : Type} [Scalar α]

/-- Add the products of the values under common indices to a sum. -/
def dotFrom (sum : α) : List (Nat × α) → List (Nat × α) → α
  | [], _ => sum
  | _ :: _, [] => sum
  | (i, a) :: xs, (j, b) :: ys =>
      if i = j then dotFrom (sum + a * b) xs ys
      else if i < j then dotFrom sum xs ((j, b) :: ys)
      else dotFrom sum ((i, a) :: xs) ys
termination_by xs ys => xs.length + ys.length

/-- The inner product. -/
def dot (x y : SparseVector α) : α :=
  dotFrom 0 x.entries y.entries

/-- The entries by index, an index without a value having none; values without an index are left
out. -/
def slots : List Nat → List α → List (Nat × Option α)
  | [], _ => []
  | i :: is, [] => (i, none) :: slots is []
  | i :: is, v :: vs => (i, some v) :: slots is vs

/-- Add the squares of the differences of the values to a sum, an absent entry being zero. What is
left of one vector when the other one ends is not looked at here. -/
def distanceFrom (sum : α) :
    List (Nat × Option α) → List (Nat × Option α) →
      Option (α × List (Nat × Option α) × List (Nat × Option α))
  | [], ys => some (sum, [], ys)
  | x :: xs, [] => some (sum, x :: xs, [])
  | (i, a) :: xs, (j, b) :: ys =>
      if i = j then
        match a, b with
        | some a, some b => distanceFrom (sum + (a - b) * (a - b)) xs ys
        | _, _ => none
      else if i < j then
        match a with
        | some a => distanceFrom (sum + a * a) xs ((j, b) :: ys)
        | none => none
      else
        match b with
        | some b => distanceFrom (sum + b * b) ((i, a) :: xs) ys
        | none => none
termination_by xs ys => xs.length + ys.length

/-- The values of a vector from an entry on; nothing if the vector has fewer values than that.
`rest` is what remains of the indices. -/
def valuesAfter (v : SparseVector α) (rest : List (Nat × Option α)) : Option (List α) :=
  let start := v.indices.length - rest.length
  if start ≤ v.values.length then some (v.values.drop start) else none

/-- The square of the Euclidean distance; nothing if a vector lacks a value. -/
def squaredDistance? (x y : SparseVector α) : Option α :=
  match distanceFrom 0 (slots x.indices x.values) (slots y.indices y.values) with
  | none => none
  | some (sum, xs, ys) =>
      match x.valuesAfter xs, y.valuesAfter ys with
      | some restX, some restY =>
          some (sum + Scalar.sumOfSquares restX + Scalar.sumOfSquares restY)
      | _, _ => none

end SparseVector

/-- Why parameters are refused. -/
inductive ParameterFault where
  | gamma (found : Float)
  | degree
  | kernel (name : String)
  | penalty (found : Float)
  | tolerance (found : Float)
  | passes
  | proportion (found : Float)
  | format (name : String)
deriving DecidableEq, Repr

/-- The sentence about parameters. -/
def ParameterFault.message : ParameterFault → String
  | .gamma x => "Gamma must be positive, got: " ++ Decimal.plain.render x
  | .degree => "Polynomial degree must be positive"
  | .kernel name => "Unknown kernel '" ++ name ++ "', expected linear, rbf or polynomial"
  | .penalty x => "C must be positive, got: " ++ Decimal.plain.render x
  | .tolerance x => "Epsilon must be positive, got: " ++ Decimal.plain.render x
  | .passes => "max-passes must be at least 1"
  | .proportion x => "Train proportion must be between 0 and 1, got: " ++ Decimal.plain.render x
  | .format name => "Unsupported format: " ++ name

/-- A measure of how alike two vectors are. -/
inductive Kernel where
  | linear
  | rbf (gamma : Float)
  | polynomial (degree : UInt32) (gamma coef0 : Float)
deriving DecidableEq, Repr

namespace Kernel

/-- Whether a parameter is positive and finite. -/
def isPositive (x : Float) : Bool :=
  0 < x && x.isFinite

/-- A kernel by distance. -/
def mkRbf (gamma : Float) : Except ParameterFault Kernel :=
  if isPositive gamma then .ok (.rbf gamma) else .error (.gamma gamma)

/-- A kernel by a power of the inner product. -/
def mkPolynomial (degree : UInt32) (gamma coef0 : Float) : Except ParameterFault Kernel :=
  if degree = 0 then .error .degree
  else if isPositive gamma then .ok (.polynomial degree gamma coef0)
  else .error (.gamma gamma)

/-- The kernel with a name and the parameters that it takes. -/
def ofName (name : String) (gamma : Float) (degree : UInt32) (coef0 : Float) :
    Except ParameterFault Kernel :=
  let name := String.ofList (name.toList.map Char.toLower)
  if name = "linear" then .ok .linear
  else if name = "rbf" then mkRbf gamma
  else if name = "poly" || name = "polynomial" then mkPolynomial degree gamma coef0
  else .error (.kernel name)

/-- The class name of a kernel. -/
def className : Kernel → String
  | .linear => "LinearKernel"
  | .rbf _ => "RBFKernel"
  | .polynomial .. => "PolynomialKernel"

/-- The kernel as diagnostics show it. -/
def render : Kernel → String
  | .linear => "Linear"
  | .rbf gamma => "Rbf \x7b gamma: " ++ Decimal.recorded.render gamma ++ " \x7d"
  | .polynomial degree gamma coef0 =>
      "Polynomial \x7b degree: " ++ toString degree ++ ", gamma: " ++
        Decimal.recorded.render gamma ++ ", coef0: " ++ Decimal.recorded.render coef0 ++ " \x7d"

/-- The record of a kernel. -/
def record : Kernel → Record
  | .linear => .rebuildable .component "LinearKernel" [] []
  | .rbf gamma => .rebuildable .component "RBFKernel" [("gamma", .double gamma)] []
  | .polynomial degree gamma coef0 =>
      .rebuildable .component "PolynomialKernel"
        [("degree", .long (Int64.ofNat degree.toNat)), ("gamma", .double gamma),
          ("coef0", .double coef0)] []

/-- Whether two kernels agree, their parameters as numbers. -/
def agrees : Kernel → Kernel → Bool
  | .linear, .linear => true
  | .rbf g, .rbf h => g == h
  | .polynomial d g c, .polynomial e h b => d == e && g == h && c == b
  | _, _ => false

/-- The shifted inner product to a power; the degree is taken as a signed 32-bit exponent. -/
def polynomialValue {α : Type} [Scalar α] (degree : UInt32) (gamma coef0 : α)
    (x y : SparseVector α) : α :=
  Scalar.power (gamma * x.dot y + coef0) degree.toInt32.toInt

/-- The value of a kernel; nothing if a vector lacks a value that the kernel asks for. -/
def value? (k : Kernel) (x y : SparseVector Float) : Option Float :=
  match k with
  | .linear => some (x.dot y)
  | .rbf gamma => (x.squaredDistance? y).map fun d => Float.exp (-gamma * d)
  | .polynomial degree gamma coef0 => some (polynomialValue degree gamma coef0 x y)

end Kernel

/-! ## Laws -/

namespace SparseVector

variable {α : Type} [Scalar α]

theorem dotFrom_comm (hmul : ∀ a b : α, a * b = b * a) (sum : α) (xs ys : List (Nat × α)) :
    dotFrom sum xs ys = dotFrom sum ys xs := by
  fun_induction dotFrom sum xs ys with
  | case1 sum ys => cases ys <;> simp [dotFrom]
  | case2 sum x xs => simp [dotFrom]
  | case3 sum a xs j b ys ih => rw [dotFrom, if_pos rfl, ih, hmul a b]
  | case4 sum i a xs j b ys hne hlt ih =>
      have h1 : ¬ j = i := fun h => hne h.symm
      have h2 : ¬ j < i := Nat.lt_asymm hlt
      simp [dotFrom, ih, h1, h2]
  | case5 sum i a xs j b ys hne hge ih =>
      have h1 : ¬ j = i := fun h => hne h.symm
      have h2 : j < i := by omega
      simp [dotFrom, ih, h1, h2]

/-- Over a commutative scalar the inner product is symmetric. -/
theorem dot_comm (hmul : ∀ a b : α, a * b = b * a) (x y : SparseVector α) :
    x.dot y = y.dot x :=
  dotFrom_comm hmul 0 x.entries y.entries

end SparseVector
end Retrace
