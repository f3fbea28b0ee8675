import Retrace.Keyed
import Retrace.Text.Fields

/-!
# Arguments

The arguments of a command are options and operands.  An option has a long name after two hyphens
and may have a letter; letters can be grouped after one hyphen.  An option is a flag, or a value
belongs to it, or the reading ends at it.  A value stands in the next argument, after an equals
sign, or right behind the letter; in an argument of its own it does not start with a hyphen unless
it is one.  After two hyphens alone, every argument is an operand.  No option is given twice.

Main results:

- Theorem `distinct_scan`: the options that were read have different names.
- Theorem `scan_equals`: a value after an equals sign is taken as it stands.
-/

namespace Retrace
namespace CommandLine

/-- What an option does with what follows it. -/
inductive OptionRole where
  | flag
  | value
  /-- nothing that follows is read -/
  | last
deriving DecidableEq, Repr

/-- An option that a command knows. -/
structure OptionSpec where
  name : String
  letter : Option Char
  role : OptionRole
deriving DecidableEq, Repr

/-- Why the reading of arguments ends early. -/
inductive Stop where
  | misuse
  /-- an option was met that ends the reading -/
  | reached (name : String)
deriving DecidableEq, Repr

/-- The options that were given, each with its value, and the operands. -/
structure Given where
  options : List (String × String)
  operands : List String
deriving DecidableEq, Repr

/-- What an argument looks like. -/
inductive Shape where
  | long (name : String) (value : Option String)
  | letters (group : List Char)
  /-- two hyphens alone -/
  | divider
  | operand
deriving DecidableEq, Repr

/-- The shape of an argument. -/
def shape (argument : String) : Shape :=
  match argument.toList with
  | ['-', '-'] => .divider
  | '-' :: '-' :: rest =>
      match Text.cutAt '=' rest with
      | some (name, value) => .long (String.ofList name) (some (String.ofList value))
      | none => .long (String.ofList rest) none
  | ['-'] => .operand
  | '-' :: group => .letters group
  | _ => .operand

namespace Given

/-- Nothing given. -/
def empty : Given :=
  ⟨[], []⟩

/-- One more option with its value; none is given twice. -/
def addOption (g : Given) (name value : String) : Except Stop Given :=
  if Keyed.hasKey name g.options then .error .misuse
  else .ok { g with options := g.options ++ [(name, value)] }

/-- One more operand. -/
def addOperand (g : Given) (text : String) : Given :=
  { g with operands := g.operands ++ [text] }

/-- Whether the options have different names. -/
def Distinct (g : Given) : Prop :=
  (g.options.map Prod.fst).Nodup

end Given

/-- What was given so far, with the name of an option that still waits for its value. -/
abbrev Progress := Given × Option String

/-- Take an option that has no value attached to it. -/
def takeBare (g : Given) (spec : OptionSpec) : Except Stop Progress :=
  match spec.role with
  | .flag => (g.addOption spec.name "").map fun g => (g, none)
  | .value => .ok (g, some spec.name)
  | .last => .error (.reached spec.name)

/-- Take a long option. -/
def takeLong (specs : List OptionSpec) (g : Given) (name : String) (value : Option String) :
    Except Stop Progress :=
  match specs.find? fun spec => spec.name == name with
  | none => .error .misuse
  | some spec =>
      match value with
      | none => takeBare g spec
      | some value =>
          if spec.role = .value then (g.addOption name value).map fun g => (g, none)
          else .error .misuse

/-- Take a group of letters: flags, and at most one option at the end that has the rest of the group
as its value. -/
def takeLetters (specs : List OptionSpec) (g : Given) : List Char → Except Stop Progress
  | [] => .ok (g, none)
  | c :: rest =>
      match specs.find? fun spec => spec.letter == some c with
      | none => .error .misuse
      | some spec =>
          if spec.role = .value then
            match rest with
            | [] => .ok (g, some spec.name)
            | '=' :: value =>
                (g.addOption spec.name (String.ofList value)).map fun g => (g, none)
            | value => (g.addOption spec.name (String.ofList value)).map fun g => (g, none)
          else
            match takeBare g spec with
            | .error stop => .error stop
            | .ok (g, _) => takeLetters specs g rest

/-- Take an argument that is no operand. -/
def takeOption (specs : List OptionSpec) (g : Given) : Shape → Except Stop Progress
  | .long name value => takeLong specs g name value
  | .letters group => takeLetters specs g group
  | _ => .error .misuse

/-- Read arguments after what was given before them; `waiting` names an option whose value is to
come. -/
def scan (specs : List OptionSpec) (g : Given) (waiting : Option String) :
    List String → Except Stop Given
  | [] => if waiting.isSome then .error .misuse else .ok g
  | argument :: rest =>
      match waiting, shape argument with
      | some name, .operand =>
          match g.addOption name argument with
          | .error stop => .error stop
          | .ok g => scan specs g none rest
      | some _, _ => .error .misuse
      | none, .operand => scan specs (g.addOperand argument) none rest
      | none, .divider => .ok (rest.foldl Given.addOperand g)
      | none, option =>
          match takeOption specs g option with
          | .error stop => .error stop
          | .ok (g, waiting) => scan specs g waiting rest

/-! ## Laws -/

/-- An option that is accepted was not given before. -/
theorem distinct_addOption {g h : Given} {name value : String} (hg : g.Distinct)
    (heq : g.addOption name value = .ok h) : h.Distinct := by
  unfold Given.addOption at heq
  split at heq
  · simp at heq
  · rename_i hkey
    simp only [Except.ok.injEq] at heq
    subst heq
    have hfresh : name ∉ g.options.map Prod.fst := by
      intro hmem
      obtain ⟨e, he, rfl⟩ := List.mem_map.1 hmem
      exact hkey (List.any_eq_true.2 ⟨e, he, by simp⟩)
    simp only [Given.Distinct, List.map_append, List.map_cons, List.map_nil]
    rw [List.nodup_append]
    refine ⟨hg, by simp, ?_⟩
    intro a ha b hb
    simp only [List.mem_singleton] at hb
    subst hb
    exact fun h => hfresh (h ▸ ha)

/-- A flag that is accepted was not given before. -/
theorem distinct_takeBare {g : Given} {spec : OptionSpec} {p : Progress} (hg : g.Distinct)
    (heq : takeBare g spec = .ok p) : p.1.Distinct := by
  unfold takeBare at heq
  split at heq
  · cases hadd : g.addOption spec.name "" with
    | error stop => simp [hadd, Except.map] at heq
    | ok h =>
        simp only [hadd, Except.map, Except.ok.injEq] at heq
        subst heq
        exact distinct_addOption hg hadd
  · simp only [Except.ok.injEq] at heq
    subst heq
    exact hg
  · simp at heq

theorem distinct_attach {g : Given} {name value : String} {p : Progress} (hg : g.Distinct)
    (heq : (g.addOption name value).map (fun g => (g, (none : Option String))) = .ok p) :
    p.1.Distinct := by
  cases hadd : g.addOption name value with
  | error stop => simp [hadd, Except.map] at heq
  | ok h =>
      simp only [hadd, Except.map, Except.ok.injEq] at heq
      subst heq
      exact distinct_addOption hg hadd

/-- Reading a long option keeps the options distinct. -/
theorem distinct_takeLong {specs : List OptionSpec} {g : Given} {name : String}
    {value : Option String} {p : Progress} (hg : g.Distinct)
    (heq : takeLong specs g name value = .ok p) : p.1.Distinct := by
  unfold takeLong at heq
  split at heq
  · simp at heq
  · split at heq
    · exact distinct_takeBare hg heq
    · split at heq
      · exact distinct_attach hg heq
      · simp at heq

theorem distinct_takeLetters {specs : List OptionSpec} {group : List Char} :
    ∀ {g : Given} {p : Progress}, g.Distinct → takeLetters specs g group = .ok p →
      p.1.Distinct := by
  induction group with
  | nil =>
      intro g p hg heq
      simp only [takeLetters, Except.ok.injEq] at heq
      subst heq
      exact hg
  | cons c rest ih =>
      intro g p hg heq
      unfold takeLetters at heq
      split at heq
      · simp at heq
      · split at heq
        · split at heq
          · simp only [Except.ok.injEq] at heq
            subst heq
            exact hg
          · exact distinct_attach hg heq
          · exact distinct_attach hg heq
        · split at heq
          · simp at heq
          · rename_i hbare
            exact ih (distinct_takeBare hg hbare) heq

theorem distinct_takeOption {specs : List OptionSpec} {g : Given} {s : Shape} {p : Progress}
    (hg : g.Distinct) (heq : takeOption specs g s = .ok p) : p.1.Distinct := by
  unfold takeOption at heq
  split at heq
  · exact distinct_takeLong hg heq
  · exact distinct_takeLetters hg heq
  · simp at heq

theorem options_foldl_addOperand (rest : List String) :
    ∀ g : Given, (rest.foldl Given.addOperand g).options = g.options := by
  induction rest with
  | nil => exact fun _ => rfl
  | cons text rest ih => exact fun g => ih (g.addOperand text)

/-- The options that were read have different names. -/
theorem distinct_scan {specs : List OptionSpec} {arguments : List String} :
    ∀ {g h : Given} {waiting : Option String}, g.Distinct →
      scan specs g waiting arguments = .ok h → h.Distinct := by
  induction arguments with
  | nil =>
      intro g h waiting hg heq
      unfold scan at heq
      split at heq
      · simp at heq
      · simp only [Except.ok.injEq] at heq
        exact heq ▸ hg
  | cons argument rest ih =>
      intro g h waiting hg heq
      unfold scan at heq
      split at heq
      · split at heq
        · simp at heq
        · rename_i hadd
          exact ih (distinct_addOption hg hadd) heq
      · simp at heq
      · exact ih (g := g.addOperand argument) hg heq
      · simp only [Except.ok.injEq] at heq
        subst heq
        simpa [Given.Distinct, options_foldl_addOperand] using hg
      · split at heq
        · simp at heq
        · rename_i hoption
          exact ih (distinct_takeOption hg hoption) heq

/-- A value after an equals sign is taken as it stands. -/
theorem scan_equals {specs : List OptionSpec} {spec : OptionSpec} {argument value : String}
    {g h : Given} (rest : List String)
    (hfind : specs.find? (fun s => s.name == spec.name) = some spec) (hrole : spec.role = .value)
    (hshape : shape argument = .long spec.name (some value))
    (hadd : g.addOption spec.name value = .ok h) :
    scan specs g none (argument :: rest) = scan specs h none rest := by
  simp [scan, hshape, takeOption, takeLong, hfind, hrole, hadd, Except.map]

end CommandLine
end Retrace
