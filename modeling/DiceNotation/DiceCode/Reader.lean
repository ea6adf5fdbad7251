import DiceNotation.DiceCode.Finding

/-!
# Reading dice codes

All rules are applied to the code, and what they find is put together.  A code is well-formed if

* no key is set by two findings, even of the same rule,
* every character that is not blank belongs to a finding,
* an `@` only ends a list of ranks, and
* one of the settings is the amount.

The first of these that fails is the error, in this order; within the first, findings are taken
rule by rule, and a rule whose finding holds an unusable number fails before its findings are
compared with those of others.

The rules are a parameter of `readWith`.  On a well-formed code their order does not matter, because
every key is then set at most once.
-/

namespace DiceNotation.DiceCode

open Text

/-- What has been found so far: settings with the rules they come from, and the stretches that are
accounted for. -/
structure Draft where
  settings : List (Setting × Rule) := []
  spans : List (Nat × Nat) := []
  deriving DecidableEq, Repr

namespace Draft

/-- The rule that has set a key. -/
def owner? (d : Draft) (k : Key) : Option Rule :=
  (d.settings.find? fun s => s.1.key = k).map Prod.snd

/-- Adds a setting of a key that has not been set. -/
def set (r : Rule) (d : Draft) (s : Setting) : Except RollError Draft :=
  match d.owner? s.key with
  | some first => .error (.conflict s.key first r)
  | none => .ok { d with settings := d.settings ++ [(s, r)] }

/-- Adds a finding of a rule. -/
def add (r : Rule) (d : Draft) (f : Finding) : Except RollError Draft :=
  f.settings.foldlM (set r) { d with spans := (f.start, f.length) :: d.spans }

/-- Adds everything that a rule finds. -/
def apply (code : Text) (d : Draft) (r : Rule) : Except RollError Draft := do
  let found ← r.find code
  found.foldlM (add r) d

/-- Whether the character at an index is accounted for. -/
def covers (d : Draft) (i : Nat) : Bool :=
  d.spans.any fun c => decide (c.1 ≤ i) && decide (i < c.1 + c.2)

/-- The characters from an index on that are neither blank nor accounted for. -/
def leftOverFrom (d : Draft) (i : Nat) : Text → Text
  | [] => []
  | c :: t =>
    let rest := leftOverFrom d (i + 1) t
    if isBlank c || d.covers i then rest else c :: rest

/-- The parameters of a code of which this has been found. -/
def finish (code : Text) (d : Draft) : Except RollError Parameters :=
  let rest := d.leftOverFrom 0 code
  let settings := d.settings.map Prod.fst
  let selects := (settings.findSome? Setting.reduction?).any Reduction.isSelector
  if !rest.isEmpty then .error (.leftOver code rest)
  else if code.contains '@' && !selects then .error (.strayAt code)
  else
    match Parameters.ofSettings? settings with
    | some parameters => .ok parameters
    | none => .error (.noAmount code)

end Draft

/-- The parameters of a code that is read by the given rules. -/
def readWith (rules : List Rule) (code : Text) : Except RollError Parameters := do
  let draft ← rules.foldlM (Draft.apply (trim code)) {}
  draft.finish (trim code)

/-- The parameters of a dice code. -/
def read (code : Text) : Except RollError Parameters := readWith Rule.all code

end DiceNotation.DiceCode
