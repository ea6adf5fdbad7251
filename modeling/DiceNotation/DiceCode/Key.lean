/-!
# What a dice code can say

A dice code sets some of eight parameters, its *keys*.  It is read by nine *rules*, each of which
looks for one way of setting some of them; the threshold rule sets three keys at once, and the
reduction can be set by three rules.
-/

namespace DiceNotation.DiceCode

/-- The parameters of a dice code. -/
inductive Key where
  | amount
  | sides
  | rerolls
  | sort
  | explosion
  | reduction
  | difficulty
  | oneBehaviour
  deriving DecidableEq, Repr

namespace Key

/-- What a key is called in messages. -/
def name : Key → String
  | amount => "amount"
  | sides => "sides"
  | rerolls => "rerolls"
  | sort => "sort"
  | explosion => "explosion"
  | reduction => "returnfun"
  | difficulty => "difficulty"
  | oneBehaviour => "onebehaviour"

/-- Every key. -/
def all : List Key :=
  [amount, sides, rerolls, sort, explosion, reduction, difficulty, oneBehaviour]

theorem mem_all (k : Key) : k ∈ all := by
  cases k <;> decide

end Key

/-- The rules by which a dice code is read. -/
inductive Rule where
  | selectors
  | sides
  | rerolls
  | sort
  | amount
  | literal
  | suffix
  | threshold
  | explosion
  deriving DecidableEq, Repr

namespace Rule

/-- What a rule is called in messages. -/
def name : Rule → String
  | selectors => "selectors"
  | sides => "sides"
  | rerolls => "rerolls"
  | sort => "sort"
  | amount => "amount"
  | literal => "literal"
  | suffix => "return"
  | threshold => "threshold"
  | explosion => "explosion"

/-- Every rule, in the order in which they are tried. -/
def all : List Rule :=
  [selectors, sides, rerolls, sort, amount, literal, suffix, threshold, explosion]

theorem mem_all (r : Rule) : r ∈ all := by
  cases r <;> decide

end Rule

end DiceNotation.DiceCode
