import Caret.Failure

/-!
How deep a run is inside the containers of a grammar, and the first failure for going too deep. Each grammar has a gauge
of its own; gauges outlive a run, so a grammar that is used again starts from what the last run left.
-/

namespace Caret

structure Nesting where
  depth : Nat := 0
  overflow : Option Failure := none
deriving DecidableEq, Repr

namespace Nesting

def enter (nesting : Nesting) : Nesting :=
  { nesting with depth := nesting.depth + 1 }

def leave (nesting : Nesting) : Nesting :=
  { nesting with depth := nesting.depth - 1 }

/-- Keeps the first failure and no later one. -/
def record (nesting : Nesting) (failure : Failure) : Nesting :=
  { nesting with overflow := nesting.overflow.or (some failure) }

def forget (nesting : Nesting) : Nesting :=
  { nesting with overflow := none }

end Nesting

/-- The gauges of all grammars, by number; a gauge never set stands at depth zero. -/
abbrev Gauges := List (Nat × Nesting)

namespace Gauges

def get (gauge : Nat) : Gauges → Nesting
  | [] => {}
  | (key, nesting) :: rest => if key = gauge then nesting else get gauge rest

def set (gauge : Nat) (nesting : Nesting) : Gauges → Gauges
  | [] => [(gauge, nesting)]
  | (key, old) :: rest =>
    if key = gauge then (gauge, nesting) :: rest else (key, old) :: set gauge nesting rest

def modify (gauge : Nat) (change : Nesting → Nesting) (gauges : Gauges) : Gauges :=
  gauges.set gauge (change (gauges.get gauge))

@[simp] theorem get_set_self (gauge : Nat) (nesting : Nesting) (gauges : Gauges) :
    (gauges.set gauge nesting).get gauge = nesting := by
  induction gauges with
  | nil => simp [set, get]
  | cons entry rest ih =>
    by_cases same : entry.1 = gauge <;> simp [set, get, same, ih]

theorem get_set_other {gauge other : Nat} (different : other ≠ gauge) (nesting : Nesting) (gauges : Gauges) :
    (gauges.set gauge nesting).get other = gauges.get other := by
  induction gauges with
  | nil => simp [set, get, Ne.symm different]
  | cons entry rest ih =>
    by_cases same : entry.1 = gauge
    · simp [set, get, same, Ne.symm different]
    · simp [set, get, same, ih]

end Gauges

end Caret
