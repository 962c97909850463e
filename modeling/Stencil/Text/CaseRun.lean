/-! # Runs of case pairs

    Case pairs come in runs: neighbouring code points (or every second one) map
    to code points at the same distance.  A case mapping is a list of runs. -/

namespace Stencil.Text

/-- The code points `first`, `first + stride`, … up to `last`, mapped to as many
    code points from `target` on. -/
structure CaseRun where
  first : Nat
  last : Nat
  stride : Nat
  target : Nat
deriving Repr, DecidableEq

/-- Whether a code point belongs to the run. -/
def CaseRun.has (run : CaseRun) (code : Nat) : Bool :=
  run.first ≤ code && code ≤ run.last && (code - run.first) % run.stride == 0

/-- The partner of a code point; one in no run is its own. -/
def CaseRun.map (runs : List CaseRun) (code : Nat) : Nat :=
  match runs.find? (·.has code) with
  | some run => run.target + (code - run.first)
  | none => code

end Stencil.Text
