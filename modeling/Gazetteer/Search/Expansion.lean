import Gazetteer.Geometry.World
import Gazetteer.Search.Limits

/-! Growing viewports. A viewport is searched, made larger by the square root of two, and searched
again, until all is covered, a limit is reached, or growing brings nothing new. -/
namespace Gazetteer

variable {α σ ε : Type}

/-- What is done in each viewport. -/
structure Survey (α σ ε : Type) where
  /-- Searches a viewport: the events in it, and the state after it. -/
  visit : Rect α → σ → List ε × σ
  /-- Nothing is left to be found in a larger viewport. -/
  covered : σ → Bool
  /-- How many features are found. -/
  found : σ → Nat

/-- One viewport that was searched. -/
structure Round (α σ ε : Type) where
  /-- The factor of the round, before the ceiling is applied to it. -/
  factor : α
  viewport : Rect α
  events : List ε
  after : σ

/-- Why there is no further round. -/
inductive Ending where
  | covered
  | ceiling
  | enough
  /-- The viewport does not grow any more where it matters. -/
  | still
  /-- The next viewport is not finite. -/
  | overflow
  /-- The rounds allowed are used up. -/
  | exhausted
deriving DecidableEq, Repr

section
variable [Scalar α]

/-- The factor from one round to the next: the binary64 number nearest to the square root of two. -/
@[specialize] def growth : α := ((6369051672525773 : Nat) : α) / (Binary64.leadingBit : α)

/-- The factor, no larger than the ceiling. A ceiling that is not a number does not bind. -/
@[specialize] def Limits.capped (limits : Limits α) (factor : α) : α :=
  match limits.ceiling with
  | some c => if c < factor then c else factor
  | none => factor

/-- Along one axis, the interval `after` goes beyond the interval `before`, which does not span the
world already. -/
@[specialize] def axisGrows (before after : α × α) : Bool :=
  !(before.1 ≤ World.lower && World.upper ≤ before.2)
    && (after.1 < before.1 || before.2 < after.2)

/-- A larger viewport may hold what the smaller one does not. -/
@[specialize] def Rect.grows (before after : Rect α) : Bool :=
  axisGrows (before.lo.x, before.hi.x) (after.lo.x, after.hi.x)
    || axisGrows (before.lo.y, before.hi.y) (after.lo.y, after.hi.y)

/-- Why a round is the last one, if it is. -/
@[specialize] def Round.ending? (survey : Survey α σ ε) (limits : Limits α)
    (previous : Option (Rect α)) (r : Round α σ ε) : Option Ending :=
  if survey.covered r.after then some .covered
  else if limits.ceiling.any (· ≤ r.factor) then some .ceiling
  else if limits.enough.any (·.toNat ≤ survey.found r.after) then some .enough
  else if previous.any (!Rect.grows · r.viewport) then some .still
  else none

/-- The rounds from a factor on, and why they end. -/
@[specialize] def expandFrom (survey : Survey α σ ε) (limits : Limits α) (start : Rect α) :
    (fuel : Nat) → (factor : α) → (previous : Option (Rect α)) → σ → List (Round α σ ε) × Ending
  | 0, _, _, _ => ([], .exhausted)
  | fuel + 1, factor, previous, state =>
    let viewport := start.scaled (limits.capped factor)
    if !viewport.isFinite then ([], .overflow)
    else
      let (events, after) := survey.visit viewport state
      let round : Round α σ ε := ⟨factor, viewport, events, after⟩
      match round.ending? survey limits previous with
      | some ending => ([round], ending)
      | none =>
        let (rounds, ending) := expandFrom survey limits start fuel (factor * growth) viewport after
        (round :: rounds, ending)

/-- How many rounds there can be: the factor of a further one would be infinite. -/
def roundLimit : Nat := 2048

@[specialize] def expand (survey : Survey α σ ε) (limits : Limits α) (start : Rect α) (state : σ) :
    List (Round α σ ε) × Ending :=
  expandFrom survey limits start (roundLimit + 1) ((1 : Nat) : α) none state

end

def stateAfter (state : σ) (rounds : List (Round α σ ε)) : σ :=
  (rounds.getLast?.map (·.after)).getD state

end Gazetteer
