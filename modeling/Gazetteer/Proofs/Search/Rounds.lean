import Gazetteer.Proofs.Geometry.Exact
import Gazetteer.Proofs.Search.Termination

/-! The rounds of a search one after another. Each round but the last leads to the next one: nothing
that ends the search is reached, the factor grows by one step, and the next viewport is searched in
the state that the round left behind. The last round ends the search, unless the viewport after it
is not finite. The factors are not less than one, in binary64 as in exact numbers. -/
namespace Gazetteer

open Binary64

variable {α σ ε : Type} [Scalar α]

section
variable {limits : Limits α} {x c : α}

theorem Limits.capped_of_not_lt (h : ∀ c, limits.ceiling = some c → ¬ c < x) :
    limits.capped x = x := by
  unfold capped
  split
  · next c hc => exact if_neg (h c hc)
  · rfl

theorem Limits.capped_of_lt (hc : limits.ceiling = some c) (h : c < x) : limits.capped x = c := by
  simp only [capped, hc, if_pos h]

end

/-- Neither a limit is reached in the round, nor is all covered. -/
structure Round.GoesOn (survey : Survey α σ ε) (limits : Limits α) (r : Round α σ ε) : Prop where
  uncovered : survey.covered r.after = false
  below_ceiling : ∀ c, limits.ceiling = some c → ¬ c ≤ r.factor
  not_enough : ∀ floor, limits.enough = some floor → survey.found r.after < floor.toNat

/-- What a round ends a search for. Lack of growth is asked for last. -/
inductive Round.Ends (survey : Survey α σ ε) (limits : Limits α) (previous : Option (Rect α))
    (r : Round α σ ε) : Ending → Prop
  | covered (all : survey.covered r.after = true) : Ends survey limits previous r .covered
  | ceiling {c : α} (set : limits.ceiling = some c) (reached : c ≤ r.factor) :
    Ends survey limits previous r .ceiling
  | enough {floor : UInt64} (set : limits.enough = some floor)
    (reached : floor.toNat ≤ survey.found r.after) : Ends survey limits previous r .enough
  | still {v : Rect α} (further : r.GoesOn survey limits) (seen : previous = some v)
    (stays : v.grows r.viewport = false) : Ends survey limits previous r .still

variable (survey : Survey α σ ε) (limits : Limits α) (start : Rect α)

/-- The rounds follow from a factor and a state, each from what the one before it leaves behind. -/
def Survey.Unfolds : α → σ → List (Round α σ ε) → Prop
  | _, _, [] => True
  | factor, state, r :: rounds =>
    r = survey.roundAt limits start factor state ∧ r.viewport.isFinite = true ∧
      (rounds = [] ∨ r.GoesOn survey limits) ∧ Unfolds (factor * growth) r.after rounds

variable {survey limits start}

private theorem Round.goesOn {r : Round α σ ε} (hcovered : ¬ survey.covered r.after = true)
    (hceiling : ¬ limits.ceiling.any (· ≤ r.factor) = true)
    (henough : ¬ limits.enough.any (·.toNat ≤ survey.found r.after) = true) :
    r.GoesOn survey limits where
  uncovered := Bool.eq_false_iff.mpr hcovered
  below_ceiling c hc hle :=
    hceiling ((Option.any_eq_true ..).mpr ⟨c, hc, decide_eq_true hle⟩)
  not_enough floor hfloor := not_le.mp fun hle =>
    henough ((Option.any_eq_true ..).mpr ⟨floor, hfloor, decide_eq_true hle⟩)

private theorem Round.goesOn_of_ending? {previous : Option (Rect α)} {r : Round α σ ε}
    (h : r.ending? survey limits previous = none) : r.GoesOn survey limits := by
  unfold ending? at h
  split_ifs at h with hcovered hceiling henough
  exact goesOn hcovered hceiling henough

private theorem Round.ends_of_ending? {previous : Option (Rect α)} {r : Round α σ ε}
    {ending : Ending} (h : r.ending? survey limits previous = some ending) :
    r.Ends survey limits previous ending := by
  unfold ending? at h
  split_ifs at h with hcovered hceiling henough hstill <;> cases h
  · exact .covered hcovered
  · obtain ⟨c, hc, hle⟩ := (Option.any_eq_true ..).mp hceiling
    exact .ceiling hc (of_decide_eq_true hle)
  · obtain ⟨floor, hfloor, hle⟩ := (Option.any_eq_true ..).mp henough
    exact .enough hfloor (of_decide_eq_true hle)
  · obtain ⟨v, hv, hgrows⟩ := (Option.any_eq_true ..).mp hstill
    exact .still (goesOn hcovered hceiling henough) hv (by simpa using hgrows)

/-- Whatever ends them, the rounds of a search follow from one another. -/
theorem unfolds_expandFrom (fuel : Nat) (factor : α) (previous : Option (Rect α)) (state : σ) :
    survey.Unfolds limits start factor state
      (expandFrom survey limits start fuel factor previous state).1 := by
  induction fuel generalizing factor previous state with
  | zero => trivial
  | succ fuel ih =>
    rw [expandFrom_succ]
    dsimp only
    split
    · next hfinite =>
      split
      · exact ⟨rfl, hfinite, .inl rfl, trivial⟩
      · next hends => exact ⟨rfl, hfinite, .inr (Round.goesOn_of_ending? hends), ih ..⟩
    · trivial

namespace Survey.Unfolds
variable {factor : α} {state : σ} {rounds before rest : List (Round α σ ε)} {r next : Round α σ ε}

/-- Some rounds on, the rest of them follow in the same way; and all before them lead further. -/
theorem of_append (h : survey.Unfolds limits start factor state (before ++ rest)) :
    (∃ factor' state', survey.Unfolds limits start factor' state' rest) ∧
      (rest ≠ [] → ∀ r ∈ before, r.GoesOn survey limits) := by
  induction before generalizing factor state with
  | nil => exact ⟨⟨factor, state, h⟩, fun _ => nofun⟩
  | cons r before ih =>
    obtain ⟨-, -, hgoesOn, hrest⟩ := h
    obtain ⟨hfrom, hbefore⟩ := ih hrest
    refine ⟨hfrom, fun hne => List.forall_mem_cons.mpr ⟨hgoesOn.resolve_left ?_, hbefore hne⟩⟩
    exact List.append_ne_nil_of_right_ne_nil before hne

/-- The factor of a round, and the viewport that is searched in it. -/
theorem of_getElem? (h : survey.Unfolds limits start factor state rounds) {i : Nat}
    (hr : rounds[i]? = some r) :
    r.factor = (· * growth)^[i] factor ∧ r.viewport = start.scaled (limits.capped r.factor) ∧
      r.viewport.isFinite = true := by
  induction rounds generalizing factor state i with
  | nil => cases hr
  | cons s rounds ih =>
    obtain ⟨hs, hfinite, -, hrest⟩ := h
    cases i with
    | zero =>
      cases hr
      exact ⟨congrArg Round.factor hs, hs ▸ rfl, hfinite⟩
    | succ i => exact ih hrest hr

/-- Two rounds, one after the other. -/
theorem of_next (h : survey.Unfolds limits start factor state (before ++ r :: next :: rest)) :
    r.GoesOn survey limits ∧ next.factor = r.factor * growth ∧
      r.viewport = start.scaled (limits.capped r.factor) ∧ r.viewport.isFinite = true ∧
      next.viewport = start.scaled (limits.capped next.factor) ∧ next.viewport.isFinite = true ∧
      survey.visit next.viewport r.after = (next.events, next.after) := by
  obtain ⟨⟨factor, state, rfl, hfinite, hgoesOn, rfl, hfinite', -⟩, -⟩ := h.of_append
  exact ⟨hgoesOn.resolve_left (by simp), rfl, rfl, hfinite, rfl, hfinite', rfl⟩

end Survey.Unfolds

/-- What the last round of a loop that nothing bounds is the last for. -/
theorem Expands.last_ends {iterations : Nat} {factor : α} {previous : Option (Rect α)} {state : σ}
    {before : List (Round α σ ε)} {last : Round α σ ε} {ending : Ending}
    (h : Expands survey limits start iterations factor previous state (before ++ [last]) ending) :
    last.Ends survey limits ((before.getLast?.map (·.viewport)).or previous) ending ∨
      (start.scaled (limits.capped (last.factor * growth))).isFinite = false := by
  generalize hrounds : before ++ [last] = rounds at h
  induction h generalizing before with
  | overflow => simp at hrounds
  | last finite ends =>
    obtain ⟨rfl, hlast⟩ := List.append_eq_singleton_iff.mp hrounds |>.resolve_right (by simp)
    cases hlast
    exact .inl (Round.ends_of_ending? ends)
  | next finite goesOn rest ih =>
    cases before with
    | nil =>
      obtain ⟨rfl, rfl⟩ := List.cons.inj hrounds
      -- No round follows, so the next viewport is not finite.
      cases rest with
      | overflow infinite => exact .inr infinite
    | cons r before =>
      obtain ⟨rfl, rfl⟩ := List.cons.inj hrounds
      have := ih rfl
      cases before with
      | nil => exact this
      | cons s before => simpa [List.getLast?_cons] using this

/-- The loop with a bound that it does not come to is the loop that nothing bounds. -/
theorem exists_expands_of_expandFrom {fuel : Nat} {factor : α} {previous : Option (Rect α)} {state : σ}
    {rounds : List (Round α σ ε)} {ending : Ending}
    (h : expandFrom survey limits start fuel factor previous state = (rounds, ending))
    (hne : ending ≠ .exhausted) :
    ∃ n, Expands survey limits start n factor previous state rounds ending := by
  induction fuel generalizing factor previous state rounds with
  | zero =>
    cases h
    exact absurd rfl hne
  | succ fuel ih =>
    rw [expandFrom_succ] at h
    dsimp only at h
    split at h
    · next hfinite =>
      split at h
      · next hends =>
        cases h
        exact ⟨1, .last hfinite hends⟩
      · next hgoesOn =>
        obtain ⟨rfl, rfl⟩ := Prod.mk.inj h
        obtain ⟨n, hn⟩ := ih rfl
        exact ⟨n + 1, .next hfinite hgoesOn hn⟩
    · next hinfinite =>
      cases h
      exact ⟨1, .overflow (Bool.eq_false_iff.mpr hinfinite)⟩

/-- The ceiling does not bind in a round that goes on. -/
theorem Round.GoesOn.capped_eq {survey : Survey Binary64 σ ε} {limits : Limits Binary64}
    {r : Round Binary64 σ ε} (h : r.GoesOn survey limits) : limits.capped r.factor = r.factor :=
  Limits.capped_of_not_lt fun c hc hlt => h.below_ceiling c hc (le_of_lt hlt)

/-- Factors that are not less than one do not get so. -/
theorem one_le_next {x : Binary64} (hx : x.isFinite = true → ∃ f, x.Is f ∧ 1 ≤ f)
    (h : (x * growth).isFinite = true) : ∃ g, (x * growth).Is g ∧ 1 ≤ g := by
  obtain ⟨f, hf, hone⟩ := hx (isFinite_of_isFinite_mul h).1
  obtain ⟨g, hg, hle⟩ := le_next (k := 0) (by omega) hf (by simpa using hone) h
  exact ⟨g, hg, hle.trans' (by norm_num)⟩

/-- The factors of a search start with one. -/
theorem one_le_factor (i : Nat) (h : ((· * growth)^[i] ((1 : Nat) : Binary64)).isFinite = true) :
    ∃ f, ((· * growth)^[i] ((1 : Nat) : Binary64)).Is f ∧ 1 ≤ f := by
  induction i with
  | zero => exact ⟨1, is_one, le_rfl⟩
  | succ i ih =>
    rw [Function.iterate_succ_apply'] at h ⊢
    exact one_le_next ih h

section exact
variable {K : Type} [Field K] [LinearOrder K]

attribute [local instance (low)] Scalar.toAdd Scalar.toSub Scalar.toMul Scalar.toDiv Scalar.toNeg
  Scalar.toLE Scalar.toLT Scalar.toNatCast
attribute [local instance] exactScalar

/-- In exact numbers the ceiling is an upper bound for the factor. -/
theorem Limits.capped_exact {enough : Option UInt64} {m x : K} :
    (⟨enough, some m⟩ : Limits K).capped x = min m x := by
  simp only [capped]
  split
  · next h => rw [min_eq_left h.le]
  · next h => rw [min_eq_right (not_lt.mp h)]

theorem Round.GoesOn.capped_eq_exact {survey : Survey K σ ε} {limits : Limits K} {r : Round K σ ε}
    (h : r.GoesOn survey limits) : limits.capped r.factor = r.factor :=
  Limits.capped_of_not_lt fun c hc hlt => h.below_ceiling c hc hlt.le

variable [IsStrictOrderedRing K]

theorem one_lt_growth : (1 : K) < growth := by
  have hbit : ((leadingBit : Nat) : K) = 4503599627370496 := by
    rw [show leadingBit = 4503599627370496 from rfl, Nat.cast_ofNat]
  rw [growth, hbit, Nat.cast_ofNat, one_lt_div (by norm_num)]
  norm_num

/-- Factors start with one and do not fall. -/
theorem one_le_factor_exact (i : Nat) : 1 ≤ (· * growth)^[i] ((1 : Nat) : K) := by
  induction i with
  | zero => rw [Function.iterate_zero_apply, Nat.cast_one]
  | succ i ih =>
    rw [Function.iterate_succ_apply']
    exact one_le_mul_of_one_le_of_one_le ih one_lt_growth.le

end exact

end Gazetteer
