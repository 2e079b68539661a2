import Gazetteer.Proofs.Binary64.Finiteness
import Gazetteer.Proofs.Search.Growth
import Gazetteer.Search.Basic

/-! Searches end. A loop that nothing bounds ends within the rounds that are allowed, whatever the
viewport, the limits and the partitions are: at the latest when the factor has become infinite. Then
either the viewport is not finite, or a ceiling below the factor is reached. -/
namespace Gazetteer
open Binary64

variable {α σ ε : Type}

section
variable [Scalar α] (survey : Survey α σ ε) (limits : Limits α) (start : Rect α)

def Survey.roundAt (factor : α) (state : σ) : Round α σ ε :=
  let viewport := start.scaled (limits.capped factor)
  ⟨factor, viewport, (survey.visit viewport state).1, (survey.visit viewport state).2⟩

/-- The loop from a factor on, as it goes if nothing bounds it: how often it is entered, its rounds,
and why there is no further one. -/
inductive Expands : (iterations : Nat) → (factor : α) → (previous : Option (Rect α)) → σ →
    List (Round α σ ε) → Ending → Prop
  | overflow {factor previous state}
      (infinite : (start.scaled (limits.capped factor)).isFinite = false) :
      Expands 1 factor previous state [] .overflow
  | last {factor previous state ending}
      (finite : (start.scaled (limits.capped factor)).isFinite = true)
      (ends : (survey.roundAt limits start factor state).ending? survey limits previous =
        some ending) :
      Expands 1 factor previous state [survey.roundAt limits start factor state] ending
  | next {iterations factor previous state rounds ending}
      (finite : (start.scaled (limits.capped factor)).isFinite = true)
      (goesOn : (survey.roundAt limits start factor state).ending? survey limits previous = none)
      (rest : Expands iterations (factor * growth)
        (some (survey.roundAt limits start factor state).viewport)
        (survey.roundAt limits start factor state).after rounds ending) :
      Expands (iterations + 1) factor previous state
        (survey.roundAt limits start factor state :: rounds) ending

variable {survey limits start}

private theorem Round.ending?_ne_exhausted (previous : Option (Rect α)) (r : Round α σ ε) :
    r.ending? survey limits previous ≠ some .exhausted := by
  unfold Round.ending?
  split_ifs <;> simp

/-- One iteration of the bounded loop. -/
theorem expandFrom_succ (fuel : Nat) (factor : α) (previous : Option (Rect α)) (state : σ) :
    expandFrom survey limits start (fuel + 1) factor previous state =
      let round := survey.roundAt limits start factor state
      if (start.scaled (limits.capped factor)).isFinite then
        match round.ending? survey limits previous with
        | some ending => ([round], ending)
        | none =>
          let rest := expandFrom survey limits start fuel (factor * growth) (some round.viewport)
            round.after
          (round :: rest.1, rest.2)
      else ([], .overflow) := by
  rw [expandFrom]
  cases h : (start.scaled (limits.capped factor)).isFinite <;> rfl

namespace Expands
variable {n m fuel : Nat} {factor : α} {previous : Option (Rect α)} {state : σ}
  {rounds rounds' : List (Round α σ ε)} {ending ending' : Ending}

/-- The bounded loop does the same, if the bound is not less than the iterations. -/
theorem expandFrom_eq (h : Expands survey limits start n factor previous state rounds ending)
    (hfuel : n ≤ fuel) :
    expandFrom survey limits start fuel factor previous state = (rounds, ending) := by
  induction h generalizing fuel with
  | overflow infinite =>
    obtain ⟨fuel, rfl⟩ := Nat.exists_eq_add_of_le' hfuel
    simp only [expandFrom_succ, infinite, Bool.false_eq_true, if_false]
  | last finite ends =>
    obtain ⟨fuel, rfl⟩ := Nat.exists_eq_add_of_le' hfuel
    simp only [expandFrom_succ, finite, if_true, ends]
  | next finite goesOn rest ih =>
    obtain ⟨fuel, rfl⟩ := Nat.exists_eq_add_of_le' hfuel
    rw [← Nat.add_assoc] at hfuel ⊢
    have hrest := ih (Nat.le_of_succ_le_succ hfuel)
    simp only [expandFrom_succ, finite, if_true, goesOn, hrest]

private theorem ending_ne_exhausted
    (h : Expands survey limits start n factor previous state rounds ending) :
    ending ≠ .exhausted := by
  induction h with
  | overflow infinite => nofun
  | last finite ends => exact fun he => Round.ending?_ne_exhausted _ _ (he ▸ ends)
  | next finite goesOn rest ih => exact ih

/-- How often the loop is entered is determined, and so is what it gives. -/
theorem unique (h : Expands survey limits start n factor previous state rounds ending)
    (h' : Expands survey limits start m factor previous state rounds' ending') :
    m = n ∧ rounds' = rounds ∧ ending' = ending := by
  induction h generalizing m rounds' ending' with
  | overflow infinite =>
    cases h' with
    | overflow => exact ⟨rfl, rfl, rfl⟩
    | last finite => exact absurd (infinite.symm.trans finite) Bool.false_ne_true
    | next finite => exact absurd (infinite.symm.trans finite) Bool.false_ne_true
  | last finite ends =>
    cases h' with
    | overflow infinite => exact absurd (infinite.symm.trans finite) Bool.false_ne_true
    | last _ ends' => exact ⟨rfl, rfl, Option.some.inj (ends'.symm.trans ends)⟩
    | next _ goesOn => cases goesOn.symm.trans ends
  | next finite goesOn rest ih =>
    cases h' with
    | overflow infinite => exact absurd (infinite.symm.trans finite) Bool.false_ne_true
    | last _ ends => cases goesOn.symm.trans ends
    | next _ _ rest' =>
      obtain ⟨rfl, rfl, rfl⟩ := ih rest'
      exact ⟨rfl, rfl, rfl⟩

end Expands
end

/-- A viewport scaled by a factor is finite only if the factor is. -/
theorem Rect.isFinite_of_isFinite_scaled {v : Rect Binary64} {x : Binary64}
    (h : (v.scaled x).isFinite = true) : x.isFinite = true := by
  have hreach : ((scaledAxis v.lo.x v.hi.x x).1).isFinite = true := by
    simp only [scaled_eq, Rect.isFinite, Bool.and_eq_true] at h
    exact h.1.1.1
  have hhalf : ((v.hi.x - v.lo.x) * x / (2 : Nat)).isFinite = true := by
    simp only [scaledAxis] at hreach
    split at hreach
    · exact (isFinite_of_isFinite_sub hreach).2
    · exact (isFinite_of_isFinite_add hreach).2
  exact (isFinite_of_isFinite_mul (isFinite_of_isFinite_div hhalf)).2

private theorem ends_of_isFinite_eq_false (survey : Survey Binary64 σ ε) {limits : Limits Binary64}
    {start : Rect Binary64} {x : Binary64} (hx : x.isFinite = false)
    (hfinite : (start.scaled (limits.capped x)).isFinite = true) (previous : Option (Rect Binary64))
    (state : σ) :
    ∃ ending, (survey.roundAt limits start x state).ending? survey limits previous = some ending := by
  have hceiling : limits.ceiling.any (· ≤ x) = true := by
    have hcapped := Rect.isFinite_of_isFinite_scaled hfinite
    unfold Limits.capped at hcapped
    split at hcapped
    · next c hc =>
      split at hcapped
      · next hlt =>
        rw [hc]
        exact decide_eq_true (le_of_lt hlt)
      · exact absurd (hx.symm.trans hcapped) Bool.false_ne_true
    · exact absurd (hx.symm.trans hcapped) Bool.false_ne_true
  have hceiling' : limits.ceiling.any (· ≤ (survey.roundAt limits start x state).factor) = true :=
    hceiling
  unfold Round.ending?
  rw [if_pos hceiling']
  split
  · exact ⟨_, rfl⟩
  · exact ⟨_, rfl⟩

/-- The loop ends at the latest when the factor is not finite any more. -/
theorem exists_expands (survey : Survey Binary64 σ ε) (limits : Limits Binary64)
    (start : Rect Binary64) {k : Nat} {x : Binary64}
    (hx : ((· * growth)^[k] x : Binary64).isFinite = false)
    (previous : Option (Rect Binary64)) (state : σ) :
    ∃ n ≤ k + 1, ∃ rounds ending,
      Expands survey limits start n x previous state rounds ending := by
  -- The induction is on how many rounds the factor is from one that is not finite.
  induction k generalizing x previous state with
  | zero =>
    cases hfinite : (start.scaled (limits.capped x)).isFinite with
    | false => exact ⟨1, le_rfl, _, _, .overflow hfinite⟩
    | true =>
      obtain ⟨ending, hends⟩ := ends_of_isFinite_eq_false survey hx hfinite previous state
      exact ⟨1, le_rfl, _, _, .last hfinite hends⟩
  | succ k ih =>
    cases hfinite : (start.scaled (limits.capped x)).isFinite with
    | false => exact ⟨1, by omega, _, _, .overflow hfinite⟩
    | true =>
      cases hends : (survey.roundAt limits start x state).ending? survey limits previous with
      | some ending => exact ⟨1, by omega, _, _, .last hfinite hends⟩
      | none =>
        obtain ⟨n, hn, rounds, ending, hrest⟩ := ih hx
          (some (survey.roundAt limits start x state).viewport)
          (survey.roundAt limits start x state).after
        exact ⟨n + 1, by omega, _, _, .next hfinite hends hrest⟩

section
variable {x : Binary64} {f : ℚ}

/-- While the factor is finite, it is rounded from the exact one. -/
theorem exists_next_of_isFinite (hx : x.Is f) (h : (x * growth).isFinite = true) :
    ∃ g, (x * growth).Is g ∧ Rounded (f * (6369051672525773 / 2 ^ 52)) g :=
  nearest_mul_of_isFinite hx is_growth h

private theorem representable_growth {k : Nat} (hk : k ≤ 1023) :
    Representable ((2 : ℚ) ^ k * (6369051672525773 / 2 ^ 52)) := by
  refine ⟨6369051672525773, k - 52, by norm_num, by omega, by omega, ?_⟩
  rw [zpow_sub₀ (by norm_num), zpow_natCast]
  norm_num
  ring

/-- One round takes a factor from a power of two to at least the square root of two times this. -/
theorem le_next {k : Nat} (hk : k ≤ 1023) (hx : x.Is f) (hf : 2 ^ k ≤ f)
    (h : (x * growth).isFinite = true) :
    ∃ g, (x * growth).Is g ∧ (2 : ℚ) ^ k * (6369051672525773 / 2 ^ 52) ≤ g := by
  obtain ⟨g, hg, hround⟩ := exists_next_of_isFinite hx h
  exact ⟨g, hg, hround.ge (representable_growth hk)
    (mul_le_mul_of_nonneg_right hf (by norm_num))⟩

private theorem two_pow_succ_le {k : Nat} {g : ℚ}
    (hg : (2 : ℚ) ^ k * (6369051672525773 / 2 ^ 52) ≤ g) :
    2 ^ (k + 1) ≤ g * (6369051672525773 / 2 ^ 52) :=
  calc (2 : ℚ) ^ (k + 1) = 2 ^ k * 2 := pow_succ 2 k
    _ ≤ 2 ^ k * (6369051672525773 / 2 ^ 52 * (6369051672525773 / 2 ^ 52)) :=
      mul_le_mul_of_nonneg_left (by norm_num) (by positivity)
    _ = 2 ^ k * (6369051672525773 / 2 ^ 52) * (6369051672525773 / 2 ^ 52) := (mul_assoc ..).symm
    _ ≤ g * (6369051672525773 / 2 ^ 52) := mul_le_mul_of_nonneg_right hg (by norm_num)

private theorem two_pow_le_factor {k : Nat} (hk : k ≤ 1023)
    (h : ((· * growth)^[2 * k] ((1 : Nat) : Binary64)).isFinite = true) :
    ∃ f, ((· * growth)^[2 * k] ((1 : Nat) : Binary64)).Is f ∧ 2 ^ k ≤ f := by
  -- Two rounds double the factor at least.
  induction k with
  | zero => exact ⟨1, is_one, le_rfl⟩
  | succ k ih =>
    rw [Nat.mul_succ, Function.iterate_succ_apply', Function.iterate_succ_apply'] at h ⊢
    have hnext := (isFinite_of_isFinite_mul h).1
    obtain ⟨f, hf, hle⟩ := ih (by omega) (isFinite_of_isFinite_mul hnext).1
    obtain ⟨g, hg, hle'⟩ := le_next (by omega) hf hle hnext
    obtain ⟨r, hr, hround⟩ := exists_next_of_isFinite hg h
    have hpow : Representable (2 ^ (k + 1)) := by
      have := representable_two_pow (k := (k + 1 : Nat)) (by omega) (by omega)
      rwa [zpow_natCast] at this
    exact ⟨r, hr, hround.ge hpow (two_pow_succ_le hle')⟩

private theorem isFinite_factor_roundLimit :
    ((· * growth)^[roundLimit] ((1 : Nat) : Binary64)).isFinite = false := by
  by_contra h
  rw [Bool.not_eq_false, show roundLimit = 2 * 1023 + 1 + 1 from rfl,
    Function.iterate_succ_apply', Function.iterate_succ_apply'] at h
  have hnext := (isFinite_of_isFinite_mul h).1
  obtain ⟨f, hf, hle⟩ := two_pow_le_factor le_rfl (isFinite_of_isFinite_mul hnext).1
  obtain ⟨g, hg, hle'⟩ := le_next le_rfl hf hle hnext
  have hlarge : (2 : ℚ) ^ (1024 : Int) ≤ |g * (6369051672525773 / 2 ^ 52)| :=
    (two_pow_succ_le hle').trans (le_abs_self _)
  exact absurd ((isFinite_mul_of_large hg is_growth hlarge).symm.trans h) Bool.false_ne_true

end

namespace Search

/-- The rounds and the ending of a search are those of the loop that nothing bounds, which ends
within the rounds that are allowed. -/
theorem exists_expands_expansion (s : Search) :
    ∃ n ≤ roundLimit + 1, Expands (survey s.query) s.limits s.viewport n ((1 : Nat) : Binary64) none
      s.targets s.expansion.1 s.expansion.2 := by
  obtain ⟨n, hn, rounds, ending, h⟩ := exists_expands (survey s.query) s.limits s.viewport
    isFinite_factor_roundLimit none s.targets
  have hexpansion : s.expansion = (rounds, ending) := h.expandFrom_eq hn
  rw [hexpansion]
  exact ⟨n, hn, h⟩

/-- No search is cut short. -/
theorem expansion_ne_exhausted (s : Search) : s.expansion.2 ≠ .exhausted := by
  obtain ⟨n, -, h⟩ := s.exists_expands_expansion
  exact h.ending_ne_exhausted

/-- Whatever the viewport, the partitions and the limits are, the loop that nothing bounds is
entered a certain number of times, not more than the rounds that are allowed, and then it has
ended. -/
theorem loop_ends (s : Search) :
    ∃ n ≤ roundLimit + 1, ∀ iterations rounds ending,
      Expands (survey s.query) s.limits s.viewport iterations ((1 : Nat) : Binary64) none s.targets
          rounds ending ↔
        iterations = n ∧ s.expansion = (rounds, ending) := by
  obtain ⟨n, hn, h⟩ := s.exists_expands_expansion
  refine ⟨n, hn, fun iterations rounds ending => ⟨fun h' => ?_, ?_⟩⟩
  · obtain ⟨rfl, hrounds, hending⟩ := h.unique h'
    exact ⟨rfl, Prod.ext hrounds.symm hending.symm⟩
  · rintro ⟨rfl, he⟩
    rwa [he] at h

end Search
end Gazetteer
