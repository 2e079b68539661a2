import Gazetteer.Proofs.Query.PlaceMatches
import Gazetteer.Proofs.Search.Decision
import Gazetteer.Proofs.Search.Rounds
import Gazetteer.Proofs.Search.Tour

/-! A viewport that has stopped growing, in exact numbers. Along each axis it spans the world or has
no width; so no larger factor changes what it meets or contains in the world, what is found in it,
or what a search tells. -/
namespace Gazetteer

/-- Rounds that change nothing and tell nothing, one after another. -/
theorem Survey.Chain.idle {α σ ε : Type} {survey : Survey α σ ε} {state : σ}
    {rounds : List (Round α σ ε)} (h : survey.Chain state rounds)
    (hidle : ∀ r ∈ rounds, survey.visit r.viewport state = ([], state)) :
    ∀ r ∈ rounds, r.events = [] ∧ r.after = state := by
  induction rounds with
  | nil => nofun
  | cons r rounds ih =>
    obtain ⟨hr, hrounds⟩ := List.forall_mem_cons.mp hidle
    obtain ⟨hvisit, hrest⟩ := h
    obtain ⟨hevents, hafter⟩ := Prod.mk.inj (hvisit.symm.trans hr)
    rw [hafter] at hrest
    exact List.forall_mem_cons.mpr ⟨⟨hevents, hafter⟩, ih hrest hrounds⟩

/-! Visits where the bounds of partitions are known in another kind of number. -/

section
variable {α : Type} [Scalar α] (bounds : Partition → Rect α) (q : Query)

namespace Target

def locatedIn (t : Target) (viewport : Rect α) (text : List FeatureId) (index : CellIndex) : Target :=
  let place := Ascending.ofList (q.placeMatches index t.partition.header.scales viewport)
  { t with progress := .met ⟨text, place⟩ index }

def retrieveIn (t : Target) (viewport : Rect α) : Except Failure Target :=
  match t.progress with
  | .pending => (t.opened q).map fun (text, index) => t.locatedIn q viewport text index
  | .met m index => .ok (t.locatedIn q viewport m.text index)
  | _ => .ok t

def visitIn (viewport : Rect α) (t : Target) : List Event × Target :=
  if t.isFinished || !viewport.meets (bounds t.partition) then ([], t)
  else match t.retrieveIn q viewport with
    | .error why => ([.failed t.id why], { t with progress := .failed })
    | .ok s => if viewport.contains (bounds t.partition) then (s.report, s.cover) else ([], s)

end Target

/-- A viewport is searched in every target. -/
def Search.surveyIn : Survey α (List Target) Event where
  visit := fun viewport => each (Target.visitIn bounds q viewport)
  covered := coversAll
  found := count

end

/-- With the bounds as they stand in the headers, this is the survey of a search. -/
theorem Search.surveyIn_eq_survey (q : Query) : surveyIn (·.header.bounds) q = survey q := rfl

section
variable {α : Type} [Scalar α] {bounds : Partition → Rect α} {q : Query} {v w : Rect α} {t s : Target}

namespace Target

private theorem retrieveIn_eq_ok (ht : t.isFinished = false) (h : t.retrieveIn q v = .ok s) :
    ∃ text index, s = t.locatedIn q v text index := by
  unfold retrieveIn at h
  cases hp : t.progress with
  | pending =>
    rw [hp] at h
    cases ho : t.opened q with
    | error why =>
      rw [ho] at h
      cases h
    | ok found =>
      rw [ho] at h
      cases h
      exact ⟨found.1, found.2, rfl⟩
  | met m index =>
    rw [hp] at h
    cases h
    exact ⟨m.text, index, rfl⟩
  | covered | closed | failed => simp [isFinished, hp] at ht

private theorem visitIn_registration (v : Rect α) (t : Target) :
    (visitIn bounds q v t).2.registration = t.registration := by
  unfold visitIn
  cases ht : t.isFinished with
  | true => rfl
  | false =>
    split
    · rfl
    · split
      · rfl
      · next s hs =>
        obtain ⟨text, index, rfl⟩ := retrieveIn_eq_ok ht hs
        split
        · exact cover_registration _
        · rfl

private theorem visitIn_again (hmeets : v.meets (bounds t.partition) = w.meets (bounds t.partition))
    (hcontains : v.contains (bounds t.partition) = w.contains (bounds t.partition))
    (hplace : ∀ index scales, q.placeMatches index scales v = q.placeMatches index scales w) :
    visitIn bounds q v (visitIn bounds q w t).2 = ([], (visitIn bounds q w t).2) := by
  have hdone {u : Target} (hu : u.isFinished = true) : visitIn bounds q v u = ([], u) := by
    simp [visitIn, hu]
  cases ht : t.isFinished with
  | true =>
    have hw : (visitIn bounds q w t).2 = t := by simp [visitIn, ht]
    rw [hw, hdone ht]
  | false =>
    cases hm : w.meets (bounds t.partition) with
    | false =>
      have hw : (visitIn bounds q w t).2 = t := by simp [visitIn, hm]
      rw [hw, visitIn, hmeets, hm]
      simp
    | true =>
      cases hr : t.retrieveIn q w with
      | error why =>
        have hw : (visitIn bounds q w t).2 = { t with progress := .failed } := by
          simp [visitIn, ht, hm, hr]
        rw [hw, hdone rfl]
      | ok s =>
        obtain ⟨text, index, rfl⟩ := retrieveIn_eq_ok ht hr
        cases hc : w.contains (bounds t.partition) with
        | true =>
          have hw : (visitIn bounds q w t).2 = (t.locatedIn q w text index).cover := by
            simp [visitIn, ht, hm, hr, hc]
          rw [hw, hdone rfl]
        | false =>
          have hw : (visitIn bounds q w t).2 = t.locatedIn q w text index := by
            simp [visitIn, ht, hm, hr, hc]
          have hv : (t.locatedIn q w text index).retrieveIn q v =
              .ok (t.locatedIn q w text index) := by
            simp only [retrieveIn, locatedIn, hplace]
            rfl
          rw [hm] at hmeets
          rw [hc] at hcontains
          rw [hw, visitIn, hv]
          simp only [locatedIn, partition, isFinished] at hmeets hcontains ⊢
          simp [hmeets, hcontains]

end Target
end

variable {K : Type} [Field K] [LinearOrder K]

attribute [local instance (low)] Scalar.toAdd Scalar.toSub Scalar.toMul Scalar.toDiv Scalar.toNeg
  Scalar.toLE Scalar.toLT Scalar.toNatCast
attribute [local instance] exactScalar

/-- No coordinate of the world tells the two intervals apart. -/
def Alike (i j : K × K) : Prop :=
  ∀ t, -180 ≤ t → t ≤ 180 → (i.1 ≤ t ↔ j.1 ≤ t) ∧ (t ≤ i.2 ↔ t ≤ j.2)

section
variable {p q s s₁ s₂ : K}

private theorem axisGrows_eq_false_iff {i j : K × K} :
    axisGrows i j = false ↔ (i.1 ≤ -180 ∧ 180 ≤ i.2) ∨ (i.1 ≤ j.1 ∧ j.2 ≤ i.2) := by
  simp only [axisGrows, World.lower, World.upper, Nat.cast_ofNat, Bool.and_eq_false_iff,
    Bool.not_eq_false', Bool.and_eq_true, Bool.or_eq_false_iff, decide_eq_false_iff_not, not_lt]
  exact or_congr_left (and_congr decide_eq_true_iff decide_eq_true_iff)

variable [IsStrictOrderedRing K]

private theorem eq_of_spread_le (h₁ : 0 < s₁) (h₂ : s₁ < s₂)
    (h : (Rect.spread p q s₁).1 ≤ (Rect.spread p q s₂).1) : p = q := by
  have hreach : |(q - p) * s₂ / 2| ≤ |(q - p) * s₁ / 2| := (sub_le_sub_iff_left _).mp h
  rw [abs_div, abs_div, abs_mul, abs_mul, abs_of_pos h₁, abs_of_pos (h₁.trans h₂),
    div_le_div_iff_of_pos_right (by norm_num)] at hreach
  by_contra hne
  have hwidth : 0 < |q - p| := abs_pos.mpr (sub_ne_zero.mpr (Ne.symm hne))
  exact absurd hreach (not_le.mpr (mul_lt_mul_of_pos_left h₂ hwidth))

private theorem alike_of_still (h₁ : 0 < s₁) (h₂ : s₁ < s₂) (hs : s₂ ≤ s)
    (hstill : axisGrows (Rect.spread p q s₁) (Rect.spread p q s₂) = false) :
    Alike (Rect.spread p q s) (Rect.spread p q s₁) := by
  intro t hlow hhigh
  rcases axisGrows_eq_false_iff.mp hstill with ⟨hlo, hhi⟩ | ⟨hlo, -⟩
  · have hfactor : |s₁| ≤ |s| := by
      rw [abs_of_pos h₁, abs_of_pos (by linarith)]
      linarith
    obtain ⟨hlo', hhi'⟩ := Rect.spread_widens p q hfactor
    exact ⟨iff_of_true (hlo'.trans (hlo.trans hlow)) (hlo.trans hlow),
      iff_of_true (hhigh.trans (hhi.trans hhi')) (hhigh.trans hhi)⟩
  · obtain rfl := eq_of_spread_le h₁ h₂ hlo
    simp [Rect.spread]

end

/-- No rectangle of the world tells the two viewports apart. -/
def Rect.Alike (v w : Rect K) : Prop :=
  ∀ b : Rect K, b.InWorld → v.meets b = w.meets b ∧ v.contains b = w.contains b

private theorem Rect.alike_of_axes {v w : Rect K}
    (hx : Gazetteer.Alike (v.lo.x, v.hi.x) (w.lo.x, w.hi.x))
    (hy : Gazetteer.Alike (v.lo.y, v.hi.y) (w.lo.y, w.hi.y)) : v.Alike w := by
  rintro b ⟨hlo, hhi⟩
  obtain ⟨hxlo, hxlo', hylo, hylo'⟩ := World.holds_extent_iff.mp hlo
  obtain ⟨hxhi, hxhi', hyhi, hyhi'⟩ := World.holds_extent_iff.mp hhi
  have hlox := hx b.lo.x hxlo hxlo'
  have hhix := hx b.hi.x hxhi hxhi'
  have hloy := hy b.lo.y hylo hylo'
  have hhiy := hy b.hi.y hyhi hyhi'
  refine ⟨Bool.eq_iff_iff.mpr ?_, Bool.eq_iff_iff.mpr ?_⟩
  · rw [meets_iff, meets_iff]
    exact and_congr hhix.1 (and_congr hlox.2 (and_congr hhiy.1 hloy.2))
  · rw [contains_iff, contains_iff]
    exact and_congr hlox.1 (and_congr hhix.2 (and_congr hloy.1 hhiy.2))

private theorem Search.inWorld_of_chain {bounds : Partition → Rect K} {q : Query}
    {targets : List Target} {rounds : List (Round K (List Target) Event)}
    (h : (surveyIn bounds q).Chain targets rounds)
    (hworld : ∀ t ∈ targets, (bounds t.partition).InWorld) :
    ∀ r ∈ rounds, ∀ t ∈ r.after, (bounds t.partition).InWorld := by
  induction rounds generalizing targets with
  | nil => nofun
  | cons r rounds ih =>
    obtain ⟨hr, hrest⟩ := h
    have hafter : r.after = targets.map fun t => (Target.visitIn bounds q r.viewport t).2 :=
      (congrArg Prod.snd hr).symm
    have hworld' : ∀ t ∈ r.after, (bounds t.partition).InWorld := by
      rw [hafter]
      refine List.forall_mem_map.mpr fun t ht => ?_
      rw [Target.partition, Target.visitIn_registration]
      exact hworld t ht
    exact List.forall_mem_cons.mpr ⟨hworld', ih hrest hworld'⟩

variable [IsStrictOrderedRing K]

/-- Once the viewport has stopped growing, all larger ones are alike. -/
theorem Rect.alike_of_still {v : Rect K} {s s₁ s₂ : K} (h₁ : 0 < s₁) (h₂ : s₁ < s₂) (hs : s₂ ≤ s)
    (hstill : (v.scaled s₁).grows (v.scaled s₂) = false) : (v.scaled s).Alike (v.scaled s₁) := by
  obtain ⟨hx, hy⟩ := Bool.or_eq_false_iff.mp hstill
  rw [scaled_exact, scaled_exact] at hx hy ⊢
  exact alike_of_axes (Gazetteer.alike_of_still h₁ h₂ hs hx) (Gazetteer.alike_of_still h₁ h₂ hs hy)

/-- Viewports that no rectangle of the world tells apart hold the same features. -/
theorem Query.placeMatches_of_alike {v w : Rect K} (h : v.Alike w) (q : Query) (index : CellIndex)
    (scales : ScaleRange) : q.placeMatches index scales v = q.placeMatches index scales w :=
  placeMatches_congr (fun c => (h c.rect c.inWorld_rect).1) q index scales

namespace Search
variable {bounds : Partition → Rect K} {q : Query}

/-- All targets visited again in a viewport that is alike stay as they are. -/
theorem surveyIn_again {v w : Rect K} (h : v.Alike w) {targets : List Target}
    (hworld : ∀ t ∈ ((surveyIn bounds q).visit w targets).2, (bounds t.partition).InWorld) :
    (surveyIn bounds q).visit v ((surveyIn bounds q).visit w targets).2 =
      ([], ((surveyIn bounds q).visit w targets).2) := by
  refine each_of_idle (List.forall_mem_map.mpr fun t ht => ?_)
  have hbounds := hworld _ (List.mem_map_of_mem ht)
  rw [Target.partition, Target.visitIn_registration] at hbounds
  obtain ⟨hmeets, hcontains⟩ := h _ hbounds
  exact Target.visitIn_again hmeets hcontains fun index scales =>
    q.placeMatches_of_alike h index scales

private theorem exists_previous_of_still {σ ε : Type} {survey : Survey K σ ε} {limits : Limits K}
    {start : Rect K} {fuel : Nat} {state : σ} {rounds : List (Round K σ ε)} {last : Round K σ ε}
    (h : expandFrom survey limits start fuel ((1 : Nat) : K) none state = (rounds ++ [last], .still)) :
    ∃ before previous, rounds = before ++ [previous] ∧ 0 < previous.factor ∧
      previous.factor < last.factor ∧ previous.viewport = start.scaled previous.factor ∧
      last.viewport = start.scaled last.factor ∧
      (start.scaled previous.factor).grows (start.scaled last.factor) = false := by
  -- The loop has seen two viewports last, at factors that no ceiling binds.
  have hunfolds : survey.Unfolds limits start ((1 : Nat) : K) state (rounds ++ [last]) := by
    rw [← show _ = rounds ++ [last] from congrArg Prod.fst h]
    exact unfolds_expandFrom ..
  obtain ⟨n, hexpands⟩ := exists_expands_of_expandFrom h nofun
  obtain _ | _ | _ | ⟨hfurther, hv, hstill⟩ := hexpands.last_ends.resolve_right nofun
  rw [Option.or_none] at hv
  obtain ⟨previous, hprevious, rfl⟩ := Option.map_eq_some_iff.mp hv
  obtain ⟨before, rfl⟩ := List.getLast?_eq_some_iff.mp hprevious
  have hfactor : 1 ≤ previous.factor := by
    rw [(hunfolds.of_getElem? (i := before.length) (r := previous) (by simp)).1]
    exact one_le_factor_exact _
  rw [List.append_assoc] at hunfolds
  obtain ⟨hgoesOn, hnext, hviewport, -, hviewport', -, -⟩ := hunfolds.of_next
  rw [hgoesOn.capped_eq_exact] at hviewport
  rw [hfurther.capped_eq_exact] at hviewport'
  refine ⟨before, previous, rfl, by linarith, ?_, hviewport, hviewport', ?_⟩
  · rw [hnext]
    exact lt_mul_of_one_lt_right (by linarith) one_lt_growth
  · rwa [← hviewport, ← hviewport']

private theorem visit_of_still {limits : Limits K} {start : Rect K} {fuel : Nat}
    {targets : List Target} {rounds : List (Round K (List Target) Event)}
    {last : Round K (List Target) Event}
    (hworld : ∀ t ∈ targets, (bounds t.partition).InWorld)
    (h : expandFrom (surveyIn bounds q) limits start fuel ((1 : Nat) : K) none targets =
      (rounds ++ [last], .still)) {s : K} (hs : last.factor ≤ s) :
    (surveyIn bounds q).visit (start.scaled s) last.after = ([], last.after) := by
  obtain ⟨before, previous, rfl, hpos, hlt, hviewport, hviewport', hstill⟩ :=
    exists_previous_of_still h
  have hrounds : (expandFrom (surveyIn bounds q) limits start fuel ((1 : Nat) : K) none targets).1 =
      before ++ previous :: [last] := by rw [h, List.append_assoc]; rfl
  have hchain : (surveyIn bounds q).Chain targets (before ++ previous :: [last]) := by
    rw [← hrounds]
    exact Survey.chain_expandFrom ..
  have hunfolds : (surveyIn bounds q).Unfolds limits start ((1 : Nat) : K) targets
      (before ++ previous :: [last]) := by
    rw [← hrounds]
    exact unfolds_expandFrom ..
  have hworld' : ∀ t ∈ previous.after, (bounds t.partition).InWorld :=
    inWorld_of_chain hchain hworld previous (List.mem_append_right before (.head [last]))
  obtain ⟨⟨factor, state, hprevious, -⟩, -⟩ := hunfolds.of_append
  have hvisit : previous.after = ((surveyIn bounds q).visit previous.viewport state).2 :=
    hprevious ▸ rfl
  -- All viewports from the last one on are alike to the one before it.
  have hagain {s : K} (hs : last.factor ≤ s) :
      (surveyIn bounds q).visit (start.scaled s) previous.after = ([], previous.after) := by
    have halike : (start.scaled s).Alike previous.viewport :=
      hviewport ▸ Rect.alike_of_still hpos hlt hs hstill
    rw [hvisit] at hworld' ⊢
    exact surveyIn_again halike hworld'
  have hlast : last.after = previous.after := by
    obtain ⟨-, -, -, -, -, -, hlast⟩ := hunfolds.of_next
    rw [hviewport', hagain le_rfl] at hlast
    exact (Prod.mk.inj hlast).2.symm
  rw [hlast]
  exact hagain hs

/-- Stopping for lack of growth loses nothing. Once the viewport at one factor does not grow past
the one at a smaller factor, no larger factor changes which rectangles of the world it meets or
contains, nor what is found in it by place, whatever the index is. So when a loop has stopped for
this reason, whatever rounds might follow at factors from the last one on, in targets with bounds in
the world, they tell nothing and leave the targets as they are. -/
theorem nothing_lost_when_still (start : Rect K) :
    (∀ s₁ s₂ : K, 0 < s₁ → s₁ < s₂ → (start.scaled s₁).grows (start.scaled s₂) = false →
      ∀ s, s₂ ≤ s →
        (∀ b : Rect K, b.InWorld → (start.scaled s).meets b = (start.scaled s₁).meets b ∧
          (start.scaled s).contains b = (start.scaled s₁).contains b) ∧
        ∀ (q : Query) (index : CellIndex) (scales : ScaleRange),
          q.placeMatches index scales (start.scaled s) =
            q.placeMatches index scales (start.scaled s₁)) ∧
      ∀ (bounds : Partition → Rect K) (q : Query) (limits : Limits K) (fuel : Nat)
        (targets : List Target) (rounds : List (Round K (List Target) Event)) last,
        (∀ t ∈ targets, (bounds t.partition).InWorld) →
        expandFrom (surveyIn bounds q) limits start fuel ((1 : Nat) : K) none targets =
          (rounds ++ [last], .still) →
        ∀ more, (surveyIn bounds q).Chain last.after more →
          (∀ r ∈ more, ∃ s, last.factor ≤ s ∧ r.viewport = start.scaled s) →
          ∀ r ∈ more, r.events = [] ∧ r.after = last.after := by
  refine ⟨fun s₁ s₂ h₁ h₂ hstill s hs => ?_, ?_⟩
  · have halike := Rect.alike_of_still h₁ h₂ hs hstill
    exact ⟨halike, fun q index scales => q.placeMatches_of_alike halike index scales⟩
  · intro bounds q limits fuel targets rounds last hworld h more hchain hmore
    refine hchain.idle fun r hr => ?_
    obtain ⟨s, hs, hr⟩ := hmore r hr
    rw [hr]
    exact visit_of_still hworld h hs

/-- A line that is searched until it spans the world never comes to the inn beside it. -/
theorem nothing_lost_on_line :
    let start : Rect ℚ := ⟨⟨1 / 2, 0⟩, ⟨1 / 2, 1⟩⟩
    let look := surveyIn (fun _ => (⟨⟨1, 2⟩, ⟨1, 2⟩⟩ : Rect ℚ)) { words := [["i"]], scale := 1 }
    let targets : List Target := [⟨⟨⟨"Town", 1⟩, inn⟩, .pending⟩]
    (start.scaled 1000).grows (start.scaled 2000) = false ∧
      (start.scaled 5000).meets ⟨⟨0, -90⟩, ⟨1, 90⟩⟩ = true ∧
      ∃ rounds last, expand look {} start targets = (rounds ++ [last], .still) ∧
        look.visit (start.scaled 5000) last.after = ([], last.after) := by
  intro start look targets
  have hstill : (start.scaled 1000).grows (start.scaled 2000) = false := by decide +kernel
  obtain ⟨hgrown, hloop⟩ := nothing_lost_when_still start
  have hmeets := ((hgrown 1000 2000 (by norm_num) (by norm_num) hstill 5000 (by norm_num)).1
    ⟨⟨0, -90⟩, ⟨1, 90⟩⟩ ⟨by decide +kernel, by decide +kernel⟩).1
  refine ⟨hstill, hmeets.trans (by decide +kernel), ?_⟩
  have hlast : (∃ last, (expand look {} start targets).1.getLast? = some last) ∧
      ∀ last ∈ (expand look {} start targets).1.getLast?, last.factor ≤ 5000 := by
    rw [← Option.isSome_iff_exists]
    decide +kernel
  obtain ⟨⟨last, hsome⟩, hfactor⟩ := hlast
  obtain ⟨rounds, hrounds⟩ := List.getLast?_eq_some_iff.mp hsome
  have hend : (expand look {} start targets).2 = .still := by decide +kernel
  have hexpand : expand look {} start targets = (rounds ++ [last], .still) := Prod.ext hrounds hend
  have hworld : ∀ t ∈ targets, (⟨⟨1, 2⟩, ⟨1, 2⟩⟩ : Rect ℚ).InWorld := fun _ _ =>
    ⟨by decide +kernel, by decide +kernel⟩
  let next := look.visit (start.scaled 5000) last.after
  obtain ⟨hevents, hafter⟩ := hloop _ _ {} _ targets rounds last hworld hexpand
    [⟨5000, start.scaled 5000, next.1, next.2⟩] ⟨rfl, trivial⟩
    (List.forall_mem_singleton.mpr ⟨5000, hfactor last hsome, rfl⟩) _ (.head [])
  exact ⟨rounds, last, hexpand, Prod.ext hevents hafter⟩

end Search
end Gazetteer
