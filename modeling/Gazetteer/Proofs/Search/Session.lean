import Gazetteer.Proofs.Search.Lifecycle
import Mathlib.Algebra.GroupWithZero.Nat
import Mathlib.Data.List.Chain

/-! Searches that are started and run again and again, over catalogs that change in between. From
one start to the next the targets only move on, and what is told of them is what they end with. -/
namespace Gazetteer

/-- What a search is asked to do: to start anew, with what is registered now, or to run. -/
inductive Call where
  | start (c : Catalog) (reached : c.Reached) (viewport : Rect Binary64) (q : Query)
    (limits : Limits Binary64)
  | run

def Event.features : Event → List FeatureId
  | .reported _ features => features
  | .failed _ _ => []

private theorem Event.getD_gist (e : Event) : e.gist.2.getD [] = e.features := by
  cases e <;> rfl

namespace Search

/-- The targets after each viewport that a run goes through, and at its end. -/
def passes (s : Search) : List (List Target) :=
  if s.isFinished then [] else s.expansion.1.map (·.after) ++ [s.run.2.targets]

private theorem getLast?_cons_after (ts : List Target)
    (rounds : List (Round Binary64 (List Target) Event)) :
    (ts :: rounds.map (·.after)).getLast? = some (stateAfter ts rounds) := by
  rw [List.getLast?_cons, List.getLast?_map, stateAfter]

private theorem isChain_after {q : Query} {ts : List Target}
    {rounds : List (Round Binary64 (List Target) Event)} (h : (survey q).Chain ts rounds) :
    (ts :: rounds.map (·.after)).IsChain (List.Forall₂ Target.Follows) := by
  induction rounds generalizing ts with
  | nil => exact .singleton ts
  | cons r rounds ih =>
    obtain ⟨hr, hrest⟩ := h
    have hafter : (each (·.visit q r.viewport) ts).2 = r.after := congrArg Prod.snd hr
    have hfollows := (advances_visit q r.viewport ts).follows
    rw [hafter] at hfollows
    exact .cons_cons hfollows (ih hrest)

private theorem run_of_isFinished {s : Search} (h : s.isFinished = true) :
    s.run = ([], { s with phase := .done }) := if_pos h

private theorem getLast?_passes (s : Search) :
    (s.targets :: s.passes).getLast? = some s.run.2.targets := by
  cases h : s.isFinished with
  | true =>
    rw [passes, if_pos h, run_of_isFinished h]
    rfl
  | false =>
    rw [passes, h, if_neg Bool.false_ne_true, ← List.cons_append]
    exact List.getLast?_concat

private theorem isChain_passes (s : Search) :
    (s.targets :: s.passes).IsChain (List.Forall₂ Target.Follows) := by
  cases h : s.isFinished with
  | true =>
    rw [passes, if_pos h]
    exact .singleton _
  | false =>
    rw [passes, h, if_neg Bool.false_ne_true, ← List.cons_append]
    refine List.isChain_append.mpr ⟨isChain_after (Survey.chain_expandFrom ..), .singleton _, ?_⟩
    intro ts hts us hus
    cases (getLast?_cons_after ..).symm.trans hts
    cases hus
    rw [run, h, if_neg Bool.false_ne_true]
    exact (advances_conclude _).follows

private theorem map_id_of_follows {ts us : List Target} (h : List.Forall₂ Target.Follows ts us) :
    us.map Target.id = ts.map Target.id := by
  induction h with
  | nil => rfl
  | cons ht _ ih => rw [List.map_cons, List.map_cons, ih, Target.id, ht.1, Target.id]

private theorem verdicts_sublist (ts : List Target) :
    ((ts.flatMap Target.verdict).map Prod.fst).Sublist (ts.map Target.id) := by
  have hverdict (t : Target) : (t.verdict.map Prod.fst).Sublist [t.id] := by
    unfold Target.verdict
    split
    · exact .refl _
    · split
      · exact .refl _
      · exact List.nil_sublist _
  induction ts with
  | nil => exact .slnil
  | cons t ts ih =>
    rw [List.flatMap_cons, List.map_append]
    exact (hverdict t).append ih

private theorem features_of_verdicts {ts : List Target} (h : ∀ t ∈ ts, t.isFinished = true) :
    (ts.flatMap Target.verdict).flatMap (·.2.getD []) = ts.flatMap (·.found.both) := by
  rw [List.flatMap_assoc]
  refine List.flatMap_congr fun t ht => ?_
  rw [Target.verdict, h t ht, Bool.true_and]
  split
  · next hfailed =>
    cases hp : t.progress with
    | failed => simp [Target.found, hp, Matches.both, Ascending.inter]
    | pending | met | covered | closed => simp [Target.isFailed, hp] at hfailed
  · cases hboth : t.found.both <;> simp

end Search

/-- A search and its past since it was last started: what it has told, and how its targets were at
the start, after each viewport, and at the end of each run. -/
structure Session where
  search : Search := .blank
  told : List Event := []
  states : List (List Target) := [[]]

namespace Session

def answer (s : Session) : Call → Session
  | .start c _ viewport q limits =>
    let search := Search.start c.source viewport q limits
    ⟨search, [], [search.targets]⟩
  | .run => ⟨s.search.run.2, s.told ++ s.search.run.1, s.states ++ s.search.passes⟩

def after (calls : List Call) : Session := calls.foldl answer {}

/-- What holds of a session at any time. -/
structure Sound (s : Session) : Prop where
  distinct : (s.search.targets.map Target.id).Nodup
  first : ∃ ts, s.states.head? = some ts ∧ ∀ t ∈ ts, t.progress = .pending
  last : s.states.getLast? = some s.search.targets
  chain : s.states.IsChain (List.Forall₂ Target.Follows)
  told : (s.told.map Event.gist).Perm (s.search.targets.flatMap Target.verdict)
  sorted : ∀ t ∈ s.search.targets, t.Sorted

namespace Sound
variable {s : Session}

private theorem fresh {search : Search} (hn : (search.targets.map Target.id).Nodup)
    (hp : ∀ t ∈ search.targets, t.progress = .pending) :
    Sound ⟨search, [], [search.targets]⟩ where
  distinct := hn
  first := ⟨_, rfl, hp⟩
  last := rfl
  chain := .singleton _
  told := by
    have hnil : search.targets.flatMap Target.verdict = [] :=
      List.flatMap_eq_nil_iff.mpr fun t ht =>
        Target.verdict_of_unfinished (by simp [Target.isFinished, hp t ht])
    rw [hnil]
    exact .nil
  sorted t ht := by
    rw [Target.Sorted, Target.found, hp t ht]
    exact .nil

/-- A session is sound once a search is started, whatever went before. -/
theorem start {c : Catalog} (hc : c.Reached) (viewport : Rect Binary64) (q : Query)
    (limits : Limits Binary64) (s : Session) : (s.answer (.start c hc viewport q limits)).Sound :=
  fresh (Search.ids_nodup_start hc viewport q limits) fun _ ht => Search.pending_start ht

/-- A run leaves a sound session sound. -/
theorem run (h : s.Sound) : (s.answer .run).Sound := by
  have hrun := Search.advances_run s.search
  obtain ⟨states, hstates⟩ := List.getLast?_eq_some_iff.mp h.last
  have happend : s.states ++ s.search.passes = states ++ s.search.targets :: s.search.passes := by
    rw [hstates, List.append_assoc, List.singleton_append]
  refine ⟨?_, ?_, ?_, ?_, ?_, hrun.sorted h.sorted⟩
  · exact Search.map_id_of_follows hrun.follows ▸ h.distinct
  · obtain ⟨ts, hts, hp⟩ := h.first
    exact ⟨ts, by rw [answer, List.head?_append, hts, Option.some_or], hp⟩
  · rw [answer, happend, List.getLast?_append, Search.getLast?_passes, Option.some_or]
  · rw [answer, happend, List.isChain_split, ← hstates]
    exact ⟨h.chain, s.search.isChain_passes⟩
  · rw [answer, List.map_append]
    exact (h.told.append_right _).trans hrun.told

/-- Every session is sound. -/
theorem after (calls : List Call) : (Session.after calls).Sound := by
  have hfoldl (s : Session) (h : s.Sound) : (calls.foldl answer s).Sound := by
    induction calls generalizing s with
    | nil => exact h
    | cons call calls ih =>
      cases call with
      | start c hc viewport q limits => exact ih _ (start hc viewport q limits s)
      | run => exact ih _ h.run
  exact hfoldl {} (fresh List.nodup_nil fun _ ht => nomatch ht)

/-- Nothing is told of a target twice. -/
theorem nodup_told (h : s.Sound) : (s.told.map Event.id).Nodup := by
  have hid : s.told.map Event.id = (s.told.map Event.gist).map Prod.fst := by
    rw [List.map_map]
    exact List.map_congr_left fun e _ => by cases e <;> rfl
  rw [hid, (h.told.map Prod.fst).nodup_iff]
  exact (Search.verdicts_sublist _).nodup h.distinct

/-- What is reported is what some target has found. -/
theorem reported_found (h : s.Sound) {id : PartitionId} {features : List FeatureId}
    (he : .reported id features ∈ s.told) :
    features ≠ [] ∧ ∃ t ∈ s.search.targets, features = t.found.both := by
  have hgist := h.told.mem_iff.mp (List.mem_map_of_mem he)
  obtain ⟨t, ht, hverdict⟩ := List.mem_flatMap.mp hgist
  unfold Target.verdict at hverdict
  split at hverdict
  · cases List.mem_singleton.mp hverdict
  · split at hverdict
    · next hboth =>
      obtain ⟨-, hfeatures⟩ := Prod.mk.inj (List.mem_singleton.mp hverdict)
      cases hfeatures
      refine ⟨?_, t, ht, rfl⟩
      intro hnil
      rw [hnil] at hboth
      simp at hboth
    · cases hverdict

/-- Once all targets are finished, what was told of them adds up to what is found in them. -/
theorem sum_told (h : s.Sound) (hfinished : s.search.isFinished = true) :
    (s.told.map (·.features.length)).sum = Search.count s.search.targets := by
  have hfeatures : (s.told.flatMap Event.features).Perm (s.search.targets.flatMap (·.found.both)) := by
    have hgist : s.told.flatMap Event.features =
        (s.told.map Event.gist).flatMap (·.2.getD []) := by
      rw [List.flatMap_map]
      exact List.flatMap_congr fun e _ => e.getD_gist.symm
    rw [hgist, ← Search.features_of_verdicts (List.all_eq_true.mp hfinished)]
    exact h.told.flatMap_right _
  rw [← List.length_flatMap]
  exact hfeatures.length_eq

end Sound

/-- Whatever calls are made, from one start of the search to the next: the targets begin as pending
and only move on, and once finished they stay as they are; of each target there is told at most once
that it is reported or given up; what is reported is never empty and in ascending order. After a run
all targets are finished, a further run does nothing, and what was told adds up. -/
theorem discipline_of_calls (calls : List Call) :
    let s := after calls
    let ran := s.answer .run
    (∃ ts, s.states.head? = some ts ∧ ∀ t ∈ ts, t.progress = .pending) ∧
      s.states.getLast? = some s.search.targets ∧
      s.states.Pairwise (List.Forall₂ fun t u => u.registration = t.registration ∧
        Relation.ReflTransGen Progress.Moves t.progress u.progress ∧
          (t.isFinished = true → u = t)) ∧
      (s.told.map Event.id).Nodup ∧
      (∀ id features, .reported id features ∈ s.told →
        features ≠ [] ∧ features.Pairwise (· < ·)) ∧
      ran.search.isFinished = true ∧ ran.search.run = ([], ran.search) ∧
      (ran.told.map (·.features.length)).sum = Search.count ran.search.targets := by
  intro s ran
  have hs : s.Sound := .after calls
  have hran : ran.search.isFinished = true := s.search.isFinished_run
  have : Trans (List.Forall₂ Target.Follows) (List.Forall₂ Target.Follows)
      (List.Forall₂ Target.Follows) := ⟨Search.forall₂_follows_trans⟩
  refine ⟨hs.first, hs.last, ?_, hs.nodup_told, ?_, hran, ?_, hs.run.sum_told hran⟩
  · refine (List.isChain_iff_pairwise.mp hs.chain).imp fun hfollows => hfollows.imp ?_
    exact fun t u h => ⟨h.1, h.2, h.eq_of_isFinished⟩
  · intro id features he
    obtain ⟨hne, t, ht, rfl⟩ := hs.reported_found he
    exact ⟨hne, Ascending.pairwise_inter (hs.sorted t ht) _⟩
  · rw [Search.run_of_isFinished hran]
    cases hfinished : s.search.isFinished <;> simp [ran, answer, Search.run, hfinished]

/-- However often the search runs, the inn is reported once and the ruin given up once. -/
example :
    (after [.start _ (.register Search.ruin (.register Search.inn .empty))
      (.ofCorners ⟨0, -4⟩ ⟨2, 1⟩) { words := [["i"]], scale := 1 } {}, .run, .run]).told =
      [.reported ⟨"Town", 1⟩ [0], .failed ⟨"Ruin", 2⟩ (.text (.textIndex .unreadable))] := by
  decide +kernel

end Session
end Gazetteer
