import Gazetteer.Proofs.Text.Lowering

/-! What delimiters do to words. They separate words, and besides that only settle capital sigmas,
as some of them are passed over when the end of a word is sought and some have a case. -/
namespace Gazetteer.Text

def smallWord (w : List Char) : String := String.ofList (w.flatMap lowerChar)

section
variable {v v' w cs : List Char} {vs vs' ws : List (List Char)}

private theorem flatMap_lowerChar_inj (h : List.Forall₂ Settles v w)
    (h' : List.Forall₂ Settles v' w) (heq : v.flatMap lowerChar = v'.flatMap lowerChar) :
    v = v' := by
  induction h generalizing v' with
  | nil =>
    cases h'
    rfl
  | cons hd _ ih =>
    cases h' with
    | cons hd' htail =>
      rw [List.flatMap_cons, List.flatMap_cons] at heq
      rcases hd.eq_or_lowerChar hd' with rfl | ⟨hone, hone'⟩
      · rw [ih htail (List.append_cancel_left heq)]
      · rw [hone, hone'] at heq
        obtain ⟨hsame, hrest⟩ := List.cons.inj heq
        rw [hsame, ih htail hrest]

private theorem map_smallWord_eq_iff (h : List.Forall₂ (List.Forall₂ Settles) vs ws)
    (h' : List.Forall₂ (List.Forall₂ Settles) vs' ws) :
    vs.map smallWord = vs'.map smallWord ↔ vs = vs' := by
  refine ⟨fun heq => ?_, congrArg _⟩
  induction h generalizing vs' with
  | nil =>
    cases h'
    rfl
  | cons hw _ ih =>
    cases h' with
    | cons hw' htail =>
      obtain ⟨hsame, hrest⟩ := List.cons.inj heq
      rw [flatMap_lowerChar_inj hw hw' (String.ofList_injective hsame), ih htail hrest]

private theorem forall₂_runs_settled (cs : List Char) :
    List.Forall₂ (List.Forall₂ Settles) (runs (settled cs)) (runs cs) := by
  obtain ⟨vs, hvs, h⟩ :=
    (splits_runs cs).forall₂ (fun _ _ => Settles.isDelimiter) (settles_settledIn [] [] cs)
  rwa [settled, hvs.runs_eq]

private theorem forall₂_map_settled (ws : List (List Char)) :
    List.Forall₂ (List.Forall₂ Settles) (ws.map settled) ws := by
  induction ws with
  | nil => exact .nil
  | cons w ws ih => exact .cons (settles_settledIn [] [] w) ih

theorem settledIn_of_not_mem (h : 'Σ' ∉ cs) (before after : List Char) :
    settledIn before after cs = cs := by
  induction cs generalizing before with
  | nil => rfl
  | cons c cs ih =>
    have hc : c ≠ 'Σ' := by
      rintro rfl
      exact h List.mem_cons_self
    rw [settledIn, if_neg hc, ih fun hcs => h (.tail _ hcs)]

private theorem ne_sigma_of_isDelimiter {c : Char} (h : isDelimiter c = true) : c ≠ 'Σ' := by
  rintro rfl
  revert h
  decide +kernel

private theorem splits_settledIn_of_plain (h : Splits cs ws)
    (hplain : ∀ c ∈ cs, isDelimiter c = true → Plain c) {before : List Char}
    (hbefore : leadsToCased before = false ∨ ∀ c ∈ cs.head?, isDelimiter c = true) :
    Splits (settledIn before [] cs) (ws.map settled) := by
  -- A word starts after a delimiter or at the start, so what is before it leads to no case. What is
  -- before the rest of a word may, but then the rest is empty or starts with a delimiter.
  induction h generalizing before with
  | nil => exact .nil
  | @delimiter d cs ws delimits rest ih =>
    rw [settledIn, if_neg (ne_sigma_of_isDelimiter delimits)]
    refine .delimiter delimits (ih (fun c hc => hplain c (.tail _ hc)) (.inl ?_))
    exact (hplain d List.mem_cons_self delimits).leadsToCased before
  | @word w cs ws nonempty inside stops rest ih =>
    obtain ⟨c, w', rfl⟩ := List.exists_cons_of_ne_nil nonempty
    have hbefore : leadsToCased before = false := hbefore.resolve_right fun hstops =>
      Bool.false_ne_true ((inside c List.mem_cons_self).symm.trans (hstops c rfl))
    have hafter : leadsToCased (cs ++ []) = false := by
      cases cs with
      | nil => rfl
      | cons d cs =>
        exact (hplain d (by simp) (stops d rfl)).leadsToCased _
    have hsettles := settles_settledIn [] [] (c :: w')
    rw [settledIn_append, settledIn_of_leadsToCased hbefore hafter, List.map_cons]
    refine .word (by simp [settled, settledIn])
      (Splits.inside_of_forall₂ (fun _ _ => Settles.isDelimiter) hsettles inside) (fun d hd => ?_)
      (ih (fun d hd => hplain d (List.mem_append_right _ hd)) (.inr stops))
    cases cs with
    | nil => cases hd
    | cons e cs =>
      rw [settledIn, if_neg (ne_sigma_of_isDelimiter (stops e rfl))] at hd
      cases hd
      exact stops _ rfl

private theorem runs_settled_of_plain (h : ∀ c ∈ cs, isDelimiter c = true → Plain c) :
    runs (settled cs) = (runs cs).map settled :=
  (splits_settledIn_of_plain (splits_runs cs) h (.inl rfl)).runs_eq

/-- A word on its own is one word. -/
theorem words_word (nonempty : w ≠ []) (inside : ∀ c ∈ w, isDelimiter c = false) :
    words (String.ofList w) = [smallWord (settled w)] := by
  have hruns : runs w = [w] := by
    have happend : runs (w ++ []) = w :: runs [] := runs_word_append nonempty inside (by simp)
    rwa [List.append_nil, runs_nil] at happend
  have hplain : ∀ c ∈ w, isDelimiter c = true → Plain c := fun c hc hd =>
    absurd ((inside c hc).symm.trans hd) Bool.false_ne_true
  rw [words_eq, String.toList_ofList, runs_settled_of_plain hplain, hruns]
  rfl

private theorem runs_settled_of_not_mem (h : 'Σ' ∉ cs) :
    runs (settled cs) = (runs cs).map settled := by
  have hwords : (runs cs).map settled = (runs cs).map id := List.map_congr_left fun w hw =>
    settledIn_of_not_mem (fun hc => h (((splits_runs cs).mem_word hw).2 _ hc).2) [] []
  rw [hwords, List.map_id, settled, settledIn_of_not_mem h]

private theorem flatMap_words_runs (cs : List Char) :
    (runs cs).flatMap (fun w => words (String.ofList w)) =
      ((runs cs).map settled).map smallWord := by
  rw [List.map_map, List.map_eq_flatMap]
  refine List.flatMap_congr fun w hw => ?_
  obtain ⟨nonempty, inside⟩ := (splits_runs cs).mem_word hw
  exact words_word nonempty fun c hc => (inside c hc).1

end

/-- Texts with the same runs have the same words if and only if their sigmas settle alike, and a
text has the words of its runs if and only if its sigmas settle as in the runs alone. So it has if
there is no capital sigma, or if the search for the end of a word does not go beyond any of its
delimiters. -/
theorem words_of_runs (s : String) :
    (∀ t : String, runs t.toList = runs s.toList →
      (words t = words s ↔ runs (settled t.toList) = runs (settled s.toList))) ∧
    (words s = (runs s.toList).flatMap (fun w => words (String.ofList w)) ↔
      runs (settled s.toList) = (runs s.toList).map settled) ∧
    (('Σ' ∉ s.toList ∨ ∀ c ∈ s.toList, isDelimiter c = true → Plain c) →
      words s = (runs s.toList).flatMap fun w => words (String.ofList w)) := by
  have hs := forall₂_runs_settled s.toList
  refine ⟨fun t hruns => ?_, ?_, fun h => ?_⟩
  · have ht := forall₂_runs_settled t.toList
    rw [hruns] at ht
    rw [words_eq, words_eq]
    exact map_smallWord_eq_iff ht hs
  · rw [words_eq, flatMap_words_runs]
    exact map_smallWord_eq_iff hs (forall₂_map_settled _)
  · rw [words_eq, flatMap_words_runs]
    exact congrArg _ (h.elim runs_settled_of_not_mem runs_settled_of_plain)

/-- A hyphen ends a word for the sigma before it as a space does. -/
theorem words_of_runs_hyphen :
    words "ΑΣ-Α" = (runs "ΑΣ-Α".toList).flatMap (fun w => words (String.ofList w)) ∧
      words "ΑΣ-Α" = words "ΑΣ Α" :=
  ⟨(words_of_runs "ΑΣ-Α").2.2 (.inr (List.forall_iff_forall_mem.mp (by decide +kernel))),
    ((words_of_runs "ΑΣ Α").1 "ΑΣ-Α" (by decide +kernel)).mpr (by decide +kernel)⟩

/-- A full stop is passed over, so in "ΑΣ.Α" the sigma is not at the end of a word. -/
theorem words_depend_on_delimiters :
    ¬ ∀ s t : String, runs s.toList = runs t.toList → words s = words t := fun h =>
  absurd (h "ΑΣ.Α" "ΑΣ Α" (by decide +kernel)) (by decide +kernel)

end Gazetteer.Text
