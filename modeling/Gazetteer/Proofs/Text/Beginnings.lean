import Gazetteer.Proofs.Text.Words

/-! Beginnings of a text. Each word of a beginning is a word of the whole text, but that the last
one may go on there; unless the beginning breaks off so that a capital sigma, at the end of its
word, is in the middle of a word of the whole text. -/
namespace Gazetteer.Text

/-- A text that goes on with `rest` has a capital sigma that is at the end of a word if the text
ends, but not as it goes on. -/
def BreaksOff (cs rest : List Char) : Prop :=
  ∃ before after, cs = before ++ 'Σ' :: after ∧ leadsToCased before.reverse = true ∧
    (∀ c ∈ after, caseIgnorable.holds c = true) ∧ leadsToCased rest = true

section
variable {cs rest : List Char} {ws : List (List Char)}

private theorem leadsToCased_append_eq (cs rest : List Char) :
    leadsToCased (cs ++ rest) =
      if cs.all caseIgnorable.holds then leadsToCased rest else leadsToCased cs := by
  induction cs with
  | nil => rfl
  | cons c cs ih =>
    rw [List.cons_append, leadsToCased_cons, leadsToCased_cons, ih, List.all_cons]
    cases caseIgnorable.holds c <;> rfl

private theorem leadsToCased_of_all (h : cs.all caseIgnorable.holds = true) :
    leadsToCased cs = false := by
  have := leadsToCased_append_eq cs []
  rwa [List.append_nil, if_pos h] at this

private theorem settledIn_of_not_breaksOff (near : List Char)
    (h : ¬ ∃ before after, cs = before ++ 'Σ' :: after ∧
      leadsToCased (before.reverse ++ near) = true ∧
      (∀ c ∈ after, caseIgnorable.holds c = true) ∧ leadsToCased rest = true) :
    settledIn near rest cs = settledIn near [] cs := by
  induction cs generalizing near with
  | nil => rfl
  | cons c cs ih =>
    have htail := ih (c :: near) fun ⟨before, after, hcs, hbefore, hafter, hrest⟩ =>
      h ⟨c :: before, after, by rw [hcs, List.cons_append], by simpa using hbefore, hafter, hrest⟩
    have hsigma (hc : c = 'Σ') : isFinalSigma near (cs ++ rest) = isFinalSigma near (cs ++ []) := by
      rw [isFinalSigma, isFinalSigma, List.append_nil, leadsToCased_append_eq]
      split
      · next hall =>
        -- The search goes through to the end, so what comes next decides.
        rw [leadsToCased_of_all hall]
        cases hnear : leadsToCased near with
        | false => rfl
        | true =>
          cases hrest : leadsToCased rest with
          | false => rfl
          | true =>
            exact absurd
              ⟨[], cs, by rw [hc, List.nil_append], hnear, List.all_eq_true.mp hall, hrest⟩ h
      · rfl
    rw [settledIn, settledIn, htail]
    split
    · next hc => rw [hsigma hc]
    · rfl

private theorem settled_append (h : ¬ BreaksOff cs rest) :
    ∃ more, settled (cs ++ rest) = settled cs ++ more := by
  rw [settled, settledIn_append, List.append_nil, settledIn_of_not_breaksOff []]
  · exact ⟨_, rfl⟩
  · unfold BreaksOff at h
    simpa only [List.append_nil] using h

private theorem exists_runs_word_append {w : List Char} (nonempty : w ≠ [])
    (inside : ∀ c ∈ w, isDelimiter c = false) (rest : List Char) :
    ∃ x more, runs (w ++ rest) = (w ++ x) :: more := by
  obtain ⟨vs, hrest⟩ := Splits.exists_splits rest
  cases hrest with
  | nil => exact ⟨[], _, by rw [runs_word_append nonempty inside (by simp), List.append_nil]⟩
  | @delimiter d rest _ delimits =>
    have stops : ∀ c ∈ (d :: rest).head?, isDelimiter c = true := by simpa using delimits
    exact ⟨[], _, by rw [runs_word_append nonempty inside stops, List.append_nil]⟩
  | @word w' rest _ nonempty' inside' stops =>
    refine ⟨w', runs rest, ?_⟩
    rw [← List.append_assoc, runs_word_append (List.append_ne_nil_of_left_ne_nil nonempty w') ?_ stops]
    intro c hc
    exact (List.mem_append.mp hc).elim (inside c) (inside' c)

/-- What a text goes on with makes its last word longer, or adds words if a delimiter ends the
text. -/
theorem Splits.runs_append (h : Splits cs ws) (rest : List Char) :
    (∀ c ∈ cs.getLast?, isDelimiter c = true) ∧ runs (cs ++ rest) = ws ++ runs rest ∨
      (∃ c ∈ cs.getLast?, isDelimiter c = false) ∧ ∃ us v x more, ws = us ++ [v] ∧
        runs (cs ++ rest) = us ++ (v ++ x) :: more := by
  induction h with
  | nil => exact .inl ⟨nofun, rfl⟩
  | @delimiter d cs ws delimits hrest ih =>
    rw [List.cons_append, runs_delimiter_cons delimits]
    cases cs with
    | nil =>
      obtain rfl : ws = [] := hrest.runs_eq.symm
      exact .inl ⟨by simpa using delimits, rfl⟩
    | cons c cs =>
      rw [List.getLast?_cons_cons]
      exact ih
  | @word w cs ws nonempty inside stops hrest ih =>
    cases cs with
    | nil =>
      obtain rfl : ws = [] := hrest.runs_eq.symm
      obtain ⟨x, more, hx⟩ := exists_runs_word_append nonempty inside rest
      refine .inr ⟨⟨w.getLast nonempty, ?_, inside _ (List.getLast_mem nonempty)⟩,
        [], w, x, more, rfl, ?_⟩
      · rw [List.append_nil]
        exact List.getLast?_eq_some_getLast nonempty
      · rw [List.append_nil, hx, List.nil_append]
    | cons c cs =>
      have hruns : runs (w ++ (c :: cs ++ rest)) = w :: runs (c :: cs ++ rest) :=
        runs_word_append nonempty inside stops
      rw [List.append_assoc, hruns, List.getLast?_append_of_ne_nil _ (List.cons_ne_nil c cs)]
      refine ih.imp (And.imp_right fun h => ?_) (And.imp_right fun ⟨us, v, x, more, hws, h⟩ => ?_)
      · rw [h, List.cons_append]
      · exact ⟨w :: us, v, x, more, by rw [hws, List.cons_append], by rw [h, List.cons_append]⟩

private theorem map_isDelimiter_settled (cs : List Char) :
    (settled cs).map isDelimiter = cs.map isDelimiter := by
  have h := settles_settledIn [] [] cs
  rw [settled]
  generalize settledIn [] [] cs = ds at h
  induction h with
  | nil => rfl
  | cons hd _ ih => rw [List.map_cons, List.map_cons, hd.isDelimiter, ih]

private theorem endsWithDelimiter_eq (s : String) :
    endsWithDelimiter s = ((settled s.toList).getLast?.map isDelimiter).getD false := by
  rw [endsWithDelimiter, ← List.getLast?_map, ← List.getLast?_map, map_isDelimiter_settled]

private theorem smallWord_append (v x : List Char) :
    (smallWord v).toList <+: (smallWord (v ++ x)).toList := by
  rw [smallWord, smallWord, String.toList_ofList, String.toList_ofList, List.flatMap_append]
  exact List.prefix_append _ _

end

/-- The words of a text are among those of a longer one, if a delimiter ends the text; if not, the
last one begins a word of the longer text. -/
theorem words_of_beginning {s t : String} {rest : List Char} (ht : t.toList = s.toList ++ rest)
    (h : ¬ BreaksOff s.toList rest) :
    endsWithDelimiter s = true ∧ words s <+: words t ∨
      endsWithDelimiter s = false ∧ (words s = [] ∨ ∃ complete last word more,
        words s = complete ++ [last] ∧ words t = complete ++ word :: more ∧
          last.toList <+: word.toList) := by
  obtain ⟨more, hmore⟩ := settled_append h
  have hlast := endsWithDelimiter_eq s
  rw [words_eq, words_eq, ht, hmore]
  generalize settled s.toList = cs at hlast ⊢
  rcases (splits_runs cs).runs_append more with
    ⟨hdelimits, hruns⟩ | ⟨⟨c, hc, hword⟩, us, v, x, vs, hcs, hruns⟩
  · cases hend : cs.getLast? with
    | none =>
      rw [List.getLast?_eq_none_iff.mp hend] at hlast ⊢
      exact .inr ⟨hlast, .inl rfl⟩
    | some c =>
      rw [hend, Option.map_some, Option.getD_some, hdelimits c hend] at hlast
      rw [hruns, List.map_append]
      exact .inl ⟨hlast, List.prefix_append _ _⟩
  · rw [Option.mem_def.mp hc, Option.map_some, Option.getD_some, hword] at hlast
    rw [hruns, hcs, List.map_append, List.map_append]
    exact .inr ⟨hlast, .inr ⟨_, _, _, _, rfl, rfl, smallWord_append v x⟩⟩

end Gazetteer.Text
