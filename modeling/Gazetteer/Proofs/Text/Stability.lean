import Gazetteer.Proofs.Text.Words

/-! Words of words. What comes of a text when it becomes small stays as it is when it becomes small
again, and no capital sigma is left to be settled. So words that are written one after another are
found again, whatever delimiters stand between them. -/
namespace Gazetteer.Text

/-- The pieces of a text between its maximal runs of delimiters. The first one is empty if the text
begins with a delimiter, and the last one if it ends with one. -/
def pieces (cs : List Char) : List (List Char) :=
  match _h : cs.dropWhile (!isDelimiter ·) with
  | [] => [cs]
  | _ :: rest => cs.takeWhile (!isDelimiter ·) :: pieces (rest.dropWhile isDelimiter)
termination_by cs.length
decreasing_by
  have hrest := (List.dropWhile_suffix (l := cs) (!isDelimiter ·)).length_le
  have hnext := (List.dropWhile_suffix (l := rest) isDelimiter).length_le
  rw [_h, List.length_cons] at hrest
  omega

section
variable {w cs : List Char} {ps : List (List Char)}

private theorem filter_piece_cons (inside : ∀ c ∈ w, isDelimiter c = false)
    (stops : ∀ c ∈ cs.head?, isDelimiter c = true) (hps : ps.filter (· ≠ []) = runs cs) :
    (w :: ps).filter (· ≠ []) = runs (w ++ cs) := by
  cases w with
  | nil => rw [List.filter_cons_of_neg (by simp), hps, List.nil_append]
  | cons c w =>
    rw [List.filter_cons_of_pos (by simp), hps, runs_word_append (List.cons_ne_nil c w) inside stops]

private theorem runs_dropWhile_isDelimiter (cs : List Char) :
    runs (cs.dropWhile isDelimiter) = runs cs := by
  have hfront : ∀ d ∈ cs.takeWhile isDelimiter, isDelimiter d = true := fun d hd =>
    List.mem_takeWhile_imp hd
  have hsplits := (splits_runs (cs.dropWhile isDelimiter)).delimiters_append hfront
  rw [List.takeWhile_append_dropWhile] at hsplits
  exact hsplits.runs_eq.symm

/-- The words are the pieces that are not empty. -/
theorem filter_pieces (cs : List Char) : (pieces cs).filter (· ≠ []) = runs cs := by
  fun_induction pieces cs with
  | case1 cs h =>
    have inside : ∀ c ∈ cs, isDelimiter c = false := by simpa using List.dropWhile_eq_nil_iff.mp h
    have hone : [cs].filter (· ≠ []) = runs (cs ++ []) := filter_piece_cons inside (by simp) rfl
    rwa [List.append_nil] at hone
  | case2 cs d rest h ih =>
    have inside : ∀ c ∈ cs.takeWhile (!isDelimiter ·), isDelimiter c = false :=
      fun c hc => by simpa using List.mem_takeWhile_imp hc
    have hd : isDelimiter d = true := by
      have hhead := List.head?_dropWhile_not (!isDelimiter ·) cs
      rw [h] at hhead
      simpa using hhead
    rw [runs_dropWhile_isDelimiter, ← runs_delimiter_cons hd] at ih
    rw [filter_piece_cons inside (by simpa using hd) ih, ← h, List.takeWhile_append_dropWhile]

end

private theorem map_toList_words (s : String) :
    (words s).map String.toList = runs (normalize s).toList := by
  simp only [words, List.map_map, Function.comp_def, String.toList_ofList, List.map_id']

private theorem lowerChar_of_mem_runs {s : String} {w : List Char}
    (hw : w ∈ runs (normalize s).toList) {c : Char} (hc : c ∈ w) : lowerChar c = [c] := by
  have hmem := (((splits_runs _).mem_word hw).2 c hc).2
  rw [normalize, String.toList_ofList, lower_eq_flatMap] at hmem
  obtain ⟨_, -, hc⟩ := List.mem_flatMap.mp hmem
  exact lowerChar_of_mem hc

/-- A text has the words that it is read with, if they are small already. -/
theorem words_of_splits {cs : List Char} {ws : List (List Char)} (h : Splits cs ws)
    (hsmall : ∀ w ∈ ws, ∀ c ∈ w, lowerChar c = [c]) :
    words (String.ofList cs) = ws.map String.ofList := by
  have hsigma : 'Σ' ∉ cs := by
    intro hmem
    have hinside : 'Σ' ∈ ws.flatten := by
      rw [h.flatten_eq]
      exact List.mem_filter.mpr ⟨hmem, by decide +kernel⟩
    obtain ⟨w, hw, hc⟩ := List.mem_flatten.mp hinside
    exact absurd (hsmall w hw 'Σ' hc) (by decide +kernel)
  rw [words_eq, String.toList_ofList, settled, settledIn_of_not_mem hsigma, h.runs_eq]
  refine List.map_congr_left fun w hw => congrArg String.ofList ?_
  rw [List.flatMap_congr (hsmall w hw), List.flatMap_singleton']

/-- The words of a text are its small form but for the delimiters: the pieces between them that are
not empty, and the maximal runs of other characters. A text that is made of these words in their
order, with delimiters between any two of them, has the same words, whatever these delimiters are
and whatever delimiters stand before and after. -/
theorem words_stable (s : String) :
    (pieces (normalize s).toList).filter (· ≠ []) = (words s).map String.toList ∧
      (∀ ws, Splits (normalize s).toList ws ↔ ws = (words s).map String.toList) ∧
      (words s).flatMap String.toList = (normalize s).toList.filter (!isDelimiter ·) ∧
      ∀ (before : List Char) (gaps : List (List Char)), gaps.length = (words s).length →
        (∀ c ∈ before ++ gaps.flatten, isDelimiter c = true) → (∀ g ∈ gaps.dropLast, g ≠ []) →
        words (String.ofList (before ++
          (List.zipWith (fun w g => w.toList ++ g) (words s) gaps).flatten)) = words s := by
  have hwords := map_toList_words s
  have hsplits := splits_runs (normalize s).toList
  refine ⟨?_, fun ws => ?_, ?_, ?_⟩
  · rw [hwords, filter_pieces]
  · rw [hwords, ← runs_eq_iff, eq_comm]
  · rw [List.flatMap_def, hwords, hsplits.flatten_eq]
  · intro before gaps hlength hdelimiters hnonempty
    obtain ⟨hbefore, hgaps⟩ := List.forall_mem_append.mp hdelimiters
    have hinside : ∀ w ∈ runs (normalize s).toList, w ≠ [] ∧ ∀ c ∈ w, isDelimiter c = false :=
      fun w hw => (hsplits.mem_word hw).imp_right fun h c hc => (h c hc).1
    have hcount : gaps.length = (runs (normalize s).toList).length := by
      rw [hlength, ← hwords, List.length_map]
    have hwritten := (Splits.of_gaps hinside hcount hgaps hnonempty).delimiters_append hbefore
    have hsame := words_of_splits hwritten fun w hw c hc => lowerChar_of_mem_runs hw hc
    rw [← hwords, List.zipWith_map_left, hwords] at hsame
    exact hsame

/-- The sigma before the full stop, which is passed over, is not final. It keeps its form before a
hyphen, and the final one keeps its own before a symbol that has a case. -/
theorem words_stable_sigma :
    words "ΑΣ.Α İΣ" = ["ασ", "α", "i\u0307ς"] ∧
      words "«ασ-α.i\u0307ςⒶ" = words "ΑΣ.Α İΣ" := by
  have hwords : words "ΑΣ.Α İΣ" = ["ασ", "α", "i\u0307ς"] := by decide +kernel
  obtain ⟨-, -, -, hwritten⟩ := words_stable "ΑΣ.Α İΣ"
  rw [hwords] at hwritten ⊢
  have hdelimiters : ∀ c ∈ ['«'] ++ [['-'], ['.'], ['Ⓐ']].flatten, isDelimiter c = true :=
    List.all_eq_true.mp (by decide +kernel)
  have hnonempty : ∀ g ∈ [['-'], ['.'], ['Ⓐ']].dropLast, g ≠ [] := by decide
  exact ⟨rfl, hwritten ['«'] [['-'], ['.'], ['Ⓐ']] rfl hdelimiters hnonempty⟩

end Gazetteer.Text
