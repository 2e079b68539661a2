import Gazetteer.Proofs.Text.CharSets
import Gazetteer.Proofs.Text.Runs
import Mathlib.Data.List.TakeWhile

/-! How a text becomes small. First every capital sigma is settled, which is all that looks at other
characters; then each character becomes small for itself. So the words become small in place, and
white space around the text makes no difference. -/
namespace Gazetteer.Text

/-- The text between `before`, nearest first, and `after`, with a small sigma for every capital
one. -/
def settledIn (before after : List Char) : List Char → List Char
  | [] => []
  | c :: cs =>
    (if c = 'Σ' then if isFinalSigma before (cs ++ after) then 'ς' else 'σ' else c)
      :: settledIn (c :: before) after cs

/-- The text with a small sigma for every capital one, as the whole text asks for. -/
def settled (cs : List Char) : List Char := settledIn [] [] cs

private theorem lowerAfter_eq_flatMap (before cs : List Char) :
    lowerAfter before cs = (settledIn before [] cs).flatMap lowerChar := by
  induction cs generalizing before with
  | nil => rfl
  | cons c cs ih =>
    rw [lowerAfter, settledIn, List.flatMap_cons, ih, List.append_nil]
    split
    · split
      · rw [show lowerChar 'ς' = ['ς'] by decide +kernel]
      · rw [show lowerChar 'σ' = ['σ'] by decide +kernel]
    · rfl

/-- The small form of a text is that of its characters, once its sigmas are settled. -/
theorem lower_eq_flatMap (cs : List Char) : lower cs = (settled cs).flatMap lowerChar :=
  lowerAfter_eq_flatMap [] cs

section
variable {before after cs ds : List Char}

/-- Parts of a text are settled by themselves, each with the other one around it. -/
theorem settledIn_append (before after cs ds : List Char) :
    settledIn before after (cs ++ ds) =
      settledIn before (ds ++ after) cs ++ settledIn (cs.reverse ++ before) after ds := by
  induction cs generalizing before with
  | nil => rfl
  | cons c cs ih =>
    rw [List.cons_append, settledIn, settledIn, List.cons_append, ih, List.append_assoc,
      List.reverse_cons, List.append_assoc, List.singleton_append]

/-- What is put in place of a character: a small sigma for a capital one, and else itself. -/
def Settles (d c : Char) : Prop := if c = 'Σ' then d = 'σ' ∨ d = 'ς' else d = c

/-- Settling changes sigmas alone. -/
theorem settles_settledIn (before after cs : List Char) :
    List.Forall₂ Settles (settledIn before after cs) cs := by
  induction cs generalizing before with
  | nil => exact .nil
  | cons c cs ih =>
    refine .cons ?_ (ih _)
    unfold Settles
    split
    · split <;> simp
    · rfl

namespace Settles
variable {c d e : Char}

private theorem cases (h : Settles d c) : c = 'Σ' ∧ (d = 'σ' ∨ d = 'ς') ∨ c ≠ 'Σ' ∧ d = c := by
  unfold Settles at h
  split at h
  · next hc => exact .inl ⟨hc, h⟩
  · next hc => exact .inr ⟨hc, h⟩

theorem isDelimiter (h : Settles d c) : isDelimiter d = isDelimiter c := by
  rcases h.cases with ⟨rfl, rfl | rfl⟩ | ⟨-, rfl⟩
  · decide +kernel
  · decide +kernel
  · rfl

/-- Different forms of a character are small already. -/
theorem eq_or_lowerChar (h : Settles d c) (h' : Settles e c) :
    d = e ∨ lowerChar d = [d] ∧ lowerChar e = [e] := by
  have hsmall {x : Char} (hx : x = 'σ' ∨ x = 'ς') : lowerChar x = [x] := by
    rcases hx with rfl | rfl <;> decide +kernel
  rcases h.cases with ⟨hc, hd⟩ | ⟨hc, rfl⟩
  · rcases h'.cases with ⟨-, he⟩ | ⟨hc', -⟩
    · exact .inr ⟨hsmall hd, hsmall he⟩
    · exact absurd hc hc'
  · rcases h'.cases with ⟨hc', -⟩ | ⟨-, rfl⟩
    · exact absurd hc' hc
    · exact .inl rfl

end Settles

theorem leadsToCased_cons (c : Char) (cs : List Char) :
    leadsToCased (c :: cs) = if caseIgnorable.holds c then leadsToCased cs else cased.holds c := by
  rw [leadsToCased, List.dropWhile_cons]
  cases caseIgnorable.holds c <;> rfl

private theorem leadsToCased_append (h : leadsToCased ds = false) (cs : List Char) :
    leadsToCased (cs ++ ds) = leadsToCased cs := by
  induction cs with
  | nil => exact h
  | cons c cs ih => rw [List.cons_append, leadsToCased_cons, leadsToCased_cons, ih]

/-- A character that is neither passed over nor has a case: the search for the end of a word stops
there. -/
structure Plain (c : Char) : Prop where
  notPassed : caseIgnorable.holds c = false
  notCased : cased.holds c = false

instance (c : Char) : Decidable (Plain c) :=
  decidable_of_iff (caseIgnorable.holds c = false ∧ cased.holds c = false)
    ⟨fun ⟨h, h'⟩ => ⟨h, h'⟩, fun ⟨h, h'⟩ => ⟨h, h'⟩⟩

/-- A plain character stops the search for the end of a word. -/
theorem Plain.leadsToCased {c : Char} (h : Plain c) (cs : List Char) :
    leadsToCased (c :: cs) = false := by
  rw [leadsToCased_cons, h.notPassed, if_neg Bool.false_ne_true, h.notCased]

/-- Surroundings that lead to no case do not matter. -/
theorem settledIn_of_leadsToCased (hbefore : leadsToCased before = false)
    (hafter : leadsToCased after = false) (cs : List Char) :
    settledIn before after cs = settled cs := by
  -- The characters that are settled so far come between, so the induction is with them.
  have hgeneral (near cs : List Char) :
      settledIn (near ++ before) after cs = settledIn near [] cs := by
    induction cs generalizing near with
    | nil => rfl
    | cons c cs ih =>
      rw [settledIn, settledIn, isFinalSigma, isFinalSigma, leadsToCased_append hbefore,
        leadsToCased_append hafter, List.append_nil, ← List.cons_append, ih]
  exact hgeneral [] cs

end

section
variable {cs : List Char} {ws : List (List Char)}

private theorem leadsToCased_whiteSpace (h : ∀ c ∈ cs, whiteSpace.holds c = true) :
    leadsToCased cs = false := by
  cases cs with
  | nil => rfl
  | cons c cs =>
    have hc := h c List.mem_cons_self
    exact Plain.leadsToCased ⟨caseIgnorable_of_whiteSpace hc, cased_of_whiteSpace hc⟩ cs

private theorem settledIn_whiteSpace (h : ∀ c ∈ cs, whiteSpace.holds c = true)
    (before after : List Char) : settledIn before after cs = cs := by
  induction cs generalizing before with
  | nil => rfl
  | cons c cs ih =>
    have hc : c ≠ 'Σ' := by
      rintro rfl
      have := h 'Σ' List.mem_cons_self
      revert this
      decide +kernel
    rw [settledIn, if_neg hc, ih fun d hd => h d (.tail _ hd)]

private theorem trim_eq (cs : List Char) :
    ∃ front back, cs = front ++ (trim cs ++ back) ∧
      (∀ c ∈ front, whiteSpace.holds c = true) ∧ ∀ c ∈ back, whiteSpace.holds c = true := by
  refine ⟨cs.takeWhile whiteSpace.holds,
    ((cs.dropWhile whiteSpace.holds).reverse.takeWhile whiteSpace.holds).reverse, ?_,
    fun c hc => List.mem_takeWhile_imp hc,
    fun c hc => List.mem_takeWhile_imp (List.mem_reverse.mp hc)⟩
  rw [trim, ← List.reverse_append, List.takeWhile_append_dropWhile, List.reverse_reverse,
    List.takeWhile_append_dropWhile]

/-- White space around a text does not matter for its words. -/
theorem runs_settled_trim (cs : List Char) : runs (settled (trim cs)) = runs (settled cs) := by
  obtain ⟨front, back, hcs, hfront, hback⟩ := trim_eq cs
  have hbefore : leadsToCased (front.reverse ++ []) = false :=
    leadsToCased_whiteSpace fun c hc => hfront c (by simpa using hc)
  have hmiddle : settledIn (front.reverse ++ []) (back ++ []) (trim cs) = settled (trim cs) :=
    settledIn_of_leadsToCased hbefore
      (leadsToCased_whiteSpace fun c hc => hback c (by simpa using hc)) _
  have hsettled : settled cs = front ++ (settled (trim cs) ++ back) := by
    conv_lhs => rw [settled, hcs]
    rw [settledIn_append, settledIn_append, settledIn_whiteSpace hfront, settledIn_whiteSpace hback,
      hmiddle]
  have hsplits := ((splits_runs (settled (trim cs))).append_delimiters fun c hc =>
    delimiters_of_whiteSpace (hback c hc)).delimiters_append fun c hc =>
      delimiters_of_whiteSpace (hfront c hc)
  rw [hsettled, hsplits.runs_eq]

/-- The words of a text are its maximal runs, each with its sigmas settled as the whole text asks
for and its characters made small. -/
theorem words_eq (s : String) :
    words s = (runs (settled s.toList)).map fun w => String.ofList (w.flatMap lowerChar) := by
  have hsplits := (splits_runs (settled (trim s.toList))).flatMap lowerChar_ne_nil
    fun c d hd => delimiters_of_mem_lowerChar hd
  rw [words, normalize, String.toList_ofList, lower_eq_flatMap, hsplits.runs_eq, List.map_map,
    runs_settled_trim]
  rfl

end
end Gazetteer.Text
