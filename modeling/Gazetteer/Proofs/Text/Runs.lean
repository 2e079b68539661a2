import Gazetteer.Text.Word
import Mathlib.Data.List.Forall2

/-! Texts and their words before any letter is changed. A text is read as words and the delimiters
around them in one way only. -/
namespace Gazetteer.Text

/-- A text and its maximal runs of characters that are no delimiters. -/
inductive Splits : List Char → List (List Char) → Prop
  | nil : Splits [] []
  | delimiter {d cs ws} (delimits : isDelimiter d = true) (rest : Splits cs ws) : Splits (d :: cs) ws
  | word {w cs ws} (nonempty : w ≠ []) (inside : ∀ c ∈ w, isDelimiter c = false)
      (stops : ∀ c ∈ cs.head?, isDelimiter c = true) (rest : Splits cs ws) :
      Splits (w ++ cs) (w :: ws)

@[simp] theorem runs_nil : runs [] = [] := rfl

theorem runs_delimiter_cons {d : Char} (h : isDelimiter d = true) (cs : List Char) :
    runs (d :: cs) = runs cs :=
  if_pos h

/-- A word up to a delimiter or the end is the first run. -/
theorem runs_word_append {w cs : List Char} (nonempty : w ≠ [])
    (inside : ∀ c ∈ w, isDelimiter c = false) (stops : ∀ c ∈ cs.head?, isDelimiter c = true) :
    runs (w ++ cs) = w :: runs cs := by
  induction w with
  | nil => exact absurd rfl nonempty
  | cons c w ih =>
    have hc := inside c List.mem_cons_self
    rw [List.cons_append, runs, hc, if_neg Bool.false_ne_true]
    cases w with
    | nil =>
      rw [List.nil_append]
      cases cs with
      | nil => rfl
      | cons d cs =>
        rw [List.head?_cons, Option.map_some, Option.getD_some, stops d rfl]
    | cons c' w =>
      have hc' := inside c' (.tail _ List.mem_cons_self)
      rw [ih (List.cons_ne_nil c' w) fun x hx => inside x (.tail _ hx), List.cons_append,
        List.head?_cons, Option.map_some, Option.getD_some, hc']

namespace Splits
variable {cs : List Char} {ws : List (List Char)}

/-- The maximal runs are those that the text is read with. -/
theorem runs_eq (h : Splits cs ws) : runs cs = ws := by
  induction h with
  | nil => rfl
  | delimiter delimits rest ih => rw [runs_delimiter_cons delimits, ih]
  | word nonempty inside stops rest ih => rw [runs_word_append nonempty inside stops, ih]

/-- Every text splits into words and delimiters. -/
theorem exists_splits (cs : List Char) : ∃ ws, Splits cs ws := by
  induction cs with
  | nil => exact ⟨[], .nil⟩
  | cons c cs ih =>
    obtain ⟨ws, h⟩ := ih
    cases hc : isDelimiter c with
    | true => exact ⟨ws, .delimiter hc h⟩
    | false =>
      have hone : ∀ x ∈ [c], isDelimiter x = false := by simpa using hc
      cases h with
      | nil => exact ⟨_, .word (List.cons_ne_nil c []) hone (by simp) .nil⟩
      | delimiter delimits rest =>
        exact ⟨_, .word (List.cons_ne_nil c []) hone (by simpa using delimits)
          (.delimiter delimits rest)⟩
      | word nonempty inside stops rest =>
        refine ⟨_, .word (List.cons_ne_nil c _) (fun x hx => ?_) stops rest⟩
        rcases List.mem_cons.mp hx with rfl | hx
        · exact hc
        · exact inside x hx

end Splits

/-- The runs split a text into words and delimiters. -/
theorem splits_runs (cs : List Char) : Splits cs (runs cs) := by
  obtain ⟨ws, h⟩ := Splits.exists_splits cs
  rwa [h.runs_eq]

/-- There is no other way to do so. -/
theorem runs_eq_iff {cs : List Char} {ws : List (List Char)} : runs cs = ws ↔ Splits cs ws :=
  ⟨fun h => h ▸ splits_runs cs, Splits.runs_eq⟩

namespace Splits
variable {cs ds : List Char} {ws : List (List Char)}

/-- A word has characters, of the text and no delimiters. -/
theorem mem_word {w : List Char} (h : Splits cs ws) (hw : w ∈ ws) :
    w ≠ [] ∧ ∀ c ∈ w, isDelimiter c = false ∧ c ∈ cs := by
  induction h with
  | nil => cases hw
  | delimiter _ _ ih =>
    exact (ih hw).imp_right fun h c hc => (h c hc).imp_right (.tail _)
  | word nonempty inside _ _ ih =>
    rcases List.mem_cons.mp hw with rfl | hw
    · exact ⟨nonempty, fun c hc => ⟨inside c hc, List.mem_append_left _ hc⟩⟩
    · exact (ih hw).imp_right fun h c hc => (h c hc).imp_right (List.mem_append_right _)

/-- The words hold all that is no delimiter. -/
theorem flatten_eq (h : Splits cs ws) : ws.flatten = cs.filter (!isDelimiter ·) := by
  induction h with
  | nil => rfl
  | delimiter delimits _ ih => rw [List.filter_cons_of_neg (by simpa using delimits), ih]
  | word _ inside _ _ ih =>
    have hword := List.filter_eq_self.mpr fun c hc => (Bool.not_eq_true' _).mpr (inside c hc)
    rw [List.filter_append, hword, List.flatten_cons, ih]

theorem delimiters_append (hds : ∀ d ∈ ds, isDelimiter d = true) (h : Splits cs ws) :
    Splits (ds ++ cs) ws := by
  induction ds with
  | nil => exact h
  | cons d ds ih =>
    exact .delimiter (hds d List.mem_cons_self) (ih fun x hx => hds x (.tail _ hx))

theorem append_delimiters (h : Splits cs ws) (hds : ∀ d ∈ ds, isDelimiter d = true) :
    Splits (cs ++ ds) ws := by
  induction h with
  | nil =>
    rw [List.nil_append, ← List.append_nil ds]
    exact delimiters_append hds .nil
  | delimiter delimits rest ih => exact .delimiter delimits ih
  | @word w cs ws nonempty inside stops rest ih =>
    rw [List.append_assoc]
    refine .word nonempty inside (fun c hc => ?_) ih
    rw [List.head?_append] at hc
    rcases Option.or_eq_some_iff.mp hc with hc | ⟨-, hc⟩
    · exact stops c hc
    · exact hds c (List.mem_of_mem_head? hc)

/-- Words are written one after another, each followed by delimiters; the last may have none. -/
theorem of_gaps {gaps : List (List Char)}
    (hws : ∀ w ∈ ws, w ≠ [] ∧ ∀ c ∈ w, isDelimiter c = false) (hlength : gaps.length = ws.length)
    (hgaps : ∀ c ∈ gaps.flatten, isDelimiter c = true) (hnonempty : ∀ g ∈ gaps.dropLast, g ≠ []) :
    Splits (List.zipWith (· ++ ·) ws gaps).flatten ws := by
  induction ws generalizing gaps with
  | nil => exact .nil
  | cons w ws ih =>
    obtain ⟨g, gaps, rfl⟩ := List.exists_cons_of_length_eq_add_one hlength
    rw [List.flatten_cons, List.forall_mem_append] at hgaps
    obtain ⟨⟨hw, inside⟩, hws⟩ := List.forall_mem_cons.mp hws
    obtain ⟨hg, hgaps⟩ := hgaps
    have hdropLast : (g :: gaps).dropLast.tail = gaps.dropLast := List.tail_dropLast
    have hrest := ih hws (Nat.succ.inj hlength) hgaps fun v hv =>
      hnonempty v (List.mem_of_mem_tail (hdropLast.symm ▸ hv))
    rw [List.zipWith_cons_cons, List.flatten_cons, List.append_assoc]
    refine .word hw inside (fun c hc => ?_) (hrest.delimiters_append hg)
    cases g with
    | cons d g =>
      cases hc
      exact hg c List.mem_cons_self
    | nil =>
      -- Only the last gap may be empty, and then no word comes after it.
      cases gaps with
      | nil =>
        rw [List.zipWith_nil_right] at hc
        cases hc
      | cons g gaps => exact absurd rfl (hnonempty [] List.mem_cons_self)

/-- Words are taken apart as before if delimiters become delimiters and the others do not. -/
theorem flatMap {f : Char → List Char} (hne : ∀ c, f c ≠ [])
    (hf : ∀ c, ∀ d ∈ f c, isDelimiter d = isDelimiter c) (h : Splits cs ws) :
    Splits (cs.flatMap f) (ws.map (·.flatMap f)) := by
  induction h with
  | nil => exact .nil
  | delimiter delimits rest ih =>
    rw [List.flatMap_cons]
    exact delimiters_append (fun d hd => (hf _ d hd).trans delimits) ih
  | @word w cs ws nonempty inside stops rest ih =>
    rw [List.flatMap_append, List.map_cons]
    refine .word ?_ (fun d hd => ?_) (fun d hd => ?_) ih
    · obtain ⟨c, w', rfl⟩ := List.exists_cons_of_ne_nil nonempty
      rw [List.flatMap_cons]
      exact List.append_ne_nil_of_left_ne_nil (hne c) _
    · obtain ⟨c, hc, hd⟩ := List.mem_flatMap.mp hd
      exact (hf c d hd).trans (inside c hc)
    · cases cs with
      | nil => cases hd
      | cons c cs =>
        rw [List.flatMap_cons, List.head?_append_of_ne_nil _ (hne c)] at hd
        exact (hf c d (List.mem_of_mem_head? hd)).trans (stops c rfl)

theorem inside_of_forall₂ {R : Char → Char → Prop}
    (hR : ∀ b c, R b c → isDelimiter b = isDelimiter c) {v w : List Char} (h : List.Forall₂ R v w)
    (inside : ∀ c ∈ w, isDelimiter c = false) : ∀ b ∈ v, isDelimiter b = false := by
  induction h with
  | nil => nofun
  | cons hbc _ ih =>
    intro b hb
    rcases List.mem_cons.mp hb with rfl | hb
    · exact (hR _ _ hbc).trans (inside _ List.mem_cons_self)
    · exact ih (fun c hc => inside c (.tail _ hc)) b hb

/-- If each character is put in place of another, and both or neither are delimiters, then so are
the words put in place of the words. -/
theorem forall₂ {R : Char → Char → Prop} (hR : ∀ b c, R b c → isDelimiter b = isDelimiter c)
    (h : Splits cs ws) {bs : List Char} (hbs : List.Forall₂ R bs cs) :
    ∃ vs, Splits bs vs ∧ List.Forall₂ (List.Forall₂ R) vs ws := by
  induction h generalizing bs with
  | nil =>
    cases hbs
    exact ⟨[], .nil, .nil⟩
  | delimiter delimits rest ih =>
    cases hbs with
    | cons hd hbs =>
      obtain ⟨vs, hvs, hws⟩ := ih hbs
      exact ⟨vs, .delimiter ((hR _ _ hd).trans delimits) hvs, hws⟩
  | @word w cs ws nonempty inside stops rest ih =>
    have hv := List.forall₂_take_append _ _ _ hbs
    have hrest := List.forall₂_drop_append _ _ _ hbs
    rw [← List.take_append_drop w.length bs]
    generalize bs.take w.length = v at hv ⊢
    generalize bs.drop w.length = bs' at hrest ⊢
    obtain ⟨vs, hvs, hws⟩ := ih hrest
    refine ⟨v :: vs, .word ?_ (inside_of_forall₂ hR hv inside) (fun b hb => ?_) hvs, .cons hv hws⟩
    · rintro rfl
      cases hv
      exact nonempty rfl
    · cases hrest with
      | nil => cases hb
      | cons hR' _ =>
        cases hb
        exact (hR _ _ hR').trans (stops _ rfl)

end Splits
end Gazetteer.Text
