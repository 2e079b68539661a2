import Gazetteer.Ascending
import Mathlib.Order.Defs.Unbundled
import Mathlib.Data.List.Chain
import Mathlib.Data.List.Perm.Subperm

/-! Strictly ascending lists as sets: each operation on them by its members and by the order it
leaves behind, and lists of pairs with ascending keys as finite maps. -/
namespace Gazetteer

section
variable {α : Type}

private theorem inOrder_iff_isChain (related : α → α → Bool) (as : List α) :
    inOrder related as = true ↔ as.IsChain (fun a b => related a b = true) := by
  induction as with
  | nil => simp [inOrder]
  | cons a as ih =>
    cases as with
    | nil => simp [inOrder]
    | cons b bs => rw [inOrder, Bool.and_eq_true, ih, List.isChain_cons_cons]

theorem inOrder_of_pairwise {related : α → α → Bool} {as : List α}
    (h : as.Pairwise fun a b => related a b = true) : inOrder related as = true :=
  (inOrder_iff_isChain related as).mpr h.isChain

variable [BEq α]

private theorem eraseReps_loop (a : α) (as acc : List α) :
    List.eraseRepsBy.loop (· == ·) a as acc = acc.reverse ++ (a :: as).eraseReps := by
  induction as generalizing a acc with
  | nil => simp [List.eraseReps, List.eraseRepsBy, List.eraseRepsBy.loop]
  | cons b bs ih =>
    simp only [List.eraseReps, List.eraseRepsBy, List.eraseRepsBy.loop] at ih ⊢
    cases a == b with
    | true => simpa using ih a acc
    | false =>
      simp only [ih b (a :: acc), ih b [a]]
      simp

private theorem eraseReps_cons_cons (a b : α) (bs : List α) :
    (a :: b :: bs).eraseReps =
      if a == b then (a :: bs).eraseReps else a :: (b :: bs).eraseReps := by
  change List.eraseRepsBy.loop (· == ·) a (b :: bs) [] = _
  simp only [List.eraseRepsBy.loop]
  cases a == b with
  | true => simp [eraseReps_loop]
  | false => simp [eraseReps_loop]

private theorem mem_eraseReps [LawfulBEq α] {c : α} {as : List α} : c ∈ as.eraseReps ↔ c ∈ as := by
  match as with
  | [] => rfl
  | [a] => rfl
  | a :: b :: bs =>
    rw [eraseReps_cons_cons]
    split_ifs with h
    · cases eq_of_beq h
      rw [mem_eraseReps]
      simp
    · rw [List.mem_cons, mem_eraseReps, List.mem_cons (b := a)]
termination_by as.length

end

section
variable {α : Type} {r : α → α → Prop} {p : α → Bool} {as : List α}

/-- In an ordered list, the front that has a property which passes down is all that has it. -/
theorem takeWhile_eq_filter_of_pairwise (h : as.Pairwise r)
    (hp : ∀ a b, r a b → p b = true → p a = true) : as.takeWhile p = as.filter p := by
  induction as with
  | nil => rfl
  | cons a as ih =>
    obtain ⟨ha, has⟩ := List.pairwise_cons.mp h
    by_cases hpa : p a = true
    · rw [List.takeWhile_cons_of_pos hpa, List.filter_cons_of_pos hpa, ih has]
    · have hnone : as.filter p = [] :=
        List.filter_eq_nil_iff.mpr fun b hb hpb => hpa (hp a b (ha b hb) hpb)
      rw [List.takeWhile_cons_of_neg hpa, List.filter_cons_of_neg hpa, hnone]

/-- What remains after that front is all that has not the property. -/
theorem dropWhile_eq_filter_of_pairwise (h : as.Pairwise r)
    (hp : ∀ a b, r a b → p b = true → p a = true) : as.dropWhile p = as.filter (!p ·) := by
  induction as with
  | nil => rfl
  | cons a as ih =>
    obtain ⟨ha, has⟩ := List.pairwise_cons.mp h
    by_cases hpa : p a = true
    · rw [List.dropWhile_cons_of_pos hpa, List.filter_cons_of_neg (by simp [hpa]), ih has]
    · have hall : ∀ b ∈ a :: as, (!p b) = true := by
        refine List.forall_mem_cons.mpr ⟨by simpa using hpa, fun b hb => ?_⟩
        simpa using fun hpb => hpa (hp a b (ha b hb) hpb)
      rw [List.dropWhile_cons_of_neg hpa, List.filter_eq_self.mpr hall]

end

/-- Different numbers below a bound are no more than the bound. -/
theorem length_le_of_nodup {ns : List Nat} {bound : Nat} (hnodup : ns.Nodup)
    (hlt : ∀ n ∈ ns, n < bound) : ns.length ≤ bound := by
  have hsub := (hnodup.subperm fun n hn => List.mem_range.mpr (hlt n hn)).length_le
  rwa [List.length_range] at hsub

theorem isStrictTotalOrder_of_toNat {α : Type} [LT α] (f : α → Nat)
    (hf : Function.Injective f) (hlt : ∀ a b : α, a < b ↔ f a < f b) :
    IsStrictTotalOrder α (· < ·) where
  trichotomous a b h h' := hf (Nat.le_antisymm (Nat.not_lt.mp fun hn => h' ((hlt b a).mpr hn))
    (Nat.not_lt.mp fun hn => h ((hlt a b).mpr hn)))
  irrefl a h := Nat.lt_irrefl _ ((hlt a a).mp h)
  trans a b c h h' := (hlt a c).mpr (Nat.lt_trans ((hlt a b).mp h) ((hlt b c).mp h'))

instance strictTotalOrder_uint8 : IsStrictTotalOrder UInt8 (· < ·) :=
  isStrictTotalOrder_of_toNat UInt8.toNat (fun _ _ => UInt8.toNat_inj.mp)
    fun _ _ => UInt8.lt_iff_toNat_lt

instance strictTotalOrder_uint32 : IsStrictTotalOrder UInt32 (· < ·) :=
  isStrictTotalOrder_of_toNat UInt32.toNat (fun _ _ => UInt32.toNat_inj.mp)
    fun _ _ => UInt32.lt_iff_toNat_lt

namespace Ascending

variable {α : Type} [LT α]

section
variable [DecidableLT α]

private theorem sublist_inter (as bs : List α) : (inter as bs).Sublist as := by
  fun_induction inter as bs with
  | case1 bs => exact List.Sublist.refl _
  | case2 as _ => exact List.nil_sublist _
  | case3 a as b bs h ih => exact ih.cons a
  | case4 a as b bs h h' ih => exact ih
  | case5 a as b bs h h' ih => exact ih.cons_cons a

theorem pairwise_inter {as : List α} (h : as.Pairwise (· < ·)) (bs : List α) :
    (inter as bs).Pairwise (· < ·) := h.sublist (sublist_inter as bs)

/-- Sorting loses nothing and adds nothing. -/
theorem mem_ofList [BEq α] [LawfulBEq α] {a : α} {as : List α} : a ∈ ofList as ↔ a ∈ as := by
  rw [ofList, mem_eraseReps, List.mem_mergeSort]

end

variable [IsStrictTotalOrder α (· < ·)]

theorem lt_trans {a b c : α} (h : a < b) (h' : b < c) : a < c := IsTrans.trans a b c h h'

theorem lt_irrefl (a : α) : ¬ a < a := Std.Irrefl.irrefl a

theorem lt_asymm {a b : α} (h : a < b) : ¬ b < a := fun h' => lt_irrefl a (lt_trans h h')

theorem eq_of_not_lt {a b : α} (h : ¬ a < b) (h' : ¬ b < a) : a = b :=
  Std.Trichotomous.trichotomous (r := (· < ·)) a b h h'

private theorem not_lt_trans {a b c : α} (h : ¬ b < a) (h' : ¬ c < b) : ¬ c < a := by
  intro hca
  by_cases hab : a < b
  · exact h' (lt_trans hca hab)
  · cases eq_of_not_lt hab h
    exact h' hca

theorem nodup_of_pairwise {as : List α} (h : as.Pairwise (· < ·)) : as.Nodup :=
  List.Pairwise.imp (S := (· ≠ ·)) (fun {a b} (hlt : a < b) (he : a = b) =>
    lt_irrefl b (he ▸ hlt)) h

/-- A strictly ascending list is determined by its members. -/
theorem eq_of_pairwise {as bs : List α} (ha : as.Pairwise (· < ·)) (hb : bs.Pairwise (· < ·))
    (hmem : ∀ a, a ∈ as ↔ a ∈ bs) : as = bs := by
  have hperm : as.Perm bs :=
    (List.perm_ext_iff_of_nodup (nodup_of_pairwise ha) (nodup_of_pairwise hb)).mpr hmem
  refine hperm.eq_of_pairwise ?_ ha hb
  intro a b _ _ hlt hlt'
  exact absurd hlt' (lt_asymm hlt)

variable [DecidableLT α]

/-- Comparing neighbours is enough to tell that a list is ascending. -/
theorem inOrder_iff_pairwise {β : Type} (f : β → α) {bs : List β} :
    inOrder (fun a b => decide (f a < f b)) bs = true ↔ (bs.map f).Pairwise (· < ·) := by
  rw [inOrder_iff_isChain, ← List.isChain_iff_pairwise, List.isChain_map]
  simp only [decide_eq_true_eq]

/-- Neighbours that may be the same keep the whole list in order too. -/
theorem pairwise_of_inOrder {as : List α} (h : inOrder (fun a b => !decide (b < a)) as = true) :
    as.Pairwise fun a b => ¬ b < a := by
  have : IsTrans α fun a b => ¬ b < a := ⟨fun _ _ _ => not_lt_trans⟩
  rw [inOrder_iff_isChain] at h
  exact List.isChain_iff_pairwise.mp (h.imp fun _ _ hab => by simpa using hab)

theorem mem_insert {a b : α} {as : List α} : b ∈ insert a as ↔ b = a ∨ b ∈ as := by
  induction as with
  | nil => simp [insert]
  | cons c cs ih =>
    rw [insert]
    split_ifs with h h'
    · simp
    · rw [List.mem_cons, ih, List.mem_cons]
      exact or_left_comm
    · cases eq_of_not_lt h h'
      simp

omit [IsStrictTotalOrder α (· < ·)] in
theorem length_insert_le (a : α) (as : List α) : (insert a as).length ≤ as.length + 1 := by
  induction as with
  | nil => exact Nat.le_refl _
  | cons b bs ih =>
    rw [insert]
    split
    · exact Nat.le_refl _
    split
    · exact Nat.succ_le_succ ih
    · exact Nat.le_succ _

/-- An insertion keeps a list ascending. -/
theorem pairwise_insert {a : α} {as : List α} (h : as.Pairwise (· < ·)) :
    (insert a as).Pairwise (· < ·) := by
  induction as with
  | nil => simp [insert]
  | cons c cs ih =>
    obtain ⟨hc, hcs⟩ := List.pairwise_cons.mp h
    rw [insert]
    split_ifs with h h'
    · apply List.Pairwise.cons _ (List.pairwise_cons.mpr ⟨hc, hcs⟩)
      intro d hd
      rcases List.mem_cons.mp hd with rfl | hd
      · exact h
      · exact lt_trans h (hc d hd)
    · apply List.Pairwise.cons _ (ih hcs)
      intro d hd
      rcases mem_insert.mp hd with rfl | hd
      · exact h'
      · exact hc d hd
    · exact List.pairwise_cons.mpr ⟨hc, hcs⟩

section pairs
variable {β : Type}

/-- Setting the value of a key replaces the value that it had and leaves all other pairs. -/
theorem mem_insertPair {a : α} {v : β} {ps : List (α × β)} (h : (ps.map (·.1)).Pairwise (· < ·))
    {p : α × β} : p ∈ insertPair a v ps ↔ p = (a, v) ∨ p ∈ ps ∧ p.1 ≠ a := by
  induction ps with
  | nil => simp [insertPair]
  | cons q qs ih =>
    obtain ⟨b, w⟩ := q
    obtain ⟨hb, hqs⟩ := List.pairwise_cons.mp h
    have hlt (r : α × β) (hr : r ∈ qs) : b < r.1 := hb r.1 (List.mem_map_of_mem hr)
    rw [insertPair]
    split_ifs with h h'
    · have hne (r : α × β) (hr : r ∈ (b, w) :: qs) : r.1 ≠ a := by
        rintro rfl
        rcases List.mem_cons.mp hr with rfl | hr
        · exact lt_irrefl _ h
        · exact lt_asymm h (hlt r hr)
      rw [List.mem_cons]
      exact or_congr_right ⟨fun hp => ⟨hp, hne p hp⟩, And.left⟩
    · have hba : b ≠ a := fun he => lt_irrefl a (he ▸ h')
      rw [List.mem_cons, ih hqs, List.mem_cons]
      constructor
      · rintro (rfl | rfl | ⟨hp, hn⟩)
        · exact .inr ⟨.inl rfl, hba⟩
        · exact .inl rfl
        · exact .inr ⟨.inr hp, hn⟩
      · rintro (rfl | ⟨rfl | hp, hn⟩)
        · exact .inr (.inl rfl)
        · exact .inl rfl
        · exact .inr (.inr ⟨hp, hn⟩)
    · cases eq_of_not_lt h h'
      have hne (r : α × β) (hr : r ∈ qs) : r.1 ≠ a := fun he => lt_irrefl a (he ▸ hlt r hr)
      rw [List.mem_cons, List.mem_cons]
      constructor
      · rintro (rfl | hp)
        · exact .inl rfl
        · exact .inr ⟨.inr hp, hne p hp⟩
      · rintro (rfl | ⟨rfl | hp, hn⟩)
        · exact .inl rfl
        · exact absurd rfl hn
        · exact .inr hp

omit [IsStrictTotalOrder α (· < ·)] in
theorem length_insertPair_le (a : α) (v : β) (ps : List (α × β)) :
    (insertPair a v ps).length ≤ ps.length + 1 := by
  induction ps with
  | nil => exact Nat.le_refl _
  | cons q qs ih =>
    rw [insertPair]
    split
    · exact Nat.le_refl _
    split
    · exact Nat.succ_le_succ ih
    · exact Nat.le_succ _

omit [IsStrictTotalOrder α (· < ·)] in
theorem forall_insertPair {P : α × β → Prop} {a : α} {v : β} {ps : List (α × β)} (hnew : P (a, v))
    (h : ∀ p ∈ ps, P p) : ∀ p ∈ insertPair a v ps, P p := by
  induction ps with
  | nil => exact List.forall_mem_singleton.mpr hnew
  | cons q qs ih =>
    obtain ⟨hq, hqs⟩ := List.forall_mem_cons.mp h
    rw [insertPair]
    split
    · exact List.forall_mem_cons.mpr ⟨hnew, h⟩
    split
    · exact List.forall_mem_cons.mpr ⟨hq, ih hqs⟩
    · exact List.forall_mem_cons.mpr ⟨hnew, hqs⟩

private theorem insertPair_of_forall_lt {a : α} {v : β} {ps : List (α × β)}
    (h : ∀ p ∈ ps, p.1 < a) : insertPair a v ps = ps ++ [(a, v)] := by
  induction ps with
  | nil => rfl
  | cons q qs ih =>
    obtain ⟨hq, hqs⟩ := List.forall_mem_cons.mp h
    rw [insertPair, if_neg (lt_asymm hq), if_pos hq, ih hqs, List.cons_append]

/-- Pairs with ascending keys, set one after another, stay as they are. -/
theorem foldl_insertPair {done ps : List (α × β)} (h : ((done ++ ps).map (·.1)).Pairwise (· < ·)) :
    ps.foldl (fun done p => insertPair p.1 p.2 done) done = done ++ ps := by
  induction ps generalizing done with
  | nil => rw [List.foldl_nil, List.append_nil]
  | cons p ps ih =>
    rw [List.append_cons] at h
    have hlast : ∀ q ∈ done, q.1 < p.1 := by
      rw [List.map_append, List.map_append, List.pairwise_append, List.pairwise_append] at h
      exact fun q hq => h.1.2.2 q.1 (List.mem_map_of_mem hq) p.1 (.head _)
    rw [List.foldl_cons, insertPair_of_forall_lt hlast, ih h, List.append_cons done p ps]

/-- Setting the value of a key keeps the keys ascending. -/
theorem pairwise_insertPair {a : α} {v : β} {ps : List (α × β)}
    (h : (ps.map (·.1)).Pairwise (· < ·)) : ((insertPair a v ps).map (·.1)).Pairwise (· < ·) := by
  induction ps with
  | nil => simp [insertPair]
  | cons q qs ih =>
    obtain ⟨b, w⟩ := q
    obtain ⟨hb, hqs⟩ := List.pairwise_cons.mp h
    rw [insertPair]
    split_ifs with h h'
    · apply List.Pairwise.cons _ (List.pairwise_cons.mpr ⟨hb, hqs⟩)
      intro d hd
      rcases List.mem_cons.mp hd with rfl | hd
      · exact h
      · exact lt_trans h (hb d hd)
    · apply List.Pairwise.cons _ (ih hqs)
      intro d hd
      obtain ⟨p, hp, rfl⟩ := List.mem_map.mp hd
      rcases (mem_insertPair hqs).mp hp with rfl | ⟨hp, _⟩
      · exact h'
      · exact hb p.1 (List.mem_map_of_mem hp)
    · cases eq_of_not_lt h h'
      exact List.pairwise_cons.mpr ⟨hb, hqs⟩

variable [BEq α] [LawfulBEq α]

omit [DecidableLT α] in
/-- Among ascending keys a lookup finds every pair that is there. -/
theorem lookup_eq_some_iff {ps : List (α × β)} (h : (ps.map (·.1)).Pairwise (· < ·)) {a : α}
    {v : β} : ps.lookup a = some v ↔ (a, v) ∈ ps := by
  induction ps with
  | nil => simp
  | cons q qs ih =>
    obtain ⟨b, w⟩ := q
    obtain ⟨hb, hqs⟩ := List.pairwise_cons.mp h
    by_cases hab : a = b
    · subst hab
      have hn : (a, v) ∉ qs := fun hm => lt_irrefl a (hb a (List.mem_map_of_mem hm))
      simp [hn, eq_comm]
    · have hbeq : (a == b) = false := beq_false_of_ne hab
      simp only [List.lookup_cons, hbeq, ih hqs, List.mem_cons, Prod.mk.injEq, hab, false_and,
        false_or]

/-- A key that is set has its new value, and all others have theirs. -/
theorem lookup_insertPair {a : α} {v : β} {ps : List (α × β)}
    (h : (ps.map (·.1)).Pairwise (· < ·)) (b : α) :
    (insertPair a v ps).lookup b = if b == a then some v else ps.lookup b := by
  apply Option.ext
  intro w
  rw [lookup_eq_some_iff (pairwise_insertPair h), mem_insertPair h]
  by_cases hb : b = a
  · simp [hb, eq_comm]
  · simp [hb, lookup_eq_some_iff h]

end pairs

section reps
variable [BEq α] [LawfulBEq α]

omit [DecidableLT α] in
private theorem pairwise_eraseReps {as : List α} (h : as.Pairwise (fun a b => ¬ b < a)) :
    as.eraseReps.Pairwise (· < ·) := by
  match as with
  | [] => exact List.Pairwise.nil
  | [a] => exact List.pairwise_singleton _ _
  | a :: b :: bs =>
    obtain ⟨ha, hbs⟩ := List.pairwise_cons.mp h
    obtain ⟨hb, hbs'⟩ := List.pairwise_cons.mp hbs
    rw [eraseReps_cons_cons]
    split_ifs with hab
    · exact pairwise_eraseReps
        (List.pairwise_cons.mpr ⟨fun c hc => ha c (List.mem_cons_of_mem b hc), hbs'⟩)
    · apply List.Pairwise.cons _ (pairwise_eraseReps hbs)
      intro c hc
      have hlt : a < b := by
        by_contra hn
        exact hab (beq_iff_eq.mpr (eq_of_not_lt hn (ha b List.mem_cons_self)))
      rcases List.mem_cons.mp (mem_eraseReps.mp hc) with rfl | hc
      · exact hlt
      · by_contra hn
        cases eq_of_not_lt hn (ha c (List.mem_cons_of_mem b hc))
        exact hb a hc hlt
termination_by as.length

theorem pairwise_ofList (as : List α) : (ofList as).Pairwise (· < ·) := by
  refine pairwise_eraseReps (List.Pairwise.imp ?_ (List.pairwise_mergeSort ?_ ?_ as))
  · intro a b h
    simpa using h
  · intro a b c hab hbc
    simp only [Bool.not_eq_true', decide_eq_false_iff_not] at hab hbc ⊢
    exact not_lt_trans hab hbc
  · intro a b
    by_cases h : b < a
    · simp [lt_asymm h]
    · simp [h]

theorem ofList_of_pairwise {as : List α} (h : as.Pairwise (· < ·)) : ofList as = as :=
  eq_of_pairwise (pairwise_ofList as) h fun _ => mem_ofList

end reps

/-- What two lists share is in both, be they in order or not. -/
theorem mem_of_mem_inter {c : α} {as bs : List α} (h : c ∈ inter as bs) : c ∈ as ∧ c ∈ bs := by
  fun_induction inter as bs with
  | case1 bs => cases h
  | case2 as _ => cases h
  | case3 a as b bs hlt ih => exact ⟨.tail a (ih h).1, (ih h).2⟩
  | case4 a as b bs hlt hlt' ih => exact ⟨(ih h).1, .tail b (ih h).2⟩
  | case5 a as b bs hlt hlt' ih =>
    cases eq_of_not_lt hlt hlt'
    rcases List.mem_cons.mp h with rfl | h
    · exact ⟨.head as, .head bs⟩
    · exact ⟨.tail a (ih h).1, .tail a (ih h).2⟩

/-- Two ascending lists are merged for what they share, and nothing is missed. -/
theorem mem_inter {c : α} {as bs : List α} (ha : as.Pairwise (· < ·)) (hb : bs.Pairwise (· < ·)) :
    c ∈ inter as bs ↔ c ∈ as ∧ c ∈ bs := by
  fun_induction inter as bs with
  | case1 bs => simp
  | case2 as _ => simp
  | case3 a as b bs h ih =>
    obtain ⟨haas, has⟩ := List.pairwise_cons.mp ha
    have hn : a ∉ b :: bs := by
      intro hm
      rcases List.mem_cons.mp hm with rfl | hm
      · exact lt_irrefl a h
      · exact lt_asymm h ((List.pairwise_cons.mp hb).1 a hm)
    rw [ih has hb, List.mem_cons (b := a)]
    exact ⟨fun hc => ⟨.inr hc.1, hc.2⟩, fun hc => ⟨hc.1.resolve_left fun he => hn (he ▸ hc.2), hc.2⟩⟩
  | case4 a as b bs h h' ih =>
    obtain ⟨hbbs, hbs⟩ := List.pairwise_cons.mp hb
    have hn : b ∉ a :: as := by
      intro hm
      rcases List.mem_cons.mp hm with rfl | hm
      · exact lt_irrefl b h'
      · exact lt_asymm h' ((List.pairwise_cons.mp ha).1 b hm)
    rw [ih ha hbs, List.mem_cons (b := b)]
    exact ⟨fun hc => ⟨hc.1, .inr hc.2⟩, fun hc => ⟨hc.1, hc.2.resolve_left fun he => hn (he ▸ hc.1)⟩⟩
  | case5 a as b bs h h' ih =>
    cases eq_of_not_lt h h'
    obtain ⟨haas, has⟩ := List.pairwise_cons.mp ha
    obtain ⟨hbbs, hbs⟩ := List.pairwise_cons.mp hb
    simp only [List.mem_cons, ih has hbs]
    exact or_and_left

/-- What two ascending lists share is a part of the first, picked by membership in the second. -/
theorem inter_eq_filter [DecidableEq α] {as bs : List α} (ha : as.Pairwise (· < ·))
    (hb : bs.Pairwise (· < ·)) : inter as bs = as.filter (· ∈ bs) := by
  refine eq_of_pairwise (pairwise_inter ha bs) (ha.filter _) fun c => ?_
  rw [mem_inter ha hb, List.mem_filter, decide_eq_true_eq]

end Ascending
end Gazetteer
