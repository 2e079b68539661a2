import Gazetteer.Proofs.MessagePack.Views

/-! Reading and the bytes that follow. What is read from the head of some bytes is read whatever
stands after it. So no beginning of a written value can be read as a value of its own: bytes that
were cut off are not read at all. -/
namespace Gazetteer.MessagePack

variable {α β : Type}

/-- What is read does not depend on the bytes after it, and they are left. -/
def Local (read : Bytes → Option (α × Bytes)) : Prop :=
  ∀ bs a rest, read bs = some (a, rest) → ∀ more, read (bs ++ more) = some (a, rest ++ more)

namespace Local
variable {read : Bytes → Option (α × Bytes)}

private theorem pure (a : α) : Local fun bs => some (a, bs) := by
  intro bs a' rest hread more
  cases hread
  rfl

private theorem bind (h : Local read) {next : α → Bytes → Option (β × Bytes)}
    (hnext : ∀ a, Local (next a)) : Local fun bs => read bs >>= fun p => next p.1 p.2 := by
  intro bs b rest hread more
  obtain ⟨⟨a, rest'⟩, ha, hb⟩ := Option.bind_eq_some_iff.mp hread
  exact Option.bind_eq_some_iff.mpr ⟨(a, rest' ++ more), h bs a rest' ha more,
    hnext a rest' b rest hb more⟩

private theorem map (h : Local read) (f : α → β) :
    Local fun bs => (read bs).map fun p => (f p.1, p.2) := by
  intro bs b rest hread more
  obtain ⟨⟨a, rest'⟩, ha, heq⟩ := Option.map_eq_some_iff.mp hread
  cases heq
  simp only [h bs a rest' ha more, Option.map_some]

private theorem eq_none_of_cut (h : Local read) {bs b : Bytes} {a : α}
    (hread : read bs = some (a, [])) (hb : b <+: bs) (hne : b ≠ bs) : read b = none := by
  -- All bytes belong to what is read, so reading fewer of them cannot end the same way.
  obtain ⟨more, rfl⟩ := hb
  by_contra hsome
  obtain ⟨⟨a', rest⟩, ha'⟩ := Option.ne_none_iff_exists'.mp hsome
  have hempty : rest ++ more = [] := by
    have hlonger := h b a' rest ha' more
    rw [hread] at hlonger
    exact (Prod.mk.inj (Option.some.inj hlonger)).2.symm
  rw [(List.append_eq_nil_iff.mp hempty).2, List.append_nil] at hne
  exact hne rfl

end Local

private theorem local_take? (count : Nat) : Local (take? count) := by
  intro bs head rest h more
  unfold take? at h ⊢
  dsimp only at h ⊢
  split at h
  · next hlength =>
    cases h
    have hle : count ≤ bs.length := by
      rw [List.length_take] at hlength
      omega
    rw [List.take_append_of_le_length hle, List.drop_append_of_le_length hle, if_pos hlength]
  · cases h

private theorem local_number? (count : Nat) : Local (number? count) :=
  (local_take? count).map number

private theorem local_fixed? (count : Nat) (make : Bytes → Value) : Local (fixed? count make) :=
  (local_take? count).map fun payload => Opening.whole (make payload)

private theorem local_sized? (count extra : Nat) (make : Bytes → Value) :
    Local (sized? count extra make) :=
  (local_number? count).bind fun length =>
    (local_take? (length + extra)).bind fun payload => .pure (Opening.whole (make payload))

private theorem local_opening? : Local opening? := by
  intro bs o rest h more
  cases bs with
  | nil => cases h
  | cons marker bs =>
    rw [List.cons_append]
    unfold opening? at h ⊢
    dsimp only at h ⊢
    generalize marker.toNat = m at h ⊢
    split_ifs at h ⊢
    · exact Local.pure _ _ _ _ h more
    · exact Local.pure _ _ _ _ h more
    · exact Local.pure _ _ _ _ h more
    · exact local_fixed? _ _ _ _ _ h more
    · exact Local.pure _ _ _ _ h more
    · -- Each of the other markers has a form of its own.
      split at h
      all_goals first
        | exact Local.pure _ _ _ _ h more
        | exact local_fixed? _ _ _ _ _ h more
        | exact local_sized? _ _ _ _ _ _ h more
        | exact (local_number? _).map Opening.array _ _ _ h more
        | exact (local_number? _).map Opening.map _ _ _ h more
        | exact nomatch h

section Parts
variable {read : Bytes → Option (α × Bytes)}

private theorem local_readMany (h : Local read) (done : List α) (count : Nat) :
    Local (readMany read done count) := by
  induction count generalizing done with
  | zero => exact .pure done.reverse
  | succ count ih =>
    intro bs as rest hread more
    rw [readMany] at hread ⊢
    cases hfirst : read bs with
    | none => rw [hfirst] at hread; cases hread
    | some p =>
      rw [hfirst] at hread
      rw [h bs p.1 p.2 hfirst more]
      exact ih (p.1 :: done) p.2 as rest hread more

private theorem local_readPair (h : Local read) : Local (readPair read) :=
  h.bind fun a => h.bind fun b => .pure (a, b)

end Parts

private theorem local_readWithin (depth : Nat) : Local (readWithin depth) := by
  induction depth with
  | zero =>
    intro bs v rest hread more
    rw [readWithin] at hread ⊢
    cases hopen : opening? bs with
    | none => rw [hopen] at hread; cases hread
    | some p =>
      rw [local_opening? bs p.1 p.2 hopen more]
      rw [hopen] at hread
      obtain ⟨o, rest'⟩ := p
      cases o <;> cases hread
      rfl
  | succ depth ih =>
    intro bs v rest hread more
    rw [readWithin] at hread ⊢
    cases hopen : opening? bs with
    | none => rw [hopen] at hread; cases hread
    | some p =>
      rw [local_opening? bs p.1 p.2 hopen more]
      rw [hopen] at hread
      obtain ⟨o, rest'⟩ := p
      cases o with
      | whole w => exact Local.pure w _ _ _ hread more
      | array count => exact (local_readMany ih [] count).map Value.array _ _ _ hread more
      | map count => exact (local_readMany (local_readPair ih) [] count).map Value.map _ _ _ hread more

/-- A written value that is cut off cannot be read. -/
theorem read?_cut {bs b : Bytes} {depth : Nat} {v : Value} (h : Writes bs depth v)
    (hdepth : depth ≤ nestingLimit) (hb : b <+: bs) (hne : b ≠ bs) : read? b = none := by
  have hwhole : readWithin nestingLimit bs = some (v, []) := by
    have hread := h nestingLimit [] hdepth
    rwa [List.append_nil] at hread
  rw [read?, (local_readWithin nestingLimit).eq_none_of_cut hwhole hb hne, Option.map_none]

/-- No proper beginning of a written value can be read. -/
theorem read?_cut_of_shows {view : Value → Option α} {bs b : Bytes} {depth : Nat} {a : α}
    (h : Shows view bs depth a) (hdepth : depth ≤ nestingLimit) (hb : b <+: bs) (hne : b ≠ bs) :
    read? b = none := by
  obtain ⟨v, hv, -⟩ := h
  exact read?_cut hv hdepth hb hne

end Gazetteer.MessagePack
