import Mathlib.Data.List.Basic

/-! Computations that may fail: what the success of a whole says of its parts, and the success of
the parts of the whole; also of computations with a state. -/
namespace Gazetteer

variable {α β ε : Type}

/-- Both parts of a computation that succeeds have succeeded. -/
theorem exists_of_bind {x : Except ε α} {f : α → Except ε β} {b : β} (h : x >>= f = .ok b) :
    ∃ a, x = .ok a ∧ f a = .ok b := by
  cases x with
  | error why => cases h
  | ok a => exact ⟨a, rfl, h⟩

/-- A computation fails for what the first or the second part of it fails for. -/
theorem error_of_bind {x : Except ε α} {f : α → Except ε β} {why : ε} (h : x >>= f = .error why) :
    x = .error why ∨ ∃ a, x = .ok a ∧ f a = .error why := by
  cases x with
  | error why' =>
    cases h
    exact .inl rfl
  | ok a => exact .inr ⟨a, rfl, h⟩

theorem exists_ok_of_toBool {x : Except ε α} (h : x.toBool = true) : ∃ a, x = .ok a := by
  cases x with
  | error why => cases h
  | ok a => exact ⟨a, rfl⟩

/-- What is only turned into something else at the end fails as it did. -/
theorem exists_bind_pure_iff {x : Except ε α} {f : α → β} :
    (∃ b, (x >>= fun a => pure (f a)) = .ok b) ↔ ∃ a, x = .ok a := by
  cases x with
  | error why => exact iff_of_false (fun ⟨_, h⟩ => by cases h) (fun ⟨_, h⟩ => by cases h)
  | ok a => exact iff_of_true ⟨f a, rfl⟩ ⟨a, rfl⟩

theorem eq_ok_of_mapError {ε' : Type} {x : Except ε α} {f : ε → ε'} {a : α}
    (h : x.mapError f = .ok a) : x = .ok a := by
  cases x with
  | error why => cases h
  | ok b =>
    cases h
    rfl

/-- A step for each element succeeds on all of them if it does on every one. -/
theorem exists_mapM_iff {f : α → Except ε β} {as : List α} :
    (∃ bs, as.mapM f = .ok bs) ↔ ∀ a ∈ as, ∃ b, f a = .ok b := by
  induction as with
  | nil => exact iff_of_true ⟨[], rfl⟩ (List.forall_mem_nil _)
  | cons a as ih =>
    rw [List.forall_mem_cons, ← ih, List.mapM_cons]
    constructor
    · rintro ⟨bs, h⟩
      obtain ⟨b, hb, h⟩ := exists_of_bind h
      obtain ⟨bs', hbs, _⟩ := exists_of_bind h
      exact ⟨⟨b, hb⟩, bs', hbs⟩
    · rintro ⟨⟨b, hb⟩, bs, hbs⟩
      refine ⟨b :: bs, ?_⟩
      rw [hb, hbs]
      rfl

theorem exists_ok_of_mem_mapM {f : α → Except ε β} {as : List α} {bs : List β}
    (h : as.mapM f = .ok bs) {b : β} (hb : b ∈ bs) : ∃ a ∈ as, f a = .ok b := by
  induction as generalizing bs with
  | nil =>
    cases h
    cases hb
  | cons a as ih =>
    rw [List.mapM_cons] at h
    obtain ⟨c, hc, h⟩ := exists_of_bind h
    obtain ⟨cs, hcs, h⟩ := exists_of_bind h
    cases h
    rcases List.mem_cons.mp hb with rfl | hb
    · exact ⟨a, List.mem_cons_self, hc⟩
    · obtain ⟨a', ha', h⟩ := ih hcs hb
      exact ⟨a', .tail _ ha', h⟩

/-- A run of steps succeeds if each step does, where this depends on what it is a step over
alone. -/
theorem exists_foldlM_iff {step : β → α → Except ε β} {Right : α → Prop}
    (hstep : ∀ b a, (∃ b', step b a = .ok b') ↔ Right a) {as : List α} {b : β} :
    (∃ b', as.foldlM step b = .ok b') ↔ ∀ a ∈ as, Right a := by
  induction as generalizing b with
  | nil => exact iff_of_true ⟨b, rfl⟩ (List.forall_mem_nil _)
  | cons a as ih =>
    rw [List.forall_mem_cons, List.foldlM_cons, ← hstep b a]
    constructor
    · rintro ⟨b', h⟩
      obtain ⟨c, hc, h⟩ := exists_of_bind h
      exact ⟨⟨c, hc⟩, ih.mp ⟨b', h⟩⟩
    · rintro ⟨⟨c, hc⟩, has⟩
      rw [hc]
      exact ih.mpr has

/-- A run of steps that fails does so at one of them, after a part that succeeds. -/
theorem exists_of_foldlM_eq_error {step : β → α → Except ε β} {as : List α} {b : β} {why : ε}
    (h : as.foldlM step b = .error why) :
    ∃ before a after b', as = before ++ a :: after ∧ before.foldlM step b = .ok b' ∧
      step b' a = .error why := by
  induction as generalizing b with
  | nil => cases h
  | cons a as ih =>
    rw [List.foldlM_cons] at h
    cases hstep : step b a with
    | error why' =>
      rw [hstep] at h
      cases h
      exact ⟨[], a, as, b, rfl, rfl, hstep⟩
    | ok next =>
      rw [hstep] at h
      obtain ⟨before, a', after, b', rfl, hbefore, hfails⟩ := ih h
      refine ⟨a :: before, a', after, b', rfl, ?_, hfails⟩
      rw [List.foldlM_cons, hstep]
      exact hbefore

section
variable {σ : Type} {s t : σ}

/-- After a step that succeeds, the run goes on with its result. -/
theorem run_bind_of_ok {x : ExceptT ε (StateM σ) α} {a : α} (h : x.run.run s = (.ok a, t))
    (f : α → ExceptT ε (StateM σ) β) : (x >>= f).run.run s = (f a).run.run t := by
  rw [ExceptT.run_bind, StateT.run_bind, h]
  rfl

/-- A step that may fail fails with the state as it is, and else the run goes on with it. -/
theorem run_lift_bind (x : Except ε α) (f : α → ExceptT ε (StateM σ) β) :
    (liftM x >>= f).run.run s =
      match x with
      | .error why => (.error why, s)
      | .ok a => (f a).run.run s := by
  cases x <;> rfl

theorem run_adapt_of_ok {ε' : Type} {x : ExceptT ε (StateM σ) α} {a : α}
    (h : x.run.run s = (.ok a, t)) (f : ε → ε') : (ExceptT.adapt f x).run.run s = (.ok a, t) := by
  change StateT.run (Except.mapError f <$> x.run) s = _
  rw [StateT.run_map, h]
  rfl

/-- Steps that succeed and leave the state as it is do so one after another. -/
theorem run_mapM {f : α → ExceptT ε (StateM σ) β} {g : α → β} {as : List α}
    (h : ∀ a ∈ as, (f a).run.run s = (.ok (g a), s)) :
    (as.mapM f).run.run s = (.ok (as.map g), s) := by
  induction as with
  | nil => rfl
  | cons a as ih =>
    rw [List.mapM_cons, run_bind_of_ok (h a List.mem_cons_self),
      run_bind_of_ok (ih fun b hb => h b (.tail _ hb))]
    rfl

end

end Gazetteer
