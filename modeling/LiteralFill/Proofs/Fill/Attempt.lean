import LiteralFill.Fill.Zero

namespace LiteralFill

/-- The outcome of writing a value, with the fields left out on the way. They stay on record when
the value itself fails. -/
structure Attempt (α : Type) where
  outcome : Except FillError α
  omitted : List Omission

namespace Attempt

variable {α β : Type}

def ofExcept (outcome : Except FillError α) : Attempt α := ⟨outcome, []⟩

def andThen (x : Attempt α) (f : α → Attempt β) : Attempt β :=
  match x.outcome with
  | .error e => ⟨.error e, x.omitted⟩
  | .ok a => ⟨(f a).outcome, x.omitted ++ (f a).omitted⟩

instance : Monad Attempt where
  pure a := .ofExcept (.ok a)
  bind := andThen

@[simp] theorem outcome_ofExcept (r : Except FillError α) : (ofExcept r).outcome = r := rfl

@[simp] theorem omitted_ofExcept (r : Except FillError α) : (ofExcept r).omitted = [] := rfl

@[simp] theorem outcome_pure (a : α) : (pure a : Attempt α).outcome = .ok a := rfl

@[simp] theorem omitted_pure (a : α) : (pure a : Attempt α).omitted = [] := rfl

theorem bind_of_ok {x : Attempt α} {f : α → Attempt β} {a : α} (h : x.outcome = .ok a) :
    x >>= f = ⟨(f a).outcome, x.omitted ++ (f a).omitted⟩ := by
  simp only [bind, andThen, h]

theorem bind_of_error {x : Attempt α} {f : α → Attempt β} {e : FillError}
    (h : x.outcome = .error e) : x >>= f = ⟨.error e, x.omitted⟩ := by
  simp only [bind, andThen, h]

instance : LawfulMonad Attempt := LawfulMonad.mk' Attempt
  (fun {_} x => by
    obtain ⟨_ | a, omitted⟩ := x
    · rfl
    · exact congrArg (mk (.ok a)) (List.append_nil omitted))
  (fun {_ _} _ _ => bind_of_ok rfl)
  (fun {_ _ _} x f g => by
    cases hx : x.outcome with
    | error e => rw [bind_of_error hx, bind_of_error hx, bind_of_error rfl]
    | ok a =>
      rw [bind_of_ok hx, bind_of_ok hx]
      cases hf : (f a).outcome with
      | error e => rw [bind_of_error rfl, bind_of_error hf]
      | ok b => rw [bind_of_ok rfl, bind_of_ok hf, List.append_assoc])

theorem outcome_bind (x : Attempt α) (f : α → Attempt β) :
    (x >>= f).outcome = x.outcome >>= fun a => (f a).outcome := by
  obtain ⟨_ | a, omitted⟩ := x <;> rfl

/-- An attempt made `n` times over. -/
def copies (x : Attempt α) : Nat → Attempt (List α)
  | 0 => pure []
  | n + 1 => do return (← x) :: (← copies x n)

/-- Leaves the field out if its value names what may not be named; any other failure stays one. -/
def orOmit (field : String) (x : Attempt α) : Attempt (Option α) :=
  match x.outcome with
  | .ok a => ⟨.ok (some a), x.omitted⟩
  | .error (.unrenderable hidden) => ⟨.ok none, x.omitted ++ [⟨field, hidden⟩]⟩
  | .error e => ⟨.error e, x.omitted⟩

theorem bind_eq_ok {x : Attempt α} {f : α → Attempt β} {b : β}
    (h : (x >>= f).outcome = .ok b) : ∃ a, x.outcome = .ok a ∧ (f a).outcome = .ok b := by
  rw [outcome_bind] at h
  cases hx : x.outcome with
  | error e => rw [hx] at h; cases h
  | ok a => exact ⟨a, rfl, by rwa [hx] at h⟩

theorem bind_eq_error_iff {x : Attempt α} {f : α → Attempt β} {e : FillError} :
    (x >>= f).outcome = .error e ↔
      x.outcome = .error e ∨ ∃ a, x.outcome = .ok a ∧ (f a).outcome = .error e := by
  rw [outcome_bind]
  cases x.outcome with
  | error e' => simp [bind, Except.bind]
  | ok a => simp [bind, Except.bind]

/-- A step that always succeeds adds no error to those before it. -/
theorem bind_pure_eq_error_iff {x : Attempt α} {f : α → β} {e : FillError} :
    (x >>= fun a => pure (f a)).outcome = .error e ↔ x.outcome = .error e := by
  simp only [bind_eq_error_iff, outcome_pure, reduceCtorEq, and_false, exists_false, or_false]

theorem copies_eq_ok {x : Attempt α} {n : Nat} {as : List α}
    (h : (x.copies n).outcome = .ok as) : as.length = n ∧ ∀ a ∈ as, x.outcome = .ok a := by
  induction n generalizing as with
  | zero =>
    cases h
    exact ⟨rfl, nofun⟩
  | succ n ih =>
    obtain ⟨a, ha, h⟩ := Attempt.bind_eq_ok h
    obtain ⟨rest, hrest, h⟩ := Attempt.bind_eq_ok h
    cases h
    obtain ⟨hlength, hall⟩ := ih hrest
    refine ⟨congrArg (· + 1) hlength, fun b hb => ?_⟩
    rcases List.mem_cons.1 hb with rfl | hb
    · exact ha
    · exact hall b hb

theorem copies_eq_error_iff {x : Attempt α} {n : Nat} {e : FillError} :
    (x.copies n).outcome = .error e ↔ 0 < n ∧ x.outcome = .error e := by
  induction n with
  | zero => simp [copies]
  | succ n ih =>
    simp only [copies, bind_eq_error_iff, ih, outcome_pure, reduceCtorEq, and_false, exists_false,
      or_false, Nat.zero_lt_succ, true_and]
    constructor
    · rintro (h | ⟨a, -, -, h⟩) <;> exact h
    · exact .inl

/-- There is a value, or a reason to leave the field out. Either way the next field has its turn. -/
def GoesOn (x : Attempt α) : Prop :=
  (∃ a, x.outcome = .ok a) ∨ ∃ hidden, x.outcome = .error (.unrenderable hidden)

theorem orOmit_eq_ok {x : Attempt α} {field : String} {a? : Option α}
    (h : (x.orOmit field).outcome = .ok a?) :
    (∃ a, a? = some a ∧ x.outcome = .ok a) ∨
      ∃ hidden, a? = none ∧ x.outcome = .error (.unrenderable hidden) := by
  unfold orOmit at h
  split at h
  · rename_i a hx
    cases h
    exact .inl ⟨a, rfl, hx⟩
  · rename_i hidden hx
    cases h
    exact .inr ⟨hidden, rfl, hx⟩
  · cases h

theorem exists_orOmit_iff {x : Attempt α} {field : String} :
    (∃ a?, (x.orOmit field).outcome = .ok a?) ↔ x.GoesOn := by
  constructor
  · rintro ⟨a?, h⟩
    exact (orOmit_eq_ok h).imp (fun ⟨a, _, hx⟩ => ⟨a, hx⟩) fun ⟨hidden, _, hx⟩ => ⟨hidden, hx⟩
  · rintro (⟨a, hx⟩ | ⟨hidden, hx⟩)
    · exact ⟨some a, by simp only [orOmit, hx]⟩
    · exact ⟨none, by simp only [orOmit, hx]⟩

theorem orOmit_eq_error_iff {x : Attempt α} {field : String} {e : FillError} :
    (x.orOmit field).outcome = .error e ↔
      x.outcome = .error e ∧ ∀ hidden, e ≠ .unrenderable hidden := by
  unfold orOmit
  split
  · rename_i a hx
    simp [hx]
  · rename_i hidden hx
    rw [hx]
    refine ⟨nofun, ?_⟩
    rintro ⟨⟨⟩, hne⟩
    exact absurd rfl (hne hidden)
  · rename_i e' hne hx
    rw [hx]
    constructor
    · rintro ⟨⟩
      exact ⟨rfl, hne⟩
    · rintro ⟨⟨⟩, -⟩
      rfl

/-- The attempts leave out the same fields, and come to the same as far as `f` tells or fail alike. -/
structure AgreeUpTo {γ : Type} (f : α → γ) (x y : Attempt α) : Prop where
  outcome : x.outcome.map f = y.outcome.map f
  omitted : x.omitted = y.omitted

namespace AgreeUpTo

variable {γ δ : Type} {f : α → γ} {x y : Attempt α}

theorem refl (x : Attempt α) : AgreeUpTo f x x := ⟨rfl, rfl⟩

/-- Results that agree come from results that agree; other failures than the same are excluded. -/
theorem cases (h : AgreeUpTo f x y) :
    (∃ e, x.outcome = .error e ∧ y.outcome = .error e) ∨
      ∃ a b, x.outcome = .ok a ∧ y.outcome = .ok b ∧ f a = f b := by
  have hoc := h.outcome
  cases hx : x.outcome with
  | error e =>
    cases hy : y.outcome with
    | error e' =>
      rw [hx, hy] at hoc
      cases hoc
      exact .inl ⟨e, rfl, rfl⟩
    | ok b => rw [hx, hy] at hoc; cases hoc
  | ok a =>
    cases hy : y.outcome with
    | error e' => rw [hx, hy] at hoc; cases hoc
    | ok b =>
      rw [hx, hy] at hoc
      exact .inr ⟨a, b, rfl, rfl, Except.ok.inj hoc⟩

theorem bind {g : β → δ} {k k' : α → Attempt β} (h : AgreeUpTo f x y)
    (hk : ∀ a b, f a = f b → AgreeUpTo g (k a) (k' b)) : AgreeUpTo g (x >>= k) (y >>= k') := by
  rcases h.cases with ⟨e, hx, hy⟩ | ⟨a, b, hx, hy, hab⟩
  · rw [Attempt.bind_of_error hx, Attempt.bind_of_error hy]
    exact ⟨rfl, h.omitted⟩
  · rw [Attempt.bind_of_ok hx, Attempt.bind_of_ok hy]
    exact ⟨(hk a b hab).outcome, by rw [h.omitted, (hk a b hab).omitted]⟩

theorem bind_self {k k' : α → Attempt β} {g : β → δ} (x : Attempt α)
    (hk : ∀ a, AgreeUpTo g (k a) (k' a)) : AgreeUpTo g (x >>= k) (x >>= k') := by
  refine (refl (f := id) x).bind fun a b hab => ?_
  cases hab
  exact hk a

theorem pure {a b : α} (h : f a = f b) : AgreeUpTo f (pure a) (pure b) :=
  ⟨congrArg Except.ok h, rfl⟩

end AgreeUpTo

end Attempt

end LiteralFill
