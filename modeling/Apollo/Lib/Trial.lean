import Mathlib.Logic.Basic

/-!
# State programs that may stop

A `Trial ε σ α` runs from a state, and returns a result and the next state, or stops with an
error.  A specification speaks of what it returns: the simp set takes `Returns` apart along the
program, which is at once how a run is put together and how it is inverted.

## Main definitions

* `Trial ε σ α` — a state program that may stop; `Trial.Returns`, `Trial.Stops` — one run of it.
* `Trial.Total` — it returns from every state.
* `Trial.Keeps` — a relation between the states before and after it.
-/

namespace Apollo.Lib

/-- A program over states `σ` that returns, or stops with an `ε`. -/
def Trial (ε σ α : Type) := StateT σ (Except ε) α

namespace Trial
variable {ε σ α β : Type}

instance : Monad (Trial ε σ) := inferInstanceAs (Monad (StateT σ (Except ε)))

/-- Stop. -/
def stop (e : ε) : Trial ε σ α := fun _ => .error e

/-- Look at the state without changing it. -/
def get (f : σ → α) : Trial ε σ α := fun s => .ok (f s, s)

/-- Change the state. -/
def modify (f : σ → σ) : Trial ε σ Unit := fun s => .ok ((), f s)

/-- A result that does not depend on the state. -/
def lift : Except ε α → Trial ε σ α
  | .ok a => pure a
  | .error e => stop e

/-- From `s`, the program returns `a` and leaves `t`. -/
def Returns (x : Trial ε σ α) (s : σ) (a : α) (t : σ) : Prop := x s = .ok (a, t)

section
variable {x : Trial ε σ α} {f : α → Trial ε σ β} {s t : σ} {a b : α}

@[simp] theorem returns_pure : (pure b : Trial ε σ α).Returns s a t ↔ b = a ∧ s = t := by
  refine Iff.trans (b := Except.ok (b, s) = Except.ok (a, t)) Iff.rfl ?_
  rw [Except.ok.injEq, Prod.mk.injEq]

@[simp] theorem returns_bind {c : β} :
    (x >>= f).Returns s c t ↔ ∃ a u, x.Returns s a u ∧ (f a).Returns u c t := by
  have hrun : (x >>= f) s = (x s).bind fun p => f p.1 p.2 := rfl
  simp only [Returns, hrun]
  cases hx : x s with
  | error e => exact iff_of_false (fun h => by cases h) fun ⟨_, _, h, _⟩ => by cases h
  | ok p =>
      constructor
      · intro h
        exact ⟨p.1, p.2, rfl, h⟩
      · rintro ⟨a, u, h, hf⟩
        obtain rfl : p = (a, u) := Except.ok.inj h
        exact hf

@[simp] theorem returns_stop {e : ε} : ¬ (stop e : Trial ε σ α).Returns s a t := fun h => by cases h

@[simp] theorem returns_get {g : σ → α} :
    (get g : Trial ε σ α).Returns s a t ↔ g s = a ∧ s = t := by
  rw [Returns, get, Except.ok.injEq, Prod.mk.injEq]

@[simp] theorem returns_modify {g : σ → σ} {u : Unit} :
    (modify g : Trial ε σ Unit).Returns s u t ↔ g s = t := by
  rw [Returns, modify, Except.ok.injEq, Prod.mk.injEq]
  exact and_iff_right rfl

@[simp] theorem returns_ite {c : Prop} [Decidable c] {y : Trial ε σ α} :
    (if c then x else y).Returns s a t ↔ if c then x.Returns s a t else y.Returns s a t := by
  split <;> rfl

@[simp] theorem lift_ok : (lift (.ok a) : Trial ε σ α) = pure a := rfl
@[simp] theorem lift_ok_bind : (lift (.ok a) : Trial ε σ α) >>= f = f a := rfl
@[simp] theorem lift_error {e : ε} : (lift (.error e) : Trial ε σ α) = stop e := rfl

@[simp] theorem returns_lift {y : Except ε α} :
    (lift y : Trial ε σ α).Returns s a t ↔ y = .ok a ∧ s = t := by
  cases y with
  | ok b => rw [lift_ok, returns_pure, Except.ok.injEq]
  | error e =>
      rw [lift_error]
      exact iff_of_false returns_stop fun h => by cases h.1

theorem Returns.unique {b : α} {u : σ} (h : x.Returns s a t) (h' : x.Returns s b u) :
    a = b ∧ t = u := by
  have heq := Except.ok.inj (h.symm.trans h')
  exact Prod.mk.inj heq

end

/-! ## What a program stops with -/

/-- From `s`, the program stops with `e`. -/
def Stops (x : Trial ε σ α) (s : σ) (e : ε) : Prop := x s = .error e

section
variable {x : Trial ε σ α} {f : α → Trial ε σ β} {s : σ} {a : α} {e e' : ε}

@[simp] theorem stops_pure : ¬ (pure a : Trial ε σ α).Stops s e := fun h => by cases h

@[simp] theorem stops_stop : (stop e' : Trial ε σ α).Stops s e ↔ e' = e := by
  rw [Stops, stop, Except.error.injEq]

@[simp] theorem stops_get {g : σ → α} : ¬ (get g : Trial ε σ α).Stops s e := fun h => by cases h

@[simp] theorem stops_modify {g : σ → σ} : ¬ (modify g : Trial ε σ Unit).Stops s e :=
  fun h => by cases h

@[simp] theorem stops_bind : (x >>= f).Stops s e ↔
    x.Stops s e ∨ ∃ a u, x.Returns s a u ∧ (f a).Stops u e := by
  have hrun : (x >>= f) s = (x s).bind fun p => f p.1 p.2 := rfl
  simp only [Stops, Returns, hrun]
  cases hx : x s with
  | error e' =>
      constructor
      · intro h
        exact .inl (congrArg _ (Except.error.inj h))
      · rintro (h | ⟨_, _, h, -⟩)
        · exact congrArg _ (Except.error.inj h)
        · cases h
  | ok p =>
      constructor
      · intro h
        exact .inr ⟨p.1, p.2, rfl, h⟩
      · rintro (h | ⟨a, u, h, hf⟩)
        · cases h
        · obtain rfl : p = (a, u) := Except.ok.inj h
          exact hf

@[simp] theorem stops_ite {c : Prop} [Decidable c] {y : Trial ε σ α} :
    (if c then x else y).Stops s e ↔ if c then x.Stops s e else y.Stops s e := by
  split <;> rfl

end

/-! ## Programs that always return -/

/-- The program returns from every state. -/
def Total (x : Trial ε σ α) : Prop := ∀ s, ∃ a t, x.Returns s a t

section
variable {x : Trial ε σ α} {f : α → Trial ε σ β}

theorem total_pure (a : α) : (pure a : Trial ε σ α).Total := fun s => ⟨a, s, rfl⟩

theorem total_modify (g : σ → σ) : (modify g : Trial ε σ Unit).Total := fun s => ⟨(), g s, rfl⟩

theorem total_get (g : σ → α) : (get g : Trial ε σ α).Total := fun s => ⟨g s, s, rfl⟩

theorem total_bind (hx : x.Total) (hf : ∀ a, (f a).Total) : (x >>= f).Total := by
  intro s
  obtain ⟨a, u, hxs⟩ := hx s
  obtain ⟨b, t, hfa⟩ := hf a u
  exact ⟨b, t, returns_bind.mpr ⟨a, u, hxs, hfa⟩⟩

theorem total_ite {c : Prop} [Decidable c] {y : Trial ε σ α} (hx : c → x.Total)
    (hy : ¬ c → y.Total) : (if c then x else y).Total := by
  by_cases h : c
  · rw [if_pos h]
    exact hx h
  · rw [if_neg h]
    exact hy h

end

/-! ## Relations that a program keeps -/

/-- The states before and after the program are in the relation. -/
def Keeps (R : σ → σ → Prop) (x : Trial ε σ α) : Prop := ∀ ⦃s a t⦄, x.Returns s a t → R s t

section
variable {R : σ → σ → Prop} {x : Trial ε σ α} {f : α → Trial ε σ β}

theorem keeps_pure (hrefl : ∀ s, R s s) (a : α) : Keeps R (pure a : Trial ε σ α) := by
  intro s b t h
  obtain ⟨-, rfl⟩ := returns_pure.mp h
  exact hrefl s

theorem keeps_stop (e : ε) : Keeps R (stop e : Trial ε σ α) := fun _ _ _ h => absurd h returns_stop

theorem keeps_lift (hrefl : ∀ s, R s s) (y : Except ε α) : Keeps R (lift y : Trial ε σ α) := by
  cases y with
  | ok a => exact keeps_pure hrefl a
  | error e => exact keeps_stop e

theorem keeps_modify {g : σ → σ} (h : ∀ s, R s (g s)) : Keeps R (modify g : Trial ε σ Unit) := by
  intro s _ t hrun
  obtain rfl := returns_modify.mp hrun
  exact h s

theorem keeps_get (hrefl : ∀ s, R s s) (g : σ → α) : Keeps R (get g : Trial ε σ α) := by
  intro s _ t h
  obtain ⟨-, rfl⟩ := returns_get.mp h
  exact hrefl s

theorem keeps_bind (htrans : ∀ {s t u}, R s t → R t u → R s u) (hx : Keeps R x)
    (hf : ∀ a, Keeps R (f a)) : Keeps R (x >>= f) := by
  intro s b t h
  obtain ⟨a, u, hxs, hfa⟩ := returns_bind.mp h
  exact htrans (hx hxs) (hf a hfa)

theorem keeps_ite {c : Prop} [Decidable c] {y : Trial ε σ α} (hx : Keeps R x) (hy : Keeps R y) :
    Keeps R (if c then x else y) := by
  split
  · exact hx
  · exact hy

end
end Trial
end Apollo.Lib
