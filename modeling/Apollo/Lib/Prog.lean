import Mathlib.Data.Nat.Notation
import Mathlib.Logic.Basic

/-!
# State programs and bounded loops

A `Prog σ α` runs from a state to a result and a next state.  A specification
reads the two halves apart: `val` is the result, `state` is the state left
behind, and the simp set pushes both through `pure`, `bind` and `if`.

Loops are the two shapes C code takes.  `forUp` runs a body once for each index;
`loop` does the same for a body that may leave early.  An unbounded loop is a
`loop` whose bound is fuel, and running out of fuel is the visible result `next`.

## Main definitions

* `Prog σ α` — a state program; `Prog.val`, `Prog.state` — its two halves.
* `Prog.forUp`, `Prog.forUp_inv` — a counted loop and its invariant rule.
* `Flow`, `Prog.loop`, `Prog.loop_inv` — the same with an early exit.
* `Prog.Rounds`, `Prog.loop_inv_rounds` — the same when every round begins with a condition.
* `Prog.loop_safe_iff_rounds` — when a loop is safe however far it runs.
* `Prog.loop_exits`, `Prog.loop_never_exits` — a loop that lowers a measure leaves; one whose
  rounds never leave does not.
* `Prog.Keeps` — what a program leaves alone; `Prog.Maintains` — what it never breaks.
* `Prog.within` — a program on a part of a larger state.
-/

namespace Apollo.Lib

/-- A program over states `σ`: a result and the next state, from a state. -/
def Prog (σ α : Type) := σ → α × σ

namespace Prog
variable {σ α β : Type}

/-- The result of running `p` from `s`. -/
def val (p : Prog σ α) (s : σ) : α := (p s).1

/-- The state `p` leaves behind when it is run from `s`. -/
def state (p : Prog σ α) (s : σ) : σ := (p s).2

instance : Monad (Prog σ) where
  pure a := fun s => (a, s)
  bind p f := fun s => f (p s).1 (p s).2

/-- Look at the state without changing it. -/
def get (f : σ → α) : Prog σ α := fun s => (f s, s)

/-- Change the state. -/
def modify (f : σ → σ) : Prog σ Unit := fun s => ((), f s)

-- `(rfl)` keeps these from being definitional to simp, which would then rewrite a
-- condition and leave its `Decidable` instance behind.
@[simp] theorem val_pure (a : α) (s : σ) : (pure a : Prog σ α).val s = a := (rfl)
@[simp] theorem state_pure (a : α) (s : σ) : (pure a : Prog σ α).state s = s := (rfl)
@[simp] theorem val_get (f : σ → α) (s : σ) : (get f).val s = f s := (rfl)
@[simp] theorem state_get (f : σ → α) (s : σ) : (get f).state s = s := (rfl)
@[simp] theorem state_modify (f : σ → σ) (s : σ) : (modify f).state s = f s := (rfl)

@[simp] theorem val_bind (p : Prog σ α) (f : α → Prog σ β) (s : σ) :
    (p >>= f).val s = (f (p.val s)).val (p.state s) := (rfl)
@[simp] theorem state_bind (p : Prog σ α) (f : α → Prog σ β) (s : σ) :
    (p >>= f).state s = (f (p.val s)).state (p.state s) := (rfl)

theorem bind_apply (p : Prog σ α) (f : α → Prog σ β) (s : σ) :
    (p >>= f) s = f (p.val s) (p.state s) := rfl

theorem bind_of {p : Prog σ α} {s s' : σ} {a : α} (h : p s = (a, s')) (f : α → Prog σ β) :
    (p >>= f) s = f a s' := by
  rw [bind_apply, val, state, h]

@[simp] theorem val_ite (c : Prop) [Decidable c] (p q : Prog σ α) (s : σ) :
    (if c then p else q).val s = if c then p.val s else q.val s := by
  split <;> rfl
@[simp] theorem state_ite (c : Prop) [Decidable c] (p q : Prog σ α) (s : σ) :
    (if c then p else q).state s = if c then p.state s else q.state s := by
  split <;> rfl

/-! ## Counted loops -/

/-- Run `body i`, …, `body (i + k - 1)` in order, threading an accumulator. -/
def forUp (body : ℕ → α → Prog σ α) : ℕ → ℕ → α → Prog σ α
  | 0, _, a => pure a
  | k + 1, i, a => do
      let a' ← body i a
      forUp body k (i + 1) a'

/-- The invariant rule of a counted loop up to `n`: a predicate on (index,
accumulator, state) that every round below `n` preserves holds at `n`. -/
theorem forUp_inv {body : ℕ → α → Prog σ α} {n : ℕ} {I : ℕ → α → σ → Prop}
    (round : ∀ j < n, ∀ x t, I j x t → I (j + 1) ((body j x).val t) ((body j x).state t)) :
    ∀ {k i : ℕ} {a : α} {s : σ}, i + k = n → I i a s →
      I n ((forUp body k i a).val s) ((forUp body k i a).state s)
  | 0, i, a, s, hn, h => by
      obtain rfl : i = n := hn
      exact h
  | k + 1, i, a, s, hn, h => by
      have hlt : i < n := by omega
      exact forUp_inv round (k := k) (i := i + 1) (by omega) (round i hlt a s h)

end Prog

/-! ## Loops with an early exit -/

/-- What one round of a loop decides: go on, or leave with a result. -/
inductive Flow (α β : Type) where
  /-- Go on with the next round. -/
  | next (a : α)
  /-- Leave the loop. -/
  | exit (b : β)

namespace Flow
variable {α β : Type}

/-- `P` of a loop that goes on, `Q` of one that has left. -/
def Holds (P : α → Prop) (Q : β → Prop) : Flow α β → Prop
  | next a => P a
  | exit b => Q b

@[simp] theorem holds_next (P : α → Prop) (Q : β → Prop) (a : α) :
    (next a : Flow α β).Holds P Q = P a := rfl
@[simp] theorem holds_exit (P : α → Prop) (Q : β → Prop) (b : β) :
    (exit b : Flow α β).Holds P Q = Q b := rfl

theorem holds_const (p : Prop) (x : Flow α β) : x.Holds (fun _ => p) (fun _ => p) ↔ p := by
  cases x <;> exact Iff.rfl

theorem Holds.imp {P P' : α → Prop} {Q Q' : β → Prop} {x : Flow α β} (h : x.Holds P Q)
    (hnext : ∀ a, P a → P' a) (hexit : ∀ b, Q b → Q' b) : x.Holds P' Q' := by
  cases x with
  | next a => exact hnext a h
  | exit b => exact hexit b h

end Flow

namespace Prog
open Apollo.Lib.Flow
variable {σ α β : Type}

/-- Run `body i`, …, `body (i + k - 1)` in order until one of them exits. -/
def loop (body : ℕ → α → Prog σ (Flow α β)) : ℕ → ℕ → α → Prog σ (Flow α β)
  | 0, _, a => pure (.next a)
  | k + 1, i, a => do
      match ← body i a with
      | .next a' => loop body k (i + 1) a'
      | .exit b => pure (.exit b)

/-- One more round of fuel, when the first round goes on. -/
theorem loop_next {body : ℕ → α → Prog σ (Flow α β)} {k i : ℕ} {a a' : α} {s : σ}
    (h : (body i a).val s = .next a') :
    (loop body (k + 1) i a) s = (loop body k (i + 1) a') ((body i a).state s) := by
  change (match (body i a).val s with
    | .next a' => loop body k (i + 1) a'
    | .exit b => pure (.exit b)) ((body i a).state s) = _
  rw [h]

/-- The first round leaves the loop. -/
theorem loop_exit {body : ℕ → α → Prog σ (Flow α β)} {k i : ℕ} {a : α} {b : β} {s : σ}
    (h : (body i a).val s = .exit b) :
    (loop body (k + 1) i a) s = (.exit b, (body i a).state s) := by
  change (match (body i a).val s with
    | .next a' => loop body k (i + 1) a'
    | .exit b => pure (.exit b)) ((body i a).state s) = _
  rw [h]
  rfl

section
variable (body : ℕ → α → Prog σ (Flow α β)) {k i : ℕ} {a a' : α} {b : β} {s : σ}

theorem loop_of_next {s' : σ} (h : body i a s = (.next a', s')) :
    loop body (k + 1) i a s = loop body k (i + 1) a' s' :=
  (loop_next (congrArg Prod.fst h)).trans (congrArg (loop body k (i + 1) a') (congrArg Prod.snd h))

theorem val_loop_next (h : (body i a).val s = .next a') :
    (loop body (k + 1) i a).val s = (loop body k (i + 1) a').val ((body i a).state s) :=
  congrArg Prod.fst (loop_next h)

theorem state_loop_next (h : (body i a).val s = .next a') :
    (loop body (k + 1) i a).state s = (loop body k (i + 1) a').state ((body i a).state s) :=
  congrArg Prod.snd (loop_next h)

theorem val_loop_exit (h : (body i a).val s = .exit b) :
    (loop body (k + 1) i a).val s = .exit b := congrArg Prod.fst (loop_exit h)

theorem state_loop_exit (h : (body i a).val s = .exit b) :
    (loop body (k + 1) i a).state s = (body i a).state s := by
  rw [state, loop_exit h]

end

/-- A loop that has not left goes on where it was. -/
theorem loop_add_next {body : ℕ → α → Prog σ (Flow α β)} {m i : ℕ} {a a' : α} {s : σ}
    (h : (loop body m i a).val s = .next a') (n : ℕ) :
    (loop body (m + n) i a) s = (loop body n (i + m) a') ((loop body m i a).state s) := by
  induction m generalizing i a s with
  | zero =>
      cases h
      rw [Nat.zero_add, Nat.add_zero]
      rfl
  | succ m ih =>
      rw [Nat.succ_add]
      cases hv : (body i a).val s with
      | next y =>
          rw [val_loop_next body hv] at h
          rw [loop_next hv, state_loop_next body hv, ih h, Nat.add_assoc, Nat.add_comm 1]
      | exit b =>
          rw [val_loop_exit body hv] at h
          cases h

/-- A loop that has left has left. -/
theorem loop_add_exit {body : ℕ → α → Prog σ (Flow α β)} {m i : ℕ} {a : α} {b : β} {s : σ}
    (h : (loop body m i a).val s = .exit b) (n : ℕ) :
    (loop body (m + n) i a) s = (loop body m i a) s := by
  induction m generalizing i a s with
  | zero => cases h
  | succ m ih =>
      rw [Nat.succ_add]
      cases hv : (body i a).val s with
      | next y =>
          rw [val_loop_next body hv] at h
          rw [loop_next hv, loop_next hv, ih h]
      | exit b' => rw [loop_exit hv, loop_exit hv]

/-- A loop of one round. -/
theorem state_loop_one (body : ℕ → α → Prog σ (Flow α β)) (i : ℕ) (a : α) (s : σ) :
    (loop body 1 i a).state s = (body i a).state s := by
  cases hv : (body i a).val s with
  | next y => exact state_loop_next body hv
  | exit b => exact state_loop_exit body hv

/-- Every round that the loop reaches begins with what meets `C`. -/
def Rounds (C : α → σ → Prop) (body : ℕ → α → Prog σ (Flow α β)) : ℕ → ℕ → α → σ → Prop
  | 0, _, _, _ => True
  | k + 1, i, a, s => C a s ∧ ((body i a).val s).Holds
      (fun y => Rounds C body k (i + 1) y ((body i a).state s)) fun _ => True

theorem rounds_of_inv {C : α → σ → Prop} {I : σ → Prop} (body : ℕ → α → Prog σ (Flow α β))
    (h : ∀ i x t, I t → C x t ∧ I ((body i x).state t)) (k i : ℕ) (a : α) {s : σ} (hs : I s) :
    Rounds C body k i a s := by
  induction k generalizing i a s with
  | zero => trivial
  | succ k ih =>
      obtain ⟨hC, hI⟩ := h i a s hs
      refine ⟨hC, ?_⟩
      cases (body i a).val s with
      | next y => exact ih (i + 1) y hI
      | exit b => trivial

theorem Rounds.of_next {C : α → σ → Prop} {body : ℕ → α → Prog σ (Flow α β)} {k i : ℕ} {a a' : α}
    {s s' : σ} (hC : Rounds C body (k + 1) i a s) (h : body i a s = (.next a', s')) :
    Rounds C body k (i + 1) a' s' := by
  have hrest := hC.2
  rwa [val, state, h] at hrest

theorem Rounds.imp {C C' : α → σ → Prop} {body : ℕ → α → Prog σ (Flow α β)}
    (h : ∀ x t, C x t → C' x t) {k i : ℕ} {a : α} {s : σ} (hC : Rounds C body k i a s) :
    Rounds C' body k i a s := by
  induction k generalizing i a s with
  | zero => trivial
  | succ k ih => exact ⟨h a s hC.1, hC.2.imp (fun _ hrest => ih hrest) fun _ => id⟩

/-- Where a round leaves with a result that meets `P` exactly when it does not begin with `C`, so
does the loop when one of its rounds does not. -/
theorem loop_exits_iff_rounds {body : ℕ → α → Prog σ (Flow α β)} {C : α → σ → Prop}
    {P : β → Prop} (round : ∀ j x t, (∃ b, (body j x).val t = .exit b ∧ P b) ↔ ¬ C x t)
    (k i : ℕ) (a : α) (s : σ) :
    (∃ b, (loop body k i a).val s = .exit b ∧ P b) ↔ ¬ Rounds C body k i a s := by
  induction k generalizing i a s with
  | zero =>
      refine iff_of_false ?_ (not_not.mpr trivial)
      rintro ⟨b, hb, -⟩
      cases hb
  | succ k ih =>
      have hround := round i a s
      rw [Rounds, not_and_or]
      cases hv : (body i a).val s with
      | next y =>
          have hC : ¬¬ C a s := fun hno => by
            obtain ⟨b, hb, -⟩ := hround.mpr hno
            rw [hv] at hb
            cases hb
          rw [val_loop_next body hv, ih, Flow.holds_next]
          exact (or_iff_right hC).symm
      | exit b =>
          rw [hv] at hround
          rw [val_loop_exit body hv, hround, Flow.holds_exit]
          exact (or_iff_left (not_not.mpr trivial)).symm

/-- The invariant rule of a loop with exits whose rounds all begin with `C`: `I` is kept by
every round that goes on, and `Q` holds of every result a round leaves with. -/
theorem loop_inv_rounds {body : ℕ → α → Prog σ (Flow α β)} {n : ℕ} {I : ℕ → α → σ → Prop}
    {Q : β → σ → Prop} {C : α → σ → Prop}
    (round : ∀ j < n, ∀ x t, C x t → I j x t →
      ((body j x).val t).Holds (fun y => I (j + 1) y ((body j x).state t))
        (fun b => Q b ((body j x).state t))) :
    ∀ {k i : ℕ} {a : α} {s : σ}, i + k = n → Rounds C body k i a s → I i a s →
      ((loop body k i a).val s).Holds (fun y => I n y ((loop body k i a).state s))
        (fun b => Q b ((loop body k i a).state s))
  | 0, i, a, s, hn, _, h => by
      obtain rfl : i = n := hn
      exact h
  | k + 1, i, a, s, hn, hC, h => by
      have hlt : i < n := by omega
      have hfirst := round i hlt a s hC.1 h
      have hrest := hC.2
      cases hv : (body i a).val s with
      | next y =>
          rw [hv] at hfirst hrest
          rw [val_loop_next body hv, state_loop_next body hv]
          exact loop_inv_rounds round (k := k) (i := i + 1) (by omega) hrest hfirst
      | exit b =>
          rw [hv] at hfirst
          rw [val_loop_exit body hv, state_loop_exit body hv]
          exact hfirst

/-- The invariant rule of a loop with exits. -/
theorem loop_inv {body : ℕ → α → Prog σ (Flow α β)} {n : ℕ} {I : ℕ → α → σ → Prop}
    {Q : β → σ → Prop}
    (round : ∀ j < n, ∀ x t, I j x t →
      ((body j x).val t).Holds (fun y => I (j + 1) y ((body j x).state t))
        (fun b => Q b ((body j x).state t)))
    {k i : ℕ} {a : α} {s : σ} (hn : i + k = n) (h : I i a s) :
    ((loop body k i a).val s).Holds (fun y => I n y ((loop body k i a).state s))
      (fun b => Q b ((loop body k i a).state s)) :=
  loop_inv_rounds (C := fun _ _ => True) (fun j hj x t _ => round j hj x t) hn
    (rounds_of_inv (I := fun _ => True) body (fun _ _ _ _ => ⟨trivial, trivial⟩) k i a trivial) h

/-- Where exactly the rounds that begin with `P` leave the loop, and keep whether `Q` holds,
`Q` holds whenever the loop leaves if and only if every round with `P` begins with `Q`. -/
theorem loop_exit_iff_rounds {body : ℕ → α → Prog σ (Flow α β)} {P : α → σ → Prop}
    {Q : σ → Prop} (round : ∀ j x t, ((body j x).val t).Holds (fun _ => ¬ P x t)
      fun _ => P x t ∧ (Q ((body j x).state t) ↔ Q t)) (k i : ℕ) (a : α) (s : σ) :
    (∀ b, (loop body k i a).val s = .exit b → Q ((loop body k i a).state s)) ↔
      Rounds (fun x t => P x t → Q t) body k i a s := by
  induction k generalizing i a s with
  | zero =>
      refine ⟨fun _ => trivial, fun _ b hb => ?_⟩
      cases hb
  | succ k ih =>
      have hround := round i a s
      rw [Rounds]
      cases hv : (body i a).val s with
      | next y =>
          rw [hv] at hround
          rw [val_loop_next body hv, state_loop_next body hv, ih]
          exact ⟨fun h => ⟨fun hP => absurd hP hround, h⟩, fun h => h.2⟩
      | exit b =>
          rw [hv] at hround
          rw [val_loop_exit body hv, state_loop_exit body hv]
          refine ⟨fun h => ⟨fun _ => hround.2.mp (h b rfl), trivial⟩, fun h _ _ => ?_⟩
          exact hround.2.mpr (h.1 hround.1)

/-- Where a round that begins with `C` keeps what is needed for `Q`, and one that does not is the
end of `Q` before long, `Q` holds however far the loop runs if and only if every round begins
with `C`. -/
theorem loop_safe_iff_rounds {body : ℕ → α → Prog σ (Flow α β)} {I C : α → σ → Prop}
    {Q : σ → Prop} (hI : ∀ a s, I a s → Q s)
    (good : ∀ j a s, C a s → I a s → ((body j a).val s).Holds
      (fun y => I y ((body j a).state s)) fun _ => Q ((body j a).state s))
    (bad : ∀ j a s, I a s → ¬ C a s → ∃ k, ¬ Q ((loop body k j a).state s))
    (i : ℕ) {a : α} {s : σ} (h : I a s) :
    (∀ k, Q ((loop body k i a).state s)) ↔ ∀ k, Rounds C body k i a s := by
  constructor
  · intro hQ k
    induction k generalizing i a s with
    | zero => trivial
    | succ k ih =>
        have hC : C a s := Classical.byContradiction fun hno => by
          obtain ⟨k', hbad⟩ := bad i a s h hno
          exact hbad (hQ k')
        refine ⟨hC, ?_⟩
        have hround := good i a s hC h
        cases hv : (body i a).val s with
        | next y =>
            rw [hv] at hround
            refine ih (i + 1) hround fun k' => ?_
            have hlonger := hQ (k' + 1)
            rwa [state_loop_next body hv] at hlonger
        | exit b => trivial
  · intro hC k
    induction k generalizing i a s with
    | zero => exact hI a s h
    | succ k ih =>
        have hround := good i a s (hC 1).1 h
        cases hv : (body i a).val s with
        | next y =>
            rw [hv] at hround
            rw [state_loop_next body hv]
            refine ih (i + 1) hround fun k' => ?_
            have hrest := (hC (k' + 1)).2
            rwa [hv] at hrest
        | exit b =>
            rw [hv] at hround
            rwa [state_loop_exit body hv]

/-- A loop whose rounds lower a measure leaves before its fuel runs out. -/
theorem loop_exits (body : ℕ → α → Prog σ (Flow α β)) {I : α → σ → Prop} {μ : α → ℕ}
    (round : ∀ j x t, I x t →
      ((body j x).val t).Holds (fun y => I y ((body j x).state t) ∧ μ y < μ x) fun _ => True) :
    ∀ {k i : ℕ} {a : α} {s : σ}, μ a < k → I a s → ∃ b, (loop body k i a).val s = .exit b
  | 0, _, _, _, hk, _ => absurd hk (Nat.not_lt_zero _)
  | k + 1, i, a, s, hk, h => by
      have hfirst := round i a s h
      cases hv : (body i a).val s with
      | next y =>
          rw [hv] at hfirst
          rw [val_loop_next body hv]
          exact loop_exits body round (k := k)
            (Nat.lt_of_lt_of_le hfirst.2 (Nat.le_of_lt_succ hk)) hfirst.1
      | exit b => exact ⟨b, val_loop_exit body hv⟩

/-- A loop whose rounds keep `I` and never leave does not leave, however long it runs. -/
theorem loop_never_exits {body : ℕ → α → Prog σ (Flow α β)} {I : α → σ → Prop}
    (round : ∀ j x t, I x t →
      ((body j x).val t).Holds (fun y => I y ((body j x).state t)) fun _ => False)
    (k i : ℕ) {a : α} {s : σ} (h : I a s) : ∃ y, (loop body k i a).val s = .next y := by
  induction k generalizing i a s with
  | zero => exact ⟨a, rfl⟩
  | succ k ih =>
      have hround := round i a s h
      cases hv : (body i a).val s with
      | next y =>
          rw [hv] at hround
          rw [val_loop_next body hv]
          exact ih (i + 1) hround
      | exit b =>
          rw [hv] at hround
          exact hround.elim

/-- A property of the state that every round keeps is kept by the loop. -/
theorem state_loop_of_round {I : σ → Prop} (body : ℕ → α → Prog σ (Flow α β))
    (round : ∀ j a s, I s → I ((body j a).state s)) (k i : ℕ) (a : α) {s : σ} (h : I s) :
    I ((loop body k i a).state s) := by
  induction k generalizing i a s with
  | zero => exact h
  | succ k ih =>
      cases hv : (body i a).val s with
      | next a' =>
          rw [state_loop_next body hv]
          exact ih (i + 1) a' (round i a s h)
      | exit b =>
          rw [state_loop_exit body hv]
          exact round i a s h

/-! ## What a program leaves alone -/

/-- `p` never changes what `q` shows of the state. -/
def Keeps (q : σ → β) (p : Prog σ α) : Prop := ∀ s, q (p.state s) = q s

namespace Keeps
variable {γ δ : Type} {q : σ → γ}

theorem pure (a : α) : Keeps q (pure a : Prog σ α) := fun _ => rfl

theorem get (f : σ → α) : Keeps q (Prog.get f) := fun _ => rfl

theorem modify {f : σ → σ} (h : ∀ s, q (f s) = q s) : Keeps q (Prog.modify f) := h

theorem bind {p : Prog σ α} {f : α → Prog σ β} (hp : Keeps q p) (hf : ∀ a, Keeps q (f a)) :
    Keeps q (p >>= f) := fun s => (hf _ _).trans (hp s)

theorem ite (c : Prop) [Decidable c] {p p' : Prog σ α} (hp : Keeps q p) (hp' : Keeps q p') :
    Keeps q (if c then p else p') := by
  split
  · exact hp
  · exact hp'

theorem forUp {body : ℕ → α → Prog σ α} {n k i : ℕ} (h : ∀ j < n, ∀ a, Keeps q (body j a)) (a : α)
    (hn : i + k = n) : Keeps q (Prog.forUp body k i a) := fun s =>
  forUp_inv (I := fun _ _ t => q t = q s) (fun j hj x t ht => (h j hj x t).trans ht) hn rfl

theorem loop {body : ℕ → α → Prog σ (Flow α δ)} (h : ∀ i a, Keeps q (body i a)) (k i : ℕ) (a : α) :
    Keeps q (Prog.loop body k i a) := fun s =>
  state_loop_of_round body (I := fun t => q t = q s) (fun j x t ht => (h j x t).trans ht) k i a rfl

end Keeps

/-- What holds of the state before `p` holds after it. -/
def Maintains (I : σ → Prop) (p : Prog σ α) : Prop := ∀ s, I s → I (p.state s)

namespace Maintains
variable {γ : Type} {I : σ → Prop}

theorem pure (a : α) : Maintains I (pure a : Prog σ α) := fun _ h => h

theorem get (f : σ → α) : Maintains I (Prog.get f) := fun _ h => h

theorem modify {f : σ → σ} (h : ∀ s, I s → I (f s)) : Maintains I (Prog.modify f) := h

theorem bind {p : Prog σ α} {f : α → Prog σ β} (hp : Maintains I p)
    (hf : ∀ a, Maintains I (f a)) : Maintains I (p >>= f) := fun s h => hf _ _ (hp s h)

theorem ite (c : Prop) [Decidable c] {p p' : Prog σ α} (hp : Maintains I p)
    (hp' : Maintains I p') : Maintains I (if c then p else p') := by
  split
  · exact hp
  · exact hp'

theorem loop {body : ℕ → α → Prog σ (Flow α γ)} (h : ∀ i a, Maintains I (body i a)) (k i : ℕ)
    (a : α) : Maintains I (Prog.loop body k i a) := fun _ hs =>
  state_loop_of_round body (fun j x t ht => h j x t ht) k i a hs

end Maintains

/-! ## A part of the state -/

/-- Run `p` on the part of the state that `view` shows and `put` replaces. -/
def within {τ : Type} (view : τ → σ) (put : σ → τ → τ) (p : Prog σ α) : Prog τ α :=
  fun t => (p.val (view t), put (p.state (view t)) t)

@[simp] theorem val_within {τ : Type} (view : τ → σ) (put : σ → τ → τ) (p : Prog σ α) (t : τ) :
    (within view put p).val t = p.val (view t) := (rfl)
@[simp] theorem state_within {τ : Type} (view : τ → σ) (put : σ → τ → τ) (p : Prog σ α) (t : τ) :
    (within view put p).state t = put (p.state (view t)) t := (rfl)

end Prog
end Apollo.Lib
