import Mathlib.Data.Nat.Notation
import Mathlib.Logic.Relation

/-!
# Stateful code that may fail

Code is an `EStateM` action: it returns a value and a state, or fails and keeps
the state it failed in.  The `bind` rules peel a successful or failed run apart;
`Ends` says what holds where an execution returns and how it may fail,
`ReturnsAs` that an execution returns what another one does, `StopsOr` that it ends
as another one does unless it stops earlier, and all compose along `bind`.  `zoom`
runs an action on a component of the state; `Mirrors` says that an action does the
same from a part of the state as from all of it.

`Relation.ReflTransGen` is reachability of a step relation; `invariant_of_step`
packages the induction every state invariant needs.
-/

namespace Machine

variable {ε σ τ α β : Type}

/-! ## Run equations -/

@[simp] theorem get_run (s : σ) : (get : EStateM ε σ σ) s = .ok s s := rfl

@[simp] theorem modify_run (f : σ → σ) (s : σ) :
    (modify f : EStateM ε σ PUnit) s = .ok ⟨⟩ (f s) := rfl

theorem bind_run (x : EStateM ε σ α) (f : α → EStateM ε σ β) (s : σ) :
    (x >>= f) s = match x s with
      | .ok a s' => f a s'
      | .error e s' => .error e s' := rfl

/-- A sequence continues from what its first part returned. -/
theorem bind_of_ok {x : EStateM ε σ α} {f : α → EStateM ε σ β} {s s' : σ} {a : α}
    (h : x s = .ok a s') : (x >>= f) s = f a s' := by
  rw [bind_run, h]

/-- A failure of the first part is the failure of the sequence. -/
theorem bind_of_error {x : EStateM ε σ α} {f : α → EStateM ε σ β} {s s' : σ} {e : ε}
    (h : x s = .error e s') : (x >>= f) s = .error e s' := by
  rw [bind_run, h]

/-- A successful sequence is two successful runs. -/
theorem bind_eq_ok {x : EStateM ε σ α} {f : α → EStateM ε σ β} {s t : σ} {b : β} :
    (x >>= f) s = .ok b t ↔ ∃ a s', x s = .ok a s' ∧ f a s' = .ok b t := by
  rw [bind_run]
  cases h : x s with
  | ok a s' =>
      constructor
      · intro rest
        exact ⟨a, s', rfl, rest⟩
      · intro ⟨_, _, same, rest⟩
        cases same
        exact rest
  | error e s' => simp

/-- The state an execution ends in, whether it returned or failed. -/
def final : EStateM.Result ε σ α → σ
  | .ok _ s => s
  | .error _ s => s

/-- The value an execution returns, if it does. -/
def value? : EStateM.Result ε σ α → Option α
  | .ok a _ => some a
  | .error _ _ => none

theorem eq_ok_of_value {r : EStateM.Result ε σ α} {a : α} (h : value? r = some a) :
    r = .ok a (final r) := by
  cases r with
  | ok b s =>
      injection h with same
      rw [same]
      rfl
  | error e s => cases h

/-- The fault an execution ends in, if it does. -/
def fault? : EStateM.Result ε σ α → Option ε
  | .ok _ _ => none
  | .error e _ => some e

theorem eq_error_of_fault {r : EStateM.Result ε σ α} {e : ε} (h : fault? r = some e) :
    r = .error e (final r) := by
  cases r with
  | ok a s => cases h
  | error e' s =>
      injection h with same
      rw [same]
      rfl

/-- What holds after the first part and is kept by the second part holds at the
end of the sequence. -/
theorem final_bind {x : EStateM ε σ α} {f : α → EStateM ε σ β} {s : σ} {P : σ → Prop}
    (first : P (final (x s)))
    (second : ∀ a s', x s = .ok a s' → P (final (f a s'))) : P (final ((x >>= f) s)) := by
  rw [bind_run]
  cases h : x s with
  | ok a s' => exact second a s' h
  | error e s' =>
      rw [h] at first
      exact first

/-- An execution that returns satisfies `Q`, one that fails satisfies `E`. -/
def Ends (Q : α → σ → Prop) (E : ε → Prop) : EStateM.Result ε σ α → Prop
  | .ok a s => Q a s
  | .error e _ => E e

namespace Ends

variable {Q Q' : α → σ → Prop} {E : ε → Prop} {r : EStateM.Result ε σ α}

theorem mono (h : Ends Q E r) (weaker : ∀ a s, Q a s → Q' a s) : Ends Q' E r := by
  cases r with
  | ok a s => exact weaker a s h
  | error e s => exact h

theorem of_ok (h : Ends Q E r) {a : α} {s : σ} (run : r = .ok a s) : Q a s := by
  subst run
  exact h

theorem of_error (h : Ends Q E r) {e : ε} {s : σ} (run : r = .error e s) : E e := by
  subst run
  exact h

theorem ok_or_error (h : Ends Q E r) :
    (∃ a s, r = .ok a s ∧ Q a s) ∨ ∃ e s, r = .error e s ∧ E e := by
  cases r with
  | ok a s => exact Or.inl ⟨a, s, rfl, h⟩
  | error e s => exact Or.inr ⟨e, s, rfl, h⟩

/-- A sequence ends as its second part does after its first part returned. -/
theorem bind {x : EStateM ε σ α} {f : α → EStateM ε σ β} {R : β → σ → Prop} {s : σ}
    (first : Ends Q E (x s)) (second : ∀ a s', Q a s' → Ends R E (f a s')) :
    Ends R E ((x >>= f) s) := by
  rw [bind_run]
  cases h : x s with
  | ok a s' => exact second a s' (first.of_ok h)
  | error e s' => exact first.of_error h

/-- Nothing is said about how an execution ends. -/
theorem trivially (r : EStateM.Result ε σ α) : Ends (fun _ _ => True) (fun _ => True) r := by
  cases r <;> trivial

/-- What each round keeps a loop over a list keeps. -/
theorem forM {f : β → EStateM ε σ PUnit} {P : σ → Prop}
    (round : ∀ b s, P s → Ends (fun _ s' => P s') E (f b s)) :
    ∀ (l : List β) (s : σ), P s → Ends (fun _ s' => P s') E (l.forM f s)
  | [], _, start => start
  | b :: l, s, start => (round b s start).bind fun _ s' kept => forM round l s' kept

end Ends

/-- Where the first execution returns the second returns the same, with `Q`. -/
def ReturnsAs (Q : α → σ → Prop) (r r' : EStateM.Result ε σ α) : Prop :=
  ∀ a s, r = .ok a s → r' = .ok a s ∧ Q a s

namespace ReturnsAs

variable {Q : α → σ → Prop}

theorem of_ok {r r' : EStateM.Result ε σ α} {a : α} {s : σ} (run : r = .ok a s)
    (run' : r' = .ok a s) (post : Q a s) : ReturnsAs Q r r' := by
  intro b t h
  rw [run] at h
  cases h
  exact ⟨run', post⟩

theorem of_error {r r' : EStateM.Result ε σ α} {e : ε} {s : σ} (run : r = .error e s) :
    ReturnsAs Q r r' := by
  intro a t h
  rw [run] at h
  cases h

theorem same (r : EStateM.Result ε σ α) : ReturnsAs (fun _ _ => True) r r :=
  fun _ _ run => ⟨run, trivial⟩

theorem bind {x y : EStateM ε σ α} {f g : α → EStateM ε σ β} {R : β → σ → Prop} {s : σ}
    (first : ReturnsAs Q (x s) (y s)) (second : ∀ a s', Q a s' → ReturnsAs R (f a s') (g a s')) :
    ReturnsAs R ((x >>= f) s) ((y >>= g) s) := by
  intro b t run
  obtain ⟨a, s', run₁, run₂⟩ := bind_eq_ok.1 run
  obtain ⟨run₁', post⟩ := first a s' run₁
  rw [bind_of_ok run₁']
  exact second a s' post b t run₂

end ReturnsAs

/-! ## Loops -/

/-- `for (i = start; test(i); i = next(i)) body(i)`; a loop that outlives its fuel
fails with `endless`. -/
def forLoop (endless : ε) (test : α → Bool) (next : α → α) (body : α → EStateM ε σ Unit) :
    ℕ → α → EStateM ε σ Unit
  | 0, _ => throw endless
  | fuel + 1, i =>
      if test i then do
        body i
        forLoop endless test next body fuel (next i)
      else pure ()

/-- A loop whose rounds lead from each state to the next ends in the last one. -/
theorem forLoop_ok {endless : ε} {test : α → Bool} {next : α → α} {body : α → EStateM ε σ Unit}
    (index : ℕ → α) (state : ℕ → σ) {rounds fuel : ℕ} (enough : rounds < fuel)
    (more : ∀ k < rounds, test (index k) = true)
    (round : ∀ k < rounds, body (index k) (state k) = .ok () (state (k + 1)))
    (step : ∀ k < rounds, next (index k) = index (k + 1))
    (stop : test (index rounds) = false) :
    forLoop endless test next body fuel (index 0) (state 0) = .ok () (state rounds) := by
  induction rounds generalizing index state fuel with
  | zero =>
      cases fuel with
      | zero => exact absurd enough (Nat.lt_irrefl 0)
      | succ fuel =>
          rw [forLoop, stop]
          rfl
  | succ rounds ih =>
      cases fuel with
      | zero => exact absurd enough (Nat.not_lt_zero _)
      | succ fuel =>
          have first := Nat.succ_pos rounds
          rw [forLoop, more 0 first, if_pos rfl, bind_of_ok (round 0 first), step 0 first]
          exact ih (fun k => index (k + 1)) (fun k => state (k + 1))
            (Nat.lt_of_succ_lt_succ enough) (fun k hk => more _ (Nat.succ_lt_succ hk))
            (fun k hk => round _ (Nat.succ_lt_succ hk)) (fun k hk => step _ (Nat.succ_lt_succ hk))
            stop

/-! ## Recorded calls -/

/-- Make the calls in their order; each is returned with its result. -/
def recordEach (call : α → EStateM ε σ β) (calls : List α) : EStateM ε σ (List (α × β)) :=
  calls.mapM fun a => do
    let b ← call a
    pure (a, b)

theorem recordEach_cons (call : α → EStateM ε σ β) (a : α) (calls : List α) :
    recordEach call (a :: calls) = (do
      let b ← call a
      let results ← recordEach call calls
      pure ((a, b) :: results)) := by
  rw [recordEach, List.mapM_cons, bind_assoc]
  rfl

/-- What each call keeps, of the calls to come, the calls made with their results and the
state, all calls keep. -/
theorem recordEach_ok {call : α → EStateM ε σ β} {P : List α → List (α × β) → σ → Prop}
    (step : ∀ a calls history s, P (a :: calls) history s →
      ∃ b s', call a s = .ok b s' ∧ P calls (history ++ [(a, b)]) s')
    {calls : List α} {history : List (α × β)} {s : σ} (start : P calls history s) :
    ∃ results s', recordEach call calls s = .ok results s' ∧ P [] (history ++ results) s' := by
  induction calls generalizing history s with
  | nil =>
      refine ⟨[], s, rfl, ?_⟩
      rw [List.append_nil]
      exact start
  | cons a calls ih =>
      obtain ⟨b, s₁, first, next⟩ := step a calls history s start
      obtain ⟨results, s', rest, last⟩ := ih next
      refine ⟨(a, b) :: results, s', ?_, ?_⟩
      · rw [recordEach_cons, bind_of_ok first, bind_of_ok rest]
        rfl
      · rw [List.append_assoc] at last
        exact last

/-! ## Running on a component -/

/-- Run an action on the component that `get?` selects and write it back with
`put`; without such a component fail with `missing`. -/
def zoom (get? : σ → Option τ) (put : σ → τ → σ) (missing : ε) (x : EStateM ε τ α) :
    EStateM ε σ α := fun s =>
  match get? s with
  | none => .error missing s
  | some t =>
      match x t with
      | .ok a t' => .ok a (put s t')
      | .error e t' => .error e (put s t')

theorem zoom_of_ok {get? : σ → Option τ} {put : σ → τ → σ} {missing : ε}
    {x : EStateM ε τ α} {s : σ} {t t' : τ} {a : α}
    (component : get? s = some t) (h : x t = .ok a t') :
    zoom get? put missing x s = .ok a (put s t') := by
  simp only [zoom, component, h]

theorem zoom_of_error {get? : σ → Option τ} {put : σ → τ → σ} {missing : ε}
    {x : EStateM ε τ α} {s : σ} {t t' : τ} {e : ε}
    (component : get? s = some t) (h : x t = .error e t') :
    zoom get? put missing x s = .error e (put s t') := by
  simp only [zoom, component, h]

theorem zoom_of_missing {get? : σ → Option τ} {put : σ → τ → σ} {missing : ε}
    {x : EStateM ε τ α} {s : σ} (component : get? s = none) :
    zoom get? put missing x s = .error missing s := by
  simp only [zoom, component]

/-- An execution on a component ends as the execution does. -/
theorem Ends.zoom {get? : σ → Option τ} {put : σ → τ → σ} {missing : ε} {x : EStateM ε τ α}
    {s : σ} {t : τ} {Q : α → τ → Prop} {E : ε → Prop} (component : get? s = some t)
    (h : Ends Q E (x t)) :
    Ends (fun a s' => ∃ t', s' = put s t' ∧ Q a t') E (Machine.zoom get? put missing x s) := by
  cases run : x t with
  | ok a t' =>
      rw [zoom_of_ok component run]
      exact ⟨t', rfl, h.of_ok run⟩
  | error e t' =>
      rw [zoom_of_error component run]
      exact h.of_error run

/-! ## Runs that may stop earlier -/

/-- Wherever it starts, `x` stops with an error of the kind `stop` or ends as `y` does. -/
def StopsOr (stop : ε → Prop) (x y : EStateM ε σ α) : Prop :=
  ∀ s, (∃ e t, stop e ∧ x s = .error e t) ∨ x s = y s

namespace StopsOr

variable {stop : ε → Prop}

theorem same (x : EStateM ε σ α) : StopsOr stop x x := fun _ => Or.inr rfl

theorem bind {x y : EStateM ε σ α} {f g : α → EStateM ε σ β} (first : StopsOr stop x y)
    (second : ∀ a, StopsOr stop (f a) (g a)) : StopsOr stop (x >>= f) (y >>= g) := by
  intro s
  rcases first s with ⟨e, t, kind, stopped⟩ | same
  · exact Or.inl ⟨e, t, kind, bind_of_error stopped⟩
  · cases run : x s with
    | ok a t =>
        rw [run] at same
        rw [bind_of_ok run, bind_of_ok same.symm]
        exact second a t
    | error e t =>
        rw [run] at same
        rw [bind_of_error run, bind_of_error same.symm]
        exact Or.inr rfl

theorem ite {c : Prop} [Decidable c] {x y x' y' : EStateM ε σ α} (yes : StopsOr stop x x')
    (no : StopsOr stop y y') : StopsOr stop (if c then x else y) (if c then x' else y') := by
  split
  · exact yes
  · exact no

/-- What `x` returns `y` returns. -/
theorem of_ok {x y : EStateM ε σ α} (h : StopsOr stop x y) {s t : σ} {a : α}
    (run : x s = .ok a t) : y s = .ok a t := by
  rcases h s with ⟨e, t', -, stopped⟩ | same
  · rw [stopped] at run
    cases run
  · exact same.symm.trans run

/-- Code on a component. -/
theorem zoom {get? : σ → Option τ} {put : σ → τ → σ} {missing : ε} {x y : EStateM ε τ α}
    (h : StopsOr stop x y) :
    StopsOr stop (Machine.zoom get? put missing x) (Machine.zoom get? put missing y) := by
  intro s
  cases there : get? s with
  | none =>
      refine Or.inr ?_
      simp only [Machine.zoom, there]
  | some t =>
      rcases h t with ⟨e, t', kind, stopped⟩ | same
      · exact Or.inl ⟨e, _, kind, zoom_of_error there stopped⟩
      · refine Or.inr ?_
        simp only [Machine.zoom, there, same]

end StopsOr

/-! ## Runs on a part of the state -/

/-- The result with another state. -/
def mapState (f : σ → σ) : EStateM.Result ε σ α → EStateM.Result ε σ α
  | .ok a s => .ok a (f s)
  | .error e s => .error e (f s)

/-- From the image of a state the code does what it does from the state, unless it stops. -/
def Mirrors (f : σ → σ) (stop : ε) (x : EStateM ε σ α) : Prop :=
  ∀ s, (∃ t, x (f s) = .error stop t) ∨ x (f s) = mapState f (x s)

namespace Mirrors

variable {f : σ → σ} {stop : ε}

theorem pure (a : α) : Mirrors f stop (pure a : EStateM ε σ α) := fun _ => Or.inr rfl

theorem throw (e : ε) : Mirrors f stop (throw e : EStateM ε σ α) := fun _ => Or.inr rfl

theorem self (x : EStateM ε σ α) : Mirrors (fun s => s) stop x := by
  intro s
  right
  cases x s <;> rfl

theorem bind {x : EStateM ε σ α} {g : α → EStateM ε σ β} (first : Mirrors f stop x)
    (second : ∀ a, Mirrors f stop (g a)) : Mirrors f stop (x >>= g) := by
  intro s
  rcases first s with ⟨t, stopped⟩ | same
  · exact Or.inl ⟨t, bind_of_error stopped⟩
  · cases run : x s with
    | ok a t =>
        rw [run] at same
        rw [bind_of_ok run, bind_of_ok same]
        exact second a t
    | error e t =>
        rw [run] at same
        rw [bind_of_error run, bind_of_error same]
        exact Or.inr rfl

theorem ite {c : Prop} [Decidable c] {x y : EStateM ε σ α} (yes : Mirrors f stop x)
    (no : Mirrors f stop y) : Mirrors f stop (if c then x else y) := by
  split
  · exact yes
  · exact no

/-- What is returned from the image of a state is returned from the state. -/
theorem exists_ok {x : EStateM ε σ α} {s t : σ} {a : α} (h : Mirrors f stop x)
    (run : x (f s) = .ok a t) : ∃ t', x s = .ok a t' ∧ t = f t' := by
  rcases h s with ⟨t', stopped⟩ | same
  · rw [stopped] at run
    cases run
  · rw [same] at run
    cases run' : x s with
    | ok b t' =>
        rw [run'] at run
        cases run
        exact ⟨t', rfl, rfl⟩
    | error e t' =>
        rw [run'] at run
        cases run

/-- Code on a component mirrors as it does there. -/
theorem zoom {get? : σ → Option τ} {put : σ → τ → σ} {missing : ε} {x : EStateM ε τ α}
    {g : τ → τ} (component : ∀ s, get? (f s) = (get? s).map g)
    (back : ∀ s t, put (f s) (g t) = f (put s t)) (h : Mirrors g stop x) :
    Mirrors f stop (Machine.zoom get? put missing x) := by
  intro s
  have image := component s
  cases there : get? s with
  | none =>
      rw [there] at image
      refine Or.inr ?_
      simp only [Machine.zoom, there, image, Option.map_none, mapState]
  | some t =>
      rw [there, Option.map_some] at image
      rcases h t with ⟨t', stopped⟩ | same
      · exact Or.inl ⟨_, zoom_of_error image stopped⟩
      · refine Or.inr ?_
        cases run : x t with
        | ok a t' =>
            rw [run] at same
            rw [zoom_of_ok there run, zoom_of_ok image same, back]
            rfl
        | error e t' =>
            rw [run] at same
            rw [zoom_of_error there run, zoom_of_error image same, back]
            rfl

end Mirrors

end Machine

/-! ## Reachability -/

/-- What holds at the start and is kept by each step holds wherever the steps
lead. -/
theorem Relation.ReflTransGen.invariant_of_step {σ : Type} {step : σ → σ → Prop}
    {P : σ → Prop} {a b : σ} (run : Relation.ReflTransGen step a b) (start : P a)
    (keep : ∀ s t, P s → step s t → P t) : P b := by
  induction run with
  | refl => exact start
  | tail _ last ih => exact keep _ _ ih last
