/-!
# Runs whose steps meet a condition

A system is a partial step function on states and events.  A property that the start has and that
every step under the condition keeps holds in every state that such steps reach.
-/

namespace NetProg

/-- The states that steps meeting `ok` reach from `start`. -/
inductive Reached {σ ε : Type} (step : σ → ε → Option σ) (ok : σ → ε → Prop) (start : σ) : σ → Prop
  | start : Reached step ok start start
  | step {s s' : σ} {e : ε} : Reached step ok start s → ok s e → step s e = some s' →
      Reached step ok start s'

theorem Reached.invariant {σ ε : Type} {step : σ → ε → Option σ} {ok : σ → ε → Prop} {start s : σ}
    {p : σ → Prop} (first : p start)
    (keep : ∀ {s s' : σ} {e : ε}, p s → ok s e → step s e = some s' → p s')
    (reached : Reached step ok start s) : p s := by
  induction reached with
  | start => exact first
  | step _ met stepped ih => exact keep ih met stepped

/-- The state after a list of events, if all of them can happen. -/
def runAll {σ ε : Type} (step : σ → ε → Option σ) : List ε → σ → Option σ
  | [], s => some s
  | e :: events, s => (step s e).bind (runAll step events)

theorem runAll_append {σ ε : Type} (step : σ → ε → Option σ) (first later : List ε) (s : σ) :
    runAll step (first ++ later) s = (runAll step first s).bind (runAll step later) := by
  induction first generalizing s with
  | nil => rfl
  | cons e events ih =>
      rw [List.cons_append, runAll, runAll]
      cases step s e with
      | none => rfl
      | some next => exact ih next

/-- A run of events that meet the condition in every state. -/
theorem Reached.runAll_met {σ ε : Type} {step : σ → ε → Option σ} {ok : σ → ε → Prop}
    {events : List ε} {first s s' : σ} (reached : Reached step ok first s)
    (met : ∀ e ∈ events, ∀ s, ok s e) (ran : runAll step events s = some s') :
    Reached step ok first s' := by
  induction events generalizing s with
  | nil => exact Option.some.inj ran ▸ reached
  | cons e events ih =>
      obtain ⟨next, stepped, rest⟩ := Option.bind_eq_some_iff.mp ran
      exact ih (reached.step (met e List.mem_cons_self s) stepped)
        (fun e member => met e (List.mem_cons_of_mem _ member)) rest

theorem Reached.runAll {σ ε : Type} {step : σ → ε → Option σ} {events : List ε} {first s s' : σ}
    (reached : Reached step (fun _ _ => True) first s) (ran : NetProg.runAll step events s = some s') :
    Reached step (fun _ _ => True) first s' :=
  reached.runAll_met (fun _ _ _ => trivial) ran

/-- If every step under a condition is matched by a run of another system, so is every run. -/
theorem runAll_simulated {σ τ ε δ : Type} {step : σ → ε → Option σ} {step' : τ → δ → Option τ}
    {ok : ε → Prop} {ok' : δ → Prop} (rel : σ → τ → Prop)
    (matched : ∀ {s s' : σ} {t : τ} {e : ε}, rel s t → ok e → step s e = some s' →
      ∃ events t', (∀ d ∈ events, ok' d) ∧ runAll step' events t = some t' ∧ rel s' t')
    {events : List ε} {s s' : σ} {t : τ} (related : rel s t) (met : ∀ e ∈ events, ok e)
    (ran : runAll step events s = some s') :
    ∃ events' t', (∀ d ∈ events', ok' d) ∧ runAll step' events' t = some t' ∧ rel s' t' := by
  induction events generalizing s t with
  | nil =>
      cases ran
      exact ⟨[], t, by simp, rfl, related⟩
  | cons e events ih =>
      obtain ⟨next, stepped, rest⟩ := Option.bind_eq_some_iff.mp ran
      obtain ⟨first, mid, met₁, ran₁, related'⟩ := matched related (met e List.mem_cons_self) stepped
      obtain ⟨later, last, met₂, ran₂, final⟩ :=
        ih related' (fun e member => met e (List.mem_cons_of_mem _ member)) rest
      refine ⟨first ++ later, last, ?_, ?_, final⟩
      · intro d member
        exact (List.mem_append.mp member).elim (met₁ d) (met₂ d)
      · rw [runAll_append, ran₁]
        exact ran₂

/-- Every step of a list of events meets a condition on the state before it, as far as they can
happen. -/
def Along {σ ε : Type} (step : σ → ε → Option σ) (p : σ → ε → Prop) : List ε → σ → Prop
  | [], _ => True
  | e :: events, s => p s e ∧ ∀ s', step s e = some s' → Along step p events s'

/-- Two conditions that agree wherever the invariant holds hold along the same events. -/
theorem Along.congr {σ ε : Type} {step : σ → ε → Option σ} {p q : σ → ε → Prop} {inv : σ → Prop}
    (same : ∀ s e, inv s → (p s e ↔ q s e))
    (keep : ∀ s e s', inv s → step s e = some s' → inv s') {events : List ε} {s : σ} (first : inv s) :
    Along step p events s ↔ Along step q events s := by
  induction events generalizing s with
  | nil => exact Iff.rfl
  | cons e events ih =>
      apply and_congr (same s e first)
      apply forall_congr'
      intro s'
      constructor
      · intro holds stepped
        exact (ih (keep s e s' first stepped)).mp (holds stepped)
      · intro holds stepped
        exact (ih (keep s e s' first stepped)).mpr (holds stepped)

/-- If a property is kept exactly by the steps that meet a condition, a run keeps it exactly when all
its steps meet the condition.  The invariant is kept by any step that keeps the property. -/
theorem Along.keeps_iff {σ ε : Type} {step : σ → ε → Option σ} {ok : σ → ε → Prop} {inv p : σ → Prop}
    (precise : ∀ s e, inv s → p s → (ok s e ↔ ∀ s', step s e = some s' → p s'))
    (keep : ∀ s e s', inv s → p s → step s e = some s' → inv s') {events : List ε} {s : σ}
    (first : inv s) (start : p s) :
    Along step (fun s e => ∀ s', step s e = some s' → p s') events s ↔ Along step ok events s := by
  induction events generalizing s with
  | nil => exact Iff.rfl
  | cons e events ih =>
      have here := precise s e first start
      constructor
      · intro kept
        refine ⟨here.mpr kept.1, ?_⟩
        intro s' stepped
        exact (ih (keep s e s' first start stepped) (kept.1 s' stepped)).mp (kept.2 s' stepped)
      · intro met
        have now := here.mp met.1
        refine ⟨now, ?_⟩
        intro s' stepped
        exact (ih (keep s e s' first start stepped) (now s' stepped)).mpr (met.2 s' stepped)

end NetProg
