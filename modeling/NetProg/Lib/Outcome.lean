/-!
# Outcomes of fallible steps

A program step that can give up is an `Except ε α`: `ok` carries the state it ends in and
`error` the reason together with whatever is left behind.  `Sat result post fail` states a
postcondition for both endings.  Nothing here names a program; the rules below are how the
proofs of the development pass through `do` blocks.
-/

namespace NetProg

/-- A normal ending satisfies `post` and a failed one satisfies `fail`. -/
def Sat {ε α : Type} (result : Except ε α) (post : α → Prop) (fail : ε → Prop) : Prop :=
  match result with
  | .ok value => post value
  | .error reason => fail reason

instance {ε α : Type} (result : Except ε α) (post : α → Prop) (fail : ε → Prop)
    [DecidablePred post] [DecidablePred fail] : Decidable (Sat result post fail) :=
  match result with
  | .ok value => inferInstanceAs (Decidable (post value))
  | .error reason => inferInstanceAs (Decidable (fail reason))

namespace Sat

variable {ε α β : Type}

@[simp] theorem ok_iff (value : α) (post : α → Prop) (fail : ε → Prop) :
    Sat (.ok value) post fail ↔ post value := Iff.rfl

@[simp] theorem error_iff (reason : ε) (post : α → Prop) (fail : ε → Prop) :
    Sat (.error reason : Except ε α) post fail ↔ fail reason := Iff.rfl

/-- The consequence rule. -/
theorem mono {result : Except ε α} {post post' : α → Prop} {fail fail' : ε → Prop}
    (h : Sat result post fail) (hpost : ∀ value, post value → post' value)
    (hfail : ∀ reason, fail reason → fail' reason) : Sat result post' fail' := by
  cases result with
  | ok value => exact hpost value h
  | error reason => exact hfail reason h

/-- Two postconditions of one step hold together. -/
theorem and {result : Except ε α} {post post' : α → Prop} {fail fail' : ε → Prop}
    (h : Sat result post fail) (h' : Sat result post' fail') :
    Sat result (fun value => post value ∧ post' value) (fun reason => fail reason ∧ fail' reason) := by
  cases result with
  | ok value => exact ⟨h, h'⟩
  | error reason => exact ⟨h, h'⟩

/-- The sequencing rule: the continuation is checked at every value the first part can give. -/
theorem bind {first : Except ε α} {next : α → Except ε β} {mid : α → Prop}
    {post : β → Prop} {fail : ε → Prop} (h : Sat first mid fail)
    (hnext : ∀ value, mid value → Sat (next value) post fail) :
    Sat (first >>= next) post fail := by
  cases first with
  | ok value => exact hnext value h
  | error reason => exact h

/-- What holds of every normal ending holds of the one that happened. -/
theorem of_ok {result : Except ε α} {post : α → Prop} {fail : ε → Prop} {value : α}
    (h : Sat result post fail) (ended : result = .ok value) : post value := by
  subst ended
  exact h

theorem of_error {result : Except ε α} {post : α → Prop} {fail : ε → Prop} {reason : ε}
    (h : Sat result post fail) (ended : result = .error reason) : fail reason := by
  subst ended
  exact h

end Sat

/-- A sequence ends normally exactly when both of its parts do. -/
theorem bind_eq_ok {ε α β : Type} {first : Except ε α} {next : α → Except ε β} {result : β} :
    (first >>= next) = .ok result ↔ ∃ value, first = .ok value ∧ next value = .ok result := by
  cases first with
  | ok value =>
      constructor
      · intro h
        exact ⟨value, rfl, h⟩
      · rintro ⟨value', same, h⟩
        cases same
        exact h
  | error reason =>
      constructor
      · intro h
        cases h
      · rintro ⟨value, same, _⟩
        cases same

/-- Two sequences whose parts correspond correspond. -/
theorem map_bind_congr {ε α α' β β' : Type} {first : Except ε α} {first' : Except ε α'}
    {next : α → Except ε β} {next' : α' → Except ε β'} {f : α → α'} {g : β → β'}
    (h : first.map f = first') (hnext : ∀ value, (next value).map g = next' (f value)) :
    (first >>= next).map g = first' >>= next' := by
  subst h
  cases first with
  | ok value => exact hnext value
  | error reason => rfl

/-- Only what follows a common first part has to correspond. -/
theorem bind_map_congr {ε α β β' : Type} {first : Except ε α} {next : α → Except ε β}
    {next' : α → Except ε β'} {g : β → β'} (hnext : ∀ value, (next value).map g = next' value) :
    (first >>= next).map g = first >>= next' := by
  cases first with
  | ok value => exact hnext value
  | error reason => rfl

end NetProg
