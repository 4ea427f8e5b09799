import NetProg.Shell.PipeTable
import NetProg.Shell.Ticks

/-!
# Numbered pipes over whole runs

`NumberedPipesRefine` says that the ring of a shell behaves as the table of `maker` in a run: which
pipe the front slot holds, which pipe the first command of a line reads and which one its last command
writes.  The accounts of the shell follow the table as long as no slot comes back, so a run that
agrees with them refines it.
-/

namespace NetProg

variable {σ : Type}

/-- The pipe that `runShell` takes from the front slot for a line: none if no line made one, else the
open pipe of the line that did.  With `<i` the line takes nothing from the slot. -/
def FrontRefines (made : Option Nat) (pipeOf : Nat → Nat) (session : Nat) (t : Tick σ) : Prop :=
  match made with
  | none => t.before.handler.numberPipeList.next.front = .cleared
  | some line => 0 < t.cl.readUid ∨
      HoldsPipe t.before.proc t.before.handler.numberPipeList.next.front session (pipeOf line)

/-- What line `number` does; `terminal` is the standard input of the shell. -/
structure LineRefines (table : Nat → Option Nat) (pipeOf : Nat → Nat) (session : Nat)
    (terminal : Desc) (number : Nat) (t : Tick σ) : Prop where
  stdin : ¬ 0 < t.cl.readUid → ∃ child, t.children.head? = some child ∧
    child.fds.get 0 = some ((table number).elim terminal
      fun line => ⟨.pipeIn (pipeOf line), .user session⟩)
  stdout : ∀ T : Nat, t.cl.target = some ((T : Int) - number) →
    ∃ line child, table T = some line ∧ t.children.getLast? = some child ∧
      child.fds.get 1 = some ⟨.pipeOut (pipeOf line), .user session⟩
  created : ∀ T : Nat, t.cl.target = some ((T : Int) - number) → table T = some number →
    t.before.proc.nextPipe ≤ pipeOf number ∧ pipeOf number < t.after.proc.nextPipe

/-- The ring refines the table in a run: `pipeOf line` is the numbered pipe that `line` made. -/
def NumberedPipesRefine (session : Nat) (terminal : Desc) (ticks : List (Tick σ)) : Prop :=
  ∃ pipeOf : Nat → Nat, ∀ i t, ticks[i]? = some t →
    FrontRefines (maker (ticks.map Tick.cl) (i + 1)) pipeOf session t ∧
    LineRefines (maker (ticks.map Tick.cl)) pipeOf session terminal (i + 1) t

namespace Account

/-- Accounts of command lines that follow each other, with `exit` between some of them. -/
inductive Linked : Account → List AccountStep → Account → Prop
  | nil (a : Account) : Linked a [] a
  | exit {a b : Account} {xs : List AccountStep} (later : Linked a.exit xs b) : Linked a xs b
  | cons {a after b : Account} {cl : NpCommandLine} {xs : List AccountStep}
      (fits : a.line cl = some after) (later : Linked after xs b) : Linked a (⟨cl, a, after⟩ :: xs) b

theorem Linked.trans {a b c : Account} {xs ys : List AccountStep} (first : Linked a xs b)
    (later : Linked b ys c) : Linked a (xs ++ ys) c := by
  induction first with
  | nil => exact later
  | exit _ ih => exact .exit (ih later)
  | cons fits _ ih => exact .cons fits (ih later)

theorem linked_steps {queue : List NpCommandLine} {a after : Account}
    (fits : a.queue queue = some after) : Linked a (a.steps queue) after := by
  induction queue generalizing a with
  | nil =>
      cases fits
      exact .nil _
  | cons cl queue ih =>
      obtain ⟨middle, first, later⟩ := Option.bind_eq_some_iff.mp fits
      rw [steps, first]
      exact .cons first (ih later)

/-- The first lines of a queue that fits fit. -/
theorem queue_take {queue : List NpCommandLine} {a after : Account}
    (fits : a.queue queue = some after) (k : Nat) :
    ∃ middle, a.queue (queue.take k) = some middle := by
  induction queue generalizing a k with
  | nil => exact ⟨a, by rw [List.take_nil]; rfl⟩
  | cons cl queue ih =>
      cases k with
      | zero => exact ⟨a, rfl⟩
      | succ k =>
          obtain ⟨mid, first, later⟩ := Option.bind_eq_some_iff.mp fits
          obtain ⟨middle, taken⟩ := ih later k
          refine ⟨middle, ?_⟩
          rw [List.take_succ_cons, Account.queue, first]
          exact taken

/-- The account follows the table of the command lines so far. -/
structure Follows (lines : List NpCommandLine) (a : Account) : Prop where
  number : a.number = lines.length
  slots : Slots.Follow lines a.slots
  last : ∀ n, a.last = some n → 1 ≤ n ∧ n ≤ 1023 ∧
    ∃ T : Nat, (T : Int) = lines.length + n ∧ maker lines T ≠ none

/-- What the table says of line `number`. -/
structure StepFollows (table : Nat → Option Nat) (number : Nat) (x : AccountStep) : Prop where
  front : match table number with
    | none => x.before.slots.next.front = .fresh
    | some line => 0 < x.cl.readUid ∨ x.before.slots.next.front = .pending line
  aimed : ∀ T : Nat, x.cl.target = some ((T : Int) - number) →
    ∃ line, table T = some line ∧ x.after.slots.get (sizeT ((T : Int) - number)) = .pending line

theorem follows_init : Follows [] .init where
  number := rfl
  slots := Slots.follow_init
  last := fun _ none => by cases none

section Step

variable {lines more : List NpCommandLine} {a after : Account} {cl : NpCommandLine}

theorem Follows.exit (h : Follows lines a) : Follows lines a.exit := by
  obtain ⟨number, slots, last⟩ := a
  cases last with
  | none => exact h
  | some n =>
      obtain ⟨low, high, T, aim, made⟩ := h.last n rfl
      exact ⟨h.number, h.slots.exit aim low high made, fun _ none => by cases none⟩

/-- A line that fits does what the table says, and the account follows the table past it. -/
theorem Follows.line (h : Follows lines a) (range : InRange (lines ++ [cl]))
    (free : NoReuse (lines ++ [cl])) (fits : a.line cl = some after) :
    Follows (lines ++ [cl]) after ∧
      StepFollows (maker (lines ++ [cl])) (lines.length + 1) ⟨cl, a, after⟩ := by
  obtain ⟨slots, lived, rfl⟩ := Option.map_eq_some_iff.mp fits
  rw [h.number] at lived
  obtain ⟨taken, took, aimed⟩ := Option.bind_eq_some_iff.mp lived
  have length : (lines ++ [cl]).length = lines.length + 1 := by simp
  refine ⟨⟨by rw [length, ← h.number], h.slots.line range free lived, ?_⟩, ?_, ?_⟩
  · intro n target
    change cl.target = some n at target
    obtain ⟨low, high⟩ := range cl (by simp) n target
    obtain ⟨T, aim⟩ : ∃ T : Nat, (T : Int) = (lines.length + 1 : Nat) + n :=
      ⟨((lines.length + 1 : Nat) + n).toNat, by omega⟩
    have back : n = (T : Int) - (lines.length + 1 : Nat) := by omega
    obtain ⟨line, -, made⟩ := maker_aimed (back ▸ target)
    exact ⟨low, high, T, by rw [length, aim], by rw [made]; simp⟩
  · rw [maker_next range]
    exact h.slots.front free took
  · intro T target
    obtain ⟨head, -, line, made, pending⟩ := h.slots.aims range free took aimed target
    refine ⟨line, made, ?_⟩
    rw [← pending]
    exact Slots.get_lifeAt head (by omega)

/-- Later lines change nothing. -/
theorem StepFollows.append {x : AccountStep} (range : InRange (lines ++ [cl] ++ more))
    (h : StepFollows (maker (lines ++ [cl])) (lines.length + 1) x) :
    StepFollows (maker (lines ++ [cl] ++ more)) (lines.length + 1) x where
  front := by
    have same : maker (lines ++ [cl] ++ more) (lines.length + 1) =
        maker (lines ++ [cl]) (lines.length + 1) := by
      rw [List.append_assoc] at range ⊢
      rw [maker_next range, ← maker_next (List.append_assoc lines _ more ▸ range).shorter]
    rw [same]
    exact h.front
  aimed T target := by
    obtain ⟨line, made, pending⟩ := h.aimed T target
    exact ⟨line, maker_mono more made, pending⟩

end Step

/-- The rule for a run of command lines, by induction on them. -/
theorem Linked.follows {lines : List NpCommandLine} {a b : Account} {xs : List AccountStep}
    (linked : Linked a xs b) (h : Follows lines a) (range : InRange (lines ++ xs.map AccountStep.cl))
    (free : NoReuse (lines ++ xs.map AccountStep.cl)) {i : Nat} {x : AccountStep}
    (found : xs[i]? = some x) :
    StepFollows (maker (lines ++ xs.map AccountStep.cl)) (lines.length + i + 1) x := by
  induction linked generalizing lines i with
  | nil => cases found
  | exit _ ih => exact ih h.exit range free found
  | @cons a after b cl xs fits _ ih =>
      have split : lines ++ AccountStep.cl ⟨cl, a, after⟩ :: xs.map AccountStep.cl =
          lines ++ [cl] ++ xs.map AccountStep.cl := by
        rw [List.append_assoc]
        rfl
      rw [List.map_cons, split] at range free ⊢
      obtain ⟨after, here⟩ := h.line range.shorter free.shorter fits
      cases i with
      | zero =>
          cases found
          exact here.append range
      | succ i =>
          have later := ih after range free found
          rw [List.length_append, List.length_singleton] at later
          rw [show lines.length + (i + 1) + 1 = lines.length + 1 + i + 1 by omega]
          exact later

end Account

/-- The command lines did what the accounts of their shell say. -/
def RunAgreed (session : Nat) (terminal : Desc) (ticks : List (Tick σ)) : Prop :=
  ∃ xs a, Account.Linked .init xs a ∧
    List.Forall₂ (TickAgrees session terminal (Tick.MadeIn ticks)) ticks xs

section Agreed

variable {session : Nat} {terminal : Desc} {ticks : List (Tick σ)} {xs : List AccountStep}

theorem agreed_cls {made : Nat → Nat → Prop}
    (agree : List.Forall₂ (TickAgrees session terminal made) ticks xs) :
    xs.map AccountStep.cl = ticks.map Tick.cl := by
  induction agree with
  | nil => rfl
  | cons first _ ih => rw [List.map_cons, List.map_cons, first.cl, ih]

theorem agreed_at {made : Nat → Nat → Prop} {i : Nat} {t : Tick σ}
    (agree : List.Forall₂ (TickAgrees session terminal made) ticks xs) (found : ticks[i]? = some t) :
    ∃ x, xs[i]? = some x ∧ TickAgrees session terminal made t x := by
  induction agree generalizing i with
  | nil => cases found
  | cons first _ ih =>
      cases i with
      | zero =>
          cases found
          exact ⟨_, rfl, first⟩
      | succ i => exact ih found

/-- A run that agrees with its accounts, in which no slot comes back, refines the table. -/
theorem RunAgreed.refines (agreed : RunAgreed session terminal ticks)
    (range : InRange (ticks.map Tick.cl)) (free : NoReuse (ticks.map Tick.cl)) :
    NumberedPipesRefine session terminal ticks := by
  obtain ⟨xs, a, linked, agree⟩ := agreed
  obtain ⟨pipeOf, named⟩ : ∃ pipeOf : Nat → Nat, ∀ {line pipe}, Tick.MadeIn ticks line pipe →
      pipeOf line = pipe :=
    ⟨fun line => (ticks[line - 1]?.bind Tick.numbered).getD 0, fun made => by simp [made.2]⟩
  refine ⟨pipeOf, fun i t found => ?_⟩
  obtain ⟨x, there, here⟩ := agreed_at agree found
  rw [← agreed_cls agree] at range free ⊢
  have follows := linked.follows Account.follows_init range free there
  rw [List.length_nil, Nat.zero_add, List.nil_append] at follows
  have front := follows.front
  have pipe := here.front
  refine ⟨?_, ?_, ?_, ?_⟩
  · unfold FrontRefines
    rw [here.cl]
    cases made : maker (xs.map AccountStep.cl) (i + 1) with
    | none =>
        rw [made] at front
        rw [front] at pipe
        exact pipe
    | some line =>
        rw [made] at front
        rcases front with used | pending
        · exact Or.inl used
        · rw [pending] at pipe
          obtain ⟨number, maker, holds⟩ := pipe
          rw [← named maker] at holds
          exact Or.inr holds
  · intro off
    rw [here.cl] at off
    obtain ⟨child, first, stdin⟩ := here.reads off
    refine ⟨child, first, ?_⟩
    cases made : maker (xs.map AccountStep.cl) (i + 1) with
    | none =>
        rw [made] at front
        rw [front] at stdin
        exact stdin _ (Multiset.mem_singleton_self _)
    | some line =>
        rw [made] at front
        rw [front.resolve_left off] at stdin
        obtain ⟨number, maker, input⟩ := stdin
        rw [Option.elim_some, named maker]
        exact input
  · intro T target
    rw [here.cl] at target
    obtain ⟨line, made, pending⟩ := follows.aimed T target
    obtain ⟨child, last, line', number, life, maker, output⟩ := here.writes _ target
    rw [pending] at life
    cases life
    exact ⟨line, child, made, last, by rw [named maker]; exact output⟩
  · intro T target own
    rw [here.cl] at target
    obtain ⟨line, made, pending⟩ := follows.aimed T target
    cases own.symm.trans made
    obtain ⟨child, last, line', number, life, maker, output⟩ := here.writes _ target
    rw [pending] at life
    cases life
    rw [named maker]
    exact maker.within found

end Agreed

end NetProg
