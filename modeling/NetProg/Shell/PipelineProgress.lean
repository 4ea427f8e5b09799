import NetProg.Lib.FinSum
import NetProg.Shell.Pipeline

/-!
# Which pipelines cannot deadlock the shell

While the parent waits for command `i - 2`, that command and the two after it can hand on their
bytes only into the three pipes behind them: `3 * capacity` bytes and one in each of the two
readers.  A pipeline of at least four commands whose first command writes more than that can reach
a state in which nobody can move; every other one cannot.
-/

namespace NetProg

namespace Parent

/-- How many commands have been forked. -/
def forks (count : Nat) : Parent → Nat
  | .close i => i
  | .fork i => i
  | .wait i => i + 1
  | _ => count

/-- The commands below this number have been waited for. -/
def waitedBelow (count : Nat) : Parent → Nat
  | .close i => i - 2
  | .fork i => i - 2
  | .wait i => i - 2
  | .closeLast => count - 2
  | .waitLast => count - 2
  | .done => count

/-- The parent has no copies of the pipes below this number. -/
def hasFrom (count : Nat) : Parent → Nat
  | .close i => i - 2
  | .fork i => i - 1
  | .wait i => i - 1
  | .closeLast => count - 2
  | _ => count - 1

/-- The turn is one of the loop. -/
def InLoop (count : Nat) : Parent → Prop
  | .close i => i < count
  | .fork i => i < count
  | .wait i => i < count
  | _ => True

end Parent

namespace Pipeline

/-- What holds of the parent in every reachable state. -/
structure Turn (count : Nat) (parent : Parent) (forked : Nat) (finished parentHas : Nat → Bool) :
    Prop where
  inLoop : parent.InLoop count
  forks : forked = parent.forks count
  waited : ∀ i, i < parent.waitedBelow count → finished i = true
  has : ∀ i, parentHas i = true → parent.hasFrom count ≤ i ∧ i + 1 < count

/-- What holds of the commands and the pipes in every reachable state. -/
structure Commands (count bytes forked : Nat) (held pipe : Nat → Nat) (finished : Nat → Bool)
    (printed : Nat) : Prop where
  born : ∀ i, finished i = true → i < forked
  order : ∀ i, finished (i + 1) = true → finished i = true
  idle : ∀ i, finished i = true → held i = 0
  drained : ∀ i, finished (i + 1) = true → pipe i = 0
  unborn : ∀ i, forked ≤ i → (i ≠ 0 → held i = 0) ∧ pipe i = 0
  total : ∑ i ∈ Finset.range count, (held i + pipe i) + printed = bytes

structure Inv (count bytes : Nat) (s : Pipeline) : Prop where
  turn : Turn count s.parent s.forked s.finished s.parentHas
  commands : Commands count bytes s.forked s.held s.pipe s.finished s.printed

variable {count capacity block bytes : Nat} {s s' : Pipeline}

theorem inv_start (some : 1 ≤ count) : Inv count bytes (start bytes) := by
  refine ⟨⟨some, rfl, ?_, by simp [start]⟩, ⟨by simp [start], by simp [start], by simp [start],
    by simp [start], ?_, ?_⟩⟩
  · intro i below
    simp [start, Parent.waitedBelow] at below
  · intro i _
    exact ⟨fun later => by simp [start, later], rfl⟩
  · have first : 0 ∈ Finset.range count := Finset.mem_range.mpr some
    have alone : ∀ i ∈ Finset.range count, i ≠ 0 →
        (start bytes).held i + (start bytes).pipe i = 0 := by
      intro i _ later
      simp [start, later]
    rw [Finset.sum_eq_single_of_mem 0 first alone]
    simp [start]

section ParentSteps

variable {forked i : Nat} {held pipe : Nat → Nat} {finished parentHas : Nat → Bool} {printed : Nat}

theorem turn_close (turn : Turn count (.close i) forked finished parentHas) :
    Turn count (.fork i) forked finished
      (if 2 ≤ i then Function.update parentHas (i - 2) false else parentHas) := by
  obtain ⟨inLoop, forks, waited, had⟩ := turn
  refine ⟨inLoop, forks, waited, ?_⟩
  intro j has
  simp only [Parent.hasFrom] at had ⊢
  by_cases later : 2 ≤ i
  · simp only [if_pos later, Function.update_apply] at has
    split at has
    · cases has
    · have bound := had j has
      omega
  · simp only [if_neg later] at has
    have bound := had j has
    omega

theorem turn_fork (turn : Turn count (.fork i) forked finished parentHas) :
    Turn count (.wait i) (i + 1) finished
      (if i + 1 < count then Function.update parentHas i true else parentHas) := by
  obtain ⟨inLoop, -, waited, had⟩ := turn
  refine ⟨inLoop, rfl, waited, ?_⟩
  intro j has
  simp only [Parent.hasFrom] at had ⊢
  by_cases inner : i + 1 < count
  · simp only [if_pos inner, Function.update_apply] at has
    split at has
    · omega
    · exact had j has
  · simp only [if_neg inner] at has
    exact had j has

theorem turn_wait (turn : Turn count (.wait i) forked finished parentHas)
    (waited : 2 ≤ i → finished (i - 2) = true) :
    Turn count (if i + 1 < count then .close (i + 1) else .closeLast) forked finished parentHas := by
  obtain ⟨within, forks, before, had⟩ := turn
  simp only [Parent.InLoop, Parent.forks, Parent.waitedBelow, Parent.hasFrom] at within forks before had
  have below : ∀ j, j < i - 1 → finished j = true := by
    intro j less
    by_cases new : j = i - 2
    · subst new
      exact waited (by omega)
    · exact before j (by omega)
  by_cases more : i + 1 < count
  · rw [if_pos more]
    refine ⟨more, forks, ?_, ?_⟩
    · intro j less
      exact below j (by simp only [Parent.waitedBelow] at less; omega)
    · intro j has
      have bound := had j has
      simp only [Parent.hasFrom]
      omega
  · rw [if_neg more]
    refine ⟨trivial, ?_, ?_, ?_⟩
    · simp only [Parent.forks]
      omega
    · intro j less
      exact below j (by simp only [Parent.waitedBelow] at less; omega)
    · intro j has
      have bound := had j has
      simp only [Parent.hasFrom]
      omega

theorem turn_closeLast (turn : Turn count .closeLast forked finished parentHas) :
    Turn count .waitLast forked finished
      (if 2 ≤ count then Function.update parentHas (count - 2) false else parentHas) := by
  obtain ⟨-, forks, waited, had⟩ := turn
  refine ⟨trivial, forks, waited, ?_⟩
  intro j has
  simp only [Parent.hasFrom] at had ⊢
  by_cases several : 2 ≤ count
  · simp only [if_pos several, Function.update_apply] at has
    split at has
    · cases has
    · have bound := had j has
      omega
  · simp only [if_neg several] at has
    have bound := had j has
    omega

/-- All commands before a finished one are finished. -/
theorem Commands.finished_below (commands : Commands count bytes forked held pipe finished printed)
    {i j : Nat} (done : finished j = true) (less : i ≤ j) : finished i = true := by
  induction j with
  | zero =>
      obtain rfl := Nat.le_zero.mp less
      exact done
  | succ j ih =>
      rcases Nat.lt_or_eq_of_le less with before | same
      · exact ih (commands.order j done) (by omega)
      · rw [same]
        exact done

theorem turn_waitLast (turn : Turn count .waitLast forked finished parentHas)
    (commands : Commands count bytes forked held pipe finished printed)
    (waited : finished (count - 1) = true) :
    Turn count .done forked finished parentHas := by
  obtain ⟨-, forks, -, had⟩ := turn
  refine ⟨trivial, forks, ?_, had⟩
  intro j less
  exact commands.finished_below waited (by simp only [Parent.waitedBelow] at less; omega)

/-- More commands finish. -/
theorem turn_mono {parent : Parent} {finished' : Nat → Bool}
    (turn : Turn count parent forked finished parentHas)
    (more : ∀ j, finished j = true → finished' j = true) :
    Turn count parent forked finished' parentHas :=
  ⟨turn.inLoop, turn.forks, fun j less => more j (turn.waited j less), turn.has⟩

theorem commands_fork (commands : Commands count bytes i held pipe finished printed) :
    Commands count bytes (i + 1) held pipe finished printed :=
  ⟨fun j done => Nat.lt_succ_of_lt (commands.born j done), commands.order, commands.idle,
    commands.drained, fun j later => commands.unborn j (by omega), commands.total⟩

end ParentSteps

section CommandSteps

variable {forked i amount : Nat} {held pipe : Nat → Nat} {finished : Nat → Bool} {printed : Nat}

theorem commands_write (commands : Commands count bytes forked held pipe finished printed)
    (running : i < forked) (alive : finished i = false) (available : amount ≤ held i) :
    Commands count bytes forked (Function.update held i (held i - amount))
      (Function.update pipe i (pipe i + amount)) finished printed := by
  refine ⟨commands.born, commands.order, ?_, ?_, ?_, ?_⟩
  · intro j done
    have other : j ≠ i := by
      rintro rfl
      rw [done] at alive
      cases alive
    rw [Function.update_of_ne other]
    exact commands.idle j done
  · intro j done
    have other : j ≠ i := by
      rintro rfl
      rw [commands.order j done] at alive
      cases alive
    rw [Function.update_of_ne other]
    exact commands.drained j done
  · intro j later
    have other : j ≠ i := by omega
    rw [Function.update_of_ne other, Function.update_of_ne other]
    exact commands.unborn j later
  · rw [← commands.total]
    congr 1
    refine Finset.sum_congr rfl ?_
    intro j _
    by_cases same : j = i
    · subst same
      rw [Function.update_self, Function.update_self]
      omega
    · rw [Function.update_of_ne same, Function.update_of_ne same]

theorem commands_print (commands : Commands count bytes forked held pipe finished printed)
    (running : i < forked) (alive : finished i = false) (within : i < count)
    (available : amount ≤ held i) :
    Commands count bytes forked (Function.update held i (held i - amount)) pipe finished
      (printed + amount) := by
  refine ⟨commands.born, commands.order, ?_, commands.drained, ?_, ?_⟩
  · intro j done
    have other : j ≠ i := by
      rintro rfl
      rw [done] at alive
      cases alive
    rw [Function.update_of_ne other]
    exact commands.idle j done
  · intro j later
    have other : j ≠ i := by omega
    rw [Function.update_of_ne other]
    exact commands.unborn j later
  · have taken : ∑ j ∈ Finset.range count, (Function.update held i (held i - amount) j + pipe j) +
        amount = ∑ j ∈ Finset.range count, (held j + pipe j) := by
      refine sum_take (Finset.mem_range.mpr within) ?_
      intro j _
      by_cases same : j = i
      · subst same
        rw [Function.update_self, if_pos rfl]
        omega
      · rw [Function.update_of_ne same, if_neg same, Nat.add_zero]
    have total := commands.total
    omega

theorem commands_read (commands : Commands count bytes forked held pipe finished printed)
    (running : i + 1 < forked) (alive : finished (i + 1) = false) (within : i + 1 < count)
    (empty : held (i + 1) = 0) (available : amount ≤ pipe i) :
    Commands count bytes forked (Function.update held (i + 1) amount)
      (Function.update pipe i (pipe i - amount)) finished printed := by
  refine ⟨commands.born, commands.order, ?_, ?_, ?_, ?_⟩
  · intro j done
    have other : j ≠ i + 1 := by
      rintro rfl
      rw [done] at alive
      cases alive
    rw [Function.update_of_ne other]
    exact commands.idle j done
  · intro j done
    have other : j ≠ i := by
      rintro rfl
      rw [done] at alive
      cases alive
    rw [Function.update_of_ne other]
    exact commands.drained j done
  · intro j later
    have notReader : j ≠ i + 1 := by omega
    have notPipe : j ≠ i := by omega
    rw [Function.update_of_ne notReader, Function.update_of_ne notPipe]
    exact commands.unborn j later
  · rw [← commands.total]
    congr 1
    refine sum_move (b := amount) (Finset.mem_range.mpr (show i < count by omega))
      (Finset.mem_range.mpr within) ?_
    intro j _
    by_cases source : j = i
    · subst source
      rw [Function.update_of_ne (Nat.ne_of_lt (Nat.lt_succ_self j)), Function.update_self,
        if_pos rfl, if_neg (Nat.ne_of_lt (Nat.lt_succ_self j))]
      omega
    · rw [Function.update_of_ne source, if_neg source]
      by_cases reader : j = i + 1
      · subst reader
        rw [Function.update_self, if_pos rfl]
        omega
      · rw [Function.update_of_ne reader, if_neg reader]

theorem commands_exit (commands : Commands count bytes forked held pipe finished printed)
    (running : i < forked) (empty : held i = 0)
    (ended : ∀ j, j + 1 = i → finished j = true ∧ pipe j = 0) :
    Commands count bytes forked held pipe (Function.update finished i true) printed := by
  refine ⟨?_, ?_, ?_, ?_, commands.unborn, commands.total⟩
  · intro j done
    by_cases same : j = i
    · rw [same]
      exact running
    · rw [Function.update_of_ne same] at done
      exact commands.born j done
  · intro j done
    by_cases same : j = i
    · rw [same, Function.update_self]
    · rw [Function.update_of_ne same]
      by_cases next : j + 1 = i
      · exact (ended j next).1
      · rw [Function.update_of_ne next] at done
        exact commands.order j done
  · intro j done
    by_cases same : j = i
    · rw [same]
      exact empty
    · rw [Function.update_of_ne same] at done
      exact commands.idle j done
  · intro j done
    by_cases next : j + 1 = i
    · exact (ended j next).2
    · rw [Function.update_of_ne next] at done
      exact commands.drained j done

end CommandSteps

theorem Inv.forked_le (inv : Inv count bytes s) : s.forked ≤ count := by
  have within := inv.turn.inLoop
  rw [inv.turn.forks]
  cases parent : s.parent with
  | close i =>
      rw [parent] at within
      exact Nat.le_of_lt within
  | fork i =>
      rw [parent] at within
      exact Nat.le_of_lt within
  | wait i =>
      rw [parent] at within
      exact within
  | _ => exact Nat.le_refl count

theorem finished_update (finished : Nat → Bool) (i j : Nat) (done : finished j = true) :
    Function.update finished i true j = true := by
  rw [Function.update_apply]
  split
  · rfl
  · exact done

/-- Every step keeps the invariant. -/
theorem inv_step (inv : Inv count bytes s) (step : Step count capacity block s s') :
    Inv count bytes s' := by
  obtain ⟨turn, commands⟩ := inv
  cases step with
  | close i place =>
      rw [place] at turn
      exact ⟨turn_close turn, commands⟩
  | fork i place =>
      rw [place] at turn
      have forked := turn.forks
      simp only [Parent.forks] at forked
      rw [forked] at commands
      exact ⟨turn_fork turn, commands_fork commands⟩
  | wait i place waited =>
      rw [place] at turn
      exact ⟨turn_wait turn waited, commands⟩
  | closeLast place =>
      rw [place] at turn
      exact ⟨turn_closeLast turn, commands⟩
  | waitLast place waited =>
      rw [place] at turn
      exact ⟨turn_waitLast turn commands waited, commands⟩
  | write i amount running inner some available room =>
      exact ⟨turn, commands_write commands running.1 running.2 available⟩
  | print i amount running last some available =>
      exact ⟨turn, commands_print commands running.1 running.2 (by omega) available⟩
  | read i amount running idle some few available =>
      have within := Inv.forked_le ⟨turn, commands⟩
      have reader := running.1
      exact ⟨turn, commands_read commands reader running.2 (by omega) idle available⟩
  | exitFirst running idle =>
      exact ⟨turn_mono turn (finished_update s.finished 0),
        commands_exit commands running.1 idle (by omega)⟩
  | exit i running idle atEnd =>
      refine ⟨turn_mono turn (finished_update s.finished (i + 1)),
        commands_exit commands running.1 idle ?_⟩
      intro j next
      obtain rfl := Nat.succ.inj next
      exact ⟨atEnd.2.1, atEnd.1⟩

theorem inv_reachable (some : 1 ≤ count) (reached : Reachable count capacity block bytes s) :
    Inv count bytes s := by
  induction reached with
  | refl => exact inv_start some
  | tail _ step ih => exact inv_step ih step

/-- A command that has something to write, but not the last one, behind a full pipe. -/
def Blocked (count capacity : Nat) (s : Pipeline) (i : Nat) : Prop :=
  1 ≤ s.held i ∧ i + 1 < count ∧ capacity ≤ s.pipe i

/-- In a stuck state every running command that could read or has reached the end of its input is
blocked. -/
theorem blocked_of_stuck (room : 1 ≤ block) (stuck : ¬ ∃ s', Step count capacity block s s')
    {i : Nat} (running : s.Running i) (within : i < count)
    (fed : ∀ j, j + 1 = i → 1 ≤ s.pipe j ∨ s.AtEnd j) : Blocked count capacity s i := by
  have holds : 1 ≤ s.held i := by
    by_contra empty
    have idle : s.held i = 0 := by omega
    apply stuck
    cases i with
    | zero => exact ⟨_, .exitFirst running idle⟩
    | succ j =>
        rcases fed j rfl with some | atEnd
        · exact ⟨_, .read j 1 running idle (Nat.le_refl 1) room some⟩
        · exact ⟨_, .exit j running idle atEnd⟩
  have inner : i + 1 < count := by
    by_contra last
    exact stuck ⟨_, .print i 1 running (by omega) (Nat.le_refl 1) holds⟩
  refine ⟨holds, inner, ?_⟩
  by_contra space
  exact stuck ⟨_, .write i 1 running inner (Nat.le_refl 1) holds (by omega)⟩

/-- Three blocked commands in a row hold more than three pipes full. -/
theorem three_blocked (commands : Commands count bytes s.forked s.held s.pipe s.finished s.printed)
    {i : Nat} (first : Blocked count capacity s i) (second : Blocked count capacity s (i + 1))
    (third : Blocked count capacity s (i + 2)) : 3 * capacity + 3 ≤ bytes := by
  have subset : ({i, i + 1, i + 2} : Finset Nat) ⊆ Finset.range count := by
    intro j member
    have inner := third.2.1
    simp only [Finset.mem_insert, Finset.mem_singleton] at member
    exact Finset.mem_range.mpr (by omega)
  have part := Finset.sum_le_sum_of_subset (f := fun j => s.held j + s.pipe j) subset
  have three : ∑ j ∈ ({i, i + 1, i + 2} : Finset Nat), (s.held j + s.pipe j) =
      (s.held i + s.pipe i) + ((s.held (i + 1) + s.pipe (i + 1)) +
        (s.held (i + 2) + s.pipe (i + 2))) := by
    rw [Finset.sum_insert (by simp), Finset.sum_insert (by simp), Finset.sum_singleton]
  have total := commands.total
  obtain ⟨holds₀, -, full₀⟩ := first
  obtain ⟨holds₁, -, full₁⟩ := second
  obtain ⟨holds₂, -, full₂⟩ := third
  omega

/-- A stuck state needs four commands and more than three pipes full. -/
theorem large_of_stuck (space : 1 ≤ capacity) (room : 1 ≤ block) (inv : Inv count bytes s)
    (stuck : ¬ ∃ s', Step count capacity block s s') (unfinished : ¬ AllFinished count s) :
    4 ≤ count ∧ 3 * capacity + 3 ≤ bytes := by
  obtain ⟨turn, commands⟩ := inv
  have next : ∀ i, Blocked count capacity s i → s.Running (i + 1) →
      Blocked count capacity s (i + 1) := by
    intro i blocked running
    refine blocked_of_stuck room stuck running blocked.2.1 ?_
    intro j same
    obtain rfl := Nat.succ.inj same
    exact Or.inl (Nat.le_trans space blocked.2.2)
  cases parent : s.parent with
  | close i => exact absurd ⟨_, .close i parent⟩ stuck
  | fork i => exact absurd ⟨_, .fork i parent⟩ stuck
  | closeLast => exact absurd ⟨_, .closeLast parent⟩ stuck
  | done =>
      rw [parent] at turn
      have forked := turn.forks
      refine absurd (fun i within => ?_) unfinished
      exact ⟨by rw [forked]; exact within, turn.waited i within⟩
  | wait i =>
      rw [parent] at turn
      have within := turn.inLoop
      have forked := turn.forks
      simp only [Parent.InLoop, Parent.forks] at within forked
      have waiting : 2 ≤ i ∧ s.finished (i - 2) = false := by
        by_contra free
        refine stuck ⟨_, .wait i parent ?_⟩
        intro later
        by_contra alive
        exact free ⟨later, Bool.eq_false_iff.mpr alive⟩
      obtain ⟨later, alive⟩ := waiting
      obtain ⟨m, rfl⟩ : ∃ m, i = m + 2 := ⟨i - 2, by omega⟩
      simp only [Nat.add_sub_cancel] at alive
      have later : ∀ j, m ≤ j → s.finished j = false := by
        intro j above
        by_contra done
        rw [commands.finished_below (Bool.not_eq_false _ ▸ done) above] at alive
        cases alive
      have first : Blocked count capacity s m := by
        refine blocked_of_stuck room stuck ⟨by omega, alive⟩ (by omega) ?_
        intro j same
        have waited := turn.waited j (by simp only [Parent.waitedBelow]; omega)
        have closed : s.parentHas j = false := by
          by_contra had
          have bound := turn.has j (Bool.not_eq_false _ ▸ had)
          simp only [Parent.hasFrom] at bound
          omega
        rcases Nat.eq_zero_or_pos (s.pipe j) with empty | some
        · exact Or.inr ⟨empty, waited, closed⟩
        · exact Or.inl some
      have second := next m first ⟨by omega, later _ (by omega)⟩
      have third := next (m + 1) second ⟨by omega, later _ (by omega)⟩
      have inner := third.2.1
      exact ⟨by omega, three_blocked commands first second third⟩
  | waitLast =>
      rw [parent] at turn
      have forked := turn.forks
      simp only [Parent.forks] at forked
      have alive : s.finished (count - 1) = false := by
        by_contra done
        exact stuck ⟨_, .waitLast parent (Bool.not_eq_false _ ▸ done)⟩
      have closed : ∀ j, s.parentHas j = false := by
        intro j
        by_contra had
        have bound := turn.has j (Bool.not_eq_false _ ▸ had)
        simp only [Parent.hasFrom] at bound
        omega
      obtain ⟨m, rfl⟩ : ∃ m, count = m + 1 := by
        refine ⟨count - 1, ?_⟩
        by_contra none
        exact unfinished (fun i within => by omega)
      rw [Nat.add_sub_cancel] at alive
      -- the last command is never blocked, so it waits for the one before it
      have unfed : ¬ ∀ j, j + 1 = m → 1 ≤ s.pipe j ∨ s.AtEnd j := by
        intro fed
        have inner := (blocked_of_stuck room stuck ⟨by omega, alive⟩ (Nat.lt_succ_self m) fed).2.1
        omega
      push Not at unfed
      obtain ⟨j, rfl, empty, notEnd⟩ := unfed
      have before : s.finished j = false := by
        by_contra done
        exact notEnd ⟨by omega, Bool.not_eq_false _ ▸ done, closed j⟩
      have first : Blocked (j + 1 + 1) capacity s j := by
        refine blocked_of_stuck room stuck ⟨by omega, before⟩ (by omega) ?_
        intro l same
        have waited := turn.waited l (by simp only [Parent.waitedBelow]; omega)
        rcases Nat.eq_zero_or_pos (s.pipe l) with drained | some
        · exact Or.inr ⟨drained, waited, closed l⟩
        · exact Or.inl some
      have full := first.2.2
      omega

/-- A reachable state in which three commands have been forked, the parent waits for the first one,
and `a`, `x`, `b`, `y` and `c` bytes are in the first pipe, the second command, the second pipe, the
third command and the third pipe. -/
structure Filled (count capacity block bytes a x b y c : Nat) (s : Pipeline) : Prop where
  reached : Reachable count capacity block bytes s
  parent : s.parent = .wait 2
  forked : s.forked = 3
  alive : ∀ i, s.finished i = false
  left : s.held 0 + (a + x + b + y + c) = bytes
  held₁ : s.held 1 = x
  held₂ : s.held 2 = y
  pipe₀ : s.pipe 0 = a
  pipe₁ : s.pipe 1 = b
  pipe₂ : s.pipe 2 = c

namespace Filled

variable {a x b y c : Nat}

theorem init (long : 4 ≤ count) : ∃ s, Filled count capacity block bytes 0 0 0 0 0 s := by
  have steps := ((((((((Relation.ReflTransGen.refl : Reachable count capacity block bytes _).tail
    (.close 0 rfl)).tail (.fork 0 rfl)).tail (.wait 0 rfl (by simp))).tail
    (.close 1 (if_pos (by omega)))).tail (.fork 1 rfl)).tail (.wait 1 rfl (by simp))).tail
    (.close 2 (if_pos (by omega)))).tail (.fork 2 rfl)
  exact ⟨_, steps, rfl, rfl, fun _ => rfl, rfl, rfl, rfl, rfl, rfl, rfl⟩

/-- The first command writes a byte. -/
theorem produce (h : Filled count capacity block bytes a x b y c s) (long : 4 ≤ count)
    (room : a < capacity) (more : a + x + b + y + c < bytes) :
    ∃ s', Filled count capacity block bytes (a + 1) x b y c s' := by
  obtain ⟨reached, parent, forked, alive, left, held₁, held₂, pipe₀, pipe₁, pipe₂⟩ := h
  refine ⟨_, reached.tail (.write 0 1 ⟨by omega, alive 0⟩ (by omega) (Nat.le_refl 1) (by omega)
    (by omega)), parent, forked, alive, ?_, held₁, held₂, ?_, pipe₁, pipe₂⟩
  · simp only [Function.update_self]
    omega
  · simp only [Function.update_self, pipe₀]

/-- The second command reads a byte. -/
theorem read₁ (h : Filled count capacity block bytes (a + 1) 0 b y c s) (some : 1 ≤ block) :
    ∃ s', Filled count capacity block bytes a 1 b y c s' := by
  obtain ⟨reached, parent, forked, alive, left, held₁, held₂, pipe₀, pipe₁, pipe₂⟩ := h
  refine ⟨_, reached.tail (.read 0 1 ⟨by omega, alive 1⟩ held₁ (Nat.le_refl 1) some (by omega)),
    parent, forked, alive, ?_, rfl, held₂, ?_, pipe₁, pipe₂⟩
  · change s.held 0 + (a + 1 + b + y + c) = bytes
    omega
  · simp only [Function.update_self, pipe₀, Nat.add_sub_cancel]

/-- The second command writes a byte. -/
theorem write₁ (h : Filled count capacity block bytes a (x + 1) b y c s) (long : 4 ≤ count)
    (room : b < capacity) : ∃ s', Filled count capacity block bytes a x (b + 1) y c s' := by
  obtain ⟨reached, parent, forked, alive, left, held₁, held₂, pipe₀, pipe₁, pipe₂⟩ := h
  refine ⟨_, reached.tail (.write 1 1 ⟨by omega, alive 1⟩ (by omega) (Nat.le_refl 1) (by omega)
    (by omega)), parent, forked, alive, ?_, ?_, held₂, pipe₀, ?_, pipe₂⟩
  · change s.held 0 + (a + x + (b + 1) + y + c) = bytes
    omega
  · simp only [Function.update_self, held₁, Nat.add_sub_cancel]
  · simp only [Function.update_self, pipe₁]

/-- The third command reads a byte. -/
theorem read₂ (h : Filled count capacity block bytes a x (b + 1) 0 c s) (some : 1 ≤ block) :
    ∃ s', Filled count capacity block bytes a x b 1 c s' := by
  obtain ⟨reached, parent, forked, alive, left, held₁, held₂, pipe₀, pipe₁, pipe₂⟩ := h
  refine ⟨_, reached.tail (.read 1 1 ⟨by omega, alive 2⟩ held₂ (Nat.le_refl 1) some (by omega)),
    parent, forked, alive, ?_, held₁, rfl, pipe₀, ?_, pipe₂⟩
  · change s.held 0 + (a + x + b + 1 + c) = bytes
    omega
  · simp only [Function.update_self, pipe₁, Nat.add_sub_cancel]

/-- The third command writes a byte. -/
theorem write₂ (h : Filled count capacity block bytes a x b (y + 1) c s) (long : 4 ≤ count)
    (room : c < capacity) : ∃ s', Filled count capacity block bytes a x b y (c + 1) s' := by
  obtain ⟨reached, parent, forked, alive, left, held₁, held₂, pipe₀, pipe₁, pipe₂⟩ := h
  refine ⟨_, reached.tail (.write 2 1 ⟨by omega, alive 2⟩ (by omega) (Nat.le_refl 1) (by omega)
    (by omega)), parent, forked, alive, ?_, held₁, ?_, pipe₀, pipe₁, ?_⟩
  · change s.held 0 + (a + x + b + y + (c + 1)) = bytes
    omega
  · simp only [Function.update_self, held₂, Nat.add_sub_cancel]
  · simp only [Function.update_self, pipe₂]

/-- A byte goes from the first command into the second pipe. -/
theorem carry₁ (h : Filled count capacity block bytes 0 0 b y c s) (long : 4 ≤ count)
    (some : 1 ≤ block) (space : 1 ≤ capacity) (room : b < capacity) (more : b + y + c < bytes) :
    ∃ s', Filled count capacity block bytes 0 0 (b + 1) y c s' := by
  obtain ⟨s₁, h₁⟩ := h.produce long space (by omega)
  obtain ⟨s₂, h₂⟩ := h₁.read₁ some
  exact h₂.write₁ long room

/-- A byte goes from the first command into the third one. -/
theorem carry₂ (h : Filled count capacity block bytes 0 0 0 0 c s) (long : 4 ≤ count)
    (some : 1 ≤ block) (space : 1 ≤ capacity) (more : c < bytes) :
    ∃ s', Filled count capacity block bytes 0 0 0 1 c s' := by
  obtain ⟨s₁, h₁⟩ := h.carry₁ long some space space (by omega)
  exact h₁.read₂ some

/-- The pipes fill up from the last one to the first. -/
theorem fill₂ (long : 4 ≤ count) (some : 1 ≤ block) (space : 1 ≤ capacity) (within : c ≤ capacity)
    (more : c ≤ bytes) : ∃ s, Filled count capacity block bytes 0 0 0 0 c s := by
  induction c with
  | zero => exact init long
  | succ c ih =>
      obtain ⟨s, h⟩ := ih (by omega) (by omega)
      obtain ⟨s₁, h₁⟩ := h.carry₂ long some space (by omega)
      exact h₁.write₂ long (by omega)

theorem fill₁ (long : 4 ≤ count) (some : 1 ≤ block) (space : 1 ≤ capacity) (within : b ≤ capacity)
    (more : b + 1 + capacity ≤ bytes) :
    ∃ s, Filled count capacity block bytes 0 0 b 1 capacity s := by
  induction b with
  | zero =>
      obtain ⟨s, h⟩ : ∃ s, Filled count capacity block bytes 0 0 0 0 capacity s :=
        fill₂ long some space (Nat.le_refl capacity) (by omega)
      exact h.carry₂ long some space (by omega)
  | succ b ih =>
      obtain ⟨s, h⟩ := ih (by omega) (by omega)
      exact h.carry₁ long some space (by omega) (by omega)

theorem fill₀ (long : 4 ≤ count) (some : 1 ≤ block) (space : 1 ≤ capacity) (within : a ≤ capacity)
    (more : a + 1 + capacity + 1 + capacity ≤ bytes) :
    ∃ s, Filled count capacity block bytes a 1 capacity 1 capacity s := by
  induction a with
  | zero =>
      obtain ⟨s, h⟩ : ∃ s, Filled count capacity block bytes 0 0 capacity 1 capacity s :=
        fill₁ long some space (Nat.le_refl capacity) (by omega)
      obtain ⟨s₁, h₁⟩ := h.produce long space (by omega)
      exact h₁.read₁ some
  | succ a ih =>
      obtain ⟨s, h⟩ := ih (by omega) (by omega)
      exact h.produce long (by omega) (by omega)

/-- With all three pipes full and both readers holding a byte nobody can move. -/
theorem stuck (h : Filled count capacity block bytes capacity 1 capacity 1 capacity s)
    (long : 4 ≤ count) (more : 3 * capacity + 3 ≤ bytes) :
    ¬ ∃ s', Step count capacity block s s' := by
  obtain ⟨reached, parent, forked, alive, left, held₁, held₂, pipe₀, pipe₁, pipe₂⟩ := h
  intro moves
  obtain ⟨s', step⟩ := moves
  cases step with
  | close i place => cases parent.symm.trans place
  | fork i place => cases parent.symm.trans place
  | closeLast place => cases parent.symm.trans place
  | waitLast place waited => cases parent.symm.trans place
  | wait i place waited =>
      cases parent.symm.trans place
      have done := waited (Nat.le_refl 2)
      rw [alive] at done
      cases done
  | write i amount running inner some available room =>
      have below := running.1
      obtain rfl | rfl | rfl : i = 0 ∨ i = 1 ∨ i = 2 := by omega
      all_goals omega
  | print i amount running last some available =>
      have below := running.1
      omega
  | read i amount running idle some few available =>
      have below := running.1
      obtain rfl | rfl : i = 0 ∨ i = 1 := by omega
      · rw [held₁] at idle
        cases idle
      · rw [held₂] at idle
        cases idle
  | exitFirst running idle => omega
  | exit i running idle atEnd =>
      have done := atEnd.2.1
      rw [alive] at done
      cases done

end Filled

theorem deadlock (long : 4 ≤ count) (some : 1 ≤ block) (space : 1 ≤ capacity)
    (more : 3 * capacity + 3 ≤ bytes) : ¬ NeverStuck count capacity block bytes := by
  intro never
  obtain ⟨s, h⟩ : ∃ s, Filled count capacity block bytes capacity 1 capacity 1 capacity s :=
    Filled.fill₀ long some space (Nat.le_refl capacity) (by omega)
  refine h.stuck long more (never s h.reached ?_)
  intro all
  have done := (all 0 (by omega)).2
  rw [h.alive] at done
  cases done

/-- The shell gets every pipeline to its end exactly when there are at most three commands or the
first one writes at most three pipes full and two bytes. -/
theorem neverStuck_iff (some : 1 ≤ count) (space : 1 ≤ capacity) (room : 1 ≤ block) :
    NeverStuck count capacity block bytes ↔ count ≤ 3 ∨ bytes ≤ 3 * capacity + 2 := by
  constructor
  · intro never
    by_contra large
    exact deadlock (by omega) room space (by omega) never
  · intro small s reached unfinished
    by_contra stuck
    have large := large_of_stuck space room (inv_reachable some reached) stuck unfinished
    omega

theorem neverStuck_three : NeverStuck 3 65536 4096 1000000 ↔ 3 ≤ 3 ∨ 1000000 ≤ 3 * 65536 + 2 :=
  neverStuck_iff (by decide) (by decide) (by decide)

/-- Four commands, pipes of one byte and six bytes of output. -/
theorem four_commands_stuck : ¬ NeverStuck 4 1 1 6 :=
  deadlock (by decide) (by decide) (by decide) (by decide)

end Pipeline

end NetProg
