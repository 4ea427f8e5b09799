import NetProg.Shell.SlotLife

/-!
# The table of numbered pipes

What the ring is for: a table from absolute line numbers to pending pipes.  Lines are numbered
from 1; `maker` is the line that creates the pipe for line `T`, the first one that aims at it.
As long as no line number is used again 1024 lines later (`NoReuse`), the lives of the slots are
what the table says.
-/

namespace NetProg

/-- The first line that aims at line `T`, when the list begins with line `number`. -/
def makerFrom (number : Nat) : List NpCommandLine → Nat → Option Nat
  | [], _ => none
  | cl :: rest, T =>
      if cl.target = some ((T : Int) - number) then some number else makerFrom (number + 1) rest T

/-- The line that creates the numbered pipe for line `T`. -/
def maker (lines : List NpCommandLine) (T : Nat) : Option Nat := makerFrom 1 lines T

/-- Every numbered pipe aims between 1 and 1023 lines ahead. -/
def InRange (lines : List NpCommandLine) : Prop :=
  ∀ cl ∈ lines, ∀ n, cl.target = some n → 1 ≤ n ∧ n ≤ 1023

/-- Once some line has aimed at line `T`, line `T + 1024` is neither reached nor aimed at. -/
def NoReuse (lines : List NpCommandLine) : Prop :=
  ∀ T, maker lines T ≠ none → lines.length < T + 1024 ∧ maker lines (T + 1024) = none

theorem makerFrom_append (number : Nat) (lines more : List NpCommandLine) (T : Nat) :
    makerFrom number (lines ++ more) T =
      (makerFrom number lines T).or (makerFrom (number + lines.length) more T) := by
  induction lines generalizing number with
  | nil => simp [makerFrom]
  | cons cl rest ih =>
      simp only [List.cons_append, makerFrom, List.length_cons]
      split
      · rfl
      · rw [ih]
        congr 2
        omega

theorem maker_snoc (lines : List NpCommandLine) (cl : NpCommandLine) (T : Nat) :
    maker (lines ++ [cl]) T =
      (maker lines T).or
        (if cl.target = some ((T : Int) - (lines.length + 1 : Nat)) then some (lines.length + 1)
          else none) := by
  rw [maker, makerFrom_append]
  simp only [makerFrom, Nat.add_comm 1, maker]

/-- A maker is a line of the list that aims at `T`. -/
theorem makerFrom_aims {number : Nat} {lines : List NpCommandLine} {T line : Nat}
    (h : makerFrom number lines T = some line) :
    ∃ cl ∈ lines, cl.target = some ((T : Int) - line) ∧ number ≤ line ∧
      line < number + lines.length := by
  induction lines generalizing number with
  | nil => cases h
  | cons cl rest ih =>
      simp only [makerFrom] at h
      split at h
      · cases h
        exact ⟨cl, List.mem_cons_self, by assumption, Nat.le_refl _, by simp⟩
      · obtain ⟨cl', member, target, above, below⟩ := ih h
        exact ⟨cl', List.mem_cons_of_mem _ member, target, by omega, by
          rw [List.length_cons]
          omega⟩

theorem maker_aims {lines : List NpCommandLine} {T line : Nat}
    (h : maker lines T = some line) :
    ∃ cl ∈ lines, cl.target = some ((T : Int) - line) ∧ 1 ≤ line ∧ line ≤ lines.length := by
  obtain ⟨cl, member, target, above, below⟩ := makerFrom_aims h
  exact ⟨cl, member, target, above, by omega⟩

/-- Pipes are made for lines at most 1023 lines ahead. -/
theorem maker_near {lines : List NpCommandLine} (range : InRange lines) {T line : Nat}
    (h : maker lines T = some line) : line < T ∧ T ≤ lines.length + 1023 := by
  obtain ⟨cl, member, target, above, below⟩ := maker_aims h
  have bounds := range cl member _ target
  omega

/-- A longer list has the makers of a shorter one. -/
theorem maker_mono {lines : List NpCommandLine} (more : List NpCommandLine) {T line : Nat}
    (h : maker lines T = some line) : maker (lines ++ more) T = some line := by
  rw [maker] at h ⊢
  rw [makerFrom_append, h]
  rfl

/-- What the last line of a list aims at has a maker in that list. -/
theorem maker_aimed {lines : List NpCommandLine} {cl : NpCommandLine} {T : Nat}
    (target : cl.target = some ((T : Int) - (lines.length + 1 : Nat))) :
    ∃ line ≤ lines.length + 1, maker (lines ++ [cl]) T = some line := by
  cases found : maker (lines ++ [cl]) T with
  | none =>
      rw [maker_snoc, target, if_pos rfl, Option.or_eq_none_iff] at found
      cases found.2
  | some line =>
      obtain ⟨_, _, _, _, below⟩ := maker_aims found
      rw [List.length_append, List.length_singleton] at below
      exact ⟨line, below, rfl⟩

/-- The table at the next line depends on the lines before it only. -/
theorem maker_next {lines more : List NpCommandLine} (range : InRange (lines ++ more)) :
    maker (lines ++ more) (lines.length + 1) = maker lines (lines.length + 1) := by
  cases made : maker lines (lines.length + 1) with
  | some line => exact maker_mono more made
  | none =>
      cases later : maker (lines ++ more) (lines.length + 1) with
      | none => rfl
      | some line =>
          have below := (maker_near range later).1
          rw [maker, makerFrom_append] at later
          rw [maker] at made
          rw [made, Option.none_or] at later
          obtain ⟨cl, member, target, above, _⟩ := makerFrom_aims later
          omega

theorem NoReuse.shorter {lines more : List NpCommandLine} (h : NoReuse (lines ++ more)) :
    NoReuse lines := by
  intro T some
  obtain ⟨line, found⟩ := Option.ne_none_iff_exists'.mp some
  have later := h T (by rw [maker_mono more found]; simp)
  refine ⟨?_, ?_⟩
  · have length := later.1
    rw [List.length_append] at length
    omega
  · cases reused : maker lines (T + 1024) with
    | none => rfl
    | some line' =>
        have aimed := later.2
        rw [maker_mono more reused] at aimed
        cases aimed

theorem InRange.shorter {lines more : List NpCommandLine} (h : InRange (lines ++ more)) :
    InRange lines := fun cl member => h cl (List.mem_append_left _ member)

/-- The life of the slot for line `T`. -/
def Slots.lifeAt (slots : Slots) (T : Nat) : Life :=
  slots.buffer ⟨T % 1024, Nat.mod_lt _ (by decide)⟩

/-- The lives after some lines, as the table has them, for the next 1024 lines; `exit` closes the
pipe of a slot where the table still has a pending one. -/
structure Slots.Follow (lines : List NpCommandLine) (slots : Slots) : Prop where
  head : slots.head = lines.length % 1024
  pending : ∀ T line, lines.length < T → T ≤ lines.length + 1024 → maker lines T = some line →
    Slots.lifeAt slots T = .pending line ∨ Slots.lifeAt slots T = .spent
  fresh : ∀ T, lines.length < T → T ≤ lines.length + 1024 → maker lines T = none →
    (∀ earlier, earlier + 1024 = T → maker lines earlier = none) → Slots.lifeAt slots T = .fresh
  used : ∀ T, maker lines T ≠ none → Slots.lifeAt slots T ≠ .fresh

namespace Slots

theorem follow_init : Follow [] init where
  head := rfl
  pending := fun T line _ _ found => by cases found
  fresh := fun _ _ _ _ _ => rfl
  used := fun _ made => absurd rfl made

theorem front_next {slots : Slots} {number : Nat} (head : slots.head = number % 1024) :
    slots.next.front = Slots.lifeAt slots (number + 1) := by
  rw [CircularBuffer.front_eq, CircularBuffer.next_buffer, Slots.lifeAt]
  congr 1
  apply Fin.ext
  simp only [CircularBuffer.headSlot, CircularBuffer.next_head, circularBufferSize, head]
  omega

/-- The slot that line `number` aims at with `n`. -/
theorem get_lifeAt {slots : Slots} {number T : Nat} {n : Int} (head : slots.head = number % 1024)
    (aim : (T : Int) = number + n) : slots.get (sizeT n) = Slots.lifeAt slots T := by
  rw [CircularBuffer.get, Slots.lifeAt]
  congr 1
  apply Fin.ext
  have position := CircularBuffer.slot_sizeT slots n
  simp only [head] at position
  change (slots.slot (sizeT n)).val = T % 1024
  omega

theorem lifeAt_set {slots : Slots} {number T T' : Nat} {n : Int} (head : slots.head = number % 1024)
    (aim : (T : Int) = number + n) (life : Life) :
    Slots.lifeAt (slots.set (sizeT n) life) T' =
      if T' % 1024 = T % 1024 then life else Slots.lifeAt slots T' := by
  have position := CircularBuffer.slot_sizeT slots n
  simp only [head] at position
  have same : slots.slot (sizeT n) = ⟨T % 1024, Nat.mod_lt _ (by decide)⟩ := by
    apply Fin.ext
    change (slots.slot (sizeT n)).val = T % 1024
    omega
  rw [Slots.lifeAt, CircularBuffer.set_buffer, same, Function.update_apply]
  by_cases equal : T' % 1024 = T % 1024
  · simp [equal]
  · rw [if_neg equal, if_neg (fun h => equal (congrArg Fin.val h)), Slots.lifeAt]

/-- The two ways in which a line can aim at a slot: it makes a pipe there, or finds one that waits. -/
theorem aim_lifeAt {b after : Slots} {number T : Nat} {n : Int}
    (fits : aim number b (some n) = some after) (head : b.head = number % 1024)
    (aim : (T : Int) = number + n) :
    after.head = b.head ∧
      (∀ T', T' % 1024 ≠ T % 1024 → Slots.lifeAt after T' = Slots.lifeAt b T') ∧
      (Slots.lifeAt b T = .fresh ∧ Slots.lifeAt after T = .pending number ∨
        ∃ line, Slots.lifeAt b T = .pending line ∧ Slots.lifeAt after T = .pending line) := by
  simp only [Slots.aim, get_lifeAt head aim] at fits
  cases life : Slots.lifeAt b T with
  | fresh =>
      rw [life] at fits
      cases fits
      refine ⟨rfl, fun T' other => ?_, Or.inl ⟨rfl, ?_⟩⟩
      · rw [lifeAt_set head aim, if_neg other]
      · rw [lifeAt_set head aim, if_pos rfl]
  | pending line =>
      rw [life] at fits
      cases fits
      exact ⟨rfl, fun _ _ => rfl, Or.inr ⟨line, rfl, life⟩⟩
  | spent =>
      rw [life] at fits
      cases fits

variable {slots taken after : Slots} {lines : List NpCommandLine} {cl : NpCommandLine}

/-- Taking the front slot touches no other slot and leaves a fresh one fresh. -/
theorem Follow.take (h : Follow lines slots) (took : Slots.take cl slots.next = some taken) :
    taken.head = (lines.length + 1) % 1024 ∧
      (∀ T, T % 1024 ≠ (lines.length + 1) % 1024 → Slots.lifeAt taken T = Slots.lifeAt slots T) ∧
      (Slots.lifeAt slots (lines.length + 1) = .fresh →
        Slots.lifeAt taken (lines.length + 1) = .fresh) := by
  have head : slots.next.head = (lines.length + 1) % 1024 := by
    rw [CircularBuffer.next_head, h.head, circularBufferSize]
    omega
  have front := front_next h.head
  unfold Slots.take at took
  split at took
  · cases took
    exact ⟨head, fun _ _ => rfl, fun fresh => fresh⟩
  · split at took
    · cases took
      exact ⟨head, fun _ _ => rfl, fun fresh => fresh⟩
    · rename_i line pending
      cases took
      refine ⟨head, fun T other => ?_, fun fresh => ?_⟩
      · have here : ((lines.length + 1 : Nat) : Int) = (lines.length + 1 : Nat) + 0 := by omega
        exact (lifeAt_set head here .spent).trans (if_neg other)
      · rw [← front, pending] at fresh
        cases fresh
    · cases took

/-- A line number within reach of which one 1024 lines earlier was aimed at would be a reuse. -/
theorem once (free : NoReuse (lines ++ [cl])) {T : Nat}
    (reached : maker (lines ++ [cl]) T ≠ none ∨ T = lines.length + 1) :
    ∀ earlier, earlier + 1024 = T → maker lines earlier = none := by
  intro earlier sum
  cases made : maker lines earlier with
  | none => rfl
  | some line =>
      obtain ⟨later, unaimed⟩ := free earlier (by rw [maker_mono [cl] made]; simp)
      rw [List.length_append, List.length_singleton] at later
      rw [sum] at unaimed later
      rcases reached with aimed | last
      · exact absurd unaimed aimed
      · omega

/-- The front slot of a line, as the table has it: only with `<i` it may have been closed. -/
theorem Follow.front (h : Follow lines slots) (free : NoReuse (lines ++ [cl]))
    (took : Slots.take cl slots.next = some taken) :
    match maker lines (lines.length + 1) with
    | none => slots.next.front = .fresh
    | some line => 0 < cl.readUid ∨ slots.next.front = .pending line := by
  have front := front_next h.head
  cases made : maker lines (lines.length + 1) with
  | none => exact front.trans (h.fresh _ (Nat.lt_succ_self _) (by omega) made (once free (Or.inr rfl)))
  | some line =>
      by_cases used : 0 < cl.readUid
      · exact Or.inl used
      · refine Or.inr ?_
        rcases h.pending _ line (Nat.lt_succ_self _) (by omega) made with pending | spent
        · exact front.trans pending
        · exact absurd (front.trans spent) (take_usable took used)

/-- The table with a line that aims at `T₁`. -/
theorem maker_target {T T₁ : Nat} (target : cl.target = some ((T₁ : Int) - (lines.length + 1 : Nat))) :
    maker (lines ++ [cl]) T =
      (maker lines T).or (if T = T₁ then some (lines.length + 1) else none) := by
  rw [maker_snoc, target]
  congr 1
  by_cases equal : T = T₁
  · rw [if_pos equal, if_pos (by rw [equal])]
  · rw [if_neg equal, if_neg (by simp only [Option.some.injEq]; omega)]

/-- What a line that fits does to the slot it aims at and to the others. -/
theorem Follow.aims (h : Follow lines slots) (range : InRange (lines ++ [cl]))
    (free : NoReuse (lines ++ [cl])) (took : Slots.take cl slots.next = some taken)
    (aimed : Slots.aim (lines.length + 1) taken cl.target = some after) {T₁ : Nat}
    (target : cl.target = some ((T₁ : Int) - (lines.length + 1 : Nat))) :
    after.head = (lines.length + 1) % 1024 ∧
      (∀ T, T % 1024 ≠ T₁ % 1024 → Slots.lifeAt after T = Slots.lifeAt taken T) ∧
      ∃ line, maker (lines ++ [cl]) T₁ = some line ∧ Slots.lifeAt after T₁ = .pending line := by
  obtain ⟨head, others, -⟩ := h.take took
  obtain ⟨low, high⟩ := range cl (by simp) _ target
  have aim : (T₁ : Int) = (lines.length + 1 : Nat) + ((T₁ : Int) - (lines.length + 1 : Nat)) := by
    omega
  rw [target] at aimed
  obtain ⟨same, apart, here⟩ := aim_lifeAt aimed head aim
  obtain ⟨line, -, made⟩ := maker_aimed target
  refine ⟨same.trans head, apart, line, made, ?_⟩
  have before : Slots.lifeAt taken T₁ = Slots.lifeAt slots T₁ := others T₁ (by omega)
  rw [before] at here
  have once := once free (T := T₁) (Or.inl (by rw [made]; simp))
  rw [maker_target target, if_pos rfl] at made
  cases older : maker lines T₁ with
  | none =>
      rw [older] at made
      cases made
      have fresh := h.fresh T₁ (by omega) (by omega) older once
      rcases here with ⟨-, pending⟩ | ⟨line', pending, -⟩
      · exact pending
      · rw [fresh] at pending
        cases pending
  | some line' =>
      rw [older] at made
      cases made
      rcases here with ⟨fresh, -⟩ | ⟨line', found, pending⟩
      · exact absurd fresh (h.used T₁ (by rw [older]; simp))
      · rcases h.pending T₁ _ (by omega) (by omega) older with waits | spent
        · rw [found] at waits
          rw [pending, waits]
        · rw [found] at spent
          cases spent

/-- The lives follow the table past a line that fits. -/
theorem Follow.line (h : Follow lines slots) (range : InRange (lines ++ [cl]))
    (free : NoReuse (lines ++ [cl])) (fits : Slots.line (lines.length + 1) cl slots = some after) :
    Follow (lines ++ [cl]) after := by
  obtain ⟨taken, took, aimed⟩ := Option.bind_eq_some_iff.mp fits
  obtain ⟨head, others, front⟩ := h.take took
  have frontFresh : maker (lines ++ [cl]) (lines.length + 1) = none →
      Slots.lifeAt taken (lines.length + 1) = .fresh := by
    intro none
    refine front (h.fresh _ (Nat.lt_succ_self _) (by omega) ?_ (once free (Or.inr rfl)))
    rw [maker_snoc, Option.or_eq_none_iff] at none
    exact none.1
  have near : ∀ T line, maker (lines ++ [cl]) T = some line → T ≤ lines.length + 1 + 1023 := by
    intro T line made
    have bound := (maker_near range made).2
    rw [List.length_append, List.length_singleton] at bound
    omega
  cases target : cl.target with
  | none =>
      have same : ∀ T, maker (lines ++ [cl]) T = maker lines T := by
        intro T
        rw [maker_snoc, target]
        simp
      rw [target] at aimed
      obtain rfl : taken = after := Option.some.inj aimed
      refine ⟨by rw [List.length_append, List.length_singleton, head], ?_, ?_,
        fun T made => Slots.take_used took (h.used T (same T ▸ made))⟩
      · intro T line after within made
        rw [List.length_append, List.length_singleton] at after within
        have bound := near T line made
        rw [others T (by omega)]
        exact h.pending T line (by omega) (by omega) (same T ▸ made)
      · intro T after within none earlier
        rw [List.length_append, List.length_singleton] at after within
        -- the slot of line number + 1024 is the front slot
        by_cases wrap : T = lines.length + 1 + 1024
        · have equal : Slots.lifeAt taken T = Slots.lifeAt taken (lines.length + 1) := by
            simp only [Slots.lifeAt, wrap, Nat.add_mod_right]
          rw [equal]
          exact frontFresh (earlier _ wrap.symm)
        · rw [others T (by omega)]
          exact h.fresh T (by omega) (by omega) (same T ▸ none)
            (fun past sum => same past ▸ earlier past sum)
  | some n =>
      obtain ⟨low, high⟩ := range cl (by simp) n target
      obtain ⟨T₁, aim⟩ : ∃ T₁ : Nat, (T₁ : Int) = (lines.length + 1 : Nat) + n :=
        ⟨((lines.length + 1 : Nat) + n).toNat, by omega⟩
      have target' : cl.target = some ((T₁ : Int) - (lines.length + 1 : Nat)) := by
        rw [target, aim]
        congr 1
        omega
      obtain ⟨head', others', line₁, made₁, here⟩ := h.aims range free took aimed target'
      refine ⟨by rw [List.length_append, List.length_singleton, head'], ?_, ?_, ?_⟩
      · intro T line later within made
        rw [List.length_append, List.length_singleton] at later within
        by_cases equal : T = T₁
        · subst equal
          cases made₁.symm.trans made
          exact Or.inl here
        · have bound := near T line made
          rw [others' T (by omega), others T (by omega)]
          rw [maker_target target', if_neg equal, Option.or_none] at made
          exact h.pending T line (by omega) (by omega) made
      · intro T later within none earlier
        rw [List.length_append, List.length_singleton] at later within
        have different : T ≠ T₁ := by
          rintro rfl
          rw [made₁] at none
          cases none
        by_cases wrap : T = lines.length + 1 + 1024
        · have equal : Slots.lifeAt after T = Slots.lifeAt after (lines.length + 1) := by
            simp only [Slots.lifeAt, wrap, Nat.add_mod_right]
          rw [equal, others' _ (by omega)]
          exact frontFresh (earlier _ wrap.symm)
        · rw [others' T (by omega), others T (by omega)]
          rw [maker_target target', if_neg different, Option.or_none] at none
          refine h.fresh T (by omega) (by omega) none (fun past sum => ?_)
          have unmade := earlier past sum
          rw [maker_target target', Option.or_eq_none_iff] at unmade
          exact unmade.1
      · intro T made
        by_cases equal : T = T₁
        · subst equal
          rw [here]
          simp
        · rw [maker_target target', if_neg equal, Option.or_none] at made
          exact Slots.aim_used aimed (Slots.take_used took (h.used T made))

/-- `exit` closes the pipe that the last line aimed at. -/
theorem Follow.exit (h : Follow lines slots) {n : Int} {T : Nat}
    (aim : (T : Int) = lines.length + n) (low : 1 ≤ n) (high : n ≤ 1023) (made : maker lines T ≠ none) :
    Follow lines (slots.set (sizeT n) .spent) where
  head := h.head
  pending T' line later within found := by
    rw [lifeAt_set h.head aim]
    split
    · exact Or.inr rfl
    · exact h.pending T' line later within found
  fresh T' later within none earlier := by
    rw [lifeAt_set h.head aim, if_neg]
    · exact h.fresh T' later within none earlier
    · intro same
      have equal : T' = T := by omega
      exact made (equal ▸ none)
  used T' found := by
    rw [lifeAt_set h.head aim]
    split
    · simp
    · exact h.used T' found

end Slots

end NetProg
