import NetProg.Console.Application

/-!
# One command per prompt, and everything shown

The prompt test looks at the whole buffer of a read, and the buffer is cleared between reads.  So a
prompt counts only inside one read, two prompts in one read count once, and what comes behind the
last read is not shown.
-/

namespace NetProg.CGI

open Text (getline lines includes occurrences lines_eq_nil lines_eq_cons occurrences_append_append
  occurrences_le_append)

/-- The commands of a test case. -/
def commands (input : Text) : List Text := (lines input).map (· ++ ['\n'])

/-- After every chunk, the k-th line was sent exactly when the k-th prompt has arrived. -/
def OneCommandPerPrompt (write : WriteSome) (input : Text) (chunks : List Text) : Prop :=
  ∀ n, n ≤ chunks.length → (Application.session write input (chunks.take n)).sent =
    (commands input).take (occurrences prompt (chunks.take n).flatten)

/-- The prompts that a chunk completes after a stream. -/
def arrived (stream chunk : Text) : Nat :=
  occurrences prompt (stream ++ chunk) - occurrences prompt stream

/-- The write with this number transmits the whole command. -/
def Whole (write : WriteSome) (k : Nat) (command : Text) : Prop :=
  ∃ n, write k command.length = some n ∧ command.length ≤ n

/-- As long as lines are left: every prompt arrives within one read (`read` is what the outstanding
one has), no read but the one for the last line brings two of them, and the command that answers
it is written whole. -/
def Timely (write : WriteSome) : Nat → List Text → Text → Text → List Text → Prop
  | _, _, _, _, [] => True
  | _, [], _, _, _ :: _ => True
  | k, line :: rest, stream, read, chunk :: chunks =>
    if includes prompt (read ++ chunk) then
      (arrived stream chunk = 1 ∨ rest = []) ∧ Whole write k (line ++ ['\n']) ∧
        Timely write (k + 1) rest (stream ++ chunk) [] chunks
    else
      arrived stream chunk = 0 ∧
        Timely write k (line :: rest) (stream ++ chunk)
          (if '\n' ∈ read ++ chunk then [] else read ++ chunk) chunks

theorem arrived_append (stream chunk more : Text) :
    arrived stream (chunk ++ more) = arrived stream chunk + arrived (stream ++ chunk) more := by
  have first := occurrences_le_append prompt stream chunk
  have second := occurrences_le_append prompt (stream ++ chunk) more
  simp only [arrived, ← List.append_assoc]
  omega

theorem arrived_nil (stream : Text) : arrived stream [] = 0 := by
  rw [arrived, List.append_nil, Nat.sub_self]

/-- A prompt that is inside the buffer only now is new in the stream. -/
theorem arrived_pos (past : Text) {read chunk : Text} (before : includes prompt read = false)
    (prompted : includes prompt (read ++ chunk) = true) : 0 < arrived (past ++ read) chunk := by
  have both := occurrences_append_append prompt past read chunk
  simp only [includes, decide_eq_false_iff_not, decide_eq_true_eq] at before prompted
  rw [arrived, List.append_assoc]
  omega

/-- A property of every front of a list, one element at a time. -/
theorem forall_take_cons {α : Type} {p : List α → Prop} {x : α} {xs : List α} :
    (∀ n, n ≤ (x :: xs).length → p ((x :: xs).take n)) ↔
      p [] ∧ ∀ n, n ≤ xs.length → p (x :: xs.take n) := by
  constructor
  · intro every
    exact ⟨every 0 (Nat.zero_le _), fun n inside => every (n + 1) (Nat.succ_le_succ inside)⟩
  · intro both n inside
    cases n with
    | zero => exact both.1
    | succ n => exact both.2 n (Nat.le_of_succ_le_succ inside)

/-- Of the commands, the first was given and the others follow. -/
theorem take_first {α : Type} {x : α} {xs : List α} {n m : Nat} (some : 0 < n)
    (one : n = 1 ∨ xs = []) : (x :: xs).take (n + m) = x :: xs.take m := by
  rcases one with rfl | rfl
  · rw [Nat.add_comm, List.take_succ_cons]
  · obtain ⟨k, rfl⟩ := Nat.exists_eq_succ_of_ne_zero (Nat.pos_iff_ne_zero.mp some)
    rw [Nat.succ_add, List.take_succ_cons, List.take_nil, List.take_nil]

theorem eq_take_iff {α : Type} {x y : α} {xs : List α} {n : Nat} (some : 0 < n) :
    [y] = (x :: xs).take n ↔ y = x ∧ (n = 1 ∨ xs = []) := by
  obtain ⟨k, rfl⟩ := Nat.exists_eq_succ_of_ne_zero (Nat.pos_iff_ne_zero.mp some)
  rw [List.take_succ_cons, List.cons.injEq, eq_comm (a := ([] : List α)), List.take_eq_nil_iff,
    Nat.succ_eq_add_one, Nat.add_eq_right]

namespace Application

/-- Without a line left nothing is sent. -/
theorem foldl_exhausted (write : WriteSome) {a : Application} (last : getline a.cgiInput = none)
    (chunks : List Text) : (chunks.foldl (receive write) a).sent = a.sent := by
  induction chunks generalizing a with
  | nil => rfl
  | cons chunk chunks ih =>
      rw [List.foldl_cons]
      cases reading : a.reading with
      | false => rw [receive_idle write reading, ih last]
      | true =>
          cases prompted : includes prompt (a.shellOutput ++ chunk) with
          | false =>
              rw [receive_plain write reading prompted]
              split
              · exact ih last
              · exact ih last
          | true =>
              rw [receive_last write reading prompted last]
              exact ih last

/-- The commands sent for these chunks are those for the prompts that arrived with them. -/
def InStep (write : WriteSome) (a : Application) (stream : Text) (chunks : List Text) : Prop :=
  (chunks.foldl (receive write) a).sent =
    a.sent ++ (commands a.cgiInput).take (arrived stream chunks.flatten)

theorem inStep_nil (write : WriteSome) (a : Application) (stream : Text) :
    InStep write a stream [] := by
  simp [InStep, arrived_nil]

/-- The fronts of chunks: the first chunk keeps step, and then the others do. -/
theorem inStep_cons {write : WriteSome} {a : Application} {stream chunk : Text}
    {chunks : List Text} (moves : InStep write a stream [chunk] → ∀ more,
      (InStep write a stream (chunk :: more) ↔
        InStep write (a.receive write chunk) (stream ++ chunk) more)) :
    (∀ n, n ≤ (chunk :: chunks).length → InStep write a stream ((chunk :: chunks).take n)) ↔
      InStep write a stream [chunk] ∧ ∀ n, n ≤ chunks.length →
        InStep write (a.receive write chunk) (stream ++ chunk) (chunks.take n) := by
  rw [forall_take_cons (p := InStep write a stream), and_iff_right (inStep_nil write a stream)]
  constructor
  · intro every
    have first := every 0 (Nat.zero_le _)
    exact ⟨first, fun n inside => (moves first _).mp (every n inside)⟩
  · intro both n inside
    exact (moves both.1 _).mpr (both.2 n inside)

/-- A chunk without a prompt keeps step when it completes none in the stream. -/
theorem inStep_plain {write : WriteSome} {a : Application} {stream chunk : Text}
    (left : lines a.cgiInput ≠ []) (sent : (a.receive write chunk).sent = a.sent)
    (input : (a.receive write chunk).cgiInput = a.cgiInput) (chunks : List Text) :
    (∀ n, n ≤ (chunk :: chunks).length → InStep write a stream ((chunk :: chunks).take n)) ↔
      arrived stream chunk = 0 ∧ ∀ n, n ≤ chunks.length →
        InStep write (a.receive write chunk) (stream ++ chunk) (chunks.take n) := by
  have due : InStep write a stream [chunk] ↔ arrived stream chunk = 0 := by
    rw [InStep, List.foldl_cons, List.foldl_nil, sent, List.flatten_singleton, List.self_eq_append_right,
      List.take_eq_nil_iff, commands, List.map_eq_nil_iff, or_iff_left left]
  rw [← due]
  apply inStep_cons
  intro first more
  rw [InStep, InStep, List.foldl_cons, sent, input, List.flatten_cons, arrived_append,
    due.mp first, Nat.zero_add]

/-- A chunk with a prompt keeps step when it brings one command, and this is written whole. -/
theorem inStep_prompt {write : WriteSome} {a : Application} {stream chunk line rest : Text}
    (reading : a.reading = true) (prompted : includes prompt (a.shellOutput ++ chunk) = true)
    (command : getline a.cgiInput = some (line, rest)) (new : 0 < arrived stream chunk)
    (chunks : List Text) :
    (∀ n, n ≤ (chunk :: chunks).length → InStep write a stream ((chunk :: chunks).take n)) ↔
      (arrived stream chunk = 1 ∨ lines rest = []) ∧ Whole write a.sent.length (line ++ ['\n']) ∧
        ∀ n, n ≤ chunks.length →
          InStep write (a.receive write chunk) (stream ++ chunk) (chunks.take n) := by
  have given : commands a.cgiInput = (line ++ ['\n']) :: commands rest := by
    rw [commands, lines_eq_cons.mpr ⟨rest, command, rfl⟩]
    rfl
  have step := receive_command write reading prompted command
  cases transmitted : write a.sent.length (line ++ ['\n']).length with
  | none =>
      apply iff_of_false
      · intro every
        have first : InStep write a stream [chunk] := every 1 (Nat.succ_le_succ (Nat.zero_le _))
        rw [InStep, List.foldl_cons, List.foldl_nil, step, transmitted, given] at first
        have empty := (List.self_eq_append_right.mp first)
        rw [List.take_eq_nil_iff, List.flatten_singleton] at empty
        rcases empty with none | none
        · omega
        · cases none
      · intro both
        obtain ⟨-, ⟨n, written, -⟩, -⟩ := both
        rw [transmitted] at written
        cases written
  | some n =>
      rw [transmitted] at step
      have sent : (a.receive write chunk).sent = a.sent ++ [(line ++ ['\n']).take n] := by
        rw [step]
        rfl
      have input : (a.receive write chunk).cgiInput = rest := by
        rw [step]
        rfl
      have due : InStep write a stream [chunk] ↔ (line ++ ['\n']).take n = line ++ ['\n'] ∧
          (arrived stream chunk = 1 ∨ commands rest = []) := by
        rw [InStep, List.foldl_cons, List.foldl_nil, sent, List.flatten_singleton, given,
          List.append_right_inj, eq_take_iff new]
      have whole : Whole write a.sent.length (line ++ ['\n']) ↔
          (line ++ ['\n']).take n = line ++ ['\n'] := by
        constructor
        · intro found
          obtain ⟨m, written, enough⟩ := found
          rw [transmitted] at written
          cases written
          exact List.take_of_length_le enough
        · intro same
          refine ⟨n, transmitted, ?_⟩
          have length := congrArg List.length same
          rw [List.length_take] at length
          omega
      rw [inStep_cons, due, whole, commands, List.map_eq_nil_iff, and_assoc, and_left_comm]
      intro first more
      obtain ⟨same, one⟩ := due.mp first
      rw [InStep, InStep, List.foldl_cons, sent, same, input, List.flatten_cons, arrived_append,
        given, take_first new one, List.append_assoc]
      rfl

/-- From an outstanding read on, the commands follow the prompts exactly when they are timely. -/
theorem inStep_iff (write : WriteSome) {a : Application} {past : Text} (reading : a.reading = true)
    (before : includes prompt a.shellOutput = false) (chunks : List Text) :
    (∀ n, n ≤ chunks.length → InStep write a (past ++ a.shellOutput) (chunks.take n)) ↔
      Timely write a.sent.length (lines a.cgiInput) (past ++ a.shellOutput) a.shellOutput
        chunks := by
  induction chunks generalizing a past with
  | nil =>
      rw [Timely]
      refine iff_of_true (fun n inside => ?_) trivial
      rw [List.take_nil]
      exact inStep_nil write a _
  | cons chunk chunks ih =>
      cases left : lines a.cgiInput with
      | nil =>
          rw [Timely]
          refine iff_of_true (fun n inside => ?_) trivial
          rw [InStep, foldl_exhausted write (lines_eq_nil.mp left), commands, left]
          simp
      | cons line rest =>
          obtain ⟨later, command, rfl⟩ := lines_eq_cons.mp left
          rw [Timely]
          cases prompted : includes prompt (a.shellOutput ++ chunk) with
          | false =>
              have step := receive_plain write reading prompted
              have sent : (a.receive write chunk).sent = a.sent := by
                rw [step]
                split <;> rfl
              have input : (a.receive write chunk).cgiInput = a.cgiInput := by
                rw [step]
                split <;> rfl
              rw [if_neg Bool.false_ne_true, inStep_plain (by simp [left]) sent input, ← left, step]
              by_cases newline : '\n' ∈ a.shellOutput ++ chunk
              · rw [if_pos newline, if_pos newline, ← List.append_nil (past ++ a.shellOutput ++ chunk)]
                exact and_congr_right' (ih (a := { a with
                    shellOutput := [], shown := a.shown ++ [a.shellOutput ++ chunk] }) reading rfl)
              · rw [if_neg newline, if_neg newline, List.append_assoc]
                exact and_congr_right' (ih
                  (a := { a with shellOutput := a.shellOutput ++ chunk }) reading prompted)
          | true =>
              have new := arrived_pos past before prompted
              rw [if_pos rfl, inStep_prompt reading prompted command new]
              refine and_congr_right' (and_congr_right fun whole => ?_)
              obtain ⟨n, transmitted, enough⟩ := whole
              have step := receive_command write reading prompted command
              rw [transmitted] at step
              rw [step, ← List.append_nil (past ++ a.shellOutput ++ chunk)]
              have length : (a.sent ++ [(line ++ ['\n']).take n]).length = a.sent.length + 1 := by
                simp
              rw [← length]
              exact ih rfl rfl

end Application

/-- One command is sent per prompt exactly when the prompts are timely. -/
theorem oneCommandPerPrompt_iff (write : WriteSome) (input : Text) (chunks : List Text) :
    OneCommandPerPrompt write input chunks ↔ Timely write 0 (lines input) [] [] chunks := by
  have run := @Application.inStep_iff write
    (Application.handleShellInteraction { cgiInput := input }) [] rfl rfl chunks
  refine Iff.trans (forall₂_congr fun n inside => ?_) run
  rw [Application.InStep, arrived]
  rfl

/-- The prompt comes in two reads: the first ends with the newline before it. -/
theorem cut_prompt_unanswered :
    ¬ OneCommandPerPrompt (fun _ n => some n) ['l', 's', '\n'] [['a', '\n', '%'], [' ']] := by
  intro every
  exact absurd (every 2 (Nat.le_refl 2)) (by decide)

/-- The contents shown until the end of the stream are the stream. -/
def AllShown (write : WriteSome) (input : Text) (chunks : List Text) : Prop :=
  (Application.session write input chunks).close.shown.flatten = chunks.flatten

/-- Every byte comes with a completed read: none is left in the outstanding read (`read` is what
that one has), and none comes behind the prompt that finds no line left or whose answer cannot be
written. -/
def ReadToTheEnd (write : WriteSome) : Nat → List Text → Text → List Text → Prop
  | _, _, read, [] => read = []
  | k, left, read, chunk :: chunks =>
    if includes prompt (read ++ chunk) then
      match left with
      | [] => chunks = []
      | line :: rest =>
        if (write k (line ++ ['\n']).length).isSome then ReadToTheEnd write (k + 1) rest [] chunks
        else chunks = []
    else ReadToTheEnd write k left (if '\n' ∈ read ++ chunk then [] else read ++ chunk) chunks

namespace Application

theorem flatten_concat (shown : List Text) (content : Text) :
    (shown ++ [content]).flatten = shown.flatten ++ content := by
  rw [List.flatten_append, List.flatten_singleton]

/-- When nobody reads on, everything was shown only if nothing comes any more. -/
theorem shown_idle (write : WriteSome) {a : Application} (idle : a.reading = false)
    {chunks : List Text} (solid : ∀ chunk ∈ chunks, chunk ≠ []) :
    (chunks.foldl (receive write) a).shown.flatten = a.shown.flatten ++ chunks.flatten ↔
      chunks = [] := by
  rw [foldl_idle write idle, List.self_eq_append_right, List.flatten_eq_nil_iff]
  constructor
  · intro empty
    rw [List.eq_nil_iff_forall_not_mem]
    intro chunk member
    exact solid chunk member (empty chunk member)
  · intro none chunk member
    rw [none] at member
    cases member

/-- From an outstanding read on, all of it is shown exactly when all of it is read. -/
theorem shown_iff (write : WriteSome) {a : Application} (reading : a.reading = true)
    {chunks : List Text} (solid : ∀ chunk ∈ chunks, chunk ≠ []) :
    (chunks.foldl (receive write) a).shown.flatten =
        a.shown.flatten ++ (a.shellOutput ++ chunks.flatten) ↔
      ReadToTheEnd write a.sent.length (lines a.cgiInput) a.shellOutput chunks := by
  induction chunks generalizing a with
  | nil => rw [ReadToTheEnd, List.foldl_nil, List.flatten_nil, List.append_nil,
      List.self_eq_append_right]
  | cons chunk chunks ih =>
      have solid' : ∀ chunk ∈ chunks, chunk ≠ [] := fun c member =>
        solid c (List.mem_cons_of_mem _ member)
      rw [ReadToTheEnd.eq_def, List.foldl_cons, List.flatten_cons,
        ← List.append_assoc a.shellOutput, ← List.append_assoc]
      dsimp only
      cases prompted : includes prompt (a.shellOutput ++ chunk) with
      | false =>
          rw [if_neg Bool.false_ne_true, receive_plain write reading prompted]
          by_cases newline : '\n' ∈ a.shellOutput ++ chunk
          · rw [if_pos newline, if_pos newline, ← flatten_concat]
            exact ih (a := { a with
              shellOutput := [], shown := a.shown ++ [a.shellOutput ++ chunk] }) reading solid'
          · rw [if_neg newline, if_neg newline, List.append_assoc]
            exact ih (a := { a with shellOutput := a.shellOutput ++ chunk }) reading solid'
      | true =>
          rw [if_pos rfl, ← flatten_concat]
          cases left : lines a.cgiInput with
          | nil =>
              rw [receive_last write reading prompted (lines_eq_nil.mp left)]
              exact shown_idle write rfl solid'
          | cons line rest =>
              obtain ⟨later, command, rfl⟩ := lines_eq_cons.mp left
              rw [receive_command write reading prompted command]
              cases transmitted : write a.sent.length (line ++ ['\n']).length with
              | none =>
                  simp only [transmitted, Option.isSome_none, Bool.false_eq_true, if_false]
                  exact shown_idle write rfl solid'
              | some n =>
                  have length : (a.sent ++ [(line ++ ['\n']).take n]).length =
                      a.sent.length + 1 := by simp
                  simp only [transmitted, Option.isSome_some, if_true]
                  rw [← length]
                  exact ih rfl solid'

end Application

/-- Everything is shown exactly when everything comes with a completed read. -/
theorem allShown_iff (write : WriteSome) (input : Text) {chunks : List Text}
    (solid : ∀ chunk ∈ chunks, chunk ≠ []) :
    AllShown write input chunks ↔ ReadToTheEnd write 0 (lines input) [] chunks :=
  Application.shown_iff write (a := Application.handleShellInteraction { cgiInput := input })
    rfl solid

theorem allShown_iff_prompt :
    AllShown (fun _ n => some n) ['l', 's', '\n'] [['%', ' '], ['a', '\n']] ↔
      ReadToTheEnd (fun _ n => some n) 0 (lines ['l', 's', '\n']) []
        [['%', ' '], ['a', '\n']] :=
  allShown_iff _ _ (by decide)

/-- The shell says goodbye without a newline and closes. -/
theorem last_words_lost : ¬ AllShown (fun _ n => some n) ['l', 's', '\n'] [['b', 'y', 'e']] := by
  show ¬ _ = _
  decide

end NetProg.CGI
