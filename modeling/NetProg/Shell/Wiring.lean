import NetProg.Shell.Forks

/-!
# How the commands of a line are wired

`runShell` carries the pipes of a line through two variables, `prevPipe` and `currPipe`, which name
the same descriptors when nothing stands behind a command.  Then `Pipe::write` meets numbers that
`Pipe::read` has just closed, and leaves the terminal in place.  `joints` says how the commands of a
line should be joined, `forkPoints` are the states in which the loop forks them.
-/

namespace NetProg

/-- What a standard descriptor of a command is connected to. -/
inductive Wire where
  | terminal
  | pipe (number : Nat)
  | file (name : Text)
  deriving DecidableEq, Repr

/-- A command with the element behind it and its two ends. -/
structure Joint where
  argv : List Text
  next : Option ICommand
  stdin : Wire
  stdout : Wire

/-- What a command writes to.  `pipes` pipes have been created, and `slot` is the pipe that is already
stored for a number. -/
def outputWire (slot : Int → Option Nat) (pipes : Nat) : Option ICommand → Wire
  | some .pipe => .pipe pipes
  | some (.file name) => .file name
  | some (.numbered number _) => .pipe ((slot number).getD pipes)
  | _ => .terminal

/-- What the command behind this element reads. -/
def inputWire (pipes : Nat) : ICommand → Wire
  | .pipe => .pipe pipes
  | _ => .terminal

/-- The commands of a line with their ends; `input` is what the first of them reads. -/
def joints (slot : Int → Option Nat) (pipes : Nat) (input : Wire) : List ICommand → List Joint
  | [] => []
  | .exe argv :: rest =>
      ⟨argv, rest.head?, input, outputWire slot pipes rest.head?⟩ ::
        match rest with
        | [] => []
        | sep :: rest =>
            joints slot (pipes + if sep = .pipe then 1 else 0) (inputWire pipes sep) rest
  | _ :: rest => joints slot pipes input rest

namespace ShellState

variable {σ : Type}

/-- The states in which the loop over the commands forks. -/
def forkPoints (calls : UserPipeCalls σ) (line : Text) (cl : NpCommandLine) :
    List ICommand → ShellState σ → List (ShellState σ)
  | [], _ => []
  | .exe argv :: rest, s =>
      match s.shiftPipes.connect calls line cl rest.head? with
      | .error _ => []
      | .ok (s, pipeErr) => s :: forkPoints calls line cl rest (s.forkCommand argv pipeErr)
  | _ :: rest, s => forkPoints calls line cl rest s

end ShellState

/-- The objects that a command finds on its standard descriptors. -/
def Wire.input : Wire → Object
  | .terminal => .std 0
  | .pipe number => .pipeIn number
  | .file name => .file name

def Wire.output : Wire → Object
  | .terminal => .std 1
  | .pipe number => .pipeOut number
  | .file name => .file name

/-- The object under a number. -/
def objectAt (t : FdTable Desc) (n : Nat) : Option Object := (t.get n).map Desc.object

/-- The child that is forked in `s` is joined to the others as it should be. -/
structure Wired {σ : Type} (joint : Joint) (s : ShellState σ) : Prop where
  stdin : objectAt (s.childOf joint.argv joint.next).fds 0 = some joint.stdin.input
  /-- a file that could be opened -/
  stdout : (∀ name, joint.stdout = .file name → s.handler.currPipe.outFd ≠ none) →
    objectAt (s.childOf joint.argv joint.next).fds 1 = some joint.stdout.output
  joined : (∃ number, joint.next = some (.numbered number true)) →
    (s.childOf joint.argv joint.next).fds.get 2 = (s.childOf joint.argv joint.next).fds.get 1
  apart : (∀ number, joint.next ≠ some (.numbered number true)) →
    objectAt (s.childOf joint.argv joint.next).fds 2 = some (.std 2)
  stored : ∀ number err, joint.next = some (.numbered number err) →
    s.handler.numberPipeList.get (sizeT number) = s.handler.currPipe
  closed : ∀ n, s.handler.prevPipe.Uses n ∨ s.handler.currPipe.Uses n →
    (s.childOf joint.argv joint.next).fds.get n = none

/-- The pipe whose read end is in a `Pipe`. -/
def pipeOf (t : FdTable Desc) (p : Pipe) : Option Nat :=
  match (p.inFd.bind t.get).map Desc.object with
  | some (.pipeIn pipe) => some pipe
  | _ => none

/-- The `Pipe` holds both ends of a pipe. -/
def IsPipe (t : FdTable Desc) (p : Pipe) (pipe : Nat) : Prop :=
  ∃ first second owner owner', p = ⟨some first, some second⟩ ∧
    t.get first = some ⟨.pipeIn pipe, owner⟩ ∧ t.get second = some ⟨.pipeOut pipe, owner'⟩

/-- A shell between two lines: the standard descriptors are the terminal, `prevPipe` is empty, the slots
of the ring that are not empty hold open pipes, and different ones different pipes. -/
structure ShellState.Ready {σ : Type} (s : ShellState σ) : Prop where
  terminal : ∀ n < 3, objectAt s.proc.fds n = some (.std n)
  prevPipe : s.handler.prevPipe = .cleared
  slots : ∀ i, s.handler.numberPipeList.buffer i ≠ .cleared →
    ∃ pipe, IsPipe s.proc.fds (s.handler.numberPipeList.buffer i) pipe
  different : ∀ i j pipe, i ≠ j → IsPipe s.proc.fds (s.handler.numberPipeList.buffer i) pipe →
    ¬ IsPipe s.proc.fds (s.handler.numberPipeList.buffer j) pipe

/-- A file that is opened gets a number that was free. -/
theorem Proc.openFile_fresh (k : Proc) (name : Text) :
    (∀ b, (k.openFile name).1 = some b → k.fds.get b = none ∧
      objectAt (k.openFile name).2.fds b = some (.file name)) ∧
      (∀ n d, k.fds.get n = some d → (k.openFile name).2.fds.get n = some d) ∧
      (k.openFile name).2.nextPipe = k.nextPipe := by
  have kept : ∀ n d, k.fds.get n = some d →
      (k.fds.insert ⟨.file name, .user k.serving⟩).get n = some d := by
    intro n d found
    have other : n ≠ k.fds.lowest := by
      rintro rfl
      rw [FdTable.get_lowest] at found
      cases found
    rw [FdTable.insert, FdTable.get_set, if_neg other, found]
  unfold Proc.openFile
  split
  · unfold Proc.openObject
    split
    · refine ⟨fun b same => ?_, kept, rfl⟩
      obtain rfl : k.fds.lowest = b := Option.some.inj same
      exact ⟨FdTable.get_lowest _, by simp [objectAt, FdTable.insert]⟩
    · refine ⟨fun b same => ?_, fun _ _ found => found, rfl⟩
      cases same
  · refine ⟨fun b same => ?_, fun _ _ found => found, rfl⟩
    cases same

namespace Pipe

theorem get_closeIn_used {p : Pipe} {t : FdTable Desc} {n : Nat} (used : p.Uses n) :
    (p.closeIn t).get n = none := by
  obtain ⟨a, b⟩ := p
  rcases used with same | same
  · obtain rfl : a = some n := same
    cases b with
    | none => simp [closeIn, FdTable.close]
    | some m =>
        by_cases also : n = m
        · simp [closeIn, FdTable.close, also]
        · simp [closeIn, FdTable.close, also]
  · obtain rfl : b = some n := same
    simp [closeIn, FdTable.close]

/-- A number that is not open is not duplicated. -/
theorem dupIn_closed {fd : Fd} {new : Nat} {t : FdTable Desc}
    (closed : ∀ old, fd = some old → t.get old = none) : dupIn fd new t = t := by
  cases fd with
  | none => rfl
  | some old => simp [dupIn, FdTable.dup2, closed old rfl]

variable {prev curr : Pipe} {err : Bool} {t : FdTable Desc} {n : Nat}

/-- The pipes of a child are closed behind it. -/
theorem child_closed (used : prev.Uses n ∨ curr.Uses n) (high : 3 ≤ n) :
    (curr.write err (prev.read t)).get n = none := by
  by_cases own : curr.Uses n
  · exact get_closeIn_used own
  · have before := used.resolve_right own
    rw [write, get_closeIn _ _ _ own]
    have gone : (prev.read t).get n = none := get_closeIn_used before
    have first : (dupIn curr.outFd 1 (prev.read t)).get n = none := by
      rw [get_dupIn_ne _ (by omega), gone]
    cases err with
    | false => exact first
    | true => rw [if_pos rfl, get_dupIn_ne _ (by omega), first]

/-- What `read` leaves alone. -/
theorem get_read (low : ¬ prev.Uses n) (notInput : n ≠ 0) : (prev.read t).get n = t.get n := by
  rw [read, get_closeIn _ _ _ low, get_dupIn_ne _ notInput]

/-- A child whose current pipe was closed with the previous one keeps descriptor 1. -/
theorem child_stdout_closed (closed : ∀ second, curr.outFd = some second →
    (prev.read t).get second = none) (prevLow : ¬ prev.Uses 1) (currLow : ¬ curr.Uses 1) :
    (curr.write err (prev.read t)).get 1 = t.get 1 := by
  rw [write, get_closeIn _ _ _ currLow, dupIn_closed closed]
  cases err with
  | false => exact get_read prevLow (by decide)
  | true => rw [if_pos rfl, get_dupIn_ne _ (by decide), get_read prevLow (by decide)]

/-- Descriptor 2 stays where it was unless `writeErr` is set. -/
theorem child_stderr (prevLow : ¬ prev.Uses 2) (currLow : ¬ curr.Uses 2) :
    (curr.write false (prev.read t)).get 2 = t.get 2 := by
  rw [write, get_closeIn _ _ _ currLow, if_neg (by decide), get_dupIn_ne _ (by decide),
    get_read prevLow (by decide)]

/-- With it descriptor 2 is what descriptor 1 is. -/
theorem child_stderr_joined {second : Nat} {d : Desc} (output : curr.outFd = some second)
    (found : t.get second = some d) (apart : ¬ prev.Uses second) (high : 3 ≤ second)
    (currLow : ∀ n < 3, ¬ curr.Uses n) : (curr.write true (prev.read t)).get 2 = some d := by
  have kept : (dupIn curr.outFd 1 (prev.read t)).get second = some d := by
    rw [get_dupIn_ne _ (by omega), get_read apart (by omega), found]
  rw [write, get_closeIn _ _ _ (currLow 2 (by decide)), if_pos rfl]
  rw [output] at kept ⊢
  exact get_dupIn_same kept

theorem closePipe_fds (p : Pipe) (k : Proc) : (p.closePipe k).fds = p.closeIn k.fds := by
  obtain ⟨a, b⟩ := p
  cases a <;> cases b <;> rfl

/-- A new pipe gets two numbers that were free. -/
theorem create_fresh (k : Proc) (owner : Owner) :
    Sat (create k owner)
      (fun made => IsPipe made.2.fds made.1 k.nextPipe ∧
        (∀ n, made.1.Uses n → k.fds.get n = none) ∧
        (∀ n d, k.fds.get n = some d → made.2.fds.get n = some d) ∧
        made.2.nextPipe = k.nextPipe + 1)
      (fun _ => True) := by
  refine Sat.mono ((create_held k owner).and (create_rest k owner)) ?_ fun _ _ => trivial
  rintro ⟨made, k'⟩ ⟨⟨first, second, rfl, opens, count, -⟩, -⟩
  have holds := holds_pipePart first second k.nextPipe owner
  refine ⟨⟨first, second, owner, owner, rfl, ?_, ?_⟩, fun n uses => ?_, fun n d found => ?_, count⟩
  · exact FdTable.get_of_mem_part opens (Multiset.mem_add.mpr (Or.inl (Multiset.mem_singleton_self _)))
  · exact FdTable.get_of_mem_part opens (Multiset.mem_add.mpr (Or.inr (Multiset.mem_singleton_self _)))
  · obtain ⟨d, member⟩ := (holds.uses_iff n).mp uses
    cases found : k.fds.get n with
    | none => rfl
    | some d' =>
        rw [← FdTable.mem_opens] at found
        exact absurd found (FdTable.parts_disjoint opens member)
  · rw [← FdTable.mem_opens] at found ⊢
    rw [opens]
    exact Multiset.mem_add.mpr (Or.inr found)

end Pipe

theorem IsPipe.pipeOf_eq {t : FdTable Desc} {p : Pipe} {number : Nat} (holds : IsPipe t p number) :
    pipeOf t p = some number := by
  obtain ⟨first, second, owner, owner', rfl, read, -⟩ := holds
  simp [pipeOf, read]

/-- What a `Pipe` variable gives to the command behind it: the read end of a pipe, or nothing. -/
inductive Carries (t : FdTable Desc) : Pipe → Wire → Prop
  | outOnly (fd : Fd) (file : ∀ b, fd = some b → ∃ name, objectAt t b = some (.file name)) :
      Carries t ⟨none, fd⟩ .terminal
  | pipe {p : Pipe} {number : Nat} (holds : IsPipe t p number) : Carries t p (.pipe number)

section Tables

variable {t t' : FdTable Desc} {p prev curr : Pipe} {number n : Nat} {input output : Wire}

theorem objectAt_some {d : Desc} (found : t.get n = some d) : objectAt t n = some d.object := by
  rw [objectAt, found]
  rfl

theorem IsPipe.object (holds : IsPipe t p number) (uses : p.Uses n) :
    objectAt t n = some (.pipeIn number) ∨ objectAt t n = some (.pipeOut number) := by
  obtain ⟨first, second, owner, owner', rfl, read, write⟩ := holds
  rcases uses with same | same
  · obtain rfl := Option.some.inj same
    exact Or.inl (objectAt_some read)
  · obtain rfl := Option.some.inj same
    exact Or.inr (objectAt_some write)

/-- A pipe uses none of the numbers of the terminal. -/
theorem IsPipe.high (holds : IsPipe t p number) (terminal : ∀ n < 3, objectAt t n = some (.std n))
    (uses : p.Uses n) : 3 ≤ n := by
  refine Nat.le_of_not_lt fun low => ?_
  have std := terminal n low
  rcases holds.object uses with object | object
  · rw [std] at object
    cases object
  · rw [std] at object
    cases object

theorem Carries.high (carries : Carries t p input)
    (terminal : ∀ n < 3, objectAt t n = some (.std n)) (uses : p.Uses n) : 3 ≤ n := by
  cases carries with
  | outOnly fd file =>
      rcases uses with same | same
      · cases same
      · obtain ⟨name, object⟩ := file n same
        refine Nat.le_of_not_lt fun low => ?_
        rw [terminal n low] at object
        cases object
  | pipe holds => exact holds.high terminal uses

/-- The pipe stays what it is while its numbers stay open. -/
theorem IsPipe.mono (holds : IsPipe t p number)
    (kept : ∀ n d, p.Uses n → t.get n = some d → t'.get n = some d) : IsPipe t' p number := by
  obtain ⟨first, second, owner, owner', rfl, read, write⟩ := holds
  exact ⟨first, second, owner, owner', rfl, kept _ _ (Or.inl rfl) read,
    kept _ _ (Or.inr rfl) write⟩

theorem Carries.mono (carries : Carries t p input)
    (kept : ∀ n d, p.Uses n → t.get n = some d → t'.get n = some d) : Carries t' p input := by
  cases carries with
  | outOnly fd file =>
      refine .outOnly fd fun b same => ?_
      obtain ⟨name, object⟩ := file b same
      obtain ⟨d, found, same'⟩ := Option.map_eq_some_iff.mp object
      exact ⟨name, by rw [objectAt_some (kept b d (Or.inr same) found), same']⟩
  | pipe holds => exact .pipe (holds.mono kept)

theorem IsPipe.open (holds : IsPipe t p number) (uses : p.Uses n) : t.get n ≠ none := by
  intro closed
  rcases holds.object uses with object | object
  · rw [objectAt, closed] at object
    cases object
  · rw [objectAt, closed] at object
    cases object

theorem Carries.open (carries : Carries t p input) (uses : p.Uses n) : t.get n ≠ none := by
  cases carries with
  | outOnly fd file =>
      intro closed
      rcases uses with same | same
      · cases same
      · obtain ⟨name, object⟩ := file n same
        rw [objectAt, closed] at object
        cases object
  | pipe holds => exact holds.open uses

/-- Two pipes have no number in common. -/
theorem IsPipe.apart {p' : Pipe} {number' : Nat} (holds : IsPipe t p number)
    (holds' : IsPipe t p' number') (different : number ≠ number') (uses : p.Uses n) :
    ¬ p'.Uses n := by
  intro uses'
  rcases holds.object uses with object | object
  · rcases holds'.object uses' with object' | object'
    · rw [object] at object'
      cases object'
      exact different rfl
    · rw [object] at object'
      cases object'
  · rcases holds'.object uses' with object' | object'
    · rw [object] at object'
      cases object'
    · rw [object] at object'
      cases object'
      exact different rfl

/-- What a child writes to, with `prev` before it and `curr` behind it: the terminal when both are the
same, else a pipe or a file under numbers of its own. -/
inductive Target (t : FdTable Desc) (prev curr : Pipe) : Wire → Prop
  | same (same : curr = prev) : Target t prev curr .terminal
  | pipe {number : Nat} (holds : IsPipe t curr number) (apart : ∀ n, curr.Uses n → ¬ prev.Uses n) :
      Target t prev curr (.pipe number)
  | file (name : Text) (fd : Fd) (write : curr = ⟨none, fd⟩)
      (opened : ∀ b, fd = some b → objectAt t b = some (.file name) ∧ ¬ prev.Uses b) :
      Target t prev curr (.file name)

theorem Target.high (target : Target t prev curr output)
    (terminal : ∀ n < 3, objectAt t n = some (.std n)) (carries : Carries t prev input)
    (uses : curr.Uses n) : 3 ≤ n := by
  cases target with
  | same same => exact carries.high terminal (same ▸ uses)
  | pipe holds apart => exact holds.high terminal uses
  | file name fd write opened =>
      subst write
      rcases uses with same | same
      · cases same
      · refine Nat.le_of_not_lt fun low => ?_
        have object := (opened n same).1
        rw [terminal n low] at object
        cases object

section Child

variable {err : Bool} (terminal : ∀ n < 3, objectAt t n = some (.std n))

include terminal

theorem Carries.low (carries : Carries t prev input) {n : Nat} (low : n < 3) : ¬ prev.Uses n :=
  fun uses => absurd (carries.high terminal uses) (by omega)

theorem Target.low (target : Target t prev curr output) (carries : Carries t prev input) {n : Nat}
    (low : n < 3) : ¬ curr.Uses n :=
  fun uses => absurd (target.high terminal carries uses) (by omega)

theorem Carries.stdin (carries : Carries t prev input) (currLow : ¬ curr.Uses 0) :
    objectAt (curr.write err (prev.read t)) 0 = some input.input := by
  have prevLow : ¬ prev.Uses 0 := carries.low terminal (by decide)
  cases carries with
  | outOnly fd file =>
      rw [objectAt, Pipe.child_stdin_none rfl prevLow currLow]
      exact terminal 0 (by decide)
  | pipe holds =>
      obtain ⟨first, second, owner, owner', rfl, found, -⟩ := holds
      exact objectAt_some (Pipe.child_stdin rfl found prevLow currLow)

theorem Target.stdout (target : Target t prev curr output) (carries : Carries t prev input)
    (opens : ∀ name, output = .file name → curr.outFd ≠ none) :
    objectAt (curr.write err (prev.read t)) 1 = some output.output := by
  have high := fun n => target.high (n := n) terminal carries
  have prevLow : ¬ prev.Uses 1 := carries.low terminal (by decide)
  have currLow : ¬ curr.Uses 1 := target.low terminal carries (by decide)
  cases target with
  | same same =>
      have closed : ∀ second, curr.outFd = some second → (prev.read t).get second = none :=
        fun second output => Pipe.get_closeIn_used (Or.inr (same ▸ output))
      rw [objectAt, Pipe.child_stdout_closed closed prevLow currLow]
      exact terminal 1 (by decide)
  | pipe holds apart =>
      obtain ⟨first, second, owner, owner', rfl, -, found⟩ := holds
      have above := high second (Or.inr rfl)
      exact objectAt_some
        (Pipe.child_stdout rfl found (apart second (Or.inr rfl)) (by omega) currLow)
  | file name fd write opened =>
      subst write
      obtain ⟨b, rfl⟩ := Option.ne_none_iff_exists'.mp (opens name rfl)
      have above := high b (Or.inr rfl)
      obtain ⟨object, apart⟩ := opened b rfl
      obtain ⟨d, found, same⟩ := Option.map_eq_some_iff.mp object
      rw [objectAt_some (Pipe.child_stdout rfl found apart (by omega) currLow), same]
      rfl

/-- With `writeErr` the pipe behind the command takes descriptor 2 as well. -/
theorem Target.stderr (target : Target t prev curr (.pipe number)) (carries : Carries t prev input) :
    (curr.write true (prev.read t)).get 2 = (curr.write true (prev.read t)).get 1 := by
  have high := fun n => target.high (n := n) terminal carries
  have currLow : ∀ n < 3, ¬ curr.Uses n := fun n low => target.low terminal carries low
  cases target with
  | pipe holds apart =>
      obtain ⟨first, second, owner, owner', rfl, -, found⟩ := holds
      have above := high second (Or.inr rfl)
      have own := apart second (Or.inr rfl)
      rw [Pipe.child_stderr_joined rfl found own above currLow,
        Pipe.child_stdout rfl found own (by omega) (currLow 1 (by decide))]

end Child

end Tables

theorem pipeError_false {next : Option ICommand}
    (other : ∀ number, next ≠ some (.numbered number true)) :
    next.elim false ICommand.pipeError = false := by
  cases next with
  | none => rfl
  | some sep =>
      cases sep with
      | numbered number err =>
          cases err with
          | false => rfl
          | true => exact absurd rfl (other number)
      | _ => rfl

/-- A child between two variables that carry the ends of its joint is wired as it should be. -/
theorem wired_of {σ : Type} {s : ShellState σ} {joint : Joint}
    (terminal : ∀ n < 3, objectAt s.proc.fds n = some (.std n))
    (carries : Carries s.proc.fds s.handler.prevPipe joint.stdin)
    (target : Target s.proc.fds s.handler.prevPipe s.handler.currPipe joint.stdout)
    (stored : ∀ number err, joint.next = some (.numbered number err) →
      (∃ pipe, joint.stdout = .pipe pipe) ∧
        s.handler.numberPipeList.get (sizeT number) = s.handler.currPipe) :
    Wired joint s where
  stdin := carries.stdin terminal (target.low terminal carries (by decide))
  stdout := target.stdout terminal carries
  joined := by
    rintro ⟨number, next⟩
    obtain ⟨⟨pipe, output⟩, -⟩ := stored number true next
    rw [output] at target
    simp only [ShellState.childOf, next, Option.elim_some, ICommand.pipeError]
    exact target.stderr terminal carries
  apart := by
    intro other
    rw [objectAt, ShellState.childOf, pipeError_false other,
      Pipe.child_stderr (carries.low terminal (by decide)) (target.low terminal carries (by decide))]
    exact terminal 2 (by decide)
  stored := fun number err next => (stored number err next).2
  closed := by
    intro n uses
    exact Pipe.child_closed uses (uses.elim (carries.high terminal) (target.high terminal carries))

/-- The slots that a numbered pipe of this line can name hold the pipes that `slot` says. -/
def Stored (slot : Int → Option Nat) (t : FdTable Desc) (ring : CircularBuffer Pipe) : Prop :=
  ∀ number : Int, 1 ≤ number → number ≤ 1023 →
    (ring.get (sizeT number) = .cleared ∧ slot number = none) ∨
      ∃ pipe, IsPipe t (ring.get (sizeT number)) pipe ∧ slot number = some pipe

/-- None of these slots names a number of the pipe. -/
def Away (ring : CircularBuffer Pipe) (p : Pipe) : Prop :=
  ∀ number : Int, 1 ≤ number → number ≤ 1023 → ∀ n, (ring.get (sizeT number)).Uses n → ¬ p.Uses n

section Stored

variable {slot : Int → Option Nat} {t t' : FdTable Desc} {ring : CircularBuffer Pipe} {p : Pipe}
  {number : Int} {n : Nat}

theorem Stored.open (stored : Stored slot t ring) (low : 1 ≤ number) (high : number ≤ 1023)
    (uses : (ring.get (sizeT number)).Uses n) : t.get n ≠ none := by
  rcases stored number low high with ⟨empty, -⟩ | ⟨pipe, holds, -⟩
  · rw [empty] at uses
    exact absurd uses (Pipe.not_uses_cleared n)
  · exact holds.open uses

theorem Stored.mono (stored : Stored slot t ring)
    (kept : ∀ number : Int, 1 ≤ number → number ≤ 1023 → ∀ n d,
      (ring.get (sizeT number)).Uses n → t.get n = some d → t'.get n = some d) :
    Stored slot t' ring := by
  intro number low high
  rcases stored number low high with empty | ⟨pipe, holds, same⟩
  · exact Or.inl empty
  · exact Or.inr ⟨pipe, holds.mono (kept number low high), same⟩

/-- Numbers that were free are away from the slots. -/
theorem Stored.away (stored : Stored slot t ring) (fresh : ∀ n, p.Uses n → t.get n = none) :
    Away ring p := fun _ low high n used uses => stored.open low high used (fresh n uses)

end Stored

namespace ShellState

variable {σ : Type} {calls : UserPipeCalls σ} {text : Text} {cl : NpCommandLine}
  {slot : Int → Option Nat} {s r t : ShellState σ} {pipes : Nat} {input : Wire} {flag : Bool}

/-- Before a command: `currPipe` carries what it reads, and closing `prevPipe` takes nothing from
it, from the terminal and from the slots. -/
structure Line (slot : Int → Option Nat) (s : ShellState σ) (pipes : Nat) (input : Wire) : Prop where
  terminal : ∀ n < 3, objectAt s.proc.fds n = some (.std n)
  count : s.proc.nextPipe = pipes
  carries : Carries s.proc.fds s.handler.currPipe input
  prevHigh : s.handler.prevPipe.High
  apart : ∀ n, s.handler.prevPipe.Uses n → ¬ s.handler.currPipe.Uses n
  stored : Stored slot s.proc.fds s.handler.numberPipeList
  prevAway : Away s.handler.numberPipeList s.handler.prevPipe
  currAway : Away s.handler.numberPipeList s.handler.currPipe

/-- Both variables name what the command reads. -/
structure Shifted (slot : Int → Option Nat) (s : ShellState σ) (pipes : Nat) (input : Wire) :
    Prop where
  terminal : ∀ n < 3, objectAt s.proc.fds n = some (.std n)
  count : s.proc.nextPipe = pipes
  carries : Carries s.proc.fds s.handler.prevPipe input
  same : s.handler.currPipe = s.handler.prevPipe
  stored : Stored slot s.proc.fds s.handler.numberPipeList
  away : Away s.handler.numberPipeList s.handler.prevPipe

theorem closePipe_nextPipe (p : Pipe) (k : Proc) : (p.closePipe k).nextPipe = k.nextPipe := by
  rw [Pipe.closePipe, Proc.close_nextPipe, Proc.close_nextPipe]

theorem Line.shift (before : Line slot s pipes input) : Shifted slot s.shiftPipes pipes input where
  terminal := by
    intro n low
    rw [← before.terminal n low]
    simp only [objectAt, shiftPipes, Pipe.closePipe_fds]
    rw [Pipe.get_closeIn _ _ _ (before.prevHigh n low)]
  count := (closePipe_nextPipe _ _).trans before.count
  carries := by
    refine before.carries.mono fun n d uses found => ?_
    simp only [shiftPipes, Pipe.closePipe_fds]
    rw [Pipe.get_closeIn _ _ _ fun used => before.apart n used uses, found]
  same := rfl
  stored := by
    refine before.stored.mono fun number low high n d uses found => ?_
    simp only [shiftPipes, Pipe.closePipe_fds]
    rw [Pipe.get_closeIn _ _ _ (before.prevAway number low high n uses), found]
  away := before.currAway

namespace Shifted

/-- At the fork of a command the two variables carry its ends. -/
structure Made (r : ShellState σ) (input output : Wire) : Prop where
  terminal : ∀ n < 3, objectAt r.proc.fds n = some (.std n)
  carries : Carries r.proc.fds r.handler.prevPipe input
  target : Target r.proc.fds r.handler.prevPipe r.handler.currPipe output

theorem terminal_kept (shifted : Shifted slot s pipes input) {t : FdTable Desc}
    (kept : ∀ n d, s.proc.fds.get n = some d → t.get n = some d) :
    ∀ n < 3, objectAt t n = some (.std n) := by
  intro n low
  obtain ⟨d, found, same⟩ := Option.map_eq_some_iff.mp (shifted.terminal n low)
  rw [objectAt_some (kept n d found), same]

/-- Numbers that were free are apart from the pipe before the command. -/
theorem apart (shifted : Shifted slot s pipes input) {p : Pipe}
    (fresh : ∀ n, p.Uses n → s.proc.fds.get n = none) (n : Nat) (uses : p.Uses n) :
    ¬ s.handler.prevPipe.Uses n := fun used => shifted.carries.open used (fresh n uses)

theorem prevHigh (shifted : Shifted slot s pipes input) : s.handler.prevPipe.High :=
  fun _ low => shifted.carries.low shifted.terminal low

/-- Nothing is made behind the last command. -/
theorem made_none (shifted : Shifted slot s pipes input) : Made s input .terminal :=
  ⟨shifted.terminal, shifted.carries, .same shifted.same⟩

/-- A variable with new numbers becomes the next `currPipe`. -/
theorem line (shifted : Shifted slot s pipes input) {curr : Pipe} {k : Proc} {next : Wire}
    (fresh : ∀ n, curr.Uses n → s.proc.fds.get n = none)
    (kept : ∀ n d, s.proc.fds.get n = some d → k.fds.get n = some d)
    (carries : Carries k.fds curr next) :
    Line slot { s with proc := k, handler := { s.handler with currPipe := curr } } k.nextPipe next where
  terminal := shifted.terminal_kept kept
  count := rfl
  carries := carries
  prevHigh := shifted.prevHigh
  apart := fun n used uses => shifted.apart fresh n uses used
  stored := shifted.stored.mono fun _ _ _ n d _ found => kept n d found
  prevAway := shifted.away
  currAway := shifted.stored.away fresh

theorem pipe_line (shifted : Shifted slot s pipes input) :
    Sat (s.createPipe .pipe)
      (fun r => Made r input (.pipe pipes) ∧ Line slot r (pipes + 1) (.pipe pipes))
      (fun _ => True) := by
  refine Sat.bind (Pipe.create_fresh s.proc _) ?_
  rintro ⟨curr, k⟩ ⟨holds, fresh, kept, count⟩
  rw [shifted.count] at holds count
  refine ⟨⟨shifted.terminal_kept kept, shifted.carries.mono fun n d _ found => kept n d found,
    .pipe holds (shifted.apart fresh)⟩, ?_⟩
  rw [← count]
  exact shifted.line fresh kept (.pipe holds)

theorem file_line (shifted : Shifted slot s pipes input) (name : Text) :
    Sat (s.createPipe (.file name))
      (fun r => Made r input (.file name) ∧ Line slot r pipes .terminal) (fun _ => True) := by
  obtain ⟨opened, kept, count⟩ := s.proc.openFile_fresh name
  have fresh : ∀ n, (⟨none, (s.proc.openFile name).1⟩ : Pipe).Uses n →
      s.proc.fds.get n = none := by
    rintro n (impossible | same)
    · cases impossible
    · exact (opened n same).1
  refine ⟨⟨shifted.terminal_kept kept, shifted.carries.mono fun n d _ found => kept n d found,
    .file name _ rfl fun b same => ⟨(opened b same).2, ?_⟩⟩, ?_⟩
  · exact shifted.apart fresh b (Or.inr same)
  · rw [← shifted.count, ← count]
    exact shifted.line fresh kept (.outOnly _ fun b same => ⟨name, (opened b same).2⟩)

theorem numbered_made (shifted : Shifted slot s pipes input) {number : Int} (low : 1 ≤ number)
    (high : number ≤ 1023) :
    Sat (s.createNumberedPipe number)
      (fun r => Made r input (.pipe ((slot number).getD pipes)) ∧
        r.handler.numberPipeList.get (sizeT number) = r.handler.currPipe)
      (fun _ => True) := by
  unfold createNumberedPipe
  dsimp only
  split
  case isTrue empty =>
    have none : slot number = none := by
      rcases shifted.stored number low high with ⟨-, none⟩ | ⟨pipe, holds, -⟩
      · exact none
      · obtain ⟨first, second, owner, owner', same, -⟩ := holds
        rw [same] at empty
        cases empty
    refine Sat.bind (Pipe.create_fresh s.proc _) ?_
    rintro ⟨curr, k⟩ ⟨holds, fresh, kept, -⟩
    rw [none, Option.getD_none, ← shifted.count]
    exact ⟨⟨shifted.terminal_kept kept, shifted.carries.mono fun n d _ found => kept n d found,
      .pipe holds (shifted.apart fresh)⟩, CircularBuffer.get_set_same _ _ _⟩
  case isFalse used =>
    rcases shifted.stored number low high with ⟨empty, -⟩ | ⟨pipe, holds, same⟩
    · exact absurd ((Pipe.empty_iff _).mpr empty) used
    · rw [same, Option.getD_some]
      exact ⟨⟨shifted.terminal, shifted.carries, .pipe holds (shifted.away number low high)⟩, rfl⟩

/-- What `connect` makes of the element behind a command.  A numbered pipe is the last one, so only
the others have a command behind them. -/
theorem connect (shifted : Shifted slot s pipes input) {next : Option ICommand}
    (isSep : ∀ sep ∈ next, sep.IsSeparator) (plain : next ≠ some .userPipe)
    (range : ∀ number err, next = some (.numbered number err) → 1 ≤ number ∧ number ≤ 1023) :
    Sat (s.connect calls text cl next)
      (fun r => Made r.1 input (outputWire slot pipes next) ∧
        r.2 = next.elim false ICommand.pipeError ∧
        (∀ number err, next = some (.numbered number err) →
          r.1.handler.numberPipeList.get (sizeT number) = r.1.handler.currPipe) ∧
        ∀ sep, next = some sep → sep.target = none →
          Line slot r.1 (pipes + if sep = .pipe then 1 else 0) (inputWire pipes sep))
      (fun _ => True) := by
  cases next with
  | none => exact ⟨shifted.made_none, rfl, by simp, by simp⟩
  | some sep =>
      cases sep with
      | exe argv => exact absurd rfl (isSep _ rfl)
      | userPipe => exact absurd rfl plain
      | pipe =>
          refine Sat.bind shifted.pipe_line fun r made => ⟨made.1, rfl, by simp, ?_⟩
          rintro sep same -
          cases same
          exact made.2
      | file name =>
          refine Sat.bind (shifted.file_line name) fun r made => ⟨made.1, rfl, by simp, ?_⟩
          rintro sep same -
          cases same
          exact made.2
      | numbered number err =>
          obtain ⟨low, high⟩ := range number err rfl
          refine Sat.bind (shifted.numbered_made low high) fun r made => ⟨made.1, rfl, ?_, ?_⟩
          · rintro number' err' same
            cases same
            exact made.2
          · rintro sep same target
            cases same
            cases target

end Shifted

theorem Line.fork {r : ShellState σ} (after : Line slot r pipes input) (argv : List Text)
    (pipeErr : Bool) : Line slot (r.forkCommand argv pipeErr) pipes input where
  terminal := by simpa using after.terminal
  count := by simpa using after.count
  carries := by simpa using after.carries
  prevHigh := after.prevHigh
  apart := after.apart
  stored := by
    rw [forkCommand_fds]
    exact after.stored
  prevAway := after.prevAway
  currAway := after.currAway

end ShellState

/-- Between the two states just these children were forked, in this order. -/
def Proc.Forked (k k' : Proc) (children : List Child) : Prop :=
  ∃ events, k'.log = k.log ++ events ∧ forks events = children

namespace Proc.Forked

variable {k k' k'' : Proc} {children later : List Child}

theorem trans (h : Proc.Forked k k' children) (h' : Proc.Forked k' k'' later) :
    Proc.Forked k k'' (children ++ later) := by
  obtain ⟨events, log, rfl⟩ := h
  obtain ⟨events', log', rfl⟩ := h'
  exact ⟨events ++ events', by rw [log', log, List.append_assoc], forks_append _ _⟩

theorem of_ran (ran : Proc.Ran k k' []) : Proc.Forked k k' [] := by
  obtain ⟨events, log, none⟩ := ran
  exact ⟨events, log, List.map_eq_nil_iff.mp none⟩

end Proc.Forked

/-- The children that a line forks in these states. -/
def children {σ : Type} (wires : List Joint) (points : List (ShellState σ)) : List Child :=
  List.zipWith (fun joint s => s.childOf joint.argv joint.next) wires points

namespace ShellState

variable {σ : Type} {calls : UserPipeCalls σ} {text : Text} {cl : NpCommandLine}
  {slot : Int → Option Nat} {s r t : ShellState σ} {pipes : Nat} {input : Wire} {flag : Bool}

theorem forkCommand_forked (argv : List Text) (next : Option ICommand) (s : ShellState σ) :
    Proc.Forked s.proc (s.forkCommand argv (next.elim false ICommand.pipeError)).proc
      [s.childOf argv next] := by
  obtain ⟨events, log, -, same⟩ := (forkCommand_steps argv next s).log
  exact ⟨events, log, same⟩

/-- One command: it is forked once, wired as it should be, and what stands behind it finds its
pipe. -/
theorem Line.command (before : Line slot s pipes input) (forkless : calls.Forkless)
    (argv : List Text) {next : Option ICommand} (isSep : ∀ sep ∈ next, sep.IsSeparator)
    (plain : next ≠ some .userPipe)
    (range : ∀ number err, next = some (.numbered number err) → 1 ≤ number ∧ number ≤ 1023)
    (made : s.shiftPipes.connect calls text cl next = .ok (r, flag)) :
    Wired ⟨argv, next, input, outputWire slot pipes next⟩ r ∧
      Proc.Forked s.proc (r.forkCommand argv flag).proc [r.childOf argv next] ∧
      ∀ sep, next = some sep → sep.target = none →
        Line slot (r.forkCommand argv flag) (pipes + if sep = .pipe then 1 else 0)
          (inputWire pipes sep) := by
  obtain ⟨ends, same, stored, behind⟩ :=
    (before.shift.connect isSep plain range).of_ok made
  obtain rfl : flag = next.elim false ICommand.pipeError := same
  refine ⟨wired_of ends.terminal ends.carries ends.target fun number err same => ⟨?_, ?_⟩, ?_, ?_⟩
  · subst same
    exact ⟨_, rfl⟩
  · exact stored number err same
  · have shifted : Proc.Ran s.proc s.shiftPipes.proc [] := .closePipe _ s.proc
    have quiet := (connect_ran forkless isSep s.shiftPipes).of_ok made
    exact (Proc.Forked.of_ran (shifted.trans quiet)).trans (forkCommand_forked argv next r)
  · exact fun sep same target => (behind sep same target).fork argv _

/-- A command with its separator, on the way through the loop. -/
theorem runCommands_exe {argv : List Text} {rest : List ICommand}
    (ended : s.runCommands calls text cl (.exe argv :: rest) = .ok t) :
    ∃ r flag, s.shiftPipes.connect calls text cl rest.head? = .ok (r, flag) ∧
      (r.forkCommand argv flag).runCommands calls text cl rest = .ok t ∧
      s.forkPoints calls text cl (.exe argv :: rest) =
        r :: (r.forkCommand argv flag).forkPoints calls text cl rest := by
  obtain ⟨u, one, others⟩ := bind_eq_ok.mp ended
  obtain ⟨⟨r, flag⟩, made, same⟩ := bind_eq_ok.mp one
  cases same
  exact ⟨r, flag, made, others, by simp only [forkPoints, made]⟩

theorem forkPoints_separator {sep : ICommand} (isSep : sep.IsSeparator) (rest : List ICommand)
    (s : ShellState σ) :
    s.forkPoints calls text cl (sep :: rest) = s.forkPoints calls text cl rest := by
  cases sep with
  | exe argv => exact absurd rfl isSep
  | _ => rfl

/-- The loop over the commands, by induction on the shape of the line. -/
theorem Line.commands {commands : List ICommand} (shape : Shape commands)
    (before : Line slot s pipes input) (forkless : calls.Forkless) (plain : .userPipe ∉ commands)
    (range : ∀ number err, .numbered number err ∈ commands → 1 ≤ number ∧ number ≤ 1023)
    (ended : s.runCommands calls text cl commands = .ok t) :
    List.Forall₂ Wired (joints slot pipes input commands)
        (s.forkPoints calls text cl commands) ∧
      Proc.Forked s.proc t.proc
        (children (joints slot pipes input commands) (s.forkPoints calls text cl commands)) := by
  induction shape generalizing s pipes input with
  | bare argv =>
      obtain ⟨r, flag, made, others, points⟩ := runCommands_exe ended
      obtain ⟨wired, forked, -⟩ := before.command forkless argv (by simp) (by simp)
        (by simp) made
      cases others
      rw [points]
      exact ⟨.cons wired .nil, forked⟩
  | closed argv sep isSep =>
      obtain ⟨r, flag, made, others, points⟩ := runCommands_exe ended
      obtain ⟨wired, forked, -⟩ := before.command forkless argv (by simpa using isSep)
        (by rintro ⟨⟩; simp at plain) (by rintro number err ⟨⟩; exact range number err (by simp)) made
      rw [runCommands_separator isSep] at others
      cases others
      rw [points, forkPoints_separator isSep]
      exact ⟨.cons wired .nil, forked⟩
  | more argv sep rest isSep inner tail ih =>
      obtain ⟨r, flag, made, others, points⟩ := runCommands_exe ended
      obtain ⟨wired, forked, behind⟩ := before.command forkless argv
        (by simpa using isSep) (by rintro ⟨⟩; simp at plain)
        (by rintro number err ⟨⟩; exact range number err (by simp)) made
      rw [runCommands_separator isSep] at others
      obtain ⟨later, forked'⟩ := ih (behind sep rfl inner)
        (fun member => plain (List.mem_cons_of_mem _ (List.mem_cons_of_mem _ member)))
        (fun number err member => range number err
          (List.mem_cons_of_mem _ (List.mem_cons_of_mem _ member))) others
      rw [points, forkPoints_separator isSep]
      exact ⟨.cons wired later, forked.trans forked'⟩

/-- The pipe in the slot that a numbered pipe of the next line names. -/
def slotPipe (s : ShellState σ) (number : Int) : Option Nat :=
  pipeOf s.proc.fds (s.handler.numberPipeList.next.get (sizeT number))

/-- What the first command of the next line reads: the pipe in the slot that `next` moves to the
front. -/
def frontWire (s : ShellState σ) : Wire :=
  (pipeOf s.proc.fds s.handler.numberPipeList.next.front).elim .terminal .pipe

/-- A number in the range does not name the front. -/
theorem slot_ne_front (ring : CircularBuffer Pipe) {number : Int} (low : 1 ≤ number)
    (high : number ≤ 1023) : ring.slot (sizeT number) ≠ ring.headSlot := by
  intro same
  have slot := ring.slot_sizeT number
  rw [same] at slot
  have bounded := ring.bounded
  simp only [CircularBuffer.headSlot, circularBufferSize] at slot bounded
  omega

namespace Ready

theorem carries (ready : s.Ready) :
    Carries s.proc.fds s.handler.numberPipeList.next.front s.frontWire := by
  by_cases empty : s.handler.numberPipeList.next.front = .cleared
  · rw [frontWire, empty]
    exact .outOnly none nofun
  · rw [CircularBuffer.front_eq] at empty
    obtain ⟨pipe, holds⟩ := ready.slots _ empty
    rw [← CircularBuffer.next_buffer, ← CircularBuffer.front_eq] at holds
    rw [frontWire, holds.pipeOf_eq]
    exact .pipe holds

theorem stored (ready : s.Ready) :
    Stored s.slotPipe s.proc.fds s.handler.numberPipeList.next := by
  intro number low high
  by_cases empty : s.handler.numberPipeList.next.get (sizeT number) = .cleared
  · refine Or.inl ⟨empty, ?_⟩
    rw [slotPipe, empty]
    rfl
  · obtain ⟨pipe, holds⟩ := ready.slots _ empty
    exact Or.inr ⟨pipe, holds, holds.pipeOf_eq⟩

theorem away (ready : s.Ready) :
    Away s.handler.numberPipeList.next s.handler.numberPipeList.next.front := by
  intro number low high n used uses
  have open_of : ∀ i, (s.handler.numberPipeList.buffer i).Uses n →
      ∃ pipe, IsPipe s.proc.fds (s.handler.numberPipeList.buffer i) pipe := by
    intro i uses
    refine ready.slots i fun empty => ?_
    rw [empty] at uses
    exact Pipe.not_uses_cleared n uses
  rw [CircularBuffer.front_eq] at uses
  obtain ⟨pipe, holds⟩ := open_of _ used
  obtain ⟨pipe', holds'⟩ := open_of _ uses
  refine holds.apart holds' (fun same => ?_) used uses
  subst same
  exact ready.different _ _ pipe (slot_ne_front _ low high) holds holds'

/-- The first command finds the front slot in `currPipe`. -/
theorem line (ready : s.Ready) (flat : cl.Plain) (begun : s.beginLine calls text cl = .ok r) :
    Line s.slotPipe r r.proc.nextPipe s.frontWire := by
  obtain ⟨⟨eol, k⟩, made, rest⟩ := bind_eq_ok.mp begun
  obtain ⟨-, -, kept, -⟩ := (Pipe.create_fresh s.proc _).of_ok made
  simp only [flat.readUid, if_neg (by decide : ¬ (0 : Int) < 0)] at rest
  cases rest
  refine ⟨?_, rfl, ready.carries.mono fun n d _ found => kept n d found, ?_, ?_,
    ready.stored.mono fun _ _ _ n d _ found => kept n d found, ?_, ready.away⟩
  · intro n low
    obtain ⟨d, found, same⟩ := Option.map_eq_some_iff.mp (ready.terminal n low)
    rw [objectAt_some (kept n d found), same]
  · simp [ready.prevPipe]
  · simp [ready.prevPipe]
  · intro number low high n used
    simp [ready.prevPipe]

end Ready

end ShellState

/-- The wiring of a line of `npshell`: the children that are forked are wired as the line says. -/
theorem npshell_wiring {command : Text} {cl : NpCommandLine}
    (parsed : cl ∈ (Npshell.parseCommand command).2)
    (range : ∀ number err, .numbered number err ∈ cl.npCommands → 1 ≤ number ∧ number ≤ 1023)
    {s t : ShellState Unit} (ready : s.Ready)
    (ended : s.runCommandLine npshellCalls command cl = .ok t) :
    ∃ r, s.beginLine npshellCalls command cl = .ok r ∧
      List.Forall₂ Wired (joints s.slotPipe r.proc.nextPipe s.frontWire cl.npCommands)
        (r.forkPoints npshellCalls command cl cl.npCommands) ∧
      Proc.Forked s.proc t.proc
        (children (joints s.slotPipe r.proc.nextPipe s.frontWire cl.npCommands)
          (r.forkPoints npshellCalls command cl cl.npCommands)) := by
  have shape := Npshell.parseCommand_shape parsed
  have flat := Npshell.parseCommand_plain parsed
  obtain ⟨r, begun, rest⟩ := bind_eq_ok.mp ended
  obtain ⟨u, loop, last⟩ := bind_eq_ok.mp rest
  obtain ⟨wired, forked⟩ := (ready.line flat begun).commands shape npshellCalls_forkless
    flat.commands range loop
  refine ⟨r, begun, wired, ?_⟩
  have first := (ShellState.beginLine_ran npshellCalls_forkless s).of_ok begun
  obtain ⟨t', last', ran⟩ := ShellState.endLine_ran shape u
  obtain rfl : t = t' := by
    rw [last] at last'
    exact Except.ok.inj last'
  have whole := ((Proc.Forked.of_ran first).trans forked).trans (Proc.Forked.of_ran ran)
  rwa [List.nil_append, List.append_nil] at whole

theorem npshell_ready (limit : Nat) (canOpen : Text → Bool) (environ : List (Text × Text)) :
    (npshell limit canOpen environ).Ready where
  terminal := by
    intro n low
    match n, low with
    | 0, _ => rfl
    | 1, _ => rfl
    | 2, _ => rfl
  prevPipe := rfl
  slots := fun _ used => absurd rfl used
  different := by
    intro i j pipe _ holds
    obtain ⟨first, second, owner, owner', impossible, -⟩ := holds
    cases impossible

theorem npshell_wiring_cat :
    ∃ (cl : NpCommandLine) (r t : ShellState Unit),
      (npshell 9 (fun _ => true) []).runCommandLine npshellCalls "cat | wc !3".toList cl = .ok t ∧
      List.Forall₂ Wired [⟨["cat".toList], some .pipe, .terminal, .pipe 1⟩,
        ⟨["wc".toList], some (.numbered 3 true), .pipe 1, .pipe 2⟩]
        (r.forkPoints npshellCalls "cat | wc !3".toList cl cl.npCommands) := by
  have parsed : (⟨[.exe ["cat".toList], .pipe, .exe ["wc".toList], .numbered 3 true], 0, 0⟩ :
      NpCommandLine) ∈ (Npshell.parseCommand "cat | wc !3".toList).2 := by decide
  obtain ⟨t, ended⟩ : ∃ t, (npshell 9 (fun _ => true) []).runCommandLine npshellCalls
      "cat | wc !3".toList ⟨[.exe ["cat".toList], .pipe, .exe ["wc".toList], .numbered 3 true], 0, 0⟩ =
        .ok t := ⟨_, rfl⟩
  obtain ⟨r, begun, wired, -⟩ := npshell_wiring parsed (by simp) (npshell_ready _ _ _) ended
  have count : r.proc.nextPipe = 1 := by
    cases begun
    rfl
  rw [count] at wired
  exact ⟨_, r, t, ended, wired⟩

end NetProg
