import NetProg.Server.Interference
import NetProg.Shell.NpRun

/-!
# Numbered pipes in `npshell` and in the chat server

Both programs run the loop of `RunShell`: `npshell` on its own, the chat server for each of its users,
with the turns of the others in between.  The slots of the ring are never emptied, so both are right
about numbered pipes exactly as long as no line number comes back 1024 lines later and no command line
behind `exit` asks for the pipe that `exit` has closed.
-/

namespace NetProg

/-- The ring refines the table of numbered pipes in every run of `npshell`, and for every connection in
every run of the chat server, in which no slot comes back. -/
theorem numberedPipes_refine (limit : Nat) (canOpen : Text → Bool) (environ : List (Text × Text)) :
    (∀ lines : List Text, Npshell.texts lines .init ≠ none →
      InRange ((Npshell.ticks lines (npshell limit canOpen environ)).map Tick.cl) →
      NoReuse ((Npshell.ticks lines (npshell limit canOpen environ)).map Tick.cl) →
      NumberedPipesRefine 0 Npshell.terminal (Npshell.ticks lines (npshell limit canOpen environ))) ∧
    (∀ (events : List ServerEvent) (session : Nat),
      Along SingleProc.next SingleProc.Owned events (.boot limit canOpen environ) →
      InRange ((SingleProc.ticks session events (.boot limit canOpen environ) none).map Tick.cl) →
      NoReuse ((SingleProc.ticks session events (.boot limit canOpen environ) none).map Tick.cl) →
      NumberedPipesRefine session (socketDesc session)
        (SingleProc.ticks session events (.boot limit canOpen environ) none)) := by
  constructor
  · intro lines fits range free
    exact ((Npshell.followed_start limit canOpen environ).run fits).refines range free
  · intro events session owned range free
    exact ((SingleProc.Followed.boot session limit canOpen environ).run_agreed owned none).refines
      range free

theorem makerFrom_lsInto (number count T : Nat) :
    makerFrom number (List.replicate count lsInto) T =
      if number + 1 ≤ T ∧ T ≤ number + count then some (T - 1) else none := by
  induction count generalizing number with
  | zero =>
      rw [if_neg (by omega)]
      rfl
  | succ count ih =>
      have target : lsInto.target = some 1 := rfl
      rw [List.replicate_succ, makerFrom, ih, target]
      by_cases next : T = number + 1
      · rw [if_pos (by rw [next]; simp), if_pos (by omega), next]
        rfl
      · rw [if_neg (by simp only [Option.some.injEq]; omega)]
        by_cases within : number + 1 + 1 ≤ T ∧ T ≤ number + 1 + count
        · rw [if_pos within, if_pos (by omega)]
        · rw [if_neg within, if_neg (by omega)]

theorem makerFrom_lsAlone (number count T : Nat) :
    makerFrom number (List.replicate count lsAlone) T = none := by
  induction count generalizing number with
  | zero => rfl
  | succ count ih =>
      have target : lsAlone.target = none := rfl
      rw [List.replicate_succ, makerFrom, ih, target]
      simp

theorem maker_ls (into alone T : Nat) :
    maker (List.replicate into lsInto ++ List.replicate alone lsAlone) T =
      if 2 ≤ T ∧ T ≤ 1 + into then some (T - 1) else none := by
  rw [maker, makerFrom_append, makerFrom_lsInto, makerFrom_lsAlone, Option.or_none]

theorem inRange_ls (into alone : Nat) :
    InRange (List.replicate into lsInto ++ List.replicate alone lsAlone) := by
  intro cl member n target
  rcases List.mem_append.mp member with member | member
  · rw [(List.mem_replicate.mp member).2] at target
    cases target
    omega
  · rw [(List.mem_replicate.mp member).2] at target
    cases target

theorem noReuse_ls {into alone : Nat} (few : into ≤ 1024) (all : into + alone ≤ 1025) :
    NoReuse (List.replicate into lsInto ++ List.replicate alone lsAlone) := by
  intro T made
  rw [maker_ls] at made ⊢
  have first : 2 ≤ T := by
    by_contra early
    exact made (if_neg (by omega))
  refine ⟨?_, if_neg (by omega)⟩
  rw [List.length_append, List.length_replicate, List.length_replicate]
  omega

/-- Three lines of `npshell`, and a line of the first user of the server. -/
theorem numberedPipes_refine_short :
    NumberedPipesRefine 0 Npshell.terminal
      (Npshell.ticks ["ls |1".toList, "ls".toList, "exit ls".toList]
        (npshell 1024 (fun _ => true) [])) ∧
    NumberedPipesRefine 1 (socketDesc 1)
      (SingleProc.ticks 1 [.connect "10.0.0.1".toList 5001, .line 7 "ls |1 ls".toList]
        (.boot 1024 (fun _ => true) []) none) := by
  have cls : (Npshell.ticks ["ls |1".toList, "ls".toList, "exit ls".toList]
      (npshell 1024 (fun _ => true) [])).map Tick.cl = [lsInto, lsAlone, lsAlone] := by
    decide +kernel
  have fits : (Npshell.texts ["ls |1".toList, "ls".toList, "exit ls".toList] .init).isSome = true := by
    decide +kernel
  have cls' : (SingleProc.ticks 1 [.connect "10.0.0.1".toList 5001, .line 7 "ls |1 ls".toList]
      (.boot 1024 (fun _ => true) []) none).map Tick.cl = [lsInto, lsAlone] := by
    decide +kernel
  have both := numberedPipes_refine 1024 (fun _ => true) []
  refine ⟨both.1 _ (Option.isSome_iff_ne_none.mp fits) ?_ ?_, both.2 _ 1 ?_ ?_ ?_⟩
  · rw [cls]
    exact inRange_ls 1 2
  · rw [cls]
    exact noReuse_ls (by decide : 1 ≤ 1024) (by decide : 1 + 2 ≤ 1025)
  · refine ⟨trivial, fun st first => ⟨?_, fun st' second => trivial⟩⟩
    cases first
    intro id user a known found account
    cases known
    cases found
    cases account
    refine ⟨by decide +kernel, ?_, ?_⟩
    · have fits : (Account.init.text "ls |1 ls".toList).isSome = true := by decide +kernel
      exact Option.isSome_iff_ne_none.mp fits
    · intro leaves
      exact absurd leaves (by decide +kernel)
  · rw [cls']
    exact inRange_ls 1 1
  · rw [cls']
    exact noReuse_ls (by decide : 1 ≤ 1024) (by decide : 1 + 1 ≤ 1025)

/-- The slots after `k` lines `ls |1`: the pipes of the first lines were read, the last one waits. -/
structure Filled (k : Nat) (a : Account) : Prop where
  number : a.number = k
  head : a.slots.head = k % 1024
  spent : ∀ T, 2 ≤ T → T ≤ k → Slots.lifeAt a.slots T = .spent
  waits : 1 ≤ k → Slots.lifeAt a.slots (k + 1) = .pending k
  fresh : ∀ T, k + 1 < T → T ≤ 1025 → Slots.lifeAt a.slots T = .fresh

theorem filled_init : Filled 0 .init where
  number := rfl
  head := rfl
  spent := fun T low high => by omega
  waits := fun impossible => absurd impossible (by decide)
  fresh := fun _ _ _ => rfl

namespace Filled

variable {k : Nat} {a : Account}

/-- A line without `<i` reads the pipe that waits. -/
theorem take (h : Filled k a) (within : k ≤ 1024) {cl : NpCommandLine} (off : ¬ 0 < cl.readUid) :
    ∃ taken, Slots.take cl a.slots.next = some taken ∧ taken.head = (k + 1) % 1024 ∧
      (∀ T, k = 0 ∨ T % 1024 ≠ (k + 1) % 1024 → Slots.lifeAt taken T = Slots.lifeAt a.slots T) ∧
      (1 ≤ k → Slots.lifeAt taken (k + 1) = .spent) := by
  have head : a.slots.next.head = (k + 1) % 1024 := by
    rw [CircularBuffer.next_head, h.head, circularBufferSize]
    omega
  rw [Slots.take, if_neg off, Slots.front_next h.head]
  by_cases first : k = 0
  · subst first
    have same : Slots.lifeAt a.slots (0 + 1) = Slots.lifeAt a.slots 1025 := rfl
    rw [same, h.fresh 1025 (by decide) (Nat.le_refl _)]
    exact ⟨a.slots.next, rfl, head, fun _ _ => rfl, fun impossible => absurd impossible (by decide)⟩
  · have here : ((k + 1 : Nat) : Int) = (k + 1 : Nat) + 0 := by omega
    rw [h.waits (by omega)]
    refine ⟨a.slots.next.set 0 .spent, rfl, head, fun T other => ?_, fun _ => ?_⟩
    · exact (Slots.lifeAt_set head here .spent).trans (if_neg (other.resolve_left first))
    · exact (Slots.lifeAt_set head here .spent).trans (if_pos rfl)

theorem line (h : Filled k a) (within : k < 1024) :
    ∃ after, a.line lsInto = some after ∧ Filled (k + 1) after := by
  obtain ⟨taken, took, head, others, read⟩ := h.take (Nat.le_of_lt within)
    (by decide : ¬ 0 < lsInto.readUid)
  have aim : ((k + 2 : Nat) : Int) = (k + 1 : Nat) + 1 := by omega
  have free : taken.get (sizeT 1) = .fresh := by
    rw [Slots.get_lifeAt head aim, others _ (by omega)]
    exact h.fresh _ (by omega) (by omega)
  have aimed : Slots.aim (a.number + 1) taken lsInto.target =
      some (taken.set (sizeT 1) (.pending (k + 1))) := by
    have target : lsInto.target = some 1 := rfl
    rw [target, h.number]
    simp only [Slots.aim, free]
  have lifeAt := fun T => @Slots.lifeAt_set taken _ _ T _ head aim (.pending (k + 1))
  refine ⟨⟨a.number + 1, taken.set (sizeT 1) (.pending (k + 1)), lsInto.target⟩, ?_, ?_, head, ?_, ?_,
    ?_⟩
  · rw [Account.line, Slots.line, took, Option.bind_some, aimed]
    rfl
  · exact congrArg (· + 1) h.number
  · intro T low high
    rw [lifeAt, if_neg (by omega)]
    by_cases last : T = k + 1
    · rw [last]
      exact read (by omega)
    · rw [others T (by omega)]
      exact h.spent T low (by omega)
  · intro _
    rw [lifeAt, if_pos rfl]
  · intro T low high
    rw [lifeAt, if_neg (by omega), others T (by omega)]
    exact h.fresh T (by omega) high

end Filled

/-- A line of `npshell` with one command line. -/
theorem Npshell.lineTicks_one {s r : ShellState Unit} {line : Text} {cl : NpCommandLine}
    (parsed : parseCommand line = ([], [cl])) (ran : s.runCommandLine npshellCalls line cl = .ok r) :
    lineTicks line s = [⟨cl, s, r⟩] := by
  rw [lineTicks, parsed]
  change ShellState.queueTicks npshellCalls line [cl] s = _
  rw [ShellState.queueTicks, ran]
  rfl

/-- One more line of `npshell` with one command line, in a run with enough descriptors. -/
theorem Npshell.Followed.one {a after : Account} {ticks : List (Tick Unit)} {s : ShellState Unit}
    {line : Text} {cl : NpCommandLine} (h : Followed a ticks s) (lines : List Text)
    (parsed : parseCommand line = ([], [cl])) (on : s.handler.running = true)
    (fits : a.line cl = some after) (room : 2 * 1024 + 2 * (ticks.length + 1) + 8 < s.proc.limit) :
    ∃ t r, Npshell.ticks (line :: lines) s = t :: Npshell.ticks lines r ∧ t.cl = cl ∧ t.before = s ∧
      Followed after (ticks ++ [t]) r ∧ r.handler.running = true ∧ r.proc.limit = s.proc.limit := by
  have fits' : text line a = some after := by
    rw [text, parsed, if_neg List.not_mem_nil]
    exact congrArg (·.bind some) fits
  obtain ⟨-, ends⟩ := h.input fits'
  cases ran : runShell line s with
  | error stopped =>
      have full := ends.of_error ran
      rw [parsed] at full
      change s.proc.limit ≤ 2 * 1024 + 2 * (ticks.length + 1) + 8 at full
      omega
  | ok r =>
      obtain ⟨followed, running, limit⟩ := ends.of_ok ran
      obtain ⟨done, queue, -⟩ := bind_eq_ok.mp ran
      change ((parseCommand line).1.foldl perform s).runQueue npshellCalls line (parseCommand line).2 =
        .ok done at queue
      rw [parsed] at queue
      obtain ⟨mid, first, -⟩ := bind_eq_ok.mp queue
      have listed : lineTicks line s = [⟨cl, s, mid⟩] := lineTicks_one parsed first
      refine ⟨⟨cl, s, mid⟩, r, ?_, rfl, rfl, listed ▸ followed, ?_, limit⟩
      · rw [Npshell.ticks, if_pos on, listed, ran]
        rfl
      · rw [running, on, parsed]
        rfl

/-- The run of `npshell` with 1024 lines `ls |1` in front of other lines. -/
theorem filled_run (limit : Nat) (canOpen : Text → Bool) (environ : List (Text × Text)) (k : Nat)
    (within : k ≤ 1024) (lines : List Text) (room : 2 * 1024 + 2 * 1024 + 8 < limit) :
    ∃ a ticks s, Npshell.ticks (List.replicate k "ls |1".toList ++ lines)
        (npshell limit canOpen environ) = ticks ++ Npshell.ticks lines s ∧
      ticks.map Tick.cl = List.replicate k lsInto ∧ Npshell.Followed a ticks s ∧ Filled k a ∧
      s.handler.running = true ∧ s.proc.limit = limit := by
  induction k generalizing lines with
  | zero =>
      exact ⟨.init, [], _, rfl, rfl, Npshell.followed_start limit canOpen environ, filled_init, rfl, rfl⟩
  | succ k ih =>
      obtain ⟨a, ticks, s, listed, cls, followed, filled, on, same⟩ :=
        ih (by omega) ("ls |1".toList :: lines)
      obtain ⟨after, fits, filled'⟩ := filled.line (by omega)
      have parsed : Npshell.parseCommand "ls |1".toList = ([], [lsInto]) := by decide +kernel
      have length : ticks.length = k := by
        rw [← List.length_map (f := Tick.cl), cls, List.length_replicate]
      obtain ⟨t, r, next, mine, -, followed', on', same'⟩ :=
        followed.one lines parsed on fits (by rw [length, same]; omega)
      refine ⟨after, ticks ++ [t], r, ?_, ?_, followed', filled', on', same'.trans same⟩
      · rw [List.replicate_succ', List.append_assoc, List.append_assoc]
        exact listed.trans (congrArg (ticks ++ ·) next)
      · rw [List.map_append, cls, List.map_singleton, mine, List.replicate_succ']

/-- The line `ls` makes one pipe, whatever the ring holds. -/
theorem lsAlone_ends (line : Text) {s : ShellState Unit}
    (room : s.proc.fds.opens.card + 1 < s.proc.limit) :
    ∃ r, s.runCommandLine npshellCalls line lsAlone = .ok r := by
  have spec := Pipe.create_held s.proc (.user s.proc.serving)
  cases made : Pipe.create s.proc (.user s.proc.serving) with
  | error stopped =>
      have full := (spec.of_error made).2
      omega
  | ok result =>
      cases ended : s.runCommandLine npshellCalls line lsAlone with
      | ok r => exact ⟨r, rfl⟩
      | error stopped =>
          rw [ShellState.runCommandLine, ShellState.beginLine, made] at ended
          cases ended

/-- After 1024 lines `ls |1` and one line `ls`, the next line finds the pipe of line 1 in its
front slot. -/
theorem numberedPipes_stale :
    (Npshell.ticks (List.replicate 1024 "ls |1".toList ++ ["ls".toList, "ls".toList])
        (npshell 65536 (fun _ => true) [])).map Tick.cl =
      List.replicate 1024 lsInto ++ [lsAlone, lsAlone] ∧
    ¬ NumberedPipesRefine 0 Npshell.terminal
      (Npshell.ticks (List.replicate 1024 "ls |1".toList ++ ["ls".toList, "ls".toList])
        (npshell 65536 (fun _ => true) [])) := by
  obtain ⟨a, ticks, s, listed, cls, followed, filled, on, same⟩ :=
    filled_run 65536 (fun _ => true) [] 1024 (Nat.le_refl _) ["ls".toList, "ls".toList] (by decide)
  obtain ⟨taken, took, head, others, -⟩ := filled.take (Nat.le_refl _)
    (by decide : ¬ 0 < lsAlone.readUid)
  have parsed : Npshell.parseCommand "ls".toList = ([], [lsAlone]) := by decide +kernel
  have length : ticks.length = 1024 := by
    rw [← List.length_map (f := Tick.cl), cls, List.length_replicate]
  have fits : a.line lsAlone = some ⟨a.number + 1, taken, none⟩ := by
    rw [Account.line, Slots.line, took]
    rfl
  obtain ⟨t, s', next, mine, -, followed', on', same'⟩ :=
    followed.one ["ls".toList] parsed on fits (by rw [length, same]; decide)
  obtain ⟨parts, eol, leaked, agrees, ring, split, few⟩ := followed'.rings
  obtain ⟨r, ended⟩ : ∃ r, s'.runCommandLine npshellCalls "ls".toList lsAlone = .ok r := by
    refine lsAlone_ends _ ?_
    have waiting := ring.card_le
    have three : standardFds.opens.card = 3 := rfl
    rw [Multiset.card_add, List.length_append, List.length_singleton, length] at few
    rw [split, same', same]
    simp only [Multiset.card_add, three]
    omega
  have last : Npshell.ticks ["ls".toList] s' = [⟨lsAlone, s', r⟩] := by
    rw [Npshell.ticks, if_pos on', Npshell.lineTicks_one parsed ended]
    cases Npshell.runShell "ls".toList s' <;> rfl
  rw [listed, next, last]
  refine ⟨?_, ?_⟩
  · rw [List.map_append, cls, List.map_cons, mine]
    rfl
  · intro refines
    obtain ⟨pipeOf, refines⟩ := refines
    have front := (refines 1025 ⟨lsAlone, s', r⟩ (by
      rw [List.getElem?_append_right (by rw [length]; decide), length]
      rfl)).1
    rw [List.map_append, cls, List.map_cons, mine, List.map_singleton] at front
    have none : maker (List.replicate 1024 lsInto ++ [lsAlone, lsAlone]) (1025 + 1) = none := by
      have table := maker_ls 1024 2 1026
      exact table
    rw [none] at front
    change s'.handler.numberPipeList.next.front = .cleared at front
    have slot := ring.next.slot taken.next.headSlot
    rw [CircularBuffer.front_eq, CircularBuffer.headSlot_congr ring.next.head] at front
    have life := slot.cleared_iff.mp front
    have spent : taken.next.front = .spent := by
      rw [Slots.front_next (show taken.head = 1025 % 1024 from head)]
      exact (others 1026 (Or.inr (by decide))).trans (filled.spent 2 (by decide) (by decide))
    rw [CircularBuffer.front_eq] at spent
    cases life.symm.trans spent

end NetProg
