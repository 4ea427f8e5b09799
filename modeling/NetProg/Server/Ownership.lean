import NetProg.Server.Ledger

/-!
# Who closes what

Every `close` made while a user is served should hit a number that is free or was opened for him.
`Pipe` values are copied and `readEOF` keeps the numbers it closes, so this holds as long as no
stale copy is closed whose number somebody else has got since.
-/

namespace NetProg

namespace SingleProc

/-- A turn that closes no stale copy: no line comes back to a slot of the ring that was used up, no
`>n` without effect stands inside a line, and `exit` finds the numbers of an `eol` that `readEOF`
has closed still free. -/
def Owned (st : SingleProc) : ServerEvent → Prop
  | .connect _ _ => True
  | .line fd text => ∀ id user a, st.server.sockIDTable.find? fd = some id →
      st.server.users.find? id = some user →
      Account.texts (st.lines user.session) = some a →
      (∀ cl ∈ (parseCommand text).2, cl.NoSkippedUserPipe) ∧ a.text text ≠ none ∧
        (.exit ∈ (parseCommand text).1 → a.last ≠ none → user.handler.eol.Gone st.proc.fds)

section Step

variable {st : SingleProc} {parts : Int → Fin circularBufferSize → Held} {eols : Int → Held}
  {mail leaked : Held}

/-- A turn keeps the ledger and closes what is its own, also when it does not end. -/
theorem step_owned (ledger : Ledger parts eols mail leaked st) {event : ServerEvent}
    (ok : Owned st event) :
    Sat (st.step event)
      (fun st' => (∃ parts' eols' mail' leaked', Ledger parts' eols' mail' leaked' st') ∧
        ProperSince st.proc st'.proc)
      (fun stopped => ProperSince st.proc stopped.2) := by
  cases event with
  | connect ip port =>
      refine Sat.mono (connect_sat st ip port) ?_ ?_
      · intro st' accepted
        exact ⟨⟨_, _, _, _, ledger.connect accepted⟩, .announced accepted.log⟩
      · intro stopped failed
        rw [failed.1]
        exact .of_steps (.refl _)
  | line fd text =>
      by_cases somebody : ∃ id user, st.server.sockIDTable.find? fd = some id ∧
          st.server.users.find? id = some user
      · obtain ⟨id, user, known, found⟩ := somebody
        obtain ⟨a, account, -⟩ := ledger.agrees id user found
        obtain ⟨used, fits, free⟩ := ok id user a known found account
        obtain ⟨after, fits⟩ := Option.ne_none_iff_exists'.mp fits
        refine Sat.mono (ledger.line_ended known found account fits used free) ?_ ?_
        · intro st' ended
          obtain ⟨s, user', ran, -, found', ended⟩ := ended
          rcases ended with stays | leaves
          · obtain ⟨on, rfl⟩ := stays
            obtain ⟨pipes, eol, mail', leaked', -, ledger', proper⟩ :=
              ledger.stays found account fits ran found' on
            exact ⟨⟨_, _, _, _, ledger'⟩, proper⟩
          · obtain ⟨-, messages, kinds, rfl⟩ := leaves
            obtain ⟨pipes, eol, own, others, leaked', -, -, -, ledger', proper⟩ :=
              ledger.leaves known found ran found' kinds
            exact ⟨⟨_, _, _, _, ledger'⟩, proper⟩
        · intro stopped failed
          obtain ⟨⟨children, steps⟩, -⟩ := failed
          exact (ProperSince.of_steps (Ledger.shell_steps st fd id user)).trans (.of_steps steps)
      · rw [step_idle text fun id user known found => somebody ⟨id, user, known, found⟩]
        exact ProperSince.of_steps (.refl st.proc)

/-- The ledger and the log in every state that owned turns reach. -/
theorem reached_owned {limit : Nat} {canOpen : Text → Bool} {environ : List (Text × Text)}
    (reached : Reached next Owned (boot limit canOpen environ) st) :
    (∃ parts eols mail leaked, Ledger parts eols mail leaked st) ∧
      ∀ e ∈ st.proc.log, e.Proper := by
  refine reached.invariant (p := fun st =>
    (∃ parts eols mail leaked, Ledger parts eols mail leaked st) ∧ ∀ e ∈ st.proc.log, e.Proper)
    ?_ ?_
  · refine ⟨⟨_, _, _, _, boot_ledger limit canOpen environ⟩, ?_⟩
    have quiet : (boot limit canOpen environ).proc.log = [] := by
      rw [boot, setenv_rest]
      rfl
    rw [quiet]
    exact fun e member => absurd member List.not_mem_nil
  · intro st st' event kept ok stepped
    obtain ⟨⟨parts, eols, mail, leaked, ledger⟩, proper⟩ := kept
    obtain ⟨ledger', events, log, new⟩ :=
      (step_owned ledger ok).of_ok (next_eq_some.mp stepped)
    refine ⟨ledger', fun e member => ?_⟩
    rw [log] at member
    rcases List.mem_append.mp member with before | now
    · exact proper e before
    · exact new e now

end Step

/-- In a run whose turns are owned every close is made on a number that is free or was opened for the
user being served, in the turn that ends the process as well. -/
theorem closes_owned {limit : Nat} {canOpen : Text → Bool} {environ : List (Text × Text)}
    {st : SingleProc} (reached : Reached next Owned (boot limit canOpen environ) st)
    {event : ServerEvent} (ok : Owned st event) :
    (∀ e ∈ st.proc.log, e.Proper) ∧
      Sat (st.step event) (fun st' => ∀ e ∈ st'.proc.log, e.Proper)
        (fun stopped => ∀ e ∈ stopped.2.log, e.Proper) := by
  obtain ⟨⟨parts, eols, mail, leaked, ledger⟩, proper⟩ := reached_owned reached
  have whole : ∀ {k : Proc}, ProperSince st.proc k → ∀ e ∈ k.log, e.Proper := by
    intro k since e member
    obtain ⟨events, log, new⟩ := since
    rw [log] at member
    rcases List.mem_append.mp member with before | now
    · exact proper e before
    · exact new e now
  exact ⟨proper, Sat.mono (step_owned ledger ok) (fun st' kept => whole kept.2)
    (fun stopped since => whole since)⟩

/-- One user on socket 7, and his line `ls |1`. -/
theorem closes_owned_ls : ∃ st, runAll next [.connect "10.0.0.1".toList 5001]
      (boot 1024 (fun _ => true) []) = some st ∧
    Sat (st.step (.line 7 "ls |1".toList)) (fun st' => ∀ e ∈ st'.proc.log, e.Proper)
      (fun stopped => ∀ e ∈ stopped.2.log, e.Proper) := by
  refine ⟨_, rfl, (@closes_owned 1024 (fun _ => true) [] _
    (Reached.start.step (e := .connect "10.0.0.1".toList 5001) trivial rfl) _ ?_).2⟩
  intro id user a known found account
  cases known
  cases found
  cases account
  refine ⟨by decide +kernel, ?_, ?_⟩
  · have fits : (Account.init.text "ls |1".toList).isSome = true := by decide +kernel
    intro none
    rw [none] at fits
    cases fits
  · intro leaves
    exact absurd leaves (by decide +kernel)

/-- The first user's `ls |1` closes its `eol`, the second user gets the number for his socket, and
`exit` of the first closes it again. -/
def staleExit : List ServerEvent :=
  [.connect "10.0.0.1".toList 5001, .line 7 "ls |1".toList, .connect "10.0.0.2".toList 5002,
    .line 7 "exit".toList]

theorem exit_closes_socket : ∃ st,
    Reached next (fun _ _ => True) (boot 1024 (fun _ => true) []) st ∧
      .close 1 8 (some ⟨.socket 2, .user 2⟩) ∈ st.proc.log ∧
      ¬ ∀ e ∈ st.proc.log, e.Proper := by
  have closed : (runAll next staleExit (boot 1024 (fun _ => true) [])).map (fun st =>
      decide (.close 1 8 (some ⟨.socket 2, .user 2⟩) ∈ st.proc.log)) = some true := by
    decide +kernel
  obtain ⟨st, ran, seen⟩ := Option.map_eq_some_iff.mp closed
  have member := of_decide_eq_true seen
  refine ⟨st, Reached.start.runAll ran, member, fun proper => ?_⟩
  have mine := proper _ member
  revert mine
  decide

end SingleProc

end NetProg
