import Mathlib.Logic.Function.Basic
import NetProg.Lib.Runs
import NetProg.Lib.Text

/-!
# Chat messages of `np_multi_proc`

A message for a user is written into the one shared buffer of that user, and a signal makes the
user's process print and clear it.  Pending signals are not counted, and nothing keeps a second
sender, or the handler itself, away from a buffer that is in use.
-/

namespace NetProg

/-- `USER_MSG_LEN` (`np_project2/server/chatServer.hpp:6`). -/
def userMsgLen : Nat := 1024

/-- How far the handler `Kill` of a process has come (`np_project2/server/chatServer.cpp:29-36`). -/
inductive Kill where
  | idle
  | entered
  | printed
  deriving DecidableEq, Repr

/-- The processes of `n` users with their shared buffers.  `sent` lists the messages written for a
user with their senders; it is for the statements only. -/
structure Mailboxes (n : Nat) where
  buffer : Fin n → Text
  /-- A `SIGUSR1` is pending. -/
  pending : Fin n → Bool
  handler : Fin n → Kill
  /-- In `sendRawMessage`, between the write and the signal: for whom. -/
  sending : Fin n → Option (Fin n)
  /-- What was inserted into `std::cout`.  A terminal shows it line by line; any other standard
  output may keep it back until the process ends. -/
  terminal : Fin n → Text
  sent : Fin n → List (Fin n × Text)

namespace Mailboxes

variable {n : Nat}

inductive Event (n : Nat) where
  /-- `snprintf` of `sendRawMessage`. -/
  | write (p uid : Fin n) (msg : Text)
  /-- `kill` of `sendRawMessage`. -/
  | kill (p : Fin n)
  /-- `Kill` begins; from here on the signal is blocked and no more pending. -/
  | enter (uid : Fin n)
  /-- `std::cout << buffer`. -/
  | print (uid : Fin n)
  /-- `memset` of the buffer. -/
  | clear (uid : Fin n)

/-- `snprintf(buffer, sizeof(buffer), "%s", msg.c_str())`. -/
def formatted (msg : Text) : Text := (Text.cString msg).take (userMsgLen - 1)

def init (n : Nat) : Mailboxes n :=
  ⟨fun _ => [], fun _ => false, fun _ => .idle, fun _ => none, fun _ => [], fun _ => []⟩

/-- A process runs its own code only outside of its handler
(`np_project2/server/chatServer.cpp:29-47`). -/
def step (s : Mailboxes n) : Event n → Option (Mailboxes n)
  | .write p uid msg =>
    if s.handler p = .idle ∧ s.sending p = none then
      some { s with
        buffer := Function.update s.buffer uid (formatted msg)
        sending := Function.update s.sending p (some uid)
        sent := Function.update s.sent uid (s.sent uid ++ [(p, msg)]) }
    else none
  | .kill p =>
    match s.sending p with
    | none => none
    | some uid =>
      if s.handler p = .idle then
        some { s with
          pending := Function.update s.pending uid true
          sending := Function.update s.sending p none }
      else none
  | .enter uid =>
    if s.pending uid ∧ s.handler uid = .idle then
      some { s with
        pending := Function.update s.pending uid false
        handler := Function.update s.handler uid .entered }
    else none
  | .print uid =>
    if s.handler uid = .entered then
      some { s with
        terminal := Function.update s.terminal uid (s.terminal uid ++ s.buffer uid)
        handler := Function.update s.handler uid .printed }
    else none
  | .clear uid =>
    if s.handler uid = .printed then
      some { s with
        buffer := Function.update s.buffer uid []
        handler := Function.update s.handler uid .idle }
    else none

/-- No signal is pending or being handled for a user, and none is about to be raised. -/
def Quiet (s : Mailboxes n) (uid : Fin n) : Prop :=
  s.pending uid = false ∧ s.handler uid = .idle ∧ ∀ p, s.sending p ≠ some uid

/-- Once all is quiet, a terminal shows every message once, those of each sender in order. -/
def Delivered (s : Mailboxes n) : Prop :=
  ∀ uid, s.Quiet uid → ∃ order : List (Fin n × Text),
    (∀ p, order.filter (·.1 = p) = (s.sent uid).filter (·.1 = p)) ∧
      s.terminal uid = (order.map Prod.snd).flatten

/-- A message fits the buffer, and is written only while the receiver's mailbox is quiet. -/
def OneAtATime (s : Mailboxes n) : Event n → Prop
  | .write _ uid msg => s.Quiet uid ∧ '\x00' ∉ msg ∧ msg.length < userMsgLen
  | _ => True

/-- Where the last message for a user is. -/
inductive Stage (n : Nat) where
  | quiet
  | written (p : Fin n)
  | pending
  | entered
  | printed

namespace Stage

def handler : Stage n → Kill
  | .entered => .entered
  | .printed => .printed
  | _ => .idle

/-- What is not yet shown, if the buffer holds the given text. -/
def unshown (buffer : Text) : Stage n → Text
  | .quiet | .printed => []
  | _ => buffer

end Stage

/-- A mailbox at a stage: everything sent is shown or in the buffer. -/
structure At (s : Mailboxes n) (uid : Fin n) (stage : Stage n) : Prop where
  pending : s.pending uid = true ↔ stage = .pending
  handler : s.handler uid = stage.handler
  sending : ∀ p, s.sending p = some uid ↔ stage = .written p
  shown : s.terminal uid ++ stage.unshown (s.buffer uid) =
    ((s.sent uid).map Prod.snd).flatten

/-- A message that `snprintf` does not cut. -/
def Fits (msg : Text) : Prop := '\x00' ∉ msg ∧ msg.length < userMsgLen

theorem formatted_whole {msg : Text} (noNul : '\x00' ∉ msg) (fits : msg.length < userMsgLen) :
    formatted msg = msg := by
  rw [formatted, Text.cString_of_plain noNul]
  exact List.take_of_length_le (by simp only [userMsgLen] at *; omega)

theorem formatted_noNul (msg : Text) : '\x00' ∉ formatted msg := fun member =>
  Text.not_mem_cString msg (List.mem_of_mem_take member)

theorem formatted_length (msg : Text) : (formatted msg).length < userMsgLen := by
  have bound := List.length_take_le (userMsgLen - 1) (Text.cString msg)
  have positive : 0 < userMsgLen := by decide
  rw [formatted]
  omega

theorem formatted_eq_iff {msg : Text} : formatted msg = msg ↔ Fits msg := by
  constructor
  · intro whole
    have noNul := formatted_noNul msg
    have length := formatted_length msg
    rw [whole] at noNul length
    exact ⟨noNul, length⟩
  · intro fits
    exact formatted_whole fits.1 fits.2

/-- Of two texts the first is left exactly if it fills the buffer. -/
theorem formatted_append_iff {s t : Text} {c : Char} (plain : c ≠ '\x00') :
    formatted (s ++ c :: t) = s ↔ '\x00' ∉ s ∧ s.length + 1 = userMsgLen := by
  have front (noNul : '\x00' ∉ s) : Text.cString (s ++ c :: t) = s ++ c :: Text.cString t := by
    have other {d : Char} (different : d ≠ '\x00') : decide (d.toNat ≠ 0) = true :=
      decide_eq_true fun zero => different (Char.toNat_inj.mp zero)
    rw [Text.cString, List.takeWhile_append_of_pos fun d member => other fun same =>
      noNul (same ▸ member), List.takeWhile_cons, if_pos (other plain)]
    rfl
  constructor
  · intro cut
    have noNul : '\x00' ∉ s := cut ▸ formatted_noNul (s ++ c :: t)
    refine ⟨noNul, ?_⟩
    have length := congrArg List.length cut
    rw [formatted, front noNul, List.length_take, List.length_append, List.length_cons] at length
    have positive : 0 < userMsgLen := by decide
    omega
  · rintro ⟨noNul, full⟩
    rw [formatted, front noNul]
    exact List.take_left' (by omega)

/-- A quiet mailbox has shown everything. -/
theorem At.quiet {s : Mailboxes n} {uid : Fin n} {stage : Stage n} (there : s.At uid stage)
    (quiet : s.Quiet uid) : stage = .quiet := by
  obtain ⟨pending, handler, sending⟩ := quiet
  cases stage with
  | quiet => rfl
  | written p => exact absurd ((there.sending p).mpr rfl) (sending p)
  | pending =>
      rw [there.pending.mpr rfl] at pending
      cases pending
  | entered =>
      rw [there.handler] at handler
      cases handler
  | printed =>
      rw [there.handler] at handler
      cases handler

/-- A step that is not about a mailbox leaves it at its stage. -/
theorem At.frame {s s' : Mailboxes n} {uid : Fin n} {stage : Stage n} (there : s.At uid stage)
    (pending : s'.pending uid = s.pending uid) (handler : s'.handler uid = s.handler uid)
    (sending : ∀ p, s'.sending p = some uid ↔ s.sending p = some uid)
    (buffer : s'.buffer uid = s.buffer uid) (terminal : s'.terminal uid = s.terminal uid)
    (sent : s'.sent uid = s.sent uid) : s'.At uid stage := by
  refine ⟨?_, ?_, ?_, ?_⟩
  · rw [pending]
    exact there.pending
  · rw [handler]
    exact there.handler
  · intro p
    rw [sending]
    exact there.sending p
  · rw [buffer, terminal, sent]
    exact there.shown

/-- Every mailbox is at some stage. -/
def Staged (s : Mailboxes n) : Prop := ∀ uid, ∃ stage, s.At uid stage

section Step

variable {s s' : Mailboxes n}

theorem Staged.write (staged : s.Staged) {p uid : Fin n} {msg : Text}
    (alone : s.OneAtATime (.write p uid msg)) (stepped : s.step (.write p uid msg) = some s') :
    s'.Staged := by
  obtain ⟨quiet, noNul, fits⟩ := alone
  rw [step, Option.ite_none_right_eq_some, Option.some.injEq] at stepped
  obtain ⟨⟨free, ready⟩, rfl⟩ := stepped
  intro uid'
  obtain ⟨stage, there⟩ := staged uid'
  by_cases same : uid' = uid
  · subst same
    obtain rfl := there.quiet quiet
    refine ⟨.written p, by simp [quiet.1], quiet.2.1, fun q => ?_, ?_⟩
    · by_cases sender : q = p
      · subst sender
        simp
      · simp only [Function.update_of_ne sender, Stage.written.injEq]
        exact iff_of_false (quiet.2.2 q) (Ne.symm sender)
    · have before := there.shown
      simp only [Stage.unshown, List.append_nil] at before
      simp only [Function.update_self, Stage.unshown, formatted_whole noNul fits, before,
        List.map_append, List.flatten_append, List.map_singleton, List.flatten_singleton]
  · refine ⟨stage, there.frame rfl rfl (fun q => ?_) (Function.update_of_ne same _ _) rfl
      (Function.update_of_ne same _ _)⟩
    by_cases sender : q = p
    · subst sender
      simp [ready, Ne.symm same]
    · simp only [Function.update_of_ne sender]

theorem Staged.kill (staged : s.Staged) {p : Fin n} (stepped : s.step (.kill p) = some s') :
    s'.Staged := by
  rw [step] at stepped
  cases sending : s.sending p with
  | none =>
      rw [sending] at stepped
      cases stepped
  | some uid =>
      simp only [sending, Option.ite_none_right_eq_some, Option.some.injEq] at stepped
      obtain ⟨free, rfl⟩ := stepped
      intro uid'
      obtain ⟨stage, there⟩ := staged uid'
      by_cases same : uid' = uid
      · subst same
        obtain rfl := (there.sending p).mp sending
        refine ⟨.pending, by simp, there.handler, fun q => ?_, there.shown⟩
        by_cases sender : q = p
        · subst sender
          simp
        · simp only [Function.update_of_ne sender, reduceCtorEq, iff_false]
          intro other
          have written := (there.sending q).mp other
          exact sender (Stage.written.inj written).symm
      · refine ⟨stage, there.frame (Function.update_of_ne same _ _) rfl (fun q => ?_) rfl rfl rfl⟩
        by_cases sender : q = p
        · subst sender
          simp [sending, Ne.symm same]
        · simp only [Function.update_of_ne sender]

theorem Staged.enter (staged : s.Staged) {uid : Fin n} (stepped : s.step (.enter uid) = some s') :
    s'.Staged := by
  rw [step, Option.ite_none_right_eq_some, Option.some.injEq] at stepped
  obtain ⟨⟨raised, free⟩, rfl⟩ := stepped
  intro uid'
  obtain ⟨stage, there⟩ := staged uid'
  by_cases same : uid' = uid
  · subst same
    obtain rfl := there.pending.mp raised
    refine ⟨.entered, by simp, by simp [Stage.handler], fun q => ?_, there.shown⟩
    simpa using there.sending q
  · exact ⟨stage, there.frame (Function.update_of_ne same _ _) (Function.update_of_ne same _ _)
      (fun q => Iff.rfl) rfl rfl rfl⟩

theorem At.entered {uid : Fin n} {stage : Stage n} (there : s.At uid stage)
    (handler : s.handler uid = .entered) : stage = .entered := by
  rw [there.handler] at handler
  cases stage <;> first | rfl | cases handler

theorem At.printed {uid : Fin n} {stage : Stage n} (there : s.At uid stage)
    (handler : s.handler uid = .printed) : stage = .printed := by
  rw [there.handler] at handler
  cases stage <;> first | rfl | cases handler

theorem Staged.print (staged : s.Staged) {uid : Fin n} (stepped : s.step (.print uid) = some s') :
    s'.Staged := by
  rw [step, Option.ite_none_right_eq_some, Option.some.injEq] at stepped
  obtain ⟨entered, rfl⟩ := stepped
  intro uid'
  obtain ⟨stage, there⟩ := staged uid'
  by_cases same : uid' = uid
  · subst same
    obtain rfl := there.entered entered
    refine ⟨.printed, ?_, by simp [Stage.handler], fun q => ?_, ?_⟩
    · simpa using there.pending
    · simpa using there.sending q
    · have before := there.shown
      simp only [Stage.unshown] at before
      simp only [Function.update_self, Stage.unshown, List.append_nil]
      exact before
  · exact ⟨stage, there.frame rfl (Function.update_of_ne same _ _) (fun q => Iff.rfl) rfl
      (Function.update_of_ne same _ _) rfl⟩

theorem Staged.clear (staged : s.Staged) {uid : Fin n} (stepped : s.step (.clear uid) = some s') :
    s'.Staged := by
  rw [step, Option.ite_none_right_eq_some, Option.some.injEq] at stepped
  obtain ⟨printed, rfl⟩ := stepped
  intro uid'
  obtain ⟨stage, there⟩ := staged uid'
  by_cases same : uid' = uid
  · subst same
    obtain rfl := there.printed printed
    refine ⟨.quiet, ?_, by simp [Stage.handler], fun q => ?_, there.shown⟩
    · simpa using there.pending
    · simpa using there.sending q
  · exact ⟨stage, there.frame rfl (Function.update_of_ne same _ _) (fun q => Iff.rfl)
      (Function.update_of_ne same _ _) rfl rfl⟩

end Step

/-- Where every mailbox is at a stage, a quiet one has shown everything. -/
theorem Staged.delivered {s : Mailboxes n} (staged : s.Staged) : s.Delivered := by
  intro uid quiet
  obtain ⟨stage, there⟩ := staged uid
  obtain rfl := there.quiet quiet
  refine ⟨s.sent uid, fun p => rfl, ?_⟩
  have shown := there.shown
  simp only [Stage.unshown, List.append_nil] at shown
  exact shown

end Mailboxes

/-- No message is lost or repeated in a run that uses every mailbox for one message at a time. -/
theorem delivered_of_oneAtATime {n : Nat} {s : Mailboxes n}
    (run : Reached Mailboxes.step Mailboxes.OneAtATime (Mailboxes.init n) s) : s.Delivered := by
  have staged : s.Staged := by
    apply run.invariant (p := Mailboxes.Staged)
    · intro uid
      exact ⟨.quiet, by simp [Mailboxes.init], rfl, by simp [Mailboxes.init], rfl⟩
    · intro s s' e staged alone stepped
      cases e with
      | write p uid msg => exact staged.write alone stepped
      | kill p => exact staged.kill stepped
      | enter uid => exact staged.enter stepped
      | print uid => exact staged.print stepped
      | clear uid => exact staged.clear stepped
  exact staged.delivered

theorem delivered_of_oneAtATime_hello : ∃ s : Mailboxes 2,
    s.terminal 1 = "hello\n".toList ∧ s.Delivered := by
  refine ⟨_, ?_, delivered_of_oneAtATime (((Reached.start.step (e := .write 0 1 "hello\n".toList)
    ⟨⟨rfl, rfl, by decide⟩, by decide, by decide⟩ rfl).step (e := .kill 0) trivial rfl).step
      (e := .enter 1) trivial rfl |>.step (e := .print 1) trivial rfl)⟩
  rfl

/-- Two messages come before the one signal that is pending is handled. -/
theorem first_message_lost : ∃ s : Mailboxes 3, Reached Mailboxes.step (fun _ _ => True)
    (Mailboxes.init 3) s ∧ s.Quiet 2 ∧ s.terminal 2 = ['b'] ∧ ¬ s.Delivered := by
  have began : Reached Mailboxes.step (fun _ _ => True) (Mailboxes.init 3) (Mailboxes.init 3) :=
    .start
  have run := ((((((began.step (e := .write 0 2 ['a']) trivial rfl).step
    (e := .kill 0) trivial rfl).step (e := .write 1 2 ['b']) trivial rfl).step
    (e := .kill 1) trivial rfl).step (e := .enter 2) trivial rfl).step
    (e := .print 2) trivial rfl).step (e := .clear 2) trivial rfl
  refine ⟨_, run, ⟨rfl, rfl, by decide⟩, rfl, ?_⟩
  intro delivered
  obtain ⟨order, strings, shown⟩ := delivered 2 ⟨rfl, rfl, by decide⟩
  have first : ((0 : Fin 3), ['a']) ∈ order.filter (·.1 = 0) := by
    rw [strings 0]
    exact List.mem_cons_self
  have text : 'a' ∈ (order.map Prod.snd).flatten :=
    List.mem_flatten.mpr ⟨['a'], List.mem_map.mpr ⟨_, (List.mem_filter.mp first).1, rfl⟩,
      List.mem_cons_self⟩
  rw [← shown] at text
  exact absurd (List.mem_singleton.mp text) (by decide)

end NetProg
