import NetProg.Shell.CallRules

/-!
# `npshell`

The shell of the first project runs the same loop without user pipes.  Its process starts with
the three standard descriptors and nothing else.
-/

namespace NetProg

/-- There are no user pipes: a plain line never makes the calls. -/
def npshellCalls : UserPipeCalls Unit where
  readUserPipe := fun _ _ _ _ k server => .ok (.cleared, k, server)
  writeUserPipe := fun _ _ _ _ k server => .ok (.cleared, k, server)

/-- A command line of the first project: no `<i` and no `>j`. -/
structure NpCommandLine.Plain (cl : NpCommandLine) : Prop where
  readUid : cl.readUid = 0
  writeUid : cl.writeUid = 0
  commands : .userPipe ∉ cl.npCommands

/-- `npshell` before its first line (`np_project1/npshell.cpp:13-22`). -/
def npshell (limit : Nat) (canOpen : Text → Bool) (environ : List (Text × Text)) :
    ShellState Unit where
  proc := .start limit canOpen environ
  handler := .init
  server := ()

theorem lowOpen_standardFds : LowOpen standardFds.opens := by
  intro n lt
  refine ⟨⟨.std n, .server⟩, ?_⟩
  rw [FdTable.mem_opens]
  match n, lt with
  | 0, _ => rfl
  | 1, _ => rfl
  | 2, _ => rfl

/-- In `npshell` no descriptor belongs to a user pipe. -/
def NoMail (_ : Unit) (mail : Held) : Prop := mail = 0

theorem npshellCalls_lawful : npshellCalls.Lawful False 0 NoMail where
  read := by
    rintro readUid p line writeUid k server mail rest - - rfl split
    exact ⟨0, 0, rfl, Pipe.holds_cleared, Own.zero 0, by simpa using split, Nat.le_refl _, .refl k⟩
  write := by
    rintro writeUid p line readUid k server mail rest - - rfl split
    exact ⟨0, 0, rfl, Pipe.holds_cleared, Own.zero 0, by simpa using split, by simp, .refl k⟩

/-- The command lines of a run of `npshell`. -/
def PlainLines (lines : List (Text × NpCommandLine)) : Prop :=
  ∀ line ∈ lines, Shape line.2.npCommands ∧ line.2.Plain

theorem NpCommandLine.Plain.noSkipped {cl : NpCommandLine} (h : cl.Plain) :
    cl.NoSkippedUserPipe :=
  Or.inr (fun member => h.commands (List.dropLast_subset _ member))

/-- The lines `ls |1` and `ls`. -/
def lsInto : NpCommandLine := ⟨[.exe ["ls".toList], .numbered 1 false], 0, 0⟩

def lsAlone : NpCommandLine := ⟨[.exe ["ls".toList]], 0, 0⟩

/-- `into` times the line `ls |1`, then `alone` times `ls`. -/
def lsLines (into alone : Nat) : List (Text × NpCommandLine) :=
  List.replicate into ("ls |1".toList, lsInto) ++ List.replicate alone ("ls".toList, lsAlone)

theorem plain_lsLines (into alone : Nat) : PlainLines (lsLines into alone) := by
  intro line member
  rcases List.mem_append.mp member with member | member
  all_goals rw [(List.mem_replicate.mp member).2]
  · exact ⟨.closed _ _ (by decide), rfl, rfl, by decide⟩
  · exact ⟨.bare _, rfl, rfl, by decide⟩

end NetProg
