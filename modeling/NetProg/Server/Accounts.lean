import NetProg.Server.Builtins
import NetProg.Server.SingleProc
import NetProg.Server.UserIds
import NetProg.Shell.Accounts

/-!
# The descriptors of `np_single_proc`

The descriptor sum of the process is that of the server, of the sockets and accounts of the
connected users, of the user pipes, and of what nobody names any more.  The rules below follow this
sum through a line of a user, up to the state in which the server looks for the next one.
-/

namespace NetProg

/-- What the server keeps under the three standard numbers. -/
def serverStd (n : Nat) : Desc := ⟨.std n, .server⟩

/-- The descriptors 0, 1 and 2. -/
def standardPart (d : Nat → Desc) : Held := {(0, d 0)} + {(1, d 1)} + {(2, d 2)}

/-- The copies of the standard descriptors and the listener. -/
def savedPart : Held :=
  {(3, serverStd 0)} + {(4, serverStd 1)} + {(5, serverStd 2)} + {(6, ⟨.listener, .server⟩)}

def socketDesc (session : Nat) : Desc := ⟨.socket session, .user session⟩

/-- The socket of a user. -/
def socketPart (user : UserInfo) : Held := {(user.sock, socketDesc user.session)}

theorem lowOpen_standardPart (d : Nat → Desc) (rest : Held) : LowOpen (standardPart d + rest) := by
  intro n lt
  refine ⟨d n, Multiset.mem_add.mpr (Or.inl ?_)⟩
  simp only [standardPart, Multiset.mem_add, Multiset.mem_singleton, Prod.mk.injEq]
  have three : n = 0 ∨ n = 1 ∨ n = 2 := by omega
  rcases three with rfl | rfl | rfl
  · simp
  · simp
  · simp

/-- Numbers that are free with one set of standard descriptors are free with any other. -/
theorem gone_of_standard {t t' : FdTable Desc} {d d' : Nat → Desc} {rest : Held} {p : Pipe}
    (split : t.opens = standardPart d + rest) (split' : t'.opens = standardPart d' + rest)
    (gone : p.Gone t) : p.Gone t' := by
  intro n uses
  have free := gone n uses
  cases now : t'.get n with
  | none => rfl
  | some desc =>
      rw [← FdTable.mem_opens, split', Multiset.mem_add] at now
      have before : ∃ desc', (n, desc') ∈ t.opens := by
        rw [split]
        rcases now with standard | inside
        · have below : n < 3 := by
            simp only [standardPart, Multiset.mem_add, Multiset.mem_singleton, Prod.mk.injEq]
              at standard
            omega
          exact lowOpen_standardPart d rest n below
        · exact ⟨desc, Multiset.mem_add.mpr (Or.inr inside)⟩
      obtain ⟨desc', inside⟩ := before
      rw [FdTable.mem_opens, free] at inside
      cases inside

theorem bootFds_opens :
    SingleProc.bootFds.opens = standardPart serverStd + savedPart := by
  decide

namespace ChatServer

/-- `dup2` to the three standard numbers replaces what is under them. -/
theorem redirect_opens {k : Proc} {input output error : Nat} {d d' : Nat → Desc} {rest : Held}
    (split : k.fds.opens = standardPart d + rest) (first : (input, d' 0) ∈ rest)
    (second : (output, d' 1) ∈ rest) (third : (error, d' 2) ∈ rest) :
    (redirect (some input) (some output) (some error) k).fds.opens = standardPart d' + rest := by
  have from0 : k.fds.get input = some (d' 0) := by
    rw [add_comm] at split
    exact FdTable.get_of_mem_part split first
  have split0 : k.fds.opens = (0, d 0) ::ₘ ({(1, d 1)} + {(2, d 2)} + rest) := by
    rw [split, standardPart, ← Multiset.singleton_add]
    abel
  have opens0 := FdTable.opens_dup2 from0 split0
  have split1 : (k.dup2 (some input) 0).fds.opens =
      (1, d 1) ::ₘ ({(0, d' 0)} + {(2, d 2)} + rest) := by
    rw [Proc.dup2, opens0, ← Multiset.singleton_add, ← Multiset.singleton_add]
    abel
  have from1 : (k.dup2 (some input) 0).fds.get output = some (d' 1) := by
    rw [← FdTable.mem_opens, split1]
    exact Multiset.mem_cons_of_mem (Multiset.mem_add.mpr (Or.inr second))
  have opens1 := FdTable.opens_dup2 from1 split1
  have split2 : ((k.dup2 (some input) 0).dup2 (some output) 1).fds.opens =
      (2, d 2) ::ₘ ({(0, d' 0)} + {(1, d' 1)} + rest) := by
    rw [Proc.dup2, opens1, ← Multiset.singleton_add, ← Multiset.singleton_add]
    abel
  have from2 : ((k.dup2 (some input) 0).dup2 (some output) 1).fds.get error = some (d' 2) := by
    rw [← FdTable.mem_opens, split2]
    exact Multiset.mem_cons_of_mem (Multiset.mem_add.mpr (Or.inr third))
  have opens2 := FdTable.opens_dup2 from2 split2
  rw [redirect, Proc.dup2, opens2, standardPart, ← Multiset.singleton_add]
  abel

/-- The standard descriptors become the socket of a user. -/
theorem redirect_socket {k : Proc} {fd session : Nat} {d : Nat → Desc} {rest others : Held}
    (split : k.fds.opens = standardPart d + rest)
    (socket : rest = {(fd, socketDesc session)} + others) :
    (redirect (some fd) (some fd) (some fd) k).fds.opens =
      standardPart (fun _ => socketDesc session) + rest := by
  have inside : (fd, socketDesc session) ∈ rest := by
    rw [socket]
    exact Multiset.mem_add.mpr (Or.inl (Multiset.mem_singleton_self _))
  exact redirect_opens split inside inside inside

/-- They become those of the server again. -/
theorem redirect_saved {k : Proc} {d : Nat → Desc} {rest others : Held}
    (split : k.fds.opens = standardPart d + rest) (saved : rest = savedPart + others) :
    (redirect (some 3) (some 4) (some 5) k).fds.opens = standardPart serverStd + rest := by
  have inside : (3, serverStd 0) ∈ rest ∧ (4, serverStd 1) ∈ rest ∧ (5, serverStd 2) ∈ rest := by
    rw [saved]
    simp [savedPart]
  exact redirect_opens split inside.1 inside.2.1 inside.2.2

theorem redirect_steps (input output error : Fd) (k : Proc) :
    Proc.Steps k (redirect input output error k) [] := by
  cases input <;> cases output <;> cases error <;>
    exact Proc.Steps.quiet rfl rfl rfl (Nat.le_refl _) rfl

end ChatServer

namespace Account

/-- A line of input: `exit`, wherever it stands, comes before the command lines. -/
def text (text : Text) (a : Account) : Option Account :=
  (if .exit ∈ (parseCommand text).1 then a.exit else a).queue (parseCommand text).2

/-- The lines of a connection. -/
def texts (texts : List Text) : Option Account := texts.foldlM (fun a line => a.text line) .init

theorem texts_snoc (lines : List Text) (line : Text) :
    texts (lines ++ [line]) = (texts lines).bind (text line) := by
  rw [texts, List.foldlM_append]
  show _ = (texts lines).bind _
  rw [texts]
  congr 1
  funext a
  exact bind_pure _

end Account

namespace MailAgrees

variable {server server' : ChatServer} {mail : Held} {id : Int} {user : UserInfo}

/-- A new user brings no user pipes. -/
theorem addUser (h : MailAgrees server mail) (absent : server.users.find? id = none)
    (users : server'.users = server.users.insert id user)
    (boxes : ∀ i, user.userPipes i = .cleared) : MailAgrees server' mail := by
  obtain ⟨parts, agrees, rfl⟩ := h
  refine ⟨Function.update parts id fun _ => 0, ?_, ?_⟩
  · intro uid user' found i
    rw [users, OrdMap.find?_insert] at found
    split at found
    · rename_i same
      cases found
      rw [boxes i, same, Function.update_self]
      exact .empty
    · rename_i other
      rw [Function.update_of_ne other]
      exact agrees uid user' found i
  · rw [users, OrdMap.total_insert, Function.update_self, Finset.sum_const_zero, zero_add,
      OrdMap.erase_of_find?_none absent]
    refine OrdMap.total_congr fun uid user' found => ?_
    have other : uid ≠ id := by
      rintro rfl
      cases absent.symm.trans found
    rw [Function.update_of_ne other]

/-- A user takes the pipes in his record along. -/
theorem dropUser (h : MailAgrees server mail) (found : server.users.find? id = some user)
    (users : server'.users = server.users.erase id) :
    ∃ own others, mail = own + others ∧ MailAgrees server' others ∧
      ((∀ i, user.userPipes i = .cleared) → own = 0) := by
  obtain ⟨parts, agrees, rfl⟩ := h
  refine ⟨_, _, OrdMap.total_split _ found, ⟨parts, ?_, by rw [users]⟩, ?_⟩
  · intro uid user' found' i
    rw [users, OrdMap.find?_erase] at found'
    split at found'
    · cases found'
    · exact agrees uid user' found' i
  · intro empty
    refine Finset.sum_eq_zero fun i _ => ?_
    have box := agrees id user found i
    rw [empty i] at box
    exact box.part_zero

end MailAgrees

namespace ChatServer

variable {session : Nat} {id : Int} {a after : Account} {eol mail rest : Held}
  {parts : Fin circularBufferSize → Held} {s : ShellState ChatServer}

/-- What the built-in commands of a line leave, when the account says `after`. -/
def BuiltinsAgree (session : Nat) (id : Int) (after : Account) (leaves : Prop) (eol rest : Held)
    (s r : ShellState ChatServer) : Prop :=
  ∃ parts' eol', after.Agrees session r.handler parts' eol' ∧
    r.proc.fds.opens = (∑ i, parts' i) + (eol' + rest) ∧
    (r.handler.running = true ↔ s.handler.running = true ∧ ¬ leaves) ∧
    Proc.Steps s.proc r.proc [] ∧ s.server.Kept id r.server ∧
    (∀ mail, MailAgrees s.server mail → MailAgrees r.server mail) ∧ (eol = 0 → eol' = 0)

/-- The rule for the built-in commands, by induction on them. -/
theorem performAll_account {builtins : List Builtin} (serving : s.proc.serving = session)
    (agrees : a.Agrees session s.handler parts eol) (low : LowOpen rest)
    (split : s.proc.fds.opens = (∑ i, parts i) + (eol + rest))
    (free : .exit ∈ builtins → a.last ≠ none → s.handler.eol.Gone s.proc.fds) :
    Sat (performAll id builtins s)
      (BuiltinsAgree session id (if .exit ∈ builtins then a.exit else a) (.exit ∈ builtins) eol
        rest s)
      (fun stopped => stopped.1 = .undefined ∧ Proc.Steps s.proc stopped.2 []) := by
  induction builtins generalizing a s parts eol with
  | nil =>
      exact ⟨parts, eol, agrees, split, by simp, .refl _, .refl id _, fun _ mailed => mailed,
        fun none => none⟩
  | cons builtin more ih =>
      by_cases last : builtin = .exit
      · subst last
        obtain ⟨parts', agrees', opens, steps⟩ := agrees.exit serving low split
          (free List.mem_cons_self)
        have rule := ih (s := { s with
            proc := s.handler.currPipe.closePipe
              (s.handler.prevPipe.closePipe (s.handler.eol.closePipe s.proc))
            handler := { s.handler with
              running := false, eol := .cleared, prevPipe := .cleared, currPipe := .cleared } })
          (steps.serving.trans serving) agrees' (opens.trans (congrArg _ (zero_add rest).symm))
          (fun _ some => absurd a.exit_last some)
        rw [if_pos List.mem_cons_self]
        refine Sat.mono rule ?_ ?_
        · rintro r ⟨parts'', eol', agrees'', opens', running, steps', kept, mails, none⟩
          refine ⟨parts'', eol', ?_, opens', ?_, steps.trans steps', kept, mails, fun _ => none rfl⟩
          · rw [Account.exit_exit, ite_self] at agrees''
            exact agrees''
          · simpa using running
        · intro stopped cause
          exact ⟨cause.1, steps.trans cause.2⟩
      · have other : .exit ∈ builtin :: more ↔ .exit ∈ more := by
          simp [Ne.symm last]
        simp only [other] at free ⊢
        refine Sat.bind (Sat.mono (perform_told last) (fun _ told => told) ?_) ?_
        · rintro stopped rfl
          exact ⟨rfl, .refl _⟩
        · intro r told
          have steps := told.proc.steps
          refine Sat.mono (ih (steps.serving.trans serving) (told.handler ▸ agrees)
            (by rw [told.proc.fds, split]) (by rw [told.handler, told.proc.fds]; exact free)) ?_ ?_
          · rintro r' ⟨parts'', eol', agrees'', opens', running, steps', kept, mails, none⟩
            refine ⟨parts'', eol', agrees'', opens', ?_, steps.trans steps', told.kept.trans kept,
              fun mail mailed => mails mail (told.mail mail mailed), none⟩
            rw [running, told.handler]
          · intro stopped cause
            exact ⟨cause.1, steps.trans cause.2⟩

/-- What a line of user `id` leaves, when the account says `after`: `leaked` are the pipes that
nobody names any more. -/
def LineRan (session : Nat) (id : Int) (after : Account) (leaves clean : Prop) (rest : Held)
    (s r : ShellState ChatServer) : Prop :=
  ∃ parts' eol' mail' leaked children, MailAgrees r.server mail' ∧ s.server.Kept id r.server ∧
    after.Agrees session r.handler parts' eol' ∧
    r.proc.fds.opens = (∑ i, parts' i) + (eol' + (mail' + (leaked + rest))) ∧
    (r.handler.running = true ↔ s.handler.running = true ∧ ¬ leaves) ∧
    Proc.Steps s.proc r.proc children ∧ (clean → eol' = 0 ∧ leaked = 0)

/-- How a line of user `id` fails: with undefined behaviour, or because the descriptors after some
of its command lines leave no room for the next one. -/
def LineFailed (session : Nat) (id : Int) (begun : Account) (queue : List NpCommandLine)
    (leaves : Prop) (eol rest : Held) (s : ShellState ChatServer) (stopped : Abort × Proc) : Prop :=
  (∃ children, Proc.Steps s.proc stopped.2 children) ∧
    (stopped.1 = .undefined ∨
      ∃ done cl more middle r, queue = done ++ cl :: more ∧ begun.queue done = some middle ∧
        LineRan session id middle leaves (eol = 0 ∧ ∀ cl ∈ done, cl.target ≠ none) rest s r ∧
        s.proc.limit ≤ r.proc.fds.opens.card + 2 * cl.npCommands.count .userPipe + 5)

/-- The rule for a line of input. -/
theorem runShell_account {fd : Nat} {line : Text} {user : UserInfo}
    (serves : s.server.getServingUserID fd = id) (found : s.server.users.find? id = some user)
    (used : ∀ cl ∈ (parseCommand line).2, cl.NoSkippedUserPipe)
    (fits : a.text line = some after) (serving : s.proc.serving = user.session)
    (mailed : MailAgrees s.server mail) (agrees : a.Agrees user.session s.handler parts eol)
    (low : LowOpen rest)
    (split : s.proc.fds.opens = (∑ i, parts i) + (eol + (mail + rest)))
    (free : .exit ∈ (parseCommand line).1 → a.last ≠ none → s.handler.eol.Gone s.proc.fds) :
    Sat (runShell fd line s)
      (LineRan user.session id after (.exit ∈ (parseCommand line).1)
        (eol = 0 ∧ ∀ cl ∈ (parseCommand line).2, cl.target ≠ none) rest s)
      (LineFailed user.session id (if .exit ∈ (parseCommand line).1 then a.exit else a)
        (parseCommand line).2 (.exit ∈ (parseCommand line).1) eol rest s) := by
  subst serves
  unfold runShell
  have builtins : Sat (performAll (s.server.getServingUserID fd) (parseCommand line).1 s) _ _ :=
    performAll_account serving agrees low.mono split free
  rw [Account.text] at fits
  generalize (if .exit ∈ (parseCommand line).1 then a.exit else a) = begun at fits builtins ⊢
  refine Sat.bind (Sat.mono builtins (fun _ done => done) ?_) ?_
  · intro stopped cause
    exact ⟨⟨[], cause.2⟩, Or.inl cause.1⟩
  · rintro b ⟨parts₁, eol₁, agrees₁, opens₁, running₁, steps₁, kept₁, mails, none⟩
    obtain ⟨user₁, found₁, core⟩ := kept₁.find found
    have session₁ : user₁.session = user.session := congrArg (fun c => c.2.2) core
    -- what a run of the command lines leaves is what the whole line leaves
    have whole : ∀ {next : Account} {done : List (Text × NpCommandLine)}
        {r : ShellState ChatServer},
        RunAgrees user.session (Mail (s.server.getServingUserID fd) b.server) next
          (eol₁ = 0 ∧ ∀ line ∈ done, line.2.target ≠ Option.none) rest b r →
        LineRan user.session (s.server.getServingUserID fd) next (.exit ∈ (parseCommand line).1)
          (eol = 0 ∧ ∀ line ∈ done, line.2.target ≠ Option.none) rest s r := by
      rintro next done r ⟨parts', eol', mail', leaked, children, ⟨mailed', kept'⟩, agrees', opens',
        running', steps', clean⟩
      refine ⟨parts', eol', mail', leaked, _, mailed', kept₁.trans kept', agrees', opens', ?_,
        steps₁.trans steps', fun both => clean ⟨none both.1, both.2⟩⟩
      rw [running', running₁]
    rw [ShellState.runQueue_eq]
    have proper : ∀ entry ∈ (parseCommand line).2.map fun cl => (line, cl),
        Shape entry.2.npCommands ∧ entry.2.NoSkippedUserPipe := by
      intro entry member
      obtain ⟨cl, inside, rfl⟩ := List.mem_map.mp member
      exact ⟨parseCommand_shape inside, used cl inside⟩
    have lines : ((parseCommand line).2.map fun cl => (line, cl)).map Prod.snd =
        (parseCommand line).2 := by
      rw [List.map_map]
      exact List.map_id _
    have fits' : begun.queue (((parseCommand line).2.map fun cl => (line, cl)).map Prod.snd) =
        some after := by
      rw [lines]
      exact fits
    have ran := ShellState.runLines_account (userPipeCalls_lawful found₁) proper fits'
      (session₁ ▸ steps₁.serving.trans serving)
      (⟨mails mail mailed, .refl _ _⟩ : Mail (s.server.getServingUserID fd) b.server b.server mail)
      (session₁ ▸ agrees₁) low opens₁
    rw [session₁] at ran
    refine Sat.bind (Sat.mono ran (fun _ reached => whole reached) ?_) ?_
    · rintro stopped ⟨done, entry, more, middle, r, split', fitsDone, reached, cause⟩
      obtain ⟨parts', eol', mail', leaked, children, -, -, -, -, -, steps', -⟩ := whole reached
      obtain ⟨children', steps''⟩ := cause.steps
      refine ⟨⟨_, steps'.trans steps''⟩, cause.cause.imp (fun undefined => undefined.1) ?_⟩
      rintro ⟨-, full⟩
      have queue : (parseCommand line).2 = done.map Prod.snd ++ entry.2 :: more.map Prod.snd := by
        rw [← lines, split', List.map_append, List.map_cons]
      have ran' := whole reached
      rw [← List.forall_mem_map (f := Prod.snd) (P := fun cl : NpCommandLine =>
        cl.target ≠ Option.none)] at ran'
      exact ⟨_, _, _, middle, r, queue, fitsDone, ran', steps'.limit ▸ full⟩
    · rintro r ⟨parts', eol', mail', leaked, children, mailed', kept', agrees', opens', running',
        steps', clean⟩
      have clean' : (eol = 0 ∧ ∀ cl ∈ (parseCommand line).2, cl.target ≠ Option.none) →
          eol' = 0 ∧ leaked = 0 := by
        rintro ⟨none, numbered⟩
        refine clean ⟨none, fun entry member => ?_⟩
        obtain ⟨cl, inside, rfl⟩ := List.mem_map.mp member
        exact numbered cl inside
      show LineRan _ _ _ _ _ _ _ (if _ then _ else _)
      split
      · exact ⟨parts', eol', mail', leaked, _, mailed', kept', agrees', opens', running',
          steps'.trans (Proc.Steps.cout _ _), clean'⟩
      · exact ⟨parts', eol', mail', leaked, _, mailed', kept', agrees', opens', running', steps',
          clean'⟩

/-- The user pipes in the records stay as they are. -/
def SameBoxes (old new : ChatServer) : Prop :=
  ∀ uid, (new.users.find? uid).map UserInfo.userPipes = (old.users.find? uid).map UserInfo.userPipes

theorem SameBoxes.find {old new : ChatServer} (same : SameBoxes old new) {uid : Int}
    {user' : UserInfo} (found : new.users.find? uid = some user') :
    ∃ user, old.users.find? uid = some user ∧ user.userPipes = user'.userPipes := by
  have boxes := (same uid).symm
  rw [found, Option.map_some] at boxes
  exact Option.map_eq_some_iff.mp boxes

theorem perform_boxes (builtin : Builtin) (s : ShellState ChatServer) :
    Sat (perform id builtin s) (fun r => SameBoxes s.server r.server) (fun _ => True) := by
  cases builtin with
  | exit => exact fun _ => rfl
  | printenv env =>
      show SameBoxes s.server (if _ then s else _).server
      split
      · exact fun _ => rfl
      · exact fun _ => rfl
  | setenv env var => exact fun _ => rfl
  | who => exact fun _ => rfl
  | tell uid message =>
      cases uid with
      | none => trivial
      | some uid =>
          refine Sat.bind (Sat.mono (tell_spoke s.server id uid message s.proc) (fun _ said => said)
            (fun _ _ => trivial)) fun k _ => ?_
          exact fun _ => rfl
  | yell message =>
      refine Sat.bind (Sat.mono (yell_spoke s.server id message s.proc) (fun _ said => said)
        (fun _ _ => trivial)) fun k _ => ?_
      exact fun _ => rfl
  | name name =>
      refine Sat.bind (?_ : Sat (s.server.name id name s.proc)
        (fun r => SameBoxes s.server r.2) _) fun r same => same
      unfold ChatServer.name
      split
      · exact fun _ => rfl
      · refine Sat.bind (Sat.mono (user_spec s.server id s.proc) (fun _ here => here)
          (fun _ _ => trivial)) fun user found => ?_
        dsimp only
        split
        · trivial
        · intro uid
          rw [setUser, OrdMap.find?_insert]
          split
          · rename_i same
            rw [same, found]
            rfl
          · rfl

/-- Without command lines a line of input does not touch them. -/
theorem runShell_boxes {fd : Nat} {line : Text} (none : (parseCommand line).2 = [])
    (s : ShellState ChatServer) :
    Sat (runShell fd line s) (fun r => SameBoxes s.server r.server) (fun _ => True) := by
  have builtins : ∀ (todo : List Builtin) (s : ShellState ChatServer),
      Sat (performAll (s.server.getServingUserID fd) todo s)
        (fun r => SameBoxes s.server r.server) (fun _ => True) := by
    intro todo s
    generalize s.server.getServingUserID fd = id
    induction todo generalizing s with
    | nil => exact fun _ => rfl
    | cons builtin more ih =>
        refine Sat.bind (perform_boxes builtin s) fun r same => ?_
        exact Sat.mono (ih r) (fun r' same' uid => (same' uid).trans (same uid)) (fun _ _ => trivial)
  unfold runShell
  refine Sat.bind (builtins _ s) fun r same => ?_
  have idle : Sat (r.runQueue (userPipeCalls (s.server.getServingUserID fd)) line
      (parseCommand line).2) (fun r' => SameBoxes s.server r'.server) (fun _ => True) := by
    rw [none]
    exact same
  refine Sat.bind idle fun r' same' => ?_
  show SameBoxes s.server (if _ then _ else r').server
  split
  · exact same'
  · exact same'

end ChatServer

end NetProg
