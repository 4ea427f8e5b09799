import NetProg.Server.Accounts

/-!
# The ledger of `np_single_proc`

`Ledger` ties the descriptor sum of the process to the accounts of all connected users.  A line of
one user changes his entry, the user pipes and what nobody names; a login opens an entry and a
logout takes one out.
-/

namespace NetProg

/-- What is held for a connected user: his socket, his numbered pipes and his `eol`. -/
def holding (parts : Int → Fin circularBufferSize → Held) (eols : Int → Held) (id : Int)
    (user : UserInfo) : Held :=
  socketPart user + ((∑ i, parts id i) + eols id)

/-- The descriptor sum between two turns of the loop; `leaked` are the descriptors that nobody
names any more. -/
structure Ledger (parts : Int → Fin circularBufferSize → Held) (eols : Int → Held)
    (mail leaked : Held) (st : SingleProc) : Prop where
  tidy : st.server.Tidy
  serverIn : st.server.serverIn = some 3
  serverOut : st.server.serverOut = some 4
  serverErr : st.server.serverErr = some 5
  fresh : ∀ session, st.nextSession ≤ session → st.lines session = []
  older : ∀ id user, st.server.users.find? id = some user → user.session < st.nextSession
  unique : ∀ id user id' user', st.server.users.find? id = some user →
    st.server.users.find? id' = some user' → user'.session = user.session → id' = id
  running : ∀ id user, st.server.users.find? id = some user → user.handler.running = true
  agrees : ∀ id user, st.server.users.find? id = some user →
    ∃ a, Account.texts (st.lines user.session) = some a ∧
      a.Agrees user.session user.handler (parts id) (eols id)
  mailed : MailAgrees st.server mail
  opens : st.proc.fds.opens = standardPart serverStd +
    (savedPart + (st.server.users.total (holding parts eols) + (mail + leaked)))

/-- All closes that are new in the log are proper. -/
def ProperSince (k k' : Proc) : Prop :=
  ∃ events, k'.log = k.log ++ events ∧ ∀ e ∈ events, e.Proper

theorem ProperSince.of_steps {k k' : Proc} {children : List Child}
    (steps : Proc.Steps k k' children) : ProperSince k k' := by
  obtain ⟨events, log, proper, -⟩ := steps.log
  exact ⟨events, log, proper⟩

theorem ProperSince.trans {k k' k'' : Proc} (h : ProperSince k k') (h' : ProperSince k' k'') :
    ProperSince k k'' := by
  obtain ⟨events, log, proper⟩ := h
  obtain ⟨events', log', proper'⟩ := h'
  refine ⟨events ++ events', by rw [log', log, List.append_assoc], fun e member => ?_⟩
  rcases List.mem_append.mp member with first | later
  · exact proper e first
  · exact proper' e later

theorem SingleProc.IsMessage.proper {e : Event} (kind : SingleProc.IsMessage e) : e.Proper := by
  rcases kind with said | sent
  · obtain ⟨text, rfl⟩ := said
    trivial
  · obtain ⟨fd, text, rfl⟩ := sent
    trivial

theorem ProperSince.announced {k k' : Proc} (h : SingleProc.Announced k k') :
    ProperSince k k' := by
  obtain ⟨messages, log, kinds⟩ := h
  exact ⟨messages, log, fun e member => (kinds e member).proper⟩

namespace SingleProc

theorem boot_nobody (limit : Nat) (canOpen : Text → Bool) (environ : List (Text × Text)) {id : Int}
    {user : UserInfo} : (boot limit canOpen environ).server.users.find? id ≠ some user := by
  intro found
  cases found

theorem boot_ledger (limit : Nat) (canOpen : Text → Bool) (environ : List (Text × Text)) :
    Ledger (fun _ _ => 0) (fun _ => 0) 0 0 (boot limit canOpen environ) where
  tidy := by
    refine ⟨fun id user found => absurd found (boot_nobody _ _ _), ?_,
      fun id user found => absurd found (boot_nobody _ _ _)⟩
    intro sock id known
    cases known
  serverIn := rfl
  serverOut := rfl
  serverErr := rfl
  fresh := fun _ _ => rfl
  older := fun _ _ found => absurd found (boot_nobody _ _ _)
  unique := fun _ _ _ _ found => absurd found (boot_nobody _ _ _)
  running := fun _ _ found => absurd found (boot_nobody _ _ _)
  agrees := fun _ _ found => absurd found (boot_nobody _ _ _)
  mailed := ⟨fun _ _ => 0, fun _ _ found => absurd found (boot_nobody _ _ _), rfl⟩
  opens := by
    have same : (boot limit canOpen environ).proc.fds = bootFds := by
      rw [boot, setenv_rest]
    rw [same, bootFds_opens]
    show standardPart serverStd + savedPart = standardPart serverStd + (savedPart + (0 + (0 + 0)))
    rw [add_zero, add_zero, add_zero]

end SingleProc

namespace Ledger

open SingleProc
open ChatServer (redirect addUser newUser nextID_spec addUser_users addUser_socks addUser_tidy)

variable {st : SingleProc} {parts : Int → Fin circularBufferSize → Held} {eols : Int → Held}
  {mail leaked : Held}

/-- The number that the next connection gets is nobody's socket. -/
theorem lowest_unknown (ledger : Ledger parts eols mail leaked st) :
    st.server.sockIDTable.find? st.proc.fds.lowest = none := by
  cases known : st.server.sockIDTable.find? st.proc.fds.lowest with
  | none => rfl
  | some id =>
      obtain ⟨user, found, own⟩ := ledger.tidy.userOfSock _ id known
      have split := ledger.opens
      rw [OrdMap.total_split _ found, holding] at split
      have inside : (st.proc.fds.lowest, socketDesc user.session) ∈ st.proc.fds.opens := by
        rw [split]
        simp [socketPart, own]
      rw [FdTable.mem_opens, FdTable.get_lowest] at inside
      cases inside

/-- A login opens an entry. -/
theorem connect (ledger : Ledger parts eols mail leaked st) {st' : SingleProc} {ip : Text}
    {port : Int} (accepted : Accepted st st' ip port) :
    Ledger (Function.update parts st.server.nextID fun _ => 0)
      (Function.update eols st.server.nextID 0) mail leaked st' := by
  obtain ⟨-, -, free⟩ := nextID_spec ledger.tidy
  have users : ∀ id, st'.server.users.find? id =
      if id = st.server.nextID then
        some (newUser st.nextSession ip port st.proc.fds.lowest (-1))
      else st.server.users.find? id := by
    rw [accepted.server]
    exact addUser_users
  -- a connected user is the new one or was there before
  have cases' : ∀ id user, st'.server.users.find? id = some user →
      (id = st.server.nextID ∧ user = newUser st.nextSession ip port st.proc.fds.lowest (-1)) ∨
        (id ≠ st.server.nextID ∧ st.server.users.find? id = some user) := by
    intro id user found
    rw [users] at found
    split at found
    · rename_i same
      exact Or.inl ⟨same, (Option.some.inj found).symm⟩
    · rename_i other
      exact Or.inr ⟨other, found⟩
  refine ⟨?_, ?_, ?_, ?_, ?_, ?_, ?_, ?_, ?_, ?_, ?_⟩
  · rw [accepted.server]
    exact addUser_tidy ledger.tidy ledger.lowest_unknown
  · rw [accepted.server]
    exact ledger.serverIn
  · rw [accepted.server]
    exact ledger.serverOut
  · rw [accepted.server]
    exact ledger.serverErr
  · intro session later
    rw [accepted.nextSession] at later
    rw [accepted.lines]
    exact ledger.fresh session (Nat.le_of_succ_le later)
  · intro id user found
    rw [accepted.nextSession]
    rcases cases' id user found with new | old
    · obtain ⟨-, rfl⟩ := new
      exact Nat.lt_succ_self _
    · exact Nat.lt_succ_of_lt (ledger.older id user old.2)
  · intro id user id' user' found found' same
    rcases cases' id user found with new | old
    · rcases cases' id' user' found' with new' | old'
      · rw [new.1, new'.1]
      · have before := ledger.older id' user' old'.2
        rw [same, new.2] at before
        exact absurd before (Nat.lt_irrefl _)
    · rcases cases' id' user' found' with new' | old'
      · have before := ledger.older id user old.2
        rw [← same, new'.2] at before
        exact absurd before (Nat.lt_irrefl _)
      · exact ledger.unique id user id' user' old.2 old'.2 same
  · intro id user found
    rcases cases' id user found with new | old
    · obtain ⟨-, rfl⟩ := new
      rfl
    · exact ledger.running id user old.2
  · intro id user found
    rw [accepted.lines]
    rcases cases' id user found with new | old
    · obtain ⟨rfl, rfl⟩ := new
      refine ⟨.init, ?_, ?_⟩
      · show Account.texts (st.lines st.nextSession) = _
        rw [ledger.fresh _ (Nat.le_refl _)]
        rfl
      · rw [Function.update_self, Function.update_self]
        exact Account.init_agrees _
    · rw [Function.update_of_ne old.1, Function.update_of_ne old.1]
      exact ledger.agrees id user old.2
  · exact ledger.mailed.addUser free (by rw [accepted.server]; rfl) fun _ => rfl
  · have inserted : st'.server.users = st.server.users.insert st.server.nextID
        (newUser st.nextSession ip port st.proc.fds.lowest (-1)) := by
      rw [accepted.server]
      rfl
    have others : st.server.users.total (holding
        (Function.update parts st.server.nextID fun _ => 0)
        (Function.update eols st.server.nextID 0)) = st.server.users.total (holding parts eols) := by
      refine OrdMap.total_congr fun id user found => ?_
      have other : id ≠ st.server.nextID := by
        rintro rfl
        cases free.symm.trans found
      rw [holding, holding, Function.update_of_ne other, Function.update_of_ne other]
    rw [accepted.fds, FdTable.opens_insert, ledger.opens, inserted, OrdMap.total_insert,
      OrdMap.erase_of_find?_none free, others, holding, Function.update_self, Function.update_self,
      Finset.sum_const_zero, add_zero, add_zero, ← Multiset.singleton_add]
    have socket : socketPart (newUser st.nextSession ip port st.proc.fds.lowest (-1)) =
        {(st.proc.fds.lowest, ⟨.socket st.nextSession, .user st.nextSession⟩)} := rfl
    rw [socket]
    abel

section Line

variable {fd : Nat} {text : Text} {id : Int} {user : UserInfo} {a after : Account}

/-- What is held while a line of one user runs, beside his pipes and the user pipes. -/
def besides (parts : Int → Fin circularBufferSize → Held) (eols : Int → Held) (leaked : Held)
    (st : SingleProc) (id : Int) (user : UserInfo) : Held :=
  standardPart (fun _ => socketDesc user.session) + (socketPart user + (savedPart +
    ((st.server.users.erase id).total (holding parts eols) + leaked)))

theorem shell_fds (st : SingleProc) (fd : Nat) (id : Int) (user : UserInfo) :
    (st.shell fd id user).proc.fds =
      (redirect (some fd) (some fd) (some fd) { st.proc with serving := user.session }).fds := by
  rw [shell, setenv_rest]

/-- The sum outside the standard descriptors, with one user apart. -/
def beyond (parts : Int → Fin circularBufferSize → Held) (eols : Int → Held) (mail leaked : Held)
    (st : SingleProc) (id : Int) (user : UserInfo) : Held :=
  (∑ i, parts id i) + (eols id + (mail + (socketPart user + (savedPart +
    ((st.server.users.erase id).total (holding parts eols) + leaked)))))

theorem split_user (ledger : Ledger parts eols mail leaked st)
    (found : st.server.users.find? id = some user) :
    st.proc.fds.opens = standardPart serverStd + beyond parts eols mail leaked st id user := by
  rw [ledger.opens, OrdMap.total_split _ found, holding, beyond]
  abel

theorem shell_split (ledger : Ledger parts eols mail leaked st) (own : user.sock = fd)
    (found : st.server.users.find? id = some user) :
    (st.shell fd id user).proc.fds.opens = standardPart (fun _ => socketDesc user.session) +
      beyond parts eols mail leaked st id user := by
  have socket : beyond parts eols mail leaked st id user = {(fd, socketDesc user.session)} +
      ((∑ i, parts id i) + (eols id + (mail + (savedPart +
        ((st.server.users.erase id).total (holding parts eols) + leaked))))) := by
    rw [beyond, socketPart, own]
    abel
  rw [shell_fds]
  exact ChatServer.redirect_socket (k := { st.proc with serving := user.session })
    (ledger.split_user found) socket

/-- The sum at the start of the line: the standard descriptors are the socket. -/
theorem shell_opens (ledger : Ledger parts eols mail leaked st) (own : user.sock = fd)
    (found : st.server.users.find? id = some user) :
    (st.shell fd id user).proc.fds.opens =
      (∑ i, parts id i) + (eols id + (mail + besides parts eols leaked st id user)) := by
  rw [ledger.shell_split own found, beyond, besides]
  abel

/-- The stale numbers of `eol` are as free for the shell as they were before. -/
theorem shell_gone (ledger : Ledger parts eols mail leaked st) (own : user.sock = fd)
    (found : st.server.users.find? id = some user) {p : Pipe} (gone : p.Gone st.proc.fds) :
    p.Gone (st.shell fd id user).proc.fds :=
  gone_of_standard (ledger.split_user found) (ledger.shell_split own found) gone

/-- The entries of the others, before and after. -/
theorem others_total {server : ChatServer}
    (kept : ∀ uid, uid ≠ id →
      (server.users.find? uid).map UserInfo.core = (st.server.users.find? uid).map UserInfo.core)
    (pipes : Fin circularBufferSize → Held) (eol : Held) :
    (server.users.erase id).total
        (holding (Function.update parts id pipes) (Function.update eols id eol)) =
      (st.server.users.erase id).total (holding parts eols) := by
  refine OrdMap.total_ext fun uid => ?_
  rw [OrdMap.find?_erase, OrdMap.find?_erase]
  by_cases same : uid = id
  · rw [if_pos same, if_pos same, Option.map_none, Option.map_none]
  · rw [if_neg same, if_neg same]
    have core := kept uid same
    have entry : ∀ user : UserInfo,
        holding (Function.update parts id pipes) (Function.update eols id eol) uid user =
          {(user.core.2.1, socketDesc user.core.2.2)} + ((∑ i, parts uid i) + eols uid) := by
      intro user
      rw [holding, Function.update_of_ne same, Function.update_of_ne same]
      rfl
    have entry' : ∀ user : UserInfo, holding parts eols uid user =
        {(user.core.2.1, socketDesc user.core.2.2)} + ((∑ i, parts uid i) + eols uid) :=
      fun _ => rfl
    rw [funext entry, funext entry']
    generalize server.users.find? uid = now at core
    generalize st.server.users.find? uid = before at core
    cases now with
    | none =>
        cases before with
        | none => rw [Option.map_none]
        | some old => cases core
    | some new =>
        cases before with
        | none => cases core
        | some old =>
            rw [Option.map_some, Option.map_some, Option.some.inj core]

/-- The sum over all entries when one of them is new. -/
theorem entry_total {server : ChatServer} {user' : UserInfo}
    (kept : ∀ uid, uid ≠ id →
      (server.users.find? uid).map UserInfo.core = (st.server.users.find? uid).map UserInfo.core)
    (found : server.users.find? id = some user') (same : socketPart user' = socketPart user)
    (pipes : Fin circularBufferSize → Held) (eol : Held) :
    server.users.total (holding (Function.update parts id pipes) (Function.update eols id eol)) =
      socketPart user + ((∑ i, pipes i) + eol) +
        (st.server.users.erase id).total (holding parts eols) := by
  rw [OrdMap.total_split _ found, others_total kept, holding, Function.update_self,
    Function.update_self, same]

/-- After a line of one user: his entry is a new one, or he is gone. -/
theorem after_line (ledger : Ledger parts eols mail leaked st)
    (found : st.server.users.find? id = some user) {st' : SingleProc}
    {pipes : Fin circularBufferSize → Held} {eol mail' leaked' : Held}
    (tidy : st'.server.Tidy) (serverIn : st'.server.serverIn = st.server.serverIn)
    (serverOut : st'.server.serverOut = st.server.serverOut)
    (serverErr : st'.server.serverErr = st.server.serverErr)
    (next : st'.nextSession = st.nextSession) (lines : st'.lines = st.served user text)
    (kept : ∀ uid, uid ≠ id → (st'.server.users.find? uid).map UserInfo.core =
      (st.server.users.find? uid).map UserInfo.core)
    (own : ∀ user', st'.server.users.find? id = some user' → user'.session = user.session ∧
      user'.handler.running = true ∧ ∃ a, Account.texts (st'.lines user.session) = some a ∧
        a.Agrees user.session user'.handler pipes eol)
    (mailed : MailAgrees st'.server mail')
    (opens : st'.proc.fds.opens = standardPart serverStd + (savedPart +
      (st'.server.users.total (holding (Function.update parts id pipes)
        (Function.update eols id eol)) + (mail' + leaked')))) :
    Ledger (Function.update parts id pipes) (Function.update eols id eol) mail' leaked' st' := by
  -- whoever is connected was so before, and only the user himself has a new handler
  have back : ∀ uid user', st'.server.users.find? uid = some user' →
      ∃ old, st.server.users.find? uid = some old ∧ user'.session = old.session ∧
        (uid ≠ id → user'.handler = old.handler) := by
    intro uid user' there
    by_cases same : uid = id
    · subst same
      exact ⟨user, found, (own user' there).1, fun other => absurd rfl other⟩
    · have core := kept uid same
      rw [there, Option.map_some] at core
      obtain ⟨old, before, equal⟩ := Option.map_eq_some_iff.mp core.symm
      exact ⟨old, before, congrArg (fun c => c.2.2) equal.symm,
        fun _ => congrArg (fun c => c.1) equal.symm⟩
  refine ⟨tidy, serverIn.trans ledger.serverIn, serverOut.trans ledger.serverOut,
    serverErr.trans ledger.serverErr, ?_, ?_, ?_, ?_, ?_, mailed, opens⟩
  · intro session later
    rw [next] at later
    have before := ledger.older id user found
    rw [lines, served, Function.update_of_ne (by omega)]
    exact ledger.fresh session later
  · intro uid user' there
    obtain ⟨old, before, same, -⟩ := back uid user' there
    rw [same, next]
    exact ledger.older uid old before
  · intro uid user₁ uid' user₂ there there' same
    obtain ⟨old, before, same₁, -⟩ := back uid user₁ there
    obtain ⟨old', before', same₂, -⟩ := back uid' user₂ there'
    exact ledger.unique uid old uid' old' before before' (by rw [← same₁, ← same₂, same])
  · intro uid user' there
    by_cases same : uid = id
    · subst same
      exact (own user' there).2.1
    · obtain ⟨old, before, -, handler⟩ := back uid user' there
      rw [handler same]
      exact ledger.running uid old before
  · intro uid user' there
    by_cases same : uid = id
    · subst same
      obtain ⟨session, -, account⟩ := own user' there
      rw [Function.update_self, Function.update_self, session]
      exact account
    · obtain ⟨old, before, session, handler⟩ := back uid user' there
      have other : old.session ≠ user.session := fun equal =>
        same (ledger.unique id user uid old found before equal)
      rw [Function.update_of_ne same, Function.update_of_ne same, session, handler same, lines,
        served, Function.update_of_ne other]
      exact ledger.agrees uid old before

/-- How a line of a user ends: he stays or leaves, after his shell went from one state to
another. -/
def LineEnded (parts : Int → Fin circularBufferSize → Held) (eols : Int → Held) (leaked : Held)
    (st : SingleProc) (fd : Nat) (text : Text) (id : Int) (user : UserInfo) (after : Account)
    (st' : SingleProc) : Prop :=
  ∃ s user', ChatServer.LineRan user.session id after (.exit ∈ (parseCommand text).1)
      (eols id = 0 ∧ ∀ cl ∈ (parseCommand text).2, cl.target ≠ none)
      (besides parts eols leaked st id user) (st.shell fd id user) s ∧
    ((parseCommand text).2 = [] → st.server.SameBoxes s.server) ∧
    s.server.users.find? id = some user' ∧
    (s.handler.running = true ∧ st' = st.stays fd text id user s user' ∨
      s.handler.running = false ∧ ∃ messages, (∀ e ∈ messages, IsMessage e) ∧
        st' = st.leaves fd text id user s user' messages)

theorem shell_steps (st : SingleProc) (fd : Nat) (id : Int) (user : UserInfo) :
    Proc.Steps { st.proc with serving := user.session } (st.shell fd id user).proc [] := by
  have redirected := ChatServer.redirect_steps (some fd) (some fd) (some fd)
    { st.proc with serving := user.session }
  have assigned := Proc.Spoke.setenv (redirect (some fd) (some fd) (some fd)
    { st.proc with serving := user.session }) "PATH".toList
    (st.server.getServingUserEnv id "PATH".toList)
  exact redirected.trans assigned.steps

/-- The rule for a line of a connected user. -/
theorem line_ended (ledger : Ledger parts eols mail leaked st)
    (known : st.server.sockIDTable.find? fd = some id)
    (found : st.server.users.find? id = some user)
    (account : Account.texts (st.lines user.session) = some a) (fits : a.text text = some after)
    (used : ∀ cl ∈ (parseCommand text).2, cl.NoSkippedUserPipe)
    (free : .exit ∈ (parseCommand text).1 → a.last ≠ none →
      user.handler.eol.Gone st.proc.fds) :
    Sat (st.step (.line fd text)) (LineEnded parts eols leaked st fd text id user after)
      (ChatServer.LineFailed user.session id
        (if .exit ∈ (parseCommand text).1 then a.exit else a) (parseCommand text).2
        (.exit ∈ (parseCommand text).1) (eols id) (besides parts eols leaked st id user)
        (st.shell fd id user)) := by
  obtain ⟨user₁, found₁, own⟩ := ledger.tidy.userOfSock fd id known
  cases found.symm.trans found₁
  obtain ⟨a₁, account₁, agrees⟩ := ledger.agrees id user found
  cases account.symm.trans account₁
  have serves : (st.shell fd id user).server.getServingUserID fd = id := by
    show st.server.getServingUserID fd = id
    rw [ChatServer.getServingUserID, known]
    rfl
  have ran := ChatServer.runShell_account (s := st.shell fd id user) serves found used fits
    (shell_steps st fd id user).serving ledger.mailed agrees (lowOpen_standardPart _ _)
    (ledger.shell_opens own found) (fun leaves stale => ledger.shell_gone own found
      (free leaves stale))
  have boxes : Sat (ChatServer.runShell fd text (st.shell fd id user))
      (fun s => (parseCommand text).2 = [] → st.server.SameBoxes s.server) (fun _ => True) := by
    by_cases none : (parseCommand text).2 = []
    · exact Sat.mono (ChatServer.runShell_boxes none _) (fun s same _ => same) (fun _ _ => trivial)
    · cases ChatServer.runShell fd text (st.shell fd id user) with
      | ok s => exact fun idle => absurd idle none
      | error stopped => trivial
  refine serve_sat known found (Sat.mono (ran.and boxes) (fun _ both => both)
    (fun _ both => both.1)) ?_ ?_ ?_
  · intro s both
    obtain ⟨⟨parts', eol', mail', leaked', children, mailed, kept, -⟩, -⟩ := both
    obtain ⟨user', found', -⟩ := kept.find found
    exact ⟨kept.sockIDTable, user', found'⟩
  · intro s user' both found' on
    exact ⟨s, user', both.1, both.2, found', Or.inl ⟨on, rfl⟩⟩
  · intro s user' messages both found' off kinds
    exact ⟨s, user', both.1, both.2, found', Or.inr ⟨off, messages, kinds, rfl⟩⟩

variable {s : ShellState ChatServer} {user' : UserInfo} {departs clean : Prop}

/-- The records of the others after a line. -/
theorem stays_users (fd : Nat) (text : Text) (user user' : UserInfo)
    (kept : st.server.Kept id s.server) {uid : Int} (other : uid ≠ id) :
    ((st.stays fd text id user s user').server.users.find? uid).map UserInfo.core =
      (st.server.users.find? uid).map UserInfo.core := by
  rw [SingleProc.stays, stored, ChatServer.setUser, OrdMap.find?_insert, if_neg other]
  exact kept.users uid

theorem leaves_erased (st : SingleProc) (fd : Nat) (text : Text) (id : Int)
    (s : ShellState ChatServer) (user user' : UserInfo) (messages : List Event) :
    (st.leaves fd text id user s user' messages).server.users = s.server.users.erase id :=
  OrdMap.erase_insert _ _ _

theorem leaves_users (fd : Nat) (text : Text) (user user' : UserInfo) (messages : List Event)
    (kept : st.server.Kept id s.server) {uid : Int} (other : uid ≠ id) :
    ((st.leaves fd text id user s user' messages).server.users.find? uid).map UserInfo.core =
      (st.server.users.find? uid).map UserInfo.core := by
  rw [leaves_erased, OrdMap.find?_erase, if_neg other]
  exact kept.users uid

/-- The standard descriptors are put back, and nothing else changes. -/
theorem restored_spec (ledger : Ledger parts eols mail leaked st)
    (kept : st.server.Kept id s.server) {pipes eol mail' leaked' : Held}
    (opens : s.proc.fds.opens =
      pipes + (eol + (mail' + (leaked' + besides parts eols leaked st id user)))) :
    (restored s).fds.opens = standardPart serverStd + (pipes + (eol + (mail' + (leaked' +
      (socketPart user + (savedPart + ((st.server.users.erase id).total (holding parts eols) +
        leaked))))))) ∧
      Proc.Steps s.proc (restored s) [] := by
  have split : s.proc.fds.opens = standardPart (fun _ => socketDesc user.session) +
      (pipes + (eol + (mail' + (leaked' + (socketPart user + (savedPart +
        ((st.server.users.erase id).total (holding parts eols) + leaked))))))) := by
    rw [opens, besides]
    abel
  have saved : pipes + (eol + (mail' + (leaked' + (socketPart user + (savedPart +
      ((st.server.users.erase id).total (holding parts eols) + leaked)))))) = savedPart +
        (pipes + (eol + (mail' + (leaked' + (socketPart user +
          ((st.server.users.erase id).total (holding parts eols) + leaked)))))) := by
    abel
  refine ⟨?_, ChatServer.redirect_steps _ _ _ _⟩
  rw [restored, kept.serverIn, kept.serverOut, kept.serverErr, ledger.serverIn, ledger.serverOut,
    ledger.serverErr]
  exact ChatServer.redirect_saved split saved

/-- A user who stays has a new entry. -/
theorem stays (ledger : Ledger parts eols mail leaked st)
    (found : st.server.users.find? id = some user)
    (account : Account.texts (st.lines user.session) = some a) (fits : a.text text = some after)
    (ran : ChatServer.LineRan user.session id after departs clean
      (besides parts eols leaked st id user) (st.shell fd id user) s)
    (found' : s.server.users.find? id = some user') (on : s.handler.running = true) :
    ∃ pipes eol mail' leaked', (clean → eol = 0 ∧ leaked' = 0) ∧
      Ledger (Function.update parts id pipes) (Function.update eols id eol) mail'
        (leaked' + leaked) (st.stays fd text id user s user') ∧
      ProperSince st.proc (st.stays fd text id user s user').proc := by
  obtain ⟨pipes, eol, mail', leaked', children, mailed, kept, agrees, opens, -, steps, tidied⟩ := ran
  obtain ⟨opens', steps'⟩ := ledger.restored_spec (s := s) kept opens
  obtain ⟨user₁, found₁, core⟩ := kept.find found
  cases found'.symm.trans found₁
  have session : user'.session = user.session := congrArg (fun c => c.2.2) core
  have sock : user'.sock = user.sock := congrArg (fun c => c.2.1) core
  have users : ∀ uid, uid ≠ id → ((stored s id user').users.find? uid).map UserInfo.core =
      (st.server.users.find? uid).map UserInfo.core := by
    intro uid other
    exact stays_users fd text user user' kept other
  refine ⟨pipes, eol, mail', leaked', tidied, ?_, ?_⟩
  · refine ledger.after_line found ?_ kept.serverIn kept.serverOut kept.serverErr rfl rfl users ?_
      (mailed.setUser found' rfl rfl) ?_
    · exact (ledger.tidy.kept kept).setUser found' rfl
    · intro user'' there
      have record : { user' with handler := s.handler } = user'' := by
        rw [SingleProc.stays, stored, ChatServer.setUser, OrdMap.find?_insert, if_pos rfl] at there
        exact Option.some.inj there
      subst record
      refine ⟨session, on, after, ?_, agrees⟩
      show Account.texts (st.served user text user.session) = some after
      rw [served, Function.update_self, Account.texts_snoc, account]
      exact fits
    · have socket : socketPart { user' with handler := s.handler } = socketPart user := by
        rw [socketPart, socketPart, ← sock, ← session]
      have total : (st.stays fd text id user s user').server.users.total
          (holding (Function.update parts id pipes) (Function.update eols id eol)) =
          socketPart user + ((∑ i, pipes i) + eol) +
            (st.server.users.erase id).total (holding parts eols) := by
        refine entry_total users ?_ socket pipes eol
        show (stored s id user').users.find? id = _
        rw [stored, ChatServer.setUser, OrdMap.find?_insert, if_pos rfl]
      rw [total]
      refine opens'.trans ?_
      abel
  · refine (ProperSince.of_steps (shell_steps st fd id user)).trans ?_
    refine (ProperSince.of_steps (steps.trans steps')).trans ?_
    exact .of_steps (Proc.Steps.send (restored s) fd "% ".toList)

/-- A user who leaves has no entry, and what it held besides the socket is leaked. -/
theorem leaves (ledger : Ledger parts eols mail leaked st)
    (known : st.server.sockIDTable.find? fd = some id)
    (found : st.server.users.find? id = some user)
    (ran : ChatServer.LineRan user.session id after departs clean
      (besides parts eols leaked st id user) (st.shell fd id user) s)
    (found' : s.server.users.find? id = some user') {messages : List Event}
    (kinds : ∀ e ∈ messages, IsMessage e) :
    ∃ pipes eol own others leaked', (clean → eol = 0 ∧ leaked' = 0) ∧
      after.Agrees user.session s.handler pipes eol ∧
      ((∀ i, user'.userPipes i = .cleared) → own = 0) ∧
      Ledger (Function.update parts id fun _ => 0) (Function.update eols id 0) others
        ((∑ i, pipes i) + eol + own + leaked' + leaked)
        (st.leaves fd text id user s user' messages) ∧
      ProperSince st.proc (st.leaves fd text id user s user' messages).proc := by
  obtain ⟨pipes, eol, mail', leaked', children, mailed, kept, agrees, opens, -, steps, tidied⟩ := ran
  change st.server.Kept id s.server at kept
  obtain ⟨opens', steps'⟩ := ledger.restored_spec (s := s) kept opens
  obtain ⟨user₀, found₀, sock₀⟩ := ledger.tidy.userOfSock fd id known
  cases found.symm.trans found₀
  obtain ⟨user₁, found₁, core⟩ := kept.find found
  cases found'.symm.trans found₁
  have sock : user'.sock = fd := (congrArg (fun c => c.2.1) core : user'.sock = user.sock).trans sock₀
  have erased : ((stored s id user').dropUser fd id).users = s.server.users.erase id :=
    leaves_erased st fd text id s user user' messages
  obtain ⟨own, others, sum, mailed', none⟩ := mailed.dropUser found' erased
  have users : ∀ uid, uid ≠ id →
      (((stored s id user').dropUser fd id).users.find? uid).map UserInfo.core =
        (st.server.users.find? uid).map UserInfo.core := by
    intro uid other
    exact leaves_users fd text user user' messages kept other
  -- the standard descriptors are put back twice
  have again : (redirect s.server.serverIn s.server.serverOut s.server.serverErr
      (restored s)).fds.opens = (fd, socketDesc user.session) ::ₘ (standardPart serverStd +
        ((∑ i, pipes i) + (eol + (mail' + (leaked' + (savedPart +
          ((st.server.users.erase id).total (holding parts eols) + leaked))))))) := by
    rw [kept.serverIn, kept.serverOut, kept.serverErr, ledger.serverIn, ledger.serverOut,
      ledger.serverErr]
    have saved : (∑ i, pipes i) + (eol + (mail' + (leaked' + (socketPart user + (savedPart +
        ((st.server.users.erase id).total (holding parts eols) + leaked)))))) = savedPart +
          ((∑ i, pipes i) + (eol + (mail' + (leaked' + (socketPart user +
            ((st.server.users.erase id).total (holding parts eols) + leaked)))))) := by
      abel
    refine (ChatServer.redirect_saved opens' saved).trans ?_
    rw [socketPart, sock₀, ← Multiset.singleton_add]
    abel
  have closed := FdTable.opens_close again
  refine ⟨pipes, eol, own, others, leaked', tidied, agrees, none, ?_, ?_⟩
  · refine ledger.after_line found ?_ kept.serverIn kept.serverOut kept.serverErr rfl rfl users ?_
      mailed' ?_
    · have same : ChatServer.Tidy (stored s id user') :=
        (ledger.tidy.kept kept).setUser found' rfl
      have there : (stored s id user').users.find? id =
          some { user' with handler := s.handler } := by
        rw [stored, ChatServer.setUser, OrdMap.find?_insert, if_pos rfl]
      exact ChatServer.dropUser_tidy same there sock
    · intro user'' there
      have gone : ((stored s id user').dropUser fd id).users.find? id = Option.none := by
        rw [erased, OrdMap.find?_erase, if_pos rfl]
      cases gone.symm.trans there
    · have total : (st.leaves fd text id user s user' messages).server.users.total
          (holding (Function.update parts id fun _ => 0) (Function.update eols id 0)) =
          (st.server.users.erase id).total (holding parts eols) := by
        rw [← others_total (fun uid other => kept.users uid) (fun _ => 0) 0, SingleProc.leaves,
          erased]
      rw [total]
      refine closed.trans ?_
      rw [sum]
      abel
  · have serving : s.proc.serving = user.session :=
      steps.serving.trans (shell_steps st fd id user).serving
    refine (ProperSince.of_steps (shell_steps st fd id user)).trans ?_
    refine (ProperSince.of_steps (steps.trans steps')).trans ?_
    have here : (redirect s.server.serverIn s.server.serverOut s.server.serverErr
        (restored s)).fds.get fd = some (socketDesc user.session) := by
      rw [← FdTable.mem_opens, again, Multiset.mem_cons]
      exact Or.inl rfl
    have mine : (redirect s.server.serverIn s.server.serverOut s.server.serverErr
        (restored s)).serving = user.session :=
      (ChatServer.redirect_steps _ _ _ _).serving.trans (steps'.serving.trans serving)
    refine ⟨messages ++ [.close user.session fd (some (socketDesc user.session))], ?_, ?_⟩
    · rw [← List.append_assoc, ← here, ← mine]
      rfl
    · intro e member
      rcases List.mem_append.mp member with said | closing
      · exact (kinds e said).proper
      · rw [List.mem_singleton.mp closing]
        rfl

end Line

end Ledger

end NetProg
