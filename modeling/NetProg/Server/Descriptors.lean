import NetProg.Server.Ledger
import NetProg.Shell.NpShell

/-!
# Which descriptors stay open

After each line a shell should have open the descriptors it started with and both ends of each pipe
that still waits for a line or for its reader.  `eol` is closed by the end of a numbered pipe only,
and a user who leaves takes nothing along but his socket; `Neat` lines and `Balanced` turns are
those that leave nothing else behind.
-/

namespace NetProg

/-- The number of user pipes in a record. -/
def UserInfo.unread (user : UserInfo) : Nat :=
  ∑ i, if user.userPipes i = .cleared then 0 else 1

/-- How many descriptors the connected users account for: a socket for each of them, and two for
each pipe that waits for a line or for its reader. -/
def ChatServer.descriptors (server : ChatServer) (accounts : Nat → Option Account) : Nat :=
  server.users.total fun _ user =>
    1 + 2 * ((accounts user.session).elim 0 Account.pending + user.unread)

/-- The user pipes are between connected users. -/
def SendersConnected (server : ChatServer) : Prop :=
  ∀ uid user, server.users.find? uid = some user → ∀ i : Fin maxConn, user.userPipes i ≠ .cleared →
    ∃ sender, server.users.find? i.val = some sender

/-- The descriptors that the connected users account for: their sockets, both ends of each numbered
pipe that waits for a later line of one of them, and both ends of each unread user pipe between
them. -/
structure Accounted (server : ChatServer) (accounts : Nat → Option Account) (held : Held) :
    Prop where
  senders : SendersConnected server
  sum : ∃ (parts : Int → Fin circularBufferSize → Held) (mail : Held), MailAgrees server mail ∧
    held = server.users.total (fun id user => socketPart user + ∑ i, parts id i) + mail ∧
    ∀ id user, server.users.find? id = some user → ∃ a, accounts user.session = some a ∧
      a.Settled ∧ ∀ i, Waiting user.session (parts id i) (a.slots.buffer i)

theorem BoxAgrees.card {receiver : Nat} {p : Pipe} {part : Held} (h : BoxAgrees receiver p part) :
    part.card = 2 * (if p = .cleared then 0 else 1) := by
  cases h with
  | empty => rfl
  | full first second pipe sender =>
      rw [if_neg (fun cleared => by cases cleared)]
      rfl

/-- What is accounted for is counted by what waits. -/
theorem card_accounted {server : ChatServer} {accounts : Nat → Option Account}
    {parts : Int → Fin circularBufferSize → Held} {mail : Held} (mailed : MailAgrees server mail)
    (waiting : ∀ id user, server.users.find? id = some user → ∃ a,
      accounts user.session = some a ∧ ∀ i, Waiting user.session (parts id i) (a.slots.buffer i)) :
    (server.users.total (fun id user => socketPart user + ∑ i, parts id i) + mail).card =
      server.descriptors accounts := by
  obtain ⟨boxes, agrees, rfl⟩ := mailed
  rw [← OrdMap.total_add]
  refine (OrdMap.map_total Multiset.cardHom _ _).trans (OrdMap.total_congr fun id user found => ?_)
  obtain ⟨a, account, slots⟩ := waiting id user found
  have unread : (∑ i, boxes id i).card = 2 * user.unread := by
    rw [Multiset.card_sum, UserInfo.unread, Finset.mul_sum]
    exact Finset.sum_congr rfl fun i _ => (agrees id user found i).card
  have socket : (socketPart user).card = 1 := rfl
  rw [Multiset.cardHom_apply, Multiset.card_add, Multiset.card_add, Account.card_parts slots, unread,
    account, Option.elim_some, socket]
  omega

theorem Accounted.card {server : ChatServer} {accounts : Nat → Option Account} {held : Held}
    (h : Accounted server accounts held) : held.card = server.descriptors accounts := by
  obtain ⟨-, parts, mail, mailed, rfl, waiting⟩ := h
  refine card_accounted mailed fun id user found => ?_
  obtain ⟨a, account, -, slots⟩ := waiting id user found
  exact ⟨a, account, slots⟩

namespace SingleProc

/-- The account of each connection, from the lines that it has had served. -/
def accounts (st : SingleProc) (session : Nat) : Option Account := Account.texts (st.lines session)

/-- A turn that leaves no descriptor without a use.  A line without `exit` has neat command lines.
`exit` has none behind it; it closes the last line's pipe and no stale number of an `eol`, no other
pipe waits for a line of the user, and there is no unread user pipe from or to him. -/
def Balanced (st : SingleProc) : ServerEvent → Prop
  | .connect _ _ => True
  | .line fd text => ∀ id user a, st.server.sockIDTable.find? fd = some id →
      st.server.users.find? id = some user → st.accounts user.session = some a →
      if .exit ∈ (parseCommand text).1 then
        (parseCommand text).2 = [] ∧ (a.last ≠ none → user.handler.eol.Gone st.proc.fds) ∧
          (∀ i line, a.exit.slots.buffer i ≠ .pending line) ∧ (∀ i, user.userPipes i = .cleared) ∧
          ∀ uid user' i, st.server.users.find? uid = some user' → pipeIndex id = some i →
            user'.userPipes i = .cleared
      else Account.NeatQueue (parseCommand text).2 a

/-- The ledger of a run of balanced turns: nothing is leaked. -/
structure Clean (st : SingleProc) : Prop where
  ledger : ∃ parts mail, Ledger parts (fun _ => 0) mail 0 st
  settled : ∀ session a, st.accounts session = some a → a.Settled
  senders : SendersConnected st.server

theorem boot_clean (limit : Nat) (canOpen : Text → Bool) (environ : List (Text × Text)) :
    (boot limit canOpen environ).Clean where
  ledger := ⟨_, _, boot_ledger limit canOpen environ⟩
  settled := by
    intro session a account
    cases account
    exact fun line same => by cases same
  senders := fun _ _ found => absurd found (boot_nobody _ _ _)

section Step

variable {st st' : SingleProc} {fd : Nat} {text : Text} {id : Int} {user : UserInfo}
  {a after : Account}

theorem holding_zero (parts : Int → Fin circularBufferSize → Held) :
    holding parts (fun _ => 0) = fun id user => socketPart user + ∑ i, parts id i := by
  funext id user
  rw [holding, add_zero]

theorem Clean.connect (clean : st.Clean) {ip : Text} {port : Int}
    (accepted : Accepted st st' ip port) : st'.Clean := by
  obtain ⟨parts, mail, ledger⟩ := clean.ledger
  obtain ⟨-, -, free⟩ := ChatServer.nextID_spec ledger.tidy
  have users : ∀ id, st'.server.users.find? id = if id = st.server.nextID then
      some (ChatServer.newUser st.nextSession ip port st.proc.fds.lowest (-1))
      else st.server.users.find? id := by
    rw [accepted.server]
    exact ChatServer.addUser_users
  have ledger' := ledger.connect accepted
  rw [Function.update_eq_self (f := fun _ : Int => (0 : Held))] at ledger'
  refine ⟨⟨_, _, ledger'⟩, ?_, ?_⟩
  · intro session a account
    rw [accounts, accepted.lines] at account
    exact clean.settled session a account
  · intro id user found i full
    rw [users] at found
    split at found
    · cases found
      exact absurd rfl full
    · obtain ⟨sender, here⟩ := clean.senders id user found i full
      refine ⟨sender, ?_⟩
      rw [users, if_neg]
      · exact here
      · intro same
        rw [same, free] at here
        cases here

/-- The accounts with one more line of a user. -/
theorem Clean.served_settled (clean : st.Clean) (settled : after.Settled)
    (account : st.accounts user.session = some a) (fits : a.text text = some after)
    (lines : st'.lines = st.served user text) :
    ∀ session a, st'.accounts session = some a → a.Settled := by
  intro session a' account'
  rw [accounts, lines, served] at account'
  by_cases same : session = user.session
  · subst same
    rw [Function.update_self, Account.texts_snoc] at account'
    change (st.accounts user.session).bind _ = _ at account'
    rw [account, Option.bind_some, fits] at account'
    cases account'
    exact settled
  · rw [Function.update_of_ne same] at account'
    exact clean.settled session a' account'

variable {s : ShellState ChatServer} {user' : UserInfo}
  {parts : Int → Fin circularBufferSize → Held} {mail : Held}

/-- A user who stays: the sender of a new pipe is himself. -/
theorem Clean.senders_stay (clean : st.Clean) (kept : st.server.Kept id s.server)
    (found' : s.server.users.find? id = some user') : SendersConnected (stored s id user') := by
  have stays : ∀ uid sender, s.server.users.find? uid = some sender →
      ∃ sender', (stored s id user').users.find? uid = some sender' := by
    intro uid sender here
    rw [stored, ChatServer.setUser, OrdMap.find?_insert]
    split
    · exact ⟨_, rfl⟩
    · exact ⟨sender, here⟩
  intro uid user'' there i full
  have before : ∃ old, s.server.users.find? uid = some old ∧ old.userPipes i ≠ .cleared := by
    rw [stored, ChatServer.setUser, OrdMap.find?_insert] at there
    split at there
    · rename_i same
      cases there
      exact ⟨user', same ▸ found', full⟩
    · exact ⟨user'', there, full⟩
  obtain ⟨old, there', full'⟩ := before
  rcases kept.boxes uid old there' i full' with position | unread
  · rw [← pipeIndex_iff.mp position]
    exact stays id user' found'
  · obtain ⟨old', there'', full''⟩ := unread
    obtain ⟨sender, here⟩ := clean.senders uid old' there'' i full''
    obtain ⟨sender', here', -⟩ := kept.find here
    exact stays _ sender' here'

/-- A user who leaves: no pipe is from him, and the other senders are still there. -/
theorem Clean.senders_leave (clean : st.Clean) (kept : st.server.Kept id s.server)
    (same : st.server.SameBoxes s.server)
    (none : ∀ uid user' i, st.server.users.find? uid = some user' → pipeIndex id = some i →
      user'.userPipes i = .cleared) :
    SendersConnected ((stored s id user').dropUser fd id) := by
  have erased : ((stored s id user').dropUser fd id).users = s.server.users.erase id :=
    OrdMap.erase_insert _ _ _
  intro uid user'' there i full
  rw [erased, OrdMap.find?_erase] at there
  split at there
  · cases there
  · obtain ⟨old, there', boxes⟩ := same.find there
    rw [← boxes] at full
    obtain ⟨sender, here⟩ := clean.senders uid old there' i full
    obtain ⟨sender', here', -⟩ := kept.find here
    refine ⟨sender', ?_⟩
    rw [erased, OrdMap.find?_erase, if_neg]
    · exact here'
    · intro sent
      exact full (none uid old i there' (pipeIndex_iff.mpr sent.symm))

/-- What a balanced line needs for its rule, and the account after it. -/
theorem Balanced.fits (ok : Balanced st (.line fd text))
    (known : st.server.sockIDTable.find? fd = some id)
    (found : st.server.users.find? id = some user)
    (account : st.accounts user.session = some a) :
    (∃ after, a.text text = some after) ∧
      (∀ cl ∈ (parseCommand text).2, cl.NoSkippedUserPipe ∧ cl.target ≠ none) ∧
      (.exit ∈ (parseCommand text).1 → a.last ≠ none → user.handler.eol.Gone st.proc.fds) := by
  have turn := ok id user a known found account
  rw [Account.text]
  split at turn
  · rename_i leaves
    obtain ⟨none, free, -⟩ := turn
    rw [if_pos leaves, none]
    exact ⟨⟨a.exit, rfl⟩, fun cl member => absurd member List.not_mem_nil, fun _ => free⟩
  · rename_i remains
    obtain ⟨fits, proper⟩ := turn.fits
    rw [if_neg remains]
    exact ⟨Option.ne_none_iff_exists'.mp fits, proper, fun leaves => absurd leaves remains⟩

/-- The count in the middle of a line, where the user's account is `middle`. -/
theorem card_middle (ledger : Ledger parts (fun _ => 0) mail 0 st)
    (found : st.server.users.find? id = some user) {middle : Account} {departs clean : Prop}
    (ran : ChatServer.LineRan user.session id middle departs clean
      (Ledger.besides parts (fun _ => 0) 0 st id user) (st.shell fd id user) s)
    (met : clean) :
    s.proc.fds.opens.card =
      7 + s.server.descriptors (Function.update st.accounts user.session (some middle)) := by
  obtain ⟨pipes, eol, mail', leaked, children, mailed, kept, agrees, opens, -, -, tidied⟩ := ran
  change st.server.Kept id s.server at kept
  obtain ⟨rfl, rfl⟩ := tidied met
  obtain ⟨user₁, found₁, core⟩ := kept.find found
  have session : user₁.session = user.session := congrArg (fun c => c.2.2) core
  have sock : user₁.sock = user.sock := congrArg (fun c => c.2.1) core
  have socket : socketPart user₁ = socketPart user := by rw [socketPart, socketPart, sock, session]
  have total : s.server.users.total (holding (Function.update parts id pipes)
      (Function.update (fun _ => 0) id 0)) = _ :=
    Ledger.entry_total (fun uid _ => kept.users uid) found₁ socket pipes 0
  rw [Function.update_eq_self (f := fun _ : Int => (0 : Held)), holding_zero] at total
  have count : (s.server.users.total (fun uid user =>
      socketPart user + ∑ i, Function.update parts id pipes uid i) + mail').card =
      s.server.descriptors (Function.update st.accounts user.session (some middle)) := by
    refine card_accounted mailed ?_
    intro uid user' there
    by_cases same : uid = id
    · subst same
      cases found₁.symm.trans there
      rw [session, Function.update_self, Function.update_self]
      exact ⟨middle, rfl, fun i => (agrees.ring.slot i).waiting⟩
    · obtain ⟨old, before, core'⟩ := kept.find_back there
      have session' : user'.session = old.session := congrArg (fun c => c.2.2) core'
      have other : old.session ≠ user.session := fun equal =>
        same (ledger.unique id user uid old found before equal)
      obtain ⟨a, account, agrees'⟩ := ledger.agrees uid old before
      rw [session', Function.update_of_ne other, Function.update_of_ne same]
      exact ⟨a, account, fun i => (agrees'.ring.slot i).waiting⟩
  have sum : s.proc.fds.opens = standardPart (fun _ => socketDesc user.session) + (savedPart +
      (s.server.users.total (fun uid user =>
        socketPart user + ∑ i, Function.update parts id pipes uid i) + mail')) := by
    rw [total, opens, Ledger.besides]
    abel
  have standard : (standardPart fun _ => socketDesc user.session).card = 3 := rfl
  have saved : savedPart.card = 4 := rfl
  rw [sum, Multiset.card_add, Multiset.card_add, count, standard, saved]
  omega

end Step

/-- All open descriptors of the server are accounted for. -/
def AllAccounted (st : SingleProc) : Prop :=
  ∃ held, Accounted st.server st.accounts held ∧
    st.proc.fds.opens = standardPart serverStd + (savedPart + held) ∧
    st.proc.fds.opens.card = 7 + st.server.descriptors st.accounts

/-- A line stops for lack of room: what is accounted for after some of its command lines leaves too
few numbers for the next one. -/
def NoRoom (st : SingleProc) : ServerEvent → Prop
  | .connect _ _ => False
  | .line fd text => ∃ id user a, st.server.sockIDTable.find? fd = some id ∧
      st.server.users.find? id = some user ∧ st.accounts user.session = some a ∧
      ∃ done cl more middle server, (parseCommand text).2 = done ++ cl :: more ∧
        a.queue done = some middle ∧ st.server.Kept id server ∧
        st.proc.limit ≤ 7 + server.descriptors
          (Function.update st.accounts user.session (some middle)) +
            2 * cl.npCommands.count .userPipe + 5

section Turn

variable {st : SingleProc} {fd : Nat} {text : Text} {id : Int} {user : UserInfo}

theorem Clean.accounted (clean : st.Clean) : st.AllAccounted := by
  obtain ⟨parts, mail, ledger⟩ := clean.ledger
  have opens := ledger.opens
  rw [holding_zero, add_zero] at opens
  have accounted : Accounted st.server st.accounts
      (st.server.users.total (fun id user => socketPart user + ∑ i, parts id i) + mail) := by
    refine ⟨clean.senders, parts, mail, ledger.mailed, rfl, ?_⟩
    intro id user found
    obtain ⟨a, account, agrees⟩ := ledger.agrees id user found
    exact ⟨a, account, clean.settled _ a account, fun i => (agrees.ring.slot i).waiting⟩
  have standard : (standardPart serverStd).card = 3 := rfl
  have saved : savedPart.card = 4 := rfl
  refine ⟨_, accounted, opens, ?_⟩
  rw [opens, Multiset.card_add, Multiset.card_add, accounted.card, standard, saved]
  omega

/-- A line of a balanced turn leaves nothing behind. -/
theorem Clean.line (clean : st.Clean) (ok : Balanced st (.line fd text))
    (known : st.server.sockIDTable.find? fd = some id)
    (found : st.server.users.find? id = some user) :
    Sat (st.step (.line fd text)) Clean
      (fun stopped => stopped.1 = .exitFailure → NoRoom st (.line fd text)) := by
  obtain ⟨parts, mail, ledger⟩ := clean.ledger
  obtain ⟨a, account, agrees⟩ := ledger.agrees id user found
  change st.accounts user.session = some a at account
  obtain ⟨⟨after, fits⟩, proper, free⟩ := ok.fits known found account
  have turn := ok id user a known found account
  have met : ((fun _ : Int => (0 : Held)) id = 0 ∧
      ∀ cl ∈ (parseCommand text).2, cl.target ≠ none) := ⟨rfl, fun cl member => (proper cl member).2⟩
  refine Sat.mono (ledger.line_ended known found account fits
    (fun cl member => (proper cl member).1) free) ?_ ?_
  · intro st' ended
    obtain ⟨s, user', ran, boxes, found', ended⟩ := ended
    have running := ledger.running id user found
    have kept : st.server.Kept id s.server := by
      obtain ⟨pipes, eol, mail', leaked, children, mailed, kept, -⟩ := ran
      exact kept
    have on : s.handler.running = true ↔ .exit ∉ (parseCommand text).1 := by
      obtain ⟨pipes, eol, mail', leaked, children, mailed, -, -, -, on, -⟩ := ran
      rw [on]
      exact and_iff_right running
    rcases ended with stays | leaves
    · obtain ⟨runs, rfl⟩ := stays
      rw [if_neg (on.mp runs)] at turn
      obtain ⟨pipes, eol, mail', leaked, tidied, ledger', -⟩ :=
        ledger.stays found account fits ran found' runs
      obtain ⟨rfl, rfl⟩ := tidied met
      rw [Function.update_eq_self (f := fun _ : Int => (0 : Held)), add_zero] at ledger'
      refine ⟨⟨_, _, ledger'⟩, ?_, clean.senders_stay kept found'⟩
      refine clean.served_settled ?_ account fits rfl
      rw [Account.text, if_neg (on.mp runs)] at fits
      exact turn.settled (clean.settled _ a account) fits
    · obtain ⟨off, messages, kinds, rfl⟩ := leaves
      have departs : .exit ∈ (parseCommand text).1 := by
        by_contra remains
        cases off.symm.trans (on.mpr remains)
      rw [if_pos departs] at turn
      obtain ⟨none, -, idle, empty, unsent⟩ := turn
      rw [Account.text, if_pos departs, none] at fits
      cases fits
      have same := boxes none
      obtain ⟨pipes, eol, own, others, leaked, tidied, agrees', mine, ledger', -⟩ :=
        ledger.leaves known found ran found' kinds
      obtain ⟨rfl, rfl⟩ := tidied met
      have nothing : own = 0 := by
        refine mine fun i => ?_
        obtain ⟨old, before, equal⟩ := same.find found'
        cases found.symm.trans before
        rw [← equal]
        exact empty i
      have closed : ∑ i, pipes i = 0 :=
        Finset.sum_eq_zero fun i _ => (agrees'.ring.slot i).waiting.eq_zero (idle i)
      subst nothing
      rw [closed, add_zero, add_zero, add_zero, add_zero,
        Function.update_eq_self (f := fun _ : Int => (0 : Held))] at ledger'
      refine ⟨⟨_, _, ledger'⟩, ?_, clean.senders_leave kept same unsent⟩
      have settled : a.exit.Settled := fun line waits => absurd waits (idle _ line)
      refine clean.served_settled settled account ?_ rfl
      rw [Account.text, if_pos departs, none]
      rfl
  · intro stopped failed failure
    obtain ⟨-, undefined | full⟩ := failed
    · cases undefined.symm.trans failure
    · obtain ⟨done, cl, more, middle, r, queue, middle', ran, full⟩ := full
      have remains : .exit ∉ (parseCommand text).1 := by
        intro departs
        rw [if_pos departs] at turn
        rw [turn.1] at queue
        cases done <;> cases queue
      rw [if_neg remains] at middle'
      have kept : st.server.Kept id r.server := by
        obtain ⟨pipes, eol, mail', leaked, children, mailed, kept, -⟩ := ran
        exact kept
      have count := card_middle ledger found ran ⟨rfl, fun cl member => (proper cl (by
        rw [queue]
        exact List.mem_append_left _ member)).2⟩
      refine ⟨id, user, a, known, found, account, done, cl, more, middle, r.server, queue, middle',
        kept, ?_⟩
      rw [← count]
      exact (Ledger.shell_steps st fd id user).limit ▸ full

theorem Clean.step (clean : st.Clean) {event : ServerEvent} (ok : Balanced st event) :
    Sat (st.step event) Clean (fun stopped => stopped.1 = .exitFailure → NoRoom st event) := by
  cases event with
  | connect ip port =>
      refine Sat.mono (connect_sat st ip port) (fun st' accepted => clean.connect accepted) ?_
      intro stopped failed failure
      rw [failed.1] at failure
      cases failure
  | line fd text =>
      by_cases somebody : ∃ id user, st.server.sockIDTable.find? fd = some id ∧
          st.server.users.find? id = some user
      · obtain ⟨id, user, known, found⟩ := somebody
        exact clean.line ok known found
      · rw [step_idle text fun id user known found => somebody ⟨id, user, known, found⟩]
        intro failure
        cases failure

theorem reached_clean {limit : Nat} {canOpen : Text → Bool} {environ : List (Text × Text)}
    (reached : Reached next Balanced (boot limit canOpen environ) st) : st.Clean := by
  apply reached.invariant (boot_clean limit canOpen environ)
  intro st st' event clean ok stepped
  exact (clean.step ok).of_ok (next_eq_some.mp stepped)

end Turn

end SingleProc

/-- After `lines`, `npshell` has open the standard descriptors and both ends of each pipe that waits
for a later line. -/
def NpshellAccounted (lines : List (Text × NpCommandLine)) (s : ShellState Unit) : Prop :=
  ∃ a, Account.init.queue (lines.map Prod.snd) = some a ∧ a.Settled ∧
    (∃ parts : Fin circularBufferSize → Held, (∀ i, Waiting 0 (parts i) (a.slots.buffer i)) ∧
      s.proc.fds.opens = standardFds.opens + ∑ i, parts i) ∧
    s.proc.fds.opens.card = 3 + 2 * a.pending

/-- A line stops because the pipes that wait leave too few numbers for it. -/
def NpshellFull (limit : Nat) (lines : List (Text × NpCommandLine)) : Prop :=
  ∃ done line more a, lines = done ++ line :: more ∧
    Account.init.queue (done.map Prod.snd) = some a ∧ limit ≤ 3 + 2 * a.pending + 5

section Npshell

variable {lines : List (Text × NpCommandLine)} {limit : Nat} {canOpen : Text → Bool}
  {environ : List (Text × Text)} {a : Account} {s : ShellState Unit} {clean : Prop}

/-- What the rule for a run says of `npshell`. -/
theorem RunAgrees.npshell
    (ran : RunAgrees 0 NoMail a clean standardFds.opens (npshell limit canOpen environ) s)
    (met : clean) :
    (∃ parts : Fin circularBufferSize → Held, (∀ i, Waiting 0 (parts i) (a.slots.buffer i)) ∧
      s.proc.fds.opens = standardFds.opens + ∑ i, parts i) ∧
      s.proc.fds.opens.card = 3 + 2 * a.pending ∧ s.proc.limit = limit := by
  obtain ⟨parts, eol, mail, leaked, children, mailed, agrees, opens, -, steps, tidied⟩ := ran
  obtain ⟨rfl, rfl⟩ := tidied met
  change mail = 0 at mailed
  subst mailed
  have waiting : ∀ i, Waiting 0 (parts i) (a.slots.buffer i) := fun i =>
    (agrees.ring.slot i).waiting
  have sum : s.proc.fds.opens = standardFds.opens + ∑ i, parts i := by
    rw [opens, zero_add, zero_add, zero_add, add_comm]
  have three : standardFds.opens.card = 3 := rfl
  refine ⟨⟨parts, waiting, sum⟩, ?_, steps.limit⟩
  rw [sum, Multiset.card_add, Account.card_parts waiting, three]

theorem npshell_accounted (plain : PlainLines lines)
    (neat : Account.NeatQueue (lines.map Prod.snd) .init) :
    Sat (ShellState.runLines npshellCalls lines (npshell limit canOpen environ))
      (NpshellAccounted lines) (fun _ => NpshellFull limit lines) := by
  obtain ⟨fits, proper⟩ := neat.fits
  obtain ⟨after, fits⟩ := Option.ne_none_iff_exists'.mp fits
  have numbered : ∀ line ∈ lines, line.2.target ≠ none := fun line member =>
    (proper line.2 (List.mem_map_of_mem member)).2
  have ran := ShellState.runLines_account (s := npshell limit canOpen environ)
    npshellCalls_lawful (fun line member => ⟨(plain line member).1, (plain line member).2.noSkipped⟩)
    fits rfl (rfl : NoMail () 0) (Account.init_agrees 0) lowOpen_standardFds (by
      rw [Finset.sum_const_zero, zero_add, zero_add, zero_add]
      rfl)
  refine Sat.mono ran ?_ ?_
  · intro s ran
    obtain ⟨parts, card, -⟩ := ran.npshell ⟨rfl, numbered⟩
    exact ⟨after, fits, neat.settled (fun line same => by cases same) fits, parts, card⟩
  · intro stopped failed
    obtain ⟨done, line, more, middle, mid, split, fits', ran, cause⟩ := failed
    obtain ⟨-, card, limited⟩ := ran.npshell ⟨rfl, fun line member => numbered line (by
      rw [split]
      exact List.mem_append_left _ member)⟩
    rcases cause.cause with impossible | full
    · exact impossible.2.elim
    · refine ⟨done, line, more, middle, split, fits', ?_⟩
      have here : line ∈ lines := by
        rw [split]
        exact List.mem_append_right _ List.mem_cons_self
      have unused : line.2.npCommands.count .userPipe = 0 :=
        List.count_eq_zero.mpr (plain line here).2.commands
      have full := full.2
      rw [card, limited, unused] at full
      exact full

end Npshell

/-- In runs of neat lines and balanced turns the open descriptors are accounted for after each line,
so there are no more of them than what waits needs; only that can fill the descriptor table. -/
theorem descriptors_accounted {limit : Nat} {canOpen : Text → Bool} {environ : List (Text × Text)}
    {lines : List (Text × NpCommandLine)} (plain : PlainLines lines)
    (neat : Account.NeatQueue (lines.map Prod.snd) .init) {st : SingleProc}
    (reached : Reached SingleProc.next SingleProc.Balanced
      (SingleProc.boot limit canOpen environ) st)
    {event : ServerEvent} (ok : SingleProc.Balanced st event) :
    Sat (ShellState.runLines npshellCalls lines (npshell limit canOpen environ))
        (NpshellAccounted lines) (fun _ => NpshellFull limit lines) ∧
      st.AllAccounted ∧ Sat (st.step event) SingleProc.AllAccounted
        (fun stopped => stopped.1 = .exitFailure → st.NoRoom event) := by
  have clean := SingleProc.reached_clean reached
  exact ⟨npshell_accounted plain neat, clean.accounted,
    Sat.mono (clean.step ok) (fun _ clean => clean.accounted) (fun _ cause => cause)⟩

theorem neat_lsInto : Account.NeatQueue [lsInto] .init := by
  refine ⟨⟨by decide, ⟨1, rfl, by decide, by decide⟩, fun reads => absurd reads (by decide), ?_⟩,
    fun next fits => trivial⟩
  intro none
  have fits : (Account.init.line lsInto).isSome = true := by decide +kernel
  rw [none] at fits
  cases fits

/-- `ls |1` in `npshell`, and as the first line of the first user. -/
theorem descriptors_accounted_ls : ∃ st, runAll SingleProc.next
      [.connect "10.0.0.1".toList 5001] (.boot 1024 (fun _ => true) []) = some st ∧
    Sat (ShellState.runLines npshellCalls (lsLines 1 0) (npshell 1024 (fun _ => true) []))
        (NpshellAccounted (lsLines 1 0)) (fun _ => NpshellFull 1024 (lsLines 1 0)) ∧
      Sat (st.step (.line 7 "ls |1".toList)) SingleProc.AllAccounted
        (fun stopped => stopped.1 = .exitFailure → st.NoRoom (.line 7 "ls |1".toList)) := by
  have parsed : (parseCommand "ls |1".toList) = ([], [lsInto]) := by decide +kernel
  refine ⟨_, rfl, ?_⟩
  have both := @descriptors_accounted 1024 (fun _ => true) [] (lsLines 1 0) (plain_lsLines 1 0)
    neat_lsInto _ (Reached.start.step (e := .connect "10.0.0.1".toList 5001) trivial rfl)
    (.line 7 "ls |1".toList) ?_
  · exact ⟨both.1, both.2.2⟩
  · intro id user a known found account
    cases known
    cases found
    cases account
    rw [parsed, if_neg List.not_mem_nil]
    exact neat_lsInto

/-- A line `ls` leaves its `eol` open, in `npshell` and in the server; thirty of them fill a
descriptor table of 64 although no pipe waits. -/
theorem ls_leaves_eol :
    Sat (ShellState.runLines npshellCalls (lsLines 0 1) (npshell 1024 (fun _ => true) []))
      (fun s => ¬ NpshellAccounted (lsLines 0 1) s) (fun _ => False) ∧
    (Sat (ShellState.runLines npshellCalls (lsLines 0 31) (npshell 64 (fun _ => true) []))
        (fun _ => False) (fun stopped => stopped.1 = .exitFailure) ∧
      (Account.init.queue ((lsLines 0 30).map Prod.snd)).map Account.pending = some 0) ∧
    ∃ st, runAll SingleProc.next [.connect "10.0.0.1".toList 5001, .line 7 "ls".toList]
        (.boot 1024 (fun _ => true) []) = some st ∧ ¬ st.AllAccounted := by
  refine ⟨?_, ⟨by decide +kernel, by decide +kernel⟩, ?_⟩
  · have five : Sat (ShellState.runLines npshellCalls (lsLines 0 1)
        (npshell 1024 (fun _ => true) [])) (fun s => s.proc.fds.opens.card = 5)
        (fun _ => False) := by
      decide +kernel
    have idle : (Account.init.queue ((lsLines 0 1).map Prod.snd)).map Account.pending =
        some 0 := by
      decide +kernel
    refine Sat.mono five ?_ (fun _ impossible => impossible)
    rintro s open5 ⟨a, fits, -, -, card⟩
    rw [fits] at idle
    rw [open5, Option.some.inj idle] at card
    cases card
  · have counts : (runAll SingleProc.next
        [.connect "10.0.0.1".toList 5001, .line 7 "ls".toList] (.boot 1024 (fun _ => true) [])).map
        (fun st => (st.proc.fds.opens.card, st.server.descriptors st.accounts)) =
          some (10, 1) := by
      decide +kernel
    obtain ⟨st, ran, counts⟩ := Option.map_eq_some_iff.mp counts
    refine ⟨st, ran, ?_⟩
    rintro ⟨held, -, -, card⟩
    rw [(Prod.mk.inj counts).1, (Prod.mk.inj counts).2] at card
    cases card

end NetProg
