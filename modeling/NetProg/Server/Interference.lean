import NetProg.Server.OwnPipes

/-!
# Numbered pipes of different users

In a run without stale copies the command lines of a connection, wherever the lines of other users stand
between them, read and write what its account says.  The account knows the lines of that connection
only, so the same lines do the same when nobody else is there.
-/

namespace NetProg

namespace ChatServer

theorem dup2_get {k : Proc} {old : Fd} {new n : Nat} (other : n ≠ new) :
    (k.dup2 old new).fds.get n = k.fds.get n := by
  cases old with
  | none => rfl
  | some old => exact Pipe.get_dupIn_ne (some old) other k.fds

/-- Only the standard descriptors are redirected. -/
theorem redirect_get {k : Proc} {input output error : Fd} {n : Nat} (high : 3 ≤ n) :
    (redirect input output error k).fds.get n = k.fds.get n := by
  rw [redirect, dup2_get (by omega), dup2_get (by omega), dup2_get (by omega)]

end ChatServer

namespace Ledger

open SingleProc

variable {st : SingleProc} {parts : Int → Fin circularBufferSize → Held} {eols : Int → Held}
  {mail leaked : Held} {id : Int} {user : UserInfo}

/-- The pipes of a user among what is open. -/
theorem user_opens (ledger : Ledger parts eols mail leaked st)
    (found : st.server.users.find? id = some user) :
    ∃ rest, LowOpen rest ∧ st.proc.fds.opens = (∑ i, parts id i) + rest := by
  refine ⟨standardPart serverStd + (eols id + (mail + (socketPart user + (savedPart +
    ((st.server.users.erase id).total (holding parts eols) + leaked))))),
    lowOpen_standardPart _ _, ?_⟩
  rw [ledger.split_user found, beyond]
  abel

/-- How a line of a connected user ends, with the shell at its end. -/
def LineServed (parts : Int → Fin circularBufferSize → Held) (eols : Int → Held) (leaked : Held)
    (st : SingleProc) (fd : Nat) (text : Text) (id : Int) (user : UserInfo) (after : Account)
    (st' : SingleProc) : Prop :=
  ∃ s user', ChatServer.runShell fd text (st.shell fd id user) = .ok s ∧
    ChatServer.LineRan user.session id after (.exit ∈ (parseCommand text).1)
      (eols id = 0 ∧ ∀ cl ∈ (parseCommand text).2, cl.target ≠ none)
      (besides parts eols leaked st id user) (st.shell fd id user) s ∧
    s.server.users.find? id = some user' ∧
    (s.handler.running = true ∧ st' = st.stays fd text id user s user' ∨
      s.handler.running = false ∧ ∃ messages, (∀ e ∈ messages, IsMessage e) ∧
        st' = st.leaves fd text id user s user' messages)

theorem line_served {fd : Nat} {text : Text} {a after : Account}
    (ledger : Ledger parts eols mail leaked st)
    (known : st.server.sockIDTable.find? fd = some id)
    (found : st.server.users.find? id = some user)
    (account : Account.texts (st.lines user.session) = some a) (fits : a.text text = some after)
    (used : ∀ cl ∈ (parseCommand text).2, cl.NoSkippedUserPipe)
    (free : .exit ∈ (parseCommand text).1 → a.last ≠ none →
      user.handler.eol.Gone st.proc.fds) :
    Sat (st.step (.line fd text)) (LineServed parts eols leaked st fd text id user after)
      (fun _ => True) := by
  obtain ⟨user₁, found₁, own⟩ := ledger.tidy.userOfSock fd id known
  cases found.symm.trans found₁
  obtain ⟨a₁, account₁, agrees⟩ := ledger.agrees id user found
  cases account.symm.trans account₁
  have serves : (st.shell fd id user).server.getServingUserID fd = id := by
    show st.server.getServingUserID fd = id
    rw [ChatServer.getServingUserID, known]
    rfl
  have ran := ChatServer.runShell_account (s := st.shell fd id user) serves found used fits
    (shell_steps st fd id user).serving ledger.mailed agrees (lowOpen_standardPart _ _)
    (ledger.shell_opens own found) (fun leaves stale => ledger.shell_gone own found
      (free leaves stale))
  have itself : Sat (ChatServer.runShell fd text (st.shell fd id user))
      (fun s => ChatServer.runShell fd text (st.shell fd id user) = .ok s) (fun _ => True) := by
    cases ChatServer.runShell fd text (st.shell fd id user) with
    | ok s => rfl
    | error stopped => trivial
  refine serve_sat known found (Sat.mono (itself.and ran) (fun _ both => both)
    (fun _ _ => trivial)) ?_ ?_ ?_
  · intro s both
    obtain ⟨-, parts', eol', mail', leaked', children, mailed, kept, -⟩ := both
    obtain ⟨user', found', -⟩ := kept.find found
    exact ⟨kept.sockIDTable, user', found'⟩
  · intro s user' both found' on
    exact ⟨s, user', both.1, both.2, found', Or.inl ⟨on, rfl⟩⟩
  · intro s user' messages both found' off kinds
    exact ⟨s, user', both.1, both.2, found', Or.inr ⟨off, messages, kinds, rfl⟩⟩

end Ledger

namespace SingleProc

section Count

variable {st : SingleProc} {fd : Nat} {text : Text} {id : Int} {s : ShellState ChatServer}
  {user user' : UserInfo}

/-- No turn takes back a pipe. -/
theorem connect_nextPipe (st : SingleProc) (ip : Text) (port : Int) :
    Sat (st.connect ip port) (fun st' => st'.proc.nextPipe = st.proc.nextPipe) (fun _ => True) := by
  unfold connect
  dsimp only
  split
  · rw [ChatServer.user]
    split
    · trivial
    · rfl
  · trivial

theorem stays_nextPipe : s.proc.nextPipe ≤ (st.stays fd text id user s user').proc.nextPipe :=
  (ChatServer.redirect_steps _ _ _ s.proc).nextPipe

theorem leaves_nextPipe (messages : List Event) :
    s.proc.nextPipe ≤ (st.leaves fd text id user s user' messages).proc.nextPipe := by
  rw [SingleProc.leaves, Proc.close_nextPipe]
  exact (ChatServer.redirect_steps _ _ _ s.proc).nextPipe.trans
    (ChatServer.redirect_steps _ _ _ (restored s)).nextPipe

end Count

end SingleProc

namespace Ledger

open SingleProc

variable {st : SingleProc} {parts : Int → Fin circularBufferSize → Held} {eols : Int → Held}
  {mail leaked : Held} {id : Int} {user : UserInfo}

/-- The server after a line of user `id`, whose shell ended as `s`. -/
structure Settled (parts : Int → Fin circularBufferSize → Held) (st : SingleProc) (text : Text)
    (id : Int) (user : UserInfo) (s : ShellState ChatServer) (st' : SingleProc) : Prop where
  ledger : ∃ pipes eols mail leaked, Ledger (Function.update parts id pipes) eols mail leaked st'
  lines : st'.lines = st.served user text
  others : ∀ uid, uid ≠ id → (st'.server.users.find? uid).map UserInfo.core =
    (st.server.users.find? uid).map UserInfo.core
  own : ∀ user', st'.server.users.find? id = some user' → user'.session = user.session ∧
    user'.sock = user.sock ∧ user'.handler = s.handler ∧
    ∀ n, 3 ≤ n → st'.proc.fds.get n = s.proc.fds.get n
  stays : (∃ user', st'.server.users.find? id = some user') ↔ .exit ∉ (parseCommand text).1
  socks : ∀ sock id', st'.server.sockIDTable.find? sock = some id' →
    st.server.sockIDTable.find? sock = some id'
  nextPipe : s.proc.nextPipe ≤ st'.proc.nextPipe
  grown : st.proc.nextPipe ≤ st'.proc.nextPipe

theorem line_settled {fd : Nat} {text : Text} {a after : Account} {st' : SingleProc}
    (ledger : Ledger parts eols mail leaked st)
    (known : st.server.sockIDTable.find? fd = some id)
    (found : st.server.users.find? id = some user)
    (account : Account.texts (st.lines user.session) = some a) (fits : a.text text = some after)
    (used : ∀ cl ∈ (parseCommand text).2, cl.NoSkippedUserPipe)
    (free : .exit ∈ (parseCommand text).1 → a.last ≠ none → user.handler.eol.Gone st.proc.fds)
    (stepped : st.step (.line fd text) = .ok st') :
    ∃ s, ChatServer.runShell fd text (st.shell fd id user) = .ok s ∧
      ChatServer.LineRan user.session id after (.exit ∈ (parseCommand text).1)
        (eols id = 0 ∧ ∀ cl ∈ (parseCommand text).2, cl.target ≠ none)
        (besides parts eols leaked st id user) (st.shell fd id user) s ∧
      Settled parts st text id user s st' := by
  obtain ⟨s, user', shell, ran, found', ended⟩ :=
    (ledger.line_served known found account fits used free).of_ok stepped
  refine ⟨s, shell, ran, ?_⟩
  have whole := ran
  obtain ⟨_, _, _, _, _, -, kept, -, -, running, steps, -⟩ := whole
  change st.server.Kept id s.server at kept
  have on : s.handler.running = true ↔ .exit ∉ (parseCommand text).1 :=
    running.trans (and_iff_right (ledger.running id user found))
  have grown := (shell_steps st fd id user).nextPipe.trans steps.nextPipe
  obtain ⟨user₁, found₁, core⟩ := kept.find found
  cases found'.symm.trans found₁
  rcases ended with stays | leaves
  · obtain ⟨remains, rfl⟩ := stays
    obtain ⟨pipes, eol, mail', leaked', -, ledger', -⟩ :=
      ledger.stays found account fits ran found' remains
    have record : (st.stays fd text id user s user').server.users.find? id =
        some { user' with handler := s.handler } := by
      rw [SingleProc.stays, stored, ChatServer.setUser, OrdMap.find?_insert, if_pos rfl]
    refine ⟨⟨_, _, _, _, ledger'⟩, rfl, fun uid other => stays_users fd text user user' kept other,
      ?_, iff_of_true ⟨_, record⟩ (on.mp remains), ?_, stays_nextPipe, grown.trans stays_nextPipe⟩
    · intro user'' there
      cases record.symm.trans there
      exact ⟨congrArg (fun c => c.2.2) core, congrArg (fun c => c.2.1) core, rfl,
        fun n high => ChatServer.redirect_get high⟩
    · intro sock id' there
      exact kept.sockIDTable ▸ there
  · obtain ⟨goes, messages, kinds, rfl⟩ := leaves
    obtain ⟨pipes, eol, own, others, leaked', -, -, -, ledger', -⟩ :=
      ledger.leaves known found ran found' kinds
    have nobody : (st.leaves fd text id user s user' messages).server.users.find? id = none := by
      rw [leaves_erased, OrdMap.find?_erase, if_pos rfl]
    refine ⟨⟨_, _, _, _, ledger'⟩, rfl,
      fun uid other => leaves_users fd text user user' messages kept other, ?_, ?_, ?_,
      leaves_nextPipe messages, grown.trans (leaves_nextPipe messages)⟩
    · intro user'' there
      cases nobody.symm.trans there
    · refine iff_of_false ?_ fun stays => ?_
      · rintro ⟨user'', there⟩
        cases nobody.symm.trans there
      · rw [on.mpr stays] at goes
        cases goes
    · intro sock id' there
      rw [SingleProc.leaves, ChatServer.dropUser, OrdMap.find?_erase] at there
      split at there
      · cases there
      · exact kept.sockIDTable ▸ there

end Ledger

namespace SingleProc

/-- What is known about a connection after a run: `ticks` are its command lines. -/
structure Followed (session : Nat) (ticks : List (Tick ChatServer)) (st : SingleProc) : Prop where
  used : ∀ text ∈ st.lines session, ∀ cl ∈ (parseCommand text).2, cl.NoSkippedUserPipe
  agree : List.Forall₂ (TickAgrees session (socketDesc session) (Tick.MadeIn ticks)) ticks
    (Account.textsSteps (st.lines session) .init)
  account : ∃ a, Account.texts (st.lines session) = some a ∧ Counted ticks a st.proc.nextPipe
  connected : ∀ id user, st.server.users.find? id = some user → user.session = session →
    ∀ text ∈ st.lines session, .exit ∉ (parseCommand text).1
  rings : ∃ parts eols mail leaked, Ledger parts eols mail leaked st ∧
    ∀ id user a, st.server.users.find? id = some user → user.session = session →
      Account.texts (st.lines session) = some a →
      RingAgrees session (Tick.MadeIn ticks) user.handler.numberPipeList a.slots (parts id)

/-- The stale numbers that the connection keeps in `eol` are free. -/
def IdleAt (session : Nat) (st : SingleProc) : Prop :=
  ∀ id user a, st.server.users.find? id = some user → user.session = session →
    Account.texts (st.lines session) = some a → Idle a user.handler st.proc.fds

namespace Followed

variable {session : Nat} {ticks : List (Tick ChatServer)} {st st' : SingleProc}

theorem boot (session limit : Nat) (canOpen : Text → Bool) (environ : List (Text × Text)) :
    Followed session [] (boot limit canOpen environ) where
  used := fun _ member => absurd member List.not_mem_nil
  agree := .nil
  account := ⟨.init, rfl, fun _ member => absurd member List.not_mem_nil, rfl⟩
  connected := fun _ _ found => absurd found (boot_nobody _ _ _)
  rings := ⟨_, _, _, _, boot_ledger limit canOpen environ,
    fun _ _ _ found => absurd found (boot_nobody _ _ _)⟩

theorem connect (h : Followed session ticks st) {ip : Text} {port : Int}
    (stepped : st.step (.connect ip port) = .ok st') : Followed session ticks st' := by
  have accepted := (connect_sat st ip port).of_ok stepped
  have nextPipe := (connect_nextPipe st ip port).of_ok stepped
  obtain ⟨parts, eols, mail, leaked, ledger, rings⟩ := h.rings
  refine ⟨?_, ?_, ?_, ?_, _, _, _, _, ledger.connect accepted, ?_⟩
  · rw [accepted.lines]
    exact h.used
  · rw [accepted.lines]
    exact h.agree
  · rw [accepted.lines, nextPipe]
    exact h.account
  · intro id user found own
    rw [accepted.lines]
    rw [accepted.server, ChatServer.addUser_users] at found
    split at found
    · cases found
      change st.nextSession = session at own
      rw [← own, ledger.fresh _ (Nat.le_refl _)]
      exact fun _ member => absurd member List.not_mem_nil
    · exact h.connected id user found own
  · intro id user a found own account
    rw [accepted.lines] at account
    rw [accepted.server, ChatServer.addUser_users] at found
    split at found
    · rename_i new
      cases found
      -- nothing has been served for the new connection
      change st.nextSession = session at own
      rw [← own, ledger.fresh _ (Nat.le_refl _)] at account
      cases account
      rw [new, Function.update_self]
      exact .init session _
    · rename_i old
      rw [Function.update_of_ne old]
      exact rings id user a found own account

/-- A line of another connection. -/
theorem other (h : Followed session ticks st) {fd : Nat} {text : Text} {id : Int} {user : UserInfo}
    (known : st.server.sockIDTable.find? fd = some id)
    (found : st.server.users.find? id = some user) (apart : user.session ≠ session)
    (ok : Owned st (.line fd text)) (stepped : st.step (.line fd text) = .ok st') :
    Followed session ticks st' := by
  obtain ⟨parts, eols, mail, leaked, ledger, rings⟩ := h.rings
  obtain ⟨a, account, -⟩ := ledger.agrees id user found
  obtain ⟨used, fits, free⟩ := ok id user a known found account
  obtain ⟨after, fits⟩ := Option.ne_none_iff_exists'.mp fits
  obtain ⟨s, -, ran, settled⟩ := ledger.line_settled known found account fits used free stepped
  have lines : st'.lines session = st.lines session := by
    rw [settled.lines]
    exact Function.update_of_ne (Ne.symm apart) _ _
  -- the record is the one of before
  have back : ∀ uid user', st'.server.users.find? uid = some user' → user'.session = session →
      uid ≠ id ∧ ∃ old, st.server.users.find? uid = some old ∧ old.session = session ∧
        old.handler = user'.handler := by
    intro uid user' there mine
    have different : uid ≠ id := by
      rintro rfl
      exact apart ((settled.own user' there).1.symm.trans mine)
    have core := settled.others uid different
    rw [there, Option.map_some] at core
    obtain ⟨old, before, equal⟩ := Option.map_eq_some_iff.mp core.symm
    have number : old.session = user'.session := congrArg (fun c => c.2.2) equal
    exact ⟨different, old, before, number.trans mine, congrArg (fun c => c.1) equal⟩
  obtain ⟨pipes, eols', mail', leaked', ledger'⟩ := settled.ledger
  refine ⟨?_, ?_, ?_, ?_, _, _, _, _, ledger', ?_⟩
  · rw [lines]
    exact h.used
  · rw [lines]
    exact h.agree
  · obtain ⟨b, counts, counted⟩ := h.account
    rw [lines]
    exact ⟨b, counts, counted.older.mono settled.grown, counted.number⟩
  · intro uid user' there mine
    obtain ⟨-, old, before, number, -⟩ := back uid user' there mine
    rw [lines]
    exact h.connected uid old before number
  · intro uid user' b there mine counts
    obtain ⟨different, old, before, number, handler⟩ := back uid user' there mine
    rw [lines] at counts
    rw [Function.update_of_ne different, ← handler]
    exact rings uid old b before number counts

/-- The shell of the connection when its line is read. -/
theorem given (h : Followed session ticks st) {fd : Nat} {text : Text} {id : Int} {user : UserInfo}
    (known : st.server.sockIDTable.find? fd = some id)
    (found : st.server.users.find? id = some user) (mine : user.session = session)
    (ok : Owned st (.line fd text)) :
    ∃ a after, Account.texts (st.lines session) = some a ∧ a.text text = some after ∧
      (∀ cl ∈ (parseCommand text).2, cl.NoSkippedUserPipe) ∧
      Given user id ticks text a (st.shell fd id user) := by
  subst mine
  obtain ⟨parts, eols, mail, leaked, ledger, rings⟩ := h.rings
  obtain ⟨a, account, agrees⟩ := ledger.agrees id user found
  obtain ⟨b, counts, counted⟩ := h.account
  cases account.symm.trans counts
  obtain ⟨used, fits, free⟩ := ok id user a known found account
  obtain ⟨after, fits⟩ := Option.ne_none_iff_exists'.mp fits
  obtain ⟨user₁, found₁, own⟩ := ledger.tidy.userOfSock fd id known
  cases found.symm.trans found₁
  have steps := Ledger.shell_steps st fd id user
  refine ⟨a, after, account, fits, used, found, steps.serving,
    ⟨counted.older.mono steps.nextPipe, counted.number⟩,
    fun leaves stale => ledger.shell_gone own found (free leaves stale), parts id, eols id, mail,
    Ledger.besides parts eols leaked st id user, ledger.mailed, agrees, rings id user a found rfl account,
    lowOpen_standardPart _ _, by simp [Ledger.besides, standardPart], ledger.shell_opens own found⟩

/-- A line of the connection itself. -/
theorem own (h : Followed session ticks st) {fd : Nat} {text : Text} {id : Int} {user : UserInfo}
    (known : st.server.sockIDTable.find? fd = some id)
    (found : st.server.users.find? id = some user) (mine : user.session = session)
    (ok : Owned st (.line fd text)) (pointer : Option Nat)
    (stepped : st.step (.line fd text) = .ok st') :
    Followed session (ticks ++ lineTicks session id text ⟨st.shell fd id user, pointer⟩) st' ∧
      (IdleAt session st → IdleAt session st') ∧
      ∃ parts s, Ledger.Settled parts st text id user s st' := by
  obtain ⟨a, after, account, fits, used, given⟩ := h.given known found mine ok
  subst mine
  obtain ⟨parts, eols, mail, leaked, ledger, rings⟩ := h.rings
  have free := (ok id user a known found account).2.2
  obtain ⟨s, shell, ran, settled⟩ := ledger.line_settled known found account fits used free stepped
  obtain ⟨user₁, found₁, own⟩ := ledger.tidy.userOfSock fd id known
  cases found.symm.trans found₁
  have serves : st.server.getServingUserID fd = id := by
    rw [ChatServer.getServingUserID, known]
    rfl
  have low : LowOpen (Ledger.besides parts eols leaked st id user) := lowOpen_standardPart _ _
  obtain ⟨more, rfl, named, counted', agree, idle⟩ := line_agrees given serves used fits pointer shell
  have lines : st'.lines user.session = st.lines user.session ++ [text] := by
    rw [settled.lines]
    exact Function.update_self _ _ _
  have account' : Account.texts (st'.lines user.session) = some after := by
    rw [lines, Account.texts_snoc, account]
    exact fits
  -- whoever has the session afterwards is the user himself
  have himself : ∀ uid user', st'.server.users.find? uid = some user' →
      user'.session = user.session → uid = id := by
    intro uid user' there same
    by_contra different
    have core := settled.others uid different
    rw [there, Option.map_some] at core
    obtain ⟨old, before, equal⟩ := Option.map_eq_some_iff.mp core.symm
    have number : old.session = user'.session := congrArg (fun c => c.2.2) equal
    exact different (ledger.unique id user uid old found before (number.trans same))
  obtain ⟨pipes, eols', mail', leaked', ledger'⟩ := settled.ledger
  refine ⟨⟨?_, ?_, ⟨after, account', counted'.older.mono settled.nextPipe, counted'.number⟩, ?_, _, _,
    _, _, ledger', ?_⟩, ?_, parts, s, settled⟩
  · intro line member
    rw [lines] at member
    rcases List.mem_append.mp member with earlier | last
    · exact h.used line earlier
    · rw [List.mem_singleton.mp last]
      exact used
  · rw [lines, Account.textsSteps_snoc text account]
    exact List.rel_append (h.agree.imp fun _ _ agrees => agrees.mono fun _ _ made => made.append) agree
  · intro uid user' there same line member
    cases himself uid user' there same
    rw [lines] at member
    rcases List.mem_append.mp member with earlier | last
    · exact h.connected id user found rfl line earlier
    · rw [List.mem_singleton.mp last]
      exact settled.stays.mp ⟨user', there⟩
  · intro uid user' b there same counts
    cases himself uid user' there same
    obtain ⟨-, -, handler, high⟩ := settled.own user' there
    cases account'.symm.trans counts
    obtain ⟨a', account'', agrees'⟩ := ledger'.agrees id user' there
    rw [same] at account'' agrees'
    cases account'.symm.trans account''
    obtain ⟨rest, low', split⟩ := ledger'.user_opens there
    refine agrees'.ring.of_named split ?_
    intro i line life
    obtain ⟨pipe, maker, only⟩ := named i line life
    refine ⟨pipe, maker, ?_⟩
    intro n desc here found
    have notLow : 3 ≤ n := by
      by_contra below
      exact agrees'.ring.high split low' i n (by omega) (Or.inl here)
    rw [handler] at here
    rw [high n notLow] at found
    exact only n desc here found
  · intro idleAt uid user' b there same counts
    cases himself uid user' there same
    obtain ⟨-, -, handler, high⟩ := settled.own user' there
    cases account'.symm.trans counts
    have before : Idle a (st.shell fd id user).handler (st.shell fd id user).proc.fds :=
      fun stale => ledger.shell_gone own found (idleAt id user a found rfl account stale)
    have gone := idle before
    rw [handler]
    intro stale n uses
    have free := gone stale n uses
    have notLow : 3 ≤ n := by
      by_contra below
      obtain ⟨d, member⟩ := low n (by omega)
      obtain ⟨_, _, _, _, _, -, -, -, opens, -⟩ := ran
      have inside : (n, d) ∈ s.proc.fds.opens := by
        rw [opens]
        simp [member]
      rw [FdTable.mem_opens, free] at inside
      cases inside
    rw [high n notLow]
    exact free

/-- A turn of the server. -/
theorem step (h : Followed session ticks st) {event : ServerEvent} (ok : Owned st event)
    (pointer : Option Nat) (stepped : st.step event = .ok st') :
    Followed session (ticks ++ st.turnTicks session pointer event) st' := by
  cases event with
  | connect ip port =>
      rw [turnTicks, List.append_nil]
      exact h.connect stepped
  | line fd text =>
      by_cases somebody : ∃ id user, st.server.sockIDTable.find? fd = some id ∧
          st.server.users.find? id = some user
      · obtain ⟨id, user, known, found⟩ := somebody
        have serves : st.server.getServingUserID fd = id := by
          rw [ChatServer.getServingUserID, known]
          rfl
        simp only [turnTicks, serves, found]
        by_cases mine : user.session = session
        · rw [if_pos mine]
          exact (h.own known found mine ok pointer stepped).1
        · rw [if_neg mine, List.append_nil]
          exact h.other known found mine ok stepped
      · rw [step_idle text fun id user known found => somebody ⟨id, user, known, found⟩] at stepped
        cases stepped

/-- The command lines so far agree with the account. -/
theorem agreed (h : Followed session ticks st) : RunAgreed session (socketDesc session) ticks := by
  obtain ⟨a, account, -⟩ := h.account
  exact ⟨_, a, Account.linked_texts account, h.agree⟩

/-- Those of a turn do, too, whether it comes to its end or not. -/
theorem turn_agreed (h : Followed session ticks st) {event : ServerEvent} (ok : Owned st event)
    (pointer : Option Nat) :
    RunAgreed session (socketDesc session) (ticks ++ st.turnTicks session pointer event) := by
  have quiet : RunAgreed session (socketDesc session) (ticks ++ []) := by
    rw [List.append_nil]
    exact h.agreed
  cases event with
  | connect ip port => exact quiet
  | line fd text =>
      cases known : st.server.sockIDTable.find? fd with
      | none =>
          have absent : st.server.users.find? (st.server.getServingUserID fd) = none := by
            obtain ⟨_, _, _, _, ledger, -⟩ := h.rings
            rw [ChatServer.getServingUserID, known, Option.getD_none]
            cases found : st.server.users.find? 0 with
            | none => rfl
            | some user => exact absurd (ledger.tidy.positive 0 user found) (by decide)
          simp only [turnTicks, absent]
          exact quiet
      | some id =>
          have serves : st.server.getServingUserID fd = id := by
            rw [ChatServer.getServingUserID, known]
            rfl
          cases found : st.server.users.find? id with
          | none =>
              simp only [turnTicks, serves, found]
              exact quiet
          | some user =>
              simp only [turnTicks, serves, found]
              split
              · rename_i mine
                obtain ⟨a, after, account, fits, used, given⟩ := h.given known found mine ok
                subst mine
                obtain ⟨xs, b, linked, agree⟩ := line_agreed given used fits pointer
                refine ⟨_, b, (Account.linked_texts account).trans linked, ?_⟩
                exact List.rel_append
                  (h.agree.imp fun _ _ agrees => agrees.mono fun _ _ made => made.append) agree
              · exact quiet

/-- A run of the server, by induction on its turns; the last one may end the process. -/
theorem run_agreed (h : Followed session ticks st) {events : List ServerEvent}
    (owned : Along next Owned events st) (pointer : Option Nat) :
    RunAgreed session (socketDesc session)
      (ticks ++ SingleProc.ticks session events st pointer) := by
  induction events generalizing ticks st pointer with
  | nil =>
      rw [SingleProc.ticks, List.append_nil]
      exact h.agreed
  | cons event events ih =>
      rw [SingleProc.ticks, ← List.append_assoc]
      cases stepped : st.next event with
      | none =>
          rw [List.append_nil]
          exact h.turn_agreed owned.1 pointer
      | some st' =>
          exact ih (h.step owned.1 pointer (next_eq_some.mp stepped)) (owned.2 st' stepped)
            (st.pointerAfter pointer event)

/-- A run of the server, by induction on its turns. -/
theorem run (h : Followed session ticks st) {events : List ServerEvent}
    (owned : Along next Owned events st) (pointer : Option Nat)
    (ran : runAll next events st = some st') :
    Followed session (ticks ++ SingleProc.ticks session events st pointer) st' := by
  induction events generalizing ticks st pointer with
  | nil =>
      cases ran
      rw [SingleProc.ticks, List.append_nil]
      exact h
  | cons event events ih =>
      obtain ⟨mid, stepped, rest⟩ := Option.bind_eq_some_iff.mp ran
      have turn := h.step owned.1 pointer (next_eq_some.mp stepped)
      have later := ih turn (owned.2 mid stepped) (st.pointerAfter pointer event) rest
      rw [SingleProc.ticks, stepped, ← List.append_assoc]
      exact later

end Followed

/-- What the command lines of a connection read and write in a run. -/
def pipeLines (session : Nat) (events : List ServerEvent) (st : SingleProc) : List TickView :=
  (ticks session events st none).map (Tick.view (ticks session events st none))

/-- Two runs in which a connection has the same lines: its command lines read and write the same, and
what its ring holds is the same. -/
theorem Followed.same {session session' : Nat} {ticks ticks' : List (Tick ChatServer)} {st st' : SingleProc}
    (h : Followed session ticks st) (h' : Followed session' ticks' st')
    (lines : st'.lines session' = st.lines session) :
    ticks.map (Tick.view ticks) = ticks'.map (Tick.view ticks') ∧
      ∀ id user id' user', st.server.users.find? id = some user → user.session = session →
        st'.server.users.find? id' = some user' → user'.session = session' →
        ringView ticks user.handler.numberPipeList = ringView ticks' user'.handler.numberPipeList := by
  have agree := h'.agree
  rw [lines] at agree
  refine ⟨(views_eq h.agree).trans (views_eq agree).symm, ?_⟩
  intro id user id' user' found mine found' mine'
  obtain ⟨a, account, -⟩ := h.account
  obtain ⟨_, _, _, _, -, rings⟩ := h.rings
  obtain ⟨_, _, _, _, -, rings'⟩ := h'.rings
  have ring := rings id user a found mine account
  have ring' := rings' id' user' a found' mine' (by rw [lines, account])
  have empty : ∀ i, (user.handler.numberPipeList.buffer i).empty =
      (user'.handler.numberPipeList.buffer i).empty := by
    intro i
    rw [Bool.eq_iff_iff, Pipe.empty_iff, Pipe.empty_iff, (ring.slot i).cleared_iff,
      (ring'.slot i).cleared_iff]
  rw [ringView, ringView, ring.head, ring'.head]
  congr 1
  funext i
  rw [empty i, filler_eq h.agree i, filler_eq agree i]

/-- The server while the only user has sent the lines `served`. -/
structure Alone (served : List Text) (ticks : List (Tick ChatServer)) (st : SingleProc) : Prop where
  followed : Followed 1 ticks st
  lines : st.lines 1 = served
  idle : IdleAt 1 st
  known : ∀ id, st.server.sockIDTable.find? 7 = some id → id = 1 ∧
    ∃ user, st.server.users.find? 1 = some user ∧ user.session = 1
  here : (∀ text ∈ served, .exit ∉ (parseCommand text).1) →
    st.server.sockIDTable.find? 7 = some 1

namespace Alone

variable {served : List Text} {ticks : List (Tick ChatServer)} {st st' : SingleProc}

/-- His login: he gets socket 7, id 1 and connection 1. -/
theorem login {limit : Nat} {canOpen : Text → Bool} {environ : List (Text × Text)} {ip : Text}
    {port : Int} (stepped : (boot limit canOpen environ).step (.connect ip port) = .ok st) :
    Alone [] [] st := by
  have accepted := (connect_sat _ ip port).of_ok stepped
  have followed := (Followed.boot 1 limit canOpen environ).connect stepped
  have lines : st.lines 1 = [] := by
    rw [accepted.lines]
    rfl
  have lowest : (boot limit canOpen environ).proc.fds.lowest = 7 := by
    rw [boot, setenv_rest]
    rfl
  have socket : st.server.sockIDTable.find? 7 = some 1 := by
    rw [accepted.server, ChatServer.addUser_socks, lowest, if_pos rfl]
    rfl
  have record : st.server.users.find? 1 = some (ChatServer.newUser 1 ip port 7 (-1)) := by
    rw [accepted.server, ChatServer.addUser_users, lowest]
    exact if_pos rfl
  refine ⟨followed, lines, ?_, ?_, fun _ => socket⟩
  · intro id user a found mine account stale
    rw [lines] at account
    cases account
    exact absurd rfl stale
  · intro id known
    cases socket.symm.trans known
    exact ⟨rfl, _, record, rfl⟩

/-- One more line of his. -/
theorem line (h : Alone served ticks st) {text : Text}
    (used : ∀ cl ∈ (parseCommand text).2, cl.NoSkippedUserPipe)
    (fits : Account.texts (served ++ [text]) ≠ none) (pointer : Option Nat)
    (stepped : st.step (.line 7 text) = .ok st') :
    Owned st (.line 7 text) ∧
      Alone (served ++ [text]) (ticks ++ st.turnTicks 1 pointer (.line 7 text)) st' := by
  cases socket : st.server.sockIDTable.find? 7 with
  | none =>
      rw [step_idle text fun id user known => by cases socket.symm.trans known] at stepped
      cases stepped
  | some id =>
      obtain ⟨rfl, user, found, mine⟩ := h.known id socket
      have ok : Owned st (.line 7 text) := by
        intro id user' a known found' account
        cases socket.symm.trans known
        cases found.symm.trans found'
        refine ⟨used, ?_, fun _ stale => h.idle 1 user a found mine (mine ▸ account) stale⟩
        intro none
        rw [mine, h.lines] at account
        rw [Account.texts_snoc, account] at fits
        exact fits none
      refine ⟨ok, ?_⟩
      obtain ⟨-, idle, parts, s, settled⟩ := h.followed.own socket found mine ok pointer stepped
      have followed := h.followed.step ok pointer stepped
      obtain ⟨_, _, _, _, ledger, -⟩ := followed.rings
      have lines : st'.lines 1 = served ++ [text] := by
        rw [settled.lines, ← h.lines, ← mine]
        exact Function.update_self _ _ _
      refine ⟨followed, lines, idle h.idle, ?_, ?_⟩
      · intro id known
        cases socket.symm.trans (settled.socks 7 id known)
        obtain ⟨user', found', -⟩ := ledger.tidy.userOfSock 7 1 known
        exact ⟨rfl, user', found', (settled.own user' found').1.trans mine⟩
      · intro stays
        obtain ⟨user', found'⟩ := settled.stays.mpr (stays text (by simp))
        obtain ⟨_, _, _, _, before, -⟩ := h.followed.rings
        obtain ⟨user₁, found₁, own⟩ := before.tidy.userOfSock 7 1 socket
        cases found.symm.trans found₁
        have known := ledger.tidy.sockOfUser 1 user' found'
        rw [(settled.own user' found').2.1, own] at known
        exact known

/-- All lines he still sends. -/
theorem run (h : Alone served ticks st) {later : List Text}
    (used : ∀ text ∈ later, ∀ cl ∈ (parseCommand text).2, cl.NoSkippedUserPipe)
    (fits : Account.texts (served ++ later) ≠ none) (pointer : Option Nat)
    (ran : runAll next (later.map (.line 7)) st = some st') :
    Alone (served ++ later)
      (ticks ++ SingleProc.ticks 1 (later.map (.line 7)) st pointer) st' := by
  induction later generalizing served ticks st pointer with
  | nil =>
      cases ran
      rw [List.append_nil, List.map_nil, SingleProc.ticks, List.append_nil]
      exact h
  | cons text later ih =>
      obtain ⟨mid, stepped, rest⟩ := Option.bind_eq_some_iff.mp ran
      have split : served ++ text :: later = served ++ [text] ++ later := by
        rw [List.append_assoc]
        rfl
      rw [split] at fits ⊢
      have first : Account.texts (served ++ [text]) ≠ none := by
        intro none
        rw [Account.texts, List.foldlM_append] at fits
        exact fits (Option.bind_eq_none_iff.mpr fun a some => by cases none.symm.trans some)
      obtain ⟨-, turn⟩ := h.line (used text List.mem_cons_self) first pointer
        (next_eq_some.mp stepped)
      have more := ih turn (fun text member => used text (List.mem_cons_of_mem _ member)) fits
        (st.pointerAfter pointer (.line 7 text)) rest
      rw [List.map_cons, SingleProc.ticks, stepped, ← List.append_assoc]
      exact more

end Alone

/-- The run of one connection is as in `alone` the run of its lines: the command lines read and write
the same pipes, and a user who is still connected has the same ring. -/
def Undisturbed (session : Nat) (events : List ServerEvent) (first st : SingleProc)
    (own : List ServerEvent) (first' st' : SingleProc) : Prop :=
  pipeLines session events first = pipeLines 1 own first' ∧
    ∀ id user, st.server.users.find? id = some user → user.session = session →
      ∃ user', st'.server.users.find? 1 = some user' ∧
        ringView (ticks session events first none) user.handler.numberPipeList =
          ringView (ticks 1 own first' none) user'.handler.numberPipeList

/-- In a run without stale copies the numbered pipes of a connection are those of the run in which
only its own lines are executed. -/
theorem undisturbed {limit limit' : Nat} {canOpen canOpen' : Text → Bool}
    {environ environ' : List (Text × Text)} {events : List ServerEvent} {st st' : SingleProc}
    (owned : Along next Owned events (boot limit canOpen environ))
    (ran : runAll next events (boot limit canOpen environ) = some st) (session : Nat) (ip : Text)
    (port : Int)
    (ranAlone : runAll next (alone ip port (st.lines session)) (boot limit' canOpen' environ') =
      some st') :
    Undisturbed session events (boot limit canOpen environ) st (alone ip port (st.lines session))
      (boot limit' canOpen' environ') st' := by
  have followed := (Followed.boot session limit canOpen environ).run owned none ran
  obtain ⟨mid, stepped, rest⟩ := Option.bind_eq_some_iff.mp ranAlone
  obtain ⟨a, account, -⟩ := followed.account
  have fits : Account.texts ([] ++ st.lines session) ≠ none := by
    rw [List.nil_append, account]
    exact Option.some_ne_none a
  have whole := (Alone.login (next_eq_some.mp stepped)).run followed.used fits none rest
  have listed : SingleProc.ticks 1 (alone ip port (st.lines session)) (boot limit' canOpen' environ')
      none = [] ++ SingleProc.ticks 1 ((st.lines session).map (.line 7)) mid none := by
    rw [alone, SingleProc.ticks, stepped]
    rfl
  rw [← listed] at whole
  obtain ⟨views, rings⟩ := followed.same whole.followed whole.lines
  refine ⟨views, ?_⟩
  intro id user found mine
  obtain ⟨-, user', found', mine'⟩ :=
    whole.known 1 (whole.here (followed.connected id user found mine))
  exact ⟨user', found', rings id user 1 user' found mine found' mine'⟩

/-- Two users, and a line of the second. -/
theorem undisturbed_ls : ∃ st st', runAll next [.connect "10.0.0.1".toList 5001,
      .connect "10.0.0.2".toList 5002, .line 8 "ls |1".toList] (boot 1024 (fun _ => true) []) =
        some st ∧
    Undisturbed 2 [.connect "10.0.0.1".toList 5001, .connect "10.0.0.2".toList 5002,
      .line 8 "ls |1".toList] (boot 1024 (fun _ => true) []) st
      (alone [] 0 (st.lines 2)) (boot 1024 (fun _ => true) []) st' := by
  refine ⟨_, _, rfl, undisturbed ?_ rfl 2 [] 0 rfl⟩
  refine ⟨trivial, fun st₁ first => ⟨trivial, fun st₂ second => ⟨?_, fun st₃ third => trivial⟩⟩⟩
  cases first
  cases second
  intro id user a known found account
  cases known
  cases found
  cases account
  refine ⟨by decide +kernel, ?_, ?_⟩
  · have fits : (Account.init.text "ls |1".toList).isSome = true := by decide +kernel
    intro none
    rw [none] at fits
    cases fits
  · intro leaves
    exact absurd leaves (by decide +kernel)

/-- The first user reads the pipe he made, the second one's `ls` gets its numbers for the `eol` that
nobody closes, and `|-1` aims back at the slot where the numbers still are. -/
def staleSlot : List ServerEvent :=
  [.connect "10.0.0.1".toList 5001, .connect "10.0.0.2".toList 5002, .line 7 "ls |1".toList,
    .line 7 "cat".toList, .line 8 "ls".toList, .line 7 "ls |-1".toList]

theorem stale_slot_writes : ∃ st st',
    runAll next staleSlot (boot 1024 (fun _ => true) []) = some st ∧
      runAll next (alone [] 0 (st.lines 1)) (boot 1024 (fun _ => true) []) = some st' ∧
      ¬ Undisturbed 1 staleSlot (boot 1024 (fun _ => true) []) st (alone [] 0 (st.lines 1))
        (boot 1024 (fun _ => true) []) st' := by
  have lines : (runAll next staleSlot (boot 1024 (fun _ => true) [])).map (fun st => st.lines 1) =
      some ["ls |1".toList, "cat".toList, "ls |-1".toList] := by
    decide +kernel
  have ends : (runAll next (alone [] 0 ["ls |1".toList, "cat".toList, "ls |-1".toList])
      (boot 1024 (fun _ => true) [])).isSome = true := by
    decide +kernel
  have together : (pipeLines 1 staleSlot (boot 1024 (fun _ => true) []))[2]?.bind TickView.writes =
      some .foreign := by
    decide +kernel
  have apart : (pipeLines 1 (alone [] 0 ["ls |1".toList, "cat".toList, "ls |-1".toList])
      (boot 1024 (fun _ => true) []))[2]?.bind TickView.writes = some (.made 3) := by
    decide +kernel
  obtain ⟨st, ran, own⟩ := Option.map_eq_some_iff.mp lines
  obtain ⟨st', ran'⟩ := Option.isSome_iff_exists.mp ends
  refine ⟨st, st', ran, by rw [own, ran'], ?_⟩
  intro undisturbed
  have same := congrArg (fun views => views[2]?.bind TickView.writes) undisturbed.1
  rw [own] at same
  cases together.symm.trans (same.trans apart)

end SingleProc

end NetProg
