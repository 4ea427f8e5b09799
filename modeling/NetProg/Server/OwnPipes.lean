import NetProg.Server.Ownership
import NetProg.Server.StaticRing
import NetProg.Shell.NumberedPipes

/-!
# The numbered pipes of one user

The command lines of a connection are followed through a run of the whole server.  Descriptor numbers
and pipes differ from run to run, so a pipe is named by the command line of the connection that created
it: `pipeView` says in these names what each command line reads and writes and what the slots of the
ring hold.
-/

namespace NetProg

/-- The number of the command line that put a pipe into a slot. -/
def Tick.filler (ticks : List (Tick ChatServer)) (i : Fin circularBufferSize) : Option Nat :=
  (ticks.findIdx? fun t => !(t.after.handler.numberPipeList.buffer i).empty).map (· + 1)

/-- Where a descriptor of a command leads: to no pipe, to a pipe that command line `line` of the
connection created, or to somebody else's pipe. -/
inductive Origin where
  | noPipe
  | made (line : Nat)
  | foreign
  deriving DecidableEq, Repr

def originOfPipe (ticks : List (Tick ChatServer)) (pipe : Nat) : Origin :=
  match Tick.creator ticks pipe with
  | some line => .made line
  | none => .foreign

def originOf (ticks : List (Tick ChatServer)) (desc : Option Desc) : Origin :=
  match desc.map Desc.object with
  | some (.pipeIn pipe) => originOfPipe ticks pipe
  | some (.pipeOut pipe) => originOfPipe ticks pipe
  | _ => .noPipe

/-- What the first command of a command line reads, unless `<i` says so, and what the last one writes
if a numbered pipe ends the line. -/
structure TickView where
  reads : Option Origin
  writes : Option Origin
  deriving DecidableEq, Repr

def Tick.view (ticks : List (Tick ChatServer)) (t : Tick ChatServer) : TickView where
  reads :=
    if 0 < t.cl.readUid then none
    else t.children.head?.map fun child => originOf ticks (child.fds.get 0)
  writes := t.cl.target.bind fun _ =>
    t.children.getLast?.map fun child => originOf ticks (child.fds.get 1)

/-- The ring with the number of the command line that filled a slot in place of the pipe. -/
def ringView (ticks : List (Tick ChatServer)) (ring : CircularBuffer Pipe) :
    Nat × (Fin circularBufferSize → Option Nat) :=
  (ring.head, fun i => if (ring.buffer i).empty then none else Tick.filler ticks i)

/-- The command lines of an input line, as far as they come to their end. -/
def queueTicks (session : Nat) (id : Int) (line : Text) :
    List NpCommandLine → PointedShell → List (Tick ChatServer)
  | [], _ => []
  | cl :: queue, s =>
      match s.runCommandLine session (ChatServer.userPipeCalls id) line cl with
      | .error _ => []
      | .ok r => ⟨cl, s.shell, r.shell⟩ :: queueTicks session id line queue r

/-- The command lines of a line of user `id`, whose shell is `s` when it begins. -/
def lineTicks (session : Nat) (id : Int) (text : Text) (s : PointedShell) : List (Tick ChatServer) :=
  match ChatServer.performAll id (parseCommand text).1 s.shell with
  | .error _ => []
  | .ok shell => queueTicks session id text (parseCommand text).2 { s with shell }

namespace SingleProc

/-- The command lines of one connection in a turn. -/
def turnTicks (session : Nat) (pointer : Option Nat) (st : SingleProc) : ServerEvent → List (Tick ChatServer)
  | .connect _ _ => []
  | .line fd text =>
      let id := st.server.getServingUserID fd
      match st.server.users.find? id with
      | none => []
      | some user =>
          if user.session = session then lineTicks session id text ⟨st.shell fd id user, pointer⟩
          else []

/-- The static member after a turn: at the ring of the user who had a command line run. -/
def pointerAfter (pointer : Option Nat) (st : SingleProc) : ServerEvent → Option Nat
  | .connect _ _ => pointer
  | .line fd text =>
      match st.server.users.find? (st.server.getServingUserID fd) with
      | none => pointer
      | some user => if (parseCommand text).2 = [] then pointer else some user.session

/-- The command lines of one connection in a run. -/
def ticks (session : Nat) : List ServerEvent → SingleProc → Option Nat → List (Tick ChatServer)
  | [], _, _ => []
  | event :: events, st, pointer =>
      st.turnTicks session pointer event ++
        match st.next event with
        | none => []
        | some st' => ticks session events st' (st.pointerAfter pointer event)

/-- A run in which nobody but one user connects, with the lines he sends. -/
def alone (ip : Text) (port : Int) (lines : List Text) : List ServerEvent :=
  .connect ip port :: lines.map (.line 7)

end SingleProc

namespace Account

/-- The command lines of a line of input. -/
def textSteps (text : Text) (a : Account) : List AccountStep :=
  steps (parseCommand text).2 (if .exit ∈ (parseCommand text).1 then a.exit else a)

/-- The command lines of a connection. -/
def textsSteps : List Text → Account → List AccountStep
  | [], _ => []
  | text :: texts, a =>
      a.textSteps text ++
        match a.text text with
        | none => []
        | some after => textsSteps texts after

theorem textsSteps_snoc {lines : List Text} {a b : Account} (text : Text)
    (fits : lines.foldlM (fun a line => a.text line) a = some b) :
    textsSteps (lines ++ [text]) a = textsSteps lines a ++ b.textSteps text := by
  induction lines generalizing a with
  | nil =>
      cases fits
      cases after : b.text text with
      | none => simp [textsSteps, after]
      | some next => simp [textsSteps, after]
  | cons line lines ih =>
      rw [List.foldlM_cons] at fits
      obtain ⟨middle, first, later⟩ := Option.bind_eq_some_iff.mp fits
      simp only [List.cons_append, textsSteps, first, ih later, List.append_assoc]

theorem linked_text {text : Text} {a after : Account} (fits : a.text text = some after) :
    Linked a (a.textSteps text) after := by
  rw [Account.text] at fits
  rw [textSteps]
  have linked := linked_steps fits
  split at linked
  · rename_i exit
    rw [if_pos exit]
    exact .exit linked
  · rename_i exit
    rw [if_neg exit]
    exact linked

theorem linked_texts {lines : List Text} {a : Account} (account : texts lines = some a) :
    Linked .init (textsSteps lines .init) a := by
  rw [texts] at account
  generalize Account.init = start at account ⊢
  induction lines generalizing start with
  | nil =>
      cases account
      exact .nil _
  | cons text lines ih =>
      rw [List.foldlM_cons] at account
      obtain ⟨middle, first, later⟩ := Option.bind_eq_some_iff.mp account
      rw [textsSteps, first]
      exact (linked_text first).trans (ih middle later)

end Account

/-- The name of the pipe in a slot. -/
def Life.origin : Life → Origin
  | .fresh => .noPipe
  | .pending line => .made line
  | .spent => .foreign

/-- What a command line reads and writes according to the accounts. -/
def AccountStep.view (x : AccountStep) : TickView where
  reads := if 0 < x.cl.readUid then none else some x.before.slots.next.front.origin
  writes := x.cl.target.map fun n => (x.after.slots.get (sizeT n)).origin

namespace TickAgrees

variable {session : Nat} {t : Tick ChatServer} {x : AccountStep}

theorem view {ticks : List (Tick ChatServer)}
    (h : TickAgrees session (socketDesc session) (Tick.MadeIn ticks) t x) :
    t.view ticks = x.view := by
  have named : ∀ {line pipe}, Tick.MadeIn ticks line pipe →
      originOfPipe ticks pipe = .made line := by
    intro line pipe made
    rw [originOfPipe, made.1]
  rw [Tick.view, AccountStep.view, h.cl]
  congr 1
  · by_cases used : 0 < x.cl.readUid
    · rw [if_pos used, if_pos used]
    · rw [if_neg used, if_neg used]
      obtain ⟨child, first, stdin⟩ := h.reads used
      rw [first, Option.map_some]
      congr 1
      cases life : x.before.slots.next.front with
      | fresh =>
          rw [life] at stdin
          rw [stdin _ (Multiset.mem_singleton_self _)]
          rfl
      | pending line =>
          rw [life] at stdin
          obtain ⟨pipe, maker, input⟩ := stdin
          rw [input]
          exact named maker
      | spent =>
          rw [life] at stdin
          exact absurd stdin id
  · cases target : x.cl.target with
    | none => rfl
    | some n =>
        obtain ⟨child, last, line, pipe, life, maker, output⟩ := h.writes n target
        rw [Option.bind_some, Option.map_some, last, Option.map_some, life, output]
        exact congrArg some (named maker)

end TickAgrees

theorem views_eq {session : Nat} {ticks part : List (Tick ChatServer)} {xs : List AccountStep}
    (agree : List.Forall₂ (TickAgrees session (socketDesc session) (Tick.MadeIn ticks)) part xs) :
    part.map (Tick.view ticks) = xs.map AccountStep.view := by
  induction agree with
  | nil => rfl
  | cons first _ ih => rw [List.map_cons, List.map_cons, first.view, ih]

theorem filler_eq {session : Nat} {terminal : Desc} {made : Nat → Nat → Prop}
    {ticks : List (Tick ChatServer)} {xs : List AccountStep}
    (agree : List.Forall₂ (TickAgrees session terminal made) ticks xs)
    (i : Fin circularBufferSize) :
    Tick.filler ticks i =
      (xs.findIdx? fun x => decide (x.after.slots.buffer i ≠ .fresh)).map (· + 1) := by
  rw [Tick.filler]
  congr 1
  induction agree with
  | nil => rfl
  | @cons t x ticks xs first _ ih =>
      have same : (!(t.after.handler.numberPipeList.buffer i).empty) =
          decide (x.after.slots.buffer i ≠ .fresh) := by
        rw [Bool.eq_iff_iff, decide_eq_true_iff, ne_eq, ← first.slots i, Bool.not_eq_true',
          ← Bool.not_eq_true, Pipe.empty_iff]
      rw [List.findIdx?_cons, List.findIdx?_cons, same, ih]

/-- What the built-in commands of a line leave alone. -/
structure BuiltinsKeep (builtins : List Builtin) (s r : ShellState ChatServer) : Prop where
  ring : r.handler.numberPipeList = s.handler.numberPipeList
  fds : ∀ n desc, r.proc.fds.get n = some desc → s.proc.fds.get n = some desc
  quiet : .exit ∉ builtins → r.handler = s.handler ∧ r.proc.fds = s.proc.fds

theorem performAll_keep (id : Int) (builtins : List Builtin) (s : ShellState ChatServer) :
    Sat (ChatServer.performAll id builtins s) (BuiltinsKeep builtins s) (fun _ => True) := by
  induction builtins generalizing s with
  | nil => exact ⟨rfl, fun _ _ found => found, fun _ => ⟨rfl, rfl⟩⟩
  | cons builtin more ih =>
      by_cases last : builtin = .exit
      · subst last
        refine Sat.mono (ih _) ?_ (fun _ _ => trivial)
        intro r keep
        refine ⟨keep.ring, ?_, fun absent => absurd List.mem_cons_self absent⟩
        intro n desc found
        have closed := keep.fds n desc found
        exact Proc.get_of_close (Proc.get_of_close (Proc.get_of_close (Proc.get_of_close
          (Proc.get_of_close (Proc.get_of_close closed)))))
      · refine Sat.bind (Sat.mono (ChatServer.perform_told last) (fun _ told => told)
          (fun _ _ => trivial)) ?_
        intro mid told
        refine Sat.mono (ih mid) ?_ (fun _ _ => trivial)
        intro r keep
        refine ⟨keep.ring.trans (congrArg _ told.handler), ?_, ?_⟩
        · intro n desc found
          exact told.proc.fds ▸ keep.fds n desc found
        · intro absent
          obtain ⟨handler, fds⟩ := keep.quiet fun member => absent (List.mem_cons_of_mem _ member)
          exact ⟨handler.trans told.handler, fds.trans told.proc.fds⟩

/-- The two parts of a line that ends; the prompt after them touches nothing. -/
theorem ChatServer.runShell_ok {fd : Nat} {text : Text} {s r : ShellState ChatServer}
    (ran : runShell fd text s = .ok r) :
    ∃ b r', performAll (s.server.getServingUserID fd) (parseCommand text).1 s = .ok b ∧
      b.runQueue (userPipeCalls (s.server.getServingUserID fd)) text (parseCommand text).2 = .ok r' ∧
      r.handler = r'.handler ∧ r.proc.fds = r'.proc.fds ∧ r.proc.nextPipe = r'.proc.nextPipe := by
  obtain ⟨b, builtins, ran⟩ := bind_eq_ok.mp ran
  obtain ⟨r', queue, ended⟩ := bind_eq_ok.mp ran
  refine ⟨b, r', builtins, queue, ?_⟩
  cases ended
  split
  · exact ⟨rfl, rfl, rfl⟩
  · exact ⟨rfl, rfl, rfl⟩

/-- The pointer makes no difference to the command lines. -/
theorem queueTicks_eq (session : Nat) (id : Int) (line : Text) (queue : List NpCommandLine)
    (s : PointedShell) : queueTicks session id line queue s =
      s.shell.queueTicks (ChatServer.userPipeCalls id) line queue := by
  induction queue generalizing s with
  | nil => rfl
  | cons cl queue ih =>
      rw [queueTicks, ShellState.queueTicks, PointedShell.runCommandLine_own]
      cases s.shell.runCommandLine (ChatServer.userPipeCalls id) line cl with
      | error stopped => rfl
      | ok r => exact congrArg _ (ih ⟨r, some session⟩)

theorem lineTicks_eq {session : Nat} {id : Int} {text : Text} {s b : ShellState ChatServer}
    (pointer : Option Nat) (builtins : ChatServer.performAll id (parseCommand text).1 s = .ok b) :
    lineTicks session id text ⟨s, pointer⟩ =
      b.queueTicks (ChatServer.userPipeCalls id) text (parseCommand text).2 := by
  rw [lineTicks, builtins]
  exact queueTicks_eq _ _ _ _ _

/-- The shell of a user in front of command lines; `ticks` are those of his connection so far. -/
structure Begun (session : Nat) (id : Int) (ticks : List (Tick ChatServer)) (a : Account)
    (s : ShellState ChatServer) : Prop where
  user : ∃ user, s.server.users.find? id = some user ∧ user.session = session
  serving : s.proc.serving = session
  prev : s.handler.prevPipe = .cleared
  counted : Counted ticks a s.proc.nextPipe
  rings : ∃ parts mail rest,
    RingAgrees session (Tick.MadeIn ticks) s.handler.numberPipeList a.slots parts ∧
    MailAgrees s.server mail ∧ LowOpen rest ∧ (0, socketDesc session) ∈ rest ∧
    s.proc.fds.opens = (∑ i, parts i) + (mail + rest)

/-- Command lines that come to their end. -/
theorem Begun.queue {session : Nat} {id : Int} {ticks : List (Tick ChatServer)} {a after : Account}
    {s r : ShellState ChatServer} {line : Text} {queue : List NpCommandLine}
    (h : Begun session id ticks a s)
    (proper : ∀ cl ∈ queue, Shape cl.npCommands ∧ cl.NoSkippedUserPipe)
    (fits : a.queue queue = some after)
    (ran : s.runQueue (ChatServer.userPipeCalls id) line queue = .ok r) :
    ∃ more parts' others, more = s.queueTicks (ChatServer.userPipeCalls id) line queue ∧
      RingAgrees session (Tick.MadeIn (ticks ++ more)) r.handler.numberPipeList after.slots parts' ∧
      Counted (ticks ++ more) after r.proc.nextPipe ∧
      r.proc.fds.opens = (∑ i, parts' i) + others ∧
      List.Forall₂ (TickAgrees session (socketDesc session) (Tick.MadeIn (ticks ++ more))) more
        (a.steps queue) ∧
      (Idle a s.handler s.proc.fds → Idle after r.handler r.proc.fds) := by
  obtain ⟨user, found, rfl⟩ := h.user
  obtain ⟨parts, mail, rest, ring, mailed, low, socket, split⟩ := h.rings
  exact queue_agrees (ChatServer.userPipeCalls_lawful found) proper fits h.serving
    (⟨mailed, .refl _ _⟩ : ChatServer.Mail id s.server s.server mail) h.prev ring h.counted low socket
    split ran

/-- The shell of a connected user when it is given a line. -/
structure Given (user : UserInfo) (id : Int) (ticks : List (Tick ChatServer)) (text : Text)
    (a : Account) (s : ShellState ChatServer) : Prop where
  found : s.server.users.find? id = some user
  serving : s.proc.serving = user.session
  counted : Counted ticks a s.proc.nextPipe
  free : .exit ∈ (parseCommand text).1 → a.last ≠ none → s.handler.eol.Gone s.proc.fds
  rings : ∃ parts eol mail rest, MailAgrees s.server mail ∧ a.Agrees user.session s.handler parts eol ∧
    RingAgrees user.session (Tick.MadeIn ticks) s.handler.numberPipeList a.slots parts ∧
    LowOpen rest ∧ (0, socketDesc user.session) ∈ rest ∧
    s.proc.fds.opens = (∑ i, parts i) + (eol + (mail + rest))

section Line

variable {user : UserInfo} {id : Int} {ticks : List (Tick ChatServer)} {text : Text}
  {a after : Account} {s b r : ShellState ChatServer}

/-- The shell when the built-in commands have been performed. -/
theorem Given.begun (h : Given user id ticks text a s)
    (builtins : ChatServer.performAll id (parseCommand text).1 s = .ok b) :
    Begun user.session id ticks (if .exit ∈ (parseCommand text).1 then a.exit else a) b ∧
      (Idle a s.handler s.proc.fds →
        Idle (if .exit ∈ (parseCommand text).1 then a.exit else a) b.handler b.proc.fds) := by
  obtain ⟨parts, eol, mail, rest, mailed, agrees, ring, low, socket, split⟩ := h.rings
  obtain ⟨parts₁, eol₁, agrees₁, opens₁, -, steps₁, kept₁, mails, -⟩ :=
    (ChatServer.performAll_account h.serving agrees low.mono split h.free).of_ok builtins
  have keep := (performAll_keep _ _ s).of_ok builtins
  obtain ⟨user₁, found₁, core⟩ := kept₁.find h.found
  have session₁ : user₁.session = user.session := congrArg (fun c => c.2.2) core
  have named : PipesNamed user.session ticks
      (if .exit ∈ (parseCommand text).1 then a.exit else a).slots b.handler.numberPipeList
      b.proc.fds := by
    rw [keep.ring]
    split
    · exact (ring.named split).exit keep.fds
    · intro i line life
      obtain ⟨pipe, maker, same⟩ := ring.named split i line life
      exact ⟨pipe, maker, fun fd desc here found => same fd desc here (keep.fds fd desc found)⟩
  refine ⟨⟨⟨user₁, found₁, session₁⟩, steps₁.serving.trans h.serving, agrees₁.prev, ?_, parts₁, mail,
    eol₁ + rest, agrees₁.ring.of_named opens₁ named, mails mail mailed, low.mono,
    Multiset.mem_add.mpr (Or.inr socket), ?_⟩, ?_⟩
  · have older := h.counted.older.mono steps₁.nextPipe
    split
    · exact ⟨older, h.counted.exit.number⟩
    · exact ⟨older, h.counted.number⟩
  · rw [opens₁]
    abel
  · intro idle stale
    split at stale
    · exact absurd a.exit_last stale
    · rename_i stays
      obtain ⟨handler, fds⟩ := keep.quiet stays
      rw [handler, fds]
      exact idle stale

theorem proper_lines (used : ∀ cl ∈ (parseCommand text).2, cl.NoSkippedUserPipe) :
    ∀ cl ∈ (parseCommand text).2, Shape cl.npCommands ∧ cl.NoSkippedUserPipe :=
  fun cl member => ⟨parseCommand_shape member, used cl member⟩

/-- The rule for a line of input. -/
theorem line_agrees {fd : Nat} (h : Given user id ticks text a s)
    (serves : s.server.getServingUserID fd = id)
    (used : ∀ cl ∈ (parseCommand text).2, cl.NoSkippedUserPipe) (fits : a.text text = some after)
    (pointer : Option Nat) (ran : ChatServer.runShell fd text s = .ok r) :
    ∃ more, more = lineTicks user.session id text ⟨s, pointer⟩ ∧
      PipesNamed user.session (ticks ++ more) after.slots r.handler.numberPipeList r.proc.fds ∧
      Counted (ticks ++ more) after r.proc.nextPipe ∧
      List.Forall₂ (TickAgrees user.session (socketDesc user.session) (Tick.MadeIn (ticks ++ more)))
        more (a.textSteps text) ∧
      (Idle a s.handler s.proc.fds → Idle after r.handler r.proc.fds) := by
  subst serves
  obtain ⟨b, r', builtins, queue, handler, fds, nextPipe⟩ := ChatServer.runShell_ok ran
  obtain ⟨begun, idle₁⟩ := h.begun builtins
  obtain ⟨more, parts', others, listed, ring', counted', opens', agree, idle'⟩ :=
    begun.queue (proper_lines used) fits queue
  refine ⟨more, ?_, ?_, ?_, agree, ?_⟩
  · rw [listed, lineTicks_eq pointer builtins]
  · rw [handler, fds]
    exact ring'.named opens'
  · rw [nextPipe]
    exact counted'
  · intro idle
    rw [handler, fds]
    exact idle' (idle₁ idle)

/-- The command lines of a line of input agree with its account, also when the line does not come to
its end. -/
theorem line_agreed (h : Given user id ticks text a s)
    (used : ∀ cl ∈ (parseCommand text).2, cl.NoSkippedUserPipe) (fits : a.text text = some after)
    (pointer : Option Nat) :
    ∃ xs b, Account.Linked a xs b ∧
      List.Forall₂ (TickAgrees user.session (socketDesc user.session)
        (Tick.MadeIn (ticks ++ lineTicks user.session id text ⟨s, pointer⟩)))
        (lineTicks user.session id text ⟨s, pointer⟩) xs := by
  cases builtins : ChatServer.performAll id (parseCommand text).1 s with
  | error stopped =>
      rw [lineTicks, builtins]
      exact ⟨[], a, .nil a, .nil⟩
  | ok b =>
      obtain ⟨begun, -⟩ := h.begun builtins
      obtain ⟨k, r, ran, same⟩ := ShellState.queueTicks_taken (ChatServer.userPipeCalls id) text
        (parseCommand text).2 b
      obtain ⟨middle, taken⟩ := Account.queue_take fits k
      obtain ⟨more, -, -, rfl, -, -, -, agree, -⟩ := begun.queue
        (fun cl member => proper_lines used cl (List.mem_of_mem_take member)) taken ran
      rw [lineTicks_eq pointer builtins, ← same]
      refine ⟨_, middle, ?_, agree⟩
      have linked := Account.linked_steps taken
      split at linked
      · rename_i exit
        rw [if_pos exit]
        exact .exit linked
      · rename_i exit
        rw [if_neg exit]
        exact linked

end Line

end NetProg
