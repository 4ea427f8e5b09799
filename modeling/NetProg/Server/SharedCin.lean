import NetProg.Server.Ledger

/-!
# Where the lines of `np_single_proc` come from

All users share one `std::cin`.  `runShellLoop` puts the socket of a user under number 0, but
`std::cin` reads ahead, and `dup2` does not empty it: what one user sent too much is the beginning
of the line of the user who is served next.
-/

namespace NetProg

/-- A byte with the object that it was read from. -/
abbrev Tagged := Object × Char

/-- What the loop is at: `select`, the `getline` of `runShell` for a socket, with what number 0
refers to, or the line that it returned. -/
inductive Phase where
  | select
  | getline (fd : Nat) (source : Option Object)
  | runShell (fd : Nat) (text : Text)
  deriving DecidableEq, Repr

/-- A line that `getline` returned while a socket was served: the connection of the user whom it
runs for, and the bytes that it took. -/
structure Parsed where
  fd : Nat
  session : Option Nat
  raw : List Tagged
  deriving DecidableEq, Repr

/-- The line without its newline. -/
def Parsed.text (p : Parsed) : Text := (p.raw.map Prod.snd).takeWhile (· ≠ '\n')

/-- `np_single_proc` with its input: what `std::cin` has read ahead, and for each connection what
waits in the socket and whether the client has closed its end.  `sent`, `shared` (a command has
read from the socket) and `parsed` are the history. -/
structure SharedCin where
  main : SingleProc
  cin : List Tagged
  eof : Bool
  phase : Phase
  unread : Nat → Text
  closed : Nat → Bool
  sent : Nat → Text
  shared : Nat → Bool
  parsed : List Parsed

/-- A connection is accepted; a client sends bytes or closes its end; a command reads from the
socket it has inherited; the loop comes to a socket; a `read` for `std::cin` returns a block or
nothing; `getline` returns; the line ends. -/
inductive InputEvent where
  | connect (ip : Text) (port : Int)
  | arrive (session : Nat) (bytes : Text)
  | hangup (session : Nat)
  | commandReads (session count : Nat)
  | ready (fd : Nat)
  | read (block : Text)
  | endOfFile
  | getline
  | runShell

/-- What `getline` takes: the bytes up to the first newline and that newline. -/
def takeLine (cin : List Tagged) : List Tagged :=
  cin.takeWhile (·.2 ≠ '\n') ++ (cin.dropWhile (·.2 ≠ '\n')).take 1

/-- What it leaves. -/
def dropLine (cin : List Tagged) : List Tagged := (cin.dropWhile (·.2 ≠ '\n')).drop 1

/-- A line is complete in `std::cin`. -/
def HasLine (cin : List Tagged) : Prop := ∃ b ∈ cin, b.2 = '\n'

instance (cin : List Tagged) : Decidable (HasLine cin) := by
  unfold HasLine
  infer_instance

theorem takeLine_append_dropLine (cin : List Tagged) : takeLine cin ++ dropLine cin = cin := by
  rw [takeLine, dropLine, List.append_assoc, List.take_append_drop, List.takeWhile_append_dropWhile]

theorem takeLine_subset {cin : List Tagged} {b : Tagged} (taken : b ∈ takeLine cin) : b ∈ cin := by
  rw [← takeLine_append_dropLine cin]
  exact List.mem_append_left _ taken

/-- What `getline` takes is a line with its newline, or all there is. -/
theorem takeLine_text (fd : Nat) (session : Option Nat) (cin : List Tagged) :
    '\n' ∉ (Parsed.mk fd session (takeLine cin)).text ∧
      (((takeLine cin).map Prod.snd = (Parsed.mk fd session (takeLine cin)).text ++ ['\n']) ∨
        (takeLine cin).map Prod.snd = (Parsed.mk fd session (takeLine cin)).text ∧
          ¬ HasLine cin) := by
  induction cin with
  | nil => exact ⟨List.not_mem_nil, Or.inr ⟨rfl, fun ⟨b, member, _⟩ => List.not_mem_nil member⟩⟩
  | cons b rest ih =>
      by_cases newline : b.2 = '\n'
      · have taken : takeLine (b :: rest) = [b] := by simp [takeLine, newline]
        have text : (Parsed.mk fd session [b]).text = [] := by simp [Parsed.text, newline]
        rw [taken, text]
        exact ⟨List.not_mem_nil, Or.inl (by simp [newline])⟩
      · have taken : takeLine (b :: rest) = b :: takeLine rest := by simp [takeLine, newline]
        have text : (Parsed.mk fd session (b :: takeLine rest)).text =
            b.2 :: (Parsed.mk fd session (takeLine rest)).text := by
          simp [Parsed.text, newline]
        rw [taken, text, List.map_cons]
        obtain ⟨plain, ended⟩ := ih
        refine ⟨?_, ended.imp (fun whole => ?_) (fun rest => ⟨?_, ?_⟩)⟩
        · intro member
          rcases List.mem_cons.mp member with same | later
          · exact newline same.symm
          · exact plain later
        · rw [whole, List.cons_append]
        · rw [rest.1]
        · rintro ⟨b', member, same⟩
          rcases List.mem_cons.mp member with first | later
          · exact newline (first ▸ same)
          · exact rest.2 ⟨b', later, same⟩

namespace SharedCin

/-- The process before its loop. -/
def boot (limit : Nat) (canOpen : Text → Bool) (environ : List (Text × Text)) : SharedCin where
  main := .boot limit canOpen environ
  cin := []
  eof := false
  phase := .select
  unread := fun _ => []
  closed := fun _ => false
  sent := fun _ => []
  shared := fun _ => false
  parsed := []

/-- The connection of the user whom a socket is served for. -/
def session (st : SharedCin) (fd : Nat) : Option Nat :=
  (st.main.server.users.find? (st.main.server.getServingUserID fd)).map UserInfo.session

/-- What number 0 refers to after `dup2(fd, STDIN_FILENO)`. -/
def source (st : SharedCin) (fd : Nat) : Option Object :=
  ((st.main.proc.fds.get fd).or (st.main.proc.fds.get 0)).map Desc.object

/-- `read` returns a block of what waits; `std::cin` asks for one only when it holds no line. -/
def read (block : Text) (source : Option Object) (st : SharedCin) : Option SharedCin :=
  if HasLine st.cin ∨ st.eof = true ∨ block = [] then none
  else
    match source with
    | some (.socket s) =>
        if block <+: st.unread s then
          some { st with
            cin := st.cin ++ block.map fun c => (.socket s, c)
            unread := Function.update st.unread s ((st.unread s).drop block.length) }
        else none
    | some object => some { st with cin := st.cin ++ block.map fun c => (object, c) }
    | none => none

/-- `read` returns 0: the client has closed its end and nothing waits.  The stream stays at its
end. -/
def endOfFile (source : Option Object) (st : SharedCin) : Option SharedCin :=
  if HasLine st.cin then none
  else
    match source with
    | some (.socket s) =>
        if st.closed s = true ∧ st.unread s = [] then some { st with eof := true } else none
    | _ => some { st with eof := true }

/-- `getline` returns a line, or what is left at the end of the stream. -/
def getline (fd : Nat) (st : SharedCin) : Option SharedCin :=
  if HasLine st.cin ∨ st.eof = true then
    let line : Parsed := ⟨fd, st.session fd, takeLine st.cin⟩
    some { st with
      cin := dropLine st.cin
      phase := .runShell fd line.text
      parsed := st.parsed ++ [line] }
  else none

/-- `main` (`np_project2/server/chatServer.cpp:490-512`). -/
def next (st : SharedCin) : InputEvent → Option SharedCin
  | .connect ip port =>
      match st.phase with
      | .select => (st.main.next (.connect ip port)).map fun main => { st with main }
      | _ => none
  | .arrive s bytes =>
      if st.closed s = true then none
      else
        some { st with
          unread := Function.update st.unread s (st.unread s ++ bytes)
          sent := Function.update st.sent s (st.sent s ++ bytes) }
  | .hangup s => some { st with closed := Function.update st.closed s true }
  | .commandReads s count =>
      some { st with
        unread := Function.update st.unread s ((st.unread s).drop count)
        shared := Function.update st.shared s true }
  | .ready fd =>
      match st.phase with
      | .select =>
          if (st.main.server.sockIDTable.find? fd).isSome then
            some { st with phase := .getline fd (st.source fd) }
          else none
      | _ => none
  | .read block =>
      match st.phase with
      | .getline _ source => st.read block source
      | _ => none
  | .endOfFile =>
      match st.phase with
      | .getline _ source => st.endOfFile source
      | _ => none
  | .getline =>
      match st.phase with
      | .getline fd _ => st.getline fd
      | _ => none
  | .runShell =>
      match st.phase with
      | .runShell fd text =>
          (st.main.next (.line fd text)).map fun main => { st with main, phase := .select }
      | _ => none

/-- The bytes that came from one connection. -/
def bytesOf (s : Nat) (bytes : List Tagged) : Text :=
  (bytes.filter fun b => b.1 = .socket s).map Prod.snd

/-- The lines parsed for one connection. -/
def linesOf (s : Nat) (parsed : List Parsed) : List Parsed :=
  parsed.filter fun p => p.session = some s

/-- Every line runs for the user who sent it. -/
structure AsSender (st : SharedCin) : Prop where
  /-- a line consists of bytes from the socket of the user whom it runs for -/
  own : ∀ p ∈ st.parsed, ∃ s, p.session = some s ∧ ∀ b ∈ p.raw, b.1 = .socket s
  /-- it is a line, or what was left when the input was over -/
  whole : ∀ p ∈ st.parsed, '\n' ∉ p.text ∧
    (p.raw.map Prod.snd = p.text ++ ['\n'] ∨ p.raw.map Prod.snd = p.text ∧ st.eof = true)
  /-- the lines of a user, with what is not parsed yet, are what he sent, in that order; only a
  command may have taken some of it out -/
  ordered : ∀ s, let taken := ((linesOf s st.parsed).flatMap Parsed.raw).map Prod.snd ++
      (bytesOf s st.cin ++ st.unread s)
    taken.Sublist (st.sent s) ∧ (st.shared s = false → taken = st.sent s)
  /-- the lines that the server has executed for a user are the first of them -/
  executed : ∀ s, st.main.lines s <+: (linesOf s st.parsed).map Parsed.text

/-- The loop comes to a socket that is still the user's while `std::cin` holds no byte of anybody
else. -/
def SameSender (st : SharedCin) : InputEvent → Prop
  | .ready fd => ∃ s, st.session fd = some s ∧ st.source fd = some (.socket s) ∧
      ∀ b ∈ st.cin, b.1 = .socket s
  | _ => True

/-- What an event changes. -/
inductive Stepped (st : SharedCin) : InputEvent → SharedCin → Prop
  | connect (ip : Text) (port : Int) (main : SingleProc) (idle : st.phase = .select)
      (accepted : st.main.next (.connect ip port) = some main) :
      Stepped st (.connect ip port) { st with main }
  | arrive (s : Nat) (bytes : Text) :
      Stepped st (.arrive s bytes)
        { st with
          unread := Function.update st.unread s (st.unread s ++ bytes)
          sent := Function.update st.sent s (st.sent s ++ bytes) }
  | hangup (s : Nat) :
      Stepped st (.hangup s) { st with closed := Function.update st.closed s true }
  | commandReads (s count : Nat) :
      Stepped st (.commandReads s count)
        { st with
          unread := Function.update st.unread s ((st.unread s).drop count)
          shared := Function.update st.shared s true }
  | ready (fd : Nat) (idle : st.phase = .select) :
      Stepped st (.ready fd) { st with phase := .getline fd (st.source fd) }
  | readSocket (block : Text) (fd s : Nat) (here : st.phase = .getline fd (some (.socket s)))
      (waits : block <+: st.unread s) :
      Stepped st (.read block)
        { st with
          cin := st.cin ++ block.map fun c => (.socket s, c)
          unread := Function.update st.unread s ((st.unread s).drop block.length) }
  | readOther (block : Text) (fd : Nat) (object : Object)
      (here : st.phase = .getline fd (some object)) (other : ∀ s, object ≠ .socket s) :
      Stepped st (.read block) { st with cin := st.cin ++ block.map fun c => (object, c) }
  | endOfFile (fd : Nat) (source : Option Object) (here : st.phase = .getline fd source) :
      Stepped st .endOfFile { st with eof := true }
  | getline (fd : Nat) (source : Option Object) (here : st.phase = .getline fd source)
      (ended : HasLine st.cin ∨ st.eof = true) :
      Stepped st .getline
        { st with
          cin := dropLine st.cin
          phase := .runShell fd (Parsed.text ⟨fd, st.session fd, takeLine st.cin⟩)
          parsed := st.parsed ++ [⟨fd, st.session fd, takeLine st.cin⟩] }
  | runShell (fd : Nat) (text : Text) (main : SingleProc) (here : st.phase = .runShell fd text)
      (ran : st.main.next (.line fd text) = some main) :
      Stepped st .runShell { st with main, phase := .select }

theorem next_stepped {st st' : SharedCin} {event : InputEvent} (h : st.next event = some st') :
    Stepped st event st' := by
  obtain ⟨main, cin, eof, phase, unread, closed, sent, shared, parsed⟩ := st
  cases event with
  | connect ip port =>
      cases phase with
      | select =>
          obtain ⟨main', accepted, rfl⟩ := Option.map_eq_some_iff.mp h
          exact .connect ip port main' rfl accepted
      | getline fd source => cases h
      | runShell fd text => cases h
  | arrive s bytes =>
      simp only [next] at h
      split at h
      · cases h
      · cases h
        exact .arrive s bytes
  | hangup s =>
      cases h
      exact .hangup s
  | commandReads s count =>
      cases h
      exact .commandReads s count
  | ready fd =>
      cases phase with
      | select =>
          simp only [next] at h
          split at h
          · cases h
            exact .ready fd rfl
          · cases h
      | getline fd source => cases h
      | runShell fd text => cases h
  | read block =>
      cases phase with
      | select => cases h
      | runShell fd text => cases h
      | getline fd source =>
          simp only [next, read] at h
          split at h
          · cases h
          · cases source with
            | none => cases h
            | some object =>
                cases object with
                | socket s =>
                    simp only at h
                    split at h
                    · rename_i waits
                      cases h
                      exact .readSocket block fd s rfl waits
                    · cases h
                | _ =>
                    cases h
                    exact .readOther block fd _ rfl fun s same => by cases same
  | endOfFile =>
      cases phase with
      | select => cases h
      | runShell fd text => cases h
      | getline fd source =>
          simp only [next, endOfFile] at h
          split at h
          · cases h
          · split at h
            · split at h
              · cases h
                exact .endOfFile fd _ rfl
              · cases h
            · cases h
              exact .endOfFile fd _ rfl
  | getline =>
      cases phase with
      | select => cases h
      | runShell fd text => cases h
      | getline fd source =>
          simp only [next, getline] at h
          split at h
          · rename_i ended
            cases h
            exact .getline fd source rfl ended
          · cases h
  | runShell =>
      cases phase with
      | select => cases h
      | getline fd source => cases h
      | runShell fd text =>
          obtain ⟨main', ran, rfl⟩ := Option.map_eq_some_iff.mp h
          exact .runShell fd text main' rfl ran

section Bytes

variable {s : Nat} {first later : List Tagged}

theorem bytesOf_append : bytesOf s (first ++ later) = bytesOf s first ++ bytesOf s later := by
  rw [bytesOf, List.filter_append, List.map_append]
  rfl

theorem bytesOf_own (own : ∀ b ∈ first, b.1 = .socket s) : bytesOf s first = first.map Prod.snd := by
  rw [bytesOf, List.filter_eq_self.mpr fun b member => decide_eq_true (own b member)]

theorem bytesOf_other (other : ∀ b ∈ first, b.1 ≠ .socket s) : bytesOf s first = [] := by
  rw [bytesOf, List.filter_eq_nil_iff.mpr fun b member => by simpa using other b member]
  rfl

theorem bytesOf_block (s : Nat) (block : Text) :
    bytesOf s (block.map fun c => (.socket s, c)) = block := by
  rw [bytesOf_own, List.map_map]
  · exact List.map_id block
  · intro b member
    obtain ⟨c, -, rfl⟩ := List.mem_map.mp member
    rfl

theorem bytesOf_block_other {object : Object} (other : object ≠ .socket s) (block : Text) :
    bytesOf s (block.map fun c => (object, c)) = [] := by
  apply bytesOf_other
  intro b member
  obtain ⟨c, -, rfl⟩ := List.mem_map.mp member
  exact other

theorem linesOf_append (s : Nat) (parsed : List Parsed) (p : Parsed) :
    linesOf s (parsed ++ [p]) = linesOf s parsed ++ if p.session = some s then [p] else [] := by
  rw [linesOf, List.filter_append]
  by_cases same : p.session = some s
  · rw [if_pos same, List.filter_cons_of_pos (by simpa using same)]
    rfl
  · rw [if_neg same, List.filter_cons_of_neg (by simpa using same)]
    rfl

end Bytes

/-- What `std::cin` has taken from one connection, what waits in the socket. -/
def received (st : SharedCin) (s : Nat) : Text :=
  bytesOf s (st.parsed.flatMap Parsed.raw ++ st.cin) ++ st.unread s

/-- No byte is lost or doubled on the way from a client through `std::cin`. -/
def Conserved (st : SharedCin) : Prop :=
  ∀ s, (st.received s).Sublist (st.sent s) ∧ (st.shared s = false → st.received s = st.sent s)

theorem Conserved.step {st st' : SharedCin} {event : InputEvent} (conserved : Conserved st)
    (stepped : Stepped st event st') : Conserved st' := by
  cases stepped with
  | connect ip port main idle accepted => exact conserved
  | hangup s => exact conserved
  | ready fd idle => exact conserved
  | endOfFile fd source here => exact conserved
  | runShell fd text main here ran => exact conserved
  | arrive s bytes =>
      intro s'
      obtain ⟨sub, whole⟩ := conserved s'
      by_cases same : s' = s
      · subst same
        simp only [received, Function.update_self] at sub whole ⊢
        rw [← List.append_assoc]
        exact ⟨sub.append (.refl bytes), fun alone => by rw [whole alone]⟩
      · simp only [received, Function.update_of_ne same] at sub whole ⊢
        exact ⟨sub, whole⟩
  | commandReads s count =>
      intro s'
      obtain ⟨sub, whole⟩ := conserved s'
      by_cases same : s' = s
      · subst same
        simp only [received, Function.update_self] at sub ⊢
        refine ⟨?_, fun alone => by cases alone⟩
        exact (List.Sublist.append (.refl _) (List.drop_sublist count _)).trans sub
      · simp only [received, Function.update_of_ne same] at sub whole ⊢
        exact ⟨sub, whole⟩
  | readSocket block fd s here waits =>
      intro s'
      have equal : received { st with
          cin := st.cin ++ block.map fun c => (.socket s, c)
          unread := Function.update st.unread s ((st.unread s).drop block.length) } s' =
          st.received s' := by
        simp only [received]
        rw [← List.append_assoc, bytesOf_append]
        by_cases same : s' = s
        · subst same
          obtain ⟨rest, split⟩ := waits
          rw [Function.update_self, ← split, List.drop_left, bytesOf_block, List.append_assoc]
        · rw [Function.update_of_ne same, bytesOf_block_other, List.append_nil]
          exact fun equal => same (Object.socket.inj equal).symm
      rw [equal]
      exact conserved s'
  | readOther block fd object here other =>
      intro s'
      have equal : received { st with cin := st.cin ++ block.map fun c => (object, c) } s' =
          st.received s' := by
        simp only [received]
        rw [← List.append_assoc, bytesOf_append, bytesOf_block_other (other s'), List.append_nil]
      rw [equal]
      exact conserved s'
  | getline fd source here ended =>
      intro s'
      have equal : received { st with
          cin := dropLine st.cin
          phase := .runShell fd (Parsed.text ⟨fd, st.session fd, takeLine st.cin⟩)
          parsed := st.parsed ++ [⟨fd, st.session fd, takeLine st.cin⟩] } s' =
          st.received s' := by
        simp only [received]
        rw [List.flatMap_append, List.append_assoc, List.flatMap_singleton,
          takeLine_append_dropLine]
      rw [equal]
      exact conserved s'

/-- A line that ends is one more line of the user whose socket is served. -/
theorem line_lines {st st' : SingleProc} {fd : Nat} {text : Text}
    (ran : st.next (.line fd text) = some st') :
    ∃ user, st.server.users.find? (st.server.getServingUserID fd) = some user ∧
      st'.lines = st.served user text := by
  have step := SingleProc.next_eq_some.mp ran
  rw [SingleProc.step] at step
  split at step
  · obtain ⟨user, found, rest⟩ := bind_eq_ok.mp step
    obtain ⟨result, -, rest⟩ := bind_eq_ok.mp rest
    refine ⟨user, (ChatServer.user_spec _ _ _).of_ok found, ?_⟩
    obtain ⟨running, k, server⟩ := result
    cases running with
    | true =>
        cases rest
        rfl
    | false =>
        obtain ⟨removed, -, rest⟩ := bind_eq_ok.mp rest
        cases rest
        rfl
  · cases step

theorem connect_lines {st st' : SingleProc} {ip : Text} {port : Int}
    (accepted : st.next (.connect ip port) = some st') : st'.lines = st.lines :=
  ((SingleProc.connect_sat st ip port).of_ok (SingleProc.next_eq_some.mp accepted)).lines

/-- The line that is running for a connection. -/
def inFlight (st : SharedCin) (s : Nat) : List Text :=
  match st.phase with
  | .runShell fd text => if st.session fd = some s then [text] else []
  | _ => []

/-- The invariant of a run without foreign bytes in `std::cin`. -/
structure Told (st : SharedCin) : Prop where
  own : ∀ p ∈ st.parsed, ∃ s, p.session = some s ∧ ∀ b ∈ p.raw, b.1 = .socket s
  whole : ∀ p ∈ st.parsed, '\n' ∉ p.text ∧
    (p.raw.map Prod.snd = p.text ++ ['\n'] ∨ p.raw.map Prod.snd = p.text ∧ st.eof = true)
  executed : ∀ s, (linesOf s st.parsed).map Parsed.text = st.main.lines s ++ st.inFlight s
  serving : ∀ fd source, st.phase = .getline fd source → ∃ s, st.session fd = some s ∧
    source = some (.socket s) ∧ ∀ b ∈ st.cin, b.1 = .socket s

theorem boot_told (limit : Nat) (canOpen : Text → Bool) (environ : List (Text × Text)) :
    (boot limit canOpen environ).Told where
  own := fun p member => absurd member List.not_mem_nil
  whole := fun p member => absurd member List.not_mem_nil
  executed := fun _ => rfl
  serving := fun fd source here => by cases here

theorem Told.step {st st' : SharedCin} {event : InputEvent} (told : Told st)
    (ok : st.SameSender event) (stepped : Stepped st event st') : Told st' := by
  cases stepped with
  | arrive s bytes => exact ⟨told.own, told.whole, told.executed, told.serving⟩
  | hangup s => exact ⟨told.own, told.whole, told.executed, told.serving⟩
  | commandReads s count => exact ⟨told.own, told.whole, told.executed, told.serving⟩
  | connect ip port main idle accepted =>
      refine ⟨told.own, told.whole, ?_, ?_⟩
      · intro s
        have before := told.executed s
        simp only [inFlight, idle, connect_lines accepted] at before ⊢
        exact before
      · intro fd source here
        cases idle.symm.trans here
  | ready fd idle =>
      refine ⟨told.own, told.whole, ?_, ?_⟩
      · intro s
        have before := told.executed s
        simp only [inFlight, idle] at before ⊢
        exact before
      · intro fd' source here
        cases here
        exact ok
  | readSocket block fd s here waits =>
      refine ⟨told.own, told.whole, told.executed, ?_⟩
      intro fd' source here'
      obtain ⟨s', serves, same, own⟩ := told.serving fd' source here'
      cases here.symm.trans here'
      cases same
      refine ⟨s, serves, rfl, fun b member => ?_⟩
      rcases List.mem_append.mp member with before | now
      · exact own b before
      · obtain ⟨c, -, rfl⟩ := List.mem_map.mp now
        rfl
  | readOther block fd object here other =>
      obtain ⟨s, -, same, -⟩ := told.serving fd _ here
      exact absurd (Option.some.inj same) (other s)
  | endOfFile fd source here =>
      refine ⟨told.own, ?_, told.executed, told.serving⟩
      intro p member
      obtain ⟨plain, ended⟩ := told.whole p member
      exact ⟨plain, ended.imp id fun rest => ⟨rest.1, rfl⟩⟩
  | getline fd source here ended =>
      obtain ⟨s, serves, rfl, own⟩ := told.serving fd source here
      refine ⟨?_, ?_, ?_, ?_⟩
      · intro p member
        rcases List.mem_append.mp member with before | now
        · exact told.own p before
        · rw [List.mem_singleton.mp now]
          exact ⟨s, serves, fun b taken => own b (takeLine_subset taken)⟩
      · intro p member
        rcases List.mem_append.mp member with before | now
        · exact told.whole p before
        · rw [List.mem_singleton.mp now]
          obtain ⟨plain, whole⟩ := takeLine_text fd (st.session fd) st.cin
          refine ⟨plain, whole.imp id fun rest => ⟨rest.1, ended.resolve_left rest.2⟩⟩
      · intro s'
        have before := told.executed s'
        simp only [inFlight, here, List.append_nil] at before
        rw [linesOf_append, List.map_append, before]
        show _ = st.main.lines s' ++ if st.session fd = some s' then _ else []
        by_cases same : st.session fd = some s'
        · rw [if_pos same, if_pos same]
          rfl
        · rw [if_neg same, if_neg same]
          rfl
      · intro fd' source' here'
        cases here'
  | runShell fd text main here ran =>
      refine ⟨told.own, told.whole, ?_, ?_⟩
      · intro s
        obtain ⟨user, found, lines⟩ := line_lines ran
        have serves : st.session fd = some user.session := by rw [session, found, Option.map_some]
        have before := told.executed s
        simp only [inFlight, here, serves, Option.some.injEq] at before
        show _ = main.lines s ++ []
        rw [List.append_nil, before, lines, SingleProc.served]
        by_cases same : user.session = s
        · subst same
          rw [if_pos rfl, Function.update_self]
        · rw [if_neg same, List.append_nil, Function.update_of_ne (Ne.symm same)]
      · intro fd' source' here'
        cases here'

theorem Told.linesOf_raw {st : SharedCin} (told : Told st) (s : Nat) :
    bytesOf s (st.parsed.flatMap Parsed.raw) =
      ((linesOf s st.parsed).flatMap Parsed.raw).map Prod.snd := by
  have own := told.own
  generalize st.parsed = parsed at own
  induction parsed with
  | nil => rfl
  | cons p rest ih =>
      obtain ⟨s', serves, mine⟩ := own p List.mem_cons_self
      rw [List.flatMap_cons, bytesOf_append, ih fun p member => own p (List.mem_cons_of_mem _ member)]
      by_cases same : s' = s
      · subst same
        rw [bytesOf_own mine, linesOf, linesOf, List.filter_cons_of_pos (by simpa using serves),
          List.flatMap_cons, List.map_append]
      · rw [bytesOf_other fun b member => ?_, List.nil_append, linesOf, linesOf,
          List.filter_cons_of_neg]
        · rw [serves]
          simpa using same
        · rw [mine b member]
          exact fun equal => same (Object.socket.inj equal)

/-- While no byte of anybody else is in `std::cin` when the loop comes to a socket, every line runs
for the user who sent it, and each user's lines run in the order he sent them. -/
theorem lines_as_sender {limit : Nat} {canOpen : Text → Bool} {environ : List (Text × Text)}
    {st : SharedCin} (reached : Reached next SameSender (boot limit canOpen environ) st) :
    st.AsSender := by
  have both : Told st ∧ Conserved st := by
    refine reached.invariant (p := fun st => Told st ∧ Conserved st) ?_ ?_
    · exact ⟨boot_told limit canOpen environ, fun s => ⟨.refl [], fun _ => rfl⟩⟩
    · intro st st' event kept ok stepped
      exact ⟨kept.1.step ok (next_stepped stepped), kept.2.step (next_stepped stepped)⟩
  obtain ⟨told, conserved⟩ := both
  refine ⟨told.own, told.whole, ?_, ?_⟩
  · intro s
    have sent := conserved s
    rw [received, bytesOf_append, told.linesOf_raw, List.append_assoc] at sent
    exact sent
  · intro s
    rw [told.executed s]
    exact List.prefix_append _ _

/-- One user sends the line `who`. -/
theorem lines_as_sender_who : ∃ st, runAll next ([.connect "10.0.0.1".toList 5001,
      .arrive 1 "who\n".toList] ++ .ready 7 :: [.read "who\n".toList, .getline, .runShell])
      (boot 1024 (fun _ => true) []) = some st ∧ st.AsSender := by
  have before : (runAll next [.connect "10.0.0.1".toList 5001, .arrive 1 "who\n".toList]
      (boot 1024 (fun _ => true) [])).map (fun st => decide (st.session 7 = some 1 ∧
        st.source 7 = some (.socket 1) ∧ st.cin = [])) = some true := by
    decide +kernel
  have ends : (runAll next ([.connect "10.0.0.1".toList 5001, .arrive 1 "who\n".toList] ++
      .ready 7 :: [.read "who\n".toList, .getline, .runShell])
      (boot 1024 (fun _ => true) [])).isSome = true := by
    decide +kernel
  obtain ⟨st, ran⟩ := Option.isSome_iff_exists.mp ends
  obtain ⟨st₁, first, seen⟩ := Option.map_eq_some_iff.mp before
  obtain ⟨serves, source, empty⟩ := of_decide_eq_true seen
  refine ⟨st, ran, ?_⟩
  rw [runAll_append, first, Option.bind_some] at ran
  obtain ⟨st₂, ready, rest⟩ := Option.bind_eq_some_iff.mp ran
  have reached : Reached next SameSender (boot 1024 (fun _ => true) []) st₁ := by
    refine Reached.start.runAll_met (fun e member s => ?_) first
    simp only [List.mem_cons, List.not_mem_nil, or_false] at member
    rcases member with rfl | rfl
    · trivial
    · trivial
  have here : SameSender st₁ (.ready 7) := by
    refine ⟨1, serves, source, fun b member => ?_⟩
    rw [empty] at member
    cases member
  refine @lines_as_sender 1024 (fun _ => true) [] st ?_
  refine (reached.step here ready).runAll_met (fun e member s => ?_) rest
  simp only [List.mem_cons, List.not_mem_nil, or_false] at member
  rcases member with rfl | rfl | rfl
  · trivial
  · trivial
  · trivial

/-- The first of two users sends two lines in one segment; `std::cin` reads both, and the second one
is what the other user's turn finds. -/
def readAhead : List InputEvent :=
  [.connect "10.0.0.1".toList 5001, .connect "10.0.0.2".toList 5002,
    .arrive 1 "who\nname a\n".toList, .arrive 2 "who\n".toList, .ready 7,
    .read "who\nname a\n".toList, .getline, .runShell, .ready 8, .getline, .runShell]

theorem line_of_another : ∃ st,
    Reached next (fun _ _ => True) (boot 1024 (fun _ => true) []) st ∧
      st.main.lines 2 = ["name a".toList] ∧ st.sent 2 = "who\n".toList ∧ ¬ st.AsSender := by
  have ran : (runAll next readAhead (boot 1024 (fun _ => true) [])).map (fun st =>
      decide (st.main.lines 2 = ["name a".toList] ∧ st.sent 2 = "who\n".toList ∧
        ⟨8, some 2, "name a\n".toList.map fun c => (.socket 1, c)⟩ ∈ st.parsed)) = some true := by
    decide +kernel
  obtain ⟨st, ran, seen⟩ := Option.map_eq_some_iff.mp ran
  obtain ⟨lines, sent, parsed⟩ := of_decide_eq_true seen
  refine ⟨st, Reached.start.runAll ran, lines, sent, fun right => ?_⟩
  obtain ⟨s, serves, own⟩ := right.own _ parsed
  cases serves
  cases own (.socket 1, 'n') (by decide)

end SharedCin

end NetProg
