import NetProg.Lib.FdTable
import NetProg.Lib.Runs

/-!
# The servers that fork

The loops of `np_simple` and `np_multi_proc`, which fork a child for every connection, and the
descriptors that refer to a connection in the server and in its children.  `np_simple` closes its own
once the child is forked; in `np_multi_proc` that line is commented out.
-/

namespace NetProg

/-- What a descriptor refers to: to something the server had in front of its loop, or to a connection. -/
inductive ServerEntry where
  | own (i : Nat)
  | connection (client : Nat)
  deriving DecidableEq, Repr

/-- A server as it comes to its loop. -/
structure AcceptLoop where
  /-- how many descriptors are open: the standard streams, their copies, the listening socket -/
  before : Nat
  serverSock : Nat
  /-- The child puts the connection on its standard streams at once. -/
  redirects : Bool
  /-- The server closes the connection. -/
  closes : Bool
  standard : 3 ≤ before
  listening : serverSock < before

/-- The loop of `np_simple.cpp` (`np_project2/np_simple.cpp:59-82`). -/
def npSimple : AcceptLoop where
  before := 7
  serverSock := 6
  redirects := false
  closes := true
  standard := by decide
  listening := by decide

/-- The loop of `np_multi_proc.cpp`, which has the descriptor of the shared memory as well
(`np_project2/np_multi_proc.cpp:67-100`). -/
def npMultiProc : AcceptLoop where
  before := 8
  serverSock := 6
  redirects := true
  closes := false
  standard := by decide
  listening := by decide

/-- The server and its children, each under the number of its client. -/
structure Accepting where
  fds : FdTable ServerEntry
  running : Bool
  clients : Nat
  children : List (Nat × FdTable ServerEntry)

inductive AcceptEvent where
  /-- A client connects; `fork` may fail. -/
  | connect (forked : Bool)
  /-- `accept` fails, as it does when SIGINT comes. -/
  | fails
  | exits (client : Nat)

namespace AcceptLoop

variable (p : AcceptLoop)

/-- The server in front of its loop. -/
def start : Accepting where
  fds := ⟨(List.range p.before).map fun i => some (.own i)⟩
  running := true
  clients := 0
  children := []

/-- The descriptors of a child. -/
def child (fds : FdTable ServerEntry) (clientFd : Nat) : FdTable ServerEntry :=
  let fds := fds.close p.serverSock
  if p.redirects then ((fds.dup2 clientFd 0).dup2 clientFd 1).dup2 clientFd 2 else fds

/-- The server returns from `main`. -/
def stop (st : Accepting) : Accepting := { st with fds := ⟨[]⟩, running := false }

/-- A turn of the loop, or the end of a child. -/
def step (limit : Nat) (st : Accepting) : AcceptEvent → Option Accepting
  | .connect forked =>
      if st.running then
        let clientFd := st.fds.lowest
        if clientFd < limit then
          let fds := st.fds.insert (.connection st.clients)
          some {
            fds := if p.closes then fds.close clientFd else fds
            running := true
            clients := st.clients + 1
            children := if forked then st.children ++ [(st.clients, p.child fds clientFd)] else st.children }
        else some (stop st)
      else none
  | .fails => if st.running then some (stop st) else none
  | .exits client =>
      if client ∈ st.children.map Prod.fst then
        some { st with children := st.children.filter fun child => child.1 ≠ client }
      else none

end AcceptLoop

/-- A descriptor of the table refers to the connection. -/
def FdTable.Holds (fds : FdTable ServerEntry) (client : Nat) : Prop :=
  ∃ fd, fds.get fd = some (.connection client)

/-- The server or one of its children has the connection open.  The commands that the shell of a child
forks inherit it as well; they are not in the model. -/
def Accepting.Open (st : Accepting) (client : Nat) : Prop :=
  st.fds.Holds client ∨ ∃ child ∈ st.children, child.2.Holds client

namespace AcceptLoop

variable {p : AcceptLoop} {limit clients fd : Nat} {st st' : Accepting} {fds : FdTable ServerEntry}
  {event : AcceptEvent}

/-- How many connections the server has open after so many clients: the first ones. -/
def keeps (p : AcceptLoop) (clients : Nat) : Nat := if p.closes then 0 else clients

/-- The table of a server that has some connections open behind its own descriptors. -/
def Packed (p : AcceptLoop) (opened : Nat) (fds : FdTable ServerEntry) : Prop :=
  ∀ fd, fds.get fd =
    if fd < p.before then some (.own fd)
    else if fd < p.before + opened then some (.connection (fd - p.before)) else none

theorem Packed.lowest {opened : Nat} (packed : p.Packed opened fds) : fds.lowest = p.before + opened := by
  apply FdTable.lowest_eq
  · rw [packed, if_neg (by omega), if_neg (by omega)]
  · intro m below
    rw [packed]
    split
    · exact Option.some_ne_none _
    · exact Option.some_ne_none _

theorem Packed.holds {opened : Nat} (packed : p.Packed opened fds) (client : Nat) :
    fds.Holds client ↔ client < opened := by
  constructor
  · rintro ⟨fd, found⟩
    rw [packed] at found
    split at found
    · cases found
    · split at found
      · cases found
        omega
      · cases found
  · intro inside
    refine ⟨p.before + client, ?_⟩
    rw [packed, if_neg (by omega), if_pos (by omega), Nat.add_sub_cancel_left]

theorem entryAt_map (entries : List Nat) (fd : Nat) :
    FdTable.entryAt (entries.map fun i => some (ServerEntry.own i)) fd = entries[fd]?.map .own := by
  induction entries generalizing fd with
  | nil => cases fd <;> rfl
  | cons i entries ih =>
      cases fd with
      | zero => rfl
      | succ fd => exact ih fd

theorem packed_start (p : AcceptLoop) : p.Packed 0 p.start.fds := by
  intro fd
  have entry : p.start.fds.get fd = (List.range p.before)[fd]?.map .own := entryAt_map _ fd
  rw [entry]
  split
  · rename_i inside
    rw [List.getElem?_range inside]
    rfl
  · rw [List.getElem?_eq_none (by rw [List.length_range]; omega), if_neg (by omega)]
    rfl

/-- The table with the next connection. -/
theorem Packed.get_insert {opened : Nat} (packed : p.Packed opened fds) (client fd : Nat) :
    (fds.insert (.connection client)).get fd =
      if fd = p.before + opened then some (.connection client) else fds.get fd := by
  rw [FdTable.insert, FdTable.get_set, packed.lowest]

/-- A server that closes the connection has its old table, another one a connection more. -/
theorem Packed.connect (packed : p.Packed (p.keeps clients) fds) :
    p.Packed (p.keeps (clients + 1))
      (if p.closes then (fds.insert (.connection clients)).close fds.lowest
        else fds.insert (.connection clients)) := by
  intro fd
  have before := packed fd
  have next := packed.get_insert clients fd
  cases closes : p.closes with
  | true =>
      simp only [keeps, closes, if_true] at *
      rw [FdTable.close, FdTable.get_set, next, before, packed.lowest]
      by_cases last : fd = p.before + 0
      · rw [if_pos last, if_neg (by omega), if_neg (by omega)]
      · rw [if_neg last, if_neg last]
  | false =>
      simp only [keeps, closes, Bool.false_eq_true, if_false] at *
      rw [next, before]
      by_cases last : fd = p.before + clients
      · subst last
        rw [if_pos rfl, if_neg (by omega), if_pos (by omega), Nat.add_sub_cancel_left]
      · have same : fd < p.before + (clients + 1) ↔ fd < p.before + clients := by omega
        simp only [if_neg last, same]

section Holds

variable {t : FdTable ServerEntry} {old new n client : Nat}

/-- A number that refers to no connection is closed. -/
theorem holds_close (own : ∀ c, t.get n ≠ some (.connection c)) :
    (t.close n).Holds client ↔ t.Holds client := by
  constructor
  · rintro ⟨fd, found⟩
    rw [FdTable.close, FdTable.get_set] at found
    split at found
    · cases found
    · exact ⟨fd, found⟩
  · rintro ⟨fd, found⟩
    refine ⟨fd, ?_⟩
    rw [FdTable.close, FdTable.get_set, if_neg]
    · exact found
    · rintro rfl
      exact own client found

theorem get_dup2 {entry : ServerEntry} (there : t.get old = some entry) (new fd : Nat) :
    (t.dup2 old new).get fd = if fd = new then some entry else t.get fd := by
  simp only [FdTable.dup2, there, FdTable.get_set]

/-- A number that refers to no connection becomes another one of a connection that is there. -/
theorem holds_dup2 {c : Nat} (there : t.get old = some (.connection c))
    (own : ∀ c, t.get new ≠ some (.connection c)) :
    (t.dup2 old new).Holds client ↔ t.Holds client := by
  constructor
  · rintro ⟨fd, found⟩
    rw [get_dup2 there] at found
    split at found
    · cases found
      exact ⟨old, there⟩
    · exact ⟨fd, found⟩
  · rintro ⟨fd, found⟩
    refine ⟨fd, ?_⟩
    rw [get_dup2 there, if_neg]
    · exact found
    · rintro rfl
      exact own client found

/-- A connection is put on the standard streams. -/
theorem holds_standard {c : Nat} (there : t.get old = some (.connection c)) (high : 3 ≤ old)
    (own : ∀ fd < 3, ∀ c, t.get fd ≠ some (.connection c)) :
    (((t.dup2 old 0).dup2 old 1).dup2 old 2).Holds client ↔ t.Holds client := by
  have first := get_dup2 there 0
  have there' : (t.dup2 old 0).get old = some (.connection c) := by
    rw [first, if_neg (by omega), there]
  have second := get_dup2 there' 1
  have there'' : ((t.dup2 old 0).dup2 old 1).get old = some (.connection c) := by
    rw [second, if_neg (by omega), there']
  rw [holds_dup2 there'', holds_dup2 there', holds_dup2 there]
  · exact own 0 (by decide)
  · rw [first, if_neg (by decide)]
    exact own 1 (by decide)
  · rw [second, if_neg (by decide), first, if_neg (by decide)]
    exact own 2 (by decide)

end Holds

/-- A child has its own connection and those that the server has open. -/
theorem Packed.child_holds (packed : p.Packed (p.keeps clients) fds) (client : Nat) :
    (p.child (fds.insert (.connection clients)) fds.lowest).Holds client ↔
      client < p.keeps clients ∨ client = clients := by
  have inserted := packed.get_insert clients
  have low : ∀ fd < p.before, (fds.insert (.connection clients)).get fd = some (.own fd) := by
    intro fd below
    rw [inserted, if_neg (by omega), packed, if_pos below]
  have held : (fds.insert (.connection clients)).Holds client ↔
      client < p.keeps clients ∨ client = clients := by
    rw [← packed.holds]
    constructor
    · rintro ⟨fd, found⟩
      rw [inserted] at found
      split at found
      · cases found
        exact .inr rfl
      · exact .inl ⟨fd, found⟩
    · rintro (⟨fd, found⟩ | rfl)
      · refine ⟨fd, ?_⟩
        rw [inserted, if_neg, found]
        rintro rfl
        rw [← packed.lowest, FdTable.get_lowest] at found
        cases found
      · exact ⟨p.before + p.keeps client, by rw [inserted, if_pos rfl]⟩
  have there : (fds.insert (.connection clients)).get fds.lowest = some (.connection clients) := by
    rw [inserted, packed.lowest, if_pos rfl]
  have apart : fds.lowest ≠ p.serverSock := by
    have := p.listening
    rw [packed.lowest]
    omega
  -- in front of the redirections: the listening socket is closed
  have closed : ∀ fd, ((fds.insert (.connection clients)).close p.serverSock).get fd =
      if fd = p.serverSock then none else (fds.insert (.connection clients)).get fd :=
    fun fd => FdTable.get_set _ _ _ _
  have own : ∀ fd < 3, ∀ c,
      ((fds.insert (.connection clients)).close p.serverSock).get fd ≠ some (.connection c) := by
    intro fd standard c found
    rw [closed, low fd (Nat.lt_of_lt_of_le standard p.standard)] at found
    split at found <;> cases found
  have held' : ((fds.insert (.connection clients)).close p.serverSock).Holds client ↔
      client < p.keeps clients ∨ client = clients := by
    rw [holds_close, held]
    intro c found
    rw [low _ p.listening] at found
    cases found
  have there' : ((fds.insert (.connection clients)).close p.serverSock).get fds.lowest =
      some (.connection clients) := by
    rw [closed, if_neg apart, there]
  have high : 3 ≤ fds.lowest := by
    have := p.standard
    rw [packed.lowest]
    omega
  rw [child]
  split
  · exact (holds_standard there' high own).trans held'
  · exact held'

/-- What always holds of a server and its children. -/
structure Sound (p : AcceptLoop) (limit : Nat) (st : Accepting) : Prop where
  server : st.running = true → p.Packed (p.keeps st.clients) st.fds
  stopped : st.running = false → ∀ client, ¬ st.fds.Holds client
  child : ∀ child ∈ st.children, child.1 < st.clients ∧
    ∀ client, child.2.Holds client ↔ client < p.keeps child.1 ∨ client = child.1
  room : p.keeps st.clients ≤ limit - p.before

theorem sound_start (p : AcceptLoop) (limit : Nat) : p.Sound limit p.start where
  server := by
    have none : p.keeps 0 = 0 := by
      unfold keeps
      split <;> rfl
    intro _
    rw [start, none]
    exact packed_start p
  stopped := nofun
  child := nofun
  room := by
    unfold keeps start
    split <;> exact Nat.zero_le _

theorem not_holds_empty (client : Nat) : ¬ (FdTable.mk ([] : List (Option ServerEntry))).Holds client := by
  rintro ⟨fd, found⟩
  cases fd <;> cases found

theorem Sound.stop (sound : p.Sound limit st) : p.Sound limit (stop st) where
  server := nofun
  stopped := fun _ => not_holds_empty
  child := sound.child
  room := sound.room

theorem Sound.step (sound : p.Sound limit st) (stepped : p.step limit st event = some st') :
    p.Sound limit st' := by
  cases event with
  | connect forked =>
      simp only [AcceptLoop.step] at stepped
      split at stepped
      · rename_i running
        have packed := sound.server running
        split at stepped
        · rename_i below
          cases stepped
          have room : p.keeps (st.clients + 1) ≤ limit - p.before := by
            have lowest := packed.lowest
            simp only [keeps] at lowest ⊢
            cases closes : p.closes with
            | true => exact Nat.zero_le _
            | false =>
                simp only [closes, Bool.false_eq_true, if_false] at lowest ⊢
                omega
          refine ⟨fun _ => packed.connect, nofun, ?_, room⟩
          intro child member
          have old : ∀ child ∈ st.children, child.1 < st.clients + 1 ∧
              ∀ client, child.2.Holds client ↔ client < p.keeps child.1 ∨ client = child.1 :=
            fun child member => ⟨Nat.lt_succ_of_lt (sound.child child member).1, (sound.child child member).2⟩
          dsimp only at member
          split at member
          · rcases List.mem_append.mp member with before | new
            · exact old child before
            · rw [List.mem_singleton.mp new]
              exact ⟨Nat.lt_succ_self _, packed.child_holds⟩
          · exact old child member
        · cases stepped
          exact sound.stop
      · cases stepped
  | fails =>
      simp only [AcceptLoop.step] at stepped
      split at stepped
      · cases stepped
        exact sound.stop
      · cases stepped
  | exits client =>
      simp only [AcceptLoop.step] at stepped
      split at stepped
      · cases stepped
        exact ⟨sound.server, sound.stopped,
          fun child member => sound.child child (List.mem_of_mem_filter member), sound.room⟩
      · cases stepped

theorem sound_of_reached (reached : Reached (p.step limit) (fun _ _ => True) p.start st) :
    p.Sound limit st :=
  reached.invariant (sound_start p limit) fun sound _ stepped => sound.step stepped

/-- Which connections are open. -/
theorem Sound.open_iff (sound : p.Sound limit st) (client : Nat) : st.Open client ↔
    st.running = true ∧ client < p.keeps st.clients ∨
      ∃ child ∈ st.children.map Prod.fst, client < p.keeps child ∨ client = child := by
  have children : (∃ child ∈ st.children, child.2.Holds client) ↔
      ∃ child ∈ st.children.map Prod.fst, client < p.keeps child ∨ client = child := by
    simp only [List.mem_map, exists_exists_and_eq_and]
    exact exists_congr fun child => and_congr_right fun member => (sound.child child member).2 client
  have server : st.fds.Holds client ↔ st.running = true ∧ client < p.keeps st.clients := by
    cases running : st.running with
    | true => exact ((sound.server running).holds client).trans (and_iff_right rfl).symm
    | false => exact iff_of_false (sound.stopped running client) nofun
  rw [Accepting.Open, server, children]

/-- When the next client finds no free descriptor, which stops the server. -/
theorem Sound.stops_iff (sound : p.Sound limit st) (running : st.running = true) (forked : Bool) :
    p.step limit st (.connect forked) = some (AcceptLoop.stop st) ↔
      limit ≤ p.before + p.keeps st.clients := by
  have lowest := (sound.server running).lowest
  simp only [AcceptLoop.step, running, if_true, lowest]
  by_cases below : p.before + p.keeps st.clients < limit
  · rw [if_pos below]
    refine iff_of_false (fun same => ?_) (by omega)
    have runs := congrArg Accepting.running (Option.some.inj same)
    cases runs
  · rw [if_neg below]
    exact iff_of_true rfl (by omega)

end AcceptLoop

open AcceptLoop in
/-- `np_simple` has a connection open just as long as its child runs, all under one number, and takes up
any number of them.  In `np_multi_proc` the server has every connection open until it stops, each under
its own number, and every child those of the clients before its own; the server takes up as many clients
as there are descriptors, no matter how many have left, and stops at the next one. -/
theorem accept_loops {limit : Nat} (room : 8 ≤ limit) :
    (∀ {st}, Reached (npSimple.step limit) (fun _ _ => True) npSimple.start st →
      (∀ client, st.Open client ↔ client ∈ st.children.map Prod.fst) ∧
        (st.running = true → st.fds.lowest = 7 ∧
          ∀ forked, npSimple.step limit st (.connect forked) ≠ some (stop st))) ∧
    (∀ {st}, Reached (npMultiProc.step limit) (fun _ _ => True) npMultiProc.start st →
      (∀ client, st.Open client ↔ st.running = true ∧ client < st.clients ∨
        ∃ child ∈ st.children.map Prod.fst, client ≤ child) ∧
        st.clients ≤ limit - 8 ∧
        (st.running = true → st.fds.lowest = 8 + st.clients ∧ ∀ forked,
          (npMultiProc.step limit st (.connect forked) = some (stop st) ↔ st.clients = limit - 8))) := by
  constructor
  · intro st reached
    have sound := sound_of_reached reached
    have none : ∀ clients, npSimple.keeps clients = 0 := fun _ => rfl
    refine ⟨fun client => ?_, fun running => ⟨(sound.server running).lowest, fun forked => ?_⟩⟩
    · rw [sound.open_iff]
      constructor
      · rintro (⟨-, below⟩ | ⟨child, member, below | rfl⟩)
        · exact absurd below (Nat.not_lt_zero _)
        · exact absurd below (Nat.not_lt_zero _)
        · exact member
      · exact fun member => .inr ⟨client, member, .inr rfl⟩
    · rw [ne_eq, sound.stops_iff running, none]
      have before : npSimple.before = 7 := rfl
      omega
  · intro st reached
    have sound := sound_of_reached reached
    have all : ∀ clients, npMultiProc.keeps clients = clients := fun _ => rfl
    have before : npMultiProc.before = 8 := rfl
    have fits := sound.room
    rw [all, before] at fits
    refine ⟨fun client => ?_, fits, fun running => ⟨(sound.server running).lowest, fun forked => ?_⟩⟩
    · rw [sound.open_iff, all]
      refine or_congr_right (exists_congr fun child => and_congr_right fun _ => ?_)
      rw [all, Nat.le_iff_lt_or_eq]
    · rw [sound.stops_iff running, all, before]
      omega

theorem accept_loops_standard : 8 ≤ 1024 ∧
    (∀ {st}, Reached (npSimple.step 1024) (fun _ _ => True) npSimple.start st →
      ∀ client, st.Open client ↔ client ∈ st.children.map Prod.fst) :=
  ⟨by decide, fun reached => ((accept_loops (by decide : 8 ≤ 1024)).1 reached).1⟩

end NetProg
