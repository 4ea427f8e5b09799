import NetProg.Server.UserIds

/-!
# User ids with `CONFIG_SHM`

The same question for the build with shared memory, where an id outside of 1..30 is a null pointer
and where `readUserPipe` looks up the receiver of a line `<i >j` without asking whether he exists.
-/

namespace NetProg

open ChatServer (notExistMsg handleUserPipeError index)

namespace ShmServer

/-- The records of 1..30 exist, and no others. -/
def Table (server : ShmServer) : Prop :=
  ∀ i, server.users i ≠ none ↔ 1 ≤ i ∧ i < maxConn

def Connected (server : ShmServer) (id : Int) : Prop :=
  ∃ user, server.users id = some user ∧ user.isConnected = true

theorem createSHMUser_table : createSHMUser.Table := by
  intro i
  simp only [createSHMUser]
  split
  · rename_i inside
    exact iff_of_true (Option.some_ne_none _) inside
  · rename_i outside
    exact iff_of_false (fun there => there rfl) outside

/-- The same users are connected, and the records of `ids` were used. -/
structure Looks (old new : ShmServer) (ids : List Int) : Prop where
  users : ∀ i, (new.users i).map ShmUser.isConnected = (old.users i).map ShmUser.isConnected
  touched : new.touched = old.touched ++ ids

/-- Only records of connected users were used. -/
def Courteous (old new : ShmServer) : Prop :=
  ∃ ids, Looks old new ids ∧ ∀ i ∈ ids, old.Connected i

/-- The record of `id` was used as well. -/
def Used (old new : ShmServer) (id : Int) : Prop :=
  ∃ ids, Looks old new ids ∧ (∀ i ∈ ids, old.Connected i ∨ i = id) ∧ id ∈ ids

section Looks

variable {server old new last : ShmServer} {ids ids' : List Int} {id uid : Int} {k : Proc}

theorem Looks.refl (server : ShmServer) : Looks server server [] :=
  ⟨fun _ => rfl, (List.append_nil _).symm⟩

theorem Looks.trans (h : Looks old new ids) (h' : Looks new last ids') :
    Looks old last (ids ++ ids') :=
  ⟨fun i => (h'.users i).trans (h.users i), by rw [h'.touched, h.touched, List.append_assoc]⟩

theorem connected_iff : server.Connected id ↔
    (server.users id).map ShmUser.isConnected = some true := by
  rw [Connected, Option.map_eq_some_iff]

theorem Looks.connected (h : Looks old new ids) : new.Connected id ↔ old.Connected id := by
  rw [connected_iff, connected_iff, h.users]

theorem Looks.none_iff (h : Looks old new ids) : new.users id = none ↔ old.users id = none := by
  rw [← Option.map_eq_none_iff (f := ShmUser.isConnected), h.users, Option.map_eq_none_iff]

theorem Looks.table (h : Looks old new ids) (table : old.Table) : new.Table := by
  intro i
  rw [← table i, ne_eq, ne_eq, h.none_iff]

theorem Table.inside (table : server.Table) (connected : server.Connected id) :
    1 ≤ id ∧ id < maxConn := by
  obtain ⟨user, found, -⟩ := connected
  exact (table id).mp (by rw [found]; exact Option.some_ne_none _)

theorem Table.index (table : server.Table) (connected : server.Connected id) :
    ∃ i, index id k = .ok i := by
  obtain ⟨low, high⟩ := table.inside connected
  cases position : pipeIndex id with
  | none =>
      have outside := (pipeIndex_eq_none low).mp position
      omega
  | some i => exact ⟨i, index_inside position⟩

theorem setUser_looks {user user' : ShmUser} (found : server.users id = some user)
    (same : user'.isConnected = user.isConnected) : Looks server (server.setUser id user') [] := by
  refine ⟨fun i => ?_, (List.append_nil _).symm⟩
  by_cases here : i = id
  · subst here
    simp only [setUser, Function.update_self, found, Option.map_some, same]
  · simp only [setUser, Function.update_of_ne here]

theorem user_spec (id : Int) (k : Proc) (server : ShmServer) :
    Sat (server.user id k)
      (fun result => server.users id = some result.1 ∧ Looks server result.2 [id] ∧
        result.2.users = server.users ∧ result.2.fifos = server.fifos)
      (fun stopped => stopped = (.undefined, k) ∧ server.users id = none) := by
  unfold user
  cases found : server.users id with
  | none => exact ⟨rfl, rfl⟩
  | some user => exact ⟨rfl, ⟨fun _ => rfl, rfl⟩, rfl, rfl⟩

theorem isConnected_spec (id : Int) (k : Proc) (server : ShmServer) :
    Sat (server.isConnected id k) (fun connected => connected = true ↔ server.Connected id)
      (fun stopped => stopped = (.undefined, k) ∧ server.users id = none) := by
  unfold isConnected
  cases found : server.users id with
  | none => exact ⟨rfl, rfl⟩
  | some user => simp [Connected, found]

theorem Courteous.refl (server : ShmServer) : Courteous server server :=
  ⟨[], Looks.refl server, fun _ member => nomatch member⟩

theorem Courteous.trans (h : Courteous old new) (h' : Courteous new last) : Courteous old last := by
  obtain ⟨ids, looks, all⟩ := h
  obtain ⟨ids', looks', all'⟩ := h'
  refine ⟨ids ++ ids', looks.trans looks', fun i member => ?_⟩
  rcases List.mem_append.mp member with first | later
  · exact all i first
  · exact looks.connected.mp (all' i later)

theorem Courteous.connected (h : Courteous old new) : new.Connected id ↔ old.Connected id := by
  obtain ⟨ids, looks, -⟩ := h
  exact looks.connected

theorem Courteous.table (h : Courteous old new) (table : old.Table) : new.Table := by
  obtain ⟨ids, looks, -⟩ := h
  exact looks.table table

theorem Courteous.used (h : Courteous old new) (looks : Looks new last [id]) : Used old last id := by
  obtain ⟨ids, looks', all⟩ := h
  refine ⟨ids ++ [id], looks'.trans looks, fun i member => ?_, List.mem_append_right _ ?_⟩
  · rcases List.mem_append.mp member with first | later
    · exact Or.inl (all i first)
    · exact Or.inr (List.mem_singleton.mp later)
  · exact List.mem_singleton_self id

theorem Used.trans (h : Used old new id) (h' : Courteous new last) : Used old last id := by
  obtain ⟨ids, looks, all, member⟩ := h
  obtain ⟨ids', looks', all'⟩ := h'
  refine ⟨ids ++ ids', looks.trans looks', fun i there => ?_, List.mem_append_left _ member⟩
  rcases List.mem_append.mp there with first | later
  · exact all i first
  · exact Or.inl (looks.connected.mp (all' i later))

theorem Used.fifos (h : Used old new id) (fifos : Int → Int → Bool) :
    Used old { new with fifos } id := by
  obtain ⟨ids, looks, all, member⟩ := h
  exact ⟨ids, ⟨looks.users, looks.touched⟩, all, member⟩

theorem Used.table (h : Used old new id) (table : old.Table) : new.Table := by
  obtain ⟨ids, looks, -⟩ := h
  exact looks.table table

theorem courteous_update {user user' : ShmUser} (found : server.users id = some user)
    (same : user'.isConnected = user.isConnected) : Courteous server (server.setUser id user') :=
  ⟨[], setUser_looks found same, fun _ member => nomatch member⟩

theorem Courteous.fifos (h : Courteous old new) (fifos : Int → Int → Bool) :
    Courteous old { new with fifos } := by
  obtain ⟨ids, looks, all⟩ := h
  exact ⟨ids, ⟨looks.users, looks.touched⟩, all⟩

/-- A connected user is looked up without harm. -/
theorem connected_spec (connected : server.Connected id) (k : Proc) :
    Sat (server.user id k)
      (fun result => Courteous server result.2 ∧ result.2.users id = some result.1 ∧
        result.2.fifos = server.fifos)
      (fun _ => False) := by
  refine Sat.mono (user_spec id k server) ?_ ?_
  · intro result spec
    obtain ⟨found, looks, users, fifos⟩ := spec
    refine ⟨⟨[id], looks, fun i member => ?_⟩, ?_, fifos⟩
    · rw [List.mem_singleton.mp member]
      exact connected
    · rw [users, found]
  · intro stopped both
    obtain ⟨user, found, -⟩ := connected
    rw [found] at both
    cases both.2

theorem sendRawMessage_spec (connected : server.Connected uid) (msg : Text) (k : Proc) :
    Sat (server.sendRawMessage uid msg k) (Courteous server) (fun _ => False) := by
  unfold sendRawMessage
  refine Sat.bind (connected_spec connected k) ?_
  intro result spec
  obtain ⟨courteous, found, -⟩ := spec
  exact courteous.trans (courteous_update found rfl)

theorem broadcastTo_spec (msg : Text) (k : Proc) {receivers : List Int}
    (slots : ∀ id ∈ receivers, server.users id ≠ none) :
    Sat (server.broadcastTo msg k receivers) (Courteous server) (fun _ => False) := by
  induction receivers generalizing server with
  | nil => exact Courteous.refl server
  | cons id receivers ih =>
      have others : ∀ id ∈ receivers, server.users id ≠ none := fun i member =>
        slots i (List.mem_cons_of_mem _ member)
      unfold broadcastTo
      refine Sat.bind (Sat.mono (isConnected_spec id k server) (fun _ h => h) ?_) ?_
      · intro stopped both
        exact slots id List.mem_cons_self both.2
      intro connected iff
      cases connected with
      | false => exact ih others
      | true =>
          refine Sat.bind (sendRawMessage_spec (iff.mp rfl) msg k) ?_
          intro new courteous
          have slots' : ∀ i ∈ receivers, new.users i ≠ none := by
            intro i member none
            obtain ⟨ids, looks, -⟩ := courteous
            exact others i member (looks.none_iff.mp none)
          exact Sat.mono (ih slots') (fun last later => courteous.trans later) (fun _ never => never)

theorem mem_slots {i : Int} : i ∈ slots ↔ 1 ≤ i ∧ i < maxConn := by
  simp only [slots, List.mem_map, List.mem_range]
  constructor
  · intro found
    obtain ⟨n, small, rfl⟩ := found
    simp only [maxConn] at *
    omega
  · intro inside
    refine ⟨(i - 1).toNat, ?_, ?_⟩
    all_goals simp only [maxConn] at *
    all_goals omega

theorem broadcastMessage_spec (table : server.Table) (msg : Text) (k : Proc) :
    Sat (server.broadcastMessage msg k) (Courteous server) (fun _ => False) :=
  broadcastTo_spec msg k fun id member => (table id).mpr (mem_slots.mp member)

theorem Table.null (table : server.Table) (outside : ¬ (1 ≤ id ∧ id < maxConn)) :
    server.users id = none := by
  by_contra there
  exact outside ((table id).mp there)

/-- The id 31 is looked up and is not there. -/
theorem handleUserPipe_null (table : server.Table) (mode : Mode) (k : Proc) :
    server.handleUserPipe id maxConn mode k = .error (.undefined, k) := by
  unfold handleUserPipe
  rw [if_neg (lt_irrefl _), isConnected, table.null (by omega)]
  rfl

theorem handleUserPipe_absent (table : server.Table) (absent : ¬ server.Connected uid)
    (low : 0 < uid) (other : uid ≠ maxConn) (mode : Mode) (k : Proc) :
    server.handleUserPipe id uid mode k = .ok (false, mode == .rdonly, k, server) := by
  unfold handleUserPipe
  by_cases large : (maxConn : Int) < uid
  · rw [if_pos large]
  · rw [if_neg large]
    cases found : server.users uid with
    | none => exact absurd found ((table uid).mpr (by omega))
    | some user =>
        have off : user.isConnected = false := by
          refine eq_false_of_ne_true fun on => absent ⟨user, found, on⟩
        rw [isConnected, found]
        show (if !user.isConnected then _ else _) = _
        rw [off]
        rfl

/-- A pipe of a connected user is looked at without harm. -/
theorem handleUserPipe_spec (table : server.Table) (me : server.Connected id)
    (there : server.Connected uid) (mode : Mode) (k : Proc) :
    Sat (server.handleUserPipe id uid mode k)
      (fun result => result.1 = true ∧ Courteous server result.2.2.2 ∧
        (mode = .rdonly → result.2.1 = server.fifos uid id))
      (fun _ => False) := by
  have inside := table.inside there
  unfold handleUserPipe
  rw [if_neg (by omega)]
  refine Sat.bind (Sat.mono (isConnected_spec uid k server) (fun _ h => h) ?_) ?_
  · intro stopped both
    exact (table uid).mpr inside both.2
  intro connected iff
  rw [iff.mpr there]
  cases mode with
  | wronly =>
      refine Sat.bind (connected_spec there k) ?_
      intro result spec
      obtain ⟨courteous, found, -⟩ := spec
      obtain ⟨i, position⟩ := table.index me (k := k)
      rw [position]
      show Sat (if result.2.fifos id uid then _ else _) _ _
      split
      · exact ⟨rfl, courteous, fun never => Mode.noConfusion never⟩
      · refine ⟨rfl, Courteous.fifos (courteous.trans (courteous_update found ?_)) _,
          fun never => Mode.noConfusion never⟩
        rfl
  | rdonly =>
      refine Sat.bind (connected_spec me k) ?_
      intro result spec
      obtain ⟨courteous, found, fifos⟩ := spec
      obtain ⟨i, position⟩ := table.index there (k := k)
      rw [position]
      show Sat (if result.2.fifos uid id then _ else _) _ _
      rw [fifos]
      split
      · rename_i isThere
        refine ⟨rfl, courteous.trans (courteous_update found ?_), fun _ => isThere.symm⟩
        rfl
      · rename_i absent
        exact ⟨rfl, courteous, fun _ => (eq_false_of_ne_true absent).symm⟩

section Pipes

variable {p : Pipe} {line : Text} {other : Int}

theorem writeUserPipe_absent (table : server.Table) (absent : ¬ server.Connected uid)
    (low : 0 < uid) (inside : uid ≠ maxConn) :
    server.writeUserPipe id uid p line other k = .ok
      (⟨none, (ChatServer.handleUserPipeError id uid .wronly .userNotExist k).1⟩,
        (ChatServer.handleUserPipeError id uid .wronly .userNotExist k).2, server) := by
  rw [writeUserPipe, handleUserPipe_absent table absent low inside]
  rfl

theorem readUserPipe_absent (table : server.Table) (absent : ¬ server.Connected uid)
    (low : 0 < uid) (inside : uid ≠ maxConn) :
    server.readUserPipe id uid p line other k = .ok
      (⟨(ChatServer.handleUserPipeError id uid .rdonly .userNotExist k).1, none⟩,
        (ChatServer.handleUserPipeError id uid .rdonly .userNotExist k).2, server) := by
  rw [readUserPipe, handleUserPipe_absent table absent low inside]
  rfl

theorem writeUserPipe_null (table : server.Table) :
    server.writeUserPipe id maxConn p line other k = .error (.undefined, k) := by
  rw [writeUserPipe, handleUserPipe_null table]
  rfl

theorem readUserPipe_null (table : server.Table) :
    server.readUserPipe id maxConn p line other k = .error (.undefined, k) := by
  rw [readUserPipe, handleUserPipe_null table]
  rfl

/-- A write to a connected user uses records of connected users. -/
theorem writeUserPipe_connected (table : server.Table) (me : server.Connected id)
    (there : server.Connected uid) :
    Sat (server.writeUserPipe id uid p line other k) (fun result => Courteous server result.2.2)
      (fun _ => False) := by
  unfold writeUserPipe
  refine Sat.bind (handleUserPipe_spec table me there .wronly k) ?_
  intro result spec
  obtain ⟨userExist, pipeExist, k, new⟩ := result
  obtain ⟨isThere, courteous, -⟩ := spec
  cases isThere
  cases pipeExist with
  | true => exact courteous
  | false =>
      refine Sat.bind (connected_spec (courteous.connected.mpr me) k) ?_
      intro sender spec
      have first := courteous.trans spec.1
      refine Sat.bind (connected_spec (first.connected.mpr there) k) ?_
      intro receiver spec
      have second := first.trans spec.1
      obtain ⟨i, position⟩ := table.index me (k := k)
      obtain ⟨receiver, new₂⟩ := receiver
      rw [position]
      dsimp only [bind, Except.bind]
      split
      · exact second
      · exact Sat.bind (broadcastMessage_spec (second.table table) _ k) fun last sent =>
          second.trans sent

/-- A read that is not refused looks up `other` as well, whoever that is. -/
theorem readUserPipe_connected (table : server.Table) (me : server.Connected id)
    (there : server.Connected uid) :
    Sat (server.readUserPipe id uid p line other k)
      (fun result => if server.fifos uid id = true ∧ other ≠ 0 then Used server result.2.2 other
        else Courteous server result.2.2)
      (fun stopped => stopped.1 = .undefined ∧ server.fifos uid id = true ∧ other ≠ 0 ∧
        server.users other = none) := by
  unfold readUserPipe
  refine Sat.bind (Sat.mono (handleUserPipe_spec table me there .rdonly k) (fun _ h => h)
    (fun _ never => never.elim)) ?_
  intro result spec
  obtain ⟨userExist, pipeExist, k, new⟩ := result
  obtain ⟨isThere, courteous, pipe⟩ := spec
  cases isThere
  have known : pipeExist = server.fifos uid id := pipe rfl
  rw [← known]
  cases pipeExist with
  | false => exact courteous
  | true =>
      refine Sat.bind (Sat.mono (connected_spec (courteous.connected.mpr there) k) (fun _ h => h)
        (fun _ never => never.elim)) ?_
      intro sender spec
      have first := courteous.trans spec.1
      refine Sat.bind (Sat.mono (connected_spec (first.connected.mpr me) k) (fun _ h => h)
        (fun _ never => never.elim)) ?_
      intro receiver spec
      have second := first.trans spec.1
      obtain ⟨i, position⟩ := table.index there (k := k)
      obtain ⟨receiver, new₂⟩ := receiver
      rw [position]
      dsimp only [bind, Except.bind]
      split
      · rename_i writes
        refine Sat.bind (Sat.mono (user_spec other k new₂) (fun _ h => h) ?_) ?_
        · intro stopped both
          obtain ⟨ids, looks, -⟩ := second
          rw [both.1]
          exact ⟨rfl, rfl, writes, looks.none_iff.mp both.2⟩
        intro target spec
        have used := second.used spec.2.1
        refine Sat.bind (Sat.mono (broadcastMessage_spec ?_ _ _) (fun _ h => h)
          (fun _ never => never.elim)) ?_
        · exact (used.fifos _).table table
        intro last sent
        rw [Sat.ok_iff, if_pos ⟨rfl, writes⟩]
        exact (used.fifos _).trans sent
      · rename_i nowhere
        refine Sat.bind (Sat.mono (broadcastMessage_spec ?_ _ _) (fun _ h => h)
          (fun _ never => never.elim)) ?_
        · exact (second.fifos _).table table
        intro last sent
        rw [Sat.ok_iff, if_neg fun writes => nowhere writes.2]
        exact (second.fifos _).trans sent

end Pipes

/-- `minKey` over the ids from `key` up to 30. -/
theorem minKey_spec (table : server.Table) (k : Proc) (n : Nat) (key : Int) (low : 1 ≤ key)
    (high : key + n = maxConn) :
    Sat (minKey k server ((List.range n).map fun (i : Nat) => (i : Int) + key) key)
      (fun id => (id = maxConn ∧ ∀ i, key ≤ i → i < maxConn → server.Connected i) ∨
        (key ≤ id ∧ id < maxConn ∧ ¬ server.Connected id))
      (fun _ => False) := by
  induction n generalizing key with
  | zero => exact Or.inl ⟨by omega, fun i _ _ => by omega⟩
  | succ n ih =>
      have later : (List.range (n + 1)).map (fun (i : Nat) => (i : Int) + key) =
          key :: (List.range n).map fun (i : Nat) => (i : Int) + (key + 1) := by
        rw [List.range_succ_eq_map, List.map_cons, List.map_map, Nat.cast_zero, zero_add]
        congr 2
        funext i
        simp only [Function.comp_apply, Nat.succ_eq_add_one]
        omega
      rw [later, minKey]
      refine Sat.bind (Sat.mono (isConnected_spec key k server) (fun _ h => h) ?_) ?_
      · intro stopped both
        exact (table key).mpr (by omega) both.2
      intro connected iff
      cases connected with
      | false => exact Or.inr ⟨le_refl key, by omega, fun yes => Bool.false_ne_true (iff.mpr yes)⟩
      | true =>
          have rest := ih (key + 1) (by omega) (by omega)
          refine Sat.mono rest (fun id found => ?_) (fun _ never => never)
          rcases found with full | free
          · refine Or.inl ⟨full.1, fun i above below => ?_⟩
            rcases Int.lt_or_eq_of_le above with after | here
            · exact full.2 i (by omega) below
            · exact here ▸ iff.mp rfl
          · exact Or.inr ⟨by omega, free.2⟩

theorem setUser_table (table : server.Table) (inside : 1 ≤ id ∧ id < maxConn) (user : ShmUser) :
    (server.setUser id user).Table := by
  intro i
  by_cases here : i = id
  · subst here
    simp [setUser, inside]
  · rw [← table i, setUser]
    simp only [Function.update_of_ne here]

/-- `addUser` takes a free id; with 30 users it looks for the record of 31. -/
theorem addUser_spec (table : server.Table) (ip : Text) (port sock pid : Int) (k : Proc) :
    Sat (server.addUser ip port sock pid k)
      (fun result => result.2.Table ∧ ∃ id : Int, 1 ≤ id ∧ id < maxConn ∧ ¬ server.Connected id ∧
        result.2.Connected id ∧ result.2.touched = server.touched ++ [id])
      (fun stopped => stopped.1 = .undefined ∧
        ∀ i : Int, 1 ≤ i → i < maxConn → server.Connected i) := by
  unfold addUser
  refine Sat.bind (Sat.mono (minKey_spec table _ (maxConn - 1) 1 (by omega) rfl)
    (fun _ h => h) (fun _ never => never.elim)) ?_
  intro id found
  refine Sat.bind (Sat.mono (user_spec id _ server) (fun _ h => h) ?_) ?_
  · intro stopped both
    rw [both.1]
    rcases found with full | free
    · exact ⟨rfl, full.2⟩
    · exact absurd both.2 ((table id).mpr ⟨free.1, free.2.1⟩)
  intro result spec
  obtain ⟨there, looks, -, -⟩ := spec
  have inside : 1 ≤ id ∧ id < maxConn := (table id).mp (by rw [there]; exact Option.some_ne_none _)
  have free : ¬ server.Connected id := by
    rcases found with full | free
    · omega
    · exact free.2.2
  refine ⟨setUser_table (looks.table table) inside _, id, inside.1, inside.2, free, ?_, looks.touched⟩
  exact ⟨_, Function.update_self .., rfl⟩

/-- `removeUser` uses the records of connected users. -/
theorem removeUser_spec (table : server.Table) (me : server.Connected id) (sock : Nat) (k : Proc) :
    Sat (server.removeUser id sock k)
      (fun result => result.2.Table ∧ ∃ ids, result.2.touched = server.touched ++ ids ∧
        ∀ i ∈ ids, server.Connected i)
      (fun _ => False) := by
  unfold removeUser
  refine Sat.bind (connected_spec me k) ?_
  intro result spec
  obtain ⟨first, there, -⟩ := spec
  have table' := setUser_table (first.table table) (table.inside me) .zeroed
  refine Sat.bind (broadcastMessage_spec ?_ _ _) ?_
  · exact table'
  intro last sent
  refine ⟨sent.table table', ?_⟩
  obtain ⟨ids, looks, all⟩ := first
  obtain ⟨ids', looks', all'⟩ := sent
  refine ⟨ids ++ ids', ?_, fun i member => ?_⟩
  · show last.touched = _
    rw [looks'.touched, ← List.append_assoc, ← looks.touched]
    rfl
  · rcases List.mem_append.mp member with before | after
    · exact all i before
    · obtain ⟨user, found, on⟩ := all' i after
      by_cases gone : i = id
      · exact gone ▸ me
      · refine looks.connected.mp ⟨user, ?_, on⟩
        rw [← found]
        exact (Function.update_of_ne gone _ _).symm

end Looks

end ShmServer

/-- The calls of the processes of `np_multi_proc` that look up users. -/
inductive ShmOp where
  | addUser (ip : Text) (port sock pid : Int)
  | removeUser (id : Int) (sock : Nat)
  | tell (id uid : Int) (msg : Text)
  | writeUserPipe (id writeUid : Int) (p : Pipe) (line : Text) (readUid : Int)
  | readUserPipe (id readUid : Int) (p : Pipe) (line : Text) (writeUid : Int)

namespace ShmOp

open ShmServer (Table)

def step (k : Proc) (server : ShmServer) : ShmOp → Outcome (Proc × ShmServer)
  | .addUser ip port sock pid => server.addUser ip port sock pid k
  | .removeUser id sock => server.removeUser id sock k
  | .tell id uid msg => server.tell id uid msg k
  | .writeUserPipe id writeUid p line readUid => do
      let (_, k, server) ← server.writeUserPipe id writeUid p line readUid k
      .ok (k, server)
  | .readUserPipe id readUid p line writeUid => do
      let (_, k, server) ← server.readUserPipe id readUid p line writeUid k
      .ok (k, server)

/-- Users act while they are connected, and `runShell` has looked whether the id is positive. -/
def Enabled (server : ShmServer) : ShmOp → Prop
  | .addUser _ _ _ _ => True
  | .removeUser id _ => server.Connected id
  | .tell id _ _ => server.Connected id
  | .writeUserPipe id writeUid _ _ _ => server.Connected id ∧ 0 < writeUid
  | .readUserPipe id readUid _ _ _ => server.Connected id ∧ 0 < readUid

/-- The ids that were typed for this call. -/
def target : ShmOp → Option Int
  | .tell _ uid _ => some uid
  | .writeUserPipe _ writeUid _ _ _ => some writeUid
  | .readUserPipe _ readUid _ _ _ => some readUid
  | _ => none

/-- No null pointer and no index outside; only records of connected users are used; an id of nobody
gives the error message and changes nothing. -/
def IndexSafe (k : Proc) (server : ShmServer) (op : ShmOp) : Prop :=
  (∀ stopped, op.step k server = .error stopped → stopped.1 ≠ .undefined) ∧
    (∀ k' new, op.step k server = .ok (k', new) →
      ∀ i ∈ new.touched.drop server.touched.length, server.Connected i ∨ new.Connected i) ∧
    ∀ uid, op.target = some uid → ¬ server.Connected uid →
      ∃ k', op.step k server = .ok (k', server) ∧
        .cout (notExistMsg uid) ∈ k'.log.drop k.log.length

/-- Fewer than 30 users at a login; `tell` to 1..30; never the pipe of 31; and the receiver of a
line `<i >j` is connected when its first half succeeds. -/
def Within (server : ShmServer) : ShmOp → Prop
  | .addUser _ _ _ _ => ∃ i : Int, 1 ≤ i ∧ i < maxConn ∧ ¬ server.Connected i
  | .removeUser _ _ => True
  | .tell _ uid _ => 1 ≤ uid ∧ uid < maxConn
  | .writeUserPipe _ writeUid _ _ _ => writeUid ≠ maxConn
  | .readUserPipe id readUid _ _ writeUid => readUid ≠ maxConn ∧
      (server.Connected readUid → server.fifos readUid id = true → writeUid ≠ 0 →
        server.Connected writeUid)

section Safe

variable {k : Proc} {server : ShmServer}

/-- A call for an id of somebody. -/
theorem indexSafe_known {op : ShmOp} (known : ∀ uid, op.target = some uid → server.Connected uid)
    (ends : Sat (op.step k server)
      (fun result => ∃ ids, result.2.touched = server.touched ++ ids ∧
        ∀ i ∈ ids, server.Connected i ∨ result.2.Connected i)
      (fun stopped => stopped.1 ≠ .undefined)) : op.IndexSafe k server := by
  refine ⟨fun _ stopped => ends.of_error stopped, fun k' new ended i member => ?_,
    fun uid typed absent => absurd (known uid typed) absent⟩
  obtain ⟨ids, touched, all⟩ := ends.of_ok ended
  rw [touched, List.drop_left] at member
  exact all i member

theorem indexSafe_courteous {op : ShmOp}
    (known : ∀ uid, op.target = some uid → server.Connected uid)
    (ends : Sat (op.step k server) (fun result => server.Courteous result.2) (fun _ => False)) :
    op.IndexSafe k server := by
  refine indexSafe_known known (Sat.mono ends (fun result courteous => ?_) (fun _ => False.elim))
  obtain ⟨ids, looks, all⟩ := courteous
  exact ⟨ids, looks.touched, fun i member => Or.inl (all i member)⟩

/-- A refused call for an id of nobody. -/
theorem indexSafe_refused {op : ShmOp} {k' : Proc} {uid : Int} (typed : op.target = some uid)
    (refused : op.step k server = .ok (k', server))
    (told : .cout (notExistMsg uid) ∈ k'.log.drop k.log.length) : op.IndexSafe k server := by
  refine ⟨fun stopped ended => ?_, fun k'' new ended i member => ?_, fun uid' typed' absent => ?_⟩
  · rw [refused] at ended
    cases ended
  · cases refused.symm.trans ended
    rw [List.drop_length] at member
    cases member
  · cases typed.symm.trans typed'
    exact ⟨k', refused, told⟩

theorem not_indexSafe {op : ShmOp} {k' : Proc} (ended : op.step k server = .error (.undefined, k')) :
    ¬ op.IndexSafe k server :=
  fun safe => safe.1 (.undefined, k') ended rfl

theorem tell_connected {id uid : Int} (me : server.Connected id) (there : server.Connected uid)
    (msg : Text) :
    Sat (step k server (.tell id uid msg)) (fun result => server.Courteous result.2)
      (fun _ => False) := by
  obtain ⟨user, found, on⟩ := there
  simp only [step, ShmServer.tell, ShmServer.isConnected, found, on, bind, Except.bind,
    Bool.not_true, Bool.false_eq_true, if_false]
  refine Sat.bind (ShmServer.connected_spec me k) ?_
  intro result spec
  refine Sat.bind (ShmServer.sendRawMessage_spec (spec.1.connected.mpr ⟨user, found, on⟩) _ k) ?_
  intro new sent
  exact spec.1.trans sent

theorem tell_absent (table : server.Table) {uid : Int} (inside : 1 ≤ uid ∧ uid < maxConn)
    (absent : ¬ server.Connected uid) (id : Int) (msg : Text) :
    step k server (.tell id uid msg) = .ok (k.logEvent (.cout (notExistMsg uid)), server) := by
  obtain ⟨user, found⟩ := Option.ne_none_iff_exists'.mp ((table uid).mpr inside)
  have off : user.isConnected = false := eq_false_of_ne_true fun on => absent ⟨user, found, on⟩
  simp [step, ShmServer.tell, ShmServer.isConnected, found, off, bind, Except.bind]

theorem tell_null (table : server.Table) {uid : Int} (outside : ¬ (1 ≤ uid ∧ uid < maxConn))
    (id : Int) (msg : Text) : step k server (.tell id uid msg) = .error (.undefined, k) := by
  simp [step, ShmServer.tell, ShmServer.isConnected, table.null outside, bind, Except.bind]

theorem tell_safe_iff (table : server.Table) {id : Int} (me : server.Connected id) (uid : Int)
    (msg : Text) : IndexSafe k server (.tell id uid msg) ↔ 1 ≤ uid ∧ uid < maxConn := by
  by_cases inside : 1 ≤ uid ∧ uid < maxConn
  · refine iff_of_true ?_ inside
    by_cases there : server.Connected uid
    · refine indexSafe_courteous (fun uid' typed => ?_) (tell_connected me there msg)
      cases typed
      exact there
    · refine indexSafe_refused rfl (tell_absent table inside there id msg) ?_
      rw [Proc.logEvent, List.drop_left]
      exact List.mem_singleton_self _
  · exact iff_of_false (not_indexSafe (tell_null table inside id msg)) inside

theorem writeUserPipe_step_absent (table : server.Table) {writeUid : Int} (low : 0 < writeUid)
    (inside : writeUid ≠ maxConn) (absent : ¬ server.Connected writeUid) (id : Int) (p : Pipe)
    (line : Text) (readUid : Int) :
    step k server (.writeUserPipe id writeUid p line readUid) =
      .ok ((ChatServer.handleUserPipeError id writeUid .wronly .userNotExist k).2, server) := by
  simp only [step, ShmServer.writeUserPipe_absent table absent low inside]
  rfl

theorem readUserPipe_step_absent (table : server.Table) {readUid : Int} (low : 0 < readUid)
    (inside : readUid ≠ maxConn) (absent : ¬ server.Connected readUid) (id : Int) (p : Pipe)
    (line : Text) (writeUid : Int) :
    step k server (.readUserPipe id readUid p line writeUid) =
      .ok ((ChatServer.handleUserPipeError id readUid .rdonly .userNotExist k).2, server) := by
  simp only [step, ShmServer.readUserPipe_absent table absent low inside]
  rfl

theorem writeUserPipe_step (table : server.Table) {id writeUid : Int} (me : server.Connected id)
    (there : server.Connected writeUid) (p : Pipe) (line : Text) (readUid : Int) :
    Sat (step k server (.writeUserPipe id writeUid p line readUid))
      (fun result => server.Courteous result.2) (fun _ => False) :=
  Sat.bind (ShmServer.writeUserPipe_connected table me there) fun _ courteous => courteous

theorem writeUserPipe_safe_iff (table : server.Table) {id : Int} (me : server.Connected id)
    {writeUid : Int} (low : 0 < writeUid) (p : Pipe) (line : Text) (readUid : Int) :
    IndexSafe k server (.writeUserPipe id writeUid p line readUid) ↔ writeUid ≠ maxConn := by
  by_cases null : writeUid = maxConn
  · subst null
    have ended : step k server (.writeUserPipe id maxConn p line readUid) =
        .error (.undefined, k) := by
      simp only [step, ShmServer.writeUserPipe_null table]
      rfl
    exact iff_of_false (not_indexSafe ended) fun other => other rfl
  · refine iff_of_true ?_ null
    by_cases there : server.Connected writeUid
    · refine indexSafe_courteous (fun uid typed => ?_) (writeUserPipe_step table me there ..)
      cases typed
      exact there
    · exact indexSafe_refused rfl (writeUserPipe_step_absent table low null there ..)
        (handleUserPipeError_reported id writeUid .wronly .userNotExist k)

theorem readUserPipe_step (table : server.Table) {id readUid : Int} (me : server.Connected id)
    (there : server.Connected readUid) (p : Pipe) (line : Text) (writeUid : Int) :
    Sat (step k server (.readUserPipe id readUid p line writeUid))
      (fun result => if server.fifos readUid id = true ∧ writeUid ≠ 0
        then server.Used result.2 writeUid else server.Courteous result.2)
      (fun stopped => stopped.1 = .undefined ∧ server.fifos readUid id = true ∧ writeUid ≠ 0 ∧
        server.users writeUid = none) :=
  Sat.bind (ShmServer.readUserPipe_connected table me there) fun _ used => used

theorem readUserPipe_safe_iff (table : server.Table) {id : Int} (me : server.Connected id)
    {readUid : Int} (low : 0 < readUid) (p : Pipe) (line : Text) (writeUid : Int) :
    IndexSafe k server (.readUserPipe id readUid p line writeUid) ↔ readUid ≠ maxConn ∧
      (server.Connected readUid → server.fifos readUid id = true → writeUid ≠ 0 →
        server.Connected writeUid) := by
  by_cases null : readUid = maxConn
  · subst null
    have ended : step k server (.readUserPipe id maxConn p line writeUid) =
        .error (.undefined, k) := by
      simp only [step, ShmServer.readUserPipe_null table]
      rfl
    exact iff_of_false (not_indexSafe ended) fun both => both.1 rfl
  by_cases there : server.Connected readUid
  · have known : ∀ uid, target (.readUserPipe id readUid p line writeUid) = some uid →
        server.Connected uid := by
      intro uid typed
      cases typed
      exact there
    have ends := readUserPipe_step (k := k) table me there p line writeUid
    by_cases both : server.fifos readUid id = true ∧ writeUid ≠ 0
    · simp only [if_pos both] at ends
      by_cases somebody : server.Connected writeUid
      · refine iff_of_true (indexSafe_known known (Sat.mono ends ?_ ?_)) ⟨null, fun _ _ _ => somebody⟩
        · intro result used
          obtain ⟨ids, looks, all, -⟩ := used
          refine ⟨ids, looks.touched, fun i member => Or.inl ?_⟩
          rcases all i member with connected | same
          · exact connected
          · exact same ▸ somebody
        · intro stopped ended
          obtain ⟨user, found, -⟩ := somebody
          rw [ended.2.2.2] at found
          cases found
      · refine iff_of_false (fun safe => ?_) fun fine => somebody (fine.2 there both.1 both.2)
        cases ended : step k server (.readUserPipe id readUid p line writeUid) with
        | error stopped => exact safe.1 stopped ended (ends.of_error ended).1
        | ok result =>
            obtain ⟨ids, looks, -, member⟩ := ends.of_ok ended
            have used : writeUid ∈ result.2.touched.drop server.touched.length := by
              rw [looks.touched, List.drop_left]
              exact member
            rcases safe.2.1 result.1 result.2 ended writeUid used with before | after
            · exact somebody before
            · exact somebody (looks.connected.mp after)
    · simp only [if_neg both] at ends
      refine iff_of_true (indexSafe_courteous known (Sat.mono ends (fun _ h => h) ?_))
        ⟨null, fun _ full writes => absurd ⟨full, writes⟩ both⟩
      intro stopped ended
      exact both ⟨ended.2.1, ended.2.2.1⟩
  · refine iff_of_true ?_ ⟨null, fun yes => absurd yes there⟩
    exact indexSafe_refused rfl (readUserPipe_step_absent table low null there ..)
      (handleUserPipeError_reported id readUid .rdonly .userNotExist k)

/-- A call is safe exactly when its ids are within the table. -/
theorem safe_iff (table : server.Table) {op : ShmOp} (enabled : op.Enabled server) :
    op.IndexSafe k server ↔ op.Within server := by
  cases op with
  | addUser ip port sock pid =>
      have known : ∀ uid, target (.addUser ip port sock pid) = some uid → server.Connected uid :=
        fun uid typed => nomatch typed
      have ends := ShmServer.addUser_spec table ip port sock pid k
      by_cases free : ∃ i : Int, 1 ≤ i ∧ i < maxConn ∧ ¬ server.Connected i
      · refine iff_of_true (indexSafe_known known (Sat.mono ends ?_ ?_)) free
        · intro result added
          obtain ⟨-, id, -, -, -, connected, touched⟩ := added
          exact ⟨[id], touched, fun i member => Or.inr (List.mem_singleton.mp member ▸ connected)⟩
        · intro stopped full
          obtain ⟨i, low, high, nobody⟩ := free
          exact absurd (full.2 i low high) nobody
      · refine iff_of_false (fun safe => ?_) free
        cases ended : step k server (.addUser ip port sock pid) with
        | error stopped => exact safe.1 stopped ended (ends.of_error ended).1
        | ok result =>
            obtain ⟨-, id, low, high, nobody, -⟩ := ends.of_ok ended
            exact free ⟨id, low, high, nobody⟩
  | removeUser id sock =>
      refine iff_of_true (indexSafe_known (fun uid typed => nomatch typed)
        (Sat.mono (ShmServer.removeUser_spec table enabled sock k) ?_ (fun _ => False.elim))) trivial
      intro result removed
      obtain ⟨-, ids, touched, all⟩ := removed
      exact ⟨ids, touched, fun i member => Or.inl (all i member)⟩
  | tell id uid msg => exact tell_safe_iff table enabled uid msg
  | writeUserPipe id writeUid p line readUid =>
      exact writeUserPipe_safe_iff table enabled.1 enabled.2 p line readUid
  | readUserPipe id readUid p line writeUid =>
      exact readUserPipe_safe_iff table enabled.1 enabled.2 p line writeUid

/-- The pointers never change. -/
theorem step_table (table : server.Table) {op : ShmOp} (enabled : op.Enabled server) :
    Sat (op.step k server) (fun result => result.2.Table) (fun _ => True) := by
  cases op with
  | addUser ip port sock pid =>
      exact Sat.mono (ShmServer.addUser_spec table ip port sock pid k) (fun _ h => h.1)
        (fun _ _ => trivial)
  | removeUser id sock =>
      exact Sat.mono (ShmServer.removeUser_spec table enabled sock k) (fun _ h => h.1)
        (fun _ _ => trivial)
  | tell id uid msg =>
      by_cases there : server.Connected uid
      · exact Sat.mono (tell_connected enabled there msg) (fun _ used => used.table table)
          (fun _ _ => trivial)
      by_cases inside : 1 ≤ uid ∧ uid < maxConn
      · rw [tell_absent table inside there]
        exact table
      · rw [tell_null table inside]
        trivial
  | writeUserPipe id writeUid p line readUid =>
      by_cases there : server.Connected writeUid
      · exact Sat.mono (writeUserPipe_step table enabled.1 there ..)
          (fun _ used => used.table table) (fun _ _ => trivial)
      by_cases null : writeUid = maxConn
      · subst null
        simp only [step, ShmServer.writeUserPipe_null table]
        trivial
      · rw [writeUserPipe_step_absent table enabled.2 null there]
        exact table
  | readUserPipe id readUid p line writeUid =>
      by_cases there : server.Connected readUid
      · refine Sat.mono (readUserPipe_step table enabled.1 there p line writeUid) ?_
          (fun _ _ => trivial)
        intro result used
        split at used
        · exact used.table table
        · exact used.table table
      by_cases null : readUid = maxConn
      · subst null
        simp only [step, ShmServer.readUserPipe_null table]
        trivial
      · rw [readUserPipe_step_absent table enabled.2 null there]
        exact table

end Safe

end ShmOp

/-- A call in a process `k`, or anything else that the processes do. -/
inductive ShmEvent where
  | call (k : Proc) (op : ShmOp)
  | other (new : ShmServer)

namespace ShmEvent

open ShmServer (Table)

/-- A process that is killed leaves the records to the others. -/
def next (server : ShmServer) : ShmEvent → Option ShmServer
  | .call k op =>
      match op.step k server with
      | .ok (_, server) => some server
      | .error _ => some server
  | .other new => some new

/-- All other code leaves who is connected. -/
def Enabled (server : ShmServer) : ShmEvent → Prop
  | .call _ op => op.Enabled server
  | .other new =>
      ∀ i, (new.users i).map ShmUser.isConnected = (server.users i).map ShmUser.isConnected

theorem reached_table {server : ShmServer} (reached : Reached next Enabled .createSHMUser server) :
    server.Table := by
  refine reached.invariant (p := Table) ShmServer.createSHMUser_table ?_
  · intro server new event table enabled stepped
    cases event with
    | call k op =>
        have kept := ShmOp.step_table (k := k) table enabled
        cases ended : op.step k server with
        | ok result =>
            simp only [next, ended, Option.some.injEq] at stepped
            exact stepped ▸ kept.of_ok ended
        | error stopped =>
            simp only [next, ended, Option.some.injEq] at stepped
            exact stepped ▸ table
    | other new' =>
        cases stepped
        intro i
        rw [← table i, ne_eq, ne_eq, ← Option.map_eq_none_iff (f := ShmUser.isConnected), enabled i,
          Option.map_eq_none_iff]

end ShmEvent

/-- In both builds a call is safe exactly when its ids are within the tables. -/
theorem userIds_safe_iff (k : Proc) :
    (∀ (serverIn serverOut serverErr : Fd) (st : Proc × ChatServer) (op : TableOp),
      Reached TableEvent.next TableEvent.Enabled (k, .init serverIn serverOut serverErr) st →
      op.Enabled st → (op.IndexSafe st ↔ op.Within st)) ∧
    (∀ (server : ShmServer) (op : ShmOp),
      Reached ShmEvent.next ShmEvent.Enabled .createSHMUser server →
      op.Enabled server → (op.IndexSafe k server ↔ op.Within server)) := by
  constructor
  · intro serverIn serverOut serverErr st op reached enabled
    exact TableOp.safe_iff (TableEvent.reached_tidy reached) enabled
  · intro server op reached enabled
    exact ShmOp.safe_iff (ShmEvent.reached_table reached) enabled

/-- A process, and the two logins of the examples. -/
def someProc : Proc := .start 1024 (fun _ => true) []

def firstLogin : TableEvent := .call (.pipe (.addUser 1 "10.0.0.1".toList 5001 6 (-1)))

def firstShmLogin : ShmEvent := .call someProc (.addUser "10.0.0.1".toList 5001 4 77)

theorem userIds_safe_one :
    (∃ st, firstLogin.next (someProc, .init (some 3) (some 4) (some 5)) = some st ∧
      TableOp.IndexSafe st (.tell 1 31 ['h', 'i'])) ∧
    ∃ server, firstShmLogin.next .createSHMUser = some server ∧
      ShmOp.IndexSafe someProc server (.tell 1 30 ['h', 'i']) := by
  constructor
  · refine ⟨_, rfl, ?_⟩
    refine ((userIds_safe_iff someProc).1 _ _ _ _ (.tell 1 31 ['h', 'i'])
      (Reached.start.step (e := firstLogin) rfl rfl) ?_).mpr trivial
    exact ⟨_, rfl⟩
  · refine ⟨_, rfl, ?_⟩
    refine ((userIds_safe_iff someProc).2 _ (.tell 1 30 ['h', 'i'])
      (Reached.start.step (e := firstShmLogin) trivial rfl) ?_).mpr ⟨by decide, by decide⟩
    exact ⟨_, rfl, rfl⟩

/-- One user is connected and tells something to 31. -/
theorem tell_31_undefined : ∃ server,
    Reached ShmEvent.next ShmEvent.Enabled .createSHMUser server ∧
      ShmOp.Enabled server (.tell 1 31 ['h', 'i']) ∧
      ¬ ShmOp.IndexSafe someProc server (.tell 1 31 ['h', 'i']) := by
  refine ⟨_, Reached.start.step (e := firstShmLogin) trivial rfl, ⟨_, rfl, rfl⟩, ?_⟩
  intro safe
  exact safe.1 (.undefined, someProc) rfl rfl

end NetProg
