import NetProg.Server.Names

/-!
# Logins of `np_multi_proc` side by side

Every accepted client has a process of its own, and all processes share one table of records.
`addUser` looks for a free slot and then fills it; nothing keeps another process from filling the
same slot in between, because the lock is commented out.  Ids are unique in exactly those runs in
which every slot is still free when it is filled.
-/

namespace NetProg

open ChatServer (noName)

/-- How far the process of a client has come. -/
inductive Stage where
  | accepted
  | scanned (id : Int)
  | connected (id : Int)
  | left
  deriving DecidableEq, Repr

/-- A client, and what his process knows of him.  What `inet_ntoa` returns fits into `ip`. -/
structure Client where
  ip : Text
  port : Int
  sock : Nat
  stage : Stage
  fits : ip.length < ipLen ∧ '\x00' ∉ ip

/-- The shared table, and the clients under the numbers of their processes. -/
structure Races where
  server : ShmServer
  clients : Nat → Option Client

/-- A client is accepted; his process scans the slots, fills the one it has found, ends; and whatever
else the processes write into the records. -/
inductive RaceEvent where
  | accept (pid : Nat) (ip : Text) (port : Int) (sock : Nat)
  | scan (pid : Nat) (k : Proc)
  | claim (pid : Nat) (k : Proc)
  | removeUser (pid : Nat) (k : Proc)
  | talk (buffer : Int → Text) (userPipes : Int → Fin maxConn → Pipe)

namespace ShmServer

/-- `addUser` once a slot is chosen. -/
def claim (id : Int) (ip : Text) (port sock pid : Int) (k : Proc) (server : ShmServer) :
    Outcome (Proc × ShmServer) := do
  let k := k.logEvent (.cout ("add user ".toList ++ Text.decimal id ++ "\n".toList))
  let (user, server) ← server.user id k
  .ok (closePipes user.userPipes k, server.setUser id (loggedIn ip port sock pid user))

end ShmServer

namespace Races

/-- The table is empty. -/
def start : Races := ⟨.createSHMUser, fun _ => none⟩

def setClient (st : Races) (pid : Nat) (client : Client) : Races :=
  { st with clients := Function.update st.clients pid (some client) }

/-- One step of one process (`np_project2/np_multi_proc.cpp:67-97`).  A process that is killed has
left. -/
def next (st : Races) : RaceEvent → Option Races
  | .accept pid ip port sock =>
      if fits : ip.length < ipLen ∧ '\x00' ∉ ip then
        if (st.clients pid).isNone then some (st.setClient pid ⟨ip, port, sock, .accepted, fits⟩)
        else none
      else none
  | .scan pid k => do
      let client ← st.clients pid
      match client.stage with
      | .accepted =>
          match ShmServer.minKey k st.server ShmServer.slots 1 with
          | .ok id => some (st.setClient pid { client with stage := .scanned id })
          | .error _ => some (st.setClient pid { client with stage := .left })
      | _ => none
  | .claim pid k => do
      let client ← st.clients pid
      match client.stage with
      | .scanned id =>
          match st.server.claim id client.ip client.port client.sock pid k with
          | .ok (_, server) =>
              some ({ st with server }.setClient pid { client with stage := .connected id })
          | .error _ => some (st.setClient pid { client with stage := .left })
      | _ => none
  | .removeUser pid k => do
      let client ← st.clients pid
      match client.stage with
      | .connected id =>
          match st.server.removeUser id client.sock k with
          | .ok (_, server) => some ({ st with server }.setClient pid { client with stage := .left })
          | .error _ => some (st.setClient pid { client with stage := .left })
      | _ => none
  | .talk buffer userPipes =>
      some { st with
        server := { st.server with
          users := fun i => (st.server.users i).map fun user =>
            { user with buffer := buffer i, userPipes := userPipes i } } }

/-- The process `pid` holds the slot `id`. -/
def Holds (st : Races) (pid : Nat) (id : Int) : Prop :=
  ∃ client, st.clients pid = some client ∧ client.stage = .connected id

/-- Connected clients hold different ids, and the record of each of them is his. -/
structure Proper (st : Races) : Prop where
  unique : ∀ p q id, st.Holds p id → st.Holds q id → p = q
  own : ∀ pid client id, st.clients pid = some client → client.stage = .connected id →
    ∃ user, st.server.users id = some user ∧ user.isConnected = true ∧ user.name = noName ∧
      user.ip = client.ip ∧ user.port = client.port ∧ user.pid = pid
  held : ∀ id, st.server.Connected id → ∃ pid, st.Holds pid id

/-- A slot is still free when it is filled. -/
def StillFree (st : Races) : RaceEvent → Prop
  | .claim pid _ => ∀ client id, st.clients pid = some client → client.stage = .scanned id →
      ¬ st.server.Connected id
  | _ => True

/-- What a record says about its user. -/
def identity (user : ShmUser) : Bool × Text × Text × Int × Int :=
  (user.isConnected, user.name, user.ip, user.port, user.pid)

section Proper

variable {st : Races} {pid p : Nat} {id i : Int} {client : Client} {ip : Text} {port : Int}

theorem identity_iff {server : ShmServer} {pid : Int} :
    (∃ user, server.users id = some user ∧ user.isConnected = true ∧ user.name = noName ∧
      user.ip = ip ∧ user.port = port ∧ user.pid = pid) ↔
    (server.users id).map identity = some (true, noName, ip, port, pid) := by
  rw [Option.map_eq_some_iff]
  apply exists_congr
  intro user
  simp only [identity, Prod.mk.injEq]

theorem connected_iff_identity {server : ShmServer} :
    server.Connected id ↔ ∃ rest, (server.users id).map identity = some (true, rest) := by
  constructor
  · intro connected
    obtain ⟨user, found, on⟩ := connected
    exact ⟨(identity user).2, by rw [found, Option.map_some, ← on]; rfl⟩
  · intro same
    obtain ⟨rest, same⟩ := same
    obtain ⟨user, found, same⟩ := Option.map_eq_some_iff.mp same
    exact ⟨user, found, congrArg Prod.fst same⟩

theorem told_identity (msg : Text) (server : ShmServer) (i : Int) :
    ((server.told msg).users i).map identity = (server.users i).map identity := by
  rw [ShmServer.told, Option.map_map]
  congr 1
  funext user
  simp only [Function.comp_apply, ShmServer.delivered]
  split
  · rfl
  · rfl

theorem setClient_holds : (st.setClient pid client).Holds p i ↔
    if p = pid then client.stage = .connected i else st.Holds p i := by
  simp only [Holds, setClient, Function.update_apply]
  split
  · simp
  · rfl

theorem Proper.connected (proper : st.Proper) (holds : st.Holds p i) : st.server.Connected i := by
  obtain ⟨client, here, stage⟩ := holds
  obtain ⟨user, found, on, -⟩ := proper.own p client i here stage
  exact ⟨user, found, on⟩

theorem start_proper : start.Proper := by
  constructor
  · intro p q id holds
    obtain ⟨client, here, -⟩ := holds
    cases here
  · intro pid client id here
    cases here
  · intro id connected
    obtain ⟨user, found, on⟩ := connected
    simp only [start, ShmServer.createSHMUser] at found
    split at found
    · cases found
      cases on
    · cases found

/-- The records say the same about the same holders. -/
theorem Proper.same {st' : Races} (proper : st.Proper) (clients : st'.clients = st.clients)
    (records : ∀ i, (st'.server.users i).map identity = (st.server.users i).map identity) :
    st'.Proper := by
  have holds : ∀ p i, st'.Holds p i ↔ st.Holds p i := by
    intro p i
    rw [Holds, Holds, clients]
  constructor
  · intro p q id first second
    exact proper.unique p q id ((holds p id).mp first) ((holds q id).mp second)
  · intro pid client id here stage
    rw [identity_iff, records, ← identity_iff]
    exact proper.own pid client id (clients ▸ here) stage
  · intro id connected
    rw [connected_iff_identity, records, ← connected_iff_identity] at connected
    obtain ⟨p, there⟩ := proper.held id connected
    exact ⟨p, (holds p id).mpr there⟩

/-- A client without a slot goes on without one. -/
theorem Proper.idle (proper : st.Proper) (before : ∀ i, ¬ st.Holds pid i)
    (after : ∀ i, client.stage ≠ .connected i) : (st.setClient pid client).Proper := by
  have holds : ∀ p i, (st.setClient pid client).Holds p i ↔ st.Holds p i := by
    intro p i
    rw [setClient_holds]
    split
    · rename_i same
      subst same
      exact iff_of_false (after i) (before i)
    · rfl
  constructor
  · intro p q id first second
    exact proper.unique p q id ((holds p id).mp first) ((holds q id).mp second)
  · intro p client' id here stage
    have other : p ≠ pid := by
      intro same
      subst same
      exact before id ((holds p id).mp ⟨client', here, stage⟩)
    simp only [setClient, Function.update_of_ne other] at here
    exact proper.own p client' id here stage
  · intro id connected
    obtain ⟨p, there⟩ := proper.held id connected
    exact ⟨p, (holds p id).mpr there⟩

/-- A free slot is filled. -/
theorem Proper.claim (proper : st.Proper) (here : st.clients pid = some client)
    (waits : ∀ i, client.stage ≠ .connected i) (free : ¬ st.server.Connected id)
    {server : ShmServer}
    (filled : (server.users id).map identity =
      some (true, noName, client.ip, client.port, (pid : Int)))
    (others : ∀ i, i ≠ id → (server.users i).map identity = (st.server.users i).map identity) :
    ({ st with server }.setClient pid { client with stage := .connected id } : Races).Proper := by
  have mine : ∀ i, ¬ st.Holds pid i := by
    intro i holds
    obtain ⟨client', there, stage⟩ := holds
    cases here.symm.trans there
    exact waits i stage
  have away : ∀ p, ¬ st.Holds p id := fun p holds => free (proper.connected holds)
  have holds : ∀ p i, ({ st with server }.setClient pid { client with stage := .connected id } :
      Races).Holds p i ↔ p = pid ∧ i = id ∨ st.Holds p i := by
    intro p i
    rw [setClient_holds]
    split
    · rename_i same
      subst same
      simp only [Stage.connected.injEq, true_and, mine i, or_false]
      exact eq_comm
    · rename_i other
      simp only [other, false_and, false_or]
      rfl
  constructor
  · intro p q i first second
    rcases (holds p i).mp first with now | before
    · rcases (holds q i).mp second with now' | before'
      · exact now.1.trans now'.1.symm
      · exact absurd (now.2 ▸ before') (away q)
    · rcases (holds q i).mp second with now' | before'
      · exact absurd (now'.2 ▸ before) (away p)
      · exact proper.unique p q i before before'
  · intro p client' i there stage
    rw [identity_iff]
    by_cases same : p = pid
    · subst same
      simp only [setClient, Function.update_self, Option.some.injEq] at there
      subst there
      cases stage
      exact filled
    · simp only [setClient, Function.update_of_ne same] at there
      have other : i ≠ id := by
        intro equal
        subst equal
        exact away p ⟨client', there, stage⟩
      rw [setClient, others i other, ← identity_iff]
      exact proper.own p client' i there stage
  · intro i connected
    by_cases same : i = id
    · exact ⟨pid, (holds pid i).mpr (Or.inl ⟨rfl, same⟩)⟩
    · rw [connected_iff_identity, setClient, others i same, ← connected_iff_identity] at connected
      obtain ⟨p, there⟩ := proper.held i connected
      exact ⟨p, (holds p i).mpr (Or.inr there)⟩

/-- A holder leaves his slot. -/
theorem Proper.removeUser (proper : st.Proper) (here : st.Holds pid id)
    (leaves : ∀ i, client.stage ≠ .connected i) {server : ShmServer}
    (empty : ¬ server.Connected id)
    (others : ∀ i, i ≠ id → (server.users i).map identity = (st.server.users i).map identity) :
    ({ st with server }.setClient pid client : Races).Proper := by
  have only : ∀ i, st.Holds pid i → i = id := by
    intro i holds
    obtain ⟨client₁, there, stage⟩ := holds
    obtain ⟨client₂, there', stage'⟩ := here
    cases there.symm.trans there'
    cases stage.symm.trans stage'
    rfl
  have holds : ∀ p i, ({ st with server }.setClient pid client : Races).Holds p i ↔
      p ≠ pid ∧ st.Holds p i := by
    intro p i
    rw [setClient_holds]
    split
    · rename_i same
      exact iff_of_false (leaves i) fun both => both.1 same
    · rename_i other
      simp only [ne_eq, other, not_false_eq_true, true_and]
      rfl
  constructor
  · intro p q i first second
    exact proper.unique p q i ((holds p i).mp first).2 ((holds q i).mp second).2
  · intro p client' i there stage
    obtain ⟨away, before⟩ := (holds p i).mp ⟨client', there, stage⟩
    have other : i ≠ id := by
      intro equal
      subst equal
      exact away (proper.unique p pid i before here)
    simp only [setClient, Function.update_of_ne away] at there
    rw [identity_iff, setClient, others i other, ← identity_iff]
    exact proper.own p client' i there stage
  · intro i connected
    have other : i ≠ id := by
      intro equal
      subst equal
      exact empty connected
    rw [connected_iff_identity, setClient, others i other, ← connected_iff_identity] at connected
    obtain ⟨p, there⟩ := proper.held i connected
    refine ⟨p, (holds p i).mpr ⟨?_, there⟩⟩
    intro same
    subst same
    exact other (only i there)

theorem holds_only (here : st.clients pid = some client) :
    st.Holds pid i ↔ client.stage = .connected i := by
  rw [Holds, here]
  simp

theorem claim_found {server : ShmServer} {user : ShmUser} (found : server.users id = some user)
    (ip : Text) (port sock pid : Int) (k : Proc) :
    ∃ k', server.claim id ip port sock pid k = .ok (k', ShmServer.setUser id
      (ShmServer.loggedIn ip port sock pid user)
      { server with touched := server.touched ++ [id] }) := by
  rw [ShmServer.claim, ShmServer.user_ok found]
  exact ⟨_, rfl⟩

/-- What a step changes. -/
inductive Stepped (st : Races) : RaceEvent → Races → Prop
  | accept (pid : Nat) (client : Client) (new : st.clients pid = none)
      (first : client.stage = .accepted) :
      Stepped st (.accept pid client.ip client.port client.sock) (st.setClient pid client)
  | scan (pid : Nat) (k : Proc) (client : Client) (here : st.clients pid = some client)
      (waits : client.stage = .accepted) (stage : Stage) (found : ∀ i, stage ≠ .connected i) :
      Stepped st (.scan pid k) (st.setClient pid { client with stage })
  | claim (pid : Nat) (k : Proc) (client : Client) (id : Int) (here : st.clients pid = some client)
      (chosen : client.stage = .scanned id) (user : ShmUser)
      (found : st.server.users id = some user) :
      Stepped st (.claim pid k) (Races.setClient { st with
        server := ShmServer.setUser id (ShmServer.loggedIn client.ip client.port client.sock pid user)
          { st.server with touched := st.server.touched ++ [id] } } pid
        { client with stage := .connected id })
  | claimNull (pid : Nat) (k : Proc) (client : Client) (id : Int)
      (here : st.clients pid = some client) (chosen : client.stage = .scanned id)
      (null : st.server.users id = none) :
      Stepped st (.claim pid k) (st.setClient pid { client with stage := .left })
  | removeUser (pid : Nat) (k : Proc) (client : Client) (id : Int)
      (here : st.clients pid = some client) (holds : client.stage = .connected id) (k' : Proc)
      (server : ShmServer) (removed : st.server.removeUser id client.sock k = .ok (k', server)) :
      Stepped st (.removeUser pid k)
        (Races.setClient { st with server } pid { client with stage := .left })
  | removeNull (pid : Nat) (k : Proc) (client : Client) (id : Int)
      (here : st.clients pid = some client) (holds : client.stage = .connected id)
      (stopped : Abort × Proc) (failed : st.server.removeUser id client.sock k = .error stopped) :
      Stepped st (.removeUser pid k) (st.setClient pid { client with stage := .left })
  | talk (buffer : Int → Text) (userPipes : Int → Fin maxConn → Pipe) :
      Stepped st (.talk buffer userPipes) { st with
        server := { st.server with
          users := fun i => (st.server.users i).map fun user =>
            { user with buffer := buffer i, userPipes := userPipes i } } }

theorem next_stepped {st' : Races} {event : RaceEvent} (h : st.next event = some st') :
    st.Stepped event st' := by
  cases event with
  | accept pid ip port sock =>
      simp only [next] at h
      split at h
      · split at h
        · rename_i fits new
          cases h
          exact .accept pid ⟨ip, port, sock, .accepted, fits⟩ (Option.isNone_iff_eq_none.mp new) rfl
        · cases h
      · cases h
  | scan pid k =>
      obtain ⟨client, here, h⟩ := Option.bind_eq_some_iff.mp h
      split at h
      · rename_i waits
        split at h
        · cases h
          exact .scan pid k client here waits _ (fun i => Stage.noConfusion)
        · cases h
          exact .scan pid k client here waits _ (fun i => Stage.noConfusion)
      · cases h
  | claim pid k =>
      obtain ⟨client, here, h⟩ := Option.bind_eq_some_iff.mp h
      split at h
      · rename_i id chosen
        cases found : st.server.users id with
        | none =>
            rw [ShmServer.claim, ShmServer.user, found] at h
            cases h
            exact .claimNull pid k client id here chosen found
        | some user =>
            obtain ⟨k', claimed⟩ := claim_found found client.ip client.port client.sock pid k
            rw [claimed] at h
            cases h
            exact .claim pid k client id here chosen user found
      · cases h
  | removeUser pid k =>
      obtain ⟨client, here, h⟩ := Option.bind_eq_some_iff.mp h
      split at h
      · rename_i id holds
        split at h
        · rename_i k' server removed
          cases h
          exact .removeUser pid k client id here holds k' server removed
        · rename_i stopped failed
          cases h
          exact .removeNull pid k client id here holds stopped failed
      · cases h
  | talk buffer userPipes =>
      cases h
      exact .talk buffer userPipes

theorem Stepped.table {st' : Races} {event : RaceEvent} (stepped : st.Stepped event st')
    (table : st.server.Table) (proper : st.Proper) : st'.server.Table := by
  cases stepped with
  | claim pid k client id here chosen user found =>
      have inside : 1 ≤ id ∧ id < maxConn :=
        (table id).mp (by rw [found]; exact Option.some_ne_none _)
      exact @ShmServer.setUser_table { st.server with touched := st.server.touched ++ [id] } id table
        inside _
  | removeUser pid k client id here holds k' server removed =>
      have connected := proper.connected ⟨client, here, holds⟩
      exact ((ShmServer.removeUser_spec table connected client.sock k).of_ok removed).1
  | talk buffer userPipes =>
      intro i
      rw [← table i]
      exact not_congr Option.map_eq_none_iff
  | _ => exact table

theorem not_holds (here : st.clients pid = some client) (waits : ∀ i, client.stage ≠ .connected i)
    (i : Int) : ¬ st.Holds pid i :=
  fun holds => waits i ((holds_only here).mp holds)

theorem loggedIn_identity (user : ShmUser) (client : Client) (pid : Int) :
    identity (ShmServer.loggedIn client.ip client.port client.sock pid user) =
      (true, noName, client.ip, client.port, pid) := by
  obtain ⟨short, plain⟩ := client.fits
  have stored : (Text.cString client.ip).take (ipLen - 1) = client.ip := by
    rw [Text.cString_of_plain plain]
    exact List.take_of_length_le (by omega)
  simp only [identity, ShmServer.loggedIn, stored]

/-- Every step but the claim of a slot that is not free any more keeps the ids unique. -/
theorem Proper.step {st' : Races} {event : RaceEvent} (proper : st.Proper)
    (table : st.server.Table) (free : st.StillFree event) (stepped : st.Stepped event st') :
    st'.Proper := by
  cases stepped with
  | accept pid client new first =>
      apply proper.idle
      · intro i holds
        obtain ⟨client', here, -⟩ := holds
        cases new.symm.trans here
      · intro i same
        cases first.symm.trans same
  | scan pid k client here waits stage found =>
      apply proper.idle
      · apply not_holds here
        intro i same
        cases waits.symm.trans same
      · exact found
  | claim pid k client id here chosen user found =>
      apply proper.claim here
      · intro i same
        cases chosen.symm.trans same
      · exact free client id here chosen
      · rw [ShmServer.setUser_users, if_pos rfl, Option.map_some, loggedIn_identity]
      · intro i other
        rw [ShmServer.setUser_users, if_neg other]
  | claimNull pid k client id here chosen null =>
      apply proper.idle
      · apply not_holds here
        intro i same
        cases chosen.symm.trans same
      · intro i
        exact Stage.noConfusion
  | removeUser pid k client id here holds k' server removed =>
      obtain ⟨user, found, -⟩ := proper.connected ⟨client, here, holds⟩
      have users := (ShmServer.removeUser_empties table found client.sock).of_ok removed
      have records : ∀ i, (server.users i).map identity =
          ((st.server.setUser id .zeroed).users i).map identity := by
        intro i
        rw [users, told_identity]
      apply proper.removeUser ⟨client, here, holds⟩
      · intro i
        exact Stage.noConfusion
      · rw [connected_iff_identity, records, ← connected_iff_identity]
        intro connected
        obtain ⟨user', found', on⟩ := connected
        rw [ShmServer.setUser_users, if_pos rfl] at found'
        cases found'
        cases on
      · intro i other
        rw [records, ShmServer.setUser_users, if_neg other]
  | removeNull pid k client id here holds stopped failed =>
      have connected := proper.connected ⟨client, here, holds⟩
      exact ((ShmServer.removeUser_spec table connected client.sock k).of_error failed).elim
  | talk buffer userPipes =>
      apply proper.same
      · rfl
      · intro i
        rw [Option.map_map]
        rfl

/-- A claim of a slot that is not free any more gives its id to two clients. -/
theorem not_proper_of_taken {k : Proc} (proper : st.Proper) (here : st.clients pid = some client)
    (chosen : client.stage = .scanned id) (taken : st.server.Connected id) :
    ∃ st', st.next (.claim pid k) = some st' ∧ ¬ st'.Proper := by
  obtain ⟨q, holds⟩ := proper.held id taken
  obtain ⟨user, found, -⟩ := taken
  obtain ⟨k', claimed⟩ := claim_found found client.ip client.port client.sock pid k
  have other : q ≠ pid := by
    intro same
    subst same
    cases chosen.symm.trans ((holds_only here).mp holds)
  refine ⟨Races.setClient { st with
    server := ShmServer.setUser id (ShmServer.loggedIn client.ip client.port client.sock pid user)
      { st.server with touched := st.server.touched ++ [id] } } pid
    { client with stage := .connected id }, ?_, ?_⟩
  · simp only [next, here, Option.bind_eq_bind, Option.bind_some, chosen, claimed]
  · intro after
    refine other (after.unique q pid id ?_ ?_)
    · rw [setClient_holds, if_neg other]
      exact holds
    · rw [setClient_holds, if_pos rfl]

/-- A step keeps the ids unique exactly if the slot that it fills is still free. -/
theorem stillFree_iff (proper : st.Proper) (table : st.server.Table) (event : RaceEvent) :
    st.StillFree event ↔ ∀ st', st.next event = some st' → st'.Proper := by
  constructor
  · intro free st' stepped
    exact proper.step table free (next_stepped stepped)
  · intro kept
    cases event with
    | claim pid k =>
        intro client id here chosen taken
        obtain ⟨st', stepped, broken⟩ := not_proper_of_taken (k := k) proper here chosen taken
        exact broken (kept st' stepped)
    | _ => trivial

end Proper

/-- In every interleaving the connected clients hold different ids and the records are theirs, in all
states, exactly if every slot is still free when it is filled. -/
theorem uniqueIds_iff (events : List RaceEvent) :
    Along next (fun st e => ∀ st', st.next e = some st' → st'.Proper) events start ↔
      Along next StillFree events start := by
  apply @Along.keeps_iff _ _ next StillFree (fun st => st.server.Table) Proper
  · intro st event table proper
    exact stillFree_iff proper table event
  · intro st event st' table proper stepped
    exact (next_stepped stepped).table table proper
  · exact ShmServer.createSHMUser_table
  · exact start_proper

/-- Two processes scan the slots before either of them fills one. -/
def overlapping : List RaceEvent :=
  [.accept 101 "10.0.0.1".toList 5001 4, .accept 102 "10.0.0.2".toList 5002 4,
    .scan 101 someProc, .scan 102 someProc, .claim 101 someProc, .claim 102 someProc]

theorem uniqueIds_broken : ∃ st, runAll next overlapping start = some st ∧
    st.Holds 101 1 ∧ st.Holds 102 1 ∧ ¬ st.Proper := by
  have ran : (runAll next overlapping start).map (fun st => decide
      ((st.clients 101).map Client.stage = some (.connected 1) ∧
        (st.clients 102).map Client.stage = some (.connected 1))) = some true := by
    decide +kernel
  obtain ⟨st, ended, seen⟩ := Option.map_eq_some_iff.mp ran
  obtain ⟨first, second⟩ := of_decide_eq_true seen
  have one : st.Holds 101 1 := Option.map_eq_some_iff.mp first
  have two : st.Holds 102 1 := Option.map_eq_some_iff.mp second
  refine ⟨st, ended, one, two, ?_⟩
  intro proper
  cases proper.unique 101 102 1 one two

end Races

end NetProg
