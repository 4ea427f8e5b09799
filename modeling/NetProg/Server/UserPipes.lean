import Mathlib.Data.Set.Insert
import NetProg.Server.UserPipeSpec
import NetProg.Server.Users

/-!
# User pipes across logins and logouts

The users of `np_single_proc` see the user pipes as a set of pairs (sender, receiver).  The
server keeps the pipe from `i` to `j` in the record of `j`, so a logout of `i` has to clean the
records of the others; `removeUser` does not.  Runs agree with the set exactly as long as nobody
logs out while another user still has an unread pipe from him.
-/

namespace NetProg

open ChatServer

/-- The four operations, with the arguments their callers pass. -/
inductive PipeOp where
  | addUser (session : Nat) (ip : Text) (port : Int) (sock : Nat) (pid : Int)
  | removeUser (sock : Nat)
  | writeUserPipe (id writeUid : Int) (currPipe : Pipe) (line : Text) (readUid : Int)
  | readUserPipe (id readUid : Int) (currPipe : Pipe) (line : Text) (writeUid : Int)

namespace PipeOp

/-- The operation on the process and the server. -/
def step (st : Proc × ChatServer) : PipeOp → Outcome (Proc × ChatServer)
  | .addUser session ip port sock pid => .ok (ChatServer.addUser session ip port sock pid st.1 st.2)
  | .removeUser sock => ChatServer.removeUser sock st.1 st.2
  | .writeUserPipe id writeUid currPipe line readUid => do
      let (_, k, server) ← ChatServer.writeUserPipe id writeUid currPipe line readUid st.1 st.2
      .ok (k, server)
  | .readUserPipe id readUid currPipe line writeUid => do
      let (_, k, server) ← ChatServer.readUserPipe id readUid currPipe line writeUid st.1 st.2
      .ok (k, server)

/-- A new connection has a socket of its own and one of 30 places; everything else is done by
a user who is logged in. -/
def Enabled (server : ChatServer) : PipeOp → Prop
  | .addUser _ _ _ sock _ =>
      server.sockIDTable.find? sock = none ∧ server.users.keys.length < maxConn - 1
  | .removeUser sock => ∃ id, server.sockIDTable.find? sock = some id
  | .writeUserPipe id _ _ _ _ => ∃ user, server.users.find? id = some user
  | .readUserPipe id _ _ _ _ => ∃ user, server.users.find? id = some user

/-- The operation is refused: what a user may expect. -/
def Fails (server : ChatServer) (pairs : Set (Int × Int)) : PipeOp → Prop
  | .writeUserPipe id writeUid _ _ _ =>
      server.users.find? writeUid = none ∨ (id, writeUid) ∈ pairs
  | .readUserPipe id readUid _ _ _ =>
      server.users.find? readUid = none ∨ (readUid, id) ∉ pairs
  | _ => False

/-- The pairs after the operation. -/
def after (server : ChatServer) (pairs : Set (Int × Int)) : PipeOp → Set (Int × Int)
  | .addUser _ _ _ _ _ => pairs
  | .removeUser sock =>
      {pair ∈ pairs | pair.1 ≠ server.getServingUserID sock ∧
        pair.2 ≠ server.getServingUserID sock}
  | .writeUserPipe id writeUid currPipe line readUid =>
      {pair | pair ∈ pairs ∨ pair = (id, writeUid) ∧
        ¬ Fails server pairs (.writeUserPipe id writeUid currPipe line readUid)}
  | .readUserPipe id readUid currPipe line writeUid =>
      {pair ∈ pairs | pair = (readUid, id) →
        Fails server pairs (.readUserPipe id readUid currPipe line writeUid)}

/-- The user was told that the operation failed. -/
def Reported (k k' : Proc) : PipeOp → Prop
  | .writeUserPipe id writeUid _ _ _ =>
      ∃ err, .cout (userPipeErrorMsg id writeUid .wronly err) ∈ k'.log.drop k.log.length
  | .readUserPipe id readUid _ _ _ =>
      ∃ err, .cout (userPipeErrorMsg id readUid .rdonly err) ∈ k'.log.drop k.log.length
  | _ => False

/-- Nobody else has an unread pipe from the user who logs out. -/
def Clean (server : ChatServer) : PipeOp → Prop
  | .removeUser sock => ∀ uid user i, server.users.find? uid = some user →
      uid ≠ server.getServingUserID sock → pipeIndex (server.getServingUserID sock) = some i →
      user.userPipes i = .cleared
  | _ => True

end PipeOp

/-- `users[j]->userPipes[i]` is not empty exactly for the pairs `(i, j)` of the set, and pairs are
of users who are logged in. -/
structure PipesAgree (server : ChatServer) (pairs : Set (Int × Int)) : Prop where
  boxes : ∀ uid user, server.users.find? uid = some user → ∀ i : Fin maxConn,
    user.userPipes i ≠ .cleared ↔ ((i.val : Int), uid) ∈ pairs
  connected : ∀ pair ∈ pairs, (∃ user, server.users.find? pair.1 = some user) ∧
    ∃ user, server.users.find? pair.2 = some user

/-- The server agrees with the set before every operation and at the end, and operations fail
exactly when they should.  The process stops only because no descriptor is left. -/
def PipesRefine : List PipeOp → Proc × ChatServer → Set (Int × Int) → Prop
  | [], st, pairs => PipesAgree st.2 pairs
  | op :: ops, st, pairs =>
      PipesAgree st.2 pairs ∧ (op.Enabled st.2 →
        Sat (op.step st)
          (fun st' => (op.Reported st.1 st'.1 ↔ op.Fails st.2 pairs) ∧
            PipesRefine ops st' (op.after st.2 pairs))
          (fun stopped => stopped.1 = .exitFailure ∧ st.1.limit ≤ st.1.fds.opens.card + 1))

/-- Every logout of the run is clean. -/
def CleanRun : List PipeOp → Proc × ChatServer → Prop
  | [], _ => True
  | op :: ops, st =>
      op.Enabled st.2 → op.Clean st.2 ∧ ∀ st', op.step st = .ok st' → CleanRun ops st'

/-- Ids index `userPipes`. -/
structure Seated (server : ChatServer) : Prop where
  tidy : server.Tidy
  inside : ∀ id user, server.users.find? id = some user → id < maxConn

theorem pipeIndex_iff {uid : Int} {i : Fin maxConn} : pipeIndex uid = some i ↔ uid = i.val := by
  unfold pipeIndex
  have bound := i.isLt
  constructor
  · intro h
    split at h
    · rename_i inside
      cases h
      exact (Int.toNat_of_nonneg inside.1).symm
    · cases h
  · rintro rfl
    rw [dif_pos ⟨Int.natCast_nonneg _, bound⟩]
    simp

/-- The tables stay tidy as far as a line keeps them. -/
theorem ChatServer.Tidy.kept {server new : ChatServer} {id : Int} (tidy : server.Tidy)
    (kept : Kept id server new) : new.Tidy := by
  have sock : ∀ {user user' : UserInfo}, user'.core = user.core → user'.sock = user.sock :=
    fun core => congrArg (fun c => c.2.1) core
  refine ⟨?_, ?_, ?_⟩
  · intro uid user' found'
    obtain ⟨user, found, _⟩ := kept.find_back found'
    exact tidy.positive uid user found
  · intro fd uid known
    rw [kept.sockIDTable] at known
    obtain ⟨user, found, own⟩ := tidy.userOfSock fd uid known
    obtain ⟨user', found', core⟩ := kept.find found
    exact ⟨user', found', (sock core).trans own⟩
  · intro uid user' found'
    obtain ⟨user, found, core⟩ := kept.find_back found'
    rw [kept.sockIDTable, sock core]
    exact tidy.sockOfUser uid user found

namespace Seated

variable {server : ChatServer}

theorem init (serverIn serverOut serverErr : Fd) :
    Seated (ChatServer.init serverIn serverOut serverErr) :=
  ⟨init_tidy serverIn serverOut serverErr, by rintro _ _ ⟨⟩⟩

theorem position (h : Seated server) {id : Int} {user : UserInfo}
    (found : server.users.find? id = some user) : ∃ i, pipeIndex id = some i := by
  have low := h.tidy.positive id user found
  have high := h.inside id user found
  exact ⟨⟨id.toNat, by omega⟩, pipeIndex_iff.mpr (Int.toNat_of_nonneg (by omega)).symm⟩

theorem not_misplaced (h : Seated server) {id : Int} (uid : Int) {user : UserInfo}
    (found : server.users.find? id = some user) : ¬ server.Misplaced id uid := by
  rintro (unknown | outside | ⟨other, found', outside⟩)
  · cases found.symm.trans unknown
  · obtain ⟨i, position⟩ := h.position found
    cases position.symm.trans outside
  · obtain ⟨i, position⟩ := h.position found'
    cases position.symm.trans outside

/-- An id is unknown to `handleUserPipe` exactly when nobody holds it. -/
theorem missing (h : Seated server) {uid : Int}
    (missing : (maxConn : Int) < uid ∨ server.users.find? uid = none) :
    server.users.find? uid = none := by
  rcases missing with large | unknown
  · cases found : server.users.find? uid with
    | none => rfl
    | some user =>
        have high := h.inside uid user found
        omega
  · exact unknown

/-- The operations on user pipes leave the tables as they are. -/
theorem kept (h : Seated server) {id : Int} {new : ChatServer} (kept : Kept id server new) :
    Seated new := by
  refine ⟨h.tidy.kept kept, ?_⟩
  intro uid user' found'
  obtain ⟨user, found, _⟩ := kept.find_back found'
  exact h.inside uid user found

end Seated

theorem Seated.addUser {server : ChatServer} (seated : Seated server) {sock : Nat}
    (unknown : server.sockIDTable.find? sock = none) (few : server.users.keys.length < maxConn - 1)
    (session : Nat) (ip : Text) (port pid : Int) (k : Proc) :
    Seated (addUser session ip port sock pid k server).2 := by
  obtain ⟨-, high, -⟩ := nextID_spec seated.tidy
  refine ⟨addUser_tidy seated.tidy unknown, ?_⟩
  intro uid user found
  rw [addUser_users] at found
  split at found
  · have size : maxConn = 31 := rfl
    omega
  · exact seated.inside uid user found

/-- A user pipe stored or cleared moves one pair. -/
theorem PipesAgree.storeBox {server : ChatServer} {pairs pairs' : Set (Int × Int)}
    (h : PipesAgree server pairs) {uid : Int} {user : UserInfo}
    (found : server.users.find? uid = some user) {i : Fin maxConn} {p : Pipe}
    (here : p ≠ .cleared ↔ ((i.val : Int), uid) ∈ pairs')
    (others : ∀ pair, pair ≠ ((i.val : Int), uid) → (pair ∈ pairs' ↔ pair ∈ pairs))
    (sender : p ≠ .cleared → ∃ user', server.users.find? i.val = some user') :
    PipesAgree (server.storeBox uid user i p) pairs' := by
  have connected : ∀ uid', (∃ user', server.users.find? uid' = some user') →
      ∃ user', (server.storeBox uid user i p).users.find? uid' = some user' := by
    rintro uid' ⟨user', found'⟩
    simp only [ChatServer.storeBox, setUser, OrdMap.find?_insert]
    by_cases same : uid' = uid
    · exact ⟨_, if_pos same⟩
    · exact ⟨user', by rw [if_neg same]; exact found'⟩
  refine ⟨?_, ?_⟩
  · intro uid' user' found' j
    simp only [ChatServer.storeBox, setUser, OrdMap.find?_insert] at found'
    by_cases same : uid' = uid
    · subst same
      rw [if_pos rfl] at found'
      cases found'
      by_cases slot : j = i
      · subst slot
        simpa using here
      · have different : ((j.val : Int), uid') ≠ ((i.val : Int), uid') := by
          intro equal
          exact slot (Fin.ext (Int.ofNat_inj.mp (Prod.mk.inj equal).1))
        simp only [Function.update_of_ne slot]
        rw [others _ different]
        exact h.boxes uid' user found j
    · rw [if_neg same] at found'
      have different : ((j.val : Int), uid') ≠ ((i.val : Int), uid) := by
        intro equal
        exact same (Prod.mk.inj equal).2
      rw [others _ different]
      exact h.boxes uid' user' found' j
  · intro pair member
    by_cases same : pair = ((i.val : Int), uid)
    · subst same
      exact ⟨connected _ (sender (here.mpr member)), connected _ ⟨user, found⟩⟩
    · obtain ⟨first, second⟩ := h.connected pair ((others pair same).mp member)
      exact ⟨connected _ first, connected _ second⟩

/-- No message of the shell is among events that are only sends and closes. -/
theorem not_reported {k k' : Proc} {events : List Event} (log : k'.log = k.log ++ events)
    (silent : ∀ e ∈ events, ∀ text, e ≠ .cout text) (text : Text) :
    .cout text ∉ k'.log.drop k.log.length := by
  rw [log, List.drop_left]
  intro member
  exact silent _ member text rfl

theorem pipe2_log {k k' : Proc} {owner : Owner} {first second : Nat}
    (made : k.pipe2 owner = some (first, second, k')) : k'.log = k.log := by
  unfold Proc.pipe2 at made
  dsimp only at made
  split at made
  · cases made
    rfl
  · cases made

theorem openFile_log (k : Proc) (name : Text) : (k.openFile name).2.log = k.log := by
  unfold Proc.openFile Proc.openObject
  split
  · split <;> rfl
  · rfl

theorem dup_log (k : Proc) (fd : Fd) : (k.dup fd).2.log = k.log := by
  unfold Proc.dup Proc.openObject
  split
  · rfl
  · split <;> rfl

theorem close_log (k : Proc) (fd : Fd) :
    ∃ closes, (k.close fd).log = k.log ++ closes ∧ ∀ e ∈ closes, ∀ text, e ≠ .cout text := by
  cases fd with
  | none => exact ⟨[], by simp [Proc.close], by simp⟩
  | some n => exact ⟨_, rfl, by simp⟩

theorem closePipe_log (p : Pipe) (k : Proc) :
    ∃ closes, (p.closePipe k).log = k.log ++ closes ∧ ∀ e ∈ closes, ∀ text, e ≠ .cout text := by
  obtain ⟨first, log, silent⟩ := close_log k p.inFd
  obtain ⟨second, log', silent'⟩ := close_log (k.close p.inFd) p.outFd
  refine ⟨first ++ second, by rw [Pipe.closePipe, log', log, List.append_assoc], ?_⟩
  intro e member
  exact (List.mem_append.mp member).elim (silent e) (silent' e)

/-- A refused call says so. -/
theorem handleUserPipeError_reported (id uid : Int) (mode : Mode) (err : UserPipeErr) (k : Proc) :
    .cout (userPipeErrorMsg id uid mode err) ∈
      (handleUserPipeError id uid mode err k).2.log.drop k.log.length := by
  rw [handleUserPipeError, openFile_log, Proc.logEvent, List.drop_left]
  exact List.mem_singleton.mpr rfl

section Steps

variable {st : Proc × ChatServer} {pairs : Set (Int × Int)}

/-- What one operation does, for the ids that a run can reach. -/
def StepAgrees (st : Proc × ChatServer) (pairs : Set (Int × Int)) (op : PipeOp) : Prop :=
  Sat (op.step st)
    (fun st' => (op.Reported st.1 st'.1 ↔ op.Fails st.2 pairs) ∧ Seated st'.2 ∧
      (PipesAgree st'.2 (op.after st.2 pairs) ↔ op.Clean st.2))
    (fun stopped => op.Clean st.2 ∧ stopped.1 = .exitFailure ∧
      st.1.limit ≤ st.1.fds.opens.card + 1)

theorem writeUserPipe_step (seated : Seated st.2) (agrees : PipesAgree st.2 pairs)
    {id : Int} {user : UserInfo} (found : st.2.users.find? id = some user) (uid : Int) (p : Pipe)
    (line : Text) (readUid : Int) :
    StepAgrees st pairs (.writeUserPipe id uid p line readUid) := by
  obtain ⟨k, server⟩ := st
  simp only [StepAgrees, PipeOp.step, PipeOp.Clean, iff_true]
  refine Sat.bind (Sat.mono (writeUserPipe_spec id uid p line readUid k server) (fun _ h => h) ?_) ?_
  · rintro stopped ⟨-, ⟨-, misplaced⟩ | full⟩
    · exact absurd misplaced (seated.not_misplaced uid found)
    · exact ⟨trivial, full⟩
  have unchanged : PipeOp.Fails server pairs (.writeUserPipe id uid p line readUid) →
      PipeOp.after server pairs (.writeUserPipe id uid p line readUid) = pairs := by
    intro fails
    ext pair
    simp [PipeOp.after, fails]
  rintro result wrote
  cases wrote with
  | absent missing =>
      have fails : PipeOp.Fails server pairs (.writeUserPipe id uid p line readUid) :=
        Or.inl (seated.missing missing)
      exact ⟨iff_of_true ⟨_, handleUserPipeError_reported id uid .wronly .userNotExist k⟩ fails,
        seated, by rw [unchanged fails]; exact agrees⟩
  | taken receiver i inside found' position full =>
      have fails : PipeOp.Fails server pairs (.writeUserPipe id uid p line readUid) := by
        refine Or.inr ?_
        rw [pipeIndex_iff.mp position]
        exact (agrees.boxes uid receiver found' i).mp full
      exact ⟨iff_of_true ⟨_, handleUserPipeError_reported id uid .wronly .pipeErr k⟩ fails, seated,
        by rw [unchanged fails]; exact agrees⟩
  | created receiver i inside found' position free first second k₁ opens steps k₂ sent announced
      message log =>
      have same := pipeIndex_iff.mp position
      have new : ((i.val : Int), uid) ∉ pairs := by
        rw [← agrees.boxes uid receiver found' i, free]
        simp
      have passes : ¬ PipeOp.Fails server pairs (.writeUserPipe id uid p line readUid) := by
        rintro (unknown | member)
        · cases found'.symm.trans unknown
        · exact new (same ▸ member)
      refine ⟨iff_of_false ?_ passes, seated.kept (.storeBox server found' i _ (fun _ => position)),
        agrees.storeBox found' ?_ ?_ (fun _ => ⟨user, same ▸ found⟩)⟩
      · rintro ⟨err, member⟩
        refine not_reported ((dup_log k₂ (some second)).trans log) ?_ _ member
        intro e member
        obtain ⟨entry, _, rfl⟩ := List.mem_map.mp member
        simp
      · refine iff_of_true (by simp [Pipe.cleared]) (Or.inr ⟨by rw [same], passes⟩)
      · intro pair different
        refine ⟨fun member => member.resolve_right ?_, Or.inl⟩
        rintro ⟨rfl, -⟩
        exact different (by rw [same])

theorem readUserPipe_step (seated : Seated st.2) (agrees : PipesAgree st.2 pairs)
    {id : Int} {user : UserInfo} (found : st.2.users.find? id = some user) (uid : Int) (p : Pipe)
    (line : Text) (writeUid : Int) :
    StepAgrees st pairs (.readUserPipe id uid p line writeUid) := by
  obtain ⟨k, server⟩ := st
  simp only [StepAgrees, PipeOp.step, PipeOp.Clean, iff_true]
  refine Sat.bind (Sat.mono (readUserPipe_spec id uid p line writeUid k server) (fun _ h => h) ?_) ?_
  · rintro stopped ⟨-, misplaced⟩
    exact absurd misplaced (seated.not_misplaced uid found)
  have unchanged : PipeOp.Fails server pairs (.readUserPipe id uid p line writeUid) →
      PipeOp.after server pairs (.readUserPipe id uid p line writeUid) = pairs := by
    intro fails
    ext pair
    simp [PipeOp.after, fails]
  rintro result received
  cases received with
  | absent missing =>
      have fails : PipeOp.Fails server pairs (.readUserPipe id uid p line writeUid) :=
        Or.inl (seated.missing missing)
      exact ⟨iff_of_true ⟨_, handleUserPipeError_reported id uid .rdonly .userNotExist k⟩ fails,
        seated, by rw [unchanged fails]; exact agrees⟩
  | nothing other user' i inside sender found' position free =>
      have fails : PipeOp.Fails server pairs (.readUserPipe id uid p line writeUid) := by
        refine Or.inr ?_
        rw [pipeIndex_iff.mp position, ← agrees.boxes id user' found' i, free]
        simp
      exact ⟨iff_of_true ⟨_, handleUserPipeError_reported id uid .rdonly .pipeErr k⟩ fails, seated,
        by rw [unchanged fails]; exact agrees⟩
  | taken other user' i inside sender found' position full k₁ sent announced message log =>
      have same := pipeIndex_iff.mp position
      have old : (uid, id) ∈ pairs := by
        rw [same]
        exact (agrees.boxes id user' found' i).mp full
      have passes : ¬ PipeOp.Fails server pairs (.readUserPipe id uid p line writeUid) := by
        rintro (unknown | absent)
        · cases sender.symm.trans unknown
        · exact absent old
      have kept : Kept id server (server.storeBox id user' i .cleared) :=
        .storeBox server found' i _ (by simp)
      refine ⟨iff_of_false ?_ passes, seated.kept kept, agrees.storeBox found' ?_ ?_ (by simp)⟩
      · rintro ⟨err, member⟩
        obtain ⟨closes, log', silent⟩ :=
          closePipe_log (user'.userPipes i) (k₁.dup (user'.userPipes i).inFd).2
        refine not_reported (log'.trans (by rw [dup_log, log, List.append_assoc])) ?_ _ member
        intro e member
        rcases List.mem_append.mp member with member | member
        · obtain ⟨entry, _, rfl⟩ := List.mem_map.mp member
          simp
        · exact silent e member
      · exact iff_of_false (by simp) (fun member => passes (member.2 (by rw [same])))
      · intro pair different
        refine ⟨fun member => member.1, fun member => ⟨member, ?_⟩⟩
        rintro rfl
        exact absurd (by rw [same]) different

theorem addUser_step (seated : Seated st.2) (agrees : PipesAgree st.2 pairs) {sock : Nat}
    (unknown : st.2.sockIDTable.find? sock = none)
    (few : st.2.users.keys.length < maxConn - 1) (session : Nat) (ip : Text) (port pid : Int) :
    StepAgrees st pairs (.addUser session ip port sock pid) := by
  obtain ⟨k, server⟩ := st
  obtain ⟨-, -, free⟩ := nextID_spec seated.tidy
  refine ⟨iff_of_false id id, seated.addUser unknown few session ip port pid k,
    iff_of_true ⟨?_, ?_⟩ trivial⟩
  · intro uid user found i
    rw [addUser_users] at found
    split at found
    · -- the new user has no pipes, and no pair names a free id
      rename_i new
      cases found
      refine iff_of_false (fun full => full rfl) (fun member => ?_)
      obtain ⟨-, user, found⟩ := agrees.connected _ member
      rw [new, free] at found
      cases found
    · exact agrees.boxes uid user found i
  · intro pair member
    have still : ∀ uid, (∃ user, server.users.find? uid = some user) →
        ∃ user, (addUser session ip port sock pid k server).2.users.find? uid = some user := by
      rintro uid ⟨user, found⟩
      simp only [addUser_users]
      by_cases new : uid = server.nextID
      · exact ⟨_, if_pos new⟩
      · exact ⟨user, by rw [if_neg new]; exact found⟩
    obtain ⟨first, second⟩ := agrees.connected pair member
    exact ⟨still _ first, still _ second⟩

/-- After a logout the pairs of the set are right exactly when the logout was clean. -/
theorem removeUser_step (seated : Seated st.2) (agrees : PipesAgree st.2 pairs) {sock : Nat}
    {id : Int} (known : st.2.sockIDTable.find? sock = some id) :
    StepAgrees st pairs (.removeUser sock) := by
  obtain ⟨k, server⟩ := st
  change server.sockIDTable.find? sock = some id at known
  obtain ⟨user, found, own⟩ := seated.tidy.userOfSock sock id known
  obtain ⟨messages, -, removed⟩ := removeUser_spec (k := k) known found
  have served : server.getServingUserID sock = id := by
    rw [getServingUserID, known]
    rfl
  have stay : ∀ uid other, (server.dropUser sock id).users.find? uid = some other ↔
      uid ≠ id ∧ server.users.find? uid = some other := by
    intro uid other
    simp only [dropUser, OrdMap.find?_erase]
    by_cases same : uid = id
    · simp [same]
    · simp [same]
  simp only [StepAgrees, PipeOp.step, PipeOp.Reported, PipeOp.Fails, PipeOp.after, PipeOp.Clean,
    removed, Sat.ok_iff, served, true_and]
  refine ⟨⟨dropUser_tidy seated.tidy found own, ?_⟩, ?_⟩
  · intro uid other found'
    exact seated.inside uid other ((stay uid other).mp found').2
  constructor
  · intro after uid other i found' different position
    by_contra full
    have member := (after.boxes uid other ((stay uid other).mpr ⟨different, found'⟩) i).mp full
    exact member.2.1 (pipeIndex_iff.mp position).symm
  · intro clean
    refine ⟨?_, ?_⟩
    · intro uid other found' i
      obtain ⟨different, found''⟩ := (stay uid other).mp found'
      rw [agrees.boxes uid other found'' i]
      refine ⟨fun member => ⟨member, ?_, different⟩, fun member => member.1⟩
      intro same
      have free := clean uid other i found'' different (pipeIndex_iff.mpr same.symm)
      exact (agrees.boxes uid other found'' i).mpr member free
    · rintro pair ⟨member, first, second⟩
      obtain ⟨⟨sender, found₁⟩, ⟨receiver, found₂⟩⟩ := agrees.connected pair member
      exact ⟨⟨sender, (stay _ _).mpr ⟨first, found₁⟩⟩, ⟨receiver, (stay _ _).mpr ⟨second, found₂⟩⟩⟩

theorem step_agrees (seated : Seated st.2) (agrees : PipesAgree st.2 pairs) {op : PipeOp}
    (enabled : op.Enabled st.2) : StepAgrees st pairs op := by
  cases op with
  | addUser session ip port sock pid =>
      exact addUser_step seated agrees enabled.1 enabled.2 session ip port pid
  | removeUser sock =>
      obtain ⟨id, known⟩ := enabled
      exact removeUser_step seated agrees known
  | writeUserPipe id uid p line readUid =>
      obtain ⟨user, found⟩ := enabled
      exact writeUserPipe_step seated agrees found uid p line readUid
  | readUserPipe id uid p line writeUid =>
      obtain ⟨user, found⟩ := enabled
      exact readUserPipe_step seated agrees found uid p line writeUid

theorem PipesRefine.agrees {ops : List PipeOp} (h : PipesRefine ops st pairs) :
    PipesAgree st.2 pairs := by
  cases ops with
  | nil => exact h
  | cons op ops => exact h.1

/-- From a server that agrees with the set, by induction on the operations. -/
theorem refine_iff_clean {ops : List PipeOp} (seated : Seated st.2)
    (agrees : PipesAgree st.2 pairs) : PipesRefine ops st pairs ↔ CleanRun ops st := by
  induction ops generalizing st pairs with
  | nil => exact iff_of_true agrees trivial
  | cons op ops ih =>
      simp only [PipesRefine, CleanRun, agrees, true_and]
      refine forall_congr' (fun enabled => ?_)
      have step := step_agrees seated agrees enabled
      unfold StepAgrees at step
      cases ended : op.step st with
      | error stopped =>
          rw [ended] at step
          exact iff_of_true step.2 ⟨step.1, fun st' ok => nomatch ok⟩
      | ok st' =>
          rw [ended] at step
          obtain ⟨told, seated', clean⟩ := step
          constructor
          · rintro ⟨-, refines⟩
            refine ⟨clean.mp refines.agrees, ?_⟩
            rintro st'' ⟨⟩
            exact (ih seated' refines.agrees).mp refines
          · rintro ⟨now, later⟩
            exact ⟨told, (ih seated' (clean.mpr now)).mpr (later st' rfl)⟩

end Steps

theorem pipesAgree_init (serverIn serverOut serverErr : Fd) :
    PipesAgree (ChatServer.init serverIn serverOut serverErr) ∅ :=
  ⟨by rintro _ _ ⟨⟩, by rintro _ ⟨⟩⟩

/-- A run from the start agrees with the set of pairs exactly when every logout is clean. -/
theorem userPipes_refine (k : Proc) (serverIn serverOut serverErr : Fd) (ops : List PipeOp) :
    PipesRefine ops (k, .init serverIn serverOut serverErr) ∅ ↔
      CleanRun ops (k, .init serverIn serverOut serverErr) :=
  refine_iff_clean (Seated.init serverIn serverOut serverErr)
    (pipesAgree_init serverIn serverOut serverErr)

/-- Two users log in, user 1 writes to user 2, and user 1 leaves before user 2 has read. -/
def unreadLogout : List PipeOp :=
  [.addUser 1 "10.0.0.1".toList 5001 7 (-1), .addUser 2 "10.0.0.2".toList 5002 8 (-1),
    .writeUserPipe 1 2 .cleared "ls >2".toList 0, .removeUser 7]

theorem unreadLogout_not_refine :
    ¬ PipesRefine unreadLogout (.start 1024 (fun _ => true) [], .init (some 3) (some 4) (some 5)) ∅ := by
  rw [refine_iff_clean (Seated.init _ _ _) (pipesAgree_init _ _ _)]
  intro clean
  have second := (clean ⟨rfl, by decide⟩).2 _ rfl
  have written := (second ⟨rfl, by decide⟩).2 _ rfl
  have left := (written ⟨_, rfl⟩).2 _ rfl
  have unread := (left ⟨1, rfl⟩).1 2 _ ⟨1, by decide⟩ rfl (by decide) rfl
  exact absurd unread (by decide)

end NetProg
