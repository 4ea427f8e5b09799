import NetProg.Lib.CMemory
import NetProg.Server.Names

/-!
# The records of the users in memory

`Name` copies the name into its array without looking at the length.  Here a `UserInfo` is its members
in declared order, somewhere in memory, so that the copy can be followed beyond the array: the next
byte is `isConnected`.
-/

namespace NetProg

open ChatServer (takenMsg nameMsg)

/-- The members of `UserInfo`, behind those of the `CmdHandler` it is derived from. -/
inductive UserField where
  | handler
  | port
  | sock
  | pid
  | buffer
  | ip
  | name
  | isConnected
  deriving DecidableEq, Repr

namespace UserField

/-- The size of a member; that of a `CmdHandler` is left open. -/
def size (handlerSize : Nat) : UserField → Nat
  | handler => handlerSize
  | port => 4
  | sock => 4
  | pid => 4
  | buffer => userMsgLen
  | ip => ipLen
  | name => maxUserNameLen
  | isConnected => 1

/-- Where it begins. -/
def offset (handlerSize : Nat) : UserField → Nat
  | handler => 0
  | port => handlerSize
  | sock => handlerSize + 4
  | pid => handlerSize + 8
  | buffer => handlerSize + 12
  | ip => handlerSize + 12 + userMsgLen
  | name => handlerSize + 12 + userMsgLen + ipLen
  | isConnected => handlerSize + 12 + userMsgLen + ipLen + maxUserNameLen

end UserField

/-- `users`: the ids with the addresses of their records, which do not overlap
(`np_project2/shell/util.hpp:29-40`). -/
structure UserTable where
  handlerSize : Nat
  recordSize : Nat
  users : List (Int × Nat)
  whole : UserField.isConnected.offset handlerSize + 1 ≤ recordSize
  apart : users.Pairwise fun u v =>
    u.1 ≠ v.1 ∧ (u.2 + recordSize ≤ v.2 ∨ v.2 + recordSize ≤ u.2)

/-- The four bytes of an `int`, the lowest first. -/
def Memory.readInt (m : Memory) (a : Nat) : Int :=
  let byte (i : Nat) : Int := ((m (a + i)).toNat % 256 : Nat)
  Text.toInt32 (byte 0 + 2 ^ 8 * byte 1 + 2 ^ 16 * byte 2 + 2 ^ 24 * byte 3)

/-- What `Name` leaves behind: the memory, what it printed, and its messages with the number they
went to, which is the socket or the process id of the receiver. -/
structure Named where
  memory : Memory
  printed : Text
  sent : List (Int × Text)

namespace UserTable

/-- The address of a member of a record. -/
def address (t : UserTable) (record : Nat) (field : UserField) : Nat :=
  record + field.offset t.handlerSize

/-- `users[id]`. -/
def find (t : UserTable) (id : Int) : Option Nat := t.users.lookup id

/-- `users[id]->isConnected`. -/
def connected (t : UserTable) (m : Memory) (record : Nat) : Bool :=
  m (t.address record .isConnected) != '\x00'

/-- The scan of `Name` over the connected users. -/
def nameTaken (t : UserTable) (m : Memory) (name : Text) : Bool :=
  t.users.any fun u => t.connected m u.2 && decide (m.Reads (t.address u.2 .name) name)

/-- `sendRawMessage` with `CONFIG_SHM`: `snprintf` into the buffer, then the receiver is woken and its
handler prints and clears the buffer. -/
def deliver (t : UserTable) (record : Nat) (msg : Text) (m : Memory) : Memory :=
  let m := m.store (t.address record .buffer) (Mailboxes.formatted msg ++ ['\x00'])
  m.memset (t.address record .buffer) '\x00' userMsgLen

/-- The loop of `broadcastMessage`; `shm` is `CONFIG_SHM`. -/
def broadcastTo (t : UserTable) (shm : Bool) (msg : Text) :
    List (Int × Nat) → Memory → Memory × List (Int × Text)
  | [], m => (m, [])
  | u :: us, m =>
      if shm then
        if t.connected m u.2 then
          let r := broadcastTo t shm msg us (t.deliver u.2 msg m)
          (r.1, (m.readInt (t.address u.2 .pid), msg) :: r.2)
        else broadcastTo t shm msg us m
      else
        let r := broadcastTo t shm msg us m
        (r.1, (m.readInt (t.address u.2 .sock), msg) :: r.2)

/-- `Name` (`np_project2/server/chatServer.cpp:271-295`); `users[id]` of an id that nobody holds is
a null pointer. -/
def name (t : UserTable) (shm : Bool) (id : Int) (name : Text) (m : Memory) : Option Named :=
  if t.nameTaken m name then some ⟨m, takenMsg name, []⟩
  else
    match t.find id with
    | none => none
    | some record =>
        let m := m.strcpy (t.address record .name) name
        let ip := Text.cString (m.slice (t.address record .ip) ipLen)
        let port := m.readInt (t.address record .port)
        let r := t.broadcastTo shm (nameMsg ip port name) t.users m
        some ⟨r.1, [], r.2⟩

/-- The address lies in a member of a record. -/
def Within (t : UserTable) (record : Nat) (field : UserField) (a : Nat) : Prop :=
  t.address record field ≤ a ∧ a < t.address record field + field.size t.handlerSize

/-- The name reads back, and every other member of every user is what it was. -/
structure Kept (t : UserTable) (record : Nat) (name : Text) (m m' : Memory) : Prop where
  reads : m'.Reads (t.address record .name) name
  frame : ∀ u ∈ t.users, ∀ field, (u.2 ≠ record ∨ field ≠ .name) →
    ∀ a, t.Within u.2 field a → m' a = m a

/-- `Name` refuses, or changes only the name. -/
def Framed (t : UserTable) (record : Nat) (name : Text) (m : Memory) (result : Named) : Prop :=
  result = ⟨m, takenMsg name, []⟩ ∨ t.Kept record name m result.memory

/-- What is copied over a member behind the array stands there already. -/
def Fits (t : UserTable) (record : Nat) (name : Text) (m : Memory) : Prop :=
  ∀ u ∈ t.users, ∀ field, (u.2 ≠ record ∨ field ≠ .name) →
    ∀ i, ∀ inside : i < (name ++ ['\x00']).length,
      t.Within u.2 field (t.address record .name + i) →
        (name ++ ['\x00'])[i] = m (t.address record .name + i)

/-- No message waits for a user who will get one through shared memory. -/
def Quiet (t : UserTable) (shm : Bool) (m : Memory) : Prop :=
  ∀ u ∈ t.users, shm = true → t.connected m u.2 = true →
    ∀ a, t.Within u.2 .buffer a → m a = '\x00'

section Layout

variable {t : UserTable} {u v : Int × Nat} {field field' : UserField} {a : Nat}

theorem Within.inside (within : t.Within u.2 field a) : u.2 ≤ a ∧ a < u.2 + t.recordSize := by
  have whole := t.whole
  obtain ⟨low, high⟩ := within
  cases field <;>
    simp only [address, UserField.offset, UserField.size] at low high whole <;> omega

/-- An address lies in one member of one record. -/
theorem Within.unique (here : u ∈ t.users) (there : v ∈ t.users) (within : t.Within u.2 field a)
    (within' : t.Within v.2 field' a) : u = v ∧ field = field' := by
  have inside := within.inside
  have inside' := within'.inside
  have whole := t.whole
  have same : u = v := by
    by_contra different
    have symm : Std.Symm fun u v : Int × Nat =>
        u.1 ≠ v.1 ∧ (u.2 + t.recordSize ≤ v.2 ∨ v.2 + t.recordSize ≤ u.2) :=
      ⟨fun u v apart => ⟨Ne.symm apart.1, apart.2.symm⟩⟩
    have apart := t.apart.forall here there different
    omega
  subst same
  refine ⟨rfl, ?_⟩
  obtain ⟨low, high⟩ := within
  obtain ⟨low', high'⟩ := within'
  cases field <;> cases field' <;>
    simp only [address, UserField.offset, UserField.size] at low high low' high' <;>
    first
      | rfl
      | omega

end Layout

section Broadcast

variable {t : UserTable} {shm : Bool} {msg : Text} {m : Memory} {u v : Int × Nat} {a : Nat}

theorem deliver_within (within : t.Within u.2 .buffer a) : t.deliver u.2 msg m a = '\x00' :=
  Memory.memset_within within

theorem deliver_outside (outside : ¬ t.Within u.2 .buffer a) : t.deliver u.2 msg m a = m a := by
  have range : a < t.address u.2 .buffer ∨ t.address u.2 .buffer + userMsgLen ≤ a := by
    by_contra inside
    exact outside ⟨by omega, by simp only [UserField.size]; omega⟩
  have short : (Mailboxes.formatted msg ++ ['\x00']).length ≤ userMsgLen := by
    simp only [Mailboxes.formatted, userMsgLen, List.length_append, List.length_take,
      List.length_singleton]
    omega
  rw [deliver, Memory.memset_outside range, Memory.store_outside (by omega)]

/-- The byte of the flag. -/
theorem within_flag (t : UserTable) (record : Nat) :
    t.Within record .isConnected (t.address record .isConnected) :=
  ⟨Nat.le_refl _, by simp [UserField.size]⟩

/-- A message does not touch the flags. -/
theorem deliver_connected (here : u ∈ t.users) (there : v ∈ t.users) :
    t.connected (t.deliver u.2 msg m) v.2 = t.connected m v.2 := by
  rw [connected, deliver_outside, ← connected]
  intro within
  cases (within.unique here there (t.within_flag v.2)).2

/-- Users who get a message through shared memory. -/
def Heard (t : UserTable) (shm : Bool) (m : Memory) (u : Int × Nat) : Prop :=
  shm = true ∧ t.connected m u.2 = true

theorem heard_deliver {us : List (Int × Nat)} (here : v ∈ t.users) (all : ∀ u ∈ us, u ∈ t.users)
    (member : u ∈ us) : t.Heard shm (t.deliver v.2 msg m) u ↔ t.Heard shm m u := by
  rw [Heard, deliver_connected here (all u member), ← Heard]

/-- A broadcast clears the buffers of those who hear it, and nothing else. -/
theorem broadcastTo_cases {us : List (Int × Nat)} (all : ∀ u ∈ us, u ∈ t.users) (a : Nat) :
    ((∃ u ∈ us, t.Heard shm m u ∧ t.Within u.2 .buffer a) ∧
        (t.broadcastTo shm msg us m).1 a = '\x00') ∨
      ((∀ u ∈ us, t.Heard shm m u → ¬ t.Within u.2 .buffer a) ∧
        (t.broadcastTo shm msg us m).1 a = m a) := by
  induction us generalizing m with
  | nil => exact Or.inr ⟨by simp, rfl⟩
  | cons v us ih =>
      obtain ⟨here, later⟩ := List.forall_mem_cons.mp all
      have skip : ¬ t.Heard shm m v →
          (t.broadcastTo shm msg (v :: us) m).1 = (t.broadcastTo shm msg us m).1 := by
        intro deaf
        rw [broadcastTo]
        split
        case isFalse single => rfl
        case isTrue shared => rw [if_neg fun on => deaf ⟨shared, on⟩]
      by_cases heard : t.Heard shm m v
      · have step : (t.broadcastTo shm msg (v :: us) m).1 =
            (t.broadcastTo shm msg us (t.deliver v.2 msg m)).1 := by
          rw [broadcastTo, if_pos heard.1, if_pos heard.2]
        rw [step]
        rcases ih later (m := t.deliver v.2 msg m) with ⟨⟨u, member, hears, within⟩, nul⟩ | ⟨none, same⟩
        · refine Or.inl ⟨⟨u, List.mem_cons_of_mem v member, ?_, within⟩, nul⟩
          exact (heard_deliver here later member).mp hears
        · rw [same]
          by_cases within : t.Within v.2 .buffer a
          · exact Or.inl ⟨⟨v, List.mem_cons_self, heard, within⟩, deliver_within within⟩
          · refine Or.inr ⟨List.forall_mem_cons.mpr ⟨fun _ => within, fun u member hears => ?_⟩,
              deliver_outside within⟩
            exact none u member ((heard_deliver here later member).mpr hears)
      · rw [skip heard]
        rcases ih later (m := m) with ⟨⟨u, member, hears, within⟩, nul⟩ | ⟨none, same⟩
        · exact Or.inl ⟨⟨u, List.mem_cons_of_mem v member, hears, within⟩, nul⟩
        · exact Or.inr ⟨List.forall_mem_cons.mpr ⟨fun hears => absurd hears heard, none⟩, same⟩

end Broadcast

section Frame

variable {t : UserTable} {shm : Bool} {m : Memory} {id : Int} {record : Nat} {name : Text}

theorem find_eq (user : (id, record) ∈ t.users) : t.find id = some record := by
  obtain ⟨before, behind, split⟩ := List.append_of_mem user
  refine List.lookup_eq_some_iff.mpr ⟨before, behind, split, fun u member => ?_⟩
  have apart := t.apart
  rw [split, List.pairwise_append] at apart
  exact bne_iff_ne.mpr (Ne.symm (apart.2.2 u member _ List.mem_cons_self).1)

/-- A byte of the record is written by the copy, or it is what it was. -/
theorem strcpy_cases (t : UserTable) (m : Memory) (record : Nat) (plain : '\x00' ∉ name) (a : Nat) :
    (∃ i, ∃ inside : i < (name ++ ['\x00']).length, a = t.address record .name + i ∧
        m.strcpy (t.address record .name) name a = (name ++ ['\x00'])[i]) ∨
      (a < t.address record .name ∨ t.address record .name + (name.length + 1) ≤ a) ∧
        m.strcpy (t.address record .name) name a = m a := by
  have written := m.store_cases (t.address record .name) (name ++ ['\x00']) a
  rw [Memory.strcpy, Text.cString_of_plain plain]
  simpa using written

/-- The copy keeps the frame exactly when what it writes behind the array stands there already. -/
theorem strcpy_frame (plain : '\x00' ∉ name) (fits : t.Fits record name m) {u : Int × Nat}
    (member : u ∈ t.users) {field : UserField} (other : u.2 ≠ record ∨ field ≠ .name) {a : Nat}
    (within : t.Within u.2 field a) : m.strcpy (t.address record .name) name a = m a := by
  rcases strcpy_cases t m record plain a with ⟨i, inside, rfl, same⟩ | ⟨-, same⟩
  · rw [same]
    exact fits u member field other i inside within
  · exact same

/-- Everybody who is connected stays so. -/
theorem heard_strcpy (plain : '\x00' ∉ name) (fits : t.Fits record name m) {u : Int × Nat}
    (member : u ∈ t.users) :
    t.Heard shm (m.strcpy (t.address record .name) name) u ↔ t.Heard shm m u := by
  rw [Heard, Heard, connected, connected,
    strcpy_frame plain fits member (Or.inr (by simp)) (t.within_flag u.2)]

/-- What an accepted name prints is not the refusal. -/
theorem accepted_ne {m' : Memory} {sent : List (Int × Text)} :
    (⟨m', [], sent⟩ : Named) ≠ ⟨m, takenMsg name, []⟩ := by
  intro same
  cases congrArg Named.printed same

/-- What an accepted name leaves in memory. -/
theorem name_accepted (shm : Bool) (user : (id, record) ∈ t.users) (free : t.nameTaken m name = false) :
    ∃ msg sent, t.name shm id name m =
      some ⟨(t.broadcastTo shm msg t.users (m.strcpy (t.address record .name) name)).1, [], sent⟩ := by
  rw [UserTable.name, free, find_eq user]
  exact ⟨_, _, rfl⟩

variable {msg : Text}

theorem kept_of_fits (plain : '\x00' ∉ name)
    (fits : t.Fits record name m) (quiet : t.Quiet shm m) :
    t.Kept record name m
      (t.broadcastTo shm msg t.users (m.strcpy (t.address record .name) name)).1 := by
  have cleared : ∀ u ∈ t.users, t.Heard shm (m.strcpy (t.address record .name) name) u →
      ∀ a, t.Within u.2 .buffer a → m a = '\x00' := by
    intro u member heard
    obtain ⟨shared, on⟩ := (heard_strcpy plain fits member).mp heard
    exact quiet u member shared on
  constructor
  case reads =>
    have copied : (m.strcpy (t.address record .name) name).Reads (t.address record .name) name :=
      Memory.reads_strcpy plain
    refine copied.congr fun b _ _ => ?_
    rcases broadcastTo_cases (fun _ listed => listed) b with ⟨⟨u, member, heard, within⟩, nul⟩ | ⟨-, same⟩
    · rw [nul, strcpy_frame plain fits member (Or.inr (by simp)) within,
        cleared u member heard b within]
    · exact same
  case frame =>
    intro u member field other a within
    rcases broadcastTo_cases (fun _ listed => listed) a with ⟨⟨v, there, heard, inside⟩, nul⟩ | ⟨-, same⟩
    · rw [nul, cleared v there heard a inside]
    · exact same.trans (strcpy_frame plain fits member other within)

/-- The other direction: a name that is kept has left its neighbours alone. -/
theorem fits_of_kept (kept : t.Kept record name m
      (t.broadcastTo shm msg t.users (m.strcpy (t.address record .name) name)).1) :
    '\x00' ∉ name ∧ t.Fits record name m ∧ t.Quiet shm m := by
  obtain ⟨plain, each⟩ := Memory.reads_iff.mp kept.reads
  have fits : t.Fits record name m := by
    intro u member field other i inside within
    rw [← each i inside]
    exact kept.frame u member field other _ within
  refine ⟨plain, fits, fun u member shared on a within => ?_⟩
  rw [← kept.frame u member .buffer (Or.inr (by simp)) a within]
  rcases broadcastTo_cases (fun _ listed => listed) a with ⟨-, nul⟩ | ⟨none, -⟩
  · exact nul
  · exact absurd within (none u member ((heard_strcpy plain fits member).mpr ⟨shared, on⟩))

/-- A name that fits into its array. -/
theorem fits_of_short (user : (id, record) ∈ t.users) (short : name.length < maxUserNameLen) :
    t.Fits record name m := by
  intro u member field other i inside within
  rw [List.length_append, List.length_singleton] at inside
  have own : t.Within record .name (t.address record .name + i) :=
    ⟨by omega, by simp only [UserField.size]; omega⟩
  obtain ⟨rfl, rfl⟩ := within.unique member user own
  simp at other

/-- Behind the name of a connected user there is a flag that no typed character is equal to. -/
theorem fits_iff_short (user : (id, record) ∈ t.users)
    (flag : m (t.address record .isConnected) = '\x01') (typed : '\x01' ∉ name) :
    t.Fits record name m ↔ name.length < maxUserNameLen := by
  refine ⟨fun fits => ?_, fits_of_short user⟩
  refine Nat.lt_of_not_le fun long => ?_
  have inside : maxUserNameLen < (name ++ ['\x00']).length := by
    rw [List.length_append, List.length_singleton]
    exact Nat.lt_succ_of_le long
  have behind : t.address record .name + maxUserNameLen = t.address record .isConnected := by
    simp only [address, UserField.offset, Nat.add_assoc]
  have within : t.Within record .isConnected (t.address record .name + maxUserNameLen) := by
    rw [behind]
    exact t.within_flag record
  have there := (fits _ user .isConnected (Or.inr (by simp)) maxUserNameLen inside within).trans
    ((congrArg m behind).trans flag)
  have member : '\x01' ∈ name ++ ['\x00'] := there ▸ List.getElem_mem inside
  rcases List.mem_append.mp member with early | last
  · exact typed early
  · exact absurd (List.mem_singleton.mp last) (by decide)

end Frame

/-- `Name` refuses a name or changes only the name field exactly when the name is taken, or it is a C
string whose bytes behind the array stand there already and no message waits in a buffer.  For a
connected user that is a name of fewer than `MAX_USER_NAME_LEN` characters. -/
theorem name_framed_iff (t : UserTable) (shm : Bool) (m : Memory) (name : Text) {id : Int}
    {record : Nat} (user : (id, record) ∈ t.users) :
    ((∃ result, t.name shm id name m = some result ∧ t.Framed record name m result) ↔
      t.nameTaken m name = true ∨
        '\x00' ∉ name ∧ t.Fits record name m ∧ t.Quiet shm m) ∧
      (m (t.address record .isConnected) = '\x01' → '\x01' ∉ name →
        (t.Fits record name m ↔ name.length < maxUserNameLen)) := by
  refine ⟨?_, fits_iff_short user⟩
  cases taken : t.nameTaken m name with
  | true => exact ⟨fun _ => Or.inl rfl, fun _ => ⟨_, by rw [UserTable.name, taken]; rfl, Or.inl rfl⟩⟩
  | false =>
      obtain ⟨msg, sent, named⟩ := name_accepted shm user taken
      rw [named]
      constructor
      · rintro ⟨result, same, framed⟩
        cases same
        rcases framed with refused | kept
        · exact absurd refused accepted_ne
        · exact Or.inr (fits_of_kept kept)
      · rintro (impossible | ⟨plain, fits, quiet⟩)
        · cases impossible
        · exact ⟨_, rfl, Or.inr (kept_of_fits plain fits quiet)⟩

/-- One connected user, alone in memory. -/
def lone : UserTable where
  handlerSize := 0
  recordSize := 1076
  users := [(1, 0)]
  whole := by decide
  apart := by simp

def loneMemory : Memory := fun a => if a = lone.address 0 .isConnected then '\x01' else '\x00'

theorem loneMemory_flag : loneMemory (lone.address 0 .isConnected) = '\x01' := if_pos rfl

theorem name_framed_me : ∃ result, lone.name false 1 "me".toList loneMemory = some result ∧
    lone.Framed 0 "me".toList loneMemory result := by
  have both := name_framed_iff lone false loneMemory "me".toList (List.mem_singleton_self (1, 0))
  refine both.1.mpr (Or.inr ⟨by decide, (both.2 loneMemory_flag (by decide)).mpr (by decide), ?_⟩)
  intro u _ impossible
  cases impossible

/-- As many characters as the array has. -/
def longName : Text := List.replicate maxUserNameLen 'a'

/-- The NUL behind them clears `isConnected`. -/
theorem name_clears_isConnected :
    parseCommand "name aaaaaaaaaaaaaaaaaaaa".toList = ([.name longName], []) ∧
      ¬ ∃ result, lone.name false 1 longName loneMemory = some result ∧
        lone.Framed 0 longName loneMemory result := by
  refine ⟨by decide +kernel, ?_⟩
  rintro ⟨result, named, framed⟩
  have user : (1, 0) ∈ lone.users := List.mem_singleton_self _
  have free : lone.nameTaken loneMemory longName = false := by decide
  have typed : '\x01' ∉ longName := by decide
  obtain ⟨msg, sent, accepted⟩ := name_accepted false user free
  have same := Option.some.inj (named.symm.trans accepted)
  subst same
  rcases framed with refused | kept
  · exact absurd refused accepted_ne
  · dsimp only at kept
    obtain ⟨-, fits, -⟩ := fits_of_kept kept
    have short := (fits_iff_short user loneMemory_flag typed).mp fits
    rw [longName, List.length_replicate] at short
    exact Nat.lt_irrefl _ short

/-- The names that stand in memory are those of a roster. -/
structure Shows (t : UserTable) (m : Memory) (names : Roster Int Text) : Prop where
  on : ∀ u ∈ t.users, t.connected m u.2 = true → ∃ name, m.Reads (t.address u.2 .name) name ∧
    name.length < maxUserNameLen ∧ names u.1 = some name
  off : ∀ u ∈ t.users, t.connected m u.2 = false → names u.1 = none
  others : ∀ i, (∀ u ∈ t.users, u.1 ≠ i) → names i = none

section Refinement

variable {t : UserTable} {shm : Bool} {m : Memory} {id : Int} {record : Nat} {name : Text}
  {names : Roster Int Text}

theorem nameTaken_iff (shows : t.Shows m names) :
    t.nameTaken m name = true ↔ ∃ i, names i = some name := by
  simp only [nameTaken, List.any_eq_true, Bool.and_eq_true, decide_eq_true_eq]
  constructor
  · rintro ⟨u, member, on, reads⟩
    obtain ⟨name', reads', -, called⟩ := shows.on u member on
    exact ⟨u.1, by rw [called, reads'.unique reads]⟩
  · rintro ⟨i, called⟩
    obtain ⟨u, member, rfl⟩ : ∃ u ∈ t.users, u.1 = i := by
      by_contra nobody
      rw [shows.others i fun u member same => nobody ⟨u, member, same⟩] at called
      cases called
    cases on : t.connected m u.2 with
    | false =>
        rw [shows.off u member on] at called
        cases called
    | true =>
        obtain ⟨name', reads, -, called'⟩ := shows.on u member on
        cases called.symm.trans called'
        exact ⟨u, member, on, reads⟩

/-- The text of a record is found where its array is. -/
theorem within_name {text : Text} (short : text.length < maxUserNameLen) {b : Nat}
    (low : t.address record .name ≤ b) (high : b ≤ t.address record .name + text.length) :
    t.Within record .name b := ⟨low, by simp only [UserField.size]; omega⟩

/-- A broadcast changes buffers only. -/
theorem broadcastTo_member {msg : Text} {u : Int × Nat} (member : u ∈ t.users) {field : UserField}
    (other : field ≠ .buffer) {a : Nat} (within : t.Within u.2 field a) :
    (t.broadcastTo shm msg t.users m).1 a = m a := by
  rcases broadcastTo_cases (fun _ listed => listed) a with ⟨⟨v, there, -, inside⟩, -⟩ | ⟨-, same⟩
  · exact absurd (within.unique member there inside).2 other
  · exact same

theorem connected_named {msg : Text} (plain : '\x00' ∉ name) (fits : t.Fits record name m)
    {u : Int × Nat} (member : u ∈ t.users) :
    t.connected (t.broadcastTo shm msg t.users (m.strcpy (t.address record .name) name)).1 u.2 =
      t.connected m u.2 := by
  rw [UserTable.connected, broadcastTo_member member (by simp) (t.within_flag u.2),
    strcpy_frame plain fits member (Or.inr (by simp)) (t.within_flag u.2), ← UserTable.connected]

/-- An accepted name enters the roster that memory shows. -/
theorem name_shows (shows : t.Shows m names) (user : (id, record) ∈ t.users)
    (connected : t.connected m record = true) (plain : '\x00' ∉ name)
    (short : name.length < maxUserNameLen) (free : ∀ i, names i ≠ some name) :
    ∃ result, t.name shm id name m = some result ∧
      t.Shows result.memory (names.put id (some name)) := by
  have fits : t.Fits record name m := fits_of_short user short
  have untaken : t.nameTaken m name = false := by
    rw [← Bool.not_eq_true, nameTaken_iff shows]
    rintro ⟨i, called⟩
    exact free i called
  obtain ⟨msg, sent, named⟩ := name_accepted shm user untaken
  refine ⟨_, named, ?_⟩
  constructor
  case on =>
    intro u member on
    rw [connected_named plain fits member] at on
    by_cases own : u = (id, record)
    · subst own
      refine ⟨name, ?_, short, Roster.put_same _ _⟩
      exact (Memory.reads_strcpy plain).congr fun b low high =>
        broadcastTo_member member (by simp) (within_name short low high)
    · obtain ⟨name', reads, short', called⟩ := shows.on u member on
      have other : u.2 ≠ record := by
        intro same
        have here : t.Within record .isConnected (t.address u.2 .isConnected) :=
          same ▸ t.within_flag u.2
        exact own ((t.within_flag u.2).unique member user here).1
      have others : u.1 ≠ id := by
        intro same
        have there := find_eq user
        have found : t.find u.1 = some u.2 := find_eq member
        rw [same, there] at found
        exact other (Option.some.inj found).symm
      refine ⟨name', reads.congr fun b low high => ?_, short', ?_⟩
      · have within := within_name short' low high
        exact (broadcastTo_member member (by simp) within).trans
          (strcpy_frame plain fits member (Or.inl other) within)
      · rw [Roster.put_of_ne others, called]
  case off =>
    intro u member off
    rw [connected_named plain fits member] at off
    have others : u.1 ≠ id := by
      intro same
      have found : t.find u.1 = some u.2 := find_eq member
      rw [same, find_eq user] at found
      rw [← Option.some.inj found, connected] at off
      cases off
    rw [Roster.put_of_ne others, shows.off u member off]
  case others =>
    intro i nobody
    rw [Roster.put_of_ne (Ne.symm (nobody _ user)), shows.others i nobody]

theorem name_refused (taken : t.nameTaken m name = true) :
    t.name shm id name m = some ⟨m, takenMsg name, []⟩ := by
  rw [UserTable.name, taken]
  rfl

/-- The records in memory follow the records of the server: in one process, -/
theorem name_follows {server : ChatServer} {me : UserInfo} (k : Proc)
    (shows : t.Shows m server.roster) (user : (id, record) ∈ t.users)
    (connected : t.connected m record = true) (found : server.users.find? id = some me)
    (on : me.isConnected = true) (plain : '\x00' ∉ name) (short : name.length < maxUserNameLen) :
    Sat (server.name id name k) (fun r => ∃ result, t.name false id name m = some result ∧
      t.Shows result.memory r.2.roster) (fun _ => False) := by
  refine (ChatServer.name_answer found plain short).mono (fun r answer => ?_) fun _ stopped => stopped
  by_cases taken : ∃ i, server.roster i = some name
  · rw [answer.refused taken]
    exact ⟨_, name_refused ((nameTaken_iff shows).mpr taken), shows⟩
  · have free : ∀ i, server.roster i ≠ some name := fun i there => taken ⟨i, there⟩
    obtain ⟨user', found', same, -⟩ := answer.accepted free
    cases found.symm.trans found'
    rw [same, ChatServer.setUser_roster, if_pos on]
    exact name_shows shows user connected plain short free

/-- and in shared memory. -/
theorem name_follows_shm {server : ShmServer} (k : Proc) (table : server.Table)
    (shows : t.Shows m server.roster) (user : (id, record) ∈ t.users)
    (connected : t.connected m record = true) (me : server.Connected id) (plain : '\x00' ∉ name)
    (short : name.length < maxUserNameLen) :
    Sat (server.name id name k) (fun r => ∃ result, t.name true id name m = some result ∧
      t.Shows result.memory r.2.roster) (fun _ => False) := by
  refine (ShmServer.name_answer table me plain short).mono (fun r answer => ?_) fun _ stopped => stopped
  by_cases taken : ∃ i, server.roster i = some name
  · obtain ⟨-, users, -⟩ := answer.refused taken
    have same : r.2.roster = server.roster := by
      funext i
      rw [ShmServer.roster, ShmServer.roster, users]
    rw [same]
    exact ⟨_, name_refused ((nameTaken_iff shows).mpr taken), shows⟩
  · have free : ∀ i, server.roster i ≠ some name := fun i there => taken ⟨i, there⟩
    obtain ⟨user', found', same⟩ := answer.accepted free
    obtain ⟨user'', found'', on⟩ := me
    cases found'.symm.trans found''
    rw [same, ShmServer.told_roster, ShmServer.setUser_roster, if_pos on]
    exact name_shows shows user connected plain short free

end Refinement

end UserTable

end NetProg
