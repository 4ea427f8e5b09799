import Mathlib.Data.List.Sort
import NetProg.Server.Logins

/-!
# The chat room

What the users of either chat server see of each other, without sockets, processes or shared memory:
guests under numbers, and for each operation the text that is printed for the one who acts and the
message that everybody else gets.  `Step` is a relation; the number of a new guest is the least
positive one that is free.
-/

namespace NetProg

/-- Somebody in the room. -/
structure Guest where
  name : Text
  ip : Text
  port : Int
  deriving DecidableEq, Repr

/-- Who is in the room. -/
abbrev Room := Roster Int Guest

/-- An operation of the server.  `enter` and `welcome` and `announce` are what `main` does for an
accepted connection, `leave` is what it does once the shell has ended. -/
inductive ChatOp where
  | enter (ip : Text) (port : Int) (sock : Nat) (pid : Int)
  | welcome (id : Int)
  | announce (id : Int) (ip : Text) (port : Int)
  | leave (id : Int)
  | rename (id : Int) (name : Text)
  | tell (id uid : Int) (msg : Text)
  | yell (id : Int) (msg : Text)
  | who (id : Int)

/-- What an operation prints where it is performed, and the message it sends to each guest. -/
structure Reply where
  printed : Text
  told : Int → Option Text

namespace Room

open ChatServer

/-- The least positive number that nobody has. -/
structure LeastFree (room : Room) (id : Int) : Prop where
  positive : 1 ≤ id
  free : room id = none
  least : ∀ i, 1 ≤ i → i < id → room i ≠ none

/-- One message for all who are present. -/
def everybody (room : Room) (msg : Text) : Int → Option Text := fun i => (room i).map fun _ => msg

def nobody : Int → Option Text := fun _ => none

def only (uid : Int) (msg : Text) : Int → Option Text := fun i => if i = uid then some msg else none

/-- The lines of the server about a connection. -/
def acceptedMsg (ip : Text) (port id : Int) : Text :=
  "accept new connection from ip ".toList ++ ip ++ ", port ".toList ++ Text.decimal port ++
    "\n".toList ++ ("add user ".toList ++ Text.decimal id ++ "\n".toList)

def closedMsg (guest : Guest) (id : Int) : Text :=
  guest.name ++ " close connection from ip ".toList ++ guest.ip ++ ", port ".toList ++
    Text.decimal guest.port ++ "\n".toList ++
    ("remove user ".toList ++ Text.decimal id ++ "\n".toList)

def whoHeader : Text := "<ID>\t<nickname>\t<IP:port>\t<indicate me>\n".toList

/-- A line of `who` for the guest `me`. -/
def whoLine (me : Int) (entry : Int × Guest) : Text :=
  Text.decimal entry.1 ++ "\t".toList ++ entry.2.name ++ "\t".toList ++ entry.2.ip ++ ":".toList ++
    Text.decimal entry.2.port ++ (if me = entry.1 then "\t<-me".toList else []) ++ "\n".toList

/-- The guests in the order of their numbers. -/
structure Listed (room : Room) (entries : List (Int × Guest)) : Prop where
  ordered : entries.Pairwise fun a b => a.1 < b.1
  all : ∀ id guest, (id, guest) ∈ entries ↔ room id = some guest

/-- What an operation does. -/
inductive Step (room : Room) : ChatOp → Reply → Room → Prop
  | enter {id : Int} {ip : Text} {port : Int} {sock : Nat} {pid : Int} (least : room.LeastFree id) :
      Step room (.enter ip port sock pid) ⟨acceptedMsg ip port id, nobody⟩
        (room.put id (some ⟨noName, (Text.cString ip).take (ipLen - 1), port⟩))
  | welcome {id : Int} {guest : Guest} (present : room id = some guest) :
      Step room (.welcome id) ⟨[], only id welcomeMsg⟩ room
  | announce {id : Int} {ip : Text} {port : Int} {guest : Guest} (present : room id = some guest) :
      Step room (.announce id ip port) ⟨[], room.everybody (loginMsg guest.name ip port)⟩ room
  | leave {id : Int} {guest : Guest} (present : room id = some guest) :
      Step room (.leave id)
        ⟨closedMsg guest id, everybody (room.put id none) (logoutMsg guest.name)⟩ (room.put id none)
  | renameTaken {id : Int} {name : Text} (taken : ∃ i guest, room i = some guest ∧ guest.name = name) :
      Step room (.rename id name) ⟨takenMsg name, nobody⟩ room
  | rename {id : Int} {name : Text} {guest : Guest} (present : room id = some guest)
      (free : ∀ i guest, room i = some guest → guest.name ≠ name) :
      Step room (.rename id name) ⟨[], room.everybody (nameMsg guest.ip guest.port name)⟩
        (room.put id (some { guest with name }))
  | tellNobody {id uid : Int} {msg : Text} (absent : room uid = none) :
      Step room (.tell id uid msg) ⟨notExistMsg uid, nobody⟩ room
  | tell {id uid : Int} {msg : Text} {guest : Guest} (present : room id = some guest)
      (there : room uid ≠ none) :
      Step room (.tell id uid msg) ⟨[], only uid (tellMsg guest.name msg)⟩ room
  | yell {id : Int} {msg : Text} {guest : Guest} (present : room id = some guest) :
      Step room (.yell id msg) ⟨[], room.everybody (yellMsg guest.name msg)⟩ room
  | who {id : Int} {entries : List (Int × Guest)} (listed : room.Listed entries) :
      Step room (.who id) ⟨whoHeader ++ entries.flatMap (whoLine id), nobody⟩ room

variable {room room' room'' : Room} {op : ChatOp} {reply reply' : Reply} {id id' : Int}

theorem LeastFree.unique (h : room.LeastFree id) (h' : room.LeastFree id') : id = id' := by
  rcases lt_trichotomy id id' with below | same | above
  · exact absurd h.free (h'.least id h.positive below)
  · exact same
  · exact absurd h'.free (h.least id' h'.positive above)

theorem Listed.unique {entries entries' : List (Int × Guest)} (h : room.Listed entries)
    (h' : room.Listed entries') : entries = entries' := by
  have irrefl : Std.Irrefl fun a b : Int × Guest => a.1 < b.1 := ⟨fun a => lt_irrefl a.1⟩
  have antisymm : Std.Antisymm fun a b : Int × Guest => a.1 < b.1 :=
    ⟨fun a b less more => absurd less (lt_asymm more)⟩
  exact h.ordered.eq_of_mem_iff h'.ordered fun entry =>
    (h.all entry.1 entry.2).trans (h'.all entry.1 entry.2).symm

/-- Whoever is present is so under another name as well. -/
theorem everybody_put (present : room id ≠ none) (guest : Guest) (msg : Text) :
    everybody (room.put id (some guest)) msg = room.everybody msg := by
  obtain ⟨old, there⟩ := Option.ne_none_iff_exists'.mp present
  funext i
  by_cases here : i = id
  · simp [everybody, here, there]
  · simp [everybody, Roster.put_of_ne here]

/-- What an operation does is determined. -/
theorem Step.unique (h : Step room op reply room') (h' : Step room op reply' room'') :
    reply = reply' ∧ room' = room'' := by
  cases h with
  | enter least =>
      cases h' with
      | enter least' =>
          cases least.unique least'
          exact ⟨rfl, rfl⟩
  | welcome present =>
      cases h' with
      | welcome present' => exact ⟨rfl, rfl⟩
  | announce present =>
      cases h' with
      | announce present' =>
          cases present.symm.trans present'
          exact ⟨rfl, rfl⟩
  | leave present =>
      cases h' with
      | leave present' =>
          cases present.symm.trans present'
          exact ⟨rfl, rfl⟩
  | renameTaken taken =>
      cases h' with
      | renameTaken taken' => exact ⟨rfl, rfl⟩
      | rename present free =>
          obtain ⟨i, guest, there, same⟩ := taken
          exact absurd same (free i guest there)
  | rename present free =>
      cases h' with
      | renameTaken taken =>
          obtain ⟨i, guest, there, same⟩ := taken
          exact absurd same (free i guest there)
      | rename present' free' =>
          cases present.symm.trans present'
          exact ⟨rfl, rfl⟩
  | tellNobody absent =>
      cases h' with
      | tellNobody absent' => exact ⟨rfl, rfl⟩
      | tell present there => exact absurd absent there
  | tell present there =>
      cases h' with
      | tellNobody absent => exact absurd absent there
      | tell present' there' =>
          cases present.symm.trans present'
          exact ⟨rfl, rfl⟩
  | yell present =>
      cases h' with
      | yell present' =>
          cases present.symm.trans present'
          exact ⟨rfl, rfl⟩
  | who listed =>
      cases h' with
      | who listed' =>
          cases listed.unique listed'
          exact ⟨rfl, rfl⟩

end Room

end NetProg
