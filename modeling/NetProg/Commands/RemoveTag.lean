import NetProg.Lib.Text

/-!
# The filters `removetag` and `removetag0`

Both copy their input without its tags; `removetag0` also reports tags with characters that no tag
name has.  It reports at the next character that it copies, and it never empties the name that it
has put together, so what it reports is the text of all tags so far.
-/

namespace NetProg

/-- `isalpha` in the C locale. -/
def isalpha (c : Char) : Bool := c.isAlpha

/-- The usage message of both programs; they go on after it. -/
def usage (argv : List Text) : List Text :=
  if argv.length > 2 then ["usage: ".toList ++ argv.headD [] ++ " [filename]\n".toList] else []

/-- What a program has written; every statement that writes to `cerr` writes one message. -/
structure Written where
  cout : Text := []
  cerr : List Text := []
  deriving DecidableEq, Repr

namespace Removetag

/-- The variables of `removetag`. -/
structure State where
  inTag : Bool := false
  written : Written
  deriving DecidableEq, Repr

/-- The body of `while (cin.get(c))`. -/
def turn (s : State) (c : Char) : State :=
  if c = '<' then { s with inTag := true }
  else if c = '>' then { s with inTag := false }
  else if !s.inTag then { s with written := { s.written with cout := s.written.cout ++ [c] } }
  else s

/-- `main` (`np_project2/commands/removetag.cpp:6-30`); `input` is what `cin` delivers, from the
file if one is named. -/
def main (argv : List Text) (input : Text) : Written :=
  (input.foldl turn { written := { cerr := usage argv } }).written

end Removetag

namespace Removetag0

/-- The variables of `removetag0`. -/
structure State where
  inTag : Bool := false
  isIllegal : Bool := false
  tagName : Text := []
  written : Written
  deriving DecidableEq, Repr

def message (tagName : Text) : Text := "Error: illegal tag \"".toList ++ tagName ++ "\"\n".toList

/-- The body of `while (cin.get(c))`. -/
def turn (s : State) (c : Char) : State :=
  if c = '<' then { s with inTag := true }
  else if c = '>' then { s with inTag := false }
  else if s.inTag then
    { s with
      tagName := s.tagName ++ [c]
      isIllegal := if !isalpha c && c != '/' then true else s.isIllegal }
  else if s.isIllegal then
    { s with
      written := ⟨s.written.cout ++ [c], s.written.cerr ++ [message s.tagName]⟩
      isIllegal := false }
  else { s with written := { s.written with cout := s.written.cout ++ [c] } }

/-- `main` (`np_project2/commands/removetag0.cpp:8-42`). -/
def main (argv : List Text) (input : Text) : Written :=
  (input.foldl turn { written := { cerr := usage argv } }).written

example : main ["removetag0".toList] "a<b1>c".toList = ⟨"ac".toList, [message "b1".toList]⟩ := by
  decide

end Removetag0

/-- A closed tag with the characters between its brackets, or a character outside of tags. -/
inductive Piece where
  | tag (t : Text)
  | plain (c : Char)
  deriving DecidableEq, Repr

/-- The pieces of a text, behind the beginning of a tag if one is open. -/
def pieces : Option Text → Text → List Piece
  | _, [] => []
  | none, c :: s =>
      if c = '<' then pieces (some []) s
      else if c = '>' then pieces none s
      else .plain c :: pieces none s
  | some t, c :: s =>
      if c = '<' then pieces (some t) s
      else if c = '>' then .tag t :: pieces none s
      else pieces (some (t ++ [c])) s

/-- The tag has a character that is neither a letter nor `/`. -/
def illegal (t : Text) : Bool := t.any fun c => !isalpha c && c != '/'

/-- The characters outside of tags. -/
def plains : List Piece → Text
  | [] => []
  | .plain c :: ps => c :: plains ps
  | .tag _ :: ps => plains ps

/-- The illegal tags. -/
def illegalTags : List Piece → List Text
  | [] => []
  | .plain _ :: ps => illegalTags ps
  | .tag t :: ps => if illegal t then t :: illegalTags ps else illegalTags ps

/-- `removetag0` writes what `removetag` writes, without brackets, and names the illegal tags. -/
structure Filters (argv : List Text) (input : Text) : Prop where
  same : (Removetag0.main argv input).cout = (Removetag.main argv input).cout
  stripped : '<' ∉ (Removetag0.main argv input).cout ∧ '>' ∉ (Removetag0.main argv input).cout
  named : (Removetag0.main argv input).cerr =
    usage argv ++ (illegalTags (pieces none input)).map Removetag0.message

/-- There is no illegal tag, or only one; then a character is copied behind it, and all other tags
that are closed before this character are empty. -/
def NamedAlone (ps : List Piece) : Prop :=
  illegalTags ps = [] ∨
    ∃ before t between c after, ps = before ++ .tag t :: (between ++ .plain c :: after) ∧
      illegal t = true ∧ (∀ t', .tag t' ∈ before ++ between → t' = []) ∧
      (∀ c', .plain c' ∉ between) ∧ illegalTags after = []

section Reports

variable {name : Text} {flag : Bool} {ps : List Piece} {t : Text}

/-- The names in the messages, with the name and the flag that the tags before have left. -/
def reports : Text → Bool → List Piece → List Text
  | _, _, [] => []
  | name, flag, .tag t :: ps => reports (name ++ t) (flag || illegal t) ps
  | name, flag, .plain _ :: ps =>
      if flag then name :: reports name false ps else reports name false ps

theorem illegal_ne_nil (h : illegal t = true) : t ≠ [] := by
  rintro rfl
  cases h

/-- Names only grow. -/
theorem length_reports (member : t ∈ reports name flag ps) : name.length ≤ t.length := by
  induction ps generalizing name flag with
  | nil => cases member
  | cons p ps ih =>
      cases p with
      | tag t' =>
          have longer := ih member
          rw [List.length_append] at longer
          omega
      | plain c =>
          cases flag with
          | false => exact ih member
          | true =>
              rcases List.mem_cons.mp member with rfl | later
              · exact Nat.le_refl _
              · exact ih later

/-- Behind a tag that was not empty no illegal tag is named alone. -/
theorem reports_named (named : name ≠ []) (same : reports name false ps = illegalTags ps) :
    illegalTags ps = [] := by
  induction ps generalizing name with
  | nil => rfl
  | cons p ps ih =>
      cases p with
      | plain c => exact ih named same
      | tag t =>
          rw [reports, Bool.false_or, illegalTags] at same
          rw [illegalTags]
          cases bad : illegal t with
          | false =>
              rw [bad] at same
              exact ih (fun none => named (List.append_eq_nil_iff.mp none).1) same
          | true =>
              rw [bad, if_pos rfl] at same
              have long : (name ++ t).length ≤ t.length :=
                length_reports (same ▸ List.mem_cons_self)
              have some := List.length_pos_iff.mpr named
              rw [List.length_append] at long
              omega

/-- An illegal tag is named alone at the next character outside if no other text comes between. -/
theorem reports_flagged (named : name ≠ []) (same : reports name true ps = name :: illegalTags ps) :
    ∃ between c after, ps = between ++ .plain c :: after ∧ (∀ t', .tag t' ∈ between → t' = []) ∧
      (∀ c', .plain c' ∉ between) ∧ illegalTags after = [] := by
  induction ps with
  | nil => cases same
  | cons p ps ih =>
      cases p with
      | plain c =>
          refine ⟨[], c, ps, rfl, by simp, by simp, reports_named named ?_⟩
          exact (List.cons.inj same).2
      | tag t =>
          rw [reports, Bool.true_or] at same
          cases t with
          | nil =>
              rw [List.append_nil] at same
              obtain ⟨between, c, after, rfl, empty, tags, clean⟩ := ih same
              exact ⟨.tag [] :: between, c, after, rfl, by simpa using empty, by simpa using tags,
                clean⟩
          | cons d t =>
              have long : (name ++ d :: t).length ≤ name.length :=
                length_reports (same ▸ List.mem_cons_self)
              rw [List.length_append, List.length_cons] at long
              omega

theorem NamedAlone.cons {p : Piece} (h : NamedAlone ps) (quiet : ∀ t, p = .tag t → t = []) :
    NamedAlone (p :: ps) := by
  rcases h with none | ⟨before, t, between, c, after, rfl, bad, empty, tags, clean⟩
  · left
    cases p with
    | plain c => exact none
    | tag t =>
        rw [quiet t rfl]
        exact none
  · right
    refine ⟨p :: before, t, between, c, after, rfl, bad, ?_, tags, clean⟩
    intro t' member
    rcases List.mem_cons.mp member with here | later
    · exact quiet t' here.symm
    · exact empty t' later

/-- Empty tags and plain characters leave the name and the flag. -/
theorem reports_quiet {later : List Piece} (empty : ∀ t', .tag t' ∈ ps → t' = [])
    (plain : flag = true → ∀ c, .plain c ∉ ps) :
    reports name flag (ps ++ later) = reports name flag later := by
  induction ps with
  | nil => rfl
  | cons p ps ih =>
      have rest := ih (fun t' member => empty t' (.tail p member))
        (fun set c member => plain set c (.tail p member))
      cases p with
      | tag t =>
          rw [empty t List.mem_cons_self, List.cons_append, reports, List.append_nil]
          simpa [illegal] using rest
      | plain c =>
          cases flag with
          | true => exact absurd List.mem_cons_self (plain rfl c)
          | false => simpa [reports] using rest

theorem illegalTags_append (first later : List Piece) :
    illegalTags (first ++ later) = illegalTags first ++ illegalTags later := by
  induction first with
  | nil => rfl
  | cons p first ih =>
      cases p with
      | plain c => simpa [illegalTags] using ih
      | tag t =>
          simp only [List.cons_append, illegalTags, ih]
          split <;> rfl

theorem illegalTags_quiet (empty : ∀ t', .tag t' ∈ ps → t' = []) : illegalTags ps = [] := by
  induction ps with
  | nil => rfl
  | cons p ps ih =>
      have rest := ih fun t' member => empty t' (.tail p member)
      cases p with
      | plain c => exact rest
      | tag t =>
          rw [empty t List.mem_cons_self]
          exact rest

/-- Without illegal tags nothing is reported. -/
theorem reports_legal (legal : illegalTags ps = []) : reports name false ps = [] := by
  induction ps generalizing name with
  | nil => rfl
  | cons p ps ih =>
      cases p with
      | plain c => exact ih legal
      | tag t =>
          rw [illegalTags] at legal
          cases bad : illegal t with
          | true => simp [bad] at legal
          | false =>
              rw [bad] at legal
              rw [reports, bad]
              exact ih legal

theorem reports_iff (ps : List Piece) : reports [] false ps = illegalTags ps ↔ NamedAlone ps := by
  constructor
  · intro same
    induction ps with
    | nil => exact Or.inl rfl
    | cons p ps ih =>
        cases p with
        | plain c => exact (ih same).cons fun t => Piece.noConfusion
        | tag t =>
            rw [reports, Bool.false_or, List.nil_append, illegalTags] at same
            cases bad : illegal t with
            | true =>
                rw [bad, if_pos rfl] at same
                obtain ⟨between, c, after, rfl, empty, tags, clean⟩ :=
                  reports_flagged (illegal_ne_nil bad) same
                exact Or.inr ⟨[], t, between, c, after, rfl, bad, empty, tags, clean⟩
            | false =>
                rw [bad] at same
                cases t with
                | nil => exact (ih same).cons fun t same => (Piece.tag.inj same).symm
                | cons d t =>
                    left
                    rw [illegalTags, bad]
                    exact reports_named (List.cons_ne_nil d t) same
  · intro alone
    rcases alone with none | ⟨before, t, between, c, after, rfl, bad, empty, tags, clean⟩
    · rw [none, reports_legal none]
    · have front : ∀ t', .tag t' ∈ before → t' = [] := fun t' member =>
        empty t' (List.mem_append_left _ member)
      have back : ∀ t', .tag t' ∈ between → t' = [] := fun t' member =>
        empty t' (List.mem_append_right _ member)
      rw [reports_quiet front Bool.noConfusion, illegalTags_append, illegalTags_quiet front, reports,
        bad, reports_quiet back fun _ => tags, illegalTags, bad, illegalTags_append,
        illegalTags_quiet back]
      simp [reports, illegalTags, reports_legal, clean]

end Reports

section Runs

variable {opened : Option Text} {name : Text} {flag : Bool} {input : Text}

/-- The variables of `removetag` behind a part of the input: whether a tag is open. -/
theorem removetag_run (s : Removetag.State) (inTag : s.inTag = opened.isSome) :
    (input.foldl Removetag.turn s).written =
      { s.written with cout := s.written.cout ++ plains (pieces opened input) } := by
  induction input generalizing s opened with
  | nil => cases opened <;> simp [pieces, plains]
  | cons c input ih =>
      rw [List.foldl_cons]
      by_cases opens : c = '<'
      · subst opens
        have later := @ih (opened.or (some [])) { s with inTag := true } (by cases opened <;> rfl)
        cases opened with
        | none => exact later
        | some t => exact later
      · by_cases closes : c = '>'
        · subst closes
          have later := @ih none { s with inTag := false } rfl
          cases opened with
          | none => exact later
          | some t => exact later
        · cases opened with
          | none =>
              have later := @ih none { s with written.cout := s.written.cout ++ [c] } inTag
              simpa [Removetag.turn, pieces, plains, opens, closes, inTag] using later
          | some t =>
              have later := @ih (some (t ++ [c])) s inTag
              simpa [Removetag.turn, pieces, opens, closes, inTag] using later

/-- The variables of `removetag0` are those of the reports and of the open tag. -/
structure Removetag0.State.Follows (s : Removetag0.State) (name : Text) (flag : Bool)
    (opened : Option Text) : Prop where
  inTag : s.inTag = opened.isSome
  tagName : s.tagName = name ++ opened.getD []
  isIllegal : s.isIllegal = (flag || illegal (opened.getD []))

theorem removetag0_run {s : Removetag0.State} (follows : s.Follows name flag opened) :
    (input.foldl Removetag0.turn s).written =
      ⟨s.written.cout ++ plains (pieces opened input),
        s.written.cerr ++ (reports name flag (pieces opened input)).map Removetag0.message⟩ := by
  induction input generalizing s name flag opened with
  | nil => cases opened <;> simp [pieces, plains, reports]
  | cons c input ih =>
      obtain ⟨inTag, tagName, isIllegal⟩ := follows
      rw [List.foldl_cons]
      by_cases opens : c = '<'
      · subst opens
        cases opened with
        | none =>
            have next : Removetag0.State.Follows { s with inTag := true } name flag (some []) :=
              ⟨rfl, tagName, isIllegal⟩
            exact ih next
        | some t =>
            have next : Removetag0.State.Follows { s with inTag := true } name flag (some t) :=
              ⟨rfl, tagName, isIllegal⟩
            exact ih next
      · by_cases closes : c = '>'
        · subst closes
          cases opened with
          | none =>
              have next : Removetag0.State.Follows { s with inTag := false } name flag none :=
                ⟨rfl, tagName, isIllegal⟩
              exact ih next
          | some t =>
              have next : Removetag0.State.Follows { s with inTag := false } (name ++ t)
                  (flag || illegal t) none :=
                ⟨rfl, by simpa using tagName, by simpa [illegal] using isIllegal⟩
              exact ih next
        · cases opened with
          | none =>
              have own : s.tagName = name ∧ s.isIllegal = flag := by
                simpa [illegal] using And.intro tagName isIllegal
              have closed : s.inTag = false := inTag
              have turned : Removetag0.turn s c = { s with
                  written := ⟨s.written.cout ++ [c],
                    s.written.cerr ++ if flag then [Removetag0.message name] else []⟩
                  isIllegal := false } := by
                cases flag <;> simp [Removetag0.turn, opens, closes, closed, own]
              have next : (Removetag0.turn s c).Follows name false none := by
                rw [turned]
                exact ⟨closed, tagName, rfl⟩
              rw [ih next, turned]
              cases flag <;> simp [pieces, plains, reports, opens, closes]
          | some t =>
              have inside : s.inTag = true := inTag
              have turned : Removetag0.turn s c = { s with
                  tagName := s.tagName ++ [c]
                  isIllegal := if !isalpha c && c != '/' then true else s.isIllegal } := by
                simp [Removetag0.turn, opens, closes, inside]
              have next : (Removetag0.turn s c).Follows name flag (some (t ++ [c])) := by
                rw [turned]
                refine ⟨inTag, by simp [tagName], ?_⟩
                rw [isIllegal]
                cases flag <;> cases bad : (!isalpha c && c != '/') <;> simp [illegal, bad]
              rw [ih next, turned, pieces, if_neg opens, if_neg closes]

/-- What is copied are no brackets. -/
theorem plains_stripped (opened : Option Text) (input : Text) :
    '<' ∉ plains (pieces opened input) ∧ '>' ∉ plains (pieces opened input) := by
  induction input generalizing opened with
  | nil => cases opened <;> simp [pieces, plains]
  | cons c input ih =>
      by_cases opens : c = '<'
      · subst opens
        cases opened with
        | none => exact ih (some [])
        | some t => exact ih (some t)
      · by_cases closes : c = '>'
        · subst closes
          cases opened with
          | none => exact ih none
          | some t => exact ih none
        · cases opened with
          | none => simpa [pieces, plains, opens, closes, Ne.symm opens, Ne.symm closes] using ih none
          | some t => simpa [pieces, opens, closes] using ih (some (t ++ [c]))

theorem message_injective {t u : Text} (same : Removetag0.message t = Removetag0.message u) :
    t = u := by
  have inner := List.append_cancel_right same
  exact List.append_cancel_left inner

end Runs

/-- The two filters always copy the same; the messages are right exactly if at most one tag is
illegal, and is named alone. -/
theorem filters_iff (argv : List Text) (input : Text) :
    Filters argv input ↔ NamedAlone (pieces none input) := by
  have written : Removetag0.main argv input = ⟨plains (pieces none input),
      usage argv ++ (reports [] false (pieces none input)).map Removetag0.message⟩ := by
    have start : Removetag0.State.Follows { written := { cerr := usage argv } } [] false none :=
      ⟨rfl, rfl, rfl⟩
    exact removetag0_run start
  have copied : (Removetag.main argv input).cout = plains (pieces none input) := by
    have start : (Removetag.State.mk false { cerr := usage argv }).inTag =
        (none : Option Text).isSome := rfl
    rw [Removetag.main, removetag_run _ start]
    rfl
  have stripped := plains_stripped none input
  rw [← reports_iff]
  constructor
  · intro filters
    have named := filters.named
    rw [written] at named
    exact (List.map_inj_right fun _ _ => message_injective).mp (List.append_cancel_left named)
  · intro same
    exact ⟨by rw [written, copied], by rw [written]; exact stripped, by rw [written, same]⟩

/-- The name of a tag is still there when the next one is reported. -/
theorem names_accumulate : ¬ Filters ["removetag0".toList] "<b>x<1>y".toList := by
  intro filters
  have named := filters.named
  have run : Removetag0.main ["removetag0".toList] "<b>x<1>y".toList =
      ⟨"xy".toList, [Removetag0.message "b1".toList]⟩ := by decide
  rw [run] at named
  exact absurd named (by decide)

end NetProg
