import NetProg.Lib.References
import Mathlib.Data.List.TakeWhile

/-!
# The value of a string literal

The escapes of a JavaScript string literal, in a script that is not strict.  Code units that are half
of a character become the replacement character, unless the other half follows.
-/

namespace NetProg.Script

open References (isHex digitValue replacement)

def isOctal (c : Char) : Bool := '0' ≤ c && c ≤ '7'

def number (base : Nat) (digits : List Char) : Nat :=
  digits.foldl (fun n d => base * n + digitValue d) 0

/-- So many hexadecimal digits. -/
def hexNumber (count : Nat) (s : List Char) : Option Nat :=
  if (s.take count).length = count ∧ (s.take count).all isHex then some (number 16 (s.take count))
  else none

/-- The character of a code unit. -/
def codeUnit (n : Nat) : Char := if 0xD800 ≤ n ∧ n ≤ 0xDFFF then replacement else Char.ofNat n

/-- Behind `\u`, as in `escape`. -/
def unicodeEscape (s : List Char) : Option (List Char × Nat) :=
  if s.head? = some '\x7b' then
    let digits := (s.drop 1).takeWhile isHex
    if digits ≠ [] ∧ s[1 + digits.length]? = some '\x7d' ∧ number 16 digits ≤ 0x10FFFF then
      some ([codeUnit (number 16 digits)], digits.length + 3)
    else none
  else
    match hexNumber 4 s with
    | none => none
    | some high =>
        match hexNumber 4 (s.drop 6) with
        | none => some ([codeUnit high], 5)
        | some low =>
            if (s.drop 4).take 2 = ['\\', 'u'] ∧ 0xD800 ≤ high ∧ high ≤ 0xDBFF ∧ 0xDC00 ≤ low ∧
                low ≤ 0xDFFF then
              some ([Char.ofNat (0x10000 + (high - 0xD800) * 0x400 + (low - 0xDC00))], 11)
            else some ([codeUnit high], 5)

/-- A character behind a backslash. -/
def single (c : Char) : List Char :=
  if c = 'b' then ['\x08']
  else if c = 't' then ['\t']
  else if c = 'n' then ['\n']
  else if c = 'v' then ['\x0b']
  else if c = 'f' then ['\x0c']
  else if c = 'r' then ['\r']
  else if c = '\n' ∨ c = '\u2028' ∨ c = '\u2029' then []
  else [c]

/-- Behind a backslash: what the escape stands for, and its length. -/
def escape : List Char → Option (List Char × Nat)
  | [] => none
  | c :: s =>
      if c = 'x' then (hexNumber 2 s).map fun n => ([Char.ofNat n], 3)
      else if c = 'u' then unicodeEscape s
      else if isOctal c then
        let digits := ((c :: s).take (if c ≤ '3' then 3 else 2)).takeWhile isOctal
        some ([Char.ofNat (number 8 digits)], digits.length)
      else if c = '\r' then some ([], if s.head? = some '\n' then 2 else 1)
      else some (single c, 1)

/-- The value of what stands in a literal; so many characters belong to an escape. -/
def unescape : Nat → List Char → Option (List Char)
  | _, [] => some []
  | skip + 1, _ :: s => unescape skip s
  | 0, c :: s =>
      if c = '\\' then do
        let (e, n) ← escape s
        (unescape n s).map (e ++ ·)
      else (unescape 0 s).map (c :: ·)

example : unescape 0 "a\\n\\x41\\101\\u00e9\\ud83d\\ude00\\q\\\\".toList =
    some ("a\nAA\u00e9".toList ++ [Char.ofNat 0x1f600, 'q', '\\']) := by decide +kernel

/-- What is read of the rest by an escape: one character, that stands for itself if it is active, or
several ones, none of them active. -/
def Consumes (active : Char → Prop) (s e : List Char) (n : Nat) : Prop :=
  e.length ≤ 1 ∧ 1 ≤ n ∧ n ≤ s.length ∧
    ((n = 1 ∧ ∀ c ∈ s.head?, active c → e = [c]) ∨ ∀ c ∈ s.take n, ¬ active c)

/-- A character that is neither a digit of an escape nor means another one. -/
structure Active (c : Char) : Prop where
  hex : isHex c = false
  octal : isOctal c = false
  named : c ∉ "xu\x7b\x7d\\\r\n\u2028\u2029btnvfr".toList

section Laws

variable {s t e : List Char} {n : Nat}

theorem unescape_plain (plain : '\\' ∉ s) (t : List Char) :
    unescape 0 (s ++ t) = (unescape 0 t).map (s ++ ·) := by
  induction s with
  | nil =>
      rw [List.nil_append]
      exact (Option.map_id' (x := unescape 0 t)).symm
  | cons c s ih =>
      have other : c ≠ '\\' := fun same => plain (same ▸ List.mem_cons_self)
      rw [List.cons_append, unescape, if_neg other, ih fun member => plain (List.mem_cons_of_mem c member),
        Option.map_map]
      rfl

theorem unescape_skip (n : Nat) (s : List Char) : unescape n s = unescape 0 (s.drop n) := by
  induction n generalizing s with
  | zero => rfl
  | succ n ih =>
      cases s with
      | nil => rfl
      | cons c s => exact ih s

theorem hexNumber_some {count : Nat} {m : Nat} (found : hexNumber count s = some m) :
    count ≤ s.length ∧ ∀ c ∈ s.take count, isHex c = true := by
  unfold hexNumber at found
  split at found
  · rename_i holds
    rw [List.length_take] at holds
    exact ⟨by omega, List.all_eq_true.mp holds.2⟩
  · cases found

theorem take_takeWhile (p : Char → Bool) (s : List Char) : s.take (s.takeWhile p).length = s.takeWhile p :=
  (List.prefix_iff_eq_take.mp (List.takeWhile_prefix p)).symm

/-- A longer escape, none of whose characters is active. -/
theorem Consumes.several {c : Char} (some : 1 ≤ n) (within : n ≤ s.length)
    (inactive : ∀ c ∈ s.take n, ¬ Active c) : Consumes Active s [c] n :=
  ⟨Nat.le_refl 1, some, within, .inr inactive⟩

theorem inactive_of_hex {c : Char} (hex : isHex c = true) : ¬ Active c := fun active =>
  Bool.false_ne_true (active.hex.symm.trans hex)

theorem inactive_of_named {c : Char} (named : c ∈ "xu\x7b\x7d\\\r\n\u2028\u2029btnvfr".toList) : ¬ Active c :=
  fun active => active.named named

theorem unicodeEscape_consumes (found : unicodeEscape s = some (e, n)) :
    Consumes Active ('u' :: s) e n := by
  have letter : ¬ Active 'u' := inactive_of_named (by decide)
  unfold unicodeEscape at found
  split at found
  · rename_i opens
    extract_lets digits at found
    split at found
    · rename_i holds
      obtain ⟨-, closes, -⟩ := holds
      cases found
      cases s with
      | nil => cases opens
      | cons c s =>
          obtain rfl : c = '\x7b' := Option.some.inj opens
          have shape : digits = s.takeWhile isHex := rfl
          have place : s[digits.length]? = some '\x7d' := by
            rw [Nat.add_comm, List.getElem?_cons_succ] at closes
            exact closes
          obtain ⟨within, last⟩ := List.getElem?_eq_some_iff.mp place
          apply Consumes.several (by omega)
          · simp only [List.length_cons]
            omega
          · intro d member
            have taken : ('u' :: '\x7b' :: s).take (digits.length + 3) =
                'u' :: '\x7b' :: (s.take digits.length ++ ['\x7d']) := by
              rw [← last, List.take_append_getElem]
              rfl
            rw [taken, shape, take_takeWhile] at member
            rcases List.mem_cons.mp member with rfl | member
            · exact letter
            · rcases List.mem_cons.mp member with rfl | member
              · exact inactive_of_named (by decide)
              · rcases List.mem_append.mp member with digit | last
                · exact inactive_of_hex (List.mem_takeWhile_imp digit)
                · rw [List.mem_singleton.mp last]
                  exact inactive_of_named (by decide)
    · cases found
  · split at found
    · cases found
    · rename_i high first
      obtain ⟨long, hex⟩ := hexNumber_some first
      have short : ∀ c ∈ ('u' :: s).take 5, ¬ Active c := by
        intro c member
        rcases List.mem_cons.mp member with rfl | digit
        · exact letter
        · exact inactive_of_hex (hex c digit)
      split at found
      · cases found
        exact .several (by omega) (by simp only [List.length_cons]; omega) short
      · rename_i low second
        obtain ⟨long', hex'⟩ := hexNumber_some second
        split at found
        · rename_i pair
          cases found
          rw [List.length_drop] at long'
          apply Consumes.several (by omega) (by simp only [List.length_cons]; omega)
          intro c member
          have taken : ('u' :: s).take 11 =
              ('u' :: s).take 5 ++ ((s.drop 4).take 2 ++ (s.drop 6).take 4) := by
            have split : ∀ (a b : Nat) (l : List Char), l.take (a + b) = l.take a ++ (l.drop a).take b :=
              fun a b l => List.take_add
            rw [split 5 6, split 2 4 (('u' :: s).drop 5), List.drop_drop]
            rfl
          rw [taken, pair.1] at member
          rcases List.mem_append.mp member with first | rest
          · exact short c first
          · rcases List.mem_append.mp rest with middle | digit
            · rcases List.mem_cons.mp middle with rfl | last
              · exact inactive_of_named (by decide)
              · rw [List.mem_singleton.mp last]
                exact letter
            · exact inactive_of_hex (hex' c digit)
        · cases found
          exact .several (by omega) (by simp only [List.length_cons]; omega) short

theorem single_active {c : Char} (active : Active c) : single c = [c] := by
  have other : ∀ d ∈ "xu\x7b\x7d\\\r\n\u2028\u2029btnvfr".toList, c ≠ d := fun d member same =>
    active.named (same ▸ member)
  simp only [single, other 'b' (by decide), other 't' (by decide), other 'n' (by decide),
    other 'v' (by decide), other 'f' (by decide), other 'r' (by decide), other '\n' (by decide),
    other '\u2028' (by decide), other '\u2029' (by decide), if_false, or_self]

theorem length_single (c : Char) : (single c).length ≤ 1 := by
  unfold single
  repeat' split
  all_goals exact Nat.le_of_ble_eq_true rfl

/-- What an escape reads. -/
theorem escape_consumes (found : escape s = some (e, n)) : Consumes Active s e n := by
  cases s with
  | nil => cases found
  | cons c s =>
      rw [escape] at found
      split at found
      · rename_i letter
        subst letter
        obtain ⟨m, first, same⟩ := Option.map_eq_some_iff.mp found
        cases same
        obtain ⟨long, hex⟩ := hexNumber_some first
        apply Consumes.several (by omega) (by simp only [List.length_cons]; omega)
        intro d member
        rcases List.mem_cons.mp member with rfl | digit
        · exact inactive_of_named (by decide)
        · exact inactive_of_hex (hex d digit)
      · split at found
        · rename_i letter
          subst letter
          exact unicodeEscape_consumes found
        · split at found
          · rename_i octal
            extract_lets digits at found
            cases found
            have start : digits <+: c :: s :=
              (List.takeWhile_prefix _).trans (List.take_prefix _ _)
            have first : digits ≠ [] := by
              intro none
              have here : ((c :: s).take (if c ≤ '3' then 3 else 2)).takeWhile isOctal = [] := none
              split at here
              · simp only [List.take_succ_cons, List.takeWhile_cons, octal, if_true] at here
                cases here
              · simp only [List.take_succ_cons, List.takeWhile_cons, octal, if_true] at here
                cases here
            apply Consumes.several (List.length_pos_iff.mpr first) start.length_le
            rw [← List.prefix_iff_eq_take.mp start]
            intro d member active
            exact Bool.false_ne_true (active.octal.symm.trans (List.mem_takeWhile_imp member))
          · split at found
            · rename_i cr
              subst cr
              cases found
              refine ⟨Nat.zero_le 1, by split <;> omega, ?_, .inr ?_⟩
              · cases s with
                | nil => exact Nat.le_refl 1
                | cons d s =>
                    simp only [List.length_cons]
                    split <;> omega
              · intro d member
                have inside : d = '\r' ∨ d = '\n' := by
                  split at member
                  · rename_i newline
                    cases s with
                    | nil => cases newline
                    | cons e s =>
                        obtain rfl : e = '\n' := Option.some.inj newline
                        simpa using member
                  · exact .inl (List.mem_singleton.mp member)
                rcases inside with rfl | rfl
                · exact inactive_of_named (by decide)
                · exact inactive_of_named (by decide)
            · cases found
              refine ⟨length_single c, Nat.le_refl 1, by simp, .inl ⟨rfl, ?_⟩⟩
              intro d first active
              cases first
              exact single_active active

end Laws

end NetProg.Script
