import Mathlib.Data.Fin.VecNotation
import NetProg.Socks.Firewall

/-!
# Patterns against addresses

A star is translated to `.*`, which matches dots as well.  But the three dots of a pattern need the
three dots of the address, so none is left for a star, and every component meets the number in its
own place.
-/

namespace NetProg

/-- The component as a glob whose stars stand for digits, possibly none. -/
def Glob (component number : Text) : Prop :=
  ∃ runs, (∀ run ∈ runs, ∀ c ∈ run, c.isDigit) ∧
    Wildcard.Fills (component.map wildcardOf) runs number

namespace Firewall

variable {regexMatch : Text → Text → Option Bool} {p : RulePattern} {address : UInt32}

/-- The number of an octet has digits only. -/
theorem isDigit_octet (o : Fin 256) : ∀ c ∈ Text.decimal o.val, c.isDigit := by
  intro c member
  have digits : "0123456789".toList.all Char.isDigit = true := by decide
  exact List.all_eq_true.mp digits c ((decimal_octet o).2.1 c member)

theorem glob_iff (component : Text) (o : Fin 256) : Glob component (Text.decimal o.val) ↔
    Wildcard.matchAll (fun _ => true) (component.map wildcardOf) (Text.decimal o.val) = true := by
  rw [← Wildcard.matchAll_allowed (isDigit_octet o)]
  exact Wildcard.matchAll_iff_fills.symm

/-- Whatever stands for the stars, a component meets the number in its place. -/
theorem aligned {runs : List Text}
    (fills : Wildcard.Fills (p.text.map wildcardOf) runs (dotted address)) :
    ∃ part : Fin 4 → List Text, runs = part 0 ++ (part 1 ++ (part 2 ++ part 3)) ∧
      ∀ i, Wildcard.Fills ((p.components i).map wildcardOf) (part i)
        (Text.decimal (octet address i)) := by
  have dotless : ∀ i, '.' ∉ Text.decimal (octet address i).val := fun i =>
    (decimal_octet (octet address i)).1
  have count : ∀ i, (Text.decimal (octet address i).val).count '.' = 0 := fun i =>
    List.count_eq_zero.mpr (dotless i)
  have letterless : ∀ i, ((p.components i).map wildcardOf).count (.letter '.') = 0 := p.dotless
  have dot : wildcardOf '.' = .letter '.' := rfl
  simp only [RulePattern.text, dotted, List.map_append, List.map_cons, dot] at fills
  obtain ⟨first, runs, rfl, fills0, fills⟩ := fills.separated (dotless 0)
    (by simp only [List.count_append, List.count_cons_self, count, letterless])
  obtain ⟨second, runs, rfl, fills1, fills⟩ := fills.separated (dotless 1)
    (by simp only [List.count_append, List.count_cons_self, count, letterless])
  obtain ⟨third, fourth, rfl, fills2, fills3⟩ := fills.separated (dotless 2)
    (by rw [count, letterless])
  refine ⟨![first, second, third, fourth], rfl, fun i => ?_⟩
  have four : i = 0 ∨ i = 1 ∨ i = 2 ∨ i = 3 := by omega
  rcases four with rfl | rfl | rfl | rfl
  · exact fills0
  · exact fills1
  · exact fills2
  · exact fills3

/-- A rule matches an address octet by octet: each component is a glob for the number in its place,
and in no way of matching does a star take a dot or a part of another number. -/
theorem octet_by_octet (ecma : EcmaScript regexMatch) (p : RulePattern) (address : UInt32) :
    (∃ verdict, regexMatch (convertToRegexPattern p.text) (dotted address) = some verdict ∧
      (verdict = true ↔ ∀ i, Glob (p.components i) (Text.decimal (octet address i)))) ∧
    ∀ runs, Wildcard.Fills (p.text.map wildcardOf) runs (dotted address) →
      (∀ run ∈ runs, '.' ∉ run) ∧
      ∃ part : Fin 4 → List Text, runs = part 0 ++ (part 1 ++ (part 2 ++ part 3)) ∧
        ∀ i, Wildcard.Fills ((p.components i).map wildcardOf) (part i)
          (Text.decimal (octet address i)) := by
  constructor
  · refine ⟨_, by rw [convertToRegexPattern_eq, ecma _ p.letters], ?_⟩
    rw [matchAll_text]
    exact forall_congr' fun i => (glob_iff _ _).symm
  · intro runs fills
    obtain ⟨part, rfl, parts⟩ := aligned fills
    refine ⟨fun run member dot => ?_, part, rfl, parts⟩
    have inside : ∃ i, run ∈ part i := by
      simp only [List.mem_append] at member
      rcases member with first | second | third | fourth
      · exact ⟨0, first⟩
      · exact ⟨1, second⟩
      · exact ⟨2, third⟩
      · exact ⟨3, fourth⟩
    obtain ⟨i, inside⟩ := inside
    exact (decimal_octet (octet address i)).1 ((parts i).subset inside dot)

theorem octet_by_octet_any :
    (∃ verdict, plainMatch (convertToRegexPattern anyPattern.text) (dotted 0x8C710001) = some verdict ∧
      (verdict = true ↔
        ∀ i, Glob (anyPattern.components i) (Text.decimal (octet 0x8C710001 i)))) ∧
    ∀ runs, Wildcard.Fills (anyPattern.text.map wildcardOf) runs (dotted 0x8C710001) →
      (∀ run ∈ runs, '.' ∉ run) ∧
      ∃ part : Fin 4 → List Text, runs = part 0 ++ (part 1 ++ (part 2 ++ part 3)) ∧
        ∀ i, Wildcard.Fills ((anyPattern.components i).map wildcardOf) (part i)
          (Text.decimal (octet 0x8C710001 i)) :=
  octet_by_octet ecmaScript_plainMatch anyPattern 0x8C710001

end Firewall

end NetProg
