import Switching.Proofs.OrderedSet
import Switching.Proofs.PrimePattern

/-! When two cubes merge. A cube has two to the power of its dashes as its number of minterms, so
two cubes that have nothing in common, are equally large and make up a cube together are its halves;
and the halves of a cube are all of this. -/
namespace Switching

namespace Pattern

variable {p q r : Pattern} {n : Nat}

theorem covers_cons {t : Trit} {ts : Pattern} (b : Bool) {m : Nat} (hm : m < 2 ^ ts.length) :
    covers (t :: ts) (2 ^ ts.length * b.toNat + m) = (t.admits b && ts.covers m) := by
  have digits := length_lastDigits ts.length m
  have number := numberOf_lastDigits_of_lt hm
  have longer : numberOf (b :: lastDigits ts.length m) = 2 ^ ts.length * b.toNat + m := by
    rw [numberOf, digits, number]
  rw [← longer, covers_numberOf_eq (by simp), fits, ← covers_numberOf_eq digits.symm, number]

theorem minterms_cons (t : Trit) (ts : Pattern) :
    minterms (ts.length + 1) (t :: ts) =
      (if t.admits false then ts.minterms ts.length else []) ++
        if t.admits true then (ts.minterms ts.length).map (2 ^ ts.length + ·) else [] := by
  have low : ∀ m ∈ List.range (2 ^ ts.length),
      covers (t :: ts) m = (t.admits false && ts.covers m) :=
    fun m hm => by simpa using covers_cons false (List.mem_range.mp hm)
  have high : ∀ m ∈ List.range (2 ^ ts.length),
      covers (t :: ts) (2 ^ ts.length + m) = (t.admits true && ts.covers m) :=
    fun m hm => by simpa using covers_cons true (List.mem_range.mp hm)
  rw [minterms, Nat.pow_succ, Nat.mul_two, List.range_add, List.filter_append, List.filter_map,
    List.filter_congr low, Function.comp_def, List.filter_congr high, minterms]
  cases t <;> simp [Trit.admits]

theorem length_minterms (length : p.length = n) : (p.minterms n).length = 2 ^ p.dashes := by
  induction p generalizing n with
  | nil =>
    cases length
    rfl
  | cons t ts ih =>
    have ih := ih rfl
    rw [← length, List.length_cons, minterms_cons, List.length_append]
    cases t with
    | zero => simp [Trit.admits, dashes, ih]
    | one => simp [Trit.admits, dashes, ih]
    | dash => simp [Trit.admits, dashes, ih, Nat.pow_succ, Nat.mul_two]

theorem numberOf_mem_minterms (length : p.length = n) {bs : List Bool} (same : bs.length = n) :
    numberOf bs ∈ p.minterms n ↔ p.Admits bs := by
  rw [mem_minterms, covers_numberOf (same.trans length.symm)]
  exact and_iff_right (same ▸ numberOf_lt bs)

theorem dashes_le_of_admits (same : p.length = q.length) (sub : ∀ bs, p.Admits bs → q.Admits bs) :
    p.dashes ≤ q.dashes := by
  have inside : p.minterms p.length ⊆ q.minterms q.length := by
    intro m hm
    obtain ⟨bound, covers⟩ := mem_minterms.mp hm
    rw [covers_iff_admits bound] at covers
    rw [mem_minterms, ← same, covers_iff_admits (same ▸ bound), ← same]
    exact ⟨bound, sub _ covers⟩
  have nodup : (p.minterms p.length).Nodup := (p.pairwise_minterms _).imp Nat.ne_of_lt
  have fewer := (List.subperm_of_subset nodup inside).length_le
  rw [length_minterms rfl, length_minterms rfl] at fewer
  exact (Nat.pow_le_pow_iff_right (by decide)).mp fewer

theorem not_admits_half {front back : Pattern} {b : Bool} {bs : List Bool}
    (half : Admits (front ++ .ofBool b :: back) bs) :
    ¬Admits (front ++ .ofBool (!b) :: back) bs := by
  intro other
  obtain ⟨xs, c, ys, rfl, first, digit, _⟩ := admits_insert.mp half
  obtain ⟨xs', c', ys', same, first', digit', _⟩ := admits_insert.mp other
  obtain ⟨_, rest⟩ := List.append_inj same (first.length.trans first'.length.symm)
  cases rest
  rw [Trit.admits_ofBool] at digit digit'
  exact (Bool.eq_not_self b).mp (digit.symm.trans digit')

/-- Cubes that have nothing in common, are equally large and make up a cube are its halves. -/
theorem exists_merge? (lengthP : p.length = r.length) (lengthQ : q.length = r.length)
    (apart : ∀ bs, p.Admits bs → ¬q.Admits bs) (large : p.dashes = q.dashes)
    (whole : ∀ bs, r.Admits bs ↔ p.Admits bs ∨ q.Admits bs) : ∃ s, p.merge? q = some s := by
  have proper : p ≠ r := by
    rintro rfl
    obtain ⟨bs, admits⟩ := exists_admits q
    exact apart bs ((whole bs).mpr (.inr admits)) admits
  -- the first cube is half of a larger one inside the whole, and the second is the other half
  obtain ⟨front, b, back, rfl, larger⟩ : ∃ front b back, p = front ++ .ofBool b :: back ∧
      ∀ bs, Admits (front ++ .dash :: back) bs → r.Admits bs := by
    by_contra none
    push Not at none
    refine proper (eq_of_maximal lengthP (fun bs hp => (whole bs).mpr (.inl hp)) ?_)
    rintro front b back same inside
    obtain ⟨bs, admits, outside⟩ := none front b back same
    exact outside (inside bs admits)
  have length : (front ++ .ofBool (!b) :: back).length = q.length := by
    rw [lengthQ, ← lengthP]
    simp
  have inside : ∀ bs, Admits (front ++ .ofBool (!b) :: back) bs → q.Admits bs := by
    intro bs half
    have part := (whole bs).mp (larger bs ((admits_dash b).mpr (.inr half)))
    exact part.resolve_left fun first => not_admits_half first half
  have other : front ++ .ofBool (!b) :: back = q := by
    refine eq_of_maximal length inside fun front' c back' same beyond => ?_
    have longer : (front' ++ .dash :: back').length = q.length := by
      rw [← length, same]
      simp
    have fewer := dashes_le_of_admits longer beyond
    have one := dashes_half front' back' c
    have two := dashes_half front back b
    have three := dashes_half front back (!b)
    rw [← same] at one
    omega
  exact ⟨_, merge?_eq_some_iff.mpr ⟨front, b, back, rfl, other.symm, rfl⟩⟩

theorem of_merge? (length : p.length = n) (merged : p.merge? q = some r) :
    r.length = n ∧ (p.minterms n).Disjoint (q.minterms n) ∧
      (p.minterms n).length = (q.minterms n).length ∧
      ∀ m, m ∈ r.minterms n ↔ m ∈ p.minterms n ∨ m ∈ q.minterms n := by
  obtain ⟨front, b, back, rfl, rfl, rfl⟩ := merge?_eq_some_iff.mp merged
  have first : (front ++ .ofBool b :: back).length = (front ++ .dash :: back).length := by simp
  have second : (front ++ .ofBool (!b) :: back).length = (front ++ .dash :: back).length := by simp
  have whole : (front ++ .dash :: back).length = n := first.symm.trans length
  subst whole
  refine ⟨rfl, fun m hp hq => ?_, ?_, fun m => ?_⟩
  · obtain ⟨bound, covers⟩ := mem_minterms.mp hp
    rw [covers_iff_admits (first ▸ bound), first] at covers
    have covers' := (mem_minterms.mp hq).2
    rw [covers_iff_admits (second ▸ bound), second] at covers'
    exact not_admits_half covers covers'
  · have one := dashes_half front back b
    have two := dashes_half front back (!b)
    rw [length_minterms first, length_minterms second]
    exact congrArg (2 ^ ·) (Nat.succ.inj (one.symm.trans two))
  · simp only [mem_minterms, ← and_or_left]
    exact and_congr_right fun bound => covers_dash b bound

theorem exists_merge?_iff (lengthP : p.length = n) (lengthQ : q.length = n) :
    (∃ s, p.merge? q = some s) ↔
      (p.minterms n).Disjoint (q.minterms n) ∧
      (p.minterms n).length = (q.minterms n).length ∧
      ∃ r : Pattern, r.length = n ∧
        ∀ m, m ∈ r.minterms n ↔ m ∈ p.minterms n ∨ m ∈ q.minterms n := by
  constructor
  · rintro ⟨s, merged⟩
    obtain ⟨length, apart, large, whole⟩ := of_merge? lengthP merged
    exact ⟨apart, large, s, length, whole⟩
  · rintro ⟨apart, large, r, length, whole⟩
    apply exists_merge? (lengthP.trans length.symm) (lengthQ.trans length.symm)
    · intro bs hp hq
      have same := hp.length.trans lengthP
      exact apart ((numberOf_mem_minterms lengthP same).mpr hp)
        ((numberOf_mem_minterms lengthQ same).mpr hq)
    · rw [length_minterms lengthP, length_minterms lengthQ] at large
      exact Nat.pow_right_injective (Nat.le_refl 2) large
    · intro bs
      by_cases same : bs.length = n
      · rw [← numberOf_mem_minterms length same, ← numberOf_mem_minterms lengthP same,
          ← numberOf_mem_minterms lengthQ same]
        exact whole _
      · -- digits of another number are admitted by none of the three
        refine iff_of_false (fun hr => same (hr.length.trans length)) ?_
        rintro (hp | hq)
        · exact same (hp.length.trans lengthP)
        · exact same (hq.length.trans lengthQ)

theorem merge?_comm (p q : Pattern) : p.merge? q = q.merge? p := by
  have swap : ∀ {p q r : Pattern}, p.merge? q = some r → q.merge? p = some r := by
    intro p q r merged
    obtain ⟨front, b, back, rfl, rfl, rfl⟩ := merge?_eq_some_iff.mp merged
    exact merge?_eq_some_iff.mpr ⟨front, !b, back, rfl, by rw [Bool.not_not], rfl⟩
  exact Option.ext fun r => ⟨swap, swap⟩

end Pattern

namespace Implicant

variable {n : Nat} {i j : Implicant}

theorem merge?_comm (i j : Implicant) : i.merge? j = j.merge? i := by
  have minterms : orderedSet (i.minterms ++ j.minterms) = orderedSet (j.minterms ++ i.minterms) :=
    orderedSet_eq (pairwise_orderedSet _) fun x => by simp [mem_orderedSet, or_comm]
  rw [merge?, merge?, Pattern.merge?_comm, minterms]

/-- Two implicants merge exactly if the minterms of their patterns are disjoint, equally many, and
together those of some pattern. They are those of the merged pattern then, and the order of the two
implicants does not matter. -/
theorem merges_iff_halves (lengthI : i.pattern.length = n) (lengthJ : j.pattern.length = n) :
    ((∃ k, i.merge? j = some k) ↔
      (i.pattern.minterms n).Disjoint (j.pattern.minterms n) ∧
      (i.pattern.minterms n).length = (j.pattern.minterms n).length ∧
      ∃ r : Pattern, r.length = n ∧
        ∀ m, m ∈ r.minterms n ↔ m ∈ i.pattern.minterms n ∨ m ∈ j.pattern.minterms n) ∧
    (∀ k, i.merge? j = some k → k.pattern.length = n ∧
      ∀ m, m ∈ k.pattern.minterms n ↔ m ∈ i.pattern.minterms n ∨ m ∈ j.pattern.minterms n) ∧
    i.merge? j = j.merge? i := by
  refine ⟨?_, fun k merged => ?_, merge?_comm i j⟩
  · rw [← Pattern.exists_merge?_iff lengthI lengthJ]
    simp [merge?, Option.map_eq_some_iff]
  · obtain ⟨r, patterns, rfl⟩ := Option.map_eq_some_iff.mp merged
    obtain ⟨length, _, _, whole⟩ := Pattern.of_merge? lengthI patterns
    exact ⟨length, whole⟩

/-- `0-1` and `1-1` are the halves of `--1`; `0-1` and `-10` are disjoint and equally large, too,
but make up no cube. -/
theorem merges_iff_halves_shared :
    let i : Implicant := ⟨.ofText "0-1", [3, 1], false⟩
    let j : Implicant := ⟨.ofText "1-1", [5, 7], true⟩
    let k : Implicant := ⟨.ofText "-10", [], false⟩
    i.merge? j = some ⟨.ofText "--1", [1, 3, 5, 7], false⟩ ∧ j.merge? i = i.merge? j ∧
    (i.pattern.minterms 3).Disjoint (j.pattern.minterms 3) ∧
    (i.pattern.minterms 3).Disjoint (k.pattern.minterms 3) ∧
    (i.pattern.minterms 3).length = (k.pattern.minterms 3).length ∧
    ¬∃ r : Pattern, r.length = 3 ∧
      ∀ m, m ∈ r.minterms 3 ↔ m ∈ i.pattern.minterms 3 ∨ m ∈ k.pattern.minterms 3 := by
  intro i j k
  have merged : i.merge? j = some ⟨.ofText "--1", [1, 3, 5, 7], false⟩ := by decide
  obtain ⟨halves, _, swapped⟩ := merges_iff_halves (n := 3) (i := i) (j := j) rfl rfl
  obtain ⟨apart, _⟩ := halves.mp ⟨_, merged⟩
  obtain ⟨others, _⟩ := merges_iff_halves (n := 3) (i := i) (j := k) rfl rfl
  have outside : ∀ m ∈ i.pattern.minterms 3, m ∉ k.pattern.minterms 3 := by decide
  have disjoint : (i.pattern.minterms 3).Disjoint (k.pattern.minterms 3) := fun m => outside m
  have large : (i.pattern.minterms 3).length = (k.pattern.minterms 3).length := by decide
  refine ⟨merged, swapped.symm, apart, disjoint, large, fun whole => ?_⟩
  obtain ⟨_, joined⟩ := others.mpr ⟨disjoint, large, whole⟩
  have none : i.merge? k = none := by decide
  cases none.symm.trans joined

end Implicant

end Switching
