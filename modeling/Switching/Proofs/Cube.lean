import Mathlib.Data.List.Forall2
import Switching.Implicant
import Switching.Proofs.Digits

/-! Patterns as cubes: a pattern stands for the digit lists that it admits, and the minterms that it
covers are the numbers with these digits. Two patterns merge exactly if they are the halves of a
cube, and the merged pattern is that cube. -/
namespace Switching

namespace Trit

theorem admits_ofBool (b c : Bool) : (ofBool b).admits c = true ↔ c = b := by
  cases b <;> cases c <;> decide

theorem isDash_ofBool (b : Bool) : (ofBool b).isDash = false := by cases b <;> rfl

theorem isDash_iff {t : Trit} : t.isDash = true ↔ t = dash := by cases t <;> decide

theorem exists_admits (t : Trit) : ∃ b, t.admits b = true := by
  cases t with
  | zero => exact ⟨false, rfl⟩
  | one => exact ⟨true, rfl⟩
  | dash => exact ⟨true, rfl⟩

theorem eq_ofBool {t : Trit} (h : t ≠ dash) : ∃ b, t = ofBool b := by
  cases t with
  | zero => exact ⟨false, rfl⟩
  | one => exact ⟨true, rfl⟩
  | dash => exact absurd rfl h

end Trit

namespace Pattern

/-- The digits are allowed at every position. -/
def Admits : Pattern → List Bool → Prop := List.Forall₂ fun t b => t.admits b = true

theorem Admits.length {p : Pattern} {bs : List Bool} (h : p.Admits bs) : bs.length = p.length :=
  (List.Forall₂.length_eq h).symm

theorem fits_iff_admits {p : Pattern} {bs : List Bool} (same : p.length = bs.length) :
    p.fits bs = true ↔ p.Admits bs := by
  induction p generalizing bs with
  | nil =>
    cases bs with
    | nil => exact ⟨fun _ => .nil, fun _ => rfl⟩
    | cons b bs => cases same
  | cons t ts ih =>
    cases bs with
    | nil => cases same
    | cons b bs =>
      rw [fits, Bool.and_eq_true, ih (Nat.succ.inj same)]
      constructor
      · rintro ⟨hb, ht⟩
        exact .cons hb ht
      · intro h
        cases h with
        | cons hb ht => exact ⟨hb, ht⟩

theorem covers_iff_admits {p : Pattern} {m : Nat} (h : m < 2 ^ p.length) :
    p.covers m = true ↔ p.Admits (lastDigits p.length m) := by
  rw [covers, binaryField_eq_lastDigits h, fits_iff_admits (length_lastDigits ..).symm]

theorem covers_numberOf {p : Pattern} {bs : List Bool} (h : bs.length = p.length) :
    p.covers (numberOf bs) = true ↔ p.Admits bs := by
  have bound : numberOf bs < 2 ^ p.length := h ▸ numberOf_lt bs
  rw [covers_iff_admits bound, ← h, lastDigits_numberOf]

theorem covers_numberOf_eq {p : Pattern} {bs : List Bool} (same : p.length = bs.length) :
    p.covers (numberOf bs) = p.fits bs := by
  rw [Bool.eq_iff_iff, fits_iff_admits same, covers_numberOf same.symm]

theorem admits_append {front back : Pattern} {bs : List Bool} :
    (front ++ back).Admits bs ↔
      ∃ xs ys, bs = xs ++ ys ∧ front.Admits xs ∧ back.Admits ys := by
  constructor
  · intro h
    refine ⟨bs.take front.length, bs.drop front.length, (List.take_append_drop ..).symm, ?_, ?_⟩
    · exact List.forall₂_take_append bs front back h.flip |>.flip
    · exact List.forall₂_drop_append bs front back h.flip |>.flip
  · rintro ⟨xs, ys, rfl, hx, hy⟩
    exact List.rel_append hx hy

theorem admits_insert {front back : Pattern} {t : Trit} {bs : List Bool} :
    (front ++ t :: back).Admits bs ↔
      ∃ xs b ys, bs = xs ++ b :: ys ∧ front.Admits xs ∧ t.admits b = true ∧ back.Admits ys := by
  rw [admits_append]
  constructor
  · rintro ⟨xs, ys, rfl, hx, hy⟩
    obtain ⟨b, zs, hb, hz, rfl⟩ := List.forall₂_cons_left_iff.mp hy
    exact ⟨xs, b, zs, rfl, hx, hb, hz⟩
  · rintro ⟨xs, b, zs, rfl, hx, hb, hz⟩
    exact ⟨xs, b :: zs, rfl, hx, .cons hb hz⟩

/-- A cube is the union of its halves. -/
theorem admits_dash {front back : Pattern} {bs : List Bool} (b : Bool) :
    (front ++ .dash :: back).Admits bs ↔
      (front ++ .ofBool b :: back).Admits bs ∨ (front ++ .ofBool (!b) :: back).Admits bs := by
  simp only [admits_insert, Trit.admits_ofBool]
  constructor
  · rintro ⟨xs, c, ys, rfl, hx, _, hy⟩
    by_cases hc : c = b
    · exact Or.inl ⟨xs, c, ys, rfl, hx, hc, hy⟩
    · exact Or.inr ⟨xs, c, ys, rfl, hx, Bool.eq_not.mpr hc, hy⟩
  · rintro (⟨xs, c, ys, rfl, hx, _, hy⟩ | ⟨xs, c, ys, rfl, hx, _, hy⟩)
    · exact ⟨xs, c, ys, rfl, hx, rfl, hy⟩
    · exact ⟨xs, c, ys, rfl, hx, rfl, hy⟩

theorem exists_admits (p : Pattern) : ∃ bs, p.Admits bs := by
  induction p with
  | nil => exact ⟨[], .nil⟩
  | cons t ts ih =>
    obtain ⟨b, hb⟩ := t.exists_admits
    obtain ⟨bs, hbs⟩ := ih
    exact ⟨b :: bs, .cons hb hbs⟩

theorem exists_covers (p : Pattern) : ∃ m < 2 ^ p.length, p.covers m = true := by
  obtain ⟨bs, hbs⟩ := p.exists_admits
  exact ⟨numberOf bs, hbs.length ▸ numberOf_lt bs, (covers_numberOf hbs.length).mpr hbs⟩

theorem admits_ofBools {bs cs : List Bool} : Admits (bs.map Trit.ofBool) cs ↔ cs = bs := by
  induction bs generalizing cs with
  | nil => exact List.forall₂_nil_left_iff
  | cons b bs ih =>
    constructor
    · intro h
      obtain ⟨c, rest, hc, hrest, rfl⟩ := List.forall₂_cons_left_iff.mp h
      rw [(Trit.admits_ofBool b c).mp hc, ih.mp hrest]
    · rintro rfl
      exact .cons ((Trit.admits_ofBool b b).mpr rfl) (ih.mpr rfl)

def unbound (n : Nat) : Pattern := List.replicate n .dash

theorem fits_unbound (n : Nat) (bs : List Bool) : (unbound n).fits bs = true := by
  induction n generalizing bs with
  | zero => cases bs <;> rfl
  | succ n ih =>
    cases bs with
    | nil => rfl
    | cons b bs => exact ih bs

theorem eq_unbound {p : Pattern} (none : p.literals = 0) : p = unbound p.length := by
  refine List.eq_replicate_of_mem fun t ht => Trit.isDash_iff.mp ?_
  simpa using List.countP_eq_zero.mp none t ht

theorem covers_of_literals_eq_zero {p : Pattern} (none : p.literals = 0) (m : Nat) :
    p.covers m = true := by
  have fits := fits_unbound p.length (binaryField p.length m)
  rwa [← eq_unbound none] at fits

def dashes (p : Pattern) : Nat := p.count .dash

theorem dashes_le_length (p : Pattern) : p.dashes ≤ p.length := List.count_le_length

theorem dashes_ofBools (bs : List Bool) : dashes (bs.map Trit.ofBool) = 0 := by
  refine List.count_eq_zero.mpr fun member => ?_
  obtain ⟨b, _, same⟩ := List.mem_map.mp member
  cases b <;> cases same

theorem dashes_half (front back : Pattern) (b : Bool) :
    dashes (front ++ .dash :: back) = dashes (front ++ .ofBool b :: back) + 1 := by
  cases b <;> simp [dashes, Trit.ofBool, List.count_append, Nat.add_assoc]

theorem dashes_unbound (n : Nat) : (unbound n).dashes = n := List.count_replicate_self

/-- Two patterns merge exactly if they are the halves of a cube. -/
theorem merge?_eq_some_iff {p q r : Pattern} :
    p.merge? q = some r ↔
      ∃ front b back, p = front ++ .ofBool b :: back ∧ q = front ++ .ofBool (!b) :: back ∧
        r = front ++ .dash :: back := by
  constructor
  · intro h
    induction p generalizing q r with
    | nil => cases h
    | cons t ts ih =>
      cases q with
      | nil => cases h
      | cons u us =>
        rw [merge?] at h
        split at h
        · rename_i same
          obtain ⟨s, hs, rfl⟩ := Option.map_eq_some_iff.mp h
          obtain ⟨front, b, back, rfl, rfl, rfl⟩ := ih hs
          exact ⟨t :: front, b, back, rfl, by rw [same]; rfl, rfl⟩
        · rename_i distinct
          split at h
          · cases h
          · rename_i fixed
            split at h
            · rename_i tails
              obtain ⟨ht, hu⟩ : t ≠ .dash ∧ u ≠ .dash := by
                simpa [← Trit.isDash_iff] using fixed
              obtain ⟨b, rfl⟩ := Trit.eq_ofBool ht
              obtain ⟨c, rfl⟩ := Trit.eq_ofBool hu
              have flipped : c = !b := Bool.eq_not.mpr fun same => distinct (by rw [same])
              refine ⟨[], b, ts, rfl, ?_, (Option.some.inj h).symm⟩
              rw [tails, flipped]
              rfl
            · cases h
  · rintro ⟨front, b, back, rfl, rfl, rfl⟩
    induction front with
    | nil => cases b <;> simp [merge?, Trit.ofBool, Trit.isDash]
    | cons t ts ih => simp [merge?, ih]

end Pattern

end Switching
