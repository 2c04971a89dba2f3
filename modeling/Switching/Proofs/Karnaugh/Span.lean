import Mathlib.Data.List.Nodup
import Mathlib.Data.List.ProdSigma
import Switching.Karnaugh.Group
import Switching.Proofs.Cube

/-! Cubes on a grid. Along an axis whose positions are numbered by the Gray code of one or two
digits, the cubes are the spans with a power of two as their length. A cube of the grid is a cube of
its rows times a cube of its columns. -/
namespace Switching

namespace Pattern

def all : Nat → List Pattern
  | 0 => [[]]
  | n + 1 => [Trit.zero, .one, .dash].flatMap fun t => (all n).map (t :: ·)

theorem mem_all {n : Nat} {p : Pattern} : p ∈ all n ↔ p.length = n := by
  induction n generalizing p with
  | zero => simp [all]
  | succ n ih =>
    cases p with
    | nil => simp [all]
    | cons t ts =>
      cases t <;> simp [all, ih]

theorem fits_append {p q : Pattern} {bs cs : List Bool} (same : bs.length = p.length) :
    (p ++ q).fits (bs ++ cs) = (p.fits bs && q.fits cs) := by
  induction p generalizing bs with
  | nil =>
    have nil : bs = [] := List.length_eq_zero_iff.mp same
    simp [nil, fits]
  | cons t ts ih =>
    cases bs with
    | nil => cases same
    | cons b bs => simp [fits, ih (Nat.succ.inj same), Bool.and_assoc]

theorem fits_ofBools {bs cs : List Bool} (same : cs.length = bs.length) :
    fits (bs.map Trit.ofBool) cs = true ↔ cs = bs := by
  rw [fits_iff_admits (by rw [List.length_map, same]), admits_ofBools]

theorem literalsOver_unbound (n : Nat) (names : List String) :
    (unbound n).literalsOver names = [] := by
  rw [literalsOver, List.filterMap_eq_nil_iff]
  rintro ⟨name, t⟩ listed
  rw [List.eq_of_mem_replicate (List.of_mem_zip listed).2]

end Pattern

section Cubes

variable {α β : Type} {digits : α → List Bool} {field places : List α} {p : Pattern}

/-- The places are those of the field at which the pattern fits the digits, once each; every dash
doubles their number. -/
structure IsCube (digits : α → List Bool) (field places : List α) (p : Pattern) : Prop where
  nodup : places.Nodup
  size : places.length = 2 ^ p.dashes
  inside : ∀ x ∈ places, x ∈ field
  mem : ∀ x ∈ field, x ∈ places ↔ p.fits (digits x) = true

instance [DecidableEq α] : Decidable (IsCube digits field places p) :=
  decidable_of_iff (places.Nodup ∧ places.length = 2 ^ p.dashes ∧ (∀ x ∈ places, x ∈ field) ∧
      ∀ x ∈ field, x ∈ places ↔ p.fits (digits x) = true)
    ⟨fun ⟨nodup, size, inside, mem⟩ => ⟨nodup, size, inside, mem⟩,
      fun ⟨nodup, size, inside, mem⟩ => ⟨nodup, size, inside, mem⟩⟩

theorem IsCube.product {digits' : β → List Bool} {field' places' : List β} {q : Pattern}
    (first : IsCube digits field places p) (second : IsCube digits' field' places' q)
    (length : ∀ x ∈ field, (digits x).length = p.length) :
    IsCube (fun x : α × β => digits x.1 ++ digits' x.2) (field ×ˢ field') (places ×ˢ places')
      (p ++ q) where
  nodup := List.Nodup.product first.nodup second.nodup
  size := by
    rw [List.length_product, first.size, second.size, Pattern.dashes, Pattern.dashes,
      Pattern.dashes, List.count_append, Nat.pow_add]
  inside x hx := by
    obtain ⟨hr, hc⟩ := List.mem_product.mp hx
    exact List.mem_product.mpr ⟨first.inside _ hr, second.inside _ hc⟩
  mem x hx := by
    obtain ⟨r, c⟩ := x
    obtain ⟨hr, hc⟩ := List.mem_product.mp hx
    rw [List.mem_product, first.mem _ hr, second.mem _ hc, Pattern.fits_append (length _ hr),
      Bool.and_eq_true]

end Cubes

def span (count start length : Nat) : List Nat :=
  (List.range length).map fun d => (start + d) % count

def axisDigits (width position : Nat) : List Bool := grayCode width position

theorem isCube_span {width start length : Nat} (axis : width = 1 ∨ width = 2)
    (within : start < 2 ^ width) (short : length ≤ 2 ^ width)
    (power : KarnaughMap.isPowerOfTwo length = true) :
    ∃ p : Pattern, p.length = width ∧
      IsCube (axisDigits width) (List.range (2 ^ width)) (span (2 ^ width) start length) p := by
  have one : ∀ start < 2 ^ 1, ∀ length ≤ 2 ^ 1, KarnaughMap.isPowerOfTwo length = true →
      ∃ p ∈ Pattern.all 1,
        IsCube (axisDigits 1) (List.range (2 ^ 1)) (span (2 ^ 1) start length) p := by
    decide +kernel
  have two : ∀ start < 2 ^ 2, ∀ length ≤ 2 ^ 2, KarnaughMap.isPowerOfTwo length = true →
      ∃ p ∈ Pattern.all 2,
        IsCube (axisDigits 2) (List.range (2 ^ 2)) (span (2 ^ 2) start length) p := by
    decide +kernel
  -- an axis has two or four positions, so all its spans have been tried
  rcases axis with rfl | rfl
  · obtain ⟨p, member, cube⟩ := one start within length short power
    exact ⟨p, Pattern.mem_all.mp member, cube⟩
  · obtain ⟨p, member, cube⟩ := two start within length short power
    exact ⟨p, Pattern.mem_all.mp member, cube⟩

/-- Every cube of an axis is a span. -/
theorem exists_span {width : Nat} {p : Pattern} (axis : width = 1 ∨ width = 2)
    (length : p.length = width) :
    ∃ start < 2 ^ width, IsCube (axisDigits width) (List.range (2 ^ width))
      (span (2 ^ width) start (2 ^ p.dashes)) p := by
  have one : ∀ p ∈ Pattern.all 1, ∃ start < 2 ^ 1,
      IsCube (axisDigits 1) (List.range (2 ^ 1)) (span (2 ^ 1) start (2 ^ p.dashes)) p := by
    decide +kernel
  have two : ∀ p ∈ Pattern.all 2, ∃ start < 2 ^ 2,
      IsCube (axisDigits 2) (List.range (2 ^ 2)) (span (2 ^ 2) start (2 ^ p.dashes)) p := by
    decide +kernel
  rcases axis with rfl | rfl
  · exact one p (Pattern.mem_all.mpr length)
  · exact two p (Pattern.mem_all.mpr length)

end Switching
