import Switching.Proofs.Karnaugh.Map

/-! Rectangles of a map and cubes. Every rectangle is the cube of some pattern, every pattern has a
rectangle as its cube, and the larger rectangles come first. -/
namespace Switching

namespace KarnaughMap

theorem rectangle_eq (m : KarnaughMap) (corner shape : Nat × Nat) :
    m.rectangle corner shape =
      span m.rowCount corner.1 shape.1 ×ˢ span m.columnCount corner.2 shape.2 := by
  simp only [rectangle, span, SProd.sprod, List.product, List.flatMap_map, List.map_map]
  rfl

theorem pos_of_isPowerOfTwo {n : Nat} (h : isPowerOfTwo n = true) : 0 < n := by
  rw [isPowerOfTwo, Bool.and_eq_true, decide_eq_true_eq] at h
  exact h.1

theorem isPowerOfTwo_pow (d : Nat) : isPowerOfTwo (2 ^ d) = true := by
  have disjoint : 2 ^ d &&& (2 ^ d - 1) = 0 := by
    rw [Nat.and_two_pow_sub_one_eq_mod, Nat.mod_self]
  rw [isPowerOfTwo, disjoint, decide_eq_true (Nat.two_pow_pos d)]
  rfl

theorem mem_shapes {m : KarnaughMap} {size height width : Nat} :
    (height, width) ∈ m.shapes size ↔ height * width = size ∧ height ≤ m.rowCount ∧
      width ≤ m.columnCount ∧ isPowerOfTwo height = true ∧ isPowerOfTwo width = true := by
  simp only [shapes, List.mem_filterMap, List.mem_range, Option.ite_none_right_eq_some,
    Option.some.injEq, Prod.mk.injEq, Bool.and_eq_true, decide_eq_true_eq]
  constructor
  · rintro ⟨i, small, ⟨⟨⟨whole, narrow⟩, tall⟩, wide⟩, rfl, rfl⟩
    exact ⟨Nat.mul_div_cancel' (Nat.dvd_of_mod_eq_zero whole),
      Nat.le_trans small (Nat.min_le_right ..), narrow, tall, wide⟩
  · rintro ⟨rfl, low, narrow, tall, wide⟩
    have some := pos_of_isPowerOfTwo tall
    have height_eq : height - 1 + 1 = height := Nat.sub_add_cancel some
    have fits : height ≤ height * width := Nat.le_mul_of_pos_right _ (pos_of_isPowerOfTwo wide)
    have width_eq : height * width / height = width := Nat.mul_div_cancel_left _ some
    refine ⟨height - 1, Nat.lt_min.mpr ⟨by omega, by omega⟩, ?_⟩
    rw [height_eq, width_eq]
    exact ⟨⟨⟨⟨Nat.mul_mod_right .., narrow⟩, tall⟩, wide⟩, rfl, rfl⟩

theorem mem_rectangles {m : KarnaughMap} {places : List (Nat × Nat)} :
    places ∈ m.rectangles ↔ ∃ size ∈ sizes, size ≤ m.places.length ∧ ∃ shape ∈ m.shapes size,
      ∃ corner ∈ m.places, m.rectangle corner shape = places := by
  simp only [rectangles, List.mem_flatMap, List.mem_filter, List.mem_map, decide_eq_true_eq]
  simp only [and_assoc]

theorem length_rectangle (m : KarnaughMap) (corner shape : Nat × Nat) :
    (m.rectangle corner shape).length = shape.1 * shape.2 := by
  rw [rectangle_eq, List.length_product, span, span, List.length_map, List.length_map,
    List.length_range, List.length_range]

theorem pairwise_rectangles (m : KarnaughMap) :
    m.rectangles.Pairwise fun places later => later.length ≤ places.length := by
  have all : ∀ size, ∀ places ∈ (m.shapes size).flatMap fun shape =>
      m.places.map fun corner => m.rectangle corner shape, places.length = size := by
    intro size places member
    obtain ⟨⟨height, width⟩, shape, member⟩ := List.mem_flatMap.mp member
    obtain ⟨corner, _, rfl⟩ := List.mem_map.mp member
    rw [length_rectangle]
    exact (mem_shapes.mp shape).1
  have descending : (sizes.filter (· ≤ m.places.length)).Pairwise fun size later => later ≤ size :=
    List.Pairwise.filter _ (by decide)
  rw [rectangles, List.pairwise_flatMap]
  constructor
  · intro size _
    refine List.pairwise_of_forall_mem_list fun places hp later hl => ?_
    rw [all size places hp, all size later hl]
  · refine descending.imp fun {size smaller} below places hp later hl => ?_
    rw [all size places hp, all smaller later hl]
    exact below

/-- The places of the map that the pattern admits. -/
def Fills (m : KarnaughMap) (a b : Nat) (places : List (Nat × Nat)) (p : Pattern) : Prop :=
  p.length = a + b ∧ IsCube (placeDigits a b) m.places places p

section Cubes

variable {m : KarnaughMap} {a b : Nat} {onSet : List Nat} {places : List (Nat × Nat)} {p : Pattern}

theorem fills_of_spans {rows columns : List Nat} {q : Pattern} (shows : m.Shows a b onSet)
    (first : p.length = a) (second : q.length = b)
    (rowCube : IsCube (axisDigits a) (List.range (2 ^ a)) rows p)
    (columnCube : IsCube (axisDigits b) (List.range (2 ^ b)) columns q) :
    m.Fills a b (rows ×ˢ columns) (p ++ q) := by
  refine ⟨by rw [List.length_append, first, second], ?_⟩
  rw [places_eq, shows.rows, shows.columns]
  refine rowCube.product columnCube fun r hr => ?_
  rw [length_axisDigits (List.mem_range.mp hr), first]

variable (shows : m.Shows a b onSet) (rowAxis : a = 1 ∨ a = 2) (columnAxis : b = 1 ∨ b = 2)

include shows rowAxis columnAxis

theorem exists_pattern (member : places ∈ m.rectangles) : ∃ p, m.Fills a b places p := by
  obtain ⟨size, _, _, ⟨height, width⟩, shape, ⟨r, c⟩, corner, rfl⟩ := mem_rectangles.mp member
  obtain ⟨_, low, narrow, tall, wide⟩ := mem_shapes.mp shape
  rw [mem_places, shows.rows, shows.columns] at corner
  rw [shows.rows] at low
  rw [shows.columns] at narrow
  obtain ⟨p, first, rowCube⟩ := isCube_span rowAxis corner.1 low tall
  obtain ⟨q, second, columnCube⟩ := isCube_span columnAxis corner.2 narrow wide
  rw [rectangle_eq, shows.rows, shows.columns]
  exact ⟨p ++ q, fills_of_spans shows first second rowCube columnCube⟩

theorem exists_rectangle (length : p.length = a + b) :
    ∃ places ∈ m.rectangles, m.Fills a b places p := by
  have first : (p.take a).length = a := by simp [length]
  have second : (p.drop a).length = b := by simp [length]
  -- the row digits of the pattern give the rows, the others the columns
  obtain ⟨r, row, rowCube⟩ := exists_span rowAxis first
  obtain ⟨c, column, columnCube⟩ := exists_span columnAxis second
  have cube := fills_of_spans shows first second rowCube columnCube
  rw [List.take_append_drop] at cube
  have low : Pattern.dashes (p.take a) ≤ a :=
    Nat.le_trans (Pattern.dashes_le_length _) (Nat.le_of_eq first)
  have narrow : Pattern.dashes (p.drop a) ≤ b :=
    Nat.le_trans (Pattern.dashes_le_length _) (Nat.le_of_eq second)
  let shape : Nat × Nat := (2 ^ Pattern.dashes (p.take a), 2 ^ Pattern.dashes (p.drop a))
  have fits : shape.1 ≤ m.rowCount ∧ shape.2 ≤ m.columnCount := by
    rw [shows.rows, shows.columns]
    exact ⟨Nat.pow_le_pow_right (by decide) low, Nat.pow_le_pow_right (by decide) narrow⟩
  have listed : shape.1 * shape.2 ∈ sizes := by
    have powers : ∀ d ≤ 4, 2 ^ d ∈ sizes := by decide
    rw [← Nat.pow_add]
    exact powers _ (by omega)
  have small : shape.1 * shape.2 ≤ m.places.length := by
    rw [places_eq, List.length_product, List.length_range, List.length_range]
    exact Nat.mul_le_mul fits.1 fits.2
  have corner : (r, c) ∈ m.places := by
    rw [mem_places, shows.rows, shows.columns]
    exact ⟨row, column⟩
  refine ⟨m.rectangle (r, c) shape,
    mem_rectangles.mpr ⟨_, listed, small, shape, ?_, _, corner, rfl⟩, ?_⟩
  · exact mem_shapes.mpr ⟨rfl, fits.1, fits.2, isPowerOfTwo_pow _, isPowerOfTwo_pow _⟩
  · rw [rectangle_eq, shows.rows, shows.columns]
    exact cube

theorem exists_place {bs : List Bool} (length : bs.length = a + b) :
    ∃ x ∈ m.places, placeDigits a b x = bs ∧ ∀ y ∈ m.places, placeDigits a b y = bs → y = x := by
  obtain ⟨places, _, size, cube⟩ := exists_rectangle shows rowAxis columnAxis
    (p := bs.map Trit.ofBool) (by rw [List.length_map, length])
  have fits : ∀ y ∈ m.places, y ∈ places ↔ placeDigits a b y = bs := by
    intro y hy
    rw [cube.mem y hy, Pattern.fits_ofBools (by rw [shows.length_digits hy, length])]
  have one : places.length = 1 := by rw [cube.size, Pattern.dashes_ofBools, Nat.pow_zero]
  obtain ⟨x, rfl⟩ := List.length_eq_one_iff.mp one
  have listed := cube.inside x (List.mem_singleton_self x)
  refine ⟨x, listed, (fits x listed).mp (List.mem_singleton_self x), fun y hy same => ?_⟩
  exact List.mem_singleton.mp ((fits y hy).mpr same)

end Cubes

end KarnaughMap

end Switching
