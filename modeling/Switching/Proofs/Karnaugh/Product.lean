import Switching.Proofs.Karnaugh.Rectangle

/-! What a cube of a map says as a product: its minterms are those that its pattern covers, its text
is that of the pattern, and its places all hold a one if the pattern covers ones only. -/
namespace Switching

namespace Trit

def value? : Trit → Option Bool
  | zero => some false
  | one => some true
  | dash => none

theorem value?_eq_some {t : Trit} {b : Bool} : t.value? = some b ↔ t = ofBool b := by
  cases t <;> cases b <;> decide

theorem eq_ofBool_iff {t : Trit} {b : Bool} :
    t = ofBool b ↔ ∀ c, t.admits c = true → c = b := by
  cases t <;> cases b <;> decide

end Trit

namespace Pattern

theorem fixed_iff {p : Pattern} {i : Nat} {b : Bool} (within : i < p.length) :
    p[i]? = some (.ofBool b) ↔ ∀ bs, p.Admits bs → bs[i]? = some b := by
  induction p generalizing i with
  | nil => cases within
  | cons t ts ih =>
    cases i with
    | zero =>
      rw [List.getElem?_cons_zero, Option.some.injEq, Trit.eq_ofBool_iff]
      constructor
      · intro only bs admits
        obtain ⟨c, rest, head, _, rfl⟩ := List.forall₂_cons_left_iff.mp admits
        rw [only c head, List.getElem?_cons_zero]
      · intro all c head
        obtain ⟨rest, tail⟩ := exists_admits ts
        exact Option.some.inj (all (c :: rest) (.cons head tail))
    | succ i =>
      rw [List.getElem?_cons_succ, ih (Nat.lt_of_succ_lt_succ within)]
      constructor
      · intro all bs admits
        obtain ⟨c, rest, _, tail, rfl⟩ := List.forall₂_cons_left_iff.mp admits
        rw [List.getElem?_cons_succ]
        exact all rest tail
      · intro all rest tail
        obtain ⟨c, head⟩ := t.exists_admits
        have found := all (c :: rest) (.cons head tail)
        rwa [List.getElem?_cons_succ] at found

end Pattern

namespace KarnaughMap

section Cubes

variable {m : KarnaughMap} {a b : Nat} {onSet : List Nat} {places : List (Nat × Nat)} {p : Pattern}
  {x : Nat × Nat} {i : Nat}

theorem mem_iff_admits (shows : m.Shows a b onSet) (fills : m.Fills a b places p)
    (hx : x ∈ m.places) : x ∈ places ↔ p.Admits (placeDigits a b x) := by
  have same : p.length = (placeDigits a b x).length := by rw [fills.1, shows.length_digits hx]
  rw [fills.2.mem x hx, Pattern.fits_iff_admits same]

theorem mem_of_fills (shows : m.Shows a b onSet) (fills : m.Fills a b places p)
    (hx : x ∈ m.places) :
    x ∈ places ↔ p.covers (numberOf (placeDigits a b x)) = true := by
  have same : p.length = (placeDigits a b x).length := by rw [fills.1, shows.length_digits hx]
  rw [fills.2.mem x hx, Pattern.covers_numberOf_eq same]

theorem holdsOne_iff (shows : m.Shows a b onSet) (hx : x ∈ m.places) :
    m.holdsOne x = true ↔ numberOf (placeDigits a b x) ∈ onSet := by
  obtain ⟨c, found, number, value, _⟩ := shows.cell x hx
  rw [holdsOne, found, ← number, ← value]
  rfl

theorem value?_cell (shows : m.Shows a b onSet) (hx : x ∈ m.places) (within : i < m.names.length) :
    (m.cell? x).bind (·.inputs.value? m.names[i]) = (placeDigits a b x)[i]? := by
  obtain ⟨c, found, _, _, values⟩ := shows.cell x hx
  have digit := congrArg (·[i]?) values
  simp only [List.getElem?_map, List.getElem?_eq_getElem within, Option.map_some] at digit
  rw [found, Option.bind_some]
  cases known : (placeDigits a b x)[i]? with
  | none => simp [known] at digit
  | some v => simpa [known] using digit

theorem commonValue?_eq_some {name : String} {v : Bool} : m.commonValue? places name = some v ↔
    places ≠ [] ∧ ∀ x ∈ places, (m.cell? x).bind (·.inputs.value? name) = some v := by
  cases places with
  | nil => simp [commonValue?]
  | cons x xs =>
    cases first : (m.cell? x).bind (·.inputs.value? name) with
    | none => simp [commonValue?, first]
    | some w =>
      rw [commonValue?, List.map_cons, first]
      simp only [Option.ite_none_right_eq_some, List.all_eq_true, List.forall_mem_map, beq_iff_eq,
        Option.some.injEq, List.forall_mem_cons, first, ne_eq, reduceCtorEq, not_false_eq_true,
        true_and]
      constructor
      · rintro ⟨all, rfl⟩
        exact ⟨rfl, all⟩
      · rintro ⟨rfl, all⟩
        exact ⟨all, rfl⟩

theorem ne_nil_of_fills (fills : m.Fills a b places p) : places ≠ [] := by
  intro nil
  have size := fills.2.size
  rw [nil, List.length_nil] at size
  exact absurd size (Nat.ne_of_lt (Nat.two_pow_pos _))

variable (shows : m.Shows a b onSet) (rowAxis : a = 1 ∨ a = 2) (columnAxis : b = 1 ∨ b = 2)
  (fills : m.Fills a b places p)

include shows rowAxis columnAxis

theorem exists_place_of_number {k : Nat} (bound : k < 2 ^ (a + b)) :
    ∃ x ∈ m.places, numberOf (placeDigits a b x) = k ∧
      ∀ y ∈ m.places, numberOf (placeDigits a b y) = k → y = x := by
  obtain ⟨x, listed, digits, only⟩ :=
    exists_place shows rowAxis columnAxis (length_lastDigits (a + b) k)
  refine ⟨x, listed, by rw [digits, numberOf_lastDigits_of_lt bound], fun y hy number => ?_⟩
  refine only y hy ?_
  rw [← number, ← shows.length_digits hy, lastDigits_numberOf]

include fills

theorem all_holdsOne_iff : places.all m.holdsOne = true ↔ p.Inside (a + b) onSet := by
  rw [List.all_eq_true]
  constructor
  · intro ones k bound covers
    obtain ⟨x, listed, rfl, _⟩ := exists_place_of_number shows rowAxis columnAxis bound
    exact (holdsOne_iff shows listed).mp (ones x ((mem_of_fills shows fills listed).mpr covers))
  · intro inside x hx
    have listed := fills.2.inside x hx
    refine (holdsOne_iff shows listed).mpr (inside _ ?_ ((mem_of_fills shows fills listed).mp hx))
    exact shows.length_digits listed ▸ numberOf_lt _

theorem mintermsOf_eq : m.mintermsOf places = p.minterms (a + b) := by
  have numbers : (places.filterMap fun x => (m.cell? x).map (·.minterm)) =
      places.map fun x => numberOf (placeDigits a b x) := by
    rw [← List.filterMap_eq_map]
    refine List.filterMap_congr fun x hx => ?_
    obtain ⟨c, found, number, _⟩ := shows.cell x (fills.2.inside x hx)
    rw [found, Option.map_some, number]
    rfl
  have distinct : (places.map fun x => numberOf (placeDigits a b x)).Nodup := by
    refine List.Nodup.map_on (fun x hx y hy same => ?_) fills.2.nodup
    have listed := fills.2.inside x hx
    obtain ⟨z, _, _, only⟩ := exists_place_of_number shows rowAxis columnAxis
      (shows.length_digits listed ▸ numberOf_lt (placeDigits a b x))
    rw [only x listed rfl, only y (fills.2.inside y hy) same.symm]
  rw [mintermsOf, numbers]
  have perm := List.mergeSort_perm (places.map fun x => numberOf (placeDigits a b x)) (· ≤ ·)
  have sorted := List.pairwise_mergeSort' (· ≤ ·)
    (places.map fun x => numberOf (placeDigits a b x))
  have ascending := sorted.imp₂ (fun _ _ le ne => lt_of_le_of_ne le ne)
    (perm.nodup_iff.mpr distinct)
  refine ascending.eq_of_mem_iff (Pattern.pairwise_minterms ..) fun k => ?_
  rw [perm.mem_iff, List.mem_map, Pattern.mem_minterms]
  constructor
  · rintro ⟨x, hx, rfl⟩
    have listed := fills.2.inside x hx
    exact ⟨shows.length_digits listed ▸ numberOf_lt _, (mem_of_fills shows fills listed).mp hx⟩
  · rintro ⟨bound, covers⟩
    obtain ⟨x, listed, rfl, _⟩ := exists_place_of_number shows rowAxis columnAxis bound
    exact ⟨x, (mem_of_fills shows fills listed).mpr covers, rfl⟩

theorem commonValue?_eq (length : m.names.length = a + b) (within : i < m.names.length) :
    m.commonValue? places m.names[i] = (p[i]?).bind Trit.value? := by
  have bound : i < p.length := by rwa [fills.1, ← length]
  -- both sides name the value that all digits of the cube have there
  refine Option.ext fun v => ?_
  have asked : (p[i]?).bind Trit.value? = some v ↔ p[i]? = some (.ofBool v) := by
    simp [Option.bind_eq_some_iff, Trit.value?_eq_some]
  rw [commonValue?_eq_some, asked, Pattern.fixed_iff bound]
  constructor
  · rintro ⟨_, all⟩ bs admits
    obtain ⟨x, listed, rfl, _⟩ := exists_place shows rowAxis columnAxis (fills.1 ▸ admits.length)
    rw [← value?_cell shows listed within]
    exact all x ((mem_iff_admits shows fills listed).mpr admits)
  · refine fun all => ⟨ne_nil_of_fills fills, fun x hx => ?_⟩
    have listed := fills.2.inside x hx
    rw [value?_cell shows listed within]
    exact all _ ((mem_iff_admits shows fills listed).mp hx)

theorem termOf_eq (length : m.names.length = a + b) {j : Implicant} (pattern : j.pattern = p) :
    m.termOf places = j.term m.names := by
  have literals : (m.names.filterMap fun name =>
      (m.commonValue? places name).map fun v => if v then name else name ++ "'") =
      (p.literalsOver m.names).map fun l => if l.2 then l.1 else l.1 ++ "'" := by
    have whole : m.names = (m.names.zip p).map Prod.fst :=
      (List.map_fst_zip (Nat.le_of_eq (length.trans fills.1.symm))).symm
    rw [Pattern.literalsOver, List.map_filterMap]
    nth_rewrite 1 [whole]
    rw [List.filterMap_map]
    refine List.filterMap_congr fun entry listed => ?_
    obtain ⟨i, within, rfl⟩ := List.mem_iff_getElem.mp listed
    rw [List.length_zip] at within
    have bound : i < p.length := Nat.lt_of_lt_of_le within (Nat.min_le_right ..)
    have common := commonValue?_eq shows rowAxis columnAxis fills length
      (Nat.lt_of_lt_of_le within (Nat.min_le_left ..))
    rw [List.getElem?_eq_getElem bound, Option.bind_some] at common
    simp only [Function.comp_apply, List.getElem_zip, common]
    cases p[i] <;> rfl
  rw [termOf, literals, Implicant.term, pattern]
  cases p.literalsOver m.names with
  | nil => rfl
  | cons l ls => rfl

end Cubes

end KarnaughMap

end Switching
