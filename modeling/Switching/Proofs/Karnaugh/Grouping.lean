import Switching.Proofs.Karnaugh.Product

/-! The groups of a map. A rectangle is taken only for a one that lies in no rectangle of ones in
front of it, and the larger rectangles come first, so what is taken is as large as can be: the
groups are prime implicants. -/
namespace Switching

namespace KarnaughMap

section Taking

variable {covered places : List (Nat × Nat)} {lists front back : List (List (Nat × Nat))}
  {x : Nat × Nat}

theorem all_contains_iff : places.all (covered.contains ·) = true ↔ ∀ x ∈ places, x ∈ covered := by
  simp

theorem takeNew_sublist (covered : List (Nat × Nat)) (lists : List (List (Nat × Nat))) :
    (takeNew covered lists).Sublist lists := by
  fun_induction takeNew covered lists with
  | case1 covered => exact .slnil
  | case2 covered places more old ih => exact ih.cons places
  | case3 covered places more new ih => exact ih.cons_cons places

theorem takeNew_covers (member : places ∈ lists) (hx : x ∈ places) :
    x ∈ covered ∨ ∃ taken ∈ takeNew covered lists, x ∈ taken := by
  fun_induction takeNew covered lists with
  | case1 covered => cases member
  | case2 covered first more old ih =>
    rcases List.mem_cons.mp member with rfl | member
    · exact .inl (all_contains_iff.mp old x hx)
    · exact ih member
  | case3 covered first more new ih =>
    rcases List.mem_cons.mp member with rfl | member
    · exact .inr ⟨_, List.mem_cons_self .., hx⟩
    · rcases ih member with old | ⟨taken, later, hx⟩
      · rcases List.mem_append.mp old with old | here
        · exact .inl old
        · exact .inr ⟨_, List.mem_cons_self .., here⟩
      · exact .inr ⟨taken, List.mem_cons_of_mem _ later, hx⟩

theorem of_takeNew (taken : takeNew covered lists = front ++ places :: back) :
    ∃ before after, lists = before ++ places :: after ∧ front ⊆ before ∧
      ∃ x ∈ places, x ∉ covered ∧ ∀ other ∈ before, x ∉ other := by
  -- a list passed over is inside what is covered, so a member not covered is not on it either
  fun_induction takeNew covered lists generalizing front with
  | case1 covered => simp at taken
  | case2 covered first more old ih =>
    obtain ⟨before, after, rfl, sub, x, hx, fresh, none⟩ := ih taken
    refine ⟨first :: before, after, rfl, List.subset_cons_of_subset _ sub, x, hx, fresh, ?_⟩
    exact List.forall_mem_cons.mpr ⟨fun here => fresh (all_contains_iff.mp old x here), none⟩
  | case3 covered first more new ih =>
    cases front with
    | nil =>
      obtain ⟨rfl, _⟩ := List.cons.inj taken
      have some : ∃ x ∈ first, x ∉ covered := by
        by_contra all
        push Not at all
        exact new (all_contains_iff.mpr all)
      obtain ⟨x, hx, fresh⟩ := some
      exact ⟨[], more, rfl, List.nil_subset _, x, hx, fresh, List.forall_mem_nil _⟩
    | cons head front =>
      obtain ⟨rfl, rest⟩ := List.cons.inj taken
      obtain ⟨before, after, rfl, sub, x, hx, fresh, none⟩ := ih rest
      rw [List.mem_append, not_or] at fresh
      refine ⟨first :: before, after, rfl, List.cons_subset_cons _ sub, x, hx, fresh.1, ?_⟩
      exact List.forall_mem_cons.mpr ⟨fresh.2, none⟩

end Taking

def candidates (m : KarnaughMap) : List (List (Nat × Nat)) :=
  m.rectangles.filter (·.all m.holdsOne)

/-- Cubes of prime implicants that together hold all ones of the map, each of them with a one that
lies in no cube before it, and the larger ones first. -/
structure PrimeCover (m : KarnaughMap) (a b : Nat) (onSet : List Nat)
    (lists : List (List (Nat × Nat))) : Prop where
  prime : ∀ places ∈ lists, ∃ p : Pattern, m.Fills a b places p ∧ p.IsPrime (a + b) onSet
  covers : ∀ x ∈ m.places, m.holdsOne x = true → ∃ places ∈ lists, x ∈ places
  fresh : ∀ front places back, lists = front ++ places :: back →
    ∃ x ∈ places, ∀ other ∈ front, x ∉ other
  descending : lists.Pairwise fun places later => later.length ≤ places.length

section Cubes

variable {m : KarnaughMap} {a b : Nat} {onSet : List Nat}
  {places larger : List (Nat × Nat)} {before after : List (List (Nat × Nat))}
  {front back p : Pattern} {v : Bool} {x : Nat × Nat}

theorem half_fills (shows : m.Shows a b onSet)
    (half : m.Fills a b places (front ++ .ofBool v :: back))
    (whole : m.Fills a b larger (front ++ .dash :: back)) :
    places.length < larger.length ∧ ∀ x ∈ places, x ∈ larger := by
  constructor
  · rw [half.2.size, whole.2.size, Pattern.dashes_half front back v, Nat.pow_succ]
    have := Nat.two_pow_pos (Pattern.dashes (front ++ .ofBool v :: back))
    omega
  · intro x hx
    have listed := half.2.inside x hx
    rw [mem_iff_admits shows half listed] at hx
    exact (mem_iff_admits shows whole listed).mpr ((Pattern.admits_dash v).mpr (.inl hx))

variable (shows : m.Shows a b onSet) (rowAxis : a = 1 ∨ a = 2) (columnAxis : b = 1 ∨ b = 2)

include shows rowAxis columnAxis

/-- The cube of a candidate with a place in none before it is prime: a larger cube of ones would
have come before it. -/
theorem isPrime_of_fresh (split : m.candidates = before ++ places :: after) (hx : x ∈ places)
    (none : ∀ other ∈ before, x ∉ other) (fills : m.Fills a b places p) :
    p.IsPrime (a + b) onSet := by
  have member : places ∈ m.candidates := by simp [split]
  have ones : places.all m.holdsOne = true := (List.mem_filter.mp member).2
  refine Pattern.isPrime_iff.mpr
    ⟨fills.1, (all_holdsOne_iff shows rowAxis columnAxis fills).mp ones, ?_⟩
  rintro front v back rfl inside
  have length : (front ++ .dash :: back).length = a + b := by
    rw [← fills.1]
    simp
  obtain ⟨larger, listed, whole⟩ := exists_rectangle shows rowAxis columnAxis length
  obtain ⟨longer, within⟩ := half_fills shows fills whole
  have candidate : larger ∈ m.candidates :=
    List.mem_filter.mpr ⟨listed, (all_holdsOne_iff shows rowAxis columnAxis whole).mpr inside⟩
  have descending : m.candidates.Pairwise fun places later => later.length ≤ places.length :=
    (pairwise_rectangles m).filter _
  rw [split] at candidate descending
  -- before, it would hold the place that none before holds; behind, it would be too long
  rcases List.mem_append.mp candidate with earlier | later
  · exact none larger earlier (within x hx)
  · rcases List.mem_cons.mp later with rfl | later
    · exact Nat.lt_irrefl _ longer
    · have shorter := (List.pairwise_append.mp descending).2.1
      exact Nat.not_lt.mpr ((List.pairwise_cons.mp shorter).1 larger later) longer

theorem exists_candidate (hx : x ∈ m.places) (one : m.holdsOne x = true) :
    ∃ places ∈ m.candidates, x ∈ places := by
  have length : ((placeDigits a b x).map Trit.ofBool).length = a + b := by
    rw [List.length_map, shows.length_digits hx]
  obtain ⟨places, listed, fills⟩ := exists_rectangle shows rowAxis columnAxis length
  have digits : ∀ y ∈ m.places, y ∈ places ↔ placeDigits a b y = placeDigits a b x := by
    intro y hy
    rw [mem_iff_admits shows fills hy, Pattern.admits_ofBools]
  refine ⟨places, List.mem_filter.mpr ⟨listed, ?_⟩, (digits x hx).mpr rfl⟩
  refine List.all_eq_true.mpr fun y member => ?_
  have hy := fills.2.inside y member
  rw [holdsOne_iff shows hy, (digits y hy).mp member, ← holdsOne_iff shows hx]
  exact one

theorem primeCover_takeNew : m.PrimeCover a b onSet (takeNew [] m.candidates) where
  prime places member := by
    obtain ⟨front, back, split⟩ := List.append_of_mem member
    obtain ⟨before, after, whole, _, x, hx, _, none⟩ := of_takeNew split
    have listed : places ∈ m.rectangles :=
      List.mem_of_mem_filter ((takeNew_sublist [] m.candidates).subset member)
    obtain ⟨p, fills⟩ := exists_pattern shows rowAxis columnAxis listed
    exact ⟨p, fills, isPrime_of_fresh shows rowAxis columnAxis whole hx none fills⟩
  covers x hx one := by
    obtain ⟨places, candidate, member⟩ := exists_candidate shows rowAxis columnAxis hx one
    exact (takeNew_covers candidate member).resolve_left (List.not_mem_nil)
  fresh front places back split := by
    obtain ⟨before, after, _, sub, x, hx, _, none⟩ := of_takeNew split
    exact ⟨x, hx, fun other member => none other (sub member)⟩
  descending := ((pairwise_rectangles m).filter _).sublist (takeNew_sublist [] m.candidates)

def groupOf (m : KarnaughMap) (places : List (Nat × Nat)) : MapGroup :=
  ⟨places, m.termOf places, m.mintermsOf places⟩

omit rowAxis columnAxis in
theorem fills_places : m.Fills a b m.places (.unbound (a + b)) := by
  refine ⟨List.length_replicate, ?_, ?_, fun x hx => hx, fun x hx => ?_⟩
  · exact List.Nodup.product List.nodup_range List.nodup_range
  · rw [places_eq, List.length_product, List.length_range, List.length_range, shows.rows,
      shows.columns, Pattern.dashes_unbound, Nat.pow_add]
  · exact iff_of_true hx (Pattern.fits_unbound _ _)

theorem primeCover_places (full : ∀ x ∈ m.places, m.holdsOne x = true) :
    m.PrimeCover a b onSet [m.places] where
  prime := by
    have fills := fills_places shows
    have inside := (all_holdsOne_iff shows rowAxis columnAxis fills).mp (List.all_eq_true.mpr full)
    refine List.forall_mem_singleton.mpr ⟨_, fills, Pattern.isPrime_iff.mpr
      ⟨List.length_replicate, inside, fun front v back same => ?_⟩⟩
    have member : Trit.ofBool v ∈ Pattern.unbound (a + b) := by simp [same]
    have dash := List.eq_of_mem_replicate member
    cases v <;> cases dash
  covers x hx _ := ⟨m.places, List.mem_singleton_self _, hx⟩
  fresh front places back split := by
    cases front with
    | nil =>
      obtain ⟨rfl, _⟩ := List.cons.inj split
      obtain ⟨x, hx⟩ := List.exists_mem_of_ne_nil _ (ne_nil_of_fills (fills_places shows))
      exact ⟨x, hx, List.forall_mem_nil _⟩
    | cons head front => simp at split
  descending := List.pairwise_singleton _ _

theorem exists_primeCover (length : m.names.length = a + b) :
    ∃ lists, m.groups = lists.map m.groupOf ∧ m.PrimeCover a b onSet lists := by
  by_cases none : m.places.filter m.holdsOne = []
  · refine ⟨[], by rw [groups, none]; rfl, List.forall_mem_nil _, fun x hx one => ?_,
      fun front places back split => by simp at split, .nil⟩
    exact absurd one (List.filter_eq_nil_iff.mp none x hx)
  by_cases full : (m.places.filter m.holdsOne).length = m.places.length
  · have ones := List.length_filter_eq_length_iff.mp full
    refine ⟨[m.places], ?_, primeCover_places shows rowAxis columnAxis ones⟩
    have term : m.termOf m.places = "1" := by
      rw [termOf_eq shows rowAxis columnAxis (fills_places shows) length
        (j := ⟨.unbound (a + b), [], false⟩) rfl, Implicant.term, Pattern.literalsOver_unbound]
    rw [groups, if_neg none, if_pos full, List.filter_eq_self.mpr ones, List.map_singleton,
      groupOf, term]
  · refine ⟨_, ?_, primeCover_takeNew shows rowAxis columnAxis⟩
    rw [groups, if_neg none, if_neg full]
    rfl

theorem groupOf_prime (length : m.names.length = a + b) (bound : ∀ k ∈ onSet, k < 2 ^ (a + b))
    (fills : m.Fills a b places p) (prime : p.IsPrime (a + b) onSet) :
    ∃ i ∈ Implicant.primes onSet (a + b), (m.groupOf places).minterms = i.minterms ∧
      (m.groupOf places).term = i.term m.names := by
  obtain ⟨i, found, rfl⟩ := List.mem_map.mp ((Implicant.mem_patterns_primes bound).mpr prime)
  refine ⟨i, found, ?_, termOf_eq shows rowAxis columnAxis fills length rfl⟩
  rw [(Implicant.of_mem_primes bound found).2]
  exact mintermsOf_eq shows rowAxis columnAxis fills

theorem mem_minterms_groupOf (fills : m.Fills a b places p) (hx : x ∈ m.places) :
    numberOf (placeDigits a b x) ∈ (m.groupOf places).minterms ↔ x ∈ places := by
  have bound : numberOf (placeDigits a b x) < 2 ^ (a + b) :=
    shows.length_digits hx ▸ numberOf_lt _
  rw [groupOf, mintermsOf_eq shows rowAxis columnAxis fills, Pattern.mem_minterms,
    and_iff_right bound, mem_of_fills shows fills hx]

variable {lists : List (List (Nat × Nat))} {k : Nat}

theorem mem_iff_of_primeCover (bound : ∀ k ∈ onSet, k < 2 ^ (a + b))
    (cover : m.PrimeCover a b onSet lists) :
    k ∈ onSet ↔ ∃ places ∈ lists, k ∈ (m.groupOf places).minterms := by
  constructor
  · intro member
    obtain ⟨x, hx, rfl, _⟩ := exists_place_of_number shows rowAxis columnAxis (bound k member)
    obtain ⟨places, listed, inside⟩ := cover.covers x hx ((holdsOne_iff shows hx).mpr member)
    obtain ⟨p, fills, _⟩ := cover.prime places listed
    exact ⟨places, listed,
      (mem_minterms_groupOf shows rowAxis columnAxis fills hx).mpr inside⟩
  · rintro ⟨places, listed, member⟩
    obtain ⟨p, fills, prime⟩ := cover.prime places listed
    rw [groupOf, mintermsOf_eq shows rowAxis columnAxis fills, Pattern.mem_minterms] at member
    exact prime.inside k member.1 member.2

theorem fresh_of_primeCover (cover : m.PrimeCover a b onSet lists)
    {front back : List (List (Nat × Nat))} (split : lists = front ++ places :: back) :
    ∃ k ∈ (m.groupOf places).minterms, ∀ other ∈ front, k ∉ (m.groupOf other).minterms := by
  obtain ⟨x, inside, none⟩ := cover.fresh front places back split
  obtain ⟨p, fills, _⟩ := cover.prime places (by simp [split])
  have hx := fills.2.inside x inside
  refine ⟨_, (mem_minterms_groupOf shows rowAxis columnAxis fills hx).mpr inside,
    fun other listed member => ?_⟩
  obtain ⟨q, filled, _⟩ := cover.prime other (by simp [split, listed])
  exact none other listed
    ((mem_minterms_groupOf shows rowAxis columnAxis filled hx).mp member)

end Cubes

theorem rowDigits_axis {width : Nat} (few : 2 ≤ width ∧ width ≤ 4) :
    (rowDigits width = 1 ∨ rowDigits width = 2) ∧
      (width - rowDigits width = 1 ∨ width - rowDigits width = 2) := by
  rw [rowDigits]
  split <;> omega

/-- The groups of the map of a table of two to four different names are prime implicants of its
minterms, with their minterms and their texts; together they hold the minterms and nothing else;
each has a minterm that is in no group before it; and none is larger than one before it. -/
theorem groups_prime {t : TruthTable} {f : Formula} {names? : Option (List String)}
    {expression? : Option String} (made : TruthTable.ofFormula f names? expression? = .ok t)
    (distinct : t.names.Nodup) (few : 2 ≤ t.width ∧ t.width ≤ 4) :
    ∃ m, ofTable t = .ok m ∧
      (∀ g ∈ m.groups, ∃ i ∈ Implicant.primes t.minterms t.width,
        g.minterms = i.minterms ∧ g.term = i.term t.names) ∧
      (∀ k, k ∈ t.minterms ↔ ∃ g ∈ m.groups, k ∈ g.minterms) ∧
      (∀ front g back, m.groups = front ++ g :: back →
        ∃ k ∈ g.minterms, ∀ h ∈ front, k ∉ h.minterms) ∧
      m.groups.Pairwise fun g later => later.size ≤ g.size := by
  have numbered := TruthTable.numbered_of_ofFormula made
  have bound := TruthTable.lt_of_mem_minterms numbered
  obtain ⟨rowAxis, columnAxis⟩ := rowDigits_axis few
  have within : rowDigits t.width ≤ t.width := by omega
  have split : rowDigits t.width + (t.width - rowDigits t.width) = t.width := by omega
  have shows := mapOf_shows numbered distinct within
  rw [← split] at bound
  obtain ⟨lists, same, cover⟩ := exists_primeCover shows rowAxis columnAxis split.symm
  refine ⟨_, ofTable_eq distinct few, ?_⟩
  rw [same]
  refine ⟨fun g member => ?_, fun k => ?_, fun front g back parts => ?_, ?_⟩
  · obtain ⟨places, listed, rfl⟩ := List.mem_map.mp member
    obtain ⟨p, fills, prime⟩ := cover.prime places listed
    have found := groupOf_prime shows rowAxis columnAxis split.symm bound fills prime
    rwa [split] at found
  · rw [mem_iff_of_primeCover shows rowAxis columnAxis bound cover]
    simp
  · obtain ⟨before, rest, rfl, rfl, tail⟩ := List.map_eq_append_iff.mp parts
    obtain ⟨places, after, rfl, rfl, _⟩ := List.map_eq_cons_iff.mp tail
    obtain ⟨k, member, none⟩ := fresh_of_primeCover shows rowAxis columnAxis cover rfl
    exact ⟨k, member, List.forall_mem_map.mpr none⟩
  · exact List.pairwise_map.mpr cover.descending

theorem groups_prime_corners :
    let f : Formula := .not (.gate .or (.var "B" 1) (.var "D" 2) 3) 4
    let names := ["A", "B", "C", "D"]
    let t := TruthTable.tableOf f names f.infixText
    TruthTable.ofFormula f (some names) none = .ok t ∧ t.names.Nodup ∧
      (2 ≤ t.width ∧ t.width ≤ 4) ∧ ∃ m, ofTable t = .ok m ∧ m.groups.map (·.term) = ["B'D'"] ∧
        ∀ g ∈ m.groups, ∃ i ∈ Implicant.primes t.minterms t.width,
          g.minterms = i.minterms ∧ g.term = i.term t.names := by
  intro f names t
  have distinct : names.Nodup := by decide
  have sub : f.names ⊆ names := by decide +kernel
  have made : TruthTable.ofFormula f (some names) none = .ok t :=
    TruthTable.ofFormula_eq_ok distinct sub (by decide) none
  have few : 2 ≤ t.width ∧ t.width ≤ 4 := ⟨by decide, by decide⟩
  have shown : ((ofTable t).toOption.map fun m => m.groups.map (·.term)) = some ["B'D'"] := by
    decide +kernel
  obtain ⟨m, found, prime, _⟩ := groups_prime made distinct few
  rw [found] at shown
  exact ⟨made, distinct, few, m, found, Option.some.inj shown, prime⟩

end KarnaughMap

end Switching
