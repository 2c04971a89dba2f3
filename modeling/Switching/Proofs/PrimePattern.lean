import Switching.Proofs.Cube

/-! Prime implicants as patterns, without the rounds by which they are found: the largest cubes
inside a set of minterms. Every cube inside the set lies in a prime one. -/
namespace Switching

namespace Pattern

def minterms (width : Nat) (p : Pattern) : List Nat := (List.range (2 ^ width)).filter p.covers

@[simp]
theorem mem_minterms {width m : Nat} {p : Pattern} :
    m ∈ p.minterms width ↔ m < 2 ^ width ∧ p.covers m = true := by
  simp [minterms]

theorem pairwise_minterms (width : Nat) (p : Pattern) : (p.minterms width).Pairwise (· < ·) :=
  List.pairwise_lt_range.filter _

def Inside (width : Nat) (onSet : List Nat) (p : Pattern) : Prop :=
  ∀ m < 2 ^ width, p.covers m = true → m ∈ onSet

def without (p : Pattern) (k : Nat) : Pattern := p.set k .dash

/-- A prime implicant: with any literal less it covers some minterm outside the on-set. -/
structure IsPrime (width : Nat) (onSet : List Nat) (p : Pattern) : Prop where
  length : p.length = width
  inside : p.Inside width onSet
  maximal : ∀ k < width, p[k]? ≠ some .dash →
    ∃ m < 2 ^ width, (p.without k).covers m = true ∧ m ∉ onSet

section Halves

variable {width : Nat} {onSet : List Nat} {front back : Pattern} {m : Nat}

theorem covers_dash (b : Bool) (h : m < 2 ^ (front ++ .dash :: back).length) :
    (front ++ .dash :: back).covers m = true ↔
      (front ++ .ofBool b :: back).covers m = true ∨
        (front ++ .ofBool (!b) :: back).covers m = true := by
  have same : ∀ t, (front ++ t :: back).length = (front ++ .dash :: back).length := by simp
  rw [covers_iff_admits h, covers_iff_admits (same _ ▸ h), covers_iff_admits (same _ ▸ h),
    same (.ofBool b), same (.ofBool !b)]
  exact admits_dash b

theorem inside_dash (b : Bool) (h : (front ++ .dash :: back).length = width) :
    (front ++ .dash :: back).Inside width onSet ↔
      (front ++ .ofBool b :: back).Inside width onSet ∧
        (front ++ .ofBool (!b) :: back).Inside width onSet := by
  subst h
  constructor
  · intro whole
    exact ⟨fun m hm hc => whole m hm ((covers_dash b hm).mpr (Or.inl hc)),
      fun m hm hc => whole m hm ((covers_dash b hm).mpr (Or.inr hc))⟩
  · rintro ⟨left, right⟩ m hm hc
    rcases (covers_dash b hm).mp hc with hc | hc
    · exact left m hm hc
    · exact right m hm hc

theorem literals_half (front back : Pattern) (b : Bool) :
    (front ++ .ofBool b :: back).literals = (front ++ .dash :: back).literals + 1 := by
  simp only [literals, List.countP_append, List.countP_cons, Trit.isDash_ofBool]
  simp [Trit.isDash]
  omega

theorem ones_half :
    (front ++ .ofBool true :: back).ones = (front ++ .ofBool false :: back).ones + 1 := by
  simp [ones, Trit.ofBool, List.count_append]
  omega

end Halves

theorem literals_le_length (p : Pattern) : p.literals ≤ p.length := List.countP_le_length

theorem exists_dash {p : Pattern} (h : p.literals < p.length) :
    ∃ front back, p = front ++ .dash :: back := by
  have dash : Trit.dash ∈ p := by
    by_contra none
    have all : p.literals = p.length := by
      refine List.countP_eq_length.mpr fun t ht => ?_
      have : t ≠ .dash := fun e => none (e ▸ ht)
      cases t <;> first | rfl | exact absurd rfl this
    omega
  exact List.append_of_mem dash

theorem literals_ofBools (bs : List Bool) : literals (bs.map Trit.ofBool) = bs.length := by
  simp [literals, List.countP_map, Function.comp_def, Trit.isDash_ofBool]

theorem exists_ofBools {p : Pattern} (h : p.literals = p.length) :
    ∃ bs : List Bool, p = bs.map Trit.ofBool := by
  induction p with
  | nil => exact ⟨[], rfl⟩
  | cons t ts ih =>
    have fixed : ∀ u ∈ t :: ts, (!u.isDash) = true := List.countP_eq_length.mp h
    have value : t ≠ .dash := by
      rintro rfl
      exact absurd (fixed .dash (List.mem_cons_self ..)) (by decide)
    obtain ⟨b, rfl⟩ := Trit.eq_ofBool value
    have rest := fun u hu => fixed u (List.mem_cons_of_mem _ hu)
    obtain ⟨bs, rfl⟩ := ih (List.countP_eq_length.mpr rest)
    exact ⟨b :: bs, rfl⟩

theorem without_eq {p : Pattern} {k : Nat} (bound : k < p.length) (fixed : p[k]? ≠ some .dash) :
    ∃ front b back, p = front ++ .ofBool b :: back ∧ p.without k = front ++ .dash :: back := by
  have split : p = p.take k ++ p[k] :: p.drop (k + 1) := by simp
  have value : p[k] ≠ .dash := fun e => fixed (by rw [List.getElem?_eq_getElem bound, e])
  obtain ⟨b, hb⟩ := Trit.eq_ofBool value
  refine ⟨p.take k, b, p.drop (k + 1), hb ▸ split, ?_⟩
  exact List.set_eq_take_append_cons_drop .. |>.trans (if_pos bound)

/-- A pattern is prime exactly if it is half of no cube inside the on-set. -/
theorem isPrime_iff {width : Nat} {onSet : List Nat} {p : Pattern} :
    p.IsPrime width onSet ↔ p.length = width ∧ p.Inside width onSet ∧
      ∀ (front : Pattern) (b : Bool) (back : Pattern), p = front ++ .ofBool b :: back →
        ¬ (front ++ .dash :: back).Inside width onSet := by
  constructor
  · intro prime
    refine ⟨prime.length, prime.inside, ?_⟩
    rintro front b back rfl inside
    have bound : front.length < width := by rw [← prime.length]; simp
    have fixed : (front ++ .ofBool b :: back)[front.length]? ≠ some .dash := by
      cases b <;> simp [Trit.ofBool]
    obtain ⟨m, hm, hc, out⟩ := prime.maximal front.length bound fixed
    have whole : (front ++ .ofBool b :: back).without front.length = front ++ .dash :: back := by
      simp [without]
    exact out (inside m hm (whole ▸ hc))
  · rintro ⟨length, inside, largest⟩
    refine ⟨length, inside, fun k hk fixed => ?_⟩
    obtain ⟨front, b, back, hp, hset⟩ := without_eq (length ▸ hk) fixed
    have outside := largest front b back hp
    rw [← hset, Inside] at outside
    push Not at outside
    exact outside

theorem exists_inside {width : Nat} {onSet : List Nat} {p : Pattern} {literals : Nat}
    (length : p.length = width) (inside : p.Inside width onSet) (lower : p.literals ≤ literals)
    (upper : literals ≤ width) :
    ∃ q : Pattern, q.length = width ∧ q.literals = literals ∧ q.Inside width onSet := by
  induction hd : literals - p.literals generalizing p with
  | zero => exact ⟨p, length, by omega, inside⟩
  | succ d ih =>
    obtain ⟨front, back, rfl⟩ := exists_dash (p := p) (by omega)
    have half : (front ++ .ofBool true :: back).length = width := by rw [← length]; simp
    have fewer := literals_half front back true
    exact ih half ((inside_dash true length).mp inside).1 (by omega) (by omega)

/-- Every cube inside the on-set lies in a prime one, which has no more literals. -/
theorem exists_prime {width : Nat} {onSet : List Nat} {p : Pattern} (length : p.length = width)
    (inside : p.Inside width onSet) :
    ∃ q : Pattern, q.IsPrime width onSet ∧ q.literals ≤ p.literals ∧
      ∀ m < 2 ^ width, p.covers m = true → q.covers m = true := by
  -- by induction on the literals: what is not prime is half of a cube with one literal less
  induction hl : p.literals generalizing p with
  | zero =>
    refine ⟨p, isPrime_iff.mpr ⟨length, inside, ?_⟩, by omega, fun _ _ hc => hc⟩
    rintro front b back rfl
    rw [literals_half] at hl
    omega
  | succ l ih =>
    by_cases prime : p.IsPrime width onSet
    · exact ⟨p, prime, by omega, fun _ _ hc => hc⟩
    · rw [isPrime_iff] at prime
      push Not at prime
      obtain ⟨front, b, back, rfl, larger⟩ := prime length inside
      rw [literals_half] at hl
      have whole : (front ++ .dash :: back).length = width := by rw [← length]; simp
      obtain ⟨q, hq, fewer, covers⟩ := ih whole larger (by omega)
      refine ⟨q, hq, by omega, fun m hm hc => covers m hm ?_⟩
      exact (covers_dash b (whole ▸ hm)).mpr (Or.inl hc)

/-- A cube inside another one is all of it, unless it is half of a larger cube inside. -/
theorem eq_of_maximal {p q : Pattern} (length : q.length = p.length)
    (sub : ∀ bs, q.Admits bs → p.Admits bs)
    (largest : ∀ (front : Pattern) (b : Bool) (back : Pattern), q = front ++ .ofBool b :: back →
      ¬ ∀ bs, (front ++ .dash :: back).Admits bs → p.Admits bs) : q = p := by
  induction q generalizing p with
  | nil => exact (List.length_eq_zero_iff.mp length.symm).symm
  | cons u us ih =>
    cases p with
    | nil => cases length
    | cons t ts =>
      have each : ∀ b, u.admits b = true → ∀ bs, Admits us bs →
          t.admits b = true ∧ Admits ts bs :=
        fun b hb bs hbs => List.forall₂_cons.mp (sub (b :: bs) (.cons hb hbs))
      obtain ⟨digit, allowed⟩ := u.exists_admits
      have tails : ∀ bs, Admits us bs → Admits ts bs := fun bs hbs => (each digit allowed bs hbs).2
      obtain ⟨ds, hds⟩ := exists_admits us
      have heads : ∀ b, u.admits b = true → t.admits b = true := fun b hb => (each b hb ds hds).1
      have same : u = t := by
        by_contra other
        -- all that admits more than a single value is the dash
        obtain ⟨b, rfl⟩ : ∃ b, u = .ofBool b := by
          apply Trit.eq_ofBool
          rintro rfl
          cases t with
          | zero => cases heads true rfl
          | one => cases heads false rfl
          | dash => exact other rfl
        have dash : t = .dash := by
          by_contra value
          obtain ⟨c, rfl⟩ := Trit.eq_ofBool value
          have digits := (Trit.admits_ofBool c b).mp (heads b ((Trit.admits_ofBool b b).mpr rfl))
          exact other (digits ▸ rfl)
        refine largest [] b us rfl fun bs whole => ?_
        obtain ⟨c, cs, _, rest, rfl⟩ := List.forall₂_cons_left_iff.mp whole
        exact .cons (by rw [dash]; rfl) (tails cs rest)
      subst same
      rw [ih (Nat.succ.inj length) tails]
      rintro front b back rfl whole
      refine largest (u :: front) b back rfl fun bs inside => ?_
      obtain ⟨c, cs, hc, rest, rfl⟩ := List.forall₂_cons_left_iff.mp inside
      exact .cons (heads c hc) (whole cs rest)

theorem IsPrime.eq_of_minterms {width : Nat} {p q : Pattern} (length : p.length = width)
    (prime : q.IsPrime width (p.minterms width)) : q = p := by
  obtain ⟨same, inside, largest⟩ := isPrime_iff.mp prime
  have admits : ∀ r : Pattern, r.length = width →
      (r.Inside width (p.minterms width) ↔ ∀ bs, r.Admits bs → p.Admits bs) := by
    rintro r rfl
    constructor
    · intro within bs hbs
      have bound := hbs.length ▸ numberOf_lt bs
      have member := within _ bound ((covers_numberOf hbs.length).mpr hbs)
      exact (covers_numberOf (hbs.length.trans length.symm)).mp (mem_minterms.mp member).2
    · intro sub m hm covers
      have digits := sub _ ((covers_iff_admits hm).mp covers)
      rw [mem_minterms]
      refine ⟨hm, (covers_iff_admits (length.symm ▸ hm)).mpr ?_⟩
      rw [length]
      exact digits
  apply eq_of_maximal (same.trans length.symm) ((admits q same).mp inside)
  intro front b back half whole
  apply largest front b back half
  apply (admits _ _).mpr whole
  rw [← same, half]
  simp

end Pattern
end Switching
