import Switching.CommandLine.Bindings
import Switching.Proofs.Blanks
import Switching.Proofs.Entries
import Switching.Proofs.LetterCase

/-! Assignments as they are written on the command line. Written in any letter case, with blanks
around names, bits and items and with blank items between them, entries are read back: each name in
upper case, with the bit that was written for it last. What is no list of bindings is refused for
the first item that is none. -/
namespace Switching

section Words

variable {name : String} {c : Char} {b : Bool}

theorem lookup_several (ascii : c.toNat < 128) : CaseRun.several.lookup c.toNat = none := by
  have above : ∀ e ∈ CaseRun.several, 128 ≤ e.1 := by decide +kernel
  refine List.lookup_eq_none_iff.mpr fun e he => bne_iff_ne.mpr ?_
  have bound := above e he
  omega

theorem find?_single (ascii : c.toNat < 128) :
    CaseRun.single.find? (·.contains c.toNat) =
      if c.isLower then some ⟨0x61, 0x7A, 1, -32⟩ else none := by
  have letters : CaseRun.single = ⟨0x61, 0x7A, 1, -32⟩ :: CaseRun.single.tail := rfl
  have above : ∀ r ∈ CaseRun.single.tail, 128 ≤ r.first := by decide +kernel
  have others : CaseRun.single.tail.find? (·.contains c.toNat) = none := by
    refine List.find?_eq_none.mpr fun r hr found => ?_
    have bound := above r hr
    simp only [CaseRun.contains, Bool.and_eq_true, decide_eq_true_eq] at found
    omega
  have first : CaseRun.contains ⟨0x61, 0x7A, 1, -32⟩ c.toNat = c.isLower := by
    simp [CaseRun.contains, Char.isLower, Nat.mod_one, UInt32.le_iff_toNat_le]
  rw [letters, List.find?_cons, first, others]
  cases c.isLower <;> rfl

/-- Below 128 the small letters have their upper case, and nothing else has one. -/
theorem upperChar_ascii (ascii : c.toNat < 128) : upperChar c = [c.toUpper] := by
  rw [upperChar, lookup_several ascii, find?_single ascii]
  cases lower : c.isLower with
  | false => simp [Char.toUpper_eq_of_not_isLower, lower]
  | true =>
    have shift : ((c.toNat : Int) + -32).toNat = c.toNat - 32 := by omega
    rw [Char.toUpper_eq_of_isLower lower, ← shift]
    rfl

theorem toNat_lt_of_isWordChar (word : isWordChar c = true) : c.toNat < 128 := by
  simp only [isWordChar, Char.isAlphanum, Char.isAlpha, Char.isUpper, Char.isLower, Bool.or_eq_true,
    Bool.and_eq_true, decide_eq_true_eq, beq_iff_eq, ge_iff_le, UInt32.le_iff_toNat_le,
    Char.isDigit_iff_toNat] at word
  change ((65 ≤ c.toNat ∧ c.toNat ≤ 90 ∨ 97 ≤ c.toNat ∧ c.toNat ≤ 122) ∨
    48 ≤ c.toNat ∧ c.toNat ≤ 57) ∨ c = '_' at word
  rcases word with word | rfl
  · omega
  · decide

theorem isBlank_of_isWordChar (word : isWordChar c = true) : isBlank c = false := by
  by_contra blank
  rw [Lexeme.isWordChar_of_isBlank (Bool.not_eq_false _ ▸ blank)] at word
  cases word

theorem isWordChar_of_bitText (member : c ∈ (bitText b).toList) : isWordChar c = true := by
  have digit : c = if b then '1' else '0' := by cases b <;> simpa [bitText] using member
  subst digit
  cases b <;> rfl

theorem upperCase_word (word : ∀ c ∈ name.toList, isWordChar c = true) :
    String.ofList (upperCase name.toList) = upper name := by
  have single : ∀ c ∈ name.toList, upperChar c = [c.toUpper] :=
    fun c hc => upperChar_ascii (toNat_lt_of_isWordChar (word c hc))
  rw [upperCase, upper, List.flatMap_congr single, ← List.map_eq_flatMap]

end Words

theorem splitAt_eq_splitOn (sep : Char) (cs : List Char) : splitAt sep cs = cs.splitOn sep := by
  induction cs with
  | nil => rfl
  | cons c cs ih =>
    obtain ⟨piece, pieces, split⟩ := List.exists_cons_of_ne_nil (List.splitOn_ne_nil sep cs)
    rw [splitAt, List.splitOn_cons_eq_if_modifyHead, ih, split]
    by_cases same : c = sep <;> simp [same]

theorem cutAt?_append {sep : Char} {before : List Char} (free : sep ∉ before)
    (after : List Char) : cutAt? sep (before ++ sep :: after) = some (before, after) := by
  induction before with
  | nil => simp [cutAt?]
  | cons c cs ih =>
    rw [List.mem_cons, not_or] at free
    rw [List.cons_append, cutAt?, if_neg (Ne.symm free.1), ih free.2]
    rfl

namespace Assignment

section Items

variable {item name value front back : List Char} {b : Bool}

theorem binding?_of_bit (free : '=' ∉ name) (bit : Trims value (bitText b).toList) :
    binding? (name ++ '=' :: value) = some (String.ofList (upperCase (trim name)), b) := by
  simp only [binding?, cutAt?_append free, bit.trim_eq]
  cases b <;> rfl

theorem binding?_of_no_bit (free : '=' ∉ name) (other : ∀ b, ¬Trims value (bitText b).toList) :
    binding? (name ++ '=' :: value) = none := by
  simp only [binding?, cutAt?_append free]
  split
  · exact absurd (trim_eq_iff.mp ‹_›) (other false)
  · exact absurd (trim_eq_iff.mp ‹_›) (other true)
  · rfl

theorem binding?_of_no_sign (free : '=' ∉ item) : binding? item = none := by
  rw [binding?, cutAt?_eq_none_iff.mpr free]

theorem binding?_eq_none_iff :
    binding? item = none ↔ '=' ∉ item ∨ ∃ name value, item = name ++ '=' :: value ∧ '=' ∉ name ∧
      ∀ b, ¬Trims value (bitText b).toList := by
  constructor
  · intro none
    by_cases sign : '=' ∈ item
    · obtain ⟨name, value, rfl, free⟩ := List.eq_append_cons_of_mem sign
      refine .inr ⟨name, value, rfl, free, fun b bit => ?_⟩
      rw [binding?_of_bit free bit] at none
      cases none
    · exact .inl sign
  · rintro (free | ⟨name, value, rfl, free, other⟩)
    · exact binding?_of_no_sign free
    · exact binding?_of_no_bit free other

theorem binding?_widen (left : Blank front) (right : Blank back) :
    binding? (front ++ item ++ back) = binding? item := by
  by_cases sign : '=' ∈ item
  · obtain ⟨name, value, rfl, free⟩ := List.eq_append_cons_of_mem sign
    have moved : front ++ (name ++ '=' :: value) ++ back =
        front ++ name ++ '=' :: (value ++ back) := by simp
    have trimName : trim (front ++ name) = trim name := by
      simpa using ((trims_trim name).widen left blank_nil).trim_eq
    have trimValue : trim (value ++ back) = trim value := by
      simpa using ((trims_trim value).widen blank_nil right).trim_eq
    have free' : '=' ∉ front ++ name := by
      simpa [free] using not_mem_of_blank rfl left
    simp only [binding?, moved, cutAt?_append free', cutAt?_append free, trimName, trimValue]
  · have none : '=' ∉ front ++ item ++ back := by
      simpa [sign] using ⟨not_mem_of_blank rfl left, not_mem_of_blank rfl right⟩
    rw [binding?_of_no_sign none, binding?_of_no_sign sign]

theorem binding?_trim (item : List Char) : binding? (trim item) = binding? item := by
  obtain ⟨_, _, front, back, left, right, whole⟩ := trims_trim item
  conv_rhs => rw [whole]
  exact (binding?_widen left right).symm

end Items

section Reading

variable {piece : List Char}

/-- No binding is written there, and it is not blank: it has no sign of equality, or what follows
the first one is not a bit. -/
def Unreadable (piece : List Char) : Prop :=
  ¬Blank piece ∧ ('=' ∉ piece ∨ ∃ name value, piece = name ++ '=' :: value ∧ '=' ∉ name ∧
    ∀ b, ¬Trims value (bitText b).toList)

theorem unreadable_iff : Unreadable piece ↔ trim piece ≠ [] ∧ binding? (trim piece) = none := by
  rw [Unreadable, binding?_trim, binding?_eq_none_iff, ne_eq, trim_eq_nil_iff]

instance : DecidablePred Unreadable := fun _ => decidable_of_iff _ unreadable_iff.symm

theorem find?_bindingItems (text : List Char) :
    (bindingItems text).find? (fun item => (binding? item).isNone) =
      ((text.splitOn ',').find? fun piece => Unreadable piece).map trim := by
  rw [bindingItems, splitAt_eq_splitOn, List.find?_filter, List.find?_map]
  refine congrArg (Option.map trim) (List.find?_congr fun piece _ => ?_)
  simp [unreadable_iff]

theorem filterMap_bindingItems (text : List Char) :
    (bindingItems text).filterMap binding? = (text.splitOn ',').filterMap binding? := by
  rw [bindingItems, splitAt_eq_splitOn, List.filterMap_filter, List.filterMap_map]
  refine List.filterMap_congr fun piece _ => ?_
  rw [Function.comp_apply, ← binding?_trim piece]
  cases trim piece <;> rfl

theorem ofBindings_of_readable {text : String}
    (readable : ∀ piece ∈ text.toList.splitOn ',', ¬Unreadable piece) :
    ofBindings text = .ok (ofList ((text.toList.splitOn ',').filterMap binding?)) := by
  have none : (text.toList.splitOn ',').find? (fun piece => Unreadable piece) = none :=
    List.find?_eq_none.mpr fun piece member => by simpa using readable piece member
  rw [ofBindings, find?_bindingItems, none, filterMap_bindingItems]
  rfl

theorem ofBindings_of_unreadable {text : String}
    (unreadable : ∃ piece ∈ text.toList.splitOn ',', Unreadable piece) :
    ∃ front piece back, text.toList.splitOn ',' = front ++ piece :: back ∧
      (∀ p ∈ front, ¬Unreadable p) ∧ Unreadable piece ∧
      ofBindings text = .error (.badBinding (String.ofList (trim piece))) := by
  have found : ((text.toList.splitOn ',').find? fun piece => Unreadable piece).isSome := by
    simpa using unreadable
  obtain ⟨piece, first⟩ := Option.isSome_iff_exists.mp found
  obtain ⟨bad, front, back, split, before⟩ := List.find?_eq_some_iff_append.mp first
  refine ⟨front, piece, back, split, fun p hp => by simpa using before p hp, by simpa using bad, ?_⟩
  rw [ofBindings, find?_bindingItems, first]
  rfl

end Reading

section Writing

/-- What stands between the commas where a list of entries is written: blank items, and for each
entry an item with its name, a sign of equality and its bit, with blanks around both. -/
inductive Encodes : List (List Char) → List (String × Bool) → Prop
  | nil : Encodes [] []
  | blank {piece pieces entries} : Blank piece → Encodes pieces entries →
      Encodes (piece :: pieces) entries
  | binding {left right pieces entries} {name : String} {b : Bool} :
      Padded left name.toList → Padded right (bitText b).toList →
      (∀ c ∈ name.toList, isWordChar c = true) → Encodes pieces entries →
      Encodes ((left ++ '=' :: right) :: pieces) ((name, b) :: entries)

variable {piece left right : List Char} {pieces : List (List Char)} {name : String} {b : Bool}
  {entry : String × Bool} {entries : List (String × Bool)}

theorem binding?_written (before : Padded left name.toList)
    (after : Padded right (bitText b).toList) (word : ∀ c ∈ name.toList, isWordChar c = true) :
    binding? (left ++ '=' :: right) = some (upper name, b) := by
  have core : Trims left name.toList := before.trims fun c hc => isBlank_of_isWordChar (word c hc)
  have bit : Trims right (bitText b).toList :=
    after.trims fun c hc => isBlank_of_isWordChar (isWordChar_of_bitText hc)
  have free : '=' ∉ left := before.not_mem rfl fun sign => nomatch word _ sign
  rw [binding?_of_bit free bit, core.trim_eq, upperCase_word word]

theorem not_unreadable_of_blank (blank : Blank piece) : ¬Unreadable piece :=
  fun unreadable => unreadable.1 blank

theorem not_unreadable_of_binding (reads : binding? piece = some entry) :
    ¬Unreadable piece := by
  rw [unreadable_iff, binding?_trim, reads]
  exact fun unreadable => Option.some_ne_none _ unreadable.2

namespace Encodes

theorem comma (h : Encodes pieces entries) : ∀ piece ∈ pieces, ',' ∉ piece := by
  induction h with
  | nil => exact List.forall_mem_nil _
  | blank blank _ ih => exact List.forall_mem_cons.mpr ⟨not_mem_of_blank rfl blank, ih⟩
  | @binding left right _ _ _ _ before after word _ ih =>
    have free : ',' ∉ left := before.not_mem rfl fun comma => nomatch word _ comma
    have free' : ',' ∉ right := after.not_mem rfl fun comma => nomatch isWordChar_of_bitText comma
    refine List.forall_mem_cons.mpr ⟨?_, ih⟩
    simpa using ⟨free, free'⟩

theorem readable (h : Encodes pieces entries) : ∀ piece ∈ pieces, ¬Unreadable piece := by
  induction h with
  | nil => exact List.forall_mem_nil _
  | blank blank _ ih => exact List.forall_mem_cons.mpr ⟨not_unreadable_of_blank blank, ih⟩
  | binding before after word _ ih =>
    have reads := binding?_written before after word
    exact List.forall_mem_cons.mpr ⟨not_unreadable_of_binding reads, ih⟩

theorem reads (h : Encodes pieces entries) :
    pieces.filterMap binding? = entries.map fun e => (upper e.1, e.2) := by
  induction h with
  | nil => rfl
  | @blank piece _ _ blank _ ih =>
    have none : binding? piece = none := binding?_of_no_sign (not_mem_of_blank rfl blank)
    rw [List.filterMap_cons_none none, ih]
  | binding before after word _ ih =>
    rw [List.filterMap_cons_some (binding?_written before after word), ih]
    rfl

theorem splitOn (h : Encodes pieces entries) :
    Encodes (([','].intercalate pieces).splitOn ',') entries := by
  cases pieces with
  | nil =>
    cases h
    exact .blank blank_nil .nil
  | cons piece rest =>
    rwa [List.splitOn_intercalate ',' h.comma (List.cons_ne_nil piece rest)]

end Encodes

theorem value?_ofList_upper {x : String} :
    (ofList (entries.map fun e => (upper e.1, e.2))).value? x = some b ↔
      ∃ front name back, entries = front ++ (name, b) :: back ∧ upper name = x ∧
        ∀ e ∈ back, upper e.1 ≠ x := by
  rw [value?_ofList, lookup_reverse_eq_some_iff]
  constructor
  · rintro ⟨front, back, split, later⟩
    obtain ⟨front, rest, rfl, -, rest_eq⟩ := List.map_eq_append_iff.mp split
    obtain ⟨⟨name, c⟩, back, rfl, same, rfl⟩ := List.map_eq_cons_iff.mp rest_eq
    obtain ⟨rfl, rfl⟩ := Prod.mk.inj same
    exact ⟨front, name, back, rfl, rfl, fun e he => later _ (List.mem_map_of_mem he)⟩
  · rintro ⟨front, name, back, rfl, rfl, later⟩
    refine ⟨front.map fun e => (upper e.1, e.2), back.map fun e => (upper e.1, e.2), by simp, ?_⟩
    exact List.forall_mem_map.mpr later

/-- Bindings that are written for a list of entries are read back, each name in upper case with the
bit of its last entry. A text with an unreadable item is refused, and the message names the first
one. -/
theorem ofBindings_decodes :
    (∀ pieces entries, Encodes pieces entries →
      ∃ a, ofBindings (String.ofList ([','].intercalate pieces)) = .ok a ∧
        (a.entries.map Prod.fst).Nodup ∧
        ∀ x b, a.value? x = some b ↔ ∃ front name back, entries = front ++ (name, b) :: back ∧
          upper name = x ∧ ∀ e ∈ back, upper e.1 ≠ x) ∧
    ∀ text : String, (∃ piece ∈ text.toList.splitOn ',', Unreadable piece) →
      ∃ front piece back item, text.toList.splitOn ',' = front ++ piece :: back ∧
        (∀ p ∈ front, ¬Unreadable p) ∧ Unreadable piece ∧ Trims piece item ∧
        ofBindings text = .error (.badBinding (String.ofList item)) ∧
        (Fault.badBinding (String.ofList item)).message =
          "Bad binding " ++ quoted (String.ofList item) ++ ", expected NAME=0 or NAME=1" := by
  constructor
  · intro pieces entries writes
    have split := writes.splitOn
    refine ⟨ofList (entries.map fun e => (upper e.1, e.2)), ?_, nodup_ofList _, fun x b => ?_⟩
    · rw [← String.toList_ofList (l := [','].intercalate pieces)] at split
      rw [ofBindings_of_readable split.readable, split.reads]
    · exact value?_ofList_upper
  · intro text unreadable
    obtain ⟨front, piece, back, split, before, bad, refused⟩ := ofBindings_of_unreadable unreadable
    exact ⟨front, piece, back, trim piece, split, before, bad, trims_trim piece, refused, rfl⟩

/-- A name that is bound twice, in both letter cases; and a text whose second item has no sign of
equality. -/
theorem ofBindings_decodes_repeated :
    (∃ a, ofBindings " a = 1,,A=0" = .ok a ∧ a.value? "A" = some false) ∧
      ofBindings "A=1, B ,C=2" = .error (.badBinding "B") := by
  obtain ⟨decodes, refuses⟩ := ofBindings_decodes
  constructor
  · have space : Blank [' '] := List.forall_mem_singleton.mpr rfl
    have word : ∀ c ∈ "a".toList, isWordChar c = true := List.forall_mem_singleton.mpr rfl
    have word' : ∀ c ∈ "A".toList, isWordChar c = true := List.forall_mem_singleton.mpr rfl
    have first : Padded [' ', 'a', ' '] "a".toList := ⟨[' '], [' '], space, space, rfl⟩
    have first' : Padded [' ', '1'] (bitText true).toList := ⟨[' '], [], space, blank_nil, rfl⟩
    have second : Padded ['A'] "A".toList := ⟨[], [], blank_nil, blank_nil, rfl⟩
    have second' : Padded ['0'] (bitText false).toList := ⟨[], [], blank_nil, blank_nil, rfl⟩
    have written := Encodes.binding first first' word
      (.blank blank_nil (.binding second second' word' .nil))
    obtain ⟨a, accepted, -, value⟩ := decodes _ _ written
    refine ⟨a, accepted, (value "A" false).mpr ⟨[("a", true)], "A", [], rfl, ?_, ?_⟩⟩
    · decide
    · exact List.forall_mem_nil _
  · have split : "A=1, B ,C=2".toList.splitOn ',' =
        [['A', '=', '1'], [' ', 'B', ' '], ['C', '=', '2']] := by decide +kernel
    obtain ⟨front, piece, back, item, cut, before, bad, core, refused, -⟩ :=
      refuses "A=1, B ,C=2" (by decide +kernel)
    have second : piece = [' ', 'B', ' '] := by
      rw [split] at cut
      rcases front with _ | ⟨p, _ | ⟨q, front⟩⟩
      · obtain ⟨rfl, -⟩ := List.cons.inj cut
        exact absurd bad (by decide +kernel)
      · exact (List.cons.inj (List.cons.inj cut).2).1.symm
      · obtain ⟨rfl, -⟩ := List.cons.inj (List.cons.inj cut).2
        exact absurd (by decide +kernel) (before [' ', 'B', ' '] (by simp))
    subst second
    rw [refused, ← core.trim_eq]
    decide +kernel

end Writing

end Assignment

end Switching
