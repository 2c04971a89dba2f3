import Switching.Proofs.Grammar.Likeness
import Switching.Proofs.Identifiers
import Switching.Proofs.Separation

/-! The texts of tokens are a normal form. Each is read as the token that it is the text of, wherever
no word goes on behind it, so the texts of all tokens with spaces between them are read as the same
tokens again, and as the same expression. -/
namespace Switching

namespace Token

open Lexeme

variable {c : Char} {cs back tail rest : List Char} {ts us : List Token} {kind : TokenKind}
  {text : String} {extra position : Nat}

/-- Wherever no word goes on behind it, the text is read as one token of the kind, and is the text
of that token. -/
def Stable (kind : TokenKind) (text : String) : Prop :=
  ∀ (position : Nat) (back : List Char), endsKeyword back = true →
    Cuts position text.toList [⟨kind, text, position, text.length⟩] back

theorem stable_bit (b : Bool) : Stable .constant (bitText b) := by
  intro position back ended
  have one : (bitText b).length = 1 := by cases b <;> rfl
  rw [one]
  exact cuts_bit b position ended

theorem stable_sign (sign : sign? c = some kind) : Stable kind c.toString := by
  intro position back _
  rw [Char.toString_eq_singleton, String.toList_singleton, String.length_singleton]
  exact cuts_sign sign position back

theorem stable_point : Stable (.gate .and) "." := by
  intro position back ended
  have front : front? '.' ([] ++ back) = some (.token (.gate .and) "." 0) := by
    refine begins_iff.mpr (.point rfl fun b hb => ?_)
    obtain ⟨bs, rfl⟩ := List.head?_eq_some_iff.mp hb
    simp only [endsKeyword, isWordChar, Char.isAlphanum, Bool.and_eq_true, Bool.not_eq_true',
      Bool.or_eq_false_iff] at ended
    exact ended.1.1.2
  exact cuts_of_front? front rfl

theorem stable_keyword (letter : c.isAlpha = true) (inside : ∀ d ∈ tail, isWordChar d = true)
    (known : keyword? (String.ofList ((c :: tail).map Char.toUpper)) = some (kind, none)) :
    Stable kind (String.ofList (c :: tail)) := by
  intro position back ended
  have front : front? c (tail ++ back) = some (.token kind (String.ofList (c :: tail)) tail.length) := by
    rw [front?_of_isAlpha letter, word_append inside ended, known]
    rfl
  rw [String.length_ofList, String.toList_ofList]
  exact cuts_of_front? front rfl

theorem stable_word (letter : c.isAlpha = true) (same : word c cs = .token kind text extra)
    (name : kind = .name → IsIdentifier text) : Stable kind text := by
  obtain ⟨tail, back, rfl, inside, stops⟩ := exists_word_split cs
  rw [word_of_stops inside stops] at same
  have identifier : kind = .name → Stable kind text := by
    rintro rfl position back ended
    exact cuts_identifier (name rfl) ended position
  split at same
  · cases same
    exact stable_bit false
  · split at same
    · rename_i known
      split at same
      · cases same
        rcases of_keyword? known with ⟨_, rfl⟩ | ⟨rfl, ⟨rfl, _⟩ | ⟨rfl, _⟩⟩
        · exact stable_keyword letter inside known
        · exact stable_bit true
        · exact stable_bit false
      · cases same
        exact identifier rfl
    · cases same
      exact identifier rfl

theorem stable_of_begins (h : Begins c cs (.token kind text extra))
    (name : kind = .name → IsIdentifier text) : Stable kind text := by
  generalize shown : Lexeme.token kind text extra = lexeme at h
  cases h with
  | blank => cases shown
  | word letter => exact stable_word letter shown.symm name
  | digit bit alone =>
    cases shown
    rcases bit with rfl | rfl
    · exact stable_bit false
    · exact stable_bit true
  | point point alone =>
    cases shown
    exact stable_point
  | sign sign =>
    cases shown
    exact stable_sign sign

def spaced (tokens : List Token) : String :=
  " ".intercalate ((tokens.filter (!·.isFinish)).map (·.text))

def entry (t : Token) : TokenKind × String := (t.kind, t.text)

theorem exists_cuts_spaced (stable : ∀ t ∈ ts, Stable t.kind t.text) (position : Nat) :
    ∃ us, Cuts position (" ".intercalate (ts.map (·.text))).toList us [] ∧
      us.map entry = ts.map entry := by
  induction ts generalizing position with
  | nil => exact ⟨[], cuts_nil position [], rfl⟩
  | cons t ts ih =>
    obtain ⟨first, others⟩ := List.forall_mem_cons.mp stable
    cases ts with
    | nil => exact ⟨_, first position [] rfl, rfl⟩
    | cons u ts =>
      obtain ⟨us, behind, entries⟩ := ih others (position + t.text.toList.length + 1)
      refine ⟨⟨t.kind, t.text, position, t.text.length⟩ :: us, ?_, congrArg (entry t :: ·) entries⟩
      have letters : (" ".intercalate ((t :: u :: ts).map (·.text))).toList =
          t.text.toList ++ ([' '] ++ (" ".intercalate ((u :: ts).map (·.text))).toList) := by
        rw [List.map_cons, List.map_cons, String.intercalate_cons_cons, String.toList_append,
          String.toList_append, List.append_assoc]
        rfl
      rw [letters]
      exact (first position _ rfl).append ((cuts_blank _ _).append behind)

def Corresponding (ts us : List Token) (t u : Token) : Prop :=
  ∃ k : Nat, ts[k]? = some t ∧ us[k]? = some u

theorem forall₂_corresponding (length : us.length = ts.length) (more more' : List Token) :
    List.Forall₂ (Corresponding (ts ++ more) (us ++ more')) ts us := by
  refine List.forall₂_iff_get.mpr ⟨length.symm, fun k inside inside' => ⟨k, ?_, ?_⟩⟩
  · rw [List.getElem?_append_left inside]
    exact List.getElem?_eq_getElem inside
  · rw [List.getElem?_append_left inside']
    exact List.getElem?_eq_getElem inside'

theorem alike_of_corresponding (entries : us.map entry = ts.map entry) {t u : Token}
    (same : Corresponding ts us t u) : t.Alike u := by
  obtain ⟨k, here, there⟩ := same
  have both : (us.map entry)[k]? = (ts.map entry)[k]? := by rw [entries]
  rw [List.getElem?_map, List.getElem?_map, here, there] at both
  obtain ⟨kind, text⟩ := Prod.mk.inj (Option.some.inj both)
  exact ⟨kind, by rw [isPrime, isPrime, kind, text], fun _ => text⟩

/-- No name of a text is a reserved word. The texts of its tokens, with spaces between them, are read
as tokens of the same kinds with the same texts, and parsed alike: as the same expression with the
same names, or with a fault of the same kind at the corresponding token. -/
theorem scan_spaced {text : String} {tokens : List Token} (scanned : scan text = .ok tokens) :
    (∀ t ∈ tokens, t.kind = .name → t.text ∉ reserved) ∧
    ∃ us, scan (spaced tokens) = .ok us ∧
      us.map (fun t => (t.kind, t.text)) = tokens.map (fun t => (t.kind, t.text)) ∧
      Formula.Agree (Corresponding tokens us) (Formula.ofText text)
        (Formula.ofText (spaced tokens)) := by
  have identifiers := isIdentifier_of_scan scanned
  refine ⟨fun t ht name => (identifiers t ht name).free, ?_⟩
  obtain ⟨ts, rfl, scans⟩ := exists_scans_of_ok scanned
  have stable : ∀ t ∈ ts, Stable t.kind t.text := by
    intro t ht
    obtain ⟨c, cs, extra, begins⟩ := scans.exists_begins t ht
    exact stable_of_begins begins (identifiers t (List.mem_append_left _ ht))
  obtain ⟨us, cuts, entries⟩ := exists_cuts_spaced stable 0
  have length : us.length = ts.length := by
    simpa only [List.length_map] using congrArg List.length entries
  obtain ⟨place, again⟩ : ∃ place, scan (spaced (ts ++ [finish text.length])) =
      .ok (us ++ [finish place]) := by
    rw [scan, spaced, scans.filter_unfinished]
    exact ⟨_, cuts.scanFrom_eq⟩
  have whole : (us ++ [finish place]).map entry = (ts ++ [finish text.length]).map entry := by
    rw [List.map_append, List.map_append, entries]
    rfl
  refine ⟨_, again, whole, ?_⟩
  rw [Formula.ofText, scanned, Formula.ofText, again]
  apply Formula.agree_ofTokens (fun t u => alike_of_corresponding whole)
    (forall₂_corresponding length _ _) scans.unfinished rfl
  exact ⟨ts.length, List.getElem?_concat_length, length ▸ List.getElem?_concat_length⟩

theorem scan_spaced_mixed :
    let tokens : List Token := [⟨.negation, "nOt", 0, 3⟩, ⟨.name, "A", 4, 1⟩, ⟨.negation, "'", 5, 1⟩,
      ⟨.gate .and, ".", 6, 1⟩, ⟨.constant, "1", 7, 4⟩, .finish 11]
    scan "nOt a'.TRUE" = .ok tokens ∧ spaced tokens = "nOt A ' . 1" ∧
      (∃ us, scan "nOt A ' . 1" = .ok us ∧
        us.map (fun t => (t.kind, t.text)) = tokens.map (fun t => (t.kind, t.text))) ∧
      Formula.ofText "nOt A ' . 1" = Formula.ofText "nOt a'.TRUE" := by
  intro tokens
  have scanned : scan "nOt a'.TRUE" = .ok tokens := by decide +kernel
  have spelled : spaced tokens = "nOt A ' . 1" := by decide +kernel
  let p : Parsed := ⟨.gate .and (.not (.not (.var "A" 1) 2) 3) (.const true 4) 5, ["A"]⟩
  have accepted : Formula.ofText "nOt a'.TRUE" = .ok p := by decide +kernel
  obtain ⟨_, us, again, entries, agree⟩ := scan_spaced scanned
  rw [accepted, spelled] at agree
  rw [spelled] at again
  refine ⟨scanned, spelled, ⟨us, again, entries⟩, ?_⟩
  rw [accepted]
  generalize Formula.ofText "nOt A ' . 1" = answer at agree
  cases agree
  rfl

end Token

end Switching
