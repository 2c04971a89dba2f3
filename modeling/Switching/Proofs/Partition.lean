import Switching.Proofs.Lexemes

/-! The tokens of a text are a partition of it: they lie apart and in order, between them there are
only blanks, and each is spelled by the characters of its place. Where a character begins no token,
the text in front of it is cut at the same places without what follows. -/
namespace Switching

namespace Token

open Lexeme

variable {text : List Char} {ts us : List Token} {first middle last position : Nat} {c : Char}
  {cs rest : List Char} {lexeme : Lexeme}

/-- From the first place to the last one, the text consists of the tokens and of blanks. -/
structure Partitions (text : List Char) (ts : List Token) (first last : Nat) : Prop where
  ordered : first ≤ last
  nonempty : ∀ t ∈ ts, 0 < t.length
  inside : ∀ t ∈ ts, first ≤ t.position ∧ t.stop ≤ last
  apart : ts.Pairwise fun t u => t.stop ≤ u.position
  unfinished : ∀ t ∈ ts, t.kind ≠ .finish
  spelled : ∀ t ∈ ts, Spelled t.kind t.text ((text.drop t.position).take t.length)
  blank : ∀ i, first ≤ i → i < last → (∀ t ∈ ts, i < t.position ∨ t.stop ≤ i) →
    ∃ c ∈ text[i]?, isBlank c = true

theorem Partitions.append (front : Partitions text ts first middle)
    (back : Partitions text us middle last) : Partitions text (ts ++ us) first last where
  ordered := Nat.le_trans front.ordered back.ordered
  nonempty := List.forall_mem_append.mpr ⟨front.nonempty, back.nonempty⟩
  inside := by
    intro t ht
    rcases List.mem_append.mp ht with ht | ht
    · exact ⟨(front.inside t ht).1, Nat.le_trans (front.inside t ht).2 back.ordered⟩
    · exact ⟨Nat.le_trans front.ordered (back.inside t ht).1, (back.inside t ht).2⟩
  apart := by
    apply List.pairwise_append.mpr
    refine ⟨front.apart, back.apart, fun t ht u hu => ?_⟩
    exact Nat.le_trans (front.inside t ht).2 (back.inside u hu).1
  unfinished := List.forall_mem_append.mpr ⟨front.unfinished, back.unfinished⟩
  spelled := List.forall_mem_append.mpr ⟨front.spelled, back.spelled⟩
  blank := by
    intro i low high outside
    obtain ⟨left, right⟩ := List.forall_mem_append.mp outside
    by_cases before : i < middle
    · exact front.blank i low before left
    · exact back.blank i (Nat.le_of_not_lt before) high right

theorem partitions_lexeme (front : text.drop position = c :: cs) (begins : Begins c cs lexeme) :
    Partitions text (lexeme.toTokens position) position (position + lexeme.extra + 1) := by
  have head : text[position]? = some c := by
    rw [← List.head?_drop, front]
    rfl
  cases shown : lexeme with
  | blank =>
    refine ⟨Nat.le_add_right _ _, by simp [toTokens], by simp [toTokens], .nil, by simp [toTokens],
      by simp [toTokens], fun i low high _ => ?_⟩
    obtain rfl : i = position := Nat.le_antisymm (Nat.le_of_lt_succ high) low
    exact ⟨c, head, begins.separates shown⟩
  | token kind word extra =>
    obtain ⟨_, unfinished, spelled⟩ := begins.spelled shown
    have taken : (text.drop position).take (extra + 1) = c :: cs.take extra := by
      rw [front, List.take_succ_cons]
    refine ⟨?_, ?_, ?_, List.pairwise_singleton _ _, ?_, ?_, ?_⟩
    · exact Nat.le_add_right_of_le (Nat.le_add_right _ _)
    all_goals simp only [toTokens, List.forall_mem_singleton, Lexeme.extra]
    · exact Nat.succ_pos extra
    · exact ⟨Nat.le_refl _, Nat.le_refl _⟩
    · exact unfinished
    · rw [taken]
      exact spelled
    · intro i low high (outside : i < position ∨ position + (extra + 1) ≤ i)
      omega

/-- From the given place on, the text is cut into the tokens, up to a rest that begins no token. -/
inductive Scans : Nat → List Char → List Token → List Char → Prop
  | stop {position : Nat} {rest : List Char}
      (ended : ∀ c cs, rest = c :: cs → front? c cs = none) : Scans position [] [] rest
  | step {position : Nat} {c : Char} {taken done rest : List Char} {lexeme : Lexeme}
      {ts : List Token} (front : front? c (taken ++ (done ++ rest)) = some lexeme)
      (length : taken.length = lexeme.extra)
      (more : Scans (position + lexeme.extra + 1) done ts rest) :
      Scans position (c :: (taken ++ done)) (lexeme.toTokens position ++ ts) rest

theorem exists_step (front : front? c cs = some lexeme)
    (more : ∃ done ts rest, cs.drop lexeme.extra = done ++ rest ∧
      Scans (position + lexeme.extra + 1) done ts rest) :
    ∃ done ts rest, c :: cs = done ++ rest ∧ Scans position done ts rest := by
  obtain ⟨done, ts, rest, split, more⟩ := more
  have length : (cs.take lexeme.extra).length = lexeme.extra :=
    List.length_take_of_le (begins_iff.mp front).extra_le
  have whole : cs = cs.take lexeme.extra ++ (done ++ rest) := by
    rw [← split, List.take_append_drop]
  have front' : front? c (cs.take lexeme.extra ++ (done ++ rest)) = some lexeme := by
    rw [← whole]
    exact front
  refine ⟨_, _, rest, ?_, .step front' length more⟩
  rw [List.cons_append, List.append_assoc, ← whole]

theorem exists_scans (position : Nat) (cs : List Char) :
    ∃ done ts rest, cs = done ++ rest ∧ Scans position done ts rest := by
  fun_induction scanFrom position cs with
  | case1 =>
    exact ⟨[], [], [], rfl, .stop fun c cs same => absurd same.symm (List.cons_ne_nil c cs)⟩
  | case2 position c cs none =>
    refine ⟨[], [], c :: cs, rfl, .stop fun d ds same => ?_⟩
    cases same
    exact none
  | case3 position c cs lexeme front f found ih => exact exists_step front ih
  | case4 position c cs lexeme front rest found ih => exact exists_step front ih

theorem length_step {taken done : List Char} (length : taken.length = lexeme.extra) :
    position + (c :: (taken ++ done)).length = position + lexeme.extra + 1 + done.length := by
  rw [List.length_cons, List.length_append, length]
  omega

/-- The cuts are the same in front of whatever makes no difference to what stands at the front. -/
theorem Scans.cuts_of_unseen {back : List Char} (h : Scans position cs ts rest)
    (unseen : ∀ c cs, front? c (cs ++ back) = front? c (cs ++ rest)) :
    Cuts position cs ts back := by
  induction h with
  | stop => exact cuts_nil _ _
  | @step position c taken done rest lexeme ts front length more ih =>
    have front' : front? c (taken ++ (done ++ back)) = some lexeme := by
      rw [← List.append_assoc, unseen, List.append_assoc, front]
    have first : Cuts position (c :: taken) (lexeme.toTokens position) (done ++ back) :=
      cuts_of_front? front' length.symm
    apply first.append
    rw [List.length_cons, length, ← Nat.add_assoc]
    exact ih unseen

theorem Scans.cuts (h : Scans position cs ts rest) : Cuts position cs ts rest :=
  h.cuts_of_unseen fun _ _ => rfl

theorem Scans.front?_rest {back : List Char} (h : Scans position cs ts (c :: back)) :
    front? c back = none := by
  generalize shown : c :: back = rest at h
  induction h with
  | stop ended => exact ended c back shown.symm
  | step front length more ih => exact ih shown

theorem Scans.scanFrom_eq_ok (h : Scans position cs ts []) :
    scanFrom position cs = .ok (ts ++ [.finish (position + cs.length)]) :=
  h.cuts.scanFrom_eq

theorem Scans.scanFrom_eq_error {back : List Char} (h : Scans position cs ts (c :: back)) :
    scanFrom position (cs ++ c :: back) = .error (.unknownCharacter c (position + cs.length)) := by
  rw [h.cuts, scanFrom, h.front?_rest]
  rfl

theorem Scans.partitions (h : Scans position cs ts rest)
    (whole : text.drop position = cs ++ rest) :
    Partitions text ts position (position + cs.length) := by
  induction h with
  | @stop position rest ended =>
    refine ⟨Nat.le_refl _, by simp, by simp, .nil, by simp, by simp, fun i low high _ => ?_⟩
    exact absurd high (Nat.not_lt.mpr low)
  | @step position c taken done rest lexeme ts front length more ih =>
    rw [List.cons_append, List.append_assoc] at whole
    have behind : text.drop (position + lexeme.extra + 1) = done ++ rest := by
      rw [Nat.add_assoc, ← List.drop_drop, whole, List.drop_succ_cons, ← length, List.drop_left]
    rw [length_step length]
    exact (partitions_lexeme whole (begins_iff.mp front)).append (ih behind)

theorem Scans.head?_ne_long (h : Scans position cs ts rest) :
    ∀ b ∈ cs.head?, b ≠ '\u017f' := by
  cases h with
  | stop ended => exact fun b none => nomatch none
  | step front length more =>
    rintro b same rfl
    cases same
    cases front

theorem Scans.cut (h : Scans position cs ts rest) :
    ∃ us, Scans position cs us [] ∧ us.map span = ts.map span := by
  induction h with
  | stop ended => exact ⟨[], .stop (fun _ _ none => nomatch none), rfl⟩
  | @step position c taken done rest lexeme ts front length more ih =>
    obtain ⟨us, behind, spans⟩ := ih
    obtain ⟨lexeme', begins, extra, span⟩ :=
      (begins_iff.mp front).cut length more.head?_ne_long
    refine ⟨lexeme'.toTokens position ++ us, .step ?_ (length.trans extra.symm) ?_, ?_⟩
    · rw [List.append_nil]
      exact begins_iff.mpr begins
    · rw [extra]
      exact behind
    · rw [List.map_append, List.map_append, span, spans]

theorem exists_scans_of_ok {text : String} {tokens : List Token} (scanned : scan text = .ok tokens) :
    ∃ ts, tokens = ts ++ [.finish text.length] ∧ Scans 0 text.toList ts [] := by
  rw [scan] at scanned
  rw [← String.length_toList]
  obtain ⟨done, ts, rest, whole, scans⟩ := exists_scans 0 text.toList
  rw [whole] at scanned ⊢
  cases rest with
  | nil =>
    rw [List.append_nil, scans.scanFrom_eq_ok, Nat.zero_add] at scanned
    cases scanned
    rw [List.append_nil]
    exact ⟨ts, rfl, scans⟩
  | cons c rest =>
    rw [scans.scanFrom_eq_error] at scanned
    cases scanned

theorem exists_scans_of_error {text : String} {cause : Fault} (failed : scan text = .error cause) :
    ∃ done ts c back, text.toList = done ++ c :: back ∧ Scans 0 done ts (c :: back) ∧
      cause = .unknownCharacter c done.length := by
  rw [scan] at failed
  obtain ⟨done, ts, rest, whole, scans⟩ := exists_scans 0 text.toList
  rw [whole] at failed ⊢
  cases rest with
  | nil =>
    rw [List.append_nil, scans.scanFrom_eq_ok] at failed
    cases failed
  | cons c back =>
    rw [scans.scanFrom_eq_error, Nat.zero_add] at failed
    cases failed
    exact ⟨done, ts, c, back, rfl, scans, rfl⟩

theorem Scans.exists_begins (h : Scans position cs ts rest) :
    ∀ t ∈ ts, ∃ c cs extra, Begins c cs (.token t.kind t.text extra) := by
  induction h with
  | stop => exact fun t none => nomatch none
  | @step position c taken done rest lexeme ts front length more ih =>
    refine List.forall_mem_append.mpr ⟨?_, ih⟩
    cases lexeme with
    | blank => exact fun t none => nomatch none
    | token kind text extra =>
      exact List.forall_mem_singleton.mpr ⟨c, _, extra, begins_iff.mp front⟩

theorem Scans.unfinished (h : Scans position cs ts rest) : ∀ t ∈ ts, t.kind ≠ .finish := by
  intro t ht
  obtain ⟨c, cs, extra, begins⟩ := h.exists_begins t ht
  exact (begins.spelled rfl).2.1

theorem Scans.filter_unfinished (h : Scans position cs ts rest) (place : Nat) :
    (ts ++ [finish place]).filter (!·.isFinish) = ts := by
  rw [List.filter_append, List.filter_eq_self.mpr fun t ht => ?_]
  · exact List.append_nil ts
  · simpa [isFinish] using h.unfinished t ht

/-- The tokens of a text partition it, and what is in front of a character that begins no token is
cut at the same places as a text of its own. -/
theorem scan_partitions (text : String) :
    match scan text with
    | .ok tokens =>
      ∃ ts, tokens = ts ++ [.finish text.length] ∧ Partitions text.toList ts 0 text.length
    | .error fault =>
      ∃ c p, fault = .unknownCharacter c p ∧ p < text.length ∧ text.toList[p]? = some c ∧
        ∃ ts us, Scans 0 (text.toList.take p) ts (text.toList.drop p) ∧
          Partitions text.toList ts 0 p ∧
          scan (String.ofList (text.toList.take p)) = .ok (us ++ [.finish p]) ∧
          Partitions (text.toList.take p) us 0 p ∧ us.map span = ts.map span := by
  rw [scan, ← String.length_toList]
  generalize text.toList = cs
  obtain ⟨done, ts, rest, rfl, scans⟩ := exists_scans 0 cs
  have whole : (done ++ rest).drop 0 = done ++ rest := rfl
  have partition := scans.partitions whole
  rw [Nat.zero_add] at partition
  cases rest with
  | nil =>
    rw [List.append_nil] at partition ⊢
    rw [scans.scanFrom_eq_ok, Nat.zero_add]
    exact ⟨ts, rfl, partition⟩
  | cons c rest =>
    obtain ⟨us, alone, spans⟩ := scans.cut
    have parts := alone.partitions (List.append_nil done).symm
    have again : scan (String.ofList done) = .ok (us ++ [.finish done.length]) := by
      rw [scan, String.toList_ofList, alone.scanFrom_eq_ok, Nat.zero_add]
    rw [Nat.zero_add] at parts
    rw [scans.scanFrom_eq_error, Nat.zero_add]
    refine ⟨c, done.length, rfl, by simp, by simp, ?_⟩
    rw [List.take_left, List.drop_left]
    exact ⟨ts, us, scans, partition, again, parts, spans⟩

end Token

end Switching
