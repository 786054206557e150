import CommonMeasure.Optimise.Blocks

namespace CommonMeasure.Optimise

section

variable {as bs : List (List Char)}

theorem alike_le : alike as bs ≤ as.length ∧ alike as bs ≤ bs.length := by
  induction as generalizing bs with
  | nil => simp [alike]
  | cons a as ih =>
    cases bs with
    | nil => simp [alike]
    | cons b bs =>
      have := @ih bs
      rw [alike, List.length_cons, List.length_cons]
      split <;> omega

theorem alike_take : as.take (alike as bs) = bs.take (alike as bs) := by
  induction as generalizing bs with
  | nil => simp [alike]
  | cons a as ih =>
    cases bs with
    | nil => simp [alike]
    | cons b bs =>
      rw [alike]
      split
      · rename_i same
        rw [List.take_succ_cons, List.take_succ_cons, ih, same]
      · rfl

end

def KeptContext.phrase (context : KeptContext) (place : Nat) : List (List Char) :=
  ((context.words.drop place).take MINIMUM_PHRASE_WORDS).map KeptWord.form

def KeptContext.exact_match (context : KeptContext) (words : List Word) : Option (Nat × Nat) :=
  if words.length < MINIMUM_PHRASE_WORDS then none
  else match context.index.lookup (joined (phraseOf words)) with
    | none => none
    | some occurrences =>
      context.furthest (occurrences.filter fun occurrence => context.phrase occurrence.place = phraseOf words) words

structure Drawn (context : KeptContext) (words : List Word) (antecedent length : Nat) : Prop where
  enough : MINIMUM_PHRASE_WORDS ≤ words.length
  source : ∃ occurrences occurrence, context.index.lookup (joined (phraseOf words)) = some occurrences ∧
    occurrence ∈ occurrences ∧ antecedent = occurrence.place ∧ length = context.reach occurrence words

def Draws (matcher : Matcher) : Prop :=
  ∀ context words antecedent length, matcher context words = some (antecedent, length) → Drawn context words antecedent length

section

variable {context : KeptContext} {words : List Word} {antecedent length : Nat}

theorem furthest_snoc (context : KeptContext) (occurrences : List Occurrence) (last : Occurrence) (words : List Word) :
    context.furthest (occurrences ++ [last]) words =
      match context.furthest occurrences words with
      | none => some (last.place, context.reach last words)
      | some (place, held) =>
        if held < context.reach last words then some (last.place, context.reach last words) else some (place, held) := by
  rw [KeptContext.furthest, List.foldl_append]
  rfl

theorem furthest_none {occurrences : List Occurrence} (nothing : context.furthest occurrences words = none) :
    occurrences = [] := by
  cases occurrences using List.reverseRecOn with
  | nil => rfl
  | append_singleton inner other =>
    rw [furthest_snoc] at nothing
    split at nothing
    · cases nothing
    · split at nothing <;> cases nothing

theorem furthest_spec {occurrences : List Occurrence} (found : context.furthest occurrences words = some (antecedent, length)) :
    ∃ before occurrence after, occurrences = before ++ occurrence :: after ∧ antecedent = occurrence.place ∧
      length = context.reach occurrence words ∧ (∀ other ∈ before, context.reach other words < length) ∧
      ∀ other ∈ after, context.reach other words ≤ length := by
  induction occurrences using List.reverseRecOn generalizing antecedent length with
  | nil => cases found
  | append_singleton occurrences last ih =>
    rw [furthest_snoc] at found
    cases sofar : context.furthest occurrences words with
    | none =>
      rw [sofar] at found
      obtain ⟨rfl, rfl⟩ := Prod.mk.inj (Option.some_inj.mp found)
      exact ⟨[], last, [], by rw [furthest_none sofar, List.nil_append], rfl, rfl, by simp, by simp⟩
    | some best =>
      obtain ⟨place, held⟩ := best
      obtain ⟨before, occurrence, after, same, rfl, rfl, earlier, later⟩ := ih sofar
      rw [sofar] at found
      dsimp only at found
      split at found
      · rename_i further
        obtain ⟨rfl, rfl⟩ := Prod.mk.inj (Option.some_inj.mp found)
        refine ⟨occurrences, last, [], rfl, rfl, rfl, ?_, by simp⟩
        intro other listed
        rw [same] at listed
        rcases List.mem_append.mp listed with listed | listed
        · exact Nat.lt_trans (earlier other listed) further
        · rcases List.mem_cons.mp listed with rfl | listed
          · exact further
          · exact Nat.lt_of_le_of_lt (later other listed) further
      · rename_i nearer
        obtain ⟨rfl, rfl⟩ := Prod.mk.inj (Option.some_inj.mp found)
        refine ⟨before, occurrence, after ++ [last], by simp [same], rfl, rfl, earlier, ?_⟩
        intro other listed
        rcases List.mem_append.mp listed with listed | listed
        · exact later other listed
        · rw [List.mem_singleton.mp listed]
          exact Nat.le_of_not_lt nearer

theorem furthest_of {before after : List Occurrence} {occurrence : Occurrence}
    (earlier : ∀ other ∈ before, context.reach other words < context.reach occurrence words)
    (later : ∀ other ∈ after, context.reach other words ≤ context.reach occurrence words) :
    context.furthest (before ++ occurrence :: after) words = some (occurrence.place, context.reach occurrence words) := by
  induction after using List.reverseRecOn with
  | nil =>
    rw [furthest_snoc]
    cases sofar : context.furthest before words with
    | none => rfl
    | some best =>
      obtain ⟨place, held⟩ := best
      obtain ⟨front, other, back, rfl, rfl, rfl, _, _⟩ := furthest_spec sofar
      exact if_pos (earlier other (by simp))
  | append_singleton after last ih =>
    have sofar := ih fun other listed => later other (List.mem_append_left _ listed)
    have nearer : ¬context.reach occurrence words < context.reach last words := Nat.not_lt.mpr (later last (by simp))
    rw [← List.cons_append, ← List.append_assoc, furthest_snoc, sofar]
    exact if_neg nearer

theorem longest_match_draws : Draws KeptContext.longest_match := by
  intro context words antecedent length found
  rw [KeptContext.longest_match] at found
  split at found
  · cases found
  rename_i enough
  split at found
  · cases found
  rename_i occurrences listed
  obtain ⟨before, occurrence, after, rfl, rfl, rfl, _, _⟩ := furthest_spec found
  exact ⟨Nat.le_of_not_lt enough, _, occurrence, listed, by simp, rfl, rfl⟩

theorem longest_match_exact (found : context.longest_match words = some (antecedent, length)) :
    context.longest_match words = context.exact_match words ↔ context.phrase antecedent = phraseOf words := by
  have match_ := found
  rw [KeptContext.longest_match] at found
  split at found
  · cases found
  rename_i enough
  split at found
  · cases found
  rename_i occurrences listed
  obtain ⟨before, occurrence, after, rfl, rfl, rfl, earlier, later⟩ := furthest_spec found
  rw [match_, KeptContext.exact_match, if_neg enough, listed]
  dsimp only
  constructor
  · intro same
    obtain ⟨front, other, back, parts, place, _, _, _⟩ := furthest_spec same.symm
    have kept : other ∈ (before ++ occurrence :: after).filter
        fun occurrence => context.phrase occurrence.place = phraseOf words := by simp [parts]
    rw [place]
    exact of_decide_eq_true (List.mem_filter.mp kept).2
  · intro very
    rw [List.filter_append, List.filter_cons_of_pos (by simpa using very)]
    refine (furthest_of ?_ ?_).symm
    · exact fun other inside => earlier other (List.mem_filter.mp inside).1
    · exact fun other inside => later other (List.mem_filter.mp inside).1

theorem longest_match_none (nothing : context.longest_match words = none) : context.exact_match words = none := by
  rw [KeptContext.longest_match] at nothing
  rw [KeptContext.exact_match]
  split
  · rfl
  · rename_i enough
    rw [if_neg enough] at nothing
    cases listed : context.index.lookup (joined (phraseOf words)) with
    | none => rfl
    | some occurrences =>
      rw [listed] at nothing
      obtain rfl := furthest_none nothing
      rfl

theorem Drawn.reaches (drawn : Drawn context words antecedent length) :
    MINIMUM_PHRASE_WORDS ≤ length ∧ length ≤ words.length := by
  obtain ⟨_, occurrence, _, _, _, rfl⟩ := drawn.source
  have enough := drawn.enough
  have bounded := (@alike_le (((context.words.take occurrence.stretch_end).drop
    (occurrence.place + MINIMUM_PHRASE_WORDS)).map KeptWord.form) ((words.drop MINIMUM_PHRASE_WORDS).map Word.form)).2
  rw [List.length_map, List.length_drop] at bounded
  rw [KeptContext.reach]
  omega

theorem reach_alike {occurrence : Occurrence}
    (inside : occurrence.place + MINIMUM_PHRASE_WORDS ≤ occurrence.stretch_end)
    (within : occurrence.stretch_end ≤ context.words.length) :
    occurrence.place + context.reach occurrence words ≤ occurrence.stretch_end ∧
      (((context.words.drop occurrence.place).take (context.reach occurrence words)).map KeptWord.form =
          (words.take (context.reach occurrence words)).map Word.form ↔
        context.phrase occurrence.place = phraseOf words) := by
  rw [KeptContext.reach]
  generalize stretch : ((context.words.take occurrence.stretch_end).drop
    (occurrence.place + MINIMUM_PHRASE_WORDS)).map KeptWord.form = held
  generalize rest : (words.drop MINIMUM_PHRASE_WORDS).map Word.form = wanted
  have long : held.length = occurrence.stretch_end - (occurrence.place + MINIMUM_PHRASE_WORDS) := by
    rw [← stretch, List.length_map, List.length_drop, List.length_take]
    omega
  have bounded := (@alike_le held wanted).1
  refine ⟨by omega, ?_⟩
  have tail : held.take (alike held wanted) =
      ((context.words.drop (occurrence.place + MINIMUM_PHRASE_WORDS)).take (alike held wanted)).map KeptWord.form := by
    generalize alike held wanted = reached at bounded ⊢
    rw [← stretch, ← List.map_take, List.drop_take, List.take_take, Nat.min_eq_left (by omega)]
  have same := @alike_take held wanted
  rw [tail] at same
  have wants : wanted.take (alike held wanted) = ((words.drop MINIMUM_PHRASE_WORDS).take (alike held wanted)).map Word.form := by
    rw [List.map_take, rest]
  rw [List.take_add, List.map_append, List.take_add, List.map_append, List.drop_drop, same, wants]
  exact List.append_left_inj _

end

end CommonMeasure.Optimise
