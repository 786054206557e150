import CommonMeasure.Optimise.Transform

namespace CommonMeasure

namespace Optimise

inductive Blocked : Nat → List Char → List Block → Prop
  | nil {offset text} : Blank text → Blocked offset text []
  | cons {offset gap body rest bs} : Blank gap → Breaks rest → Blocked (offset + byteLen gap + byteLen body) rest bs →
      Blocked offset (gap ++ body ++ rest) (⟨offset + byteLen gap, offset + byteLen gap + byteLen body⟩ :: bs)

theorem Blocked.gap {offset : Nat} {a b : List Char} {bs : List Block} (blank : Blank a)
    (blocked : Blocked (offset + byteLen a) b bs) : Blocked offset (a ++ b) bs := by
  cases blocked with
  | nil rest => exact .nil (blank.append rest)
  | @cons _ inner body rest bs gap breaks later =>
    have moved : offset + byteLen a + byteLen inner = offset + byteLen (a ++ inner) := by rw [byteLen_append]; omega
    rw [moved] at later ⊢
    rw [← List.append_assoc, ← List.append_assoc]
    exact .cons (blank.append gap) breaks later

theorem blocksFrom_blocked (index run : Nat) (newline : Bool) (rest : List Char) :
    Blocked index rest (blocksFrom index none run newline rest) ∧
    ∀ (start stop : Nat) (body white : List Char), start + byteLen body = stop → stop + byteLen white = index → Blank white →
      (2 ≤ run ∨ newline = true → white ≠ []) →
      Blocked start (body ++ white ++ rest) (blocksFrom index (some ⟨start, stop⟩) run newline rest) := by
  induction rest generalizing index run newline with
  | nil =>
    refine ⟨.nil (by simp [Blank]), ?_⟩
    rintro start _ body white rfl _ blank _
    have last := @Blocked.cons start [] body _ _ (by simp [Blank]) blank.breaks (.nil blank)
    simpa [blocksFrom] using last
  | cons c rest ih =>
    have fresh (white : isWhitespace c = false) : Blocked index (c :: rest) (blocksFrom (index + c.utf8Size)
        (some ⟨index, index + c.utf8Size⟩) 0 false rest) := by
      simpa using (ih (index + c.utf8Size) 0 false).2 index _ [c] [] (by simp) rfl (by simp [Blank]) (by simp)
    cases white : isWhitespace c with
    | true =>
      have more (run : Nat) (newline : Bool) := ih (index + c.utf8Size) run newline
      refine ⟨?_, ?_⟩
      · rw [blocksFrom]
        simp only [white, if_true]
        exact Blocked.gap (a := [c]) (by simpa [Blank] using white) (by simpa using (more (run + 1) _).1)
      · intro start stop body gap body_ gap_ blank _
        rw [blocksFrom]
        simp only [white, if_true]
        have later := (more (run + 1) (newline || c = '\n')).2 start stop body (gap ++ [c]) body_ (by simp; omega)
          (blank.append (by simpa [Blank] using white)) (by simp)
        simpa using later
    | false =>
      refine ⟨?_, ?_⟩
      · rw [blocksFrom]
        simp only [white, Bool.false_eq_true, if_false]
        split <;> simpa using fresh white
      · rintro start stop body gap rfl rfl blank some_
        rw [blocksFrom]
        simp only [white, Bool.false_eq_true, if_false]
        split
        · rename_i closes
          have breaks : Breaks (gap ++ c :: rest) := by
            intro d listed
            cases gap with
            | nil => exact (some_ closes rfl).elim
            | cons e gap =>
              obtain rfl := Option.some_inj.mp listed
              exact blank _ List.mem_cons_self
          have last := @Blocked.cons start [] body _ _ (by simp [Blank]) breaks
            (by simpa using Blocked.gap blank (fresh white))
          simpa using last
        · have grown := (ih (start + byteLen body + byteLen gap + c.utf8Size) 0 false).2 start _ (body ++ gap ++ [c]) [] rfl
            (by simp [Nat.add_assoc]) (by simp [Blank]) (by simp)
          simpa [Nat.add_assoc] using grown

theorem blocks_blocked (text : List Char) : Blocked 0 text (blocks text) := (blocksFrom_blocked 0 0 false text).1

theorem Blocked.placed {offset : Nat} {text : List Char} {bs : List Block} (blocked : Blocked offset text bs) :
    bs.Pairwise (fun b c => b.stop ≤ c.start) ∧ (∀ b ∈ bs, offset ≤ b.start) ∧
    ∀ before after whole, whole = before ++ text ++ after → byteLen before = offset →
      (bs.flatMap fun b => wordsAt b.start ((slice whole b.start b.stop).getD [])) = wordsAt offset text ∧
      ∀ b ∈ bs, ∃ body, slice whole b.start b.stop = some body := by
  induction blocked with
  | nil blank =>
    refine ⟨List.Pairwise.nil, by simp, ?_⟩
    intro before after whole _ _
    exact ⟨(wordsAt_blank blank).symm, by simp⟩
  | @cons offset gap body rest bs blank breaks later ih =>
    obtain ⟨ordered, after_, holds⟩ := ih
    refine ⟨List.pairwise_cons.mpr ⟨after_, ordered⟩, ?_, ?_⟩
    · intro b listed
      rcases List.mem_cons.mp listed with rfl | listed
      · exact Nat.le_add_right _ _
      · have := after_ b listed
        omega
    · rintro before after _ rfl rfl
      have found : slice (before ++ (gap ++ body ++ rest) ++ after) (byteLen before + byteLen gap)
          (byteLen before + byteLen gap + byteLen body) = some body :=
        slice_iff.mpr ⟨before ++ gap, rest ++ after, by simp, by simp, rfl⟩
      obtain ⟨same, inside⟩ := holds (before ++ gap ++ body) after (before ++ (gap ++ body ++ rest) ++ after) (by simp)
        (by simp [Nat.add_assoc])
      refine ⟨?_, ?_⟩
      · rw [List.flatMap_cons, found, Option.getD_some, same, List.append_assoc gap, wordsAt_gap blank, wordsAt_append breaks]
      · intro b listed
        rcases List.mem_cons.mp listed with rfl | listed
        · exact ⟨body, found⟩
        · exact inside b listed

theorem block_slice {text : List Char} {block : Block} (listed : block ∈ blocks text) :
    ∃ body, slice text block.start block.stop = some body :=
  ((blocks_blocked text).placed.2.2 [] [] text (by simp) rfl).2 block listed

theorem blocks_words (text : List Char) :
    ((blocks text).flatMap fun b => wordsAt b.start ((slice text b.start b.stop).getD [])) = words text :=
  ((blocks_blocked text).placed.2.2 [] [] text (by simp) rfl).1

section

variable (casing : Casing)

def word (w : CommonMeasure.Word) : Word := ⟨w.start, w.stop, formOf casing w.text⟩

def textWords (text : List Char) : List Word := (words text).map (word casing)

def forms (text : List Char) : List (List Char) := (words text).map fun w => formOf casing w.text

theorem blockWords_flatMap (text : List Char) : (blocks text).flatMap (blockWords casing text) = textWords casing text := by
  rw [textWords, ← blocks_words, List.map_flatMap]
  rfl

theorem blockWords_within {text : List Char} {block : Block} (listed : block ∈ blocks text) {w : Word}
    (inside : w ∈ blockWords casing text block) : block.start ≤ w.start ∧ w.start < w.stop ∧ w.stop ≤ block.stop := by
  obtain ⟨body, found⟩ := block_slice listed
  obtain ⟨_, _, _, _, ends⟩ := slice_iff.mp found
  rw [blockWords, found, Option.getD_some, words_of] at inside
  obtain ⟨raw, within, rfl⟩ := List.mem_map.mp inside
  have placed := (wordsAt_laid block.start body).placed.1 raw within
  rw [ends] at placed
  exact placed

end

end Optimise

end CommonMeasure
