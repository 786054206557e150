import CommonMeasure.Json.Parse

/-!
# Text that stops short

A strict prefix of an object's text is not a document, whether nothing follows it or another
object's text does.
-/

namespace CommonMeasure.Json

def Dead (rest : Bytes) : Prop := ∀ b ∈ (skipSpace rest).head?, b ≠ 44 ∧ b ≠ 58 ∧ b ≠ 93 ∧ b ≠ 125

theorem dead_nil : Dead [] := by simp [Dead, skipSpace]

theorem dead_token {b : UInt8} {rest : Bytes} (token : isSpace b = false)
    (other : b ≠ 44 ∧ b ≠ 58 ∧ b ≠ 93 ∧ b ≠ 125) : Dead (b :: rest) := by
  simpa [Dead, token] using other

theorem Dead.next {rest : Bytes} (dead : Dead rest) {closer : UInt8} (known : closer = 93 ∨ closer = 125) :
    readNext closer rest = none := by
  unfold readNext
  split
  · rfl
  · rename_i b more read
    have other := dead b (by simp [read])
    rw [if_neg (by rcases known with rfl | rfl <;> simp [other]), if_neg other.1]

theorem Dead.colon {rest : Bytes} (dead : Dead rest) : readByte 58 rest = none := by
  unfold readByte
  split
  · rfl
  · rename_i b more read
    exact if_neg (dead b (by simp [read])).2.1

def Follow (t : Bytes) : Prop :=
  t = [] ∨ ∃ name value more, LetterName name ∧ t = write (.object ((name, value) :: more))

theorem Follow.shape {t : Bytes} (follow : Follow t) :
    t = [] ∨ ∃ c rest, t = 123 :: 34 :: c :: rest ∧ 97 ≤ c ∧ c ≤ 122 := by
  rcases follow with empty | ⟨name, value, more, ⟨c, rest, text, low, high⟩, rfl⟩
  · exact Or.inl empty
  · have plain : escape c = [c] :=
      forall_byte (P := fun c => 97 ≤ c → c ≤ 122 → escape c = [c]) (by decide +kernel) c low high
    right
    cases more with
    | nil =>
      refine ⟨c, rest.flatMap escape ++ 34 :: 58 :: (write value ++ [125]), ?_, low, high⟩
      simp [write, writeMembers, writeString, text, plain]
    | cons next more =>
      refine ⟨c, rest.flatMap escape ++ 34 :: 58 :: (write value ++ 44 :: writeMembers (next :: more)), ?_, low, high⟩
      simp [write, writeMembers, writeString, text, plain]

theorem Follow.head {t : Bytes} (follow : Follow t) : t = [] ∨ ∃ rest, t = 123 :: rest := by
  rcases follow.shape with empty | ⟨c, rest, same, _⟩
  · exact Or.inl empty
  · exact Or.inr ⟨_, same⟩

theorem Follow.ends {t : Bytes} (follow : Follow t) : Ends t := by
  rcases follow.head with rfl | ⟨rest, rfl⟩
  · simp [Ends]
  · exact ends_cons (by decide)

theorem Follow.dead {t : Bytes} (follow : Follow t) : Dead t := by
  rcases follow.head with rfl | ⟨rest, rfl⟩
  · exact dead_nil
  · exact dead_token (by decide) (by decide)

theorem Follow.byte {t : Bytes} (follow : Follow t) {b : UInt8} (other : b ≠ 123) : readByte b t = none := by
  rcases follow.head with rfl | ⟨rest, rfl⟩
  · rfl
  · exact readByte_other (by decide) (Ne.symm other) rest

theorem Follow.value {t : Bytes} (follow : Follow t) {fuel depth : Nat} {r : Value × Bytes}
    (enough : 2 * t.length ≤ fuel) (read : readValue fuel depth t = some r) : Dead r.2 := by
  rcases follow with rfl | ⟨name, value, more, _, rfl⟩
  · cases fuel <;> simp [readValue, skipSpace] at read
  · have whole : readValue fuel depth (write (.object ((name, value) :: more)) ++ []) = _ :=
      readValue_write _ (by simp [Ends]) enough
    rw [List.append_nil, read] at whole
    split at whole
    · rw [Option.some.inj whole]
      exact dead_nil
    · cases whole

/-! ### Strings that stop short -/

theorem readBody_unit_short {bytes : Bytes} (short : bytes.length < 4 ∨ 123 ∈ bytes.take 4) :
    readBody (92 :: 117 :: bytes) = none := by
  match bytes with
  | [] | [_] | [_, _] | [_, _, _] =>
    rw [readBody.eq_def]
    rfl
  | a :: b :: c :: d :: rest =>
    have brace : hexValue 123 = none := by decide
    rw [readBody_unit]
    have member : 123 = a ∨ 123 = b ∨ 123 = c ∨ 123 = d := by
      rcases short with few | member
      · simp at few
        omega
      · simpa using member
    have refused : readUnit a b c d = none := by
      unfold readUnit
      rcases member with rfl | rfl | rfl | rfl
      · simp [brace]
      · cases hexValue a <;> simp [brace]
      · cases hexValue a <;> cases hexValue b <;> simp [brace]
      · cases hexValue a <;> cases hexValue b <;> cases hexValue c <;> simp [brace]
    rw [refused]
    rfl

theorem readBody_follow {t : Bytes} (follow : Follow t) {r : Bytes × Bytes} (read : readBody t = some r) :
    Dead r.2 := by
  rcases follow.shape with rfl | ⟨c, rest, rfl, low, high⟩
  · simp [readBody] at read
  · rw [readBody_plain (by decide) (by decide) (by decide), readBody_quote] at read
    rw [← Option.some.inj read]
    exact forall_byte (P := fun c => 97 ≤ c → c ≤ 122 → Dead (c :: rest))
      (fun n low high => dead_token
        (forall_byte (P := fun c => 97 ≤ c → c ≤ 122 → isSpace c = false) (by decide +kernel) _ low high)
        (forall_byte (P := fun c => 97 ≤ c → c ≤ 122 → c ≠ 44 ∧ c ≠ 58 ∧ c ≠ 93 ∧ c ≠ 125) (by decide +kernel) _ low high))
      c low high

theorem readBody_slash_follow {t : Bytes} (follow : Follow t) : readBody (92 :: t) = none := by
  rcases follow.head with rfl | ⟨rest, rfl⟩
  · rw [readBody.eq_def]
    rfl
  · rw [readBody_slash (by decide)]
    rfl

theorem readBody_escape_cut {b : UInt8} {cut t : Bytes} (follow : Follow t) (prefixed : cut <+: escape b)
    (short : cut ≠ escape b) {r : Bytes × Bytes} (read : readBody (cut ++ t) = some r) : Dead r.2 := by
  have shape : (∃ c, escape b = [92, c]) ∨ (∃ h l, escape b = [92, 117, 48, 48, h, l]) ∨ escape b = [b] := by
    unfold escape
    repeat' split
    all_goals simp
  rcases shape with ⟨c, same⟩ | ⟨h, l, same⟩ | same
  · rw [same] at prefixed short
    rcases cut_cons prefixed with rfl | ⟨rest, rfl, after⟩
    · exact readBody_follow follow read
    · rcases cut_cons after with rfl | ⟨rest, rfl, nothing⟩
      · rw [List.singleton_append, readBody_slash_follow follow] at read
        cases read
      · exact (short (by rw [List.prefix_nil.mp nothing])).elim
  · rw [same] at prefixed short
    have unit : ∀ digits : Bytes, digits.length < 4 → readBody (92 :: 117 :: (digits ++ t)) = none := by
      intro digits few
      apply readBody_unit_short
      rcases follow.head with rfl | ⟨rest, rfl⟩
      · exact Or.inl (by simpa using few)
      · right
        rw [List.take_append, show 4 - digits.length = (3 - digits.length) + 1 by omega, List.take_succ_cons]
        simp
    rcases cut_cons prefixed with rfl | ⟨rest, rfl, after⟩
    · exact readBody_follow follow read
    · rcases cut_cons after with rfl | ⟨rest, rfl, digits⟩
      · rw [List.singleton_append, readBody_slash_follow follow] at read
        cases read
      · have few : rest.length < 4 := by
          have bound := digits.length_le
          by_contra full
          simp only [List.length_cons, List.length_nil] at bound
          exact short (by rw [digits.eq_of_length (by simp; omega)])
        rw [List.cons_append, List.cons_append, unit rest few] at read
        cases read
  · rw [same] at prefixed short
    rcases cut_cons prefixed with rfl | ⟨rest, rfl, nothing⟩
    · exact readBody_follow follow read
    · exact (short (by rw [List.prefix_nil.mp nothing])).elim

theorem readBody_cut {bytes cut t : Bytes} (follow : Follow t)
    (prefixed : cut <+: bytes.flatMap escape ++ [34]) (short : cut ≠ bytes.flatMap escape ++ [34])
    {r : Bytes × Bytes} (read : readBody (cut ++ t) = some r) : Dead r.2 := by
  induction bytes generalizing cut r with
  | nil =>
    rcases cut_cons prefixed with rfl | ⟨rest, rfl, nothing⟩
    · exact readBody_follow follow read
    · exact (short (by rw [List.prefix_nil.mp nothing]; rfl)).elim
  | cons b bytes ih =>
    rw [List.flatMap_cons, List.append_assoc] at prefixed short
    rcases cut_append prefixed with ⟨inside, different⟩ | ⟨rest, rfl, later⟩
    · exact readBody_escape_cut follow inside different read
    · rw [List.append_assoc, readBody_escape, Option.map_eq_some_iff] at read
      obtain ⟨r', read, rfl⟩ := read
      exact ih (r := r') later (fun same => short (by rw [same])) read

theorem readText_cut {s : String} {cut t : Bytes} (follow : Follow t)
    (prefixed : cut <+: (utf8 s).flatMap escape ++ [34]) (short : cut ≠ (utf8 s).flatMap escape ++ [34])
    {r : String × Bytes} (read : readText (cut ++ t) = some r) : Dead r.2 := by
  simp only [readText, Option.bind_eq_some_iff, Option.map_eq_some_iff] at read
  obtain ⟨body, bodyRead, s, _, rfl⟩ := read
  exact readBody_cut follow prefixed short bodyRead

theorem readNumber_cut {n : Number} {cut t : Bytes} (follow : Follow t) (prefixed : cut <+: n.text)
    {r : Number × Bytes} (read : readNumber (cut ++ t) = some r) : r.2 = t := by
  have all : ∀ b ∈ cut, isNumberByte b = true := fun b member => n.text_bytes b (prefixed.subset member)
  have dropped := (takeWhile_number all follow.ends).2
  unfold readNumber at read
  split at read
  · rw [← Option.some.inj read]
    exact dropped
  · cases read

theorem readLiteral_cut {literal cut t : Bytes} (follow : Follow t) (plain : 123 ∉ literal)
    (prefixed : cut <+: literal) (short : cut ≠ literal) : readLiteral literal (cut ++ t) = none := by
  apply if_neg
  intro whole
  rw [List.isPrefixOf_iff_prefix] at whole
  obtain ⟨missing, rfl⟩ := prefixed
  rw [List.prefix_append_right_inj] at whole
  rcases follow.head with rfl | ⟨rest, rfl⟩
  · exact short (by rw [List.prefix_nil.mp whole, List.append_nil])
  · rcases cut_cons whole with rfl | ⟨rest, rfl, _⟩
    · exact short (by rw [List.append_nil])
    · exact plain (by simp)

theorem readNext_follow {t : Bytes} (follow : Follow t) {closer : UInt8} (known : closer = 93 ∨ closer = 125) :
    readNext closer t = none :=
  follow.dead.next known

theorem readItems_follow {t : Bytes} (follow : Follow t) {fuel depth : Nat} (enough : 2 * t.length + 1 ≤ fuel) :
    readItems fuel depth t = none := by
  cases fuel with
  | zero => rfl
  | succ fuel =>
    rw [readItems, Option.bind_eq_none_iff]
    intro item read
    rw [(follow.value (by omega) read).next (Or.inl rfl)]
    rfl

theorem readMembers_follow {t : Bytes} (follow : Follow t) {fuel depth : Nat} : readMembers fuel depth t = none := by
  cases fuel with
  | zero => rfl
  | succ fuel =>
    rw [readMembers, follow.byte (by decide)]
    rfl

theorem readMembers_name_cut {name : String} {value cut t : Bytes} {fuel depth : Nat} (follow : Follow t)
    (prefixed : cut <+: writeString name ++ 58 :: value) (short : cut ≠ writeString name ++ 58 :: value)
    (inValue : ∀ rest, rest <+: value → rest ≠ value → cut = writeString name ++ 58 :: rest →
      ((readValue fuel depth (rest ++ t)).bind fun found =>
        (readNext 125 found.2).bind fun next =>
          if next.1 then some ([(name, found.1)], next.2)
          else (readMembers fuel depth next.2).map fun r => ((name, found.1) :: r.1, r.2)) = none) :
    readMembers (fuel + 1) depth (cut ++ t) = none := by
  rw [readMembers]
  rcases cut_append prefixed with ⟨inside, different⟩ | ⟨rest, rfl, after⟩
  · rw [writeString] at inside different
    rcases cut_cons inside with rfl | ⟨rest, rfl, body⟩
    · rw [List.nil_append, follow.byte (by decide)]
      rfl
    · rw [List.cons_append, readByte_same (by decide), Option.bind_some, Option.bind_eq_none_iff]
      intro text read
      rw [(readText_cut follow body (fun same => different (by rw [same])) read).colon]
      rfl
  · rw [writeString] at short ⊢
    simp only [List.cons_append, List.append_assoc, List.nil_append]
    rw [readByte_same (by decide), Option.bind_some, readText_written, Option.bind_some]
    rcases cut_cons after with rfl | ⟨rest, rfl, tail⟩
    · rw [List.nil_append, follow.byte (by decide)]
      rfl
    · rw [List.cons_append, readByte_same (by decide), Option.bind_some]
      exact inValue rest tail (fun same => short (by rw [same])) rfl

theorem readClosed_cut {members : List (String × Value)} {rest t : Bytes} {fuel depth : Nat} (follow : Follow t)
    (inside : rest <+: writeMembers members) (short : rest ≠ writeMembers members)
    (inner : members ≠ [] → readMembers fuel depth (rest ++ t) = none) :
    readByte 125 (rest ++ t) = none ∧ readMembers fuel depth (rest ++ t) = none := by
  cases rest with
  | nil => exact ⟨follow.byte (by decide), readMembers_follow follow⟩
  | cons b rest =>
    by_cases empty : members = []
    · subst empty
      rw [writeMembers] at inside short
      rcases cut_cons inside with absurdity | ⟨more, same, nothing⟩
      · cases absurdity
      · rw [List.prefix_nil.mp nothing] at same
        exact (short same).elim
    · obtain ⟨text, same⟩ := writeMembers_head empty
      rw [same] at inside
      obtain ⟨rfl, _⟩ := List.cons_prefix_cons.mp inside
      exact ⟨readByte_other (by decide) (by decide) _, inner empty⟩

mutual

theorem readValue_cut : (v : Value) → ∀ {cut t : Bytes} {fuel depth : Nat} {r : Value × Bytes}, Follow t →
    cut <+: write v → cut ≠ write v → 2 * (cut ++ t).length ≤ fuel →
    readValue fuel depth (cut ++ t) = some r → Dead r.2
  | _, _, _, 0, _, _, _, _, _, _, read => by simp [readValue] at read
  | .null, cut, t, fuel + 1, depth, r, follow, prefixed, short, enough, read => by
    rw [write] at prefixed short
    rcases cut_cons prefixed with rfl | ⟨rest, rfl, inside⟩
    · exact follow.value enough read
    · have fails := readLiteral_cut follow (by decide) inside (fun same => short (by rw [same]))
      simp [readValue, isSpace, fails] at read
  | .bool true, cut, t, fuel + 1, depth, r, follow, prefixed, short, enough, read => by
    rw [write] at prefixed short
    rcases cut_cons prefixed with rfl | ⟨rest, rfl, inside⟩
    · exact follow.value enough read
    · have fails := readLiteral_cut follow (by decide) inside (fun same => short (by rw [same]))
      simp [readValue, isSpace, fails] at read
  | .bool false, cut, t, fuel + 1, depth, r, follow, prefixed, short, enough, read => by
    rw [write] at prefixed short
    rcases cut_cons prefixed with rfl | ⟨rest, rfl, inside⟩
    · exact follow.value enough read
    · have fails := readLiteral_cut follow (by decide) inside (fun same => short (by rw [same]))
      simp [readValue, isSpace, fails] at read
  | .number n, cut, t, fuel + 1, depth, r, follow, prefixed, short, enough, read => by
    rw [write] at prefixed
    cases cut with
    | nil => exact follow.value enough read
    | cons b rest =>
      have member : isNumberByte b = true := n.text_bytes b (prefixed.subset List.mem_cons_self)
      obtain ⟨token, quote, bracket, brace, null, yes, no⟩ := numberByte_token member
      rw [List.cons_append, readValue, skipSpace_token token] at read
      simp only [if_neg quote, if_neg bracket, if_neg brace, if_neg null, if_neg yes, if_neg no,
        Option.map_eq_some_iff] at read
      obtain ⟨found, number, rfl⟩ := read
      rw [← List.cons_append] at number
      rw [readNumber_cut follow prefixed number]
      exact follow.dead
  | .string s, cut, t, fuel + 1, depth, r, follow, prefixed, short, enough, read => by
    rw [write, writeString] at prefixed short
    rcases cut_cons prefixed with rfl | ⟨rest, rfl, inside⟩
    · exact follow.value enough read
    · rw [List.cons_append, readValue, skipSpace_token (by decide)] at read
      simp only [if_true, Option.map_eq_some_iff] at read
      obtain ⟨text, textRead, rfl⟩ := read
      exact readText_cut follow inside (fun same => short (by rw [same])) textRead
  | .array items, cut, t, fuel + 1, depth, r, follow, prefixed, short, enough, read => by
    rw [write] at prefixed short
    rcases cut_cons prefixed with rfl | ⟨rest, rfl, inside⟩
    · exact follow.value enough read
    · rw [List.cons_append, readValue, skipSpace_token (by decide)] at read
      simp only [if_neg (show (91 : UInt8) ≠ 34 by decide), if_true] at read
      simp only [List.cons_append, List.length_cons] at enough
      cases depth with
      | zero => cases read
      | succ depth =>
        have fails : readByte 93 (rest ++ t) = none ∧ readItems fuel depth (rest ++ t) = none := by
          cases rest with
          | nil => exact ⟨follow.byte (by decide), readItems_follow follow (by simp at enough ⊢; omega)⟩
          | cons b rest =>
            by_cases empty : items = []
            · subst empty
              rw [writeItems] at inside short
              rcases cut_cons inside with absurdity | ⟨more, same, nothing⟩
              · cases absurdity
              · rw [List.prefix_nil.mp nothing] at same
                exact (short (by rw [same])).elim
            · refine ⟨?_, readItems_cut items empty follow inside (fun same => short (by rw [same])) (by omega)⟩
              obtain ⟨c, text, same, starts⟩ := writeItems_head empty
              rw [same] at inside
              obtain ⟨rfl, _⟩ := List.cons_prefix_cons.mp inside
              refine readByte_other (startsValue_token starts) ?_ _
              rintro rfl
              exact absurd starts (by decide)
        simp [fails] at read
  | .object members, cut, t, fuel + 1, depth, r, follow, prefixed, short, enough, read => by
    rw [write] at prefixed short
    rcases cut_cons prefixed with rfl | ⟨rest, rfl, inside⟩
    · exact follow.value enough read
    · rw [List.cons_append, readValue, skipSpace_token (by decide)] at read
      simp only [if_neg (show (123 : UInt8) ≠ 34 by decide), if_neg (show (123 : UInt8) ≠ 91 by decide),
        if_true] at read
      simp only [List.cons_append, List.length_cons] at enough
      cases depth with
      | zero => cases read
      | succ depth =>
        have fails := readClosed_cut follow inside (fun same => short (by rw [same])) fun empty =>
          show readMembers fuel depth (rest ++ t) = none from
            readMembers_cut members empty follow inside (fun same => short (by rw [same])) (by omega)
        simp [fails] at read

theorem readItems_cut : (items : List Value) → items ≠ [] → ∀ {cut t : Bytes} {fuel depth : Nat}, Follow t →
    cut <+: writeItems items → cut ≠ writeItems items → 2 * (cut ++ t).length + 1 ≤ fuel →
    readItems fuel depth (cut ++ t) = none
  | [], empty, _, _, _, _, _, _, _, _ => (empty rfl).elim
  | _ :: _, _, _, _, 0, _, _, _, _, _ => rfl
  | [item], _, cut, t, fuel + 1, depth, follow, prefixed, short, enough => by
    rw [writeItems] at prefixed short
    rw [readItems, Option.bind_eq_none_iff]
    intro found read
    rcases cut_append prefixed with ⟨inside, different⟩ | ⟨rest, rfl, after⟩
    · rw [(readValue_cut item follow inside different (by omega) read).next (Or.inl rfl)]
      rfl
    · rcases cut_cons after with rfl | ⟨rest, rfl, nothing⟩
      · rw [List.append_nil, readValue_write item follow.ends
          (by simp only [List.length_append] at enough; omega)] at read
        split at read
        · rw [← Option.some.inj read, readNext_follow follow (Or.inl rfl)]
          rfl
        · cases read
      · exact (short (by rw [List.prefix_nil.mp nothing])).elim
  | item :: next :: more, _, cut, t, fuel + 1, depth, follow, prefixed, short, enough => by
    rw [writeItems] at prefixed short
    · rw [readItems, Option.bind_eq_none_iff]
      intro found read
      rcases cut_append prefixed with ⟨inside, different⟩ | ⟨rest, rfl, after⟩
      · rw [(readValue_cut item follow inside different (by omega) read).next (Or.inl rfl)]
        rfl
      · rcases cut_cons after with rfl | ⟨rest, rfl, later⟩
        · rw [List.append_nil, readValue_write item follow.ends
            (by simp only [List.length_append] at enough; omega)] at read
          split at read
          · rw [← Option.some.inj read, readNext_follow follow (Or.inl rfl)]
            rfl
          · cases read
        · simp only [List.length_append, List.length_cons] at enough
          rw [List.append_assoc, List.cons_append, readValue_write item (ends_cons (by decide)) (by omega)] at read
          split at read
          · rw [← Option.some.inj read, readNext_comma (by decide), Option.bind_some,
              readItems_cut (next :: more) (by simp) follow later (fun same => short (by rw [same]))
                (by simp only [List.length_append]; omega)]
            rfl
          · cases read
    all_goals simp

theorem readMembers_cut : (members : List (String × Value)) → members ≠ [] →
    ∀ {cut t : Bytes} {fuel depth : Nat}, Follow t → cut <+: writeMembers members →
    cut ≠ writeMembers members → 2 * (cut ++ t).length + 1 ≤ fuel → readMembers fuel depth (cut ++ t) = none
  | [], empty, _, _, _, _, _, _, _, _ => (empty rfl).elim
  | _ :: _, _, _, _, 0, _, _, _, _, _ => rfl
  | [(name, value)], _, cut, t, fuel + 1, depth, follow, prefixed, short, enough => by
    rw [writeMembers] at prefixed short
    refine readMembers_name_cut follow prefixed short ?_
    intro rest inside different same
    subst same
    simp only [List.length_append, List.length_cons] at enough
    rw [Option.bind_eq_none_iff]
    intro found read
    rcases cut_append inside with ⟨within, strict⟩ | ⟨rest, rfl, after⟩
    · rw [(readValue_cut value follow within strict (by simp only [List.length_append]; omega) read).next (Or.inr rfl)]
      rfl
    · rcases cut_cons after with rfl | ⟨rest, rfl, nothing⟩
      · simp only [List.length_append] at enough
        rw [List.append_nil, readValue_write value follow.ends (by omega)] at read
        split at read
        · rw [← Option.some.inj read, readNext_follow follow (Or.inr rfl)]
          rfl
        · cases read
      · exact (different (by rw [List.prefix_nil.mp nothing])).elim
  | (name, value) :: next :: more, _, cut, t, fuel + 1, depth, follow, prefixed, short, enough => by
    rw [writeMembers] at prefixed short
    · refine readMembers_name_cut follow prefixed short ?_
      intro rest inside different same
      subst same
      simp only [List.length_append, List.length_cons] at enough
      rw [Option.bind_eq_none_iff]
      intro found read
      rcases cut_append inside with ⟨within, strict⟩ | ⟨rest, rfl, after⟩
      · rw [(readValue_cut value follow within strict (by simp only [List.length_append]; omega) read).next (Or.inr rfl)]
        rfl
      · simp only [List.length_append] at enough
        rcases cut_cons after with rfl | ⟨rest, rfl, later⟩
        · rw [List.append_nil, readValue_write value follow.ends (by omega)] at read
          split at read
          · rw [← Option.some.inj read, readNext_follow follow (Or.inr rfl)]
            rfl
          · cases read
        · simp only [List.length_cons] at enough
          rw [List.append_assoc, List.cons_append, readValue_write value (ends_cons (by decide)) (by omega)] at read
          split at read
          · rw [← Option.some.inj read, readNext_comma (by decide), Option.bind_some,
              readMembers_cut (next :: more) (by simp) follow later (fun same => different (by rw [same]))
                (by simp only [List.length_append]; omega)]
            rfl
          · cases read
    all_goals simp

end

theorem readObject_cut {members : List (String × Value)} {cut t : Bytes} {fuel depth : Nat} (follow : Follow t)
    (begun : cut ≠ []) (prefixed : cut <+: write (.object members)) (short : cut ≠ write (.object members))
    (enough : 2 * (cut ++ t).length ≤ fuel) : readValue fuel depth (cut ++ t) = none := by
  rw [write] at prefixed short
  rcases cut_cons prefixed with empty | ⟨rest, rfl, inside⟩
  · exact (begun empty).elim
  cases fuel with
  | zero => rfl
  | succ fuel =>
    simp only [List.cons_append, List.length_cons] at enough
    rw [List.cons_append, readValue, skipSpace_token (by decide)]
    simp only [if_neg (show (123 : UInt8) ≠ 34 by decide), if_neg (show (123 : UInt8) ≠ 91 by decide), if_true]
    cases depth with
    | zero => rfl
    | succ depth =>
      obtain ⟨opened, inner⟩ := readClosed_cut follow inside (fun same => short (by rw [same])) fun empty =>
        show readMembers fuel depth (rest ++ t) = none from
          readMembers_cut members empty follow inside (fun same => short (by rw [same])) (by omega)
      rw [opened]
      simp only [inner, Option.map_none]

end CommonMeasure.Json
