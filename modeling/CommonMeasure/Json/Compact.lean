import CommonMeasure.Json.Cut

/-!
# The compact reader

A value that is read stays read when more fuel is given, and an opening brace after it is left over,
so an object after anything but whitespace is refused.
-/

namespace CommonMeasure.Json

section Extension

variable {tail : Bytes}

theorem skipSpace_extend (bytes : Bytes) : skipSpace (bytes ++ 123 :: tail) = skipSpace bytes ++ 123 :: tail := by
  induction bytes with
  | nil => exact skipSpace_token (by decide) tail
  | cons b bytes ih =>
    simp only [List.cons_append, skipSpace]
    split
    · exact ih
    · rfl

theorem readByte_extend {b : UInt8} (other : b ≠ 123) (bytes : Bytes) :
    readByte b (bytes ++ 123 :: tail) = (readByte b bytes).map (· ++ 123 :: tail) := by
  unfold readByte
  rw [skipSpace_extend]
  cases skipSpace bytes with
  | nil => exact if_neg (Ne.symm other)
  | cons c rest =>
    simp only [List.cons_append]
    split <;> rfl

theorem readNext_extend {closer : UInt8} (other : closer ≠ 123) (bytes : Bytes) :
    readNext closer (bytes ++ 123 :: tail) = (readNext closer bytes).map fun next => (next.1, next.2 ++ 123 :: tail) := by
  unfold readNext
  rw [skipSpace_extend]
  cases skipSpace bytes with
  | nil => simp [Ne.symm other]
  | cons c rest =>
    simp only [List.cons_append]
    split
    · rfl
    · split <;> rfl

theorem length_of_few {rest : Bytes} (few : ∀ a b c d more, rest = a :: b :: c :: d :: more → False) :
    rest.length < 4 := by
  by_contra enough
  obtain ⟨a, rest, rfl⟩ := List.exists_cons_of_length_pos (l := rest) (by omega)
  obtain ⟨b, rest, rfl⟩ := List.exists_cons_of_length_pos (l := rest) (by grind)
  obtain ⟨c, rest, rfl⟩ := List.exists_cons_of_length_pos (l := rest) (by grind)
  obtain ⟨d, rest, rfl⟩ := List.exists_cons_of_length_pos (l := rest) (by grind)
  exact few a b c d rest rfl

theorem readBody_extend {bytes : Bytes} {r : Bytes × Bytes} (read : readBody bytes = some r) :
    readBody (bytes ++ tail) = some (r.1, r.2 ++ tail) := by
  induction bytes using readBody.induct generalizing r with
  | case1 => simp [readBody] at read
  | case2 rest =>
    rw [readBody_quote] at read
    rw [← Option.some.inj read]
    exact readBody_quote _
  | case3 _ =>
    rw [readBody.eq_def] at read
    cases read
  | case4 a b c d rest _ ih =>
    rw [readBody_unit] at read
    simp only [Option.bind_eq_some_iff, Option.map_eq_some_iff] at read
    obtain ⟨unit, unitRead, found, read, rfl⟩ := read
    simp only [List.cons_append]
    rw [readBody_unit, unitRead, Option.bind_some, ih read]
    rfl
  | case5 rest few _ =>
    have short := length_of_few few
    rw [readBody_unit_short (Or.inl short)] at read
    cases read
  | case6 c rest unit _ ih =>
    rw [readBody_slash unit] at read
    simp only [Option.bind_eq_some_iff, Option.map_eq_some_iff] at read
    obtain ⟨plain, plainRead, found, read, rfl⟩ := read
    simp only [List.cons_append]
    rw [readBody_slash unit, plainRead, Option.bind_some, ih read]
    rfl
  | case7 b rest quote slash control =>
    rw [readBody.eq_def] at read
    simp only [if_neg quote, if_neg slash, if_pos control] at read
    cases read
  | case8 b rest quote slash control ih =>
    rw [readBody_plain quote slash control, Option.map_eq_some_iff] at read
    obtain ⟨found, read, rfl⟩ := read
    rw [List.cons_append, readBody_plain quote slash control, ih read]
    rfl

theorem readText_extend {bytes : Bytes} {r : String × Bytes} (read : readText bytes = some r) :
    readText (bytes ++ tail) = some (r.1, r.2 ++ tail) := by
  simp only [readText, Option.bind_eq_some_iff, Option.map_eq_some_iff] at read ⊢
  obtain ⟨body, bodyRead, s, decoded, rfl⟩ := read
  exact ⟨_, readBody_extend bodyRead, s, decoded, rfl⟩

theorem readLiteral_extend {literal bytes rest : Bytes} (read : readLiteral literal bytes = some rest) :
    readLiteral literal (bytes ++ tail) = some (rest ++ tail) := by
  unfold readLiteral at read ⊢
  split at read
  · rename_i found
    obtain ⟨after, rfl⟩ := List.isPrefixOf_iff_prefix.mp found
    rw [if_pos (List.isPrefixOf_iff_prefix.mpr ⟨after ++ tail, by simp⟩), ← Option.some.inj read]
    simp
  · cases read

theorem readNumber_extend {bytes : Bytes} {r : Number × Bytes} (read : readNumber bytes = some r) :
    readNumber (bytes ++ 123 :: tail) = some (r.1, r.2 ++ 123 :: tail) := by
  have split_ := (List.takeWhile_append_dropWhile (p := isNumberByte) (l := bytes)).symm
  have all : ∀ b ∈ bytes.takeWhile isNumberByte, isNumberByte b = true := by
    intro b member
    exact List.all_eq_true.mp List.all_takeWhile b member
  have ends : Ends (bytes.dropWhile isNumberByte ++ 123 :: tail) := by
    cases found : bytes.dropWhile isNumberByte with
    | nil => exact ends_cons (by decide)
    | cons b rest =>
      have stop := List.head?_dropWhile_not isNumberByte bytes
      rw [found] at stop
      exact ends_cons (by simpa using stop)
  obtain ⟨taken, dropped⟩ := takeWhile_number all ends
  rw [← List.append_assoc, ← split_] at taken dropped
  unfold readNumber at read ⊢
  split at read
  · rename_i whole
    rw [← Option.some.inj read, dif_pos (by rw [taken]; exact whole), dropped]
    simp [taken]
  · cases read

theorem read_extend (fuel : Nat) :
    (∀ {depth bytes r}, readValue fuel depth bytes = some r → ∀ more,
      readValue (fuel + more) depth (bytes ++ 123 :: tail) = some (r.1, r.2 ++ 123 :: tail)) ∧
    (∀ {depth bytes r}, readItems fuel depth bytes = some r → ∀ more,
      readItems (fuel + more) depth (bytes ++ 123 :: tail) = some (r.1, r.2 ++ 123 :: tail)) ∧
    (∀ {depth bytes r}, readMembers fuel depth bytes = some r → ∀ more,
      readMembers (fuel + more) depth (bytes ++ 123 :: tail) = some (r.1, r.2 ++ 123 :: tail)) := by
  induction fuel with
  | zero => simp [readValue, readItems, readMembers]
  | succ fuel ih =>
    obtain ⟨value, items, members⟩ := ih
    refine ⟨?_, ?_, ?_⟩
    · intro depth bytes r read more
      rw [Nat.succ_add]
      rw [readValue] at read ⊢
      rw [skipSpace_extend]
      cases found : skipSpace bytes with
      | nil => simp [found] at read
      | cons b rest =>
        simp only [found, List.cons_append] at read ⊢
        split at read
        · rename_i quote
          rw [if_pos quote]
          obtain ⟨text, textRead, rfl⟩ := Option.map_eq_some_iff.mp read
          rw [readText_extend textRead]
          rfl
        rename_i quote
        rw [if_neg quote]
        split at read
        · rename_i bracket
          rw [if_pos bracket]
          cases depth with
          | zero => cases read
          | succ depth =>
            simp only at read ⊢
            rw [readByte_extend (by decide)]
            cases closed : readByte 93 rest with
            | some after =>
              simp only [closed, Option.map_some] at read ⊢
              rw [← Option.some.inj read]
            | none =>
              simp only [closed, Option.map_none] at read ⊢
              obtain ⟨inner, innerRead, rfl⟩ := Option.map_eq_some_iff.mp read
              rw [items innerRead]
              rfl
        rename_i bracket
        rw [if_neg bracket]
        split at read
        · rename_i brace
          rw [if_pos brace]
          cases depth with
          | zero => cases read
          | succ depth =>
            simp only at read ⊢
            rw [readByte_extend (by decide)]
            cases closed : readByte 125 rest with
            | some after =>
              simp only [closed, Option.map_some] at read ⊢
              rw [← Option.some.inj read]
            | none =>
              simp only [closed, Option.map_none] at read ⊢
              obtain ⟨inner, innerRead, rfl⟩ := Option.map_eq_some_iff.mp read
              rw [members innerRead]
              rfl
        rename_i brace
        rw [if_neg brace]
        split at read
        · rename_i word
          rw [if_pos word]
          obtain ⟨after, afterRead, rfl⟩ := Option.map_eq_some_iff.mp read
          rw [readLiteral_extend afterRead]
          rfl
        rename_i null
        rw [if_neg null]
        split at read
        · rename_i word
          rw [if_pos word]
          obtain ⟨after, afterRead, rfl⟩ := Option.map_eq_some_iff.mp read
          rw [readLiteral_extend afterRead]
          rfl
        rename_i yes
        rw [if_neg yes]
        split at read
        · rename_i word
          rw [if_pos word]
          obtain ⟨after, afterRead, rfl⟩ := Option.map_eq_some_iff.mp read
          rw [readLiteral_extend afterRead]
          rfl
        rename_i no
        rw [if_neg no]
        obtain ⟨number, numberRead, rfl⟩ := Option.map_eq_some_iff.mp read
        rw [← List.cons_append, readNumber_extend numberRead]
        rfl
    · intro depth bytes r read more
      rw [Nat.succ_add]
      rw [readItems] at read ⊢
      obtain ⟨item, itemRead, read⟩ := Option.bind_eq_some_iff.mp read
      obtain ⟨next, nextRead, read⟩ := Option.bind_eq_some_iff.mp read
      rw [value itemRead, Option.bind_some, readNext_extend (by decide), nextRead, Option.map_some, Option.bind_some]
      split at read
      · rename_i closed
        rw [if_pos closed, ← Option.some.inj read]
      · rename_i open_
        obtain ⟨later, laterRead, rfl⟩ := Option.map_eq_some_iff.mp read
        rw [if_neg open_, items laterRead]
        rfl
    · intro depth bytes r read more
      rw [Nat.succ_add]
      rw [readMembers] at read ⊢
      obtain ⟨afterQuote, quoteRead, read⟩ := Option.bind_eq_some_iff.mp read
      obtain ⟨name, nameRead, read⟩ := Option.bind_eq_some_iff.mp read
      obtain ⟨afterColon, colonRead, read⟩ := Option.bind_eq_some_iff.mp read
      obtain ⟨found, valueRead, read⟩ := Option.bind_eq_some_iff.mp read
      obtain ⟨next, nextRead, read⟩ := Option.bind_eq_some_iff.mp read
      rw [readByte_extend (by decide), quoteRead, Option.map_some, Option.bind_some, readText_extend nameRead,
        Option.bind_some, readByte_extend (by decide), colonRead, Option.map_some, Option.bind_some,
        value valueRead, Option.bind_some, readNext_extend (by decide), nextRead, Option.map_some, Option.bind_some]
      split at read
      · rename_i closed
        rw [if_pos closed, ← Option.some.inj read]
      · rename_i open_
        obtain ⟨later, laterRead, rfl⟩ := Option.map_eq_some_iff.mp read
        rw [if_neg open_, members laterRead]
        rfl

end Extension

/-! ### An object after other bytes -/

section Glue

def Stuck (rest : Bytes) : Prop := ∃ b more, skipSpace rest = b :: more ∧ b ≠ 44 ∧ b ≠ 58 ∧ b ≠ 93 ∧ b ≠ 125

theorem Stuck.next {rest : Bytes} (stuck : Stuck rest) {closer : UInt8} (known : closer = 93 ∨ closer = 125) :
    readNext closer rest = none := by
  obtain ⟨b, more, read, comma, _, bracket, brace⟩ := stuck
  simp only [readNext, read, if_neg comma]
  rcases known with rfl | rfl
  · exact if_neg bracket
  · exact if_neg brace

theorem Stuck.colon {rest : Bytes} (stuck : Stuck rest) : readByte 58 rest = none := by
  obtain ⟨b, more, read, _, colon, _⟩ := stuck
  simp only [readByte, read, if_neg colon]

variable {name : String} {value : Value} {more : List (String × Value)} {t : Bytes}

theorem readBody_glued (letter : LetterName name) (object : t = write (.object ((name, value) :: more)))
    {bytes : Bytes} {r : Bytes × Bytes} (read : readBody (bytes ++ t) = some r) :
    (∃ rest, r.2 = rest ++ t) ∨ Stuck r.2 := by
  have follow : Follow t := Or.inr ⟨name, value, more, letter, object⟩
  have brace : ∃ tail, t = 123 :: tail := ⟨_, by rw [object, write]⟩
  induction bytes using readBody.induct generalizing r with
  | case1 =>
    obtain ⟨c, rest, same, low, high⟩ := follow.shape.resolve_left (by simp [object, write])
    rw [List.nil_append, same, readBody_plain (by decide) (by decide) (by decide), readBody_quote] at read
    rw [← Option.some.inj read]
    have token : isSpace c = false ∧ c ≠ 44 ∧ c ≠ 58 ∧ c ≠ 93 ∧ c ≠ 125 :=
      forall_byte (P := fun c => 97 ≤ c → c ≤ 122 → isSpace c = false ∧ c ≠ 44 ∧ c ≠ 58 ∧ c ≠ 93 ∧ c ≠ 125)
        (by decide +kernel) c low high
    exact Or.inr ⟨c, rest, skipSpace_token token.1 rest, token.2⟩
  | case2 rest =>
    rw [List.cons_append, readBody_quote] at read
    exact Or.inl ⟨rest, by rw [← Option.some.inj read]⟩
  | case3 _ =>
    rw [List.cons_append, List.nil_append, readBody_slash_follow follow] at read
    cases read
  | case4 a b c d rest _ ih =>
    simp only [List.cons_append] at read
    rw [readBody_unit] at read
    simp only [Option.bind_eq_some_iff, Option.map_eq_some_iff] at read
    obtain ⟨unit, _, found, read, rfl⟩ := read
    have inner := ih read
    exact inner
  | case5 rest few _ =>
    have short := length_of_few few
    obtain ⟨tail, same⟩ := brace
    have early : 123 ∈ (rest ++ t).take 4 := by
      rw [same, List.take_append, List.take_of_length_le (by omega), show 4 - rest.length = (3 - rest.length) + 1 by omega]
      simp
    simp only [List.cons_append] at read
    rw [readBody_unit_short (Or.inr early)] at read
    cases read
  | case6 c rest unit _ ih =>
    simp only [List.cons_append] at read
    rw [readBody_slash unit] at read
    simp only [Option.bind_eq_some_iff, Option.map_eq_some_iff] at read
    obtain ⟨plain, _, found, read, rfl⟩ := read
    have inner := ih read
    exact inner
  | case7 b rest quote slash control =>
    rw [List.cons_append, readBody.eq_def] at read
    simp only [if_neg quote, if_neg slash, if_pos control] at read
    cases read
  | case8 b rest quote slash control ih =>
    rw [List.cons_append, readBody_plain quote slash control, Option.map_eq_some_iff] at read
    obtain ⟨found, read, rfl⟩ := read
    have inner := ih read
    exact inner

theorem readText_glued (letter : LetterName name) (object : t = write (.object ((name, value) :: more)))
    {bytes : Bytes} {r : String × Bytes} (read : readText (bytes ++ t) = some r) :
    (∃ rest, r.2 = rest ++ t) ∨ Stuck r.2 := by
  simp only [readText, Option.bind_eq_some_iff, Option.map_eq_some_iff] at read
  obtain ⟨body, bodyRead, s, _, rfl⟩ := read
  exact readBody_glued letter object bodyRead

theorem readLiteral_glued {literal bytes tail rest : Bytes} (plain : 123 ∉ literal)
    (read : readLiteral literal (bytes ++ 123 :: tail) = some rest) : ∃ left, rest = left ++ 123 :: tail := by
  unfold readLiteral at read
  split at read
  · rename_i found
    rw [← Option.some.inj read]
    rcases cut_append (List.isPrefixOf_iff_prefix.mp found) with ⟨⟨left, rfl⟩, _⟩ | ⟨lapsed, same, into⟩
    · exact ⟨left, by simp⟩
    · rcases cut_cons into with rfl | ⟨inside, rfl, _⟩
      · exact ⟨[], by simp [same]⟩
      · exact (plain (by simp [same])).elim
  · cases read

theorem readNumber_glued {bytes tail : Bytes} {r : Number × Bytes}
    (read : readNumber (bytes ++ 123 :: tail) = some r) : ∃ left, r.2 = left ++ 123 :: tail := by
  unfold readNumber at read
  split at read
  · refine ⟨bytes.dropWhile isNumberByte, ?_⟩
    rw [← Option.some.inj read]
    have stop : isNumberByte 123 = false := by decide
    rw [List.dropWhile_append]
    split
    · rename_i lapsed
      simp [List.isEmpty_iff.mp lapsed, stop]
    · rfl
  · cases read

theorem readValue_object (object : t = write (.object ((name, value) :: more))) {fuel depth : Nat}
    {r : Value × Bytes} (read : readValue fuel depth t = some r) : r.2 = [] := by
  have extended : readValue (fuel + 2 * t.length) depth (t ++ 123 :: []) = _ :=
    (read_extend fuel).1 read (2 * t.length)
  rw [object, readValue_write _ (ends_cons (by decide)) (by omega)] at extended
  split at extended
  · have rest := congrArg Prod.snd (Option.some.inj extended)
    simpa using rest
  · cases extended

theorem read_glued (letter : LetterName name) (object : t = write (.object ((name, value) :: more))) (fuel : Nat) :
    (∀ {depth bytes r}, readValue fuel depth (bytes ++ t) = some r →
      (∃ rest, r.2 = rest ++ t) ∨ Stuck r.2 ∨ (skipSpace bytes = [] ∧ r.2 = [])) ∧
    (∀ {depth bytes r}, readItems fuel depth (bytes ++ t) = some r → ∃ rest, r.2 = rest ++ t) ∧
    (∀ {depth bytes r}, readMembers fuel depth (bytes ++ t) = some r → ∃ rest, r.2 = rest ++ t) := by
  obtain ⟨tail, brace⟩ : ∃ tail, t = 123 :: tail := ⟨_, by rw [object, write]⟩
  induction fuel with
  | zero => simp [readValue, readItems, readMembers]
  | succ fuel ih =>
    obtain ⟨ofValue, ofItems, ofMembers⟩ := ih
    -- After a value inside an array or an object, a bracket or a comma must follow.
    have next {closer : UInt8} (known : closer = 93 ∨ closer = 125) {depth : Nat} {bytes : Bytes} {r : Value × Bytes}
        (read : readValue fuel depth (bytes ++ t) = some r) {n : Bool × Bytes}
        (nextRead : readNext closer r.2 = some n) : ∃ rest, n.2 = rest ++ t := by
      rcases ofValue read with ⟨rest, same⟩ | stuck | ⟨_, nothing⟩
      · rw [same, brace, readNext_extend (by rcases known with rfl | rfl <;> decide), ← brace] at nextRead
        obtain ⟨found, _, rfl⟩ := Option.map_eq_some_iff.mp nextRead
        exact ⟨found.2, rfl⟩
      · rw [stuck.next known] at nextRead
        cases nextRead
      · rw [nothing] at nextRead
        cases nextRead
    refine ⟨?_, ?_, ?_⟩
    · intro depth bytes r read
      cases found : skipSpace bytes with
      | nil =>
        have same : readValue (fuel + 1) depth (bytes ++ t) = readValue (fuel + 1) depth t := by
          rw [readValue, readValue, brace, skipSpace_extend, found, List.nil_append, skipSpace_token (by decide)]
        exact Or.inr (Or.inr ⟨rfl, readValue_object object (same ▸ read)⟩)
      | cons b rest =>
        rw [readValue, brace, skipSpace_extend, found] at read
        simp only [List.cons_append] at read
        split at read
        · obtain ⟨text, textRead, rfl⟩ := Option.map_eq_some_iff.mp read
          rw [← brace] at textRead
          rcases readText_glued letter object textRead with whole | stuck
          · exact Or.inl whole
          · exact Or.inr (Or.inl stuck)
        split at read
        · cases depth with
          | zero => cases read
          | succ depth =>
            simp only at read
            rw [readByte_extend (by decide), ← brace] at read
            cases closed : readByte 93 rest with
            | some after =>
              simp only [closed, Option.map_some] at read
              exact Or.inl ⟨after, by rw [← Option.some.inj read]⟩
            | none =>
              simp only [closed, Option.map_none] at read
              obtain ⟨inner, innerRead, rfl⟩ := Option.map_eq_some_iff.mp read
              exact Or.inl (ofItems innerRead)
        split at read
        · cases depth with
          | zero => cases read
          | succ depth =>
            simp only at read
            rw [readByte_extend (by decide), ← brace] at read
            cases closed : readByte 125 rest with
            | some after =>
              simp only [closed, Option.map_some] at read
              exact Or.inl ⟨after, by rw [← Option.some.inj read]⟩
            | none =>
              simp only [closed, Option.map_none] at read
              obtain ⟨inner, innerRead, rfl⟩ := Option.map_eq_some_iff.mp read
              exact Or.inl (ofMembers innerRead)
        left
        rw [brace]
        split at read
        · obtain ⟨after, afterRead, rfl⟩ := Option.map_eq_some_iff.mp read
          exact readLiteral_glued (by decide) afterRead
        split at read
        · obtain ⟨after, afterRead, rfl⟩ := Option.map_eq_some_iff.mp read
          exact readLiteral_glued (by decide) afterRead
        split at read
        · obtain ⟨after, afterRead, rfl⟩ := Option.map_eq_some_iff.mp read
          exact readLiteral_glued (by decide) afterRead
        · obtain ⟨number, numberRead, rfl⟩ := Option.map_eq_some_iff.mp read
          rw [← List.cons_append] at numberRead
          exact readNumber_glued numberRead
    · intro depth bytes r read
      rw [readItems] at read
      obtain ⟨item, itemRead, read⟩ := Option.bind_eq_some_iff.mp read
      obtain ⟨after, nextRead, read⟩ := Option.bind_eq_some_iff.mp read
      obtain ⟨rest, same⟩ := next (Or.inl rfl) itemRead nextRead
      split at read
      · exact ⟨rest, by rw [← Option.some.inj read, same]⟩
      · obtain ⟨later, laterRead, rfl⟩ := Option.map_eq_some_iff.mp read
        rw [same] at laterRead
        have inner := ofItems laterRead
        exact inner
    · intro depth bytes r read
      rw [readMembers] at read
      obtain ⟨afterQuote, quoteRead, read⟩ := Option.bind_eq_some_iff.mp read
      obtain ⟨text, textRead, read⟩ := Option.bind_eq_some_iff.mp read
      obtain ⟨afterColon, colonRead, read⟩ := Option.bind_eq_some_iff.mp read
      obtain ⟨member, valueRead, read⟩ := Option.bind_eq_some_iff.mp read
      obtain ⟨after, nextRead, closes⟩ := Option.bind_eq_some_iff.mp read
      rw [brace, readByte_extend (by decide), ← brace] at quoteRead
      obtain ⟨opened, _, rfl⟩ := Option.map_eq_some_iff.mp quoteRead
      rcases readText_glued letter object textRead with ⟨left, same⟩ | stuck
      · rw [same, brace, readByte_extend (by decide), ← brace] at colonRead
        obtain ⟨coloned, _, rfl⟩ := Option.map_eq_some_iff.mp colonRead
        obtain ⟨rest, same⟩ := next (Or.inr rfl) valueRead nextRead
        split at closes
        · exact ⟨rest, by rw [← Option.some.inj closes, same]⟩
        · obtain ⟨later, laterRead, rfl⟩ := Option.map_eq_some_iff.mp closes
          rw [same] at laterRead
          have inner := ofMembers laterRead
          exact inner
      · rw [stuck.colon] at colonRead
        cases colonRead

end Glue

theorem skipSpace_write (v : Value) (rest : Bytes) : skipSpace (write v ++ rest) = write v ++ rest := by
  obtain ⟨b, text, same, starts⟩ := write_head v
  rw [same, List.cons_append, skipSpace_token (startsValue_token starts)]

theorem readDocument_write (depth : Nat) (v : Value) :
    readDocument depth (write v) = if v.depth ≤ depth then some v else none := by
  have read : readValue (2 * (write v).length + 2) depth (write v ++ []) = _ :=
    readValue_write v (by simp [Ends]) (by omega)
  have token := skipSpace_write v []
  rw [List.append_nil] at read token
  rw [readDocument, token, read]
  split <;> rfl

theorem readDocument_cut {depth : Nat} {members : List (String × Value)} {cut : Bytes}
    (prefixed : cut <+: write (.object members)) (short : cut ≠ write (.object members)) :
    readDocument depth cut = none := by
  rcases cut_cons (write.eq_def _ ▸ prefixed) with rfl | ⟨rest, rfl, _⟩
  · rfl
  · have token : skipSpace (123 :: rest) = 123 :: rest := skipSpace_token (by decide) rest
    have cut : readValue (2 * (123 :: rest).length + 2) depth (123 :: rest ++ []) = none :=
      readObject_cut (Or.inl rfl) (by simp) prefixed short (by simp)
    rw [List.append_nil] at cut
    rw [readDocument, token, cut]
    rfl

theorem readDocument_glued {depth : Nat} {bytes : Bytes} {name : String} {value v : Value}
    {more : List (String × Value)} (letter : LetterName name)
    (read : readDocument depth (bytes ++ write (.object ((name, value) :: more))) = some v) :
    ∀ b ∈ bytes, isSpace b = true := by
  obtain ⟨tail, brace⟩ : ∃ tail, write (.object ((name, value) :: more)) = 123 :: tail := ⟨_, by rw [write]⟩
  unfold readDocument at read
  obtain ⟨r, valueRead, read⟩ := Option.bind_eq_some_iff.mp read
  rw [brace, skipSpace_extend, ← brace] at valueRead
  have finished : skipSpace r.2 = [] := by
    by_contra rest
    rw [if_neg rest] at read
    cases read
  rcases (read_glued letter rfl _).1 valueRead with ⟨rest, same⟩ | ⟨b, rest, stuck, _⟩ | ⟨spaces, _⟩
  · rw [same, brace, skipSpace_extend] at finished
    simp at finished
  · rw [finished] at stuck
    cases stuck
  · exact space_of_skipSpace_nil (skipSpace_idempotent bytes ▸ spaces)

theorem readDocument_stray {depth : Nat} {b : UInt8} {bytes : Bytes} (token : isSpace b = false)
    (stray : startsValue b = false) : readDocument depth (b :: bytes) = none := by
  have other : b ≠ 34 ∧ b ≠ 91 ∧ b ≠ 123 ∧ b ≠ 110 ∧ b ≠ 116 ∧ b ≠ 102 := by
    simp only [startsValue, Bool.or_eq_false_iff, beq_eq_false_iff_ne] at stray
    simp [stray]
  have number : readNumber (b :: bytes) = none := by
    apply dif_neg
    intro whole
    obtain ⟨c, rest, same, starts⟩ := Number.text_head ⟨_, whole⟩
    simp only [List.takeWhile_cons] at same
    split at same
    · rw [(List.cons.inj same).1] at stray
      rw [stray] at starts
      cases starts
    · cases same
  rw [readDocument, skipSpace_token token, readValue, skipSpace_token token]
  simp only [other, if_false, number]
  rfl

/-- `readDocument` as a reader, an ignored document nesting as deep as it is long. -/
def compactReader : Reader where
  Holds _ := True
  holds_null := trivial
  holds_bool _ := trivial
  holds_string _ := trivial
  holds_number _ _ := trivial
  holds_array _ _ := trivial
  holds_object _ _ _ := trivial
  fromSlice := readDocument recursionLimit
  read_write value _ := readDocument_write recursionLimit value
  read_cut _ _ := readDocument_cut
  read_glued := by
    intro bytes name value more letter ⟨b, member, token⟩
    by_contra read
    obtain ⟨v, read⟩ := Option.ne_none_iff_exists'.mp read
    rw [readDocument_glued letter read b member] at token
    cases token
  read_space := by
    intro b bytes space
    simp [readDocument, skipSpace, space]
  read_stray _ _ := readDocument_stray
  ignoredAny bytes := (readDocument bytes.length bytes).isSome
  ignored_write := by
    intro value
    rw [readDocument_write, if_pos (depth_le value)]
    rfl
  ignored_cut := by
    intro members cut prefixed short
    rw [readDocument_cut prefixed short]
    rfl

end CommonMeasure.Json
