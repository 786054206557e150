import CommonMeasure.Declarations.Spellings
import CommonMeasure.Processor.Numbers

namespace CommonMeasure.Processor

open Http (isDigit isAlphabetic)

/-! ### Offsets -/

def Boundary (text : String) (i : Nat) : Prop := ∃ front back, text = front ++ back ∧ (utf8 front).length = i

theorem ascii_character {chars : List Char} {x y : Bytes} {b : UInt8} (ascii : b < 128)
    (whole : chars.flatMap String.utf8EncodeChar = x ++ b :: y) :
    ∃ front c back, chars = front ++ c :: back ∧ front.flatMap String.utf8EncodeChar = x ∧ String.utf8EncodeChar c = [b] := by
  induction chars generalizing x with
  | nil => simp at whole
  | cons c rest ih =>
    rw [List.flatMap_cons] at whole
    have later {z : Bytes} (split : x = String.utf8EncodeChar c ++ z)
        (following : rest.flatMap String.utf8EncodeChar = z ++ b :: y) : ∃ front d back, c :: rest = front ++ d :: back ∧
          front.flatMap String.utf8EncodeChar = x ∧ String.utf8EncodeChar d = [b] := by
      obtain ⟨front, d, back, rfl, is, one⟩ := ih following
      exact ⟨c :: front, d, back, rfl, by rw [List.flatMap_cons, is, split], one⟩
    rcases List.append_eq_append_iff.mp whole with ⟨z, split, following⟩ | ⟨z, split, following⟩
    · exact later split following
    · cases z with
      | nil => exact later (z := []) (by simpa using split.symm) (by simpa using following.symm)
      | cons d z =>
        obtain ⟨rfl, _⟩ := List.cons.inj following
        by_cases small : c.toNat < 128
        · rw [Declarations.encode_ascii small] at split
          cases x with
          | nil => exact ⟨[], c, rest, rfl, rfl, by rw [Declarations.encode_ascii small, (List.cons.inj split).1]⟩
          | cons e x => simp at split
        · have large := Declarations.encode_other small b (split ▸ by simp)
          rw [UInt8.le_iff_toNat_le] at large
          rw [UInt8.lt_iff_toNat_lt] at ascii
          omega

theorem ascii_boundaries {text : String} {x y : Bytes} {b : UInt8} (ascii : b < 128) (whole : utf8 text = x ++ b :: y) :
    Boundary text x.length ∧ Boundary text (x.length + 1) := by
  rw [← String.ofList_toList (s := text), utf8_ofList] at whole
  obtain ⟨front, c, back, is, rfl, one⟩ := ascii_character ascii whole
  have textIs : text = String.ofList (front ++ c :: back) := by rw [← is, String.ofList_toList]
  refine ⟨⟨String.ofList front, String.ofList (c :: back), ?_, ?_⟩, String.ofList (front ++ [c]), String.ofList back, ?_, ?_⟩
  · rw [textIs, String.ofList_append]
  · rw [utf8_ofList]
  · rw [textIs, ← String.ofList_append]
    simp
  · rw [utf8_ofList, List.flatMap_append, List.length_append]
    simp [one]

theorem part_boundaries {text : String} {before part after : Bytes} (whole : utf8 text = before ++ (part ++ after))
    (some_ : part ≠ []) (ascii : ∀ b ∈ part, b < 128) :
    Boundary text before.length ∧ Boundary text (before.length + part.length) := by
  obtain ⟨first, rest, is⟩ := List.exists_cons_of_ne_nil some_
  obtain ⟨front, last, ends⟩ := List.eq_nil_or_concat part |>.resolve_left some_
  refine ⟨(ascii_boundaries (ascii first (is ▸ List.mem_cons_self)) (y := rest ++ after) ?_).1, ?_⟩
  · rw [whole, is]
    rfl
  · have split : utf8 text = (before ++ front) ++ last :: after := by
      rw [whole, ends]
      simp
    have stop := (ascii_boundaries (ascii last (by simp [ends])) split).2
    rw [ends]
    simpa [Nat.add_assoc] using stop

theorem alphanumeric_ascii {b : UInt8} (is : isAlphanumeric b = true) : b < 128 := by
  simp only [isAlphanumeric, isDigit, isAlphabetic, Bool.or_eq_true, Bool.and_eq_true, decide_eq_true_eq,
    UInt8.le_iff_toNat_le, UInt8.lt_iff_toNat_lt] at is ⊢
  have bounds : (57 : UInt8).toNat = 57 ∧ (90 : UInt8).toNat = 90 ∧ (122 : UInt8).toNat = 122 ∧ (128 : UInt8).toNat = 128 := by
    decide
  omega

theorem digit_ascii {b : UInt8} (is : isDigit b = true) : b < 128 := alphanumeric_ascii (by simp [isAlphanumeric, is])

theorem join_ascii {b : UInt8} (is : isJoin b = true) : b < 128 := by
  have cases_ : (b = 32 ∨ b = 45) ∨ b = 40 ∨ b = 41 := by simpa [isJoin, isSeparator, isParenthesis] using is
  rcases cases_ with (rfl | rfl) | rfl | rfl <;> decide

theorem local_ascii {b : UInt8} (is : is_local_part b = true) : b < 128 := by
  simp only [is_local_part, Bool.or_eq_true, decide_eq_true_eq] at is
  rcases is with ((((is | rfl) | rfl) | rfl) | rfl) | rfl
  · exact alphanumeric_ascii is
  all_goals decide

theorem domain_ascii {b : UInt8} (is : is_domain_part b = true) : b < 128 := by
  simp only [is_domain_part, Bool.or_eq_true, decide_eq_true_eq] at is
  rcases is with (is | rfl) | rfl
  · exact alphanumeric_ascii is
  all_goals decide

theorem Grouped.ascii {number : Bytes} (grouped : Grouped number) : ∀ b ∈ number, b < 128 := by
  induction grouped with
  | one digit => simpa using digit_ascii digit
  | digit digit _ ih => exact List.forall_mem_cons.mpr ⟨digit_ascii digit, ih⟩
  | @gap d s _ digit separator _ ih =>
    have join : isJoin s = true := by rw [isJoin, separator]; rfl
    exact List.forall_mem_cons.mpr ⟨digit_ascii digit, List.forall_mem_cons.mpr ⟨join_ascii join, ih⟩⟩

theorem Dialled.ascii {number : Bytes} (dialled : Dialled number) : ∀ b ∈ number, b < 128 := by
  induction dialled with
  | one digit => simpa using digit_ascii digit
  | digit digit _ ih => exact List.forall_mem_cons.mpr ⟨digit_ascii digit, ih⟩
  | join join _ _ ih => exact List.forall_mem_cons.mpr ⟨join_ascii join, ih⟩

theorem gap_ascii {gap : Bytes} (one : Gap gap) : ∀ b ∈ gap, b < 128 := by
  rcases one with rfl | rfl
  · nofun
  · intro b listed
    obtain rfl : b = 32 := by simpa using listed
    decide

theorem Pairs.ascii {pairs : Nat} {bytes : Bytes} (held : Pairs pairs bytes) : ∀ b ∈ bytes, b < 128 := by
  induction held with
  | none => nofun
  | @pair gap rest c d _ one first second _ ih =>
    have digits : ∀ b ∈ c :: d :: rest, b < 128 :=
      List.forall_mem_cons.mpr ⟨digit_ascii first, List.forall_mem_cons.mpr ⟨digit_ascii second, ih⟩⟩
    intro b listed
    rcases List.mem_append.mp listed with inside | inside
    · exact gap_ascii one b inside
    · exact digits b inside

theorem NiForm.ascii {number : Bytes} (form : NiForm number) : ∀ b ∈ number, b < 128 := by
  obtain ⟨first, second, middle, gap, last, rfl, opens, held, one, _, below⟩ := form
  simp only [ valid_ni_prefix, isUppercase, Bool.and_eq_true, decide_eq_true_eq] at opens
  have upper {b : UInt8} (below : b ≤ 90) : b < 128 := UInt8.lt_of_le_of_lt below (by decide)
  intro b listed
  simp only [List.mem_cons, List.mem_append, List.not_mem_nil, or_false] at listed
  rcases listed with rfl | rfl | inside | inside | rfl
  · exact upper opens.1.1.1.1.2
  · exact upper opens.1.1.1.2.2
  · exact held.ascii b inside
  · exact gap_ascii one b inside
  · exact UInt8.lt_of_le_of_lt below (by decide)

inductive Occurs (text : Bytes) : PiiFinding → Prop
  | email {before local_part domain after : Bytes} : text = before ++ local_part ++ 64 :: (domain ++ after) →
    EmailAt before local_part domain after → Occurs text (emailFinding before local_part domain)
  | card {before number after : Bytes} : text = before ++ (number ++ after) → CardAt before number after →
    Occurs text (cardFinding before number)
  | ni {before number after : Bytes} : text = before ++ (number ++ after) → NiAt before number after →
    Occurs text (niFinding before number)
  | phone {before number after : Bytes} : text = before ++ 43 :: (number ++ after) → PhoneAt before number after →
    Occurs text (phoneFinding before number)

theorem Occurs.placed {text : String} {finding : PiiFinding} (occurs : Occurs (utf8 text) finding) :
    finding.start < finding.stop ∧ finding.stop ≤ (utf8 text).length ∧ Boundary text finding.start ∧
      Boundary text finding.stop := by
  have placed {before part after : Bytes} (whole : utf8 text = before ++ (part ++ after)) (some_ : part ≠ [])
      (ascii : ∀ b ∈ part, b < 128) : before.length < before.length + part.length ∧
        before.length + part.length ≤ (utf8 text).length ∧ Boundary text before.length ∧
          Boundary text (before.length + part.length) := by
    have long := List.length_pos_iff.mpr some_
    refine ⟨by omega, ?_, part_boundaries whole some_ ascii⟩
    rw [whole, List.length_append, List.length_append]
    omega
  cases occurs with
  | @email before local_part domain after is occurs =>
    have whole : utf8 text = before ++ ((local_part ++ 64 :: domain) ++ after) := by simp [is]
    have found := placed whole (by simp) (by
      intro b listed
      rcases List.mem_append.mp listed with inside | inside
      · exact local_ascii (List.all_eq_true.mp occurs.part b inside)
      · rcases List.mem_cons.mp inside with rfl | inside
        · decide
        · exact domain_ascii (List.all_eq_true.mp occurs.domain.1 b inside))
    have length : before.length + (local_part ++ 64 :: domain).length = before.length + local_part.length + 1 + domain.length := by
      rw [List.length_append, List.length_cons]
      omega
    rwa [length] at found
  | card is occurs => exact placed is (by obtain ⟨_, _, is, _⟩ := occurs.grouped.head; simp [is]) occurs.grouped.ascii
  | ni is occurs => exact placed is (by obtain ⟨_, _, _, _, _, is, _⟩ := occurs.form; simp [is]) occurs.form.ascii
  | @phone before number after is occurs =>
    have whole : utf8 text = before ++ ((43 :: number) ++ after) := is
    have found := placed whole (List.cons_ne_nil _ _) (List.forall_mem_cons.mpr ⟨by decide, occurs.dialled.ascii⟩)
    have length : before.length + (43 :: number).length = before.length + 1 + number.length := by
      rw [List.length_cons]
      omega
    rwa [length] at found

end CommonMeasure.Processor
