import CommonMeasure.Declarations.Removed

namespace CommonMeasure.Declarations

inductive LineEnd where
  | cr
  | lf
  | crlf
deriving DecidableEq

def LineEnd.text : LineEnd → Text
  | .cr => ['\r']
  | .lf => ['\n']
  | .crlf => ['\r', '\n']

def written : List (Text × LineEnd) → Text → Text
  | [], last => last
  | (line, ends) :: more, last => line ++ ends.text ++ written more last

def said (raw : Text) : List Access := (read_line raw).access.toList

theorem accessOf_eq (raws : List Text) : accessOf raws = raws.flatMap said := by
  induction raws with
  | nil => rfl
  | cons raw raws ih =>
    rw [List.flatMap_cons, ← ih]
    cases read : (read_line raw).access <;> simp [accessOf, said, read]

theorem said_congr {a b : Text} (same : trim (uncommented a) = trim (uncommented b)) : said a = said b := by
  unfold said read_line
  rw [same]

theorem said_silent {raw : Text} (silent : Blank (uncommented raw)) : said raw = [] := by
  simp [said, read_line, trim_eq_nil.mpr silent, Line.access]

theorem uncommented_append (a b : Text) : uncommented (a ++ b) = if '#' ∈ a then uncommented a else a ++ uncommented b := by
  induction a with
  | nil => simp
  | cons c a ih =>
    by_cases comment : c = '#'
    · simp [uncommented, comment]
    · have other : '#' ∈ c :: a ↔ '#' ∈ a := by simp [Ne.symm comment]
      simp only [other]
      simp only [uncommented, List.cons_append] at ih ⊢
      rw [List.takeWhile_cons_of_pos (by simp [comment]), List.takeWhile_cons_of_pos (by simp [comment]), ih]
      split <;> rfl

theorem comment_not_blank {text : Text} (blank : Blank text) : '#' ∉ text := by
  intro member
  have white := blank '#' member
  revert white
  decide

theorem uncommented_plain {text : Text} (plain : '#' ∉ text) : uncommented text = text := by
  have whole := uncommented_append text []
  simpa [plain, uncommented] using whole

theorem said_before {white : Text} (blank : Blank white) (text : Text) : said (white ++ text) = said text := by
  apply said_congr
  rw [uncommented_append, if_neg (comment_not_blank blank), trim_white_left blank]

theorem said_after (text : Text) {rest : Text} (silent : Blank (uncommented rest)) : said (text ++ rest) = said text := by
  apply said_congr
  rw [uncommented_append]
  split
  · rfl
  · rename_i plain
    rw [trim_white_right _ silent, uncommented_plain plain]

def joinedWith : List (Text × LineEnd) → Text → Text
  | [], last => last
  | (line, .cr) :: more, last => line ++ '\r' :: joinedWith more last
  | (line, .lf) :: _, _ => line
  | (line, .crlf) :: _, _ => line

def Heard : List (Text × LineEnd) → Text → Prop
  | [], _ => True
  | (line, ends) :: more, last =>
    (ends = .cr → Blank line ∨ Blank (uncommented (joinedWith more last))) ∧ Heard more last

def saidIn (text : Text) : List Access := (splitInclusive '\n' text).flatMap said

theorem silent_end {c : Char} (white : isWhitespace c = true) (comment : c ≠ '#') : Blank (uncommented [c]) := by
  rw [uncommented_plain (by simpa using Ne.symm comment)]
  simpa [Blank] using white

theorem said_unterminated (segment : Text) : said (unterminated segment) = said segment := by
  have ends {c : Char} {text line : Text} (strip : strip_suffix c text = some line) : text = line ++ [c] := by
    unfold strip_suffix at strip
    split at strip
    · rename_i last
      obtain rfl := Option.some.inj strip
      exact (List.dropLast_append_getLast? c (by simpa using last)).symm
    · cases strip
  unfold unterminated
  cases newline : strip_suffix '\n' segment with
  | none => rfl
  | some line =>
    rw [ends newline, said_after line (silent_end (by decide) (by decide))]
    show said ((strip_suffix '\r' line).getD line) = said line
    cases carriage : strip_suffix '\r' line with
    | none => rfl
    | some inner => rw [Option.getD_some, ends carriage, said_after inner (silent_end (by decide) (by decide))]

theorem accessOf_lines (text : Text) : accessOf (lines text) = saidIn text := by
  rw [accessOf_eq, lines, List.flatMap_map, saidIn]
  simp only [said_unterminated]

theorem saidIn_line {line text : Text} (plain : '\n' ∉ line) : saidIn (line ++ '\n' :: text) = said line ++ saidIn text := by
  rw [saidIn, splitInclusive_body plain, List.flatMap_cons, said_after line (silent_end (by decide) (by decide))]
  rfl

theorem saidIn_last {last : Text} (plain : '\n' ∉ last) : saidIn last = said last := by
  by_cases empty : last = []
  · subst empty
    rfl
  · simp [saidIn, splitInclusive_plain empty plain]

theorem written_cut (more : List (Text × LineEnd)) {last : Text} (plain : ∀ line ∈ more, '\n' ∉ line.1) (bare : '\n' ∉ last) :
    (written more last = joinedWith more last ∧ '\n' ∉ joinedWith more last) ∨
      ∃ gap rest, (gap = [] ∨ gap = ['\r']) ∧ written more last = joinedWith more last ++ gap ++ '\n' :: rest ∧
        '\n' ∉ joinedWith more last := by
  induction more with
  | nil => exact Or.inl ⟨rfl, bare⟩
  | cons entry more ih =>
    obtain ⟨line, ends⟩ := entry
    rw [List.forall_mem_cons] at plain
    cases ends with
    | lf => exact Or.inr ⟨[], written more last, Or.inl rfl, by simp [written, joinedWith, LineEnd.text], plain.1⟩
    | crlf => exact Or.inr ⟨['\r'], written more last, Or.inr rfl, by simp [written, joinedWith, LineEnd.text], plain.1⟩
    | cr =>
      have fresh (inner : Text) (free : '\n' ∉ inner) : '\n' ∉ line ++ '\r' :: inner := by
        simpa [free] using plain.1
      rcases ih plain.2 with ⟨whole, free⟩ | ⟨gap, rest, kind, whole, free⟩
      · exact Or.inl ⟨by simp [written, joinedWith, LineEnd.text, whole], fresh _ free⟩
      · exact Or.inr ⟨gap, rest, kind, by simp [written, joinedWith, LineEnd.text, whole], fresh _ free⟩

theorem said_joined {line rest : Text} (heard : Blank line ∨ Blank (uncommented rest)) :
    said (line ++ '\r' :: rest) = said line ++ said rest := by
  have white : Blank ['\r'] := by
    simp [Blank]
    decide
  rcases heard with blank | silent
  · have before : Blank (line ++ ['\r']) := by
      intro c member
      rcases List.mem_append.mp member with first | second
      · exact blank c first
      · exact white c second
    have none_ : said line = [] := by
      have nothing := said_before blank []
      rw [List.append_nil] at nothing
      exact nothing
    rw [none_, List.nil_append, ← said_before before rest, List.append_assoc]
    rfl
  · have tail : Blank (uncommented ('\r' :: rest)) := by
      rw [show uncommented ('\r' :: rest) = '\r' :: uncommented rest from rfl]
      intro c member
      rcases List.mem_cons.mp member with rfl | later
      · exact white _ (List.mem_singleton_self _)
      · exact silent c later
    rw [said_after line tail, said_silent silent, List.append_nil]

theorem saidIn_written {entries : List (Text × LineEnd)} {last : Text} (plain : ∀ line ∈ entries, '\n' ∉ line.1)
    (bare : '\n' ∉ last) (heard : Heard entries last) :
    saidIn (written entries last) = (entries.map (·.1)).flatMap said ++ said last := by
  induction entries with
  | nil => simpa [written] using saidIn_last bare
  | cons entry more ih =>
    obtain ⟨line, ends⟩ := entry
    rw [List.forall_mem_cons] at plain
    have later := ih plain.2 heard.2
    rw [List.map_cons, List.flatMap_cons, List.append_assoc, ← later, written]
    have single : '\n' ∉ line := plain.1
    show _ = said line ++ saidIn (written more last)
    cases ends with
    | lf =>
      rw [← saidIn_line single]
      simp [LineEnd.text]
    | crlf =>
      have free : '\n' ∉ line ++ ['\r'] := by simpa using single
      have cut := @saidIn_line _ (written more last) free
      rw [said_after line (silent_end (by decide) (by decide))] at cut
      rw [← cut]
      simp [LineEnd.text]
    | cr =>
      have joined := said_joined (heard.1 rfl)
      rcases written_cut more plain.2 bare with ⟨whole, free⟩ | ⟨gap, rest, kind, whole, free⟩
      · have fresh : '\n' ∉ line ++ '\r' :: joinedWith more last := by simpa [free] using single
        rw [whole, saidIn_last free, ← joined, ← saidIn_last fresh]
        simp [LineEnd.text]
      · have silent : Blank (uncommented gap) := by
          rcases kind with rfl | rfl
          · simp [Blank, uncommented]
          · exact silent_end (by decide) (by decide)
        have blank : '\n' ∉ gap := by rcases kind with rfl | rfl <;> simp
        have inner : '\n' ∉ joinedWith more last ++ gap := by simp [free, blank]
        have fresh : '\n' ∉ line ++ '\r' :: joinedWith more last ++ gap := by simpa [free, blank] using single
        have first := @saidIn_line _ rest inner
        have second := @saidIn_line _ rest fresh
        rw [said_after _ silent] at first second
        rw [whole, first, ← List.append_assoc (said line), ← joined, ← second]
        simp [LineEnd.text]

variable {Url : Type} (u : UrlCrate Url)

theorem crawlable_congr {a b : Text} (same : accessOf (lines a) = accessOf (lines b)) (token path : Text) :
    crawlable u a token path = crawlable u b token path := by
  unfold crawlable RobotsFile.read
  cases matching_target_readings u path with
  | error too_many => rfl
  | ok readings => rw [crawlable_eq, crawlable_eq, same]

theorem heard_of_feeds {entries : List (Text × LineEnd)} {last : Text} (feeds : ∀ line ∈ entries, line.2 ≠ .cr) :
    Heard entries last := by
  induction entries with
  | nil => trivial
  | cons entry more ih =>
    rw [List.forall_mem_cons] at feeds
    exact ⟨fun lone => absurd lone feeds.1, ih feeds.2⟩

/-- Lines that end in LF or CRLF, written with other ends, give every page the same answer where each lone CR is heard. -/
theorem ends_kept {entries other : List (Text × LineEnd)} {last : Text} (same : other.map (·.1) = entries.map (·.1))
    (plain : ∀ line ∈ entries, '\n' ∉ line.1) (bare : '\n' ∉ last) (feeds : ∀ line ∈ entries, line.2 ≠ .cr)
    (heard : Heard other last) (token path : Text) :
    crawlable u (written other last) token path = crawlable u (written entries last) token path := by
  have plain_other : ∀ line ∈ other, '\n' ∉ line.1 := by
    intro line member
    have inside : line.1 ∈ entries.map (·.1) := same ▸ List.mem_map_of_mem member
    obtain ⟨entry, among, is⟩ := List.mem_map.mp inside
    exact is ▸ plain entry among
  apply crawlable_congr
  rw [accessOf_lines, accessOf_lines, saidIn_written plain_other bare heard,
    saidIn_written plain bare (heard_of_feeds feeds), same]

/-- A refusal that reads as a permission: the `Disallow` line stands on the line of the agent. -/
theorem ends_lose :
    ∃ (entries other : List (Text × LineEnd)) (last token path : Text), other.map (·.1) = entries.map (·.1) ∧
      (∀ line ∈ entries, '\n' ∉ line.1 ∧ '\r' ∉ line.1 ∧ line.2 ≠ .cr) ∧ last = [] ∧
      crawlable pathsOnly (written entries last) token path = some false ∧
      crawlable pathsOnly (written other last) token path = none :=
  ⟨[("User-agent: *".toList, .lf), ("Disallow: /".toList, .lf)],
    [("User-agent: *".toList, .cr), ("Disallow: /".toList, .lf)], [], bot,
    "/news/1".toList, by decide +kernel, by decide +kernel, rfl, by decide +kernel, by decide +kernel⟩

theorem ends_kept_blank :
    crawlable pathsOnly (written [("User-agent: *".toList, .crlf), ([], .cr), ("Disallow: /private".toList, .crlf)] []) bot
        "/private/1".toList =
      crawlable pathsOnly (written [("User-agent: *".toList, .lf), ([], .lf), ("Disallow: /private".toList, .lf)] []) bot
        "/private/1".toList := by
  have heard : Heard [("User-agent: *".toList, .crlf), ([], .cr), ("Disallow: /private".toList, .crlf)] [] := by
    refine ⟨nofun, fun _ => Or.inl ?_, nofun, trivial⟩
    simp [Blank]
  exact ends_kept pathsOnly (by decide) (by decide) (by decide) (by decide) heard bot "/private/1".toList

end CommonMeasure.Declarations
