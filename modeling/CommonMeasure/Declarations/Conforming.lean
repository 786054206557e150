import CommonMeasure.Declarations.Linked

/-!
# Link values that conform

A field of members whose quotes and angle brackets close is read member by member.
-/

namespace CommonMeasure.Declarations.Links

/-! ### Members whose quotes and angle brackets close -/

/-- A text read as one member of itself, or not parsed for another reason than a quote or an angle bracket left open. -/
structure Neat (text : Bytes) : Prop where
  begins : ∃ byte rest, text = byte :: rest ∧ isGap byte = false
  closes : (parse_member text).2 = .ok [] ∨ ∃ why, (parse_member text).2 = .error why ∧ why ≠ UNCLOSED ∧ why ≠ UNENDED ∧
    next_member .start text = [] ∧ text.foldl Scan.step .start = .start

inductive Segment : Bytes → Prop
  | blank {text} : text.all is_ows = true → Segment text
  | neat {white text} : white.all is_ows = true → Neat text → Segment (white ++ text)

def joined : List Bytes → Bytes
  | [] => []
  | [text] => text
  | text :: also :: texts => then_ text (joined (also :: texts))

section

variable {text : Bytes}

theorem member_at_then (neat : Neat text) (more : Bytes) :
    member_at text = ((member_at text).1, []) ∧ member_at (then_ text more) = ((member_at text).1, COMMA :: more) := by
  have length : (then_ text more).length - (COMMA :: more).length = text.length := by
    rw [then_, List.length_append]
    omega
  have taken : (then_ text more).take text.length = text := List.take_left
  rcases neat.closes with parsed | ⟨why, parsed, closed, ended, inside, plain⟩
  · have also := (parse_member_then text more).1 parsed
    have parsed_also : (parse_member (then_ text more)).2 = .ok (COMMA :: more) := by rw [also]
    rw [member_at_ok parsed, member_at_ok parsed_also, also, length, taken, List.length_nil, Nat.sub_zero, List.take_length]
    exact ⟨rfl, rfl⟩
  · have also := (parse_member_then text more).2 why parsed closed ended
    have parsed_also : (parse_member (then_ text more)).2 = .error why := by rw [also]
    rw [member_at_error parsed, member_at_error parsed_also, also, next_member_then .start text more inside plain, inside,
      length, taken, List.length_nil, Nat.sub_zero, List.take_length]
    exact ⟨rfl, rfl⟩

theorem membersFrom_gap {gap : Bytes} (blank : gap.all isGap = true) (turns : Nat) (rest : Bytes) :
    membersFrom turns (gap ++ rest) = membersFrom turns rest := by
  have skipped : (gap ++ rest).dropWhile isGap = rest.dropWhile isGap :=
    List.dropWhile_append_of_pos (List.all_eq_true.mp blank)
  cases turns with
  | zero => rfl
  | succ turns => rw [membersFrom, membersFrom, skipped]

theorem membersFrom_comma (turns : Nat) (more : Bytes) : membersFrom turns (COMMA :: more) = membersFrom turns more :=
  @membersFrom_gap [COMMA] rfl turns more

theorem membersFrom_neat (neat : Neat text) (turns : Nat) (more : Bytes) :
    membersFrom (turns + 1) (then_ text more) = (member_at text).1 :: membersFrom turns more ∧
    membersFrom (turns + 1) text = [(member_at text).1] := by
  obtain ⟨byte, rest, rfl, begins⟩ := neat.begins
  obtain ⟨alone, followed⟩ := member_at_then neat more
  have whole : then_ (byte :: rest) more = byte :: then_ rest more := rfl
  rw [whole] at followed ⊢
  constructor
  · rw [membersFrom, List.dropWhile_cons_of_neg (by simp [begins])]
    dsimp only
    rw [followed, membersFrom_comma]
  · rw [membersFrom, List.dropWhile_cons_of_neg (by simp [begins])]
    dsimp only
    rw [alone]
    cases turns
    all_goals rfl

theorem membersFrom_joined {texts : List Bytes} (segments : ∀ text ∈ texts, Segment text) (turns : Nat)
    (enough : (joined texts).length ≤ turns) {white : Bytes} (ows : white.all is_ows = true) (neat : Neat text)
    (listed : white ++ text ∈ texts) : (member_at text).1 ∈ membersFrom turns (joined texts) := by
  induction texts generalizing turns with
  | nil => cases listed
  | cons first texts ih =>
    have here (same : first = white ++ text) (more : Bytes) (turns : Nat) (some_ : 0 < turns) :
        (member_at text).1 ∈ membersFrom turns (then_ first more) ∧ (member_at text).1 ∈ membersFrom turns first := by
      obtain ⟨turns, rfl⟩ := Nat.exists_eq_succ_of_ne_zero (Nat.pos_iff_ne_zero.mp some_)
      have parts := membersFrom_neat neat turns more
      have whole : then_ (white ++ text) more = white ++ then_ text more := List.append_assoc _ _ _
      rw [same, whole, membersFrom_gap (gap_of_ows ows), membersFrom_gap (gap_of_ows ows), parts.1, parts.2]
      exact ⟨List.mem_cons_self, List.mem_cons_self⟩
    cases texts with
    | nil =>
      obtain rfl := List.mem_singleton.mp listed
      have some_ : 0 < turns := by
        obtain ⟨byte, rest, rfl, _⟩ := neat.begins
        rw [joined, List.length_append, List.length_cons] at enough
        omega
      exact (here rfl [] turns some_).2
    | cons also texts =>
      rw [joined] at enough ⊢
      have long : 0 < turns := by
        rw [then_, List.length_append, List.length_cons] at enough
        omega
      rcases List.mem_cons.mp listed with same | later
      · exact (here same.symm _ turns long).1
      · have inner (turns : Nat) (enough : (joined (also :: texts)).length ≤ turns) :=
          ih (fun text member => segments text (List.mem_cons_of_mem _ member)) turns enough later
        cases segments first List.mem_cons_self with
        | blank ows_first =>
          rw [then_, membersFrom_gap (gap_of_ows ows_first), membersFrom_comma]
          apply inner
          rw [then_, List.length_append, List.length_cons] at enough
          omega
        | @neat white_first text_first ows_first neat_first =>
          obtain ⟨turns, rfl⟩ := Nat.exists_eq_succ_of_ne_zero (Nat.pos_iff_ne_zero.mp long)
          have whole : then_ (white_first ++ text_first) (joined (also :: texts)) =
            white_first ++ then_ text_first (joined (also :: texts)) := List.append_assoc _ _ _
          rw [whole, membersFrom_gap (gap_of_ows ows_first), (membersFrom_neat neat_first turns _).1]
          apply List.mem_cons_of_mem
          apply inner
          rw [then_, List.length_append, List.length_cons] at enough
          omega

end

inductive LinkParamValue where
  | none
  | token (before after text : Bytes)
  /-- Each byte with whether it is escaped. -/
  | quoted (before after : Bytes) (items : List (Bool × UInt8))

def writeItem (item : Bool × UInt8) : Bytes := if item.1 then [BACKSLASH, item.2] else [item.2]

def LinkParamValue.write : LinkParamValue → Bytes
  | .none => []
  | .token before after text => before ++ EQUALS :: (after ++ text)
  | .quoted before after items => before ++ EQUALS :: (after ++ QUOTE :: (items.flatMap writeItem ++ [QUOTE]))

def LinkParamValue.bytes : LinkParamValue → Bytes
  | .none => []
  | .token _ _ text => text
  | .quoted _ _ items => items.map Prod.snd

def isToken (text : Bytes) : Prop := text ≠ [] ∧ text.all is_tchar = true

def LinkParamValue.Formed : LinkParamValue → Prop
  | .none => True
  | .token before after text => before.all is_ows = true ∧ after.all is_ows = true ∧ isToken text
  | .quoted before after items => before.all is_ows = true ∧ after.all is_ows = true ∧
      ∀ item ∈ items, item.1 = false → item.2 ≠ QUOTE ∧ item.2 ≠ BACKSLASH

structure LinkParam where
  before : Bytes
  after : Bytes
  named : Option (Bytes × LinkParamValue)

def LinkParam.body (param : LinkParam) : Bytes := param.named.elim [] fun (name, value) => name ++ value.write

def LinkParam.write (param : LinkParam) : Bytes := param.before ++ SEMICOLON :: (param.after ++ param.body)

structure LinkParam.Formed (param : LinkParam) : Prop where
  before : param.before.all is_ows = true
  after : param.after.all is_ows = true
  named : ∀ name value, param.named = some (name, value) → isToken name ∧ value.Formed

structure LinkValue where
  target : Bytes
  params : List LinkParam

def LinkValue.write (link : LinkValue) : Bytes := OPEN :: (link.target ++ CLOSE :: link.params.flatMap LinkParam.write)

structure LinkValue.Formed (link : LinkValue) : Prop where
  target : CLOSE ∉ link.target
  params : ∀ param ∈ link.params, param.Formed

def LinkParam.assign (member : LinkMember) (param : LinkParam) : LinkMember :=
  param.named.elim member fun (name, value) => member.assign name value.bytes

section

variable {name rest text : Bytes} {p : UInt8 → Bool}

theorem run_stops (all : name.all p = true) (stops : rest.head?.all (fun b => !p b) = true) :
    (name ++ rest).takeWhile p = name ∧ (name ++ rest).dropWhile p = rest := by
  have each := List.all_eq_true.mp all
  rw [List.takeWhile_append_of_pos each, List.dropWhile_append_of_pos each]
  cases rest with
  | nil => simp
  | cons byte rest =>
    have not_ : p byte = false := by simpa using stops
    simp [not_]

theorem skip_ows_white {white : Bytes} (ows : white.all is_ows = true) (rest : Bytes) :
    skip_ows (white ++ rest) = skip_ows rest := List.dropWhile_append_of_pos (List.all_eq_true.mp ows)

set_option maxRecDepth 100000 in
theorem tchar_plain {byte : UInt8} (is : is_tchar byte = true) :
    isName byte = true ∧ isValue byte = true ∧ is_ows byte = false ∧ isAsciiWhitespace byte = false ∧ byte ≠ QUOTE := by
  have marks : ∀ mark ∈ [EQUALS, SEMICOLON, COMMA, 32, 9, 10, 12, 13, QUOTE], is_tchar mark = false := by decide
  have apart {mark : UInt8} (listed : mark ∈ [EQUALS, SEMICOLON, COMMA, 32, 9, 10, 12, 13, QUOTE]) : byte ≠ mark := by
    rintro rfl
    exact Bool.false_ne_true ((marks byte listed).symm.trans is)
  have equals : byte ≠ EQUALS := apart (by decide)
  have semicolon : byte ≠ SEMICOLON := apart (by decide)
  have comma : byte ≠ COMMA := apart (by decide)
  have space : byte ≠ 32 := apart (by decide)
  have tab : byte ≠ 9 := apart (by decide)
  have feed : byte ≠ 10 := apart (by decide)
  have form : byte ≠ 12 := apart (by decide)
  have carriage : byte ≠ 13 := apart (by decide)
  have quote : byte ≠ QUOTE := apart (by decide)
  simp [isName, isValue, is_ows, isAsciiWhitespace, equals, semicolon, comma, space, tab, feed, form, carriage,
    quote]

def Follows (rest : Bytes) : Prop :=
  ∃ white tail, rest = white ++ tail ∧ white.all is_ows = true ∧ (tail = [] ∨ ∃ more, tail = SEMICOLON :: more)

def written (params : List LinkParam) (white : Bytes) : Bytes := params.flatMap LinkParam.write ++ white

theorem written_cons (param : LinkParam) (params : List LinkParam) (white : Bytes) :
    written (param :: params) white = param.before ++ SEMICOLON :: (param.after ++ (param.body ++ written params white)) := by
  simp only [written, List.flatMap_cons, LinkParam.write, List.append_assoc, List.cons_append]

theorem params_follow {params : List LinkParam} {white : Bytes} (formed : ∀ param ∈ params, param.Formed)
    (ows : white.all is_ows = true) : Follows (written params white) := by
  cases params with
  | nil => exact ⟨white, [], (List.append_nil white).symm, ows, Or.inl rfl⟩
  | cons param params =>
    exact ⟨param.before, _, written_cons param params white, (formed param List.mem_cons_self).before, Or.inr ⟨_, rfl⟩⟩

theorem skip_ended {tail : Bytes} (ends : tail = [] ∨ ∃ more, tail = SEMICOLON :: more) : skip_ows tail = tail := by
  rcases ends with rfl | ⟨more, rfl⟩
  · rfl
  · exact List.dropWhile_cons_of_neg (by decide)

theorem ended_stops {tail : Bytes} (ends : tail = [] ∨ ∃ more, tail = SEMICOLON :: more) {p : UInt8 → Bool}
    (stops : p SEMICOLON = false) : tail.head?.all (fun b => !p b) = true := by
  rcases ends with rfl | ⟨more, rfl⟩
  · rfl
  · show (!p SEMICOLON) = true
    rw [stops, Bool.not_false]

theorem Follows.skipped {white tail : Bytes} (ows : white.all is_ows = true)
    (ends : tail = [] ∨ ∃ more, tail = SEMICOLON :: more) : skip_ows (white ++ tail) = tail :=
  (skip_ows_white ows tail).trans (skip_ended ends)

theorem quoted_value_items (items : List (Bool × UInt8))
    (plain : ∀ item ∈ items, item.1 = false → item.2 ≠ QUOTE ∧ item.2 ≠ BACKSLASH) (rest : Bytes) :
    quoted_value false (items.flatMap writeItem ++ QUOTE :: rest) = some (items.map Prod.snd, rest) := by
  induction items with
  | nil => rfl
  | cons item items ih =>
    have later := ih fun other listed => plain other (List.mem_cons_of_mem _ listed)
    obtain ⟨escaped, byte⟩ := item
    rw [List.flatMap_cons, List.append_assoc, writeItem]
    cases escaped with
    | true =>
      rw [if_pos rfl, List.cons_append, List.singleton_append, quoted_value, if_neg (by decide), if_pos (by decide),
        quoted_value, if_neg (by simp), if_neg (by simp), later]
      rfl
    | false =>
      obtain ⟨quote, backslash⟩ := plain (false, byte) List.mem_cons_self rfl
      dsimp only at quote backslash
      rw [if_neg Bool.false_ne_true, List.singleton_append, quoted_value, if_neg (by simp [quote]),
        if_neg (by simp [backslash]), later]
      rfl

theorem token_head (token : isToken text) : ∃ byte more, text = byte :: more ∧ is_tchar byte = true := by
  obtain ⟨byte, more, rfl⟩ := List.exists_cons_of_ne_nil token.1
  exact ⟨byte, more, rfl, List.all_eq_true.mp token.2 byte List.mem_cons_self⟩

theorem trim_token (token : isToken text) {white : Bytes} (ows : white.all is_ows = true) :
    (text ++ white).rdropWhile isAsciiWhitespace = text := by
  have blank : ∀ b ∈ white.reverse, isAsciiWhitespace b = true := by
    intro b listed
    have is := List.all_eq_true.mp ows b (List.mem_reverse.mp listed)
    simp only [is_ows, Bool.or_eq_true, decide_eq_true_eq] at is
    rcases is with rfl | rfl
    · rfl
    · rfl
  rw [List.rdropWhile, List.reverse_append, List.dropWhile_append_of_pos blank]
  have last : text.rdropWhile isAsciiWhitespace = text := by
    rw [List.rdropWhile_eq_self_iff]
    intro some_
    have is := List.all_eq_true.mp token.2 _ (List.getLast_mem some_)
    simp [(tchar_plain is).2.2.2.1]
  exact last

theorem read_value_write {value : LinkParamValue} (formed : value.Formed) (follows : Follows rest) :
    ∃ left, read_value (value.write ++ rest) = .ok (value.bytes, left) ∧ skip_ows left = skip_ows rest := by
  obtain ⟨white, tail, rfl, ows, ends⟩ := follows
  have skipped := Follows.skipped ows ends
  have opens {before : Bytes} (blank : before.all is_ows = true) (inner : Bytes) :
      skip_ows (before ++ EQUALS :: inner) = EQUALS :: inner := by
    rw [skip_ows_white blank]
    exact List.dropWhile_cons_of_neg (by decide)
  cases value with
  | none =>
    refine ⟨tail, ?_, ?_⟩
    · rw [LinkParamValue.write, List.nil_append, read_value, skipped]
      rcases ends with rfl | ⟨more, rfl⟩
      · rfl
      · rfl
    · rw [skipped]
      exact skip_ended ends
  | token before after text =>
    obtain ⟨blank, also, token⟩ := formed
    obtain ⟨byte, more, rfl, is⟩ := token_head token
    have plain := tchar_plain is
    have inner : skip_ows (after ++ (byte :: more) ++ (white ++ tail)) = byte :: (more ++ (white ++ tail)) := by
      rw [List.append_assoc, skip_ows_white also]
      exact List.dropWhile_cons_of_neg (by simp [plain.2.2.1])
    have values : ((byte :: more) ++ white).all isValue = true := by
      rw [List.all_append, Bool.and_eq_true, List.all_eq_true, List.all_eq_true]
      refine ⟨fun b listed => (tchar_plain (List.all_eq_true.mp token.2 b listed)).2.1, fun b listed => ?_⟩
      have blank := List.all_eq_true.mp ows b listed
      simp only [is_ows, Bool.or_eq_true, decide_eq_true_eq] at blank
      rcases blank with rfl | rfl
      · rfl
      · rfl
    have run := run_stops values (ended_stops ends (by decide))
    rw [List.append_assoc, List.cons_append] at run
    refine ⟨tail, ?_, ?_⟩
    · rw [LinkParamValue.write, List.append_assoc, List.cons_append, read_value, opens blank]
      dsimp only
      rw [if_pos rfl, inner]
      dsimp only
      rw [if_neg plain.2.2.2.2, run.1, run.2, trim_token token ows]
      rfl
    · rw [skipped]
      exact skip_ended ends
  | quoted before after items =>
    obtain ⟨blank, also, plain⟩ := formed
    have inner : skip_ows (after ++ QUOTE :: (items.flatMap writeItem ++ [QUOTE]) ++ (white ++ tail)) =
        QUOTE :: (items.flatMap writeItem ++ QUOTE :: (white ++ tail)) := by
      rw [List.append_assoc, skip_ows_white also]
      have whole : QUOTE :: (items.flatMap writeItem ++ [QUOTE]) ++ (white ++ tail) =
        QUOTE :: (items.flatMap writeItem ++ QUOTE :: (white ++ tail)) := by simp
      rw [whole]
      exact List.dropWhile_cons_of_neg (by decide)
    refine ⟨white ++ tail, ?_, rfl⟩
    rw [LinkParamValue.write, List.append_assoc, List.cons_append, read_value, opens blank]
    dsimp only
    rw [if_pos rfl, inner]
    dsimp only
    rw [if_pos rfl, quoted_value_items items plain]
    rfl

theorem parse_params_skip {one other : Bytes} (same : skip_ows one = skip_ows other) (turns : Nat) (member : LinkMember) :
    parse_params (turns + 1) member one = parse_params (turns + 1) member other := by
  rw [parse_params, parse_params, same]

theorem skip_token (token : isToken text) (rest : Bytes) : skip_ows (text ++ rest) = text ++ rest := by
  obtain ⟨byte, more, rfl, is⟩ := token_head token
  exact List.dropWhile_cons_of_neg (by simp [(tchar_plain is).2.2.1])

theorem value_stops {value : LinkParamValue} (formed : value.Formed) (follows : Follows rest) :
    (value.write ++ rest).head?.all (fun b => !isName b) = true := by
  have spaced {white : Bytes} (ows : white.all is_ows = true) (tail : Bytes) (ends : tail.head?.all (fun b => !isName b) = true) :
      (white ++ tail).head?.all (fun b => !isName b) = true := by
    cases white with
    | nil => exact ends
    | cons b white =>
      have is := List.all_eq_true.mp ows b List.mem_cons_self
      show (!isName b) = true
      rw [isName, is]
      simp
  cases value with
  | none =>
    obtain ⟨white, tail, rfl, ows, ends⟩ := follows
    exact spaced ows tail (ended_stops ends (by decide))
  | token before after text =>
    rw [LinkParamValue.write, List.append_assoc]
    exact spaced formed.1 _ rfl
  | quoted before after items =>
    rw [LinkParamValue.write, List.append_assoc]
    exact spaced formed.1 _ rfl

theorem parse_params_write {params : List LinkParam} {white : Bytes} (formed : ∀ param ∈ params, param.Formed)
    (blank : white.all is_ows = true) (turns : Nat) (member : LinkMember) (enough : (written params white).length < turns) :
    parse_params turns member (written params white) = (params.foldl LinkParam.assign member, .ok []) := by
  induction params generalizing turns member with
  | nil =>
    cases turns with
    | zero => omega
    | succ turns =>
      have nothing : skip_ows (written [] white) = [] := List.dropWhile_eq_nil_iff.mpr (List.all_eq_true.mp blank)
      rw [parse_params, nothing]
      rfl
  | cons param params ih =>
    have own := formed param List.mem_cons_self
    have others : ∀ param ∈ params, param.Formed := fun other listed => formed other (List.mem_cons_of_mem _ listed)
    have follows := params_follow others blank
    cases turns with
    | zero => omega
    | succ turns =>
      rw [written_cons, List.length_append, List.length_cons, List.length_append, List.length_append] at enough
      have inner (member : LinkMember) {left : Bytes} (same : skip_ows left = skip_ows (written params white)) :
          parse_params turns member left = (params.foldl LinkParam.assign member, .ok []) := by
        rw [← ih others turns member (by omega)]
        cases turns with
        | zero => omega
        | succ turns => exact parse_params_skip same turns member
      have start : skip_ows (written (param :: params) white) =
          SEMICOLON :: (param.after ++ (param.body ++ written params white)) := by
        rw [written_cons, skip_ows_white own.before]
        exact List.dropWhile_cons_of_neg (by decide)
      rw [parse_params, start]
      dsimp only
      rw [if_neg (by decide), if_pos rfl, skip_ows_white own.after, List.foldl_cons]
      cases named : param.named with
      | none =>
        obtain ⟨lead, tail, whole, ows, ends⟩ := follows
        have rest_skipped : skip_ows (written params white) = tail := by
          rw [whole]
          exact Follows.skipped ows ends
        have run := @run_stops [] tail isName rfl (ended_stops ends (by decide))
        rw [List.nil_append] at run
        have closes : (tail.head?.all fun byte => byte = COMMA || byte = SEMICOLON) = true := by
          rcases ends with rfl | ⟨more, rfl⟩
          · rfl
          · rfl
        rw [LinkParam.body, named, Option.elim_none, List.nil_append, rest_skipped, run.1, run.2, if_pos rfl, if_pos closes,
          inner member (by rw [skip_ended ends, rest_skipped]), LinkParam.assign, named, Option.elim_none]
      | some pair =>
        obtain ⟨name, value⟩ := pair
        obtain ⟨token, value_formed⟩ := own.named name value named
        have all : name.all isName = true :=
          List.all_eq_true.mpr fun b listed => (tchar_plain (List.all_eq_true.mp token.2 b listed)).1
        have run := run_stops all (value_stops value_formed follows)
        obtain ⟨left, read, same⟩ := read_value_write value_formed follows
        rw [LinkParam.body, named, Option.elim_some, List.append_assoc, skip_token token, run.1, run.2, if_neg token.1, read]
        dsimp only
        have kept : { member with odd_name := member.odd_name || !name.all is_tchar } = member := by
          rw [token.2, Bool.not_true, Bool.or_false]
        rw [kept, inner _ same, LinkParam.assign, named, Option.elim_some]

theorem parse_member_write {link : LinkValue} {white : Bytes} (formed : link.Formed) (blank : white.all is_ows = true) :
    parse_member (link.write ++ white) =
      (link.params.foldl LinkParam.assign { LinkMember.empty with target := some link.target }, .ok []) := by
  have all : link.target.all (fun b => b ≠ CLOSE) = true := by
    apply List.all_eq_true.mpr
    intro b listed
    have apart : b ≠ CLOSE := fun is => formed.target (is ▸ listed)
    simpa using apart
  have run := @run_stops link.target (CLOSE :: written link.params white) (fun b => b ≠ CLOSE) all (by simp)
  have whole : link.write ++ white = OPEN :: (link.target ++ CLOSE :: written link.params white) := by
    simp only [LinkValue.write, written, List.append_assoc, List.cons_append]
  rw [whole, parse_member, if_neg (not_not.mpr rfl), run.1, run.2]
  exact parse_params_write formed.params blank _ _ (Nat.lt_succ_self _)

theorem write_neat {link : LinkValue} {white : Bytes} (formed : link.Formed) (blank : white.all is_ows = true) :
    Neat (link.write ++ white) :=
  ⟨⟨OPEN, _, rfl, rfl⟩, Or.inl (by rw [parse_member_write formed blank])⟩

/-! ### What it names -/

def Called (key : String) (name : Bytes) : Bool := name.getLast? ≠ some STAR && eq_ignore_ascii_case name (utf8 key)

def LinkValue.first (link : LinkValue) (key : String) : Option Bytes :=
  link.params.findSome? fun param => param.named.bind fun (name, value) => if Called key name then some value.bytes else none

theorem assign_parts (member : LinkMember) (name value : Bytes) :
    (member.assign name value).target = member.target ∧ (member.assign name value).odd_name = member.odd_name ∧
    (member.assign name value).rel = (if Called "rel" name then member.rel.or (some (.Read value)) else member.rel) ∧
    (member.assign name value).media_type =
      if Called "type" name then member.media_type.or (some (.Read value)) else member.media_type := by
  unfold LinkMember.assign Called
  by_cases starred : name.getLast? = some STAR
  · simp only [starred, if_true, ne_eq, not_true_eq_false, decide_false, Bool.false_and, Bool.false_eq_true, if_false]
    split
    · exact ⟨rfl, rfl, rfl, rfl⟩
    · split
      all_goals exact ⟨rfl, rfl, rfl, rfl⟩
  · simp only [starred, if_false, ne_eq, not_false_eq_true, decide_true, Bool.true_and]
    by_cases rel : eq_ignore_ascii_case name (utf8 "rel") = true
    · have other : eq_ignore_ascii_case name (utf8 "type") = false := by
        rw [eq_ignore_ascii_case, decide_eq_true_eq] at rel
        rw [eq_ignore_ascii_case, rel]
        decide
      rw [if_pos rel, if_pos rel, other]
      exact ⟨rfl, rfl, rfl, rfl⟩
    · rw [if_neg rel, if_neg rel]
      split
      all_goals exact ⟨rfl, rfl, rfl, rfl⟩

theorem assigned_parts (params : List LinkParam) (member : LinkMember) :
    (params.foldl LinkParam.assign member).target = member.target ∧
    (params.foldl LinkParam.assign member).odd_name = member.odd_name ∧
    (params.foldl LinkParam.assign member).rel =
      member.rel.or ((LinkValue.first ⟨[], params⟩ "rel").map .Read) ∧
    (params.foldl LinkParam.assign member).media_type =
      member.media_type.or ((LinkValue.first ⟨[], params⟩ "type").map .Read) := by
  induction params generalizing member with
  | nil => simp [LinkValue.first]
  | cons param params ih =>
    obtain ⟨target, odd, rel, media⟩ := ih (LinkParam.assign member param)
    rw [List.foldl_cons, target, odd, rel, media]
    unfold LinkParam.assign LinkValue.first
    dsimp only
    rw [List.findSome?_cons, List.findSome?_cons]
    cases named : param.named with
    | none => exact ⟨rfl, rfl, rfl, rfl⟩
    | some pair =>
      obtain ⟨name, value⟩ := pair
      obtain ⟨one, two, three, four⟩ := assign_parts member name value.bytes
      rw [Option.elim_some, one, two, three, four, Option.bind_some, Option.bind_some]
      dsimp only
      refine ⟨rfl, rfl, ?_, ?_⟩
      · by_cases called : Called "rel" name = true
        · rw [if_pos called, if_pos called]
          cases member.rel
          all_goals rfl
        · rw [if_neg called, if_neg called]
      · by_cases called : Called "type" name = true
        · rw [if_pos called, if_pos called]
          cases member.media_type
          all_goals rfl
        · rw [if_neg called, if_neg called]

structure LinkValue.Licensed (link : LinkValue) : Prop where
  formed : link.Formed
  rel : ∃ bytes text, link.first "rel" = some bytes ∧ fromUtf8 bytes = some text ∧
    (words text.toList).any (fun word => word.text.map Char.toLower = "license".toList) = true
  media_type : ∃ bytes text, link.first "type" = some bytes ∧ fromUtf8 bytes = some text ∧
    (essence text).map Char.toLower = RSL_TYPE

section

variable {Url : Type} (u : UrlCrate Url) (refusal : Text → Text → String) (page_url : Text)

theorem read_target_names (member : LinkMember) : (read_target u refusal page_url member).names = true := by
  unfold read_target
  split
  · rfl
  · split
    · rfl
    · split
      all_goals rfl

theorem read_member_licensed {link : LinkValue} {white : Bytes} (licensed : link.Licensed) (blank : white.all is_ows = true) :
    (member_at (link.write ++ white)).1.target = some link.target ∧
      (read_member u refusal page_url (member_at (link.write ++ white)).1).names = true := by
  obtain ⟨rel, rel_text, rel_first, rel_read, names⟩ := licensed.rel
  obtain ⟨media, media_text, media_first, media_read, rsl⟩ := licensed.media_type
  have parsed := parse_member_write licensed.formed blank
  have done : (parse_member (link.write ++ white)).2 = .ok [] := by rw [parsed]
  obtain ⟨target, odd, rels, medias⟩ :=
    assigned_parts link.params { LinkMember.empty with target := some link.target }
  have rel_is : (member_at (link.write ++ white)).1.rel = some (.Read rel) := by
    rw [member_at_ok done, parsed]
    exact rels.trans (by rw [show LinkValue.first ⟨[], link.params⟩ "rel" = some rel from rel_first]; rfl)
  have media_is : (member_at (link.write ++ white)).1.media_type = some (.Read media) := by
    rw [member_at_ok done, parsed]
    exact medias.trans (by rw [show LinkValue.first ⟨[], link.params⟩ "type" = some media from media_first]; rfl)
  have well : (member_at (link.write ++ white)).1.malformed = none := by rw [member_at_ok done]
  have odd_is : (member_at (link.write ++ white)).1.odd_name = false := by
    rw [member_at_ok done, parsed]
    exact odd
  refine ⟨by rw [member_at_ok done, parsed]; exact target, ?_⟩
  generalize (member_at (link.write ++ white)).1 = member at rel_is media_is well odd_is ⊢
  have licence : read_rel member (some (.Read rel)) = .licence := by
    rw [read_rel, rel_read]
    exact if_pos names
  have first : (read_as u refusal page_url member (some (.Read rel)) (some (.Read media))).names = true := by
    rw [read_as, licence]
    dsimp only
    rw [media_read]
    dsimp only
    rw [if_neg (not_not.mpr rsl)]
    exact read_target_names u refusal page_url member
  obtain ⟨more, readings⟩ : ∃ more, (either member.rel member.rel_star).flatMap (fun rel =>
      (either member.media_type member.media_type_star).map fun media_type =>
        read_as u refusal page_url member rel media_type) =
      read_as u refusal page_url member (some (.Read rel)) (some (.Read media)) :: more := by
    rw [rel_is, media_is]
    cases member.rel_star
    all_goals
      cases member.media_type_star
      all_goals exact ⟨_, rfl⟩
  rw [read_member, well, odd_is]
  dsimp only
  rw [Bool.false_and, Bool.false_and, if_neg Bool.false_ne_true, readings]
  split
  · exact first
  · rfl

end

end

end CommonMeasure.Declarations.Links
