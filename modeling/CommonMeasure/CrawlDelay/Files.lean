import CommonMeasure.CrawlDelay.Turn

/-!
# Which hosts' files are apart

Two hosts share the directory.
-/

namespace CommonMeasure.CrawlDelay

structure Draw where
  pid : Nat
  seconds : Nat
  nonce : Nat

def tempPath (name : String) (draw : Draw) : String :=
  name ++ "." ++ toString draw.pid ++ "." ++ toString draw.seconds ++ "." ++ toString draw.nonce ++ ".tmp"

def startsWith (name beginning : String) : Bool := beginning.toList.isPrefixOf name.toList

def endsWith (name ending : String) : Bool := ending.toList.isSuffixOf name.toList

inductive Access where
  | reads (file : String)
  | writes (file : String)
  | removes (file : String)
  | locks (file : String)

def Access.file : Access → String
  | .reads file | .writes file | .removes file | .locks file => file

/-- What a call finds, and the names its writes try: whether this process has swept the host before, whether the
host's back-off record is healthy and over, and the directory's entries. -/
structure Around where
  swept : Bool
  lapsed : Bool
  entries : List String
  draws : List Draw

section

variable (platform : Platform)

def fileOf (host extension : String) : String := fileName platform host ++ "." ++ extension

/-- The entries `clear_temporaries` takes for the host's interrupted writes. -/
def leftovers (host : String) (entries : List String) : List String :=
  entries.filter fun name =>
    (startsWith name (fileOf platform host "json" ++ ".") || startsWith name (fileOf platform host "backoff.json" ++ ".")) &&
      endsWith name ".tmp"

def clearTemporaries (host : String) (around : Around) : List Access :=
  if around.swept then []
  else
    .reads (fileOf platform host "backoff.json") ::
      ((if around.lapsed then [.removes (fileOf platform host "backoff.json")] else []) ++
        (leftovers platform host around.entries).map .removes)

def replace (file : String) (draws : List Draw) : List Access :=
  draws.flatMap (fun draw => [.writes (tempPath file draw), .removes (tempPath file draw)]) ++ [.writes file]

inductive Operation where
  | turn | pendingWait | sent | backoff | answer | reserve | release

def Operation.accesses (host : String) (around : Around) : Operation → List Access
  | .turn => .locks (fileOf platform host "lock") :: (clearTemporaries platform host around ++
      .reads (fileOf platform host "json") :: replace (fileOf platform host "json") around.draws)
  | .pendingWait => [.reads (fileOf platform host "json")]
  | .sent => .locks (fileOf platform host "lock") :: .reads (fileOf platform host "json") ::
      replace (fileOf platform host "json") around.draws
  | .backoff => [.reads (fileOf platform host "backoff.json")]
  | .answer | .reserve | .release =>
    .reads (fileOf platform host "backoff.json") :: .locks (fileOf platform host "lock") ::
      (clearTemporaries platform host around ++ .reads (fileOf platform host "backoff.json") ::
        .removes (fileOf platform host "backoff.json") :: replace (fileOf platform host "backoff.json") around.draws)

def Temporary (host file : String) : Prop :=
  ∃ draw, file = tempPath (fileOf platform host "json") draw ∨ file = tempPath (fileOf platform host "backoff.json") draw

def Own (host file : String) : Prop :=
  file = fileOf platform host "json" ∨ file = fileOf platform host "backoff.json" ∨ file = fileOf platform host "lock" ∨
    Temporary platform host file

/-- No operation on `a` touches a file of `b`, and what it sweeps among their files is its own. -/
structure Apart (a b : String) : Prop where
  untouched : ∀ (operation : Operation) (around : Around), ∀ access ∈ operation.accesses platform a around,
    ¬Own platform b access.file
  swept : ∀ entries : List String, (∀ entry ∈ entries, Own platform a entry ∨ Own platform b entry) →
    ∀ entry ∈ leftovers platform a entries, Temporary platform a entry

/-- Neither name is the other's and `.backoff`, and the other's, ended by a dot, does not begin as the temporaries do. -/
def Distinguished (a b : String) : Prop :=
  fileName platform b ≠ fileName platform a ++ ".backoff" ∧ fileName platform a ≠ fileName platform b ++ ".backoff" ∧
    startsWith (fileName platform b ++ ".") (fileOf platform a "json" ++ ".") = false ∧
    startsWith (fileName platform b ++ ".") (fileOf platform a "backoff.json" ++ ".") = false

end

/-! ### Beginnings and endings -/

section

variable {α : Type}

theorem begins_across {x y rest : List α} (begins : x <+: y ++ rest) : x <+: y ∨ ∃ more, x = y ++ more ∧ more <+: rest := by
  rcases List.prefix_or_prefix_of_prefix begins (List.prefix_append y rest) with short | ⟨more, rfl⟩
  · exact Or.inl short
  · exact Or.inr ⟨more, rfl, (List.prefix_append_right_inj y).mp begins⟩

theorem prefix_shrink {x y rest : List α} {c d : α} (begins : x ++ [c, d] <+: y ++ rest) (without : c ∉ rest)
    (head : rest.head? ≠ some d) : x ++ [c, d] <+: y := by
  rcases begins_across begins with short | ⟨more, same, inside⟩
  · exact short
  · rcases List.eq_nil_or_concat more with rfl | ⟨more, last, rfl⟩
    · rw [same, List.append_nil]
    · rcases List.eq_nil_or_concat more with rfl | ⟨more, before, rfl⟩
      · obtain ⟨tail, rfl⟩ := inside
        have ends := congrArg List.getLast? same
        simp at ends head
        exact absurd ends.symm head
      · have ends : x ++ [c] ++ [d] = (y ++ more ++ [before]) ++ [last] := by simpa using same
        obtain ⟨ends, _⟩ := List.append_singleton_inj.mp ends
        obtain ⟨_, rfl⟩ := List.append_singleton_inj.mp ends
        exact absurd (inside.subset (by simp)) without

theorem split_last {x y u v : List α} {d : α} (same : x ++ d :: u = y ++ d :: v) (left : d ∉ u) (right : d ∉ v) :
    x = y ∧ u = v := by
  rcases List.append_eq_append_iff.mp same with ⟨more, rfl, rest⟩ | ⟨more, rfl, rest⟩
  · cases more with
    | nil => simpa using rest
    | cons e more =>
      obtain ⟨rfl, rfl⟩ := List.cons.inj rest
      exact absurd (by simp) left
  · cases more with
    | nil => simpa [eq_comm] using rest
    | cons e more =>
      obtain ⟨rfl, rfl⟩ := List.cons.inj rest
      exact absurd (by simp) right

end

def dotJson : List Char := ['.', 'j', 's', 'o', 'n']

def dotBackoff : List Char := ['.', 'b', 'a', 'c', 'k', 'o', 'f', 'f']

def Draw.chars (draw : Draw) : List Char :=
  Nat.toDigits 10 draw.pid ++ '.' :: (Nat.toDigits 10 draw.seconds ++
    '.' :: (Nat.toDigits 10 draw.nonce ++ ['.', 't', 'm', 'p']))

section

variable {platform : Platform} {a b : String}

theorem fileOf_json (host : String) :
    (fileOf platform host "json").toList = (fileName platform host).toList ++ dotJson := by
  simp [fileOf, dotJson]

theorem fileOf_backoff (host : String) :
    (fileOf platform host "backoff.json").toList = (fileName platform host).toList ++ dotBackoff ++ dotJson := by
  simp [fileOf, dotJson, dotBackoff]

theorem fileOf_lock (host : String) :
    (fileOf platform host "lock").toList = (fileName platform host).toList ++ ['.', 'l', 'o', 'c', 'k'] := by
  simp [fileOf]

theorem tempPath_toList (name : String) (draw : Draw) :
    (tempPath name draw).toList = name.toList ++ '.' :: draw.chars := by
  simp [tempPath, Draw.chars]

theorem digits_free {n : Nat} {c : Char} (other : c.isDigit = false) : c ∉ Nat.toDigits 10 n := by
  intro member
  rw [Nat.isDigit_of_mem_toDigits (by decide) (by decide) member] at other
  cases other

theorem chars_free (draw : Draw) : 'n' ∉ draw.chars := by
  have free (m : Nat) : 'n' ∉ Nat.toDigits 10 m := digits_free (by decide)
  simp [Draw.chars, free]

theorem chars_head (draw : Draw) : draw.chars.head? ≠ some '.' := by
  have free : '.' ∉ Nat.toDigits 10 draw.pid := digits_free (by decide)
  unfold Draw.chars
  cases digits : Nat.toDigits 10 draw.pid with
  | nil => exact absurd digits Nat.toDigits_ne_nil
  | cons c rest =>
    rw [digits] at free
    intro head
    obtain rfl : c = '.' := Option.some.inj head
    exact free List.mem_cons_self

theorem tempPath_record {name other : String} {draw drawn : Draw} (same : tempPath name draw = tempPath other drawn) :
    name = other := by
  have free (m : Nat) : '.' ∉ Nat.toDigits 10 m := digits_free (by decide)
  have same := congrArg String.toList same
  rw [tempPath_toList, tempPath_toList] at same
  have last : (name.toList ++ '.' :: Nat.toDigits 10 draw.pid ++ '.' :: Nat.toDigits 10 draw.seconds ++
        '.' :: Nat.toDigits 10 draw.nonce) ++ '.' :: ['t', 'm', 'p'] =
      (other.toList ++ '.' :: Nat.toDigits 10 drawn.pid ++ '.' :: Nat.toDigits 10 drawn.seconds ++
        '.' :: Nat.toDigits 10 drawn.nonce) ++ '.' :: ['t', 'm', 'p'] := by
    simpa [Draw.chars] using same
  obtain ⟨nonces, _⟩ := split_last last (by decide) (by decide)
  obtain ⟨seconds, _⟩ := split_last nonces (free _) (free _)
  obtain ⟨pids, _⟩ := split_last seconds (free _) (free _)
  exact String.toList_injective (split_last pids (free _) (free _)).1

theorem last_json (host : String) : (fileOf platform host "json").toList.getLast? = some 'n' := by
  rw [fileOf_json]
  simp [dotJson]

theorem last_backoff (host : String) : (fileOf platform host "backoff.json").toList.getLast? = some 'n' := by
  rw [fileOf_backoff]
  simp [dotJson]

theorem last_lock (host : String) : (fileOf platform host "lock").toList.getLast? = some 'k' := by
  rw [fileOf_lock]
  simp

theorem last_tempPath (name : String) (draw : Draw) : (tempPath name draw).toList.getLast? = some 'p' := by
  have ends : (tempPath name draw).toList = (name.toList ++ '.' :: (Nat.toDigits 10 draw.pid ++
      '.' :: (Nat.toDigits 10 draw.seconds ++ '.' :: (Nat.toDigits 10 draw.nonce ++ ['.', 't', 'm'])))) ++ ['p'] := by
    simp [tempPath_toList, Draw.chars]
  rw [ends, List.getLast?_concat]

theorem fileOf_injective {extension : String} (same : fileOf platform a extension = fileOf platform b extension) :
    fileName platform a = fileName platform b := by
  have same := congrArg String.toList same
  simp only [fileOf, String.toList_append, List.append_left_inj] at same
  exact String.toList_injective same

theorem json_eq_backoff (same : fileOf platform a "json" = fileOf platform b "backoff.json") :
    fileName platform a = fileName platform b ++ ".backoff" := by
  have same := congrArg String.toList same
  rw [fileOf_json, fileOf_backoff, List.append_left_inj] at same
  apply String.toList_injective
  rw [same]
  simp [dotBackoff]

theorem json_begins {x y : List Char} (begins : x ++ dotJson ++ ['.'] <+: y ++ dotJson ++ ['.']) :
    x = y ∨ x ++ dotJson ++ ['.'] <+: y ++ ['.'] := by
  have shorter : x.length ≤ y.length := by
    have length := begins.length_le
    simp only [List.length_append] at length
    omega
  have whole : y <+: y ++ dotJson ++ ['.'] := by simp
  have start : x <+: y ++ dotJson ++ ['.'] := (List.prefix_append x (dotJson ++ ['.'])).trans (by simpa using begins)
  obtain ⟨w, rfl⟩ := List.prefix_of_prefix_length_le start whole shorter
  simp only [List.append_assoc, List.prefix_append_right_inj] at begins ⊢
  unfold dotJson at *
  match w with
  | [] => exact Or.inl (by simp)
  | [_] => simp at begins
  | [_, _] => simp [List.cons_prefix_cons] at begins
  | [_, _, _] => simp [List.cons_prefix_cons] at begins
  | [_, _, _, _] => simp [List.cons_prefix_cons] at begins
  | [_, _, _, _, _] => exact Or.inr (by simpa [List.cons_prefix_cons] using begins)
  | _ :: _ :: _ :: _ :: _ :: _ :: _ => exact Or.inr (by simpa [List.cons_prefix_cons] using begins)

theorem json_begins_record {x record : List Char} {draw : Draw}
    (begins : x ++ dotJson ++ ['.'] <+: record ++ '.' :: draw.chars) : x ++ dotJson ++ ['.'] <+: record ++ ['.'] := by
  have cut : (x ++ ['.', 'j', 's', 'o']) ++ ['n', '.'] <+: (record ++ ['.']) ++ draw.chars := by
    simpa [dotJson] using begins
  simpa [dotJson] using prefix_shrink cut (chars_free draw) (chars_head draw)

theorem json_begins_backoff {x y : List Char} (begins : x ++ dotJson ++ ['.'] <+: y ++ dotBackoff ++ ['.']) :
    x ++ dotJson ++ ['.'] <+: y ++ ['.'] := by
  have cut : (x ++ ['.', 'j', 's', 'o']) ++ ['n', '.'] <+: (y ++ ['.']) ++ ['b', 'a', 'c', 'k', 'o', 'f', 'f', '.'] := by
    simpa [dotJson, dotBackoff] using begins
  simpa [dotJson] using prefix_shrink cut (by decide) (by decide)

theorem startsWith_iff {name beginning : String} :
    startsWith name beginning = true ↔ beginning.toList <+: name.toList := List.isPrefixOf_iff_prefix

theorem endsWith_last {name : String} (ends : endsWith name ".tmp" = true) : name.toList.getLast? = some 'p' := by
  obtain ⟨before, same⟩ := List.isSuffixOf_iff_suffix.mp ends
  rw [← same]
  simp

theorem temporary_of_own {file : String} (own : Own platform b file) (last : file.toList.getLast? = some 'p') :
    Temporary platform b file := by
  rcases own with rfl | rfl | rfl | temporary
  · rw [last_json] at last
    cases last
  · rw [last_backoff] at last
    cases last
  · rw [last_lock] at last
    cases last
  · exact temporary

theorem leftover_begins {entries : List String} {entry : String} (taken : entry ∈ leftovers platform a entries)
    (temporary : Temporary platform b entry) :
    fileName platform a = fileName platform b ∨ fileName platform a = fileName platform b ++ ".backoff" ∨
      fileName platform b = fileName platform a ++ ".backoff" ∨
      startsWith (fileName platform b ++ ".") (fileOf platform a "json" ++ ".") = true ∨
      startsWith (fileName platform b ++ ".") (fileOf platform a "backoff.json" ++ ".") = true := by
  simp only [leftovers, List.mem_filter, Bool.and_eq_true, Bool.or_eq_true, startsWith_iff] at taken
  obtain ⟨_, begins, _⟩ := taken
  simp only [startsWith_iff, String.toList_append, fileOf_json, fileOf_backoff] at begins ⊢
  obtain ⟨draw, rfl | rfl⟩ := temporary
  · rw [tempPath_toList, fileOf_json] at begins
    rcases begins with begins | begins
    · rcases json_begins (json_begins_record begins) with same | short
      · exact Or.inl (String.toList_injective same)
      · exact Or.inr (Or.inr (Or.inr (Or.inl short)))
    · rcases json_begins (json_begins_record begins) with same | short
      · exact Or.inr (Or.inr (Or.inl (String.toList_injective (by rw [← same]; simp [dotBackoff]))))
      · exact Or.inr (Or.inr (Or.inr (Or.inr short)))
  · rw [tempPath_toList, fileOf_backoff] at begins
    rcases begins with begins | begins
    · rcases json_begins (json_begins_record begins) with same | short
      · exact Or.inr (Or.inl (String.toList_injective (by rw [same]; simp [dotBackoff])))
      · exact Or.inr (Or.inr (Or.inr (Or.inl (json_begins_backoff short))))
    · rcases json_begins (json_begins_record begins) with same | short
      · exact Or.inl (String.toList_injective (List.append_left_injective _ same))
      · exact Or.inr (Or.inr (Or.inr (Or.inr (json_begins_backoff short))))

theorem leftover_own {entries : List String} {entry : String} (taken : entry ∈ leftovers platform a entries)
    (own : Own platform b entry) : Temporary platform b entry := by
  apply temporary_of_own own
  simp only [leftovers, List.mem_filter, Bool.and_eq_true] at taken
  exact endsWith_last taken.2.2

theorem accesses_cases {operation : Operation} {around : Around} {access : Access}
    (made : access ∈ operation.accesses platform a around) :
    Own platform a access.file ∨ access.file ∈ leftovers platform a around.entries := by
  have cleared (made : access ∈ clearTemporaries platform a around) :
      Own platform a access.file ∨ access.file ∈ leftovers platform a around.entries := by
    unfold clearTemporaries at made
    split at made
    · cases made
    · rcases List.mem_cons.mp made with rfl | made
      · exact Or.inl (Or.inr (Or.inl rfl))
      · rcases List.mem_append.mp made with made | made
        · split at made
          · obtain rfl := List.mem_singleton.mp made
            exact Or.inl (Or.inr (Or.inl rfl))
          · cases made
        · obtain ⟨entry, taken, rfl⟩ := List.mem_map.mp made
          exact Or.inr taken
  have replaced {file : String} (record : file = fileOf platform a "json" ∨ file = fileOf platform a "backoff.json")
      (made : access ∈ replace file around.draws) : Own platform a access.file := by
    rcases List.mem_append.mp made with made | made
    · obtain ⟨draw, _, made⟩ := List.mem_flatMap.mp made
      have temp : access.file = tempPath file draw := by
        rcases List.mem_cons.mp made with rfl | made
        · rfl
        · obtain rfl := List.mem_singleton.mp made
          rfl
      rw [temp]
      rcases record with rfl | rfl
      · exact Or.inr (Or.inr (Or.inr ⟨draw, Or.inl rfl⟩))
      · exact Or.inr (Or.inr (Or.inr ⟨draw, Or.inr rfl⟩))
    · obtain rfl := List.mem_singleton.mp made
      rcases record with rfl | rfl
      · exact Or.inl rfl
      · exact Or.inr (Or.inl rfl)
  have lock : Own platform a (fileOf platform a "lock") := Or.inr (Or.inr (Or.inl rfl))
  have json : Own platform a (fileOf platform a "json") := Or.inl rfl
  have backoff : Own platform a (fileOf platform a "backoff.json") := Or.inr (Or.inl rfl)
  cases operation with
  | turn =>
    simp only [Operation.accesses, List.mem_cons, List.mem_append] at made
    rcases made with rfl | made | rfl | made
    · exact Or.inl lock
    · exact cleared made
    · exact Or.inl json
    · exact Or.inl (replaced (Or.inl rfl) made)
  | pendingWait =>
    simp only [Operation.accesses, List.mem_singleton] at made
    rw [made]
    exact Or.inl json
  | sent =>
    simp only [Operation.accesses, List.mem_cons] at made
    rcases made with rfl | rfl | made
    · exact Or.inl lock
    · exact Or.inl json
    · exact Or.inl (replaced (Or.inl rfl) made)
  | backoff =>
    simp only [Operation.accesses, List.mem_singleton] at made
    rw [made]
    exact Or.inl backoff
  | _ =>
    simp only [Operation.accesses, List.mem_cons, List.mem_append] at made
    rcases made with rfl | rfl | made | rfl | rfl | made
    · exact Or.inl backoff
    · exact Or.inl lock
    · exact cleared made
    · exact Or.inl backoff
    · exact Or.inl backoff
    · exact Or.inl (replaced (Or.inr rfl) made)

theorem record_shared {file : String} (first : file = fileOf platform a "json" ∨ file = fileOf platform a "backoff.json")
    (second : file = fileOf platform b "json" ∨ file = fileOf platform b "backoff.json") :
    fileName platform a = fileName platform b ∨ fileName platform a = fileName platform b ++ ".backoff" ∨
      fileName platform b = fileName platform a ++ ".backoff" := by
  rcases first with rfl | rfl
  · rcases second with same | same
    · exact Or.inl (fileOf_injective same)
    · exact Or.inr (Or.inl (json_eq_backoff same))
  · rcases second with same | same
    · exact Or.inr (Or.inr (json_eq_backoff same.symm))
    · exact Or.inl (fileOf_injective same)

theorem last_own {file : String} (own : Own platform a file) :
    (file = fileOf platform a "json" ∨ file = fileOf platform a "backoff.json") ∧ file.toList.getLast? = some 'n' ∨
      file = fileOf platform a "lock" ∧ file.toList.getLast? = some 'k' ∨
      Temporary platform a file ∧ file.toList.getLast? = some 'p' := by
  rcases own with rfl | rfl | rfl | ⟨draw, made⟩
  · exact Or.inl ⟨Or.inl rfl, last_json a⟩
  · exact Or.inl ⟨Or.inr rfl, last_backoff a⟩
  · exact Or.inr (Or.inl ⟨rfl, last_lock a⟩)
  · refine Or.inr (Or.inr ⟨⟨draw, made⟩, ?_⟩)
    rcases made with rfl | rfl
    · exact last_tempPath _ _
    · exact last_tempPath _ _

theorem temporary_record {file : String} (temporary : Temporary platform a file) :
    ∃ record draw, (record = fileOf platform a "json" ∨ record = fileOf platform a "backoff.json") ∧
      file = tempPath record draw := by
  obtain ⟨draw, made | made⟩ := temporary
  · exact ⟨_, draw, Or.inl rfl, made⟩
  · exact ⟨_, draw, Or.inr rfl, made⟩

theorem own_shared {file : String} (first : Own platform a file) (second : Own platform b file) :
    fileName platform a = fileName platform b ∨ fileName platform a = fileName platform b ++ ".backoff" ∨
      fileName platform b = fileName platform a ++ ".backoff" := by
  rcases last_own first with ⟨record, last⟩ | ⟨lock, last⟩ | ⟨temporary, last⟩
  · rcases last_own second with ⟨other, _⟩ | ⟨_, otherLast⟩ | ⟨_, otherLast⟩
    · exact record_shared record other
    · rw [last] at otherLast
      cases otherLast
    · rw [last] at otherLast
      cases otherLast
  · rcases last_own second with ⟨_, otherLast⟩ | ⟨other, _⟩ | ⟨_, otherLast⟩
    · rw [last] at otherLast
      cases otherLast
    · exact Or.inl (fileOf_injective (lock.symm.trans other))
    · rw [last] at otherLast
      cases otherLast
  · rcases last_own second with ⟨_, otherLast⟩ | ⟨_, otherLast⟩ | ⟨other, _⟩
    · rw [last] at otherLast
      cases otherLast
    · rw [last] at otherLast
      cases otherLast
    · obtain ⟨record, draw, made, rfl⟩ := temporary_record temporary
      obtain ⟨otherRecord, drawn, otherMade, same⟩ := temporary_record other
      obtain rfl := tempPath_record same
      exact record_shared made otherMade

theorem temporary_swept (draw : Draw) {entries : List String} {extension : String}
    (begins : startsWith (fileName platform b ++ ".") (fileOf platform a extension ++ ".") = true)
    (extended : extension = "json" ∨ extension = "backoff.json")
    (listed : tempPath (fileOf platform b "json") draw ∈ entries) :
    tempPath (fileOf platform b "json") draw ∈ leftovers platform a entries := by
  have long : startsWith (tempPath (fileOf platform b "json") draw) (fileOf platform a extension ++ ".") = true := by
    rw [startsWith_iff] at begins ⊢
    apply begins.trans
    rw [tempPath_toList, fileOf_json]
    simp [dotJson]
  have ends : endsWith (tempPath (fileOf platform b "json") draw) ".tmp" = true := by
    apply List.isSuffixOf_iff_suffix.mpr
    rw [tempPath, String.toList_append]
    exact List.suffix_append _ _
  simp only [leftovers, List.mem_filter, Bool.and_eq_true, Bool.or_eq_true]
  refine ⟨listed, ?_, ends⟩
  rcases extended with rfl | rfl
  · exact Or.inl long
  · exact Or.inr long

theorem distinguished_of_apart (apart : Apart platform a b) : Distinguished platform a b := by
  have swept (extension : String) (extended : extension = "json" ∨ extension = "backoff.json") :
      startsWith (fileName platform b ++ ".") (fileOf platform a extension ++ ".") = false := by
    rw [Bool.eq_false_iff]
    intro begins
    have own : Own platform b (tempPath (fileOf platform b "json") ⟨1, 1, 1⟩) :=
      Or.inr (Or.inr (Or.inr ⟨_, Or.inl rfl⟩))
    have taken := temporary_swept ⟨1, 1, 1⟩ begins extended (List.mem_singleton_self _)
    apply apart.untouched .turn ⟨false, false, [tempPath (fileOf platform b "json") ⟨1, 1, 1⟩], []⟩
      (.removes (tempPath (fileOf platform b "json") ⟨1, 1, 1⟩)) _ own
    simp [Operation.accesses, clearTemporaries, taken]
  refine ⟨?_, ?_, swept "json" (Or.inl rfl), swept "backoff.json" (Or.inr rfl)⟩
  · intro same
    apply apart.untouched .backoff ⟨false, false, [], []⟩ (.reads (fileOf platform a "backoff.json"))
      (by simp [Operation.accesses])
    left
    apply String.toList_injective
    rw [Access.file, fileOf_backoff, fileOf_json, same]
    simp [dotBackoff]
  · intro same
    apply apart.untouched .pendingWait ⟨false, false, [], []⟩ (.reads (fileOf platform a "json"))
      (by simp [Operation.accesses])
    right
    left
    apply String.toList_injective
    rw [Access.file, fileOf_backoff, fileOf_json, same]
    simp [dotBackoff]

theorem apart_of_distinguished (different : fileName platform a ≠ fileName platform b)
    (distinguished : Distinguished platform a b) : Apart platform a b := by
  obtain ⟨notB, notA, notJson, notBackoff⟩ := distinguished
  have strange {entries : List String} {entry : String} (taken : entry ∈ leftovers platform a entries) :
      ¬Own platform b entry := by
    intro own
    rcases leftover_begins taken (leftover_own taken own) with same | same | same | begins | begins
    · exact different same
    · exact notA same
    · exact notB same
    · rw [notJson] at begins
      cases begins
    · rw [notBackoff] at begins
      cases begins
  constructor
  · intro operation around access made own
    rcases accesses_cases made with mine | taken
    · rcases own_shared mine own with same | same | same
      · exact different same
      · exact notA same
      · exact notB same
    · exact strange taken own
  · intro entries listed entry taken
    have member := (List.mem_filter.mp taken).1
    exact leftover_own taken ((listed entry member).resolve_right (strange taken))

/-- Of two hosts whose file names differ, no operation on the first touches a file of the second, nor sweeps one,
exactly where the names are distinguished. -/
theorem apart_iff (platform : Platform) {a b : String} (different : fileName platform a ≠ fileName platform b) :
    Apart platform a b ↔ Distinguished platform a b :=
  ⟨distinguished_of_apart, apart_of_distinguished different⟩

end

/-! ### A publisher's names -/

def names : Platform := ⟨fun _ => [], 0, fun _ => ""⟩

theorem apart_publishers : Apart names "publisher.example" "news.publisher.example" ↔
    Distinguished names "publisher.example" "news.publisher.example" :=
  apart_iff names (by decide)

/-- A host named so that another's sweep takes the temporary of its record, and one whose turns are another's back-off. -/
theorem publishers_meet :
    (fileName names "example.com" ≠ fileName names "example.com.json.example.org" ∧
      ¬Apart names "example.com" "example.com.json.example.org") ∧
    leftovers names "example.com" ["example.com.json.example.org.json.4711.1790000000.3.tmp"] =
      ["example.com.json.example.org.json.4711.1790000000.3.tmp"] ∧
    tempPath (fileOf names "example.com.json.example.org" "json") ⟨4711, 1790000000, 3⟩ =
      "example.com.json.example.org.json.4711.1790000000.3.tmp" ∧
    fileName names "publisher" ≠ fileName names "publisher.backoff" ∧
    fileOf names "publisher" "backoff.json" = fileOf names "publisher.backoff" "json" := by
  refine ⟨⟨by decide, ?_⟩, by decide⟩
  intro apart
  have begins : startsWith (fileName names "example.com.json.example.org" ++ ".")
      (fileOf names "example.com" "json" ++ ".") = true := by decide
  rw [(distinguished_of_apart apart).2.2.1] at begins
  cases begins

end CommonMeasure.CrawlDelay
