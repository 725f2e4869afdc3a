import Partbook.Proofs.Source.Lines

namespace Partbook.Source

open Text

namespace Cursor

variable {cursor after : Cursor}

theorem name?_exact {name : Lexeme} (read : cursor.name? = some (name, after)) :
    cursor.rest = name.chars ++ after.rest ∧ isName name.chars := by
  unfold name? at read
  split at read
  · rename_i first second rest parts
    split at read
    · rename_i letters
      cases read
      constructor
      · simp [parts]
      · simp only [isName, letters, Bool.true_and, List.all_eq_true]
        exact fun c member => List.mem_takeWhile_imp member
    · cases read
  · cases read

theorem otherName?_exact {slash name : Lexeme}
    (read : cursor.otherName? = some ((slash, name), after)) :
    cursor.rest = '/' :: (name.chars ++ after.rest) ∧ isName name.chars := by
  simp only [otherName?, Option.bind_eq_bind, Option.bind_eq_some_iff] at read
  obtain ⟨⟨_, behind⟩, first, ⟨_, later⟩, named, read⟩ := read
  cases read
  obtain ⟨c, rest, parts, isSlash, same⟩ := next?_eq_some first
  cases same
  obtain ⟨text, isName⟩ := name?_exact named
  have slash : c = '/' := by simpa using isSlash
  exact ⟨by rw [parts, slash, ← text], isName⟩

theorem consuming_otherName? : Consuming otherName? := fun cursor item after read =>
  (advances_otherName? cursor item after read).2

theorem otherNames_exact (cursor : Cursor) :
    cursor.rest = (cursor.many otherName?).1.flatMap (fun other => '/' :: other.2.chars) ++
        (cursor.many otherName?).2.rest ∧
      ∀ other ∈ (cursor.many otherName?).1, isName other.2.chars := by
  induction cursor using many.induct otherName? with
  | case1 cursor fails =>
    rw [many_of_none fails]
    simp
  | case2 cursor item after read shorter ih =>
    obtain ⟨text, named⟩ := otherName?_exact read
    rw [many_of_some consuming_otherName? read, List.forall_mem_cons, List.flatMap_cons,
      List.append_assoc, ← ih.1]
    exact ⟨text, named, ih.2⟩
  | case3 cursor item after read longer =>
    exact absurd (consuming_otherName? cursor item after read) longer

theorem spacedQuotation?_exact {opening name closing : Lexeme}
    (read : cursor.spacedQuotation? = some (.nickname opening name closing, after)) :
    ∃ gap, gap ≠ [] ∧ (∀ c ∈ gap, isBlank c) ∧ isName name.chars ∧
      cursor.rest = gap ++ '"' :: (name.chars ++ '"' :: after.rest) := by
  simp only [spacedQuotation?, quotation?, quoted?, Option.bind_eq_bind,
    Option.bind_eq_some_iff] at read
  obtain ⟨⟨gap, spaced⟩, blanks, ⟨⟨_, text, _⟩, later⟩,
    ⟨⟨_, opened⟩, opens, ⟨_, closed⟩, closes, same⟩, read⟩ := read
  cases same
  split at read
  · rename_i named
    cases read
    unfold run? at blanks
    split at blanks
    · cases blanks
    · rename_i nonempty
      cases blanks
      obtain ⟨c, inside, visible, isQuote, same⟩ := next?_eq_some opens
      cases same
      obtain ⟨d, rest, remaining, isQuote', same⟩ := next?_eq_some closes
      cases same
      obtain rfl : c = '"' := by simpa using isQuote
      obtain rfl : d = '"' := by simpa using isQuote'
      refine ⟨cursor.rest.takeWhile isBlank, nonempty,
        fun c member => List.mem_takeWhile_imp member, named, ?_⟩
      simp only [run, cut] at visible remaining ⊢
      rw [← remaining, List.takeWhile_append_dropWhile, ← visible,
        List.takeWhile_append_dropWhile]
  · cases read

theorem call?_exact {call : Call} (read : cursor.call? = some (call, after))
    (valid : ∀ text, call.quotation ≠ some (.invalid text)) :
    ∃ line : CallLine, cursor.rest = line.chars ++ after.rest ∧
      call.names.map Lexeme.text = line.name :: line.others ∧
      call.nickname?.map Lexeme.text = line.nickname.map (·.2) := by
  simp only [call?, Option.bind_eq_bind, Option.bind_eq_some_iff] at read
  obtain ⟨⟨name, behind⟩, first, ⟨colon, later⟩, closes, read⟩ := read
  cases read
  obtain ⟨text, named⟩ := name?_exact first
  obtain ⟨others, allNamed⟩ := otherNames_exact behind
  obtain ⟨c, rest, ends, isColon, same⟩ := next?_eq_some closes
  cases same
  obtain rfl : c = ':' := by simpa using isColon
  have called : ∀ given ∈ name.text :: (behind.many otherName?).1.map (fun other => other.2.text),
      isName given.toList := by
    rw [List.forall_mem_cons, List.forall_mem_map]
    exact ⟨by simpa [Lexeme.text] using named,
      fun other member => by simpa [Lexeme.text] using allNamed other member⟩
  have names : (name :: (behind.many otherName?).1.map (·.2)).map Lexeme.text =
      name.text :: (behind.many otherName?).1.map (fun other => other.2.text) := by
    simp
  cases quoted : (behind.many otherName?).2.spacedQuotation? with
  | none =>
    obtain ⟨space, spaces, blank⟩ := skipBlanks_parts (behind.many otherName?).2
    rw [quoted] at ends
    refine ⟨⟨name.text, _, none, space, called, ?_, blank⟩, ?_, names, rfl⟩
    · rintro _ _ ⟨⟩
    rw [text, others, spaces, ends]
    simp [CallLine.chars, CallLine.quotation, Lexeme.text, List.flatMap_map]
  | some found =>
    obtain ⟨quotation, later⟩ := found
    cases quotation with
    | invalid text => exact absurd (by simp only [quoted]) (valid text)
    | nickname opening given closing =>
      obtain ⟨gap, nonempty, blanks, isNickname, spaced⟩ := spacedQuotation?_exact quoted
      obtain ⟨space, spaces, blank⟩ := skipBlanks_parts later
      rw [quoted] at ends
      refine ⟨⟨name.text, _, some (gap, given.text), space, called, ?_, blank⟩, ?_, names, ?_⟩
      · rintro _ _ ⟨⟩
        exact ⟨nonempty, blanks, by simpa [Lexeme.text] using isNickname⟩
      · rw [text, others, spaced, spaces, ends]
        simp [CallLine.chars, CallLine.quotation, Lexeme.text, List.flatMap_map]
      · simp [Call.nickname?]

def Alongside {α : Type} (read read' : Option (α × Cursor)) : Prop :=
  read.map (·.2.rest) = read'.map (·.2.rest)

theorem Alongside.bind {α β : Type} {read read' : Option (α × Cursor)}
    {next next' : α × Cursor → Option (β × Cursor)} (alongside : Alongside read read')
    (later : ∀ found found', found.2.rest = found'.2.rest → Alongside (next found) (next' found')) :
    Alongside (read >>= next) (read' >>= next') := by
  cases read with
  | none =>
    cases read' with
    | none => rfl
    | some found' => cases alongside
  | some found =>
    cases read' with
    | none => cases alongside
    | some found' => exact later found found' (Option.some.inj alongside)

section

variable {other : Cursor} {p : Char → Bool} (same : cursor.rest = other.rest)

include same

theorem alongside_next? : Alongside (cursor.next? p) (other.next? p) := by
  unfold next?
  rw [same]
  split
  · split <;> rfl
  · rfl

theorem rest_run : (cursor.run p).2.rest = (other.run p).2.rest := by
  simp only [run, cut, same]

theorem alongside_run? : Alongside (cursor.run? p) (other.run? p) := by
  unfold run?
  rw [same]
  split
  · rfl
  · exact congrArg some (rest_run same)

theorem alongside_name? : Alongside cursor.name? other.name? := by
  unfold name?
  rw [same]
  split
  · split <;> rfl
  · rfl

theorem alongside_otherName? : Alongside cursor.otherName? other.otherName? :=
  (alongside_next? same).bind fun _ _ same => (alongside_name? same).bind fun _ _ same =>
    congrArg some same

theorem alongside_spacedQuotation? :
    Alongside cursor.spacedQuotation? other.spacedQuotation? := by
  refine (alongside_run? same).bind fun _ _ same => ?_
  refine Alongside.bind (α := Lexeme × Lexeme × Lexeme) ?_ fun found found' same => ?_
  · refine (alongside_next? same).bind fun _ _ same => ?_
    exact (alongside_next? (rest_run same)).bind fun _ _ same => congrArg some same
  · dsimp only
    split <;> split <;> exact congrArg some same

theorem rest_many {α : Type} {step : Cursor → Option (α × Cursor)} (consuming : Consuming step)
    (alongside : ∀ {cursor other : Cursor}, cursor.rest = other.rest →
      Alongside (step cursor) (step other)) :
    (cursor.many step).2.rest = (other.many step).2.rest := by
  have here := alongside same
  induction cursor using many.induct step generalizing other with
  | case1 cursor fails =>
    rw [Alongside, fails, Option.map_none, eq_comm, Option.map_eq_none_iff] at here
    rw [many_of_none fails, many_of_none here]
    exact same
  | case2 cursor item after read shorter ih =>
    rw [Alongside, read, Option.map_some, eq_comm, Option.map_eq_some_iff] at here
    obtain ⟨⟨item', after'⟩, read', rest⟩ := here
    rw [many_of_some consuming read, many_of_some consuming read']
    exact ih rest.symm (alongside rest.symm)
  | case3 cursor item after read longer => exact absurd (consuming _ _ _ read) longer

theorem alongside_call? : Alongside cursor.call? other.call? := by
  refine (alongside_name? same).bind fun found found' same => ?_
  have others := rest_many same consuming_otherName? alongside_otherName?
  have quoted := alongside_spacedQuotation? others
  dsimp only
  refine Alongside.bind ?_ fun _ _ same => congrArg some same
  refine alongside_next? (rest_run ?_)
  cases here : (found.2.many otherName?).2.spacedQuotation? with
  | none =>
    rw [Alongside, here, Option.map_none, eq_comm, Option.map_eq_none_iff] at quoted
    rw [quoted]
    exact others
  | some quotation =>
    rw [Alongside, here, Option.map_some, eq_comm, Option.map_eq_some_iff] at quoted
    obtain ⟨quotation', there, rest⟩ := quoted
    rw [there]
    exact rest.symm

end

theorem startsCall_rest (cursor : Cursor) : startsCall cursor.rest = cursor.call?.isSome := by
  have elsewhere : Alongside (⟨0, cursor.rest⟩ : Cursor).call? cursor.call? := alongside_call? rfl
  rw [startsCall, ← Option.isSome_map, elsewhere, Option.isSome_map]

theorem not_startsCall_of_call? (none : cursor.call? = none) : startsCall cursor.rest = false := by
  rw [startsCall_rest, none]
  rfl

theorem name?_eq_none {c : Char} (other : isLetter c = false) (pos : Nat) (rest : List Char) :
    (Cursor.mk pos (c :: rest)).name? = none := by
  cases rest <;> simp [name?, other]

end Cursor

theorem not_startsCall_of_head {c : Char} (other : isLetter c = false) (rest : List Char) :
    startsCall (c :: rest) = false := by
  simp [startsCall, Cursor.call?, Cursor.name?_eq_none other]

end Partbook.Source
