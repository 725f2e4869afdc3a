import Partbook.Proofs.Grammar.Soundness

namespace Partbook.Grammar

open Source Element

def Token.piece : Token → Piece
  | .event tree => .event tree
  | .separator => .separator ⟨0, []⟩

def joined : List Element → Element
  | [event] => event
  | notes => .plain .chord notes

structure Group (events : List Element) : Prop where
  nonempty : events ≠ []
  single : ∀ event ∈ events, event.kind ≠ .plain .chord
  sounding : 2 ≤ events.length → ∀ event ∈ events, sounds event

theorem kind_of_sounds {event : Element} (sounding : sounds event) :
    event.kind ≠ .plain .chord := by
  simp only [sounds, Bool.or_eq_true, decide_eq_true_eq] at sounding
  rcases sounding with kind | kind <;> simp [kind]

theorem Group.one {event : Element} (single : event.kind ≠ .plain .chord) : Group [event] :=
  ⟨by simp, by simpa using single, by simp⟩

theorem Group.of_sounding {notes : List Element} (nonempty : notes ≠ [])
    (sounding : ∀ note ∈ notes, sounds note) : Group notes :=
  ⟨nonempty, fun note member => kind_of_sounds (sounding note member), fun _ => sounding⟩

theorem joined_of_several {notes : List Element} (several : 2 ≤ notes.length) :
    joined notes = .plain .chord notes := by
  match notes, several with
  | _ :: _ :: _, _ => rfl

theorem chord_joined {events : List Element} (group : Group events) (note : Element) :
    chord (joined events) note = joined (events ++ [note]) := by
  match events, group with
  | [], group => exact absurd rfl group.nonempty
  | [event], group =>
    rw [joined, chord, if_neg (group.single event (by simp))]
    rfl
  | first :: second :: more, group => rfl

theorem joins_joined {events : List Element} (group : Group events) :
    sounds (joined events) || (joined events).kind = .plain .chord ↔
      ∀ event ∈ events, sounds event := by
  match events, group with
  | [], group => exact absurd rfl group.nonempty
  | [event], group => simp [joined, group.single event]
  | first :: second :: more, group =>
    exact ⟨fun _ => group.sounding (by simp), fun _ => rfl⟩

theorem chordTokens_concat {events : List Element} (nonempty : events ≠ []) (note : Element) :
    chordTokens (events ++ [note]) = chordTokens events ++ [.separator, .event note] := by
  induction events with
  | nil => exact absurd rfl nonempty
  | cons event events ih =>
    cases events with
    | nil => rfl
    | cons next events =>
      have rest := ih (by simp)
      simp only [chordTokens, List.cons_append, List.map_cons, List.intersperse_cons_cons] at rest ⊢
      rw [rest]

theorem Phrased.group {events : List Element} (group : Group events) {tokens : List Token}
    {later : List Element} (more : Phrased tokens later) :
    Phrased (chordTokens events ++ tokens) (joined events :: later) := by
  by_cases several : 2 ≤ events.length
  · rw [joined_of_several several]
    exact .chord several (group.sounding several) more
  · match events, group with
    | [], group => exact absurd rfl group.nonempty
    | [_], group => exact .event more
    | _ :: _ :: _, group => exact absurd (by simp) several

theorem assembled_chord {notes more before events : List Element} {all : List Piece}
    (group : Group notes) (sounding : ∀ note ∈ notes ++ more, sounds note)
    (later : Assembled (joined (notes ++ more) :: before) none all events) :
    Assembled (joined notes :: before) none
      (((more.flatMap fun note => [Token.separator, .event note]).map Token.piece) ++ all)
      events := by
  induction more generalizing notes with
  | nil => simpa using later
  | cons note more ih =>
    have first : ∀ event ∈ notes, sounds event :=
      fun event member => sounding event (by simp [member])
    have next : sounds note := sounding note (by simp)
    have longer : Group (notes ++ [note]) := by
      refine .of_sounding (by simp) (List.forall_mem_append.mpr ⟨first, ?_⟩)
      simpa using next
    have same : notes ++ note :: more = (notes ++ [note]) ++ more := by simp
    rw [same] at sounding later
    have rest := ih longer sounding later
    rw [← chord_joined group note] at rest
    exact .separator ((joins_joined group).mpr first) (.joined next rest)

theorem chordTokens_cons (note : Element) (notes : List Element) :
    chordTokens (note :: notes) =
      .event note :: notes.flatMap fun note => [Token.separator, .event note] := by
  induction notes generalizing note with
  | nil => rfl
  | cons next notes ih =>
    have rest := ih next
    simp only [chordTokens, List.map_cons, List.intersperse_cons_cons] at rest ⊢
    rw [rest]
    rfl

theorem Phrased.assembled {tokens : List Token} {events : List Element}
    (phrased : Phrased tokens events) (before : List Element) :
    Assembled before none (tokens.map Token.piece) (before.reverse ++ events) := by
  induction phrased generalizing before with
  | done =>
    rw [List.append_nil]
    exact .done before
  | @event tree tokens events more ih =>
    have later := ih (tree :: before)
    rw [List.reverse_cons, List.append_assoc] at later
    exact .event later
  | @chord notes tokens events several sounding more ih =>
    have later := ih (joined notes :: before)
    rw [List.reverse_cons, List.append_assoc] at later
    obtain ⟨note, notes, rfl⟩ := List.exists_cons_of_ne_nil (List.ne_nil_of_length_pos
      (Nat.lt_of_lt_of_le Nat.zero_lt_two several))
    have first : Group [note] := .one (kind_of_sounds (sounding note (by simp)))
    rw [chordTokens_cons, List.cons_append, List.map_cons, List.map_append,
      ← joined_of_several several]
    exact .event (assembled_chord first sounding later)

/-- The separator behind the latest events, if it is still open. -/
def pending (opened : Option Lexeme) : List Token := if opened.isSome then [.separator] else []

theorem phrased_of_assembled {before events : List Element} {opened : Option Lexeme}
    {all : List Piece} (assembled : Assembled before opened all events) {tokens : List Token}
    (same : all = tokens.map Token.piece)
    (single : ∀ tree, .event tree ∈ tokens → tree.kind ≠ .plain .chord)
    {latest earlier : List Element} (last : before = joined latest :: earlier)
    (group : Group latest) (sounding : opened.isSome → ∀ event ∈ latest, sounds event) :
    ∃ later, events = earlier.reverse ++ later ∧
      Phrased (chordTokens latest ++ (pending opened ++ tokens)) later := by
  -- the latest group may still grow, so it goes back to its tokens in what is claimed of the rest
  induction assembled generalizing tokens latest earlier with
  | done before =>
    obtain rfl : tokens = [] := by simpa using same
    subst last
    exact ⟨[joined latest], by simp, .group group .done⟩
  | comment later ih =>
    obtain ⟨token, tokens, rfl, head, tail⟩ := List.map_eq_cons_iff.mp same.symm
    cases token <;> cases head
  | separator joins later ih =>
    obtain ⟨token, tokens, rfl, head, tail⟩ := List.map_eq_cons_iff.mp same.symm
    cases token with
    | event tree => cases head
    | separator =>
      obtain ⟨rfl, rfl⟩ := List.cons.inj last
      have all := (joins_joined group).mp joins
      exact ih tail.symm (fun tree member => single tree (List.mem_cons_of_mem _ member)) rfl group
        fun _ => all
  | @event element before events all later ih =>
    obtain ⟨token, tokens, rfl, head, tail⟩ := List.map_eq_cons_iff.mp same.symm
    cases token with
    | separator => cases head
    | event tree =>
      cases head
      subst last
      have last : element :: joined latest :: earlier =
          joined [element] :: joined latest :: earlier := rfl
      obtain ⟨rest, rfl, phrased⟩ := ih tail.symm
        (fun tree member => single tree (List.mem_cons_of_mem _ member)) last
        (.one (single element (by simp))) nofun
      refine ⟨joined latest :: rest, by simp, ?_⟩
      exact .group group phrased
  | @joined last element before events slash all sound later ih =>
    obtain ⟨token, tokens, rfl, head, tail⟩ := List.map_eq_cons_iff.mp same.symm
    cases token with
    | separator => cases head
    | event tree =>
      cases head
      obtain ⟨rfl, rfl⟩ := List.cons.inj last
      have all : ∀ event ∈ latest ++ [element], sounds event :=
        List.forall_mem_append.mpr ⟨sounding rfl, by simpa using sound⟩
      have last : chord (joined latest) element :: before =
          joined (latest ++ [element]) :: before := by rw [chord_joined group]
      obtain ⟨rest, rfl, phrased⟩ := ih tail.symm
        (fun tree member => single tree (List.mem_cons_of_mem _ member)) last
        (.of_sounding (by simp) all) nofun
      refine ⟨rest, rfl, ?_⟩
      rw [chordTokens_concat group.nonempty, List.append_assoc] at phrased
      exact phrased

theorem assembled_iff_phrased {tokens : List Token}
    (single : ∀ tree, .event tree ∈ tokens → tree.kind ≠ .plain .chord) {events : List Element} :
    Assembled [] none (tokens.map Token.piece) events ↔ Phrased tokens events := by
  constructor
  · intro assembled
    cases tokens with
    | nil =>
      cases assembled
      exact .done
    | cons token tokens =>
      cases token with
      | separator => cases assembled
      | event tree =>
        cases assembled with
        | event later =>
          have last : [tree] = [joined [tree]] := rfl
          obtain ⟨rest, rfl, phrased⟩ := phrased_of_assembled later rfl
            (fun tree member => single tree (List.mem_cons_of_mem _ member)) last
            (.one (single tree (by simp))) nofun
          exact phrased
  · intro phrased
    exact phrased.assembled []

end Partbook.Grammar
