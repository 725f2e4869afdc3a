import Partbook.Proofs.Element.Spelled
import Partbook.Proofs.Roster.Bindings
import Partbook.Session

namespace Partbook

namespace Element

def calledNames (instrument : Element) : List Datum :=
  instrument.children.head?.elim [] (Roster.headsOf · .name)

def calledNicknames (instrument : Element) : List Datum :=
  instrument.children.head?.elim [] (Roster.headsOf · .nickname)

def calledNickname (instrument : Element) : Option Datum := instrument.calledNicknames.head?

/-- The instrument's call has the name among its names or as its nickname. -/
def Mentions (instrument : Element) (name : Datum) : Prop :=
  name ∈ instrument.calledNames ∨ instrument.calledNickname = some name

/-- An instrument with a call of one or more names and at most one nickname. All of them can be
looked up, the call has a written form, and nothing in the instrument is a bare node. -/
structure WellCalled (instrument : Element) : Prop where
  notated : instrument.isNotated
  called : ∃ call music text, instrument.children = call :: music ∧
    call.kind = .plain .instrumentCall ∧ call.write = .ok text
  named : instrument.calledNames ≠ []
  nicknamed : instrument.calledNicknames.length ≤ 1
  fixed : ∀ head ∈ instrument.calledNames ++ instrument.calledNicknames, head.isFixed

structure WellCalledScore (score : Element) : Prop where
  notated : allNotated score.children
  called : ∀ instrument ∈ score.childrenOf (.plain .instrument), instrument.WellCalled

theorem wellCalledScore {instruments : List Element}
    (called : ∀ instrument ∈ instruments, instrument.WellCalled) :
    (Element.plain .score instruments).WellCalledScore where
  notated := allNotated_iff.mpr fun instrument member => (called instrument member).notated
  called := fun instrument member => called instrument (List.mem_filter.mp member).1

def players (instrument : Element) : List Instance :=
  (instrument.children.head?.elim [] children).filterMap Session.instance?

def withPlayers (instrument : Element) (group : List Instance) : Element :=
  .plain .instrument (Roster.tracks group :: instrument.children.tail)

@[simp] theorem players_withPlayers (instrument : Element) (group : List Instance) :
    (instrument.withPlayers group).players = group := by
  simp only [withPlayers, players, plain, Roster.tracks, children, List.head?_cons,
    Option.elim_some, List.filterMap_map]
  exact (List.filterMap_congr fun _ _ => rfl).trans List.filterMap_some

def calling (names : List String) (nickname : Option String) : Element :=
  .plain .instrument [.plain .instrumentCall
    (names.map (fun name => .text .name (.text name))
      ++ nickname.toList.map fun nickname => .text .nickname (.text nickname)),
    .plain .musicData []]

theorem heads_map {α : Type} {make : α → Element} {headOf : α → Datum} {kind other : TextKind}
    (labelled : ∀ item, (make item).label = .text other (headOf item))
    (decided : (Kind.text other).isA (.text kind) = (kind == other)) (items : List α) :
    ((items.map make).filter (·.isA (.text kind))).filterMap head? =
      if kind = other then items.map headOf else [] := by
  have isA (item : α) : (make item).isA (.text kind) = (kind == other) := by
    rw [← decided, Element.isA, Element.kind, labelled, Label.kind]
  induction items with
  | nil => simp
  | cons item items ih =>
    rw [List.map_cons, List.filter_cons, isA]
    by_cases same : kind = other
    · simpa [same, head?, labelled, Label.head?] using ih
    · simpa [same] using ih

theorem calledNames_calling (names : List String) (nickname : Option String) :
    (calling names nickname).calledNames = names.map .text := by
  have made (kind : TextKind) (text : String) :
    (Element.text kind (.text text)).label = .text kind (.text text) := rfl
  have heads := heads_map (made .name) (by decide : _ = (TextKind.name == .name)) names
  have none := heads_map (made .nickname) (by decide : _ = (TextKind.name == .nickname))
    nickname.toList
  simp only [if_true, reduceCtorEq, if_false] at heads none
  simp [calledNames, calling, Roster.headsOf, childrenOf, plain, children, heads, none]

theorem calledNicknames_calling (names : List String) (nickname : Option String) :
    (calling names nickname).calledNicknames = nickname.toList.map .text := by
  have made (kind : TextKind) (text : String) :
    (Element.text kind (.text text)).label = .text kind (.text text) := rfl
  have none := heads_map (made .name) (by decide : _ = (TextKind.nickname == .name)) names
  have heads := heads_map (made .nickname) (by decide : _ = (TextKind.nickname == .nickname))
    nickname.toList
  simp only [if_true, reduceCtorEq, if_false] at heads none
  simp [calledNicknames, calling, Roster.headsOf, childrenOf, plain, children, heads, none]

theorem isFixed_headsOf {element : Element} (spelled : element.isSpelled) {kind : TextKind} :
    ∀ head ∈ Roster.headsOf element kind, head.isFixed := by
  intro head member
  obtain ⟨child, within, found⟩ := List.mem_filterMap.mp member
  exact isFixed_of_isSpelled (isSpelled_children spelled child (List.mem_filter.mp within).1) found

theorem wellCalled_of_isSpelled {instrument call : Element} {music : List Element}
    (spelled : instrument.isSpelled) (begins : instrument.children = call :: music)
    (kind : call.kind = .plain .instrumentCall) (named : instrument.calledNames ≠ [])
    (nicknamed : instrument.calledNicknames.length ≤ 1) : instrument.WellCalled := by
  have callSpelled : call.isSpelled := isSpelled_children spelled call (by simp [begins])
  refine ⟨isNotated_of_isSpelled spelled,
    ⟨call, music, _, begins, kind, write_of_isSpelled callSpelled⟩, named, nicknamed, ?_⟩
  rw [calledNames, calledNicknames, begins]
  exact List.forall_mem_append.mpr ⟨isFixed_headsOf callSpelled, isFixed_headsOf callSpelled⟩

theorem wellCalled_calling {names : List String} (named : names ≠ []) (nickname : Option String) :
    (calling names nickname).WellCalled := by
  have texts (kind : TextKind) (other : kind ≠ .number) (texts : List String) :
      ∀ element ∈ texts.map (fun text => Element.text kind (.text text)), element.isSpelled := by
    intro element member
    obtain ⟨text, -, rfl⟩ := List.mem_map.mp member
    cases kind <;> first | rfl | exact absurd rfl other
  refine wellCalled_of_isSpelled ?_ rfl rfl (by simpa [calledNames_calling] using named)
    (by cases nickname <;> simp [calledNicknames_calling])
  refine isSpelled_plain rfl (List.forall_mem_cons.mpr ⟨isSpelled_plain rfl ?_, by simp; rfl⟩)
  exact List.forall_mem_append.mpr ⟨texts .name (by decide) names,
    texts .nickname (by decide) nickname.toList⟩

end Element

namespace Roster

def callFor (roster : Roster) (instrument : Element) : Roster × List Instance :=
  roster.call instrument.calledNames instrument.calledNickname

theorem callNames_eq {instrument call : Element} {music : List Element}
    (called : instrument.WellCalled) (begins : instrument.children = call :: music) :
    callNames call = .ok (instrument.calledNames, instrument.calledNickname) := by
  have names : headsOf call .name = instrument.calledNames := by
    simp [Element.calledNames, begins]
  have nicknames : headsOf call .nickname = instrument.calledNicknames := by
    simp [Element.calledNicknames, begins]
  have nicknamed := called.nicknamed
  simp only [callNames, names, nicknames, Element.calledNickname]
  cases given : instrument.calledNames with
  | nil => exact absurd given called.named
  | cons name others =>
    match instrument.calledNicknames, nicknamed with
    | [], _ | [_], _ => rfl

theorem toList_calledNickname {instrument : Element} (called : instrument.WellCalled) :
    instrument.calledNickname.toList = instrument.calledNicknames := by
  have nicknamed := called.nicknamed
  rw [Element.calledNickname]
  match instrument.calledNicknames, nicknamed with
  | [], _ | [_], _ => rfl

theorem resolve_called {instrument : Element} (called : instrument.WellCalled) (roster : Roster) :
    roster.resolve instrument = .ok ((roster.callFor instrument).1,
      instrument.withPlayers (roster.callFor instrument).2) := by
  obtain ⟨call, music, text, begins, kind, written⟩ := called.called
  have noTracks : call.isA (.plain .tracks) = false := by
    simp [Element.isA, kind, Kind.isA, Kind.ancestry]
  have isCall : call.isA (.plain .instrumentCall) = true := by
    simp [Element.isA, kind, Kind.isA, Kind.ancestry]
  have fixed : (instrument.calledNames ++ instrument.calledNickname.toList).all Datum.isFixed := by
    rw [toList_calledNickname called, List.all_eq_true]
    exact called.fixed
  have notated : Element.allNotated music := by
    have whole := called.notated
    obtain ⟨label, origin, children⟩ := instrument
    rw [show children = call :: music from begins] at whole
    simp only [Element.isNotated, Element.allNotated, Bool.and_eq_true] at whole
    exact whole.2.2
  simp [resolve, begins, noTracks, isCall, callNames_eq called begins, fixed, written, notated,
    callFor, Element.withPlayers, mapError_ok, bind, Except.bind, pure, Except.pure]

def afterCalls (roster : Roster) (instruments : List Element) : Roster :=
  instruments.foldl (fun roster instrument => (roster.callFor instrument).1) roster

def cast (roster : Roster) : List Element → List Element
  | [] => []
  | instrument :: instruments =>
    instrument.withPlayers (roster.callFor instrument).2
      :: cast (roster.callFor instrument).1 instruments

theorem resolveAll_called {instruments : List Element}
    (called : ∀ instrument ∈ instruments, instrument.WellCalled) (roster : Roster) :
    roster.resolveAll instruments =
      .ok (roster.afterCalls instruments, roster.cast instruments) := by
  induction instruments generalizing roster with
  | nil => rfl
  | cons instrument instruments ih =>
    rw [List.forall_mem_cons] at called
    simp only [resolveAll, resolve_called called.1, ih called.2, bind, Except.bind, pure,
      Except.pure, cast]
    rfl

@[simp] theorem length_cast (roster : Roster) (instruments : List Element) :
    (roster.cast instruments).length = instruments.length := by
  induction instruments generalizing roster with
  | nil => rfl
  | cons instrument instruments ih => simp [cast, ih]

theorem afterCalls_append (roster : Roster) (before after : List Element) :
    roster.afterCalls (before ++ after) = (roster.afterCalls before).afterCalls after := by
  simp [afterCalls]

theorem cast_append (roster : Roster) (before after : List Element) :
    roster.cast (before ++ after) =
      roster.cast before ++ (roster.afterCalls before).cast after := by
  induction before generalizing roster with
  | nil => rfl
  | cons instrument before ih => simp [cast, afterCalls, ih]

def playersOf (instruments : List Element) : List Instance := instruments.flatMap Element.players

@[simp] theorem playersOf_append (before after : List Element) :
    playersOf (before ++ after) = playersOf before ++ playersOf after := by
  simp [playersOf]

theorem playersOf_cast_cons (roster : Roster) (instrument : Element) (instruments : List Element) :
    playersOf (roster.cast (instrument :: instruments)) =
      (roster.callFor instrument).2 ++
        playersOf ((roster.callFor instrument).1.cast instruments) := by
  simp [cast, playersOf]

end Roster

end Partbook
