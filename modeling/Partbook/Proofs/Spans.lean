import Partbook.Proofs.Element.Inner
import Partbook.Proofs.Failures
import Partbook.Proofs.Grammar.Placed

/-!
Where the events and the instruments of a text stand in it. The stretch of text that an event was
read from is read as this event alone, that of an instrument as this instrument. The events of the
score that a text is interpreted as still know their places.
-/
namespace Partbook

open Source Element Cursor Grammar

namespace Source

def slice (text : String) (start stop : Nat) : String :=
  String.ofList (between text.toList start stop)

end Source

namespace Grammar

variable {text : List Char} {cursor after : Cursor}

/-! ## Instruments -/

structure Sited (text : List Char) (call : Element) (events : List Element)
    (start middle stop : Nat) : Prop where
  kind : call.kind = .plain .instrumentCall
  spans : call.Spans start middle
  line : ∃ line : CallLine, call.forgetOrigins = line.element ∧
    text.drop start = line.chars ++ text.drop middle
  forward : start ≤ middle
  within : middle ≤ text.length
  inner : call.Inner
  placed : Placed text middle events.reverse stop

def IsSited (text : List Char) (instrument : Element) : Prop :=
  ∃ call events start middle stop, Sited text call events start middle stop ∧
    instrument = .plain .instrument [call, .plain .musicData events]

theorem inner_spelledOut (call : Call) (origin : Lexeme → Origin) :
    (call.spelledOut origin).Inner := by
  refine inner_node (by simp [Label.kind]) (List.forall_mem_append.mpr ⟨?_, ?_⟩)
  · rw [List.forall_mem_map]
    exact fun name _ => inner_node (by simp [Label.kind]) (by simp)
  · rw [List.forall_mem_map]
    exact fun name _ => inner_node (by simp [Label.kind]) (by simp)

theorem sited_part? (on : On text cursor) {part : Part} (read : cursor.part? = some (part, after))
    {instrument : Element} (built : part.element = .ok instrument) : IsSited text instrument := by
  obtain ⟨behind, called, music, -⟩ := part?_eq_some read
  obtain ⟨line, chars, names, nickname⟩ := call?_exact called (Part.valid_of_element built)
  simp only [Part.element, bind_eq_ok, pure_eq_ok] at built
  obtain ⟨call, made, music', heard, rfl⟩ := built
  have plays := heard
  simp only [musicElement, bind_eq_ok, pure_eq_ok] at plays
  obtain ⟨_, -, events, -, rfl⟩ := plays
  rw [music] at heard
  have begins := on.passes (passes_skipBlanks cursor)
  have advances := advances_call? called
  have here := begins.passes advances.passes
  obtain ⟨stop, placed⟩ := placed_music here heard
  have spans := spans_call? called made
  obtain ⟨origin, rfl⟩ := Call.element_ok made
  rw [begins.rest, here.rest] at chars
  exact ⟨_, events, _, _, stop, ⟨rfl, spans, ⟨line, forget_spelledOut names nickname origin, chars⟩,
    advances.passes.pos_le, here.within, inner_spelledOut _ _, placed⟩, rfl⟩

theorem sited_partElements (on : On text cursor) {instruments : List Element}
    (built : partElements (cursor.many part?).1 = .ok instruments) :
    ∀ instrument ∈ instruments, IsSited text instrument := by
  intro instrument member
  obtain ⟨part, within, made⟩ := exists_part_of_mem built instrument member
  obtain ⟨here, after, on, read⟩ :=
    on.of_mem_many (fun _ _ _ read => (advances_part? read).passes) part within
  exact sited_part? on read made

namespace Sited

variable {call : Element} {events : List Element} {start middle stop : Nat}

theorem spans_instrument (sited : Sited text call events start middle stop) :
    (plain .instrument [call, plain .musicData events]).Spans start stop := by
  refine ⟨?_, ?_⟩
  · rw [start?_plain (by decide), firstStart?, sited.spans.start]
    rfl
  · rw [stop?_plain (by decide)]
    have ends := sited.placed.endAt
    rw [List.reverse_reverse] at ends
    exact lastStop?_cons sited.spans.stop (.plain (by decide) ends)

theorem read (sited : Sited text call events start middle stop) :
    Element.readAs .part false (String.ofList (between text start stop)) =
      .ok (plain .score [plain .instrument [call, plain .musicData events]]).forgetOrigins := by
  obtain ⟨line, same, chars⟩ := sited.line
  obtain ⟨music, behind⟩ := sited.placed.music sited.within
  rw [List.reverse_reverse] at music
  have forward := sited.placed.forward
  have whole : line.chars ++ between text middle stop = between text start stop := by
    refine eq_between (Nat.le_trans sited.forward forward)
      (sited.placed.within sited.within) ?_
    rw [chars, behind, List.append_assoc]
  obtain ⟨alone, built, events'⟩ := music_iff.mp music
  have accepted : Accepted (String.ofList (between text middle stop)) :=
    ⟨_, read_ok_iff.mpr built⟩
  have part : PartText (String.ofList (between text start stop))
      (line, String.ofList (between text middle stop)) := by
    refine ⟨?_, accepted⟩
    rw [String.toList_ofList, String.toList_ofList, whole]
  obtain ⟨instrument, read, forgotten⟩ := part.read
  obtain ⟨_, heard⟩ := heard_of_accepted accepted
  cases built.symm.trans (read_ok_iff.mp heard.read)
  have heardEvents := (eventsIn_of_heard heard false).trans events'
  refine readAs_ok_iff.mpr ⟨_, read_ok_iff.mp read, ?_⟩
  simp only [PartLine.instrument, instrumentOf, forgetOrigins_plain, List.map_cons, List.map_nil,
    forget_callElement, List.flatMap_singleton, heardEvents] at forgotten
  simp only [Bool.false_eq_true, if_false, forgetOrigins_plain, List.map_cons, List.map_nil,
    same, forgotten]

end Sited

/-! ## Whole texts -/

/-- What a text is read as: music, or a score of instruments, perhaps with global attributes. -/
inductive Laid (text : List Char) : Element → Prop
  | music {events : List Element} {stop : Nat} (placed : Placed text 0 events.reverse stop) :
      Laid text (.plain .musicData events)
  | score {instruments : List Element}
      (sited : ∀ instrument ∈ instruments, IsSited text instrument) :
      Laid text (.plain .score instruments)
  | global {changes instruments : List Element} (inner : ∀ change ∈ changes, change.Inner)
      (sited : ∀ instrument ∈ instruments, IsSited text instrument) :
      Laid text (.plain .score (.plain .globalAttributes changes :: instruments))

theorem inner_globalChanges {withChanges : Bool} {changes : List Element}
    (built : globalChanges (cursor.many (preludeItem? withChanges)).1 = .ok changes) :
    ∀ change ∈ changes, change.Inner := by
  induction cursor using many.induct (preludeItem? withChanges) generalizing changes with
  | case1 cursor fails =>
    rw [many_of_none fails] at built
    cases built
    simp
  | case2 cursor item after read shorter ih =>
    rw [many_of_some (consuming_preludeItem? _) read] at built
    rcases preludeItem?_cases read with ⟨group, rfl, -, found⟩ | ⟨lexeme, rfl, -⟩ |
      ⟨lexeme, starts, rfl, -⟩
    · simp only [globalChanges, bind_eq_ok, pure_eq_ok] at built
      obtain ⟨element, here, later, built, rfl⟩ := built
      have inner := inner_of_forgetOrigins (changes?_sound found here).inner
      exact List.forall_mem_append.mpr ⟨inner.children, ih built⟩
    · exact ih built
    · exact ih built
  | case3 cursor item after read longer =>
    exact absurd (consuming_preludeItem? _ _ _ _ read) longer

theorem on_prelude (text : String) (withChanges : Bool) :
    On text.toList ((ofText text).many (preludeItem? withChanges)).2 := by
  have on : On text.toList (ofText text) := ⟨rfl, Nat.zero_le _⟩
  exact on.passes (passes_many (fun _ _ _ read => (advances_preludeItem? read).passes) _)

theorem laid_of_build {rule : StartRule} {text : String} {element : Element}
    (built : build rule text = .ok element) : Laid text.toList element := by
  cases rule with
  | musicData =>
    have shape : musicElement (musicOfText text) = .ok element := built
    simp only [musicElement, bind_eq_ok, pure_eq_ok] at shape
    obtain ⟨_, -, events, -, rfl⟩ := shape
    have on : On text.toList (ofText text) := ⟨rfl, Nat.zero_le _⟩
    obtain ⟨stop, placed⟩ := placed_music on built
    exact .music placed
  | part =>
    obtain ⟨instrument, parts, -, rfl⟩ := Document.partElement_ok_iff.mp built
    exact .score (sited_partElements (on_prelude text false) parts)
  | score =>
    simp only [build, Document.scoreElement, bind_eq_ok, pure_eq_ok] at built
    obtain ⟨changes, globals, instruments, parts, _, -, rfl⟩ := built
    have sited := sited_partElements (on_prelude text true) parts
    cases changes with
    | nil => exact .score sited
    | cons change changes => exact .global (inner_globalChanges globals) sited

theorem Stands.inner {event : Element} {start stop : Nat}
    (stands : Stands text event start stop) : event.Inner := by
  obtain ⟨notes, group, rfl, strung⟩ := stands.heard
  obtain ⟨taken, -, lexed⟩ := strung.alone
  have each : ∀ note ∈ notes, note.Inner := by
    intro note member
    obtain ⟨first, more, same⟩ := List.exists_cons_of_ne_nil group.forget.nonempty
    have within := List.mem_map_of_mem (f := forgetOrigins) member
    rw [same, chordTokens_cons] at lexed
    rw [same] at within
    obtain ⟨_, _, event⟩ := @Lexed.event_of_mem _ _ lexed note.forgetOrigins (by
      rcases List.mem_cons.mp within with first | later
      · simp [first]
      · exact List.mem_cons_of_mem _ (List.mem_flatMap.mpr ⟨_, later, by simp⟩))
    exact inner_of_forgetOrigins event.inner
  rcases notes with _ | ⟨first, _ | ⟨second, more⟩⟩
  · exact absurd rfl group.nonempty
  · exact each first (by simp)
  · exact inner_plain (by decide) each

theorem Placed.inner {before : List Element} {start stop : Nat}
    (placed : Placed text start before stop) : ∀ event ∈ before, event.Inner := by
  intro event member
  obtain ⟨first, last, stands, -⟩ := placed.stands event member
  exact stands.inner

structure InPlace (text : List Char) (element : Element) : Prop where
  instrument : element.kind = .plain .instrument → IsSited text element
  music : element.kind = .plain .musicData → ∃ events start stop,
    element = .plain .musicData events ∧ Placed text start events.reverse stop

def AllInPlace (text : List Char) (element : Element) : Prop :=
  ∀ below ∈ element :: element.descendants, InPlace text below

theorem allInPlace_of_inner {element : Element} (inner : element.Inner) :
    AllInPlace text element := fun below member =>
  ⟨fun kind => absurd kind (inner below member).1, fun kind => absurd kind (inner below member).2⟩

theorem InPlace.all {element : Element} (here : InPlace text element)
    (each : ∀ child ∈ element.children, AllInPlace text child) : AllInPlace text element := by
  intro below member
  rcases eq_or_below member with rfl | ⟨child, within, member⟩
  · exact here
  · exact each child within below member

theorem inPlace_plain {kind : PlainKind} (other : kind ≠ .instrument ∧ kind ≠ .musicData)
    (children : List Element) : InPlace text (plain kind children) := by
  have same : (plain kind children).kind = .plain kind := rfl
  exact ⟨fun wrong => absurd (Kind.plain.inj (same.symm.trans wrong)) other.1,
    fun wrong => absurd (Kind.plain.inj (same.symm.trans wrong)) other.2⟩

theorem Placed.allInPlace {events : List Element} {start stop : Nat}
    (placed : Placed text start events.reverse stop) :
    AllInPlace text (plain .musicData events) := by
  have music : InPlace text (plain .musicData events) :=
    ⟨fun kind => (by cases kind), fun _ => ⟨events, start, stop, rfl, placed⟩⟩
  exact music.all fun event member =>
    allInPlace_of_inner (placed.inner event (List.mem_reverse.mpr member))

theorem IsSited.allInPlace {instrument : Element} (sited : IsSited text instrument) :
    AllInPlace text instrument := by
  have here : InPlace text instrument := by
    refine ⟨fun _ => sited, fun kind => ?_⟩
    obtain ⟨call, events, start, middle, stop, -, rfl⟩ := sited
    cases kind
  obtain ⟨call, events, start, middle, stop, found, rfl⟩ := sited
  refine here.all (List.forall_mem_cons.mpr ⟨allInPlace_of_inner found.inner, ?_⟩)
  exact List.forall_mem_singleton.mpr found.placed.allInPlace

theorem Laid.allInPlace {element : Element} (laid : Laid text element) :
    AllInPlace text element := by
  cases laid with
  | music placed => exact placed.allInPlace
  | score sited =>
    exact (inPlace_plain (by decide) _).all fun child member => (sited child member).allInPlace
  | global inner sited =>
    refine (inPlace_plain (by decide) _).all (List.forall_mem_cons.mpr ⟨?_, ?_⟩)
    · exact allInPlace_of_inner (inner_plain (by decide) inner)
    · exact fun child member => (sited child member).allInPlace

/-! ## The events of scores -/

theorem Sited.events {call : Element} {music : List Element} {start middle stop : Nat}
    (sited : Sited text call music start middle stop) :
    (plain .instrument [call, plain .musicData music]).events = music := by
  have inner : ∀ event ∈ music, event.Inner := fun event member =>
    sited.placed.inner event (List.mem_reverse.mpr member)
  rw [plain, events_node (by simp [Label.kind]), List.flatMap_cons, sited.inner.events,
    List.flatMap_singleton, plain, events_music inner, List.nil_append]

end Grammar

namespace Roster

theorem inner_tracks (group : List Instance) : (tracks group).Inner := by
  refine inner_plain (by decide) ?_
  rw [List.forall_mem_map]
  exact fun inst _ => inner_node (by simp [Label.kind]) (by simp)

theorem events_cast (roster : Roster) (instruments : List Element) :
    (roster.cast instruments).flatMap Element.events =
      instruments.flatMap fun instrument => instrument.children.tail.flatMap Element.events := by
  induction instruments generalizing roster with
  | nil => rfl
  | cons instrument instruments ih =>
    rw [cast, List.flatMap_cons, List.flatMap_cons, ih, withPlayers, plain,
      events_node (by simp [Label.kind]), List.flatMap_cons, (inner_tracks _).events,
      List.nil_append]

end Roster

namespace Interpretation

theorem score_of_read {rule : StartRule} {text : String} {score : Element} {roster : Roster}
    {result : Interpretation} (read : Element.read rule text = .ok score)
    (kind : score.kind = .plain .score) (interpreted : ofScore roster score = .ok result) :
    result.score =
      .plain .score (roster.cast (score.hoistGlobals.childrenOf (.plain .instrument))) := by
  have moved := hoist_of_read read
  have called := (wellCalledScore_of_read read kind).hoist moved
  simp only [ofScore, moved, mapError_ok, bind_eq_ok, pure_eq_ok, mapError_eq_ok,
    Except.ok.injEq] at interpreted
  obtain ⟨_, rfl, _, resolved, _, -, _, -, rfl⟩ := interpreted
  cases (Roster.resolveScore_called called roster).symm.trans resolved
  rfl

theorem exists_ofScore {rule : StartRule} {text : String} {score : Element} {state : Resolution}
    (reached : state.Reached) (read : Element.read rule text = .ok score)
    (kind : score.kind = .plain .score) :
    ∃ result, ofScore state.roster score = .ok result := by
  have other : rule ≠ .musicData := by
    rintro rfl
    have built := read_ok_iff.mp read
    simp only [build, musicElement, bind_eq_ok, pure_eq_ok] at built
    obtain ⟨_, -, _, -, rfl⟩ := built
    cases kind
  exact ⟨_, ofScore_read reached.sound.1 other read⟩

end Interpretation

/-! ## Places kept -/

namespace Grammar

variable {text : List Char}

theorem kind_of_isSited {instrument : Element} (sited : IsSited text instrument) :
    instrument.kind = .plain .instrument := by
  obtain ⟨call, events, start, middle, stop, -, rfl⟩ := sited
  rfl

theorem events_tail {instrument : Element} (sited : IsSited text instrument) :
    instrument.children.tail.flatMap Element.events = instrument.events := by
  obtain ⟨call, events, start, middle, stop, here, rfl⟩ := sited
  rw [plain, events_node (by simp [Label.kind]), Element.children, List.flatMap_cons,
    here.inner.events]
  rfl

theorem childrenOf_sited {label : Label} {origin : Origin} {instruments : List Element}
    (sited : ∀ instrument ∈ instruments, IsSited text instrument) :
    (node label origin instruments).childrenOf (.plain .instrument) = instruments :=
  filter_of_instruments fun instrument member => kind_of_isSited (sited instrument member)

theorem moveGlobals_first {call : Element} (other : call.isA (.plain .musicData) = false)
    (changes events others : List Element) :
    moveGlobals (plain .globalAttributes changes ::
        plain .instrument [call, plain .musicData events] :: others) =
      plain .instrument [call, plain .musicData (plain .attributeChanges changes :: events)]
        :: others := by
  have lead : leadWith (plain .attributeChanges changes) [call, plain .musicData events] =
      [call, plain .musicData (plain .attributeChanges changes :: events)] := by
    rw [leadWith, other]
    rfl
  exact congrArg (plain .instrument · :: others) lead

def playedIn (instruments : List Element) : List Element :=
  instruments.flatMap fun instrument => instrument.children.tail.flatMap Element.events

theorem playedIn_sited {instruments : List Element}
    (sited : ∀ instrument ∈ instruments, IsSited text instrument) :
    playedIn instruments = instruments.flatMap Element.events :=
  List.flatMap_congr fun instrument member => events_tail (sited instrument member)

theorem playedIn_led {call event : Element} {events : List Element} (others : List Element)
    (heard : ∀ other ∈ event :: events, other.Inner) :
    playedIn (plain .instrument [call, plain .musicData (event :: events)] :: others) =
      event :: events ++ playedIn others := by
  have first : (plain .instrument [call, plain .musicData (event :: events)]).children.tail.flatMap
      Element.events = event :: events := (List.flatMap_singleton _ _).trans (events_music heard)
  rw [playedIn, List.flatMap_cons, first]
  rfl

theorem events_score (elements : List Element) :
    (plain .score elements).events = elements.flatMap Element.events := by
  rw [plain, events_node (by simp [Label.kind])]

theorem Laid.events_hoisted {score : Element} (laid : Laid text score)
    (kind : score.kind = .plain .score) :
    ∃ added, playedIn (score.hoistGlobals.childrenOf (.plain .instrument)) =
          added ++ score.events ∧
      ∀ change ∈ added, ∃ globals ∈ score.childrenOf (.plain .globalAttributes),
        change = plain .attributeChanges globals.children := by
  cases laid with
  | music placed => cases kind
  | @score instruments sited =>
    have children : (plain .score instruments).children = instruments := rfl
    have still : moveGlobals instruments = instruments :=
      moveGlobals_of_instruments fun instrument member => kind_of_isSited (sited instrument member)
    refine ⟨[], ?_, by simp⟩
    rw [hoistGlobals, children, still, plain, childrenOf_sited sited, playedIn_sited sited]
    exact (events_score instruments).symm
  | @global changes instruments inner sited =>
    have globals : (plain .globalAttributes changes).events = [] :=
      (inner_plain (by decide) inner).events
    cases instruments with
    | nil =>
      refine ⟨[], ?_, by simp⟩
      rw [events_score, List.flatMap_singleton, globals]
      rfl
    | cons first others =>
      rw [List.forall_mem_cons] at sited
      obtain ⟨call, events, start, middle, stop, here, rfl⟩ := sited.1
      have change : (plain .attributeChanges changes).Inner := inner_plain (by decide) inner
      have heard : ∀ event ∈ plain .attributeChanges changes :: events, event.Inner :=
        List.forall_mem_cons.mpr ⟨change, fun event member =>
          here.placed.inner event (List.mem_reverse.mpr member)⟩
      have led := moveGlobals_first (by rw [isA, here.kind]; rfl) changes events others
      have kept : others.filter (·.isA (.plain .instrument)) = others :=
        @childrenOf_sited _ (.plain .score) {} _ sited.2
      have hoisted : (plain .score (plain .globalAttributes changes ::
            plain .instrument [call, plain .musicData events] :: others)).hoistGlobals.childrenOf
              (.plain .instrument) =
          plain .instrument [call, plain .musicData (plain .attributeChanges changes :: events)]
            :: others := by
        refine (congrArg (List.filter (·.isA (.plain .instrument))) led).trans ?_
        rw [List.filter_cons_of_pos (by rfl), kept]
      refine ⟨[plain .attributeChanges changes], ?_, List.forall_mem_singleton.mpr
        ⟨plain .globalAttributes changes, List.mem_filter.mpr ⟨List.mem_cons_self, rfl⟩, rfl⟩⟩
      rw [hoisted, playedIn_led others heard, playedIn_sited sited.2, events_score,
        List.flatMap_cons, List.flatMap_cons, globals, here.events]
      rfl

end Grammar

namespace Element

def KeepsPlace (copy event : Element) : Prop :=
  copy.same event ∧ copy.start? = event.start? ∧ copy.stop? = event.stop?

/-- The events and the instruments in a tree say where in the text they stand, and that part of the
text says the same when it is read alone. -/
structure Faithful (text : String) (element : Element) : Prop where
  ordered : ∀ music ∈ element :: element.descendants, music.kind = .plain .musicData →
    music.children.Pairwise EndsBefore
  events : ∀ music ∈ element :: element.descendants, music.kind = .plain .musicData →
    ∀ event ∈ music.children, ∃ start stop, event.start? = .ok (some start) ∧
      event.stop? = .ok (some stop) ∧ start < stop ∧ stop ≤ text.length ∧
      readAs .musicData false (slice text start stop) =
        .ok (plain .musicData [event]).forgetOrigins
  instruments : ∀ instrument ∈ element :: element.descendants,
    instrument.kind = .plain .instrument → ∃ start stop, instrument.start? = .ok (some start) ∧
      instrument.stop? = .ok (some stop) ∧
      readAs .part false (slice text start stop) = .ok (plain .score [instrument]).forgetOrigins
  interpreted : element.kind = .plain .score → ∀ state : Resolution, state.Reached →
    ∃ result, Interpretation.ofScore state.roster element = .ok result
  /-- All events of the score are there in the end, at their places. The only others are the changes
  that were global. -/
  kept : element.kind = .plain .score → ∀ roster result,
    Interpretation.ofScore roster element = .ok result →
      ∃ added copies, result.score.events = added ++ copies ∧
        List.Forall₂ KeepsPlace copies element.events ∧
        ∀ change ∈ added, ∃ globals ∈ element.childrenOf (.plain .globalAttributes),
          change = plain .attributeChanges globals.children

theorem readAs_of_music {text : String} {event : Element}
    (music : Music text [event.forgetOrigins]) :
    readAs .musicData false text = .ok (plain .musicData [event]).forgetOrigins := by
  obtain ⟨read, whole, same⟩ := music_iff.mp music
  refine readAs_ok_iff.mpr ⟨_, whole, ?_⟩
  simp only [Bool.false_eq_true, if_false, forgetOrigins_plain, same, List.map_singleton]

theorem keepsPlace_self (event : Element) : event.KeepsPlace event :=
  ⟨same_self event, rfl, rfl⟩

/-- Whatever is read knows where it was read from. -/
theorem faithful_of_readAs {rule : StartRule} {text : String} {element : Element}
    (read : readAs rule true text = .ok element) : Faithful text element := by
  have whole : build rule text = .ok element := by
    obtain ⟨built, whole, same⟩ := readAs_ok_iff.mp read
    rwa [same]
  have laid := laid_of_build whole
  have placed := laid.allInPlace
  constructor
  case ordered =>
    intro music member kind
    obtain ⟨events, start, stop, same, here⟩ := (placed music member).music kind
    have ordered := here.ordered
    rw [List.reverse_reverse] at ordered
    rwa [same]
  case events =>
    intro music member kind event within
    obtain ⟨events, start, stop, same, here⟩ := (placed music member).music kind
    rw [same] at within
    obtain ⟨first, last, stands, -⟩ := here.stands event (List.mem_reverse.mpr within)
    have inside := stands.within
    rw [String.length_toList] at inside
    exact ⟨first, last, stands.spans.start, stands.spans.stop, stands.forward, inside,
      readAs_of_music stands.music⟩
  case instruments =>
    intro instrument member kind
    obtain ⟨call, events, start, middle, stop, sited, rfl⟩ :=
      (placed instrument member).instrument kind
    have spans := sited.spans_instrument
    exact ⟨start, stop, spans.start, spans.stop, sited.read⟩
  case interpreted =>
    intro kind state reached
    exact Interpretation.exists_ofScore reached (read_ok_iff.mpr whole) kind
  case kept =>
    intro kind roster result interpreted
    obtain ⟨added, hoisted, changes⟩ := laid.events_hoisted kind
    refine ⟨added, element.events, ?_, List.forall₂_same.mpr fun event _ => keepsPlace_self event,
      changes⟩
    rw [Interpretation.score_of_read (read_ok_iff.mpr whole) kind interpreted, events_score,
      Roster.events_cast]
    exact hoisted

def bothHands : String :=
  "(tempo 90) piano: c8. # low\n /e-4~(volume 50) r o4\nharp \"left\" : # rests"

theorem faithful_bothHands :
    ∃ score, readAs .score true bothHands = .ok score ∧ Faithful bothHands score := by
  have succeeds : (readAs .score true bothHands).toBool := by decide +kernel
  cases read : readAs .score true bothHands with
  | error error => simp [read, Except.toBool] at succeeds
  | ok score => exact ⟨score, rfl, faithful_of_readAs read⟩

end Element

end Partbook
